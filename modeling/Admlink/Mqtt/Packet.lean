import Admlink.CString

/-!
# MQTT control packets: `mqtt_pack_*` and `mqtt_unpack_*`

A packer gets the pair `(curr, curr_sz)` of the send queue: `none` when `curr`
is NULL, else the room in bytes. It answers an error, the packed bytes, or
`none` for the 0 that means "does not fit". An unpacker gets the receive
buffer.
-/

namespace Admlink

/-- `enum MQTTErrors`. `zero` is no enumerator: it is what a zeroed client
holds in `error`. -/
inductive MqttErrors
  | zero
  | ok
  | nullptr
  | controlForbiddenType
  | controlInvalidFlags
  | connectClientIdRefused
  | connackForbiddenFlags
  | connackForbiddenCode
  | publishForbiddenQos
  | malformedResponse
  | responseInvalidControlType
  | connectNotCalled
  | sendBufferIsFull
  | socketError
  | malformedRequest
  | recvBufferTooSmall
  | ackOfUnknown
  | connectionRefused
  | subscribeFailed
  | invalidRemainingLength
  | cleanSessionIsRequired
  | reconnecting
deriving DecidableEq, Repr

/-- `error < 0`: all enumerators but `MQTT_OK = 1` count up from `INT_MIN`. -/
def MqttErrors.neg : MqttErrors → Bool
  | .zero => false
  | .ok => false
  | _ => true

/-- `enum MQTTControlPacketType`. -/
inductive ControlType
  | connect | connack | publish | puback | pubrec | pubrel | pubcomp
  | subscribe | suback | unsubscribe | unsuback | pingreq | pingresp | disconnect
deriving DecidableEq, Repr

def ControlType.code : ControlType → Nat
  | .connect => 1
  | .connack => 2
  | .publish => 3
  | .puback => 4
  | .pubrec => 5
  | .pubrel => 6
  | .pubcomp => 7
  | .subscribe => 8
  | .suback => 9
  | .unsubscribe => 10
  | .unsuback => 11
  | .pingreq => 12
  | .pingresp => 13
  | .disconnect => 14

/-! ## Fixed header -/

structure FixedHeader where
  control_type : Nat
  control_flags : Nat
  remaining_length : Nat
deriving DecidableEq, Repr

/-- `mqtt_fixed_header_rules.required_flags`. -/
def requiredFlags (control_type : Nat) : Nat :=
  if control_type = 6 ∨ control_type = 8 ∨ control_type = 10 then 2 else 0

/-- `mqtt_fixed_header_rules.mask_required_flags`, as "the flags are fixed". -/
def flagsAreFixed (control_type : Nat) : Bool :=
  control_type ≠ 0 && control_type ≠ 3 && control_type ≠ 15

def mqttFixedHeaderRuleViolation (h : FixedHeader) : Option MqttErrors :=
  if h.control_type = 0 ∨ h.control_type = 15 then some .controlForbiddenType
  else if flagsAreFixed h.control_type ∧ h.control_flags ≠ requiredFlags h.control_type then
    some .controlInvalidFlags
  else none

/-- The length bytes, seven bits each, low ones first. -/
def packRemainingLength : Nat → Nat → Bytes
  | 0, _ => []
  | fuel + 1, n =>
      if n ≤ 127 then [UInt8.ofNat n]
      else UInt8.ofNat (n % 128 + 128) :: packRemainingLength fuel (n / 128)

abbrev PackResult := Except MqttErrors (Option Bytes)

/-- The bytes of a fixed header. -/
def fixedHeaderBytes (h : FixedHeader) : Bytes :=
  UInt8.ofNat (h.control_type * 16 + h.control_flags % 16) ::
    packRemainingLength 4 h.remaining_length

/-- `mqtt_pack_fixed_header`. It answers 0 as soon as a byte of the header has
no room behind it and, at last, when the rest of the packet would not fit. -/
def mqttPackFixedHeader (room : Option Nat) (h : FixedHeader) : PackResult :=
  match room with
  | none => .error .nullptr
  | some bufsz =>
      match mqttFixedHeaderRuleViolation h with
      | some e => .error e
      | none =>
          if bufsz = 0 then .ok none
          else if 256 * 1024 * 1024 ≤ h.remaining_length then
            .error .invalidRemainingLength
          else
            let hdr := fixedHeaderBytes h
            if bufsz < hdr.length + h.remaining_length then .ok none else .ok (some hdr)

/-- A packer: the fixed header, then the body, for which `remaining_length`
bytes have been found to be free. -/
def packWith (room : Option Nat) (h : FixedHeader) (body : Bytes) : PackResult := do
  match ← mqttPackFixedHeader room h with
  | none => return none
  | some hdr => return some (hdr ++ body)

def mqttPackUint16 (n : Nat) : Bytes := [UInt8.ofNat (n / 256), UInt8.ofNat n]

/-- `__mqtt_pack_str`: the length is cut to 16 bits, and so much is copied. -/
def mqttPackStr (str : Bytes) : Bytes :=
  let length := str.length % 2 ^ 16
  mqttPackUint16 length ++ str.take length

/-- What a `uint32_t` keeps of a length. -/
def toU32 (n : Nat) : Nat := n % 2 ^ 32

/-! ## Packers -/

/-- `MQTT_CONNECT_CLEAN_SESSION`. -/
def connectCleanSession : Nat := 2

/-- `mqtt_pack_connection_request` as the agent calls it: no will, no user
name, no password. -/
def mqttPackConnectionRequest (room : Option Nat) (client_id : Bytes)
    (connect_flags keep_alive : Nat) : PackResult :=
  if client_id = [] ∧ connect_flags / 2 % 2 = 0 then .error .cleanSessionIsRequired
  else
    packWith room ⟨ControlType.connect.code, 0, toU32 (10 + (2 + client_id.length))⟩
      ([0, 4] ++ bytes "MQTT" ++ [4, UInt8.ofNat (connect_flags / 2 % 2 * 2)] ++
        mqttPackUint16 keep_alive ++ mqttPackStr client_id)

def mqttPackDisconnect (room : Option Nat) : PackResult :=
  mqttPackFixedHeader room ⟨ControlType.disconnect.code, 0, 0⟩

def mqttPackPingRequest (room : Option Nat) : PackResult :=
  mqttPackFixedHeader room ⟨ControlType.pingreq.code, 0, 0⟩

/-- `MQTT_PUBLISH_QOS_1`. -/
def publishQos1 : Nat := 2

/-- `(publish_flags & MQTT_PUBLISH_QOS_MASK) >> 1`. -/
def qosOf (flags : Nat) : Nat := flags / 2 % 4

def mqttPackPublishRequest (room : Option Nat) (topic_name : Bytes) (packet_id : Nat)
    (application_message : Bytes) (publish_flags : Nat) : PackResult :=
  if room = none then .error .nullptr
  else
    let qos := qosOf publish_flags
    if qos = 3 then .error .publishForbiddenQos
    else
      let flags := if qos = 0 ∧ publish_flags / 8 % 2 = 1 then publish_flags - 8 else publish_flags
      let pid := if 0 < qos then mqttPackUint16 packet_id else []
      packWith room
        ⟨ControlType.publish.code, flags % 16,
          toU32 ((2 + topic_name.length) + pid.length + application_message.length)⟩
        (mqttPackStr topic_name ++ pid ++ application_message)

/-- PUBACK, PUBREC, PUBREL and PUBCOMP. -/
def mqttPackPubxxxRequest (room : Option Nat) (control_type : ControlType)
    (packet_id : Nat) : PackResult :=
  if room = none then .error .nullptr
  else
    packWith room ⟨control_type.code, if control_type = .pubrel then 2 else 0, 2⟩
      (mqttPackUint16 packet_id)

/-- `mqtt_pack_subscribe_request` with one topic. -/
def mqttPackSubscribeRequest (room : Option Nat) (packet_id : Nat) (topic : Bytes)
    (max_qos : Nat) : PackResult :=
  packWith room ⟨ControlType.subscribe.code, 2, toU32 (2 + (2 + topic.length + 1))⟩
    (mqttPackUint16 packet_id ++ mqttPackStr topic ++ [UInt8.ofNat max_qos])

/-! ## Unpackers -/

/-- `struct mqtt_response_publish`; the two pointers are offsets into the
receive buffer. -/
structure ResponsePublish where
  qos_level : Nat
  topic_name : Nat
  topic_name_size : Nat
  packet_id : Nat
  application_message : Nat
  application_message_size : Nat
deriving DecidableEq, Repr

/-- `struct mqtt_response`: the packets a broker may send. -/
inductive Response
  | connack (return_code : Nat)
  | publish (p : ResponsePublish)
  | puback (packet_id : Nat)
  | pubrec (packet_id : Nat)
  | pubrel (packet_id : Nat)
  | pubcomp (packet_id : Nat)
  | suback (packet_id return_code : Nat)
  | unsuback (packet_id : Nat)
  | pingresp
deriving DecidableEq, Repr

/-- Why unpacking stops: `consumed < 0`, or a read outside the buffer. -/
inductive UnpackError
  | mqtt (e : MqttErrors)
  | fault (f : Fault)
deriving DecidableEq, Repr

/-- A byte of the receive buffer, stale ones included. -/
def peek (buf : Bytes) (i : Nat) : Except UnpackError Nat :=
  match buf[i]? with
  | none => .error (.fault .outOfBounds)
  | some c => .ok c.toNat

def mqttUnpackUint16 (buf : Bytes) (i : Nat) : Except UnpackError Nat := do
  return (← peek buf i) * 256 + (← peek buf (i + 1))

/-- The remaining-length loop: `k` length bytes have been read, their value is
`acc`. The answer is the number of length bytes and the value, or `none` when
the next byte has not arrived. -/
def unpackRemainingLength : Nat → Nat → Nat → Bytes → Except MqttErrors (Option (Nat × Nat))
  | 0, _, _, _ => .error .invalidRemainingLength
  | _ + 1, _, _, [] => .ok none
  | fuel + 1, k, acc, c :: cs =>
      let acc := acc + c.toNat % 128 * 128 ^ k
      if 128 ≤ c.toNat then unpackRemainingLength fuel (k + 1) acc cs
      else .ok (some (k + 1, acc))

/-- `mqtt_unpack_fixed_header` on the bytes received so far: the header and its
length, or `none` when the packet is not complete. -/
def mqttUnpackFixedHeader (received : Bytes) :
    Except MqttErrors (Option (FixedHeader × Nat)) := do
  match received with
  | [] => return none
  | first :: rest =>
      match ← unpackRemainingLength 4 0 0 rest with
      | none => return none
      | some (k, remaining) =>
          let h : FixedHeader := ⟨first.toNat / 16, first.toNat % 16, remaining⟩
          match mqttFixedHeaderRuleViolation h with
          | some e => throw e
          | none =>
              if rest.length - k < remaining then return none else return some (h, 1 + k)

/-- The unsigned 32-bit difference `a - b`. -/
def subU32 (a b : Nat) : Nat := (a + 2 ^ 32 - b) % 2 ^ 32

/-- `mqtt_unpack_publish_response`: the body starts at `buf`. Nothing relates
the topic length to the remaining length; the message size is their unsigned
difference. -/
def mqttUnpackPublishResponse (mem : Bytes) (h : FixedHeader) (buf : Nat) :
    Except UnpackError (ResponsePublish × Nat) := do
  let qos_level := qosOf h.control_flags
  if h.remaining_length < 4 then throw (.mqtt .malformedResponse)
  let topic_name_size ← mqttUnpackUint16 mem buf
  let topic_name := buf + 2
  let next := topic_name + topic_name_size
  let packet_id ← if 0 < qos_level then mqttUnpackUint16 mem next else pure 0
  let message := if 0 < qos_level then next + 2 else next
  let size := subU32 h.remaining_length (topic_name_size + if qos_level = 0 then 2 else 4)
  return (⟨qos_level, topic_name, topic_name_size, packet_id, message, size⟩,
    message + size - buf)

def mqttUnpackConnackResponse (mem : Bytes) (h : FixedHeader) (buf : Nat) :
    Except UnpackError Response := do
  if h.remaining_length ≠ 2 then throw (.mqtt .malformedResponse)
  if 2 ≤ (← peek mem buf) then throw (.mqtt .connackForbiddenFlags)
  let code ← peek mem (buf + 1)
  if 5 < code then throw (.mqtt .connackForbiddenCode)
  return .connack code

/-- A packet whose body is a packet id. -/
def mqttUnpackPubxxxResponse (mem : Bytes) (h : FixedHeader) (buf : Nat) :
    Except UnpackError Nat := do
  if h.remaining_length ≠ 2 then throw (.mqtt .malformedResponse)
  mqttUnpackUint16 mem buf

def mqttUnpackSubackResponse (mem : Bytes) (h : FixedHeader) (buf : Nat) :
    Except UnpackError Response := do
  if h.remaining_length < 3 then throw (.mqtt .malformedResponse)
  return .suback (← mqttUnpackUint16 mem buf) (← peek mem (buf + 2))

/-- `mqtt_unpack_response`: `received` bytes of the receive buffer `mem` have
arrived. The answer is the packet and the number of bytes it says it takes. -/
def mqttUnpackResponse (mem : Bytes) (received : Nat) :
    Except UnpackError (Option (Response × Nat)) := do
  match mqttUnpackFixedHeader (mem.take received) with
  | .error e => throw (.mqtt e)
  | .ok none => return none
  | .ok (some (h, buf)) =>
      match h.control_type with
      | 2 => return some (← mqttUnpackConnackResponse mem h buf, buf + 2)
      | 3 =>
          let (p, n) ← mqttUnpackPublishResponse mem h buf
          return some (.publish p, buf + n)
      | 4 => return some (.puback (← mqttUnpackPubxxxResponse mem h buf), buf + 2)
      | 5 => return some (.pubrec (← mqttUnpackPubxxxResponse mem h buf), buf + 2)
      | 6 => return some (.pubrel (← mqttUnpackPubxxxResponse mem h buf), buf + 2)
      | 7 => return some (.pubcomp (← mqttUnpackPubxxxResponse mem h buf), buf + 2)
      | 9 => return some (← mqttUnpackSubackResponse mem h buf, buf + h.remaining_length)
      | 11 => return some (.unsuback (← mqttUnpackPubxxxResponse mem h buf), buf + 2)
      | 13 => return some (.pingresp, buf)
      | _ => throw (.mqtt .responseInvalidControlType)

/-! ## When a packet fits -/

theorem length_packRemainingLength : ∀ fuel n, (packRemainingLength fuel n).length ≤ fuel
  | 0, _ => by simp [packRemainingLength]
  | fuel + 1, n => by
      unfold packRemainingLength
      split
      · simp
      · have := length_packRemainingLength fuel (n / 128)
        simp only [List.length_cons]
        omega

theorem length_fixedHeaderBytes (h : FixedHeader) :
    0 < (fixedHeaderBytes h).length ∧ (fixedHeaderBytes h).length ≤ 5 := by
  have := length_packRemainingLength 4 h.remaining_length
  simp only [fixedHeaderBytes, List.length_cons]
  omega

/-- With a legal header the only question is whether the packet fits. -/
theorem packWith_legal {h : FixedHeader} (hrule : mqttFixedHeaderRuleViolation h = none)
    (hlen : h.remaining_length < 256 * 1024 * 1024) (bufsz : Nat) (body : Bytes) :
    packWith (some bufsz) h body =
      if bufsz < (fixedHeaderBytes h).length + h.remaining_length then .ok none
      else .ok (some (fixedHeaderBytes h ++ body)) := by
  have hpos := (length_fixedHeaderBytes h).1
  unfold packWith mqttPackFixedHeader
  simp only [hrule]
  by_cases hzero : bufsz = 0
  · rw [if_pos hzero, if_pos (by omega)]
    rfl
  · rw [if_neg hzero, if_neg (by omega)]
    by_cases hfit : bufsz < (fixedHeaderBytes h).length + h.remaining_length
    · rw [if_pos hfit, if_pos hfit]
      rfl
    · rw [if_neg hfit, if_neg hfit]
      rfl

/-- A packet begins with its fixed header. -/
theorem packWith_some {room : Option Nat} {h : FixedHeader} {body packed : Bytes}
    (hpack : packWith room h body = .ok (some packed)) : packed = fixedHeaderBytes h ++ body := by
  unfold packWith mqttPackFixedHeader at hpack
  cases room with
  | none => cases hpack
  | some bufsz =>
      cases hrule : mqttFixedHeaderRuleViolation h with
      | some e =>
          simp only [hrule] at hpack
          cases hpack
      | none =>
          simp only [hrule] at hpack
          split at hpack
          · cases hpack
          · split at hpack
            · cases hpack
            · split at hpack
              · cases hpack
              · cases hpack
                rfl

theorem toU32_of_lt {n : Nat} (h : n < 256 * 1024 * 1024) : toU32 n = n :=
  Nat.mod_eq_of_lt (lt_trans h (by decide))

/-- A string whose length two bytes hold is packed whole. -/
theorem mqttPackStr_short {str : Bytes} (h : str.length < 2 ^ 16) :
    mqttPackStr str = mqttPackUint16 str.length ++ str := by
  rw [mqttPackStr, Nat.mod_eq_of_lt h, List.take_length]

theorem length_mqttPackStr (str : Bytes) :
    (mqttPackStr str).length = 2 + str.length % 2 ^ 16 := by
  rw [mqttPackStr, List.length_append, List.length_take_of_le (Nat.mod_le _ _)]
  rfl

/-- The remaining length of a PUBLISH, before it is cut to 32 bits. -/
def publishRemaining (topic_name application_message : Bytes) (publish_flags : Nat) : Nat :=
  (2 + topic_name.length) + (if 0 < qosOf publish_flags then 2 else 0) +
    application_message.length

/-- The length of a whole PUBLISH. -/
def publishLength (topic_name application_message : Bytes) (publish_flags : Nat) : Nat :=
  let remaining := publishRemaining topic_name application_message publish_flags
  1 + (packRemainingLength 4 remaining).length + remaining

theorem packPublish_legal {topic_name application_message : Bytes} {publish_flags : Nat}
    (hqos : qosOf publish_flags ≠ 3)
    (hlen : publishRemaining topic_name application_message publish_flags < 256 * 1024 * 1024)
    (packet_id : Nat) :
    ∃ packed, ∀ bufsz, mqttPackPublishRequest (some bufsz) topic_name packet_id
        application_message publish_flags =
      if bufsz < publishLength topic_name application_message publish_flags then .ok none
      else .ok (some packed) := by
  let pid := if 0 < qosOf publish_flags then mqttPackUint16 packet_id else []
  let flags :=
    if qosOf publish_flags = 0 ∧ publish_flags / 8 % 2 = 1 then publish_flags - 8 else publish_flags
  let h : FixedHeader := ⟨ControlType.publish.code, flags % 16,
    toU32 ((2 + topic_name.length) + pid.length + application_message.length)⟩
  have hpid : pid.length = if 0 < qosOf publish_flags then 2 else 0 := by
    unfold pid
    split <;> rfl
  have hremaining : h.remaining_length =
      publishRemaining topic_name application_message publish_flags := by
    rw [← toU32_of_lt hlen]
    simp only [h, publishRemaining, hpid]
  have hsize : (fixedHeaderBytes h).length + h.remaining_length =
      publishLength topic_name application_message publish_flags := by
    rw [fixedHeaderBytes, hremaining, List.length_cons, publishLength]
    omega
  refine ⟨fixedHeaderBytes h ++ (mqttPackStr topic_name ++ pid ++ application_message),
    fun bufsz => ?_⟩
  have hpack := packWith_legal (h := h)
    (by simp [h, mqttFixedHeaderRuleViolation, flagsAreFixed, ControlType.code])
    (by rw [hremaining]; exact hlen) bufsz (mqttPackStr topic_name ++ pid ++ application_message)
  rw [hsize] at hpack
  unfold mqttPackPublishRequest
  rw [if_neg (by simp)]
  simp only [if_neg hqos]
  exact hpack

/-! ## Every error is below zero -/

/-- A packer whose errors are all negative. -/
def NegErrors (pack_call : Option Nat → PackResult) : Prop :=
  ∀ room e, pack_call room = .error e → e.neg = true

theorem neg_of_ruleViolation {h : FixedHeader} {e : MqttErrors}
    (he : mqttFixedHeaderRuleViolation h = some e) : e.neg = true := by
  unfold mqttFixedHeaderRuleViolation at he
  split at he
  · cases he; rfl
  · split at he
    · cases he; rfl
    · cases he

theorem negErrors_packFixedHeader (h : FixedHeader) :
    NegErrors (mqttPackFixedHeader · h) := by
  intro room e he
  simp only [mqttPackFixedHeader] at he
  split at he
  · cases he; rfl
  · split at he
    · rename_i hv
      cases he
      exact neg_of_ruleViolation hv
    · split at he
      · cases he
      · split at he
        · cases he; rfl
        · split at he <;> cases he

theorem negErrors_packWith (h : FixedHeader) (body : Bytes) :
    NegErrors (packWith · h body) := by
  intro room e he
  simp only [packWith] at he
  cases hr : mqttPackFixedHeader room h with
  | error e' =>
      rw [hr] at he
      cases he
      exact negErrors_packFixedHeader h room e hr
  | ok r =>
      rw [hr] at he
      cases r <;> cases he

theorem negErrors_packPublishRequest (topic_name : Bytes) (packet_id : Nat)
    (application_message : Bytes) (publish_flags : Nat) :
    NegErrors (mqttPackPublishRequest · topic_name packet_id application_message
      publish_flags) := by
  intro room e he
  simp only [mqttPackPublishRequest] at he
  split at he
  · cases he; rfl
  · split at he
    · cases he; rfl
    · exact negErrors_packWith _ _ room e he

theorem negErrors_packPubxxxRequest (control_type : ControlType) (packet_id : Nat) :
    NegErrors (mqttPackPubxxxRequest · control_type packet_id) := by
  intro room e he
  simp only [mqttPackPubxxxRequest] at he
  split at he
  · cases he; rfl
  · exact negErrors_packWith _ _ room e he

/-- An unpacking step whose MQTT errors are all negative. -/
def NegUnpack {α : Type} (r : Except UnpackError α) : Prop :=
  ∀ e, r = .error (.mqtt e) → e.neg = true

section NegUnpack

variable {α β : Type}

theorem NegUnpack.pure (a : α) : NegUnpack (pure a : Except UnpackError α) := by
  intro e he
  cases he

theorem NegUnpack.throw {e : MqttErrors} (h : e.neg = true) :
    NegUnpack (throw (.mqtt e) : Except UnpackError α) := by
  intro e' he
  cases he
  exact h

theorem NegUnpack.bind {x : Except UnpackError α} {f : α → Except UnpackError β}
    (hx : NegUnpack x) (hf : ∀ a, NegUnpack (f a)) : NegUnpack (x >>= f) := by
  intro e he
  cases x with
  | error e' =>
      cases he
      exact hx e rfl
  | ok a => exact hf a e he

theorem NegUnpack.ite {c : Prop} [Decidable c] {x y : Except UnpackError α}
    (hx : NegUnpack x) (hy : NegUnpack y) : NegUnpack (if c then x else y) := by
  split
  · exact hx
  · exact hy

theorem negUnpack_peek (buf : Bytes) (i : Nat) : NegUnpack (peek buf i) := by
  intro e he
  unfold peek at he
  split at he <;> cases he

theorem negUnpack_uint16 (buf : Bytes) (i : Nat) : NegUnpack (mqttUnpackUint16 buf i) :=
  (negUnpack_peek buf i).bind fun _ => (negUnpack_peek buf (i + 1)).bind fun _ => .pure _

theorem negUnpack_pubxxx (mem : Bytes) (h : FixedHeader) (buf : Nat) :
    NegUnpack (mqttUnpackPubxxxResponse mem h buf) :=
  NegUnpack.ite (.throw rfl) (negUnpack_uint16 mem buf)

theorem negUnpack_suback (mem : Bytes) (h : FixedHeader) (buf : Nat) :
    NegUnpack (mqttUnpackSubackResponse mem h buf) :=
  NegUnpack.ite (.throw rfl) <|
    (negUnpack_uint16 mem buf).bind fun _ => (negUnpack_peek mem (buf + 2)).bind fun _ => .pure _

theorem negUnpack_connack (mem : Bytes) (h : FixedHeader) (buf : Nat) :
    NegUnpack (mqttUnpackConnackResponse mem h buf) := by
  refine NegUnpack.ite (.throw rfl) ((negUnpack_peek mem buf).bind fun _ => ?_)
  refine NegUnpack.ite (.throw rfl) ((negUnpack_peek mem (buf + 1)).bind fun _ => ?_)
  exact NegUnpack.ite (.throw rfl) (.pure _)

theorem negUnpack_publish (mem : Bytes) (h : FixedHeader) (buf : Nat) :
    NegUnpack (mqttUnpackPublishResponse mem h buf) := by
  refine NegUnpack.ite (.throw rfl) ((negUnpack_uint16 mem buf).bind fun _ => ?_)
  refine NegUnpack.ite ((negUnpack_uint16 mem _).bind fun _ => .pure _) (.pure _)

end NegUnpack

theorem neg_of_unpackRemainingLength : ∀ (fuel k acc : Nat) (buf : Bytes) (e : MqttErrors),
    unpackRemainingLength fuel k acc buf = .error e → e.neg = true
  | 0, _, _, _, e, he => by cases he; rfl
  | _ + 1, _, _, [], e, he => by cases he
  | fuel + 1, k, acc, c :: cs, e, he => by
      unfold unpackRemainingLength at he
      split at he
      · exact neg_of_unpackRemainingLength fuel _ _ cs e he
      · cases he

theorem neg_of_unpackFixedHeader {received : Bytes} {e : MqttErrors}
    (he : mqttUnpackFixedHeader received = .error e) : e.neg = true := by
  unfold mqttUnpackFixedHeader at he
  cases received with
  | nil => cases he
  | cons first rest =>
      dsimp only at he
      cases hr : unpackRemainingLength 4 0 0 rest with
      | error e' =>
          rw [hr] at he
          cases he
          exact neg_of_unpackRemainingLength _ _ _ _ _ hr
      | ok r =>
          rw [hr] at he
          cases r with
          | none => cases he
          | some kr =>
              dsimp only [bind, Except.bind] at he
              split at he
              · rename_i hv
                cases he
                exact neg_of_ruleViolation hv
              · split at he <;> cases he

theorem negUnpack_response (mem : Bytes) (received : Nat) :
    NegUnpack (mqttUnpackResponse mem received) := by
  unfold mqttUnpackResponse
  split
  · rename_i hh
    exact .throw (neg_of_unpackFixedHeader hh)
  · exact .pure _
  · rename_i h buf _
    split
    · exact (negUnpack_connack mem h buf).bind fun _ => .pure _
    · exact (negUnpack_publish mem h buf).bind fun _ => .pure _
    · exact (negUnpack_pubxxx mem h buf).bind fun _ => .pure _
    · exact (negUnpack_pubxxx mem h buf).bind fun _ => .pure _
    · exact (negUnpack_pubxxx mem h buf).bind fun _ => .pure _
    · exact (negUnpack_pubxxx mem h buf).bind fun _ => .pure _
    · exact (negUnpack_suback mem h buf).bind fun _ => .pure _
    · exact (negUnpack_pubxxx mem h buf).bind fun _ => .pure _
    · exact .pure _
    · exact .throw rfl

end Admlink
