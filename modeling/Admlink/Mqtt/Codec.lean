import Admlink.MsgHandle

/-!
# What is packed is unpacked again

A packet is read back whole, whatever lies behind it in the buffer, and as long
as a byte of it is missing the reader waits. So the packets a client packs form
a prefix code.
-/

namespace Admlink

open Program

/-! ## Remaining length -/

theorem toNat_digit {n : Nat} (h : n < 256) : (UInt8.ofNat n).toNat = n := by
  rw [UInt8.toNat_ofNat', Nat.mod_eq_of_lt h]

/-- One length byte. -/
theorem unpackRemainingLength_cons (fuel k acc : Nat) {d : Nat} (hd : d < 256) (cs : Bytes) :
    unpackRemainingLength (fuel + 1) k acc (UInt8.ofNat d :: cs) =
      if 128 ≤ d then unpackRemainingLength fuel (k + 1) (acc + d % 128 * 128 ^ k) cs
      else .ok (some (k + 1, acc + d % 128 * 128 ^ k)) := by
  simp only [unpackRemainingLength, toNat_digit hd]

/-- The digits of `n` to the base 128, read behind `k` digits worth `acc`. -/
theorem unpackRemainingLength_pack (rest : Bytes) : ∀ {fuel n : Nat} (k acc : Nat),
    n < 128 ^ (fuel + 1) →
    unpackRemainingLength (fuel + 1) k acc (packRemainingLength (fuel + 1) n ++ rest) =
      .ok (some (k + (packRemainingLength (fuel + 1) n).length, acc + n * 128 ^ k)) := by
  intro fuel
  induction fuel with
  | zero =>
      intro n k acc hn
      have hlast : n ≤ 127 := by omega
      rw [packRemainingLength, if_pos hlast, List.cons_append,
        unpackRemainingLength_cons _ _ _ (by omega), if_neg (by omega), Nat.mod_eq_of_lt (by omega)]
      rfl
  | succ fuel ih =>
      intro n k acc hn
      rw [packRemainingLength]
      by_cases hlast : n ≤ 127
      · rw [if_pos hlast, List.cons_append, unpackRemainingLength_cons _ _ _ (by omega),
          if_neg (by omega), Nat.mod_eq_of_lt (by omega)]
        rfl
      · have hdiv : n / 128 < 128 ^ (fuel + 1) := by
          rw [Nat.div_lt_iff_lt_mul (by decide)]
          rwa [pow_succ] at hn
        -- the digit, and what it leaves for the others
        have hvalue : acc + n % 128 * 128 ^ k + n / 128 * 128 ^ (k + 1) = acc + n * 128 ^ k := by
          have hn : n * 128 ^ k = n % 128 * 128 ^ k + n / 128 * (128 * 128 ^ k) := by
            rw [← Nat.mul_assoc, ← Nat.add_mul, Nat.mul_comm (n / 128), Nat.mod_add_div]
          rw [hn, pow_succ', Nat.add_assoc]
        rw [if_neg hlast, List.cons_append, unpackRemainingLength_cons _ _ _ (by omega),
          if_pos (by omega), ih _ _ hdiv]
        simp only [Nat.add_mod_right, Nat.mod_mod, hvalue, List.length_cons]
        rw [Nat.add_assoc, Nat.add_comm 1]

/-- A length that has arrived in part is waited for. -/
theorem unpackRemainingLength_take : ∀ {fuel n : Nat} (k acc : Nat) {j : Nat},
    j < (packRemainingLength (fuel + 1) n).length →
    unpackRemainingLength (fuel + 1) k acc ((packRemainingLength (fuel + 1) n).take j) =
      .ok none := by
  intro fuel
  induction fuel with
  | zero =>
      intro n k acc j hj
      have hlen := length_packRemainingLength (0 + 1) n
      have hzero : j = 0 := by omega
      rw [hzero, List.take_zero]
      rfl
  | succ fuel ih =>
      intro n k acc j hj
      rw [packRemainingLength] at hj ⊢
      rcases j with _ | j
      · rw [List.take_zero]
        rfl
      · by_cases hlast : n ≤ 127
        · rw [if_pos hlast] at hj
          simp at hj
        · rw [if_neg hlast] at hj ⊢
          rw [List.take_succ_cons, unpackRemainingLength_cons _ _ _ (by omega),
            if_pos (by omega)]
          exact ih _ _ (Nat.lt_of_succ_lt_succ hj)

/-! ## Fixed header -/

/-- The two halves of the first byte, and a length the four bytes can hold. -/
structure FixedHeader.Legal (h : FixedHeader) : Prop where
  control_type : h.control_type < 16
  control_flags : h.control_flags < 16
  remaining_length : h.remaining_length < 256 * 1024 * 1024
  rules : mqttFixedHeaderRuleViolation h = none

section FixedHeader

variable {h : FixedHeader}

theorem FixedHeader.Legal.length_lt (hh : h.Legal) : h.remaining_length < 128 ^ (3 + 1) :=
  hh.remaining_length

theorem FixedHeader.Legal.first (hh : h.Legal) :
    (UInt8.ofNat (h.control_type * 16 + h.control_flags % 16)).toNat =
      h.control_type * 16 + h.control_flags := by
  have htype := hh.control_type
  have hflags := hh.control_flags
  rw [Nat.mod_eq_of_lt hflags, toNat_digit (by omega)]

/-- A header is read back as soon as what it announces has arrived. -/
theorem unpackFixedHeader_pack (hh : h.Legal) (body : Bytes) :
    mqttUnpackFixedHeader (fixedHeaderBytes h ++ body) =
      if body.length < h.remaining_length then .ok none
      else .ok (some (h, (fixedHeaderBytes h).length)) := by
  have htype := hh.control_type
  have hflags := hh.control_flags
  unfold mqttUnpackFixedHeader fixedHeaderBytes
  rw [List.cons_append]
  simp only
  rw [unpackRemainingLength_pack body 0 0 hh.length_lt, except_ok_bind]
  simp only [Nat.zero_add, pow_zero, Nat.mul_one, List.length_append, Nat.add_sub_cancel_left,
    List.length_cons]
  have hheader : (⟨(UInt8.ofNat (h.control_type * 16 + h.control_flags % 16)).toNat / 16,
      (UInt8.ofNat (h.control_type * 16 + h.control_flags % 16)).toNat % 16,
      h.remaining_length⟩ : FixedHeader) = h := by
    rw [hh.first]
    cases h
    simp only [FixedHeader.mk.injEq] at htype hflags ⊢
    exact ⟨by omega, by omega, trivial⟩
  rw [hheader, hh.rules, Nat.add_comm 1]
  rfl

/-- Once that has arrived, what comes behind it does not matter. -/
theorem unpackFixedHeader_whole (hh : h.Legal) {body : Bytes}
    (hbody : h.remaining_length ≤ body.length) (behind : Bytes) (k : Nat) :
    mqttUnpackFixedHeader
        ((fixedHeaderBytes h ++ body ++ behind).take ((fixedHeaderBytes h ++ body).length + k)) =
      .ok (some (h, (fixedHeaderBytes h).length)) := by
  rw [List.take_length_add_append, List.append_assoc, unpackFixedHeader_pack hh, if_neg]
  rw [List.length_append]
  omega

/-- Until then nothing is read. -/
theorem unpackFixedHeader_take (hh : h.Legal) {body : Bytes}
    (hbody : body.length = h.remaining_length) {j : Nat}
    (hj : j < (fixedHeaderBytes h ++ body).length) :
    mqttUnpackFixedHeader ((fixedHeaderBytes h ++ body).take j) = .ok none := by
  by_cases hhdr : (fixedHeaderBytes h).length ≤ j
  · obtain ⟨i, rfl⟩ := Nat.exists_eq_add_of_le hhdr
    rw [List.take_length_add_append, unpackFixedHeader_pack hh, if_pos]
    rw [List.length_append] at hj
    rw [List.length_take]
    omega
  · rw [List.take_append_of_le_length (by omega), fixedHeaderBytes]
    rcases j with _ | j
    · rfl
    · rw [fixedHeaderBytes, List.length_cons] at hhdr
      have hlength : j < (packRemainingLength (3 + 1) h.remaining_length).length :=
        Nat.lt_of_succ_lt_succ (Nat.lt_of_not_le hhdr)
      rw [List.take_succ_cons]
      unfold mqttUnpackFixedHeader
      simp only
      rw [unpackRemainingLength_take 0 0 hlength, except_ok_bind]
      rfl

end FixedHeader

/-! ## Whole packets -/

theorem ControlType.code_lt (t : ControlType) : t.code < 16 := by
  cases t <;> decide

theorem ControlType.code_injective {s t : ControlType} (h : s.code = t.code) : s = t := by
  cases s <;> cases t <;> first | rfl | cases h

/-- A packet is a legal header and the body it announces. -/
structure PackedAs (h : FixedHeader) (body packed : Bytes) : Prop where
  legal : h.Legal
  length : body.length = h.remaining_length
  eq : packed = fixedHeaderBytes h ++ body

theorem packFixedHeader_some {room : Option Nat} {h : FixedHeader} {hdr : Bytes}
    (hpack : mqttPackFixedHeader room h = .ok (some hdr)) :
    mqttFixedHeaderRuleViolation h = none ∧ h.remaining_length < 256 * 1024 * 1024 ∧
      hdr = fixedHeaderBytes h := by
  unfold mqttPackFixedHeader at hpack
  rcases room with _ | bufsz
  · cases hpack
  · rcases hrule : mqttFixedHeaderRuleViolation h with _ | e
    · simp only [hrule] at hpack
      split at hpack
      · cases hpack
      · split at hpack
        · cases hpack
        · rename_i hlen
          split at hpack
          · cases hpack
          · cases hpack
            exact ⟨rfl, Nat.lt_of_not_le hlen, rfl⟩
    · simp only [hrule] at hpack
      cases hpack

theorem packFixedHeader_fits {bufsz : Nat} {h : FixedHeader} {hdr : Bytes}
    (hpack : mqttPackFixedHeader (some bufsz) h = .ok (some hdr)) :
    hdr.length + h.remaining_length ≤ bufsz := by
  unfold mqttPackFixedHeader at hpack
  rcases hrule : mqttFixedHeaderRuleViolation h with _ | e
  · simp only [hrule] at hpack
    split at hpack
    · cases hpack
    · split at hpack
      · cases hpack
      · split at hpack
        · cases hpack
        · rename_i hfits
          cases hpack
          exact Nat.le_of_not_lt hfits
  · simp only [hrule] at hpack
    cases hpack

theorem packFixedHeader_packed {room : Option Nat} {h : FixedHeader} {packed : Bytes}
    (htype : h.control_type < 16) (hflags : h.control_flags < 16) (hbody : h.remaining_length = 0)
    (hpack : mqttPackFixedHeader room h = .ok (some packed)) : PackedAs h [] packed := by
  obtain ⟨hrules, hlen, heq⟩ := packFixedHeader_some hpack
  exact ⟨⟨htype, hflags, hlen, hrules⟩, hbody.symm, by rw [heq, List.append_nil]⟩

theorem packWith_header {room : Option Nat} {h : FixedHeader} {body packed : Bytes}
    (htype : h.control_type < 16) (hflags : h.control_flags < 16)
    (hpack : packWith room h body = .ok (some packed)) :
    h.Legal ∧ packed = fixedHeaderBytes h ++ body := by
  unfold packWith at hpack
  obtain ⟨r, hr, hpack⟩ := except_bind_ok hpack
  rcases r with _ | hdr
  · cases hpack
  · cases hpack
    obtain ⟨hrules, hlen, heq⟩ := packFixedHeader_some hr
    exact ⟨⟨htype, hflags, hlen, hrules⟩, by rw [heq]⟩

theorem packWith_packed {room : Option Nat} {h : FixedHeader} {body packed : Bytes}
    (htype : h.control_type < 16) (hflags : h.control_flags < 16)
    (hbody : body.length = h.remaining_length)
    (hpack : packWith room h body = .ok (some packed)) : PackedAs h body packed := by
  obtain ⟨hlegal, heq⟩ := packWith_header htype hflags hpack
  exact ⟨hlegal, hbody, heq⟩

/-- The DUP flag is one of the four flags of a PUBLISH. -/
theorem FixedHeader.Legal.dup {h : FixedHeader} (hh : h.Legal) (htype : h.control_type = 3)
    {body cs : Bytes} {c : UInt8} (hpacket : c :: cs = fixedHeaderBytes h ++ body) :
    ∃ flags, qosOf flags = qosOf h.control_flags ∧
      FixedHeader.Legal { h with control_flags := flags } ∧
      (c ||| 8) :: cs = fixedHeaderBytes { h with control_flags := flags } ++ body := by
  have hflags : ∀ f < 16, UInt8.ofNat (3 * 16 + f % 16) ||| 8 =
        UInt8.ofNat (3 * 16 + (f ||| 8) % 16) ∧ (f ||| 8) < 16 ∧ qosOf (f ||| 8) = qosOf f := by
    decide
  obtain ⟨hbyte, hlt, hqos⟩ := hflags h.control_flags hh.control_flags
  obtain ⟨hc, hcs⟩ := List.cons.inj hpacket
  refine ⟨h.control_flags ||| 8, hqos, ⟨hh.control_type, hlt, hh.remaining_length, ?_⟩, ?_⟩
  · rcases h with ⟨control_type, flags, remaining⟩
    rw [show control_type = 3 from htype]
    rfl
  · rw [hc, htype, hcs]
    exact congrArg (· :: _) hbyte

theorem packedAs_dup {h : FixedHeader} {body cs : Bytes} {c : UInt8} (htype : h.control_type = 3)
    (hp : PackedAs h body (c :: cs)) :
    ∃ flags, qosOf flags = qosOf h.control_flags ∧
      PackedAs { h with control_flags := flags } body ((c ||| 8) :: cs) := by
  obtain ⟨flags, hqos, hlegal, heq⟩ := hp.legal.dup htype hp.eq
  exact ⟨flags, hqos, hlegal, hp.length, heq⟩

/-- No packer writes past its room. -/
theorem packWith_fits {bufsz : Nat} {h : FixedHeader} {body packed : Bytes}
    (hbody : body.length = h.remaining_length)
    (hpack : packWith (some bufsz) h body = .ok (some packed)) : packed.length ≤ bufsz := by
  unfold packWith at hpack
  obtain ⟨r, hr, hpack⟩ := except_bind_ok hpack
  rcases r with _ | hdr
  · cases hpack
  · cases hpack
    have hfits := packFixedHeader_fits hr
    rw [List.length_append]
    omega

namespace PackedAs

variable {h : FixedHeader} {body packed : Bytes}

/-- The packet is complete, and what is behind it does not matter. -/
theorem unpackFixedHeader (hp : PackedAs h body packed) (behind : Bytes) :
    mqttUnpackFixedHeader (packed ++ behind) = .ok (some (h, (fixedHeaderBytes h).length)) := by
  rw [hp.eq, List.append_assoc, unpackFixedHeader_pack hp.legal, if_neg]
  rw [List.length_append, hp.length]
  omega

/-- A packet that lacks a byte is waited for, whatever is in the buffer behind. -/
theorem unpackResponse_take (hp : PackedAs h body packed) {j : Nat} (hj : j < packed.length)
    (stale : Bytes) : mqttUnpackResponse (packed.take j ++ stale) j = .ok none := by
  have htake : (packed.take j ++ stale).take j = packed.take j := by
    rw [List.take_left' (List.length_take_of_le (by omega))]
  unfold mqttUnpackResponse
  rw [htake, hp.eq, unpackFixedHeader_take hp.legal hp.length (by rwa [← hp.eq])]
  rfl

theorem unpackFixedHeader_take (hp : PackedAs h body packed) (behind : Bytes) (k : Nat) :
    mqttUnpackFixedHeader ((packed ++ behind).take (packed.length + k)) =
      .ok (some (h, (fixedHeaderBytes h).length)) := by
  rw [hp.eq]
  exact unpackFixedHeader_whole hp.legal hp.length.ge behind k

end PackedAs

/-! ## Integers and ranges in the buffer -/

theorem peek_append (front behind : Bytes) (c : UInt8) :
    peek (front ++ c :: behind) front.length = .ok c.toNat := by
  unfold peek
  rw [List.getElem?_append_right (le_refl _), Nat.sub_self]
  rfl

theorem unpackUint16_pack (front behind : Bytes) (n : Nat) :
    mqttUnpackUint16 (front ++ (mqttPackUint16 n ++ behind)) front.length = .ok (n % 2 ^ 16) := by
  have hlow : peek (front ++ (mqttPackUint16 n ++ behind)) (front.length + 1) =
      .ok (UInt8.ofNat n).toNat := by
    have hcons : front ++ (mqttPackUint16 n ++ behind) =
        (front ++ [UInt8.ofNat (n / 256)]) ++ UInt8.ofNat n :: behind := by
      rw [mqttPackUint16, List.append_assoc]
      rfl
    rw [hcons, show front.length + 1 = (front ++ [UInt8.ofNat (n / 256)]).length by simp]
    exact peek_append _ _ _
  have hhigh : peek (front ++ (mqttPackUint16 n ++ behind)) front.length =
      .ok (UInt8.ofNat (n / 256)).toNat := peek_append front (UInt8.ofNat n :: behind) _
  have hvalue : n / 256 % 256 * 256 + n % 256 = n % 2 ^ 16 := by omega
  unfold mqttUnpackUint16
  rw [hhigh, hlow, except_ok_bind, except_ok_bind, UInt8.toNat_ofNat', UInt8.toNat_ofNat', hvalue]
  rfl

theorem copyOut_append (front x behind : Bytes) :
    copyOut (front ++ (x ++ behind)) front.length x.length = .ok x := by
  unfold copyOut
  rw [if_pos (by simp only [List.length_append]; omega), List.drop_left, List.take_left]

theorem copyOut_length {mem x : Bytes} {off size : Nat} (h : copyOut mem off size = .ok x) :
    x.length = size := by
  unfold copyOut at h
  split at h
  · cases h
    rw [List.length_take, List.length_drop]
    omega
  · cases h

/-! ## PUBLISH -/

section Publish

variable {topic_name application_message packed : Bytes} {room : Option Nat}
  {packet_id publish_flags : Nat}

/-- The packet id of a PUBLISH, if its level has one. -/
def publishPid (packet_id publish_flags : Nat) : Bytes :=
  if 0 < qosOf publish_flags then mqttPackUint16 packet_id else []

theorem length_publishPid (packet_id publish_flags : Nat) :
    (publishPid packet_id publish_flags).length = if 0 < qosOf publish_flags then 2 else 0 := by
  unfold publishPid
  split <;> rfl

/-- The bytes of a PUBLISH, and the header in front of them; the length it
announces has wrapped where the packet is too long for 32 bits. -/
structure PublishPacked (topic_name : Bytes) (packet_id : Nat) (application_message : Bytes)
    (publish_flags : Nat) (h : FixedHeader) (packed : Bytes) : Prop where
  control_type : h.control_type = 3
  qos : qosOf h.control_flags = qosOf publish_flags
  remaining_length :
    h.remaining_length = toU32 (publishRemaining topic_name application_message publish_flags)
  legal : h.Legal
  eq : packed = fixedHeaderBytes h ++
    (mqttPackStr topic_name ++ publishPid packet_id publish_flags ++ application_message)

theorem packPublish_packed
    (hpack : mqttPackPublishRequest room topic_name packet_id application_message publish_flags =
      .ok (some packed)) :
    ∃ h, PublishPacked topic_name packet_id application_message publish_flags h packed := by
  unfold mqttPackPublishRequest at hpack
  split at hpack
  · cases hpack
  · simp only at hpack
    split at hpack
    · cases hpack
    · -- DUP is dropped at level 0; the level itself stays
      have hflags : ∀ n : Nat, n = (if qosOf publish_flags = 0 ∧ publish_flags / 8 % 2 = 1 then
          publish_flags - 8 else publish_flags) → qosOf (n % 16) = qosOf publish_flags := by
        intro n hn
        unfold qosOf at hn ⊢
        split at hn <;> omega
      have hlength : (2 + topic_name.length) + (publishPid packet_id publish_flags).length +
          application_message.length =
          publishRemaining topic_name application_message publish_flags := by
        rw [length_publishPid, publishRemaining]
      change packWith room ⟨_, _, toU32 ((2 + topic_name.length) +
        (publishPid packet_id publish_flags).length + application_message.length)⟩
        (mqttPackStr topic_name ++ publishPid packet_id publish_flags ++ application_message) =
          _ at hpack
      rw [hlength] at hpack
      obtain ⟨hlegal, heq⟩ :=
        packWith_header ControlType.publish.code_lt (Nat.mod_lt _ (by decide)) hpack
      exact ⟨_, rfl, hflags _ rfl, rfl, hlegal, heq⟩

/-- The reader hands back what was packed, and where the packet ends. -/
structure PublishRead (mem : Bytes) (received : Nat) (topic_name : Bytes) (packet_id : Nat)
    (application_message : Bytes) (publish_flags : Nat) (p : ResponsePublish)
    (consumed : Nat) : Prop where
  answer : mqttUnpackResponse mem received = .ok (some (.publish p, consumed))
  qos_level : p.qos_level = qosOf publish_flags
  topic_name : copyOut mem p.topic_name p.topic_name_size = .ok topic_name
  packet_id : 0 < qosOf publish_flags → p.packet_id = packet_id
  application_message :
    copyOut mem p.application_message p.application_message_size = .ok application_message

/-- Where topic and message lie behind a header of `start` bytes. -/
def publishBehind (start : Nat) (topic_name : Bytes) (packet_id : Nat)
    (application_message : Bytes) (publish_flags : Nat) : ResponsePublish :=
  { qos_level := qosOf publish_flags
    topic_name := start + 2
    topic_name_size := topic_name.length
    packet_id := if 0 < qosOf publish_flags then packet_id % 2 ^ 16 else 0
    application_message :=
      start + 2 + topic_name.length + (publishPid packet_id publish_flags).length
    application_message_size := application_message.length }

namespace PublishPacked

variable {h : FixedHeader} {mem behind : Bytes}

/-- The two bytes behind the header hold the topic length modulo `2 ^ 16`. -/
theorem topicSize
    (hp : PublishPacked topic_name packet_id application_message publish_flags h packed)
    (behind : Bytes) :
    mqttUnpackUint16 (packed ++ behind) (fixedHeaderBytes h).length =
      .ok (topic_name.length % 2 ^ 16) := by
  rw [hp.eq, mqttPackStr]
  simp only [List.append_assoc]
  rw [unpackUint16_pack, Nat.mod_mod]

theorem laidOut (hp : PublishPacked topic_name packet_id application_message publish_flags h packed)
    (htopic : topic_name.length < 2 ^ 16) (behind : Bytes) :
    packed ++ behind = fixedHeaderBytes h ++ (mqttPackUint16 topic_name.length ++ (topic_name ++
      (publishPid packet_id publish_flags ++ (application_message ++ behind)))) := by
  rw [hp.eq, mqttPackStr_short htopic]
  simp only [List.append_assoc]

theorem length_body (htopic : topic_name.length < 2 ^ 16) (packet_id : Nat)
    (application_message : Bytes) (publish_flags : Nat) :
    (mqttPackStr topic_name ++ publishPid packet_id publish_flags ++ application_message).length =
      publishRemaining topic_name application_message publish_flags := by
  rw [List.length_append, List.length_append, length_mqttPackStr, length_publishPid,
    Nat.mod_eq_of_lt htopic, publishRemaining]

/-- A PUBLISH whose lengths fit their fields is a packet. -/
theorem packedAs
    (hp : PublishPacked topic_name packet_id application_message publish_flags h packed)
    (htopic : topic_name.length < 2 ^ 16)
    (hsize : publishRemaining topic_name application_message publish_flags < 2 ^ 32) :
    PackedAs h
      (mqttPackStr topic_name ++ publishPid packet_id publish_flags ++ application_message)
      packed := by
  refine ⟨hp.legal, ?_, hp.eq⟩
  rw [length_body htopic, hp.remaining_length, toU32, Nat.mod_eq_of_lt hsize]

/-- A PUBLISH that is marked as a duplicate is still that PUBLISH. -/
theorem dup {c : UInt8} {cs : Bytes}
    (hp : PublishPacked topic_name packet_id application_message publish_flags h (c :: cs)) :
    ∃ h', PublishPacked topic_name packet_id application_message publish_flags h'
      ((c ||| 8) :: cs) := by
  obtain ⟨flags, hqos, hlegal, heq⟩ := hp.legal.dup hp.control_type hp.eq
  exact ⟨{ h with control_flags := flags }, hp.control_type, hqos.trans hp.qos,
    hp.remaining_length, hlegal, heq⟩

/-- The header announces no more than there is. -/
theorem unpackFixedHeader_take
    (hp : PublishPacked topic_name packet_id application_message publish_flags h packed)
    (htopic : topic_name.length < 2 ^ 16) (behind : Bytes) (k : Nat) :
    mqttUnpackFixedHeader ((packed ++ behind).take (packed.length + k)) =
      .ok (some (h, (fixedHeaderBytes h).length)) := by
  rw [hp.eq]
  apply unpackFixedHeader_whole hp.legal
  rw [length_body htopic, hp.remaining_length]
  exact Nat.mod_le _ _

/-- The body of a packed PUBLISH, as long as the fields hold the lengths of its
topic and of its message. -/
theorem unpackPublish
    (hp : PublishPacked topic_name packet_id application_message publish_flags h packed)
    (htopic : topic_name.length < 2 ^ 16) (hmessage : application_message.length < 2 ^ 32)
    (hlong : 4 ≤ h.remaining_length) (hmem : mem = packed ++ behind) :
    mqttUnpackPublishResponse mem h (fixedHeaderBytes h).length =
      .ok (publishBehind (fixedHeaderBytes h).length topic_name packet_id application_message
        publish_flags, publishRemaining topic_name application_message publish_flags) := by
  have hremaining := hp.remaining_length
  have htopicSize : mqttUnpackUint16 mem (fixedHeaderBytes h).length =
      .ok topic_name.length := by
    rw [hmem, hp.topicSize, Nat.mod_eq_of_lt htopic]
  rw [hp.laidOut htopic] at hmem
  have hpid : 0 < qosOf publish_flags →
      mqttUnpackUint16 mem ((fixedHeaderBytes h).length + 2 + topic_name.length) =
        .ok (packet_id % 2 ^ 16) := by
    intro hpos
    have hfront : mem = (fixedHeaderBytes h ++ mqttPackUint16 topic_name.length ++ topic_name) ++
        (mqttPackUint16 packet_id ++ (application_message ++ behind)) := by
      rw [hmem, publishPid, if_pos hpos]
      simp only [List.append_assoc]
    have hlength : (fixedHeaderBytes h).length + 2 + topic_name.length =
        (fixedHeaderBytes h ++ mqttPackUint16 topic_name.length ++ topic_name).length := by
      simp only [List.length_append]
      rfl
    rw [hlength, hfront, unpackUint16_pack]
  unfold mqttUnpackPublishResponse
  simp only [if_neg (Nat.not_lt.mpr hlong), hp.qos]
  unfold toU32 publishRemaining at hremaining
  unfold publishBehind publishRemaining
  rw [length_publishPid]
  -- the subtraction of the reader undoes the wrap of the packer
  by_cases hpos : 0 < qosOf publish_flags
  · have hne : qosOf publish_flags ≠ 0 := by omega
    simp only [if_pos hpos, if_neg hne] at hremaining ⊢
    have hsize : subU32 h.remaining_length (topic_name.length + 4) =
        application_message.length := by
      unfold subU32
      omega
    have hend : (fixedHeaderBytes h).length + 2 + topic_name.length + 2 +
        application_message.length - (fixedHeaderBytes h).length =
        2 + topic_name.length + 2 + application_message.length := by omega
    simp only [htopicSize, hpid hpos, except_ok_bind, hsize, hend]
    rfl
  · have hzero : qosOf publish_flags = 0 := by omega
    simp only [if_neg hpos, if_pos hzero] at hremaining ⊢
    have hsize : subU32 h.remaining_length (topic_name.length + 2) =
        application_message.length := by
      unfold subU32
      omega
    have hend : (fixedHeaderBytes h).length + 2 + topic_name.length +
        application_message.length - (fixedHeaderBytes h).length =
        2 + topic_name.length + application_message.length := by omega
    simp only [htopicSize, pure_bind, except_ok_bind, hsize, hend]
    rfl

/-- What was packed is handed back. -/
theorem read
    (hp : PublishPacked topic_name packet_id application_message publish_flags h packed)
    (hpid : packet_id < 2 ^ 16) (htopic : topic_name.length < 2 ^ 16)
    (hmessage : application_message.length < 2 ^ 32) (hlong : 4 ≤ h.remaining_length)
    (behind : Bytes) (k : Nat) :
    PublishRead (packed ++ behind) (packed.length + k) topic_name packet_id application_message
      publish_flags
      (publishBehind (fixedHeaderBytes h).length topic_name packet_id application_message
        publish_flags) packed.length := by
  have hr := hp.unpackPublish htopic hmessage hlong (rfl : packed ++ behind = packed ++ behind)
  have hconsumed : (fixedHeaderBytes h).length +
      publishRemaining topic_name application_message publish_flags = packed.length := by
    rw [hp.eq, List.length_append, length_body htopic]
  refine ⟨?_, rfl, ?_, ?_, ?_⟩
  · unfold mqttUnpackResponse
    rw [hp.unpackFixedHeader_take htopic behind k]
    simp only [hp.control_type, hr, except_ok_bind, hconsumed]
    rfl
  · have hfront : packed ++ behind = (fixedHeaderBytes h ++ mqttPackUint16 topic_name.length) ++
        (topic_name ++ (publishPid packet_id publish_flags ++
          (application_message ++ behind))) := by
      rw [hp.laidOut htopic, List.append_assoc]
    have hcopy := copyOut_append (fixedHeaderBytes h ++ mqttPackUint16 topic_name.length)
      topic_name (publishPid packet_id publish_flags ++ (application_message ++ behind))
    rwa [← hfront, List.length_append] at hcopy
  · intro hpos
    rw [publishBehind, if_pos hpos]
    exact Nat.mod_eq_of_lt hpid
  · have hfront : packed ++ behind = (fixedHeaderBytes h ++ mqttPackUint16 topic_name.length ++
        topic_name ++ publishPid packet_id publish_flags) ++ (application_message ++ behind) := by
      rw [hp.laidOut htopic]
      simp only [List.append_assoc]
    have hcopy := copyOut_append (fixedHeaderBytes h ++ mqttPackUint16 topic_name.length ++
        topic_name ++ publishPid packet_id publish_flags) application_message behind
    rwa [← hfront, List.length_append, List.length_append, List.length_append] at hcopy

end PublishPacked

/-- The topic length is taken from the packet, and the message size has 32 bits. -/
theorem unpackPublish_sizes {mem : Bytes} {h : FixedHeader} {buf n : Nat} {p : ResponsePublish}
    (hr : mqttUnpackPublishResponse mem h buf = .ok (p, n)) :
    4 ≤ h.remaining_length ∧ mqttUnpackUint16 mem buf = .ok p.topic_name_size ∧
      p.application_message_size < 2 ^ 32 := by
  unfold mqttUnpackPublishResponse at hr
  have hsub : ∀ a b, subU32 a b < 2 ^ 32 := fun _ _ => Nat.mod_lt _ (by decide)
  by_cases hlong : h.remaining_length < 4
  · simp only [if_pos hlong] at hr
    cases hr
  · simp only [if_neg hlong] at hr
    obtain ⟨topic, htopic, hr⟩ := except_bind_ok hr
    refine ⟨by omega, ?_⟩
    by_cases hqos : 0 < qosOf h.control_flags
    · simp only [if_pos hqos] at hr
      obtain ⟨pid, -, hr⟩ := except_bind_ok hr
      cases hr
      exact ⟨htopic, hsub _ _⟩
    · simp only [if_neg hqos] at hr
      cases hr
      exact ⟨htopic, hsub _ _⟩

/-- A PUBLISH is read back exactly when 16 bits hold the length of its topic and
32 bits that of its message, and the length its header announces is at least
four: the reader takes a shorter one for malformed. -/
theorem publishRead_iff
    (hpack : mqttPackPublishRequest room topic_name packet_id application_message publish_flags =
      .ok (some packed)) (hpid : packet_id < 2 ^ 16) (behind : Bytes) (k : Nat) :
    (∃ p, PublishRead (packed ++ behind) (packed.length + k) topic_name packet_id
        application_message publish_flags p packed.length) ↔
      topic_name.length < 2 ^ 16 ∧ application_message.length < 2 ^ 32 ∧
        4 ≤ toU32 (publishRemaining topic_name application_message publish_flags) := by
  obtain ⟨h, hp⟩ := packPublish_packed hpack
  rw [← hp.remaining_length]
  constructor
  · rintro ⟨p, hread⟩
    have hanswer := hread.answer
    unfold mqttUnpackResponse at hanswer
    have htake : (packed ++ behind).take (packed.length + k) = fixedHeaderBytes h ++
        (mqttPackStr topic_name ++ publishPid packet_id publish_flags ++ application_message ++
          behind.take k) := by
      rw [List.take_length_add_append, hp.eq, List.append_assoc]
    rw [htake, unpackFixedHeader_pack hp.legal] at hanswer
    by_cases hpart : (mqttPackStr topic_name ++ publishPid packet_id publish_flags ++
        application_message ++ behind.take k).length < h.remaining_length
    · -- a header that announces more than there is is waited for
      rw [if_pos hpart] at hanswer
      cases hanswer
    · rw [if_neg hpart] at hanswer
      simp only [hp.control_type] at hanswer
      obtain ⟨⟨p', n⟩, hr, hanswer⟩ := except_bind_ok hanswer
      have hp' : p' = p :=
        Response.publish.inj (Prod.mk.inj (Option.some.inj (Except.ok.inj hanswer))).1
      rw [hp'] at hr
      obtain ⟨hlong, htopic, hmessage⟩ := unpackPublish_sizes hr
      rw [hp.topicSize] at htopic
      have htopicLength := copyOut_length hread.topic_name
      rw [← Except.ok.inj htopic] at htopicLength
      refine ⟨?_, ?_, hlong⟩
      · rw [htopicLength]
        exact Nat.mod_lt _ (by decide)
      · rwa [copyOut_length hread.application_message]
  · rintro ⟨htopic, hmessage, hlong⟩
    exact ⟨_, hp.read hpid htopic hmessage hlong behind k⟩

/-- `ab` on topic `t` at QoS 1. -/
theorem publishRead_ab :
    (∃ p, PublishRead [0x32, 7, 0, 1, 116, 0, 9, 97, 98, 0xff] 10 [116] 9 [97, 98] publishQos1 p
        9) ↔
      1 < 2 ^ 16 ∧ 2 < 2 ^ 32 ∧ 4 ≤ toU32 (publishRemaining [116] [97, 98] publishQos1) :=
  publishRead_iff (show mqttPackPublishRequest (some 100) [116] 9 [97, 98] publishQos1 =
    .ok (some [0x32, 7, 0, 1, 116, 0, 9, 97, 98]) by decide) (by decide) [0xff] 1

end Publish

/-! ## Acknowledgements -/

/-- The packet that `__mqtt_puback` and its siblings send, as its reader sees it. -/
def ackOf (packet_id : Nat) : ControlType → Option Response
  | .puback => some (.puback packet_id)
  | .pubrec => some (.pubrec packet_id)
  | .pubrel => some (.pubrel packet_id)
  | .pubcomp => some (.pubcomp packet_id)
  | _ => none

section Ack

variable {room : Option Nat} {control_type : ControlType} {packet_id : Nat} {packed : Bytes}
  {r : Response}

theorem packPubxxx_packed
    (hpack : mqttPackPubxxxRequest room control_type packet_id = .ok (some packed)) :
    PackedAs ⟨control_type.code, if control_type = .pubrel then 2 else 0, 2⟩
      (mqttPackUint16 packet_id) packed := by
  unfold mqttPackPubxxxRequest at hpack
  split at hpack
  · cases hpack
  · refine packWith_packed control_type.code_lt ?_ rfl hpack
    dsimp only
    split <;> decide

theorem unpackPubxxx_packed {flags : Nat}
    (hp : PackedAs ⟨control_type.code, flags, 2⟩ (mqttPackUint16 packet_id) packed)
    (hpid : packet_id < 2 ^ 16) (behind : Bytes) :
    mqttUnpackPubxxxResponse (packed ++ behind) ⟨control_type.code, flags, 2⟩
      (fixedHeaderBytes ⟨control_type.code, flags, 2⟩).length = .ok packet_id := by
  unfold mqttUnpackPubxxxResponse
  simp only [ne_eq, not_true_eq_false, ↓reduceIte]
  rw [hp.eq, List.append_assoc]
  rw [unpackUint16_pack, Nat.mod_eq_of_lt hpid]

theorem unpackResponse_ack
    (hpack : mqttPackPubxxxRequest room control_type packet_id = .ok (some packed))
    (hpid : packet_id < 2 ^ 16) (hr : ackOf packet_id control_type = some r) (behind : Bytes)
    (k : Nat) :
    mqttUnpackResponse (packed ++ behind) (packed.length + k) = .ok (some (r, packed.length)) := by
  have hp := packPubxxx_packed hpack
  have hhdr := hp.unpackFixedHeader_take behind k
  have hbody := unpackPubxxx_packed hp hpid behind
  have hconsumed : packed.length =
      (fixedHeaderBytes ⟨control_type.code, if control_type = .pubrel then 2 else 0, 2⟩).length +
        2 := by
    rw [hp.eq, List.length_append]
    rfl
  unfold mqttUnpackResponse
  rw [hhdr]
  rcases control_type <;> cases hr
  all_goals
    rw [hconsumed]
    simp only [ControlType.code] at hbody ⊢
    rw [hbody]
    rfl

/-- An acknowledgement is waited for until its four bytes are there, and then
read back. -/
theorem ack_read (hpack : mqttPackPubxxxRequest room control_type packet_id = .ok (some packed))
    (hpid : packet_id < 2 ^ 16) (hr : ackOf packet_id control_type = some r) (received : Nat)
    (stale : Bytes) :
    mqttUnpackResponse (packed.take received ++ stale) received =
      if received < packed.length then .ok none else .ok (some (r, packed.length)) := by
  by_cases hpart : received < packed.length
  · rw [if_pos hpart]
    exact (packPubxxx_packed hpack).unpackResponse_take hpart stale
  · obtain ⟨k, rfl⟩ := Nat.exists_eq_add_of_le (Nat.le_of_not_lt hpart)
    rw [if_neg hpart, List.take_of_length_le (Nat.le_add_right _ _)]
    exact unpackResponse_ack hpack hpid hr stale k

theorem ack_read_pubrel :
    mqttUnpackResponse ([0x62, 2, 0x12, 0x34].take 4 ++ [0xff]) 4 =
      if 4 < 4 then .ok none else .ok (some (.pubrel 0x1234, 4)) :=
  ack_read (show mqttPackPubxxxRequest (some 100) .pubrel 0x1234 =
    .ok (some [0x62, 2, 0x12, 0x34]) by decide) (by decide) rfl 4 [0xff]

end Ack

end Admlink
