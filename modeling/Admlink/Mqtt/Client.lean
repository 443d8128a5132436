import Admlink.Mqtt.Packet

/-!
# The MQTT client: send queue, packet ids and the calls that only pack

The send queue shares one block between packed bytes, which grow upwards, and
`struct mqtt_queued_message` headers, which grow downwards. Entries keep their
own bytes here, oldest first: registering appends, cleaning drops a prefix and
moves the rest down, so the bytes stay contiguous and `curr_sz` is a function
of the entries.
-/

namespace Admlink

/-! ## Send queue -/

/-- `enum MQTTQueuedMessageState`. -/
inductive QueuedState
  | unsent | awaitingAck | complete
deriving DecidableEq, Repr

/-- `struct mqtt_queued_message` with the bytes `start .. start + size`.
`packet_id` is `none` where no call writes the member: it keeps `leftover`, what
was in that place of the block before. `seqno` is no part of the code: it names
the request a PUBLISH was packed for. -/
structure QueuedMessage where
  start : Bytes
  state : QueuedState
  time_sent : Nat
  control_type : ControlType
  packet_id : Option Nat
  seqno : Option Nat
  leftover : Nat
deriving DecidableEq, Repr

/-- The member `packet_id` as it is read. -/
def QueuedMessage.storedId (m : QueuedMessage) : Nat := m.packet_id.getD m.leftover

/-- A message as it is registered: unsent. -/
def QueuedMessage.new (packed : Bytes) (control_type : ControlType)
    (packet_id seqno : Option Nat) (leftover : Nat) : QueuedMessage :=
  ⟨packed, .unsent, 0, control_type, packet_id, seqno, leftover⟩

namespace QueuedMessage

variable (packed : Bytes) (control_type : ControlType) (packet_id seqno : Option Nat)
  (leftover : Nat)

@[simp] theorem start_new :
    (new packed control_type packet_id seqno leftover).start = packed := rfl

@[simp] theorem state_new :
    (new packed control_type packet_id seqno leftover).state = .unsent := rfl

@[simp] theorem control_type_new :
    (new packed control_type packet_id seqno leftover).control_type = control_type := rfl

@[simp] theorem packet_id_new :
    (new packed control_type packet_id seqno leftover).packet_id = packet_id := rfl

@[simp] theorem seqno_new :
    (new packed control_type packet_id seqno leftover).seqno = seqno := rfl

end QueuedMessage

/-- `sizeof(struct mqtt_queued_message)` on an LP64 machine. -/
def sizeofQueuedMessage : Nat := 40

/-- `struct mqtt_message_queue` on a block of `bufsz` bytes. -/
structure MessageQueue where
  bufsz : Nat
  entries : List QueuedMessage
deriving DecidableEq, Repr

namespace MessageQueue

/-- `curr - mem_start`. -/
def used (mq : MessageQueue) : Nat := (mq.entries.map (·.start.length)).sum

/-- `mqtt_mq_currsz`: room for the next packet once its header is set aside. -/
def currsz (mq : MessageQueue) : Nat :=
  mq.bufsz - sizeofQueuedMessage * (mq.entries.length + 1) - mq.used

/-- `mqtt_mq_clean`: drop the completed messages at the front. -/
def clean (mq : MessageQueue) : MessageQueue :=
  { mq with entries := mq.entries.dropWhile (·.state = .complete) }

/-- `mqtt_mq_register`, and the members the caller sets afterwards. -/
def register (mq : MessageQueue) (packed : Bytes) (control_type : ControlType)
    (packet_id seqno : Option Nat) (leftover : Nat) : MessageQueue :=
  { mq with entries := mq.entries ++ [.new packed control_type packet_id seqno leftover] }

end MessageQueue

/-- `mqtt_mq_find`: with a packet id the state is not looked at. -/
def mqttMqMatches (control_type : ControlType) (packet_id : Option Nat)
    (m : QueuedMessage) : Bool :=
  m.control_type = control_type &&
    match packet_id with
    | none => m.state ≠ .complete
    | some pid => m.packet_id = some pid

/-! ## Client -/

/-- `recv_buffer`: what lies between `mem_start` and `curr`, and the rest of
the block, old bytes included. -/
structure RecvBuffer where
  received : Bytes
  free : Bytes
deriving DecidableEq, Repr

def RecvBuffer.mem (b : RecvBuffer) : Bytes := b.received ++ b.free

/-- New bytes at `curr`. -/
def RecvBuffer.store (b : RecvBuffer) (new : Bytes) : RecvBuffer :=
  ⟨b.received ++ new, b.free.drop new.length⟩

/-- Move what follows a packet of `n` bytes to the front. -/
def RecvBuffer.consume (b : RecvBuffer) (n : Nat) : RecvBuffer :=
  ⟨b.received.drop n, b.mem.drop (b.received.length - n)⟩

/-- `struct mqtt_client` for a handle type `fd`. `mq` is `none` while its
pointers are NULL, that is before `mqtt_init`. The callback members are
constant in the agent: `publish_callback`, NULL, NULL. `leftovers` is what the
coming registrations find in the `packet_id` of their headers, 0 once it is
used up. -/
structure MqttClient (fd : Type) where
  socketfd : Option fd
  pid_lfsr : Nat
  keep_alive : Nat
  send_offset : Nat
  time_of_last_send : Nat
  error : MqttErrors
  response_timeout : Nat
  recv_buffer : RecvBuffer
  mq : Option MessageQueue
  leftovers : List Nat

namespace MqttClient

variable {fd : Type}

/-- A client in zeroed memory. -/
def zeroed (leftovers : List Nat) : MqttClient fd :=
  { socketfd := none, pid_lfsr := 0, keep_alive := 0, send_offset := 0,
    time_of_last_send := 0, error := .zero, response_timeout := 0,
    recv_buffer := ⟨[], []⟩, mq := none, leftovers }

def entries (cl : MqttClient fd) : List QueuedMessage :=
  match cl.mq with
  | none => []
  | some mq => mq.entries

def setEntries (cl : MqttClient fd) (es : List QueuedMessage) : MqttClient fd :=
  { cl with mq := cl.mq.map ({ · with entries := es }) }

/-- `(client->mq.curr, client->mq.curr_sz)`. -/
def room (cl : MqttClient fd) : Option Nat := cl.mq.map (·.currsz)

def clean (cl : MqttClient fd) : MqttClient fd :=
  { cl with mq := cl.mq.map (·.clean) }

/-- What the next registration finds in the `packet_id` of its header. -/
def leftover (cl : MqttClient fd) : Nat := cl.leftovers.headD 0

def register (cl : MqttClient fd) (packed : Bytes) (control_type : ControlType)
    (packet_id seqno : Option Nat) : MqttClient fd :=
  { cl with
    mq := cl.mq.map (·.register packed control_type packet_id seqno cl.leftover)
    leftovers := cl.leftovers.tail }

theorem entries_clean (cl : MqttClient fd) :
    cl.clean.entries = cl.entries.dropWhile (·.state = .complete) := by
  cases hmq : cl.mq with
  | none => simp [entries, clean, hmq]
  | some mq => simp [entries, clean, hmq, MessageQueue.clean]

theorem entries_register {cl : MqttClient fd} (h : cl.mq.isSome = true) (packed : Bytes)
    (control_type : ControlType) (packet_id seqno : Option Nat) :
    (cl.register packed control_type packet_id seqno).entries =
      cl.entries ++ [.new packed control_type packet_id seqno cl.leftover] := by
  obtain ⟨mq, hmq⟩ := Option.isSome_iff_exists.mp h
  simp [register, entries, hmq, MessageQueue.register]

end MqttClient

variable {fd : Type}

/-- `mqtt_init`. `time_of_last_send` and `keep_alive` keep their values, and so
do the bytes of the receive buffer; its block was zeroed memory at first. -/
def mqttInit (cl : MqttClient fd) (sockfd : Option fd) (sendbufsz recvbufsz : Nat) :
    MqttClient fd :=
  { cl with
    socketfd := sockfd
    mq := some ⟨sendbufsz, []⟩
    recv_buffer := ⟨[], (cl.recv_buffer.mem ++ List.replicate recvbufsz 0).take recvbufsz⟩
    error := .connectNotCalled
    response_timeout := 30
    pid_lfsr := 0
    send_offset := 0 }

/-! ## Packet ids -/

/-- One step of the shift register. -/
def lfsrStep (x : Nat) : Nat :=
  if x % 2 = 1 then (x / 2) ^^^ 0xB400 else x / 2

/-- The loop of `__mqtt_next_pid`: step until no header in the queue has the id. -/
def nextPidLoop (used : List Nat) : Nat → Nat → Except Fault Nat
  | 0, _ => .error .outOfFuel
  | fuel + 1, x =>
      let x := lfsrStep x
      if x ∈ used then nextPidLoop used fuel x else .ok x

/-- `__mqtt_next_pid`. With NULL queue pointers the walk starts below address
zero and wraps, so it dereferences wild memory. -/
def mqttNextPid (cl : MqttClient fd) : Except Fault (Nat × MqttClient fd) :=
  match cl.mq with
  | none => .error .nullPointer
  | some mq => do
      let start := if cl.pid_lfsr = 0 then 163 else cl.pid_lfsr
      let pid ← nextPidLoop (mq.entries.map (·.storedId)) 65536 start
      return (pid, { cl with pid_lfsr := pid })

/-! ## Packing into the queue -/

/-- `MQTT_CLIENT_TRY_PACK` up to the packed bytes: the error it returns or the
bytes to register, and the client. A packet that does not fit is tried once
more on the cleaned queue. -/
def mqttClientTryPack (cl : MqttClient fd) (pack_call : Option Nat → PackResult) :
    Except MqttErrors Bytes × MqttClient fd :=
  if cl.error.neg then (.error cl.error, cl)
  else
    match pack_call cl.room with
    | .error e => (.error e, { cl with error := e })
    | .ok (some packed) => (.ok packed, cl)
    | .ok none =>
        let cl := cl.clean
        match pack_call cl.room with
        | .error e => (.error e, { cl with error := e })
        | .ok (some packed) => (.ok packed, cl)
        | .ok none => (.error .sendBufferIsFull, { cl with error := .sendBufferIsFull })

/-- The whole macro: pack, register, set the type and the packet id. -/
def packAndRegister (cl : MqttClient fd) (pack_call : Option Nat → PackResult)
    (control_type : ControlType) (packet_id seqno : Option Nat) :
    MqttErrors × MqttClient fd :=
  match mqttClientTryPack cl pack_call with
  | (.error e, cl) => (e, cl)
  | (.ok packed, cl) => (.ok, cl.register packed control_type packet_id seqno)

/-- The packed bytes end behind the room their packer was told. -/
def overruns (cl : MqttClient fd) (pack_call : Option Nat → PackResult) : Bool :=
  match mqttClientTryPack cl pack_call with
  | (.error _, _) => false
  | (.ok packed, cl) => cl.room.any (· < packed.length)

def mqttConnect (cl : MqttClient fd) (client_id : Bytes) (connect_flags keep_alive : Nat) :
    MqttErrors × MqttClient fd :=
  let cl := { cl with keep_alive := keep_alive }
  let cl := if cl.error = .connectNotCalled then { cl with error := .ok } else cl
  packAndRegister cl (mqttPackConnectionRequest · client_id connect_flags keep_alive)
    .connect none none

/-- `mqtt_publish`; `seqno` only travels along. A message so long that its
remaining length wraps is copied past the end of the queue. -/
def mqttPublish (cl : MqttClient fd) (topic_name application_message : Bytes)
    (publish_flags : Nat) (seqno : Option Nat) : Except Fault (MqttErrors × MqttClient fd) := do
  let (packet_id, cl) ← mqttNextPid cl
  let pack_call :=
    (mqttPackPublishRequest · topic_name packet_id application_message publish_flags)
  if overruns cl pack_call then throw .overflow
  return packAndRegister cl pack_call .publish (some packet_id) seqno

def mqttSubscribe (cl : MqttClient fd) (topic_name : Bytes) (max_qos_level : Nat) :
    Except Fault (MqttErrors × MqttClient fd) := do
  let (packet_id, cl) ← mqttNextPid cl
  return packAndRegister cl (mqttPackSubscribeRequest · packet_id topic_name max_qos_level)
    .subscribe (some packet_id) none

def mqttDisconnect (cl : MqttClient fd) : MqttErrors × MqttClient fd :=
  packAndRegister cl mqttPackDisconnect .disconnect none none

/-- `__mqtt_ping`. -/
def mqttPing (cl : MqttClient fd) : MqttErrors × MqttClient fd :=
  packAndRegister cl mqttPackPingRequest .pingreq none none

/-- `__mqtt_puback`, `__mqtt_pubrec`, `__mqtt_pubrel` and `__mqtt_pubcomp`. -/
def mqttPubxxx (control_type : ControlType) (cl : MqttClient fd) (packet_id : Nat) :
    MqttErrors × MqttClient fd :=
  packAndRegister cl (mqttPackPubxxxRequest · control_type packet_id)
    control_type (some packet_id) none

def mqttPuback (cl : MqttClient fd) (packet_id : Nat) := mqttPubxxx .puback cl packet_id
def mqttPubrec (cl : MqttClient fd) (packet_id : Nat) := mqttPubxxx .pubrec cl packet_id
def mqttPubrel (cl : MqttClient fd) (packet_id : Nat) := mqttPubxxx .pubrel cl packet_id
def mqttPubcomp (cl : MqttClient fd) (packet_id : Nat) := mqttPubxxx .pubcomp cl packet_id

/-! ## Handling a packet from the broker -/

/-- `mqtt_mq_find` and `msg->state = MQTT_QUEUED_COMPLETE`: the entry found and
the client, or `none`. -/
def release (cl : MqttClient fd) (control_type : ControlType) (packet_id : Option Nat) :
    Option (QueuedMessage × MqttClient fd) :=
  match cl.entries.find? (mqttMqMatches control_type packet_id) with
  | none => none
  | some m =>
      let i := cl.entries.findIdx (mqttMqMatches control_type packet_id)
      some (m, cl.setEntries (cl.entries.set i { m with state := .complete }))

def isQueued (cl : MqttClient fd) (control_type : ControlType) (packet_id : Nat) : Bool :=
  cl.entries.any (mqttMqMatches control_type (some packet_id))

/-- Leave the switch with `client->error = mqtt_recv_ret = e`. -/
def recvFails (cl : MqttClient fd) (e : MqttErrors) : MqttErrors × MqttClient fd :=
  (e, { cl with error := e })

/-- `rv = ...; if (rv != MQTT_OK) { client->error = rv; mqtt_recv_ret = rv; }`. -/
def stage (r : MqttErrors × MqttClient fd) : MqttErrors × MqttClient fd :=
  if r.1 = .ok then r else recvFails r.2 r.1

/-- Release a queued message; then `next`, or the unknown-ack error. -/
def releaseThen (cl : MqttClient fd) (control_type : ControlType) (packet_id : Option Nat)
    (next : MqttClient fd → MqttErrors × MqttClient fd) : MqttErrors × MqttClient fd :=
  match release cl control_type packet_id with
  | none => recvFails cl .ackOfUnknown
  | some (_, cl) => next cl

/-- The switch of `__mqtt_recv` for every packet but PUBLISH: `mqtt_recv_ret`
and the client. -/
def handleAck (cl : MqttClient fd) : Response → MqttErrors × MqttClient fd
  | .connack code =>
      releaseThen cl .connect none fun cl =>
        if code = 0 then (.ok, cl)
        else if code = 2 then recvFails cl .connectClientIdRefused
        else recvFails cl .connectionRefused
  | .puback pid => releaseThen cl .publish (some pid) fun cl => (.ok, cl)
  | .pubrec pid =>
      if isQueued cl .pubrel pid then (.ok, cl)
      else releaseThen cl .publish (some pid) fun cl => stage (mqttPubrel cl pid)
  | .pubrel pid => releaseThen cl .pubrec (some pid) fun cl => stage (mqttPubcomp cl pid)
  | .pubcomp pid => releaseThen cl .pubrel (some pid) fun cl => (.ok, cl)
  | .suback pid code =>
      releaseThen cl .subscribe (some pid) fun cl =>
        if code = 128 then recvFails cl .subscribeFailed else (.ok, cl)
  | .unsuback pid => releaseThen cl .unsubscribe (some pid) fun cl => (.ok, cl)
  | .pingresp => releaseThen cl .pingreq none fun cl => (.ok, cl)
  | .publish _ => (.ok, cl)

/-- The PUBLISH case up to the callback: stage the acknowledgement. The flag
says whether the callback is called. -/
def handlePublish (cl : MqttClient fd) (p : ResponsePublish) :
    Bool × MqttErrors × MqttClient fd :=
  if p.qos_level = 1 then
    let r := stage (mqttPuback cl p.packet_id)
    (r.1 = .ok, r)
  else if p.qos_level = 2 then
    if isQueued cl .pubrec p.packet_id then (false, .ok, cl)
    else
      let r := stage (mqttPubrec cl p.packet_id)
      (r.1 = .ok, r)
  else (true, .ok, cl)

/-! ## Sending -/

/-- The state `__mqtt_send` puts a message in once it is sent; `none` for a
type the client never queues. -/
def stateAfterSend (m : QueuedMessage) : Option QueuedState :=
  match m.control_type with
  | .puback | .pubcomp | .disconnect => some .complete
  | .publish =>
      some (if qosOf (m.start.headD 0).toNat = 0 then .complete else .awaitingAck)
  | .connect | .pubrec | .pubrel | .subscribe | .unsubscribe | .pingreq => some .awaitingAck
  | _ => none

/-- A QoS 1 PUBLISH carries the DUP flag from its first send on. -/
def markDup (m : QueuedMessage) : Bytes :=
  match m.control_type, m.start with
  | .publish, c :: cs => if qosOf c.toNat = 1 then (c ||| 8) :: cs else c :: cs
  | _, start => start

/-- A packet id needs a queue, and is all that changes. -/
theorem mqttNextPid_ok {cl cl' : MqttClient fd} {pid : Nat}
    (h : mqttNextPid cl = .ok (pid, cl')) :
    cl.mq.isSome = true ∧ cl' = { cl with pid_lfsr := pid } := by
  unfold mqttNextPid at h
  cases hmq : cl.mq with
  | none =>
      rw [hmq] at h
      cases h
  | some mq =>
      rw [hmq] at h
      dsimp only [bind, Except.bind] at h
      split at h
      · cases h
      · cases h
        exact ⟨rfl, rfl⟩

theorem mqttSubscribe_ok {cl : MqttClient fd} {topic_name : Bytes} {max_qos_level : Nat}
    {r : MqttErrors × MqttClient fd} (h : mqttSubscribe cl topic_name max_qos_level = .ok r) :
    ∃ pid, r = packAndRegister { cl with pid_lfsr := pid }
      (mqttPackSubscribeRequest · pid topic_name max_qos_level) .subscribe (some pid) none := by
  unfold mqttSubscribe at h
  cases hp : mqttNextPid cl with
  | error f =>
      rw [hp] at h
      cases h
  | ok pc =>
      rw [hp] at h
      cases h
      exact ⟨pc.1, by rw [← (mqttNextPid_ok hp).2]⟩

theorem mqttPublish_ok {cl : MqttClient fd} {topic_name application_message : Bytes}
    {publish_flags : Nat} {seqno : Option Nat} {r : MqttErrors × MqttClient fd}
    (h : mqttPublish cl topic_name application_message publish_flags seqno = .ok r) :
    cl.mq.isSome = true ∧ ∃ pid, r = packAndRegister { cl with pid_lfsr := pid }
      (mqttPackPublishRequest · topic_name pid application_message publish_flags)
      .publish (some pid) seqno := by
  unfold mqttPublish at h
  cases hp : mqttNextPid cl with
  | error f =>
      rw [hp] at h
      cases h
  | ok pc =>
      rw [hp] at h
      dsimp only [bind, Except.bind] at h
      split at h
      · cases h
      · cases h
        exact ⟨(mqttNextPid_ok hp).1, pc.1, by rw [← (mqttNextPid_ok hp).2]⟩

/-! ## What the calls leave behind -/

/-- Two states of one client between which nobody called `mqtt_init`. -/
structure SameLink (cl cl' : MqttClient fd) : Prop where
  socketfd : cl'.socketfd = cl.socketfd
  ready : cl'.mq.isSome = cl.mq.isSome

namespace SameLink

variable {cl cl' cl'' : MqttClient fd}

theorem refl (cl : MqttClient fd) : SameLink cl cl := ⟨rfl, rfl⟩

theorem trans (h : SameLink cl cl') (h' : SameLink cl' cl'') : SameLink cl cl'' :=
  ⟨h'.socketfd.trans h.socketfd, h'.ready.trans h.ready⟩

theorem clean (cl : MqttClient fd) : SameLink cl cl.clean := ⟨rfl, Option.isSome_map⟩

theorem register (cl : MqttClient fd) (packed : Bytes) (control_type : ControlType)
    (packet_id seqno : Option Nat) :
    SameLink cl (cl.register packed control_type packet_id seqno) := ⟨rfl, Option.isSome_map⟩

theorem setEntries (cl : MqttClient fd) (es : List QueuedMessage) :
    SameLink cl (cl.setEntries es) := ⟨rfl, Option.isSome_map⟩

theorem setError (cl : MqttClient fd) (e : MqttErrors) :
    SameLink cl { cl with error := e } := ⟨rfl, rfl⟩

end SameLink

/-- Packing changes the error at most, and cleans the queue at most. -/
theorem mqttClientTryPack_cases (cl : MqttClient fd) {pack_call : Option Nat → PackResult}
    (hneg : NegErrors pack_call) :
    ∃ cl₀, (cl₀ = cl ∨ cl₀ = cl.clean) ∧
      ((∃ packed, pack_call cl₀.room = .ok (some packed) ∧
          mqttClientTryPack cl pack_call = (.ok packed, cl₀)) ∨
        ∃ e, e.neg = true ∧
          mqttClientTryPack cl pack_call = (.error e, { cl₀ with error := e })) := by
  unfold mqttClientTryPack
  by_cases he : cl.error.neg = true
  · exact ⟨cl, .inl rfl, .inr ⟨cl.error, he, by rw [if_pos he]⟩⟩
  · rw [if_neg he]
    cases h₁ : pack_call cl.room with
    | error e => exact ⟨cl, .inl rfl, .inr ⟨e, hneg _ _ h₁, rfl⟩⟩
    | ok r₁ =>
        cases r₁ with
        | some packed => exact ⟨cl, .inl rfl, .inl ⟨packed, h₁, rfl⟩⟩
        | none =>
            dsimp only
            cases h₂ : pack_call cl.clean.room with
            | error e => exact ⟨cl.clean, .inr rfl, .inr ⟨e, hneg _ _ h₂, rfl⟩⟩
            | ok r₂ =>
                cases r₂ with
                | some packed => exact ⟨cl.clean, .inr rfl, .inl ⟨packed, h₂, rfl⟩⟩
                | none => exact ⟨cl.clean, .inr rfl, .inr ⟨.sendBufferIsFull, rfl, rfl⟩⟩

/-- All a packing call can do: on the queue, cleaned or not, it registers the
packet, or it records a negative error. -/
theorem packAndRegister_cases (cl : MqttClient fd) {pack_call : Option Nat → PackResult}
    (hneg : NegErrors pack_call) (control_type : ControlType) (packet_id seqno : Option Nat) :
    ∃ cl₀, (cl₀ = cl ∨ cl₀ = cl.clean) ∧
      ((∃ packed, pack_call cl₀.room = .ok (some packed) ∧
          packAndRegister cl pack_call control_type packet_id seqno =
            (.ok, cl₀.register packed control_type packet_id seqno)) ∨
        ∃ e, e.neg = true ∧
          packAndRegister cl pack_call control_type packet_id seqno =
            (e, { cl₀ with error := e })) := by
  unfold packAndRegister
  obtain ⟨cl₀, h₀, ⟨packed, hpack, h⟩ | ⟨e, he, h⟩⟩ := mqttClientTryPack_cases cl hneg
  · exact ⟨cl₀, h₀, .inl ⟨packed, hpack, by rw [h]⟩⟩
  · exact ⟨cl₀, h₀, .inr ⟨e, he, by rw [h]⟩⟩

theorem packAndRegister_sameLink (cl : MqttClient fd) {pack_call : Option Nat → PackResult}
    (hneg : NegErrors pack_call) (control_type : ControlType) (packet_id seqno : Option Nat) :
    SameLink cl (packAndRegister cl pack_call control_type packet_id seqno).2 := by
  obtain ⟨cl₀, h₀, ⟨packed, -, h⟩ | ⟨e, -, h⟩⟩ :=
    packAndRegister_cases cl hneg control_type packet_id seqno
  all_goals
    have hbase : SameLink cl cl₀ := by
      rcases h₀ with rfl | rfl
      · exact .refl _
      · exact .clean cl
    rw [h]
  · exact hbase.trans (.register cl₀ packed control_type packet_id seqno)
  · exact hbase.trans (.setError cl₀ e)

/-- A result other than `MQTT_OK` is negative and is left in the client. -/
def Reported (r : MqttErrors × MqttClient fd) : Prop :=
  r.1 ≠ .ok → r.1.neg = true ∧ r.2.error = r.1

theorem packAndRegister_reported (cl : MqttClient fd) {pack_call : Option Nat → PackResult}
    (hneg : NegErrors pack_call) (control_type : ControlType) (packet_id seqno : Option Nat) :
    Reported (packAndRegister cl pack_call control_type packet_id seqno) := by
  intro hne
  obtain ⟨cl₀, -, ⟨packed, -, hr⟩ | ⟨e, he, hr⟩⟩ :=
    packAndRegister_cases cl hneg control_type packet_id seqno
  · rw [hr] at hne
    exact absurd rfl hne
  · rw [hr]
    exact ⟨he, rfl⟩

/-- A packet that fits at once is registered behind the others. -/
theorem packAndRegister_fits {cl : MqttClient fd} (he : cl.error.neg = false)
    {pack_call : Option Nat → PackResult} {packed : Bytes}
    (hfit : pack_call cl.room = .ok (some packed)) (control_type : ControlType)
    (packet_id seqno : Option Nat) :
    packAndRegister cl pack_call control_type packet_id seqno =
      (.ok, cl.register packed control_type packet_id seqno) := by
  unfold packAndRegister mqttClientTryPack
  rw [if_neg (by simp [he]), hfit]

/-- A packet that fits once the completed messages are gone. -/
theorem packAndRegister_fits_clean {cl : MqttClient fd} (he : cl.error.neg = false)
    {pack_call : Option Nat → PackResult} {packed : Bytes}
    (hfull : pack_call cl.room = .ok none)
    (hfit : pack_call cl.clean.room = .ok (some packed)) (control_type : ControlType)
    (packet_id seqno : Option Nat) :
    packAndRegister cl pack_call control_type packet_id seqno =
      (.ok, cl.clean.register packed control_type packet_id seqno) := by
  unfold packAndRegister mqttClientTryPack
  rw [if_neg (by simp [he]), hfull]
  simp only [hfit]

/-- While the error is negative no call packs anything. -/
theorem packAndRegister_of_neg {cl : MqttClient fd} (h : cl.error.neg = true)
    (pack_call : Option Nat → PackResult) (control_type : ControlType)
    (packet_id seqno : Option Nat) :
    packAndRegister cl pack_call control_type packet_id seqno = (cl.error, cl) := by
  unfold packAndRegister mqttClientTryPack
  rw [if_pos h]

/-! ### The packets of the broker -/

/-- What is true of the unknown-ack error and of `next` on every released
client is true of `releaseThen`. -/
theorem releaseThen_ind {P : MqttErrors × MqttClient fd → Prop} {cl : MqttClient fd}
    {control_type : ControlType} {packet_id : Option Nat}
    {next : MqttClient fd → MqttErrors × MqttClient fd}
    (hunknown : P (recvFails cl .ackOfUnknown))
    (hnext : ∀ m cl', release cl control_type packet_id = some (m, cl') → P (next cl')) :
    P (releaseThen cl control_type packet_id next) := by
  unfold releaseThen
  split
  · exact hunknown
  · rename_i m cl' h
    exact hnext m cl' h

theorem release_sameLink {cl cl' : MqttClient fd} {control_type : ControlType}
    {packet_id : Option Nat} {m : QueuedMessage}
    (h : release cl control_type packet_id = some (m, cl')) : SameLink cl cl' := by
  unfold release at h
  split at h
  · cases h
  · simp only [Option.some.injEq, Prod.mk.injEq] at h
    rw [← h.2]
    exact .setEntries cl _

theorem stage_sameLink {cl : MqttClient fd} {r : MqttErrors × MqttClient fd}
    (h : SameLink cl r.2) : SameLink cl (stage r).2 := by
  unfold stage recvFails
  split
  · exact h
  · exact h.trans (.setError r.2 r.1)

theorem recvFails_reported (cl : MqttClient fd) {e : MqttErrors} (he : e.neg = true) :
    Reported (recvFails cl e) := fun _ => ⟨he, rfl⟩

theorem stage_reported {r : MqttErrors × MqttClient fd} (hr : Reported r) :
    Reported (stage r) := by
  unfold stage
  split
  · exact hr
  · rename_i hne
    exact recvFails_reported r.2 (hr hne).1

theorem pubxxx_sameLink (control_type : ControlType) (cl : MqttClient fd) (packet_id : Nat) :
    SameLink cl (mqttPubxxx control_type cl packet_id).2 :=
  packAndRegister_sameLink cl (negErrors_packPubxxxRequest control_type packet_id) _ _ _

theorem pubxxx_reported (control_type : ControlType) (cl : MqttClient fd) (packet_id : Nat) :
    Reported (mqttPubxxx control_type cl packet_id) :=
  packAndRegister_reported cl (negErrors_packPubxxxRequest control_type packet_id) _ _ _

theorem handleAck_sameLink (cl : MqttClient fd) (r : Response) :
    SameLink cl (handleAck cl r).2 := by
  have hunknown : SameLink cl (recvFails cl .ackOfUnknown).2 := .setError cl _
  cases r with
  | connack code =>
      refine releaseThen_ind (P := fun r => SameLink cl r.2) hunknown fun m cl' h => ?_
      have hcl := release_sameLink h
      split
      · exact hcl
      · split
        · exact hcl.trans (.setError cl' _)
        · exact hcl.trans (.setError cl' _)
  | publish p => exact .refl cl
  | pubrec pid =>
      simp only [handleAck]
      split
      · exact .refl cl
      · refine releaseThen_ind (P := fun r => SameLink cl r.2) hunknown fun m cl' h => ?_
        exact stage_sameLink ((release_sameLink h).trans (pubxxx_sameLink .pubrel cl' pid))
  | pubrel pid =>
      refine releaseThen_ind (P := fun r => SameLink cl r.2) hunknown fun m cl' h => ?_
      exact stage_sameLink ((release_sameLink h).trans (pubxxx_sameLink .pubcomp cl' pid))
  | suback pid code =>
      refine releaseThen_ind (P := fun r => SameLink cl r.2) hunknown fun m cl' h => ?_
      have hcl := release_sameLink h
      split
      · exact hcl.trans (.setError cl' _)
      · exact hcl
  | puback pid | pubcomp pid | unsuback pid | pingresp =>
      exact releaseThen_ind (P := fun r => SameLink cl r.2) hunknown
        fun m cl' h => release_sameLink h

theorem handleAck_reported (cl : MqttClient fd) (r : Response) :
    Reported (handleAck cl r) := by
  have hunknown : Reported (recvFails cl .ackOfUnknown) := recvFails_reported cl rfl
  have hok : ∀ cl' : MqttClient fd, Reported (.ok, cl') := fun _ h => absurd rfl h
  cases r with
  | connack code =>
      refine releaseThen_ind hunknown fun m cl' _ => ?_
      split
      · exact hok cl'
      · split
        · exact recvFails_reported cl' rfl
        · exact recvFails_reported cl' rfl
  | publish p => exact hok cl
  | pubrec pid =>
      simp only [handleAck]
      split
      · exact hok cl
      · exact releaseThen_ind hunknown fun m cl' _ =>
          stage_reported (pubxxx_reported .pubrel cl' pid)
  | pubrel pid =>
      exact releaseThen_ind hunknown fun m cl' _ =>
        stage_reported (pubxxx_reported .pubcomp cl' pid)
  | suback pid code =>
      refine releaseThen_ind hunknown fun m cl' _ => ?_
      split
      · exact recvFails_reported cl' rfl
      · exact hok cl'
  | puback pid | pubcomp pid | unsuback pid | pingresp =>
      exact releaseThen_ind hunknown fun m cl' _ => hok cl'

theorem handlePublish_sameLink (cl : MqttClient fd) (p : ResponsePublish) :
    SameLink cl (handlePublish cl p).2.2 := by
  unfold handlePublish
  split
  · exact stage_sameLink (pubxxx_sameLink .puback cl p.packet_id)
  · split
    · split
      · exact .refl cl
      · exact stage_sameLink (pubxxx_sameLink .pubrec cl p.packet_id)
    · exact .refl cl

theorem handlePublish_reported (cl : MqttClient fd) (p : ResponsePublish) :
    Reported (handlePublish cl p).2 := by
  unfold handlePublish
  split
  · exact stage_reported (pubxxx_reported .puback cl p.packet_id)
  · split
    · split
      · exact fun h => absurd rfl h
      · exact stage_reported (pubxxx_reported .pubrec cl p.packet_id)
    · exact fun h => absurd rfl h

/-- The callback is called only when the acknowledgement is queued. -/
theorem handlePublish_call {cl : MqttClient fd} {p : ResponsePublish}
    (h : (handlePublish cl p).1 = true) : (handlePublish cl p).2.1 = .ok := by
  unfold handlePublish at h ⊢
  split
  · rw [if_pos ‹_›] at h
    exact of_decide_eq_true h
  · rw [if_neg ‹_›] at h
    split
    · rw [if_pos ‹_›] at h
      split
      · rfl
      · rw [if_neg ‹_›] at h
        exact of_decide_eq_true h
    · rfl

end Admlink
