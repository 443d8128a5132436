import Admlink.Lib.Block
import Admlink.Mqtt.QueueInvariants

/-!
# The memory of a send queue

`struct mqtt_message_queue` as it lies in its block of `bufsz` bytes: the packed
bytes from the front up to `curr`, the `struct mqtt_queued_message`s from the back
down to `queue_tail`, and the functions of MQTT-C that work on it. `Rep` says when
a block represents a list of messages.
-/

namespace Admlink

open Program Block Runs

/-! ## The code -/

/-- The members of `struct mqtt_queued_message`. -/
inductive Member
  | start | size | state | time_sent | control_type | packet_id
deriving DecidableEq, Repr

/-- Offsets on an LP64 machine. -/
def Member.offset : Member → Nat
  | .start => 0
  | .size => 8
  | .state => 16
  | .time_sent => 24
  | .control_type => 32
  | .packet_id => 36

def Member.bytes : Member → Nat
  | .start => 8
  | .size => 8
  | .state => 4
  | .time_sent => 8
  | .control_type => 4
  | .packet_id => 2

def QueuedState.code : QueuedState → Nat
  | .unsent => 0
  | .awaitingAck => 1
  | .complete => 2

/-- `struct mqtt_message_queue`; pointers are offsets from `mem_start`. -/
structure MqMemory where
  mem : Bytes
  curr : Nat
  queue_tail : Nat
  curr_sz : Nat

namespace MqMemory

variable (q : MqMemory)

/-- `mqtt_mq_get`. -/
def mqttMqGet (index : Nat) : Nat := q.mem.length - sizeofQueuedMessage * (index + 1)

/-- `mqtt_mq_length`. -/
def mqttMqLength : Nat := (q.mem.length - q.queue_tail) / sizeofQueuedMessage

/-- `mqtt_mq_currsz`: `queue_tail - 1` is where the next header goes. -/
def mqttMqCurrsz : Nat :=
  if q.queue_tail ≤ q.curr + sizeofQueuedMessage then 0
  else q.queue_tail - sizeofQueuedMessage - q.curr

def ofOption (r : Option Bytes) : Except Fault MqMemory :=
  match r with
  | none => .error .outOfBounds
  | some mem => .ok { q with mem }

/-- Read a member of the header at `hdr`. -/
def loadMember (hdr : Nat) (f : Member) : Except Fault Nat :=
  match load f.bytes q.mem (hdr + f.offset) with
  | none => .error .outOfBounds
  | some n => .ok n

def storeMember (hdr : Nat) (f : Member) (n : Nat) : Except Fault MqMemory :=
  q.ofOption (Block.store f.bytes q.mem (hdr + f.offset) n)

/-- `mqtt_mq_init` on a block with these bytes in it. -/
def mqttMqInit (buf : Bytes) : MqMemory :=
  let q : MqMemory := { mem := buf, curr := 0, queue_tail := buf.length, curr_sz := 0 }
  { q with curr_sz := q.mqttMqCurrsz }

/-- `mqtt_mq_register`. -/
def mqttMqRegister (nbytes : Nat) : Except Fault MqMemory :=
  if q.queue_tail < sizeofQueuedMessage then .error .outOfBounds
  else do
    let q := { q with queue_tail := q.queue_tail - sizeofQueuedMessage }
    let q ← q.storeMember q.queue_tail .start q.curr
    let q ← q.storeMember q.queue_tail .size nbytes
    let q ← q.storeMember q.queue_tail .state QueuedState.unsent.code
    let q := { q with curr := q.curr + nbytes }
    return { q with curr_sz := q.mqttMqCurrsz }

/-- `msg->packet_id = packet_id`, where the caller has one. -/
def storePacketId (hdr : Nat) : Option Nat → Except Fault MqMemory
  | none => .ok q
  | some packet_id => q.storeMember hdr .packet_id packet_id

/-- What a packing call does to the block: the packet at `curr`, its header, and
the members the caller sets. -/
def queuePacked (packed : Bytes) (control_type : ControlType) (packet_id : Option Nat) :
    Except Fault MqMemory := do
  let q ← q.ofOption (write q.mem q.curr packed)
  let q ← q.mqttMqRegister packed.length
  let q ← q.storeMember q.queue_tail .control_type control_type.code
  q.storePacketId q.queue_tail packet_id

/-- The first loop of `mqtt_mq_clean`, from index `i` on: where `new_head` stops. -/
def newHead : Nat → Nat → Except Fault Nat
  | 0, i => .ok i
  | todo + 1, i => do
      if (← q.loadMember (q.mqttMqGet i) .state) ≠ QueuedState.complete.code then return i
      else newHead todo (i + 1)

/-- The last loop of `mqtt_mq_clean`: `mqtt_mq_get(mq, i)->start -= removing`. -/
def bumpStarts (removing : Nat) : Nat → Nat → MqMemory → Except Fault MqMemory
  | 0, _, q => .ok q
  | todo + 1, i, q => do
      let start ← q.loadMember (q.mqttMqGet i) .start
      let q ← q.storeMember (q.mqttMqGet i) .start (start - removing)
      bumpStarts removing todo (i + 1) q

/-- `mqtt_mq_clean`: move the headers and bump back the `start`s. -/
def moveHeaders (new_head removing : Nat) : Except Fault MqMemory := do
  let new_tail_idx := (q.mqttMqGet new_head - q.queue_tail) / sizeofQueuedMessage
  let q ← q.ofOption (move q.mem (q.mqttMqGet new_tail_idx) q.queue_tail
    (sizeofQueuedMessage * (new_tail_idx + 1)))
  let q := { q with queue_tail := q.mqttMqGet new_tail_idx }
  let q ← bumpStarts removing (new_tail_idx + 1) 0 q
  return { q with curr_sz := q.mqttMqCurrsz }

/-- What `mqtt_mq_clean` does once message `new_head` is the first to keep. -/
def moveRest (new_head : Nat) : Except Fault MqMemory := do
  let removing ← q.loadMember (q.mqttMqGet new_head) .start
  let n := q.curr - removing
  let q ← q.ofOption (move q.mem 0 removing n)
  { q with curr := n }.moveHeaders new_head removing

/-- `mqtt_mq_clean`. -/
def mqttMqClean : Except Fault MqMemory := do
  let new_head ← q.newHead q.mqttMqLength 0
  if q.mqttMqLength ≤ new_head then do
    let q := { q with curr := 0, queue_tail := q.mem.length }
    return { q with curr_sz := q.mqttMqCurrsz }
  else if new_head = 0 then return q
  else q.moveRest new_head

/-- The test of `mqtt_mq_find` on the header at `hdr`. -/
def found (control_type : ControlType) (packet_id : Option Nat) (hdr : Nat) :
    Except Fault Bool := do
  if (← q.loadMember hdr .control_type) = control_type.code then
    match packet_id with
    | none => return (← q.loadMember hdr .state) ≠ QueuedState.complete.code
    | some packet_id => return packet_id = (← q.loadMember hdr .packet_id)
  else return false

/-- `mqtt_mq_find` from index `i` on: the index of the message found. -/
def mqttMqFind (control_type : ControlType) (packet_id : Option Nat) :
    Nat → Nat → Except Fault (Option Nat)
  | 0, _ => .ok none
  | todo + 1, i => do
      if ← q.found control_type packet_id (q.mqttMqGet i) then return some i
      else mqttMqFind control_type packet_id todo (i + 1)

/-- `msg->state = MQTT_QUEUED_COMPLETE` for message `i`. -/
def markComplete (i : Nat) : Except Fault MqMemory :=
  q.storeMember (q.mqttMqGet i) .state QueuedState.complete.code

/-- The switch of `__mqtt_send` once message `msg` is sent: its state, and the DUP
flag of a QoS 1 PUBLISH. `none` is the `default`. -/
def markState (msg control_type : Nat) : Except Fault (Option MqMemory) :=
  if control_type = ControlType.puback.code ∨ control_type = ControlType.pubcomp.code ∨
      control_type = ControlType.disconnect.code then
    return some (← q.storeMember msg .state QueuedState.complete.code)
  else if control_type = ControlType.publish.code then do
    let start ← q.loadMember msg .start
    match q.mem[start]? with
    | none => .error .outOfBounds
    | some first =>
        if qosOf first.toNat = 0 then
          return some (← q.storeMember msg .state QueuedState.complete.code)
        else if qosOf first.toNat = 1 then do
          let q ← q.storeMember msg .state QueuedState.awaitingAck.code
          return some (← q.ofOption (write q.mem start [first ||| 8]))
        else return some (← q.storeMember msg .state QueuedState.awaitingAck.code)
  else if control_type = ControlType.connect.code ∨ control_type = ControlType.pubrec.code ∨
      control_type = ControlType.pubrel.code ∨ control_type = ControlType.subscribe.code ∨
      control_type = ControlType.unsubscribe.code ∨ control_type = ControlType.pingreq.code then
    return some (← q.storeMember msg .state QueuedState.awaitingAck.code)
  else return none

/-- What `__mqtt_send` writes to message `i` once it is sent. -/
def markSent (i : Nat) (time : Nat) : Except Fault (Option MqMemory) := do
  let q ← q.storeMember (q.mqttMqGet i) .time_sent time
  q.markState (q.mqttMqGet i) (← q.loadMember (q.mqttMqGet i) .control_type)

end MqMemory

/-! ## What a block represents -/

/-- The members that have been set, for a message whose bytes start at `start`. -/
def memberOf (m : QueuedMessage) (start : Nat) : Member → Option Nat
  | .start => some start
  | .size => some m.start.length
  | .state => some m.state.code
  | .time_sent => if m.state = .awaitingAck then some m.time_sent else none
  | .control_type => some m.control_type.code
  | .packet_id => m.packet_id

/-- The header at `hdr` has these members. -/
def HeaderHolds (mem : Bytes) (hdr : Nat) (members : Member → Option Nat) : Prop :=
  ∀ f n, members f = some n → Holds mem (hdr + f.offset) (le f.bytes n)

/-- Where the bytes of message `i` start. -/
def startOf (entries : List QueuedMessage) (i : Nat) : Nat :=
  ((entries.take i).map (·.start.length)).sum

/-- The `i`th header counts from the end of the block. -/
def Headers (mem : Bytes) (entries : List QueuedMessage) (starts : Nat → Nat) : Prop :=
  ∀ i m, entries[i]? = some m →
    HeaderHolds mem (mem.length - sizeofQueuedMessage * (i + 1)) (memberOf m (starts i))

/-- Every message has its header and its bytes, which follow each other from the
beginning of the block. -/
structure Laid (mem : Bytes) (entries : List QueuedMessage) : Prop where
  header : Headers mem entries (startOf entries)
  packed : ∀ i m, entries[i]? = some m → Holds mem (startOf entries i) m.start

/-- The block represents the queue. -/
structure Rep (q : MqMemory) (mq : MessageQueue) : Prop where
  length : q.mem.length = mq.bufsz
  small : mq.bufsz < 256 ^ 8
  tail : q.queue_tail + sizeofQueuedMessage * mq.entries.length = mq.bufsz
  curr : q.curr = mq.used
  roomy : q.curr ≤ q.queue_tail
  curr_sz : q.curr_sz = mq.currsz
  laid : Laid q.mem mq.entries

section Members

variable {q : MqMemory} {mem mem' : Bytes} {hdr : Nat} {members : Member → Option Nat}

theorem Member.bound (f : Member) : f.offset + f.bytes ≤ sizeofQueuedMessage := by
  cases f <;> decide

theorem Member.bytes_pos (f : Member) : 0 < f.bytes := by
  cases f <;> decide

theorem Member.disjoint {f g : Member} (h : f ≠ g) :
    f.offset + f.bytes ≤ g.offset ∨ g.offset + g.bytes ≤ f.offset := by
  revert h
  cases f <;> cases g <;> decide

theorem loadMember_ok (h : HeaderHolds q.mem hdr members) {f : Member} {n : Nat}
    (hf : members f = some n) (hn : n < 256 ^ f.bytes) : q.loadMember hdr f = .ok n := by
  rw [MqMemory.loadMember, load_of_holds (h f n hf) f.bytes_pos hn]

theorem storeMember_ok (hbound : hdr + sizeofQueuedMessage ≤ q.mem.length) (f : Member) (n : Nat) :
    ∃ mem', q.storeMember hdr f n = .ok { q with mem := mem' } ∧
      Written q.mem (hdr + f.offset) (le f.bytes n) mem' := by
  have hf := f.bound
  obtain ⟨mem', hwrite, hw⟩ := write_written
    (show hdr + f.offset + (le f.bytes n).length ≤ q.mem.length by rw [length_le]; omega)
  exact ⟨mem', by rw [MqMemory.storeMember, Block.store, hwrite]; rfl, hw⟩

theorem HeaderHolds.written (h : HeaderHolds mem hdr members) {f : Member} {n : Nat}
    (hw : Written mem (hdr + f.offset) (le f.bytes n) mem') :
    HeaderHolds mem' hdr (Function.update members f (some n)) := by
  intro g k hg
  by_cases hgf : g = f
  · subst hgf
    rw [Function.update_self] at hg
    cases hg
    exact hw.inside
  · rw [Function.update_of_ne hgf] at hg
    refine (h g k hg).written hw ?_
    rw [length_le, length_le]
    have := Member.disjoint hgf
    omega

theorem HeaderHolds.none (mem : Bytes) (hdr : Nat) : HeaderHolds mem hdr fun _ => none := by
  intro f n hf
  cases hf

/-- A header says no less with fewer members. -/
theorem HeaderHolds.mono {members' : Member → Option Nat} (h : HeaderHolds mem hdr members)
    (hsub : ∀ f n, members' f = some n → members f = some n) : HeaderHolds mem hdr members' :=
  fun f n hf => h f n (hsub f n hf)

theorem HeaderHolds.congr (h : HeaderHolds mem hdr members)
    (heq : ∀ j, hdr ≤ j → j < hdr + sizeofQueuedMessage → mem'[j]? = mem[j]?) :
    HeaderHolds mem' hdr members := by
  intro f n hf
  have hbound := f.bound
  refine (h f n hf).congr fun j hle hlt => heq j (by omega) ?_
  rw [length_le] at hlt
  omega

end Members

/-! ### Offsets -/

section Offsets

variable {entries : List QueuedMessage} {i j : Nat} {m : QueuedMessage}

theorem startOf_succ (h : entries[i]? = some m) :
    startOf entries (i + 1) = startOf entries i + m.start.length := by
  rw [startOf, startOf, List.take_add_one, h, Option.toList_some, List.map_append, List.sum_append,
    List.map_cons, List.map_nil, List.sum_cons, List.sum_nil, Nat.add_zero]

theorem startOf_add (entries : List QueuedMessage) (k i : Nat) :
    startOf entries (k + i) = startOf entries k + startOf (entries.drop k) i := by
  rw [startOf, startOf, startOf, List.take_add, List.map_append, List.sum_append]

theorem startOf_le (h : i ≤ j) : startOf entries i ≤ startOf entries j := by
  obtain ⟨k, rfl⟩ := Nat.exists_eq_add_of_le h
  rw [startOf_add]
  exact Nat.le_add_right _ _

theorem startOf_length (entries : List QueuedMessage) :
    startOf entries entries.length = (entries.map (·.start.length)).sum := by
  rw [startOf, List.take_length]

/-- The bytes of a message end before those of the queue do. -/
theorem startOf_bound (h : entries[i]? = some m) :
    startOf entries i + m.start.length ≤ (entries.map (·.start.length)).sum := by
  obtain ⟨hlt, -⟩ := List.getElem?_eq_some_iff.mp h
  rw [← startOf_succ h, ← startOf_length]
  exact startOf_le hlt

theorem startOf_append (h : i ≤ entries.length) (rest : List QueuedMessage) :
    startOf (entries ++ rest) i = startOf entries i := by
  rw [startOf, startOf, List.take_append_of_le_length h]

end Offsets

end Admlink
