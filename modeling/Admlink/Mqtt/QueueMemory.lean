import Admlink.Mqtt.QueueWrites

/-!
# The send queues of a run

`mqtt_mq_clean` and `mqtt_mq_find` do to the block what `MessageQueue` does to the
list, and never leave it. So every operation of a run does, and the blocks of both
connections represent their queues in every world.
-/

namespace Admlink

open Program Block Runs

/-! ## Cleaning -/

section Clean

variable {q : MqMemory} {mq : MessageQueue} {entries : List QueuedMessage} {starts : Nat → Nat}

theorem Rep.mqttMqLength (h : Rep q mq) : q.mqttMqLength = mq.entries.length := by
  have := h.tail
  have := h.length
  rw [MqMemory.mqttMqLength, show q.mem.length - q.queue_tail =
    sizeofQueuedMessage * mq.entries.length by omega]
  exact Nat.mul_div_cancel_left _ (by decide)

/-- The scan stops at the first message that is not complete. -/
theorem newHead_eq (h : Rep q mq) (todo i : Nat) (hi : i + todo = mq.entries.length) :
    q.newHead todo i =
      .ok (i + ((mq.entries.drop i).takeWhile fun m => m.state = .complete).length) := by
  induction todo generalizing i with
  | zero =>
      rw [List.drop_of_length_le (by omega)]
      rfl
  | succ todo ih =>
      have hlt : i < mq.entries.length := by omega
      have hm : mq.entries[i]? = some mq.entries[i] := List.getElem?_eq_getElem hlt
      rw [MqMemory.newHead, h.loadMember hm rfl (QueuedState.code_lt _), except_ok_bind,
        List.drop_eq_getElem_cons hlt, ih (i + 1) (by omega)]
      by_cases hstate : mq.entries[i].state = .complete
      · rw [hstate, if_neg (by decide), List.takeWhile_cons_of_pos (by simpa using hstate),
          List.length_cons]
        exact congrArg Except.ok (by omega)
      · rw [if_pos, List.takeWhile_cons_of_neg (by simpa using hstate)]
        · rfl
        · cases hs : mq.entries[i].state <;> simp_all [QueuedState.code]

/-- One turn of the loop that lowers the `start`s. -/
theorem bumpStart (h : Headers q.mem entries starts)
    (hfit : sizeofQueuedMessage * entries.length ≤ q.mem.length) {i : Nat} (hi : i < entries.length)
    (hsmall : starts i < 256 ^ 8) (removing : Nat) :
    q.loadMember (q.mqttMqGet i) .start = .ok (starts i) ∧
    ∃ mem', q.storeMember (q.mqttMqGet i) .start (starts i - removing) =
        .ok { q with mem := mem' } ∧ mem'.length = q.mem.length ∧
      Headers mem' entries (Function.update starts i (starts i - removing)) ∧
      ∀ j < q.mem.length - sizeofQueuedMessage * entries.length, mem'[j]? = q.mem[j]? := by
  have hm : entries[i]? = some entries[i] := List.getElem?_eq_getElem hi
  have hhdr : sizeofQueuedMessage * (i + 1) ≤ sizeofQueuedMessage * entries.length :=
    Nat.mul_le_mul_left _ hi
  have hpos : sizeofQueuedMessage * (i + 1) = sizeofQueuedMessage * i + sizeofQueuedMessage :=
    Nat.mul_succ _ _
  have hbound : q.mqttMqGet i + sizeofQueuedMessage ≤ q.mem.length := by
    unfold MqMemory.mqttMqGet
    omega
  obtain ⟨mem', hstore, hw⟩ := storeMember_ok hbound .start (starts i - removing)
  refine ⟨loadMember_ok (h i _ hm) rfl hsmall, mem', hstore, hw.length, fun k n hn => ?_, ?_⟩
  · rw [hw.length]
    rcases eq_or_ne k i with rfl | hne
    · rw [Function.update_self]
      refine ((h k n hn).written hw).mono fun f x hf => ?_
      cases f <;> simp_all [memberOf]
    · rw [Function.update_of_ne hne]
      obtain ⟨hk, -⟩ := List.getElem?_eq_some_iff.mp hn
      have hle : sizeofQueuedMessage * (k + 1) ≤ sizeofQueuedMessage * entries.length :=
        Nat.mul_le_mul_left _ hk
      have hbeside := headers_disjoint hne
      have hf := Member.bound .start
      refine (h k n hn).congr fun j hj hj' => hw.outside j ?_
      rw [length_le]
      unfold MqMemory.mqttMqGet
      omega
  · intro j hj
    refine hw.outside j (.inl ?_)
    unfold MqMemory.mqttMqGet
    omega

theorem bumpStarts_ok (removing : Nat) (todo i : Nat) (h : Headers q.mem entries starts)
    (hfit : sizeofQueuedMessage * entries.length ≤ q.mem.length) (hi : i + todo = entries.length)
    (hsmall : ∀ j < entries.length, starts j < 256 ^ 8) :
    ∃ mem', MqMemory.bumpStarts removing todo i q = .ok { q with mem := mem' } ∧
      mem'.length = q.mem.length ∧
      Headers mem' entries (fun j => if j < i then starts j else starts j - removing) ∧
      ∀ j < q.mem.length - sizeofQueuedMessage * entries.length, mem'[j]? = q.mem[j]? := by
  induction todo generalizing i q starts with
  | zero =>
      refine ⟨q.mem, rfl, rfl, fun k n hn => ?_, fun _ _ => rfl⟩
      obtain ⟨hk, -⟩ := List.getElem?_eq_some_iff.mp hn
      simp only [if_pos (show k < i by omega)]
      exact h k n hn
  | succ todo ih =>
      have hlt : i < entries.length := by omega
      obtain ⟨hload, mem₁, hstore, hlength, h₁, hsame⟩ :=
        bumpStart h hfit hlt (hsmall i hlt) removing
      obtain ⟨mem₂, hrest, hlength₂, h₂, hsame₂⟩ := ih (q := { q with mem := mem₁ }) (i + 1) h₁
        (by rw [hlength]; exact hfit) (by omega) fun j hj => by
          rw [Function.update_apply]
          split
          · have := hsmall i hlt
            omega
          · exact hsmall j hj
      refine ⟨mem₂, ?_, hlength₂.trans hlength, fun k n hn => ?_, fun j hj => ?_⟩
      · rw [MqMemory.bumpStarts, hload, except_ok_bind, hstore, except_ok_bind, hrest]
      · refine (h₂ k n hn).mono fun f x hf => ?_
        beta_reduce at hf ⊢
        rw [Function.update_apply]
        rcases Nat.lt_trichotomy k i with hk | rfl | hk
        · rw [if_pos (by omega), if_neg (by omega)]
          rwa [if_pos hk] at hf
        · rw [if_pos (by omega), if_pos rfl]
          rwa [if_neg (by omega)] at hf
        · rw [if_neg (by omega), if_neg (by omega)]
          rwa [if_neg (by omega)] at hf
      · rw [hsame₂ j (by rw [hlength]; exact hj), hsame j hj]

/-- The bytes moved to the front of the block. -/
theorem Laid.moveData {mem mem' : Bytes} {front rest : List QueuedMessage} {removing : Nat}
    (h : Laid mem (front ++ rest)) (hremoving : removing = (front.map (·.start.length)).sum)
    (hm : Moved mem 0 removing (rest.map (·.start.length)).sum mem')
    (hfit : (rest.map (·.start.length)).sum + sizeofQueuedMessage * (front ++ rest).length ≤
      mem.length) :
    Headers mem' (front ++ rest) (startOf (front ++ rest)) ∧
      ∀ i m, rest[i]? = some m → Holds mem' (startOf rest i) m.start := by
  constructor
  · intro i m hi
    obtain ⟨hlt, -⟩ := List.getElem?_eq_some_iff.mp hi
    have hhdr : sizeofQueuedMessage * (i + 1) ≤ sizeofQueuedMessage * (front ++ rest).length :=
      Nat.mul_le_mul_left _ hlt
    rw [hm.length]
    exact (h.header i m hi).congr fun j hj _ => hm.outside j (.inr (by omega))
  · intro i m hi
    have hold := h.packed (front.length + i) m (by
      rw [List.getElem?_append_right (by omega), Nat.add_sub_cancel_left, hi])
    rw [startOf_add, List.drop_left, startOf_append le_rfl, startOf_length, ← hremoving] at hold
    have := hold.moved hm (startOf_bound hi)
    rwa [Nat.zero_add] at this

/-- The headers moved to the end of the block. -/
theorem Headers.moveUp {mem mem' : Bytes} {front rest : List QueuedMessage}
    (h : Headers mem (front ++ rest) starts)
    (hm : Moved mem (mem.length - sizeofQueuedMessage * rest.length)
      (mem.length - sizeofQueuedMessage * (front ++ rest).length)
      (sizeofQueuedMessage * rest.length) mem')
    (hfit : sizeofQueuedMessage * (front ++ rest).length ≤ mem.length) :
    Headers mem' rest (fun i => starts (front.length + i)) := by
  intro i m hi f n hf
  obtain ⟨hlt, -⟩ := List.getElem?_eq_some_iff.mp hi
  have hbound := f.bound
  have hhdr : sizeofQueuedMessage * (i + 1) ≤ sizeofQueuedMessage * rest.length :=
    Nat.mul_le_mul_left _ hlt
  have hall : sizeofQueuedMessage * (front ++ rest).length =
      sizeofQueuedMessage * front.length + sizeofQueuedMessage * rest.length := by
    rw [List.length_append, Nat.mul_add]
  have hindex : sizeofQueuedMessage * (front.length + i + 1) =
      sizeofQueuedMessage * front.length + sizeofQueuedMessage * (i + 1) := by
    rw [Nat.add_assoc, Nat.mul_add]
  have hold := h (front.length + i) m (by
    rw [List.getElem?_append_right (by omega), Nat.add_sub_cancel_left, hi]) f n hf
  -- how far the member lies above the lowest header
  have hfrom : mem.length - sizeofQueuedMessage * (front.length + i + 1) + f.offset =
      mem.length - sizeofQueuedMessage * (front ++ rest).length +
        (sizeofQueuedMessage * rest.length - sizeofQueuedMessage * (i + 1) + f.offset) := by
    omega
  rw [hfrom] at hold
  have hpos : sizeofQueuedMessage ≤ sizeofQueuedMessage * (i + 1) :=
    Nat.le_mul_of_pos_right _ (Nat.succ_pos i)
  have hmoved := hold.moved hm (by rw [length_le]; omega)
  rw [hm.length, show mem.length - sizeofQueuedMessage * (i + 1) + f.offset =
    mem.length - sizeofQueuedMessage * rest.length +
      (sizeofQueuedMessage * rest.length - sizeofQueuedMessage * (i + 1) + f.offset) by omega]
  exact hmoved

/-- Where the code finds the place of the headers to keep. -/
theorem new_tail_idx {front rest : List QueuedMessage}
    (htail : q.queue_tail + sizeofQueuedMessage * (front ++ rest).length = q.mem.length)
    (hrest : 0 < rest.length) :
    (q.mqttMqGet front.length - q.queue_tail) / sizeofQueuedMessage + 1 = rest.length := by
  have hall : sizeofQueuedMessage * (front ++ rest).length =
      sizeofQueuedMessage * front.length + sizeofQueuedMessage * rest.length := by
    rw [List.length_append, Nat.mul_add]
  have hsucc : sizeofQueuedMessage * (front.length + 1) =
      sizeofQueuedMessage * front.length + sizeofQueuedMessage := Nat.mul_succ _ _
  have hpred : sizeofQueuedMessage * (rest.length - 1) + sizeofQueuedMessage =
      sizeofQueuedMessage * rest.length := by
    rw [← Nat.mul_succ, Nat.succ_eq_add_one, Nat.sub_add_cancel hrest]
  rw [MqMemory.mqttMqGet, show q.mem.length - sizeofQueuedMessage * (front.length + 1) -
    q.queue_tail = sizeofQueuedMessage * (rest.length - 1) by omega,
    Nat.mul_div_cancel_left _ (by decide), Nat.sub_add_cancel hrest]

/-- The second half of `mqtt_mq_clean`: the bytes are in place, the headers follow. -/
theorem rep_moveHeaders (q : MqMemory) (front rest : List QueuedMessage)
    (hsmall : q.mem.length < 256 ^ 8)
    (htail : q.queue_tail + sizeofQueuedMessage * (front ++ rest).length = q.mem.length)
    (hcurr : q.curr = (rest.map (·.start.length)).sum)
    (hroomy : (front.map (·.start.length)).sum + q.curr ≤ q.queue_tail) (hrest : 0 < rest.length)
    (hheaders : Headers q.mem (front ++ rest) (startOf (front ++ rest)))
    (hpacked : ∀ i m, rest[i]? = some m → Holds q.mem (startOf rest i) m.start) :
    ∃ q', q.moveHeaders front.length (front.map (·.start.length)).sum = .ok q' ∧
      Rep q' ⟨q.mem.length, rest⟩ := by
  have hall : sizeofQueuedMessage * (front ++ rest).length =
      sizeofQueuedMessage * front.length + sizeofQueuedMessage * rest.length := by
    rw [List.length_append, Nat.mul_add]
  have hidx := new_tail_idx htail hrest
  have hstart : ∀ i, startOf (front ++ rest) (front.length + i) =
      (front.map (·.start.length)).sum + startOf rest i := fun i => by
    rw [startOf_add, List.drop_left, startOf_append le_rfl, startOf_length]
  -- the headers, then their starts
  obtain ⟨mem₂, hmove, hm⟩ := move_moved
    (show q.queue_tail + sizeofQueuedMessage * rest.length ≤ q.mem.length by omega)
    (show q.mem.length - sizeofQueuedMessage * rest.length + sizeofQueuedMessage * rest.length ≤
      q.mem.length by omega)
  have hsrc : q.mem.length - sizeofQueuedMessage * (front ++ rest).length = q.queue_tail := by
    omega
  have hheaders₂ := hheaders.moveUp (hsrc ▸ hm) (by omega)
  let q₂ : MqMemory :=
    { q with mem := mem₂, queue_tail := q.mem.length - sizeofQueuedMessage * rest.length }
  obtain ⟨mem₃, hbump, hlength₃, hheaders₃, hsame₃⟩ := bumpStarts_ok (q := q₂)
    (front.map (·.start.length)).sum rest.length 0 hheaders₂
    (show _ ≤ mem₂.length by rw [hm.length]; omega) (Nat.zero_add _) fun j hj => by
      have := startOf_bound (List.getElem?_eq_getElem hj)
      rw [hstart]
      omega
  let q₃ : MqMemory := { q₂ with mem := mem₃ }
  have hlength : q₃.mem.length = q.mem.length := hlength₃.trans hm.length
  have htail₃ : q₃.queue_tail + sizeofQueuedMessage * rest.length = q.mem.length := by
    change q.mem.length - sizeofQueuedMessage * rest.length + _ = _
    omega
  refine ⟨{ q₃ with curr_sz := q₃.mqttMqCurrsz }, ?_, hlength, hsmall, htail₃, hcurr,
    ?_, ?_, ?_, ?_⟩
  · have hget : ∀ mem : Bytes, mem.length = q.mem.length → { q with mem }.mqttMqGet
        ((q.mqttMqGet front.length - q.queue_tail) / sizeofQueuedMessage) =
          q.mem.length - sizeofQueuedMessage * rest.length := fun mem hmem => by
      rw [MqMemory.mqttMqGet, hidx, hmem]
    unfold MqMemory.moveHeaders
    dsimp only
    rw [hget q.mem rfl, hidx, hmove]
    change (MqMemory.bumpStarts _ _ 0 { q with
      mem := mem₂, queue_tail := { q with mem := mem₂ }.mqttMqGet _ } >>= _) = _
    rw [hget mem₂ hm.length]
    change (MqMemory.bumpStarts _ _ 0 q₂ >>= _) = _
    rw [hbump]
    rfl
  · change q.curr ≤ q.mem.length - sizeofQueuedMessage * rest.length
    omega
  · exact mqttMqCurrsz_eq ⟨q.mem.length, rest⟩ htail₃ hcurr
  · intro i m hi
    refine (hheaders₃ i m hi).mono fun f n hf => ?_
    beta_reduce
    rwa [if_neg (Nat.not_lt_zero i), hstart, Nat.add_sub_cancel_left]
  · intro i m hi
    have hbound : startOf rest i + m.start.length ≤ (rest.map (·.start.length)).sum :=
      startOf_bound hi
    refine (hpacked i m hi).congr fun j _ hj => ?_
    rw [show q₃.mem[j]? = mem₂[j]? from
      hsame₃ j (by rw [show q₂.mem = mem₂ from rfl, hm.length]; omega)]
    exact hm.outside j (.inl (by omega))

/-- The rest of `mqtt_mq_clean` once the first message to keep is known. -/
theorem rep_moveRest {front rest : List QueuedMessage} (h : Rep q mq)
    (hentries : front ++ rest = mq.entries) (hrest : 0 < rest.length) :
    ∃ q', q.moveRest front.length = .ok q' ∧ Rep q' ⟨mq.bufsz, rest⟩ := by
  have hlength := h.length
  have htail := h.tail
  have hcurr := h.curr
  have hroomy := h.roomy
  have hsmall := h.small
  have hlaid := h.laid
  rw [← hentries] at hlaid htail
  have hused : mq.used = (front.map (·.start.length)).sum + (rest.map (·.start.length)).sum := by
    rw [MessageQueue.used, ← hentries, List.map_append, List.sum_append]
  -- the first message to keep
  have hkeep : mq.entries[front.length]? = some rest[0] := by
    rw [← hentries, List.getElem?_append_right le_rfl, Nat.sub_self,
      List.getElem?_eq_getElem hrest]
  have hremoving : startOf mq.entries front.length = (front.map (·.start.length)).sum := by
    rw [← hentries, startOf_append le_rfl, startOf_length]
  have hload : q.loadMember (q.mqttMqGet front.length) .start =
      .ok (front.map (·.start.length)).sum := by
    rw [← hremoving]
    exact h.loadMember hkeep rfl (show startOf mq.entries front.length < 256 ^ 8 by omega)
  obtain ⟨mem₁, hmove, hm⟩ := move_moved
    (show (front.map (·.start.length)).sum + (rest.map (·.start.length)).sum ≤ q.mem.length by
      omega)
    (show 0 + (rest.map (·.start.length)).sum ≤ q.mem.length by omega)
  obtain ⟨hheaders, hpacked⟩ := hlaid.moveData rfl hm (by omega)
  obtain ⟨q', hmoved, hrep⟩ := rep_moveHeaders
    { q with mem := mem₁, curr := (rest.map (·.start.length)).sum } front rest
    (by rw [hm.length]; omega) (by rw [hm.length, hlength]; exact htail) rfl
    (show (front.map (·.start.length)).sum + (rest.map (·.start.length)).sum ≤ q.queue_tail by
      omega) hrest hheaders hpacked
  refine ⟨q', ?_, by rwa [hm.length, hlength] at hrep⟩
  unfold MqMemory.moveRest
  dsimp only
  rw [hload, except_ok_bind, show q.curr - (front.map (·.start.length)).sum =
    (rest.map (·.start.length)).sum by omega, hmove]
  exact hmoved

/-- `mqtt_mq_clean` drops the completed messages at the front. -/
theorem rep_clean (h : Rep q mq) : ∃ q', q.mqttMqClean = .ok q' ∧ Rep q' mq.clean := by
  set front := mq.entries.takeWhile fun m => m.state = .complete with hfront
  set rest := mq.entries.dropWhile fun m => m.state = .complete with hrest
  have hentries : front ++ rest = mq.entries := List.takeWhile_append_dropWhile
  have hclean : mq.clean = ⟨mq.bufsz, rest⟩ := rfl
  have hlength := h.length
  have hscan : q.newHead q.mqttMqLength 0 = .ok front.length := by
    rw [newHead_eq h _ 0 (by rw [h.mqttMqLength, Nat.zero_add]), List.drop_zero, Nat.zero_add]
  unfold MqMemory.mqttMqClean
  rw [hscan, except_ok_bind, h.mqttMqLength]
  split
  · -- every message is complete
    rename_i hall
    have hnil : rest = [] := by
      refine List.eq_nil_of_length_eq_zero ?_
      rw [← hentries, List.length_append] at hall
      omega
    rw [hclean, hnil]
    exact ⟨_, rfl, hlength, h.small, hlength, rfl, Nat.zero_le _,
      mqttMqCurrsz_eq ⟨mq.bufsz, []⟩ hlength rfl, Laid.nil q.mem⟩
  · split
    · -- none is
      rename_i hnone
      rw [hclean, ← List.nil_append rest, ← List.eq_nil_of_length_eq_zero hnone, hentries]
      exact ⟨_, rfl, h⟩
    · rename_i hsome hnone
      have hlengths : front.length + rest.length = mq.entries.length := by
        rw [← hentries, List.length_append]
      exact rep_moveRest h hentries (show 0 < rest.length by omega)

end Clean

/-! ## Finding -/

section Find

variable {q : MqMemory} {mq : MessageQueue} {control_type : ControlType} {packet_id : Option Nat}

/-- A type whose messages are looked up with a packet id has one in each. -/
def LookedUp (entries : List QueuedMessage) (control_type : ControlType) (packet_id : Option Nat) :
    Prop :=
  packet_id.isSome = true → ∀ m ∈ entries, m.control_type = control_type →
    ∃ pid < 2 ^ 16, m.packet_id = some pid

theorem found_eq (h : Rep q mq) (hl : LookedUp mq.entries control_type packet_id) {i : Nat}
    {m : QueuedMessage} (hm : mq.entries[i]? = some m) :
    q.found control_type packet_id (q.mqttMqGet i) =
      .ok (mqttMqMatches control_type packet_id m) := by
  unfold MqMemory.found mqttMqMatches
  rw [h.loadMember hm rfl m.control_type.code_small, except_ok_bind]
  by_cases htype : m.control_type = control_type
  · rw [if_pos (congrArg _ htype), decide_eq_true htype, Bool.true_and]
    rcases packet_id with _ | pid
    · simp only
      rw [h.loadMember hm rfl m.state.code_lt]
      cases m.state <;> rfl
    · obtain ⟨pid', hlt, hpid⟩ := hl rfl m (List.mem_of_getElem? hm) htype
      simp only
      rw [h.loadMember hm (f := .packet_id) hpid hlt, hpid]
      simp only [except_ok_bind, Option.some.injEq, eq_comm]
      rfl
  · rw [if_neg (mt ControlType.code_injective htype), decide_eq_false htype, Bool.false_and]
    rfl

/-- `mqtt_mq_find` finds the first message that matches. -/
theorem mqttMqFind_eq (h : Rep q mq) (hl : LookedUp mq.entries control_type packet_id)
    (todo i : Nat) (hi : i + todo = mq.entries.length) :
    q.mqttMqFind control_type packet_id todo i =
      .ok (((mq.entries.drop i).findIdx? (mqttMqMatches control_type packet_id)).map (i + ·)) := by
  induction todo generalizing i with
  | zero =>
      rw [List.drop_of_length_le (by omega)]
      rfl
  | succ todo ih =>
      have hlt : i < mq.entries.length := by omega
      rw [MqMemory.mqttMqFind, found_eq h hl (List.getElem?_eq_getElem hlt), except_ok_bind,
        List.drop_eq_getElem_cons hlt, List.findIdx?_cons, ih (i + 1) (by omega)]
      split
      · rfl
      · rw [Option.map_map]
        refine congrArg Except.ok (congrArg (Option.map · _) (funext fun k => ?_))
        exact (by omega : i + 1 + k = i + (k + 1))

end Find

/-! ## In every run -/

/-- The operations `ops`, from before `mqtt_init` on, lead to this queue. -/
inductive QueueRun : List QueueOp → Option MessageQueue → Prop
  | nil : QueueRun [] none
  | snoc {ops : List QueueOp} {op : QueueOp} {mq mq' : Option MessageQueue} :
      QueueRun ops mq → QueueMove op mq mq' → QueueRun (ops ++ [op]) mq'

/-- What the code does to the memory for an operation on the queue. -/
def MqMemory.step (q : MqMemory) : QueueOp → Except Fault MqMemory
  | .init => .ok (mqttMqInit q.mem)
  | .clean => q.mqttMqClean
  | .register packed control_type packet_id _ _ => q.queuePacked packed control_type packet_id
  | .complete i => q.markComplete i
  | .sent i time => do return (← q.markSent i time).getD q

/-- One operation after the other on the same memory. -/
def MqMemory.steps (q : MqMemory) (ops : List QueueOp) : Except Fault MqMemory :=
  ops.foldlM MqMemory.step q

theorem MqMemory.steps_snoc {q q' : MqMemory} {ops : List QueueOp} (h : q.steps ops = .ok q')
    (op : QueueOp) : q.steps (ops ++ [op]) = q'.step op := by
  rw [steps, List.foldlM_append, show ops.foldlM MqMemory.step q = .ok q' from h]
  exact bind_pure (q'.step op)

/-- Every move of the queue is answered by its memory. -/
theorem QueueMove.step {op : QueueOp} {mq : Option MessageQueue} {mq' : MessageQueue} {q : MqMemory}
    (h : QueueMove op mq (some mq')) (hlength : q.mem.length = bufSendSize)
    (hrep : ∀ mq₀ ∈ mq, Rep q mq₀ ∧ QueueOk mq₀) : ∃ q', q.step op = .ok q' ∧ Rep q' mq' := by
  cases h with
  | init =>
      refine ⟨_, rfl, ?_⟩
      have := rep_init q.mem (by rw [hlength]; decide)
      rwa [hlength] at this
  | clean mq => exact rep_clean (hrep mq rfl).1
  | register seqno leftover hfits hpacks _ =>
      exact rep_queuePacked (hrep _ rfl).1 hpacks.length_pos hfits _ _ seqno leftover
  | complete hm => exact rep_markComplete (hrep _ rfl).1 hm
  | sent time hm hstate =>
      obtain ⟨h, hok⟩ := hrep _ rfl
      have hpos := (hok.packs _ (List.mem_of_getElem? hm)).length_pos
      obtain ⟨q', hmark, hrep'⟩ := rep_markSent h hm hpos time hstate
      refine ⟨q', ?_, hrep'⟩
      rw [MqMemory.step, hmark]
      rfl

theorem QueueMove.queueOk {op : QueueOp} {mq mq' : Option MessageQueue} (h : QueueMove op mq mq')
    (hok : ∀ mq₀ ∈ mq, QueueOk mq₀) : ∀ mq₀ ∈ mq', QueueOk mq₀ := by
  rintro mq₀ rfl
  rcases mq with _ | mq
  · exact queueOk_init mq₀ h
  · exact h.ok (hok mq rfl)

/-- A run of the queue is a run of its memory, whatever was in the block. -/
theorem QueueRun.steps {ops : List QueueOp} {mq : Option MessageQueue} (h : QueueRun ops mq)
    {buf : Bytes} (hbuf : buf.length = bufSendSize) :
    (∀ mq₀ ∈ mq, QueueOk mq₀) ∧ ∃ q, (⟨buf, 0, 0, 0⟩ : MqMemory).steps ops = .ok q ∧
      q.mem.length = bufSendSize ∧ ∀ mq₀ ∈ mq, Rep q mq₀ := by
  induction h with
  | nil => exact ⟨by simp, _, rfl, hbuf, by simp⟩
  | @snoc ops op mq mq' _ hmove ih =>
      obtain ⟨hok, q, hsteps, hlength, hrep⟩ := ih
      have hok' := hmove.queueOk hok
      rcases mq' with _ | mq'
      · cases hmove
      · obtain ⟨q', hstep, hrep'⟩ :=
          hmove.step hlength fun mq₀ hmq₀ => ⟨hrep mq₀ hmq₀, hok mq₀ hmq₀⟩
        refine ⟨hok', q', ?_, ?_, by simpa using hrep'⟩
        · rw [MqMemory.steps_snoc hsteps, hstep]
        · rw [hrep'.length, (hok' mq' rfl).bufsz]

/-- The queue lies in its block, and a search of the block finds what one of the
list does. -/
structure InBlock (q : MqMemory) (mq : MessageQueue) : Prop where
  rep : Rep q mq
  find : ∀ control_type packet_id,
    (packet_id = none ∨
      control_type ∈ [.publish, .pubrec, .pubrel, .subscribe, .unsubscribe]) →
    q.mqttMqFind control_type packet_id q.mqttMqLength 0 =
      .ok (mq.entries.findIdx? (mqttMqMatches control_type packet_id))

theorem Rep.inBlock {q : MqMemory} {mq : MessageQueue} (h : Rep q mq) (hok : QueueOk mq) :
    InBlock q mq := by
  refine ⟨h, fun control_type packet_id hlook => ?_⟩
  have hl : LookedUp mq.entries control_type packet_id := by
    intro hsome m hm htype
    have hcarries : m.control_type ∉ [ControlType.connect, .disconnect, .pingreq] := by
      rw [htype]
      rcases hlook with rfl | hlook
      · cases hsome
      · rintro hno
        cases control_type <;> simp at hlook hno
    obtain ⟨pid, hpid⟩ := Option.isSome_iff_exists.mp ((hok.packs m hm).named hcarries)
    exact ⟨pid, (hok.packs m hm).packetId_lt hpid, hpid⟩
  rw [mqttMqFind_eq h hl _ 0 (by rw [h.mqttMqLength, Nat.zero_add]), List.drop_zero]
  simp

/-- Either send queue has come about by operations of the agent, and any such
operations, done to any block, leave the queue in it. -/
def SendBlocks (w : World) : Prop :=
  ∀ c mq, (w.conn c).mqclt.mq = some mq →
    (∃ ops, QueueRun ops (some mq)) ∧
    ∀ ops, QueueRun ops (some mq) → ∀ buf : Bytes, buf.length = bufSendSize →
      ∃ q, (⟨buf, 0, 0, 0⟩ : MqMemory).steps ops = .ok q ∧ InBlock q mq

/-- In every world of every run the memory of either send queue represents it;
no operation that led there has left the block. -/
theorem send_blocks (w : World) (h : InRun Always w) : SendBlocks w := by
  intro c mq hmq
  refine ⟨?_, fun ops hrun buf hbuf => ?_⟩
  · have hrun := queue_inRun (P := fun mq => ∃ ops, QueueRun ops mq) ⟨[], .nil⟩ ?_ h c
    · rwa [hmq] at hrun
    · rintro op mq mq' ⟨ops, hrun⟩ hmove
      exact ⟨_, hrun.snoc hmove⟩
  · obtain ⟨hok, q, hsteps, -, hrep⟩ := hrun.steps hbuf
    exact ⟨q, hsteps, (hrep mq rfl).inBlock (hok mq rfl)⟩

theorem send_blocks_oneMessage : SendBlocks (runs oneMessage) :=
  send_blocks _ (runs_inRun oneMessage)

end Admlink
