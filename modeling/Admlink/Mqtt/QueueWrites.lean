import Admlink.Mqtt.MqMemory

/-!
# Writing to a send queue

`mqtt_mq_init` and `mqtt_mq_register` lay out what the list has then, and what
`__mqtt_send` and `__mqtt_recv` write into a header or into the first byte of a
packet changes that message only. Nothing is written outside the block.
-/

namespace Admlink

open Program Block Runs

/-! ## Setting up and registering -/

section Register

variable {q : MqMemory} {mq : MessageQueue} {old mem mem' packed : Bytes} {base hdr : Nat}
  {members : Member → Option Nat}

/-- `curr_sz` is right once the two pointers are. -/
theorem mqttMqCurrsz_eq (mq : MessageQueue)
    (htail : q.queue_tail + sizeofQueuedMessage * mq.entries.length = mq.bufsz)
    (hcurr : q.curr = mq.used) : q.mqttMqCurrsz = mq.currsz := by
  unfold MqMemory.mqttMqCurrsz MessageQueue.currsz
  rw [← hcurr, ← htail, Nat.mul_succ]
  split <;> omega

theorem Laid.nil (mem : Bytes) : Laid mem [] := by
  constructor
  · intro i m hm
    cases hm
  · intro i m hm
    cases hm

theorem rep_init (buf : Bytes) (hsmall : buf.length < 256 ^ 8) :
    Rep (MqMemory.mqttMqInit buf) ⟨buf.length, []⟩ := by
  exact ⟨rfl, hsmall, rfl, rfl, Nat.zero_le _, mqttMqCurrsz_eq ⟨buf.length, []⟩ rfl rfl,
    Laid.nil buf⟩

/-- `mem` is `old` but for one header and the bytes of one packet. -/
structure Editing (old : Bytes) (base hdr : Nat) (packed mem : Bytes)
    (members : Member → Option Nat) : Prop where
  length : mem.length = old.length
  outside : ∀ j, j < base ∨ base + packed.length ≤ j → j < hdr ∨ hdr + sizeofQueuedMessage ≤ j →
    mem[j]? = old[j]?
  header : HeaderHolds mem hdr members
  packed : Holds mem base packed

theorem Editing.store (he : Editing old base hdr packed mem members)
    (hroom : base + packed.length ≤ hdr) (hbound : hdr + sizeofQueuedMessage ≤ old.length)
    (q₁ : MqMemory) (hq₁ : q₁.mem = mem) (f : Member) (n : Nat) :
    ∃ mem', q₁.storeMember hdr f n = .ok { q₁ with mem := mem' } ∧
      Editing old base hdr packed mem' (Function.update members f (some n)) := by
  have hf := f.bound
  obtain ⟨mem', hstore, hw⟩ := storeMember_ok
    (show hdr + sizeofQueuedMessage ≤ q₁.mem.length by rw [hq₁, he.length]; exact hbound) f n
  rw [hq₁] at hw
  refine ⟨mem', hstore, hw.length.trans he.length, fun j hj hhdr => ?_, he.header.written hw, ?_⟩
  · rw [hw.outside j (by rw [length_le]; omega)]
    exact he.outside j hj hhdr
  · exact he.packed.written hw (.inl (by omega))

theorem Laid.congr {entries : List QueuedMessage} (h : Laid mem entries)
    (hlength : mem'.length = mem.length)
    (hfit : sizeofQueuedMessage * entries.length ≤ mem.length)
    (hbytes : ∀ j < (entries.map (·.start.length)).sum, mem'[j]? = mem[j]?)
    (hheaders : ∀ j, mem.length - sizeofQueuedMessage * entries.length ≤ j → mem'[j]? = mem[j]?) :
    Laid mem' entries := by
  constructor
  · intro i m hm
    obtain ⟨hlt, -⟩ := List.getElem?_eq_some_iff.mp hm
    have hle : sizeofQueuedMessage * (i + 1) ≤ sizeofQueuedMessage * entries.length :=
      Nat.mul_le_mul_left _ hlt
    rw [hlength]
    exact (h.header i m hm).congr fun j hj _ => hheaders j (by omega)
  · intro i m hm
    have hbound := startOf_bound hm
    exact (h.packed i m hm).congr fun j _ hj => hbytes j (by omega)

/-- `mqtt_mq_register` behind the bytes of a packet. -/
theorem Editing.register
    (he : Editing q.mem q.curr (q.queue_tail - sizeofQueuedMessage) packed mem fun _ => none)
    (hroom : q.curr + packed.length + sizeofQueuedMessage ≤ q.queue_tail)
    (hbound : q.queue_tail ≤ q.mem.length) :
    ∃ q', { q with mem }.mqttMqRegister packed.length = .ok q' ∧
      q'.queue_tail = q.queue_tail - sizeofQueuedMessage ∧ q'.curr = q.curr + packed.length ∧
      q'.curr_sz = q'.mqttMqCurrsz ∧
      Editing q.mem q.curr (q.queue_tail - sizeofQueuedMessage) packed q'.mem
        (Function.update (Function.update (Function.update (fun _ => none)
          .start (some q.curr)) .size (some packed.length)) .state
          (some QueuedState.unsent.code)) := by
  have hroom' : q.curr + packed.length ≤ q.queue_tail - sizeofQueuedMessage := by omega
  have hbound' : q.queue_tail - sizeofQueuedMessage + sizeofQueuedMessage ≤ q.mem.length := by omega
  let q₁ : MqMemory := { q with mem, queue_tail := q.queue_tail - sizeofQueuedMessage }
  obtain ⟨mem₂, hstart, he⟩ := he.store hroom' hbound' q₁ (show q₁.mem = mem from rfl) .start q.curr
  obtain ⟨mem₃, hsize, he⟩ := he.store hroom' hbound' _
    (show { q₁ with mem := mem₂ }.mem = mem₂ from rfl) .size packed.length
  obtain ⟨mem₄, hstate, he⟩ := he.store hroom' hbound' _
    (show { q₁ with mem := mem₃ }.mem = mem₃ from rfl) .state QueuedState.unsent.code
  let q₄ : MqMemory := { q₁ with mem := mem₄, curr := q.curr + packed.length }
  refine ⟨{ q₄ with curr_sz := q₄.mqttMqCurrsz }, ?_, rfl, rfl, rfl, he⟩
  unfold MqMemory.mqttMqRegister
  rw [if_neg (show ¬ q.queue_tail < sizeofQueuedMessage by omega)]
  change (q₁.storeMember (q.queue_tail - sizeofQueuedMessage) .start q.curr >>= _) = _
  rw [hstart]
  change ({ q₁ with mem := mem₂ }.storeMember (q.queue_tail - sizeofQueuedMessage) .size
    packed.length >>= _) = _
  rw [hsize]
  change ({ q₁ with mem := mem₃ }.storeMember (q.queue_tail - sizeofQueuedMessage) .state
    QueuedState.unsent.code >>= _) = _
  rw [hstate]
  rfl

/-- Once the packet id is written, the header has all its members. -/
theorem Editing.storePacketId {control_type : ControlType}
    (he : Editing old base hdr packed mem (Function.update (Function.update (Function.update
      (Function.update (fun _ => none) .start (some base)) .size (some packed.length)) .state
      (some QueuedState.unsent.code)) .control_type (some control_type.code)))
    (hroom : base + packed.length ≤ hdr) (hbound : hdr + sizeofQueuedMessage ≤ old.length)
    (q₁ : MqMemory) (packet_id seqno : Option Nat) (leftover : Nat) :
    ∃ mem' members, { q₁ with mem }.storePacketId hdr packet_id = .ok { q₁ with mem := mem' } ∧
      Editing old base hdr packed mem' members ∧
      ∀ f n, memberOf (.new packed control_type packet_id seqno leftover) base f = some n →
        members f = some n := by
  rcases packet_id with _ | pid
  · refine ⟨mem, _, rfl, he, fun f n hf => ?_⟩
    cases f <;> simp_all [memberOf]
  · obtain ⟨mem', hstore, he'⟩ := he.store hroom hbound _
      (show { q₁ with mem }.mem = mem from rfl) .packet_id pid
    refine ⟨mem', _, hstore, he', fun f n hf => ?_⟩
    cases f <;> simp_all [memberOf]

/-- The header and the bytes of the new message lie between those of the others. -/
theorem Laid.append {entries : List QueuedMessage} (h : Laid old entries) {m : QueuedMessage}
    (he : Editing old base hdr m.start mem members)
    (hat : base = (entries.map (·.start.length)).sum)
    (hhdr : hdr + sizeofQueuedMessage * (entries.length + 1) = old.length)
    (hroom : base + m.start.length ≤ hdr)
    (hmembers : ∀ f n, memberOf m base f = some n → members f = some n) :
    Laid mem (entries ++ [m]) := by
  rw [Nat.mul_succ] at hhdr
  -- headers grow down and packets up, so the old ones are outside what was written
  have hold := h.congr he.length (by omega)
    (fun j hj => he.outside j (.inl (by omega)) (.inl (by omega)))
    (fun j hj => he.outside j (.inr (by omega)) (.inr (by omega)))
  have hlast : startOf (entries ++ [m]) entries.length = base := by
    rw [startOf_append le_rfl, startOf_length, hat]
  have hnew : ∀ i n, (entries ++ [m])[i]? = some n →
      i < entries.length ∧ entries[i]? = some n ∨ i = entries.length ∧ n = m := by
    intro i n hn
    rcases Nat.lt_or_ge i entries.length with hlt | hge
    · rw [List.getElem?_append_left hlt] at hn
      exact .inl ⟨hlt, hn⟩
    · rw [List.getElem?_append_right hge, List.getElem?_singleton] at hn
      split at hn
      · cases hn
        exact .inr ⟨by omega, rfl⟩
      · cases hn
  constructor
  · intro i n hn
    rcases hnew i n hn with ⟨hlt, hn⟩ | ⟨rfl, rfl⟩
    · rw [startOf_append hlt.le]
      exact hold.header i n hn
    · rw [hlast, he.length, show old.length - sizeofQueuedMessage * (entries.length + 1) = hdr by
        rw [Nat.mul_succ]; omega]
      exact he.header.mono hmembers
  · intro i n hn
    rcases hnew i n hn with ⟨hlt, hn⟩ | ⟨rfl, rfl⟩
    · rw [startOf_append hlt.le]
      exact hold.packed i n hn
    · rw [hlast]
      exact he.packed

/-- A packet that fits `curr_sz` is queued within the block. -/
theorem rep_queuePacked (h : Rep q mq) (hpos : 0 < packed.length)
    (hfits : packed.length ≤ mq.currsz)
    (control_type : ControlType) (packet_id seqno : Option Nat) (leftover : Nat) :
    ∃ q', q.queuePacked packed control_type packet_id = .ok q' ∧
      Rep q' (mq.register packed control_type packet_id seqno leftover) := by
  have htail := h.tail
  have hlength := h.length
  have hcurr := h.curr
  have hroom : q.curr + packed.length + sizeofQueuedMessage ≤ q.queue_tail := by
    unfold MessageQueue.currsz at hfits
    rw [Nat.mul_succ] at hfits
    omega
  have hroom' : q.curr + packed.length ≤ q.queue_tail - sizeofQueuedMessage := by omega
  have hbound : q.queue_tail - sizeofQueuedMessage + sizeofQueuedMessage ≤ q.mem.length := by omega
  obtain ⟨mem₁, hwrite, hw⟩ := write_written
    (show q.curr + packed.length ≤ q.mem.length by omega)
  -- the packet first, then the header below the last one
  have he₁ : Editing q.mem q.curr (q.queue_tail - sizeofQueuedMessage) packed mem₁ fun _ => none :=
    ⟨hw.length, fun j hj _ => hw.outside j hj, HeaderHolds.none _ _, hw.inside⟩
  obtain ⟨q₂, hregister, htail₂, hcurr₂, hcurrsz₂, he₂⟩ := he₁.register hroom (by omega)
  obtain ⟨mem₃, htype, he₃⟩ := he₂.store hroom' hbound q₂ rfl .control_type
    control_type.code
  obtain ⟨mem₄, members, hid, he₄, hmembers⟩ :=
    he₃.storePacketId hroom' hbound q₂ packet_id seqno leftover
  refine ⟨{ q₂ with mem := mem₄ }, ?_, ?_⟩
  · unfold MqMemory.queuePacked
    rw [hwrite]
    change ({ q with mem := mem₁ }.mqttMqRegister packed.length >>= _) = _
    rw [hregister]
    change (q₂.storeMember q₂.queue_tail .control_type control_type.code >>= _) = _
    rw [← htail₂] at htype hid
    rw [htype]
    exact hid
  · have hused : (mq.register packed control_type packet_id seqno leftover).used =
        mq.used + packed.length := by
      simp only [MessageQueue.used, MessageQueue.register, QueuedMessage.start_new,
        List.map_append, List.sum_append, List.map_cons, List.map_nil, List.sum_cons, List.sum_nil,
        Nat.add_zero]
    have hentries : (mq.register packed control_type packet_id seqno leftover).entries.length =
        mq.entries.length + 1 := List.length_append
    have htail' : q₂.queue_tail + sizeofQueuedMessage * (mq.entries.length + 1) = mq.bufsz := by
      rw [Nat.mul_succ]
      omega
    have hcurr' : q₂.curr = (mq.register packed control_type packet_id seqno leftover).used := by
      rw [hused, hcurr₂, hcurr]
    refine ⟨he₄.length.trans hlength, h.small, by rw [hentries]; exact htail', hcurr', ?_, ?_, ?_⟩
    · rw [hcurr₂, htail₂]
      omega
    · rw [hcurrsz₂]
      exact mqttMqCurrsz_eq _ (by rw [hentries]; exact htail') hcurr'
    · exact h.laid.append he₄ hcurr (by rw [← htail₂, htail', hlength]) hroom' hmembers

end Register

/-! ## Writing to a message -/

section Entries

variable {q : MqMemory} {mq : MessageQueue} {old mem mem' : Bytes} {i : Nat} {m m' : QueuedMessage}
  {entries : List QueuedMessage} {members : Member → Option Nat}

theorem startOf_set (h : entries[i]? = some m) (hlength : m'.start.length = m.start.length)
    (k : Nat) : startOf (entries.set i m') k = startOf entries k := by
  rw [startOf, startOf, List.map_take, List.map_take,
    map_set_same (f := fun m : QueuedMessage => m.start.length) h hlength]

/-- Messages of different indices have their bytes beside each other. -/
theorem startOf_disjoint {k : Nat} {n : QueuedMessage} (h : entries[i]? = some m)
    (hn : entries[k]? = some n) (hne : k ≠ i) :
    startOf entries k + n.start.length ≤ startOf entries i ∨
      startOf entries i + m.start.length ≤ startOf entries k := by
  rcases Nat.lt_or_gt_of_ne hne with hlt | hlt
  · rw [← startOf_succ hn]
    exact .inl (startOf_le hlt)
  · rw [← startOf_succ h]
    exact .inr (startOf_le hlt)

theorem headers_disjoint {i k : Nat} (hne : k ≠ i) :
    sizeofQueuedMessage * (k + 1) + sizeofQueuedMessage ≤ sizeofQueuedMessage * (i + 1) ∨
      sizeofQueuedMessage * (i + 1) + sizeofQueuedMessage ≤ sizeofQueuedMessage * (k + 1) := by
  unfold sizeofQueuedMessage
  omega

theorem Laid.set (h : Laid old entries) (hm : entries[i]? = some m)
    (he : Editing old (startOf entries i) (old.length - sizeofQueuedMessage * (i + 1)) m'.start mem
      members)
    (hfit : (entries.map (·.start.length)).sum + sizeofQueuedMessage * entries.length ≤ old.length)
    (hlength : m'.start.length = m.start.length)
    (hmembers : ∀ f n, memberOf m' (startOf entries i) f = some n → members f = some n) :
    Laid mem (entries.set i m') := by
  obtain ⟨hlt, -⟩ := List.getElem?_eq_some_iff.mp hm
  have hbound := startOf_bound hm
  have hhdr : sizeofQueuedMessage * (i + 1) ≤ sizeofQueuedMessage * entries.length :=
    Nat.mul_le_mul_left _ hlt
  constructor
  · intro k n hn
    rw [startOf_set hm hlength, he.length]
    rcases eq_or_ne k i with rfl | hne
    · rw [List.getElem?_set_self hlt] at hn
      cases hn
      exact he.header.mono hmembers
    · rw [List.getElem?_set_ne hne.symm] at hn
      obtain ⟨hk, -⟩ := List.getElem?_eq_some_iff.mp hn
      have hle : sizeofQueuedMessage * (k + 1) ≤ sizeofQueuedMessage * entries.length :=
        Nat.mul_le_mul_left _ hk
      have hbeside := headers_disjoint hne
      refine (h.header k n hn).congr fun j hj hj' => he.outside j (.inr (by omega)) ?_
      omega
  · intro k n hn
    rw [startOf_set hm hlength]
    rcases eq_or_ne k i with rfl | hne
    · rw [List.getElem?_set_self hlt] at hn
      cases hn
      exact he.packed
    · rw [List.getElem?_set_ne hne.symm] at hn
      have hother := startOf_bound hn
      have hbeside := startOf_disjoint hm hn hne
      refine (h.packed k n hn).congr fun j hj hj' => he.outside j ?_ (.inl (by omega))
      omega

theorem Rep.fit (h : Rep q mq) :
    (mq.entries.map (·.start.length)).sum + sizeofQueuedMessage * mq.entries.length ≤
      q.mem.length := by
  have hcurr := h.curr
  have := h.tail
  have := h.roomy
  have := h.length
  unfold MessageQueue.used at hcurr
  omega

/-- A header of a queue lies in the block, above all packets. -/
theorem Rep.header_bound (h : Rep q mq) (hm : mq.entries[i]? = some m) :
    startOf mq.entries i + m.start.length ≤ q.mqttMqGet i ∧
      q.mqttMqGet i + sizeofQueuedMessage ≤ q.mem.length := by
  obtain ⟨hlt, -⟩ := List.getElem?_eq_some_iff.mp hm
  have hhdr : sizeofQueuedMessage * (i + 1) ≤ sizeofQueuedMessage * mq.entries.length :=
    Nat.mul_le_mul_left _ hlt
  have hsucc : sizeofQueuedMessage * (i + 1) = sizeofQueuedMessage * i + sizeofQueuedMessage :=
    Nat.mul_succ _ _
  have := startOf_bound hm
  have := h.fit
  unfold MqMemory.mqttMqGet
  omega

theorem Rep.editing (h : Rep q mq) (hm : mq.entries[i]? = some m) :
    Editing q.mem (startOf mq.entries i) (q.mqttMqGet i) m.start q.mem
      (memberOf m (startOf mq.entries i)) :=
  ⟨rfl, fun _ _ _ => rfl, h.laid.header i m hm, h.laid.packed i m hm⟩

theorem Rep.set (h : Rep q mq) (hm : mq.entries[i]? = some m) (m' : QueuedMessage)
    (he : Editing q.mem (startOf mq.entries i) (q.mqttMqGet i) m'.start mem members)
    (hlength : m'.start.length = m.start.length)
    (hmembers : ∀ f n, memberOf m' (startOf mq.entries i) f = some n → members f = some n) :
    Rep { q with mem } { mq with entries := mq.entries.set i m' } := by
  have hused : ({ mq with entries := mq.entries.set i m' } : MessageQueue).used = mq.used := by
    unfold MessageQueue.used
    exact congrArg List.sum (map_set_same (f := fun m : QueuedMessage => m.start.length) hm hlength)
  have hentries : (mq.entries.set i m').length = mq.entries.length := List.length_set
  refine ⟨he.length.trans h.length, h.small, ?_, ?_, h.roomy, ?_, ?_⟩
  · rw [hentries]
    exact h.tail
  · rw [hused]
    exact h.curr
  · unfold MessageQueue.currsz
    rw [hused, hentries]
    exact h.curr_sz
  · exact h.laid.set hm he h.fit hlength hmembers

theorem Rep.loadMember (h : Rep q mq) (hm : mq.entries[i]? = some m) {f : Member} {n : Nat}
    (hf : memberOf m (startOf mq.entries i) f = some n) (hn : n < 256 ^ f.bytes) :
    q.loadMember (q.mqttMqGet i) f = .ok n :=
  loadMember_ok (h.laid.header i m hm) hf hn

theorem QueuedState.code_lt (s : QueuedState) : s.code < 256 ^ Member.state.bytes := by
  cases s <;> decide

theorem ControlType.code_small (t : ControlType) : t.code < 256 ^ Member.control_type.bytes := by
  cases t <;> decide

/-- `msg->state = MQTT_QUEUED_COMPLETE`. -/
theorem rep_markComplete (h : Rep q mq) (hm : mq.entries[i]? = some m) :
    ∃ q', q.markComplete i = .ok q' ∧
      Rep q' { mq with entries := mq.entries.set i { m with state := .complete } } := by
  obtain ⟨hroom, hbound⟩ := h.header_bound hm
  obtain ⟨mem', hstore, he⟩ := (h.editing hm).store hroom hbound q rfl .state
    QueuedState.complete.code
  refine ⟨_, hstore, h.set hm { m with state := .complete } he rfl fun f n hf => ?_⟩
  cases f <;> simp_all [memberOf]

theorem Editing.mark {base hdr : Nat} {c : UInt8} {cs : Bytes}
    (he : Editing old base hdr (c :: cs) mem members) (hroom : base + (c :: cs).length ≤ hdr)
    (hbound : hdr + sizeofQueuedMessage ≤ old.length) :
    ∃ mem', write mem base [c ||| 8] = some mem' ∧
      Editing old base hdr ((c ||| 8) :: cs) mem' members := by
  rw [List.length_cons] at hroom
  have hlength := he.length
  obtain ⟨mem', hwrite, hw⟩ := write_written
    (show base + [c ||| 8].length ≤ mem.length by rw [List.length_singleton]; omega)
  refine ⟨mem', hwrite, hw.length.trans hlength, fun j hj hhdr => ?_, ?_, ?_⟩
  · rw [List.length_cons] at hj
    rw [hw.outside j (by rw [List.length_singleton]; omega)]
    exact he.outside j (by rw [List.length_cons]; omega) hhdr
  · exact he.header.congr fun j hj _ => hw.outside j (.inr (by rw [List.length_singleton]; omega))
  · have hcs : Holds mem (base + 1) cs := (holds_append.mp (show Holds mem base ([c] ++ cs) from
      he.packed)).2
    change Holds mem' base ([c ||| 8] ++ cs)
    exact holds_append.mpr ⟨hw.inside, hcs.written hw (.inr le_rfl)⟩

/-- The switch of `__mqtt_send` on the control type, as `if`s. -/
theorem stateAfterSend_cases {state : QueuedState} (h : stateAfterSend m = some state) :
    ((m.control_type.code = ControlType.puback.code ∨
        m.control_type.code = ControlType.pubcomp.code ∨
        m.control_type.code = ControlType.disconnect.code) ∧
      m.control_type ≠ .publish ∧ state = .complete) ∨
    (m.control_type = .publish ∧
      state = if qosOf (m.start.headD 0).toNat = 0 then .complete else .awaitingAck) ∨
    (¬(m.control_type.code = ControlType.puback.code ∨
        m.control_type.code = ControlType.pubcomp.code ∨
        m.control_type.code = ControlType.disconnect.code) ∧
      m.control_type ≠ .publish ∧ m.control_type.code ≠ ControlType.publish.code ∧
      (m.control_type.code = ControlType.connect.code ∨
        m.control_type.code = ControlType.pubrec.code ∨
        m.control_type.code = ControlType.pubrel.code ∨
        m.control_type.code = ControlType.subscribe.code ∨
        m.control_type.code = ControlType.unsubscribe.code ∨
        m.control_type.code = ControlType.pingreq.code) ∧ state = .awaitingAck) := by
  unfold stateAfterSend at h
  split at h <;> rename_i htype <;> simp_all [ControlType.code]

theorem markDup_of_ne (h : m.control_type ≠ .publish) : markDup m = m.start := by
  unfold markDup
  split
  · rename_i htype _
    exact absurd htype h
  · rfl

theorem Rep.sent (h : Rep q mq) (hm : mq.entries[i]? = some m) {start : Bytes} {time : Nat}
    {state : QueuedState}
    (he : Editing q.mem (startOf mq.entries i) (q.mqttMqGet i) start mem
      (Function.update (Function.update (memberOf m (startOf mq.entries i)) .time_sent (some time))
        .state (some state.code)))
    (hlength : start.length = m.start.length) :
    Rep { q with mem } { mq with
      entries := mq.entries.set i { m with start, state, time_sent := time } } :=
  h.set hm { m with start, state, time_sent := time } he hlength fun f n hf => by
    cases f <;> simp_all [memberOf]

/-- The PUBLISH branch of the switch, which reads the QoS back from the first byte of
the packet. -/
theorem rep_markPublish (h : Rep q mq) (hm : mq.entries[i]? = some m) (hpos : 0 < m.start.length)
    {time : Nat} {q₁ : MqMemory} (hq₁ : q₁ = { q with mem := q₁.mem })
    (he₁ : Editing q.mem (startOf mq.entries i) (q.mqttMqGet i) m.start q₁.mem
      (Function.update (memberOf m (startOf mq.entries i)) .time_sent (some time)))
    (hpublish : m.control_type = .publish) {state : QueuedState}
    (hqos : state = if qosOf (m.start.headD 0).toNat = 0 then .complete else .awaitingAck) :
    ∃ q', q₁.markState (q.mqttMqGet i) ControlType.publish.code = .ok (some q') ∧ Rep q' { mq with
      entries := mq.entries.set i { m with start := markDup m, state, time_sent := time } } := by
  obtain ⟨hroom, hbound⟩ := h.header_bound hm
  obtain ⟨c, cs, hstart⟩ := List.exists_cons_of_length_pos hpos
  have hsmall : startOf mq.entries i < 256 ^ Member.start.bytes := by
    have := h.small
    have := h.length
    exact (show startOf mq.entries i < 256 ^ 8 by omega)
  have hload : q₁.loadMember (q.mqttMqGet i) .start = .ok (startOf mq.entries i) :=
    loadMember_ok he₁.header rfl hsmall
  have hfirst : q₁.mem[startOf mq.entries i]? = some c := by
    have := he₁.packed 0 hpos
    rwa [Nat.add_zero, hstart] at this
  have hmark : markDup m = if qosOf c.toNat = 1 then (c ||| 8) :: cs else c :: cs := by
    unfold markDup
    rw [hpublish, hstart]
  have hkeep : qosOf c.toNat ≠ 1 → m.start = markDup m := fun hne => by
    rw [hmark, if_neg hne, hstart]
  rw [hstart, List.headD_cons] at hqos
  obtain ⟨mem₂, hwrite, he₂⟩ := he₁.store hroom hbound q₁ rfl .state state.code
  rw [hq₁] at hwrite
  unfold MqMemory.markState
  rw [if_neg (by decide), if_pos rfl, hload, except_ok_bind]
  simp only [hfirst]
  -- only QoS 1 changes the packet
  by_cases hzero : qosOf c.toNat = 0
  · rw [if_pos hzero] at hqos
    subst hqos
    refine ⟨{ q with mem := mem₂ }, ?_, ?_⟩
    · rw [if_pos hzero, hq₁, hwrite]
      rfl
    · rw [← hkeep (by omega)]
      exact h.sent hm he₂ rfl
  · rw [if_neg hzero] at hqos
    subst hqos
    by_cases hone : qosOf c.toNat = 1
    · rw [hstart] at he₂ hroom
      obtain ⟨mem₃, hdup, he₃⟩ := he₂.mark hroom hbound
      refine ⟨{ q with mem := mem₃ }, ?_, ?_⟩
      · rw [if_neg hzero, if_pos hone, hq₁, hwrite]
        change (MqMemory.ofOption _ (write mem₂ (startOf mq.entries i) [c ||| 8]) >>= _) = _
        rw [hdup]
        rfl
      · rw [hmark, if_pos hone]
        exact h.sent hm he₃ (by rw [hstart]; rfl)
    · refine ⟨{ q with mem := mem₂ }, ?_, ?_⟩
      · rw [if_neg hzero, if_neg hone, hq₁, hwrite]
        rfl
      · rw [← hkeep hone]
        exact h.sent hm he₂ rfl

/-- What `__mqtt_send` writes to a message it has sent. -/
theorem rep_markSent (h : Rep q mq) (hm : mq.entries[i]? = some m) (hpos : 0 < m.start.length)
    (time : Nat) {state : QueuedState} (hstate : stateAfterSend m = some state) :
    ∃ q', q.markSent i time = .ok (some q') ∧ Rep q' { mq with
      entries := mq.entries.set i { m with start := markDup m, state, time_sent := time } } := by
  obtain ⟨hroom, hbound⟩ := h.header_bound hm
  obtain ⟨mem₁, htime, he₁⟩ := (h.editing hm).store hroom hbound q rfl .time_sent time
  let q₁ : MqMemory := { q with mem := mem₁ }
  have hget : q₁.mqttMqGet i = q.mqttMqGet i := by
    unfold MqMemory.mqttMqGet
    rw [he₁.length]
  have htype : q₁.loadMember (q.mqttMqGet i) .control_type = .ok m.control_type.code :=
    loadMember_ok he₁.header rfl m.control_type.code_small
  have hread : q.markSent i time = q₁.markState (q.mqttMqGet i) m.control_type.code := by
    unfold MqMemory.markSent
    rw [htime]
    change (q₁.loadMember (q₁.mqttMqGet i) .control_type >>= fun t =>
      q₁.markState (q₁.mqttMqGet i) t) = _
    rw [hget, htype]
    rfl
  obtain ⟨mem₂, hwrite, he₂⟩ := he₁.store hroom hbound q₁ (show q₁.mem = mem₁ from rfl) .state
    state.code
  rw [hread]
  rcases stateAfterSend_cases hstate with ⟨hcode, hne, rfl⟩ | ⟨hpublish, hqos⟩ |
    ⟨hcode, hne, hcode', hother, rfl⟩
  · refine ⟨{ q with mem := mem₂ }, ?_, by rw [markDup_of_ne hne]; exact h.sent hm he₂ rfl⟩
    unfold MqMemory.markState
    rw [if_pos hcode, hwrite]
    rfl
  · have hcode : m.control_type.code = ControlType.publish.code := by rw [hpublish]
    rw [hcode]
    exact rep_markPublish h hm hpos (show q₁ = { q with mem := q₁.mem } from rfl) he₁ hpublish hqos
  · refine ⟨{ q with mem := mem₂ }, ?_, by rw [markDup_of_ne hne]; exact h.sent hm he₂ rfl⟩
    unfold MqMemory.markState
    rw [if_neg hcode, if_neg hcode', if_pos hother, hwrite]
    rfl

end Entries

end Admlink
