import Mathlib.Algebra.Order.BigOperators.Group.List
import Mathlib.Algebra.Order.Group.Nat
import Mathlib.Data.List.Nodup
import Admlink.Mqtt.QueueMoves

/-!
# What is true of a send queue in every run

The block of the queue holds its packets and one header for each; every message
is one packet of its type; and the packet ids the agent chose itself, of
publishes and subscriptions, are all different, so that an acknowledgement means
one request. Messages are sent in the order they were queued, but for QoS 2
PUBLISHes, which wait for one another.
-/

namespace Admlink

open Relation Runs

/-- The packet id of a request of the agent's own. -/
def QueuedMessage.requestId (m : QueuedMessage) : Option Nat :=
  if m.isRequest then m.packet_id else none

structure QueueOk (mq : MessageQueue) : Prop where
  bufsz : mq.bufsz = bufSendSize
  roomy : mq.used + sizeofQueuedMessage * mq.entries.length ≤ mq.bufsz
  packs : ∀ m ∈ mq.entries, Packs m.control_type m.packet_id m.start
  distinct : (mq.entries.filterMap (·.requestId)).Nodup
  isPid : ∀ pid ∈ mq.entries.filterMap (·.requestId), IsPid pid
  named : ∀ m ∈ mq.entries, m.isRequest = true → m.packet_id.isSome = true

section Moves

variable {mq mq' : MessageQueue}

/-- Replacing an entry by one that looks the same to `f`. -/
theorem map_set_same {α β : Type} {f : α → β} {l : List α} {i : Nat} {a b : α}
    (h : l[i]? = some a) (hf : f b = f a) : (l.set i b).map f = l.map f := by
  induction l generalizing i with
  | nil => rfl
  | cons x xs ih =>
      rcases i with _ | i
      · rw [List.getElem?_cons_zero] at h
        cases h
        rw [List.set_cons_zero, List.map_cons, List.map_cons, hf]
      · rw [List.getElem?_cons_succ] at h
        rw [List.set_cons_succ, List.map_cons, List.map_cons, ih h]

theorem filterMap_eq_map {α β : Type} (f : α → Option β) (l : List α) :
    l.filterMap f = (l.map f).filterMap id := by
  rw [List.filterMap_map]
  rfl

/-- The state of a message is written: nothing that was said of it changes. -/
theorem QueueOk.set (h : QueueOk mq) {i : Nat} {m m' : QueuedMessage} (hm : mq.entries[i]? = some m)
    (hlength : m'.start.length = m.start.length) (hid : m'.requestId = m.requestId)
    (hpacks : Packs m'.control_type m'.packet_id m'.start)
    (hnamed : m'.isRequest = true → m'.packet_id.isSome = true) :
    QueueOk { mq with entries := mq.entries.set i m' } := by
  have hids : (mq.entries.set i m').filterMap (·.requestId) =
      mq.entries.filterMap (·.requestId) := by
    rw [filterMap_eq_map, map_set_same hm hid, ← filterMap_eq_map]
  have hmem : ∀ n ∈ mq.entries.set i m', n ∈ mq.entries ∨ n = m' := fun n hn =>
    List.mem_or_eq_of_mem_set hn
  refine ⟨h.bufsz, ?_, ?_, ?_, ?_, ?_⟩
  · have hroomy := h.roomy
    rw [MessageQueue.used] at hroomy ⊢
    simp only [map_set_same (f := fun m : QueuedMessage => m.start.length) hm hlength,
      List.length_set]
    exact hroomy
  · intro n hn
    rcases hmem n hn with hold | rfl
    · exact h.packs n hold
    · exact hpacks
  · rw [hids]
    exact h.distinct
  · rw [hids]
    exact h.isPid
  · intro n hn
    rcases hmem n hn with hold | rfl
    · exact h.named n hold
    · exact hnamed

theorem QueueOk.clean (h : QueueOk mq) : QueueOk mq.clean := by
  have hsub : mq.clean.entries.Sublist mq.entries := List.dropWhile_sublist _
  refine ⟨h.bufsz, ?_, fun m hm => h.packs m (hsub.mem hm), ?_, ?_,
    fun m hm => h.named m (hsub.mem hm)⟩
  · have hused : mq.clean.used ≤ mq.used :=
      (hsub.map _).sum_le_sum fun _ _ => Nat.zero_le _
    have hlength := Nat.mul_le_mul_left sizeofQueuedMessage hsub.length_le
    have hroomy := h.roomy
    change mq.clean.used + sizeofQueuedMessage * mq.clean.entries.length ≤ mq.bufsz
    omega
  · exact h.distinct.sublist (hsub.filterMap _)
  · exact fun pid hpid => h.isPid pid ((hsub.filterMap _).mem hpid)

theorem Packs.length_pos {control_type : ControlType} {packet_id : Option Nat} {packed : Bytes}
    (h : Packs control_type packet_id packed) : 0 < packed.length := by
  obtain ⟨hdr, body, -, hp⟩ := h.packedAs
  have := (length_fixedHeaderBytes hdr).1
  rw [hp.eq, List.length_append]
  omega

theorem Packs.packetId_lt {control_type : ControlType} {packet_id : Option Nat} {packed : Bytes}
    (h : Packs control_type packet_id packed) {pid : Nat} (hpid : packet_id = some pid) :
    pid < 2 ^ 16 := by
  induction h with
  | publish _ _ hlt _ | pubxxx _ hlt _ | subscribe _ hlt _ =>
      cases hpid
      exact hlt
  | dup _ _ ih => exact ih hpid
  | connect | disconnect | pingreq => cases hpid

/-- Only three packets of the agent carry no packet id. -/
theorem Packs.named {control_type : ControlType} {packet_id : Option Nat} {packed : Bytes}
    (h : Packs control_type packet_id packed)
    (htype : control_type ∉ [ControlType.connect, .disconnect, .pingreq]) :
    packet_id.isSome = true := by
  induction h with
  | publish | pubxxx | subscribe => rfl
  | dup _ _ ih => exact ih htype
  | connect | disconnect | pingreq => simp at htype

theorem isRequest_iff {m : QueuedMessage} :
    m.isRequest = true ↔ m.control_type = .publish ∨ m.control_type = .subscribe := by
  unfold QueuedMessage.isRequest
  rw [Bool.or_eq_true, decide_eq_true_eq, decide_eq_true_eq]

/-- A request that is registered has a fresh packet id. -/
theorem requestId_fresh {m : QueuedMessage} {entries : List QueuedMessage}
    (hpacks : Packs m.control_type m.packet_id m.start)
    (hfresh : m.control_type = .publish ∨ m.control_type = .subscribe →
      FreshId entries m.packet_id) {pid : Nat} (hid : m.requestId = some pid) :
    IsPid pid ∧ pid ∉ entries.filterMap (·.requestId) := by
  unfold QueuedMessage.requestId at hid
  split at hid
  · rename_i hreq
    rw [isRequest_iff] at hreq
    obtain ⟨hzero, hnew⟩ := hfresh hreq
    rw [hid] at hzero hnew
    refine ⟨⟨Nat.pos_of_ne_zero fun h => hzero (by rw [h]), hpacks.packetId_lt hid⟩, fun hmem => ?_⟩
    obtain ⟨n, hn, hid'⟩ := List.mem_filterMap.mp hmem
    unfold QueuedMessage.requestId at hid'
    split at hid'
    · exact hnew n hn hid'
    · cases hid'
  · cases hid

theorem QueueOk.register (h : QueueOk mq) {packed : Bytes} {control_type : ControlType}
    {packet_id : Option Nat} (seqno : Option Nat) (leftover : Nat)
    (hfits : packed.length ≤ mq.currsz)
    (hpacks : Packs control_type packet_id packed)
    (hfresh : control_type = .publish ∨ control_type = .subscribe →
      FreshId mq.entries packet_id) :
    QueueOk (mq.register packed control_type packet_id seqno leftover) := by
  have hpos := hpacks.length_pos
  have hold := h.roomy
  obtain ⟨m₀, hm₀⟩ : ∃ m, m = QueuedMessage.new packed control_type packet_id seqno leftover :=
    ⟨_, rfl⟩
  have hentries : (mq.register packed control_type packet_id seqno leftover).entries =
      mq.entries ++ [m₀] := by
    rw [hm₀]
    rfl
  have hmem : ∀ n ∈ mq.entries ++ [m₀], n ∈ mq.entries ∨ n = m₀ := by
    intro n hn
    rcases List.mem_append.mp hn with hn | hn
    · exact .inl hn
    · exact .inr (List.mem_singleton.mp hn)
  have hnew : ∀ pid, m₀.requestId = some pid →
      IsPid pid ∧ pid ∉ mq.entries.filterMap (·.requestId) := by
    subst hm₀
    exact fun pid => requestId_fresh hpacks hfresh
  refine ⟨h.bufsz, ?_, ?_, ?_, ?_, ?_⟩
  · unfold MessageQueue.currsz at hfits
    unfold MessageQueue.used at hold hfits ⊢
    simp only [sizeofQueuedMessage] at hold hfits
    simp only [sizeofQueuedMessage, MessageQueue.register, QueuedMessage.start_new,
      List.map_append, List.map_cons, List.map_nil,
      List.sum_append, List.sum_cons, List.sum_nil, List.length_append, List.length_cons,
      List.length_nil]
    omega
  · intro n hn
    rcases hmem n (hentries ▸ hn) with hn | rfl
    · exact h.packs n hn
    · rw [hm₀]
      exact hpacks
  -- the id of the new message, if it is a request
  · rw [hentries, List.filterMap_append]
    rcases hid : m₀.requestId with _ | pid
    · simpa [hid] using h.distinct
    · rw [List.filterMap_cons_some hid, List.filterMap_nil]
      refine List.nodup_append.mpr ⟨h.distinct, List.pairwise_singleton _ _, ?_⟩
      rintro x hx _ hpid rfl
      rw [List.mem_singleton.mp hpid] at hx
      exact (hnew pid hid).2 hx
  · rw [hentries, List.filterMap_append]
    intro pid hpid
    rcases List.mem_append.mp hpid with hpid | hpid
    · exact h.isPid pid hpid
    · obtain ⟨m, hm, hid⟩ := List.mem_filterMap.mp hpid
      rw [List.mem_singleton.mp hm] at hid
      exact (hnew pid hid).1
  · intro n hn hreq
    rcases hmem n (hentries ▸ hn) with hn | rfl
    · exact h.named n hn hreq
    · rw [isRequest_iff, hm₀] at hreq
      rw [hm₀]
      apply hpacks.named
      rcases hreq with rfl | rfl <;> decide

/-- Marking a PUBLISH as a duplicate changes one bit of its first byte. -/
theorem packs_markDup {m : QueuedMessage} (h : Packs m.control_type m.packet_id m.start) :
    (markDup m).length = m.start.length ∧ Packs m.control_type m.packet_id (markDup m) := by
  unfold markDup
  split
  · rename_i c cs htype hstart
    rw [htype, hstart] at h
    split
    · rename_i hqos
      exact ⟨by rw [hstart]; rfl, htype ▸ .dup h hqos⟩
    · exact ⟨by rw [hstart], htype ▸ h⟩
  · exact ⟨rfl, h⟩

theorem QueueMove.ok {op : QueueOp} (h : QueueMove op (some mq) (some mq'))
    (hmq : QueueOk mq) : QueueOk mq' := by
  cases h with
  | init => exact ⟨rfl, by simp [MessageQueue.used], by simp, by simp, by simp, by simp⟩
  | clean => exact hmq.clean
  | register seqno leftover hfits hpacks hfresh =>
      exact hmq.register seqno leftover hfits hpacks hfresh
  | complete hm =>
      have hpacks := hmq.packs _ (List.mem_of_getElem? hm)
      have hnamed := hmq.named _ (List.mem_of_getElem? hm)
      exact hmq.set hm rfl rfl hpacks hnamed
  | sent time hm _ =>
      obtain ⟨hlength, hpacks⟩ := packs_markDup (hmq.packs _ (List.mem_of_getElem? hm))
      have hnamed := hmq.named _ (List.mem_of_getElem? hm)
      exact hmq.set hm hlength rfl hpacks hnamed

end Moves

/-! ## In every run -/

theorem queueOk_init {op : QueueOp} (mq : MessageQueue) (h : QueueMove op none (some mq)) :
    QueueOk mq := by
  cases h with
  | init => exact ⟨rfl, by simp [MessageQueue.used], by simp, by simp, by simp, by simp⟩

theorem queueOk_inRun {w : World} (h : InRun Always w) (c : Conn) :
    ∀ mq ∈ (w.conn c).mqclt.mq, QueueOk mq := by
  refine queue_inRun (P := fun mq => ∀ q ∈ mq, QueueOk q) (by simp) ?_ h c
  intro op mq mq' hmq hstep q hq
  rcases mq with _ | mq
  · cases hq
    exact queueOk_init q hstep
  · cases hq
    exact hstep.ok (hmq mq rfl)

def QueuedPackets (w : World) : Prop :=
  ∀ c, ∀ m ∈ (w.conn c).mqclt.entries, OnePacket m

/-- Every message in either send queue, in every world of every run, is one whole
packet of its control type with its packet id. -/
theorem queued_packets (w : World) (h : InRun Always w) : QueuedPackets w := by
  intro c m hm
  unfold MqttClient.entries at hm
  split at hm
  · cases hm
  · rename_i mq hmq
    exact ((queueOk_inRun h c mq hmq).packs m hm).onePacket

theorem queued_packets_oneMessage : QueuedPackets (runs oneMessage) :=
  queued_packets _ (runs_inRun oneMessage)

theorem map_packetId {l : List QueuedMessage}
    (hnamed : ∀ m ∈ l, m.isRequest = true → m.packet_id.isSome = true) :
    (l.filter (·.isRequest)).map (·.packet_id) = (l.filterMap (·.requestId)).map some := by
  induction l with
  | nil => rfl
  | cons m l ih =>
      have hrest := ih fun n hn => hnamed n (List.mem_cons_of_mem _ hn)
      by_cases hreq : m.isRequest = true
      · obtain ⟨pid, hpid⟩ := Option.isSome_iff_exists.mp (hnamed m List.mem_cons_self hreq)
        have hid : m.requestId = some pid := by rw [QueuedMessage.requestId, if_pos hreq, hpid]
        rw [List.filter_cons_of_pos hreq, List.filterMap_cons_some hid, List.map_cons,
          List.map_cons, hrest, hpid]
      · have hid : m.requestId = none := by rw [QueuedMessage.requestId, if_neg hreq]
        rw [List.filter_cons_of_neg hreq, List.filterMap_cons_none hid, hrest]

/-- The publishes and subscriptions of a queue have 16-bit packet ids other than
zero, and no two have the same. -/
def DistinctRequests (w : World) : Prop :=
  ∀ c, let requests := (w.conn c).mqclt.entries.filter (·.isRequest)
    (requests.map (·.packet_id)).Nodup ∧
      ∀ m ∈ requests, ∃ pid, m.packet_id = some pid ∧ IsPid pid

/-- So an acknowledgement means one request, in every world of every run. -/
theorem distinct_requests (w : World) (h : InRun Always w) : DistinctRequests w := by
  intro c requests
  rcases hmq : (w.conn c).mqclt.mq with _ | mq
  · have hnone : requests = [] := by
      rw [show requests = (w.conn c).mqclt.entries.filter (·.isRequest) from rfl,
        MqttClient.entries, hmq]
      rfl
    rw [hnone]
    simp
  · have hok := queueOk_inRun h c mq hmq
    have hmap : requests.map (·.packet_id) = (mq.entries.filterMap (·.requestId)).map some := by
      rw [← map_packetId hok.named]
      rw [show requests = (w.conn c).mqclt.entries.filter (·.isRequest) from rfl,
        MqttClient.entries, hmq]
    constructor
    · rw [hmap]
      exact hok.distinct.map (Option.some_injective _)
    · intro m hm
      have hid : m.packet_id ∈ requests.map (·.packet_id) := List.mem_map_of_mem hm
      rw [hmap] at hid
      obtain ⟨pid, hpid, hid⟩ := List.mem_map.mp hid
      exact ⟨pid, hid.symm, hok.isPid pid hpid⟩

theorem distinct_requests_oneMessage : DistinctRequests (runs oneMessage) :=
  distinct_requests _ (runs_inRun oneMessage)

/-! ## The order of sending -/

/-- In front of a message that waits for its acknowledgement everything has been
sent, but for QoS 2 PUBLISHes, which wait for one another. -/
def SendOrder (entries : List QueuedMessage) : Prop :=
  entries.Pairwise fun m n =>
    n.state = .awaitingAck → m.state = .unsent → isInflightQos2 m = true

section SendOrder

variable {entries : List QueuedMessage} {i : Nat} {m : QueuedMessage}

/-- Message `i` gets a state, after what is queued before it if it is sent. -/
theorem SendOrder.set (h : SendOrder entries) (hstate : m.state ≠ .unsent)
    (hsent : m.state = .awaitingAck → SentBefore entries i) : SendOrder (entries.set i m) := by
  rw [SendOrder, List.pairwise_iff_getElem] at h ⊢
  intro j k hj hk hjk hawaits hunsent
  simp only [List.length_set] at hj hk
  rw [List.getElem_set] at hawaits hunsent ⊢
  split at hunsent
  · exact absurd hunsent hstate
  · rename_i hij
    rw [if_neg hij]
    split at hawaits
    · rename_i hik
      subst hik
      exact hsent hawaits j hjk _ (List.getElem?_eq_getElem hj) hunsent
    · exact h j k hj hk hjk hawaits hunsent

theorem SendOrder.register (h : SendOrder entries) (hm : m.state = .unsent) :
    SendOrder (entries ++ [m]) := by
  refine List.pairwise_append.mpr ⟨h, List.pairwise_singleton _ _, fun a _ b hb hawaits => ?_⟩
  rw [List.mem_singleton.mp hb, hm] at hawaits
  cases hawaits

theorem QueueMove.sendOrder {op : QueueOp} {mq mq' : MessageQueue}
    (h : QueueMove op (some mq) (some mq'))
    (horder : SendOrder mq.entries) : SendOrder mq'.entries := by
  cases h with
  | init => exact List.Pairwise.nil
  | clean => exact List.Pairwise.sublist (List.dropWhile_sublist _) horder
  | register => exact horder.register rfl
  | complete => exact horder.set (by simp) (by simp)
  | sent time _ hs hbefore => exact horder.set (stateAfterSend_ne_unsent hs) fun _ => hbefore

end SendOrder

/-- The messages of either queue are sent for the first time in the order they
were queued, in every world of every run. -/
def SentInOrder (w : World) : Prop := ∀ c, SendOrder (w.conn c).mqclt.entries

theorem sent_in_order (w : World) (h : InRun Always w) : SentInOrder w := by
  intro c
  have hqueue : ∀ mq ∈ (w.conn c).mqclt.mq, SendOrder mq.entries := by
    refine queue_inRun (P := fun mq => ∀ q ∈ mq, SendOrder q.entries) (by simp) ?_ h c
    rintro op (_ | mq) mq' hmq hstep q hq
    · cases hq
      cases hstep with
      | init => exact List.Pairwise.nil
    · cases hq
      exact hstep.sendOrder (hmq mq rfl)
  rcases hmq : (w.conn c).mqclt.mq with _ | mq
  · rw [MqttClient.entries, hmq]
    exact List.Pairwise.nil
  · rw [MqttClient.entries, hmq]
    exact hqueue mq hmq

theorem sent_in_order_oneMessage : SentInOrder (runs oneMessage) :=
  sent_in_order _ (runs_inRun oneMessage)

end Admlink
