import Admlink.Lib.History
import Admlink.Mqtt.QueueMoves

/-!
# A QoS 2 message is handed on once

A QoS 2 PUBLISH is handed to the callback only if no PUBREC with its packet id
is in the queue, and queues one. That PUBREC is never dropped before its PUBREL
has come (`Owes`): so whatever the broker repeats, and however the receiving and
the sending of the client are interleaved, a packet id is not handed on twice
without a PUBREL or an `mqtt_init` in between.
-/

namespace Admlink

open Program Runs World History

/-! ## The PUBREC that is owed -/

/-- A PUBREC with this packet id is in the queue and waits for its PUBREL. -/
def Owes (cl : Client) (pid : Nat) : Prop :=
  ∃ m ∈ cl.entries, m.control_type = .pubrec ∧ m.packet_id = some pid ∧ m.state ≠ .complete

section Owes

variable {cl cl' : Client} {pid : Nat}

theorem Owes.of_entries (h : Owes cl pid) (heq : cl'.entries = cl.entries) : Owes cl' pid := by
  rwa [Owes, heq]

theorem Owes.of_mq (h : Owes cl pid) (heq : cl'.mq = cl.mq) : Owes cl' pid :=
  h.of_entries (by rw [MqttClient.entries, MqttClient.entries, heq])

theorem Owes.isQueued (h : Owes cl pid) : isQueued cl .pubrec pid = true := by
  obtain ⟨m, hm, htype, hpid, -⟩ := h
  exact List.any_eq_true.mpr ⟨m, hm, by simp [mqttMqMatches, htype, hpid]⟩

/-- Only completed messages are cleaned away. -/
theorem Owes.clean (h : Owes cl pid) : Owes cl.clean pid := by
  have hsplit : cl.entries.takeWhile (·.state = .complete) ++
      cl.entries.dropWhile (·.state = .complete) = cl.entries := List.takeWhile_append_dropWhile
  obtain ⟨m, hm, htype, hpid, hstate⟩ := h
  refine ⟨m, ?_, htype, hpid, hstate⟩
  rw [← hsplit] at hm
  rw [cl.entries_clean]
  rcases List.mem_append.mp hm with hfront | hrest
  · have hdone := List.mem_takeWhile_imp hfront
    exact absurd (of_decide_eq_true hdone) hstate
  · exact hrest

theorem Owes.register (h : Owes cl pid) (packed : Bytes) (control_type : ControlType)
    (packet_id seqno : Option Nat) :
    Owes (cl.register packed control_type packet_id seqno) pid := by
  by_cases hmq : cl.mq.isSome = true
  · obtain ⟨m, hm, hpubrec⟩ := h
    refine ⟨m, ?_, hpubrec⟩
    rw [MqttClient.entries_register hmq]
    exact List.mem_append_left _ hm
  · rw [Option.not_isSome_iff_eq_none] at hmq
    exact h.of_entries (by simp [MqttClient.entries, MqttClient.register, hmq])

theorem Owes.packAndRegister (h : Owes cl pid) {pack_call : Option Nat → PackResult}
    (hneg : NegErrors pack_call) (control_type : ControlType) (packet_id seqno : Option Nat) :
    Owes (packAndRegister cl pack_call control_type packet_id seqno).2 pid := by
  obtain ⟨cl₀, h₀, ⟨packed, -, heq⟩ | ⟨e, -, heq⟩⟩ :=
    packAndRegister_cases cl hneg control_type packet_id seqno
  all_goals
    have hbase : Owes cl₀ pid := by
      rcases h₀ with rfl | rfl
      · exact h
      · exact h.clean
    rw [heq]
  · exact hbase.register packed control_type packet_id seqno
  · exact hbase.of_mq rfl

/-- One entry is rewritten: if it was the PUBREC, it still is. -/
theorem Owes.set (h : Owes cl pid) {i : Nat} {m m' : QueuedMessage} (hm : cl.entries[i]? = some m)
    (hstays : m.control_type = .pubrec → m.packet_id = some pid →
      m'.control_type = .pubrec ∧ m'.packet_id = some pid ∧ m'.state ≠ .complete) :
    Owes (cl.setEntries (cl.entries.set i m')) pid := by
  rcases hmq : cl.mq with _ | mq
  · exact h.of_entries (by simp [MqttClient.entries, MqttClient.setEntries, hmq])
  · have hentries : (cl.setEntries (cl.entries.set i m')).entries = cl.entries.set i m' := by
      simp [MqttClient.entries, MqttClient.setEntries, hmq]
    obtain ⟨n, hn, htype, hpid, hstate⟩ := h
    obtain ⟨j, hj⟩ := List.getElem?_of_mem hn
    by_cases hij : i = j
    · subst hij
      rw [hm, Option.some.injEq] at hj
      subst hj
      refine ⟨m', ?_, hstays htype hpid⟩
      rw [hentries]
      exact List.mem_of_getElem? (List.getElem?_set_self (List.getElem?_eq_some_iff.mp hm).1)
    · refine ⟨n, ?_, htype, hpid, hstate⟩
      rw [hentries]
      exact List.mem_of_getElem? ((List.getElem?_set_ne hij).trans hj)

theorem Owes.ackPacked (h : Owes cl pid) (hack : AckPacked cl cl') : Owes cl' pid := by
  obtain ⟨control_type, packet_id, -, hmq⟩ := hack
  exact (h.packAndRegister (negErrors_packPubxxxRequest _ _) _ _ _).of_mq hmq

/-- Nothing the client does by itself completes a PUBREC. -/
theorem Owes.call (h : Owes cl pid) (hcall : ClientCall cl cl') : Owes cl' pid := by
  cases hcall with
  | error | recvBuffer | resend | written => exact h.of_mq rfl
  | @sent i m state time hm hs _ =>
      refine h.set hm fun htype hpid => ⟨htype, hpid, ?_⟩
      rw [stateAfterSend, htype] at hs
      cases hs
      simp
  | ping | disconnect => exact h.packAndRegister (negErrors_packFixedHeader _) _ _ _
  | publish hr =>
      obtain ⟨-, pid', rfl⟩ := mqttPublish_ok hr
      have hnext : Owes { cl with pid_lfsr := pid' } pid := h.of_mq rfl
      exact hnext.packAndRegister (negErrors_packPublishRequest _ _ _ _) _ _ _
  | subscribe hr =>
      obtain ⟨pid', rfl⟩ := mqttSubscribe_ok hr
      have hnext : Owes { cl with pid_lfsr := pid' } pid := h.of_mq rfl
      exact hnext.packAndRegister (negErrors_packWith _ _) _ _ _
  | connect client_id =>
      have hopen : ∀ cl₀ : Client, cl₀.mq = cl.mq → Owes (Admlink.packAndRegister cl₀
          (mqttPackConnectionRequest · client_id.str connectCleanSession 60)
          .connect none none).2 pid := fun cl₀ h₀ =>
        (h.of_mq h₀).packAndRegister (packer_connect (length_str_lt _) _ _).neg _ _ _
      refine hopen _ ?_
      split <;> rfl

/-- Of the packets of the broker only its PUBREL completes it. -/
theorem Owes.packet (h : Owes cl pid) {r : Response} (hr : r ≠ .pubrel pid) :
    Owes (afterPacket cl r) pid := by
  cases packetDone cl r with
  | same hmq => exact h.of_mq hmq
  | publish _ hack => exact h.ackPacked hack
  | @release control_type packet_id m cl₁ hacks hrelease hrest =>
      obtain ⟨i, hm, hmatch, rfl⟩ := release_eq hrelease
      have hset : Owes (cl.setEntries (cl.entries.set i { m with state := .complete })) pid := by
        refine h.set hm fun htype hpid => absurd ?_ hr
        -- the entry is the PUBREC, so the packet is its PUBREL
        simp only [mqttMqMatches, Bool.and_eq_true, decide_eq_true_eq] at hmatch
        have hctype : control_type = .pubrec := hmatch.1.symm.trans htype
        cases r with
        | pubrel pid' =>
            cases hacks
            have hpid' := of_decide_eq_true hmatch.2
            rw [hpid, Option.some.injEq] at hpid'
            rw [hpid']
        | _ => cases hacks <;> cases hctype
      rcases hrest with hmq | ⟨-, hack⟩
      · exact hset.of_mq hmq
      · exact hset.ackPacked hack

/-- A packet that the packer has accepted is in the queue. -/
theorem owes_pubrec {pid : Nat} (hok : (stage (mqttPubrec cl pid)).1 = .ok) :
    Owes (stage (mqttPubrec cl pid)).2 pid := by
  have hpubrec : (mqttPubrec cl pid).1 = .ok := by
    unfold stage recvFails at hok
    split at hok
    · assumption
    · exact hok
  rw [stage, if_pos hpubrec]
  obtain ⟨cl₀, -, ⟨packed, hpack, heq⟩ | ⟨e, hneg, heq⟩⟩ := packAndRegister_cases cl
    (negErrors_packPubxxxRequest .pubrec pid) .pubrec (some pid) none
  all_goals
    change mqttPubrec cl pid = _ at heq
  · have hmq : cl₀.mq.isSome = true := by
      rcases hnone : cl₀.mq with _ | mq
      · rw [MqttClient.room, hnone, Option.map_none, mqttPackPubxxxRequest, if_pos rfl] at hpack
        cases hpack
      · rfl
    rw [heq]
    refine ⟨.new packed .pubrec (some pid) none cl₀.leftover, ?_, rfl, rfl, by simp⟩
    rw [MqttClient.entries_register hmq]
    exact List.mem_append_right _ (List.mem_singleton_self _)
  · rw [heq] at hpubrec
    change e = .ok at hpubrec
    rw [hpubrec] at hneg
    cases hneg

/-- A QoS 2 PUBLISH that is handed on was not owed a PUBREL, and now is. -/
theorem owes_handed {p : ResponsePublish} (hqos : p.qos_level = 2)
    (hcall : (handlePublish cl p).1 = true) :
    ¬ Owes cl p.packet_id ∧ Owes (afterPacket cl (.publish p)) p.packet_id := by
  have hhandle : handlePublish cl p = if isQueued cl .pubrec p.packet_id then (false, .ok, cl)
      else ((stage (mqttPubrec cl p.packet_id)).1 = .ok, stage (mqttPubrec cl p.packet_id)) := by
    rw [handlePublish, hqos]
    rfl
  rw [afterPacket]
  rw [hhandle] at hcall ⊢
  by_cases hqueued : isQueued cl .pubrec p.packet_id = true
  · rw [if_pos hqueued] at hcall
    cases hcall
  · rw [if_neg hqueued] at hcall ⊢
    exact ⟨fun howes => hqueued howes.isQueued, owes_pubrec (of_decide_eq_true hcall)⟩

end Owes

/-! ## The trace and the queue -/

/-- The packet id of a QoS 2 message that arrived on `c` and is handed on: the
delivery comes right behind its packet. -/
def handedQos2 (c : Conn) : Event → List Event → Option Nat
  | .deliver d _, .packet d' (.publish p) _ :: _ =>
      if d = c ∧ d' = c ∧ p.qos_level = 2 then some p.packet_id else none
  | _, _ => none

/-- After these the packet id may be used for another message. -/
def FreesQos2 (c : Conn) (e : Event) (pid : Nat) : Prop :=
  e = .mqttInit c ∨ ∃ seqno, e = .packet c (.pubrel pid) seqno

/-- Nothing has been handed on twice, and for what is held a PUBREC waits. -/
structure Qos2Ok (c : Conn) (w : World) : Prop where
  once : Once (handedQos2 c) (FreesQos2 c) w.trace
  owes : ∀ pid, History.Held (handedQos2 c) (FreesQos2 c) pid w.trace → Owes (w.conn c).mqclt pid

theorem handedQos2_eq_none {c : Conn} {e : Event} (he : ∀ app_msg, e ≠ .deliver c app_msg)
    (past : List Event) : handedQos2 c e past = none := by
  unfold handedQos2
  split
  · rename_i d app_msg d' p seqno rest
    rw [if_neg]
    rintro ⟨rfl, -⟩
    exact he app_msg rfl
  · rfl

section Rules

variable {c d : Conn} {w t : World}

/-- Events that hand nothing on, and a client that goes on owing. -/
theorem Qos2Ok.mono (h : Qos2Ok c w) (new : List Event) (ht : t.trace = new ++ w.trace)
    (hnew : ∀ e ∈ new, ∀ app_msg, e ≠ .deliver c app_msg)
    (howes : ∀ pid, (∀ e ∈ new, ¬ FreesQos2 c e pid) → Owes (w.conn c).mqclt pid →
      Owes (t.conn c).mqclt pid) : Qos2Ok c t := by
  have hnone : ∀ e ∈ new, ∀ past, handedQos2 c e past = none := fun e he =>
    handedQos2_eq_none (hnew e he)
  constructor
  · rw [ht]
    exact h.once.append hnone
  · intro pid hheld
    rw [ht] at hheld
    exact howes pid (held_kept hnone hheld) (h.owes pid (held_append _ hnone hheld))

theorem Qos2Ok.aside (h : Qos2Ok c w) (ht : Aside w t) : Qos2Ok c t := by
  obtain ⟨new, hnew, haside⟩ := ht.logs
  refine h.mono _ hnew (fun e he app_msg heq => ?_) fun pid _ howes => ?_
  · have := haside e he
    rw [heq] at this
    exact this
  · rw [ht.client c]
    exact howes

theorem Qos2Ok.call (h : Qos2Ok c w) {cl : Client} (hcall : ClientCall (w.conn d).mqclt cl) :
    Qos2Ok c (w.setClient d cl) := by
  refine h.mono [] rfl (by simp) fun pid _ howes => ?_
  by_cases hcd : c = d
  · subst hcd
    rw [conn_setClient_same]
    exact howes.call hcall
  · rwa [conn_setClient_other w hcd]

theorem Qos2Ok.packet (h : Qos2Ok c w) (r : Response) : Qos2Ok c (w.handled d r) := by
  refine h.mono (t := w.handled d r) [.packet d r (ackedSeqno (w.conn d).mqclt r)] rfl
    (by simp) fun pid hfree howes => ?_
  by_cases hcd : c = d
  · subst hcd
    rw [World.handled, conn_setClient_same]
    refine howes.packet fun hr => ?_
    subst hr
    exact hfree _ (List.mem_singleton_self _) (.inr ⟨_, rfl⟩)
  · rw [World.handled, conn_setClient_other _ hcd]
    exact howes

/-- A delivery right behind its packet. -/
theorem Qos2Ok.deliver (h : Qos2Ok c w) {p : ResponsePublish} (app_msg : Bytes)
    (hcall : (handlePublish (w.conn d).mqclt p).1 = true) :
    Qos2Ok c ((w.handled d (.publish p)).log (.deliver d app_msg)) := by
  have hpacket : Qos2Ok c (w.handled d (.publish p)) := h.packet _
  have hgive : ∀ pid, handedQos2 c (.deliver d app_msg) (w.handled d (.publish p)).trace =
      some pid → d = c ∧ p.qos_level = 2 ∧ p.packet_id = pid := by
    intro pid hpid
    change (if d = c ∧ d = c ∧ p.qos_level = 2 then some p.packet_id else none) = some pid at hpid
    split at hpid
    · rename_i hc
      cases hpid
      exact ⟨hc.1, hc.2.2, rfl⟩
    · cases hpid
  refine ⟨⟨fun pid hpid hheld => ?_, hpacket.once⟩, fun pid hheld => ?_⟩
  · -- the PUBREC was not in the queue, so the id was not held
    obtain ⟨rfl, hqos, rfl⟩ := hgive pid hpid
    refine (owes_handed hqos hcall).1 (h.owes _ ?_)
    exact held_append [.packet d (.publish p) (ackedSeqno (w.conn d).mqclt (.publish p))]
      (by simp [handedQos2]) hheld
  · rcases hheld with hpid | ⟨-, hheld⟩
    · obtain ⟨rfl, hqos, rfl⟩ := hgive pid hpid
      rw [conn_log, World.handled, conn_setClient_same]
      exact (owes_handed hqos hcall).2
    · exact hpacket.owes pid hheld

theorem Qos2Ok.init (h : Qos2Ok c w) (sockfd : Option BioId) : Qos2Ok c (w.inited d sockfd) := by
  refine h.mono [.mqttInit d] rfl (by simp) fun pid hfree howes => ?_
  by_cases hcd : c = d
  · -- the new client owes nothing, and nothing is held after `mqtt_init`
    subst hcd
    exact absurd (.inl rfl) (hfree _ (List.mem_singleton_self _))
  · rw [World.inited, conn_setClient_other _ hcd]
    exact howes

end Rules

instance (c : Conn) : ClientRules (Qos2Ok c) where
  aside _ _ ht h := h.aside ht
  call _ _ _ hcall h := h.call hcall
  packet _ _ r _ _ _ _ h := h.packet r
  deliver _ _ _ _ _ _ app_msg _ hcall h := h.deliver app_msg hcall
  init _ _ sockfd h := h.init sockfd

theorem qos2Ok_start (c : Conn) {w : World} (h : IsStart w) : Qos2Ok c w := by
  obtain ⟨arg, agent, sock, clock, env, -, rfl⟩ := h
  refine ⟨⟨fun pid hpid => ?_, trivial⟩, fun pid hheld => ?_⟩
  · cases hpid
  · rcases hheld with hpid | ⟨-, hheld⟩
    · cases hpid
    · exact hheld.elim

/-! ## Result -/

/-- A QoS 2 message that is handed on has its PUBREC in the queue until its
PUBREL comes or the client is set up anew, and until then no message with its
packet id is handed on again. -/
structure HandedOnce (w : World) : Prop where
  kept : ∀ c newer older app_msg p seqno,
    w.trace = newer ++ .deliver c app_msg :: .packet c (.publish p) seqno :: older →
    p.qos_level = 2 →
    (∀ e ∈ newer, e ≠ .mqttInit c ∧ ∀ s, e ≠ .packet c (.pubrel p.packet_id) s) →
    Owes (w.conn c).mqclt p.packet_id
  once : ∀ c newer mid older app_msg app_msg' p p' seqno seqno',
    w.trace = newer ++ .deliver c app_msg :: .packet c (.publish p) seqno ::
      (mid ++ .deliver c app_msg' :: .packet c (.publish p') seqno' :: older) →
    p.qos_level = 2 → p'.qos_level = 2 → p.packet_id = p'.packet_id →
    ∃ e ∈ mid, e = .mqttInit c ∨ ∃ s, e = .packet c (.pubrel p.packet_id) s

theorem handed_once (w : World) (h : InRun Always w) : HandedOnce w := by
  have hok : ∀ c, Qos2Ok c w := fun c => inRun_of_rules (fun _ => qos2Ok_start c) h
  constructor
  · intro c newer older app_msg p seqno htrace hqos hkept
    refine (hok c).owes _ ?_
    rw [htrace]
    refine held_of_split (by simp [handedQos2, hqos]) fun e he hfree => ?_
    rcases hfree with hinit | ⟨s, hpubrel⟩
    · exact (hkept e he).1 hinit
    · exact (hkept e he).2 s hpubrel
  · intro c newer mid older app_msg app_msg' p p' seqno seqno' htrace hqos hqos' hpid
    obtain ⟨e, he, hfree⟩ := (hok c).once.between (k := p.packet_id)
      (.packet c (.publish p) seqno :: mid) htrace (by simp [handedQos2, hqos])
      (by simp [handedQos2, hqos', hpid])
    rcases List.mem_cons.mp he with rfl | he
    · rcases hfree with hinit | ⟨s, hpubrel⟩
      · cases hinit
      · cases hpubrel
    · exact ⟨e, he, hfree⟩

/-- The receiver comes up, and the broker sends a QoS 2 message twice. -/
def sentTwice : List Dispatch :=
  let publish : Bytes := [0x34, 6, 0, 1, 116, 0, 7, 120]
  [.timeout (after 1000000 [.sent 22, .sent 31]),
    .timeout { after 200000 [.sent 50, .sent 4] with
      reads := [.data (publish ++ publish), .wantRead, .wantRead, .wantRead] }]

theorem handed_once_sentTwice :
    HandedOnce (runs sentTwice) ∧ .deliver .mqrecv (bytes "x") ∈ (runs sentTwice).trace :=
  ⟨handed_once _ (runs_inRun sentTwice), by decide +kernel⟩

end Admlink
