import Admlink.ConnSteps
import Admlink.Flushing
import Admlink.Mqtt.QueueMoves

/-!
# What is left when a dispatch is done

Between two dispatches the queue of a client holds only messages that can be
sent, none of them half sent, and a client without an error has handled every
whole packet that it has received. So a connection that is open and has no error
needs no more than a silent broker and a socket that takes everything to be
`Healthy`.
-/

namespace Admlink

open Program Relation Runs World

/-! ## Messages that can be sent -/

section Sendable

variable {fd : Type} {cl cl' : MqttClient fd}

theorem stateAfterSend_type {m m' : QueuedMessage} (h : m'.control_type = m.control_type) :
    (stateAfterSend m').isSome = (stateAfterSend m).isSome := by
  unfold stateAfterSend
  rw [h]
  cases m.control_type <;> rfl

theorem entries_of_mq (h : cl'.mq = cl.mq) : cl'.entries = cl.entries := by
  rw [MqttClient.entries, MqttClient.entries, h]

namespace Sendable

theorem of_mq (h : cl'.mq = cl.mq) (hs : Sendable cl) : Sendable cl' := by
  rwa [Sendable, entries_of_mq h]

theorem set {i : Nat} {m m' : QueuedMessage} (hm : cl.entries[i]? = some m)
    (htype : m'.control_type = m.control_type) (hs : Sendable cl) :
    Sendable (cl.setEntries (cl.entries.set i m')) := by
  have hmq : cl.mq.isSome = true := by
    cases hq : cl.mq with
    | some mq => rfl
    | none =>
        rw [MqttClient.entries, hq] at hm
        cases hm
  rw [Sendable, MqttClient.entries_setEntries hmq]
  intro n hn
  rcases List.mem_or_eq_of_mem_set hn with hold | rfl
  · exact hs n hold
  · rw [stateAfterSend_type htype]
    exact hs m (List.mem_of_getElem? hm)

theorem register (packed : Bytes) {control_type : ControlType} (packet_id seqno : Option Nat)
    (hnew : (stateAfterSend (.new packed control_type packet_id seqno cl.leftover)).isSome = true)
    (hs : Sendable cl) : Sendable (cl.register packed control_type packet_id seqno) := by
  cases hmq : cl.mq with
  | none => exact hs.of_mq (by simp [MqttClient.register, hmq])
  | some mq =>
      have hentries := MqttClient.entries_register (by rw [hmq]; rfl) packed control_type
        packet_id seqno
      rw [Sendable, hentries]
      intro m hm
      rcases List.mem_append.mp hm with hold | hlast
      · exact hs m hold
      · rw [List.mem_singleton.mp hlast]
        exact hnew

theorem packAndRegister {pack_call : Option Nat → PackResult} (hneg : NegErrors pack_call)
    {control_type : ControlType} (packet_id seqno : Option Nat)
    (hnew : ∀ packed,
      (stateAfterSend (.new packed control_type packet_id seqno cl.leftover)).isSome = true)
    (hs : Sendable cl) :
    Sendable (Admlink.packAndRegister cl pack_call control_type packet_id seqno).2 := by
  obtain ⟨cl₀, h₀, ⟨packed, -, h⟩ | ⟨e, -, h⟩⟩ :=
    packAndRegister_cases cl hneg control_type packet_id seqno
  all_goals
    have hbase : Sendable cl₀ := by
      rcases h₀ with rfl | rfl
      · exact hs
      · exact (SameUnsent.clean cl).sendable hs
    rw [h]
  · exact hbase.register packed packet_id seqno (hnew packed)
  · exact hbase.of_mq rfl

theorem ackPacked (h : AckPacked cl cl') (hs : Sendable cl) : Sendable cl' := by
  obtain ⟨control_type, packet_id, htype, hpacked⟩ := h
  refine (hs.packAndRegister (negErrors_packPubxxxRequest control_type packet_id)
    (some packet_id) none fun packed => ?_).of_mq hpacked
  simp only [List.mem_cons, List.not_mem_nil, or_false] at htype
  rcases htype with rfl | rfl | rfl | rfl <;> rfl

theorem afterPacket (r : Response) (hs : Sendable cl) : Sendable (afterPacket cl r) := by
  cases packetDone cl r with
  | same h => exact hs.of_mq h
  | publish _ h => exact hs.ackPacked h
  | @release control_type packet_id m _ _ hrelease h =>
      obtain ⟨i, hm, -, rfl⟩ := release_eq hrelease
      have hset : Sendable (cl.setEntries (cl.entries.set i { m with state := .complete })) :=
        hs.set hm rfl
      rcases h with h | ⟨-, h⟩
      · exact hset.of_mq h
      · exact hset.ackPacked h

end Sendable

end Sendable

/-! ## What a synchronisation preserves -/

section Sync

variable {c : Conn} {w t : World}

abbrev KeepsSendable (c : Conn) : World → World → Prop :=
  Preserves fun w => Sendable (w.conn c).mqclt

theorem keepsSendable_setClient {cl : Client}
    (h : Sendable (w.conn c).mqclt → Sendable cl) : KeepsSendable c w (w.setClient c cl) := by
  intro hs
  rw [conn_setClient_same]
  exact h hs

theorem keepsSendable_sendRules (c : Conn) : SendRules c (KeepsSendable c) where
  env _ _ := id
  io _ _ hs := hs
  client _ _ hmq _ _ := keepsSendable_setClient (.of_mq hmq)
  sent _ _ _ _ _ hm _ := keepsSendable_setClient (.set hm rfl)

theorem keepsSendable_recvRules (c : Conn) :
    RecvRules c (KeepsSendable c) (fun _ _ => True) where
  env _ _ := id
  io _ _ hs := hs
  client _ _ hmq _ := keepsSendable_setClient (.of_mq hmq)
  packet w r hs := by
    change Sendable (conn _ c).mqclt
    rw [conn_setClient_same]
    exact hs.afterPacket r
  deliver msg w t hr hs := by
    have hpath := Within.of_ok (path_admlinkMsgHandle msg) hr
    change Sendable (t.conn c).mqclt
    rw [MsgPath.conn hpath c]
    exact hs
  stop _ _ _ _ _ := trivial

theorem sendable_ping {cl : Client} (hs : Sendable cl) : Sendable (mqttPing cl).2 :=
  hs.packAndRegister (negErrors_packFixedHeader _) none none fun _ => rfl

theorem keepsSendable_agSync (c : Conn) :
    Within (KeepsSendable c) (fun _ _ => True) (agSync c) :=
  within_agSync (keepsSendable_recvRules c) (keepsSendable_sendRules c) fun _ =>
    keepsSendable_setClient sendable_ping

/-- `__mqtt_recv` reads on until it has handled every whole packet. -/
theorem returns_mqttRecvStep_ok (cb : PublishCallback) (c : Conn) :
    Returns (mqttRecvStep cb c) fun r w => r = some .ok → NothingReceived (w.conn c).mqclt := by
  unfold mqttRecvStep
  refine Returns.bind fun cl => Returns.bind fun r => ?_
  cases r with
  | none =>
      refine Returns.bind fun _ => .pure fun _ h => ?_
      cases h
  | some new =>
      refine Triple.bind (Q := fun _ w => (w.conn c).mqclt.recv_buffer = cl.recv_buffer.store new)
        (.modify fun w _ => by simp) fun _ => ?_
      cases hr : mqttUnpackResponse (cl.recv_buffer.store new).mem
          (cl.recv_buffer.store new).received.length with
      | error e =>
          cases e with
          | fault f => exact .throw fun _ _ => trivial
          | mqtt e =>
              have hne : e ≠ .ok := by
                rintro rfl
                cases negUnpack_response _ _ _ hr
              refine Triple.strengthen (Returns.bind fun _ => .pure fun _ h => ?_)
                fun _ _ => trivial
              exact absurd (Option.some.inj h) hne
      | ok r =>
          cases r with
          | none =>
              refine .ite (fun _ => ?_) fun hroom => .pure fun w hw _ => ?_
              · refine Triple.strengthen (Returns.bind fun _ => .pure fun _ h => ?_)
                  fun _ _ => trivial
                cases h
              · -- only here the round answers MQTT_OK: nothing whole is left and there is room
                rw [NothingReceived, hw]
                exact ⟨hr, hroom⟩
          | some rc =>
              refine Triple.strengthen (Returns.bind fun ret => .ite (fun _ => ?_) fun _ => ?_)
                fun _ _ => trivial
              · exact .throw fun _ _ => trivial
              · refine Returns.bind fun _ => .pure fun w h => ?_
                by_cases hok : ret = .ok
                · rw [if_pos hok] at h
                  cases h
                · rw [if_neg hok] at h
                  exact absurd (Option.some.inj h) hok

theorem returns_mqttRecvLoop_ok (cb : PublishCallback) (c : Conn) : ∀ fuel,
    Returns (mqttRecvLoop cb c fuel) fun e w => e = .ok → NothingReceived (w.conn c).mqclt := by
  intro fuel
  induction fuel with
  | zero => exact .throw _ _
  | succ fuel ih =>
      refine Triple.bind (returns_mqttRecvStep_ok cb c) fun r => ?_
      cases r with
      | some ret =>
          refine .pure fun w h hret => h ?_
          rw [hret]
      | none => exact ih.strengthen fun _ _ => trivial

theorem nothingReceived_of_buffer {cl cl' : Client} (h : cl'.recv_buffer = cl.recv_buffer)
    (hn : NothingReceived cl) : NothingReceived cl' := by
  rwa [NothingReceived, h]

theorem packAndRegister_recv_buffer (cl : Client) {pack_call : Option Nat → PackResult}
    (hneg : NegErrors pack_call) (control_type : ControlType) (packet_id seqno : Option Nat) :
    (packAndRegister cl pack_call control_type packet_id seqno).2.recv_buffer =
      cl.recv_buffer := by
  obtain ⟨cl₀, h₀, ⟨packed, -, h⟩ | ⟨e, -, h⟩⟩ :=
    packAndRegister_cases cl hneg control_type packet_id seqno
  all_goals
    rw [h]
    rcases h₀ with rfl | rfl <;> rfl

/-- Sending leaves the receive buffer alone. -/
theorem keepsReceived_mqttSend (c : Conn) :
    Within (Preserves fun w => NothingReceived (w.conn c).mqclt) (fun _ _ => True)
      (mqttSend c) := by
  have hrules : SendRules c (Preserves fun w => NothingReceived (w.conn c).mqclt) := by
    constructor
    · constructor
      · exact fun _ _ => id
      · exact fun _ _ h => h
    · intro w cl _ _ hbuf h
      rw [conn_setClient_same]
      exact nothingReceived_of_buffer hbuf h
    · intro w i m state now _ _ h
      rw [conn_setClient_same]
      exact nothingReceived_of_buffer rfl h
  refine hrules.mqttSend fun w h => ?_
  change NothingReceived (conn _ c).mqclt
  rw [conn_setClient_same]
  exact nothingReceived_of_buffer
    (packAndRegister_recv_buffer _ (negErrors_packFixedHeader _) _ _ _) h

/-- When `mqtt_sync` succeeds nothing whole is left in the receive buffer. -/
theorem returns_agSync_ok (c : Conn) :
    Returns (agSync c) fun e w => e = .ok → NothingReceived (w.conn c).mqclt := by
  have hrest : Returns (do
      let err ← mqttRecv (publishCallback c) c
      if err ≠ .ok then return err
      else mqttSend c) fun e w => e = .ok → NothingReceived (w.conn c).mqclt := by
    refine Triple.bind (Returns.bind fun w => returns_mqttRecvLoop_ok _ c _) fun err => ?_
    refine .ite (fun hne => .pure fun _ h => h) fun hok => ?_
    intro w hw
    have hsend := keepsReceived_mqttSend c w
    cases hr : mqttSend c w with
    | ok e t =>
        rw [hr] at hsend
        exact fun _ => hsend (hw (not_not.mp hok))
    | error e t => trivial
  exact Returns.bind fun cl => .ite (fun _ => Returns.bind fun _ => hrest) fun _ => hrest

end Sync

/-- A packet that is packed leaves the error as it was. -/
theorem error_of_packAndRegister {cl : Client} {pack_call : Option Nat → PackResult}
    (hneg : NegErrors pack_call) {control_type : ControlType} {packet_id seqno : Option Nat}
    (h : (packAndRegister cl pack_call control_type packet_id seqno).2.error = .ok) :
    cl.error = .ok := by
  obtain ⟨cl₀, h₀, ⟨packed, -, hr⟩ | ⟨e, he, hr⟩⟩ :=
    packAndRegister_cases cl hneg control_type packet_id seqno
  · rw [hr] at h
    rcases h₀ with rfl | rfl
    · exact h
    · exact h
  · rw [hr] at h
    rw [show e = .ok from h] at he
    cases he

/-! ## Connections between two dispatches -/

structure Settled (cl : Client) : Prop where
  sendable : Sendable cl
  ready : cl.mq.isSome = true
  received : cl.error = .ok → NothingReceived cl

namespace Settled

variable {c : Conn} {w t u v : World} {cl : Client}

/-- Before a synchronisation nothing need be known of the receive buffer. -/
theorem of_sync {e : MqttErrors} (hs : Sendable (u.conn c).mqclt)
    (hready : (u.conn c).mqclt.mq.isSome = true) (h : agSync c u = .ok e v) :
    Settled (v.conn c).mqclt := by
  constructor
  · exact (keepsSendable_agSync c).of_ok h hs
  · rw [((frame_agSync c).of_ok h).link.ready]
    exact hready
  · intro herror
    by_cases hok : e = .ok
    · exact (returns_agSync_ok c).of_ok trivial h hok
    · have hneg := (returns_mqttSync (publishCallback c) c).of_ok trivial h hok
      rw [herror] at hneg
      cases hneg

/-- The first synchronisation of a connection. -/
theorem of_connected {connfd : Nat} {e : MqttErrors}
    (h : agSync c (w.connected c connfd) = .ok e v) : Settled (v.conn c).mqclt := by
  obtain ⟨packed, hcl⟩ := client_connected w c connfd
  refine of_sync ?_ ?_ h
  · rw [hcl]
    intro m hm
    rw [List.mem_singleton.mp hm]
    rfl
  · rw [hcl]
    rfl

theorem packAndRegister (hcl : Settled cl) {pack_call : Option Nat → PackResult}
    (hneg : NegErrors pack_call) {control_type : ControlType} (packet_id seqno : Option Nat)
    (pid : Nat) (hnew : ∀ packed,
      (stateAfterSend (.new packed control_type packet_id seqno cl.leftover)).isSome = true) :
    Settled (Admlink.packAndRegister { cl with pid_lfsr := pid } pack_call control_type
      packet_id seqno).2 := by
  constructor
  · exact Sendable.packAndRegister hneg packet_id seqno hnew (hcl.sendable.of_mq rfl)
  · rw [(packAndRegister_sameLink _ hneg control_type packet_id seqno).ready]
    exact hcl.ready
  · intro herror
    have hok : ({ cl with pid_lfsr := pid } : Client).error = .ok :=
      error_of_packAndRegister hneg herror
    refine nothingReceived_of_buffer
      (packAndRegister_recv_buffer _ hneg control_type packet_id seqno) ?_
    exact nothingReceived_of_buffer rfl (hcl.received hok)

theorem published (hcl : Settled cl) {topic_name application_message : Bytes}
    {publish_flags : Nat} {seqno : Option Nat} {r : MqttErrors × Client}
    (h : mqttPublish cl topic_name application_message publish_flags seqno = .ok r) :
    Settled r.2 := by
  obtain ⟨-, pid, rfl⟩ := mqttPublish_ok h
  exact hcl.packAndRegister (negErrors_packPublishRequest _ _ _ _) (some pid) seqno pid
    fun _ => rfl

theorem subscribed (hv : Settled (v.conn c).mqclt) (h : subscribeOf c v = .ok () t) :
    Settled (t.conn c).mqclt := by
  cases c with
  | mqupld =>
      cases h
      exact hv
  | mqrecv =>
      change subscribeTopicrecv v = .ok () t at h
      unfold subscribeTopicrecv at h
      rw [bind_of_ok (rfl : getConn .mqrecv v = .ok (v.conn .mqrecv) v)] at h
      cases hs : mqttSubscribe (v.conn .mqrecv).mqclt (v.conn .mqrecv).topicrecv.str 0 with
      | error f =>
          rw [hs] at h
          cases h
      | ok r =>
          obtain ⟨pid, rfl⟩ := mqttSubscribe_ok hs
          rw [hs] at h
          cases h
          change Settled ((v.setClient .mqrecv _).conn .mqrecv).mqclt
          rw [conn_setClient_same]
          exact hv.packAndRegister (negErrors_packWith _ _) (some pid) none pid fun _ => rfl

end Settled

/-- An open connection is settled. -/
def OpenSettled (p : MqConn) : Prop := p.biofd.isSome = true → Settled p.mqclt

/-- Every step of a connection leaves it settled. -/
theorem ConnStep.openSettled {c : Conn} {w t : World} (h : ConnStep c w t)
    (hw : OpenSettled (w.conn c)) : OpenSettled (t.conn c) := by
  intro hbio
  cases h with
  | same ht _ =>
      rw [ht] at hbio ⊢
      exact hw hbio
  | @synced u v hu _ hr ht _ =>
      rw [ht, ((frame_agSync c).of_ok hr).biofd, hu] at hbio
      have hcl := hw hbio
      rw [ht]
      rw [← hu] at hcl
      exact .of_sync hcl.sendable hcl.ready hr
  | published _ hr _ ht _ =>
      rw [ht] at hbio ⊢
      exact (hw hbio).published hr
  | down hnone _ =>
      rw [hnone] at hbio
      cases hbio
  | failed _ _ hr _ ht =>
      rw [ht]
      exact .of_connected hr
  | up _ _ _ hr hsub ht _ =>
      rw [ht]
      exact (Settled.of_connected hr).subscribed hsub

theorem openSettled_between {C : World → Dispatch → Prop} {w : World} (h : Between C w)
    (c : Conn) : OpenSettled (w.conn c) := by
  refine Reaches.invariant (I := fun w => OpenSettled (w.conn c)) ?_ ?_ h
  · rintro w ⟨arg, agent, sock, clock, env, hcfg, rfl⟩ hbio
    rw [World.conn, started, (hcfg.zeroed.2.2 c).1] at hbio
    cases hbio
  · intro d s t hs _ hr
    have hend := dispatch_ends d s
    rw [hr] at hend
    exact (DispatchEnd.connStep (c := c) hend).openSettled hs

/-- What it takes for an open connection to close healthily. -/
theorem Healthy.of_between {C : World → Dispatch → Prop} {w : World} (h : Between C w) (env : Env)
    {c : Conn} (hbio : (w.conn c).biofd.isSome = true) (herror : (w.conn c).mqclt.error = .ok)
    (haccepts : .failed ∉ env.writes) (hsilent : Calm.silentReads env.reads) :
    Healthy { w with env } c := by
  have hcl := openSettled_between h c hbio
  exact {
    biofd := hbio, ready := hcl.ready, error := herror, accepts := haccepts, silent := hsilent
    offset := (senderOk_inRun (.between (h.weaken fun _ _ _ => trivial)) c).send_offset
    received := hcl.received herror, sendable := hcl.sendable }

end Admlink
