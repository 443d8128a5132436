import Admlink.Handlers

/-!
# What a run can do to a client, and what it leaves in the trace

`ClientMove` lists the calls and assignments that change a `struct mqtt_client`,
each with all it leaves behind. `ClientRules` says when a predicate on worlds
survives them; packets, deliveries and `mqtt_init` come with their events.
Whatever the daemon does, however it is scheduled and wherever it stops, such a
predicate holds (`inRun_of_rules`), and each client has come from zeroed memory
by such moves.
-/

namespace Admlink

open Program Relation Runs World

/-! ## Moves -/

/-- Of what is queued before message `i` only QoS 2 PUBLISHes have not been sent. -/
def SentBefore (entries : List QueuedMessage) (i : Nat) : Prop :=
  ∀ j < i, ∀ m, entries[j]? = some m → m.state = .unsent → isInflightQos2 m = true

/-- A change of a client that neither handles a packet nor sets the client up.
`time` is what `MQTT_PAL_TIME` answers. -/
inductive ClientCall (cl : Client) : Client → Prop
  | error (e : MqttErrors) : ClientCall cl { cl with error := e }
  | recvBuffer (b : RecvBuffer) : ClientCall cl { cl with recv_buffer := b }
  | resend : ClientCall cl { cl with send_offset := 0 }
  | written (time : Nat) :
      ClientCall cl { cl with send_offset := 0, time_of_last_send := time }
  | sent {i : Nat} {m : QueuedMessage} {state : QueuedState} (time : Nat) :
      cl.entries[i]? = some m → stateAfterSend m = some state → SentBefore cl.entries i →
      ClientCall cl (cl.setEntries
        (cl.entries.set i { m with start := markDup m, state, time_sent := time }))
  | ping : ClientCall cl (mqttPing cl).2
  | disconnect : ClientCall cl (mqttDisconnect cl).2
  | publish {topic_name : Field 128} {application_message : Bytes} {publish_flags : Nat}
      {seqno : Option Nat} {r : MqttErrors × Client} :
      mqttPublish cl topic_name.str application_message publish_flags seqno = .ok r →
      ClientCall cl r.2
  | subscribe {topic_name : Field 128} {r : MqttErrors × Client} :
      mqttSubscribe cl topic_name.str 0 = .ok r → ClientCall cl r.2
  | connect (client_id : Field 128) :
      ClientCall cl (mqttConnect cl client_id.str connectCleanSession 60).2

/-- One change of a client. -/
inductive ClientMove (cl : Client) : Client → Prop
  | call {cl' : Client} : ClientCall cl cl' → ClientMove cl cl'
  | packet {r : Response} {mem : Bytes} {received consumed : Nat} :
      mqttUnpackResponse mem received = .ok (some (r, consumed)) →
      ClientMove cl (afterPacket cl r)
  | init (sockfd : Option BioId) : ClientMove cl (mqttInit cl sockfd bufSendSize bufRecvSize)

/-! ## Rules -/

/-- An event that is no change of a client. -/
def Event.aside : Event → Prop
  | .packet .. | .deliver .. | .mqttInit _ => False
  | _ => True

namespace World

/-- A packet has been handled. -/
def handled (w : World) (c : Conn) (r : Response) : World :=
  (w.log (.packet c r (ackedSeqno (w.conn c).mqclt r))).setClient c
    (afterPacket (w.conn c).mqclt r)

/-- `mqtt_init` has been called. -/
def inited (w : World) (c : Conn) (sockfd : Option BioId) : World :=
  (w.log (.mqttInit c)).setClient c (mqttInit (w.conn c).mqclt sockfd bufSendSize bufRecvSize)

/-- Both clients are as they were, and nothing has been logged for them. -/
structure Aside (w t : World) : Prop where
  client : ∀ c, (t.conn c).mqclt = (w.conn c).mqclt
  logs : Logs Event.aside w t

end World

/-- `P` survives everything a run does to the clients. The callback is only
called for a PUBLISH that has just been handled. -/
class ClientRules (P : World → Prop) : Prop where
  aside : ∀ w t, Aside w t → P w → P t
  call : ∀ w c cl, ClientCall (w.conn c).mqclt cl → P w → P (w.setClient c cl)
  packet : ∀ w c r mem received consumed,
    mqttUnpackResponse mem received = .ok (some (r, consumed)) → P w → P (w.handled c r)
  deliver : ∀ w c p mem received consumed app_msg,
    mqttUnpackResponse mem received = .ok (some (.publish p, consumed)) →
    (handlePublish (w.conn c).mqclt p).1 = true → P w →
    P ((w.handled c (.publish p)).log (.deliver c app_msg))
  init : ∀ w c sockfd, P w → P (w.inited c sockfd)

instance (P : World → Prop) : IsPreorder World (Preserves P) where
  refl _ := id
  trans _ _ _ h h' := h' ∘ h

/-- A program that keeps `P`, however it ends. -/
abbrev Moves (P : World → Prop) {α : Type} (x : Prog α) : Prop :=
  Within (Preserves P) (Preserves P) x

section Moves

variable {P : World → Prop} [ClientRules P] {c : Conn} {w t : World}

theorem keeps_aside (hclient : ∀ c, (t.conn c).mqclt = (w.conn c).mqclt)
    (hlogs : Logs Event.aside w t) : Preserves P w t :=
  ClientRules.aside w t ⟨hclient, hlogs⟩

theorem keeps_call {cl : Client} (h : ClientCall (w.conn c).mqclt cl) :
    Preserves P w (w.setClient c cl) :=
  ClientRules.call w c cl h

/-- Nothing of the clients changes, and nothing is logged. -/
theorem moves_modify {f : World → World} (hclient : ∀ w c, ((f w).conn c).mqclt = (w.conn c).mqclt)
    (htrace : ∀ w, (f w).trace = w.trace) : Moves P (modify f) :=
  Within.modify fun w => keeps_aside (hclient w) (.of_eq (htrace w))

theorem moves_emit {e : Event} (he : e.aside) : Moves P (emit e) :=
  Within.modify fun _ => keeps_aside (fun _ => rfl) (.log he)

theorem moves_modifyConn (c : Conn) {f : MqConn → MqConn} (h : ∀ p, (f p).mqclt = p.mqclt) :
    Moves P (modifyConn c f) := by
  refine moves_modify (fun w d => ?_) fun _ => rfl
  by_cases hd : d = c
  · subst hd
    rw [conn_setConn_same, h]
  · rw [conn_setConn_other w hd]

theorem moves_modifyClient (c : Conn) {f : Client → Client} (h : ∀ cl, ClientCall cl (f cl)) :
    Moves P (modifyClient c f) :=
  Within.modify fun _ => keeps_call (h _)

theorem moves_onClient (c : Conn) {call : Client → MqttErrors × Client}
    (h : ∀ cl, ClientCall cl (call cl).2) : Moves P (onClient c call) :=
  within_onClient fun _ => keeps_call (h _)

theorem moves_io (c : Conn) : IoRules c (Preserves P) where
  env _ _ := keeps_aside (fun _ => rfl) (.of_eq rfl)
  io _ _ := keeps_aside (fun _ => rfl) (.log trivial)

theorem moves_registerTimeout (secs usecs : Nat) (h : Handler) :
    Moves P (registerTimeout secs usecs h) := by
  intro w
  refine (registerTimeout_ends secs usecs h w).mono (fun _ _ => ?_) fun _ _ => ?_
  · rintro ⟨d, env, rfl, -⟩
    exact keeps_aside (fun _ => rfl) ⟨[.registerTimeout h], rfl, by simp [Event.aside]⟩
  · rintro ⟨d, env, rfl⟩
    exact keeps_aside (fun _ => rfl) ⟨[.registerTimeout h], rfl, by simp [Event.aside]⟩

end Moves

/-! ## Sending -/

section Send

variable {P : World → Prop} [ClientRules P] {c : Conn} {w : World}

theorem quiet_modifyClient {f : Client → Client} (hmove : ∀ cl, ClientCall cl (f cl))
    (hmq : ∀ cl, (f cl).mq = cl.mq) :
    Within (Quiet c (Preserves P)) (Preserves P) (modifyClient c f) :=
  Within.modify fun _ => ⟨keeps_call (hmove _), by simp [hmq]⟩

theorem quiet_setError (e : MqttErrors) :
    Within (Quiet c (Preserves P)) (Preserves P) (setError c e) :=
  quiet_modifyClient (fun _ => .error e) fun _ => rfl

theorem moves_sendIsDue (m : QueuedMessage) :
    Within (Quiet c (Preserves P)) (Preserves P) (sendIsDue c m) := by
  unfold sendIsDue
  cases m.state with
  | unsent => exact .pure _
  | complete => exact .pure _
  | awaitingAck =>
      refine (moves_io c).quiet.mqttPalTime.bind fun now => (within_getClient c).bind fun cl => ?_
      refine .ite ?_ (.pure _)
      exact (quiet_modifyClient (fun _ => .resend) (by intro; rfl)).bind fun _ => .pure _

/-- No message is unsent once it has been sent. -/
theorem stateAfterSend_ne_unsent {m : QueuedMessage} {state : QueuedState}
    (h : stateAfterSend m = some state) : state ≠ .unsent := by
  rintro rfl
  unfold stateAfterSend at h
  split at h
  case h_4 =>
    rw [Option.some.injEq] at h
    split at h <;> cases h
  all_goals cases h

theorem sentBefore_set {entries : List QueuedMessage} {i : Nat} {m : QueuedMessage}
    (h : SentBefore entries i) (hm : m.state ≠ .unsent) : SentBefore (entries.set i m) (i + 1) := by
  intro j hj n hn hunsent
  rcases Nat.lt_succ_iff_lt_or_eq.mp hj with hj | rfl
  · rw [List.getElem?_set_ne (Nat.ne_of_gt hj)] at hn
    exact h j hj n hn hunsent
  · rw [List.getElem?_set_self' ] at hn
    rcases hold : entries[j]? with _ | old
    · rw [hold] at hn
      cases hn
    · rw [hold] at hn
      cases hn
      exact absurd hunsent hm

theorem entries_setEntries {cl : Client} (hmq : cl.mq.isSome = true) (es : List QueuedMessage) :
    (cl.setEntries es).entries = es := by
  obtain ⟨mq, hmq⟩ := Option.isSome_iff_exists.mp hmq
  simp [MqttClient.entries, MqttClient.setEntries, hmq]

/-- A message is written from `send_offset` to its end, so nothing is left over. -/
theorem moves_sendMessage {i : Nat} {m : QueuedMessage}
    (hm : (w.conn c).mqclt.entries[i]? = some m) (hbefore : SentBefore (w.conn c).mqclt.entries i) :
    Triple (Quiet c (Preserves P) w) (sendMessage c i m)
      (fun r t => Preserves P w t ∧
        (r = .next → SentBefore (t.conn c).mqclt.entries (i + 1)))
      (fun _ => Preserves P w) := by
  have hquiet : ∀ {α : Type} {x : Prog α}, Within (Quiet c (Preserves P)) (Preserves P) x →
      Triple (Quiet c (Preserves P) w) x (fun _ => Quiet c (Preserves P) w)
        (fun _ => Preserves P w) := fun hx => hx.from w
  have hdone : ∀ r : SendNext, r ≠ .next → Triple (Quiet c (Preserves P) w) (pure r : Prog SendNext)
      (fun r t => Preserves P w t ∧ (r = .next → SentBefore (t.conn c).mqclt.entries (i + 1)))
      (fun _ => Preserves P w) := fun r hr => .pure fun _ h => ⟨h.1, fun heq => absurd heq hr⟩
  unfold sendMessage
  refine (hquiet (within_getClient c)).bind fun cl => ?_
  refine (hquiet ((moves_io c).quiet.mqttPalSendall _)).bind fun sent =>
    .ite (fun _ => ?_) fun _ => ?_
  · exact (hquiet (quiet_setError _)).bind fun _ => hdone _ (by simp)
  · refine .ite (fun hleft => ?_) fun _ => ?_
    · -- `mqtt_pal_sendall` sends all or fails
      exact absurd hleft (by omega)
    · refine (hquiet (moves_io c).quiet.mqttPalTime).bind fun now => ?_
      refine (hquiet (quiet_modifyClient (fun _ => .written now) fun _ => rfl)).bind fun _ => ?_
      -- all that happened since the message was read off the queue left the queue alone
      cases hs : stateAfterSend m with
      | none =>
          exact (hquiet (quiet_setError _)).bind fun _ => hdone _ (by simp)
      | some state =>
          refine Triple.bind (Q := fun _ t => Preserves P w t ∧
            SentBefore (t.conn c).mqclt.entries (i + 1)) (.modify fun t ht => ?_) fun _ =>
              .pure fun _ ht => ⟨ht.1, fun _ => ht.2⟩
          have hentries : (t.conn c).mqclt.entries = (w.conn c).mqclt.entries := by
            rw [MqttClient.entries, ht.2]
            rfl
          have hmt : (t.conn c).mqclt.entries[i]? = some m := by rw [hentries, hm]
          have hbefore' : SentBefore (t.conn c).mqclt.entries i := by rwa [hentries]
          have hsome : (t.conn c).mqclt.mq.isSome = true := by
            rcases hnone : (t.conn c).mqclt.mq with _ | mq
            · rw [MqttClient.entries, hnone] at hmt
              cases hmt
            · rfl
          refine ⟨Exits.trans (Preserves P) ht.1 (keeps_call (.sent now hmt hs hbefore')), ?_⟩
          rw [conn_setClient_same, entries_setEntries hsome]
          exact sentBefore_set hbefore' (stateAfterSend_ne_unsent hs)

/-- A message that has not been sent is due. -/
theorem sendIsDue_unsent {m : QueuedMessage} (hm : m.state = .unsent) :
    sendIsDue c m = pure true := by
  rw [sendIsDue, hm]

/-- The loop comes to message `i` with everything before it sent, but for QoS 2
PUBLISHes that wait for another one. -/
theorem moves_mqttSendLoop (w : World) : ∀ todo i inflight,
    Triple (fun t => Preserves P w t ∧ SentBefore (t.conn c).mqclt.entries i)
      (mqttSendLoop c todo i inflight) (fun _ => Preserves P w) (fun _ => Preserves P w) := by
  intro todo
  induction todo with
  | zero => exact fun _ _ => .pure fun _ => And.left
  | succ todo ih =>
      rintro i inflight t ⟨ht, hbefore⟩
      unfold mqttSendLoop
      rw [bind_of_ok (rfl : getClient c t = .ok (t.conn c).mqclt t)]
      rcases hm : (t.conn c).mqclt.entries[i]? with _ | m
      · exact ht
      · refine Ends.bind (moves_sendIsDue (P := P) m t) (fun due u hdue hquiet => ?_)
          fun _ _ h => Exits.trans (Preserves P) ht h
        have hu : Preserves P w u := Exits.trans (Preserves P) ht hquiet.1
        have hentries : (u.conn c).mqclt.entries = (t.conn c).mqclt.entries := by
          rw [MqttClient.entries, hquiet.2]
          rfl
        split
        · -- the loop goes on behind a message that has been sent
          have hsend := (moves_sendMessage (P := P) hm hbefore) u hquiet
          refine Ends.bind hsend (fun r v _ hv => ?_) fun _ _ h => Exits.trans (Preserves P) ht h
          have hwv : Preserves P w v := Exits.trans (Preserves P) ht hv.1
          cases r with
          | next => exact ih _ _ v ⟨hwv, hv.2 rfl⟩
          | stop => exact hwv
          | ret e => exact hwv
        · -- it is not due, or it is a QoS 2 PUBLISH behind another one
          rename_i hskip
          refine ih _ _ u ⟨hu, fun j hj n hn hunsent => ?_⟩
          rw [hentries] at hn
          rcases Nat.lt_succ_iff_lt_or_eq.mp hj with hj | rfl
          · exact hbefore j hj n hn hunsent
          · rw [hm, Option.some.injEq] at hn
            subst hn
            rw [sendIsDue_unsent hunsent] at hdue
            cases hdue
            by_contra hqos
            exact hskip (by simp [hqos])

theorem moves_mqttSend (c : Conn) : Moves P (mqttSend c) := by
  refine (within_getClient c).bind fun cl => .ite (.pure _) ?_
  have hloop : Moves P (mqttSendLoop c cl.entries.length 0 false) := fun w =>
    moves_mqttSendLoop w _ 0 false w ⟨id, fun j hj => absurd hj (Nat.not_lt_zero j)⟩
  refine hloop.bind fun r => ?_
  cases r with
  | some e => exact .pure _
  | none =>
      refine (within_getClient c).bind fun _ => (moves_io c).mqttPalTime.bind fun _ => ?_
      exact .ite (moves_onClient c fun _ => .ping) (.pure _)

end Send

/-! ## Receiving -/

section Recv

variable {P : World → Prop} [ClientRules P] {c : Conn}

theorem moves_setError (c : Conn) (e : MqttErrors) : Moves P (setError c e) :=
  moves_modifyClient c fun _ => .error e

theorem moves_recvBuffer (c : Conn) (b : RecvBuffer) :
    Moves P (modifyClient c fun cl => { cl with recv_buffer := b }) :=
  moves_modifyClient c fun _ => .recvBuffer b

theorem aside_ask (w : World) (conn : Conn) (topic_name : Field 128) (application_message : Bytes)
    (publish_flags d : Nat) (env : Env) :
    Aside w ((w.ask conn topic_name application_message publish_flags).tick d env) :=
  ⟨fun _ => rfl, [.registerTimeout _, .request ..], rfl, by simp [Event.aside]⟩

theorem aside_request (w : World) (conn : Conn) (topic_name : Field 128)
    (application_message : Bytes) (publish_flags d : Nat) (env : Env) :
    Aside w (w.request conn topic_name application_message publish_flags d env) :=
  ⟨fun _ => rfl, (aside_ask w conn topic_name application_message publish_flags d env).logs⟩

theorem MsgPath.aside {upload : Bool} {t : World} (h : MsgPath upload w t) : Aside w t := by
  refine ⟨fun d => by rw [h.conn d], ?_⟩
  induction h with
  | refl => exact .of_eq rfl
  | tail _ hs ih =>
      refine ih.trans ?_
      cases hs with
      | processRc rcid => exact .log trivial
      | strftime _ => exact .log trivial
      | reboot => exact .log trivial
      | report topic_name msg d env => exact (aside_request ..).logs
      | event topic_name msg d env _ _ => exact (aside_request ..).logs

/-- Handling a message leaves the clients alone. -/
theorem moves_admlinkMsgHandle (app_msg : Bytes) :
    Moves P (admlinkMsgHandle (app_msg ++ [Ch.nul])) := by
  refine (path_admlinkMsgHandle app_msg).mono (fun w t h => ?_) fun w t h => ?_
  · exact ClientRules.aside w t (MsgPath.aside h)
  · obtain ⟨u, hu, rfl | ⟨conn, topic_name, msg, d, env, -, rfl⟩⟩ := h
    · exact ClientRules.aside w _ (MsgPath.aside hu)
    · exact Exits.trans (Preserves P) (ClientRules.aside w u (MsgPath.aside hu))
        (ClientRules.aside u _ (aside_ask ..))

/-- The callback after a PUBLISH from `w` has been handled. -/
theorem moves_publishCallback {mem : Bytes} {p : ResponsePublish} {received consumed : Nat}
    (hr : mqttUnpackResponse mem received = .ok (some (.publish p, consumed)))
    (hcall : (handlePublish (w.conn c).mqclt p).1 = true) :
    Ends (fun _ => Preserves P w) (fun _ => Preserves P w)
      (publishCallback c mem p (w.handled c (.publish p))) := by
  have hpacket : Preserves P w (w.handled c (.publish p)) :=
    ClientRules.packet w c _ mem received consumed hr
  unfold publishCallback
  refine Ends.bind (orFault_ends _ _) ?_ fun _ _ h => h ▸ hpacket
  rintro _ _ _ rfl
  refine Ends.bind (orFault_ends _ _) ?_ fun _ _ h => h ▸ hpacket
  rintro app_msg _ _ rfl
  have hdeliver : Preserves P w ((w.handled c (.publish p)).log (.deliver c app_msg)) :=
    ClientRules.deliver w c p mem received consumed app_msg hr hcall
  exact (moves_admlinkMsgHandle app_msg).from w _ hdeliver

theorem moves_handleResponse (c : Conn) {mem : Bytes} {r : Response} {received consumed : Nat}
    (hr : mqttUnpackResponse mem received = .ok (some (r, consumed))) :
    Moves P (handleResponse (publishCallback c) c mem r) := by
  refine Within.get_bind fun w => ?_
  have hpacket : Preserves P w (w.handled c r) := ClientRules.packet w c r mem received consumed hr
  rcases r with _ | p
  case publish =>
    rcases hp : handlePublish (w.conn c).mqclt p with ⟨call, ret, cl⟩
    have hhandled : w.handled c (.publish p) =
        (w.log (.packet c (.publish p) none)).setClient c cl := by
      rw [World.handled, afterPacket, hp]
      rfl
    have hrest : Ends (fun _ => Preserves P w) (fun _ => Preserves P w) ((if call = true then (do
        publishCallback c mem p
        return ret) else return ret : Prog MqttErrors) (w.handled c (.publish p))) := by
      split
      · have hcb := moves_publishCallback (P := P) (c := c) (w := w) hr (by rw [hp]; assumption)
        exact Ends.bind hcb (fun _ _ _ h => h) fun _ _ h => h
      · exact hpacket
    rw [hhandled] at hrest
    simp only [hp]
    exact hrest
  all_goals exact hpacket

theorem moves_mqttRecvStep (c : Conn) : Moves P (mqttRecvStep (publishCallback c) c) := by
  unfold mqttRecvStep
  refine (within_getClient c).bind fun cl => ((moves_io c).mqttPalRecvall _).bind fun r => ?_
  rcases r with _ | new
  · exact (moves_setError c _).bind fun _ => .pure _
  · refine (moves_recvBuffer c _).bind fun _ => ?_
    rcases hr : mqttUnpackResponse (cl.recv_buffer.store new).mem
      (cl.recv_buffer.store new).received.length with (e | f) | _ | ⟨response, consumed⟩
    · exact (moves_setError c e).bind fun _ => .pure _
    · exact .throw _
    · exact .ite ((moves_setError c _).bind fun _ => .pure _) (.pure _)
    · refine (moves_handleResponse c hr).bind fun ret => .ite (.throw _) ?_
      exact (moves_recvBuffer c _).bind fun _ => .pure _

theorem moves_mqttRecvLoop (c : Conn) :
    ∀ fuel, Moves P (mqttRecvLoop (publishCallback c) c fuel) := by
  intro fuel
  induction fuel with
  | zero => exact .throw _
  | succ fuel ih =>
      refine (moves_mqttRecvStep c).bind fun r => ?_
      rcases r with _ | ret
      · exact ih
      · exact .pure _

theorem moves_agSync (c : Conn) : Moves P (agSync c) := by
  have hrest : Moves P (do
      let err ← mqttRecv (publishCallback c) c
      if err ≠ .ok then return err
      else mqttSend c) :=
    (Within.get.bind fun _ => moves_mqttRecvLoop c _).bind fun _ =>
      .ite (.pure _) (moves_mqttSend c)
  refine (within_getClient c).bind fun cl => ?_
  exact .ite ((moves_setError c _).bind fun _ => hrest) hrest

end Recv

/-! ## The handlers -/

section Handlers

variable {P : World → Prop} [ClientRules P] {c : Conn}

theorem moves_closeConnLoop (c : Conn) : ∀ fuel trys, Moves P (closeConnLoop c fuel trys) := by
  intro fuel
  induction fuel with
  | zero => exact fun _ => .throw _
  | succ fuel ih =>
      intro trys
      have hround : Moves P (closeConnRound c trys) := by
        refine (moves_onClient c fun _ => .disconnect).bind fun _ => .ite ?_ (.pure _)
        exact (moves_agSync c).bind fun _ => .ite (.pure _) (.pure _)
      exact hround.bind fun trys => .ite (ih trys) (.pure _)

omit [ClientRules P] in
theorem moves_getConn (c : Conn) : Moves P (getConn c) := Within.get.bind fun _ => .pure _

theorem moves_closeConn (c : Conn) : Moves P (closeConn c) := by
  have hclosed : Moves P (modifyConn c fun p => { p with connfd := 0, status := 0 }) :=
    moves_modifyConn c (by intros; rfl)
  refine (moves_getConn c).bind fun p => ?_
  rcases p.biofd with _ | b
  · exact hclosed
  · refine (moves_closeConnLoop c 3 0).bind fun _ => (moves_emit (by trivial)).bind fun _ => ?_
    exact (moves_modifyConn c (by intros; rfl)).bind fun _ => hclosed

theorem moves_shutDown : Moves P shutDown := by
  have hctrl : Moves P admlinkCtrlIfaceDeinit := by
    refine Within.get.bind fun w => ?_
    rcases w.ctrl_sock with _ | sock
    · exact .pure _
    · exact (moves_modify (by intros; rfl) (by intros; rfl)).bind fun _ => moves_emit (by trivial)
  have hdestroy : Moves P eloopDestroy := (moves_emit (by trivial)).bind fun _ =>
    moves_modify (by intros; rfl) (by intros; rfl)
  exact hctrl.bind fun _ => hdestroy.bind fun _ => (moves_closeConn .mqrecv).bind fun _ =>
    moves_closeConn .mqupld

theorem moves_exitLink {α : Type} (exitval : Nat) : Moves P (exitLink exitval : Prog α) :=
  moves_shutDown.bind fun _ => .throw _

theorem moves_newBio (c : Conn) (x : CtxId) : Moves P (newBio c x) :=
  Within.get.bind fun _ => (moves_emit (by trivial)).bind fun _ =>
    (moves_modify (by intros; rfl) (by intros; rfl)).bind fun _ =>
      (moves_modifyConn c (by intros; rfl)).bind fun _ => .pure _

theorem moves_openNbSocket (c : Conn) : Moves P (openNbSocket c) := by
  refine Within.get.bind fun w => (moves_emit (by trivial)).bind fun _ => ?_
  refine (moves_modify (by intros; rfl) (by intros; rfl)).bind fun _ => ?_
  refine (moves_modifyConn c (by intros; rfl)).bind fun _ => ?_
  rcases w.env.opens c with _ | _ | _ | connfd
  · exact moves_exitLink 1
  · refine (moves_newBio c _).bind fun _ => (moves_emit (by trivial)).bind fun _ => ?_
    exact (moves_emit (by trivial)).bind fun _ =>
      (moves_modifyConn c (by intros; rfl)).bind fun _ => .pure _
  · exact (moves_newBio c _).bind fun _ => moves_exitLink 1
  · exact (moves_newBio c _).bind fun _ => .pure _

/-- `mqtt_init` gets the client as it is. -/
theorem moves_initAndConnect (c : Conn) : Moves P (initAndConnect c) := by
  intro w
  have hinit : Preserves P w (w.inited c (w.conn c).biofd) := ClientRules.init w c _
  have hrest : Moves P (do
      let _ ← onClient c fun cl => mqttConnect cl (w.conn c).cltid.str connectCleanSession 60
      return (← getClient c).error) :=
    (moves_onClient c fun _ => .connect _).bind fun _ => (within_getClient c).bind fun _ => .pure _
  exact hrest.from w _ hinit

theorem moves_subscribeTopicrecv : Moves P subscribeTopicrecv := by
  intro w
  unfold subscribeTopicrecv
  rw [bind_of_ok (rfl : getConn .mqrecv w = .ok (w.conn .mqrecv) w)]
  rcases hr : mqttSubscribe (w.conn .mqrecv).mqclt (w.conn .mqrecv).topicrecv.str 0 with f | r
  · exact refl_of (Preserves P) w
  · exact keeps_call (.subscribe hr)

theorem moves_connectConn (c : Conn) {subscribe : Prog Unit} (h : Moves P subscribe) :
    Moves P (connectConn c subscribe) := by
  refine (moves_openNbSocket c).bind fun connfd => (moves_getConn c).bind fun p => ?_
  refine .ite (.pure _) ((moves_modifyConn c (by intros; rfl)).bind fun _ => ?_)
  refine (moves_initAndConnect c).bind fun _ => .ite (.pure _) ?_
  refine (moves_agSync c).bind fun _ => .ite (.pure _) ?_
  exact h.bind fun _ => (moves_modifyConn c (by intros; rfl)).bind fun _ =>
    (moves_registerTimeout _ _ _).bind fun _ => .pure _

theorem moves_localtime : Moves P localtime := by
  refine Within.get_bind fun w => ?_
  rcases w.env.tms with _ | ⟨tm, tms⟩
  · exact refl_of (Preserves P) w
  · exact keeps_aside (fun _ => rfl) (.of_eq rfl)

theorem moves_chkAgstatm : Moves P chkAgstatm := by
  have hrecv : Moves P checkMqrecv :=
    (moves_getConn _).bind fun _ => .ite (moves_connectConn _ moves_subscribeTopicrecv) (.pure _)
  have hupld : Moves P checkMqupld :=
    (moves_getConn _).bind fun _ => .ite (moves_connectConn _ (.pure _)) (.pure _)
  have hstatus : Moves P checkAgstatus := by
    refine Within.get.bind fun w => .ite (moves_exitLink 1) ?_
    exact moves_localtime.bind fun _ =>
      moves_modify (fun _ d => by cases d <;> rfl) (by intros; rfl)
  refine Within.bind (hrecv.bind fun _ => .ite hupld (.pure _)) fun _ => ?_
  exact .ite (hstatus.bind fun _ => moves_registerTimeout _ _ _) (moves_registerTimeout _ _ _)

theorem moves_eloopSetPublish (p : SetPublish) : Moves P (eloopSetPublish p) := by
  intro w
  have hlogged : Preserves P w (w.publishing p) := keeps_aside (fun _ => rfl) (.log trivial)
  rw [eloopSetPublish]
  rcases hr : w.callPublish p with f | r
  · rw [bind_of_error (mqttPublishOn_error hr)]
    exact hlogged
  · rw [bind_of_ok (mqttPublishOn_ok hr)]
    have hqueued : Preserves P w ((w.publishing p).setClient p.conn r.2) :=
      trans_of (Preserves P) hlogged (keeps_call (.publish hr))
    have hclose : Moves P (if r.2.error ≠ .ok then closeConn p.conn else pure ()) :=
      .ite (moves_closeConn p.conn) (.pure _)
    exact hclose.from w _ hqueued

theorem moves_handler (h : Handler) : Moves P h.run := by
  cases h with
  | chkAgstatm => exact moves_chkAgstatm
  | agHandleClttraffic p =>
      refine (moves_agSync p).bind fun _ => ?_
      exact .ite (moves_closeConn p) (moves_registerTimeout _ _ _)
  | eloopSetPublish p => exact moves_eloopSetPublish p
  | eloopSetExit => exact moves_exitLink 0

end Handlers

/-! ## The control interface and the loop -/

section Loop

variable {P : World → Prop} [ClientRules P]

theorem moves_sendtest : Moves P admlinkCmdSendtest := by
  have htext : Moves P sendtestText := by
    refine fun w => (sendtestText_ends w).mono ?_ ?_
    · rintro _ _ rfl
      exact keeps_aside (fun _ => rfl) (.log trivial)
    · rintro _ _ (rfl | rfl)
      · exact refl_of (Preserves P) _
      · exact keeps_aside (fun _ => rfl) (.log trivial)
  refine htext.bind fun text => (moves_getConn _).bind fun p => Within.bind ?_ fun _ => .pure _
  refine fun w => (setMqttPublishNexsync_ends .mqupld p.topicsend text publishQos1 w).mono ?_ ?_
  · rintro _ _ ⟨d, env, rfl⟩
    exact ClientRules.aside w _ (aside_request ..)
  · rintro _ _ ⟨d, env, rfl⟩
    exact ClientRules.aside w _ (aside_ask ..)

theorem moves_admlinkCmdHandle (buf : Bytes) : Moves P (admlinkCmdHandle buf) := by
  refine (moves_emit (by trivial)).bind fun _ => moves_localtime.bind fun tm => ?_
  refine (moves_modify (fun _ d => by cases d <;> rfl) (by intros; rfl)).bind fun _ => ?_
  rcases findCmdHdl buf with _ | hdl
  · exact .pure _
  · have hrun : Moves P hdl.run := by
      cases hdl with
      | stop => exact (moves_registerTimeout _ _ _).bind fun _ => .pure _
      | sendtest => exact moves_sendtest
    exact hrun.bind fun _ => .ite (.pure _) (.pure _)

theorem moves_dispatch (d : Dispatch) : Moves P (dispatch d) := by
  have hwith : ∀ (env : Env) {x : Prog Unit}, Moves P x → Moves P (withEnv env x) := fun env x h =>
    (moves_modify (by intros; rfl) (by intros; rfl)).bind fun _ => h
  cases d with
  | timeout env =>
      refine hwith env (Within.get.bind fun w => .ite (.pure _) (Within.bind ?_ fun now => ?_))
      · refine Within.get_bind fun w => ?_
        rcases w.env.clocks with _ | ⟨n, ns⟩
        · exact refl_of (Preserves P) w
        · exact keeps_aside (fun _ => rfl) (.of_eq rfl)
      · refine Within.get.bind fun w => ?_
        rcases eloopPopDue now w.eloop.timeout with _ | ⟨t, rest⟩
        · exact .pure _
        · exact (moves_modify (by intros; rfl) (by intros; rfl)).bind fun _ =>
            moves_handler t.handler
  | readers env datagram =>
      refine hwith env (Within.get.bind fun w => .ite (.pure _) ?_)
      rcases datagram with _ | dgram
      · exact .pure _
      · refine Within.get.bind fun w => ?_
        exact .ite ((moves_admlinkCmdHandle _).bind fun _ => moves_emit (by trivial))
          (moves_emit (by trivial))
  | selectFailed env => exact hwith env (moves_shutDown.bind fun _ => .throw _)

end Loop

/-! ## Invariants -/

/-- What holds at the start and survives everything a run does to the clients
holds in every world of every run. -/
theorem inRun_of_rules {P : World → Prop} [ClientRules P] (hstart : ∀ w, IsStart w → P w)
    {w : World} (h : InRun Always w) : P w := by
  refine Seen.invariant (I := P) hstart ?_ (fun _ => id) h
  rintro d s ⟨hs, -⟩
  exact (moves_dispatch d s).mono (fun _ t ht => ht hs) fun _ t ht => ht hs

/-- The clients alone: a predicate that survives every move. -/
theorem clientRules_of_moves {P : Client → Prop}
    (hmove : ∀ cl cl', P cl → ClientMove cl cl' → P cl') :
    ClientRules fun w => ∀ c, P (w.conn c).mqclt := by
  have hset : ∀ (w : World) (c : Conn) (cl : Client), ClientMove (w.conn c).mqclt cl →
      (∀ c, P (w.conn c).mqclt) → ∀ d, P ((w.setClient c cl).conn d).mqclt := by
    intro w c cl hcl hw d
    by_cases hd : d = c
    · subst hd
      rw [conn_setClient_same]
      exact hmove _ _ (hw d) hcl
    · rw [conn_setClient_other w hd]
      exact hw d
  constructor
  case aside => exact fun w t ht hw c => ht.client c ▸ hw c
  case call => exact fun w c cl hcl hw => hset w c cl (.call hcl) hw
  case packet => exact fun w c r mem received consumed hr hw => hset _ c _ (.packet hr) hw
  case deliver => exact fun w c p mem received consumed msg hr _ hw => hset _ c _ (.packet hr) hw
  case init => exact fun w c sockfd hw => hset _ c _ (.init sockfd) hw

/-- What holds of zeroed memory and survives every move holds of both clients
in every world of every run. -/
theorem client_inRun {P : Client → Prop} (hzeroed : ∀ leftovers, P (.zeroed leftovers))
    (hmove : ∀ cl cl', P cl → ClientMove cl cl' → P cl') {w : World} (h : InRun Always w)
    (c : Conn) : P (w.conn c).mqclt := by
  have hrules := clientRules_of_moves hmove
  refine inRun_of_rules (P := fun w => ∀ c, P (w.conn c).mqclt) ?_ h c
  rintro w ⟨arg, agent, sock, clock, env, hcfg, rfl⟩ c
  obtain ⟨leftovers, hclient⟩ := (hcfg.zeroed.2.2 c).2.2
  rw [conn, started, hclient]
  exact hzeroed leftovers

end Admlink
