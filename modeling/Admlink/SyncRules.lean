import Admlink.Daemon

/-!
# Rules for `mqtt_sync`

A relation between the world before and the world after holds across the parts
of `mqtt_sync` as soon as it holds across what they do to the world: use up
answers, touch the BIO, change the client but for its queue, put a message that
is sent in its next state, take a packet, hand on a message. The loops are gone
through once, here.
-/

namespace Admlink

open Program

/-- The client once a packet has been handled. -/
def afterPacket {fd : Type} (cl : MqttClient fd) : Response → MqttClient fd
  | .publish p => (handlePublish cl p).2.2
  | r => (handleAck cl r).2

/-- The queued message that a packet acknowledges: its type and packet id. -/
def Response.acks : Response → Option (ControlType × Option Nat)
  | .connack _ => some (.connect, none)
  | .publish _ => none
  | .puback pid | .pubrec pid => some (.publish, some pid)
  | .pubrel pid => some (.pubrec, some pid)
  | .pubcomp pid => some (.pubrel, some pid)
  | .suback pid _ => some (.subscribe, some pid)
  | .unsuback pid => some (.unsubscribe, some pid)
  | .pingresp => some (.pingreq, none)

section Packet

variable {fd : Type} {cl : MqttClient fd}

/-- An acknowledgement is packed, or fails to be. -/
def AckPacked (cl cl' : MqttClient fd) : Prop :=
  ∃ control_type packet_id, control_type ∈ [ControlType.puback, .pubrec, .pubrel, .pubcomp] ∧
    cl'.mq = (mqttPubxxx control_type cl packet_id).2.mq

/-- What handling a packet does to the queue. A PUBLISH may be acknowledged;
any other packet completes the message it acknowledges, and a step of the QoS 2
exchange is answered by the next one. -/
inductive PacketDone (cl : MqttClient fd) (r : Response) (cl' : MqttClient fd) : Prop
  | same : cl'.mq = cl.mq → PacketDone cl r cl'
  | publish : r.acks = none → AckPacked cl cl' → PacketDone cl r cl'
  | release {control_type : ControlType} {packet_id : Option Nat} {m : QueuedMessage}
      {cl₁ : MqttClient fd} : r.acks = some (control_type, packet_id) →
      release cl control_type packet_id = some (m, cl₁) →
      (cl'.mq = cl₁.mq ∨
        (control_type = .publish ∨ control_type = .pubrec) ∧ AckPacked cl₁ cl') →
      PacketDone cl r cl'

/-- What a packet completes is the first entry it acknowledges. -/
theorem release_find {cl' : MqttClient fd} {control_type : ControlType} {packet_id : Option Nat}
    {m : QueuedMessage} (h : release cl control_type packet_id = some (m, cl')) :
    cl.entries.find? (mqttMqMatches control_type packet_id) = some m ∧
      cl' = cl.setEntries (cl.entries.set
        (cl.entries.findIdx (mqttMqMatches control_type packet_id))
        { m with state := .complete }) := by
  unfold release at h
  split at h
  · cases h
  · rename_i n hfind
    simp only [Option.some.injEq, Prod.mk.injEq] at h
    obtain ⟨rfl, rfl⟩ := h
    exact ⟨hfind, rfl⟩

theorem release_eq {cl' : MqttClient fd} {control_type : ControlType} {packet_id : Option Nat}
    {m : QueuedMessage} (h : release cl control_type packet_id = some (m, cl')) :
    ∃ i, cl.entries[i]? = some m ∧ mqttMqMatches control_type packet_id m = true ∧
      cl' = cl.setEntries (cl.entries.set i { m with state := .complete }) := by
  obtain ⟨hfind, hcl⟩ := release_find h
  refine ⟨_, ?_, List.find?_some hfind, hcl⟩
  rw [← List.find?_eq_getElem?_findIdx]
  exact hfind

theorem stage_mq (r : MqttErrors × MqttClient fd) : (stage r).2.mq = r.2.mq := by
  unfold stage recvFails
  split <;> rfl

theorem packetDone_releaseThen {r : Response} {control_type : ControlType}
    {packet_id : Option Nat} {next : MqttClient fd → MqttErrors × MqttClient fd}
    (hacks : r.acks = some (control_type, packet_id))
    (hnext : ∀ cl₁ : MqttClient fd, (next cl₁).2.mq = cl₁.mq ∨
      (control_type = .publish ∨ control_type = .pubrec) ∧ AckPacked cl₁ (next cl₁).2) :
    PacketDone cl r (releaseThen cl control_type packet_id next).2 := by
  refine releaseThen_ind (P := fun res => PacketDone cl r res.2) (.same rfl) ?_
  intro m cl₁ h
  exact .release hacks h (hnext cl₁)

theorem packetDone (cl : MqttClient fd) (r : Response) :
    PacketDone cl r (afterPacket cl r) := by
  cases r with
  | connack code =>
      refine packetDone_releaseThen rfl fun cl₁ => .inl ?_
      split
      · rfl
      · split <;> rfl
  | publish p =>
      simp only [afterPacket, handlePublish]
      split
      · exact .publish rfl ⟨.puback, p.packet_id, by simp, stage_mq _⟩
      · split
        · split
          · exact .same rfl
          · exact .publish rfl ⟨.pubrec, p.packet_id, by simp, stage_mq _⟩
        · exact .same rfl
  | pubrec pid =>
      simp only [afterPacket, handleAck]
      split
      · exact .same rfl
      · exact packetDone_releaseThen rfl fun cl₁ =>
          .inr ⟨.inl rfl, .pubrel, pid, by simp, stage_mq _⟩
  | pubrel pid =>
      exact packetDone_releaseThen rfl fun cl₁ =>
        .inr ⟨.inr rfl, .pubcomp, pid, by simp, stage_mq _⟩
  | suback pid code =>
      refine packetDone_releaseThen rfl fun cl₁ => .inl ?_
      split <;> rfl
  | puback pid | pubcomp pid | unsuback pid | pingresp =>
      exact packetDone_releaseThen rfl fun cl₁ => .inl rfl

end Packet

theorem ackedSeqno_of_acks {cl : Client} {r : Response} {packet_id : Option Nat}
    (h : r.acks = some (.publish, packet_id)) :
    ackedSeqno cl r = (cl.entries.find? (mqttMqMatches .publish packet_id)).bind (·.seqno) := by
  cases r with
  | puback pid | pubrec pid =>
      cases h
      rfl
  | connack | publish | pubrel | pubcomp | suback | unsuback | pingresp => cases h

/-! ## The rules -/

structure IoRules (c : Conn) (R : World → World → Prop) : Prop where
  env : ∀ (w : World) (env : Env), R w { w with env }
  io : ∀ (w : World) (written : Bytes),
    R w (w.log (.bioIo c (w.conn c).mqclt.socketfd (w.conn c).biofd written))

/-- What sending does. -/
structure SendRules (c : Conn) (R : World → World → Prop) : Prop extends IoRules c R where
  client : ∀ (w : World) (cl : Client), cl.mq = (w.conn c).mqclt.mq →
    cl.socketfd = (w.conn c).mqclt.socketfd → cl.recv_buffer = (w.conn c).mqclt.recv_buffer →
    R w (w.setClient c cl)
  sent : ∀ (w : World) (i : Nat) (m : QueuedMessage) (state : QueuedState) (now : Nat),
    (w.conn c).mqclt.entries[i]? = some m → stateAfterSend m = some state →
    R w (w.setClient c ((w.conn c).mqclt.setEntries
      ((w.conn c).mqclt.entries.set i { m with start := markDup m, state, time_sent := now })))

/-- What receiving does; `S` relates to where it stops. -/
structure RecvRules (c : Conn) (R S : World → World → Prop) : Prop extends IoRules c R where
  client : ∀ (w : World) (cl : Client), cl.mq = (w.conn c).mqclt.mq →
    cl.socketfd = (w.conn c).mqclt.socketfd → R w (w.setClient c cl)
  packet : ∀ (w : World) (r : Response),
    R w ((w.log (.packet c r (ackedSeqno (w.conn c).mqclt r))).setClient c
      (afterPacket (w.conn c).mqclt r))
  deliver : ∀ (msg : Bytes) (w t : World),
    admlinkMsgHandle (msg ++ [Ch.nul]) (w.log (.deliver c msg)) = .ok () t → R w t
  stop : ∀ (msg : Bytes) (w t : World) (e : Stop),
    admlinkMsgHandle (msg ++ [Ch.nul]) (w.log (.deliver c msg)) = .error e t → S w t

theorem within_getClient {R S : World → World → Prop} [Exits R S] (c : Conn) :
    Within R S (getClient c) := Within.get.bind fun _ => .pure _

theorem within_getClient_bind {α : Type} {R S : World → World → Prop} {c : Conn}
    {f : Client → Prog α}
    (h : ∀ w, Ends (fun _ => R w) (fun _ => S w) (f (w.conn c).mqclt w)) :
    Within R S (getClient c >>= f) := h

/-! ## Answers and bytes -/

section Io

variable {c : Conn} {R S : World → World → Prop} [Exits R S]

theorem IoRules.mqttPalTime (h : IoRules c R) : Within R S mqttPalTime := by
  refine Within.get_bind fun w => ?_
  cases w.env.times with
  | nil => exact Exits.stop (R := R) w
  | cons => exact h.env w _

theorem IoRules.bioReadAnswer (h : IoRules c R) : Within R S bioReadAnswer := by
  refine Within.get_bind fun w => ?_
  cases w.env.reads with
  | nil => exact Exits.stop (R := R) w
  | cons => exact h.env w _

theorem IoRules.bioWriteAnswer (h : IoRules c R) : Within R S bioWriteAnswer := by
  refine Within.get_bind fun w => ?_
  cases w.env.writes with
  | nil => exact Exits.stop (R := R) w
  | cons => exact h.env w _

theorem IoRules.bioAccess (h : IoRules c R) (written : Bytes) :
    Within R S (bioAccess c written) := by
  refine Within.get_bind fun w => ?_
  have hio := h.io w written
  rw [bind_apply]
  simp only [emit, modify_apply]
  cases hfd : (w.conn c).mqclt.socketfd with
  | none =>
      rw [hfd] at hio
      exact Exits.after hio (Exits.stop (R := R) _)
  | some b =>
      rw [hfd] at hio
      by_cases hb : w.freed b = true
      · simp only [hb, ↓reduceIte]
        exact Exits.after hio (Exits.stop (R := R) _)
      · simp only [hb]
        exact hio

theorem IoRules.mqttPalRecvallLoop (h : IoRules c R) : ∀ fuel bufsz acc,
    Within R S (mqttPalRecvallLoop c fuel bufsz acc)
  | 0, _, _ => .throw _
  | fuel + 1, bufsz, acc => by
      unfold Admlink.mqttPalRecvallLoop
      refine (h.bioAccess _).bind fun _ => h.bioReadAnswer.bind fun answer => ?_
      cases answer with
      | data bs => exact .ite (.throw _) (.ite (.pure _) (h.mqttPalRecvallLoop fuel _ _))
      | wantRead => exact .pure _
      | wantOther => exact h.mqttPalRecvallLoop fuel bufsz acc
      | failed => exact .pure _

theorem IoRules.mqttPalRecvall (h : IoRules c R) (bufsz : Nat) :
    Within R S (mqttPalRecvall c bufsz) :=
  Within.get.bind fun _ => h.mqttPalRecvallLoop _ _ _

theorem IoRules.mqttPalSendallLoop (h : IoRules c R) : ∀ fuel buf,
    Within R S (mqttPalSendallLoop c fuel buf)
  | 0, _ => .throw _
  | fuel + 1, buf => by
      unfold Admlink.mqttPalSendallLoop
      refine .ite (.pure _) (Within.get.bind fun _ => ?_)
      refine (h.bioAccess _).bind fun _ => h.bioWriteAnswer.bind fun answer => ?_
      cases answer with
      | sent n => exact .ite (.throw _) (h.mqttPalSendallLoop fuel _)
      | retry => exact h.mqttPalSendallLoop fuel buf
      | failed => exact .pure _

theorem IoRules.mqttPalSendall (h : IoRules c R) (buf : Bytes) :
    Within R S (mqttPalSendall c buf) :=
  Within.get.bind fun _ => h.mqttPalSendallLoop _ _

end Io

/-! ## Receiving -/

section Recv

variable {c : Conn} {R S : World → World → Prop}

theorem RecvRules.modifyClient (h : RecvRules c R S) {f : Client → Client}
    (hmq : ∀ cl, (f cl).mq = cl.mq) (hfd : ∀ cl, (f cl).socketfd = cl.socketfd) :
    Within R S (modifyClient c f) :=
  Within.modify fun w => h.client w _ (hmq _) (hfd _)

theorem RecvRules.setError (h : RecvRules c R S) (e : MqttErrors) : Within R S (setError c e) :=
  h.modifyClient (fun _ => rfl) fun _ => rfl

variable [Exits R S]

theorem RecvRules.publishCallback (h : RecvRules c R S) (mem : Bytes) (p : ResponsePublish) :
    Within R S (publishCallback c mem p) := by
  unfold Admlink.publishCallback
  cases copyOut mem p.topic_name p.topic_name_size with
  | error f => exact Within.throw _
  | ok _ =>
      cases copyOut mem p.application_message p.application_message_size with
      | error f => exact Within.throw _
      | ok msg =>
          intro w
          change Ends _ _ (admlinkMsgHandle (msg ++ [Ch.nul]) (w.log (.deliver c msg)))
          cases hr : admlinkMsgHandle (msg ++ [Ch.nul]) (w.log (.deliver c msg)) with
          | ok _ t => exact h.deliver msg w t hr
          | error e t => exact h.stop msg w t e hr

theorem RecvRules.handleResponse (h : RecvRules c R S) (mem : Bytes) (r : Response) :
    Within R S (handleResponse (Admlink.publishCallback c) c mem r) := by
  refine Within.get_bind fun w => ?_
  have hstep := h.packet w r
  cases r with
  | publish p =>
      rcases hp : handlePublish (w.conn c).mqclt p with ⟨call, ret, cl'⟩
      simp only [afterPacket, hp] at hstep
      have hrest : Within R S (if call = true then (do
          Admlink.publishCallback c mem p
          return ret) else return ret : Prog MqttErrors) :=
        .ite ((h.publishCallback mem p).bind fun _ => .pure _) (.pure _)
      simp only [hp]
      exact hrest.from w _ hstep
  | _ => exact hstep

theorem RecvRules.mqttRecvStep (h : RecvRules c R S) :
    Within R S (mqttRecvStep (Admlink.publishCallback c) c) := by
  unfold Admlink.mqttRecvStep
  refine (within_getClient c).bind fun cl => (h.mqttPalRecvall _).bind fun r => ?_
  cases r with
  | none => exact (h.setError _).bind fun _ => .pure _
  | some new =>
      dsimp only
      have hbuf : ∀ buf : RecvBuffer, Within R S
          (Admlink.modifyClient c fun cl => { cl with recv_buffer := buf }) := fun buf =>
        h.modifyClient (fun _ => rfl) fun _ => rfl
      refine (hbuf _).bind fun _ => ?_
      cases mqttUnpackResponse (cl.recv_buffer.store new).mem
          (cl.recv_buffer.store new).received.length with
      | error e =>
          cases e with
          | fault f => exact .throw _
          | mqtt e => exact (h.setError e).bind fun _ => .pure _
      | ok r =>
          cases r with
          | none =>
              refine .ite ?_ (.pure _)
              exact (h.setError _).bind fun _ => .pure _
          | some rc =>
              refine (h.handleResponse _ rc.1).bind fun ret => .ite (.throw _) ?_
              exact (hbuf _).bind fun _ => .pure _

theorem RecvRules.mqttRecvLoop (h : RecvRules c R S) : ∀ fuel,
    Within R S (mqttRecvLoop (Admlink.publishCallback c) c fuel)
  | 0 => .throw _
  | fuel + 1 => by
      refine h.mqttRecvStep.bind fun r => ?_
      cases r with
      | some ret => exact .pure _
      | none => exact h.mqttRecvLoop fuel

theorem RecvRules.mqttRecv (h : RecvRules c R S) :
    Within R S (mqttRecv (Admlink.publishCallback c) c) :=
  Within.get.bind fun _ => h.mqttRecvLoop _

end Recv

/-! ## Sending -/

/-- `R`, while the send queue of `c` stays as it is. -/
def Quiet (c : Conn) (R : World → World → Prop) (w t : World) : Prop :=
  R w t ∧ (t.conn c).mqclt.mq = (w.conn c).mqclt.mq

section Send

variable {c : Conn} {R S : World → World → Prop}

theorem IoRules.quiet (h : IoRules c R) : IoRules c (Quiet c R) where
  env w env := ⟨h.env w env, rfl⟩
  io w written := ⟨h.io w written, rfl⟩

theorem SendRules.modifyClient (h : SendRules c R) {f : Client → Client}
    (hmq : ∀ cl, (f cl).mq = cl.mq) (hfd : ∀ cl, (f cl).socketfd = cl.socketfd)
    (hbuf : ∀ cl, (f cl).recv_buffer = cl.recv_buffer) :
    Within (Quiet c R) S (modifyClient c f) :=
  Within.modify fun w => ⟨h.client w _ (hmq _) (hfd _) (hbuf _), by simp [hmq]⟩

theorem SendRules.setError (h : SendRules c R) (e : MqttErrors) :
    Within (Quiet c R) S (setError c e) :=
  h.modifyClient (fun _ => rfl) (fun _ => rfl) fun _ => rfl

theorem within_onClient {call : Client → MqttErrors × Client}
    (h : ∀ w, R w (w.setClient c (call (w.conn c).mqclt).2)) : Within R S (onClient c call) :=
  h

variable [Exits R S]

instance : Exits (Quiet c R) S where
  refl w := ⟨Exits.refl S w, rfl⟩
  trans h h' := ⟨Exits.trans S h.1 h'.1, h'.2.trans h.2⟩
  stop w := Exits.stop (R := R) w
  after h h' := Exits.after h.1 h'

theorem SendRules.sendIsDue (h : SendRules c R) (m : QueuedMessage) :
    Within (Quiet c R) S (sendIsDue c m) := by
  unfold Admlink.sendIsDue
  cases m.state with
  | unsent => exact .pure _
  | complete => exact .pure _
  | awaitingAck =>
      refine h.quiet.mqttPalTime.bind fun now => (within_getClient c).bind fun cl => ?_
      refine .ite ?_ (.pure _)
      exact (h.modifyClient (by intro; rfl) (by intro; rfl) (by intro; rfl)).bind fun _ => .pure _

/-- Until message `i` gets its new state the queue is the one the loop read. -/
theorem SendRules.sendMessage (h : SendRules c R) {i : Nat} {m : QueuedMessage} {w : World}
    (hm : (w.conn c).mqclt.entries[i]? = some m) :
    Triple (Quiet c R w) (sendMessage c i m) (fun _ => R w) (fun _ => S w) := by
  have hquiet : ∀ {α : Type} {x : Prog α}, Within (Quiet c R) S x →
      Triple (Quiet c R w) x (fun _ => Quiet c R w) (fun _ => S w) := fun hx => hx.from w
  have hdone : ∀ r : SendNext, Triple (Quiet c R w) (pure r : Prog SendNext)
      (fun _ => R w) (fun _ => S w) := fun r => .pure fun _ => And.left
  unfold Admlink.sendMessage
  refine (hquiet (within_getClient c)).bind fun cl => ?_
  refine (hquiet (h.quiet.mqttPalSendall _)).bind fun sent => .ite (fun _ => ?_) fun _ => ?_
  · exact (hquiet (h.setError _)).bind fun _ => hdone _
  · refine .ite (fun _ => ?_) fun _ => ?_
    · exact (hquiet (h.modifyClient (by intro; rfl) (by intro; rfl) (by intro; rfl))).bind
        fun _ => hdone _
    · refine (hquiet h.quiet.mqttPalTime).bind fun now => ?_
      refine (hquiet (h.modifyClient (by intro; rfl) (by intro; rfl) (by intro; rfl))).bind
        fun _ => ?_
      cases hs : stateAfterSend m with
      | none => exact (hquiet (h.setError _)).bind fun _ => hdone _
      | some state =>
          refine Triple.bind (Q := fun _ => R w) (.modify fun t ht => ?_) fun _ => .pure fun _ => id
          have hmt : (t.conn c).mqclt.entries[i]? = some m := by
            rw [MqttClient.entries, ht.2]
            exact hm
          exact Exits.trans S ht.1 (h.sent t i m state now hmt hs)

theorem SendRules.mqttSendLoop (h : SendRules c R) : ∀ todo i inflight,
    Within R S (mqttSendLoop c todo i inflight)
  | 0, _, _ => .pure _
  | todo + 1, i, inflight => by
      unfold Admlink.mqttSendLoop
      refine within_getClient_bind fun w => ?_
      have hnext : ∀ inflight, Triple (R w) (Admlink.mqttSendLoop c todo (i + 1) inflight)
          (fun _ => R w) (fun _ => S w) :=
        fun inflight => (h.mqttSendLoop todo (i + 1) inflight).from w
      cases hm : (w.conn c).mqclt.entries[i]? with
      | none => exact Exits.refl S w
      | some m =>
          refine Triple.bind (P := Quiet c R w) (Q := fun _ => Quiet c R w)
            ((h.sendIsDue m).from w) (fun due => ?_) w (Exits.refl S w)
          refine .ite (fun _ => (h.sendMessage hm).bind fun r => ?_) fun _ => ?_
          · cases r with
            | next => exact hnext _
            | stop => exact .pure fun _ => id
            | ret e => exact .pure fun _ => id
          · exact (hnext _).strengthen fun _ => And.left

theorem SendRules.checkKeepAlive (h : SendRules c R)
    (hping : ∀ w, R w (w.setClient c (mqttPing (w.conn c).mqclt).2)) :
    Within R S (checkKeepAlive c) :=
  (within_getClient c).bind fun _ => h.toIoRules.mqttPalTime.bind fun _ =>
    .ite (within_onClient hping) (.pure _)

theorem SendRules.mqttSend (h : SendRules c R)
    (hping : ∀ w, R w (w.setClient c (mqttPing (w.conn c).mqclt).2)) :
    Within R S (mqttSend c) := by
  refine (within_getClient c).bind fun cl => .ite (.pure _) ?_
  refine (h.mqttSendLoop _ _ _).bind fun r => ?_
  cases r with
  | some e => exact .pure _
  | none => exact h.checkKeepAlive hping

/-- `mqtt_sync` receives, then it sends. -/
theorem within_agSync (hrecv : RecvRules c R S) (hsend : SendRules c R)
    (hping : ∀ w, R w (w.setClient c (mqttPing (w.conn c).mqclt).2)) :
    Within R S (agSync c) := by
  refine (within_getClient c).bind fun cl => ?_
  have hrest : Within R S (do
      let err ← mqttRecv (publishCallback c) c
      if err ≠ .ok then return err
      else mqttSend c) :=
    hrecv.mqttRecv.bind fun _ => .ite (.pure _) (hsend.mqttSend hping)
  exact .ite ((hrecv.setError _).bind fun _ => hrest) hrest

end Send

end Admlink
