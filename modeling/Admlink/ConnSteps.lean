import Admlink.Logged

/-!
# What a dispatch does to one connection

A dispatch leaves a connection as it is, synchronises it, queues a publish on
it, takes it down or opens it. `ConnStep` says which, with the run of
`mqtt_sync` that was made. Invariants of a single connection are checked
against its six cases.
-/

namespace Admlink

open Program Relation World

/-- From `w` to `t` nobody calls `mqtt_init` for `c`. -/
abbrev SameSession (c : Conn) : World → World → Prop := Logs (· ≠ .mqttInit c)

/-- What the check of a connection does before the connection counts as up. -/
def subscribeOf : Conn → Prog Unit
  | .mqrecv => subscribeTopicrecv
  | .mqupld => pure ()

inductive ConnStep (c : Conn) (w t : World) : Prop
  | same : t.conn c = w.conn c → SameSession c w t → ConnStep c w t
  | synced {u v : World} : u.conn c = w.conn c → SameSession c w u →
      agSync c u = .ok .ok v → t.conn c = v.conn c → SameSession c v t → ConnStep c w t
  | published {p : SetPublish} {r : MqttErrors × Client} : p.conn = c →
      mqttPublish (w.conn c).mqclt p.topic_name.str p.application_message p.publish_flags
        (some p.seqno) = .ok r → r.2.error = .ok →
      t.conn c = { w.conn c with mqclt := r.2 } → SameSession c w t → ConnStep c w t
  | down : (t.conn c).biofd = none → (t.conn c).status = 0 → ConnStep c w t
  | failed {u v : World} {connfd : Nat} {e : MqttErrors} : (w.conn c).status = 0 →
      u.conn c = w.conn c → agSync c (u.connected c connfd) = .ok e v → e ≠ .ok →
      t.conn c = v.conn c → ConnStep c w t
  | up {u v x : World} {connfd : Nat} : (w.conn c).status = 0 → u.conn c = w.conn c →
      SameSession c w u → agSync c (u.connected c connfd) = .ok .ok v →
      subscribeOf c v = .ok () x → t.conn c = { x.conn c with status := 1 } →
      SameSession c x t → ConnStep c w t

section Steps

variable {c d : Conn} {w t u : World}

namespace ConnStep

theorem before (hconn : u.conn c = w.conn c) (hlogs : SameSession c w u) (h : ConnStep c u t) :
    ConnStep c w t := by
  cases h with
  | same ht hnew => exact .same (ht.trans hconn) (hlogs.trans hnew)
  | synced hu hold hr ht hnew => exact .synced (hu.trans hconn) (hlogs.trans hold) hr ht hnew
  | published hp hr herror ht hnew =>
      rw [hconn] at hr ht
      exact .published hp hr herror ht (hlogs.trans hnew)
  | down hbio hstatus => exact .down hbio hstatus
  | failed h0 hu hr he ht =>
      rw [hconn] at h0
      exact .failed h0 (hu.trans hconn) hr he ht
  | up h0 hu hold hr hsub ht hnew =>
      rw [hconn] at h0
      exact .up h0 (hu.trans hconn) (hlogs.trans hold) hr hsub ht hnew

theorem after (h : ConnStep c w u) (hconn : t.conn c = u.conn c) (hlogs : SameSession c u t) :
    ConnStep c w t := by
  cases h with
  | same ht hnew => exact .same (hconn.trans ht) (hnew.trans hlogs)
  | synced hu hold hr ht hnew => exact .synced hu hold hr (hconn.trans ht) (hnew.trans hlogs)
  | published hp hr herror ht hnew =>
      exact .published hp hr herror (hconn.trans ht) (hnew.trans hlogs)
  | down hbio hstatus => exact .down (by rw [hconn, hbio]) (by rw [hconn, hstatus])
  | failed h0 hu hr he ht => exact .failed h0 hu hr he (hconn.trans ht)
  | up h0 hu hold hr hsub ht hnew =>
      exact .up h0 hu hold hr hsub (hconn.trans ht) (hnew.trans hlogs)

end ConnStep

/-! ## Closing -/

theorem SyncPath.sameSession (h : SyncPath d w t) : SameSession c w t := by
  refine (SyncPath.frame h).logs.mono ?_
  rintro e he rfl
  exact he

theorem Closed.sameSession (h : Closed d w t) : SameSession c w t := by
  refine h.logged.logs.mono ?_
  rintro e he rfl
  exact he

/-! ## Opening -/

theorem ConnectEnd.sameSession {b : Bool} (h : ConnectEnd d w b t) (hd : c ≠ d) :
    SameSession c w t := by
  have hconnected : ∀ connfd, SameSession c w (w.connected d connfd) := by
    intro connfd
    exact ⟨[.mqttInit d, .bioNew d (w.conn d).biofd w.bios w.ctxs, .sslCtxNew w.ctxs], rfl,
      by simp [hd.symm]⟩
  cases h with
  | refused _ =>
      exact ⟨[.sslCtxFree w.ctxs, .bioFreeAll w.bios,
        .bioNew d (w.conn d).biofd w.bios w.ctxs, .sslCtxNew w.ctxs], rfl, by simp⟩
  | failed _ hr _ =>
      exact (hconnected _).trans (SyncPath.sameSession ((path_agSync d).of_ok hr))
  | @up connfd u n env _ hpath =>
      refine ((hconnected _).trans (SyncPath.sameSession hpath)).trans ?_
      exact ⟨[.registerTimeout (.agHandleClttraffic d)], rfl, by simp⟩

/-- The runs behind a connection attempt. -/
theorem connStep_connectConn {b : Bool} (h0 : (w.conn c).status = 0)
    (h : connectConn c (subscribeOf c) w = .ok b t) : ConnStep c w t := by
  obtain ⟨connfd, u, hopen, h⟩ := bind_ok h
  have hend := openNbSocket_ends c w
  rw [hopen] at hend
  rw [bind_of_ok (rfl : getConn c u = .ok (u.conn c) u)] at h
  cases hend with
  | refused _ =>
      rw [if_pos (by rw [conn_refused_same])] at h
      cases h
      refine .down ?_ ?_
      · rw [conn_refused_same]
      · rw [conn_refused_same]
        exact h0
  | opened _ =>
      have hbio : (w.bioOpened c).conn c =
          { w.conn c with ssl_ctx := some w.ctxs, biofd := some w.bios } := conn_setConn_same ..
      rw [if_neg (by rw [hbio]; simp)] at h
      rw [bind_of_ok (rfl : modifyConn c _ (w.bioOpened c) = .ok () _)] at h
      rw [bind_of_ok (initAndConnect_run c w connfd)] at h
      simp only [ne_eq, not_true_eq_false, ↓reduceIte] at h
      obtain ⟨e, v, hr, h⟩ := bind_ok h
      by_cases he : e = .ok
      · subst he
        simp only [not_true_eq_false, ↓reduceIte] at h
        obtain ⟨_, x, hsub, h⟩ := bind_ok h
        obtain ⟨_, y, hmodify, h⟩ := bind_ok h
        cases hmodify
        obtain ⟨_, z, hregister, h⟩ := bind_ok h
        cases h
        -- the traffic timer is the last thing; nothing of the connection changes with it
        have hz := registerTimeout_registered 0 mqttSynT (.agHandleClttraffic c)
          (x.setConn c { x.conn c with status := 1 })
        rw [show registerTimeout 0 mqttSynT (.agHandleClttraffic c)
          (x.setConn c { x.conn c with status := 1 }) = .ok _ t from hregister] at hz
        obtain ⟨n, env, rfl⟩ := hz
        refine .up h0 rfl (.of_eq rfl) hr hsub ?_ ?_
        · exact conn_setConn_same ..
        · exact ⟨[.registerTimeout (.agHandleClttraffic c)], rfl, by simp⟩
      · simp only [he, not_false_eq_true, ↓reduceIte] at h
        cases h
        exact .failed h0 rfl hr he rfl

theorem ConnectEnd.connStep_false (h : ConnectEnd c w false t) (h0 : (w.conn c).status = 0) :
    ConnStep c w t := by
  cases h with
  | refused _ =>
      refine .down ?_ ?_
      · rw [conn_refused_same]
      · rw [conn_refused_same]
        exact h0
  | failed _ hr he => exact .failed h0 rfl hr he rfl

/-- What the uploader sees of the receiver coming up. -/
theorem RecvUp.uploader (h : RecvUp w u) :
    u.conn .mqupld = w.conn .mqupld ∧ SameSession .mqupld w u := by
  cases h with
  | already _ => exact ⟨rfl, .of_eq rfl⟩
  | now _ hc => exact ⟨hc.other (by decide), hc.sameSession (by decide)⟩

theorem RecvUp.receiver (hr : checkMqrecv w = .ok true u) (h : RecvUp w u) :
    ConnStep .mqrecv w u := by
  cases h with
  | already _ => exact .same rfl (.of_eq rfl)
  | now h0 _ =>
      unfold checkMqrecv at hr
      rw [bind_of_ok (rfl : getConn .mqrecv w = .ok (w.conn .mqrecv) w), if_pos h0] at hr
      exact connStep_connectConn h0 hr

/-- Of the two connections that `chk_agstatm` checks each is opened at most once. -/
theorem connStep_checkConns {b : Bool} (h : checkConns w = .ok b t) : ConnStep c w t := by
  obtain ⟨b', u, hrecv, h⟩ := bind_ok h
  have hcases := checkMqrecv_cases w
  rw [hrecv] at hcases
  rcases hcases with ⟨rfl, hup⟩ | ⟨rfl, h0, hend⟩
  · rw [if_pos rfl] at h
    unfold checkMqupld at h
    rw [bind_of_ok (rfl : getConn .mqupld u = .ok (u.conn .mqupld) u)] at h
    by_cases h0 : (u.conn .mqupld).status = 0
    · rw [if_pos h0] at h
      have hend := connectConn_ends .mqupld (.pure ()) u
      rw [h] at hend
      cases c with
      | mqrecv =>
          exact (hup.receiver hrecv).after (hend.other (by decide)) (hend.sameSession (by decide))
      | mqupld => exact .before hup.uploader.1 hup.uploader.2 (connStep_connectConn h0 h)
    · rw [if_neg h0] at h
      cases h
      cases c with
      | mqrecv => exact hup.receiver hrecv
      | mqupld => exact .same hup.uploader.1 hup.uploader.2
  · rw [if_neg (by decide)] at h
    cases h
    cases c with
    | mqrecv => exact hend.connStep_false h0
    | mqupld => exact .same (hend.other (by decide)) (hend.sameSession (by decide))

/-! ## Dispatches -/

theorem sameSession_registered (w : World) (secs usecs : Nat) {hdl : Handler} (n : Nat)
    (env : Env) :
    SameSession c w (w.registered secs usecs hdl n env) :=
  ⟨[.registerTimeout hdl], rfl, by simp⟩

theorem conn_registered (w : World) (secs usecs : Nat) (hdl : Handler) (n : Nat) (env : Env) :
    (w.registered secs usecs hdl n env).conn c = w.conn c := by
  rw [registered, conn_schedule, conn_tick, conn_log]

theorem ChkEnd.connStep (h : ChkEnd w t) : ConnStep c w t := by
  cases h with
  | down n env hc =>
      refine ConnStep.after ?_ (conn_registered ..) (sameSession_registered _ _ _ n env)
      cases hc with
      | recv h0 hend =>
          cases c with
          | mqrecv => exact hend.connStep_false h0
          | mqupld => exact .same (hend.other (by decide)) (hend.sameSession (by decide))
      | upld hr hup h0 hend =>
          cases c with
          | mqrecv =>
              exact (hup.receiver hr).after (hend.other (by decide)) (hend.sameSession (by decide))
          | mqupld => exact .before hup.uploader.1 hup.uploader.2 (hend.connStep_false h0)
  | @good u tm env n env' hr _ =>
      refine (connStep_checkConns hr).after ?_ ?_
      · rw [conn_registered]
        cases c <;> rfl
      · exact ⟨[.registerTimeout .chkAgstatm], rfl, by simp⟩

theorem TrafficEnd.connStep (h : TrafficEnd d w t) : ConnStep c w t := by
  cases h with
  | @again u n env hr =>
      by_cases hd : c = d
      · subst hd
        exact .synced rfl (.of_eq rfl) hr (conn_registered ..) (sameSession_registered _ _ _ n env)
      · have hpath := Within.of_ok (path_agSync d) hr
        refine .same ?_ ((SyncPath.sameSession hpath).trans (sameSession_registered _ _ _ n env))
        rw [conn_registered]
        exact (SyncPath.frame hpath).other c hd
  | closed hr _ hc =>
      by_cases hd : c = d
      · subst hd
        exact .down hc.biofd hc.status
      · have hpath := Within.of_ok (path_agSync d) hr
        exact .same ((hc.other hd).trans ((SyncPath.frame hpath).other c hd))
          ((SyncPath.sameSession hpath).trans hc.sameSession)

theorem PublishEnd.connStep {p : SetPublish} (h : PublishEnd p w t) : ConnStep c w t := by
  have hpublishing : ∀ cl : Client, SameSession c w ((w.publishing p).setClient p.conn cl) := by
    intro cl
    exact ⟨[.publish p (w.conn p.conn).mqclt.mq.isSome], rfl, by simp⟩
  by_cases hd : c = p.conn
  · subst hd
    cases h with
    | queued hr herror =>
        exact .published rfl hr herror (conn_setConn_same ..) (hpublishing _)
    | closed _ _ hc => exact .down hc.biofd hc.status
  · cases h with
    | queued _ _ => exact .same (conn_setClient_other _ hd _) (hpublishing _)
    | closed _ _ hc =>
        exact .same ((hc.other hd).trans (conn_setClient_other _ hd _))
          ((hpublishing _).trans hc.sameSession)

theorem HandlerEnd.connStep {hdl : Handler} (h : HandlerEnd hdl w t) : ConnStep c w t := by
  cases hdl with
  | chkAgstatm => exact ChkEnd.connStep h
  | agHandleClttraffic d => exact TrafficEnd.connStep h
  | eloopSetPublish p => exact PublishEnd.connStep h
  | eloopSetExit => exact h.elim

/-- A command only asks for timers. -/
theorem CommandEnd.same {hdl : Option CmdHdl} (h : CommandEnd w hdl t) :
    t.conn c = w.conn c ∧ SameSession c w t := by
  cases h with
  | unknown => exact ⟨rfl, .of_eq rfl⟩
  | stop n env => exact ⟨conn_registered .., sameSession_registered _ _ _ n env⟩
  | sendtest msg n env =>
      constructor
      · rw [request, conn_schedule, conn_tick]
        cases c <;> rfl
      · exact ⟨[.registerTimeout (.eloopSetPublish (mkSetPublish .mqupld (w.conn .mqupld).topicsend
            msg publishQos1 w.requests)),
          .request .mqupld (w.conn .mqupld).topicsend msg publishQos1 w.requests,
          .strftime w.agent.tinfo], rfl, by simp⟩

theorem ControlEnd.connStep {dgram : Option Bytes} (h : ControlEnd w dgram t) :
    ConnStep c w t := by
  cases h with
  | silent => exact .same rfl (.of_eq rfl)
  | gated _ => exact .same (conn_log ..) ⟨[.ctrlReply strReplyOk], rfl, by simp⟩
  | @handled dgram u tm env reply _ _ hc =>
      have hstart : SameSession c w (w.handling (cstr (dgram.take ctrlBufSize)) tm env) :=
        ⟨[.cmdHandle (cstr (dgram.take ctrlBufSize))], rfl, by simp⟩
      obtain ⟨hconn, hlogs⟩ := hc.same (c := c)
      refine .same ?_ ((hstart.trans hlogs).trans (.log (by simp)))
      rw [conn_log, hconn]
      cases c <;> rfl

/-- A dispatch is one step of each connection. -/
theorem DispatchEnd.connStep {i : Dispatch} (h : DispatchEnd w i t) : ConnStep c w t := by
  cases h with
  | idle n env _ => exact .same (conn_tick ..) (.of_eq rfl)
  | @fired env n ns x rest _ _ _ _ he =>
      refine .before ?_ ?_ (HandlerEnd.connStep he)
      · exact conn_tick w n { env with clocks := ns } c
      · exact .of_eq rfl
  | noReader => exact .same (conn_tick ..) (.of_eq rfl)
  | reader _ hc =>
      refine .before ?_ ?_ (ControlEnd.connStep hc)
      · exact conn_tick ..
      · exact .of_eq rfl

end Steps

end Admlink
