import Admlink.Opening

/-!
# The handlers of the loop, each by its exits

For each timer handler and for the control interface one relation lists the
worlds it returns in and one the worlds it stops in.
-/

namespace Admlink

open Program Relation

namespace World

/-- A timer registered after `d` microseconds. -/
def registered (w : World) (secs usecs : Nat) (h : Handler) (d : Nat) (env : Env) : World :=
  ((w.log (.registerTimeout h)).tick d env).schedule secs usecs h

/-- `check_agstatus` has run: the date is set and the status is good. -/
def checked (w : World) (t : Tm) (env : Env) : World :=
  { w with env, agent := { w.agent with tinfo := some t, agstatus := .isOk } }

end World

/-! ## `chk_agstatm` -/

/-- The receiver is up, and was or has just come up. -/
inductive RecvUp (w : World) : World → Prop
  | already : (w.conn .mqrecv).status ≠ 0 → RecvUp w w
  | now {t : World} : (w.conn .mqrecv).status = 0 → ConnectEnd .mqrecv w true t → RecvUp w t

inductive ChecksEnd (w : World) : Bool → World → Prop
  | recv {t : World} : (w.conn .mqrecv).status = 0 → ConnectEnd .mqrecv w false t →
      ChecksEnd w false t
  | upld {u t : World} {b : Bool} : checkMqrecv w = .ok true u → RecvUp w u →
      (u.conn .mqupld).status = 0 → ConnectEnd .mqupld u b t → ChecksEnd w b t
  | both {u : World} : RecvUp w u → (u.conn .mqupld).status ≠ 0 → ChecksEnd w true u

inductive ChecksStop (w : World) : World → Prop
  | recv {t : World} : (w.conn .mqrecv).status = 0 → ConnectStop .mqrecv w t → ChecksStop w t
  | upld {u t : World} : RecvUp w u → (u.conn .mqupld).status = 0 →
      ConnectStop .mqupld u t → ChecksStop w t

theorem checkMqrecv_cases (w : World) :
    Ends (fun b t => (b = true ∧ RecvUp w t) ∨
        (b = false ∧ (w.conn .mqrecv).status = 0 ∧ ConnectEnd .mqrecv w false t))
      (fun _ t => (w.conn .mqrecv).status = 0 ∧ ConnectStop .mqrecv w t) (checkMqrecv w) := by
  by_cases h : (w.conn .mqrecv).status = 0
  · refine (checkMqrecv_ends w h).mono (fun b t ht => ?_) fun _ _ ht => ⟨h, ht⟩
    cases b with
    | true => exact .inl ⟨rfl, .now h ht⟩
    | false => exact .inr ⟨rfl, h, ht⟩
  · unfold checkMqrecv
    rw [bind_of_ok (rfl : getConn .mqrecv w = .ok (w.conn .mqrecv) w), if_neg h]
    exact .inl ⟨rfl, .already h⟩

theorem checkConns_ends (w : World) :
    Ends (ChecksEnd w) (fun _ => ChecksStop w) (checkConns w) := by
  refine Ends.bind (checkMqrecv_cases w) (fun b u hr hu => ?_) fun _ _ h => .recv h.1 h.2
  rcases hu with ⟨rfl, hup⟩ | ⟨rfl, h0, hend⟩
  · rw [if_pos rfl]
    by_cases h : (u.conn .mqupld).status = 0
    · exact (checkMqupld_ends u h).mono (fun _ _ ht => .upld hr hup h ht)
        fun _ _ ht => .upld hup h ht
    · unfold checkMqupld
      rw [bind_of_ok (rfl : getConn .mqupld u = .ok (u.conn .mqupld) u), if_neg h]
      exact .both hup h
  · exact .recv h0 hend

inductive ChkEnd (w : World) : World → Prop
  | down {u : World} (d : Nat) (env : Env) : ChecksEnd w false u →
      ChkEnd w (u.registered smCheckT 0 .chkAgstatm d env)
  | good {u : World} (tm : Tm) (env : Env) (d : Nat) (env' : Env) :
      checkConns w = .ok true u → ChecksEnd w true u →
      ChkEnd w ((u.checked tm env).registered smCheckT 0 .chkAgstatm d env')

inductive ChkStop (w : World) : World → Prop
  | checks {t : World} : ChecksStop w t → ChkStop w t
  | err {u t : World} : ChecksEnd w true u → ShutEnd u t → ChkStop w t
  | date {u : World} : ChecksEnd w true u → ChkStop w u
  | down {u : World} (d : Nat) (env : Env) : ChecksEnd w false u →
      ChkStop w ((u.log (.registerTimeout .chkAgstatm)).tick d env)
  | good {u : World} (tm : Tm) (env : Env) (d : Nat) (env' : Env) :
      checkConns w = .ok true u → ChecksEnd w true u →
      ChkStop w (((u.checked tm env).log (.registerTimeout .chkAgstatm)).tick d env')

theorem localtime_ends (w : World) :
    Ends (fun _ t => ∃ env, t = { w with env }) (fun _ t => t = w) (localtime w) := by
  unfold localtime
  rw [bind_of_ok (get_apply w)]
  cases w.env.tms with
  | nil => rfl
  | cons t ts => exact ⟨{ w.env with tms := ts }, rfl⟩

theorem checkAgstatus_ends (w : World) :
    Ends (fun _ t => ∃ tm env, t = w.checked tm env) (fun _ t => ShutEnd w t ∨ t = w)
      (checkAgstatus w) := by
  unfold checkAgstatus
  rw [bind_of_ok (get_apply w)]
  by_cases h : w.agent.agstatus = .isErr
  · rw [if_pos h]
    exact (exitLink_ends 1 w).mono (fun _ _ h => h.elim) fun _ _ h => .inl h
  · rw [if_neg h]
    refine Ends.bind (localtime_ends w) (fun tm _ _ ⟨env, ht⟩ => ?_) fun _ _ h => .inr h
    rw [ht]
    exact ⟨tm, env, rfl⟩

theorem registerTimeout_registered (secs usecs : Nat) (h : Handler) (w : World) :
    Ends (fun _ t => ∃ d env, t = w.registered secs usecs h d env)
      (fun _ t => ∃ d env, t = (w.log (.registerTimeout h)).tick d env)
      (registerTimeout secs usecs h w) :=
  (registerTimeout_ends secs usecs h w).mono (fun _ _ ⟨d, env, ht, _⟩ => ⟨d, env, ht⟩)
    fun _ _ h => h

theorem chkAgstatm_ends (w : World) :
    Ends (fun _ => ChkEnd w) (fun _ => ChkStop w) (chkAgstatm w) := by
  unfold chkAgstatm
  refine Ends.bind (checkConns_ends w) (fun b u hr hu => ?_) fun _ _ h => .checks h
  cases b with
  | false =>
      refine (registerTimeout_registered smCheckT 0 .chkAgstatm u).mono ?_ ?_
      · rintro _ _ ⟨d, env, rfl⟩
        exact .down d env hu
      · rintro _ _ ⟨d, env, rfl⟩
        exact .down d env hu
  | true =>
      refine Ends.bind (checkAgstatus_ends u) ?_ ?_
      · rintro _ _ _ ⟨tm, env, rfl⟩
        refine (registerTimeout_registered smCheckT 0 .chkAgstatm _).mono ?_ ?_
        · rintro _ _ ⟨d, env', rfl⟩
          exact .good tm env d env' hr hu
        · rintro _ _ ⟨d, env', rfl⟩
          exact .good tm env d env' hr hu
      · rintro _ _ (h | rfl)
        · exact .err hu h
        · exact .date hu

/-! ## `ag_handle_clttraffic` -/

inductive TrafficEnd (c : Conn) (w : World) : World → Prop
  | again {u : World} (d : Nat) (env : Env) : agSync c w = .ok .ok u →
      TrafficEnd c w (u.registered 0 mqttSynT (.agHandleClttraffic c) d env)
  | closed {e : MqttErrors} {u t : World} : agSync c w = .ok e u → e ≠ .ok →
      Closed c u t → TrafficEnd c w t

inductive TrafficStop (c : Conn) (w : World) : World → Prop
  | sync {t : World} : SyncStop c w t → TrafficStop c w t
  | close {e : MqttErrors} {u t : World} : agSync c w = .ok e u → e ≠ .ok →
      CloseStop c u t → TrafficStop c w t
  | timer {u : World} (d : Nat) (env : Env) : agSync c w = .ok .ok u →
      TrafficStop c w ((u.log (.registerTimeout (.agHandleClttraffic c))).tick d env)

theorem agHandleClttraffic_ends (c : Conn) (w : World) :
    Ends (fun _ => TrafficEnd c w) (fun _ => TrafficStop c w) (agHandleClttraffic c w) := by
  unfold agHandleClttraffic
  refine Ends.bind (path_agSync c w) (fun e u hr _ => ?_) fun _ _ h => .sync h
  by_cases he : e = .ok
  · subst he
    rw [if_neg (by simp)]
    refine (registerTimeout_registered 0 mqttSynT (.agHandleClttraffic c) u).mono ?_ ?_
    · rintro _ _ ⟨d, env, rfl⟩
      exact .again d env hr
    · rintro _ _ ⟨d, env, rfl⟩
      exact .timer d env hr
  · rw [if_pos he]
    exact (closeConn_ends c u).mono (fun _ _ h => .closed hr he h) fun _ _ h => .close hr he h

/-! ## `eloop_set_publish` -/

namespace World

/-- `mqtt_publish` is called for `p`. -/
def publishing (w : World) (p : SetPublish) : World :=
  w.log (.publish p (w.conn p.conn).mqclt.mq.isSome)

/-- The call of `mqtt_publish` for `p` on the client as it is. -/
def callPublish (w : World) (p : SetPublish) : Except Fault (MqttErrors × Client) :=
  mqttPublish (w.conn p.conn).mqclt p.topic_name.str p.application_message p.publish_flags
    (some p.seqno)

end World

theorem link_of_callPublish {p : SetPublish} {w : World} {r : MqttErrors × Client}
    (hr : w.callPublish p = .ok r) :
    SameLink (w.conn p.conn).mqclt r.2 := by
  obtain ⟨-, pid, rfl⟩ := mqttPublish_ok hr
  have hpid : SameLink (w.conn p.conn).mqclt { (w.conn p.conn).mqclt with pid_lfsr := pid } :=
    ⟨rfl, rfl⟩
  exact hpid.trans (packAndRegister_sameLink _ (negErrors_packPublishRequest _ _ _ _) _ _ _)

inductive PublishEnd (p : SetPublish) (w : World) : World → Prop
  | queued {r : MqttErrors × Client} : w.callPublish p = .ok r → r.2.error = .ok →
      PublishEnd p w ((w.publishing p).setClient p.conn r.2)
  | closed {r : MqttErrors × Client} {t : World} : w.callPublish p = .ok r → r.2.error ≠ .ok →
      Closed p.conn ((w.publishing p).setClient p.conn r.2) t → PublishEnd p w t

inductive PublishStop (p : SetPublish) (w : World) : World → Prop
  | fault {f : Fault} : w.callPublish p = .error f → PublishStop p w (w.publishing p)
  | close {r : MqttErrors × Client} {t : World} : w.callPublish p = .ok r → r.2.error ≠ .ok →
      CloseStop p.conn ((w.publishing p).setClient p.conn r.2) t → PublishStop p w t

theorem mqttPublishOn_ok {p : SetPublish} {w : World} {r : MqttErrors × Client}
    (hr : w.callPublish p = .ok r) :
    mqttPublishOn p.conn p.topic_name p.application_message p.publish_flags p.seqno w =
      .ok r.2.error ((w.publishing p).setClient p.conn r.2) := by
  unfold mqttPublishOn
  rw [bind_of_ok (rfl : getClient p.conn w = .ok (w.conn p.conn).mqclt w)]
  rw [bind_of_ok (show emit (.publish p (w.conn p.conn).mqclt.mq.isSome) w =
    .ok () (w.publishing p) from rfl)]
  rw [show mqttPublish _ _ _ _ _ = _ from hr]
  rfl

theorem mqttPublishOn_error {p : SetPublish} {w : World} {f : Fault}
    (hr : w.callPublish p = .error f) :
    mqttPublishOn p.conn p.topic_name p.application_message p.publish_flags p.seqno w =
      .error (.fault f) (w.publishing p) := by
  unfold mqttPublishOn
  rw [bind_of_ok (rfl : getClient p.conn w = .ok (w.conn p.conn).mqclt w)]
  rw [bind_of_ok (show emit (.publish p (w.conn p.conn).mqclt.mq.isSome) w =
    .ok () (w.publishing p) from rfl)]
  rw [show mqttPublish _ _ _ _ _ = _ from hr]
  rfl

theorem eloopSetPublish_ends (p : SetPublish) (w : World) :
    Ends (fun _ => PublishEnd p w) (fun _ => PublishStop p w) (eloopSetPublish p w) := by
  rw [eloopSetPublish]
  cases hr : w.callPublish p with
  | error f =>
      rw [bind_of_error (mqttPublishOn_error hr)]
      exact .fault hr
  | ok r =>
      rw [bind_of_ok (mqttPublishOn_ok hr)]
      by_cases he : r.2.error = .ok
      · rw [if_neg (by simp [he])]
        exact .queued hr he
      · rw [if_pos he]
        exact (closeConn_ends p.conn _).mono (fun _ _ h => .closed hr he h)
          fun _ _ h => .close hr he h

/-! ## Control interface -/

namespace World

/-- `admlink_cmd_handle` has been entered and has set the date. -/
def handling (w : World) (buf : Bytes) (t : Tm) (env : Env) : World :=
  { w.log (.cmdHandle buf) with env, agent := { w.agent with tinfo := some t } }

end World

/-- Where a command handler returns. -/
inductive CommandEnd (w : World) : Option CmdHdl → World → Prop
  | unknown : CommandEnd w none w
  | stop (d : Nat) (env : Env) :
      CommandEnd w (some .stop) (w.registered 0 mqttSynT .eloopSetExit d env)
  | sendtest (application_message : Bytes) (d : Nat) (env : Env) :
      CommandEnd w (some .sendtest)
        ((w.log (.strftime w.agent.tinfo)).request .mqupld (w.conn .mqupld).topicsend
          application_message publishQos1 d env)

inductive CommandStop (w : World) : Option CmdHdl → World → Prop
  | stop (d : Nat) (env : Env) :
      CommandStop w (some .stop) ((w.log (.registerTimeout .eloopSetExit)).tick d env)
  | text : CommandStop w (some .sendtest) w
  | date : CommandStop w (some .sendtest) (w.log (.strftime w.agent.tinfo))
  | sendtest (application_message : Bytes) (d : Nat) (env : Env) :
      CommandStop w (some .sendtest)
        (((w.log (.strftime w.agent.tinfo)).ask .mqupld (w.conn .mqupld).topicsend
          application_message publishQos1).tick d env)

inductive ControlEnd (w : World) : Option Bytes → World → Prop
  | silent : ControlEnd w none w
  | gated {dgram : Bytes} : w.agent.agstatus = .isReboot ∨ w.agent.agstatus = .isFwup →
      ControlEnd w (some dgram) (w.log (.ctrlReply strReplyOk))
  | handled {dgram : Bytes} {u : World} (t : Tm) (env : Env) (reply : Bytes) :
      w.agent.agstatus ≠ .isReboot → w.agent.agstatus ≠ .isFwup →
      CommandEnd (w.handling (cstr (dgram.take ctrlBufSize)) t env)
        (findCmdHdl (cstr (dgram.take ctrlBufSize))) u →
      ControlEnd w (some dgram) (u.log (.ctrlReply reply))

inductive ControlStop (w : World) : Option Bytes → World → Prop
  | date {dgram : Bytes} : w.agent.agstatus ≠ .isReboot → w.agent.agstatus ≠ .isFwup →
      ControlStop w (some dgram) (w.log (.cmdHandle (cstr (dgram.take ctrlBufSize))))
  | command {dgram : Bytes} {u : World} (t : Tm) (env : Env) :
      w.agent.agstatus ≠ .isReboot → w.agent.agstatus ≠ .isFwup →
      CommandStop (w.handling (cstr (dgram.take ctrlBufSize)) t env)
        (findCmdHdl (cstr (dgram.take ctrlBufSize))) u →
      ControlStop w (some dgram) u

theorem sendtestText_ends (w : World) :
    Ends (fun _ t => t = w.log (.strftime w.agent.tinfo))
      (fun _ t => t = w ∨ t = w.log (.strftime w.agent.tinfo)) (sendtestText w) := by
  unfold sendtestText
  rw [bind_of_ok (get_apply w)]
  refine Ends.bind (orFault_ends _ w) (fun _ u _ hu => ?_) fun _ _ h => .inl h
  rw [hu]
  refine Ends.bind (strftimeTinfo_ends w) (fun _ u _ ⟨hu, _⟩ => ?_) fun _ _ h => .inr h
  exact (orFault_ends _ u).mono (fun _ _ h => h.trans hu) fun _ _ h => .inr (h.trans hu)

theorem admlinkCmdSendtest_ends (w : World) :
    Ends (fun _ => CommandEnd w (some .sendtest)) (fun _ => CommandStop w (some .sendtest))
      (admlinkCmdSendtest w) := by
  unfold admlinkCmdSendtest
  refine Ends.bind (sendtestText_ends w) ?_ ?_
  · rintro text _ _ rfl
    rw [bind_of_ok (show getConn .mqupld (w.log (.strftime w.agent.tinfo)) =
      .ok (w.conn .mqupld) (w.log (.strftime w.agent.tinfo)) from rfl)]
    refine Ends.bind (setMqttPublishNexsync_ends .mqupld (w.conn .mqupld).topicsend text
      publishQos1 _) ?_ ?_
    · rintro _ _ _ ⟨d, env, rfl⟩
      exact .sendtest text d env
    · rintro _ _ ⟨d, env, rfl⟩
      exact .sendtest text d env
  · rintro _ _ (rfl | rfl)
    · exact .text
    · exact .date

theorem admlinkCmdStop_ends (w : World) :
    Ends (fun _ => CommandEnd w (some .stop)) (fun _ => CommandStop w (some .stop))
      (admlinkCmdStop w) := by
  unfold admlinkCmdStop
  refine Ends.bind (registerTimeout_registered 0 mqttSynT .eloopSetExit w) ?_ ?_
  · rintro _ _ _ ⟨d, env, rfl⟩
    exact .stop d env
  · rintro _ _ ⟨d, env, rfl⟩
    exact .stop d env

theorem cmdHdl_ends (h : CmdHdl) (w : World) :
    Ends (fun _ => CommandEnd w (some h)) (fun _ => CommandStop w (some h)) (h.run w) := by
  cases h with
  | stop => exact admlinkCmdStop_ends w
  | sendtest => exact admlinkCmdSendtest_ends w

theorem admlinkCmdHandle_ends (buf : Bytes) (w : World) :
    Ends (fun _ u => ∃ t env, CommandEnd (w.handling buf t env) (findCmdHdl buf) u)
      (fun _ u => u = w.log (.cmdHandle buf) ∨
        ∃ t env, CommandStop (w.handling buf t env) (findCmdHdl buf) u)
      (admlinkCmdHandle buf w) := by
  unfold admlinkCmdHandle
  rw [bind_of_ok (show emit (.cmdHandle buf) w = .ok () (w.log (.cmdHandle buf)) from rfl)]
  refine Ends.bind (localtime_ends _) ?_ fun _ _ h => .inl h
  rintro t _ _ ⟨env, rfl⟩
  rw [bind_of_ok (show (modify _ : Prog Unit) _ = .ok () (w.handling buf t env) from rfl)]
  cases findCmdHdl buf with
  | none => exact ⟨t, env, .unknown⟩
  | some h =>
      have hrun := cmdHdl_ends h (w.handling buf t env)
      refine Ends.bind hrun (fun ok u _ hu => ?_) fun _ _ h => .inr ⟨t, env, h⟩
      cases ok <;> exact ⟨t, env, hu⟩

theorem admlinkCtrlIfaceReceive_ends (datagram : Option Bytes) (w : World) :
    Ends (fun _ => ControlEnd w datagram) (fun _ => ControlStop w datagram)
      (admlinkCtrlIfaceReceive datagram w) := by
  cases datagram with
  | none => exact .silent
  | some dgram =>
      unfold admlinkCtrlIfaceReceive
      simp only
      rw [bind_of_ok (get_apply w)]
      by_cases hgate : w.agent.agstatus ≠ .isReboot ∧ w.agent.agstatus ≠ .isFwup
      · rw [if_pos hgate]
        refine Ends.bind (admlinkCmdHandle_ends _ w) ?_ ?_
        · rintro reply u _ ⟨t, env, hu⟩
          exact .handled t env reply hgate.1 hgate.2 hu
        · rintro _ u (rfl | ⟨t, env, hu⟩)
          · exact .date hgate.1 hgate.2
          · exact .command t env hgate.1 hgate.2 hu
      · rw [if_neg hgate]
        refine .gated ?_
        by_cases h : w.agent.agstatus = .isReboot
        · exact .inl h
        · exact .inr (by simpa [h] using hgate)

/-! ## One dispatch -/

/-- The worlds a timer handler returns in. -/
def HandlerEnd : Handler → World → World → Prop
  | .chkAgstatm => ChkEnd
  | .agHandleClttraffic c => TrafficEnd c
  | .eloopSetPublish p => PublishEnd p
  | .eloopSetExit => fun _ _ => False

/-- The worlds it stops in. -/
def HandlerStop : Handler → World → World → Prop
  | .chkAgstatm => ChkStop
  | .agHandleClttraffic c => TrafficStop c
  | .eloopSetPublish p => PublishStop p
  | .eloopSetExit => ShutEnd

theorem handler_ends (h : Handler) (w : World) :
    Ends (fun _ => HandlerEnd h w) (fun _ => HandlerStop h w) (h.run w) := by
  cases h with
  | chkAgstatm => exact chkAgstatm_ends w
  | agHandleClttraffic c => exact agHandleClttraffic_ends c w
  | eloopSetPublish p => exact eloopSetPublish_ends p w
  | eloopSetExit => exact (exitLink_ends 0 w).mono (fun _ _ h => h.elim) fun _ _ h => h

/-- The handler of the timer that `d` takes off the list. -/
def dueHandler (w : World) : Dispatch → Option Handler
  | .timeout env =>
      match env.clocks, w.eloop.timeout with
      | delay :: _, t :: _ =>
          if (Timeval.ofUsec (w.clock + delay)).Before t.time then none else some t.handler
      | _, _ => none
  | _ => none

theorem dueHandler_eq {w : World} {env : Env} {delay : Nat} {delays : List Nat}
    {t : EloopTimeout Handler} {rest : List (EloopTimeout Handler)}
    (hclocks : env.clocks = delay :: delays) (hlist : w.eloop.timeout = t :: rest)
    (hdue : ¬ (Timeval.ofUsec (w.clock + delay)).Before t.time) :
    dueHandler w (.timeout env) = some t.handler := by
  simp only [dueHandler, hclocks, hlist, if_neg hdue]

/-- The world a timer handler starts in. -/
def World.popped (w : World) (d : Nat) (env : Env) (rest : List (EloopTimeout Handler)) : World :=
  { w.tick d env with eloop := { w.eloop with timeout := rest } }

/-- The world the handler of a timer that `d` takes off the list starts in. -/
def World.atHandler (w : World) : Dispatch → World
  | .timeout env =>
      match env.clocks, w.eloop.timeout with
      | d :: ds, _ :: rest => w.popped d { env with clocks := ds } rest
      | _, _ => w
  | _ => w

theorem atHandler_eq {w : World} {env : Env} {d : Nat} {ds : List Nat}
    {t : EloopTimeout Handler} {rest : List (EloopTimeout Handler)} (hclocks : env.clocks = d :: ds)
    (hlist : w.eloop.timeout = t :: rest) :
    w.atHandler (.timeout env) = w.popped d { env with clocks := ds } rest := by
  simp only [World.atHandler, hclocks, hlist]

inductive DispatchEnd (w : World) : Dispatch → World → Prop
  | idle {env : Env} (d : Nat) (env' : Env) :
      eloopPopDue (.ofUsec (w.clock + d)) w.eloop.timeout = none →
      DispatchEnd w (.timeout env) (w.tick d env')
  | fired {env : Env} {d : Nat} {ds : List Nat} {t : EloopTimeout Handler}
      {rest : List (EloopTimeout Handler)} {u : World} : env.clocks = d :: ds →
      w.eloop.timeout = t :: rest → ¬ (Timeval.ofUsec (w.clock + d)).Before t.time →
      HandlerEnd t.handler (w.popped d { env with clocks := ds } rest) u →
      DispatchEnd w (.timeout env) u
  | noReader {env : Env} {dgram : Option Bytes} :
      DispatchEnd w (.readers env dgram) (w.tick 0 env)
  | reader {env : Env} {dgram : Option Bytes} {u : World} : w.eloop.readers ≠ [] →
      ControlEnd (w.tick 0 env) dgram u → DispatchEnd w (.readers env dgram) u

inductive DispatchStop (w : World) : Dispatch → World → Prop
  | clock {env : Env} : DispatchStop w (.timeout env) (w.tick 0 env)
  | fired {env : Env} {d : Nat} {ds : List Nat} {t : EloopTimeout Handler}
      {rest : List (EloopTimeout Handler)} {u : World} : env.clocks = d :: ds →
      w.eloop.timeout = t :: rest → ¬ (Timeval.ofUsec (w.clock + d)).Before t.time →
      HandlerStop t.handler (w.popped d { env with clocks := ds } rest) u →
      DispatchStop w (.timeout env) u
  | reader {env : Env} {dgram : Option Bytes} {u : World} : w.eloop.readers ≠ [] →
      ControlStop (w.tick 0 env) dgram u → DispatchStop w (.readers env dgram) u
  | out {env : Env} {u : World} : ShutEnd (w.tick 0 env) u → DispatchStop w (.selectFailed env) u

theorem eloopRunTimeout_apply {env : Env} {w : World} {d : Nat} {ds : List Nat}
    (hne : (w.tick 0 env).eloop.timeout ≠ []) (hc : (w.tick 0 env).env.clocks = d :: ds) :
    eloopRunTimeout (w.tick 0 env) =
      (match eloopPopDue (.ofUsec (w.clock + d)) w.eloop.timeout with
        | none => pure ()
        | some (t, rest) => do
            modify fun w => { w with eloop := { w.eloop with timeout := rest } }
            t.handler.run : Prog Unit) (w.tick d { env with clocks := ds }) := by
  unfold eloopRunTimeout xgettimeofday
  rw [bind_of_ok (get_apply _), if_neg hne, bind_assoc, bind_of_ok (get_apply _), hc]
  rfl

theorem eloopRunTimeout_ends (env : Env) (w : World) :
    Ends (fun _ => DispatchEnd w (.timeout env)) (fun _ => DispatchStop w (.timeout env))
      (eloopRunTimeout (w.tick 0 env)) := by
  by_cases hnil : (w.tick 0 env).eloop.timeout = []
  · unfold eloopRunTimeout
    rw [bind_of_ok (get_apply _), if_pos hnil]
    exact .idle 0 env (by rw [show w.eloop.timeout = [] from hnil]; rfl)
  · cases hc : (w.tick 0 env).env.clocks with
    | nil =>
        unfold eloopRunTimeout xgettimeofday
        rw [bind_of_ok (get_apply _), if_neg hnil, bind_assoc, bind_of_ok (get_apply _), hc]
        exact .clock
    | cons d ds =>
        rw [eloopRunTimeout_apply hnil hc]
        cases hp : eloopPopDue (.ofUsec (w.clock + d)) w.eloop.timeout with
        | none => exact .idle d { env with clocks := ds } hp
        | some tr =>
            obtain ⟨hlist, hdue⟩ := popDue_eq_some hp
            exact (handler_ends tr.1.handler (w.popped d { env with clocks := ds } tr.2)).mono
              (fun _ _ h => .fired hc hlist hdue h) fun _ _ h => .fired hc hlist hdue h

theorem dispatch_ends (d : Dispatch) (w : World) :
    Ends (fun _ => DispatchEnd w d) (fun _ => DispatchStop w d) (dispatch d w) := by
  cases d with
  | timeout env => exact eloopRunTimeout_ends env w
  | readers env dgram =>
      change Ends _ _ (eloopRunReaders dgram (w.tick 0 env))
      unfold eloopRunReaders
      rw [bind_of_ok (get_apply _)]
      by_cases hnil : (w.tick 0 env).eloop.readers = []
      · rw [if_pos hnil]
        exact .noReader
      · rw [if_neg hnil]
        exact (admlinkCtrlIfaceReceive_ends dgram _).mono (fun _ _ h => .reader hnil h)
          fun _ _ h => .reader hnil h
  | selectFailed env =>
      refine Ends.mono (Q := fun _ _ => False) (E := fun _ => ShutEnd (w.tick 0 env)) ?_
        (fun _ _ h => h.elim) fun _ _ h => .out h
      exact (shutDown_ends (w.tick 0 env)).bind (fun _ _ _ h => h) fun _ _ h => h

end Admlink
