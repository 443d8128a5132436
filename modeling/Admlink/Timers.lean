import Admlink.Logged
import Admlink.Deferred

/-!
# The timer list and the connection check

`chk_agstatm` is the only thing that opens a connection, and it calls itself:
its last act is to register its timer again. Between two dispatches exactly one
such timer waits (`Watched`), at most `SM_CHECK_T` seconds away. Once it is due
nothing overtakes it, so a connection that is down is tried again after a
bounded number of timer checks.
-/

namespace Admlink

open Program Relation Runs
open EloopTimeout DelayQueue StableQueue

/-! ## The invariant -/

/-- How far ahead a handler is registered, in microseconds. -/
def Handler.delay : Handler → Nat
  | .chkAgstatm => smCheckT * 1000000
  | _ => mqttSynT

/-- The number of pending `chk_agstatm` timers. -/
def checkTimers (l : List (EloopTimeout Handler)) : Nat :=
  l.countP fun x => x.handler = .chkAgstatm

/-- `n` connection checks wait, and no timer but a deferred publish is further
away than its handler is ever registered. -/
structure Watched (n : Nat) (w : World) : Prop where
  normal : w.NormalTimes
  checks : checkTimers w.otherTimers = n
  horizon : ∀ x ∈ w.otherTimers, x.dueUsec ≤ w.clock + x.handler.delay

/-- Time only passes along a path of the queue. -/
theorem QueuePath.clock_le {w t : World} (h : QueuePath w t) (hw : w.NormalTimes) :
    w.clock ≤ t.clock :=
  DelayQueue.clock_le_steps (h.path hw).2

theorem otherTimers_schedule {w : World} {secs usecs : Nat} {hdl : Handler}
    (hhdl : hdl.isPublish = false) :
    (w.schedule secs usecs hdl).otherTimers.Perm
      (⟨dueTime (.ofUsec w.clock) secs usecs, hdl⟩ :: w.otherTimers) := by
  have hperm := (insert_perm (r := EloopTimeout.Before)
    ⟨dueTime (.ofUsec w.clock) secs usecs, hdl⟩ w.eloop.timeout).filter
      fun t => !t.handler.isPublish
  rwa [List.filter_cons_of_pos (by simp [hhdl])] at hperm

namespace Watched

variable {n : Nat} {c : Conn} {w t u : World}

/-- Deferred publishes come, other timers do not change. -/
theorem still (h : Watched n w) (hpath : QueuePath w t) (ht : t.otherTimers = w.otherTimers) :
    Watched n t := by
  refine ⟨(hpath.path h.normal).1, by rw [ht]; exact h.checks, fun x hx => ?_⟩
  rw [ht] at hx
  have hdue := h.horizon x hx
  have hclock := hpath.clock_le h.normal
  omega

/-- A handler registers a timer at its own delay. -/
theorem registered (h : Watched n w) (hdl : Handler) {secs usecs : Nat}
    (hdelay : secs * 1000000 + usecs ≤ hdl.delay) (hhdl : hdl.isPublish = false) (d : Nat)
    (env : Env) :
    Watched (n + if hdl = .chkAgstatm then 1 else 0) (w.registered secs usecs hdl d env) := by
  let asked := (w.log (.registerTimeout hdl)).tick d env
  have hasked : Watched n asked := h.still (.silent rfl d rfl rfl rfl) rfl
  have hperm : (asked.schedule secs usecs hdl).otherTimers.Perm
      (⟨dueTime (.ofUsec asked.clock) secs usecs, hdl⟩ :: asked.otherTimers) :=
    otherTimers_schedule hhdl
  refine ⟨normalTimes_schedule hasked.normal _ _ _, ?_, fun x hx => ?_⟩
  · change checkTimers (asked.schedule secs usecs hdl).otherTimers = _
    rw [checkTimers, hperm.countP_eq, List.countP_cons, ← hasked.checks, checkTimers]
    simp
  · rcases List.mem_cons.mp (hperm.mem_iff.mp hx) with rfl | hx
    · simp only [dueUsec, toUsec_dueTime, Timeval.toUsec_ofUsec]
      change asked.clock + secs * 1000000 + usecs ≤ asked.clock + hdl.delay
      omega
    · exact hasked.horizon x hx

/-- The check registers itself. -/
theorem again (h : Watched n w) (d : Nat) (env : Env) :
    Watched (n + 1) (w.registered smCheckT 0 .chkAgstatm d env) := by
  have hdelay : smCheckT * 1000000 + 0 ≤ Handler.chkAgstatm.delay := by decide
  have ht := h.registered .chkAgstatm hdelay rfl d env
  rwa [if_pos rfl] at ht

theorem soon (h : Watched n w) {hdl : Handler} (hhdl : hdl.isPublish = false)
    (hchk : hdl ≠ .chkAgstatm) (d : Nat) (env : Env) :
    Watched n (w.registered 0 mqttSynT hdl d env) := by
  have hdelay : 0 * 1000000 + mqttSynT ≤ hdl.delay := by
    cases hdl with
    | chkAgstatm => exact absurd rfl hchk
    | _ => exact Nat.le_refl _
  have ht := h.registered hdl hdelay hhdl d env
  rwa [if_neg hchk] at ht

theorem sync {e : MqttErrors} (h : Watched n w) (hr : agSync c w = .ok e t) : Watched n t :=
  h.still (queuePath_agSync hr) ((frame_agSync c).of_ok hr).timers

theorem closed (h : Watched n w) (hc : Closed c w t) : Watched n t :=
  h.still hc.queuePath hc.timers

theorem connected (h : Watched n w) (c : Conn) (connfd : Nat) :
    Watched n (w.connected c connfd) :=
  h.still (.silent rfl 0 rfl rfl rfl) rfl

theorem connect {b : Bool} (h : Watched n w) (hc : ConnectEnd c w b t) : Watched n t := by
  cases hc with
  | refused _ => exact h.still (.silent rfl 0 rfl rfl rfl) rfl
  | failed _ hr _ => exact (h.connected c _).sync hr
  | @up connfd u d env _ hpath =>
      have hu : Watched n u :=
        (h.connected c connfd).still (SyncPath.queuePath hpath) (SyncPath.frame hpath).timers
      have hup : Watched n (u.setConn c { u.conn c with status := 1 }) :=
        hu.still (.silent rfl 0 rfl rfl rfl) rfl
      exact hup.soon rfl (by simp) d env

theorem recvUp (h : Watched n w) (hu : RecvUp w u) : Watched n u := by
  cases hu with
  | already _ => exact h
  | now _ hc => exact h.connect hc

theorem checksEnd {b : Bool} (h : Watched n w) (hc : ChecksEnd w b t) : Watched n t := by
  cases hc with
  | recv _ hc => exact h.connect hc
  | upld _ hu _ hc => exact (h.recvUp hu).connect hc
  | both hu _ => exact h.recvUp hu

/-- The check ends by registering itself. -/
theorem chk (h : Watched n w) (hc : ChkEnd w t) : Watched (n + 1) t := by
  cases hc with
  | down d env hc => exact (h.checksEnd hc).again d env
  | @good u tm env d env' _ hc =>
      have hu : Watched n (u.checked tm env) :=
        (h.checksEnd hc).still (.silent rfl 0 rfl rfl rfl) rfl
      exact hu.again d env'

theorem traffic (h : Watched n w) (ht : TrafficEnd c w t) : Watched n t := by
  cases ht with
  | again d env hr => exact (h.sync hr).soon rfl (by simp) d env
  | closed hr _ hc => exact (h.sync hr).closed hc

theorem command {hdl : Option CmdHdl} (h : Watched n w) (hc : CommandEnd w hdl t) :
    Watched n t := by
  cases hc with
  | unknown => exact h
  | stop d env => exact h.soon rfl (by simp) d env
  | sendtest msg d env =>
      have hlog : Watched n (w.log (.strftime w.agent.tinfo)) :=
        h.still (.silent rfl 0 rfl rfl rfl) rfl
      exact hlog.still (.request ..) (World.otherTimers_schedule_publish ..)

theorem control {dgram : Option Bytes} (h : Watched n w) (hc : ControlEnd w dgram t) :
    Watched n t := by
  cases hc with
  | silent => exact h
  | gated _ => exact h.still (.silent rfl 0 rfl rfl rfl) rfl
  | handled tm env reply _ _ hc =>
      have hhandling : ∀ buf, Watched n (w.handling buf tm env) := fun buf =>
        h.still (.silent rfl 0 rfl rfl rfl) rfl
      exact ((hhandling _).command hc).still (.silent rfl 0 rfl rfl rfl) rfl

end Watched

section Dispatches

variable {w t : World}

/-- A timer has been taken off the list, and with it its check if it was one. -/
theorem Watched.popped {n d : Nat} {env : Env} {x : EloopTimeout Handler}
    {rest : List (EloopTimeout Handler)}
    (h : Watched (n + if x.handler = .chkAgstatm then 1 else 0) w)
    (hlist : w.eloop.timeout = x :: rest) : Watched n (w.popped d env rest) := by
  have hsub : (w.popped d env rest).otherTimers.Sublist w.otherTimers := by
    rw [World.otherTimers, World.otherTimers, hlist]
    exact (List.sublist_cons_self x rest).filter _
  have hcount : checkTimers w.otherTimers =
      checkTimers (w.popped d env rest).otherTimers +
        if x.handler = .chkAgstatm then 1 else 0 := by
    rw [World.otherTimers, hlist, List.filter_cons]
    change _ = checkTimers (rest.filter _) + _
    by_cases hx : x.handler = .chkAgstatm
    · rw [if_pos hx, if_pos (by rw [hx]; rfl), checkTimers,
        List.countP_cons_of_pos (by simp [hx])]
      rfl
    · rw [if_neg hx]
      split
      · rw [checkTimers, List.countP_cons_of_neg (by simp [hx])]
        rfl
      · rfl
  refine ⟨fun y hy => ?_, ?_, fun y hy => ?_⟩
  · exact h.normal y (by rw [hlist]; exact List.mem_cons_of_mem _ hy)
  · have hchecks := h.checks
    omega
  · exact Nat.le_trans (h.horizon y (hsub.subset hy))
      (Nat.add_le_add_right (Nat.le_add_right _ _) _)

/-- A handler leaves as many checks as there were before its timer was taken
off: the check alone counts itself, and it alone registers one. -/
theorem Watched.handler {hdl : Handler} {n : Nat} (h : Watched n w) (he : HandlerEnd hdl w t) :
    Watched (n + if hdl = .chkAgstatm then 1 else 0) t := by
  cases hdl with
  | chkAgstatm => exact h.chk he
  | agHandleClttraffic c => exact h.traffic he
  | eloopSetPublish p =>
      have hlog : Watched n (w.publishing p) := ⟨h.normal, h.checks, h.horizon⟩
      cases he with
      | @queued r _ _ => exact hlog.still (.setClient _ _) rfl
      | @closed r _ _ _ hc =>
          have hset : Watched n ((w.publishing p).setClient p.conn r.2) :=
            hlog.still (.setClient _ _) rfl
          exact hset.closed hc
  | eloopSetExit => exact he.elim

theorem Watched.dispatch {d : Dispatch} (h : Watched 1 w) (hd : DispatchEnd w d t) :
    Watched 1 t := by
  cases hd with
  | idle n env _ => exact h.still (.silent rfl n rfl rfl rfl) rfl
  | @fired env n ns x rest _ _ hlist _ he =>
      by_cases hx : x.handler = .chkAgstatm
      · have hpop : Watched 0 (w.popped n { env with clocks := ns } rest) :=
          Watched.popped (by rwa [if_pos hx]) hlist
        have ht := hpop.handler he
        rwa [if_pos hx] at ht
      · have hpop : Watched 1 (w.popped n { env with clocks := ns } rest) :=
          Watched.popped (by rwa [if_neg hx]) hlist
        have ht := hpop.handler he
        rwa [if_neg hx] at ht
  | noReader => exact h.still (.silent rfl 0 rfl rfl rfl) rfl
  | @reader env _ _ _ hc =>
      have htick : Watched 1 (w.tick 0 env) := h.still (.silent rfl 0 rfl rfl rfl) rfl
      exact htick.control hc

theorem Watched.start (h : IsStart w) : Watched 1 w := by
  have hnormal := (InOrder.start h).normal
  obtain ⟨arg, agent, sock, clock, env, -, rfl⟩ := h
  refine ⟨hnormal, rfl, fun x hx => ?_⟩
  rw [List.mem_singleton.mp (List.mem_of_mem_filter hx)]
  simp only [dueUsec, toUsec_dueTime, Timeval.toUsec_ofUsec]
  change clock + 1 * 1000000 + 0 ≤ clock + smCheckT * 1000000
  simp only [smCheckT]
  omega

end Dispatches

/-! ## What a check does -/

/-- Between `w` and `t` a BIO has been created for `c`. -/
def Tried (c : Conn) (w t : World) : Prop :=
  ∃ new, t.trace = new ++ w.trace ∧ ∃ old b x, .bioNew c old b x ∈ new

/-- A check of the connections, from the call of `chk_agstatm` to its return.
The uploader is tried once the receiver is up. -/
structure Checked (w t : World) : Prop where
  recv : (w.conn .mqrecv).status = 0 → Tried .mqrecv w t
  upld : (t.conn .mqrecv).status ≠ 0 → (w.conn .mqupld).status = 0 → Tried .mqupld w t
  good : (∀ c, (t.conn c).status ≠ 0) → t.agent.agstatus = .isOk

section Checks

variable {c : Conn} {w t u : World} {P : Event → Prop}

theorem Tried.then (h : Tried c w u) (hlogs : World.Logs P u t) : Tried c w t := by
  obtain ⟨new, hu, old, b, x, hmem⟩ := h
  obtain ⟨new', ht, -⟩ := hlogs
  exact ⟨new' ++ new, by rw [ht, hu, List.append_assoc], old, b, x, List.mem_append_right _ hmem⟩

theorem Tried.after (hlogs : World.Logs P w u) (h : Tried c u t) : Tried c w t := by
  obtain ⟨new, hu, -⟩ := hlogs
  obtain ⟨new', ht, old, b, x, hmem⟩ := h
  exact ⟨new' ++ new, by rw [ht, hu, List.append_assoc], old, b, x, List.mem_append_left _ hmem⟩

theorem tried_connected (c : Conn) (w : World) (connfd : Nat) :
    Tried c w (w.connected c connfd) :=
  ⟨[.mqttInit c, .bioNew c (w.conn c).biofd w.bios w.ctxs, .sslCtxNew w.ctxs], rfl,
    (w.conn c).biofd, w.bios, w.ctxs, by simp⟩

theorem logs_registered (w : World) (secs usecs : Nat) (hdl : Handler) (d : Nat) (env : Env) :
    World.Logs (fun _ => True) w (w.registered secs usecs hdl d env) :=
  ⟨[.registerTimeout hdl], rfl, fun _ _ => trivial⟩

theorem ConnectEnd.tried {b : Bool} (h : ConnectEnd c w b t) : Tried c w t := by
  cases h with
  | refused _ =>
      exact ⟨[.sslCtxFree w.ctxs, .bioFreeAll w.bios,
        .bioNew c (w.conn c).biofd w.bios w.ctxs, .sslCtxNew w.ctxs], rfl,
        (w.conn c).biofd, w.bios, w.ctxs, by simp⟩
  | @failed connfd _ _ _ hr _ =>
      exact (tried_connected c w connfd).then ((frame_agSync c).of_ok hr).logs
  | @up connfd u d env _ hpath =>
      exact ((tried_connected c w connfd).then (SyncPath.frame hpath).logs).then
        (logs_registered (u.setConn c { u.conn c with status := 1 }) 0 mqttSynT
          (.agHandleClttraffic c) d env)

theorem ConnectEnd.status_down (h : ConnectEnd c w false t) :
    (t.conn c).status = (w.conn c).status := by
  cases h with
  | refused _ => rw [World.conn_refused_same]
  | failed _ hr _ =>
      exact ((frame_agSync c).of_ok hr).status.trans (conn_connected w c _).2.1

theorem RecvUp.tried (h : RecvUp w u) (h0 : (w.conn .mqrecv).status = 0) :
    Tried .mqrecv w u := by
  cases h with
  | already h => exact absurd h0 h
  | now _ hc => exact hc.tried

theorem RecvUp.other (h : RecvUp w u) : u.conn .mqupld = w.conn .mqupld := by
  cases h with
  | already _ => rfl
  | now _ hc => exact hc.other (by decide)

/-- The two checks, before the status is looked at. -/
theorem ChecksEnd.checked {b : Bool} (h : ChecksEnd w b t) :
    ((w.conn .mqrecv).status = 0 → Tried .mqrecv w t) ∧
    ((t.conn .mqrecv).status ≠ 0 → (w.conn .mqupld).status = 0 → Tried .mqupld w t) ∧
    ((∀ c, (t.conn c).status ≠ 0) → b = true) := by
  cases h with
  | recv h0 hc =>
      have hdown : (t.conn .mqrecv).status = 0 := hc.status_down.trans h0
      exact ⟨fun _ => hc.tried, fun hup => absurd hdown hup, fun hup => absurd hdown (hup .mqrecv)⟩
  | @upld u _ b _ hu h0 hc =>
      refine ⟨fun hrecv => (hu.tried hrecv).then hc.logged.logs,
        fun _ _ => .after hu.logged.logs hc.tried, fun hup => ?_⟩
      cases b with
      | true => rfl
      | false => exact absurd (hc.status_down.trans h0) (hup .mqupld)
  | both hu hup =>
      exact ⟨hu.tried, fun _ h0 => absurd (hu.other ▸ h0) hup, fun _ => rfl⟩

theorem ChkEnd.checked (h : ChkEnd w t) : Checked w t := by
  have hconn : ∀ (u : World) (tm : Tm) (env : Env) (d : Nat) (env' : Env) (c : Conn),
      (((u.checked tm env).registered smCheckT 0 .chkAgstatm d env').conn c) = u.conn c := by
    intro u tm env d env' c
    cases c <;> rfl
  cases h with
  | @down u d env hc =>
      obtain ⟨hrecv, hupld, hgood⟩ := hc.checked
      have hlogs := logs_registered u smCheckT 0 .chkAgstatm d env
      refine ⟨fun h0 => (hrecv h0).then hlogs, fun hup h0 => (hupld hup h0).then hlogs,
        fun hup => ?_⟩
      cases hgood hup
  | @good u tm env d env' _ hc =>
      obtain ⟨hrecv, hupld, -⟩ := hc.checked
      have hlogs := logs_registered (u.checked tm env) smCheckT 0 .chkAgstatm d env'
      refine ⟨fun h0 => (hrecv h0).then hlogs, fun hup h0 => ?_, fun _ => rfl⟩
      rw [hconn] at hup
      exact (hupld hup h0).then hlogs

end Checks

/-! ## Its turn comes -/

section Turns

variable {w t : World} {x : EloopTimeout Handler} {pre : List (EloopTimeout Handler)}

theorem InOrder.dispatch {d : Dispatch} (h : InOrder w) (hr : Admlink.dispatch d w = .ok () t) :
    InOrder t :=
  InOrder.run h (show (LoopOp.dispatch d).run w = .ok () t from hr)

/-- In the course of `ds`, from `w` to `t`, `chk_agstatm` runs and checks the
connections. -/
def ChecksOnWay (ds : List Dispatch) (w t : World) : Prop :=
  ∃ before d after u v, ds = before ++ d :: after ∧ exec Admlink.dispatch before w = .ok () u ∧
    dueHandler u d = some .chkAgstatm ∧ Admlink.dispatch d u = .ok () v ∧
    exec Admlink.dispatch after v = .ok () t ∧ Checked u v

theorem checksOnWay_exec (hx : x.handler = .chkAgstatm) :
    ∀ (ds : List Dispatch) (pre : List (EloopTimeout Handler)) {w t : World}, InOrder w →
      Waiting dueUsec pre x w.queue → pre.length < ds.countP Dispatch.checksTimers →
      exec Admlink.dispatch ds w = .ok () t → ChecksOnWay ds w t := by
  intro ds
  induction ds with
  | nil =>
      intro pre w t _ _ hlt _
      simp at hlt
  | cons d ds ih =>
      intro pre w t hw hwaiting hlt hr
      obtain ⟨_, v, hv, hrest⟩ := bind_ok hr
      have hends := dispatch_ends d w
      rw [hv] at hends
      rcases Waiting.dispatch hw hwaiting hends with
        ⟨hchk, n, env, rest, -, he⟩ | ⟨pre', hwait, hlen⟩
      · -- its turn: the check starts in a world with the connections and the trace of `w`
        rw [hx] at he hchk
        have hchecked := ChkEnd.checked he
        exact ⟨[], d, ds, w, v, rfl, rfl, hchk, hv, hrest,
          ⟨hchecked.recv, hchecked.upld, hchecked.good⟩⟩
      · have hlt' : pre'.length < ds.countP Dispatch.checksTimers := by
          rw [List.countP_cons] at hlt
          omega
        obtain ⟨before, d', after, u, v', rfl, hu, hchk, hd', ht, hchecked⟩ :=
          ih pre' (hw.dispatch hv) hwait hlt' hrest
        refine ⟨d :: before, d', after, u, v', rfl, ?_, hchk, hd', ht, hchecked⟩
        rw [exec, bind_of_ok hv]
        exact hu

end Turns

/-! ## Results -/

/-- The timer list is in the order of the due times, exactly one connection
check waits in it, and every timer is due within its own delay. -/
structure TimerList (w : World) : Prop where
  sorted : w.eloop.timeout.Pairwise fun a b => a.dueUsec ≤ b.dueUsec
  check : checkTimers w.eloop.timeout = 1
  ahead : ∀ x ∈ w.eloop.timeout, x.dueUsec ≤ w.clock + x.handler.delay

theorem between_inOrder {w : World} (h : Between Always w) : InOrder w :=
  h.invariant (fun _ => InOrder.start) fun _ _ _ hw _ hr => hw.dispatch hr

theorem between_watched {w : World} (h : Between Always w) : Watched 1 w := by
  refine h.invariant (fun _ => Watched.start) fun d s t hw _ hr => ?_
  have hends := dispatch_ends d s
  rw [hr] at hends
  exact hw.dispatch hends

theorem timer_list (w : World) (h : Between Always w) : TimerList w := by
  have horder := between_inOrder h
  have hwatched := between_watched h
  refine ⟨?_, ?_, fun x hx => ?_⟩
  · exact horder.fifo.sorted.imp fun hab => Nat.le_of_not_lt hab
  · rw [← hwatched.checks, checkTimers, checkTimers, World.otherTimers, List.countP_filter]
    refine List.countP_congr fun x _ => ?_
    cases hx : x.handler <;> simp [Handler.isPublish, Handler.setPublish?]
  · by_cases hp : x.handler.isPublish = true
    · cases hhdl : x.handler with
      | eloopSetPublish p =>
          have hsome : (x.setPublish?).isSome = true := by rw [setPublish?, hhdl]; rfl
          exact horder.fifo.bound x hx hsome
      | _ => rw [hhdl] at hp; cases hp
    · exact hwatched.horizon x (List.mem_filter.mpr ⟨hx, by simpa using hp⟩)

theorem timer_list_oneMessage : TimerList (runs oneMessage) :=
  timer_list _ (runs_between oneMessage (by decide +kernel))

/-- Once the check is due it runs within as many timer checks as there are
timers, whatever the control interface and the brokers do meanwhile. -/
def CheckComes (w : World) : Prop :=
  ∀ x ∈ w.eloop.timeout, x.handler = .chkAgstatm → x.dueUsec ≤ w.clock →
    ∀ ds t, w.eloop.timeout.length ≤ ds.countP Dispatch.checksTimers →
      exec Admlink.dispatch ds w = .ok () t → ChecksOnWay ds w t

theorem check_comes (w : World) (h : Between Always w) : CheckComes w := by
  intro x hx hchk hdue ds t hlen hr
  have horder := between_inOrder h
  obtain ⟨pre, post, hsplit⟩ := List.append_of_mem hx
  refine checksOnWay_exec hchk ds pre horder ⟨hdue, horder.fifo.sorted, post, hsplit⟩ ?_ hr
  rw [hsplit, List.length_append, List.length_cons] at hlen
  omega

/-- Both connections come up, and the next timer check is 31 seconds late. -/
def late : List Dispatch :=
  [.timeout (after 1000000 [.sent 22, .sent 31]), .timeout (after 31000000 [.sent 50])]

theorem late_between : Between Always (runs late) :=
  runs_between late (by decide +kernel)

/-- As many timer checks as there are timers then. -/
def threeChecks : List Dispatch := List.replicate 3 (.timeout (after 0 []))

theorem check_comes_late :
    ChecksOnWay threeChecks (runs late) (final (exec Admlink.dispatch threeChecks (runs late))) :=
  check_comes (runs late) late_between ⟨⟨31, 0⟩, .chkAgstatm⟩ (by decide +kernel) rfl
    (by decide +kernel) threeChecks _ (by decide +kernel)
    (exec_of_guarded (C := Always) threeChecks (by decide +kernel))

end Admlink
