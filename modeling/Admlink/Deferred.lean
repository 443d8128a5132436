import Admlink.Handlers
import Admlink.Lib.DelayQueue

/-!
# Deferred publishes are called once each and in order

The timer list of the loop is a delay queue: the payloads are the closures of
`set_mqtt_publish_nexsync`, and all of them are registered `MQTT_SYN_T` ahead.
Every handler is a path of that queue (`QueuePath`), so its first-in-first-out
rule holds of the daemon, whoever else registers timers.
-/

namespace Admlink

open Program Relation Runs

/-! ## The queue in the world -/

/-- The closures that have been asked for, oldest first. -/
def requested (trace : List Event) : List SetPublish :=
  (trace.filterMap fun
    | .request conn topic_name application_message publish_flags seqno =>
        some (mkSetPublish conn topic_name application_message publish_flags seqno)
    | _ => none).reverse

/-- The closures `mqtt_publish` has been called for, oldest first. -/
def published (trace : List Event) : List SetPublish :=
  (trace.filterMap fun
    | .publish p _ => some p
    | _ => none).reverse

/-- The arguments of a call of `mqtt_publish`, and whose client it is called on. -/
structure PublishCall where
  conn : Conn
  topic_name : Bytes
  application_message : Bytes
  publish_flags : Nat
deriving DecidableEq

/-- What `eloop_set_publish` calls `mqtt_publish` with. -/
def SetPublish.call (p : SetPublish) : PublishCall :=
  ⟨p.conn, p.topic_name.str, p.application_message, p.publish_flags⟩

/-- The calls of `mqtt_publish`, oldest first. -/
def publishCalls (trace : List Event) : List PublishCall := (published trace).map SetPublish.call

/-- The calls that have been asked for, oldest first: the topic is a string,
and so is the message as it was then, which goes out with its NUL. -/
def requestedCalls (trace : List Event) : List PublishCall :=
  (trace.filterMap fun
    | .request conn topic_name application_message publish_flags _ =>
        some ⟨conn, topic_name.str, cstr application_message ++ [Ch.nul], publish_flags⟩
    | _ => none).reverse

theorem map_call_requested (trace : List Event) :
    (requested trace).map SetPublish.call = requestedCalls trace := by
  rw [requested, requestedCalls, List.map_reverse, List.map_filterMap]
  congr 2
  funext e
  cases e <;> rfl

namespace EloopTimeout

def dueUsec (t : EloopTimeout Handler) : Nat := t.time.toUsec

def setPublish? (t : EloopTimeout Handler) : Option SetPublish := t.handler.setPublish?

end EloopTimeout

open EloopTimeout DelayQueue

namespace World

def queue (w : World) : State (EloopTimeout Handler) SetPublish :=
  ⟨w.eloop.timeout, w.clock, requested w.trace, published w.trace⟩

/-- The closures that wait in the timer list, in its order. -/
def pendingPublishes (w : World) : List SetPublish := w.eloop.timeout.filterMap setPublish?

/-- The calls they will make. -/
def pendingCalls (w : World) : List PublishCall := w.pendingPublishes.map SetPublish.call

def NormalTimes (w : World) : Prop := ∀ x ∈ w.eloop.timeout, x.time.Normal

end World

abbrev QueueSteps : State (EloopTimeout Handler) SetPublish →
    State (EloopTimeout Handler) SetPublish → Prop :=
  Steps dueUsec setPublish? mqttSynT

/-- `timercmp` orders the timers by the microsecond they are due. -/
theorem registerTimeout_eq_insert {w : World} (h : w.NormalTimes) (secs usecs : Nat)
    (hdl : Handler) :
    (w.schedule secs usecs hdl).eloop.timeout =
      StableQueue.insert (Earlier dueUsec) ⟨dueTime (.ofUsec w.clock) secs usecs, hdl⟩
        w.eloop.timeout :=
  StableQueue.insert_congr fun y hy =>
    Timeval.before_iff_toUsec (normal_dueTime _ _ _) (h y hy)

theorem normalTimes_schedule {w : World} (h : w.NormalTimes) (secs usecs : Nat) (hdl : Handler) :
    (w.schedule secs usecs hdl).NormalTimes := by
  intro x hx
  rcases StableQueue.mem_insert.mp hx with rfl | hx
  · exact normal_dueTime _ _ _
  · exact h x hx

/-! ## Handlers as paths of the queue -/

/-- From `w` to `t` timers are only added. -/
structure QueuePath (w t : World) : Prop where
  path : w.NormalTimes → t.NormalTimes ∧ QueueSteps w.queue t.queue

namespace QueuePath

variable {c : Conn} {w t u : World}

theorem refl (w : World) : QueuePath w w := ⟨fun h => ⟨h, .refl⟩⟩

theorem trans (h : QueuePath w t) (h' : QueuePath t u) : QueuePath w u := by
  refine ⟨fun hw => ?_⟩
  obtain ⟨ht, hs⟩ := h.path hw
  obtain ⟨hu, hs'⟩ := h'.path ht
  exact ⟨hu, hs.trans hs'⟩

/-- Nothing happens to the queue, but time may pass. -/
theorem silent (hqueue : t.eloop.timeout = w.eloop.timeout) (d : Nat)
    (hclock : t.clock = w.clock + d) (hreq : requested t.trace = requested w.trace)
    (hpub : published t.trace = published w.trace) : QueuePath w t := by
  refine ⟨fun hw => ⟨fun x hx => hw x (hqueue ▸ hx), ?_⟩⟩
  have ht : t.queue = { w.queue with clock := w.queue.clock + d } := by
    simp only [World.queue, hqueue, hclock, hreq, hpub]
  rw [ht]
  exact .single (.wait d)

theorem schedule {hdl : Handler} (hhdl : hdl.setPublish? = none) (w : World) (secs usecs : Nat) :
    QueuePath w (w.schedule secs usecs hdl) := by
  refine ⟨fun hw => ⟨normalTimes_schedule hw _ _ _, ?_⟩⟩
  have ht : (w.schedule secs usecs hdl).queue = { w.queue with
      queue := StableQueue.insert (Earlier dueUsec)
        ⟨dueTime (.ofUsec w.clock) secs usecs, hdl⟩ w.queue.queue } := by
    rw [World.queue, registerTimeout_eq_insert hw]
    rfl
  rw [ht]
  refine .single (.register hhdl ?_)
  simp only [dueUsec, toUsec_dueTime, Timeval.toUsec_ofUsec, World.queue]
  omega

theorem registered {hdl : Handler} (hhdl : hdl.setPublish? = none) (w : World)
    (secs usecs d : Nat) (env : Env) : QueuePath w (w.registered secs usecs hdl d env) :=
  (silent rfl d rfl rfl rfl : QueuePath w ((w.log (.registerTimeout hdl)).tick d env)).trans
    (schedule hhdl _ secs usecs)

/-- A call of `set_mqtt_publish_nexsync`. -/
theorem request (w : World) (conn : Conn) (topic_name : Field 128) (application_message : Bytes)
    (publish_flags d : Nat) (env : Env) :
    QueuePath w (w.request conn topic_name application_message publish_flags d env) := by
  refine ⟨fun hw => ?_⟩
  let p := mkSetPublish conn topic_name application_message publish_flags w.requests
  let asked := (w.ask conn topic_name application_message publish_flags).tick d env
  have hnormal : asked.NormalTimes := hw
  refine ⟨normalTimes_schedule hnormal _ _ _, ?_⟩
  have hreq : requested (asked.schedule 0 mqttSynT (.eloopSetPublish p)).trace =
      requested w.trace ++ [p] := List.reverse_cons
  have ht : (w.request conn topic_name application_message publish_flags d env).queue =
      { w.queue with
        clock := w.queue.clock + d
        queue := StableQueue.insert (Earlier dueUsec)
          ⟨dueTime (.ofUsec (w.clock + d)) 0 mqttSynT, .eloopSetPublish p⟩ w.queue.queue
        asked := w.queue.asked ++ [p] } := by
    change (asked.schedule 0 mqttSynT (.eloopSetPublish p)).queue = _
    rw [World.queue, registerTimeout_eq_insert hnormal, hreq]
    rfl
  rw [ht]
  have hwait : QueueSteps w.queue { w.queue with clock := w.queue.clock + d } := .single (.wait d)
  refine hwait.tail (.ask rfl ?_)
  simp only [dueUsec, toUsec_dueTime, Timeval.toUsec_ofUsec, World.queue]
  omega

theorem setClient (w : World) (cl : Client) : QueuePath w (w.setClient c cl) :=
  silent rfl 0 rfl rfl rfl

end QueuePath

theorem MsgStep.queuePath {upload : Bool} {w t : World} (h : MsgStep upload w t) :
    QueuePath w t := by
  cases h with
  | processRc rcid => exact .silent rfl 0 rfl rfl rfl
  | report topic_name application_message d env => exact .request w ..
  | event topic_name application_message d env _ _ => exact .request w ..
  | strftime _ => exact .silent rfl 0 rfl rfl rfl
  | reboot => exact .silent rfl 0 rfl rfl rfl

theorem MsgPath.queuePath {upload : Bool} {w t : World} (h : MsgPath upload w t) :
    QueuePath w t := by
  induction h with
  | refl => exact .refl _
  | tail _ hs ih => exact ih.trans hs.queuePath

theorem SyncStep.queuePath {c : Conn} {w t : World} (h : SyncStep c w t) : QueuePath w t := by
  cases h with
  | env env => exact .silent rfl 0 rfl rfl rfl
  | io => exact .silent rfl 0 rfl rfl rfl
  | client _ => exact .setClient w _
  | packet r => exact .silent rfl 0 rfl rfl rfl
  | @deliver app_msg _ hr =>
      have hlog : QueuePath w (w.log (.deliver c app_msg)) := .silent rfl 0 rfl rfl rfl
      exact hlog.trans (MsgPath.queuePath ((path_admlinkMsgHandle app_msg).of_ok hr))

theorem SyncPath.queuePath {c : Conn} {w t : World} (h : SyncPath c w t) : QueuePath w t := by
  induction h with
  | refl => exact .refl _
  | tail _ hs ih => exact ih.trans hs.queuePath

section Handlers

variable {c : Conn} {w t u : World}

theorem queuePath_agSync {e : MqttErrors} (h : agSync c w = .ok e t) : QueuePath w t :=
  SyncPath.queuePath ((path_agSync c).of_ok h)

theorem Closed.queuePath (h : Closed c w t) : QueuePath w t := by
  cases h with
  | reset _ => exact .silent rfl 0 rfl rfl rfl
  | released _ hpath _ => exact (SyncPath.queuePath hpath).trans (.silent rfl 0 rfl rfl rfl)

theorem ConnectEnd.queuePath {b : Bool} (h : ConnectEnd c w b t) : QueuePath w t := by
  have hconnected : ∀ connfd, QueuePath w (w.connected c connfd) := fun _ =>
    .silent rfl 0 rfl rfl rfl
  cases h with
  | refused _ => exact .silent rfl 0 rfl rfl rfl
  | failed _ hr _ => exact (hconnected _).trans (queuePath_agSync hr)
  | @up connfd u d env _ hpath =>
      have hu : QueuePath u (u.setConn c { u.conn c with status := 1 }) :=
        .silent rfl 0 rfl rfl rfl
      exact ((hconnected _).trans (SyncPath.queuePath hpath)).trans
        (hu.trans (.registered rfl _ 0 mqttSynT d env))

theorem RecvUp.queuePath (h : RecvUp w u) : QueuePath w u := by
  cases h with
  | already _ => exact .refl _
  | now _ hc => exact hc.queuePath

theorem ChecksEnd.queuePath {b : Bool} (h : ChecksEnd w b t) : QueuePath w t := by
  cases h with
  | recv _ hc => exact hc.queuePath
  | upld _ hu _ hc => exact hu.queuePath.trans hc.queuePath
  | both hu _ => exact hu.queuePath

theorem ChkEnd.queuePath (h : ChkEnd w t) : QueuePath w t := by
  cases h with
  | down d env hc => exact hc.queuePath.trans (.registered rfl ..)
  | @good u tm env d env' _ hc =>
      have hu : QueuePath u (u.checked tm env) := .silent rfl 0 rfl rfl rfl
      exact (hc.queuePath.trans hu).trans (.registered rfl ..)

theorem TrafficEnd.queuePath (h : TrafficEnd c w t) : QueuePath w t := by
  cases h with
  | again d env hr => exact (queuePath_agSync hr).trans (.registered rfl ..)
  | closed hr _ hc => exact (queuePath_agSync hr).trans hc.queuePath

/-- After `mqtt_publish` has been called. -/
theorem PublishEnd.queuePath {p : SetPublish} (h : PublishEnd p w t) :
    QueuePath (w.publishing p) t := by
  cases h with
  | queued _ _ => exact .setClient _ _
  | closed _ _ hc => exact (QueuePath.setClient _ _).trans hc.queuePath

/-- The trace then has one more call. -/
theorem PublishEnd.published_eq {p : SetPublish} (hw : w.NormalTimes) (h : PublishEnd p w t) :
    published t.trace = published w.trace ++ [p] := by
  have hcalled : published t.trace = published (w.publishing p).trace :=
    called_steps (h.queuePath.path hw).2
  rw [hcalled]
  exact List.reverse_cons

theorem CommandEnd.queuePath {hdl : Option CmdHdl} (h : CommandEnd w hdl t) : QueuePath w t := by
  cases h with
  | unknown => exact .refl _
  | stop d env => exact .registered rfl ..
  | sendtest msg d env =>
      have hlog : QueuePath w (w.log (.strftime w.agent.tinfo)) := .silent rfl 0 rfl rfl rfl
      exact hlog.trans (.request ..)

theorem ControlEnd.queuePath {dgram : Option Bytes} (h : ControlEnd w dgram t) :
    QueuePath w t := by
  cases h with
  | silent => exact .refl _
  | gated _ => exact .silent rfl 0 rfl rfl rfl
  | handled tm env reply _ _ hc =>
      have hhandling : ∀ buf, QueuePath w (w.handling buf tm env) := fun _ =>
        .silent rfl 0 rfl rfl rfl
      exact ((hhandling _).trans hc.queuePath).trans (.silent rfl 0 rfl rfl rfl)

/-! ## Dispatches and turns of the queue -/

/-- Time passes, the first timer is taken off, and its handler adds timers. -/
def QueueTurn (w t : World) : Prop :=
  w.NormalTimes → t.NormalTimes ∧ ∃ s s', QueueSteps w.queue s ∧ Pop setPublish? s s' ∧
    QueueSteps s' t.queue

theorem queueTurn_fired {n : Nat} {env : Env} {x : EloopTimeout Handler}
    {rest : List (EloopTimeout Handler)} (hlist : w.eloop.timeout = x :: rest)
    (he : HandlerEnd x.handler (w.popped n env rest) t) : QueueTurn w t := by
  intro hw
  have hwait : QueueSteps w.queue (w.tick n env).queue := .single (.wait n)
  have hnormal : (w.popped n env rest).NormalTimes := fun y hy =>
    hw y (by rw [hlist]; exact List.mem_cons_of_mem _ hy)
  -- `v` is where the timer counts as called: for a publish, once that is logged
  have hpop : ∀ v : World, v.eloop.timeout = rest → v.clock = w.clock + n →
      requested v.trace = requested w.trace →
      published v.trace = published w.trace ++ x.setPublish?.toList →
      Pop setPublish? (w.tick n env).queue v.queue := by
    intro v hrest hclock hreq hpub
    have hv : v.queue = { (w.tick n env).queue with
        queue := rest, called := published w.trace ++ x.setPublish?.toList } := by
      rw [World.queue, hrest, hclock, hreq, hpub]
      rfl
    rw [hv]
    exact .pop hlist
  cases hx : x.handler with
  | eloopSetPublish p =>
      rw [hx] at he
      obtain ⟨ht, hs⟩ := (PublishEnd.queuePath he).path hnormal
      refine ⟨ht, _, _, hwait, hpop ((w.popped n env rest).publishing p) rfl rfl rfl ?_, hs⟩
      rw [setPublish?, hx]
      exact List.reverse_cons
  | chkAgstatm =>
      rw [hx] at he
      obtain ⟨ht, hs⟩ := (ChkEnd.queuePath he).path hnormal
      refine ⟨ht, _, _, hwait, hpop (w.popped n env rest) rfl rfl rfl ?_, hs⟩
      rw [setPublish?, hx]
      exact (List.append_nil _).symm
  | agHandleClttraffic c =>
      rw [hx] at he
      obtain ⟨ht, hs⟩ := (TrafficEnd.queuePath he).path hnormal
      refine ⟨ht, _, _, hwait, hpop (w.popped n env rest) rfl rfl rfl ?_, hs⟩
      rw [setPublish?, hx]
      exact (List.append_nil _).symm
  | eloopSetExit =>
      rw [hx] at he
      exact he.elim

/-- A dispatch turns the queue or only adds to it. -/
theorem DispatchEnd.queue {d : Dispatch} (h : DispatchEnd w d t) :
    QueueTurn w t ∨ QueuePath w t := by
  cases h with
  | idle n env _ => exact .inr (.silent rfl n rfl rfl rfl)
  | fired _ hlist _ he => exact .inl (queueTurn_fired hlist he)
  | noReader => exact .inr (.silent rfl 0 rfl rfl rfl)
  | @reader env _ _ _ hc =>
      have htick : QueuePath w (w.tick 0 env) := .silent rfl 0 rfl rfl rfl
      exact .inr (htick.trans hc.queuePath)

end Handlers

/-! ## Any mix of requests, registrations and dispatches -/

/-- A dispatch of the timer part of `eloop_run`. -/
def Dispatch.checksTimers : Dispatch → Bool
  | .timeout _ => true
  | _ => false

/-- What can be done to the loop. -/
inductive LoopOp
  | request (env : Env) (conn : Conn) (topic_name : Field 128) (application_message : Bytes)
      (publish_flags : Nat)
  | register (env : Env) (secs usecs : Nat) (hdl : { hdl : Handler // hdl.setPublish? = none })
  | dispatch (d : Dispatch)

namespace LoopOp

def run : LoopOp → Prog Unit
  | request env conn topic_name application_message publish_flags =>
      withEnv env
        (setMqttPublishNexsync conn topic_name application_message publish_flags)
  | register env secs usecs hdl => withEnv env (registerTimeout secs usecs hdl.1)
  | dispatch d => Admlink.dispatch d

def checksTimers : LoopOp → Bool
  | dispatch d => d.checksTimers
  | _ => false

end LoopOp

section Loop

variable {op : LoopOp} {w t : World}

theorem queuePath_request {env : Env} {conn : Conn} {topic_name : Field 128}
    {application_message : Bytes} {publish_flags : Nat}
    (h : (LoopOp.request env conn topic_name application_message publish_flags).run w =
      .ok () t) : QueuePath w t := by
  have hends := setMqttPublishNexsync_ends conn topic_name application_message publish_flags
    (w.tick 0 env)
  rw [show setMqttPublishNexsync conn topic_name application_message publish_flags
    (w.tick 0 env) = .ok () t from h] at hends
  obtain ⟨d, env', rfl⟩ := hends
  have htick : QueuePath w (w.tick 0 env) := .silent rfl 0 rfl rfl rfl
  exact htick.trans (.request ..)

theorem queuePath_register {env : Env} {secs usecs : Nat}
    {hdl : { hdl : Handler // hdl.setPublish? = none }}
    (h : (LoopOp.register env secs usecs hdl).run w = .ok () t) : QueuePath w t := by
  have hends := registerTimeout_registered secs usecs hdl.1 (w.tick 0 env)
  rw [show registerTimeout secs usecs hdl.1 (w.tick 0 env) = .ok () t from h] at hends
  obtain ⟨d, env', rfl⟩ := hends
  have htick : QueuePath w (w.tick 0 env) := .silent rfl 0 rfl rfl rfl
  exact htick.trans (.registered hdl.2 ..)

theorem queue_run (h : op.run w = .ok () t) : QueueTurn w t ∨ QueuePath w t := by
  cases op with
  | request => exact .inr (queuePath_request h)
  | register => exact .inr (queuePath_register h)
  | dispatch d =>
      have hends := dispatch_ends d w
      rw [show Admlink.dispatch d w = .ok () t from h] at hends
      exact hends.queue

/-- The invariant: times are normal, and the timer list is a delay queue that
has kept its order. -/
structure InOrder (w : World) : Prop where
  normal : w.NormalTimes
  fifo : Fifo dueUsec setPublish? mqttSynT w.queue

theorem InOrder.run (h : InOrder w) (hr : op.run w = .ok () t) : InOrder t := by
  rcases queue_run hr with hturn | hpath
  · obtain ⟨ht, s, s', hs, hpop, hs'⟩ := hturn h.normal
    exact ⟨ht, ((h.fifo.steps hs).pop hpop).steps hs'⟩
  · obtain ⟨ht, hs⟩ := hpath.path h.normal
    exact ⟨ht, h.fifo.steps hs⟩

theorem InOrder.start (h : IsStart w) : InOrder w := by
  obtain ⟨arg, agent, sock, clock, env, -, rfl⟩ := h
  refine ⟨fun x hx => ?_, List.pairwise_singleton _ _, fun x hx hp => ?_, rfl⟩
  · rw [List.mem_singleton.mp hx]
    exact normal_dueTime _ _ _
  · rw [List.mem_singleton.mp hx] at hp
    cases hp

/-- States between two operations of the loop. -/
abbrev LoopReaches : World → Prop := Reaches LoopOp.run IsStart Always

theorem inOrder_reaches (h : LoopReaches w) : InOrder w :=
  h.invariant (fun _ => InOrder.start) fun _ _ _ hs _ hr => hs.run hr

/-- A published closure stays published. -/
theorem published_run {p : SetPublish} (h : InOrder w) (hr : op.run w = .ok () t)
    (hp : p ∈ published w.trace) : p ∈ published t.trace := by
  have hcalled : p ∈ w.queue.called := hp
  change p ∈ t.queue.called
  rcases queue_run hr with hturn | hpath
  · obtain ⟨-, s, s', hs, ⟨hq⟩, hs'⟩ := hturn h.normal
    rw [called_steps hs']
    simp only [List.mem_append]
    rw [called_steps hs]
    exact .inl hcalled
  · obtain ⟨-, hs⟩ := hpath.path h.normal
    rwa [called_steps hs]

theorem published_exec_of_published {p : SetPublish} : ∀ (ops : List LoopOp) {w t : World},
    InOrder w → p ∈ published w.trace → exec LoopOp.run ops w = .ok () t →
    p ∈ published t.trace := by
  intro ops
  induction ops with
  | nil =>
      intro w t _ hp hr
      simp only [exec, pure_apply, EStateM.Result.ok.injEq] at hr
      rwa [← hr.2]
  | cons op ops ih =>
      intro w t hw hp hr
      obtain ⟨_, u, hu, hrest⟩ := bind_ok hr
      exact ih (hw.run hu) (published_run hw hu hp) hrest

variable {x : EloopTimeout Handler} {pre : List (EloopTimeout Handler)}

/-- With a timer waiting whose moment has come, a timer check finds one due. -/
theorem popDue_ne_none (hnormal : w.NormalTimes) (hwaiting : Waiting dueUsec pre x w.queue)
    (n : Nat) : eloopPopDue (.ofUsec (w.clock + n)) w.eloop.timeout ≠ none := by
  obtain ⟨y, rest, hlist, hdue⟩ := hwaiting.head_due
  change w.eloop.timeout = y :: rest at hlist
  have hle : y.time.toUsec ≤ w.clock := hdue
  have hnot : ¬ (Timeval.ofUsec (w.clock + n)).Before y.time := by
    rw [Timeval.before_iff_toUsec (Timeval.normal_ofUsec _) (hnormal y (by simp [hlist])),
      Timeval.toUsec_ofUsec]
    omega
  rw [hlist, eloopPopDue, if_neg hnot]
  simp

/-- In one dispatch a timer that is due runs, or waits on behind no more timers
than before; a timer check takes one of those before it. -/
theorem Waiting.dispatch {d : Dispatch} (hw : InOrder w) (hwaiting : Waiting dueUsec pre x w.queue)
    (hd : DispatchEnd w d t) :
    (dueHandler w d = some x.handler ∧
      ∃ n env rest, (w.popped n env rest).NormalTimes ∧
        HandlerEnd x.handler (w.popped n env rest) t) ∨
      ∃ pre', Waiting dueUsec pre' x t.queue ∧
        pre'.length + (if d.checksTimers then 1 else 0) ≤ pre.length := by
  have hpath : QueuePath w t → Waiting dueUsec pre x t.queue := fun h =>
    hwaiting.steps (h.path hw.normal).2
  cases hd with
  | idle n env hidle => exact absurd hidle (popDue_ne_none hw.normal hwaiting n)
  | @fired env n ns y rest _ hclocks hlist hdue he =>
      obtain ⟨post, hsplit⟩ := hwaiting.split
      change w.eloop.timeout = _ at hsplit
      cases pre with
      | nil =>
          -- `x` is in front
          obtain ⟨rfl, -⟩ := List.cons.inj (hlist.symm.trans hsplit)
          have hnormal : ∀ env, (w.popped n env rest).NormalTimes := fun _ y hy =>
            hw.normal y (by rw [hlist]; exact List.mem_cons_of_mem _ hy)
          exact .inl ⟨dueHandler_eq hclocks hlist hdue, n, _, rest, hnormal _, he⟩
      | cons z pre' =>
          -- the timer in front goes, and what its handler registers comes behind `x`
          obtain ⟨-, s, s', hs, hpop, hs'⟩ := queueTurn_fired hlist he hw.normal
          rcases (hwaiting.steps hs).pop hpop with ⟨hnil, -⟩ | ⟨y', pre'', hpre, hwait⟩
          · cases hnil
          · obtain ⟨rfl, rfl⟩ := List.cons.inj hpre
            exact .inr ⟨pre', hwait.steps hs', Nat.le_refl _⟩
  | noReader => exact .inr ⟨pre, hpath (.silent rfl 0 rfl rfl rfl), Nat.le_refl _⟩
  | @reader env _ _ _ hc =>
      -- a command registers timers at most
      have htick : QueuePath w (w.tick 0 env) := .silent rfl 0 rfl rfl rfl
      exact .inr ⟨pre, hpath (htick.trans hc.queuePath), Nat.le_refl _⟩

/-- So it is with any operation: what is no dispatch only adds timers. -/
theorem Waiting.run (hw : InOrder w) (hwaiting : Waiting dueUsec pre x w.queue)
    (hr : op.run w = .ok () t) :
    (∃ n env rest, (w.popped n env rest).NormalTimes ∧
        HandlerEnd x.handler (w.popped n env rest) t) ∨
      ∃ pre', Waiting dueUsec pre' x t.queue ∧
        pre'.length + (if op.checksTimers then 1 else 0) ≤ pre.length := by
  cases op with
  | request env conn topic_name application_message publish_flags =>
      have hpath := queuePath_request hr
      exact .inr ⟨pre, hwaiting.steps (hpath.path hw.normal).2, Nat.le_refl _⟩
  | register env secs usecs hdl =>
      have hpath := queuePath_register hr
      exact .inr ⟨pre, hwaiting.steps (hpath.path hw.normal).2, Nat.le_refl _⟩
  | dispatch d =>
      have hends := dispatch_ends d w
      rw [show Admlink.dispatch d w = .ok () t from hr] at hends
      exact (Waiting.dispatch hw hwaiting hends).imp_left And.right

/-- Each timer check brings a closure that is due one place forward, and
nothing else moves it back: after as many checks as there are timers before it
and itself it has been published. -/
theorem published_exec {p : SetPublish} (hx : x.handler = .eloopSetPublish p) :
    ∀ (ops : List LoopOp) (pre : List (EloopTimeout Handler)) {w t : World}, InOrder w →
      Waiting dueUsec pre x w.queue → pre.length < ops.countP LoopOp.checksTimers →
      exec LoopOp.run ops w = .ok () t → p ∈ published t.trace := by
  intro ops
  induction ops with
  | nil =>
      intro pre w t _ _ hlt _
      simp at hlt
  | cons op ops ih =>
      intro pre w t hw hwaiting hlt hr
      obtain ⟨_, u, hu, hrest⟩ := bind_ok hr
      rcases Waiting.run hw hwaiting hu with
        ⟨n, env, rest, hnormal, he⟩ | ⟨pre', hwait, hlen⟩
      · rw [hx] at he
        refine published_exec_of_published ops (hw.run hu) ?_ hrest
        rw [PublishEnd.published_eq hnormal he]
        simp
      · have hlt' : pre'.length < ops.countP LoopOp.checksTimers := by
          rw [List.countP_cons] at hlt
          omega
        exact ih pre' (hw.run hu) hwait hlt' hrest

end Loop

/-! ## What is asked for, what is called -/

/-- From `w` to `t` there was one call of `mqtt_publish` or none, and it was made
on the client that `w` has for the connection. What it accepted is what is left. -/
def Called (w t : World) : Prop :=
  publishCalls t.trace = publishCalls w.trace ∨
    ∃ call seqno r, publishCalls t.trace = publishCalls w.trace ++ [call] ∧
      mqttPublish (w.conn call.conn).mqclt call.topic_name call.application_message
        call.publish_flags seqno = .ok r ∧
      (r.2.error = .ok → (t.conn call.conn).mqclt = r.2)

theorem Called.of_path {w t : World} (hw : w.NormalTimes) (h : QueuePath w t) : Called w t := by
  have hcalled : published t.trace = published w.trace := called_steps (h.path hw).2
  exact .inl (by rw [publishCalls, hcalled, publishCalls])

theorem PublishEnd.called {p : SetPublish} {w t : World} (hw : w.NormalTimes)
    (h : PublishEnd p w t) : Called w t := by
  have hcalls : publishCalls t.trace = publishCalls w.trace ++ [p.call] := by
    rw [publishCalls, h.published_eq hw, List.map_append]
    rfl
  refine .inr ⟨p.call, some p.seqno, ?_⟩
  cases h with
  | queued hr _ => exact ⟨_, hcalls, hr, fun _ => by simp [SetPublish.call]⟩
  | closed hr he _ => exact ⟨_, hcalls, hr, fun herror => absurd herror he⟩

theorem HandlerEnd.called {hdl : Handler} {w t : World} (hw : w.NormalTimes)
    (h : HandlerEnd hdl w t) : Called w t := by
  cases hdl with
  | chkAgstatm => exact .of_path hw (ChkEnd.queuePath h)
  | agHandleClttraffic c => exact .of_path hw (TrafficEnd.queuePath h)
  | eloopSetPublish p => exact PublishEnd.called hw h
  | eloopSetExit => exact h.elim

theorem DispatchEnd.called {d : Dispatch} {w t : World} (hw : w.NormalTimes)
    (h : DispatchEnd w d t) : Called w t := by
  cases h with
  | idle n env _ => exact .inl rfl
  | @fired env n ds x rest _ _ hlist _ he =>
      have hnormal : (w.popped n { env with clocks := ds } rest).NormalTimes := fun y hy =>
        hw y (by rw [hlist]; exact List.mem_cons_of_mem _ hy)
      have hcalled : Called (w.popped n { env with clocks := ds } rest) t := he.called hnormal
      exact hcalled
  | noReader => exact .inl rfl
  | @reader env _ _ _ hc =>
      exact Called.of_path (w := w.tick 0 env) hw hc.queuePath

/-- A call of `set_mqtt_publish_nexsync` asks for the call it describes. -/
theorem requestedCalls_request {conn : Conn} {topic_name : Field 128} {application_message : Bytes}
    {publish_flags : Nat} {w t : World}
    (h : setMqttPublishNexsync conn topic_name application_message publish_flags w = .ok () t) :
    requestedCalls t.trace = requestedCalls w.trace ++
      [⟨conn, topic_name.str, cstr application_message ++ [Ch.nul], publish_flags⟩] := by
  have hends := setMqttPublishNexsync_ends conn topic_name application_message publish_flags w
  rw [h] at hends
  obtain ⟨d, env, rfl⟩ := hends
  exact List.reverse_cons

/-! ## Result -/

/-- The calls of `mqtt_publish` are the requested ones, in order, up to those
that still wait in the timer list. A request whose time has come is called
within as many timer checks as there are timers. -/
structure PublishesInOrder (w : World) : Prop where
  order : publishCalls w.trace ++ w.pendingCalls = requestedCalls w.trace
  called : ∀ d t, dispatch d w = .ok () t → Called w t
  asked : ∀ conn topic_name application_message publish_flags t,
    setMqttPublishNexsync conn topic_name application_message publish_flags w = .ok () t →
    requestedCalls t.trace = requestedCalls w.trace ++
      [⟨conn, topic_name.str, cstr application_message ++ [Ch.nul], publish_flags⟩]
  progress : ∀ x ∈ w.eloop.timeout, ∀ p, x.handler = .eloopSetPublish p →
    x.time.toUsec ≤ w.clock →
    ∀ ops t, w.eloop.timeout.length ≤ ops.countP LoopOp.checksTimers →
      exec LoopOp.run ops w = .ok () t → p ∈ published t.trace

/-- Deferred publishes are called once each, in order, as they were asked for. -/
theorem publishes_in_order (w : World) (h : LoopReaches w) : PublishesInOrder w := by
  have hw := inOrder_reaches h
  refine ⟨?_, fun d t hr => ?_, fun _ _ _ _ _ hr => requestedCalls_request hr,
    fun x hx p hp hdue ops t hlen hr => ?_⟩
  · have horder : published w.trace ++ w.pendingPublishes = requested w.trace := hw.fifo.order
    rw [← map_call_requested, ← horder, List.map_append]
    rfl
  · have hends := dispatch_ends d w
    rw [hr] at hends
    exact hends.called hw.normal
  · obtain ⟨pre, post, hsplit⟩ := List.append_of_mem hx
    refine published_exec hp ops _ hw ⟨hdue, hw.fifo.sorted, post, hsplit⟩ ?_ hr
    rw [hsplit, List.length_append, List.length_cons] at hlen
    omega

/-- Both connections come up, one message is requested, and 200 ms pass. -/
def oneRequest : List LoopOp :=
  [.dispatch (.timeout (after 1000000 [.sent 22, .sent 31])),
    .request quiet .mqupld (boot.conn .mqupld).topicsend (bytes "hello") publishQos1,
    .dispatch (.timeout (after 200000 [.sent 50]))]

def afterOneRequest : World := final (exec LoopOp.run oneRequest boot)

/-- As many timer checks as there are timers then. -/
def fourChecks : List LoopOp := List.replicate 4 (.dispatch (.timeout (after 0 [])))

theorem publishes_in_order_oneRequest :
    PublishesInOrder afterOneRequest ∧
    (requestedCalls afterOneRequest.trace).head? =
      some ⟨.mqupld, (boot.conn .mqupld).topicsend.str, bytes "hello" ++ [0], publishQos1⟩ ∧
    mkSetPublish .mqupld (boot.conn .mqupld).topicsend (bytes "hello") publishQos1 0 ∈
      published (final (exec LoopOp.run fourChecks afterOneRequest)).trace := by
  have hreach : LoopReaches afterOneRequest :=
    Reaches.guarded oneRequest (.start boot_isStart) (by decide +kernel)
  have h := publishes_in_order afterOneRequest hreach
  have hx : ⟨⟨1, 200000⟩, .eloopSetPublish (mkSetPublish .mqupld (boot.conn .mqupld).topicsend
      (bytes "hello") publishQos1 0)⟩ ∈ afterOneRequest.eloop.timeout := by decide +kernel
  exact ⟨h, by decide +kernel, h.progress _ hx _ rfl (by decide +kernel) fourChecks _
    (by decide +kernel) (exec_of_guarded (C := Always) fourChecks (by decide +kernel))⟩

end Admlink
