import Mathlib.Data.List.InsertIdx
import Admlink.Bios
import Admlink.Reports
import Admlink.Signals
import Admlink.Timers

/-!
# Every run of the daemon, step by step

The functions of `Admlink.Signals` are those of the daemon once more, cut into
the steps that a signal may come between. Where here the answers of the outside
world decide, a call there may go either way. So the steps can do what a dispatch
does (`dispatch_leads`), and every world between two dispatches is seen in a
memory that the steps of `main` lead to without a signal (`between_reached`).
-/

namespace Admlink.Signals

open Program Interrupt Code Relation Runs

/-! ## What both have -/

/-- The handler a timer is registered with. -/
def Timer.of : Handler → Timer
  | .chkAgstatm => .chkAgstatm
  | .agHandleClttraffic p => .agHandleClttraffic p
  | .eloopSetPublish p => .eloopSetPublish p.conn
  | .eloopSetExit => .eloopSetExit

/-- What a `Mem` and a `World` both keep. -/
structure View where
  status : Conn → Nat
  biofd : Conn → Option BioId
  bios : Nat
  freed : List BioId
  timeout : List Timer

def Resource.bio? : Resource → Option BioId
  | .bio b => some b
  | _ => none

def Mem.view (m : Mem) : View :=
  { status := m.status, biofd := m.biofd, bios := m.bios
    freed := m.released.filterMap Resource.bio?, timeout := m.timeout.map (·.2) }

def view (w : World) : View :=
  { status := fun c => (w.conn c).status, biofd := fun c => (w.conn c).biofd, bios := w.bios
    freed := freedBios w.trace, timeout := w.eloop.timeout.map (Timer.of ·.handler) }

/-- `m` sees `w`, and no mutex is locked but the one of `held`. -/
structure Sees (held : Option Conn) (w : World) (m : Mem) : Prop where
  view : m.view = view w
  mutex : ∀ c, m.mutex c = decide (held = some c)

section Sees

variable {held : Option Conn} {w t : World} {m : Mem}

theorem Sees.of_view (h : Sees held w m) (ht : Signals.view t = Signals.view w) :
    Sees held t m :=
  ⟨h.view.trans ht.symm, h.mutex⟩

theorem Sees.status (h : Sees held w m) (c : Conn) : m.status c = (w.conn c).status :=
  congrFun (congrArg View.status h.view) c

theorem Sees.biofd (h : Sees held w m) (c : Conn) : m.biofd c = (w.conn c).biofd :=
  congrFun (congrArg View.biofd h.view) c

theorem Sees.bios (h : Sees held w m) : m.bios = w.bios := congrArg View.bios h.view

theorem Sees.timeout (h : Sees held w m) :
    m.timeout.map (·.2) = w.eloop.timeout.map (Timer.of ·.handler) :=
  congrArg View.timeout h.view

end Sees

/-! ## Worlds that look alike -/

section View

variable {held : Option Conn} {w : World} {m : Mem}

theorem view_setConn (w : World) (c : Conn) (p : MqConn) :
    view (w.setConn c p) =
      { view w with
          status := Function.update (view w).status c p.status
          biofd := Function.update (view w).biofd c p.biofd } := by
  have hconn : ∀ {α : Type} (f : MqConn → α), (fun d => f ((w.setConn c p).conn d)) =
      Function.update (fun d => f (w.conn d)) c (f p) := by
    intro α f
    funext d
    by_cases hd : d = c
    · subst hd
      rw [World.conn_setConn_same, Function.update_self]
    · rw [World.conn_setConn_other _ hd, Function.update_of_ne hd]
  unfold view
  rw [hconn MqConn.status, hconn MqConn.biofd]
  rfl

theorem view_setConn_biofd {w : World} {c : Conn} {p : MqConn}
    (hp : p.status = (w.conn c).status) :
    view (w.setConn c p) =
      { view w with biofd := Function.update (view w).biofd c p.biofd } := by
  have hstatus : Function.update (view w).status c (w.conn c).status = (view w).status :=
    Function.update_eq_self ..
  rw [view_setConn, hp, hstatus]

theorem view_setConn_status {w : World} {c : Conn} {p : MqConn}
    (hp : p.biofd = (w.conn c).biofd) :
    view (w.setConn c p) =
      { view w with status := Function.update (view w).status c p.status } := by
  have hbiofd : Function.update (view w).biofd c (w.conn c).biofd = (view w).biofd :=
    Function.update_eq_self ..
  rw [view_setConn, hp, hbiofd]

theorem view_setConn_same {w : World} {c : Conn} {p : MqConn}
    (hstatus : p.status = (w.conn c).status) (hbiofd : p.biofd = (w.conn c).biofd) :
    view (w.setConn c p) = view w := by
  have hbiofd' : Function.update (view w).biofd c (w.conn c).biofd = (view w).biofd :=
    Function.update_eq_self ..
  rw [view_setConn_biofd hstatus, hbiofd, hbiofd']

theorem view_setClient (w : World) (c : Conn) (cl : Client) :
    view (w.setClient c cl) = view w := view_setConn_same rfl rfl

/-- Nothing is seen of the trace but what is freed. -/
theorem view_log (w : World) {e : Event} (he : freedBios [e] = []) :
    view (w.log e) = view w := by
  have hfreed : freedBios (w.log e).trace = freedBios w.trace := by
    change freedBios ([e] ++ w.trace) = _
    rw [freedBios, List.filterMap_append]
    exact congrArg (· ++ freedBios w.trace) he
  unfold view
  rw [hfreed]
  rfl

theorem view_bioFreeAll (w : World) (b : BioId) :
    view (w.log (.bioFreeAll b)) = { view w with freed := b :: (view w).freed } := rfl

end View

/-! ## Steps that lead from world to world -/

/-- From any memory that sees `w` with `held` locked, the steps of `c` may return
`a`, in a memory that sees `t` with `held'` locked. -/
def Leads {α : Type} (held : Option Conn) (w : World) (c : Steps α) (a : α)
    (held' : Option Conn) (t : World) : Prop :=
  ∀ m, Sees held w m → ∃ m', c.Returns m a m' ∧ Sees held' t m'

namespace Leads

variable {α β : Type} {c : Steps α} {a : α} {b : β} {held held' held'' : Option Conn}
  {w t u : World}

theorem pure (a : α) : Leads held w (Pure.pure a) a held w := fun m hm => ⟨m, returns_pure, hm⟩

theorem bind {g : α → Steps β} (h : Leads held w c a held' u)
    (hg : Leads held' u (g a) b held'' t) : Leads held w (c >>= g) b held'' t := by
  intro m hm
  obtain ⟨m', hc, hm'⟩ := h m hm
  obtain ⟨m'', hg, hm''⟩ := hg m' hm'
  exact ⟨m'', hc.bind hg, hm''⟩

/-- A decision that the steps leave open. -/
theorem flip (choice : Bool) : Leads held w Code.flip choice held w :=
  fun m hm => ⟨m, returns_flip choice, hm⟩

theorem read {g : Mem → Steps β} (h : ∀ m, Sees held w m → Leads held w (g m) b held' t) :
    Leads held w (Code.read >>= g) b held' t := by
  intro m hm
  obtain ⟨m', hg, hm'⟩ := h m hm m hm
  exact ⟨m', returns_read.bind hg, hm'⟩

theorem update {f : Mem → Mem} (hf : ∀ m, Sees held w m → Sees held' t (f m)) :
    Leads held w (Code.update f) () held' t :=
  fun m hm => ⟨f m, returns_update, hf m hm⟩

/-- Between worlds that look alike there is no step. -/
theorem before (h : Leads held u c a held' t) (hu : view u = view w) :
    Leads held w c a held' t := fun m hm => h m (hm.of_view hu)

theorem after (h : Leads held w c a held' u) (ht : view t = view u) :
    Leads held w c a held' t := by
  intro m hm
  obtain ⟨m', hc, hm'⟩ := h m hm
  exact ⟨m', hc, hm'.of_view ht⟩

theorem pause : Leads held w pause () held w := .update fun _ hm => hm

section Loop

variable {body : β → Steps (β ⊕ α)} {b' : β} {n : Nat}

theorem rounds_next (h : Leads held w (body b) (.inl b') held' u)
    (hrest : Leads held' u (rounds body n b') a held'' t) :
    Leads held w (rounds body (n + 1) b) a held'' t := by
  intro m hm
  obtain ⟨m', hc, hm'⟩ := h m hm
  obtain ⟨m'', hrest, hm''⟩ := hrest m' hm'
  exact ⟨m'', returns_rounds_next hc hrest, hm''⟩

theorem rounds_last (h : Leads held w (body b) (.inr a) held' t) :
    Leads held w (rounds body (n + 1) b) a held' t := by
  intro m hm
  obtain ⟨m', hc, hm'⟩ := h m hm
  exact ⟨m', returns_rounds_last hc, hm'⟩

theorem loop (h : Leads held w (rounds body n b) a held' t) :
    Leads held w (Code.loop body b) a held' t := by
  intro m hm
  obtain ⟨m', hc, hm'⟩ := h m hm
  exact ⟨m', returns_loop hc, hm'⟩

/-- A loop that is left in its first round. -/
theorem once (h : Leads held w (body b) (.inr a) held' t) :
    Leads held w (Code.loop body b) a held' t := .loop (n := 1) (rounds_last h)

end Loop

end Leads

/-! ## MQTT-C -/

section Calls

variable {c : Conn} {w : World}

theorem mutex_setMutex (m : Mem) (c : Conn) (locked : Bool) (d : Conn) :
    (m.setMutex c locked).mutex d = if d = c then locked else m.mutex d :=
  Function.update_apply ..

theorem lock_leads : Leads none w (lock c) () (some c) w := by
  intro m hm
  have hfree : m.mutex c = false := hm.mutex c
  have hcall : m.callLock c = m := if_neg (by simp [hfree])
  refine ⟨m.setMutex c true, returns_update.bind ?_, hm.view, fun d => ?_⟩
  · rw [hcall]
    exact returns_await (by simp [hfree])
  · rw [mutex_setMutex, hm.mutex]
    by_cases hd : d = c
    · simp [hd]
    · simp [hd, Ne.symm hd]

theorem unlock_leads : Leads (some c) w (unlock c) () none w := by
  refine .update fun m hm => ⟨hm.view, fun d => ?_⟩
  rw [mutex_setMutex, hm.mutex]
  by_cases hd : d = c
  · simp [hd]
  · simp [hd, Ne.symm hd]

/-- What is queued is not seen, so the call may succeed or fail. -/
theorem tryPack_leads (ok : Bool) : Leads none w (tryPack c) ok none w :=
  .bind lock_leads (.bind (.flip ok) (.bind unlock_leads (.pure ok)))

/-- `mqtt_init` locks, `mqtt_connect` unlocks. -/
theorem mqttInit_leads : Leads none w (mqttInit c) () (some c) w := by
  refine .bind (.update fun m hm => ⟨hm.view, fun d => ?_⟩) lock_leads
  rw [mutex_setMutex, hm.mutex]
  split <;> rfl

theorem mqttConnect_leads (ok : Bool) : Leads (some c) w (mqttConnect c) ok none w :=
  .bind (.flip ok) (.bind unlock_leads (.pure ok))

theorem mqttSend_leads (ok : Bool) : Leads none w (mqttSend c) ok none w := by
  have hloop : Leads (some c) w (loop (fun _ => mqttSendRound) ()) true (some c) w :=
    .once (.bind (.flip true) (.bind (.flip false) (.pure _)))
  have hqueue : Leads (some c) w mqttSendQueue ok (some c) w :=
    .bind (.flip false) (.bind hloop (.flip ok))
  exact .bind lock_leads (.bind hqueue (.bind unlock_leads (.pure ok)))

end Calls

/-! ## Timers -/

section Timers

variable {held : Option Conn} {w : World}

/-- The new node goes where the new timer goes. -/
theorem eloopRegisterTimeout_leads (secs usecs : Nat) (hdl : Handler) :
    Leads held w (eloopRegisterTimeout (.of hdl)) () held (w.schedule secs usecs hdl) := by
  intro m hm
  obtain ⟨k, hk, hins⟩ := StableQueue.insert_eq_insertIdx (r := EloopTimeout.Before)
    (⟨dueTime (.ofUsec w.clock) secs usecs, hdl⟩ : EloopTimeout Handler) w.eloop.timeout
  have hlen : m.timeout.length = w.eloop.timeout.length := by
    simpa using congrArg List.length hm.timeout
  -- the place is an answer from outside; the order of the timers gives it
  refine ⟨{ m with nodes := m.nodes + 1 }.link k m.nodes (.of hdl),
    returns_fetch.bind ((returns_answer k).bind returns_update), ?_, hm.mutex⟩
  have htimeout : (m.timeout.insertIdx (min k m.timeout.length) (m.nodes, Timer.of hdl)).map (·.2) =
      (w.schedule secs usecs hdl).eloop.timeout.map (Timer.of ·.handler) := by
    change _ = (StableQueue.insert EloopTimeout.Before _ _).map _
    rw [hins, hlen, min_eq_left hk, List.map_insertIdx, List.map_insertIdx, hm.timeout]
  have hview : ({ m with nodes := m.nodes + 1 }.link k m.nodes (.of hdl)).view =
      { m.view with timeout :=
        (m.timeout.insertIdx (min k m.timeout.length) (m.nodes, Timer.of hdl)).map (·.2) } := rfl
  rw [hview, htimeout, hm.view]
  rfl

theorem registered_leads (secs usecs : Nat) (hdl : Handler) (d : Nat) (env : Env) :
    Leads held w (eloopRegisterTimeout (.of hdl)) () held (w.registered secs usecs hdl d env) := by
  have hview : view ((w.log (.registerTimeout hdl)).tick d env) = view w :=
    view_log w rfl
  exact (eloopRegisterTimeout_leads secs usecs hdl).before hview

theorem request_leads (conn : Conn) (topic_name : Field 128) (application_message : Bytes)
    (publish_flags d : Nat) (env : Env) :
    Leads held w (setMqttPublishNexsync conn) () held
      (w.request conn topic_name application_message publish_flags d env) := by
  let asked := { w with requests := w.requests + 1 }.log
    (.request conn topic_name application_message publish_flags w.requests)
  have hasked : view asked = view w :=
    view_log { w with requests := w.requests + 1 } rfl
  have hview : view ((w.ask conn topic_name application_message publish_flags).tick d env) =
      view asked := view_log asked rfl
  exact (eloopRegisterTimeout_leads 0 mqttSynT (.eloopSetPublish
    (mkSetPublish conn topic_name application_message publish_flags w.requests))).before
      (hview.trans hasked)

end Timers

/-! ## Messages -/

section Messages

variable {held : Option Conn}

theorem setMqttPublishNexsync_leads (held : Option Conn) (conn : Conn) (topic_name : Field 128)
    (application_message : Bytes) (publish_flags : Nat) (w : World) :
    Ends (fun _ => Leads held w (setMqttPublishNexsync conn) () held) (fun _ _ => True)
      (Admlink.setMqttPublishNexsync conn topic_name application_message publish_flags w) := by
  refine (setMqttPublishNexsync_ends ..).mono (fun _ _ => ?_) fun _ _ _ => trivial
  rintro ⟨d, env, rfl⟩
  exact request_leads _ _ _ _ d env

/-- Of the text of an event nothing is seen. -/
theorem view_getRcfiMsg (rcid : CBuf) (success : Bool) (w : World) :
    Ends (fun _ t => view t = view w) (fun _ _ => True) (getRcfiMsg rcid success w) := by
  unfold getRcfiMsg
  refine Ends.bind (orFault_ends _ w) (fun rcid u _ hu => ?_) fun _ _ _ => trivial
  rw [hu, bind_of_ok (get_apply w)]
  refine Ends.bind (orFault_ends _ w) (fun resbuf u _ hu => ?_) fun _ _ _ => trivial
  rw [hu]
  refine Ends.bind (strftimeTinfo_ends w) (fun date u _ ⟨hu, _⟩ => ?_) fun _ _ _ => trivial
  rw [hu]
  refine (orFault_ends _ _).mono (fun _ _ ht => ?_) fun _ _ _ => trivial
  rw [ht]
  exact view_log w rfl

theorem uploadEvent_leads (held : Option Conn) (rcid : CBuf) (success : Bool) (w : World) :
    Ends (fun _ t => Leads held w (setMqttPublishNexsync .mqupld) () held t) (fun _ _ => True)
      (uploadEvent rcid success w) := by
  refine Ends.bind (view_getRcfiMsg rcid success w) (fun resbuf u _ hu => ?_) fun _ _ _ => trivial
  rw [bind_of_ok (show getConn .mqupld u = .ok (u.conn .mqupld) u from rfl)]
  exact (setMqttPublishNexsync_leads held ..).mono (fun _ _ h => h.before hu) fun _ _ h => h

/-- The handler may or may not ask for an event. -/
theorem runRcHdl_leads (held : Option Conn) (rcid : CBuf) (w : World) :
    Ends (fun _ t => ∃ reported,
        Leads held w (when reported (setMqttPublishNexsync .mqupld)) () held t)
      (fun _ _ => True) (runRcHdl rcid w) := by
  unfold runRcHdl
  cases findRcHdl rcid.str with
  | none =>
      exact (uploadEvent_leads held rcid false w).mono (fun _ _ h => ⟨true, h⟩) fun _ _ h => h
  | some h =>
      cases h with
      | imhere =>
          exact (uploadEvent_leads held rcid true w).mono (fun _ _ h => ⟨true, h⟩) fun _ _ h => h
      | reboot =>
          have hview : view { w.log .rebootRc with
              agent := { w.agent with agstatus := .isReboot } } = view w :=
            (view_log w rfl : view (w.log .rebootRc) = view w)
          exact ⟨false, (Leads.pure ()).after hview⟩

theorem admlinkProcessRc_leads (rcid : Option CBuf) (w : World) :
    Ends (fun _ => Leads held w admlinkProcessRc () held) (fun _ _ => True)
      (Admlink.admlinkProcessRc rcid w) := by
  unfold Admlink.admlinkProcessRc
  rw [bind_of_ok (show emit (.processRc (rcid.map (·.str))) w =
    .ok () (w.log (.processRc (rcid.map (·.str)))) from rfl)]
  rw [bind_of_ok (show getConn .mqrecv (w.log (.processRc (rcid.map (·.str)))) =
    .ok (w.conn .mqrecv) (w.log (.processRc (rcid.map (·.str)))) from rfl)]
  have hlog : view (w.log (.processRc (rcid.map (·.str)))) = view w := view_log w rfl
  refine Ends.bind (setMqttPublishNexsync_leads held ..) (fun _ u _ hreport => ?_)
    fun _ _ _ => trivial
  unfold searchRcHdl
  split
  · trivial
  · cases rcid with
    | none => trivial
    | some rcid =>
        refine (runRcHdl_leads held rcid u).mono (fun _ t ⟨reported, h⟩ => ?_) fun _ _ h => h
        exact .bind (hreport.before hlog) (.bind (.flip reported) h)

theorem publishCallback_leads {c : Conn} {msg : Bytes} {w t : World}
    (h : admlinkMsgHandle (msg ++ [Ch.nul]) (w.log (.deliver c msg)) = .ok () t) :
    Leads held w publishCallback () held t := by
  have hlog : view (w.log (.deliver c msg)) = view w := view_log w rfl
  suffices hends : Ends (fun _ => Leads held (w.log (.deliver c msg)) publishCallback () held)
      (fun _ _ => True) (admlinkMsgHandle (msg ++ [Ch.nul]) (w.log (.deliver c msg))) by
    rw [h] at hends
    exact Leads.before hends hlog
  have hnothing : Leads held (w.log (.deliver c msg)) publishCallback () held
      (w.log (.deliver c msg)) := .bind (.flip false) (.pure ())
  unfold admlinkMsgHandle
  cases cJSONParse (msg ++ [Ch.nul]) with
  | error f => trivial
  | ok r =>
      cases r with
      | none => exact hnothing
      | some pdata =>
          cases hl : lookupRcId pdata with
          | none =>
              simp only [orFault, pure_bind, hl]
              exact hnothing
          | some prcid =>
              simp only [orFault, pure_bind, hl]
              exact (admlinkProcessRc_leads prcid.valuestring _).mono
                (fun _ _ h => .bind (.flip true) h) fun _ _ _ => trivial

end Messages

/-! ## `mqtt_sync` -/

section Sync

variable {c : Conn} {w t : World}

/-- One round of the receive loop for each message. -/
theorem recvRounds_lead (h : SyncPath c w t) (ok : Bool) : ∃ n,
    Leads (some c) w (rounds (fun _ => mqttRecvRound) n ()) ok (some c) t := by
  induction h using ReflTransGen.head_induction_on with
  | refl =>
      refine ⟨1, .rounds_last ?_⟩
      cases ok with
      | true => exact .bind (.flip false) (.bind (.flip true) (.pure _))
      | false => exact .bind (.flip true) (.bind (.flip true) (.pure _))
  | @head w u hs _ ih =>
      obtain ⟨n, hn⟩ := ih
      cases hs with
      | env env => exact ⟨n, hn.before rfl⟩
      | io written => exact ⟨n, hn.before (view_log w rfl)⟩
      | client _ => exact ⟨n, hn.before (view_setClient ..)⟩
      | packet r =>
          exact ⟨n, hn.before ((view_setClient ..).trans (view_log w rfl))⟩
      | deliver hr =>
          have hround : Leads (some c) w mqttRecvRound (.inl ()) (some c) u :=
            .bind (.flip false) (.bind (.flip false) (.bind (.flip true)
              (.bind (publishCallback_leads hr) (.bind (.flip true) (.pure _)))))
          exact ⟨n + 1, .rounds_next hround hn⟩

/-- What `mqtt_sync` answers is not seen. -/
theorem mqttSync_leads (h : SyncPath c w t) (ok : Bool) :
    Leads none w (mqttSync c) ok none t := by
  obtain ⟨n, hrounds⟩ := recvRounds_lead h ok
  have hrecv : Leads none w (mqttRecv c) ok none t :=
    .bind lock_leads (.bind (.loop hrounds) (.bind unlock_leads (.pure ok)))
  refine .bind lock_leads (.bind unlock_leads (.bind hrecv ?_))
  cases ok with
  | true => exact mqttSend_leads true
  | false => exact .pure false

theorem agSync_leads {e : MqttErrors} (h : agSync c w = .ok e t) (ok : Bool) :
    Leads none w (mqttSync c) ok none t :=
  mqttSync_leads ((path_agSync c).of_ok h) ok

end Sync

/-! ## Closing and opening -/

section Connections

variable {held : Option Conn} {c : Conn} {w t : World}

theorem setBiofd_leads {biofd : Option BioId} {p : MqConn} (hbiofd : p.biofd = biofd)
    (hstatus : p.status = (w.conn c).status) :
    Leads held w (update (·.setBiofd c biofd)) () held (w.setConn c p) := by
  refine .update fun m hm => ⟨?_, hm.mutex⟩
  rw [view_setConn_biofd hstatus, hbiofd, ← hm.view]
  rfl

theorem setStatus_leads {status : Nat} {p : MqConn} (hstatus : p.status = status)
    (hbiofd : p.biofd = (w.conn c).biofd) :
    Leads held w (update (·.setStatus c status)) () held (w.setConn c p) := by
  refine .update fun m hm => ⟨?_, hm.mutex⟩
  rw [view_setConn_status hbiofd, hstatus, ← hm.view]
  rfl

theorem bioFreeAll_leads {b : BioId} (hb : (w.conn c).biofd = some b) :
    Leads held w (bioFreeAll c) () held (w.log (.bioFreeAll b)) := by
  refine .read fun m hm => ?_
  rw [hm.biofd, hb]
  refine .update fun m hm => ⟨?_, hm.mutex⟩
  rw [view_bioFreeAll, ← hm.view]
  rfl

theorem closeConn_leads (h : Closed c w t) : Leads none w (closeConn c) () none t := by
  refine .read fun m hm => ?_
  rw [hm.biofd]
  cases h with
  | reset hb =>
      rw [hb]
      have hdown : Leads none w (update (·.setStatus c 0)) () none (w.reset c) :=
        setStatus_leads rfl (by rfl)
      exact .bind (.pure ()) hdown
  | @released b u hb hpath _ =>
      rw [hb]
      -- a round that succeeds is the last one, however many the daemon makes
      have hround : Leads none w (closeConnRound c 0) (.inr ()) none u :=
        .bind (tryPack_leads true) (.bind (mqttSync_leads hpath true) (.bind .pause (.pure _)))
      have hbu : (u.conn c).biofd = some b := by
        rw [(SyncPath.frame hpath).own]
        exact hb
      let v := (u.log (.bioFreeAll b)).setConn c { u.conn c with biofd := none, ssl_ctx := none }
      have hclear : Leads none (u.log (.bioFreeAll b)) (update (·.setBiofd c none)) () none v :=
        setBiofd_leads rfl (by rfl)
      have hdown : Leads none v (update (·.setStatus c 0)) () none
          (v.setConn c { u.conn c with
            biofd := none, ssl_ctx := none, connfd := 0, status := 0 }) :=
        setStatus_leads rfl (by rw [World.conn_setConn_same])
      rw [World.setConn_setConn] at hdown
      exact .bind (.bind (.once hround) (.bind (bioFreeAll_leads hbu) hclear)) hdown

theorem newBio_leads : Leads held w (newBio c) () held (w.bioOpened c) := by
  intro m hm
  refine ⟨_, returns_fetch.bind returns_update, ?_, hm.mutex⟩
  let x := (w.ctxOpened c).log (.bioNew c (w.conn c).biofd w.bios w.ctxs)
  have hctx : view (w.ctxOpened c) = view w :=
    (view_setConn_same (by rfl) (by rfl)).trans (view_log w rfl)
  have hx : view x = view w := (view_log (w.ctxOpened c) rfl).trans hctx
  have hopened : view (w.bioOpened c) =
      { view w with
        bios := w.bios + 1
        biofd := Function.update (view w).biofd c (some w.bios) } := by
    rw [← hx]
    have hstatus : (w.conn c).status = ((w.ctxOpened c).conn c).status := by simp
    exact view_setConn_biofd (w := { x with bios := w.bios + 1 }) hstatus
  rw [hopened, ← hm.view, ← hm.bios]
  rfl

/-- The files load and the certificate is good: else the process leaves. -/
theorem openNbSocket_leads {connfd : Nat} (h : OpenEnd c w connfd t) :
    Leads none w (openNbSocket c) () none t := by
  cases h with
  | refused _ =>
      have hb : ((w.bioOpened c).conn c).biofd = some w.bios := by simp
      let v := ((w.bioOpened c).log (.bioFreeAll w.bios)).log (.sslCtxFree w.ctxs)
      have hstatus : (w.conn c).status = ((w.bioOpened c).conn c).status := by simp
      have hclear : Leads none v (update (·.setBiofd c none)) () none (w.refused c) :=
        setBiofd_leads rfl hstatus
      have hv : view v = view ((w.bioOpened c).log (.bioFreeAll w.bios)) :=
        view_log _ rfl
      exact .bind (.flip true) (.bind (.pure ()) (.bind newBio_leads (.bind .pause
        (.bind (.flip false) (.bind (bioFreeAll_leads hb) (hclear.before hv))))))
  | opened _ =>
      exact .bind (.flip true) (.bind (.pure ()) (.bind newBio_leads (.bind .pause
        (.bind (.flip true) (.bind (.flip true) (.pure ()))))))

theorem view_connected (w : World) (c : Conn) (connfd : Nat) :
    view (w.connected c connfd) = view (w.bioOpened c) := by
  refine (view_setConn_same ?_ ?_).trans (view_log _ rfl)
  · simp
  · simp

theorem connectConn_leads {b : Bool} {subscribe : Steps Unit}
    (hsub : ∀ u, Leads none u subscribe () none u) (h : ConnectEnd c w b t) :
    Leads none w (connectConn c subscribe) b none t := by
  cases h with
  | refused ho =>
      refine .bind (openNbSocket_leads (.refused ho)) (.read fun m hm => ?_)
      rw [if_pos (by rw [hm.biofd]; simp)]
      exact .pure false
  | @failed connfd e _ ho hr _ =>
      refine .bind (openNbSocket_leads (.opened ho)) (.read fun m hm => ?_)
      rw [if_neg (by rw [hm.biofd]; simp)]
      have hsync := (agSync_leads hr false).before (view_connected w c connfd)
      exact .bind mqttInit_leads (.bind (mqttConnect_leads true) (.bind (.flip false)
        (.bind hsync (.pure false))))
  | @up connfd u d env ho hpath =>
      refine .bind (openNbSocket_leads (.opened ho)) (.read fun m hm => ?_)
      rw [if_neg (by rw [hm.biofd]; simp)]
      have hsync := (mqttSync_leads hpath true).before (view_connected w c connfd)
      have hstatus : Leads none u (update (·.setStatus c 1)) () none
          (u.setConn c { u.conn c with status := 1 }) := setStatus_leads rfl (by rfl)
      have htimer : Leads none (u.setConn c { u.conn c with status := 1 })
          (eloopRegisterTimeout (.agHandleClttraffic c)) () none (u.up c d env) :=
        registered_leads 0 mqttSynT (.agHandleClttraffic c) d env
      exact .bind mqttInit_leads (.bind (mqttConnect_leads true) (.bind (.flip false)
        (.bind hsync (.bind (hsub u) (.bind hstatus (.bind htimer (.pure true)))))))

end Connections

/-! ## Timer handlers -/

section Handlers

variable {c : Conn} {w t u : World}

theorem checkMqrecv_leads {b : Bool} (h0 : (w.conn .mqrecv).status = 0)
    (h : ConnectEnd .mqrecv w b t) : Leads none w checkMqrecv b none t := by
  refine .read fun m hm => ?_
  rw [if_pos (by rw [hm.status, h0])]
  exact connectConn_leads (fun _ => .bind .pause (.bind (tryPack_leads true) (.pure ()))) h

theorem recvUp_leads (h : RecvUp w u) : Leads none w checkMqrecv true none u := by
  cases h with
  | already hne =>
      refine .read fun m hm => ?_
      rw [if_neg (by rw [hm.status]; exact hne)]
      exact .pure true
  | now h0 hc => exact checkMqrecv_leads h0 hc

theorem checks_leads {b : Bool} (h : ChecksEnd w b t) :
    Leads none w (do
      let recv ← checkMqrecv
      if recv then checkMqupld else pure false) b none t := by
  cases h with
  | recv h0 hc => exact .bind (checkMqrecv_leads h0 hc) (.pure false)
  | upld _ hu h0 hc =>
      refine .bind (recvUp_leads hu) (.read fun m hm => ?_)
      rw [if_pos (by rw [hm.status, h0])]
      exact connectConn_leads (fun _ => .pure ()) hc
  | both hu hne =>
      refine .bind (recvUp_leads hu) (.read fun m hm => ?_)
      rw [if_neg (by rw [hm.status]; exact hne)]
      exact .pure true

theorem chkAgstatm_leads (h : ChkEnd w t) : Leads none w chkAgstatm () none t := by
  have hcode : chkAgstatm = (do
      let both ← (do
        let recv ← checkMqrecv
        if recv then checkMqupld else pure false)
      when both checkAgstatus
      eloopRegisterTimeout (.of .chkAgstatm)) := by
    rw [bind_assoc]
    rfl
  rw [hcode]
  cases h with
  | down d env hc =>
      exact .bind (checks_leads hc) (.bind (.pure ()) (registered_leads _ _ _ _ _))
  | @good u tm env d env' _ hc =>
      have hgood : Leads none u checkAgstatus () none (u.checked tm env) :=
        .bind (.flip false) ((Leads.pure ()).after rfl)
      exact .bind (checks_leads hc) (.bind hgood (registered_leads _ _ _ _ _))

theorem agHandleClttraffic_leads (h : TrafficEnd c w t) :
    Leads none w (agHandleClttraffic c) () none t := by
  cases h with
  | again d env hr =>
      exact .bind (agSync_leads hr true)
        (registered_leads 0 mqttSynT (.agHandleClttraffic c) d env)
  | closed hr _ hc => exact .bind (agSync_leads hr false) (closeConn_leads hc)

theorem eloopSetPublish_leads {p : SetPublish} (h : PublishEnd p w t) :
    Leads none w (eloopSetPublish p.conn) () none t := by
  have hview : ∀ cl, view ((w.publishing p).setClient p.conn cl) = view w := fun cl =>
    (view_setClient ..).trans (view_log w rfl)
  cases h with
  | queued _ _ =>
      have hnone : Leads none w (eloopSetPublish p.conn) () none w :=
        .bind (tryPack_leads true) (.bind (.flip false) (.pure ()))
      exact hnone.after (hview _)
  | closed _ _ hc =>
      exact .bind (tryPack_leads true) (.bind (.flip true) ((closeConn_leads hc).before (hview _)))

theorem handler_leads {hdl : Handler} (h : HandlerEnd hdl w t) :
    Leads none w (Timer.of hdl).run () none t := by
  cases hdl with
  | chkAgstatm => exact chkAgstatm_leads h
  | agHandleClttraffic p => exact agHandleClttraffic_leads h
  | eloopSetPublish p => exact eloopSetPublish_leads h
  | eloopSetExit => exact h.elim

end Handlers

/-! ## Dispatches -/

section Dispatches

variable {w t u : World}

theorem command_leads {hdl : Option CmdHdl} (h : CommandEnd w hdl t) :
    Leads none w admlinkCtrlIfaceReceive () none t := by
  cases h with
  | unknown => exact .bind (.flip false) (.bind (.flip false) (.pure ()))
  | stop d env => exact .bind (.flip true) (registered_leads 0 mqttSynT .eloopSetExit d env)
  | sendtest msg d env =>
      have hview : view (w.log (.strftime w.agent.tinfo)) = view w := view_log w rfl
      exact .bind (.flip false) (.bind (.flip true) ((request_leads _ _ _ _ d env).before hview))

theorem control_leads {dgram : Option Bytes} (h : ControlEnd w dgram t) :
    Leads none w admlinkCtrlIfaceReceive () none t := by
  have hnothing : Leads none w admlinkCtrlIfaceReceive () none w :=
    .bind (.flip false) (.bind (.flip false) (.pure ()))
  cases h with
  | silent => exact hnothing
  | gated _ => exact hnothing.after (view_log w rfl)
  | handled tm env reply _ _ hc =>
      exact ((command_leads hc).before (view_log w rfl)).after
        (view_log _ rfl)

/-- The first timer may or may not be due. -/
theorem idle_leads : Leads none w eloopRunTimeout () none w := by
  refine .bind (.flip false) (.read fun m hm => ?_)
  cases m.timeout with
  | nil => exact .pure ()
  | cons x rest => exact .pure ()

theorem fired_leads {x : EloopTimeout Handler} {rest : List (EloopTimeout Handler)} {d : Nat}
    {env : Env} (hlist : w.eloop.timeout = x :: rest)
    (h : HandlerEnd x.handler (w.popped d env rest) t) :
    Leads none w eloopRunTimeout () none t := by
  refine .bind (.flip true) (.read fun m hm => ?_)
  have htimeout := hm.timeout
  rw [hlist, List.map_cons, List.map_eq_cons_iff] at htimeout
  obtain ⟨⟨n, timer⟩, nodes, hnodes, htimer, hrest⟩ := htimeout
  rw [hnodes]
  obtain rfl : timer = Timer.of x.handler := htimer
  have hpop : Leads none w (update fun m => { m with timeout := nodes }) () none
      (w.popped d env rest) := by
    refine .update fun m hm => ⟨?_, hm.mutex⟩
    have hview : ({ m with timeout := nodes } : Mem).view =
        { m.view with timeout := nodes.map (·.2) } := rfl
    rw [hview, hrest, hm.view]
    rfl
  exact .bind hpop (.bind (handler_leads h) (.update fun m hm => ⟨hm.view, hm.mutex⟩))

theorem round_leads {b : Bool} (hne : w.eloop.timeout ≠ [])
    (htimeout : Leads none w eloopRunTimeout () none u)
    (hread : Leads none u (when b admlinkCtrlIfaceReceive) () none t) :
    Leads none w eloopRunRound (.inl ()) none t := by
  refine .read fun m hm => ?_
  have hnodes : m.timeout ≠ [] := by
    intro hnil
    have hmap := hm.timeout
    rw [hnil] at hmap
    exact hne (List.map_eq_nil_iff.mp hmap.symm)
  rw [if_neg (fun h => hnodes h.1)]
  exact .bind (.flip true) (.bind htimeout (.bind (.flip b) (.bind hread (.pure _))))

/-- What a dispatch does, an iteration of the loop may do. -/
theorem dispatch_leads {d : Dispatch} (hne : w.eloop.timeout ≠ []) (h : DispatchEnd w d t) :
    Leads none w eloopRunRound (.inl ()) none t := by
  cases h with
  | idle d env _ => exact (round_leads (b := false) hne idle_leads (.pure ())).after rfl
  | fired _ hlist _ hh =>
      exact round_leads (b := false) hne (fired_leads hlist hh) (.pure ())
  | noReader => exact (round_leads (b := false) hne idle_leads (.pure ())).after rfl
  | @reader env _ _ _ hc =>
      have hread : Leads none w admlinkCtrlIfaceReceive () none t :=
        (control_leads hc).before (rfl : view (w.tick 0 env) = view w)
      exact round_leads (b := true) hne idle_leads hread

end Dispatches

/-! ## Runs -/

/-- What `main` does when `eloop_run` has returned. -/
def leave : Steps Empty := do
  shutDown
  .exit

theorem timeout_ne_nil {w : World} (h : Between Always w) : w.eloop.timeout ≠ [] := by
  intro hnil
  have hchecks := (between_watched h).checks
  rw [World.otherTimers, hnil] at hchecks
  exact absurd hchecks (by decide)

/-- What `main` finds when it enters the loop. -/
def served : Mem :=
  { Mem.zeroed with
    interfaces := some true, ctrl_sock := .bound, timeout := [(0, .chkAgstatm)]
    readers := some 0, reader_count := 1, nodes := 1, tables := 1 }

theorem admlinkCtrlIfaceInit_returns (m : Mem) :
    admlinkCtrlIfaceInit.Returns m true (m.setCtrlSock .bound) := by
  have hbind : ((do
      update (·.setCtrlSock .bound)
      return true) : Steps Bool).Returns (m.setCtrlSock .none) true (m.setCtrlSock .bound) :=
    returns_update.bind returns_pure
  exact returns_update.bind ((returns_flip true).bind ((returns_flip true).bind hbind))

theorem eloopRegisterReadSock_returns {m : Mem} (h : m.readers = none) :
    eloopRegisterReadSock.Returns m ()
      { m with reader_count := m.reader_count + 1, readers := some m.tables,
               tables := m.tables + 1 } := by
  refine returns_read.bind (returns_fetch.bind ?_)
  rw [h]
  exact returns_pure.bind returns_update

theorem eloopRegisterTimeout_returns (m : Mem) (t : Timer) :
    (eloopRegisterTimeout t).Returns m () ({ m with nodes := m.nodes + 1 }.link 0 m.nodes t) :=
  returns_fetch.bind ((returns_answer 0).bind returns_update)

/-- `main` enters the loop, of which `n` rounds will be seen. -/
theorem loop_entered (n : Nat) : Reached (fun _ => False)
    ⟨served, [], rounds (fun _ => eloopRunRound) n () >>= fun _ => leave⟩ := by
  have h : Reached (fun _ => False) boot := .start boot_starts
  unfold boot main at h
  have h := Machine.reaches_returns returns_update h
  have h := Machine.reaches_returns returns_update h
  have h := Machine.reaches_returns (admlinkCtrlIfaceInit_returns _) h
  simp only [Code.when, if_true, bind_assoc] at h
  have h := Machine.reaches_returns returns_update h
  have h := Machine.reaches_returns (eloopRegisterReadSock_returns rfl) h
  have h := Machine.reaches_returns (eloopRegisterTimeout_returns _ .chkAgstatm) h
  unfold eloopRun loop at h
  rw [bind_assoc] at h
  have h := Machine.reaches_returns (returns_answer n) h
  exact h

theorem served_sees {w : World} (h : IsStart w) : Sees none w served := by
  obtain ⟨arg, agent, sock, clock, env, hcfg, rfl⟩ := h
  have hstatus : ∀ c, ((started agent sock clock env).conn c).status = 0 :=
    fun c => (hcfg.zeroed.2.2 c).2.1
  have hbiofd : ∀ c, ((started agent sock clock env).conn c).biofd = none :=
    fun c => (hcfg.zeroed.2.2 c).1
  refine ⟨?_, fun c => rfl⟩
  unfold view
  simp only [hstatus, hbiofd]
  rfl

/-- Every world between two dispatches is seen in a memory of the daemon that got
no signal. -/
theorem between_reached {w : World} (h : Between Always w) :
    ∃ m, Reached (fun _ => False) m ∧ m.handling = [] ∧ Sees none w m.state := by
  suffices hrounds : ∀ n, ∃ m, Reached (fun _ => False)
      ⟨m, [], rounds (fun _ => eloopRunRound) n () >>= fun _ => leave⟩ ∧ Sees none w m by
    obtain ⟨m, hm, hsees⟩ := hrounds 0
    exact ⟨_, hm, rfl, hsees⟩
  induction h with
  | start h0 => exact fun n => ⟨served, loop_entered n, served_sees h0⟩
  | @next w t d hw _ hr ih =>
      intro n
      obtain ⟨m, hm, hsees⟩ := ih (n + 1)
      have hends := dispatch_ends d w
      rw [hr] at hends
      obtain ⟨m', hround, hsees'⟩ := dispatch_leads (timeout_ne_nil hw) hends m hsees
      rw [rounds, bind_assoc] at hm
      have hm' := Machine.reaches_returns hround hm
      exact ⟨m', hm', hsees'⟩

end Admlink.Signals
