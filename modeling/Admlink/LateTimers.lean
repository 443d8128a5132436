import Admlink.Handlers
import Admlink.Reports

/-!
# Timers on a destroyed loop

`exit_link` destroys the event loop before it closes the connections, and
closing synchronises. A message that arrives then is handled as ever: if it has
an `rc_id` item, of whatever type, `set_mqtt_publish_nexsync` registers a timer
for the report. Nothing else does, so these messages are exactly what goes wrong.
-/

namespace Admlink

open Program World Relation Runs

/-- The message has the item that a report is requested for. -/
def asksReport (app_msg : Bytes) : Bool :=
  match cJSONParse (app_msg ++ [Ch.nul]) with
  | .ok (some pdata) => (lookupRcId pdata).isSome
  | _ => false

theorem asksReport_iff {app_msg : Bytes} :
    asksReport app_msg = true ↔ ∃ pdata item,
      cJSONParse (app_msg ++ [Ch.nul]) = .ok (some pdata) ∧ lookupRcId pdata = some item := by
  unfold asksReport
  split
  · rename_i pdata hparse
    simp [hparse, Option.isSome_iff_exists]
  · rename_i hnone
    refine iff_of_false (by simp) ?_
    rintro ⟨pdata, item, hparse, -⟩
    exact hnone pdata hparse

def Event.isTimer : Event → Bool
  | .registerTimeout _ => true
  | _ => false

/-- A message that asks for a report is delivered. -/
def Event.isCommand : Event → Bool
  | .deliver _ msg => asksReport msg
  | _ => false

/-! ## One message -/

theorem admlinkMsgHandle_item {buffer : Bytes} {pdata item : CJson}
    (hparse : cJSONParse buffer = .ok (some pdata)) (hitem : lookupRcId pdata = some item) :
    admlinkMsgHandle buffer = admlinkProcessRc item.valuestring := by
  unfold admlinkMsgHandle
  rw [hparse]
  simp only [orFault, pure_bind, hitem]

theorem admlinkMsgHandle_eq {buffer : Bytes} {rcid : CBuf} (h : rcidOf buffer = some rcid) :
    admlinkMsgHandle buffer = admlinkProcessRc (some rcid) := by
  unfold rcidOf at h
  split at h
  · rename_i pdata hparse
    obtain ⟨item, hitem, hrcid⟩ := Option.bind_eq_some_iff.mp h
    rw [admlinkMsgHandle_item hparse hitem, hrcid]
  · cases h

/-- Without the item nothing is seen of a message, parsed or not. -/
theorem logs_admlinkMsgHandle {P : Event → Prop} {msg : Bytes} (h : asksReport msg = false) :
    Within (Logs P) (Logs P) (admlinkMsgHandle (msg ++ [Ch.nul])) := by
  unfold asksReport at h
  unfold admlinkMsgHandle
  cases hparse : cJSONParse (msg ++ [Ch.nul]) with
  | error f => exact .throw _
  | ok r =>
      cases r with
      | none => exact .pure _
      | some pdata =>
          rw [hparse] at h
          have hnone : lookupRcId pdata = none :=
            Option.not_isSome_iff_eq_none.mp (Bool.eq_false_iff.mp h)
          simp only [orFault, pure_bind, hnone]
          exact .pure _

/-- Whoever requests a publish registers a timer for it. -/
def Timed (w t : World) : Prop :=
  ∃ new, t.trace = new ++ w.trace ∧ (∀ e ∈ new, e.isCommand = false) ∧
    ((∃ e ∈ new, e.isRequest = true) → ∃ e ∈ new, e.isTimer = true)

namespace Timed

variable {w t u : World}

theorem of_eq (h : t.trace = w.trace) : Timed w t := ⟨[], h, by simp, by simp⟩

theorem trans (h : Timed w t) (h' : Timed t u) : Timed w u := by
  obtain ⟨new, ht, hcmd, hnew⟩ := h
  obtain ⟨new', hu, hcmd', hnew'⟩ := h'
  refine ⟨new' ++ new, by rw [hu, ht, List.append_assoc], ?_, ?_⟩
  · intro e he
    rcases List.mem_append.mp he with he | he
    · exact hcmd' e he
    · exact hcmd e he
  · rintro ⟨e, he, hreq⟩
    rcases List.mem_append.mp he with he | he
    · obtain ⟨x, hx, htimer⟩ := hnew' ⟨e, he, hreq⟩
      exact ⟨x, List.mem_append_left _ hx, htimer⟩
    · obtain ⟨x, hx, htimer⟩ := hnew ⟨e, he, hreq⟩
      exact ⟨x, List.mem_append_right _ hx, htimer⟩

theorem log (w : World) {e : Event} (hcmd : e.isCommand = false) (hreq : e.isRequest = false) :
    Timed w (w.log e) := ⟨[e], rfl, by simp [hcmd], by simp [hreq]⟩

theorem ask (w : World) (conn : Conn) (topic_name : Field 128) (application_message : Bytes)
    (publish_flags : Nat) :
    Timed w (w.ask conn topic_name application_message publish_flags) :=
  ⟨[.registerTimeout _, .request ..], rfl, by simp [Event.isCommand],
    fun _ => ⟨_, List.mem_cons_self .., rfl⟩⟩

theorem msgStep {upload : Bool} (h : MsgStep upload w t) : Timed w t := by
  cases h with
  | processRc rcid => exact log w rfl rfl
  | report topic_name application_message d env => exact ask w _ _ _ _
  | event topic_name application_message d env _ _ => exact ask w _ _ _ _
  | strftime _ => exact log w rfl rfl
  | reboot => exact log w (e := .rebootRc) rfl rfl

theorem msgPath {upload : Bool} (h : MsgPath upload w t) : Timed w t := by
  induction h with
  | refl => exact of_eq rfl
  | tail _ hs ih => exact ih.trans (msgStep hs)

theorem msgStop {upload : Bool} (h : MsgStop upload w t) : Timed w t := by
  obtain ⟨u, hu, rfl | ⟨conn, topic_name, application_message, d, env, -, rfl⟩⟩ := h
  · exact msgPath hu
  · exact (msgPath hu).trans (ask u conn topic_name application_message publishQos1)

end Timed

/-- From `w` to `t` a timer is registered exactly when a command arrives. -/
def TimersAsked (w t : World) : Prop :=
  ∃ new, t.trace = new ++ w.trace ∧
    ((∃ e ∈ new, e.isTimer = true) ↔ ∃ e ∈ new, e.isCommand = true)

namespace TimersAsked

variable {c : Conn} {w t u : World}

theorem of_logs (h : Logs (fun e => e.isTimer = false ∧ e.isCommand = false) w t) :
    TimersAsked w t := by
  obtain ⟨new, ht, hnew⟩ := h
  refine ⟨new, ht, ?_⟩
  constructor
  · rintro ⟨e, he, htimer⟩
    rw [(hnew e he).1] at htimer
    cases htimer
  · rintro ⟨e, he, hcmd⟩
    rw [(hnew e he).2] at hcmd
    cases hcmd

theorem trans (h : TimersAsked w t) (h' : TimersAsked t u) : TimersAsked w u := by
  obtain ⟨new, ht, hnew⟩ := h
  obtain ⟨new', hu, hnew'⟩ := h'
  have hor : ∀ p : Event → Prop, (∃ e ∈ new' ++ new, p e) ↔ (∃ e ∈ new', p e) ∨ ∃ e ∈ new, p e := by
    intro p
    simp only [List.mem_append, or_and_right, exists_or]
  refine ⟨new' ++ new, by rw [hu, ht, List.append_assoc], ?_⟩
  rw [hor, hor, hnew, hnew']

/-- A message whose handling logs what is neither a timer nor a command. -/
theorem of_silent {msg : Bytes} (hask : asksReport msg = false)
    (h : Logs (fun e => e.isTimer = false ∧ e.isCommand = false) (w.log (.deliver c msg)) t) :
    TimersAsked w t :=
  of_logs ((Logs.log ⟨rfl, hask⟩).trans h)

theorem of_timed {msg : Bytes} {e : Event} (hask : asksReport msg = true)
    (h : Timed (w.log (.deliver c msg)) t) (hreq : e.isRequest = true)
    (hmem : ∃ new, t.trace = new ++ w.trace ∧ e ∈ new) : TimersAsked w t := by
  obtain ⟨new, ht, hcmd, hnew⟩ := h
  obtain ⟨all, hall, he⟩ := hmem
  have hsplit : all = new ++ [.deliver c msg] := by
    rw [hall, trace_log, List.append_cons] at ht
    exact List.append_cancel_right ht
  have htimer : ∃ x ∈ new, x.isTimer = true := by
    refine hnew ⟨e, ?_, hreq⟩
    rw [hsplit] at he
    rcases List.mem_append.mp he with he | he
    · exact he
    · rw [List.mem_singleton.mp he] at hreq
      cases hreq
  obtain ⟨x, hx, htimer⟩ := htimer
  refine ⟨all, hall, fun _ => ⟨.deliver c msg, ?_, hask⟩, fun _ => ⟨x, ?_, htimer⟩⟩
  · rw [hsplit]
    exact List.mem_append_right _ (List.mem_singleton_self _)
  · rw [hsplit]
    exact List.mem_append_left _ hx

/-- One message, however its handling ends. -/
theorem message (c : Conn) (msg : Bytes) (w : World) :
    Ends (fun _ => TimersAsked w) (fun _ => TimersAsked w)
      (admlinkMsgHandle (msg ++ [Ch.nul]) (w.log (.deliver c msg))) := by
  cases hask : asksReport msg with
  | false =>
      exact (logs_admlinkMsgHandle hask _).mono (fun _ _ => of_silent hask)
        fun _ _ => of_silent hask
  | true =>
      obtain ⟨pdata, item, hparse, hitem⟩ := asksReport_iff.mp hask
      have hreported : ∀ t, ReportAsked item.valuestring (w.log (.deliver c msg)) t →
          ∃ new, t.trace = new ++ w.trace ∧ Event.request .mqrecv (w.conn .mqrecv).topicsend
            (reportText (rcidText item.valuestring)) publishQos1 w.requests ∈ new := by
        rintro t ⟨new, ht, -⟩
        refine ⟨new ++ [.request .mqrecv (w.conn .mqrecv).topicsend
          (reportText (rcidText item.valuestring)) publishQos1 w.requests,
          .processRc (item.valuestring.map (·.str)), .deliver c msg], ?_, by simp⟩
        rw [ht, List.append_assoc]
        rfl
      have hrep := admlinkProcessRc_reported item.valuestring (w.log (.deliver c msg))
      rw [← admlinkMsgHandle_item hparse hitem] at hrep
      refine ((path_admlinkMsgHandle msg (w.log (.deliver c msg))).and hrep).mono ?_ ?_
      · rintro _ t ⟨hpath, hrep⟩
        exact of_timed hask (Timed.msgPath hpath) rfl (hreported t hrep)
      · rintro _ t ⟨hstop, hrep⟩
        exact of_timed hask (Timed.msgStop hstop) rfl (hreported t hrep)

theorem syncStep (h : SyncStep c w t) : TimersAsked w t := by
  cases h with
  | env env => exact of_logs (.of_eq rfl)
  | io => exact of_logs (.log ⟨rfl, rfl⟩)
  | client hs => exact of_logs (.of_eq rfl)
  | packet r => exact of_logs (.log ⟨rfl, rfl⟩)
  | @deliver msg _ hr =>
      have h := message c msg w
      rwa [hr] at h

theorem syncPath (h : SyncPath c w t) : TimersAsked w t := by
  induction h with
  | refl => exact of_logs (.of_eq rfl)
  | tail _ hs ih => exact ih.trans (syncStep hs)

theorem syncStop (h : SyncStop c w t) : TimersAsked w t := by
  obtain ⟨u, hu, rfl | ⟨msg, e, hr⟩⟩ := h
  · exact syncPath hu
  · have h := message c msg u
    rw [hr] at h
    exact (syncPath hu).trans h

theorem closed (h : Closed c w t) : TimersAsked w t := by
  cases h with
  | reset _ => exact of_logs (.of_eq rfl)
  | released _ hpath _ => exact (syncPath hpath).trans (of_logs (.log ⟨rfl, rfl⟩))

theorem shutEnd (h : ShutEnd w t) : TimersAsked w.halted t := by
  cases h with
  | recv hs => exact syncStop hs.sync
  | upld hc hs => exact (closed hc).trans (syncStop hs.sync)
  | exit hc hc' => exact (closed hc).trans (closed hc')

end TimersAsked

/-! ## Results -/

/-- No `eloop_register_timeout` after `eloop_destroy`; the newest event comes
first. -/
def NoLateTimer (events : List Event) : Prop :=
  ∀ post pre h, events = post ++ .registerTimeout h :: pre → .eloopDestroy ∉ pre

/-- What the shut-down adds: the loop is destroyed before anything else but the
control socket. -/
theorem added_shutDown (w : World) : ∃ new old, added shutDown w = new ++ .eloopDestroy :: old ∧
    (∀ e ∈ old, e = .ctrlClose) ∧
    ((∃ e ∈ new, e.isTimer = true) ↔ ∃ e ∈ new, e.isCommand = true) := by
  obtain ⟨new, ht, hnew⟩ := TimersAsked.shutEnd (shutDown_ends w).final
  have hhalted : ∃ old, w.halted.trace = .eloopDestroy :: (old ++ w.trace) ∧
      ∀ e ∈ old, e = .ctrlClose := by
    unfold World.halted
    cases w.ctrl_sock with
    | none => exact ⟨[], rfl, by simp⟩
    | some sock => exact ⟨[.ctrlClose], rfl, by simp⟩
  obtain ⟨old, hold, hclose⟩ := hhalted
  refine ⟨new, old, added_eq _ ?_, hclose, hnew⟩
  rw [ht, hold, List.append_assoc]
  rfl

/-- A timer is registered just when a message with the item is delivered. -/
theorem noLateTimer_iff (w : World) :
    NoLateTimer (added shutDown w) ↔
      ∀ c msg, .deliver c msg ∈ added shutDown w → asksReport msg = false := by
  obtain ⟨new, old, hadded, hclose, hnew⟩ := added_shutDown w
  rw [hadded]
  constructor
  · intro hno c msg hmem
    by_contra hask
    rw [Bool.not_eq_false] at hask
    -- what is delivered comes from the closes, not from before `eloop_destroy`
    have hcmd : ∃ e ∈ new, e.isCommand = true := by
      rcases List.mem_append.mp hmem with hn | ho
      · exact ⟨_, hn, hask⟩
      · rcases List.mem_cons.mp ho with heq | ho
        · cases heq
        · cases hclose _ ho
    obtain ⟨e, he, htimer⟩ := hnew.mpr hcmd
    obtain ⟨post, pre, rfl⟩ := List.append_of_mem he
    cases e with
    | registerTimeout h =>
        refine hno post (pre ++ .eloopDestroy :: old) h ?_ (by simp)
        rw [List.append_assoc]
        rfl
    | _ => cases htimer
  · intro hall post pre h hsplit _
    have hmem : .registerTimeout h ∈ new := by
      have hin : .registerTimeout h ∈ new ++ .eloopDestroy :: old := by
        rw [hsplit]
        simp
      rcases List.mem_append.mp hin with hn | ho
      · exact hn
      · rcases List.mem_cons.mp ho with heq | ho
        · cases heq
        · cases hclose _ ho
    obtain ⟨e, he, hcmd⟩ := hnew.mp ⟨_, hmem, rfl⟩
    cases e with
    | deliver c msg =>
        rw [Event.isCommand, hall c msg (List.mem_append_left _ he)] at hcmd
        cases hcmd
    | _ => cases hcmd

/-- The shut-down leaves the destroyed loop alone. What the parser does once it
has left its memory is not known, so no message may take it there. -/
structure LoopLeftAlone (w : World) : Prop where
  none_late : NoLateTimer (added shutDown w)
  parsed : ∀ c msg, .deliver c msg ∈ added shutDown w →
    ∃ r, cJSONParse (msg ++ [Ch.nul]) = .ok r

/-- The item is looked up in the JSON value of the message. -/
theorem asksReport_eq_false {app_msg : Bytes} {r : Option CJson}
    (hparse : cJSONParse (app_msg ++ [Ch.nul]) = .ok r) :
    asksReport app_msg = false ↔ ∀ root, r = some root → root.value.rcId = none := by
  rw [asksReport, hparse]
  cases r with
  | none => simp
  | some pdata =>
      simp only [Option.some.injEq, forall_eq']
      rw [← value_lookupRcId (cJSONParse_wellTyped hparse), Option.map_eq_none_iff]
      exact Option.isSome_eq_false_iff.trans Option.isNone_iff_eq_none

/-- Which messages the shut-down must not get. -/
theorem no_late_timer (w : World) :
    LoopLeftAlone w ↔ ∀ c msg, .deliver c msg ∈ added shutDown w →
      ∃ r, cJSONParse (msg ++ [Ch.nul]) = .ok r ∧
        ∀ root, r = some root → root.value.rcId = none := by
  constructor
  · intro h c msg hmem
    obtain ⟨r, hparse⟩ := h.parsed c msg hmem
    have hask := (noLateTimer_iff w).mp h.none_late c msg hmem
    exact ⟨r, hparse, (asksReport_eq_false hparse).mp hask⟩
  · intro h
    refine ⟨(noLateTimer_iff w).mpr fun c msg hmem => ?_, fun c msg hmem => ?_⟩
    · obtain ⟨r, hparse, hnone⟩ := h c msg hmem
      exact (asksReport_eq_false hparse).mpr hnone
    · obtain ⟨r, hparse, -⟩ := h c msg hmem
      exact ⟨r, hparse⟩

/-- A remote command is waiting when a connected daemon stops. -/
theorem late_timer :
    ¬ ∀ w, Between Always w → ∀ env, NoLateTimer (added shutDown (w.tick 0 env)) := by
  intro h
  let w := runs (oneMessage.take 1)
  let env := { after 0 [.sent 50, .sent 50] with reads := arriving (command "2000") }
  have hlate : ((added shutDown (w.tick 0 env)).head?.any Event.isTimer &&
      (added shutDown (w.tick 0 env)).tail.contains .eloopDestroy) = true := by decide +kernel
  obtain ⟨hhead, htail⟩ := Bool.and_eq_true_iff.mp hlate
  cases hevents : added shutDown (w.tick 0 env) with
  | nil =>
      rw [hevents] at hhead
      cases hhead
  | cons e pre =>
      rw [hevents] at hhead htail
      cases e with
      | registerTimeout hdl =>
          have hbetween : Between Always w := runs_between _ (by decide +kernel)
          exact h w hbetween env [] pre hdl hevents (List.contains_iff_mem.mp htail)
      | _ => cases hhead

end Admlink
