import Admlink.Initialised

/-!
# Uploads that are asked for too early

An event is uploaded for `sendtest` and for most remote commands. Neither path
looks at the state of the agent: `get_rcfi_msg` formats a date that
`check_agstatus` sets only when both connections are up, and the publish goes
to the uploader whether `mqtt_init` has been called on it or not. Both are fine
in runs where a command comes late enough.
-/

namespace Admlink

open Program Relation Runs

/-! ## The date of an event -/

/-- While there is no date no remote command arrives that uploads an event. -/
def DateKnown (w : World) (d : Dispatch) : Prop :=
  w.agent.tinfo = none → ∀ e ∈ newEvents w d, e.asksUpload = true → d.reads = true

instance (w : World) (d : Dispatch) : Decidable (DateKnown w d) := by
  unfold DateKnown; infer_instance

/-- `strftime` is only called with a date. -/
def Dated (trace : List Event) : Prop := ∀ t, .strftime t ∈ trace → t ≠ none

theorem dated_newEvents {w : World} {d : Dispatch} (hknown : DateKnown w d) (t : Option Tm)
    (hmem : .strftime t ∈ newEvents w d) : t ≠ none := by
  have ht := ofDispatch_newEvents d w _ hmem
  simp only [Event.OfDispatch] at ht
  by_cases hreads : d.reads = true
  · rw [if_pos hreads] at ht
    exact ht
  · rw [if_neg hreads] at ht
    rw [ht]
    intro hnone
    obtain ⟨a, ha, hask⟩ := asksUpload_newEvents hmem rfl
    exact hreads (hknown hnone a ha hask)

/-- Event timestamps are available, as long as no remote command comes before
the first date. -/
theorem dated_inRun (w : World) (h : InRun DateKnown w) : Dated w.trace := by
  refine Seen.invariant (I := fun w => Dated w.trace) (J := fun w => Dated w.trace)
    (fun w hw => ?_) (fun d s hs => ?_) (fun _ h => h) h
  · obtain ⟨arg, agent, sock, clock, env, -, rfl⟩ := hw
    intro t hmem
    cases List.mem_singleton.mp hmem
  · have hstep : ∀ t : World, t.trace = newEvents s d ++ s.trace → Dated t.trace := by
      intro t ht tm hmem
      rw [ht] at hmem
      rcases List.mem_append.mp hmem with hmem | hmem
      · exact dated_newEvents hs.2 tm hmem
      · exact hs.1 tm hmem
    exact (dispatch_trace d s).mono (fun _ => hstep) fun _ => hstep

theorem dated_inRun_remote : Dated (runs (remote "2000")).trace :=
  dated_inRun _ (.between (runs_between _ (by decide +kernel)))

/-- The uploader cannot be opened; the receiver gets a remote command. -/
def earlyCommand : List Dispatch :=
  [.timeout { after 1000000 [.sent 22] with
      opens := fun c => if c = .mqrecv then .connected 5 else .connectFailed },
    .timeout { after 200000 [.sent 50] with reads := arriving (command "2000") }]

/-- `strftime` gets a null pointer. -/
theorem undated_earlyCommand : ¬ ∀ w, InRun Always w → Dated w.trace := by
  intro h
  have hmem : .strftime none ∈ (runs earlyCommand).trace := by decide +kernel
  exact h _ (runs_inRun earlyCommand) none hmem rfl

/-! ## Publishes and initialised clients -/

/-- While the uploader is not initialised nothing is asked to be uploaded. A
remote command may be, as long as there is no date: it never gets as far as a
request. -/
def UploaderReady (w : World) (d : Dispatch) : Prop :=
  ¬ Ready w .mqupld → ∀ e ∈ newEvents w d, e.asksUpload = true →
    d.reads = false ∧ w.agent.tinfo = none

instance (w : World) (d : Dispatch) : Decidable (UploaderReady w d) := by
  unfold UploaderReady; infer_instance

/-- An upload is requested only with an initialised uploader. -/
theorem uploader_of_registered {w : World} {d : Dispatch} {hdl : Handler}
    (hready : UploaderReady w d) (hmem : .registerTimeout hdl ∈ newEvents w d)
    (hup : hdl.forUploader = true) : Ready w .mqupld := by
  by_contra hnot
  obtain ⟨a, ha, hask⟩ := asksUpload_newEvents hmem hup
  obtain ⟨hreads, hnone⟩ := hready hnot a ha hask
  have hdate := ofDispatch_newEvents d w _ hmem
  simp only [Event.OfDispatch, hreads, Bool.false_eq_true, ↓reduceIte] at hdate
  exact hdate hup hnone

/-- No deferred publish is registered. -/
def Event.NoPublish (e : Event) : Prop :=
  ∀ hdl, e = .registerTimeout hdl → hdl.isPublish = false

/-- A timer handler registers deferred publishes only where the receiver is
initialised: it takes a client that has been synchronised. -/
theorem recv_of_handlerEnd {base : Conn → Prop} {hdl : Handler} {w t : World}
    (h : Inited base w) (ht : Inited (Ready w) t) (he : HandlerEnd hdl w t) :
    Ready t .mqrecv ∨ World.Logs Event.NoPublish w t := by
  -- only an initialised client has the BIO that a synchronisation needs
  have hsynced : ∀ {c : Conn} {e : MqttErrors} {u : World}, agSync c w = .ok e u →
      Ready t .mqrecv := fun {c e u} hr => by
    obtain ⟨b, hfd, -⟩ := live_of_mqttSync hr
    exact ht.since _ (h.recv (h.used c (.inl (by rw [hfd]; simp))))
  cases hdl with
  | chkAgstatm =>
      have hchecks : ∀ {b : Bool} {u : World}, ChecksEnd w b u →
          Ready u .mqrecv ∨ World.Logs Event.NoPublish w u := by
        intro b u hc
        cases hc with
        | recv _ hc =>
            cases hc with
            | refused _ =>
                refine .inr ⟨[.sslCtxFree _, .bioFreeAll _, .bioNew .., .sslCtxNew _], rfl, ?_⟩
                simp [Event.NoPublish]
            | failed _ hr _ =>
                have hf := (frame_agSync .mqrecv).of_ok hr
                exact .inl ((ready_congr (hf.link_all .mqrecv)).mpr
                  (Inited.ready_connected w .mqrecv _))
        | upld _ hu _ hc =>
            have hrecv := (h.recvUp hu).2
            rw [Ready, ← hc.other (d := .mqrecv) (by decide)] at hrecv
            exact .inl hrecv
        | both hu _ => exact .inl (h.recvUp hu).2
      have hchk : ∀ {b : Bool} {u : World}, ChecksEnd w b u →
          t.trace = .registerTimeout .chkAgstatm :: u.trace → (∀ d, t.conn d = u.conn d) →
          Ready t .mqrecv ∨ World.Logs Event.NoPublish w t := by
        intro b u hc htrace hconn
        refine (hchecks hc).imp (fun hu => by rwa [Ready, hconn]) fun hu => hu.trans ?_
        exact ⟨[.registerTimeout .chkAgstatm], htrace,
          by simp [Event.NoPublish, Handler.isPublish, Handler.setPublish?]⟩
      cases he with
      | down d env hc => exact hchk hc rfl fun _ => rfl
      | good tm env d env' _ hc => exact hchk hc rfl fun _ => rfl
  | agHandleClttraffic c =>
      cases he with
      | again d env hr => exact .inl (hsynced hr)
      | closed hr _ _ => exact .inl (hsynced hr)
  | eloopSetPublish p =>
      have hpublished : ∀ {r : MqttErrors × Client}, w.callPublish p = .ok r →
          Ready t .mqrecv := fun hr => ht.since _ (h.recv (mqttPublish_ok hr).1)
      cases he with
      | queued hr _ => exact .inl (hpublished hr)
      | closed hr _ _ => exact .inl (hpublished hr)
  | eloopSetExit => exact he.elim

theorem recv_of_registered {base : Conn → Prop} {w t : World} {d : Dispatch} {hdl : Handler}
    (h : Inited base w) (ht : Inited (Ready w) t) (he : DispatchEnd w d t)
    (htrace : t.trace = newEvents w d ++ w.trace) (hreads : d.reads = false)
    (hmem : .registerTimeout hdl ∈ newEvents w d) (hpub : hdl.isPublish = true) :
    Ready t .mqrecv := by
  cases he with
  | idle n env =>
      rw [show newEvents w _ = [] from List.self_eq_append_left.mp htrace] at hmem
      cases hmem
  | @fired env n ns tm rest _ _ hlist _ he =>
      have hpop : Inited base (w.popped n { env with clocks := ns } rest) :=
        h.of_conn (fun _ => rfl) fun x hx =>
          h.timers x (by rw [hlist]; exact List.mem_cons_of_mem _ hx)
      refine (recv_of_handlerEnd hpop ht he).resolve_right fun ⟨new, hnew, hnone⟩ => ?_
      rw [htrace, show (w.popped n { env with clocks := ns } rest).trace = w.trace from rfl,
        List.append_left_inj] at hnew
      rw [hnew] at hmem
      rw [hnone _ hmem hdl rfl] at hpub
      cases hpub
  | noReader => cases hreads
  | reader _ _ => cases hreads

theorem dueHandler_mem {w : World} {d : Dispatch} {hdl : Handler}
    (h : dueHandler w d = some hdl) : ∃ x ∈ w.eloop.timeout, x.handler = hdl := by
  cases d with
  | timeout env =>
      cases hclocks : env.clocks with
      | nil => simp [dueHandler, hclocks] at h
      | cons n ns =>
          cases hlist : w.eloop.timeout with
          | nil => simp [dueHandler, hclocks, hlist] at h
          | cons x rest =>
              simp only [dueHandler, hclocks, hlist] at h
              split at h
              · cases h
              · exact ⟨x, List.mem_cons_self .., Option.some.inj h⟩
  | readers env dgram => cases h
  | selectFailed env => cases h

/-- Whoever has a publish registered is initialised. -/
structure PublishesReady (w : World) : Prop where
  inited : Inited (fun _ => False) w
  registered : ∀ p, .registerTimeout (.eloopSetPublish p) ∈ w.trace → Ready w p.conn

/-- `mqtt_publish` has only been called on initialised clients. -/
def PublishedReady (trace : List Event) : Prop :=
  ∀ p initialised, .publish p initialised ∈ trace → initialised = true

theorem PublishesReady.step {w t : World} {d : Dispatch} (h : PublishesReady w)
    (hready : UploaderReady w d) (he : DispatchEnd w d t)
    (htrace : t.trace = newEvents w d ++ w.trace) : PublishesReady t := by
  have hsince : Inited (Ready w) w := { h.inited with since := fun _ hc => hc }
  have ht := hsince.dispatchEnd he
  refine ⟨h.inited.dispatchEnd he, fun p hmem => ?_⟩
  rw [htrace] at hmem
  rcases List.mem_append.mp hmem with hnew | hold
  · cases hp : p.conn with
    | mqupld =>
        exact ht.since _ (uploader_of_registered hready hnew (decide_eq_true hp))
    | mqrecv =>
        cases hreads : d.reads with
        | false => exact recv_of_registered h.inited ht he htrace hreads hnew rfl
        | true =>
            have hup := ofDispatch_newEvents d w _ hnew
            simp only [Event.OfDispatch, hreads, ↓reduceIte] at hup
            have := of_decide_eq_true (hup rfl)
            rw [hp] at this
            cases this
  · exact ht.since _ (h.registered p hold)

theorem published_newEvents {w : World} {d : Dispatch} (h : PublishesReady w) (p : SetPublish)
    (initialised : Bool) (hmem : .publish p initialised ∈ newEvents w d) :
    initialised = true := by
  obtain ⟨hdue, hinit⟩ := ofDispatch_newEvents d w _ hmem
  obtain ⟨x, hx, hhdl⟩ := dueHandler_mem hdue
  rw [hinit]
  exact h.registered p (hhdl ▸ h.inited.timers x hx)

/-- Deferred publishes only reach initialised clients, as long as no upload is
asked for before `mqtt_init` has been called on the uploader. -/
theorem published_inRun (w : World) (h : InRun UploaderReady w) : PublishedReady w.trace := by
  refine Seen.invariant (I := fun w => PublishesReady w ∧ PublishedReady w.trace)
    (J := fun w => PublishedReady w.trace) (fun w hw => ?_) (fun d s hs => ?_) (fun _ h => h.2) h
  · have hstart := Inited.start hw
    obtain ⟨arg, agent, sock, clock, env, -, rfl⟩ := hw
    refine ⟨⟨hstart, fun p hmem => ?_⟩, fun p initialised hmem => ?_⟩
    · cases List.mem_singleton.mp hmem
    · cases List.mem_singleton.mp hmem
  · obtain ⟨⟨hpub, hold⟩, hready⟩ := hs
    have hstep : ∀ t : World, t.trace = newEvents s d ++ s.trace → PublishedReady t.trace := by
      intro t ht p initialised hmem
      rw [ht] at hmem
      rcases List.mem_append.mp hmem with hmem | hmem
      · exact published_newEvents hpub p initialised hmem
      · exact hold p initialised hmem
    exact ((dispatch_ends d s).and (dispatch_trace d s)).mono
      (fun _ t h => ⟨hpub.step hready h.1 h.2, hstep t h.2⟩) fun _ t h => hstep t h.2

theorem published_inRun_oneMessage : PublishedReady (runs oneMessage).trace :=
  published_inRun _ (.between (runs_between _ (by decide +kernel)))

/-- A test message is asked for in the first second, before any connection. -/
def earlySendtest : List Dispatch :=
  [.readers quiet (some (bytes "sendtest")), .timeout (after 200000 [])]

def Event.isEarlyPublish : Event → Bool
  | .publish _ initialised => !initialised
  | _ => false

/-- `mqtt_publish` gets a client that has never been initialised. -/
theorem published_uninitialised : ¬ ∀ w, InRun Always w → PublishedReady w.trace := by
  intro h
  have hfirst : (runs earlySendtest).trace.any Event.isEarlyPublish = true := by decide +kernel
  obtain ⟨e, hmem, he⟩ := List.any_eq_true.mp hfirst
  cases e with
  | publish p initialised =>
      have hinit := h _ (runs_inRun earlySendtest) p initialised hmem
      rw [Event.isEarlyPublish, hinit] at he
      cases he
  | _ => cases he

end Admlink
