import Admlink.Logged

/-!
# Initialised clients

`mqtt_init` is never undone, and a connection that is up, or whose client has a
socket, has been through it; so has the receiver once the uploader has. Whoever
is synchronised therefore has an initialised client (`Inited`). The same
invariant records that every pending timer has been registered.
-/

namespace Admlink

open Program Relation Runs

/-- `mqtt_init` has been called on the client of `c`. -/
def Ready (w : World) (c : Conn) : Prop := (w.conn c).mqclt.mq.isSome = true

instance (w : World) (c : Conn) : Decidable (Ready w c) := by
  unfold Ready; infer_instance

theorem ready_congr {w t : World} {c : Conn} (h : SameLink (w.conn c).mqclt (t.conn c).mqclt) :
    Ready t c ↔ Ready w c := by
  rw [Ready, Ready, h.ready]

/-- `base` holds of the connections that have been initialised before. -/
structure Inited (base : Conn → Prop) (w : World) : Prop where
  timers : ∀ x ∈ w.eloop.timeout, .registerTimeout x.handler ∈ w.trace
  used : ∀ c, (w.conn c).mqclt.socketfd ≠ none ∨ (w.conn c).status ≠ 0 → Ready w c
  order : Ready w .mqupld → Ready w .mqrecv
  since : ∀ c, base c → Ready w c

namespace Inited

variable {base : Conn → Prop} {c : Conn} {w t u : World}

/-- Whichever connection is initialised, the receiver is. -/
theorem recv (h : Inited base w) (hc : Ready w c) : Ready w .mqrecv := by
  cases c with
  | mqrecv => exact hc
  | mqupld => exact h.order hc

/-- A change that no client's queue or socket sees. -/
theorem of_link (h : Inited base w)
    (hlink : ∀ d, SameLink (w.conn d).mqclt (t.conn d).mqclt)
    (hstatus : ∀ d, (t.conn d).status ≠ 0 → (w.conn d).status ≠ 0)
    (htimers : ∀ x ∈ t.eloop.timeout, .registerTimeout x.handler ∈ t.trace) : Inited base t where
  timers := htimers
  used d hd := by
    rw [ready_congr (hlink d)]
    rw [(hlink d).socketfd] at hd
    exact h.used d (hd.imp_right (hstatus d))
  order hd := by
    rw [ready_congr (hlink _)] at hd ⊢
    exact h.order hd
  since d hd := by
    rw [ready_congr (hlink d)]
    exact h.since d hd

/-- A change of the timers, the trace and the time only. -/
theorem of_conn (h : Inited base w) (hconn : ∀ d, t.conn d = w.conn d)
    (htimers : ∀ x ∈ t.eloop.timeout, .registerTimeout x.handler ∈ t.trace) : Inited base t :=
  h.of_link (fun d => by rw [hconn]; exact .refl _) (fun d hd => by rwa [hconn] at hd) htimers

theorem frame (h : Inited base w) (hf : Frame c w t) : Inited base t := by
  refine h.of_link hf.link_all (fun d hd => by rwa [hf.status_all] at hd) fun x hx => ?_
  rcases hf.pending x hx with hw | ht
  · exact hf.logs.mem_of_mem (h.timers x hw)
  · exact ht

theorem closed (h : Inited base w) (hc : Closed c w t) : Inited base t := by
  have htimers : ∀ x ∈ t.eloop.timeout, .registerTimeout x.handler ∈ t.trace := by
    cases hc with
    | reset _ => exact h.timers
    | released _ hpath _ =>
        exact fun x hx => List.mem_cons_of_mem _ ((h.frame (SyncPath.frame hpath)).timers x hx)
  refine h.of_link (fun d => ?_) (fun d hd => ?_) htimers
  · by_cases hdc : d = c
    · rw [hdc]
      exact hc.link
    · rw [hc.other hdc]
      exact .refl _
  · by_cases hdc : d = c
    · rw [hdc, hc.status] at hd
      exact absurd rfl hd
    · rwa [hc.other hdc] at hd

theorem registered (h : Inited base w) (secs usecs : Nat) (hdl : Handler) (d : Nat) (env : Env) :
    Inited base (w.registered secs usecs hdl d env) := by
  refine h.of_conn (fun _ => rfl) fun x hx => ?_
  rcases StableQueue.mem_insert.mp hx with rfl | hx
  · exact List.mem_cons_self ..
  · exact List.mem_cons_of_mem _ (h.timers x hx)

/-! ## Opening -/

theorem refused (h : Inited base w) : Inited base (w.refused c) := by
  refine h.of_link (fun d => ?_) (fun d hd => ?_) fun x hx => ?_
  · by_cases hdc : d = c
    · rw [hdc, World.conn_refused_same]
      exact .refl _
    · rw [w.conn_refused_other hdc]
      exact .refl _
  · by_cases hdc : d = c
    · rw [hdc, World.conn_refused_same] at hd
      rwa [hdc]
    · rwa [w.conn_refused_other hdc] at hd
  · exact List.mem_append_right
      [.sslCtxFree _, .bioFreeAll _, .bioNew .., .sslCtxNew _] (h.timers x hx)

theorem ready_connected (w : World) (c : Conn) (connfd : Nat) :
    Ready (w.connected c connfd) c := by
  obtain ⟨packed, hcl⟩ := client_connected w c connfd
  rw [Ready, hcl]
  rfl

/-- `mqtt_init` on `c`; on the uploader it comes after the receiver's. -/
theorem connected (h : Inited base w) (hc : c = .mqupld → Ready w .mqrecv) (connfd : Nat) :
    Inited base (w.connected c connfd) := by
  have hready : ∀ d, Ready w d → Ready (w.connected c connfd) d := by
    intro d hd
    by_cases hdc : d = c
    · rw [hdc]
      exact ready_connected w c connfd
    · rwa [Ready, w.conn_connected_other hdc]
  refine ⟨fun x hx => ?_, fun d hd => ?_, fun _ => ?_, fun d hd => hready d (h.since d hd)⟩
  · exact List.mem_append_right [.mqttInit _, .bioNew .., .sslCtxNew _] (h.timers x hx)
  · by_cases hdc : d = c
    · rw [hdc]
      exact ready_connected w c connfd
    · rw [w.conn_connected_other hdc] at hd
      exact hready d (h.used d hd)
  · cases c with
    | mqrecv => exact ready_connected w .mqrecv connfd
    | mqupld => exact hready _ (hc rfl)

theorem up (h : Inited base w) (hc : Ready w c) (d : Nat) (env : Env) :
    Inited base (w.up c d env) := by
  have hstatus : Inited base (w.setConn c { w.conn c with status := 1 }) := by
    have hready : ∀ d, Ready (w.setConn c { w.conn c with status := 1 }) d ↔ Ready w d := by
      intro d
      by_cases hdc : d = c
      · rw [hdc, Ready, Ready, World.conn_setConn_same]
      · rw [Ready, Ready, World.conn_setConn_other _ hdc]
    refine ⟨h.timers, fun d hd => ?_, fun hd => ?_, fun d hd => ?_⟩
    · rw [hready]
      by_cases hdc : d = c
      · rwa [hdc]
      · rw [World.conn_setConn_other _ hdc] at hd
        exact h.used d hd
    · rw [hready] at hd ⊢
      exact h.order hd
    · rw [hready]
      exact h.since d hd
  exact hstatus.registered 0 mqttSynT (.agHandleClttraffic c) d env

theorem connectEnd {b : Bool} (h : Inited base w) (hc : c = .mqupld → Ready w .mqrecv)
    (he : ConnectEnd c w b t) : Inited base t := by
  cases he with
  | refused _ => exact h.refused
  | failed _ hr _ => exact (h.connected hc _).frame ((frame_agSync c).of_ok hr)
  | up d env _ hpath =>
      have hf := SyncPath.frame hpath
      refine ((h.connected hc _).frame hf).up ?_ d env
      rw [ready_congr (hf.link_all c)]
      exact ready_connected w c _

/-- An attempt that comes back with the connection up has initialised it. -/
theorem ready_connectEnd (he : ConnectEnd c w true t) : Ready t c := by
  cases he with
  | up d env _ hpath =>
      rw [Ready, World.conn_up_same]
      exact (ready_congr ((SyncPath.frame hpath).link_all c)).mpr (ready_connected w c _)

/-- The check of the uploader is reached only with an initialised receiver. -/
theorem recvUp (h : Inited base w) (hu : RecvUp w u) : Inited base u ∧ Ready u .mqrecv := by
  cases hu with
  | already h0 => exact ⟨h, h.used _ (.inr h0)⟩
  | now _ hc => exact ⟨h.connectEnd (by simp) hc, ready_connectEnd hc⟩

theorem checksEnd {b : Bool} (h : Inited base w) (hc : ChecksEnd w b t) : Inited base t := by
  cases hc with
  | recv _ hc => exact h.connectEnd (by simp) hc
  | upld _ hu _ hc => exact (h.recvUp hu).1.connectEnd (fun _ => (h.recvUp hu).2) hc
  | both hu _ => exact (h.recvUp hu).1

/-! ## Dispatches -/

theorem publishing (h : Inited base w) {p : SetPublish} {r : MqttErrors × Client}
    (hr : w.callPublish p = .ok r) :
    Inited base ((w.publishing p).setClient p.conn r.2) := by
  refine h.of_link (fun d => ?_) (fun d hd => ?_) fun x hx =>
    List.mem_cons_of_mem _ (h.timers x hx)
  · by_cases hd : d = p.conn
    · rw [hd, World.conn_setClient_same]
      exact link_of_callPublish hr
    · rw [World.conn_setClient_other _ hd]
      exact .refl _
  · by_cases hdc : d = p.conn
    · rw [hdc, World.conn_setClient_same] at hd
      rwa [hdc]
    · rwa [World.conn_setClient_other _ hdc] at hd

theorem handlerEnd {hdl : Handler} (h : Inited base w) (he : HandlerEnd hdl w t) :
    Inited base t := by
  cases hdl with
  | chkAgstatm =>
      cases he with
      | down d env hc => exact (h.checksEnd hc).registered ..
      | good tm env d env' _ hc =>
          have hu : Inited base (World.checked _ tm env) :=
            (h.checksEnd hc).of_conn (fun _ => rfl) (h.checksEnd hc).timers
          exact hu.registered ..
  | agHandleClttraffic c =>
      cases he with
      | again d env hr => exact (h.frame ((frame_agSync c).of_ok hr)).registered ..
      | closed hr _ hc => exact (h.frame ((frame_agSync c).of_ok hr)).closed hc
  | eloopSetPublish p =>
      cases he with
      | queued hr _ => exact h.publishing hr
      | closed hr _ hc => exact (h.publishing hr).closed hc
  | eloopSetExit => exact he.elim

theorem log (h : Inited base w) (e : Event) : Inited base (w.log e) :=
  h.of_conn (fun _ => rfl) fun x hx => List.mem_cons_of_mem _ (h.timers x hx)

theorem request (h : Inited base w) (conn : Conn) (topic_name : Field 128)
    (application_message : Bytes) (publish_flags d : Nat) (env : Env) :
    Inited base (w.request conn topic_name application_message publish_flags d env) := by
  refine h.of_conn (fun _ => rfl) fun x hx => ?_
  rcases StableQueue.mem_insert.mp hx with rfl | hx
  · exact List.mem_cons_self ..
  · exact List.mem_append_right [.registerTimeout _, .request ..] (h.timers x hx)

theorem commandEnd {hdl : Option CmdHdl} (h : Inited base w) (hc : CommandEnd w hdl t) :
    Inited base t := by
  cases hc with
  | unknown => exact h
  | stop d env => exact h.registered ..
  | sendtest msg d env => exact (h.log _).request ..

theorem dispatchEnd {d : Dispatch} (h : Inited base w) (hd : DispatchEnd w d t) :
    Inited base t := by
  have htick : ∀ n env, Inited base (w.tick n env) := fun n env =>
    h.of_conn (fun _ => rfl) h.timers
  cases hd with
  | idle n env => exact htick n env
  | @fired env n ns tm rest _ _ hlist _ he =>
      have hpop : Inited base (w.popped n { env with clocks := ns } rest) :=
        h.of_conn (fun _ => rfl) fun x hx =>
          h.timers x (by rw [hlist]; exact List.mem_cons_of_mem _ hx)
      exact hpop.handlerEnd he
  | noReader => exact htick 0 _
  | @reader env _ _ _ hc =>
      cases hc with
      | silent => exact htick 0 env
      | gated _ => exact (htick 0 env).log _
      | handled tm env' reply _ _ hc =>
          have hhandling : ∀ buf, Inited base ((w.tick 0 env).handling buf tm env') := fun buf =>
            ((htick 0 env).log (.cmdHandle buf)).of_conn (fun _ => rfl)
              ((htick 0 env).log (.cmdHandle buf)).timers
          exact ((hhandling _).commandEnd hc).log _

theorem start (h : IsStart w) : Inited (fun _ => False) w := by
  obtain ⟨arg, agent, sock, clock, env, hcfg, rfl⟩ := h
  have hzero := hcfg.zeroed.2.2
  refine ⟨fun x hx => ?_, fun c hc => ?_, fun hc => ?_, fun c hc => hc.elim⟩
  · rw [List.mem_singleton.mp hx]
    exact List.mem_singleton_self _
  · obtain ⟨leftovers, hclient⟩ := (hzero c).2.2
    rw [World.conn, started, (hzero c).2.1, hclient] at hc
    simp [MqttClient.zeroed] at hc
  · obtain ⟨leftovers, hclient⟩ := (hzero .mqupld).2.2
    rw [Ready, World.conn, started, hclient] at hc
    cases hc

end Inited

end Admlink
