import Admlink.Bios
import Admlink.Logged

/-!
# The pair of `status` and `biofd`

Between two dispatches a connection is down and holds no BIO, or up with a
client that talks to the BIO it holds (`Held`). A first `mqtt_sync` that fails
breaks this: `check_mqrecv` and `check_mqupld` return without freeing the BIO
they have opened, and the next attempt overwrites it. The invariant holds in
all runs without such a failure.
-/

namespace Admlink

open Program Relation Runs

/-! ## First synchronisations that succeed -/

/-- When `open_nb_socket` connects `c`, the first `mqtt_sync` on the new BIO
does not fail. -/
def firstSyncOk (c : Conn) (w : World) : Bool :=
  match w.env.opens c with
  | .connected connfd =>
      match agSync c (w.connected c connfd) with
      | .ok e _ => e = .ok
      | .error _ _ => true
  | _ => true

/-- The same for each connection `chk_agstatm` opens when it runs in `w`. -/
def firstSyncsOk (w : World) : Bool :=
  ((w.conn .mqrecv).status != 0 || firstSyncOk .mqrecv w) &&
    match checkMqrecv w with
    | .ok true u => (u.conn .mqupld).status != 0 || firstSyncOk .mqupld u
    | _ => true

/-- No connection attempt that `d` makes fails after its BIO is connected. -/
def FirstSyncsOk (w : World) (d : Dispatch) : Prop :=
  dueHandler w d = some .chkAgstatm → firstSyncsOk (w.atHandler d) = true

instance (w : World) (d : Dispatch) : Decidable (FirstSyncsOk w d) := by
  unfold FirstSyncsOk; infer_instance

theorem ok_of_firstSyncOk {c : Conn} {w t : World} {connfd : Nat} {e : MqttErrors}
    (h : firstSyncOk c w = true) (ho : w.env.opens c = .connected connfd)
    (hr : agSync c (w.connected c connfd) = .ok e t) : e = .ok := by
  simpa [firstSyncOk, ho, hr] using h

theorem recv_of_firstSyncsOk {w : World} (h : firstSyncsOk w = true)
    (h0 : (w.conn .mqrecv).status = 0) : firstSyncOk .mqrecv w = true := by
  rw [firstSyncsOk, Bool.and_eq_true] at h
  simpa [h0] using h.1

theorem upld_of_firstSyncsOk {w u : World} (h : firstSyncsOk w = true)
    (hr : checkMqrecv w = .ok true u) (h0 : (u.conn .mqupld).status = 0) :
    firstSyncOk .mqupld u = true := by
  rw [firstSyncsOk, Bool.and_eq_true, hr] at h
  simpa [h0] using h.2

/-! ## The invariant -/

inductive HeldAt (p : MqConn) : Prop
  | down : p.status = 0 → p.biofd = none → HeldAt p
  | up {b : BioId} : p.status = 1 → p.biofd = some b → p.mqclt.socketfd = some b → HeldAt p

def Held (w : World) : Prop := ∀ c, HeldAt (w.conn c)

namespace HeldAt

variable {p q : MqConn}

theorem congr (h : HeldAt p) (hstatus : q.status = p.status) (hbiofd : q.biofd = p.biofd)
    (hfd : q.mqclt.socketfd = p.mqclt.socketfd) : HeldAt q := by
  cases h with
  | down h0 hb => exact .down (hstatus.trans h0) (hbiofd.trans hb)
  | up h1 hb hs => exact .up (hstatus.trans h1) (hbiofd.trans hb) (hfd.trans hs)

theorem biofd_none (h : HeldAt p) (h0 : p.status = 0) : p.biofd = none := by
  cases h with
  | down _ hb => exact hb
  | up h1 _ _ =>
      rw [h0] at h1
      cases h1

end HeldAt

namespace Held

variable {c : Conn} {w t u : World}

/-- A change of connection `c` only. -/
theorem replace (h : Held w) (hother : ∀ d, d ≠ c → t.conn d = w.conn d)
    (hc : HeldAt (t.conn c)) : Held t := by
  intro d
  by_cases hdc : d = c
  · rw [hdc]
    exact hc
  · rw [hother d hdc]
    exact h d

theorem frame (h : Held w) (hf : Frame c w t) : Held t := fun d =>
  (h d).congr (hf.status_all d) (hf.biofd_all d) (hf.link_all d).socketfd

theorem closed (h : Held w) (hc : Closed c w t) : Held t :=
  h.replace (fun _ hd => hc.other hd) (.down hc.status hc.biofd)

/-- An attempt that gets past `open_nb_socket` ends with the connection up. -/
theorem connectEnd {b : Bool} (h : Held w) (h0 : (w.conn c).status = 0)
    (hok : firstSyncOk c w = true) (hc : ConnectEnd c w b t) : Held t := by
  cases hc with
  | refused _ =>
      refine h.replace (fun _ => w.conn_refused_other) ?_
      rw [World.conn_refused_same]
      exact .down h0 rfl
  | failed ho hr he => exact absurd (ok_of_firstSyncOk hok ho hr) he
  | @up connfd u n env _ hpath =>
      have hf := SyncPath.frame hpath
      obtain ⟨hfd, -, hsock⟩ := conn_connected w c connfd
      refine h.replace (c := c) (fun d hd => ?_) ?_
      · rw [u.conn_up_other hd, hf.other d hd, w.conn_connected_other hd]
      · rw [World.conn_up_same]
        exact .up rfl (hf.biofd.trans hfd) (hf.link.socketfd.trans hsock)

theorem recvUp (h : Held w) (hok : firstSyncsOk w = true) (hu : RecvUp w u) : Held u := by
  cases hu with
  | already _ => exact h
  | now h0 hc => exact h.connectEnd h0 (recv_of_firstSyncsOk hok h0) hc

theorem checksEnd {b : Bool} (h : Held w) (hok : firstSyncsOk w = true)
    (hc : ChecksEnd w b t) : Held t := by
  cases hc with
  | recv h0 hc => exact h.connectEnd h0 (recv_of_firstSyncsOk hok h0) hc
  | upld hr hu h0 hc =>
      exact (h.recvUp hok hu).connectEnd h0 (upld_of_firstSyncsOk hok hr h0) hc
  | both hu _ => exact h.recvUp hok hu

theorem publishing (h : Held w) {p : SetPublish} {r : MqttErrors × Client}
    (hr : w.callPublish p = .ok r) : Held ((w.publishing p).setClient p.conn r.2) := by
  refine h.replace (c := p.conn) (fun d hd => World.conn_setClient_other _ hd _) ?_
  rw [World.conn_setClient_same]
  exact (h p.conn).congr rfl rfl (link_of_callPublish hr).socketfd

theorem handlerEnd {hdl : Handler} (h : Held w)
    (hok : hdl = .chkAgstatm → firstSyncsOk w = true) (he : HandlerEnd hdl w t) : Held t := by
  cases hdl with
  | chkAgstatm =>
      cases he with
      | down d env hc => exact (h.checksEnd (hok rfl) hc : Held _)
      | good tm env d env' _ hc => exact (h.checksEnd (hok rfl) hc : Held _)
  | agHandleClttraffic c =>
      cases he with
      | again d env hr => exact (h.frame ((frame_agSync c).of_ok hr) : Held _)
      | closed hr _ hc => exact (h.frame ((frame_agSync c).of_ok hr)).closed hc
  | eloopSetPublish p =>
      cases he with
      | queued hr _ => exact h.publishing hr
      | closed hr _ hc => exact (h.publishing hr).closed hc
  | eloopSetExit => exact he.elim

theorem commandEnd {hdl : Option CmdHdl} (h : Held w) (hc : CommandEnd w hdl t) : Held t := by
  cases hc with
  | unknown => exact h
  | stop _ _ => exact h
  | sendtest _ _ _ => exact h

theorem dispatchEnd {d : Dispatch} (h : Held w) (hok : FirstSyncsOk w d)
    (hd : DispatchEnd w d t) : Held t := by
  cases hd with
  | idle _ _ => exact h
  | @fired env n ns tm rest _ hclocks hlist hdue he =>
      have hpop : Held (w.popped n { env with clocks := ns } rest) := h
      refine hpop.handlerEnd (fun hchk => ?_) he
      rw [← atHandler_eq hclocks hlist]
      exact hok (by rw [dueHandler_eq hclocks hlist hdue, hchk])
  | noReader => exact h
  | reader _ hc =>
      cases hc with
      | silent => exact h
      | gated _ => exact h
      | handled tm env reply _ _ hc =>
          have hu : Held _ := commandEnd (by exact h) hc
          exact hu

theorem start (h : IsStart w) : Held w := by
  obtain ⟨arg, agent, sock, clock, env, hcfg, rfl⟩ := h
  intro c
  obtain ⟨hbiofd, hstatus, -⟩ := hcfg.zeroed.2.2 c
  exact .down hstatus hbiofd

end Held

theorem held_between {w : World} (h : Between FirstSyncsOk w) : Held w :=
  h.invariant (fun _ => Held.start) fun d s t hs hc hr => by
    have he := dispatch_ends d s
    rw [hr] at he
    exact hs.dispatchEnd hc he

/-! ## Results -/

/-- `status` is 1 exactly when `biofd` is set, and then `socketfd` equals it. -/
def Represented (w : World) : Prop :=
  ∀ c, ((w.conn c).status = 1 ↔ (w.conn c).biofd ≠ none) ∧
    ((w.conn c).biofd ≠ none → (w.conn c).mqclt.socketfd = (w.conn c).biofd)

/-- A `biofd` that `open_nb_socket` overwrites holds no BIO, or a freed one. -/
def NoneLost (trace : List Event) : Prop :=
  ∀ post pre c old b x, trace = post ++ .bioNew c (some old) b x :: pre →
    .bioFreeAll old ∈ pre

theorem Held.represented {w : World} (h : Held w) : Represented w := by
  intro c
  cases h c with
  | down h0 hb => simp [h0, hb]
  | up h1 hb hs => simp [h1, hb, hs]

/-- Connections are opened over an empty `biofd` only. -/
def OpenedEmpty (w : World) : Prop := ∀ c old b x, .bioNew c old b x ∈ w.trace → old = none

theorem OpenedEmpty.logged {w t : World} {d : Dispatch} (h : OpenedEmpty w) (hw : Held w)
    (hlog : DispatchLogged w d t) : OpenedEmpty t := by
  obtain ⟨new, ht, hnew⟩ := hlog.logs
  intro c old b x hmem
  rw [ht] at hmem
  rcases List.mem_append.mp hmem with hmem | hmem
  · obtain ⟨h0, hold⟩ := hnew _ hmem
    rw [hold]
    exact (hw c).biofd_none h0
  · exact h c old b x hmem

theorem openedEmpty_inRun {w : World} (h : InRun FirstSyncsOk w) : OpenedEmpty w := by
  refine Seen.invariant (I := fun w => Held w ∧ OpenedEmpty w) (J := OpenedEmpty) (fun w hw => ?_)
    (fun d s hs => ?_) (fun _ h => h.2) h
  · refine ⟨Held.start hw, ?_⟩
    obtain ⟨arg, agent, sock, clock, env, -, rfl⟩ := hw
    intro c old b x hmem
    cases List.mem_singleton.mp hmem
  · obtain ⟨⟨hheld, hopen⟩, hok⟩ := hs
    exact ((dispatch_ends d s).and (dispatch_logged d s)).mono
      (fun _ _ h => ⟨hheld.dispatchEnd hok h.1, hopen.logged hheld h.2⟩)
      fun _ _ h => hopen.logged hheld h.2

/-- As long as no first `mqtt_sync` fails, `status` tells whether a connection
holds a BIO, no open BIO is lost and none is freed twice. -/
theorem conns_represented (w : World) : (Between FirstSyncsOk w → Represented w) ∧
    (InRun FirstSyncsOk w → NoneLost w.trace ∧ (freedBios w.trace).Nodup) := by
  refine ⟨fun h => (held_between h).represented, fun h => ⟨fun post pre c old b x hsplit => ?_, ?_⟩⟩
  · have hnone := openedEmpty_inRun h c (some old) b x (by rw [hsplit]; simp)
    cases hnone
  · exact (BioInv.seen (h.weaken fun _ _ _ => trivial)).once

theorem conns_represented_oneMessage : Represented (runs oneMessage) ∧
    NoneLost (runs oneMessage).trace ∧ (freedBios (runs oneMessage).trace).Nodup := by
  have hruns : Between FirstSyncsOk (runs oneMessage) :=
    runs_between oneMessage (by decide +kernel)
  exact ⟨(conns_represented _).1 hruns, (conns_represented _).2 (.between hruns)⟩

/-- The uploader's BIO is connected, then the first read on it fails; the check
after 30 seconds tries again. -/
def failedSync : List Dispatch :=
  [.timeout { after 1000000 [.sent 22] with reads := [.wantRead, .failed] },
    .timeout (after 30000000 [.sent 50]), .timeout (after 0 [.sent 31])]

/-- After the first check the uploader is down and holds BIO 1, which the second
check overwrites. -/
theorem failed_sync_loses_bio : (¬ ∀ w, Between Always w → Represented w) ∧
    ¬ ∀ w, InRun Always w → NoneLost w.trace := by
  constructor
  · intro h
    have hdown : ((runs (failedSync.take 1)).conn .mqupld).status = 0 ∧
        ((runs (failedSync.take 1)).conn .mqupld).biofd = some 1 := by decide +kernel
    have hrep := (h _ (runs_between (failedSync.take 1) (by decide +kernel)) .mqupld).1
    rw [hdown.1, hdown.2] at hrep
    simp at hrep
  · intro h
    have hfresh : .bioFreeAll 1 ∉ (runs failedSync).trace := by decide +kernel
    have hmem : .bioNew .mqupld (some 1) 2 2 ∈ (runs failedSync).trace := by decide +kernel
    obtain ⟨post, pre, hsplit⟩ := List.append_of_mem hmem
    have hfreed := h _ (runs_inRun failedSync) post pre _ _ _ _ hsplit
    exact hfresh (by rw [hsplit]; simp [hfreed])

end Admlink
