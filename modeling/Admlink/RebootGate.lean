import Admlink.Logged
import Admlink.Lib.History

/-!
# The reboot gate of the control interface

`admlink_reboot_rc` sets `agstatus` to `isReboot`, and from then on
`admlink_ctrl_iface_receive` only answers `ok`. One thing opens the gate again:
`check_agstatus` sets `isOk` whenever both connections pass their check. In
runs where that never happens to a daemon that is to reboot, the gate holds.
-/

namespace Admlink

open Program Relation Runs

/-- `chk_agstatm` run in `w` enters `check_agstatus` with a reboot pending. -/
def forgetsReboot (w : World) : Bool :=
  match checkConns w with
  | .ok true u => u.agent.agstatus = .isReboot
  | _ => false

/-- `d` runs no check that both connections pass while a reboot is pending. -/
def RebootRemembered (w : World) (d : Dispatch) : Prop :=
  dueHandler w d = some .chkAgstatm → forgetsReboot (w.atHandler d) = false

instance (w : World) (d : Dispatch) : Decidable (RebootRemembered w d) := by
  unfold RebootRemembered; infer_instance

/-- After a reboot command `e` is no datagram handed to `admlink_cmd_handle`,
and no reply but the fixed one. -/
def GateShut (e : Event) (past : List Event) : Prop :=
  .rebootRc ∈ past → (∀ buf, e ≠ .cmdHandle buf) ∧ ∀ reply, e = .ctrlReply reply →
    reply = strReplyOk

/-- A reboot that was asked for is still pending. -/
structure RebootKept (w : World) : Prop where
  pending : .rebootRc ∈ w.trace → w.agent.agstatus = .isReboot

namespace RebootKept

variable {c : Conn} {w t u : World}

theorem of_eq (h : RebootKept w) (hagstatus : t.agent.agstatus = w.agent.agstatus)
    (htrace : .rebootRc ∈ t.trace → .rebootRc ∈ w.trace) : RebootKept t :=
  ⟨fun ht => hagstatus.trans (h.pending (htrace ht))⟩

theorem frame (h : RebootKept w) (hf : Frame c w t) : RebootKept t := by
  refine ⟨fun ht => ?_⟩
  rcases hf.reboot ht with hw | hboot
  · rcases hf.agstatus with heq | hboot
    · rw [heq]
      exact h.pending hw
    · exact hboot
  · exact hboot

theorem closed (h : RebootKept w) (hc : Closed c w t) : RebootKept t := by
  cases hc with
  | reset _ => exact h.of_eq (World.agstatus_setConn ..) id
  | released _ hpath _ =>
      exact (h.frame (SyncPath.frame hpath)).of_eq (World.agstatus_setConn ..)
        (by simp [World.released])

theorem connected (h : RebootKept w) (connfd : Nat) : RebootKept (w.connected c connfd) :=
  h.of_eq (by cases c <;> rfl) (by simp [World.connected, World.bioOpened, World.ctxOpened])

theorem connectEnd {b : Bool} (h : RebootKept w) (hc : ConnectEnd c w b t) : RebootKept t := by
  cases hc with
  | refused _ =>
      exact h.of_eq (by cases c <;> rfl)
        (by simp [World.refused, World.bioOpened, World.ctxOpened])
  | failed _ hr _ => exact (h.connected _).frame ((frame_agSync c).of_ok hr)
  | up d env _ hpath =>
      exact ((h.connected _).frame (SyncPath.frame hpath)).of_eq (World.agstatus_setConn ..)
        (by simp [World.up])

theorem recvUp (h : RebootKept w) (hu : RecvUp w u) : RebootKept u := by
  cases hu with
  | already _ => exact h
  | now _ hc => exact h.connectEnd hc

theorem checksEnd {b : Bool} (h : RebootKept w) (hc : ChecksEnd w b t) : RebootKept t := by
  cases hc with
  | recv _ hc => exact h.connectEnd hc
  | upld _ hu _ hc => exact (h.recvUp hu).connectEnd hc
  | both hu _ => exact h.recvUp hu

theorem registered (h : RebootKept w) (secs usecs : Nat) (hdl : Handler) (d : Nat) (env : Env) :
    RebootKept (w.registered secs usecs hdl d env) :=
  h.of_eq rfl (by simp [World.registered])

/-- `check_agstatus` forgets a reboot only if one is pending. -/
theorem chkEnd (h : RebootKept w) (hforgets : forgetsReboot w = false) (hc : ChkEnd w t) :
    RebootKept t := by
  cases hc with
  | down d env hc => exact (h.checksEnd hc).registered ..
  | @good u tm env d env' hr hc =>
      have hne : u.agent.agstatus ≠ .isReboot := by simpa [forgetsReboot, hr] using hforgets
      have hchecked : RebootKept (u.checked tm env) :=
        ⟨fun hmem => absurd ((h.checksEnd hc).pending hmem) hne⟩
      exact hchecked.registered ..

theorem handlerEnd {hdl : Handler} (h : RebootKept w)
    (hforgets : hdl = .chkAgstatm → forgetsReboot w = false) (he : HandlerEnd hdl w t) :
    RebootKept t := by
  cases hdl with
  | chkAgstatm => exact h.chkEnd (hforgets rfl) he
  | agHandleClttraffic c =>
      cases he with
      | again d env hr => exact (h.frame ((frame_agSync c).of_ok hr)).registered ..
      | closed hr _ hc => exact (h.frame ((frame_agSync c).of_ok hr)).closed hc
  | eloopSetPublish p =>
      have hpub : ∀ cl, RebootKept ((w.publishing p).setClient p.conn cl) := fun cl =>
        h.of_eq (World.agstatus_setClient ..) (by simp [World.publishing])
      cases he with
      | queued _ _ => exact hpub _
      | closed _ _ hc => exact (hpub _).closed hc
  | eloopSetExit => exact he.elim

theorem commandEnd {hdl : Option CmdHdl} (h : RebootKept w) (hc : CommandEnd w hdl t) :
    RebootKept t := by
  cases hc with
  | unknown => exact h
  | stop d env => exact h.registered ..
  | sendtest msg d env => exact h.of_eq rfl (by simp [World.request, World.ask])

theorem dispatchEnd {d : Dispatch} (h : RebootKept w) (hrem : RebootRemembered w d)
    (hd : DispatchEnd w d t) : RebootKept t := by
  have htick : ∀ n env, RebootKept (w.tick n env) := fun n env => h.of_eq rfl id
  cases hd with
  | idle n env => exact htick n env
  | @fired env n ns tm rest _ hclocks hlist hdue he =>
      have hpop : RebootKept (w.popped n { env with clocks := ns } rest) := h.of_eq rfl id
      refine hpop.handlerEnd (fun hchk => ?_) he
      rw [← atHandler_eq hclocks hlist]
      exact hrem (by rw [dueHandler_eq hclocks hlist hdue, hchk])
  | noReader => exact htick 0 _
  | @reader env dgram _ _ hc =>
      cases hc with
      | silent => exact htick 0 env
      | gated _ => exact (htick 0 env).of_eq rfl (by simp)
      | handled tm env' reply _ _ hc =>
          have hhandling : ∀ buf, RebootKept ((w.tick 0 env).handling buf tm env') :=
            fun _ => (htick 0 env).of_eq rfl (by simp [World.handling])
          exact ((hhandling _).commandEnd hc).of_eq rfl (by simp)

theorem start (h : IsStart w) : RebootKept w := by
  obtain ⟨arg, agent, sock, clock, env, -, rfl⟩ := h
  exact ⟨fun hmem => by cases List.mem_singleton.mp hmem⟩

end RebootKept

/-- What a dispatch logs respects the gate, whether it returns or not. -/
theorem gate_of_logged {w t : World} {d : Dispatch} (hkept : RebootKept w)
    (hgate : History.Each GateShut w.trace) (hlog : DispatchLogged w d t) :
    History.Each GateShut t.trace := by
  obtain ⟨new, ht, hnew⟩ := hlog.logs
  rw [ht]
  refine hgate.append fun post e pre hsplit hmem => ?_
  have he := hnew e (by rw [hsplit]; simp)
  have hold : d.reads = true → .rebootRc ∈ w.trace := by
    intro hreads
    refine (List.mem_append.mp hmem).resolve_left fun hpre => ?_
    have hboot : d.reads = false := hnew .rebootRc (by rw [hsplit]; simp [hpre])
    rw [hreads] at hboot
    cases hboot
  constructor
  · rintro buf rfl
    exact he.2 (hkept.pending (hold he.1))
  · rintro reply rfl
    exact he.2 (hkept.pending (hold he.1))

theorem gate_inRun {w : World} (h : InRun RebootRemembered w) :
    History.Each GateShut w.trace := by
  refine Seen.invariant (I := fun w => RebootKept w ∧ History.Each GateShut w.trace)
    (J := fun w => History.Each GateShut w.trace) (fun w hw => ?_) (fun d s hs => ?_)
    (fun _ h => h.2) h
  · refine ⟨RebootKept.start hw, ?_⟩
    obtain ⟨arg, agent, sock, clock, env, -, rfl⟩ := hw
    exact ⟨fun hmem => by simp at hmem, trivial⟩
  · obtain ⟨⟨hkept, hgate⟩, hrem⟩ := hs
    exact ((dispatch_ends d s).and (dispatch_logged d s)).mono
      (fun _ _ h => ⟨hkept.dispatchEnd hrem h.1, gate_of_logged hkept hgate h.2⟩)
      fun _ _ h => gate_of_logged hkept hgate h.2

/-! ## Results -/

/-- Whatever is received after a reboot command is only answered `ok`. -/
def GateHolds (trace : List Event) : Prop :=
  ∀ post e pre, trace = post ++ e :: pre → .rebootRc ∈ pre →
    (∀ buf, e ≠ .cmdHandle buf) ∧ ∀ reply, e = .ctrlReply reply → reply = strReplyOk

theorem gate_holds (w : World) (h : InRun RebootRemembered w) : GateHolds w.trace :=
  fun _ _ _ hsplit => (gate_inRun h).of_split hsplit

theorem gate_holds_remote :
    GateHolds (runs (remote "1000" ++ [.readers quiet (some (bytes "stop"))])).trace :=
  gate_holds _ (.between (runs_between _ (by decide +kernel)))

/-- After the reboot command the next check comes before the next datagram. -/
def rebootForgotten : List Dispatch :=
  remote "1000" ++ [.timeout (after 29800000 []), .timeout (after 0 []),
    .timeout (after 0 [.sent 82]), .timeout (after 0 []), .readers quiet (some (bytes "sendtest"))]

/-- The datagram is handed to `admlink_cmd_handle`. -/
theorem handled_after_reboot : ¬ ∀ w, InRun Always w → GateHolds w.trace := by
  intro h
  have hsplit : (runs rebootForgotten).trace = (runs rebootForgotten).trace.take 4 ++
      .cmdHandle (bytes "sendtest") :: (runs rebootForgotten).trace.drop 5 := by decide +kernel
  have hboot : .rebootRc ∈ (runs rebootForgotten).trace.drop 5 := by decide +kernel
  exact (h _ (runs_inRun rebootForgotten) _ _ _ hsplit hboot).1 _ rfl

end Admlink
