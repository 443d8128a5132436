import Admlink.Lib.History
import Admlink.Handlers

/-!
# Who holds which BIO

In every world of every run, in the middle of a handler too: a BIO stored in a
connection exists, is not freed and is stored in no other connection, and no
BIO is freed twice (`BioInv`).
-/

namespace Admlink

open Program Relation Runs

/-- The BIOs passed to `BIO_free_all`, newest first. -/
def freedBios (trace : List Event) : List BioId :=
  trace.filterMap fun
    | .bioFreeAll b => some b
    | _ => none

theorem mem_freedBios {trace : List Event} {b : BioId} :
    b ∈ freedBios trace ↔ .bioFreeAll b ∈ trace := by
  rw [freedBios, List.mem_filterMap]
  constructor
  · rintro ⟨e, he, h⟩
    cases e <;> simp at h
    subst h
    exact he
  · exact fun h => ⟨_, h, rfl⟩

theorem freedBios_logs {P : Event → Prop} {w t : World} (h : World.Logs P w t)
    (hP : ∀ b, ¬ P (.bioFreeAll b)) : freedBios t.trace = freedBios w.trace := by
  obtain ⟨new, ht, hnew⟩ := h
  rw [ht, freedBios, List.filterMap_append, List.filterMap_eq_nil_iff.mpr]
  · rfl
  · intro e he
    cases e with
    | bioFreeAll b => exact absurd (hnew _ he) (hP b)
    | _ => rfl

structure BioInv (w : World) : Prop where
  held : ∀ c b, (w.conn c).biofd = some b → b < w.bios ∧ b ∉ freedBios w.trace
  apart : ∀ c d b, (w.conn c).biofd = some b → (w.conn d).biofd = some b → c = d
  fresh : ∀ b, b ∈ freedBios w.trace → b < w.bios
  once : (freedBios w.trace).Nodup

namespace BioInv

variable {c : Conn} {w t u : World}

theorem of_eq (h : BioInv w) (hfd : ∀ d, (t.conn d).biofd = (w.conn d).biofd)
    (hbios : t.bios = w.bios) (hfreed : freedBios t.trace = freedBios w.trace) : BioInv t where
  held c b hb := by
    rw [hbios, hfreed]
    exact h.held c b (by rw [← hfd, hb])
  apart c d b hc hd := h.apart c d b (by rw [← hfd, hc]) (by rw [← hfd, hd])
  fresh b hb := by
    rw [hfreed] at hb
    rw [hbios]
    exact h.fresh b hb
  once := by
    rw [hfreed]
    exact h.once

theorem frame (h : BioInv w) (hf : Frame c w t) : BioInv t :=
  h.of_eq hf.biofd_all hf.bios (freedBios_logs hf.logs fun _ h => h)

theorem log (h : BioInv w) {e : Event} (he : ∀ b, e ≠ .bioFreeAll b) : BioInv (w.log e) :=
  h.of_eq (fun _ => rfl) rfl
    (freedBios_logs (P := (· = e)) (.log rfl) fun b hb => he b hb.symm)

/-- A change of connection `c` that keeps its BIO or lets go of it. -/
theorem setConn (h : BioInv w) {m : MqConn}
    (hm : m.biofd = (w.conn c).biofd ∨ m.biofd = none) : BioInv (w.setConn c m) := by
  have hfd : ∀ d b, ((w.setConn c m).conn d).biofd = some b → (w.conn d).biofd = some b := by
    intro d b hb
    by_cases hd : d = c
    · subst hd
      rw [World.conn_setConn_same] at hb
      rcases hm with hm | hm
      · rw [← hm, hb]
      · rw [hm] at hb
        cases hb
    · rwa [World.conn_setConn_other w hd] at hb
  exact {
    held := fun d b hb => h.held d b (hfd d b hb)
    apart := fun d d' b hd hd' => h.apart d d' b (hfd d b hd) (hfd d' b hd')
    fresh := h.fresh
    once := h.once }

theorem halted (h : BioInv w) : BioInv w.halted :=
  h.of_eq (fun d => by rw [World.conn_halted]) w.bios_halted
    (freedBios_logs w.logs_halted fun b => by simp)

/-- Freeing the BIO that `c` holds, and forgetting it. -/
theorem released (h : BioInv w) {b : BioId} (hb : (w.conn c).biofd = some b) :
    BioInv (w.released c b) := by
  have hconn : ∀ d b', ((w.released c b).conn d).biofd = some b' →
      (w.conn d).biofd = some b' ∧ b' ≠ b := by
    intro d b' hd
    by_cases hdc : d = c
    · subst hdc
      simp [World.released] at hd
    · rw [World.released, World.conn_setConn_other _ hdc, World.conn_log] at hd
      exact ⟨hd, fun h' => hdc (h.apart d c b (h' ▸ hd) hb)⟩
  have hfreed : freedBios (w.released c b).trace = b :: freedBios w.trace := rfl
  refine ⟨fun d b' hd => ?_, fun d d' b' hd hd' => ?_, fun b' hb' => ?_, ?_⟩
  · obtain ⟨hold, hne⟩ := hconn d b' hd
    rw [hfreed, List.mem_cons]
    exact ⟨(h.held d b' hold).1, fun hm => hm.elim hne (h.held d b' hold).2⟩
  · exact h.apart d d' b' (hconn d b' hd).1 (hconn d' b' hd').1
  · rw [hfreed, List.mem_cons] at hb'
    rcases hb' with rfl | hb'
    · exact (h.held c _ hb).1
    · exact h.fresh b' hb'
  · rw [hfreed, List.nodup_cons]
    exact ⟨(h.held c b hb).2, h.once⟩

theorem closed (h : BioInv w) (hc : Closed c w t) : BioInv t := by
  cases hc with
  | reset _ => exact h.setConn (.inl rfl)
  | released hb hpath _ =>
      have hf := SyncPath.frame hpath
      exact (h.frame hf).released (by rw [hf.biofd, hb])

theorem closeStop (h : BioInv w) (hc : CloseStop c w t) : BioInv t :=
  h.frame (SyncStop.frame hc.sync)

theorem shutEnd (h : BioInv w) (hs : ShutEnd w t) : BioInv t := by
  cases hs with
  | recv hc => exact h.halted.closeStop hc
  | upld hu hc => exact (h.halted.closed hu).closeStop hc
  | exit hu hc => exact (h.halted.closed hu).closed hc

/-! ## Opening -/

theorem ctxOpened (h : BioInv w) : BioInv (w.ctxOpened c) := by
  have hctx : BioInv { w.log (.sslCtxNew w.ctxs) with ctxs := w.ctxs + 1 } :=
    (h.log (e := .sslCtxNew w.ctxs) (by simp)).of_eq (fun _ => rfl) rfl rfl
  exact hctx.setConn (.inl rfl)

/-- The new BIO has never been seen before. -/
theorem bioOpened (h : BioInv w) : BioInv (w.bioOpened c) := by
  have hfreed : freedBios (w.bioOpened c).trace = freedBios w.trace := rfl
  have hbios : (w.bioOpened c).bios = w.bios + 1 := rfl
  have hsame : ((w.bioOpened c).conn c).biofd = some w.bios := by simp [World.bioOpened]
  have hother : ∀ d, d ≠ c → (w.bioOpened c).conn d = w.conn d := fun d hd => by
    rw [World.bioOpened, World.conn_setConn_other _ hd]
    exact World.conn_setConn_other _ hd _
  refine ⟨fun d b hb => ?_, fun d d' b hd hd' => ?_, fun b hb => ?_, h.once⟩
  · rw [hfreed, hbios]
    by_cases hdc : d = c
    · rw [hdc, hsame, Option.some.injEq] at hb
      subst hb
      exact ⟨Nat.lt_succ_self _, fun hm => absurd (h.fresh _ hm) (Nat.lt_irrefl _)⟩
    · rw [hother d hdc] at hb
      exact ⟨Nat.lt_succ_of_lt (h.held d b hb).1, (h.held d b hb).2⟩
  · by_cases hdc : d = c <;> by_cases hdc' : d' = c
    · rw [hdc, hdc']
    · rw [hdc, hsame, Option.some.injEq] at hd
      rw [hother d' hdc', ← hd] at hd'
      exact absurd (h.held d' _ hd').1 (Nat.lt_irrefl _)
    · rw [hdc', hsame, Option.some.injEq] at hd'
      rw [hother d hdc, ← hd'] at hd
      exact absurd (h.held d _ hd).1 (Nat.lt_irrefl _)
    · rw [hother d hdc] at hd
      rw [hother d' hdc'] at hd'
      exact h.apart d d' b hd hd'
  · rw [hfreed] at hb
    exact Nat.lt_succ_of_lt (h.fresh b hb)

theorem refused (h : BioInv w) : BioInv (w.refused c) := by
  have hb : ((w.bioOpened c).conn c).biofd = some w.bios := by simp [World.bioOpened]
  have hrel := ((h.bioOpened (c := c)).released hb).log (e := .sslCtxFree w.ctxs) (by simp)
  refine hrel.of_eq (fun d => ?_) rfl rfl
  by_cases hdc : d = c
  · subst hdc
    simp [World.refused, World.released]
  · simp [World.refused, World.released, World.conn_setConn_other _ hdc]

theorem connected (h : BioInv w) (connfd : Nat) : BioInv (w.connected c connfd) := by
  refine ((h.bioOpened (c := c)).log (e := .mqttInit c) (by simp)).setConn (.inl ?_)
  simp [World.bioOpened]

theorem openExit (h : BioInv w) (ho : OpenExit c w t) : BioInv t := by
  cases ho with
  | noBio hs => exact h.ctxOpened.shutEnd hs
  | bio hs => exact h.bioOpened.shutEnd hs

theorem registered (h : BioInv w) (secs usecs : Nat) (hdl : Handler) (d : Nat) (env : Env) :
    BioInv (w.registered secs usecs hdl d env) := h.of_eq (fun _ => rfl) rfl rfl

theorem up (h : BioInv w) (d : Nat) (env : Env) : BioInv (w.up c d env) :=
  (h.setConn (c := c) (m := { w.conn c with status := 1 }) (.inl rfl)).of_eq
    (fun _ => rfl) rfl rfl

theorem connectEnd {b : Bool} (h : BioInv w) (hc : ConnectEnd c w b t) : BioInv t := by
  cases hc with
  | refused _ => exact h.refused
  | failed _ hr _ => exact (h.connected _).frame ((frame_agSync c).of_ok hr)
  | up d env _ hpath => exact ((h.connected _).frame (SyncPath.frame hpath)).up d env

theorem connectStop (h : BioInv w) (hc : ConnectStop c w t) : BioInv t := by
  cases hc with
  | exit ho => exact h.openExit ho
  | sync hs => exact (h.connected _).frame (SyncStop.frame hs)
  | @timer _ u d env hpath =>
      have hu := (h.connected _).frame (SyncPath.frame hpath)
      exact (hu.setConn (c := c) (m := { u.conn c with status := 1 }) (.inl rfl)).of_eq
        (fun _ => rfl) rfl rfl

/-! ## Every dispatch -/

theorem recvUp (h : BioInv w) (hu : RecvUp w u) : BioInv u := by
  cases hu with
  | already _ => exact h
  | now _ hc => exact h.connectEnd hc

theorem checksEnd {b : Bool} (h : BioInv w) (hc : ChecksEnd w b t) : BioInv t := by
  cases hc with
  | recv _ hc => exact h.connectEnd hc
  | upld _ hu _ hc => exact (h.recvUp hu).connectEnd hc
  | both hu _ => exact h.recvUp hu

theorem publishing (h : BioInv w) (p : SetPublish) (cl : Client) :
    BioInv ((w.publishing p).setClient p.conn cl) := by
  have hlog : BioInv (w.publishing p) := h.log (by simp)
  exact hlog.setConn (.inl rfl)

theorem handlerEnd (h : BioInv w) {hdl : Handler} (he : HandlerEnd hdl w t) : BioInv t := by
  cases hdl with
  | chkAgstatm =>
      cases he with
      | down d env hc => exact (h.checksEnd hc).registered ..
      | good tm env d env' _ hc =>
          have hu : BioInv (World.checked _ tm env) :=
            (h.checksEnd hc).of_eq (fun _ => rfl) rfl rfl
          exact hu.registered ..
  | agHandleClttraffic c =>
      cases he with
      | again d env hr => exact (h.frame ((frame_agSync c).of_ok hr)).registered ..
      | closed hr _ hc => exact (h.frame ((frame_agSync c).of_ok hr)).closed hc
  | eloopSetPublish p =>
      cases he with
      | queued _ _ => exact h.publishing p _
      | closed _ _ hc => exact (h.publishing p _).closed hc
  | eloopSetExit => exact he.elim

theorem handlerStop (h : BioInv w) {hdl : Handler} (he : HandlerStop hdl w t) : BioInv t := by
  cases hdl with
  | chkAgstatm =>
      cases he with
      | checks hc =>
          cases hc with
          | recv _ hc => exact h.connectStop hc
          | upld hu _ hc => exact (h.recvUp hu).connectStop hc
      | err hc hs => exact (h.checksEnd hc).shutEnd hs
      | date hc => exact h.checksEnd hc
      | down d env hc => exact (h.checksEnd hc).of_eq (fun _ => rfl) rfl rfl
      | good tm env d env' _ hc => exact (h.checksEnd hc).of_eq (fun _ => rfl) rfl rfl
  | agHandleClttraffic c =>
      cases he with
      | sync hs => exact h.frame (SyncStop.frame hs)
      | close hr _ hc => exact (h.frame ((frame_agSync c).of_ok hr)).closeStop hc
      | timer d env hr =>
          exact (h.frame ((frame_agSync c).of_ok hr)).of_eq (fun _ => rfl) rfl rfl
  | eloopSetPublish p =>
      cases he with
      | fault _ => exact h.log (by simp)
      | close _ _ hc => exact (h.publishing p _).closeStop hc
  | eloopSetExit => exact h.shutEnd he

theorem commandEnd {hdl : Option CmdHdl} (h : BioInv w) (hc : CommandEnd w hdl t) :
    BioInv t := by
  cases hc with
  | unknown => exact h
  | stop d env => exact h.registered ..
  | sendtest msg d env => exact h.of_eq (fun _ => rfl) rfl rfl

theorem commandStop {hdl : Option CmdHdl} (h : BioInv w) (hc : CommandStop w hdl t) :
    BioInv t := by
  cases hc with
  | text => exact h
  | _ => exact h.of_eq (fun _ => rfl) rfl rfl

theorem handling (h : BioInv w) (buf : Bytes) (tm : Tm) (env : Env) :
    BioInv (w.handling buf tm env) := h.of_eq (fun _ => rfl) rfl rfl

theorem dispatchEnd (h : BioInv w) {d : Dispatch} (hd : DispatchEnd w d t) : BioInv t := by
  cases hd with
  | idle d env => exact h.of_eq (fun _ => rfl) rfl rfl
  | fired _ _ _ he => exact (h.of_eq (fun _ => rfl) rfl rfl : BioInv (w.popped ..)).handlerEnd he
  | noReader => exact h.of_eq (fun _ => rfl) rfl rfl
  | @reader env _ _ _ hc =>
      have ht : BioInv (w.tick 0 env) := h.of_eq (fun _ => rfl) rfl rfl
      cases hc with
      | silent => exact ht
      | gated _ => exact ht.log (by simp)
      | handled tm env' reply _ _ hc => exact ((ht.handling ..).commandEnd hc).log (by simp)

theorem dispatchStop (h : BioInv w) {d : Dispatch} (hd : DispatchStop w d t) : BioInv t := by
  cases hd with
  | clock => exact h.of_eq (fun _ => rfl) rfl rfl
  | fired _ _ _ he =>
      exact (h.of_eq (fun _ => rfl) rfl rfl : BioInv (w.popped ..)).handlerStop he
  | @reader env _ _ _ hc =>
      have ht : BioInv (w.tick 0 env) := h.of_eq (fun _ => rfl) rfl rfl
      cases hc with
      | date _ _ => exact ht.log (by simp)
      | command tm env' _ _ hc => exact (ht.handling ..).commandStop hc
  | @out env _ hs =>
      exact (h.of_eq (fun _ => rfl) rfl rfl : BioInv (w.tick 0 env)).shutEnd hs

theorem start (h : IsStart w) : BioInv w := by
  obtain ⟨arg, agent, sock, clock, env, hcfg, rfl⟩ := h
  have hnone : ∀ c, ((started agent sock clock env).conn c).biofd = none :=
    fun c => (hcfg.zeroed.2.2 c).1
  exact {
    held := fun c b hb => by rw [hnone] at hb; cases hb
    apart := fun c d b hb => by rw [hnone] at hb; cases hb
    fresh := fun b hb => absurd hb (List.not_mem_nil)
    once := List.nodup_nil }

/-- It holds in every world of every run. -/
theorem seen (h : InRun Always w) : BioInv w :=
  Seen.invariant (I := BioInv) (J := BioInv) (fun _ => start)
    (fun d s hs => (dispatch_ends d s).mono (fun _ _ => hs.1.dispatchEnd)
      fun _ _ => hs.1.dispatchStop) (fun _ h => h) h

end BioInv

end Admlink
