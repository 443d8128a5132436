import Admlink.Lib.Runs

/-!
# The name of the control socket

All daemons of a host use the one name `CTRL_INTERFACE/if0`. `bind` refuses it
while it exists, but `unlink` removes it no matter whose socket it names.
`admlink_ctrl_iface_deinit` unlinks only what its process has bound;
`admlink_ctrl_iface_init` unlinks also after its `bind` was refused, and so
does a process that is stopped while `ctrl_sock` is still zero.
-/

namespace Admlink

open Program Runs

/-! ## The processes of a host -/

/-- `ctrl_sock`: -1, the zero `memset` left there, or the socket bound to the name. -/
inductive CtrlSock
  | none
  | zeroed
  | bound
  deriving DecidableEq

/-- What a daemon process does next. -/
inductive Proc
  /-- `main` up to `interfaces.admcd[0] = &admcd`. -/
  | main
  /-- The call of `admlink_ctrl_iface_init`, which sets `ctrl_sock` to -1. -/
  | init
  | mkdir
  | socket
  | bind
  | chmod
  /-- `admlinkd->ctrl_sock = s` and `return 0`. -/
  | ret
  /-- The label `fail`; `fname` says whether the path is set. -/
  | fail (fname : Bool)
  /-- `eloop_run`. -/
  | run
  /-- `admlink_ctrl_iface_deinit` up to the store of -1 in `ctrl_sock`. -/
  | deinit (ctrl_sock : CtrlSock)
  /-- The `unlink` of `admlink_ctrl_iface_deinit`, after `sock` was closed. -/
  | unlink (sock : CtrlSock)
  | rmdir
  /-- The rest of the shutdown. -/
  | leave
  | gone
  deriving DecidableEq

/-- `admlinkd->ctrl_sock` of the process. -/
def Proc.ctrl_sock : Proc → CtrlSock
  | .main | .init => .zeroed
  | .run => .bound
  | .deinit ctrl_sock => ctrl_sock
  | .mkdir | .socket | .bind | .chmod | .ret | .fail _ | .unlink _ | .rmdir | .leave
  | .gone => .none

structure Host where
  /-- `CTRL_INTERFACE` exists. -/
  dir : Bool
  /-- The process whose socket `CTRL_INTERFACE/if0` is bound to. -/
  name : Option Nat
  /-- The processes started so far, by number. -/
  procs : List Proc
  deriving DecidableEq

inductive HostAct
  | start
  /-- Process `p` goes on; `fails` is the answer to a call that may fail. -/
  | call (p : Nat) (fails : Bool)
  /-- SIGINT or SIGTERM. -/
  | stop (p : Nat)
  | crash (p : Nat)

namespace Host

def goTo (h : Host) (p : Nat) (proc : Proc) : Host :=
  { h with procs := h.procs.set p proc }

/-- The next call of process `p`. -/
def call (h : Host) (p : Nat) (fails : Bool) : Proc → Host
  | .main => h.goTo p .init
  | .init => h.goTo p .mkdir
  | .mkdir =>
      -- EEXIST is no failure
      if fails then h.goTo p (.fail false) else { h with dir := true }.goTo p .socket
  | .socket => h.goTo p (if fails then .fail false else .bind)
  | .bind =>
      if h.dir && h.name.isNone && !fails then { h with name := some p }.goTo p .chmod
      else h.goTo p (.fail true)
  | .chmod => h.goTo p (if h.name.isSome && !fails then .ret else .fail true)
  | .ret => h.goTo p .run
  | .fail fname =>
      { h with name := if fname then none else h.name }.goTo p (.deinit .none)
  | .run => h.goTo p (.deinit .bound)
  | .deinit sock => h.goTo p (if sock = .none then .leave else .unlink sock)
  | .unlink _ => { h with name := none }.goTo p .rmdir
  | .rmdir => { h with dir := h.dir && (h.name.isSome || fails) }.goTo p .leave
  | .leave | .gone => h.goTo p .gone

/-- Where `handle_stop` takes a process. It does not come back. Before
`interfaces.admcd` is set `exit_link` reads through a null pointer. -/
def stopped : Proc → Proc
  | .main | .gone => .gone
  | proc => .deinit proc.ctrl_sock

def act (h : Host) : HostAct → Host
  | .start => { h with procs := h.procs ++ [.main] }
  | .call p fails => (h.procs[p]?.map (h.call p fails)).getD h
  | .stop p => (h.procs[p]?.map fun proc => h.goTo p (stopped proc)).getD h
  | .crash p => h.goTo p .gone

def step (a : HostAct) : EStateM Empty Host Unit := modify (·.act a)

/-- No daemon has run yet. -/
def Fresh (h : Host) : Prop := h.name = none ∧ h.procs = []

/-- Every process whose control socket is open can be reached under the name. -/
def Reachable (h : Host) : Prop :=
  ∀ p proc, h.procs[p]? = some proc → proc.ctrl_sock = .bound → h.name = some p

end Host

/-! ## Whose name is removed -/

/-- The process has bound the name and has not yet removed it. -/
def Proc.holdsName : Proc → Bool
  | .chmod | .ret | .run | .deinit .bound | .unlink .bound => true
  | _ => false

/-- The next call removes the name, whether or not the process bound it. -/
def Proc.strays : Proc → Bool
  | .fail fname => fname
  | .unlink sock => sock ≠ .bound
  | _ => false

/-- A process removes a name it may not have bound only while no process holds it. -/
def NoStray (h : Host) : HostAct → Prop
  | .call p _ =>
      ∀ proc ∈ h.procs[p]?, proc.strays = true → ∀ other ∈ h.procs, other.holdsName = false
  | _ => True

instance (h : Host) (a : HostAct) : Decidable (NoStray h a) := by
  cases a <;> unfold NoStray <;> infer_instance

theorem Proc.holdsName_of_bound {proc : Proc} (h : proc.ctrl_sock = .bound) :
    proc.holdsName = true := by
  cases proc with
  | run => rfl
  | deinit sock =>
      cases sock with
      | bound => rfl
      | none | zeroed => cases h
  | main | init | mkdir | socket | bind | chmod | ret | fail | unlink | rmdir | leave | gone =>
      cases h

/-- A stopped process still holds what its control socket is bound to. -/
theorem Proc.holdsName_of_stopped {proc : Proc} (h : (Host.stopped proc).holdsName = true) :
    proc.holdsName = true := by
  apply Proc.holdsName_of_bound
  cases proc with
  | run => rfl
  | deinit sock =>
      cases sock with
      | bound => rfl
      | none | zeroed => cases h
  | main | init | mkdir | socket | bind | chmod | ret | fail | unlink | rmdir | leave | gone =>
      cases h

/-- Who holds the name owns it. -/
def NameHeld (h : Host) : Prop :=
  ∀ p proc, h.procs[p]? = some proc → proc.holdsName = true → h.name = some p

namespace NameHeld

variable {h : Host} {p : Nat} {proc : Proc}

theorem start (h0 : h.Fresh) : NameHeld h := by
  intro p proc hp
  rw [h0.2] at hp
  cases hp

theorem reachable (hh : NameHeld h) : h.Reachable :=
  fun p proc hp hs => hh p proc hp (Proc.holdsName_of_bound hs)

/-- A process that goes where it holds nothing, or holds what it held. -/
theorem goTo (hh : NameHeld h) (p : Nat)
    (hproc : ∀ old, h.procs[p]? = some old → proc.holdsName = true → old.holdsName = true) :
    NameHeld (h.goTo p proc) := by
  intro q other hq hholds
  rw [Host.goTo, List.getElem?_set] at hq
  split at hq
  · next hpq =>
    subst hpq
    split at hq
    · next hlt =>
      rw [Option.some.injEq] at hq
      subst hq
      exact hh p _ (List.getElem?_eq_getElem hlt) (hproc _ (List.getElem?_eq_getElem hlt) hholds)
    · cases hq
  · exact hh q other hq hholds

/-- The name goes to `p`, or to nobody, while no other process holds it. -/
theorem rename (hothers : ∀ q other, q ≠ p → h.procs[q]? = some other → other.holdsName = false)
    {name : Option Nat} (hname : proc.holdsName = true → name = some p) :
    NameHeld ({ h with name }.goTo p proc) := by
  intro q other hq hholds
  rw [Host.goTo, List.getElem?_set] at hq
  split at hq
  · next hpq =>
    subst hpq
    split at hq
    · rw [Option.some.injEq] at hq
      exact hname (hq ▸ hholds)
    · cases hq
  · next hpq =>
    have := hothers q other (Ne.symm hpq) hq
    rw [hholds] at this
    cases this

/-- The holder is the only one. -/
theorem others (hh : NameHeld h) (hp : h.procs[p]? = some proc) (hholds : proc.holdsName = true) :
    ∀ q other, q ≠ p → h.procs[q]? = some other → other.holdsName = false := by
  intro q other hqp hq
  refine Bool.eq_false_iff.mpr ?_
  intro hother
  have hname := hh q other hq hother
  rw [hh p proc hp hholds, Option.some.injEq] at hname
  exact hqp hname.symm

/-- What one call does to the name. -/
theorem call (hh : NameHeld h) (hp : h.procs[p]? = some proc) (fails : Bool)
    (hstray : proc.strays = true → ∀ other ∈ h.procs, other.holdsName = false) :
    NameHeld (h.call p fails proc) := by
  have keep : ∀ next : Proc, (next.holdsName = true → proc.holdsName = true) →
      NameHeld (h.goTo p next) := by
    intro next hnext
    refine hh.goTo p fun old hold => ?_
    rw [hp, Option.some.injEq] at hold
    exact hold ▸ hnext
  have hnobody : proc.strays = true → ∀ q other, q ≠ p → h.procs[q]? = some other →
      other.holdsName = false := by
    intro hs q other _ hq
    exact hstray hs other (List.mem_of_getElem? hq)
  cases proc with
  | main | init | ret | run | leave | gone => exact keep _ (by decide)
  | mkdir =>
      cases fails with
      | true => exact keep _ (by decide)
      | false => exact keep .socket (by decide)
  | socket => exact keep _ (by cases fails <;> decide)
  | bind =>
      rw [Host.call]
      split
      · next hfree =>
        -- the name was free, so nobody held it
        simp only [Bool.and_eq_true, Option.isNone_iff_eq_none] at hfree
        refine rename (fun q other _ hq => ?_) fun _ => rfl
        refine Bool.eq_false_iff.mpr ?_
        intro hother
        have hname := hh q other hq hother
        rw [hfree.1.2] at hname
        cases hname
      · exact keep _ (by decide)
  | chmod => exact keep _ (fun _ => rfl)
  | fail fname =>
      cases fname with
      | true => exact rename (hnobody rfl) fun h => by cases h
      | false => exact keep _ (by decide)
  | deinit sock => exact keep _ (by cases sock <;> decide)
  | unlink sock =>
      refine rename (fun q other hqp hq => ?_) fun h => by cases h
      by_cases hsock : sock = .bound
      · subst hsock
        exact hh.others hp rfl q other hqp hq
      · exact hnobody (decide_eq_true hsock) q other hqp hq
  | rmdir => exact keep _ (by decide)

theorem act (hh : NameHeld h) (a : HostAct) (hno : NoStray h a) : NameHeld (h.act a) := by
  cases a with
  | start =>
      intro q other hq hholds
      change (h.procs ++ [.main])[q]? = some other at hq
      rw [List.getElem?_append] at hq
      split at hq
      · exact hh q other hq hholds
      · -- the new process
        rw [List.mem_singleton.mp (List.mem_of_getElem? hq)] at hholds
        cases hholds
  | call p fails =>
      rw [Host.act]
      cases hp : h.procs[p]? with
      | none => exact hh
      | some proc => exact hh.call hp fails (hno proc hp)
  | stop p =>
      rw [Host.act]
      cases hp : h.procs[p]? with
      | none => exact hh
      | some proc =>
          refine hh.goTo p fun old hold => ?_
          rw [hp, Option.some.injEq] at hold
          subst hold
          exact Proc.holdsName_of_stopped
  | crash p => exact hh.goTo p fun _ _ h => by cases h

end NameHeld

/-! ## Reachability of a running daemon -/

theorem nameHeld_reaches {h : Host} (hr : Reaches Host.step Host.Fresh NoStray h) : NameHeld h := by
  refine hr.invariant (fun _ => NameHeld.start) fun a s t hs hno hstep => ?_
  cases hstep
  exact hs.act a hno

/-- A daemon whose control socket is open is reached under the name, in runs
where nobody removes a name that another process holds. -/
theorem running_reachable (h : Host) (hr : Reaches Host.step Host.Fresh NoStray h) :
    h.Reachable :=
  (nameHeld_reaches hr).reachable

/-- The calls that bring process `p` up. -/
def comesUp (p : Nat) : List HostAct :=
  .start :: List.replicate 7 (.call p false)

/-- One daemon serves, a second gives up before its `bind`, the first is
stopped, a third serves. -/
def handover : List HostAct :=
  comesUp 0 ++ [.start, .call 1 false, .call 1 false, .call 1 false, .call 1 true, .call 1 false]
    ++ [.stop 0, .call 0 false, .call 0 false, .call 0 false, .call 0 false] ++ comesUp 2

theorem running_reachable_handover :
    (final (exec Host.step handover ⟨true, none, []⟩)).Reachable :=
  running_reachable _
    (.guarded handover (.start ⟨rfl, rfl⟩) (by decide +kernel))

/-- The removals the condition leaves out: a running daemon is out of reach after them. -/
theorem unreachable_of_strays {h : Host} {p q : Nat} {proc other : Proc} (fails : Bool)
    (hp : h.procs[p]? = some proc) (hstrays : proc.strays = true)
    (hq : h.procs[q]? = some other) (hbound : other.ctrl_sock = .bound) (hqp : q ≠ p) :
    ¬ (h.act (.call p fails)).Reachable := by
  have hact : h.act (.call p fails) = h.call p fails proc := by
    rw [Host.act, hp]
    rfl
  have hafter : ∀ next : Proc, ({ h with name := none }.goTo p next).procs[q]? = some other := by
    intro next
    rw [Host.goTo, List.getElem?_set_ne hqp.symm]
    exact hq
  intro hreach
  rw [hact] at hreach
  cases proc with
  | fail fname =>
      cases fname with
      | true => cases hreach q other (hafter _) hbound
      | false => cases hstrays
  | unlink sock => cases hreach q other (hafter _) hbound
  | main | init | mkdir | socket | bind | chmod | ret | run | deinit | rmdir | leave | gone =>
      cases hstrays

/-- A daemon serves, a second one finds the name taken. -/
def startedTwice : List HostAct :=
  comesUp 0 ++ .start :: List.replicate 6 (.call 1 false)

/-- The second removes the name of the first. -/
theorem running_unreachable :
    ¬ ∀ h, Reaches Host.step Host.Fresh Always h → h.Reachable := by
  intro h
  have hreach := h _ (.guarded startedTwice (s := ⟨true, none, []⟩) (.start ⟨rfl, rfl⟩)
    (by decide +kernel))
  have hname := hreach 0 .run (by decide +kernel) rfl
  revert hname
  decide +kernel

end Admlink
