import Admlink.Lib.Program

/-!
# Runs of a system that reacts to inputs

A system answers each input `i` by a program `step i`. A *guarded* run is one
whose steps all meet a condition `C` on the state before the step and the
input. `Reaches` collects the states between two steps, `Seen` also the states
in which a step stopped the run for good.
-/

namespace Runs

open Program

variable {ε σ ι : Type}

/-- States between two steps of a run all of whose steps meet `C`. -/
inductive Reaches (step : ι → EStateM ε σ Unit) (Init : σ → Prop)
    (C : σ → ι → Prop) : σ → Prop
  | start {s : σ} : Init s → Reaches step Init C s
  | next {s t : σ} {i : ι} : Reaches step Init C s → C s i →
      step i s = .ok () t → Reaches step Init C t

/-- States of a guarded run, the one it stops in included. -/
inductive Seen (step : ι → EStateM ε σ Unit) (Init : σ → Prop)
    (C : σ → ι → Prop) : σ → Prop
  | between {s : σ} : Reaches step Init C s → Seen step Init C s
  | stopped {s t : σ} {i : ι} {e : ε} : Reaches step Init C s → C s i →
      step i s = .error e t → Seen step Init C t

/-- The condition every step meets. -/
def Always (_ : σ) (_ : ι) : Prop := True

instance (s : σ) (i : ι) : Decidable (Always s i) := .isTrue trivial

section Invariant

variable {step : ι → EStateM ε σ Unit} {Init : σ → Prop} {C C' : σ → ι → Prop}

/-- A weaker condition has more runs. -/
theorem Reaches.weaken {s : σ} (h : Reaches step Init C s)
    (hC : ∀ s i, C s i → C' s i) : Reaches step Init C' s := by
  induction h with
  | start h0 => exact .start h0
  | next _ hc hs ih => exact .next ih (hC _ _ hc) hs

theorem Seen.weaken {s : σ} (h : Seen step Init C s)
    (hC : ∀ s i, C s i → C' s i) : Seen step Init C' s := by
  cases h with
  | between hr => exact .between (hr.weaken hC)
  | stopped hr hc hs => exact .stopped (hr.weaken hC) (hC _ _ hc) hs

/-- Invariant rule: what holds initially and is kept by every guarded step
that returns holds between any two steps. -/
theorem Reaches.invariant {I : σ → Prop} (hInit : ∀ s, Init s → I s)
    (hStep : ∀ i s t, I s → C s i → step i s = .ok () t → I t)
    {s : σ} (h : Reaches step Init C s) : I s := by
  induction h with
  | start h0 => exact hInit _ h0
  | next _ hc hs ih => exact hStep _ _ _ ih hc hs

/-- Invariant rule with exits: `J` is what also survives a step that stops. -/
theorem Seen.invariant {I J : σ → Prop} (hInit : ∀ s, Init s → I s)
    (hStep : ∀ i, Triple (fun s => I s ∧ C s i) (step i) (fun _ t => I t) (fun _ t => J t))
    (hIJ : ∀ s, I s → J s) {s : σ} (h : Seen step Init C s) : J s := by
  have hReach : ∀ t, Reaches step Init C t → I t := fun t ht =>
    ht.invariant hInit (fun i _ _ hI hC hs => (hStep i).of_ok ⟨hI, hC⟩ hs)
  cases h with
  | between hr => exact hIJ _ (hReach _ hr)
  | stopped hr hc hs => exact (hStep _).of_error ⟨hReach _ hr, hc⟩ hs

end Invariant

/-! ## Running a given list of inputs -/

/-- Feed the inputs one after the other. -/
def exec (step : ι → EStateM ε σ Unit) : List ι → EStateM ε σ Unit
  | [] => pure ()
  | i :: is => do
      step i
      exec step is

/-- Every input meets `C` in the state it finds, and every step returns. -/
def guarded (step : ι → EStateM ε σ Unit) (C : σ → ι → Prop) [∀ s i, Decidable (C s i)] :
    List ι → σ → Bool
  | [], _ => true
  | i :: is, s =>
      C s i && match step i s with
        | .ok _ t => guarded step C is t
        | .error _ _ => false

theorem Reaches.guarded {step : ι → EStateM ε σ Unit} {Init : σ → Prop} {C : σ → ι → Prop}
    [∀ s i, Decidable (C s i)] : ∀ (is : List ι) {s : σ}, Reaches step Init C s →
      Runs.guarded step C is s = true → Reaches step Init C (final (Runs.exec step is s))
  | [], _, hs, _ => hs
  | i :: is, s, hs, h => by
      rw [Runs.guarded, Bool.and_eq_true, decide_eq_true_eq] at h
      rw [Runs.exec, bind_apply]
      cases hr : step i s with
      | ok a t =>
          rw [hr] at h
          exact Reaches.guarded is (.next hs h.1 hr) h.2
      | error e t =>
          rw [hr] at h
          exact absurd h.2 Bool.false_ne_true

/-- Such a list of inputs is executed to its end. -/
theorem exec_of_guarded {step : ι → EStateM ε σ Unit} {C : σ → ι → Prop}
    [∀ s i, Decidable (C s i)] : ∀ (is : List ι) {s : σ}, Runs.guarded step C is s = true →
      Runs.exec step is s = .ok () (final (Runs.exec step is s))
  | [], _, _ => rfl
  | i :: is, s, h => by
      rw [Runs.guarded, Bool.and_eq_true] at h
      rw [Runs.exec, bind_apply]
      cases hr : step i s with
      | ok a t =>
          rw [hr] at h
          exact exec_of_guarded is h.2
      | error e t =>
          rw [hr] at h
          exact absurd h.2 Bool.false_ne_true

/-- Where a list of inputs leads, whether or not the run stops on the way. -/
theorem Seen.exec {step : ι → EStateM ε σ Unit} {Init : σ → Prop} :
    ∀ (is : List ι) {s : σ}, Reaches step Init Always s →
      Seen step Init Always (final (exec step is s))
  | [], s, hs => .between hs
  | i :: is, s, hs => by
      rw [Runs.exec, bind_apply]
      cases hr : step i s with
      | ok a u => exact Seen.exec is (.next hs trivial hr)
      | error e u => exact .stopped hs trivial hr

end Runs
