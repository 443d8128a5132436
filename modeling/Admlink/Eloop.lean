import Admlink.Lib.StableQueue

/-!
# Timers of `eloop.c`

Times are `struct timeval`s of `CLOCK_MONOTONIC`. The pending timers are the
list `eloop.timeout`; a new one goes behind every timer that is not later, so
timers for the same moment fire in the order they were registered.
-/

namespace Admlink

/-- `struct timeval`. -/
structure Timeval where
  tv_sec : Nat
  tv_usec : Nat
deriving DecidableEq, Repr

namespace Timeval

/-- `timercmp(a, b, <)`. -/
def Before (a b : Timeval) : Prop :=
  if a.tv_sec = b.tv_sec then a.tv_usec < b.tv_usec else a.tv_sec < b.tv_sec

instance : DecidableRel Before := fun a b => by unfold Before; infer_instance

theorem before_iff {a b : Timeval} :
    Before a b ↔ a.tv_sec < b.tv_sec ∨ a.tv_sec = b.tv_sec ∧ a.tv_usec < b.tv_usec := by
  unfold Before
  split <;> omega

/-- The carry loop of `eloop_register_timeout`, `fuel` rounds at most. -/
def carryLoop : Nat → Timeval → Timeval
  | 0, t => t
  | fuel + 1, t =>
      if 1000000 ≤ t.tv_usec then carryLoop fuel ⟨t.tv_sec + 1, t.tv_usec - 1000000⟩ else t

/-- Each round takes a second off the microseconds. -/
def carry (t : Timeval) : Timeval := carryLoop (t.tv_usec / 1000000) t

/-- Microseconds since the clock's epoch. -/
def toUsec (t : Timeval) : Nat := t.tv_sec * 1000000 + t.tv_usec

def Normal (t : Timeval) : Prop := t.tv_usec < 1000000

/-- What `xgettimeofday` stores when the clock stands at `usec` microseconds. -/
def ofUsec (usec : Nat) : Timeval := ⟨usec / 1000000, usec % 1000000⟩

@[simp] theorem toUsec_ofUsec (usec : Nat) : (ofUsec usec).toUsec = usec := by
  simp only [ofUsec, toUsec]
  omega

theorem normal_ofUsec (usec : Nat) : (ofUsec usec).Normal := by
  unfold ofUsec Normal
  exact Nat.mod_lt _ (by decide)

theorem carryLoop_spec : ∀ (fuel : Nat) (t : Timeval), t.tv_usec < (fuel + 1) * 1000000 →
    (carryLoop fuel t).Normal ∧ (carryLoop fuel t).toUsec = t.toUsec
  | 0, t, h => ⟨by unfold carryLoop Normal; omega, rfl⟩
  | fuel + 1, t, h => by
      unfold carryLoop
      split
      · rename_i hge
        obtain ⟨hn, hu⟩ := carryLoop_spec fuel ⟨t.tv_sec + 1, t.tv_usec - 1000000⟩
          (by simp only; omega)
        refine ⟨hn, hu.trans ?_⟩
        simp only [toUsec]
        omega
      · rename_i hlt
        exact ⟨by unfold Normal; omega, rfl⟩

/-- The loop ends with less than a second of microseconds and moves no time. -/
theorem carry_spec (t : Timeval) : t.carry.Normal ∧ t.carry.toUsec = t.toUsec :=
  carryLoop_spec _ _ (by omega)

theorem before_iff_toUsec {a b : Timeval} (ha : a.Normal) (hb : b.Normal) :
    Before a b ↔ a.toUsec < b.toUsec := by
  rw [before_iff]
  unfold Normal at ha hb
  unfold toUsec
  omega

end Timeval

/-! ## The timer list -/

variable {η : Type}

/-- `struct eloop_timeout`: the handler stands for `handler` and the context
pointers it is called with. -/
structure EloopTimeout (η : Type) where
  time : Timeval
  handler : η
deriving DecidableEq

def EloopTimeout.Before (a b : EloopTimeout η) : Prop := a.time.Before b.time

instance : DecidableRel (EloopTimeout.Before (η := η)) := fun a b => by
  unfold EloopTimeout.Before; infer_instance

/-- The time a timer registered at `now` is due. -/
def dueTime (now : Timeval) (secs usecs : Nat) : Timeval :=
  Timeval.carry ⟨now.tv_sec + secs, now.tv_usec + usecs⟩

/-- `eloop_register_timeout` at clock `now`: the new list. -/
def eloopRegisterTimeout (now : Timeval) (secs usecs : Nat) (handler : η)
    (timeout : List (EloopTimeout η)) : List (EloopTimeout η) :=
  StableQueue.insert EloopTimeout.Before ⟨dueTime now secs usecs, handler⟩ timeout

/-- The timer `eloop_run` takes off the list at clock `now`, if one is due. -/
def eloopPopDue (now : Timeval) : List (EloopTimeout η) →
    Option (EloopTimeout η × List (EloopTimeout η))
  | [] => none
  | t :: rest => if now.Before t.time then none else some (t, rest)

theorem normal_dueTime (now : Timeval) (secs usecs : Nat) : (dueTime now secs usecs).Normal :=
  (Timeval.carry_spec _).1

theorem toUsec_dueTime (now : Timeval) (secs usecs : Nat) :
    (dueTime now secs usecs).toUsec = now.toUsec + secs * 1000000 + usecs := by
  rw [dueTime, (Timeval.carry_spec _).2]
  simp only [Timeval.toUsec]
  omega

theorem popDue_eq_some {now : Timeval} {l rest : List (EloopTimeout η)} {t : EloopTimeout η}
    (h : eloopPopDue now l = some (t, rest)) : l = t :: rest ∧ ¬ now.Before t.time := by
  cases l with
  | nil => cases h
  | cons u us =>
      simp only [eloopPopDue] at h
      by_cases hb : now.Before u.time
      · rw [if_pos hb] at h
        cases h
      · rw [if_neg hb, Option.some.injEq, Prod.mk.injEq] at h
        obtain ⟨rfl, rfl⟩ := h
        exact ⟨rfl, hb⟩

end Admlink
