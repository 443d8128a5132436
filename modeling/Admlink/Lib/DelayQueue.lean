import Mathlib.Logic.Relation
import Admlink.Lib.StableQueue

/-!
# Queues of timers with a payload

Timers wait in a stable queue ordered by the moment they are due. Some carry a
payload, and those are all registered with one and the same delay. Whatever
other timers come and go, the payloads are called in the order they were asked
for, and a timer that is due is overtaken by nothing.
-/

namespace DelayQueue

open StableQueue Relation

variable {α β : Type}

/-- `asked` and `called` list payloads, oldest first. -/
structure State (α β : Type) where
  queue : List α
  clock : Nat
  asked : List β
  called : List β

section

variable (due : α → Nat) (payload : α → Option β) (delay : Nat)

/-- The order of the queue. -/
def Earlier (a b : α) : Prop := due a < due b

instance : DecidableRel (Earlier due) := fun a b => by unfold Earlier; infer_instance

theorem earlier_strictWeak : StrictWeak (Earlier due) where
  asymm a b := by unfold Earlier; omega
  cotrans a b c := by unfold Earlier; omega

/-- Time passes, a timer without payload is registered, or a payload is asked
for. -/
inductive Step (s : State α β) : State α β → Prop
  | wait (d : Nat) : Step s { s with clock := s.clock + d }
  | register {x : α} : payload x = none → s.clock ≤ due x →
      Step s { s with queue := insert (Earlier due) x s.queue }
  | ask {x : α} {b : β} : payload x = some b → due x = s.clock + delay →
      Step s { s with queue := insert (Earlier due) x s.queue, asked := s.asked ++ [b] }

abbrev Steps : State α β → State α β → Prop := ReflTransGen (Step due payload delay)

/-- The first timer is taken off and its payload, if any, called. -/
inductive Pop (s : State α β) : State α β → Prop
  | pop {x : α} {rest : List α} : s.queue = x :: rest →
      Pop s { s with queue := rest, called := s.called ++ (payload x).toList }

/-- The payloads that are still waiting, in the order of the queue. -/
def State.pending (s : State α β) : List β := s.queue.filterMap payload

end

variable {due : α → Nat} {payload : α → Option β} {delay : Nat} {s t : State α β}

/-! ## First in, first out -/

theorem filterMap_eq_filter (l : List α) :
    l.filterMap payload = (l.filter fun x => (payload x).isSome).filterMap payload := by
  rw [List.filterMap_filter]
  refine List.filterMap_congr fun x _ => ?_
  cases payload x <;> rfl

/-- The queue is in order, and what was called and what is pending is what was
asked for. -/
structure Fifo (due : α → Nat) (payload : α → Option β) (delay : Nat) (s : State α β) : Prop where
  sorted : Sorted (Earlier due) s.queue
  bound : ∀ x ∈ s.queue, (payload x).isSome = true → due x ≤ s.clock + delay
  order : s.called ++ s.pending payload = s.asked

namespace Fifo

theorem step (h : Fifo due payload delay s) (hs : Step due payload delay s t) :
    Fifo due payload delay t := by
  cases hs with
  | wait d =>
      refine ⟨h.sorted, fun x hx hp => ?_, h.order⟩
      have := h.bound x hx hp
      simp only
      omega
  | @register x hx _ =>
      refine ⟨insert_sorted (earlier_strictWeak due) x h.sorted, fun y hy hp => ?_, ?_⟩
      · rcases mem_insert.mp hy with rfl | hy
        · rw [hx] at hp
          cases hp
        · exact h.bound y hy hp
      · rw [State.pending, filterMap_eq_filter, filter_insert_of_neg (by rw [hx]; rfl),
          ← filterMap_eq_filter]
        exact h.order
  | @ask x b hx hdue =>
      refine ⟨insert_sorted (earlier_strictWeak due) x h.sorted, fun y hy hp => ?_, ?_⟩
      · rcases mem_insert.mp hy with rfl | hy
        · exact Nat.le_of_eq hdue
        · exact h.bound y hy hp
      · -- no payload is due later than the new one, so it goes behind them all
        have hlast : ∀ y ∈ s.queue, (payload y).isSome = true → ¬ Earlier due x y := by
          intro y hy hp hlt
          have := h.bound y hy hp
          unfold Earlier at hlt
          omega
        rw [State.pending, filterMap_eq_filter,
          filter_insert_of_last (earlier_strictWeak due) (by rw [hx]; rfl) h.sorted hlast,
          List.filterMap_append, ← filterMap_eq_filter, ← List.append_assoc]
        rw [show s.called ++ s.queue.filterMap payload = s.asked from h.order]
        simp [hx]

theorem steps (h : Fifo due payload delay s) (hs : Steps due payload delay s t) :
    Fifo due payload delay t := by
  induction hs with
  | refl => exact h
  | tail _ hs ih => exact ih.step hs

theorem pop (h : Fifo due payload delay s) (hp : Pop payload s t) :
    Fifo due payload delay t := by
  cases hp with
  | @pop x rest hq =>
      have hsorted := h.sorted
      have hbound := h.bound
      have horder := h.order
      rw [State.pending] at horder
      rw [hq] at hsorted hbound horder
      refine ⟨(List.pairwise_cons.mp hsorted).2,
        fun y hy => hbound y (List.mem_cons_of_mem _ hy), ?_⟩
      rw [← horder, State.pending, List.append_assoc]
      cases hx : payload x <;> simp [hx]

end Fifo

/-! ## Nothing overtakes a timer that is due -/

/-- `x` waits behind `pre`, and its moment has come. -/
structure Waiting (due : α → Nat) (pre : List α) (x : α) (s : State α β) : Prop where
  ripe : due x ≤ s.clock
  sorted : Sorted (Earlier due) s.queue
  split : ∃ post, s.queue = pre ++ x :: post

namespace Waiting

variable {pre : List α} {x : α}

theorem insert (h : Waiting due pre x s) {y : α} (hy : s.clock ≤ due y) :
    ∃ post, StableQueue.insert (Earlier due) y s.queue = pre ++ x :: post := by
  obtain ⟨post, hq⟩ := h.split
  have hsorted := h.sorted
  have hdue := h.ripe
  rw [hq] at hsorted ⊢
  exact ⟨_, insert_behind (earlier_strictWeak due) (by unfold Earlier; omega) hsorted⟩

theorem step (h : Waiting due pre x s) (hs : Step due payload delay s t) :
    Waiting due pre x t := by
  cases hs with
  | wait d => exact ⟨Nat.le_trans h.ripe (Nat.le_add_right _ _), h.sorted, h.split⟩
  | register _ hy =>
      exact ⟨h.ripe, insert_sorted (earlier_strictWeak due) _ h.sorted, h.insert hy⟩
  | ask _ hy =>
      exact ⟨h.ripe, insert_sorted (earlier_strictWeak due) _ h.sorted, h.insert (by omega)⟩

theorem steps (h : Waiting due pre x s) (hs : Steps due payload delay s t) :
    Waiting due pre x t := by
  induction hs with
  | refl => exact h
  | tail _ hs ih => exact ih.step hs

/-- A pop brings `x` one place forward, or is its turn. -/
theorem pop (h : Waiting due pre x s) (hp : Pop payload s t) :
    (pre = [] ∧ t.called = s.called ++ (payload x).toList) ∨
      ∃ y pre', pre = y :: pre' ∧ Waiting due pre' x t := by
  obtain ⟨post, hq⟩ := h.split
  have hsorted := h.sorted
  cases hp with
  | @pop y rest hq' =>
      rw [hq'] at hq hsorted
      cases pre with
      | nil =>
          obtain ⟨rfl, rfl⟩ := List.cons.inj hq
          exact .inl ⟨rfl, rfl⟩
      | cons z pre' =>
          obtain ⟨rfl, rfl⟩ := List.cons.inj hq
          exact .inr ⟨_, _, rfl, h.ripe, (List.pairwise_cons.mp hsorted).2, post, rfl⟩

/-- The first timer of the queue is due with `x`. -/
theorem head_due (h : Waiting due pre x s) : ∃ y rest, s.queue = y :: rest ∧ due y ≤ s.clock := by
  obtain ⟨post, hq⟩ := h.split
  have hsorted := h.sorted
  have hdue := h.ripe
  rw [hq] at hsorted ⊢
  cases pre with
  | nil => exact ⟨x, post, rfl, hdue⟩
  | cons y pre' =>
      refine ⟨y, pre' ++ x :: post, rfl, ?_⟩
      have hle := (List.pairwise_cons.mp hsorted).1 x (by simp)
      unfold Earlier at hle
      omega

end Waiting

/-- What has been called is never taken back. -/
theorem called_steps (hs : Steps due payload delay s t) : t.called = s.called := by
  induction hs with
  | refl => rfl
  | tail _ hs ih =>
      rw [← ih]
      cases hs <;> rfl

/-- Time does not go back. -/
theorem clock_le_steps (hs : Steps due payload delay s t) : s.clock ≤ t.clock := by
  induction hs with
  | refl => exact Nat.le_refl _
  | tail _ hs ih =>
      refine Nat.le_trans ih ?_
      cases hs with
      | wait d => exact Nat.le_add_right _ _
      | register _ _ => exact Nat.le_refl _
      | ask _ _ => exact Nat.le_refl _

end DelayQueue
