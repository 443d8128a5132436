import Mathlib.Data.List.Basic

/-!
# Properties of what happened, and when

A history lists events, newest first. `Each P h` says that every event `e` of
`h` satisfies `P e past`, where `past` is the history up to it.
-/

namespace History

variable {α : Type} {P Q : α → List α → Prop}

def Each (P : α → List α → Prop) : List α → Prop
  | [] => True
  | e :: past => P e past ∧ Each P past

/-- What is recorded on top of `old`, each event on the history before it. -/
theorem Each.append {old : List α} (hold : Each P old) : ∀ {new : List α},
    (∀ post e pre, new = post ++ e :: pre → P e (pre ++ old)) → Each P (new ++ old)
  | [], _ => hold
  | e :: new, hnew =>
      ⟨hnew [] e new rfl, hold.append fun post e' pre h => hnew (e :: post) e' pre (by rw [h]; rfl)⟩

theorem Each.of_split {h : List α} (heach : Each P h) {post past : List α} {e : α}
    (heq : h = post ++ e :: past) : P e past := by
  induction post generalizing h with
  | nil =>
      subst heq
      exact heach.1
  | cons _ post ih =>
      subst heq
      exact ih heach.2 rfl

theorem each_iff {h : List α} :
    Each P h ↔ ∀ post e past, h = post ++ e :: past → P e past := by
  constructor
  · exact fun heach post e past heq => heach.of_split heq
  · intro hsplit
    have hall : Each P (h ++ []) := by
      refine Each.append (show Each P [] from trivial) ?_
      intro post e pre heq
      rw [List.append_nil]
      exact hsplit post e pre heq
    rwa [List.append_nil] at hall

/-- Events that satisfy `P` on every history. -/
theorem Each.append_of_all {old new : List α} (hold : Each P old)
    (hnew : ∀ e ∈ new, ∀ past, P e past) : Each P (new ++ old) :=
  hold.append fun post e pre h => hnew e (by simp [h]) _

/-! ## Balances -/

/-- Each event changes the balance, by an amount that may depend on the past. -/
def balance (change : α → List α → Int) : List α → Int
  | [] => 0
  | e :: past => balance change past + change e past

variable {change : α → List α → Int}

theorem balance_append {old : List α} : ∀ {new : List α},
    (∀ e ∈ new, ∀ past, change e past = 0) → balance change (new ++ old) = balance change old
  | [], _ => rfl
  | e :: new, h => by
      rw [List.cons_append, balance, h e (List.mem_cons_self ..), Int.add_zero]
      exact balance_append fun e' he' => h e' (List.mem_cons_of_mem _ he')

theorem balance_eq_zero {h : List α} (heach : Each (fun e past => change e past = 0) h) :
    balance change h = 0 := by
  induction h with
  | nil => rfl
  | cons e past ih =>
      rw [balance, ih heach.2, heach.1]
      rfl

/-! ## Given and taken back -/

section Held

variable {β : Type} {gives : α → List α → Option β} {frees : α → β → Prop} {k : β}

/-- `k` has been given, and has not been taken back since. -/
def Held (gives : α → List α → Option β) (frees : α → β → Prop) (k : β) : List α → Prop
  | [] => False
  | e :: past => gives e past = some k ∨ ¬ frees e k ∧ Held gives frees k past

/-- Nothing is given while it is held. -/
def Once (gives : α → List α → Option β) (frees : α → β → Prop) : List α → Prop :=
  Each fun e past => ∀ k, gives e past = some k → ¬ Held gives frees k past

theorem held_of_split {older : List α} {e : α} (hgive : gives e older = some k) :
    ∀ {newer : List α}, (∀ x ∈ newer, ¬ frees x k) → Held gives frees k (newer ++ e :: older)
  | [], _ => .inl hgive
  | x :: _, hkept =>
      .inr ⟨hkept x (List.mem_cons_self ..),
        held_of_split hgive fun y hy => hkept y (List.mem_cons_of_mem _ hy)⟩

/-- Between two events that give the same there is one that takes it back. -/
theorem Once.between {h newer older : List α} {e e' : α} (honce : Once gives frees h)
    (mid : List α)
    (heq : h = newer ++ e :: (mid ++ e' :: older)) (hgive : gives e (mid ++ e' :: older) = some k)
    (hgive' : gives e' older = some k) : ∃ x ∈ mid, frees x k := by
  by_contra hnone
  refine Each.of_split honce heq k hgive (held_of_split hgive' fun x hx hfree => ?_)
  exact hnone ⟨x, hx, hfree⟩

/-- Events that neither give nor take anything back. -/
theorem held_append {old : List α} (new : List α) (hnew : ∀ e ∈ new, ∀ past, gives e past = none)
    (hheld : Held gives frees k (new ++ old)) : Held gives frees k old := by
  induction new with
  | nil => exact hheld
  | cons e new ih =>
      rcases hheld with hgive | ⟨-, hheld⟩
      · rw [hnew e (List.mem_cons_self ..)] at hgive
        cases hgive
      · exact ih (fun x hx => hnew x (List.mem_cons_of_mem _ hx)) hheld

/-- What is still held after such events has not been taken back by them. -/
theorem held_kept {old new : List α} (hnew : ∀ e ∈ new, ∀ past, gives e past = none)
    (hheld : Held gives frees k (new ++ old)) : ∀ e ∈ new, ¬ frees e k := by
  induction new with
  | nil => simp
  | cons e new ih =>
      rcases hheld with hgive | ⟨hkept, hheld⟩
      · rw [hnew e (List.mem_cons_self ..)] at hgive
        cases hgive
      · refine List.forall_mem_cons.mpr ⟨hkept, ih (fun x hx => ?_) hheld⟩
        exact hnew x (List.mem_cons_of_mem _ hx)

theorem Once.append {old new : List α} (honce : Once gives frees old)
    (hnew : ∀ e ∈ new, ∀ past, gives e past = none) : Once gives frees (new ++ old) := by
  refine Each.append_of_all honce fun e he past k hgive => ?_
  rw [hnew e he] at hgive
  cases hgive

end Held

end History
