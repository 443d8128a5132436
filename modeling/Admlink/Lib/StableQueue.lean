import Mathlib.Data.List.Basic

/-!
# A queue ordered by a strict weak order, ties kept in arrival order

`insert` walks the list and stops before the first strictly later element, so
an element goes behind everything it ties with. The order is any relation that
is asymmetric and co-transitive (`StrictWeak`); elements need not be
comparable by `=`.
-/

namespace StableQueue

variable {α : Type} (r : α → α → Prop) [DecidableRel r]

/-- Strict weak orders: `r a b` reads "`a` is strictly before `b`". -/
structure StrictWeak (r : α → α → Prop) : Prop where
  asymm : ∀ a b, r a b → ¬ r b a
  cotrans : ∀ a b c, r a c → r a b ∨ r b c

/-- Insert behind every element that is not strictly later. -/
def insert (x : α) : List α → List α
  | [] => [x]
  | y :: ys => if r x y then x :: y :: ys else y :: insert x ys

/-- Two orders that agree on the new element insert alike. -/
theorem insert_congr {r r' : α → α → Prop} [DecidableRel r] [DecidableRel r'] {x : α} :
    ∀ {l : List α}, (∀ y ∈ l, r x y ↔ r' x y) → insert r x l = insert r' x l
  | [], _ => rfl
  | y :: ys, h => by
      have hy := h y (List.mem_cons_self ..)
      rw [insert, insert, insert_congr fun z hz => h z (List.mem_cons_of_mem _ hz)]
      by_cases hxy : r x y
      · rw [if_pos hxy, if_pos (hy.mp hxy)]
      · rw [if_neg hxy, if_neg (hxy ∘ hy.mpr)]

/-- No element is strictly before an earlier one. -/
def Sorted (l : List α) : Prop := l.Pairwise (fun a b => ¬ r b a)

variable {r}

theorem insert_perm (x : α) : ∀ l : List α, (insert r x l).Perm (x :: l)
  | [] => List.Perm.refl _
  | y :: ys => by
      by_cases h : r x y
      · rw [insert, if_pos h]
      · rw [insert, if_neg h]
        exact ((insert_perm x ys).cons y).trans (List.Perm.swap x y ys)

/-- The new element goes somewhere. -/
theorem insert_eq_insertIdx (x : α) :
    ∀ l : List α, ∃ k ≤ l.length, insert r x l = l.insertIdx k x
  | [] => ⟨0, Nat.le_refl _, rfl⟩
  | y :: ys => by
      by_cases h : r x y
      · exact ⟨0, Nat.zero_le _, by rw [insert, if_pos h]; rfl⟩
      · obtain ⟨k, hk, hins⟩ := insert_eq_insertIdx x ys
        exact ⟨k + 1, Nat.succ_le_succ hk, by rw [insert, if_neg h, hins]; rfl⟩

theorem mem_insert {x y : α} {l : List α} : y ∈ insert r x l ↔ y = x ∨ y ∈ l := by
  rw [(insert_perm x l).mem_iff, List.mem_cons]

theorem insert_sorted (hr : StrictWeak r) (x : α) : ∀ {l : List α},
    Sorted r l → Sorted r (insert r x l)
  | [], _ => List.pairwise_singleton _ _
  | y :: ys, hs => by
      obtain ⟨hy, hys⟩ := List.pairwise_cons.mp hs
      by_cases h : r x y
      · rw [insert, if_pos h]
        refine List.pairwise_cons.mpr ⟨?_, hs⟩
        intro z hz hzx
        rcases List.mem_cons.mp hz with rfl | hz'
        · exact hr.asymm _ _ h hzx
        · rcases hr.cotrans x z y h with hxz | hzy
          · exact hr.asymm _ _ hxz hzx
          · exact hy z hz' hzy
      · rw [insert, if_neg h]
        refine List.pairwise_cons.mpr ⟨?_, insert_sorted hr x hys⟩
        intro z hz
        rcases mem_insert.mp hz with rfl | hz'
        · exact h
        · exact hy z hz'

/-- An element outside a class does not disturb the class. -/
theorem filter_insert_of_neg {p : α → Bool} {x : α} (hx : p x = false) :
    ∀ l : List α, (insert r x l).filter p = l.filter p
  | [] => by simp [insert, hx]
  | y :: ys => by
      by_cases h : r x y
      · rw [insert, if_pos h, List.filter_cons, hx]; rfl
      · rw [insert, if_neg h, List.filter_cons, List.filter_cons,
          filter_insert_of_neg hx ys]

omit [DecidableRel r] in
/-- Everything past the first strictly later element is strictly later too. -/
theorem later_of_later (hr : StrictWeak r) {x y z : α} {ys : List α}
    (hs : Sorted r (y :: ys)) (h : r x y) (hz : z ∈ y :: ys) : r x z := by
  rcases List.mem_cons.mp hz with rfl | hz'
  · exact h
  · rcases hr.cotrans x z y h with hxz | hzy
    · exact hxz
    · exact absurd hzy ((List.pairwise_cons.mp hs).1 z hz')

/-- An element that is not strictly before any member of its class joins the
class at its end. -/
theorem filter_insert_of_last (hr : StrictWeak r) {p : α → Bool} {x : α}
    (hx : p x = true) : ∀ {l : List α}, Sorted r l →
      (∀ y ∈ l, p y = true → ¬ r x y) →
      (insert r x l).filter p = l.filter p ++ [x]
  | [], _, _ => by simp [insert, hx]
  | y :: ys, hs, hlast => by
      by_cases h : r x y
      · have hnone : (y :: ys).filter p = [] := by
          rw [List.filter_eq_nil_iff]
          intro z hz hpz
          exact hlast z hz hpz (later_of_later hr hs h hz)
        rw [insert, if_pos h, List.filter_cons, if_pos hx, hnone]
        rfl
      · have ih := filter_insert_of_last hr hx (List.pairwise_cons.mp hs).2
          (fun z hz => hlast z (List.mem_cons_of_mem _ hz))
        rw [insert, if_neg h, List.filter_cons, List.filter_cons, ih]
        split <;> rfl

/-- Whatever is not strictly before `k` is inserted behind `k`: nothing
overtakes `k`. -/
theorem insert_behind (hr : StrictWeak r) {x k : α} (hk : ¬ r x k) :
    ∀ {pre post : List α}, Sorted r (pre ++ k :: post) →
      insert r x (pre ++ k :: post) = pre ++ k :: insert r x post
  | [], post, _ => by rw [List.nil_append, insert, if_neg hk, List.nil_append]
  | y :: pre, post, hs => by
      obtain ⟨hy, hrest⟩ := List.pairwise_cons.mp hs
      have hxy : ¬ r x y := by
        intro h
        rcases hr.cotrans x k y h with hxk | hky
        · exact hk hxk
        · exact hy k (by simp) hky
      rw [List.cons_append, insert, if_neg hxy, insert_behind hr hk hrest]
      rfl

end StableQueue
