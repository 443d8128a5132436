import Mathlib.Algebra.Ring.Nat
import Mathlib.Data.List.Basic

/-!
# A block of memory

A block is the list of its cells. Reading, writing and moving a range fail when
the range does not lie in the block. `Holds b off xs` says what a range holds;
each operation is described by what it makes a range hold and what it leaves
alone, so that proofs about a layout never look at the list.
-/

namespace Block

variable {α : Type}

/-- From `off` on the block holds `xs`. -/
def Holds (b : List α) (off : Nat) (xs : List α) : Prop :=
  ∀ i < xs.length, b[off + i]? = xs[i]?

/-- The `n` cells from `off` on. -/
def read (b : List α) (off n : Nat) : Option (List α) :=
  if off + n ≤ b.length then some ((b.drop off).take n) else none

/-- The block with `xs` stored from `off` on. -/
def write (b : List α) (off : Nat) (xs : List α) : Option (List α) :=
  if off + xs.length ≤ b.length then some (b.take off ++ xs ++ b.drop (off + xs.length)) else none

/-- `memmove`: the ranges may overlap. -/
def move (b : List α) (dst src n : Nat) : Option (List α) := (read b src n).bind (write b dst)

section Holds

variable {b b' xs ys : List α} {off off' n : Nat}

theorem holds_append :
    Holds b off (xs ++ ys) ↔ Holds b off xs ∧ Holds b (off + xs.length) ys := by
  constructor
  · intro h
    refine ⟨fun i hi => ?_, fun i hi => ?_⟩
    · have := h i (by rw [List.length_append]; omega)
      rwa [List.getElem?_append_left hi] at this
    · have := h (xs.length + i) (by rw [List.length_append]; omega)
      rwa [List.getElem?_append_right (Nat.le_add_right _ _), Nat.add_sub_cancel_left,
        ← Nat.add_assoc] at this
  · rintro ⟨hx, hy⟩ i hi
    by_cases hlt : i < xs.length
    · rw [List.getElem?_append_left hlt]
      exact hx i hlt
    · rw [List.length_append] at hi
      have := hy (i - xs.length) (by omega)
      rw [List.getElem?_append_right (by omega), ← this]
      exact congrArg (b[·]?) (by omega)

/-- What is held lies in the block. -/
theorem Holds.bound (h : Holds b off xs) (hpos : 0 < xs.length) : off + xs.length ≤ b.length := by
  have hlast := h (xs.length - 1) (by omega)
  rw [List.getElem?_eq_getElem (by omega : xs.length - 1 < xs.length)] at hlast
  obtain ⟨hlt, -⟩ := List.getElem?_eq_some_iff.mp hlast
  omega

/-- A block that agrees on the range holds the same. -/
theorem Holds.congr (h : Holds b off xs)
    (heq : ∀ j, off ≤ j → j < off + xs.length → b'[j]? = b[j]?) : Holds b' off xs := by
  intro i hi
  rw [heq _ (Nat.le_add_right _ _) (Nat.add_lt_add_left hi _)]
  exact h i hi

theorem read_of_holds (h : Holds b off xs) (hpos : 0 < xs.length) :
    read b off xs.length = some xs := by
  have hbound := h.bound hpos
  rw [read, if_pos hbound]
  refine congrArg some (List.ext_getElem? fun i => ?_)
  rw [List.getElem?_take]
  split
  · rename_i hi
    rw [List.getElem?_drop]
    exact h i hi
  · rename_i hi
    exact (List.getElem?_eq_none (Nat.le_of_not_lt hi)).symm

end Holds

/-! ## Writing and moving -/

/-- `b'` is `b` with `xs` written from `off` on. -/
structure Written (b : List α) (off : Nat) (xs b' : List α) : Prop where
  length : b'.length = b.length
  inside : Holds b' off xs
  outside : ∀ j, j < off ∨ off + xs.length ≤ j → b'[j]? = b[j]?

section Write

variable {b b' xs ys : List α} {off off' dst src n k : Nat}

theorem write_written (h : off + xs.length ≤ b.length) :
    ∃ b', write b off xs = some b' ∧ Written b off xs b' := by
  have htake : (b.take off).length = off := List.length_take_of_le (by omega)
  refine ⟨_, by rw [write, if_pos h], ?_, fun i hi => ?_, fun j hj => ?_⟩
  · rw [List.length_append, List.length_append, htake, List.length_drop]
    omega
  · rw [List.append_assoc, List.getElem?_append_right (by omega), htake, Nat.add_sub_cancel_left,
      List.getElem?_append_left hi]
  · rcases hj with hj | hj
    · rw [List.append_assoc, List.getElem?_append_left (by omega), List.getElem?_take, if_pos hj]
    · rw [List.getElem?_append_right (by rw [List.length_append]; omega), List.getElem?_drop,
        List.length_append, htake]
      exact congrArg (b[·]?) (by omega)

/-- A range beside the written one is left alone. -/
theorem Holds.written (h : Holds b off' ys) (hw : Written b off xs b')
    (hdisjoint : off' + ys.length ≤ off ∨ off + xs.length ≤ off') : Holds b' off' ys :=
  h.congr fun j hle hlt => hw.outside j (by omega)

/-- `b'` is `b` after `n` cells have been moved from `src` to `dst`. -/
structure Moved (b : List α) (dst src n : Nat) (b' : List α) : Prop where
  length : b'.length = b.length
  inside : ∀ i < n, b'[dst + i]? = b[src + i]?
  outside : ∀ j, j < dst ∨ dst + n ≤ j → b'[j]? = b[j]?

theorem move_moved (hsrc : src + n ≤ b.length) (hdst : dst + n ≤ b.length) :
    ∃ b', move b dst src n = some b' ∧ Moved b dst src n b' := by
  have hlength : ((b.drop src).take n).length = n := by
    rw [List.length_take, List.length_drop]
    omega
  have hfits : dst + ((b.drop src).take n).length ≤ b.length := by rwa [hlength]
  obtain ⟨b', hwrite, hw⟩ := write_written hfits
  refine ⟨b', by rw [move, read, if_pos hsrc, Option.bind_some, hwrite], hw.length, ?_, ?_⟩
  · intro i hi
    rw [hw.inside i (by rwa [hlength]), List.getElem?_take, if_pos hi, List.getElem?_drop]
  · intro j hj
    exact hw.outside j (by rwa [hlength])

/-- What lay in the moved range lies as far into the new one. -/
theorem Holds.moved (h : Holds b (src + k) ys) (hm : Moved b dst src n b')
    (hin : k + ys.length ≤ n) : Holds b' (dst + k) ys := by
  intro i hi
  rw [Nat.add_assoc, hm.inside _ (by omega), ← Nat.add_assoc]
  exact h i hi

end Write

/-! ## Integers, least significant byte first -/

/-- The `k` bytes of an unsigned integer. -/
def le : Nat → Nat → List UInt8
  | 0, _ => []
  | k + 1, n => UInt8.ofNat n :: le k (n / 256)

def ofLe : List UInt8 → Nat
  | [] => 0
  | c :: cs => c.toNat + 256 * ofLe cs

/-- The integer of `k` bytes at `off`. -/
def load (k : Nat) (b : List UInt8) (off : Nat) : Option Nat := (read b off k).map ofLe

def store (k : Nat) (b : List UInt8) (off n : Nat) : Option (List UInt8) := write b off (le k n)

@[simp] theorem length_le (k n : Nat) : (le k n).length = k := by
  induction k generalizing n with
  | zero => rfl
  | succ k ih => rw [le, List.length_cons, ih]

theorem ofLe_le (k n : Nat) : ofLe (le k n) = n % 256 ^ k := by
  induction k generalizing n with
  | zero => rw [le, ofLe, pow_zero, Nat.mod_one]
  | succ k ih =>
      rw [le, ofLe, ih, UInt8.toNat_ofNat', pow_succ' 256 k]
      exact Nat.mod_mul.symm

theorem load_of_holds {b : List UInt8} {k off n : Nat} (h : Holds b off (le k n)) (hk : 0 < k)
    (hn : n < 256 ^ k) : load k b off = some n := by
  have hread := read_of_holds h (by rwa [length_le])
  rw [length_le] at hread
  rw [load, hread, Option.map_some, ofLe_le, Nat.mod_eq_of_lt hn]

end Block
