import Mathlib.Data.Finset.Card
import Mathlib.Data.Nat.Prime.Basic
import Mathlib.Dynamics.PeriodicPts.Defs
import Mathlib.Tactic.NormNum.Prime

/-!
# Maps of words that commute with xor

Such a map is the list of what it makes of the single bits, and the list of its
square is that list mapped by itself. So a high iterate is found by squaring,
and with it the period of a word.
-/

namespace XorMap

open Function

/-- The xor of the columns at the bits that are set. -/
def apply : List Nat → Nat → Nat
  | [], _ => 0
  | c :: cs, x => (if x % 2 = 1 then c else 0) ^^^ apply cs (x / 2)

def columns (n : Nat) (f : Nat → Nat) : List Nat := (List.range n).map fun i => f (2 ^ i)

def Linear (f : Nat → Nat) : Prop := ∀ x y, f (x ^^^ y) = f x ^^^ f y

/-- On words of `n` bits the columns do what `f` does. -/
def Represents (n : Nat) (cols : List Nat) (f : Nat → Nat) : Prop :=
  ∀ x < 2 ^ n, apply cols x = f x

section Columns

variable {f : Nat → Nat} {n x y : Nat}

theorem Linear.zero (hf : Linear f) : f 0 = 0 := by
  have := hf 0 0
  rwa [Nat.xor_self, Nat.xor_self] at this

theorem bit_xor (c x y : Nat) : (if (x ^^^ y) % 2 = 1 then c else 0) =
    (if x % 2 = 1 then c else 0) ^^^ (if y % 2 = 1 then c else 0) := by
  simp only [Nat.xor_mod_two_eq_one]
  by_cases hx : x % 2 = 1 <;> by_cases hy : y % 2 = 1 <;> simp [hx, hy]

theorem apply_xor (cols : List Nat) (x y : Nat) :
    apply cols (x ^^^ y) = apply cols x ^^^ apply cols y := by
  induction cols generalizing x y with
  | nil => exact (Nat.xor_self 0).symm
  | cons c cs ih =>
      rw [apply, apply, apply, Nat.xor_div_two, ih, bit_xor]
      ac_rfl

/-- A word is its lowest bit and the rest. -/
theorem low_xor_high (x : Nat) : x % 2 ^^^ x / 2 * 2 = x := by
  have hdiv : (x % 2 ^^^ x / 2 * 2) / 2 = x / 2 := by
    rw [Nat.xor_div_two, show x % 2 / 2 = 0 by omega, Nat.zero_xor]
    omega
  have hmod : (x % 2 ^^^ x / 2 * 2) % 2 = 1 ↔ x % 2 = 1 := by
    rw [Nat.xor_mod_two_eq_one]
    omega
  omega

theorem shifted_low_xor_high (x k : Nat) :
    x * 2 ^ k = (x % 2) * 2 ^ k ^^^ (x / 2) * 2 ^ (k + 1) := by
  have hshift : (x % 2 ^^^ x / 2 * 2) <<< k = _ := Nat.shiftLeft_xor_distrib
  rw [low_xor_high] at hshift
  rw [← Nat.shiftLeft_eq, hshift, Nat.shiftLeft_eq, Nat.shiftLeft_eq, Nat.mul_assoc,
    Nat.pow_succ' (n := k)]

theorem apply_shifted (hf : Linear f) (k : Nat) (hx : x < 2 ^ n) :
    apply ((List.range n).map fun i => f (2 ^ (k + i))) x = f (x * 2 ^ k) := by
  induction n generalizing k x with
  | zero =>
      obtain rfl : x = 0 := by omega
      rw [Nat.zero_mul, hf.zero]
      rfl
  | succ n ih =>
      rw [List.range_succ_eq_map, List.map_cons, List.map_map, apply, shifted_low_xor_high, hf]
      -- the columns behind the first stand one bit higher
      have hrest := ih (k + 1) (x := x / 2) (by omega)
      rw [← hrest]
      refine congrArg₂ (· ^^^ ·) ?_ (congrArg (apply · _) (List.map_congr_left fun i _ => ?_))
      · split
        · rename_i hodd
          rw [hodd, Nat.one_mul, Nat.add_zero]
        · rw [show x % 2 = 0 by omega, Nat.zero_mul, hf.zero]
      · exact congrArg (fun e => f (2 ^ e)) (by omega : k + (i + 1) = k + 1 + i)

theorem represents_columns (hf : Linear f) : Represents n (columns n f) f := by
  intro x hx
  have := apply_shifted hf 0 hx
  rw [Nat.pow_zero, Nat.mul_one] at this
  simpa only [columns, Nat.zero_add] using this

end Columns

/-! ## Iterates -/

/-- `n` steps from `x`, squaring the map `fuel` times at most. -/
def advance (cols : List Nat) : Nat → Nat → Nat → Nat
  | 0, _, x => x
  | fuel + 1, n, x =>
      advance (cols.map (apply cols)) fuel (n / 2) (if n % 2 = 1 then apply cols x else x)

section Iterate

variable {f : Nat → Nat} {cols : List Nat} {w : Nat}

theorem apply_map (cols' : List Nat) (x : Nat) :
    apply (cols.map (apply cols')) x = apply cols' (apply cols x) := by
  induction cols generalizing x with
  | nil => exact (show apply cols' 0 = 0 from Linear.zero (apply_xor cols')).symm
  | cons c cs ih =>
      rw [List.map_cons, apply, apply, apply_xor, ih]
      split
      · rfl
      · rw [Linear.zero (apply_xor cols')]

theorem Represents.square (h : Represents w cols f) (hw : ∀ x < 2 ^ w, f x < 2 ^ w) :
    Represents w (cols.map (apply cols)) f^[2] := by
  intro x hx
  rw [apply_map, h x hx, h _ (hw x hx)]
  rfl

theorem advance_eq (h : Represents w cols f) (hw : ∀ x < 2 ^ w, f x < 2 ^ w) (fuel : Nat)
    {n x : Nat} (hn : n < 2 ^ fuel) (hx : x < 2 ^ w) : advance cols fuel n x = f^[n] x := by
  induction fuel generalizing cols f n x with
  | zero =>
      obtain rfl : n = 0 := by omega
      rfl
  | succ fuel ih =>
      have hstep : (if n % 2 = 1 then apply cols x else x) = f^[n % 2] x := by
        split
        · rename_i hodd
          rw [hodd, h x hx]
          rfl
        · rw [show n % 2 = 0 by omega]
          rfl
      have hlt : f^[n % 2] x < 2 ^ w := by
        rw [← hstep]
        split
        · rw [h x hx]
          exact hw x hx
        · exact hx
      -- `n % 2` steps of `f`, then `n / 2` of its square
      rw [advance, hstep, ih (h.square hw) (fun y hy => hw _ (hw y hy)) (by omega) hlt,
        ← iterate_mul, ← iterate_add_apply, Nat.div_add_mod]

end Iterate

/-! ## Periods -/

section Period

variable {α : Type} {f : α → α} {x : α}

/-- A period that no prime divides off is the smallest one. -/
theorem minimalPeriod_eq {N : Nat} (h : f^[N] x = x)
    (hp : ∀ p, p.Prime → p ∣ N → f^[N / p] x ≠ x) : minimalPeriod f x = N := by
  obtain ⟨k, hk⟩ := IsPeriodicPt.minimalPeriod_dvd (show IsPeriodicPt f N x from h)
  by_contra hne
  have hk1 : k ≠ 1 := by
    rintro rfl
    exact hne (by rw [hk, Nat.mul_one])
  obtain ⟨p, hprime, l, rfl⟩ := Nat.exists_prime_and_dvd hk1
  refine hp p hprime ⟨minimalPeriod f x * l, by rw [hk]; ac_rfl⟩ ?_
  have hdiv : N / p = minimalPeriod f x * l := by
    rw [hk, show minimalPeriod f x * (p * l) = p * (minimalPeriod f x * l) by ac_rfl,
      Nat.mul_div_cancel_left _ hprime.pos]
  rw [hdiv]
  exact (isPeriodicPt_minimalPeriod f x).mul_const l

/-- A point whose period is the size of an invariant set visits all of the set. -/
theorem exists_iterate_eq [DecidableEq α] {s : Finset α} (hs : ∀ y ∈ s, f y ∈ s) (hx : x ∈ s)
    (hperiod : minimalPeriod f x = s.card) {y : α} (hy : y ∈ s) : ∃ i < s.card, f^[i] x = y := by
  have hmem : ∀ i, f^[i] x ∈ s := fun i => by
    induction i with
    | zero => exact hx
    | succ i ih =>
        rw [iterate_succ_apply']
        exact hs _ ih
  -- within one period no point comes twice
  have hsurj := Finset.surjOn_of_injOn_of_card_le (s := Finset.range s.card) (t := s) (f^[·] x)
    (fun i _ => hmem i) (fun i hi j hj hij => ?_) (by rw [Finset.card_range])
  · obtain ⟨i, hi, hiy⟩ := hsurj hy
    exact ⟨i, Finset.mem_range.mp hi, hiy⟩
  · refine iterate_injOn_Iio_minimalPeriod ?_ ?_ hij
    · rw [hperiod]
      exact Finset.mem_range.mp hi
    · rw [hperiod]
      exact Finset.mem_range.mp hj

/-- Of more different values than a list has, one is not in it. -/
theorem exists_notMem [DecidableEq α] {g : Nat → α} {m : Nat} (hg : Set.InjOn g (Set.Iio m))
    {l : List α} (hl : l.length < m) : ∃ i < m, g i ∉ l := by
  by_contra hall
  have hsub : (Finset.range m).image g ⊆ l.toFinset := by
    intro a ha
    obtain ⟨i, hi, rfl⟩ := Finset.mem_image.mp ha
    rw [List.mem_toFinset]
    by_contra hmem
    exact hall ⟨i, Finset.mem_range.mp hi, hmem⟩
  have hcard := Finset.card_le_card hsub
  rw [Finset.card_image_of_injOn (fun i hi j hj => hg (Finset.mem_range.mp hi)
    (Finset.mem_range.mp hj)), Finset.card_range] at hcard
  exact absurd (hcard.trans (List.toFinset_card_le l)) (Nat.not_le_of_lt hl)

end Period

end XorMap
