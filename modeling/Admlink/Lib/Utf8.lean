import Mathlib.Data.List.Basic

/-!
# UTF-8 of a list of characters

The encoding is a prefix code, and a byte below 128 inside it is a character
of its own. So a byte string that is UTF-8 can be cut behind any known prefix
and at any such byte.
-/

namespace Utf8

def utf8 (cs : List Char) : List UInt8 := cs.flatMap String.utf8EncodeChar

@[simp] theorem utf8_nil : utf8 [] = [] := rfl

theorem utf8_cons (c : Char) (cs : List Char) :
    utf8 (c :: cs) = String.utf8EncodeChar c ++ utf8 cs := List.flatMap_cons

theorem utf8_append (cs ds : List Char) : utf8 (cs ++ ds) = utf8 cs ++ utf8 ds :=
  List.flatMap_append

variable {c d x : Char} {cs : List Char} {A B : List UInt8}

theorem encode_inj (h : String.utf8EncodeChar c ++ A = String.utf8EncodeChar d ++ B) :
    c = d ∧ A = B := by
  have hc := ByteArray.utf8DecodeChar?_utf8EncodeChar_append (b := A.toByteArray) (c := c)
  have hd := ByteArray.utf8DecodeChar?_utf8EncodeChar_append (b := B.toByteArray) (c := d)
  rw [← List.toByteArray_append] at hc hd
  rw [h, hd, Option.some.injEq] at hc
  subst hc
  exact ⟨rfl, List.append_cancel_left h⟩

/-- Cutting behind a known prefix. -/
theorem exists_of_utf8_eq_append : ∀ {as cs : List Char} {B : List UInt8},
    utf8 cs = utf8 as ++ B → ∃ bs, cs = as ++ bs ∧ utf8 bs = B := by
  intro as
  induction as with
  | nil =>
      intro cs B h
      exact ⟨cs, rfl, h⟩
  | cons a as ih =>
      intro cs B h
      rw [utf8_cons, List.append_assoc] at h
      cases cs with
      | nil => exact absurd (List.append_eq_nil_iff.mp h.symm).1 String.utf8EncodeChar_ne_nil
      | cons c cs =>
          rw [utf8_cons] at h
          obtain ⟨rfl, hrest⟩ := encode_inj h
          obtain ⟨bs, rfl, hbs⟩ := ih hrest
          exact ⟨bs, rfl, hbs⟩

theorem utf8_injective {as bs : List Char} (h : utf8 as = utf8 bs) : as = bs := by
  have happend : utf8 as = utf8 bs ++ [] := by rw [List.append_nil, h]
  obtain ⟨cs, rfl, hcs⟩ := exists_of_utf8_eq_append happend
  cases cs with
  | nil => exact List.append_nil _
  | cons c cs =>
      rw [utf8_cons] at hcs
      exact absurd (List.append_eq_nil_iff.mp hcs).1 String.utf8EncodeChar_ne_nil

/-- No byte of a longer character is below 128. -/
theorem encode_of_ascii {b : UInt8} (hb : b < 128) (h : b ∈ String.utf8EncodeChar c) :
    String.utf8EncodeChar c = [b] := by
  have hne : ∀ n, 128 ≤ n → n < 256 → b ≠ UInt8.ofNat n := by
    rintro n hn hn' rfl
    rw [UInt8.lt_iff_toNat_lt, UInt8.toNat_ofNat', Nat.mod_eq_of_lt hn'] at hb
    exact absurd hb (Nat.not_lt.mpr hn)
  unfold String.utf8EncodeChar at h ⊢
  by_cases h1 : c.val.toNat ≤ 0x7f
  · simp only [if_pos h1, List.mem_singleton] at h ⊢
    rw [h]
  · simp only [if_neg h1] at h
    exfalso
    split at h
    · simp only [List.mem_cons, List.not_mem_nil, or_false] at h
      rcases h with h | h <;> exact hne _ (by omega) (by omega) h
    · split at h
      · simp only [List.mem_cons, List.not_mem_nil, or_false] at h
        rcases h with h | h | h <;> exact hne _ (by omega) (by omega) h
      · simp only [List.mem_cons, List.not_mem_nil, or_false] at h
        rcases h with h | h | h | h <;> exact hne _ (by omega) (by omega) h

theorem encode_ascii (hx : x.toNat < 128) :
    String.utf8EncodeChar x = [UInt8.ofNat x.toNat] := by
  have hle : x.val.toNat ≤ 0x7f := Nat.le_of_lt_succ hx
  unfold String.utf8EncodeChar
  simp only [if_pos hle]
  rfl

/-- Cutting at a character below 128. -/
theorem exists_of_utf8_eq_ascii (hx : x.toNat < 128) : ∀ {cs : List Char} {A : List UInt8},
    utf8 cs = A ++ (String.utf8EncodeChar x ++ B) →
      ∃ as bs, cs = as ++ x :: bs ∧ utf8 as = A ∧ utf8 bs = B := by
  have hb : UInt8.ofNat x.toNat < 128 := by
    rw [UInt8.lt_iff_toNat_lt, UInt8.toNat_ofNat', Nat.mod_eq_of_lt (by omega)]
    exact hx
  intro cs
  induction cs with
  | nil =>
      intro A h
      rw [encode_ascii hx] at h
      simp at h
  | cons c cs ih =>
      intro A h
      rw [utf8_cons] at h
      have behind : ∀ A', A = String.utf8EncodeChar c ++ A' →
          utf8 cs = A' ++ (String.utf8EncodeChar x ++ B) →
          ∃ as bs, c :: cs = as ++ x :: bs ∧ utf8 as = A ∧ utf8 bs = B := by
        rintro A' rfl h
        obtain ⟨as, bs, rfl, rfl, hbs⟩ := ih h
        exact ⟨c :: as, bs, rfl, utf8_cons c as, hbs⟩
      rcases List.append_eq_append_iff.mp h with ⟨A', hA, hcs⟩ | ⟨C, hc, hcs⟩
      · exact behind A' hA hcs
      · cases C with
        | nil =>
            rw [List.append_nil] at hc
            exact behind [] (by rw [hc, List.append_nil]) hcs.symm
        | cons b C =>
            -- the byte of `x` is one of the bytes of `c`, so it is all of them
            rw [encode_ascii hx, List.singleton_append, List.cons_append,
              List.cons.injEq] at hcs
            obtain ⟨rfl, hrest⟩ := hcs
            have hsingle :=
              encode_of_ascii hb (hc ▸ List.mem_append_right A (List.mem_cons_self ..))
            have hlen := congrArg List.length (hc.symm.trans hsingle)
            simp only [List.length_append, List.length_cons, List.length_nil] at hlen
            obtain rfl : A = [] := List.eq_nil_of_length_eq_zero (by omega)
            obtain rfl : C = [] := List.eq_nil_of_length_eq_zero (by omega)
            have hcx : c = x := (encode_inj (A := []) (B := []) (by
              rw [List.append_nil, List.append_nil, hsingle, encode_ascii hx])).1
            subst hcx
            exact ⟨[], cs, rfl, rfl, hrest.symm⟩

theorem length_le_utf8 (cs : List Char) : cs.length ≤ (utf8 cs).length := by
  induction cs with
  | nil => exact Nat.le_refl 0
  | cons c cs ih =>
      have hpos := List.length_pos_of_ne_nil (String.utf8EncodeChar_ne_nil (c := c))
      rw [utf8_cons, List.length_append, List.length_cons]
      omega

theorem length_utf8_le (cs : List Char) : (utf8 cs).length ≤ 4 * cs.length := by
  induction cs with
  | nil => exact Nat.le_refl 0
  | cons c cs ih =>
      have hsize := c.utf8Size_le_four
      rw [utf8_cons, List.length_append, List.length_cons, String.length_utf8EncodeChar]
      omega

end Utf8
