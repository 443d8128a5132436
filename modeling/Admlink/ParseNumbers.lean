import Admlink.ParseReport
import Admlink.Lib.JsonMembers

/-!
# A text in memory, and its numbers

`cJSON_Parse` and the strict parser go through a text in the same order. What the
strict one has left is where the pointer of the other stands (`stored`). A
number is read without looking at what it stands for: all that counts is that
both stop at the same place.
-/

namespace Admlink

open Program CJson Utf8

/-! ## A text in memory -/

/-- The memory from a text on: its characters, the terminator and the rest of
the block. -/
def stored (rest : Bytes) (s : List Char) : Bytes := utf8 s ++ Ch.nul :: rest

/-- The first byte of a character. -/
def lead (c : Char) : UInt8 := (String.utf8EncodeChar c).headD Ch.nul

/-- What a pointer to a text reads. -/
def front : List Char → UInt8
  | [] => Ch.nul
  | c :: _ => lead c

theorem lead_ascii {c : Char} (hc : c.toNat < 128) : lead c = UInt8.ofNat c.toNat := by
  rw [lead, encode_ascii hc]
  rfl

/-- A longer character starts with a byte above all characters of one byte. -/
theorem lead_wide {c : Char} (hc : 128 ≤ c.toNat) : 128 ≤ lead c := by
  have hcons : String.utf8EncodeChar c = lead c :: (String.utf8EncodeChar c).tail := by
    cases h : String.utf8EncodeChar c with
    | nil => exact absurd h String.utf8EncodeChar_ne_nil
    | cons b bs => simp [lead, h]
  by_contra hlt
  have hmem : lead c ∈ String.utf8EncodeChar c := by
    rw [hcons]
    exact List.mem_cons_self ..
  have hone := encode_of_ascii (UInt8.not_le.mp hlt) hmem
  have hsize := String.length_utf8EncodeChar c
  rw [hone, List.length_singleton] at hsize
  have hascii := Char.utf8Size_eq_one_iff.mp hsize.symm
  have hle : c.toNat ≤ 127 := hascii
  omega

theorem toNat_lead_ascii {c : Char} (hc : c.toNat < 128) : (lead c).toNat = c.toNat := by
  rw [lead_ascii hc, UInt8.toNat_ofNat', Nat.mod_eq_of_lt (by omega)]

theorem toNat_lead_wide {c : Char} (hc : 128 ≤ c.toNat) : 128 ≤ (lead c).toNat :=
  UInt8.le_iff_toNat_le.mp (lead_wide hc)

/-- A character below 128 is told by its byte. -/
theorem lead_eq_iff {c x : Char} (hx : x.toNat < 128) :
    lead c = UInt8.ofNat x.toNat ↔ c = x := by
  constructor
  · intro h
    have hnat := congrArg UInt8.toNat h
    rw [UInt8.toNat_ofNat', Nat.mod_eq_of_lt (by omega)] at hnat
    by_cases hc : c.toNat < 128
    · rw [toNat_lead_ascii hc] at hnat
      exact Char.ext (UInt32.toNat_inj.mp hnat)
    · have hwide := toNat_lead_wide (Nat.le_of_not_lt hc)
      omega
  · rintro rfl
    exact lead_ascii hx

section Stored

variable (rest : Bytes) {c : Char} {s : List Char}

theorem stored_nil : stored rest [] = Ch.nul :: rest := rfl

theorem stored_append (s t : List Char) : stored rest (s ++ t) = utf8 s ++ stored rest t := by
  rw [stored, utf8_append, List.append_assoc, stored]

theorem stored_cons_char (c : Char) (s : List Char) :
    stored rest (c :: s) = String.utf8EncodeChar c ++ stored rest s := by
  rw [stored, utf8_cons, List.append_assoc, stored]

theorem stored_cons (hc : c.toNat < 128) (s : List Char) :
    stored rest (c :: s) = UInt8.ofNat c.toNat :: stored rest s := by
  rw [stored_cons_char, encode_ascii hc, List.singleton_append]

theorem stored_front (s : List Char) : ∃ bs, stored rest s = front s :: bs := by
  cases s with
  | nil => exact ⟨rest, rfl⟩
  | cons c s =>
      rw [stored_cons_char, front]
      cases h : String.utf8EncodeChar c with
      | nil => exact absurd h String.utf8EncodeChar_ne_nil
      | cons b bs => exact ⟨bs ++ stored rest s, by simp [lead, h]⟩

theorem deref_stored (s : List Char) : deref (stored rest s) = .ok (front s) := by
  obtain ⟨bs, h⟩ := stored_front rest s
  rw [h, deref]

end Stored

/-! ## White space -/

theorem skip_stored (rest : Bytes) {c : Char} {s r : List Char}
    (h : JsonText.skipWs s = c :: r) (hc : 32 < c.toNat) :
    skip (stored rest s) = .ok (stored rest (c :: r)) := by
  obtain ⟨ws, rfl, hws, -⟩ := JsonText.skipWs_eq_cons h
  clear h
  induction ws with
  | nil =>
      have hvisible : 32 < (lead c).toNat := by
        by_cases hascii : c.toNat < 128
        · rwa [toNat_lead_ascii hascii]
        · exact Nat.lt_of_lt_of_le (by decide) (toNat_lead_wide (Nat.le_of_not_lt hascii))
      obtain ⟨bs, hfront⟩ := stored_front rest (c :: r)
      rw [List.nil_append, hfront]
      refine skip_visible (fun hblank => ?_) bs
      exact absurd (UInt8.le_iff_toNat_le.mp hblank.2) (Nat.not_le.mpr hvisible)
  | cons w ws ih =>
      have hw := hws w (List.mem_cons_self ..)
      have hblank : w.toNat < 128 ∧ UInt8.ofNat w.toNat ≠ Ch.nul ∧ UInt8.ofNat w.toNat ≤ 32 := by
        simp only [JsonText.isWs, Bool.or_eq_true, decide_eq_true_eq] at hw
        rcases hw with ((rfl | rfl) | rfl) | rfl <;> decide
      rw [List.cons_append, stored_cons rest hblank.1, skip, if_pos hblank.2]
      exact ih fun x hx => hws x (List.mem_cons_of_mem w hx)

/-! ## Numbers -/

section Numbers

variable (rest : Bytes) {c : Char} {s r p t : List Char}

theorem isDigit_iff : JsonText.isDigit c = true ↔ 48 ≤ c.toNat ∧ c.toNat ≤ 57 := by
  rw [JsonText.isDigit, decide_eq_true_iff]
  exact Iff.rfl

theorem isDigit_lead (c : Char) : isDigit (lead c) = JsonText.isDigit c := by
  have hbyte : isDigit (lead c) = true ↔ 48 ≤ (lead c).toNat ∧ (lead c).toNat ≤ 57 := by
    rw [isDigit, Bool.and_eq_true, decide_eq_true_iff, decide_eq_true_iff]
    exact Iff.rfl
  rw [Bool.eq_iff_iff, hbyte, isDigit_iff]
  by_cases hc : c.toNat < 128
  · rw [toNat_lead_ascii hc]
  · have hwide := toNat_lead_wide (Nat.le_of_not_lt hc)
    omega

theorem isDigit_front : isDigit (front s) = (s.head?.any JsonText.isDigit) := by
  cases s with
  | nil => decide
  | cons c s => exact isDigit_lead c

/-- The digits are skipped by both alike. -/
theorem skipDigits_stored (s : List Char) :
    skipDigits (stored rest s) = .ok (stored rest (JsonText.digits s)) := by
  induction s with
  | nil => rw [stored_nil, skipDigits, if_neg (by decide)]; rfl
  | cons c s ih =>
      cases hc : JsonText.isDigit c with
      | true =>
          have hascii : c.toNat < 128 := by
            have := isDigit_iff.mp hc
            omega
          have hdigit : isDigit (UInt8.ofNat c.toNat) = true := by
            rw [← lead_ascii hascii, isDigit_lead, hc]
          rw [stored_cons rest hascii, skipDigits, if_pos hdigit, ih, JsonText.digits,
            JsonText.digits, List.dropWhile_cons_of_pos hc]
      | false =>
          obtain ⟨bs, hfront⟩ := stored_front rest (c :: s)
          have hdigit : ¬ isDigit (front (c :: s)) = true := by
            rw [front, isDigit_lead, hc]
            exact Bool.false_ne_true
          rw [hfront, skipDigits, if_neg hdigit, ← hfront, JsonText.digits,
            List.dropWhile_cons_of_neg (by simp [hc])]

theorem digits_append (ht : t.head?.any JsonText.isDigit = false) (r : List Char) :
    JsonText.digits (r ++ t) = JsonText.digits r ++ t := by
  induction r with
  | nil =>
      cases t with
      | nil => rfl
      | cons c t => exact List.dropWhile_cons_of_neg (by simpa using ht)
  | cons c r ih =>
      cases hc : JsonText.isDigit c with
      | true =>
          have hpos : JsonText.digits (c :: r) = JsonText.digits r :=
            List.dropWhile_cons_of_pos hc
          have hpos' : JsonText.digits (c :: (r ++ t)) = JsonText.digits (r ++ t) :=
            List.dropWhile_cons_of_pos hc
          rw [List.cons_append, hpos', hpos, ih]
      | false =>
          have hneg : ∀ u, JsonText.digits (c :: u) = c :: u := fun u =>
            List.dropWhile_cons_of_neg (by simp [hc])
          rw [List.cons_append, hneg, hneg, List.cons_append]

/-! The three parts of `parse_number` behind the sign. -/

def parseInteger (num : Bytes) : Except Fault Bytes := do
  let num ← skipChar Ch.zero num
  let c ← deref num
  if 49 ≤ c ∧ c ≤ Ch.nine then skipDigits num else pure num

def parseFraction (num : Bytes) : Except Fault Bytes := do
  let c ← deref num
  if c = Ch.dot then do
    let d ← deref num.tail
    if isDigit d then skipDigits num.tail else pure num
  else pure num

def parseExponent (num : Bytes) : Except Fault Bytes := do
  let c ← deref num
  if c = 101 ∨ c = 69 then do
    let sign ← deref num.tail
    skipDigits (if sign = Ch.plus ∨ sign = Ch.minus then num.tail.tail else num.tail)
  else pure num

theorem parseNumber_eq (num : Bytes) : parseNumber num = (do
    let num ← skipChar Ch.minus num
    let num ← parseInteger num
    let num ← parseFraction num
    parseExponent num) := by
  have hif : ∀ (P : Prop) [Decidable P] (a b : Except Fault Bytes) (k : Bytes → Except Fault Bytes),
      (if P then a else b) >>= k = if P then a >>= k else b >>= k := by
    intro P _ a b k
    split <;> rfl
  simp only [parseNumber, parseInteger, parseFraction, parseExponent, bind_assoc, hif]

/-- Neither the character nor the terminator is `x`. -/
theorem front_ne {x : Char} (hx : x.toNat < 128) (hnul : UInt8.ofNat x.toNat ≠ Ch.nul)
    (h : s.head? ≠ some x) : front s ≠ UInt8.ofNat x.toNat := by
  cases s with
  | nil => exact hnul.symm
  | cons c s =>
      intro hc
      exact h (congrArg some ((lead_eq_iff hx).mp hc))

theorem skipChar_stored {b : UInt8} (hb : front s ≠ b) :
    skipChar b (stored rest s) = .ok (stored rest s) := by
  rw [skipChar, deref_stored, except_ok_bind, if_neg hb]
  rfl

theorem follows_front (ht : JsonText.Follows t) :
    t.head?.any JsonText.isDigit = false ∧ front t ≠ Ch.dot ∧ front t ≠ 101 ∧ front t ≠ 69 := by
  have hne : ∀ x, JsonText.isNumChar x = true → t.head? ≠ some x := by
    intro x hx hhead
    rw [ht x (Option.mem_def.mpr hhead)] at hx
    cases hx
  refine ⟨?_, front_ne (x := '.') (by decide) (by decide) (hne '.' (by decide)),
    front_ne (x := 'e') (by decide) (by decide) (hne 'e' (by decide)),
    front_ne (x := 'E') (by decide) (by decide) (hne 'E' (by decide))⟩
  cases t with
  | nil => rfl
  | cons c t =>
      have hc := JsonText.follows_cons.mp ht
      simp only [JsonText.isNumChar, Bool.or_eq_false_iff] at hc
      simpa using hc.1.1.1.1.1

/-- Digits in front of what may follow a number. -/
theorem skipDigits_front (ht : JsonText.Follows t) (hc : JsonText.isDigit c = true) :
    skipDigits (stored rest (c :: (s ++ t))) = .ok (stored rest (JsonText.digits s ++ t)) := by
  have hdrop : JsonText.digits (c :: (s ++ t)) = JsonText.digits (s ++ t) :=
    List.dropWhile_cons_of_pos hc
  rw [skipDigits_stored, hdrop, digits_append (follows_front ht).1]

theorem expDigits_some (h : JsonText.expDigits s = some r) :
    ∃ c u, s = c :: u ∧ JsonText.isDigit c = true ∧ r = JsonText.digits u := by
  cases s with
  | nil => cases h
  | cons c u =>
      cases hc : JsonText.isDigit c with
      | true =>
          simp only [JsonText.expDigits, if_pos hc, Option.some.injEq] at h
          exact ⟨c, u, rfl, hc, h.symm⟩
      | false => simp [JsonText.expDigits, hc] at h

/-- The exponent of a number, if it has one: its digits come with or without
a sign. -/
theorem expPart_some (h : JsonText.expPart s = some r) :
    (s = r ∧ s.head? ≠ some 'e' ∧ s.head? ≠ some 'E') ∨
      ∃ e sign c u, s = e :: (sign ++ c :: u) ∧ (e = 'e' ∨ e = 'E') ∧
        (sign = [] ∨ sign = ['+'] ∨ sign = ['-']) ∧ JsonText.isDigit c = true ∧
        r = JsonText.digits u := by
  unfold JsonText.expPart at h
  split at h
  case h_7 =>
    rename_i he hE
    cases h
    refine .inl ⟨rfl, fun hhead => ?_, fun hhead => ?_⟩
    · obtain ⟨u, rfl⟩ := List.head?_eq_some_iff.mp hhead
      exact he u rfl
    · obtain ⟨u, rfl⟩ := List.head?_eq_some_iff.mp hhead
      exact hE u rfl
  all_goals
    obtain ⟨c, u, rfl, hc, rfl⟩ := expDigits_some h
    right
  · exact ⟨'e', ['+'], c, u, rfl, .inl rfl, .inr (.inl rfl), hc, rfl⟩
  · exact ⟨'e', ['-'], c, u, rfl, .inl rfl, .inr (.inr rfl), hc, rfl⟩
  · exact ⟨'E', ['+'], c, u, rfl, .inr rfl, .inr (.inl rfl), hc, rfl⟩
  · exact ⟨'E', ['-'], c, u, rfl, .inr rfl, .inr (.inr rfl), hc, rfl⟩
  · exact ⟨'e', [], c, u, rfl, .inl rfl, .inl rfl, hc, rfl⟩
  · exact ⟨'E', [], c, u, rfl, .inr rfl, .inl rfl, hc, rfl⟩

theorem parseExponent_stored (h : JsonText.expPart p = some []) (ht : JsonText.Follows t) :
    parseExponent (stored rest (p ++ t)) = .ok (stored rest t) := by
  rcases expPart_some h with ⟨rfl, -⟩ | ⟨e, sign, c, u, rfl, he, hsign, hc, hu⟩
  · rw [List.nil_append, parseExponent, deref_stored, except_ok_bind,
      if_neg (not_or.mpr (follows_front ht).2.2)]
    rfl
  · have hdigits := skipDigits_front rest (s := u) ht hc
    rw [← hu, List.nil_append] at hdigits
    have hascii : c.toNat < 128 := by
      have := isDigit_iff.mp hc
      omega
    have hnum : stored rest (e :: (sign ++ c :: u) ++ t) =
        lead e :: (utf8 sign ++ stored rest (c :: (u ++ t))) := by
      have he' : e.toNat < 128 := by rcases he with rfl | rfl <;> decide
      rw [List.cons_append, stored_cons rest he', lead_ascii he', List.append_assoc,
        stored_append]
      rfl
    have hlead : lead e = 101 ∨ lead e = 69 := by
      rcases he with rfl | rfl
      · exact .inl rfl
      · exact .inr rfl
    rw [hnum, parseExponent, deref, except_ok_bind, if_pos hlead, List.tail_cons]
    rcases hsign with rfl | rfl | rfl
    · have hnosign : ¬ (lead c = Ch.plus ∨ lead c = Ch.minus) := by
        have hdigit := isDigit_lead c
        rw [hc] at hdigit
        rintro (hplus | hminus)
        · rw [hplus] at hdigit
          exact absurd hdigit (by decide)
        · rw [hminus] at hdigit
          exact absurd hdigit (by decide)
      rw [utf8_nil, List.nil_append, deref_stored, except_ok_bind, front, if_neg hnosign]
      exact hdigits
    · exact hdigits
    · exact hdigits

theorem fracPart_some (h : JsonText.fracPart s = some r) :
    (s = r ∧ s.head? ≠ some '.') ∨
      ∃ c u, s = '.' :: c :: u ∧ JsonText.isDigit c = true ∧ r = JsonText.digits u := by
  unfold JsonText.fracPart at h
  split at h
  · rename_i c u
    split at h
    · cases h
      exact .inr ⟨c, u, rfl, ‹_›, rfl⟩
    · cases h
  · cases h
  · rename_i hlong hshort
    cases h
    refine .inl ⟨rfl, fun hhead => ?_⟩
    obtain ⟨u, rfl⟩ := List.head?_eq_some_iff.mp hhead
    cases u with
    | nil => exact hshort rfl
    | cons c u => exact hlong c u rfl

theorem parseFraction_stored (h : JsonText.fracPart p = some r) (ht : JsonText.Follows t) :
    parseFraction (stored rest (p ++ t)) = .ok (stored rest (r ++ t)) := by
  rcases fracPart_some h with ⟨rfl, hhead⟩ | ⟨c, u, rfl, hc, rfl⟩
  · have hfront : front (p ++ t) ≠ Ch.dot := by
      cases p with
      | nil => exact (follows_front ht).2.1
      | cons c p => exact front_ne (x := '.') (by decide) (by decide) hhead
    rw [parseFraction, deref_stored, except_ok_bind, if_neg hfront]
    rfl
  · have hnum : stored rest ('.' :: c :: u ++ t) = Ch.dot :: stored rest (c :: (u ++ t)) := rfl
    have hdigit : isDigit (front (c :: (u ++ t))) = true := by
      rw [front, isDigit_lead, hc]
    rw [hnum, parseFraction, deref, except_ok_bind, if_pos rfl, List.tail_cons, deref_stored,
      except_ok_bind, if_pos hdigit]
    exact skipDigits_front rest ht hc

theorem intPart_some (h : JsonText.intPart s = some r) :
    s = '0' :: r ∨
      ∃ c u, s = c :: u ∧ c ≠ '0' ∧ JsonText.isDigit c = true ∧ r = JsonText.digits u := by
  unfold JsonText.intPart at h
  split at h
  · cases h
    exact .inl rfl
  · rename_i c u hzero
    split at h
    · cases h
      exact .inr ⟨c, u, rfl, hzero, ‹_›, rfl⟩
    · cases h
  · cases h

/-- No digit comes behind the digits in front of the fraction. -/
theorem integer_done {q : List Char} (hr : JsonText.fracPart r = some q)
    (hq : JsonText.expPart q = some []) (ht : JsonText.Follows t) :
    (r ++ t).head?.any JsonText.isDigit = false := by
  rcases fracPart_some hr with ⟨rfl, -⟩ | ⟨c, u, rfl, -, -⟩
  · rcases expPart_some hq with ⟨rfl, -⟩ | ⟨e, sign, c, u, rfl, rfl | rfl, -⟩
    · exact (follows_front ht).1
    · rfl
    · rfl
  · rfl

theorem parseInteger_stored {q : List Char} (h : JsonText.intPart p = some r)
    (hr : JsonText.fracPart r = some q) (hq : JsonText.expPart q = some [])
    (ht : JsonText.Follows t) :
    parseInteger (stored rest (p ++ t)) = .ok (stored rest (r ++ t)) := by
  rcases intPart_some h with rfl | ⟨c, u, rfl, hzero, hc, rfl⟩
  · have hdone : isDigit (front (r ++ t)) = false := by
      rw [isDigit_front, integer_done hr hq ht]
    have hstop : ¬ (49 ≤ front (r ++ t) ∧ front (r ++ t) ≤ Ch.nine) := by
      rintro ⟨hlow, hhigh⟩
      have hlow' : Ch.zero ≤ front (r ++ t) := UInt8.le_trans (by decide) hlow
      simp [isDigit, hlow', hhigh] at hdone
    have hskip : skipChar Ch.zero (stored rest ('0' :: r ++ t)) = .ok (stored rest (r ++ t)) := rfl
    rw [parseInteger, hskip, except_ok_bind, deref_stored, except_ok_bind, if_neg hstop]
    rfl
  · have hfront : front (c :: u ++ t) ≠ Ch.zero :=
      front_ne (x := '0') (by decide) (by decide) (by simpa using hzero)
    have hrange : 49 ≤ front (c :: u ++ t) ∧ front (c :: u ++ t) ≤ Ch.nine := by
      have hdigit : isDigit (front (c :: u ++ t)) = true := by
        rw [List.cons_append, front, isDigit_lead, hc]
      rw [isDigit, Bool.and_eq_true, decide_eq_true_iff, decide_eq_true_iff] at hdigit
      refine ⟨?_, hdigit.2⟩
      have hlow : 48 ≤ (front (c :: u ++ t)).toNat := UInt8.le_iff_toNat_le.mp hdigit.1
      have hne : (front (c :: u ++ t)).toNat ≠ 48 := fun heq =>
        hfront (UInt8.toNat_inj.mp heq)
      rw [UInt8.le_iff_toNat_le, show (49 : UInt8).toNat = 49 from rfl]
      omega
    rw [parseInteger, skipChar_stored rest hfront, except_ok_bind, deref_stored, except_ok_bind,
      if_pos hrange]
    exact skipDigits_front rest ht hc

/-- Both parsers read the same number. -/
theorem parseNumber_stored (hp : JsonText.isNumber p = true) (ht : JsonText.Follows t) :
    parseNumber (stored rest (p ++ t)) = .ok (stored rest t) := by
  have hunsigned : ∀ p', JsonText.unsigned p' = some [] →
      (do
        let num ← parseInteger (stored rest (p' ++ t))
        let num ← parseFraction num
        parseExponent num) = .ok (stored rest t) := by
    intro p' hp'
    obtain ⟨r, hr, hrest⟩ := Option.bind_eq_some_iff.mp hp'
    obtain ⟨q, hq, hexp⟩ := Option.bind_eq_some_iff.mp hrest
    rw [parseInteger_stored rest hr hq hexp ht, except_ok_bind, parseFraction_stored rest hq ht,
      except_ok_bind]
    exact parseExponent_stored rest hexp ht
  rw [parseNumber_eq]
  unfold JsonText.isNumber at hp
  split at hp
  · rename_i r
    exact hunsigned r (of_decide_eq_true hp)
  · rename_i hsign
    have hfront : front (p ++ t) ≠ Ch.minus := by
      cases p with
      | nil => cases hp
      | cons c p =>
          refine front_ne (x := '-') (by decide) (by decide) fun hhead => ?_
          obtain rfl : c = '-' := by simpa using hhead
          exact hsign p rfl
    rw [skipChar_stored rest hfront, except_ok_bind]
    exact hunsigned p (of_decide_eq_true hp)

end Numbers

end Admlink
