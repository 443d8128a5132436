import Admlink.ParseNumbers

/-!
# Strings

`parse_string` goes over a string twice, to count and to write. On a string that
is JSON both passes end at its closing quote, and what the second writes fills
the block exactly: the characters in UTF-8, but for U+0000 (`written`).
-/

namespace Admlink

open Program CJson Utf8

/-! ## The two passes over a string -/

/-- Both passes of `parse_string` get from `s` to `t`, the second one writing
`w` into what the first one counted. -/
structure Passes (s t w : Bytes) : Prop where
  count : ∃ n, w.length ≤ n ∧ ∀ len, countString s len = countString t (len + n)
  shorter : t.length ≤ s.length
  decode : ∀ fuel room out ptr, s.length ≤ fuel → w.length ≤ room →
    (∀ fuel', t.length ≤ fuel' → decodeString fuel' t (room - w.length) = .ok (out, ptr)) →
    decodeString fuel s room = .ok (w ++ out, ptr)

namespace Passes

variable {s t u w w' : Bytes} {b e : UInt8} {n : Nat}

theorem refl (s : Bytes) : Passes s s [] where
  count := ⟨0, Nat.le_refl 0, fun _ => rfl⟩
  shorter := Nat.le_refl _
  decode fuel _ _ _ hfuel _ h := h fuel hfuel

theorem trans (h : Passes s t w) (h' : Passes t u w') : Passes s u (w ++ w') where
  count := by
    obtain ⟨n, hn, hcount⟩ := h.count
    obtain ⟨n', hn', hcount'⟩ := h'.count
    refine ⟨n + n', by rw [List.length_append]; omega, fun len => ?_⟩
    rw [hcount, hcount', Nat.add_assoc]
  shorter := Nat.le_trans h'.shorter h.shorter
  decode fuel room out ptr hfuel hroom hrest := by
    rw [List.length_append] at hroom
    rw [List.append_assoc]
    refine h.decode fuel room (w' ++ out) ptr hfuel (by omega) fun fuel' hfuel' => ?_
    refine h'.decode fuel' (room - w.length) out ptr hfuel' (by omega) fun fuel'' hfuel'' => ?_
    rw [Nat.sub_sub, ← List.length_append]
    exact hrest fuel'' hfuel''

theorem plain (hb : Plain b) : Passes (b :: s) s [b] where
  count := by
    refine ⟨1, Nat.le_refl 1, fun len => ?_⟩
    rw [countString.eq_def]
    simp only [hb.1, hb.2.1, hb.2.2, or_self, ↓reduceIte]
  shorter := Nat.le_succ _
  decode fuel room out ptr hfuel hroom h := by
    rw [List.length_cons] at hfuel
    rw [List.length_singleton] at hroom
    obtain ⟨fuel, rfl⟩ := Nat.exists_eq_succ_of_ne_zero (show fuel ≠ 0 by omega)
    rw [Nat.succ_eq_add_one, decodeString_char (by simp [hb.1, hb.2.2]) hb.2.1,
      if_neg (by omega)]
    rw [show decodeString fuel s (room - 1) = .ok (out, ptr) from h fuel (by omega)]
    rfl

theorem plains : ∀ {x : Bytes}, (∀ b ∈ x, Plain b) → Passes (x ++ s) s x
  | [], _ => refl s
  | b :: _, hx =>
      (plain (hx b (List.mem_cons_self ..))).trans
        (plains fun c hc => hx c (List.mem_cons_of_mem b hc))

/-- An escape writes no more than was counted for it and for what it reads. -/
theorem escape (h : unescape e s = .ok (w, t)) (hn : w.length ≤ n + 1)
    (hcount : ∀ len, countString s len = countString t (len + n)) (hlen : t.length ≤ s.length) :
    Passes (Ch.backslash :: e :: s) t w where
  count := by
    refine ⟨n + 1, hn, fun len => ?_⟩
    rw [countString.eq_def]
    simp only [show ¬ (Ch.backslash = Ch.quote ∨ Ch.backslash = Ch.nul) by decide, ↓reduceIte]
    rw [hcount, Nat.add_right_comm, Nat.add_assoc]
  shorter := by
    simp only [List.length_cons]
    omega
  decode fuel room out ptr hfuel hroom hrest := by
    simp only [List.length_cons] at hfuel
    obtain ⟨fuel, rfl⟩ := Nat.exists_eq_succ_of_ne_zero (show fuel ≠ 0 by omega)
    rw [Nat.succ_eq_add_one, decodeString_escape, h, except_ok_bind]
    dsimp only
    rw [if_neg (Nat.not_lt.mpr hroom), hrest fuel (by omega)]
    rfl

/-- The passes end at the closing quote. -/
theorem parseString (h : Passes s (Ch.quote :: t) w) :
    ∃ size, parseString (Ch.quote :: s) = .ok (some (⟨w, size⟩, t)) := by
  obtain ⟨n, hn, hcount⟩ := h.count
  have hend : countString (Ch.quote :: t) n = .ok n := by
    rw [countString.eq_def]
    exact if_pos (.inl rfl)
  have hlen : countString s 0 = .ok n := by rw [hcount, Nat.zero_add, hend]
  have hdecode : decodeString (s.length + 1) s n = .ok (w ++ [], Ch.quote :: t) := by
    refine h.decode _ n [] (Ch.quote :: t) (Nat.le_succ _) hn fun fuel hfuel => ?_
    obtain ⟨fuel, rfl⟩ := Nat.exists_eq_succ_of_ne_zero
      (show fuel ≠ 0 by rw [List.length_cons] at hfuel; omega)
    exact decodeString_stop (.inl rfl)
  refine ⟨n + 1, ?_⟩
  rw [List.append_nil] at hdecode
  unfold Admlink.parseString
  simp only [deref, List.tail_cons, except_ok_bind, ne_eq, not_true_eq_false, ↓reduceIte]
  rw [hlen, except_ok_bind, hdecode]
  rfl

end Passes

/-! ## Characters -/

/-- What `parse_string` writes for a text: its terminator is not told from the
character U+0000, which it leaves out. -/
def written (cs : List Char) : Bytes := utf8 (cs.filter (· ≠ '\x00'))

theorem written_nul : written ['\x00'] = [] := by decide

theorem written_single {c : Char} (hc : c ≠ '\x00') :
    written [c] = String.utf8EncodeChar c := by
  rw [written, List.filter_cons_of_pos (by simpa using hc), List.filter_nil, utf8_cons, utf8_nil,
    List.append_nil]

theorem written_cons (c : Char) (cs : List Char) :
    written (c :: cs) = written [c] ++ written cs := by
  rw [written, written, written, ← utf8_append, ← List.filter_append, List.singleton_append]

theorem length_written_single (c : Char) : (written [c]).length ≤ 4 := by
  have hfilter := List.length_filter_le (· ≠ '\x00') [c]
  have hutf8 := length_utf8_le ([c].filter (· ≠ '\x00'))
  rw [List.length_singleton] at hfilter
  exact hutf8.trans (by omega)

/-- Only the characters below 128 have their bytes. -/
theorem eq_of_mem_encode {c x : Char} (hx : x.toNat < 128)
    (h : UInt8.ofNat x.toNat ∈ String.utf8EncodeChar c) : c = x := by
  have hb : UInt8.ofNat x.toNat < 128 := by
    rw [UInt8.lt_iff_toNat_lt, UInt8.toNat_ofNat', Nat.mod_eq_of_lt (by omega)]
    exact hx
  have hone := encode_of_ascii hb h
  rw [← encode_ascii hx] at hone
  have happend : String.utf8EncodeChar c ++ [] = String.utf8EncodeChar x ++ [] := by rw [hone]
  exact (encode_inj happend).1

theorem plain_encode {c : Char} (hq : c ≠ '"') (hb : c ≠ '\\') (hn : c ≠ '\x00') :
    ∀ b ∈ String.utf8EncodeChar c, Plain b := by
  intro b hmem
  refine ⟨?_, ?_, ?_⟩
  · rintro rfl
    exact hq (eq_of_mem_encode (x := '"') (by decide) hmem)
  · rintro rfl
    exact hb (eq_of_mem_encode (x := '\\') (by decide) hmem)
  · rintro rfl
    exact hn (eq_of_mem_encode (x := '\x00') (by decide) hmem)

theorem cstr_written (cs : List Char) : cstr (written cs) = written cs := by
  refine cstr_eq_self fun hnul => ?_
  obtain ⟨c, hc, hmem⟩ := List.mem_flatMap.mp hnul
  obtain rfl : c = '\x00' := eq_of_mem_encode (x := '\x00') (by decide) hmem
  simpa using (List.mem_filter.mp hc).2

section Escapes

variable (rest : Bytes) {c : Char} {s r : List Char} {n d : Nat}

/-- A hex digit is one byte, of the same value. -/
theorem hexDigit_some (h : JsonText.hexDigit c = some d) :
    c.toNat < 128 ∧ d < 16 ∧ hexDigit? (UInt8.ofNat c.toNat) = some d ∧
      Plain (UInt8.ofNat c.toNat) := by
  have hrange : ∀ lo hi : Char, (lo ≤ c ∧ c ≤ hi) ↔ lo.toNat ≤ c.toNat ∧ c.toNat ≤ hi.toNat :=
    fun _ _ => Iff.rfl
  have hbyte : c.toNat < 128 → (UInt8.ofNat c.toNat).toNat = c.toNat := fun hc => by
    rw [UInt8.toNat_ofNat', Nat.mod_eq_of_lt (by omega)]
  have hplain : c.toNat < 128 → 48 ≤ c.toNat → c.toNat ≠ 92 → Plain (UInt8.ofNat c.toNat) := by
    intro hc hlow hback
    refine ⟨fun heq => ?_, fun heq => ?_, fun heq => ?_⟩
    · have hnat : c.toNat = 34 := (hbyte hc).symm.trans (congrArg UInt8.toNat heq)
      omega
    · exact hback ((hbyte hc).symm.trans (congrArg UInt8.toNat heq))
    · have hnat : c.toNat = 0 := (hbyte hc).symm.trans (congrArg UInt8.toNat heq)
      omega
  unfold JsonText.hexDigit at h
  simp only [hrange, show '0'.toNat = 48 from rfl, show '9'.toNat = 57 from rfl,
    show 'a'.toNat = 97 from rfl, show 'f'.toNat = 102 from rfl, show 'A'.toNat = 65 from rfl,
    show 'F'.toNat = 70 from rfl] at h
  -- both tables have the same three ranges, in another order
  unfold hexDigit?
  simp only [UInt8.le_iff_toNat_le, UInt8.reduceToNat]
  split at h
  · cases h
    refine ⟨by omega, by omega, ?_, hplain (by omega) (by omega) (by omega)⟩
    rw [hbyte (by omega), if_pos (by omega)]
  split at h
  · cases h
    refine ⟨by omega, by omega, ?_, hplain (by omega) (by omega) (by omega)⟩
    rw [hbyte (by omega), if_neg (by omega), if_neg (by omega), if_pos (by omega)]
    congr 1
    omega
  split at h
  · cases h
    refine ⟨by omega, by omega, ?_, hplain (by omega) (by omega) (by omega)⟩
    rw [hbyte (by omega), if_neg (by omega), if_pos (by omega)]
    congr 1
    omega
  · cases h

/-- Four hex digits are four bytes, of the same value. -/
theorem hex4_stored (h : JsonText.hex4 s = some (n, r)) :
    ∃ x : Bytes, stored rest s = x ++ stored rest r ∧ x.length = 4 ∧ (∀ b ∈ x, Plain b) ∧
      n < 0x10000 ∧ ∀ ys, parseHex4 (x ++ ys) = .ok n := by
  unfold JsonText.hex4 at h
  split at h
  · rename_i a b c d r
    obtain ⟨na, ha, h⟩ := Option.bind_eq_some_iff.mp h
    obtain ⟨nb, hb, h⟩ := Option.bind_eq_some_iff.mp h
    obtain ⟨nc, hc, h⟩ := Option.bind_eq_some_iff.mp h
    obtain ⟨nd, hd, h⟩ := Option.bind_eq_some_iff.mp h
    cases h
    obtain ⟨hla, hva, hxa, hpa⟩ := hexDigit_some ha
    obtain ⟨hlb, hvb, hxb, hpb⟩ := hexDigit_some hb
    obtain ⟨hlc, hvc, hxc, hpc⟩ := hexDigit_some hc
    obtain ⟨hld, hvd, hxd, hpd⟩ := hexDigit_some hd
    refine ⟨[UInt8.ofNat a.toNat, UInt8.ofNat b.toNat, UInt8.ofNat c.toNat, UInt8.ofNat d.toNat],
      ?_, rfl, ?_, by omega, fun ys => ?_⟩
    · rw [stored_cons rest hla, stored_cons rest hlb, stored_cons rest hlc, stored_cons rest hld]
      rfl
    · simp only [List.mem_cons, List.not_mem_nil, or_false]
      rintro x (rfl | rfl | rfl | rfl)
      · exact hpa
      · exact hpb
      · exact hpc
      · exact hpd
    · simp only [parseHex4, List.cons_append, parseHex, hxa, hxb, hxc, hxd]
      congr 1
      omega
  · cases h

/-- The switch over `len` writes the UTF-8 of the character. -/
theorem utf8Bytes_eq (hn : n.isValidChar) : utf8Bytes n = String.utf8EncodeChar (Char.ofNat n) := by
  have hval : (Char.ofNat n).val.toNat = n := by
    rw [Char.ofNat, dif_pos hn]
    rfl
  have hlt : n < 0x110000 := by
    rcases hn with h | h <;> omega
  unfold utf8Bytes String.utf8EncodeChar contByte
  simp only [hval]
  by_cases h1 : n < 0x80
  · rw [if_pos h1, if_pos (show n ≤ 0x7f by omega)]
  rw [if_neg h1, if_neg (show ¬ n ≤ 0x7f by omega)]
  by_cases h2 : n < 0x800
  · rw [if_pos h2, if_pos (show n ≤ 0x7ff by omega),
      Nat.mod_eq_of_lt (show n / 64 < 0x20 by omega)]
  rw [if_neg h2, if_neg (show ¬ n ≤ 0x7ff by omega)]
  by_cases h3 : n < 0x10000
  · rw [if_pos h3, if_pos (show n ≤ 0xffff by omega),
      Nat.mod_eq_of_lt (show n / 4096 < 0x10 by omega)]
  · rw [if_neg h3, if_neg (show ¬ n ≤ 0xffff by omega),
      Nat.mod_eq_of_lt (show n / 262144 < 0x08 by omega)]

theorem charOf_some (h : JsonText.charOf n = some c) : n.isValidChar ∧ c = Char.ofNat n := by
  unfold JsonText.charOf at h
  split at h
  · cases h
    exact ⟨‹_›, rfl⟩
  · cases h

/-- What is written for an escaped character, U+0000 apart. -/
theorem written_charOf (h : JsonText.charOf n = some c) :
    written [c] = if n = 0 then [] else utf8Bytes n := by
  obtain ⟨hvalid, rfl⟩ := charOf_some h
  by_cases hn : n = 0
  · subst hn
    rw [if_pos rfl]
    exact written_nul
  · have hc : Char.ofNat n ≠ '\x00' := by
      intro hc
      have hnat := congrArg Char.toNat hc
      rw [Char.ofNat, dif_pos hvalid] at hnat
      exact hn hnat
    rw [if_neg hn, written_single hc, utf8Bytes_eq hvalid]

theorem countString_plains {x : Bytes} (hx : ∀ b ∈ x, Plain b) (ys : Bytes) (len : Nat) :
    countString (x ++ ys) len = countString ys (len + x.length) := by
  induction x generalizing len with
  | nil => rfl
  | cons b x ih =>
      obtain ⟨hq, hb, hn⟩ := hx b (List.mem_cons_self ..)
      rw [List.cons_append, countString.eq_def]
      simp only [hq, hn, hb, or_self, ↓reduceIte]
      rw [ih fun c hc => hx c (List.mem_cons_of_mem b hc), List.length_cons, Nat.add_assoc,
        Nat.add_comm 1]

/-- Two surrogates, the second one behind `\u`, are one code point. -/
theorem unescapeU_pair {x x2 : Bytes} {m m2 : Nat} (hlen : x.length = 4) (hlen2 : x2.length = 4)
    (hread : ∀ ys, parseHex4 (x ++ ys) = .ok m) (hread2 : ∀ ys, parseHex4 (x2 ++ ys) = .ok m2)
    (hm : 0xD800 ≤ m ∧ m < 0xDC00) (hm2 : 0xDC00 ≤ m2 ∧ m2 < 0xE000) (ys : Bytes) :
    unescapeU (x ++ Ch.backslash :: 117 :: (x2 ++ ys)) =
      .ok (utf8Bytes (0x10000 + (m - 0xD800) * 1024 + (m2 - 0xDC00)), ys) := by
  have hdrop : ∀ zs, (x ++ zs).drop 4 = zs := fun zs => List.drop_left' hlen
  have hdrop2 : (x2 ++ ys).drop 4 = ys := List.drop_left' hlen2
  have hcode : 0x10000 + (m % 1024 * 1024 + m2 % 1024) =
      0x10000 + (m - 0xD800) * 1024 + (m2 - 0xDC00) := by omega
  rw [unescapeU, hread, except_ok_bind, hdrop]
  dsimp only
  rw [if_neg (by omega), if_pos (by omega), deref, except_ok_bind, if_neg (not_not_intro rfl),
    List.tail_cons, deref, except_ok_bind, if_neg (not_not_intro rfl), List.drop_succ_cons,
    List.drop_succ_cons, List.drop_zero, hread2, except_ok_bind, if_neg (by omega), hcode,
    List.drop_succ_cons, List.drop_succ_cons, hdrop2]
  rfl

/-- Any other code point stands for itself, but U+0000 writes nothing. -/
theorem unescapeU_single {x : Bytes} {m : Nat} (hlen : x.length = 4)
    (hread : ∀ ys, parseHex4 (x ++ ys) = .ok m) (hm : m.isValidChar) (ys : Bytes) :
    unescapeU (x ++ ys) = .ok (if m = 0 then [] else utf8Bytes m, ys) := by
  have hdrop : (x ++ ys).drop 4 = ys := List.drop_left' hlen
  have hrange : m < 0xD800 ∨ 0xDFFF < m ∧ m < 0x110000 := hm
  rw [unescapeU, hread, except_ok_bind, hdrop]
  dsimp only
  by_cases hzero : m = 0
  · rw [if_pos (.inr hzero), if_pos hzero]
    rfl
  · rw [if_neg (by omega), if_neg (by omega), if_neg hzero]
    rfl

/-- A `\u` escape: both parsers decode it alike, and its digits were counted. -/
theorem unescapeU_stored (h : JsonText.unicode s = some (c, r)) :
    ∃ n, unescapeU (stored rest s) = .ok (written [c], stored rest r) ∧ 4 ≤ n ∧
      (∀ len, countString (stored rest s) len = countString (stored rest r) (len + n)) ∧
      (stored rest r).length ≤ (stored rest s).length := by
  unfold JsonText.unicode at h
  obtain ⟨⟨m, r1⟩, h1, hrest⟩ := Option.bind_eq_some_iff.mp h
  obtain ⟨x, hx, hlen, hplain, hm, hread⟩ := hex4_stored rest h1
  dsimp only at hrest
  by_cases hsurrogate : 0xD800 ≤ m ∧ m < 0xDC00
  · rw [if_pos hsurrogate] at hrest
    -- a high surrogate: the second escape must follow at once
    split at hrest
    · rename_i r2
      obtain ⟨⟨m2, r3⟩, h2, hlow⟩ := Option.bind_eq_some_iff.mp hrest
      obtain ⟨x2, hx2, hlen2, hplain2, -, hread2⟩ := hex4_stored rest h2
      dsimp only at hlow
      by_cases hm2 : 0xDC00 ≤ m2 ∧ m2 < 0xE000
      · rw [if_pos hm2, Option.map_eq_some_iff] at hlow
        obtain ⟨c', hc, heq⟩ := hlow
        cases heq
        have hpair : stored rest s = x ++ Ch.backslash :: 117 :: (x2 ++ stored rest r) := by
          rw [hx, ← hx2]
          rfl
        refine ⟨9, ?_, by decide, fun len => ?_, ?_⟩
        · rw [written_charOf hc, if_neg (by omega), hpair]
          exact unescapeU_pair hlen hlen2 hread hread2 hsurrogate hm2 (stored rest r)
        · rw [hpair, countString_plains hplain, countString.eq_def]
          simp only [show ¬ (Ch.backslash = Ch.quote ∨ Ch.backslash = Ch.nul) by decide,
            ↓reduceIte]
          rw [countString_plains hplain2, hlen, hlen2]
        · rw [hpair]
          simp only [List.length_append, List.length_cons]
          omega
      · rw [if_neg hm2] at hlow
        cases hlow
    · cases hrest
  · rw [if_neg hsurrogate, Option.map_eq_some_iff] at hrest
    obtain ⟨c', hc, heq⟩ := hrest
    cases heq
    refine ⟨4, ?_, Nat.le_refl 4, fun len => ?_, ?_⟩
    · rw [written_charOf hc, hx]
      exact unescapeU_single hlen hread (charOf_some hc).1 (stored rest r)
    · rw [hx, countString_plains hplain, hlen]
    · rw [hx, List.length_append]
      omega

/-- One escape of a string. -/
theorem passes_escape (h : JsonText.escape s = some (c, r)) :
    Passes (Ch.backslash :: stored rest s) (stored rest r) (written [c]) := by
  -- the escapes that write what `parse_string` has for them and count one
  have simple : ∀ (e d : Char), e.toNat < 128 → written [d] = [UInt8.ofNat d.toNat] →
      (∀ ys, unescape (UInt8.ofNat e.toNat) ys = .ok ([UInt8.ofNat d.toNat], ys)) →
      Passes (Ch.backslash :: stored rest (e :: r)) (stored rest r) (written [d]) := by
    intro e d he hd hread
    rw [stored_cons rest he, hd]
    exact Passes.escape (n := 0) (hread _) (Nat.le_refl 1) (fun _ => rfl) (Nat.le_refl _)
  unfold JsonText.escape at h
  split at h
  case h_9 =>
    obtain ⟨n, hread, hn, hcount, hlen⟩ := unescapeU_stored rest h
    exact Passes.escape (e := 117) hread ((length_written_single c).trans (by omega)) hcount hlen
  case h_10 => cases h
  all_goals
    cases h
    exact simple _ _ (by decide) (by decide) fun _ => rfl

/-- One character of a string, written out or escaped. -/
theorem passes_character (h : JsonText.character s = some (c, r)) (hq : s.head? ≠ some '"') :
    Passes (stored rest s) (stored rest r) (written [c]) := by
  unfold JsonText.character at h
  split at h
  · cases h
  · rename_i u
    exact passes_escape rest h
  · rename_i d u hback
    split at h
    · rename_i hd
      cases h
      have hnul : c ≠ '\x00' := by
        rintro rfl
        exact absurd hd.1 (by decide)
      rw [stored_cons_char, written_single hnul]
      exact Passes.plains (plain_encode hd.2.1 hd.2.2 hnul)
    · cases h

theorem passes_chars {cs : List Char} {fuel : Nat} (h : JsonText.chars fuel s = some (cs, r)) :
    Passes (stored rest s) (Ch.quote :: stored rest r) (written cs) := by
  induction fuel generalizing s cs with
  | zero => cases h
  | succ fuel ih =>
      rcases JsonText.chars_cases h with ⟨rfl, rfl⟩ | ⟨d, ds, -, t, rfl, -, hne, hd, hds⟩
      · exact Passes.refl _
      · rw [written_cons]
        refine (passes_character rest hd fun hhead => ?_).trans (ih hds)
        obtain ⟨u, rfl⟩ := List.head?_eq_some_iff.mp hhead
        exact hne u rfl

/-- Both parsers read the same string. -/
theorem parseString_stored {k : List Char} (h : JsonText.string s = some (k, r)) :
    ∃ b, parseString (stored rest ('"' :: s)) = .ok (some (b, stored rest r)) ∧
      b.str = written k := by
  obtain ⟨size, hread⟩ := (passes_chars rest h).parseString
  exact ⟨⟨written k, size⟩, hread, cstr_written k⟩

end Escapes

end Admlink
