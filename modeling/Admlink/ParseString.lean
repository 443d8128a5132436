import Admlink.CJson
import Admlink.Lib.Program

/-!
# What `parse_string` reads back

A text without quotes and backslashes is read back as it is. In front of the
end of a report no other text is: an escape is always read back shorter, and
the one that swallows the closing quote brings in braces instead.
-/

namespace Admlink

open Program

/-- A character that stands for itself in a JSON string. -/
def Plain (c : UInt8) : Prop := c ≠ Ch.quote ∧ c ≠ Ch.backslash ∧ c ≠ Ch.nul

instance (c : UInt8) : Decidable (Plain c) := by unfold Plain; infer_instance

section Steps

variable {c : UInt8} {cs : Bytes} {fuel room : Nat}

theorem decodeString_stop (hstop : c = Ch.quote ∨ c = Ch.nul) :
    decodeString (fuel + 1) (c :: cs) room = .ok ([], c :: cs) := by
  rw [decodeString.eq_def]
  exact if_pos hstop

theorem decodeString_char (hstop : ¬ (c = Ch.quote ∨ c = Ch.nul)) (hback : c ≠ Ch.backslash) :
    decodeString (fuel + 1) (c :: cs) room =
      if room = 0 then .error .overflow
      else do
        let (out, ptr) ← decodeString fuel cs (room - 1)
        return (c :: out, ptr) := by
  rw [decodeString.eq_def]
  simp only [if_neg hstop, if_pos hback]

theorem decodeString_escape (e : UInt8) (rest : Bytes) :
    decodeString (fuel + 1) (Ch.backslash :: e :: rest) room = (do
      let (w, next) ← unescape e rest
      if room < w.length then .error .overflow
      else do
        let (out, ptr) ← decodeString fuel next (room - w.length)
        return (w ++ out, ptr)) := by
  rw [decodeString.eq_def]
  rfl

/-- The second pass stays inside the block of the first, or is a fault. -/
theorem length_decodeString : ∀ (fuel : Nat) (s : Bytes) (room : Nat) {out ptr : Bytes},
    decodeString fuel s room = .ok (out, ptr) → out.length ≤ room
  | 0, _, _, _, _, h => by
      rw [decodeString] at h
      cases h
  | _ + 1, [], _, _, _, h => by
      rw [decodeString] at h
      cases h
  | fuel + 1, c :: cs, room, out, ptr, h => by
      by_cases hstop : c = Ch.quote ∨ c = Ch.nul
      · rw [decodeString_stop hstop] at h
        cases h
        exact Nat.zero_le _
      -- the room for an escape is checked before it is written, as for a character
      by_cases hback : c = Ch.backslash
      · subst hback
        cases cs with
        | nil =>
            rw [decodeString.eq_def] at h
            cases h
        | cons e rest =>
            rw [decodeString_escape] at h
            obtain ⟨⟨w, next⟩, -, h⟩ := except_bind_ok h
            simp only at h
            split at h
            · cases h
            obtain ⟨⟨out', ptr'⟩, hr, h⟩ := except_bind_ok h
            cases h
            have hlen := length_decodeString fuel next _ hr
            simp only [List.length_append]
            omega
      · rw [decodeString_char hstop hback] at h
        split at h
        · cases h
        obtain ⟨⟨out', ptr'⟩, hr, h⟩ := except_bind_ok h
        cases h
        have hlen := length_decodeString fuel cs _ hr
        simp only [List.length_cons]
        omega

end Steps

/-- A parsed string and its terminator fit the block. -/
theorem parseString_room {s ptr : Bytes} {b : CBuf} (h : parseString s = .ok (some (b, ptr))) :
    b.str.length < b.size := by
  unfold parseString at h
  obtain ⟨c, -, h⟩ := except_bind_ok h
  split at h
  · cases h
  obtain ⟨len, -, h⟩ := except_bind_ok h
  obtain ⟨⟨out, p⟩, hout, h⟩ := except_bind_ok h
  obtain ⟨_, -, h⟩ := except_bind_ok h
  cases h
  exact Nat.lt_succ_of_le ((length_cstr_le out).trans (length_decodeString _ _ _ hout))

/-! ## Plain text -/

theorem countString_plain {s : Bytes} (hs : ∀ c ∈ s, Plain c) (rest : Bytes) :
    ∀ len, countString (s ++ Ch.quote :: rest) len = .ok (len + s.length) := by
  induction s with
  | nil =>
      intro len
      rw [List.nil_append, countString.eq_def]
      exact if_pos (.inl rfl)
  | cons c s ih =>
      intro len
      obtain ⟨hq, hb, hn⟩ := hs c (List.mem_cons_self ..)
      rw [List.cons_append, countString.eq_def]
      simp only [hq, hn, hb, or_self, ↓reduceIte]
      rw [ih (fun d hd => hs d (List.mem_cons_of_mem _ hd)), List.length_cons, Nat.add_assoc,
        Nat.add_comm 1]

theorem decodeString_plain {s : Bytes} (hs : ∀ c ∈ s, Plain c) (rest : Bytes) :
    ∀ fuel room, s.length < fuel → s.length ≤ room →
      decodeString fuel (s ++ Ch.quote :: rest) room = .ok (s, Ch.quote :: rest) := by
  induction s with
  | nil =>
      intro fuel room hfuel _
      obtain ⟨fuel, rfl⟩ : ∃ n, fuel = n + 1 := ⟨fuel - 1, by simp at hfuel; omega⟩
      exact decodeString_stop (.inl rfl)
  | cons c s ih =>
      intro fuel room hfuel hroom
      obtain ⟨hq, hb, hn⟩ := hs c (List.mem_cons_self ..)
      simp only [List.length_cons] at hfuel hroom
      obtain ⟨fuel, rfl⟩ : ∃ n, fuel = n + 1 := ⟨fuel - 1, by omega⟩
      have hrest := ih (fun d hd => hs d (List.mem_cons_of_mem _ hd)) fuel (room - 1)
        (by omega) (by omega)
      rw [List.cons_append, decodeString_char (by simp [hq, hn]) hb, if_neg (by omega), hrest]
      rfl

theorem parseString_plain {s : Bytes} (hs : ∀ c ∈ s, Plain c) (rest : Bytes) :
    parseString (Ch.quote :: (s ++ Ch.quote :: rest)) = .ok (some (⟨s, s.length + 1⟩, rest)) := by
  have hcount := countString_plain hs rest 0
  have hdecode := decodeString_plain hs rest ((s ++ Ch.quote :: rest).length + 1) s.length
    (by simp only [List.length_append]; omega) (Nat.le_refl _)
  rw [Nat.zero_add] at hcount
  unfold parseString
  simp only [deref, List.tail_cons, except_ok_bind, ne_eq, not_true_eq_false, ↓reduceIte]
  rw [hcount, except_ok_bind, hdecode]
  rfl

/-! ## In front of the end of a report -/

/-- The end of a report, with the terminator of the message. -/
def closing : Bytes := [34, 125, 125, 125, 0]

theorem parseHex_short {t : Bytes} : ∀ (ys : Bytes) (n h : Nat), ys.length < n →
    parseHex n h (ys ++ Ch.quote :: t) = .ok 0
  | [], n + 1, h, _ => by
      rw [List.nil_append, parseHex, show hexDigit? Ch.quote = none by decide]
  | c :: ys, n, h, hlen => by
      obtain ⟨n, rfl⟩ : ∃ m, n = m + 1 := ⟨n - 1, by simp only [List.length_cons] at hlen; omega⟩
      rw [List.cons_append, parseHex]
      cases hexDigit? c with
      | none => rfl
      | some d => exact parseHex_short ys n _ (by simpa using hlen)

theorem length_utf8Bytes (uc : Nat) : (utf8Bytes uc).length ≤ 4 := by
  unfold utf8Bytes
  split
  · simp
  split
  · simp
  split <;> simp

/-- A `\u` escape reads `k` characters and writes at most four; one that
swallows the closing quote writes nothing and leaves some of the braces. -/
theorem unescapeU_spec {ys w next : Bytes} (h : unescapeU (ys ++ closing) = .ok (w, next)) :
    ∃ k, 4 ≤ k ∧ next = (ys ++ closing).drop k ∧ w.length ≤ 4 ∧
      (ys.length < k → w = [] ∧ k ≤ ys.length + 4) := by
  unfold unescapeU at h
  obtain ⟨uc, huc, h⟩ := except_bind_ok h
  split at h
  · cases h
    exact ⟨4, Nat.le_refl _, rfl, by simp, fun _ => ⟨rfl, by omega⟩⟩
  rename_i hrange
  -- a text too short for four digits reads as code point 0, which is refused
  have hlen : 4 ≤ ys.length := by
    by_contra hlt
    have hzero : parseHex4 (ys ++ closing) = .ok 0 := parseHex_short ys 4 0 (by omega)
    rw [hzero] at huc
    cases huc
    exact hrange (.inr rfl)
  have hafter : (ys ++ closing).drop 4 = ys.drop 4 ++ closing :=
    List.drop_append_of_le_length hlen
  split at h
  · -- a high surrogate looks at the next escape, which must lie in `ys`
    rw [hafter] at h
    have hfour : ∀ {w' : Bytes}, w' = [] → ∃ k, 4 ≤ k ∧
        ys.drop 4 ++ closing = (ys ++ closing).drop k ∧ w'.length ≤ 4 ∧
        (ys.length < k → w' = [] ∧ k ≤ ys.length + 4) := fun hw =>
      ⟨4, Nat.le_refl _, hafter.symm, by simp [hw], fun hlt => by omega⟩
    obtain ⟨c, hc, h⟩ := except_bind_ok h
    split at h
    · cases h
      exact hfour rfl
    rename_i hback
    obtain ⟨c₂, hc₂, h⟩ := except_bind_ok h
    split at h
    · cases h
      exact hfour rfl
    rename_i hu
    -- no escape begins in the closing characters, so both characters lie in `ys`
    obtain ⟨ys₂, hys₂⟩ : ∃ ys₂, ys.drop 4 = Ch.backslash :: 117 :: ys₂ := by
      cases hd : ys.drop 4 with
      | nil =>
          rw [hd] at hc
          cases hc
          exact absurd (by decide) hback
      | cons a ys₁ =>
          rw [hd] at hc hc₂
          cases hc
          cases ys₁ with
          | nil =>
              cases hc₂
              exact absurd (by decide) hu
          | cons b ys₂ =>
              cases hc₂
              simp only [ne_eq, Decidable.not_not] at hback hu
              exact ⟨ys₂, by rw [hback, hu]⟩
    have hsix : ys.length = 6 + ys₂.length := by
      have := congrArg List.length hys₂
      simp only [List.length_drop, List.length_cons] at this
      omega
    have hten : (ys.drop 4 ++ closing).drop 6 = (ys ++ closing).drop 10 := by
      rw [← hafter, List.drop_drop]
    obtain ⟨uc₂, huc₂, h⟩ := except_bind_ok h
    rw [hten] at h
    split at h
    · cases h
      exact ⟨10, by omega, rfl, by simp, fun _ => ⟨rfl, by omega⟩⟩
    rename_i hlow
    cases h
    refine ⟨10, by omega, rfl, length_utf8Bytes _, fun hlt => ?_⟩
    -- digits that run into the closing characters read as 0, no low surrogate
    have hzero : parseHex4 ((ys.drop 4 ++ closing).drop 2) = .ok 0 := by
      rw [hys₂]
      exact parseHex_short ys₂ 4 0 (by omega)
    rw [hzero] at huc₂
    cases huc₂
    exact absurd (.inl (by decide)) hlow
  · cases h
    exact ⟨4, Nat.le_refl _, rfl, length_utf8Bytes _, fun hlt => by omega⟩

theorem decodeString_braces : ∀ (j fuel room : Nat) {out ptr : Bytes},
    decodeString fuel (List.replicate j 125 ++ [0]) room = .ok (out, ptr) →
      out = List.replicate j 125
  | _, 0, _, _, _, h => by
      rw [decodeString] at h
      cases h
  | 0, fuel + 1, room, out, ptr, h => by
      rw [List.replicate_zero, List.nil_append, decodeString_stop (.inr rfl)] at h
      cases h
      rfl
  | j + 1, fuel + 1, room, out, ptr, h => by
      rw [List.replicate_succ, List.cons_append, decodeString_char (by decide) (by decide)] at h
      split at h
      · cases h
      · obtain ⟨⟨out', ptr'⟩, hr, h⟩ := except_bind_ok h
        cases h
        rw [decodeString_braces j fuel _ hr, List.replicate_succ]

theorem unescape_other {e : UInt8} {rest w next : Bytes} (he : e ≠ 117)
    (h : unescape e rest = .ok (w, next)) : ∃ a, w = [a] ∧ next = rest := by
  unfold unescape at h
  repeat' split at h
  all_goals first | contradiction | (cases h; exact ⟨_, rfl, rfl⟩)

/-- An escape in front of the end reads more than it writes. Either it stays in
front of the quote, or it writes nothing and only braces are left. -/
theorem unescape_spec {e : UInt8} {ys w next : Bytes}
    (h : unescape e (ys ++ closing) = .ok (w, next)) :
    (∃ k, k ≤ ys.length ∧ next = ys.drop k ++ closing ∧ w.length < k + 2) ∨
      w = [] ∧ ∃ j, j ≤ ys.length ∧ next = List.replicate j 125 ++ [0] := by
  by_cases he : e = 117
  · subst he
    obtain ⟨k, hk, rfl, hw, hover⟩ := unescapeU_spec h
    by_cases hlen : k ≤ ys.length
    · exact .inl ⟨k, hlen, List.drop_append_of_le_length hlen, by omega⟩
    · obtain ⟨rfl, hk4⟩ := hover (by omega)
      refine .inr ⟨rfl, ys.length + 4 - k, by omega, ?_⟩
      obtain ⟨i, rfl⟩ : ∃ i, k = ys.length + i := ⟨k - ys.length, by omega⟩
      rw [List.drop_append, List.drop_eq_nil_of_le (by omega), List.nil_append,
        Nat.add_sub_cancel_left, Nat.add_sub_add_left]
      have hi : i = 1 ∨ i = 2 ∨ i = 3 ∨ i = 4 := by omega
      rcases hi with rfl | rfl | rfl | rfl <;> rfl
  · obtain ⟨a, rfl, rfl⟩ := unescape_other he h
    exact .inl ⟨0, Nat.zero_le _, rfl, by simp⟩

theorem cstr_append (w s : Bytes) :
    (Ch.nul ∈ w ∧ (cstr (w ++ s)).length < w.length) ∨ cstr (w ++ s) = w ++ cstr s := by
  induction w with
  | nil => exact .inr rfl
  | cons c w ih =>
      by_cases hc : c = Ch.nul
      · subst hc
        exact .inl ⟨List.mem_cons_self .., by simp [cstr]⟩
      · have hcons : ∀ t, cstr (c :: t) = c :: cstr t := fun t => by simp [cstr, hc]
        rw [List.cons_append, hcons]
        rcases ih with ⟨hmem, hlen⟩ | heq
        · exact .inl ⟨List.mem_cons_of_mem _ hmem, by simpa using hlen⟩
        · exact .inr (by rw [heq]; rfl)

/-- What is left of an equation between two concatenations behind the shorter
of the two fronts. -/
theorem eq_drop_append {α : Type} {a b c d : List α} (h : a ++ b = c ++ d)
    (hlen : a.length ≤ c.length) : b = c.drop a.length ++ d := by
  have := congrArg (List.drop a.length) h
  rwa [List.drop_left, List.drop_append_of_le_length hlen] at this

/-- A text `x` in front of the end of a report: if what is read back ends in
`x`, then it is `x`, and there is neither a quote nor a backslash in it. The
induction is on the fuel; `z` is what an escape has left over. -/
theorem plain_of_decodeString : ∀ (fuel : Nat) (x : Bytes) (room : Nat) {out ptr z : Bytes},
    decodeString fuel (x ++ closing) room = .ok (out, ptr) → cstr out = z ++ x →
      z = [] ∧ ∀ c ∈ x, Plain c
  | 0, _, _, _, _, _, h, _ => by
      rw [decodeString] at h
      cases h
  | fuel + 1, [], room, out, ptr, z, h, hout => by
      rw [List.nil_append, closing, decodeString_stop (.inl rfl)] at h
      cases h
      exact ⟨by simpa [cstr] using hout.symm, by simp⟩
  | fuel + 1, c :: xs, room, out, ptr, z, h, hout => by
      rw [List.cons_append] at h
      by_cases hstop : c = Ch.quote ∨ c = Ch.nul
      · rw [decodeString_stop hstop] at h
        cases h
        simp [cstr] at hout
      by_cases hback : c = Ch.backslash
      · subst hback
        cases xs with
        | nil =>
            -- the escape takes the closing quote
            rw [List.nil_append, closing, decodeString_escape] at h
            obtain ⟨⟨w, next⟩, hw, h⟩ := except_bind_ok h
            cases hw
            simp only at h
            split at h
            · cases h
            obtain ⟨⟨out', ptr'⟩, hr, h⟩ := except_bind_ok h
            cases h
            have hbraces : out' = [125, 125, 125] := decodeString_braces 3 fuel _ hr
            subst hbraces
            have hlast : (cstr [34, 125, 125, 125]).getLast? = (z ++ [Ch.backslash]).getLast? :=
              congrArg List.getLast? hout
            rw [List.getLast?_concat] at hlast
            exact absurd hlast (by decide)
        | cons e ys =>
            rw [List.cons_append, decodeString_escape] at h
            obtain ⟨⟨w, next⟩, hw, h⟩ := except_bind_ok h
            simp only at h
            split at h
            · cases h
            obtain ⟨⟨out', ptr'⟩, hr, h⟩ := except_bind_ok h
            cases h
            exfalso
            have hlen := congrArg List.length hout
            simp only [List.length_append, List.length_cons] at hlen
            rcases unescape_spec hw with ⟨k, hk, rfl, hwk⟩ | ⟨rfl, j, hj, rfl⟩
            · rcases cstr_append w out' with ⟨-, hshort⟩ | heq
              · omega
              · have hsplit : z ++ Ch.backslash :: e :: ys =
                    (z ++ Ch.backslash :: e :: ys.take k) ++ ys.drop k := by simp
                rw [heq, hsplit] at hout
                have htake : (ys.take k).length = k := List.length_take_of_le hk
                have hfront : w.length < (z ++ Ch.backslash :: e :: ys.take k).length := by
                  simp only [List.length_append, List.length_cons, htake]
                  omega
                have hrest := eq_drop_append hout (Nat.le_of_lt hfront)
                have hnil := (plain_of_decodeString fuel _ _ hr hrest).1
                rw [List.drop_eq_nil_iff] at hnil
                omega
            · have hbraces := decodeString_braces j fuel _ hr
              have hle := length_cstr_le ([] ++ out')
              rw [hbraces, List.nil_append, List.length_replicate] at hle
              rw [hbraces, List.nil_append] at hlen
              omega
      · rw [decodeString_char hstop hback] at h
        split at h
        · cases h
        obtain ⟨⟨out', ptr'⟩, hr, h⟩ := except_bind_ok h
        cases h
        have hcons : cstr (c :: out') = c :: cstr out' := by
          have hc : c ≠ Ch.nul := fun h => hstop (.inr h)
          simp [cstr, hc]
        rw [hcons] at hout
        cases z with
        | nil =>
            obtain ⟨-, hxs⟩ := plain_of_decodeString fuel xs _ (z := []) hr
              (List.cons.inj hout).2
            refine ⟨rfl, fun d hd => ?_⟩
            rcases List.mem_cons.mp hd with rfl | hd
            · exact ⟨fun h => hstop (.inl h), hback, fun h => hstop (.inr h)⟩
            · exact hxs d hd
        | cons d z =>
            have htail : cstr out' = (z ++ [c]) ++ xs := by
              rw [List.append_assoc]
              exact (List.cons.inj hout).2
            exact absurd (plain_of_decodeString fuel xs _ hr htail).1 (by simp)

end Admlink
