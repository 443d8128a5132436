import Admlink.Lib.JsonText

/-!
# What the JSON parser reads

Each function of the parser splits its text into what it reads and what it
leaves, and reads the same whatever is put in place of the rest. A number alone
looks one character ahead.
-/

namespace JsonText

variable {c : Char} {s r p : List Char}

/-! ## Strings -/

/-- Neither ends a string nor separates members. -/
def Inner (c : Char) : Prop := c ≠ '"' ∧ c ≠ ','

theorem inner_of_hexDigit {n : Nat} (h : hexDigit c = some n) : Inner c := by
  constructor
  · rintro rfl
    cases h
  · rintro rfl
    cases h

theorem hex4_some {n : Nat} (h : hex4 s = some (n, r)) :
    ∃ p, s = p ++ r ∧ p ≠ [] ∧ (∀ x ∈ p, Inner x) ∧ ∀ t, hex4 (p ++ t) = some (n, t) := by
  unfold hex4 at h
  split at h
  · rename_i a b c d rest
    obtain ⟨na, ha, h⟩ := Option.bind_eq_some_iff.mp h
    obtain ⟨nb, hb, h⟩ := Option.bind_eq_some_iff.mp h
    obtain ⟨nc, hc, h⟩ := Option.bind_eq_some_iff.mp h
    obtain ⟨nd, hd, h⟩ := Option.bind_eq_some_iff.mp h
    cases h
    refine ⟨[a, b, c, d], rfl, List.cons_ne_nil _ _, ?_, fun t => ?_⟩
    · simp only [List.mem_cons, List.not_mem_nil, or_false]
      rintro x (rfl | rfl | rfl | rfl)
      · exact inner_of_hexDigit ha
      · exact inner_of_hexDigit hb
      · exact inner_of_hexDigit hc
      · exact inner_of_hexDigit hd
    · simp [hex4, ha, hb, hc, hd]
  · cases h

theorem unicode_some (h : unicode s = some (c, r)) :
    ∃ p, s = p ++ r ∧ p ≠ [] ∧ (∀ x ∈ p, Inner x) ∧ ∀ t, unicode (p ++ t) = some (c, t) := by
  unfold unicode at h
  obtain ⟨⟨n, r1⟩, h1, hrest⟩ := Option.bind_eq_some_iff.mp h
  obtain ⟨p1, rfl, hp1, hin1, hread1⟩ := hex4_some h1
  dsimp only at hrest
  by_cases hn : 0xD800 ≤ n ∧ n < 0xDC00
  · rw [if_pos hn] at hrest
    split at hrest
    · rename_i r2
      obtain ⟨⟨m, r3⟩, h2, hlow⟩ := Option.bind_eq_some_iff.mp hrest
      obtain ⟨p2, rfl, -, hin2, hread2⟩ := hex4_some h2
      dsimp only at hlow
      by_cases hm : 0xDC00 ≤ m ∧ m < 0xE000
      · rw [if_pos hm, Option.map_eq_some_iff] at hlow
        obtain ⟨c', hc, heq⟩ := hlow
        cases heq
        refine ⟨p1 ++ '\\' :: 'u' :: p2, by simp, by simp [hp1], ?_, fun t => ?_⟩
        · simp only [List.mem_append, List.mem_cons]
          rintro x (hx | rfl | rfl | hx)
          · exact hin1 x hx
          · exact ⟨by decide, by decide⟩
          · exact ⟨by decide, by decide⟩
          · exact hin2 x hx
        · have happ : (p1 ++ '\\' :: 'u' :: p2) ++ t = p1 ++ '\\' :: 'u' :: (p2 ++ t) := by simp
          rw [happ, unicode, hread1]
          simp [hn, hread2, hm, hc]
      · rw [if_neg hm] at hlow
        cases hlow
    · cases hrest
  · rw [if_neg hn, Option.map_eq_some_iff] at hrest
    obtain ⟨c', hc, heq⟩ := hrest
    cases heq
    refine ⟨p1, rfl, hp1, hin1, fun t => ?_⟩
    rw [unicode, hread1]
    simp [hn, hc]

theorem escape_some (h : escape s = some (c, r)) :
    ∃ p, s = p ++ r ∧ p ≠ [] ∧ (p = ['"'] ∨ ∀ x ∈ p, Inner x) ∧
      ∀ t, escape (p ++ t) = some (c, t) := by
  unfold escape at h
  split at h
  case h_9 =>
    rename_i rest
    obtain ⟨p, rfl, -, hin, hread⟩ := unicode_some h
    refine ⟨'u' :: p, rfl, List.cons_ne_nil _ _, .inr ?_, hread⟩
    simp only [List.mem_cons]
    rintro x (rfl | hx)
    · exact ⟨by decide, by decide⟩
    · exact hin x hx
  case h_10 => cases h
  all_goals
    cases h
    refine ⟨[_], rfl, List.cons_ne_nil _ _, ?_, fun _ => rfl⟩
  · exact .inl rfl
  all_goals
    refine .inr ?_
    simp only [List.mem_singleton, forall_eq]
    exact ⟨by decide, by decide⟩

/-- How one character of a string is written: as itself, or as an escape. -/
theorem character_some (h : character s = some (c, r)) :
    ∃ p, s = p ++ r ∧ (∀ t, character (p ++ t) = some (c, t)) ∧
      (p = [c] ∧ Unescaped c ∨
        ∃ q, p = '\\' :: q ∧ q ≠ [] ∧ (q = ['"'] ∨ ∀ x ∈ q, Inner x)) := by
  unfold character at h
  split at h
  · cases h
  · rename_i rest
    obtain ⟨q, rfl, hq, hin, hread⟩ := escape_some h
    exact ⟨'\\' :: q, rfl, hread, .inr ⟨q, rfl, hq, hin⟩⟩
  · rename_i d rest hback
    by_cases hd : Unescaped d
    · rw [if_pos hd] at h
      cases h
      refine ⟨[c], rfl, fun t => ?_, .inl ⟨rfl, hd⟩⟩
      simp [character, hd]
    · rw [if_neg hd] at h
      cases h

theorem character_of_unescaped (h : Unescaped c) (t : List Char) :
    character (c :: t) = some (c, t) := by
  unfold character
  split
  · contradiction
  · rename_i hs
    cases hs
    exact absurd rfl h.2.2
  · rename_i hs
    cases hs
    rw [if_pos h]

theorem chars_succ {fuel : Nat} (h : ∀ t, s ≠ '"' :: t) :
    chars (fuel + 1) s = (do
      let (c, r) ← character s
      let (cs, r) ← chars fuel r
      return (c :: cs, r)) := by
  rw [chars]
  exact fun t ht => h t ht

/-- One character of a string, then the rest of it. -/
theorem chars_cases {fuel : Nat} {cs : List Char} (h : chars (fuel + 1) s = some (cs, r)) :
    (cs = [] ∧ s = '"' :: r) ∨
      ∃ d ds p t, cs = d :: ds ∧ s = p ++ t ∧ (∀ u, s ≠ '"' :: u) ∧ character s = some (d, t) ∧
        chars fuel t = some (ds, r) := by
  by_cases hq : ∃ u, s = '"' :: u
  · obtain ⟨u, rfl⟩ := hq
    cases h
    exact .inl ⟨rfl, rfl⟩
  · have hne : ∀ u, s ≠ '"' :: u := fun u hu => hq ⟨u, hu⟩
    rw [chars_succ hne] at h
    obtain ⟨⟨d, t⟩, hd, hrest⟩ := Option.bind_eq_some_iff.mp h
    obtain ⟨⟨ds, r'⟩, hds, heq⟩ := Option.bind_eq_some_iff.mp hrest
    cases heq
    obtain ⟨p, hp, -, -⟩ := character_some hd
    exact .inr ⟨d, ds, p, t, rfl, hp, hne, hd, hds⟩

theorem chars_some : ∀ {fuel : Nat} {s cs r : List Char}, chars fuel s = some (cs, r) →
    ∃ p, s = p ++ r ∧ p ≠ [] ∧ ∀ g t, p.length ≤ g → chars g (p ++ t) = some (cs, t) := by
  intro fuel
  induction fuel with
  | zero =>
      intro s cs r h
      cases h
  | succ fuel ih =>
      intro s cs r h
      rcases chars_cases h with ⟨rfl, rfl⟩ | ⟨d, ds, -, t, rfl, -, hne, hd, hds⟩
      · refine ⟨['"'], rfl, List.cons_ne_nil _ _, fun g t hg => ?_⟩
        obtain ⟨g, rfl⟩ := Nat.exists_eq_succ_of_ne_zero (Nat.ne_of_gt hg)
        rfl
      · obtain ⟨p1, rfl, hread1, hp1⟩ := character_some hd
        obtain ⟨p2, rfl, hp2, hread2⟩ := ih hds
        have hlen : 0 < p1.length := by
          rcases hp1 with ⟨rfl, -⟩ | ⟨q, rfl, -⟩ <;> simp
        refine ⟨p1 ++ p2, (List.append_assoc ..).symm, by simp [hp2], fun g t hg => ?_⟩
        rw [List.length_append] at hg
        obtain ⟨g, rfl⟩ := Nat.exists_eq_succ_of_ne_zero (show g ≠ 0 by omega)
        have hne' : ∀ u, (p1 ++ p2) ++ t ≠ '"' :: u := by
          intro u hu
          cases p1 with
          | nil => cases hlen
          | cons x p1 =>
              rw [List.append_assoc, List.cons_append, List.cons.injEq] at hu
              exact hne (p1 ++ (p2 ++ r)) (by rw [List.cons_append, hu.1])
        rw [chars_succ hne', List.append_assoc, hread1]
        simp only [Option.bind_eq_bind, Option.bind_some]
        rw [hread2 g t (by omega)]
        rfl

/-- A string is read up to its closing quote. -/
theorem string_some {cs : List Char} (h : string s = some (cs, r)) :
    ∃ p, s = p ++ r ∧ p ≠ [] ∧ ∀ t, string (p ++ t) = some (cs, t) := by
  obtain ⟨p, hp, hne, hread⟩ := chars_some h
  exact ⟨p, hp, hne, fun t => hread _ t (by rw [List.length_append]; omega)⟩

/-- Characters that stand for themselves are read as they are. -/
theorem string_of_unescaped {cs : List Char} (h : ∀ c ∈ cs, Unescaped c) (t : List Char) :
    string (cs ++ '"' :: t) = some (cs, t) := by
  have hchars : ∀ g, cs.length < g → chars g (cs ++ '"' :: t) = some (cs, t) := by
    induction cs with
    | nil =>
        intro g hg
        obtain ⟨g, rfl⟩ := Nat.exists_eq_succ_of_ne_zero (Nat.ne_of_gt hg)
        rfl
    | cons c cs ih =>
        intro g hg
        rw [List.length_cons] at hg
        obtain ⟨g, rfl⟩ := Nat.exists_eq_succ_of_ne_zero (show g ≠ 0 by omega)
        have hc := h c (List.mem_cons_self ..)
        have hne : ∀ u, c :: (cs ++ '"' :: t) ≠ '"' :: u := by
          intro u hu
          exact hc.2.1 (List.cons.inj hu).1
        rw [List.cons_append, chars_succ hne, character_of_unescaped hc]
        simp only [Option.bind_eq_bind, Option.bind_some]
        rw [ih (fun c hc => h c (List.mem_cons_of_mem _ hc)) g (by omega)]
        rfl
  exact hchars _ (by rw [List.length_append, List.length_cons]; omega)

/-! ## Words and numbers -/

/-- What may stand behind a value: no number goes on there. -/
def Follows (t : List Char) : Prop := ∀ c ∈ t.head?, isNumChar c = false

theorem follows_nil : Follows [] := by simp [Follows]

theorem follows_cons {t : List Char} : Follows (c :: t) ↔ isNumChar c = false := by simp [Follows]

theorem takeWhile_follows {t : List Char} (hp : ∀ x ∈ p, isNumChar x = true) (ht : Follows t) :
    (p ++ t).takeWhile isNumChar = p ∧ (p ++ t).dropWhile isNumChar = t := by
  have hdone : t.takeWhile isNumChar = [] ∧ t.dropWhile isNumChar = t := by
    cases t with
    | nil => exact ⟨rfl, rfl⟩
    | cons c t =>
        have hc : ¬ isNumChar c = true := by simp [follows_cons.mp ht]
        exact ⟨List.takeWhile_cons_of_neg hc, List.dropWhile_cons_of_neg hc⟩
  rw [List.takeWhile_append_of_pos hp, List.dropWhile_append_of_pos hp, hdone.1, hdone.2]
  exact ⟨List.append_nil p, rfl⟩

theorem scalar_of_number {t : List Char} (hnum : isNumber p = true)
    (hp : ∀ x ∈ p, isNumChar x = true) (ht : Follows t) :
    scalar (p ++ t) = some (.number p, t) := by
  obtain ⟨htake, hdrop⟩ := takeWhile_follows hp ht
  cases p with
  | nil => cases hnum
  | cons c p =>
      have hc := hp c (List.mem_cons_self ..)
      have hword : ∀ w : List Char, w ≠ [] → w.head?.any isNumChar = false →
          ¬ w.isPrefixOf (c :: p ++ t) = true := by
        intro w hne hw hpre
        obtain ⟨u, hu⟩ := List.isPrefixOf_iff_prefix.mp hpre
        cases w with
        | nil => exact hne rfl
        | cons x w =>
            rw [List.cons_append, List.cons_append, List.cons.injEq] at hu
            have hx : isNumChar x = false := hw
            rw [hu.1, hc] at hx
            cases hx
      unfold scalar
      rw [htake, hdrop, if_neg (hword "null".toList (by decide) (by decide)),
        if_neg (hword "true".toList (by decide) (by decide)),
        if_neg (hword "false".toList (by decide) (by decide)), if_pos hnum]

theorem scalar_some {v : Value} (h : scalar s = some (v, r)) :
    ∃ p, s = p ++ r ∧ p ≠ [] ∧ (∀ x ∈ p, x ≠ ',') ∧
      ∀ t, Follows t → scalar (p ++ t) = some (v, t) := by
  have hword : ∀ w : List Char, w.isPrefixOf s = true → s = w ++ s.drop w.length := by
    intro w hw
    obtain ⟨t, rfl⟩ := List.isPrefixOf_iff_prefix.mp hw
    rw [List.drop_left]
  unfold scalar at h
  split at h
  · cases h
    exact ⟨"null".toList, hword _ ‹_›, by decide, by simp, fun t _ => rfl⟩
  split at h
  · cases h
    exact ⟨"true".toList, hword _ ‹_›, by decide, by simp, fun t _ => rfl⟩
  split at h
  · cases h
    exact ⟨"false".toList, hword _ ‹_›, by decide, by simp, fun t _ => rfl⟩
  split at h
  · rename_i hnum
    cases h
    have hall : ∀ x ∈ s.takeWhile isNumChar, isNumChar x = true := fun x hx =>
      List.mem_takeWhile_imp hx
    refine ⟨s.takeWhile isNumChar, List.takeWhile_append_dropWhile.symm, ?_, ?_, fun t ht => ?_⟩
    · intro hnil
      rw [hnil] at hnum
      cases hnum
    · rintro x hx rfl
      exact absurd (hall ',' hx) (by decide)
    · exact scalar_of_number hnum hall ht
  · cases h

/-! ## Names -/

theorem name_of_string {ws ws' k : List Char} (hws : ∀ x ∈ ws, isWs x = true)
    (hws' : ∀ x ∈ ws', isWs x = true) (hp : ∀ t, string (p ++ t) = some (k, t)) (t : List Char) :
    name (ws ++ '"' :: (p ++ (ws' ++ ':' :: t))) = some (k, t) := by
  unfold name
  rw [skipWs_of_blank hws, skipWs_cons (by decide)]
  simp only [hp, Option.bind_eq_bind, Option.bind_some]
  rw [skipWs_of_blank hws', skipWs_cons (by decide)]
  rfl

theorem name_some {k : List Char} (h : name s = some (k, r)) :
    ∃ ws p ws', s = ws ++ '"' :: (p ++ (ws' ++ ':' :: r)) ∧ (∀ x ∈ ws, isWs x = true) ∧
      (∀ x ∈ ws', isWs x = true) ∧ p ≠ [] ∧ ∀ t, string (p ++ t) = some (k, t) := by
  unfold name at h
  split at h
  · rename_i u hu
    obtain ⟨⟨k', u'⟩, hk, hrest⟩ := Option.bind_eq_some_iff.mp h
    obtain ⟨ws, rfl, hws, -⟩ := skipWs_eq_cons hu
    obtain ⟨p, rfl, hp, hread⟩ := string_some hk
    dsimp only at hrest
    split at hrest
    · rename_i t ht
      cases hrest
      obtain ⟨ws', rfl, hws', -⟩ := skipWs_eq_cons ht
      exact ⟨ws, p, ws', rfl, hws, hws', hp, hread⟩
    · cases hrest
  · cases h

/-! ## Values -/

/-- How a value that was returned started. -/
inductive ValueCase (fuel : Nat) : List Char → Value → List Char → Prop
  | string {u d r : List Char} : string u = some (d, r) →
      ValueCase fuel ('"' :: u) (.string d) r
  | noElements {u r : List Char} : skipWs u = ']' :: r → ValueCase fuel ('[' :: u) (.array []) r
  | array {u t r : List Char} {c : Char} {vs : List Value} : skipWs u = c :: t → c ≠ ']' →
      elements fuel (c :: t) = some (vs, r) → ValueCase fuel ('[' :: u) (.array vs) r
  | noMembers {u r : List Char} : skipWs u = '\x7d' :: r →
      ValueCase fuel ('\x7b' :: u) (.object []) r
  | object {u t r : List Char} {c : Char} {ms : List (List Char × Value)} :
      skipWs u = c :: t → c ≠ '\x7d' → members fuel (c :: t) = some (ms, r) →
      ValueCase fuel ('\x7b' :: u) (.object ms) r
  | scalar {c : Char} {u r : List Char} {v : Value} : c ≠ '"' → c ≠ '[' → c ≠ '\x7b' →
      scalar (c :: u) = some (v, r) → ValueCase fuel (c :: u) v r

theorem elements_nil (fuel : Nat) : elements fuel [] = none := by
  cases fuel with
  | zero => rfl
  | succ fuel =>
      cases fuel with
      | zero => rfl
      | succ fuel => rfl

theorem members_nil (fuel : Nat) : members fuel [] = none := by
  cases fuel with
  | zero => rfl
  | succ fuel => rfl

theorem value_case {fuel : Nat} {v : Value} (h : value (fuel + 1) s = some (v, r)) :
    ∃ ws u, s = ws ++ u ∧ (∀ x ∈ ws, isWs x = true) ∧ skipWs u = u ∧ ValueCase fuel u v r := by
  have hsplit : ∀ c u, skipWs s = c :: u → ValueCase fuel (c :: u) v r →
      ∃ ws u, s = ws ++ u ∧ (∀ x ∈ ws, isWs x = true) ∧ skipWs u = u ∧ ValueCase fuel u v r := by
    intro c u hu hcase
    obtain ⟨ws, hs, hws, hc⟩ := skipWs_eq_cons hu
    exact ⟨ws, c :: u, hs, hws, skipWs_cons hc, hcase⟩
  rw [value] at h
  split at h
  · cases h
  · rename_i u hu
    obtain ⟨⟨d, r'⟩, hd, heq⟩ := Option.map_eq_some_iff.mp h
    cases heq
    exact hsplit _ u hu (.string hd)
  · rename_i u hu
    split at h
    · rename_i r' hr
      cases h
      exact hsplit _ u hu (.noElements hr)
    · rename_i hne
      obtain ⟨⟨vs, r'⟩, hvs, heq⟩ := Option.map_eq_some_iff.mp h
      cases heq
      cases ht : skipWs u with
      | nil =>
          rw [ht, elements_nil] at hvs
          cases hvs
      | cons c t =>
          rw [ht] at hvs
          refine hsplit _ u hu (.array ht ?_ hvs)
          rintro rfl
          exact hne t ht
  · rename_i u hu
    split at h
    · rename_i r' hr
      cases h
      exact hsplit _ u hu (.noMembers hr)
    · rename_i hne
      obtain ⟨⟨ms, r'⟩, hms, heq⟩ := Option.map_eq_some_iff.mp h
      cases heq
      cases ht : skipWs u with
      | nil =>
          rw [ht, members_nil] at hms
          cases hms
      | cons c t =>
          rw [ht] at hms
          refine hsplit _ u hu (.object ht ?_ hms)
          rintro rfl
          exact hne t ht
  · -- neither a string nor an array nor an object
    rename_i hnil hq hb hc
    cases hu : skipWs s with
    | nil => exact absurd hu hnil
    | cons c u =>
        rw [hu] at h
        refine hsplit c u hu (.scalar ?_ ?_ ?_ h)
        · rintro rfl
          exact hq u hu
        · rintro rfl
          exact hb u hu
        · rintro rfl
          exact hc u hu

/-! ## What is read, whatever follows -/

/-- The fuel of `value` covers two calls for each character read. -/
def ReadsValue (p : List Char) (v : Value) : Prop :=
  ∀ g t, 2 * p.length ≤ g → Follows t → value g (p ++ t) = some (v, t)

def ReadsElements (p : List Char) (vs : List Value) : Prop :=
  ∀ g t, 2 * p.length ≤ g → elements g (p ++ t) = some (vs, t)

def ReadsMembers (p : List Char) (ms : List (List Char × Value)) : Prop :=
  ∀ g t, 2 * p.length ≤ g → members g (p ++ t) = some (ms, t)

section Reads

variable {ws ws' k : List Char} {v : Value} {vs : List Value} {ms : List (List Char × Value)}

/-- White space in front of a value is read with it. -/
theorem ReadsValue.of_skip {u : List Char} (hws : ∀ x ∈ ws, isWs x = true)
    (h : ∀ g t, 2 * (c :: u).length ≤ g + 1 → Follows t →
      value (g + 1) (c :: (u ++ t)) = some (v, t)) : ReadsValue (ws ++ c :: u) v := by
  intro g t hg ht
  rw [List.length_append, List.length_cons] at hg
  obtain ⟨g, rfl⟩ := Nat.exists_eq_succ_of_ne_zero (show g ≠ 0 by omega)
  have hvalue := h g t (by rw [List.length_cons]; omega) ht
  rw [List.append_assoc, List.cons_append, value_skip g (skipWs_of_blank hws _)]
  exact hvalue

theorem readsValue_string (hws : ∀ x ∈ ws, isWs x = true)
    (hp : ∀ t, string (p ++ t) = some (k, t)) : ReadsValue (ws ++ '"' :: p) (.string k) := by
  refine .of_skip hws fun g t _ _ => ?_
  rw [value_quote, hp]
  rfl

theorem readsValue_scalar (hws : ∀ x ∈ ws, isWs x = true) (hc : isWs c = false) (hq : c ≠ '"')
    (hb : c ≠ '[') (hbr : c ≠ '\x7b')
    (hp : ∀ t, Follows t → scalar (c :: (p ++ t)) = some (v, t)) :
    ReadsValue (ws ++ c :: p) v := by
  refine .of_skip hws fun g t _ ht => ?_
  rw [value, skipWs_cons hc]
  split
  · contradiction
  · exact absurd (List.cons.inj ‹_›).1 hq
  · exact absurd (List.cons.inj ‹_›).1 hb
  · exact absurd (List.cons.inj ‹_›).1 hbr
  · exact hp t ht

theorem readsValue_noElements (hws : ∀ x ∈ ws, isWs x = true)
    (hws' : ∀ x ∈ ws', isWs x = true) :
    ReadsValue (ws ++ '[' :: (ws' ++ [']'])) (.array []) := by
  refine .of_skip hws fun g t _ _ => ?_
  rw [value_bracket]
  simp only [List.append_assoc, skipWs_of_blank hws', List.singleton_append]
  rw [skipWs_cons (by decide)]
  rfl

theorem readsValue_array (hws : ∀ x ∈ ws, isWs x = true) (hws' : ∀ x ∈ ws', isWs x = true)
    (hc : isWs c = false) (hne : c ≠ ']') (hp : ReadsElements (c :: p) vs) :
    ReadsValue (ws ++ '[' :: (ws' ++ c :: p)) (.array vs) := by
  refine .of_skip hws fun g t hg _ => ?_
  have helements := hp g t (by simp only [List.length_cons, List.length_append] at hg ⊢; omega)
  rw [value_bracket]
  simp only [List.append_assoc, skipWs_of_blank hws', List.cons_append] at helements ⊢
  rw [skipWs_cons hc]
  split
  · exact absurd (List.cons.inj ‹_›).1 hne
  · rw [helements]
    rfl

theorem readsValue_noMembers (hws : ∀ x ∈ ws, isWs x = true)
    (hws' : ∀ x ∈ ws', isWs x = true) :
    ReadsValue (ws ++ '\x7b' :: (ws' ++ ['\x7d'])) (.object []) := by
  refine .of_skip hws fun g t _ _ => ?_
  rw [value_brace]
  simp only [List.append_assoc, skipWs_of_blank hws', List.singleton_append]
  rw [skipWs_cons (by decide)]
  rfl

theorem readsValue_object (hws : ∀ x ∈ ws, isWs x = true) (hws' : ∀ x ∈ ws', isWs x = true)
    (hc : isWs c = false) (hne : c ≠ '\x7d') (hp : ReadsMembers (c :: p) ms) :
    ReadsValue (ws ++ '\x7b' :: (ws' ++ c :: p)) (.object ms) := by
  refine .of_skip hws fun g t hg _ => ?_
  have hmembers := hp g t (by simp only [List.length_cons, List.length_append] at hg ⊢; omega)
  rw [value_brace]
  simp only [List.append_assoc, skipWs_of_blank hws', List.cons_append] at hmembers ⊢
  rw [skipWs_cons hc]
  split
  · exact absurd (List.cons.inj ‹_›).1 hne
  · rw [hmembers]
    rfl

/-- What separates two values may follow one. -/
theorem follows_of_blank {t : List Char} (hws : ∀ x ∈ ws, isWs x = true) (ht : Follows t) :
    Follows (ws ++ t) := by
  cases ws with
  | nil => exact ht
  | cons c ws =>
      rw [List.cons_append, follows_cons]
      have hc := hws c (List.mem_cons_self ..)
      unfold isWs at hc
      simp only [Bool.or_eq_true, decide_eq_true_eq] at hc
      rcases hc with ((rfl | rfl) | rfl) | rfl <;> rfl

theorem readsElements_last (hp : ReadsValue p v) (hws : ∀ x ∈ ws, isWs x = true) :
    ReadsElements (p ++ (ws ++ [']'])) [v] := by
  intro g t hg
  simp only [List.length_append, List.length_cons, List.length_nil] at hg
  obtain ⟨g, rfl⟩ := Nat.exists_eq_succ_of_ne_zero (show g ≠ 0 by omega)
  have hfollows : Follows (ws ++ ']' :: t) := follows_of_blank hws (follows_cons.mpr rfl)
  rw [List.append_assoc, List.append_assoc, List.singleton_append, elements_succ,
    hp g _ (by omega) hfollows]
  simp only [Option.bind_some]
  rw [skipWs_of_blank hws, skipWs_cons (by decide)]
  rfl

theorem readsElements_cons {q : List Char} (hp : ReadsValue p v) (hws : ∀ x ∈ ws, isWs x = true)
    (hq : ReadsElements q vs) : ReadsElements (p ++ (ws ++ ',' :: q)) (v :: vs) := by
  intro g t hg
  simp only [List.length_append, List.length_cons] at hg
  obtain ⟨g, rfl⟩ := Nat.exists_eq_succ_of_ne_zero (show g ≠ 0 by omega)
  have hfollows : Follows (ws ++ ',' :: (q ++ t)) := follows_of_blank hws (follows_cons.mpr rfl)
  rw [List.append_assoc, List.append_assoc, List.cons_append, elements_succ,
    hp g _ (by omega) hfollows]
  simp only [Option.bind_some]
  rw [skipWs_of_blank hws, skipWs_cons (by decide)]
  simp only [hq g t (by omega), Option.map_some]

theorem readsMembers_last {n : List Char} (hn : ∀ t, name (n ++ t) = some (k, t))
    (hp : ReadsValue p v) (hws : ∀ x ∈ ws, isWs x = true) :
    ReadsMembers (n ++ (p ++ (ws ++ ['\x7d']))) [(k, v)] := by
  intro g t hg
  simp only [List.length_append, List.length_cons, List.length_nil] at hg
  obtain ⟨g, rfl⟩ := Nat.exists_eq_succ_of_ne_zero (show g ≠ 0 by omega)
  have hfollows : Follows (ws ++ '\x7d' :: t) := follows_of_blank hws (follows_cons.mpr rfl)
  rw [List.append_assoc, List.append_assoc, List.append_assoc, List.singleton_append,
    members_succ, hn]
  simp only [Option.bind_some]
  rw [hp g _ (by omega) hfollows]
  simp only [Option.bind_some]
  rw [skipWs_of_blank hws, skipWs_cons (by decide)]
  rfl

theorem readsMembers_cons {n q : List Char} (hn : ∀ t, name (n ++ t) = some (k, t))
    (hp : ReadsValue p v) (hws : ∀ x ∈ ws, isWs x = true) (hq : ReadsMembers q ms) :
    ReadsMembers (n ++ (p ++ (ws ++ ',' :: q))) ((k, v) :: ms) := by
  intro g t hg
  simp only [List.length_append, List.length_cons] at hg
  obtain ⟨g, rfl⟩ := Nat.exists_eq_succ_of_ne_zero (show g ≠ 0 by omega)
  have hfollows : Follows (ws ++ ',' :: (q ++ t)) := follows_of_blank hws (follows_cons.mpr rfl)
  rw [List.append_assoc, List.append_assoc, List.append_assoc, List.cons_append,
    members_succ, hn]
  simp only [Option.bind_some]
  rw [hp g _ (by omega) hfollows]
  simp only [Option.bind_some]
  rw [skipWs_of_blank hws, skipWs_cons (by decide)]
  simp only [hq g t (by omega), Option.map_some]

end Reads

/-! ## Every value that is returned was read so -/

/-- An element, and what came behind it. -/
theorem elements_cases {fuel : Nat} {vs : List Value} (h : elements (fuel + 1) s = some (vs, r)) :
    ∃ v ws t, value fuel s = some (v, ws ++ t) ∧ (∀ x ∈ ws, isWs x = true) ∧
      ((∃ u vs', t = ',' :: u ∧ elements fuel u = some (vs', r) ∧ vs = v :: vs') ∨
        t = ']' :: r ∧ vs = [v]) := by
  rw [elements_succ] at h
  obtain ⟨⟨v, u⟩, hv, hrest⟩ := Option.bind_eq_some_iff.mp h
  dsimp only at hrest
  split at hrest
  · rename_i t ht
    obtain ⟨⟨vs', r'⟩, hvs, heq⟩ := Option.map_eq_some_iff.mp hrest
    cases heq
    obtain ⟨ws, rfl, hws, -⟩ := skipWs_eq_cons ht
    exact ⟨v, ws, _, hv, hws, .inl ⟨t, vs', rfl, hvs, rfl⟩⟩
  · rename_i t ht
    cases hrest
    obtain ⟨ws, rfl, hws, -⟩ := skipWs_eq_cons ht
    exact ⟨v, ws, _, hv, hws, .inr ⟨rfl, rfl⟩⟩
  · cases hrest

/-- A member, and what came behind it. -/
theorem members_cases {fuel : Nat} {ms : List (List Char × Value)}
    (h : members (fuel + 1) s = some (ms, r)) :
    ∃ k u v ws t, name s = some (k, u) ∧ value fuel u = some (v, ws ++ t) ∧
      (∀ x ∈ ws, isWs x = true) ∧
      ((∃ q ms', t = ',' :: q ∧ members fuel q = some (ms', r) ∧ ms = (k, v) :: ms') ∨
        t = '\x7d' :: r ∧ ms = [(k, v)]) := by
  rw [members_succ] at h
  obtain ⟨⟨k, u⟩, hk, hrest⟩ := Option.bind_eq_some_iff.mp h
  obtain ⟨⟨v, u'⟩, hv, hrest'⟩ := Option.bind_eq_some_iff.mp hrest
  dsimp only at hv hrest'
  split at hrest'
  · rename_i t ht
    obtain ⟨⟨ms', r'⟩, hms, heq⟩ := Option.map_eq_some_iff.mp hrest'
    cases heq
    obtain ⟨ws, rfl, hws, -⟩ := skipWs_eq_cons ht
    exact ⟨k, u, v, ws, _, hk, hv, hws, .inl ⟨t, ms', rfl, hms, rfl⟩⟩
  · rename_i t ht
    cases hrest'
    obtain ⟨ws, rfl, hws, -⟩ := skipWs_eq_cons ht
    exact ⟨k, u, v, ws, _, hk, hv, hws, .inr ⟨rfl, rfl⟩⟩
  · cases hrest'

/-- The text is read up to `r`. -/
def Splits (R : List Char → Prop) (s r : List Char) : Prop := ∃ p, s = p ++ r ∧ p ≠ [] ∧ R p

/-- One level of `value` over readers that split their texts. -/
theorem ValueCase.splits {fuel : Nat} {u : List Char} {v : Value} (hu : skipWs u = u)
    (helements : ∀ s vs r, elements fuel s = some (vs, r) → Splits (ReadsElements · vs) s r)
    (hmembers : ∀ s ms r, members fuel s = some (ms, r) → Splits (ReadsMembers · ms) s r)
    (h : ValueCase fuel u v r) (ws : List Char) (hws : ∀ x ∈ ws, isWs x = true) :
    Splits (ReadsValue · v) (ws ++ u) r := by
  cases h with
  | string hd =>
      obtain ⟨p, rfl, -, hread⟩ := string_some hd
      exact ⟨ws ++ '"' :: p, by simp, by simp, readsValue_string hws hread⟩
  | noElements hr =>
      obtain ⟨ws', rfl, hws', -⟩ := skipWs_eq_cons hr
      exact ⟨ws ++ '[' :: (ws' ++ [']']), by simp, by simp, readsValue_noElements hws hws'⟩
  | array ht hne hvs =>
      obtain ⟨ws', rfl, hws', hc⟩ := skipWs_eq_cons ht
      obtain ⟨p, hp, hpne, hread⟩ := helements _ _ _ hvs
      cases p with
      | nil => exact absurd rfl hpne
      | cons d p =>
          rw [List.cons_append, List.cons.injEq] at hp
          obtain ⟨rfl, rfl⟩ := hp
          exact ⟨ws ++ '[' :: (ws' ++ _ :: p), by simp, by simp,
            readsValue_array hws hws' hc hne hread⟩
  | noMembers hr =>
      obtain ⟨ws', rfl, hws', -⟩ := skipWs_eq_cons hr
      exact ⟨ws ++ '\x7b' :: (ws' ++ ['\x7d']), by simp, by simp, readsValue_noMembers hws hws'⟩
  | object ht hne hms =>
      obtain ⟨ws', rfl, hws', hc⟩ := skipWs_eq_cons ht
      obtain ⟨p, hp, hpne, hread⟩ := hmembers _ _ _ hms
      cases p with
      | nil => exact absurd rfl hpne
      | cons d p =>
          rw [List.cons_append, List.cons.injEq] at hp
          obtain ⟨rfl, rfl⟩ := hp
          exact ⟨ws ++ '\x7b' :: (ws' ++ _ :: p), by simp, by simp,
            readsValue_object hws hws' hc hne hread⟩
  | @scalar c u r v hq hb hbr hv =>
      obtain ⟨p, hp, hpne, -, hread⟩ := scalar_some hv
      -- `u` is what `skipWs` leaves, so it does not begin with a blank
      have hc : isWs c = false := by
        cases hws : isWs c with
        | false => rfl
        | true =>
            rw [skipWs_cons_of_ws hws] at hu
            have hlen := congrArg List.length hu
            have hle := (List.dropWhile_suffix isWs (l := u)).length_le
            rw [List.length_cons] at hlen
            unfold skipWs at hlen
            omega
      cases p with
      | nil => exact absurd rfl hpne
      | cons d p =>
          rw [List.cons_append, List.cons.injEq] at hp
          obtain ⟨rfl, rfl⟩ := hp
          exact ⟨ws ++ _ :: p, by simp, by simp,
            readsValue_scalar hws hc hq hb hbr hread⟩

/-- What the parser returns does not depend on the fuel or on what it left. -/
theorem splits (fuel : Nat) :
    (∀ s v r, value fuel s = some (v, r) → Splits (ReadsValue · v) s r) ∧
    (∀ s vs r, elements fuel s = some (vs, r) → Splits (ReadsElements · vs) s r) ∧
    ∀ s ms r, members fuel s = some (ms, r) → Splits (ReadsMembers · ms) s r := by
  induction fuel with
  | zero => exact ⟨nofun, nofun, nofun⟩
  | succ fuel ih =>
      obtain ⟨hvalue, helements, hmembers⟩ := ih
      refine ⟨fun s v r h => ?_, fun s vs r h => ?_, fun s ms r h => ?_⟩
      · obtain ⟨ws, u, rfl, hws, hu, hcase⟩ := value_case h
        exact hcase.splits hu helements hmembers ws hws
      · obtain ⟨v, ws, t, hv, hws, hmore⟩ := elements_cases h
        obtain ⟨p, rfl, -, hp⟩ := hvalue _ _ _ hv
        rcases hmore with ⟨u, vs', rfl, hvs, rfl⟩ | ⟨rfl, rfl⟩
        · obtain ⟨q, rfl, -, hq⟩ := helements _ _ _ hvs
          exact ⟨p ++ (ws ++ ',' :: q), by simp, by simp, readsElements_cons hp hws hq⟩
        · exact ⟨p ++ (ws ++ [']']), by simp, by simp, readsElements_last hp hws⟩
      · obtain ⟨k, u, v, ws, t, hk, hv, hws, hmore⟩ := members_cases h
        obtain ⟨p, rfl, -, hp⟩ := hvalue _ _ _ hv
        obtain ⟨w, q, w', rfl, hw, hw', -, hq⟩ := name_some hk
        have hn : ∀ t, name ((w ++ '"' :: (q ++ (w' ++ [':']))) ++ t) = some (k, t) := by
          intro t
          have happ : (w ++ '"' :: (q ++ (w' ++ [':']))) ++ t =
              w ++ '"' :: (q ++ (w' ++ ':' :: t)) := by simp
          rw [happ]
          exact name_of_string hw hw' hq t
        rcases hmore with ⟨u, ms', rfl, hms, rfl⟩ | ⟨rfl, rfl⟩
        · obtain ⟨q', rfl, -, hq'⟩ := hmembers _ _ _ hms
          exact ⟨(w ++ '"' :: (q ++ (w' ++ [':']))) ++ (p ++ (ws ++ ',' :: q')), by simp, by simp,
            readsMembers_cons hn hp hws hq'⟩
        · exact ⟨(w ++ '"' :: (q ++ (w' ++ [':']))) ++ (p ++ (ws ++ ['\x7d'])), by simp, by simp,
            readsMembers_last hn hp hws⟩

end JsonText
