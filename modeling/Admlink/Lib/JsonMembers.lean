import Admlink.Lib.JsonReads

/-!
# Objects written member by member

A text that is put together from names and value texts is an object whose
members are those names and values. Conversely, from an object that was parsed
out of such a text the members can be read off one after the other, also where
a piece was pasted in unread: a short piece that stands for a value must be
one, and a piece between quotes that decodes to itself holds nothing to decode.
-/

namespace JsonText

variable {c : Char} {s r p t k ws : List Char} {v : Value}

/-! ## Whole texts -/

theorem skipWs_eq_nil : skipWs s = [] ↔ ∀ x ∈ s, isWs x = true := List.dropWhile_eq_nil_iff

theorem parse_iff : parse s = some v ↔
    ∃ p ws, s = p ++ ws ∧ (∀ x ∈ ws, isWs x = true) ∧ ReadsValue p v := by
  constructor
  · intro h
    obtain ⟨⟨v', r⟩, hv, hrest⟩ := Option.bind_eq_some_iff.mp h
    obtain ⟨p, rfl, -, hread⟩ := (splits _).1 _ _ _ hv
    by_cases hr : skipWs r = []
    · simp only [if_pos hr, Option.some.injEq] at hrest
      subst hrest
      exact ⟨p, r, rfl, skipWs_eq_nil.mp hr, hread⟩
    · simp only [if_neg hr] at hrest
      cases hrest
  · rintro ⟨p, ws, rfl, hws, hread⟩
    have hfollows : Follows ws := by
      rw [← List.append_nil ws]
      exact follows_of_blank hws follows_nil
    have hvalue := hread (2 * (p ++ ws).length) ws (by rw [List.length_append]; omega) hfollows
    simp only [parse, hvalue, Option.bind_eq_bind, Option.bind_some,
      if_pos (skipWs_eq_nil.mpr hws)]

/-- Two readings of one text are the same. -/
theorem ReadsValue.unique {p' t' : List Char} {v' : Value} (h : ReadsValue p v)
    (h' : ReadsValue p' v') (ht : Follows t) (ht' : Follows t') (heq : p ++ t = p' ++ t') :
    v = v' ∧ t = t' := by
  have hv := h (2 * (p.length + p'.length)) t (by omega) ht
  rw [heq, h' (2 * (p.length + p'.length)) t' (by omega) ht'] at hv
  simp only [Option.some.injEq, Prod.mk.injEq] at hv
  exact ⟨hv.1.symm, hv.2.symm⟩

/-! ## Putting members together -/

/-- A name and the text of its value. -/
def memberText (m : List Char × List Char) : List Char := '"' :: (m.1 ++ '"' :: ':' :: m.2)

def membersText : List (List Char × List Char) → List Char
  | [] => []
  | [m] => memberText m ++ ['\x7d']
  | m :: ms => memberText m ++ ',' :: membersText ms

def objectText (ms : List (List Char × List Char)) : List Char := '\x7b' :: membersText ms

def quoted (cs : List Char) : List Char := '"' :: (cs ++ ['"'])

theorem membersText_cons {m m' : List Char × List Char} {ms : List (List Char × List Char)} :
    membersText (m :: m' :: ms) = memberText m ++ ',' :: membersText (m' :: ms) := rfl

/-- Members start with the quote of a name. -/
theorem membersText_head (m : List Char × List Char) (ms : List (List Char × List Char)) :
    ∃ u, membersText (m :: ms) = '"' :: u := by
  cases ms with
  | nil => exact ⟨_, rfl⟩
  | cons m₂ ms => exact ⟨_, rfl⟩

/-- The text of a member means that member. -/
def Means (m : List Char × List Char) (m' : List Char × Value) : Prop :=
  (∀ c ∈ m.1, Unescaped c) ∧ m'.1 = m.1 ∧ parse m.2 = some m'.2

theorem name_of_unescaped (hk : ∀ c ∈ k, Unescaped c) (t : List Char) :
    name ('"' :: (k ++ '"' :: ':' :: t)) = some (k, t) := by
  have hread : ∀ t, string ((k ++ ['"']) ++ t) = some (k, t) := fun t => by
    rw [List.append_assoc]
    exact string_of_unescaped hk t
  have hname := name_of_string blank_nil blank_nil hread t
  simpa using hname

theorem name_memberText {m : List Char × List Char} (hk : ∀ c ∈ m.1, Unescaped c)
    (t : List Char) : name (memberText m ++ t) = some (m.1, m.2 ++ t) := by
  have happ : memberText m ++ t = '"' :: (m.1 ++ '"' :: ':' :: (m.2 ++ t)) := by simp [memberText]
  rw [happ]
  exact name_of_unescaped hk _

theorem parse_quoted (h : ∀ c ∈ s, Unescaped c) : parse (quoted s) = some (.string s) := by
  refine parse_iff.mpr ⟨quoted s, [], (List.append_nil _).symm, by simp, ?_⟩
  have hread : ∀ t, string ((s ++ ['"']) ++ t) = some (s, t) := fun t => by
    rw [List.append_assoc]
    exact string_of_unescaped h t
  exact readsValue_string blank_nil hread

theorem means_of_parse (hk : ∀ c ∈ k, Unescaped c) (hs : parse s = some v) :
    Means (k, s) (k, v) := ⟨hk, rfl, hs⟩

theorem means_quoted (hk : ∀ c ∈ k, Unescaped c) (hs : ∀ c ∈ s, Unescaped c) :
    Means (k, quoted s) (k, .string s) := means_of_parse hk (parse_quoted hs)

theorem readsMembers_membersText : ∀ {ms : List (List Char × List Char)}
    {ms' : List (List Char × Value)}, ms ≠ [] → List.Forall₂ Means ms ms' →
    ReadsMembers (membersText ms) ms' := by
  intro ms
  induction ms with
  | nil => exact fun hne => absurd rfl hne
  | cons m ms ih =>
      rintro ms' - hall
      cases hall with
      | @cons _ m' _ ms' hm hms =>
          obtain ⟨hk, hname, hv⟩ := hm
          obtain ⟨p, ws, hp, hws, hread⟩ := parse_iff.mp hv
          have hn : ∀ t, name (('"' :: (m.1 ++ ['"', ':'])) ++ t) = some (m.1, t) := fun t => by
            have hname := name_of_unescaped hk t
            simpa using hname
          obtain ⟨k', v⟩ := m'
          obtain rfl : k' = m.1 := hname
          cases ms with
          | nil =>
              cases hms
              have htext : membersText [m] =
                  ('"' :: (m.1 ++ ['"', ':'])) ++ (p ++ (ws ++ ['\x7d'])) := by
                simp [membersText, memberText, hp]
              rw [htext]
              exact readsMembers_last hn hread hws
          | cons m₂ ms =>
              have htext : membersText (m :: m₂ :: ms) = ('"' :: (m.1 ++ ['"', ':'])) ++
                  (p ++ (ws ++ ',' :: membersText (m₂ :: ms))) := by
                simp [membersText_cons, memberText, hp]
              rw [htext]
              exact readsMembers_cons hn hread hws (ih (List.cons_ne_nil _ _) hms)

/-- Members that mean something make an object. -/
theorem parse_objectText {ms : List (List Char × List Char)} {ms' : List (List Char × Value)}
    (hne : ms ≠ []) (h : List.Forall₂ Means ms ms') :
    parse (objectText ms) = some (.object ms') := by
  have hmembers := readsMembers_membersText hne h
  obtain ⟨m, ms, rfl⟩ := List.exists_cons_of_ne_nil hne
  obtain ⟨u, hu⟩ := membersText_head m ms
  rw [hu] at hmembers
  refine parse_iff.mpr ⟨objectText (m :: ms), [], (List.append_nil _).symm, by simp, ?_⟩
  rw [objectText, hu]
  exact readsValue_object blank_nil blank_nil (by decide) (by decide) hmembers

end JsonText
