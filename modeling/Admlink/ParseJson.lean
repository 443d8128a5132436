import Admlink.ParseStrings

/-!
# The JSON parser on JSON

`cJSON_Parse` takes a great deal that is no JSON. On a text that is JSON it
returns what the text means: the tree stands for the value that the strict
parser reads, but for the character U+0000, which its strings leave out. It
reads nothing behind the terminator and writes nothing outside its blocks.
-/

namespace Admlink

open Program CJson Utf8

/-! ## Values -/

mutual

/-- The value `cJSON_Parse` makes of a value. -/
def jsonOf : JsonText.Value → Json
  | .null => .null
  | .bool b => .bool b
  | .number _ => .number
  | .string s => .string (written s)
  | .array vs => .array (elementsOf vs)
  | .object ms => .object (membersOf ms)

def elementsOf : List JsonText.Value → List Json
  | [] => []
  | v :: vs => jsonOf v :: elementsOf vs

def membersOf : List (List Char × JsonText.Value) → List (Bytes × Json)
  | [] => []
  | (k, v) :: ms => (written k, jsonOf v) :: membersOf ms

end

section Values

variable (rest : Bytes) {c : Char} {s r u : List Char} {v : JsonText.Value} (fuel : Nat)

theorem startsWith_append (ls ys : Bytes) : startsWith ls (ls ++ ys) = .ok true := by
  induction ls with
  | nil => rfl
  | cons l ls ih => rw [List.cons_append, startsWith, if_pos rfl, ih]

theorem startsWith_front {l : UInt8} {ls : Bytes} (h : front s ≠ l) :
    startsWith (l :: ls) (stored rest s) = .ok false := by
  obtain ⟨bs, hfront⟩ := stored_front rest s
  rw [hfront]
  exact startsWith_other h

/-- No word starts like the text. -/
theorem startsWith_words (hn : s.head? ≠ some 'n') (hf : s.head? ≠ some 'f')
    (ht : s.head? ≠ some 't') :
    startsWith (bytes "null") (stored rest s) = .ok false ∧
      startsWith (bytes "false") (stored rest s) = .ok false ∧
      startsWith (bytes "true") (stored rest s) = .ok false := by
  have hnull : bytes "null" = 110 :: [117, 108, 108] := bytes_of_utf8 (by decide)
  have hfalse : bytes "false" = 102 :: [97, 108, 115, 101] := bytes_of_utf8 (by decide)
  have htrue : bytes "true" = 116 :: [114, 117, 101] := bytes_of_utf8 (by decide)
  rw [hnull, hfalse, htrue]
  exact ⟨startsWith_front rest (front_ne (x := 'n') (by decide) (by decide) hn),
    startsWith_front rest (front_ne (x := 'f') (by decide) (by decide) hf),
    startsWith_front rest (front_ne (x := 't') (by decide) (by decide) ht)⟩

theorem parseValue_lbracket (cs : Bytes) :
    parseValue (fuel + 1) (Ch.lbracket :: cs) = (do
      let value ← skip cs
      if (← deref value) = Ch.rbracket then return some (.bare .array, value.tail)
      match ← parseElements fuel value with
      | none => return none
      | some (items, ptr) => return some (.item .array none none items, ptr)) := by
  have hnull : bytes "null" = 110 :: [117, 108, 108] := bytes_of_utf8 (by decide)
  have hfalse : bytes "false" = 102 :: [97, 108, 115, 101] := bytes_of_utf8 (by decide)
  have htrue : bytes "true" = 116 :: [114, 117, 101] := bytes_of_utf8 (by decide)
  rw [parseValue, hnull, hfalse, htrue, startsWith_other (by decide),
    startsWith_other (by decide), startsWith_other (by decide)]
  simp only [except_ok_bind, deref, Bool.false_eq_true, ↓reduceIte, List.tail_cons]
  rfl

theorem parseValue_lbrace (cs : Bytes) :
    parseValue (fuel + 1) (Ch.lbrace :: cs) = (do
      let value ← skip cs
      if (← deref value) = Ch.rbrace then return some (.bare .object, value.tail)
      match ← parseMembers fuel value with
      | none => return none
      | some (items, ptr) => return some (.item .object none none items, ptr)) := by
  obtain ⟨hnull, hfalse, htrue⟩ := startsWith_literal (.inr rfl) cs
  rw [parseValue, hnull, hfalse, htrue]
  simp only [except_ok_bind, deref, Bool.false_eq_true, ↓reduceIte, List.tail_cons]
  rfl

theorem stored_word (w : String) (t : List Char) :
    stored rest (w.toList ++ t) = bytes w ++ stored rest t := by
  rw [stored_append, bytes_eq_utf8]

/-- A number starts with its sign or with a digit. -/
theorem number_first {p : List Char} (h : JsonText.isNumber p = true) :
    ∃ c q, p = c :: q ∧ (c = '-' ∨ JsonText.isDigit c = true) := by
  unfold JsonText.isNumber at h
  split at h
  · exact ⟨_, _, rfl, .inl rfl⟩
  · obtain ⟨r, hr, -⟩ := Option.bind_eq_some_iff.mp (of_decide_eq_true h)
    rcases intPart_some hr with rfl | ⟨c, q, rfl, -, hc, -⟩
    · exact ⟨_, _, rfl, .inr rfl⟩
    · exact ⟨c, q, rfl, .inr hc⟩

theorem parseValue_number {ptr : Bytes} (hc : c = '-' ∨ JsonText.isDigit c = true)
    (hread : parseNumber (stored rest (c :: u)) = .ok ptr) :
    parseValue (fuel + 1) (stored rest (c :: u)) = .ok (some (.bare .number, ptr)) := by
  have hne : ∀ x, x ≠ '-' → JsonText.isDigit x = false → (c :: u).head? ≠ some x := by
    rintro x hx hdigit hhead
    obtain rfl : c = x := by simpa using hhead
    rcases hc with rfl | hc
    · exact hx rfl
    · rw [hc] at hdigit
      cases hdigit
  obtain ⟨hnull, hfalse, htrue⟩ := startsWith_words rest (hne 'n' (by decide) (by decide))
    (hne 'f' (by decide) (by decide)) (hne 't' (by decide) (by decide))
  have hquote : front (c :: u) ≠ Ch.quote :=
    front_ne (x := '"') (by decide) (by decide) (hne '"' (by decide) (by decide))
  have hnumber : front (c :: u) = Ch.minus ∨ isDigit (front (c :: u)) = true := by
    rcases hc with rfl | hc
    · exact .inl rfl
    · exact .inr (by rw [front, isDigit_lead, hc])
  rw [parseValue, hnull, hfalse, htrue, deref_stored]
  simp only [except_ok_bind, Bool.false_eq_true, ↓reduceIte, hquote, hnumber, hread]
  rfl

/-- A word that both compare with. -/
theorem parseValue_word {w : String} {d : Char} {ds : List Char} {i : CJson}
    (hw : w.toList = d :: ds)
    (hfront : w.toList.isPrefixOf (c :: u) = true)
    (hread : ∀ t, parseValue (fuel + 1) (bytes w ++ t) = .ok (some (i, t))) :
    c = d ∧ parseValue (fuel + 1) (stored rest (c :: u)) =
      .ok (some (i, stored rest ((c :: u).drop w.toList.length))) := by
  have hcu := List.prefix_iff_eq_append.mp (List.isPrefixOf_iff_prefix.mp hfront)
  constructor
  · rw [hw] at hcu
    exact (List.cons.inj hcu).1.symm
  · conv_lhs => rw [← hcu, stored_word]
    exact hread _

/-- A number, up to the first character that is not part of one. -/
theorem parseValue_numeral
    (hnum : JsonText.isNumber ((c :: u).takeWhile JsonText.isNumChar) = true) :
    32 < c.toNat ∧ parseValue (fuel + 1) (stored rest (c :: u)) =
      .ok (some (.bare .number, stored rest ((c :: u).dropWhile JsonText.isNumChar))) := by
  have hfollows : JsonText.Follows ((c :: u).dropWhile JsonText.isNumChar) := by
    intro x hx
    have hhead := List.head?_dropWhile_not JsonText.isNumChar (c :: u)
    rwa [Option.mem_def.mp hx] at hhead
  have hsplit := List.takeWhile_append_dropWhile (p := JsonText.isNumChar) (l := c :: u)
  obtain ⟨d, q, hdq, hd⟩ := number_first hnum
  have hcd : c = d := by
    rw [hdq] at hsplit
    exact (List.cons.inj hsplit).1.symm
  subst hcd
  have hread := parseNumber_stored rest hnum hfollows
  rw [hsplit] at hread
  refine ⟨?_, parseValue_number rest fuel hd hread⟩
  rcases hd with rfl | hd
  · decide
  · have := isDigit_iff.mp hd
    omega

/-- A word or a number is read by both alike, and does not start with a
control character. -/
theorem parseValue_scalar (h : JsonText.scalar (c :: u) = some (v, r)) :
    32 < c.toNat ∧
      ∃ i, parseValue (fuel + 1) (stored rest (c :: u)) = .ok (some (i, stored rest r)) ∧
        i.value = jsonOf v := by
  have hnull : bytes "null" = 110 :: [117, 108, 108] := bytes_of_utf8 (by decide)
  have hfalse : bytes "false" = 102 :: [97, 108, 115, 101] := bytes_of_utf8 (by decide)
  have htrue : bytes "true" = 116 :: [114, 117, 101] := bytes_of_utf8 (by decide)
  unfold JsonText.scalar at h
  split at h
  · rename_i hw
    cases h
    obtain ⟨rfl, hread⟩ := parseValue_word rest fuel rfl hw fun t => by
      rw [parseValue, startsWith_append, hnull]
      rfl
    exact ⟨by decide, .bare .jnull, hread, rfl⟩
  split at h
  · rename_i hw
    cases h
    obtain ⟨rfl, hread⟩ := parseValue_word rest fuel rfl hw fun t => by
      rw [parseValue, startsWith_append, hnull, hfalse, htrue]
      rfl
    exact ⟨by decide, .bare .jtrue, hread, rfl⟩
  split at h
  · rename_i hw
    cases h
    obtain ⟨rfl, hread⟩ := parseValue_word rest fuel rfl hw fun t => by
      rw [parseValue, startsWith_append, hnull, hfalse]
      rfl
    exact ⟨by decide, .bare .jfalse, hread, rfl⟩
  split at h
  · rename_i hnum
    cases h
    obtain ⟨hlow, hread⟩ := parseValue_numeral rest fuel hnum
    exact ⟨hlow, .bare .number, hread, rfl⟩
  · cases h

/-- Behind white space a value does not start with a control character. -/
theorem visible_of_case {fuel : Nat} (h : JsonText.ValueCase fuel (c :: u) v r) :
    32 < c.toNat := by
  cases h with
  | string => decide
  | noElements => decide
  | array => decide
  | noMembers => decide
  | object => decide
  | scalar hq hb hbr hv => exact (parseValue_scalar [] 0 hv).1

theorem visible_of_value {fuel : Nat} (h : JsonText.value fuel s = some (v, r))
    (hs : JsonText.skipWs s = c :: u) : 32 < c.toNat := by
  cases fuel with
  | zero => cases h
  | succ fuel =>
      obtain ⟨ws, t, rfl, hws, ht, hcase⟩ := JsonText.value_case h
      rw [JsonText.skipWs_of_blank hws, ht] at hs
      subst hs
      exact visible_of_case hcase

theorem visible_of_elements {fuel : Nat} {vs : List JsonText.Value}
    (h : JsonText.elements fuel s = some (vs, r)) (hs : JsonText.skipWs s = c :: u) :
    32 < c.toNat := by
  cases fuel with
  | zero => cases h
  | succ fuel =>
      obtain ⟨v, ws, t, hv, -, -⟩ := JsonText.elements_cases h
      exact visible_of_value hv hs

theorem visible_of_members {fuel : Nat} {ms : List (List Char × JsonText.Value)}
    (h : JsonText.members fuel s = some (ms, r)) (hs : JsonText.skipWs s = c :: u) :
    32 < c.toNat := by
  cases fuel with
  | zero => cases h
  | succ fuel =>
      obtain ⟨k, t, v, ws, t', hk, -, -, -⟩ := JsonText.members_cases h
      obtain ⟨ws', p, ws'', rfl, hws', -, -, -⟩ := JsonText.name_some hk
      rw [JsonText.skipWs_of_blank hws', JsonText.skipWs_cons (by decide)] at hs
      obtain ⟨rfl, -⟩ := List.cons.inj hs
      decide

end Values

/-! ## Both parsers read the same -/

/-- The value that the strict parser reads is parsed to a tree that stands for
it, and both stop at the same place. -/
def ValueParses (rest : Bytes) (s : List Char) (v : JsonText.Value) (r : List Char)
    (fuel : Nat) : Prop :=
  ∃ start i, skip (stored rest s) = .ok start ∧
    parseValue fuel start = .ok (some (i, stored rest r)) ∧ i.value = jsonOf v

def ElementsParse (rest : Bytes) (s : List Char) (vs : List JsonText.Value) (r : List Char)
    (fuel : Nat) : Prop :=
  ∃ is, parseElements fuel (stored rest s) = .ok (some (is, stored rest r)) ∧
    values is = elementsOf vs

def MembersParse (rest : Bytes) (s : List Char) (ms : List (List Char × JsonText.Value))
    (r : List Char) (fuel : Nat) : Prop :=
  ∃ is, parseMembers fuel (stored rest s) = .ok (some (is, stored rest r)) ∧
    members is = membersOf ms

section Agree

variable {rest : Bytes} {c : Char} {s r u : List Char} {v : JsonText.Value} {fuel g : Nat}

/-- One level of a value, over elements and members that are parsed alike. -/
theorem valueParses_of_case (hcase : JsonText.ValueCase fuel u v r) (hu : JsonText.skipWs u = u)
    (helements : ∀ s vs r, JsonText.elements fuel s = some (vs, r) → ElementsParse rest s vs r g)
    (hmembers : ∀ s ms r, JsonText.members fuel s = some (ms, r) → MembersParse rest s ms r g) :
    ∃ i, parseValue (g + 1) (stored rest u) = .ok (some (i, stored rest r)) ∧
      i.value = jsonOf v := by
  cases hcase with
  | @string u d r hd =>
      obtain ⟨b, hread, hb⟩ := parseString_stored rest hd
      refine ⟨.item .string (some b) none [], ?_, ?_⟩
      · have hquote : stored rest ('"' :: u) = Ch.quote :: stored rest u := rfl
        rw [hquote] at hread ⊢
        rw [parseValue_quote, hread]
        rfl
      · rw [CJson.value, Option.map_some, Option.getD_some, hb, jsonOf]
  | @noElements u r hr =>
      have hskip := skip_stored rest hr (by decide)
      refine ⟨.bare .array, ?_, rfl⟩
      rw [show stored rest ('[' :: u) = Ch.lbracket :: stored rest u from rfl,
        parseValue_lbracket, hskip]
      rfl
  | @array u t r c vs ht hne hvs =>
      obtain ⟨-, -, -, hc⟩ := JsonText.skipWs_eq_cons ht
      have hskip := skip_stored rest ht (visible_of_elements hvs (JsonText.skipWs_cons hc))
      obtain ⟨is, hread, his⟩ := helements _ _ _ hvs
      have hfront : front (c :: t) ≠ Ch.rbracket :=
        front_ne (x := ']') (by decide) (by decide) (by simpa using hne)
      refine ⟨.item .array none none is, ?_, by rw [CJson.value, his, jsonOf]⟩
      rw [show stored rest ('[' :: u) = Ch.lbracket :: stored rest u from rfl,
        parseValue_lbracket, hskip, except_ok_bind, deref_stored, except_ok_bind, if_neg hfront,
        hread]
      rfl
  | @noMembers u r hr =>
      have hskip := skip_stored rest hr (by decide)
      refine ⟨.bare .object, ?_, rfl⟩
      rw [show stored rest ('\x7b' :: u) = Ch.lbrace :: stored rest u from rfl,
        parseValue_lbrace, hskip]
      rfl
  | @object u t r c ms ht hne hms =>
      obtain ⟨-, -, -, hc⟩ := JsonText.skipWs_eq_cons ht
      have hskip := skip_stored rest ht (visible_of_members hms (JsonText.skipWs_cons hc))
      obtain ⟨is, hread, his⟩ := hmembers _ _ _ hms
      have hfront : front (c :: t) ≠ Ch.rbrace :=
        front_ne (x := '\x7d') (by decide) (by decide) (by simpa using hne)
      refine ⟨.item .object none none is, ?_, by rw [CJson.value, his, jsonOf]⟩
      rw [show stored rest ('\x7b' :: u) = Ch.lbrace :: stored rest u from rfl,
        parseValue_lbrace, hskip, except_ok_bind, deref_stored, except_ok_bind, if_neg hfront,
        hread]
      rfl
  | scalar hq hb hbr hv => exact (parseValue_scalar rest g hv).2

/-- Behind a value: a comma and more, or the closing bracket. -/
theorem skip_separator {ws t : List Char} {x : Char} (hws : ∀ y ∈ ws, JsonText.isWs y = true)
    (hx : 32 < x.toNat) (hblank : JsonText.isWs x = false) :
    skip (stored rest (ws ++ x :: t)) = .ok (stored rest (x :: t)) :=
  skip_stored rest (by rw [JsonText.skipWs_of_blank hws, JsonText.skipWs_cons hblank]) hx

/-- A member up to what comes behind its value. -/
theorem parseMembers_name {k t : List Char} (hk : JsonText.name s = some (k, u))
    (hv : ValueParses rest u v t g) :
    ∃ (b : CBuf) (i : CJson), parseMembers (g + 1) (stored rest s) = (do
        let value ← skip (stored rest t)
        let c ← deref value
        if c = Ch.comma then
          match ← parseMembers g value.tail with
          | none => return none
          | some (items, ptr) => return some (i.withString b :: items, ptr)
        else if c = Ch.rbrace then return some ([i.withString b], value.tail)
        else return none) ∧
      b.str = written k ∧ i.value = jsonOf v := by
  obtain ⟨ws, p, ws', rfl, hws, hws', -, hp⟩ := JsonText.name_some hk
  obtain ⟨start, i, hskip, hread, hi⟩ := hv
  obtain ⟨b, hstring, hb⟩ := parseString_stored rest (hp (ws' ++ ':' :: u))
  refine ⟨b, i, ?_, hb, hi⟩
  rw [parseMembers, skip_separator hws (by decide) (by decide), except_ok_bind, hstring,
    except_ok_bind]
  dsimp only
  rw [skip_separator hws' (by decide) (by decide), except_ok_bind, deref_stored, except_ok_bind,
    front, if_neg (not_not_intro (show lead ':' = Ch.colon from rfl)),
    show (stored rest (':' :: u)).tail = stored rest u from rfl, hskip, except_ok_bind, hread]
  rfl

/-- The elements of an array: one value, then what stands behind it. -/
theorem elementsParse_of_cases {vs : List JsonText.Value}
    (h : JsonText.elements (fuel + 1) s = some (vs, r))
    (hvalue : ∀ s v r, JsonText.value fuel s = some (v, r) → ValueParses rest s v r g)
    (helements : ∀ s vs r, JsonText.elements fuel s = some (vs, r) → ElementsParse rest s vs r g) :
    ElementsParse rest s vs r (g + 1) := by
  obtain ⟨v, ws, t, hv, hws, hmore⟩ := JsonText.elements_cases h
  obtain ⟨start, i, hskip, hread, hi⟩ := hvalue _ _ _ hv
  rcases hmore with ⟨u, vs', rfl, hvs, rfl⟩ | ⟨rfl, rfl⟩
  · obtain ⟨is, hreads, his⟩ := helements _ _ _ hvs
    refine ⟨i :: is, ?_, by rw [values, hi, his, elementsOf]⟩
    rw [parseElements, hskip, except_ok_bind, hread, except_ok_bind]
    dsimp only
    rw [skip_separator hws (by decide) (by decide), except_ok_bind, deref_stored,
      except_ok_bind, front, if_pos (show lead ',' = Ch.comma from rfl),
      show (stored rest (',' :: u)).tail = stored rest u from rfl, hreads]
    rfl
  · refine ⟨[i], ?_, by rw [values, hi, values, elementsOf, elementsOf]⟩
    rw [parseElements, hskip, except_ok_bind, hread, except_ok_bind]
    dsimp only
    rw [skip_separator hws (by decide) (by decide), except_ok_bind, deref_stored,
      except_ok_bind, front, if_neg (show lead ']' ≠ Ch.comma by decide),
      if_pos (show lead ']' = Ch.rbracket from rfl)]
    rfl

/-- The members of an object, each with its name. -/
theorem membersParse_of_cases {ms : List (List Char × JsonText.Value)}
    (h : JsonText.members (fuel + 1) s = some (ms, r))
    (hvalue : ∀ s v r, JsonText.value fuel s = some (v, r) → ValueParses rest s v r g)
    (hmembers : ∀ s ms r, JsonText.members fuel s = some (ms, r) → MembersParse rest s ms r g) :
    MembersParse rest s ms r (g + 1) := by
  obtain ⟨k, u, v, ws, t, hk, hv, hws, hmore⟩ := JsonText.members_cases h
  obtain ⟨b, i, hname, hb, hi⟩ := parseMembers_name hk (hvalue _ _ _ hv)
  rcases hmore with ⟨q, ms', rfl, hms, rfl⟩ | ⟨rfl, rfl⟩
  · obtain ⟨is, hreads, his⟩ := hmembers _ _ _ hms
    refine ⟨i.withString b :: is, ?_, ?_⟩
    · rw [hname, skip_separator hws (by decide) (by decide), except_ok_bind, deref_stored,
        except_ok_bind, front, if_pos (show lead ',' = Ch.comma from rfl),
        show (stored rest (',' :: q)).tail = stored rest q from rfl, hreads]
      rfl
    · rw [members, string_withString, Option.map_some, Option.getD_some, hb, value_withString,
        hi, his, membersOf]
  · refine ⟨[i.withString b], ?_, ?_⟩
    · rw [hname, skip_separator hws (by decide) (by decide), except_ok_bind, deref_stored,
        except_ok_bind, front, if_neg (show lead '\x7d' ≠ Ch.comma by decide),
        if_pos (show lead '\x7d' = Ch.rbrace from rfl)]
      rfl
    · rw [members, string_withString, Option.map_some, Option.getD_some, hb, value_withString,
        hi, members, membersOf, membersOf]

/-- Every value the strict parser reads is parsed. The induction is on the fuel
of the strict parser; the other one spends its own in the same calls. -/
theorem parses (rest : Bytes) : ∀ fuel : Nat,
    (∀ s v r, JsonText.value fuel s = some (v, r) → ∀ g, fuel ≤ g → ValueParses rest s v r g) ∧
    (∀ s vs r, JsonText.elements fuel s = some (vs, r) →
      ∀ g, fuel ≤ g → ElementsParse rest s vs r g) ∧
    ∀ s ms r, JsonText.members fuel s = some (ms, r) →
      ∀ g, fuel ≤ g → MembersParse rest s ms r g := by
  intro fuel
  induction fuel with
  | zero => exact ⟨nofun, nofun, nofun⟩
  | succ fuel ih =>
      obtain ⟨hvalue, helements, hmembers⟩ := ih
      refine ⟨fun s v r h g hg => ?_, fun s vs r h g hg => ?_, fun s ms r h g hg => ?_⟩
      all_goals obtain ⟨g, rfl⟩ := Nat.exists_eq_succ_of_ne_zero (show g ≠ 0 by omega)
      all_goals have hle : fuel ≤ g := Nat.le_of_succ_le_succ hg
      · obtain ⟨ws, u, rfl, hws, hu, hcase⟩ := JsonText.value_case h
        obtain ⟨i, hread, hi⟩ := valueParses_of_case hcase hu
          (fun s vs r h => helements s vs r h g hle) fun s ms r h => hmembers s ms r h g hle
        refine ⟨stored rest u, i, ?_, hread, hi⟩
        cases u with
        | nil => cases hcase
        | cons c u =>
            exact skip_stored rest (by rw [JsonText.skipWs_of_blank hws, hu])
              (visible_of_case hcase)
      · exact elementsParse_of_cases h (fun s v r h => hvalue s v r h g hle)
          fun s vs r h => helements s vs r h g hle
      · exact membersParse_of_cases h (fun s v r h => hvalue s v r h g hle)
          fun s ms r h => hmembers s ms r h g hle

end Agree

/-- On a JSON text `cJSON_Parse` does not fail and returns what the text means,
whatever the memory behind the text holds. -/
theorem cJSONParse_json (cs : List Char) (v : JsonText.Value) (rest : Bytes)
    (h : JsonText.parse cs = some v) :
    ∃ root, cJSONParse (utf8 cs ++ Ch.nul :: rest) = .ok (some root) ∧ root.value = jsonOf v := by
  obtain ⟨⟨v', r⟩, hv, hend⟩ := Option.bind_eq_some_iff.mp h
  obtain ⟨hr, rfl⟩ : JsonText.skipWs r = [] ∧ v' = v := by
    dsimp only at hend
    split at hend
    · cases hend
      exact ⟨‹_›, rfl⟩
    · cases hend
  have hfollows : JsonText.Follows r := by
    rw [← List.append_nil r]
    exact JsonText.follows_of_blank (JsonText.skipWs_eq_nil.mp hr) JsonText.follows_nil
  obtain ⟨k, hk⟩ := Nat.exists_eq_succ_of_ne_zero (show 2 * cs.length ≠ 0 by
    intro hzero
    rw [hzero] at hv
    cases hv)
  rw [hk] at hv
  cases hcs : JsonText.skipWs cs with
  | nil =>
      rw [JsonText.value, hcs] at hv
      cases hv
  | cons c u =>
      obtain ⟨-, -, -, hc⟩ := JsonText.skipWs_eq_cons hcs
      have hself := JsonText.skipWs_cons (s := u) hc
      have hvisible := visible_of_value hv hcs
      rw [JsonText.value_skip k (hcs.trans hself.symm)] at hv
      -- the fuel that what is left of the text asks for
      obtain ⟨p, hp, -, hread⟩ := (JsonText.splits _).1 _ _ _ hv
      have hvalue := hread _ r (Nat.le_refl _) hfollows
      rw [← hp] at hvalue
      have hlen : 2 * p.length ≤ 2 * (stored rest (c :: u)).length + 2 := by
        have hle := length_le_utf8 (c :: u)
        have hsplit := congrArg List.length hp
        rw [List.length_append] at hsplit
        rw [stored, List.length_append]
        omega
      obtain ⟨start, i, hskip, hparse, hi⟩ := (parses rest _).1 _ _ _ hvalue _ hlen
      rw [skip_stored rest hself hvisible] at hskip
      cases hskip
      refine ⟨i, ?_, hi⟩
      rw [cJSONParse, show skip (utf8 cs ++ Ch.nul :: rest) = .ok (stored rest (c :: u)) from
        skip_stored rest hcs hvisible, except_ok_bind, hparse]
      rfl

/-- ` [1,"\ud83d\ude00\u0000"]`: white space, a surrogate pair and U+0000, in
a block with more behind the text. -/
theorem cJSONParse_json_emoji :
    ∃ root, cJSONParse (utf8 [' ', '[', '1', ',', '"', '\\', 'u', 'd', '8', '3', 'd', '\\', 'u',
        'd', 'e', '0', '0', '\\', 'u', '0', '0', '0', '0', '"', ']'] ++ Ch.nul :: [7]) =
        .ok (some root) ∧
      root.value = jsonOf (.array [.number ['1'], .string ['😀', '\x00']]) :=
  cJSONParse_json _ _ _ (by rfl)

end Admlink
