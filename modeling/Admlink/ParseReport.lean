import Admlink.MsgHandle
import Admlink.ParseString
import Admlink.ParseTree

/-!
# How the agent's own report parses

A report is three objects, one inside the other, around the id. Up to the id
the parser takes the same path for every report; there it reads a string, and
what that string turns out to be decides the rest.
-/

namespace Admlink

open Program CJson

/-! ## One level of an object -/

theorem startsWith_other {l c : UInt8} {ls cs : Bytes} (h : c ≠ l) :
    startsWith (l :: ls) (c :: cs) = .ok false := by
  rw [startsWith, if_neg h]

/-- None of the literals starts like a string or an object. -/
theorem startsWith_literal {c : UInt8} (hc : c = Ch.quote ∨ c = Ch.lbrace) (cs : Bytes) :
    startsWith (bytes "null") (c :: cs) = .ok false ∧
      startsWith (bytes "false") (c :: cs) = .ok false ∧
      startsWith (bytes "true") (c :: cs) = .ok false := by
  have hnull : bytes "null" = 110 :: [117, 108, 108] := bytes_of_utf8 (by decide)
  have hfalse : bytes "false" = 102 :: [97, 108, 115, 101] := bytes_of_utf8 (by decide)
  have htrue : bytes "true" = 116 :: [114, 117, 101] := bytes_of_utf8 (by decide)
  rw [hnull, hfalse, htrue]
  rcases hc with rfl | rfl
  · exact ⟨startsWith_other (by decide), startsWith_other (by decide),
      startsWith_other (by decide)⟩
  · exact ⟨startsWith_other (by decide), startsWith_other (by decide),
      startsWith_other (by decide)⟩

theorem skip_visible {c : UInt8} (hc : ¬ (c ≠ Ch.nul ∧ c ≤ 32)) (cs : Bytes) :
    skip (c :: cs) = .ok (c :: cs) := by
  rw [skip, if_neg hc]

theorem parseValue_quote (fuel : Nat) (cs : Bytes) :
    parseValue (fuel + 1) (Ch.quote :: cs) = (do
      match ← parseString (Ch.quote :: cs) with
      | none => return none
      | some (s, ptr) => return some (.item .string (some s) none [], ptr)) := by
  obtain ⟨hnull, hfalse, htrue⟩ := startsWith_literal (.inl rfl) cs
  rw [parseValue]
  simp only [hnull, hfalse, htrue, except_ok_bind, Bool.false_eq_true, ↓reduceIte]
  rfl

theorem parseValue_brace (fuel : Nat) (cs : Bytes) :
    parseValue (fuel + 1) (Ch.lbrace :: Ch.quote :: cs) = (do
      match ← parseMembers fuel (Ch.quote :: cs) with
      | none => return none
      | some (items, ptr) => return some (.item .object none none items, ptr)) := by
  obtain ⟨hnull, hfalse, htrue⟩ := startsWith_literal (.inr rfl) (Ch.quote :: cs)
  rw [parseValue]
  simp only [hnull, hfalse, htrue, except_ok_bind, deref, Bool.false_eq_true, ↓reduceIte,
    List.tail_cons, skip_visible (show ¬ (Ch.quote ≠ Ch.nul ∧ Ch.quote ≤ 32) by decide) cs]
  rfl

/-- The block `parse_string` makes of a plain text. -/
def plainBuf (name : Bytes) : CBuf := ⟨name, name.length + 1⟩

theorem str_plainBuf {name : Bytes} (hname : ∀ c ∈ name, Plain c) : (plainBuf name).str = name :=
  List.takeWhile_eq_self_iff.mpr fun c hc => by simpa using (hname c hc).2.2

section Members

variable {name : Bytes} {fuel : Nat} {rest start ptr : Bytes}

theorem parseMembers_named (hname : ∀ c ∈ name, Plain c) (fuel : Nat) (rest : Bytes) :
    parseMembers (fuel + 1) (Ch.quote :: (name ++ Ch.quote :: Ch.colon :: rest)) = (do
      match ← parseValue fuel (← skip rest) with
      | none => return none
      | some (child, ptr) =>
          let child := child.withString (plainBuf name)
          let value ← skip ptr
          let c ← deref value
          if c = Ch.comma then
            match ← parseMembers fuel value.tail with
            | none => return none
            | some (items, ptr) => return some (child :: items, ptr)
          else if c = Ch.rbrace then return some ([child], value.tail)
          else return none) := by
  rw [parseMembers, skip_visible (by decide), except_ok_bind,
    parseString_plain hname (Ch.colon :: rest), except_ok_bind]
  simp only [skip_visible (show ¬ (Ch.colon ≠ Ch.nul ∧ Ch.colon ≤ 32) by decide) rest,
    except_ok_bind, deref, ne_eq, not_true_eq_false, ↓reduceIte, List.tail_cons]
  rfl

/-- The first member is the one that is written there. -/
theorem parseMembers_named_some (hname : ∀ c ∈ name, Plain c) (hstart : skip rest = .ok start)
    {items : List CJson} (h : parseMembers (fuel + 1)
      (Ch.quote :: (name ++ Ch.quote :: Ch.colon :: rest)) = .ok (some (items, ptr))) :
    ∃ child ptr₁ more, parseValue fuel start = .ok (some (child, ptr₁)) ∧
      members items = (name, child.value) :: members more := by
  rw [parseMembers_named hname, hstart, except_ok_bind] at h
  obtain ⟨r, hr, h⟩ := except_bind_ok h
  have hvalue : ∀ (child : CJson) (more : List CJson),
      members (child.withString (plainBuf name) :: more) = (name, child.value) :: members more :=
    fun child more => by simp [members, str_plainBuf hname]
  cases r with
  | none => cases h
  | some cp =>
      obtain ⟨_, -, h⟩ := except_bind_ok h
      obtain ⟨c, -, h⟩ := except_bind_ok h
      split at h
      · obtain ⟨r', -, h⟩ := except_bind_ok h
        cases r' with
        | none => cases h
        | some ip =>
            cases h
            exact ⟨_, _, _, hr, hvalue ..⟩
      · split at h
        · cases h
          exact ⟨_, _, _, hr, hvalue ..⟩
        · cases h

/-- A single member up to the brace behind it. -/
theorem parseMembers_single (hname : ∀ c ∈ name, Plain c) (hstart : skip rest = .ok start)
    {child : CJson} (hchild : parseValue fuel start = .ok (some (child, Ch.rbrace :: ptr))) :
    parseMembers (fuel + 1) (Ch.quote :: (name ++ Ch.quote :: Ch.colon :: rest)) =
      .ok (some ([child.withString (plainBuf name)], ptr)) := by
  rw [parseMembers_named hname, hstart, except_ok_bind, hchild, except_ok_bind]
  simp only [skip_visible (show ¬ (Ch.rbrace ≠ Ch.nul ∧ Ch.rbrace ≤ 32) by decide) ptr,
    except_ok_bind, deref, List.tail_cons]
  rfl

/-- An object whose first member is written there. -/
theorem parseValue_named_some (hname : ∀ c ∈ name, Plain c) (hstart : skip rest = .ok start)
    {i : CJson} (h : parseValue (fuel + 2)
      (Ch.lbrace :: Ch.quote :: (name ++ Ch.quote :: Ch.colon :: rest)) = .ok (some (i, ptr))) :
    ∃ child ptr₁ more, parseValue fuel start = .ok (some (child, ptr₁)) ∧
      i.value = .object ((name, child.value) :: more) := by
  rw [parseValue_brace] at h
  obtain ⟨r, hr, h⟩ := except_bind_ok h
  cases r with
  | none => cases h
  | some ip =>
      cases h
      obtain ⟨child, ptr₁, more, hchild, hitems⟩ := parseMembers_named_some hname hstart hr
      exact ⟨child, ptr₁, members more, hchild, by rw [value, hitems]⟩

/-- An object with a single member. -/
theorem parseValue_single (hname : ∀ c ∈ name, Plain c) (hstart : skip rest = .ok start)
    {child : CJson} (hchild : parseValue fuel start = .ok (some (child, Ch.rbrace :: ptr))) :
    ∃ i, parseValue (fuel + 2) (Ch.lbrace :: Ch.quote :: (name ++ Ch.quote :: Ch.colon :: rest)) =
        .ok (some (i, ptr)) ∧ i.value = .object [(name, child.value)] := by
  refine ⟨.item .object none none [child.withString (plainBuf name)], ?_, ?_⟩
  · rw [parseValue_brace, parseMembers_single hname hstart hchild]
    rfl
  · simp [value, members, str_plainBuf hname]

end Members

/-! ## The report -/

theorem plain_state : ∀ c ∈ bytes "state", Plain c :=
  forall_bytes (by decide)

theorem plain_reported : ∀ c ∈ bytes "reported", Plain c :=
  forall_bytes (by decide)

theorem plain_rcId : ∀ c ∈ bytes "rc_id", Plain c :=
  forall_bytes (by decide)

/-- What a report says: an object with this single member, and so on inward. -/
def reportValue (rcid : Bytes) : Json :=
  .object [(bytes "state", .object [(bytes "reported", .object [(bytes "rc_id", .string rcid)])])]

/-- The innermost object, up to the end of the block. -/
def reportInner (rcid rest : Bytes) : Bytes :=
  Ch.lbrace :: Ch.quote :: (bytes "rc_id" ++ Ch.quote :: Ch.colon :: Ch.quote ::
    (rcid ++ closing ++ rest))

def reportMiddle (rcid rest : Bytes) : Bytes :=
  Ch.lbrace :: Ch.quote :: (bytes "reported" ++ Ch.quote :: Ch.colon :: 32 :: reportInner rcid rest)

def reportOuter (rcid rest : Bytes) : Bytes :=
  Ch.lbrace :: Ch.quote :: (bytes "state" ++ Ch.quote :: Ch.colon :: 32 :: reportMiddle rcid rest)

theorem reportText_eq (rcid rest : Bytes) :
    reportText rcid ++ Ch.nul :: rest = reportOuter rcid rest := by
  have hfront : bytes "\x7b\"state\": \x7b\"reported\": \x7b\"rc_id\":\"" =
      Ch.lbrace :: Ch.quote :: (bytes "state" ++ Ch.quote :: Ch.colon :: 32 ::
        Ch.lbrace :: Ch.quote :: (bytes "reported" ++ Ch.quote :: Ch.colon :: 32 ::
          Ch.lbrace :: Ch.quote :: (bytes "rc_id" ++ [Ch.quote, Ch.colon, Ch.quote]))) := by
    decide +kernel
  have hback : bytes "\"\x7d\x7d\x7d" = [34, 125, 125, 125] := bytes_of_utf8 (by decide)
  simp [reportText, hfront, hback, reportOuter, reportMiddle, reportInner, closing]

theorem skip_space {c : UInt8} (hc : ¬ (c ≠ Ch.nul ∧ c ≤ 32)) (cs : Bytes) :
    skip (32 :: c :: cs) = .ok (c :: cs) := by
  rw [skip, if_pos (by decide), skip_visible hc]

theorem skip_inner (rcid rest : Bytes) :
    skip (32 :: reportInner rcid rest) = .ok (reportInner rcid rest) := skip_space (by decide) _

theorem skip_middle (rcid rest : Bytes) :
    skip (32 :: reportMiddle rcid rest) = .ok (reportMiddle rcid rest) := skip_space (by decide) _

/-- The call of `parse_value` that `cJSON_Parse` makes for a report. -/
theorem cJSONParse_report (rcid rest : Bytes) :
    ∃ fuel, cJSONParse (reportText rcid ++ Ch.nul :: rest) = (do
      match ← parseValue (fuel + 7) (reportOuter rcid rest) with
      | none => return none
      | some (root, _) => return some root) := by
  have hlen : 7 ≤ 2 * (reportOuter rcid rest).length + 2 := by
    simp only [reportOuter, reportMiddle, reportInner, List.length_cons, List.length_append]
    omega
  refine ⟨2 * (reportOuter rcid rest).length + 2 - 7, ?_⟩
  have hskip : skip (reportOuter rcid rest) = .ok (reportOuter rcid rest) :=
    skip_visible (by decide) _
  rewrite [reportText_eq, cJSONParse, hskip, Nat.sub_add_cancel hlen]
  rfl

/-- The report of a plain id parses to what it says. -/
theorem cJSONParse_report_plain {rcid : Bytes} (h : ∀ c ∈ rcid, Plain c) (rest : Bytes) :
    ∃ root, cJSONParse (reportText rcid ++ Ch.nul :: rest) = .ok (some root) ∧
      root.value = reportValue rcid := by
  obtain ⟨fuel, hparse⟩ := cJSONParse_report rcid rest
  have hstring : parseValue (fuel + 1) (Ch.quote :: (rcid ++ closing ++ rest)) =
      .ok (some (.item .string (some (plainBuf rcid)) none [],
        Ch.rbrace :: Ch.rbrace :: Ch.rbrace :: Ch.nul :: rest)) := by
    rw [parseValue_quote, List.append_assoc]
    rw [show closing ++ rest = Ch.quote :: Ch.rbrace :: Ch.rbrace :: Ch.rbrace :: Ch.nul :: rest
      from rfl, parseString_plain h]
    rfl
  obtain ⟨inner, hinner, hvi⟩ := parseValue_single plain_rcId (skip_visible (by decide) _) hstring
  obtain ⟨middle, hmiddle, hvm⟩ := parseValue_single plain_reported (skip_inner rcid rest) hinner
  obtain ⟨root, hroot, hvr⟩ := parseValue_single plain_state (skip_middle rcid rest) hmiddle
  refine ⟨root, ?_, ?_⟩
  · rw [hparse, show parseValue (fuel + 7) (reportOuter rcid rest) = _ from hroot]
    rfl
  · rw [hvr, hvm, hvi, value, Option.map_some, Option.getD_some, str_plainBuf h, reportValue]

/-- Only the report of a plain id parses to what it says. -/
theorem plain_of_cJSONParse_report {rcid : Bytes} {root : CJson}
    (h : cJSONParse (reportText rcid ++ [Ch.nul]) = .ok (some root))
    (hvalue : root.value = reportValue rcid) : ∀ c ∈ rcid, Plain c := by
  obtain ⟨fuel, hparse⟩ := cJSONParse_report rcid []
  rw [hparse] at h
  obtain ⟨r, hr, h⟩ := except_bind_ok h
  cases r with
  | none => cases h
  | some ip =>
      cases h
      obtain ⟨middle, _, _, hmiddle, hvr⟩ :=
        parseValue_named_some plain_state (skip_middle rcid []) hr
      obtain ⟨inner, _, _, hinner, hvm⟩ :=
        parseValue_named_some plain_reported (skip_inner rcid []) hmiddle
      obtain ⟨i, _, _, hi, hvi⟩ :=
        parseValue_named_some plain_rcId (skip_visible (by decide) _) hinner
      rw [hvr, hvm, hvi, reportValue] at hvalue
      simp only [Json.object.injEq, List.cons.injEq, Prod.mk.injEq, true_and] at hvalue
      rw [parseValue_quote] at hi
      obtain ⟨r, hs, hi⟩ := except_bind_ok hi
      cases r with
      | none => cases hi
      | some sp =>
          cases hi
          unfold parseString at hs
          obtain ⟨c, hc, hs⟩ := except_bind_ok hs
          cases hc
          rw [if_neg (by simp)] at hs
          obtain ⟨len, -, hs⟩ := except_bind_ok hs
          obtain ⟨⟨out, ptr⟩, hout, hs⟩ := except_bind_ok hs
          obtain ⟨c, -, hs⟩ := except_bind_ok hs
          cases hs
          rw [List.tail_cons, List.append_nil] at hout
          refine (plain_of_decodeString _ rcid _ (z := []) hout ?_).2
          simpa [value, CBuf.str] using hvalue.1.1.1

end Admlink
