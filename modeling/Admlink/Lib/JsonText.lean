import Mathlib.Data.List.Basic
import Mathlib.Data.List.TakeWhile

/-!
# JSON texts

A strict parser for JSON on characters: nothing is accepted that the grammar
of JSON does not derive, and a text only as a whole. The parser reads a value
from the front and returns what is left. How much it reads does not depend on
what follows (`Reads`), so a text made of members parses member by member.
-/

namespace JsonText

/-- A JSON value. Numbers keep their text, objects the order and the duplicates
of their members. -/
inductive Value
  | null
  | bool (b : Bool)
  | number (text : List Char)
  | string (s : List Char)
  | array (vs : List Value)
  | object (ms : List (List Char × Value))

/-! ## White space -/

def isWs (c : Char) : Bool := c = ' ' || c = '\t' || c = '\n' || c = '\r'

def skipWs (s : List Char) : List Char := s.dropWhile isWs

theorem skipWs_cons_of_ws {c : Char} {s : List Char} (h : isWs c = true) :
    skipWs (c :: s) = skipWs s := List.dropWhile_cons_of_pos h

theorem skipWs_cons {c : Char} {s : List Char} (h : isWs c = false) : skipWs (c :: s) = c :: s :=
  List.dropWhile_cons_of_neg (by simp [h])

/-- What was skipped is blank, and what is left does not start so. -/
theorem skipWs_eq_cons {s : List Char} {c : Char} {r : List Char} (h : skipWs s = c :: r) :
    ∃ ws, s = ws ++ c :: r ∧ (∀ x ∈ ws, isWs x = true) ∧ isWs c = false := by
  refine ⟨s.takeWhile isWs, ?_, fun x hx => List.mem_takeWhile_imp hx, ?_⟩
  · rw [← h]
    exact List.takeWhile_append_dropWhile.symm
  · have hne : s.dropWhile isWs ≠ [] := by
      rw [show s.dropWhile isWs = c :: r from h]
      exact List.cons_ne_nil _ _
    have hhead := List.head_dropWhile_not isWs hne
    simpa [show s.dropWhile isWs = c :: r from h] using hhead

theorem skipWs_of_blank {ws : List Char} (h : ∀ x ∈ ws, isWs x = true) (s : List Char) :
    skipWs (ws ++ s) = skipWs s := by
  induction ws with
  | nil => rfl
  | cons c ws ih =>
      rw [List.cons_append, skipWs_cons_of_ws (h c (List.mem_cons_self ..))]
      exact ih fun x hx => h x (List.mem_cons_of_mem c hx)

theorem blank_nil : ∀ x ∈ ([] : List Char), isWs x = true := by simp

/-! ## Strings -/

def hexDigit (c : Char) : Option Nat :=
  if '0' ≤ c ∧ c ≤ '9' then some (c.toNat - 48)
  else if 'a' ≤ c ∧ c ≤ 'f' then some (c.toNat - 87)
  else if 'A' ≤ c ∧ c ≤ 'F' then some (c.toNat - 55)
  else none

def hex4 : List Char → Option (Nat × List Char)
  | a :: b :: c :: d :: r => do
      return (4096 * (← hexDigit a) + 256 * (← hexDigit b) + 16 * (← hexDigit c) +
        (← hexDigit d), r)
  | _ => none

def charOf (n : Nat) : Option Char := if n.isValidChar then some (Char.ofNat n) else none

/-- What follows `\u`; a high surrogate needs its low one. -/
def unicode (s : List Char) : Option (Char × List Char) := do
  let (n, r) ← hex4 s
  if 0xD800 ≤ n ∧ n < 0xDC00 then
    match r with
    | '\\' :: 'u' :: r => do
        let (m, r) ← hex4 r
        if 0xDC00 ≤ m ∧ m < 0xE000 then
          (charOf (0x10000 + (n - 0xD800) * 1024 + (m - 0xDC00))).map (·, r)
        else none
    | _ => none
  else (charOf n).map (·, r)

/-- What follows a backslash. -/
def escape : List Char → Option (Char × List Char)
  | '"' :: r => some ('"', r)
  | '\\' :: r => some ('\\', r)
  | '/' :: r => some ('/', r)
  | 'b' :: r => some ('\x08', r)
  | 'f' :: r => some ('\x0c', r)
  | 'n' :: r => some ('\n', r)
  | 'r' :: r => some ('\r', r)
  | 't' :: r => some ('\t', r)
  | 'u' :: r => unicode r
  | _ => none

/-- A character that stands for itself inside a string. -/
def Unescaped (c : Char) : Prop := ' ' ≤ c ∧ c ≠ '"' ∧ c ≠ '\\'

instance : DecidablePred Unescaped := fun c =>
  inferInstanceAs (Decidable (' ' ≤ c ∧ c ≠ '"' ∧ c ≠ '\\'))

-- Goes through the list; the instance for any predicate goes through all characters.
instance decidableAllUnescaped (cs : List Char) : Decidable (∀ c ∈ cs, Unescaped c) :=
  List.decidableBAll Unescaped cs

/-- One character of a string. -/
def character : List Char → Option (Char × List Char)
  | [] => none
  | '\\' :: r => escape r
  | c :: r => if Unescaped c then some (c, r) else none

/-- The rest of a string behind its opening quote. -/
def chars : Nat → List Char → Option (List Char × List Char)
  | 0, _ => none
  | _ + 1, '"' :: r => some ([], r)
  | fuel + 1, s => do
      let (c, r) ← character s
      let (cs, r) ← chars fuel r
      return (c :: cs, r)

def string (s : List Char) : Option (List Char × List Char) := chars s.length s

/-! ## Numbers and words -/

def isDigit (c : Char) : Bool := '0' ≤ c ∧ c ≤ '9'

/-- The characters numbers are made of; no number is followed by one. -/
def isNumChar (c : Char) : Bool :=
  isDigit c || c = '+' || c = '-' || c = '.' || c = 'e' || c = 'E'

def digits (s : List Char) : List Char := s.dropWhile isDigit

def intPart : List Char → Option (List Char)
  | '0' :: r => some r
  | c :: r => if isDigit c then some (digits r) else none
  | [] => none

def fracPart : List Char → Option (List Char)
  | '.' :: c :: r => if isDigit c then some (digits r) else none
  | ['.'] => none
  | r => some r

def expDigits : List Char → Option (List Char)
  | c :: r => if isDigit c then some (digits r) else none
  | [] => none

def expPart : List Char → Option (List Char)
  | 'e' :: '+' :: r | 'e' :: '-' :: r | 'E' :: '+' :: r | 'E' :: '-' :: r => expDigits r
  | 'e' :: r | 'E' :: r => expDigits r
  | r => some r

def unsigned (s : List Char) : Option (List Char) := do
  let r ← intPart s
  let r ← fracPart r
  expPart r

/-- The whole of `s` is a number. -/
def isNumber : List Char → Bool
  | '-' :: r => unsigned r = some []
  | s => unsigned s = some []

/-- A value that is neither a string nor an array nor an object. -/
def scalar (s : List Char) : Option (Value × List Char) :=
  if "null".toList.isPrefixOf s then some (.null, s.drop 4)
  else if "true".toList.isPrefixOf s then some (.bool true, s.drop 4)
  else if "false".toList.isPrefixOf s then some (.bool false, s.drop 5)
  else if isNumber (s.takeWhile isNumChar) then
    some (.number (s.takeWhile isNumChar), s.dropWhile isNumChar)
  else none

/-! ## Values -/

/-- The name of a member, with its colon. -/
def name (s : List Char) : Option (List Char × List Char) :=
  match skipWs s with
  | '"' :: r => do
      let (k, r) ← string r
      match skipWs r with
      | ':' :: r => some (k, r)
      | _ => none
  | _ => none

mutual

def value : Nat → List Char → Option (Value × List Char)
  | 0, _ => none
  | fuel + 1, s =>
      match skipWs s with
      | [] => none
      | '"' :: r => (string r).map fun (d, r) => (.string d, r)
      | '[' :: r =>
          match skipWs r with
          | ']' :: r => some (.array [], r)
          | r => (elements fuel r).map fun (vs, r) => (.array vs, r)
      | '\x7b' :: r =>
          match skipWs r with
          | '\x7d' :: r => some (.object [], r)
          | r => (members fuel r).map fun (ms, r) => (.object ms, r)
      | r => scalar r

/-- The rest of an array that has an element left. -/
def elements : Nat → List Char → Option (List Value × List Char)
  | 0, _ => none
  | fuel + 1, s => do
      let (v, r) ← value fuel s
      match skipWs r with
      | ',' :: r => (elements fuel r).map fun (vs, r) => (v :: vs, r)
      | ']' :: r => some ([v], r)
      | _ => none

/-- The rest of an object that has a member left. -/
def members : Nat → List Char → Option (List (List Char × Value) × List Char)
  | 0, _ => none
  | fuel + 1, s => do
      let (k, r) ← name s
      let (v, r) ← value fuel r
      match skipWs r with
      | ',' :: r => (members fuel r).map fun (ms, r) => ((k, v) :: ms, r)
      | '\x7d' :: r => some ([(k, v)], r)
      | _ => none

end

section Calls

variable (fuel : Nat) {s r : List Char}

/-- White space in front of a value is skipped. -/
theorem value_skip {t : List Char} (h : skipWs s = skipWs t) :
    value (fuel + 1) s = value (fuel + 1) t := by
  simp only [value, h]

theorem value_quote :
    value (fuel + 1) ('"' :: r) = (string r).map fun (d, r) => (.string d, r) := rfl

theorem value_bracket : value (fuel + 1) ('[' :: r) =
    match skipWs r with
    | ']' :: r => some (.array [], r)
    | r => (elements fuel r).map fun (vs, r) => (.array vs, r) := rfl

theorem value_brace : value (fuel + 1) ('\x7b' :: r) =
    match skipWs r with
    | '\x7d' :: r => some (.object [], r)
    | r => (members fuel r).map fun (ms, r) => (.object ms, r) := rfl

theorem elements_succ : elements (fuel + 1) s = (value fuel s).bind fun (v, r) =>
    match skipWs r with
    | ',' :: r => (elements fuel r).map fun (vs, r) => (v :: vs, r)
    | ']' :: r => some ([v], r)
    | _ => none := rfl

theorem members_succ : members (fuel + 1) s = (name s).bind fun (k, r) =>
    (value fuel r).bind fun (v, r) =>
      match skipWs r with
      | ',' :: r => (members fuel r).map fun (ms, r) => ((k, v) :: ms, r)
      | '\x7d' :: r => some ([(k, v)], r)
      | _ => none := rfl

end Calls

/-- A whole text. -/
def parse (s : List Char) : Option Value := do
  let (v, r) ← value (2 * s.length) s
  if skipWs r = [] then some v else none

end JsonText
