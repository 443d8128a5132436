import Admlink.CString

/-!
# The JSON parser of `cJSON.c`

The parser walks a `char *`. A pointer is the list of bytes from it to the end
of the memory block, so stepping over the terminating NUL and reading on is
visible: reading past the block is a fault. `parse_string` allocates what its
first pass counted and its second pass may write more than that; that is a
fault too.

`valueint` and `valuedouble` are left out: `parse_number` only matters for how
far it reads, nothing in the agent looks at a number.
-/

namespace Admlink

/-! ## Items -/

inductive CJsonType
  | jfalse | jtrue | jnull | number | string | array | object
deriving DecidableEq, Repr

/-- A heap block of `size` bytes whose first bytes have been written. -/
structure CBuf where
  written : Bytes
  size : Nat
deriving DecidableEq, Repr

def CBuf.str (b : CBuf) : Bytes := cstr b.written

/-- `struct cJSON`: the `next` chain of an item's `child` is a list. -/
inductive CJson
  | item (type : CJsonType) (valuestring : Option CBuf) (string : Option CBuf)
      (child : List CJson)

namespace CJson

def type : CJson → CJsonType
  | item t _ _ _ => t

def valuestring : CJson → Option CBuf
  | item _ v _ _ => v

def string : CJson → Option CBuf
  | item _ _ s _ => s

def child : CJson → List CJson
  | item _ _ _ c => c

/-- An item of this type that holds nothing else. -/
def bare (t : CJsonType) : CJson := item t none none []

def withString (s : CBuf) : CJson → CJson
  | item t v _ c => item t v (some s) c

@[simp] theorem string_withString (s : CBuf) (i : CJson) :
    (i.withString s).string = some s := by cases i; rfl

end CJson

/-! ## Reading -/

/-- `*p`. -/
def deref : Bytes → Except Fault UInt8
  | [] => .error .outOfBounds
  | c :: _ => .ok c

/-- `strncmp(value, lit, strlen(lit)) == 0` on memory: it stops at the first
difference, so it reads no further. -/
def startsWith : Bytes → Bytes → Except Fault Bool
  | [], _ => .ok true
  | _ :: _, [] => .error .outOfBounds
  | l :: ls, c :: cs => if c = l then startsWith ls cs else .ok false

/-- Jump over white space and control characters. -/
def skip : Bytes → Except Fault Bytes
  | [] => .error .outOfBounds
  | c :: cs => if c ≠ Ch.nul ∧ c ≤ 32 then skip cs else .ok (c :: cs)

def isDigit (c : UInt8) : Bool := Ch.zero ≤ c && c ≤ Ch.nine

def skipDigits : Bytes → Except Fault Bytes
  | [] => .error .outOfBounds
  | c :: cs => if isDigit c then skipDigits cs else .ok (c :: cs)

/-- Step over `c` if it is there. -/
def skipChar (c : UInt8) (p : Bytes) : Except Fault Bytes := do
  let d ← deref p
  return if d = c then p.tail else p

def parseNumber (num : Bytes) : Except Fault Bytes := do
  let num ← skipChar Ch.minus num
  let num ← skipChar Ch.zero num
  let c ← deref num
  let num ← if 49 ≤ c ∧ c ≤ Ch.nine then skipDigits num else pure num
  let c ← deref num
  let num ←
    if c = Ch.dot then do
      let d ← deref num.tail
      if isDigit d then skipDigits num.tail else pure num
    else pure num
  let c ← deref num
  if c = 101 ∨ c = 69 then do
    let sign ← deref num.tail
    skipDigits (if sign = Ch.plus ∨ sign = Ch.minus then num.tail.tail else num.tail)
  else pure num

/-! ## Strings -/

def hexDigit? (c : UInt8) : Option Nat :=
  if 48 ≤ c ∧ c ≤ 57 then some (c.toNat - 48)
  else if 65 ≤ c ∧ c ≤ 70 then some (10 + c.toNat - 65)
  else if 97 ≤ c ∧ c ≤ 102 then some (10 + c.toNat - 97)
  else none

/-- The next `n` hex digits on top of `h`; 0 at the first that is none. -/
def parseHex : Nat → Nat → Bytes → Except Fault Nat
  | 0, h, _ => .ok h
  | _ + 1, _, [] => .error .outOfBounds
  | n + 1, h, c :: cs =>
      match hexDigit? c with
      | none => .ok 0
      | some d => parseHex n (h * 16 + d) cs

def parseHex4 (str : Bytes) : Except Fault Nat := parseHex 4 0 str

/-- The continuation byte that is written for the low bits of `uc`. -/
def contByte (uc : Nat) : UInt8 := UInt8.ofNat (uc % 64 + 128)

/-- The switch over `len` that writes `uc` as UTF-8. -/
def utf8Bytes (uc : Nat) : Bytes :=
  if uc < 0x80 then [UInt8.ofNat uc]
  else if uc < 0x800 then [UInt8.ofNat (uc / 64 + 0xC0), contByte uc]
  else if uc < 0x10000 then
    [UInt8.ofNat (uc / 4096 + 0xE0), contByte (uc / 64), contByte uc]
  else
    [UInt8.ofNat (uc / 262144 + 0xF0), contByte (uc / 4096), contByte (uc / 64), contByte uc]

/-- The `\u` case: what it writes and where reading goes on. `rest` is what
follows the `u`. A high surrogate looks at the next escape. -/
def unescapeU (rest : Bytes) : Except Fault (Bytes × Bytes) := do
  let uc ← parseHex4 rest
  let after := rest.drop 4
  if (0xDC00 ≤ uc ∧ uc ≤ 0xDFFF) ∨ uc = 0 then return ([], after)
  if 0xD800 ≤ uc ∧ uc ≤ 0xDBFF then
    let c ← deref after
    if c ≠ Ch.backslash then return ([], after)
    let c ← deref after.tail
    if c ≠ 117 then return ([], after)
    let uc2 ← parseHex4 (after.drop 2)
    if uc2 < 0xDC00 ∨ 0xDFFF < uc2 then return ([], after.drop 6)
    return (utf8Bytes (0x10000 + (uc % 1024 * 1024 + uc2 % 1024)), after.drop 6)
  return (utf8Bytes uc, after)

/-- One escape: `c` is the character after the backslash. -/
def unescape (c : UInt8) (rest : Bytes) : Except Fault (Bytes × Bytes) :=
  if c = 98 then .ok ([8], rest)
  else if c = 102 then .ok ([12], rest)
  else if c = 110 then .ok ([10], rest)
  else if c = 114 then .ok ([13], rest)
  else if c = 116 then .ok ([9], rest)
  else if c = 117 then unescapeU rest
  else .ok ([c], rest)

/-- First pass of `parse_string`: how many bytes it allocates for. An escape
counts one and hides the character after it, a terminator too. -/
def countString : Bytes → Nat → Except Fault Nat
  | [], _ => .error .outOfBounds
  | c :: cs, len =>
      if c = Ch.quote ∨ c = Ch.nul then .ok len
      else if c = Ch.backslash then
        match cs with
        | [] => .error .outOfBounds
        | _ :: cs => countString cs (len + 1)
      else countString cs (len + 1)

/-- Second pass: the bytes written and the pointer it stops at. `room` is what
is left of the allocation before the terminator. -/
def decodeString : Nat → Bytes → Nat → Except Fault (Bytes × Bytes)
  | 0, _, _ => .error .outOfFuel
  | _ + 1, [], _ => .error .outOfBounds
  | fuel + 1, c :: cs, room =>
      if c = Ch.quote ∨ c = Ch.nul then .ok ([], c :: cs)
      else if c ≠ Ch.backslash then
        if room = 0 then .error .overflow
        else do
          let (out, ptr) ← decodeString fuel cs (room - 1)
          return (c :: out, ptr)
      else
        match cs with
        | [] => .error .outOfBounds
        | e :: rest => do
            let (w, next) ← unescape e rest
            if room < w.length then .error .overflow
            else do
              let (out, ptr) ← decodeString fuel next (room - w.length)
              return (w ++ out, ptr)

/-- `parse_string`: the block it allocates and the pointer behind the string,
or `none` when there is no opening quote. A missing closing quote is accepted. -/
def parseString (str : Bytes) : Except Fault (Option (CBuf × Bytes)) := do
  let c ← deref str
  if c ≠ Ch.quote then return none
  let len ← countString str.tail 0
  let (out, ptr) ← decodeString (str.tail.length + 1) str.tail len
  let c ← deref ptr
  return some (⟨out, len + 1⟩, if c = Ch.quote then ptr.tail else ptr)

/-! ## Values -/

mutual

def parseValue : Nat → Bytes → Except Fault (Option (CJson × Bytes))
  | 0, _ => .error .outOfFuel
  | fuel + 1, value => do
      if ← startsWith (bytes "null") value then
        return some (.bare .jnull, value.drop 4)
      if ← startsWith (bytes "false") value then
        return some (.bare .jfalse, value.drop 5)
      if ← startsWith (bytes "true") value then
        return some (.bare .jtrue, value.drop 4)
      let c ← deref value
      if c = Ch.quote then
        match ← parseString value with
        | none => return none
        | some (s, ptr) => return some (.item .string (some s) none [], ptr)
      else if c = Ch.minus ∨ isDigit c then
        return some (.bare .number, ← parseNumber value)
      else if c = Ch.lbracket then
        let value ← skip value.tail
        if (← deref value) = Ch.rbracket then
          return some (.bare .array, value.tail)
        match ← parseElements fuel value with
        | none => return none
        | some (items, ptr) => return some (.item .array none none items, ptr)
      else if c = Ch.lbrace then
        let value ← skip value.tail
        if (← deref value) = Ch.rbrace then
          return some (.bare .object, value.tail)
        match ← parseMembers fuel value with
        | none => return none
        | some (items, ptr) => return some (.item .object none none items, ptr)
      else return none

/-- The loop of `parse_array`, from one element on. -/
def parseElements : Nat → Bytes → Except Fault (Option (List CJson × Bytes))
  | 0, _ => .error .outOfFuel
  | fuel + 1, value => do
      match ← parseValue fuel (← skip value) with
      | none => return none
      | some (child, ptr) =>
          let value ← skip ptr
          let c ← deref value
          if c = Ch.comma then
            match ← parseElements fuel value.tail with
            | none => return none
            | some (items, ptr) => return some (child :: items, ptr)
          else if c = Ch.rbracket then return some ([child], value.tail)
          else return none

/-- The loop of `parse_object`, from one member on. -/
def parseMembers : Nat → Bytes → Except Fault (Option (List CJson × Bytes))
  | 0, _ => .error .outOfFuel
  | fuel + 1, value => do
      match ← parseString (← skip value) with
      | none => return none
      | some (name, ptr) =>
          let value ← skip ptr
          if (← deref value) ≠ Ch.colon then return none
          match ← parseValue fuel (← skip value.tail) with
          | none => return none
          | some (child, ptr) =>
              let child := child.withString name
              let value ← skip ptr
              let c ← deref value
              if c = Ch.comma then
                match ← parseMembers fuel value.tail with
                | none => return none
                | some (items, ptr) => return some (child :: items, ptr)
              else if c = Ch.rbrace then return some ([child], value.tail)
              else return none

end

/-- `cJSON_Parse`: what follows the value is not looked at. -/
def cJSONParse (value : Bytes) : Except Fault (Option CJson) := do
  let value ← skip value
  match ← parseValue (2 * value.length + 2) value with
  | none => return none
  | some (root, _) => return some root

/-! ## Lookup -/

/-- `cJSON_strcasecmp(s1, s2) == 0`, where `s1` may be NULL. -/
def cJSONStrcaseEq (s1 : Option CBuf) (s2 : Bytes) : Bool :=
  match s1 with
  | none => false
  | some b => b.str.map tolower = s2.map tolower

/-- `cJSON_GetObjectItem`: the first match, in an item of any type. -/
def cJSONGetObjectItem (object : CJson) (string : Bytes) : Option CJson :=
  object.child.find? (fun c => cJSONStrcaseEq c.string string)

end Admlink
