import Admlink.Lib.Utf8
import Mathlib.Algebra.Ring.Nat
import Mathlib.Data.List.TakeWhile

/-!
# C strings, fixed-size fields and memory faults

A `char *` is the list of bytes from the pointer to the end of the memory the
model knows about; the string it denotes ends at the first NUL. A `char[n]`
member that holds a string is a `Field n`, which carries the fact that string
and terminator fit.
-/

namespace Admlink

open Utf8

abbrev Bytes := List UInt8

/-- The UTF-8 bytes of a source literal. Irreducible, so that no proof
evaluates a literal by accident. -/
@[irreducible] def bytes (s : String) : Bytes := s.toList.flatMap String.utf8EncodeChar

/-! ## Literals

What is to be evaluated is evaluated on the characters of the literal. -/

section Literals

variable {s t u : String}

theorem bytes_eq_utf8 (s : String) : bytes s = utf8 s.toList := by
  unfold bytes
  rfl

theorem bytes_of_utf8 {b : Bytes} (h : utf8 s.toList = b) : bytes s = b :=
  (bytes_eq_utf8 s).trans h

theorem bytes_of_chars {cs : List Char} (h : s.toList = cs) : bytes s = utf8 cs := by
  rw [bytes_eq_utf8, h]

theorem bytes_append_of_chars (h : s.toList ++ t.toList = u.toList) :
    bytes s ++ bytes t = bytes u := by
  rw [bytes_eq_utf8, bytes_eq_utf8, bytes_eq_utf8, ← h, utf8_append]

theorem length_bytes {n : Nat} (h : (utf8 s.toList).length = n) : (bytes s).length = n := by
  rw [bytes_eq_utf8, h]

theorem forall_bytes {p : UInt8 → Prop} [DecidablePred p]
    (h : (utf8 s.toList).all (fun c => decide (p c)) = true) : ∀ c ∈ bytes s, p c := by
  rw [bytes_eq_utf8]
  exact fun c hc => of_decide_eq_true (List.all_eq_true.mp h c hc)

theorem notMem_bytes {c : UInt8} (h : c ∉ utf8 s.toList) : c ∉ bytes s := by
  rw [bytes_eq_utf8]
  exact h

end Literals

/-- What the C standard leaves undefined. -/
inductive Fault
  | overflow      -- a write past the end of a buffer
  | outOfBounds   -- a read past the end of a buffer
  | nullPointer
  | freedMemory
  | outOfFuel     -- no behaviour of the code: a recursion bound of the model
deriving DecidableEq, Repr

/-! ## Characters -/

namespace Ch

abbrev nul : UInt8 := 0
abbrev quote : UInt8 := 34
abbrev plus : UInt8 := 43
abbrev comma : UInt8 := 44
abbrev minus : UInt8 := 45
abbrev dot : UInt8 := 46
abbrev zero : UInt8 := 48
abbrev nine : UInt8 := 57
abbrev colon : UInt8 := 58
abbrev lbracket : UInt8 := 91
abbrev backslash : UInt8 := 92
abbrev rbracket : UInt8 := 93
abbrev lbrace : UInt8 := 123
abbrev rbrace : UInt8 := 125

end Ch

/-! ## Strings -/

/-- The string at the start of `mem`: everything before the first NUL. -/
def cstr (mem : Bytes) : Bytes := mem.takeWhile (· != Ch.nul)

theorem nul_notMem_cstr (mem : Bytes) : Ch.nul ∉ cstr mem := by
  intro h
  have := List.mem_takeWhile_imp h
  simp at this

/-- A string in a `char[n]`, terminator included. -/
structure Field (n : Nat) where
  str : Bytes
  fits : str.length < n
  noNul : Ch.nul ∉ str

instance (n : Nat) : DecidableEq (Field n) := fun a b =>
  decidable_of_iff (a.str = b.str) (by cases a; cases b; simp)

/-- `strcpy` or `sprintf` of a string into a `char[n]`. -/
def Field.copy (n : Nat) (src : Bytes) : Except Fault (Field n) :=
  if h : (cstr src).length < n then .ok ⟨cstr src, h, nul_notMem_cstr src⟩
  else .error .overflow

/-- A zeroed `char[n]`. -/
def Field.empty (n : Nat) [NeZero n] : Field n :=
  ⟨[], Nat.pos_of_ne_zero (NeZero.ne n), by simp⟩

/-! ## The string functions the agent uses -/

/-- `snprintf(tmpbuf, n, ..)`: what is left of the text `s`. -/
def snprintf (n : Nat) (s : Bytes) : Bytes := s.take (n - 1)

/-- `strcat` into a buffer of `n` bytes that holds `dst`. -/
def strcat (n : Nat) (dst src : Bytes) : Except Fault Bytes :=
  if dst.length + src.length < n then .ok (dst ++ src) else .error .overflow

/-- `strcat` of several pieces, one after the other. -/
def strcats (n : Nat) : Bytes → List Bytes → Except Fault Bytes
  | dst, [] => .ok dst
  | dst, src :: srcs => do
      let dst ← strcat n dst src
      strcats n dst srcs

/-- `strncmp(s, t, strlen(t)) == 0`. -/
def strncmpEq (s t : Bytes) : Bool := t.isPrefixOf s

/-- `tolower` in the C locale. -/
def tolower (c : UInt8) : UInt8 := if 65 ≤ c ∧ c ≤ 90 then c + 32 else c

/-- Pieces that fit one behind the other are all appended. -/
theorem strcats_fits {n : Nat} {srcs : List Bytes} : ∀ {dst : Bytes},
    (dst ++ srcs.flatten).length < n → strcats n dst srcs = .ok (dst ++ srcs.flatten) := by
  induction srcs with
  | nil =>
      intro dst _
      simp [strcats]
  | cons src srcs ih =>
      intro dst h
      have hassoc : dst ++ (src :: srcs).flatten = (dst ++ src) ++ srcs.flatten := by simp
      rw [hassoc] at h ⊢
      have hfit : dst.length + src.length < n := by
        simp only [List.length_append] at h
        omega
      rw [strcats, strcat, if_pos hfit]
      exact ih h

theorem cstr_eq_self {s : Bytes} (h : Ch.nul ∉ s) : cstr s = s :=
  List.takeWhile_eq_self_iff.mpr fun c hc => by simpa using fun e : c = Ch.nul => h (e ▸ hc)

theorem length_cstr_le (s : Bytes) : (cstr s).length ≤ s.length :=
  (List.takeWhile_prefix _).length_le

end Admlink
