import Mathlib.Algebra.Ring.Nat
import Mathlib.Data.List.Basic

/-!
# Length-prefixed strings

A list of strings as one byte string: each string behind a byte that holds its
length. Only strings of at most 255 bytes have such a byte.
-/

namespace LengthPrefixed

abbrev Bytes := List UInt8

/-- One length byte and the bytes of each segment, in order. -/
def encode : List Bytes → Bytes
  | [] => []
  | seg :: segs => UInt8.ofNat seg.length :: seg ++ encode segs

/-- The segments of a byte string, unless the last one is cut off. -/
def decode : Bytes → Option (List Bytes)
  | [] => some []
  | n :: rest =>
      if n.toNat ≤ rest.length then
        (decode (rest.drop n.toNat)).map (rest.take n.toNat :: ·)
      else none
termination_by bs => bs.length
decreasing_by
  rw [List.length_drop, List.length_cons]
  omega

/-- Every segment has a length byte. -/
def Short (segs : List Bytes) : Prop := ∀ seg ∈ segs, seg.length ≤ 255

instance : DecidablePred Short := fun segs =>
  inferInstanceAs (Decidable (∀ seg ∈ segs, seg.length ≤ 255))

theorem short_cons {seg : Bytes} {segs : List Bytes} :
    Short (seg :: segs) ↔ seg.length ≤ 255 ∧ Short segs := List.forall_mem_cons

theorem short_append {segs segs' : List Bytes} :
    Short (segs ++ segs') ↔ Short segs ∧ Short segs' := List.forall_mem_append

theorem encode_append (segs segs' : List Bytes) :
    encode (segs ++ segs') = encode segs ++ encode segs' := by
  induction segs with
  | nil => rfl
  | cons seg segs ih => simp [encode, ih]

theorem encode_concat (segs : List Bytes) (seg : Bytes) :
    encode (segs ++ [seg]) = encode segs ++ UInt8.ofNat seg.length :: seg := by
  rw [encode_append]
  simp [encode]

theorem decode_encode {segs : List Bytes} (h : Short segs) :
    decode (encode segs) = some segs := by
  induction segs with
  | nil => simp [encode, decode]
  | cons seg segs ih =>
      obtain ⟨hseg, hsegs⟩ := short_cons.mp h
      have hlen : (UInt8.ofNat seg.length).toNat = seg.length := by
        rw [UInt8.toNat_ofNat']
        omega
      rw [encode, List.cons_append, decode, hlen]
      simp [ih hsegs]

/-! ## Splitting at a separator -/

variable {c : UInt8} {s : Bytes}

/-- The segments of `s` and a byte for the end of each but the last. -/
theorem length_encode_splitOn : (encode (s.splitOn c)).length = s.length + 1 := by
  induction s with
  | nil => simp [encode]
  | cons x s ih =>
      rw [List.splitOn_cons_eq_if_modifyHead]
      split
      · simp [encode, ih]
      · obtain ⟨seg, segs, h⟩ := List.exists_cons_of_ne_nil (List.splitOn_ne_nil c s)
        rw [h] at ih ⊢
        simp only [List.modifyHead_cons, encode, List.cons_append, List.length_cons,
          List.length_append] at ih ⊢
        omega

end LengthPrefixed
