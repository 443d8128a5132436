import Admlink.CString
import Admlink.Lib.LengthPrefixed
import Admlink.Lib.Program

/-!
# The ALPN list

`next_protos_parse` turns a comma-separated list into the length-prefixed list
that `SSL_CTX_set_alpn_protos` takes. It shifts the text by one byte and writes
each length over the comma in front of its segment. The bytes are right for
every text; the length that is reported next to them is narrowed to a `char`.
-/

namespace Admlink

open LengthPrefixed

/-! ## `next_protos_parse` -/

/-- `out[i] = c`. -/
def store (out : Bytes) (i : Nat) (c : UInt8) : Except Fault Bytes :=
  if i < out.length then .ok (out.set i c) else .error .overflow

/-- The last `n` turns of `for (i = 0; i <= len; ++i)`; `none` where the loop
frees `out` and returns `NULL`. -/
def nextProtosFor (inp : Bytes) : Nat → Nat → Nat → Bytes → Except Fault (Option Bytes)
  | 0, _, _, out => .ok (some out)
  | n + 1, i, start, out =>
      if i = inp.length ∨ inp.getD i Ch.nul = Ch.comma then
        if i - start > 255 then .ok none
        else do
          let out ← store out start (UInt8.ofNat (i - start))
          nextProtosFor inp n (i + 1) (i + 1) out
      else do
        let out ← store out (i + 1) (inp.getD i Ch.nul)
        nextProtosFor inp n (i + 1) start out

/-- `next_protos_parse(&outlen, in)`: `*outlen` and the result. The block that
`OPENSSL_malloc` returns holds whatever was there before. -/
def nextProtosParse (malloc : (n : Nat) → Option (Vector UInt8 n)) (mem : Bytes) :
    Except Fault (Option (UInt16 × Bytes)) :=
  let inp := cstr mem
  let len := inp.length
  if 65535 ≤ len then .ok none
  else match malloc (len + 1) with
    | none => .ok none
    | some block => do
        match ← nextProtosFor inp (len + 1) 0 0 block.toList with
        | none => .ok none
        -- *outlen = (unsigned char)(len + 1);
        | some out => .ok (some ((UInt8.ofNat (len + 1)).toUInt16, out))

/-! ## The loop -/

theorem store_append {out junk : Bytes} {x c : UInt8} :
    store (out ++ x :: junk) out.length c = .ok (out ++ c :: junk) := by
  rw [store, if_pos (by simp)]
  simp

/-- Behind the segments that are done lies a byte for the length of the current
one, then its bytes so far, then what is not written yet: as much as is still
to be read. -/
theorem nextProtosFor_eq {inp : Bytes} : ∀ (rest pre : Bytes) (segs : List Bytes)
    (cur junk : Bytes) (x : UInt8), inp = pre ++ rest → Short segs → Ch.comma ∉ cur →
    (encode segs).length + cur.length = pre.length → junk.length = rest.length →
    nextProtosFor inp (rest.length + 1) pre.length (encode segs).length
        (encode segs ++ x :: (cur ++ junk)) =
      .ok (if Short (segs ++ (cur ++ rest).splitOn Ch.comma) then
        some (encode (segs ++ (cur ++ rest).splitOn Ch.comma)) else none) := by
  intro rest
  induction rest with
  | nil =>
      intro pre segs cur junk x hinp hsegs hcur hpre hjunk
      obtain rfl := List.length_eq_zero_iff.mp hjunk
      have hlen : pre.length - (encode segs).length = cur.length := by omega
      have hend : pre.length = inp.length := by simp [hinp]
      rw [List.append_nil, List.splitOn_eq_singleton hcur]
      rw [nextProtosFor, if_pos (Or.inl hend), hlen]
      by_cases h : cur.length ≤ 255
      · have hshort : Short (segs ++ [cur]) :=
          short_append.mpr ⟨hsegs, by simpa [Short] using h⟩
        rw [if_neg (by omega), if_pos hshort, store_append, encode_concat]
        rfl
      · have hlong : ¬ Short (segs ++ [cur]) := fun hs => h (hs cur (by simp))
        rw [if_pos (by omega), if_neg hlong]
  | cons c rest ih =>
      intro pre segs cur junk x hinp hsegs hcur hpre hjunk
      obtain ⟨y, junk, rfl⟩ := List.exists_cons_of_length_eq_add_one hjunk
      have hinp' : inp = (pre ++ [c]) ++ rest := by simp [hinp]
      have hget : inp.getD pre.length Ch.nul = c := by simp [hinp]
      have hlen : pre.length - (encode segs).length = cur.length := by omega
      have hjunk' : junk.length = rest.length := by simpa using hjunk
      have hne : pre.length ≠ inp.length := by simp [hinp]
      have hi : pre.length + 1 = (pre ++ [c]).length := by simp
      rw [List.length_cons, nextProtosFor, hget, hlen]
      by_cases hc : c = Ch.comma
      · subst hc
        rw [if_pos (Or.inr rfl), List.splitOn_append_cons_self_of_not_mem hcur]
        by_cases h : cur.length ≤ 255
        · have hshort : Short (segs ++ [cur]) :=
            short_append.mpr ⟨hsegs, by simpa [Short] using h⟩
          -- the comma's place is where the next length goes
          have hout : encode segs ++ UInt8.ofNat cur.length :: (cur ++ y :: junk) =
              encode (segs ++ [cur]) ++ y :: ([] ++ junk) := by
            simp [encode_concat]
          have hstart : pre.length + 1 = (encode (segs ++ [cur])).length := by
            simp only [encode_concat, List.length_append, List.length_cons]
            omega
          have hrun := ih _ _ _ junk y hinp' hshort (List.not_mem_nil)
            (by simpa using hstart.symm) hjunk'
          rw [if_neg (by omega), store_append, Program.except_ok_bind, hout]
          rw [← hi, ← hstart] at hrun
          rw [hrun]
          simp
        · have hlong : ¬ Short (segs ++ cur :: rest.splitOn Ch.comma) :=
            fun hs => h (hs cur (by simp))
          rw [if_pos (by omega), if_neg hlong]
      · have hout : encode segs ++ x :: (cur ++ y :: junk) =
            (encode segs ++ x :: cur) ++ y :: junk := by simp
        have hpos : pre.length + 1 = (encode segs ++ x :: cur).length := by
          simp only [List.length_append, List.length_cons]
          omega
        have hcur' : Ch.comma ∉ cur ++ [c] := by
          simpa [hcur] using fun e : Ch.comma = c => hc e.symm
        have hrun := ih _ _ _ junk x hinp' hsegs hcur' (by simp; omega) hjunk'
        rw [if_neg (by rintro (h | h); exacts [hne h, hc h]), hout, hpos, store_append,
          Program.except_ok_bind, ← hpos, hi]
        simpa using hrun

/-! ## The result -/

section Result

variable {malloc : (n : Nat) → Option (Vector UInt8 n)} {mem : Bytes}

/-- The result for a string that is not too long, once there is memory for it. -/
theorem nextProtosParse_eq (hlen : (cstr mem).length < 65535)
    (halloc : (malloc ((cstr mem).length + 1)).isSome) :
    nextProtosParse malloc mem = .ok (if Short ((cstr mem).splitOn Ch.comma) then
      some ((UInt8.ofNat ((cstr mem).length + 1)).toUInt16,
        encode ((cstr mem).splitOn Ch.comma)) else none) := by
  obtain ⟨block, hblock⟩ := Option.isSome_iff_exists.mp halloc
  obtain ⟨x, junk, hjunk⟩ := List.exists_cons_of_length_eq_add_one block.length_toList
  have hloop := nextProtosFor_eq (cstr mem) [] [] [] junk x rfl (by simp [Short])
    List.not_mem_nil rfl (by simpa using congrArg List.length hjunk.symm)
  simp only [encode, List.nil_append, List.length_nil] at hloop
  simp only [nextProtosParse, if_neg (Nat.not_le.mpr hlen), hblock, hjunk, hloop,
    Program.except_ok_bind]
  by_cases hs : Short ((cstr mem).splitOn Ch.comma)
  · rw [if_pos hs, if_pos hs]
  · rw [if_neg hs, if_neg hs]

theorem not_short_iff {segs : List Bytes} : ¬ Short segs ↔ ∃ seg ∈ segs, 255 < seg.length := by
  simp [Short]

/-- `next_protos_parse` reports the segments of `mem`, or `NULL` where one of
them has no length byte. -/
def AlpnCorrect (malloc : (n : Nat) → Option (Vector UInt8 n)) (mem : Bytes) : Prop :=
  ∃ r, nextProtosParse malloc mem = .ok r ∧
    (r = none ↔ ∃ seg ∈ (cstr mem).splitOn Ch.comma, 255 < seg.length) ∧
    ∀ outlen out, r = some (outlen, out) →
      out.take outlen.toNat = encode ((cstr mem).splitOn Ch.comma) ∧
      decode (out.take outlen.toNat) = some ((cstr mem).splitOn Ch.comma)

theorem toNat_outlen {n : Nat} : (UInt8.ofNat n).toUInt16.toNat = n % 256 := by
  simp

/-- From 255 bytes on the reported length is short of the list. -/
theorem take_outlen_ne (hlong : 255 ≤ (cstr mem).length) :
    (encode ((cstr mem).splitOn Ch.comma)).take (((cstr mem).length + 1) % 256) ≠
      encode ((cstr mem).splitOn Ch.comma) := by
  intro h
  have hlen := congrArg List.length h
  rw [List.length_take, length_encode_splitOn] at hlen
  omega

theorem not_alpnCorrect (hlen : (cstr mem).length < 65535)
    (halloc : (malloc ((cstr mem).length + 1)).isSome)
    (hs : Short ((cstr mem).splitOn Ch.comma)) (hlong : 255 ≤ (cstr mem).length) :
    ¬ AlpnCorrect malloc mem := by
  rintro ⟨r, hr, -, hout⟩
  rw [nextProtosParse_eq hlen halloc, if_pos hs] at hr
  have := (hout _ _ (Except.ok.inj hr).symm).1
  rw [toNat_outlen] at this
  exact take_outlen_ne hlong this

/-- The result is right unless the list is at least 256 bytes long. -/
theorem alpnCorrect_iff (hlen : (cstr mem).length < 65535)
    (halloc : (malloc ((cstr mem).length + 1)).isSome) :
    AlpnCorrect malloc mem ↔
      (∃ seg ∈ (cstr mem).splitOn Ch.comma, 255 < seg.length) ∨ (cstr mem).length ≤ 254 := by
  constructor
  · intro h
    by_cases hs : Short ((cstr mem).splitOn Ch.comma)
    · right
      by_contra hlong
      exact not_alpnCorrect hlen halloc hs (by omega) h
    · exact Or.inl (not_short_iff.mp hs)
  · intro h
    refine ⟨_, nextProtosParse_eq hlen halloc, ?_, ?_⟩
    · rw [← not_short_iff]
      simp
    · intro outlen out hr
      have hs : Short ((cstr mem).splitOn Ch.comma) := by
        by_contra hs
        rw [if_neg hs] at hr
        cases hr
      have hle : (cstr mem).length ≤ 254 := h.resolve_left fun hl => not_short_iff.mpr hl hs
      rw [if_pos hs] at hr
      obtain ⟨rfl, rfl⟩ := Prod.mk.inj (Option.some.inj hr)
      -- up to 255 the length survives the cast to `unsigned char`
      have htake : (encode ((cstr mem).splitOn Ch.comma)).take
          (UInt8.ofNat ((cstr mem).length + 1)).toUInt16.toNat =
            encode ((cstr mem).splitOn Ch.comma) := by
        refine List.take_of_length_le ?_
        rw [toNat_outlen, length_encode_splitOn]
        omega
      rw [htake]
      exact ⟨rfl, decode_encode hs⟩

/-- Two names of 127 bytes: the list has 256 bytes, of which none is reported. -/
theorem not_alpnCorrect_pair {name : Bytes} (hnul : Ch.nul ∉ name) (hcomma : Ch.comma ∉ name)
    (hlen : name.length = 127) (halloc : (malloc 256).isSome) :
    (cstr (name ++ Ch.comma :: name)).length = 255 ∧
      ¬ AlpnCorrect malloc (name ++ Ch.comma :: name) := by
  have hstr : cstr (name ++ Ch.comma :: name) = name ++ Ch.comma :: name :=
    cstr_eq_self (by simpa [hnul] using show Ch.nul ≠ Ch.comma by decide)
  have hlen' : (cstr (name ++ Ch.comma :: name)).length = 255 := by
    rw [hstr]
    simp [hlen]
  have hsplit : (name ++ Ch.comma :: name).splitOn Ch.comma = [name, name] := by
    rw [List.splitOn_append_cons_self_of_not_mem hcomma, List.splitOn_eq_singleton hcomma]
  refine ⟨hlen', not_alpnCorrect (by omega) (by rwa [hlen']) ?_ (by omega)⟩
  rw [hstr, hsplit]
  simp [Short, hlen]

end Result

/-- The one protocol of the caller that is compiled out. -/
theorem alpnCorrect_amzn :
    AlpnCorrect (fun n => some (Vector.replicate n 0)) (bytes "x-amzn-mqtt-ca") :=
  (alpnCorrect_iff (by decide +kernel) rfl).mpr (Or.inr (by decide +kernel))

theorem two_long_names :
    (cstr (List.replicate 127 97 ++ Ch.comma :: List.replicate 127 97)).length = 255 ∧
    ¬ AlpnCorrect (fun n => some (Vector.replicate n 0))
      (List.replicate 127 97 ++ Ch.comma :: List.replicate 127 97) :=
  not_alpnCorrect_pair (by decide) (by decide) (by simp) rfl

end Admlink
