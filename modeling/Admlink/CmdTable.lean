import Admlink.Daemon
import Mathlib.Data.List.Nodup

/-!
# The command table

`admlink_cmd_handle` takes the first entry whose name the datagram begins with.
Which word the name is part of is not looked at, so the entry is the one that
is asked for only where no other name is in the way.
-/

namespace Admlink

open Program

section Table

variable {H : Type}

/-- The `while` loop of `admlink_cmd_handle` over any table: the reply. The
handlers are programs of any kind. -/
def cmdHandleLoop {m : Type → Type} [Monad m] (cmdHdl : Bytes × H → m Bool) (buf : Bytes) :
    List (Bytes × H) → m Bytes
  | [] => pure (bytes "UNKNOWNCMD")
  | e :: tbl =>
      if strncmpEq buf e.1 then do
        if ← cmdHdl e then return bytes "OK" else return bytes "UNKNOWN_ERR"
      else cmdHandleLoop cmdHdl buf tbl

/-- The entry the loop stops at. -/
def firstMatch (tbl : List (Bytes × H)) (buf : Bytes) : Option (Bytes × H) :=
  tbl.find? (strncmpEq buf ·.1)

theorem cmdHandleLoop_eq {m : Type → Type} [Monad m] (cmdHdl : Bytes × H → m Bool) (buf : Bytes)
    (tbl : List (Bytes × H)) :
    cmdHandleLoop cmdHdl buf tbl = match firstMatch tbl buf with
      | none => pure (bytes "UNKNOWNCMD")
      | some e => do
          if ← cmdHdl e then return bytes "OK" else return bytes "UNKNOWN_ERR" := by
  induction tbl with
  | nil => rfl
  | cons e tbl ih =>
      rw [cmdHandleLoop, firstMatch, List.find?_cons]
      by_cases h : strncmpEq buf e.1 = true
      · simp only [h, ↓reduceIte]
      · rw [if_neg h, ih, firstMatch]
        simp only [Bool.not_eq_true] at h
        rw [h]

end Table

/-- The daemon's handler is the loop over the table it ships. -/
theorem admlinkCmdHandle_eq_loop (buf : Bytes) :
    admlinkCmdHandle buf = (do
      emit (.cmdHandle buf)
      let t ← localtime
      modify fun w => { w with agent := { w.agent with tinfo := some t } }
      cmdHandleLoop (·.2.run) buf adlcmdTbl) := by
  unfold admlinkCmdHandle
  congr 1
  funext _
  congr 1
  funext _
  congr 1
  funext _
  rw [cmdHandleLoop_eq, findCmdHdl, ← firstMatch]
  cases firstMatch adlcmdTbl buf <;> rfl

/-! ## Recognising a word -/

section Recognise

variable {H : Type} {tbl : List (Bytes × H)} {buf : Bytes}

/-- The datagram up to the first blank. -/
def firstWord (buf : Bytes) : Bytes := buf.takeWhile (· != 32)

/-- A handler that notes the entry it is run for. -/
def noted (ret : H → Bool) (e : Bytes × H) : StateM (List (Bytes × H)) Bool := do
  modify (· ++ [e])
  return ret e.2

/-- The reply to `buf` and the entries whose handlers are run. -/
def handled (ret : H → Bool) (tbl : List (Bytes × H)) (buf : Bytes) : Bytes × List (Bytes × H) :=
  cmdHandleLoop (noted ret) buf tbl []

/-- Commands are recognised by their whole first word, whatever the handlers
return. -/
structure WholeWord (tbl : List (Bytes × H)) (buf : Bytes) : Prop where
  runs : ∀ ret, ∀ e ∈ tbl, e ∈ (handled ret tbl buf).2 ↔ firstWord buf = e.1
  once : ∀ ret, (handled ret tbl buf).2.length ≤ 1
  unknown : ∀ ret, (handled ret tbl buf).1 = bytes "UNKNOWNCMD" ↔
    ∀ e ∈ tbl, e.1 ≠ firstWord buf

/-- A name the datagram begins with is its first word, or the entry of that
word comes earlier. -/
def Unobscured (tbl : List (Bytes × H)) (buf : Bytes) : Prop :=
  ∀ pre e post, tbl = pre ++ e :: post → e.1 <+: buf →
    e.1 = firstWord buf ∨ ∃ f ∈ pre, f.1 = firstWord buf

theorem strncmpEq_iff {s t : Bytes} : strncmpEq s t = true ↔ t <+: s := List.isPrefixOf_iff_prefix

theorem firstWord_prefix (buf : Bytes) : firstWord buf <+: buf := List.takeWhile_prefix _

theorem handled_none (ret : H → Bool) (h : firstMatch tbl buf = none) :
    handled ret tbl buf = (bytes "UNKNOWNCMD", []) := by
  rw [handled, cmdHandleLoop_eq, h]
  rfl

theorem handled_some (ret : H → Bool) {e : Bytes × H} (h : firstMatch tbl buf = some e) :
    handled ret tbl buf = (if ret e.2 then bytes "OK" else bytes "UNKNOWN_ERR", [e]) := by
  rw [handled, cmdHandleLoop_eq, h]
  have hnoted : noted ret e [] = (ret e.2, [e]) := rfl
  change (if (noted ret e []).1 then _ else _ : StateM (List (Bytes × H)) Bytes)
    (noted ret e []).2 = _
  rw [hnoted]
  cases ret e.2 with
  | false => rfl
  | true => rfl

/-- The loop stops at the entry of the first word, if at any. -/
theorem unobscured_iff : Unobscured tbl buf ↔
    ∀ e, firstMatch tbl buf = some e → e.1 = firstWord buf := by
  constructor
  · intro h e he
    obtain ⟨hmatch, pre, post, htbl, hpre⟩ := List.find?_eq_some_iff_append.mp he
    rcases h pre e post htbl (strncmpEq_iff.mp hmatch) with hword | ⟨f, hf, hword⟩
    · exact hword
    · have hstart : strncmpEq buf f.1 = true :=
        strncmpEq_iff.mpr (hword ▸ firstWord_prefix buf)
      have hnot := hpre f hf
      simp [hstart] at hnot
  · rintro h pre e post rfl he
    have hfind : firstMatch (pre ++ e :: post) buf = (firstMatch pre buf).or (some e) := by
      rw [firstMatch, List.find?_append, List.find?_cons, strncmpEq_iff.mpr he]
      rfl
    rw [hfind] at h
    -- the loop stops inside `pre`, or else at `e`
    cases hpre : firstMatch pre buf with
    | none => exact Or.inl (h e (by rw [hpre]; rfl))
    | some f => exact Or.inr ⟨f, List.mem_of_find?_eq_some hpre, h f (by rw [hpre]; rfl)⟩

/-- Where the loop finds nothing, no entry has the word as its name. -/
theorem ne_firstWord_of_none (h : firstMatch tbl buf = none) :
    ∀ e ∈ tbl, e.1 ≠ firstWord buf := by
  intro e he hword
  have hno := List.find?_eq_none.mp h e he
  exact hno (strncmpEq_iff.mpr (hword ▸ firstWord_prefix buf))

theorem WholeWord.unobscured (h : WholeWord tbl buf) : Unobscured tbl buf := by
  refine unobscured_iff.mpr fun e he => ?_
  have hrun : e ∈ (handled (fun _ => true) tbl buf).2 := by
    rw [handled_some _ he]
    exact List.mem_singleton_self e
  exact ((h.runs _ e (List.mem_of_find?_eq_some he)).mp hrun).symm

theorem Unobscured.wholeWord (hdistinct : (tbl.map (·.1)).Nodup) (h : Unobscured tbl buf) :
    WholeWord tbl buf := by
  cases hfirst : firstMatch tbl buf with
  | none =>
      have hne := ne_firstWord_of_none hfirst
      constructor
      · intro ret e he
        rw [handled_none ret hfirst]
        exact iff_of_false List.not_mem_nil fun hword => hne e he hword.symm
      · intro ret
        rw [handled_none ret hfirst]
        exact Nat.zero_le 1
      · intro ret
        rw [handled_none ret hfirst]
        exact iff_of_true rfl hne
  | some f =>
      have hf : f ∈ tbl := List.mem_of_find?_eq_some hfirst
      have hword : f.1 = firstWord buf := unobscured_iff.mp h f hfirst
      constructor
      · intro ret e he
        rw [handled_some ret hfirst, List.mem_singleton]
        constructor
        · rintro rfl
          exact hword.symm
        · intro hname
          exact List.inj_on_of_nodup_map hdistinct he hf (hname.symm.trans hword.symm)
      · intro ret
        rw [handled_some ret hfirst]
        exact le_rfl
      · intro ret
        rw [handled_some ret hfirst]
        refine iff_of_false ?_ fun hne => hne f hf hword
        split
        · exact show bytes "OK" ≠ bytes "UNKNOWNCMD" by decide +kernel
        · exact show bytes "UNKNOWN_ERR" ≠ bytes "UNKNOWNCMD" by decide +kernel

/-- Whatever names the table has and in which order: a datagram is taken for the
command its first word names unless a name it begins with obscures that. -/
theorem wholeWord_iff (tbl : List (Bytes × H)) (hdistinct : (tbl.map (·.1)).Nodup)
    (buf : Bytes) : WholeWord tbl buf ↔ Unobscured tbl buf := by
  constructor
  · exact WholeWord.unobscured
  · exact Unobscured.wholeWord hdistinct

/-- In every order of the entries: then no name but the first word may be in
the way at all. -/
theorem wholeWord_perm (hdistinct : (tbl.map (·.1)).Nodup) :
    (∀ tbl', tbl'.Perm tbl → WholeWord tbl' buf) ↔
      ∀ e ∈ tbl, e.1 <+: buf → e.1 = firstWord buf := by
  constructor
  · intro h e he hprefix
    obtain ⟨pre, post, rfl⟩ := List.append_of_mem he
    have hfront := (h (e :: (pre ++ post)) List.perm_middle.symm).unobscured
    rcases hfront [] e _ rfl hprefix with hword | ⟨f, hf, -⟩
    · exact hword
    · exact absurd hf List.not_mem_nil
  · intro h tbl' hperm
    refine Unobscured.wholeWord ((hperm.map _).nodup_iff.mpr hdistinct) ?_
    rintro pre e post rfl hprefix
    exact Or.inl (h e (hperm.mem_iff.mp (by simp)) hprefix)

end Recognise

/-- The shipped commands as they are meant to be given. -/
theorem wholeWord_sendtest :
    WholeWord adlcmdTbl (bytes "sendtest now") ↔ Unobscured adlcmdTbl (bytes "sendtest now") :=
  wholeWord_iff adlcmdTbl (by decide +kernel) (bytes "sendtest now")

/-- A word that merely begins like a command stops the daemon. -/
theorem stopper_stops :
    ¬ WholeWord adlcmdTbl (bytes "stopper") ∧
      .registerTimeout .eloopSetExit ∈
        (final (admlinkCtrlIfaceReceive (some (bytes "stopper")) boot)).trace := by
  constructor
  · intro h
    have hword : firstWord (bytes "stopper") = bytes "stop" :=
      (h.runs (fun _ => true) (bytes "stop", .stop) (by decide +kernel)).mp (by decide +kernel)
    exact absurd hword (by decide +kernel)
  · decide +kernel

end Admlink
