import Mathlib.Data.List.Basic

/-!
# Cutting a stream into frames

A decoder takes a frame off the front of what has arrived, or says that there
is none yet. `Cuts` is what it makes of a stream that arrives as a whole. A
decoder that is not misled by what comes later makes the same of a stream that
arrives in pieces.
-/

namespace Framing

variable {α β : Type}

/-- The frame at the front and how many elements it takes. -/
abbrev Decoder (α β : Type) := List α → Option (β × Nat)

/-- A frame lies in what has arrived, and stays the same when more arrives. -/
structure Stable (f : Decoder α β) : Prop where
  bound : ∀ {s b n}, f s = some (b, n) → n ≤ s.length
  more : ∀ {s b n} (t : List α), f s = some (b, n) → f (s ++ t) = some (b, n)

/-- The stream begins with these frames and `rest` is left of it. -/
inductive Cuts (f : Decoder α β) : List α → List β → List α → Prop
  | nil (s : List α) : Cuts f s [] s
  | cons {s rest : List α} {b : β} {bs : List β} {n : Nat} :
      f s = some (b, n) → Cuts f (s.drop n) bs rest → Cuts f s (b :: bs) rest

section Cuts

variable {f : Decoder α β} {s t rest rest' : List α} {bs bs' : List β}

theorem Cuts.single {b : β} {n : Nat} (h : f s = some (b, n)) : Cuts f s [b] (s.drop n) :=
  .cons h (.nil _)

theorem Cuts.append (h : Cuts f s bs t) (h' : Cuts f t bs' rest) : Cuts f s (bs ++ bs') rest := by
  induction h with
  | nil _ => exact h'
  | cons hf _ ih => exact .cons hf (ih h')

/-- What comes later is left over. -/
theorem Cuts.more (hf : Stable f) (h : Cuts f s bs rest) (t : List α) :
    Cuts f (s ++ t) bs (rest ++ t) := by
  induction h with
  | nil s => exact .nil _
  | cons hs _ ih =>
      refine .cons (hf.more t hs) ?_
      rwa [List.drop_append_of_le_length (hf.bound hs)]

/-- A piece arrives, and the decoder goes on with what it has. -/
theorem Cuts.feed (hf : Stable f) (h : Cuts f s bs rest) (h' : Cuts f (rest ++ t) bs' rest') :
    Cuts f (s ++ t) (bs ++ bs') rest' :=
  (h.more hf t).append h'

/-- Where no frame is left, there was only one way to cut. -/
theorem Cuts.unique (h : Cuts f s bs rest) (hend : f rest = none) (h' : Cuts f s bs' rest')
    (hend' : f rest' = none) : bs = bs' ∧ rest = rest' := by
  induction h generalizing bs' with
  | nil s =>
      cases h' with
      | nil => exact ⟨rfl, rfl⟩
      | cons hs _ =>
          -- the other way goes on where no frame is left
          rw [hend] at hs
          cases hs
  | cons hs _ ih =>
      cases h' with
      | nil =>
          rw [hend'] at hs
          cases hs
      | cons hs' hrest =>
          rw [hs] at hs'
          cases hs'
          obtain ⟨rfl, rfl⟩ := ih hend hrest
          exact ⟨rfl, rfl⟩

end Cuts

end Framing
