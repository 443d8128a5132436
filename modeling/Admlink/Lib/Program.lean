import Mathlib.Order.Defs.Unbundled

/-!
# Programs over a state with two exits

`EStateM ε σ α` is a program that either returns a value or stops with an
exit `ε`, and leaves a state behind in both cases. Two judgments are used:

* `Triple P x Q E` — partial correctness with one postcondition for each exit;
* `Within R S x` — a return leaves a state `R`-related to the initial one, a
  stop an `S`-related one. A frame condition is an equality of projections.

Nothing here depends on what the state is.
-/

namespace Program

variable {ε σ α β : Type}

/-- The state a program leaves behind, however it ends. -/
def final : EStateM.Result ε σ α → σ
  | .ok _ s => s
  | .error _ s => s

@[simp] theorem final_ok (a : α) (s : σ) :
    final (.ok a s : EStateM.Result ε σ α) = s := rfl

@[simp] theorem final_error (e : ε) (s : σ) :
    final (.error e s : EStateM.Result ε σ α) = s := rfl

/-- It ended with a value. -/
def Returned : EStateM.Result ε σ α → Prop
  | .ok _ _ => True
  | .error _ _ => False

instance (r : EStateM.Result ε σ α) : Decidable (Returned r) :=
  match r with
  | .ok _ _ => isTrue trivial
  | .error _ _ => isFalse id

/-! ## One-step reductions -/

theorem bind_apply (x : EStateM ε σ α) (f : α → EStateM ε σ β) (s : σ) :
    (x >>= f) s = match x s with
      | .ok a s' => f a s'
      | .error e s' => .error e s' := rfl

theorem bind_of_ok {x : EStateM ε σ α} {f : α → EStateM ε σ β} {s s' : σ} {a : α}
    (h : x s = .ok a s') : (x >>= f) s = f a s' := by
  rw [bind_apply, h]

theorem bind_of_error {x : EStateM ε σ α} {f : α → EStateM ε σ β} {s s' : σ} {e : ε}
    (h : x s = .error e s') : (x >>= f) s = .error e s' := by
  rw [bind_apply, h]

/-- Inversion of a bind that returned. -/
theorem bind_ok {x : EStateM ε σ α} {f : α → EStateM ε σ β} {s t : σ} {b : β}
    (h : (x >>= f) s = .ok b t) : ∃ a s', x s = .ok a s' ∧ f a s' = .ok b t := by
  rw [bind_apply] at h
  cases hx : x s with
  | ok a s' => rw [hx] at h; exact ⟨a, s', rfl, h⟩
  | error e s' => rw [hx] at h; cases h

@[simp] theorem get_apply (s : σ) : (get : EStateM ε σ σ) s = .ok s s := rfl

@[simp] theorem modify_apply (f : σ → σ) (s : σ) :
    (modify f : EStateM ε σ PUnit) s = .ok ⟨⟩ (f s) := rfl

@[simp] theorem throw_apply (e : ε) (s : σ) :
    (throw e : EStateM ε σ α) s = .error e s := rfl

@[simp] theorem pure_apply (a : α) (s : σ) :
    (pure a : EStateM ε σ α) s = .ok a s := rfl

/-- The same for a computation without state. -/
theorem except_bind_ok {x : Except ε α} {f : α → Except ε β} {b : β}
    (h : (x >>= f) = .ok b) : ∃ a, x = .ok a ∧ f a = .ok b := by
  cases x with
  | ok a => exact ⟨a, rfl, h⟩
  | error e => cases h

theorem except_ok_bind (a : α) (f : α → Except ε β) : (Except.ok a >>= f) = f a := rfl

/-! ## How one execution ends -/

/-- A return satisfies `Q`, a stop satisfies `E`. -/
def Ends (Q : α → σ → Prop) (E : ε → σ → Prop) : EStateM.Result ε σ α → Prop
  | .ok a s => Q a s
  | .error e s => E e s

section Ends

variable {Q Q' : α → σ → Prop} {E E' : ε → σ → Prop} {r : EStateM.Result ε σ α}

theorem Ends.mono (h : Ends Q E r) (hQ : ∀ a s, Q a s → Q' a s) (hE : ∀ e s, E e s → E' e s) :
    Ends Q' E' r := by
  cases r with
  | ok a s => exact hQ a s h
  | error e s => exact hE e s h

theorem Ends.and (h : Ends Q E r) (h' : Ends Q' E' r) :
    Ends (fun a s => Q a s ∧ Q' a s) (fun e s => E e s ∧ E' e s) r := by
  cases r with
  | ok a s => exact ⟨h, h'⟩
  | error e s => exact ⟨h, h'⟩

/-- What holds at both exits holds of the state left behind. -/
theorem Ends.final {P : σ → Prop} (h : Ends (fun _ => P) (fun _ => P) r) : P (final r) := by
  cases r with
  | ok a s => exact h
  | error e s => exact h

theorem Ends.of_final {P : σ → Prop} (h : P (Program.final r)) :
    Ends (fun _ => P) (fun _ => P) r := by
  cases r with
  | ok a s => exact h
  | error e s => exact h

/-- Sequencing: the rest runs from where the first part returned. -/
theorem Ends.bind {x : EStateM ε σ α} {f : α → EStateM ε σ β} {s : σ}
    {R : β → σ → Prop} (hx : Ends Q E (x s))
    (hf : ∀ a t, x s = .ok a t → Q a t → Ends R E' (f a t)) (hE : ∀ e t, E e t → E' e t) :
    Ends R E' ((x >>= f) s) := by
  rw [bind_apply]
  cases hr : x s with
  | ok a t =>
      rw [hr] at hx
      exact hf a t hr hx
  | error e t =>
      rw [hr] at hx
      exact hE e t hx

end Ends

/-! ## Partial correctness -/

/-- From a state satisfying `P`, a return satisfies `Q` and a stop satisfies `E`. -/
def Triple (P : σ → Prop) (x : EStateM ε σ α) (Q : α → σ → Prop)
    (E : ε → σ → Prop) : Prop := ∀ s, P s → Ends Q E (x s)

section Triple

variable {P P' : σ → Prop} {Q Q' : α → σ → Prop} {E E' : ε → σ → Prop}

theorem Triple.of_ok {x : EStateM ε σ α} (h : Triple P x Q E) {s s' : σ} {a : α}
    (hp : P s) (hx : x s = .ok a s') : Q a s' := by
  have := h s hp
  rwa [hx] at this

theorem Triple.of_error {x : EStateM ε σ α} (h : Triple P x Q E) {s s' : σ} {e : ε}
    (hp : P s) (hx : x s = .error e s') : E e s' := by
  have := h s hp
  rwa [hx] at this

theorem Triple.pure {a : α} (h : ∀ s, P s → Q a s) :
    Triple P (pure a : EStateM ε σ α) Q E := fun s hp => h s hp

theorem Triple.throw {e : ε} (h : ∀ s, P s → E e s) :
    Triple P (throw e : EStateM ε σ α) Q E := fun s hp => h s hp

theorem Triple.modify {f : σ → σ} {Q : PUnit → σ → Prop} (h : ∀ s, P s → Q ⟨⟩ (f s)) :
    Triple P (modify f : EStateM ε σ PUnit) Q E := fun s hp => h s hp

theorem Triple.bind {x : EStateM ε σ α} {f : α → EStateM ε σ β} {R : β → σ → Prop}
    (hx : Triple P x Q E) (hf : ∀ a, Triple (Q a) (f a) R E) :
    Triple P (x >>= f) R E := by
  intro s hp
  rw [bind_apply]
  have h := hx s hp
  cases hr : x s with
  | ok a s' => rw [hr] at h; exact hf a s' h
  | error e s' => rw [hr] at h; exact h

theorem Triple.strengthen {x : EStateM ε σ α} (h : Triple P x Q E) (hP : ∀ s, P' s → P s) :
    Triple P' x Q E := fun s hp => h s (hP s hp)

theorem Triple.weaken {x : EStateM ε σ α} (h : Triple P x Q E) (hQ : ∀ a s, Q a s → Q' a s)
    (hE : ∀ e s, E e s → E' e s) : Triple P x Q' E' := fun s hp => (h s hp).mono hQ hE

theorem Triple.ite {c : Prop} [Decidable c] {x y : EStateM ε σ α}
    (ht : c → Triple P x Q E) (hf : ¬ c → Triple P y Q E) :
    Triple P (if c then x else y) Q E := by
  by_cases h : c
  · rw [if_pos h]; exact ht h
  · rw [if_neg h]; exact hf h

end Triple

/-! ## Relating the final state to the initial one -/

/-- A return leaves a state `R`-related to the initial one, a stop leaves an
`S`-related one. -/
def Within (R S : σ → σ → Prop) (x : EStateM ε σ α) : Prop :=
  ∀ s, Ends (fun _ => R s) (fun _ => S s) (x s)

/-- What the rules need: returns compose, and a stop may come at once or after
some of them. -/
class Exits (R S : σ → σ → Prop) : Prop where
  refl : ∀ s, R s s
  trans : ∀ {s t u}, R s t → R t u → R s u
  stop : ∀ s, S s s
  after : ∀ {s t u}, R s t → S t u → S s u

instance (R : σ → σ → Prop) [IsPreorder σ R] : Exits R R where
  refl := refl_of R
  trans := trans_of R
  stop := refl_of R
  after := trans_of R

/-- What holds before holds after. -/
def Preserves (P : σ → Prop) (s t : σ) : Prop := P s → P t

instance (P : σ → Prop) : Exits (Preserves P) (fun _ _ => True) where
  refl _ := id
  trans h h' := h' ∘ h
  stop _ := trivial
  after _ _ := trivial

section Within

variable {R R' S S' : σ → σ → Prop}

theorem Within.of_ok {x : EStateM ε σ α} (h : Within R S x) {s s' : σ} {a : α}
    (hx : x s = .ok a s') : R s s' := by
  have := h s
  rwa [hx] at this

theorem Within.mono {x : EStateM ε σ α} (h : Within R S x) (hR : ∀ s t, R s t → R' s t)
    (hS : ∀ s t, S s t → S' s t) : Within R' S' x := by
  intro s
  have := h s
  cases hr : x s with
  | ok a t => rw [hr] at this; exact hR _ _ this
  | error e t => rw [hr] at this; exact hS _ _ this

/-- Reading the state first: the rest may depend on what it reads. -/
theorem Within.get_bind {f : σ → EStateM ε σ α}
    (h : ∀ s, Ends (fun _ => R s) (fun _ => S s) (f s s)) : Within R S (get >>= f) := h

theorem Within.modify {f : σ → σ} (h : ∀ s, R s (f s)) :
    Within R S (modify f : EStateM ε σ PUnit) := h

theorem Within.ite {c : Prop} [Decidable c] {x y : EStateM ε σ α}
    (hx : Within R S x) (hy : Within R S y) : Within R S (if c then x else y) := by
  split
  · exact hx
  · exact hy

variable [Exits R S]

theorem Within.pure (a : α) : Within R S (pure a : EStateM ε σ α) :=
  fun s => Exits.refl (S := S) s

theorem Within.throw (e : ε) : Within R S (throw e : EStateM ε σ α) :=
  fun s => Exits.stop (R := R) s

theorem Within.get : Within R S (get : EStateM ε σ σ) := fun s => Exits.refl (S := S) s

theorem Within.bind {x : EStateM ε σ α} {f : α → EStateM ε σ β}
    (hx : Within R S x) (hf : ∀ a, Within R S (f a)) : Within R S (x >>= f) := by
  intro s
  rw [bind_apply]
  have h := hx s
  cases hr : x s with
  | error e t => rw [hr] at h; exact h
  | ok a t =>
      rw [hr] at h
      have hrest := hf a t
      dsimp only
      cases hq : f a t with
      | ok b u => rw [hq] at hrest; exact Exits.trans (S := S) h hrest
      | error e u => rw [hq] at hrest; exact Exits.after h hrest

/-- What a program is related to stays related to where the program ends. -/
theorem Within.from {x : EStateM ε σ α} (h : Within R S x) (s₀ : σ) :
    Triple (R s₀) x (fun _ => R s₀) (fun _ => S s₀) := by
  intro s hs
  have := h s
  cases hr : x s with
  | ok a t => rw [hr] at this; exact Exits.trans (S := S) hs this
  | error e t => rw [hr] at this; exact Exits.after hs this

/-- A property that survives, as a triple. -/
theorem Within.triple {P : σ → Prop} {x : EStateM ε σ α}
    (h : Within (Preserves P) (fun _ _ => True) x) : Triple P x (fun _ => P) (fun _ _ => True) := by
  intro s hs
  have hx := h s
  cases hr : x s with
  | ok a t =>
      rw [hr] at hx
      exact hx hs
  | error e t => trivial

end Within

end Program
