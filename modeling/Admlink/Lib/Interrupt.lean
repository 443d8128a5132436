import Admlink.Lib.Runs

/-!
# Programs a signal can interrupt

A `Code` is a program cut into its atomic steps. A step reads and changes the
state, or has to wait; what the outside world decides enters as a number. A
`Machine` runs a program, and between any two steps a signal may take it to the
signal's handler. A handler never returns, so the program it interrupts is not
continued. A signal is blocked while its own handler runs.

`Safe I Q c s` says that `c`, started in `s` and not interrupted, keeps `I` up to
its end and ends in `Q`.
-/

namespace Interrupt

open Runs

inductive Code (σ α : Type)
  | ret (a : α)
  /-- The continuation gets the state before the step. -/
  | act (f : σ → Option σ) (k : σ → Code σ α)
  | ask (k : Nat → Code σ α)
  | exit

variable {σ α β ι : Type}

namespace Code

protected def bind : Code σ α → (α → Code σ β) → Code σ β
  | .ret a, g => g a
  | .act f k, g => .act f fun s => (k s).bind g
  | .ask k, g => .ask fun n => (k n).bind g
  | .exit, _ => .exit

instance : Monad (Code σ) where
  pure := .ret
  bind := Code.bind

instance : LawfulMonad (Code σ) := by
  refine .mk' _ (fun c => ?_) (fun _ _ => rfl) fun c f g => ?_
  · change c.bind .ret = c
    induction c with
    | ret a => rfl
    | act f k ih => exact congrArg (Code.act f) (funext ih)
    | ask k ih => exact congrArg Code.ask (funext ih)
    | exit => rfl
  · change (c.bind f).bind g = c.bind fun a => (f a).bind g
    induction c with
    | ret a => rfl
    | act f' k ih => exact congrArg (Code.act f') (funext ih)
    | ask k ih => exact congrArg Code.ask (funext ih)
    | exit => rfl

/-- Look at the state. -/
def read : Code σ σ := .act some .ret

def update (f : σ → σ) : Code σ Unit := .act (fun s => some (f s)) fun _ => .ret ()

/-- Wait for `p`, then change the state. -/
def await (p : σ → Bool) (f : σ → σ) : Code σ Unit :=
  .act (fun s => if p s then some (f s) else none) fun _ => .ret ()

/-- Change the state and get what `g` finds before. -/
def fetch (f : σ → σ) (g : σ → α) : Code σ α := .act (fun s => some (f s)) fun s => .ret (g s)

/-- An answer from outside. -/
def answer : Code σ Nat := .ask .ret

/-- A yes or no from outside. -/
def flip : Code σ Bool := .ask fun n => .ret (n = 0)

def when (b : Bool) (c : Code σ Unit) : Code σ Unit := if b then c else pure ()

/-- Nothing more is seen of the program. -/
def stuck : Code σ α := .act (fun _ => none) fun _ => .exit

/-- Up to `n` rounds of `body`, which goes on with `inl` and leaves with `inr`. -/
def rounds (body : β → Code σ (β ⊕ α)) : Nat → β → Code σ α
  | 0, _ => stuck
  | n + 1, b => do
      match ← body b with
      | .inl b => rounds body n b
      | .inr a => pure a

/-- A loop. What is seen of it are the first rounds, however many. -/
def loop (body : β → Code σ (β ⊕ α)) (b : β) : Code σ α := do
  rounds body (← answer) b

/-! ## What a program keeps -/

section Safe

variable (I : σ → Prop)

def Safe (Q : α → σ → Prop) : Code σ α → σ → Prop
  | .ret a, s => Q a s
  | .act f k, s => I s ∧ ∀ t, f s = some t → (k s).Safe Q t
  | .ask k, s => I s ∧ ∀ n, (k n).Safe Q s
  | .exit, s => I s

variable {I} {Q : α → σ → Prop} {s : σ}

@[simp] theorem safe_pure {a : α} : Safe I Q (pure a) s ↔ Q a s := Iff.rfl

@[simp] theorem safe_exit : Safe I Q .exit s ↔ I s := Iff.rfl

@[simp] theorem safe_read {Q : σ → σ → Prop} : Safe I Q read s ↔ I s ∧ Q s s := by
  constructor
  · rintro ⟨hI, h⟩
    exact ⟨hI, h s rfl⟩
  · rintro ⟨hI, h⟩
    refine ⟨hI, fun t ht => ?_⟩
    cases ht
    exact h

@[simp] theorem safe_update {Q : Unit → σ → Prop} {f : σ → σ} :
    Safe I Q (update f) s ↔ I s ∧ Q () (f s) := by
  constructor
  · rintro ⟨hI, h⟩
    exact ⟨hI, h _ rfl⟩
  · rintro ⟨hI, h⟩
    refine ⟨hI, fun t ht => ?_⟩
    cases ht
    exact h

@[simp] theorem safe_await {Q : Unit → σ → Prop} {p : σ → Bool} {f : σ → σ} :
    Safe I Q (await p f) s ↔ I s ∧ (p s = true → Q () (f s)) := by
  constructor
  · rintro ⟨hI, h⟩
    exact ⟨hI, fun hp => h _ (if_pos hp)⟩
  · rintro ⟨hI, h⟩
    refine ⟨hI, fun t ht => ?_⟩
    change (if p s then some (f s) else none) = some t at ht
    split at ht
    · next hp =>
      cases ht
      exact h hp
    · cases ht

@[simp] theorem safe_fetch {f : σ → σ} {g : σ → α} :
    Safe I Q (fetch f g) s ↔ I s ∧ Q (g s) (f s) := by
  constructor
  · rintro ⟨hI, h⟩
    exact ⟨hI, h _ rfl⟩
  · rintro ⟨hI, h⟩
    refine ⟨hI, fun t ht => ?_⟩
    cases ht
    exact h

@[simp] theorem safe_flip {Q : Bool → σ → Prop} : Safe I Q flip s ↔ I s ∧ ∀ b, Q b s := by
  constructor
  · rintro ⟨hI, h⟩
    refine ⟨hI, fun b => ?_⟩
    cases b with
    | true => exact h 0
    | false => exact h 1
  · rintro ⟨hI, h⟩
    exact ⟨hI, fun n => h _⟩

@[simp] theorem safe_answer {Q : Nat → σ → Prop} : Safe I Q answer s ↔ I s ∧ ∀ n, Q n s := Iff.rfl

@[simp] theorem safe_stuck : Safe I Q stuck s ↔ I s := by
  constructor
  · exact fun h => h.1
  · refine fun hI => ⟨hI, fun t ht => ?_⟩
    cases ht

@[simp] theorem safe_bind {Q : β → σ → Prop} {c : Code σ α} {g : α → Code σ β} :
    Safe I Q (c >>= g) s ↔ Safe I (fun a => Safe I Q (g a)) c s := by
  change Safe I Q (c.bind g) s ↔ _
  induction c generalizing s with
  | ret a => rfl
  | act f k ih =>
      exact and_congr_right fun _ => forall_congr' fun t => imp_congr_right fun _ => ih s
  | ask k ih => exact and_congr_right fun _ => forall_congr' fun n => ih n
  | exit => rfl

theorem Safe.mono {I' : σ → Prop} {Q' : α → σ → Prop} {c : Code σ α} (hI : ∀ s, I s → I' s)
    (hQ : ∀ a s, Q a s → Q' a s) (h : Safe I Q c s) : Safe I' Q' c s := by
  induction c generalizing s with
  | ret a => exact hQ a s h
  | act f k ih => exact ⟨hI s h.1, fun t ht => ih s (h.2 t ht)⟩
  | ask k ih => exact ⟨hI s h.1, fun n => ih n (h.2 n)⟩
  | exit => exact hI s h

/-- One program after the other. -/
theorem Safe.bind {P : α → σ → Prop} {Q : β → σ → Prop} {c : Code σ α} {g : α → Code σ β}
    (h : Safe I P c s) (hg : ∀ a t, P a t → Safe I Q (g a) t) : Safe I Q (c >>= g) s :=
  safe_bind.mpr (h.mono (fun _ => id) hg)

theorem Safe.look {Q : α → σ → Prop} {g : σ → Code σ α} (hI : I s) (hg : Safe I Q (g s) s) :
    Safe I Q (read >>= g) s :=
  safe_bind.mpr (safe_read.mpr ⟨hI, hg⟩)

theorem Safe.when {Q : Unit → σ → Prop} {b : Bool} {c : Code σ Unit}
    (hc : b = true → Safe I Q c s) (h : b = false → Q () s) : Safe I Q (when b c) s := by
  cases b with
  | true => exact hc rfl
  | false => exact h rfl

/-- Loop rule: `J` holds before every round. -/
theorem safe_loop {body : β → Code σ (β ⊕ α)} {J : β → σ → Prop} (hJ : ∀ b s, J b s → I s)
    (hbody : ∀ b s, J b s → Safe I (fun r t => Sum.elim (J · t) (Q · t) r) (body b) s) {b : β}
    (h : J b s) : Safe I Q (loop body b) s := by
  have hrounds : ∀ n b s, J b s → Safe I Q (rounds body n b) s := by
    intro n
    induction n with
    | zero => exact fun b s h => safe_stuck.mpr (hJ b s h)
    | succ n ih =>
        intro b s h
        rw [rounds, safe_bind]
        refine (hbody b s h).mono (fun _ => id) fun r t hr => ?_
        cases r with
        | inl b => exact ih b t hr
        | inr a => exact hr
  exact safe_bind.mpr ⟨hJ b s h, fun n => hrounds n b s h⟩

end Safe

/-! ## Programs that keep a condition -/

/-- From `J`, always `J`. -/
def Keeps (J : σ → Prop) (c : Code σ α) : Prop :=
  ∀ s, J s → Safe J (fun _ => J) c s

section Keeps

variable {J : σ → Prop}

theorem Keeps.pure (a : α) : Keeps J (Pure.pure a : Code σ α) := fun _ => id

theorem Keeps.bind {c : Code σ α} {g : α → Code σ β} (hc : Keeps J c) (hg : ∀ a, Keeps J (g a)) :
    Keeps J (c >>= g) :=
  fun s h => safe_bind.mpr ((hc s h).mono (fun _ => id) fun a => hg a)

theorem Keeps.flip : Keeps J (flip : Code σ Bool) := fun _ h => safe_flip.mpr ⟨h, fun _ => h⟩

theorem Keeps.update {f : σ → σ} (hf : ∀ s, J s → J (f s)) : Keeps J (update f) :=
  fun s h => safe_update.mpr ⟨h, hf s h⟩

theorem Keeps.await {p : σ → Bool} {f : σ → σ} (hf : ∀ s, J s → J (f s)) : Keeps J (await p f) :=
  fun s h => safe_await.mpr ⟨h, fun _ => hf s h⟩

theorem Keeps.ite {p : Prop} [Decidable p] {c d : Code σ α} (hc : Keeps J c) (hd : Keeps J d) :
    Keeps J (if p then c else d) := by
  split
  · exact hc
  · exact hd

theorem Keeps.when {b : Bool} {c : Code σ Unit} (hc : Keeps J c) : Keeps J (when b c) :=
  .ite hc (.pure ())

theorem Keeps.loop {body : β → Code σ (β ⊕ α)} (hbody : ∀ b, Keeps J (body b)) (b : β) :
    Keeps J (loop body b) := by
  intro s h
  refine safe_loop (J := fun _ => J) (fun _ _ => id) (fun b s h => ?_) h
  refine (hbody b s h).mono (fun _ => id) fun r t ht => ?_
  cases r <;> exact ht

end Keeps

/-! ## How a program may return -/

/-- With some answers, and not interrupted, the program started in `s` returns
`a` in `t`. -/
def Returns : Code σ α → σ → α → σ → Prop
  | .ret a, s, b, t => b = a ∧ t = s
  | .act f k, s, b, t => ∃ u, f s = some u ∧ (k s).Returns u b t
  | .ask k, s, b, t => ∃ n, (k n).Returns s b t
  | .exit, _, _, _ => False

section Returns

variable {s t u : σ}

theorem returns_pure {a : α} : Returns (pure a : Code σ α) s a s := ⟨rfl, rfl⟩

theorem returns_read : Returns read s s s := ⟨s, rfl, rfl, rfl⟩

theorem returns_update {f : σ → σ} : Returns (update f) s () (f s) := ⟨f s, rfl, rfl, rfl⟩

theorem returns_await {p : σ → Bool} {f : σ → σ} (h : p s = true) :
    Returns (await p f) s () (f s) := ⟨f s, if_pos h, rfl, rfl⟩

theorem returns_fetch {f : σ → σ} {g : σ → α} : Returns (fetch f g) s (g s) (f s) :=
  ⟨f s, rfl, rfl, rfl⟩

theorem returns_answer (n : Nat) : Returns (answer : Code σ Nat) s n s := ⟨n, rfl, rfl⟩

theorem returns_flip (b : Bool) : Returns (flip : Code σ Bool) s b s := by
  cases b with
  | true => exact ⟨0, rfl, rfl⟩
  | false => exact ⟨1, rfl, rfl⟩

/-- One program after the other. -/
theorem Returns.bind {c : Code σ α} {g : α → Code σ β} {a : α} {b : β} (h : Returns c s a u)
    (hg : Returns (g a) u b t) : Returns (c >>= g) s b t := by
  change (c.bind g).Returns s b t
  induction c generalizing s with
  | ret a' =>
      obtain ⟨rfl, rfl⟩ := h
      exact hg
  | act f k ih =>
      obtain ⟨v, hf, h⟩ := h
      exact ⟨v, hf, ih s h⟩
  | ask k ih =>
      obtain ⟨n, h⟩ := h
      exact ⟨n, ih n h⟩
  | exit => exact h.elim

section Loop

variable {body : β → Code σ (β ⊕ α)} {b b' : β} {a : α} {n : Nat}

theorem returns_rounds_next (h : Returns (body b) s (.inl b') u)
    (hrest : Returns (rounds body n b') u a t) : Returns (rounds body (n + 1) b) s a t := by
  rw [rounds]
  exact h.bind hrest

theorem returns_rounds_last (h : Returns (body b) s (.inr a) t) :
    Returns (rounds body (n + 1) b) s a t := by
  rw [rounds]
  exact h.bind returns_pure

/-- A loop returns once enough of its rounds are seen. -/
theorem returns_loop (h : Returns (rounds body n b) s a t) : Returns (loop body b) s a t :=
  (returns_answer n).bind h

end Loop

end Returns

/-- The program has called `exit`. -/
def exited : Code σ α → Bool
  | .exit => true
  | _ => false

end Code

/-! ## Machines -/

structure Machine (σ ι : Type) where
  state : σ
  /-- The signals whose handlers run. -/
  handling : List ι
  code : Code σ Empty

inductive Input (ι : Type)
  | next (answer : Nat)
  | signal (i : ι)

namespace Machine

/-- One step. It fails where nothing happens: the program waits or has ended, or
the signal is blocked. -/
def step [DecidableEq ι] (handler : ι → Code σ Empty) : Input ι → EStateM Unit (Machine σ ι) Unit
  | .next n => fun m =>
      match m.code with
      | .ret e => nomatch e
      | .act f k =>
          match f m.state with
          | none => .error () m
          | some t => .ok () { m with state := t, code := k m.state }
      | .ask k => .ok () { m with code := k n }
      | .exit => .error () m
  | .signal i => fun m =>
      if i ∈ m.handling ∨ m.code.exited then .error () m
      else .ok () { m with handling := i :: m.handling, code := handler i }

/-- The program `main` is about to start. -/
def Starts (Init : σ → Prop) (main : Code σ Empty) (m : Machine σ ι) : Prop :=
  Init m.state ∧ m.handling = [] ∧ m.code = main

/-- Signals arrive only in states that meet `C`. -/
def Delivered (C : σ → Prop) (m : Machine σ ι) : Input ι → Prop
  | .next _ => True
  | .signal _ => C m.state

instance (C : σ → Prop) [DecidablePred C] (m : Machine σ ι) (i : Input ι) :
    Decidable (Delivered C m i) := by
  cases i <;> unfold Delivered <;> infer_instance

variable [DecidableEq ι] {handler : ι → Code σ Empty} {main : Code σ Empty} {I C Init : σ → Prop}

/-- What may return is run to its end by a machine that gets no signal. -/
theorem reaches_returns {α : Type} {c : Code σ α} {g : α → Code σ Empty} {s t : σ} {a : α}
    {handling : List ι} (h : c.Returns s a t)
    (hm : Reaches (step handler) (Starts Init main) (Delivered C) ⟨s, handling, c >>= g⟩) :
    Reaches (step handler) (Starts Init main) (Delivered C) ⟨t, handling, g a⟩ := by
  induction c generalizing s with
  | ret a' =>
      obtain ⟨rfl, rfl⟩ := h
      exact hm
  | act f k ih =>
      obtain ⟨u, hf, h⟩ := h
      refine ih s h (.next (i := .next 0) hm trivial ?_)
      change (match f s with
        | none => _
        | some t => _) = _
      rw [hf]
      rfl
  | ask k ih =>
      obtain ⟨n, h⟩ := h
      exact ih n h (.next (i := .next n) hm trivial rfl)
  | exit => exact h.elim

theorem safe_invariant {Q : Empty → σ → Prop} {c : Code σ Empty} {s : σ} (h : c.Safe I Q s) :
    I s := by
  cases c with
  | ret e => exact e.elim
  | act f k => exact h.1
  | ask k => exact h.1
  | exit => exact h

/-- What the program keeps, and every handler from where its signal may arrive,
holds however the signals come. -/
theorem invariant (hmain : ∀ s, Init s → main.Safe I (fun _ _ => True) s)
    (hhandler : ∀ i s, I s → C s → (handler i).Safe I (fun _ _ => True) s) {m : Machine σ ι}
    (hm : Reaches (step handler) (Starts Init main) (Delivered C) m) : I m.state := by
  suffices h : m.code.Safe I (fun _ _ => True) m.state from safe_invariant h
  refine Reaches.invariant (I := fun m => m.code.Safe I (fun _ _ => True) m.state)
    (fun m h0 => ?_) (fun i m m' hm hc hs => ?_) hm
  · obtain ⟨hinit, -, hcode⟩ := h0
    rw [hcode]
    exact hmain _ hinit
  · obtain ⟨state, handling, code⟩ := m
    cases i with
    | next n =>
        cases code with
        | ret e => exact e.elim
        | act f k =>
            simp only [step] at hs
            cases ht : f state with
            | none =>
                rw [ht] at hs
                cases hs
            | some t =>
                rw [ht] at hs
                cases hs
                exact hm.2 t ht
        | ask k =>
            cases hs
            exact hm.2 n
        | exit => cases hs
    | signal i =>
        simp only [step] at hs
        split at hs
        · cases hs
        · cases hs
          exact hhandler i _ (safe_invariant hm) hc

end Machine

end Interrupt
