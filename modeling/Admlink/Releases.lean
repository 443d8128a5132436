import Admlink.Signals

/-!
# What is released, and how often

The timer list, the reader table, the BIOs and the control socket are each
released through a pointer. As long as no pointer is left to what is gone, the
daemon releases nothing twice, and neither does a `handle_stop` that comes then.
`eloop_destroy` leaves all its pointers behind, `close_conn` and
`admlink_ctrl_iface_deinit` leave theirs for one step.
-/

namespace Admlink.Signals

open Interrupt Code

/-! ## Pointers -/

namespace Mem

/-- A pointer to the resource is left. -/
def points (m : Mem) : Resource → Prop
  | .node n => n ∈ m.timeout.map Prod.fst
  | .readers r => m.readers = some r
  | .bio b => m.biofd .mqrecv = some b ∨ m.biofd .mqupld = some b
  | .ctrlSock sock => m.ctrl_sock = sock ∧ sock ≠ .none

instance (m : Mem) (r : Resource) : Decidable (m.points r) := by
  cases r <;> unfold points <;> infer_instance

def allocated (m : Mem) : Resource → Prop
  | .node n => n < m.nodes
  | .readers r => r < m.tables
  | .bio b => b < m.bios
  | .ctrlSock _ => True

theorem points_bio {m : Mem} {b : BioId} : m.points (.bio b) ↔ ∃ c, m.biofd c = some b := by
  constructor
  · rintro (h | h)
    · exact ⟨_, h⟩
    · exact ⟨_, h⟩
  · rintro ⟨c, h⟩
    cases c with
    | mqrecv => exact .inl h
    | mqupld => exact .inr h

end Mem

/-- What has been released is out of reach. -/
def NothingDangles (m : Mem) : Prop := ∀ r ∈ m.released, ¬ m.points r

instance : DecidablePred NothingDangles := fun m => by unfold NothingDangles; infer_instance

/-- Nothing is released twice, and two pointers are never to the same. -/
structure Sound (m : Mem) : Prop where
  released : m.released.Nodup
  was_allocated : ∀ r ∈ m.released, m.allocated r
  allocated : ∀ r, m.points r → m.allocated r
  timeout : (m.timeout.map Prod.fst).Nodup
  biofd : ∀ c d b, m.biofd c = some b → m.biofd d = some b → c = d

namespace Sound

variable {m t : Mem}

theorem release {r : Resource} (h : Sound m) (hr : r ∉ m.released) (halloc : m.allocated r) :
    Sound (m.release r) where
  released := List.nodup_cons.mpr ⟨hr, h.released⟩
  was_allocated := by
    rintro r' (_ | ⟨_, hr'⟩)
    · exact halloc
    · exact h.was_allocated _ hr'
  allocated := h.allocated
  timeout := h.timeout
  biofd := h.biofd

/-- Pointers may be cleared and more allocated. -/
theorem clear (h : Sound m) (hreleased : t.released = m.released)
    (halloc : ∀ r, m.allocated r → t.allocated r) (hpoints : ∀ r, t.points r → m.points r)
    (htimeout : t.timeout.Sublist m.timeout)
    (hbiofd : ∀ c b, t.biofd c = some b → m.biofd c = some b) : Sound t where
  released := hreleased ▸ h.released
  was_allocated r hr := halloc r (h.was_allocated r (hreleased ▸ hr))
  allocated r hr := halloc r (h.allocated r (hpoints r hr))
  timeout := h.timeout.sublist (htimeout.map _)
  biofd c d b hc hd := h.biofd c d b (hbiofd c b hc) (hbiofd d b hd)

end Sound

/-- Between two steps of the daemon proper. -/
structure Tidy (m : Mem) : Prop where
  sound : Sound m
  dangles : NothingDangles m

/-- After `eloop_destroy`: only the BIOs are still pointed to as they should. -/
structure Destroyed (m : Mem) : Prop where
  sound : Sound m
  dangles : ∀ b, .bio b ∈ m.released → ¬ m.points (.bio b)

/-- The timer taken off the list while its handler runs. -/
structure Running (n : Nat) (m : Mem) : Prop where
  tidy : Tidy m
  unlinked : ¬ m.points (.node n)
  unreleased : .node n ∉ m.released
  allocated : m.allocated (.node n)

/-! ## Conditions that survive a `close_conn` -/

structure Closes (J : Mem → Prop) : Prop extends Timers J where
  sound : ∀ m, J m → Sound m
  quiet : ∀ (m : Mem) mutex relocked status, J m → J { m with mutex, relocked, status }
  close : ∀ m c b, J m → m.biofd c = some b →
    Sound (m.release (.bio b)) ∧ J ((m.release (.bio b)).setBiofd c none)

/-! ## Timers -/

section Link

variable {m : Mem} {place n : Nat} {t : Timer}

theorem perm_link :
    ((m.link place n t).timeout.map Prod.fst).Perm (n :: m.timeout.map Prod.fst) :=
  (List.perm_insertIdx (n, t) m.timeout (Nat.min_le_right _ _)).map Prod.fst

theorem points_link {r : Resource} (h : (m.link place n t).points r) :
    r = .node n ∨ m.points r := by
  cases r with
  | node x =>
      rcases List.mem_cons.mp (perm_link.mem_iff.mp h) with rfl | h
      · exact .inl rfl
      · exact .inr h
  | readers | bio | ctrlSock => exact .inr h

end Link

namespace Sound

variable {m : Mem}

theorem malloc (h : Sound m) : Sound { m with nodes := m.nodes + 1 } := by
  refine h.clear rfl (fun r hr => ?_) (fun r => id) (List.Sublist.refl _) fun _ _ => id
  cases r with
  | node n => exact Nat.lt_succ_of_lt hr
  | readers | bio | ctrlSock => exact hr

/-- The node just allocated is neither linked nor freed. -/
theorem fresh (h : Sound m) : ¬ m.points (.node m.nodes) ∧ .node m.nodes ∉ m.released := by
  constructor
  · intro hpoints
    exact Nat.lt_irrefl _ (h.allocated _ hpoints)
  · intro hreleased
    exact Nat.lt_irrefl _ (h.was_allocated _ hreleased)

theorem link (h : Sound m) (place : Nat) (t : Timer) :
    Sound ({ m with nodes := m.nodes + 1 }.link place m.nodes t) where
  released := h.released
  was_allocated := h.malloc.was_allocated
  allocated r hr := by
    rcases points_link hr with rfl | hr
    · exact Nat.lt_succ_self _
    · exact h.malloc.allocated r hr
  timeout := perm_link.nodup_iff.mpr (List.nodup_cons.mpr ⟨h.fresh.1, h.timeout⟩)
  biofd := h.biofd

end Sound

theorem NothingDangles.link {m : Mem} (h : NothingDangles m) (hs : Sound m) (place : Nat)
    (t : Timer) : NothingDangles ({ m with nodes := m.nodes + 1 }.link place m.nodes t) := by
  intro r hr hpoints
  rcases points_link hpoints with rfl | hpoints
  · exact hs.fresh.2 hr
  · exact h r hr hpoints

/-! ## BIOs -/

section Close

variable {m : Mem} {c : Conn} {b : BioId}

theorem biofd_clear {d : Conn} (h : (m.setBiofd c none).biofd d = some b) :
    d ≠ c ∧ m.biofd d = some b := by
  by_cases hdc : d = c
  · subst hdc
    rw [Mem.biofd_setBiofd_same] at h
    cases h
  · rw [Mem.biofd_setBiofd_other m hdc] at h
    exact ⟨hdc, h⟩

theorem points_clear {r : Resource} (h : (m.setBiofd c none).points r) : m.points r := by
  cases r with
  | bio b =>
      obtain ⟨d, hd⟩ := Mem.points_bio.mp h
      exact Mem.points_bio.mpr ⟨d, (biofd_clear hd).2⟩
  | node | readers | ctrlSock => exact h

theorem Sound.clearBiofd (h : Sound m) : Sound (m.setBiofd c none) :=
  h.clear rfl (fun _ => id) (fun _ => points_clear) (List.Sublist.refl _)
    fun _ _ hd => (biofd_clear hd).2

/-- Once its pointer is cleared, nothing points to the BIO. -/
theorem Sound.not_points_bio (h : Sound m) (hc : m.biofd c = some b) :
    ¬ (m.setBiofd c none).points (.bio b) := by
  intro hpoints
  obtain ⟨d, hd⟩ := Mem.points_bio.mp hpoints
  obtain ⟨hdc, hd⟩ := biofd_clear hd
  exact hdc (h.biofd d c b hd hc)

end Close

/-! ## The three conditions -/

theorem Tidy.closes : Closes Tidy where
  sound _ h := h.sound
  malloc _ h := ⟨h.sound.malloc, h.dangles⟩
  link _ place t h := ⟨h.sound.link place t, h.dangles.link h.sound place t⟩
  quiet _ _ _ _ h := ⟨⟨h.sound.released, h.sound.was_allocated, h.sound.allocated,
    h.sound.timeout, h.sound.biofd⟩, h.dangles⟩
  close m c b h hc := by
    have hpoints : m.points (.bio b) := Mem.points_bio.mpr ⟨c, hc⟩
    have hsound : Sound (m.release (.bio b)) :=
      h.sound.release (fun hr => h.dangles _ hr hpoints) (h.sound.allocated _ hpoints)
    refine ⟨hsound, hsound.clearBiofd, ?_⟩
    rintro r (_ | ⟨_, hr⟩) hr'
    · exact h.sound.not_points_bio hc hr'
    · exact h.dangles r hr (points_clear hr')

theorem Destroyed.closes : Closes Destroyed where
  sound _ h := h.sound
  malloc _ h := ⟨h.sound.malloc, h.dangles⟩
  link _ place t h := ⟨h.sound.link place t, h.dangles⟩
  quiet _ _ _ _ h := ⟨⟨h.sound.released, h.sound.was_allocated, h.sound.allocated,
    h.sound.timeout, h.sound.biofd⟩, h.dangles⟩
  close m c b h hc := by
    have hpoints : m.points (.bio b) := Mem.points_bio.mpr ⟨c, hc⟩
    have hsound : Sound (m.release (.bio b)) :=
      h.sound.release (fun hr => h.dangles _ hr hpoints) (h.sound.allocated _ hpoints)
    refine ⟨hsound, hsound.clearBiofd, ?_⟩
    rintro b' (_ | ⟨_, hr⟩) hr'
    · exact h.sound.not_points_bio hc hr'
    · exact h.dangles b' hr (points_clear hr')

theorem Running.closes {n : Nat} : Closes (Running n) where
  sound _ h := h.tidy.sound
  malloc m h := ⟨Tidy.closes.malloc m h.tidy, h.unlinked, h.unreleased,
    Nat.lt_succ_of_lt h.allocated⟩
  link m place t h := by
    refine ⟨Tidy.closes.link m place t h.tidy, fun hn => ?_, h.unreleased,
      Nat.lt_succ_of_lt h.allocated⟩
    rcases points_link hn with hn | hn
    · cases hn
      exact Nat.lt_irrefl _ h.allocated
    · exact h.unlinked hn
  quiet m mutex relocked status h := ⟨Tidy.closes.quiet m mutex relocked status h.tidy,
    h.unlinked, h.unreleased, h.allocated⟩
  close m c b h hc := by
    obtain ⟨hsound, htidy⟩ := Tidy.closes.close m c b h.tidy hc
    refine ⟨hsound, htidy, fun hn => h.unlinked hn, ?_, h.allocated⟩
    rintro (_ | ⟨_, hr⟩)
    exact h.unreleased hr

/-! ## Calls that release nothing -/

section Keeps

variable {J : Mem → Prop}

namespace Closes

variable (hJ : Closes J)
include hJ

theorem lock (c : Conn) : Keeps J (lock c) := by
  refine .bind (.update fun m h => ?_) fun _ => .await fun m h => ?_
  · rw [Mem.callLock]
    split
    · exact hJ.quiet m _ _ _ h
    · exact h
  · exact hJ.quiet m _ _ _ h

theorem unlock (c : Conn) : Keeps J (unlock c) := .update fun m h => hJ.quiet m _ _ _ h

theorem tryPack (c : Conn) : Keeps J (tryPack c) :=
  .bind (hJ.lock c) fun _ => .bind .flip fun _ => .bind (hJ.unlock c) fun _ => .pure _

theorem mqttRecv (c : Conn) : Keeps J (mqttRecv c) := by
  refine .bind (hJ.lock c) fun _ => .bind (.loop (fun _ => ?_) ()) fun _ =>
    .bind (hJ.unlock c) fun _ => .pure _
  refine .bind .flip fun failed => .bind .flip fun incomplete => .ite (.pure _) (.ite (.pure _) ?_)
  refine .bind .flip fun publish => .bind (.when hJ.publishCallback) fun _ => ?_
  exact .bind .flip fun ok => .ite (.pure _) (.pure _)

theorem mqttSend (c : Conn) : Keeps J (mqttSend c) := by
  refine .bind (hJ.lock c) fun _ => .bind ?_ fun _ => .bind (hJ.unlock c) fun _ => .pure _
  refine .bind .flip fun error => .ite (.pure _) (.bind (.loop (fun _ => ?_) ()) fun sent =>
    .ite .flip (.pure _))
  exact .bind .flip fun last => .bind .flip fun failed => .ite (.pure _) (.ite (.pure _) (.pure _))

theorem mqttSync (c : Conn) : Keeps J (mqttSync c) :=
  .bind (hJ.lock c) fun _ => .bind (hJ.unlock c) fun _ => .bind (hJ.mqttRecv c) fun _ =>
    .ite (hJ.mqttSend c) (.pure _)

end Closes

end Keeps

/-! ## Calls that release -/

section Closes

variable {J : Mem → Prop} {m : Mem}

namespace Closes

variable (hJ : Closes J)
include hJ

theorem bioFreeAll (c : Conn) (h : J m) :
    Safe Sound (fun _ t => Sound t ∧ J (t.setBiofd c none)) (bioFreeAll c) m := by
  refine .look (hJ.sound m h) ?_
  cases hc : m.biofd c with
  | none =>
      refine safe_pure.mpr ⟨hJ.sound m h, ?_⟩
      rwa [Mem.setBiofd_self hc]
  | some b => exact safe_update.mpr ⟨hJ.sound m h, hJ.close m c b h hc⟩

theorem clearBio (c : Conn) (h : J m) :
    Safe Sound (fun _ => J) (do Signals.bioFreeAll c; update (·.setBiofd c none)) m :=
  (hJ.bioFreeAll c h).bind fun _ _ ht => safe_update.mpr ht

theorem keeps {α : Type} {c : Code Mem α} (hc : Keeps J c) (h : J m) :
    Safe Sound (fun _ => J) c m :=
  (hc m h).mono hJ.sound fun _ _ => id

theorem closeConn (c : Conn) (h : J m) : Safe Sound (fun _ => J) (closeConn c) m := by
  refine .look (hJ.sound m h) (Safe.bind (P := fun _ => J) (.when (fun _ => ?_) fun _ => h)
    fun _ t ht => ?_)
  · refine Safe.bind (P := fun _ => J) ?_ fun _ t ht => hJ.clearBio c ht
    refine hJ.keeps (.loop (fun trys => ?_) _) h
    refine .bind (hJ.tryPack c) fun packed => ?_
    refine .bind (.ite (hJ.mqttSync c) (.pure _)) fun synced => ?_
    exact .bind (.update fun _ => id) fun _ => .ite (.pure _) (.pure _)
  · exact safe_update.mpr ⟨hJ.sound t ht, hJ.quiet t _ _ _ ht⟩

end Closes

theorem points_noCtrlSock {r : Resource} (h : (m.setCtrlSock .none).points r) :
    m.points r ∧ ∀ sock, r ≠ .ctrlSock sock := by
  cases r with
  | ctrlSock sock => exact absurd h.1.symm h.2
  | node | readers | bio => exact ⟨h, fun _ heq => by cases heq⟩

/-- `admlink_ctrl_iface_deinit` leaves no pointer behind. -/
theorem admlinkCtrlIfaceDeinit_tidy (h : Tidy m) :
    Safe Sound (fun _ => Tidy) admlinkCtrlIfaceDeinit m := by
  refine .look h.sound (.when (fun hopen => ?_) fun _ => h)
  have hsock : m.ctrl_sock ≠ .none := of_decide_eq_true hopen
  have hpoints : m.points (.ctrlSock m.ctrl_sock) := ⟨rfl, hsock⟩
  have hsound : Sound { m with reader_count := m.reader_count - 1 } :=
    h.sound.clear rfl (fun _ => id) (fun _ => id) (List.Sublist.refl _) fun _ _ => id
  have hreleased := hsound.release (fun hr => h.dangles _ hr hpoints) trivial
  simp only [release, safe_bind, safe_update]
  refine ⟨h.sound, hsound, hreleased, ?_, ?_⟩
  · exact hreleased.clear rfl (fun _ => id) (fun r hr => (points_noCtrlSock hr).1)
      (List.Sublist.refl _) fun _ _ => id
  · rintro r (_ | ⟨_, hr⟩) hr'
    · exact (points_noCtrlSock hr').2 _ rfl
    · exact h.dangles r hr (points_noCtrlSock hr').1

/-- Nothing but a node is released and still pointed to. -/
def OnlyNodesDangle (m : Mem) : Prop := ∀ r ∈ m.released, (∀ n, r ≠ .node n) → ¬ m.points r

theorem freeNodes_frees (l : List (Nat × Timer)) (hl : (l.map Prod.fst).Nodup) (h : Sound m)
    (hfree : ∀ n ∈ l.map Prod.fst, .node n ∉ m.released ∧ m.allocated (.node n))
    (hrest : OnlyNodesDangle m) :
    Safe Sound (fun _ t => Sound t ∧ OnlyNodesDangle t) (freeNodes l) m := by
  induction l generalizing m with
  | nil => exact ⟨h, hrest⟩
  | cons x l ih =>
      obtain ⟨n, t⟩ := x
      obtain ⟨hn, hl⟩ := List.nodup_cons.mp hl
      obtain ⟨hunreleased, halloc⟩ := hfree n List.mem_cons_self
      refine safe_bind.mpr (safe_update.mpr ⟨h, ih hl (h.release hunreleased halloc) ?_ ?_⟩)
      · intro n' hn'
        obtain ⟨hunreleased', halloc'⟩ := hfree n' (List.mem_cons_of_mem _ hn')
        refine ⟨?_, halloc'⟩
        rintro (_ | ⟨_, hr⟩)
        · exact hn hn'
        · exact hunreleased' hr
      · rintro r (_ | ⟨_, hr⟩) hne
        · exact absurd rfl (hne n)
        · exact hrest r hr hne

theorem eloopDestroy_destroyed (h : Tidy m) :
    Safe Sound (fun _ => Destroyed) eloopDestroy m := by
  refine .look h.sound ?_
  refine Safe.bind (freeNodes_frees _ h.sound.timeout h.sound (fun n hn => ?_) fun r hr _ =>
    h.dangles r hr) ?_
  · exact ⟨fun hr => h.dangles _ hr hn, h.sound.allocated _ hn⟩
  rintro _ t ⟨hsound, honly⟩
  refine .look hsound ?_
  have hbio : ∀ b, .bio b ∈ t.released → ¬ t.points (.bio b) :=
    fun b hr => honly _ hr fun _ heq => by cases heq
  cases hreaders : t.readers with
  | none => exact ⟨hsound, hbio⟩
  | some r =>
      have hpoints : t.points (.readers r) := hreaders
      have hunreleased : .readers r ∉ t.released :=
        fun hr => honly _ hr (fun _ heq => by cases heq) hpoints
      refine safe_update.mpr ⟨hsound, hsound.release hunreleased (hsound.allocated _ hpoints), ?_⟩
      rintro b (_ | ⟨_, hr⟩)
      exact hbio b hr

theorem shutDown_sound (h : Tidy m) : Safe Sound (fun _ => Sound) shutDown m := by
  refine .look h.sound (Safe.bind (P := fun _ => Tidy) ?_ fun _ t ht => ?_)
  · exact .when (fun _ => admlinkCtrlIfaceDeinit_tidy h) fun _ => h
  · refine (eloopDestroy_destroyed ht).bind fun _ t ht => ?_
    refine (Destroyed.closes.closeConn .mqrecv ht).bind fun _ t ht => ?_
    exact (Destroyed.closes.closeConn .mqupld ht).mono (fun _ => id) fun _ _ ht => ht.sound

theorem exitLink_sound {α : Type} {Q : α → Mem → Prop} (h : Tidy m) : Safe Sound Q exitLink m := by
  refine .look h.sound ?_
  split
  · exact h.sound
  · exact (shutDown_sound h).bind fun _ _ => id

end Closes

/-! ## The timer handlers -/

/-- Conditions under which the daemon may also open a connection, or exit. -/
structure Opens (J : Mem → Prop) : Prop extends Closes J where
  tidy : ∀ m, J m → Tidy m
  alloc : ∀ m, J m → J { m with bios := m.bios + 1 }
  store : ∀ m c, J m → J ({ m with bios := m.bios + 1 }.setBiofd c (some m.bios))

section Store

variable {m : Mem} {c : Conn}

theorem biofd_store {d : Conn} {b n : BioId} (h : (m.setBiofd c (some n)).biofd d = some b) :
    (d = c ∧ b = n) ∨ m.biofd d = some b := by
  by_cases hdc : d = c
  · subst hdc
    rw [Mem.biofd_setBiofd_same, Option.some.injEq] at h
    exact .inl ⟨rfl, h.symm⟩
  · rw [Mem.biofd_setBiofd_other m hdc] at h
    exact .inr h

theorem points_store {r : Resource} {n : BioId} (h : (m.setBiofd c (some n)).points r) :
    r = .bio n ∨ m.points r := by
  cases r with
  | bio b =>
      obtain ⟨d, hd⟩ := Mem.points_bio.mp h
      rcases biofd_store hd with ⟨-, rfl⟩ | hd
      · exact .inl rfl
      · exact .inr (Mem.points_bio.mpr ⟨d, hd⟩)
  | node | readers | ctrlSock => exact .inr h

theorem Sound.allocBio (h : Sound m) : Sound { m with bios := m.bios + 1 } := by
  refine h.clear rfl (fun r hr => ?_) (fun r => id) (List.Sublist.refl _) fun _ _ => id
  cases r with
  | bio b => exact Nat.lt_succ_of_lt hr
  | node | readers | ctrlSock => exact hr

theorem Sound.freshBio (h : Sound m) : ¬ m.points (.bio m.bios) ∧ .bio m.bios ∉ m.released := by
  constructor
  · intro hpoints
    exact Nat.lt_irrefl _ (h.allocated _ hpoints)
  · intro hreleased
    exact Nat.lt_irrefl _ (h.was_allocated _ hreleased)

theorem Sound.store (h : Sound m) :
    Sound ({ m with bios := m.bios + 1 }.setBiofd c (some m.bios)) where
  released := h.released
  was_allocated := h.allocBio.was_allocated
  allocated r hr := by
    rcases points_store hr with rfl | hr
    · exact Nat.lt_succ_self _
    · exact h.allocBio.allocated r hr
  timeout := h.timeout
  biofd d e b hd he := by
    have hfresh : ∀ d, m.biofd d ≠ some m.bios :=
      fun d hd => h.freshBio.1 (Mem.points_bio.mpr ⟨d, hd⟩)
    rcases biofd_store hd with ⟨hdc, hb⟩ | hd'
    · rcases biofd_store he with ⟨hec, -⟩ | he'
      · rw [hdc, hec]
      · exact absurd (hb ▸ he') (hfresh e)
    · rcases biofd_store he with ⟨-, hb⟩ | he'
      · exact absurd (hb ▸ hd') (hfresh d)
      · exact h.biofd d e b hd' he'

end Store

theorem Tidy.opens : Opens Tidy where
  toCloses := Tidy.closes
  tidy _ := id
  alloc _ h := ⟨h.sound.allocBio, h.dangles⟩
  store m c h := by
    refine ⟨h.sound.store, fun r hr hpoints => ?_⟩
    rcases points_store hpoints with rfl | hpoints
    · exact h.sound.freshBio.2 hr
    · exact h.dangles r hr hpoints

theorem Running.opens {n : Nat} : Opens (Running n) where
  toCloses := Running.closes
  tidy _ h := h.tidy
  alloc m h := ⟨Tidy.opens.alloc m h.tidy, h.unlinked, h.unreleased, h.allocated⟩
  store m c h := ⟨Tidy.opens.store m c h.tidy, h.unlinked, h.unreleased, h.allocated⟩

namespace Opens

variable {J : Mem → Prop} {m : Mem} (hJ : Opens J)
include hJ

theorem sound_of (h : J m) : Sound m := (hJ.tidy m h).sound

/-- A decision from outside. -/
theorem flipped {α : Type} {Q : α → Mem → Prop} {g : Bool → Steps α} (h : J m)
    (hg : ∀ b, Safe Sound Q (g b) m) : Safe Sound Q (flip >>= g) m :=
  safe_bind.mpr (safe_flip.mpr ⟨hJ.sound_of h, hg⟩)

theorem openNbSocket (c : Conn) (h : J m) : Safe Sound (fun _ => J) (openNbSocket c) m := by
  refine hJ.flipped h fun loaded => ?_
  refine Safe.bind (P := fun _ => J) (.when (fun _ => exitLink_sound (hJ.tidy m h)) fun _ => h)
    fun _ t ht => ?_
  refine Safe.bind (P := fun _ => J) ?_ fun _ u hu => ?_
  · refine safe_bind.mpr (safe_fetch.mpr ⟨hJ.sound_of ht, ?_⟩)
    exact safe_update.mpr ⟨hJ.sound_of (hJ.alloc t ht), hJ.store t c ht⟩
  · refine safe_bind.mpr (safe_update.mpr ⟨hJ.sound_of hu, hJ.flipped hu fun connected => ?_⟩)
    split
    · exact hJ.flipped hu fun verified => .when (fun _ => exitLink_sound (hJ.tidy u hu)) fun _ => hu
    · exact hJ.clearBio c hu

theorem connectConn (c : Conn) {subscribe : Steps Unit} (hsub : Keeps J subscribe) (h : J m) :
    Safe Sound (fun _ => J) (connectConn c subscribe) m := by
  refine (hJ.openNbSocket c h).bind fun _ t ht => .look (hJ.sound_of ht) ?_
  split
  · exact ht
  · refine hJ.keeps ?_ ht
    refine .bind (.bind (.update fun m h => hJ.quiet m _ _ _ h) fun _ => hJ.lock c) fun _ => ?_
    refine .bind (.bind .flip fun _ => .bind (hJ.unlock c) fun _ => .pure _) fun _ => ?_
    refine .bind .flip fun error => .ite (.pure _) (.bind (hJ.mqttSync c) fun synced => ?_)
    refine .ite (.bind hsub fun _ => ?_) (.pure _)
    refine .bind (.update fun m h => hJ.quiet m _ _ _ h) fun _ => ?_
    exact .bind (hJ.eloopRegisterTimeout _) fun _ => .pure _

theorem checkMqrecv (h : J m) : Safe Sound (fun _ => J) checkMqrecv m := by
  refine .look (hJ.sound_of h) ?_
  split
  · exact hJ.connectConn .mqrecv
      (.bind (.update fun _ => id) fun _ => .bind (hJ.tryPack .mqrecv) fun _ => .pure _) h
  · exact h

theorem checkMqupld (h : J m) : Safe Sound (fun _ => J) checkMqupld m := by
  refine .look (hJ.sound_of h) ?_
  split
  · exact hJ.connectConn .mqupld (.pure _) h
  · exact h

theorem chkAgstatm (h : J m) : Safe Sound (fun _ => J) chkAgstatm m := by
  refine (hJ.checkMqrecv h).bind fun recv t ht => ?_
  refine Safe.bind (P := fun _ => J) ?_ fun both u hu => ?_
  · split
    · exact hJ.checkMqupld ht
    · exact ht
  · refine Safe.bind (P := fun _ => J) (.when (fun _ => ?_) fun _ => hu) fun _ v hv =>
      hJ.keeps (hJ.eloopRegisterTimeout _) hv
    exact hJ.flipped hu fun isErr => .when (fun _ => exitLink_sound (hJ.tidy u hu)) fun _ => hu

theorem agHandleClttraffic (p : Conn) (h : J m) :
    Safe Sound (fun _ => J) (agHandleClttraffic p) m := by
  refine (hJ.keeps (hJ.mqttSync p) h).bind fun ok t ht => ?_
  split
  · exact hJ.keeps (hJ.eloopRegisterTimeout _) ht
  · exact hJ.closeConn p ht

theorem eloopSetPublish (p : Conn) (h : J m) : Safe Sound (fun _ => J) (eloopSetPublish p) m := by
  refine (hJ.keeps (hJ.tryPack p) h).bind fun ok t ht => ?_
  exact hJ.flipped ht fun error => .when (fun _ => hJ.closeConn p ht) fun _ => ht

theorem run (t : Timer) (h : J m) : Safe Sound (fun _ => J) t.run m := by
  cases t with
  | chkAgstatm => exact hJ.chkAgstatm h
  | agHandleClttraffic p => exact hJ.agHandleClttraffic p h
  | eloopSetPublish p => exact hJ.eloopSetPublish p h
  | eloopSetExit => exact exitLink_sound (hJ.tidy m h)

end Opens

/-! ## `eloop_run` and `main` -/

section Main

variable {m : Mem}

theorem points_pop {x : Nat × Timer} {rest : List (Nat × Timer)} {r : Resource}
    (htimeout : m.timeout = x :: rest) (h : Mem.points { m with timeout := rest } r) :
    m.points r := by
  cases r with
  | node n =>
      rw [Mem.points, htimeout]
      exact List.mem_cons_of_mem _ h
  | readers | bio | ctrlSock => exact h

theorem Tidy.pop {n : Nat} {t : Timer} {rest : List (Nat × Timer)} (h : Tidy m)
    (htimeout : m.timeout = (n, t) :: rest) : Running n { m with timeout := rest } := by
  have hpoints : m.points (.node n) := by
    rw [Mem.points, htimeout]
    exact List.mem_cons_self
  have hnodup := h.sound.timeout
  rw [htimeout] at hnodup
  refine ⟨⟨?_, fun r hr hr' => h.dangles r hr (points_pop htimeout hr')⟩, ?_, ?_, ?_⟩
  · refine h.sound.clear rfl (fun _ => id) (fun r => points_pop htimeout) ?_ fun _ _ => id
    rw [htimeout]
    exact List.sublist_cons_self _ _
  · exact (List.nodup_cons.mp hnodup).1
  · exact fun hr => h.dangles _ hr hpoints
  · exact h.sound.allocated _ hpoints

/-- A timer leaves the list, its handler runs, its node is freed. -/
theorem eloopRunTimeout_tidy (h : Tidy m) : Safe Sound (fun _ => Tidy) eloopRunTimeout m := by
  refine Tidy.opens.flipped h fun due => .look h.sound ?_
  cases htimeout : m.timeout with
  | nil => exact h
  | cons x rest =>
      obtain ⟨n, t⟩ := x
      refine .when (fun _ => ?_) fun _ => h
      refine safe_bind.mpr (safe_update.mpr ⟨h.sound, ?_⟩)
      refine (Running.opens.run t (h.pop htimeout)).bind fun _ u hu => ?_
      refine safe_update.mpr ⟨hu.tidy.sound, ?_⟩
      refine ⟨hu.tidy.sound.release hu.unreleased hu.allocated, ?_⟩
      rintro r (_ | ⟨_, hr⟩) hpoints
      · exact hu.unlinked hpoints
      · exact hu.tidy.dangles r hr hpoints

theorem eloopRun_tidy (h : Tidy m) : Safe Sound (fun _ => Tidy) eloopRun m := by
  refine safe_loop (J := fun _ => Tidy) (fun _ _ h => h.sound) (fun _ m h => ?_) h
  refine .look h.sound ?_
  split
  · exact h
  · refine Tidy.opens.flipped h fun selected => ?_
    split
    · refine (eloopRunTimeout_tidy h).bind fun _ t ht => Tidy.opens.flipped ht fun readable => ?_
      refine Safe.bind (P := fun _ => Tidy) (.when (fun _ => ?_) fun _ => ht) fun _ u hu => hu
      refine Tidy.opens.flipped ht fun stop => ?_
      split
      · exact Tidy.closes.keeps (Tidy.closes.eloopRegisterTimeout _) ht
      · refine Tidy.opens.flipped ht fun sendtest => .when (fun _ => ?_) fun _ => ht
        exact Tidy.closes.keeps (Tidy.closes.eloopRegisterTimeout _) ht
    · exact h

theorem nothingDangles_of_nil {t : Mem} (h : t.released = []) : NothingDangles t := by
  intro r hr
  rw [h] at hr
  cases hr

/-- Before `eloop_init`. -/
structure Blank (m : Mem) : Prop where
  released : m.released = []
  timeout : m.timeout = []
  readers : m.readers = none
  biofd : m.biofd = fun _ => none

namespace Blank

theorem not_points (h : Blank m) {r : Resource} (hr : m.points r) : ∃ sock, r = .ctrlSock sock := by
  cases r with
  | node n =>
      rw [Mem.points, h.timeout] at hr
      cases hr
  | readers n => cases h.readers.symm.trans hr
  | bio b =>
      obtain ⟨c, hc⟩ := Mem.points_bio.mp hr
      rw [h.biofd] at hc
      cases hc
  | ctrlSock sock => exact ⟨sock, rfl⟩

theorem tidy (h : Blank m) : Tidy m where
  sound :=
    { released := h.released ▸ List.nodup_nil
      was_allocated := fun r hr => by
        rw [h.released] at hr
        cases hr
      allocated := fun r hr => by
        obtain ⟨sock, rfl⟩ := h.not_points hr
        trivial
      timeout := h.timeout ▸ List.nodup_nil
      biofd := fun c d b hc _ => by
        rw [h.biofd] at hc
        cases hc }
  dangles := nothingDangles_of_nil h.released

/-- A process whose `bind` fails closes the socket it has not stored. -/
theorem admlinkCtrlIfaceInit_tidy (h : Blank m) :
    Safe Sound (fun opened t => Tidy t ∧ (opened = true → Blank t)) admlinkCtrlIfaceInit m := by
  have hnone : Blank (m.setCtrlSock .none) := ⟨h.released, h.timeout, h.readers, h.biofd⟩
  have hbound : Blank ((m.setCtrlSock .none).setCtrlSock .bound) :=
    ⟨h.released, h.timeout, h.readers, h.biofd⟩
  refine safe_bind.mpr (safe_update.mpr ⟨h.tidy.sound, ?_⟩)
  refine Tidy.opens.flipped hnone.tidy fun opened => ?_
  split
  · refine Tidy.opens.flipped hnone.tidy fun named => ?_
    split
    · refine safe_bind.mpr (safe_update.mpr ⟨hnone.tidy.sound, ?_⟩)
      exact ⟨hbound.tidy, fun _ => hbound⟩
    · have hunreleased : .ctrlSock .bound ∉ (m.setCtrlSock .none).released := by
        rw [hnone.released]
        exact List.not_mem_nil
      refine safe_bind.mpr (safe_update.mpr
        ⟨hnone.tidy.sound, ⟨?_, ?_⟩, fun hopen => by cases hopen⟩)
      · exact hnone.tidy.sound.release hunreleased trivial
      · rintro r (_ | ⟨_, hr⟩) hpoints
        · exact hpoints.2 hpoints.1.symm
        · exact hnone.tidy.dangles r hr hpoints
  · exact ⟨hnone.tidy, fun hopen => by cases hopen⟩

theorem eloopRegisterReadSock_tidy (h : Blank m) :
    Safe Sound (fun _ => Tidy) eloopRegisterReadSock m := by
  have hgrown : Blank { m with tables := m.tables + 1 } :=
    ⟨h.released, h.timeout, h.readers, h.biofd⟩
  refine .look h.tidy.sound (safe_bind.mpr (safe_fetch.mpr ⟨h.tidy.sound, ?_⟩))
  split
  · refine safe_update.mpr ⟨hgrown.tidy.sound, ⟨hgrown.tidy.sound.released,
      hgrown.tidy.sound.was_allocated, fun r hr => ?_, hgrown.tidy.sound.timeout,
      hgrown.tidy.sound.biofd⟩, nothingDangles_of_nil h.released⟩
    cases r with
    | readers n =>
        cases hr
        exact Nat.lt_succ_self _
    | node n => exact hgrown.tidy.sound.allocated (.node n) hr
    | bio b => exact hgrown.tidy.sound.allocated (.bio b) hr
    | ctrlSock sock => trivial
  · next readers hreaders => cases h.readers.symm.trans hreaders

end Blank

theorem main_sound : Safe Sound (fun _ _ => True) main .zeroed := by
  have hzeroed : Blank .zeroed := ⟨rfl, rfl, rfl, rfl⟩
  have hinterfaces : ∀ interfaces, Blank { Mem.zeroed with interfaces } :=
    fun _ => ⟨rfl, rfl, rfl, rfl⟩
  refine safe_bind.mpr (safe_update.mpr ⟨hzeroed.tidy.sound, ?_⟩)
  refine safe_bind.mpr (safe_update.mpr ⟨(hinterfaces _).tidy.sound, ?_⟩)
  refine (hinterfaces (some true)).admlinkCtrlIfaceInit_tidy.bind fun opened t ht => ?_
  refine Safe.bind (P := fun _ => Tidy) (.when (fun hopened => ?_) fun _ => ht.1) fun _ t ht => ?_
  · have hblank : Blank { t with timeout := [], readers := none, reader_count := 0 } :=
      ⟨(ht.2 hopened).released, rfl, rfl, (ht.2 hopened).biofd⟩
    refine safe_bind.mpr (safe_update.mpr ⟨ht.1.sound, ?_⟩)
    refine hblank.eloopRegisterReadSock_tidy.bind fun _ t ht => ?_
    refine (Tidy.closes.keeps (Tidy.closes.eloopRegisterTimeout _) ht).bind fun _ t ht => ?_
    exact eloopRun_tidy ht
  · exact (shutDown_sound ht).bind fun _ _ => id

end Main

/-- Nothing is released twice, in runs where every stop request comes while
nothing that has been released is still pointed to. -/
theorem released_once (m : Machine Mem Sig) (h : Reached NothingDangles m) :
    m.state.released.Nodup := by
  have hsound := Machine.invariant (I := Sound) (fun _ h0 => by cases h0; exact main_sound)
    (fun _ _ hs hc => exitLink_sound ⟨hs, hc⟩) h
  exact hsound.released

/-- SIGTERM comes before `exit_link`, called for SIGINT, has released anything. -/
def stoppedEarly : List (Input Sig) :=
  serving ++ .signal .int :: steps [0, 0] ++ .signal .term :: steps (List.replicate 14 0)

theorem released_once_stoppedEarly : (ran stoppedEarly).state.released.Nodup :=
  released_once _ (.guarded stoppedEarly (.start boot_starts) (by decide +kernel))

/-- SIGTERM comes when `exit_link`, called for SIGINT, has destroyed the loop. -/
def stoppedTwice : List (Input Sig) :=
  serving ++ .signal .int :: steps (List.replicate 10 0) ++ .signal .term ::
    steps (List.replicate 5 0)

/-- The second `eloop_destroy` frees the nodes of the first. -/
theorem released_twice : ¬ ∀ m, Reached (fun _ => True) m → m.state.released.Nodup := by
  intro h
  have htwice : ¬ (ran stoppedTwice).state.released.Nodup := by decide +kernel
  exact htwice (h _ (.guarded stoppedTwice (.start boot_starts) (by decide +kernel)))

end Admlink.Signals
