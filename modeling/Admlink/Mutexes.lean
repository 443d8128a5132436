import Admlink.Signals

/-!
# Who holds a client's mutex

Every function of MQTT-C that the agent calls gives the mutex back, except
`mqtt_init`, which `mqtt_connect` follows, and none is called while the mutex is
held: `publish_callback` only registers timers. So the daemon locks no mutex
twice on its own. A `handle_stop` closes the connections that have a BIO, and
waits forever where the call it interrupts holds the mutex of one.
-/

namespace Admlink.Signals

open Interrupt Code

/-- No connection that `exit_link` would close has its mutex locked. -/
def MutexesFree (m : Mem) : Prop := ∀ c, m.biofd c ≠ none → m.mutex c = false

instance : DecidablePred MutexesFree := fun m =>
  decidable_of_iff ((m.biofd .mqrecv ≠ none → m.mutex .mqrecv = false) ∧
      (m.biofd .mqupld ≠ none → m.mutex .mqupld = false))
    ⟨fun h c => by cases c; exacts [h.1, h.2], fun h => ⟨h _, h _⟩⟩

/-- No thread has waited for itself. -/
def NoRelock (m : Mem) : Prop := m.relocked = []

/-- The mutexes in `f` were locked before and stay so; the connections they
belong to have no BIO. Now the mutexes in `held` are locked. -/
structure Locked (f held : Conn → Bool) (m : Mem) : Prop where
  relocked : m.relocked = []
  mutex : m.mutex = held
  biofd : ∀ c, m.biofd c ≠ none → f c = false

/-- Outside of MQTT-C. -/
abbrev Unlocked (f : Conn → Bool) : Mem → Prop := Locked f f

section Mqtt

variable {f held : Conn → Bool} {m : Mem} {c : Conn}

theorem Locked.timers : Timers (Locked f held) where
  malloc _ h := ⟨h.relocked, h.mutex, h.biofd⟩
  link _ _ _ h := ⟨h.relocked, h.mutex, h.biofd⟩

theorem Locked.keeps {α : Type} {x : Steps α} (hx : Keeps (Locked f held) x)
    (h : Locked f held m) : Safe NoRelock (fun _ => Locked f held) x m :=
  (hx m h).mono (fun _ h => h.relocked) fun _ _ => id

theorem lock_free (hc : held c = false) (h : Locked f held m) :
    Safe NoRelock (fun _ => Locked f (Function.update held c true)) (lock c) m := by
  have hcall : m.callLock c = m := by
    rw [Mem.callLock, h.mutex, hc]
    exact if_neg Bool.false_ne_true
  refine safe_bind.mpr (safe_update.mpr ⟨h.relocked, ?_⟩)
  rw [hcall]
  refine safe_await.mpr ⟨h.relocked, fun _ => ⟨h.relocked, ?_, h.biofd⟩⟩
  rw [Mem.setMutex, h.mutex]

theorem unlock_held (hc : held c = false) (h : Locked f (Function.update held c true) m) :
    Safe NoRelock (fun _ => Locked f held) (unlock c) m := by
  refine safe_update.mpr ⟨h.relocked, h.relocked, ?_, h.biofd⟩
  rw [Mem.setMutex, h.mutex, Function.update_idem, ← hc, Function.update_eq_self]

/-- What runs between a lock and an unlock must keep the mutexes as they are. -/
theorem critical {body : Steps Bool} (hbody : ∀ held, Keeps (Locked f held) body)
    (hc : held c = false) (h : Locked f held m) :
    Safe NoRelock (fun _ => Locked f held)
      (do lock c; let ok ← body; unlock c; return ok) m := by
  refine (lock_free hc h).bind fun _ t ht => ?_
  refine (Locked.keeps (hbody _) ht).bind fun ok t ht => ?_
  exact (unlock_held hc ht).bind fun _ _ => id

theorem tryPack_unlocked (hc : f c = false) (h : Unlocked f m) :
    Safe NoRelock (fun _ => Unlocked f) (tryPack c) m :=
  critical (fun _ => .flip) hc h

/-- The callback runs with the mutex held, and only registers timers. -/
theorem mqttRecv_unlocked (hc : f c = false) (h : Unlocked f m) :
    Safe NoRelock (fun _ => Unlocked f) (mqttRecv c) m := by
  refine critical (fun held => .loop (fun _ => ?_) ()) hc h
  refine .bind .flip fun failed => .bind .flip fun incomplete => .ite (.pure _) (.ite (.pure _) ?_)
  refine .bind .flip fun publish =>
    .bind (.when Locked.timers.publishCallback) fun _ => .bind .flip fun ok => ?_
  exact .ite (.pure _) (.pure _)

theorem mqttSend_unlocked (hc : f c = false) (h : Unlocked f m) :
    Safe NoRelock (fun _ => Unlocked f) (mqttSend c) m := by
  refine critical (fun held => .bind .flip fun error => .ite (.pure _) ?_) hc h
  refine .bind (.loop (fun _ => ?_) ()) fun sent => .ite .flip (.pure _)
  exact .bind .flip fun last => .bind .flip fun failed => .ite (.pure _) (.ite (.pure _) (.pure _))

theorem mqttSync_unlocked (hc : f c = false) (h : Unlocked f m) :
    Safe NoRelock (fun _ => Unlocked f) (mqttSync c) m := by
  refine (lock_free hc h).bind fun _ t ht => (unlock_held hc ht).bind fun _ t ht => ?_
  refine (mqttRecv_unlocked hc ht).bind fun ok t ht => ?_
  split
  · exact mqttSend_unlocked hc ht
  · exact ht

theorem mqttInit_locks (hc : f c = false) (h : Unlocked f m) :
    Safe NoRelock (fun _ => Locked f (Function.update f c true)) (mqttInit c) m := by
  refine safe_bind.mpr (safe_update.mpr ⟨h.relocked, lock_free hc ⟨h.relocked, ?_, h.biofd⟩⟩)
  rw [Mem.setMutex, h.mutex, ← hc, Function.update_eq_self]

theorem mqttConnect_unlocks (hc : f c = false) (h : Locked f (Function.update f c true) m) :
    Safe NoRelock (fun _ => Unlocked f) (mqttConnect c) m := by
  refine (Locked.keeps .flip h).bind fun ok t ht => ?_
  exact (unlock_held hc ht).bind fun _ _ => id

end Mqtt

/-! ## Closing and leaving -/

section Closing

variable {f : Conn → Bool} {m : Mem}

theorem Unlocked.setBiofd (h : Unlocked f m) (c : Conn) : Unlocked f (m.setBiofd c none) := by
  refine ⟨h.relocked, h.mutex, fun d hd => h.biofd d ?_⟩
  by_cases hdc : d = c
  · subst hdc
    rw [Mem.biofd_setBiofd_same] at hd
    exact absurd rfl hd
  · rwa [Mem.biofd_setBiofd_other m hdc] at hd

theorem clearBio_keeps (c : Conn) :
    Keeps (Unlocked f) (do bioFreeAll c; update (·.setBiofd c none)) := by
  refine .bind ?_ fun _ => .update fun m h => Unlocked.setBiofd h c
  intro m h
  refine .look h ?_
  split
  · exact h
  · exact safe_update.mpr ⟨h, h.relocked, h.mutex, h.biofd⟩

/-- A connection is closed with its mutex free. -/
theorem closeConn_unlocked (c : Conn) (h : Unlocked f m) :
    Safe NoRelock (fun _ => Unlocked f) (closeConn c) m := by
  refine .look h.relocked (Safe.bind (P := fun _ => Unlocked f) (.when (fun hopen => ?_) fun _ => h)
    fun _ t ht => ?_)
  · have hc : f c = false := h.biofd c (of_decide_eq_true hopen)
    refine Safe.bind (P := fun _ => Unlocked f) ?_ fun _ t ht => Locked.keeps (clearBio_keeps c) ht
    refine safe_loop (J := fun _ => Unlocked f) (fun _ _ h => h.relocked) (fun trys m h => ?_) h
    refine (tryPack_unlocked hc h).bind fun packed t ht => ?_
    refine Safe.bind (P := fun _ => Unlocked f) ?_ fun synced t ht => ?_
    · split
      · exact mqttSync_unlocked hc ht
      · exact ht
    · refine Safe.mono (fun _ => id) (fun r t ht => ?_) (Locked.keeps
        (.bind (.update fun _ => id) fun _ => .ite (.pure _) (.pure _)) ht)
      cases r <;> exact ht
  · exact safe_update.mpr ⟨ht.relocked, ht.relocked, ht.mutex, ht.biofd⟩

theorem freeNodes_keeps : ∀ l, Keeps (Unlocked f) (freeNodes l)
  | [] => .pure ()
  | _ :: l => .bind (.update fun _ h => ⟨h.relocked, h.mutex, h.biofd⟩) fun _ => freeNodes_keeps l

theorem shutDown_unlocked (h : Unlocked f m) :
    Safe NoRelock (fun _ => Unlocked f) shutDown m := by
  refine .look h.relocked (Safe.bind (P := fun _ => Unlocked f) ?_ fun _ t ht => ?_)
  · refine .when (fun _ => .look h.relocked (.when (fun _ => ?_) fun _ => h)) fun _ => h
    refine Locked.keeps (.bind (.update ?_) fun _ => .bind (.update ?_) fun _ => .update ?_) h
    all_goals exact fun _ h => ⟨h.relocked, h.mutex, h.biofd⟩
  · refine Safe.bind (P := fun _ => Unlocked f) ?_ fun _ t ht => ?_
    · refine .look ht.relocked ((Locked.keeps (freeNodes_keeps _) ht).bind fun _ t ht => ?_)
      refine .look ht.relocked ?_
      split
      · exact ht
      · exact safe_update.mpr ⟨ht.relocked, ht.relocked, ht.mutex, ht.biofd⟩
    · exact (closeConn_unlocked .mqrecv ht).bind fun _ t ht => closeConn_unlocked .mqupld ht

theorem exitLink_noRelock {α : Type} {Q : α → Mem → Prop} (h : Unlocked f m) :
    Safe NoRelock Q exitLink m := by
  refine .look h.relocked ?_
  split
  · exact h.relocked
  · exact (shutDown_unlocked h).bind fun _ _ ht => ht.relocked

end Closing

/-! ## The daemon proper -/

/-- No mutex is locked. -/
abbrev Idle : Mem → Prop := Unlocked fun _ => false

section Idle

variable {m : Mem}

theorem Locked.of_mutexes {t : Mem} (h : Idle m) (hrelocked : t.relocked = m.relocked)
    (hmutex : t.mutex = m.mutex) : Idle t :=
  ⟨hrelocked.trans h.relocked, hmutex.trans h.mutex, fun _ _ => rfl⟩

/-- A decision from outside. -/
theorem Locked.flipped {α : Type} {Q : α → Mem → Prop} {g : Bool → Steps α} (h : Idle m)
    (hg : ∀ b, Safe NoRelock Q (g b) m) : Safe NoRelock Q (flip >>= g) m :=
  safe_bind.mpr (safe_flip.mpr ⟨h.relocked, hg⟩)

theorem Locked.exits {b : Bool} (h : Idle m) :
    Safe NoRelock (fun _ => Idle) (when b exitLink) m :=
  .when (fun _ => exitLink_noRelock h) fun _ => h

/-- Steps that lock nothing. -/
theorem Locked.updates {α : Type} {Q : α → Mem → Prop} {f : Mem → Mem} {g : Steps α} (h : Idle m)
    (hrelocked : (f m).relocked = m.relocked) (hmutex : (f m).mutex = m.mutex)
    (hg : Idle (f m) → Safe NoRelock Q g (f m)) : Safe NoRelock Q (update f >>= fun _ => g) m :=
  safe_bind.mpr (safe_update.mpr ⟨h.relocked, hg (h.of_mutexes hrelocked hmutex)⟩)

theorem openNbSocket_idle (c : Conn) (h : Idle m) :
    Safe NoRelock (fun _ => Idle) (openNbSocket c) m := by
  refine h.flipped fun loaded => h.exits.bind fun _ t ht => ?_
  refine Safe.bind (P := fun _ => Idle) ?_ fun _ u hu => ?_
  · refine safe_bind.mpr (safe_fetch.mpr ⟨ht.relocked, safe_update.mpr ⟨ht.relocked, ?_⟩⟩)
    exact ht.of_mutexes rfl rfl
  · refine hu.updates rfl rfl fun hu => hu.flipped fun connected => ?_
    split
    · exact hu.flipped fun verified => hu.exits
    · exact Locked.keeps (clearBio_keeps c) hu

theorem connectConn_idle (c : Conn) {subscribe : Steps Unit}
    (hsub : ∀ m, Idle m → Safe NoRelock (fun _ => Idle) subscribe m) (h : Idle m) :
    Safe NoRelock (fun _ => Idle) (connectConn c subscribe) m := by
  refine (openNbSocket_idle c h).bind fun _ t ht => .look ht.relocked ?_
  split
  · exact ht
  · refine (mqttInit_locks rfl ht).bind fun _ t ht => ?_
    refine (mqttConnect_unlocks rfl ht).bind fun _ t ht => ?_
    refine ht.flipped fun error => ?_
    split
    · exact ht
    · refine (mqttSync_unlocked rfl ht).bind fun synced t ht => ?_
      split
      · refine (hsub t ht).bind fun _ t ht => ht.updates rfl rfl fun ht => ?_
        exact (Locked.keeps (Locked.timers.eloopRegisterTimeout _) ht).bind fun _ _ => id
      · exact ht

theorem subscribeTopicrecv_idle (h : Idle m) :
    Safe NoRelock (fun _ => Idle) subscribeTopicrecv m :=
  h.updates rfl rfl fun h => (tryPack_unlocked rfl h).bind fun _ _ => id

theorem checkMqrecv_idle (h : Idle m) : Safe NoRelock (fun _ => Idle) checkMqrecv m := by
  refine .look h.relocked ?_
  split
  · exact connectConn_idle .mqrecv (fun _ => subscribeTopicrecv_idle) h
  · exact h

theorem checkMqupld_idle (h : Idle m) : Safe NoRelock (fun _ => Idle) checkMqupld m := by
  refine .look h.relocked ?_
  split
  · exact connectConn_idle .mqupld (fun _ => id) h
  · exact h

theorem chkAgstatm_idle (h : Idle m) : Safe NoRelock (fun _ => Idle) chkAgstatm m := by
  refine (checkMqrecv_idle h).bind fun recv t ht => ?_
  refine Safe.bind (P := fun _ => Idle) ?_ fun both u hu => ?_
  · split
    · exact checkMqupld_idle ht
    · exact ht
  · refine Safe.bind (P := fun _ => Idle) ?_ fun _ v hv =>
      Locked.keeps (Locked.timers.eloopRegisterTimeout _) hv
    exact .when (fun _ => hu.flipped fun isErr => hu.exits) fun _ => hu

theorem run_idle (t : Timer) (h : Idle m) : Safe NoRelock (fun _ => Idle) t.run m := by
  cases t with
  | chkAgstatm => exact chkAgstatm_idle h
  | agHandleClttraffic p =>
      refine (mqttSync_unlocked rfl h).bind fun ok t ht => ?_
      split
      · exact Locked.keeps (Locked.timers.eloopRegisterTimeout _) ht
      · exact closeConn_unlocked p ht
  | eloopSetPublish p =>
      refine (tryPack_unlocked rfl h).bind fun ok t ht => ht.flipped fun error => ?_
      exact .when (fun _ => closeConn_unlocked p ht) fun _ => ht
  | eloopSetExit => exact exitLink_noRelock h

theorem eloopRunTimeout_idle (h : Idle m) : Safe NoRelock (fun _ => Idle) eloopRunTimeout m := by
  refine h.flipped fun due => .look h.relocked ?_
  split
  · exact h
  · refine .when (fun _ => h.updates rfl rfl fun h => ?_) fun _ => h
    refine (run_idle _ h).bind fun _ t ht => ?_
    exact safe_update.mpr ⟨ht.relocked, ht.of_mutexes rfl rfl⟩

theorem admlinkCtrlIfaceReceive_idle : Keeps Idle admlinkCtrlIfaceReceive := by
  refine .bind .flip fun stop => .ite (Locked.timers.eloopRegisterTimeout _) ?_
  exact .bind .flip fun sendtest => .when (Locked.timers.eloopRegisterTimeout _)

theorem eloopRun_idle (h : Idle m) : Safe NoRelock (fun _ => Idle) eloopRun m := by
  refine safe_loop (J := fun _ => Idle) (fun _ _ h => h.relocked) (fun _ m h => ?_) h
  refine .look h.relocked ?_
  split
  · exact h
  · refine h.flipped fun selected => ?_
    split
    · refine (eloopRunTimeout_idle h).bind fun _ t ht => ht.flipped fun readable => ?_
      refine Safe.bind (P := fun _ => Idle) ?_ fun _ _ => id
      exact .when (fun _ => Locked.keeps admlinkCtrlIfaceReceive_idle ht) fun _ => ht
    · exact h

theorem admlinkCtrlIfaceInit_idle : Keeps Idle admlinkCtrlIfaceInit := by
  refine .bind (.update fun _ h => h.of_mutexes rfl rfl) fun _ => .bind .flip fun opened => ?_
  refine .ite (.bind .flip fun named => .ite ?_ ?_) (.pure _)
  · exact .bind (.update fun _ h => h.of_mutexes rfl rfl) fun _ => .pure _
  · exact .bind (.update fun _ h => h.of_mutexes rfl rfl) fun _ => .pure _

theorem eloopRegisterReadSock_idle (h : Idle m) :
    Safe NoRelock (fun _ => Idle) eloopRegisterReadSock m := by
  refine .look h.relocked (safe_bind.mpr (safe_fetch.mpr ⟨h.relocked, ?_⟩))
  have hgrown : Idle { m with tables := m.tables + 1 } := h.of_mutexes rfl rfl
  split
  · exact safe_update.mpr ⟨hgrown.relocked, hgrown.of_mutexes rfl rfl⟩
  · refine hgrown.updates rfl rfl fun h => ?_
    exact safe_update.mpr ⟨h.relocked, h.of_mutexes rfl rfl⟩

theorem main_noRelock : Safe NoRelock (fun _ _ => True) main .zeroed := by
  have hzeroed : Idle .zeroed := ⟨rfl, rfl, fun _ _ => rfl⟩
  refine hzeroed.updates rfl rfl fun h => h.updates rfl rfl fun h => ?_
  refine (Locked.keeps admlinkCtrlIfaceInit_idle h).bind fun opened t ht => ?_
  refine Safe.bind (P := fun _ => Idle) (.when (fun _ => ?_) fun _ => ht) fun _ t ht => ?_
  · refine ht.updates rfl rfl fun ht => (eloopRegisterReadSock_idle ht).bind fun _ t ht => ?_
    refine (Locked.keeps (Locked.timers.eloopRegisterTimeout _) ht).bind fun _ t ht => ?_
    exact eloopRun_idle ht
  · exact (shutDown_unlocked ht).bind fun _ _ ht => ht.relocked

end Idle

/-- No mutex is locked by the thread that holds it, in runs where every stop
request comes while the mutexes of the open connections are free. -/
theorem never_relocked (m : Machine Mem Sig) (h : Reached MutexesFree m) :
    m.state.relocked = [] :=
  Machine.invariant (I := NoRelock) (fun _ h0 => by cases h0; exact main_noRelock)
    (fun _ m hs hc => exitLink_noRelock (f := m.mutex) ⟨hs, rfl, hc⟩) h

/-- The receiver waits for its CONNACK in `__mqtt_recv`. -/
def receiving : List (Input Sig) :=
  serving ++ steps (List.replicate 17 0 ++ [1, 0, 0, 0, 0, 0, 3])

/-- The receiver sleeps after its first `mqtt_sync`; SIGINT comes, no DISCONNECT
can be packed, and the daemon exits. -/
def stoppedAsleep : List (Input Sig) :=
  receiving ++ steps [1, 0, 0, 0, 0, 1, 3, 0, 0, 0, 0, 0] ++ .signal .int ::
    steps (List.replicate 10 0 ++ [3, 0, 0, 1, 0, 0, 0, 0, 1, 0, 0, 0, 0, 1] ++ List.replicate 8 0)

theorem never_relocked_stoppedAsleep : (ran stoppedAsleep).state.relocked = [] :=
  never_relocked _ (.guarded stoppedAsleep (.start boot_starts) (by decide +kernel))

/-- SIGTERM comes while the receiver reads. -/
def stoppedReceiving : List (Input Sig) :=
  receiving ++ .signal .term :: steps (List.replicate 10 0 ++ [3, 0])

/-- `close_conn` waits for the mutex `mqtt_sync` holds. -/
theorem relocked : ¬ ∀ m, Reached (fun _ => True) m → m.state.relocked = [] := by
  intro h
  have hlocked : (ran stoppedReceiving).state.relocked ≠ [] := by decide +kernel
  exact hlocked (h _ (.guarded stoppedReceiving (.start boot_starts) (by decide +kernel)))

end Admlink.Signals
