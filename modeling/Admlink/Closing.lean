import Admlink.SyncResult

/-!
# Closing connections and leaving the process

`close_conn` first disconnects and synchronises the client. That does nothing
when the client is in error or was never initialised (`Idle`): then the BIO is
freed without being touched.
-/

namespace Admlink

open Program Relation

/-! ## Clients that send nothing -/

/-- A client that packs nothing: in error, or without a queue. -/
def Idle {fd : Type} (cl : MqttClient fd) : Prop := cl.error.neg = true ∨ cl.mq = none

theorem disconnect_idle {cl : Client} (h : Idle cl) :
    (mqttDisconnect cl).1 ≠ .ok ∧ Idle (mqttDisconnect cl).2 := by
  by_cases hneg : cl.error.neg = true
  · rw [mqttDisconnect, packAndRegister_of_neg hneg]
    refine ⟨fun h => ?_, .inl hneg⟩
    rw [show cl.error = .ok from h] at hneg
    cases hneg
  · have hmq := h.resolve_left hneg
    have hroom : cl.room = none := by rw [MqttClient.room, hmq]; rfl
    unfold mqttDisconnect packAndRegister mqttClientTryPack
    rw [if_neg hneg, hroom]
    exact ⟨fun h => (nomatch h), .inl rfl⟩

/-! ## `close_conn` -/

theorem path_closeConnRound (c : Conn) (trys : Int) :
    Within (SyncPath c) (SyncStop c) (closeConnRound c trys) := by
  refine (path_onClient c clientStep_disconnect).bind fun r => .ite ?_ (.pure (trys + 1))
  exact (path_agSync c).bind fun e => .ite (.pure (-1 + 1 : Int)) (.pure (trys + 1))

theorem path_closeConnLoop (c : Conn) : ∀ fuel trys,
    Within (SyncPath c) (SyncStop c) (closeConnLoop c fuel trys)
  | 0, _ => .throw _
  | fuel + 1, trys =>
      (path_closeConnRound c trys).bind fun trys =>
        .ite (path_closeConnLoop c fuel trys) (.pure _)

/-- The world up to the client of `c`, which is idle before and after. -/
def StaysIdle (c : Conn) (w t : World) : Prop :=
  Idle (w.conn c).mqclt → t.trace = w.trace ∧ Idle (t.conn c).mqclt

instance (c : Conn) : IsPreorder World (StaysIdle c) where
  refl _ h := ⟨rfl, h⟩
  trans _ _ _ h h' hw := by
    obtain ⟨ht, hidle⟩ := h hw
    obtain ⟨hu, hidle'⟩ := h' hidle
    exact ⟨hu.trans ht, hidle'⟩

/-- On an idle client a round only counts. -/
theorem idle_closeConnRound (c : Conn) (trys : Int) :
    Within (StaysIdle c) (StaysIdle c) (closeConnRound c trys) := by
  intro w
  by_cases hidle : Idle (w.conn c).mqclt
  · obtain ⟨hne, hidle'⟩ := disconnect_idle hidle
    have hround : closeConnRound c trys w =
        .ok (trys + 1) (w.setClient c (mqttDisconnect (w.conn c).mqclt).2) := by
      unfold closeConnRound
      rw [bind_of_ok (rfl : onClient c mqttDisconnect w = .ok (mqttDisconnect (w.conn c).mqclt).1
        (w.setClient c (mqttDisconnect (w.conn c).mqclt).2))]
      simp only [if_neg hne]
      rfl
    rw [hround]
    exact fun _ => ⟨rfl, by simpa using hidle'⟩
  · cases closeConnRound c trys w with
    | ok a t => exact fun h => absurd h hidle
    | error e t => exact fun h => absurd h hidle

theorem idle_closeConnLoop (c : Conn) : ∀ fuel trys,
    Within (StaysIdle c) (StaysIdle c) (closeConnLoop c fuel trys)
  | 0, _ => .throw _
  | fuel + 1, trys =>
      (idle_closeConnRound c trys).bind fun trys =>
        .ite (idle_closeConnLoop c fuel trys) (.pure _)

namespace World

/-- `close_conn` on a connection without a BIO. -/
def reset (w : World) (c : Conn) : World :=
  w.setConn c { w.conn c with connfd := 0, status := 0 }

/-- The end of `close_conn` on a connection that held `b`. -/
def released (w : World) (c : Conn) (b : BioId) : World :=
  (w.log (.bioFreeAll b)).setConn c
    { w.conn c with biofd := none, ssl_ctx := none, connfd := 0, status := 0 }

theorem conn_reset_other (w : World) {c d : Conn} (h : d ≠ c) :
    (w.reset c).conn d = w.conn d := conn_setConn_other _ h _

theorem conn_released_other (w : World) {c d : Conn} (h : d ≠ c) (b : BioId) :
    (w.released c b).conn d = w.conn d := conn_setConn_other _ h _

@[simp] theorem conn_reset_same (w : World) (c : Conn) :
    (w.reset c).conn c = { w.conn c with connfd := 0, status := 0 } := conn_setConn_same ..

@[simp] theorem conn_released_same (w : World) (c : Conn) (b : BioId) :
    (w.released c b).conn c =
      { w.conn c with biofd := none, ssl_ctx := none, connfd := 0, status := 0 } :=
  conn_setConn_same ..

end World

/-- Where `close_conn` returns. -/
inductive Closed (c : Conn) (w : World) : World → Prop
  | reset : (w.conn c).biofd = none → Closed c w (w.reset c)
  | released {b : BioId} {u : World} : (w.conn c).biofd = some b → SyncPath c w u →
      StaysIdle c w u → Closed c w (u.released c b)

namespace Closed

variable {c : Conn} {w t : World}

theorem other (h : Closed c w t) {d : Conn} (hd : d ≠ c) : t.conn d = w.conn d := by
  cases h with
  | reset _ => exact w.conn_reset_other hd
  | released _ hpath _ =>
      exact (World.conn_released_other _ hd _).trans ((SyncPath.frame hpath).other d hd)

theorem biofd (h : Closed c w t) : (t.conn c).biofd = none := by
  cases h with
  | reset hb => simpa using hb
  | released _ _ _ => simp

theorem status (h : Closed c w t) : (t.conn c).status = 0 := by
  cases h with
  | reset _ => simp
  | released _ _ _ => simp

theorem link (h : Closed c w t) : SameLink (w.conn c).mqclt (t.conn c).mqclt := by
  cases h with
  | reset _ =>
      rw [World.conn_reset_same]
      exact .refl _
  | released _ hpath _ =>
      rw [World.conn_released_same]
      exact (SyncPath.frame hpath).link

theorem idle (h : Closed c w t) (hidle : Idle (w.conn c).mqclt) : Idle (t.conn c).mqclt := by
  cases h with
  | reset _ => simpa using hidle
  | released _ _ hi => simpa using (hi hidle).2

theorem timers (h : Closed c w t) : t.otherTimers = w.otherTimers := by
  cases h with
  | reset _ => rfl
  | released _ hpath _ => exact (SyncPath.frame hpath).timers

end Closed

/-- Where `close_conn` stops: while it synchronises. -/
structure CloseStop (c : Conn) (w t : World) : Prop where
  hasBio : ∃ b, (w.conn c).biofd = some b
  sync : SyncStop c w t
  idle : StaysIdle c w t

theorem closeConn_ends (c : Conn) (w : World) :
    Ends (fun _ => Closed c w) (fun _ => CloseStop c w) (closeConn c w) := by
  unfold closeConn
  rw [bind_of_ok (rfl : getConn c w = .ok (w.conn c) w)]
  cases hb : (w.conn c).biofd with
  | none => exact .reset hb
  | some b =>
      refine Ends.bind ((path_closeConnLoop c 3 0 w).and (idle_closeConnLoop c 3 0 w))
        (fun _ u _ ⟨hpath, hidle⟩ => ?_) fun _ _ h => ⟨⟨b, hb⟩, h.1, h.2⟩
      change Closed c w (((u.log (.bioFreeAll b)).setConn c
        { u.conn c with biofd := none, ssl_ctx := none }).setConn c _)
      rw [World.setConn_setConn, World.conn_setConn_same]
      exact .released hb hpath hidle

/-! ## Leaving -/

/-- The world in which the shut-down closes the connections. -/
def World.halted (w : World) : World :=
  let w := match w.ctrl_sock with
    | none => w
    | some sock => { w with
        eloop := { w.eloop with readers := w.eloop.readers.erase sock }, ctrl_sock := none }.log
          .ctrlClose
  { w.log .eloopDestroy with eloop := { w.eloop with destroyed := true } }

namespace World

@[simp] theorem agent_halted (w : World) : w.halted.agent = w.agent := by
  unfold halted
  cases w.ctrl_sock <;> rfl

@[simp] theorem conn_halted (w : World) (c : Conn) : w.halted.conn c = w.conn c := by
  rw [conn, agent_halted]
  rfl

@[simp] theorem bios_halted (w : World) : w.halted.bios = w.bios := by
  unfold halted
  cases w.ctrl_sock <;> rfl

theorem logs_halted (w : World) : Logs (· ∈ [.ctrlClose, .eloopDestroy]) w w.halted := by
  unfold halted
  cases w.ctrl_sock with
  | none => exact .log (by simp)
  | some sock => exact ⟨[.eloopDestroy, .ctrlClose], rfl, by simp⟩

end World

/-- Where `exit_link` gets to: it stops in one of the two closes, or leaves the
process after them. -/
inductive ShutEnd (w : World) : World → Prop
  | recv {t : World} : CloseStop .mqrecv w.halted t → ShutEnd w t
  | upld {u t : World} : Closed .mqrecv w.halted u → CloseStop .mqupld u t → ShutEnd w t
  | exit {u t : World} : Closed .mqrecv w.halted u → Closed .mqupld u t → ShutEnd w t

theorem shutDown_ends (w : World) :
    Ends (fun _ => ShutEnd w) (fun _ => ShutEnd w) (shutDown w) := by
  have hhalt : shutDown w = (do
      closeConn .mqrecv
      closeConn .mqupld : Prog Unit) w.halted := by
    unfold shutDown World.halted admlinkCtrlIfaceDeinit
    rw [bind_assoc, bind_of_ok (get_apply w)]
    cases w.ctrl_sock <;> rfl
  rw [hhalt]
  refine Ends.bind (closeConn_ends .mqrecv w.halted) (fun _ u _ hu => ?_) fun _ _ h => .recv h
  exact (closeConn_ends .mqupld u).mono (fun _ _ h => .exit hu h) fun _ _ h => .upld hu h

theorem exitLink_ends {α : Type} (exitval : Nat) (w : World) :
    Ends (fun _ _ => False) (fun _ => ShutEnd w) (exitLink exitval w : EStateM.Result _ _ α) :=
  (shutDown_ends w).bind (fun _ _ _ h => h) fun _ _ h => h

end Admlink
