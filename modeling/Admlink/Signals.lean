import Admlink.Lib.Interrupt
import Admlink.CtrlSocket
import Admlink.World
import Mathlib.Logic.Function.Basic

/-!
# The daemon step by step, with SIGINT and SIGTERM

`handle_stop` may run between any two steps of the daemon, of an earlier
`handle_stop` too. Here the functions are cut into these steps. `Mem` keeps what
they free and lock; every other decision (what the broker sends, whether a call
fails, when a timer is due) comes from outside. The walks over the timer list are
not cut: nothing but a handler can come between, and it does not return.

`Admlink.Daemon` has the same functions, with what they decide and without the
signals. `Admlink.Stepwise` relates the two: every world between two of its
dispatches is seen in a memory that the steps here lead to.
-/

namespace Admlink.Signals

open Interrupt Code

/-! ## Memory -/

/-- The handlers a timer is registered with. -/
inductive Timer
  | chkAgstatm
  | agHandleClttraffic (p : Conn)
  | eloopSetPublish (p : Conn)
  | eloopSetExit
  deriving DecidableEq

/-- What is released with `free`, `BIO_free_all` or `close`. Nodes, tables and
BIOs are numbered as they are allocated. -/
inductive Resource
  | node (n : Nat)
  | readers (n : Nat)
  | bio (b : BioId)
  | ctrlSock (sock : CtrlSock)
  deriving DecidableEq

structure Mem where
  /-- `interfaces.admcd`, unless null, and whether `interfaces.admcd[0]` is set. -/
  interfaces : Option Bool
  ctrl_sock : CtrlSock
  timeout : List (Nat × Timer)
  readers : Option Nat
  reader_count : Nat
  status : Conn → Nat
  biofd : Conn → Option BioId
  /-- `mqclt.mutex` is locked. -/
  mutex : Conn → Bool
  nodes : Nat
  tables : Nat
  bios : Nat
  released : List Resource
  /-- The connections whose mutex was locked again by the thread that has it. -/
  relocked : List Conn

/-- The process starts. -/
def Mem.zeroed : Mem :=
  { interfaces := none, ctrl_sock := .zeroed, timeout := [], readers := none, reader_count := 0,
    status := fun _ => 0, biofd := fun _ => none, mutex := fun _ => false,
    nodes := 0, tables := 0, bios := 0, released := [], relocked := [] }

namespace Mem

def setCtrlSock (m : Mem) (ctrl_sock : CtrlSock) : Mem := { m with ctrl_sock }

def setMutex (m : Mem) (c : Conn) (locked : Bool) : Mem :=
  { m with mutex := Function.update m.mutex c locked }

def setStatus (m : Mem) (c : Conn) (status : Nat) : Mem :=
  { m with status := Function.update m.status c status }

def setBiofd (m : Mem) (c : Conn) (biofd : Option BioId) : Mem :=
  { m with biofd := Function.update m.biofd c biofd }

def release (m : Mem) (r : Resource) : Mem := { m with released := r :: m.released }

/-- `MQTT_PAL_MUTEX_LOCK` is called: the mutex may be locked already. -/
def callLock (m : Mem) (c : Conn) : Mem :=
  if m.mutex c then { m with relocked := c :: m.relocked } else m

/-- The `n`-th node is linked in at a place that its time decides. -/
def link (m : Mem) (place n : Nat) (t : Timer) : Mem :=
  { m with timeout := m.timeout.insertIdx (min place m.timeout.length) (n, t) }

@[simp] theorem biofd_setBiofd_same (m : Mem) (c : Conn) (biofd : Option BioId) :
    (m.setBiofd c biofd).biofd c = biofd := Function.update_self ..

theorem setBiofd_self {m : Mem} {c : Conn} {biofd : Option BioId} (h : m.biofd c = biofd) :
    m.setBiofd c biofd = m := by
  subst h
  rw [setBiofd, Function.update_eq_self]

theorem biofd_setBiofd_other (m : Mem) {c d : Conn} (h : d ≠ c) (biofd : Option BioId) :
    (m.setBiofd c biofd).biofd d = m.biofd d := Function.update_of_ne h ..

end Mem

abbrev Steps := Code Mem

/-- Time passes: `sleep`, `usleep`. -/
def pause : Steps Unit := update id

def release (r : Resource) : Steps Unit := update (·.release r)

/-! ## Event loop -/

def eloopRegisterTimeout (t : Timer) : Steps Unit := do
  let n ← fetch (fun m => { m with nodes := m.nodes + 1 }) (·.nodes)
  let place ← answer
  update (·.link place n t)

/-- `eloop_register_read_sock`: `realloc` frees the table it replaces. -/
def eloopRegisterReadSock : Steps Unit := do
  let old := (← read).readers
  let tmp ← fetch (fun m => { m with tables := m.tables + 1 }) (·.tables)
  match old with
  | none => pure ()
  | some readers => release (.readers readers)
  update fun m => { m with reader_count := m.reader_count + 1, readers := some tmp }

def freeNodes : List (Nat × Timer) → Steps Unit
  | [] => pure ()
  | (n, _) :: rest => do
      release (.node n)
      freeNodes rest

/-- `eloop_destroy`. No pointer is cleared. -/
def eloopDestroy : Steps Unit := do
  freeNodes (← read).timeout
  match (← read).readers with
  | none => pure ()
  | some readers => release (.readers readers)

/-! ## MQTT-C -/

def lock (c : Conn) : Steps Unit := do
  update (·.callLock c)
  await (fun m => !m.mutex c) (·.setMutex c true)

def unlock (c : Conn) : Steps Unit := update (·.setMutex c false)

/-- `mqtt_publish`, `mqtt_subscribe`, `mqtt_disconnect`: each way out of
`MQTT_CLIENT_TRY_PACK` unlocks. The answer is `MQTT_OK` or not. -/
def tryPack (c : Conn) : Steps Bool := do
  lock c
  let ok ← flip
  unlock c
  return ok

def mqttDisconnect (c : Conn) : Steps Bool := tryPack c

def mqttPublish (c : Conn) : Steps Bool := tryPack c

def mqttSubscribe (c : Conn) : Steps Bool := tryPack c

/-- `mqtt_init` leaves the mutex locked. -/
def mqttInit (c : Conn) : Steps Unit := do
  update (·.setMutex c false)
  lock c

def mqttConnect (c : Conn) : Steps Bool := do
  let ok ← flip
  unlock c
  return ok

def setMqttPublishNexsync (conn : Conn) : Steps Unit := eloopRegisterTimeout (.eloopSetPublish conn)

/-- `admlink_process_rc`: the event of a reboot is not reported. -/
def admlinkProcessRc : Steps Unit := do
  setMqttPublishNexsync .mqrecv
  let reported ← flip
  when reported (setMqttPublishNexsync .mqupld)

/-- `publish_callback`: the message may or may not carry a command. -/
def publishCallback : Steps Unit := do
  let command ← flip
  when command admlinkProcessRc

/-- One round of the loop of `__mqtt_recv`, with the mutex held. -/
def mqttRecvRound : Steps (Unit ⊕ Bool) := do
  let failed ← flip             -- `rv < 0`, `consumed < 0` or the buffer is full
  let incomplete ← flip
  if failed then return .inr false
  else if incomplete then return .inr true
  else do
    let publish ← flip
    when publish publishCallback
    let ok ← flip               -- `mqtt_recv_ret`
    if ok then return .inl () else return .inr false

def mqttRecv (c : Conn) : Steps Bool := do
  lock c
  let ok ← loop (fun _ => mqttRecvRound) ()
  unlock c
  return ok

/-- One round of the loop of `__mqtt_send`. -/
def mqttSendRound : Steps (Unit ⊕ Bool) := do
  let last ← flip
  let failed ← flip
  if last then return .inr true
  else if failed then return .inr false
  else return .inl ()

/-- `__mqtt_send` between its lock and its unlock. -/
def mqttSendQueue : Steps Bool := do
  let error ← flip
  if error then return false
  else do
    let sent ← loop (fun _ => mqttSendRound) ()
    if sent then flip else return false     -- `__mqtt_ping` may fail

def mqttSend (c : Conn) : Steps Bool := do
  lock c
  let ok ← mqttSendQueue
  unlock c
  return ok

/-- `mqtt_sync` without the callbacks that `mqtt_init` sets to NULL. -/
def mqttSync (c : Conn) : Steps Bool := do
  lock c
  unlock c
  let ok ← mqttRecv c
  if ok then mqttSend c else return false

/-! ## Closing and leaving -/

/-- One round of the loop of `close_conn`, from its counter `trys`. -/
def closeConnRound (c : Conn) (trys : Int) : Steps (Int ⊕ Unit) := do
  let packed ← mqttDisconnect c
  let synced ← (if packed then mqttSync c else pure false)
  let trys := (if synced then -1 else trys) + 1
  pause
  if 0 < trys ∧ trys < 3 then return .inl trys else return .inr ()

/-- `BIO_free_all` of what `biofd` points to. -/
def bioFreeAll (c : Conn) : Steps Unit := do
  match (← read).biofd c with
  | none => pure ()
  | some b => release (.bio b)

def closeConn (c : Conn) : Steps Unit := do
  let m ← read
  when (m.biofd c ≠ none) do
    loop (closeConnRound c) 0
    bioFreeAll c
    update (·.setBiofd c none)
  update (·.setStatus c 0)

/-- `admlink_ctrl_iface_deinit`. The control socket is the only reader. -/
def admlinkCtrlIfaceDeinit : Steps Unit := do
  let m ← read
  when (m.ctrl_sock ≠ .none) do
    update fun m => { m with reader_count := m.reader_count - 1 }
    release (.ctrlSock m.ctrl_sock)
    update (·.setCtrlSock .none)

/-- What `exit_link` and the end of `main` do once `interfaces.admcd` is set. -/
def shutDown : Steps Unit := do
  let m ← read
  when (m.interfaces = some true) admlinkCtrlIfaceDeinit
  eloopDestroy
  closeConn .mqrecv
  closeConn .mqupld

/-- `exit_link`. Before `main` has set `interfaces.admcd` it reads through a null
pointer, which ends the process, too. -/
def exitLink {α : Type} : Steps α := do
  if (← read).interfaces = none then .exit
  else do
    shutDown
    .exit

inductive Sig
  | int
  | term
  deriving DecidableEq

def handleStop (_ : Sig) : Steps Empty := exitLink

/-! ## Opening -/

/-- `BIO_new_ssl_connect`, stored through `open_nb_socket`'s argument. -/
def newBio (c : Conn) : Steps Unit := do
  let b ← fetch (fun m => { m with bios := m.bios + 1 }) (·.bios)
  update (·.setBiofd c (some b))

def openNbSocket (c : Conn) : Steps Unit := do
  let loaded ← flip
  when (!loaded) exitLink
  newBio c
  pause
  let connected ← flip
  if connected then do
    let verified ← flip
    when (!verified) exitLink
  else do
    bioFreeAll c
    update (·.setBiofd c none)

/-- `case 0` of `check_mqrecv` and `check_mqupld`. -/
def connectConn (c : Conn) (subscribe : Steps Unit) : Steps Bool := do
  openNbSocket c
  if (← read).biofd c = none then return false
  else do
    mqttInit c
    let _ ← mqttConnect c
    let error ← flip            -- `mqclt.error`
    if error then return false
    else do
      let synced ← mqttSync c
      if synced then do
        subscribe
        update (·.setStatus c 1)
        eloopRegisterTimeout (.agHandleClttraffic c)
        return true
      else return false

def subscribeTopicrecv : Steps Unit := do
  pause
  let _ ← mqttSubscribe .mqrecv
  pure ()

def checkMqrecv : Steps Bool := do
  if (← read).status .mqrecv = 0 then connectConn .mqrecv subscribeTopicrecv else return true

def checkMqupld : Steps Bool := do
  if (← read).status .mqupld = 0 then connectConn .mqupld (pure ()) else return true

/-! ## Timer handlers -/

def checkAgstatus : Steps Unit := do
  let isErr ← flip
  when isErr exitLink

def chkAgstatm : Steps Unit := do
  let recv ← checkMqrecv
  let both ← (if recv then checkMqupld else pure false)
  when both checkAgstatus
  eloopRegisterTimeout .chkAgstatm

def agHandleClttraffic (p : Conn) : Steps Unit := do
  let ok ← mqttSync p
  if ok then eloopRegisterTimeout (.agHandleClttraffic p) else closeConn p

def eloopSetPublish (p : Conn) : Steps Unit := do
  let _ ← mqttPublish p
  let error ← flip              -- `mqclt.error`
  when error (closeConn p)

def Timer.run : Timer → Steps Unit
  | .chkAgstatm => Signals.chkAgstatm
  | .agHandleClttraffic p => Signals.agHandleClttraffic p
  | .eloopSetPublish p => Signals.eloopSetPublish p
  | .eloopSetExit => exitLink

/-! ## Control interface -/

/-- `admlink_ctrl_iface_init`: the answer is 0 or not. -/
def admlinkCtrlIfaceInit : Steps Bool := do
  update (·.setCtrlSock .none)
  let opened ← flip             -- `mkdir` and `socket`
  if opened then do
    let named ← flip            -- `bind` and `chmod`
    if named then do
      update (·.setCtrlSock .bound)
      return true
    else do
      release (.ctrlSock .bound)
      return false
  else return false

/-- `admlink_ctrl_iface_receive`: a stop, a test message, or nothing to do. -/
def admlinkCtrlIfaceReceive : Steps Unit := do
  let stop ← flip
  if stop then eloopRegisterTimeout .eloopSetExit
  else do
    let sendtest ← flip
    when sendtest (setMqttPublishNexsync .mqupld)

/-! ## `eloop_run` and `main` -/

/-- The timer part of an iteration. -/
def eloopRunTimeout : Steps Unit := do
  let due ← flip
  match (← read).timeout with
  | [] => pure ()
  | (n, t) :: rest =>
      when due do
        update fun m => { m with timeout := rest }
        t.run
        release (.node n)

def eloopRunRound : Steps (Unit ⊕ Unit) := do
  let m ← read
  if m.timeout = [] ∧ m.reader_count = 0 then return .inr ()
  else do
    let selected ← flip
    if selected then do
      eloopRunTimeout
      let readable ← flip
      when readable admlinkCtrlIfaceReceive
      return .inl ()
    else return .inr ()

def eloopRun : Steps Unit := loop (fun _ => eloopRunRound) ()

/-- `main`, from where the signal handlers are set. -/
def main : Steps Empty := do
  update fun m => { m with interfaces := some false }
  update fun m => { m with interfaces := some true }
  let opened ← admlinkCtrlIfaceInit
  when opened do
    update fun m => { m with timeout := [], readers := none, reader_count := 0 }
    eloopRegisterReadSock
    eloopRegisterTimeout .chkAgstatm
    eloopRun
  shutDown
  .exit

/-- A state of the daemon, however it was interrupted, when the signals arrive
only in states that meet `C`. -/
abbrev Reached (C : Mem → Prop) (m : Machine Mem Sig) : Prop :=
  Runs.Reaches (Machine.step handleStop) (Machine.Starts (· = .zeroed) main) (Machine.Delivered C) m

/-! ## Registering a timer -/

/-- A new timer changes nothing about `J`. -/
structure Timers (J : Mem → Prop) : Prop where
  malloc : ∀ m, J m → J { m with nodes := m.nodes + 1 }
  link : ∀ m place t, J m → J ({ m with nodes := m.nodes + 1 }.link place m.nodes t)

namespace Timers

variable {J : Mem → Prop}

theorem eloopRegisterTimeout (hJ : Timers J) (t : Timer) :
    Keeps J (eloopRegisterTimeout t) := by
  intro m h
  simp only [Signals.eloopRegisterTimeout, safe_bind, safe_fetch, safe_answer, safe_update]
  exact ⟨h, hJ.malloc m h, fun place => ⟨hJ.malloc m h, hJ.link m place t h⟩⟩

theorem publishCallback (hJ : Timers J) : Keeps J publishCallback := by
  refine .bind .flip fun command => .when ?_
  refine .bind (hJ.eloopRegisterTimeout _) fun _ => .bind .flip fun reported => ?_
  exact .when (hJ.eloopRegisterTimeout _)

end Timers

/-! ## Runs -/

/-- Steps without a signal, with these answers. -/
def steps (answers : List Nat) : List (Input Sig) := answers.map .next

def boot : Machine Mem Sig := ⟨.zeroed, [], main⟩

theorem boot_starts : Machine.Starts (ι := Sig) (· = .zeroed) main boot := ⟨rfl, rfl, rfl⟩

def ran (is : List (Input Sig)) : Machine Mem Sig :=
  Program.final (Runs.exec (Machine.step handleStop) is boot)

/-- `main` up to the first `select`. -/
def serving : List (Input Sig) := steps (List.replicate 13 0 ++ [5, 0])

end Admlink.Signals
