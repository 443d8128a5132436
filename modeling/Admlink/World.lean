import Admlink.Lib.Program
import Admlink.CJson
import Admlink.Eloop
import Admlink.Mqtt.Client

/-!
# The daemon's state and what the outside world answers

`World` is everything a handler of the daemon can read or write: the agent
with its two connections, the event loop, and the answers the operating
system, OpenSSL and the broker give during one dispatch (`Env`). `trace` lists
what happened, newest first; no code reads it except to tell whether a BIO has
been freed.

A handler is a `Prog`. It ends by returning, or it stops the run: the process
exits, does something undefined, or waits for an answer it never gets.
-/

namespace Admlink

open Program

/-! ## Agent -/

inductive Conn
  | mqrecv | mqupld
deriving DecidableEq, Repr

abbrev BioId := Nat
abbrev CtxId := Nat

inductive AgStatus
  | isErr | isOk | isReboot | isFwup
deriving DecidableEq, Repr

/-- The members of `struct tm` the agent prints. -/
structure Tm where
  year : Nat
  mon : Nat
  mday : Nat
  hour : Nat
  min : Nat
  sec : Nat
deriving DecidableEq, Repr

def bufSendSize : Nat := 4096
def bufRecvSize : Nat := 2048

abbrev Client := MqttClient BioId

/-- `struct _mqconn`. The address and the certificate paths only travel to
OpenSSL. -/
structure MqConn where
  ssl_ctx : Option CtxId
  biofd : Option BioId
  connfd : Nat
  status : Nat
  cltid : Field 128
  topicsend : Field 128
  topicrecv : Field 128
  mqclt : Client

/-- `struct _agent`. -/
structure Agent where
  agstatus : AgStatus
  devid : Field 128
  mqrecv : MqConn
  mqupld : MqConn
  tinfo : Option Tm

namespace Agent

def conn (a : Agent) : Conn → MqConn
  | .mqrecv => a.mqrecv
  | .mqupld => a.mqupld

def setConn (a : Agent) : Conn → MqConn → Agent
  | .mqrecv, m => { a with mqrecv := m }
  | .mqupld, m => { a with mqupld := m }

@[simp] theorem conn_setConn_same (a : Agent) (c : Conn) (m : MqConn) :
    (a.setConn c m).conn c = m := by cases c <;> rfl

theorem conn_setConn_other (a : Agent) {c d : Conn} (h : d ≠ c) (m : MqConn) :
    (a.setConn c m).conn d = a.conn d := by
  cases c <;> cases d <;> first | rfl | exact absurd rfl h

@[simp] theorem agstatus_setConn (a : Agent) (c : Conn) (m : MqConn) :
    (a.setConn c m).agstatus = a.agstatus := by cases c <;> rfl

@[simp] theorem tinfo_setConn (a : Agent) (c : Conn) (m : MqConn) :
    (a.setConn c m).tinfo = a.tinfo := by cases c <;> rfl

end Agent

/-! ## Event loop -/

/-- `struct _setpublish`. `seqno` is no part of the code: it numbers the
requests. -/
structure SetPublish where
  conn : Conn
  topic_name : Field 128
  application_message : Bytes
  publish_flags : Nat
  seqno : Nat
deriving DecidableEq

/-- The timer handlers with the context they are registered with. -/
inductive Handler
  | chkAgstatm
  | agHandleClttraffic (p : Conn)
  | eloopSetPublish (p : SetPublish)
  | eloopSetExit
deriving DecidableEq

/-- `struct eloop_data`. `destroyed` says that `eloop_destroy` has freed the
nodes of `timeout`, which still points to them. -/
structure Eloop where
  timeout : List (EloopTimeout Handler)
  readers : List Nat
  destroyed : Bool

/-! ## Outside world -/

/-- What `BIO_read` answers: bytes; nothing yet, with `BIO_should_read` set or
not; or an error. -/
inductive BioRead
  | data (bs : Bytes)
  | wantRead
  | wantOther
  | failed
deriving DecidableEq, Repr

inductive BioWrite
  | sent (n : Nat)
  | retry
  | failed
deriving DecidableEq, Repr

/-- How `open_nb_socket` fares with OpenSSL. -/
inductive OpenAnswer
  | loadFailed            -- certificate, key or CA file
  | connectFailed
  | verifyFailed (connfd : Nat)
  | connected (connfd : Nat)
deriving DecidableEq, Repr

/-- The answers available during one dispatch. `clocks` are the microseconds
that pass before each reading of the monotonic clock. -/
structure Env where
  clocks : List Nat
  times : List Nat
  tms : List Tm
  opens : Conn → OpenAnswer
  reads : List BioRead
  writes : List BioWrite

/-- What can be seen happening. -/
inductive Event
  | sslCtxNew (x : CtxId)
  | sslCtxFree (x : CtxId)
  | bioNew (c : Conn) (old : Option BioId) (b : BioId) (x : CtxId)
  | bioFreeAll (b : BioId)
  | bioIo (c : Conn) (socketfd biofd : Option BioId) (written : Bytes)
  | mqttInit (c : Conn)
  | registerTimeout (h : Handler)
  | eloopDestroy
  | ctrlClose
  | request (conn : Conn) (topic_name : Field 128) (application_message : Bytes)
      (publish_flags seqno : Nat)
  | publish (p : SetPublish) (initialised : Bool)
  | packet (c : Conn) (r : Response) (seqno : Option Nat)
  | deliver (c : Conn) (app_msg : Bytes)
  | processRc (rcid : Option Bytes)
  | strftime (tinfo : Option Tm)
  | rebootRc
  | cmdHandle (buf : Bytes)
  | ctrlReply (reply : Bytes)
deriving DecidableEq

def Event.isRequest : Event → Bool
  | .request .. => true
  | _ => false

structure World where
  agent : Agent
  eloop : Eloop
  ctrl_sock : Option Nat
  bios : Nat                -- BIOs created so far, numbered from 0
  ctxs : Nat                -- SSL_CTXs created so far
  requests : Nat            -- publish requests so far
  clock : Nat               -- CLOCK_MONOTONIC in microseconds
  env : Env
  trace : List Event

/-- Why a handler does not return. -/
inductive Stop
  | exit (code : Nat)
  | fault (f : Fault)
  | blocked                 -- the outside world does not answer
deriving DecidableEq, Repr

abbrev Prog := EStateM Stop World

namespace World

def conn (w : World) (c : Conn) : MqConn := w.agent.conn c

def setConn (w : World) (c : Conn) (m : MqConn) : World :=
  { w with agent := w.agent.setConn c m }

def setClient (w : World) (c : Conn) (cl : Client) : World :=
  w.setConn c { w.conn c with mqclt := cl }

def log (w : World) (e : Event) : World := { w with trace := e :: w.trace }

/-- `d` microseconds pass and answers are used up. -/
def tick (w : World) (d : Nat) (env : Env) : World := { w with clock := w.clock + d, env }

/-- A timer registered now. -/
def schedule (w : World) (secs usecs : Nat) (h : Handler) : World :=
  { w with eloop :=
    { w.eloop with timeout :=
        eloopRegisterTimeout (.ofUsec w.clock) secs usecs h w.eloop.timeout } }

/-- `BIO_free_all` has been called on `b`. -/
def freed (w : World) (b : BioId) : Bool :=
  w.trace.any fun
    | .bioFreeAll b' => b' = b
    | _ => false

@[simp] theorem conn_setConn_same (w : World) (c : Conn) (m : MqConn) :
    (w.setConn c m).conn c = m := Agent.conn_setConn_same ..

theorem conn_setConn_other (w : World) {c d : Conn} (h : d ≠ c) (m : MqConn) :
    (w.setConn c m).conn d = w.conn d := Agent.conn_setConn_other _ h m

@[simp] theorem setConn_setConn (w : World) (c : Conn) (m m' : MqConn) :
    (w.setConn c m).setConn c m' = w.setConn c m' := by cases c <;> rfl

@[simp] theorem trace_setConn (w : World) (c : Conn) (m : MqConn) :
    (w.setConn c m).trace = w.trace := rfl

@[simp] theorem tinfo_setConn (w : World) (c : Conn) (m : MqConn) :
    (w.setConn c m).agent.tinfo = w.agent.tinfo := Agent.tinfo_setConn ..

@[simp] theorem agstatus_setConn (w : World) (c : Conn) (m : MqConn) :
    (w.setConn c m).agent.agstatus = w.agent.agstatus := Agent.agstatus_setConn ..

@[simp] theorem conn_setClient_same (w : World) (c : Conn) (cl : Client) :
    (w.setClient c cl).conn c = { w.conn c with mqclt := cl } := conn_setConn_same ..

theorem conn_setClient_other (w : World) {c d : Conn} (h : d ≠ c) (cl : Client) :
    (w.setClient c cl).conn d = w.conn d := conn_setConn_other _ h _

@[simp] theorem setClient_setClient (w : World) (c : Conn) (cl cl' : Client) :
    (w.setClient c cl).setClient c cl' = w.setClient c cl' := by cases c <;> rfl

@[simp] theorem trace_setClient (w : World) (c : Conn) (cl : Client) :
    (w.setClient c cl).trace = w.trace := rfl

@[simp] theorem tinfo_setClient (w : World) (c : Conn) (cl : Client) :
    (w.setClient c cl).agent.tinfo = w.agent.tinfo := Agent.tinfo_setConn ..

@[simp] theorem agstatus_setClient (w : World) (c : Conn) (cl : Client) :
    (w.setClient c cl).agent.agstatus = w.agent.agstatus := Agent.agstatus_setConn ..

@[simp] theorem conn_log (w : World) (e : Event) (c : Conn) :
    (w.log e).conn c = w.conn c := rfl

@[simp] theorem trace_log (w : World) (e : Event) :
    (w.log e).trace = e :: w.trace := rfl

@[simp] theorem conn_tick (w : World) (d : Nat) (env : Env) (c : Conn) :
    (w.tick d env).conn c = w.conn c := rfl

@[simp] theorem trace_tick (w : World) (d : Nat) (env : Env) :
    (w.tick d env).trace = w.trace := rfl

@[simp] theorem conn_schedule (w : World) (secs usecs : Nat) (h : Handler) (c : Conn) :
    (w.schedule secs usecs h).conn c = w.conn c := rfl

@[simp] theorem trace_schedule (w : World) (secs usecs : Nat) (h : Handler) :
    (w.schedule secs usecs h).trace = w.trace := rfl

end World

/-- What `x` adds to the trace of `w`, newest first. -/
def added {α : Type} (x : Prog α) (w : World) : List Event :=
  let trace := (final (x w)).trace
  trace.take (trace.length - w.trace.length)

theorem added_eq {α : Type} {x : Prog α} {w : World} (new : List Event)
    (h : (final (x w)).trace = new ++ w.trace) : added x w = new := by
  simp [added, h]

/-! ## Primitive programs -/

def emit (e : Event) : Prog Unit := modify (·.log e)

def fault {α : Type} (f : Fault) : Prog α := throw (.fault f)

/-- A pure computation that may fault. -/
def orFault {α : Type} (r : Except Fault α) : Prog α :=
  match r with
  | .ok a => pure a
  | .error f => fault f

def getConn (c : Conn) : Prog MqConn := do return (← get).conn c

def modifyConn (c : Conn) (f : MqConn → MqConn) : Prog Unit :=
  modify fun w => w.setConn c (f (w.conn c))

def getClient (c : Conn) : Prog Client := do return ((← get).conn c).mqclt

def modifyClient (c : Conn) (f : Client → Client) : Prog Unit :=
  modify fun w => w.setClient c (f (w.conn c).mqclt)

def setClient (c : Conn) (cl : Client) : Prog Unit := modifyClient c fun _ => cl

/-- Run an MQTT-C call that only packs on a connection's client. -/
def onClient (c : Conn) (call : Client → MqttErrors × Client) : Prog MqttErrors := do
  let r := call (← getClient c)
  setClient c r.2
  return r.1

/-- `xgettimeofday`. -/
def xgettimeofday : Prog Timeval := do
  let w ← get
  match w.env.clocks with
  | [] => throw .blocked
  | d :: ds => do
      modify fun w => { w with clock := w.clock + d, env := { w.env with clocks := ds } }
      return Timeval.ofUsec (w.clock + d)

/-- `MQTT_PAL_TIME()`. -/
def mqttPalTime : Prog Nat := do
  match (← get).env.times with
  | [] => throw .blocked
  | t :: ts => do
      modify fun w => { w with env := { w.env with times := ts } }
      return t

/-- `localtime(&timer)` for the current time. -/
def localtime : Prog Tm := do
  match (← get).env.tms with
  | [] => throw .blocked
  | t :: ts => do
      modify fun w => { w with env := { w.env with tms := ts } }
      return t

def bioReadAnswer : Prog BioRead := do
  match (← get).env.reads with
  | [] => throw .blocked
  | r :: rs => do
      modify fun w => { w with env := { w.env with reads := rs } }
      return r

def bioWriteAnswer : Prog BioWrite := do
  match (← get).env.writes with
  | [] => throw .blocked
  | r :: rs => do
      modify fun w => { w with env := { w.env with writes := rs } }
      return r

/-- `eloop_register_timeout`. After `eloop_destroy` the walk over a list that
was not empty reads freed nodes. -/
def registerTimeout (secs usecs : Nat) (h : Handler) : Prog Unit := do
  emit (.registerTimeout h)
  let now ← xgettimeofday
  let w ← get
  if w.eloop.destroyed ∧ w.eloop.timeout ≠ [] then fault .freedMemory
  else
    modify fun w => { w with eloop :=
      { w.eloop with timeout := eloopRegisterTimeout now secs usecs h w.eloop.timeout } }

/-- The two ends of a registration: some time passes and the timer is there, or
there is none. -/
theorem registerTimeout_ends (secs usecs : Nat) (h : Handler) (w : World) :
    Ends
      (fun _ t => ∃ d env, t = ((w.log (.registerTimeout h)).tick d env).schedule secs usecs h ∧
        (w.eloop.destroyed = true → w.eloop.timeout = []))
      (fun _ t => ∃ d env, t = (w.log (.registerTimeout h)).tick d env)
      (registerTimeout secs usecs h w) := by
  unfold registerTimeout xgettimeofday
  simp only [bind_apply, emit, modify_apply, get_apply]
  cases hc : (w.log (.registerTimeout h)).env.clocks with
  | nil => exact ⟨0, w.env, rfl⟩
  | cons d ds =>
      by_cases hd : w.eloop.destroyed ∧ w.eloop.timeout ≠ []
      · simp only [bind_apply, modify_apply, pure_apply, World.log, if_pos hd]
        exact ⟨d, { w.env with clocks := ds }, rfl⟩
      · simp only [bind_apply, modify_apply, pure_apply, World.log, if_neg hd]
        refine ⟨d, { w.env with clocks := ds }, rfl, fun hdes => ?_⟩
        by_contra hne
        exact hd ⟨hdes, hne⟩

/-- `MQTT_SYN_T` in microseconds. -/
def mqttSynT : Nat := 200000

/-- `SM_CHECK_T` in seconds. -/
def smCheckT : Nat := 30

end Admlink
