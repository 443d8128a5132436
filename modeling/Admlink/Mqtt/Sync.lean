import Admlink.World

/-!
# `mqtt_sync`: the part of MQTT-C that talks to the socket

Every `BIO_read` and `BIO_write` goes through `client->socketfd`. `__mqtt_recv`
reads, unpacks and handles packets until nothing complete is left or something
fails, and calls `publish_response_callback` in the middle of that;
`__mqtt_send` walks the queue once. The callback is a parameter.
-/

namespace Admlink

open Program

/-! ## `mqtt_pal.c` with `MQTT_USE_BIO` -/

/-- One `BIO_read` or `BIO_write` on `client->socketfd`; `written` goes out. -/
def bioAccess (c : Conn) (written : Bytes) : Prog Unit := do
  let w ← get
  let p := w.conn c
  emit (.bioIo c p.mqclt.socketfd p.biofd written)
  match p.mqclt.socketfd with
  | none => fault .nullPointer
  | some b => if w.freed b then fault .freedMemory else pure ()

/-- The loop of `mqtt_pal_recvall`: `bufsz` bytes of room are left. `none` is
the socket error. No BIO answers no byte or more than it was asked for. -/
def mqttPalRecvallLoop (c : Conn) : Nat → Nat → Bytes → Prog (Option Bytes)
  | 0, _, _ => throw .blocked
  | fuel + 1, bufsz, acc => do
      bioAccess c []
      match ← bioReadAnswer with
      | .data bs =>
          if bs = [] ∨ bufsz < bs.length then throw .blocked
          else if bufsz = bs.length then return some (acc ++ bs)
          else mqttPalRecvallLoop c fuel (bufsz - bs.length) (acc ++ bs)
      | .wantRead => return some acc
      | .wantOther => mqttPalRecvallLoop c fuel bufsz acc
      | .failed => return none

/-- `mqtt_pal_recvall`. Each round takes an answer, so their number bounds it. -/
def mqttPalRecvall (c : Conn) (bufsz : Nat) : Prog (Option Bytes) := do
  mqttPalRecvallLoop c ((← get).env.reads.length + 1) bufsz []

/-- What `BIO_write` is about to take of `buf`. -/
def bioTakes (buf : Bytes) : List BioWrite → Bytes
  | .sent n :: _ => buf.take n
  | _ => []

/-- The loop of `mqtt_pal_sendall` with `buf` to go; `false` is the socket
error. -/
def mqttPalSendallLoop (c : Conn) : Nat → Bytes → Prog Bool
  | 0, _ => throw .blocked
  | fuel + 1, buf => do
      if buf = [] then return true
      else
        bioAccess c (bioTakes buf (← get).env.writes)
        match ← bioWriteAnswer with
        | .sent n =>
            if n = 0 ∨ buf.length < n then throw .blocked
            else mqttPalSendallLoop c fuel (buf.drop n)
        | .retry => mqttPalSendallLoop c fuel buf
        | .failed => return false

/-- `mqtt_pal_sendall`: all of `buf` or the socket error. -/
def mqttPalSendall (c : Conn) (buf : Bytes) : Prog Bool := do
  mqttPalSendallLoop c ((← get).env.writes.length + 1) buf

/-! ## Receiving -/

/-- The type of `publish_response_callback`: it gets the receive buffer and the
unpacked PUBLISH. -/
abbrev PublishCallback := Bytes → ResponsePublish → Prog Unit

def setError (c : Conn) (e : MqttErrors) : Prog Unit :=
  modifyClient c fun cl => { cl with error := e }

/-- The request whose PUBLISH an acknowledgement names. -/
def ackedSeqno (cl : Client) : Response → Option Nat
  | .puback pid | .pubrec pid =>
      (cl.entries.find? (mqttMqMatches .publish (some pid))).bind (·.seqno)
  | _ => none

/-- The switch of `__mqtt_recv`: `mqtt_recv_ret`. -/
def handleResponse (cb : PublishCallback) (c : Conn) (mem : Bytes) (r : Response) :
    Prog MqttErrors := do
  let cl ← getClient c
  emit (.packet c r (ackedSeqno cl r))
  match r with
  | .publish p => do
      let (call, ret, cl) := handlePublish cl p
      setClient c cl
      if call then cb mem p
      return ret
  | r => onClient c (handleAck · r)

/-- One round of the loop of `__mqtt_recv`: `none` to go on, else its result. -/
def mqttRecvStep (cb : PublishCallback) (c : Conn) : Prog (Option MqttErrors) := do
  let buf := (← getClient c).recv_buffer
  match ← mqttPalRecvall c buf.free.length with
  | none => do
      setError c .socketError
      return some .socketError
  | some new => do
      let buf := buf.store new
      modifyClient c fun cl => { cl with recv_buffer := buf }
      match mqttUnpackResponse buf.mem buf.received.length with
      | .error (.fault f) => fault f
      | .error (.mqtt e) => do
          setError c e
          return some e
      | .ok none =>
          if buf.free.length = 0 then do
            setError c .recvBufferTooSmall
            return some .recvBufferTooSmall
          else return some .ok
      | .ok (some (response, consumed)) => do
          let ret ← handleResponse cb c buf.mem response
          -- `memmove` of `curr - mem_start - consumed` bytes
          if buf.received.length < consumed then fault .outOfBounds
          else do
            modifyClient c fun cl => { cl with recv_buffer := buf.consume consumed }
            return if ret = .ok then none else some ret

def mqttRecvLoop (cb : PublishCallback) (c : Conn) : Nat → Prog MqttErrors
  | 0 => throw .blocked
  | fuel + 1 => do
      match ← mqttRecvStep cb c with
      | some ret => return ret
      | none => mqttRecvLoop cb c fuel

/-- `__mqtt_recv`. Each round takes at least one answer of `BIO_read`. -/
def mqttRecv (cb : PublishCallback) (c : Conn) : Prog MqttErrors := do
  mqttRecvLoop cb c ((← get).env.reads.length + 1)

/-! ## Sending -/

/-- Whether a queued message is due: `resend` and the reset of `send_offset`. -/
def sendIsDue (c : Conn) (m : QueuedMessage) : Prog Bool := do
  match m.state with
  | .unsent => return true
  | .complete => return false
  | .awaitingAck => do
      let now ← mqttPalTime
      if m.time_sent + (← getClient c).response_timeout < now then do
        modifyClient c fun cl => { cl with send_offset := 0 }
        return true
      else return false

/-- An unfinished QoS 2 PUBLISH. -/
def isInflightQos2 (m : QueuedMessage) : Bool :=
  m.control_type = .publish && m.state ≠ .complete && qosOf (m.start.headD 0).toNat = 2

/-- How the body of the send loop ends: on to the next message, out of the
loop, or out of the function. -/
inductive SendNext
  | next | stop | ret (e : MqttErrors)
deriving DecidableEq

/-- Send message `i` and put it in its next state. -/
def sendMessage (c : Conn) (i : Nat) (m : QueuedMessage) : Prog SendNext := do
  let offset := (← getClient c).send_offset
  let len := m.start.length - offset
  if !(← mqttPalSendall c (m.start.drop offset)) then do
    setError c .socketError
    return .ret .socketError
  else if offset + len < m.start.length then do
    modifyClient c fun cl => { cl with send_offset := offset + len }
    return .stop
  else do
    let now ← mqttPalTime
    modifyClient c fun cl => { cl with send_offset := 0, time_of_last_send := now }
    match stateAfterSend m with
    | none => do
        setError c .malformedRequest
        return .ret .malformedRequest
    | some state => do
        modifyClient c fun cl =>
          cl.setEntries (cl.entries.set i { m with start := markDup m, state, time_sent := now })
        return .next

/-- The loop of `__mqtt_send` from message `i` on: `todo` messages are left.
`none` when the loop is left towards the keep-alive check. -/
def mqttSendLoop (c : Conn) : Nat → Nat → Bool → Prog (Option MqttErrors)
  | 0, _, _ => return none
  | todo + 1, i, inflight_qos2 => do
      match (← getClient c).entries[i]? with
      | none => return none
      | some m => do
          let due ← sendIsDue c m
          let resend := due && !(isInflightQos2 m && inflight_qos2)
          let inflight_qos2 := inflight_qos2 || isInflightQos2 m
          if resend then do
            match ← sendMessage c i m with
            | .next => mqttSendLoop c todo (i + 1) inflight_qos2
            | .stop => return none
            | .ret e => return some e
          else mqttSendLoop c todo (i + 1) inflight_qos2

/-- The keep-alive check: ping after three quarters of the interval. -/
def checkKeepAlive (c : Conn) : Prog MqttErrors := do
  let cl ← getClient c
  if cl.time_of_last_send + cl.keep_alive * 3 / 4 < (← mqttPalTime) then
    onClient c mqttPing
  else return .ok

/-- `__mqtt_send`. -/
def mqttSend (c : Conn) : Prog MqttErrors := do
  let cl ← getClient c
  if cl.error.neg ∧ cl.error ≠ .sendBufferIsFull then return cl.error
  else do
    match ← mqttSendLoop c cl.entries.length 0 false with
    | some e => return e
    | none => checkKeepAlive c

/-- `mqtt_sync` with `inspector_callback` and `reconnect_callback` NULL. -/
def mqttSync (cb : PublishCallback) (c : Conn) : Prog MqttErrors := do
  if (← getClient c).error = .reconnecting then setError c .ok
  let err ← mqttRecv cb c
  if err ≠ .ok then return err
  else mqttSend c

end Admlink
