import Admlink.Lib.Runs
import Admlink.MsgHandle
import Admlink.Mqtt.Sync

/-!
# The daemon: `admlink_main.c`, `admlink_socket.c`, `admlink_sm.c`,
`admlink_ctrl_if.c` and the loop of `eloop_run`

Handlers are programs on the `World`. One `Dispatch` is what happens between
two states of the loop: the timer check of `eloop_run`, the reader part of the
same iteration, or a failing `select`.
-/

namespace Admlink

open Program Runs

/-- `mqtt_sync` with the callback `mqtt_init` was given. -/
def agSync (c : Conn) : Prog MqttErrors := mqttSync (publishCallback c) c

/-! ## Closing a connection, leaving the process -/

/-- One round of the loop of `close_conn`, from and to its counter `trys`. -/
def closeConnRound (c : Conn) (trys : Int) : Prog Int := do
  let trys ←
    if (← onClient c mqttDisconnect) = .ok then do
      if (← agSync c) = .ok then pure (-1) else pure trys
    else pure trys
  return trys + 1

/-- The loop of `close_conn`: `while (trys > 0 && trys < 3)`. -/
def closeConnLoop (c : Conn) : Nat → Int → Prog Unit
  | 0, _ => fault .outOfFuel
  | fuel + 1, trys => do
      let trys ← closeConnRound c trys
      if 0 < trys ∧ trys < 3 then closeConnLoop c fuel trys else return ()

/-- `close_conn`. The loop counter goes up by one or the loop ends, so three
rounds are enough. -/
def closeConn (c : Conn) : Prog Unit := do
  match (← getConn c).biofd with
  | none => pure ()
  | some b => do
      closeConnLoop c 3 0
      emit (.bioFreeAll b)
      modifyConn c fun p => { p with biofd := none, ssl_ctx := none }
  modifyConn c fun p => { p with connfd := 0, status := 0 }

/-- `admlink_ctrl_iface_deinit`. -/
def admlinkCtrlIfaceDeinit : Prog Unit := do
  match (← get).ctrl_sock with
  | none => pure ()
  | some sock => do
      modify fun w => { w with
        eloop := { w.eloop with readers := w.eloop.readers.erase sock }, ctrl_sock := none }
      emit .ctrlClose

/-- `eloop_destroy`: the nodes are freed, the head of the list stays. -/
def eloopDestroy : Prog Unit := do
  emit .eloopDestroy
  modify fun w => { w with eloop := { w.eloop with destroyed := true } }

/-- The clean-up `exit_link` and the end of `main` share. -/
def shutDown : Prog Unit := do
  admlinkCtrlIfaceDeinit
  eloopDestroy
  closeConn .mqrecv
  closeConn .mqupld

/-- `exit_link`. -/
def exitLink {α : Type} (exitval : Nat) : Prog α := do
  shutDown
  throw (.exit exitval)

/-! ## Opening a connection -/

/-- `BIO_new_ssl_connect` stored through `open_nb_socket`'s argument. -/
def newBio (c : Conn) (x : CtxId) : Prog BioId := do
  let w ← get
  emit (.bioNew c (w.conn c).biofd w.bios x)
  modify fun w => { w with bios := w.bios + 1 }
  modifyConn c fun p => { p with biofd := some w.bios }
  return w.bios

/-- `open_nb_socket`. `connfd` is what `BIO_get_fd` will find. -/
def openNbSocket (c : Conn) : Prog Nat := do
  let w ← get
  let x := w.ctxs
  emit (.sslCtxNew x)
  modify fun w => { w with ctxs := w.ctxs + 1 }
  modifyConn c fun p => { p with ssl_ctx := some x }
  match w.env.opens c with
  | .loadFailed => exitLink 1
  | .connectFailed => do
      let b ← newBio c x
      emit (.bioFreeAll b)
      emit (.sslCtxFree x)
      modifyConn c fun p => { p with biofd := none, ssl_ctx := none }
      return 0
  | .verifyFailed _ => do
      let _ ← newBio c x
      exitLink 1
  | .connected connfd => do
      let _ ← newBio c x
      return connfd

/-- `mqtt_init` and `mqtt_connect` on a connection that has just been opened:
the error `mqtt_connect` leaves in the client. -/
def initAndConnect (c : Conn) : Prog MqttErrors := do
  let p ← getConn c
  emit (.mqttInit c)
  setClient c (mqttInit p.mqclt p.biofd bufSendSize bufRecvSize)
  let _ ← onClient c fun cl => mqttConnect cl p.cltid.str connectCleanSession 60
  return (← getClient c).error

/-- The `case 0` of `check_mqrecv` and `check_mqupld`; `subscribe` is what the
receiver does before it counts as connected. The answer is the C return value. -/
def connectConn (c : Conn) (subscribe : Prog Unit) : Prog Bool := do
  let connfd ← openNbSocket c
  if (← getConn c).biofd = none then return false
  else do
    modifyConn c fun p => { p with connfd := connfd }
    if (← initAndConnect c) ≠ .ok then return false
    else if (← agSync c) ≠ .ok then return false
    else do
      subscribe
      modifyConn c fun p => { p with status := 1 }
      registerTimeout 0 mqttSynT (.agHandleClttraffic c)
      return true

/-- `mqtt_subscribe` to `topicrecv`, its result only printed. -/
def subscribeTopicrecv : Prog Unit := do
  let p ← getConn .mqrecv
  let r ← orFault (mqttSubscribe p.mqclt p.topicrecv.str 0)
  setClient .mqrecv r.2

def checkMqrecv : Prog Bool := do
  if (← getConn .mqrecv).status = 0 then connectConn .mqrecv subscribeTopicrecv
  else return true

def checkMqupld : Prog Bool := do
  if (← getConn .mqupld).status = 0 then connectConn .mqupld (pure ())
  else return true

/-! ## Timer handlers -/

/-- `check_agstatus`. -/
def checkAgstatus : Prog Unit := do
  if (← get).agent.agstatus = .isErr then exitLink 1
  else do
    let t ← localtime
    modify fun w => { w with agent := { w.agent with tinfo := some t, agstatus := .isOk } }

/-- The two checks of `chk_agstatm`, joined by `&&`. -/
def checkConns : Prog Bool := do
  if ← checkMqrecv then checkMqupld else return false

/-- `chk_agstatm`. -/
def chkAgstatm : Prog Unit := do
  if ← checkConns then checkAgstatus
  registerTimeout smCheckT 0 .chkAgstatm

/-- `ag_handle_clttraffic`. -/
def agHandleClttraffic (p : Conn) : Prog Unit := do
  if (← agSync p) ≠ .ok then closeConn p
  else registerTimeout 0 mqttSynT (.agHandleClttraffic p)

/-- `mqtt_publish` on the client of `conn`; its arguments go into the trace. -/
def mqttPublishOn (conn : Conn) (topic_name : Field 128) (application_message : Bytes)
    (publish_flags seqno : Nat) : Prog MqttErrors := do
  let cl ← getClient conn
  emit (.publish { conn, topic_name, application_message, publish_flags, seqno } cl.mq.isSome)
  let r ← orFault (mqttPublish cl topic_name.str application_message publish_flags (some seqno))
  setClient conn r.2
  return r.2.error

/-- `eloop_set_publish`: `mqtt_publish`, and a close when the client is in
error. The closure and its message are freed in either case. -/
def eloopSetPublish (p : SetPublish) : Prog Unit := do
  let error ← mqttPublishOn p.conn p.topic_name p.application_message p.publish_flags p.seqno
  if error ≠ .ok then closeConn p.conn

/-- `eloop_set_exit`. -/
def eloopSetExit : Prog Unit := exitLink 0

def Handler.run : Handler → Prog Unit
  | .chkAgstatm => Admlink.chkAgstatm
  | .agHandleClttraffic p => Admlink.agHandleClttraffic p
  | .eloopSetPublish p => Admlink.eloopSetPublish p
  | .eloopSetExit => Admlink.eloopSetExit

/-! ## Control interface -/

/-- The handlers in `adlcmd_tbl`. -/
inductive CmdHdl
  | stop | sendtest
deriving DecidableEq, Repr

def adlcmdTbl : List (Bytes × CmdHdl) :=
  [(bytes "stop", .stop), (bytes "sendtest", .sendtest)]

def admlinkCmdStop : Prog Bool := do
  registerTimeout 0 mqttSynT .eloopSetExit
  return true

/-- The text `admlink_cmd_sendtest` leaves in its 512-byte `resbuf`. -/
def sendtestText : Prog Bytes := do
  let devid := (← get).agent.devid.str
  let resbuf ← orFault (strcats 512 []
    (typeMembers ++
      [snprintf 128 (bytes ",\"act_id\":9999"),
       snprintf 128 (bytes ",\"act_sts\":0"),
       snprintf 128 (bytes ",\"act_trg\":0"),
       snprintf 128 (bytes ",\"act_para\":\"Test message\"")] ++
      agentMembers devid))
  let date ← strftimeTinfo
  orFault (strcats 512 resbuf [date, snprintf 128 (bytes ",\"msg\":\"テスト通知\""), bytes "\x7d"])

def admlinkCmdSendtest : Prog Bool := do
  let resbuf ← sendtestText
  setMqttPublishNexsync .mqupld (← getConn .mqupld).topicsend resbuf publishQos1
  return true

def CmdHdl.run : CmdHdl → Prog Bool
  | .stop => admlinkCmdStop
  | .sendtest => admlinkCmdSendtest

/-- The table search of `admlink_cmd_handle`: the first entry whose name is a
prefix of the datagram. -/
def findCmdHdl (buf : Bytes) : Option CmdHdl :=
  (adlcmdTbl.find? (strncmpEq buf ·.1)).map (·.2)

/-- `admlink_cmd_handle`: the reply. -/
def admlinkCmdHandle (buf : Bytes) : Prog Bytes := do
  emit (.cmdHandle buf)
  let t ← localtime
  modify fun w => { w with agent := { w.agent with tinfo := some t } }
  match findCmdHdl buf with
  | none => return bytes "UNKNOWNCMD"
  | some h => do
      if ← h.run then return bytes "OK" else return bytes "UNKNOWN_ERR"

/-- `STR_REPLY_OK`. -/
def strReplyOk : Bytes := bytes "ok\n"

/-- `char buf[256]` of `admlink_ctrl_iface_receive`, less the terminator. -/
def ctrlBufSize : Nat := 255

/-- `admlink_ctrl_iface_receive`; `none` when `recvfrom` fails. -/
def admlinkCtrlIfaceReceive (datagram : Option Bytes) : Prog Unit := do
  match datagram with
  | none => pure ()
  | some dgram => do
      let buf := cstr (dgram.take ctrlBufSize)
      let agstatus := (← get).agent.agstatus
      let reply ←
        if agstatus ≠ .isReboot ∧ agstatus ≠ .isFwup then admlinkCmdHandle buf
        else pure strReplyOk
      emit (.ctrlReply reply)

/-! ## `eloop_run` -/

/-- The timer part of an iteration: at most one timer is taken off and run. -/
def eloopRunTimeout : Prog Unit := do
  if (← get).eloop.timeout = [] then pure ()
  else do
    let now ← xgettimeofday
    match eloopPopDue now (← get).eloop.timeout with
    | none => pure ()
    | some (t, rest) => do
        modify fun w => { w with eloop := { w.eloop with timeout := rest } }
        t.handler.run

/-- The reader part: the control socket is the only reader. -/
def eloopRunReaders (datagram : Option Bytes) : Prog Unit := do
  if (← get).eloop.readers = [] then pure () else admlinkCtrlIfaceReceive datagram

/-- `eloop_run` returns and `main` falls through to `out`. -/
def mainOut : Prog Unit := do
  shutDown
  throw (.exit 1)

/-- What the loop does next, and the answers it gets while doing it. -/
inductive Dispatch
  | timeout (env : Env)
  | readers (env : Env) (datagram : Option Bytes)
  | selectFailed (env : Env)

def Dispatch.env : Dispatch → Env
  | .timeout env => env
  | .readers env _ => env
  | .selectFailed env => env

def withEnv (env : Env) (x : Prog Unit) : Prog Unit := do
  modify fun w => { w with env }
  x

def dispatch : Dispatch → Prog Unit
  | .timeout env => withEnv env eloopRunTimeout
  | .readers env datagram => withEnv env (eloopRunReaders datagram)
  | .selectFailed env => withEnv env mainOut

/-! ## Start -/

def MqConn.zeroed : MqConn :=
  { ssl_ctx := none, biofd := none, connfd := 0, status := 0, cltid := .empty 128,
    topicsend := .empty 128, topicrecv := .empty 128, mqclt := .zeroed [] }

/-- `cfg_agInit`: `arg` is `argv[1]` if there is one. `AgStatus` 0 is `isOk`. -/
def cfgAgInit (arg : Option Bytes) : Except Fault Agent := do
  let given := (arg.map cstr).getD []
  let devid ← Field.copy 128 (if given = [] then bytes "maomaoag" else given)
  let recvid ← Field.copy 128 devid.str
  let recvsend ← Field.copy 128
    (bytes "$aws/things/" ++ recvid.str ++ bytes "/shadow/update")
  let recvrecv ← Field.copy 128
    (bytes "$aws/things/" ++ recvid.str ++ bytes "/shadow/update/accepted")
  let upldid ← Field.copy 128 (devid.str ++ bytes "_uploader")
  let upldsend ← Field.copy 128 (bytes "devices/" ++ upldid.str ++ bytes "/message")
  return {
    agstatus := .isOk, devid, tinfo := none
    mqrecv := { MqConn.zeroed with cltid := recvid, topicsend := recvsend, topicrecv := recvrecv }
    mqupld := { MqConn.zeroed with cltid := upldid, topicsend := upldsend } }

/-- `agent` is the agent with this argument, whatever the send queues are going
to find in their blocks. -/
def Launched (arg : Option Bytes) (agent : Agent) : Prop :=
  ∃ a recv upld, cfgAgInit arg = .ok a ∧ agent = { a with
    mqrecv := { a.mqrecv with mqclt := { a.mqrecv.mqclt with leftovers := recv } }
    mqupld := { a.mqupld with mqclt := { a.mqupld.mqclt with leftovers := upld } } }

theorem Launched.of_ok {arg : Option Bytes} {a : Agent} (h : cfgAgInit arg = .ok a) :
    Launched arg a :=
  ⟨a, a.mqrecv.mqclt.leftovers, a.mqupld.mqclt.leftovers, h, rfl⟩

/-- The agent is zeroed but for its names. -/
theorem Launched.zeroed {arg : Option Bytes} {agent : Agent} (h : Launched arg agent) :
    agent.agstatus = .isOk ∧ agent.tinfo = none ∧
      ∀ c, (agent.conn c).biofd = none ∧ (agent.conn c).status = 0 ∧
        ∃ leftovers, (agent.conn c).mqclt = .zeroed leftovers := by
  obtain ⟨a, recv, upld, h, rfl⟩ := h
  unfold cfgAgInit at h
  obtain ⟨devid, -, h⟩ := except_bind_ok h
  obtain ⟨recvid, -, h⟩ := except_bind_ok h
  obtain ⟨recvsend, -, h⟩ := except_bind_ok h
  obtain ⟨recvrecv, -, h⟩ := except_bind_ok h
  obtain ⟨upldid, -, h⟩ := except_bind_ok h
  obtain ⟨upldsend, -, h⟩ := except_bind_ok h
  cases h
  refine ⟨rfl, rfl, fun c => ?_⟩
  cases c with
  | mqrecv => exact ⟨rfl, rfl, recv, rfl⟩
  | mqupld => exact ⟨rfl, rfl, upld, rfl⟩

/-- The process when `eloop_run` is entered: the control socket `sock` is open
and read, the state machine starts after a second. -/
def started (agent : Agent) (sock clock : Nat) (env : Env) : World :=
  { agent
    eloop :=
      { timeout := eloopRegisterTimeout (.ofUsec clock) 1 0 .chkAgstatm []
        readers := [sock]
        destroyed := false }
    ctrl_sock := some sock, bios := 0, ctxs := 0, requests := 0, clock, env
    trace := [.registerTimeout .chkAgstatm] }

/-- `w` is a daemon that has just entered `eloop_run`. -/
def IsStart (w : World) : Prop :=
  ∃ arg agent sock clock env, Launched arg agent ∧ w = started agent sock clock env

/-- Worlds between two dispatches of a run whose dispatches all meet `C`. -/
abbrev Between (C : World → Dispatch → Prop) : World → Prop := Reaches dispatch IsStart C

/-- The same, and the world a run stops in. -/
abbrev InRun (C : World → Dispatch → Prop) : World → Prop := Seen dispatch IsStart C

/-! ## A daemon to run -/

/-- The agent without an argument. -/
def bootAgent : Agent := (cfgAgInit none).toOption.get (by decide +kernel)

/-- Everything answers: both brokers accept, nothing is read, and the clock
stands still. -/
def quiet : Env :=
  let tm : Tm := ⟨2024, 1, 2, 3, 4, 5⟩
  { clocks := List.replicate 10 0, times := List.replicate 40 0, tms := [tm, tm]
    opens := fun _ => .connected 5, reads := [.wantRead, .wantRead], writes := [] }

/-- The same, `us` microseconds later, with the answers to `BIO_write`. -/
def after (us : Nat) (writes : List BioWrite) : Env :=
  { quiet with clocks := us :: List.replicate 5 0, writes }

def boot : World := started bootAgent 3 0 quiet

theorem ok_of_toOption {α : Type} {r : Except Fault α} (h : r.toOption.isSome = true) :
    r = .ok (r.toOption.get h) := by
  cases r with
  | ok a => rfl
  | error f => cases h

theorem boot_isStart : IsStart boot :=
  ⟨none, bootAgent, 3, 0, quiet, .of_ok (ok_of_toOption _), rfl⟩

/-- `boot` after some dispatches. -/
def runs (ds : List Dispatch) : World := final (exec dispatch ds boot)

/-- Both connections come up and one test message is queued. -/
def oneMessage : List Dispatch :=
  [.timeout (after 1000000 [.sent 22, .sent 31]), .readers quiet (some (bytes "sendtest")),
    .timeout (after 200000 [.sent 50]), .timeout (after 0 []), .timeout (after 0 [])]

/-- What the receiver reads when the broker sends `app_msg`, of less than 125
bytes, at QoS 0. -/
def arriving (app_msg : Bytes) : List BioRead :=
  [.data ([0x30, UInt8.ofNat (3 + app_msg.length), 0, 1, 116] ++ app_msg), .wantRead, .wantRead]

/-- A remote command with this id. -/
def command (rc_id : String) : Bytes :=
  bytes "\x7b\"state\":\x7b\"desired\":\x7b\"rc_id\":\"" ++ bytes rc_id ++ bytes "\"\x7d\x7d\x7d"

/-- Both connections come up and the receiver gets this remote command. -/
def remote (rc_id : String) : List Dispatch :=
  [.timeout (after 1000000 [.sent 22, .sent 31]),
    .timeout { after 200000 [.sent 50] with reads := arriving (command rc_id) }]

theorem runs_inRun (ds : List Dispatch) : InRun Always (runs ds) :=
  Seen.exec ds (.start boot_isStart)

theorem runs_between {C : World → Dispatch → Prop} [∀ w d, Decidable (C w d)]
    (ds : List Dispatch) (h : guarded dispatch C ds boot = true) : Between C (runs ds) :=
  Reaches.guarded ds (.start boot_isStart) h

end Admlink
