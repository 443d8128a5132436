import Admlink.World

/-!
# Remote commands: `admlink_msghdl.c`, deferred publishing, `publish_callback`

A message from the broker is parsed, the string at `state.desired.rc_id` is
reported back on the receiver's topic, and most commands also upload an event.
Both are only requested here: `set_mqtt_publish_nexsync` copies topic and
message and leaves the sending to a timer.
-/

namespace Admlink

open Program

/-! ## `set_mqtt_publish_nexsync` -/

/-- The closure it builds: the message is copied up to its NUL, and the NUL. -/
def mkSetPublish (conn : Conn) (topic_name : Field 128) (application_message : Bytes)
    (publish_flags seqno : Nat) : SetPublish :=
  { conn, topic_name, publish_flags, seqno,
    application_message := cstr application_message ++ [Ch.nul] }

def setMqttPublishNexsync (conn : Conn) (topic_name : Field 128)
    (application_message : Bytes) (publish_flags : Nat) : Prog Unit := do
  let w ← get
  let p := mkSetPublish conn topic_name application_message publish_flags w.requests
  modify fun w => { w with requests := w.requests + 1 }
  emit (.request conn topic_name application_message publish_flags w.requests)
  registerTimeout 0 mqttSynT (.eloopSetPublish p)

/-! ## Event text -/

/-- `%d` of a number that is not negative. -/
def decimal (n : Nat) : Bytes := (Nat.toDigits 10 n).flatMap String.utf8EncodeChar

/-- `%m`, `%d`, `%H`, `%M`, `%S`. -/
def decimal2 (n : Nat) : Bytes := [UInt8.ofNat (48 + n / 10 % 10), UInt8.ofNat (48 + n % 10)]

/-- `strftime(.., ",\"date\":\"%Y/%m/%d %H:%M:%S\"", tinfo)`. -/
def dateText (t : Tm) : Bytes :=
  bytes ",\"date\":\"" ++ decimal t.year ++ bytes "/" ++ decimal2 t.mon ++ bytes "/" ++
    decimal2 t.mday ++ bytes " " ++ decimal2 t.hour ++ bytes ":" ++ decimal2 t.min ++
    bytes ":" ++ decimal2 t.sec ++ bytes "\""

/-- `strftime` on `pag->tinfo`. -/
def strftimeTinfo : Prog Bytes := do
  let tinfo := (← get).agent.tinfo
  emit (.strftime tinfo)
  match tinfo with
  | none => fault .nullPointer
  | some t => return snprintf 128 (dateText t)

def agName : Bytes := bytes "maomaoag"
def agVer : Bytes := bytes "9.9.9"
def msgVer : Bytes := bytes "9.9.9"

/-- Members every event has between `act_para` and the date. -/
def agentMembers (devid : Bytes) : List Bytes :=
  [snprintf 128 (bytes ",\"evt_id\":1"),
   snprintf 128 (bytes ",\"agt_name\":\"" ++ agName ++ bytes "\""),
   snprintf 128 (bytes ",\"agt_ver\":\"" ++ agVer ++ bytes "\""),
   snprintf 128 (bytes ",\"ms_ver\":\"" ++ msgVer ++ bytes "\""),
   snprintf 128 (bytes ",\"dev_id\":\"" ++ devid ++ bytes "\"")]

/-- Members every event starts with. -/
def typeMembers : List Bytes :=
  [bytes "\x7b",
   snprintf 128 (bytes "\"type\":\"event\""),
   snprintf 128 (bytes ",\"ver\":\"2.00\""),
   snprintf 128 (bytes ",\"prdct\":\"AP\"")]

def rcid2name (rcid : Bytes) : Bytes :=
  if strncmpEq rcid (bytes "1000") then bytes "Reboot"
  else if strncmpEq rcid (bytes "2000") then bytes "I'm here"
  else bytes "UNKNOWN"

/-- `rcid[4] = '\0'` on the block `valuestring` points to. -/
def truncateRcid (rcid : CBuf) : Except Fault Bytes :=
  if 4 < rcid.size then .ok (rcid.str.take 4) else .error .overflow

/-- `char resbuf[1024]` of `admlink_process_rc`. -/
def resbufSize : Nat := 1024

/-- `get_rcfi_msg`: the text left in `resbuf`. -/
def getRcfiMsg (rcid : CBuf) (success : Bool) : Prog Bytes := do
  let rcid ← orFault (truncateRcid rcid)
  let devid := (← get).agent.devid.str
  let resbuf ← orFault (strcats resbufSize []
    (typeMembers ++
      [snprintf 128 (bytes ",\"act_id\":" ++ decimal (if success then 7777 else 7788)),
       snprintf 128 (bytes ",\"act_sts\":0"),
       snprintf 128 (bytes ",\"act_trg\":" ++ rcid),
       snprintf 128 (bytes ",\"act_para\":\"" ++ rcid ++ bytes "\"")] ++
      agentMembers devid))
  let date ← strftimeTinfo
  orFault (strcats resbufSize resbuf
    [date,
     snprintf 128 (bytes ",\"msg\":\"" ++ rcid2name rcid ++
       (if success then bytes "is ok" else bytes "is failed") ++ bytes "\""),
     bytes "\x7d"])

/-! ## Commands -/

inductive RcRet
  | failed | ok | reboot
deriving DecidableEq, Repr

/-- The handlers in `rc_hdl_tbl`. -/
inductive RcHdl
  | reboot | imhere
deriving DecidableEq, Repr

def rcHdlTbl : List (Bytes × RcHdl) :=
  [(bytes "1000", .reboot), (bytes "1000,2", .reboot),
   (bytes "2000", .imhere), (bytes "2000,2", .imhere)]

def admlinkRebootRc : Prog RcRet := do
  emit .rebootRc
  modify fun w => { w with agent := { w.agent with agstatus := .isReboot } }
  return .reboot

def admlinkImhereRc : Prog RcRet := return .ok

def RcHdl.run : RcHdl → Prog RcRet
  | .reboot => admlinkRebootRc
  | .imhere => admlinkImhereRc

/-- The table search: the handler whose name is `rcid`. -/
def findRcHdl (rcid : Bytes) : Option RcHdl :=
  (rcHdlTbl.find? (·.1 = rcid)).map (·.2)

/-- The report `admlink_process_rc` formats: the id goes in as it is. -/
def reportText (rcid : Bytes) : Bytes :=
  bytes "\x7b\"state\": \x7b\"reported\": \x7b\"rc_id\":\"" ++ rcid ++ bytes "\"\x7d\x7d\x7d"

/-- The event for a finished command. -/
def uploadEvent (rcid : CBuf) (success : Bool) : Prog Unit := do
  let resbuf ← getRcfiMsg rcid success
  setMqttPublishNexsync .mqupld (← getConn .mqupld).topicsend resbuf publishQos1

/-- `%s` of the id; the C library prints a null pointer as `(null)`. -/
def rcidText : Option CBuf → Bytes
  | none => bytes "(null)"
  | some rcid => rcid.str

/-- The handler that was found and what comes after it. -/
def runRcHdl (rcid : CBuf) : Prog Unit := do
  let rc_ret ←
    match findRcHdl rcid.str with
    | none => pure RcRet.failed
    | some h => h.run
  match rc_ret with
  | .failed => uploadEvent rcid false
  | .ok => uploadEvent rcid true
  | .reboot => pure ()

/-- The table search of `admlink_process_rc`. A report that `sprintf` wrote past
the end of `resbuf` and a null pointer for `strcmp` end the run here: the report
has been asked for by then. -/
def searchRcHdl (rcid : Option CBuf) : Prog Unit :=
  if resbufSize ≤ (reportText (rcidText rcid)).length then fault .overflow
  else
    match rcid with
    | none => fault .nullPointer
    | some rcid => runRcHdl rcid

/-- `admlink_process_rc`. -/
def admlinkProcessRc (rcid : Option CBuf) : Prog Unit := do
  emit (.processRc (rcid.map (·.str)))
  let resbuf := reportText (rcidText rcid)
  setMqttPublishNexsync .mqrecv (← getConn .mqrecv).topicsend resbuf publishQos1
  searchRcHdl rcid

/-- The three nested lookups of `admlink_msg_handle`. -/
def lookupRcId (pdata : CJson) : Option CJson := do
  let pstate ← cJSONGetObjectItem pdata (bytes "state")
  let pdesired ← cJSONGetObjectItem pstate (bytes "desired")
  cJSONGetObjectItem pdesired (bytes "rc_id")

/-- `admlink_msg_handle`; `buffer` is the memory from the message on. -/
def admlinkMsgHandle (buffer : Bytes) : Prog Unit := do
  match ← orFault (cJSONParse buffer) with
  | none => pure ()
  | some pdata =>
      match lookupRcId pdata with
      | none => pure ()
      | some prcid => admlinkProcessRc prcid.valuestring

/-- The string `admlink_msg_handle` passes on for `buffer`, if it comes that far. -/
def rcidOf (buffer : Bytes) : Option CBuf :=
  match cJSONParse buffer with
  | .ok (some pdata) => (lookupRcId pdata).bind (·.valuestring)
  | _ => none

/-- The message is a command other than a reboot: an event is uploaded for it. -/
def uploads (app_msg : Bytes) : Bool :=
  match rcidOf (app_msg ++ [Ch.nul]) with
  | none => false
  | some rcid => findRcHdl rcid.str ≠ some .reboot

/-! ## `publish_callback` -/

/-- `memcpy` of `size` bytes at offset `off` of the receive buffer. -/
def copyOut (mem : Bytes) (off size : Nat) : Except Fault Bytes :=
  if off + size ≤ mem.length then .ok ((mem.drop off).take size) else .error .outOfBounds

/-- `publish_callback` for a message that arrived on connection `c`. -/
def publishCallback (c : Conn) (mem : Bytes) (published : ResponsePublish) : Prog Unit := do
  let _topic_name ← orFault (copyOut mem published.topic_name published.topic_name_size)
  let app_msg ← orFault
    (copyOut mem published.application_message published.application_message_size)
  emit (.deliver c app_msg)
  admlinkMsgHandle (app_msg ++ [Ch.nul])

end Admlink
