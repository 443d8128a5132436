import Admlink.Daemon
import Admlink.Frame
import Admlink.ParseReport

/-!
# Commands and reports

What `admlink_msg_handle` calls `admlink_process_rc` with, and what the text it
reports back means when the broker echoes it. Lookups in the parsed tree are
lookups in the JSON value of the message; the id is pasted into the report as
it is, so the report says what it should for plain ids only.
-/

namespace Admlink

open Program World CJson

/-! ## The lookups of `admlink_msg_handle` -/

theorem lookupRcId_wellTyped {root item : CJson} (h : WellTyped root)
    (hl : lookupRcId root = some item) : WellTyped item := by
  obtain ⟨state, hs, hl⟩ := Option.bind_eq_some_iff.mp hl
  obtain ⟨desired, hd, hl⟩ := Option.bind_eq_some_iff.mp hl
  exact getObjectItem_wellTyped (getObjectItem_wellTyped (getObjectItem_wellTyped h hs) hd) hl

/-- The three lookups find the value at `state.desired.rc_id`. -/
theorem value_lookupRcId {root : CJson} (h : WellTyped root) :
    (lookupRcId root).map CJson.value = root.value.rcId := by
  unfold lookupRcId Json.rcId
  rw [← value_getObjectItem h]
  cases hs : cJSONGetObjectItem root (bytes "state") with
  | none => rfl
  | some state =>
      have hstate := getObjectItem_wellTyped h hs
      simp only [Option.map_some, Option.bind_eq_bind, Option.bind_some]
      rw [← value_getObjectItem hstate]
      cases hd : cJSONGetObjectItem state (bytes "desired") with
      | none => rfl
      | some desired =>
          simp only [Option.map_some, Option.bind_some]
          exact value_getObjectItem (getObjectItem_wellTyped hstate hd) _

/-! ## What a command logs -/

/-- An event of an upload, or of a command's own handler. -/
def Event.OfUpload : Event → Prop
  | .strftime _ | .registerTimeout _ | .rebootRc => True
  | .request conn .. => conn = .mqupld
  | _ => False

instance (P : Event → Prop) : IsPreorder World (Logs P) where
  refl _ := .of_eq rfl
  trans _ _ _ := .trans

theorem logs_orFault {P : Event → Prop} {α : Type} (r : Except Fault α) :
    Within (Logs P) (Logs P) (orFault r) := within_orFault r

theorem logs_setMqttPublishNexsync {P : Event → Prop} {conn : Conn} {topic_name : Field 128}
    {application_message : Bytes} {publish_flags : Nat}
    (hreq : ∀ k, P (.request conn topic_name application_message publish_flags k))
    (htimer : ∀ h, P (.registerTimeout h)) :
    Within (Logs P) (Logs P)
      (setMqttPublishNexsync conn topic_name application_message publish_flags) := by
  intro w
  have hask : Logs P w (w.ask conn topic_name application_message publish_flags) :=
    ⟨[.registerTimeout _, .request ..], rfl, by simp [hreq, htimer]⟩
  refine (setMqttPublishNexsync_ends conn topic_name application_message publish_flags w).mono
    (fun _ _ => ?_) fun _ _ => ?_
  · rintro ⟨d, env, rfl⟩
    exact hask
  · rintro ⟨d, env, rfl⟩
    exact hask

theorem logs_strftimeTinfo : Within (Logs Event.OfUpload) (Logs Event.OfUpload) strftimeTinfo := by
  intro w
  refine (strftimeTinfo_ends w).mono (fun _ _ ⟨ht, _⟩ => ?_) fun _ _ ht => ?_
  · rw [ht]
    exact .log trivial
  · rw [ht]
    exact .log trivial

theorem logs_uploadEvent (rcid : CBuf) (success : Bool) :
    Within (Logs Event.OfUpload) (Logs Event.OfUpload) (uploadEvent rcid success) := by
  refine Within.bind ?_ fun resbuf => ?_
  · refine (logs_orFault _).bind fun rcid => Within.get.bind fun w => ?_
    exact (logs_orFault _).bind fun resbuf => logs_strftimeTinfo.bind fun date => logs_orFault _
  · refine Within.bind (Within.get.bind fun _ => .pure _) fun p => ?_
    exact logs_setMqttPublishNexsync (fun _ => rfl) fun _ => trivial

/-- The handler's result says whether a failure or a success is uploaded. -/
theorem runRcHdl_eq (rcid : CBuf) :
    runRcHdl rcid =
      match findRcHdl rcid.str with
      | none => uploadEvent rcid false
      | some .imhere => uploadEvent rcid true
      | some .reboot => (do
          let _ ← admlinkRebootRc
          pure ()) := by
  unfold runRcHdl
  cases findRcHdl rcid.str with
  | none => rfl
  | some h => cases h <;> rfl

/-- An id whose report fits is looked up once the report has been asked for. -/
theorem admlinkProcessRc_eq {rcid : CBuf} (hfit : (reportText rcid.str).length < resbufSize) :
    admlinkProcessRc (some rcid) = (do
      emit (.processRc (some rcid.str))
      setMqttPublishNexsync .mqrecv (← getConn .mqrecv).topicsend (reportText rcid.str) publishQos1
      runRcHdl rcid) := by
  have hsearch : searchRcHdl (some rcid) = runRcHdl rcid :=
    if_neg (show ¬ resbufSize ≤ (reportText rcid.str).length by omega)
  unfold admlinkProcessRc
  rw [hsearch]
  rfl

theorem logs_runRcHdl (rcid : CBuf) :
    Within (Logs Event.OfUpload) (Logs Event.OfUpload) (runRcHdl rcid) := by
  rw [runRcHdl_eq]
  split
  · exact logs_uploadEvent rcid false
  · exact logs_uploadEvent rcid true
  · refine Within.bind (fun w => ⟨[.rebootRc], rfl, ?_⟩) fun _ => .pure _
    simp [Event.OfUpload]

/-- An overrun or a null pointer only leaves out what follows the report. -/
theorem logs_searchRcHdl (rcid : Option CBuf) :
    Within (Logs Event.OfUpload) (Logs Event.OfUpload) (searchRcHdl rcid) := by
  unfold searchRcHdl
  split
  · exact .throw _
  · cases rcid with
    | none => exact .throw _
    | some rcid => exact logs_runRcHdl rcid

/-- The report on `rcid` has been requested; all that followed is an upload. -/
def ReportAsked (rcid : Option CBuf) (w t : World) : Prop :=
  ∃ new, t.trace = new ++ .request .mqrecv (w.conn .mqrecv).topicsend
      (reportText (rcidText rcid)) publishQos1 w.requests ::
      .processRc (rcid.map (·.str)) :: w.trace ∧ ∀ e ∈ new, e.OfUpload

theorem ReportAsked.of_logs {rcid : Option CBuf} {w u t : World} (d : Nat) (env : Env)
    (hu : u.trace = (((w.log (.processRc (rcid.map (·.str)))).ask .mqrecv
      (w.conn .mqrecv).topicsend (reportText (rcidText rcid)) publishQos1).tick d env).trace)
    (h : Logs Event.OfUpload u t) : ReportAsked rcid w t := by
  obtain ⟨new, ht, hnew⟩ := h
  refine ⟨new ++ [.registerTimeout _], by rw [ht, hu, List.append_assoc]; rfl, fun e he => ?_⟩
  rcases List.mem_append.mp he with he | he
  · exact hnew e he
  · rw [List.mem_singleton.mp he]
    trivial

/-- The report is requested, whatever is reported on and however the command
ends. -/
theorem admlinkProcessRc_reported (rcid : Option CBuf) (w : World) :
    Ends (fun _ => ReportAsked rcid w) (fun _ => ReportAsked rcid w) (admlinkProcessRc rcid w) := by
  unfold admlinkProcessRc
  rw [bind_of_ok (show emit (.processRc (rcid.map (·.str))) w =
    .ok () (w.log (.processRc (rcid.map (·.str)))) from rfl)]
  rw [bind_of_ok (show getConn .mqrecv (w.log (.processRc (rcid.map (·.str)))) =
    .ok (w.conn .mqrecv) (w.log (.processRc (rcid.map (·.str)))) from rfl)]
  refine Ends.bind (setMqttPublishNexsync_ends _ _ _ _ _) (fun _ u _ hu => ?_) fun _ t ht => ?_
  · obtain ⟨d, env, rfl⟩ := hu
    exact (logs_searchRcHdl rcid _).mono (fun _ _ h => .of_logs d env rfl h)
      fun _ _ h => .of_logs d env rfl h
  · obtain ⟨d, env, rfl⟩ := ht
    exact .of_logs d env rfl (.of_eq rfl)

/-! ## The calls of `admlink_process_rc` -/

/-- An event that is no call of `admlink_process_rc`. -/
def Event.NoCall (e : Event) : Prop := ∀ rcid, e ≠ .processRc rcid

theorem Event.OfUpload.noCall {e : Event} (h : e.OfUpload) : e.NoCall := by
  rintro rcid rfl
  exact h

/-- A command calls `admlink_process_rc` once, with its own id. -/
theorem ReportAsked.logs {rcid : Option CBuf} {w t : World} (h : ReportAsked rcid w t) :
    Logs Event.NoCall (w.log (.processRc (rcid.map (·.str)))) t := by
  obtain ⟨new, ht, hnew⟩ := h
  refine ⟨new ++ [.request .mqrecv (w.conn .mqrecv).topicsend (reportText (rcidText rcid))
    publishQos1 w.requests], ?_, fun e he => ?_⟩
  · rw [ht, List.append_assoc]
    rfl
  · rcases List.mem_append.mp he with he | he
    · exact (hnew e he).noCall
    · rw [List.mem_singleton.mp he]
      exact fun _ => Event.noConfusion

theorem admlinkProcessRc_logs (rcid : Option CBuf) (w : World) :
    Ends (fun _ => Logs Event.NoCall (w.log (.processRc (rcid.map (·.str)))))
      (fun _ => Logs Event.NoCall (w.log (.processRc (rcid.map (·.str)))))
      (admlinkProcessRc rcid w) :=
  (admlinkProcessRc_reported rcid w).mono (fun _ _ h => h.logs) fun _ _ h => h.logs

def Event.rcCall : Event → Option (Option Bytes)
  | .processRc rcid => some rcid
  | _ => none

/-- What `admlink_process_rc` is called with when this message is handled. -/
def rcCalls (app_msg : Bytes) (w : World) : List (Option Bytes) :=
  (added (admlinkMsgHandle (app_msg ++ [Ch.nul])) w).filterMap Event.rcCall

theorem rcCalls_of_logs {rcid : Option Bytes} {new : List Event}
    (h : ∀ e ∈ new, e.NoCall) :
    (new ++ [Event.processRc rcid]).filterMap Event.rcCall = [rcid] := by
  rw [List.filterMap_append, List.filterMap_eq_nil_iff.mpr, List.nil_append]
  · rfl
  · intro e he
    cases e <;> first | rfl | exact absurd rfl (h _ he _)

/-- The only call is the one with the string of the item that was found. -/
theorem rcCalls_eq (app_msg : Bytes) (w : World) :
    rcCalls app_msg w =
      match cJSONParse (app_msg ++ [Ch.nul]) with
      | .ok (some root) => ((lookupRcId root).map fun i => i.valuestring.map (·.str)).toList
      | _ => [] := by
  unfold rcCalls admlinkMsgHandle
  cases cJSONParse (app_msg ++ [Ch.nul]) with
  | error f =>
      rw [added_eq [] rfl]
      rfl
  | ok r =>
      cases r with
      | none =>
          rw [added_eq [] rfl]
          rfl
      | some root =>
          simp only [orFault, pure_bind]
          cases lookupRcId root with
          | none =>
              rw [added_eq [] rfl]
              rfl
          | some item =>
              obtain ⟨new, ht, hnew⟩ := (admlinkProcessRc_logs item.valuestring w).final
              rw [added_eq (new ++ [.processRc (item.valuestring.map (·.str))])
                (by rw [ht, List.append_assoc]; rfl), rcCalls_of_logs hnew]
              rfl

/-- The message is read, and what `admlink_process_rc` is called with is a
string. A run that leaves its memory before it comes to the call is no such run. -/
structure CallsWithString (app_msg : Bytes) (w : World) : Prop where
  reached : ∀ s t, admlinkMsgHandle (app_msg ++ [Ch.nul]) w = .error s t →
    rcCalls app_msg w ≠ []
  not_null : none ∉ rcCalls app_msg w

/-- Where the text has been parsed, a fault comes after the call only. -/
theorem rcCalls_of_fault {app_msg : Bytes} {r : Option CJson} {w t : World} {s : Stop}
    (hparse : cJSONParse (app_msg ++ [Ch.nul]) = .ok r)
    (h : admlinkMsgHandle (app_msg ++ [Ch.nul]) w = .error s t) : rcCalls app_msg w ≠ [] := by
  unfold admlinkMsgHandle at h
  rw [hparse, orFault, pure_bind] at h
  rw [rcCalls_eq, hparse]
  cases r with
  | none => cases h
  | some root =>
      dsimp only at h ⊢
      cases hl : lookupRcId root with
      | none =>
          rw [hl] at h
          cases h
      | some item => simp

/-- `admlink_process_rc` gets a string, whatever the message, unless the parser
leaves its memory or the value at `state.desired.rc_id` is no string. -/
theorem rcid_not_null (app_msg : Bytes) (w : World) :
    CallsWithString app_msg w ↔
      ∃ r, cJSONParse (app_msg ++ [Ch.nul]) = .ok r ∧
        ∀ root rc_id, r = some root → root.value.rcId = some rc_id → rc_id.isString = true := by
  cases hparse : cJSONParse (app_msg ++ [Ch.nul]) with
  | error f =>
      refine iff_of_false (fun h => ?_) (by simp)
      refine h.reached (.fault f) w ?_ (by rw [rcCalls_eq, hparse])
      unfold admlinkMsgHandle
      rw [hparse]
      rfl
  | ok r =>
      -- the parser has returned, so only what is called decides
      have hreached : CallsWithString app_msg w ↔ none ∉ rcCalls app_msg w :=
        ⟨fun h => h.not_null, fun h => ⟨fun _ _ => rcCalls_of_fault hparse, h⟩⟩
      rw [hreached, rcCalls_eq, hparse]
      cases r with
      | none => simp
      | some root =>
          have hroot := cJSONParse_wellTyped hparse
          have hvalue := value_lookupRcId hroot
          have hall : (∃ r, (Except.ok (some root) : Except Fault _) = .ok r ∧
              ∀ root' rc_id, r = some root' → root'.value.rcId = some rc_id →
                rc_id.isString = true) ↔
              ∀ rc_id, root.value.rcId = some rc_id → rc_id.isString = true := by
            constructor
            · rintro ⟨r, heq, h⟩ rc_id
              cases heq
              exact h root rc_id rfl
            · refine fun h => ⟨_, rfl, fun root' rc_id heq => ?_⟩
              cases heq
              exact h rc_id
          rw [hall, ← hvalue]
          dsimp only
          cases hl : lookupRcId root with
          | none => simp
          | some item =>
              have hitem := (lookupRcId_wellTyped hroot hl).valuestring
              rw [← isString_value] at hitem
              simp only [Option.map_some, Option.toList_some, List.mem_singleton,
                Option.some.injEq, forall_eq', ← hitem]
              cases item.valuestring <;> simp

/-- A number at `state.desired.rc_id` reaches `admlink_process_rc` as NULL. -/
theorem rcid_null_number :
    ¬ ∀ (app_msg : Bytes) (w : World), CallsWithString app_msg w := fun h =>
  (h (bytes "\x7b\"state\":\x7b\"desired\":\x7b\"rc_id\":1\x7d\x7d\x7d") boot).not_null
    (by decide +kernel)

/-! ## Reports -/

def Event.report (topic : Field 128) : Event → Option Bytes
  | .request .mqrecv topic_name application_message _ _ =>
      if topic_name = topic then some (cstr application_message) else none
  | _ => none

/-- The texts `admlink_process_rc` publishes on the receiver's `topicsend`. -/
def reports (rcid : CBuf) (w : World) : List Bytes :=
  (added (admlinkProcessRc (some rcid)) w).filterMap (Event.report (w.conn .mqrecv).topicsend)

theorem nul_notMem_reportText {rcid : Bytes} (h : Ch.nul ∉ rcid) : Ch.nul ∉ reportText rcid := by
  have hfront : Ch.nul ∉ bytes "\x7b\"state\": \x7b\"reported\": \x7b\"rc_id\":\"" :=
    notMem_bytes (by decide)
  have hback : Ch.nul ∉ bytes "\"\x7d\x7d\x7d" := notMem_bytes (by decide)
  unfold reportText
  simp only [List.mem_append, not_or]
  exact ⟨⟨hfront, h⟩, hback⟩

/-- One text is published, the one that was formatted. -/
theorem reports_eq (rcid : CBuf) (w : World) : reports rcid w = [reportText rcid.str] := by
  obtain ⟨new, ht, hnew⟩ := (admlinkProcessRc_reported (some rcid) w).final
  have hadded : added (admlinkProcessRc (some rcid)) w = new ++
      [.request .mqrecv (w.conn .mqrecv).topicsend (reportText rcid.str) publishQos1 w.requests,
        .processRc (some rcid.str)] :=
    added_eq _ (by rw [ht, List.append_assoc]; rfl)
  have hnone : new.filterMap (Event.report (w.conn .mqrecv).topicsend) = [] := by
    refine List.filterMap_eq_nil_iff.mpr fun e he => ?_
    have hup := hnew e he
    cases e with
    | request conn _ _ _ _ =>
        have hconn : conn = .mqupld := hup
        subst hconn
        rfl
    | _ => rfl
  have hself : cstr (reportText rcid.str) = reportText rcid.str :=
    cstr_eq_self (nul_notMem_reportText (nul_notMem_cstr rcid.written))
  rw [reports, hadded, List.filterMap_append, hnone, List.nil_append]
  simp [Event.report, hself]

/-- A report that says what it should when it is read back, and does nothing
when it is handled. `rest` is whatever follows the terminator. -/
structure Echoes (rcid report : Bytes) : Prop where
  parses : ∀ rest, ∃ root, cJSONParse (report ++ Ch.nul :: rest) = .ok (some root) ∧
    root.value = reportValue rcid
  inert : ∀ rest w, admlinkMsgHandle (report ++ Ch.nul :: rest) w = .ok () w

/-- There is no command in a report. -/
theorem rcId_reportValue (rcid : Bytes) : (reportValue rcid).rcId = none := by
  have hstate : (reportValue rcid).get (bytes "state") =
      some (.object [(bytes "reported", .object [(bytes "rc_id", .string rcid)])]) := by
    simp [reportValue, Json.get]
  have hdesired : Json.get (bytes "desired")
      (.object [(bytes "reported", .object [(bytes "rc_id", .string rcid)])]) = none := by
    have hne : (bytes "reported").map tolower ≠ (bytes "desired").map tolower := by decide +kernel
    simp [Json.get, hne]
  unfold Json.rcId
  rw [hstate, Option.bind_eq_bind, Option.bind_some, hdesired]
  rfl

theorem echoes_plain {rcid : Bytes} (h : ∀ c ∈ rcid, Plain c) :
    Echoes rcid (reportText rcid) := by
  refine ⟨cJSONParse_report_plain h, fun rest w => ?_⟩
  obtain ⟨root, hparse, hvalue⟩ := cJSONParse_report_plain h rest
  have hlookup := value_lookupRcId (cJSONParse_wellTyped hparse)
  rw [hvalue, rcId_reportValue, Option.map_eq_none_iff] at hlookup
  unfold admlinkMsgHandle
  simp only [hparse, orFault, pure_bind, hlookup]
  rfl

/-- A report echoes its id, and only that, just when the id has neither a quote
nor a backslash in it. -/
theorem reports_echo (rcid : CBuf) (w : World) :
    (∃ report, reports rcid w = [report] ∧ Echoes rcid.str report) ↔
      ∀ c ∈ rcid.str, c ≠ Ch.quote ∧ c ≠ Ch.backslash := by
  rw [reports_eq]
  constructor
  · rintro ⟨report, heq, hecho⟩ c hc
    rw [List.singleton_inj] at heq
    subst heq
    obtain ⟨root, hparse, hvalue⟩ := hecho.parses []
    obtain ⟨hq, hb, -⟩ := plain_of_cJSONParse_report hparse hvalue c hc
    exact ⟨hq, hb⟩
  · intro h
    refine ⟨_, rfl, echoes_plain fun c hc => ⟨(h c hc).1, (h c hc).2, ?_⟩⟩
    rintro rfl
    exact nul_notMem_cstr _ hc

/-- An id that closes the report and opens a command of its own. -/
def forgedId : Bytes := bytes "\"\x7d,\"desired\":\x7b\"rc_id\":\"1000"

/-- The message that carries it. -/
def forgedMsg : Bytes :=
  bytes ("\x7b\"state\":\x7b\"desired\":\x7b\"rc_id\":\"\\\"\x7d," ++
    "\\\"desired\\\":\x7b\\\"rc_id\\\":\\\"1000\"\x7d\x7d\x7d")

/-- The echo of the report on `forgedId` reboots the agent. -/
theorem forged_report_reboots :
    ¬ ∀ (app_msg : Bytes) (rcid : CBuf) (w : World), rcidOf (app_msg ++ [Ch.nul]) = some rcid →
      (reportText rcid.str).length < resbufSize →
      ∃ report, reports rcid w = [report] ∧ Echoes rcid.str report := by
  intro h
  have hrcid : ((rcidOf (forgedMsg ++ [Ch.nul])).map (·.str)) = some forgedId := by decide +kernel
  obtain ⟨rcid, hr, hstr⟩ := Option.map_eq_some_iff.mp hrcid
  have hfit : (reportText rcid.str).length < resbufSize := by
    rw [hstr]
    decide +kernel
  obtain ⟨report, hreports, hecho⟩ := h forgedMsg rcid boot hr hfit
  rw [reports_eq, List.singleton_inj] at hreports
  subst hreports
  rw [hstr] at hecho
  have hreboot : (final (admlinkMsgHandle (reportText forgedId ++ [Ch.nul]) boot)).agent.agstatus =
      .isReboot := by decide +kernel
  rw [hecho.inert [] boot] at hreboot
  exact absurd hreboot (by decide +kernel)

end Admlink
