import Admlink.Deferred
import Admlink.LateTimers
import Admlink.RcBuffers

/-!
# What a remote command gets back

A string at `state.desired.rc_id` is reported on the receiver's topic, and
whatever does not reboot the agent is answered by one event on the uploader's.
Both are timers registered one behind the other, so the world afterwards is
known exactly. Short of that, a registration can only fail when the clock does
not answer or the loop has been destroyed.
-/

namespace Admlink

open Program World CJson

/-! ## The ids and their texts -/

def rebootIds : List Bytes := [bytes "1000", bytes "1000,2"]

def imhereIds : List Bytes := [bytes "2000", bytes "2000,2"]

/-- The event `get_rcfi_msg` writes on the id `rcid`, already cut. -/
def rcfiText (act_id : Nat) (outcome rcid devid : Bytes) (t : Tm) : Bytes :=
  (typeMembers ++
    [snprintf 128 (bytes ",\"act_id\":" ++ decimal act_id),
     snprintf 128 (bytes ",\"act_sts\":0"),
     snprintf 128 (bytes ",\"act_trg\":" ++ rcid),
     snprintf 128 (bytes ",\"act_para\":\"" ++ rcid ++ bytes "\"")] ++
    agentMembers devid ++
    [snprintf 128 (dateText t),
     snprintf 128 (bytes ",\"msg\":\"" ++ rcid2name rcid ++ outcome ++ bytes "\""),
     bytes "\x7d"]).flatten

/-- The event on an id that does not reboot the agent. -/
def answerText (r devid : Bytes) (t : Tm) : Bytes :=
  if r ∈ imhereIds then rcfiText 7777 (bytes "is ok") (r.take 4) devid t
  else rcfiText 7788 (bytes "is failed") (r.take 4) devid t

/-- The table is searched for four names. -/
theorem findRcHdl_eq (r : Bytes) :
    findRcHdl r = if r ∈ rebootIds then some .reboot
      else if r ∈ imhereIds then some .imhere else none := by
  unfold findRcHdl rcHdlTbl rebootIds imhereIds
  simp only [List.find?_cons, List.find?_nil, List.mem_cons, List.not_mem_nil, or_false,
    @eq_comm _ r]
  by_cases h1 : bytes "1000" = r
  · simp [h1]
  by_cases h2 : bytes "1000,2" = r
  · simp [h1, h2]
  by_cases h3 : bytes "2000" = r
  · simp [h1, h2, h3]
  by_cases h4 : bytes "2000,2" = r
  · simp [h1, h2, h3, h4]
  · simp [h1, h2, h3, h4]

/-! ## The world afterwards -/

namespace World

/-- The id has been reported; the timer was registered after `d` microseconds. -/
def reported (w : World) (r : Bytes) (d : Nat) (env : Env) : World :=
  (w.log (.processRc (some r))).request .mqrecv (w.conn .mqrecv).topicsend (reportText r)
    publishQos1 d env

/-- An event dated `t` has been uploaded. -/
def uploaded (w : World) (text : Bytes) (t : Tm) (d : Nat) (env : Env) : World :=
  (w.log (.strftime (some t))).request .mqupld (w.conn .mqupld).topicsend text publishQos1 d env

end World

/-- The complete response to `r`: the report and then, unless the agent is to
reboot, the event. Nothing else has changed. -/
inductive Responded (r : Bytes) (t : Tm) (w : World) : World → Prop
  | reboot {d : Nat} {env : Env} : r ∈ rebootIds →
      Responded r t w { (w.reported r d env).log .rebootRc with
        agent := { w.agent with agstatus := .isReboot } }
  | event {d d' : Nat} {env env' : Env} : r ∉ rebootIds →
      Responded r t w
        ((w.reported r d env).uploaded (answerText r w.agent.devid.str t) t d' env')

namespace Responded

variable {r : Bytes} {t : Tm} {w u : World}

/-- Only `agstatus` can have changed, and only to `isReboot`. -/
theorem agent (h : Responded r t w u) :
    u.agent = if r ∈ rebootIds then { w.agent with agstatus := .isReboot } else w.agent := by
  cases h with
  | reboot hr => rw [if_pos hr]
  | event hr =>
      rw [if_neg hr]
      rfl

end Responded

/-! ## What is scheduled -/

/-- The report on `r`. -/
def reportCall (w : World) (r : Bytes) : PublishCall :=
  ⟨.mqrecv, (w.conn .mqrecv).topicsend.str,
    bytes "\x7b\"state\": \x7b\"reported\": \x7b\"rc_id\":\"" ++ r ++
      bytes "\"\x7d\x7d\x7d" ++ [Ch.nul],
    publishQos1⟩

/-- How the event on `r` begins. -/
def eventStart (act_id : String) (r : Bytes) : Bytes :=
  bytes "\x7b\"type\":\"event\",\"ver\":\"2.00\",\"prdct\":\"AP\",\"act_id\":" ++ bytes act_id ++
    bytes ",\"act_sts\":0,\"act_trg\":" ++ r.take 4

/-- The `act_id` of the event on `r`. -/
def actId (r : Bytes) : String := if r ∈ imhereIds then "7777" else "7788"

/-- An event on `r`, whatever follows its `act_trg`. -/
def IsEventCall (w : World) (r : Bytes) (call : PublishCall) : Prop :=
  ∃ rest, call = ⟨.mqupld, (w.conn .mqupld).topicsend.str,
    eventStart (actId r) r ++ rest ++ [Ch.nul], publishQos1⟩

/-- From `w` to `u` these calls of `mqtt_publish` have been asked for, in this
order, and wait in the timer list. -/
structure Schedules (calls : List PublishCall) (w u : World) : Prop where
  asked : requestedCalls u.trace = requestedCalls w.trace ++ calls
  pending : u.pendingCalls.Perm (w.pendingCalls ++ calls)

namespace Schedules

variable {w t u : World} {calls calls' : List PublishCall}

theorem trans (h : Schedules calls w t) (h' : Schedules calls' t u) :
    Schedules (calls ++ calls') w u where
  asked := by rw [h'.asked, h.asked, List.append_assoc]
  pending := by
    rw [← List.append_assoc]
    exact h'.pending.trans (h.pending.append_right calls')

/-- Events that ask for nothing. -/
theorem log (h : Schedules calls w u) {e : Event} (he : requestedCalls [e] = []) :
    Schedules calls w (u.log e) where
  asked := by
    have hsplit : requestedCalls (e :: u.trace) = requestedCalls u.trace ++ requestedCalls [e] := by
      simp only [requestedCalls, ← List.reverse_append, ← List.filterMap_append]
      rfl
    rw [World.log, hsplit, he, List.append_nil, h.asked]
  pending := h.pending

theorem request (w : World) (conn : Conn) (topic_name : Field 128) (application_message : Bytes)
    (publish_flags d : Nat) (env : Env) :
    Schedules [⟨conn, topic_name.str, cstr application_message ++ [Ch.nul], publish_flags⟩] w
      (w.request conn topic_name application_message publish_flags d env) where
  asked := List.reverse_cons
  pending := by
    refine (((StableQueue.insert_perm _ _).filterMap _).map _).trans ?_
    exact (List.perm_append_singleton _ _).symm

end Schedules

theorem nul_notMem_eventStart (r : Bytes) (hr : Ch.nul ∉ r) :
    Ch.nul ∉ eventStart (actId r) r := by
  have hfront : Ch.nul ∉
      bytes "\x7b\"type\":\"event\",\"ver\":\"2.00\",\"prdct\":\"AP\",\"act_id\":" :=
    notMem_bytes (by decide)
  have hid : Ch.nul ∉ bytes (actId r) := by
    unfold actId
    split <;> exact notMem_bytes (by decide)
  have hback : Ch.nul ∉ bytes ",\"act_sts\":0,\"act_trg\":" := notMem_bytes (by decide)
  simp only [eventStart, List.mem_append, not_or]
  exact ⟨⟨⟨hfront, hid⟩, hback⟩, fun h => hr (List.mem_of_mem_take h)⟩

/-- The members in front of `act_para`. -/
theorem eventStart_rcfiText (act_id : Nat) (s : String) (outcome r devid : Bytes) (t : Tm)
    (hid : typeMembers.flatten ++ snprintf 128 (bytes ",\"act_id\":" ++ decimal act_id) ++
      snprintf 128 (bytes ",\"act_sts\":0") ++ bytes ",\"act_trg\":" = eventStart s []) :
    ∃ rest, rcfiText act_id outcome (r.take 4) devid t = eventStart s r ++ rest := by
  have hname : (bytes ",\"act_trg\":").length = 11 := by decide +kernel
  have htrg : snprintf 128 (bytes ",\"act_trg\":" ++ r.take 4) =
      bytes ",\"act_trg\":" ++ r.take 4 := by
    refine List.take_of_length_le ?_
    have := List.length_take_le 4 r
    rw [List.length_append, hname]
    omega
  have hstart : eventStart s r = eventStart s [] ++ r.take 4 := by simp [eventStart]
  rw [hstart, ← hid]
  refine ⟨snprintf 128 (bytes ",\"act_para\":\"" ++ r.take 4 ++ bytes "\"") ++
    (agentMembers devid).flatten ++
    [snprintf 128 (dateText t),
      snprintf 128 (bytes ",\"msg\":\"" ++ rcid2name (r.take 4) ++ outcome ++ bytes "\""),
      bytes "\x7d"].flatten, ?_⟩
  rw [rcfiText, htrg]
  simp only [List.flatten_append, List.flatten_cons, List.flatten_nil, List.append_assoc,
    List.nil_append]

/-- The event has its `act_id`. -/
theorem eventStart_answerText (r devid : Bytes) (t : Tm) :
    ∃ rest, answerText r devid t = eventStart (actId r) r ++ rest := by
  unfold answerText actId
  by_cases himhere : r ∈ imhereIds
  · rw [if_pos himhere, if_pos himhere]
    exact eventStart_rcfiText 7777 "7777" _ r devid t (by decide +kernel)
  · rw [if_neg himhere, if_neg himhere]
    exact eventStart_rcfiText 7788 "7788" _ r devid t (by decide +kernel)

/-- The response in the words of its messages: one report that carries `r`, and
one event unless the agent is to reboot. -/
structure Answered (r : Bytes) (w u : World) : Prop where
  scheduled : ∃ events, Schedules (reportCall w r :: events) w u ∧
    (r ∈ rebootIds → events = []) ∧
    (r ∉ rebootIds → ∃ call, events = [call] ∧ IsEventCall w r call)
  agent : u.agent = if r ∈ rebootIds then { w.agent with agstatus := .isReboot } else w.agent

theorem Responded.answered {r : Bytes} {t : Tm} {w u : World} (hr : Ch.nul ∉ r)
    (h : Responded r t w u) : Answered r w u := by
  refine ⟨?_, h.agent⟩
  have hreport : ∀ d env, Schedules [reportCall w r] w (w.reported r d env) := by
    intro d env
    have hlog : Schedules [] w (w.log (.processRc (some r))) :=
      Schedules.log (u := w) ⟨(List.append_nil _).symm, by simp⟩ rfl
    have hrequest := Schedules.request (w.log (.processRc (some r))) .mqrecv
      (w.conn .mqrecv).topicsend (reportText r) publishQos1 d env
    rw [cstr_eq_self (nul_notMem_reportText hr)] at hrequest
    exact hlog.trans hrequest
  cases h with
  | reboot hreboot =>
      exact ⟨[], ⟨((hreport _ _).log rfl).asked, (hreport _ _).pending⟩, fun _ => rfl,
        fun hno => absurd hreboot hno⟩
  | @event d d' env env' hno =>
      obtain ⟨rest, htext⟩ := eventStart_answerText r w.agent.devid.str t
      have hcstr : cstr (answerText r w.agent.devid.str t) =
          eventStart (actId r) r ++ cstr rest := by
        rw [htext, cstr, cstr, List.takeWhile_append_of_pos]
        intro c hc
        have hne : c ≠ Ch.nul := by
          rintro rfl
          exact nul_notMem_eventStart r hr hc
        simpa using hne
      have hrequest := Schedules.request ((w.reported r d env).log (.strftime (some t))) .mqupld
        (w.conn .mqupld).topicsend (answerText r w.agent.devid.str t) publishQos1 d' env'
      rw [hcstr] at hrequest
      exact ⟨_, ((hreport d env).log rfl).trans hrequest, fun h => absurd h hno,
        fun _ => ⟨_, rfl, cstr rest, rfl⟩⟩

/-- Why a timer cannot be registered. -/
def NoTimer (w : World) (e : Stop) : Prop :=
  e = .blocked ∧ w.env.clocks.length < 2 ∨ e = .fault .freedMemory ∧ w.eloop.destroyed = true

/-- The response ended in the middle of a registration. -/
inductive Interrupted (r : Bytes) (t : Tm) (w : World) (e : Stop) : World → Prop
  | report {d : Nat} {env : Env} : NoTimer w e →
      Interrupted r t w e (((w.log (.processRc (some r))).ask .mqrecv (w.conn .mqrecv).topicsend
        (reportText r) publishQos1).tick d env)
  | event {d d' : Nat} {env env' : Env} : r ∉ rebootIds → NoTimer w e →
      Interrupted r t w e ((((w.reported r d env).log (.strftime (some t))).ask .mqupld
        (w.conn .mqupld).topicsend (answerText r w.agent.devid.str t) publishQos1).tick d' env')

/-! ## One request -/

/-- A registration takes one answer of the clock and needs a loop. -/
theorem registerTimeout_answered (secs usecs : Nat) (h : Handler) (w : World) :
    Ends
      (fun _ t => t.env.clocks = w.env.clocks.tail ∧ t.eloop.destroyed = w.eloop.destroyed)
      (fun e _ => e = .blocked ∧ w.env.clocks = [] ∨
        e = .fault .freedMemory ∧ w.eloop.destroyed = true)
      (registerTimeout secs usecs h w) := by
  unfold registerTimeout xgettimeofday
  simp only [bind_apply, emit, modify_apply, get_apply]
  cases hc : (w.log (.registerTimeout h)).env.clocks with
  | nil => exact .inl ⟨rfl, hc⟩
  | cons d ds =>
      by_cases hd : w.eloop.destroyed ∧ w.eloop.timeout ≠ []
      · simp only [bind_apply, modify_apply, pure_apply, World.log, if_pos hd]
        exact .inr ⟨rfl, hd.1⟩
      · simp only [bind_apply, modify_apply, pure_apply, World.log, if_neg hd]
        have hclocks : w.env.clocks = d :: ds := hc
        exact ⟨by rw [hclocks]; rfl, rfl⟩

/-- The two ends of a request, and what it takes of the clock. -/
theorem setMqttPublishNexsync_answered (conn : Conn) (topic_name : Field 128)
    (application_message : Bytes) (publish_flags : Nat) (w : World) :
    Ends
      (fun _ t => (∃ d env, t = w.request conn topic_name application_message publish_flags d env) ∧
        t.env.clocks = w.env.clocks.tail ∧ t.eloop.destroyed = w.eloop.destroyed)
      (fun e t => (∃ d env,
          t = (w.ask conn topic_name application_message publish_flags).tick d env) ∧
        (e = .blocked ∧ w.env.clocks = [] ∨ e = .fault .freedMemory ∧ w.eloop.destroyed = true))
      (setMqttPublishNexsync conn topic_name application_message publish_flags w) :=
  (setMqttPublishNexsync_ends conn topic_name application_message publish_flags w).and
    (registerTimeout_answered 0 mqttSynT
      (.eloopSetPublish (mkSetPublish conn topic_name application_message publish_flags w.requests))
      ({ w with requests := w.requests + 1 }.log
        (.request conn topic_name application_message publish_flags w.requests)))

/-! ## The event -/

theorem strftimeTinfo_apply {t : Tm} {w : World} (htm : w.agent.tinfo = some t) :
    strftimeTinfo w = .ok (snprintf 128 (dateText t)) (w.log (.strftime (some t))) := by
  unfold strftimeTinfo
  rw [bind_of_ok (get_apply w), htm]
  rfl

/-- With a fourth character and a date the event is written, and only the date
is read for it. -/
theorem getRcfiMsg_apply {rcid : CBuf} {t : Tm} {w : World} (hlen : 4 < rcid.size)
    (htm : w.agent.tinfo = some t) (success : Bool) :
    getRcfiMsg rcid success w =
      .ok (rcfiText (if success then 7777 else 7788)
        (if success then bytes "is ok" else bytes "is failed") (rcid.str.take 4)
        w.agent.devid.str t) (w.log (.strftime (some t))) := by
  have hcut : truncateRcid rcid = .ok (rcid.str.take 4) := by rw [truncateRcid, if_pos hlen]
  -- `resbuf` holds the members before the date and those behind it
  have hhead := length_eventHead (rcid.str.take 4) w.agent.devid.str success
  have hfront : strcats resbufSize [] (eventHead (rcid.str.take 4) w.agent.devid.str success) =
      .ok (eventHead (rcid.str.take 4) w.agent.devid.str success).flatten :=
    strcats_fits (by rw [List.nil_append, resbufSize]; omega)
  have hback : strcats resbufSize (eventHead (rcid.str.take 4) w.agent.devid.str success).flatten
      [snprintf 128 (dateText t),
        snprintf 128 (bytes ",\"msg\":\"" ++ rcid2name (rcid.str.take 4) ++
          (if success then bytes "is ok" else bytes "is failed") ++ bytes "\""),
        bytes "\x7d"] =
      .ok (rcfiText (if success then 7777 else 7788)
        (if success then bytes "is ok" else bytes "is failed") (rcid.str.take 4)
        w.agent.devid.str t) := by
    have hdatelen := (length_snprintf (dateText t)).1
    have hmsg := (length_snprintf (bytes ",\"msg\":\"" ++ rcid2name (rcid.str.take 4) ++
      (if success then bytes "is ok" else bytes "is failed") ++ bytes "\"")).1
    have hend : (bytes "\x7d").length = 1 := by decide +kernel
    rw [strcats_fits]
    · rw [rcfiText, List.flatten_append]
      rfl
    · simp only [List.flatten_cons, List.flatten_nil, List.length_append, List.length_nil,
        resbufSize] at *
      omega
  unfold getRcfiMsg
  rw [hcut]
  rw [bind_of_ok (show orFault (.ok (rcid.str.take 4)) w = .ok (rcid.str.take 4) w from rfl)]
  rw [bind_of_ok (get_apply w)]
  change (orFault (strcats resbufSize [] (eventHead (rcid.str.take 4) w.agent.devid.str success))
    >>= _) w = _
  rw [hfront]
  rw [bind_of_ok (show orFault (.ok (eventHead (rcid.str.take 4) w.agent.devid.str
    success).flatten) w = .ok _ w from rfl), bind_of_ok (strftimeTinfo_apply htm), hback]
  rfl

/-- The event goes out on the uploader's topic. -/
theorem uploadEvent_answered {rcid : CBuf} {t : Tm} {w : World} (hlen : 4 < rcid.size)
    (htm : w.agent.tinfo = some t) (success : Bool) {text : Bytes}
    (htext : rcfiText (if success then 7777 else 7788)
      (if success then bytes "is ok" else bytes "is failed") (rcid.str.take 4)
      w.agent.devid.str t = text) :
    Ends (fun _ u => ∃ d env, u = w.uploaded text t d env)
      (fun e u => (∃ d env, u = ((w.log (.strftime (some t))).ask .mqupld
          (w.conn .mqupld).topicsend text publishQos1).tick d env) ∧
        (e = .blocked ∧ w.env.clocks = [] ∨ e = .fault .freedMemory ∧ w.eloop.destroyed = true))
      (uploadEvent rcid success w) := by
  unfold uploadEvent
  rw [bind_of_ok (getRcfiMsg_apply hlen htm success), htext]
  rw [bind_of_ok (show getConn .mqupld (w.log (.strftime (some t))) =
    .ok (w.conn .mqupld) (w.log (.strftime (some t))) from rfl)]
  exact (setMqttPublishNexsync_answered .mqupld (w.conn .mqupld).topicsend text publishQos1
    (w.log (.strftime (some t)))).mono (fun _ _ h => h.1) fun _ _ h => h

/-- What follows the report, from the world it left. -/
theorem runRcHdl_answered {rcid : CBuf} {t : Tm} {w : World} (hlen : 4 < rcid.size)
    (htm : w.agent.tinfo = some t) :
    Ends
      (fun _ u =>
        (rcid.str ∈ rebootIds ∧
          u = { w.log .rebootRc with agent := { w.agent with agstatus := .isReboot } }) ∨
        (rcid.str ∉ rebootIds ∧ ∃ d env,
          u = w.uploaded (answerText rcid.str w.agent.devid.str t) t d env))
      (fun e u => rcid.str ∉ rebootIds ∧
        (∃ d env, u = ((w.log (.strftime (some t))).ask .mqupld (w.conn .mqupld).topicsend
          (answerText rcid.str w.agent.devid.str t) publishQos1).tick d env) ∧
        (e = .blocked ∧ w.env.clocks = [] ∨ e = .fault .freedMemory ∧ w.eloop.destroyed = true))
      (runRcHdl rcid w) := by
  rw [runRcHdl_eq, findRcHdl_eq]
  by_cases hreboot : rcid.str ∈ rebootIds
  · rw [if_pos hreboot]
    exact .inl ⟨hreboot, rfl⟩
  · rw [if_neg hreboot]
    by_cases himhere : rcid.str ∈ imhereIds
    · rw [if_pos himhere]
      have htext : rcfiText 7777 (bytes "is ok") (rcid.str.take 4) w.agent.devid.str t =
          answerText rcid.str w.agent.devid.str t := by rw [answerText, if_pos himhere]
      exact (uploadEvent_answered hlen htm true htext).mono
        (fun _ _ h => .inr ⟨hreboot, h⟩) fun _ _ h => ⟨hreboot, h⟩
    · rw [if_neg himhere]
      have htext : rcfiText 7788 (bytes "is failed") (rcid.str.take 4) w.agent.devid.str t =
          answerText rcid.str w.agent.devid.str t := by rw [answerText, if_neg himhere]
      exact (uploadEvent_answered hlen htm false htext).mono
        (fun _ _ h => .inr ⟨hreboot, h⟩) fun _ _ h => ⟨hreboot, h⟩

/-! ## Every payload -/

/-- The string `admlink_process_rc` gets is the one in the JSON value. -/
theorem rcidOf_value {buffer r : Bytes} :
    (∃ rcid, rcidOf buffer = some rcid ∧ rcid.str = r) ↔
      ∃ root, cJSONParse buffer = .ok (some root) ∧ root.value.rcId = some (.string r) := by
  constructor
  · rintro ⟨rcid, hrcid, rfl⟩
    unfold rcidOf at hrcid
    split at hrcid
    · rename_i root hparse
      have hroot := cJSONParse_wellTyped hparse
      obtain ⟨item, hitem, hv⟩ := Option.bind_eq_some_iff.mp hrcid
      have htype := (lookupRcId_wellTyped hroot hitem).valuestring.mp (by rw [hv]; rfl)
      refine ⟨root, hparse, ?_⟩
      rw [← value_lookupRcId hroot, hitem]
      cases item with
      | item type valuestring string child =>
          have ht : type = .string := htype
          have hval : valuestring = some rcid := hv
          subst ht hval
          rfl
    · cases hrcid
  · rintro ⟨root, hparse, hr⟩
    have hroot := cJSONParse_wellTyped hparse
    rw [← value_lookupRcId hroot] at hr
    obtain ⟨item, hitem, hvalue⟩ := Option.map_eq_some_iff.mp hr
    have htype : item.type = .string := by
      rw [← isString_value, hvalue]
      rfl
    obtain ⟨rcid, hrcid⟩ := Option.isSome_iff_exists.mp
      ((lookupRcId_wellTyped hroot hitem).valuestring.mpr htype)
    refine ⟨rcid, ?_, ?_⟩
    · simp only [rcidOf, hparse, hitem, Option.bind_some, hrcid]
    · cases item with
      | item type valuestring string child =>
          have ht : type = .string := htype
          have hval : valuestring = some rcid := hrcid
          subst ht hval
          simpa [CJson.value] using hvalue

/-- The report and what follows it. -/
theorem admlinkProcessRc_answered {rcid : CBuf} {t : Tm} {w : World} (hcut : 4 < rcid.size)
    (hfit : (reportText rcid.str).length < resbufSize) (htm : w.agent.tinfo = some t) :
    Ends (fun _ => Responded rcid.str t w) (Interrupted rcid.str t w)
      (admlinkProcessRc (some rcid) w) := by
  rw [admlinkProcessRc_eq hfit]
  rw [bind_of_ok (show emit (.processRc (some rcid.str)) w =
    .ok () (w.log (.processRc (some rcid.str))) from rfl)]
  rw [bind_of_ok (show getConn .mqrecv (w.log (.processRc (some rcid.str))) =
    .ok (w.conn .mqrecv) (w.log (.processRc (some rcid.str))) from rfl)]
  refine Ends.bind (setMqttPublishNexsync_answered _ _ _ _ _) (fun _ u _ hu => ?_) fun e u hu => ?_
  · obtain ⟨⟨d, env, rfl⟩, hclocks, -⟩ := hu
    refine (runRcHdl_answered (w := w.reported rcid.str d env) hcut htm).mono
      (fun _ u hu => ?_) fun e u hu => ?_
    · rcases hu with ⟨hreboot, rfl⟩ | ⟨hother, d', env', rfl⟩
      · exact .reboot hreboot
      · exact .event hother
    · obtain ⟨hother, ⟨d', env', rfl⟩, hstop⟩ := hu
      refine .event hother (hstop.imp (fun hblocked => ⟨hblocked.1, ?_⟩) fun h => h)
      have htail : w.env.clocks.tail = [] := hclocks.symm.trans hblocked.2
      have hlen := congrArg List.length htail
      rw [List.length_tail, List.length_nil] at hlen
      omega
  · obtain ⟨⟨d, env, rfl⟩, hstop⟩ := hu
    refine .report (hstop.imp (fun hblocked => ⟨hblocked.1, ?_⟩) fun h => h)
    have hclocks : w.env.clocks = [] := hblocked.2
    rw [hclocks]
    decide

/-- Every payload gets its response: one report and at most one event for a
string at `state.desired.rc_id`, and nothing without the three members. -/
theorem command_answered (app_msg : Bytes) (w : World) :
    (∀ root r t, cJSONParse (app_msg ++ [Ch.nul]) = .ok (some root) →
      root.value.rcId = some (.string r) → 4 ≤ r.length → r.length ≤ 986 →
      w.agent.tinfo = some t →
      Ends (fun _ u => Responded r t w u ∧ Answered r w u) (Interrupted r t w)
        (admlinkMsgHandle (app_msg ++ [Ch.nul]) w)) ∧
    (cJSONParse (app_msg ++ [Ch.nul]) = .ok none ∨
        (∃ root, cJSONParse (app_msg ++ [Ch.nul]) = .ok (some root) ∧ root.value.rcId = none) →
      admlinkMsgHandle (app_msg ++ [Ch.nul]) w = .ok () w) := by
  constructor
  · intro root r t hparse hr hshort hlong htm
    obtain ⟨rcid, hrcid, rfl⟩ := rcidOf_value.mpr ⟨root, hparse, hr⟩
    have hroom := rcidOf_room hrcid
    rw [admlinkMsgHandle_eq hrcid]
    have hfit : (reportText rcid.str).length < resbufSize := by
      rw [length_reportText, resbufSize]
      omega
    exact (admlinkProcessRc_answered (by omega) hfit htm).mono
      (fun _ _ h => ⟨h, h.answered (nul_notMem_cstr rcid.written)⟩) fun _ _ h => h
  · rintro (hnone | ⟨root, hparse, hlost⟩)
    · simp only [admlinkMsgHandle, hnone]
      rfl
    · rw [← value_lookupRcId (cJSONParse_wellTyped hparse), Option.map_eq_none_iff] at hlost
      simp only [admlinkMsgHandle, hparse, orFault, pure_bind, hlost]
      rfl

/-- The world after the first `chk_agstatm`: there is a date, and the clock
answers. -/
def dated : World := (runs ((remote "2000").take 1)).tick 0 quiet

theorem command_answered_imhere :
    ∃ t u, admlinkMsgHandle (command "2000" ++ [Ch.nul]) dated = .ok () u ∧
      Responded (bytes "2000") t dated u ∧ Answered (bytes "2000") dated u := by
  have hrcid : (rcidOf (command "2000" ++ [Ch.nul])).map (·.str) = some (bytes "2000") := by
    decide +kernel
  obtain ⟨rcid, hr, hstr⟩ := Option.map_eq_some_iff.mp hrcid
  obtain ⟨root, hparse, hvalue⟩ := rcidOf_value.mp ⟨rcid, hr, hstr⟩
  obtain ⟨t, ht⟩ := Option.isSome_iff_exists.mp
    (show dated.agent.tinfo.isSome = true by decide +kernel)
  have hends := (command_answered (command "2000") dated).1 root (bytes "2000") t hparse hvalue
    (by decide +kernel) (by decide +kernel) ht
  have htimer : ∀ e, ¬ NoTimer dated e := by
    rintro e (⟨-, hclocks⟩ | ⟨-, hloop⟩)
    · exact absurd hclocks (by decide +kernel)
    · exact absurd hloop (by decide +kernel)
  cases hrun : admlinkMsgHandle (command "2000" ++ [Ch.nul]) dated with
  | ok a u =>
      rw [hrun] at hends
      exact ⟨t, u, rfl, hends⟩
  | error e u =>
      rw [hrun] at hends
      cases hends with
      | report hno => exact absurd hno (htimer e)
      | event _ hno => exact absurd hno (htimer e)

end Admlink
