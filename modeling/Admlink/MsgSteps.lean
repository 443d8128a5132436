import Mathlib.Logic.Relation
import Admlink.MsgHandle

/-!
# What a remote command can do to the world

`MsgStep upload` lists the atomic changes `admlink_msg_handle` makes. The flag
says whether the message is a command that an event is uploaded for; without it
neither the date is read nor anything requested on the uploader. The date comes
first: without one the upload is never requested.
-/

namespace Admlink

open Program Relation

namespace World

/-- A call of `set_mqtt_publish_nexsync` up to the registration of its timer. -/
def ask (w : World) (conn : Conn) (topic_name : Field 128) (application_message : Bytes)
    (publish_flags : Nat) : World :=
  ({ w with requests := w.requests + 1 }.log
    (.request conn topic_name application_message publish_flags w.requests)).log
    (.registerTimeout (.eloopSetPublish
      (mkSetPublish conn topic_name application_message publish_flags w.requests)))

/-- The whole call: `d` microseconds later the timer is there. -/
def request (w : World) (conn : Conn) (topic_name : Field 128) (application_message : Bytes)
    (publish_flags d : Nat) (env : Env) : World :=
  ((w.ask conn topic_name application_message publish_flags).tick d env).schedule 0 mqttSynT
    (.eloopSetPublish (mkSetPublish conn topic_name application_message publish_flags w.requests))

end World

theorem setMqttPublishNexsync_ends (conn : Conn) (topic_name : Field 128)
    (application_message : Bytes) (publish_flags : Nat) (w : World) :
    Ends
      (fun _ t => ∃ d env, t = w.request conn topic_name application_message publish_flags d env)
      (fun _ t => ∃ d env, t = (w.ask conn topic_name application_message publish_flags).tick d env)
      (setMqttPublishNexsync conn topic_name application_message publish_flags w) := by
  have h := registerTimeout_ends 0 mqttSynT
    (.eloopSetPublish (mkSetPublish conn topic_name application_message publish_flags w.requests))
    ({ w with requests := w.requests + 1 }.log
      (.request conn topic_name application_message publish_flags w.requests))
  exact h.mono (fun _ _ ⟨d, env, ht, _⟩ => ⟨d, env, ht⟩) fun _ _ ht => ht

theorem orFault_ends {α : Type} (r : Except Fault α) (w : World) :
    Ends (fun _ t => t = w) (fun _ t => t = w) (orFault r w) := by
  cases r with
  | ok a => exact rfl
  | error f => exact rfl

/-- `strftime` returns only when there is a date. -/
theorem strftimeTinfo_ends (w : World) :
    Ends (fun _ t => t = w.log (.strftime w.agent.tinfo) ∧ w.agent.tinfo ≠ none)
      (fun _ t => t = w.log (.strftime w.agent.tinfo)) (strftimeTinfo w) := by
  unfold strftimeTinfo
  rw [bind_of_ok (get_apply w)]
  rw [bind_of_ok (show emit (.strftime w.agent.tinfo) w =
    .ok () (w.log (.strftime w.agent.tinfo)) from rfl)]
  cases w.agent.tinfo with
  | none => exact rfl
  | some t => exact ⟨rfl, by simp⟩

/-! ## Steps -/

inductive MsgStep (upload : Bool) (w : World) : World → Prop
  | processRc (rcid : Option Bytes) : MsgStep upload w (w.log (.processRc rcid))
  | report (topic_name : Field 128) (application_message : Bytes) (d : Nat) (env : Env) :
      MsgStep upload w (w.request .mqrecv topic_name application_message publishQos1 d env)
  | event (topic_name : Field 128) (application_message : Bytes) (d : Nat) (env : Env) :
      upload = true → w.agent.tinfo ≠ none →
      MsgStep upload w (w.request .mqupld topic_name application_message publishQos1 d env)
  | strftime : upload = true → MsgStep upload w (w.log (.strftime w.agent.tinfo))
  | reboot : MsgStep upload w
      { w.log .rebootRc with agent := { w.agent with agstatus := .isReboot } }

abbrev MsgPath (upload : Bool) : World → World → Prop := ReflTransGen (MsgStep upload)

/-- Handling a message leaves the connections alone. -/
theorem MsgStep.conn {upload : Bool} {w t : World} (h : MsgStep upload w t) (c : Conn) :
    t.conn c = w.conn c := by
  cases h with
  | processRc _ | strftime _ => exact World.conn_log ..
  | report topic_name application_message d env | event topic_name application_message d env _ _ =>
      rw [World.request, World.conn_schedule, World.conn_tick]
      cases c <;> rfl
  | reboot => cases c <;> rfl

theorem MsgPath.conn {upload : Bool} {w t : World} (h : MsgPath upload w t) (c : Conn) :
    t.conn c = w.conn c := by
  induction h with
  | refl => rfl
  | tail _ hs ih => rw [hs.conn c, ih]

/-- Handling a message can stop between two steps, or inside a request. -/
def MsgStop (upload : Bool) (w t : World) : Prop :=
  ∃ u, MsgPath upload w u ∧ (t = u ∨ ∃ conn topic_name application_message d env,
    (conn = .mqupld → upload = true ∧ u.agent.tinfo ≠ none) ∧
      t = (u.ask conn topic_name application_message publishQos1).tick d env)

theorem MsgPath.stop {upload : Bool} {w t : World} (h : MsgPath upload w t) :
    MsgStop upload w t := ⟨t, h, .inl rfl⟩

instance (upload : Bool) : Exits (MsgPath upload) (MsgStop upload) where
  refl _ := .refl
  trans := .trans
  stop w := MsgPath.stop (.refl (a := w))
  after h := fun ⟨u, hu, ht⟩ => ⟨u, h.trans hu, ht⟩

theorem within_orFault {α : Type} {R S : World → World → Prop} [Exits R S]
    (r : Except Fault α) : Within R S (orFault r) := by
  cases r with
  | ok a => exact .pure a
  | error f => exact .throw _

/-- A request, on the uploader only for an upload with a date. -/
theorem path_setMqttPublishNexsync {upload : Bool} {conn : Conn} (topic_name : Field 128)
    (application_message : Bytes) {w : World}
    (hconn : conn = .mqupld → upload = true ∧ w.agent.tinfo ≠ none) :
    Ends (fun _ => MsgPath upload w) (fun _ => MsgStop upload w)
      (setMqttPublishNexsync conn topic_name application_message publishQos1 w) := by
  refine (setMqttPublishNexsync_ends conn topic_name application_message publishQos1 w).mono
    (fun _ _ => ?_) fun _ _ => ?_
  · rintro ⟨d, env, rfl⟩
    cases conn with
    | mqrecv => exact .single (.report topic_name application_message d env)
    | mqupld =>
        exact .single (.event topic_name application_message d env (hconn rfl).1 (hconn rfl).2)
  · rintro ⟨d, env, rfl⟩
    exact ⟨w, .refl, .inr ⟨conn, topic_name, application_message, d, env, hconn, rfl⟩⟩

/-- A text that `get_rcfi_msg` returns has a date. -/
theorem path_getRcfiMsg (rcid : CBuf) (success : Bool) (w : World) :
    Ends (fun _ t => MsgPath true w t ∧ t.agent.tinfo ≠ none) (fun _ => MsgStop true w)
      (getRcfiMsg rcid success w) := by
  have hstep : MsgPath true w (w.log (.strftime w.agent.tinfo)) := .single (.strftime rfl)
  have hstop : ∀ t, t = w → MsgStop true w t := fun _ ht =>
    MsgPath.stop (by rw [ht])
  unfold getRcfiMsg
  refine Ends.bind (orFault_ends _ w) (fun rcid u _ hu => ?_) fun _ => hstop
  rw [hu, bind_of_ok (get_apply w)]
  refine Ends.bind (orFault_ends _ w) (fun resbuf u _ hu => ?_) fun _ => hstop
  rw [hu]
  refine Ends.bind (strftimeTinfo_ends w) (fun date u _ ⟨hu, hdate⟩ => ?_)
    fun _ _ hu => by rw [hu]; exact hstep.stop
  rw [hu]
  refine (orFault_ends _ _).mono (fun _ _ ht => ?_) fun _ _ ht => ?_
  · rw [ht]
    exact ⟨hstep, hdate⟩
  · rw [ht]
    exact hstep.stop

theorem path_uploadEvent (rcid : CBuf) (success : Bool) :
    Within (MsgPath true) (MsgStop true) (uploadEvent rcid success) := by
  intro w
  refine Ends.bind (path_getRcfiMsg rcid success w) (fun resbuf u _ ⟨hu, hdate⟩ => ?_)
    fun _ _ h => h
  rw [bind_of_ok (show getConn .mqupld u = .ok (u.conn .mqupld) u from rfl)]
  exact (path_setMqttPublishNexsync _ resbuf fun _ => ⟨rfl, hdate⟩).mono
    (fun _ _ h => hu.trans h) fun _ _ h => Exits.after hu h

theorem path_emit_processRc (upload : Bool) (rcid : Option Bytes) :
    Within (MsgPath upload) (MsgStop upload) (emit (.processRc rcid)) :=
  Within.modify fun _ => .single (.processRc rcid)

theorem path_runRcHdl (rcid : CBuf) :
    Within (MsgPath (findRcHdl rcid.str ≠ some .reboot))
      (MsgStop (findRcHdl rcid.str ≠ some .reboot)) (runRcHdl rcid) := by
  unfold runRcHdl
  cases hh : findRcHdl rcid.str with
  | none => exact path_uploadEvent rcid false
  | some h =>
      cases h with
      | imhere => exact path_uploadEvent rcid true
      | reboot => exact fun w => .single .reboot

/-- Any call reports; what else it does, the table search decides. -/
theorem path_admlinkProcessRc {upload : Bool} {rcid : Option CBuf}
    (h : ∀ r, rcid = some r → upload = decide (findRcHdl r.str ≠ some .reboot)) :
    Within (MsgPath upload) (MsgStop upload) (admlinkProcessRc rcid) := by
  refine (path_emit_processRc _ _).bind fun _ => ?_
  refine Within.bind (Within.get.bind fun _ => .pure _) fun p => ?_
  refine Within.bind (fun w => path_setMqttPublishNexsync _ _ (by simp)) fun _ => ?_
  unfold searchRcHdl
  split
  · exact .throw _
  · cases rcid with
    | none => exact .throw _
    | some rcid =>
        rw [h rcid rfl]
        exact path_runRcHdl rcid

theorem path_admlinkMsgHandle (app_msg : Bytes) :
    Within (MsgPath (uploads app_msg)) (MsgStop (uploads app_msg))
      (admlinkMsgHandle (app_msg ++ [Ch.nul])) := by
  unfold admlinkMsgHandle uploads rcidOf
  cases cJSONParse (app_msg ++ [Ch.nul]) with
  | error f => exact .throw _
  | ok r =>
      cases r with
      | none => exact .pure _
      | some pdata =>
          cases hl : lookupRcId pdata with
          | none =>
              simp only [orFault, pure_bind, hl]
              exact .pure _
          | some prcid =>
              simp only [orFault, pure_bind, hl, Option.bind_some]
              refine path_admlinkProcessRc fun rcid hrcid => ?_
              rw [hrcid]

end Admlink
