import Admlink.Handlers

/-!
# What a dispatch can log

`dispatch_logged` says of each kind of event which state before the dispatch it
needs, whether the dispatch returns or stops the run. It also ties every upload
to the command that asks for it. Claims about the trace of a run are read off
this list, never off the handlers again.
-/

namespace Admlink

open Program Relation

/-! ## Events and the commands that ask for them -/

/-- The command a client of the agent, or the broker, gives for an event to be
uploaded: `sendtest`, or a remote command other than a reboot. -/
def Event.asksUpload : Event → Bool
  | .cmdHandle buf => findCmdHdl buf = some .sendtest
  | .deliver _ app_msg => uploads app_msg
  | _ => false

/-- An event of an upload: its date is formatted, its timer registered. -/
def Event.isUpload : Event → Bool
  | .strftime _ => true
  | .registerTimeout h => h.forUploader
  | _ => false

namespace World

/-- From `w` to `t` no upload is worked on without a command that asks for it. -/
def Prompted (w t : World) : Prop :=
  ∃ new, t.trace = new ++ w.trace ∧
    ((∃ e ∈ new, e.isUpload = true) → ∃ e ∈ new, e.asksUpload = true)

/-- Events satisfying `P` are logged, and no upload without a command. -/
structure Logged (P : Event → Prop) (w t : World) : Prop where
  logs : Logs P w t
  prompted : Prompted w t

variable {P Q : Event → Prop} {w t u : World}

theorem Prompted.trans (h : Prompted w t) (h' : Prompted t u) : Prompted w u := by
  obtain ⟨new, ht, hnew⟩ := h
  obtain ⟨new', hu, hnew'⟩ := h'
  refine ⟨new' ++ new, by rw [hu, ht, List.append_assoc], fun ⟨e, he, hup⟩ => ?_⟩
  rcases List.mem_append.mp he with he | he
  · obtain ⟨a, ha, hask⟩ := hnew' ⟨e, he, hup⟩
    exact ⟨a, List.mem_append_left _ ha, hask⟩
  · obtain ⟨a, ha, hask⟩ := hnew ⟨e, he, hup⟩
    exact ⟨a, List.mem_append_right _ ha, hask⟩

theorem Prompted.of_eq (h : t.trace = w.trace) : Prompted w t := ⟨[], h, by simp⟩

theorem Prompted.log {e : Event} (he : e.isUpload = false) : Prompted w (w.log e) :=
  ⟨[e], rfl, by simp [he]⟩

theorem Logged.of_eq (h : t.trace = w.trace) : Logged P w t := ⟨.of_eq h, .of_eq h⟩

theorem Logged.log {e : Event} (he : P e) (hup : e.isUpload = false) : Logged P w (w.log e) :=
  ⟨.log he, .log hup⟩

theorem Logged.trans (h : Logged P w t) (h' : Logged P t u) : Logged P w u :=
  ⟨h.logs.trans h'.logs, h.prompted.trans h'.prompted⟩

theorem Logged.mono (h : Logged P w t) (hPQ : ∀ e, P e → Q e) : Logged Q w t :=
  ⟨h.logs.mono hPQ, h.prompted⟩

/-- What happened at the end, seen from a world with the same trace. -/
theorem Logged.congr (h : Logged P w t) (hu : u.trace = t.trace) : Logged P w u :=
  h.trans (.of_eq hu)

/-- Some events that are no uploads, logged one after the other. -/
theorem Logged.of_append (new : List Event) (ht : t.trace = new ++ w.trace)
    (hnew : ∀ e ∈ new, P e ∧ e.isUpload = false) : Logged P w t := by
  refine ⟨⟨new, ht, fun e he => (hnew e he).1⟩, new, ht, fun ⟨e, he, hup⟩ => ?_⟩
  rw [(hnew e he).2] at hup
  cases hup

end World

open World

/-! ## Messages and synchronisations -/

/-- Handling a message works on an upload only if the message asks for it. -/
theorem MsgStep.prompted {upload : Bool} {w t : World} (h : MsgStep upload w t) :
    ∃ new, t.trace = new ++ w.trace ∧ ((∃ e ∈ new, e.isUpload = true) → upload = true) := by
  cases h with
  | processRc rcid => exact ⟨[.processRc rcid], rfl, by simp [Event.isUpload]⟩
  | report topic_name application_message d env =>
      exact ⟨[.registerTimeout _, .request ..], rfl,
        by simp [Event.isUpload, Handler.forUploader, mkSetPublish]⟩
  | event topic_name application_message d env hup _ =>
      exact ⟨[.registerTimeout _, .request ..], rfl, fun _ => hup⟩
  | strftime hup => exact ⟨[.strftime _], rfl, fun _ => hup⟩
  | reboot => exact ⟨[.rebootRc], rfl, by simp [Event.isUpload]⟩

theorem MsgPath.prompted {upload : Bool} {w t : World} (h : MsgPath upload w t) :
    ∃ new, t.trace = new ++ w.trace ∧ ((∃ e ∈ new, e.isUpload = true) → upload = true) := by
  induction h with
  | refl => exact ⟨[], rfl, by simp⟩
  | tail _ hs ih =>
      obtain ⟨new, ht, hnew⟩ := ih
      obtain ⟨new', hu, hnew'⟩ := hs.prompted
      refine ⟨new' ++ new, by rw [hu, ht, List.append_assoc], fun ⟨e, he, hup⟩ => ?_⟩
      rcases List.mem_append.mp he with he | he
      · exact hnew' ⟨e, he, hup⟩
      · exact hnew ⟨e, he, hup⟩

theorem MsgStop.prompted {upload : Bool} {w t : World} (h : MsgStop upload w t) :
    ∃ new, t.trace = new ++ w.trace ∧ ((∃ e ∈ new, e.isUpload = true) → upload = true) := by
  obtain ⟨u, hu, rfl | ⟨conn, topic_name, application_message, d, env, hconn, rfl⟩⟩ := h
  · exact MsgPath.prompted hu
  · obtain ⟨new, ht, hnew⟩ := MsgPath.prompted hu
    refine ⟨.registerTimeout _ :: .request conn topic_name application_message publishQos1 _ ::
      new, by rw [List.cons_append, List.cons_append, ← ht]; rfl, ?_⟩
    rintro ⟨e, he, hup⟩
    rcases List.mem_cons.mp he with rfl | he
    · exact (hconn (of_decide_eq_true hup)).1
    · rcases List.mem_cons.mp he with rfl | he
      · cases hup
      · exact hnew ⟨e, he, hup⟩

theorem prompted_admlinkMsgHandle (c : Conn) (app_msg : Bytes) (w : World) :
    Ends (fun _ => Prompted w) (fun _ => Prompted w)
      (admlinkMsgHandle (app_msg ++ [Ch.nul]) (w.log (.deliver c app_msg))) := by
  have hdeliver : ∀ t : World, (∃ new, t.trace = new ++ (w.log (.deliver c app_msg)).trace ∧
      ((∃ e ∈ new, e.isUpload = true) → uploads app_msg = true)) → Prompted w t := by
    rintro t ⟨new, ht, hnew⟩
    refine ⟨new ++ [.deliver c app_msg], by rw [ht, List.append_assoc]; rfl, ?_⟩
    rintro ⟨e, he, hup⟩
    rcases List.mem_append.mp he with he | he
    · exact ⟨.deliver c app_msg, by simp, hnew ⟨e, he, hup⟩⟩
    · rw [List.mem_singleton.mp he] at hup
      cases hup
  exact (path_admlinkMsgHandle app_msg _).mono (fun _ _ h => hdeliver _ (MsgPath.prompted h))
    fun _ _ h => hdeliver _ (MsgStop.prompted h)

theorem SyncStep.prompted {c : Conn} {w t : World} (h : SyncStep c w t) : Prompted w t := by
  cases h with
  | env env => exact .of_eq rfl
  | io => exact .log rfl
  | client _ => exact .of_eq rfl
  | packet r => exact .log (e := .packet ..) rfl
  | @deliver app_msg _ hr =>
      have h := prompted_admlinkMsgHandle c app_msg w
      rwa [hr] at h

theorem SyncPath.prompted {c : Conn} {w t : World} (h : SyncPath c w t) : Prompted w t := by
  induction h with
  | refl => exact .of_eq rfl
  | tail _ hs ih => exact ih.trans hs.prompted

theorem SyncStop.prompted {c : Conn} {w t : World} (h : SyncStop c w t) : Prompted w t := by
  obtain ⟨u, hu, rfl | ⟨app_msg, e, hr⟩⟩ := h
  · exact SyncPath.prompted hu
  · have h := prompted_admlinkMsgHandle c app_msg u
    rw [hr] at h
    exact (SyncPath.prompted hu).trans h

/-! ## Closing and opening -/

/-- What is logged while connections are synchronised or closed. -/
def Event.OfClose (tinfo : Option Tm) : Event → Prop
  | .bioIo .. | .packet .. | .deliver .. | .request .. | .processRc _ | .rebootRc
  | .bioFreeAll _ | .eloopDestroy | .ctrlClose => True
  | .strftime t => t = tinfo
  | .registerTimeout h => h.forUploader = true → tinfo ≠ none
  | _ => False

theorem Event.OfSync.ofClose {c : Conn} {fd bf : Option BioId} {tinfo : Option Tm} :
    ∀ e : Event, e.OfSync c fd bf tinfo → e.OfClose tinfo := by
  intro e he
  cases e <;> first | exact he | trivial

section Closing

variable {c : Conn} {w t : World}

theorem Frame.logged (h : Frame c w t) (hp : Prompted w t) :
    Logged (Event.OfClose w.agent.tinfo) w t := ⟨h.logs.mono Event.OfSync.ofClose, hp⟩

theorem SyncPath.logged (h : SyncPath c w t) : Logged (Event.OfClose w.agent.tinfo) w t :=
  (SyncPath.frame h).logged (SyncPath.prompted h)

theorem SyncStop.logged (h : SyncStop c w t) : Logged (Event.OfClose w.agent.tinfo) w t :=
  (SyncStop.frame h).logged (SyncStop.prompted h)

theorem Closed.tinfo (h : Closed c w t) : t.agent.tinfo = w.agent.tinfo := by
  cases h with
  | reset _ => exact World.tinfo_setConn ..
  | released _ hpath _ => exact (World.tinfo_setConn ..).trans (SyncPath.frame hpath).tinfo

theorem Closed.logged (h : Closed c w t) : Logged (Event.OfClose w.agent.tinfo) w t := by
  cases h with
  | reset _ => exact .of_eq rfl
  | @released b u _ hpath _ =>
      exact (SyncPath.logged hpath).trans
        ((Logged.log (e := .bioFreeAll b) trivial rfl : Logged _ u _).congr rfl)

theorem ShutEnd.logged (h : ShutEnd w t) : Logged (Event.OfClose w.agent.tinfo) w t := by
  have hhalt : Logged (Event.OfClose w.agent.tinfo) w w.halted := by
    obtain ⟨new, ht, hnew⟩ := w.logs_halted
    refine .of_append _ ht fun e he => ?_
    rcases List.mem_cons.mp (hnew e he) with rfl | he
    · exact ⟨trivial, rfl⟩
    · rw [List.mem_singleton.mp he]
      exact ⟨trivial, rfl⟩
  have htinfo : w.halted.agent.tinfo = w.agent.tinfo := by rw [World.agent_halted]
  rw [← htinfo] at hhalt ⊢
  cases h with
  | recv hc => exact hhalt.trans (SyncStop.logged hc.sync)
  | upld hu hc =>
      have h := SyncStop.logged hc.sync
      rw [hu.tinfo] at h
      exact (hhalt.trans hu.logged).trans h
  | exit hu hc =>
      have h := hc.logged
      rw [hu.tinfo] at h
      exact (hhalt.trans hu.logged).trans h

/-- What a connection attempt on `c` logs. -/
def Event.OfConnect (c : Conn) (w : World) : Event → Prop
  | .bioNew d old _ _ => d = c ∧ old = (w.conn c).biofd
  | .sslCtxNew _ | .sslCtxFree _ | .mqttInit _ => True
  | e => e.OfClose w.agent.tinfo

theorem Event.OfClose.ofConnect {e : Event} (h : e.OfClose w.agent.tinfo) : e.OfConnect c w := by
  cases e <;> first | exact h | trivial

theorem logged_ctxOpened (c : Conn) (w : World) :
    Logged (Event.OfConnect c w) w (w.ctxOpened c) :=
  .of_append [.sslCtxNew w.ctxs] rfl (by simp [Event.OfConnect, Event.isUpload])

theorem logged_bioOpened (c : Conn) (w : World) :
    Logged (Event.OfConnect c w) w (w.bioOpened c) :=
  .of_append [.bioNew c (w.conn c).biofd w.bios w.ctxs, .sslCtxNew w.ctxs] rfl
    (by simp [Event.OfConnect, Event.isUpload])

theorem logged_connected (c : Conn) (w : World) (connfd : Nat) :
    Logged (Event.OfConnect c w) w (w.connected c connfd) :=
  .of_append [.mqttInit c, .bioNew c (w.conn c).biofd w.bios w.ctxs, .sslCtxNew w.ctxs]
    rfl (by simp [Event.OfConnect, Event.isUpload])

theorem logged_refused (c : Conn) (w : World) :
    Logged (Event.OfConnect c w) w (w.refused c) :=
  .of_append [.sslCtxFree w.ctxs, .bioFreeAll w.bios,
    .bioNew c (w.conn c).biofd w.bios w.ctxs, .sslCtxNew w.ctxs] rfl
    (by simp [Event.OfConnect, Event.OfClose, Event.isUpload])

/-- After the connection has been opened. -/
theorem logged_opened {connfd : Nat}
    (h : Logged (Event.OfClose (w.connected c connfd).agent.tinfo) (w.connected c connfd) t) :
    Logged (Event.OfConnect c w) w t := by
  refine (logged_connected c w connfd).trans (h.mono fun e he => Event.OfClose.ofConnect ?_)
  rwa [show (w.connected c connfd).agent.tinfo = w.agent.tinfo by
    cases c <;> rfl] at he

theorem ConnectEnd.logged {b : Bool} (h : ConnectEnd c w b t) :
    Logged (Event.OfConnect c w) w t := by
  cases h with
  | refused _ => exact logged_refused c w
  | failed _ hr _ =>
      exact logged_opened (SyncPath.logged ((path_agSync c).of_ok hr))
  | @up connfd u d env _ hpath =>
      refine (logged_opened (SyncPath.logged hpath)).trans ?_
      exact .of_append [.registerTimeout (.agHandleClttraffic c)] rfl
        (by simp [Event.OfConnect, Event.OfClose, Event.isUpload, Handler.forUploader])

theorem ConnectStop.logged (h : ConnectStop c w t) : Logged (Event.OfConnect c w) w t := by
  cases h with
  | exit ho =>
      cases ho with
      | noBio hs =>
          refine (logged_ctxOpened c w).trans (hs.logged.mono fun e he => ?_)
          exact Event.OfClose.ofConnect (by cases c <;> exact he)
      | bio hs =>
          refine (logged_bioOpened c w).trans (hs.logged.mono fun e he => ?_)
          exact Event.OfClose.ofConnect (by cases c <;> exact he)
  | sync hs => exact logged_opened (SyncStop.logged hs)
  | timer d env hpath =>
      refine (logged_opened (SyncPath.logged hpath)).trans ?_
      exact .of_append [.registerTimeout (.agHandleClttraffic c)] rfl
        (by simp [Event.OfConnect, Event.OfClose, Event.isUpload, Handler.forUploader])

end Closing

/-! ## Checks -/

/-- What `chk_agstatm` logs. Each connection is opened at most once, from the
state it had before, and only when it was down. -/
def Event.OfChk (w : World) : Event → Prop
  | .bioNew c old _ _ => (w.conn c).status = 0 ∧ old = (w.conn c).biofd
  | .sslCtxNew _ | .sslCtxFree _ | .mqttInit _ => True
  | e => e.OfClose w.agent.tinfo

section Checks

variable {c : Conn} {w t u : World}

theorem Event.OfConnect.ofChk (h0 : (w.conn c).status = 0) :
    ∀ e : Event, e.OfConnect c w → e.OfChk w := by
  intro e he
  cases e with
  | bioNew d old b x =>
      obtain ⟨rfl, hold⟩ := he
      exact ⟨h0, hold⟩
  | _ => exact he

theorem Event.OfClose.ofChk {e : Event} (h : e.OfClose w.agent.tinfo) : e.OfChk w := by
  cases e <;> first | exact h | trivial

theorem Event.OfChk.congr {e : Event} (h : e.OfChk u)
    (hconn : ∀ d, (u.conn d).status = 0 → (w.conn d).status = 0 ∧
      (u.conn d).biofd = (w.conn d).biofd)
    (htinfo : u.agent.tinfo = w.agent.tinfo) : e.OfChk w := by
  cases e with
  | bioNew d old b x =>
      obtain ⟨h0, hold⟩ := h
      exact ⟨(hconn d h0).1, hold.trans (hconn d h0).2⟩
  | strftime tm => exact Eq.trans h htinfo
  | registerTimeout hdl =>
      intro hup
      rw [← htinfo]
      exact h hup
  | _ => exact h

theorem ConnectEnd.tinfo {b : Bool} (h : ConnectEnd c w b t) :
    t.agent.tinfo = w.agent.tinfo := by
  have hcon : ∀ connfd, (w.connected c connfd).agent.tinfo = w.agent.tinfo := fun connfd => by
    cases c <;> rfl
  cases h with
  | refused _ => cases c <;> rfl
  | failed _ hr _ => exact ((frame_agSync c).of_ok hr).tinfo.trans (hcon _)
  | up d env _ hpath =>
      exact (World.tinfo_setConn ..).trans ((SyncPath.frame hpath).tinfo.trans (hcon _))

theorem ConnectEnd.other {b : Bool} (h : ConnectEnd c w b t) {d : Conn} (hd : d ≠ c) :
    t.conn d = w.conn d := by
  cases h with
  | refused _ => exact w.conn_refused_other hd
  | failed _ hr _ =>
      exact (((frame_agSync c).of_ok hr).other d hd).trans (w.conn_connected_other hd _)
  | @up connfd u n env _ hpath =>
      rw [u.conn_up_other hd, (SyncPath.frame hpath).other d hd, w.conn_connected_other hd]

theorem ConnectEnd.status_up (h : ConnectEnd c w true t) : (t.conn c).status = 1 := by
  cases h with
  | up d env _ _ => simp

/-- Of what the receiver's attempt changes nothing matters to the uploader's. -/
theorem RecvUp.ofChk (h : RecvUp w u) : ∀ e : Event, e.OfChk u → e.OfChk w := by
  intro e he
  cases h with
  | already _ => exact he
  | now h0 hc =>
      refine he.congr (fun d hd => ?_) hc.tinfo
      cases d with
      | mqrecv => exact absurd hd (by rw [hc.status_up]; decide)
      | mqupld =>
          have hother := hc.other (d := .mqupld) (by decide)
          rw [hother] at hd ⊢
          exact ⟨hd, rfl⟩

theorem RecvUp.logged (h : RecvUp w u) : Logged (Event.OfChk w) w u := by
  cases h with
  | already _ => exact .of_eq rfl
  | now h0 hc => exact hc.logged.mono (Event.OfConnect.ofChk h0)

theorem ChecksEnd.logged {b : Bool} (h : ChecksEnd w b t) : Logged (Event.OfChk w) w t := by
  cases h with
  | recv h0 hc => exact hc.logged.mono (Event.OfConnect.ofChk h0)
  | upld _ hu h0 hc =>
      exact hu.logged.trans ((hc.logged.mono (Event.OfConnect.ofChk h0)).mono hu.ofChk)
  | both hu _ => exact hu.logged

theorem ChecksStop.logged (h : ChecksStop w t) : Logged (Event.OfChk w) w t := by
  cases h with
  | recv h0 hc => exact hc.logged.mono (Event.OfConnect.ofChk h0)
  | upld hu h0 hc =>
      exact hu.logged.trans ((hc.logged.mono (Event.OfConnect.ofChk h0)).mono hu.ofChk)

theorem RecvUp.tinfo (h : RecvUp w u) : u.agent.tinfo = w.agent.tinfo := by
  cases h with
  | already _ => rfl
  | now _ hc => exact hc.tinfo

theorem ChecksEnd.tinfo {b : Bool} (h : ChecksEnd w b t) : t.agent.tinfo = w.agent.tinfo := by
  cases h with
  | recv _ hc => exact hc.tinfo
  | upld _ hu _ hc => exact hc.tinfo.trans hu.tinfo
  | both hu _ => exact hu.tinfo

theorem forUploader_eq_false {hdl : Handler} (h : hdl.isPublish = false) :
    hdl.forUploader = false := by
  cases hdl with
  | eloopSetPublish p => cases h
  | _ => rfl

/-- The registration of a timer that is no deferred publish. -/
def Event.OfTimer (e : Event) : Prop := ∃ hdl, e = .registerTimeout hdl ∧ hdl.isPublish = false

theorem logged_registering {w t : World} {hdl : Handler} (hhdl : hdl.isPublish = false)
    (ht : t.trace = .registerTimeout hdl :: w.trace) : Logged Event.OfTimer w t :=
  .of_append [.registerTimeout hdl] ht
    (by simp [Event.OfTimer, Event.isUpload, hhdl, forUploader_eq_false hhdl])

theorem Event.OfTimer.ofChk {e : Event} (h : e.OfTimer) : e.OfChk w := by
  obtain ⟨hdl, rfl, hhdl⟩ := h
  intro hup
  rw [forUploader_eq_false hhdl] at hup
  cases hup

theorem ChkEnd.logged (h : ChkEnd w t) : Logged (Event.OfChk w) w t := by
  cases h with
  | down d env hc =>
      exact hc.logged.trans ((logged_registering rfl rfl).mono fun _ he => he.ofChk)
  | good tm env d env' _ hc =>
      exact hc.logged.trans ((logged_registering rfl rfl).mono fun _ he => he.ofChk)

theorem ChkStop.logged (h : ChkStop w t) : Logged (Event.OfChk w) w t := by
  cases h with
  | checks hc => exact hc.logged
  | err hc hs =>
      have h := hs.logged
      rw [hc.tinfo] at h
      exact hc.logged.trans (h.mono fun _ => Event.OfClose.ofChk)
  | date hc => exact hc.logged
  | down d env hc =>
      exact hc.logged.trans ((logged_registering rfl rfl).mono fun _ he => he.ofChk)
  | good tm env d env' _ hc =>
      exact hc.logged.trans ((logged_registering rfl rfl).mono fun _ he => he.ofChk)

end Checks

/-! ## Dispatches -/

def Dispatch.reads : Dispatch → Bool
  | .readers _ _ => true
  | _ => false

/-- What a dispatch logs in the world `w`: a reader, or the timer handler `hdl`. -/
def Event.OfDispatch (w : World) (reads : Bool) (hdl : Option Handler) : Event → Prop
  | .bioNew c old _ _ => (w.conn c).status = 0 ∧ old = (w.conn c).biofd
  | .publish p initialised =>
      hdl = some (.eloopSetPublish p) ∧ initialised = (w.conn p.conn).mqclt.mq.isSome
  | .strftime t => if reads then t ≠ none else t = w.agent.tinfo
  | .registerTimeout h =>
      if reads then h.isPublish = true → h.forUploader = true
      else h.forUploader = true → w.agent.tinfo ≠ none
  | .rebootRc => reads = false
  | .cmdHandle _ => reads = true ∧ w.agent.agstatus ≠ .isReboot
  | .ctrlReply reply => reads = true ∧ (w.agent.agstatus = .isReboot → reply = strReplyOk)
  | _ => True

section Dispatch

variable {w t u : World} {hdl : Option Handler}

theorem Event.OfChk.ofDispatch {e : Event} (h : e.OfChk w) :
    e.OfDispatch w false hdl := by
  cases e with
  | bioNew | strftime | registerTimeout => exact h
  | rebootRc => rfl
  | _ => trivial

theorem Event.OfClose.ofDispatch {e : Event}
    (h : e.OfClose w.agent.tinfo) : e.OfDispatch w false hdl := h.ofChk.ofDispatch

theorem TrafficEnd.logged {c : Conn} (h : TrafficEnd c w t) :
    Logged (Event.OfDispatch w false hdl) w t := by
  have hsync : ∀ {e : MqttErrors} {u : World}, agSync c w = .ok e u →
      Logged (Event.OfDispatch w false hdl) w u := fun hr =>
    (SyncPath.logged ((path_agSync c).of_ok hr)).mono fun _ he => he.ofDispatch
  cases h with
  | again n env hr =>
      exact (hsync hr).trans ((logged_registering rfl rfl).mono fun _ he => he.ofChk.ofDispatch)
  | closed hr _ hc =>
      have h := hc.logged
      rw [((frame_agSync c).of_ok hr).tinfo] at h
      exact (hsync hr).trans (h.mono fun _ he => he.ofDispatch)

theorem TrafficStop.logged {c : Conn} (h : TrafficStop c w t) :
    Logged (Event.OfDispatch w false hdl) w t := by
  have hsync : ∀ {e : MqttErrors} {u : World}, agSync c w = .ok e u →
      Logged (Event.OfDispatch w false hdl) w u := fun hr =>
    (SyncPath.logged ((path_agSync c).of_ok hr)).mono fun _ he => he.ofDispatch
  cases h with
  | sync hs => exact (SyncStop.logged hs).mono fun _ he => he.ofDispatch
  | close hr _ hc =>
      have h := SyncStop.logged hc.sync
      rw [((frame_agSync c).of_ok hr).tinfo] at h
      exact (hsync hr).trans (h.mono fun _ he => he.ofDispatch)
  | timer n env hr =>
      exact (hsync hr).trans ((logged_registering rfl rfl).mono fun _ he => he.ofChk.ofDispatch)

theorem logged_publishing {p : SetPublish} (cl : Client) :
    Logged (Event.OfDispatch w false (some (.eloopSetPublish p))) w
      ((w.publishing p).setClient p.conn cl) :=
  .of_append [.publish p (w.conn p.conn).mqclt.mq.isSome] rfl
    (by simp [Event.OfDispatch, Event.isUpload])

theorem PublishEnd.logged {p : SetPublish} (h : PublishEnd p w t) :
    Logged (Event.OfDispatch w false (some (.eloopSetPublish p))) w t := by
  cases h with
  | queued _ _ => exact logged_publishing _
  | closed _ _ hc =>
      have h := hc.logged
      rw [World.tinfo_setClient] at h
      exact (logged_publishing _).trans (h.mono fun _ he => he.ofDispatch)

theorem PublishStop.logged {p : SetPublish} (h : PublishStop p w t) :
    Logged (Event.OfDispatch w false (some (.eloopSetPublish p))) w t := by
  cases h with
  | fault _ => exact (logged_publishing (w.conn p.conn).mqclt).congr rfl
  | close _ _ hc =>
      have h := SyncStop.logged hc.sync
      rw [World.tinfo_setClient] at h
      exact (logged_publishing _).trans (h.mono fun _ he => he.ofDispatch)

/-- The events of a command: a timer for `stop`, an upload for `sendtest`. -/
def Event.OfCommand (tm : Tm) : Event → Prop
  | .strftime t => t = some tm
  | .registerTimeout h => h.isPublish = true → h.forUploader = true
  | .request .. => True
  | _ => False

theorem CommandEnd.logs {tm : Tm} {hdl : Option CmdHdl} (htm : w.agent.tinfo = some tm)
    (h : CommandEnd w hdl t) : ∃ new, t.trace = new ++ w.trace ∧
      ∀ e ∈ new, e.OfCommand tm ∧ (e.isUpload = true → hdl = some .sendtest) := by
  cases h with
  | unknown => exact ⟨[], rfl, by simp⟩
  | stop n env =>
      exact ⟨[.registerTimeout _], rfl,
        by simp [Event.OfCommand, Event.isUpload, Handler.isPublish, Handler.setPublish?,
          Handler.forUploader]⟩
  | sendtest msg n env =>
      exact ⟨[.registerTimeout _, .request .., .strftime _], rfl,
        by simp [Event.OfCommand, htm, Handler.forUploader, mkSetPublish]⟩

theorem CommandStop.logs {tm : Tm} {hdl : Option CmdHdl} (htm : w.agent.tinfo = some tm)
    (h : CommandStop w hdl t) : ∃ new, t.trace = new ++ w.trace ∧
      ∀ e ∈ new, e.OfCommand tm ∧ (e.isUpload = true → hdl = some .sendtest) := by
  cases h with
  | stop n env =>
      exact ⟨[.registerTimeout _], rfl,
        by simp [Event.OfCommand, Event.isUpload, Handler.isPublish, Handler.setPublish?,
          Handler.forUploader]⟩
  | text => exact ⟨[], rfl, by simp⟩
  | date => exact ⟨[.strftime _], rfl, by simp [Event.OfCommand, htm]⟩
  | sendtest msg n env =>
      exact ⟨[.registerTimeout _, .request .., .strftime _], rfl,
        by simp [Event.OfCommand, htm, Handler.forUploader, mkSetPublish]⟩

/-- A datagram that passed the gate, up to the end of its command. -/
theorem logged_handling {buf : Bytes} {tm : Tm} {env : Env}
    (hgate : w.agent.agstatus ≠ .isReboot)
    (h : ∃ new, t.trace = new ++ (w.handling buf tm env).trace ∧
      ∀ e ∈ new, e.OfCommand tm ∧ (e.isUpload = true → findCmdHdl buf = some .sendtest)) :
    Logged (Event.OfDispatch w true hdl) w t := by
  obtain ⟨new, ht, hnew⟩ := h
  have htrace : t.trace = (new ++ [.cmdHandle buf]) ++ w.trace := by
    rw [ht, List.append_assoc]
    rfl
  refine ⟨⟨_, htrace, fun e he => ?_⟩, _, htrace, fun ⟨e, he, hup⟩ => ?_⟩
  · rcases List.mem_append.mp he with he | he
    · have hcmd := (hnew e he).1
      cases e with
      | strftime tm' =>
          rw [show tm' = some tm from hcmd]
          simp [Event.OfDispatch]
      | registerTimeout hdl => exact hcmd
      | request => trivial
      | _ => exact hcmd.elim
    · rw [List.mem_singleton.mp he]
      exact ⟨rfl, hgate⟩
  · rcases List.mem_append.mp he with he | he
    · refine ⟨.cmdHandle buf, by simp, ?_⟩
      simpa [Event.asksUpload] using (hnew e he).2 hup
    · rw [List.mem_singleton.mp he] at hup
      cases hup

theorem ControlEnd.logged {dgram : Option Bytes}
    (h : ControlEnd w dgram t) : Logged (Event.OfDispatch w true hdl) w t := by
  cases h with
  | silent => exact .of_eq rfl
  | gated _ => exact .log ⟨rfl, fun _ => rfl⟩ rfl
  | handled tm env reply hboot _ hc =>
      exact (logged_handling hboot (hc.logs rfl)).trans
        (.log ⟨rfl, fun h => absurd h hboot⟩ rfl)

theorem ControlStop.logged {dgram : Option Bytes}
    (h : ControlStop w dgram t) : Logged (Event.OfDispatch w true hdl) w t := by
  cases h with
  | date hboot _ => exact .log ⟨rfl, hboot⟩ rfl
  | command tm env hboot _ hc => exact logged_handling hboot (hc.logs rfl)

theorem HandlerEnd.logged {hdl : Handler} (h : HandlerEnd hdl w t) :
    Logged (Event.OfDispatch w false (some hdl)) w t := by
  cases hdl with
  | chkAgstatm => exact (ChkEnd.logged h).mono fun _ he => he.ofDispatch
  | agHandleClttraffic c => exact TrafficEnd.logged h
  | eloopSetPublish p => exact PublishEnd.logged h
  | eloopSetExit => exact h.elim

theorem HandlerStop.logged {hdl : Handler} (h : HandlerStop hdl w t) :
    Logged (Event.OfDispatch w false (some hdl)) w t := by
  cases hdl with
  | chkAgstatm => exact (ChkStop.logged h).mono fun _ he => he.ofDispatch
  | agHandleClttraffic c => exact TrafficStop.logged h
  | eloopSetPublish p => exact PublishStop.logged h
  | eloopSetExit => exact (ShutEnd.logged h).mono fun _ he => he.ofDispatch

/-- The time and the timers do not matter to what may be logged. -/
theorem logged_of_agent {reads : Bool} (h : Logged (Event.OfDispatch u reads hdl) u t)
    (hagent : u.agent = w.agent) (htrace : u.trace = w.trace) :
    Logged (Event.OfDispatch w reads hdl) w t := by
  have hof : Event.OfDispatch u reads hdl = Event.OfDispatch w reads hdl := by
    funext e
    cases e <;> simp only [Event.OfDispatch, World.conn, hagent]
  rw [hof] at h
  exact (Logged.of_eq htrace).trans h

/-- What a dispatch logs in `w`. -/
abbrev DispatchLogged (w : World) (d : Dispatch) : World → Prop :=
  Logged (Event.OfDispatch w d.reads (dueHandler w d)) w

theorem DispatchEnd.logged {d : Dispatch} (h : DispatchEnd w d t) : DispatchLogged w d t := by
  cases h with
  | idle n env => exact .of_eq rfl
  | fired hclocks hlist hdue he =>
      have hlog := HandlerEnd.logged he
      rw [← dueHandler_eq hclocks hlist hdue] at hlog
      exact logged_of_agent hlog rfl rfl
  | noReader => exact .of_eq rfl
  | reader _ hc => exact logged_of_agent (ControlEnd.logged hc) rfl rfl

theorem DispatchStop.logged {d : Dispatch} (h : DispatchStop w d t) : DispatchLogged w d t := by
  cases h with
  | clock => exact .of_eq rfl
  | fired hclocks hlist hdue he =>
      have hlog := HandlerStop.logged he
      rw [← dueHandler_eq hclocks hlist hdue] at hlog
      exact logged_of_agent hlog rfl rfl
  | reader _ hc => exact logged_of_agent (ControlStop.logged hc) rfl rfl
  | out hs => exact logged_of_agent (hs.logged.mono fun _ he => he.ofDispatch) rfl rfl

theorem dispatch_logged (d : Dispatch) (w : World) :
    Ends (fun _ => DispatchLogged w d) (fun _ => DispatchLogged w d) (dispatch d w) :=
  (dispatch_ends d w).mono (fun _ _ => DispatchEnd.logged) fun _ _ => DispatchStop.logged

/-! ## The events a dispatch adds -/

/-- What `d` adds to the trace of `w`, newest first. -/
def newEvents (w : World) (d : Dispatch) : List Event := added (dispatch d) w

theorem dispatchLogged_final (d : Dispatch) (w : World) :
    DispatchLogged w d (final (dispatch d w)) := (dispatch_logged d w).final

theorem trace_final (d : Dispatch) (w : World) :
    (final (dispatch d w)).trace = newEvents w d ++ w.trace := by
  obtain ⟨new, ht, -⟩ := (dispatchLogged_final d w).logs
  rw [newEvents, added_eq _ ht, ht]

theorem ofDispatch_newEvents (d : Dispatch) (w : World) :
    ∀ e ∈ newEvents w d, e.OfDispatch w d.reads (dueHandler w d) := by
  obtain ⟨new, ht, hnew⟩ := (dispatchLogged_final d w).logs
  rw [newEvents, added_eq _ ht]
  exact hnew

/-- Where there is work on an upload there is a command that asks for it. -/
theorem asksUpload_newEvents {d : Dispatch} {e : Event} (he : e ∈ newEvents w d)
    (hup : e.isUpload = true) : ∃ a ∈ newEvents w d, a.asksUpload = true := by
  obtain ⟨new, ht, hnew⟩ := (dispatchLogged_final d w).prompted
  rw [newEvents, added_eq _ ht] at he ⊢
  exact hnew ⟨e, he, hup⟩

/-- However a dispatch ends, its events are there. -/
theorem dispatch_trace (d : Dispatch) (w : World) :
    Ends (fun _ t => t.trace = newEvents w d ++ w.trace)
      (fun _ t => t.trace = newEvents w d ++ w.trace) (dispatch d w) :=
  .of_final (trace_final d w)

end Dispatch

end Admlink
