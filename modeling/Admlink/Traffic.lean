import Admlink.Bios

/-!
# Traffic chains and live BIOs

Between two dispatches a connection is down, with an idle client and no pending
traffic timer, or up, with a client that talks to its BIO and exactly one
(`Linked`). The invariant breaks where `eloop_set_publish` closes a connection
that is up: its traffic timer stays. It holds in all runs in which every
deferred publish for a connection that is up is accepted.
-/

namespace Admlink

open Program Relation Runs

/-! ## Reads and writes on the current BIO -/

/-- A read or write goes through the BIO the connection holds, which has not
been freed. -/
def IoOnLive (e : Event) (past : List Event) : Prop :=
  ∀ c fd bf written, e = .bioIo c fd bf written →
    ∃ b, fd = some b ∧ bf = some b ∧ .bioFreeAll b ∉ past

/-- What every world satisfies, in the middle of a handler too. -/
structure Safe (w : World) : Prop where
  bio : BioInv w
  socket : ∀ c b, (w.conn c).biofd = some b →
    (w.conn c).mqclt.socketfd = some b ∨ Idle (w.conn c).mqclt
  io : History.Each IoOnLive w.trace

/-- Events that touch no BIO. -/
def Event.noIo : Event → Prop
  | .bioIo .. => False
  | _ => True

theorem io_of_logs {w t : World} (h : History.Each IoOnLive w.trace)
    (hlogs : World.Logs Event.noIo w t) : History.Each IoOnLive t.trace := by
  obtain ⟨new, ht, hnew⟩ := hlogs
  rw [ht]
  refine h.append_of_all fun e he past c fd bf written heq => ?_
  subst heq
  exact (hnew _ he).elim

namespace Safe

variable {c : Conn} {w t u : World}

/-- A synchronisation over the BIO the connection holds. -/
theorem sync (h : Safe w) {b : BioId} (hb : (w.conn c).biofd = some b)
    (hs : (w.conn c).mqclt.socketfd = some b) (hf : Frame c w t) : Safe t where
  bio := h.bio.frame hf
  socket d b' hd := by
    by_cases hdc : d = c
    · subst hdc
      rw [hf.biofd, hb, Option.some.injEq] at hd
      exact .inl (by rw [hf.link.socketfd, hs, hd])
    · rw [hf.other d hdc] at hd ⊢
      exact h.socket d b' hd
  io := by
    obtain ⟨new, ht, hnew⟩ := hf.logs
    rw [ht]
    refine h.io.append fun post e pre hsplit c' fd bf written heq => ?_
    subst heq
    obtain ⟨-, rfl, rfl⟩ := hnew (.bioIo c' fd bf written) (by rw [hsplit]; simp)
    refine ⟨b, hs, hb, fun hmem => ?_⟩
    rcases List.mem_append.mp hmem with hpre | hold
    · exact hnew (.bioFreeAll b) (by rw [hsplit]; simp [hpre])
    · exact (h.bio.held c b hb).2 (mem_freedBios.mpr hold)

/-- A change without reads and writes that leaves the idle clients idle. -/
theorem still (h : Safe w) (hbio : BioInv t) (hlogs : World.Logs Event.noIo w t)
    (hconn : ∀ d b, (t.conn d).biofd = some b →
      (t.conn d).mqclt.socketfd = some b ∨ Idle (t.conn d).mqclt) : Safe t :=
  ⟨hbio, hconn, io_of_logs h.io hlogs⟩

/-- What `close_conn` does before it frees the BIO. -/
theorem disconnect (h : Safe w) {b : BioId} (hb : (w.conn c).biofd = some b)
    (hf : Frame c w t) (hidle : StaysIdle c w t) : Safe t := by
  rcases h.socket c b hb with hs | hi
  · exact h.sync hb hs hf
  · obtain ⟨ht, hi'⟩ := hidle hi
    refine h.still (h.bio.frame hf) (.of_eq ht) fun d b' hd => ?_
    by_cases hdc : d = c
    · subst hdc
      exact .inr hi'
    · rw [hf.other d hdc] at hd ⊢
      exact h.socket d b' hd

theorem closed (h : Safe w) (hc : Closed c w t) : Safe t := by
  have hbio := h.bio.closed hc
  have hsocket : ∀ d b, (t.conn d).biofd = some b →
      (t.conn d).mqclt.socketfd = some b ∨ Idle (t.conn d).mqclt := by
    intro d b hd
    by_cases hdc : d = c
    · subst hdc
      rw [hc.biofd] at hd
      cases hd
    · rw [hc.other hdc] at hd ⊢
      exact h.socket d b hd
  cases hc with
  | reset _ => exact h.still hbio (.of_eq rfl) hsocket
  | released hb hpath hidle =>
      exact ⟨hbio, hsocket, io_of_logs (h.disconnect hb (SyncPath.frame hpath) hidle).io
        (.log trivial)⟩

theorem closeStop (h : Safe w) (hc : CloseStop c w t) : Safe t := by
  obtain ⟨b, hb⟩ := hc.hasBio
  exact h.disconnect hb (SyncStop.frame hc.sync) hc.idle

theorem halted (h : Safe w) : Safe w.halted := by
  refine h.still h.bio.halted (w.logs_halted.mono fun e he => ?_) fun d b hd => ?_
  · rcases List.mem_cons.mp he with rfl | he
    · trivial
    · rw [List.mem_singleton.mp he]
      trivial
  · rw [World.conn_halted] at hd ⊢
    exact h.socket d b hd

theorem shutEnd (h : Safe w) (hs : ShutEnd w t) : Safe t := by
  cases hs with
  | recv hc => exact h.halted.closeStop hc
  | upld hu hc => exact (h.halted.closed hu).closeStop hc
  | exit hu hc => exact (h.halted.closed hu).closed hc

/-- A change that no connection, no BIO and no read or write sees. -/
theorem same (h : Safe w) (hconn : ∀ d, t.conn d = w.conn d) (hbios : t.bios = w.bios)
    (hlogs : World.Logs (fun e => e.noIo ∧ ∀ b, e ≠ .bioFreeAll b) w t) : Safe t := by
  refine h.still ?_ (hlogs.mono fun e he => he.1) fun d b hd => ?_
  · exact h.bio.of_eq (fun d => by rw [hconn]) hbios
      (freedBios_logs hlogs fun b hb => hb.2 b rfl)
  · rw [hconn] at hd ⊢
    exact h.socket d b hd

end Safe

/-! ## Opening a connection that is down -/

namespace Safe

variable {c : Conn} {w t u : World}

theorem ctxOpened (h : Safe w) : Safe (w.ctxOpened c) := by
  refine h.still h.bio.ctxOpened (.log (e := .sslCtxNew w.ctxs) trivial) fun d b hd => ?_
  by_cases hdc : d = c
  · subst hdc
    rw [World.conn_ctxOpened_same] at hd ⊢
    exact h.socket d b hd
  · rw [w.conn_ctxOpened_other hdc] at hd ⊢
    exact h.socket d b hd

/-- The client of a connection that is down has nothing to do with the new BIO. -/
theorem bioOpened (h : Safe w) (hidle : Idle (w.conn c).mqclt) : Safe (w.bioOpened c) := by
  refine h.still h.bio.bioOpened
    ⟨[.bioNew c (w.conn c).biofd w.bios w.ctxs, .sslCtxNew w.ctxs], rfl, ?_⟩ fun d b hd => ?_
  · simp [Event.noIo]
  · by_cases hdc : d = c
    · subst hdc
      rw [World.conn_bioOpened_same]
      exact .inr hidle
    · rw [w.conn_bioOpened_other hdc] at hd ⊢
      exact h.socket d b hd

theorem refused (h : Safe w) : Safe (w.refused c) := by
  refine h.still h.bio.refused ⟨[.sslCtxFree w.ctxs, .bioFreeAll w.bios,
    .bioNew c (w.conn c).biofd w.bios w.ctxs, .sslCtxNew w.ctxs], rfl, ?_⟩ fun d b hd => ?_
  · simp [Event.noIo]
  · by_cases hdc : d = c
    · subst hdc
      rw [World.conn_refused_same] at hd
      cases hd
    · rw [w.conn_refused_other hdc] at hd ⊢
      exact h.socket d b hd

theorem connected (h : Safe w) (connfd : Nat) : Safe (w.connected c connfd) := by
  obtain ⟨hfd, -, hsock⟩ := conn_connected w c connfd
  refine h.still (h.bio.connected connfd) ⟨[.mqttInit c,
    .bioNew c (w.conn c).biofd w.bios w.ctxs, .sslCtxNew w.ctxs], rfl, ?_⟩ fun d b hd => ?_
  · simp [Event.noIo]
  · by_cases hdc : d = c
    · subst hdc
      exact .inl (by rw [hsock, ← hfd, hd])
    · rw [w.conn_connected_other hdc] at hd ⊢
      exact h.socket d b hd

/-- The first synchronisation of a connection that has just been opened. -/
theorem connectedSync (h : Safe w) {connfd : Nat} (hf : Frame c (w.connected c connfd) t) :
    Safe t := by
  obtain ⟨hfd, -, hsock⟩ := conn_connected w c connfd
  exact (h.connected connfd).sync hfd hsock hf

theorem openExit (h : Safe w) (hidle : Idle (w.conn c).mqclt) (ho : OpenExit c w t) :
    Safe t := by
  cases ho with
  | noBio hs => exact h.ctxOpened.shutEnd hs
  | bio hs => exact (h.bioOpened hidle).shutEnd hs

/-- The registration of a timer. -/
theorem registered (h : Safe w) (secs usecs : Nat) (hdl : Handler) (d : Nat) (env : Env) :
    Safe (w.registered secs usecs hdl d env) :=
  h.same (fun _ => rfl) rfl (.log (e := .registerTimeout hdl) (by simp [Event.noIo]))

theorem registering (h : Safe w) (hdl : Handler) (d : Nat) (env : Env) :
    Safe ((w.log (.registerTimeout hdl)).tick d env) :=
  h.same (fun _ => rfl) rfl (.log (e := .registerTimeout hdl) (by simp [Event.noIo]))

theorem handling (h : Safe w) (buf : Bytes) (tm : Tm) (env : Env) :
    Safe (w.handling buf tm env) :=
  h.same (fun _ => rfl) rfl (.log (e := .cmdHandle buf) (by simp [Event.noIo]))

theorem setStatus (h : Safe w) (status : Nat) :
    Safe (w.setConn c { w.conn c with status }) := by
  refine h.still (h.bio.setConn (.inl rfl)) (.of_eq rfl) fun d b hd => ?_
  by_cases hdc : d = c
  · subst hdc
    rw [World.conn_setConn_same] at hd ⊢
    exact h.socket d b hd
  · rw [w.conn_setConn_other hdc] at hd ⊢
    exact h.socket d b hd

theorem connectStop (h : Safe w) (hidle : Idle (w.conn c).mqclt) (hc : ConnectStop c w t) :
    Safe t := by
  cases hc with
  | exit ho => exact h.openExit hidle ho
  | sync hs => exact h.connectedSync (SyncStop.frame hs)
  | timer d env hpath =>
      exact ((h.connectedSync (SyncPath.frame hpath)).setStatus 1).registering ..

end Safe

/-! ## The invariant between two dispatches -/

/-- Connection `c` is down and idle, or up and served by a single chain of
timers, of which `gone c` have just been taken off the list. -/
structure LinkedAt (gone : Conn → Nat) (w : World) (c : Conn) : Prop where
  binary : (w.conn c).status = 0 ∨ (w.conn c).status = 1
  up : (w.conn c).status = 1 →
    ∃ b, (w.conn c).biofd = some b ∧ (w.conn c).mqclt.socketfd = some b
  down : (w.conn c).status = 0 → Idle (w.conn c).mqclt
  traffic : w.trafficTimers c + gone c = (w.conn c).status

structure Linked (gone : Conn → Nat) (w : World) : Prop where
  safe : Safe w
  each : ∀ c, LinkedAt gone w c

theorem LinkedAt.of_eq {gone : Conn → Nat} {w t : World} {c : Conn} (h : LinkedAt gone w c)
    (hconn : t.conn c = w.conn c) (htimers : t.trafficTimers c = w.trafficTimers c) :
    LinkedAt gone t c := by
  obtain ⟨hbin, hup, hdown, htr⟩ := h
  refine ⟨?_, ?_, ?_, ?_⟩ <;> rw [hconn]
  · exact hbin
  · exact hup
  · exact hdown
  · rw [htimers]
    exact htr

namespace Linked

variable {gone : Conn → Nat} {c : Conn} {w t u : World}

/-- A synchronisation of a connection that is up. -/
theorem sync (h : Linked gone w) (hc : (w.conn c).status = 1) (hf : Frame c w t) :
    Linked gone t := by
  obtain ⟨b, hfd, hsock⟩ := (h.each c).up hc
  refine ⟨h.safe.sync hfd hsock hf, fun d => ?_⟩
  have htimers := World.trafficTimers_eq hf.timers
  by_cases hdc : d = c
  · subst hdc
    have hstatus := hf.status
    refine ⟨by rw [hstatus]; exact .inr hc, fun _ => ?_, fun h0 => ?_, ?_⟩
    · exact ⟨b, hf.biofd.trans hfd, hf.link.socketfd.trans hsock⟩
    · rw [hstatus, hc] at h0
      cases h0
    · rw [htimers, hstatus]
      exact (h.each d).traffic
  · exact (h.each d).of_eq (hf.other d hdc) (htimers d)

/-- A change of connection `c` only. -/
theorem replace (h : Linked gone w) (hsafe : Safe t) (hother : ∀ d, d ≠ c → t.conn d = w.conn d)
    (htimers : ∀ d, d ≠ c → t.trafficTimers d = w.trafficTimers d)
    (hc : LinkedAt gone t c) : Linked gone t := by
  refine ⟨hsafe, fun d => ?_⟩
  by_cases hdc : d = c
  · rw [hdc]
    exact hc
  · exact (h.each d).of_eq (hother d hdc) (htimers d hdc)

/-- A change that no connection and no traffic timer sees. -/
theorem same (h : Linked gone w) (hconn : ∀ d, t.conn d = w.conn d) (hbios : t.bios = w.bios)
    (hlogs : World.Logs (fun e => e.noIo ∧ ∀ b, e ≠ .bioFreeAll b) w t)
    (htimers : ∀ d, t.trafficTimers d = w.trafficTimers d) : Linked gone t :=
  ⟨h.safe.same hconn hbios hlogs, fun d => (h.each d).of_eq (hconn d) (htimers d)⟩

theorem connectEnd {b : Bool} (h : Linked gone w) (h0 : (w.conn c).status = 0)
    (hc : ConnectEnd c w b t) : Linked gone t := by
  have htraffic := (h.each c).traffic
  cases hc with
  | refused _ =>
      refine h.replace h.safe.refused (fun d => w.conn_refused_other) (fun _ _ => rfl) ?_
      refine ⟨?_, fun h1 => ?_, fun _ => ?_, ?_⟩ <;> rw [World.conn_refused_same] at *
      · exact .inl h0
      · rw [h0] at h1
        cases h1
      · exact (h.each c).down h0
      · exact htraffic
  | @failed connfd e _ _ hr he =>
      -- the BIO stays open, but no timer will use it: the status is still 0
      have hf := (frame_agSync c).of_ok hr
      obtain ⟨-, hstatus, -⟩ := conn_connected w c connfd
      have h0' : (t.conn c).status = 0 := by rw [hf.status, hstatus, h0]
      have htimers := World.trafficTimers_eq hf.timers
      refine h.replace (h.safe.connectedSync hf)
        (fun d hd => (hf.other d hd).trans (w.conn_connected_other hd connfd))
        (fun d _ => htimers d) ⟨.inl h0', fun h1 => ?_, fun _ => .inl ?_, ?_⟩
      · rw [h0'] at h1
        cases h1
      · exact (returns_mqttSync (publishCallback c) c).of_ok trivial hr he
      · rw [h0', htimers]
        exact htraffic.trans h0
  | @up connfd u n env _ hpath =>
      have hf := SyncPath.frame hpath
      obtain ⟨hfd, -, hsock⟩ := conn_connected w c connfd
      have htimers : ∀ d, u.trafficTimers d = w.trafficTimers d := World.trafficTimers_eq hf.timers
      have hsafe : Safe (u.up c n env) :=
        ((h.safe.connectedSync hf).setStatus 1).registered 0 mqttSynT (.agHandleClttraffic c) n env
      refine h.replace (c := c) hsafe (fun d hd => ?_) (fun d hd => ?_)
        ⟨?_, fun _ => ?_, fun h0 => ?_, ?_⟩
      · rw [u.conn_up_other hd, hf.other d hd, w.conn_connected_other hd]
      · rw [World.trafficTimers_up, if_neg (Ne.symm hd), htimers]
        rfl
      · simp
      · rw [World.conn_up_same]
        exact ⟨w.bios, hf.biofd.trans hfd, hf.link.socketfd.trans hsock⟩
      · simp at h0
      · rw [World.trafficTimers_up, if_pos rfl, World.conn_up_same, htimers]
        change w.trafficTimers c + 1 + gone c = 1
        omega

theorem recvUp (h : Linked gone w) (hu : RecvUp w u) : Linked gone u := by
  cases hu with
  | already _ => exact h
  | now h0 hc => exact h.connectEnd h0 hc

theorem checksEnd {b : Bool} (h : Linked gone w) (hc : ChecksEnd w b t) : Linked gone t := by
  cases hc with
  | recv h0 hc => exact h.connectEnd h0 hc
  | upld _ hu h0 hc => exact (h.recvUp hu).connectEnd h0 hc
  | both hu _ => exact h.recvUp hu

theorem checksStop (h : Linked gone w) (hc : ChecksStop w t) : Safe t := by
  cases hc with
  | recv h0 hc => exact h.safe.connectStop ((h.each _).down h0) hc
  | upld hu h0 hc => exact (h.recvUp hu).safe.connectStop (((h.recvUp hu).each _).down h0) hc

/-- A timer that is no traffic timer. -/
theorem registered (h : Linked gone w) (secs usecs : Nat) {hdl : Handler}
    (hdl' : ∀ d, hdl ≠ .agHandleClttraffic d) (n : Nat) (env : Env) :
    Linked gone (w.registered secs usecs hdl n env) := by
  refine ⟨h.safe.registered .., fun d => (h.each d).of_eq rfl ?_⟩
  rw [World.registered, World.trafficTimers_schedule, if_neg (hdl' d)]
  rfl

theorem chkEnd (h : Linked gone w) (hc : ChkEnd w t) : Linked gone t := by
  cases hc with
  | down d env hc => exact (h.checksEnd hc).registered _ _ (by simp) _ _
  | good tm env d env' _ hc =>
      have hu : Linked gone (World.checked _ tm env) :=
        (h.checksEnd hc).same (fun _ => rfl) rfl (.of_eq rfl) fun _ => rfl
      exact hu.registered _ _ (by simp) _ _

theorem chkStop (h : Linked gone w) (hc : ChkStop w t) : Safe t := by
  cases hc with
  | checks hc => exact h.checksStop hc
  | err hc hs => exact (h.checksEnd hc).safe.shutEnd hs
  | date hc => exact (h.checksEnd hc).safe
  | down d env hc => exact (h.checksEnd hc).safe.registering ..
  | good tm env d env' _ hc =>
      have hu : Safe (World.checked _ tm env) :=
        (h.checksEnd hc).safe.same (fun _ => rfl) rfl (.of_eq rfl)
      exact hu.registering ..

/-! ### Traffic ticks -/

/-- The number of timers a handler of `c` took off the list. -/
abbrev firing (hdl : Handler) : Conn → Nat := fun c => if hdl = .agHandleClttraffic c then 1 else 0

/-- A connection whose traffic timer fires is up. -/
theorem up_of_firing (h : Linked (firing (.agHandleClttraffic c)) w) :
    (w.conn c).status = 1 ∧ w.trafficTimers c = 0 := by
  have htr := (h.each c).traffic
  rw [firing, if_pos rfl] at htr
  rcases (h.each c).binary with h0 | h1
  · omega
  · omega

theorem trafficEnd (h : Linked (firing (.agHandleClttraffic c)) w) (ht : TrafficEnd c w t) :
    Linked (fun _ => 0) t := by
  obtain ⟨hup, hnone⟩ := h.up_of_firing
  cases ht with
  | @again u n env hr =>
      have hf := (frame_agSync c).of_ok hr
      have hu := h.sync hup hf
      refine ⟨hu.safe.registered .., fun d => ?_⟩
      obtain ⟨hbin, hup', hdown, htr⟩ := hu.each d
      refine ⟨hbin, hup', hdown, ?_⟩
      rw [World.registered, World.trafficTimers_schedule]
      exact htr
  | @closed e u _ hr he hc =>
      have hf := (frame_agSync c).of_ok hr
      have hu := h.sync hup hf
      have hidle : Idle (u.conn c).mqclt :=
        .inl ((returns_mqttSync (publishCallback c) c).of_ok trivial hr he)
      have htimers := World.trafficTimers_eq hc.timers
      refine ⟨hu.safe.closed hc, fun d => ?_⟩
      by_cases hdc : d = c
      · subst hdc
        refine ⟨.inl hc.status, fun h1 => ?_, fun _ => hc.idle hidle, ?_⟩
        · rw [hc.status] at h1
          cases h1
        · rw [htimers, hc.status, World.trafficTimers_eq hf.timers, hnone]
      · have hud := (hu.each d).of_eq (hc.other hdc) (htimers d)
        have htr := hud.traffic
        rw [firing, if_neg (by simpa using Ne.symm hdc)] at htr
        exact ⟨hud.binary, hud.up, hud.down, htr⟩

theorem trafficStop (h : Linked (firing (.agHandleClttraffic c)) w) (ht : TrafficStop c w t) :
    Safe t := by
  obtain ⟨hup, -⟩ := h.up_of_firing
  cases ht with
  | sync hs => exact (h.sync hup (SyncStop.frame hs)).safe
  | close hr _ hc => exact (h.sync hup ((frame_agSync c).of_ok hr)).safe.closeStop hc
  | timer d env hr => exact (h.sync hup ((frame_agSync c).of_ok hr)).safe.registering ..

end Linked

/-! ## Deferred publishes that are accepted -/

/-- `mqtt_publish` takes `p`: the client is in no error and its queue, once the
completed messages at its front are dropped, has room for the packet. -/
def Accepts (cl : Client) (p : SetPublish) : Prop :=
  cl.error = .ok ∧ qosOf p.publish_flags ≠ 3 ∧
    publishRemaining p.topic_name.str p.application_message p.publish_flags <
      256 * 1024 * 1024 ∧
    ∃ mq ∈ cl.mq,
      publishLength p.topic_name.str p.application_message p.publish_flags ≤ mq.clean.currsz

instance (cl : Client) (p : SetPublish) : Decidable (Accepts cl p) := by
  unfold Accepts; infer_instance

/-- A deferred publish that `d` runs for a connection that is up is accepted. -/
def PublishAccepted (w : World) (d : Dispatch) : Prop :=
  ∀ p, dueHandler w d = some (.eloopSetPublish p) → (w.conn p.conn).status = 1 →
    Accepts (w.conn p.conn).mqclt p

instance (w : World) (d : Dispatch) (P : SetPublish → Prop) [DecidablePred P] :
    Decidable (∀ p, dueHandler w d = some (.eloopSetPublish p) → P p) :=
  match h : dueHandler w d with
  | some (.eloopSetPublish p) =>
      decidable_of_iff (P p)
        ⟨fun hp q hq => by
            rw [Option.some.injEq, Handler.eloopSetPublish.injEq] at hq
            exact hq ▸ hp,
          fun hp => hp p rfl⟩
  | none | some .chkAgstatm | some (.agHandleClttraffic _) | some .eloopSetExit =>
      .isTrue fun q hq => by cases hq

instance (w : World) (d : Dispatch) : Decidable (PublishAccepted w d) := by
  unfold PublishAccepted; infer_instance

section Publish

variable {p : SetPublish} {w : World} {r : MqttErrors × Client}

theorem error_of_accepts (h : Accepts (w.conn p.conn).mqclt p) (hr : w.callPublish p = .ok r) :
    r.2.error = .ok := by
  obtain ⟨herr, hqos, hlen, mq, hmq, hfit⟩ := h
  obtain ⟨-, pid, rfl⟩ := mqttPublish_ok hr
  obtain ⟨packed, hpack⟩ := packPublish_legal hqos hlen pid
  have key : ∀ cl : Client, cl.error = .ok → cl.mq = some mq →
      (packAndRegister cl (mqttPackPublishRequest · p.topic_name.str pid p.application_message
        p.publish_flags) .publish (some pid) (some p.seqno)).2.error = .ok := by
    intro cl herr hmq
    have hroom : cl.room = some mq.currsz := by rw [MqttClient.room, hmq]; rfl
    have hclean : cl.clean.room = some mq.clean.currsz := by
      rw [MqttClient.room, MqttClient.clean, hmq]; rfl
    have hneg : cl.error.neg = false := by rw [herr]; rfl
    by_cases hnow : mq.currsz <
        publishLength p.topic_name.str p.application_message p.publish_flags
    · rw [packAndRegister_fits_clean hneg
        (by rw [hroom, hpack, if_pos hnow]) (by rw [hclean, hpack, if_neg (by omega)])]
      exact herr
    · rw [packAndRegister_fits hneg (by rw [hroom, hpack, if_neg hnow])]
      exact herr
  exact key _ herr hmq

/-- An idle client refuses. -/
theorem neg_of_callPublish (hr : w.callPublish p = .ok r)
    (hidle : Idle (w.conn p.conn).mqclt) : r.2.error.neg = true := by
  obtain ⟨hmq, pid, rfl⟩ := mqttPublish_ok hr
  have hneg : (w.conn p.conn).mqclt.error.neg = true := by
    refine hidle.resolve_right fun hnone => ?_
    rw [hnone] at hmq
    cases hmq
  have hstill : ({ (w.conn p.conn).mqclt with pid_lfsr := pid } : Client).error.neg = true :=
    hneg
  rw [packAndRegister_of_neg hstill]
  exact hneg

end Publish

namespace Linked

variable {gone : Conn → Nat} {c : Conn} {w t u : World} {p : SetPublish}

theorem publishing (h : Linked gone w) {r : MqttErrors × Client} (hr : w.callPublish p = .ok r) :
    Linked gone ((w.publishing p).setClient p.conn r.2) := by
  have hlink := link_of_callPublish hr
  have hlogs : World.Logs Event.noIo w ((w.publishing p).setClient p.conn r.2) :=
    ⟨[.publish p (w.conn p.conn).mqclt.mq.isSome], rfl, by simp [Event.noIo]⟩
  obtain ⟨hbin, hup, hdown, htr⟩ := h.each p.conn
  have hsafe : Safe ((w.publishing p).setClient p.conn r.2) := by
    refine h.safe.still (h.safe.bio.publishing p r.2) hlogs fun d b hd => ?_
    by_cases hdc : d = p.conn
    · subst hdc
      rw [World.conn_setClient_same] at hd ⊢
      rcases hbin with h0 | h1
      · exact .inr (.inl (neg_of_callPublish hr (hdown h0)))
      · obtain ⟨b', hb', hs⟩ := hup h1
        exact .inl (by rw [hlink.socketfd, hs, ← hb']; exact hd)
    · rw [World.conn_setClient_other _ hdc] at hd ⊢
      exact h.safe.socket d b hd
  refine h.replace (c := p.conn) hsafe (fun d hd => World.conn_setClient_other _ hd _)
    (fun _ _ => rfl) ⟨?_, fun h1 => ?_, fun h0 => ?_, ?_⟩
  all_goals rw [World.conn_setClient_same] at *
  · exact hbin
  · obtain ⟨b, hb, hs⟩ := hup h1
    exact ⟨b, hb, hlink.socketfd.trans hs⟩
  · exact .inl (neg_of_callPublish hr (hdown h0))
  · exact htr

/-- Closing a connection that is down. -/
theorem closed (h : Linked gone w) (h0 : (w.conn c).status = 0) (hc : Closed c w t) :
    Linked gone t := by
  have htimers := World.trafficTimers_eq hc.timers
  refine h.replace (h.safe.closed hc) (fun d hd => hc.other hd) (fun d _ => htimers d)
    ⟨.inl hc.status, fun h1 => ?_, fun _ => hc.idle ((h.each c).down h0), ?_⟩
  · rw [hc.status] at h1
    cases h1
  · rw [htimers, hc.status, ← h0]
    exact (h.each c).traffic

theorem publishEnd (h : Linked gone w)
    (hacc : (w.conn p.conn).status = 1 → Accepts (w.conn p.conn).mqclt p)
    (hp : PublishEnd p w t) : Linked gone t := by
  cases hp with
  | queued hr _ => exact h.publishing hr
  | @closed r _ hr he hc =>
      have h0 : (w.conn p.conn).status = 0 :=
        (h.each p.conn).binary.resolve_right fun h1 => he (error_of_accepts (hacc h1) hr)
      refine (h.publishing hr).closed ?_ hc
      rw [World.conn_setClient_same]
      exact h0

theorem publishStop (h : Linked gone w) (hp : PublishStop p w t) : Safe t := by
  cases hp with
  | fault _ =>
      exact h.safe.same (fun _ => rfl) rfl (.log (e := .publish ..) (by simp [Event.noIo]))
  | close hr _ hc => exact (h.publishing hr).safe.closeStop hc

/-! ### Every dispatch -/

/-- A fired traffic timer is one less pending. -/
theorem popped (h : Linked (fun _ => 0) w) {tm : EloopTimeout Handler}
    {rest : List (EloopTimeout Handler)} (hlist : w.eloop.timeout = tm :: rest) (n : Nat)
    (env : Env) : Linked (firing tm.handler) (w.popped n env rest) := by
  refine ⟨h.safe.same (fun _ => rfl) rfl (.of_eq rfl), fun d => ?_⟩
  obtain ⟨hbin, hup, hdown, htr⟩ := h.each d
  refine ⟨hbin, hup, hdown, htr ▸ ?_⟩
  simp only [World.trafficTimers, World.popped, hlist, List.countP_cons, firing, Nat.add_zero,
    decide_eq_true_eq]

theorem firing_none {hdl : Handler} (hne : ∀ d, hdl ≠ .agHandleClttraffic d)
    (h : Linked (firing hdl) w) : Linked (fun _ => 0) w := by
  have heq : firing hdl = fun _ => 0 := funext fun d => if_neg (hne d)
  rwa [heq] at h

theorem handling (h : Linked gone w) (buf : Bytes) (tm : Tm) (env : Env) :
    Linked gone (w.handling buf tm env) :=
  h.same (fun _ => rfl) rfl (.log (e := .cmdHandle buf) (by simp [Event.noIo])) fun _ => rfl

theorem commandEnd {hdl : Option CmdHdl} (h : Linked gone w) (hc : CommandEnd w hdl t) :
    Linked gone t := by
  cases hc with
  | unknown => exact h
  | stop d env => exact h.registered _ _ (by simp) _ _
  | sendtest msg d env =>
      refine h.same (fun _ => rfl) rfl ⟨[.registerTimeout _, .request .., .strftime _], rfl, ?_⟩
        fun d => ?_
      · simp [Event.noIo]
      · rw [World.request, World.trafficTimers_schedule, if_neg (by simp)]
        rfl

theorem commandStop {hdl : Option CmdHdl} (h : Safe w) (hc : CommandStop w hdl t) : Safe t := by
  cases hc with
  | stop d env => exact h.registering ..
  | text => exact h
  | date => exact h.same (fun _ => rfl) rfl (.log (e := .strftime _) (by simp [Event.noIo]))
  | sendtest msg d env =>
      refine h.same (fun _ => rfl) rfl ⟨[.registerTimeout _, .request .., .strftime _], rfl, ?_⟩
      simp [Event.noIo]

theorem dispatchEnd (h : Linked (fun _ => 0) w) {d : Dispatch} (hacc : PublishAccepted w d)
    (hd : DispatchEnd w d t) : Linked (fun _ => 0) t := by
  have htick : ∀ n env, Linked (fun _ => 0) (w.tick n env) := fun n env =>
    h.same (fun _ => rfl) rfl (.of_eq rfl) fun _ => rfl
  cases hd with
  | idle n env => exact htick n env
  | @fired env n ns tm rest _ hclocks hlist hdue he =>
      have hpop := h.popped hlist n { env with clocks := ns }
      have hfires := dueHandler_eq hclocks hlist hdue
      cases hh : tm.handler with
      | agHandleClttraffic c =>
          rw [hh] at he hpop
          exact hpop.trafficEnd he
      | chkAgstatm =>
          rw [hh] at he hpop
          exact (hpop.firing_none (by simp)).chkEnd he
      | eloopSetPublish p =>
          rw [hh] at he hpop hfires
          exact (hpop.firing_none (by simp)).publishEnd (hacc p hfires) he
      | eloopSetExit =>
          rw [hh] at he
          exact he.elim
  | noReader => exact htick 0 _
  | @reader env dgram _ _ hc =>
      have ht := htick 0 env
      cases hc with
      | silent => exact ht
      | gated _ =>
          exact ht.same (fun _ => rfl) rfl (.log (e := .ctrlReply _) (by simp [Event.noIo]))
            fun _ => rfl
      | handled tm env' reply _ _ hc =>
          exact ((ht.handling ..).commandEnd hc).same (fun _ => rfl) rfl
            (.log (e := .ctrlReply _) (by simp [Event.noIo])) fun _ => rfl

theorem dispatchStop (h : Linked (fun _ => 0) w) {d : Dispatch} (hd : DispatchStop w d t) :
    Safe t := by
  have htick : ∀ n env, Safe (w.tick n env) := fun n env =>
    h.safe.same (fun _ => rfl) rfl (.of_eq rfl)
  cases hd with
  | clock => exact htick 0 _
  | @fired env n ns tm rest _ hclocks hlist hdue he =>
      have hpop := h.popped hlist n { env with clocks := ns }
      cases hh : tm.handler with
      | agHandleClttraffic c =>
          rw [hh] at he hpop
          exact hpop.trafficStop he
      | chkAgstatm =>
          rw [hh] at he hpop
          exact hpop.chkStop he
      | eloopSetPublish p =>
          rw [hh] at he hpop
          exact hpop.publishStop he
      | eloopSetExit =>
          rw [hh] at he
          exact hpop.safe.shutEnd he
  | @reader env dgram _ _ hc =>
      have ht := htick 0 env
      cases hc with
      | date _ _ =>
          exact ht.same (fun _ => rfl) rfl (.log (e := .cmdHandle _) (by simp [Event.noIo]))
      | command tm env' _ _ hc => exact commandStop (ht.handling ..) hc
  | out hs => exact (htick 0 _).shutEnd hs

theorem start (h : IsStart w) : Linked (fun _ => 0) w := by
  have hbio := BioInv.start h
  obtain ⟨arg, agent, sock, clock, env, hcfg, rfl⟩ := h
  have hzero : ∀ c, ((started agent sock clock env).conn c).biofd = none ∧
      ((started agent sock clock env).conn c).status = 0 ∧
      ∃ leftovers, ((started agent sock clock env).conn c).mqclt = .zeroed leftovers :=
    hcfg.zeroed.2.2
  refine ⟨⟨hbio, fun c b hb => ?_, fun c fd bf written heq => ?_, trivial⟩, fun c => ?_⟩
  · rw [(hzero c).1] at hb
    cases hb
  · cases heq
  · obtain ⟨-, hstatus, leftovers, hclient⟩ := hzero c
    refine ⟨.inl hstatus, fun h1 => ?_, fun _ => ?_, ?_⟩
    · rw [hstatus] at h1
      cases h1
    · rw [hclient]
      exact .inr rfl
    · rw [hstatus]
      rfl

end Linked

/-- Between two dispatches. -/
theorem linked_between {w : World} (h : Between PublishAccepted w) : Linked (fun _ => 0) w :=
  h.invariant (fun _ => Linked.start) fun d s t hs hc hr => by
    have he := dispatch_ends d s
    rw [hr] at he
    exact hs.dispatchEnd hc he

theorem safe_inRun {w : World} (h : InRun PublishAccepted w) : Safe w :=
  Seen.invariant (I := Linked fun _ => 0) (J := Safe) (fun _ => Linked.start)
    (fun d s hs => (dispatch_ends d s).mono (fun _ _ => hs.1.dispatchEnd hs.2)
      fun _ _ => hs.1.dispatchStop) (fun _ h => h.safe) h

/-! ## Results -/

/-- Whenever `mqtt_sync` reads or writes through `mqclt.socketfd`, that is the
BIO the connection holds and `BIO_free_all` has not been called on it. -/
def IoOnLiveBios (trace : List Event) : Prop :=
  ∀ post pre c fd bf written, trace = post ++ .bioIo c fd bf written :: pre →
    ∃ b, fd = some b ∧ bf = some b ∧ .bioFreeAll b ∉ pre

/-- No run in which every deferred publish is accepted touches a freed BIO. -/
theorem io_on_live_bios (w : World) (h : InRun PublishAccepted w) : IoOnLiveBios w.trace := by
  intro post pre c fd bf written hsplit
  exact (safe_inRun h).io.of_split hsplit c fd bf written rfl

theorem io_on_live_bios_oneMessage : IoOnLiveBios (runs oneMessage).trace :=
  io_on_live_bios _ (.between (runs_between oneMessage (by decide +kernel)))

/-- Thirteen test messages, of which the queue of the uploader takes twelve: the
thirteenth closes the connection. -/
def fullQueue : List Dispatch :=
  .timeout (after 1000000 [.sent 22, .sent 31]) ::
    List.replicate 13 (.readers quiet (some (bytes "sendtest"))) ++
    [.timeout (after 200000 [.sent 50]), .timeout (after 0 [])] ++
    List.replicate 13 (.timeout (after 0 []))

/-- Its traffic timer then reads from the freed BIO. -/
theorem io_on_freed_bio : ¬ ∀ w, InRun Always w → IoOnLiveBios w.trace := by
  intro h
  let ds := fullQueue ++ [.timeout (after 200000 []), .timeout (after 0 [])]
  have hhead : (runs ds).trace.head? = some (.bioIo .mqupld (some 1) none []) := by
    decide +kernel
  obtain ⟨pre, htrace⟩ := List.head?_eq_some_iff.mp hhead
  obtain ⟨b, -, hb, -⟩ := h _ (runs_inRun ds) [] pre _ _ _ _ htrace
  cases hb

/-- The pending traffic timers are those of the connections that are up. -/
def OneChain (w : World) : Prop :=
  ∀ c, ((w.conn c).status = 1 → w.trafficTimers c = 1) ∧
    ((w.conn c).status = 0 → w.trafficTimers c = 0)

/-- One traffic chain per connection, as long as every publish is accepted. -/
theorem one_traffic_chain (w : World) (h : Between PublishAccepted w) : OneChain w := by
  intro c
  have htr := ((linked_between h).each c).traffic
  constructor
  · intro h1
    omega
  · intro h0
    omega

theorem one_traffic_chain_oneMessage : OneChain (runs oneMessage) :=
  one_traffic_chain _ (runs_between oneMessage (by decide +kernel))

/-- The closed connection still has its traffic timer. -/
theorem orphan_traffic_timer : ¬ ∀ w, Between Always w → OneChain w := by
  intro h
  have hdown : ((runs fullQueue).conn .mqupld).status = 0 ∧
      (runs fullQueue).trafficTimers .mqupld = 1 := by decide +kernel
  have hzero := (h _ (runs_between fullQueue (by decide +kernel)) .mqupld).2 hdown.1
  rw [hdown.2] at hzero
  cases hzero

end Admlink
