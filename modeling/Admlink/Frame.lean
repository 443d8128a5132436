import Admlink.MsgSteps
import Admlink.SyncSteps

/-!
# What a synchronisation leaves alone

`Frame c w t` bounds the effect of `mqtt_sync` on connection `c`, whether it
returns or stops: of the connections only the client of `c` changes, and that
without `mqtt_init`; the timers other than deferred publishes stay; nothing is
opened or freed.
-/

namespace Admlink

open Program Relation

/-! ## Traces -/

namespace World

/-- From `w` to `t` only events satisfying `P` have been logged. -/
def Logs (P : Event → Prop) (w t : World) : Prop :=
  ∃ new, t.trace = new ++ w.trace ∧ ∀ e ∈ new, P e

variable {P Q : Event → Prop} {w t u : World}

theorem Logs.of_eq (h : t.trace = w.trace) : Logs P w t := ⟨[], h, by simp⟩

theorem Logs.log {e : Event} (he : P e) : Logs P w (w.log e) := ⟨[e], rfl, by simpa using he⟩

theorem Logs.trans (h : Logs P w t) (h' : Logs P t u) : Logs P w u := by
  obtain ⟨new, ht, hnew⟩ := h
  obtain ⟨new', hu, hnew'⟩ := h'
  refine ⟨new' ++ new, by rw [hu, ht, List.append_assoc], fun e he => ?_⟩
  rcases List.mem_append.mp he with h | h
  · exact hnew' e h
  · exact hnew e h

theorem Logs.mono (h : Logs P w t) (hPQ : ∀ e, P e → Q e) : Logs Q w t := by
  obtain ⟨new, ht, hnew⟩ := h
  exact ⟨new, ht, fun e he => hPQ e (hnew e he)⟩

/-- An event that is not of the logged kind was there before. -/
theorem Logs.mem_old (h : Logs P w t) {e : Event} (he : ¬ P e) : e ∈ t.trace ↔ e ∈ w.trace := by
  obtain ⟨new, ht, hnew⟩ := h
  rw [ht, List.mem_append]
  exact ⟨fun h => h.resolve_left fun hn => he (hnew e hn), .inr⟩

theorem Logs.mem_of_mem (h : Logs P w t) {e : Event} (he : e ∈ w.trace) : e ∈ t.trace := by
  obtain ⟨new, ht, -⟩ := h
  rw [ht]
  exact List.mem_append_right _ he

/-- What is logged on the way to `t` splits where the way does. -/
theorem Logs.split (h : Logs P w t) (hu : Logs Q w u) (ht : Logs Q u t) :
    Logs P w u ∧ Logs P u t := by
  obtain ⟨all, hall, hP⟩ := h
  obtain ⟨new, hu, -⟩ := hu
  obtain ⟨new', ht, -⟩ := ht
  have hsplit : all = new' ++ new := by
    rw [hall, hu, ← List.append_assoc] at ht
    exact List.append_cancel_right ht
  constructor
  · exact ⟨new, hu, fun e he => hP e (by rw [hsplit]; exact List.mem_append_right _ he)⟩
  · exact ⟨new', ht, fun e he => hP e (by rw [hsplit]; exact List.mem_append_left _ he)⟩

/-- An event that is logged on the way. -/
theorem Logs.between {e : Event} (h : Logs P w t) (hw : Logs (fun _ => True) w u)
    (ht : Logs (fun _ => True) (u.log e) t) : P e := by
  have hlog : Logs (fun _ => True) u (u.log e) := .log trivial
  obtain ⟨new, hnew, hP⟩ := ((h.split hw (hlog.trans ht)).2.split hlog ht).1
  refine hP e ?_
  rw [← show [e] = new from List.append_cancel_right hnew]
  exact List.mem_singleton_self e

theorem Logs.any (h : Logs P w t) : Logs (fun _ => True) w t := h.mono fun _ _ => trivial

end World

/-! ## Timers -/

/-- The closure of a deferred publish. -/
def Handler.setPublish? : Handler → Option SetPublish
  | .eloopSetPublish p => some p
  | _ => none

def Handler.isPublish (h : Handler) : Bool := h.setPublish?.isSome

/-- The deferred publishes on the uploader. -/
def Handler.forUploader : Handler → Bool
  | .eloopSetPublish p => p.conn = .mqupld
  | _ => false

namespace World

def otherTimers (w : World) : List (EloopTimeout Handler) :=
  w.eloop.timeout.filter fun t => !t.handler.isPublish

/-- The number of pending `ag_handle_clttraffic` timers for `c`. -/
def trafficTimers (w : World) (c : Conn) : Nat :=
  w.eloop.timeout.countP fun t => t.handler = .agHandleClttraffic c

theorem otherTimers_schedule_publish (w : World) (secs usecs : Nat) (p : SetPublish) :
    (w.schedule secs usecs (.eloopSetPublish p)).otherTimers = w.otherTimers :=
  StableQueue.filter_insert_of_neg rfl _

theorem trafficTimers_schedule (w : World) (c : Conn) (secs usecs : Nat) (h : Handler) :
    (w.schedule secs usecs h).trafficTimers c =
      w.trafficTimers c + if h = .agHandleClttraffic c then 1 else 0 := by
  unfold trafficTimers schedule
  simp only [eloopRegisterTimeout]
  rw [(StableQueue.insert_perm _ _).countP_eq, List.countP_cons]
  simp

/-- Traffic timers are found among the timers that are no publishes. -/
theorem trafficTimers_eq {w t : World} (h : t.otherTimers = w.otherTimers) (c : Conn) :
    t.trafficTimers c = w.trafficTimers c := by
  have hcount : ∀ w : World, w.trafficTimers c =
      w.otherTimers.countP fun t => t.handler = .agHandleClttraffic c := by
    intro w
    rw [trafficTimers, otherTimers, List.countP_filter]
    refine List.countP_congr fun x _ => ?_
    cases hx : x.handler <;> simp [Handler.isPublish, Handler.setPublish?]
  rw [hcount, hcount, h]

end World

/-! ## Frame -/

/-- The events of a synchronisation of `c`, whose client talks to `fd` while
its connection holds `bf`. -/
def Event.OfSync (c : Conn) (fd bf : Option BioId) (tinfo : Option Tm) : Event → Prop
  | .bioIo d fd' bf' _ => d = c ∧ fd' = fd ∧ bf' = bf
  | .packet d _ _ => d = c
  | .deliver d _ => d = c
  | .strftime t => t = tinfo
  | .registerTimeout h => h.forUploader = true → tinfo ≠ none
  | .request .. => True
  | .processRc _ => True
  | .rebootRc => True
  | _ => False

structure Frame (c : Conn) (w t : World) : Prop where
  other : ∀ d, d ≠ c → t.conn d = w.conn d
  own : t.conn c = { w.conn c with mqclt := (t.conn c).mqclt }
  link : SameLink (w.conn c).mqclt (t.conn c).mqclt
  tinfo : t.agent.tinfo = w.agent.tinfo
  agstatus : t.agent.agstatus = w.agent.agstatus ∨ t.agent.agstatus = .isReboot
  reboot : .rebootRc ∈ t.trace → .rebootRc ∈ w.trace ∨ t.agent.agstatus = .isReboot
  bios : t.bios = w.bios
  timers : t.otherTimers = w.otherTimers
  pending : ∀ x ∈ t.eloop.timeout, x ∈ w.eloop.timeout ∨ .registerTimeout x.handler ∈ t.trace
  logs : World.Logs
    (Event.OfSync c (w.conn c).mqclt.socketfd (w.conn c).biofd w.agent.tinfo) w t

namespace Frame

variable {c : Conn} {w t u : World}

theorem refl (c : Conn) (w : World) : Frame c w w where
  other _ _ := rfl
  own := rfl
  link := .refl _
  tinfo := rfl
  agstatus := .inl rfl
  reboot h := .inl h
  bios := rfl
  timers := rfl
  pending _ h := .inl h
  logs := .of_eq rfl

theorem biofd (h : Frame c w t) : (t.conn c).biofd = (w.conn c).biofd := by rw [h.own]

theorem status (h : Frame c w t) : (t.conn c).status = (w.conn c).status := by rw [h.own]

theorem trans (h : Frame c w t) (h' : Frame c t u) : Frame c w u where
  other d hd := (h'.other d hd).trans (h.other d hd)
  own := by
    rw [h'.own, h.own]
  link := h.link.trans h'.link
  tinfo := h'.tinfo.trans h.tinfo
  agstatus := by
    rcases h'.agstatus with heq | heq
    · rw [heq]
      exact h.agstatus
    · exact .inr heq
  reboot hu := by
    rcases h'.reboot hu with ht | heq
    · rcases h.reboot ht with hw | heq
      · exact .inl hw
      · rcases h'.agstatus with h₁ | h₁
        · exact .inr (h₁.trans heq)
        · exact .inr h₁
    · exact .inr heq
  bios := h'.bios.trans h.bios
  timers := h'.timers.trans h.timers
  pending x hx := by
    rcases h'.pending x hx with ht | hu
    · exact (h.pending x ht).imp_right h'.logs.mem_of_mem
    · exact .inr hu
  logs := by
    refine h.logs.trans ?_
    have := h'.logs
    rwa [h.link.socketfd, h.biofd, h.tinfo] at this

instance (c : Conn) : IsPreorder World (Frame c) where
  refl := refl c
  trans _ _ _ := trans

theorem status_all (h : Frame c w t) (d : Conn) : (t.conn d).status = (w.conn d).status := by
  by_cases hd : d = c
  · rw [hd]
    exact h.status
  · rw [h.other d hd]

theorem biofd_all (h : Frame c w t) (d : Conn) : (t.conn d).biofd = (w.conn d).biofd := by
  by_cases hd : d = c
  · rw [hd]
    exact h.biofd
  · rw [h.other d hd]

theorem link_all (h : Frame c w t) (d : Conn) :
    SameLink (w.conn d).mqclt (t.conn d).mqclt := by
  by_cases hd : d = c
  · rw [hd]
    exact h.link
  · rw [h.other d hd]
    exact .refl _

/-- An event the synchronisation may log. -/
theorem log (w : World) {e : Event} (hr : e ≠ .rebootRc)
    (he : e.OfSync c (w.conn c).mqclt.socketfd (w.conn c).biofd w.agent.tinfo) :
    Frame c w (w.log e) :=
  { refl c w with
    reboot := fun h => .inl (by simpa [hr.symm] using h)
    pending := fun _ h => .inl h
    logs := .log he }

theorem tick (w : World) (d : Nat) (env : Env) : Frame c w (w.tick d env) :=
  { refl c w with }

theorem setClient {cl : Client} (h : SameLink (w.conn c).mqclt cl) :
    Frame c w (w.setClient c cl) where
  other d hd := World.conn_setClient_other w hd cl
  own := by simp
  link := by simpa using h
  tinfo := by simp
  agstatus := .inl (by simp)
  reboot h := .inl h
  bios := rfl
  timers := rfl
  pending _ h := .inl h
  logs := .of_eq rfl

theorem ask (w : World) (conn : Conn) (topic_name : Field 128) (application_message : Bytes)
    (publish_flags : Nat) (hconn : conn = .mqupld → w.agent.tinfo ≠ none) :
    Frame c w (w.ask conn topic_name application_message publish_flags) := by
  have h : Frame c w { w with requests := w.requests + 1 } := { refl c w with }
  refine (h.trans (log (e := .request conn topic_name application_message publish_flags
    w.requests) _ (by simp) trivial)).trans (log _ (by simp) fun h =>
    hconn (of_decide_eq_true h))

theorem request (w : World) (conn : Conn) (topic_name : Field 128) (application_message : Bytes)
    (publish_flags d : Nat) (env : Env) (hconn : conn = .mqupld → w.agent.tinfo ≠ none) :
    Frame c w (w.request conn topic_name application_message publish_flags d env) := by
  refine ((ask w conn topic_name application_message publish_flags hconn).trans
    (tick _ d env)).trans ?_
  exact { refl c _ with
    timers := World.otherTimers_schedule_publish ..
    pending := fun x hx => by
      rcases StableQueue.mem_insert.mp hx with rfl | hx
      · exact .inr (List.mem_cons_self ..)
      · exact .inl hx }

end Frame

/-! ## Every step stays in the frame -/

theorem MsgStep.frame {upload : Bool} {w t : World} (c : Conn) (h : MsgStep upload w t) :
    Frame c w t := by
  cases h with
  | processRc rcid => exact .log w (by simp) trivial
  | report topic_name application_message d env => exact .request w _ _ _ _ _ _ (by simp)
  | event topic_name application_message d env _ hdate =>
      exact .request w _ _ _ _ _ _ fun _ => hdate
  | strftime _ => exact .log w (by simp) rfl
  | reboot =>
      exact { Frame.refl c w with
        agstatus := .inr rfl
        reboot := fun _ => .inr rfl
        pending := fun _ h => .inl h
        logs := .log trivial }

theorem MsgPath.frame {upload : Bool} {w t : World} (c : Conn) (h : MsgPath upload w t) :
    Frame c w t := by
  induction h with
  | refl => exact .refl c w
  | tail _ hs ih => exact ih.trans (hs.frame c)

theorem MsgStop.frame {upload : Bool} {w t : World} (c : Conn) (h : MsgStop upload w t) :
    Frame c w t := by
  obtain ⟨u, hu, rfl | ⟨conn, topic_name, application_message, d, env, hconn, rfl⟩⟩ := h
  · exact hu.frame c
  · exact ((MsgPath.frame c hu).trans (.ask u _ _ _ _ fun h => (hconn h).2)).trans (.tick _ d env)

/-- The handling of a message that arrived on `c`, however it ends. -/
theorem frame_admlinkMsgHandle (c : Conn) (app_msg : Bytes) (w : World) :
    Ends (fun _ => Frame c w) (fun _ => Frame c w)
      (admlinkMsgHandle (app_msg ++ [Ch.nul]) (w.log (.deliver c app_msg))) := by
  have hlog : Frame c w (w.log (.deliver c app_msg)) := .log w (by simp) rfl
  exact (path_admlinkMsgHandle app_msg _).mono (fun _ _ h => hlog.trans (MsgPath.frame c h))
    fun _ _ h => hlog.trans (MsgStop.frame c h)

theorem SyncStep.frame {c : Conn} {w t : World} (h : SyncStep c w t) : Frame c w t := by
  cases h with
  | env env => exact .tick w 0 env
  | io => exact .log w (by simp) ⟨rfl, rfl, rfl⟩
  | client hs => exact .setClient hs.sameLink
  | packet r =>
      have hlog : Frame c w (w.log (.packet c r (ackedSeqno (w.conn c).mqclt r))) :=
        .log w (by simp) rfl
      exact hlog.trans (.setClient (afterPacket_sameLink _ r))
  | @deliver app_msg _ hr =>
      have h := frame_admlinkMsgHandle c app_msg w
      rwa [hr] at h

theorem SyncPath.frame {c : Conn} {w t : World} (h : SyncPath c w t) : Frame c w t := by
  induction h with
  | refl => exact .refl c w
  | tail _ hs ih => exact ih.trans hs.frame

theorem SyncStop.frame {c : Conn} {w t : World} (h : SyncStop c w t) : Frame c w t := by
  obtain ⟨u, hu, rfl | ⟨msg, e, hr⟩⟩ := h
  · exact SyncPath.frame hu
  · have h := frame_admlinkMsgHandle c msg u
    rw [hr] at h
    exact (SyncPath.frame hu).trans h

theorem frame_agSync (c : Conn) : Within (Frame c) (Frame c) (agSync c) :=
  (path_agSync c).mono (fun _ _ => SyncPath.frame) fun _ _ => SyncStop.frame

end Admlink
