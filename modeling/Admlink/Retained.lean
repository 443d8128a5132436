import Admlink.Deferred
import Admlink.Logged
import Admlink.Mqtt.Codec
import Admlink.Traffic

/-!
# Who holds a QoS 1 message

A requested message is first held by its timer, then by an entry of the send
queue. An entry leaves the queue only from its front and only once it is
complete, and a PUBLISH at QoS 1 is completed by the acknowledgement that names
it. Three things break this chain: `mqtt_publish` may refuse the message,
`mqtt_init` throws the queue away, and a PUBREC completes a QoS 1 entry, too.
In runs without them nothing is lost.
-/

namespace Admlink

open Program Relation Runs

/-! ## The send queue of one client -/

section Client

variable {fd : Type} {acked : Nat → Prop} {cl cl' cl'' : MqttClient fd}

/-- What is true of an entry packed for request `k`. -/
structure TrackedAs (acked : Nat → Prop) (m : QueuedMessage) (k : Nat) : Prop where
  control_type : m.control_type = .publish
  qos : qosOf (m.start.headD 0).toNat = 1
  complete : m.state = .complete → acked k

def Tracked (acked : Nat → Prop) (cl : MqttClient fd) : Prop :=
  ∀ m ∈ cl.entries, ∀ k, m.seqno = some k → TrackedAs acked m k

/-- The entry is the PUBLISH at QoS 1 of this topic and message, with its packet
id; DUP may be set. -/
def PublishOf (topic_name application_message : Bytes) (m : QueuedMessage) : Prop :=
  ∃ pid h, m.packet_id = some pid ∧
    PublishPacked topic_name pid application_message publishQos1 h m.start

/-- Request `k` waits in the queue. -/
def Waits (cl : MqttClient fd) (k : Nat) : Prop :=
  ∃ m ∈ cl.entries, m.seqno = some k ∧ m.state ≠ .complete

instance (cl : MqttClient fd) (k : Nat) : Decidable (Waits cl k) := by
  unfold Waits; infer_instance

/-- Request `k` waits in the queue as the PUBLISH of this topic and message. -/
def Holds (cl : MqttClient fd) (k : Nat) (topic_name application_message : Bytes) : Prop :=
  ∃ m ∈ cl.entries, m.seqno = some k ∧ m.state ≠ .complete ∧
    PublishOf topic_name application_message m

theorem Holds.waits {k : Nat} {topic_name application_message : Bytes}
    (h : Holds cl k topic_name application_message) : Waits cl k := by
  obtain ⟨m, hm, hk, hstate, -⟩ := h
  exact ⟨m, hm, hk, hstate⟩

/-- Requests leave the queue only once they are acknowledged. -/
structure Carries (acked : Nat → Prop) (cl cl' : MqttClient fd) : Prop where
  tracked : Tracked acked cl → Tracked acked cl'
  holds : Tracked acked cl → ∀ k topic_name application_message,
    Holds cl k topic_name application_message →
      acked k ∨ Holds cl' k topic_name application_message

namespace Carries

theorem of_entries (h : cl'.entries = cl.entries) : Carries acked cl cl' := by
  constructor
  · intro htr
    rwa [Tracked, h]
  · intro _ k topic_name application_message hk
    right
    rwa [Holds, h]

theorem trans (h : Carries acked cl cl') (h' : Carries acked cl' cl'') :
    Carries acked cl cl'' := by
  constructor
  · intro htr
    exact h'.tracked (h.tracked htr)
  · intro htr k topic_name application_message hk
    rcases h.holds htr k _ _ hk with hack | hk'
    · exact .inl hack
    · exact h'.holds (h.tracked htr) k _ _ hk'

theorem clean (acked : Nat → Prop) (cl : MqttClient fd) : Carries acked cl cl.clean := by
  have hclean := cl.entries_clean
  have hsplit : cl.entries.takeWhile (·.state = .complete) ++
      cl.entries.dropWhile (·.state = .complete) = cl.entries := List.takeWhile_append_dropWhile
  constructor
  · intro htr m hm
    rw [hclean] at hm
    exact htr m ((List.dropWhile_sublist _).subset hm)
  · rintro - k topic_name application_message ⟨m, hm, hk, hstate, hpublish⟩
    refine .inr ⟨m, ?_, hk, hstate, hpublish⟩
    rw [← hsplit] at hm
    rw [hclean]
    rcases List.mem_append.mp hm with hfront | hrest
    · -- the entries in front that go are all complete
      have hdone := List.mem_takeWhile_imp hfront
      exact absurd (of_decide_eq_true hdone) hstate
    · exact hrest

theorem register (packed : Bytes) (control_type : ControlType) (packet_id seqno : Option Nat)
    (hnew : ∀ k, seqno = some k →
      TrackedAs acked (.new packed control_type packet_id seqno cl.leftover) k) :
    Carries acked cl (cl.register packed control_type packet_id seqno) := by
  by_cases hmq : cl.mq.isSome = true
  · have hentries := MqttClient.entries_register hmq packed control_type packet_id seqno
    constructor
    · intro htr m hm
      rw [hentries] at hm
      rcases List.mem_append.mp hm with hold | hlast
      · exact htr m hold
      · rw [List.mem_singleton.mp hlast]
        exact hnew
    · rintro - k topic_name application_message ⟨m, hm, hk⟩
      refine .inr ⟨m, ?_, hk⟩
      rw [hentries]
      exact List.mem_append_left _ hm
  · rw [Option.not_isSome_iff_eq_none] at hmq
    exact of_entries (by simp [MqttClient.entries, MqttClient.register, hmq])

/-- One entry is rewritten and stays what it is for its request. -/
theorem set {i : Nat} {m m' : QueuedMessage} (hm : cl.entries[i]? = some m)
    (hseqno : m'.seqno = m.seqno)
    (hstays : ∀ k, m.seqno = some k → TrackedAs acked m k → TrackedAs acked m' k)
    (hpacket : ∀ topic_name application_message, PublishOf topic_name application_message m →
      PublishOf topic_name application_message m') :
    Carries acked cl (cl.setEntries (cl.entries.set i m')) := by
  cases hmq : cl.mq with
  | none => exact of_entries (by simp [MqttClient.entries, MqttClient.setEntries, hmq])
  | some mq =>
      have hentries : (cl.setEntries (cl.entries.set i m')).entries = cl.entries.set i m' := by
        simp [MqttClient.entries, MqttClient.setEntries, hmq]
      have htrack : Tracked acked cl → ∀ k, m'.seqno = some k → TrackedAs acked m' k := by
        intro htr k hk
        rw [hseqno] at hk
        exact hstays k hk (htr m (List.mem_of_getElem? hm) k hk)
      constructor
      · intro htr n hn
        rw [hentries] at hn
        rcases List.mem_or_eq_of_mem_set hn with hold | rfl
        · exact htr n hold
        · exact htrack htr
      · rintro htr k topic_name application_message ⟨n, hn, hk, hstate, hpublish⟩
        obtain ⟨j, hj⟩ := List.getElem?_of_mem hn
        -- the entry of the request may be the one rewritten, and complete with that
        by_cases hij : i = j
        · subst hij
          rw [hm, Option.some.injEq] at hj
          subst hj
          by_cases hdone : m'.state = .complete
          · exact .inl ((htrack htr k (hseqno.trans hk)).complete hdone)
          · refine .inr ⟨m', ?_, hseqno.trans hk, hdone, hpacket _ _ hpublish⟩
            rw [hentries]
            exact List.mem_of_getElem? (List.getElem?_set_self (List.getElem?_eq_some_iff.mp hm).1)
        · refine .inr ⟨n, ?_, hk, hstate, hpublish⟩
          rw [hentries]
          exact List.mem_of_getElem? ((List.getElem?_set_ne hij).trans hj)

theorem packAndRegister {pack_call : Option Nat → PackResult} (hneg : NegErrors pack_call)
    (control_type : ControlType) (packet_id seqno : Option Nat)
    (hnew : ∀ room packed leftover, pack_call room = .ok (some packed) → ∀ k, seqno = some k →
      TrackedAs acked (.new packed control_type packet_id seqno leftover) k) :
    Carries acked cl (packAndRegister cl pack_call control_type packet_id seqno).2 := by
  obtain ⟨cl₀, h₀, ⟨packed, hpack, h⟩ | ⟨e, -, h⟩⟩ :=
    packAndRegister_cases cl hneg control_type packet_id seqno
  all_goals
    have hbase : Carries acked cl cl₀ := by
      rcases h₀ with rfl | rfl
      · exact of_entries rfl
      · exact clean acked cl
    rw [h]
  · exact hbase.trans (register packed control_type packet_id seqno (hnew _ _ _ hpack))
  · exact hbase.trans (of_entries rfl)

/-- A packet that carries no request. -/
theorem packet {pack_call : Option Nat → PackResult} (hneg : NegErrors pack_call)
    (control_type : ControlType) (packet_id : Option Nat) :
    Carries acked cl (Admlink.packAndRegister cl pack_call control_type packet_id none).2 :=
  packAndRegister hneg control_type packet_id none fun _ _ _ _ _ hk => nomatch hk

theorem pubxxx (control_type : ControlType) (packet_id : Nat) :
    Carries acked cl (mqttPubxxx control_type cl packet_id).2 :=
  packet (negErrors_packPubxxxRequest control_type packet_id) _ _

theorem of_mq (h : cl'.mq = cl.mq) : Carries acked cl cl' :=
  of_entries (by rw [MqttClient.entries, MqttClient.entries, h])

theorem ackPacked (h : AckPacked cl cl') : Carries acked cl cl' := by
  obtain ⟨control_type, packet_id, -, hmq⟩ := h
  exact (pubxxx control_type packet_id).trans (of_mq hmq)

end Carries

/-- The DUP flag does not touch the QoS bits. -/
theorem qosOf_dup (c : UInt8) : qosOf (c ||| 8).toNat = qosOf c.toNat := by
  have hall : ∀ n < 256, qosOf (n ||| 8) = qosOf n := by decide +kernel
  rw [UInt8.toNat_or]
  exact hall c.toNat c.toNat_lt

theorem qosOf_markDup {m : QueuedMessage} (h : qosOf (m.start.headD 0).toNat = 1) :
    qosOf ((markDup m).headD 0).toNat = 1 := by
  unfold markDup
  split
  · rename_i c cs _ hstart
    rw [hstart] at h
    split
    · exact (qosOf_dup c).trans h
    · exact h
  · exact h

/-- Sending leaves a tracked entry waiting for its acknowledgement. -/
theorem TrackedAs.sent {m : QueuedMessage} {k : Nat} {state : QueuedState}
    (h : TrackedAs acked m k) (hs : stateAfterSend m = some state) (now : Nat) :
    TrackedAs acked { m with start := markDup m, state, time_sent := now } k := by
  refine ⟨h.control_type, qosOf_markDup h.qos, fun hdone => ?_⟩
  rw [stateAfterSend, h.control_type, h.qos] at hs
  cases hs
  cases hdone

/-- Sending changes no more of a PUBLISH than its DUP flag. -/
theorem PublishOf.sent {m : QueuedMessage} {topic_name application_message : Bytes}
    (h : PublishOf topic_name application_message m) (state : QueuedState) (now : Nat) :
    PublishOf topic_name application_message
      { m with start := markDup m, state, time_sent := now } := by
  obtain ⟨pid, hdr, hpid, hp⟩ := h
  suffices hmarked : ∃ hdr', PublishPacked topic_name pid application_message publishQos1 hdr'
      (markDup m) by
    obtain ⟨hdr', hp'⟩ := hmarked
    exact ⟨pid, hdr', hpid, hp'⟩
  unfold markDup
  split
  · rename_i c cs _ hstart
    rw [hstart] at hp
    split
    · exact hp.dup
    · exact ⟨hdr, hp⟩
  · exact ⟨hdr, hp⟩

theorem ClientStep.carries (h : ClientStep cl cl') : Carries acked cl cl' := by
  cases h with
  | keep hmq _ => exact .of_mq hmq
  | pack hneg _ => exact .packet hneg _ _
  | sent now hm hs =>
      exact .set hm rfl (fun _ _ htr => htr.sent hs now) fun _ _ hpublish => hpublish.sent _ now

end Client

/-- The packets of the broker, when what the acknowledgement names counts as
acknowledged. -/
theorem afterPacket_carries {acked : Nat → Prop} {cl : Client} (r : Response)
    (hack : ∀ k, ackedSeqno cl r = some k → acked k) : Carries acked cl (afterPacket cl r) := by
  cases packetDone cl r with
  | same h => exact .of_mq h
  | publish _ h => exact .ackPacked h
  | @release control_type packet_id m _ hacks hrelease h =>
      obtain ⟨hfind, -⟩ := release_find hrelease
      obtain ⟨i, hm, hmatch, rfl⟩ := release_eq hrelease
      simp only [mqttMqMatches, Bool.and_eq_true, decide_eq_true_eq] at hmatch
      have hset : Carries acked cl
          (cl.setEntries (cl.entries.set i { m with state := .complete })) := by
        refine .set hm rfl (fun k hk htr => ⟨htr.control_type, htr.qos, fun _ => hack k ?_⟩)
          fun _ _ => id
        -- the entry is a PUBLISH, so the packet is a PUBACK or a PUBREC
        have htype : control_type = .publish := hmatch.1.symm.trans htr.control_type
        subst htype
        rw [ackedSeqno_of_acks hacks, hfind]
        exact hk
      rcases h with h | ⟨-, h⟩
      · exact hset.trans (.of_mq h)
      · exact hset.trans (.ackPacked h)

/-! ## The timers, the queues and the acknowledgements of the daemon -/

/-- A PUBACK on `c` for request `k`. -/
def Event.acks (c : Conn) (k : Nat) : Event → Bool
  | .packet d (.puback _) (some k') => d = c ∧ k' = k
  | _ => false

/-- A PUBREC for a request; the agent asks for no QoS 2. -/
def Event.isPubrec : Event → Bool
  | .packet _ (.pubrec _) (some _) => true
  | _ => false

def Acked (trace : List Event) (c : Conn) (k : Nat) : Prop := ∃ e ∈ trace, e.acks c k = true

instance (trace : List Event) (c : Conn) (k : Nat) : Decidable (Acked trace c k) := by
  unfold Acked; infer_instance

namespace World

theorem pendingPublishes_schedule (w : World) (secs usecs : Nat) (hdl : Handler) (p : SetPublish) :
    p ∈ (w.schedule secs usecs hdl).pendingPublishes ↔
      hdl = .eloopSetPublish p ∨ p ∈ w.pendingPublishes := by
  have hpublish : ∀ x : EloopTimeout Handler, x.setPublish? = some p ↔
      x.handler = .eloopSetPublish p := by
    intro x
    unfold EloopTimeout.setPublish? Handler.setPublish?
    split <;> simp_all
  simp only [pendingPublishes, List.mem_filterMap, hpublish]
  constructor
  · rintro ⟨x, hx, hp⟩
    rcases StableQueue.mem_insert.mp hx with rfl | hx
    · exact .inl hp
    · exact .inr ⟨x, hx, hp⟩
  · rintro (hp | ⟨x, hx, hp⟩)
    · exact ⟨_, StableQueue.mem_insert.mpr (.inl rfl), hp⟩
    · exact ⟨x, StableQueue.mem_insert.mpr (.inr hx), hp⟩

end World

/-- From `w` to `t` every message keeps a holder or is acknowledged. -/
structure Keeps (w t : World) : Prop where
  mem : ∀ e ∈ w.trace, e ∈ t.trace
  pending : ∀ p ∈ w.pendingPublishes, p ∈ t.pendingPublishes
  flags : ∀ p ∈ t.pendingPublishes, p ∈ w.pendingPublishes ∨ p.publish_flags = publishQos1
  requests : ∀ conn topic msg flags k, .request conn topic msg flags k ∈ t.trace →
    .request conn topic msg flags k ∈ w.trace ∨
      mkSetPublish conn topic msg flags k ∈ t.pendingPublishes
  conns : ∀ c acked, (∀ k, Acked t.trace c k → acked k) →
    Carries acked (w.conn c).mqclt (t.conn c).mqclt

namespace Keeps

variable {c : Conn} {w t u : World}

theorem trans (h : Keeps w t) (h' : Keeps t u) : Keeps w u := by
  constructor
  · intro e he
    exact h'.mem e (h.mem e he)
  · intro p hp
    exact h'.pending p (h.pending p hp)
  · intro p hp
    rcases h'.flags p hp with ht | hq
    · exact h.flags p ht
    · exact .inr hq
  · intro conn topic msg flags k hu
    rcases h'.requests conn topic msg flags k hu with ht | hp
    · exact (h.requests conn topic msg flags k ht).imp_right (h'.pending _)
    · exact .inr hp
  · intro c acked hack
    refine (h.conns c acked fun k hk => ?_).trans (h'.conns c acked hack)
    obtain ⟨e, he, hek⟩ := hk
    exact hack k ⟨e, h'.mem e he, hek⟩

/-- Neither a timer nor a request, and the queues as `hconns` says. -/
theorem of_timers (hlogs : World.Logs (·.isRequest = false) w t)
    (htimers : t.eloop.timeout = w.eloop.timeout)
    (hconns : ∀ c acked, (∀ k, Acked t.trace c k → acked k) →
      Carries acked (w.conn c).mqclt (t.conn c).mqclt) : Keeps w t where
  mem e he := hlogs.mem_of_mem he
  pending p hp := by rwa [World.pendingPublishes, htimers]
  flags p hp := by
    rw [World.pendingPublishes, htimers] at hp
    exact .inl hp
  requests conn topic msg flags k ht := .inl ((hlogs.mem_old (by simp [Event.isRequest])).mp ht)
  conns := hconns

theorem of_entries (hlogs : World.Logs (·.isRequest = false) w t)
    (htimers : t.eloop.timeout = w.eloop.timeout)
    (hconns : ∀ c, (t.conn c).mqclt.mq = (w.conn c).mqclt.mq) : Keeps w t :=
  of_timers hlogs htimers fun c _ _ =>
    .of_entries (by rw [MqttClient.entries, MqttClient.entries, hconns c])

theorem refl (w : World) : Keeps w w := of_entries (.of_eq rfl) rfl fun _ => rfl

theorem log (w : World) {e : Event} (he : e.isRequest = false) : Keeps w (w.log e) :=
  of_entries (.log he) rfl fun _ => rfl

theorem tick (w : World) (d : Nat) (env : Env) : Keeps w (w.tick d env) :=
  of_entries (.of_eq rfl) rfl fun _ => rfl

theorem schedule (w : World) (secs usecs : Nat) {hdl : Handler}
    (hhdl : ∀ p, hdl = .eloopSetPublish p → p.publish_flags = publishQos1) :
    Keeps w (w.schedule secs usecs hdl) where
  mem _ he := he
  pending p hp := (w.pendingPublishes_schedule secs usecs hdl p).mpr (.inr hp)
  flags p hp := by
    rcases (w.pendingPublishes_schedule secs usecs hdl p).mp hp with hnew | hold
    · exact .inr (hhdl p hnew)
    · exact .inl hold
  requests _ _ _ _ _ ht := .inl ht
  conns _ _ _ := .of_entries rfl

theorem registered (w : World) (secs usecs : Nat) {hdl : Handler} (d : Nat) (env : Env)
    (hhdl : ∀ p, hdl = .eloopSetPublish p → p.publish_flags = publishQos1) :
    Keeps w (w.registered secs usecs hdl d env) :=
  ((log w rfl).trans (tick _ d env)).trans (schedule _ secs usecs hhdl)

/-- A request gets its timer. -/
theorem request (w : World) (conn : Conn) (topic_name : Field 128) (application_message : Bytes)
    (d : Nat) (env : Env) :
    Keeps w (w.request conn topic_name application_message publishQos1 d env) := by
  have hnew : mkSetPublish conn topic_name application_message publishQos1 w.requests ∈
      (w.request conn topic_name application_message publishQos1 d env).pendingPublishes :=
    (World.pendingPublishes_schedule ..).mpr (.inl rfl)
  have hpend : ∀ p, p ∈ (w.request conn topic_name application_message publishQos1 d
      env).pendingPublishes ↔ _ := fun p => World.pendingPublishes_schedule ..
  constructor
  · intro e he
    exact List.mem_cons_of_mem _ (List.mem_cons_of_mem _ he)
  · intro p hp
    exact (hpend p).mpr (.inr hp)
  · intro p hp
    rcases (hpend p).mp hp with heq | hold
    · rw [Handler.eloopSetPublish.injEq] at heq
      rw [← heq]
      exact .inr rfl
    · exact .inl hold
  · intro conn' topic' msg' flags' k' hmem
    rcases List.mem_cons.mp hmem with heq | hmem
    · cases heq
    · rcases List.mem_cons.mp hmem with heq | hold
      · cases heq
        exact .inr hnew
      · exact .inl hold
  · intro c acked _
    exact .of_entries rfl

theorem setClient {cl : Client}
    (hcl : ∀ acked, (∀ k, Acked w.trace c k → acked k) → Carries acked (w.conn c).mqclt cl) :
    Keeps w (w.setClient c cl) := by
  refine of_timers (.of_eq rfl) rfl fun d acked hack => ?_
  by_cases hd : d = c
  · subst hd
    rw [World.conn_setClient_same]
    exact hcl acked hack
  · rw [World.conn_setClient_other _ hd]
    exact .of_entries rfl

end Keeps

/-! ## Synchronising -/

def NoPubrec (events : List Event) : Prop := ∀ e ∈ events, e.isPubrec = false

instance (events : List Event) : Decidable (NoPubrec events) := by
  unfold NoPubrec; infer_instance

section Steps

variable {c : Conn} {w t u : World}

theorem MsgStep.keeps {upload : Bool} (h : MsgStep upload w t) : Keeps w t := by
  cases h with
  | processRc rcid => exact .log w rfl
  | report topic_name application_message d env => exact .request w _ _ _ _ _
  | event topic_name application_message d env _ _ => exact .request w _ _ _ _ _
  | strftime _ => exact .log w rfl
  | reboot => exact .of_entries (.log rfl) rfl fun _ => rfl

theorem MsgPath.keeps {upload : Bool} (h : MsgPath upload w t) : Keeps w t := by
  induction h with
  | refl => exact .refl w
  | tail _ hs ih => exact ih.trans hs.keeps

/-- A packet that names a request is a PUBACK for it. -/
theorem acked_packet {r : Response} {k : Nat} {cl : Client}
    (hno : (Event.packet c r (ackedSeqno cl r)).isPubrec = false)
    (hk : ackedSeqno cl r = some k) :
    (Event.packet c r (ackedSeqno cl r)).acks c k = true := by
  rw [hk] at hno ⊢
  cases r with
  | puback pid => simp [Event.acks]
  | pubrec pid => cases hno
  | _ => cases hk

theorem SyncStep.keeps (h : SyncStep c w t) (hno : NoPubrec t.trace) : Keeps w t := by
  cases h with
  | env env => exact .of_entries (.of_eq rfl) rfl fun _ => rfl
  | io => exact .log w rfl
  | client hs => exact .setClient fun _ _ => hs.carries
  | packet r =>
      refine (Keeps.log w rfl).trans (.setClient fun acked hack => ?_)
      refine afterPacket_carries r fun k hk => hack k ?_
      exact ⟨_, List.mem_cons_self .., acked_packet (hno _ (List.mem_cons_self ..)) hk⟩
  | @deliver msg _ hr =>
      have hpath := (path_admlinkMsgHandle msg).of_ok hr
      exact (Keeps.log w rfl).trans (MsgPath.keeps hpath)

theorem SyncPath.keeps (h : SyncPath c w t) (hno : NoPubrec t.trace) : Keeps w t := by
  induction h with
  | refl => exact .refl w
  | tail _ hs ih =>
      refine (ih fun e he => hno e ?_).trans (hs.keeps hno)
      exact hs.frame.logs.mem_of_mem he

theorem Closed.keeps (h : Closed c w t) (hno : NoPubrec t.trace) : Keeps w t := by
  cases h with
  | reset _ =>
      refine .of_entries (.of_eq rfl) rfl fun d => ?_
      by_cases hd : d = c
      · rw [hd, World.conn_reset_same]
      · rw [w.conn_reset_other hd]
  | @released b u _ hpath _ =>
      have hu : Keeps w u := SyncPath.keeps hpath fun e he => hno e (List.mem_cons_of_mem _ he)
      refine hu.trans (.of_entries (.log (e := .bioFreeAll b) rfl) rfl fun d => ?_)
      by_cases hd : d = c
      · rw [hd, World.conn_released_same]
      · rw [u.conn_released_other hd]

/-! ## Connecting -/

/-- Nothing in the queue waits for an acknowledgement that names it. -/
def Emptied (cl : Client) : Prop := ∀ m ∈ cl.entries, m.seqno.isSome = true → m.state = .complete

instance (cl : Client) : Decidable (Emptied cl) := by
  unfold Emptied; infer_instance

/-- `mqtt_init` on a queue that holds nothing. -/
theorem keeps_connected (connfd : Nat) (hempty : Emptied (w.conn c).mqclt) :
    Keeps w (w.connected c connfd) := by
  refine .of_timers ⟨[.mqttInit c, .bioNew c (w.conn c).biofd w.bios w.ctxs, .sslCtxNew w.ctxs],
    rfl, by simp [Event.isRequest]⟩ rfl fun d acked _ => ?_
  by_cases hd : d = c
  · subst hd
    obtain ⟨packed, hcl⟩ := client_connected w d connfd
    rw [hcl]
    constructor
    · intro _ m hm k hk
      rw [List.mem_singleton.mp hm] at hk
      cases hk
    · rintro - k topic_name application_message ⟨m, hm, hk, hstate, -⟩
      exact absurd (hempty m hm (by rw [hk]; rfl)) hstate
  · rw [w.conn_connected_other hd]
    exact .of_entries rfl

theorem keeps_refused (w : World) (c : Conn) : Keeps w (w.refused c) := by
  refine .of_entries ⟨[.sslCtxFree w.ctxs, .bioFreeAll w.bios,
    .bioNew c (w.conn c).biofd w.bios w.ctxs, .sslCtxNew w.ctxs], rfl,
    by simp [Event.isRequest]⟩ rfl fun d => ?_
  by_cases hd : d = c
  · rw [hd, World.conn_refused_same]
  · rw [w.conn_refused_other hd]

theorem keeps_up (w : World) (c : Conn) (d : Nat) (env : Env) : Keeps w (w.up c d env) := by
  have hstatus : Keeps w (w.setConn c { w.conn c with status := 1 }) := by
    refine .of_entries (.of_eq rfl) rfl fun e => ?_
    by_cases he : e = c
    · rw [he, World.conn_setConn_same]
    · rw [World.conn_setConn_other _ he]
  exact hstatus.trans (.registered _ 0 mqttSynT d env fun _ h => nomatch h)

/-- Whoever calls `mqtt_init` finds a queue that holds nothing. -/
def InitsEmptied (w : World) (events : List Event) : Prop :=
  ∀ c, .mqttInit c ∈ events → Emptied (w.conn c).mqclt

instance (w : World) (events : List Event) : Decidable (InitsEmptied w events) :=
  decidable_of_iff ((.mqttInit .mqrecv ∈ events → Emptied (w.conn .mqrecv).mqclt) ∧
      (.mqttInit .mqupld ∈ events → Emptied (w.conn .mqupld).mqclt))
    ⟨fun h c => by cases c; exacts [h.1, h.2], fun h => ⟨h _, h _⟩⟩

/-- An event between two traces is among the events added in between. -/
theorem mem_between {old new : List Event} {e : Event} (mid rest : List Event) (he : e ∈ mid)
    (h : new ++ old = rest ++ (mid ++ old)) : e ∈ new := by
  rw [← List.append_assoc] at h
  rw [List.append_cancel_right h]
  exact List.mem_append_right _ he

theorem ConnectEnd.keeps {b : Bool} {new : List Event} (h : ConnectEnd c w b t)
    (ht : t.trace = new ++ w.trace) (hinit : .mqttInit c ∈ new → Emptied (w.conn c).mqclt)
    (hno : NoPubrec t.trace) : Keeps w t := by
  have hopened : ∀ {connfd : Nat} {u : World}, SyncPath c (w.connected c connfd) u →
      (∃ rest, t.trace = rest ++ u.trace) → Keeps w u := by
    rintro connfd u hpath ⟨rest, hrest⟩
    obtain ⟨mid, hmid, -⟩ := (SyncPath.frame hpath).logs
    have hsplit : new ++ w.trace = (rest ++ mid) ++ ([.mqttInit c,
        .bioNew c (w.conn c).biofd w.bios w.ctxs, .sslCtxNew w.ctxs] ++ w.trace) := by
      rw [← ht, hrest, hmid, List.append_assoc]
      rfl
    have hmem : .mqttInit c ∈ new := mem_between _ _ (List.mem_cons_self ..) hsplit
    refine (keeps_connected connfd (hinit hmem)).trans (SyncPath.keeps hpath fun e he => hno e ?_)
    rw [hrest]
    exact List.mem_append_right _ he
  cases h with
  | refused _ => exact keeps_refused w c
  | failed _ hr _ => exact hopened ((path_agSync c).of_ok hr) ⟨[], rfl⟩
  | @up _ u d env _ hpath =>
      exact (hopened hpath ⟨[.registerTimeout (.agHandleClttraffic c)], rfl⟩).trans
        (keeps_up u c d env)

theorem RecvUp.keeps {new : List Event} (h : RecvUp w u) (hu : u.trace = new ++ w.trace)
    (hinit : InitsEmptied w new) (hno : NoPubrec u.trace) : Keeps w u := by
  cases h with
  | already _ => exact .refl w
  | now _ hc => exact hc.keeps hu (hinit .mqrecv) hno

theorem ChecksEnd.keeps {b : Bool} {new : List Event} (h : ChecksEnd w b t)
    (ht : t.trace = new ++ w.trace) (hinit : InitsEmptied w new) (hno : NoPubrec t.trace) :
    Keeps w t := by
  cases h with
  | recv _ hc => exact hc.keeps ht (hinit .mqrecv) hno
  | both hu _ => exact hu.keeps ht hinit hno
  | @upld u _ _ _ hu _ hc =>
      -- what the two attempts add, the receiver's first
      obtain ⟨recv, hrecv, -⟩ := hu.logged.logs
      obtain ⟨upld, hupld, -⟩ := hc.logged.logs
      have hnew : new = upld ++ recv := by
        rw [ht, hrecv, ← List.append_assoc] at hupld
        exact List.append_cancel_right hupld
      have hsame : (u.conn .mqupld).mqclt = (w.conn .mqupld).mqclt := by
        cases hu with
        | already _ => rfl
        | now _ hc => rw [hc.other (by decide)]
      have hkeeps : Keeps w u := by
        refine hu.keeps hrecv (fun c hc => hinit c ?_) fun e he => hno e ?_
        · rw [hnew]
          exact List.mem_append_right _ hc
        · rw [hupld]
          exact List.mem_append_right _ he
      refine hkeeps.trans (hc.keeps hupld (fun hmem => ?_) hno)
      rw [hsame]
      refine hinit .mqupld ?_
      rw [hnew]
      exact List.mem_append_left _ hmem

theorem ChkEnd.keeps {new : List Event} (h : ChkEnd w t) (ht : t.trace = new ++ w.trace)
    (hinit : InitsEmptied w new) (hno : NoPubrec t.trace) : Keeps w t := by
  have hchecks : ∀ {b : Bool} {u : World}, ChecksEnd w b u →
      t.trace = .registerTimeout .chkAgstatm :: u.trace → Keeps w u := by
    intro b u hc htu
    obtain ⟨mid, hmid, -⟩ := hc.logged.logs
    have hnew : new = .registerTimeout .chkAgstatm :: mid := by
      rw [ht, hmid, ← List.cons_append] at htu
      exact List.append_cancel_right htu
    refine hc.keeps hmid (fun c hmem => hinit c ?_) fun e he => hno e ?_
    · rw [hnew]
      exact List.mem_cons_of_mem _ hmem
    · rw [htu]
      exact List.mem_cons_of_mem _ he
  cases h with
  | down d env hc => exact (hchecks hc rfl).trans (.registered _ _ _ d env fun _ h => nomatch h)
  | @good u tm env d env' _ hc =>
      have hdate : Keeps u (u.checked tm env) := .of_entries (.of_eq rfl) rfl fun _ => rfl
      exact ((hchecks hc rfl).trans hdate).trans (.registered _ _ _ d env' fun _ h => nomatch h)

theorem TrafficEnd.keeps (h : TrafficEnd c w t) (hno : NoPubrec t.trace) : Keeps w t := by
  cases h with
  | @again u d env hr =>
      have hu : Keeps w u := SyncPath.keeps ((path_agSync c).of_ok hr) fun e he =>
        hno e (List.mem_cons_of_mem _ he)
      exact hu.trans (.registered _ _ _ d env fun _ h => nomatch h)
  | @closed e u _ hr _ hc =>
      obtain ⟨mid, hmid, -⟩ := hc.logged.logs
      have hu : Keeps w u := SyncPath.keeps ((path_agSync c).of_ok hr) fun e he => by
        refine hno e ?_
        rw [hmid]
        exact List.mem_append_right _ he
      exact hu.trans (hc.keeps hno)

theorem CommandEnd.keeps {hdl : Option CmdHdl} (h : CommandEnd w hdl t) : Keeps w t := by
  cases h with
  | unknown => exact .refl w
  | stop d env => exact .registered w _ _ d env fun _ h => nomatch h
  | sendtest msg d env => exact (Keeps.log w rfl).trans (.request _ _ _ _ _ _)

theorem ControlEnd.keeps {dgram : Option Bytes} (h : ControlEnd w dgram t) : Keeps w t := by
  cases h with
  | silent => exact .refl w
  | gated _ => exact .log w rfl
  | @handled dgram u tm env reply _ _ hc =>
      have hhandling : ∀ buf, Keeps w (w.handling buf tm env) := fun buf =>
        (Keeps.log w (e := .cmdHandle buf) rfl).trans (.of_entries (.of_eq rfl) rfl fun _ => rfl)
      exact ((hhandling _).trans (CommandEnd.keeps hc)).trans (.log u rfl)

end Steps

/-! ## The messages of a run -/

/-- Every requested message is acknowledged, or `pending` or the queue of its
connection holds it. -/
structure Kept (pending : List SetPublish) (w : World) : Prop where
  flags : ∀ p ∈ pending, p.publish_flags = publishQos1
  tracked : ∀ c, Tracked (Acked w.trace c) (w.conn c).mqclt
  owned : ∀ conn topic msg flags k, .request conn topic msg flags k ∈ w.trace →
    Acked w.trace conn k ∨ mkSetPublish conn topic msg flags k ∈ pending ∨
      Holds (w.conn conn).mqclt k topic.str (cstr msg ++ [Ch.nul])

namespace Kept

variable {w t : World} {p : SetPublish}

theorem keeps (hand : List SetPublish) (h : Kept (hand ++ w.pendingPublishes) w)
    (hk : Keeps w t) : Kept (hand ++ t.pendingPublishes) t := by
  have hmem : ∀ p, p ∈ hand ++ w.pendingPublishes → p ∈ hand ++ t.pendingPublishes := by
    intro p hp
    rcases List.mem_append.mp hp with hp | hp
    · exact List.mem_append_left _ hp
    · exact List.mem_append_right _ (hk.pending p hp)
  have hacked : ∀ c k, Acked w.trace c k → Acked t.trace c k := by
    rintro c k ⟨e, he, hek⟩
    exact ⟨e, hk.mem e he, hek⟩
  have htracked : ∀ c, Tracked (Acked t.trace c) (w.conn c).mqclt := by
    intro c m hm k hmk
    have htr := h.tracked c m hm k hmk
    exact ⟨htr.control_type, htr.qos, fun hdone => hacked c k (htr.complete hdone)⟩
  have hcarries : ∀ c, Carries (Acked t.trace c) (w.conn c).mqclt (t.conn c).mqclt :=
    fun c => hk.conns c _ fun _ h => h
  constructor
  · intro p hp
    rcases List.mem_append.mp hp with hp | hp
    · exact h.flags p (List.mem_append_left _ hp)
    · rcases hk.flags p hp with hold | hq
      · exact h.flags p (List.mem_append_right _ hold)
      · exact hq
  · intro c
    exact (hcarries c).tracked (htracked c)
  · intro conn topic msg flags k ht
    rcases hk.requests conn topic msg flags k ht with hw | hp
    · rcases h.owned conn topic msg flags k hw with hack | hp | hq
      · exact .inl (hacked conn k hack)
      · exact .inr (.inl (hmem _ hp))
      · exact ((hcarries conn).holds (htracked conn) k _ _ hq).imp_right .inr
    · exact .inr (.inl (List.mem_append_right _ hp))

/-- The entry of a publish at QoS 1. -/
theorem trackedAs_packed {acked : Nat → Prop} {topic msg packed : Bytes} {pid : Nat}
    {room seqno : Option Nat} {k : Nat}
    (h : mqttPackPublishRequest room topic pid msg publishQos1 = .ok (some packed)) :
    TrackedAs acked (.new packed .publish (some pid) seqno leftover) k := by
  refine ⟨rfl, ?_, fun hdone => nomatch hdone⟩
  unfold mqttPackPublishRequest at h
  split at h
  · cases h
  · simp only [show qosOf publishQos1 = 1 from rfl] at h
    rw [packWith_some h, fixedHeaderBytes, List.cons_append]
    have hfirst :
        qosOf (UInt8.ofNat (ControlType.publish.code * 16 + publishQos1 % 16 % 16)).toNat = 1 := by
      decide
    exact hfirst

/-- A publish that leaves no error is in the queue afterwards. -/
theorem callPublish_holds {r : MqttErrors × Client} (hr : w.callPublish p = .ok r)
    (herror : r.2.error = .ok) (hflags : p.publish_flags = publishQos1) :
    Holds r.2 p.seqno p.topic_name.str p.application_message := by
  obtain ⟨hmq, pid, rfl⟩ := mqttPublish_ok hr
  obtain ⟨cl₀, h₀, ⟨packed, hpack, heq⟩ | ⟨e, hneg, heq⟩⟩ := packAndRegister_cases
    { (w.conn p.conn).mqclt with pid_lfsr := pid }
    (negErrors_packPublishRequest p.topic_name.str pid p.application_message p.publish_flags)
    .publish (some pid) (some p.seqno)
  · have hmq₀ : cl₀.mq.isSome = true := by
      rcases h₀ with rfl | rfl
      · exact hmq
      · rw [MqttClient.clean, Option.isSome_map]
        exact hmq
    rw [hflags] at hpack
    obtain ⟨h, hp⟩ := packPublish_packed hpack
    rw [heq, Holds, MqttClient.entries_register hmq₀]
    exact ⟨_, List.mem_append_right _ (List.mem_singleton_self _), rfl, by simp, pid, h, rfl, hp⟩
  · rw [heq] at herror
    rw [show e = .ok from herror] at hneg
    cases hneg

theorem callPublish_carries {acked : Nat → Prop} {r : MqttErrors × Client}
    (hr : w.callPublish p = .ok r) (hflags : p.publish_flags = publishQos1) :
    Carries acked (w.conn p.conn).mqclt r.2 := by
  obtain ⟨-, pid, rfl⟩ := mqttPublish_ok hr
  have hpid : Carries acked (w.conn p.conn).mqclt { (w.conn p.conn).mqclt with pid_lfsr := pid } :=
    .of_entries rfl
  refine hpid.trans (.packAndRegister (negErrors_packPublishRequest _ _ _ _) _ _ _ ?_)
  intro room packed leftover hpack k _
  rw [hflags] at hpack
  exact trackedAs_packed hpack

/-- A publish that is accepted passes from its timer to the queue. -/
theorem publishEnd (h : Kept (p :: w.pendingPublishes) w)
    (hacc : Accepts (w.conn p.conn).mqclt p) (he : PublishEnd p w t) :
    Kept t.pendingPublishes t := by
  cases he with
  | closed hr hne _ => exact absurd (error_of_accepts hacc hr) hne
  | @queued r hr herror =>
      have hlog : Keeps w (w.publishing p) := .log w rfl
      have hset : Keeps (w.publishing p) ((w.publishing p).setClient p.conn r.2) :=
        .setClient fun acked _ => callPublish_carries hr (h.flags p (List.mem_cons_self ..))
      have ht := Kept.keeps [p] h (hlog.trans hset)
      constructor
      · intro q hq
        exact ht.flags q (List.mem_cons_of_mem _ hq)
      · exact ht.tracked
      · intro conn topic msg flags k hmem
        rcases ht.owned conn topic msg flags k hmem with hack | hp | hq
        · exact .inl hack
        · rcases List.mem_cons.mp hp with heq | hp
          · refine .inr (.inr ?_)
            have hholds := callPublish_holds hr herror (h.flags p (List.mem_cons_self ..))
            have hconn : p.conn = conn := by rw [← heq]; rfl
            rw [← hconn, World.conn_setClient_same]
            rw [← heq] at hholds
            exact hholds
          · exact .inr (.inl hp)
        · exact .inr (.inr hq)

theorem handlerEnd {x : EloopTimeout Handler} {new : List Event}
    (h : Kept ((x :: w.eloop.timeout).filterMap EloopTimeout.setPublish?) w)
    (hacc : ∀ p, x.handler = .eloopSetPublish p → Accepts (w.conn p.conn).mqclt p)
    (ht : t.trace = new ++ w.trace) (hinit : InitsEmptied w new) (hno : NoPubrec t.trace)
    (he : HandlerEnd x.handler w t) : Kept t.pendingPublishes t := by
  rw [List.filterMap_cons, EloopTimeout.setPublish?] at h
  cases hh : x.handler with
  | chkAgstatm =>
      rw [hh] at h he
      exact Kept.keeps [] h (ChkEnd.keeps he ht hinit hno)
  | agHandleClttraffic c =>
      rw [hh] at h he
      exact Kept.keeps [] h (TrafficEnd.keeps he hno)
  | eloopSetPublish p =>
      rw [hh] at h he
      exact publishEnd h (hacc p hh) he
  | eloopSetExit =>
      rw [hh] at he
      exact he.elim

end Kept

/-! ## Results -/

/-- `mqtt_publish` accepts what `d` publishes, `mqtt_init` finds a queue that
holds nothing, and no PUBREC completes an entry. -/
structure Retains (w : World) (d : Dispatch) : Prop where
  accepted : ∀ p, dueHandler w d = some (.eloopSetPublish p) → Accepts (w.conn p.conn).mqclt p
  inits : InitsEmptied w (newEvents w d)
  noPubrec : NoPubrec (newEvents w d)

instance (w : World) (d : Dispatch) : Decidable (Retains w d) :=
  decidable_of_iff ((∀ p, dueHandler w d = some (.eloopSetPublish p) →
      Accepts (w.conn p.conn).mqclt p) ∧ InitsEmptied w (newEvents w d) ∧
      NoPubrec (newEvents w d))
    ⟨fun h => ⟨h.1, h.2.1, h.2.2⟩, fun h => ⟨h.1, h.2, h.3⟩⟩

theorem Kept.dispatchEnd {w t : World} {d : Dispatch} (h : Kept w.pendingPublishes w)
    (hc : Retains w d) (he : DispatchEnd w d t) (ht : t.trace = newEvents w d ++ w.trace)
    (hno : NoPubrec t.trace) : Kept t.pendingPublishes t := by
  have htick : ∀ n env, Kept (w.tick n env).pendingPublishes (w.tick n env) := fun n env =>
    Kept.keeps [] h (.tick w n env)
  cases he with
  | idle n env => exact htick n env
  | @fired env n ns x rest _ hclocks hlist hdue he =>
      have hpop : Kept ((x :: rest).filterMap EloopTimeout.setPublish?)
          (w.popped n { env with clocks := ns } rest) := by
        rw [← hlist]
        exact ⟨h.flags, h.tracked, h.owned⟩
      refine handlerEnd (w := w.popped n { env with clocks := ns } rest) hpop (fun p hp => ?_) ht
        hc.inits hno he
      exact hc.accepted p (hp ▸ dueHandler_eq hclocks hlist hdue)
  | noReader => exact htick 0 _
  | @reader env _ _ _ hcontrol =>
      exact Kept.keeps [] (htick 0 env) (ControlEnd.keeps hcontrol)

theorem Kept.start {w : World} (h : IsStart w) : Kept w.pendingPublishes w := by
  obtain ⟨arg, agent, sock, clock, env, hcfg, rfl⟩ := h
  constructor
  · intro p hp
    cases hp
  · intro c m hm
    obtain ⟨leftovers, hclient⟩ := (hcfg.zeroed.2.2 c).2.2
    rw [World.conn, started, hclient] at hm
    cases hm
  · intro conn topic msg flags k hmem
    cases List.mem_singleton.mp hmem

theorem kept_between {w : World} (h : Between Retains w) :
    Kept w.pendingPublishes w ∧ NoPubrec w.trace := by
  refine Reaches.invariant (I := fun w => Kept w.pendingPublishes w ∧ NoPubrec w.trace)
    (fun w hw => ⟨Kept.start hw, ?_⟩) (fun d s t ⟨hs, hold⟩ hc hr => ?_) h
  · obtain ⟨arg, agent, sock, clock, env, -, rfl⟩ := hw
    intro e he
    rw [List.mem_singleton.mp he]
    rfl
  · have he := dispatch_ends d s
    have ht := dispatch_trace d s
    rw [hr] at he ht
    have hno : NoPubrec t.trace := by
      intro e hmem
      rw [show t.trace = _ from ht] at hmem
      rcases List.mem_append.mp hmem with hnew | hpast
      · exact hc.noPubrec e hnew
      · exact hold e hpast
    exact ⟨hs.dispatchEnd hc he ht hno, hno⟩

/-- Until a PUBACK for it arrives, a message requested at QoS 1 waits in a
timer or, with its topic and its bytes, in the send queue of its connection. -/
def NoMessageLost (w : World) : Prop :=
  ∀ conn topic msg flags k, .request conn topic msg flags k ∈ w.trace → qosOf flags = 1 →
    Acked w.trace conn k ∨ mkSetPublish conn topic msg flags k ∈ w.pendingPublishes ∨
      Holds (w.conn conn).mqclt k topic.str (cstr msg ++ [Ch.nul])

theorem none_lost (w : World) (h : Between Retains w) : NoMessageLost w :=
  fun conn topic msg flags k hmem _ => (kept_between h).1.owned conn topic msg flags k hmem

theorem none_lost_oneMessage : NoMessageLost (runs oneMessage) :=
  none_lost _ (runs_between oneMessage (by decide +kernel))

/-- Asks for a message at QoS 1 that is nowhere any more. -/
def Event.isLost (w : World) : Event → Bool
  | .request conn topic msg flags k => qosOf flags = 1 ∧
      ¬ (Acked w.trace conn k ∨ mkSetPublish conn topic msg flags k ∈ w.pendingPublishes ∨
        Waits (w.conn conn).mqclt k)
  | _ => false

/-- The thirteenth message for a queue of twelve. -/
theorem lost_when_full : ¬ ∀ w, Between Always w → NoMessageLost w := by
  intro h
  have hlost : (runs fullQueue).trace.any (Event.isLost (runs fullQueue)) = true := by
    decide +kernel
  obtain ⟨e, hmem, he⟩ := List.any_eq_true.mp hlost
  cases e with
  | request conn topic msg flags k =>
      obtain ⟨hqos, hnone⟩ := of_decide_eq_true he
      have hbetween : Between Always (runs fullQueue) := runs_between fullQueue (by decide +kernel)
      have hkept := h _ hbetween conn topic msg flags k hmem hqos
      exact hnone (hkept.imp_right (Or.imp_right Holds.waits))
  | _ => cases he

end Admlink
