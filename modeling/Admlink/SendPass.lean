import Mathlib.Data.List.Flatten
import Admlink.Closing

/-!
# A synchronisation in which nothing fails

Nothing arrives, and every `BIO_write` takes what it is given. Then one pass of
`mqtt_sync` writes every unsent PUBLISH but a QoS 2 one behind another that is
unfinished. The trace has what each `BIO_write` takes, so what is said about
sending is said about the bytes on the socket.
-/

namespace Admlink

open Program Runs

/-! ## Unsent messages -/

def QueuedMessage.isUnsentPublish (m : QueuedMessage) : Bool :=
  m.control_type = .publish && m.state = .unsent

/-- A PUBLISH that `mqtt_publish` has queued is unsent. -/
def HasUnsent {fd : Type} (cl : MqttClient fd) : Prop :=
  cl.entries.any QueuedMessage.isUnsentPublish = true

instance {fd : Type} (cl : MqttClient fd) : Decidable (HasUnsent cl) := by
  unfold HasUnsent; infer_instance

/-- `__mqtt_send` knows the state to put every queued message in. -/
def Sendable {fd : Type} (cl : MqttClient fd) : Prop :=
  ∀ m ∈ cl.entries, (stateAfterSend m).isSome = true

instance {fd : Type} (cl : MqttClient fd) : Decidable (Sendable cl) := by
  unfold Sendable; infer_instance

/-- The unsent PUBLISHes, oldest first. -/
def unsentPublishes (entries : List QueuedMessage) : List QueuedMessage :=
  entries.filter QueuedMessage.isUnsentPublish

theorem hasUnsent_iff {fd : Type} {cl : MqttClient fd} :
    HasUnsent cl ↔ unsentPublishes cl.entries ≠ [] := by
  rw [HasUnsent, List.any_eq_true, unsentPublishes, ne_eq, List.filter_eq_nil_iff]
  simp

/-- An unsent PUBLISH that the send loop passes over: QoS 2, behind an
unfinished one; `inflight_qos2` says that there is one before the list. -/
def heldBack (inflight_qos2 : Bool) : List QueuedMessage → Bool
  | [] => false
  | m :: ms => (inflight_qos2 && isInflightQos2 m && m.isUnsentPublish) ||
      heldBack (inflight_qos2 || isInflightQos2 m) ms

theorem heldBack_complete {m : QueuedMessage} (h : m.state = .complete) (q : Bool)
    (ms : List QueuedMessage) : heldBack q (m :: ms) = heldBack q ms := by
  simp [heldBack, isInflightQos2, h]

theorem heldBack_dropWhile (q : Bool) : ∀ ms : List QueuedMessage,
    heldBack q (ms.dropWhile (·.state = .complete)) = heldBack q ms := by
  intro ms
  induction ms with
  | nil => rfl
  | cons m ms ih =>
      by_cases h : m.state = .complete
      · rw [List.dropWhile_cons_of_pos (by simpa using h), ih, heldBack_complete h]
      · rw [List.dropWhile_cons_of_neg (by simpa using h)]

/-- Behind the others a packet that is no PUBLISH changes nothing. -/
theorem heldBack_append {m : QueuedMessage} (h : m.control_type ≠ .publish) :
    ∀ (ms : List QueuedMessage) (q : Bool), heldBack q (ms ++ [m]) = heldBack q ms := by
  intro ms
  induction ms with
  | nil =>
      intro q
      simp [heldBack, isInflightQos2, h]
  | cons m' ms ih =>
      intro q
      rw [List.cons_append, heldBack, heldBack, ih]

theorem heldBack_unsent {q : Bool} {ms : List QueuedMessage} (h : heldBack q ms = true) :
    ms.any QueuedMessage.isUnsentPublish = true := by
  induction ms generalizing q with
  | nil => cases h
  | cons m ms ih =>
      rw [heldBack, Bool.or_eq_true] at h
      rw [List.any_cons, Bool.or_eq_true]
      rcases h with hhere | hrest
      · exact .inl (Bool.and_eq_true_iff.mp hhere).2
      · exact .inr (ih hrest)

theorem unsentPublishes_dropWhile (ms : List QueuedMessage) :
    unsentPublishes (ms.dropWhile (·.state = .complete)) = unsentPublishes ms := by
  induction ms with
  | nil => rfl
  | cons m ms ih =>
      by_cases h : m.state = .complete
      · rw [List.dropWhile_cons_of_pos (by simpa using h), ih]
        simp [unsentPublishes, QueuedMessage.isUnsentPublish, h]
      · rw [List.dropWhile_cons_of_neg (by simpa using h)]

/-! ## Packing a packet that is no PUBLISH -/

section Pack

variable {fd : Type} {cl : MqttClient fd}

/-- The unsent messages of two queues are the same. -/
structure SameUnsent (cl cl' : MqttClient fd) : Prop where
  unsent : unsentPublishes cl'.entries = unsentPublishes cl.entries
  heldBack : heldBack false cl'.entries = heldBack false cl.entries
  sendable : Sendable cl → Sendable cl'

namespace SameUnsent

variable {cl' cl'' : MqttClient fd}

theorem of_entries (h : cl'.entries = cl.entries) : SameUnsent cl cl' := by
  constructor
  · rw [h]
  · rw [h]
  · intro hall
    rwa [Sendable, h]

theorem trans (h : SameUnsent cl cl') (h' : SameUnsent cl' cl'') : SameUnsent cl cl'' :=
  ⟨h'.unsent.trans h.unsent, h'.heldBack.trans h.heldBack,
    fun hall => h'.sendable (h.sendable hall)⟩

theorem hasUnsent (h : SameUnsent cl cl') : HasUnsent cl' ↔ HasUnsent cl := by
  rw [hasUnsent_iff, hasUnsent_iff, h.unsent]

theorem clean (cl : MqttClient fd) : SameUnsent cl cl.clean := by
  constructor
  · rw [MqttClient.entries_clean, unsentPublishes_dropWhile]
  · rw [MqttClient.entries_clean, heldBack_dropWhile]
  · intro hall m hm
    rw [MqttClient.entries_clean] at hm
    exact hall m ((List.dropWhile_sublist _).subset hm)

theorem register (hmq : cl.mq.isSome = true) (packed : Bytes) {control_type : ControlType}
    (packet_id seqno : Option Nat) (hpub : control_type ≠ .publish)
    (hsend :
      (stateAfterSend (.new packed control_type packet_id seqno cl.leftover)).isSome = true) :
    SameUnsent cl (cl.register packed control_type packet_id seqno) := by
  have hentries := MqttClient.entries_register hmq packed control_type packet_id seqno
  constructor
  · rw [hentries]
    simp [unsentPublishes, QueuedMessage.isUnsentPublish, hpub]
  · rw [hentries]
    exact heldBack_append hpub _ _
  · intro hall m hm
    rw [hentries] at hm
    rcases List.mem_append.mp hm with hold | hlast
    · exact hall m hold
    · rw [List.mem_singleton.mp hlast]
      exact hsend

/-- `mqtt_disconnect` and `__mqtt_ping`, whether they fit or not. -/
theorem packAndRegister {pack_call : Option Nat → PackResult} (hneg : NegErrors pack_call)
    (hmq : cl.mq.isSome = true) {control_type : ControlType}
    (hpub : control_type ≠ .publish)
    (hsend : ∀ packed, (stateAfterSend (.new packed control_type none none cl.leftover)).isSome =
      true) :
    SameUnsent cl (packAndRegister cl pack_call control_type none none).2 := by
  obtain ⟨cl₀, h₀, ⟨packed, -, h⟩ | ⟨e, -, h⟩⟩ :=
    packAndRegister_cases cl hneg control_type none none
  all_goals
    have hbase : SameUnsent cl cl₀ ∧ cl₀.mq.isSome = true := by
      rcases h₀ with rfl | rfl
      · exact ⟨of_entries rfl, hmq⟩
      · exact ⟨clean cl, by rwa [MqttClient.clean, Option.isSome_map]⟩
    rw [h]
  · exact hbase.1.trans (register hbase.2 packed none none hpub (hsend packed))
  · exact hbase.1.trans (of_entries rfl)

end SameUnsent

end Pack

/-! ## Reading and writing without failures -/

/-- What an event puts on the socket of `c`. -/
def Event.writes (c : Conn) : Event → Bytes
  | .bioIo d _ _ written => if d = c then written else []
  | _ => []

/-- All that has been written to the socket of `c`. -/
def writtenTo (c : Conn) (trace : List Event) : Bytes := trace.reverse.flatMap (Event.writes c)

theorem writtenTo_cons (c : Conn) (e : Event) (trace : List Event) :
    writtenTo c (e :: trace) = writtenTo c trace ++ e.writes c := by
  simp [writtenTo]

/-- `out` is written and answers are used up; the queue, the error and what has
been received stay. -/
structure Calm (c : Conn) (out : Bytes) (w t : World) : Prop where
  written : writtenTo c t.trace = writtenTo c w.trace ++ out
  mq : (t.conn c).mqclt.mq = (w.conn c).mqclt.mq
  error : (t.conn c).mqclt.error = (w.conn c).mqclt.error
  received : (t.conn c).mqclt.recv_buffer = (w.conn c).mqclt.recv_buffer
  offset : (w.conn c).mqclt.send_offset = 0 → (t.conn c).mqclt.send_offset = 0
  reads : ∀ r ∈ t.env.reads, r ∈ w.env.reads
  writes : ∀ r ∈ t.env.writes, r ∈ w.env.writes

namespace Calm

variable {c : Conn} {out out' : Bytes} {w t u : World}

/-- No client and no event, only answers. -/
theorem of_client (h : t.trace = w.trace) (hclient : (t.conn c).mqclt = (w.conn c).mqclt)
    (hreads : ∀ r ∈ t.env.reads, r ∈ w.env.reads)
    (hwrites : ∀ r ∈ t.env.writes, r ∈ w.env.writes) : Calm c [] w t := by
  refine ⟨by rw [h, List.append_nil], ?_, ?_, ?_, ?_, hreads, hwrites⟩
  all_goals rw [hclient]
  exact id

theorem refl (c : Conn) (w : World) : Calm c [] w w :=
  of_client rfl rfl (fun _ h => h) fun _ h => h

theorem trans (h : Calm c out w t) (h' : Calm c out' t u) : Calm c (out ++ out') w u :=
  ⟨by rw [h'.written, h.written, List.append_assoc], h'.mq.trans h.mq, h'.error.trans h.error,
    h'.received.trans h.received, fun hw => h'.offset (h.offset hw),
    fun r hr => h.reads r (h'.reads r hr), fun r hr => h.writes r (h'.writes r hr)⟩

/-- Nothing more is written. -/
theorem still (h : Calm c out w t) (h' : Calm c [] t u) : Calm c out w u := by
  have hall := h.trans h'
  rwa [List.append_nil] at hall

theorem entries (h : Calm c out w t) :
    (t.conn c).mqclt.entries = (w.conn c).mqclt.entries := by
  rw [MqttClient.entries, MqttClient.entries, h.mq]

theorem modifyClient (w : World) (f : Client → Client) (hmq : ∀ cl, (f cl).mq = cl.mq)
    (herror : ∀ cl, (f cl).error = cl.error)
    (hreceived : ∀ cl, (f cl).recv_buffer = cl.recv_buffer)
    (hoffset : ∀ cl, cl.send_offset = 0 → (f cl).send_offset = 0) :
    Calm c [] w (w.setClient c (f (w.conn c).mqclt)) := by
  constructor
  · exact (List.append_nil _).symm
  · simp [hmq]
  · simp [herror]
  · simp [hreceived]
  · simpa using hoffset _
  · exact fun _ h => h
  · exact fun _ h => h

theorem mqttPalTime {now : Nat} (h : mqttPalTime w = .ok now t) : Calm c [] w t := by
  unfold Admlink.mqttPalTime at h
  obtain ⟨_, _, hget, h⟩ := bind_ok h
  cases hget
  cases htimes : w.env.times with
  | nil =>
      rw [htimes] at h
      cases h
  | cons now' rest =>
      rw [htimes] at h
      cases h
      exact of_client rfl rfl (fun _ h => h) fun _ h => h

/-- An access is logged, with what it writes. -/
theorem bioAccess_ok (h : bioAccess c out w = .ok () t) :
    t = w.log (.bioIo c (w.conn c).mqclt.socketfd (w.conn c).biofd out) := by
  unfold Admlink.bioAccess at h
  rw [bind_apply] at h
  simp only [get_apply, bind_apply, emit, modify_apply] at h
  cases hfd : (w.conn c).mqclt.socketfd with
  | none =>
      rw [hfd] at h
      cases h
  | some b =>
      rw [hfd] at h
      by_cases hb : w.freed b = true
      · simp only [hb, ↓reduceIte] at h
        cases h
      · simp only [hb] at h
        cases h
        rfl

theorem bioAccess (h : bioAccess c out w = .ok () t) : Calm c out w t := by
  rw [bioAccess_ok h]
  refine ⟨?_, rfl, rfl, rfl, id, fun _ h => h, fun _ h => h⟩
  rw [World.log, writtenTo_cons, Event.writes, if_pos rfl]

theorem bioReadAnswer {r : BioRead} (h : bioReadAnswer w = .ok r t) :
    r ∈ w.env.reads ∧ Calm c [] w t := by
  unfold Admlink.bioReadAnswer at h
  obtain ⟨_, _, hget, h⟩ := bind_ok h
  cases hget
  cases hreads : w.env.reads with
  | nil =>
      rw [hreads] at h
      cases h
  | cons r' rest =>
      rw [hreads] at h
      cases h
      refine ⟨List.mem_cons_self .., of_client rfl rfl (fun r hr => ?_) fun _ h => h⟩
      rw [hreads]
      exact List.mem_cons_of_mem _ hr

theorem bioWriteAnswer {r : BioWrite} (h : bioWriteAnswer w = .ok r t) :
    w.env.writes = r :: t.env.writes ∧ Calm c [] w t := by
  unfold Admlink.bioWriteAnswer at h
  obtain ⟨_, _, hget, h⟩ := bind_ok h
  cases hget
  cases hwrites : w.env.writes with
  | nil =>
      rw [hwrites] at h
      cases h
  | cons r' rest =>
      rw [hwrites] at h
      cases h
      refine ⟨rfl, of_client rfl rfl (fun _ h => h) fun r hr => ?_⟩
      rw [hwrites]
      exact List.mem_cons_of_mem _ hr

/-- Where no write fails all bytes are written. -/
theorem sendall : ∀ (fuel : Nat) (buf : Bytes) {w t : World} {sent : Bool},
    .failed ∉ w.env.writes → mqttPalSendallLoop c fuel buf w = .ok sent t →
    sent = true ∧ Calm c buf w t := by
  intro fuel
  induction fuel with
  | zero =>
      intro buf w t sent _ h
      cases h
  | succ fuel ih =>
      intro buf w t sent hwrites h
      unfold mqttPalSendallLoop at h
      by_cases hbuf : buf = []
      · rw [if_pos hbuf] at h
        cases h
        rw [hbuf]
        exact ⟨rfl, refl c w⟩
      · rw [if_neg hbuf] at h
        obtain ⟨_, _, hget, h⟩ := bind_ok h
        cases hget
        obtain ⟨_, u, hio, h⟩ := bind_ok h
        obtain ⟨answer, v, hanswer, h⟩ := bind_ok h
        have hu := bioAccess hio
        obtain ⟨hnext, hv⟩ := bioWriteAnswer (c := c) hanswer
        -- the answer that `bioTakes` has looked at
        have hsame : w.env.writes = answer :: v.env.writes := by
          rw [bioAccess_ok hio] at hnext
          exact hnext
        have hleft : .failed ∉ v.env.writes := by
          intro hf
          rw [hsame] at hwrites
          exact hwrites (List.mem_cons_of_mem _ hf)
        rw [hsame] at hu
        cases answer with
        | sent n =>
            simp only at h
            split at h
            · cases h
            · obtain ⟨hsent, ht⟩ := ih _ hleft h
              have hall := (hu.still hv).trans ht
              rw [bioTakes, List.take_append_drop] at hall
              exact ⟨hsent, hall⟩
        | retry =>
            obtain ⟨hsent, ht⟩ := ih _ hleft h
            exact ⟨hsent, (hu.still hv).trans ht⟩
        | failed =>
            rw [hsame] at hwrites
            exact absurd (List.mem_cons_self ..) hwrites

/-- What `BIO_read` answers while the broker is silent. -/
def silentReads (reads : List BioRead) : Prop := ∀ r ∈ reads, r = .wantRead ∨ r = .wantOther

instance (reads : List BioRead) : Decidable (silentReads reads) := by
  unfold silentReads; infer_instance

theorem recvall : ∀ (fuel bufsz : Nat) {w t : World} {r : Option Bytes},
    silentReads w.env.reads → mqttPalRecvallLoop c fuel bufsz [] w = .ok r t →
    r = some [] ∧ Calm c [] w t := by
  intro fuel
  induction fuel with
  | zero =>
      intro bufsz w t r _ h
      cases h
  | succ fuel ih =>
      intro bufsz w t r hreads h
      unfold mqttPalRecvallLoop at h
      obtain ⟨_, u, hio, h⟩ := bind_ok h
      obtain ⟨answer, v, hanswer, h⟩ := bind_ok h
      have hu := bioAccess hio
      obtain ⟨hmem, hv⟩ := bioReadAnswer (c := c) hanswer
      have hleft : silentReads v.env.reads := fun r hr => hreads r (hu.reads r (hv.reads r hr))
      rcases hreads answer (hu.reads _ hmem) with rfl | rfl
      · cases h
        exact ⟨rfl, hu.still hv⟩
      · obtain ⟨hr, ht⟩ := ih _ hleft h
        exact ⟨hr, (hu.still hv).still ht⟩

end Calm

/-! ## Receiving nothing -/

/-- What has been received is no whole packet, and there is room for more. -/
def NothingReceived (cl : Client) : Prop :=
  mqttUnpackResponse cl.recv_buffer.mem cl.recv_buffer.received.length = .ok none ∧
    cl.recv_buffer.free.length ≠ 0

instance (cl : Client) : Decidable (NothingReceived cl) := by
  unfold NothingReceived; infer_instance

theorem calm_mqttRecv {cb : PublishCallback} {c : Conn} {w t : World} {e : MqttErrors}
    (hreads : Calm.silentReads w.env.reads) (hbuf : NothingReceived (w.conn c).mqclt)
    (h : mqttRecv cb c w = .ok e t) : e = .ok ∧ Calm c [] w t := by
  obtain ⟨_, _, hget, h⟩ := bind_ok h
  cases hget
  unfold mqttRecvLoop at h
  obtain ⟨r, u, hstep, h⟩ := bind_ok h
  have hdone : r = some .ok ∧ Calm c [] w u := by
    unfold mqttRecvStep at hstep
    obtain ⟨_, _, hget, hstep⟩ := bind_ok hstep
    cases hget
    obtain ⟨new, v, hrecv, hstep⟩ := bind_ok hstep
    obtain ⟨_, _, hget, hrecv⟩ := bind_ok hrecv
    cases hget
    obtain ⟨rfl, hv⟩ := Calm.recvall _ _ hreads hrecv
    have hstore : (w.conn c).mqclt.recv_buffer.store [] = (w.conn c).mqclt.recv_buffer := by
      simp [RecvBuffer.store]
    simp only [hstore] at hstep
    obtain ⟨_, u', hset, hstep⟩ := bind_ok hstep
    cases hset
    rw [hbuf.1] at hstep
    simp only [if_neg hbuf.2] at hstep
    cases hstep
    refine ⟨rfl, hv.still ?_⟩
    constructor
    · exact (List.append_nil _).symm
    · simp
    · simp
    · simp [hv.received]
    · simp
    · exact fun _ h => h
    · exact fun _ h => h
  obtain ⟨rfl, hu⟩ := hdone
  cases h
  exact ⟨rfl, hu⟩

/-! ## One pass of the send loop -/

theorem MqttClient.entries_setEntries {fd : Type} {cl : MqttClient fd}
    (hmq : cl.mq.isSome = true) (es : List QueuedMessage) : (cl.setEntries es).entries = es := by
  obtain ⟨mq, hmq⟩ := Option.isSome_iff_exists.mp hmq
  rw [MqttClient.entries, MqttClient.setEntries, hmq]
  rfl

/-- What the pass does to the messages from one place on, and the packets it
sends. -/
inductive Passed : Bool → List QueuedMessage → List QueuedMessage → List Bytes → Prop
  | nil {q : Bool} : Passed q [] [] []
  | skip {q : Bool} {m : QueuedMessage} {ms ms' : List QueuedMessage} {sent : List Bytes} :
      (m.state = .unsent → q = true ∧ isInflightQos2 m = true) →
      Passed (q || isInflightQos2 m) ms ms' sent → Passed q (m :: ms) (m :: ms') sent
  | send {q : Bool} {m m' : QueuedMessage} {ms ms' : List QueuedMessage} {sent : List Bytes} :
      m'.state ≠ .unsent → ¬ (q = true ∧ isInflightQos2 m = true) →
      Passed (q || isInflightQos2 m) ms ms' sent →
      Passed q (m :: ms) (m' :: ms') (m.start :: sent)

/-- The unsent messages after the pass are those it holds back. -/
theorem Passed.unsent_iff {q : Bool} {ms ms' : List QueuedMessage} {sent : List Bytes}
    (h : Passed q ms ms' sent) : ms'.any QueuedMessage.isUnsentPublish = heldBack q ms := by
  induction h with
  | nil => rfl
  | @skip q m ms ms' sent hskip _ ih =>
      rw [List.any_cons, heldBack, ih]
      by_cases hunsent : m.state = .unsent
      · obtain ⟨rfl, hqos⟩ := hskip hunsent
        simp [hqos]
      · have hno : m.isUnsentPublish = false := by simp [QueuedMessage.isUnsentPublish, hunsent]
        simp [hno]
  | @send q m m' ms ms' sent hsent hfree _ ih =>
      rw [List.any_cons, heldBack, ih]
      have hno : m'.isUnsentPublish = false := by simp [QueuedMessage.isUnsentPublish, hsent]
      have hpass : (q && isInflightQos2 m) = false := by
        rw [Bool.eq_false_iff]
        intro hand
        exact hfree (Bool.and_eq_true_iff.mp hand)
      rw [hno, hpass]
      rfl

/-- Where none is held back every unsent PUBLISH is among the packets. -/
theorem Passed.sent_all {q : Bool} {ms ms' : List QueuedMessage} {sent : List Bytes}
    (h : Passed q ms ms' sent) (hfree : heldBack q ms = false) :
    List.Sublist ((unsentPublishes ms).map (·.start)) sent := by
  induction h with
  | nil => exact List.Sublist.refl _
  | @skip q m ms ms' sent hskip _ ih =>
      rw [heldBack, Bool.or_eq_false_iff] at hfree
      have hno : ¬ m.isUnsentPublish = true := by
        intro hunsent
        obtain ⟨rfl, hqos⟩ := hskip (of_decide_eq_true (Bool.and_eq_true_iff.mp hunsent).2)
        simp [hqos, hunsent] at hfree
      rw [unsentPublishes, List.filter_cons_of_neg hno]
      exact ih hfree.2
  | @send q m m' ms ms' sent _ _ _ ih =>
      rw [heldBack, Bool.or_eq_false_iff] at hfree
      by_cases hunsent : m.isUnsentPublish = true
      · rw [unsentPublishes, List.filter_cons_of_pos hunsent, List.map_cons]
        exact (ih hfree.2).cons_cons _
      · rw [unsentPublishes, List.filter_cons_of_neg hunsent]
        exact (ih hfree.2).cons _

/-- A message that is sent is not unsent any more. -/
theorem sent_state {m : QueuedMessage} {state : QueuedState}
    (h : stateAfterSend m = some state) : state ≠ .unsent := by
  rintro rfl
  unfold stateAfterSend at h
  split at h
  all_goals first
    | cases h
    | split at h <;> cases h

section Send

variable {c : Conn} {w t : World}

theorem calm_sendIsDue {m : QueuedMessage} {due : Bool} (h : sendIsDue c m w = .ok due t) :
    Calm c [] w t ∧ (m.state = .unsent → due = true) := by
  unfold sendIsDue at h
  cases hstate : m.state with
  | unsent =>
      rw [hstate] at h
      cases h
      exact ⟨.refl c w, fun _ => rfl⟩
  | complete =>
      rw [hstate] at h
      cases h
      exact ⟨.refl c w, fun h => nomatch h⟩
  | awaitingAck =>
      rw [hstate] at h
      obtain ⟨now, u, htime, h⟩ := bind_ok h
      obtain ⟨_, _, hget, h⟩ := bind_ok h
      cases hget
      have hu := Calm.mqttPalTime (c := c) htime
      refine ⟨?_, fun h => nomatch h⟩
      split at h
      · cases h
        exact hu.still (Calm.modifyClient u (fun cl => { cl with send_offset := 0 })
          (by intro; rfl) (by intro; rfl) (by intro; rfl) (by intros; rfl))
      · cases h
        exact hu

/-- A message that is sent is written whole. -/
theorem sendMessage_ok {i : Nat} {m : QueuedMessage} {r : SendNext}
    (hm : (w.conn c).mqclt.entries[i]? = some m) (hsend : (stateAfterSend m).isSome = true)
    (hwrites : .failed ∉ w.env.writes) (hoffset : (w.conn c).mqclt.send_offset = 0)
    (h : sendMessage c i m w = .ok r t) :
    r = .next ∧ (∀ a ∈ t.env.writes, a ∈ w.env.writes) ∧ (t.conn c).mqclt.send_offset = 0 ∧
      writtenTo c t.trace = writtenTo c w.trace ++ m.start ∧
      ∃ m', m'.state ≠ .unsent ∧
        (t.conn c).mqclt.entries = (w.conn c).mqclt.entries.set i m' := by
  unfold sendMessage at h
  obtain ⟨_, _, hget, h⟩ := bind_ok h
  cases hget
  obtain ⟨sent, u, hsent, h⟩ := bind_ok h
  obtain ⟨_, _, hget, hsent⟩ := bind_ok hsent
  cases hget
  rw [show m.start.drop (w.conn c).mqclt.send_offset = m.start by rw [hoffset]; rfl] at hsent
  obtain ⟨rfl, hu⟩ := Calm.sendall _ _ hwrites hsent
  -- nothing was half sent and no write fails: `sendall` takes the whole packet
  have hall : ¬ (w.conn c).mqclt.send_offset + (m.start.length - (w.conn c).mqclt.send_offset) <
      m.start.length := by omega
  simp only [Bool.not_true, Bool.false_eq_true, ↓reduceIte, if_neg hall] at h
  obtain ⟨now, v, htime, h⟩ := bind_ok h
  obtain ⟨_, v', hmodify, h⟩ := bind_ok h
  have hv : Calm c m.start w v' := by
    cases hmodify
    exact (hu.still (Calm.mqttPalTime htime)).still
      (Calm.modifyClient v (fun cl => { cl with send_offset := 0, time_of_last_send := now })
        (by intro; rfl) (by intro; rfl) (by intro; rfl) (by intros; rfl))
  obtain ⟨state, hstate⟩ := Option.isSome_iff_exists.mp hsend
  rw [hstate] at h
  obtain ⟨_, t', hset, h⟩ := bind_ok h
  cases hset
  cases h
  have hmq : (w.conn c).mqclt.mq.isSome = true := by
    cases hq : (w.conn c).mqclt.mq with
    | some mq => rfl
    | none =>
        rw [MqttClient.entries, hq] at hm
        cases hm
  refine ⟨rfl, hv.writes, ?_, hv.written, { m with start := markDup m, state, time_sent := now },
    sent_state hstate, ?_⟩
  · rw [World.conn_setClient_same]
    exact hv.offset hoffset
  · rw [World.conn_setClient_same, MqttClient.entries_setEntries (by rwa [hv.mq]), hv.entries]

/-- The loop sends what it does not hold back, and comes to its end. -/
theorem passed_mqttSendLoop : ∀ (rest done : List QueuedMessage) (q : Bool) {w t : World}
    {r : Option MqttErrors}, (w.conn c).mqclt.entries = done ++ rest →
    (∀ m ∈ rest, (stateAfterSend m).isSome = true) → .failed ∉ w.env.writes →
    (w.conn c).mqclt.send_offset = 0 →
    mqttSendLoop c rest.length done.length q w = .ok r t →
    r = none ∧ ∃ rest' sent, Passed q rest rest' sent ∧
      (t.conn c).mqclt.entries = done ++ rest' ∧
      writtenTo c t.trace = writtenTo c w.trace ++ sent.flatten := by
  intro rest
  induction rest with
  | nil =>
      intro done q w t r hentries _ _ _ h
      cases h
      exact ⟨rfl, [], [], .nil, hentries, (List.append_nil _).symm⟩
  | cons m rest ih =>
      intro done q w t r hentries hsendable hwrites hoffset h
      rw [List.length_cons] at h
      unfold mqttSendLoop at h
      obtain ⟨_, _, hget, h⟩ := bind_ok h
      cases hget
      have hm : (w.conn c).mqclt.entries[done.length]? = some m := by
        rw [hentries]
        simp
      rw [hm] at h
      obtain ⟨due, u, hdue, h⟩ := bind_ok h
      obtain ⟨hu, hunsent⟩ := calm_sendIsDue hdue
      have hleft : .failed ∉ u.env.writes := fun hf => hwrites (hu.writes _ hf)
      have hrest : ∀ m ∈ rest, (stateAfterSend m).isSome = true :=
        fun m hm => hsendable m (List.mem_cons_of_mem _ hm)
      have hmu : (u.conn c).mqclt.entries[done.length]? = some m := by
        rw [hu.entries]
        exact hm
      have hwu : writtenTo c u.trace = writtenTo c w.trace := by
        rw [hu.written, List.append_nil]
      -- it is sent when it is due and not a QoS 2 PUBLISH behind an unfinished one
      by_cases hresend : (due && !(isInflightQos2 m && q)) = true
      · simp only [hresend, ↓reduceIte] at h
        obtain ⟨_, v, hsent, h⟩ := bind_ok h
        obtain ⟨rfl, hv, hoffset', hwritten, m', hstate, hset⟩ :=
          sendMessage_ok hmu (hsendable m (List.mem_cons_self ..)) hleft (hu.offset hoffset) hsent
        have hentries' : (v.conn c).mqclt.entries = (done ++ [m']) ++ rest := by
          rw [hset, hu.entries, hentries]
          simp
        have hlen : done.length + 1 = (done ++ [m']).length := by simp
        simp only at h
        rw [hlen] at h
        obtain ⟨hr, rest', sent, hpassed, ht, hout⟩ :=
          ih (done ++ [m']) _ hentries' hrest (fun hf => hleft (hv _ hf)) hoffset' h
        refine ⟨hr, m' :: rest', m.start :: sent, .send hstate (fun hheld => ?_) hpassed, ?_, ?_⟩
        · simp [hheld.1, hheld.2] at hresend
        · rw [ht, List.append_assoc]
          rfl
        · rw [hout, hwritten, hwu, List.flatten_cons, List.append_assoc]
      · simp only [hresend] at h
        have hentries' : (u.conn c).mqclt.entries = (done ++ [m]) ++ rest := by
          rw [hu.entries, hentries]
          simp
        have hlen : done.length + 1 = (done ++ [m]).length := by simp
        rw [hlen] at h
        obtain ⟨hr, rest', sent, hpassed, ht, hout⟩ :=
          ih (done ++ [m]) _ hentries' hrest hleft (hu.offset hoffset) h
        refine ⟨hr, m :: rest', sent, .skip (fun hstate => ?_) hpassed, ?_, ?_⟩
        · rw [hunsent hstate] at hresend
          simpa [and_comm] using hresend
        · rw [ht, List.append_assoc]
          rfl
        · rw [hout, hwu]

theorem sameUnsent_checkKeepAlive {e : MqttErrors} (hmq : (w.conn c).mqclt.mq.isSome = true)
    (h : checkKeepAlive c w = .ok e t) :
    SameUnsent (w.conn c).mqclt (t.conn c).mqclt ∧ writtenTo c t.trace = writtenTo c w.trace := by
  unfold checkKeepAlive at h
  obtain ⟨_, _, hget, h⟩ := bind_ok h
  cases hget
  obtain ⟨now, u, htime, h⟩ := bind_ok h
  have hu : Calm c [] w u := .mqttPalTime htime
  have hsame : SameUnsent (w.conn c).mqclt (u.conn c).mqclt := .of_entries hu.entries
  have hwritten : writtenTo c u.trace = writtenTo c w.trace := by
    rw [hu.written, List.append_nil]
  split at h
  · cases h
    rw [World.conn_setClient_same]
    refine ⟨hsame.trans ?_, hwritten⟩
    refine .packAndRegister (negErrors_packFixedHeader _) ?_ (by decide) ?_
    · rwa [hu.mq]
    · exact fun _ => rfl
  · cases h
    exact ⟨hsame, hwritten⟩

/-- What is sent are whole packets, and every unsent PUBLISH is among them but
those that are held back, which stay. -/
structure SendsUnsent (c : Conn) (w t : World) : Prop where
  left : HasUnsent (t.conn c).mqclt ↔ heldBack false (w.conn c).mqclt.entries = true
  written : ∃ packets : List Bytes,
    writtenTo c t.trace = writtenTo c w.trace ++ packets.flatten ∧
    (heldBack false (w.conn c).mqclt.entries = false →
      List.Sublist ((unsentPublishes (w.conn c).mqclt.entries).map (·.start)) packets)

/-- A client without an error sends all it does not hold back. -/
theorem sendsUnsent_mqttSend {e : MqttErrors} (hmq : (w.conn c).mqclt.mq.isSome = true)
    (herror : (w.conn c).mqclt.error = .ok) (hoffset : (w.conn c).mqclt.send_offset = 0)
    (hwrites : .failed ∉ w.env.writes) (hsend : Sendable (w.conn c).mqclt)
    (h : mqttSend c w = .ok e t) : SendsUnsent c w t := by
  unfold mqttSend at h
  obtain ⟨_, _, hget, h⟩ := bind_ok h
  cases hget
  rw [if_neg (by rw [herror]; rintro ⟨hneg, -⟩; cases hneg)] at h
  obtain ⟨r, u, hloop, h⟩ := bind_ok h
  have hmqu : (u.conn c).mqclt.mq.isSome = true := by
    have hpath := Within.of_ok (path_mqttSendLoop c _ _ _) hloop
    rw [(SyncPath.frame hpath).link.ready]
    exact hmq
  obtain ⟨rfl, rest', sent, hpassed, hentries, hout⟩ :=
    passed_mqttSendLoop (w.conn c).mqclt.entries [] false rfl hsend hwrites hoffset hloop
  obtain ⟨hsame, hwritten⟩ := sameUnsent_checkKeepAlive hmqu h
  constructor
  · rw [hsame.hasUnsent, HasUnsent, hentries, List.nil_append, hpassed.unsent_iff]
  · exact ⟨sent, hwritten.trans hout, hpassed.sent_all⟩

/-- The synchronisation of a client that has no error, while the broker is
silent and the socket takes everything. -/
theorem sendsUnsent_agSync {e : MqttErrors} (hmq : (w.conn c).mqclt.mq.isSome = true)
    (herror : (w.conn c).mqclt.error = .ok) (hoffset : (w.conn c).mqclt.send_offset = 0)
    (hwrites : .failed ∉ w.env.writes) (hreads : Calm.silentReads w.env.reads)
    (hbuf : NothingReceived (w.conn c).mqclt) (hsend : Sendable (w.conn c).mqclt)
    (h : agSync c w = .ok e t) : SendsUnsent c w t := by
  unfold agSync mqttSync at h
  obtain ⟨_, _, hget, h⟩ := bind_ok h
  cases hget
  simp only [herror, reduceCtorEq, ↓reduceIte] at h
  obtain ⟨err, u, hrecv, h⟩ := bind_ok h
  obtain ⟨rfl, hu⟩ := calm_mqttRecv hreads hbuf hrecv
  simp only [ne_eq, not_true, ↓reduceIte] at h
  have hsent := sendsUnsent_mqttSend (by rwa [hu.mq]) (hu.error.trans herror) (hu.offset hoffset)
    (fun hf => hwrites (hu.writes _ hf)) (by rwa [Sendable, hu.entries]) h
  obtain ⟨hleft, hwritten⟩ := hsent
  rw [hu.entries, hu.written, List.append_nil] at hwritten
  rw [hu.entries] at hleft
  exact ⟨hleft, hwritten⟩

end Send

end Admlink
