import Admlink.SendPass

/-!
# What the last synchronisation sends

`close_conn` sends what is queued only in the `mqtt_sync` that follows a
successful `mqtt_disconnect`. It takes place exactly when the DISCONNECT packet
fits behind the queued ones; on a connection where nothing fails and nothing
arrives it then sends them.
-/

namespace Admlink

open Program Runs

/-! ## The DISCONNECT packet -/

/-- The two bytes of a DISCONNECT and a queue header have room once the
completed messages are gone. -/
def DisconnectFits {fd : Type} (cl : MqttClient fd) : Prop := 2 ≤ cl.clean.room.getD 0

instance {fd : Type} (cl : MqttClient fd) : Decidable (DisconnectFits cl) := by
  unfold DisconnectFits; infer_instance

theorem packDisconnect_eq (room : Nat) :
    mqttPackDisconnect (some room) = .ok (if 2 ≤ room then some [224, 0] else none) := by
  have hrule : mqttFixedHeaderRuleViolation ⟨ControlType.disconnect.code, 0, 0⟩ = none := rfl
  have hbytes : fixedHeaderBytes ⟨ControlType.disconnect.code, 0, 0⟩ = [224, 0] := rfl
  unfold mqttPackDisconnect mqttPackFixedHeader
  simp only [hrule, hbytes]
  by_cases hroom : 2 ≤ room
  · rw [if_pos hroom, if_neg (by omega), if_neg (by omega)]
    simp only [List.length_cons, List.length_nil]
    rw [if_neg (by omega)]
  · rw [if_neg hroom]
    by_cases hzero : room = 0
    · rw [if_pos hzero]
    · rw [if_neg hzero, if_neg (by omega)]
      simp only [List.length_cons, List.length_nil]
      rw [if_pos (by omega)]

theorem sum_dropWhile_le (f : QueuedMessage → Nat) (p : QueuedMessage → Bool)
    (ms : List QueuedMessage) : ((ms.dropWhile p).map f).sum ≤ (ms.map f).sum := by
  induction ms with
  | nil => rfl
  | cons m ms ih =>
      by_cases h : p m = true
      · rw [List.dropWhile_cons_of_pos h, List.map_cons, List.sum_cons]
        exact ih.trans (Nat.le_add_left _ _)
      · rw [List.dropWhile_cons_of_neg h]

/-- Dropping completed messages never takes room away. -/
theorem currsz_le_clean (mq : MessageQueue) : mq.currsz ≤ mq.clean.currsz := by
  have hused : mq.clean.used ≤ mq.used := sum_dropWhile_le (·.start.length) _ mq.entries
  have hlen : mq.clean.entries.length ≤ mq.entries.length := (List.dropWhile_sublist _).length_le
  unfold MessageQueue.currsz
  have hsize : mq.clean.bufsz = mq.bufsz := rfl
  have hheaders := Nat.mul_le_mul_left sizeofQueuedMessage (Nat.add_le_add_right hlen 1)
  omega

/-- `mqtt_disconnect` on a client without an error. -/
theorem mqttDisconnect_fits {cl : Client} (hmq : cl.mq.isSome = true) (herror : cl.error = .ok)
    (hfits : DisconnectFits cl) : ∃ cl₀, (cl₀ = cl ∨ cl₀ = cl.clean) ∧
      mqttDisconnect cl = (.ok, cl₀.register [224, 0] .disconnect none none) := by
  obtain ⟨mq, hmq⟩ := Option.isSome_iff_exists.mp hmq
  have hroom : cl.room = some mq.currsz := by rw [MqttClient.room, hmq]; rfl
  have hclean : cl.clean.room = some mq.clean.currsz := by
    rw [MqttClient.room, MqttClient.clean, hmq]
    rfl
  have hneg : cl.error.neg = false := by rw [herror]; rfl
  rw [DisconnectFits, hclean, Option.getD_some] at hfits
  by_cases hnow : 2 ≤ mq.currsz
  · refine ⟨cl, .inl rfl, packAndRegister_fits hneg ?_ _ _ _⟩
    rw [hroom, packDisconnect_eq, if_pos hnow]
  · refine ⟨cl.clean, .inr rfl, packAndRegister_fits_clean hneg ?_ ?_ _ _ _⟩
    · rw [hroom, packDisconnect_eq, if_neg hnow]
    · rw [hclean, packDisconnect_eq, if_pos hfits]

theorem mqttDisconnect_full {cl : Client} (hmq : cl.mq.isSome = true) (herror : cl.error = .ok)
    (hfull : ¬ DisconnectFits cl) :
    mqttDisconnect cl = (.sendBufferIsFull, { cl.clean with error := .sendBufferIsFull }) := by
  obtain ⟨mq, hmq⟩ := Option.isSome_iff_exists.mp hmq
  have hroom : cl.room = some mq.currsz := by rw [MqttClient.room, hmq]; rfl
  have hclean : cl.clean.room = some mq.clean.currsz := by
    rw [MqttClient.room, MqttClient.clean, hmq]
    rfl
  have hneg : cl.error.neg = false := by rw [herror]; rfl
  rw [DisconnectFits, hclean, Option.getD_some] at hfull
  have hnow : ¬ 2 ≤ mq.currsz := fun h => hfull (h.trans (currsz_le_clean mq))
  unfold mqttDisconnect packAndRegister mqttClientTryPack
  rw [if_neg (by simp [hneg]), hroom, packDisconnect_eq, if_neg hnow]
  simp only [hclean, packDisconnect_eq, if_neg hfull]

/-! ## `close_conn` -/

/-- In error the rounds of `close_conn` leave the client as it is and write
nothing. -/
theorem closeConnLoop_neg {c : Conn} : ∀ (fuel : Nat) (trys : Int) {w t : World},
    (w.conn c).mqclt.error.neg = true → closeConnLoop c fuel trys w = .ok () t →
    (t.conn c).mqclt = (w.conn c).mqclt ∧ t.trace = w.trace := by
  intro fuel
  induction fuel with
  | zero =>
      intro trys w t _ h
      cases h
  | succ fuel ih =>
      intro trys w t hneg h
      unfold closeConnLoop at h
      obtain ⟨trys', u, hround, h⟩ := bind_ok h
      have hu : (u.conn c).mqclt = (w.conn c).mqclt ∧ u.trace = w.trace := by
        have hsame : mqttDisconnect (w.conn c).mqclt = ((w.conn c).mqclt.error, (w.conn c).mqclt) :=
          packAndRegister_of_neg hneg _ _ _ _
        have hne : (w.conn c).mqclt.error ≠ .ok := by
          intro hok
          rw [hok] at hneg
          cases hneg
        unfold closeConnRound at hround
        rw [bind_of_ok (rfl : onClient c mqttDisconnect w =
          .ok (mqttDisconnect (w.conn c).mqclt).1
            (w.setClient c (mqttDisconnect (w.conn c).mqclt).2)), hsame] at hround
        simp only [if_neg hne] at hround
        cases hround
        exact ⟨by rw [World.conn_setClient_same], rfl⟩
      split at h
      · obtain ⟨ht, htrace⟩ := ih trys' (by rwa [hu.1]) h
        exact ⟨ht.trans hu.1, htrace.trans hu.2⟩
      · cases h
        exact hu

/-- A connection that is open and works until it is closed: no error so far, no
failing write, a silent broker, no packet half sent and nothing left to handle
of what the broker has sent. -/
@[mk_iff]
structure Healthy (w : World) (c : Conn) : Prop where
  biofd : (w.conn c).biofd.isSome = true
  ready : (w.conn c).mqclt.mq.isSome = true
  error : (w.conn c).mqclt.error = .ok
  offset : (w.conn c).mqclt.send_offset = 0
  accepts : .failed ∉ w.env.writes
  silent : Calm.silentReads w.env.reads
  received : NothingReceived (w.conn c).mqclt
  sendable : Sendable (w.conn c).mqclt

instance (w : World) (c : Conn) : Decidable (Healthy w c) :=
  decidable_of_iff _ (healthy_iff w c).symm

section Close

variable {c : Conn} {w t : World}

/-- The synchronisation of the first round takes place if the DISCONNECT fits;
else nothing is written. -/
theorem sends_closeConnLoop (hw : Healthy w c) (h : closeConnLoop c 3 0 w = .ok () t) :
    (DisconnectFits (w.conn c).mqclt → SendsUnsent c w t) ∧
      (¬ DisconnectFits (w.conn c).mqclt →
        SameUnsent (w.conn c).mqclt (t.conn c).mqclt ∧ t.trace = w.trace) := by
  unfold closeConnLoop at h
  obtain ⟨trys, u, hround, h⟩ := bind_ok h
  unfold closeConnRound at hround
  rw [bind_of_ok (rfl : onClient c mqttDisconnect w = .ok (mqttDisconnect (w.conn c).mqclt).1
    (w.setClient c (mqttDisconnect (w.conn c).mqclt).2))] at hround
  constructor
  · intro hfits
    -- the DISCONNECT goes behind what is unsent, if need be after a clean
    obtain ⟨cl₀, hbase, hcall⟩ := mqttDisconnect_fits hw.ready hw.error hfits
    have hsame : SameUnsent (w.conn c).mqclt (cl₀.register [224, 0] .disconnect none none) := by
      rcases hbase with rfl | rfl
      · exact .register hw.ready _ none none (by decide) rfl
      · refine (SameUnsent.clean _).trans (.register ?_ _ none none (by decide) rfl)
        rw [(SameLink.clean _).ready]
        exact hw.ready
    rw [hcall] at hround
    simp only [↓reduceIte] at hround
    obtain ⟨e, v, hsync, hround⟩ := bind_ok hround
    have hbase : cl₀.mq.isSome = true ∧ cl₀.error = .ok ∧ cl₀.send_offset = 0 ∧
        cl₀.recv_buffer = (w.conn c).mqclt.recv_buffer := by
      rcases hbase with rfl | rfl
      · exact ⟨hw.ready, hw.error, hw.offset, rfl⟩
      · refine ⟨?_, hw.error, hw.offset, rfl⟩
        rw [(SameLink.clean _).ready]
        exact hw.ready
    obtain ⟨hmq, herror, hoffset, hbuffer⟩ := hbase
    have hreceived : NothingReceived (cl₀.register [224, 0] .disconnect none none) := by
      unfold NothingReceived
      rw [show (cl₀.register [224, 0] .disconnect none none).recv_buffer = cl₀.recv_buffer from rfl,
        hbuffer]
      exact hw.received
    have hsent : SendsUnsent c w v := by
      have hv := sendsUnsent_agSync
        (w := w.setClient c (cl₀.register [224, 0] .disconnect none none))
        (by simp [MqttClient.register, hmq]) (by simp [MqttClient.register, herror])
        (by simpa [MqttClient.register] using hoffset) hw.accepts hw.silent
        (by simpa using hreceived) (by simpa using hsame.sendable hw.sendable) hsync
      obtain ⟨hleft, hwritten⟩ := hv
      rw [World.conn_setClient_same, hsame.heldBack] at hleft hwritten
      rw [hsame.unsent] at hwritten
      exact ⟨hleft, hwritten⟩
    have hkept := (returns_mqttSync (publishCallback c) c).of_ok trivial hsync
    -- MQTT_OK ends the loop; after an error the two rounds left change nothing
    by_cases hok : e = .ok
    · simp only [hok, ↓reduceIte] at hround
      cases hround
      cases h
      exact hsent
    · simp only [hok, ↓reduceIte] at hround
      cases hround
      rw [if_pos (by decide)] at h
      obtain ⟨hclient, htrace⟩ := closeConnLoop_neg 2 _ (hkept hok) h
      obtain ⟨hleft, hwritten⟩ := hsent
      rw [← hclient] at hleft
      rw [← htrace] at hwritten
      exact ⟨hleft, hwritten⟩
  · intro hfull
    rw [mqttDisconnect_full hw.ready hw.error hfull] at hround
    simp only [reduceCtorEq, ↓reduceIte] at hround
    cases hround
    rw [if_pos (by decide)] at h
    obtain ⟨hclient, htrace⟩ :=
      closeConnLoop_neg 2 _ (by rw [World.conn_setClient_same]; rfl) h
    refine ⟨?_, htrace⟩
    rw [hclient, World.conn_setClient_same]
    exact (SameUnsent.clean _).trans (.of_entries rfl)

/-- When `BIO_free_all` is called no PUBLISH is unsent, and those that were have
been written to the socket, whole and in order. -/
structure Flushed (c : Conn) (w t : World) : Prop where
  sent : ¬ HasUnsent (t.conn c).mqclt
  written : ∃ (b : BioId) (past : List Event) (packets : List Bytes),
    (w.conn c).biofd = some b ∧ t.trace = .bioFreeAll b :: past ∧
    writtenTo c past = writtenTo c w.trace ++ packets.flatten ∧
    List.Sublist ((unsentPublishes (w.conn c).mqclt.entries).map (·.start)) packets

/-- The bytes of the unsent PUBLISHes are among those that are written. -/
theorem Flushed.length_le (h : Flushed c w t) :
    ((unsentPublishes (w.conn c).mqclt.entries).map (·.start)).flatten.length +
      (writtenTo c w.trace).length ≤ (writtenTo c t.trace).length := by
  obtain ⟨b, past, packets, -, ht, hpast, hsub⟩ := h.written
  have hlength := hsub.flatten.length_le
  rw [ht, writtenTo_cons, hpast]
  simp only [List.length_append]
  omega

/-- `close_conn` writes every unsent PUBLISH before `BIO_free_all` exactly where
there is none, or where the DISCONNECT fits and no QoS 2 PUBLISH is held back. -/
theorem flushed_iff (hw : Healthy w c) (h : closeConn c w = .ok () t) :
    Flushed c w t ↔
      ¬ HasUnsent (w.conn c).mqclt ∨
        (DisconnectFits (w.conn c).mqclt ∧ heldBack false (w.conn c).mqclt.entries = false) := by
  obtain ⟨b, hb⟩ := Option.isSome_iff_exists.mp hw.biofd
  unfold closeConn at h
  rw [bind_of_ok (rfl : getConn c w = .ok (w.conn c) w), hb] at h
  obtain ⟨_, u, hloop, h⟩ := bind_ok h
  have hend : (t.conn c).mqclt = (u.conn c).mqclt ∧ t.trace = .bioFreeAll b :: u.trace := by
    cases h
    refine ⟨?_, rfl⟩
    change (((u.log (.bioFreeAll b)).setConn c _).setConn c _ |>.conn c).mqclt = _
    rw [World.setConn_setConn, World.conn_setConn_same, World.conn_setConn_same]
    rfl
  -- `BIO_free_all` comes behind the loop, so what the loop leaves decides
  have hflushed : Flushed c w t ↔
      ¬ HasUnsent (u.conn c).mqclt ∧ ∃ packets : List Bytes,
        writtenTo c u.trace = writtenTo c w.trace ++ packets.flatten ∧
        List.Sublist ((unsentPublishes (w.conn c).mqclt.entries).map (·.start)) packets := by
    rw [← hend.1]
    constructor
    · rintro ⟨hsent, b', past, packets, -, hpast, hwritten⟩
      rw [hend.2] at hpast
      cases hpast
      exact ⟨hsent, packets, hwritten⟩
    · rintro ⟨hsent, packets, hwritten⟩
      exact ⟨hsent, b, u.trace, packets, hb, hend.2, hwritten⟩
  rw [hflushed]
  obtain ⟨hfits, hfull⟩ := sends_closeConnLoop hw hloop
  by_cases hroom : DisconnectFits (w.conn c).mqclt
  · obtain ⟨hleft, packets, hout, hall⟩ := hfits hroom
    rw [hleft, Bool.not_eq_true]
    constructor
    · exact fun hheld => .inr ⟨hroom, hheld.1⟩
    · intro hwhen
      have hheld : heldBack false (w.conn c).mqclt.entries = false := by
        rcases hwhen with hnone | ⟨-, hheld⟩
        · exact Bool.eq_false_iff.mpr fun hheld => hnone (heldBack_unsent hheld)
        · exact hheld
      exact ⟨hheld, packets, hout, hall hheld⟩
  · obtain ⟨hsame, htrace⟩ := hfull hroom
    rw [hsame.hasUnsent, htrace]
    constructor
    · exact fun hleft => .inl hleft.1
    · rintro (hnone | ⟨hroom', -⟩)
      · refine ⟨hnone, [], (List.append_nil _).symm, ?_⟩
        rw [hasUnsent_iff, not_not] at hnone
        rw [hnone]
        exact List.Sublist.refl _
      · exact absurd hroom' hroom

end Close

/-! ## A queue without room for the DISCONNECT -/

/-- A daemon whose device has a name of ten bytes. -/
def longNamed : World :=
  started ((cfgAgInit (some (bytes "maomaoag01"))).toOption.get (by decide +kernel)) 3 0 quiet

theorem longNamed_isStart : IsStart longNamed :=
  ⟨some (bytes "maomaoag01"), _, 3, 0, quiet, .of_ok (ok_of_toOption _), rfl⟩

/-- Both connections come up, and that many test messages are queued behind the
CONNECT of the uploader before it synchronises again. -/
def queuedTests (n : Nat) : List Dispatch :=
  [.timeout (after 1000000 [.sent 24, .sent 33])] ++
    List.replicate n (.readers quiet (some (bytes "sendtest"))) ++
    [.timeout (after 200000 [.sent 52]), .timeout (after 0 [])] ++
    List.replicate n (.timeout (after 0 []))

/-- The answers to a close that sends `sizes`. -/
def stopping (sizes : List Nat) : Env := after 0 (sizes.map .sent)

/-- That daemon with `n` test messages queued when it is stopped. -/
def stopped (n : Nat) (env : Env) : World :=
  { final (exec dispatch (queuedTests n) longNamed) with env }

/-- `close_conn` returns for the uploader. -/
def closes (w : World) : Bool :=
  match closeConn .mqupld w with
  | .ok _ _ => true
  | .error _ _ => false

theorem closeConn_closes {w : World} (h : closes w = true) :
    closeConn .mqupld w = .ok () (final (closeConn .mqupld w)) := by
  unfold closes at h
  cases hr : closeConn .mqupld w with
  | ok a t => rfl
  | error e t =>
      rw [hr] at h
      cases h

theorem flushed_twoTests :
    Flushed .mqupld (stopped 2 (stopping [292, 292, 2]))
        (final (closeConn .mqupld (stopped 2 (stopping [292, 292, 2])))) ↔
      ¬ HasUnsent ((stopped 2 (stopping [292, 292, 2])).conn .mqupld).mqclt ∨
        (DisconnectFits ((stopped 2 (stopping [292, 292, 2])).conn .mqupld).mqclt ∧
          heldBack false ((stopped 2 (stopping [292, 292, 2])).conn .mqupld).mqclt.entries =
            false) :=
  flushed_iff (by decide +kernel) (closeConn_closes (by decide +kernel))

/-- Twelve test messages fill the queue but for less than a header, and not a
byte of them is written. -/
theorem unflushed_twelveTests : ¬ ∀ (w t : World) (c : Conn) (env : Env), Between Always w →
    Healthy { w with env } c → closeConn c { w with env } = .ok () t →
    Flushed c { w with env } t := by
  intro h
  have hreach : Between Always (final (exec dispatch (queuedTests 12) longNamed)) :=
    Reaches.guarded (C := Always) (queuedTests 12) (.start longNamed_isStart)
      (by decide +kernel)
  have hflushed := h _ _ .mqupld (stopping []) hreach (by decide +kernel)
    (closeConn_closes (by decide +kernel : closes (stopped 12 (stopping [])) = true))
  have hless : ¬ ((unsentPublishes ((stopped 12 (stopping [])).conn .mqupld).mqclt.entries).map
        (·.start)).flatten.length + (writtenTo .mqupld (stopped 12 (stopping [])).trace).length ≤
      (writtenTo .mqupld (final (closeConn .mqupld (stopped 12 (stopping [])))).trace).length := by
    decide +kernel
  exact hless hflushed.length_le

end Admlink
