import Admlink.Lib.Framing
import Admlink.CopiedBytes
import Admlink.Mqtt.Codec

/-!
# The stream of packets from the broker

`__mqtt_recv` reads what there is, takes packets off the front of its buffer and
moves the rest down. However the bytes of a session arrive, the packets that are
handled are the ones the stream is cut into, each once and in order, and what is
left in the buffer is what is left of the stream.
-/

namespace Admlink

open Framing Program Runs

/-! ## What comes behind a packet does not matter -/

section Front

variable {a : Bytes} {i start n : Nat} {h : FixedHeader}

theorem peek_front (hi : i < a.length) (b b' : Bytes) : peek (a ++ b) i = peek (a ++ b') i := by
  unfold peek
  rw [List.getElem?_append_left hi, List.getElem?_append_left hi]

theorem unpackUint16_front (hi : i + 1 < a.length) (b b' : Bytes) :
    mqttUnpackUint16 (a ++ b) i = mqttUnpackUint16 (a ++ b') i := by
  unfold mqttUnpackUint16
  rw [peek_front (by omega) b b', peek_front hi b b']

theorem unpackConnack_front (hi : start + h.remaining_length ≤ a.length) (b b' : Bytes) :
    mqttUnpackConnackResponse (a ++ b) h start = mqttUnpackConnackResponse (a ++ b') h start := by
  unfold mqttUnpackConnackResponse
  split
  · rfl
  · rw [peek_front (by omega) b b', peek_front (i := start + 1) (by omega) b b']

theorem unpackPubxxx_front (hi : start + h.remaining_length ≤ a.length) (b b' : Bytes) :
    mqttUnpackPubxxxResponse (a ++ b) h start = mqttUnpackPubxxxResponse (a ++ b') h start := by
  unfold mqttUnpackPubxxxResponse
  split
  · rfl
  · rw [unpackUint16_front (by omega) b b']

theorem unpackSuback_front (hi : start + h.remaining_length ≤ a.length) (b b' : Bytes) :
    mqttUnpackSubackResponse (a ++ b) h start = mqttUnpackSubackResponse (a ++ b') h start := by
  unfold mqttUnpackSubackResponse
  split
  · rfl
  · rw [unpackUint16_front (by omega) b b', peek_front (by omega) b b']

/-- The packet id of a PUBLISH lies before the end of the packet, wherever the
topic length says that is. -/
theorem unpackPublish_front {b : Bytes} {p : ResponsePublish}
    (hi : start + h.remaining_length ≤ a.length)
    (hr : mqttUnpackPublishResponse (a ++ b) h start = .ok (p, n)) (hn : start + n ≤ a.length)
    (b' : Bytes) : mqttUnpackPublishResponse (a ++ b') h start = .ok (p, n) := by
  unfold mqttUnpackPublishResponse at hr ⊢
  by_cases hlong : h.remaining_length < 4
  · simp only [if_pos hlong] at hr
    cases hr
  · simp only [if_neg hlong] at hr ⊢
    obtain ⟨topic, htopic, hr⟩ := except_bind_ok hr
    rw [unpackUint16_front (i := start) (by omega) b b'] at htopic
    rw [htopic, except_ok_bind]
    by_cases hqos : 0 < qosOf h.control_flags
    · simp only [if_pos hqos] at hr ⊢
      obtain ⟨pid, hpid, hr⟩ := except_bind_ok hr
      have hend : n = start + 2 + topic + 2 + subU32 h.remaining_length
          (topic + if qosOf h.control_flags = 0 then 2 else 4) - start :=
        ((Prod.mk.inj (Except.ok.inj hr)).2).symm
      rw [unpackUint16_front (by omega) b b'] at hpid
      rw [hpid]
      exact hr
    · simp only [if_neg hqos] at hr ⊢
      exact hr

theorem unpackRemainingLength_more (x : Bytes) : ∀ {fuel k acc : Nat} {bs : Bytes} {r : Nat × Nat},
    unpackRemainingLength fuel k acc bs = .ok (some r) →
      unpackRemainingLength fuel k acc (bs ++ x) = .ok (some r) := by
  intro fuel
  induction fuel with
  | zero =>
      intro k acc bs r hr
      cases hr
  | succ fuel ih =>
      intro k acc bs r hr
      rcases bs with _ | ⟨c, cs⟩
      · cases hr
      · rw [List.cons_append]
        unfold unpackRemainingLength at hr ⊢
        simp only at hr ⊢
        split
        · rename_i hmore
          rw [if_pos hmore] at hr
          exact ih hr
        · rename_i hlast
          rw [if_neg hlast] at hr
          exact hr

theorem unpackFixedHeader_more (x : Bytes)
    (hhdr : mqttUnpackFixedHeader a = .ok (some (h, start))) :
    mqttUnpackFixedHeader (a ++ x) = .ok (some (h, start)) := by
  rcases a with _ | ⟨first, rest⟩
  · cases hhdr
  · rw [List.cons_append]
    unfold mqttUnpackFixedHeader at hhdr ⊢
    simp only at hhdr ⊢
    obtain ⟨r, hlength, hhdr⟩ := except_bind_ok hhdr
    rcases r with _ | ⟨k, remaining⟩
    · cases hhdr
    · rw [unpackRemainingLength_more x hlength, except_ok_bind]
      simp only at hhdr ⊢
      split
      · rename_i hrule
        rw [hrule] at hhdr
        cases hhdr
      · rename_i hrule
        rw [hrule] at hhdr
        simp only at hhdr
        split at hhdr
        · cases hhdr
        · rename_i hall
          rw [if_neg (by rw [List.length_append]; omega)]
          exact hhdr

theorem unpackRemainingLength_bound : ∀ {fuel k acc : Nat} {bs : Bytes} {k' v : Nat},
    unpackRemainingLength fuel k acc bs = .ok (some (k', v)) → k' ≤ k + bs.length := by
  intro fuel
  induction fuel with
  | zero =>
      intro k acc bs k' v hr
      cases hr
  | succ fuel ih =>
      intro k acc bs k' v hr
      rcases bs with _ | ⟨c, cs⟩
      · cases hr
      · unfold unpackRemainingLength at hr
        simp only at hr
        rw [List.length_cons]
        split at hr
        · have := ih hr
          omega
        · cases hr
          omega

/-- Header and body have arrived. -/
theorem unpackFixedHeader_bound (hhdr : mqttUnpackFixedHeader a = .ok (some (h, start))) :
    start + h.remaining_length ≤ a.length := by
  rcases a with _ | ⟨first, rest⟩
  · cases hhdr
  · unfold mqttUnpackFixedHeader at hhdr
    simp only at hhdr
    obtain ⟨r, hlength, hhdr⟩ := except_bind_ok hhdr
    rcases r with _ | ⟨k, remaining⟩
    · cases hhdr
    · have hk := unpackRemainingLength_bound hlength
      simp only at hhdr
      split at hhdr
      · cases hhdr
      · split at hhdr
        · cases hhdr
        · cases hhdr
          simp only [List.length_cons]
          omega

/-- A packet that has arrived is the same whatever the buffer holds behind it, and
however much has arrived by then. -/
theorem unpackResponse_front {b : Bytes} {r : Response}
    (hr : mqttUnpackResponse (a ++ b) a.length = .ok (some (r, n))) (hn : n ≤ a.length)
    (x b' : Bytes) :
    mqttUnpackResponse (a ++ x ++ b') (a ++ x).length = .ok (some (r, n)) := by
  unfold mqttUnpackResponse at hr ⊢
  rw [List.take_left] at hr ⊢
  rcases hhdr : mqttUnpackFixedHeader a with e | _ | ⟨h, start⟩
  · rw [hhdr] at hr
    cases hr
  · rw [hhdr] at hr
    cases hr
  · rw [hhdr] at hr
    rw [unpackFixedHeader_more x hhdr, List.append_assoc]
    have hin := unpackFixedHeader_bound hhdr
    simp only at hr ⊢
    -- one case for each control type
    split at hr
    · rw [unpackConnack_front hin (x ++ b') b]
      exact hr
    · obtain ⟨⟨p, k⟩, hp, hr⟩ := except_bind_ok hr
      have hend := (Prod.mk.inj (Option.some.inj (Except.ok.inj hr))).2
      rw [unpackPublish_front hin hp (by omega) (x ++ b')]
      exact hr
    · rw [unpackPubxxx_front hin (x ++ b') b]
      exact hr
    · rw [unpackPubxxx_front hin (x ++ b') b]
      exact hr
    · rw [unpackPubxxx_front hin (x ++ b') b]
      exact hr
    · rw [unpackPubxxx_front hin (x ++ b') b]
      exact hr
    · rw [unpackSuback_front hin (x ++ b') b]
      exact hr
    · rw [unpackPubxxx_front hin (x ++ b') b]
      exact hr
    · exact hr
    · cases hr

end Front

/-- What `mqtt_unpack_response` makes of the bytes that have arrived. -/
def nextPacket : Decoder UInt8 Response := fun received =>
  match mqttUnpackResponse received received.length with
  | .ok (some (r, n)) => if n ≤ received.length then some (r, n) else none
  | _ => none

section NextPacket

variable {s b : Bytes} {r : Response} {n : Nat}

theorem nextPacket_some_iff : nextPacket s = some (r, n) ↔
    mqttUnpackResponse s s.length = .ok (some (r, n)) ∧ n ≤ s.length := by
  unfold nextPacket
  split
  · rename_i r' n' hr
    rw [hr]
    split
    · rename_i hle
      constructor
      · intro h
        cases h
        exact ⟨rfl, hle⟩
      · rintro ⟨h, -⟩
        cases h
        rfl
    · rename_i hlt
      constructor
      · intro h
        cases h
      · rintro ⟨h, hle⟩
        cases h
        exact absurd hle hlt
  · rename_i hno
    constructor
    · intro h
      cases h
    · rintro ⟨h, -⟩
      exact absurd h (hno r n)

/-- What a packet is and how far it goes is known once it has arrived. -/
theorem stable_nextPacket : Stable nextPacket := by
  constructor
  · intro s r n h
    exact (nextPacket_some_iff.mp h).2
  · intro s r n t h
    obtain ⟨hr, hn⟩ := nextPacket_some_iff.mp h
    have hfront := unpackResponse_front (b := []) (by rw [List.append_nil]; exact hr) hn t []
    rw [List.append_nil] at hfront
    exact nextPacket_some_iff.mpr ⟨hfront, by rw [List.length_append]; omega⟩

/-- The buffer behind what has arrived is of no account. -/
theorem nextPacket_of_buffer (hr : mqttUnpackResponse (s ++ b) s.length = .ok (some (r, n)))
    (hn : n ≤ s.length) : nextPacket s = some (r, n) := by
  have hfront := unpackResponse_front hr hn [] []
  rw [List.append_nil, List.append_nil] at hfront
  exact nextPacket_some_iff.mpr ⟨hfront, hn⟩

theorem nextPacket_none (hr : mqttUnpackResponse (s ++ b) s.length = .ok none) :
    nextPacket s = none := by
  have hhdr : mqttUnpackFixedHeader s = .ok none := by
    unfold mqttUnpackResponse at hr
    rw [List.take_left] at hr
    rcases hhdr : mqttUnpackFixedHeader s with e | _ | ⟨h, start⟩
    · rw [hhdr] at hr
      cases hr
    · rfl
    · rw [hhdr] at hr
      simp only at hr
      split at hr
      all_goals first | cases hr | (obtain ⟨_, -, hr⟩ := except_bind_ok hr; cases hr)
  unfold nextPacket mqttUnpackResponse
  rw [List.take_length, hhdr]
  rfl

end NextPacket

/-! ## What a run reads and handles -/

/-- The bytes in these answers. -/
def dataOf (reads : List BioRead) : Bytes :=
  reads.flatMap fun
    | .data bs => bs
    | _ => []

def Event.packetOn (c : Conn) : Event → Option Response
  | .packet d r _ => if d = c then some r else none
  | _ => none

/-- The packets of `c` in a trace, oldest first. -/
def packetsOf (c : Conn) (trace : List Event) : List Response :=
  (trace.filterMap (·.packetOn c)).reverse

/-- Nothing is read and no packet of `c` is handled. -/
structure Untouched (c : Conn) (w t : World) : Prop where
  reads : t.env.reads = w.env.reads
  packets : packetsOf c t.trace = packetsOf c w.trace

instance (c : Conn) : IsPreorder World (Untouched c) where
  refl _ := ⟨rfl, rfl⟩
  trans _ _ _ h h' := ⟨h'.reads.trans h.reads, h'.packets.trans h.packets⟩

/-- Handling a message reads nothing. -/
abbrev Silent {α : Type} (c : Conn) (x : Prog α) : Prop := Within (Untouched c) (fun _ _ => True) x

instance (c : Conn) : Exits (Untouched c) fun _ _ => True where
  refl := refl_of (Untouched c)
  trans := trans_of (Untouched c)
  stop _ := trivial
  after _ _ := trivial

section Silent

variable {c : Conn} {w : World} {e : Event}

theorem packetsOf_cons (h : e.packetOn c = none) (trace : List Event) :
    packetsOf c (e :: trace) = packetsOf c trace := by
  rw [packetsOf, List.filterMap_cons_none h, packetsOf]

theorem untouched_log (h : e.packetOn c = none) : Untouched c w (w.log e) :=
  ⟨rfl, packetsOf_cons h _⟩

theorem silent_emit (h : e.packetOn c = none) : Silent c (emit e) :=
  Within.modify fun _ => untouched_log h

theorem silent_orFault {α : Type} (r : Except Fault α) : Silent c (orFault r) :=
  within_orFault r

theorem silent_xgettimeofday : Silent c xgettimeofday := by
  refine Within.get_bind fun w => ?_
  rcases w.env.clocks with _ | ⟨d, ds⟩
  · trivial
  · exact ⟨rfl, rfl⟩

theorem silent_registerTimeout (secs usecs : Nat) (h : Handler) :
    Silent c (registerTimeout secs usecs h) := by
  refine (silent_emit rfl).bind fun _ => silent_xgettimeofday.bind fun now => ?_
  refine Within.get.bind fun w => .ite (.throw _) (Within.modify fun _ => ⟨rfl, rfl⟩)

theorem silent_setMqttPublishNexsync (conn : Conn) (topic_name : Field 128)
    (application_message : Bytes) (publish_flags : Nat) :
    Silent c (setMqttPublishNexsync conn topic_name application_message publish_flags) := by
  refine Within.get.bind fun w => Within.bind (Within.modify fun _ => ⟨rfl, rfl⟩) fun _ => ?_
  exact (silent_emit rfl).bind fun _ => silent_registerTimeout _ _ _

theorem silent_strftimeTinfo : Silent c strftimeTinfo := by
  refine Within.get.bind fun w => (silent_emit rfl).bind fun _ => ?_
  rcases w.agent.tinfo with _ | t
  · exact .throw _
  · exact .pure _

theorem silent_uploadEvent (rcid : CBuf) (success : Bool) :
    Silent c (uploadEvent rcid success) := by
  refine Within.bind ?_ fun resbuf => Within.bind (Within.get.bind fun _ => .pure _) fun p =>
    silent_setMqttPublishNexsync _ _ _ _
  refine (silent_orFault _).bind fun _ => Within.get.bind fun w => ?_
  exact (silent_orFault _).bind fun _ => silent_strftimeTinfo.bind fun _ => silent_orFault _

/-- `admlink_reboot_rc`. -/
theorem untouched_reboot (w : World) : Untouched c w
    { w.log .rebootRc with agent := { w.agent with agstatus := .isReboot } } :=
  ⟨rfl, rfl⟩

theorem silent_runRcHdl (rcid : CBuf) : Silent c (runRcHdl rcid) := by
  unfold runRcHdl
  rcases findRcHdl rcid.str with _ | _ | _
  · exact silent_uploadEvent rcid false
  · exact untouched_reboot
  · exact silent_uploadEvent rcid true

theorem silent_admlinkProcessRc (rcid : Option CBuf) : Silent c (admlinkProcessRc rcid) := by
  refine (silent_emit rfl).bind fun _ => ?_
  refine Within.bind (Within.get.bind fun _ => .pure _) fun p => ?_
  refine (silent_setMqttPublishNexsync _ _ _ _).bind fun _ => ?_
  unfold searchRcHdl
  split
  · exact .throw _
  · rcases rcid with _ | rcid
    · exact .throw _
    · exact silent_runRcHdl rcid

theorem silent_publishCallback (d : Conn) (mem : Bytes) (p : ResponsePublish) :
    Silent c (publishCallback d mem p) := by
  refine (silent_orFault _).bind fun _ => (silent_orFault _).bind fun app_msg => ?_
  refine (silent_emit rfl).bind fun _ => (silent_orFault _).bind fun pdata => ?_
  rcases pdata with _ | pdata
  · exact .pure _
  · simp only
    rcases lookupRcId pdata with _ | prcid
    · exact .pure _
    · exact silent_admlinkProcessRc _

end Silent

/-! ## One call of `__mqtt_recv` -/

/-- From `w` to `t` the connection has read `used`, and what it had and what it
read is the packets it has handled and what it has left. -/
def CutFrom (c : Conn) (w t : World) (used : List BioRead) (packets : List Response) : Prop :=
  w.env.reads = used ++ t.env.reads ∧ packetsOf c t.trace = packetsOf c w.trace ++ packets ∧
    Cuts nextPacket ((w.conn c).mqclt.recv_buffer.received ++ dataOf used) packets
      (t.conn c).mqclt.recv_buffer.received

section Recv

variable {c : Conn} {w t u : World} {used used' : List BioRead} {packets packets' : List Response}

theorem dataOf_append (reads reads' : List BioRead) :
    dataOf (reads ++ reads') = dataOf reads ++ dataOf reads' := List.flatMap_append

theorem CutFrom.trans (h : CutFrom c w t used packets) (h' : CutFrom c t u used' packets') :
    CutFrom c w u (used ++ used') (packets ++ packets') := by
  obtain ⟨hreads, hpackets, hcuts⟩ := h
  obtain ⟨hreads', hpackets', hcuts'⟩ := h'
  refine ⟨by rw [hreads, hreads', List.append_assoc], ?_, ?_⟩
  · rw [hpackets', hpackets, List.append_assoc]
  · rw [dataOf_append, ← List.append_assoc]
    exact hcuts.feed stable_nextPacket hcuts'

/-- What is read and not yet looked at. -/
structure ReadFrom (c : Conn) (w t : World) (used : List BioRead) : Prop where
  reads : w.env.reads = used ++ t.env.reads
  packets : packetsOf c t.trace = packetsOf c w.trace

theorem ReadFrom.trans (h : ReadFrom c w t used) (h' : ReadFrom c t u used') :
    ReadFrom c w u (used ++ used') :=
  ⟨by rw [h.reads, h'.reads, List.append_assoc], h'.packets.trans h.packets⟩

theorem Untouched.readFrom (h : Untouched c w t) (h' : ReadFrom c t u used) : ReadFrom c w u used :=
  ⟨h.reads ▸ h'.reads, h'.packets.trans h.packets⟩

theorem silent_bioAccess (written : Bytes) : Silent c (bioAccess c written) := by
  refine Within.get.bind fun w => (silent_emit rfl).bind fun _ => ?_
  rcases (w.conn c).mqclt.socketfd with _ | b
  · exact .throw _
  · exact .ite (.throw _) (.pure _)

theorem readFrom_answer {answer : BioRead} (h : bioReadAnswer w = .ok answer t) :
    ReadFrom c w t [answer] := by
  unfold bioReadAnswer at h
  obtain ⟨_, _, hget, h⟩ := bind_ok h
  cases hget
  rcases hreads : w.env.reads with _ | ⟨r, rs⟩
  · rw [hreads] at h
    cases h
  · rw [hreads] at h
    cases h
    exact ⟨hreads, rfl⟩

/-- `mqtt_pal_recvall` returns the bytes it has read, all of them. -/
theorem readFrom_recvallLoop : ∀ {fuel bufsz : Nat} {acc new : Bytes} {w t : World},
    mqttPalRecvallLoop c fuel bufsz acc w = .ok (some new) t →
      ∃ used, ReadFrom c w t used ∧ new = acc ++ dataOf used := by
  intro fuel
  induction fuel with
  | zero =>
      intro bufsz acc new w t h
      cases h
  | succ fuel ih =>
      intro bufsz acc new w t h
      unfold mqttPalRecvallLoop at h
      obtain ⟨_, u, hio, h⟩ := bind_ok h
      obtain ⟨answer, v, hanswer, h⟩ := bind_ok h
      have hread : ReadFrom c w v [answer] :=
        ((silent_bioAccess _).of_ok hio).readFrom (readFrom_answer hanswer)
      -- the last answer, or one more
      have hlast : ∀ {bs : Bytes}, dataOf [answer] = bs → new = acc ++ bs → v = t →
          ∃ used, ReadFrom c w t used ∧ new = acc ++ dataOf used := by
        rintro _ rfl hnew rfl
        exact ⟨_, hread, hnew⟩
      have hmore : ∀ (bs : Bytes) (bufsz' : Nat), dataOf [answer] = bs →
          mqttPalRecvallLoop c fuel bufsz' (acc ++ bs) v = .ok (some new) t →
          ∃ used, ReadFrom c w t used ∧ new = acc ++ dataOf used := by
        rintro _ _ rfl hrest
        obtain ⟨used, hused, hnew⟩ := ih hrest
        exact ⟨_, hread.trans hused, by rw [hnew, dataOf_append, List.append_assoc]⟩
      rcases answer with bs | _ | _ | _
      · simp only at h
        have hdata : dataOf [.data bs] = bs := List.append_nil bs
        split at h
        · cases h
        · split at h
          · cases h
            exact hlast hdata rfl rfl
          · exact hmore bs _ hdata h
      · cases h
        exact hlast rfl (List.append_nil acc).symm rfl
      · refine hmore [] bufsz rfl ?_
        rw [List.append_nil]
        exact h
      · cases h

theorem readFrom_recvall {bufsz : Nat} {new : Bytes}
    (h : mqttPalRecvall c bufsz w = .ok (some new) t) :
    ∃ used, ReadFrom c w t used ∧ new = dataOf used := by
  obtain ⟨_, _, hget, h⟩ := bind_ok h
  cases hget
  exact readFrom_recvallLoop h

/-- Handling a packet logs it and reads nothing. -/
theorem handleResponse_ok {mem : Bytes} {r : Response} {ret : MqttErrors}
    (h : handleResponse (publishCallback c) c mem r w = .ok ret t) :
    t.env.reads = w.env.reads ∧ packetsOf c t.trace = packetsOf c w.trace ++ [r] := by
  have hlogged : ∀ cl : Client, packetsOf c
      ((w.log (.packet c r (ackedSeqno (w.conn c).mqclt r))).setClient c cl).trace =
        packetsOf c w.trace ++ [r] := by
    intro cl
    rw [World.trace_setClient, World.trace_log, packetsOf, List.filterMap_cons_some (b := r) (by
      rw [Event.packetOn, if_pos rfl]), List.reverse_cons, packetsOf]
  unfold handleResponse at h
  obtain ⟨cl, _, hget, h⟩ := bind_ok h
  cases hget
  obtain ⟨_, _, hemit, h⟩ := bind_ok h
  cases hemit
  rcases r with _ | p | _ | _ | _ | _ | _ | _ | _
  case publish =>
    simp only at h
    obtain ⟨_, u, hset, h⟩ := bind_ok h
    cases hset
    have hrest : Silent c (if (handlePublish (w.conn c).mqclt p).1 = true then (do
        publishCallback c mem p
        return (handlePublish (w.conn c).mqclt p).2.1)
        else return (handlePublish (w.conn c).mqclt p).2.1 : Prog MqttErrors) :=
      .ite ((silent_publishCallback c mem p).bind fun _ => .pure _) (.pure _)
    have := hrest.of_ok h
    exact ⟨this.reads, this.packets.trans (hlogged _)⟩
  all_goals
    cases h
    exact ⟨rfl, hlogged _⟩

theorem cutFrom_setError {e : MqttErrors} : CutFrom c w (final (setError c e w)) [] [] := by
  refine ⟨rfl, (List.append_nil _).symm, ?_⟩
  rw [show (final (setError c e w)).conn c = _ from World.conn_setClient_same ..]
  rw [show dataOf [] = [] from rfl, List.append_nil]
  exact .nil _

/-- The bytes are put behind what has been received. -/
theorem cutFrom_stored {new : Bytes} (h : ReadFrom c w t used) (hnew : new = dataOf used)
    (buf : RecvBuffer) (hbuf : buf = (w.conn c).mqclt.recv_buffer) :
    CutFrom c w (t.setClient c { (t.conn c).mqclt with recv_buffer := buf.store new }) used [] := by
  refine ⟨h.reads, h.packets.trans (List.append_nil _).symm, ?_⟩
  rw [World.conn_setClient_same, hbuf, hnew]
  exact .nil _

/-- One round of `__mqtt_recv`: a read that fails loses what it has read; else what
is read and the packet that is handled are accounted for. -/
theorem cutFrom_recvStep {next : Option MqttErrors}
    (h : mqttRecvStep (publishCallback c) c w = .ok next t) (herr : next ≠ some .socketError) :
    (∃ used packets, CutFrom c w t used packets) ∧
      (next = some .ok → nextPacket (t.conn c).mqclt.recv_buffer.received = none) := by
  unfold mqttRecvStep at h
  obtain ⟨cl, _, hget, h⟩ := bind_ok h
  cases hget
  obtain ⟨new, u, hread, h⟩ := bind_ok h
  -- a failed read forgets the bytes it got before it failed
  rcases new with _ | new
  · obtain ⟨_, _, hset, h⟩ := bind_ok h
    cases h
    exact absurd rfl herr
  · obtain ⟨used, hused, hnew⟩ := readFrom_recvall hread
    have hstored := cutFrom_stored hused hnew _ rfl
    simp only at h
    obtain ⟨_, v, hset, h⟩ := bind_ok h
    have hv : v = u.setClient c { (u.conn c).mqclt with
        recv_buffer := (w.conn c).mqclt.recv_buffer.store new } := by
      cases hset
      rfl
    rw [← hv] at hstored
    have hreceived : (v.conn c).mqclt.recv_buffer = (w.conn c).mqclt.recv_buffer.store new := by
      rw [hv, World.conn_setClient_same]
    generalize (w.conn c).mqclt.recv_buffer.store new = buf at h hreceived
    rcases hunpack : mqttUnpackResponse buf.mem buf.received.length with (e | f) | _ | ⟨r, n⟩
    · -- a malformed packet
      rw [hunpack] at h
      have hneg := negUnpack_response _ _ e hunpack
      obtain ⟨_, _, hset, h⟩ := bind_ok h
      cases hset
      cases h
      refine ⟨⟨_, _, hstored.trans cutFrom_setError⟩, fun hok => ?_⟩
      cases hok
      cases hneg
    · rw [hunpack] at h
      cases h
    · -- nothing complete
      rw [hunpack] at h
      have hnone : nextPacket buf.received = none := nextPacket_none hunpack
      simp only at h
      split at h
      · obtain ⟨_, _, hset, h⟩ := bind_ok h
        cases hset
        cases h
        exact ⟨⟨_, _, hstored.trans cutFrom_setError⟩, fun hok => by cases hok⟩
      · cases h
        exact ⟨⟨_, _, hstored⟩, fun _ => by rw [hreceived]; exact hnone⟩
    · -- a packet
      rw [hunpack] at h
      obtain ⟨ret, x, hhandle, h⟩ := bind_ok h
      obtain ⟨hreads, hpackets⟩ := handleResponse_ok hhandle
      split at h
      · cases h
      · rename_i hn
        obtain ⟨_, _, hset, h⟩ := bind_ok h
        cases hset
        cases h
        have hnext : nextPacket buf.received = some (r, n) :=
          nextPacket_of_buffer hunpack (Nat.le_of_not_lt hn)
        refine ⟨⟨_, _, hstored.trans (show CutFrom _ _ _ [] [r] from
          ⟨hreads.symm, hpackets, ?_⟩)⟩, ?_⟩
        · rw [World.conn_setClient_same, hreceived, show dataOf [] = [] from rfl, List.append_nil]
          exact Cuts.single hnext
        · intro hok
          split at hok
          · cases hok
          · rename_i hret
            exact absurd (Option.some.inj hok) hret

theorem cutFrom_recvLoop : ∀ {fuel : Nat} {w : World} {e : MqttErrors},
    mqttRecvLoop (publishCallback c) c fuel w = .ok e t → e ≠ .socketError →
      (∃ used packets, CutFrom c w t used packets) ∧
        (e = .ok → nextPacket (t.conn c).mqclt.recv_buffer.received = none) := by
  intro fuel
  induction fuel with
  | zero =>
      intro w e h
      cases h
  | succ fuel ih =>
      intro w e h herr
      obtain ⟨next, u, hstep, h⟩ := bind_ok h
      rcases next with _ | e'
      · obtain ⟨⟨used, packets, hcut⟩, -⟩ := cutFrom_recvStep hstep (by simp)
        obtain ⟨⟨used', packets', hcut'⟩, hlast⟩ := ih h herr
        exact ⟨⟨_, _, hcut.trans hcut'⟩, hlast⟩
      · cases h
        obtain ⟨hcut, hlast⟩ := cutFrom_recvStep hstep (by simpa using herr)
        exact ⟨hcut, fun hok => hlast (by rw [hok])⟩

theorem cutFrom_recv {e : MqttErrors} (h : mqttRecv (publishCallback c) c w = .ok e t)
    (herr : e ≠ .socketError) :
    (∃ used packets, CutFrom c w t used packets) ∧
      (e = .ok → nextPacket (t.conn c).mqclt.recv_buffer.received = none) := by
  obtain ⟨_, _, hget, h⟩ := bind_ok h
  cases hget
  exact cutFrom_recvLoop h herr

/-- A call of `__mqtt_recv` that meets no socket error handles the packets that the
bytes in its buffer and the bytes it reads begin with, each once and in order, and
keeps the rest; if nothing fails, no packet is left in it. -/
theorem recv_cuts (c : Conn) (w t : World) (e : MqttErrors)
    (h : mqttRecv (publishCallback c) c w = .ok e t) (herr : e ≠ .socketError) :
    ∃ used packets, w.env.reads = used ++ t.env.reads ∧
      packetsOf c t.trace = packetsOf c w.trace ++ packets ∧
      Cuts nextPacket ((w.conn c).mqclt.recv_buffer.received ++ dataOf used) packets
        (t.conn c).mqclt.recv_buffer.received ∧
      (e = .ok → nextPacket (t.conn c).mqclt.recv_buffer.received = none) := by
  obtain ⟨⟨used, packets, hreads, hpackets, hcuts⟩, hlast⟩ := cutFrom_recv h herr
  exact ⟨used, packets, hreads, hpackets, hcuts, hlast⟩

/-- How the bytes of a stream are shared out between the buffer and the reads, and
among the reads, makes no difference: the same packets are handled and the same
bytes are left. -/
theorem recv_chunks (c : Conn) (w w' t t' : World) (used used' : List BioRead)
    (h : mqttRecv (publishCallback c) c w = .ok .ok t)
    (h' : mqttRecv (publishCallback c) c w' = .ok .ok t')
    (hused : w.env.reads = used ++ t.env.reads) (hused' : w'.env.reads = used' ++ t'.env.reads)
    (hstream : (w.conn c).mqclt.recv_buffer.received ++ dataOf used =
      (w'.conn c).mqclt.recv_buffer.received ++ dataOf used') :
    (t.conn c).mqclt.recv_buffer.received = (t'.conn c).mqclt.recv_buffer.received ∧
      ∃ packets, packetsOf c t.trace = packetsOf c w.trace ++ packets ∧
        packetsOf c t'.trace = packetsOf c w'.trace ++ packets := by
  obtain ⟨⟨reads, packets, hreads, hpackets, hcuts⟩, hlast⟩ := cutFrom_recv h (by decide)
  obtain ⟨⟨reads', packets', hreads', hpackets', hcuts'⟩, hlast'⟩ := cutFrom_recv h' (by decide)
  obtain rfl : reads = used := List.append_cancel_right (hreads.symm.trans hused)
  obtain rfl : reads' = used' := List.append_cancel_right (hreads'.symm.trans hused')
  rw [← hstream] at hcuts'
  obtain ⟨rfl, hrest⟩ := hcuts.unique (hlast rfl) hcuts' (hlast' rfl)
  exact ⟨hrest, packets, hpackets, hpackets'⟩

end Recv

/-! ### A PUBLISH in one piece, and in two -/

def answerOf {α : Type} : EStateM.Result Stop World α → Option α
  | .ok a _ => some a
  | .error _ _ => none

theorem eq_of_answerOf {α : Type} {r : EStateM.Result Stop World α} {a : α}
    (h : answerOf r = some a) : r = .ok a (final r) := by
  cases r with
  | ok b s =>
      cases h
      rfl
  | error e s => cases h

def whole : World := opened [.data [0x30, 5, 0, 1, 116, 120, 121], .wantRead, .wantRead]

def halves : World :=
  opened [.data [0x30, 5, 0], .wantOther, .data [1, 116, 120, 121], .wantRead, .wantRead]

def received (w : World) : World := final (mqttRecv (publishCallback .mqrecv) .mqrecv w)

theorem recv_whole : mqttRecv (publishCallback .mqrecv) .mqrecv whole = .ok .ok (received whole) :=
  eq_of_answerOf (by decide +kernel)

theorem recv_halves :
    mqttRecv (publishCallback .mqrecv) .mqrecv halves = .ok .ok (received halves) :=
  eq_of_answerOf (by decide +kernel)

theorem recv_cuts_halves : ∃ used packets, halves.env.reads = used ++ (received halves).env.reads ∧
    packetsOf .mqrecv (received halves).trace = packetsOf .mqrecv halves.trace ++ packets ∧
    Cuts nextPacket ((halves.conn .mqrecv).mqclt.recv_buffer.received ++ dataOf used) packets
      ((received halves).conn .mqrecv).mqclt.recv_buffer.received ∧
    (MqttErrors.ok = .ok →
      nextPacket ((received halves).conn .mqrecv).mqclt.recv_buffer.received = none) :=
  recv_cuts .mqrecv halves (received halves) .ok recv_halves (by decide)

theorem recv_chunks_halves :
    ((received whole).conn .mqrecv).mqclt.recv_buffer.received =
      ((received halves).conn .mqrecv).mqclt.recv_buffer.received ∧
    ∃ packets, packetsOf .mqrecv (received whole).trace =
        packetsOf .mqrecv whole.trace ++ packets ∧
      packetsOf .mqrecv (received halves).trace = packetsOf .mqrecv halves.trace ++ packets :=
  recv_chunks .mqrecv whole halves (received whole) (received halves) whole.env.reads
    halves.env.reads recv_whole recv_halves (by decide +kernel) (by decide +kernel) rfl

end Admlink
