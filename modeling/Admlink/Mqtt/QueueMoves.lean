import Mathlib.Data.Nat.Bitwise
import Admlink.ClientMoves
import Admlink.Mqtt.Codec

/-!
# What a run can do to a send queue

A queue is set up by `mqtt_init`, cleaned, given one more packet, or has the
state of one of its messages written. `QueueMove` says so with what the packing
calls guarantee: the packet is one of its type and packet id, it fits the room
they were told, and a packet id of the agent's own is not in the queue.
-/

namespace Admlink

open Program Relation Runs

/-! ## The packets that are queued -/

/-- What the packers answer for a message of this type and packet id; a PUBLISH
that was sent at QoS 1 has the DUP flag. -/
inductive Packs : ControlType → Option Nat → Bytes → Prop
  | connect {room : Option Nat} {client_id packed : Bytes} {connect_flags keep_alive : Nat} :
      client_id.length < 2 ^ 16 →
      mqttPackConnectionRequest room client_id connect_flags keep_alive = .ok (some packed) →
      Packs .connect none packed
  | disconnect {room : Option Nat} {packed : Bytes} :
      mqttPackDisconnect room = .ok (some packed) → Packs .disconnect none packed
  | pingreq {room : Option Nat} {packed : Bytes} :
      mqttPackPingRequest room = .ok (some packed) → Packs .pingreq none packed
  | publish {room : Option Nat} {topic_name application_message packed : Bytes}
      {packet_id publish_flags : Nat} : topic_name.length < 2 ^ 16 →
      publishRemaining topic_name application_message publish_flags < 2 ^ 32 →
      packet_id < 2 ^ 16 →
      mqttPackPublishRequest room topic_name packet_id application_message publish_flags =
        .ok (some packed) →
      Packs .publish (some packet_id) packed
  | dup {packet_id : Option Nat} {c : UInt8} {cs : Bytes} : Packs .publish packet_id (c :: cs) →
      qosOf c.toNat = 1 → Packs .publish packet_id ((c ||| 8) :: cs)
  | pubxxx {room : Option Nat} {control_type : ControlType} {packet_id : Nat} {packed : Bytes} :
      control_type ∈ [ControlType.puback, .pubrec, .pubrel, .pubcomp] → packet_id < 2 ^ 16 →
      mqttPackPubxxxRequest room control_type packet_id = .ok (some packed) →
      Packs control_type (some packet_id) packed
  | subscribe {room : Option Nat} {topic packed : Bytes} {packet_id max_qos : Nat} :
      topic.length < 2 ^ 16 → packet_id < 2 ^ 16 →
      mqttPackSubscribeRequest room packet_id topic max_qos = .ok (some packed) →
      Packs .subscribe (some packet_id) packed

section Packers

variable {room : Option Nat} {packed : Bytes} {bufsz packet_id : Nat}

theorem length_connectBody {client_id : Bytes} (hlen : client_id.length < 2 ^ 16) (flags : UInt8)
    (keep_alive : Nat) :
    ([0, 4] ++ bytes "MQTT" ++ [4, flags] ++ mqttPackUint16 keep_alive ++
      mqttPackStr client_id).length = toU32 (10 + (2 + client_id.length)) := by
  rw [toU32_of_lt (by omega), List.length_append, length_mqttPackStr, Nat.mod_eq_of_lt hlen]
  simp only [List.length_append, length_bytes (s := "MQTT") (n := 4) (by decide),
    mqttPackUint16, List.length_cons, List.length_nil]

theorem length_subscribeBody {topic : Bytes} (hlen : topic.length < 2 ^ 16) (packet_id : Nat)
    (max_qos : UInt8) :
    (mqttPackUint16 packet_id ++ mqttPackStr topic ++ [max_qos]).length =
      toU32 (2 + (2 + topic.length + 1)) := by
  rw [toU32_of_lt (by omega), List.length_append, List.length_append, length_mqttPackStr,
    Nat.mod_eq_of_lt hlen, mqttPackUint16]
  rfl

theorem packConnection_packed {client_id : Bytes} {connect_flags keep_alive : Nat}
    (hlen : client_id.length < 2 ^ 16)
    (hpack : mqttPackConnectionRequest room client_id connect_flags keep_alive =
      .ok (some packed)) :
    ∃ h body, h.control_type = ControlType.connect.code ∧ PackedAs h body packed := by
  unfold mqttPackConnectionRequest at hpack
  split at hpack
  · cases hpack
  · exact ⟨_, _, rfl, packWith_packed ControlType.connect.code_lt (by simp)
      (length_connectBody hlen ..) hpack⟩

theorem packSubscribe_packed {topic : Bytes} {max_qos : Nat} (hlen : topic.length < 2 ^ 16)
    (hpack : mqttPackSubscribeRequest room packet_id topic max_qos = .ok (some packed)) :
    PackedAs ⟨ControlType.subscribe.code, 2, toU32 (2 + (2 + topic.length + 1))⟩
      (mqttPackUint16 packet_id ++ mqttPackStr topic ++ [UInt8.ofNat max_qos]) packed :=
  packWith_packed ControlType.subscribe.code_lt (by simp) (length_subscribeBody hlen ..) hpack

/-- A packet begins with a legal header of its type that announces the rest. -/
theorem Packs.packedAs {control_type : ControlType} {packet_id : Option Nat}
    (h : Packs control_type packet_id packed) :
    ∃ hdr body, hdr.control_type = control_type.code ∧ PackedAs hdr body packed := by
  induction h with
  | connect hlen hpack => exact packConnection_packed hlen hpack
  | disconnect hpack =>
      exact ⟨_, _, rfl, packFixedHeader_packed ControlType.disconnect.code_lt (by simp) rfl hpack⟩
  | pingreq hpack =>
      exact ⟨_, _, rfl, packFixedHeader_packed ControlType.pingreq.code_lt (by simp) rfl hpack⟩
  | publish htopic hsize _ hpack =>
      obtain ⟨hdr, hp⟩ := packPublish_packed hpack
      exact ⟨hdr, _, hp.control_type, hp.packedAs htopic hsize⟩
  | dup _ _ ih =>
      obtain ⟨hdr, body, htype, hp⟩ := ih
      obtain ⟨flags, -, hp'⟩ := packedAs_dup htype hp
      exact ⟨{ hdr with control_flags := flags }, body, htype, hp'⟩
  | pubxxx _ _ hpack => exact ⟨_, _, rfl, packPubxxx_packed hpack⟩
  | subscribe hlen _ hpack => exact ⟨_, _, rfl, packSubscribe_packed hlen hpack⟩

theorem Packs.publishPacked {packet_id : Option Nat} {pid : Nat} (hpid : packet_id = some pid)
    (h : Packs .publish packet_id packed) :
    pid < 2 ^ 16 ∧ ∃ topic_name application_message publish_flags hdr,
      topic_name.length < 2 ^ 16 ∧
        publishRemaining topic_name application_message publish_flags < 2 ^ 32 ∧
        PublishPacked topic_name pid application_message publish_flags hdr packed := by
  generalize htype : ControlType.publish = control_type at h
  induction h with
  | publish htopic hsize hlt hpack =>
      cases hpid
      obtain ⟨hdr, hp⟩ := packPublish_packed hpack
      exact ⟨hlt, _, _, _, hdr, htopic, hsize, hp⟩
  | dup _ _ ih =>
      obtain ⟨hlt, topic_name, application_message, publish_flags, hdr, htopic, hsize, hp⟩ :=
        ih hpid rfl
      obtain ⟨hdr', hp'⟩ := hp.dup
      exact ⟨hlt, topic_name, application_message, publish_flags, hdr', htopic, hsize, hp'⟩
  | pubxxx hmem _ _ =>
      subst htype
      simp at hmem
  | connect | disconnect | pingreq | subscribe => cases htype

end Packers

/-! ## What a reader makes of a queued message -/

/-- A message is one packet: of its control type, as long as its header says, with
its packet id, and not to be taken for a packet before its last byte. -/
structure OnePacket (m : QueuedMessage) : Prop where
  header : ∃ h start, h.control_type = m.control_type.code ∧
    start + h.remaining_length = m.start.length ∧
    ∀ behind, mqttUnpackFixedHeader (m.start ++ behind) = .ok (some (h, start))
  part : ∀ j < m.start.length, ∀ stale, mqttUnpackResponse (m.start.take j ++ stale) j = .ok none
  publish : ∀ pid h start, m.packet_id = some pid → m.control_type = .publish →
    mqttUnpackFixedHeader m.start = .ok (some (h, start)) → 0 < qosOf h.control_flags →
    ∀ behind k, ∃ p, mqttUnpackResponse (m.start ++ behind) (m.start.length + k) =
      .ok (some (.publish p, m.start.length)) ∧ p.packet_id = pid
  ack : ∀ pid r, m.packet_id = some pid → ackOf pid m.control_type = some r → ∀ behind k,
    mqttUnpackResponse (m.start ++ behind) (m.start.length + k) = .ok (some (r, m.start.length))
  subscribe : ∀ pid, m.packet_id = some pid → m.control_type = .subscribe →
    ∃ h start, mqttUnpackFixedHeader m.start = .ok (some (h, start)) ∧
      mqttUnpackUint16 m.start start = .ok pid

theorem Packs.pubxxx_packed {control_type : ControlType} {packet_id : Option Nat} {packed : Bytes}
    (h : Packs control_type packet_id packed) {pid : Nat} {r : Response}
    (hpid : packet_id = some pid) (hr : ackOf pid control_type = some r) :
    pid < 2 ^ 16 ∧ ∃ room, mqttPackPubxxxRequest room control_type pid = .ok (some packed) := by
  induction h with
  | pubxxx _ hlt hpack =>
      cases hpid
      exact ⟨hlt, _, hpack⟩
  | connect | disconnect | pingreq | publish | dup | subscribe => cases hr

theorem Packs.subscribe_packed {control_type : ControlType} {packet_id : Option Nat}
    {packed : Bytes} (h : Packs control_type packet_id packed) {pid : Nat}
    (hpid : packet_id = some pid) (htype : control_type = .subscribe) :
    pid < 2 ^ 16 ∧ ∃ topic max_qos room, topic.length < 2 ^ 16 ∧
      mqttPackSubscribeRequest room pid topic max_qos = .ok (some packed) := by
  induction h with
  | subscribe hlen hlt hpack =>
      cases hpid
      exact ⟨hlt, _, _, _, hlen, hpack⟩
  | pubxxx hmem _ _ =>
      subst htype
      simp at hmem
  | connect | disconnect | pingreq | publish | dup => cases htype

theorem Packs.onePacket {m : QueuedMessage} (h : Packs m.control_type m.packet_id m.start) :
    OnePacket m := by
  obtain ⟨hdr, body, htype, hp⟩ := h.packedAs
  refine ⟨⟨hdr, _, htype, ?_, hp.unpackFixedHeader⟩, fun j hj => hp.unpackResponse_take hj,
    ?_, ?_, ?_⟩
  · rw [hp.eq, List.length_append, hp.length]
  · intro pid h' start hpid hpublish hhdr hqos behind k
    rw [hpublish] at h
    obtain ⟨hlt, topic_name, application_message, publish_flags, hdr', htopic, hsize, hp'⟩ :=
      h.publishPacked hpid
    have hhdr' := (hp'.packedAs htopic hsize).unpackFixedHeader []
    rw [List.append_nil, hhdr] at hhdr'
    cases hhdr'
    rw [hp'.qos] at hqos
    have hremaining := hp'.remaining_length
    rw [toU32, Nat.mod_eq_of_lt hsize] at hremaining
    unfold publishRemaining at hsize hremaining
    rw [if_pos hqos] at hsize hremaining
    have hread := hp'.read hlt htopic (by omega) (by omega) behind k
    exact ⟨_, hread.answer, hread.packet_id hqos⟩
  · intro pid r hpid hr behind k
    obtain ⟨hlt, room, hpack⟩ := h.pubxxx_packed hpid hr
    exact unpackResponse_ack hpack hlt hr behind k
  · intro pid hpid hsubscribe
    obtain ⟨hlt, topic, max_qos, room, hlen, hpack⟩ := h.subscribe_packed hpid hsubscribe
    have hp' := packSubscribe_packed hlen hpack
    have hhdr := hp'.unpackFixedHeader []
    rw [List.append_nil] at hhdr
    refine ⟨_, _, hhdr, ?_⟩
    rw [hp'.eq, List.append_assoc, unpackUint16_pack, Nat.mod_eq_of_lt hlt]

/-! ## Moves of a queue -/

/-- The messages whose packet id the agent has chosen. -/
def QueuedMessage.isRequest (m : QueuedMessage) : Bool :=
  m.control_type = .publish || m.control_type = .subscribe

/-- A packet id for a request: not zero, and that of no queued message. -/
def FreshId (entries : List QueuedMessage) (packet_id : Option Nat) : Prop :=
  packet_id ≠ some 0 ∧ ∀ m ∈ entries, m.packet_id ≠ packet_id

/-- The operations of the agent on a send queue. -/
inductive QueueOp
  | init
  | clean
  | register (packed : Bytes) (control_type : ControlType) (packet_id seqno : Option Nat)
      (leftover : Nat)
  | complete (i : Nat)
  | sent (i time : Nat)

inductive QueueMove : QueueOp → Option MessageQueue → Option MessageQueue → Prop
  | init (mq : Option MessageQueue) : QueueMove .init mq (some ⟨bufSendSize, []⟩)
  | clean (mq : MessageQueue) : QueueMove .clean (some mq) (some mq.clean)
  | register {mq : MessageQueue} {packed : Bytes} {control_type : ControlType}
      {packet_id : Option Nat} (seqno : Option Nat) (leftover : Nat) :
      packed.length ≤ mq.currsz → Packs control_type packet_id packed →
      (control_type = .publish ∨ control_type = .subscribe → FreshId mq.entries packet_id) →
      QueueMove (.register packed control_type packet_id seqno leftover) (some mq)
        (some (mq.register packed control_type packet_id seqno leftover))
  | complete {mq : MessageQueue} {i : Nat} {m : QueuedMessage} : mq.entries[i]? = some m →
      QueueMove (.complete i) (some mq)
        (some { mq with entries := mq.entries.set i { m with state := .complete } })
  | sent {mq : MessageQueue} {i : Nat} {m : QueuedMessage} {state : QueuedState} (time : Nat) :
      mq.entries[i]? = some m → stateAfterSend m = some state → SentBefore mq.entries i →
      QueueMove (.sent i time) (some mq)
        (some { mq with
          entries := mq.entries.set i { m with start := markDup m, state, time_sent := time } })

abbrev QueueMoves : Option MessageQueue → Option MessageQueue → Prop :=
  ReflTransGen fun mq mq' => ∃ op, QueueMove op mq mq'

theorem QueueMove.moves {op : QueueOp} {mq mq' : Option MessageQueue} (h : QueueMove op mq mq') :
    QueueMoves mq mq' := .single ⟨op, h⟩

/-! ### The packing calls -/

/-- A call that packs a message of this type and packet id. -/
structure Packer (control_type : ControlType) (packet_id : Option Nat)
    (pack_call : Option Nat → PackResult) : Prop where
  packs : ∀ room packed, pack_call room = .ok (some packed) → Packs control_type packet_id packed
  fits : ∀ bufsz packed, pack_call (some bufsz) = .ok (some packed) → packed.length ≤ bufsz
  neg : NegErrors pack_call

theorem packer_connect {client_id : Bytes} (hlen : client_id.length < 2 ^ 16)
    (connect_flags keep_alive : Nat) :
    Packer .connect none (mqttPackConnectionRequest · client_id connect_flags keep_alive) := by
  refine ⟨fun _ _ => .connect hlen, fun bufsz packed hpack => ?_, fun room e he => ?_⟩
  · unfold mqttPackConnectionRequest at hpack
    split at hpack
    · cases hpack
    · exact packWith_fits (length_connectBody hlen ..) hpack
  · unfold mqttPackConnectionRequest at he
    split at he
    · cases he
      rfl
    · exact negErrors_packWith _ _ _ _ he

theorem packer_disconnect : Packer .disconnect none mqttPackDisconnect :=
  ⟨fun _ _ => .disconnect, fun _ _ hpack => Nat.le_of_add_right_le (packFixedHeader_fits hpack),
    negErrors_packFixedHeader _⟩

theorem packer_pingreq : Packer .pingreq none mqttPackPingRequest :=
  ⟨fun _ _ => .pingreq, fun _ _ hpack => Nat.le_of_add_right_le (packFixedHeader_fits hpack),
    negErrors_packFixedHeader _⟩

theorem packer_pubxxx {control_type : ControlType} {packet_id : Nat}
    (hmem : control_type ∈ [ControlType.puback, .pubrec, .pubrel, .pubcomp])
    (hpid : packet_id < 2 ^ 16) :
    Packer control_type (some packet_id) (mqttPackPubxxxRequest · control_type packet_id) := by
  refine ⟨fun _ _ => .pubxxx hmem hpid, fun bufsz packed hpack => ?_,
    negErrors_packPubxxxRequest _ _⟩
  unfold mqttPackPubxxxRequest at hpack
  split at hpack
  · cases hpack
  · exact packWith_fits rfl hpack

theorem packer_subscribe {packet_id : Nat} (hpid : packet_id < 2 ^ 16) {topic : Bytes}
    (hlen : topic.length < 2 ^ 16) (max_qos : Nat) :
    Packer .subscribe (some packet_id) (mqttPackSubscribeRequest · packet_id topic max_qos) :=
  ⟨fun _ _ => .subscribe hlen hpid, fun _ _ => packWith_fits (length_subscribeBody hlen ..),
    negErrors_packWith _ _⟩

/-- The memory of a queue is that of the agent. -/
def SizedQueue (mq : Option MessageQueue) : Prop := ∀ q, mq = some q → q.bufsz ≤ bufSendSize

theorem QueueMove.sized {op : QueueOp} {mq mq' : Option MessageQueue} (h : QueueMove op mq mq')
    (hsize : SizedQueue mq) : SizedQueue mq' := by
  rintro q ⟨⟩
  cases h with
  | init => exact Nat.le_refl _
  | @clean mq | @register mq | @complete mq | @sent mq => exact hsize mq rfl

section Calls

variable {cl : Client} {control_type : ControlType} {packet_id seqno : Option Nat}
  {pack_call : Option Nat → PackResult}

/-- What `pack_call` gives `cl` to register is such a message, and fits. -/
def PacksFor (cl : Client) (control_type : ControlType) (packet_id : Option Nat)
    (pack_call : Option Nat → PackResult) : Prop :=
  ∀ packed cl₀, mqttClientTryPack cl pack_call = (.ok packed, cl₀) → ∀ bufsz,
    cl₀.room = some bufsz → packed.length ≤ bufsz ∧ Packs control_type packet_id packed

/-- Only a packed message is handed on. -/
theorem pack_of_tryPack (hneg : NegErrors pack_call) {packed : Bytes} {cl₀ : Client}
    (h : mqttClientTryPack cl pack_call = (.ok packed, cl₀)) :
    (cl₀ = cl ∨ cl₀ = cl.clean) ∧ pack_call cl₀.room = .ok (some packed) := by
  obtain ⟨cl₁, h₁, ⟨packed₁, hpack, heq⟩ | ⟨e, -, heq⟩⟩ := mqttClientTryPack_cases cl hneg
  · rw [heq] at h
    cases h
    exact ⟨h₁, hpack⟩
  · rw [heq] at h
    cases h

theorem Packer.packsFor (hp : Packer control_type packet_id pack_call) (cl : Client) :
    PacksFor cl control_type packet_id pack_call := by
  intro packed cl₀ htry bufsz hroom
  obtain ⟨-, hpack⟩ := pack_of_tryPack hp.neg htry
  rw [hroom] at hpack
  exact ⟨hp.fits _ _ hpack, hp.packs _ _ hpack⟩

/-- Within the memory of the agent no remaining length wraps. -/
theorem packsFor_publish (hsize : SizedQueue cl.mq) {topic_name : Bytes} {packet_id : Nat}
    (htopic : topic_name.length < 2 ^ 16) (hpid : packet_id < 2 ^ 16)
    {application_message : Bytes} {publish_flags : Nat}
    (hfits : overruns cl
      (mqttPackPublishRequest · topic_name packet_id application_message publish_flags) = false) :
    PacksFor cl .publish (some packet_id)
      (mqttPackPublishRequest · topic_name packet_id application_message publish_flags) := by
  intro packed cl₀ htry bufsz hroom
  obtain ⟨hcl₀, hpack⟩ := pack_of_tryPack (negErrors_packPublishRequest _ _ _ _) htry
  rw [overruns, htry] at hfits
  simp only [hroom, Option.any_some, decide_eq_false_iff_not, Nat.not_lt] at hfits
  have hbufsz : bufsz ≤ bufSendSize := by
    obtain ⟨mq₀, hmq₀, rfl⟩ := Option.map_eq_some_iff.mp hroom
    refine (Nat.sub_le _ _).trans ((Nat.sub_le _ _).trans ?_)
    rcases hcl₀ with rfl | rfl
    · exact hsize _ hmq₀
    · obtain ⟨mq, hmq, rfl⟩ := Option.map_eq_some_iff.mp hmq₀
      exact hsize mq hmq
  obtain ⟨h, hp⟩ := packPublish_packed hpack
  have hlength := PublishPacked.length_body htopic packet_id application_message publish_flags
  rw [hp.eq, List.length_append, hlength] at hfits
  have hwrap : publishRemaining topic_name application_message publish_flags < 2 ^ 32 := by
    unfold bufSendSize at hbufsz
    omega
  refine ⟨?_, .publish htopic hwrap hpid hpack⟩
  rw [hp.eq, List.length_append, hlength]
  exact hfits

/-- A call that packs cleans the queue at most, and queues its packet. -/
theorem queue_packAndRegister (cl : Client) (hneg : NegErrors pack_call)
    (hp : PacksFor cl control_type packet_id pack_call)
    (hfresh : control_type = .publish ∨ control_type = .subscribe → FreshId cl.entries packet_id) :
    QueueMoves cl.mq (packAndRegister cl pack_call control_type packet_id seqno).2.mq := by
  rcases hmq : cl.mq with _ | mq
  · have hlink := (packAndRegister_sameLink cl hneg control_type packet_id seqno).ready
    rw [hmq, Option.isSome_none, Option.isSome_eq_false_iff, Option.isNone_iff_eq_none] at hlink
    rw [hlink]
  · have hclean : QueueMoves (some mq) cl.clean.mq := by
      rw [MqttClient.clean, hmq]
      exact (QueueMove.clean mq).moves
    have hentries : cl.entries = mq.entries := by rw [MqttClient.entries, hmq]
    unfold packAndRegister
    obtain ⟨cl₀, h₀, ⟨packed, -, h⟩ | ⟨e, -, h⟩⟩ := mqttClientTryPack_cases cl hneg
    · have hregister : ∀ mq₀, cl₀.mq = some mq₀ → (∀ m ∈ mq₀.entries, m ∈ mq.entries) →
          QueueMoves cl₀.mq (cl₀.register packed control_type packet_id seqno).mq := by
        intro mq₀ hmq₀ hsub
        have hroom : cl₀.room = some mq₀.currsz := by rw [MqttClient.room, hmq₀]; rfl
        obtain ⟨hfits, hpacks⟩ := hp packed cl₀ h mq₀.currsz hroom
        rw [MqttClient.register, hmq₀]
        refine (QueueMove.register seqno cl₀.leftover hfits hpacks fun hreq => ?_).moves
        exact ⟨(hfresh hreq).1, fun m hm => (hfresh hreq).2 m (hentries ▸ hsub m hm)⟩
      rw [h]
      rcases h₀ with rfl | rfl
      · rw [← hmq]
        exact hregister mq hmq fun _ => id
      · refine hclean.trans (hregister mq.clean (by rw [MqttClient.clean, hmq]; rfl) fun m hm => ?_)
        exact (List.dropWhile_sublist _).mem hm
    · rw [h]
      rcases h₀ with rfl | rfl
      · rw [← hmq]
      · exact hclean

end Calls

/-! ### Packet ids -/

/-- What the register can hold once it is running. -/
def IsPid (x : Nat) : Prop := 0 < x ∧ x < 2 ^ 16

theorem isPid_lfsrStep {x : Nat} (h : IsPid x) : IsPid (lfsrStep x) := by
  obtain ⟨hpos, hlt⟩ := h
  unfold lfsrStep
  split
  · refine ⟨Nat.pos_of_ne_zero fun hzero => ?_, Nat.xor_lt_two_pow (by omega) (by decide)⟩
    have := Nat.xor_eq_zero_iff.mp hzero
    omega
  · exact ⟨by omega, by omega⟩

theorem nextPidLoop_fresh {used : List Nat} : ∀ {fuel x pid : Nat},
    nextPidLoop used fuel x = .ok pid → pid ∉ used ∧ (IsPid x → IsPid pid) := by
  intro fuel
  induction fuel with
  | zero =>
      intro x pid h
      cases h
  | succ fuel ih =>
      intro x pid h
      unfold nextPidLoop at h
      simp only at h
      split at h
      · obtain ⟨hfresh, hpid⟩ := ih h
        exact ⟨hfresh, fun hx => hpid (isPid_lfsrStep hx)⟩
      · rename_i hfresh
        cases h
        exact ⟨hfresh, isPid_lfsrStep⟩

/-- Where the loop of `__mqtt_next_pid` starts. -/
theorem isPid_start {x : Nat} (h : x < 2 ^ 16) : IsPid (if x = 0 then 163 else x) := by
  unfold IsPid
  split <;> omega

/-- What `__mqtt_next_pid` answers. -/
structure NextPid (cl : Client) (pid : Nat) : Prop where
  isPid : cl.pid_lfsr < 2 ^ 16 → IsPid pid
  fresh : ∀ m ∈ cl.entries, m.packet_id ≠ some pid

theorem NextPid.freshId {cl : Client} {pid : Nat} (h : NextPid cl pid)
    (hcl : cl.pid_lfsr < 2 ^ 16) : FreshId cl.entries (some pid) :=
  ⟨fun hzero => Nat.ne_of_gt (h.isPid hcl).1 (Option.some.inj hzero), h.fresh⟩

theorem mqttNextPid_fresh {cl cl' : Client} {pid : Nat} (h : mqttNextPid cl = .ok (pid, cl')) :
    NextPid cl pid := by
  unfold mqttNextPid at h
  rcases hmq : cl.mq with _ | mq
  · rw [hmq] at h
    cases h
  · rw [hmq] at h
    obtain ⟨x, hx, h⟩ := except_bind_ok h
    cases h
    obtain ⟨hfresh, hpid⟩ := nextPidLoop_fresh hx
    refine ⟨fun hcl => hpid (isPid_start hcl), fun m hm hid => hfresh ?_⟩
    rw [MqttClient.entries, hmq] at hm
    exact List.mem_map.mpr ⟨m, hm, by rw [QueuedMessage.storedId, hid, Option.getD_some]⟩

theorem mqttPublish_nextPid {cl : Client} {topic_name application_message : Bytes}
    {publish_flags : Nat} {seqno : Option Nat} {r : MqttErrors × Client}
    (h : mqttPublish cl topic_name application_message publish_flags seqno = .ok r) :
    ∃ pid, NextPid cl pid ∧
      overruns { cl with pid_lfsr := pid }
        (mqttPackPublishRequest · topic_name pid application_message publish_flags) = false ∧
      r = packAndRegister { cl with pid_lfsr := pid }
        (mqttPackPublishRequest · topic_name pid application_message publish_flags)
        .publish (some pid) seqno := by
  unfold mqttPublish at h
  obtain ⟨⟨pid, cl'⟩, hpid, h⟩ := except_bind_ok h
  rw [(mqttNextPid_ok hpid).2] at h
  dsimp only [bind, Except.bind] at h
  split at h
  · cases h
  · rename_i hfits
    cases h
    exact ⟨pid, mqttNextPid_fresh hpid, Bool.eq_false_of_not_eq_true hfits, rfl⟩

theorem mqttSubscribe_nextPid {cl : Client} {topic_name : Bytes} {max_qos_level : Nat}
    {r : MqttErrors × Client} (h : mqttSubscribe cl topic_name max_qos_level = .ok r) :
    ∃ pid, NextPid cl pid ∧ r = packAndRegister { cl with pid_lfsr := pid }
      (mqttPackSubscribeRequest · pid topic_name max_qos_level) .subscribe (some pid) none := by
  unfold mqttSubscribe at h
  obtain ⟨⟨pid, cl'⟩, hpid, h⟩ := except_bind_ok h
  cases h
  exact ⟨pid, mqttNextPid_fresh hpid, by rw [← (mqttNextPid_ok hpid).2]⟩

/-- The packet id in a packet from the broker. -/
def Response.packetId : Response → Option Nat
  | .publish p => some p.packet_id
  | .puback pid | .pubrec pid | .pubrel pid | .pubcomp pid | .unsuback pid => some pid
  | .suback pid _ => some pid
  | .connack _ | .pingresp => none

theorem unpackUint16_lt {mem : Bytes} {i n : Nat} (h : mqttUnpackUint16 mem i = .ok n) :
    n < 2 ^ 16 := by
  have hpeek : ∀ {i b : Nat}, peek mem i = .ok b → b < 256 := by
    intro i b hb
    unfold peek at hb
    split at hb
    · cases hb
    · cases hb
      exact UInt8.toNat_lt _
  unfold mqttUnpackUint16 at h
  obtain ⟨high, hhigh, h⟩ := except_bind_ok h
  obtain ⟨low, hlow, h⟩ := except_bind_ok h
  cases h
  have := hpeek hhigh
  have := hpeek hlow
  omega

theorem unpackPubxxx_lt {mem : Bytes} {h : FixedHeader} {buf pid : Nat}
    (hr : mqttUnpackPubxxxResponse mem h buf = .ok pid) : pid < 2 ^ 16 := by
  unfold mqttUnpackPubxxxResponse at hr
  by_cases hlen : h.remaining_length ≠ 2
  · simp only [if_pos hlen] at hr
    cases hr
  · simp only [if_neg hlen] at hr
    exact unpackUint16_lt hr

theorem unpackPublish_packetId {mem : Bytes} {h : FixedHeader} {buf n : Nat} {p : ResponsePublish}
    (hr : mqttUnpackPublishResponse mem h buf = .ok (p, n)) : p.packet_id < 2 ^ 16 := by
  unfold mqttUnpackPublishResponse at hr
  by_cases hlong : h.remaining_length < 4
  · simp only [if_pos hlong] at hr
    cases hr
  · simp only [if_neg hlong] at hr
    obtain ⟨topic, -, hr⟩ := except_bind_ok hr
    by_cases hqos : 0 < qosOf h.control_flags
    · simp only [if_pos hqos] at hr
      obtain ⟨pid, hpid, hr⟩ := except_bind_ok hr
      cases hr
      exact unpackUint16_lt hpid
    · simp only [if_neg hqos] at hr
      cases hr
      exact Nat.two_pow_pos 16

theorem unpackConnack_packetId {mem : Bytes} {h : FixedHeader} {buf : Nat} {r : Response}
    (hr : mqttUnpackConnackResponse mem h buf = .ok r) : r.packetId = none := by
  unfold mqttUnpackConnackResponse at hr
  by_cases hlen : h.remaining_length ≠ 2
  · simp only [if_pos hlen] at hr
    cases hr
  · simp only [if_neg hlen] at hr
    obtain ⟨flags, -, hr⟩ := except_bind_ok hr
    by_cases hflags : 2 ≤ flags
    · simp only [if_pos hflags] at hr
      cases hr
    · simp only [if_neg hflags] at hr
      obtain ⟨code, -, hr⟩ := except_bind_ok hr
      by_cases hcode : 5 < code
      · simp only [if_pos hcode] at hr
        cases hr
      · simp only [if_neg hcode] at hr
        cases hr
        rfl

theorem unpackSuback_packetId {mem : Bytes} {h : FixedHeader} {buf : Nat} {r : Response}
    (hr : mqttUnpackSubackResponse mem h buf = .ok r) : ∀ pid ∈ r.packetId, pid < 2 ^ 16 := by
  unfold mqttUnpackSubackResponse at hr
  by_cases hlen : h.remaining_length < 3
  · simp only [if_pos hlen] at hr
    cases hr
  · simp only [if_neg hlen] at hr
    obtain ⟨pid, hpid, hr⟩ := except_bind_ok hr
    obtain ⟨code, -, hr⟩ := except_bind_ok hr
    cases hr
    rintro _ ⟨⟩
    exact unpackUint16_lt hpid

theorem pubxxx_packetId {mem : Bytes} {h : FixedHeader} {buf m n : Nat} {f : Nat → Response}
    {r : Response} (hf : ∀ pid, (f pid).packetId = some pid)
    (hr : (do return some (f (← mqttUnpackPubxxxResponse mem h buf), m) :
      Except UnpackError (Option (Response × Nat))) = .ok (some (r, n))) :
    ∀ pid ∈ r.packetId, pid < 2 ^ 16 := by
  obtain ⟨pid, hpid, hr⟩ := except_bind_ok hr
  cases hr
  rw [hf]
  rintro _ ⟨⟩
  exact unpackPubxxx_lt hpid

/-- Packet ids from the broker have 16 bits. -/
theorem unpackResponse_packetId {mem : Bytes} {received n : Nat} {r : Response}
    (hr : mqttUnpackResponse mem received = .ok (some (r, n))) :
    ∀ pid ∈ r.packetId, pid < 2 ^ 16 := by
  unfold mqttUnpackResponse at hr
  split at hr
  · cases hr
  · cases hr
  · split at hr
    · obtain ⟨r', hr', hr⟩ := except_bind_ok hr
      cases hr
      rw [unpackConnack_packetId hr']
      simp
    · obtain ⟨⟨p, m⟩, hp, hr⟩ := except_bind_ok hr
      cases hr
      rintro _ ⟨⟩
      exact unpackPublish_packetId hp
    · exact pubxxx_packetId (f := .puback) (fun _ => rfl) hr
    · exact pubxxx_packetId (f := .pubrec) (fun _ => rfl) hr
    · exact pubxxx_packetId (f := .pubrel) (fun _ => rfl) hr
    · exact pubxxx_packetId (f := .pubcomp) (fun _ => rfl) hr
    · obtain ⟨r', hr', hr⟩ := except_bind_ok hr
      cases hr
      exact unpackSuback_packetId hr'
    · exact pubxxx_packetId (f := .unsuback) (fun _ => rfl) hr
    · cases hr
      simp [Response.packetId]
    · cases hr

/-! ### Every move of a client -/

section Queue

variable {cl cl' : Client}

theorem queue_release {control_type : ControlType} {packet_id : Option Nat} {m : QueuedMessage}
    (h : release cl control_type packet_id = some (m, cl')) : QueueMoves cl.mq cl'.mq := by
  obtain ⟨i, hm, -, rfl⟩ := release_eq h
  rcases hmq : cl.mq with _ | mq
  · rw [MqttClient.setEntries, hmq]
    rfl
  · rw [MqttClient.entries, hmq] at hm
    rw [MqttClient.setEntries, MqttClient.entries, hmq]
    exact (QueueMove.complete hm).moves

theorem queue_releaseThen {control_type : ControlType} {packet_id : Option Nat}
    {next : Client → MqttErrors × Client} (hnext : ∀ cl₁, QueueMoves cl₁.mq (next cl₁).2.mq) :
    QueueMoves cl.mq (releaseThen cl control_type packet_id next).2.mq := by
  refine releaseThen_ind (P := fun r => QueueMoves cl.mq r.2.mq) .refl fun m cl₁ h => ?_
  exact (queue_release h).trans (hnext cl₁)

theorem queue_pubxxx (cl : Client) {control_type : ControlType} {pid : Nat}
    (hmem : control_type ∈ [ControlType.puback, .pubrec, .pubrel, .pubcomp]) (hpid : pid < 2 ^ 16) :
    QueueMoves cl.mq (stage (mqttPubxxx control_type cl pid)).2.mq := by
  rw [stage_mq]
  have hpacker := packer_pubxxx hmem hpid
  refine queue_packAndRegister _ hpacker.neg (hpacker.packsFor _) ?_
  rintro (rfl | rfl)
  · simp at hmem
  · simp at hmem

theorem queue_afterPacket {r : Response} (hr : ∀ pid ∈ r.packetId, pid < 2 ^ 16) :
    QueueMoves cl.mq (afterPacket cl r).mq := by
  cases r with
  | publish p =>
      simp only [afterPacket, handlePublish]
      split
      · exact queue_pubxxx cl (by simp) (hr _ rfl)
      · split
        · split
          · exact .refl
          · exact queue_pubxxx cl (by simp) (hr _ rfl)
        · exact .refl
  | pubrec pid =>
      simp only [afterPacket, handleAck]
      split
      · exact .refl
      · exact queue_releaseThen fun cl₁ => queue_pubxxx cl₁ (by simp) (hr _ rfl)
  | pubrel pid => exact queue_releaseThen fun cl₁ => queue_pubxxx cl₁ (by simp) (hr _ rfl)
  | connack code =>
      refine queue_releaseThen fun cl₁ => ?_
      split
      · exact .refl
      · split <;> exact .refl
  | suback pid code =>
      refine queue_releaseThen fun cl₁ => ?_
      split <;> exact .refl
  | puback pid | pubcomp pid | unsuback pid | pingresp => exact queue_releaseThen fun _ => .refl

theorem queue_sent {i : Nat} {m : QueuedMessage} {state : QueuedState} (time : Nat)
    (hm : cl.entries[i]? = some m) (hs : stateAfterSend m = some state)
    (hbefore : SentBefore cl.entries i) :
    QueueMoves cl.mq (cl.setEntries
      (cl.entries.set i { m with start := markDup m, state, time_sent := time })).mq := by
  rcases hmq : cl.mq with _ | mq
  · rw [MqttClient.setEntries, hmq]
    rfl
  · rw [MqttClient.entries, hmq] at hm hbefore
    rw [MqttClient.setEntries, MqttClient.entries, hmq]
    exact (QueueMove.sent time hm hs hbefore).moves

theorem length_str_lt (f : Field 128) : f.str.length < 2 ^ 16 := lt_trans f.fits (by decide)

theorem ClientCall.queue (h : ClientCall cl cl') (hpid : cl.pid_lfsr < 2 ^ 16)
    (hsize : SizedQueue cl.mq) : QueueMoves cl.mq cl'.mq := by
  have hpacks : ∀ (cl₀ : Client) {control_type : ControlType} {packet_id : Option Nat}
      {pack_call : Option Nat → PackResult}, Packer control_type packet_id pack_call →
      (control_type = .publish ∨ control_type = .subscribe → FreshId cl₀.entries packet_id) →
      QueueMoves cl₀.mq (packAndRegister cl₀ pack_call control_type packet_id none).2.mq :=
    fun cl₀ _ _ _ hp => queue_packAndRegister cl₀ hp.neg (hp.packsFor cl₀)
  cases h with
  | error | recvBuffer | resend | written => exact .refl
  | sent time hm hs hbefore => exact queue_sent time hm hs hbefore
  | ping => exact hpacks _ packer_pingreq (by simp)
  | disconnect => exact hpacks _ packer_disconnect (by simp)
  | publish hr =>
      obtain ⟨pid, hnext, hfits, rfl⟩ := mqttPublish_nextPid hr
      have hsized : SizedQueue ({ cl with pid_lfsr := pid } : Client).mq := hsize
      exact queue_packAndRegister { cl with pid_lfsr := pid } (negErrors_packPublishRequest _ _ _ _)
        (packsFor_publish hsized (length_str_lt _) (hnext.isPid hpid).2 hfits)
        fun _ => hnext.freshId hpid
  | subscribe hr =>
      obtain ⟨pid, hnext, rfl⟩ := mqttSubscribe_nextPid hr
      exact hpacks { cl with pid_lfsr := pid }
        (packer_subscribe (hnext.isPid hpid).2 (length_str_lt _) _) fun _ => hnext.freshId hpid
  | connect client_id =>
      have hpack : ∀ cl₀ : Client, cl₀.mq = cl.mq → QueueMoves cl.mq (packAndRegister cl₀
          (mqttPackConnectionRequest · client_id.str connectCleanSession 60) .connect none
          none).2.mq :=
        fun cl₀ h => h ▸ hpacks cl₀ (packer_connect (length_str_lt _) _ _) (by simp)
      refine hpack _ ?_
      split <;> rfl

/-- Each move of a client is some moves of its queue. -/
theorem ClientMove.queue (h : ClientMove cl cl') (hpid : cl.pid_lfsr < 2 ^ 16)
    (hsize : SizedQueue cl.mq) : QueueMoves cl.mq cl'.mq := by
  cases h with
  | call h => exact h.queue hpid hsize
  | packet hr => exact queue_afterPacket (unpackResponse_packetId hr)
  | init => exact (QueueMove.init _).moves

/-! ### What only the calls that need it touch -/

/-- The packet id register and the send offset are as they were. -/
structure SameSender (cl cl' : Client) : Prop where
  pid_lfsr : cl'.pid_lfsr = cl.pid_lfsr
  send_offset : cl'.send_offset = cl.send_offset

theorem SameSender.trans {cl'' : Client} (h : SameSender cl cl') (h' : SameSender cl' cl'') :
    SameSender cl cl'' :=
  ⟨h'.pid_lfsr.trans h.pid_lfsr, h'.send_offset.trans h.send_offset⟩

theorem sender_packAndRegister (cl : Client) {pack_call : Option Nat → PackResult}
    (hneg : NegErrors pack_call) (control_type : ControlType) (packet_id seqno : Option Nat) :
    SameSender cl (packAndRegister cl pack_call control_type packet_id seqno).2 := by
  obtain ⟨cl₀, rfl | rfl, ⟨packed, -, h⟩ | ⟨e, -, h⟩⟩ :=
    packAndRegister_cases cl hneg control_type packet_id seqno
  all_goals
    rw [h]
    exact ⟨rfl, rfl⟩

theorem sender_releaseThen {control_type : ControlType} {packet_id : Option Nat}
    {next : Client → MqttErrors × Client} (hnext : ∀ cl₁, SameSender cl₁ (next cl₁).2) :
    SameSender cl (releaseThen cl control_type packet_id next).2 := by
  refine releaseThen_ind (P := fun r => SameSender cl r.2) ⟨rfl, rfl⟩ fun m cl₁ h => ?_
  obtain ⟨i, -, -, heq⟩ := release_eq h
  have hrelease : SameSender cl cl₁ := by
    rw [heq]
    exact ⟨rfl, rfl⟩
  exact hrelease.trans (hnext cl₁)

theorem sender_pubxxx (cl : Client) (control_type : ControlType) (pid : Nat) :
    SameSender cl (stage (mqttPubxxx control_type cl pid)).2 := by
  have h := sender_packAndRegister cl (negErrors_packPubxxxRequest control_type pid) control_type
    (some pid) none
  unfold stage recvFails
  split
  · exact h
  · exact h.trans ⟨rfl, rfl⟩

theorem sender_afterPacket (cl : Client) (r : Response) : SameSender cl (afterPacket cl r) := by
  cases r with
  | publish p =>
      simp only [afterPacket, handlePublish]
      split
      · exact sender_pubxxx cl _ _
      · split
        · split
          · exact ⟨rfl, rfl⟩
          · exact sender_pubxxx cl _ _
        · exact ⟨rfl, rfl⟩
  | pubrec pid =>
      simp only [afterPacket, handleAck]
      split
      · exact ⟨rfl, rfl⟩
      · exact sender_releaseThen fun cl₁ => sender_pubxxx cl₁ _ _
  | pubrel pid => exact sender_releaseThen fun cl₁ => sender_pubxxx cl₁ _ _
  | connack code =>
      refine sender_releaseThen fun cl₁ => ?_
      split
      · exact ⟨rfl, rfl⟩
      · split <;> exact ⟨rfl, rfl⟩
  | suback pid code =>
      refine sender_releaseThen fun cl₁ => ?_
      split <;> exact ⟨rfl, rfl⟩
  | puback pid | pubcomp pid | unsuback pid | pingresp =>
      exact sender_releaseThen fun _ => ⟨rfl, rfl⟩

/-- The register stays within 16 bits, and nothing is ever half sent. -/
structure SenderOk (cl : Client) : Prop where
  pid_lfsr : cl.pid_lfsr < 2 ^ 16
  send_offset : cl.send_offset = 0

theorem SameSender.ok (h : SameSender cl cl') (hcl : SenderOk cl) : SenderOk cl' :=
  ⟨h.pid_lfsr ▸ hcl.pid_lfsr, h.send_offset.trans hcl.send_offset⟩

theorem ClientCall.senderOk (h : ClientCall cl cl') (hcl : SenderOk cl) : SenderOk cl' := by
  have hpid : ∀ pid, NextPid cl pid → SenderOk { cl with pid_lfsr := pid } := fun pid hnext =>
    ⟨(hnext.isPid hcl.pid_lfsr).2, hcl.send_offset⟩
  cases h with
  | error | recvBuffer | sent => exact ⟨hcl.pid_lfsr, hcl.send_offset⟩
  | resend | written => exact ⟨hcl.pid_lfsr, rfl⟩
  | ping | disconnect =>
      exact (sender_packAndRegister cl (negErrors_packFixedHeader _) _ _ _).ok hcl
  | publish hr =>
      obtain ⟨pid, hnext, -, rfl⟩ := mqttPublish_nextPid hr
      exact (sender_packAndRegister _ (negErrors_packPublishRequest _ _ _ _) _ _ _).ok
        (hpid pid hnext)
  | subscribe hr =>
      obtain ⟨pid, hnext, rfl⟩ := mqttSubscribe_nextPid hr
      exact (sender_packAndRegister _ (negErrors_packWith _ _) _ _ _).ok (hpid pid hnext)
  | connect client_id =>
      refine SameSender.ok (SameSender.trans ?_ (sender_packAndRegister _
        (packer_connect (length_str_lt _) _ _).neg _ _ _)) hcl
      split <;> exact ⟨rfl, rfl⟩

theorem ClientMove.senderOk (h : ClientMove cl cl') (hcl : SenderOk cl) : SenderOk cl' := by
  cases h with
  | call h => exact h.senderOk hcl
  | packet _ => exact (sender_afterPacket cl _).ok hcl
  | init => exact ⟨Nat.two_pow_pos 16, rfl⟩

end Queue

theorem senderOk_inRun {w : World} (h : InRun Always w) (c : Conn) :
    SenderOk (w.conn c).mqclt :=
  client_inRun (fun _ => ⟨Nat.two_pow_pos 16, rfl⟩) (fun _ _ hok hstep => hstep.senderOk hok) h c

/-- What holds before `mqtt_init` and survives every move of a queue holds of both
send queues in every world of every run. -/
theorem queue_inRun {P : Option MessageQueue → Prop} (hnone : P none)
    (hmove : ∀ op mq mq', P mq → QueueMove op mq mq' → P mq') {w : World} (h : InRun Always w)
    (c : Conn) : P (w.conn c).mqclt.mq := by
  have hmoves : ∀ mq mq', QueueMoves mq mq' → SizedQueue mq ∧ P mq → SizedQueue mq' ∧ P mq' := by
    intro mq mq' hpath hmq
    induction hpath with
    | refl => exact hmq
    | tail _ hstep ih =>
        obtain ⟨op, hstep⟩ := hstep
        exact ⟨hstep.sized ih.1, hmove op _ _ ih.2 hstep⟩
  have hclient : SenderOk (w.conn c).mqclt ∧ SizedQueue (w.conn c).mqclt.mq ∧
      P (w.conn c).mqclt.mq := by
    refine client_inRun (P := fun cl => SenderOk cl ∧ SizedQueue cl.mq ∧ P cl.mq) ?_ ?_ h c
    · exact fun _ => ⟨⟨Nat.two_pow_pos 16, rfl⟩, fun _ => nofun, hnone⟩
    · rintro cl cl' ⟨hok, hmq⟩ hstep
      exact ⟨hstep.senderOk hok, hmoves _ _ (hstep.queue hok.pid_lfsr hmq.1) hmq⟩
  exact hclient.2.2

end Admlink
