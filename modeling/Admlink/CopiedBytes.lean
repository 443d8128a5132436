import Admlink.Settled

/-!
# What `publish_callback` copies

`mqtt_unpack_publish_response` hands over two ranges of the receive buffer. The
packet is known to have arrived as far as its remaining length says, but its
topic length is not compared with that: the message size is an unsigned
difference, and a topic length that leaves no room makes it wrap around. The
packet id behind such a topic may lie outside `recvbuf`: whatever is there is
read, so the results are for every memory behind the buffer.
-/

namespace Admlink

open Program Relation Runs World

/-! ## The packet at the front of the buffer -/

section Unpack

variable {buf : RecvBuffer} {p : ResponsePublish} {h : FixedHeader} {start n topic : Nat}
  {behind : Bytes}

end Unpack

/-! ## The buffer keeps its size -/

section Buffer

variable {c : Conn} {w : World}

theorem length_store {buf : RecvBuffer} {new : Bytes} (h : new.length ≤ buf.free.length) :
    (buf.store new).mem.length = buf.mem.length := by
  simp only [RecvBuffer.mem, RecvBuffer.store, List.length_append, List.length_drop]
  omega

theorem length_consume {buf : RecvBuffer} {n : Nat} (h : n ≤ buf.received.length) :
    (buf.consume n).mem.length = buf.mem.length := by
  simp only [RecvBuffer.mem, RecvBuffer.consume, List.length_append, List.length_drop]
  omega

/-- `mqtt_pal_recvall` returns no more than it was asked for. -/
theorem returns_mqttPalRecvallLoop (c : Conn) : ∀ fuel bufsz acc,
    Returns (mqttPalRecvallLoop c fuel bufsz acc)
      fun r _ => ∀ bs, r = some bs → bs.length ≤ acc.length + bufsz := by
  intro fuel
  induction fuel with
  | zero => exact fun _ _ => Returns.throw _ _
  | succ fuel ih =>
      intro bufsz acc
      unfold mqttPalRecvallLoop
      refine Returns.bind fun _ => Returns.bind fun answer => ?_
      cases answer with
      | data bs =>
          refine .ite (fun _ => Returns.throw _ _) fun hle => .ite (fun heq => ?_) fun hne => ?_
          · refine Returns.pure fun _ bs' h => ?_
            cases h
            rw [List.length_append]
            omega
          · refine Triple.weaken (ih _ _) ?_ fun _ _ h => h
            intro r _ h bs' hbs'
            have hbs := h bs' hbs'
            rw [List.length_append] at hbs
            omega
      | wantRead =>
          refine Returns.pure fun _ bs' h => ?_
          cases h
          exact Nat.le_add_right _ _
      | wantOther => exact ih bufsz acc
      | failed =>
          refine Returns.pure fun _ bs' h => ?_
          cases h

theorem returns_mqttPalRecvall (c : Conn) (bufsz : Nat) :
    Returns (mqttPalRecvall c bufsz) fun r _ => ∀ bs, r = some bs → bs.length ≤ bufsz := by
  refine Returns.bind fun w => Triple.weaken (returns_mqttPalRecvallLoop c _ bufsz []) ?_
    fun _ _ => id
  intro r _ h bs hbs
  simpa using h bs hbs

/-- The receive buffer of `c` has the size `mqtt_init` gave it. -/
def BufferSized (c : Conn) (w : World) : Prop :=
  (w.conn c).mqclt.recv_buffer.mem.length = bufRecvSize

theorem bufferSized_setClient {cl : Client} (h : cl.recv_buffer.mem.length = bufRecvSize) :
    BufferSized c (w.setClient c cl) := by
  rwa [BufferSized, conn_setClient_same]

theorem bufferSized_setError (c : Conn) (e : MqttErrors) {α : Type} (a : α) :
    Triple (BufferSized c) (do
      setError c e
      return a) (fun _ => BufferSized c) fun _ _ => True :=
  Triple.bind (Q := fun _ => BufferSized c) (.modify fun _ hw => bufferSized_setClient hw)
    fun _ => .pure fun _ => id

theorem bufferSized_io (c : Conn) : IoRules c (Preserves (BufferSized c)) :=
  ⟨fun _ _ => id, fun _ _ => id⟩

/-- A round of `__mqtt_recv` leaves the buffer as long as it is, whatever the
callback does: the buffer is stored again behind the call. -/
theorem bufferSized_mqttRecvStep (cb : PublishCallback) (c : Conn) :
    Triple (BufferSized c) (mqttRecvStep cb c) (fun _ => BufferSized c) fun _ _ => True := by
  unfold mqttRecvStep
  intro w hw
  rw [bind_of_ok (rfl : getClient c w = .ok (w.conn c).mqclt w)]
  have hread : Ends (fun r t => BufferSized c t ∧
      ∀ bs, r = some bs → bs.length ≤ (w.conn c).mqclt.recv_buffer.free.length) (fun _ _ => True)
      (mqttPalRecvall c (w.conn c).mqclt.recv_buffer.free.length w) := by
    have hsame := ((bufferSized_io c).mqttPalRecvall (S := fun _ _ => True)
      (w.conn c).mqclt.recv_buffer.free.length).triple w hw
    have hlen := returns_mqttPalRecvall c (w.conn c).mqclt.recv_buffer.free.length w trivial
    exact (hsame.and hlen).mono (fun _ _ => id) fun _ _ _ => trivial
  refine Ends.bind hread (fun r t _ ht => ?_) fun _ _ h => h
  obtain ⟨hsized, hlen⟩ := ht
  cases r with
  | none => exact bufferSized_setError c .socketError _ t hsized
  | some new =>
      have hbuf : ((w.conn c).mqclt.recv_buffer.store new).mem.length = bufRecvSize :=
        (length_store (hlen new rfl)).trans hw
      refine Triple.bind (P := fun _ => True) (Q := fun _ => BufferSized c)
        (.modify fun _ _ => bufferSized_setClient hbuf) (fun _ => ?_) t trivial
      rcases mqttUnpackResponse ((w.conn c).mqclt.recv_buffer.store new).mem
          ((w.conn c).mqclt.recv_buffer.store new).received.length with (e | f) | _ | rc
      · exact bufferSized_setError c e _
      · exact .throw fun _ _ => trivial
      · exact .ite (fun _ => bufferSized_setError c _ _) fun _ => .pure fun _ => id
      · refine Triple.strengthen (P := fun _ => True) (Returns.bind fun ret => ?_)
          fun _ _ => trivial
        refine .ite (fun _ => Returns.fault _ _) fun hconsumed => ?_
        refine Triple.bind (Q := fun _ => BufferSized c) (.modify fun _ _ => ?_) fun _ =>
          .pure fun _ => id
        exact bufferSized_setClient ((length_consume (by omega)).trans hbuf)

end Buffer

/-! ## What reaches the callback -/

/-- What a round of `__mqtt_recv` started in `w` calls the callback with: the
receive buffer and the PUBLISH. The bytes `behind` follow `recvbuf` in memory. -/
def toCallback (c : Conn) (behind : Bytes) (w : World) : Option (RecvBuffer × ResponsePublish) :=
  match mqttPalRecvall c (w.conn c).mqclt.recv_buffer.free.length w with
  | .ok (some new) t =>
      let buf := (w.conn c).mqclt.recv_buffer.store new
      match mqttUnpackResponse (buf.mem ++ behind) buf.received.length with
      | .ok (some (.publish p, _)) =>
          if (handlePublish { (t.conn c).mqclt with recv_buffer := buf } p).1 then some (buf, p)
          else none
      | _ => none
  | _ => none

/-- The worlds in which a round begins, once `__mqtt_recv` is called in `w`. -/
abbrev Rounds (c : Conn) : World → World → Prop :=
  ReflTransGen fun u v => mqttRecvStep (publishCallback c) c u = .ok none v

/-- The callback is called with these arguments while `__mqtt_recv`, called in
`w`, works its way through the stream. -/
def HandsOver (c : Conn) (behind : Bytes) (w : World) (buf : RecvBuffer)
    (p : ResponsePublish) : Prop :=
  ∃ u, Rounds c w u ∧ toCallback c behind u = some (buf, p)

section Rounds

variable {c : Conn} {w u : World} {buf : RecvBuffer} {p : ResponsePublish} {behind : Bytes}

theorem handleResponse_congr {cb cb' : PublishCallback} {mem : Bytes} {r : Response}
    (h : ∀ p, r = .publish p → (handlePublish (w.conn c).mqclt p).1 = true →
      cb mem p = cb' mem p) : handleResponse cb c mem r w = handleResponse cb' c mem r w := by
  unfold handleResponse
  rw [bind_of_ok (rfl : getClient c w = .ok (w.conn c).mqclt w),
    bind_of_ok (rfl : getClient c w = .ok (w.conn c).mqclt w)]
  cases r with
  | publish p =>
      have hp := h p rfl
      rcases hcall : handlePublish (w.conn c).mqclt p with ⟨call, ret, cl⟩
      rw [hcall] at hp
      simp only [hcall]
      cases call with
      | true => rw [hp rfl]
      | false => rfl
  | _ => rfl

/-- The callback is called with nothing else: a callback that does the same
with it makes the same round. -/
theorem mqttRecvStep_congr {cb cb' : PublishCallback}
    (h : ∀ buf p, toCallback c [] w = some (buf, p) → cb buf.mem p = cb' buf.mem p) :
    mqttRecvStep cb c w = mqttRecvStep cb' c w := by
  unfold mqttRecvStep
  rw [bind_of_ok (rfl : getClient c w = .ok (w.conn c).mqclt w),
    bind_of_ok (rfl : getClient c w = .ok (w.conn c).mqclt w), bind_apply, bind_apply]
  simp only [toCallback, List.append_nil] at h
  cases hread : mqttPalRecvall c (w.conn c).mqclt.recv_buffer.free.length w with
  | error e t => rfl
  | ok r t =>
      cases r with
      | none => rfl
      | some new =>
          rw [hread] at h
          dsimp only at h ⊢
          rw [bind_of_ok (rfl : modifyClient c _ t = .ok () _),
            bind_of_ok (rfl : modifyClient c _ t = .ok () _)]
          rcases hr : mqttUnpackResponse ((w.conn c).mqclt.recv_buffer.store new).mem
            ((w.conn c).mqclt.recv_buffer.store new).received.length with (e | f) | _ | ⟨r, n⟩
          · rfl
          · rfl
          · rfl
          · have hresponse : ∀ v : World, (v.conn c).mqclt =
                { (t.conn c).mqclt with recv_buffer := (w.conn c).mqclt.recv_buffer.store new } →
                handleResponse cb c ((w.conn c).mqclt.recv_buffer.store new).mem r v =
                  handleResponse cb' c ((w.conn c).mqclt.recv_buffer.store new).mem r v := by
              intro v hv
              refine handleResponse_congr fun p hp hcall => h _ p ?_
              subst hp
              rw [hv] at hcall
              simp only [hr, hcall, ↓reduceIte]
            dsimp only
            rw [bind_apply, bind_apply, hresponse _ (by rw [conn_setClient_same])]

/-- From round to round. -/
theorem mqttRecvLoop_congr {cb : PublishCallback} : ∀ fuel {w : World},
    (∀ buf p, HandsOver c [] w buf p → cb buf.mem p = publishCallback c buf.mem p) →
    mqttRecvLoop cb c fuel w = mqttRecvLoop (publishCallback c) c fuel w := by
  intro fuel
  induction fuel with
  | zero => exact fun _ => rfl
  | succ fuel ih =>
      intro w h
      have hround : mqttRecvStep cb c w = mqttRecvStep (publishCallback c) c w :=
        mqttRecvStep_congr fun buf p hp => h buf p ⟨w, .refl, hp⟩
      unfold mqttRecvLoop
      rw [bind_apply, bind_apply, hround]
      cases hr : mqttRecvStep (publishCallback c) c w with
      | error e t => rfl
      | ok r t =>
          cases r with
          | some ret => rfl
          | none =>
              refine ih fun buf p hp => ?_
              obtain ⟨u, hrounds, hcall⟩ := hp
              exact h buf p ⟨u, .head hr hrounds, hcall⟩

/-- `HandsOver` misses no call: another callback that agrees on what is handed
over makes no difference. -/
theorem mqttRecv_congr {cb : PublishCallback}
    (h : ∀ buf p, HandsOver c [] w buf p → cb buf.mem p = publishCallback c buf.mem p) :
    mqttRecv cb c w = mqttRecv (publishCallback c) c w :=
  mqttRecvLoop_congr _ h

end Rounds

/-! ## Every connection of a run -/

section Run

variable {c : Conn} {w t u v : World}

theorem bufferSized_of_conn (h : t.conn c = w.conn c) (hw : BufferSized c w) :
    BufferSized c t := by
  rwa [BufferSized, h]

/-- Packing a packet does not touch what was received. -/
theorem bufferSized_packAndRegister {cl : Client} {pack_call : Option Nat → PackResult}
    (hneg : NegErrors pack_call) {control_type : ControlType} {packet_id seqno : Option Nat}
    (h : cl.recv_buffer.mem.length = bufRecvSize) :
    (packAndRegister cl pack_call control_type packet_id seqno).2.recv_buffer.mem.length =
      bufRecvSize := by
  rwa [packAndRegister_recv_buffer cl hneg]

theorem bufferSized_mqttSend (c : Conn) :
    Within (Preserves (BufferSized c)) (fun _ _ => True) (mqttSend c) := by
  have hrules : SendRules c (Preserves (BufferSized c)) := by
    constructor
    · exact bufferSized_io c
    · intro w cl _ _ hbuf hw
      exact bufferSized_setClient (hbuf ▸ hw)
    · intro w i m state now _ _ hw
      exact bufferSized_setClient hw
  refine hrules.mqttSend fun w hw => bufferSized_setClient ?_
  exact bufferSized_packAndRegister (negErrors_packFixedHeader _) hw

theorem bufferSized_mqttRecvLoop (cb : PublishCallback) (c : Conn) : ∀ fuel,
    Triple (BufferSized c) (mqttRecvLoop cb c fuel) (fun _ => BufferSized c) fun _ _ => True := by
  intro fuel
  induction fuel with
  | zero => exact .throw fun _ _ => trivial
  | succ fuel ih =>
      refine Triple.bind (bufferSized_mqttRecvStep cb c) fun r => ?_
      cases r with
      | some ret => exact .pure fun _ => id
      | none => exact ih

theorem bufferSized_agSync {e : MqttErrors} (hw : BufferSized c w) (h : agSync c w = .ok e t) :
    BufferSized c t := by
  have hrest : Triple (BufferSized c) (do
      let err ← mqttRecv (publishCallback c) c
      if err ≠ .ok then return err
      else mqttSend c) (fun _ => BufferSized c) fun _ _ => True := by
    refine Triple.bind (Q := fun _ => BufferSized c) ?_ fun err =>
      .ite (fun _ => .pure fun _ => id) fun _ => (bufferSized_mqttSend c).triple
    exact fun w hw => bufferSized_mqttRecvLoop _ c (w.env.reads.length + 1) w hw
  have hsync : Triple (BufferSized c) (agSync c) (fun _ => BufferSized c) fun _ _ => True := by
    refine Triple.bind (Q := fun _ => BufferSized c) (fun _ hw => hw) fun cl => ?_
    refine .ite (fun _ => ?_) fun _ => hrest
    exact Triple.bind (Q := fun _ => BufferSized c)
      (.modify fun _ hw => bufferSized_setClient hw) fun _ => hrest
  exact hsync.of_ok hw h

/-- Right behind `mqtt_init` and `mqtt_connect`. -/
theorem bufferSized_connected (w : World) (c : Conn) (connfd : Nat) :
    BufferSized c (w.connected c connfd) := by
  obtain ⟨packed, hcl⟩ := client_connected w c connfd
  rw [BufferSized, hcl]
  simp only [mqttInit, RecvBuffer.mem, List.nil_append, List.length_take, List.length_append,
    List.length_replicate]
  omega

theorem bufferSized_subscribeOf (hw : BufferSized c w) (h : subscribeOf c w = .ok () t) :
    BufferSized c t := by
  cases c with
  | mqupld =>
      cases h
      exact hw
  | mqrecv =>
      change subscribeTopicrecv w = .ok () t at h
      unfold subscribeTopicrecv at h
      rw [bind_of_ok (rfl : getConn .mqrecv w = .ok (w.conn .mqrecv) w)] at h
      cases hs : mqttSubscribe (w.conn .mqrecv).mqclt (w.conn .mqrecv).topicrecv.str 0 with
      | error f =>
          rw [hs] at h
          cases h
      | ok r =>
          obtain ⟨pid, rfl⟩ := mqttSubscribe_ok hs
          rw [hs] at h
          cases h
          exact bufferSized_setClient (bufferSized_packAndRegister (negErrors_packWith _ _) hw)

theorem ConnStep.bufferSized (h : ConnStep c w t)
    (hw : (w.conn c).biofd.isSome = true → BufferSized c w)
    (hbio : (t.conn c).biofd.isSome = true) : BufferSized c t := by
  cases h with
  | same ht _ =>
      rw [ht] at hbio
      exact bufferSized_of_conn ht (hw hbio)
  | synced hu _ hr ht _ =>
      rw [ht, ((frame_agSync c).of_ok hr).biofd, hu] at hbio
      exact bufferSized_of_conn ht (bufferSized_agSync (bufferSized_of_conn hu (hw hbio)) hr)
  | @published p r _ hr _ ht _ =>
      rw [ht] at hbio
      obtain ⟨-, pid, rfl⟩ := mqttPublish_ok hr
      rw [BufferSized, ht]
      exact bufferSized_packAndRegister (negErrors_packPublishRequest _ _ _ _) (hw hbio)
  | down hnone _ =>
      rw [hnone] at hbio
      cases hbio
  | failed _ _ hr _ ht =>
      exact bufferSized_of_conn ht (bufferSized_agSync (bufferSized_connected _ c _) hr)
  | up _ _ _ hr hsub ht _ =>
      have hx := bufferSized_subscribeOf (bufferSized_agSync (bufferSized_connected _ c _) hr) hsub
      rw [BufferSized, ht]
      exact hx

/-- Between two dispatches every open connection has its 2048 bytes. -/
theorem bufferSized_between {C : World → Dispatch → Prop} (h : Between C w) (c : Conn)
    (hbio : (w.conn c).biofd.isSome = true) : BufferSized c w := by
  refine Reaches.invariant (I := fun w => (w.conn c).biofd.isSome = true → BufferSized c w)
    ?_ ?_ h hbio
  · rintro w ⟨arg, agent, sock, clock, env, hcfg, rfl⟩ hbio
    rw [World.conn, started, (hcfg.zeroed.2.2 c).1] at hbio
    cases hbio
  · intro d s t hs _ hr
    have hend := dispatch_ends d s
    rw [hr] at hend
    exact (DispatchEnd.connStep (c := c) hend).bufferSized hs

end Run

/-- A receiver that has just been opened, and what it is going to read. -/
def opened (reads : List BioRead) : World :=
  { boot.connected .mqrecv 5 with env := { quiet with reads } }

/-- The packet id of this one is read behind `recvbuf`. -/
example : (toCallback .mqrecv (List.replicate 958 7)
    (opened [.data [0x32, 6, 0x0B, 0xB8, 97, 98, 99, 100], .wantRead])).map
      (·.2.topic_name_size) = some 3000 := by decide +kernel

end Admlink
