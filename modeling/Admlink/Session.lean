import Admlink.ConnSteps

/-!
# The receiver's session

`check_mqrecv` queues the CONNECT, synchronises once and queues the SUBSCRIBE
without looking at the result. By then the client has no error and the queue
holds the CONNECT and at most a PINGREQ, as long as the broker has sent no
PUBLISH: so the SUBSCRIBE is queued. It stays until its SUBACK arrives.
-/

namespace Admlink

open Program Relation Runs World

/-! ## Traces of a session -/

/-- A PUBLISH from the broker on connection `c`. -/
def Event.isPublishOn (c : Conn) : Event → Bool
  | .packet d (.publish _) _ => d = c
  | _ => false

/-- The SUBACK for packet id `pid` on connection `c`. -/
def Event.isSubackOn (c : Conn) (pid : Nat) : Event → Bool
  | .packet d (.suback pid' _) _ => d = c ∧ pid' = pid
  | _ => false

/-- In a dispatch that begins a session of the receiver, which ends with its
SUBSCRIBE, the broker sends no PUBLISH on it. -/
def NoEarlyPublish (w : World) (d : Dispatch) : Prop :=
  .mqttInit .mqrecv ∈ newEvents w d → ∀ e ∈ newEvents w d, e.isPublishOn .mqrecv = false

instance (w : World) (d : Dispatch) : Decidable (NoEarlyPublish w d) := by
  unfold NoEarlyPublish; infer_instance

/-- `P` holds of the events since `base` and of the client of `c` as it is. -/
def Since (c : Conn) (base : List Event) (P : List Event → Client → Prop) (w : World) : Prop :=
  ∃ new, w.trace = new ++ base ∧ P new (w.conn c).mqclt

section Since

variable {c : Conn} {base : List Event} {P Q : List Event → Client → Prop} {w t : World}

theorem Since.step (h : Since c base P w) (added : List Event) (ht : t.trace = added ++ w.trace)
    (hP : ∀ new, P new (w.conn c).mqclt → Q (added ++ new) (t.conn c).mqclt) :
    Since c base Q t := by
  obtain ⟨new, hw, hnew⟩ := h
  exact ⟨added ++ new, by rw [ht, hw, List.append_assoc], hP new hnew⟩

/-- Events alone change nothing. -/
def Weakens (P : List Event → Client → Prop) : Prop :=
  ∀ added new cl, P new cl → P (added ++ new) cl

theorem Since.setClient (h : Since c base P w) {cl : Client}
    (hP : ∀ new, P new (w.conn c).mqclt → Q new cl) : Since c base Q (w.setClient c cl) := by
  refine h.step [] rfl fun new hnew => ?_
  rw [conn_setClient_same]
  exact hP new hnew

theorem Since.io (hweak : Weakens P) : IoRules c (Preserves (Since c base P)) where
  env w _ h := h.step [] rfl fun _ hnew => hnew
  io w _ h := h.step [_] rfl fun new hnew => by
    rw [conn_log]
    exact hweak [_] new _ hnew

theorem Since.sendRules (hweak : Weakens P)
    (hclient : ∀ new (cl cl' : Client), cl'.mq = cl.mq → P new cl → P new cl')
    (hsent : ∀ new (cl : Client) i m state (now : Nat), cl.entries[i]? = some m →
      stateAfterSend m = some state → P new cl → P new (cl.setEntries
        (cl.entries.set i { m with start := markDup m, state, time_sent := now }))) :
    SendRules c (Preserves (Since c base P)) where
  toIoRules := Since.io hweak
  client _ _ hmq _ _ h := h.setClient fun new => hclient new _ _ hmq
  sent _ _ _ _ now hm hs h := h.setClient fun new => hsent new _ _ _ _ now hm hs

theorem Since.recvRules (hweak : Weakens P)
    (hclient : ∀ new (cl cl' : Client), cl'.mq = cl.mq → P new cl → P new cl')
    (hpacket : ∀ new (cl : Client) r, P new cl →
      P (.packet c r (ackedSeqno cl r) :: new) (afterPacket cl r)) :
    RecvRules c (Preserves (Since c base P)) (fun _ _ => True) where
  toIoRules := Since.io hweak
  client _ _ hmq _ h := h.setClient fun new => hclient new _ _ hmq
  packet w r h := by
    refine h.step [.packet c r (ackedSeqno (w.conn c).mqclt r)] rfl fun new hnew => ?_
    rw [conn_setClient_same]
    exact hpacket new _ r hnew
  deliver msg w t hr h := by
    have hframe := frame_admlinkMsgHandle c msg w
    rw [hr] at hframe
    obtain ⟨added, ht, -⟩ := Frame.logs hframe
    refine h.step added ht fun new hnew => ?_
    rw [MsgPath.conn (Within.of_ok (path_admlinkMsgHandle msg) hr) c]
    exact hweak added new _ hnew
  stop _ _ _ _ _ := trivial

end Since

/-! ## The two packets of a session -/

/-- The length bytes of a body under 16384 bytes. -/
def lengthBytes (n : Nat) : Bytes :=
  if n < 128 then [UInt8.ofNat n] else [UInt8.ofNat (n % 128 + 128), UInt8.ofNat (n / 128)]

/-- CONNECT of MQTT 3.1.1: a clean session, 60 seconds of keep alive, the client id. -/
def connectPacket (client_id : Bytes) : Bytes :=
  [0x10] ++ lengthBytes (12 + client_id.length) ++ [0, 4, 77, 81, 84, 84, 4, 2, 0, 60] ++
    [0, UInt8.ofNat client_id.length] ++ client_id

/-- SUBSCRIBE: the packet id, one topic, quality of service 0. -/
def subscribePacket (pid : Nat) (topic : Bytes) : Bytes :=
  [0x82] ++ lengthBytes (5 + topic.length) ++ [UInt8.ofNat (pid / 256), UInt8.ofNat pid] ++
    [0, UInt8.ofNat topic.length] ++ topic ++ [0]

theorem packRemainingLength_lengthBytes {n : Nat} (h : n < 16384) :
    packRemainingLength 4 n = lengthBytes n := by
  unfold lengthBytes packRemainingLength
  by_cases hn : n < 128
  · rw [if_pos (by omega), if_pos hn]
  · rw [if_neg (by omega), if_neg hn, packRemainingLength, if_pos (by omega)]

theorem length_connectPacket (client_id : Field 128) :
    (connectPacket client_id.str).length ≤ 145 := by
  have hfits := client_id.fits
  have hlen : (lengthBytes (12 + client_id.str.length)).length ≤ 2 := by
    unfold lengthBytes
    split <;> simp
  simp only [connectPacket, List.length_append, List.length_cons, List.length_nil]
  omega

theorem mqttPackStr_field (str : Field 128) :
    mqttPackStr str.str = [0, UInt8.ofNat str.str.length] ++ str.str := by
  have hfits := str.fits
  have hzero : str.str.length / 256 = 0 := by omega
  rw [mqttPackStr_short (by omega), mqttPackUint16, hzero]
  rfl

/-- The CONNECT as it is packed. -/
theorem packConnection_bytes {room : Option Nat} {client_id : Field 128} {packed : Bytes}
    (h : mqttPackConnectionRequest room client_id.str connectCleanSession 60 =
      .ok (some packed)) : packed = connectPacket client_id.str := by
  have hfits := client_id.fits
  unfold mqttPackConnectionRequest at h
  rw [if_neg (by simp [connectCleanSession]), toU32_of_lt (by omega)] at h
  have hname : bytes "MQTT" = [77, 81, 84, 84] := by decide +kernel
  rw [packWith_some h, fixedHeaderBytes, packRemainingLength_lengthBytes (by simp only; omega),
    mqttPackStr_field, hname, connectPacket,
    show 12 + client_id.str.length = 10 + (2 + client_id.str.length) by omega]
  simp [ControlType.code, connectCleanSession, mqttPackUint16]

/-- The SUBSCRIBE as it is packed. -/
theorem packSubscribe_bytes {room : Option Nat} {pid : Nat} {topic : Field 128} {packed : Bytes}
    (h : mqttPackSubscribeRequest room pid topic.str 0 = .ok (some packed)) :
    packed = subscribePacket pid topic.str := by
  have hfits := topic.fits
  rw [mqttPackSubscribeRequest, toU32_of_lt (by omega)] at h
  rw [packWith_some h, fixedHeaderBytes, packRemainingLength_lengthBytes (by simp only; omega),
    mqttPackStr_field, subscribePacket,
    show 5 + topic.str.length = 2 + (2 + topic.str.length + 1) by omega]
  simp [ControlType.code, mqttPackUint16]

/-! ## The queue during the first synchronisation -/

section First

variable {fd : Type} {cl cl' : MqttClient fd} {client_id : Field 128}

/-- The queue holds the CONNECT and nothing else. -/
def OnlyConnect (client_id : Field 128) (cl : MqttClient fd) : Prop :=
  ∃ m, m.control_type = .connect ∧ m.start = connectPacket client_id.str ∧
    cl.mq = some ⟨bufSendSize, [m]⟩

/-- A PINGREQ may have been queued behind it. -/
def ConnectQueued (client_id : Field 128) (cl : MqttClient fd) : Prop :=
  ∃ m mid, m.control_type = .connect ∧ m.start = connectPacket client_id.str ∧
    (∀ p ∈ mid, p.control_type = .pingreq) ∧
    cl.mq = some ⟨bufSendSize, m :: mid⟩ ∧ mid.length ≤ 1 ∧
      ((m :: mid).map (·.start.length)).sum ≤ 147

namespace OnlyConnect

theorem of_mq (h : cl'.mq = cl.mq) (hcl : OnlyConnect client_id cl) :
    OnlyConnect client_id cl' := by
  rwa [OnlyConnect, h]

theorem control_type (hcl : OnlyConnect client_id cl) {i : Nat} {m : QueuedMessage}
    (hm : cl.entries[i]? = some m) : m.control_type = .connect := by
  obtain ⟨n, hconnect, -, hmq⟩ := hcl
  have hmem := List.mem_of_getElem? hm
  rw [MqttClient.entries, hmq] at hmem
  rw [List.mem_singleton.mp hmem]
  exact hconnect

theorem set {i : Nat} {m m' : QueuedMessage} (hm : cl.entries[i]? = some m)
    (htype : m'.control_type = m.control_type) (hstart : m'.start = m.start)
    (hcl : OnlyConnect client_id cl) :
    OnlyConnect client_id (cl.setEntries (cl.entries.set i m')) := by
  obtain ⟨n, hconnect, hpacket, hmq⟩ := hcl
  have hentries : cl.entries = [n] := by rw [MqttClient.entries, hmq]
  rw [hentries] at hm
  obtain rfl : i = 0 := by
    by_contra hi
    rw [List.getElem?_eq_none (by simp; omega)] at hm
    cases hm
  cases hm
  refine ⟨m', htype.trans hconnect, hstart.trans hpacket, ?_⟩
  rw [MqttClient.setEntries, hentries, hmq]
  rfl

/-- No packet but a PUBLISH makes the client queue anything. -/
theorem afterPacket {r : Response} (hr : r.acks ≠ none) (hcl : OnlyConnect client_id cl) :
    OnlyConnect client_id (afterPacket cl r) := by
  cases packetDone cl r with
  | same h => exact hcl.of_mq h
  | publish h _ => exact absurd h hr
  | @release control_type packet_id m _ _ hrelease h =>
      obtain ⟨i, hm, hmatch, rfl⟩ := release_eq hrelease
      have hset : OnlyConnect client_id
          (cl.setEntries (cl.entries.set i { m with state := .complete })) :=
        hcl.set hm rfl rfl
      rcases h with h | ⟨htype, -⟩
      · exact hset.of_mq h
      · -- nothing but the CONNECT is there to be acknowledged
        have hconnect := hcl.control_type hm
        simp only [mqttMqMatches, Bool.and_eq_true, decide_eq_true_eq] at hmatch
        rw [← hmatch.1, hconnect] at htype
        rcases htype with h | h <;> cases h

theorem markDup {m : QueuedMessage} (h : m.control_type = .connect) :
    Admlink.markDup m = m.start := by
  unfold Admlink.markDup
  rw [h]

theorem connectQueued (hcl : OnlyConnect client_id cl) : ConnectQueued client_id cl := by
  obtain ⟨m, htype, hpacket, hmq⟩ := hcl
  have hlen := length_connectPacket client_id
  rw [← hpacket] at hlen
  refine ⟨m, [], htype, hpacket, by simp, hmq, by simp, ?_⟩
  simp only [List.map_cons, List.map_nil, List.sum_cons, List.sum_nil]
  omega

/-- `__mqtt_ping` finds room behind the CONNECT. -/
theorem ping (hcl : OnlyConnect client_id cl) (herror : cl.error.neg = false) :
    ConnectQueued client_id (mqttPing cl).2 := by
  obtain ⟨m, htype, hpacket, hmq⟩ := hcl
  have hlen := length_connectPacket client_id
  rw [← hpacket] at hlen
  have hroom : cl.room = some (bufSendSize - sizeofQueuedMessage * 2 - m.start.length) := by
    rw [MqttClient.room, hmq]
    rfl
  have hfits : mqttPackPingRequest cl.room = .ok (some [192, 0]) := by
    have hrule : mqttFixedHeaderRuleViolation ⟨ControlType.pingreq.code, 0, 0⟩ = none := rfl
    have hbytes : fixedHeaderBytes ⟨ControlType.pingreq.code, 0, 0⟩ = [192, 0] := rfl
    rw [hroom, mqttPackPingRequest, mqttPackFixedHeader]
    simp only [hrule, hbytes, bufSendSize, sizeofQueuedMessage, List.length_cons, List.length_nil]
    rw [if_neg (by omega), if_neg (by omega), if_neg (by omega)]
  have hping : mqttPing cl = (.ok, cl.register [192, 0] .pingreq none none) :=
    packAndRegister_fits herror hfits .pingreq none none
  rw [hping]
  refine ⟨m, [.new [192, 0] .pingreq none none cl.leftover], htype, hpacket, by simp, ?_,
    by simp, ?_⟩
  · rw [MqttClient.register, hmq]
    rfl
  · simp only [List.map_cons, List.map_nil, List.sum_cons, List.sum_nil,
      QueuedMessage.start_new, List.length_cons, List.length_nil]
    omega

end OnlyConnect

end First

section FirstSync

variable {c : Conn} {base : List Event} {w t : World}

/-- `OnlyConnect`, if since `base` the broker has sent no PUBLISH. -/
def UnlessPublish (c : Conn) (Q : Client → Prop) (new : List Event) (cl : Client) : Prop :=
  (∀ e ∈ new, e.isPublishOn c = false) → Q cl

theorem UnlessPublish.weakens (Q : Client → Prop) : Weakens (UnlessPublish c Q) :=
  fun added _ _ h hno => h fun e he => hno e (List.mem_append_right added he)

theorem onlyConnect_recvRules (client_id : Field 128) (c : Conn) (base : List Event) :
    RecvRules c (Preserves (Since c base (UnlessPublish c (OnlyConnect client_id))))
      (fun _ _ => True) := by
  refine Since.recvRules (UnlessPublish.weakens _) ?_ ?_
  · intro new cl cl' hmq h hno
    exact (h hno).of_mq hmq
  · intro new cl r h hno
    refine (h fun e he => hno e (List.mem_cons_of_mem _ he)).afterPacket ?_
    intro hacks
    have hpacket := hno _ (List.mem_cons_self ..)
    cases r with
    | publish p => simp [Event.isPublishOn] at hpacket
    | _ => cases hacks

theorem onlyConnect_sendRules (client_id : Field 128) (c : Conn) (base : List Event) :
    SendRules c (Preserves (Since c base (UnlessPublish c (OnlyConnect client_id)))) := by
  refine Since.sendRules (UnlessPublish.weakens _) ?_ ?_
  · intro new cl cl' hmq h hno
    exact (h hno).of_mq hmq
  · intro new cl i m state now hm _ h hno
    exact (h hno).set hm rfl (OnlyConnect.markDup ((h hno).control_type hm))

theorem connectQueued_checkKeepAlive (client_id : Field 128) (c : Conn) (base : List Event) :
    Triple (Since c base (UnlessPublish c (OnlyConnect client_id))) (checkKeepAlive c)
      (fun e w => e = .ok → Since c base (UnlessPublish c (ConnectQueued client_id)) w)
      (fun _ _ => True) := by
  have hqueued : ∀ w, Since c base (UnlessPublish c (OnlyConnect client_id)) w →
      Since c base (UnlessPublish c (ConnectQueued client_id)) w := by
    rintro w ⟨new, hw, hnew⟩
    exact ⟨new, hw, fun hno => (hnew hno).connectQueued⟩
  refine Triple.bind (Q := fun _ => Since c base (UnlessPublish c (OnlyConnect client_id)))
    (fun w hw => hw) fun cl => ?_
  refine (Since.io (UnlessPublish.weakens _)).mqttPalTime.triple.bind fun now =>
    .ite (fun _ => ?_) fun _ => .pure fun w hw _ => hqueued w hw
  intro w hw hok
  refine Since.setClient (Q := UnlessPublish c (ConnectQueued client_id)) hw fun new hnew hno =>
    (hnew hno).ping ?_
  by_contra hneg
  have hfailed : mqttPing (w.conn c).mqclt = ((w.conn c).mqclt.error, (w.conn c).mqclt) :=
    packAndRegister_of_neg (by simpa using hneg) _ _ _ _
  rw [hfailed] at hok
  rw [show (w.conn c).mqclt.error = .ok from hok] at hneg
  exact hneg rfl

/-- After the first synchronisation the CONNECT is queued, and no PUBLISH. -/
theorem connectQueued_agSync (client_id : Field 128) (c : Conn) (base : List Event) :
    Triple (Since c base (UnlessPublish c (OnlyConnect client_id))) (agSync c)
      (fun e w => e = .ok → Since c base (UnlessPublish c (ConnectQueued client_id)) w)
      (fun _ _ => True) := by
  have hloop := fun i todo q =>
    ((onlyConnect_sendRules client_id c base).mqttSendLoop (S := fun _ _ => True) i todo q).triple
  have hqueued : ∀ w, Since c base (UnlessPublish c (OnlyConnect client_id)) w →
      Since c base (UnlessPublish c (ConnectQueued client_id)) w := by
    rintro w ⟨new, hw, hnew⟩
    exact ⟨new, hw, fun hno => (hnew hno).connectQueued⟩
  have hsend : Triple (Since c base (UnlessPublish c (OnlyConnect client_id))) (mqttSend c)
      (fun e w => e = .ok → Since c base (UnlessPublish c (ConnectQueued client_id)) w)
      (fun _ _ => True) := by
    unfold mqttSend
    refine Triple.bind (Q := fun _ => Since c base (UnlessPublish c (OnlyConnect client_id)))
      (fun w hw => hw) fun cl => .ite (fun _ => .pure fun w hw _ => hqueued w hw) fun _ => ?_
    refine (hloop _ _ _).bind fun r => ?_
    cases r with
    | some e => exact .pure fun w hw _ => hqueued w hw
    | none => exact connectQueued_checkKeepAlive client_id c base
  have hrest : Triple (Since c base (UnlessPublish c (OnlyConnect client_id))) (do
      let err ← mqttRecv (publishCallback c) c
      if err ≠ .ok then return err
      else mqttSend c)
      (fun e w => e = .ok → Since c base (UnlessPublish c (ConnectQueued client_id)) w)
      (fun _ _ => True) := by
    refine (onlyConnect_recvRules client_id c base).mqttRecv.triple.bind fun err =>
      .ite (fun _ => .pure fun w hw _ => hqueued w hw) fun _ => hsend
  unfold agSync mqttSync
  refine Triple.bind (Q := fun _ => Since c base (UnlessPublish c (OnlyConnect client_id)))
    (fun w hw => hw) fun cl => .ite (fun _ => ?_) fun _ => hrest
  exact ((onlyConnect_recvRules client_id c base).setError _).triple.bind fun _ => hrest

end FirstSync

/-! ## The SUBSCRIBE is queued -/

/-- The client of a connection that has just been opened. -/
theorem onlyConnect_connected (w : World) (c : Conn) (connfd : Nat) :
    OnlyConnect (w.conn c).cltid ((w.connected c connfd).conn c).mqclt := by
  obtain ⟨packed, hpack⟩ := packConnection_fits (w.conn c).cltid
  rw [World.connected, conn_setConn_same]
  have hconnect : mqttConnect (mqttInit (w.conn c).mqclt (some w.bios) bufSendSize bufRecvSize)
      (w.conn c).cltid.str connectCleanSession 60 = _ :=
    packAndRegister_fits rfl hpack .connect none none
  change OnlyConnect _ (mqttConnect (mqttInit (w.conn c).mqclt (some w.bios) bufSendSize
    bufRecvSize) (w.conn c).cltid.str connectCleanSession 60).2
  rw [hconnect]
  exact ⟨.new packed .connect none none _, rfl, packConnection_bytes hpack, rfl⟩

/-- The queue of a session when the receiver comes up: the CONNECT, no PUBLISH
behind it, and last the SUBSCRIBE for `topicrecv`. -/
def QueuedSession (p : MqConn) (pid : Nat) : Prop :=
  ∃ connect mid leftover,
    connect.control_type = .connect ∧ connect.start = connectPacket p.cltid.str ∧
    (∀ m ∈ mid, m.control_type ≠ .publish) ∧
    p.mqclt.entries = connect :: mid ++
      [.new (subscribePacket pid p.topicrecv.str) .subscribe (some pid) none leftover]

/-- Behind the CONNECT there is room for the SUBSCRIBE. -/
theorem packSubscribe_fits {cl : Client} {client_id : Field 128}
    (hcl : ConnectQueued client_id cl) (topic : Field 128) (pid : Nat) :
    mqttPackSubscribeRequest cl.room pid topic.str 0 =
      .ok (some (subscribePacket pid topic.str)) := by
  obtain ⟨m, mid, -, -, -, hmq, hmid, hsum⟩ := hcl
  suffices hfits : ∃ start, mqttPackSubscribeRequest cl.room pid topic.str 0 =
      .ok (some start) by
    obtain ⟨start, hstart⟩ := hfits
    rw [hstart, packSubscribe_bytes hstart]
  have hroom : cl.room = some (bufSendSize - sizeofQueuedMessage * (mid.length + 2) -
      ((m :: mid).map (·.start.length)).sum) := by
    rw [MqttClient.room, hmq]
    rfl
  have hfits := topic.fits
  have hhdr := (length_fixedHeaderBytes
    ⟨ControlType.subscribe.code, 2, 2 + (2 + topic.str.length + 1)⟩).2
  have hheaders : sizeofQueuedMessage * (mid.length + 2) ≤ 120 := by
    have := Nat.mul_le_mul_left sizeofQueuedMessage (Nat.add_le_add_right hmid 2)
    simpa [sizeofQueuedMessage] using this
  rw [hroom, mqttPackSubscribeRequest, toU32_of_lt (by omega),
    packWith_legal rfl (by simp only; omega), if_neg]
  · exact ⟨_, rfl⟩
  · simp only [bufSendSize]
    omega

theorem queued_subscribeTopicrecv {v x : World}
    (hcl : ConnectQueued (v.conn .mqrecv).cltid (v.conn .mqrecv).mqclt)
    (herror : (v.conn .mqrecv).mqclt.error = .ok)
    (h : subscribeTopicrecv v = .ok () x) :
    x.trace = v.trace ∧ ∃ pid, QueuedSession (x.conn .mqrecv) pid := by
  unfold subscribeTopicrecv at h
  rw [bind_of_ok (rfl : getConn .mqrecv v = .ok (v.conn .mqrecv) v)] at h
  cases hs : mqttSubscribe (v.conn .mqrecv).mqclt (v.conn .mqrecv).topicrecv.str 0 with
  | error f =>
      rw [hs] at h
      cases h
  | ok r =>
      obtain ⟨pid, rfl⟩ := mqttSubscribe_ok hs
      rw [hs] at h
      cases h
      refine ⟨rfl, pid, ?_⟩
      have hpack := packSubscribe_fits hcl (v.conn .mqrecv).topicrecv pid
      have hregister : packAndRegister { (v.conn .mqrecv).mqclt with pid_lfsr := pid }
          (mqttPackSubscribeRequest · pid (v.conn .mqrecv).topicrecv.str 0) .subscribe
          (some pid) none = (.ok,
            ({ (v.conn .mqrecv).mqclt with pid_lfsr := pid } : Client).register
              (subscribePacket pid (v.conn .mqrecv).topicrecv.str) .subscribe (some pid) none) :=
        packAndRegister_fits (by simp [herror, MqttErrors.neg]) hpack _ _ _
      -- the CONNECT is alone in the queue, so the SUBSCRIBE comes right behind it
      obtain ⟨m, mid, htype, hstart, hmid, hmq, -, -⟩ := hcl
      refine ⟨m, mid, (v.conn .mqrecv).mqclt.leftover, htype, hstart, fun p hp => ?_, ?_⟩
      · rw [hmid p hp]
        decide
      · change (MqttClient.entries ((v.setClient .mqrecv _).conn .mqrecv).mqclt) = _
        rw [conn_setClient_same, hregister, MqttClient.entries_register]
        · rw [MqttClient.entries, hmq]
          rfl
        · rw [hmq]
          rfl

/-! ## The SUBSCRIBE stays until it is acknowledged -/

section Subscribing

variable {fd : Type} {cl cl' : MqttClient fd} {pid : Nat} {topic : Bytes}

/-- The SUBSCRIBE for `topic` with this packet id is in the queue, without its SUBACK. -/
def Subscribing (pid : Nat) (topic : Bytes) (cl : MqttClient fd) : Prop :=
  ∃ m ∈ cl.entries, m.control_type = .subscribe ∧ m.packet_id = some pid ∧
    m.start = subscribePacket pid topic ∧ m.state ≠ .complete

namespace Subscribing

theorem of_mq (h : cl'.mq = cl.mq) (hcl : Subscribing pid topic cl) :
    Subscribing pid topic cl' := by
  have hentries : cl'.entries = cl.entries := by rw [MqttClient.entries, MqttClient.entries, h]
  rwa [Subscribing, hentries]

theorem clean (hcl : Subscribing pid topic cl) : Subscribing pid topic cl.clean := by
  obtain ⟨m, hm, htype, hpid, hstart, hstate⟩ := hcl
  refine ⟨m, ?_, htype, hpid, hstart, hstate⟩
  rw [MqttClient.entries_clean]
  have hsplit : cl.entries.takeWhile (·.state = .complete) ++
      cl.entries.dropWhile (·.state = .complete) = cl.entries := List.takeWhile_append_dropWhile
  rw [← hsplit] at hm
  rcases List.mem_append.mp hm with hfront | hrest
  · exact absurd (by simpa using List.mem_takeWhile_imp hfront) hstate
  · exact hrest

theorem register (packed : Bytes) (control_type : ControlType) (packet_id seqno : Option Nat)
    (hcl : Subscribing pid topic cl) :
    Subscribing pid topic (cl.register packed control_type packet_id seqno) := by
  obtain ⟨m, hm, hrest⟩ := hcl
  refine ⟨m, ?_, hrest⟩
  have hmq : cl.mq.isSome = true := by
    cases hq : cl.mq with
    | some mq => rfl
    | none =>
        rw [MqttClient.entries, hq] at hm
        cases hm
  rw [MqttClient.entries_register hmq]
  exact List.mem_append_left _ hm

theorem packAndRegister {pack_call : Option Nat → PackResult} (hneg : NegErrors pack_call)
    (control_type : ControlType) (packet_id seqno : Option Nat) (hcl : Subscribing pid topic cl) :
    Subscribing pid topic (packAndRegister cl pack_call control_type packet_id seqno).2 := by
  obtain ⟨cl₀, h₀, ⟨packed, -, h⟩ | ⟨e, -, h⟩⟩ :=
    packAndRegister_cases cl hneg control_type packet_id seqno
  all_goals
    have hbase : Subscribing pid topic cl₀ := by
      rcases h₀ with rfl | rfl
      · exact hcl
      · exact hcl.clean
    rw [h]
  · exact hbase.register packed control_type packet_id seqno
  · exact hbase.of_mq rfl

theorem ackPacked (h : AckPacked cl cl') (hcl : Subscribing pid topic cl) :
    Subscribing pid topic cl' := by
  obtain ⟨control_type, packet_id, -, hpacked⟩ := h
  exact (hcl.packAndRegister (negErrors_packPubxxxRequest control_type packet_id) _ _ _).of_mq
    hpacked

/-- Another message changes, or this one and stays unfinished. -/
theorem set {i : Nat} {m m' : QueuedMessage} (hm : cl.entries[i]? = some m)
    (hsame : m.control_type = .subscribe → m.packet_id = some pid →
      m'.control_type = .subscribe ∧ m'.packet_id = some pid ∧ m'.start = m.start ∧
        m'.state ≠ .complete)
    (hcl : Subscribing pid topic cl) :
    Subscribing pid topic (cl.setEntries (cl.entries.set i m')) := by
  obtain ⟨n, hn, htype, hpid, hstart, hstate⟩ := hcl
  have hentries : (cl.setEntries (cl.entries.set i m')).entries = cl.entries.set i m' := by
    cases hq : cl.mq with
    | some mq => rw [MqttClient.entries, MqttClient.setEntries, hq]; rfl
    | none =>
        rw [MqttClient.entries, hq] at hn
        cases hn
  obtain ⟨j, hj⟩ := List.mem_iff_getElem?.mp hn
  rw [Subscribing, hentries]
  by_cases hij : i = j
  · subst hij
    rw [hm] at hj
    cases hj
    obtain ⟨htype', hpid', hstart', hstate'⟩ := hsame htype hpid
    exact ⟨m', List.mem_set (List.getElem?_eq_some_iff.mp hm).1 _, htype', hpid',
      hstart'.trans hstart, hstate'⟩
  · refine ⟨n, List.mem_iff_getElem?.mpr ⟨j, ?_⟩, htype, hpid, hstart, hstate⟩
    rw [List.getElem?_set_ne hij]
    exact hj

theorem sent {i : Nat} {m : QueuedMessage} {state : QueuedState} (now : Nat)
    (hm : cl.entries[i]? = some m) (hs : stateAfterSend m = some state)
    (hcl : Subscribing pid topic cl) : Subscribing pid topic (cl.setEntries
      (cl.entries.set i { m with start := markDup m, state, time_sent := now })) := by
  refine hcl.set hm fun htype hpid => ⟨htype, hpid, by simp only [markDup, htype], ?_⟩
  rw [stateAfterSend, htype] at hs
  cases hs
  exact fun h => nomatch h

end Subscribing

end Subscribing

/-- The SUBSCRIBE is in the queue, or among the events is its SUBACK. -/
def SubscribedIn (pid : Nat) (topic : Bytes) (new : List Event) (cl : Client) : Prop :=
  Subscribing pid topic cl ∨ ∃ e ∈ new, e.isSubackOn .mqrecv pid = true

section SubscribedIn

variable {pid : Nat} {topic : Bytes} {base : List Event} {w t : World} {cl : Client}

theorem subscribedIn_packet (r : Response) (hcl : Subscribing pid topic cl) :
    SubscribedIn pid topic [.packet .mqrecv r (ackedSeqno cl r)] (afterPacket cl r) := by
  cases packetDone cl r with
  | same h => exact .inl (hcl.of_mq h)
  | publish _ h => exact .inl (hcl.ackPacked h)
  | @release control_type packet_id m _ hacks hrelease h =>
      obtain ⟨i, hm, hmatch, rfl⟩ := release_eq hrelease
      simp only [mqttMqMatches, Bool.and_eq_true, decide_eq_true_eq] at hmatch
      by_cases hack : m.control_type = .subscribe ∧ m.packet_id = some pid
      · right
        obtain ⟨htype, hpid⟩ := hack
        rw [htype] at hmatch
        obtain ⟨rfl, hmatch⟩ := hmatch
        cases r with
        | suback pid' code =>
            cases hacks
            have hsame : pid' = pid := by
              rw [hpid] at hmatch
              simpa using (of_decide_eq_true hmatch).symm
            exact ⟨_, List.mem_singleton_self _, by simp [Event.isSubackOn, hsame]⟩
        | _ => cases hacks
      · have hset : Subscribing pid topic
            (cl.setEntries (cl.entries.set i { m with state := .complete })) :=
          hcl.set hm fun htype hpid => absurd ⟨htype, hpid⟩ hack
        left
        rcases h with h | ⟨-, h⟩
        · exact hset.of_mq h
        · exact hset.ackPacked h

theorem subscribedIn_weakens (pid : Nat) (topic : Bytes) : Weakens (SubscribedIn pid topic) := by
  intro added new cl h
  rcases h with hcl | ⟨e, he, hack⟩
  · exact .inl hcl
  · exact .inr ⟨e, List.mem_append_right added he, hack⟩

theorem SubscribedIn.map {new : List Event} {cl' : Client}
    (hcl : Subscribing pid topic cl → Subscribing pid topic cl')
    (h : SubscribedIn pid topic new cl) : SubscribedIn pid topic new cl' := h.imp_left hcl

/-- A synchronisation leaves the SUBSCRIBE where it is until its SUBACK. -/
theorem subscribedIn_agSync (pid : Nat) (topic : Bytes) (base : List Event) :
    Within (Preserves (Since .mqrecv base (SubscribedIn pid topic))) (fun _ _ => True)
      (agSync .mqrecv) := by
  refine within_agSync (Since.recvRules (subscribedIn_weakens pid topic) ?_ ?_)
    (Since.sendRules (subscribedIn_weakens pid topic) ?_ ?_) fun w h => ?_
  · exact fun _ _ _ hmq => .map (.of_mq hmq)
  · intro new cl r h
    rcases h with hcl | hack
    · rcases subscribedIn_packet r hcl with hcl' | ⟨e, he, hack⟩
      · exact .inl hcl'
      · rw [List.mem_singleton.mp he] at hack
        exact .inr ⟨_, List.mem_cons_self .., hack⟩
    · exact subscribedIn_weakens pid topic [_] new _ (.inr hack)
  · exact fun _ _ _ hmq => .map (.of_mq hmq)
  · exact fun _ _ _ _ _ now hm hs => .map (.sent now hm hs)
  · exact h.setClient fun new => .map (.packAndRegister (negErrors_packFixedHeader _) _ _ _)

end SubscribedIn

/-! ## Sessions over a run -/

/-- `s` ends the dispatch in which the receiver's current session begins, and
in `w` that session goes on. -/
structure Session (pid : Nat) (s w : World) : Prop where
  begun : ∃ r d, Between NoEarlyPublish r ∧ dispatch d r = .ok () s ∧
    .mqttInit .mqrecv ∈ newEvents r d
  queued : QueuedSession (s.conn .mqrecv) pid
  later : Reaches dispatch (· = s) NoEarlyPublish w
  same : SameSession .mqrecv s w
  subscribed : Since .mqrecv s.trace (SubscribedIn pid (s.conn .mqrecv).topicrecv.str) w

/-- A session of the receiver that is subscribed. -/
def SubscribedSession (w : World) : Prop := ∃ pid s, Session pid s w

section Sessions

variable {w t : World} {d : Dispatch}

/-- The dispatch in which the receiver comes up. -/
theorem session_up {u v x : World} {connfd : Nat} (hw : Between NoEarlyPublish w)
    (hr : dispatch d w = .ok () t) (hno : NoEarlyPublish w d)
    (hu : SameSession .mqrecv w u) (hsync : agSync .mqrecv (u.connected .mqrecv connfd) = .ok .ok v)
    (hsub : subscribeTopicrecv v = .ok () x)
    (ht : t.conn .mqrecv = { x.conn .mqrecv with status := 1 })
    (hx : SameSession .mqrecv x t) : ∃ pid, Session pid t t := by
  have hconnected : (u.connected .mqrecv connfd).trace =
      [.mqttInit .mqrecv, .bioNew .mqrecv (u.conn .mqrecv).biofd u.bios u.ctxs,
        .sslCtxNew u.ctxs] ++ u.trace := rfl
  have hfirst : Since .mqrecv (u.connected .mqrecv connfd).trace
      (UnlessPublish .mqrecv (OnlyConnect (u.conn .mqrecv).cltid))
      (u.connected .mqrecv connfd) :=
    ⟨[], rfl, fun _ => onlyConnect_connected u .mqrecv connfd⟩
  have hok : NoError .mqrecv (u.connected .mqrecv connfd) := by
    obtain ⟨packed, hcl⟩ := client_connected u .mqrecv connfd
    rw [NoError, hcl]
  obtain ⟨new, hv, hqueued⟩ := (connectQueued_agSync _ .mqrecv _).of_ok hfirst hsync rfl
  have hcltid : (v.conn .mqrecv).cltid = (u.conn .mqrecv).cltid := by
    rw [((frame_agSync .mqrecv).of_ok hsync).own]
    simp [World.connected]
  have herror : NoError .mqrecv v := (staysOk_agSync .mqrecv).of_ok hok hsync rfl
  -- what the dispatch logs, from the last to the first
  obtain ⟨post, hpost, -⟩ := hx
  obtain ⟨pre, hpre, -⟩ := hu
  have hxv : x.trace = v.trace := by
    unfold subscribeTopicrecv at hsub
    obtain ⟨_, _, hget, hsub⟩ := bind_ok hsub
    cases hget
    obtain ⟨r, v', hfault, hsub⟩ := bind_ok hsub
    cases hsub
    have hsame := orFault_ends (mqttSubscribe (v.conn .mqrecv).mqclt
      (v.conn .mqrecv).topicrecv.str 0) v
    rw [show orFault _ v = .ok r v' from hfault] at hsame
    rw [show v' = v from hsame]
    rfl
  have hnew : newEvents w d = post ++ (new ++ ([.mqttInit .mqrecv,
      .bioNew .mqrecv (u.conn .mqrecv).biofd u.bios u.ctxs, .sslCtxNew u.ctxs] ++ pre)) := by
    have htrace := dispatch_trace d w
    rw [hr] at htrace
    rw [show t.trace = _ from htrace, hxv, hv, hconnected, hpre] at hpost
    refine List.append_cancel_right (hpost.trans ?_)
    simp only [List.append_assoc]
  have hinit : .mqttInit .mqrecv ∈ newEvents w d := by
    rw [hnew]
    simp
  have hsilent : ∀ e ∈ new, e.isPublishOn .mqrecv = false := by
    intro e he
    refine hno hinit e ?_
    rw [hnew]
    exact List.mem_append_right _ (List.mem_append_left _ he)
  rw [← hcltid] at hqueued
  obtain ⟨-, pid, hsession⟩ := queued_subscribeTopicrecv (hqueued hsilent) herror hsub
  have hqueue : QueuedSession (t.conn .mqrecv) pid := by
    rw [ht]
    exact hsession
  refine ⟨pid, ⟨w, d, hw, hr, hinit⟩, hqueue, .start rfl, .of_eq rfl, [], rfl, .inl ?_⟩
  obtain ⟨connect, mid, leftover, -, -, -, hentries⟩ := hqueue
  refine ⟨.new (subscribePacket pid (t.conn .mqrecv).topicrecv.str) .subscribe (some pid) none
    leftover, ?_, rfl, rfl, rfl, by simp⟩
  rw [hentries]
  simp

/-- The session goes on as long as its connection is up. -/
theorem Session.next {pid : Nat} {s : World} (h : Session pid s w) (hr : dispatch d w = .ok () t)
    (hno : NoEarlyPublish w d) (hsame : SameSession .mqrecv w t)
    (hsub : Since .mqrecv s.trace (SubscribedIn pid (s.conn .mqrecv).topicrecv.str) t) :
    Session pid s t where
  begun := h.begun
  queued := h.queued
  later := .next h.later hno hr
  same := h.same.trans hsame
  subscribed := hsub

/-- Events and changes to other members leave the SUBSCRIBE where it is. -/
theorem moved_since {pid : Nat} {topic : Bytes} {base : List Event}
    (hlogs : SameSession .mqrecv w t) (hmq : (t.conn .mqrecv).mqclt.mq = (w.conn .mqrecv).mqclt.mq)
    (h : Since .mqrecv base (SubscribedIn pid topic) w) :
    Since .mqrecv base (SubscribedIn pid topic) t := by
  obtain ⟨added, ht, -⟩ := hlogs
  exact h.step added ht fun new hnew =>
    .map (.of_mq hmq) (subscribedIn_weakens pid topic added new _ hnew)

/-- What every state between two dispatches satisfies. -/
theorem subscribedSession_step (hw : Between NoEarlyPublish w)
    (hold : (w.conn .mqrecv).status = 1 → SubscribedSession w) (hno : NoEarlyPublish w d)
    (hr : dispatch d w = .ok () t) (hup : (t.conn .mqrecv).status = 1) :
    SubscribedSession t := by
  have hend := dispatch_ends d w
  rw [hr] at hend
  cases DispatchEnd.connStep (c := .mqrecv) hend with
  | same ht hlogs =>
      rw [ht] at hup
      obtain ⟨pid, s, h⟩ := hold hup
      exact ⟨pid, s, h.next hr hno hlogs (moved_since hlogs (by rw [ht]) h.subscribed)⟩
  | @synced u v hu hold' hsync ht hnew =>
      have hframe := (frame_agSync .mqrecv).of_ok hsync
      rw [ht, hframe.status, hu] at hup
      obtain ⟨pid, s, h⟩ := hold hup
      have hlogs : SameSession .mqrecv w t :=
        (hold'.trans (SyncPath.sameSession ((path_agSync .mqrecv).of_ok hsync))).trans hnew
      have hu' := moved_since hold' (by rw [hu]) h.subscribed
      have hv := (subscribedIn_agSync pid _ s.trace).of_ok hsync hu'
      exact ⟨pid, s, h.next hr hno hlogs (moved_since hnew (by rw [ht]) hv)⟩
  | @published p r _ hpublish _ ht hlogs =>
      rw [ht] at hup
      obtain ⟨pid, s, h⟩ := hold hup
      -- a PUBLISH goes behind the SUBSCRIBE, which stays where it is
      obtain ⟨-, pid', rfl⟩ := mqttPublish_ok hpublish
      have hadded := hlogs
      obtain ⟨added, htrace, -⟩ := hadded
      refine ⟨pid, s, h.next hr hno hlogs (h.subscribed.step added htrace ?_)⟩
      intro new hnew
      refine .map (fun hcl => ?_) (subscribedIn_weakens pid _ added new _ hnew)
      rw [ht]
      have hcl' : Subscribing pid (s.conn .mqrecv).topicrecv.str
          { (w.conn .mqrecv).mqclt with pid_lfsr := pid' } := hcl.of_mq rfl
      exact hcl'.packAndRegister (negErrors_packPublishRequest _ _ _ _) _ _ _
  | down _ hstatus =>
      rw [hstatus] at hup
      cases hup
  | @failed u v connfd e h0 hu hsync _ ht =>
      have hframe := (frame_agSync .mqrecv).of_ok hsync
      rw [ht, hframe.status, (conn_connected u .mqrecv connfd).2.1, hu, h0] at hup
      cases hup
  | up _ _ hu hsync hsub ht hx =>
      obtain ⟨pid, h⟩ := session_up hw hr hno hu hsync hsub ht hx
      exact ⟨pid, t, h⟩

/-- A receiver that counts as up is in a session that it has subscribed in. -/
theorem session_subscribed (w : World) (h : Between NoEarlyPublish w)
    (hup : (w.conn .mqrecv).status = 1) : SubscribedSession w := by
  induction h with
  | start hs =>
      obtain ⟨arg, agent, sock, clock, env, hcfg, rfl⟩ := hs
      rw [World.conn, started, (hcfg.zeroed.2.2 .mqrecv).2.1] at hup
      cases hup
  | next hreach hno hr ih => exact subscribedSession_step hreach ih hno hr hup

theorem session_subscribed_oneMessage : SubscribedSession (runs oneMessage) :=
  session_subscribed _ (runs_between oneMessage (by decide +kernel)) (by decide +kernel)

end Sessions

end Admlink
