import Admlink.Frame

/-!
# What the result of `mqtt_sync` says

A result other than `MQTT_OK` leaves the client in error, and any result at all
means that the client's handle was a live BIO: `mqtt_sync` always reads first.
-/

namespace Admlink

open Program

/-! ## Errors stay in the client -/

/-- `e` is `MQTT_OK`, or the client of `c` is in error. -/
def ErrorKept (c : Conn) (e : MqttErrors) (w : World) : Prop :=
  e ≠ .ok → (w.conn c).mqclt.error.neg = true

/-- From anywhere, a return satisfies `Q`. -/
abbrev Returns {α : Type} (x : Prog α) (Q : α → World → Prop) : Prop :=
  Triple (fun _ => True) x Q (fun _ _ => True)

section Returns

variable {α β : Type}

theorem Returns.trivial (x : Prog α) : Returns x fun _ _ => True := by
  intro w _
  cases x w with
  | ok a t => exact True.intro
  | error e t => exact True.intro

theorem Returns.bind {x : Prog α} {f : α → Prog β} {Q : β → World → Prop}
    (h : ∀ a, Returns (f a) Q) : Returns (x >>= f) Q :=
  Triple.bind (Returns.trivial x) h

theorem Returns.pure {a : α} {Q : α → World → Prop} (h : ∀ w, Q a w) :
    Returns (pure a : Prog α) Q := Triple.pure fun w _ => h w

theorem Returns.fault (f : Fault) (Q : α → World → Prop) :
    Returns (fault f : Prog α) Q := Triple.throw fun _ _ => True.intro

theorem Returns.throw (e : Stop) (Q : α → World → Prop) :
    Returns (throw e : Prog α) Q := Triple.throw fun _ _ => True.intro

end Returns

theorem triple_getClient (c : Conn) {P : World → Prop} {E : Stop → World → Prop} :
    Triple P (getClient c) (fun cl w => (w.conn c).mqclt = cl) E := fun _ _ => rfl

/-- `client->error = e; return a`. -/
theorem returns_setError (c : Conn) {e : MqttErrors} {α : Type} {a : α}
    {Q : α → World → Prop} (hQ : ∀ w, (w.conn c).mqclt.error = e → Q a w) :
    Returns (do
      setError c e
      return a) Q :=
  Triple.bind (Q := fun _ w => (w.conn c).mqclt.error = e) (.modify fun w _ => by simp)
    fun _ => .pure hQ

theorem returns_onClient (c : Conn) {call : Client → MqttErrors × Client}
    (h : ∀ cl, Reported (call cl)) : Returns (onClient c call) (ErrorKept c) := by
  intro w _ hne
  have hr := h (w.conn c).mqclt hne
  simp only [World.conn_setClient_same]
  rw [hr.2]
  exact hr.1

theorem returns_handleResponse (cb : PublishCallback) (c : Conn) (mem : Bytes) (r : Response) :
    Returns (handleResponse cb c mem r) (ErrorKept c) := by
  refine Returns.bind fun cl => Returns.bind fun _ => ?_
  cases r with
  | publish p =>
      have hreported := handlePublish_reported cl p
      have hcall : (handlePublish cl p).1 = true → (handlePublish cl p).2.1 = .ok :=
        handlePublish_call
      rcases hp : handlePublish cl p with ⟨call, ret, cl'⟩
      rw [hp] at hreported hcall
      simp only [hp]
      refine Triple.bind (Q := fun _ w => (w.conn c).mqclt = cl') (.modify fun w _ => by simp)
        fun _ => .ite (fun h => ?_) fun _ => ?_
      · -- the callback runs after a result that is `MQTT_OK`
        refine Triple.strengthen (P := fun _ => True) (Returns.bind fun _ => ?_)
          fun _ _ => True.intro
        exact .pure fun w hne => absurd (hcall h) hne
      · refine .pure fun w hw hne => ?_
        obtain ⟨hneg, herr⟩ := hreported hne
        rw [hw, herr]
        exact hneg
  | _ => exact returns_onClient c fun cl => handleAck_reported cl _

theorem returns_mqttRecvStep (cb : PublishCallback) (c : Conn) :
    Returns (mqttRecvStep cb c) fun r w => ∀ e, r = some e → ErrorKept c e w := by
  have hset : ∀ {e : MqttErrors}, e.neg = true → Returns (do
      setError c e
      return some e) fun r w => ∀ e, r = some e → ErrorKept c e w := by
    intro e he
    refine returns_setError c fun w hw e' h => ?_
    cases h
    intro _
    rw [hw]
    exact he
  unfold mqttRecvStep
  refine Returns.bind fun cl => Returns.bind fun r => ?_
  cases r with
  | none => exact hset rfl
  | some new =>
      refine Returns.bind fun _ => ?_
      cases hr : mqttUnpackResponse (cl.recv_buffer.store new).mem
          (cl.recv_buffer.store new).received.length with
      | error e =>
          cases e with
          | fault f => exact Returns.fault _ _
          | mqtt e => exact hset (negUnpack_response _ _ e hr)
      | ok r =>
          cases r with
          | none =>
              refine Triple.ite (fun _ => hset rfl) fun _ => .pure fun w _ e h => ?_
              cases h
              exact fun hne => absurd rfl hne
          | some rc =>
              refine Triple.bind (returns_handleResponse cb c _ rc.1) fun ret =>
                .ite (fun _ => Triple.throw fun _ _ => True.intro) fun _ => ?_
              refine Triple.bind (Q := fun _ => ErrorKept c ret)
                (.modify fun w hw hne => ?_) fun _ => .pure fun w hw e h => ?_
              · simpa using hw hne
              · by_cases hok : ret = .ok
                · rw [if_pos hok] at h
                  cases h
                · rw [if_neg hok] at h
                  cases h
                  exact hw

theorem returns_mqttRecvLoop (cb : PublishCallback) (c : Conn) : ∀ fuel,
    Returns (mqttRecvLoop cb c fuel) (ErrorKept c)
  | 0 => .throw _ _
  | fuel + 1 => by
      refine Triple.bind (returns_mqttRecvStep cb c) fun r => ?_
      cases r with
      | some ret => exact .pure fun w h => h ret rfl
      | none => exact (returns_mqttRecvLoop cb c fuel).strengthen fun _ _ => True.intro

theorem returns_sendMessage (c : Conn) (i : Nat) (m : QueuedMessage) :
    Returns (sendMessage c i m) fun r w => ∀ e, r = .ret e → ErrorKept c e w := by
  have hset : ∀ {e : MqttErrors}, e.neg = true → Returns (do
      setError c e
      return SendNext.ret e) fun r w => ∀ e, r = .ret e → ErrorKept c e w := by
    intro e he
    refine returns_setError c fun w hw e' h => ?_
    cases h
    intro _
    rw [hw]
    exact he
  unfold sendMessage
  refine Returns.bind fun cl => Returns.bind fun sent => .ite (fun _ => hset rfl) fun _ => ?_
  refine .ite (fun _ => Returns.bind fun _ => .pure fun w e h => by cases h) fun _ => ?_
  refine Returns.bind fun now => Returns.bind fun _ => ?_
  cases stateAfterSend m with
  | none => exact hset rfl
  | some state => exact Returns.bind fun _ => .pure fun w e h => by cases h

theorem returns_mqttSendLoop (c : Conn) : ∀ todo i inflight,
    Returns (mqttSendLoop c todo i inflight) fun r w => ∀ e, r = some e → ErrorKept c e w
  | 0, _, _ => .pure fun w e h => by cases h
  | todo + 1, i, inflight => by
      unfold mqttSendLoop
      refine Returns.bind fun cl => ?_
      cases cl.entries[i]? with
      | none => exact .pure fun w e h => by cases h
      | some m =>
          refine Returns.bind fun due => .ite (fun _ => ?_) fun _ => ?_
          · refine Triple.bind (returns_sendMessage c i m) fun r => ?_
            cases r with
            | next =>
                exact (returns_mqttSendLoop c todo (i + 1) _).strengthen fun _ _ => True.intro
            | stop => exact .pure fun w _ e h => by cases h
            | ret e =>
                refine .pure fun w hw e' h => ?_
                cases h
                exact hw e rfl
          · exact returns_mqttSendLoop c todo (i + 1) _

theorem ping_reported (cl : Client) : Reported (mqttPing cl) :=
  packAndRegister_reported cl (negErrors_packFixedHeader _) _ _ _

theorem returns_checkKeepAlive (c : Conn) : Returns (checkKeepAlive c) (ErrorKept c) :=
  Returns.bind fun _ => Returns.bind fun _ =>
    .ite (fun _ => returns_onClient c ping_reported) fun _ => .pure fun _ _ h => absurd rfl h

theorem returns_mqttSend (c : Conn) : Returns (mqttSend c) (ErrorKept c) := by
  refine Triple.bind (triple_getClient c) fun cl => .ite (fun h => ?_) fun _ => ?_
  · refine .pure fun w hw _ => ?_
    rw [hw]
    exact h.1
  · refine Triple.strengthen (P := fun _ => True)
      (Triple.bind (returns_mqttSendLoop c _ _ _) fun r => ?_) fun _ _ => True.intro
    cases r with
    | some e => exact .pure fun w h => h e rfl
    | none => exact (returns_checkKeepAlive c).strengthen fun _ _ => True.intro

/-- When `mqtt_sync` fails, the client holds a negative error. -/
theorem returns_mqttSync (cb : PublishCallback) (c : Conn) :
    Returns (mqttSync cb c) (ErrorKept c) := by
  have hrest : Returns (do
      let err ← mqttRecv cb c
      if err ≠ .ok then return err
      else mqttSend c) (ErrorKept c) := by
    refine Triple.bind (Returns.bind fun w => returns_mqttRecvLoop cb c _) fun err => ?_
    refine .ite (fun _ => .pure fun _ h => h) fun _ => ?_
    exact (returns_mqttSend c).strengthen fun _ _ => True.intro
  exact Returns.bind fun cl => .ite (fun _ => Returns.bind fun _ => hrest) fun _ => hrest

/-! ## `MQTT_OK` leaves a client without an error -/

/-- A call that answers `MQTT_OK` does not touch the error. -/
def OkKeeps (cl : Client) (r : MqttErrors × Client) : Prop := r.1 = .ok → r.2.error = cl.error

namespace OkKeeps

variable {cl : Client}

theorem recvFails {e : MqttErrors} (he : e ≠ .ok) (cl' : Client) :
    OkKeeps cl (Admlink.recvFails cl' e) := fun h => absurd h he

theorem packAndRegister (cl : Client) {pack_call : Option Nat → PackResult}
    (hneg : NegErrors pack_call) (control_type : ControlType) (packet_id seqno : Option Nat) :
    OkKeeps cl (Admlink.packAndRegister cl pack_call control_type packet_id seqno) := by
  intro hok
  obtain ⟨cl₀, h₀, ⟨packed, -, h⟩ | ⟨e, he, h⟩⟩ :=
    packAndRegister_cases cl hneg control_type packet_id seqno
  · rw [h]
    rcases h₀ with rfl | rfl <;> rfl
  · rw [h] at hok
    rw [show e = .ok from hok] at he
    cases he

theorem stage {r : MqttErrors × Client} (h : OkKeeps cl r) : OkKeeps cl (Admlink.stage r) := by
  unfold Admlink.stage
  split
  · exact h
  · rename_i hne
    exact recvFails hne _

theorem pubxxx {cl' : Client} (herror : cl'.error = cl.error) (control_type : ControlType)
    (packet_id : Nat) : OkKeeps cl (Admlink.stage (mqttPubxxx control_type cl' packet_id)) := by
  refine stage fun hok => ?_
  rw [← herror]
  exact packAndRegister cl' (negErrors_packPubxxxRequest control_type packet_id) _ _ _ hok

theorem handleAck (cl : Client) (r : Response) : OkKeeps cl (handleAck cl r) := by
  have hunknown : OkKeeps cl (Admlink.recvFails cl .ackOfUnknown) := recvFails (by decide) cl
  have hrelease : ∀ {control_type packet_id m cl'},
      release cl control_type packet_id = some (m, cl') → cl'.error = cl.error := by
    intro _ _ m cl' h
    obtain ⟨i, -, -, rfl⟩ := release_eq h
    rfl
  cases r with
  | connack code =>
      refine releaseThen_ind hunknown fun m cl' h => ?_
      split
      · exact fun _ => hrelease h
      · split
        · exact recvFails (by decide) cl'
        · exact recvFails (by decide) cl'
  | publish p => exact fun _ => rfl
  | pubrec pid =>
      simp only [Admlink.handleAck]
      split
      · exact fun _ => rfl
      · exact releaseThen_ind hunknown fun m cl' h => pubxxx (hrelease h) .pubrel pid
  | pubrel pid =>
      exact releaseThen_ind hunknown fun m cl' h => pubxxx (hrelease h) .pubcomp pid
  | suback pid code =>
      refine releaseThen_ind hunknown fun m cl' h => ?_
      split
      · exact recvFails (by decide) cl'
      · exact fun _ => hrelease h
  | puback pid | pubcomp pid | unsuback pid | pingresp =>
      exact releaseThen_ind hunknown fun m cl' h _ => hrelease h

theorem handlePublish (cl : Client) (p : ResponsePublish) : OkKeeps cl (handlePublish cl p).2 := by
  unfold Admlink.handlePublish
  split
  · exact pubxxx rfl .puback p.packet_id
  · split
    · split
      · exact fun _ => rfl
      · exact pubxxx rfl .pubrec p.packet_id
    · exact fun _ => rfl

end OkKeeps

/-- The client of `c` has no error. -/
def NoError (c : Conn) (w : World) : Prop := (w.conn c).mqclt.error = .ok

/-- Run on a client without an error, `MQTT_OK` means that it still has none. -/
abbrev StaysOk (c : Conn) (x : Prog MqttErrors) : Prop :=
  Triple (NoError c) x (fun e w => e = .ok → NoError c w) (fun _ _ => True)

section StaysOk

variable {c : Conn}

theorem noError_io (c : Conn) : IoRules c (Preserves (NoError c)) :=
  ⟨fun _ _ => id, fun _ _ h => h⟩

/-- The client is changed, but not its error. -/
theorem noError_modifyClient {f : Client → Client} (hf : ∀ cl, (f cl).error = cl.error) :
    Triple (NoError c) (modifyClient c f) (fun _ => NoError c) (fun _ _ => True) :=
  .modify fun w hw => by simpa [NoError, hf] using hw

theorem staysOk_onClient {call : Client → MqttErrors × Client}
    (h : ∀ cl, OkKeeps cl (call cl)) : StaysOk c (onClient c call) := by
  intro w hw hok
  have hkeep := h (w.conn c).mqclt hok
  rw [NoError, World.conn_setClient_same, hkeep]
  exact hw

theorem noError_publishCallback (c d : Conn) (mem : Bytes) (p : ResponsePublish) :
    Within (Preserves (NoError c)) (fun _ _ => True) (publishCallback d mem p) := by
  unfold publishCallback
  cases copyOut mem p.topic_name p.topic_name_size with
  | error f => exact Within.throw _
  | ok _ =>
      cases copyOut mem p.application_message p.application_message_size with
      | error f => exact Within.throw _
      | ok msg =>
          intro w
          change Ends _ _ (admlinkMsgHandle (msg ++ [Ch.nul]) (w.log (.deliver d msg)))
          refine (path_admlinkMsgHandle msg _).mono (fun _ t hpath hw => ?_) fun _ _ _ => trivial
          rw [NoError, MsgPath.conn hpath c]
          exact hw

theorem noError_getClient (c : Conn) : Triple (NoError c) (getClient c)
    (fun cl w => (w.conn c).mqclt = cl ∧ cl.error = .ok) (fun _ _ => True) :=
  fun _ hw => ⟨rfl, hw⟩

theorem staysOk_handleResponse (c : Conn) (mem : Bytes) (r : Response) :
    StaysOk c (handleResponse (publishCallback c) c mem r) := by
  refine (noError_getClient c).bind fun cl => ?_
  refine Triple.bind (Q := fun _ w => (w.conn c).mqclt = cl ∧ cl.error = .ok)
    (.modify fun w hw => hw) fun _ => ?_
  cases r with
  | publish p =>
      have hkeep := OkKeeps.handlePublish cl p
      rcases hp : handlePublish cl p with ⟨call, ret, cl'⟩
      rw [hp] at hkeep
      simp only [hp]
      by_cases hret : ret = .ok
      · refine Triple.bind (Q := fun _ => NoError c) (.modify fun w hw => ?_) fun _ => ?_
        · rw [NoError, World.conn_setClient_same, hkeep hret]
          exact hw.2
        · refine .ite (fun _ => ?_) fun _ => .pure fun w hw _ => hw
          exact (noError_publishCallback c c mem p).triple.bind fun _ => .pure fun w hw _ => hw
      · refine Triple.strengthen (Returns.bind fun _ => ?_) fun _ _ => trivial
        have hvacuous : Returns (pure ret : Prog MqttErrors) fun e w => e = .ok → NoError c w :=
          .pure fun w h => absurd h hret
        exact .ite (fun _ => Returns.bind fun _ => hvacuous) fun _ => hvacuous
  | _ =>
      refine Triple.strengthen (staysOk_onClient fun cl => OkKeeps.handleAck cl _) fun w hw => ?_
      rw [NoError, hw.1]
      exact hw.2

theorem staysOk_mqttRecvStep (c : Conn) :
    Triple (NoError c) (mqttRecvStep (publishCallback c) c)
      (fun r w => r = none ∨ r = some .ok → NoError c w) (fun _ _ => True) := by
  have hfails : ∀ {e : MqttErrors} {P : World → Prop}, e ≠ .ok → Triple P (do
      setError c e
      return some e) (fun r w => r = none ∨ r = some .ok → NoError c w) (fun _ _ => True) := by
    intro e P he
    refine Triple.strengthen (Returns.bind fun _ => .pure fun _ h => ?_) fun _ _ => trivial
    rcases h with h | h
    · cases h
    · exact absurd (Option.some.inj h) he
  unfold mqttRecvStep
  refine Triple.bind (Q := fun _ => NoError c) (fun w hw => hw) fun cl => ?_
  refine ((noError_io c).mqttPalRecvall _).triple.bind fun r => ?_
  cases r with
  | none => exact hfails (by decide)
  | some new =>
      refine (noError_modifyClient (by intro; rfl)).bind fun _ => ?_
      cases hr : mqttUnpackResponse (cl.recv_buffer.store new).mem
          (cl.recv_buffer.store new).received.length with
      | error e =>
          cases e with
          | fault f => exact .throw fun _ _ => trivial
          | mqtt e =>
              refine hfails ?_
              rintro rfl
              cases negUnpack_response _ _ _ hr
      | ok r =>
          cases r with
          | none => exact .ite (fun _ => hfails (by decide)) fun _ => .pure fun w hw _ => hw
          | some rc =>
              refine (staysOk_handleResponse c _ rc.1).bind fun ret =>
                .ite (fun _ => ?_) fun _ => ?_
              · exact .throw fun _ _ => trivial
              · -- the round goes on only when the packet was handled without an error
                by_cases hret : ret = .ok
                · refine Triple.bind (Q := fun _ => NoError c) ?_ fun _ => .pure fun w hw _ => hw
                  exact (noError_modifyClient (by intro; rfl)).strengthen fun w hw => hw hret
                · refine Triple.strengthen (Returns.bind fun _ => .pure fun w h => ?_)
                    fun _ _ => trivial
                  rw [if_neg hret] at h
                  rcases h with h | h
                  · cases h
                  · exact absurd (Option.some.inj h) hret

theorem staysOk_mqttRecvLoop (c : Conn) : ∀ fuel,
    StaysOk c (mqttRecvLoop (publishCallback c) c fuel) := by
  intro fuel
  induction fuel with
  | zero => exact .throw fun _ _ => trivial
  | succ fuel ih =>
      refine (staysOk_mqttRecvStep c).bind fun r => ?_
      cases r with
      | some ret => exact .pure fun w hw hret => hw (.inr (by rw [hret]))
      | none => exact ih.strengthen fun w hw => hw (.inl rfl)

theorem staysOk_mqttRecv (c : Conn) : StaysOk c (mqttRecv (publishCallback c) c) :=
  Triple.bind (Q := fun _ => NoError c) (fun _ hw => hw) fun _ => staysOk_mqttRecvLoop c _

theorem noError_sendIsDue (c : Conn) (m : QueuedMessage) :
    Triple (NoError c) (sendIsDue c m) (fun _ => NoError c) (fun _ _ => True) := by
  unfold sendIsDue
  cases m.state with
  | unsent => exact .pure fun w hw => hw
  | complete => exact .pure fun w hw => hw
  | awaitingAck =>
      refine (noError_io c).mqttPalTime.triple.bind fun now => ?_
      refine Triple.bind (Q := fun _ => NoError c) (fun w hw => hw) fun cl => .ite (fun _ => ?_)
        fun _ => .pure fun w hw => hw
      exact (noError_modifyClient (by intro; rfl)).bind fun _ => .pure fun _ hw => hw

/-- Only a result that is an error comes with an error. -/
theorem noError_sendMessage (c : Conn) (i : Nat) (m : QueuedMessage) :
    Triple (NoError c) (sendMessage c i m)
      (fun r w => (∃ e, r = .ret e ∧ e ≠ .ok) ∨ (r = .next ∨ r = .stop) ∧ NoError c w)
      (fun _ _ => True) := by
  have hfails : ∀ {e : MqttErrors} {P : World → Prop}, e ≠ .ok → Triple P (do
      setError c e
      return SendNext.ret e)
      (fun r w => (∃ e, r = .ret e ∧ e ≠ .ok) ∨ (r = .next ∨ r = .stop) ∧ NoError c w)
      (fun _ _ => True) := by
    intro e P he
    exact Triple.strengthen (Returns.bind fun _ => .pure fun _ => .inl ⟨e, rfl, he⟩)
      fun _ _ => trivial
  unfold sendMessage
  refine Triple.bind (Q := fun _ => NoError c) (fun w hw => hw) fun cl => ?_
  refine ((noError_io c).mqttPalSendall _).triple.bind fun sent => .ite (fun _ => ?_) fun _ => ?_
  · exact hfails (by decide)
  · refine .ite (fun _ => ?_) fun _ => ?_
    · exact (noError_modifyClient (by intro; rfl)).bind fun _ => .pure fun w hw =>
        .inr ⟨.inr rfl, hw⟩
    · refine (noError_io c).mqttPalTime.triple.bind fun now => ?_
      refine (noError_modifyClient (by intro; rfl)).bind fun _ => ?_
      cases stateAfterSend m with
      | none => exact hfails (by decide)
      | some state =>
          exact (noError_modifyClient (by intro; rfl)).bind fun _ => .pure fun w hw =>
            .inr ⟨.inl rfl, hw⟩

theorem noError_mqttSendLoop (c : Conn) : ∀ todo i inflight,
    Triple (NoError c) (mqttSendLoop c todo i inflight)
      (fun r w => (∃ e, r = some e ∧ e ≠ .ok) ∨ r = none ∧ NoError c w) (fun _ _ => True) := by
  intro todo
  induction todo with
  | zero => exact fun i inflight => .pure fun w hw => .inr ⟨rfl, hw⟩
  | succ todo ih =>
      intro i inflight
      unfold mqttSendLoop
      refine Triple.bind (Q := fun _ => NoError c) (fun w hw => hw) fun cl => ?_
      cases cl.entries[i]? with
      | none => exact .pure fun w hw => .inr ⟨rfl, hw⟩
      | some m =>
          refine (noError_sendIsDue c m).bind fun due => .ite (fun _ => ?_) fun _ => ih _ _
          refine (noError_sendMessage c i m).bind fun r => ?_
          cases r with
          | next =>
              refine (ih _ _).strengthen ?_
              rintro w (⟨e, h, -⟩ | ⟨-, hw⟩)
              · cases h
              · exact hw
          | stop =>
              refine .pure ?_
              rintro w (⟨e, h, -⟩ | ⟨-, hw⟩)
              · cases h
              · exact .inr ⟨rfl, hw⟩
          | ret e =>
              refine .pure ?_
              rintro w (⟨e', h, he⟩ | ⟨h, -⟩)
              · cases h
                exact .inl ⟨e, rfl, he⟩
              · rcases h with h | h <;> cases h

theorem staysOk_mqttSend (c : Conn) : StaysOk c (mqttSend c) := by
  unfold mqttSend
  refine Triple.bind (Q := fun _ => NoError c) (fun w hw => hw) fun cl => .ite (fun _ => ?_)
    fun _ => ?_
  · exact .pure fun w hw _ => hw
  · refine (noError_mqttSendLoop c _ _ _).bind fun r => ?_
    cases r with
    | some e =>
        refine .pure ?_
        rintro w (⟨e', h, he⟩ | ⟨h, -⟩) hok
        · cases h
          exact absurd hok he
        · cases h
    | none =>
        refine Triple.strengthen (P := NoError c) ?_ ?_
        · refine Triple.bind (Q := fun _ => NoError c) (fun w hw => hw) fun cl => ?_
          refine (noError_io c).mqttPalTime.triple.bind fun now => .ite (fun _ => ?_) fun _ => ?_
          · exact staysOk_onClient fun cl =>
              .packAndRegister cl (negErrors_packFixedHeader _) _ _ _
          · exact .pure fun w hw _ => hw
        · rintro w (⟨e, h, -⟩ | ⟨-, hw⟩)
          · cases h
          · exact hw

/-- A synchronisation that succeeds on a client without an error leaves none. -/
theorem staysOk_agSync (c : Conn) : StaysOk c (agSync c) := by
  have hrest : StaysOk c (do
      let err ← mqttRecv (publishCallback c) c
      if err ≠ .ok then return err
      else mqttSend c) := by
    refine (staysOk_mqttRecv c).bind fun err => .ite (fun hne => ?_) fun hok => ?_
    · exact .pure fun w _ h => absurd h hne
    · exact (staysOk_mqttSend c).strengthen fun w hw => hw (not_not.mp hok)
  unfold agSync mqttSync
  refine Triple.bind (Q := fun _ => NoError c) (fun w hw => hw) fun cl => .ite (fun _ => ?_)
    fun _ => hrest
  refine Triple.bind (Q := fun _ => NoError c) ?_ fun _ => hrest
  exact .modify fun w _ => by simp [NoError]

end StaysOk

/-! ## A result needs a live BIO -/

/-- The client of `c` talks to a BIO that has not been freed. -/
def LiveSocket (c : Conn) (w : World) : Prop :=
  ∃ b, (w.conn c).mqclt.socketfd = some b ∧ w.freed b = false

theorem live_of_bioAccess {c : Conn} {written : Bytes} {w t : World}
    (h : bioAccess c written w = .ok () t) : LiveSocket c w := by
  unfold bioAccess at h
  rw [bind_apply] at h
  simp only [get_apply, bind_apply, emit, modify_apply] at h
  cases hfd : (w.conn c).mqclt.socketfd with
  | none =>
      rw [hfd] at h
      cases h
  | some b =>
      refine ⟨b, hfd, ?_⟩
      by_cases hb : w.freed b = true
      · rw [hfd] at h
        simp only [hb, ↓reduceIte] at h
        cases h
      · exact Bool.eq_false_iff.mpr hb

theorem live_of_mqttPalRecvall {c : Conn} {bufsz : Nat} {w t : World} {r : Option Bytes}
    (h : mqttPalRecvall c bufsz w = .ok r t) : LiveSocket c w := by
  obtain ⟨_, _, hget, h⟩ := bind_ok h
  cases hget
  unfold mqttPalRecvallLoop at h
  obtain ⟨_, _, hio, _⟩ := bind_ok h
  exact live_of_bioAccess hio

theorem live_of_mqttRecv {cb : PublishCallback} {c : Conn} {w t : World} {e : MqttErrors}
    (h : mqttRecv cb c w = .ok e t) : LiveSocket c w := by
  obtain ⟨_, _, hget, h⟩ := bind_ok h
  cases hget
  unfold mqttRecvLoop at h
  obtain ⟨r, u, hstep, _⟩ := bind_ok h
  unfold mqttRecvStep at hstep
  obtain ⟨_, _, hget, hstep⟩ := bind_ok hstep
  cases hget
  obtain ⟨_, _, hrecv, _⟩ := bind_ok hstep
  exact live_of_mqttPalRecvall hrecv

/-- `mqtt_sync` returns only to a caller whose connection has a live BIO. -/
theorem live_of_mqttSync {cb : PublishCallback} {c : Conn} {w t : World} {e : MqttErrors}
    (h : mqttSync cb c w = .ok e t) : LiveSocket c w := by
  unfold mqttSync at h
  obtain ⟨_, _, hget, h⟩ := bind_ok h
  cases hget
  by_cases hr : (w.conn c).mqclt.error = .reconnecting
  · simp only [if_pos hr] at h
    obtain ⟨_, u, hset, h⟩ := bind_ok h
    obtain ⟨_, _, hrecv, _⟩ := bind_ok h
    cases hset
    obtain ⟨b, hfd, hb⟩ := live_of_mqttRecv hrecv
    exact ⟨b, by simpa using hfd, hb⟩
  · simp only [if_neg hr] at h
    obtain ⟨_, _, hrecv, _⟩ := bind_ok h
    exact live_of_mqttRecv hrecv

end Admlink
