import Admlink.Closing

/-!
# Opening a connection

`connectConn` has six exits: the process leaves before or after the BIO exists,
`BIO_do_connect` fails, the first `mqtt_sync` fails or stops, or the connection
counts as up. `ConnectEnd` and `ConnectStop` list them with the worlds they
leave.
-/

namespace Admlink

open Program Relation

namespace World

/-! ## The worlds on the way -/

/-- `SSL_CTX_new` has stored its context. -/
def ctxOpened (w : World) (c : Conn) : World :=
  { w.log (.sslCtxNew w.ctxs) with ctxs := w.ctxs + 1 }.setConn c
    { w.conn c with ssl_ctx := some w.ctxs }

/-- `BIO_new_ssl_connect` has stored its BIO. -/
def bioOpened (w : World) (c : Conn) : World :=
  { (w.ctxOpened c).log (.bioNew c (w.conn c).biofd w.bios w.ctxs) with
      bios := w.bios + 1 }.setConn c
    { w.conn c with ssl_ctx := some w.ctxs, biofd := some w.bios }

/-- `BIO_do_connect` has failed. -/
def refused (w : World) (c : Conn) : World :=
  (((w.bioOpened c).log (.bioFreeAll w.bios)).log (.sslCtxFree w.ctxs)).setConn c
    { w.conn c with ssl_ctx := none, biofd := none }

/-- `mqtt_init` and `mqtt_connect` have been called on the new BIO. -/
def connected (w : World) (c : Conn) (connfd : Nat) : World :=
  ((w.bioOpened c).log (.mqttInit c)).setConn c
    { w.conn c with
        ssl_ctx := some w.ctxs
        biofd := some w.bios
        connfd
        mqclt := (mqttConnect (mqttInit (w.conn c).mqclt (some w.bios) bufSendSize bufRecvSize)
          (w.conn c).cltid.str connectCleanSession 60).2 }

/-- The connection counts as up, its traffic timer is registered `d`
microseconds later. -/
def up (w : World) (c : Conn) (d : Nat) (env : Env) : World :=
  (((w.setConn c { w.conn c with status := 1 }).log
    (.registerTimeout (.agHandleClttraffic c))).tick d env).schedule 0 mqttSynT
      (.agHandleClttraffic c)

theorem conn_ctxOpened_other (w : World) {c d : Conn} (h : d ≠ c) :
    (w.ctxOpened c).conn d = w.conn d := conn_setConn_other _ h _

theorem conn_bioOpened_other (w : World) {c d : Conn} (h : d ≠ c) :
    (w.bioOpened c).conn d = w.conn d :=
  (conn_setConn_other _ h _).trans (w.conn_ctxOpened_other h)

theorem conn_refused_other (w : World) {c d : Conn} (h : d ≠ c) :
    (w.refused c).conn d = w.conn d :=
  (conn_setConn_other _ h _).trans (w.conn_bioOpened_other h)

theorem conn_connected_other (w : World) {c d : Conn} (h : d ≠ c) (connfd : Nat) :
    (w.connected c connfd).conn d = w.conn d :=
  (conn_setConn_other _ h _).trans (w.conn_bioOpened_other h)

theorem conn_up_other (w : World) {c d : Conn} (h : d ≠ c) (n : Nat) (env : Env) :
    (w.up c n env).conn d = w.conn d := conn_setConn_other _ h _

@[simp] theorem conn_ctxOpened_same (w : World) (c : Conn) :
    (w.ctxOpened c).conn c = { w.conn c with ssl_ctx := some w.ctxs } := conn_setConn_same ..

@[simp] theorem conn_bioOpened_same (w : World) (c : Conn) :
    (w.bioOpened c).conn c =
      { w.conn c with ssl_ctx := some w.ctxs, biofd := some w.bios } := conn_setConn_same ..

@[simp] theorem conn_refused_same (w : World) (c : Conn) :
    (w.refused c).conn c = { w.conn c with ssl_ctx := none, biofd := none } :=
  conn_setConn_same ..

@[simp] theorem conn_up_same (w : World) (c : Conn) (d : Nat) (env : Env) :
    (w.up c d env).conn c = { w.conn c with status := 1 } := conn_setConn_same ..

theorem trafficTimers_up (w : World) (c : Conn) (n : Nat) (env : Env) (d : Conn) :
    (w.up c n env).trafficTimers d = w.trafficTimers d + if c = d then 1 else 0 := by
  rw [up, trafficTimers_schedule]
  simp only [Handler.agHandleClttraffic.injEq]
  rfl

end World

/-! ## `mqtt_connect` on a fresh client -/

/-- The queue has room for any CONNECT the agent can ask for. -/
theorem packConnection_fits (cltid : Field 128) : ∃ packed,
    mqttPackConnectionRequest (some (bufSendSize - sizeofQueuedMessage)) cltid.str
      connectCleanSession 60 = .ok (some packed) := by
  have hlen := cltid.fits
  unfold mqttPackConnectionRequest
  rw [if_neg (by simp [connectCleanSession]), toU32_of_lt (by omega)]
  have hhdr := (length_fixedHeaderBytes
    ⟨ControlType.connect.code, 0, 10 + (2 + cltid.str.length)⟩).2
  rw [packWith_legal rfl (by simp only; omega), if_neg]
  · exact ⟨_, rfl⟩
  · simp only [bufSendSize, sizeofQueuedMessage]
    omega

/-- `mqtt_connect` right after `mqtt_init` always queues its packet. -/
theorem connect_init {fd : Type} (cl : MqttClient fd) (sockfd : Option fd) (cltid : Field 128) :
    ∃ packed, mqttConnect (mqttInit cl sockfd bufSendSize bufRecvSize) cltid.str
        connectCleanSession 60 =
      (.ok, { mqttInit cl sockfd bufSendSize bufRecvSize with
        keep_alive := 60, error := .ok
        mq := some ⟨bufSendSize, [.new packed .connect none none cl.leftover]⟩
        leftovers := cl.leftovers.tail }) := by
  obtain ⟨packed, h⟩ := packConnection_fits cltid
  refine ⟨packed, ?_⟩
  unfold mqttConnect
  exact packAndRegister_fits rfl h .connect none none

/-! ## `open_nb_socket` -/

/-- Where `open_nb_socket` returns. -/
inductive OpenEnd (c : Conn) (w : World) : Nat → World → Prop
  | refused : w.env.opens c = .connectFailed → OpenEnd c w 0 (w.refused c)
  | opened {connfd : Nat} : w.env.opens c = .connected connfd →
      OpenEnd c w connfd (w.bioOpened c)

/-- Where `open_nb_socket` leaves the process. -/
inductive OpenExit (c : Conn) (w : World) : World → Prop
  | noBio {t : World} : ShutEnd (w.ctxOpened c) t → OpenExit c w t
  | bio {t : World} : ShutEnd (w.bioOpened c) t → OpenExit c w t

theorem openNbSocket_ends (c : Conn) (w : World) :
    Ends (OpenEnd c w) (fun _ => OpenExit c w) (openNbSocket c w) := by
  unfold openNbSocket
  rw [bind_of_ok (get_apply w)]
  cases ho : w.env.opens c with
  | loadFailed =>
      exact (exitLink_ends 1 (w.ctxOpened c)).mono (fun _ _ h => h.elim) fun _ _ h => .noBio h
  | connectFailed =>
      have h := OpenEnd.refused ho
      cases c <;> exact h
  | verifyFailed connfd =>
      have h : Ends (OpenEnd c w) (fun _ => OpenExit c w) (exitLink 1 (w.bioOpened c)) :=
        (exitLink_ends 1 (w.bioOpened c)).mono (fun _ _ h => h.elim) fun _ _ h => .bio h
      cases c <;> exact h
  | connected connfd =>
      have h := OpenEnd.opened ho
      cases c <;> exact h

/-! ## `check_mqrecv`, `check_mqupld` -/

/-- The client of a connection that has just been opened. -/
theorem client_connected (w : World) (c : Conn) (connfd : Nat) : ∃ packed,
    ((w.connected c connfd).conn c).mqclt =
      { mqttInit (w.conn c).mqclt (some w.bios) bufSendSize bufRecvSize with
        keep_alive := 60, error := .ok
        mq := some ⟨bufSendSize, [.new packed .connect none none (w.conn c).mqclt.leftover]⟩
        leftovers := (w.conn c).mqclt.leftovers.tail } := by
  obtain ⟨packed, h⟩ := connect_init (w.conn c).mqclt (some w.bios) (w.conn c).cltid
  refine ⟨packed, ?_⟩
  rw [World.connected, World.conn_setConn_same]
  exact congrArg Prod.snd h

/-- The connection that has just been opened: not up yet, and its client talks
to its BIO. -/
theorem conn_connected (w : World) (c : Conn) (connfd : Nat) :
    ((w.connected c connfd).conn c).biofd = some w.bios ∧
      ((w.connected c connfd).conn c).status = (w.conn c).status ∧
      ((w.connected c connfd).conn c).mqclt.socketfd = some w.bios := by
  obtain ⟨packed, h⟩ := client_connected w c connfd
  rw [h]
  exact ⟨by simp [World.connected], by simp [World.connected], rfl⟩

theorem initAndConnect_run (c : Conn) (w : World) (connfd : Nat) :
    initAndConnect c ((w.bioOpened c).setConn c { (w.bioOpened c).conn c with connfd }) =
      .ok .ok (w.connected c connfd) := by
  have herror : ((w.connected c connfd).conn c).mqclt.error = .ok := by
    obtain ⟨packed, h⟩ := client_connected w c connfd
    rw [h]
  have hrun : initAndConnect c
      ((w.bioOpened c).setConn c { (w.bioOpened c).conn c with connfd }) =
      .ok ((w.connected c connfd).conn c).mqclt.error (w.connected c connfd) := by
    cases c <;> rfl
  rw [hrun, herror]

/-- Where the `case 0` of a check returns, with its result. -/
inductive ConnectEnd (c : Conn) (w : World) : Bool → World → Prop
  | refused : w.env.opens c = .connectFailed → ConnectEnd c w false (w.refused c)
  | failed {connfd : Nat} {e : MqttErrors} {t : World} : w.env.opens c = .connected connfd →
      agSync c (w.connected c connfd) = .ok e t → e ≠ .ok → ConnectEnd c w false t
  | up {connfd : Nat} {u : World} (d : Nat) (env : Env) : w.env.opens c = .connected connfd →
      SyncPath c (w.connected c connfd) u → ConnectEnd c w true (u.up c d env)

/-- Where it stops. -/
inductive ConnectStop (c : Conn) (w : World) : World → Prop
  | exit {t : World} : OpenExit c w t → ConnectStop c w t
  | sync {connfd : Nat} {t : World} : SyncStop c (w.connected c connfd) t → ConnectStop c w t
  | timer {connfd : Nat} {u : World} (d : Nat) (env : Env) :
      SyncPath c (w.connected c connfd) u →
      ConnectStop c w (((u.setConn c { u.conn c with status := 1 }).log
        (.registerTimeout (.agHandleClttraffic c))).tick d env)

theorem connectConn_ends (c : Conn) {subscribe : Prog Unit}
    (hsub : Within (SyncPath c) (SyncStop c) subscribe) (w : World) :
    Ends (ConnectEnd c w) (fun _ => ConnectStop c w) (connectConn c subscribe w) := by
  refine Ends.bind (openNbSocket_ends c w) (fun connfd t _ ht => ?_) fun _ _ h => .exit h
  rw [bind_of_ok (rfl : getConn c t = .ok (t.conn c) t)]
  cases ht with
  | refused ho =>
      rw [World.refused, World.conn_setConn_same]
      exact .refused ho
  | opened ho =>
      have hbio : (w.bioOpened c).conn c =
          { w.conn c with ssl_ctx := some w.ctxs, biofd := some w.bios } :=
        World.conn_setConn_same ..
      rw [if_neg (by rw [hbio]; simp)]
      rw [bind_of_ok (rfl : modifyConn c _ (w.bioOpened c) = .ok () _)]
      rw [bind_of_ok (initAndConnect_run c w connfd)]
      simp only [ne_eq, not_true_eq_false, ↓reduceIte]
      refine Ends.bind (path_agSync c (w.connected c connfd)) (fun e t hr hpath => ?_)
        fun _ _ h => .sync h
      by_cases he : e = .ok
      · rw [if_neg (by simp [he])]
        refine Ends.bind (hsub.from _ t hpath) (fun _ u _ hu => ?_) fun _ _ h => .sync h
        rw [bind_of_ok (rfl : modifyConn c _ u = .ok () _)]
        refine Ends.bind (registerTimeout_ends 0 mqttSynT (.agHandleClttraffic c) _)
          (fun _ t' _ ⟨d, env, ht', _⟩ => ?_) fun _ t' ⟨d, env, ht'⟩ => ?_
        · rw [ht']
          exact .up d env ho hu
        · rw [ht']
          exact .timer d env hu
      · rw [if_pos he]
        exact .failed ho hr he

/-! ### `subscribe` -/

theorem path_subscribeTopicrecv :
    Within (SyncPath .mqrecv) (SyncStop .mqrecv) subscribeTopicrecv := by
  intro w
  unfold subscribeTopicrecv
  rw [bind_of_ok (rfl : getConn .mqrecv w = .ok (w.conn .mqrecv) w)]
  cases hs : mqttSubscribe (w.conn .mqrecv).mqclt (w.conn .mqrecv).topicrecv.str 0 with
  | error f => exact SyncPath.stop (.refl (a := w))
  | ok r =>
      obtain ⟨pid, rfl⟩ := mqttSubscribe_ok hs
      change SyncPath .mqrecv w (w.setClient .mqrecv _)
      have hpid : SyncPath .mqrecv w
          (w.setClient .mqrecv { (w.conn .mqrecv).mqclt with pid_lfsr := pid }) :=
        .single (.client (.keep rfl rfl))
      refine hpid.tail ?_
      rw [← World.setClient_setClient w .mqrecv { (w.conn .mqrecv).mqclt with pid_lfsr := pid }]
      refine .client ?_
      rw [World.conn_setClient_same]
      exact .pack (negErrors_packWith _ _) (by decide)

theorem checkMqrecv_ends (w : World) (h : (w.conn .mqrecv).status = 0) :
    Ends (ConnectEnd .mqrecv w) (fun _ => ConnectStop .mqrecv w) (checkMqrecv w) := by
  unfold checkMqrecv
  rw [bind_of_ok (rfl : getConn .mqrecv w = .ok (w.conn .mqrecv) w), if_pos h]
  exact connectConn_ends .mqrecv path_subscribeTopicrecv w

theorem checkMqupld_ends (w : World) (h : (w.conn .mqupld).status = 0) :
    Ends (ConnectEnd .mqupld w) (fun _ => ConnectStop .mqupld w) (checkMqupld w) := by
  unfold checkMqupld
  rw [bind_of_ok (rfl : getConn .mqupld w = .ok (w.conn .mqupld) w), if_pos h]
  exact connectConn_ends .mqupld (.pure _) w

end Admlink
