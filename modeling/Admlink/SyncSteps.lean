import Mathlib.Logic.Relation
import Admlink.SyncRules

/-!
# What `mqtt_sync` can do to the world

`SyncStep c` lists the atomic changes a synchronisation of connection `c`
makes, however its answers fall out: it consumes answers, touches the BIO,
moves the client along (`ClientStep`), takes a packet, or hands a message to
`admlink_msg_handle`. `agSync c` ends, with or without a result, in a world
that a sequence of such steps leads to. Every frame condition and every
invariant of a run is read off this list, never off the loops again.
-/

namespace Admlink

open Program Relation

/-! ## Steps of a client -/

variable {fd : Type}

/-- What happens to a client between two packets from the broker. -/
inductive ClientStep (cl : MqttClient fd) : MqttClient fd → Prop
  | keep {cl'} : cl'.mq = cl.mq → cl'.socketfd = cl.socketfd → ClientStep cl cl'
  | pack {pack_call control_type packet_id} : NegErrors pack_call → control_type ≠ .publish →
      ClientStep cl (packAndRegister cl pack_call control_type packet_id none).2
  | sent {i m state} (now : Nat) : cl.entries[i]? = some m → stateAfterSend m = some state →
      ClientStep cl
        (cl.setEntries (cl.entries.set i { m with start := markDup m, state, time_sent := now }))

theorem ClientStep.sameLink {cl cl' : MqttClient fd} (h : ClientStep cl cl') :
    SameLink cl cl' := by
  cases h with
  | keep hmq hfd => exact ⟨hfd, congrArg Option.isSome hmq⟩
  | pack hneg _ => exact packAndRegister_sameLink cl hneg _ _ _
  | sent now _ _ => exact .setEntries cl _

theorem afterPacket_sameLink (cl : MqttClient fd) (r : Response) :
    SameLink cl (afterPacket cl r) := by
  cases r with
  | publish p => exact handlePublish_sameLink cl p
  | _ => exact handleAck_sameLink cl _

/-! ## Steps of the world -/

inductive SyncStep (c : Conn) (w : World) : World → Prop
  | env (env : Env) : SyncStep c w { w with env }
  | io (written : Bytes) :
      SyncStep c w (w.log (.bioIo c (w.conn c).mqclt.socketfd (w.conn c).biofd written))
  | client {cl : Client} : ClientStep (w.conn c).mqclt cl → SyncStep c w (w.setClient c cl)
  | packet (r : Response) :
      SyncStep c w ((w.log (.packet c r (ackedSeqno (w.conn c).mqclt r))).setClient c
        (afterPacket (w.conn c).mqclt r))
  | deliver {msg : Bytes} {t : World} :
      admlinkMsgHandle (msg ++ [Ch.nul]) (w.log (.deliver c msg)) = .ok () t → SyncStep c w t

abbrev SyncPath (c : Conn) : World → World → Prop := ReflTransGen (SyncStep c)

/-- Where a synchronisation can stop: between two steps, or inside the handling
of a message. -/
def SyncStop (c : Conn) (w t : World) : Prop :=
  ∃ u, SyncPath c w u ∧ (t = u ∨ ∃ msg e,
    admlinkMsgHandle (msg ++ [Ch.nul]) (u.log (.deliver c msg)) = .error e t)

theorem SyncPath.stop {c : Conn} {w t : World} (h : SyncPath c w t) : SyncStop c w t :=
  ⟨t, h, .inl rfl⟩

instance (c : Conn) : Exits (SyncPath c) (SyncStop c) where
  refl _ := .refl
  trans := .trans
  stop w := SyncPath.stop (.refl (a := w))
  after h := fun ⟨u, hu, ht⟩ => ⟨u, h.trans hu, ht⟩

/-! ## `mqtt_sync` takes such steps -/

theorem path_onClient (c : Conn) {call : Client → MqttErrors × Client}
    (h : ∀ cl, ClientStep cl (call cl).2) : Within (SyncPath c) (SyncStop c) (onClient c call) :=
  within_onClient fun w => .single (.client (h (w.conn c).mqclt))

theorem clientStep_disconnect (cl : Client) : ClientStep cl (mqttDisconnect cl).2 :=
  .pack (negErrors_packFixedHeader _) (by decide)

theorem clientStep_ping (cl : Client) : ClientStep cl (mqttPing cl).2 :=
  .pack (negErrors_packFixedHeader _) (by decide)

theorem path_sendRules (c : Conn) : SendRules c (SyncPath c) where
  env _ env := .single (.env env)
  io _ _ := .single (.io _)
  client _ _ hmq hfd _ := .single (.client (.keep hmq hfd))
  sent _ _ _ _ now hm hs := .single (.client (.sent now hm hs))

theorem path_recvRules (c : Conn) : RecvRules c (SyncPath c) (SyncStop c) where
  env _ env := .single (.env env)
  io _ _ := .single (.io _)
  client _ _ hmq hfd := .single (.client (.keep hmq hfd))
  packet _ r := .single (.packet r)
  deliver _ _ _ hr := .single (.deliver hr)
  stop msg w _ e hr := ⟨w, .refl, .inr ⟨msg, e, hr⟩⟩

theorem path_mqttSendLoop (c : Conn) (todo i : Nat) (inflight : Bool) :
    Within (SyncPath c) (SyncStop c) (mqttSendLoop c todo i inflight) :=
  (path_sendRules c).mqttSendLoop todo i inflight

/-- However `mqtt_sync` ends, steps of the connection it is called on lead there. -/
theorem path_agSync (c : Conn) : Within (SyncPath c) (SyncStop c) (agSync c) :=
  within_agSync (path_recvRules c) (path_sendRules c) fun w =>
    .single (.client (clientStep_ping (w.conn c).mqclt))

end Admlink
