import Admlink.Bios
import Admlink.Settled

/-!
# `close_conn` finishes cleanly

The loop goes on only after a round that failed, and a round that failed leaves
the client in error: a second round packs nothing and synchronises nothing. So
one DISCONNECT is queued at most, and the counter is three after two more
rounds.
-/

namespace Admlink

open Program Relation World

/-! ## The DISCONNECTs in the queue -/

section Queue

variable {fd : Type} {cl cl' : MqttClient fd}

def QueuedMessage.isDisconnect (m : QueuedMessage) : Bool := m.control_type = .disconnect

def disconnects (cl : MqttClient fd) : Nat := cl.entries.countP (·.isDisconnect)

theorem disconnects_of_mq (h : cl'.mq = cl.mq) : disconnects cl' = disconnects cl := by
  rw [disconnects, disconnects, entries_of_mq h]

theorem disconnects_clean_le : disconnects cl.clean ≤ disconnects cl := by
  rw [disconnects, MqttClient.entries_clean]
  exact (List.dropWhile_sublist _).countP_le

theorem disconnects_register_le (cl : MqttClient fd) (packed : Bytes) (control_type : ControlType)
    (packet_id seqno : Option Nat) :
    disconnects (cl.register packed control_type packet_id seqno) ≤
      disconnects cl + if control_type = .disconnect then 1 else 0 := by
  cases hmq : cl.mq with
  | none =>
      have hsame : (cl.register packed control_type packet_id seqno).mq = cl.mq := by
        simp [MqttClient.register, hmq]
      rw [disconnects_of_mq hsame]
      exact Nat.le_add_right _ _
  | some mq =>
      rw [disconnects, MqttClient.entries_register (by rw [hmq]; rfl), List.countP_append,
        disconnects]
      by_cases htype : control_type = .disconnect <;>
        simp [QueuedMessage.isDisconnect, htype]

/-- Packing adds what it packs, if anything. -/
theorem disconnects_packAndRegister_le (cl : MqttClient fd)
    {pack_call : Option Nat → PackResult} (hneg : NegErrors pack_call)
    (control_type : ControlType) (packet_id seqno : Option Nat) :
    disconnects (packAndRegister cl pack_call control_type packet_id seqno).2 ≤ disconnects cl +
      if (packAndRegister cl pack_call control_type packet_id seqno).1 = .ok ∧
        control_type = .disconnect then 1 else 0 := by
  obtain ⟨cl₀, h₀, ⟨packed, -, h⟩ | ⟨e, he, h⟩⟩ :=
    packAndRegister_cases cl hneg control_type packet_id seqno
  all_goals
    have hbase : disconnects cl₀ ≤ disconnects cl := by
      rcases h₀ with rfl | rfl
      · exact le_rfl
      · exact disconnects_clean_le
    rw [h]
  · have := disconnects_register_le cl₀ packed control_type packet_id seqno
    simp only [true_and]
    omega
  · exact hbase.trans (Nat.le_add_right _ _)

theorem disconnects_set {i : Nat} {m : QueuedMessage} (m' : QueuedMessage)
    (hm : cl.entries[i]? = some m)
    (htype : m'.control_type = m.control_type) :
    disconnects (cl.setEntries (cl.entries.set i m')) = disconnects cl := by
  have hmq : cl.mq.isSome = true := by
    cases hq : cl.mq with
    | some mq => rfl
    | none =>
        rw [MqttClient.entries, hq] at hm
        cases hm
  obtain ⟨hi, hget⟩ := List.getElem?_eq_some_iff.mp hm
  have hkind : m'.isDisconnect = m.isDisconnect := by
    rw [QueuedMessage.isDisconnect, htype]
    rfl
  rw [disconnects, disconnects, MqttClient.entries_setEntries hmq, List.countP_set hi, hget, hkind]
  split
  · have hpos : 0 < cl.entries.countP (·.isDisconnect) :=
      List.countP_pos_iff.mpr ⟨m, List.mem_of_getElem? hm, by assumption⟩
    omega
  · rfl

theorem disconnects_ackPacked (h : AckPacked cl cl') : disconnects cl' ≤ disconnects cl := by
  obtain ⟨control_type, packet_id, htype, hpacked⟩ := h
  have hne : control_type ≠ .disconnect := by
    rintro rfl
    simp at htype
  rw [disconnects_of_mq hpacked]
  have hle := disconnects_packAndRegister_le cl
    (negErrors_packPubxxxRequest control_type packet_id) control_type (some packet_id) none
  rwa [if_neg (fun h => hne h.2)] at hle

/-- No packet of the broker makes the client queue a DISCONNECT. -/
theorem disconnects_afterPacket (r : Response) :
    disconnects (afterPacket cl r) ≤ disconnects cl := by
  cases packetDone cl r with
  | same h => exact (disconnects_of_mq h).le
  | publish _ h => exact disconnects_ackPacked h
  | @release _ _ m _ _ hrelease h =>
      obtain ⟨i, hm, -, rfl⟩ := release_eq hrelease
      have hset := disconnects_set { m with state := .complete } hm rfl
      rcases h with h | ⟨-, h⟩
      · exact ((disconnects_of_mq h).trans hset).le
      · exact (disconnects_ackPacked h).trans hset.le

end Queue

section Sync

variable {c : Conn} {w t : World}

/-- From `w` to `t` the queue of `c` got no further DISCONNECT. -/
def NoDisconnect (c : Conn) (w t : World) : Prop :=
  disconnects (t.conn c).mqclt ≤ disconnects (w.conn c).mqclt

instance (c : Conn) : IsPreorder World (NoDisconnect c) where
  refl _ := le_rfl
  trans _ _ _ h h' := le_trans h' h

theorem noDisconnect_setClient {cl : Client} (h : disconnects cl ≤ disconnects (w.conn c).mqclt) :
    NoDisconnect c w (w.setClient c cl) := by
  rwa [NoDisconnect, conn_setClient_same]

theorem noDisconnect_sendRules (c : Conn) : SendRules c (NoDisconnect c) where
  env _ _ := le_rfl
  io _ _ := le_rfl
  client _ _ hmq _ _ := noDisconnect_setClient (disconnects_of_mq hmq).le
  sent _ _ m state now hm _ := noDisconnect_setClient
    (disconnects_set { m with start := markDup m, state, time_sent := now } hm rfl).le

theorem noDisconnect_recvRules (c : Conn) :
    RecvRules c (NoDisconnect c) (fun _ _ => True) where
  env _ _ := le_rfl
  io _ _ := le_rfl
  client _ _ hmq _ := noDisconnect_setClient (disconnects_of_mq hmq).le
  packet w r := by
    rw [NoDisconnect, conn_setClient_same]
    exact disconnects_afterPacket r
  deliver msg w t hr := by
    have hpath := Within.of_ok (path_admlinkMsgHandle msg) hr
    rw [NoDisconnect, MsgPath.conn hpath c]
    exact le_rfl
  stop _ _ _ _ _ := trivial

theorem noDisconnect_ping (w : World) :
    NoDisconnect c w (w.setClient c (mqttPing (w.conn c).mqclt).2) := by
  refine noDisconnect_setClient ?_
  have hle := disconnects_packAndRegister_le (w.conn c).mqclt
    (negErrors_packFixedHeader ⟨ControlType.pingreq.code, 0, 0⟩) .pingreq none none
  rwa [if_neg (fun h => nomatch h.2)] at hle

theorem noDisconnect_agSync (c : Conn) :
    Within (NoDisconnect c) (fun _ _ => True) (agSync c) := by
  have hexits : Exits (NoDisconnect c) (fun _ _ => True) :=
    ⟨refl_of _, trans_of _, fun _ => trivial, fun _ _ => trivial⟩
  exact within_agSync (noDisconnect_recvRules c) (noDisconnect_sendRules c) noDisconnect_ping

end Sync

/-! ## The rounds -/

section Rounds

variable {c : Conn} {w t u v : World} {trys trys' : Int} {n k : Nat}

/-- The loop of `close_conn`, entered in `w`, begins a round in `u` with the
counter at `trys`. -/
inductive InRound (c : Conn) (w : World) : Int → World → Prop
  | first : InRound c w 0 w
  | again {trys trys' : Int} {u v : World} : InRound c w trys u →
      closeConnRound c trys u = .ok trys' v → 0 < trys' → trys' < 3 → InRound c w trys' v

/-- Every call of `mqtt_sync` that `close_conn` makes returns. -/
def SyncsReturn (c : Conn) (w : World) : Prop :=
  (w.conn c).biofd.isSome = true → ∀ trys u, InRound c w trys u →
    (mqttDisconnect (u.conn c).mqclt).1 = .ok →
    ∃ e v, agSync c (u.setClient c (mqttDisconnect (u.conn c).mqclt).2) = .ok e v

/-- One if `mqtt_disconnect` queues a DISCONNECT. -/
def packed (c : Conn) (w : World) : Nat :=
  if (mqttDisconnect (w.conn c).mqclt).1 = .ok then 1 else 0

/-- Entered with the counter at `trys` the loop ends after `n` rounds, of which
`k` have queued a DISCONNECT. -/
inductive CloseRounds (c : Conn) : Int → World → Nat → Nat → World → Prop
  | last {trys trys' : Int} {w t : World} : closeConnRound c trys w = .ok trys' t →
      ¬ (0 < trys' ∧ trys' < 3) → CloseRounds c trys w 1 (packed c w) t
  | again {trys trys' : Int} {w u t : World} {n k : Nat} : closeConnRound c trys w = .ok trys' u →
      0 < trys' → trys' < 3 → CloseRounds c trys' u n k t →
      CloseRounds c trys w (n + 1) (packed c w + k) t

theorem CloseRounds.run (h : CloseRounds c trys w n k t) : ∀ fuel, n ≤ fuel →
    closeConnLoop c fuel trys w = .ok () t := by
  induction h with
  | last hround hend =>
      intro fuel hfuel
      obtain ⟨fuel, rfl⟩ := Nat.exists_eq_add_of_le' hfuel
      rw [closeConnLoop, bind_of_ok hround, if_neg hend]
      rfl
  | again hround hpos hlt _ ih =>
      intro fuel hfuel
      obtain ⟨fuel, rfl⟩ := Nat.exists_eq_add_of_le' (Nat.succ_le_of_lt (Nat.lt_of_lt_of_le
        (Nat.succ_pos _) hfuel))
      rw [closeConnLoop, bind_of_ok hround, if_pos ⟨hpos, hlt⟩]
      exact ih fuel (by omega)

/-- A client that packs nothing: the round only counts. -/
theorem closeConnRound_failed (h : (mqttDisconnect (w.conn c).mqclt).1 ≠ .ok) (trys : Int) :
    closeConnRound c trys w =
      .ok (trys + 1) (w.setClient c (mqttDisconnect (w.conn c).mqclt).2) := by
  unfold closeConnRound
  rw [bind_of_ok (rfl : onClient c mqttDisconnect w = .ok (mqttDisconnect (w.conn c).mqclt).1
    (w.setClient c (mqttDisconnect (w.conn c).mqclt).2))]
  simp only [if_neg h]
  rfl

theorem idle_of_disconnect_failed {cl : Client} (h : (mqttDisconnect cl).1 ≠ .ok) :
    Idle (mqttDisconnect cl).2 := by
  obtain ⟨cl₀, -, ⟨_, -, hr⟩ | ⟨e, he, hr⟩⟩ := packAndRegister_cases cl
    (negErrors_packFixedHeader ⟨ControlType.disconnect.code, 0, 0⟩) .disconnect none none
  · exact absurd (congrArg Prod.fst hr) h
  · have hcl : (mqttDisconnect cl).2 = { cl₀ with error := e } := congrArg Prod.snd hr
    rw [hcl]
    exact .inl he

theorem closeConnRound_synced {e : MqttErrors} (h : (mqttDisconnect (w.conn c).mqclt).1 = .ok)
    (hsync : agSync c (w.setClient c (mqttDisconnect (w.conn c).mqclt).2) = .ok e v) (trys : Int) :
    closeConnRound c trys w = .ok (if e = .ok then 0 else trys + 1) v := by
  unfold closeConnRound
  rw [bind_of_ok (rfl : onClient c mqttDisconnect w = .ok (mqttDisconnect (w.conn c).mqclt).1
    (w.setClient c (mqttDisconnect (w.conn c).mqclt).2))]
  simp only [if_pos h]
  rw [bind_of_ok hsync]
  by_cases he : e = .ok
  · simp only [if_pos he]
    rfl
  · simp only [if_neg he]
    rfl

theorem noDisconnect_disconnect :
    disconnects (mqttDisconnect (w.conn c).mqclt).2 ≤
      disconnects (w.conn c).mqclt + packed c w := by
  have hle := disconnects_packAndRegister_le (w.conn c).mqclt
    (negErrors_packFixedHeader ⟨ControlType.disconnect.code, 0, 0⟩) .disconnect none none
  simp only [and_true] at hle
  exact hle

/-- What a round that returns has done. -/
theorem closeConnRound_cases (h : closeConnRound c trys w = .ok trys' v) :
    ((mqttDisconnect (w.conn c).mqclt).1 = .ok ∧ ∃ e,
      agSync c (w.setClient c (mqttDisconnect (w.conn c).mqclt).2) = .ok e v ∧
        trys' = if e = .ok then 0 else trys + 1) ∨
      ((mqttDisconnect (w.conn c).mqclt).1 ≠ .ok ∧
        v = w.setClient c (mqttDisconnect (w.conn c).mqclt).2 ∧ trys' = trys + 1) := by
  by_cases hok : (mqttDisconnect (w.conn c).mqclt).1 = .ok
  · left
    have hround := h
    unfold closeConnRound at hround
    rw [bind_of_ok (rfl : onClient c mqttDisconnect w = .ok (mqttDisconnect (w.conn c).mqclt).1
      (w.setClient c (mqttDisconnect (w.conn c).mqclt).2))] at hround
    simp only [if_pos hok] at hround
    obtain ⟨e, u, hsync, -⟩ := bind_ok hround
    have heq := (closeConnRound_synced hok hsync trys).symm.trans h
    simp only [EStateM.Result.ok.injEq] at heq
    obtain ⟨rfl, rfl⟩ := heq
    exact ⟨hok, e, hsync, rfl⟩
  · right
    have heq := (closeConnRound_failed hok trys).symm.trans h
    simp only [EStateM.Result.ok.injEq] at heq
    obtain ⟨rfl, rfl⟩ := heq
    exact ⟨hok, rfl, rfl⟩

/-- Behind the first round the client packs nothing. -/
theorem InRound.idle (h : InRound c w trys u) :
    (trys = 0 ∧ u = w) ∨ Idle (u.conn c).mqclt := by
  cases h with
  | first => exact .inl ⟨rfl, rfl⟩
  | again _ hround hpos _ =>
      right
      rcases closeConnRound_cases hround with ⟨-, e, hsync, htrys⟩ | ⟨hfailed, rfl, -⟩
      · have he : e ≠ .ok := by
          rintro rfl
          rw [if_pos rfl] at htrys
          omega
        exact .inl ((returns_mqttSync (publishCallback c) c).of_ok trivial hsync he)
      · rw [conn_setClient_same]
        exact idle_of_disconnect_failed hfailed

/-- So the first round makes the only call of `mqtt_sync`. -/
theorem syncsReturn_iff : SyncsReturn c w ↔
    ((w.conn c).biofd.isSome = true → (mqttDisconnect (w.conn c).mqclt).1 = .ok →
      ∃ e v, agSync c (w.setClient c (mqttDisconnect (w.conn c).mqclt).2) = .ok e v) := by
  constructor
  · intro h hbio
    exact h hbio 0 w .first
  · intro h hbio trys u hround hok
    rcases hround.idle with ⟨-, rfl⟩ | hidle
    · exact h hbio hok
    · exact absurd hok (disconnect_idle hidle).1

/-- A client that packs nothing is counted through to three. -/
theorem idle_rounds : ∀ (n : Nat) (trys : Int) (w : World), trys + n = 2 → 0 ≤ trys →
    Idle (w.conn c).mqclt → ∃ t, CloseRounds c trys w (n + 1) 0 t ∧ NoDisconnect c w t := by
  intro n
  induction n with
  | zero =>
      intro trys w htrys _ hidle
      obtain ⟨hne, -⟩ := disconnect_idle hidle
      have hround := closeConnRound_failed hne trys
      have hpacked : packed c w = 0 := if_neg hne
      have hlast := CloseRounds.last hround (by omega)
      rw [hpacked] at hlast
      refine ⟨_, hlast, noDisconnect_setClient ?_⟩
      have hle := noDisconnect_disconnect (c := c) (w := w)
      omega
  | succ n ih =>
      intro trys w htrys hpos hidle
      obtain ⟨hne, hidle'⟩ := disconnect_idle hidle
      have hround := closeConnRound_failed hne trys
      have hpacked : packed c w = 0 := if_neg hne
      obtain ⟨t, hrun, hrest⟩ := ih (trys + 1)
        (w.setClient c (mqttDisconnect (w.conn c).mqclt).2) (by omega) (by omega)
        (by rwa [conn_setClient_same])
      have hall := CloseRounds.again hround (by omega) (by omega) hrun
      rw [hpacked] at hall
      refine ⟨t, hall, trans_of (NoDisconnect c) (noDisconnect_setClient ?_) hrest⟩
      have hle := noDisconnect_disconnect (c := c) (w := w)
      omega

/-- However the first round ends, two more are enough. -/
theorem closeRounds_end (hbio : (w.conn c).biofd.isSome = true) (h : SyncsReturn c w) :
    ∃ n k t, CloseRounds c 0 w n k t ∧ n ≤ 3 ∧ k ≤ 1 ∧
      disconnects (t.conn c).mqclt ≤ disconnects (w.conn c).mqclt + k := by
  have hle := noDisconnect_disconnect (c := c) (w := w)
  by_cases hok : (mqttDisconnect (w.conn c).mqclt).1 = .ok
  · have hpacked : packed c w = 1 := if_pos hok
    obtain ⟨e, v, hsync⟩ := h hbio 0 w .first hok
    have hround := closeConnRound_synced hok hsync 0
    have hkept : disconnects (v.conn c).mqclt ≤ disconnects (w.conn c).mqclt + 1 := by
      have hv := (noDisconnect_agSync c).of_ok hsync
      simp only [NoDisconnect, conn_setClient_same] at hv
      omega
    by_cases he : e = .ok
    · rw [if_pos he] at hround
      refine ⟨1, 1, v, hpacked ▸ .last hround (by omega), by omega, by omega, hkept⟩
    · -- the synchronisation has left the client in error
      have hidle : Idle (v.conn c).mqclt :=
        .inl ((returns_mqttSync (publishCallback c) c).of_ok trivial hsync he)
      rw [if_neg he] at hround
      obtain ⟨t, hrun, hrest⟩ := idle_rounds 1 1 v (by omega) (by omega) hidle
      refine ⟨3, 1, t, hpacked ▸ .again hround (by omega) (by omega) hrun, by omega, by omega, ?_⟩
      exact le_trans hrest hkept
  · have hpacked : packed c w = 0 := if_neg hok
    have hround := closeConnRound_failed hok 0
    have hidle := idle_of_disconnect_failed hok
    obtain ⟨t, hrun, hrest⟩ := idle_rounds 1 1
      (w.setClient c (mqttDisconnect (w.conn c).mqclt).2) (by omega) (by omega)
      (by rwa [conn_setClient_same])
    refine ⟨3, 0, t, ?_, by omega, by omega, ?_⟩
    · have hall := CloseRounds.again hround (by omega) (by omega) hrun
      rwa [hpacked] at hall
    · simp only [NoDisconnect, conn_setClient_same] at hrest
      omega

end Rounds

/-! ## `close_conn` -/

section Close

variable {c : Conn} {w t u : World} {b : BioId}

/-- How `close_conn`, called in `w`, has left the connection in `t`. -/
structure CleanlyClosed (c : Conn) (w t : World) : Prop where
  rounds : ∀ b, (w.conn c).biofd = some b → ∃ n k u, CloseRounds c 0 w n k u ∧ n ≤ 3 ∧ k ≤ 1 ∧
    t = u.released c b
  disconnects : disconnects (t.conn c).mqclt ≤ disconnects (w.conn c).mqclt + 1
  freed : freedBios t.trace = (w.conn c).biofd.toList ++ freedBios w.trace
  biofd : (t.conn c).biofd = none
  connfd : (t.conn c).connfd = 0
  status : (t.conn c).status = 0
  again : closeConn c t = .ok () t

theorem closeConn_none (h : (w.conn c).biofd = none) : closeConn c w = .ok () (w.reset c) := by
  unfold closeConn
  rw [bind_of_ok (rfl : getConn c w = .ok (w.conn c) w), h]
  rfl

theorem closeConn_some (h : (w.conn c).biofd = some b) (hloop : closeConnLoop c 3 0 w = .ok () u) :
    closeConn c w = .ok () (u.released c b) := by
  have hreleased : u.released c b = (((u.log (.bioFreeAll b)).setConn c
      { u.conn c with biofd := none, ssl_ctx := none }).setConn c
        { u.conn c with biofd := none, ssl_ctx := none, connfd := 0, status := 0 }) := by
    rw [setConn_setConn]
    rfl
  unfold closeConn
  rw [bind_of_ok (rfl : getConn c w = .ok (w.conn c) w), h, hreleased]
  simp only
  rw [bind_of_ok hloop]
  cases c <;> rfl

theorem reset_self (hconnfd : (w.conn c).connfd = 0) (hstatus : (w.conn c).status = 0) :
    w.reset c = w := by
  have hsame : ∀ p : MqConn, p.connfd = 0 → p.status = 0 →
      { p with connfd := 0, status := 0 } = p := by
    rintro ⟨⟩ rfl rfl
    rfl
  rw [reset, hsame _ hconnfd hstatus]
  cases c <;> rfl

/-- Nothing is left to do for a second call. -/
theorem closeConn_again (hbio : (t.conn c).biofd = none) (hconnfd : (t.conn c).connfd = 0)
    (hstatus : (t.conn c).status = 0) : closeConn c t = .ok () t := by
  rw [closeConn_none hbio, reset_self hconnfd hstatus]

/-- `close_conn` returns, whatever state the client is in, and has closed the
connection cleanly. -/
theorem closeConn_clean (c : Conn) (w : World) (h : SyncsReturn c w) :
    ∃ t, closeConn c w = .ok () t ∧ CleanlyClosed c w t := by
  cases hbio : (w.conn c).biofd with
  | none =>
      refine ⟨w.reset c, closeConn_none hbio, ?_⟩
      have hconn := conn_reset_same w c
      constructor
      · rintro b hb
        rw [hbio] at hb
        cases hb
      · rw [hconn]
        exact Nat.le_add_right _ _
      · rw [hbio]
        rfl
      · rw [hconn, hbio]
      · rw [hconn]
      · rw [hconn]
      · exact closeConn_again (by rw [hconn, hbio]) (by rw [hconn]) (by rw [hconn])
  | some b =>
      -- three rounds at most, however the synchronisations answer
      obtain ⟨n, k, u, hrounds, hn, hk, hqueue⟩ := closeRounds_end (by rw [hbio]; rfl) h
      have hloop := hrounds.run 3 hn
      have hconn := conn_released_same u c b
      refine ⟨u.released c b, closeConn_some hbio hloop, ?_⟩
      constructor
      · intro b' hb'
        cases hbio.symm.trans hb'
        exact ⟨n, k, u, hrounds, hn, hk, rfl⟩
      · rw [hconn]
        exact hqueue.trans (by omega)
      · -- the rounds themselves free nothing
        have hpath : SyncPath c w u := (path_closeConnLoop c 3 0).of_ok hloop
        have hold : freedBios u.trace = freedBios w.trace :=
          freedBios_logs (SyncPath.frame hpath).logs fun _ => id
        rw [hbio, ← hold]
        rfl
      · rw [hconn]
      · rw [hconn]
      · rw [hconn]
      · exact closeConn_again (by rw [hconn]) (by rw [hconn]) (by rw [hconn])

end Close

/-- The receiver right after its CONNECT has been packed, with a broker that
takes both packets. -/
def closingReceiver : World :=
  { boot.connected .mqrecv 5 with env := after 0 [.sent 22, .sent 2] }

theorem closeConn_clean_closing :
    ∃ t, closeConn .mqrecv closingReceiver = .ok () t ∧
      CleanlyClosed .mqrecv closingReceiver t := by
  refine closeConn_clean .mqrecv closingReceiver (syncsReturn_iff.mpr fun _ _ => ?_)
  have hsync : Returned (agSync .mqrecv (closingReceiver.setClient .mqrecv
      (mqttDisconnect (closingReceiver.conn .mqrecv).mqclt).2)) := by decide +kernel
  cases hr : agSync .mqrecv (closingReceiver.setClient .mqrecv
      (mqttDisconnect (closingReceiver.conn .mqrecv).mqclt).2) with
  | ok e v => exact ⟨e, v, rfl⟩
  | error e v =>
      rw [hr] at hsync
      cases hsync

end Admlink
