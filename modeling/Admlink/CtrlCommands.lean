import Admlink.CtrlClient
import Admlink.Logged

/-!
# Control commands between the two programs

The reply of the daemon decides the client's exit status, and the client knows
one failure only, `error`. Both programs have a buffer the command must fit;
the smaller one is the daemon's.
-/

namespace Admlink

open Program World

/-! ## What the client makes of a reply -/

/-- A reply that neither is a message of the daemon's own nor starts like
`error` counts as success. -/
theorem admlinkCtrlCommand_zero {c : UInt8} {cs : Bytes} (hmsg : c ≠ 60) (herr : c ≠ 101)
    (hlen : (c :: cs).length ≤ replySize) (buf : Bytes) :
    admlinkCtrlCommand true [.datagram (c :: cs)] buf = some 0 := by
  have herror : strReplyError = 101 :: [114, 114, 111, 114, 10] := by decide +kernel
  unfold admlinkCtrlCommand admlinkCtrlRequest
  rw [if_pos rfl, admlinkCtrlRequestLoop, List.take_of_length_le hlen]
  simp only [List.head?_cons, Option.some.injEq, hmsg, ↓reduceIte]
  rw [if_neg (by decide), if_neg (by decide), if_neg]
  rw [herror]
  exact fun h => herr (List.cons.inj h).1

/-! ## What the daemon replies -/

/-- The string `admlink_ctrl_iface_receive` makes of a datagram. -/
def ctrlBuf (dgram : Bytes) : Bytes := cstr (dgram.take ctrlBufSize)

/-- The daemon answers ok without looking at the command. -/
def CheatPending (w : World) : Prop :=
  w.agent.agstatus = .isReboot ∨ w.agent.agstatus = .isFwup

/-- The handler of the command ran and returned non-zero. -/
def CarriedOut (dgram : Bytes) (w : World) : Prop :=
  ¬ CheatPending w ∧ ∃ h tm tms t, findCmdHdl (ctrlBuf dgram) = some h ∧
    w.env.tms = tm :: tms ∧
    h.run (w.handling (ctrlBuf dgram) tm { w.env with tms }) = .ok true t

/-- No handler returns zero. -/
theorem run_cmdHdl {h : CmdHdl} {w t : World} {b : Bool} (hr : h.run w = .ok b t) : b = true := by
  cases h with
  | stop =>
      obtain ⟨_, _, _, hr⟩ := bind_ok hr
      cases hr
      rfl
  | sendtest =>
      obtain ⟨_, _, _, hr⟩ := bind_ok hr
      obtain ⟨_, _, _, hr⟩ := bind_ok hr
      obtain ⟨_, _, _, hr⟩ := bind_ok hr
      cases hr
      rfl

theorem admlinkCmdHandle_apply {buf : Bytes} {w : World} {tm : Tm} {tms : List Tm}
    (htms : w.env.tms = tm :: tms) :
    admlinkCmdHandle buf w = (match findCmdHdl buf with
      | none => return bytes "UNKNOWNCMD"
      | some h => do
          if ← h.run then return bytes "OK" else return bytes "UNKNOWN_ERR" : Prog Bytes)
        (w.handling buf tm { w.env with tms }) := by
  unfold admlinkCmdHandle localtime
  rw [bind_of_ok (show emit (.cmdHandle buf) w = .ok () (w.log (.cmdHandle buf)) from rfl),
    bind_assoc, bind_of_ok (get_apply _),
    show (w.log (.cmdHandle buf)).env.tms = tm :: tms from htms]
  rfl

/-- The replies of `admlink_cmd_handle`. -/
theorem admlinkCmdHandle_reply {buf reply : Bytes} {w t : World}
    (hr : admlinkCmdHandle buf w = .ok reply t) :
    (findCmdHdl buf = none ∧ reply = bytes "UNKNOWNCMD") ∨
      (reply = bytes "OK" ∧ ∃ h tm tms, findCmdHdl buf = some h ∧ w.env.tms = tm :: tms ∧
        h.run (w.handling buf tm { w.env with tms }) = .ok true t) := by
  cases htms : w.env.tms with
  | nil =>
      unfold admlinkCmdHandle localtime at hr
      rw [bind_of_ok (show emit (.cmdHandle buf) w = .ok () (w.log (.cmdHandle buf)) from rfl),
        bind_assoc, bind_of_ok (get_apply _),
        show (w.log (.cmdHandle buf)).env.tms = [] from htms] at hr
      cases hr
  | cons tm tms =>
      rw [admlinkCmdHandle_apply htms] at hr
      cases hf : findCmdHdl buf with
      | none =>
          rw [hf] at hr
          cases hr
          exact .inl ⟨rfl, rfl⟩
      | some h =>
          rw [hf] at hr
          obtain ⟨b, u, hrun, hr⟩ := bind_ok hr
          cases run_cmdHdl hrun
          cases hr
          exact .inr ⟨rfl, h, tm, tms, rfl, rfl, hrun⟩

/-- What a command logs once it has been handed over. -/
theorem logs_admlinkCmdHandle (buf : Bytes) (w : World) :
    Logs (fun e => ∃ tm, e.OfCommand tm) (w.log (.cmdHandle buf))
      (final (admlinkCmdHandle buf w)) := by
  have hcmd : ∀ {tm : Tm} {env : Env} {t : World} {hdl : Option CmdHdl},
      (∃ new, t.trace = new ++ (w.handling buf tm env).trace ∧
        ∀ e ∈ new, e.OfCommand tm ∧ (e.isUpload = true → hdl = some .sendtest)) →
      Logs (fun e => ∃ tm, e.OfCommand tm) (w.log (.cmdHandle buf)) t :=
    fun ⟨new, ht, hnew⟩ => ⟨new, ht, fun e he => ⟨_, (hnew e he).1⟩⟩
  refine Ends.final ((admlinkCmdHandle_ends buf w).mono (fun _ t => ?_) fun _ t => ?_)
  · rintro ⟨tm, env, h⟩
    exact hcmd (h.logs rfl)
  · rintro (rfl | ⟨tm, env, h⟩)
    · exact .of_eq rfl
    · exact hcmd (h.logs rfl)

/-- Nothing but the last step of the receiver replies. -/
theorem noReply_admlinkCmdHandle (buf : Bytes) (w : World) :
    Logs (fun e => ∀ reply, e ≠ .ctrlReply reply) w (final (admlinkCmdHandle buf w)) := by
  refine (Logs.log fun _ => Event.noConfusion).trans ((logs_admlinkCmdHandle buf w).mono ?_)
  rintro e ⟨tm, he⟩ reply rfl
  exact he

/-- The replies of the daemon, and what each stands for. -/
theorem ctrlReply_cases {cmd reply : Bytes} {w : World}
    (h : .ctrlReply reply ∈ added (admlinkCtrlIfaceReceive (some cmd)) w) :
    (CheatPending w ∧ reply = strReplyOk) ∨
      (¬ CheatPending w ∧ findCmdHdl (ctrlBuf cmd) = none ∧ reply = bytes "UNKNOWNCMD") ∨
      (CarriedOut cmd w ∧ findCmdHdl (ctrlBuf cmd) ≠ none ∧ reply = bytes "OK") := by
  by_cases hp : CheatPending w
  · have hgate : ¬ (w.agent.agstatus ≠ .isReboot ∧ w.agent.agstatus ≠ .isFwup) := by
      rintro ⟨h₁, h₂⟩
      exact hp.elim h₁ h₂
    have hrun : admlinkCtrlIfaceReceive (some cmd) w = .ok () (w.log (.ctrlReply strReplyOk)) := by
      unfold admlinkCtrlIfaceReceive
      simp only
      rw [bind_of_ok (get_apply w), if_neg hgate]
      rfl
    rw [added_eq [.ctrlReply strReplyOk] (by rw [hrun]; rfl)] at h
    exact .inl ⟨hp, by simpa using h⟩
  · have hgate : w.agent.agstatus ≠ .isReboot ∧ w.agent.agstatus ≠ .isFwup := by
      exact ⟨fun h => hp (.inl h), fun h => hp (.inr h)⟩
    have hrun : admlinkCtrlIfaceReceive (some cmd) w =
        (admlinkCmdHandle (ctrlBuf cmd) >>= fun reply => emit (.ctrlReply reply)) w := by
      unfold admlinkCtrlIfaceReceive
      simp only
      rw [bind_of_ok (get_apply w), if_pos hgate]
      rfl
    -- the handler itself replies nothing, so the reply is the one sent behind it
    obtain ⟨new, ht, hnew⟩ := noReply_admlinkCmdHandle (ctrlBuf cmd) w
    refine .inr ?_
    cases hc : admlinkCmdHandle (ctrlBuf cmd) w with
    | error e t =>
        rw [hc] at ht
        rw [added_eq new (by rw [hrun, bind_apply, hc]; exact ht)] at h
        exact absurd rfl (hnew _ h reply)
    | ok reply' t =>
        rw [hc] at ht
        rw [added_eq (.ctrlReply reply' :: new) (by
          rw [hrun, bind_of_ok hc]
          exact congrArg (Event.ctrlReply reply' :: ·) ht)] at h
        rcases List.mem_cons.mp h with heq | h
        · cases heq
          rcases admlinkCmdHandle_reply hc with hnone | ⟨hok, h, tm, tms, hf, htms, hr⟩
          · exact .inl ⟨hp, hnone⟩
          · exact .inr ⟨⟨hp, h, tm, tms, t, hf, htms, hr⟩, by simp [hf], hok⟩
        · exact absurd rfl (hnew _ h reply)

/-- The client's exit status tells whether the command was carried out or, with
a reboot or an update pending, deliberately answered ok. -/
def StatusAgrees (cmd reply buf : Bytes) (w : World) : Prop :=
  ∃ ret, admlinkCtrlCommand true [.datagram reply] buf = some ret ∧
    (ret = 0 ↔ CarriedOut cmd w ∨ CheatPending w) ∧
    (¬ (CarriedOut cmd w ∨ CheatPending w) → ret < 0)

/-- Whatever the daemon replies, the client takes for success; that is right
unless no command of the table is a prefix of the string. -/
theorem status_agrees (cmd reply buf : Bytes) (w : World)
    (h : .ctrlReply reply ∈ added (admlinkCtrlIfaceReceive (some cmd)) w) :
    StatusAgrees cmd reply buf w ↔ CheatPending w ∨ findCmdHdl (ctrlBuf cmd) ≠ none := by
  have hok : strReplyOk = 111 :: [107, 10] := by decide +kernel
  have hOK : bytes "OK" = 79 :: [75] := bytes_of_utf8 (by decide)
  have hunknown : bytes "UNKNOWNCMD" = 85 :: [78, 75, 78, 79, 87, 78, 67, 77, 68] := by
    decide +kernel
  have hzero : admlinkCtrlCommand true [.datagram reply] buf = some 0 := by
    rcases ctrlReply_cases h with ⟨-, rfl⟩ | ⟨-, -, rfl⟩ | ⟨-, -, rfl⟩
    · rw [hok]
      exact admlinkCtrlCommand_zero (by decide) (by decide) (by decide) buf
    · rw [hunknown]
      exact admlinkCtrlCommand_zero (by decide) (by decide) (by decide) buf
    · rw [hOK]
      exact admlinkCtrlCommand_zero (by decide) (by decide) (by decide) buf
  have hagrees : StatusAgrees cmd reply buf w ↔ CarriedOut cmd w ∨ CheatPending w := by
    constructor
    · rintro ⟨ret, hret, hiff, -⟩
      rw [hzero] at hret
      exact hiff.mp (Option.some.inj hret).symm
    · intro hdone
      exact ⟨0, hzero, by simp [hdone], fun hn => absurd hdone hn⟩
  rw [hagrees]
  rcases ctrlReply_cases h with ⟨hp, -⟩ | ⟨hp, hnone, -⟩ | ⟨hc, hsome, -⟩
  · simp [hp]
  · refine iff_of_false ?_ (by simp [hp, hnone])
    rintro (⟨-, h, _, _, _, hf, -⟩ | hp')
    · rw [hnone] at hf
      cases hf
    · exact hp hp'
  · exact iff_of_true (.inl hc) (.inr hsome)

theorem status_agrees_stop :
    StatusAgrees (bytes "stop") (bytes "OK") [] boot ↔
      CheatPending boot ∨ findCmdHdl (ctrlBuf (bytes "stop")) ≠ none :=
  status_agrees _ _ [] boot (by decide +kernel)

/-- A word the daemon does not know, and exit status 0. -/
theorem status_unknown_command :
    ¬ ∀ (cmd reply buf : Bytes) (w : World),
      .ctrlReply reply ∈ added (admlinkCtrlIfaceReceive (some cmd)) w →
        StatusAgrees cmd reply buf w := by
  intro h
  have hreply : .ctrlReply (bytes "UNKNOWNCMD") ∈
      added (admlinkCtrlIfaceReceive (some (bytes "restart"))) boot := by decide +kernel
  obtain ⟨ret, hret, hiff, -⟩ := h (bytes "restart") (bytes "UNKNOWNCMD") [] boot hreply
  have hzero : admlinkCtrlCommand true [.datagram (bytes "UNKNOWNCMD")] [] = some 0 := by
    decide +kernel
  rw [hzero] at hret
  rcases hiff.mp (Option.some.inj hret).symm with ⟨-, h, _, _, _, hf, -⟩ | hp
  · have hnone : findCmdHdl (ctrlBuf (bytes "restart")) = none := by decide +kernel
    rw [hnone] at hf
    cases hf
  · exact absurd hp (by unfold CheatPending; decide +kernel)

/-! ## Arguments on their way to the daemon -/

theorem flatten_spaced (argv0 : Bytes) (argv : List Bytes) :
    (cstr argv0 :: argv.map fun arg => bytes " " ++ cstr arg).flatten = spaced argv0 argv := by
  induction argv generalizing argv0 with
  | nil => simp [spaced]
  | cons arg argv ih =>
      have h := ih arg
      unfold spaced at h ⊢
      rw [List.map_cons, List.map_cons, List.intersperse_cons_cons, List.flatten_cons,
        List.flatten_cons, List.flatten_cons, List.flatten_cons, ← h]
      simp

theorem nul_notMem_spaced (argv0 : Bytes) (argv : List Bytes) : Ch.nul ∉ spaced argv0 argv := by
  have hblank : Ch.nul ∉ bytes " " := notMem_bytes (by decide)
  rw [← flatten_spaced, List.mem_flatten]
  rintro ⟨piece, hpiece, hmem⟩
  rcases List.mem_cons.mp hpiece with rfl | hpiece
  · exact nul_notMem_cstr _ hmem
  · obtain ⟨arg, -, rfl⟩ := List.mem_map.mp hpiece
    rcases List.mem_append.mp hmem with hmem | hmem
    · exact hblank hmem
    · exact nul_notMem_cstr _ hmem

/-- The string handed to `admlink_cmd_handle`. -/
def Event.handed : Event → Option Bytes
  | .cmdHandle buf => some buf
  | _ => none

/-- The strings `admlink_ctrl_iface_receive` hands over for one datagram. -/
def handedOver (dgram : Bytes) (w : World) : List Bytes :=
  (added (admlinkCtrlIfaceReceive (some dgram)) w).filterMap Event.handed

theorem handedOver_eq (dgram : Bytes) (w : World) :
    handedOver dgram w =
      if w.agent.agstatus ≠ .isReboot ∧ w.agent.agstatus ≠ .isFwup then [ctrlBuf dgram]
      else [] := by
  unfold handedOver
  by_cases hgate : w.agent.agstatus ≠ .isReboot ∧ w.agent.agstatus ≠ .isFwup
  · have hrun : admlinkCtrlIfaceReceive (some dgram) w =
        (admlinkCmdHandle (ctrlBuf dgram) >>= fun reply => emit (.ctrlReply reply)) w := by
      unfold admlinkCtrlIfaceReceive
      simp only
      rw [bind_of_ok (get_apply w), if_pos hgate]
      rfl
    obtain ⟨new, ht, hnew⟩ : Logs (fun e => e.handed = none) (w.log (.cmdHandle (ctrlBuf dgram)))
        (final (admlinkCtrlIfaceReceive (some dgram) w)) := by
      have hlogs := (logs_admlinkCmdHandle (ctrlBuf dgram) w).mono (Q := fun e => e.handed = none)
        (by rintro e ⟨tm, he⟩; cases e <;> first | rfl | exact he.elim)
      rw [hrun, bind_apply]
      cases hc : admlinkCmdHandle (ctrlBuf dgram) w with
      | ok reply t =>
          rw [hc] at hlogs
          exact hlogs.trans (.log (e := .ctrlReply reply) rfl)
      | error e t =>
          rw [hc] at hlogs
          exact hlogs
    rw [added_eq (new ++ [.cmdHandle (ctrlBuf dgram)])
      (by rw [ht, List.append_assoc]; rfl), List.filterMap_append,
      List.filterMap_eq_nil_iff.mpr hnew, if_pos hgate]
    rfl
  · have hrun : admlinkCtrlIfaceReceive (some dgram) w =
        .ok () (w.log (.ctrlReply strReplyOk)) := by
      unfold admlinkCtrlIfaceReceive
      simp only
      rw [bind_of_ok (get_apply w), if_neg hgate]
      rfl
    rw [added_eq [.ctrlReply strReplyOk] (by rw [hrun]; rfl), if_neg hgate]
    rfl

/-- `sysconf_request` stays inside its buffer and builds the arguments joined
by blanks, and that is what the daemon hands over. -/
def CrossesUnchanged (argv0 : Bytes) (argv : List Bytes) : Prop :=
  ∃ cmd, sysconfRequest argv0 argv = .ok cmd ∧ cmd = spaced argv0 argv ∧
    ∀ w, ∀ buf ∈ handedOver cmd w, buf = spaced argv0 argv

/-- The daemon hands over no more than its buffer holds. -/
theorem CrossesUnchanged.length_le {argv0 : Bytes} {argv : List Bytes}
    (h : CrossesUnchanged argv0 argv) : (spaced argv0 argv).length ≤ ctrlBufSize := by
  obtain ⟨cmd, -, rfl, hall⟩ := h
  have hgate : boot.agent.agstatus ≠ .isReboot ∧ boot.agent.agstatus ≠ .isFwup := by
    decide +kernel
  have hbuf : ctrlBuf (spaced argv0 argv) = spaced argv0 argv :=
    hall boot _ (by rw [handedOver_eq, if_pos hgate]; exact List.mem_singleton_self _)
  rw [← hbuf]
  exact (length_cstr_le _).trans (List.length_take_le ..)

/-- Commands cross the socket unchanged up to the daemon's buffer. -/
theorem crosses_unchanged (argv0 : Bytes) (argv : List Bytes) :
    CrossesUnchanged argv0 argv ↔ (spaced argv0 argv).length ≤ ctrlBufSize := by
  constructor
  · exact CrossesUnchanged.length_le
  · intro hlen
    have hsize : ctrlBufSize < requestSize := by decide
    refine ⟨spaced argv0 argv, ?_, rfl, fun w buf hbuf => ?_⟩
    · rw [sysconfRequest, strcats_fits, List.nil_append, flatten_spaced]
      rw [List.nil_append, flatten_spaced]
      omega
    · have hself : ctrlBuf (spaced argv0 argv) = spaced argv0 argv := by
        rw [ctrlBuf, List.take_of_length_le hlen, cstr_eq_self (nul_notMem_spaced argv0 argv)]
      rw [handedOver_eq] at hbuf
      split at hbuf
      · exact (List.mem_singleton.mp hbuf).trans hself
      · cases hbuf

/-- An argument of 256 characters is cut. -/
theorem long_argument_cut : ¬ ∀ argv0 argv, CrossesUnchanged argv0 argv := by
  intro h
  exact absurd (h (List.replicate 256 120) []).length_le (by decide +kernel)

end Admlink
