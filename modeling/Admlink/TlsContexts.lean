import Admlink.Lib.History
import Admlink.Logged

/-!
# References to the TLS contexts

`SSL_CTX_new` and the SSL that `BIO_new_ssl_connect` makes hold one reference
each. `close_conn` frees the BIO chain and forgets `ssl_ctx`, so the first
reference stays; an attempt that fails after `BIO_do_connect` keeps both, and
the next one overwrites them. The contexts stay accounted for as long as
neither happens.
-/

namespace Admlink

open Program World Relation Runs

/-! ## Reference counts -/

/-- The context of the SSL in BIO `b`. -/
def ctxOfBio (trace : List Event) (b : BioId) : Option CtxId :=
  trace.findSome? fun
    | .bioNew _ _ b' x => if b' = b then some x else none
    | _ => none

/-- What an event does to the reference count of `x`. -/
def ctxChange (x : CtxId) (e : Event) (past : List Event) : Int :=
  match e with
  | .sslCtxNew y => if y = x then 1 else 0
  | .bioNew _ _ _ y => if y = x then 1 else 0
  | .bioFreeAll b => if ctxOfBio past b = some x then -1 else 0
  | .sslCtxFree y => if y = x then -1 else 0
  | _ => 0

def ctxRefs (trace : List Event) (x : CtxId) : Int := History.balance (ctxChange x) trace

/-- The contexts `open_nb_socket` has created for `c`. -/
def ctxsOf (trace : List Event) (c : Conn) : List CtxId :=
  trace.filterMap fun
    | .bioNew d _ _ x => if d = c then some x else none
    | _ => none

def liveCtxs (trace : List Event) (c : Conn) : List CtxId :=
  (ctxsOf trace c).filter (0 < ctxRefs trace ·)

/-- At most one live context, and none for a connection without `ssl_ctx`. -/
def OneCtx (w : World) : Prop :=
  ∀ c, (liveCtxs w.trace c).length ≤ 1 ∧ ((w.conn c).ssl_ctx = none → liveCtxs w.trace c = [])

instance (w : World) : Decidable (OneCtx w) :=
  decidable_of_iff (_ ∧ _)
    ⟨fun h c => by cases c; exacts [h.1, h.2], fun h => ⟨h .mqrecv, h .mqupld⟩⟩

/-- An event that touches no context. -/
def Event.noCtx : Event → Prop
  | .sslCtxNew _ | .bioNew .. | .bioFreeAll _ | .sslCtxFree _ => False
  | _ => True

def Event.ctx : Event → Option CtxId
  | .sslCtxNew x | .bioNew _ _ _ x | .sslCtxFree x => some x
  | _ => none

section Trace

variable {new old : List Event} {c : Conn} {x : CtxId}

theorem ctxChange_noCtx {e : Event} (h : e.noCtx) (past : List Event) : ctxChange x e past = 0 := by
  cases e <;> first | rfl | exact h.elim

theorem ctxRefs_append (h : ∀ e ∈ new, e.noCtx) : ctxRefs (new ++ old) x = ctxRefs old x :=
  History.balance_append fun e he past => ctxChange_noCtx (h e he) past

theorem ctxsOf_append (h : ∀ e ∈ new, e.noCtx) : ctxsOf (new ++ old) c = ctxsOf old c := by
  rw [ctxsOf, List.filterMap_append, List.filterMap_eq_nil_iff.mpr]
  · rfl
  · intro e he
    cases e with
    | bioNew => exact (h _ he).elim
    | _ => rfl

theorem mem_ctxsOf : x ∈ ctxsOf old c ↔ ∃ b b', .bioNew c b b' x ∈ old := by
  rw [ctxsOf, List.mem_filterMap]
  constructor
  · rintro ⟨e, he, hx⟩
    cases e with
    | bioNew d b b' y =>
        simp only [Option.ite_none_right_eq_some, Option.some.injEq] at hx
        obtain ⟨rfl, rfl⟩ := hx
        exact ⟨b, b', he⟩
    | _ => cases hx
  · rintro ⟨b, b', he⟩
    exact ⟨_, he, by simp⟩

theorem mem_of_ctxOfBio {b : BioId} (h : ctxOfBio old b = some x) :
    ∃ c b', .bioNew c b' b x ∈ old := by
  obtain ⟨e, he, hx⟩ := List.exists_of_findSome?_eq_some h
  cases e with
  | bioNew c b' b'' y =>
      simp only [Option.ite_none_right_eq_some, Option.some.injEq] at hx
      obtain ⟨rfl, rfl⟩ := hx
      exact ⟨c, b', he⟩
  | _ => cases hx

/-- A context the history does not mention has no references. -/
theorem ctxRefs_fresh (h : ∀ e ∈ old, e.ctx ≠ some x) : ctxRefs old x = 0 := by
  refine History.balance_eq_zero (History.each_iff.mpr ?_)
  intro post e past hsplit
  have he : e ∈ old := by
    rw [hsplit]
    simp
  have hpast : ∀ e' ∈ past, e'.ctx ≠ some x := by
    intro e' he'
    refine h e' ?_
    rw [hsplit]
    simp [he']
  cases e with
  | sslCtxNew y => exact if_neg fun hy => h _ he (congrArg some hy)
  | bioNew _ _ _ y => exact if_neg fun hy => h _ he (congrArg some hy)
  | sslCtxFree y => exact if_neg fun hy => h _ he (congrArg some hy)
  | bioFreeAll b =>
      refine if_neg fun hb => ?_
      obtain ⟨c, b', hmem⟩ := mem_of_ctxOfBio hb
      exact hpast _ hmem rfl
  | _ => rfl

end Trace

/-! ## Nothing but opening and closing touches them -/

section Counters

variable {c : Conn} {w t : World}

theorem MsgPath.ctxs {upload : Bool} (h : MsgPath upload w t) : t.ctxs = w.ctxs := by
  induction h with
  | refl => rfl
  | tail _ hs ih =>
      rw [← ih]
      cases hs <;> rfl

theorem SyncPath.ctxs (h : SyncPath c w t) : t.ctxs = w.ctxs := by
  induction h with
  | refl => rfl
  | tail _ hs ih =>
      rw [← ih]
      cases hs with
      | @deliver msg _ hr =>
          have hpath := (path_admlinkMsgHandle msg).of_ok hr
          exact (MsgPath.ctxs hpath).trans rfl
      | _ => rfl

theorem Frame.ssl_ctx (h : Frame c w t) (d : Conn) : (t.conn d).ssl_ctx = (w.conn d).ssl_ctx := by
  by_cases hd : d = c
  · rw [hd, h.own]
  · rw [h.other d hd]

theorem Frame.noCtx (h : Frame c w t) : Logs Event.noCtx w t :=
  h.logs.mono fun e he => by cases e <;> first | exact trivial | exact he.elim

end Counters

/-- The event frees no BIO that a connection holds and opens none over a context
that is still stored. -/
def Event.keepsRefs (w : World) : Event → Prop
  | .bioFreeAll b => ∀ c, (w.conn c).biofd ≠ some b
  | .bioNew c _ _ _ => (w.conn c).ssl_ctx = none
  | _ => True

/-- A connection without `ssl_ctx` has no live context, one with it no other. -/
structure CtxInv (w : World) : Prop where
  fresh : ∀ e ∈ w.trace, ∀ x, e.ctx = some x → x < w.ctxs
  nodup : ∀ c, (ctxsOf w.trace c).Nodup
  alive : ∀ c x, x ∈ ctxsOf w.trace c → 0 < ctxRefs w.trace x → (w.conn c).ssl_ctx = some x

namespace CtxInv

variable {c : Conn} {w t u : World}

theorem still (h : CtxInv w) (hlogs : Logs Event.noCtx w t)
    (hssl : ∀ d, (t.conn d).ssl_ctx = (w.conn d).ssl_ctx) (hctxs : t.ctxs = w.ctxs) :
    CtxInv t := by
  obtain ⟨new, ht, hnew⟩ := hlogs
  constructor
  · intro e he x hx
    rw [ht] at he
    rw [hctxs]
    rcases List.mem_append.mp he with he | he
    · have hno := hnew e he
      cases e with
      | sslCtxNew | bioNew | sslCtxFree => exact hno.elim
      | _ => cases hx
    · exact h.fresh e he x hx
  · intro d
    rw [ht, ctxsOf_append hnew]
    exact h.nodup d
  · intro d x hx hpos
    rw [ht, ctxsOf_append hnew] at hx
    rw [ht, ctxRefs_append hnew] at hpos
    rw [hssl]
    exact h.alive d x hx hpos

theorem sync (h : CtxInv w) (hs : SyncPath c w t) : CtxInv t :=
  h.still (SyncPath.frame hs).noCtx (SyncPath.frame hs).ssl_ctx (SyncPath.ctxs hs)

/-- A new context `w.ctxs` for `c`, which had none. -/
theorem opened (h : CtxInv w) (hnone : (w.conn c).ssl_ctx = none)
    (hevents : ∀ e ∈ t.trace, e ∈ w.trace ∨ ∀ x, e.ctx = some x → x = w.ctxs)
    (hof : ∀ d, ctxsOf t.trace d =
      if c = d then w.ctxs :: ctxsOf w.trace d else ctxsOf w.trace d)
    (hrefs : ∀ x, x ≠ w.ctxs → ctxRefs t.trace x = ctxRefs w.trace x)
    (hnew : 0 < ctxRefs t.trace w.ctxs → (t.conn c).ssl_ctx = some w.ctxs)
    (hother : ∀ d, d ≠ c → t.conn d = w.conn d) (hctxs : t.ctxs = w.ctxs + 1) : CtxInv t := by
  have hold : ∀ d x, x ∈ ctxsOf w.trace d → x < w.ctxs := by
    intro d x hx
    obtain ⟨b, b', hmem⟩ := mem_ctxsOf.mp hx
    exact h.fresh _ hmem x rfl
  constructor
  · intro e he x hx
    rw [hctxs]
    rcases hevents e he with hw | heq
    · exact Nat.lt_succ_of_lt (h.fresh e hw x hx)
    · rw [heq x hx]
      exact Nat.lt_succ_self _
  · intro d
    rw [hof]
    split
    · rw [List.nodup_cons]
      exact ⟨fun hmem => Nat.lt_irrefl _ (hold d _ hmem), h.nodup d⟩
    · exact h.nodup d
  · -- an older context keeps its references, and `c` had none of them
    intro d x hx hpos
    by_cases hxnew : x = w.ctxs
    · subst hxnew
      have hd : c = d := by
        by_contra hne
        rw [hof, if_neg hne] at hx
        exact Nat.lt_irrefl _ (hold d _ hx)
      rw [← hd]
      exact hnew hpos
    · rw [hrefs x hxnew] at hpos
      have hmem : x ∈ ctxsOf w.trace d := by
        rw [hof] at hx
        split at hx
        · exact (List.mem_cons.mp hx).resolve_left hxnew
        · exact hx
      have halive := h.alive d x hmem hpos
      by_cases hd : d = c
      · rw [hd, hnone] at halive
        cases halive
      · rw [hother d hd]
        exact halive

theorem connected (h : CtxInv w) (hnone : (w.conn c).ssl_ctx = none) (connfd : Nat) :
    CtxInv (w.connected c connfd) := by
  have hrefs : ∀ x, ctxRefs (w.connected c connfd).trace x =
      ctxRefs w.trace x + (if w.ctxs = x then 1 else 0) + (if w.ctxs = x then 1 else 0) + 0 :=
    fun x => rfl
  refine h.opened hnone (fun e he => ?_) (fun d => ?_) (fun x hx => ?_) (fun _ => ?_)
    (fun d hd => w.conn_connected_other hd connfd) rfl
  · change e ∈ [Event.mqttInit c, .bioNew c (w.conn c).biofd w.bios w.ctxs, .sslCtxNew w.ctxs] ++
      w.trace at he
    rcases List.mem_append.mp he with he | he
    · right
      simp only [List.mem_cons, List.not_mem_nil, or_false] at he
      rcases he with rfl | rfl | rfl
      · intro x hx
        cases hx
      · intro x hx
        exact (Option.some.inj hx).symm
      · intro x hx
        exact (Option.some.inj hx).symm
    · exact .inl he
  · by_cases hd : c = d
    · simp [World.connected, World.bioOpened, World.ctxOpened, ctxsOf, hd]
    · simp [World.connected, World.bioOpened, World.ctxOpened, ctxsOf, hd]
  · rw [hrefs, if_neg (Ne.symm hx)]
    simp
  · rw [World.connected, World.conn_setConn_same]

theorem refused (h : CtxInv w) (hnone : (w.conn c).ssl_ctx = none) : CtxInv (w.refused c) := by
  have hrefs : ∀ x, ctxRefs (w.refused c).trace x =
      ctxRefs w.trace x + (if w.ctxs = x then 1 else 0) + (if w.ctxs = x then 1 else 0) +
        (if some w.ctxs = some x then -1 else 0) + (if w.ctxs = x then -1 else 0) := by
    intro x
    have hbio : ctxOfBio (w.bioOpened c).trace w.bios = some w.ctxs := by
      simp [World.bioOpened, World.ctxOpened, ctxOfBio]
    rw [← hbio]
    rfl
  refine h.opened hnone (fun e he => ?_) (fun d => ?_) (fun x hx => ?_) (fun hpos => ?_)
    (fun d hd => w.conn_refused_other hd) rfl
  · change e ∈ [Event.sslCtxFree w.ctxs, .bioFreeAll w.bios,
      .bioNew c (w.conn c).biofd w.bios w.ctxs, .sslCtxNew w.ctxs] ++ w.trace at he
    rcases List.mem_append.mp he with he | he
    · right
      simp only [List.mem_cons, List.not_mem_nil, or_false] at he
      rcases he with rfl | rfl | rfl | rfl
      · intro x hx
        exact (Option.some.inj hx).symm
      · intro x hx
        cases hx
      · intro x hx
        exact (Option.some.inj hx).symm
      · intro x hx
        exact (Option.some.inj hx).symm
    · exact .inl he
  · by_cases hd : c = d
    · simp [World.refused, World.bioOpened, World.ctxOpened, ctxsOf, hd]
    · simp [World.refused, World.bioOpened, World.ctxOpened, ctxsOf, hd]
  · rw [hrefs]
    simp [Ne.symm hx]
  · have hzero : ctxRefs w.trace w.ctxs = 0 := by
      refine ctxRefs_fresh fun e he hx => ?_
      exact Nat.lt_irrefl _ (h.fresh e he _ hx)
    rw [hrefs, hzero] at hpos
    simp at hpos

/-! ## Dispatches -/

/-- An attempt to connect `c`, all of whose events are `P`. -/
theorem connectEnd {b : Bool} {P : Event → Prop} (h : CtxInv w) (hc : ConnectEnd c w b t)
    (hlogs : Logs P w t) (hP : ∀ old b x, P (.bioNew c old b x) → (w.conn c).ssl_ctx = none) :
    CtxInv t := by
  have hctx : Logs (fun _ => True) w (w.ctxOpened c) := ⟨[.sslCtxNew w.ctxs], rfl, by simp⟩
  have hnone : ∀ (new : List Event) {u : World},
      u.trace = new ++ .bioNew c (w.conn c).biofd w.bios w.ctxs :: (w.ctxOpened c).trace →
      Logs (fun _ => True) u t → (w.conn c).ssl_ctx = none := by
    intro new u hu ht
    have hnew : Logs (fun _ => True)
        ((w.ctxOpened c).log (.bioNew c (w.conn c).biofd w.bios w.ctxs)) u := ⟨new, hu, by simp⟩
    exact hP _ _ _ (hlogs.between hctx (hnew.trans ht))
  cases hc with
  | refused _ =>
      exact h.refused (hnone [.sslCtxFree _, .bioFreeAll _] (u := w.refused c) rfl (.of_eq rfl))
  | @failed connfd _ _ _ hr _ =>
      have hpath := (path_agSync c).of_ok hr
      have hfree := hnone [.mqttInit c] (u := w.connected c connfd) rfl
        (SyncPath.frame hpath).logs.any
      exact (h.connected hfree connfd).sync hpath
  | @up connfd u d env _ hpath =>
      have hup : Logs (fun _ => True) u (u.up c d env) := ⟨[.registerTimeout _], rfl, by simp⟩
      have hfree := hnone [.mqttInit c] (u := w.connected c connfd) rfl
        ((SyncPath.frame hpath).logs.any.trans hup)
      refine ((h.connected hfree connfd).sync hpath).still ⟨[.registerTimeout _], rfl, ?_⟩
        (fun e => ?_) rfl
      · simp [Event.noCtx]
      · by_cases he : e = c
        · rw [he, World.conn_up_same]
        · rw [u.conn_up_other he]

/-- A connection that holds no BIO. -/
theorem closed (h : CtxInv w) (hc : Closed c w t) {P : Event → Prop} (hlogs : Logs P w t)
    (hP : ∀ b, (w.conn c).biofd = some b → ¬ P (.bioFreeAll b)) : CtxInv t := by
  cases hc with
  | reset _ =>
      refine h.still (.of_eq rfl) (fun d => ?_) rfl
      by_cases hd : d = c
      · rw [hd, World.conn_reset_same]
      · rw [w.conn_reset_other hd]
  | @released b u hb hpath _ =>
      have hfree : Logs (fun _ => True) (u.log (.bioFreeAll b)) (u.released c b) := .of_eq rfl
      exact absurd (hlogs.between (SyncPath.frame hpath).logs.any hfree) (hP b hb)

theorem recvUp (h : CtxInv w) (hu : RecvUp w u) (hlogs : Logs (Event.keepsRefs w) w u) :
    CtxInv u := by
  cases hu with
  | already _ => exact h
  | now _ hc => exact h.connectEnd hc hlogs fun _ _ _ hp => hp

theorem checksEnd {b : Bool} (h : CtxInv w) (hc : ChecksEnd w b t)
    (hlogs : Logs (Event.keepsRefs w) w t) : CtxInv t := by
  cases hc with
  | recv _ hc => exact h.connectEnd hc hlogs fun _ _ _ hp => hp
  | both hu _ => exact h.recvUp hu hlogs
  | @upld u _ _ _ hu _ hc =>
      obtain ⟨hrecv, hupld⟩ := hlogs.split hu.logged.logs.any hc.logged.logs.any
      have hsame : (u.conn .mqupld).ssl_ctx = (w.conn .mqupld).ssl_ctx := by
        cases hu with
        | already _ => rfl
        | now _ hc => rw [hc.other (by decide)]
      refine (h.recvUp hu hrecv).connectEnd hc hupld fun _ _ _ hp => ?_
      rw [hsame]
      exact hp

theorem handlerEnd {hdl : Handler} (h : CtxInv w) (he : HandlerEnd hdl w t)
    (hlogs : Logs (Event.keepsRefs w) w t) : CtxInv t := by
  have htimer : ∀ {u : World} (secs usecs : Nat) (hdl : Handler) (d : Nat) (env : Env), CtxInv u →
      CtxInv (u.registered secs usecs hdl d env) := fun secs usecs hdl d env hu =>
    hu.still ⟨[.registerTimeout hdl], rfl, by simp [Event.noCtx]⟩ (fun _ => rfl) rfl
  cases hdl with
  | chkAgstatm =>
      have hchecks : ∀ {b : Bool} {u : World}, ChecksEnd w b u →
          Logs (fun _ => True) u t → CtxInv u := fun hc hu =>
        h.checksEnd hc (hlogs.split hc.logged.logs.any hu).1
      cases he with
      | down d env hc =>
          exact htimer _ _ _ d env (hchecks hc ⟨[.registerTimeout _], rfl, by simp⟩)
      | good tm env d env' _ hc =>
          have hu := hchecks hc ⟨[.registerTimeout .chkAgstatm], rfl, by simp⟩
          exact htimer _ _ _ d env' (hu.still (t := World.checked _ tm env) (.of_eq rfl)
            (fun _ => rfl) rfl)
  | agHandleClttraffic c =>
      cases he with
      | again d env hr => exact htimer _ _ _ d env (h.sync ((path_agSync c).of_ok hr))
      | closed hr _ hc =>
          have hf := (frame_agSync c).of_ok hr
          refine (h.sync ((path_agSync c).of_ok hr)).closed hc
            (hlogs.split hf.logs.any hc.logged.logs.any).2 fun b hb hp => ?_
          exact hp c (by rw [← hf.biofd, hb])
  | eloopSetPublish p =>
      have hpub : ∀ r : MqttErrors × Client,
          CtxInv ((w.publishing p).setClient p.conn r.2) := by
        intro r
        refine h.still (.log (e := .publish p _) trivial) (fun d => ?_) rfl
        by_cases hd : d = p.conn
        · rw [hd, World.conn_setClient_same]
          rfl
        · rw [World.conn_setClient_other _ hd]
          rfl
      cases he with
      | queued _ _ => exact hpub _
      | @closed r _ _ _ hc =>
          have hlog : Logs (fun _ => True) w ((w.publishing p).setClient p.conn r.2) :=
            ⟨[.publish p _], rfl, by simp⟩
          refine (hpub r).closed hc (hlogs.split hlog hc.logged.logs.any).2 fun b hb hp => ?_
          refine hp p.conn ?_
          rw [World.conn_setClient_same] at hb
          exact hb
  | eloopSetExit => exact he.elim

theorem commandEnd {hdl : Option CmdHdl} (h : CtxInv w) (hc : CommandEnd w hdl t) : CtxInv t := by
  cases hc with
  | unknown => exact h
  | stop d env =>
      exact h.still ⟨[.registerTimeout _], rfl, by simp [Event.noCtx]⟩ (fun _ => rfl) rfl
  | sendtest msg d env =>
      refine h.still ⟨[.registerTimeout _, .request .., .strftime _], rfl, ?_⟩ (fun _ => rfl) rfl
      simp [Event.noCtx]

theorem dispatchEnd {d : Dispatch} (h : CtxInv w) (hd : DispatchEnd w d t)
    (hlogs : Logs (Event.keepsRefs w) w t) : CtxInv t := by
  have hsame : ∀ {u : World}, u.trace = w.trace → (∀ d, u.conn d = w.conn d) →
      u.ctxs = w.ctxs → CtxInv u := fun htrace hconn hctxs =>
    h.still (.of_eq htrace) (fun d => by rw [hconn]) hctxs
  cases hd with
  | idle n env => exact hsame rfl (fun _ => rfl) rfl
  | @fired env n ns x rest _ _ _ _ he =>
      have hpop : CtxInv (w.popped n { env with clocks := ns } rest) :=
        hsame rfl (fun _ => rfl) rfl
      exact hpop.handlerEnd he hlogs
  | noReader => exact hsame rfl (fun _ => rfl) rfl
  | @reader env _ _ _ hc =>
      have htick : CtxInv (w.tick 0 env) := hsame rfl (fun _ => rfl) rfl
      cases hc with
      | silent => exact htick
      | gated _ => exact htick.still (.log (e := .ctrlReply _) trivial) (fun _ => rfl) rfl
      | handled tm env' reply _ _ hc =>
          have hhandling : ∀ buf, CtxInv ((w.tick 0 env).handling buf tm env') := fun buf =>
            htick.still ⟨[.cmdHandle buf], rfl, by simp [Event.noCtx]⟩ (fun _ => rfl) rfl
          exact ((hhandling _).commandEnd hc).still (.log (e := .ctrlReply reply) trivial)
            (fun _ => rfl) rfl

theorem start (h : IsStart w) : CtxInv w := by
  obtain ⟨arg, agent, sock, clock, env, -, rfl⟩ := h
  constructor
  · intro e he x hx
    rw [List.mem_singleton.mp he] at hx
    cases hx
  · intro c
    exact List.nodup_nil
  · intro c x hx
    cases hx

end CtxInv

/-! ## Results -/

/-- `d` closes no connection that holds a BIO, and opens none whose context is
still stored. -/
def KeepsCtxs (w : World) (d : Dispatch) : Prop := ∀ e ∈ newEvents w d, e.keepsRefs w

instance (w : World) (e : Event) : Decidable (e.keepsRefs w) :=
  match e with
  | .bioFreeAll b => decidable_of_iff
      ((w.conn .mqrecv).biofd ≠ some b ∧ (w.conn .mqupld).biofd ≠ some b)
      ⟨fun h c => by cases c; exacts [h.1, h.2], fun h => ⟨h _, h _⟩⟩
  | .bioNew c _ _ _ => inferInstanceAs (Decidable ((w.conn c).ssl_ctx = none))
  | .sslCtxNew _ | .sslCtxFree _ | .bioIo .. | .mqttInit _ | .registerTimeout _ | .eloopDestroy
  | .ctrlClose | .request .. | .publish .. | .packet .. | .deliver .. | .processRc _
  | .strftime _ | .rebootRc | .cmdHandle _ | .ctrlReply _ => .isTrue trivial

instance (w : World) (d : Dispatch) : Decidable (KeepsCtxs w d) := by
  unfold KeepsCtxs; infer_instance

theorem ctxInv_between {w : World} (h : Between KeepsCtxs w) : CtxInv w :=
  h.invariant (fun _ => CtxInv.start) fun d s t hs hc hr => by
    have he := dispatch_ends d s
    have ht := dispatch_trace d s
    rw [hr] at he ht
    exact hs.dispatchEnd he ⟨_, ht, hc⟩

/-- One context at a time, in runs that leave no reference behind. -/
theorem one_ctx (w : World) (h : Between KeepsCtxs w) : OneCtx w := by
  intro c
  have hinv := ctxInv_between h
  have halive : ∀ x ∈ liveCtxs w.trace c, (w.conn c).ssl_ctx = some x := by
    intro x hx
    obtain ⟨hmem, hpos⟩ := List.mem_filter.mp hx
    exact hinv.alive c x hmem (of_decide_eq_true hpos)
  constructor
  · by_contra hlen
    have hnodup : (liveCtxs w.trace c).Nodup := (hinv.nodup c).filter _
    match hlive : liveCtxs w.trace c with
    | [] => simp [hlive] at hlen
    | [x] => simp [hlive] at hlen
    | x :: y :: rest =>
        rw [hlive] at hnodup halive
        have hx := halive x (by simp)
        have hy := halive y (by simp)
        rw [hx, Option.some.injEq] at hy
        simp [hy] at hnodup
  · intro hnone
    refine List.eq_nil_iff_forall_not_mem.mpr fun x hx => ?_
    have := halive x hx
    rw [hnone] at this
    cases this

theorem one_ctx_oneMessage : OneCtx (runs oneMessage) :=
  one_ctx _ (runs_between oneMessage (by decide +kernel))

/-- Both connections come up, and the receiver's next read fails. -/
def readFails : List Dispatch :=
  [.timeout (after 1000000 [.sent 22, .sent 31]),
    .timeout { after 200000 [.sent 50] with reads := [.failed] }]

/-- The closed connection still has its context. -/
theorem ctx_leaks : ¬ ∀ w, Between Always w → OneCtx w := by
  intro h
  have hleak : ¬ OneCtx (runs readFails) := by decide +kernel
  exact hleak (h _ (runs_between readFails (by decide +kernel)))

end Admlink
