import Admlink.Reports

/-!
# The buffers on the way of an `rc_id`

The report is formatted into 1024 bytes without a limit, so a long id overruns
it. The event takes the first four characters of the id by writing a NUL at a
fixed place, which in a short id lies behind its terminator. In between
everything fits: every piece of the event is cut to 127 bytes.
-/

namespace Admlink

open Program World

/-! ## Programs that overrun no buffer -/

/-- From anywhere, a return satisfies `Q` and no stop is an overrun. -/
abbrev Fits {α : Type} (x : Prog α) (Q : α → Prop) : Prop :=
  Triple (fun _ => True) x (fun a _ => Q a) (fun e _ => e ≠ .fault .overflow)

section Fits

variable {α β : Type} {Q : α → Prop}

theorem Fits.pure {a : α} (h : Q a) : Fits (pure a) Q := Triple.pure fun _ _ => h

theorem Fits.bind {x : Prog α} {f : α → Prog β} {R : β → Prop} (hx : Fits x Q)
    (hf : ∀ a, Q a → Fits (f a) R) : Fits (x >>= f) R := by
  intro w _
  exact Ends.bind (hx w trivial) (fun a t _ ha => hf a ha t trivial) fun _ _ h => h

theorem Fits.get : Fits (get : Prog World) (fun _ => True) := fun _ _ => trivial

theorem Fits.modify (f : World → World) : Fits (modify f : Prog Unit) (fun _ => True) :=
  fun _ _ => trivial

theorem Fits.emit (e : Event) : Fits (emit e) (fun _ => True) := Fits.modify _

theorem Fits.orFault {r : Except Fault α} {a : α} (hr : r = .ok a) (h : Q a) :
    Fits (orFault r) Q := by
  rw [hr]
  exact Fits.pure h

theorem Fits.throw {e : Stop} (h : e ≠ .fault .overflow) : Fits (throw e) Q :=
  Triple.throw fun _ _ => h

end Fits

theorem fits_registerTimeout (secs usecs : Nat) (h : Handler) :
    Fits (registerTimeout secs usecs h) fun _ => True := by
  unfold registerTimeout xgettimeofday
  refine (Fits.emit _).bind fun _ _ => Fits.bind (Q := fun _ => True) ?_ fun now _ => ?_
  · refine Fits.get.bind fun w _ => ?_
    cases w.env.clocks with
    | nil => exact .throw (by decide)
    | cons d ds => exact (Fits.modify _).bind fun _ _ => .pure trivial
  · refine Fits.get.bind fun w _ => ?_
    split
    · exact .throw (by decide)
    · exact .modify _

theorem fits_setMqttPublishNexsync (conn : Conn) (topic_name : Field 128)
    (application_message : Bytes) (publish_flags : Nat) :
    Fits (setMqttPublishNexsync conn topic_name application_message publish_flags)
      fun _ => True :=
  Fits.get.bind fun _ _ => (Fits.modify _).bind fun _ _ => (Fits.emit _).bind fun _ _ =>
    fits_registerTimeout _ _ _

/-! ## The event -/

theorem length_snprintf (s : Bytes) :
    (snprintf 128 s).length ≤ 127 ∧ (snprintf 128 s).length ≤ s.length := by
  rw [snprintf, List.length_take]
  omega

theorem fits_strftimeTinfo : Fits strftimeTinfo fun date => date.length ≤ 127 := by
  unfold strftimeTinfo
  refine Fits.get.bind fun w _ => (Fits.emit _).bind fun _ _ => ?_
  cases w.agent.tinfo with
  | none => exact .throw (by decide)
  | some t => exact .pure (length_snprintf _).1

/-- The pieces of an event up to its date. -/
def eventHead (rcid devid : Bytes) (success : Bool) : List Bytes :=
  typeMembers ++
    [snprintf 128 (bytes ",\"act_id\":" ++ decimal (if success then 7777 else 7788)),
     snprintf 128 (bytes ",\"act_sts\":0"),
     snprintf 128 (bytes ",\"act_trg\":" ++ rcid),
     snprintf 128 (bytes ",\"act_para\":\"" ++ rcid ++ bytes "\"")] ++
    agentMembers devid

theorem length_agentMembers (devid : Bytes) : (agentMembers devid).flatten.length ≤ 195 := by
  have hfixed : ([snprintf 128 (bytes ",\"evt_id\":1"),
      snprintf 128 (bytes ",\"agt_name\":\"" ++ agName ++ bytes "\""),
      snprintf 128 (bytes ",\"agt_ver\":\"" ++ agVer ++ bytes "\""),
      snprintf 128 (bytes ",\"ms_ver\":\"" ++ msgVer ++ bytes "\"")] : List Bytes).flatten.length =
      68 := by decide +kernel
  have hdev := (length_snprintf (bytes ",\"dev_id\":\"" ++ devid ++ bytes "\"")).1
  simp only [agentMembers, List.flatten_cons, List.flatten_nil, List.length_append,
    List.length_nil] at hfixed ⊢
  omega

theorem length_eventHead (rcid devid : Bytes) (success : Bool) :
    (eventHead rcid devid success).flatten.length ≤ 640 := by
  have htype : typeMembers.flatten.length = 41 := by decide +kernel
  have hid := (length_snprintf (bytes ",\"act_id\":" ++
    decimal (if success then 7777 else 7788))).1
  have hsts : (snprintf 128 (bytes ",\"act_sts\":0")).length = 12 := by decide +kernel
  have htrg := (length_snprintf (bytes ",\"act_trg\":" ++ rcid)).1
  have hpara := (length_snprintf (bytes ",\"act_para\":\"" ++ rcid ++ bytes "\"")).1
  have hagent := length_agentMembers devid
  simp only [eventHead, List.flatten_append, List.flatten_cons, List.flatten_nil,
    List.length_append, List.length_nil] at *
  omega

/-- An id with a fourth character is cut inside its block, and no `strcat` of
the event leaves `resbuf`. -/
theorem fits_getRcfiMsg {rcid : CBuf} (hlen : 4 < rcid.size) (success : Bool) :
    Fits (getRcfiMsg rcid success) fun _ => True := by
  unfold getRcfiMsg
  refine (Fits.orFault (Q := fun _ => True) (show truncateRcid rcid = .ok (rcid.str.take 4) by
    rw [truncateRcid, if_pos hlen]) trivial).bind fun id _ => Fits.get.bind fun w _ => ?_
  have hhead := length_eventHead id w.agent.devid.str success
  refine (Fits.orFault (Q := fun resbuf => resbuf.length ≤ 640)
    (show strcats resbufSize [] (eventHead id w.agent.devid.str success) = _ from
      strcats_fits (by rw [List.nil_append, resbufSize]; omega))
    (by rwa [List.nil_append])).bind fun resbuf hres => ?_
  refine fits_strftimeTinfo.bind fun date hdate => ?_
  refine Fits.orFault (strcats_fits ?_) trivial
  have hmsg := (length_snprintf (bytes ",\"msg\":\"" ++ rcid2name id ++
    (if success then bytes "is ok" else bytes "is failed") ++ bytes "\"")).1
  have hend : (bytes "\x7d").length = 1 := length_bytes (by decide)
  simp only [List.flatten_cons, List.flatten_nil, List.length_append, List.length_nil,
    resbufSize] at *
  omega

theorem fits_runRcHdl {rcid : CBuf} (hlen : 4 < rcid.size) :
    Fits (runRcHdl rcid) fun _ => True := by
  have hupload : ∀ success, Fits (uploadEvent rcid success) fun _ => True := fun success =>
    (fits_getRcfiMsg hlen success).bind fun _ _ =>
      Fits.bind (Fits.get.bind fun _ _ => Fits.pure (Q := fun _ => True) trivial) fun _ _ =>
        fits_setMqttPublishNexsync _ _ _ _
  rw [runRcHdl_eq]
  split
  · exact hupload false
  · exact hupload true
  · exact Fits.bind (Q := fun _ => True)
      ((Fits.emit _).bind fun _ _ => (Fits.modify _).bind fun _ _ => .pure trivial)
      fun _ _ => .pure trivial

/-! ## Every length -/

/-- The report and its terminator fit; an id that `get_rcfi_msg` cuts has its
terminator at the cut or behind it; and nothing overruns a buffer on the way. -/
structure WithinBuffers (rcid : CBuf) (w : World) : Prop where
  report : (reportText rcid.str).length < resbufSize
  cut : findRcHdl rcid.str ≠ some .reboot → 4 ≤ rcid.str.length
  fits : ∀ t, admlinkProcessRc (some rcid) w ≠ .error (.fault .overflow) t

theorem length_reportText (rcid : Bytes) : (reportText rcid).length = rcid.length + 37 := by
  have hfront : (bytes "\x7b\"state\": \x7b\"reported\": \x7b\"rc_id\":\"").length = 33 :=
    length_bytes (by decide)
  have hback : (bytes "\"\x7d\x7d\x7d").length = 4 := length_bytes (by decide)
  rw [reportText, List.length_append, List.length_append, hfront, hback]
  omega

theorem length_of_reboot {rcid : Bytes} (h : findRcHdl rcid = some .reboot) :
    4 ≤ rcid.length := by
  have hall : ∀ e ∈ rcHdlTbl, 4 ≤ e.1.length := by decide +kernel
  obtain ⟨e, he, -⟩ := Option.map_eq_some_iff.mp h
  have hname := List.find?_some he
  simp only [decide_eq_true_eq] at hname
  rw [← hname]
  exact hall e (List.mem_of_find?_eq_some he)

theorem rcidOf_room {buffer : Bytes} {rcid : CBuf} (h : rcidOf buffer = some rcid) :
    rcid.str.length < rcid.size := by
  unfold rcidOf at h
  split at h
  · rename_i pdata hparse
    obtain ⟨item, hl, hitem⟩ := Option.bind_eq_some_iff.mp h
    exact (lookupRcId_wellTyped (cJSONParse_wellTyped hparse) hl).room hitem
  · cases h

/-- Which ids stay inside the buffers. -/
theorem within_buffers (app_msg : Bytes) (rcid : CBuf) (w : World)
    (hrcid : rcidOf (app_msg ++ [Ch.nul]) = some rcid) :
    WithinBuffers rcid w ↔ 4 ≤ rcid.str.length ∧ rcid.str.length ≤ 986 := by
  have hroom := rcidOf_room hrcid
  have hreport := length_reportText rcid.str
  constructor
  · intro h
    have hlong := h.report
    rw [hreport, resbufSize] at hlong
    refine ⟨?_, by omega⟩
    by_cases hboot : findRcHdl rcid.str = some .reboot
    · exact length_of_reboot hboot
    · exact h.cut hboot
  · rintro ⟨hshort, hlong⟩
    have hfit : (reportText rcid.str).length < resbufSize := by
      rw [hreport, resbufSize]
      omega
    refine ⟨hfit, fun _ => hshort, fun t ht => ?_⟩
    have hfits : Fits (admlinkProcessRc (some rcid)) fun _ => True := by
      rw [admlinkProcessRc_eq hfit]
      refine (Fits.emit _).bind fun _ _ => ?_
      refine Fits.bind (Fits.get.bind fun _ _ => Fits.pure (Q := fun _ => True) trivial)
        fun _ _ => (fits_setMqttPublishNexsync _ _ _ _).bind fun _ _ => ?_
      exact fits_runRcHdl (by omega)
    exact hfits.of_error trivial ht rfl

theorem within_buffers_imhere : ∃ rcid, rcidOf (command "2000" ++ [Ch.nul]) = some rcid ∧
    (WithinBuffers rcid boot ↔ 4 ≤ rcid.str.length ∧ rcid.str.length ≤ 986) := by
  obtain ⟨rcid, hrcid⟩ := Option.isSome_iff_exists.mp
    (show (rcidOf (command "2000" ++ [Ch.nul])).isSome = true by decide +kernel)
  exact ⟨rcid, hrcid, within_buffers _ rcid boot hrcid⟩

/-- The empty id is cut four characters behind its terminator. -/
theorem empty_id_overruns :
    ¬ ∀ (app_msg : Bytes) (rcid : CBuf) (w : World), rcidOf (app_msg ++ [Ch.nul]) = some rcid →
      WithinBuffers rcid w := by
  intro h
  have hrcid : (rcidOf (command "" ++ [Ch.nul])).map (·.str) = some [] := by decide +kernel
  obtain ⟨rcid, hr, hstr⟩ := Option.map_eq_some_iff.mp hrcid
  have hcut := (h (command "") rcid boot hr).cut
  rw [hstr] at hcut
  exact absurd (hcut (by decide +kernel)) (by decide)

end Admlink
