import Admlink.Daemon

/-!
# The configuration strings

`cfg_agInit` derives six names from the device id and copies each into a field
of 128 bytes without looking at its length. The longest derivation is the topic
the receiver subscribes to, 35 bytes around the id, so it is what decides.
-/

namespace Admlink

open Program

/-- The device id: the first argument, unless it is missing or empty. -/
def deviceId (arg : Option Bytes) : Bytes :=
  if (arg.map cstr).getD [] = [] then bytes "maomaoag" else (arg.map cstr).getD []

theorem nul_notMem_deviceId (arg : Option Bytes) : Ch.nul ∉ deviceId arg := by
  unfold deviceId
  split
  · exact notMem_bytes (by decide)
  · cases arg with
    | none => exact List.not_mem_nil
    | some mem => exact nul_notMem_cstr mem

/-! ## What the names come to -/

def thingTopic (id suffix : Bytes) : Bytes := bytes "$aws/things/" ++ id ++ suffix

def uploaderId (id : Bytes) : Bytes := id ++ bytes "_uploader"

def deviceTopic (id : Bytes) : Bytes := bytes "devices/" ++ id ++ bytes "/message"

/-- The agent holds the names derived from the device id, each with its NUL in
at most 128 bytes, and `set_mqtt_publish_nexsync` has room for its topics. -/
structure Configured (arg : Option Bytes) (a : Agent) : Prop where
  devid : a.devid.str = deviceId arg
  recvid : a.mqrecv.cltid.str = deviceId arg
  recvsend : a.mqrecv.topicsend.str = thingTopic (deviceId arg) (bytes "/shadow/update")
  recvrecv : a.mqrecv.topicrecv.str = thingTopic (deviceId arg) (bytes "/shadow/update/accepted")
  upldid : a.mqupld.cltid.str = uploaderId (deviceId arg)
  upldsend : a.mqupld.topicsend.str = deviceTopic (uploaderId (deviceId arg))
  fits : ∀ s ∈ [deviceId arg, thingTopic (deviceId arg) (bytes "/shadow/update"),
      thingTopic (deviceId arg) (bytes "/shadow/update/accepted"), uploaderId (deviceId arg),
      deviceTopic (uploaderId (deviceId arg))], s.length + 1 ≤ 128
  copied : ∀ c, Field.copy 128 (a.conn c).topicsend.str = .ok (a.conn c).topicsend

/-- `cfg_agInit` stays inside every field it writes. -/
def FieldsKept (arg : Option Bytes) : Prop := ∃ a, cfgAgInit arg = .ok a ∧ Configured arg a

/-! ## Copies -/

section Copy

variable {n : Nat} {s : Bytes} {f : Field n}

theorem copy_self (f : Field n) : Field.copy n f.str = .ok f := by
  have hself : cstr f.str = f.str := cstr_eq_self f.noNul
  unfold Field.copy
  rw [dif_pos (by rw [hself]; exact f.fits)]
  cases f
  simp only [Except.ok.injEq, Field.mk.injEq]
  exact hself

theorem copy_fits (hnul : Ch.nul ∉ s) (hlen : s.length < n) :
    ∃ f : Field n, Field.copy n s = .ok f ∧ f.str = s :=
  ⟨⟨s, hlen, hnul⟩, copy_self ⟨s, hlen, hnul⟩, rfl⟩

end Copy

section Names

variable {id : Bytes}

theorem nul_notMem_thingTopic {suffix : Bytes} (hid : Ch.nul ∉ id) (hsuffix : Ch.nul ∉ suffix) :
    Ch.nul ∉ thingTopic id suffix := by
  have hprefix : Ch.nul ∉ bytes "$aws/things/" := notMem_bytes (by decide)
  simp [thingTopic, hprefix, hid, hsuffix]

theorem nul_notMem_uploaderId (hid : Ch.nul ∉ id) : Ch.nul ∉ uploaderId id := by
  have hsuffix : Ch.nul ∉ bytes "_uploader" := notMem_bytes (by decide)
  simp [uploaderId, hid, hsuffix]

theorem nul_notMem_deviceTopic (hid : Ch.nul ∉ id) : Ch.nul ∉ deviceTopic id := by
  have hprefix : Ch.nul ∉ bytes "devices/" := notMem_bytes (by decide)
  have hsuffix : Ch.nul ∉ bytes "/message" := notMem_bytes (by decide)
  simp [deviceTopic, hprefix, hid, hsuffix]

theorem length_thingTopic (suffix : Bytes) :
    (thingTopic id suffix).length = 12 + id.length + suffix.length := by
  have hprefix : (bytes "$aws/things/").length = 12 := length_bytes (by decide)
  simp only [thingTopic, List.length_append, hprefix]

theorem length_uploaderId : (uploaderId id).length = id.length + 9 := by
  have hsuffix : (bytes "_uploader").length = 9 := length_bytes (by decide)
  simp only [uploaderId, List.length_append, hsuffix]

theorem length_deviceTopic : (deviceTopic id).length = id.length + 16 := by
  have hprefix : (bytes "devices/").length = 8 := length_bytes (by decide)
  have hsuffix : (bytes "/message").length = 8 := length_bytes (by decide)
  simp only [deviceTopic, List.length_append, hprefix, hsuffix]
  omega

end Names

/-! ## The limit -/

theorem length_update : (bytes "/shadow/update").length = 14 := length_bytes (by decide)

theorem length_accepted : (bytes "/shadow/update/accepted").length = 23 := length_bytes (by decide)

/-- `cfg_agInit`, its six copies by name. -/
theorem cfgAgInit_eq (arg : Option Bytes) : cfgAgInit arg = (do
    let devid ← Field.copy 128 (deviceId arg)
    let recvid ← Field.copy 128 devid.str
    let recvsend ← Field.copy 128 (thingTopic recvid.str (bytes "/shadow/update"))
    let recvrecv ← Field.copy 128 (thingTopic recvid.str (bytes "/shadow/update/accepted"))
    let upldid ← Field.copy 128 (uploaderId devid.str)
    let upldsend ← Field.copy 128 (deviceTopic upldid.str)
    return {
      agstatus := .isOk, devid, tinfo := none
      mqrecv := { MqConn.zeroed with cltid := recvid, topicsend := recvsend, topicrecv := recvrecv }
      mqupld := { MqConn.zeroed with cltid := upldid, topicsend := upldsend } }) := rfl

theorem length_le_iff {arg : Option Bytes} :
    (deviceId arg).length ≤ 92 ↔ ((arg.map cstr).getD []).length ≤ 92 := by
  unfold deviceId
  split
  · rename_i hempty
    rw [hempty]
    exact iff_of_true (Nat.le_trans (length_bytes rfl).le (by decide)) (by simp)
  · exact Iff.rfl

theorem fieldsKept_of_le {arg : Option Bytes} (hlen : (deviceId arg).length ≤ 92) :
    FieldsKept arg := by
  have hid := nul_notMem_deviceId arg
  have hrecvLen : (thingTopic (deviceId arg) (bytes "/shadow/update/accepted")).length < 128 := by
    rw [length_thingTopic, length_accepted]
    omega
  have hsendLen : (thingTopic (deviceId arg) (bytes "/shadow/update")).length < 128 := by
    rw [length_thingTopic, length_update]
    omega
  have hupldLen : (uploaderId (deviceId arg)).length < 128 := by
    rw [length_uploaderId]
    omega
  have hdeviceLen : (deviceTopic (uploaderId (deviceId arg))).length < 128 := by
    rw [length_deviceTopic, length_uploaderId]
    omega
  obtain ⟨devid, hdevid, hdev⟩ := copy_fits (n := 128) hid (by omega)
  obtain ⟨recvsend, hrecvsend, hsend⟩ :=
    copy_fits (nul_notMem_thingTopic hid (notMem_bytes (by decide))) hsendLen
  obtain ⟨recvrecv, hrecvrecv, hrecv⟩ :=
    copy_fits (nul_notMem_thingTopic hid (notMem_bytes (by decide))) hrecvLen
  obtain ⟨upldid, hupldid, hupld⟩ := copy_fits (nul_notMem_uploaderId hid) hupldLen
  obtain ⟨upldsend, hupldsend, hdevice⟩ :=
    copy_fits (nul_notMem_deviceTopic (nul_notMem_uploaderId hid)) hdeviceLen
  refine ⟨{
    agstatus := .isOk, devid, tinfo := none
    mqrecv := { MqConn.zeroed with cltid := devid, topicsend := recvsend, topicrecv := recvrecv }
    mqupld := { MqConn.zeroed with cltid := upldid, topicsend := upldsend } }, ?_, ?_⟩
  · rw [cfgAgInit_eq, hdevid, except_ok_bind, copy_self, except_ok_bind, hdev, hrecvsend,
      except_ok_bind, hrecvrecv, except_ok_bind, hupldid, except_ok_bind, hupld, hupldsend]
    rfl
  · refine ⟨hdev, hdev, hsend, hrecv, hupld, hdevice, ?_, ?_⟩
    · simp only [List.forall_mem_cons, List.not_mem_nil, false_implies, implies_true, and_true]
      exact ⟨by omega, hsendLen, hrecvLen, hupldLen, hdeviceLen⟩
    · intro c
      cases c with
      | mqrecv => exact copy_self recvsend
      | mqupld => exact copy_self upldsend

theorem FieldsKept.length_le {arg : Option Bytes} (h : FieldsKept arg) :
    (deviceId arg).length ≤ 92 := by
  obtain ⟨a, -, ha⟩ := h
  have hfits := a.mqrecv.topicrecv.fits
  rw [ha.recvrecv, length_thingTopic, length_accepted] at hfits
  omega

/-- The limit is that of the topic with the longest overhead. -/
theorem fieldsKept_iff (arg : Option Bytes) :
    FieldsKept arg ↔ ((arg.map cstr).getD []).length ≤ 92 := by
  rw [← length_le_iff]
  constructor
  · exact FieldsKept.length_le
  · exact fieldsKept_of_le

/-- An id of 93 letters overruns `topicrecv`; every field with a shorter
overhead still has room for it. -/
theorem long_id_overruns : ¬ ∀ arg, FieldsKept arg := by
  intro h
  have hlen := length_le_iff.mp (h (some (List.replicate 93 97))).length_le
  exact absurd hlen (by decide +kernel)

end Admlink
