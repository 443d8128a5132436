import Mathlib.Order.Interval.Finset.Nat
import Admlink.Lib.XorMap
import Admlink.Mqtt.QueueInvariants

/-!
# Packet ids

The shift register of `__mqtt_next_pid` runs through all 65535 ids before it
repeats one. A send queue has room for far fewer messages, so the loop that
looks for an id nobody uses ends after at most as many steps as there are
messages in the queue, and one.
-/

namespace Admlink

open Function Program Runs XorMap

/-! ## The register -/

section Register

variable {x y : Nat}

theorem lfsrStep_eq (x : Nat) : lfsrStep x = x / 2 ^^^ (if x % 2 = 1 then 0xB400 else 0) := by
  unfold lfsrStep
  split
  · rfl
  · rw [Nat.xor_zero]

theorem linear_lfsrStep : Linear lfsrStep := by
  intro x y
  rw [lfsrStep_eq, lfsrStep_eq, lfsrStep_eq, Nat.xor_div_two, bit_xor]
  ac_rfl

theorem lfsrStep_lt (x : Nat) (h : x < 2 ^ 16) : lfsrStep x < 2 ^ 16 := by
  rw [lfsrStep_eq]
  refine Nat.xor_lt_two_pow (by omega) ?_
  split <;> decide

/-- The register after `n` steps, found by squaring. -/
theorem lfsrStep_iterate {n : Nat} (hn : n < 2 ^ 16) (hx : x < 2 ^ 16) :
    lfsrStep^[n] x = advance (columns 16 lfsrStep) 16 n x :=
  (advance_eq (represents_columns linear_lfsrStep) lfsrStep_lt 16 hn hx).symm

theorem lfsrStep_iterate_ne {n : Nat} (hn : n ∈ [21845, 13107, 3855, 255]) :
    lfsrStep^[n] 163 ≠ 163 := by
  rw [lfsrStep_iterate (by simp at hn; omega) (by decide)]
  revert n
  decide

/-- The primes of 65535. -/
theorem eq_of_dvd_65535 {p : Nat} (hp : p.Prime) (h : p ∣ 65535) :
    p = 3 ∨ p = 5 ∨ p = 17 ∨ p = 257 := by
  rw [show 65535 = 3 * (5 * (17 * 257)) by rfl, hp.dvd_mul, hp.dvd_mul, hp.dvd_mul,
    Nat.prime_dvd_prime_iff_eq hp (by norm_num), Nat.prime_dvd_prime_iff_eq hp (by norm_num),
    Nat.prime_dvd_prime_iff_eq hp (by norm_num), Nat.prime_dvd_prime_iff_eq hp (by norm_num)] at h
  exact h

theorem minimalPeriod_start : minimalPeriod lfsrStep 163 = 65535 := by
  refine minimalPeriod_eq ?_ fun p hp hdvd => ?_
  · rw [lfsrStep_iterate (by decide) (by decide)]
    decide
  · -- 65535 over each of its primes
    refine lfsrStep_iterate_ne ?_
    rcases eq_of_dvd_65535 hp hdvd with rfl | rfl | rfl | rfl <;> decide

/-- All packet ids. -/
def pids : Finset Nat := Finset.Ico 1 (2 ^ 16)

theorem mem_pids : x ∈ pids ↔ IsPid x := by
  rw [pids, Finset.mem_Ico]
  rfl

theorem card_pids : pids.card = 65535 := by
  rw [pids, Nat.card_Ico]
  rfl

theorem pids_step (y : Nat) (hy : y ∈ pids) : lfsrStep y ∈ pids :=
  mem_pids.mpr (isPid_lfsrStep (mem_pids.mp hy))

theorem isPid_start_value : IsPid 163 := by
  unfold IsPid
  omega

theorem minimalPeriod_lfsrStep (hx : IsPid x) : minimalPeriod lfsrStep x = 65535 := by
  -- `x` is on the cycle of 163, and so has its period
  obtain ⟨i, -, rfl⟩ := exists_iterate_eq pids_step (mem_pids.mpr isPid_start_value)
    (minimalPeriod_start.trans card_pids.symm) (mem_pids.mpr hx)
  have hperiodic : 163 ∈ periodicPts lfsrStep := by
    refine minimalPeriod_pos_iff_mem_periodicPts.mp ?_
    rw [minimalPeriod_start]
    decide
  rw [minimalPeriod_apply_iterate hperiodic, minimalPeriod_start]

/-- The register has one cycle, of all ids: none comes back before every other one
has been there. -/
theorem lfsrStep_cycle (x : Nat) (hx : IsPid x) :
    (∀ y, IsPid y → ∃ i < 65535, lfsrStep^[i] x = y) ∧ lfsrStep^[65535] x = x ∧
      ∀ i j, i < 65535 → j < 65535 → lfsrStep^[i] x = lfsrStep^[j] x → i = j := by
  have hperiod := minimalPeriod_lfsrStep hx
  refine ⟨fun y hy => ?_, ?_, fun i j hi hj hij => ?_⟩
  · have := exists_iterate_eq pids_step (mem_pids.mpr hx) (hperiod.trans card_pids.symm)
      (mem_pids.mpr hy)
    rwa [card_pids] at this
  · have := iterate_minimalPeriod (f := lfsrStep) (x := x)
    rwa [hperiod] at this
  · rw [← hperiod] at hi hj
    exact iterate_injOn_Iio_minimalPeriod hi hj hij

theorem lfsrStep_cycle_start :
    IsPid 163 ∧ ∀ y, IsPid y → ∃ i < 65535, lfsrStep^[i] 163 = y :=
  ⟨isPid_start_value, (lfsrStep_cycle 163 isPid_start_value).1⟩

end Register

/-! ## The search -/

/-- The loop ends at the first id that is free. -/
theorem nextPidLoop_ok {used : List Nat} (i fuel x : Nat) (hfuel : i < fuel)
    (hfree : lfsrStep^[i + 1] x ∉ used) (hbusy : ∀ j < i, lfsrStep^[j + 1] x ∈ used) :
    nextPidLoop used fuel x = .ok (lfsrStep^[i + 1] x) := by
  induction i generalizing fuel x with
  | zero =>
      obtain ⟨fuel, rfl⟩ := Nat.exists_eq_add_of_lt hfuel
      rw [Nat.zero_add, nextPidLoop]
      exact if_neg hfree
  | succ i ih =>
      obtain ⟨fuel, rfl⟩ : ∃ k, fuel = k + 1 := ⟨fuel - 1, by omega⟩
      rw [nextPidLoop, if_pos (show lfsrStep x ∈ used from hbusy 0 (Nat.zero_lt_succ i))]
      exact ih fuel (lfsrStep x) (by omega) hfree fun j hj => hbusy (j + 1) (by omega)

/-- Fewer ids in use than the register has values: the loop ends, and soon. -/
theorem nextPidLoop_free (used : List Nat) {x : Nat} (hx : IsPid x)
    (hused : used.length < 65535) :
    ∃ i ≤ used.length, nextPidLoop used 65536 x = .ok (lfsrStep^[i + 1] x) ∧
      lfsrStep^[i + 1] x ∉ used ∧ ∀ j < i, lfsrStep^[j + 1] x ∈ used := by
  have hinj : Set.InjOn (fun i => lfsrStep^[i + 1] x) (Set.Iio (used.length + 1)) := by
    intro i hi j hj hij
    have hij' : lfsrStep^[i] (lfsrStep x) = lfsrStep^[j] (lfsrStep x) := hij
    have hlt : ∀ k ∈ Set.Iio (used.length + 1), k < minimalPeriod lfsrStep (lfsrStep x) := by
      intro k hk
      rw [minimalPeriod_lfsrStep (isPid_lfsrStep hx)]
      exact Nat.lt_of_lt_of_le hk hused
    exact iterate_injOn_Iio_minimalPeriod (hlt i hi) (hlt j hj) hij'
  have hex := exists_notMem hinj (Nat.lt_succ_self used.length)
  classical
  -- the first one that is free is where the loop stops
  obtain ⟨i, ⟨hi, hfree⟩, hfirst⟩ :
      ∃ i, (i < used.length + 1 ∧ lfsrStep^[i + 1] x ∉ used) ∧
        ∀ j < i, ¬(j < used.length + 1 ∧ lfsrStep^[j + 1] x ∉ used) :=
    ⟨Nat.find hex, Nat.find_spec hex, fun j hj => Nat.find_min hex hj⟩
  have hbusy : ∀ j < i, lfsrStep^[j + 1] x ∈ used := fun j hj => by
    by_contra hmem
    exact hfirst j hj ⟨by omega, hmem⟩
  exact ⟨i, by omega, nextPidLoop_ok i _ x (by omega) hfree hbusy, hfree, hbusy⟩

/-! ## In every run -/

/-- There are at most 102 messages in a queue. -/
theorem QueueOk.length_le {mq : MessageQueue} (h : QueueOk mq) : mq.entries.length ≤ 102 := by
  have hroomy := h.roomy
  rw [h.bufsz, show bufSendSize = 4096 from rfl, sizeofQueuedMessage] at hroomy
  omega

/-- `__mqtt_next_pid` ends, after no more turns than there are messages and one,
with the first id of the register that no header in the queue holds, written
there or left over. -/
def PacketIds (w : World) : Prop :=
  ∀ c mq, (w.conn c).mqclt.mq = some mq →
    let cl := (w.conn c).mqclt
    let start := if cl.pid_lfsr = 0 then 163 else cl.pid_lfsr
    ∃ i ≤ mq.entries.length, let pid := lfsrStep^[i + 1] start
      mqttNextPid cl = .ok (pid, { cl with pid_lfsr := pid }) ∧ IsPid pid ∧
        (∀ m ∈ mq.entries, m.storedId ≠ pid) ∧
        ∀ j < i, ∃ m ∈ mq.entries, m.storedId = lfsrStep^[j + 1] start

theorem isPid_iterate {x : Nat} (hx : IsPid x) (i : Nat) : IsPid (lfsrStep^[i] x) := by
  induction i with
  | zero => exact hx
  | succ i ih =>
      rw [iterate_succ_apply']
      exact isPid_lfsrStep ih

/-- A packet id is always to be had, in every world of every run. -/
theorem packet_ids (w : World) (h : InRun Always w) : PacketIds w := by
  intro c mq hmq cl start
  have hstart : IsPid start := isPid_start (senderOk_inRun h c).pid_lfsr
  have hlength := (queueOk_inRun h c mq hmq).length_le
  obtain ⟨i, hi, hloop, hfree, hbusy⟩ := nextPidLoop_free
    (mq.entries.map (·.storedId)) hstart (by rw [List.length_map]; omega)
  rw [List.length_map] at hi
  refine ⟨i, hi, ?_, isPid_iterate hstart _, fun m hm hid => ?_, fun j hj => ?_⟩
  · unfold mqttNextPid
    rw [show (w.conn c).mqclt.mq = some mq from hmq]
    simp only
    rw [hloop]
    rfl
  · exact hfree (List.mem_map.mpr ⟨m, hm, hid⟩)
  · obtain ⟨m, hm, hid⟩ := List.mem_map.mp (hbusy j hj)
    exact ⟨m, hm, hid⟩

theorem packet_ids_oneMessage : PacketIds (runs oneMessage) :=
  packet_ids _ (runs_inRun oneMessage)

end Admlink
