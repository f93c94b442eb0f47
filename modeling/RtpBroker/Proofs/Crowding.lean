import Mathlib.Algebra.Order.Field.Rat
import Mathlib.Tactic.NormNum
import RtpBroker.Health
import RtpBroker.Proofs.Shutdown

/-!
# Crowded brokers

Whether nine tenths of a capacity are in use is a comparison of two products, and these
are words. It is exact for all numbers whose products fit into words, and for the others
a checking build stops. The capacity of a broker is a number of ports, and it has no
more sessions than that, so for a broker the products always fit.
-/

namespace RtpBroker

namespace Health

/-- At least nine tenths of a known capacity are in use. -/
def NearlyFull (capacity active : Nat) : Prop := 0 < capacity ∧ (9 / 10 : ℚ) ≤ active / capacity

/-- The status is what the numbers say. -/
structure Exact (h : Health) (active : UInt64) : Prop where
  unhealthy : h.status active = .unhealthy ↔ h.ready = false
  degraded : h.status active = .degraded ↔
    h.ready = true ∧ NearlyFull h.capacity.toNat active.toNat
  healthy : h.status active = .healthy ↔
    h.ready = true ∧ ¬ NearlyFull h.capacity.toNat active.toNat

/-- Neither of the products is beyond a word; for an unknown capacity there are none. -/
def Fits (capacity active : UInt64) : Prop :=
  0 < capacity → capacity.toNat * 90 < UInt64.size ∧ active.toNat * 100 < UInt64.size

variable {h : Health} {capacity active : UInt64}

theorem nearlyFull_iff {capacity active : Nat} :
    NearlyFull capacity active ↔ 0 < capacity ∧ capacity * 90 ≤ active * 100 := by
  refine and_congr_right fun hpos => ?_
  have hcapacity : (0 : ℚ) < capacity := by exact_mod_cast hpos
  rw [div_le_div_iff₀ (by norm_num) hcapacity]
  norm_cast
  omega

theorem isCrowded_iff : isCrowded capacity active = true ↔ 0 < capacity.toNat ∧
    capacity.toNat * 90 % UInt64.size ≤ active.toNat * 100 % UInt64.size := by
  simp only [isCrowded, Bool.and_eq_true, decide_eq_true_eq, UInt64.lt_iff_toNat_lt,
    UInt64.le_iff_toNat_le, UInt64.toNat_mul]
  exact Iff.rfl

theorem Fits.isCrowded_iff (h : Fits capacity active) :
    isCrowded capacity active = true ↔ NearlyFull capacity.toNat active.toNat := by
  rw [Health.isCrowded_iff, nearlyFull_iff]
  refine and_congr_right fun hpos => ?_
  obtain ⟨hcapacity, hactive⟩ := h (UInt64.lt_iff_toNat_lt.mpr hpos)
  rw [Nat.mod_eq_of_lt hcapacity, Nat.mod_eq_of_lt hactive]

theorem checkedMul_of_lt {a b : UInt64} (h : a.toNat * b.toNat < UInt64.size) :
    checkedMul a b = .ok (a * b) := by
  rw [checkedMul, if_pos h]

theorem checkedMul_of_le {a b : UInt64} (h : UInt64.size ≤ a.toNat * b.toNat) :
    checkedMul a b = .error overflowText := by
  rw [checkedMul, if_neg (Nat.not_lt.mpr h)]

theorem Fits.isCrowdedChecked (h : Fits capacity active) :
    isCrowdedChecked capacity active = .ok (isCrowded capacity active) := by
  unfold Health.isCrowdedChecked isCrowded
  by_cases hpos : 0 < capacity
  · obtain ⟨hcapacity, hactive⟩ := h hpos
    rw [if_pos hpos, checkedMul_of_lt hactive, checkedMul_of_lt hcapacity, decide_eq_true hpos]
    rfl
  · rw [if_neg hpos, decide_eq_false hpos]
    rfl

theorem isCrowdedChecked_of_not_fits (h : ¬ Fits capacity active) :
    isCrowdedChecked capacity active = .error overflowText := by
  obtain ⟨hpos, hbeyond⟩ := Classical.not_imp.mp h
  rw [isCrowdedChecked, if_pos hpos]
  by_cases hactive : active.toNat * 100 < UInt64.size
  · have hcapacity : UInt64.size ≤ capacity.toNat * 90 :=
      Nat.le_of_not_lt fun hlt => hbeyond ⟨hlt, hactive⟩
    rw [checkedMul_of_lt hactive, checkedMul_of_le hcapacity]
    rfl
  · rw [checkedMul_of_le (Nat.le_of_not_lt hactive)]
    rfl

theorem Fits.statusChecked (hfits : Fits h.capacity active) :
    h.statusChecked active = .ok (h.status active) := by
  rw [Health.statusChecked, hfits.isCrowdedChecked]
  rfl

theorem statusChecked_of_not_fits (hfits : ¬ Fits h.capacity active) :
    h.statusChecked active = .error overflowText := by
  rw [statusChecked, isCrowdedChecked_of_not_fits hfits]
  rfl

theorem status_eq_unhealthy : h.status active = .unhealthy ↔ h.ready = false := by
  unfold status
  cases h.ready <;> cases isCrowded h.capacity active <;> decide

theorem status_eq_degraded :
    h.status active = .degraded ↔ h.ready = true ∧ isCrowded h.capacity active = true := by
  unfold status
  cases h.ready <;> cases isCrowded h.capacity active <;> decide

theorem status_eq_healthy :
    h.status active = .healthy ↔ h.ready = true ∧ ¬ isCrowded h.capacity active = true := by
  unfold status
  cases h.ready <;> cases isCrowded h.capacity active <;> decide

theorem Fits.exact (hfits : Fits h.capacity active) : Exact h active where
  unhealthy := status_eq_unhealthy
  degraded := by rw [status_eq_degraded, hfits.isCrowded_iff]
  healthy := by rw [status_eq_healthy, hfits.isCrowded_iff]

theorem fits_iff : Fits capacity active ↔
    capacity = 0 ∨ capacity ≤ 204963823041217240 ∧ active ≤ 184467440737095516 := by
  have hzero : capacity = 0 ↔ ¬ 0 < capacity.toNat := by
    rw [← UInt64.toNat_inj, Nat.pos_iff_ne_zero, not_not]
    rfl
  rw [Fits, UInt64.lt_iff_toNat_lt, hzero, UInt64.le_iff_toNat_le, UInt64.le_iff_toNat_le,
    ← imp_iff_not_or]
  apply imp_congr_right
  intro _
  change capacity.toNat * 90 < 18446744073709551616 ∧ active.toNat * 100 < 18446744073709551616 ↔
    capacity.toNat ≤ 204963823041217240 ∧ active.toNat ≤ 184467440737095516
  omega

theorem Fits.mono {fewer : UInt64} (h : Fits capacity active) (hle : fewer ≤ active) :
    Fits capacity fewer := by
  rw [fits_iff] at h ⊢
  exact h.imp_right fun hsmall => ⟨hsmall.1, UInt64.le_trans hle hsmall.2⟩

theorem NearlyFull.mono {capacity fewer active : Nat} (h : NearlyFull capacity fewer)
    (hle : fewer ≤ active) : NearlyFull capacity active := by
  rw [nearlyFull_iff] at h ⊢
  omega

end Health

/-! ## Brokers -/

theorem PortRange.capacity_le (r : PortRange) : r.capacity ≤ 32768 := by
  have hhigh := r.high.toNat_lt
  simp only [capacity, evenPorts]
  split <;> omega

namespace Broker

variable {b : Broker}

theorem Reachable.length_registered_le (hb : b.Reachable) :
    b.exchange.registered.length ≤ b.capacity := by
  have hperm := ports_perm hb.conserved
  have hnodup := hperm.nodup_iff.mp PortPool.nodup_ports
  have hopen : b.exchange.ports.length ≤ b.capacity := by
    refine PortRange.length_le_capacity _ hnodup.of_append_left.of_append_left fun p hp => ?_
    apply hb.conserved.placed p
    apply PortPool.mem_ports.mp
    exact hperm.mem_iff.mpr (List.mem_append_left _ (List.mem_append_left _ hp))
  rwa [Exchange.ports, List.length_mergeSort, List.length_map] at hopen

theorem capacity_le (b : Broker) : b.capacity ≤ 32768 := b.allocator.range.capacity_le

theorem toNat_ofNat_of_le_capacity {n : Nat} (h : n ≤ b.capacity) : (UInt64.ofNat n).toNat = n := by
  have hcapacity := b.capacity_le
  have hsize : UInt64.size = 18446744073709551616 := rfl
  apply UInt64.toNat_ofNat_of_lt'
  omega

/-- The gauge of a broker shows how many sessions are open. -/
theorem Reachable.toNat_active (hb : b.Reachable) :
    (Health.active b.exchange.metrics).toNat = b.exchange.registered.length := by
  have hlength := hb.length_registered_le
  have hcapacity := b.capacity_le
  have hsize : UInt64.size = 18446744073709551616 := rfl
  have hbound : ¬ (UInt64.size : Int) ≤ b.exchange.registered.length := by omega
  rw [Health.active, hb.gauged, Reading.toWord, if_neg hbound, Int.toNat_natCast]
  exact toNat_ofNat_of_le_capacity hlength

theorem Reachable.fits (hb : b.Reachable) :
    Health.Fits (UInt64.ofNat b.capacity) (Health.active b.exchange.metrics) := by
  intro _
  have hlength := hb.length_registered_le
  have hcapacity := b.capacity_le
  have hsize : UInt64.size = 18446744073709551616 := rfl
  rw [toNat_ofNat_of_le_capacity (Nat.le_refl b.capacity), hb.toNat_active]
  omega

end Broker

namespace Health

/-- The broker is reported unhealthy exactly while it is not ready. While the two products fit into
words, the report is exact in every build, and more sessions never make a degraded broker healthy;
they fit up to a capacity and a number of sessions far beyond those of any broker. Beyond, a
checking build stops, and an unchecked one compares what is left of them in a word. -/
theorem status_fitting (h : Health) (active : UInt64) :
    (Fits h.capacity active ↔
      h.capacity = 0 ∨ h.capacity ≤ 204963823041217240 ∧ active ≤ 184467440737095516) ∧
    (Fits h.capacity active → Exact h active ∧ h.statusChecked active = .ok (h.status active) ∧
      ∀ fewer ≤ active, h.statusChecked fewer = .ok (h.status fewer) ∧
        (h.status fewer = .degraded → h.status active = .degraded)) ∧
    (¬ Fits h.capacity active → h.statusChecked active = .error overflowText) ∧
    (h.status active = .unhealthy ↔ h.ready = false) ∧
    (h.status active = .degraded ↔ h.ready = true ∧ 0 < h.capacity.toNat ∧
      h.capacity.toNat * 90 % UInt64.size ≤ active.toNat * 100 % UInt64.size) ∧
    (∀ b : Broker, b.Reachable → h.capacity = UInt64.ofNat b.capacity →
      Health.active b.exchange.metrics = active →
      h.capacity.toNat = b.capacity ∧ active.toNat = b.exchange.registered.length ∧
      Fits h.capacity active) := by
  refine ⟨fits_iff, fun hfits => ⟨hfits.exact, hfits.statusChecked, ?_⟩,
    statusChecked_of_not_fits, status_eq_unhealthy, ?_, ?_⟩
  · intro fewer hle
    refine ⟨(hfits.mono hle).statusChecked, fun hfewer => ?_⟩
    obtain ⟨hready, hfull⟩ := (hfits.mono hle).exact.degraded.mp hfewer
    exact hfits.exact.degraded.mpr ⟨hready, hfull.mono (UInt64.le_iff_toNat_le.mp hle)⟩
  · rw [status_eq_degraded, isCrowded_iff]
  · rintro b hb hcapacity rfl
    rw [hcapacity]
    exact ⟨Broker.toNat_ofNat_of_le_capacity (Nat.le_refl b.capacity), hb.toNat_active, hb.fits⟩

/-- One port, and a session on it. -/
def lastPort : List Broker.Event := [.openSession ⟨fun _ _ => 10000, fun _ _ => none⟩]

theorem status_fitting_lastPort :
    ∃ b₀, Broker.start { low := 10000, high := 10001 } ⟨0, 0⟩ = .ok b₀ ∧
      (b₀.run lastPort).capacity = 1 ∧
      ({ ready := true, capacity := 1 } : Health).statusChecked
        (active (b₀.run lastPort).exchange.metrics) = .ok .degraded := by
  refine ⟨_, rfl, rfl, ?_⟩
  have hstart : Broker.start { low := 10000, high := 10001 } ⟨0, 0⟩ = .ok _ := rfl
  have hfair := Broker.fair_of_draw lastPort 10000 hstart (by decide) (by simp [lastPort])
  have hreachable := Broker.run_reachable hstart hfair (by decide)
  obtain ⟨-, hfitting, -, -, -, hbrokers⟩ := status_fitting { ready := true, capacity := 1 }
    (active (Broker.run lastPort _).exchange.metrics)
  obtain ⟨-, hactive, hfits⟩ := hbrokers _ hreachable rfl rfl
  obtain ⟨hexact, hchecked, -⟩ := hfitting hfits
  rw [hchecked, hexact.degraded.mpr ⟨rfl, ?_⟩]
  rw [hactive, nearlyFull_iff]
  decide +kernel

/-- Of ten ports nine are in use, then far more than a word can multiply: a checking build stops,
and for an unchecked one the broker is healthy again. -/
theorem not_status_exact :
    (¬ ∀ (h : Health) (active : UInt64), ∃ s, h.statusChecked active = .ok s) ∧
    (¬ ∀ (h : Health) (active : UInt64), Exact h active) ∧
    (¬ ∀ (h : Health) (fewer active : UInt64), fewer ≤ active → h.status fewer = .degraded →
      h.status active = .degraded) := by
  let ten : Health := { ready := true, capacity := 10 }
  have hfewer : ten.status 9 = .degraded := by decide
  have hmore : ten.status 184467440737095520 = .healthy := by decide
  have hstops : ten.statusChecked 184467440737095520 = .error overflowText := rfl
  refine ⟨fun hall => ?_, fun hall => ?_, fun hall => ?_⟩
  · obtain ⟨s, hs⟩ := hall ten 184467440737095520
    rw [hstops] at hs
    cases hs
  · obtain ⟨-, hfull⟩ := (hall ten 184467440737095520).healthy.mp hmore
    rw [nearlyFull_iff] at hfull
    exact hfull (by decide)
  · have hdegraded := hall _ 9 184467440737095520 (by decide) hfewer
    rw [hmore] at hdegraded
    cases hdegraded

end Health

end RtpBroker
