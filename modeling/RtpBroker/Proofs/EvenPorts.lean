import Mathlib.Data.List.Nodup
import Mathlib.Data.List.Perm.Subperm
import RtpBroker.PortPool

/-!
# The even ports of a range

The even ports of a range, listed in ascending order. There are as many of them
as the capacity says, so a list of different even ports of the range is never
longer than that.
-/

namespace RtpBroker.PortRange

def firstEven (r : PortRange) : Nat := r.low.toNat + r.low.toNat % 2

def evens (r : PortRange) : List Port :=
  (List.range r.capacity).map fun k => UInt16.ofNat (r.firstEven + 2 * k)

theorem isEven_iff (p : Port) : isEven p = true ↔ p.toNat % 2 = 0 := by
  rw [isEven, beq_iff_eq, ← UInt16.toNat_inj, UInt16.toNat_mod]
  rfl

theorem contains_iff (r : PortRange) (p : Port) :
    r.contains p = true ↔ r.low.toNat ≤ p.toNat ∧ p.toNat ≤ r.high.toNat := by
  simp [contains, UInt16.le_iff_toNat_le]

theorem firstEven_add_le (r : PortRange) {k : Nat} (hk : k < r.capacity) :
    r.firstEven + 2 * k ≤ r.high.toNat := by
  simp only [capacity, evenPorts, firstEven] at hk ⊢
  split at hk <;> omega

theorem toNat_evens (r : PortRange) {k : Nat} (hk : k < r.capacity) :
    (UInt16.ofNat (r.firstEven + 2 * k)).toNat = r.firstEven + 2 * k := by
  have h := r.firstEven_add_le hk
  have hlt := r.high.toNat_lt
  exact UInt16.toNat_ofNat_of_lt' (show _ < 65536 by omega)

@[simp] theorem length_evens (r : PortRange) : r.evens.length = r.capacity := by
  simp [evens]

theorem mem_evens (r : PortRange) (p : Port) :
    p ∈ r.evens ↔ isEven p = true ∧ r.contains p = true := by
  rw [isEven_iff, contains_iff, evens, List.mem_map]
  constructor
  · rintro ⟨k, hk, rfl⟩
    have hk' := List.mem_range.mp hk
    have hle := r.firstEven_add_le hk'
    rw [r.toNat_evens hk']
    simp only [firstEven] at hle ⊢
    omega
  · rintro ⟨heven, hlow, hhigh⟩
    have hfirst : r.firstEven ≤ p.toNat := by simp only [firstEven]; omega
    have hk : (p.toNat - r.firstEven) / 2 < r.capacity := by
      simp only [capacity, evenPorts, firstEven] at hfirst ⊢
      split <;> omega
    refine ⟨(p.toNat - r.firstEven) / 2, List.mem_range.mpr hk, ?_⟩
    apply UInt16.toNat_inj.mp
    rw [r.toNat_evens hk]
    simp only [firstEven] at hfirst ⊢
    omega

theorem nodup_evens (r : PortRange) : r.evens.Nodup := by
  refine List.Nodup.map_on (fun k hk l hl heq => ?_) List.nodup_range
  have hnat := congrArg UInt16.toNat heq
  rw [r.toNat_evens (List.mem_range.mp hk), r.toNat_evens (List.mem_range.mp hl)] at hnat
  omega

/-- Different even ports of a range are at most as many as its capacity. -/
theorem length_le_capacity (r : PortRange) {ps : List Port} (hnodup : ps.Nodup)
    (hps : ∀ p ∈ ps, isEven p = true ∧ r.contains p = true) : ps.length ≤ r.capacity := by
  have hsub : ps ⊆ r.evens := fun p hp => (r.mem_evens p).mpr (hps p hp)
  simpa using (hnodup.subperm hsub).length_le

end RtpBroker.PortRange
