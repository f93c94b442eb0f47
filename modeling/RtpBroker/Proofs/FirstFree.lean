import RtpBroker.Allocator
import RtpBroker.Proofs.EvenPorts

/-!
# The first free candidate

An allocation looks at the ports that stay occupied once the cooled ones are drained. Counting
the even ones among them tells whether one of the range is free: there are as many as the
capacity only if they are all of them. If one is free, the first even and free candidate is
allocated, as far as the attempts reach.
-/

namespace RtpBroker

/-! ## Counting the occupied ports -/

namespace PortPool

variable {r : PortRange} {pool : PortPool}

def occupiedEvens (r : PortRange) (pool : PortPool) : List Port :=
  pool.ports.filter fun p => isEven p && r.contains p

theorem mem_occupiedEvens {p : Port} : p ∈ pool.occupiedEvens r ↔
    pool.isOccupied p = true ∧ isEven p = true ∧ r.contains p = true := by
  rw [occupiedEvens, List.mem_filter, mem_ports, Bool.and_eq_true]

theorem occupiedEvens_subperm : (pool.occupiedEvens r).Subperm r.evens := by
  refine (nodup_ports.filter _).subperm fun p hp => ?_
  exact (r.mem_evens p).mpr (mem_occupiedEvens.mp hp).2

/-- The occupied even ports are as many as the range has even ports only if none of those is
free. -/
theorem capacity_le_evenOccupied_iff :
    r.capacity ≤ pool.evenOccupied r ↔
      ∀ p, isEven p = true → r.contains p = true → pool.isOccupied p = true := by
  change r.capacity ≤ (pool.occupiedEvens r).length ↔ _
  rw [← r.length_evens]
  constructor
  · intro hcount p heven hin
    have hperm := occupiedEvens_subperm.perm_of_length_le hcount
    have hmem : p ∈ pool.occupiedEvens r := hperm.mem_iff.mpr ((r.mem_evens p).mpr ⟨heven, hin⟩)
    exact (mem_occupiedEvens.mp hmem).1
  · intro hall
    refine (r.nodup_evens.subperm fun p hp => ?_).length_le
    obtain ⟨heven, hin⟩ := (r.mem_evens p).mp hp
    exact mem_occupiedEvens.mpr ⟨hall p heven hin, heven, hin⟩

end PortPool

namespace Allocator

/-! ## Searching -/

theorem attempt_free {p : Port} {pool : PortPool}
    (h : (isEven p && !pool.isOccupied p) = true) :
    attempt p pool = (true, (pool.reserve p).2) := by
  obtain ⟨heven, hfree⟩ := Bool.and_eq_true_iff.mp h
  rw [attempt, if_pos heven, Prod.ext_iff]
  exact ⟨PortPool.reserve_fst.trans hfree, rfl⟩

theorem attempt_taken {p : Port} {pool : PortPool}
    (h : (isEven p && !pool.isOccupied p) = false) : attempt p pool = (false, pool) := by
  unfold attempt
  split
  · next heven =>
    have htaken : pool.isOccupied p = true := by simpa [heven] using h
    rw [PortPool.reserve, if_pos htaken]
  · rfl

/-- A search holds the first of its candidates that is even and free. -/
theorem search_eq (draw : Nat → Port) (pool : PortPool) (n i : Nat) :
    search draw pool n i =
      (((List.range' i n).map draw).find? fun p => isEven p && !pool.isOccupied p).map
        fun p => (p, (pool.reserve p).2) := by
  induction n generalizing i with
  | zero => rfl
  | succ n ih =>
    rw [search, List.range'_succ, List.map_cons, List.find?_cons]
    cases hfree : isEven (draw i) && !pool.isOccupied (draw i) with
    | true => simp only [attempt_free hfree, Option.map_some]
    | false => simp only [attempt_taken hfree, ih]

/-! ## Allocating -/

variable (a : Allocator) (now : Nat) (draw : Nat → Port) (pool : PortPool)

/-- Whether a port is occupied and will be so after the drain: it has not cooled for long enough. -/
def staysOccupied (p : Port) : Bool :=
  pool.isOccupied p && (pool.coolingSince? p).all fun since => decide (now - since < a.cooldown)

/-- The first even and free one of the candidates that there are attempts for. -/
def firstFree? : Option Port :=
  ((List.range a.attempts.toNat).map draw).find? fun p => isEven p && !a.staysOccupied now pool p

theorem isOccupied_drain_eq (p : Port) :
    (a.drain now pool).isOccupied p = a.staysOccupied now pool p := by
  rw [drain, PortPool.isOccupied_drain, staysOccupied, PortPool.hasCooled]
  cases pool.coolingSince? p with
  | none => rfl
  | some since =>
    congr 1
    rw [Option.any_some, Option.all_some, ← decide_not]
    exact decide_eq_decide.mpr Nat.not_le

/-- An allocation from a range of which an even port is free takes the first candidate that is
even and free, or gives up when the attempts are used up. -/
theorem allocate_of_not_full (h : ¬ a.range.capacity ≤ (a.drain now pool).evenOccupied a.range) :
    a.allocate now draw pool =
      match a.firstFree? now draw pool with
      | some p => (.ok p, ((a.drain now pool).reserve p).2)
      | none => (.error (.portsExhausted a.attempts), a.drain now pool) := by
  have hfull : a.isFull (a.drain now pool) = false := decide_eq_false h
  unfold allocate
  dsimp only
  rw [hfull, if_neg Bool.false_ne_true, search_eq, ← List.range_eq_range']
  simp only [isOccupied_drain_eq]
  rw [← firstFree?]
  cases a.firstFree? now draw pool <;> rfl

theorem allocate_of_full (h : a.range.capacity ≤ (a.drain now pool).evenOccupied a.range) :
    a.allocate now draw pool = (.error (.portsExhausted 0), a.drain now pool) :=
  if_pos (decide_eq_true h)

/-- The occupied even ports of the range are as many as its capacity exactly if none of them is
free. Then an allocation fails whatever is drawn. Else it is the first candidate that is even and
free, or a failure after all attempts. Occupied is then what stays occupied, and what was
allocated. -/
theorem allocation_exact (a : Allocator) (now : Nat) (draw : Nat → Port) (pool : PortPool) :
    let full := ∀ p, isEven p = true → a.range.contains p = true →
      a.staysOccupied now pool p = true
    (a.range.capacity ≤ (a.drain now pool).evenOccupied a.range ↔ full) ∧
    (full → ∀ draw', (a.allocate now draw' pool).1 = .error (.portsExhausted 0)) ∧
    (¬ full → (a.allocate now draw pool).1 =
      match a.firstFree? now draw pool with
      | some p => .ok p
      | none => .error (.portsExhausted a.attempts)) ∧
    ∀ q, (a.allocate now draw pool).2.isOccupied q = true ↔
      a.staysOccupied now pool q = true ∨ (a.allocate now draw pool).1 = .ok q := by
  intro full
  have hfull : a.range.capacity ≤ (a.drain now pool).evenOccupied a.range ↔ full := by
    simp only [PortPool.capacity_le_evenOccupied_iff, isOccupied_drain_eq, full]
  refine ⟨hfull, fun h draw' => ?_, fun h => ?_, fun q => ?_⟩
  · rw [a.allocate_of_full now draw' pool (hfull.mpr h)]
  · rw [a.allocate_of_not_full now draw pool (hfull.not.mpr h)]
    split <;> rfl
  · by_cases h : a.range.capacity ≤ (a.drain now pool).evenOccupied a.range
    · rw [a.allocate_of_full now draw pool h, isOccupied_drain_eq]
      simp
    · rw [a.allocate_of_not_full now draw pool h]
      split
      · next p _ =>
        rw [PortPool.isOccupied_reserve, isOccupied_drain_eq, Bool.or_eq_true, beq_iff_eq, or_comm]
        simp
      · rw [isOccupied_drain_eq]
        simp

end Allocator

end RtpBroker
