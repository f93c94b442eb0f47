import RtpBroker.PortPool

/-!
# Allocating ports

An allocation drains the ports that have cooled down, gives up at once if every
even port of the range is occupied, and else tries drawn candidates until an
even one is free or the attempts are used up. Each candidate is tested and held
in one operation of the pool.
-/

namespace RtpBroker

/-- `cooldown` is in milliseconds; without one a returned port is free at once. -/
structure Allocator where
  range : PortRange
  attempts : UInt32
  cooldown : Nat := 0

namespace Allocator

def drain (a : Allocator) (now : Nat) (pool : PortPool) : PortPool := pool.drain a.cooldown now

def isFull (a : Allocator) (pool : PortPool) : Bool := a.range.capacity ≤ pool.evenOccupied a.range

/-- Holds a candidate if it is even and free. -/
def attempt (p : Port) (pool : PortPool) : Bool × PortPool :=
  if isEven p then pool.reserve p else (false, pool)

/-- Tries the candidates `draw i`, `draw (i + 1)`, … as often as allowed. -/
def search (draw : Nat → Port) (pool : PortPool) : Nat → Nat → Option (Port × PortPool)
  | 0, _ => none
  | n + 1, i =>
    match attempt (draw i) pool with
    | (true, pool) => some (draw i, pool)
    | (false, _) => search draw pool n (i + 1)

def allocate (a : Allocator) (now : Nat) (draw : Nat → Port) (pool : PortPool) :
    Except Fault Port × PortPool :=
  let pool := a.drain now pool
  if a.isFull pool then (.error (.portsExhausted 0), pool)
  else
    match search draw pool a.attempts.toNat 0 with
    | some (p, pool) => (.ok p, pool)
    | none => (.error (.portsExhausted a.attempts), pool)

def giveBack (a : Allocator) (now : Nat) (p : Port) (pool : PortPool) : Bool × PortPool :=
  if a.cooldown = 0 then pool.free p else pool.coolDown p now

theorem attempt_true {p : Port} {pool pool' : PortPool} (h : attempt p pool = (true, pool')) :
    isEven p = true ∧ pool.isOccupied p = false ∧ pool' = (pool.reserve p).2 := by
  unfold attempt at h
  split at h
  · next heven =>
    have hfst := congrArg Prod.fst h
    rw [PortPool.reserve_fst] at hfst
    exact ⟨heven, by simpa using hfst, by rw [h]⟩
  · simp at h

/-- The port that a search finds is one of those drawn, it is even and was free. -/
theorem search_some {draw : Nat → Port} {pool pool' : PortPool} {n i : Nat} {p : Port}
    (h : search draw pool n i = some (p, pool')) :
    (∃ j, p = draw j) ∧ isEven p = true ∧ pool.isOccupied p = false ∧
      pool' = (pool.reserve p).2 := by
  induction n generalizing i with
  | zero => cases h
  | succ n ih =>
    unfold search at h
    split at h
    · next htry =>
      cases h
      exact ⟨⟨i, rfl⟩, attempt_true htry⟩
    · exact ih h

theorem giveBack_of_ne (a : Allocator) (now : Nat) (pool : PortPool) {p q : Port} (h : p ≠ q) :
    (a.giveBack now p pool).2.isOccupied q = pool.isOccupied q ∧
      (a.giveBack now p pool).2.coolingSince? q = pool.coolingSince? q := by
  unfold giveBack
  split
  · rw [PortPool.isOccupied_free, PortPool.coolingSince?_free, if_neg h, bne, beq_false_of_ne h]
    exact ⟨rfl, rfl⟩
  · rw [PortPool.isOccupied_coolDown, PortPool.coolingSince?_coolDown, if_neg fun hand => h hand.1]
    exact ⟨rfl, rfl⟩

/-- A port that is given back is occupied only as long as it cools. -/
theorem isOccupied_giveBack (a : Allocator) (now : Nat) {pool : PortPool} {p : Port}
    (h : pool.isOccupied p = true) :
    (a.giveBack now p pool).2.isOccupied p =
      ((a.giveBack now p pool).2.coolingSince? p).isSome := by
  unfold giveBack
  split
  · rw [PortPool.isOccupied_free, PortPool.coolingSince?_free, if_pos rfl, bne, beq_self_eq_true]
    rfl
  · rw [PortPool.isOccupied_coolDown, PortPool.coolingSince?_coolDown, if_pos ⟨rfl, h⟩, h]
    rfl

section

variable {a : Allocator} {now : Nat} {draw : Nat → Port} {pool pool' : PortPool}

theorem allocate_ok {p : Port} (h : a.allocate now draw pool = (.ok p, pool')) :
    (∃ j, p = draw j) ∧ isEven p = true ∧ (a.drain now pool).isOccupied p = false ∧
      pool' = ((a.drain now pool).reserve p).2 := by
  unfold allocate at h
  dsimp only at h
  split at h
  · cases h
  · split at h
    · next hsearch =>
      cases h
      exact search_some hsearch
    · cases h

/-- An allocation that fails has drained the pool all the same. -/
theorem allocate_error {e : Fault} (h : a.allocate now draw pool = (.error e, pool')) :
    pool' = a.drain now pool ∧ ∃ n, e = .portsExhausted n := by
  unfold allocate at h
  dsimp only at h
  split at h
  · cases h
    exact ⟨rfl, _, rfl⟩
  · split at h
    · cases h
    · cases h
      exact ⟨rfl, _, rfl⟩

end

end Allocator

end RtpBroker
