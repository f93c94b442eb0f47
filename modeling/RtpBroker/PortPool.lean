import Std.Data.TreeMap
import Std.Data.TreeSet
import RtpBroker.PortRange

/-!
# The pool of occupied ports

A pool keeps the ports that are not free, and apart from them the ports that
cool down after use, each with the time since when. A cooling port still counts
as occupied. Every operation touches the pool once, so clients may interleave
them freely.
-/

namespace RtpBroker

def isEven (p : Port) : Bool := p % 2 == 0

structure PortPool where
  occupied : Std.TreeSet Port := {}
  cooling : Std.TreeMap Port Nat := {}

namespace PortPool

def isOccupied (pool : PortPool) (p : Port) : Bool := pool.occupied.contains p

def coolingSince? (pool : PortPool) (p : Port) : Option Nat := pool.cooling[p]?

def isCooling (pool : PortPool) (p : Port) : Bool := (pool.coolingSince? p).isSome

/-- The occupied ports in ascending order. -/
def ports (pool : PortPool) : List Port := pool.occupied.toList

def size (pool : PortPool) : Nat := pool.occupied.size

def coolingPorts (pool : PortPool) : List Port := pool.cooling.keys

/-- Holds a port; false if it was occupied. -/
def reserve (p : Port) (pool : PortPool) : Bool × PortPool :=
  if pool.isOccupied p then (false, pool)
  else (true, { pool with occupied := pool.occupied.insert p })

/-- Frees a port at once, cooling or not; false if it was free. -/
def free (p : Port) (pool : PortPool) : Bool × PortPool :=
  (pool.isOccupied p, ⟨pool.occupied.erase p, pool.cooling.erase p⟩)

/-- Lets an occupied port cool down; a port that cools already keeps its time. -/
def coolDown (p : Port) (now : Nat) (pool : PortPool) : Bool × PortPool :=
  if pool.isOccupied p then (true, { pool with cooling := pool.cooling.insertIfNew p now })
  else (false, pool)

def hasCooled (cooldown now : Nat) (pool : PortPool) (p : Port) : Bool :=
  (pool.coolingSince? p).any fun since => cooldown ≤ now - since

/-- The ports that have cooled down, in ascending order. -/
def expiredPorts (cooldown now : Nat) (pool : PortPool) : List Port :=
  pool.coolingPorts.filter (pool.hasCooled cooldown now)

def drain (cooldown now : Nat) (pool : PortPool) : PortPool where
  occupied := pool.occupied.filter fun p => !pool.hasCooled cooldown now p
  cooling := pool.cooling.filter fun _ since => !decide (cooldown ≤ now - since)

def evenOccupied (r : PortRange) (pool : PortPool) : Nat :=
  (pool.ports.filter fun p => isEven p && r.contains p).length

variable {p q : Port} {now cooldown : Nat} {pool : PortPool}

theorem mem_ports : p ∈ pool.ports ↔ pool.isOccupied p = true := by
  simp [ports, isOccupied]

theorem nodup_ports : pool.ports.Nodup :=
  pool.occupied.distinct_toList.imp fun h heq => h (Std.compare_eq_iff_eq.mpr heq)

theorem mem_coolingPorts : p ∈ pool.coolingPorts ↔ pool.isCooling p = true := by
  simp [coolingPorts, isCooling, coolingSince?]

theorem nodup_coolingPorts : pool.coolingPorts.Nodup := pool.cooling.nodup_keys

@[simp] theorem isOccupied_empty : ({} : PortPool).isOccupied p = false := by
  simp [isOccupied]

@[simp] theorem coolingSince?_empty : ({} : PortPool).coolingSince? p = none := by
  simp [coolingSince?]

theorem reserve_fst : (pool.reserve p).1 = !pool.isOccupied p := by
  unfold reserve
  split <;> simp_all

theorem isOccupied_reserve : (pool.reserve p).2.isOccupied q = (p == q || pool.isOccupied q) := by
  unfold reserve
  split
  · next h =>
    by_cases hq : p = q
    · subst hq
      simp [h]
    · simp [hq]
  · rw [Bool.eq_iff_iff]
    simp [isOccupied, Std.TreeSet.contains_insert]

@[simp] theorem coolingSince?_reserve :
    (pool.reserve p).2.coolingSince? q = pool.coolingSince? q := by
  unfold reserve
  split <;> rfl

@[simp] theorem free_fst : (pool.free p).1 = pool.isOccupied p := rfl

theorem isOccupied_free : (pool.free p).2.isOccupied q = (p != q && pool.isOccupied q) := by
  rw [Bool.eq_iff_iff]
  simp [free, isOccupied, Std.TreeSet.contains_erase]

theorem coolingSince?_free :
    (pool.free p).2.coolingSince? q = if p = q then none else pool.coolingSince? q := by
  simp [free, coolingSince?, Std.TreeMap.getElem?_erase]

@[simp] theorem coolDown_fst : (pool.coolDown p now).1 = pool.isOccupied p := by
  unfold coolDown
  split <;> simp_all

@[simp] theorem isOccupied_coolDown : (pool.coolDown p now).2.isOccupied q = pool.isOccupied q := by
  unfold coolDown
  split <;> rfl

theorem coolingSince?_coolDown :
    (pool.coolDown p now).2.coolingSince? q =
      if p = q ∧ pool.isOccupied p then some ((pool.coolingSince? q).getD now)
      else pool.coolingSince? q := by
  unfold coolDown
  by_cases h : pool.isOccupied p
  · rw [if_pos h]
    by_cases hq : p = q
    · subst hq
      rw [if_pos ⟨rfl, h⟩]
      simp only [coolingSince?, Std.TreeMap.getElem?_insertIfNew]
      by_cases hc : p ∈ pool.cooling
      · simp [hc]
      · simp [hc]
    · simp [coolingSince?, Std.TreeMap.getElem?_insertIfNew, hq]
  · simp [h]

theorem coolingSince?_drain :
    (pool.drain cooldown now).coolingSince? p =
      if pool.hasCooled cooldown now p then none else pool.coolingSince? p := by
  have h : (pool.drain cooldown now).coolingSince? p =
      (pool.coolingSince? p).filter fun since => !decide (cooldown ≤ now - since) := by
    simp [drain, coolingSince?]
  rw [h, hasCooled]
  cases pool.coolingSince? p with
  | none => rfl
  | some since => by_cases hc : cooldown ≤ now - since <;> simp [hc]

theorem isOccupied_drain :
    (pool.drain cooldown now).isOccupied p =
      (pool.isOccupied p && !pool.hasCooled cooldown now p) := by
  rw [Bool.eq_iff_iff]
  simp [drain, isOccupied, Std.TreeSet.mem_filter]

theorem mem_expiredPorts :
    p ∈ pool.expiredPorts cooldown now ↔ pool.hasCooled cooldown now p = true := by
  rw [expiredPorts, List.mem_filter, mem_coolingPorts, and_iff_right_iff_imp]
  intro hcooled
  cases hsince : pool.coolingSince? p with
  | none => simp [hasCooled, hsince] at hcooled
  | some since => rw [isCooling, hsince, Option.isSome_some]

/-- The ports that are expired are those that a drain takes from the occupied and from the cooling
ones. -/
theorem drain_takes_expired :
    (pool.expiredPorts cooldown now).Nodup ∧
      ((pool.drain cooldown now).isOccupied p = true ↔
        pool.isOccupied p = true ∧ p ∉ pool.expiredPorts cooldown now) ∧
      ((pool.drain cooldown now).isCooling p = true ↔
        pool.isCooling p = true ∧ p ∉ pool.expiredPorts cooldown now) := by
  rw [mem_expiredPorts, isOccupied_drain, isCooling, coolingSince?_drain]
  refine ⟨nodup_coolingPorts.filter _, by simp, ?_⟩
  split <;> simp_all [isCooling]

end PortPool

end RtpBroker
