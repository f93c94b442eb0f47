import Mathlib.Algebra.Order.Floor.Div
import RtpBroker.Proofs.Instants

/-!
# When a playback looks

A playback looks for the address of the peer when it is accepted, once an interval as
long as its time is not up, and for the last time when it is. Which of these looks it
has had, and what it found, can be read off what happened from instant to instant.
-/

namespace RtpBroker

namespace PlaySetup

/-- How many looks there may be before the one at the end of the time. -/
def rounds (c : PlaySetup) : Nat := c.ceiling ⌈/⌉ c.interval

/-- The times at which a playback may look that is accepted at `a`. -/
def lookTimes (c : PlaySetup) (a : Nat) : List Nat :=
  (List.range c.rounds).map (fun k => a + k * c.interval) ++ [a + c.ceiling]

/-- The time of a look that so many come before. -/
def lookTime (c : PlaySetup) (a n : Nat) : Nat := a + min (n * c.interval) c.ceiling

variable {c : PlaySetup} {a n m t : Nat}

@[simp] theorem length_lookTimes (c : PlaySetup) (a : Nat) :
    (c.lookTimes a).length = c.rounds + 1 := by
  simp [lookTimes]

theorem lookTime_zero (c : PlaySetup) (a : Nat) : c.lookTime a 0 = a := by
  simp [lookTime]

theorem lookTime_le (c : PlaySetup) (a n : Nat) : c.lookTime a n ≤ a + c.ceiling := by
  unfold lookTime
  omega

theorem lookTime_mono (h : n ≤ m) : c.lookTime a n ≤ c.lookTime a m := by
  have hmul := Nat.mul_le_mul_right c.interval h
  unfold lookTime
  omega

section

variable (hinterval : 0 < c.interval)

include hinterval

theorem lt_rounds : n < c.rounds ↔ n * c.interval < c.ceiling := by
  rw [← Nat.not_le, ← Nat.not_le, rounds, ceilDiv_le_iff_le_mul hinterval, Nat.mul_comm]

theorem lookTime_of_lt (hn : n < c.rounds) : c.lookTime a n = a + n * c.interval := by
  have hlt := (lt_rounds hinterval).mp hn
  unfold lookTime
  omega

theorem lookTime_rounds : c.lookTime a c.rounds = a + c.ceiling := by
  have hle := mt (lt_rounds hinterval).mpr (Nat.lt_irrefl c.rounds)
  unfold lookTime
  omega

theorem lookTimes_eq : c.lookTimes a = (List.range (c.rounds + 1)).map (c.lookTime a) := by
  rw [List.range_succ, List.map_append, List.map_singleton, lookTime_rounds hinterval, lookTimes]
  refine congrArg (· ++ _) (List.map_congr_left fun n hn => ?_)
  exact (lookTime_of_lt hinterval (List.mem_range.mp hn)).symm

theorem getElem?_lookTimes (hn : n ≤ c.rounds) :
    (c.lookTimes a)[n]? = some (c.lookTime a n) := by
  rw [lookTimes_eq hinterval, List.getElem?_map, List.getElem?_range (by omega)]
  rfl

theorem lookTime_lt_succ (hn : n < c.rounds) : c.lookTime a n < c.lookTime a (n + 1) := by
  have hlt := (lt_rounds hinterval).mp hn
  unfold lookTime
  rw [Nat.succ_mul]
  omega

/-- Who looks in vain sets its alarm for the next of these times. -/
theorem nextLook_lookTime (hn : n < c.rounds) :
    Session.nextLook c (c.lookTime a n) (a + c.ceiling) = c.lookTime a (n + 1) := by
  rw [Session.nextLook, if_neg (Nat.ne_of_gt hinterval), lookTime_of_lt hinterval hn, lookTime,
    Nat.succ_mul]
  omega

theorem le_of_mem_drop {u : Nat} (hu : u ∈ (c.lookTimes a).drop n) : c.lookTime a n ≤ u := by
  rw [lookTimes_eq hinterval, ← List.map_drop] at hu
  obtain ⟨m, hm, rfl⟩ := List.mem_map.mp hu
  obtain ⟨k, hk⟩ := List.mem_iff_getElem?.mp hm
  rw [List.getElem?_drop] at hk
  have hmem := List.getElem?_eq_some_iff.mp hk
  simp only [List.getElem_range, List.length_range] at hmem
  obtain ⟨-, rfl⟩ := hmem
  exact lookTime_mono (Nat.le_add_right n k)

/-- A time after one look and not after the next one, rounded up to intervals since the acceptance,
but not beyond the end of the time, is that of the next one. -/
theorem lookTime_of_between (hn : n < c.rounds) (hlast : c.lookTime a n < t)
    (hnext : t ≤ c.lookTime a (n + 1)) :
    a + min ((t - a) ⌈/⌉ c.interval * c.interval) c.ceiling = c.lookTime a (n + 1) := by
  rw [lookTime_of_lt hinterval hn] at hlast
  unfold lookTime at hnext
  have hceil : (t - a) ⌈/⌉ c.interval = n + 1 := by
    refine Nat.le_antisymm ((ceilDiv_le_iff_le_mul hinterval).mpr ?_) (Nat.succ_le_of_lt ?_)
    · rw [Nat.mul_comm]
      omega
    · rw [← Nat.not_le, ceilDiv_le_iff_le_mul hinterval, Nat.mul_comm]
      omega
  rw [hceil, lookTime]

end

end PlaySetup

/-- A look for the address of the peer: when, and what it finds. -/
structure Look where
  time : Nat
  found : Option SocketAddr
  deriving DecidableEq

/-- The first so many looks, all of them in vain. -/
def PlaySetup.vain (c : PlaySetup) (a n : Nat) : List Look :=
  ((c.lookTimes a).take n).map (⟨·, none⟩)

theorem PlaySetup.vain_succ {c : PlaySetup} {a n : Nat} (hinterval : 0 < c.interval)
    (hn : n ≤ c.rounds) : c.vain a (n + 1) = c.vain a n ++ [⟨c.lookTime a n, none⟩] := by
  rw [vain, List.take_add_one, getElem?_lookTimes hinterval hn, List.map_append]
  rfl

theorem PlaySetup.mem_vain {c : PlaySetup} {a n : Nat} {l : Look} (hinterval : 0 < c.interval)
    (hl : l ∈ c.vain a n) : ∃ k < n, l = ⟨c.lookTime a k, none⟩ := by
  obtain ⟨u, hu, rfl⟩ := List.mem_map.mp hl
  rw [lookTimes_eq hinterval, ← List.map_take] at hu
  obtain ⟨k, hk, rfl⟩ := List.mem_map.mp hu
  obtain ⟨j, hj, rfl⟩ := List.mem_take_iff_getElem.mp hk
  exact ⟨j, by omega, by rw [List.getElem_range]⟩

namespace Instant

/-- The look that a playback of the session with number `i` has at a moment: it is accepted, or it
is woken while it waits. -/
def look? (i : Nat) (id : Uuid) (b : Instant) : Moment → Option Look
  | .event (.play port payload format id') _ =>
    match b.exchange.refusalOrPlace port payload format with
    | .ok (_, j) =>
      if j = i ∧ id' = id then b.exchange.sessions[i]?.map fun s => ⟨b.exchange.now, s.remote⟩
      else none
    | .error _ => none
  | .ring k =>
    match b.ringing[k]?, b.exchange.sessions[i]? with
    | some a, some s =>
      if a.sleeper = .playback i id ∧ id ∈ s.waitingIds then some ⟨b.exchange.now, s.remote⟩
      else none
    | _, _ => none
  | _ => none

/-- The looks that a playback of the session with number `i` has in a run. -/
def looks (c : PlaySetup) (i : Nat) (id : Uuid) : List Moment → Instant → List Look
  | [], _ => []
  | m :: moments, b => (b.look? i id m).toList ++ looks c i id moments (b.step c m)

variable {c : PlaySetup} {i : Nat} {id : Uuid} {b : Instant}

theorem looks_append (before after : List Moment) (b : Instant) :
    looks c i id (before ++ after) b = looks c i id before b ++ looks c i id after (run c before b) := by
  induction before generalizing b with
  | nil => rfl
  | cons m before ih =>
    rw [List.cons_append, looks, looks, ih, List.append_assoc]
    rfl

end Instant

end RtpBroker
