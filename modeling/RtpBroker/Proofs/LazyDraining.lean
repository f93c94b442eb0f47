import Mathlib.Data.List.Perm.Basic
import RtpBroker.Allocator

/-!
# When cooled ports are drained

A port that has cooled down may stay in the pool for long: nothing drains it
before the next allocation does. Calls that meet it until then find it occupied,
while after an earlier drain they find nothing. What a pool says once it has
been drained is the same either way, so additional drains change neither the
ports that allocations get nor the ports that are occupied for a reason.
-/

namespace RtpBroker

namespace PortPool

/-- No operation tells them apart. -/
structure Alike (pool pool' : PortPool) : Prop where
  isOccupied : ∀ p, pool.isOccupied p = pool'.isOccupied p
  coolingSince? : ∀ p, pool.coolingSince? p = pool'.coolingSince? p

/-- Whether a port is occupied and not merely for want of a drain. -/
def blocks (cooldown now : Nat) (pool : PortPool) (p : Port) : Bool :=
  pool.isOccupied p && !pool.hasCooled cooldown now p

variable {p q : Port} {now time cooldown : Nat} {pool pool' pool'' : PortPool}

theorem hasCooled_mono (hle : now ≤ time) (h : pool.hasCooled cooldown now p = true) :
    pool.hasCooled cooldown time p = true := by
  unfold hasCooled at h ⊢
  cases hsince : pool.coolingSince? p with
  | none => simp [hsince] at h
  | some since =>
    simp only [hsince, Option.any_some, decide_eq_true_eq] at h ⊢
    omega

namespace Alike

theorem refl (pool : PortPool) : pool.Alike pool := ⟨fun _ => rfl, fun _ => rfl⟩

theorem symm (h : pool.Alike pool') : pool'.Alike pool :=
  ⟨fun p => (h.isOccupied p).symm, fun p => (h.coolingSince? p).symm⟩

theorem trans (h : pool.Alike pool') (h' : pool'.Alike pool'') : pool.Alike pool'' :=
  ⟨fun p => (h.isOccupied p).trans (h'.isOccupied p),
    fun p => (h.coolingSince? p).trans (h'.coolingSince? p)⟩

theorem hasCooled (h : pool.Alike pool') (cooldown now : Nat) (p : Port) :
    pool.hasCooled cooldown now p = pool'.hasCooled cooldown now p := by
  rw [PortPool.hasCooled, PortPool.hasCooled, h.coolingSince?]

theorem reserve (h : pool.Alike pool') (p : Port) :
    (pool.reserve p).2.Alike (pool'.reserve p).2 where
  isOccupied q := by rw [isOccupied_reserve, isOccupied_reserve, h.isOccupied]
  coolingSince? q := by rw [coolingSince?_reserve, coolingSince?_reserve, h.coolingSince?]

theorem free (h : pool.Alike pool') (p : Port) : (pool.free p).2.Alike (pool'.free p).2 where
  isOccupied q := by rw [isOccupied_free, isOccupied_free, h.isOccupied]
  coolingSince? q := by rw [coolingSince?_free, coolingSince?_free, h.coolingSince?]

theorem coolDown (h : pool.Alike pool') (p : Port) (now : Nat) :
    (pool.coolDown p now).2.Alike (pool'.coolDown p now).2 where
  isOccupied q := by rw [isOccupied_coolDown, isOccupied_coolDown, h.isOccupied]
  coolingSince? q := by
    rw [coolingSince?_coolDown, coolingSince?_coolDown, h.isOccupied, h.coolingSince?]

theorem drain (h : pool.Alike pool') (cooldown now : Nat) :
    (pool.drain cooldown now).Alike (pool'.drain cooldown now) where
  isOccupied q := by rw [isOccupied_drain, isOccupied_drain, h.isOccupied, h.hasCooled]
  coolingSince? q := by
    rw [coolingSince?_drain, coolingSince?_drain, h.coolingSince?, h.hasCooled]

theorem evenOccupied (h : pool.Alike pool') (r : PortRange) :
    pool.evenOccupied r = pool'.evenOccupied r := by
  have hperm : pool.ports.Perm pool'.ports := by
    refine (List.perm_ext_iff_of_nodup nodup_ports nodup_ports).mpr fun p => ?_
    rw [mem_ports, mem_ports, h.isOccupied]
  exact (hperm.filter _).length_eq

end Alike

/-- To hold a free port and free it again leaves no trace. -/
theorem free_reserve (hfree : pool.isOccupied p = false) (hcool : pool.coolingSince? p = none) :
    ((pool.reserve p).2.free p).2.Alike pool where
  isOccupied q := by
    rw [isOccupied_free, isOccupied_reserve]
    by_cases hq : p = q
    · subst hq
      simp [hfree]
    · simp only [bne, beq_false_of_ne hq, Bool.not_false, Bool.true_and, Bool.false_or]
  coolingSince? q := by
    rw [coolingSince?_free, coolingSince?_reserve]
    by_cases hq : p = q
    · subst hq
      rw [if_pos rfl, hcool]
    · rw [if_neg hq]

/-! ## A drain and another operation -/

theorem hasCooled_drain : (pool.drain cooldown now).hasCooled cooldown time p =
    (pool.hasCooled cooldown time p && !pool.hasCooled cooldown now p) := by
  unfold hasCooled
  rw [coolingSince?_drain]
  by_cases h : pool.hasCooled cooldown now p = true
  · rw [if_pos h]
    unfold hasCooled at h
    simp [h]
  · rw [if_neg h]
    unfold hasCooled at h
    simp [h]

/-- A later drain makes an earlier one superfluous. -/
theorem drain_drain (hle : now ≤ time) (pool : PortPool) :
    ((pool.drain cooldown now).drain cooldown time).Alike (pool.drain cooldown time) where
  isOccupied p := by
    rw [isOccupied_drain, isOccupied_drain, isOccupied_drain, hasCooled_drain]
    by_cases h : pool.hasCooled cooldown now p = true
    · simp [h, hasCooled_mono hle h]
    · simp [h]
  coolingSince? p := by
    rw [coolingSince?_drain, coolingSince?_drain, coolingSince?_drain, hasCooled_drain]
    by_cases h : pool.hasCooled cooldown now p = true
    · simp [h, hasCooled_mono hle h]
    · simp [h]

theorem drain_free (cooldown now : Nat) (p : Port) (pool : PortPool) :
    ((pool.free p).2.drain cooldown now).Alike ((pool.drain cooldown now).free p).2 where
  isOccupied q := by
    rw [isOccupied_drain, isOccupied_free, isOccupied_free, isOccupied_drain, hasCooled,
      hasCooled, coolingSince?_free]
    by_cases hq : p = q
    · simp [hq]
    · simp [hq, Bool.and_assoc]
  coolingSince? q := by
    rw [coolingSince?_drain, coolingSince?_free, coolingSince?_free, coolingSince?_drain,
      hasCooled, hasCooled, coolingSince?_free]
    by_cases hq : p = q
    · simp [hq]
    · simp [hq]

/-- A cooled port keeps its time, so it goes with the drain even if it is returned once more. -/
theorem drain_coolDown (hcooldown : cooldown ≠ 0) (now : Nat) (p : Port) (pool : PortPool) :
    ((pool.coolDown p now).2.drain cooldown now).Alike
      ((pool.drain cooldown now).coolDown p now).2 := by
  have hcooled (q : Port) : (pool.coolDown p now).2.hasCooled cooldown now q =
      pool.hasCooled cooldown now q := by
    unfold hasCooled
    rw [coolingSince?_coolDown]
    split
    · cases pool.coolingSince? q with
      | none => simp [hcooldown]
      | some since => rfl
    · rfl
  refine ⟨fun q => ?_, fun q => ?_⟩
  · rw [isOccupied_drain, isOccupied_coolDown, isOccupied_coolDown, isOccupied_drain, hcooled]
  · rw [coolingSince?_drain, coolingSince?_coolDown, coolingSince?_coolDown, coolingSince?_drain,
      isOccupied_drain, hcooled]
    by_cases hq : p = q
    · subst hq
      by_cases h : pool.hasCooled cooldown now p = true
      · simp [h]
      · simp [h]
    · simp [hq]

end PortPool

namespace Allocator

open PortPool

variable {a : Allocator} {now : Nat} {pool pool' : PortPool}

theorem drain_giveBack (a : Allocator) (now : Nat) (p : Port) (pool : PortPool) :
    (a.drain now (a.giveBack now p pool).2).Alike (a.giveBack now p (a.drain now pool)).2 := by
  unfold giveBack
  split
  · exact drain_free a.cooldown now p pool
  · next hcooldown => exact drain_coolDown hcooldown now p pool

theorem giveBack_alike (h : pool.Alike pool') (a : Allocator) (now : Nat) (p : Port) :
    (a.giveBack now p pool).2.Alike (a.giveBack now p pool').2 := by
  unfold giveBack
  split
  · exact h.free p
  · exact h.coolDown p now

/-! ## Allocations from pools that are alike -/

theorem attempt_alike (h : pool.Alike pool') (p : Port) :
    (attempt p pool).1 = (attempt p pool').1 ∧
      (attempt p pool).2.Alike (attempt p pool').2 := by
  unfold attempt
  split
  · exact ⟨by rw [reserve_fst, reserve_fst, h.isOccupied], h.reserve p⟩
  · exact ⟨rfl, h⟩

theorem search_alike (h : pool.Alike pool') (draw : Nat → Port) (n i : Nat) :
    (search draw pool n i = none ∧ search draw pool' n i = none) ∨
      ∃ p found found', search draw pool n i = some (p, found) ∧
        search draw pool' n i = some (p, found') ∧ found.Alike found' := by
  induction n generalizing i with
  | zero => exact Or.inl ⟨rfl, rfl⟩
  | succ n ih =>
    obtain ⟨hfst, hsnd⟩ := attempt_alike h (draw i)
    unfold search
    rcases htry : attempt (draw i) pool with ⟨taken, found⟩
    rcases htry' : attempt (draw i) pool' with ⟨taken', found'⟩
    rw [htry, htry'] at hfst hsnd
    cases hfst
    cases taken with
    | true => exact Or.inr ⟨_, found, found', rfl, rfl, hsnd⟩
    | false => exact ih (i + 1)

/-- Pools that are alike once drained give the same port and are alike afterwards. -/
theorem allocate_alike (h : (a.drain now pool).Alike (a.drain now pool')) (draw : Nat → Port) :
    (a.allocate now draw pool).1 = (a.allocate now draw pool').1 ∧
      (a.allocate now draw pool).2.Alike (a.allocate now draw pool').2 := by
  have hfull : a.isFull (a.drain now pool) = a.isFull (a.drain now pool') := by
    rw [isFull, isFull, h.evenOccupied]
  unfold allocate
  dsimp only
  rw [hfull]
  split
  · exact ⟨rfl, h⟩
  · rcases search_alike h draw a.attempts.toNat 0 with ⟨hnone, hnone'⟩ | ⟨p, found, found', hsome,
      hsome', halike⟩
    · rw [hnone, hnone']
      exact ⟨rfl, h⟩
    · rw [hsome, hsome']
      exact ⟨rfl, halike⟩

/-! ## Runs -/

inductive Call
  | allocate (draw : Nat → Port)
  | free (p : Port)
  | giveBack (p : Port)
  | drain
  | wait (ms : Nat)

def Call.isDrain : Call → Bool
  | .drain => true
  | _ => false

/-- `answers` are the results of the allocations so far. -/
structure State where
  now : Nat := 0
  pool : PortPool := {}
  answers : List (Except Fault Port) := []

namespace State

def call (a : Allocator) (s : State) : Call → State
  | .allocate draw =>
    let (answer, pool) := a.allocate s.now draw s.pool
    { s with pool, answers := s.answers ++ [answer] }
  | .free p => { s with pool := (s.pool.free p).2 }
  | .giveBack p => { s with pool := (a.giveBack s.now p s.pool).2 }
  | .drain => { s with pool := a.drain s.now s.pool }
  | .wait ms => { s with now := s.now + ms }

def run (a : Allocator) (calls : List Call) (s : State) : State := calls.foldl (call a) s

/-- The two differ at most in ports that have cooled down. -/
structure Equivalent (a : Allocator) (s s' : State) : Prop where
  now : s.now = s'.now
  answers : s.answers = s'.answers
  drained : (a.drain s.now s.pool).Alike (a.drain s'.now s'.pool)

variable {s s' s'' : State}

theorem Equivalent.refl (a : Allocator) (s : State) : Equivalent a s s :=
  ⟨rfl, rfl, Alike.refl _⟩

theorem Equivalent.symm (h : Equivalent a s s') : Equivalent a s' s :=
  ⟨h.now.symm, h.answers.symm, h.drained.symm⟩

theorem Equivalent.trans (h : Equivalent a s s') (h' : Equivalent a s' s'') :
    Equivalent a s s'' :=
  ⟨h.now.trans h'.now, h.answers.trans h'.answers, h.drained.trans h'.drained⟩

theorem Equivalent.drain (a : Allocator) (s : State) : Equivalent a (s.call a .drain) s :=
  ⟨rfl, rfl, drain_drain (Nat.le_refl _) s.pool⟩

/-- An operation that may as well come after the drain keeps equivalent states equivalent. -/
theorem Equivalent.operate {f : PortPool → PortPool} (h : Equivalent a s s')
    (hdrain : ∀ pool, (a.drain s.now (f pool)).Alike (f (a.drain s.now pool)))
    (hf : ∀ {pool pool'}, pool.Alike pool' → (f pool).Alike (f pool')) :
    Equivalent a { s with pool := f s.pool } { s' with pool := f s'.pool } := by
  obtain ⟨hnow, hanswers, hdrained⟩ := h
  refine ⟨hnow, hanswers, ?_⟩
  change (a.drain s.now (f s.pool)).Alike (a.drain s'.now (f s'.pool))
  rw [← hnow] at hdrained ⊢
  exact (hdrain s.pool).trans ((hf hdrained).trans (hdrain s'.pool).symm)

theorem Equivalent.call (h : Equivalent a s s') (c : Call) :
    Equivalent a (s.call a c) (s'.call a c) := by
  cases c with
  | allocate draw =>
    obtain ⟨hnow, hanswers, hdrained⟩ := h
    rw [← hnow] at hdrained
    obtain ⟨hanswer, halike⟩ := allocate_alike hdrained draw
    refine ⟨hnow, ?_, ?_⟩
    · change s.answers ++ [(a.allocate s.now draw s.pool).1] =
        s'.answers ++ [(a.allocate s'.now draw s'.pool).1]
      rw [hanswers, ← hnow, hanswer]
    · change (a.drain s.now (a.allocate s.now draw s.pool).2).Alike
        (a.drain s'.now (a.allocate s'.now draw s'.pool).2)
      rw [← hnow]
      exact halike.drain a.cooldown s.now
  | free p => exact h.operate (drain_free a.cooldown s.now p) fun halike => halike.free p
  | giveBack p =>
    have hcall : s'.call a (.giveBack p) =
        { s' with pool := (a.giveBack s.now p s'.pool).2 } := by
      rw [h.now]
      rfl
    rw [hcall]
    exact h.operate (drain_giveBack a s.now p) fun halike => giveBack_alike halike a s.now p
  | drain => exact (Equivalent.drain a s).trans (h.trans (Equivalent.drain a s').symm)
  | wait ms =>
    obtain ⟨hnow, hanswers, hdrained⟩ := h
    refine ⟨congrArg (· + ms) hnow, hanswers, ?_⟩
    change (a.drain (s.now + ms) s.pool).Alike (a.drain (s'.now + ms) s'.pool)
    rw [← hnow] at hdrained ⊢
    have hle : s.now ≤ s.now + ms := Nat.le_add_right _ _
    exact (drain_drain hle s.pool).symm.trans
      ((hdrained.drain a.cooldown (s.now + ms)).trans (drain_drain hle s'.pool))

theorem Equivalent.blocks (h : Equivalent a s s') {time : Nat} (hle : s.now ≤ time) (p : Port) :
    s.pool.blocks a.cooldown time p = s'.pool.blocks a.cooldown time p := by
  have hlate : (a.drain time s.pool).Alike (a.drain time s'.pool) := by
    have hdrained := h.drained
    rw [← h.now] at hdrained
    exact (drain_drain hle s.pool).symm.trans
      ((hdrained.drain a.cooldown time).trans (drain_drain hle s'.pool))
  have hocc := hlate.isOccupied p
  unfold Allocator.drain at hocc
  rwa [isOccupied_drain, isOccupied_drain] at hocc

/-- Drains may be left out. -/
theorem run_filter (a : Allocator) (calls : List Call) (s s' : State) (h : Equivalent a s s') :
    Equivalent a (s.run a calls) (s'.run a (calls.filter (!·.isDrain))) := by
  induction calls generalizing s s' with
  | nil => exact h
  | cons c calls ih =>
    cases hdrain : c.isDrain with
    | true =>
      have hc : c = .drain := by
        cases c with
        | drain => rfl
        | _ => cases hdrain
      subst hc
      exact ih _ _ ((Equivalent.drain a s).trans h)
    | false =>
      rw [List.filter_cons_of_pos (by simp [hdrain])]
      exact ih _ _ (h.call c)

/-- Two runs that differ only in when they drain give every allocation the same result, and leave
the same ports occupied but for those that have cooled down, then and as long as nothing more is
called. -/
theorem drains_do_not_matter (a : Allocator) (s : State) {calls calls' : List Call}
    (h : calls.filter (!·.isDrain) = calls'.filter (!·.isDrain)) :
    (s.run a calls).now = (s.run a calls').now ∧
    (s.run a calls).answers = (s.run a calls').answers ∧
    ∀ time, (s.run a calls).now ≤ time → ∀ p,
      (s.run a calls).pool.blocks a.cooldown time p =
        (s.run a calls').pool.blocks a.cooldown time p := by
  have hleft := run_filter a calls s s (Equivalent.refl a s)
  have hright := run_filter a calls' s s (Equivalent.refl a s)
  rw [h] at hleft
  have hboth := hleft.trans hright.symm
  exact ⟨hboth.now, hboth.answers, fun time hle p => hboth.blocks hle p⟩

/-- A port given back twice, and drained or not in between, is allocated again all the same. -/
theorem returned_twice_allocated_again :
    let a : Allocator := ⟨⟨10000, 10001, by decide, by decide⟩, 1, 5⟩
    let calls : List Call := [.allocate fun _ => 10000, .giveBack 10000, .wait 5,
      .giveBack 10000, .allocate fun _ => 10000]
    let calls' : List Call := [.allocate fun _ => 10000, .giveBack 10000, .wait 5, .drain,
      .giveBack 10000, .drain, .allocate fun _ => 10000]
    calls.filter (!·.isDrain) = calls'.filter (!·.isDrain) ∧
      (run a calls {}).answers = (run a calls' {}).answers ∧
      (run a calls {}).answers = [.ok 10000, .ok 10000] := by
  intro a calls calls'
  have hcalls : calls.filter (!·.isDrain) = calls'.filter (!·.isDrain) := rfl
  exact ⟨hcalls, (drains_do_not_matter a {} hcalls).2.1, by decide +kernel⟩

end State

end Allocator

end RtpBroker
