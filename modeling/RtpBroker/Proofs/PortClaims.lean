import Mathlib.Data.List.Basic
import RtpBroker.Proofs.Contention

/-!
# What the log says about a port

The reports so far tell of every port whether it is free, held or cooling: its
`claim`. However the actions of the clients interleave, the pool agrees with the
log; it may only be ahead of it by a drain.
-/

namespace RtpBroker.Contention

/-- What the log says about a port. -/
inductive Claim
  | free
  | held
  | cooling (since : Nat)
  deriving DecidableEq, Repr

namespace Claim

/-- What a note changes for the port `p`. -/
def revise (a : Allocator) (p : Port) (c : Claim) (n : Note) : Claim :=
  match n.report with
  | .took _ q => if q = p then .held else c
  | .freed q true => if q = p then .free else c
  | .returned q true =>
    if q = p then
      if a.cooldown = 0 then .free
      else
        match c with
        | .cooling since => .cooling since
        | _ => .cooling n.time
    else c
  | _ => c

end Claim

def claim (a : Allocator) (p : Port) (log : List Note) : Claim :=
  log.foldl (Claim.revise a p) .free

theorem claim_concat (a : Allocator) (p : Port) (log : List Note) (n : Note) :
    claim a p (log ++ [n]) = (claim a p log).revise a p n := by
  simp [claim]

/-- Whether the pool, at a time, is as the log says or has been drained since. -/
def Agrees (a : Allocator) (now : Nat) (pool : PortPool) (p : Port) : Claim → Prop
  | .free => pool.isOccupied p = false
  | .held => pool.isOccupied p = true ∧ pool.coolingSince? p = none
  | .cooling since => since ≤ now ∧
    (pool.isOccupied p = true ∧ pool.coolingSince? p = some since ∨
      pool.isOccupied p = false ∧ since + a.cooldown ≤ now)

/-- Whether a port with this claim may be taken at a time. -/
def Claim.Allows (a : Allocator) (time : Nat) : Claim → Prop
  | .free => True
  | .held => False
  | .cooling since => since + a.cooldown ≤ time

/-- What every action keeps. -/
structure Sound (a : Allocator) (d : Desk) : Prop where
  occupied_of_cooling : ∀ p, d.pool.isCooling p = true → d.pool.isOccupied p = true
  seen_le : ∀ k seen allocates, d.calls k = .draining seen allocates → seen ≤ d.now
  agrees : ∀ p, Agrees a d.now d.pool p (claim a p d.log)
  ordered : (d.log.map (·.time)).Pairwise (· ≤ ·)
  past : ∀ n ∈ d.log, n.time ≤ d.now
  allowed : ∀ before n after k p, d.log = before ++ n :: after → n.report = .took k p →
    (claim a p before).Allows a n.time

section

variable {a : Allocator} {now : Nat} {pool : PortPool} {p : Port} {c : Claim}

theorem Agrees.allows (h : Agrees a now pool p c) (hp : pool.isOccupied p = false) :
    c.Allows a now := by
  cases c with
  | free => trivial
  | held => simp [Agrees, hp] at h
  | cooling since =>
    rcases h.2 with ⟨hocc, -⟩ | ⟨-, hle⟩
    · simp [hp] at hocc
    · exact hle

theorem Agrees.wait {later : Nat} (h : Agrees a now pool p c) (hle : now ≤ later) :
    Agrees a later pool p c := by
  cases c with
  | free => exact h
  | held => exact h
  | cooling since =>
    exact ⟨Nat.le_trans h.1 hle, h.2.imp_right fun ⟨hp, hs⟩ => ⟨hp, Nat.le_trans hs hle⟩⟩

theorem Agrees.congr {pool' : PortPool} (h : Agrees a now pool p c)
    (hocc : pool'.isOccupied p = pool.isOccupied p)
    (hsince : pool'.coolingSince? p = pool.coolingSince? p) : Agrees a now pool' p c := by
  cases c <;> simpa only [Agrees, hocc, hsince] using h

theorem Agrees.drain {seen : Nat} (h : Agrees a now pool p c) (hseen : seen ≤ now) :
    Agrees a now (a.drain seen pool) p c := by
  have hocc : (a.drain seen pool).isOccupied p = _ := PortPool.isOccupied_drain
  have hsince : (a.drain seen pool).coolingSince? p = _ := PortPool.coolingSince?_drain
  by_cases hcool : pool.hasCooled a.cooldown seen p = true
  · cases c with
    | free =>
      simp only [Agrees] at h ⊢
      rw [hocc, h, Bool.false_and]
    | held => simp [PortPool.hasCooled, h.2] at hcool
    | cooling since =>
      refine ⟨h.1, Or.inr ⟨by simp [hocc, hcool], ?_⟩⟩
      rcases h.2 with ⟨-, hs⟩ | ⟨-, hle⟩
      · simp only [PortPool.hasCooled, hs, Option.any_some, decide_eq_true_eq] at hcool
        have := h.1
        omega
      · exact hle
  · rw [Bool.not_eq_true] at hcool
    exact h.congr (by simp [hocc, hcool]) (by simp [hsince, hcool])

end

theorem coolingSince?_eq_none {pool : PortPool} {p : Port}
    (hsub : ∀ q, pool.isCooling q = true → pool.isOccupied q = true)
    (hp : pool.isOccupied p = false) : pool.coolingSince? p = none := by
  by_contra hne
  have hc : pool.isCooling p = true := Option.isSome_iff_ne_none.mpr hne
  simp [hsub p hc] at hp

/-! ## Every action keeps the pool sound -/

section

variable {a : Allocator} {d : Desk}

theorem Sound.opened (a : Allocator) (start : Nat) : Sound a { now := start } where
  occupied_of_cooling p hp := by simp [PortPool.isCooling] at hp
  seen_le k seen allocates hk := by simp at hk
  agrees p := PortPool.isOccupied_empty
  ordered := List.Pairwise.nil
  past n hn := by simp at hn
  allowed before n after k p hlog := by simp at hlog

theorem Sound.setCall (h : Sound a d) (k : Nat) (c : Call)
    (hc : ∀ seen allocates, c = .draining seen allocates → seen ≤ d.now) :
    Sound a (d.setCall k c) where
  occupied_of_cooling := h.occupied_of_cooling
  seen_le j seen allocates hj := by
    by_cases hjk : j = k
    · subst hjk
      exact hc seen allocates (by simpa [Desk.setCall] using hj)
    · exact h.seen_le j seen allocates (by simpa [Desk.setCall, hjk] using hj)
  agrees := h.agrees
  ordered := h.ordered
  past := h.past
  allowed := h.allowed

/-- A report comes with a change of the pool that it accounts for. -/
theorem Sound.note (h : Sound a d) {pool : PortPool} {r : Report}
    (hsub : ∀ p, pool.isCooling p = true → pool.isOccupied p = true)
    (hagrees : ∀ p, Agrees a d.now pool p ((claim a p d.log).revise a p ⟨d.now, r⟩))
    (hallow : ∀ k p, r = .took k p → (claim a p d.log).Allows a d.now) :
    Sound a ({ d with pool }.note r) where
  occupied_of_cooling := hsub
  seen_le := h.seen_le
  agrees p := by
    change Agrees a d.now pool p (claim a p (d.log ++ [⟨d.now, r⟩]))
    rw [claim_concat]
    exact hagrees p
  ordered := by
    change ((d.log ++ [(⟨d.now, r⟩ : Note)]).map (·.time)).Pairwise (· ≤ ·)
    rw [List.map_append, List.pairwise_append]
    refine ⟨h.ordered, List.pairwise_singleton _ _, ?_⟩
    intro t ht t' ht'
    obtain ⟨n, hn, rfl⟩ := List.mem_map.mp ht
    obtain rfl := List.mem_singleton.mp ht'
    exact h.past n hn
  past n hn := by
    rcases List.mem_append.mp hn with hn | hn
    · exact h.past n hn
    · rw [List.mem_singleton.mp hn]
      exact Nat.le_refl _
  allowed before n after k p hlog hn := by
    change d.log ++ [⟨d.now, r⟩] = before ++ n :: after at hlog
    rcases List.eq_nil_or_concat after with rfl | ⟨after, last, rfl⟩
    · obtain ⟨hbefore, rfl⟩ := List.append_singleton_inj.mp hlog
      rw [← hbefore]
      exact hallow k p hn
    · have hsplit : d.log ++ [⟨d.now, r⟩] = (before ++ n :: after) ++ [last] := by
        rw [hlog]
        simp
      exact h.allowed before n after k p (List.append_singleton_inj.mp hsplit).1 hn

theorem Sound.note_failed (h : Sound a d) (k : Nat) (e : Fault) : Sound a (d.note (.failed k e)) :=
  h.note h.occupied_of_cooling h.agrees fun _ _ hr => by simp at hr

theorem Sound.goOn (h : Sound a d) (k left : Nat) : Sound a (d.goOn a k left) := by
  unfold Desk.goOn
  split
  · exact (h.note_failed k _).setCall k .idle (by simp)
  · exact h.setCall k _ (by simp)

theorem Sound.drain (h : Sound a d) {seen : Nat} (hseen : seen ≤ d.now) :
    Sound a { d with pool := a.drain seen d.pool } where
  occupied_of_cooling p hp := by
    have hocc : (a.drain seen d.pool).isOccupied p = _ := PortPool.isOccupied_drain
    have hsince : (a.drain seen d.pool).coolingSince? p = _ := PortPool.coolingSince?_drain
    by_cases hcool : d.pool.hasCooled a.cooldown seen p = true
    · simp [PortPool.isCooling, hsince, hcool] at hp
    · rw [Bool.not_eq_true] at hcool
      have hp' : d.pool.isCooling p = true := by
        simpa [PortPool.isCooling, hsince, hcool] using hp
      simp [hocc, hcool, h.occupied_of_cooling p hp']
  seen_le := h.seen_le
  agrees p := (h.agrees p).drain hseen
  ordered := h.ordered
  past := h.past
  allowed := h.allowed

theorem Sound.took (h : Sound a d) (k : Nat) {p : Port} (hp : d.pool.isOccupied p = false) :
    Sound a ({ d with pool := (d.pool.reserve p).2 }.note (.took k p)) := by
  refine h.note ?_ ?_ ?_
  · intro q hq
    rw [PortPool.isCooling, PortPool.coolingSince?_reserve] at hq
    rw [PortPool.isOccupied_reserve, h.occupied_of_cooling q hq, Bool.or_true]
  · intro q
    by_cases hq : p = q
    · subst hq
      simp only [Claim.revise, if_pos]
      refine ⟨by simp [PortPool.isOccupied_reserve], ?_⟩
      rw [PortPool.coolingSince?_reserve]
      exact coolingSince?_eq_none h.occupied_of_cooling hp
    · simp only [Claim.revise, if_neg hq]
      exact (h.agrees q).congr (by simp [PortPool.isOccupied_reserve, hq])
        PortPool.coolingSince?_reserve
  · rintro _ q ⟨⟩
    exact (h.agrees p).allows hp

/-- A port that is free at once, whichever report says so. -/
theorem Sound.freed (h : Sound a d) (p : Port) {r : Report} (htook : ∀ k q, r ≠ .took k q)
    (hr : ∀ c q, Claim.revise a q c ⟨d.now, r⟩ =
      if p = q ∧ d.pool.isOccupied p = true then .free else c) :
    Sound a ({ d with pool := (d.pool.free p).2 }.note r) := by
  refine h.note ?_ ?_ (fun k q hkq => absurd hkq (htook k q))
  · intro q hq
    rw [PortPool.isCooling, PortPool.coolingSince?_free] at hq
    by_cases hpq : p = q
    · simp [hpq] at hq
    · rw [if_neg hpq] at hq
      simp [PortPool.isOccupied_free, hpq, h.occupied_of_cooling q hq]
  · intro q
    rw [hr]
    by_cases hpq : p = q
    · subst hpq
      have hfree : (d.pool.free p).2.isOccupied p = false := by simp [PortPool.isOccupied_free]
      cases hocc : d.pool.isOccupied p with
      | true =>
        rw [if_pos ⟨rfl, rfl⟩]
        exact hfree
      | false =>
        rw [if_neg (by simp)]
        refine (h.agrees p).congr (by rw [hfree, hocc]) ?_
        rw [PortPool.coolingSince?_free, if_pos rfl,
          coolingSince?_eq_none h.occupied_of_cooling hocc]
    · rw [if_neg (by simp [hpq])]
      exact (h.agrees q).congr (by simp [PortPool.isOccupied_free, hpq])
        (by rw [PortPool.coolingSince?_free, if_neg hpq])

/-- A port that is given back and has to cool down. -/
theorem Sound.cooled (h : Sound a d) (p : Port) (ha : a.cooldown ≠ 0) :
    Sound a ({ d with pool := (d.pool.coolDown p d.now).2 }.note
      (.returned p (d.pool.coolDown p d.now).1)) := by
  refine h.note ?_ ?_ (fun _ _ hr => by simp at hr)
  · intro q hq
    rw [PortPool.isOccupied_coolDown]
    by_contra hocc
    rw [Bool.not_eq_true] at hocc
    rw [PortPool.isCooling, PortPool.coolingSince?_coolDown,
      if_neg (by rintro ⟨rfl, hp⟩; simp [hp] at hocc),
      coolingSince?_eq_none h.occupied_of_cooling hocc] at hq
    simp at hq
  · intro q
    have hagrees := h.agrees q
    cases hocc : d.pool.isOccupied p with
    | false =>
      simp only [PortPool.coolDown_fst, hocc, Claim.revise]
      exact hagrees.congr PortPool.isOccupied_coolDown
        (by simp [PortPool.coolingSince?_coolDown, hocc])
    | true =>
      by_cases hpq : p = q
      · subst hpq
        have hsince : (d.pool.coolDown p d.now).2.coolingSince? p =
            some ((d.pool.coolingSince? p).getD d.now) := by
          rw [PortPool.coolingSince?_coolDown, if_pos ⟨rfl, hocc⟩]
        simp only [PortPool.coolDown_fst, hocc, Claim.revise, if_pos, if_neg ha]
        cases hclaim : claim a p d.log with
        | free => simp [hclaim, Agrees, hocc] at hagrees
        | held =>
          rw [hclaim] at hagrees
          refine ⟨Nat.le_refl _, Or.inl ⟨by simp [hocc], ?_⟩⟩
          rw [hsince, hagrees.2, Option.getD_none]
        | cooling since =>
          rw [hclaim] at hagrees
          rcases hagrees.2 with ⟨-, hs⟩ | ⟨hfree, -⟩
          · refine ⟨hagrees.1, Or.inl ⟨by simp [hocc], ?_⟩⟩
            rw [hsince, hs, Option.getD_some]
          · simp [hocc] at hfree
      · simp only [PortPool.coolDown_fst, hocc, Claim.revise, if_neg hpq]
        exact hagrees.congr PortPool.isOccupied_coolDown
          (by simp [PortPool.coolingSince?_coolDown, hpq])

theorem Sound.act (h : Sound a d) (act : Action) : Sound a (d.act a act) := by
  cases act with
  | beginAllocation k =>
    cases hk : d.calls k with
    | idle =>
      simp only [Desk.act, hk]
      exact h.setCall k _ (by rintro seen allocates ⟨⟩; exact Nat.le_refl _)
    | _ => simpa only [Desk.act, hk] using h
  | beginDrain k =>
    cases hk : d.calls k with
    | idle =>
      simp only [Desk.act, hk]
      exact h.setCall k _ (by rintro seen allocates ⟨⟩; exact Nat.le_refl _)
    | _ => simpa only [Desk.act, hk] using h
  | drain k =>
    cases hk : d.calls k with
    | draining seen allocates =>
      simp only [Desk.act, hk]
      exact (h.drain (h.seen_le k seen allocates hk)).setCall k _ (by split <;> simp)
    | _ => simpa only [Desk.act, hk] using h
  | count k =>
    cases hk : d.calls k with
    | counting =>
      simp only [Desk.act, hk]
      split
      · exact (h.note_failed k _).setCall k .idle (by simp)
      · exact h.goOn k _
    | _ => simpa only [Desk.act, hk] using h
  | attempt k p =>
    cases hk : d.calls k with
    | searching left =>
      simp only [Desk.act, hk]
      rcases htry : Allocator.attempt p d.pool with ⟨taken, pool⟩
      cases taken with
      | true =>
        obtain ⟨-, hp, rfl⟩ := Allocator.attempt_true htry
        exact (h.took k hp).setCall k .idle (by simp)
      | false => exact h.goOn k _
    | _ => simpa only [Desk.act, hk] using h
  | free p =>
    refine h.freed p (by simp) fun c q => ?_
    cases hocc : d.pool.isOccupied p <;> simp [Claim.revise, hocc]
  | giveBack p =>
    simp only [Desk.act, Allocator.giveBack]
    by_cases ha : a.cooldown = 0
    · simp only [if_pos ha]
      refine h.freed p (by simp) fun c q => ?_
      cases hocc : d.pool.isOccupied p <;> simp [Claim.revise, hocc, ha]
    · simp only [if_neg ha]
      exact h.cooled p ha
  | wait ms =>
    exact {
      occupied_of_cooling := h.occupied_of_cooling
      seen_le := fun k seen allocates hk =>
        Nat.le_trans (h.seen_le k seen allocates hk) (Nat.le_add_right _ _)
      agrees := fun p => (h.agrees p).wait (Nat.le_add_right _ _)
      ordered := h.ordered
      past := fun n hn => Nat.le_trans (h.past n hn) (Nat.le_add_right _ _)
      allowed := h.allowed }

theorem Sound.run (h : Sound a d) (acts : List Action) : Sound a (d.run a acts) := by
  induction acts generalizing d with
  | nil => exact h
  | cons act acts ih => exact ih (h.act act)

end

end RtpBroker.Contention
