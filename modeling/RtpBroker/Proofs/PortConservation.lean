import RtpBroker.Proofs.BrokerMoves
import RtpBroker.Proofs.EvenPorts
import RtpBroker.Proofs.LazyDraining

/-!
# No port is lost

A port is occupied for one reason at a time: a session is registered on it, its
session is being torn down, or it cools down. Every transfer keeps it so,
whatever fails on the way.
-/

namespace RtpBroker

def Post.holds (q : Post) : Bool := q.2 == .registered || q.2 == .leaving

namespace Ledger

/-- The ports that sessions still have. -/
def held (l : Ledger) : List Port := (l.posts.filter Post.holds).map (·.1)

structure Conserved (r : PortRange) (l : Ledger) : Prop where
  nodup : l.held.Nodup
  occupied_iff : ∀ p, l.pool.isOccupied p = true ↔ p ∈ l.held ∨ l.pool.isCooling p = true
  not_cooling : ∀ p ∈ l.held, l.pool.coolingSince? p = none
  placed : ∀ p, l.pool.isOccupied p = true → isEven p = true ∧ r.contains p = true

section

variable {r : PortRange} {l : Ledger}

theorem Conserved.occupied_of_held (h : Conserved r l) {p : Port} (hp : p ∈ l.held) :
    l.pool.isOccupied p = true := (h.occupied_iff p).mpr (Or.inl hp)

theorem Conserved.coolingSince?_of_free (h : Conserved r l) {p : Port}
    (hp : l.pool.isOccupied p = false) : l.pool.coolingSince? p = none := by
  by_contra hne
  have hcool : l.pool.isCooling p = true := Option.isSome_iff_ne_none.mpr hne
  simp [(h.occupied_iff p).mpr (Or.inr hcool)] at hp

theorem Conserved.empty (r : PortRange) : Conserved r ⟨{}, []⟩ where
  nodup := List.nodup_nil
  occupied_iff p := by simp [held, PortPool.isCooling]
  not_cooling p hp := by simp [held] at hp
  placed p hp := by simp at hp

theorem Conserved.congr (h : Conserved r l) {pool : PortPool}
    (hocc : ∀ p, pool.isOccupied p = l.pool.isOccupied p)
    (hcool : ∀ p, pool.coolingSince? p = l.pool.coolingSince? p) :
    Conserved r ⟨pool, l.posts⟩ where
  nodup := h.nodup
  occupied_iff p := by
    simp only [PortPool.isCooling, hocc, hcool]
    exact h.occupied_iff p
  not_cooling p hp := (hcool p).trans (h.not_cooling p hp)
  placed p hp := h.placed p ((hocc p).symm.trans hp)

theorem Conserved.drain (h : Conserved r l) (a : Allocator) (time : Nat) :
    Conserved r ⟨a.drain time l.pool, l.posts⟩ := by
  have hocc : ∀ p, (a.drain time l.pool).isOccupied p =
      (l.pool.isOccupied p && !l.pool.hasCooled a.cooldown time p) := fun p =>
    PortPool.isOccupied_drain
  have hcool : ∀ p, (a.drain time l.pool).coolingSince? p =
      if l.pool.hasCooled a.cooldown time p then none else l.pool.coolingSince? p := fun p =>
    PortPool.coolingSince?_drain
  have hheld : ∀ p ∈ l.held, l.pool.hasCooled a.cooldown time p = false := by
    intro p hp
    simp [PortPool.hasCooled, h.not_cooling p hp]
  refine ⟨h.nodup, fun p => ?_, fun p hp => ?_, fun p hp => ?_⟩
  · change (a.drain time l.pool).isOccupied p = true ↔
      p ∈ l.held ∨ ((a.drain time l.pool).coolingSince? p).isSome = true
    rw [hocc, hcool]
    by_cases hp : l.pool.hasCooled a.cooldown time p = true
    · have hnot : p ∉ l.held := fun hmem => by simp [hheld p hmem] at hp
      simp [hp, hnot]
    · rw [Bool.not_eq_true] at hp
      simpa [hp, PortPool.isCooling] using h.occupied_iff p
  · change (a.drain time l.pool).coolingSince? p = none
    rw [hcool, hheld p hp]
    exact h.not_cooling p hp
  · change (a.drain time l.pool).isOccupied p = true at hp
    rw [hocc, Bool.and_eq_true] at hp
    exact h.placed p hp.1

theorem Conserved.bounce (h : Conserved r l) {p : Port} (hfree : l.pool.isOccupied p = false) :
    Conserved r ⟨((l.pool.reserve p).2.free p).2, l.posts⟩ := by
  have halike := PortPool.free_reserve hfree (h.coolingSince?_of_free hfree)
  exact h.congr halike.isOccupied halike.coolingSince?

theorem Conserved.enter (h : Conserved r l) {p : Port} (heven : isEven p = true)
    (hin : r.contains p = true) (hfree : l.pool.isOccupied p = false) :
    Conserved r ⟨(l.pool.reserve p).2, l.posts ++ [(p, .registered)]⟩ := by
  have hheld : held ⟨(l.pool.reserve p).2, l.posts ++ [(p, .registered)]⟩ = l.held ++ [p] := by
    simp [held, Post.holds]
  have hnot : p ∉ l.held := fun hmem => by simp [h.occupied_of_held hmem] at hfree
  refine ⟨?_, fun q => ?_, fun q hq => ?_, fun q hq => ?_⟩
  · rw [hheld]
    exact h.nodup.append (List.nodup_singleton p) (by simpa using hnot)
  · rw [hheld]
    simp only [PortPool.isCooling, PortPool.coolingSince?_reserve, PortPool.isOccupied_reserve,
      Bool.or_eq_true, beq_iff_eq, List.mem_append, List.mem_singleton]
    rw [h.occupied_iff q, PortPool.isCooling, eq_comm]
    tauto
  · rw [PortPool.coolingSince?_reserve]
    rw [hheld, List.mem_append, List.mem_singleton] at hq
    rcases hq with hq | rfl
    · exact h.not_cooling q hq
    · exact h.coolingSince?_of_free hfree
  · simp only [PortPool.isOccupied_reserve, Bool.or_eq_true, beq_iff_eq] at hq
    rcases hq with rfl | hq
    · exact ⟨heven, hin⟩
    · exact h.placed q hq

theorem Conserved.leave {pool : PortPool} {before after : List Post} {p : Port}
    (h : Conserved r ⟨pool, before ++ (p, .registered) :: after⟩) :
    Conserved r ⟨pool, before ++ (p, .leaving) :: after⟩ := by
  have hheld : held ⟨pool, before ++ (p, .leaving) :: after⟩ =
      held ⟨pool, before ++ (p, .registered) :: after⟩ := by
    simp [held, Post.holds]
  exact ⟨hheld ▸ h.nodup, fun q => hheld ▸ h.occupied_iff q, hheld ▸ h.not_cooling, h.placed⟩

/-- A port that its session no longer has is free at once, or cools down. -/
theorem Conserved.vacate (a : Allocator) (time : Nat) {pool : PortPool}
    {before after : List Post} {p : Port}
    (h : Conserved r ⟨pool, before ++ (p, .leaving) :: after⟩) :
    Conserved r ⟨(a.giveBack time p pool).2, before ++ (p, .gone) :: after⟩ := by
  let others := ((before ++ after).filter Post.holds).map (·.1)
  have hgone : held ⟨(a.giveBack time p pool).2, before ++ (p, .gone) :: after⟩ = others := by
    simp [held, Post.holds, others]
  have hperm : (held ⟨pool, before ++ (p, .leaving) :: after⟩).Perm (p :: others) := by
    simp only [held, others, List.filter_append, List.map_append]
    exact List.perm_middle
  have hnodup := List.nodup_cons.mp (hperm.nodup_iff.mp h.nodup)
  have hmem : ∀ q, q ∈ held ⟨pool, before ++ (p, .leaving) :: after⟩ ↔ q = p ∨ q ∈ others :=
    fun q => hperm.mem_iff.trans List.mem_cons
  have hocc : pool.isOccupied p = true := h.occupied_of_held ((hmem p).mpr (Or.inl rfl))
  have hother := fun q (hq : q ≠ p) => a.giveBack_of_ne time pool hq.symm
  refine ⟨hgone ▸ hnodup.2, fun q => ?_, fun q hq => ?_, fun q hq => ?_⟩
  · change (a.giveBack time p pool).2.isOccupied q = true ↔
      q ∈ held _ ∨ ((a.giveBack time p pool).2.coolingSince? q).isSome = true
    rw [hgone]
    by_cases hq : q = p
    · subst hq
      rw [a.isOccupied_giveBack time hocc, or_iff_right hnodup.1]
    · rw [(hother q hq).1, (hother q hq).2]
      refine (h.occupied_iff q).trans ?_
      rw [hmem, or_iff_right hq]
      rfl
  · rw [hgone] at hq
    have hne : q ≠ p := fun heq => hnodup.1 (heq ▸ hq)
    exact (hother q hne).2.trans (h.not_cooling q ((hmem q).mpr (Or.inr hq)))
  · by_cases hqp : q = p
    · subst hqp
      exact h.placed q hocc
    · exact h.placed q ((hother q hqp).1.symm.trans hq)

theorem Conserved.transfer {a : Allocator} {l' : Ledger} (h : Conserved a.range l)
    (ht : Transfer a l l') : Conserved a.range l' := by
  cases ht with
  | drain _ time => exact h.drain a time
  | bounce _ hfree => exact h.bounce hfree
  | enter _ heven hin hfree => exact h.enter heven hin hfree
  | leave pool before after p => exact h.leave
  | vacate pool before after p time => exact h.vacate a time

theorem Conserved.transfers {a : Allocator} {l' : Ledger} (h : Conserved a.range l)
    (ht : Relation.ReflTransGen (Transfer a) l l') : Conserved a.range l' := by
  induction ht with
  | refl => exact h
  | tail _ hlast ih => exact ih.transfer hlast

end

end Ledger

namespace Broker

theorem start_eq {setup : BrokerSetup} {calendar : Timestamp} {b : Broker}
    (h : start setup calendar = .ok b) :
    ∃ range, PortRange.of setup.low setup.high = .ok range ∧
      b = {
        setup
        allocator := ⟨range, setup.attempts, setup.cooldown⟩
        exchange := { calendar } } := by
  unfold start at h
  cases hrange : PortRange.of setup.low setup.high with
  | error e =>
    rw [hrange] at h
    cases h
  | ok range =>
    rw [hrange] at h
    change (if setup.attempts = 0 then _ else _) = _ at h
    split at h
    · cases h
    · exact ⟨range, rfl, (Except.ok.inj h).symm⟩

theorem start_ok {setup : BrokerSetup} {calendar : Timestamp} {b : Broker}
    (h : start setup calendar = .ok b) :
    b.allocator.range.low = setup.low ∧ b.allocator.range.high = setup.high ∧
      b.ledger = ⟨{}, []⟩ := by
  obtain ⟨range, hrange, rfl⟩ := start_eq h
  unfold PortRange.of at hrange
  split at hrange
  · split at hrange
    · cases hrange
      exact ⟨rfl, rfl, rfl⟩
    · cases hrange
  · cases hrange

def leavingPorts (b : Broker) : List Port :=
  (b.exchange.sessions.filter (·.standing == .leaving)).map (·.port)

variable {b : Broker} {r : PortRange}

/-- The ports that sessions have are those registered and those being left. -/
theorem held_perm (b : Broker) : b.ledger.held.Perm (b.exchange.ports ++ b.leavingPorts) := by
  have hheld : b.ledger.held = (b.exchange.sessions.filter (Post.holds ·.post)).map (·.port) := by
    simp [Ledger.held, ledger, Exchange.posts, List.filter_map, Function.comp_def, Session.post]
  have hsplit := List.filter_append_perm (·.standing == .registered)
    (b.exchange.sessions.filter (Post.holds ·.post))
  have hregistered : (b.exchange.sessions.filter (Post.holds ·.post)).filter
      (·.standing == .registered) = b.exchange.registered := by
    rw [List.filter_filter, Exchange.registered]
    refine List.filter_congr fun s _ => ?_
    simp only [Post.holds, Session.post]
    cases s.standing <;> rfl
  have hleaving : (b.exchange.sessions.filter (Post.holds ·.post)).filter
      (fun s => !(s.standing == .registered)) =
      b.exchange.sessions.filter (·.standing == .leaving) := by
    rw [List.filter_filter]
    refine List.filter_congr fun s _ => ?_
    simp only [Post.holds, Session.post]
    cases s.standing <;> rfl
  rw [hregistered, hleaving] at hsplit
  rw [hheld]
  refine (hsplit.symm.map _).trans ?_
  rw [List.map_append]
  exact (List.mergeSort_perm _ _).symm.append_right _

/-- No port is occupied for two reasons, and none for no reason. -/
theorem ports_perm (h : Ledger.Conserved r b.ledger) :
    b.pool.ports.Perm (b.exchange.ports ++ b.leavingPorts ++ b.pool.coolingPorts) := by
  refine List.Perm.trans ?_ ((held_perm b).append_right _)
  refine (List.perm_ext_iff_of_nodup PortPool.nodup_ports ?_).mpr fun p => ?_
  · refine h.nodup.append PortPool.nodup_coolingPorts fun p hp hcool => ?_
    have hnone : b.pool.coolingSince? p = none := h.not_cooling p hp
    rw [PortPool.mem_coolingPorts, PortPool.isCooling, hnone] at hcool
    cases hcool
  · rw [PortPool.mem_ports, List.mem_append, PortPool.mem_coolingPorts]
    exact h.occupied_iff p

/-- A socket is bound on the ports that are occupied and do not cool down. -/
theorem isBound_iff (h : Ledger.Conserved r b.ledger) (p : Port) :
    b.isBound p = true ↔ b.pool.isOccupied p = true ∧ b.pool.isCooling p = false := by
  have hheld : b.isBound p = true ↔ p ∈ b.ledger.held := by
    simp [isBound, Ledger.held, ledger, Exchange.posts, Session.post, Post.holds, and_comm,
      and_left_comm, and_assoc]
  have hoccupied : b.pool.isOccupied p = true ↔ p ∈ b.ledger.held ∨ b.pool.isCooling p = true :=
    h.occupied_iff p
  rw [hheld, hoccupied]
  constructor
  · intro hp
    have hnone : b.pool.coolingSince? p = none := h.not_cooling p hp
    exact ⟨Or.inl hp, by rw [PortPool.isCooling, hnone, Option.isSome_none]⟩
  · rintro ⟨hp | hcooling, hnot⟩
    · exact hp
    · cases hcooling.symm.trans hnot

/-- A session is never opened on a port where there is one already. -/
theorem openFrom_ne_portTaken (chance : Chance) (n round : Nat) {failure : Fault} {b : Broker}
    (h : Ledger.Conserved b.allocator.range b.ledger) (hfailure : ∀ q, failure ≠ .portTaken q)
    (q : Port) : (openFrom chance n round failure b).1 ≠ .error (.portTaken q) := by
  induction n generalizing round failure b with
  | zero => exact fun heq => hfailure q (Except.error.inj heq)
  | succ n ih =>
    unfold openFrom
    split
    · next hallocate =>
      obtain ⟨-, k, rfl⟩ := Allocator.allocate_error hallocate
      simp
    · next p pool hallocate =>
      obtain ⟨-, -, hfree, rfl⟩ := Allocator.allocate_ok hallocate
      have hdrained : Ledger.Conserved b.allocator.range
          ⟨b.allocator.drain b.now b.pool, b.exchange.posts⟩ := h.drain b.allocator b.now
      dsimp only
      split
      · exact ih (b := { b with pool := _ }) _ (hdrained.bounce hfree) (by simp)
      · unfold register
        split
        · next hcreate =>
          obtain ⟨-, hmem⟩ := Exchange.create_error hcreate
          have hheld : p ∈ Ledger.held ⟨b.allocator.drain b.now b.pool, b.exchange.posts⟩ :=
            List.mem_map.mpr ⟨_, List.mem_filter.mpr ⟨hmem, rfl⟩, rfl⟩
          simp [hdrained.occupied_of_held hheld] at hfree
        · simp

/-- Once nothing is torn down and the cooling ports have cooled, only those of open sessions are
occupied. -/
theorem drained_perm (h : Ledger.Conserved b.allocator.range b.ledger)
    (hleaving : b.leavingPorts = [])
    {time : Nat} (htime : ∀ p since, b.pool.coolingSince? p = some since →
      since + b.allocator.cooldown ≤ time) :
    (b.allocator.drain time b.pool).ports.Perm b.exchange.ports := by
  have hdrained : Ledger.Conserved b.allocator.range
      ({ b with pool := b.allocator.drain time b.pool } : Broker).ledger := h.drain b.allocator time
  have hperm := ports_perm hdrained
  have hnone : (b.allocator.drain time b.pool).coolingPorts = [] := by
    refine List.eq_nil_iff_forall_not_mem.mpr fun p hp => ?_
    have hcool : (b.allocator.drain time b.pool).coolingSince? p = _ := PortPool.coolingSince?_drain
    rw [PortPool.mem_coolingPorts, PortPool.isCooling, hcool] at hp
    cases hsince : b.pool.coolingSince? p with
    | none => simp [PortPool.hasCooled, hsince] at hp
    | some since =>
      have hle := htime p since hsince
      have hcooled : b.allocator.cooldown ≤ time - since := by omega
      simp [PortPool.hasCooled, hsince, hcooled] at hp
  change (b.allocator.drain time b.pool).ports.Perm (b.exchange.ports ++ b.leavingPorts ++
    (b.allocator.drain time b.pool).coolingPorts) at hperm
  rwa [hleaving, hnone, List.append_nil, List.append_nil] at hperm

theorem Follows.conserved {b' : Broker} (h : Follows b b')
    (hb : Ledger.Conserved b.allocator.range b.ledger) :
    Ledger.Conserved b'.allocator.range b'.ledger := by
  rw [h.allocator]
  exact hb.transfers h.transfers

/-- After every run the pool holds the ports of the open sessions, those of sessions being torn
down and those that cool, each for one of these reasons; all are even ports of the range, no two
open sessions have the same, and there are at most as many as the capacity. No session is ever
opened on a port already taken, and no port is lost. -/
theorem ports_conserved {setup : BrokerSetup} {calendar : Timestamp} {b₀ : Broker}
    (hstart : start setup calendar = .ok b₀) {events : List Event}
    (hfair : ∀ e ∈ events, e.Fair b₀.allocator.range) :
    let b := b₀.run events
    b.pool.ports.Perm (b.exchange.ports ++ b.leavingPorts ++ b.pool.coolingPorts) ∧
    (b.exchange.ports ++ b.leavingPorts ++ b.pool.coolingPorts).Nodup ∧
    (∀ p ∈ b.pool.ports, isEven p = true ∧ setup.low ≤ p ∧ p ≤ setup.high) ∧
    b.exchange.ports.Nodup ∧ b.exchange.ports.length ≤ b.capacity ∧
    (∀ chance q, (b.openSession chance).1 ≠ .error (.portTaken q)) ∧
    (b.leavingPorts = [] → ∀ time, (∀ p since, b.pool.coolingSince? p = some since →
        since + b.allocator.cooldown ≤ time) →
      (b.allocator.drain time b.pool).ports.Perm b.exchange.ports) := by
  intro b
  obtain ⟨hlow, hhigh, hledger⟩ := start_ok hstart
  have hfollows : Follows b₀ b := run_follows events b₀ hfair
  have h : Ledger.Conserved b.allocator.range b.ledger :=
    hfollows.conserved (hledger ▸ Ledger.Conserved.empty _)
  have hperm := ports_perm h
  have hnodup := hperm.nodup_iff.mp PortPool.nodup_ports
  have hplaced : ∀ p ∈ b.pool.ports, isEven p = true ∧ b.allocator.range.contains p = true :=
    fun p hp => h.placed p (PortPool.mem_ports.mp hp)
  have hopen : b.exchange.ports.Nodup := hnodup.of_append_left.of_append_left
  refine ⟨hperm, hnodup, fun p hp => ?_, hopen, ?_, ?_,
    fun hleaving time => drained_perm h hleaving⟩
  · obtain ⟨heven, hin⟩ := hplaced p hp
    rw [hfollows.allocator, PortRange.contains, Bool.and_eq_true, decide_eq_true_eq,
      decide_eq_true_eq, hlow, hhigh] at hin
    exact ⟨heven, hin⟩
  · refine PortRange.length_le_capacity _ hopen fun p hp => hplaced p ?_
    exact hperm.mem_iff.mpr (List.mem_append_left _ (List.mem_append_left _ hp))
  · exact fun chance => openFrom_ne_portTaken chance _ _ h (by simp)

/-- Two sessions are opened, the second one on another port than was tried first, and the first
one is released. -/
def twoSessions : List Event := [
  .openSession ⟨fun _ i => if i = 0 then 10001 else 10002, fun _ _ => none⟩,
  .openSession ⟨fun k _ => if k = 0 then 10004 else 10006,
    fun k _ => if k = 0 then some "Address already in use" else none⟩,
  .detach 10002, .complete 0]

theorem twoSessions_fair {r : PortRange} (hlow : r.low = 10000) (hhigh : r.high = 10007) :
    ∀ e ∈ twoSessions, e.Fair r := by
  intro e he
  simp only [twoSessions, List.mem_cons, List.not_mem_nil, or_false] at he
  rcases he with rfl | rfl | rfl | rfl
  · intro round i
    simp only [PortRange.contains, hlow, hhigh]
    split <;> decide
  · intro round i
    simp only [PortRange.contains, hlow, hhigh]
    split <;> decide
  · trivial
  · trivial

theorem ports_conserved_twoSessions :
    ∃ b₀, start { low := 10000, high := 10007 } ⟨0, 0⟩ = .ok b₀ ∧
      (∀ e ∈ twoSessions, e.Fair b₀.allocator.range) ∧
      ((b₀.run twoSessions).exchange.ports ++ (b₀.run twoSessions).leavingPorts ++
        (b₀.run twoSessions).pool.coolingPorts).Perm [10002, 10006] := by
  refine ⟨_, rfl, twoSessions_fair rfl rfl, ?_⟩
  have h := @ports_conserved { low := 10000, high := 10007 } ⟨0, 0⟩ _ rfl twoSessions
    (twoSessions_fair rfl rfl)
  refine h.1.symm.trans (List.Perm.of_eq ?_)
  decide +kernel

end Broker

end RtpBroker
