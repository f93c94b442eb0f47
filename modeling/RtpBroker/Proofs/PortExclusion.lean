import Mathlib.Data.List.Basic
import RtpBroker.Proofs.PortClaims

/-!
# Exclusive ports

However the actions of the clients interleave, a port that one of them has taken
is not taken again before it is freed, or given back and cooled down. All of it
is read off a log that the pool agrees with.
-/

namespace RtpBroker.Contention

def Report.takes (p : Port) : Report → Bool
  | .took _ q => q == p
  | _ => false

theorem Report.takes_iff {p : Port} {r : Report} : r.takes p = true ↔ ∃ k, r = .took k p := by
  cases r with
  | took k q => simp [Report.takes]
  | _ => simp [Report.takes]

section

variable (a : Allocator) (p : Port)

theorem claim_took {n : Note} {k : Nat} (hn : n.report = .took k p) (before : List Note) :
    claim a p (before ++ [n]) = .held := by
  rw [claim_concat]
  simp [Claim.revise, hn]

/-- A port that is held stays so as long as nobody frees it or gives it back. -/
theorem held_stays {log : List Note} (hfreed : ∀ n ∈ log, n.report ≠ .freed p true)
    (hreturned : ∀ n ∈ log, n.report ≠ .returned p true) :
    log.foldl (Claim.revise a p) .held = .held := by
  induction log with
  | nil => rfl
  | cons n log ih =>
    have hstep : Claim.revise a p .held n = .held := by
      have hf := hfreed n (List.mem_cons_self ..)
      have hr := hreturned n (List.mem_cons_self ..)
      unfold Claim.revise
      split <;> simp_all
    rw [List.foldl_cons, hstep]
    exact ih (fun m hm => hfreed m (List.mem_cons_of_mem _ hm))
      (fun m hm => hreturned m (List.mem_cons_of_mem _ hm))

theorem cooling_stays (ha : a.cooldown ≠ 0) {log : List Note} {since : Nat}
    (hfreed : ∀ n ∈ log, n.report ≠ .freed p true)
    (htook : ∀ n ∈ log, n.report.takes p = false) :
    log.foldl (Claim.revise a p) (.cooling since) = .cooling since := by
  induction log with
  | nil => rfl
  | cons n log ih =>
    have hstep : Claim.revise a p (.cooling since) n = .cooling since := by
      have hf := hfreed n (List.mem_cons_self ..)
      have ht := htook n (List.mem_cons_self ..)
      unfold Claim.revise
      split <;> simp_all [Report.takes]
    rw [List.foldl_cons, hstep]
    exact ih (fun m hm => hfreed m (List.mem_cons_of_mem _ hm))
      (fun m hm => htook m (List.mem_cons_of_mem _ hm))

theorem claim_append (xs ys : List Note) :
    claim a p (xs ++ ys) = ys.foldl (Claim.revise a p) (claim a p xs) := List.foldl_append

theorem claim_held {xs us : List Note} {n : Note} {k : Nat} (hn : n.report = .took k p)
    (hfreed : ∀ m ∈ us, m.report ≠ .freed p true)
    (hreturned : ∀ m ∈ us, m.report ≠ .returned p true) :
    claim a p (xs ++ n :: us) = .held := by
  rw [List.append_cons, claim_append, claim_took a p hn]
  exact held_stays a p hfreed hreturned

/-- The first time a held port is given back is when it starts to cool. -/
theorem claim_returned (ha : a.cooldown ≠ 0) {xs us : List Note} {n r : Note} {k : Nat}
    (hn : n.report = .took k p) (hr : r.report = .returned p true)
    (hfreed : ∀ m ∈ us, m.report ≠ .freed p true)
    (hreturned : ∀ m ∈ us, m.report ≠ .returned p true) :
    claim a p (xs ++ n :: us ++ [r]) = .cooling r.time := by
  rw [claim_concat, claim_held a p hn hfreed hreturned]
  simp [Claim.revise, ha, hr]

end

theorem first_split (test : Note → Bool) {log : List Note} (h : ∃ n ∈ log, test n = true) :
    ∃ us n vs, log = us ++ n :: vs ∧ test n = true ∧ ∀ m ∈ us, test m = false := by
  obtain ⟨n, hn⟩ := Option.isSome_iff_exists.mp (List.find?_isSome.mpr h)
  obtain ⟨htest, us, vs, hsplit, hus⟩ := List.find?_eq_some_iff_append.mp hn
  exact ⟨us, n, vs, hsplit, htest, fun m hm => by simpa using hus m hm⟩

section

variable {a : Allocator} {d : Desk} {p : Port} {xs ys zs : List Note} {n₁ n₂ : Note} {k₁ k₂ : Nat}

theorem Sound.time_le (h : Sound a d) (hlog : d.log = xs ++ n₁ :: ys) (hn : n₂ ∈ ys) :
    n₁.time ≤ n₂.time := by
  have hordered := h.ordered
  rw [hlog, List.map_append, List.map_cons] at hordered
  have htail := (List.pairwise_append.mp hordered).2.1
  exact (List.pairwise_cons.mp htail).1 n₂.time (List.mem_map_of_mem hn)

/-- Between two allocations of a port it was freed or given back. -/
theorem Sound.released (h : Sound a d) (hlog : d.log = xs ++ n₁ :: (ys ++ n₂ :: zs))
    (h₁ : n₁.report = .took k₁ p) (h₂ : n₂.report = .took k₂ p) :
    ∃ n ∈ ys, n.report = .freed p true ∨ n.report = .returned p true := by
  by_contra hnone
  have hfreed : ∀ n ∈ ys, n.report ≠ .freed p true := fun n hn hf => hnone ⟨n, hn, Or.inl hf⟩
  have hreturned : ∀ n ∈ ys, n.report ≠ .returned p true := fun n hn hr => hnone ⟨n, hn, Or.inr hr⟩
  have hallowed := h.allowed (xs ++ n₁ :: ys) n₂ zs k₂ p (by rw [hlog]; simp) h₂
  rw [claim_held a p h₁ hfreed hreturned] at hallowed
  exact hallowed

theorem Sound.cooled_first (h : Sound a d) (ha : a.cooldown ≠ 0) {before ws : List Note} {m : Note}
    {since : Nat} (hlog : d.log = before ++ ws ++ m :: zs)
    (hclaim : claim a p before = .cooling since)
    (hfreed : ∀ n ∈ ws, n.report ≠ .freed p true) (htook : ∀ n ∈ ws, n.report.takes p = false)
    (hm : m.report = .took k₁ p) : since + a.cooldown ≤ m.time := by
  have hallowed := h.allowed (before ++ ws) m zs k₁ p hlog hm
  rw [claim_append, hclaim, cooling_stays a p ha hfreed htook] at hallowed
  exact hallowed

/-- If it was not freed, it has cooled down since it was first given back. -/
theorem Sound.cooled_between (h : Sound a d) (hlog : d.log = xs ++ n₁ :: (ys ++ n₂ :: zs))
    (h₁ : n₁.report = .took k₁ p) (h₂ : n₂.report = .took k₂ p)
    (hfreed : ∀ n ∈ ys, n.report ≠ .freed p true) :
    ∃ us n vs, ys = us ++ n :: vs ∧ n.report = .returned p true ∧
      (∀ m ∈ us, m.report ≠ .returned p true) ∧ n.time + a.cooldown ≤ n₂.time := by
  obtain ⟨m, hm, hreleased⟩ := h.released hlog h₁ h₂
  have hret : m.report = .returned p true := hreleased.resolve_left (hfreed m hm)
  obtain ⟨us, n, vs, rfl, hn, hus⟩ :=
    first_split (fun m => m.report == .returned p true) ⟨m, hm, by simp [hret]⟩
  rw [beq_iff_eq] at hn
  have hus' : ∀ m ∈ us, m.report ≠ .returned p true := fun m hm => by simpa using hus m hm
  refine ⟨us, n, vs, rfl, hn, hus', ?_⟩
  have hsplit : d.log = (xs ++ n₁ :: us) ++ n :: (vs ++ n₂ :: zs) := by rw [hlog]; simp
  by_cases ha : a.cooldown = 0
  · rw [ha, Nat.add_zero]
    exact h.time_le hsplit (by simp)
  -- Others may have taken the port in between, so the first one to do so is looked at.
  have htaken : ∃ m ∈ vs ++ [n₂], m.report.takes p = true :=
    ⟨n₂, by simp, Report.takes_iff.mpr ⟨k₂, h₂⟩⟩
  obtain ⟨ws, m, ws', hrest, hm, hws⟩ := first_split (fun m => m.report.takes p) htaken
  obtain ⟨k, hk⟩ := Report.takes_iff.mp hm
  have hlog' : d.log = (xs ++ n₁ :: us ++ [n] ++ ws) ++ m :: (ws' ++ zs) := by
    have hzs : vs ++ n₂ :: zs = ws ++ m :: (ws' ++ zs) := by
      rw [List.append_cons vs, hrest]
      simp
    rw [hsplit, hzs]
    simp
  have hfreed' : ∀ m ∈ ws, m.report ≠ .freed p true := by
    intro m hm
    have hmem : m ∈ vs ++ [n₂] := by
      rw [hrest]
      exact List.mem_append_left _ hm
    rcases List.mem_append.mp hmem with hvs | hlast
    · exact hfreed m (by simp [hvs])
    · rw [List.mem_singleton.mp hlast, h₂]
      simp
  have hclaim : claim a p (xs ++ n₁ :: us ++ [n]) = .cooling n.time :=
    claim_returned a p ha h₁ hn (fun m hm => hfreed m (List.mem_append_left _ hm)) hus'
  refine Nat.le_trans (h.cooled_first ha hlog' hclaim hfreed' hws hk) ?_
  rcases List.eq_nil_or_concat ws' with rfl | ⟨ws', last, rfl⟩
  · exact Nat.le_of_eq (congrArg Note.time (List.append_singleton_inj.mp hrest).2.symm)
  · have hends : vs ++ [n₂] = (ws ++ m :: ws') ++ [last] := by rw [hrest]; simp
    obtain rfl := (List.append_singleton_inj.mp hends).2
    exact h.time_le hlog' (by simp)

/-- While a port cools, giving it back again does not move the time since when. -/
theorem Sound.stamp (h : Sound a d) (ha : a.cooldown ≠ 0)
    (hlog : d.log = xs ++ n₁ :: (ys ++ n₂ :: zs)) (h₁ : n₁.report = .took k₁ p)
    (h₂ : n₂.report = .returned p true) (hfirst : ∀ n ∈ ys, n.report ≠ .returned p true)
    (hfreed : ∀ n ∈ ys ++ zs, n.report ≠ .freed p true)
    (htook : ∀ n ∈ zs, n.report.takes p = false) :
    d.pool.coolingSince? p = some n₂.time ∨
      d.pool.isOccupied p = false ∧ n₂.time + a.cooldown ≤ d.now := by
  have hclaim : claim a p d.log = .cooling n₂.time := by
    have hsplit : d.log = (xs ++ n₁ :: ys ++ [n₂]) ++ zs := by rw [hlog]; simp
    rw [hsplit, claim_append, claim_returned a p ha h₁ h₂
      (fun n hn => hfreed n (List.mem_append_left _ hn)) hfirst]
    exact cooling_stays a p ha (fun n hn => hfreed n (List.mem_append_right _ hn)) htook
  have hagrees := h.agrees p
  rw [hclaim] at hagrees
  exact hagrees.2.imp And.right id

end

/-- A client has taken a port and nobody has freed it or given it back since. -/
def Holds (k : Nat) (p : Port) (log : List Note) : Prop :=
  ∃ before n after, log = before ++ n :: after ∧ n.report = .took k p ∧
    ∀ m ∈ after, m.report ≠ .freed p true ∧ m.report ≠ .returned p true

section

variable {a : Allocator} {d : Desk} {p : Port} {k k' : Nat}

theorem Sound.not_taken_again (h : Sound a d) {xs ys zs : List Note} {n n' : Note}
    (hlog : d.log = xs ++ n :: (ys ++ n' :: zs)) (hn : n.report = .took k p)
    (hn' : n'.report = .took k' p)
    (hkept : ∀ m ∈ ys ++ n' :: zs, m.report ≠ .freed p true ∧ m.report ≠ .returned p true) :
    False := by
  obtain ⟨m, hm, hreleased⟩ := h.released hlog hn hn'
  have hnot := hkept m (List.mem_append_left _ hm)
  exact hreleased.elim hnot.1 hnot.2

theorem Sound.holder_unique (h : Sound a d) (hk : Holds k p d.log) (hk' : Holds k' p d.log) :
    k = k' := by
  obtain ⟨xs, n, ys, hlog, hn, hys⟩ := hk
  obtain ⟨xs', n', ys', hlog', hn', hys'⟩ := hk'
  rcases List.append_eq_append_iff.mp (hlog.symm.trans hlog') with
    ⟨us, hxs, hrest⟩ | ⟨us, hxs, hrest⟩
  · cases us with
    | nil =>
      obtain rfl := (List.cons.inj hrest).1
      exact (Report.took.inj (hn.symm.trans hn')).1
    | cons u us =>
      obtain ⟨rfl, rfl⟩ := List.cons.inj hrest
      exact (h.not_taken_again hlog hn hn' hys).elim
  · cases us with
    | nil =>
      obtain rfl := (List.cons.inj hrest).1
      exact (Report.took.inj (hn.symm.trans hn')).1
    | cons u us =>
      obtain ⟨rfl, rfl⟩ := List.cons.inj hrest
      exact (h.not_taken_again hlog' hn' hn hys').elim

end

/-- Whatever the clients do and in whichever order their actions come: only occupied ports cool;
between two allocations of a port it was freed, or else given back and then left to cool since
the first time; no two clients hold it at once. -/
theorem exclusive_until_cooled (a : Allocator) (start : Nat) (acts : List Action) (p : Port) :
    let d := Desk.run a acts { now := start }
    (d.pool.isCooling p = true → d.pool.isOccupied p = true) ∧
    (∀ xs ys zs n₁ n₂ k₁ k₂, d.log = xs ++ n₁ :: (ys ++ n₂ :: zs) →
      n₁.report = .took k₁ p → n₂.report = .took k₂ p →
      (∃ n ∈ ys, n.report = .freed p true ∨ n.report = .returned p true) ∧
      ((∀ n ∈ ys, n.report ≠ .freed p true) →
        ∃ us n vs, ys = us ++ n :: vs ∧ n.report = .returned p true ∧
          (∀ m ∈ us, m.report ≠ .returned p true) ∧ n.time + a.cooldown ≤ n₂.time)) ∧
    (a.cooldown ≠ 0 → ∀ xs ys zs n₁ n₂ k, d.log = xs ++ n₁ :: (ys ++ n₂ :: zs) →
      n₁.report = .took k p → n₂.report = .returned p true →
      (∀ n ∈ ys, n.report ≠ .returned p true) → (∀ n ∈ ys ++ zs, n.report ≠ .freed p true) →
      (∀ n ∈ zs, n.report.takes p = false) →
      d.pool.coolingSince? p = some n₂.time ∨
        d.pool.isOccupied p = false ∧ n₂.time + a.cooldown ≤ d.now) ∧
    ∀ k k', Holds k p d.log → Holds k' p d.log → k = k' := by
  intro d
  have h : Sound a d := (Sound.opened a start).run acts
  refine ⟨h.occupied_of_cooling p, ?_, ?_, fun k k' => h.holder_unique⟩
  · intro xs ys zs n₁ n₂ k₁ k₂ hlog h₁ h₂
    exact ⟨h.released hlog h₁ h₂, h.cooled_between hlog h₁ h₂⟩
  · intro ha xs ys zs n₁ n₂ k hlog h₁ h₂ hfirst hfreed htook
    exact h.stamp ha hlog h₁ h₂ hfirst hfreed htook

/-- A second client gets the port of the first once it has cooled, however often it was given
back meanwhile. -/
example :
    let a : Allocator := ⟨⟨10000, 10001, by decide, by decide⟩, 1, 50⟩
    (Desk.run a (wholeAllocation a 1 (fun _ => 10000) ++
      [.giveBack 10000, .wait 20, .giveBack 10000] ++ wholeAllocation a 2 (fun _ => 10000) ++
      [.wait 30] ++ wholeAllocation a 2 fun _ => 10000) {}).log =
        [⟨0, .took 1 10000⟩, ⟨0, .returned 10000 true⟩, ⟨20, .returned 10000 true⟩,
          ⟨20, .failed 2 (.portsExhausted 0)⟩, ⟨50, .took 2 10000⟩] := by
  decide +kernel

end RtpBroker.Contention
