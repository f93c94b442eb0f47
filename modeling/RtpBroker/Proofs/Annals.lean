import RtpBroker.Proofs.Chronicle

/-!
# What the journal records

Of every exchange that is reached: each entry is warranted by its session as it is
now, the entries are of the past, whoever waits does so since it was accepted, a
playback whose time was up is told so at that very time, and a session knows the
address that the first datagram came from.
-/

namespace RtpBroker

namespace Session

variable {c : PlaySetup} {now : Nat} {cue : Cue} {s s' : Session} {es : List Effect}

theorem Move.waiting (h : Move c now cue s es s') :
    ∀ w ∈ s'.waiting, w ∈ s.waiting ∨
      w.deadline = now + c.ceiling ∧ .enter w.request.id s.port ∈ es := by
  intro w hw
  cases h with
  | hear sender => exact Or.inl (hear_waiting now _ s ▸ hw)
  | enter _ r =>
    rcases List.mem_append.mp hw with hw | hw
    · exact Or.inl hw
    · obtain rfl := List.mem_singleton.mp hw
      exact Or.inr ⟨rfl, List.mem_singleton_self _⟩
  | queue => exact Or.inl (List.mem_filter.mp hw).1
  | lapse => exact Or.inl (List.mem_filter.mp hw).1
  | dropWaiting _ hwaiting => exact Or.inl (hwaiting ▸ List.mem_cons_of_mem _ hw)
  | _ => exact Or.inl hw

/-- Only a look in vain at the end of the time makes a playback time out. -/
theorem Move.timedOut (h : Move c now cue s es s') {id : Uuid} {code : Option Int}
    {fault : Option Fault} (hmem : .finish id .timedOut code fault ∈ es) :
    s.remote = none ∧ ∃ w ∈ s.waiting, w.request.id = id ∧ w.deadline ≤ now := by
  have hne := endPhase_ne_timedOut
  cases h with
  | lapse hw hremote hdue =>
    simp only [List.mem_singleton, Effect.finish.injEq] at hmem
    exact ⟨hremote, _, hw, hmem.1.symm, hdue⟩
  | _ => simp [settling, finishEffect, drop, Ne.symm (hne _)] at hmem

theorem isRetryable_of_outcome {o : Outcome} {f : Fault} (h : o.fault = some f) :
    f.isRetryable = false := by
  unfold Outcome.fault at h
  split at h
  · cases h; rfl
  · split at h <;> cases h; rfl
  all_goals cases h <;> rfl

/-- Playbacks that time out have a fault that a later attempt may not meet, and no others do. -/
theorem Move.isRetryable (h : Move c now cue s es s') {id : Uuid} {p : Phase} {code : Option Int}
    {f : Fault} (hmem : .finish id p code (some f) ∈ es) :
    f.isRetryable = true ↔ p = .timedOut := by
  have hplayed (o : Outcome) (hp : p = endPhase o) (hf : o.fault = some f) :
      f.isRetryable = true ↔ p = .timedOut := by
    rw [isRetryable_of_outcome hf, hp]
    simp [endPhase_ne_timedOut]
  cases h with
  | lapse hw hremote hdue =>
    simp only [List.mem_singleton, Effect.finish.injEq, Option.some.injEq] at hmem
    simp [hmem, Fault.isRetryable]
  | hear sender =>
    unfold Session.hear at hmem
    dsimp only at hmem
    split at hmem <;> simp at hmem
  | _ =>
    simp [settling, finishEffect, drop] at hmem <;>
      exact hplayed _ hmem.2.1 hmem.2.2.2.symm

end Session

namespace Exchange

open Session (Cue Move)

variable {c : PlaySetup} {asked : Request → Prop} {x : Exchange} {i : Nat} {s s' : Session}
  {es : List Effect}

theorem mem_journal_performs {sessions : List Session} {n : Entry}
    (h : n ∈ (es.foldl (perform i) { x with sessions }).journal) :
    n ∈ x.journal ∨ ∃ e ∈ es, n = ⟨x.now, i, e⟩ := by
  rw [journal_performs, List.mem_append] at h
  refine h.imp_right fun h => ?_
  obtain ⟨e, he, rfl⟩ := List.mem_map.mp h
  exact ⟨e, he, rfl⟩

theorem mem_journal_performs_of_mem {sessions : List Session} {e : Effect} (he : e ∈ es) :
    ⟨x.now, i, e⟩ ∈ (es.foldl (perform i) { x with sessions }).journal := by
  rw [journal_performs]
  exact List.mem_append_right _ (List.mem_map_of_mem he)

theorem mem_journal_performs_of_journal {sessions : List Session} {n : Entry} (h : n ∈ x.journal) :
    n ∈ (es.foldl (perform i) { x with sessions }).journal := by
  rw [journal_performs]
  exact List.mem_append_left _ h

theorem Reached.requested (h : Reached c asked x) :
    ∀ (i : Nat) s, x.sessions[i]? = some s → ∀ r ∈ s.requests, asked r := by
  induction h with
  | start => simp
  | move _ hi _ _ hasked ih =>
    intro j t ht
    rcases session_of_move ht with ⟨-, rfl⟩ | ⟨-, ht⟩
    · exact hasked
    · exact ih j t ht
  | idle _ hstep ih =>
    intro j t ht
    rcases hstep.idle.sessions j t ht with ⟨s₀, footing, hs₀, rfl⟩ | ⟨-, port, rfl⟩
    · exact ih j s₀ hs₀
    · simp [Session.requests, Session.opened]
  | clock _ _ _ _ ih => exact ih

theorem Reached.moved {cue : Cue} (h : Reached c asked x) (hi : x.sessions[i]? = some s)
    (hmove : Move c x.now cue s es s') (hcue : ∀ id, cue ≠ .enter id) :
    Reached c asked (es.foldl (perform i) { x with sessions := x.sessions.set i s' }) :=
  h.move hi hmove (fun id heq => absurd heq (hcue id)) fun r hr =>
    h.requested i s hi r (hmove.requests hcue r hr)

theorem Reached.warranted (h : Reached c asked x) :
    ∀ n ∈ x.journal, ∃ s, x.sessions[n.session]? = some s ∧ n.effect.Warranted c asked s := by
  induction h with
  | start => simp
  | @move x i cue s s' es hx hi hmove hnew hasked' ih =>
    have hi' : (es.foldl (perform i) { x with sessions := x.sessions.set i s' }).sessions[i]? =
        some s' := session_moved hi
    intro n hn
    rcases mem_journal_performs hn with hn | ⟨e, he, rfl⟩
    · obtain ⟨s₁, hs₁, hwarranted⟩ := ih n hn
      by_cases hni : n.session = i
      · obtain rfl : s = s₁ := Option.some.inj (hi.symm.trans (hni ▸ hs₁))
        exact ⟨s', hni ▸ hi', hwarranted.lasts hmove.lasts⟩
      · exact ⟨s₁, (session_unmoved hni).trans hs₁, hwarranted⟩
    · exact ⟨s', hi', hmove.warranted (hx.requested i s hi) e he⟩
  | idle _ hstep ih =>
    have hidle := hstep.idle
    rw [hidle.journal]
    intro n hn
    obtain ⟨s, hs, hwarranted⟩ := ih n hn
    obtain ⟨footing, hs'⟩ := hidle.kept n.session s hs
    exact ⟨_, hs', hwarranted.lasts ⟨rfl, fun _ h => h, fun h => h⟩⟩
  | clock _ _ _ _ ih => exact ih

theorem Reached.past (h : Reached c asked x) : ∀ n ∈ x.journal, n.time ≤ x.now := by
  induction h with
  | start => simp
  | move _ _ _ _ _ ih =>
    intro n hn
    rw [now_performs]
    rcases mem_journal_performs hn with hn | ⟨e, he, rfl⟩
    · exact ih n hn
    · exact Nat.le_refl _
  | idle _ hstep ih =>
    rw [hstep.idle.journal, hstep.idle.now]
    exact ih
  | clock _ hnow _ _ ih => exact fun n hn => Nat.le_trans (ih n hn) hnow

theorem Reached.dated (h : Reached c asked x) :
    ∀ (i : Nat) s, x.sessions[i]? = some s → ∀ w ∈ s.waiting, ∃ t port,
      ⟨t, i, .enter w.request.id port⟩ ∈ x.journal ∧ w.deadline = t + c.ceiling := by
  induction h with
  | start => simp
  | @move x i cue s s' es _ hi hmove _ _ ih =>
    intro j t ht w hw
    rcases session_of_move ht with ⟨rfl, rfl⟩ | ⟨-, ht⟩
    · rcases hmove.waiting w hw with hw | ⟨hdeadline, hmem⟩
      · obtain ⟨t₁, port, hentry, hdeadline⟩ := ih j s hi w hw
        exact ⟨t₁, port, mem_journal_performs_of_journal hentry, hdeadline⟩
      · exact ⟨x.now, s.port, mem_journal_performs_of_mem hmem, hdeadline⟩
    · obtain ⟨t₁, port, hentry, hdeadline⟩ := ih j t ht w hw
      exact ⟨t₁, port, mem_journal_performs_of_journal hentry, hdeadline⟩
  | idle _ hstep ih =>
    have hidle := hstep.idle
    rw [hidle.journal]
    intro j t ht w hw
    rcases hidle.sessions j t ht with ⟨s₀, footing, hs₀, rfl⟩ | ⟨-, port, rfl⟩
    · exact ih j s₀ hs₀ w hw
    · simp [Session.opened] at hw
  | clock _ _ _ _ ih => exact ih

/-- A playback times out when its time is up, neither before nor after that. -/
theorem Reached.timedOut (h : Reached c asked x) :
    ∀ t i id code fault, ⟨t, i, .finish id .timedOut code fault⟩ ∈ x.journal →
      ∃ t₁ port, ⟨t₁, i, .enter id port⟩ ∈ x.journal ∧ t = t₁ + c.ceiling := by
  induction h with
  | start => simp
  | @move x i cue s s' es hx hi hmove _ _ ih =>
    intro t j id code fault hn
    rcases mem_journal_performs hn with hn | ⟨e, he, heq⟩
    · obtain ⟨t₁, port, hentry, ht⟩ := ih t j id code fault hn
      exact ⟨t₁, port, mem_journal_performs_of_journal hentry, ht⟩
    · cases heq
      obtain ⟨-, w, hw, rfl, hdue⟩ := hmove.timedOut he
      obtain ⟨t₁, port, hentry, hdeadline⟩ := hx.dated i s hi w hw
      have hinTime := (hx.sound hi).inTime w hw
      exact ⟨t₁, port, mem_journal_performs_of_journal hentry, by omega⟩
  | idle _ hstep ih =>
    rw [hstep.idle.journal]
    exact ih
  | clock _ _ _ _ ih => exact ih

/-- The address of the peer is where the first datagram came from. -/
theorem Reached.learned (h : Reached c asked x) :
    ∀ (i : Nat) s, x.sessions[i]? = some s → s.remote = x.firstSender? i := by
  induction h with
  | start => simp
  | @move x i cue s s' es _ hi hmove _ _ ih =>
    intro j t ht
    rw [firstSender?_performs]
    rcases session_of_move ht with ⟨rfl, rfl⟩ | ⟨hji, ht⟩
    · rw [if_pos rfl, hmove.remote, ih j s hi]
      rfl
    · rw [if_neg (Ne.symm hji), ih j t ht, Option.or_none]
      rfl
  | @idle x _ hx hstep ih =>
    have hidle := hstep.idle
    intro j t ht
    rw [firstSender?, hidle.journal]
    rcases hidle.sessions j t ht with ⟨s₀, footing, hs₀, rfl⟩ | ⟨hnone, port, rfl⟩
    · exact ih j s₀ hs₀
    · refine (List.findSome?_eq_none_iff.mpr fun n hn => if_neg fun hnj => ?_).symm
      obtain ⟨s, hs, -⟩ := hx.warranted n hn
      rw [hnj, hnone] at hs
      cases hs
  | clock _ _ _ _ ih => exact ih

end Exchange

end RtpBroker
