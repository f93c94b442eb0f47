import RtpBroker.Proofs.Annals
import RtpBroker.Proofs.Punctual

/-!
# The alarms of the exchange

As long as everybody has an alarm set, the clock can go on to the next time for
which one is set, and after these alarms have gone off everybody has one again. So
nobody is late, however far the clock goes on.
-/

namespace RtpBroker.Exchange

open Session (Cue Move Moves)

variable {c : PlaySetup} {asked : Request → Prop} {cues : List Cue} {x x' : Exchange} {i : Nat}
  {rem : List Alarm}

theorem agenda_performs (es : List Effect) (x : Exchange) :
    (es.foldl (perform i) x).agenda = x.agenda ++ es.filterMap (Effect.alarm? i) := by
  induction es generalizing x with
  | nil => simp
  | cons e es ih =>
    have hagenda : (x.perform i e).agenda = x.agenda ++ [e].filterMap (Effect.alarm? i) := by
      cases e <;> simp [perform, carryOut, Effect.alarm?]
    rw [List.foldl_cons, ih, hagenda, List.append_assoc, ← List.filterMap_append]
    rfl

theorem Step.cases_on (h : Step c cues x x') : Step c [] x x' ∨
    ∃ i s s' es, ∃ cue ∈ cues, x.sessions[i]? = some s ∧ Move c x.now cue s es s' ∧
      x' = es.foldl (perform i) { x with sessions := x.sessions.set i s' } := by
  cases h with
  | @move i cue s s' es hcue hi hmove => exact Or.inr ⟨i, s, s', es, cue, hcue, hi, hmove, rfl⟩
  | create port metrics => exact Or.inl (.create x port metrics)
  | stand hi footing => exact Or.inl (.stand hi footing)
  | prune h => exact Or.inl (.prune h)
  | tick calendar metrics => exact Or.inl (.tick x calendar metrics)

theorem Steps.reached (h : Steps c cues x x') (hx : Reached c asked x)
    (hcues : ∀ id, .enter id ∉ cues) : Reached c asked x' := by
  induction h with
  | refl => exact hx
  | tail _ hstep ih =>
    rcases hstep.cases_on with hidle | ⟨i, s, s', es, cue, hcue, hi, hmove, rfl⟩
    · exact ih.idle hidle
    · exact ih.moved hi hmove fun id heq => hcues id (heq ▸ hcue)

theorem Steps.now (h : Steps c cues x x') : x'.now = x.now := by
  induction h with
  | refl => rfl
  | tail _ hstep ih =>
    rcases hstep.cases_on with hidle | ⟨i, s, s', es, cue, hcue, hi, hmove, rfl⟩
    · rw [hidle.idle.now, ih]
    · rw [now_performs]
      exact ih

/-- Everybody has an alarm, on the agenda or among those that ring now. -/
def Punctual (rem : List Alarm) (x : Exchange) : Prop :=
  ∀ (i : Nat) s, x.sessions[i]? = some s →
    s.Timely i x.agenda x.now fun id => ∃ a ∈ rem, a.sleeper = .playback i id

theorem Steps.punctual (h : Steps c cues x x') (hx : Punctual rem x)
    (hcues : ∀ id, .enter id ∉ cues) : Punctual rem x' := by
  induction h with
  | refl => exact hx
  | @tail y _ _ hstep ih =>
    rcases hstep.cases_on with hidle | ⟨i, s, s', es, cue, hcue, hi, hmove, rfl⟩
    · intro j t ht
      rw [hidle.idle.agenda, hidle.idle.now]
      rcases hidle.idle.sessions j t ht with ⟨s₀, footing, hs₀, rfl⟩ | ⟨-, port, rfl⟩
      · exact ⟨(ih j s₀ hs₀).waits, (ih j s₀ hs₀).lingers⟩
      · exact .opened port _
    · intro j t ht
      rw [agenda_performs, now_performs]
      rcases session_of_move ht with ⟨rfl, rfl⟩ | ⟨-, ht⟩
      · exact hmove.timely (ih j s hi) fun id heq => absurd (heq ▸ hcue) (hcues id)
      · exact (ih j t ht).mono (List.subset_append_left _ _) fun _ hr => hr

theorem Punctual.stepSession {rem' : List Alarm} {f : Session → Session × List Effect}
    (h : Punctual rem x)
    (hf : ∀ s, x.sessions[i]? = some s → (f s).1.Timely i
      (x.agenda ++ (f s).2.filterMap (Effect.alarm? i)) x.now
      fun id => ∃ a ∈ rem', a.sleeper = .playback i id)
    (hrem : ∀ a ∈ rem, a ∈ rem' ∨ ∀ j id, a.sleeper = .playback j id → j = i) :
    Punctual rem' (x.stepSession i f) := by
  have hothers : ∀ (j : Nat) s, j ≠ i → x.sessions[j]? = some s →
      s.Timely j x.agenda x.now fun id => ∃ a ∈ rem', a.sleeper = .playback j id := by
    refine fun j s hji hj => (h j s hj).mono (fun _ hmem => hmem) fun id => ?_
    rintro ⟨a, ha, hsleeper⟩
    exact ⟨a, (hrem a ha).resolve_right fun hi => hji (hi j id hsleeper), hsleeper⟩
  intro j t ht
  cases hi : x.sessions[i]? with
  | none =>
    rw [stepSession_none hi] at ht ⊢
    refine hothers j t (fun hji => ?_) ht
    rw [hji, hi] at ht
    cases ht
  | some s =>
    rw [stepSession_some hi] at ht ⊢
    rw [agenda_performs, now_performs]
    rcases session_of_move ht with ⟨rfl, rfl⟩ | ⟨hji, ht⟩
    · exact hf s hi
    · exact (hothers j t hji ht).mono (List.subset_append_left _ _) fun _ hr => hr

/-- Who is accepted has an alarm once it has looked. -/
theorem Punctual.accept {s : Session} {r : Request} (h : Punctual [] x) (hx : Reached c asked x)
    (hi : x.sessions[i]? = some s) (hnew : x.story r.id = []) :
    Punctual [] (x.stepSession i (·.accept c x.now r)) := by
  refine h.stepSession (fun t ht => ?_) (by simp)
  obtain rfl : s = t := Option.some.inj (hi.symm.trans ht)
  obtain ⟨j, p, hl⟩ := hx.lives r.id
  exact Session.accept_timely (hx.sound hi) (hl.not_mem_playbacks hnew hi) (h i s hi)

/-- An alarm that has rung is needed no more. -/
theorem Punctual.ring {a : Alarm} (h : Punctual (a :: rem) x) (hx : Reached c asked x) :
    Punctual rem (x.ring c a) := by
  unfold Exchange.ring
  split
  · next i id ha =>
    refine h.stepSession (fun s hi => ?_) fun a' ha' => ?_
    · refine Session.wake_timely (hx.sound hi) ((h i s hi).mono (fun _ hmem => hmem) fun k => ?_)
      rintro ⟨a', ha', hsleeper⟩
      rcases List.mem_cons.mp ha' with rfl | ha'
      · rw [ha] at hsleeper
        cases hsleeper
        exact Or.inr rfl
      · exact Or.inl ⟨a', ha', hsleeper⟩
    · rcases List.mem_cons.mp ha' with rfl | ha'
      · refine Or.inr fun j k hsleeper => ?_
        rw [ha] at hsleeper
        cases hsleeper
        rfl
      · exact Or.inl ha'
  · next k ha =>
    intro j s hj
    refine (h j s hj).mono (fun _ hmem => hmem) fun k' => ?_
    rintro ⟨a', ha', hsleeper⟩
    rcases List.mem_cons.mp ha' with rfl | ha'
    · rw [ha] at hsleeper
      cases hsleeper
    · exact ⟨a', ha', hsleeper⟩

theorem Reached.rings (alarms : List Alarm) (hx : Reached c asked x) (h : Punctual alarms x) :
    Reached c asked (alarms.foldl (ring c) x) ∧ Punctual [] (alarms.foldl (ring c) x) := by
  induction alarms generalizing x with
  | nil => exact ⟨hx, h⟩
  | cons a alarms ih => exact ih ((ring_steps c x a).reached hx (by simp)) (h.ring hx)

theorem Punctual.clock {t : Nat} (h : Punctual [] x) (ht : x.agenda.nextAfter? x.now = some t) :
    Punctual (x.agenda.dueAt t) { x with now := t, agenda := x.agenda.after t } := by
  have hnext : ∀ a ∈ x.agenda, x.now < a.due → a.due = t ∧ a ∈ x.agenda.dueAt t ∨
      t < a.due ∧ a ∈ x.agenda.after t := by
    intro a ha hdue
    obtain ⟨t', ht', hle⟩ := Agenda.nextAfter?_le ha hdue
    obtain rfl : t = t' := Option.some.inj (ht.symm.trans ht')
    rcases Nat.eq_or_lt_of_le hle with heq | hlt
    · exact Or.inl ⟨heq.symm, List.mem_filter.mpr ⟨ha, by simp [heq]⟩⟩
    · exact Or.inr ⟨hlt, List.mem_filter.mpr ⟨ha, by simpa using hlt⟩⟩
  intro i s hi
  refine ⟨fun w hw => ?_, fun st o limit hst hp => ?_⟩
  · rcases (h i s hi).waits w hw with ⟨-, _, ha, -⟩ | ⟨-, due, hdue, hle, hmem⟩
    · cases ha
    · rcases hnext _ hmem hdue with ⟨heq, hring⟩ | ⟨hlt, hset⟩
      · exact Or.inl ⟨show t ≤ w.deadline from heq ▸ hle, _, hring, rfl⟩
      · exact Or.inr ⟨Nat.lt_of_lt_of_le hlt hle, due, hlt, hle, hset⟩
  · rcases (h i s hi).lingers st o limit hst hp with ⟨-, _, ha, -⟩ | ⟨hlt, hmem⟩
    · cases ha
    · rcases hnext _ hmem hlt with ⟨heq, hring⟩ | ⟨hlt, hset⟩
      · exact Or.inl ⟨heq.symm, _, hring, rfl⟩
      · exact Or.inr ⟨hlt, hset⟩

/-- The clock can go on to just before the next alarm. -/
theorem Punctual.later {target : Nat} (h : Punctual [] x)
    (hnext : ∀ t, x.agenda.nextAfter? x.now = some t → target < t) :
    Punctual [] { x with now := target } := by
  have hdue : ∀ a ∈ x.agenda, x.now < a.due → target < a.due := by
    intro a ha hdue
    obtain ⟨t, ht, hle⟩ := Agenda.nextAfter?_le ha hdue
    exact Nat.lt_of_lt_of_le (hnext t ht) hle
  intro i s hi
  refine ⟨fun w hw => ?_, fun st o limit hst hp => ?_⟩
  · rcases (h i s hi).waits w hw with ⟨-, _, ha, -⟩ | ⟨-, due, hlt, hle, hmem⟩
    · cases ha
    · have hlt' := hdue _ hmem hlt
      exact Or.inr ⟨Nat.lt_of_lt_of_le hlt' hle, due, hlt', hle, hmem⟩
  · rcases (h i s hi).lingers st o limit hst hp with ⟨-, _, ha, -⟩ | ⟨hlt, hmem⟩
    · cases ha
    · exact Or.inr ⟨hdue _ hmem hlt, hmem⟩

theorem Reached.due {t : Nat} (hx : Reached c asked x) (h : Punctual [] x)
    (ht : x.agenda.nextAfter? x.now = some t) :
    Reached c asked { x with now := t, agenda := x.agenda.after t } :=
  hx.clock (Nat.le_of_lt (Agenda.lt_of_nextAfter? ht))
    (fun i s hi => (h.clock ht i s hi).sound (hx.sound hi)) (x.agenda.after t)

theorem Reached.fire {t : Nat} (hx : Reached c asked x) (h : Punctual [] x)
    (ht : x.agenda.nextAfter? x.now = some t) :
    Reached c asked (x.fire c t) ∧ Punctual [] (x.fire c t) :=
  (hx.due h ht).rings _ (h.clock ht)

theorem now_fire (t : Nat) : (x.fire c t).now = t := (rings_steps c _ _).now

theorem Reached.advance (hx : Reached c asked x) (h : Punctual [] x) (ms : Nat) :
    Reached c asked (x.advance c ms) ∧ Punctual [] (x.advance c ms) := by
  have hfire : ∀ now t (y : Exchange), (y.now = now ∧ Reached c asked y ∧ Punctual [] y) →
      y.agenda.nextAfter? now = some t → t ≤ x.now + ms →
      ((y.fire c t).now = t ∧ Reached c asked (y.fire c t) ∧ Punctual [] (y.fire c t)) := by
    rintro _ t y ⟨rfl, hy, hp⟩ ht -
    exact ⟨now_fire t, hy.fire hp ht⟩
  -- No alarm is left between the last one that went off and the end of the time.
  obtain ⟨last, -, hlast, ⟨rfl, hy, hp⟩, hrest⟩ :=
    Agenda.run_induct hfire ⟨rfl, hx, h⟩ (Nat.le_add_right x.now ms)
  have hlater := hp.later hrest
  exact ⟨hy.clock hlast (fun i s hi => (hlater i s hi).sound (hy.sound hi)) _, hlater⟩

end RtpBroker.Exchange
