import Mathlib.Data.List.Induction
import RtpBroker.Proofs.Alarms

/-!
# Runs from the beginning

Between two events the exchange is at rest: it was reached in small steps, nobody
oversleeps, and in a closed session nobody waits and no program runs. Every event
leads from rest to rest, so a run from the beginning in which no playback is
accepted twice is at rest after every event.
-/

namespace RtpBroker

open Session (Cue Move Moves)

namespace Session

/-- Nothing is left to do in a closed session but to settle what has ended. -/
def Quiet (s : Session) : Prop :=
  s.isClosed = true → s.waiting = [] ∧ s.line = [] ∧
    ∀ st, s.slot = some st → st.program ≠ .running

theorem isClosed_of_advanceTo {s : Session} {state : SessionState}
    (h : (s.advanceTo state).isClosed = true) (hstate : state ≠ .closed) : s.isClosed = true := by
  revert h hstate
  simp only [isClosed, advanceTo, beq_iff_eq]
  cases s.state <;> cases state <;> decide

theorem quiet_opened (port : Port) (now : Nat) : (Session.opened port now).Quiet := by
  intro h
  cases h

theorem Move.quiet {c : PlaySetup} {now : Nat} {cue : Cue} {s s' : Session} {es : List Effect}
    (h : Move c now cue s es s') (hs : s.Quiet) (hclose : cue ≠ .close)
    (henter : ∀ id, cue = .enter id → s.isClosed = false) : s'.Quiet := by
  have hopen : s.waiting ≠ [] ∨ s.line ≠ [] → s.isClosed ≠ true := by
    rintro hbusy hclosed
    obtain ⟨hwaiting, hline, -⟩ := hs hclosed
    exact hbusy.elim (absurd hwaiting) (absurd hline)
  cases h with
  | hear sender =>
    intro hclosed
    rw [hear_waiting, hear_line, hear_slot]
    refine hs ?_
    unfold Session.hear at hclosed
    dsimp only at hclosed
    split at hclosed
    · exact hclosed
    · exact isClosed_of_advanceTo hclosed (by decide)
  | mark state hstate => exact fun hclosed => hs (isClosed_of_advanceTo hclosed hstate)
  | enter _ r =>
    intro hclosed
    exact Bool.noConfusion ((henter r.id rfl).symm.trans hclosed)
  | queue hw => exact fun hclosed => absurd hclosed (hopen (Or.inl (List.ne_nil_of_mem hw)))
  | lapse hw => exact fun hclosed => absurd hclosed (hopen (Or.inl (List.ne_nil_of_mem hw)))
  | again => exact hs
  | noFile _ hline =>
    exact fun hclosed => absurd (isClosed_of_advanceTo hclosed (by decide))
      (hopen (Or.inr (by simp [hline])))
  | notStarted _ hline =>
    exact fun hclosed => absurd (isClosed_of_advanceTo hclosed (by decide))
      (hopen (Or.inr (by simp [hline])))
  | start _ hline =>
    exact fun hclosed => absurd (isClosed_of_advanceTo hclosed (by decide))
      (hopen (Or.inr (by simp [hline])))
  | exit => exact fun hclosed => ⟨(hs hclosed).1, (hs hclosed).2.1, by simp⟩
  | exitHeld _ hslot hp => exact fun hclosed => absurd hp ((hs hclosed).2.2 _ hslot)
  | settle => exact fun hclosed => ⟨(hs hclosed).1, (hs hclosed).2.1, by simp⟩
  | shut => exact absurd rfl hclose
  | dropWaiting => exact absurd rfl hclose
  | dropLine => exact absurd rfl hclose
  | kill => exact absurd rfl hclose
  | killHeld => exact absurd rfl hclose

theorem close_quiet (now : Nat) (s : Session) : (s.close now).1.Quiet := by
  intro
  unfold close
  dsimp only
  split
  · next hslot => exact ⟨rfl, rfl, fun st hst => absurd (hslot.symm.trans hst) (by simp)⟩
  · next st hslot =>
    split
    · next o limit hp =>
      refine ⟨rfl, rfl, fun st' hst' => ?_⟩
      obtain rfl : st = st' := Option.some.inj (hslot.symm.trans hst')
      simp [hp]
    · split
      · refine ⟨rfl, rfl, ?_⟩
        rintro _ ⟨⟩
        simp
      · exact ⟨rfl, rfl, by simp⟩

end Session

namespace Exchange

variable {c : PlaySetup} {asked : Request → Prop} {cues : List Cue} {x x' : Exchange} {i : Nat}

def Quiet (x : Exchange) : Prop := ∀ (i : Nat) s, x.sessions[i]? = some s → s.Quiet

theorem Course.quiet (h : Course c cues x x') (hx : x.Quiet) (hclose : .close ∉ cues)
    (hcues : ∀ id, .enter id ∉ cues) : x'.Quiet := by
  refine h.everywhere Session.quiet_opened (fun _ _ hs => hs)
    (fun cue hcue _ s _ _ hmove hs => ?_) hx
  exact hmove.quiet hs (fun heq => hclose (heq ▸ hcue)) fun id heq => absurd (heq ▸ hcue) (hcues id)

theorem sessions_of_stepSession {f : Session → Session × List Effect} {P : Session → Prop}
    (hx : ∀ (j : Nat) s, x.sessions[j]? = some s → P s)
    (hf : ∀ s, x.sessions[i]? = some s → P (f s).1) :
    ∀ (j : Nat) s, (x.stepSession i f).sessions[j]? = some s → P s := by
  intro j t ht
  cases hi : x.sessions[i]? with
  | none =>
    rw [stepSession_none hi] at ht
    exact hx j t ht
  | some s =>
    rw [stepSession_some hi] at ht
    rcases session_of_move ht with ⟨-, rfl⟩ | ⟨-, ht⟩
    · exact hf s hi
    · exact hx j t ht

/-! ## Events -/

/-- What is true between two events. -/
structure Rests (c : PlaySetup) (asked : Request → Prop) (x : Exchange) : Prop where
  reached : Reached c asked x
  punctual : Punctual [] x
  quiet : x.Quiet

theorem Rests.steps (h : Rests c asked x) (hs : Steps c cues x x') (hclose : .close ∉ cues)
    (hcues : ∀ id, .enter id ∉ cues) : Rests c asked x' :=
  ⟨hs.reached h.reached hcues, hs.punctual h.punctual hcues, hs.course.quiet h.quiet hclose hcues⟩

theorem Rests.close (h : Rests c asked x) (i : Nat) : Rests c asked (x.close i) :=
  ⟨(close_steps c x i).reached h.reached (by simp),
    (close_steps c x i).punctual h.punctual (by simp),
    sessions_of_stepSession h.quiet fun s _ => Session.close_quiet x.now s⟩

theorem Rests.remove (h : Rests c asked x) (port : Port) (standing : Standing) :
    Rests c asked (x.remove port standing).2 := by
  have hsteps := remove_steps c x port standing
  refine ⟨hsteps.reached h.reached (by simp), hsteps.punctual h.punctual (by simp), ?_⟩
  unfold Exchange.remove
  split
  · exact h.quiet
  · refine sessions_of_stepSession (P := Session.Quiet) ?_ fun s _ => Session.close_quiet _ s
    exact sessions_of_stepSession h.quiet fun s hs => h.quiet _ s hs

theorem Rests.play (h : Rests c asked x) (port : Port) (payload : ByteArray)
    (format : Option String) {id : Uuid} (hnew : x.story id = [])
    (hasked : ∀ f, AudioFormat.check format = .ok f → asked ⟨id, payload, f⟩) :
    Rests c asked (x.play c port payload format id).2 := by
  rcases play_cases c x port payload format id with heq | ⟨i, s, f, hi, hopen, hformat, heq⟩
  · rw [heq]
    exact h
  · let r : Request := ⟨id, payload, f⟩
    have hpunctual : Punctual [] (x.stepSession i (·.accept c x.now r)) :=
      h.punctual.accept h.reached hi hnew
    have hmove : Move c x.now (.enter r.id) s _ _ := .enter s r
    let y := x.stepSession i (·.enter c x.now r)
    have hy : y = _ := stepSession_some hi
    have hreached : Reached c asked y := by
      rw [hy]
      refine h.reached.move hi hmove (fun k heq => by cases heq; exact hnew) fun r' hr' => ?_
      rcases Session.requests_enter hr' with hr' | rfl
      · exact h.reached.requested i s hi r' hr'
      · exact hasked f hformat
    have hquiet : y.Quiet := sessions_of_stepSession h.quiet fun t ht => by
      obtain rfl : s = t := Option.some.inj (hi.symm.trans ht)
      exact hmove.quiet (h.quiet i s hi) (by simp) fun _ _ => hopen
    have hlooked : Steps c [.look] y (x.stepSession i (·.accept c x.now r)) := by
      have hi' : y.sessions[i]? = some (s.enter c x.now r).1 := session_stepSession hi
      rw [stepSession_accept, stepSession_some hi']
      exact steps_of_moves (Session.look_moves c x.now
        (List.mem_append_right _ (List.mem_singleton_self _))) (now_stepSession ..) hi'
    rw [heq]
    exact ⟨hlooked.reached hreached (by simp), hpunctual,
      hlooked.course.quiet hquiet (by simp) (by simp)⟩

def Event.playback? : Event → Option Uuid
  | .play _ _ _ id => some id
  | _ => none

theorem Event.enter_not_mem {e : Event} {id : Uuid} (he : e.playback? ≠ some id) :
    .enter id ∉ e.cues := by
  cases e <;> simp_all [Event.cues, Event.playback?, eq_comm]

/-- The requests that events make. -/
def Asked (events : List Event) (r : Request) : Prop :=
  ∃ port format, .play port r.payload format r.id ∈ events ∧
    AudioFormat.check format = .ok r.format

/-- Every event leads from rest to rest. -/
theorem Rests.apply (h : Rests c asked x) (e : Event)
    (hnew : ∀ id, e.playback? = some id → x.story id = []) (hasked : ∀ r, Asked [e] r → asked r) :
    Rests c asked (x.apply c e) := by
  have hsteps := apply_steps c x e
  cases e with
  | create port => exact h.steps (hsteps (by simp)) (by simp [Event.cues]) (by simp [Event.cues])
  | mark => exact h.steps (hsteps (by simp)) (by simp [Event.cues]) (by simp [Event.cues])
  | receive => exact h.steps (hsteps (by simp)) (by simp [Event.cues]) (by simp [Event.cues])
  | play port payload format id =>
    exact h.play port payload format (hnew id rfl) fun f hf =>
      hasked _ ⟨port, format, List.mem_singleton_self _, hf⟩
  | endProgram => exact h.steps (hsteps (by simp)) (by simp [Event.cues]) (by simp [Event.cues])
  | closeOutput => exact h.steps (hsteps (by simp)) (by simp [Event.cues]) (by simp [Event.cues])
  | close session => exact h.close session
  | remove port standing => exact h.remove port standing
  | prune => exact h.steps (hsteps (by simp)) (by simp [Event.cues]) (by simp [Event.cues])
  | advance ms =>
    obtain ⟨hreached, hpunctual⟩ := h.reached.advance h.punctual ms
    exact ⟨hreached, hpunctual, (advance_course c x ms).quiet h.quiet (by simp) (by simp)⟩

/-! ## Runs -/

/-- No playback is asked for twice. -/
def Fresh (events : List Event) : Prop := (events.filterMap Event.playback?).Nodup

theorem run_snoc (events : List Event) (e : Event) (x : Exchange) :
    run c (events ++ [e]) x = (run c events x).apply c e := by
  simp [run]

theorem Rests.story_eq_nil {e : Event} {id : Uuid} (h : Rests c asked (x.apply c e))
    (hnil : x.story id = []) (he : e.playback? ≠ some id) : (x.apply c e).story id = [] := by
  by_contra hne
  obtain ⟨i, p, hl⟩ := h.reached.lives id
  obtain ⟨t, port, hentry⟩ := hl.life.entered hne
  rcases (apply_course c x e).new_entry (mem_journal_of_story hentry) with
    hold | ⟨cue, hcue, z, s, es, s', -, -, hmove, hmem⟩
  · have hstory := mem_story id hold rfl
    rw [hnil] at hstory
    cases hstory
  · exact Event.enter_not_mem he (hmove.entered hmem ▸ hcue)

theorem rests_start (calendar : Timestamp) : Rests c asked { calendar } :=
  ⟨.start calendar, by simp [Punctual], by simp [Quiet]⟩

/-- A run is at rest after each of its events. -/
theorem run_rests (calendar : Timestamp) {events before after : List Event}
    (hfresh : Fresh events) (heq : events = before ++ after) :
    Rests c (Asked events) (run c before { calendar }) ∧
      ∀ id ∉ before.filterMap Event.playback?, (run c before { calendar }).story id = [] := by
  -- The last event finds the exchange at rest, and what it asks for is still unheard of.
  induction before using List.reverseRecOn generalizing after with
  | nil => exact ⟨rests_start calendar, fun _ _ => rfl⟩
  | append_singleton before e ih =>
    rw [List.append_assoc] at heq
    obtain ⟨hrests, hnil⟩ := ih heq
    have hnew : ∀ id, e.playback? = some id → id ∉ before.filterMap Event.playback? := by
      intro id hid hmem
      unfold Fresh at hfresh
      rw [heq, List.filterMap_append, List.nodup_append] at hfresh
      exact hfresh.2.2 id hmem id (List.mem_filterMap.mpr ⟨e, by simp, hid⟩) rfl
    have hasked : ∀ r, Asked [e] r → Asked events r := by
      rintro r ⟨port, format, hmem, hformat⟩
      refine ⟨port, format, ?_, hformat⟩
      rw [heq]
      exact List.mem_append_right _ (List.mem_append_left _ hmem)
    have hrests' := hrests.apply e (fun id hid => hnil id (hnew id hid)) hasked
    rw [run_snoc]
    refine ⟨hrests', fun id hid => ?_⟩
    rw [List.filterMap_append, List.mem_append, not_or] at hid
    refine hrests'.story_eq_nil (hnil id hid.1) fun he => ?_
    exact hid.2 (List.mem_filterMap.mpr ⟨e, by simp, he⟩)

end Exchange

end RtpBroker
