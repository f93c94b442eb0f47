import RtpBroker.Proofs.Conditions
import RtpBroker.Proofs.Journal
import RtpBroker.Proofs.Records

/-!
# The chronicle of the exchange

An exchange is reached in small steps, between which the clock goes on as long as
nobody in a session is late. In an exchange so reached every playback lives its
life in one session: its story, what its session knows of it, and what the
tracker shows of it agree.
-/

namespace RtpBroker

theorem Condition.eq_of_shown {p p' : Condition} (h : p.shown = p'.shown) (hp : p.shown ≠ none) :
    p = p' := by
  cases p <;> cases p' <;> simp_all [shown]

theorem Turn.of_shown_none {c : PlaySetup} {now : Nat} {id : Uuid} {cue : Session.Cue}
    {p p' : Condition} {es : List Effect} (h : Turn c now id cue p es p') (hp : p.shown = none) :
    p = .unknown ∧ cue = .enter id := by
  cases h <;> simp_all [Condition.shown]

theorem Session.not_mem_playbacks {s : Session} {id : Uuid} (h : s.condition? id = none) :
    id ∉ s.playbacks := by
  intro hmem
  unfold condition? at h
  split at h
  · cases h
  · next hqueued =>
    rcases List.mem_append.mp hmem with hmem | hmem
    · exact hqueued hmem
    · obtain ⟨st, hslot, hst⟩ := Option.map_eq_some_iff.mp (Option.mem_toList.mp hmem)
      simp [hslot, hst] at h

namespace Exchange

open Session (Cue Move)

variable {c : PlaySetup} {asked : Request → Prop} {x x' : Exchange} {i j : Nat} {id : Uuid}
  {s s' : Session} {es : List Effect} {p : Condition}

/-! ## Steps -/

/-- What a step changes in which no session makes a move. -/
structure Idle (x x' : Exchange) : Prop where
  now : x'.now = x.now
  agenda : x'.agenda = x.agenda
  journal : x'.journal = x.journal
  records : ∀ r ∈ x'.tracker.records, r ∈ x.tracker.records
  kept : ∀ (j : Nat) (s : Session), x.sessions[j]? = some s →
    ∃ footing, x'.sessions[j]? = some (s.stand footing)
  sessions : ∀ (j : Nat) (s : Session), x'.sessions[j]? = some s →
    (∃ (s₀ : Session) (footing : Footing), x.sessions[j]? = some s₀ ∧ s = s₀.stand footing) ∨
      x.sessions[j]? = none ∧ ∃ port, s = Session.opened port x.now

theorem Step.idle (h : Step c [] x x') : Idle x x' := by
  have hsame : ∀ (j : Nat) (s : Session), x.sessions[j]? = some s →
      ∃ footing, x.sessions[j]? = some (s.stand footing) := fun j s hj => ⟨s.footing, hj⟩
  have hback : ∀ (j : Nat) (s : Session), x.sessions[j]? = some s →
      (∃ (s₀ : Session) (footing : Footing), x.sessions[j]? = some s₀ ∧ s = s₀.stand footing) ∨
        x.sessions[j]? = none ∧ ∃ port, s = Session.opened port x.now :=
    fun j s hj => Or.inl ⟨s, s.footing, hj, rfl⟩
  cases h with
  | move hcue => exact absurd hcue List.not_mem_nil
  | create port metrics =>
    refine ⟨rfl, rfl, rfl, fun r hr => hr, fun j s hj => ⟨s.footing, ?_⟩, fun j s hj => ?_⟩
    · exact (List.getElem?_append_left (List.getElem?_eq_some_iff.mp hj).1).trans hj
    · by_cases hlt : j < x.sessions.length
      · exact hback j s ((List.getElem?_append_left hlt).symm.trans hj)
      · dsimp only at hj
        rw [List.getElem?_append_right (Nat.le_of_not_lt hlt)] at hj
        obtain ⟨_, hs⟩ := List.getElem?_eq_some_iff.mp hj
        refine Or.inr ⟨List.getElem?_eq_none (Nat.le_of_not_lt hlt), port, ?_⟩
        simpa using hs.symm
  | @stand i s₁ hi footing =>
    refine ⟨rfl, rfl, rfl, fun r hr => hr, fun j s hj => ?_, fun j s hj => ?_⟩
    · by_cases hji : i = j
      · subst hji
        obtain rfl : s₁ = s := Option.some.inj (hi.symm.trans hj)
        exact ⟨footing, List.getElem?_set_self (List.getElem?_eq_some_iff.mp hi).1⟩
      · exact ⟨s.footing, (List.getElem?_set_ne hji).trans hj⟩
    · by_cases hji : i = j
      · subst hji
        dsimp only at hj
        rw [List.getElem?_set_self (List.getElem?_eq_some_iff.mp hi).1] at hj
        exact Or.inl ⟨s₁, footing, hi, (Option.some.inj hj).symm⟩
      · exact hback j s ((List.getElem?_set_ne hji).symm.trans hj)
  | prune h =>
    exact ⟨rfl, rfl, rfl, fun _ hr => (Tracker.sublist_of_pruneFor h).subset hr, hsame, hback⟩
  | tick calendar metrics => exact ⟨rfl, rfl, rfl, fun r hr => hr, hsame, hback⟩

theorem Idle.story (h : Idle x x') (id : Uuid) : x'.story id = x.story id := by
  rw [Exchange.story, h.journal, Exchange.story]

theorem Idle.shows {d : Option Digest} (h : Idle x x') (hd : x.Shows d id) : x'.Shows d id :=
  fun r hr => hd r (h.records r hr)

/-! ## What is reached -/

/-- The exchanges that come about if no playback is accepted twice, nobody is late, and what is
requested is `asked` for. -/
inductive Reached (c : PlaySetup) (asked : Request → Prop) : Exchange → Prop
  | start (calendar : Timestamp) : Reached c asked { calendar }
  | move {x : Exchange} {i : Nat} {cue : Cue} {s s' : Session} {es : List Effect}
      (h : Reached c asked x) (hi : x.sessions[i]? = some s) (hmove : Move c x.now cue s es s')
      (hnew : ∀ id, cue = .enter id → x.story id = []) (hasked : ∀ r ∈ s'.requests, asked r) :
      Reached c asked (es.foldl (perform i) { x with sessions := x.sessions.set i s' })
  | idle {x x' : Exchange} (h : Reached c asked x) (hs : Step c [] x x') : Reached c asked x'
  | clock {x : Exchange} {now : Nat} (h : Reached c asked x) (hnow : x.now ≤ now)
      (hsound : ∀ (i : Nat) s, x.sessions[i]? = some s → s.Sound now) (agenda : Agenda) :
      Reached c asked { x with now, agenda }

/-- A playback is in a condition of its life in the session with number `i`. -/
structure Lives (c : PlaySetup) (x : Exchange) (i : Nat) (id : Uuid) (p : Condition) : Prop where
  life : Life c i id (x.story id) p
  known : p.shown ≠ none → ∃ s, x.sessions[i]? = some s
  here : ∀ s, x.sessions[i]? = some s → s.condition? id = p.shown
  elsewhere : ∀ j s, j ≠ i → x.sessions[j]? = some s → s.condition? id = none
  shows : x.Shows (p.digest? c) id

theorem Lives.idle (h : Lives c x i id p) (hidle : Idle x x') : Lives c x' i id p := by
  refine ⟨hidle.story id ▸ h.life, fun hp => ?_, fun s hs => ?_, fun j s hji hs => ?_,
    hidle.shows h.shows⟩
  · obtain ⟨s, hs⟩ := h.known hp
    obtain ⟨footing, hs'⟩ := hidle.kept i s hs
    exact ⟨_, hs'⟩
  · rcases hidle.sessions i s hs with ⟨s₀, footing, hs₀, rfl⟩ | ⟨hnone, port, rfl⟩
    · exact h.here s₀ hs₀
    · have hp : p.shown = none := by
        by_contra hp
        obtain ⟨s, hs⟩ := h.known hp
        rw [hnone] at hs
        cases hs
      rw [hp]
      rfl
  · rcases hidle.sessions j s hs with ⟨s₀, footing, hs₀, rfl⟩ | ⟨-, port, rfl⟩
    · exact h.elsewhere j s₀ hji hs₀
    · rfl

theorem Lives.of_shown (h : Lives c x i id p) (hj : x.sessions[j]? = some s) {p' : Condition}
    (hs : s.condition? id = p'.shown) (hp' : p'.shown ≠ none) : j = i ∧ p' = p := by
  have hji : j = i := by
    by_contra hji
    exact hp' (hs ▸ h.elsewhere j s hji hj)
  subst hji
  exact ⟨rfl, Condition.eq_of_shown (hs ▸ h.here s hj) hp'⟩

theorem Lives.not_mem_playbacks (h : Lives c x i id p) (hnil : x.story id = [])
    (hj : x.sessions[j]? = some s) : id ∉ s.playbacks := by
  have hlife := h.life
  rw [hnil] at hlife
  obtain rfl := hlife.unknown_of_nil
  refine Session.not_mem_playbacks ?_
  by_cases hji : j = i
  · exact h.here s (hji ▸ hj)
  · exact h.elsewhere j s hji hj

theorem Lives.stays (h : Lives c x i id p) (hj : x.sessions[j]? = some s)
    (hnil : es.filter (Effect.isAbout id) = []) (hsame : s'.condition? id = s.condition? id) :
    Lives c (es.foldl (perform j) { x with sessions := x.sessions.set j s' }) i id p := by
  refine ⟨?_, fun hp => ?_, fun t ht => ?_, fun k t hk ht => ?_, ?_⟩
  · rw [story_performs, hnil, List.map_nil, List.append_nil]
    exact h.life
  · by_cases hij : i = j
    · subst hij
      exact ⟨s', session_moved hj⟩
    · rw [session_unmoved hij]
      exact h.known hp
  · rcases session_of_move ht with ⟨rfl, rfl⟩ | ⟨-, ht⟩
    · rw [hsame]
      exact h.here s hj
    · exact h.here t ht
  · rcases session_of_move ht with ⟨rfl, rfl⟩ | ⟨-, ht⟩
    · rw [hsame]
      exact h.elsewhere k s hk hj
    · exact h.elsewhere k t hk ht
  · have hshows : Shows _ id { x with sessions := x.sessions.set j s' } := h.shows
    have hrest := hshows.performs (i := j) es
    rwa [hnil] at hrest

/-- A playback takes a turn in the session where it shows, or where it is accepted. -/
theorem Lives.turns {cue : Cue} {p₀ p' : Condition} (h : Lives c x i id p)
    (hj : x.sessions[j]? = some s) (hnew : cue = .enter id → x.story id = [])
    (hturn : Turn c x.now id cue p₀ (es.filter (Effect.isAbout id)) p')
    (hp₀ : s.condition? id = p₀.shown) (hp' : s'.condition? id = p'.shown) :
    Lives c (es.foldl (perform j) { x with sessions := x.sessions.set j s' }) j id p' := by
  have hlife : Life c j id (x.story id) p₀ ∧ p₀ = p := by
    by_cases hshown : p₀.shown = none
    · obtain ⟨rfl, hcue⟩ := hturn.of_shown_none hshown
      have hnil := hnew hcue
      have hp := h.life
      rw [hnil] at hp ⊢
      exact ⟨.unknown, hp.unknown_of_nil.symm⟩
    · obtain ⟨rfl, rfl⟩ := h.of_shown hj hp₀ hshown
      exact ⟨h.life, rfl⟩
  obtain ⟨hlife, rfl⟩ := hlife
  refine ⟨?_, fun _ => ⟨s', session_moved hj⟩, fun t ht => ?_, fun k t hk ht => ?_, ?_⟩
  · rw [story_performs]
    exact hlife.turn hturn
  · rcases session_of_move ht with ⟨-, rfl⟩ | ⟨hne, -⟩
    · exact hp'
    · exact absurd rfl hne
  · rcases session_of_move ht with ⟨rfl, -⟩ | ⟨-, ht⟩
    · exact absurd rfl hk
    · by_cases hki : k = i
      · subst hki
        have hnone : p₀.shown = none := hp₀ ▸ h.elsewhere j s (Ne.symm hk) hj
        rw [← hnone]
        exact h.here t ht
      · exact h.elsewhere k t hki ht
  · have hshows : Shows _ id { x with sessions := x.sessions.set j s' } := h.shows
    have hrest := hshows.performs (i := j) es
    rwa [hturn.digest] at hrest

/-- What a move tells of a playback goes on with its life. -/
theorem Lives.move {cue : Cue} (h : Lives c x i id p) (hj : x.sessions[j]? = some s)
    (htells : Session.Tells c x.now cue s es s' id) (hnew : cue = .enter id → x.story id = []) :
    ∃ i' p',
      Lives c (es.foldl (perform j) { x with sessions := x.sessions.set j s' }) i' id p' := by
  rcases htells with ⟨hnil, hsame⟩ | ⟨p₀, p', hturn, hp₀, hp'⟩
  · exact ⟨i, p, h.stays hj hnil hsame⟩
  · exact ⟨j, p', h.turns hj hnew hturn hp₀ hp'⟩

/-- In an exchange that is reached all is well in every session, and every playback has a life. -/
theorem Reached.orderly (h : Reached c asked x) :
    (∀ (i : Nat) s, x.sessions[i]? = some s → s.Sound x.now) ∧
      ∀ id, ∃ i p, Lives c x i id p := by
  -- Both at once: a move keeps a session sound if the playback it takes on is in none of them,
  -- and that is known from the life of the playback.
  induction h with
  | start calendar =>
    refine ⟨by simp, fun id => ⟨0, .unknown, .unknown, ?_, by simp, by simp, by simp [Shows]⟩⟩
    simp [Condition.shown]
  | @move x i cue s s' es _ hi hmove hnew _ ih =>
    obtain ⟨hsound, hlives⟩ := ih
    have hnew' : ∀ id, cue = .enter id → id ∉ s.playbacks := by
      intro id hcue
      obtain ⟨k, p, hl⟩ := hlives id
      exact hl.not_mem_playbacks (hnew id hcue) hi
    have hs := hsound i s hi
    refine ⟨fun j t ht => ?_, fun id => ?_⟩
    · rw [now_performs]
      rcases session_of_move ht with ⟨-, rfl⟩ | ⟨-, ht⟩
      · exact hmove.sound hs hnew'
      · exact hsound j t ht
    · obtain ⟨k, p, hl⟩ := hlives id
      exact hl.move hi (hmove.tells hs hnew' id) (hnew id)
  | idle _ hstep ih =>
    have hidle := hstep.idle
    refine ⟨fun j t ht => ?_, fun id => ?_⟩
    · rw [hidle.now]
      rcases hidle.sessions j t ht with ⟨s₀, footing, hs₀, rfl⟩ | ⟨-, port, rfl⟩
      · obtain ⟨hnodup, hready, hinTime, hsettles⟩ := ih.1 j s₀ hs₀
        exact ⟨hnodup, hready, hinTime, hsettles⟩
      · exact .opened port _
    · obtain ⟨k, p, hl⟩ := ih.2 id
      exact ⟨k, p, hl.idle hidle⟩
  | clock _ _ hsound agenda ih =>
    refine ⟨hsound, fun id => ?_⟩
    obtain ⟨k, p, hl⟩ := ih.2 id
    exact ⟨k, p, hl.life, hl.known, hl.here, hl.elsewhere, hl.shows⟩

theorem Lives.queued (h : Lives c x i id .pending) :
    ∃ s, x.sessions[i]? = some s ∧ id ∈ s.queued := by
  obtain ⟨s, hs⟩ := h.known (by simp [Condition.shown])
  refine ⟨s, hs, ?_⟩
  have hcondition := h.here s hs
  unfold Session.condition? at hcondition
  split at hcondition
  · assumption
  · obtain ⟨st, -, hst⟩ := Option.map_eq_some_iff.mp hcondition
    cases hprogram : st.program <;> simp [hprogram, ProgramState.condition] at hst

theorem Lives.streaming (h : Lives c x i id p) {program : ProgramState}
    (hp : p = program.condition) :
    ∃ s st, x.sessions[i]? = some s ∧ s.slot = some st ∧ st.id = id ∧ st.program = program := by
  have hshown : p.shown = some program.condition := by
    subst hp
    cases program <;> rfl
  obtain ⟨s, hs⟩ := h.known (by simp [hshown])
  have hcondition := h.here s hs
  rw [hshown] at hcondition
  unfold Session.condition? at hcondition
  split at hcondition
  · cases program <;> cases hcondition
  · obtain ⟨st, hst, heq⟩ := Option.map_eq_some_iff.mp hcondition
    obtain ⟨hslot, hid⟩ := Option.filter_eq_some_iff.mp hst
    refine ⟨s, st, hs, hslot, by simpa using hid, ?_⟩
    cases hprogram : st.program <;> cases program <;>
      simp_all [ProgramState.condition]

theorem Reached.sound (h : Reached c asked x) (hi : x.sessions[i]? = some s) : s.Sound x.now :=
  h.orderly.1 i s hi

theorem Reached.lives (h : Reached c asked x) (id : Uuid) : ∃ i p, Lives c x i id p :=
  h.orderly.2 id

end Exchange

end RtpBroker
