import RtpBroker.Proofs.Decisions
import RtpBroker.Proofs.Slots

/-!
# One stream at a time

In a session one playback streams at a time, and one program runs. Its error output
is drained before the next one is started, every program is told to send to where
the first datagram came from, and for a playback that does not get its turn no
program is ever started.
-/

namespace RtpBroker

def Effect.launched? : Effect → Option Uuid
  | .launch id _ => some id
  | _ => none

def Effect.drained? : Effect → Option Uuid
  | .drained id _ => some id
  | _ => none

def Effect.begun? : Effect → Option Uuid
  | .phase id _ => some id
  | _ => none

def Effect.finished? : Effect → Option Uuid
  | .finish id _ _ _ => some id
  | _ => none

theorem Effect.launched?_eq_some {e : Effect} {id : Uuid} :
    e.launched? = some id ↔ ∃ arguments, e = .launch id arguments := by
  cases e <;> simp [launched?, eq_comm]

theorem Effect.drained?_eq_some {e : Effect} {id : Uuid} :
    e.drained? = some id ↔ ∃ timeUp, e = .drained id timeUp := by
  cases e <;> simp [drained?, eq_comm]

theorem Effect.begun?_eq_some {e : Effect} {id : Uuid} :
    e.begun? = some id ↔ ∃ phase, e = .phase id phase := by
  cases e <;> simp [begun?, eq_comm]

theorem Effect.finished?_eq_some {e : Effect} {id : Uuid} :
    e.finished? = some id ↔ ∃ phase code fault, e = .finish id phase code fault := by
  cases e <;> simp [finished?, eq_comm]

theorem Condition.eq_of_streaming {c : PlaySetup} {p : Condition} {d : Digest}
    (h : p.digest? c = some d) (hphase : d.phase = .streaming) :
    ∃ program : ProgramState, p = program.condition := by
  cases p with
  | unknown => cases h
  | pending =>
    cases h
    cases hphase
  | running => exact ⟨.running, rfl⟩
  | lingering o limit => exact ⟨.lingering o limit, rfl⟩
  | settled v =>
    cases h
    rw [← Verdict.digest_cause] at hphase
    cases hcause : v.cause with
    | ending ending =>
      simp only [hcause, Cause.digest] at hphase
      split at hphase <;> cases hphase
    | _ =>
      rw [hcause] at hphase
      cases hphase

theorem Condition.eq_of_timedOut {c : PlaySetup} {p : Condition} {d : Digest}
    (h : p.digest? c = some d) (hphase : d.phase = .timedOut) : p = .settled .lapsed := by
  cases p with
  | unknown => cases h
  | settled v =>
    cases h
    rw [← Verdict.digest_cause, Cause.timedOut_iff] at hphase
    rcases v with _ | _ | o
    · rfl
    · cases hphase
    · cases o <;> cases hphase
  | _ =>
    cases h
    cases hphase

namespace Session

variable {c : PlaySetup} {now : Nat} {cue : Cue} {s s' : Session} {es : List Effect}

theorem Move.launches (h : Move c now cue s es s') :
    (es.filterMap Effect.launched?).length ≤ 1 ∧
      (es.filterMap Effect.launched? ≠ [] → s.slot = none) := by
  cases h with
  | hear sender =>
    unfold Session.hear
    dsimp only
    split <;> simp [List.filterMap, Effect.launched?]
  | start hslot => exact ⟨by simp [List.filterMap, Effect.launched?], fun _ => hslot⟩
  | _ => simp [List.filterMap, Effect.launched?, settling, finishEffect, drop]

theorem Move.begins (h : Move c now cue s es s') :
    (es.filterMap Effect.begun?).length ≤ 1 ∧
      (es.filterMap Effect.begun? ≠ [] → s.slot = none) := by
  cases h with
  | hear sender =>
    unfold Session.hear
    dsimp only
    split <;> simp [List.filterMap, Effect.begun?]
  | noFile hslot => exact ⟨by simp [List.filterMap, Effect.begun?, finishEffect], fun _ => hslot⟩
  | notStarted hslot =>
    exact ⟨by simp [List.filterMap, Effect.begun?, finishEffect], fun _ => hslot⟩
  | start hslot => exact ⟨by simp [List.filterMap, Effect.begun?], fun _ => hslot⟩
  | _ => simp [List.filterMap, Effect.begun?, settling, finishEffect, drop]

/-- Error output is read no more when it is closed, as it is when the program or its process group
leaves nothing behind, or when the time for it is up. -/
theorem Move.drains (h : Move c now cue s es s') {id : Uuid} {timeUp : Bool}
    (hmem : .drained id timeUp ∈ es) :
    cue = .settle timeUp ∨
      timeUp = false ∧ ((∃ ending, cue = .exit ending false) ∨ cue = .close) := by
  cases h with
  | exit ending =>
    simp only [settling, finishEffect, List.mem_cons, reduceCtorEq, Effect.drained.injEq,
      List.not_mem_nil, or_false, false_or] at hmem
    exact Or.inr ⟨hmem.2, Or.inl ⟨ending, rfl⟩⟩
  | settle =>
    simp only [settling, finishEffect, List.mem_cons, reduceCtorEq, Effect.drained.injEq,
      List.not_mem_nil, or_false] at hmem
    exact Or.inl (congrArg Cue.settle hmem.2.symm)
  | kill =>
    simp only [settling, finishEffect, List.mem_cons, reduceCtorEq, Effect.drained.injEq,
      List.not_mem_nil, or_false, false_or] at hmem
    exact Or.inr ⟨hmem.2, Or.inr rfl⟩
  | _ => simp [finishEffect, drop] at hmem

theorem drop_of_close {id : Uuid} (hid : id ∈ s.queued) : drop id ⊆ (s.close now).2 := by
  have hdrop : drop id ⊆ s.queued.flatMap drop := fun e he =>
    List.mem_flatMap.mpr ⟨id, hid, he⟩
  unfold close
  dsimp only
  split
  · exact hdrop
  · split
    · exact hdrop
    · split <;> exact fun e he => List.mem_append_left _ (hdrop he)

theorem drained_of_close {id : Uuid} {timeUp : Bool} (hmem : .drained id timeUp ∈ (s.close now).2) :
    timeUp = false ∧ ∃ st, s.slot = some st ∧ st.id = id ∧ st.outlives = false := by
  have hdrops : .drained id timeUp ∉ s.queued.flatMap drop := by simp [drop]
  have hes : s.queued.flatMap drop =
      (s.waiting.map (·.request.id) ++ s.line.map (·.id)).flatMap drop := rfl
  unfold close at hmem
  dsimp only at hmem
  rw [← hes] at hmem
  split at hmem
  · exact absurd hmem hdrops
  · next st hslot =>
    split at hmem
    · exact absurd hmem hdrops
    · split at hmem
      · have hrest := (List.mem_append.mp hmem).resolve_left hdrops
        simp at hrest
      · next hout =>
        have hrest := (List.mem_append.mp hmem).resolve_left hdrops
        simp only [finishEffect, List.mem_cons, reduceCtorEq, Effect.drained.injEq,
          List.not_mem_nil, or_false, false_or] at hrest
        exact ⟨hrest.2, st, hslot, hrest.1.symm, by simpa using hout⟩

end Session

namespace Exchange

variable {c : PlaySetup} {x : Exchange} {i : Nat} {id : Uuid}

/-- The session with number `i` has accepted the playback. -/
def Accepted (i : Nat) (id : Uuid) (x : Exchange) : Prop :=
  ∃ t port, ⟨t, i, .enter id port⟩ ∈ x.journal

/-- The program of a playback was started in the session with number `i`, and it has neither ended
nor been killed. -/
def Running (i : Nat) (id : Uuid) (x : Exchange) : Prop :=
  (∃ t arguments, ⟨t, i, .launch id arguments⟩ ∈ x.journal) ∧
    ∀ n ∈ x.journal, n.effect ≠ .killed id ∧ ∀ ending, n.effect ≠ .exited id ending

def Launched (id : Uuid) (x : Exchange) : Prop :=
  ∃ n ∈ x.journal, ∃ arguments, n.effect = .launch id arguments

/-- At most one stream for each session, and always to the address of its peer. -/
structure OneStream (c : PlaySetup) (x : Exchange) : Prop where
  /-- One playback of a session is in the phase of streaming. -/
  streaming : ∀ i, ∀ r ∈ x.tracker.records, ∀ r' ∈ x.tracker.records, r.phase = .streaming →
    r'.phase = .streaming → x.Accepted i r.id → x.Accepted i r'.id → r.id = r'.id
  /-- One program of a session runs. -/
  running : ∀ i id id', x.Running i id → x.Running i id' → id = id'
  /-- A playback keeps the slot from the start of its program until the error output is drained. -/
  taken : ∀ n ∈ x.journal, ∀ id arguments, n.effect = .launch id arguments →
    x.Holds n.session id ∨ ∃ k ∈ x.journal, ∃ timeUp, k.effect = .drained id timeUp
  /-- When a program is started, those are drained that were started earlier in the session. -/
  serial : ∀ before n after id arguments, x.journal = before ++ n :: after →
    n.effect = .launch id arguments → ∀ m ∈ before, m.session = n.session →
    ∀ id' arguments', m.effect = .launch id' arguments' →
    ∃ k ∈ before, ∃ timeUp, k.effect = .drained id' timeUp
  /-- When a playback begins to stream, those are over that began earlier in the session. -/
  inTurn : ∀ before n after id phase, x.journal = before ++ n :: after →
    n.effect = .phase id phase → ∀ m ∈ before, m.session = n.session →
    ∀ id' phase', m.effect = .phase id' phase' →
    ∃ k ∈ before, ∃ phase code fault, k.effect = .finish id' phase code fault
  /-- Draining takes until the error output is closed, or else for as long as meant after the end
  of the program. -/
  drained : ∀ n ∈ x.journal, ∀ id timeUp, n.effect = .drained id timeUp →
    ∃ m ∈ x.journal, m.session = n.session ∧
      ((∃ ending, m.effect = .exited id ending) ∨ m.effect = .killed id) ∧ m.time ≤ n.time ∧
      n.time ≤ m.time + PlaySetup.lingerLimit ∧
      (timeUp = true → n.time = m.time + PlaySetup.lingerLimit)
  /-- Every program is told to send to the peer, who sent the first datagram. -/
  target : ∀ n ∈ x.journal, ∀ id arguments, n.effect = .launch id arguments →
    ∃ s file target, x.sessions[n.session]? = some s ∧ s.remote = some target ∧
      x.firstSender? n.session = some target ∧ arguments = c.stream.arguments file target
  /-- No program was started for a playback that timed out. -/
  timedOut : ∀ r ∈ x.tracker.records, r.phase = .timedOut → ¬ x.Launched r.id

variable {asked : Request → Prop}

theorem Reached.holds_of_streaming (h : Reached c asked x) {r : PlaybackStatus}
    (hr : r ∈ x.tracker.records) (hphase : r.phase = .streaming) (ha : x.Accepted i r.id) :
    x.Holds i r.id := by
  obtain ⟨j, p, hl⟩ := h.lives r.id
  obtain ⟨program, rfl⟩ := Condition.eq_of_streaming (hl.shows r hr rfl) hphase
  obtain ⟨t, port, hentry⟩ := ha
  obtain rfl : i = j := hl.life.session_eq _ (mem_story _ hentry rfl)
  exact hl.holds

theorem Reached.holds_of_running (h : Reached c asked x) (hid : x.Running i id) :
    x.Holds i id := by
  obtain ⟨⟨t, arguments, hn⟩, halive⟩ := hid
  rcases h.held hn (Or.inl ⟨arguments, rfl⟩) with hholds | ⟨-, hdrained⟩
  · exact hholds
  · obtain ⟨k, hk, timeUp, he⟩ := hdrained ⟨arguments, rfl⟩
    obtain ⟨m, hm, -, ⟨ending, hend⟩ | hend, -⟩ := h.drained hk he
    · exact absurd hend ((halive m hm).2 ending)
    · exact absurd hend (halive m hm).1

theorem Reached.oneStream (h : Reached c asked x) : OneStream c x where
  streaming i r hr r' hr' hphase hphase' ha ha' :=
    (h.holds_of_streaming hr hphase ha).unique (h.holds_of_streaming hr' hphase' ha')
  running i id id' hid hid' := (h.holds_of_running hid).unique (h.holds_of_running hid')
  taken n hn id arguments he :=
    (h.held hn (Or.inl ⟨arguments, he⟩)).imp_right fun hover => hover.2 ⟨arguments, he⟩
  serial before n after id arguments heq he m hm hsession id' arguments' he' := by
    have hheld : ∀ x, Reached c asked x → ∀ n ∈ x.journal, ∀ id, n.effect.launched? = some id →
        x.Holds n.session id ∨ ∃ k ∈ x.journal, k.effect.drained? = some id := by
      intro x hx n hn id hid
      have hlaunch := Effect.launched?_eq_some.mp hid
      simp only [Effect.drained?_eq_some]
      exact (hx.held hn (Or.inl hlaunch)).imp_right fun hover => hover.2 hlaunch
    obtain ⟨k, hk, hdrained⟩ := h.serial (fun _ _ _ _ _ hmove => hmove.launches) hheld heq
      (by simp [he, Effect.launched?]) hm hsession (Effect.launched?_eq_some.mpr ⟨_, he'⟩)
    exact ⟨k, hk, Effect.drained?_eq_some.mp hdrained⟩
  inTurn before n after id phase heq he m hm hsession id' phase' he' := by
    have hheld : ∀ x, Reached c asked x → ∀ n ∈ x.journal, ∀ id, n.effect.begun? = some id →
        x.Holds n.session id ∨ ∃ k ∈ x.journal, k.effect.finished? = some id := by
      intro x hx n hn id hid
      simp only [Effect.finished?_eq_some]
      exact (hx.held hn (Or.inr (Effect.begun?_eq_some.mp hid))).imp_right fun hover => hover.1
    obtain ⟨k, hk, hfinished⟩ := h.serial (fun _ _ _ _ _ hmove => hmove.begins) hheld heq
      (by simp [he, Effect.begun?]) hm hsession (Effect.begun?_eq_some.mpr ⟨_, he'⟩)
    exact ⟨k, hk, Effect.finished?_eq_some.mp hfinished⟩
  drained n hn id timeUp he := h.drained hn he
  target n hn id arguments he := by
    obtain ⟨s, hs, hwarranted⟩ := h.warranted n hn
    rw [he] at hwarranted
    obtain ⟨now, target, r, st, htarget, -, -, -, harguments⟩ := hwarranted
    exact ⟨s, st.file, target, hs, htarget, h.learned _ s hs ▸ htarget, harguments⟩
  timedOut r hr hphase := by
    rintro ⟨n, hn, hlaunch⟩
    obtain ⟨j, p, hl⟩ := h.lives r.id
    obtain rfl := Condition.eq_of_timedOut (hl.shows r hr rfl) hphase
    have hstory : n ∈ x.story r.id := by
      obtain ⟨arguments, he⟩ := hlaunch
      exact mem_story _ hn (by rw [he]; rfl)
    rcases hl.life.turned hstory (Or.inl hlaunch) with ⟨program, heq⟩ | ⟨o, heq⟩
    · cases program <;> cases heq
    · cases heq

/-! ## Events -/

theorem drained_cases {e : Event} {n : Entry} {timeUp : Bool} (hn : n ∈ (x.apply c e).journal)
    (hnew : n ∉ x.journal) (he : n.effect = .drained id timeUp) :
    timeUp = true ∧ (∃ ms, e = .advance ms) ∨
    timeUp = false ∧ ((∃ i, e = .closeOutput i) ∨ (∃ i ending, e = .endProgram i ending false) ∨
      ∃ i s st, e.closes? x = some i ∧ x.sessions[i]? = some s ∧ s.slot = some st ∧ st.id = id ∧
        st.outlives = false) := by
  rcases (apply_course c x e).new_entry hn with h | ⟨cue, hcue, z, s, es, s', -, -, hmove, hmem⟩
  · exact absurd h hnew
  · rw [he] at hmem
    rcases hmove.drains hmem with rfl | ⟨rfl, ⟨ending, rfl⟩ | rfl⟩
    · cases e with
      | closeOutput i =>
        obtain rfl : timeUp = false := by simpa [Event.cues] using hcue
        exact Or.inr ⟨rfl, Or.inl ⟨i, rfl⟩⟩
      | advance ms =>
        obtain rfl : timeUp = true := by simpa [Event.cues] using hcue
        exact Or.inl ⟨rfl, ms, rfl⟩
      | _ => simp [Event.cues] at hcue
    · cases e with
      | endProgram i ending' held =>
        obtain ⟨-, rfl⟩ : ending = ending' ∧ false = held := by simpa [Event.cues] using hcue
        exact Or.inr ⟨rfl, Or.inr (Or.inl ⟨i, ending', rfl⟩)⟩
      | _ => simp [Event.cues] at hcue
    · rcases closes_cases c x hcue with ⟨i, s, hcloses, hi⟩ | hsame
      · rcases (apply_closes hcloses hi n).mp hn with h | ⟨effect, heffect, rfl⟩
        · exact absurd h hnew
        · obtain rfl : effect = .drained id false := he
          obtain ⟨-, st, hst⟩ := Session.drained_of_close heffect
          exact Or.inr ⟨rfl, Or.inr (Or.inr ⟨i, s, st, hcloses, hi, hst⟩)⟩
      · rw [hsame] at hn
        exact absurd hn hnew

/-- Who is given up before its turn gets no program. -/
theorem not_launched_of_closes {calendar : Timestamp} {events : List Event} {e : Event}
    {s : Session} (hfresh : Fresh events) (hx : Happens c calendar events x e)
    (he : e.closes? x = some i) (hi : x.sessions[i]? = some s) (hid : id ∈ s.queued) :
    ¬ (run c events { calendar }).Launched id := by
  have hreached := (run_rests (c := c) calendar hfresh (List.append_nil _).symm).1.reached
  obtain ⟨before, after, heq, rfl⟩ := hx
  have hdropped := (apply_closes (c := c) he hi _).mpr
    (Or.inr ⟨_, Session.drop_of_close hid (List.mem_cons_self ..), rfl⟩)
  have hrun : run c events { calendar } =
      run c after ((run c before { calendar }).apply c e) := by
    rw [heq]
    simp [run]
  have hjournal := (run_course c _ after).journal_mono hdropped
  rw [← hrun] at hjournal
  rintro ⟨n, hn, arguments, hlaunch⟩
  obtain ⟨j, p, hl⟩ := hreached.lives id
  obtain rfl := hl.life.settled_of_dropped (mem_story _ hjournal rfl) rfl
  have hstory : n ∈ (run c events { calendar }).story id := mem_story _ hn (by rw [hlaunch]; rfl)
  rcases hl.life.turned hstory (Or.inl ⟨arguments, hlaunch⟩) with ⟨program, hp⟩ | ⟨o, hp⟩
  · cases program <;> cases hp
  · cases hp

/-- Who keeps the slot after the end of its program does so for less than the time meant. -/
theorem Rests.lingering (h : Rests c asked x) {s : Session} {st : Streaming} {o : Outcome}
    {limit : Nat} (hi : x.sessions[i]? = some s) (hst : s.slot = some st)
    (hp : st.program = .lingering o limit) :
    ∃ m ∈ x.journal, m.session = i ∧
      ((∃ ending, m.effect = .exited st.id ending) ∨ m.effect = .killed st.id) ∧
      x.now < m.time + PlaySetup.lingerLimit := by
  obtain ⟨j, p, hl⟩ := h.reached.lives st.id
  have hcondition : s.condition? st.id = (Condition.lingering o limit).shown := by
    rw [Session.condition?_of_slot (h.reached.sound hi).nodup hst, hp]
    rfl
  obtain ⟨rfl, rfl⟩ := hl.of_shown hi hcondition (by simp [Condition.shown])
  obtain ⟨t₁, port, t₂, arguments, t₃, e, hends, rfl, hstory⟩ := hl.life.eq_of_lingering
  have hmem : ⟨t₃, i, e⟩ ∈ x.story st.id := by simp [hstory]
  refine ⟨⟨t₃, i, e⟩, mem_journal_of_story hmem, rfl, ?_, ?_⟩
  · cases hends with
    | ended ending => exact Or.inl ⟨ending, rfl⟩
    | aborted => exact Or.inr rfl
  · rcases (h.punctual i s hi).lingers st o _ hst hp with ⟨-, _, ha, -⟩ | ⟨hlt, -⟩
    · cases ha
    · exact hlt

/-- After every run each session has one stream at most, and it goes to the peer; so it is whatever
order the small steps come in. The slot is given on when the error output of an ended program is
closed or 500 milliseconds have passed, and who is given up before its turn has never got it. -/
theorem one_stream_at_a_time (c : PlaySetup) (calendar : Timestamp) {events : List Event}
    (hfresh : Fresh events) :
    OneStream c (run c events { calendar }) ∧
    (∀ asked x, Reached c asked x → OneStream c x) ∧
    (∀ x e n id timeUp, Happens c calendar events x e → n ∈ (x.apply c e).journal →
      n ∉ x.journal → n.effect = .drained id timeUp →
      timeUp = true ∧ (∃ ms, e = .advance ms) ∨
      timeUp = false ∧ ((∃ i, e = .closeOutput i) ∨ (∃ i ending, e = .endProgram i ending false) ∨
        ∃ i s st, e.closes? x = some i ∧ x.sessions[i]? = some s ∧ s.slot = some st ∧
          st.id = id ∧ st.outlives = false)) ∧
    (∀ (i : Nat) s st o limit, (run c events { calendar }).sessions[i]? = some s →
      s.slot = some st → st.program = .lingering o limit →
      ∃ m ∈ (run c events { calendar }).journal, m.session = i ∧
        ((∃ ending, m.effect = .exited st.id ending) ∨ m.effect = .killed st.id) ∧
        (run c events { calendar }).now < m.time + PlaySetup.lingerLimit) ∧
    (∀ x e i s id, Happens c calendar events x e → e.closes? x = some i →
      x.sessions[i]? = some s → id ∈ s.queued → ¬ (run c events { calendar }).Launched id) := by
  have hrests := (run_rests (c := c) calendar hfresh (List.append_nil _).symm).1
  refine ⟨hrests.reached.oneStream, fun asked x hx => hx.oneStream, ?_, ?_, ?_⟩
  · exact fun x e n id timeUp _ hn hnew he => drained_cases hn hnew he
  · exact fun i s st o limit hi hst hp => hrests.lingering hi hst hp
  · exact fun x e i s id hx he hi hid => not_launched_of_closes hfresh hx he hi hid

def closedWithTwo : List Event :=
  [.create 40000, .play 40000 ⟨#[1]⟩ none ⟨1⟩, .play 40000 ⟨#[2]⟩ none ⟨2⟩, .close 0]

theorem one_stream_at_a_time_closedWithTwo :
    Fresh closedWithTwo ∧ OneStream {} (run {} closedWithTwo {}) ∧
      ¬ (run {} closedWithTwo {}).Launched ⟨1⟩ ∧ ¬ (run {} closedWithTwo {}).Launched ⟨2⟩ := by
  have hfresh : Fresh closedWithTwo := by
    unfold Fresh
    decide
  obtain ⟨hone, -, -, -, hclosed⟩ := one_stream_at_a_time {} ⟨0, 0⟩ hfresh
  have hlast : Happens {} ⟨0, 0⟩ closedWithTwo (run {} (closedWithTwo.take 3) {}) (.close 0) :=
    ⟨closedWithTwo.take 3, [], rfl, rfl⟩
  exact ⟨hfresh, hone, hclosed _ _ 0 _ ⟨1⟩ hlast rfl rfl (by decide),
    hclosed _ _ 0 _ ⟨2⟩ hlast rfl rfl (by decide)⟩

end Exchange

end RtpBroker
