import RtpBroker.Proofs.Alarms

/-!
# What changes in an exchange

The exchange of a broker changes in small steps. Some leave every session on its
post: a session makes a move of its own, records are dropped, the calendar goes on,
a sweep sets its alarm. With the others a session is enrolled, it leaves its port,
or it vacates it. Between the steps playbacks are accepted and the clock goes on,
as long as nobody in a session is late.
-/

namespace RtpBroker

/-- The same but for the counts of allocations and of requests. -/
structure Metrics.Alike (m m' : Metrics) : Prop where
  sessions : m'.sessions = m.sessions
  datagrams : m'.datagrams = m.datagrams
  learned : m'.learned = m.learned
  playbacks : m'.playbacks = m.playbacks
  streamSeconds : m'.streamSeconds = m.streamSeconds

namespace Session

/-- What gives rise to a move when no playback is accepted. Of the states only that the session
listens is marked from outside. -/
def Cue.Own : Cue → Prop
  | .enter _ => False
  | .mark state => state = .listening
  | _ => True

theorem Cue.Own.ne_enter {cue : Cue} (h : cue.Own) (id : Uuid) : cue ≠ .enter id := by
  rintro rfl
  exact h

theorem Cue.enter_not_mem {cues : List Cue} (h : ∀ cue ∈ cues, cue.Own) (id : Uuid) :
    .enter id ∉ cues :=
  fun hid => (h _ hid).ne_enter id rfl

/-- Taken off its port and closed, the session is torn down from now on, when all of its tasks are
over. -/
def leave (s : Session) : Session := { s with standing := .leaving }.shut.yield

/-- What becomes of a session in which nobody makes a move. -/
inductive Recedes : Session → Session → Prop
  | stays (s : Session) : Recedes s s
  | leaves {s : Session} (h : s.standing = .registered) : Recedes s s.leave
  | vacates {s : Session} (h : s.standing = .leaving) (hjoined : s.isJoined = true) :
      Recedes s { s with standing := .gone }

/-- To hand the tasks over after the session was closed is to do so before. -/
theorem close_leave (now : Nat) (s : Session) :
    s.leave.close now =
      (({ s with standing := .leaving }.close now).1.yield,
        ({ s with standing := .leaving }.close now).2) := by
  unfold close
  cases hslot : s.slot with
  | none => simp [leave, yield, shut, advanceTo, hslot]
  | some st =>
    cases houtlives : st.outlives <;> cases hprogram : st.program <;>
      simp [leave, yield, shut, advanceTo, hslot, hprogram, houtlives]

end Session

namespace Exchange

open Session (Cue Move Moves)

/-- Opens a session on a port that nobody has. -/
def enroll (port : Port) (x : Exchange) : Exchange :=
  { x with
    sessions := x.sessions ++ [Session.opened port x.now]
    metrics := x.metrics.sessionOpened }

def countLeaving (x : Exchange) : Exchange := { x with metrics := x.metrics.sessionClosed }

/-- Takes a session off its port. -/
def leave (i : Nat) (x : Exchange) : Exchange :=
  (x.stepSession i fun s => (s.leave, [])).countLeaving

def vacate (i : Nat) (x : Exchange) : Exchange :=
  x.stepSession i fun s => ({ s with standing := .gone }, [])

/-- Accepts a playback in a session, which has not looked yet for the address of its peer. -/
def enter (c : PlaySetup) (i : Nat) (r : Request) (x : Exchange) : Exchange :=
  x.stepSession i (·.enter c x.now r)

/-- A step that leaves every session on its post. -/
inductive Stir (c : PlaySetup) (x : Exchange) : Exchange → Prop
  | move {i : Nat} {cue : Cue} {s s' : Session} {es : List Effect}
      (hi : x.sessions[i]? = some s) (h : Move c x.now cue s es s') (hcue : cue.Own) :
      Stir c x (es.foldl (perform i) { x with sessions := x.sessions.set i s' })
  | prune {retention n : Nat} {tracker : Tracker}
      (h : x.tracker.prune retention x.calendar = .ok (n, tracker)) : Stir c x { x with tracker }
  | note (calendar : Timestamp) {metrics : Metrics} (h : x.metrics.Alike metrics) :
      Stir c x { x with calendar, metrics }
  | alarm (due k : Nat) : Stir c x { x with agenda := x.agenda ++ [⟨due, .reaper k⟩] }

abbrev Stirs (c : PlaySetup) : Exchange → Exchange → Prop := Relation.ReflTransGen (Stir c)

/-- All that the exchange does at once on one occasion, with every session left on its post. -/
inductive Bout (c : PlaySetup) (x : Exchange) : Exchange → Prop
  | listen (i : Nat) : Bout c x (x.mark .listening i)
  | receive (i : Nat) (sender : SocketAddr) : Bout c x (x.receive c i sender)
  | endProgram (i : Nat) (ending : Ending) (held : Bool) : Bout c x (x.endProgram c i ending held)
  | closeOutput (i : Nat) : Bout c x (x.closeOutput c i)
  | close (i : Nat) : Bout c x (x.close i)
  | ring (a : Alarm) : Bout c x (x.ring c a)
  | prune (retention : Nat) : Bout c x (x.prune retention).2
  | note {metrics : Metrics} (h : x.metrics.Alike metrics) : Bout c x { x with metrics }
  | alarm (due k : Nat) : Bout c x { x with agenda := x.agenda ++ [⟨due, .reaper k⟩] }

inductive Change (c : PlaySetup) (x : Exchange) : Exchange → Prop
  | stir {x' : Exchange} (h : Stir c x x') : Change c x x'
  | enroll {port : Port} (h : x.numberAt? port = none) : Change c x (x.enroll port)
  | leave {i : Nat} {s : Session} (hi : x.sessions[i]? = some s) (h : s.standing = .registered) :
      Change c x (x.leave i)
  | vacate {i : Nat} {s : Session} (hi : x.sessions[i]? = some s) (h : s.standing = .leaving)
      (hjoined : s.isJoined = true) : Change c x (x.vacate i)

/-- What can happen next: a change, a playback is accepted, or the clock goes on. -/
inductive Beat (c : PlaySetup) (x : Exchange) : Exchange → Prop
  | change {x' : Exchange} (h : Change c x x') : Beat c x x'
  | enter {i : Nat} {s : Session} (r : Request) (hi : x.sessions[i]? = some s)
      (hregistered : s.standing = .registered) (hopen : s.isClosed = false)
      (hnew : x.story r.id = []) : Beat c x (x.enter c i r)
  | clock {now : Nat} (hnow : x.now ≤ now)
      (hsound : ∀ (i : Nat) s, x.sessions[i]? = some s → s.Sound now) (agenda : Agenda) :
      Beat c x { x with now, agenda }

abbrev Evolves (c : PlaySetup) : Exchange → Exchange → Prop := Relation.ReflTransGen (Beat c)

/-- The exchanges that come about, whatever the requests. -/
abbrev Arises (c : PlaySetup) (x : Exchange) : Prop := Reached c (fun _ => True) x

variable {c : PlaySetup} {x x' : Exchange} {cues : List Cue} {i : Nat} {rem : List Alarm}

theorem sessions_leave {s : Session} (hi : x.sessions[i]? = some s) :
    (x.leave i).sessions = x.sessions.set i s.leave :=
  sessions_stepSession hi

theorem leave_eq {s : Session} (hi : x.sessions[i]? = some s) :
    x.leave i = { x with
      sessions := x.sessions.set i s.leave
      metrics := x.metrics.sessionClosed } := by
  rw [leave, stepSession_some hi]
  rfl

theorem posts_enter (i : Nat) (r : Request) (x : Exchange) : (x.enter c i r).posts = x.posts := by
  unfold enter
  cases hi : x.sessions[i]? with
  | none => rw [stepSession_none hi]
  | some s =>
    have hmove : Move c x.now (.enter r.id) s _ _ := .enter s r
    rw [stepSession_some hi]
    exact posts_performs hi hmove.post

theorem find?_enter {s : Session} {r : Request} (hi : x.sessions[i]? = some s) :
    (x.enter c i r).tracker.find? r.id = some (.fresh r.id s.port x.calendar) := by
  rw [enter, stepSession_some hi]
  exact Tracker.find?_enter r.id s.port x.calendar x.tracker

theorem story_enter {r : Request} {id : Uuid} (hid : id ≠ r.id) :
    (x.enter c i r).story id = x.story id := by
  unfold enter
  cases hi : x.sessions[i]? with
  | none => rw [stepSession_none hi]
  | some s =>
    rw [stepSession_some hi, story_performs]
    simp [Session.enter, Effect.isAbout, Effect.subject?, Ne.symm hid, story]

/-! ## Steps of old -/

/-- A change consists of steps, or it sets an alarm for a sweep. -/
theorem Change.steps (h : Change c x x') :
    (∃ cues, (∀ cue ∈ cues, cue.Own) ∧ Steps c cues x x') ∨
      ∃ due k, x' = { x with agenda := x.agenda ++ [⟨due, .reaper k⟩] } := by
  cases h with
  | stir h =>
    cases h with
    | @move i cue s s' es hi h hcue =>
      refine Or.inl ⟨[cue], fun cue' hmem => List.mem_singleton.mp hmem ▸ hcue, ?_⟩
      exact .single (.move (List.mem_singleton_self cue) hi h)
    | prune h => exact Or.inl ⟨[], by simp, .single (.prune h)⟩
    | note calendar h => exact Or.inl ⟨[], by simp, .single (.tick x calendar _)⟩
    | alarm due k => exact Or.inr ⟨due, k, rfl⟩
  | enroll h => exact Or.inl ⟨[], by simp, .single (.create x _ _)⟩
  | @leave i s hi h =>
    -- The session stands otherwise first, and is shut then.
    let footing : Footing := ⟨.leaving, [], s.handles⟩
    let stood : Exchange := { x with sessions := x.sessions.set i (s.stand footing) }
    have hstood : stood.sessions[i]? = some (s.stand footing) :=
      List.getElem?_set_self (List.getElem?_eq_some_iff.mp hi).1
    have hshut : Step c [.close] stood { stood with sessions := stood.sessions.set i s.leave } :=
      .move (List.mem_singleton_self _) hstood (.shut _)
    have hleft : x.leave i =
        { stood with
          sessions := stood.sessions.set i s.leave, metrics := x.metrics.sessionClosed } := by
      rw [leave_eq hi, List.set_set]
    refine Or.inl ⟨[.close], by simp [Cue.Own], hleft ▸ ?_⟩
    exact .tail (.tail (.single (.stand hi footing)) hshut) (.tick _ _ _)
  | @vacate i s hi h _ =>
    refine Or.inl ⟨[], by simp, .single ?_⟩
    rw [Exchange.vacate, stepSession_some hi]
    exact .stand hi { s.footing with standing := .gone }

theorem Change.now (h : Change c x x') : x'.now = x.now := by
  rcases h.steps with ⟨cues, -, hsteps⟩ | ⟨due, k, rfl⟩
  · exact hsteps.now
  · rfl

/-- A change asks for nothing. -/
theorem Change.reached {asked : Request → Prop} (h : Change c x x') (hx : Reached c asked x) :
    Reached c asked x' := by
  rcases h.steps with ⟨cues, hcues, hsteps⟩ | ⟨due, k, rfl⟩
  · exact hsteps.reached hx (Cue.enter_not_mem hcues)
  · exact hx.clock (Nat.le_refl _) (fun i s hi => hx.sound hi) _

theorem Change.arises (h : Change c x x') (hx : Arises c x) : Arises c x' := h.reached hx

theorem Change.punctual (h : Change c x x') (hx : Punctual rem x) : Punctual rem x' := by
  rcases h.steps with ⟨cues, hcues, hsteps⟩ | ⟨due, k, rfl⟩
  · exact hsteps.punctual hx (Cue.enter_not_mem hcues)
  · exact fun i s hi => (hx i s hi).mono (List.subset_append_left _ _) fun _ hr => hr

theorem Beat.arises (h : Beat c x x') (hx : Arises c x) : Arises c x' := by
  cases h with
  | change h => exact h.arises hx
  | @enter i s r hi _ _ hnew =>
    rw [Exchange.enter, stepSession_some hi]
    exact hx.move hi (.enter s r) (fun id heq => by cases heq; exact hnew) fun _ _ => trivial
  | clock hnow hsound agenda => exact hx.clock hnow hsound agenda

theorem Evolves.arises (h : Evolves c x x') (hx : Arises c x) : Arises c x' := by
  induction h with
  | refl => exact hx
  | tail _ hlast ih => exact hlast.arises ih

/-! ## What a beat does -/

/-- What a beat changes in which neither a session makes a move nor the clock goes on. -/
structure Still (x x' : Exchange) : Prop where
  now : x'.now = x.now
  journal : x'.journal = x.journal
  files : x'.files = x.files
  playbacks : x'.metrics.playbacks = x.metrics.playbacks
  streamSeconds : x'.metrics.streamSeconds = x.metrics.streamSeconds
  tracker : x'.tracker = x.tracker ∨
    ∃ retention n, x.tracker.prune retention x.calendar = .ok (n, x'.tracker)
  stays : ∀ (j : Nat) s, x.sessions[j]? = some s → ∃ s', x'.sessions[j]? = some s' ∧ s.Recedes s'
  comes : ∀ (j : Nat) s', x'.sessions[j]? = some s' →
    (∃ s, x.sessions[j]? = some s ∧ s.Recedes s') ∨
      x.sessions[j]? = none ∧ ∃ port, s' = Session.opened port x.now

/-- When a playback may be accepted, and which state may be marked from outside. -/
def Admits (x : Exchange) (s : Session) : Cue → Prop
  | .enter id => x.story id = [] ∧ s.standing = .registered ∧ s.isClosed = false
  | .mark state => state = .listening
  | _ => True

/-- In a beat all is still, or one session makes a move, or the clock goes on. -/
inductive Shift (c : PlaySetup) (x : Exchange) : Exchange → Prop
  | still {x' : Exchange} (h : Still x x') : Shift c x x'
  | move {i : Nat} {cue : Cue} {s s' : Session} {es : List Effect}
      (hi : x.sessions[i]? = some s) (h : Move c x.now cue s es s') (hadmits : x.Admits s cue) :
      Shift c x (es.foldl (perform i) { x with sessions := x.sessions.set i s' })
  | clock {now : Nat} (hnow : x.now ≤ now) (agenda : Agenda) : Shift c x { x with now, agenda }

theorem recedes_set {s s' : Session} (hi : x.sessions[i]? = some s) (h : s.Recedes s')
    (hx' : x'.sessions = x.sessions.set i s') :
    (∀ (j : Nat) t, x.sessions[j]? = some t → ∃ t', x'.sessions[j]? = some t' ∧ t.Recedes t') ∧
      ∀ (j : Nat) t', x'.sessions[j]? = some t' →
        (∃ t, x.sessions[j]? = some t ∧ t.Recedes t') ∨
          x.sessions[j]? = none ∧ ∃ port, t' = Session.opened port x.now := by
  have hlt := (List.getElem?_eq_some_iff.mp hi).1
  refine ⟨fun j t hj => ?_, fun j t' hj => ?_⟩
  · rw [hx']
    by_cases hij : i = j
    · subst hij
      obtain rfl : s = t := Option.some.inj (hi.symm.trans hj)
      exact ⟨s', List.getElem?_set_self hlt, h⟩
    · exact ⟨t, (List.getElem?_set_ne hij).trans hj, .stays t⟩
  · rw [hx'] at hj
    by_cases hij : i = j
    · subst hij
      obtain rfl : s' = t' := Option.some.inj ((List.getElem?_set_self hlt).symm.trans hj)
      exact Or.inl ⟨s, hi, h⟩
    · exact Or.inl ⟨t', (List.getElem?_set_ne hij).symm.trans hj, .stays t'⟩

theorem Still.of_sessions (hnow : x'.now = x.now) (hjournal : x'.journal = x.journal)
    (hfiles : x'.files = x.files) (hplaybacks : x'.metrics.playbacks = x.metrics.playbacks)
    (hseconds : x'.metrics.streamSeconds = x.metrics.streamSeconds)
    (htracker : x'.tracker = x.tracker ∨
      ∃ retention n, x.tracker.prune retention x.calendar = .ok (n, x'.tracker))
    (hsessions : x'.sessions = x.sessions) : Still x x' where
  now := hnow
  journal := hjournal
  files := hfiles
  playbacks := hplaybacks
  streamSeconds := hseconds
  tracker := htracker
  stays _ s hj := ⟨s, hsessions ▸ hj, .stays s⟩
  comes _ s' hj := Or.inl ⟨s', hsessions ▸ hj, .stays s'⟩

theorem Stir.shift (h : Stir c x x') : Shift c x x' := by
  cases h with
  | @move i cue s s' es hi h hcue =>
    refine .move hi h ?_
    cases cue with
    | enter id => exact hcue.elim
    | mark state => exact hcue
    | _ => trivial
  | prune h => exact .still (.of_sessions rfl rfl rfl rfl rfl (Or.inr ⟨_, _, h⟩) rfl)
  | note calendar h =>
    exact .still (.of_sessions rfl rfl rfl h.playbacks h.streamSeconds (Or.inl rfl) rfl)
  | alarm due k => exact .still (.of_sessions rfl rfl rfl rfl rfl (Or.inl rfl) rfl)

theorem Change.shift (h : Change c x x') : Shift c x x' := by
  cases h with
  | stir h => exact h.shift
  | @enroll port h =>
    refine .still ⟨rfl, rfl, rfl, rfl, rfl, Or.inl rfl, fun j s hj => ⟨s, ?_, .stays s⟩,
      fun j s' hj => ?_⟩
    · exact (List.getElem?_append_left (List.getElem?_eq_some_iff.mp hj).1).trans hj
    · by_cases hlt : j < x.sessions.length
      · exact Or.inl ⟨s', (List.getElem?_append_left hlt).symm.trans hj, .stays s'⟩
      · simp only [Exchange.enroll, List.getElem?_append_right (Nat.le_of_not_lt hlt)] at hj
        obtain ⟨_, hs⟩ := List.getElem?_eq_some_iff.mp hj
        refine Or.inr ⟨List.getElem?_eq_none (Nat.le_of_not_lt hlt), port, ?_⟩
        simpa using hs.symm
  | @leave i s hi h =>
    obtain ⟨hstays, hcomes⟩ := recedes_set hi (.leaves h) (sessions_leave hi)
    refine .still ⟨?_, ?_, ?_, ?_, ?_, Or.inl ?_, hstays, hcomes⟩ <;> rw [leave_eq hi] <;> rfl
  | vacate hi h hjoined =>
    have hsessions : (x.vacate _).sessions = _ := sessions_stepSession hi
    obtain ⟨hstays, hcomes⟩ := recedes_set hi (.vacates h hjoined) hsessions
    refine .still ⟨?_, ?_, ?_, ?_, ?_, Or.inl ?_, hstays, hcomes⟩ <;>
      rw [Exchange.vacate, stepSession_some hi] <;> rfl

theorem Beat.shift (h : Beat c x x') : Shift c x x' := by
  cases h with
  | change h => exact h.shift
  | @enter i s r hi hregistered hopen hnew =>
    rw [Exchange.enter, stepSession_some hi]
    exact .move hi (.enter s r) ⟨hnew, hregistered, hopen⟩
  | clock hnow _ agenda => exact .clock hnow agenda

/-! ## Operations -/

theorem stirs_of_moves {now : Nat} {s s' : Session} {es : List Effect}
    (hs : Moves c now cues s es s') (hcues : ∀ cue ∈ cues, cue.Own) (hnow : x.now = now)
    (hi : x.sessions[i]? = some s) :
    Stirs c x (es.foldl (perform i) { x with sessions := x.sessions.set i s' }) := by
  refine chain_of_moves (fun y cue t t' es hcue hy hi hm => ?_) hs hnow hi
  subst hy
  exact .move hi hm (hcues cue hcue)

theorem stepSession_stirs {f : Session → Session × List Effect}
    (hf : ∀ s, Moves c x.now cues s (f s).2 (f s).1) (hcues : ∀ cue ∈ cues, cue.Own) :
    Stirs c x (x.stepSession i f) := by
  cases hi : x.sessions[i]? with
  | none =>
    rw [stepSession_none hi]
  | some s =>
    rw [stepSession_some hi]
    exact stirs_of_moves (hf s) hcues rfl hi

variable (c x)

theorem mark_stirs (i : Nat) : Stirs c x (x.mark .listening i) :=
  stepSession_stirs (f := fun s => (s.advanceTo .listening, []))
    (fun s => (Move.mark s (by decide)).moves) (by simp [Cue.Own])

theorem receive_stirs (i : Nat) (sender : SocketAddr) : Stirs c x (x.receive c i sender) :=
  stepSession_stirs (fun s => Session.receive_moves c x.now sender s) (by simp [Cue.Own])

theorem endProgram_stirs (i : Nat) (ending : Ending) (held : Bool) :
    Stirs c x (x.endProgram c i ending held) :=
  stepSession_stirs (fun s => Session.endProgram_moves c x.now ending held s) (by simp [Cue.Own])

theorem closeOutput_stirs (i : Nat) : Stirs c x (x.closeOutput c i) :=
  stepSession_stirs (fun s => Session.closeOutput_moves c x.now s) (by simp [Cue.Own])

theorem close_stirs (i : Nat) : Stirs c x (x.close i) :=
  stepSession_stirs (fun s => Session.close_moves c x.now s) (by simp [Cue.Own])

theorem ring_stirs (a : Alarm) : Stirs c x (x.ring c a) := by
  unfold ring
  split
  · exact stepSession_stirs (fun s => Session.wake_moves c x.now _ s) (by simp [Cue.Own])
  · exact .refl

theorem prune_stirs (retention : Nat) : Stirs c x (x.prune retention).2 := by
  have htick : Stir c x x.tick := .note _ ⟨rfl, rfl, rfl, rfl, rfl⟩
  unfold prune
  dsimp only
  split
  · next n tracker h => exact .tail (.single htick) (.prune h)
  · exact .single htick

variable {c x}

theorem Bout.stirs (h : Bout c x x') : Stirs c x x' := by
  cases h with
  | listen i => exact mark_stirs c x i
  | receive i sender => exact receive_stirs c x i sender
  | endProgram i ending held => exact endProgram_stirs c x i ending held
  | closeOutput i => exact closeOutput_stirs c x i
  | close i => exact close_stirs c x i
  | ring a => exact ring_stirs c x a
  | prune retention => exact prune_stirs c x retention
  | note h => exact .single (.note x.calendar h)
  | alarm due k => exact .single (.alarm due k)

theorem stepSession_countLeaving (f : Session → Session × List Effect) (x : Exchange) :
    x.countLeaving.stepSession i f = (x.stepSession i f).countLeaving := by
  have hperform : ∀ (y : Exchange) e, perform i y.countLeaving e = (perform i y e).countLeaving :=
    fun y e => by cases e <;> rfl
  cases hi : x.sessions[i]? with
  | none =>
    rw [stepSession_none hi]
    exact stepSession_none hi
  | some s =>
    rw [stepSession_some hi]
    have hsome : x.countLeaving.stepSession i f = (f s).2.foldl (perform i)
        { x with sessions := x.sessions.set i (f s).1 }.countLeaving := stepSession_some hi
    rw [hsome]
    exact List.foldl_hom countLeaving hperform

/-- A session that is removed, and hands its tasks over, leaves its port first, and is closed
then. -/
theorem remove_leaving {port : Port} (h : x.numberAt? port = some i) :
    ∃ x', x.remove port .leaving = (some i, x') ∧
      x'.stepSession i (fun s => (s.yield, [])) = (x.leave i).close i := by
  let stood := x.stepSession i fun s => ({ s with standing := .leaving }, [])
  have hremove : x.remove port .leaving = (some i, (stood.close i).countLeaving) := by
    unfold remove
    rw [h]
    rfl
  refine ⟨_, hremove, ?_⟩
  have hyield : (stood.close i).stepSession i (fun s => (s.yield, [])) =
      (x.stepSession i fun s => (s.leave, [])).close i := by
    simp only [stood, close, stepSession_stepSession, now_stepSession, Session.close_leave,
      List.append_nil, List.nil_append]
  rw [stepSession_countLeaving, hyield]
  exact (stepSession_countLeaving _ _).symm

theorem play_ok {port : Port} {payload : ByteArray} {format : Option String} {id id' : Uuid}
    (h : (x.play c port payload format id).1 = .ok id') :
    id' = id ∧ ∃ i s f, x.numberAt? port = some i ∧ x.sessions[i]? = some s ∧
      s.isClosed = false ∧ (x.play c port payload format id).2 =
        x.stepSession i (·.accept c x.now ⟨id, payload, f⟩) := by
  unfold play at h ⊢
  split at h
  · cases h
  · next f i hplace =>
    obtain ⟨hnumber, -, s, hi, hopen⟩ := refusalOrPlace_ok x hplace
    exact ⟨(Except.ok.inj h).symm, i, s, f, hnumber, hi, hopen, rfl⟩

theorem play_error {port : Port} {payload : ByteArray} {format : Option String} {id : Uuid}
    {e : Fault} (h : (x.play c port payload format id).1 = .error e) :
    (x.play c port payload format id).2 = x := by
  unfold play at h ⊢
  split at h
  · rfl
  · cases h

theorem registered_of_numberAt? {port : Port} (h : x.numberAt? port = some i) :
    ∃ s, x.sessions[i]? = some s ∧ s.standing = .registered ∧ s.port = port := by
  obtain ⟨hlt, hat, -⟩ := List.findIdx?_eq_some_iff_getElem.mp h
  refine ⟨_, List.getElem?_eq_getElem hlt, ?_⟩
  simpa [isAt] using hat

/-- Who is accepted is entered first, and looks then. -/
theorem accept_stirs {r : Request} {s : Session} (hi : x.sessions[i]? = some s) :
    Stirs c (x.enter c i r) (x.stepSession i (·.accept c x.now r)) := by
  have hi' : (x.enter c i r).sessions[i]? = some (s.enter c x.now r).1 := session_stepSession hi
  rw [stepSession_accept, ← Exchange.enter, stepSession_some hi']
  exact stirs_of_moves (Session.look_moves c x.now
    (List.mem_append_right _ (List.mem_singleton_self _))) (by simp [Cue.Own]) now_stepSession hi'

end Exchange

end RtpBroker
