import RtpBroker.Proofs.Lagging

/-!
# The isolation of ports

All sessions share the registry, the tracker, the metrics, the clock and the alarms. Even
so, what can be seen of the sessions on one port and of their playbacks does not depend
on what happens to the sessions on other ports: it is the same if that never happened.
-/

namespace RtpBroker.Exchange

variable {c : PlaySetup} {asked : Request → Prop} {p : Port} {x y : Exchange} {i : Nat}
  {s : Session}

/-! ## What happens where -/

/-- What happens within a session. -/
inductive Action
  | mark (state : SessionState) (h : state ≠ .closed)
  | receive (sender : SocketAddr)
  | endProgram (ending : Ending) (held : Bool)
  | closeOutput
  | close

def Action.event (session : Nat) : Action → Event
  | .mark state h => .mark session state h
  | .receive sender => .receive session sender
  | .endProgram ending held => .endProgram session ending held
  | .closeOutput => .closeOutput session
  | .close => .close session

/-- What happens to an exchange. A session is addressed by its port and its number among the
sessions that were ever opened on the port. -/
inductive Happening
  | create (port : Port)
  | play (port : Port) (payload : ByteArray) (format : Option String) (id : Uuid)
  | remove (port : Port) (standing : Standing)
  | session (port : Port) (number : Nat) (action : Action)
  | advance (ms : Nat)
  /-- The calendar goes on by some seconds. -/
  | date (seconds : Nat)
  | prune (retention : Nat)

def Happening.port? : Happening → Option Port
  | .create port | .play port _ _ _ | .remove port _ | .session port _ _ => some port
  | .advance _ | .date _ | .prune _ => none

/-- Whether something happens on the port, or to all ports at once. -/
def Happening.concerns (p : Port) (h : Happening) : Bool := h.port?.all (· == p)

def Happening.playback? : Happening → Option Uuid
  | .play _ _ _ id => some id
  | _ => none

/-- The session with a number among those on a port. -/
def nthOn? (port : Port) (number : Nat) (x : Exchange) : Option Nat :=
  (x.sessions.findIdxs (·.port == port))[number]?

def happen (c : PlaySetup) (x : Exchange) : Happening → Exchange
  | .create port => x.apply c (.create port)
  | .play port payload format id => x.apply c (.play port payload format id)
  | .remove port standing => x.apply c (.remove port standing)
  | .session port number action =>
    match x.nthOn? port number with
    | some i => x.apply c (action.event i)
    | none => x
  | .advance ms => x.apply c (.advance ms)
  | .date seconds => { x with calendar := ⟨x.calendar.seconds + seconds, x.calendar.nanos⟩ }
  | .prune retention => x.apply c (.prune retention)

/-! ## What can be seen of a port -/

structure SessionView where
  standing : Standing
  state : SessionState
  remote : Option SocketAddr
  packets : Nat
  /-- Whether it is idle for more than a limit. -/
  isIdle : Nat → Bool
  isBusy : Bool

structure PlaybackView where
  id : Uuid
  phase : Phase
  exitCode : Option Int
  fault : Option String

structure PortView where
  sessions : List SessionView
  playbacks : List PlaybackView

def viewOf (p : Port) (x : Exchange) : PortView where
  sessions := (x.sessions.filter (·.port == p)).map fun s =>
    { standing := s.standing, state := s.state, remote := s.remote, packets := s.packets
      isIdle := fun limit => s.isIdle limit x.now, isBusy := s.isBusy }
  playbacks := (x.tracker.onPort p).map fun r =>
    { id := r.id, phase := r.phase, exitCode := r.exitCode, fault := r.fault }

/-- What is seen of the port after everything that happens to it. -/
def observed (c : PlaySetup) (p : Port) : List Happening → Exchange → List PortView
  | [], _ => []
  | h :: hs, x =>
    let x' := x.happen c h
    if h.concerns p then x'.viewOf p :: observed c p hs x' else observed c p hs x'

/-! ## Actions -/

def Action.does (c : PlaySetup) (now : Nat) : Action → Session → Session × List Effect
  | .mark state _ => fun s => (s.advanceTo state, [])
  | .receive sender => fun s => s.receive c now sender
  | .endProgram ending held => fun s => s.endProgram c now ending held
  | .closeOutput => fun s => s.closeOutput c now
  | .close => fun s => s.close now

theorem Action.apply_event (a : Action) (x : Exchange) (i : Nat) :
    x.apply c (a.event i) = x.stepSession i (a.does c x.now) := by
  cases a <;> rfl

theorem Action.playback?_event (a : Action) (i : Nat) : (a.event i).playback? = none := by
  cases a <;> rfl

theorem Action.discreet (a : Action) (now : Nat) (s : Session) (fresh : Uuid → Prop) :
    s.Discreet fresh (a.does c now s).1 (a.does c now s).2 := by
  cases a with
  | mark state h =>
    have hmove : Session.Move c now (.mark state) s [] (s.advanceTo state) := .mark s h
    exact hmove.discreet.mono (by simp)
  | receive sender => exact (Session.receive_moves c now sender s).discreet.mono (by simp)
  | endProgram ending held =>
    exact (Session.endProgram_moves c now ending held s).discreet.mono (by simp)
  | closeOutput => exact (Session.closeOutput_moves c now s).discreet.mono (by simp)
  | close => exact (Session.close_moves c now s).discreet.mono (by simp)

/-! ## What happens to both -/

theorem session_of_nthOn? {port : Port} {number : Nat} (h : x.nthOn? port number = some i) :
    ∃ s, x.sessions[i]? = some s ∧ s.port = port ∧ x.numberOn port i = number := by
  obtain ⟨s, hi, hport, hnumber⟩ := getElem?_findIdxs h
  exact ⟨s, hi, by simpa using hport, (numberOn_eq port x i).trans hnumber⟩

theorem Mirrors.nthOn? (h : Mirrors p x y) (number : Nat) :
    y.nthOn? p number = (x.nthOn? p number).map fun _ => number := by
  rw [Exchange.nthOn?, Exchange.nthOn?, h.sessions, findIdxs_filter]
  by_cases hlt : number < x.sessions.countP (·.port == p)
  · rw [List.getElem?_range' hlt, List.getElem?_eq_getElem (by rwa [List.length_findIdxs])]
    simp
  · rw [List.getElem?_eq_none (by simpa using hlt), List.getElem?_eq_none (by simpa using hlt)]
    rfl

theorem Mirrors.viewOf (h : Mirrors p x y) (hnow : y.now = x.now) :
    y.viewOf p = x.viewOf p := by
  have hsessions : y.sessions.filter (·.port == p) = x.sessions.filter (·.port == p) := by
    rw [h.sessions, List.filter_filter]
    simp
  have hrecords : y.tracker.onPort p = x.tracker.onPort p := by
    rw [h.tracker, Tracker.narrow, Tracker.onPort, Tracker.onPort, List.filter_filter]
    simp
  rw [Exchange.viewOf, Exchange.viewOf, hsessions, hrecords, hnow]

theorem happen_cases (c : PlaySetup) (x : Exchange) (h : Happening) :
    (∃ e, x.happen c h = x.apply c e ∧ e.playback? = h.playback?) ∨
      h.playback? = none ∧ ∃ calendar, x.happen c h = { x with calendar } := by
  cases h with
  | session port number action =>
    cases hi : x.nthOn? port number with
    | none => exact Or.inr ⟨rfl, x.calendar, by rw [happen, hi]⟩
    | some i => exact Or.inl ⟨action.event i, by rw [happen, hi], action.playback?_event i⟩
  | date seconds => exact Or.inr ⟨rfl, _, rfl⟩
  | create port => exact Or.inl ⟨.create port, rfl, rfl⟩
  | play port payload format id => exact Or.inl ⟨.play port payload format id, rfl, rfl⟩
  | remove port standing => exact Or.inl ⟨.remove port standing, rfl, rfl⟩
  | advance ms => exact Or.inl ⟨.advance ms, rfl, rfl⟩
  | prune retention => exact Or.inl ⟨.prune retention, rfl, rfl⟩

/-- What happens finds the exchange at rest and leaves it so, and no other playback is heard of. -/
theorem Rests.happen {h : Happening} (hx : Rests c (fun _ => True) x)
    (hnew : ∀ id, h.playback? = some id → x.story id = []) :
    Rests c (fun _ => True) (x.happen c h) ∧
      ∀ id, h.playback? ≠ some id → x.story id = [] → (x.happen c h).story id = [] := by
  rcases happen_cases c x h with ⟨e, heq, he⟩ | ⟨-, calendar, heq⟩
  · have hrests := hx.apply e (he ▸ hnew) fun _ _ => trivial
    rw [heq]
    exact ⟨hrests, fun id hid hnil => hrests.story_eq_nil hnil (he ▸ hid)⟩
  · rw [heq]
    have htick : Steps c [] x { x with calendar } := .single (.tick x calendar x.metrics)
    exact ⟨hx.steps htick (by simp) (by simp), fun id _ hnil => hnil⟩

def Happening.duration : Happening → Nat
  | .advance ms => ms
  | _ => 0

theorem now_happen (x : Exchange) (h : Happening) : (x.happen c h).now = x.now + h.duration := by
  have happly : ∀ e : Event, (∀ ms, e ≠ .advance ms) → (x.apply c e).now = x.now :=
    fun e he => (apply_steps c x e he).now
  cases h with
  | session port number action =>
    cases hi : x.nthOn? port number with
    | none =>
      rw [happen, hi]
      rfl
    | some i =>
      rw [happen, hi]
      exact happly _ fun ms => by cases action <;> simp [Action.event]
  | advance ms => rfl
  | date seconds => rfl
  | _ => exact happly _ (by simp)

/-- What happens on the port, or to all ports, happens to both alike. -/
theorem Mirrors.follows {h : Happening} (hxy : Mirrors p x y) (hnow : y.now = x.now)
    (hx : Rests c asked x) (hp : h.concerns p = true) :
    Mirrors p (x.happen c h) (y.happen c h) := by
  have hport : ∀ port, h.port? = some port → port = p := fun port heq => by
    simpa [Happening.concerns, heq] using hp
  cases h with
  | create port =>
    obtain rfl := hport port rfl
    exact hxy.create hnow
  | play port payload format id =>
    obtain rfl := hport port rfl
    exact hxy.play hnow payload format id
  | remove port standing =>
    obtain rfl := hport port rfl
    exact hxy.remove hnow standing
  | session port number action =>
    obtain rfl := hport port rfl
    have hnumber := hxy.nthOn? number
    cases hi : x.nthOn? port number with
    | none =>
      rw [hi] at hnumber
      rw [happen, hi, happen, hnumber]
      exact hxy
    | some i =>
      rw [hi] at hnumber
      obtain ⟨s, hs, hsport, hnumberOn⟩ := session_of_nthOn? hi
      have hdiscreet := action.discreet (c := c) x.now s fun _ => False
      have hhere := hxy.here hnow hs hsport hdiscreet
      rw [happen, hi, happen, hnumber]
      dsimp only [Option.map_some]
      rw [action.apply_event, action.apply_event, hnow]
      rwa [hnumberOn] at hhere
  | advance ms => exact hxy.advance hnow hx.reached hx.punctual ms
  | date seconds =>
    refine ⟨?_, hxy.sessions, hxy.tracker, hxy.placed, hxy.agenda⟩
    rw [happen, happen, hxy.calendar]
  | prune retention => exact hxy.prune retention

/-- What happens on another port changes nothing that the port has. -/
theorem Mirrors.ignores {h : Happening} (hxy : Mirrors p x y) (hnow : y.now = x.now)
    (hx : Rests c asked x) (hp : h.concerns p = false)
    (hnew : ∀ id, h.playback? = some id → x.story id = []) :
    Mirrors p (x.happen c h) y ∧ y.now = (x.happen c h).now := by
  have hport : ∀ port, h.port? = some port → port ≠ p := fun port heq => by
    simpa [Happening.concerns, heq] using hp
  rw [now_happen]
  cases h with
  | create port => exact ⟨hxy.create_elsewhere (hport port rfl), hnow⟩
  | play port payload format id =>
    exact ⟨hxy.play_elsewhere hx.reached (hport port rfl) (hnew id rfl) payload format, hnow⟩
  | remove port standing =>
    exact ⟨hxy.remove_elsewhere hx.reached (hport port rfl) standing, hnow⟩
  | session port number action =>
    refine ⟨?_, hnow⟩
    cases hi : x.nthOn? port number with
    | none =>
      rw [happen, hi]
      exact hxy
    | some i =>
      obtain ⟨s, hs, hsport, -⟩ := session_of_nthOn? hi
      rw [happen, hi]
      dsimp only
      rw [action.apply_event]
      exact hxy.elsewhere hx.reached hs (hsport ▸ hport port rfl) (action.discreet x.now s _)
  | advance ms => cases hp
  | date seconds => cases hp
  | prune retention => cases hp

theorem Mirrors.observed {hs : List Happening} (hxy : Mirrors p x y) (hnow : y.now = x.now)
    (hx : Rests c (fun _ => True) x) (hfresh : (hs.filterMap Happening.playback?).Nodup)
    (hnew : ∀ id ∈ hs.filterMap Happening.playback?, x.story id = []) :
    observed c p hs x = observed c p (hs.filter (Happening.concerns p)) y := by
  induction hs generalizing x y with
  | nil => rfl
  | cons h hs ih =>
    obtain ⟨hfresh', hapart⟩ := nodup_filterMap_cons.mp hfresh
    have hfirst : ∀ id, h.playback? = some id → x.story id = [] := fun id hid =>
      hnew id (mem_filterMap_cons.mpr (.inl hid))
    obtain ⟨hx', hunheard⟩ := hx.happen hfirst
    have hnew' : ∀ id ∈ hs.filterMap Happening.playback?, (x.happen c h).story id = [] :=
      fun id hid => hunheard id (fun heq => hapart id heq hid)
        (hnew id (mem_filterMap_cons.mpr (.inr hid)))
    cases hp : h.concerns p with
    | true =>
      have hnow' : (y.happen c h).now = (x.happen c h).now := by rw [now_happen, now_happen, hnow]
      have hxy' := hxy.follows hnow hx hp
      rw [List.filter_cons_of_pos hp, Exchange.observed, Exchange.observed, hp,
        hxy'.viewOf hnow', ih hxy' hnow' hx' hfresh' hnew']
    | false =>
      obtain ⟨hxy', hnow'⟩ := hxy.ignores hnow hx hp hfirst
      rw [List.filter_cons_of_neg (by simp [hp]), Exchange.observed, hp]
      exact ih hxy' hnow' hx' hfresh' hnew'

/-- Whatever happens on other ports, what is seen of the sessions on a port and of their playbacks,
after everything that happens on the port or to all ports at once, is what would be seen if nothing
had happened on the others. -/
theorem ports_isolated (c : PlaySetup) (p : Port) (calendar : Timestamp) (hs : List Happening)
    (hfresh : (hs.filterMap Happening.playback?).Nodup) :
    observed c p hs { calendar } =
      observed c p (hs.filter (Happening.concerns p)) { calendar } := by
  have hstart : Mirrors p { calendar } { calendar } := ⟨rfl, rfl, rfl, by simp [Agenda.Placed], rfl⟩
  exact hstart.observed rfl (rests_start calendar) hfresh fun _ _ => rfl

/-- Two calls at one time: the peer of one is heard, and it streams, ends and is taken off its port;
the playback of the other one waits in vain. -/
def twoCalls : List Happening := [
  .create 40000, .create 40002, .play 40002 ⟨#[1]⟩ none ⟨2⟩, .play 40000 ⟨#[1]⟩ none ⟨1⟩,
  .session 40002 0 (.receive ⟨.v4 192 0 2 1, 5004, 0⟩), .advance 500,
  .session 40002 0 (.endProgram (.exit (some 0)) false), .remove 40002 .dismissed, .advance 4500,
  .date 60, .prune 30]

theorem ports_isolated_twoCalls :
    (twoCalls.filterMap Happening.playback?).Nodup ∧
      (twoCalls.filter (Happening.concerns 40000)).length = 6 ∧
      observed {} 40000 twoCalls {} =
        observed {} 40000 (twoCalls.filter (Happening.concerns 40000)) {} ∧
      (observed {} 40000 twoCalls {}).map (·.playbacks.map (·.phase)) =
        [[], [.waiting], [.waiting], [.timedOut], [.timedOut], []] := by
  have hfresh : (twoCalls.filterMap Happening.playback?).Nodup := by decide
  have hsame := ports_isolated {} 40000 ⟨0, 0⟩ twoCalls hfresh
  have hphases : (observed {} 40000 (twoCalls.filter (Happening.concerns 40000)) {}).map
      (·.playbacks.map (·.phase)) =
        [[], [.waiting], [.waiting], [.timedOut], [.timedOut], []] := by decide +kernel
  exact ⟨hfresh, rfl, hsame, hsame ▸ hphases⟩

end RtpBroker.Exchange
