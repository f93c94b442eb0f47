import RtpBroker.Proofs.FirstSender
import RtpBroker.Proofs.Narrowing

/-!
# Exchanges that mirror a port

An exchange mirrors a port of another if it has just what the port has: the sessions that
were opened on it, the records of their playbacks, and the alarms that are still to go off.
-/

namespace RtpBroker.Exchange

variable {c : PlaySetup} {asked : Request → Prop} {p : Port} {x y : Exchange} {i : Nat}
  {s : Session} {f : Session → Session × List Effect}

def places (x : Exchange) : List Port := x.sessions.map (·.port)

/-- The number of a session among those on the port. -/
def numberOn (p : Port) (x : Exchange) (i : Nat) : Nat := (x.places.take i).count p

/-- `y` has just what the port has of `x`. Alarms that have gone off do not count: they may still be
on one of the agendas. -/
structure Mirrors (p : Port) (x y : Exchange) : Prop where
  calendar : y.calendar = x.calendar
  sessions : y.sessions = x.sessions.filter (·.port == p)
  tracker : y.tracker = x.tracker.narrow p
  placed : x.agenda.Placed x.places
  agenda : y.agenda.after y.now = (x.agenda.narrow p x.places).after x.now

theorem place_of_session (hi : x.sessions[i]? = some s) : x.places[i]? = some s.port := by
  rw [places, List.getElem?_map, hi]
  rfl

theorem numberOn_eq (p : Port) (x : Exchange) (i : Nat) :
    x.numberOn p i = (x.sessions.take i).countP (·.port == p) := by
  rw [numberOn, places, ← List.map_take, List.count, List.countP_map]
  rfl

theorem places_set {s' : Session} (hi : x.sessions[i]? = some s) (hport : s'.port = s.port) :
    { x with sessions := x.sessions.set i s' }.places = x.places := by
  obtain ⟨hlt, rfl⟩ := List.getElem?_eq_some_iff.mp hi
  change (x.sessions.set i s').map (·.port) = x.sessions.map (·.port)
  rw [List.map_set, hport, ← List.map_set, List.set_getElem_self]

theorem places_stepSession (hi : x.sessions[i]? = some s) (hport : (f s).1.port = s.port) :
    (x.stepSession i f).places = x.places := by
  rw [← places_set hi hport, places, sessions_stepSession hi]
  rfl

theorem Mirrors.session (h : Mirrors p x y) (hi : x.sessions[i]? = some s) (hp : s.port = p) :
    y.sessions[x.numberOn p i]? = some s := by
  rw [h.sessions, numberOn_eq]
  exact getElem?_filter_countP hi (by simpa using hp)

theorem agenda_stepSession (hi : x.sessions[i]? = some s) :
    (x.stepSession i f).agenda = x.agenda ++ (f s).2.filterMap (Effect.alarm? i) := by
  rw [stepSession_some hi, agenda_performs]

theorem calendar_stepSession : (x.stepSession i f).calendar = x.calendar := by
  unfold stepSession
  split
  · rfl
  · exact calendar_performs _

theorem tracker_stepSession (hi : x.sessions[i]? = some s) :
    (x.stepSession i f).tracker = (f s).2.foldl (Tracker.note x.calendar) x.tracker := by
  rw [stepSession_some hi, tracker_performs]

theorem placed_stepSession (h : x.agenda.Placed x.places) (hi : x.sessions[i]? = some s)
    (hport : (f s).1.port = s.port) :
    (x.stepSession i f).agenda.Placed (x.stepSession i f).places := by
  rw [places_stepSession hi hport, agenda_stepSession hi]
  intro a ha j id hsleeper
  rcases List.mem_append.mp ha with ha | ha
  · exact h a ha j id hsleeper
  · obtain ⟨e, -, he⟩ := List.mem_filterMap.mp ha
    obtain rfl : i = j := by
      cases e with
      | alarm due k =>
        cases he
        exact (Sleeper.playback.inj hsleeper).1
      | _ => cases he
    exact (List.getElem?_eq_some_iff.mp (place_of_session hi)).1

/-- What a session on the port does it does in both alike. -/
theorem Mirrors.here {fresh : Uuid → Prop} (h : Mirrors p x y) (hnow : y.now = x.now)
    (hi : x.sessions[i]? = some s) (hp : s.port = p) (hf : s.Discreet fresh (f s).1 (f s).2) :
    Mirrors p (x.stepSession i f) (y.stepSession (x.numberOn p i) f) := by
  have hi' := h.session hi hp
  have hplace : x.places[i]? = some p := hp ▸ place_of_session hi
  refine ⟨?_, ?_, ?_, placed_stepSession h.placed hi hf.port, ?_⟩
  · rw [calendar_stepSession, calendar_stepSession, h.calendar]
  · rw [sessions_stepSession hi', sessions_stepSession hi, h.sessions, numberOn_eq,
      filter_set_of_pos hi (by simpa using hp) (by simpa using hf.port.trans hp)]
  · rw [tracker_stepSession hi', tracker_stepSession hi, h.calendar, h.tracker,
      Tracker.narrow_notes fun id port hmem => (hf.enters id port hmem).trans hp]
  · rw [agenda_stepSession hi', agenda_stepSession hi, places_stepSession hi hf.port,
      now_stepSession, now_stepSession, Agenda.after_append, h.agenda, Agenda.narrow_append,
      Effect.narrow_alarms hplace, Agenda.after_append, hnow, numberOn]

/-- What a session elsewhere does changes nothing that the port has. -/
theorem Mirrors.elsewhere (h : Mirrors p x y) (hx : Reached c asked x)
    (hi : x.sessions[i]? = some s) (hp : s.port ≠ p)
    (hf : s.Discreet (fun id => x.story id = []) (f s).1 (f s).2) :
    Mirrors p (x.stepSession i f) y := by
  refine ⟨?_, ?_, ?_, placed_stepSession h.placed hi hf.port, ?_⟩
  · rw [calendar_stepSession, h.calendar]
  · rw [sessions_stepSession hi, h.sessions,
      filter_set_of_neg hi (by simpa using hp) (by simpa [hf.port] using hp)]
  · rw [tracker_stepSession hi, h.tracker, Tracker.narrow_notes_of_ne]
    · exact fun id port hmem => hf.enters id port hmem ▸ hp
    · intro e he id hid r hr hrid
      rw [hx.owned hi (hf.about e he id hid) r hr hrid]
      exact hp
  · rw [agenda_stepSession hi, places_stepSession hi hf.port, now_stepSession, h.agenda,
      Agenda.narrow_append, Effect.narrow_alarms_of_ne (place_of_session hi) hp, List.append_nil]

/-! ## The registry -/

theorem Mirrors.numberAt? (h : Mirrors p x y) :
    y.numberAt? p = (x.numberAt? p).map (x.numberOn p) := by
  have hat : ∀ s, isAt p s = true → (s.port == p) = true := by simp [isAt]
  rw [Exchange.numberAt?, Exchange.numberAt?, h.sessions, findIdx?_filter hat]
  congr 1
  funext i
  exact (numberOn_eq p x i).symm

theorem Mirrors.sessionAt? (h : Mirrors p x y) : y.sessionAt? p = x.sessionAt? p := by
  rw [Exchange.sessionAt?, Exchange.sessionAt?, h.sessions, List.find?_filter]
  congr 1
  funext s
  rw [Bool.eq_iff_iff, decide_eq_true_iff]
  exact and_iff_right_of_imp fun hat => by simp_all [isAt]

theorem Mirrors.opened {sessions : List Session} (h : Mirrors p x y) (port : Port)
    (hsessions : sessions = (x.sessions ++ [Session.opened port x.now]).filter (·.port == p))
    (metrics metrics' : Metrics) :
    Mirrors p { x with sessions := x.sessions ++ [Session.opened port x.now], metrics }
      { y with sessions, metrics := metrics' } := by
  let x' : Exchange := { x with sessions := x.sessions ++ [Session.opened port x.now], metrics }
  have hplaces : x'.places = x.places ++ [port] := List.map_append ..
  refine ⟨h.calendar, hsessions, h.tracker, fun a ha i id hsleeper => ?_, ?_⟩
  · have hi := h.placed a ha i id hsleeper
    rw [hplaces, List.length_append]
    exact Nat.lt_of_lt_of_le hi (Nat.le_add_right _ _)
  · change y.agenda.after y.now = (x.agenda.narrow p x'.places).after x.now
    rw [hplaces, h.placed.narrow_opened, h.agenda]

theorem Mirrors.create (h : Mirrors p x y) (hnow : y.now = x.now) :
    Mirrors p (x.create p).2 (y.create p).2 := by
  have hnumber := h.numberAt?
  cases hi : x.numberAt? p with
  | some i =>
    rw [hi] at hnumber
    rw [create_some hi, create_some hnumber]
    exact h
  | none =>
    rw [hi] at hnumber
    rw [create_none hi, create_none hnumber]
    refine h.opened p ?_ _ _
    rw [hnow, h.sessions, List.filter_append]
    simp [Session.opened]

theorem Mirrors.create_elsewhere {port : Port} (h : Mirrors p x y) (hport : port ≠ p) :
    Mirrors p (x.create port).2 y := by
  cases hi : x.numberAt? port with
  | some i =>
    rw [create_some hi]
    exact h
  | none =>
    rw [create_none hi]
    refine h.opened port ?_ _ y.metrics
    rw [h.sessions, List.filter_append]
    simp [Session.opened, hport]

theorem Mirrors.refusalOrPlace (h : Mirrors p x y) (payload : ByteArray) (format : Option String) :
    y.refusalOrPlace p payload format =
      (x.refusalOrPlace p payload format).map fun place => (place.1, x.numberOn p place.2) := by
  unfold Exchange.refusalOrPlace
  split
  · rfl
  · split
    · rfl
    · rw [h.numberAt?, h.sessionAt?]
      cases x.numberAt? p with
      | none => rfl
      | some i =>
        cases x.sessionAt? p with
        | none => rfl
        | some s =>
          dsimp only [Option.map_some]
          split <;> rfl

theorem Mirrors.play (h : Mirrors p x y) (hnow : y.now = x.now) (payload : ByteArray)
    (format : Option String) (id : Uuid) :
    Mirrors p (x.play c p payload format id).2 (y.play c p payload format id).2 := by
  have hplace := h.refusalOrPlace payload format
  unfold Exchange.play
  cases hx : x.refusalOrPlace p payload format with
  | error e =>
    rw [hplace, hx]
    exact h
  | ok place =>
    obtain ⟨f, i⟩ := place
    rw [hplace, hx]
    obtain ⟨hnumber, -⟩ := refusalOrPlace_ok x hx
    obtain ⟨s, hi, -, hport⟩ := registered_of_numberAt? hnumber
    have haccept := (Session.accept_moves c x.now ⟨id, payload, f⟩ s).discreet
    dsimp only [Except.map]
    rw [hnow]
    exact h.here hnow hi hport haccept

theorem Mirrors.play_elsewhere {port : Port} {id : Uuid} (h : Mirrors p x y)
    (hx : Reached c asked x) (hport : port ≠ p) (hnew : x.story id = []) (payload : ByteArray)
    (format : Option String) : Mirrors p (x.play c port payload format id).2 y := by
  unfold Exchange.play
  split
  · exact h
  · next f i hplace =>
    obtain ⟨hnumber, -⟩ := refusalOrPlace_ok x hplace
    obtain ⟨s, hi, -, hs⟩ := registered_of_numberAt? hnumber
    have haccept := (Session.accept_moves c x.now ⟨id, payload, f⟩ s).discreet
    refine h.elsewhere hx hi (hs ▸ hport) (haccept.mono fun k hk => ?_)
    obtain rfl : k = id := by simpa using hk
    exact hnew

theorem dismiss_discreet (now : Nat) (s : Session) (standing : Standing)
    (fresh : Uuid → Prop) : s.Discreet fresh ({ s with standing }.close now).1
      ({ s with standing }.close now).2 := by
  have hclose := (Session.close_moves {} now { s with standing }).discreet
  exact ⟨hclose.port, hclose.enters, fun e he id hid =>
    Or.inl ((hclose.about e he id hid).resolve_right (by simp))⟩

theorem Mirrors.meter (h : Mirrors p x y) (metrics metrics' : Metrics) :
    Mirrors p { x with metrics } { y with metrics := metrics' } :=
  ⟨h.calendar, h.sessions, h.tracker, h.placed, h.agenda⟩

theorem Mirrors.remove (h : Mirrors p x y) (hnow : y.now = x.now) (standing : Standing) :
    Mirrors p (x.remove p standing).2 (y.remove p standing).2 := by
  have hnumber := h.numberAt?
  cases hi : x.numberAt? p with
  | none =>
    rw [hi] at hnumber
    rw [remove_none hi, remove_none hnumber]
    exact h
  | some i =>
    rw [hi] at hnumber
    obtain ⟨s, hs, -, hport⟩ := registered_of_numberAt? hi
    obtain ⟨metrics, hx⟩ := remove_some hi standing
    obtain ⟨metrics', hy⟩ := remove_some hnumber standing
    have hclose := dismiss_discreet x.now s standing fun _ => False
    rw [hx, hy, hnow]
    exact (h.here hnow hs hport hclose).meter _ _

theorem Mirrors.remove_elsewhere {port : Port} (h : Mirrors p x y) (hx : Reached c asked x)
    (hport : port ≠ p) (standing : Standing) : Mirrors p (x.remove port standing).2 y := by
  cases hi : x.numberAt? port with
  | none =>
    rw [remove_none hi]
    exact h
  | some i =>
    obtain ⟨s, hs, -, hsport⟩ := registered_of_numberAt? hi
    obtain ⟨metrics, heq⟩ := remove_some hi standing
    rw [heq]
    exact (h.elsewhere hx hs (hsport ▸ hport) (dismiss_discreet x.now s standing _)).meter _ _

theorem Mirrors.prune (h : Mirrors p x y) (retention : Nat) :
    Mirrors p (x.prune retention).2 (y.prune retention).2 := by
  unfold Exchange.prune
  have hcalendar : y.tick.calendar = x.tick.calendar := congrArg nextInstant h.calendar
  have htracker : y.tick.tracker = x.tick.tracker.narrow p := h.tracker
  dsimp only
  rw [hcalendar, htracker]
  rcases Tracker.prune_narrow p retention x.tick.calendar x.tick.tracker with
    ⟨n, n', t', ht, ht'⟩ | ⟨e, ht, ht'⟩
  · rw [ht, ht']
    exact ⟨rfl, h.sessions, rfl, h.placed, h.agenda⟩
  · rw [ht, ht']
    exact ⟨hcalendar, h.sessions, h.tracker, h.placed, h.agenda⟩

end RtpBroker.Exchange
