import Mathlib.Logic.Relation
import RtpBroker.Proofs.Posts

/-!
# Runs of the exchange

Whatever happens to the exchange is a chain of small steps: a session makes a
move, a session is opened or stands otherwise to the broker, or records are
dropped. Between the steps the clock may go on. An event says which cues the moves
in it may have.
-/

namespace RtpBroker

/-- How a session stands to the broker, and who has the handles of its tasks. -/
structure Footing where
  standing : Standing
  handles : List Uuid
  joined : List Uuid

namespace Session

def footing (s : Session) : Footing := ⟨s.standing, s.handles, s.joined⟩

def stand (f : Footing) (s : Session) : Session :=
  { s with standing := f.standing, handles := f.handles, joined := f.joined }

end Session

namespace Exchange

open Session (Cue Move Moves)

inductive Step (c : PlaySetup) (cues : List Cue) : Exchange → Exchange → Prop
  | move {x : Exchange} {i : Nat} {cue : Cue} {s s' : Session} {es : List Effect}
      (hcue : cue ∈ cues) (hi : x.sessions[i]? = some s) (h : Move c x.now cue s es s') :
      Step c cues x (es.foldl (perform i) { x with sessions := x.sessions.set i s' })
  | create (x : Exchange) (port : Port) (metrics : Metrics) :
      Step c cues x { x with sessions := x.sessions ++ [Session.opened port x.now], metrics }
  | stand {x : Exchange} {i : Nat} {s : Session} (hi : x.sessions[i]? = some s)
      (footing : Footing) :
      Step c cues x { x with sessions := x.sessions.set i (s.stand footing) }
  | prune {x : Exchange} {retention n : Nat} {tracker : Tracker}
      (h : x.tracker.prune retention x.calendar = .ok (n, tracker)) :
      Step c cues x { x with tracker }
  | tick (x : Exchange) (calendar : Timestamp) (metrics : Metrics) :
      Step c cues x { x with calendar, metrics }

abbrev Steps (c : PlaySetup) (cues : List Cue) : Exchange → Exchange → Prop :=
  Relation.ReflTransGen (Step c cues)

/-- Steps in between which the clock may go on. -/
inductive Course (c : PlaySetup) (cues : List Cue) : Exchange → Exchange → Prop
  | refl (x : Exchange) : Course c cues x x
  | step {x x' x'' : Exchange} (h : Course c cues x x') (hs : Step c cues x' x'') :
      Course c cues x x''
  | clock {x x' : Exchange} (h : Course c cues x x') (now : Nat) (agenda : Agenda) :
      Course c cues x { x' with now, agenda }

section

variable {c : PlaySetup} {cues cues' : List Cue} {x x' : Exchange} {i : Nat}

theorem Step.mono (h : Step c cues x x') (hcues : cues ⊆ cues') : Step c cues' x x' := by
  cases h with
  | move hcue hi h => exact .move (hcues hcue) hi h
  | create port metrics => exact .create _ port metrics
  | stand hi footing => exact .stand hi footing
  | prune h => exact .prune h
  | tick calendar metrics => exact .tick _ calendar metrics

theorem Steps.course (h : Steps c cues x x') : Course c cues x x' := by
  induction h with
  | refl => exact .refl x
  | tail _ hs ih => exact ih.step hs

theorem Course.mono (h : Course c cues x x') (hcues : cues ⊆ cues') : Course c cues' x x' := by
  induction h with
  | refl => exact .refl _
  | step _ hs ih => exact ih.step (hs.mono hcues)
  | clock _ now agenda ih => exact ih.clock now agenda

theorem Course.trans {x'' : Exchange} (h : Course c cues x x') (h' : Course c cues x' x'') :
    Course c cues x x'' := by
  induction h' with
  | refl => exact h
  | step _ hs ih => exact ih.step hs
  | clock _ now agenda ih => exact ih.clock now agenda

/-- What holds between a session and what becomes of it in a move, and however it stands, holds
throughout a step. -/
theorem Step.relates {R : Session → Session → Prop} (hrefl : ∀ s, R s s)
    (hmove : ∀ cue ∈ cues, ∀ now s es s', Move c now cue s es s' → R s s')
    (hstand : ∀ (s : Session) footing, R s (s.stand footing)) (h : Step c cues x x')
    {s : Session} (hi : x.sessions[i]? = some s) : ∃ s', x'.sessions[i]? = some s' ∧ R s s' := by
  have hlt := (List.getElem?_eq_some_iff.mp hi).1
  cases h with
  | @move j cue s₁ s' es hcue hj hm =>
    by_cases hij : i = j
    · subst hij
      obtain rfl : s₁ = s := Option.some.inj (hj.symm.trans hi)
      exact ⟨s', session_moved hj, hmove cue hcue _ _ _ _ hm⟩
    · exact ⟨s, (session_unmoved hij).trans hi, hrefl s⟩
  | create port metrics => exact ⟨s, (List.getElem?_append_left hlt).trans hi, hrefl s⟩
  | @stand j s₁ hj footing =>
    by_cases hij : j = i
    · subst hij
      obtain rfl : s₁ = s := Option.some.inj (hj.symm.trans hi)
      exact ⟨s₁.stand footing, List.getElem?_set_self hlt, hstand s₁ footing⟩
    · exact ⟨s, (List.getElem?_set_ne hij).trans hi, hrefl s⟩
  | prune _ => exact ⟨s, hi, hrefl s⟩
  | tick _ _ => exact ⟨s, hi, hrefl s⟩

theorem Course.relates {R : Session → Session → Prop} (hrefl : ∀ s, R s s)
    (htrans : ∀ {s s' s''}, R s s' → R s' s'' → R s s'')
    (hmove : ∀ cue ∈ cues, ∀ now s es s', Move c now cue s es s' → R s s')
    (hstand : ∀ (s : Session) footing, R s (s.stand footing)) (h : Course c cues x x')
    {s : Session} (hi : x.sessions[i]? = some s) : ∃ s', x'.sessions[i]? = some s' ∧ R s s' := by
  induction h with
  | refl => exact ⟨s, hi, hrefl s⟩
  | step _ hs ih =>
    obtain ⟨s', hi', hR⟩ := ih
    obtain ⟨s'', hi'', hR'⟩ := hs.relates hrefl hmove hstand hi'
    exact ⟨s'', hi'', htrans hR hR'⟩
  | clock _ _ _ ih => exact ih

/-- What is so of a session when it is opened, and stays so in a move and however it stands, is so
of all sessions after a step if it was before. -/
theorem Step.everywhere {P : Session → Prop} (hopened : ∀ port now, P (Session.opened port now))
    (hstand : ∀ s footing, P s → P (s.stand footing))
    (hmove : ∀ cue ∈ cues, ∀ now s es s', Move c now cue s es s' → P s → P s')
    (h : Step c cues x x') (hx : ∀ (j : Nat) s, x.sessions[j]? = some s → P s) :
    ∀ (j : Nat) s, x'.sessions[j]? = some s → P s := by
  intro j t ht
  cases h with
  | @move i cue s s' es hcue hi hm =>
    rcases session_of_move ht with ⟨rfl, rfl⟩ | ⟨-, ht⟩
    · exact hmove cue hcue _ _ _ _ hm (hx j s hi)
    · exact hx j t ht
  | create port metrics =>
    rcases List.mem_append.mp (List.mem_of_getElem? ht) with hmem | hmem
    · obtain ⟨k, hk⟩ := List.mem_iff_getElem?.mp hmem
      exact hx k t hk
    · rw [List.mem_singleton.mp hmem]
      exact hopened port x.now
  | @stand i s hi footing =>
    rcases List.mem_or_eq_of_mem_set (List.mem_of_getElem? ht) with hmem | rfl
    · obtain ⟨k, hk⟩ := List.mem_iff_getElem?.mp hmem
      exact hx k t hk
    · exact hstand s footing (hx i s hi)
  | prune _ => exact hx j t ht
  | tick _ _ => exact hx j t ht

theorem Course.everywhere {P : Session → Prop} (hopened : ∀ port now, P (Session.opened port now))
    (hstand : ∀ s footing, P s → P (s.stand footing))
    (hmove : ∀ cue ∈ cues, ∀ now s es s', Move c now cue s es s' → P s → P s')
    (h : Course c cues x x') (hx : ∀ (j : Nat) s, x.sessions[j]? = some s → P s) :
    ∀ (j : Nat) s, x'.sessions[j]? = some s → P s := by
  induction h with
  | refl => exact hx
  | step _ hs ih => exact hs.everywhere hopened hstand hmove ih
  | clock _ _ _ ih => exact ih

theorem performs_sessions (es : List Effect) (x : Exchange) (sessions : List Session) :
    es.foldl (perform i) { x with sessions } = { es.foldl (perform i) x with sessions } := by
  induction es generalizing x with
  | nil => rfl
  | cons e es ih =>
    have hcomm : perform i { x with sessions } e = { perform i x e with sessions } := by
      cases e <;> rfl
    rw [List.foldl_cons, List.foldl_cons, hcomm]
    exact ih (perform i x e)

/-- What is so of every move of a session is so along a chain of them. -/
theorem chain_of_moves {R : Exchange → Exchange → Prop} {now : Nat} {s s' : Session}
    {es : List Effect}
    (hR : ∀ (y : Exchange) (cue : Cue) (t t' : Session) (es : List Effect), cue ∈ cues →
      y.now = now → y.sessions[i]? = some t → Move c now cue t es t' →
      R y (es.foldl (perform i) { y with sessions := y.sessions.set i t' }))
    (hs : Moves c now cues s es s') (hnow : x.now = now) (hi : x.sessions[i]? = some s) :
    Relation.ReflTransGen R x
      (es.foldl (perform i) { x with sessions := x.sessions.set i s' }) := by
  induction hs generalizing x with
  | refl s =>
    obtain ⟨hlt, rfl⟩ := List.getElem?_eq_some_iff.mp hi
    rw [List.set_getElem_self]
    exact .refl
  | @head cue s₁ s₂ s₃ es es' hcue hm _ ih =>
    let y := es.foldl (perform i) { x with sessions := x.sessions.set i s₂ }
    have hy : R x y := hR x cue s₁ s₂ es hcue hnow hi hm
    have hsessions : y.sessions = x.sessions.set i s₂ := sessions_performs es
    have hi' : y.sessions[i]? = some s₂ := session_moved hi
    have hrest := ih ((show y.now = x.now from now_performs es).trans hnow) hi'
    have hlast : es'.foldl (perform i) { y with sessions := y.sessions.set i s₃ } =
        (es ++ es').foldl (perform i) { x with sessions := x.sessions.set i s₃ } := by
      rw [hsessions, List.set_set, List.foldl_append, performs_sessions es]
      simp only [y, performs_sessions]
    rw [hlast] at hrest
    exact .head hy hrest

theorem steps_of_moves {now : Nat} {s s' : Session} {es : List Effect}
    (hs : Moves c now cues s es s') (hnow : x.now = now) (hi : x.sessions[i]? = some s) :
    Steps c cues x (es.foldl (perform i) { x with sessions := x.sessions.set i s' }) := by
  refine chain_of_moves (fun y cue t t' es hcue hy hi hm => ?_) hs hnow hi
  subst hy
  exact .move hcue hi hm

theorem stepSession_steps {f : Session → Session × List Effect}
    (hf : ∀ s, Moves c x.now cues s (f s).2 (f s).1) : Steps c cues x (x.stepSession i f) := by
  cases hi : x.sessions[i]? with
  | none =>
    rw [stepSession_none hi]
  | some s =>
    rw [stepSession_some hi]
    exact steps_of_moves (hf s) rfl hi

end

/-! ## Events -/

/-- What happens to the exchange from outside. -/
inductive Event
  | create (port : Port)
  | mark (session : Nat) (state : SessionState) (h : state ≠ .closed)
  | receive (session : Nat) (sender : SocketAddr)
  | play (port : Port) (payload : ByteArray) (format : Option String) (id : Uuid)
  | endProgram (session : Nat) (ending : Ending) (held : Bool)
  | closeOutput (session : Nat)
  | close (session : Nat)
  | remove (port : Port) (standing : Standing)
  | prune (retention : Nat)
  | advance (ms : Nat)

def apply (c : PlaySetup) (x : Exchange) : Event → Exchange
  | .create port => (x.create port).2
  | .mark session state _ => x.mark state session
  | .receive session sender => x.receive c session sender
  | .play port payload format id => (x.play c port payload format id).2
  | .endProgram session ending held => x.endProgram c session ending held
  | .closeOutput session => x.closeOutput c session
  | .close session => x.close session
  | .remove port standing => (x.remove port standing).2
  | .prune retention => (x.prune retention).2
  | .advance ms => x.advance c ms

def run (c : PlaySetup) (events : List Event) (x : Exchange) : Exchange := events.foldl (apply c) x

/-- The cues of the moves that an event may consist of. -/
def Event.cues : Event → List Cue
  | .receive _ sender => [.hear sender, .look]
  | .play _ _ _ id => [.enter id, .look]
  | .endProgram _ ending held => [.exit ending held, .look]
  | .closeOutput _ => [.settle false, .look]
  | .close _ | .remove _ _ => [.close]
  | .advance _ => [.settle true, .look]
  | .mark _ state _ => [.mark state]
  | .create _ | .prune _ => []

section

variable (c : PlaySetup) (x : Exchange)

theorem create_steps (port : Port) (cues : List Cue) : Steps c cues x (x.create port).2 := by
  unfold create
  split
  · exact .refl
  · exact .single (.create x port _)

theorem play_steps (port : Port) (payload : ByteArray) (format : Option String) (id : Uuid) :
    Steps c [.enter id, .look] x (x.play c port payload format id).2 := by
  unfold play
  split
  · exact .refl
  · next format i _ =>
    exact stepSession_steps fun s => Session.accept_moves c x.now ⟨id, payload, format⟩ s

theorem stepSession_stepSession (i : Nat) (f g : Session → Session × List Effect) :
    (x.stepSession i f).stepSession i g =
      x.stepSession i fun s => ((g (f s).1).1, (f s).2 ++ (g (f s).1).2) := by
  cases hi : x.sessions[i]? with
  | none => rw [stepSession_none hi, stepSession_none hi, stepSession_none hi]
  | some s =>
    have hi' : (x.stepSession i f).sessions[i]? = some (f s).1 := session_stepSession hi
    have hset := performs_sessions (i := i) (f s).2 { x with sessions := x.sessions.set i (f s).1 }
      (x.sessions.set i (g (f s).1).1)
    rw [stepSession_some hi', sessions_stepSession hi, List.set_set, stepSession_some hi,
      stepSession_some hi, List.foldl_append]
    exact congrArg (List.foldl (perform i) · (g (f s).1).2) hset.symm

theorem sessionAt?_of_numberAt? {port : Port} {i : Nat} (h : x.numberAt? port = some i) :
    x.sessionAt? port = x.sessions[i]? := by
  obtain ⟨hi, hat, hleast⟩ := List.findIdx?_eq_some_iff_getElem.mp h
  rw [List.getElem?_eq_getElem hi]
  refine List.find?_eq_some_iff_getElem.mpr ⟨hat, i, hi, rfl, fun j hj => ?_⟩
  simpa using hleast j hj

theorem stepSession_accept (i now : Nat) (r : Request) :
    x.stepSession i (·.accept c now r) = (x.stepSession i (·.enter c now r)).stepSession i
      (·.look c now ⟨r, now + c.ceiling⟩) := by
  rw [stepSession_stepSession]
  rfl

/-- A playback is accepted for the session registered on the port, if that is open. -/
theorem refusalOrPlace_ok {port : Port} {payload : ByteArray} {format : Option String}
    {f : String} {i : Nat} (h : x.refusalOrPlace port payload format = .ok (f, i)) :
    x.numberAt? port = some i ∧ AudioFormat.check format = .ok f ∧
      ∃ s, x.sessions[i]? = some s ∧ s.isClosed = false := by
  unfold refusalOrPlace at h
  split at h
  · cases h
  · split at h
    · cases h
    · next hformat =>
      split at h
      · next j s hnumber hsession =>
        split at h
        · cases h
        · next hopen =>
          cases h
          rw [sessionAt?_of_numberAt? x hnumber] at hsession
          exact ⟨hnumber, hformat, s, hsession, by simpa using hopen⟩
      · cases h

theorem play_cases (port : Port) (payload : ByteArray) (format : Option String) (id : Uuid) :
    (x.play c port payload format id).2 = x ∨
      ∃ i s f, x.sessions[i]? = some s ∧ s.isClosed = false ∧ AudioFormat.check format = .ok f ∧
        (x.play c port payload format id).2 =
          x.stepSession i (·.accept c x.now ⟨id, payload, f⟩) := by
  unfold play
  split
  · exact Or.inl rfl
  · next f i hplace =>
    obtain ⟨-, hformat, s, hi, hopen⟩ := refusalOrPlace_ok x hplace
    exact Or.inr ⟨i, s, f, hi, hopen, hformat, rfl⟩

theorem close_steps (i : Nat) : Steps c [.close] x (x.close i) :=
  stepSession_steps fun s => Session.close_moves c x.now s

theorem remove_steps (port : Port) (standing : Standing) :
    Steps c [.close] x (x.remove port standing).2 := by
  unfold remove
  split
  · exact .refl
  · next i hnumber =>
    obtain ⟨hi, -⟩ := List.findIdx?_eq_some_iff_getElem.mp hnumber
    have hi' := List.getElem?_eq_getElem hi
    have hstand : Step c [.close] x (x.stepSession i fun s => ({ s with standing }, [])) := by
      rw [stepSession_some hi']
      exact .stand hi' { x.sessions[i].footing with standing }
    exact (Relation.ReflTransGen.head hstand (close_steps c _ i)).tail (.tick _ _ _)

variable {x} in
theorem remove_none {port : Port} (h : x.numberAt? port = none) (standing : Standing) :
    x.remove port standing = (none, x) := by
  unfold remove
  rw [h]

variable {x} in
/-- The session on a port is taken from there and closed. -/
theorem remove_some {port : Port} {i : Nat} (h : x.numberAt? port = some i) (standing : Standing) :
    ∃ metrics, (x.remove port standing).2 =
      { x.stepSession i fun s => { s with standing }.close x.now with metrics } := by
  have hclose : (x.stepSession i fun s => ({ s with standing }, [])).close i =
      x.stepSession i fun s => { s with standing }.close x.now := by
    rw [Exchange.close, now_stepSession, stepSession_stepSession]
    rfl
  unfold Exchange.remove
  rw [h]
  dsimp only
  rw [hclose]
  exact ⟨_, rfl⟩

theorem prune_steps (retention : Nat) (cues : List Cue) :
    Steps c cues x (x.prune retention).2 := by
  have htick : Step c cues x x.tick := .tick x _ _
  unfold prune
  dsimp only
  split
  · next n tracker h => exact .tail (.single htick) (.prune h)
  · exact .single htick

theorem ring_steps (a : Alarm) : Steps c [.settle true, .look] x (x.ring c a) := by
  unfold ring
  split
  · exact stepSession_steps fun s => Session.wake_moves c x.now _ s
  · exact .refl

theorem rings_steps (alarms : List Alarm) :
    Steps c [.settle true, .look] x (alarms.foldl (ring c) x) := by
  induction alarms generalizing x with
  | nil => exact .refl
  | cons a alarms ih => exact (ring_steps c x a).trans (ih (x.ring c a))

theorem fire_course (t : Nat) : Course c [.settle true, .look] x (x.fire c t) :=
  ((Course.refl x).clock t (x.agenda.after t)).trans
    (rings_steps c _ (x.agenda.dueAt t)).course

theorem advance_course (ms : Nat) : Course c [.settle true, .look] x (x.advance c ms) := by
  have hfire : ∀ now t (y : Exchange), Course c [.settle true, .look] x y →
      y.agenda.nextAfter? now = some t → t ≤ x.now + ms →
      Course c [.settle true, .look] x (y.fire c t) :=
    fun _ t y h _ _ => h.trans (fire_course c y t)
  obtain ⟨-, -, -, hrun, -⟩ := Agenda.run_induct hfire (.refl x) (Nat.le_add_right x.now ms)
  exact hrun.clock (x.now + ms) _

/-- Only the clock's going on is more than a chain of steps. -/
theorem apply_steps (e : Event) (he : ∀ ms, e ≠ .advance ms) :
    Steps c e.cues x (x.apply c e) := by
  cases e with
  | create port => exact create_steps c x port _
  | mark session state h =>
    exact stepSession_steps (f := fun s => (s.advanceTo state, [])) fun s => (Move.mark s h).moves
  | receive session sender =>
    exact stepSession_steps fun s => Session.receive_moves c x.now sender s
  | play port payload format id => exact play_steps c x port payload format id
  | endProgram session ending held =>
    exact stepSession_steps fun s => Session.endProgram_moves c x.now ending held s
  | closeOutput session => exact stepSession_steps fun s => Session.closeOutput_moves c x.now s
  | close session => exact close_steps c x session
  | remove port standing => exact remove_steps c x port standing
  | prune retention => exact prune_steps c x retention _
  | advance ms => exact absurd rfl (he ms)

theorem apply_course (e : Event) : Course c e.cues x (x.apply c e) := by
  by_cases he : ∃ ms, e = .advance ms
  · obtain ⟨ms, rfl⟩ := he
    exact advance_course c x ms
  · exact (apply_steps c x e fun ms heq => he ⟨ms, heq⟩).course

theorem run_course (events : List Event) :
    Course c (events.flatMap Event.cues) x (run c events x) := by
  induction events generalizing x with
  | nil => exact .refl x
  | cons e events ih =>
    have hfirst := (apply_course c x e).mono
      (List.subset_append_left e.cues (events.flatMap Event.cues))
    exact hfirst.trans ((ih (x.apply c e)).mono (List.subset_append_right _ _))

end

end Exchange

end RtpBroker
