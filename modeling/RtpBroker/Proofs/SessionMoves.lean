import Mathlib.Data.List.Basic
import RtpBroker.Session

/-!
# The moves of a session

Everything that a session does is a chain of small moves, each of which concerns
one playback at most. A move says what gives rise to it, when it can be made, what
becomes of the session, and which effects it has; what holds of all sessions at
all times is shown move by move.
-/

namespace RtpBroker.Session

/-- The session after the head of its line had its turn. -/
def served (now : Nat) (slot : Option Streaming) (line : List Request) (s : Session) : Session :=
  { s with slot, line, lastActive := now }.advanceTo .streaming

def without (id : Uuid) (s : Session) : List Waiting := s.waiting.filter (·.request.id != id)

/-- How a stream is settled whose error output nobody reads any more. -/
def settling (now : Nat) (st : Streaming) (o : Outcome) (timeUp : Bool) : List Effect :=
  [.drained st.id timeUp, .removeFile st.id, .streamed st.id (now - st.started),
    finishEffect st.id o]

section

variable (now : Nat) (sender : SocketAddr) (s : Session)

@[simp] theorem hear_waiting : (s.hear now sender).1.waiting = s.waiting := by
  unfold hear
  dsimp only
  split <;> rfl

@[simp] theorem hear_line : (s.hear now sender).1.line = s.line := by
  unfold hear
  dsimp only
  split <;> rfl

@[simp] theorem hear_slot : (s.hear now sender).1.slot = s.slot := by
  unfold hear
  dsimp only
  split <;> rfl

@[simp] theorem mem_hear {e : Effect} : e ∈ (s.hear now sender).2 ↔
    e = .datagram sender ∨ e = .learned ∧ s.remote = none := by
  unfold hear
  dsimp only
  split <;> simp [*]

end

/-- What gives rise to a move. Whatever a session does of itself it does on a look. -/
inductive Cue
  | look
  | mark (state : SessionState)
  | hear (sender : SocketAddr)
  | enter (id : Uuid)
  | exit (ending : Ending) (held : Bool)
  | settle (timeUp : Bool)
  | close
  deriving DecidableEq

inductive Move (c : PlaySetup) (now : Nat) : Cue → Session → List Effect → Session → Prop
  | hear (s : Session) (sender : SocketAddr) :
      Move c now (.hear sender) s (s.hear now sender).2 (s.hear now sender).1
  | mark (s : Session) {state : SessionState} (h : state ≠ .closed) :
      Move c now (.mark state) s [] (s.advanceTo state)
  | enter (s : Session) (r : Request) :
      Move c now (.enter r.id) s [.enter r.id s.port]
        { s.register r.id with lastActive := now, waiting := s.waiting ++ [⟨r, now + c.ceiling⟩] }
  | queue {s : Session} {w : Waiting} (hw : w ∈ s.waiting) (h : s.remote.isSome = true) :
      Move c now .look s []
        { s with waiting := s.without w.request.id, line := s.line ++ [w.request] }
  | lapse {s : Session} {w : Waiting} (hw : w ∈ s.waiting) (h : s.remote = none)
      (hdue : w.deadline ≤ now) :
      Move c now .look s [.finish w.request.id .timedOut none
        (some (.remoteUnknown (UInt64.ofNat c.ceiling)))]
        { s with waiting := s.without w.request.id }
  | again {s : Session} {w : Waiting} (hw : w ∈ s.waiting) (h : s.remote = none)
      (hdue : now < w.deadline) :
      Move c now .look s [.alarm (nextLook c now w.deadline) w.request.id] s
  | noFile {s : Session} {r : Request} {rs : List Request} {target : SocketAddr} {text : String}
      (hslot : s.slot = none) (hline : s.line = r :: rs) (hremote : s.remote = some target)
      (h : launch c now s.port target r = .error (.noFile text, none)) :
      Move c now .look s [.phase r.id .streaming, .refused r.id (.noFile text),
        finishEffect r.id (.noFile text)] (s.served now none rs)
  | notStarted {s : Session} {r : Request} {rs : List Request} {target : SocketAddr}
      {text file : String}
      (hslot : s.slot = none) (hline : s.line = r :: rs) (hremote : s.remote = some target)
      (h : launch c now s.port target r = .error (.notStarted text, some file)) :
      Move c now .look s [.phase r.id .streaming, .createFile r.id file r.payload,
        .refused r.id (.notStarted text), .removeFile r.id, .streamed r.id 0,
        finishEffect r.id (.notStarted text)] (s.served now none rs)
  | start {s : Session} {r : Request} {rs : List Request} {target : SocketAddr} {st : Streaming}
      (hslot : s.slot = none) (hline : s.line = r :: rs) (hremote : s.remote = some target)
      (h : launch c now s.port target r = .ok st) :
      Move c now .look s [.phase r.id .streaming, .createFile r.id st.file r.payload,
        .launch r.id st.arguments] (s.served now (some st) rs)
  | exit {s : Session} {st : Streaming} (ending : Ending) (hslot : s.slot = some st)
      (h : st.program = .running) :
      Move c now (.exit ending false) s
        (.exited st.id ending :: settling now st (.ended ending) false)
        { s with slot := none, lastActive := now }
  | exitHeld {s : Session} {st : Streaming} (ending : Ending) (hslot : s.slot = some st)
      (h : st.program = .running) :
      Move c now (.exit ending true) s
        [.exited st.id ending, .alarm (now + PlaySetup.lingerLimit) st.id]
        { s with slot := some { st with
            program := .lingering (.ended ending) (now + PlaySetup.lingerLimit) } }
  | settle {s : Session} {st : Streaming} {o : Outcome} {limit : Nat} {timeUp : Bool}
      (hslot : s.slot = some st) (h : st.program = .lingering o limit)
      (hlimit : timeUp = true → limit ≤ now) :
      Move c now (.settle timeUp) s (settling now st o timeUp)
        { s with slot := none, lastActive := now }
  | shut (s : Session) : Move c now .close s [] s.shut
  | dropWaiting {s : Session} {w : Waiting} {ws : List Waiting} (hclosed : s.isClosed = true)
      (hw : s.waiting = w :: ws) : Move c now .close s (drop w.request.id) { s with waiting := ws }
  | dropLine {s : Session} {r : Request} {rs : List Request} (hclosed : s.isClosed = true)
      (hr : s.line = r :: rs) : Move c now .close s (drop r.id) { s with line := rs }
  | kill {s : Session} {st : Streaming} (hclosed : s.isClosed = true) (hslot : s.slot = some st)
      (h : st.program = .running) :
      Move c now .close s (.killed st.id :: settling now st .aborted false)
        { s with slot := none, lastActive := now }
  | killHeld {s : Session} {st : Streaming} (hclosed : s.isClosed = true)
      (hslot : s.slot = some st) (h : st.program = .running) :
      Move c now .close s [.killed st.id, .alarm (now + PlaySetup.lingerLimit) st.id]
        { s with slot := some { st with
            program := .lingering .aborted (now + PlaySetup.lingerLimit) } }

/-- A chain of moves at one time that some cues give rise to. -/
inductive Moves (c : PlaySetup) (now : Nat) (cues : List Cue) :
    Session → List Effect → Session → Prop
  | refl (s : Session) : Moves c now cues s [] s
  | head {cue : Cue} {s s' s'' : Session} {es es' : List Effect} (hcue : cue ∈ cues)
      (h : Move c now cue s es s') (hs : Moves c now cues s' es' s'') :
      Moves c now cues s (es ++ es') s''

section

variable {c : PlaySetup} {now : Nat} {cue : Cue} {cues cues' : List Cue} {s s' s'' : Session}
  {es es' : List Effect}

theorem Move.moves (h : Move c now cue s es s') : Moves c now [cue] s es s' := by
  have hs := Moves.head (List.mem_singleton_self cue) h (Moves.refl s')
  rwa [List.append_nil] at hs

theorem Moves.trans (h : Moves c now cues s es s') (h' : Moves c now cues s' es' s'') :
    Moves c now cues s (es ++ es') s'' := by
  induction h with
  | refl s => exact h'
  | head hcue hm _ ih =>
    rw [List.append_assoc]
    exact .head hcue hm (ih h')

theorem Moves.mono (h : Moves c now cues s es s') (hcues : cues ⊆ cues') :
    Moves c now cues' s es s' := by
  induction h with
  | refl s => exact .refl s
  | head hcue hm _ ih => exact .head (hcues hcue) hm ih

theorem Move.followed (h : Move c now cue s es s') (hs : Moves c now [.look] s' es' s'') :
    Moves c now [cue, .look] s (es ++ es') s'' :=
  .head (by simp) h (hs.mono (by simp))

/-- What every move keeps is kept by a chain of them. -/
theorem Moves.preserves {P : Session → Prop}
    (hP : ∀ cue ∈ cues, ∀ s es s', Move c now cue s es s' → P s → P s')
    (h : Moves c now cues s es s') (hs : P s) : P s' := by
  induction h with
  | refl s => exact hs
  | head hcue hm _ ih => exact ih (hP _ hcue _ _ _ hm hs)

end

/-! ## Every operation is a chain of moves -/

section

variable (c : PlaySetup) (now : Nat)

/-- A launch that fails did so for want of the file, or else of the program. -/
theorem launch_error {port : Port} {target : SocketAddr} {r : Request}
    {e : Outcome × Option String} (h : launch c now port target r = .error e) :
    (∃ text, e = (.noFile text, none)) ∨ ∃ text file, e = (.notStarted text, some file) := by
  unfold launch at h
  dsimp only at h
  split at h
  · exact Or.inl ⟨_, (Except.error.inj h).symm⟩
  · split at h
    · exact Or.inr ⟨_, _, (Except.error.inj h).symm⟩
    · cases h

theorem launch_error_congr {now' : Nat} {port : Port} {target : SocketAddr} {r : Request}
    {e : Outcome × Option String} (h : launch c now port target r = .error e) :
    launch c now' port target r = .error e := by
  unfold launch at h ⊢
  dsimp only at h ⊢
  split at h
  · exact h
  · split at h
    · exact h
    · cases h

theorem launch_ok {port : Port} {target : SocketAddr} {r : Request} {st : Streaming}
    (h : launch c now port target r = .ok st) :
    st.id = r.id ∧ st.program = .running ∧ st.arguments = c.stream.arguments st.file target := by
  unfold launch at h
  dsimp only at h
  split at h
  · cases h
  · split at h
    · cases h
    · cases h
      exact ⟨rfl, rfl, rfl⟩

/-- The head of the line has its turn, and its program runs then, or it is over. -/
theorem begin_move {s : Session} {r : Request} {rs : List Request} {target : SocketAddr}
    (hslot : s.slot = none) (hline : s.line = r :: rs) (hremote : s.remote = some target) :
    Move c now .look s (begin c now s.port target r).2
      (s.served now (begin c now s.port target r).1 rs) := by
  unfold begin
  cases h : launch c now s.port target r with
  | ok st => exact .start hslot hline hremote h
  | error e =>
    rcases launch_error c now h with ⟨text, rfl⟩ | ⟨text, file, rfl⟩
    · exact .noFile hslot hline hremote h
    · exact .notStarted hslot hline hremote h

theorem served_served (s : Session) (slot slot' : Option Streaming) (line line' : List Request) :
    (s.served now slot line).served now slot' line' = s.served now slot' line' := by
  simp only [served, advanceTo, SessionState.join_assoc]
  rfl

theorem serve_moves (line : List Request) (s : Session) {target : SocketAddr}
    (hslot : s.slot = none) (hline : s.line = line) (hremote : s.remote = some target)
    (hne : line ≠ []) :
    Moves c now [.look] s (serve c now s.port target line).2.2
      (s.served now (serve c now s.port target line).1 (serve c now s.port target line).2.1) := by
  induction line generalizing s with
  | nil => exact absurd rfl hne
  | cons r rs ih =>
    have hmove := begin_move c now hslot hline hremote
    rcases hbegin : begin c now s.port target r with ⟨slot, es⟩
    rw [hbegin] at hmove
    simp only [serve_cons, hbegin]
    cases slot with
    | some st => exact hmove.moves
    | none =>
      cases rs with
      | nil =>
        simpa only [serve_nil, List.append_nil] using hmove.moves
      | cons r' rs =>
        -- The head of the line is over at once, and the next one has its turn.
        have hrest := ih (s.served now none (r' :: rs)) rfl rfl hremote (by simp)
        rw [served_served] at hrest
        exact .head (by simp) hmove hrest

theorem handOver_moves (s : Session) :
    Moves c now [.look] s (s.handOver c now).2 (s.handOver c now).1 := by
  unfold handOver
  split
  · next r rs target hslot hline hremote =>
    exact serve_moves c now (r :: rs) s hslot hline hremote (by simp)
  · exact .refl s

theorem look_moves {s : Session} {w : Waiting} (hw : w ∈ s.waiting) :
    Moves c now [.look] s (s.look c now w).2 (s.look c now w).1 := by
  unfold look
  dsimp only
  split
  · next hremote => exact .head (by simp) (.queue hw hremote) (handOver_moves c now _)
  · next hremote =>
    rw [Option.not_isSome_iff_eq_none] at hremote
    split
    · next hdue => exact (Move.lapse hw hremote hdue).moves
    · next hdue => exact (Move.again hw hremote (Nat.lt_of_not_le hdue)).moves

theorem accept_moves (r : Request) (s : Session) :
    Moves c now [.enter r.id, .look] s (s.accept c now r).2 (s.accept c now r).1 :=
  (Move.enter s r).followed (look_moves c now (List.mem_append_right _ (List.mem_singleton_self _)))

theorem lookAll_moves (ids : List Uuid) (s : Session) :
    Moves c now [.look] s (lookAll c now ids s).2 (lookAll c now ids s).1 := by
  induction ids generalizing s with
  | nil => exact .refl s
  | cons id ids ih =>
    unfold lookAll
    cases h : s.waiting.find? (·.request.id == id) with
    | none => exact ih s
    | some w => exact (look_moves c now (List.mem_of_find?_eq_some h)).trans (ih _)

theorem receive_moves (sender : SocketAddr) (s : Session) :
    Moves c now [.hear sender, .look] s (s.receive c now sender).2 (s.receive c now sender).1 := by
  unfold receive
  dsimp only
  split
  · exact (Move.hear s sender).followed (lookAll_moves c now _ _)
  · exact (Move.hear s sender).moves.mono (by simp)

theorem release_moves {s : Session} {st : Streaming} {o : Outcome} {limit : Nat} {timeUp : Bool}
    (hslot : s.slot = some st) (h : st.program = .lingering o limit)
    (hlimit : timeUp = true → limit ≤ now) :
    Moves c now [.settle timeUp, .look] s (s.release c now st o timeUp).2
      (s.release c now st o timeUp).1 :=
  (Move.settle hslot h hlimit).followed (handOver_moves c now _)

theorem wake_moves (id : Uuid) (s : Session) :
    Moves c now [.settle true, .look] s (s.wake c now id).2 (s.wake c now id).1 := by
  unfold wake
  split
  · next w h => exact (look_moves c now (List.mem_of_find?_eq_some h)).mono (by simp)
  · split
    · exact .refl s
    · next st hslot =>
      split
      · exact .refl s
      · next o limit h =>
        split
        · next hdue => exact release_moves c now hslot h fun _ => hdue.2
        · exact .refl s

theorem endProgram_moves (ending : Ending) (held : Bool) (s : Session) :
    Moves c now [.exit ending held, .look] s (s.endProgram c now ending held).2
      (s.endProgram c now ending held).1 := by
  unfold endProgram
  split
  · exact .refl s
  · next st hslot =>
    split
    · exact .refl s
    · next h =>
      cases held with
      | true => exact (Move.exitHeld ending hslot h).moves.mono (by simp)
      | false => exact (Move.exit ending hslot h).followed (handOver_moves c now _)

theorem closeOutput_moves (s : Session) :
    Moves c now [.settle false, .look] s (s.closeOutput c now).2 (s.closeOutput c now).1 := by
  unfold closeOutput
  split
  · exact .refl s
  · next st hslot =>
    split
    · exact .refl s
    · next o limit h => exact release_moves c now hslot h (by simp)

theorem dropWaiting_moves (ws : List Waiting) (s : Session) (hclosed : s.isClosed = true)
    (hw : s.waiting = ws) :
    Moves c now [.close] s ((ws.map (·.request.id)).flatMap drop) { s with waiting := [] } := by
  induction ws generalizing s with
  | nil =>
    rw [show { s with waiting := [] } = s by rw [← hw]]
    exact .refl s
  | cons w ws ih =>
    exact .head (by simp) (.dropWaiting hclosed hw) (ih { s with waiting := ws } hclosed rfl)

theorem dropLine_moves (rs : List Request) (s : Session) (hclosed : s.isClosed = true)
    (hr : s.line = rs) :
    Moves c now [.close] s ((rs.map (·.id)).flatMap drop) { s with line := [] } := by
  induction rs generalizing s with
  | nil =>
    rw [show { s with line := [] } = s by rw [← hr]]
    exact .refl s
  | cons r rs ih =>
    exact .head (by simp) (.dropLine hclosed hr) (ih { s with line := rs } hclosed rfl)

theorem close_moves (s : Session) : Moves c now [.close] s (s.close now).2 (s.close now).1 := by
  let quiet : Session := { s.shut with waiting := [], line := [] }
  have hclosed : s.shut.isClosed = true := by simp [shut, advanceTo, isClosed]
  have hwaiting := dropWaiting_moves c now s.waiting s.shut hclosed rfl
  have hline : Moves c now [.close] _ _ quiet :=
    dropLine_moves c now s.line { s.shut with waiting := [] } hclosed rfl
  have hdrops : Moves c now [.close] s
      ((s.waiting.map (·.request.id) ++ s.line.map (·.id)).flatMap drop) quiet := by
    have hall := Moves.head (by simp) (Move.shut s) (hwaiting.trans hline)
    rwa [List.nil_append, ← List.flatMap_append] at hall
  unfold close
  dsimp only
  split
  · exact hdrops
  · next st hslot =>
    split
    · exact hdrops
    · next h =>
      split
      · exact hdrops.trans (Move.killHeld (s := quiet) hclosed hslot h).moves
      · exact hdrops.trans (Move.kill (s := quiet) hclosed hslot h).moves

end

end RtpBroker.Session
