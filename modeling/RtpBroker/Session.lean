import RtpBroker.Agenda
import RtpBroker.Host
import RtpBroker.Playback
import RtpBroker.Stream

/-!
# Sessions

A session waits on one port for its peer, and plays audio to it. A playback
first waits until the address of the peer is known, looking at fixed intervals,
then for the stream of the session, which one playback has at a time, and then
until its program has ended. What a step means for the rest of the broker it
returns as a list of effects.
-/

namespace RtpBroker

/-- What all playbacks have in common. Times are in milliseconds. -/
structure PlaySetup where
  stream : StreamSetup := {}
  /-- How long a playback waits for the address of the peer. -/
  ceiling : Nat := 5000
  /-- How often it looks; zero means all the time. -/
  interval : Nat := 500
  host : Host := {}

namespace PlaySetup

/-- How long after the end of a program its error output may stay open. -/
def lingerLimit : Nat := 500

/-- Where the temporary files go. -/
def tempDir (c : PlaySetup) : String := c.host.absolute (c.stream.tempDir.getD c.host.tempDir)

end PlaySetup

structure Request where
  id : Uuid
  payload : ByteArray
  format : String

/-- A playback that does not know the address of the peer, and until when it will wait. -/
structure Waiting where
  request : Request
  deadline : Nat

/-- What the program of a stream is doing: it runs, or it is over with its error output still held
open, which is put up with until `limit`. -/
inductive ProgramState
  | running
  | lingering (outcome : Outcome) (limit : Nat)
  deriving DecidableEq, Repr

/-- The playback that has the stream of its session. -/
structure Streaming where
  id : Uuid
  started : Nat
  file : String
  arguments : List String
  /-- Whether its error output stays open when its process group is killed. -/
  outlives : Bool
  program : ProgramState

/-- How a session stands to the broker: known under its port, taken from there alone, being torn
down, or torn down. -/
inductive Standing
  | registered
  | dismissed
  | leaving
  | gone
  deriving DecidableEq, Repr

structure Session where
  port : Port
  standing : Standing := .registered
  state : SessionState := .assigned
  /-- Whether everyone who works for the session was told to stop. -/
  aborted : Bool := false
  remote : Option SocketAddr := none
  packets : Nat := 0
  created : Nat
  lastActive : Nat
  waiting : List Waiting := []
  /-- Those who know the address and wait for the stream, the next one first. -/
  line : List Request := []
  slot : Option Streaming := none
  /-- The handles of the tasks of its playbacks, the oldest first, also of tasks that are over. -/
  handles : List Uuid := []
  /-- The handles that its teardown has taken, to wait for these tasks. -/
  joined : List Uuid := []

inductive Effect
  | enter (id : Uuid) (port : Port)
  | alarm (due : Nat) (id : Uuid)
  | datagram (sender : SocketAddr)
  | learned
  | phase (id : Uuid) (phase : Phase)
  | finish (id : Uuid) (phase : Phase) (exitCode : Option Int) (fault : Option Fault)
  | createFile (id : Uuid) (path : String) (content : ByteArray)
  | removeFile (id : Uuid)
  /-- The machine does not make the file, or does not start the program. -/
  | refused (id : Uuid) (outcome : Outcome)
  | launch (id : Uuid) (arguments : List String)
  /-- The program ends by itself, or it cannot be waited for. -/
  | exited (id : Uuid) (ending : Ending)
  /-- A playback is given up that had not begun. -/
  | dropped (id : Uuid)
  /-- The process group of a running program is killed. -/
  | killed (id : Uuid)
  /-- Nobody reads the error output any more: it is closed, or the time for it is up and what is
  left of the process group is killed. The program itself is killed if it has not ended. -/
  | drained (id : Uuid) (timeUp : Bool)
  /-- A stream with an audio file is over, after so many milliseconds. -/
  | streamed (id : Uuid) (duration : Nat)

/-- Whether the address of a peer became known. -/
def Effect.isLearned : Effect → Bool
  | .learned => true
  | _ => false

namespace Session

def opened (port : Port) (now : Nat) : Session where
  port
  created := now
  lastActive := now

def isClosed (s : Session) : Bool := s.state == .closed

/-- The playbacks that have not had their turn. -/
def queued (s : Session) : List Uuid := s.waiting.map (·.request.id) ++ s.line.map (·.id)

/-- The playbacks that have not ended. -/
def playbacks (s : Session) : List Uuid := s.queued ++ (s.slot.map (·.id)).toList

/-! ## Tasks -/

/-- Whether the task of a playback goes on. -/
def isUnfinished (s : Session) (id : Uuid) : Bool := s.playbacks.contains id

/-- Notes the handle of a new task, and drops those of tasks that are over. -/
def register (id : Uuid) (s : Session) : Session :=
  { s with handles := s.handles.filter s.isUnfinished ++ [id] }

def isBusy (s : Session) : Bool := s.handles.any s.isUnfinished

/-- Hands all handles over to the teardown. -/
def yield (s : Session) : Session := { s with handles := [], joined := s.handles }

/-- Whether all tasks are over that the teardown waits for. -/
def isJoined (s : Session) : Bool := s.joined.all fun id => !s.isUnfinished id

/-- Whether nothing has happened for more than `limit` and nothing is going on. -/
def isIdle (limit now : Nat) (s : Session) : Bool := limit < now - s.lastActive && !s.isBusy

def advanceTo (state : SessionState) (s : Session) : Session :=
  { s with state := s.state.join state }

theorem rank_le_advanceTo (state : SessionState) (s : Session) :
    s.state.rank ≤ (s.advanceTo state).state.rank :=
  SessionState.rank_le_join s.state state

/-- Closes the session for good, and tells everyone who works for it to stop. -/
def shut (s : Session) : Session := { s.advanceTo .closed with aborted := true }

/-- Takes notice of a datagram; the first one tells the address of the peer. -/
def hear (now : Nat) (sender : SocketAddr) (s : Session) : Session × List Effect :=
  let s := { s with packets := s.packets + 1, lastActive := now }
  match s.remote with
  | some _ => (s, [.datagram sender])
  | none =>
    ({ s with remote := some sender }.advanceTo .remoteKnown, [.datagram sender, .learned])

/-! ## Streaming -/

def fileName (c : PlaySetup) (port : Port) (r : Request) : String :=
  s!"audio_{port}_{c.host.tag r.id}.{r.format}"

def endPhase (o : Outcome) : Phase :=
  match o with
  | .aborted => .cancelled
  | o => if o.succeeded then .completed else .failed

def finishEffect (id : Uuid) (o : Outcome) : Effect := .finish id (endPhase o) o.exitCode o.fault

def notStartedText (program text : String) : String := s!"'{program}' nicht startbar: {text}"

/-- Writes the audio file and starts the program; if either fails, how that ends, with the file if
there was one. -/
def launch (c : PlaySetup) (now : Nat) (port : Port) (target : SocketAddr) (r : Request) :
    Except (Outcome × Option String) Streaming :=
  let name := fileName c port r
  match (c.host.fileError? c.tempDir name).or (c.host.fileMishap? r.id) with
  | some text => .error (.noFile text, none)
  | none =>
    let file := Host.joinPath c.tempDir name
    let arguments := c.stream.arguments file target
    match (c.host.launchError? c.stream.program arguments).or (c.host.launchMishap? r.id) with
    | some text => .error (.notStarted (notStartedText c.stream.program text), some file)
    | none => .ok {
        id := r.id, started := now, file, arguments
        outlives := c.host.outlives r.id, program := .running }

/-- Launches a playback. If that fails, the playback is over. -/
def begin (c : PlaySetup) (now : Nat) (port : Port) (target : SocketAddr) (r : Request) :
    Option Streaming × List Effect :=
  match launch c now port target r with
  | .ok st =>
    (some st, [.phase r.id .streaming, .createFile r.id st.file r.payload,
      .launch r.id st.arguments])
  | .error (o, none) => (none, [.phase r.id .streaming, .refused r.id o, finishEffect r.id o])
  | .error (o, some file) =>
    (none, [.phase r.id .streaming, .createFile r.id file r.payload, .refused r.id o,
      .removeFile r.id, .streamed r.id 0, finishEffect r.id o])

/-- Gives the stream to the first in line whose program starts. -/
def serve (c : PlaySetup) (now : Nat) (port : Port) (target : SocketAddr) :
    List Request → Option Streaming × List Request × List Effect
  | [] => (none, [], [])
  | r :: rs =>
    match begin c now port target r with
    | (some st, es) => (some st, rs, es)
    | (none, es) =>
      let rest := serve c now port target rs
      (rest.1, rest.2.1, es ++ rest.2.2)

theorem serve_nil (c : PlaySetup) (now : Nat) (port : Port) (target : SocketAddr) :
    serve c now port target [] = (none, [], []) := by
  rfl

theorem serve_cons (c : PlaySetup) (now : Nat) (port : Port) (target : SocketAddr) (r : Request)
    (rs : List Request) :
    serve c now port target (r :: rs) =
      match begin c now port target r with
      | (some st, es) => (some st, rs, es)
      | (none, es) =>
        let rest := serve c now port target rs
        (rest.1, rest.2.1, es ++ rest.2.2) := by
  rfl

/-- Lets the next in line begin, if the stream is free. -/
def handOver (c : PlaySetup) (now : Nat) (s : Session) : Session × List Effect :=
  match s.slot, s.line, s.remote with
  | none, r :: rs, some target =>
    let (slot, line, es) := serve c now s.port target (r :: rs)
    ({ s with slot, line, lastActive := now }.advanceTo .streaming, es)
  | _, _, _ => (s, [])

/-- The stream is over: its file goes, and the next in line begins. -/
def release (c : PlaySetup) (now : Nat) (st : Streaming) (o : Outcome) (timeUp : Bool)
    (s : Session) : Session × List Effect :=
  let (s, es) := { s with slot := none, lastActive := now }.handOver c now
  (s, [.drained st.id timeUp, .removeFile st.id, .streamed st.id (now - st.started),
    finishEffect st.id o] ++ es)

/-- The program of the session ends, with its error output held open or not. One that cannot be
waited for holds it open as long as it runs. -/
def endProgram (c : PlaySetup) (now : Nat) (ending : Ending) (held : Bool) (s : Session) :
    Session × List Effect :=
  match s.slot with
  | none => (s, [])
  | some st =>
    match st.program with
    | .lingering _ _ => (s, [])
    | .running =>
      if held then
        let limit := now + PlaySetup.lingerLimit
        ({ s with slot := some { st with program := .lingering (.ended ending) limit } },
          [.exited st.id ending, .alarm limit st.id])
      else
        let (s, es) := s.release c now st (.ended ending) false
        (s, .exited st.id ending :: es)

/-- The error output is closed that was held open when the program was over. -/
def closeOutput (c : PlaySetup) (now : Nat) (s : Session) : Session × List Effect :=
  match s.slot with
  | none => (s, [])
  | some st =>
    match st.program with
    | .running => (s, [])
    | .lingering o _ => s.release c now st o false

/-! ## Waiting -/

/-- When a playback looks for the address again. -/
def nextLook (c : PlaySetup) (now deadline : Nat) : Nat :=
  if c.interval = 0 then deadline else min (now + c.interval) deadline

/-- A waiting playback looks for the address of the peer. -/
def look (c : PlaySetup) (now : Nat) (w : Waiting) (s : Session) : Session × List Effect :=
  let rest := s.waiting.filter (·.request.id != w.request.id)
  if s.remote.isSome then
    { s with waiting := rest, line := s.line ++ [w.request] }.handOver c now
  else if w.deadline ≤ now then
    ({ s with waiting := rest }, [.finish w.request.id .timedOut none
      (some (.remoteUnknown (UInt64.ofNat c.ceiling)))])
  else (s, [.alarm (nextLook c now w.deadline) w.request.id])

def enter (c : PlaySetup) (now : Nat) (r : Request) (s : Session) : Session × List Effect :=
  ({ s.register r.id with lastActive := now, waiting := s.waiting ++ [⟨r, now + c.ceiling⟩] },
    [.enter r.id s.port])

/-- Takes a playback on and lets it look at once. -/
def accept (c : PlaySetup) (now : Nat) (r : Request) (s : Session) : Session × List Effect :=
  let (s, es) := s.enter c now r
  let (s, es') := s.look c now ⟨r, now + c.ceiling⟩
  (s, es ++ es')

def wake (c : PlaySetup) (now : Nat) (id : Uuid) (s : Session) : Session × List Effect :=
  match s.waiting.find? (·.request.id == id) with
  | some w => s.look c now w
  | none =>
    match s.slot with
    | none => (s, [])
    | some st =>
      match st.program with
      | .running => (s, [])
      | .lingering o limit =>
        if st.id = id ∧ limit ≤ now then s.release c now st o true else (s, [])

/-- Lets the playbacks look that do so all the time, one after the other. -/
def lookAll (c : PlaySetup) (now : Nat) : List Uuid → Session → Session × List Effect
  | [], s => (s, [])
  | id :: ids, s =>
    let (s, es) := match s.waiting.find? (·.request.id == id) with
      | some w => s.look c now w
      | none => (s, [])
    let (s, es') := lookAll c now ids s
    (s, es ++ es')

/-- Takes notice of a datagram, and of what it changes for those who wait. -/
def receive (c : PlaySetup) (now : Nat) (sender : SocketAddr) (s : Session) :
    Session × List Effect :=
  let (s, es) := s.hear now sender
  if c.interval = 0 then
    let (s, es') := lookAll c now (s.waiting.map (·.request.id)) s
    (s, es ++ es')
  else (s, es)

/-! ## Closing -/

def drop (id : Uuid) : List Effect := [.dropped id, .finish id .cancelled none none]

/-- Ends the session: who waits is cancelled, a running program is killed. An ended program whose
error output is held open keeps its outcome and its time. Nobody who waits has a choice then: no
look is due that was not had, and while somebody is in line the stream is taken. -/
def close (now : Nat) (s : Session) : Session × List Effect :=
  let es := (s.waiting.map (·.request.id) ++ s.line.map (·.id)).flatMap drop
  let s := { s with waiting := [], line := [] }.shut
  match s.slot with
  | none => (s, es)
  | some st =>
    match st.program with
    | .lingering _ _ => (s, es)
    | .running =>
      if st.outlives then
        let limit := now + PlaySetup.lingerLimit
        ({ s with slot := some { st with program := .lingering .aborted limit } },
          es ++ [.killed st.id, .alarm limit st.id])
      else
        ({ s with slot := none, lastActive := now },
          es ++ [.killed st.id, .drained st.id false, .removeFile st.id,
            .streamed st.id (now - st.started), finishEffect st.id .aborted])

/-! ## Text -/

def text (s : Session) : String :=
  let remote := match s.remote with
    | some a => s!"Some({a.text})"
    | none => "None"
  s!"Session \x7b port: {s.port}, remote: {remote}, zustand: {s.state.title}, pakete: {s.packets} \x7d"

end Session

end RtpBroker
