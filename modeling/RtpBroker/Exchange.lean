import RtpBroker.AudioFormat
import RtpBroker.Metrics
import RtpBroker.Session
import RtpBroker.Tracker

/-!
# The exchange

All sessions ever opened, each under its number, and what their playbacks touch:
the tracker, the metrics, the temporary files and the alarms. Only a registered
session is found by its port, and no two of them have the same.
-/

namespace RtpBroker

structure TempFile where
  owner : Uuid
  path : String
  content : ByteArray

/-- An effect that was carried out for a session, and when. -/
structure Entry where
  time : Nat
  session : Nat
  effect : Effect

structure Exchange where
  /-- Milliseconds of a clock that never jumps. -/
  now : Nat := 0
  /-- What the calendar shows. It goes on before a sweep, for which all that ended is past. -/
  calendar : Timestamp := ⟨0, 0⟩
  sessions : List Session := []
  tracker : Tracker := {}
  metrics : Metrics := {}
  files : List TempFile := []
  agenda : Agenda := []
  /-- Every effect so far, the oldest first. -/
  journal : List Entry := []

/-- In which order the registered ports are gone through, which the sessions do not tell. -/
structure Listing where
  arrange : Exchange → List Port → List Port
  perm : ∀ x ps, (arrange x ps).Perm ps

def Listing.ascending : Listing where
  arrange _ ps := ps.mergeSort (· ≤ ·)
  perm _ ps := ps.mergeSort_perm (· ≤ ·)

instance : Inhabited Listing := ⟨.ascending⟩

namespace Exchange

def nextInstant (t : Timestamp) : Timestamp :=
  if t.nanos + 1 < 1000000000 then ⟨t.seconds, t.nanos + 1⟩ else ⟨t.seconds + 1, 0⟩

def tick (x : Exchange) : Exchange := { x with calendar := nextInstant x.calendar }

/-! ## Effects -/

/-- What an effect of the session with number `i` changes. -/
def carryOut (i : Nat) (x : Exchange) : Effect → Exchange
  | .enter id port => { x with tracker := x.tracker.enter id port x.calendar }
  | .alarm due id => { x with agenda := x.agenda ++ [⟨due, .playback i id⟩] }
  | .datagram _ => { x with metrics := x.metrics.countDatagram }
  | .learned => { x with metrics := x.metrics.countLearned }
  | .phase id phase => { x with tracker := x.tracker.setPhase id phase }
  | .finish id phase code fault =>
    { x with
      tracker := x.tracker.finish id phase code (fault.map Fault.message) x.calendar
      metrics := x.metrics.countOutcome phase.label }
  | .createFile id path content => { x with files := x.files ++ [⟨id, path, content⟩] }
  | .removeFile id => { x with files := x.files.filter (·.owner != id) }
  | .streamed _ ms =>
    { x with metrics := x.metrics.observeStream (Float.ofNat ms / 1000.0) }
  | .refused _ _ | .launch _ _ | .exited _ _ | .dropped _ | .killed _ | .drained _ _ => x

/-- Carries out an effect of the session with number `i` and notes it down. -/
def perform (i : Nat) (x : Exchange) (e : Effect) : Exchange :=
  { x.carryOut i e with journal := x.journal ++ [⟨x.now, i, e⟩] }

def stepSession (i : Nat) (f : Session → Session × List Effect) (x : Exchange) : Exchange :=
  match x.sessions[i]? with
  | none => x
  | some s =>
    let (s, es) := f s
    es.foldl (perform i) { x with sessions := x.sessions.set i s }

/-! ## The registry -/

def isAt (port : Port) (s : Session) : Bool := s.standing == .registered && s.port == port

/-- The number of the session registered on a port. -/
def numberAt? (port : Port) (x : Exchange) : Option Nat := x.sessions.findIdx? (isAt port)

def sessionAt? (port : Port) (x : Exchange) : Option Session := x.sessions.find? (isAt port)

def registered (x : Exchange) : List Session := x.sessions.filter (·.standing == .registered)

def ports (x : Exchange) : List Port := (x.registered.map (·.port)).mergeSort (· ≤ ·)

/-- The registered ports of sessions idle for more than `limit`. -/
def idlePorts (l : Listing) (limit : Nat) (x : Exchange) : List Port :=
  l.arrange x ((x.registered.filter (·.isIdle limit x.now)).map (·.port))

def create (port : Port) (x : Exchange) : Except Fault Nat × Exchange :=
  match x.numberAt? port with
  | some _ => (.error (.portTaken port), x)
  | none =>
    (.ok x.sessions.length,
      { x with
        sessions := x.sessions ++ [Session.opened port x.now]
        metrics := x.metrics.sessionOpened })

def close (i : Nat) (x : Exchange) : Exchange := x.stepSession i fun s => s.close x.now

/-- Takes a session off its port and closes it. -/
def remove (port : Port) (standing : Standing) (x : Exchange) : Option Nat × Exchange :=
  match x.numberAt? port with
  | none => (none, x)
  | some i =>
    let x := (x.stepSession i fun s => ({ s with standing }, [])).close i
    (some i, { x with metrics := x.metrics.sessionClosed })

def mark (state : SessionState) (i : Nat) (x : Exchange) : Exchange :=
  x.stepSession i fun s => (s.advanceTo state, [])

def receive (c : PlaySetup) (i : Nat) (sender : SocketAddr) (x : Exchange) : Exchange :=
  x.stepSession i fun s => s.receive c x.now sender

/-- What the receiver of a datagram is told: whether it made the address of the peer known. -/
def learns (i : Nat) (sender : SocketAddr) (x : Exchange) : Bool :=
  match x.sessions[i]? with
  | none => false
  | some s => (s.hear x.now sender).2.any Effect.isLearned

/-! ## Playbacks -/

def emptyText : String := "Audiodaten sind leer"

/-- Why a playback cannot be accepted, or the format of its audio and its session. -/
def refusalOrPlace (port : Port) (payload : ByteArray) (format : Option String) (x : Exchange) :
    Except Fault (String × Nat) :=
  if payload.size = 0 then .error (.badRequest emptyText)
  else
    match AudioFormat.check format with
    | .error e => .error e
    | .ok format =>
      match x.numberAt? port, x.sessionAt? port with
      | some i, some s => if s.isClosed then .error (.sessionNotFound port) else .ok (format, i)
      | _, _ => .error (.sessionNotFound port)

/-- Accepts a playback under a new identifier. -/
def play (c : PlaySetup) (port : Port) (payload : ByteArray) (format : Option String) (id : Uuid)
    (x : Exchange) : Except Fault Uuid × Exchange :=
  match x.refusalOrPlace port payload format with
  | .error e => (.error e, x)
  | .ok (format, i) => (.ok id, x.stepSession i fun s => s.accept c x.now { id, payload, format })

/-- The program that streams for a session ends; `held` says that its error output stays open. -/
def endProgram (c : PlaySetup) (i : Nat) (ending : Ending) (held : Bool) (x : Exchange) :
    Exchange :=
  x.stepSession i fun s => s.endProgram c x.now ending held

def closeOutput (c : PlaySetup) (i : Nat) (x : Exchange) : Exchange :=
  x.stepSession i fun s => s.closeOutput c x.now

def prune (retention : Nat) (x : Exchange) : Except Tracker.SweepFlaw Nat × Exchange :=
  let x := x.tick
  match x.tracker.prune retention x.calendar with
  | .ok (n, tracker) => (.ok n, { x with tracker })
  | .error e => (.error e, x)

/-! ## Time -/

def ring (c : PlaySetup) (x : Exchange) (a : Alarm) : Exchange :=
  match a.sleeper with
  | .playback i id => x.stepSession i fun s => s.wake c x.now id
  | .reaper _ => x

/-- Lets the alarms of the time `t` go off. -/
def fire (c : PlaySetup) (t : Nat) (x : Exchange) : Exchange :=
  (x.agenda.dueAt t).foldl (ring c) { x with now := t, agenda := x.agenda.after t }

def advance (c : PlaySetup) (ms : Nat) (x : Exchange) : Exchange :=
  let target := x.now + ms
  { Agenda.run (·.agenda) (fire c) target x.now x with now := target }

end Exchange

end RtpBroker
