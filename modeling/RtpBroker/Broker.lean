import RtpBroker.Allocator
import RtpBroker.Exchange

/-!
# The broker

The exchange together with the pool of ports: sessions are opened on allocated
ports, and a released port goes back to the pool once everything that went on in
its session has ended. Sweeps over idle sessions and the shutdown release one
session after the other and wait for each, so requests may come in between.
-/

namespace RtpBroker

structure BrokerSetup where
  publicHost : String := "127.0.0.1"
  bindHost : IpAddr := .v4 0 0 0 0
  low : Port := 10000
  high : Port := 10100
  attempts : UInt32 := 100
  /-- How often another port is tried when one cannot be bound. -/
  bindAttempts : UInt32 := 3
  /-- In milliseconds. -/
  cooldown : Nat := 5000
  play : PlaySetup := {}
  listing : Listing := .ascending

/-- What the outside decides while a session is opened: the drawn candidates, by round and attempt,
and why a port cannot be bound in some round. -/
structure Chance where
  draw : Nat → Nat → Port
  bindError? : Nat → Port → Option String

/-- Ports still to be released, one after the other, and the session waited for. -/
structure Errand where
  ports : List Port
  awaited : Option Nat := none
  deriving Repr

/-- A task that sweeps at fixed intervals. -/
inductive ReaperStage
  | resting
  | sweeping (errand : Errand)
  | ended
  deriving Repr

structure Reaper where
  start : Nat
  interval : Nat
  /-- Idle sessions are released only if there is a limit. -/
  idleLimit : Option Nat
  /-- In seconds. -/
  retention : Nat
  sweeps : Nat := 0
  stage : ReaperStage := .resting
  deriving Repr

namespace Reaper

def due (r : Reaper) : Nat := r.start + (r.sweeps + 1) * r.interval

def isResting (r : Reaper) : Bool :=
  match r.stage with
  | .resting => true
  | _ => false

end Reaper

structure Broker where
  setup : BrokerSetup
  allocator : Allocator
  pool : PortPool := {}
  exchange : Exchange := {}
  /-- The sessions whose listeners run. -/
  listeners : List Nat := []
  errands : List Errand := []
  reapers : List Reaper := []
  stopped : Bool := false

namespace Broker

def noAttemptsText : String := "versuche muss groesser als 0 sein"

/-- A broker without sessions; `calendar` is the time of its start. -/
def start (setup : BrokerSetup) (calendar : Timestamp) : Except Fault Broker := do
  let range ← PortRange.of setup.low setup.high
  if setup.attempts = 0 then .error (.configuration noAttemptsText)
  else .ok {
    setup
    allocator := ⟨range, setup.attempts, setup.cooldown⟩
    exchange := { calendar } }

def capacity (b : Broker) : Nat := b.allocator.range.capacity

def now (b : Broker) : Nat := b.exchange.now

def session? (b : Broker) (i : Nat) : Option Session := b.exchange.sessions[i]?

def isGone (b : Broker) (i : Nat) : Bool :=
  match b.session? i with
  | some s => s.standing == .gone
  | none => true

def isBound (b : Broker) (p : Port) : Bool :=
  b.exchange.sessions.any fun s =>
    s.port == p && (s.standing == .registered || s.standing == .leaving)

/-! ## Opening -/

def countAllocation (result : String) (b : Broker) : Broker :=
  { b with exchange := { b.exchange with metrics := b.exchange.metrics.countAllocation result } }

/-- Registers a session on a held port and starts its listener. -/
def register (port : Port) (b : Broker) : Except Fault Endpoint × Broker :=
  match b.exchange.create port with
  | (.error e, _) => (.error e, { b with pool := (b.pool.free port).2 }.countAllocation "error")
  | (.ok i, x) =>
    (.ok ⟨b.setup.publicHost, port⟩,
      { b with
        exchange := x.mark .listening i
        listeners := b.listeners ++ [i] }.countAllocation "ok")

/-- Tries one port after the other until one can be bound; `failure` is why the last one could
not. -/
def openFrom (chance : Chance) : Nat → Nat → Fault → Broker → Except Fault Endpoint × Broker
  | 0, _, failure, b => (.error failure, b.countAllocation "bind_error")
  | n + 1, round, _, b =>
    match b.allocator.allocate b.now (chance.draw round) b.pool with
    | (.error e, pool) => (.error e, { b with pool }.countAllocation "exhausted")
    | (.ok port, pool) =>
      let b := { b with pool }
      match chance.bindError? round port with
      | some text => openFrom chance n (round + 1) (.system text)
          { b with pool := (b.pool.free port).2 }
      | none => b.register port

/-- Opens a session on a free port. -/
def openSession (chance : Chance) (b : Broker) : Except Fault Endpoint × Broker :=
  openFrom chance (max b.setup.bindAttempts.toNat 1) 0
    (.internal "keine Bind-Versuche konfiguriert") b

/-! ## Releasing -/

def settleSession (i : Nat) (standing : Standing) (b : Broker) : Broker :=
  { b with exchange := b.exchange.stepSession i fun s => ({ s with standing }, []) }

/-- Ends the listener of a session that it was told to stop for. -/
def endListener (b : Broker) (i : Nat) : Broker :=
  match b.session? i with
  | none => b
  | some s => if s.aborted then { b with listeners := b.listeners.filter (· != i) } else b

/-- Completes the teardown of a session if its listener and all tasks have ended that the teardown
waits for. -/
def completeSession (b : Broker) (i : Nat) : Broker :=
  let b := b.endListener i
  match b.session? i with
  | none => b
  | some s =>
    if s.standing = .leaving ∧ i ∉ b.listeners ∧ s.isJoined = true then
      let b := b.settleSession i .gone
      { b with pool := (b.allocator.giveBack b.now s.port b.pool).2 }
    else b

/-- Takes a session off its port and begins to tear it down. -/
def detach (port : Port) (b : Broker) : Except Fault Nat × Broker :=
  match b.exchange.remove port .leaving with
  | (none, _) => (.error (.sessionNotFound port), b)
  | (some i, x) => (.ok i, { b with exchange := x.stepSession i fun s => (s.yield, []) })

/-- Releases a port. The teardown of its session needs nobody to wait for it. -/
def release (port : Port) (b : Broker) : Except Fault Nat × Broker :=
  match b.detach port with
  | (.error e, b) => (.error e, b)
  | (.ok i, b) => (.ok i, b.completeSession i)

/-- Releases the ports of an errand until one of them has to be waited for. -/
def proceed : List Port → Broker → Option Errand × Broker
  | [], b => (none, b)
  | p :: ps, b =>
    match b.release p with
    | (.error _, b) => proceed ps b
    | (.ok i, b) => if b.isGone i then proceed ps b else (some ⟨ps, some i⟩, b)

/-- Goes on with an errand if the session that it waits for is gone. -/
def resume (e : Errand) (b : Broker) : Option Errand × Broker :=
  match e.awaited with
  | none => proceed e.ports b
  | some i => if b.isGone i then proceed e.ports b else (some e, b)

/-! ## Reapers -/

def setReaper (k : Nat) (r : Reaper) (b : Broker) : Broker :=
  { b with reapers := b.reapers.set k r }

def setAlarm (due : Nat) (k : Nat) (b : Broker) : Broker :=
  { b with exchange := { b.exchange with agenda := b.exchange.agenda ++ [⟨due, .reaper k⟩] } }

/-- What follows the releases of a sweep: cooled ports and old records are dropped. A retention
that reaches behind the calendar ends the reaper. A reaper that was told to stop in the meantime
does so, also if its next sweep is due already, which it might make first. -/
def afterSweep (k : Nat) (r : Reaper) (b : Broker) : Reaper × Broker :=
  let b := { b with pool := b.allocator.drain b.now b.pool }
  match b.exchange.prune r.retention with
  | (.error _, x) =>
    let r := { r with stage := .ended }
    (r, { b with exchange := x }.setReaper k r)
  | (.ok _, x) =>
    let r := { r with stage := if b.stopped then .ended else .resting }
    (r, { b with exchange := x }.setReaper k r)

def idlePorts (limit : Nat) (b : Broker) : List Port := b.exchange.idlePorts b.setup.listing limit

/-- Begins a sweep, and completes it unless a session has to be waited for. -/
def sweep (k : Nat) (r : Reaper) (b : Broker) : Reaper × Broker :=
  let r := { r with sweeps := r.sweeps + 1 }
  let ports := match r.idleLimit with
    | some limit => b.idlePorts limit
    | none => []
  match b.proceed ports with
  | (some e, b) =>
    let r := { r with stage := .sweeping e }
    (r, b.setReaper k r)
  | (none, b) => b.afterSweep k r

/-- Makes up for at most `n` sweeps that are due, then sets the alarm for the next one. -/
def catchUp (k : Nat) : Nat → Reaper → Broker → Broker
  | 0, _, b => b
  | n + 1, r, b =>
    if r.isResting then
      if r.due ≤ b.now then
        let (r, b) := b.sweep k r
        catchUp k n r b
      else b.setAlarm r.due k
    else b

/-- How many sweeps may be due at most. -/
def overdue (r : Reaper) (b : Broker) : Nat := b.now + 1 - r.due + 1

/-- Goes on with the reaper number `k` if it waits for a session that is gone. -/
def resumeReaper (b : Broker) (k : Nat) : Broker :=
  match b.reapers[k]? with
  | none => b
  | some r =>
    match r.stage with
    | .sweeping e =>
      match b.resume e with
      | (some e, b) => b.setReaper k { r with stage := .sweeping e }
      | (none, b) =>
        let (r, b) := b.afterSweep k r
        catchUp k (overdue r b) r b
    | _ => b

def ringReaper (k : Nat) (b : Broker) : Broker :=
  match b.reapers[k]? with
  | none => b
  | some r => catchUp k (overdue r b) r b

/-- Starts a reaper; it cannot run without an interval. -/
def startReaper (interval : Nat) (idleLimit : Option Nat) (retention : Nat) (b : Broker) : Broker :=
  let stage := if interval = 0 ∨ b.stopped then .ended else .resting
  let r : Reaper := { start := b.now, interval, idleLimit, retention, stage }
  let k := b.reapers.length
  let b := { b with reapers := b.reapers ++ [r] }
  if r.isResting then b.setAlarm r.due k else b

/-! ## Settling -/

def resumeNext (kept : List Errand × Broker) (e : Errand) : List Errand × Broker :=
  match kept.2.resume e with
  | (some e, b) => (kept.1 ++ [e], b)
  | (none, b) => (kept.1, b)

/-- Lets everything happen that can without time passing. -/
def settle (b : Broker) : Broker :=
  let b := (List.range b.exchange.sessions.length).foldl completeSession b
  let (errands, b) := b.errands.foldl resumeNext ([], b)
  (List.range b.reapers.length).foldl resumeReaper { b with errands }

def inExchange (f : Exchange → Exchange) (b : Broker) : Broker :=
  { b with exchange := f b.exchange }.settle

/-! ## Requests -/

def play (port : Port) (payload : ByteArray) (format : Option String) (id : Uuid) (b : Broker) :
    Except Fault Uuid × Broker :=
  let (r, x) := b.exchange.play b.setup.play port payload format id
  (r, { b with exchange := x })

/-- A datagram arrives at the socket of a session. It is lost unless the listener runs, which heeds
first of all that it was told to stop. -/
def receive (i : Nat) (sender : SocketAddr) (b : Broker) : Broker :=
  match b.session? i with
  | some s =>
    if i ∈ b.listeners ∧ !s.aborted then b.inExchange (·.receive b.setup.play i sender)
    else b
  | none => b

def endProgram (i : Nat) (ending : Ending) (held : Bool) (b : Broker) : Broker :=
  b.inExchange (·.endProgram b.setup.play i ending held)

def closeOutput (i : Nat) (b : Broker) : Broker :=
  b.inExchange (·.closeOutput b.setup.play i)

/-- Releases the sessions idle for more than `limit`; these are their ports. -/
def releaseIdle (limit : Nat) (b : Broker) : List Port × Broker :=
  let ports := b.idlePorts limit
  match b.proceed ports with
  | (some e, b) => (ports, { b with errands := b.errands ++ [e] })
  | (none, b) => (ports, b)

/-- Ends the reapers that rest and releases every session. No reaper that rests is due at a time at
which all alarms have gone off, so none of them has the choice to sweep first. -/
def shutDown (b : Broker) : Broker :=
  let b := { b with
    stopped := true
    reapers := b.reapers.map fun (r : Reaper) =>
      if r.isResting then { r with stage := .ended } else r }
  match b.proceed b.exchange.ports with
  | (some e, b) => { b with errands := b.errands ++ [e] }
  | (none, b) => b

/-! ## Time -/

def ring (b : Broker) (a : Alarm) : Broker :=
  match a.sleeper with
  | .playback _ _ => b.inExchange (·.ring b.setup.play a)
  | .reaper k => b.ringReaper k

def fire (t : Nat) (b : Broker) : Broker :=
  (b.exchange.agenda.dueAt t).foldl ring
    { b with exchange := { b.exchange with now := t, agenda := b.exchange.agenda.after t } }

def advance (ms : Nat) (b : Broker) : Broker :=
  let target := b.now + ms
  let b := Agenda.run (·.exchange.agenda) fire target b.now b
  { b with exchange := { b.exchange with now := target } }

end Broker

end RtpBroker
