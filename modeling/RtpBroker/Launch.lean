import RtpBroker.Startup

/-!
# Launching the program

The program has no arguments. It takes its configuration from a file that the
environment names, replaces settings from the environment, checks the whole, and
starts up. What it logs on the way and how it fails is a function of what it
finds around it.
-/

namespace RtpBroker

structure Surroundings where
  lookup : String → Option String
  file : String → Config.File
  host : Host
  calendar : Timestamp
  /-- Why a TCP address cannot be bound, if it cannot. -/
  bindError? : SocketAddr → Option String

structure Launch where
  events : List LogEvent := []
  logging : Logging := {}
  result : Except StartFlaw (Components × Option Http.Cors)

namespace Launch

def standardPath : String := "config.toml"

def configPath (lookup : String → Option String) : String :=
  (lookup "MEDIABROKER_CONFIG").getD standardPath

def fileMissing (path : String) : LogEvent where
  level := .warn
  target := Config.serverTarget
  message := "Konfigurationsdatei nicht gefunden, verwende Standardwerte"
  values := [("pfad", .plain path)]

def initialising (path : String) : LogEvent where
  level := .info
  target := Config.serverTarget
  message := "Mediabroker wird initialisiert"
  values := [("version", .quoted Health.version), ("config", .plain path)]

/-- A failure before anything could be logged. -/
def silent (text : String) : Launch := { result := .error (.chain [text]) }

/-- From the configuration on; `before` has been logged already. -/
def start (s : Surroundings) (path : String) (c : Config) (before : List LogEvent) : Launch :=
  let logging := Logging.of c.logging.level c.logging.format s.lookup
  match c.check with
  | .error f => { events := before, logging, result := .error (.chain [f.message]) }
  | .ok () =>
    let (events, result) := c.bringUp s.host s.calendar s.bindError?
    { events := before ++ initialising path :: events, logging, result }

def log (l : Launch) : List LogEvent := l.logging.keep l.events

def run (s : Surroundings) : Launch :=
  let path := configPath s.lookup
  match Config.load path (s.file path) with
  | .error text => silent text
  | .ok (c, origin) =>
    match c.applyEnvironment s.lookup with
    | (some flaw, _) => silent flaw.message
    | (none, c) => start s path c (if origin = .defaults then [fileMissing path] else [])

end Launch

namespace StartFlaw

/-- What is written about a failure: its text, and the causes below it. -/
def report : StartFlaw → String
  | .chain [] => "Error: "
  | .chain [text] => s!"Error: {text}"
  | .chain [text, cause] => s!"Error: {text}\n\nCaused by:\n    {cause}"
  | .chain (text :: causes) =>
    s!"Error: {text}\n\nCaused by:" ++ String.join (causes.mapIdx fun i cause => s!"\n    {i}: {cause}")
  | .cors f => f.message

/-- The exit code of the program; a failure that the program does not expect has its own. -/
def exitCode : StartFlaw → Nat
  | .chain _ => 1
  | .cors _ => 101

end StartFlaw

end RtpBroker
