import RtpBroker.Broker
import RtpBroker.Toml

/-!
# Configuration

All settings with their defaults, their JSON form, and how they are read from a
file. A missing setting has its default, and a file that does not exist stands
for the defaults.
-/

namespace RtpBroker

structure NetworkConfig where
  bindAddress : String := "0.0.0.0"
  apiPort : Port := 3003
  publicHost : String := "127.0.0.1"
  corsOrigins : List String := []
  deriving DecidableEq, Repr

structure RtpConfig where
  bindHost : String := "0.0.0.0"
  portMin : Port := 10000
  portMax : Port := 10100
  attempts : UInt32 := 100
  bindAttempts : UInt32 := 3
  /-- Zero means never. -/
  idleSeconds : UInt64 := 0
  sweepSeconds : UInt64 := 30
  cooldownSeconds : UInt64 := 5
  deriving DecidableEq, Repr

structure PlaybackConfig where
  ceilingMs : UInt64 := 5000
  intervalMs : UInt64 := 500
  retentionSeconds : UInt64 := 600
  deriving DecidableEq, Repr

structure LoggingConfig where
  level : String := "info"
  format : String := "text"
  deriving DecidableEq, Repr

structure ObservabilityConfig where
  enabled : Bool := false
  port : Port := 9300
  deriving DecidableEq, Repr

structure Config where
  network : NetworkConfig := {}
  rtp : RtpConfig := {}
  playback : PlaybackConfig := {}
  streaming : StreamSetup := {}
  logging : LoggingConfig := {}
  observability : ObservabilityConfig := {}
  deriving DecidableEq, Repr

namespace Config

open Json

/-! ## Form

`long` says whether an array for a record may go on after its last field.
-/

def networkRecord (long : Bool) : Record NetworkConfig where
  start := {}
  short := true
  long
  fields := [
    .of "bind_adresse" false .text (·.bindAddress) fun v c => { c with bindAddress := v },
    .of "api_port" false .uint16 (·.apiPort) fun v c => { c with apiPort := v },
    .of "oeffentlicher_host" false .text (·.publicHost) fun v c => { c with publicHost := v },
    .of "cors_origins" false (.list .text) (·.corsOrigins) fun v c => { c with corsOrigins := v }]

def rtpRecord (long : Bool) : Record RtpConfig where
  start := {}
  short := true
  long
  fields := [
    .of "bind_host" false .text (·.bindHost) fun v c => { c with bindHost := v },
    .of "port_min" false .uint16 (·.portMin) fun v c => { c with portMin := v },
    .of "port_max" false .uint16 (·.portMax) fun v c => { c with portMax := v },
    .of "versuche" false .uint32 (·.attempts) fun v c => { c with attempts := v },
    .of "bind_versuche" false .uint32 (·.bindAttempts) fun v c => { c with bindAttempts := v },
    .of "inaktivitaet_timeout_secs" false .uint64 (·.idleSeconds)
      fun v c => { c with idleSeconds := v },
    .of "bereinigung_intervall_secs" false .uint64 (·.sweepSeconds)
      fun v c => { c with sweepSeconds := v },
    .of "quarantaene_secs" false .uint64 (·.cooldownSeconds)
      fun v c => { c with cooldownSeconds := v }]

def playbackRecord (long : Bool) : Record PlaybackConfig where
  start := {}
  short := true
  long
  fields := [
    .of "wartezeit_ms" false .uint64 (·.ceilingMs) fun v c => { c with ceilingMs := v },
    .of "pruef_intervall_ms" false .uint64 (·.intervalMs) fun v c => { c with intervalMs := v },
    .of "aufbewahrung_secs" false .uint64 (·.retentionSeconds)
      fun v c => { c with retentionSeconds := v }]

def streamingRecord (long : Bool) : Record StreamSetup where
  start := {}
  short := true
  long
  fields := [
    .of "programm" false .text (·.program) fun v c => { c with program := v },
    .of "vor_argumente" false (.list .text) (·.leading) fun v c => { c with leading := v },
    .of "sample_rate" false .uint32 (·.sampleRate) fun v c => { c with sampleRate := v },
    .of "kanaele" false .uint8 (·.channels) fun v c => { c with channels := v },
    .of "codec" false .text (·.codec) fun v c => { c with codec := v },
    .of "paket_groesse" false .uint16 (·.packetSize) fun v c => { c with packetSize := v },
    .of "temp_verzeichnis" false (.optional .text) (·.tempDir) fun v c => { c with tempDir := v }]

def loggingRecord (long : Bool) : Record LoggingConfig where
  start := {}
  short := true
  long
  fields := [
    .of "level" false .text (·.level) fun v c => { c with level := v },
    .of "format" false .text (·.format) fun v c => { c with format := v }]

def observabilityRecord (long : Bool) : Record ObservabilityConfig where
  start := {}
  short := true
  long
  fields := [
    .of "aktiviert" false .bool (·.enabled) fun v c => { c with enabled := v },
    .of "port" false .uint16 (·.port) fun v c => { c with port := v }]

def record (long : Bool) : Record Config where
  start := {}
  short := true
  long
  fields := [
    .of "netzwerk" false (networkRecord long).codec (·.network) fun v c => { c with network := v },
    .of "rtp" false (rtpRecord long).codec (·.rtp) fun v c => { c with rtp := v },
    .of "wiedergabe" false (playbackRecord long).codec (·.playback)
      fun v c => { c with playback := v },
    .of "streaming" false (streamingRecord long).codec (·.streaming)
      fun v c => { c with streaming := v },
    .of "logging" false (loggingRecord long).codec (·.logging) fun v c => { c with logging := v },
    .of "observability" false (observabilityRecord long).codec (·.observability)
      fun v c => { c with observability := v }]

def codec : Codec Config := (record false).codec

/-- The form in TOML; arrays for records may go on there. -/
def tomlCodec : Codec Config := (record true).codec

/-! ## Files -/

/-- What is found where a configuration file should be. -/
inductive File
  | missing
  | unreadable (reason : String)
  | text (content : String)
  deriving Repr

inductive Origin
  | file
  | defaults
  deriving DecidableEq, Repr

def File.notText : File := .unreadable "stream did not contain valid UTF-8"

def File.directory : File := .unreadable "Is a directory (os error 21)"

def fileFlaw (path : String) : String := s!"Konfigurationsfehler in '{path}': "

def unreadableText (path reason : String) : String :=
  s!"Konfigurationsdatei '{path}' nicht lesbar: {reason}"

def load (path : String) : File → Except String (Config × Origin)
  | .missing => .ok ({}, .defaults)
  | .unreadable reason => .error (unreadableText path reason)
  | .text content =>
    match Toml.ofText? content with
    | none => .error (fileFlaw path)
    | some j =>
      match tomlCodec.read j with
      | .ok c => .ok (c, .file)
      | .error _ => .error (fileFlaw path)

/-! ## What follows from it -/

def milliseconds (seconds : UInt64) : Nat := seconds.toNat * 1000

/-- An empty name stands for the standard directory. -/
def tempDir (c : Config) : Option String := c.streaming.tempDir.filter (· != "")

/-- Says of a host that it is no address, and why, from the outside in. -/
def bindHostFlaw (host : String) : List String :=
  [s!"rtp.bind_host ungueltig: {host}", IpAddr.flaw]

def brokerSetup (c : Config) (host : Host) : Except (List String) BrokerSetup :=
  match IpAddr.ofString? c.rtp.bindHost with
  | none => .error (bindHostFlaw c.rtp.bindHost)
  | some bindHost => .ok {
      publicHost := c.network.publicHost
      bindHost
      low := c.rtp.portMin
      high := c.rtp.portMax
      attempts := c.rtp.attempts
      bindAttempts := c.rtp.bindAttempts
      cooldown := milliseconds c.rtp.cooldownSeconds
      play := {
        stream := { c.streaming with tempDir := c.tempDir }
        ceiling := c.playback.ceilingMs.toNat
        interval := c.playback.intervalMs.toNat
        host } }

/-- How long a session may be idle, in milliseconds; none means forever. -/
def idleLimit (c : Config) : Option Nat :=
  if c.rtp.idleSeconds = 0 then none else some (milliseconds c.rtp.idleSeconds)

def sweepInterval (c : Config) : Nat := milliseconds c.rtp.sweepSeconds

/-- In seconds. -/
def retention (c : Config) : Nat := c.playback.retentionSeconds.toNat

def apiAddress (c : Config) : String := s!"{c.network.bindAddress}:{c.network.apiPort}"

def observabilityAddress (c : Config) : String :=
  s!"{c.network.bindAddress}:{c.observability.port}"

end Config

end RtpBroker
