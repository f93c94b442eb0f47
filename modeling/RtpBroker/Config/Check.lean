import RtpBroker.Config
import RtpBroker.LogFilter

/-!
# Checking a configuration

The contradictions that a configuration can hold, in the order in which they are
looked for.
-/

namespace RtpBroker.Config

inductive Flaw
  | invertedPorts (low high : Port)
  | noEvenPort (port : Port)
  | noAttempts
  | noSweepInterval
  | noPollInterval
  | noProgram
  | noPacketSize
  | noPublicHost
  | unknownLevel (level : String)
  | unknownFormat (format : String)
  deriving DecidableEq, Repr

def Flaw.message : Flaw → String
  | invertedPorts low high =>
    s!"RTP-Portbereich ungueltig: port_min ({low}) ist groesser als port_max ({high})"
  | noEvenPort port => s!"RTP-Portbereich {port} enthaelt keinen geraden Port"
  | noAttempts => "rtp.versuche muss groesser als 0 sein"
  | noSweepInterval => "rtp.bereinigung_intervall_secs muss groesser als 0 sein"
  | noPollInterval => "wiedergabe.pruef_intervall_ms muss groesser als 0 sein"
  | noProgram => "streaming.programm darf nicht leer sein"
  | noPacketSize => "streaming.paket_groesse muss groesser als 0 sein"
  | noPublicHost => "netzwerk.oeffentlicher_host darf nicht leer sein"
  | unknownLevel level => s!"Unbekannter Log-Level: {level}"
  | unknownFormat format => s!"Unbekanntes Log-Format: {format}"

def isBlankText (s : String) : Bool := (Text.trimChars s.toList).isEmpty

/-- The first flaw of a configuration. -/
def check (c : Config) : Except Flaw Unit :=
  if c.rtp.portMax < c.rtp.portMin then .error (.invertedPorts c.rtp.portMin c.rtp.portMax)
  else if c.rtp.portMin = c.rtp.portMax ∧ c.rtp.portMin % 2 ≠ 0 then
    .error (.noEvenPort c.rtp.portMin)
  else if c.rtp.attempts = 0 then .error .noAttempts
  else if c.rtp.sweepSeconds = 0 then .error .noSweepInterval
  else if c.playback.intervalMs = 0 then .error .noPollInterval
  else if isBlankText c.streaming.program then .error .noProgram
  else if c.streaming.packetSize = 0 then .error .noPacketSize
  else if isBlankText c.network.publicHost then .error .noPublicHost
  else if !LogFilter.isValid c.logging.level then .error (.unknownLevel c.logging.level)
  else if (LogFilter.Format.ofString? c.logging.format).isNone then
    .error (.unknownFormat c.logging.format)
  else .ok ()

end RtpBroker.Config
