import RtpBroker.Address
import RtpBroker.Fault

/-!
# Streaming

The settings of the streaming program, its command line, and how a stream can
end. The program is given the audio file, the shape of the audio, and the RTP
address of the peer.
-/

namespace RtpBroker

structure StreamSetup where
  program : String := "ffmpeg"
  /-- Arguments before those of the stream. -/
  leading : List String := []
  sampleRate : UInt32 := 8000
  channels : UInt8 := 1
  codec : String := "pcm_mulaw"
  /-- Bytes per RTP packet. -/
  packetSize : UInt16 := 160
  /-- None stands for the standard directory. -/
  tempDir : Option String := none
  deriving DecidableEq, Repr, Inhabited

namespace StreamSetup

def targetUrl (s : StreamSetup) (target : SocketAddr) : String :=
  s!"rtp://{target.text}?pkt_size={s.packetSize}"

def arguments (s : StreamSetup) (file : String) (target : SocketAddr) : List String :=
  s.leading ++ ["-re", "-i", file, "-ar", toString s.sampleRate, "-ac", toString s.channels,
    "-acodec", s.codec, "-f", "rtp", s.targetUrl target]

end StreamSetup

/-- What becomes known of the end of a program. -/
inductive Ending
  /-- It ended by itself, without a code if by a signal. -/
  | exit (code : Option Int)
  /-- It could not be waited for, and is killed unless it ended. -/
  | unawaited (reason : String)
  deriving DecidableEq, Repr

inductive Outcome
  | ended (ending : Ending)
  | notStarted (reason : String)
  | noFile (reason : String)
  /-- The session was closed while the program ran. -/
  | aborted
  deriving DecidableEq, Repr

namespace Outcome

def exitCode : Outcome → Option Int
  | ended (.exit code) => code
  | _ => none

def succeeded (o : Outcome) : Bool := o.exitCode == some 0

/-- None for success and for an aborted stream. -/
def fault : Outcome → Option Fault
  | ended (.exit none) => some (.stream "durch Signal beendet")
  | ended (.exit (some code)) => if code = 0 then none else some (.stream s!"Exit-Code {code}")
  | ended (.unawaited reason) => some (.stream s!"Warten auf Prozess fehlgeschlagen: {reason}")
  | notStarted reason => some (.stream reason)
  | noFile reason => some (.stream s!"temporaere Datei: {reason}")
  | aborted => none

end Outcome

end RtpBroker
