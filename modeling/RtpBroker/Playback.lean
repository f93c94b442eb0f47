import RtpBroker.Fault
import RtpBroker.Json.Record
import RtpBroker.SessionState
import RtpBroker.Timestamp
import RtpBroker.Uuid

/-!
# Playbacks

The phases of a playback, the record that tells what became of it, and the
place where a peer is told to send its media, with their JSON forms.
-/

namespace RtpBroker

inductive Phase
  | waiting
  | streaming
  | completed
  | failed
  | timedOut
  | cancelled
  deriving DecidableEq, Repr, Inhabited

namespace Phase

def all : List Phase := [waiting, streaming, completed, failed, timedOut, cancelled]

def label : Phase → String
  | waiting => "waiting"
  | streaming => "streaming"
  | completed => "completed"
  | failed => "failed"
  | timedOut => "timed_out"
  | cancelled => "cancelled"

def ofLabel? (s : String) : Option Phase := all.find? (·.label == s)

def isFinished : Phase → Bool
  | waiting => false
  | streaming => false
  | _ => true

def codec : Json.Codec Phase := .choice label ofLabel?

end Phase

def SessionState.codec : Json.Codec SessionState := .choice SessionState.name SessionState.ofName?

structure PlaybackStatus where
  id : Uuid
  port : Port
  phase : Phase
  exitCode : Option Int
  fault : Option String
  accepted : Timestamp
  finished : Option Timestamp
  deriving DecidableEq, Repr, Inhabited

namespace PlaybackStatus

def fresh (id : Uuid) (port : Port) (now : Timestamp) : PlaybackStatus where
  id
  port
  phase := .waiting
  exitCode := none
  fault := none
  accepted := now
  finished := none

open Json

def record : Record PlaybackStatus where
  start := default
  short := false
  long := false
  fields := [
    .of "id" true (.named Uuid.text Uuid.ofString?) (·.id) fun v s => { s with id := v },
    .of "port" true .uint16 (·.port) fun v s => { s with port := v },
    .of "phase" true Phase.codec (·.phase) fun v s => { s with phase := v },
    .of "exit_code" false (.optional .int32) (·.exitCode) fun v s => { s with exitCode := v },
    .of "fehler" false (.optional .text) (·.fault) fun v s => { s with fault := v },
    .of "angenommen_am" true (.named Timestamp.text Timestamp.ofString?) (·.accepted)
      fun v s => { s with accepted := v },
    .of "beendet_am" false (.optional (.named Timestamp.text Timestamp.ofString?)) (·.finished)
      fun v s => { s with finished := v }]

def codec : Codec PlaybackStatus := record.codec

end PlaybackStatus

/-- Where a peer sends its media. -/
structure Endpoint where
  host : String
  port : Port
  deriving DecidableEq, Repr, Inhabited

namespace Endpoint

open Json

def record : Record Endpoint where
  start := ⟨"", 0⟩
  short := false
  long := false
  fields := [
    .of "host" true .text (·.host) fun v e => { e with host := v },
    .of "port" true .uint16 (·.port) fun v e => { e with port := v }]

def codec : Codec Endpoint := record.codec

end Endpoint

/-- The text of a playback's identifier. -/
def playbackName (id : Uuid) : String := "playback:" ++ id.text

end RtpBroker
