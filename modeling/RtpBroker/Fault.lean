/-!
# Faults

What can go wrong with a session or a playback, the text that names it, the
HTTP status that answers it, and whether a later attempt may succeed.
-/

namespace RtpBroker

abbrev Port := UInt16

inductive Fault
  | portsExhausted (attempts : UInt32)
  | sessionNotFound (port : Port)
  | portTaken (port : Port)
  | badRequest (reason : String)
  | remoteUnknown (waited : UInt64)
  | stream (reason : String)
  | configuration (reason : String)
  | system (reason : String)
  | internal (reason : String)
  /-- A cause from elsewhere, shown by its own text. -/
  | other (text : String)
  deriving DecidableEq, Repr

namespace Fault

def message : Fault → String
  | portsExhausted n => s!"Kein freier RTP-Port nach {n} Versuchen gefunden"
  | sessionNotFound p => s!"RTP-Session nicht gefunden: Port {p}"
  | portTaken p => s!"Port bereits registriert: {p}"
  | badRequest r => s!"Ungueltige Anfrage: {r}"
  | remoteUnknown ms => s!"Remote-Adresse nach {ms}ms nicht bekannt"
  | stream r => s!"Streaming-Prozess fehlgeschlagen: {r}"
  | configuration r => s!"Konfigurationsfehler: {r}"
  | system r => s!"IO-Fehler: {r}"
  | internal r => s!"Interner Fehler: {r}"
  | other t => t

def status : Fault → Nat
  | badRequest _ => 400
  | sessionNotFound _ => 404
  | portTaken _ => 409
  | remoteUnknown _ => 504
  | _ => 500

/-- A search among drawn ports can fail although ports are free, and a peer may still speak. -/
def isRetryable : Fault → Bool
  | portsExhausted _ => true
  | remoteUnknown _ => true
  | _ => false

/-- No request is to blame for a fault that a later attempt may not meet. -/
theorem status_of_isRetryable {f : Fault} (h : f.isRetryable = true) : 500 ≤ f.status := by
  cases f <;> simp_all [isRetryable, status]

end Fault

end RtpBroker
