import RtpBroker.Base64
import RtpBroker.Fault
import RtpBroker.Json.Printer

/-!
# Requests and answers

An HTTP request as the routes see it, an answer, and the refusals of the API with
their texts and status codes.
-/

namespace RtpBroker.Http

structure Request where
  method : String
  path : String
  contentType : Option String
  body : String

structure Response where
  status : Nat
  contentType : Option String := none
  allow : Option String := none
  body : String := ""
  deriving Repr

def jsonType : String := "application/json"

def Response.json (status : Nat) (j : Json) : Response :=
  { status, contentType := some jsonType, body := j.text }

inductive Refusal
  | broker (fault : Fault)
  | badRequest (reason : String)
  | base64 (flaw : Base64.Flaw)
  | tooLarge (reason : String)
  | playbackNotFound (id : String)
  deriving Repr

namespace Refusal

def message : Refusal → String
  | broker f => f.message
  | badRequest r => s!"Ungueltige Anfrage: {r}"
  | base64 f => s!"Ungueltige Base64-Daten: {f.message}"
  | tooLarge r => s!"Anfrage zu gross: {r}"
  | playbackNotFound id => s!"Wiedergabe nicht gefunden: {id}"

def status : Refusal → Nat
  | broker f => f.status
  | badRequest _ => 400
  | base64 _ => 400
  | tooLarge _ => 413
  | playbackNotFound _ => 404

def response (r : Refusal) : Response :=
  .json r.status (Json.object [("error", Json.object [
    ("code", .ofNat r.status), ("message", .str r.message)])])

end Refusal

end RtpBroker.Http
