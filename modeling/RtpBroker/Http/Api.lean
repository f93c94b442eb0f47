import RtpBroker.Broker
import RtpBroker.Exposition
import RtpBroker.Health
import RtpBroker.Http.Media
import RtpBroker.Http.Message
import RtpBroker.Json.Reader
import RtpBroker.Text.Split

/-!
# The HTTP interface

Six routes: open a session, release one, start a playback, ask what became of
it, health and metrics. A path that exists answers other methods with those it
allows. Every request is counted under its method, the pattern of its route or
else its path, and the status of its answer.
-/

namespace RtpBroker.Http

inductive Route
  | openSession
  | release (port : String)
  | play
  | playback (id : String)
  | health
  | metrics
  deriving DecidableEq, Repr

namespace Route

/-- The route of a path; a parameter is a segment that is not empty. -/
def of? (path : String) : Option Route :=
  match Text.split '/' path with
  | ["", "rtp-session"] => some .openSession
  | ["", "rtp-session", port] => if port = "" then none else some (.release port)
  | ["", "play-audio"] => some .play
  | ["", "playback", id] => if id = "" then none else some (.playback id)
  | ["", "health"] => some .health
  | ["", "metrics"] => some .metrics
  | _ => none

def pattern : Route → String
  | openSession => "/rtp-session"
  | release _ => "/rtp-session/:port"
  | play => "/play-audio"
  | playback _ => "/playback/:id"
  | health => "/health"
  | metrics => "/metrics"

def methods : Route → List String
  | release _ => ["DELETE"]
  | play => ["POST"]
  | _ => ["GET", "HEAD"]

end Route

/-- What the outside adds to a request: the chances of an allocation, a new identifier, how long the
answer takes, and for how long the program has been running, both in seconds. -/
structure Occasion where
  chance : Chance
  id : Uuid
  elapsed : Float
  uptime : Nat

/-! ## Bodies -/

def longestBody : Nat := 10 * 1024 * 1024

structure PlayBody where
  port : Option Port := none
  audio : Option String := none
  format : Option String := none
  deriving Repr

def PlayBody.record : Json.Record PlayBody where
  start := {}
  short := false
  long := false
  fields := [
    .of "rtp_port" false (.optional .uint16) (·.port) fun v b => { b with port := v },
    .of "audio_data_base64" false (.optional .text) (·.audio) fun v b => { b with audio := v },
    .of "format" false (.optional .text) (·.format) fun v b => { b with format := v }]

def noJsonTypeText : String := "Expected request with `Content-Type: application/json`"

def tooLongText : String := "Failed to buffer the request body: length limit exceeded"

def malformedText : String := "Failed to parse the request body as JSON"

def mismatchText : String := "Failed to deserialize the JSON body into the target type"

/-- The body of a request to play; text after its value is not looked at. -/
def readPlayBody (r : Request) : Except Refusal PlayBody :=
  if !(r.contentType.map Media.isJson).getD false then .error (.badRequest noJsonTypeText)
  else if longestBody < r.body.utf8ByteSize then .error (.tooLarge tooLongText)
  else
    match PlayBody.record.read (Json.ofText r.body) with
    | .ok b => .ok b
    | .error .malformed => .error (.badRequest malformedText)
    | .error .mismatch => .error (.badRequest mismatchText)

/-! ## Handlers -/

def openSession (o : Occasion) (b : Broker) : Response × Broker :=
  match b.openSession o.chance with
  | (.ok e, b) => (.json 200 (Endpoint.codec.write e), b)
  | (.error f, b) => (Refusal.response (.broker f), b)

def portText (s : String) : String := s!"Invalid URL: Cannot parse `{Text.quote s}` to a `u16`"

def readPort (segment : String) : Except Refusal Port :=
  match segmentText? segment with
  | none => .error (.badRequest "Invalid URL: Invalid UTF-8 in `port`")
  | some s =>
    match Text.readNumber (UInt16.size - 1) s.toList with
    | .ok n => .ok (UInt16.ofNat n)
    | .error _ => .error (.badRequest (portText s))

def release (segment : String) (b : Broker) : Response × Broker :=
  match readPort segment with
  | .error e => (e.response, b)
  | .ok port =>
    match b.release port with
    | (.ok _, b) => ({ status := 204 }, b)
    | (.error f, b) => (Refusal.response (.broker f), b)

/-- What a request to play asks for, once its parts have been looked at in this order: the port,
the audio, and its bytes. -/
def PlayBody.check (p : PlayBody) : Except Refusal (Port × ByteArray) :=
  match p.port with
  | none => .error (.badRequest "rtp_port fehlt")
  | some port =>
    if port = 0 then .error (.badRequest "rtp_port fehlt")
    else
      match p.audio with
      | none => .error (.badRequest "audio_data_base64 fehlt")
      | some audio =>
        if audio = "" then .error (.badRequest "audio_data_base64 fehlt")
        else
          match Base64.decode audio.toUTF8.data.toList with
          | .ok bytes => .ok (port, ByteArray.mk bytes.toArray)
          | .error f => .error (.base64 f)

def playBody (p : PlayBody) (id : Uuid) (b : Broker) : Response × Broker :=
  match p.check with
  | .error e => (e.response, b)
  | .ok (port, payload) =>
    match b.play port payload p.format id with
    | (.ok id, b) =>
      (.json 202 (Json.object [("status", .str "accepted"), ("playback_id", .str id.text)]), b)
    | (.error f, b) => (Refusal.response (.broker f), b)

def play (o : Occasion) (r : Request) (b : Broker) : Response × Broker :=
  match readPlayBody r with
  | .error e => (e.response, b)
  | .ok p => playBody p o.id b

def playback (segment : String) (b : Broker) : Response :=
  match segmentText? segment with
  | none => Refusal.response (.badRequest "Invalid URL: Invalid UTF-8 in `id`")
  | some s =>
    match Uuid.ofString? s with
    | none => Refusal.response (.badRequest "Invalid URL: UUID parsing failed")
    | some id =>
      match b.exchange.tracker.find? id with
      | some status => .json 200 (PlaybackStatus.codec.write status)
      | none => Refusal.response (.playbackNotFound id.text)

/-- The report on health, with a status code for those who read no further. -/
def healthResponse (h : Health) (active : UInt64) (uptime : Nat) : Response :=
  let code := match h.status active with
    | .unhealthy => 503
    | _ => 200
  .json code (h.report active uptime)

def metricsResponse (m : Metrics) : Response :=
  { status := 200, contentType := some Exposition.contentType, body := Exposition.text m }

def handle (o : Occasion) (h : Health) (r : Request) (b : Broker) : Route → Response × Broker
  | .openSession => openSession o b
  | .release port => release port b
  | .play => play o r b
  | .playback id => (playback id b, b)
  | .health => (healthResponse h (Health.active b.exchange.metrics) o.uptime, b)
  | .metrics => (metricsResponse b.exchange.metrics, b)

/-! ## Routing -/

/-- The answer to `HEAD` is that to `GET` without its body. -/
def Response.forMethod (method : String) (r : Response) : Response :=
  if method = "HEAD" then { r with body := "" } else r

def notFound : Response := { status := 404 }

def notAllowed (route : Route) : Response :=
  { status := 405, allow := some (",".intercalate route.methods) }

def dispatch (o : Occasion) (h : Health) (r : Request) (b : Broker) : Response × Broker :=
  match Route.of? r.path with
  | none => (notFound, b)
  | some route =>
    if route.methods.contains r.method then
      let (response, b) := handle o h r b route
      (response.forMethod r.method, b)
    else (notAllowed route, b)

def pathLabel (path : String) : String :=
  match Route.of? path with
  | some route => route.pattern
  | none => path

def countRequest (r : Request) (status : Nat) (elapsed : Float) (m : Metrics) : Metrics :=
  (m.countRequest r.method (pathLabel r.path) (toString status)).observeRequest r.method
    (pathLabel r.path) elapsed

def serve (o : Occasion) (h : Health) (r : Request) (b : Broker) : Response × Broker :=
  let (response, b) := dispatch o h r b
  (response, { b with
    exchange := { b.exchange with
      metrics := countRequest r response.status o.elapsed b.exchange.metrics } })

/-! ## Health and metrics alone -/

/-- The answers of a server that only shows health and metrics, and counts no requests. -/
def observe (h : Health) (uptime : Nat) (r : Request) (m : Metrics) : Response :=
  match Route.of? r.path with
  | some .health =>
    if Route.health.methods.contains r.method then
      (healthResponse h (Health.active m) uptime).forMethod r.method
    else notAllowed .health
  | some .metrics =>
    if Route.metrics.methods.contains r.method then (metricsResponse m).forMethod r.method
    else notAllowed .metrics
  | _ => notFound

end RtpBroker.Http
