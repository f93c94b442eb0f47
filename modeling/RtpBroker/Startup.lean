import RtpBroker.Config.Check
import RtpBroker.Config.Environment
import RtpBroker.Http.Api
import RtpBroker.Http.Cors
import RtpBroker.LogEvent

/-!
# Starting up

What has to hold before the broker serves requests, in the order in which it is
looked at: the setup of the broker, the addresses of its servers, the origins of
cross-origin requests, and a free port for the interface. Each step that is
taken is logged.
-/

namespace RtpBroker

/-- The broker and what is known of its health, before anything runs. -/
structure Components where
  broker : Broker
  health : Health

inductive StartFlaw
  /-- Texts from the outside in. -/
  | chain (texts : List String)
  | cors (flaw : Http.Cors.Flaw)
  deriving DecidableEq, Repr

namespace Config

def components (c : Config) (host : Host) (calendar : Timestamp) :
    Except StartFlaw Components :=
  match c.brokerSetup host with
  | .error texts => .error (.chain texts)
  | .ok setup =>
    match Broker.start setup calendar with
    | .error f => .error (.chain [f.message])
    | .ok broker =>
      .ok { broker, health := { capacity := UInt64.ofNat broker.capacity } }

def observabilityAddressText : String := "Observability-Bind-Adresse ungueltig"

def apiAddressText : String := "API-Bind-Adresse ungueltig"

def readAddress (context text : String) : Except StartFlaw SocketAddr :=
  match SocketAddr.ofString? text with
  | some a => .ok a
  | none => .error (.chain [context, SocketAddr.flaw])

/-- The address of the interface; that of the separate server is looked at first if there is one. -/
def readAddresses (c : Config) : Except StartFlaw SocketAddr := do
  if c.observability.enabled then
    let _ ← readAddress observabilityAddressText c.observabilityAddress
  readAddress apiAddressText c.apiAddress

/-! ## Events -/

def serverTarget : String := "mediabroker_server"

def brokerTarget : String := "mediabroker_rtp::broker"

def interfaceTarget : String := "mediabroker_api::server"

def brokerReady (c : Config) (b : Broker) : LogEvent where
  level := .info
  target := brokerTarget
  message := "MediaBroker initialisiert"
  values := [("port_min", .number c.rtp.portMin.toNat), ("port_max", .number c.rtp.portMax.toNat),
    ("kapazitaet", .number b.capacity), ("quarantaene_ms", .number b.setup.cooldown),
    ("host", .plain c.network.publicHost)]

def starting (c : Config) : LogEvent where
  level := .info
  target := serverTarget
  message := "Mediabroker startet"
  values := [("api", .plain c.apiAddress), ("host", .plain c.network.publicHost),
    ("rtp_min", .number c.rtp.portMin.toNat), ("rtp_max", .number c.rtp.portMax.toNat)]

def serving (address : SocketAddr) : LogEvent where
  level := .info
  target := interfaceTarget
  message := "Mediabroker-API gestartet"
  values := [("addr", .plain address.text)]

def served : LogEvent where
  level := .info
  target := interfaceTarget
  message := "Mediabroker-API beendet"

def stopping (sessions : Nat) : List LogEvent := [
  { level := .info, target := serverTarget
    message := "Shutdown-Signal empfangen, Mediabroker wird beendet" },
  { level := .info, target := brokerTarget, message := "MediaBroker faehrt herunter"
    values := [("sessions", .number sessions)] }]

/-- Brings the broker up; `bindError?` is why a TCP address cannot be bound. -/
def bringUp (c : Config) (host : Host) (calendar : Timestamp)
    (bindError? : SocketAddr → Option String) :
    List LogEvent × Except StartFlaw (Components × Option Http.Cors) :=
  match c.components host calendar with
  | .error f => ([], .error f)
  | .ok parts =>
    let events := [c.brokerReady parts.broker]
    match c.readAddresses with
    | .error f => (events, .error f)
    | .ok address =>
      let events := events ++ [c.starting]
      match Http.Cors.of c.network.corsOrigins with
      | .error f => (events, .error (.cors f))
      | .ok cors =>
        match bindError? address with
        | some text => (events ++ stopping 0, .error (.chain [text]))
        | none =>
          (events ++ [serving address], .ok (
            { broker := parts.broker.startReaper c.sweepInterval c.idleLimit c.retention
              health := { parts.health with ready := true } }, cors))

end Config

end RtpBroker
