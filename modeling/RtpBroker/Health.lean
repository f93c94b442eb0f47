import RtpBroker.Json
import RtpBroker.Metrics

/-!
# Health

The broker is healthy when it is ready, and degraded when nine tenths of its
capacity are in use. The two products compared are 64-bit words. Of a product
beyond a word an unchecked build keeps what is left of it in a word, and a
checking build stops; the answers over HTTP are those of an unchecked build.
-/

namespace RtpBroker

inductive HealthStatus
  | healthy
  | degraded
  | unhealthy
  deriving DecidableEq, Repr

def HealthStatus.name : HealthStatus → String
  | healthy => "healthy"
  | degraded => "degraded"
  | unhealthy => "unhealthy"

def HealthStatus.of (ready crowded : Bool) : HealthStatus :=
  match ready, crowded with
  | false, _ => unhealthy
  | true, true => degraded
  | true, false => healthy

/-- What is known of the broker from outside; `capacity` is zero if unknown. -/
structure Health where
  ready : Bool := false
  capacity : UInt64 := 0
  deriving Repr

namespace Health

def version : String := "0.1.0"

/-- The share of the capacity in use, in percent, from which the broker is degraded. -/
def degradedPercent : UInt64 := 90

def isCrowded (capacity active : UInt64) : Bool :=
  0 < capacity && capacity * degradedPercent ≤ active * 100

def status (h : Health) (active : UInt64) : HealthStatus :=
  .of h.ready (isCrowded h.capacity active)

/-! ## Checked arithmetic -/

def overflowText : String := "attempt to multiply with overflow"

def checkedMul (a b : UInt64) : Except String UInt64 :=
  if a.toNat * b.toNat < UInt64.size then .ok (a * b) else .error overflowText

/-- The products are only formed for a known capacity, that of the sessions first. -/
def isCrowdedChecked (capacity active : UInt64) : Except String Bool :=
  if 0 < capacity then do
    let used ← checkedMul active 100
    let mark ← checkedMul capacity degradedPercent
    return mark ≤ used
  else return false

/-- The status as a checking build finds it, or the text with which it stops. The comparison is
made whether or not the broker is ready. -/
def statusChecked (h : Health) (active : UInt64) : Except String HealthStatus := do
  return .of h.ready (← isCrowdedChecked h.capacity active)

/-! ## The report -/

def active (m : Metrics) : UInt64 := m.sessions.toWord

/-- The report; `uptime` is in seconds. -/
def report (h : Health) (active : UInt64) (uptime : Nat) : Json :=
  Json.object [
    ("status", .str (h.status active).name),
    ("version", .str version),
    ("uptime_seconds", .ofNat uptime),
    ("broker_bereit", .bool h.ready),
    ("aktive_sessions", .ofNat active.toNat),
    ("kapazitaet", .ofNat h.capacity.toNat)]

end Health

end RtpBroker
