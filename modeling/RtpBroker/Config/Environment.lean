import RtpBroker.Config

/-!
# Settings from the environment

Five variables replace settings, in a fixed order. A number may stand between
blanks. The first bad one stops the replacing; those before it stay.
-/

namespace RtpBroker.Config

/-- A variable whose value is no number that fits. -/
structure EnvironmentFlaw where
  name : String
  value : String
  flaw : Text.NumberFlaw
  deriving DecidableEq, Repr

def EnvironmentFlaw.message (f : EnvironmentFlaw) : String :=
  s!"Umgebungsvariable {f.name}={Text.quote f.value} ungueltig: {f.flaw.message}"

/-- The number that a variable holds. -/
def readVariable (limit : Nat) (name value : String) : Except EnvironmentFlaw Nat :=
  match Text.readNumber limit (Text.trimChars value.toList) with
  | .ok n => .ok n
  | .error flaw => .error ⟨name, value, flaw⟩

structure Variable where
  name : String
  set : String → Config → Except EnvironmentFlaw Config

def number (name : String) (limit : Nat) (set : Nat → Config → Config) : Variable :=
  ⟨name, fun value c => (readVariable limit name value).map fun n => set n c⟩

/-- In the order in which they are applied. -/
def overrides : List Variable := [
  number "PORT" (UInt16.size - 1) fun n c =>
    { c with network := { c.network with apiPort := UInt16.ofNat n } },
  ⟨"PUBLIC_IP", fun value c =>
    .ok { c with network := { c.network with publicHost := value } }⟩,
  number "RTP_PORT_MIN" (UInt16.size - 1) fun n c =>
    { c with rtp := { c.rtp with portMin := UInt16.ofNat n } },
  number "RTP_PORT_MAX" (UInt16.size - 1) fun n c =>
    { c with rtp := { c.rtp with portMax := UInt16.ofNat n } },
  number "RTP_PORT_QUARANTINE_SECONDS" (UInt64.size - 1) fun n c =>
    { c with rtp := { c.rtp with cooldownSeconds := UInt64.ofNat n } }]

def applyFrom (lookup : String → Option String) :
    List Variable → Config → Option EnvironmentFlaw × Config
  | [], c => (none, c)
  | v :: vs, c =>
    match lookup v.name with
    | none => applyFrom lookup vs c
    | some value =>
      match v.set value c with
      | .ok c => applyFrom lookup vs c
      | .error flaw => (some flaw, c)

def applyEnvironment (lookup : String → Option String) (c : Config) :
    Option EnvironmentFlaw × Config :=
  applyFrom lookup overrides c

end RtpBroker.Config
