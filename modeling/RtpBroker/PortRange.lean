import RtpBroker.Fault

/-!
# Port ranges

A closed range of ports with at least one even port. Sessions live on even
ports, so the number of even ports is the capacity of the range.
-/

namespace RtpBroker

def evenPorts (low high : Port) : Nat :=
  let first := low.toNat + low.toNat % 2
  if high.toNat < first then 0 else (high.toNat - first) / 2 + 1

structure PortRange where
  low : Port
  high : Port
  low_le_high : low ≤ high
  hasEven : 0 < evenPorts low high
  deriving Repr

namespace PortRange

def capacity (r : PortRange) : Nat := evenPorts r.low r.high

def contains (r : PortRange) (p : Port) : Bool := r.low ≤ p && p ≤ r.high

def invertedText (low high : Port) : String :=
  s!"RTP-Portbereich ungueltig: min ({low}) > max ({high})"

def oddText (low high : Port) : String :=
  s!"RTP-Portbereich {low}-{high} enthaelt keinen geraden Port"

/-- The range with these ends, unless they are inverted or enclose no even port. -/
def of (low high : Port) : Except Fault PortRange :=
  if h : low ≤ high then
    if h' : 0 < evenPorts low high then .ok ⟨low, high, h, h'⟩
    else .error (.configuration (oddText low high))
  else .error (.configuration (invertedText low high))

end PortRange

end RtpBroker
