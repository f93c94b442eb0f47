/-!
# Latency classes

The class of a duration in milliseconds: the first bound that it does not
exceed.
-/

namespace RtpBroker.LatencyClass

def classes : List (Nat × String) := [
  (1, "<=1ms"), (5, "<=5ms"), (10, "<=10ms"), (25, "<=25ms"), (50, "<=50ms"), (100, "<=100ms"),
  (250, "<=250ms"), (500, "<=500ms"), (1000, "<=1s")]

def slowest : String := ">1s"

def of (ms : Nat) : String :=
  match classes.find? fun (bound, _) => ms ≤ bound with
  | some (_, name) => name
  | none => slowest

end RtpBroker.LatencyClass
