import RtpBroker.Session

/-!
# One stream on its own

What becomes of a single stream whose program ends in a given way, apart from
any session.
-/

namespace RtpBroker

structure StreamReport where
  outcome : Outcome
  /-- The audio file, which is gone by now. -/
  file : Option String
  /-- The arguments of the program, if it ran. -/
  arguments : Option (List String)
  deriving Repr

namespace StreamReport

/-- The report on a stream that ends with `outcome` once its program runs. -/
def of (c : PlaySetup) (port : Port) (target : SocketAddr) (r : Request) (outcome : Outcome) :
    StreamReport :=
  match Session.launch c 0 port target r with
  | .error (o, file) => ⟨o, file, none⟩
  | .ok st => ⟨outcome, some st.file, some st.arguments⟩

/-- How many durations are observed for it: one, if there was a file. -/
def samples (s : StreamReport) : Nat := if s.file.isSome then 1 else 0

end StreamReport

end RtpBroker
