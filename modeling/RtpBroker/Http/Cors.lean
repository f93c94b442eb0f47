import RtpBroker.Http.Media

/-!
# Cross-origin requests

The origins that may use the interface from a page of theirs. The list takes
every text that can be the value of a header; an asterisk among them is refused,
since it would not mean what it says.
-/

namespace RtpBroker.Http

structure Cors where
  origins : List String
  deriving DecidableEq, Repr

namespace Cors

def wildcard : String := "*"

inductive Flaw
  | wildcardListed
  deriving DecidableEq, Repr

def Flaw.message : Flaw → String
  | .wildcardListed =>
    "Wildcard origin (`*`) cannot be passed to `AllowOrigin::list`. Use `AllowOrigin::any()` instead"

def of (listed : List String) : Except Flaw (Option Cors) :=
  if listed.isEmpty then .ok none
  else
    let origins := listed.filter Media.isHeaderValue
    if origins.contains wildcard then .error .wildcardListed else .ok (some ⟨origins⟩)

def methods : String := "GET,POST,DELETE,OPTIONS"

def vary : String := "origin, access-control-request-method, access-control-request-headers"

/-- The header lines for a request from an origin; a preflight also learns what is allowed. -/
def headers (c : Cors) (origin : Option String) (preflight : Bool) : List (String × String) :=
  (match origin with
    | some o => if c.origins.contains o then [("access-control-allow-origin", o)] else []
    | none => []) ++
  [("vary", vary)] ++
  (if preflight then
    [("access-control-allow-methods", methods), ("access-control-allow-headers", wildcard)]
  else [])

def isPreflight (method : String) : Bool := method == "OPTIONS"

end Cors

end RtpBroker.Http
