import RtpBroker.Text.Split

/-!
# Log levels, filters and formats

A log filter is a list of directives between commas. A directive is a level, or
a target and a level with an equals sign between them. Of the directives whose
target begins the target of an event, the longest decides which levels pass.
-/

namespace RtpBroker.LogFilter

inductive Level
  | trace
  | debug
  | info
  | warn
  | error
  deriving DecidableEq, Repr

namespace Level

def all : List Level := [trace, debug, info, warn, error]

def rank : Level → Nat
  | trace => 0
  | debug => 1
  | info => 2
  | warn => 3
  | error => 4

def name : Level → String
  | trace => "trace"
  | debug => "debug"
  | info => "info"
  | warn => "warn"
  | error => "error"

/-- The level with this name, in lower case only. -/
def ofName? (cs : List Char) : Option Level := all.find? fun l => l.name.toList == cs

end Level

/-- Lets events pass from a level on, if their target begins with its own. -/
structure Directive where
  target : List Char := []
  level : Level
  deriving DecidableEq, Repr

/-- The first equals sign ends the target; a directive without one is a level. -/
def directive? (cs : List Char) : Option Directive :=
  match cs.dropWhile (· != '=') with
  | [] => (Level.ofName? cs).map fun level => { level }
  | _ :: name =>
    if cs.head? = some '=' then none
    else (Level.ofName? name).map fun level => { target := cs.takeWhile (· != '='), level }

def isDirective (cs : List Char) : Bool := (directive? cs).isSome

def isValid (s : String) : Bool := s != "" && (Text.splitChars ',' s.toList).all isDirective

def directives (s : String) : List Directive := (Text.splitChars ',' s.toList).filterMap directive?

/-- Of two directives for one target the later one, else the one with the longer target. -/
def stronger (target : List Char) (best : Option Directive) (d : Directive) : Option Directive :=
  if !d.target.isPrefixOf target then best
  else match best with
    | none => some d
    | some b => if b.target.length ≤ d.target.length then some d else best

def passes (ds : List Directive) (target : String) (level : Level) : Bool :=
  match ds.foldl (stronger target.toList) none with
  | some d => d.level.rank ≤ level.rank
  | none => false

inductive Format
  | text
  | json
  deriving DecidableEq, Repr

def Format.ofString? : String → Option Format
  | "text" => some .text
  | "json" => some .json
  | _ => none

def Format.flaw (s : String) : String := "unbekanntes Log-Format: " ++ s

end RtpBroker.LogFilter
