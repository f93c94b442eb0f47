import RtpBroker.Json.Printer
import RtpBroker.LogFilter
import RtpBroker.Text.Quoted

/-!
# Log events

What the program tells of itself: a message under a target, with named values,
written as a line of text or as JSON.
-/

namespace RtpBroker

inductive LogValue
  | number (n : Nat)
  /-- A text that stands for itself. -/
  | plain (s : String)
  /-- A text that is quoted in a line. -/
  | quoted (s : String)
  deriving DecidableEq, Repr

structure LogEvent where
  level : LogFilter.Level
  target : String
  message : String
  values : List (String × LogValue) := []
  deriving DecidableEq, Repr

def LogValue.text : LogValue → String
  | number n => toString n
  | plain s => s
  | quoted s => Text.quote s

def LogValue.json : LogValue → Json
  | number n => .ofNat n
  | plain s => .str s
  | quoted s => .str s

namespace LogEvent

def levelName (e : LogEvent) : String := e.level.name.toUpper

/-- The line without the time at its start; short levels are moved to the right. -/
def line (e : LogEvent) : String :=
  let level := e.levelName
  let gap := String.ofList (List.replicate (5 - level.length) ' ')
  s!"{gap}{level} {e.target}: {e.message}" ++
    String.join (e.values.map fun (k, v) => s!" {k}={v.text}")

def fields (e : LogEvent) : Json :=
  .object (("message", .str e.message) :: e.values.map fun (k, v) => (k, v.json))

def json (e : LogEvent) : Json :=
  .object [("level", .str e.levelName), ("fields", e.fields), ("target", .str e.target)]

def text (format : LogFilter.Format) (e : LogEvent) : String :=
  match format with
  | .text => e.line
  | .json => e.json.text

end LogEvent

structure Logging where
  directives : List LogFilter.Directive := []
  format : LogFilter.Format := .text
  deriving DecidableEq, Repr

namespace Logging

/-- A valid level and format from the environment count before those of the configuration; an
invalid one counts for nothing. -/
def of (level format : String) (lookup : String → Option String) : Logging :=
  let level := ((lookup "MB_LOG_LEVEL").filter LogFilter.isValid).getD level
  let format := ((lookup "MB_LOG_FORMAT").bind LogFilter.Format.ofString?).or
    (LogFilter.Format.ofString? format)
  { directives := LogFilter.directives (if LogFilter.isValid level then level else "info")
    format := format.getD .text }

def keep (l : Logging) (es : List LogEvent) : List LogEvent :=
  es.filter fun e => LogFilter.passes l.directives e.target e.level

end Logging

end RtpBroker
