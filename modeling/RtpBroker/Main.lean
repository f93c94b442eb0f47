import Std.Time.Format
import RtpBroker.Launch

/-!
# The program

Starts up as the surroundings say. A failure is written to standard error and
gives the exit code. Once up, the program answers requests from standard input,
one on a line as `METHOD TARGET BODY`, until the input ends. It has no sockets
of its own, so nobody is heard on the ports that it hands out.
-/

namespace RtpBroker.Console

/-- A request on a line; a body is JSON. -/
def request? (line : String) : Option Http.Request :=
  match line.splitOn " " with
  | method :: target :: rest =>
    let body := " ".intercalate rest
    (Http.Target.path? target).bind fun path =>
      if Http.isMethod method then
        some { method, path, body, contentType := if body = "" then none else some Http.jsonType }
      else none
  | _ => none

def responseText (r : Http.Response) : String :=
  toString r.status ++ " " ++ r.contentType.getD "-" ++ "\n" ++ r.body

/-- Candidates from a seed; every port that is drawn can be bound. -/
def chanceOf (range : PortRange) (seed : UInt64) : Chance where
  draw := fun round i =>
    let width := range.high.toNat - range.low.toNat + 1
    UInt16.ofNat (range.low.toNat + (hash (seed, round, i)).toNat % width)
  bindError? := fun _ _ => none

def uuidOf (bytes : ByteArray) : Uuid :=
  Uuid.random (BitVec.ofNat 128 (bytes.data.toList.foldl (fun acc b => acc * 256 + b.toNat) 0))

def calendar : IO Timestamp := do
  let t ← Std.Time.Timestamp.now
  let nanos := t.toNanosecondsSinceUnixEpoch.toInt
  return ⟨nanos.fdiv 1000000000, (nanos.fmod 1000000000).toNat⟩

def readFile (path : String) : IO Config.File := do
  try
    match String.fromUTF8? (← IO.FS.readBinFile path) with
    | some text => return .text text
    | none => return .notText
  catch e =>
    match e with
    | .noFileOrDirectory .. => return .missing
    | .inappropriateType .. => return .directory
    | .permissionDenied .. => return .unreadable Host.deniedText
    | e => return .unreadable (toString e)

def variableNames : List String :=
  ["MEDIABROKER_CONFIG", "MB_LOG_LEVEL", "MB_LOG_FORMAT"] ++ Config.overrides.map (·.name)

def surroundings : IO Surroundings := do
  let values ← variableNames.mapM fun name => return (name, ← IO.getEnv name)
  let lookup := fun name => (values.lookup name).join
  let file ← readFile (Launch.configPath lookup)
  let now ← calendar
  return {
    lookup, file := fun _ => file, host := {}, calendar := now
    bindError? := fun _ => none }

def printLog (l : Logging) (es : List LogEvent) : IO Unit := do
  for e in l.keep es do IO.println (e.text l.format)

/-- Answers the lines of the input; `start` is the time of the start in milliseconds. -/
partial def answerLines (start : Nat) (health : Health) (b : Broker) : IO Broker := do
  let line ← (← IO.getStdin).getLine
  if line.isEmpty then return b
  let now := (← IO.monoMsNow) - start
  let b := b.advance (now - b.now)
  let b := { b with exchange := { b.exchange with calendar := ← calendar } }
  match request? line.trimAscii.toString with
  | none =>
    IO.println "400 -\n"
    answerLines start health b
  | some r =>
    let bytes ← IO.getRandomBytes 16
    let seed := hash (bytes.data.toList.map (·.toNat))
    let o : Http.Occasion := ⟨chanceOf b.allocator.range seed, uuidOf bytes, 0.0, now / 1000⟩
    let (response, b) := Http.serve o health r b
    IO.println (responseText response)
    (← IO.getStdout).flush
    answerLines start health b

end RtpBroker.Console

open RtpBroker in
def main : IO UInt32 := do
  let launch := Launch.run (← Console.surroundings)
  Console.printLog launch.logging launch.events
  match launch.result with
  | .error flaw =>
    IO.eprintln flaw.report
    return UInt32.ofNat flaw.exitCode
  | .ok (parts, _) =>
    let b ← Console.answerLines (← IO.monoMsNow) parts.health parts.broker
    Console.printLog launch.logging
      (Config.served :: Config.stopping b.exchange.registered.length)
    return 0
