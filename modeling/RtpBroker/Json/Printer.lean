import RtpBroker.Json
import RtpBroker.Text.Digits

/-!
# Writing JSON

The compact text of a value: no blanks, members in their order, and an escape
for quotes, backslashes and controls only.
-/

namespace RtpBroker.Json

def escape (c : Char) : List Char :=
  match c with
  | '"' => ['\\', '"']
  | '\\' => ['\\', '\\']
  | '\n' => ['\\', 'n']
  | '\r' => ['\\', 'r']
  | '\t' => ['\\', 't']
  | c =>
    if c = Char.ofNat 8 then ['\\', 'b']
    else if c = Char.ofNat 12 then ['\\', 'f']
    else if c.toNat < 0x20 then
      ['\\', 'u', '0', '0', Text.hexDigit (c.toNat / 16), Text.hexDigit (c.toNat % 16)]
    else [c]

def stringText (s : String) : String :=
  "\"" ++ String.ofList (s.toList.flatMap escape) ++ "\""

def realText (negative : Bool) (digits : Nat) (e : Int) : String :=
  (if negative then "-" else "") ++ toString digits ++ "e" ++ toString e

mutual

/-- Flaws have no text; they are written as `null`. -/
def text : Json → String
  | .null => "null"
  | .bool b => if b then "true" else "false"
  | .int n => toString n
  | .real negative digits e => realText negative digits e
  | .str s => stringText s
  | .arr items => "[" ++ ",".intercalate (itemTexts items) ++ "]"
  | .obj members => "\x7b" ++ ",".intercalate (memberTexts members) ++ "\x7d"
  | .unreadable => "null"
  | .torn => "null"

def itemTexts : List Json → List String
  | [] => []
  | v :: vs => text v :: itemTexts vs

def memberTexts : List (Option String × Json) → List String
  | [] => []
  | (k, v) :: ms => (stringText (k.getD "") ++ ":" ++ text v) :: memberTexts ms

end

end RtpBroker.Json
