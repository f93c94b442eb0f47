import RtpBroker.Fault
import RtpBroker.Text.Blank
import RtpBroker.Text.Quoted

/-!
# Audio formats

The format of a payload becomes the extension of a file, so it is short and
alphanumeric. Blanks around it do not count, and a missing one means `mp3`.
-/

namespace RtpBroker.AudioFormat

def standard : String := "mp3"

def longest : Nat := 10

def isAlphanumeric (c : Char) : Bool :=
  Text.isDigit c || ('a' ≤ c && c ≤ 'z') || ('A' ≤ c && c ≤ 'Z')

def lower (c : Char) : Char := if 'A' ≤ c ∧ c ≤ 'Z' then Char.ofNat (c.toNat + 32) else c

def refusal (format : String) : Fault :=
  .badRequest s!"Ungueltiges Audioformat: {Text.quote format}"

def check : Option String → Except Fault String
  | none => .ok standard
  | some f =>
    let f := Text.trim f
    if f = "" then .ok standard
    else if longest < f.utf8ByteSize ∨ !f.toList.all isAlphanumeric then .error (refusal f)
    else .ok (String.ofList (f.toList.map lower))

end RtpBroker.AudioFormat
