/-!
# Unsigned numbers in decimal digits

A number is an optional plus sign and at least one ASCII digit, and must not
exceed a limit. The first flaw from the left is the one reported: a character
that is no digit, or the digit at which the value passes the limit.
-/

namespace RtpBroker.Text

inductive NumberFlaw
  | empty
  | invalidDigit
  | tooLarge
  deriving DecidableEq, Repr

def NumberFlaw.message : NumberFlaw → String
  | .empty => "cannot parse integer from empty string"
  | .invalidDigit => "invalid digit found in string"
  | .tooLarge => "number too large to fit in target type"

def isDigit (c : Char) : Bool := '0' ≤ c && c ≤ '9'

def digitValue (c : Char) : Nat := c.toNat - '0'.toNat

/-- The value of a hexadecimal digit of either case. -/
def hexValue? (c : Char) : Option Nat :=
  if '0' ≤ c ∧ c ≤ '9' then some (c.toNat - '0'.toNat)
  else if 'a' ≤ c ∧ c ≤ 'f' then some (c.toNat - 'a'.toNat + 10)
  else if 'A' ≤ c ∧ c ≤ 'F' then some (c.toNat - 'A'.toNat + 10)
  else none

def hexDigit (n : Nat) : Char :=
  Char.ofNat (if n < 10 then '0'.toNat + n else 'a'.toNat + (n - 10))

/-- A one with `n` zeros after it. -/
def tenTo (n : Nat) : Nat := Nat.pow 10 n

def digitsValue (cs : List Char) : Nat :=
  cs.foldl (fun acc c => acc * 10 + digitValue c) 0

/-- Continues a number whose digits so far amount to `acc`. -/
def readDigits (limit : Nat) : Nat → List Char → Except NumberFlaw Nat
  | acc, [] => .ok acc
  | acc, c :: cs =>
    if isDigit c then
      let next := acc * 10 + digitValue c
      if next ≤ limit then readDigits limit next cs else .error .tooLarge
    else .error .invalidDigit

def readNumber (limit : Nat) : List Char → Except NumberFlaw Nat
  | [] => .error .empty
  | ['+'] => .error .invalidDigit
  | '+' :: cs => readDigits limit 0 cs
  | cs => readDigits limit 0 cs

/-- `n` as hexadecimal digits in lower case, without leading zeros. -/
def hexText (n : Nat) : String := String.ofList (Nat.toDigits 16 n)

/-- `n` in decimal, padded with zeros to at least `width` digits. -/
def paddedText (width n : Nat) : String :=
  let ds := Nat.toDigits 10 n
  String.ofList (List.replicate (width - ds.length) '0' ++ ds)

end RtpBroker.Text
