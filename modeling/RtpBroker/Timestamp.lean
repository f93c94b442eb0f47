import RtpBroker.Text.Blank
import RtpBroker.Text.Digits

/-!
# Calendar times

A time in UTC with nanoseconds, its ISO 8601 text, and a reader that is lenient
about blanks and separators. A leap second is the second before it with at
least `10^9` nanoseconds.
-/

namespace RtpBroker

/-- Seconds since the start of 1970, and nanoseconds below `2 * 10^9`. -/
structure Timestamp where
  seconds : Int
  nanos : Nat
  deriving DecidableEq, Repr, Inhabited

namespace Timestamp

def before (a b : Timestamp) : Bool :=
  a.seconds < b.seconds || (a.seconds == b.seconds && a.nanos < b.nanos)

/-! ## The calendar -/

/-- The first and the last year that have dates. -/
def firstYear : Int := -262143

def lastYear : Int := 262142

def isLeapYear (y : Int) : Bool := y % 4 == 0 && (y % 100 != 0 || y % 400 == 0)

def daysInMonth (y : Int) (m : Nat) : Nat :=
  match m with
  | 2 => if isLeapYear y then 29 else 28
  | 4 | 6 | 9 | 11 => 30
  | _ => 31

/-- Days from the start of 1970 to a date. Years begin in March here, so that the leap day is the
last of its year. -/
def daysOfDate (y : Int) (m d : Nat) : Int :=
  let y := if m ≤ 2 then y - 1 else y
  let era := y.fdiv 400
  let yearOfEra := y - era * 400
  let dayOfYear : Int := (153 * ((m + 9) % 12) + 2) / 5 + d - 1
  era * 146097 + (yearOfEra * 365 + yearOfEra / 4 - yearOfEra / 100 + dayOfYear) - 719468

/-- The date that lies `days` days after the start of 1970. -/
def dateOfDays (days : Int) : Int × Nat × Nat :=
  let z := days + 719468
  let era := z.fdiv 146097
  let dayOfEra := (z - era * 146097).toNat
  let yearOfEra := (dayOfEra - dayOfEra / 1460 + dayOfEra / 36524 - dayOfEra / 146096) / 365
  let dayOfYear := dayOfEra - (365 * yearOfEra + yearOfEra / 4 - yearOfEra / 100)
  let mp := (5 * dayOfYear + 2) / 153
  let d := dayOfYear - (153 * mp + 2) / 5 + 1
  let m := if mp < 10 then mp + 3 else mp - 9
  (yearOfEra + era * 400 + (if m ≤ 2 then 1 else 0), m, d)

def secondsPerDay : Nat := 86400

/-- The earliest time of the calendar. -/
def earliest : Timestamp := ⟨daysOfDate firstYear 1 1 * secondsPerDay, 0⟩

def inCalendar (seconds : Int) : Bool :=
  let y := (dateOfDays (seconds.fdiv secondsPerDay)).1
  firstYear ≤ y && y ≤ lastYear

def nanosPerSecond : Nat := 1000000000

/-- The time so many nanoseconds earlier, if the calendar has it. -/
def minus? (t : Timestamp) (n : Nat) : Option Timestamp :=
  let whole := n / nanosPerSecond
  let part := n % nanosPerSecond
  let u : Timestamp :=
    if part ≤ t.nanos then ⟨t.seconds - whole, t.nanos - part⟩
    else ⟨t.seconds - whole - 1, t.nanos + nanosPerSecond - part⟩
  if u.before earliest then none else some u

/-- The time a whole number of seconds earlier, if the calendar has it. -/
def minusSeconds? (t : Timestamp) (s : Nat) : Option Timestamp :=
  let u : Timestamp := ⟨t.seconds - s, t.nanos⟩
  if u.before earliest then none else some u

theorem minus?_seconds (t : Timestamp) (s : Nat) :
    t.minus? (nanosPerSecond * s) = t.minusSeconds? s := by
  have hwhole : nanosPerSecond * s / nanosPerSecond = s := Nat.mul_div_cancel_left s (by decide)
  have hpart : nanosPerSecond * s % nanosPerSecond = 0 := Nat.mul_mod_right nanosPerSecond s
  simp [minus?, minusSeconds?, hwhole, hpart]

/-! ## Writing -/

/-- A year of four digits, or with a sign and at least four digits. -/
def yearText (y : Int) : String :=
  if 0 ≤ y ∧ y ≤ 9999 then Text.paddedText 4 y.toNat
  else (if y < 0 then "-" else "+") ++ Text.paddedText 4 y.natAbs

/-- No fraction, or the shortest of 3, 6 and 9 digits that loses nothing. -/
def fractionText (nanos : Nat) : String :=
  if nanos = 0 then ""
  else if nanos % 1000000 = 0 then "." ++ Text.paddedText 3 (nanos / 1000000)
  else if nanos % 1000 = 0 then "." ++ Text.paddedText 6 (nanos / 1000)
  else "." ++ Text.paddedText 9 nanos

def text (t : Timestamp) : String :=
  let (y, m, d) := dateOfDays (t.seconds.fdiv secondsPerDay)
  let s := (t.seconds.fmod secondsPerDay).toNat
  let leap := t.nanos / 1000000000
  yearText y ++ "-" ++ Text.paddedText 2 m ++ "-" ++ Text.paddedText 2 d ++ "T" ++
    Text.paddedText 2 (s / 3600) ++ ":" ++ Text.paddedText 2 (s / 60 % 60) ++ ":" ++
    Text.paddedText 2 (s % 60 + leap) ++ fractionText (t.nanos % 1000000000) ++ "Z"

/-! ## Reading -/

/-- At most `width` digits, at least one, with the rest. -/
def takeNumber? (width : Nat) (cs : List Char) : Option (Nat × List Char) :=
  let ds := (cs.take width).takeWhile Text.isDigit
  if ds.isEmpty then none else some (Text.digitsValue ds, cs.drop ds.length)

def takeChar? (c : Char) : List Char → Option (List Char)
  | d :: cs => if d = c then some cs else none
  | [] => none

def takeField? (cs : List Char) : Option (Nat × List Char) :=
  takeNumber? 2 (Text.dropBlanks cs)

/-- A year after blanks: four digits, or a sign and any number of digits. -/
def takeYear? (cs : List Char) : Option (Int × List Char) :=
  match Text.dropBlanks cs with
  | '-' :: rest => (takeNumber? rest.length rest).map fun (n, r) => (-(n : Int), r)
  | '+' :: rest => (takeNumber? rest.length rest).map fun (n, r) => ((n : Int), r)
  | rest => (takeNumber? 4 rest).map fun (n, r) => ((n : Int), r)

def takeSeparator? (c : Char) (cs : List Char) : Option (List Char) :=
  takeChar? c (Text.dropBlanks cs)

/-- A fraction of a second in nanoseconds; digits after the ninth are dropped. -/
def takeFraction? : List Char → Option (Nat × List Char)
  | '.' :: cs => do
    let (n, rest) ← takeNumber? 9 cs
    let places := cs.length - rest.length
    some (n * Text.tenTo (9 - places), rest.dropWhile Text.isDigit)
  | cs => some (0, cs)

/-- The offset from UTC in seconds. -/
def takeOffset? (cs : List Char) : Option (Int × List Char) :=
  if ((cs.take 3).map Char.toUpper) = ['U', 'T', 'C'] then some (0, cs.drop 3)
  else
    match cs with
    | 'Z' :: rest => some (0, rest)
    | 'z' :: rest => some (0, rest)
    | sign :: h₁ :: h₂ :: rest =>
      if (sign = '+' ∨ sign = '-' ∨ sign = '\u2212') ∧ Text.isDigit h₁ ∧ Text.isDigit h₂ then
        match rest.dropWhile (fun c => c == ':' || Text.isBlank c) with
        | m₁ :: m₂ :: rest =>
          if Text.isDigit m₁ ∧ Text.isDigit m₂ ∧ m₁ ≤ '5' then
            let s : Int := Text.digitsValue [h₁, h₂] * 3600 + Text.digitsValue [m₁, m₂] * 60
            some (if sign = '+' then s else -s, rest)
          else none
        | _ => none
      else none
    | _ => none

/-- The time of a date, a time of day and an offset, if all of them exist. -/
def compose? (y : Int) (mo d h mi s nanos : Nat) (offset : Int) : Option Timestamp :=
  if firstYear ≤ y ∧ y ≤ lastYear ∧ 1 ≤ mo ∧ mo ≤ 12 ∧ 1 ≤ d ∧ d ≤ daysInMonth y mo ∧
      h < 24 ∧ mi < 60 ∧ s ≤ 60 ∧ -86400 < offset ∧ offset < 86400 then
    let leap := if s = 60 then 1 else 0
    let seconds := daysOfDate y mo d * secondsPerDay + (h * 3600 + mi * 60 + (s - leap) : Nat)
      - offset
    if inCalendar seconds then some ⟨seconds, nanos + leap * 1000000000⟩ else none
  else none

def ofChars? (cs : List Char) : Option Timestamp := do
  let (y, cs) ← takeYear? cs
  let (mo, cs) ← takeField? (← takeSeparator? '-' cs)
  let (d, cs) ← takeField? (← takeSeparator? '-' cs)
  let cs ← match cs with
    | 'T' :: r => some r
    | 't' :: r => some r
    | ' ' :: r => some r
    | _ => none
  let (h, cs) ← takeField? cs
  let (mi, cs) ← takeField? (← takeSeparator? ':' cs)
  let (s, cs) ← takeField? (← takeSeparator? ':' cs)
  let (nanos, cs) ← takeFraction? cs
  let (offset, cs) ← takeOffset? (Text.dropBlanks cs)
  if (Text.dropBlanks cs).isEmpty then compose? y mo d h mi s nanos offset else none

def ofString? (s : String) : Option Timestamp := ofChars? s.toList

end Timestamp

end RtpBroker
