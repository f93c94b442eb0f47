import RtpBroker.Json
import RtpBroker.Text.Digits

/-!
# Reading JSON

A text is read from the left into the tree of its first value. Reading never
fails: it stops at the first character that cannot go on a JSON text, and the
tree says where.
-/

namespace RtpBroker.Json

def isSpace (c : Char) : Bool := c == ' ' || c == '\n' || c == '\t' || c == '\r'

def dropSpace (cs : List Char) : List Char := cs.dropWhile isSpace

/-! ## Strings -/

def hex4? (a b c d : Char) : Option Nat := do
  return (((← Text.hexValue? a) * 16 + (← Text.hexValue? b)) * 16 + (← Text.hexValue? c)) * 16 +
    (← Text.hexValue? d)

def shortEscape? : Char → Option Char
  | '"' => some '"'
  | '\\' => some '\\'
  | '/' => some '/'
  | 'b' => some (Char.ofNat 8)
  | 'f' => some (Char.ofNat 12)
  | 'n' => some '\n'
  | 'r' => some '\r'
  | 't' => some '\t'
  | _ => none

def isHighSurrogate (n : Nat) : Bool := 0xD800 ≤ n && n < 0xDC00

def isLowSurrogate (n : Nat) : Bool := 0xDC00 ≤ n && n < 0xE000

/-- What stands between the quotes: its characters if every surrogate has its partner. -/
structure Chars where
  reversed : List Char := []
  sound : Bool := true
  /-- The high half of a pair whose low half must come next. -/
  high : Option Nat := none

def Chars.push (s : Chars) (c : Char) : Chars :=
  { reversed := c :: s.reversed, sound := s.sound && s.high.isNone }

/-- Adds the code unit of a numeric escape. -/
def Chars.pushUnit (s : Chars) (n : Nat) : Chars :=
  match s.high with
  | some h =>
    if isLowSurrogate n then
      { s with
        reversed := Char.ofNat (0x10000 + (h - 0xD800) * 0x400 + (n - 0xDC00)) :: s.reversed
        high := none }
    else { s with sound := false, high := none }
  | none =>
    if isHighSurrogate n then { s with high := some n }
    else if isLowSurrogate n then { s with sound := false }
    else s.push (Char.ofNat n)

def Chars.finish (s : Chars) : Option String :=
  if s.sound && s.high.isNone then some (String.ofList s.reversed.reverse) else none

/-- Reads up to the closing quote; the string is none if a surrogate is alone. -/
def readString : Chars → List Char → Option (Option String × List Char)
  | s, '"' :: rest => some (s.finish, rest)
  | s, '\\' :: 'u' :: a :: b :: c :: d :: rest =>
    match hex4? a b c d with
    | some n => readString (s.pushUnit n) rest
    | none => none
  | s, '\\' :: c :: rest =>
    match shortEscape? c with
    | some c => readString (s.push c) rest
    | none => none
  | s, c :: rest => if c.toNat < 0x20 ∨ c = '\\' then none else readString (s.push c) rest
  | _, [] => none

/-! ## Numbers -/

/-- Of a long number only so many digits are kept; those after them count as zeros. -/
def keptDigits : Nat := 400

/-- Halfway between the largest double and the next power of two; from here on a number is
beyond every double. -/
def beyondDoubles : Nat := Nat.pow 2 1024 - Nat.pow 2 970

def outOfRange (digits : Nat) (e : Int) : Bool :=
  if digits = 0 then false
  else if 310 < e then true
  else if 0 ≤ e then beyondDoubles ≤ digits * Text.tenTo e.toNat
  else if (Nat.toDigits 10 digits).length + e < 300 then false
  else beyondDoubles * Text.tenTo (-e).toNat ≤ digits

def realOf (negative : Bool) (ds : List Char) (e : Int) : Json :=
  let ds := ds.dropWhile (· == '0')
  let kept := Text.digitsValue (ds.take keptDigits)
  let e := e + (ds.length - keptDigits : Nat)
  if outOfRange kept e then .unreadable else .real negative kept e

def intOf (negative : Bool) (ds : List Char) : Json :=
  if 25 < ds.length then realOf negative ds 0
  else
    let n := Text.digitsValue ds
    if negative then
      if 0 < n ∧ n ≤ UInt64.size / 2 then .int (-n) else realOf true ds 0
    else if n < UInt64.size then .int n else realOf false ds 0

/-- The digits after a point; none if there is no point. -/
def fraction? : List Char → Option (Option (List Char) × List Char)
  | '.' :: cs =>
    let ds := cs.takeWhile Text.isDigit
    if ds.isEmpty then none else some (some ds, cs.dropWhile Text.isDigit)
  | cs => some (none, cs)

def exponentDigits? (negative : Bool) (cs : List Char) : Option (Option Int × List Char) :=
  let ds := cs.takeWhile Text.isDigit
  if ds.isEmpty then none
  else
    let n := Text.digitsValue ((ds.dropWhile (· == '0')).take 12)
    some (some (if negative then -n else n), cs.dropWhile Text.isDigit)

/-- The exponent after an `e`; none if there is none. -/
def exponent? : List Char → Option (Option Int × List Char)
  | [] => some (none, [])
  | c :: cs =>
    if c = 'e' ∨ c = 'E' then
      match cs with
      | '+' :: rest => exponentDigits? false rest
      | '-' :: rest => exponentDigits? true rest
      | rest => exponentDigits? false rest
    else some (none, c :: cs)

/-- An unsigned number: no zero before another digit of the whole part. -/
def readUnsigned (negative : Bool) (cs : List Char) : Option (Json × List Char) := do
  let whole := cs.takeWhile Text.isDigit
  if whole.isEmpty ∨ (1 < whole.length ∧ whole.head? = some '0') then none
  let (fraction, rest) ← fraction? (cs.dropWhile Text.isDigit)
  let (exponent, rest) ← exponent? rest
  match fraction, exponent with
  | none, none => some (intOf negative whole, rest)
  | f, e =>
    let f := f.getD []
    some (realOf negative (whole ++ f) (e.getD 0 - f.length), rest)

def readNumber? : List Char → Option (Json × List Char)
  | '-' :: cs => readUnsigned true cs
  | cs => readUnsigned false cs

/-! ## Values -/

/-- A value and the text after it; no text after a value in which the reader stopped. -/
abbrev Reading := Json × Option (List Char)

def literal (word : String) (v : Json) (cs : List Char) : Reading :=
  let w := word.toList
  if cs.take w.length = w then (v, some (cs.drop w.length)) else (.torn, none)

mutual

def readValue : Nat → List Char → Reading
  | 0, _ => (.torn, none)
  | fuel + 1, cs =>
    match dropSpace cs with
    | [] => (.torn, none)
    | '"' :: rest =>
      match readString {} rest with
      | some (some s, rest) => (.str s, some rest)
      | some (none, rest) => (.unreadable, some rest)
      | none => (.torn, none)
    | '[' :: rest =>
      match dropSpace rest with
      | ']' :: rest => (.arr [], some rest)
      | rest => readItems fuel [] rest
    | '\x7b' :: rest =>
      match dropSpace rest with
      | '\x7d' :: rest => (.obj [], some rest)
      | rest => readMembers fuel [] rest
    | 't' :: rest => literal "true" (.bool true) ('t' :: rest)
    | 'f' :: rest => literal "false" (.bool false) ('f' :: rest)
    | 'n' :: rest => literal "null" .null ('n' :: rest)
    | rest =>
      match readNumber? rest with
      | some (v, rest) => (v, some rest)
      | none => (.torn, none)

/-- The items from here to the closing bracket; `acc` holds those before them, last first. -/
def readItems : Nat → List Json → List Char → Reading
  | 0, acc, _ => (.arr (Json.torn :: acc).reverse, none)
  | fuel + 1, acc, cs =>
    match readValue fuel cs with
    | (v, none) => (.arr (v :: acc).reverse, none)
    | (v, some rest) =>
      match dropSpace rest with
      | ',' :: rest => readItems fuel (v :: acc) rest
      | ']' :: rest => (.arr (v :: acc).reverse, some rest)
      | _ => (.arr (Json.torn :: v :: acc).reverse, none)

def readMembers : Nat → List (Option String × Json) → List Char → Reading
  | 0, acc, _ => (.obj ((none, Json.torn) :: acc).reverse, none)
  | fuel + 1, acc, cs =>
    match dropSpace cs with
    | '"' :: rest =>
      match readString {} rest with
      | none => (.obj ((none, Json.torn) :: acc).reverse, none)
      | some (key, rest) =>
        match dropSpace rest with
        | ':' :: rest =>
          match readValue fuel rest with
          | (v, none) => (.obj ((key, v) :: acc).reverse, none)
          | (v, some rest) =>
            match dropSpace rest with
            | ',' :: rest => readMembers fuel ((key, v) :: acc) rest
            | '\x7d' :: rest => (.obj ((key, v) :: acc).reverse, some rest)
            | _ => (.obj ((none, Json.torn) :: (key, v) :: acc).reverse, none)
        | _ => (.obj ((key, Json.torn) :: acc).reverse, none)
    | _ => (.obj ((none, Json.torn) :: acc).reverse, none)

end

def ofText (s : String) : Json := (readValue (s.utf8ByteSize + 2) s.toList).1

/-- The value of a text that holds nothing else. -/
def ofWholeText? (s : String) : Option Json :=
  match readValue (s.utf8ByteSize + 2) s.toList with
  | (v, some rest) => if (dropSpace rest).isEmpty then some v else none
  | (_, none) => none

end RtpBroker.Json
