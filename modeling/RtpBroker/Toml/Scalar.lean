import RtpBroker.Json.Reader

/-!
# Strings, numbers and times in TOML

A time is read for its form and range and then stands for a table with one
member, since nothing here takes one.
-/

namespace RtpBroker.Toml

def isBlank (c : Char) : Bool := c == ' ' || c == '\t'

def dropBlanks (cs : List Char) : List Char := cs.dropWhile isBlank

def newline? : List Char → Option (List Char)
  | '\n' :: cs => some cs
  | '\r' :: '\n' :: cs => some cs
  | _ => none

/-- Characters that may stand in comments and literal strings. -/
def isPlain (c : Char) : Bool := c == '\t' || (0x20 ≤ c.toNat && c.toNat ≠ 0x7F)

/-! ## Strings -/

def hexDigits? (cs : List Char) : Option Char := do
  let n := (← cs.mapM Text.hexValue?).foldl (fun acc v => acc * 16 + v) 0
  if n < 0xD800 ∨ (0xDFFF < n ∧ n < 0x110000) then some (Char.ofNat n) else none

/-- The character of an escape, without its backslash. -/
def escape? : List Char → Option (Char × List Char)
  | 'b' :: cs => some (Char.ofNat 8, cs)
  | 't' :: cs => some ('\t', cs)
  | 'n' :: cs => some ('\n', cs)
  | 'f' :: cs => some (Char.ofNat 12, cs)
  | 'r' :: cs => some ('\r', cs)
  | '"' :: cs => some ('"', cs)
  | '\\' :: cs => some ('\\', cs)
  | 'u' :: cs => if (cs.take 4).length = 4 then
      (hexDigits? (cs.take 4)).map fun c => (c, cs.drop 4) else none
  | 'U' :: cs => if (cs.take 8).length = 8 then
      (hexDigits? (cs.take 8)).map fun c => (c, cs.drop 8) else none
  | _ => none

/-- The rest of a string on one line; `acc` holds what came before, last first. -/
def basicString : Nat → List Char → List Char → Option (String × List Char)
  | 0, _, _ => none
  | _ + 1, _, [] => none
  | _ + 1, acc, '"' :: cs => some (String.ofList acc.reverse, cs)
  | fuel + 1, acc, '\\' :: cs =>
    match escape? cs with
    | some (c, cs) => basicString fuel (c :: acc) cs
    | none => none
  | fuel + 1, acc, c :: cs => if isPlain c then basicString fuel (c :: acc) cs else none

def literalString : List Char → List Char → Option (String × List Char)
  | _, [] => none
  | acc, '\'' :: cs => some (String.ofList acc.reverse, cs)
  | acc, c :: cs => if isPlain c then literalString (c :: acc) cs else none

/-- A line break between a backslash and the next visible character. -/
def continuation? (cs : List Char) : Option (List Char) :=
  (newline? (dropBlanks cs)).bind fun _ =>
    let isGap := fun c => isBlank c || c == '\n' || c == '\r'
    let gap := cs.takeWhile isGap
    let rec paired : List Char → Bool
      | [] => true
      | '\r' :: '\n' :: g => paired g
      | '\r' :: _ => false
      | _ :: g => paired g
    if paired gap then some (cs.drop gap.length) else none

/-- The end of a string over several lines: three quotes, and up to two more that belong to it. -/
def closing? (q : Char) (acc cs : List Char) : Option (String × List Char) :=
  let n := (cs.takeWhile (· == q)).length
  if 3 ≤ n then
    let extra := min (n - 3) 2
    some (String.ofList (acc.reverse ++ List.replicate extra q), cs.drop (3 + extra))
  else none

/-- The rest of a string over several lines; escapes count only between double quotes. -/
def longString (q : Char) : Nat → List Char → List Char → Option (String × List Char)
  | 0, _, _ => none
  | fuel + 1, acc, cs =>
    match closing? q acc cs with
    | some found => some found
    | none =>
      match newline? cs with
      | some rest => longString q fuel ('\n' :: acc) rest
      | none =>
        match cs with
        | [] => none
        | c :: rest =>
          if c = '\\' ∧ q = '"' then
            match continuation? rest with
            | some rest => longString q fuel acc rest
            | none =>
              match escape? rest with
              | some (c, rest) => longString q fuel (c :: acc) rest
              | none => none
          else if isPlain c then longString q fuel (c :: acc) rest
          else none

/-- A line end right after the opening quotes does not count. -/
def skipFirstBreak (cs : List Char) : List Char := (newline? cs).getD cs

def string? (cs : List Char) : Option (String × List Char) :=
  match cs with
  | '"' :: '"' :: '"' :: rest => longString '"' (rest.length + 1) [] (skipFirstBreak rest)
  | '\'' :: '\'' :: '\'' :: rest => longString '\'' (rest.length + 1) [] (skipFirstBreak rest)
  | '"' :: rest => basicString (rest.length + 1) [] rest
  | '\'' :: rest => literalString [] rest
  | _ => none

/-! ## Numbers -/

/-- Digits with single underscores between them. -/
def digitRun (ok : Char → Bool) : List Char → List Char × List Char
  | c :: '_' :: d :: cs =>
    if ok c && ok d then
      let (ds, rest) := digitRun ok (d :: cs)
      (c :: ds, rest)
    else if ok c then ([c], '_' :: d :: cs) else ([], c :: '_' :: d :: cs)
  | c :: cs =>
    if ok c then
      let (ds, rest) := digitRun ok cs
      (c :: ds, rest)
    else ([], c :: cs)
  | [] => ([], [])

/-- The whole part of a number: no zero before another digit. -/
def whole? (cs : List Char) : Option (List Char × List Char) :=
  match cs with
  | '0' :: rest => some (['0'], rest)
  | cs =>
    let (ds, rest) := digitRun Text.isDigit cs
    if ds.isEmpty then none else some (ds, rest)

def sign (cs : List Char) : Bool × List Char :=
  match cs with
  | '-' :: rest => (true, rest)
  | '+' :: rest => (false, rest)
  | rest => (false, rest)

def inWord (n : Int) : Bool := -(UInt64.size / 2 : Nat) ≤ n && n < (UInt64.size / 2 : Nat)

def radixInteger? (base : Nat) (cs : List Char) : Option (Json × List Char) :=
  let ok := fun c => match Text.hexValue? c with
    | some v => decide (v < base)
    | none => false
  let (ds, rest) := digitRun ok cs
  let n : Nat := ds.foldl (fun acc c => acc * base + (Text.hexValue? c).getD 0) 0
  if ds.isEmpty ∨ !inWord n then none else some (.int n, rest)

def integer? (cs : List Char) : Option (Json × List Char) :=
  match cs with
  | '0' :: 'x' :: rest => radixInteger? 16 rest
  | '0' :: 'o' :: rest => radixInteger? 8 rest
  | '0' :: 'b' :: rest => radixInteger? 2 rest
  | cs => do
    let (negative, cs) := sign cs
    let (ds, rest) ← whole? cs
    let n : Int := Text.digitsValue ds
    let n := if negative then -n else n
    if inWord n then some (.int n, rest) else none

def special? (cs : List Char) : Option (List Char) :=
  if cs.take 3 = "inf".toList ∨ cs.take 3 = "nan".toList then some (cs.drop 3) else none

def fraction? : List Char → Option (List Char × List Char)
  | '.' :: cs =>
    let (ds, rest) := digitRun Text.isDigit cs
    if ds.isEmpty then none else some (ds, rest)
  | _ => none

def exponent? : List Char → Option (Int × List Char)
  | c :: cs =>
    if c = 'e' ∨ c = 'E' then
      let (negative, cs) := sign cs
      let (ds, rest) := digitRun Text.isDigit cs
      if ds.isEmpty then none
      else
        let n : Int := Text.digitsValue ((ds.dropWhile (· == '0')).take 12)
        some (if negative then -n else n, rest)
    else none
  | [] => none

/-- A number with a fraction or an exponent; too large a positive one is none. -/
def float? (cs : List Char) : Option (Json × List Char) := do
  let (negative, cs) := sign cs
  match special? cs with
  | some rest => some (.real negative 0 0, rest)
  | none =>
    let (ds, rest) ← whole? cs
    match fraction? rest with
    | some (f, rest) =>
      match exponent? rest with
      | some (e, rest) => finish negative (ds ++ f) (e - f.length) rest
      | none => finish negative (ds ++ f) (-f.length) rest
    | none =>
      let (e, rest) ← exponent? rest
      finish negative ds e rest
where
  finish (negative : Bool) (ds : List Char) (e : Int) (rest : List Char) : Option (Json × List Char) :=
    match Json.realOf negative ds e with
    | .unreadable => if negative then some (.real true 0 0, rest) else none
    | v => some (v, rest)

/-! ## Times -/

def fixedDigits? (n : Nat) (cs : List Char) : Option (Nat × List Char) :=
  let ds := cs.take n
  if ds.length = n ∧ ds.all Text.isDigit then some (Text.digitsValue ds, cs.drop n) else none

def char? (c : Char) : List Char → Option (List Char)
  | d :: cs => if d = c then some cs else none
  | [] => none

def daysInMonth (y m : Nat) : Nat :=
  match m with
  | 2 => if y % 4 = 0 ∧ (y % 100 ≠ 0 ∨ y % 400 = 0) then 29 else 28
  | 4 | 6 | 9 | 11 => 30
  | _ => 31

def date? (cs : List Char) : Option (List Char) := do
  let (y, cs) ← fixedDigits? 4 cs
  let (m, cs) ← fixedDigits? 2 (← char? '-' cs)
  let (d, cs) ← fixedDigits? 2 (← char? '-' cs)
  if 1 ≤ m ∧ m ≤ 12 ∧ 1 ≤ d ∧ d ≤ daysInMonth y m then some cs else none

def time? (cs : List Char) : Option (List Char) := do
  let (h, cs) ← fixedDigits? 2 cs
  let (m, cs) ← fixedDigits? 2 (← char? ':' cs)
  let (s, cs) ← fixedDigits? 2 (← char? ':' cs)
  if h ≤ 23 ∧ m ≤ 59 ∧ s ≤ 60 then
    match cs with
    | '.' :: d :: rest =>
      if Text.isDigit d then some (rest.dropWhile Text.isDigit) else some cs
    | _ => some cs
  else none

def offset? (cs : List Char) : Option (List Char) :=
  match cs with
  | 'Z' :: rest => some rest
  | 'z' :: rest => some rest
  | c :: rest =>
    if c = '+' ∨ c = '-' then do
      let (h, rest) ← fixedDigits? 2 rest
      let (m, rest) ← fixedDigits? 2 (← char? ':' rest)
      if h ≤ 23 ∧ m ≤ 59 then some rest else none
    else none
  | [] => none

def dateTime? (cs : List Char) : Option (List Char) :=
  match date? cs with
  | none => time? cs
  | some rest =>
    match rest with
    | c :: after =>
      if c = 'T' ∨ c = 't' ∨ c = ' ' then
        match time? after with
        | some rest => some ((offset? rest).getD rest)
        | none => some rest
      else some rest
    | [] => some rest

/-- How a time appears to a reader of typed data. -/
def timeValue : Json := Json.object [("time", .str "")]

def word? (w : String) (v : Json) (cs : List Char) : Option (Json × List Char) :=
  if cs.take w.length = w.toList then some (v, cs.drop w.length) else none

/-- A value that is neither an array nor a table. -/
def scalar? (cs : List Char) : Option (Json × List Char) :=
  match cs with
  | [] => none
  | c :: _ =>
    if c = '"' ∨ c = '\'' then (string? cs).map fun (s, rest) => (.str s, rest)
    else if c = 't' then word? "true" (.bool true) cs
    else if c = 'f' then word? "false" (.bool false) cs
    else
      match dateTime? cs with
      | some rest => some (timeValue, rest)
      | none => (float? cs).or (integer? cs)

end RtpBroker.Toml
