import RtpBroker.Toml.Scalar
import RtpBroker.Toml.Table

/-!
# TOML documents

A document is read line by line into its tables, and the whole into the same
tree as JSON. Any flaw makes it none.
-/

namespace RtpBroker.Toml

def depthLimit : Nat := 80

def isBareKey (c : Char) : Bool :=
  ('a' ≤ c && c ≤ 'z') || ('A' ≤ c && c ≤ 'Z') || Text.isDigit c || c == '_' || c == '-'

def simpleKey? (cs : List Char) : Option (String × List Char) :=
  match cs with
  | '"' :: rest => basicString (rest.length + 1) [] rest
  | '\'' :: rest => literalString [] rest
  | cs =>
    let ks := cs.takeWhile isBareKey
    if ks.isEmpty then none else some (String.ofList ks, cs.dropWhile isBareKey)

def keys? : Nat → List Char → Option (List String × List Char)
  | 0, _ => none
  | fuel + 1, cs => do
    let (k, rest) ← simpleKey? (dropBlanks cs)
    match dropBlanks rest with
    | '.' :: rest =>
      let (ks, rest) ← keys? fuel rest
      some (k :: ks, rest)
    | rest => some ([k], rest)

/-- A dotted key as the keys before the last and the last. -/
def dottedKey? (cs : List Char) : Option ((List String × String) × List Char) := do
  let (ks, rest) ← keys? (depthLimit - 1) cs
  let key ← ks.getLast?
  some ((ks.dropLast, key), rest)

/-- The text after a comment; a comment holds no controls but tabs. -/
def dropComment (cs : List Char) : List Char :=
  match cs with
  | '#' :: rest => rest.dropWhile isPlain
  | cs => cs

/-- Blanks, comments and line ends. -/
def dropGap : Nat → List Char → List Char
  | 0, cs => cs
  | fuel + 1, cs =>
    let cs := dropComment (dropBlanks cs)
    match newline? cs with
    | some rest => dropGap fuel rest
    | none => cs

mutual

/-- A value with so much room for values inside it, in steps bounded by `fuel`. -/
def value? (room : Nat) : Nat → List Char → Option (Json × List Char)
  | 0, _ => none
  | fuel + 1, cs =>
    match cs with
    | '[' :: rest => if 1 < room then items? (room - 1) fuel [] rest else none
    | '\x7b' :: rest =>
      if 1 < room then
        match dropBlanks rest with
        | '\x7d' :: rest => some (.obj [], rest)
        | rest => pairs? (room - 1) fuel [] rest
      else none
    | cs => scalar? cs

def items? (room : Nat) : Nat → List Json → List Char → Option (Json × List Char)
  | 0, _, _ => none
  | fuel + 1, acc, cs =>
    match dropGap (cs.length + 1) cs with
    | ']' :: rest => some (.arr acc.reverse, rest)
    | cs =>
      match value? room fuel cs with
      | none => none
      | some (v, rest) =>
        match dropGap (rest.length + 1) rest with
        | ',' :: rest => items? room fuel (v :: acc) rest
        | ']' :: rest => some (.arr (v :: acc).reverse, rest)
        | _ => none

def pairs? (room : Nat) : Nat → Entries → List Char → Option (Json × List Char)
  | 0, _, _ => none
  | fuel + 1, es, cs =>
    match dottedKey? cs with
    | some ((path, key), '=' :: rest) =>
      match value? room fuel (dropBlanks rest) with
      | none => none
      | some (v, rest) =>
        match insert path key v false es with
        | none => none
        | some es =>
          match dropBlanks rest with
          | ',' :: rest => pairs? room fuel es rest
          | '\x7d' :: rest => some (.obj (entriesJson es), rest)
          | _ => none
    | _ => none

end

/-- The text after the end of a line on which nothing more stands. -/
def endLine? (cs : List Char) : Option (List Char) :=
  let cs := dropComment (dropBlanks cs)
  if cs.isEmpty then some [] else newline? cs

/-- The lines from here on; `header` is the path of the table they belong to. -/
def lines? : Nat → List String → Entries → List Char → Option Entries
  | 0, _, _, _ => none
  | fuel + 1, header, es, cs =>
    match dropBlanks cs with
    | [] => some es
    | '[' :: '[' :: rest => do
      let ((path, key), rest) ← dottedKey? rest
      let es ← openElement path key es
      let rest ← endLine? (← char? ']' (← char? ']' rest))
      lines? fuel (path ++ [key]) es rest
    | '[' :: rest => do
      let ((path, key), rest) ← dottedKey? rest
      let es ← openTable path key es
      let rest ← endLine? (← char? ']' rest)
      lines? fuel (path ++ [key]) es rest
    | cs =>
      match endLine? cs with
      | some rest => lines? fuel header es rest
      | none => do
        let ((path, key), rest) ← dottedKey? cs
        let rest ← char? '=' rest
        let (v, rest) ← value? depthLimit (rest.length + 1) (dropBlanks rest)
        let es ← insertAt header path key v es
        lines? fuel header es (← endLine? rest)

/-- The document as one table; a byte order mark before it does not count. -/
def ofText? (s : String) : Option Json :=
  let cs := match s.toList with
    | '\uFEFF' :: cs => cs
    | cs => cs
  (lines? (cs.length + 1) [] [] cs).map fun es => .obj (entriesJson es)

end RtpBroker.Toml
