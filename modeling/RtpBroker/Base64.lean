/-!
# Base64

The standard alphabet with padding, read strictly: four symbols carry three
bytes, the last group is filled up with `=`, and the bits that carry no byte are
zero. Each kind of damage has its own flaw, with the place of the first one.
-/

namespace RtpBroker.Base64

inductive Flaw
  | symbol (byte : UInt8) (offset : Nat)
  | length (symbols : Nat)
  | lastSymbol (byte : UInt8) (offset : Nat)
  | padding
  deriving DecidableEq, Repr

def Flaw.message : Flaw → String
  | .symbol b i => s!"Invalid symbol {b}, offset {i}."
  | .length n => s!"Invalid input length: {n}"
  | .lastSymbol b i => s!"Invalid last symbol {b}, offset {i}."
  | .padding => "Invalid padding"

def pad : UInt8 := 61

/-- The six bits that a symbol stands for. -/
def sextet? (b : UInt8) : Option Nat :=
  let n := b.toNat
  if 65 ≤ n ∧ n ≤ 90 then some (n - 65)
  else if 97 ≤ n ∧ n ≤ 122 then some (n - 71)
  else if 48 ≤ n ∧ n ≤ 57 then some (n + 4)
  else if n = 43 then some 62
  else if n = 47 then some 63
  else none

def sextetAt (b : UInt8) (offset : Nat) : Except Flaw Nat :=
  match sextet? b with
  | some v => .ok v
  | none => .error (.symbol b offset)

def bytes3 (a b c d : Nat) : UInt8 × UInt8 × UInt8 :=
  (UInt8.ofNat (a * 4 + b / 16), UInt8.ofNat (b % 16 * 16 + c / 4), UInt8.ofNat (c % 4 * 64 + d))

/-- What the last group holds: its symbols with their bytes, and the padding after them. -/
structure Tail where
  sextets : List Nat := []
  lastByte : UInt8 := 0
  pads : Nat := 0
  firstPad : Nat := 0

/-- Sorts the last group into symbols and padding; padding needs two symbols before it and
nothing but padding after it. -/
def readTail (start : Nat) : Nat → Tail → List UInt8 → Except Flaw Tail
  | _, t, [] => .ok t
  | i, t, b :: bs =>
    if b = pad then
      if i < 2 then .error (.symbol b (start + i))
      else readTail start (i + 1)
        { t with pads := t.pads + 1, firstPad := if t.pads = 0 then i else t.firstPad } bs
    else if 0 < t.pads then .error (.symbol pad (start + t.firstPad))
    else do
      let v ← sextetAt b (start + i)
      readTail start (i + 1) { t with sextets := t.sextets ++ [v], lastByte := b } bs

/-- The bytes of the last group; `start` symbols came before it. -/
def decodeTail (start : Nat) (bs : List UInt8) : Except Flaw (List UInt8) := do
  let t ← readTail start 0 {} bs
  let n := t.sextets.length
  if n < 2 && !(start == 0 && bs.isEmpty) then .error (.length (start + n))
  else if (t.pads + n) % 4 ≠ 0 then .error .padding
  else
    match t.sextets with
    | [a, b] =>
      if b % 16 ≠ 0 then .error (.lastSymbol t.lastByte (start + 1))
      else .ok [(bytes3 a b 0 0).1]
    | [a, b, c] =>
      if c % 4 ≠ 0 then .error (.lastSymbol t.lastByte (start + 2))
      else
        let (x, y, _) := bytes3 a b c 0
        .ok [x, y]
    | [a, b, c, d] =>
      let (x, y, z) := bytes3 a b c d
      .ok [x, y, z]
    | _ => .ok []

/-- Reads whole groups while more than one is left; `acc` holds the bytes so far, last first. -/
def decodeGroups : Nat → List UInt8 → List UInt8 → Except Flaw (List UInt8)
  | start, acc, a :: b :: c :: d :: e :: rest =>
    match sextetAt a start, sextetAt b (start + 1), sextetAt c (start + 2),
        sextetAt d (start + 3) with
    | .ok v, .ok w, .ok x, .ok y =>
      let (p, q, r) := bytes3 v w x y
      decodeGroups (start + 4) (r :: q :: p :: acc) (e :: rest)
    | .error f, _, _, _ => .error f
    | _, .error f, _, _ => .error f
    | _, _, .error f, _ => .error f
    | _, _, _, .error f => .error f
  | start, acc, rest =>
    match decodeTail start rest with
    | .ok last => .ok (acc.reverse ++ last)
    | .error f => .error f

/-- A lone byte after the last whole group that is no symbol at all is reported first. -/
def strayLast? (bs : List UInt8) : Option Flaw :=
  if bs.length % 4 = 1 then
    match bs.getLast? with
    | some b => if b ≠ pad ∧ sextet? b = none then some (.symbol b (bs.length - 1)) else none
    | none => none
  else none

def decode (bs : List UInt8) : Except Flaw (List UInt8) :=
  match strayLast? bs with
  | some f => .error f
  | none => decodeGroups 0 [] bs

end RtpBroker.Base64
