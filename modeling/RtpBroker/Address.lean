import RtpBroker.Text.Digits

/-!
# Internet addresses

IPv4 and IPv6 addresses, with and without a port, their texts and the grammar
that reads them. An IPv4 part has no leading zero. An IPv6 address is written
with its first longest run of at least two zero groups left out.
-/

namespace RtpBroker

inductive IpAddr
  | v4 (a b c d : UInt8)
  | v6 (groups : Vector UInt16 8)
  deriving DecidableEq, Repr, Inhabited

/-- An address with a port; the scope is that of an IPv6 address. -/
structure SocketAddr where
  ip : IpAddr
  port : UInt16
  scope : UInt32 := 0
  deriving DecidableEq, Repr, Inhabited

namespace Address

/-! ## Writing -/

def groupsText (gs : List UInt16) : String :=
  ":".intercalate (gs.map fun g => Text.hexText g.toNat)

/-- The longest run of zero groups so far and the run that ends here, as start and length. -/
structure ZeroRun where
  start : Nat := 0
  length : Nat := 0

def longestZeros (gs : List UInt16) : ZeroRun :=
  let step := fun (best, current, i) (g : UInt16) =>
    if g = 0 then
      let current : ZeroRun := if current.length = 0 then ⟨i, 1⟩
        else ⟨current.start, current.length + 1⟩
      (if best.length < current.length then current else best, current, i + 1)
    else (best, ({} : ZeroRun), i + 1)
  (gs.foldl step (({} : ZeroRun), ({} : ZeroRun), 0)).1

def v4Text (a b c d : UInt8) : String := s!"{a}.{b}.{c}.{d}"

def v6Text (gs : List UInt16) : String :=
  match gs with
  | [0, 0, 0, 0, 0, 0xFFFF, g, h] =>
    "::ffff:" ++ v4Text (g >>> 8).toUInt8 g.toUInt8 (h >>> 8).toUInt8 h.toUInt8
  | gs =>
    let z := longestZeros gs
    if 1 < z.length then
      groupsText (gs.take z.start) ++ "::" ++ groupsText (gs.drop (z.start + z.length))
    else groupsText gs

/-! ## Reading -/

def number? (base width limit : Nat) (leadingZero : Bool) (cs : List Char) :
    Option (Nat × List Char) :=
  let isDigitOf := fun c => match Text.hexValue? c with
    | some v => decide (v < base)
    | none => false
  let ds := cs.takeWhile isDigitOf
  let n := ds.foldl (fun acc c => acc * base + (Text.hexValue? c).getD 0) 0
  if ds.isEmpty ∨ width < ds.length then none
  else if !leadingZero ∧ 1 < ds.length ∧ ds.head? = some '0' then none
  else if limit < n then none
  else some (n, cs.dropWhile isDigitOf)

def char? (c : Char) : List Char → Option (List Char)
  | d :: cs => if d = c then some cs else none
  | [] => none

def octet? (cs : List Char) : Option (UInt8 × List Char) :=
  (number? 10 3 255 false cs).map fun (n, r) => (UInt8.ofNat n, r)

def v4? (cs : List Char) : Option (IpAddr × List Char) := do
  let (a, cs) ← octet? cs
  let (b, cs) ← octet? (← char? '.' cs)
  let (c, cs) ← octet? (← char? '.' cs)
  let (d, cs) ← octet? (← char? '.' cs)
  some (.v4 a b c d, cs)

def separator? (first : Bool) (cs : List Char) : Option (List Char) :=
  if first then some cs else char? ':' cs

/-- The two groups of an IPv4 address at the end of an IPv6 address. -/
def embedded? (first : Bool) (cs : List Char) : Option (List UInt16 × List Char) := do
  match ← v4? (← separator? first cs) with
  | (.v4 a b c d, rest) =>
    some ([a.toUInt16 <<< 8 ||| b.toUInt16, c.toUInt16 <<< 8 ||| d.toUInt16], rest)
  | _ => none

def group? (first : Bool) (cs : List Char) : Option (UInt16 × List Char) := do
  let (n, rest) ← number? 16 4 0xFFFF true (← separator? first cs)
  some (UInt16.ofNat n, rest)

/-- At most `room` groups, and whether the last two were an IPv4 address, which ends them. -/
def groups : Nat → Bool → List Char → List UInt16 × Bool × List Char
  | 0, _, cs => ([], false, cs)
  | room + 1, first, cs =>
    match if 0 < room then embedded? first cs else none with
    | some (gs, rest) => (gs, true, rest)
    | none =>
      match group? first cs with
      | some (g, rest) =>
        let (gs, four, rest) := groups room false rest
        (g :: gs, four, rest)
      | none => ([], false, cs)

def ofGroups? (gs : List UInt16) : Option IpAddr :=
  if h : gs.length = 8 then some (.v6 ⟨gs.toArray, by simp [h]⟩) else none

/-- Eight groups, or fewer around `::`, which stands for the zero groups that are missing. -/
def v6? (cs : List Char) : Option (IpAddr × List Char) := do
  let (head, four, cs) := groups 8 true cs
  if head.length = 8 then return (← ofGroups? head, cs)
  if four then none
  let cs ← char? ':' (← char? ':' cs)
  let (tail, _, cs) := groups (7 - head.length) true cs
  return (← ofGroups? (head ++ List.replicate (8 - head.length - tail.length) 0 ++ tail), cs)

def port? (cs : List Char) : Option (UInt16 × List Char) :=
  (number? 10 cs.length 0xFFFF true cs).map fun (n, r) => (UInt16.ofNat n, r)

/-- The scope after an IPv6 address; none stands for zero. -/
def scope? (cs : List Char) : Option (UInt32 × List Char) :=
  match cs with
  | '%' :: rest => (number? 10 rest.length 0xFFFFFFFF true rest).map fun (n, r) => (UInt32.ofNat n, r)
  | cs => some (0, cs)

def socketV4? (cs : List Char) : Option (SocketAddr × List Char) := do
  let (ip, cs) ← v4? cs
  let (port, cs) ← port? (← char? ':' cs)
  some ({ ip, port }, cs)

def socketV6? (cs : List Char) : Option (SocketAddr × List Char) := do
  let (ip, cs) ← v6? (← char? '[' cs)
  let (scope, cs) ← scope? cs
  let (port, cs) ← port? (← char? ':' (← char? ']' cs))
  some ({ ip, port, scope }, cs)

/-- What a reader finds, if it uses up the text. -/
def whole? {α : Type} (read : List Char → Option (α × List Char)) (cs : List Char) : Option α :=
  match read cs with
  | some (a, []) => some a
  | _ => none

end Address

def IpAddr.text : IpAddr → String
  | .v4 a b c d => Address.v4Text a b c d
  | .v6 gs => Address.v6Text gs.toList

def IpAddr.ofString? (s : String) : Option IpAddr :=
  (Address.whole? Address.v4? s.toList).or (Address.whole? Address.v6? s.toList)

def IpAddr.flaw : String := "invalid IP address syntax"

def SocketAddr.text (a : SocketAddr) : String :=
  match a.ip with
  | .v4 .. => s!"{a.ip.text}:{a.port}"
  | .v6 _ =>
    if a.scope = 0 then s!"[{a.ip.text}]:{a.port}" else s!"[{a.ip.text}%{a.scope}]:{a.port}"

def SocketAddr.ofString? (s : String) : Option SocketAddr :=
  (Address.whole? Address.socketV4? s.toList).or (Address.whole? Address.socketV6? s.toList)

def SocketAddr.flaw : String := "invalid socket address syntax"

end RtpBroker
