import RtpBroker.Text.Digits

/-!
# Decimal texts of floating-point numbers

A finite double is `m * 2^q`. Its text has the fewest digits that still lie
strictly nearer to it than to any other double (the ends of that interval count
when `m` is even), and of those the nearest. The digits are written
positionally, without an exponent and without a trailing fraction of zero.
-/

namespace RtpBroker

namespace Decimal

open Text (tenTo)

def twoTo (n : Nat) : Nat := Nat.pow 2 n

/-- A positive binary fraction `num / den` with the ends of its rounding interval over the same
denominator. -/
structure Interval where
  num : Nat
  den : Nat
  low : Nat
  high : Nat
  closed : Bool

/-- The rounding interval of `m * 2^q`; below a power of two the gap is half as wide. -/
def Interval.of (m : Nat) (q : Int) (narrow : Bool) : Interval :=
  let gap := if narrow then 1 else 2
  if 0 ≤ q then
    let s := twoTo q.toNat
    ⟨4 * m * s, 4, (4 * m - gap) * s, (4 * m + 2) * s, m % 2 == 0⟩
  else
    ⟨4 * m, 4 * twoTo (-q).toNat, 4 * m - gap, 4 * m + 2, m % 2 == 0⟩

/-- Whether `d * 10^e` rounds to the number of the interval. -/
def Interval.contains (i : Interval) (d : Nat) (e : Int) : Bool :=
  let scaled := d * tenTo e.toNat * i.den
  let unit := tenTo (-e).toNat
  if i.closed then i.low * unit ≤ scaled && scaled ≤ i.high * unit
  else i.low * unit < scaled && scaled < i.high * unit

/-- The largest `k` with `10^k` at most the number, searched downwards from `start`. -/
def Interval.magnitude (i : Interval) : Nat → Int → Int
  | 0, k => k
  | fuel + 1, k =>
    if i.den * tenTo k.toNat ≤ i.num * tenTo (-k).toNat then k else i.magnitude fuel (k - 1)

/-- The first grid of decimals, from the coarsest, with a point in the interval. -/
def Interval.shortest (i : Interval) (k : Int) : Nat → Nat → Nat × Int
  | 0, n =>
    let e := k - n
    (i.num * tenTo (-e).toNat / (i.den * tenTo e.toNat), e)
  | fuel + 1, n =>
    let e := k - n
    let top := i.num * tenTo (-e).toNat
    let bottom := i.den * tenTo e.toNat
    let d := top / bottom
    let below := i.contains d e && d != 0
    let above := i.contains (d + 1) e
    if below && above then (if 2 * (top % bottom) < bottom then d else d + 1, e)
    else if below then (d, e)
    else if above then (d + 1, e)
    else i.shortest k fuel (n + 1)

/-- Drops the zeros at the end of a digit sequence, counting them into the exponent. -/
def stripZeros : Nat → Nat → Int → Nat × Int
  | 0, d, e => (d, e)
  | fuel + 1, d, e => if d % 10 == 0 && d != 0 then stripZeros fuel (d / 10) (e + 1) else (d, e)

def positional (d : Nat) (e : Int) : List Char :=
  let ds := Nat.toDigits 10 d
  if 0 ≤ e then ds ++ List.replicate e.toNat '0'
  else
    let places := (-e).toNat
    if places < ds.length then
      ds.take (ds.length - places) ++ '.' :: ds.drop (ds.length - places)
    else '0' :: '.' :: (List.replicate (places - ds.length) '0' ++ ds)

def digitsOf (m : Nat) (q : Int) (narrow : Bool) : List Char :=
  let i := Interval.of m q narrow
  let (d, e) := i.shortest (i.magnitude 700 309) 17 0
  let (d, e) := stripZeros 20 d e
  positional d e

end Decimal

/-- The shortest text that reads back as `x`. -/
def decimalText (x : Float) : String :=
  let bits : Nat := x.toBits.toNat
  let negative := bits / Decimal.twoTo 63 == 1
  let biased : Nat := bits / Decimal.twoTo 52 % 2048
  let fraction := bits % Decimal.twoTo 52
  if biased == 2047 then
    if fraction != 0 then "NaN" else if negative then "-inf" else "inf"
  else
    let digits :=
      if biased == 0 then
        if fraction == 0 then ['0'] else Decimal.digitsOf fraction (-1074) false
      else
        Decimal.digitsOf (Decimal.twoTo 52 + fraction) ((biased : Int) - 1075)
          (fraction == 0 && biased != 1)
    String.ofList (if negative then '-' :: digits else digits)

end RtpBroker
