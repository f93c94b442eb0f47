/-!
# JSON values

The tree of a JSON text, flawed ones included: where a text stops being JSON the
tree holds `torn`, as the last thing read, and a scalar that is well formed but
stands for no value (a lone surrogate, a number beyond every double) is
`unreadable`. So a reader of typed data meets the flaws of a text in the order
in which they stand there.
-/

namespace RtpBroker

inductive Json
  | null
  | bool (b : Bool)
  | int (n : Int)
  | real (negative : Bool) (digits : Nat) (exponent : Int)
  | str (s : String)
  | arr (items : List Json)
  | obj (members : List (Option String × Json))
  | unreadable
  | torn
  deriving Inhabited, Repr

namespace Json

def object (members : List (String × Json)) : Json :=
  .obj (members.map fun (k, v) => (some k, v))

mutual

/-- Whether the text ended or went astray inside this value. -/
def isTorn : Json → Bool
  | .torn => true
  | .arr items => itemsTorn items
  | .obj members => membersTorn members
  | _ => false

def itemsTorn : List Json → Bool
  | [] => false
  | v :: vs => isTorn v || itemsTorn vs

def membersTorn : List (Option String × Json) → Bool
  | [] => false
  | (_, v) :: ms => isTorn v || membersTorn ms

end

def ofOption {α : Type} (f : α → Json) : Option α → Json
  | some a => f a
  | none => .null

def ofNat (n : Nat) : Json := .int n

def texts (ss : List String) : Json := .arr (ss.map .str)

def get? (j : Json) (name : String) : Option Json :=
  match j with
  | .obj members => (members.find? fun (k, _) => k == some name).map (·.2)
  | _ => none

/-- The double nearest to a number. -/
def float? : Json → Option Float
  | .int n => some (if n < 0 then -(Float.ofNat n.natAbs) else Float.ofNat n.natAbs)
  | .real negative digits e =>
    let x := if 0 ≤ e then Float.ofScientific digits false e.toNat
      else if e < -1000 then 0.0
      else Float.ofScientific digits true (-e).toNat
    some (if negative then -x else x)
  | _ => none

end Json

end RtpBroker
