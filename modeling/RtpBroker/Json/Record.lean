import RtpBroker.Json

/-!
# Typed data in JSON

A codec writes a type as JSON and reads it back. A record is a list of named
fields; it is written as an object and read from an object, or from an array by
position. Unknown members are passed over, a known one may come once only, and
of several flaws the first one in the text is reported.
-/

namespace RtpBroker.Json

/-- Why no typed value was found: the text is no JSON there, or it is JSON of another shape. -/
inductive Flaw
  | malformed
  | mismatch
  deriving DecidableEq, Repr

/-- The flaw of a value that is none of those looked for. -/
def wrong : Json → Flaw
  | .torn => .malformed
  | .unreadable => .malformed
  | _ => .mismatch

structure Codec (α : Type) where
  write : α → Json
  read : Json → Except Flaw α

namespace Codec

def text : Codec String where
  write := .str
  read
    | .str s => .ok s
    | j => .error j.wrong

def bool : Codec Bool where
  write := .bool
  read
    | .bool b => .ok b
    | j => .error j.wrong

/-- Integers between two bounds, both allowed. -/
def int (low high : Int) : Codec Int where
  write := .int
  read
    | .int n => if low ≤ n ∧ n ≤ high then .ok n else .error .mismatch
    | j => .error j.wrong

def map {α β : Type} (c : Codec α) (f : α → β) (g : β → α) : Codec β where
  write b := c.write (g b)
  read j := (c.read j).map f

def uint8 : Codec UInt8 :=
  (int 0 (UInt8.size - 1)).map (fun n => UInt8.ofNat n.toNat) fun n => n.toNat

def uint16 : Codec UInt16 :=
  (int 0 (UInt16.size - 1)).map (fun n => UInt16.ofNat n.toNat) fun n => n.toNat

def uint32 : Codec UInt32 :=
  (int 0 (UInt32.size - 1)).map (fun n => UInt32.ofNat n.toNat) fun n => n.toNat

def uint64 : Codec UInt64 :=
  (int 0 (UInt64.size - 1)).map (fun n => UInt64.ofNat n.toNat) fun n => n.toNat

def int32 : Codec Int := int (-(UInt32.size / 2 : Nat)) (UInt32.size / 2 - 1 : Nat)

def optional {α : Type} (c : Codec α) : Codec (Option α) where
  write := ofOption c.write
  read
    | .null => .ok none
    | j => (c.read j).map some

def list {α : Type} (c : Codec α) : Codec (List α) where
  write as := .arr (as.map c.write)
  read
    | .arr items => items.mapM c.read
    | j => .error j.wrong

def named {α : Type} (name : α → String) (find? : String → Option α) : Codec α where
  write a := .str (name a)
  read
    | .str s => match find? s with
      | some a => .ok a
      | none => .error .mismatch
    | j => .error j.wrong

/-- One of several names, also written as an object with the name over `null`. -/
def choice {α : Type} (name : α → String) (find? : String → Option α) : Codec α where
  write a := .str (name a)
  read
    | .obj [(some s, .null)] => (named name find?).read (.str s)
    | j => (named name find?).read j

end Codec

structure Field (α : Type) where
  name : String
  /-- Whether a record without this field is flawed. -/
  required : Bool
  write : α → Json
  read : Json → α → Except Flaw α

def Field.of {α β : Type} (name : String) (required : Bool) (c : Codec β) (get : α → β)
    (set : β → α → α) : Field α where
  name
  required
  write a := c.write (get a)
  read j a := (c.read j).map fun b => set b a

structure Record (α : Type) where
  fields : List (Field α)
  /-- The value whose fields are replaced by those read. -/
  start : α
  /-- Whether an array may end before the last field. -/
  short : Bool
  /-- Whether an array may go on after the last field. -/
  long : Bool

namespace Record

variable {α : Type}

def find? (r : Record α) (name : String) : Option (Field α) :=
  r.fields.find? (·.name == name)

/-- Reads members one after the other; `seen` holds the names of those before. -/
def readMembers (r : Record α) :
    List (Option String × Json) → List String → α → Except Flaw (List String × α)
  | [], seen, a => .ok (seen, a)
  | (none, _) :: _, _, _ => .error .malformed
  | (some name, v) :: rest, seen, a =>
    match r.find? name with
    | none => if v.isTorn then .error .malformed else readMembers r rest seen a
    | some f =>
      if name ∈ seen then .error .mismatch
      else match f.read v a with
        | .ok a => readMembers r rest (name :: seen) a
        | .error e => .error e

def readItems (r : Record α) : List (Field α) → List Json → α → Except Flaw α
  | [], [], a => .ok a
  | [], _ :: _, a => if r.long then .ok a else .error .malformed
  | _ :: _, [], a => if r.short then .ok a else .error .mismatch
  | f :: fs, v :: vs, a =>
    match f.read v a with
    | .ok a => readItems r fs vs a
    | .error e => .error e

def read (r : Record α) : Json → Except Flaw α
  | .obj members =>
    match r.readMembers members [] r.start with
    | .ok (seen, a) =>
      if r.fields.all fun f => !f.required || seen.contains f.name then .ok a
      else .error .mismatch
    | .error e => .error e
  | .arr items => r.readItems r.fields items r.start
  | j => .error j.wrong

def write (r : Record α) (a : α) : Json := object (r.fields.map fun f => (f.name, f.write a))

def codec (r : Record α) : Codec α := ⟨r.write, r.read⟩

end Record

end RtpBroker.Json
