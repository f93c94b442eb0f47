import RtpBroker.Json

/-!
# Tables of a TOML document

A table comes into being by its own header, on the way to a deeper header
(implicit), or by a dotted key. Each may be defined once: a header may still
define a table that is only implicit, and a dotted key may only add to tables
that dotted keys made.
-/

namespace RtpBroker.Toml

inductive Node
  | value (v : Json)
  | table (implicit dotted : Bool) (entries : List (String × Node))
  /-- An array of tables, the last one first. -/
  | tables (elements : List (List (String × Node)))
  deriving Inhabited

abbrev Entries := List (String × Node)

/-- Puts what `f` makes of the entry `k`; a new entry goes to the end. -/
def alter (k : String) (f : Option Node → Option Node) : Entries → Option Entries
  | [] => (f none).map fun n => [(k, n)]
  | (k', n) :: es =>
    if k' = k then (f (some n)).map fun n => (k, n) :: es
    else (alter k f es).map fun es => (k', n) :: es

/-- Changes the entries that a path of keys leads to, making the tables on the way. The function
learns whether the table at the end was made by a dotted key; `here` says so of the first one. -/
def enter (dotted : Bool) (f : Bool → Entries → Option Entries) :
    List String → Bool → Entries → Option Entries
  | [], here, es => f here es
  | k :: ks, _, es =>
    alter k (fun
      | none => (enter dotted f ks dotted []).map (.table true dotted)
      | some (.table implicit byKey sub) =>
        if dotted && !implicit then none
        else (enter dotted f ks byKey sub).map (.table implicit byKey)
      | some (.tables (t :: ts)) => (enter dotted f ks false t).map fun t => .tables (t :: ts)
      | some _ => none) es

/-- Adds a value under a dotted key, given as the keys before the last and the last. -/
def insert (path : List String) (key : String) (v : Json) : Bool → Entries → Option Entries :=
  enter true (fun here es =>
    if here == path.isEmpty then none
    else alter key (fun
      | none => some (.value v)
      | some _ => none) es) path

/-- Adds a value to the table under a header. -/
def insertAt (header path : List String) (key : String) (v : Json) (es : Entries) :
    Option Entries :=
  enter false (fun _ es => insert path key v false es) header false es

/-- Opens the table of a header. -/
def openTable (path : List String) (key : String) : Entries → Option Entries :=
  enter false (fun _ es => alter key (fun
    | none => some (.table false false [])
    | some (.table true false sub) => some (.table false false sub)
    | some _ => none) es) path false

/-- Opens the next table of an array of tables. -/
def openElement (path : List String) (key : String) : Entries → Option Entries :=
  enter false (fun _ es => alter key (fun
    | none => some (.tables [[]])
    | some (.tables ts) => some (.tables ([] :: ts))
    | some _ => none) es) path false

mutual

def Node.toJson : Node → Json
  | .value v => v
  | .table _ _ es => .obj (entriesJson es)
  | .tables ts => .arr (elementsJson ts).reverse

def entriesJson : List (String × Node) → List (Option String × Json)
  | [] => []
  | (k, n) :: es => (some k, n.toJson) :: entriesJson es

def elementsJson : List (List (String × Node)) → List Json
  | [] => []
  | es :: ts => .obj (entriesJson es) :: elementsJson ts

end

end RtpBroker.Toml
