import RtpBroker.Playback

/-!
# Metrics

Counts of what the broker does: a gauge of open sessions, counters, some of them
split by labels, and histograms of durations. What is counted is a whole number
as long as nobody sets a gauge to something else.
-/

namespace RtpBroker

/-- The value of a gauge. -/
inductive Reading
  | whole (n : Int)
  | real (x : Float)
  deriving Repr, Inhabited

namespace Reading

/-- Below this bound a double counts without loss. -/
def exactBound : Float := 9007199254740992.0

def ofFloat (x : Float) : Reading :=
  let magnitude := x.abs
  if magnitude < exactBound ∧ magnitude.floor == magnitude ∧ x.toBits ≠ (-0.0 : Float).toBits then
    let n : Int := magnitude.toUInt64.toNat
    whole (if x < 0 then -n else n)
  else real x

def shift (d : Int) : Reading → Reading
  | whole n => whole (n + d)
  | real x => real (x + Float.ofInt d)

def inc : Reading → Reading := shift 1

def dec : Reading → Reading := shift (-1)

/-- The value as a word: cut off at its point, and held within the word's bounds. -/
def toWord : Reading → UInt64
  | whole n => if (UInt64.size : Int) ≤ n then UInt64.ofNat (UInt64.size - 1) else UInt64.ofNat n.toNat
  | real x => if x < 0 then 0 else x.toUInt64

end Reading

/-- How many observations fall up to each bound, and how many there are. -/
structure Histogram where
  bounds : List Float
  /-- One for every bound: the observations up to it and above the bound before. -/
  counts : List Nat
  samples : Nat
  sum : Float
  deriving Inhabited

namespace Histogram

def empty (bounds : List Float) : Histogram := ⟨bounds, bounds.map fun _ => 0, 0, 0.0⟩

/-- Adds one to the count of the first bound that `x` does not exceed. -/
def place (x : Float) : List Float → List Nat → List Nat
  | b :: bs, c :: cs => if x ≤ b then (c + 1) :: cs else c :: place x bs cs
  | _, cs => cs

def observe (x : Float) (h : Histogram) : Histogram :=
  { h with counts := place x h.bounds h.counts, samples := h.samples + 1, sum := h.sum + x }

end Histogram

/-- Series of one metric, found by their label values written one after the other. -/
structure Family (α : Type) where
  series : List (List String × α) := []

namespace Family

variable {α : Type}

def key (labels : List String) : String := String.join labels

/-- Changes the series of some labels; a new one starts from `start`. -/
def change (start : α) (labels : List String) (f : α → α) (fam : Family α) : Family α :=
  if fam.series.any fun (ls, _) => key ls == key labels then
    ⟨fam.series.map fun (ls, a) => if key ls == key labels then (ls, f a) else (ls, a)⟩
  else ⟨fam.series ++ [(labels, f start)]⟩

def get? (labels : List String) (fam : Family α) : Option α :=
  (fam.series.find? fun (ls, _) => key ls == key labels).map (·.2)

def count (labels : List String) (fam : Family Nat) : Nat := (fam.get? labels).getD 0

theorem key_singleton (label : String) : key [label] = label := by
  simp [key, String.join]

theorem get?_change (fam : Family α) (start : α) (labels ls : List String) (f : α → α) :
    (fam.change start labels f).get? ls =
      if key labels = key ls then some (f ((fam.get? ls).getD start)) else fam.get? ls := by
  obtain ⟨series⟩ := fam
  unfold change
  split
  · next hany =>
    let g : List String × α → List String × α := fun s =>
      if key s.1 == key labels then (s.1, f s.2) else s
    have hkey : (fun s : List String × α => key s.1 == key ls) ∘ g =
        fun s => key s.1 == key ls := by
      funext s
      by_cases hs : key s.1 = key labels <;> simp [g, hs]
    have hget : Family.get? ls ⟨series.map g⟩ =
        (series.find? fun s => key s.1 == key ls).map fun s => (g s).2 := by
      simp only [get?, List.find?_map, hkey, Option.map_map]
      rfl
    change Family.get? ls ⟨series.map g⟩ = _
    rw [hget]
    cases hfind : series.find? fun s => key s.1 == key ls with
    | none =>
      have hnot := List.find?_eq_none.mp hfind
      obtain ⟨s, hs, hlabels⟩ := List.any_eq_true.mp hany
      have hne : key labels ≠ key ls := fun heq => hnot s hs (heq ▸ hlabels)
      rw [if_neg hne, get?, hfind]
      rfl
    | some s =>
      have hs : key s.1 = key ls := by simpa using List.find?_some hfind
      simp only [get?, hfind, Option.map_some, g, hs]
      by_cases heq : key labels = key ls <;> simp [heq, Ne.symm]
  · next hnone =>
    rw [get?, List.find?_append, get?]
    by_cases heq : key labels = key ls
    · have hfind : (series.find? fun s => key s.1 == key ls) = none := by
        rw [← heq, List.find?_eq_none]
        simpa using hnone
      simp [hfind, heq]
    · simp [heq]

theorem count_change (fam : Family Nat) (label other : String) :
    (fam.change 0 [label] (· + 1)).count [other] =
      fam.count [other] + if label = other then 1 else 0 := by
  rw [count, get?_change, key_singleton, key_singleton, count]
  split <;> rfl

theorem mem_change {fam : Family α} {start : α} {labels ls : List String} {f : α → α}
    (h : ls ∈ (fam.change start labels f).series.map (·.1)) :
    ls ∈ fam.series.map (·.1) ∨ ls = labels := by
  unfold change at h
  split at h
  · obtain ⟨s, hs, rfl⟩ := List.mem_map.mp h
    obtain ⟨s', hs', rfl⟩ := List.mem_map.mp hs
    refine Or.inl (List.mem_map.mpr ⟨s', hs', ?_⟩)
    dsimp only
    split <;> rfl
  · simpa using h

end Family

def streamBounds : List Float := [0.1, 0.5, 1.0, 2.5, 5.0, 10.0, 30.0, 60.0, 120.0]

def requestBounds : List Float :=
  [0.001, 0.005, 0.01, 0.025, 0.05, 0.1, 0.25, 0.5, 1.0, 2.5]

structure Metrics where
  sessions : Reading := .whole 0
  allocations : Family Nat := {}
  datagrams : Nat := 0
  /-- Peers whose address became known. -/
  learned : Nat := 0
  playbacks : Family Nat := {}
  streamSeconds : Histogram := .empty streamBounds
  requests : Family Nat := {}
  requestSeconds : Family Histogram := {}

namespace Metrics

def countAllocation (result : String) (m : Metrics) : Metrics :=
  { m with allocations := m.allocations.change 0 [result] (· + 1) }

def countOutcome (outcome : String) (m : Metrics) : Metrics :=
  { m with playbacks := m.playbacks.change 0 [outcome] (· + 1) }

def countDatagram (m : Metrics) : Metrics := { m with datagrams := m.datagrams + 1 }

def countLearned (m : Metrics) : Metrics := { m with learned := m.learned + 1 }

def sessionOpened (m : Metrics) : Metrics := { m with sessions := m.sessions.inc }

def sessionClosed (m : Metrics) : Metrics := { m with sessions := m.sessions.dec }

def observeStream (seconds : Float) (m : Metrics) : Metrics :=
  { m with streamSeconds := m.streamSeconds.observe seconds }

def countRequest (method path status : String) (m : Metrics) : Metrics :=
  { m with requests := m.requests.change 0 [method, path, status] (· + 1) }

def observeRequest (method path : String) (seconds : Float) (m : Metrics) : Metrics :=
  { m with
    requestSeconds :=
      m.requestSeconds.change (.empty requestBounds) [method, path] (·.observe seconds) }

end Metrics

end RtpBroker
