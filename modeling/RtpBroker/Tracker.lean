import RtpBroker.Playback

/-!
# The playback tracker

One record for every accepted playback, in the order of acceptance, until a
retention sweep drops it some time after its end. Nothing guards a record
against a phase set out of order; that is left to the one who sets it.
-/

namespace RtpBroker

structure Tracker where
  records : List PlaybackStatus := []
  deriving Repr

namespace Tracker

def enter (id : Uuid) (port : Port) (now : Timestamp) (t : Tracker) : Tracker :=
  ⟨t.records.filter (·.id != id) ++ [PlaybackStatus.fresh id port now]⟩

def update (id : Uuid) (f : PlaybackStatus → PlaybackStatus) (t : Tracker) : Tracker :=
  ⟨t.records.map fun s => if s.id = id then f s else s⟩

def setPhase (id : Uuid) (phase : Phase) (t : Tracker) : Tracker :=
  t.update id fun s => { s with phase }

def finish (id : Uuid) (phase : Phase) (exitCode : Option Int) (fault : Option String)
    (now : Timestamp) (t : Tracker) : Tracker :=
  t.update id fun s => { s with phase, exitCode, fault, finished := some now }

def find? (id : Uuid) (t : Tracker) : Option PlaybackStatus := t.records.find? (·.id == id)

/-- The records of one port, in the order of acceptance. -/
def onPort (port : Port) (t : Tracker) : List PlaybackStatus := t.records.filter (·.port == port)

def size (t : Tracker) : Nat := t.records.length

def endedBefore (limit : Timestamp) (s : PlaybackStatus) : Bool :=
  match s.finished with
  | some e => e.before limit
  | none => false

/-- The longest retention in nanoseconds that is looked at; a longer one drops nothing. -/
def longestSpan : Nat := (UInt64.size / 2 - 1) * 1000000

/-- Why a sweep could not be made: the limit lies before the first day of the calendar. -/
inductive SweepFlaw
  | beforeCalendar
  deriving DecidableEq, Repr

def SweepFlaw.message : SweepFlaw → String
  | .beforeCalendar => "`DateTime - TimeDelta` overflowed"

/-- Drops the records that ended more than `span` nanoseconds ago; the count is of those. -/
def pruneFor (span : Nat) (now : Timestamp) (t : Tracker) : Except SweepFlaw (Nat × Tracker) :=
  if longestSpan < span then .ok (0, t)
  else
    match now.minus? span with
    | none => .error .beforeCalendar
    | some limit =>
      let kept := t.records.filter fun s => !endedBefore limit s
      .ok (t.records.length - kept.length, ⟨kept⟩)

/-- Drops the records that ended more than `retention` seconds ago; the count is of those. -/
def prune (retention : Nat) (now : Timestamp) (t : Tracker) : Except SweepFlaw (Nat × Tracker) :=
  t.pruneFor (Timestamp.nanosPerSecond * retention) now

/-- The longest retention in seconds that is looked at. -/
def longestRetention : Nat := (UInt64.size / 2 - 1) / 1000

theorem prune_eq (retention : Nat) (now : Timestamp) (t : Tracker) :
    t.prune retention now =
      if longestRetention < retention then .ok (0, t)
      else
        match now.minusSeconds? retention with
        | none => .error .beforeCalendar
        | some limit =>
          let kept := t.records.filter fun s => !endedBefore limit s
          .ok (t.records.length - kept.length, ⟨kept⟩) := by
  have hlong : longestSpan < Timestamp.nanosPerSecond * retention ↔
      longestRetention < retention := by
    unfold longestSpan longestRetention Timestamp.nanosPerSecond
    change 9223372036854775807 * 1000000 < _ ↔ 9223372036854775807 / 1000 < _
    omega
  simp only [prune, pruneFor, hlong, Timestamp.minus?_seconds]

/-- A sweep drops nothing, or what ended before its limit. -/
theorem pruneFor_cases {span n : Nat} {now : Timestamp} {t t' : Tracker}
    (h : t.pruneFor span now = .ok (n, t')) :
    longestSpan < span ∧ n = 0 ∧ t' = t ∨
      ∃ limit, now.minus? span = some limit ∧
        t'.records = t.records.filter (fun s => !endedBefore limit s) ∧ n + t'.size = t.size := by
  unfold pruneFor at h
  split at h
  · next hlong =>
    cases h
    exact Or.inl ⟨hlong, rfl, rfl⟩
  · split at h
    · cases h
    · next limit hlimit =>
      cases h
      exact Or.inr ⟨limit, hlimit, rfl, Nat.sub_add_cancel (List.length_filter_le _ _)⟩

theorem sublist_of_pruneFor {span n : Nat} {now : Timestamp} {t t' : Tracker}
    (h : t.pruneFor span now = .ok (n, t')) : t'.records.Sublist t.records := by
  rcases pruneFor_cases h with ⟨-, -, rfl⟩ | ⟨limit, -, hrecords, -⟩
  · exact List.Sublist.refl _
  · exact hrecords ▸ List.filter_sublist

theorem find?_enter (id : Uuid) (port : Port) (now : Timestamp) (t : Tracker) :
    (t.enter id port now).find? id = some (PlaybackStatus.fresh id port now) := by
  have h : (t.records.filter (·.id != id)).find? (·.id == id) = none := by
    rw [List.find?_eq_none]
    intro s hs
    simpa using (List.mem_filter.1 hs).2
  simp [find?, enter, List.find?_append, h, PlaybackStatus.fresh]

theorem find?_enter_of_ne {id key : Uuid} (port : Port) (now : Timestamp) (t : Tracker)
    (h : id ≠ key) : (t.enter id port now).find? key = t.find? key := by
  have hfilter : (t.records.filter (·.id != id)).find? (·.id == key) =
      t.records.find? (·.id == key) := by
    rw [List.find?_filter]
    congr 1
    funext s
    by_cases hs : s.id = key <;> simp [hs, Ne.symm h]
  simp [find?, enter, List.find?_append, hfilter, PlaybackStatus.fresh, h]

/-- A change of one record that keeps its identifier leaves the others alone. -/
theorem find?_update {id : Uuid} {f : PlaybackStatus → PlaybackStatus} (hf : ∀ s, (f s).id = s.id)
    (key : Uuid) (t : Tracker) :
    (t.update id f).find? key = (t.find? key).map fun s => if s.id = id then f s else s := by
  simp only [find?, update, List.find?_map]
  congr 2
  funext s
  by_cases h : s.id = id <;> simp [h, hf]

end Tracker

end RtpBroker
