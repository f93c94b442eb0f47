import RtpBroker.Proofs.Calendar
import RtpBroker.Tracker

/-!
# What a sweep drops

The finish time of a record is that of the last finish since its playback was entered, and no phase
has a part in it. A sweep with a span drops the records whose finish time lies further back than
that, whatever went before; the limit is exact to the nanosecond, and sweeps with two spans at one
time drop what the shorter one drops.
-/

namespace RtpBroker

namespace Timestamp

/-- Nanoseconds since the start of 1970. -/
def toNanos (t : Timestamp) : Int := t.seconds * nanosPerSecond + t.nanos

/-- The calendar has a time so many nanoseconds after the start of 1970. -/
def Representable (n : Int) : Prop :=
  ∃ t : Timestamp, inCalendar t.seconds = true ∧ t.nanos < nanosPerSecond ∧ t.toNanos = n

theorem before_iff {a b : Timestamp} (ha : a.nanos < nanosPerSecond)
    (hb : b.nanos < nanosPerSecond) : a.before b = true ↔ a.toNanos < b.toNanos := by
  simp only [before, toNanos, Bool.or_eq_true, Bool.and_eq_true, decide_eq_true_eq, beq_iff_eq]
  unfold nanosPerSecond at *
  omega

/-! ## The ends of the calendar -/

/-- The days before a year that begins in March. -/
def daysToMarch (y : Int) : Int :=
  y / 400 * 146097 + ((y - y / 400 * 400) * 365 + (y - y / 400 * 400) / 4 -
    (y - y / 400 * 400) / 100)

theorem le_daysToMarch {y : Int} (hy : firstYear - 1 ≤ y) :
    daysToMarch (firstYear - 1) ≤ daysToMarch y := by
  have hfirst : daysToMarch (firstYear - 1) = -95746130 := by decide
  rw [hfirst]
  unfold daysToMarch
  unfold firstYear at hy
  omega

theorem daysToMarch_le {y : Int} (hy : y ≤ lastYear) : daysToMarch y ≤ daysToMarch lastYear := by
  have hlast : daysToMarch lastYear = 95745399 := by decide
  rw [hlast]
  unfold daysToMarch
  unfold lastYear at hy
  omega

theorem daysOfDate_eq (y : Int) (m d : Nat) :
    daysOfDate y m d = daysToMarch (if m ≤ 2 then y - 1 else y) +
      ((153 * ((m + 9) % 12) + 2) / 5 + d - 1 : Int) - 719468 := by
  unfold daysOfDate daysToMarch
  dsimp only
  rw [Int.fdiv_eq_ediv_of_nonneg _ (by decide)]
  omega

theorem daysToMarch_pred (y : Int) : daysToMarch (y - 1) + 365 ≤ daysToMarch y := by
  unfold daysToMarch
  omega

theorem firstDay_le {y : Int} {m d : Nat} (hy : firstYear ≤ y) (hm : 1 ≤ m) (hd : 1 ≤ d) :
    daysOfDate firstYear 1 1 ≤ daysOfDate y m d := by
  have hyear : daysToMarch (firstYear - 1) ≤ daysToMarch (y - 1) := le_daysToMarch (by omega)
  have hfirst : daysOfDate firstYear 1 1 = daysToMarch (firstYear - 1) + 306 - 719468 := by decide
  rw [hfirst, daysOfDate_eq]
  split
  · omega
  · have hnext := daysToMarch_pred y
    omega

theorem le_lastDay {y : Int} {m d : Nat} (hy : y ≤ lastYear) (hm : 1 ≤ m) (hm' : m ≤ 12)
    (hd : d ≤ 31) : daysOfDate y m d ≤ daysOfDate lastYear 12 31 := by
  have hyear := daysToMarch_le hy
  have hlast : daysOfDate lastYear 12 31 = daysToMarch lastYear + 305 - 719468 := by decide
  rw [hlast, daysOfDate_eq]
  split
  · have hnext := daysToMarch_pred y
    omega
  · omega

theorem bounds_of_inCalendar {s : Int} (h : inCalendar s = true) :
    earliest.seconds ≤ s ∧ s < (daysOfDate lastYear 12 31 + 1) * secondsPerDay := by
  simp only [inCalendar, Bool.and_eq_true, decide_eq_true_eq] at h
  obtain ⟨hm, hm', hd, hd', hdays⟩ := dateOfDays_spec (s.fdiv secondsPerDay)
  have hlow := firstDay_le h.1 hm hd
  have hhigh := le_lastDay h.2 hm hm' (hd'.trans (daysInMonth_le ..))
  rw [hdays, Int.fdiv_eq_ediv_of_nonneg _ (by decide)] at hlow hhigh
  unfold earliest secondsPerDay at *
  dsimp only
  omega

/-- A time that a clock shows: one of the calendar, and no leap second. -/
structure ClockTime where
  time : Timestamp
  inCalendar : inCalendar time.seconds = true
  nanos_lt : time.nanos < nanosPerSecond

variable {now : ClockTime} {span : Nat}

theorem earliest_le_of_representable {n : Int} (h : Representable n) : earliest.toNanos ≤ n := by
  obtain ⟨t, hcalendar, hnanos, rfl⟩ := h
  have hfirst := (bounds_of_inCalendar hcalendar).1
  have hnanos : earliest.nanos = 0 := rfl
  unfold toNanos nanosPerSecond at *
  omega

/-- No span that stays within the calendar is too long to be looked at. -/
theorem le_longestSpan (h : Representable (now.time.toNanos - span)) :
    span ≤ Tracker.longestSpan := by
  have hfirst := earliest_le_of_representable h
  have hlast := (bounds_of_inCalendar now.inCalendar).2
  have hnanos := now.nanos_lt
  have hlow : earliest.toNanos = -8334601228800000000000 := by decide
  have hhigh : (daysOfDate lastYear 12 31 + 1) * secondsPerDay = 8210266876800 := by decide
  have hlongest : Tracker.longestSpan = 9223372036854775807000000 := by decide
  rw [hlongest]
  rw [hlow] at hfirst
  rw [hhigh] at hlast
  unfold toNanos nanosPerSecond at *
  omega

theorem minus?_of_representable (h : Representable (now.time.toNanos - span)) :
    ∃ limit, now.time.minus? span = some limit ∧ limit.nanos < nanosPerSecond ∧
      limit.toNanos = now.time.toNanos - span := by
  have hfirst := earliest_le_of_representable h
  have hnanos := now.nanos_lt
  obtain ⟨limit, hlimit, hbelow, heq⟩ : ∃ limit : Timestamp,
      now.time.minus? span = (if limit.before earliest then none else some limit) ∧
      limit.nanos < nanosPerSecond ∧ limit.toNanos = now.time.toNanos - span := by
    refine ⟨_, rfl, ?_⟩
    split
    all_goals
      unfold toNanos nanosPerSecond at *
      dsimp only
      omega
  have hnot : limit.before earliest = false := by
    rw [← Bool.not_eq_true, before_iff hbelow (by decide), heq]
    exact Int.not_lt.mpr hfirst
  exact ⟨limit, by rw [hlimit, hnot]; rfl, hbelow, heq⟩

end Timestamp

namespace Tracker

open Timestamp (ClockTime Representable)

/-! ## Histories -/

/-- What is done to the records. -/
inductive Deed
  | enter (id : Uuid) (port : Port) (now : ClockTime)
  | setPhase (id : Uuid) (phase : Phase)
  | finish (id : Uuid) (phase : Phase) (exitCode : Option Int) (fault : Option String)
      (now : ClockTime)
  | sweep (span : Nat) (now : ClockTime)

/-- A sweep that cannot be made leaves the records as they are. -/
def follow (t : Tracker) : Deed → Tracker
  | .enter id port now => t.enter id port now.time
  | .setPhase id phase => t.setPhase id phase
  | .finish id phase exitCode fault now => t.finish id phase exitCode fault now.time
  | .sweep span now =>
    match t.pruneFor span now.time with
    | .ok (_, t') => t'
    | .error _ => t

def after (deeds : List Deed) : Tracker := deeds.foldl follow {}

/-- When the playback has ended, after one more deed. -/
def endAfter (id : Uuid) (e? : Option ClockTime) : Deed → Option ClockTime
  | .enter key _ _ => if key = id then none else e?
  | .finish key _ _ _ now => if key = id then some now else e?
  | .setPhase _ _ => e?
  | .sweep _ _ => e?

/-- The time of the last finish of a playback since it was entered. -/
def endOf? (id : Uuid) (deeds : List Deed) : Option ClockTime := deeds.foldl (endAfter id) none

/-- The finish times are those of the ends. -/
def Dated (ends : Uuid → Option ClockTime) (t : Tracker) : Prop :=
  ∀ s ∈ t.records, s.finished = (ends s.id).map ClockTime.time

section

variable {t t' : Tracker} {ends : Uuid → Option ClockTime} {now : ClockTime} {span n : Nat}

theorem Dated.follow (h : Dated ends t) (d : Deed) :
    Dated (fun id => endAfter id (ends id) d) (t.follow d) := by
  intro s hs
  cases d with
  | enter id port now =>
    rcases List.mem_append.mp hs with hs | hs
    · obtain ⟨hs, hne⟩ := List.mem_filter.mp hs
      have hne : id ≠ s.id := fun heq => (bne_iff_ne.mp hne) heq.symm
      simpa [endAfter, hne] using h s hs
    · obtain rfl := List.mem_singleton.mp hs
      simp [endAfter, PlaybackStatus.fresh]
  | setPhase id phase =>
    obtain ⟨s₀, hs₀, rfl⟩ := List.mem_map.mp hs
    dsimp only
    split <;> exact h s₀ hs₀
  | finish id phase exitCode fault now =>
    obtain ⟨s₀, hs₀, rfl⟩ := List.mem_map.mp hs
    dsimp only
    split
    · next heq => simp [endAfter, heq]
    · next hne => simpa [endAfter, Ne.symm hne] using h s₀ hs₀
  | sweep span now =>
    refine h s ?_
    unfold Tracker.follow at hs
    dsimp only at hs
    split at hs
    · next hprune => exact (sublist_of_pruneFor hprune).subset hs
    · exact hs

theorem dated_foldl (h : Dated ends t) (deeds : List Deed) :
    Dated (fun id => deeds.foldl (endAfter id) (ends id)) (deeds.foldl Tracker.follow t) := by
  induction deeds generalizing t ends with
  | nil => exact h
  | cons d deeds ih => exact ih (h.follow d)

theorem dated_after (deeds : List Deed) : Dated (fun id => endOf? id deeds) (after deeds) :=
  dated_foldl (fun _ hs => absurd hs List.not_mem_nil) deeds

/-! ## Sweeps -/

/-- The playback ended before a time in nanoseconds. -/
def isPast (limit : Int) (s : PlaybackStatus) : Bool :=
  s.finished.any fun e => e.toNanos < limit

/-- A sweep with the span drops the record. -/
def isDropped (span : Nat) (now : ClockTime) (s : PlaybackStatus) : Bool :=
  decide (span ≤ longestSpan) && isPast (now.time.toNanos - span) s

/-- The span stays within the calendar or is too long to be looked at. -/
def Sweepable (span : Nat) (now : ClockTime) : Prop :=
  Representable (now.time.toNanos - span) ∨ longestSpan < span

theorem Dated.endedBefore_eq (h : Dated ends t) {limit : Timestamp}
    (hlimit : limit.nanos < Timestamp.nanosPerSecond) {s : PlaybackStatus} (hs : s ∈ t.records) :
    endedBefore limit s = isPast limit.toNanos s := by
  have hfinished := h s hs
  cases hend : ends s.id with
  | none =>
    rw [hend] at hfinished
    simp [endedBefore, isPast, hfinished]
  | some e =>
    rw [hend] at hfinished
    have hbefore := Timestamp.before_iff e.nanos_lt hlimit
    simp only [endedBefore, isPast, hfinished, Option.map_some, Option.any_some]
    rw [Bool.eq_iff_iff, hbefore, decide_eq_true_eq]

theorem isDropped_min (r₁ r₂ : Nat) (now : ClockTime) (s : PlaybackStatus) :
    isDropped (min r₁ r₂) now s = (isDropped r₁ now s || isDropped r₂ now s) := by
  cases hfinished : s.finished with
  | none => simp [isDropped, isPast, hfinished]
  | some e =>
    simp only [isDropped, isPast, hfinished, Option.any_some]
    rw [Bool.eq_iff_iff]
    simp only [Bool.or_eq_true, Bool.and_eq_true, decide_eq_true_eq]
    omega

/-- A sweep leaves the records that it does not drop, and counts the others. -/
theorem pruneFor_eq (h : Dated ends t) (hspan : Sweepable span now) :
    ∃ n t', t.pruneFor span now.time = .ok (n, t') ∧
      t'.records = t.records.filter (fun s => !isDropped span now s) ∧ n + t'.size = t.size := by
  rcases hspan with hspan | hlong
  · have hshort := Timestamp.le_longestSpan hspan
    obtain ⟨limit, hlimit, hnanos, heq⟩ := Timestamp.minus?_of_representable hspan
    have hkept : t.records.filter (fun s => !endedBefore limit s) =
        t.records.filter fun s => !isDropped span now s := by
      refine List.filter_congr fun s hs => ?_
      rw [h.endedBefore_eq hnanos hs, heq, isDropped, decide_eq_true hshort, Bool.true_and]
    refine ⟨_, ⟨t.records.filter fun s => !endedBefore limit s⟩, ?_, hkept,
      Nat.sub_add_cancel (List.length_filter_le _ _)⟩
    rw [pruneFor, if_neg (Nat.not_lt.mpr hshort), hlimit]
    rfl
  · refine ⟨0, t, if_pos hlong, ?_, Nat.zero_add _⟩
    exact (List.filter_eq_self.mpr fun s _ => by simp [isDropped, Nat.not_le.mpr hlong]).symm

theorem pruneFor_twice (h : Dated ends t) {r₁ r₂ : Nat} (h₁ : Sweepable r₁ now)
    (h₂ : Sweepable r₂ now) :
    ∃ n₁ t₁ n₂ t₂, t.pruneFor r₁ now.time = .ok (n₁, t₁) ∧
      t₁.pruneFor r₂ now.time = .ok (n₂, t₂) ∧
      t.pruneFor (min r₁ r₂) now.time = .ok (n₁ + n₂, t₂) := by
  have hmin : Sweepable (min r₁ r₂) now := by
    rcases Nat.le_total r₁ r₂ with hle | hle
    · rwa [Nat.min_eq_left hle]
    · rwa [Nat.min_eq_right hle]
  obtain ⟨n₁, t₁, hprune₁, hrecords₁, hcount₁⟩ := pruneFor_eq h h₁
  have hdated : Dated ends t₁ := fun s hs => h s ((sublist_of_pruneFor hprune₁).subset hs)
  obtain ⟨n₂, t₂, hprune₂, hrecords₂, hcount₂⟩ := pruneFor_eq hdated h₂
  obtain ⟨n, t', hprune, hrecords, hcount⟩ := pruneFor_eq h hmin
  have hsame : t'.records = t₂.records := by
    rw [hrecords, hrecords₂, hrecords₁, List.filter_filter]
    refine List.filter_congr fun s _ => ?_
    rw [isDropped_min, Bool.not_or, Bool.and_comm]
  have htracker : t' = t₂ := congrArg Tracker.mk hsame
  subst htracker
  have hn : n = n₁ + n₂ := by omega
  exact ⟨n₁, t₁, n₂, t', hprune₁, hprune₂, by rw [hprune, hn]⟩

end

/-- After any history, a sweep whose limit is in the calendar drops the records that ended before
the limit and no other, a longer one than is looked at drops none, and of two sweeps at one time
the one with the shorter span decides. -/
theorem pruneFor_exact (deeds : List Deed) (now : ClockTime) :
    (∀ s ∈ (after deeds).records, s.finished = (endOf? s.id deeds).map ClockTime.time) ∧
    (∀ span : Nat, Representable (now.time.toNanos - span) →
      ∃ n t', (after deeds).pruneFor span now.time = .ok (n, t') ∧
        t'.records =
          (after deeds).records.filter (fun s => !isPast (now.time.toNanos - span) s) ∧
        n = (after deeds).records.countP (isPast (now.time.toNanos - span)) ∧
        ∀ s ∈ (after deeds).records, endOf? s.id deeds = none → s ∈ t'.records) ∧
    (∀ span, 9223372036854775807 * 1000000 < span →
      (after deeds).pruneFor span now.time = .ok (0, after deeds)) ∧
    ∀ r₁ r₂, Sweepable r₁ now → Sweepable r₂ now →
      ∃ n₁ t₁ n₂ t₂, (after deeds).pruneFor r₁ now.time = .ok (n₁, t₁) ∧
        t₁.pruneFor r₂ now.time = .ok (n₂, t₂) ∧
        (after deeds).pruneFor (min r₁ r₂) now.time = .ok (n₁ + n₂, t₂) := by
  have hdated := dated_after deeds
  refine ⟨hdated, fun span hspan => ?_, fun span hlong => if_pos hlong,
    fun r₁ r₂ h₁ h₂ => pruneFor_twice hdated h₁ h₂⟩
  obtain ⟨n, t', hprune, hrecords, hcount⟩ := pruneFor_eq hdated (.inl hspan)
  have hdrops : ∀ s, isDropped span now s = isPast (now.time.toNanos - span) s := by
    intro s
    rw [isDropped, decide_eq_true (Timestamp.le_longestSpan hspan), Bool.true_and]
  simp only [hdrops] at hrecords
  refine ⟨n, t', hprune, hrecords, ?_, fun s hs hnever => ?_⟩
  · have hsplit := List.length_eq_countP_add_countP (isPast (now.time.toNanos - span))
      (l := (after deeds).records)
    have hleft : t'.size = (after deeds).records.countP
        fun s => !isPast (now.time.toNanos - span) s := by
      rw [size, hrecords, List.countP_eq_length_filter]
    unfold size at hcount hleft
    simp only [Bool.not_eq_true, Bool.decide_eq_false] at hsplit
    omega
  · have hopen : s.finished = none :=
      (hdated s hs).trans (congrArg (Option.map ClockTime.time) hnever)
    rw [hrecords, List.mem_filter]
    exact ⟨hs, by simp [isPast, hopen]⟩

end Tracker

end RtpBroker
