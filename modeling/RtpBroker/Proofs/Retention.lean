import RtpBroker.Config.Check
import RtpBroker.Proofs.SweepTimes

/-!
# Retentions that reach behind the calendar

A sweep drops the records whose retention is over. It looks for the time that lies the
retention back, and the calendar need not have that time: a retention of some millions
of years is short enough to be looked at and too long to be taken off the time that it
is. Such a retention is accepted, and the first sweep with it ends the reaper for good.
-/

namespace RtpBroker

namespace Timestamp

variable {now t : Timestamp} {retention : Nat}

/-- The time a whole number of seconds later. -/
def later (t : Timestamp) (s : Nat) : Timestamp := ⟨t.seconds + s, t.nanos⟩

theorem minusSeconds?_eq_none_iff :
    now.minusSeconds? retention = none ↔ now.seconds - retention < earliest.seconds := by
  have hnanos : earliest.nanos = 0 := rfl
  simp [minusSeconds?, before, hnanos]

theorem minusSeconds?_eq_some (h : now.minusSeconds? retention = some t) :
    t = ⟨now.seconds - retention, now.nanos⟩ := by
  unfold minusSeconds? at h
  dsimp only at h
  split at h
  · cases h
  · exact (Option.some.inj h).symm

/-- A time is past by more than `retention` seconds if it is that much later and still past. -/
theorem before_minus_iff :
    t.before ⟨now.seconds - retention, now.nanos⟩ = (t.later retention).before now := by
  have hlt : t.seconds < now.seconds - retention ↔ t.seconds + retention < now.seconds := by omega
  have heq : t.seconds = now.seconds - retention ↔ t.seconds + retention = now.seconds := by omega
  unfold later before
  dsimp only
  rw [Bool.eq_iff_iff]
  simp only [Bool.or_eq_true, Bool.and_eq_true, decide_eq_true_eq, beq_iff_eq, hlt, heq]

theorem not_before_of_before {a b : Timestamp} (h : a.before b = true) : b.before a = false := by
  simp only [before, Bool.or_eq_true, Bool.and_eq_true, decide_eq_true_eq, beq_iff_eq] at h
  simp only [before, Bool.or_eq_false_iff, Bool.and_eq_false_iff, decide_eq_false_iff_not,
    beq_eq_false_iff_ne]
  omega

end Timestamp

namespace Tracker

variable {t t' : Tracker} {now : Timestamp} {retention n : Nat}

/-- The time that lies the retention back is looked for, and the calendar does not have it. -/
def Overreaches (retention : Nat) (now : Timestamp) : Prop :=
  retention ≤ longestRetention ∧ now.seconds - retention < Timestamp.earliest.seconds

instance (retention : Nat) (now : Timestamp) : Decidable (Overreaches retention now) :=
  inferInstanceAs (Decidable (_ ∧ _))

/-- The playback ended longer ago than `retention` seconds. -/
def isOver (retention : Nat) (now : Timestamp) (s : PlaybackStatus) : Bool :=
  s.finished.any fun e => (e.later retention).before now

/-- What a sweep over the records leaves, and how many it drops. -/
structure Pruned (retention : Nat) (now : Timestamp) (t : Tracker) (n : Nat) (t' : Tracker) :
    Prop where
  records : t'.records =
    t.records.filter fun s => !(decide (retention ≤ longestRetention) && isOver retention now s)
  count : n + t'.size = t.size
  patient : (∀ s ∈ t.records, ∀ e, s.finished = some e → now.before (e.later retention)) →
    n = 0 ∧ t' = t

theorem prune_eq_error_iff :
    t.prune retention now = .error .beforeCalendar ↔ Overreaches retention now := by
  rw [prune_eq, Overreaches, ← Timestamp.minusSeconds?_eq_none_iff]
  split
  · next hlong => simp [Nat.not_le.mpr hlong]
  · next hshort =>
    cases now.minusSeconds? retention with
    | none => simp [Nat.not_lt.mp hshort]
    | some limit => simp

theorem endedBefore_minus (retention : Nat) (now : Timestamp) (s : PlaybackStatus) :
    endedBefore ⟨now.seconds - retention, now.nanos⟩ s = isOver retention now s := by
  cases hfinished : s.finished with
  | none => simp [endedBefore, isOver, hfinished]
  | some e => simp [endedBefore, isOver, hfinished, Timestamp.before_minus_iff]

theorem prune_pruned (h : t.prune retention now = .ok (n, t')) : Pruned retention now t n t' := by
  obtain ⟨hrecords, hcount⟩ : t'.records = t.records.filter
      (fun s => !(decide (retention ≤ longestRetention) && isOver retention now s)) ∧
      n + t'.size = t.size := by
    rw [prune_eq] at h
    split at h
    · next hlong =>
      cases h
      exact ⟨by simp [Nat.not_le.mpr hlong], Nat.zero_add _⟩
    · next hshort =>
      split at h
      · cases h
      · next limit hlimit =>
        cases h
        obtain rfl := Timestamp.minusSeconds?_eq_some hlimit
        refine ⟨List.filter_congr fun s _ => ?_, Nat.sub_add_cancel (List.length_filter_le _ _)⟩
        rw [endedBefore_minus, decide_eq_true (Nat.not_lt.mp hshort), Bool.true_and]
  refine ⟨hrecords, hcount, fun hyoung => ?_⟩
  have hsame : t' = t := by
    obtain ⟨records⟩ := t
    obtain ⟨records'⟩ := t'
    refine congrArg Tracker.mk (hrecords.trans (List.filter_eq_self.mpr fun s hs => ?_))
    cases hfinished : s.finished with
    | none => simp [isOver, hfinished]
    | some e =>
      simp [isOver, hfinished, Timestamp.not_before_of_before (hyoung s hs e hfinished)]
  refine ⟨?_, hsame⟩
  rw [hsame] at hcount
  omega

end Tracker

namespace Broker

open Tracker (Overreaches Pruned)

variable {b b₀ : Broker} {k : Nat} {r : Reaper} {rem : List Alarm} {events : List Event}
  {setup : BrokerSetup} {calendar : Timestamp}

/-- The next stage depends on the retention and on whether the broker is shut down. -/
theorem stageAfter_eq_ended_iff : b.stageAfter r = .ended ↔
    b.stopped = true ∨ Overreaches r.retention b.exchange.tick.calendar := by
  have herror : b.exchange.tick.tracker.prune r.retention b.exchange.tick.calendar =
      .error .beforeCalendar ↔ Overreaches r.retention b.exchange.tick.calendar :=
    Tracker.prune_eq_error_iff
  unfold stageAfter Exchange.prune
  dsimp only
  cases hprune : b.exchange.tick.tracker.prune r.retention b.exchange.tick.calendar with
  | error e =>
    have hover : Overreaches r.retention b.exchange.tick.calendar := by
      cases e
      exact herror.mp hprune
    simp [hover]
  | ok result =>
    have hnot : ¬ Overreaches r.retention b.exchange.tick.calendar := fun hover => by
      rw [herror.mpr hover] at hprune
      cases hprune
    cases hstopped : b.stopped <;> simp [hnot]

theorem reaped_keeps (idleLimit : Option Nat) (hb : b.Tidy) :
    (b.reaped idleLimit).stopped = b.stopped ∧
      (b.reaped idleLimit).exchange.calendar = b.exchange.calendar := by
  unfold reaped
  split
  · rw [releaseIdle_proceeds hb, (proceed_idlePorts hb _).2.rest]
    exact ⟨rfl, rfl⟩
  · exact ⟨rfl, rfl⟩

theorem sweep_ended_iff (hb : b.Tidy) :
    (b.sweep k r).1.stage = .ended ↔
      b.stopped = true ∨ Overreaches r.retention b.exchange.tick.calendar := by
  obtain ⟨b', -, -, heq⟩ :=
    afterSweep_eq k { r with sweeps := r.sweeps + 1 } (b.reaped r.idleLimit)
  obtain ⟨hstopped, hcalendar⟩ := reaped_keeps r.idleLimit hb
  rw [sweep_eq k r hb, heq, stageAfter_eq_ended_iff, hstopped, Exchange.tick, hcalendar]
  rfl

/-- However long a retention is, it is accepted. The records can be swept with it unless it is short
enough to be looked at and reaches behind the calendar; if they can, the records whose retention is
over are dropped, and none if the retention is longer than all of them are old. A reaper ends with
a sweep with such a retention and not otherwise, unless the broker is shut down; and who has ended
never sweeps again. -/
theorem retention_swept (hstart : start setup calendar = .ok b₀)
    (hfair : ∀ e ∈ events, e.Fair b₀.allocator.range) :
    (∀ (c : Config) seconds,
      ({ c with playback := { c.playback with retentionSeconds := seconds } } : Config).check =
        c.check) ∧
    (∀ (t : Tracker) retention now,
      (t.prune retention now = .error .beforeCalendar ↔ Overreaches retention now) ∧
      (¬ Overreaches retention now →
        ∃ n t', t.prune retention now = .ok (n, t') ∧ Pruned retention now t n t')) ∧
    (∀ b, Evolves b₀ b → ∀ k r, (b.sweep k r).1.stage = .ended ↔
      b.stopped = true ∨ Overreaches r.retention b.exchange.tick.calendar) ∧
    ∀ before after, events = before ++ after → ∀ (k : Nat) r,
      (b₀.run before).reapers[k]? = some r → r.stage = .ended →
      (b₀.run events).reapers[k]? = some r ∧
        sweepTimes k events b₀ = sweepTimes k before b₀ := by
  refine ⟨fun c seconds => rfl, fun t retention now => ⟨Tracker.prune_eq_error_iff, fun hnot => ?_⟩,
    fun b hb k r => ?_, ?_⟩
  · cases hprune : t.prune retention now with
    | error e =>
      cases e
      exact absurd (Tracker.prune_eq_error_iff.mp hprune) hnot
    | ok result => exact ⟨result.1, result.2, rfl, Tracker.prune_pruned hprune⟩
  · exact sweep_ended_iff (Reachable.tidy ⟨setup, calendar, b₀, hstart, hb⟩)
  · rintro before after rfl k r hr hended
    have hbefore : ∀ e ∈ before, e.Fair b₀.allocator.range :=
      fun e he => hfair e (List.mem_append_left _ he)
    obtain ⟨hregular, htimes⟩ := sweepTimes_eq hstart hbefore k
    have hafter : ∀ e ∈ after, e.Fair (b₀.run before).allocator.range := by
      rw [(run_follows before b₀ hbefore).allocator]
      exact fun e he => hfair e (List.mem_append_right _ he)
    have hstill : (b₀.run (before ++ after)).reapers[k]? = some r := by
      rw [run_append]
      exact (run_goesBy hregular hafter).ended k r hr hended
    refine ⟨hstill, ?_⟩
    rw [(sweepTimes_eq hstart hfair k).2, htimes, duesOf, duesOf, hstill, hr]

/-- Ten million million seconds, more than three hundred thousand years. -/
def patient : Config := { playback := { retentionSeconds := 10000000000000 } }

/-- A reaper sweeps once, and half a minute later it would sweep again. -/
def patientRun : List Event :=
  [.startReaper patient.sweepInterval patient.idleLimit patient.retention, .advance 30000]

theorem retention_swept_patient :
    ∃ b₀ r, start {} ⟨1790000000, 0⟩ = .ok b₀ ∧
      Overreaches patient.retention (b₀.run patientRun).exchange.calendar ∧
      (b₀.run (patientRun ++ [.advance 90000])).stopped = false ∧
      (b₀.run (patientRun ++ [.advance 90000])).now = 120000 ∧
      (b₀.run (patientRun ++ [.advance 90000])).reapers[0]? = some r ∧ r.stage = .ended ∧
      sweepTimes 0 (patientRun ++ [.advance 90000]) b₀ = [30000] := by
  obtain ⟨b₀, hstart, hover, hstopped, hnow, hstages, htimes⟩ :
      ∃ b₀, start {} ⟨1790000000, 0⟩ = .ok b₀ ∧
        Overreaches patient.retention (b₀.run patientRun).exchange.calendar ∧
        (b₀.run (patientRun ++ [.advance 90000])).stopped = false ∧
        (b₀.run (patientRun ++ [.advance 90000])).now = 120000 ∧
        (b₀.run patientRun).reapers.map (fun r => (r.isResting, r.errand?.isSome)) =
          [(false, false)] ∧ sweepTimes 0 patientRun b₀ = [30000] :=
    ⟨_, rfl, by decide +kernel, by decide +kernel, by decide +kernel, by decide +kernel,
      by decide +kernel⟩
  obtain ⟨r, hreapers, hstage⟩ := List.map_eq_singleton_iff.mp hstages
  have hr : (b₀.run patientRun).reapers[0]? = some r := by rw [hreapers]; rfl
  have hended : r.stage = .ended := by
    obtain ⟨hresting, herrand⟩ := Prod.mk.inj hstage
    cases hcase : r.stage with
    | resting => simp [Reaper.isResting_of_resting hcase] at hresting
    | sweeping e => simp [Reaper.errand?, hcase] at herrand
    | ended => rfl
  have hfair := fair_of_draw (patientRun ++ [.advance 90000]) 10002 hstart (by decide)
    (by simp [patientRun])
  obtain ⟨-, -, -, hstays⟩ := retention_swept hstart hfair
  obtain ⟨hstill, hsame⟩ := hstays patientRun [.advance 90000] rfl 0 r hr hended
  exact ⟨b₀, r, hstart, hover, hstopped, hnow, hstill, hended, hsame.trans htimes⟩

/-- A configuration is accepted with a retention with which the records cannot be swept. -/
theorem not_prune_returns :
    ¬ ∀ c : Config, c.check = .ok () → ∀ (t : Tracker) now, Timestamp.inCalendar now.seconds = true →
      ∃ n t', t.prune c.retention now = .ok (n, t') := by
  intro h
  obtain ⟨n, t', hprune⟩ := h patient (by decide +kernel) {} ⟨1790000000, 0⟩ (by decide +kernel)
  have hover : Tracker.prune patient.retention ⟨1790000000, 0⟩ {} = .error .beforeCalendar :=
    Tracker.prune_eq_error_iff.mpr (by decide +kernel)
  rw [hover] at hprune
  cases hprune

end Broker

end RtpBroker
