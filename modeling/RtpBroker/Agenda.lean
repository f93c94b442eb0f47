import RtpBroker.Uuid

/-!
# Alarms

Whoever waits for a time sets an alarm. Alarms go off in the order of their
times, and alarms of one time in the order in which they were set.
-/

namespace RtpBroker

/-- Whom an alarm wakes. -/
inductive Sleeper
  | playback (session : Nat) (id : Uuid)
  | reaper (index : Nat)
  deriving DecidableEq, Repr

structure Alarm where
  due : Nat
  sleeper : Sleeper
  deriving DecidableEq, Repr

/-- The alarms that are set, the oldest first. -/
abbrev Agenda := List Alarm

namespace Agenda

/-- The earliest time after `now` for which an alarm is set. -/
def nextAfter? (now : Nat) (a : Agenda) : Option Nat :=
  ((a.map (·.due)).filter (now < ·)).min?

def dueAt (t : Nat) (a : Agenda) : List Alarm := a.filter (·.due == t)

def after (t : Nat) (a : Agenda) : Agenda := a.filter (t < ·.due)

theorem lt_of_nextAfter? {now t : Nat} {a : Agenda} (h : a.nextAfter? now = some t) : now < t := by
  have := List.min?_mem h
  simp only [List.mem_filter, decide_eq_true_eq] at this
  exact this.2

theorem nextAfter?_le {now : Nat} {a : Agenda} {alarm : Alarm} (h : alarm ∈ a)
    (hdue : now < alarm.due) : ∃ t, a.nextAfter? now = some t ∧ t ≤ alarm.due := by
  have hmem : alarm.due ∈ (a.map (·.due)).filter (now < ·) := by
    simpa [hdue] using ⟨alarm, h, rfl⟩
  obtain ⟨t, ht⟩ := Option.isSome_iff_exists.mp (List.isSome_min?_of_mem hmem)
  exact ⟨t, ht, (List.min?_eq_some_iff.mp ht).2 _ hmem⟩

/-- Lets the alarms up to `target` go off: `fire t` is what happens at the time `t`. -/
def run {σ : Type} (agenda : σ → Agenda) (fire : Nat → σ → σ) (target now : Nat) (s : σ) : σ :=
  match _h : (agenda s).nextAfter? now with
  | some t => if t ≤ target then run agenda fire target t (fire t s) else s
  | none => s
termination_by target - now
decreasing_by
  have := lt_of_nextAfter? ‹_›
  omega

section

variable {σ : Type} {agenda : σ → Agenda} {fire : Nat → σ → σ} {target now : Nat} {s : σ}

theorem run_some {t : Nat} (h : (agenda s).nextAfter? now = some t) :
    run agenda fire target now s = if t ≤ target then run agenda fire target t (fire t s) else s := by
  rw [run]
  split <;> simp_all

theorem run_none (h : (agenda s).nextAfter? now = none) : run agenda fire target now s = s := by
  rw [run]
  split <;> simp_all

/-- What each firing carries on, a run carries on to the last time at which something went off; no
alarm up to the target is left after it. -/
theorem run_induct {P : Nat → σ → Prop}
    (hfire : ∀ now t s, P now s → (agenda s).nextAfter? now = some t → t ≤ target → P t (fire t s))
    (h : P now s) (hnow : now ≤ target) :
    ∃ last, now ≤ last ∧ last ≤ target ∧ P last (run agenda fire target now s) ∧
      ∀ t, (agenda (run agenda fire target now s)).nextAfter? last = some t → target < t := by
  induction now, s using run.induct agenda fire target with
  | case1 now s t hnext hle ih =>
    have hlt := lt_of_nextAfter? hnext
    obtain ⟨last, hlast, hrest⟩ := ih (hfire now t s h hnext hle) hle
    rw [run_some hnext, if_pos hle]
    exact ⟨last, by omega, hrest⟩
  | case2 now s t hnext hle =>
    rw [run_some hnext, if_neg hle]
    refine ⟨now, Nat.le_refl _, hnow, h, fun t' ht' => ?_⟩
    rw [hnext] at ht'
    exact Option.some.inj ht' ▸ Nat.lt_of_not_le hle
  | case3 now s hnext =>
    rw [run_none hnext]
    refine ⟨now, Nat.le_refl _, hnow, h, fun t' ht' => ?_⟩
    rw [hnext] at ht'
    cases ht'

end

end Agenda

end RtpBroker
