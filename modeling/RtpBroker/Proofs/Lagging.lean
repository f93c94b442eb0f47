import RtpBroker.Proofs.Mirrors

/-!
# How the clock goes on where only a port is mirrored

The clock goes on from alarm to alarm. An exchange that has just what one port has goes
from alarm to alarm of this port, so in between it lags behind the whole one; but the
alarms of one time that the port has go off in the same order in both.
-/

namespace RtpBroker.Exchange

variable {c : PlaySetup} {asked : Request → Prop} {p : Port} {x y : Exchange}

theorem Mirrors.agenda_after {t : Nat} (h : Mirrors p x y) (hx : x.now ≤ t) (hy : y.now ≤ t) :
    y.agenda.after t = (x.agenda.narrow p x.places).after t := by
  rw [← Agenda.after_after hy, h.agenda, Agenda.after_after hx]

theorem Mirrors.later {target : Nat} (h : Mirrors p x y) (hx : x.now ≤ target)
    (hy : y.now ≤ target) : Mirrors p { x with now := target } { y with now := target } :=
  ⟨h.calendar, h.sessions, h.tracker, h.placed, h.agenda_after hx hy⟩

theorem Mirrors.mem_agenda {a' : Alarm} (h : Mirrors p x y) (ha' : a' ∈ y.agenda.after y.now) :
    ∃ a ∈ x.agenda, x.now < a.due ∧ a.due = a'.due ∧ a.narrow? p x.places = some a' := by
  rw [h.agenda] at ha'
  obtain ⟨hmem, hlt⟩ := Agenda.mem_after.mp ha'
  obtain ⟨a, ha, hnarrow⟩ := List.mem_filterMap.mp hmem
  have hdue := Alarm.due_narrow? hnarrow
  exact ⟨a, ha, hdue ▸ hlt, hdue.symm, hnarrow⟩

/-- No alarm of the port goes off before the next one of all. -/
theorem Mirrors.next {t' : Nat} (h : Mirrors p x y)
    (ht' : y.agenda.nextAfter? y.now = some t') :
    ∃ t, x.agenda.nextAfter? x.now = some t ∧ t ≤ t' := by
  obtain ⟨a', ha', rfl⟩ := Agenda.exists_of_nextAfter? ht'
  obtain ⟨a, ha, hlt, hdue, -⟩ := h.mem_agenda ha'
  exact hdue ▸ Agenda.nextAfter?_le ha hlt

theorem places_ring (a : Alarm) : (x.ring c a).places = x.places := by
  unfold ring
  split
  · next i id _ =>
    cases hi : x.sessions[i]? with
    | none => rw [stepSession_none hi]
    | some s => exact places_stepSession hi (Session.wake_moves c x.now id s).discreet.port
  · rfl

theorem wake_discreet (now : Nat) (id : Uuid) (s : Session) (fresh : Uuid → Prop) :
    s.Discreet fresh (s.wake c now id).1 (s.wake c now id).2 :=
  (Session.wake_moves c now id s).discreet.mono (by simp)

/-- An alarm of the port wakes a session on it in both alike. -/
theorem Mirrors.ring_some {a a' : Alarm} (h : Mirrors p x y) (hnow : y.now = x.now)
    (ha : a.narrow? p x.places = some a') : Mirrors p (x.ring c a) (y.ring c a') := by
  unfold Alarm.narrow? at ha
  split at ha
  · next i id hsleeper =>
    split at ha
    · next hplace =>
      cases ha
      obtain ⟨s, hi, hport⟩ := Option.map_eq_some_iff.mp (List.getElem?_map.symm.trans hplace)
      have hwake := wake_discreet (c := c) x.now id s fun _ => False
      unfold ring
      rw [hsleeper]
      dsimp only
      rw [hnow]
      exact h.here hnow hi hport hwake
    · cases ha
  · cases ha

theorem Mirrors.ring_none {a : Alarm} (h : Mirrors p x y) (hx : Reached c asked x)
    (ha : a.narrow? p x.places = none) : Mirrors p (x.ring c a) y := by
  unfold ring
  split
  · next i id hsleeper =>
    cases hi : x.sessions[i]? with
    | none =>
      rw [stepSession_none hi]
      exact h
    | some s =>
      refine h.elsewhere hx hi (fun hport => ?_) (wake_discreet x.now id s _)
      simp [Alarm.narrow?, hsleeper, place_of_session hi, hport] at ha
  · exact h

/-- The alarms of the port go off in their order among all those that do. -/
theorem Mirrors.rings (alarms : List Alarm) (h : Mirrors p x y) (hx : Reached c asked x)
    (hnow : Agenda.narrow p x.places alarms ≠ [] → y.now = x.now) :
    Mirrors p (alarms.foldl (ring c) x)
      ((Agenda.narrow p x.places alarms).foldl (ring c) y) := by
  induction alarms generalizing x y with
  | nil => exact h
  | cons a alarms ih =>
    have hreached := (ring_steps c x a).reached hx (by simp)
    have hplaces := places_ring (c := c) (x := x) a
    have hnow' : (x.ring c a).now = x.now := (ring_steps c x a).now
    cases ha : a.narrow? p x.places with
    | none =>
      have hcons : Agenda.narrow p x.places (a :: alarms) =
          Agenda.narrow p (x.ring c a).places alarms := by
        rw [hplaces]
        exact List.filterMap_cons_none ha
      rw [hcons] at hnow ⊢
      exact ih (h.ring_none hx ha) hreached fun hne => (hnow hne).trans hnow'.symm
    | some a' =>
      have hcons : Agenda.narrow p x.places (a :: alarms) =
          a' :: Agenda.narrow p (x.ring c a).places alarms := by
        rw [hplaces]
        exact List.filterMap_cons_some ha
      rw [hcons] at hnow ⊢
      have hsame := hnow (List.cons_ne_nil _ _)
      exact ih (h.ring_some hsame ha) hreached fun _ =>
        ((ring_steps c y a').now.trans hsame).trans hnow'.symm

theorem Mirrors.dueAt {t : Nat} (h : Mirrors p x y) (hx : x.now < t) (hy : y.now < t) :
    Agenda.narrow p x.places (x.agenda.dueAt t) = y.agenda.dueAt t := by
  rw [Agenda.narrow_dueAt, ← Agenda.dueAt_after hx, ← h.agenda, Agenda.dueAt_after hy]

/-- The whole exchange goes on to a time; the other one does so with it, or lags behind if the port
has no alarm until then. -/
theorem Mirrors.clock {t now : Nat} {agenda : Agenda} (h : Mirrors p x y) (hx : x.now ≤ t)
    (hagenda : agenda.after now = y.agenda.after t) (hy : y.now ≤ t) :
    Mirrors p { x with now := t, agenda := x.agenda.after t } { y with now, agenda } := by
  refine ⟨h.calendar, h.sessions, h.tracker, fun a ha => h.placed a (Agenda.mem_after.mp ha).1, ?_⟩
  change agenda.after now = (Agenda.narrow p x.places (x.agenda.after t)).after t
  rw [hagenda, h.agenda_after hx hy, Agenda.narrow_after, Agenda.after_after (Nat.le_refl t)]

/-- When the next alarms go off, they do so in both, or none of them is an alarm of the port. -/
theorem Mirrors.fire {t : Nat} (h : Mirrors p x y) (hx : Reached c asked x) (hp : Punctual [] x)
    (hle : y.now ≤ x.now) (ht : x.agenda.nextAfter? x.now = some t) :
    Mirrors p (x.fire c t) (y.fire c t) ∧ y.agenda.nextAfter? y.now = some t ∨
      Mirrors p (x.fire c t) y := by
  have hlt := Agenda.lt_of_nextAfter? ht
  have hlt' := Nat.lt_of_le_of_lt hle hlt
  have hclock := hp.clock ht
  have hreached := hx.clock (Nat.le_of_lt hlt)
    (fun i s hi => (hclock i s hi).sound (hx.sound hi)) (x.agenda.after t)
  have hleast : ∀ t', y.agenda.nextAfter? y.now = some t' → t ≤ t' := by
    intro t' ht'
    obtain ⟨t₀, ht₀, hle'⟩ := h.next ht'
    exact Option.some.inj (ht.symm.trans ht₀) ▸ hle'
  have hdue := h.dueAt hlt hlt'
  cases hring : y.agenda.dueAt t with
  | nil =>
    refine Or.inr ?_
    have hlag := Agenda.after_eq hlt' hleast hring
    have hrings := (h.clock (Nat.le_of_lt hlt) hlag (Nat.le_of_lt hlt')).rings (x.agenda.dueAt t)
      hreached fun hne => absurd (hdue.trans hring) hne
    change Mirrors p _ ((Agenda.narrow p x.places (x.agenda.dueAt t)).foldl (ring c) y) at hrings
    rw [hdue, hring] at hrings
    exact hrings
  | cons a' rest =>
    refine Or.inl ⟨?_, ?_⟩
    · have hboth : (y.agenda.after t).after t = y.agenda.after t :=
        Agenda.after_after (Nat.le_refl t) _
      have hrings := (h.clock (Nat.le_of_lt hlt) hboth (Nat.le_of_lt hlt')).rings
        (x.agenda.dueAt t) hreached fun _ => rfl
      change Mirrors p _ ((Agenda.narrow p x.places (x.agenda.dueAt t)).foldl (ring c) _) at hrings
      rw [hdue] at hrings
      exact hrings
    · exact Agenda.nextAfter?_eq (hring ▸ List.mem_cons_self ..) hlt' hleast

/-- When nothing more goes off in the whole exchange, nothing of the port does. -/
theorem Mirrors.stays {target : Nat} (h : Mirrors p x y) (hle : y.now ≤ x.now)
    (htarget : x.now ≤ target) (hover : ∀ t, x.agenda.nextAfter? x.now = some t → target < t) :
    Mirrors p { x with now := target }
      { Agenda.run (·.agenda) (Exchange.fire c) target y.now y with now := target } := by
  have hy : Agenda.run (·.agenda) (Exchange.fire c) target y.now y = y := by
    cases ht' : y.agenda.nextAfter? y.now with
    | none => exact Agenda.run_none ht'
    | some t' =>
      obtain ⟨t, ht, hle'⟩ := h.next ht'
      rw [Agenda.run_some ht', if_neg (Nat.not_le.mpr (Nat.lt_of_lt_of_le (hover t ht) hle'))]
  rw [hy]
  exact h.later htarget (Nat.le_trans hle htarget)

theorem Mirrors.run {now target : Nat} (h : Mirrors p x y) (hx : Reached c asked x)
    (hp : Punctual [] x) (hnow : x.now = now) (hle : y.now ≤ now) (htarget : now ≤ target) :
    Mirrors p { Agenda.run (·.agenda) (Exchange.fire c) target now x with now := target }
      { Agenda.run (·.agenda) (Exchange.fire c) target y.now y with now := target } := by
  -- By the times at which something goes off in the whole exchange. At each of them the other one
  -- takes part or stays as it is.
  induction now, x using Agenda.run.induct (·.agenda) (Exchange.fire c) target generalizing y with
  | case1 now x t ht hle' ih =>
    subst hnow
    obtain ⟨hx', hp'⟩ := hx.fire hp ht
    rw [Agenda.run_some ht, if_pos hle']
    rcases h.fire hx hp hle ht with ⟨hfire, ht'⟩ | hfire
    · rw [Agenda.run_some ht', if_pos hle']
      have hrest := ih hfire hx' hp' (now_fire t) (Nat.le_of_eq (now_fire t)) hle'
      rwa [now_fire] at hrest
    · have hlt := Agenda.lt_of_nextAfter? ht
      exact ih hfire hx' hp' (now_fire t) (Nat.le_trans hle (Nat.le_of_lt hlt)) hle'
  | case2 now x t ht hgt =>
    subst hnow
    rw [Agenda.run_some ht, if_neg hgt]
    exact h.stays hle htarget fun t' ht' => Option.some.inj (ht.symm.trans ht') ▸ Nat.not_le.mp hgt
  | case3 now x hnone =>
    subst hnow
    rw [Agenda.run_none hnone]
    exact h.stays hle htarget fun t' ht' => by
      rw [hnone] at ht'
      cases ht'

/-- The clock goes on in both alike. -/
theorem Mirrors.advance (h : Mirrors p x y) (hnow : y.now = x.now) (hx : Reached c asked x)
    (hp : Punctual [] x) (ms : Nat) : Mirrors p (x.advance c ms) (y.advance c ms) := by
  have hrun := h.run hx hp rfl (Nat.le_of_eq hnow) (Nat.le_add_right x.now ms)
  unfold Exchange.advance
  rw [hnow] at hrun ⊢
  exact hrun

end RtpBroker.Exchange
