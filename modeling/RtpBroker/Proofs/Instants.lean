import RtpBroker.Proofs.StreamOrder
import RtpBroker.Proofs.Undisturbed

/-!
# From one instant to the next

A run lets all alarms of a time go off before anything else happens, and in the order in
which they were set. Here they go off in any order, and other things may happen between two
of them, such as a datagram before a playback looks; every run is one of these.
-/

namespace RtpBroker

/-- The exchange while alarms of its time have yet to go off. -/
structure Instant where
  exchange : Exchange
  ringing : List Alarm := []

/-- What happens next: something from outside, one of the ringing alarms goes off, or time passes
until the next alarms are due, but no longer than so many milliseconds. -/
inductive Moment
  | event (e : Exchange.Event) (h : ∀ ms, e ≠ .advance ms)
  | ring (k : Nat)
  | pass (ms : Nat)

def Moment.playback? : Moment → Option Uuid
  | .event e _ => e.playback?
  | _ => none

namespace Instant

def ring (c : PlaySetup) (k : Nat) (b : Instant) : Instant :=
  match b.ringing[k]? with
  | none => b
  | some a => ⟨b.exchange.ring c a, b.ringing.eraseIdx k⟩

/-- No time passes as long as an alarm rings. -/
def pass (ms : Nat) (b : Instant) : Instant :=
  match b.ringing with
  | _ :: _ => b
  | [] =>
    let x := b.exchange
    match x.agenda.nextAfter? x.now with
    | some t =>
      if t ≤ x.now + ms then ⟨{ x with now := t, agenda := x.agenda.after t }, x.agenda.dueAt t⟩
      else ⟨{ x with now := x.now + ms }, []⟩
    | none => ⟨{ x with now := x.now + ms }, []⟩

def step (c : PlaySetup) (b : Instant) : Moment → Instant
  | .event e _ => { b with exchange := b.exchange.apply c e }
  | .ring k => b.ring c k
  | .pass ms => b.pass ms

def run (c : PlaySetup) (moments : List Moment) (b : Instant) : Instant := moments.foldl (step c) b

variable {c : PlaySetup} {x : Exchange} {b : Instant}

/-! ## Runs of the exchange -/

theorem run_rings (rem : List Alarm) (x : Exchange) :
    run c (List.replicate rem.length (.ring 0)) ⟨x, rem⟩ = ⟨rem.foldl (Exchange.ring c) x, []⟩ := by
  induction rem generalizing x with
  | nil => rfl
  | cons a rem ih => exact ih (x.ring c a)

theorem run_append (before after : List Moment) (b : Instant) :
    run c (before ++ after) b = run c after (run c before b) := List.foldl_append

theorem pass_of_some {t ms : Nat} (h : x.agenda.nextAfter? x.now = some t) :
    pass ms ⟨x, []⟩ = if t ≤ x.now + ms then
      ⟨{ x with now := t, agenda := x.agenda.after t }, x.agenda.dueAt t⟩
    else ⟨{ x with now := x.now + ms }, []⟩ := by
  simp only [pass, h]

theorem pass_of_none {ms : Nat} (h : x.agenda.nextAfter? x.now = none) :
    pass ms ⟨x, []⟩ = ⟨{ x with now := x.now + ms }, []⟩ := by
  simp only [pass, h]

theorem ring_none {k : Nat} {rem : List Alarm} (h : rem[k]? = none) :
    ring c k ⟨x, rem⟩ = ⟨x, rem⟩ := by
  simp only [ring, h]

theorem ring_some {k : Nat} {rem : List Alarm} {a : Alarm} (h : rem[k]? = some a) :
    ring c k ⟨x, rem⟩ = ⟨x.ring c a, rem.eraseIdx k⟩ := by
  simp only [ring, h]

/-- What comes of time that is to pass: an alarm rings still, the next alarms ring, or they are due
later. -/
inductive Passed (ms : Nat) (x : Exchange) : List Alarm → Instant → Prop
  | held {a : Alarm} {rem : List Alarm} : Passed ms x (a :: rem) ⟨x, a :: rem⟩
  | due {t : Nat} (hnext : x.agenda.nextAfter? x.now = some t) :
      Passed ms x [] ⟨{ x with now := t, agenda := x.agenda.after t }, x.agenda.dueAt t⟩
  | early (hlate : ∀ t, x.agenda.nextAfter? x.now = some t → x.now + ms < t) :
      Passed ms x [] ⟨{ x with now := x.now + ms }, []⟩

theorem pass_passed (ms : Nat) (x : Exchange) (rem : List Alarm) :
    Passed ms x rem (pass ms ⟨x, rem⟩) := by
  cases rem with
  | cons a rem => exact .held
  | nil =>
    cases hnext : x.agenda.nextAfter? x.now with
    | none =>
      rw [pass_of_none hnext]
      exact .early fun t ht => by cases hnext.symm.trans ht
    | some t =>
      rw [pass_of_some hnext]
      split
      · exact .due hnext
      · next hlate =>
        exact .early fun t' ht => Option.some.inj (hnext.symm.trans ht) ▸ Nat.lt_of_not_le hlate

/-- The clock goes on to a time from alarm to alarm. -/
theorem exists_run_to (c : PlaySetup) (target now : Nat) (x : Exchange) (hnow : x.now = now)
    (hle : now ≤ target) :
    ∃ moments, moments.filterMap Moment.playback? = [] ∧ run c moments ⟨x, []⟩ =
      ⟨{ Agenda.run (·.agenda) (Exchange.fire c) target now x with now := target }, []⟩ := by
  have htarget : x.now + (target - now) = target := by omega
  induction now, x using
      Agenda.run.induct (fun y : Exchange => y.agenda) (Exchange.fire c) target with
  | case1 now x t hnext hdue ih =>
    subst hnow
    obtain ⟨moments, hnobody, hrun⟩ := ih (Exchange.now_fire t) hdue
      (by rw [Exchange.now_fire]; omega)
    have hpass : pass (target - x.now) ⟨x, []⟩ =
        ⟨{ x with now := t, agenda := x.agenda.after t }, x.agenda.dueAt t⟩ := by
      rw [pass_of_some hnext, if_pos (htarget.symm ▸ hdue)]
    refine ⟨.pass (target - x.now) ::
      (List.replicate (x.agenda.dueAt t).length (.ring 0) ++ moments), ?_, ?_⟩
    · rw [List.filterMap_cons_none rfl, List.filterMap_append, hnobody, List.append_nil]
      refine List.filterMap_eq_nil_iff.mpr fun m hm => ?_
      rw [List.eq_of_mem_replicate hm]
      rfl
    · change run c (_ ++ moments) (pass (target - x.now) ⟨x, []⟩) = _
      rw [run_append, hpass, run_rings, Agenda.run_some hnext, if_pos hdue]
      exact hrun
  | case2 now x t hnext hdue =>
    subst hnow
    refine ⟨[.pass (target - x.now)], rfl, ?_⟩
    change pass (target - x.now) ⟨x, []⟩ = _
    rw [pass_of_some hnext, htarget, if_neg hdue, Agenda.run_some hnext, if_neg hdue]
  | case3 now x hnext =>
    subst hnow
    refine ⟨[.pass (target - x.now)], rfl, ?_⟩
    change pass (target - x.now) ⟨x, []⟩ = _
    rw [pass_of_none hnext, htarget, Agenda.run_none hnext]

/-- Every run of the exchange goes from instant to instant. -/
theorem exists_run (c : PlaySetup) (events : List Exchange.Event) (x : Exchange) :
    ∃ moments, moments.filterMap Moment.playback? = events.filterMap Exchange.Event.playback? ∧
      run c moments ⟨x, []⟩ = ⟨Exchange.run c events x, []⟩ := by
  induction events generalizing x with
  | nil => exact ⟨[], rfl, rfl⟩
  | cons e events ih =>
    obtain ⟨moments, hids, hrun⟩ := ih (x.apply c e)
    by_cases he : ∃ ms, e = .advance ms
    · obtain ⟨ms, rfl⟩ := he
      obtain ⟨first, hnobody, hfirst⟩ :=
        exists_run_to c (x.now + ms) x.now x rfl (Nat.le_add_right _ _)
      refine ⟨first ++ moments, ?_, ?_⟩
      · rw [List.filterMap_append, hnobody, hids]
        rfl
      · rw [run_append, hfirst]
        exact hrun
    · refine ⟨.event e (fun ms heq => he ⟨ms, heq⟩) :: moments, ?_, hrun⟩
      change List.filterMap _ ([_] ++ moments) = List.filterMap _ ([e] ++ events)
      rw [List.filterMap_append, List.filterMap_append, hids]
      rfl

end Instant

/-! ## What a session has to do with it -/

namespace Exchange

open Session (Undisturbed)

variable {c : PlaySetup} {x : Exchange} {i j : Nat} {s : Session} {rem : List Alarm} {w : Waiting}
  {f : Session → Session × List Effect}

theorem watch_stepSession (hi : x.sessions[i]? = some s) :
    (x.stepSession i f).watch i rem = (x.watch i rem).tell (f s).2 := by
  rw [stepSession_some hi, watch_performs, if_pos rfl]

theorem watch_stepSession_of_ne (hij : i ≠ j) :
    (x.stepSession j f).watch i rem = x.watch i rem := by
  cases hj : x.sessions[j]? with
  | none => rw [stepSession_none hj]
  | some s => rw [stepSession_some hj, watch_performs, if_neg (Ne.symm hij)]

theorem mem_journal_of_history {t : Nat} {e : Effect} (h : (t, e) ∈ x.history i) :
    ⟨t, i, e⟩ ∈ x.journal := by
  obtain ⟨n, hn, heq⟩ := List.mem_filterMap.mp h
  split at heq
  · next hsession =>
    cases heq
    exact hsession ▸ hn
  · cases heq

/-- If a playback waits in the session with number `i`, it is not disturbed. -/
def LeavesAlone (i : Nat) (w : Waiting) (x x' : Exchange) : Prop :=
  ∀ s rem, x.sessions[i]? = some s → s.Bides w → ∃ s' es, x'.sessions[i]? = some s' ∧
    x'.watch i rem = (x.watch i rem).tell es ∧ Undisturbed w s es s'

/-- The session with number `i` is closed, whatever it is to the broker then. -/
def Shuts (i : Nat) (x x' : Exchange) : Prop :=
  ∀ s rem, x.sessions[i]? = some s → ∃ standing,
    x'.sessions[i]? = some ({ s with standing }.close x.now).1 ∧
      x'.watch i rem = (x.watch i rem).tell ({ s with standing }.close x.now).2

theorem LeavesAlone.of_same {x' : Exchange} (hsessions : x'.sessions[i]? = x.sessions[i]?)
    (hwatch : ∀ rem, x'.watch i rem = x.watch i rem) : LeavesAlone i w x x' := by
  intro s rem hi hs
  refine ⟨s, [], hsessions.trans hi, ?_, hs, by simp, fun _ h => h⟩
  rw [hwatch, Session.tell_nil]

theorem stepSession_leavesAlone (hf : ∀ s, s.Bides w → Undisturbed w s (f s).2 (f s).1) :
    LeavesAlone i w x (x.stepSession j f) := by
  by_cases hij : i = j
  · subst hij
    exact fun s rem hi hs =>
      ⟨(f s).1, (f s).2, session_stepSession hi, watch_stepSession hi, hf s hs⟩
  · exact .of_same (session_stepSession_of_ne hij) fun _ => watch_stepSession_of_ne hij

/-- A session is closed, and perhaps taken off its port. -/
theorem stepSession_shuts {close : Session → Session × List Effect} (standing : Session → Standing)
    (hclose : ∀ s, close s = { s with standing := standing s }.close x.now) :
    LeavesAlone i w x (x.stepSession j close) ∨ Shuts i x (x.stepSession j close) := by
  by_cases hij : i = j
  · subst hij
    refine Or.inr fun s rem hi => ⟨standing s, ?_, ?_⟩
    · rw [session_stepSession hi, hclose]
    · rw [watch_stepSession hi, hclose]
  · exact Or.inl (.of_same (session_stepSession_of_ne hij) fun _ => watch_stepSession_of_ne hij)

theorem create_leavesAlone (port : Port) : LeavesAlone i w x (x.create port).2 := by
  unfold create
  split
  · exact .of_same rfl fun _ => rfl
  · intro s rem hi hs
    obtain ⟨hlt, -⟩ := List.getElem?_eq_some_iff.mp hi
    exact ⟨s, [], (List.getElem?_append_left hlt).trans hi, (Session.tell_nil _).symm, hs, by simp,
      fun _ h => h⟩

/-- Whatever happens but the acceptance of this playback, it is not disturbed, or its session is
closed. -/
theorem apply_leavesAlone (hinterval : 0 < c.interval) (e : Event) (he : ∀ ms, e ≠ .advance ms)
    (hid : e.playback? ≠ some w.request.id) :
    LeavesAlone i w x (x.apply c e) ∨ Shuts i x (x.apply c e) := by
  cases e with
  | create port => exact Or.inl (create_leavesAlone port)
  | mark session state hstate =>
    refine Or.inl (stepSession_leavesAlone (f := fun s => (s.advanceTo state, [])) fun s hs => ?_)
    have hmove : Session.Move c x.now (.mark state) s [] (s.advanceTo state) := .mark s hstate
    exact hmove.moves.undisturbed hs (by simp) (by simp) hs.waits (by simp)
  | receive session sender =>
    exact Or.inl (stepSession_leavesAlone fun s hs =>
      Session.receive_undisturbed hs hinterval sender)
  | play port payload format id =>
    have hne : id ≠ w.request.id := fun heq => hid (congrArg some heq)
    rcases play_cases c x port payload format id with heq | ⟨j, s, f, -, -, -, heq⟩
    · exact Or.inl (.of_same (congrArg (·.sessions[i]?) heq) fun rem => congrArg (watch i rem) heq)
    · refine Or.inl ?_
      change LeavesAlone i w x (x.play c port payload format id).2
      rw [heq]
      exact stepSession_leavesAlone fun s hs => Session.accept_undisturbed hs hne
  | endProgram session ending held =>
    exact Or.inl (stepSession_leavesAlone fun s hs =>
      Session.endProgram_undisturbed hs ending held)
  | closeOutput session =>
    exact Or.inl (stepSession_leavesAlone fun s hs => Session.closeOutput_undisturbed hs)
  | close j => exact stepSession_shuts (·.standing) fun s => rfl
  | remove port standing =>
    change LeavesAlone i w x (x.remove port standing).2 ∨ Shuts i x (x.remove port standing).2
    cases hnumber : x.numberAt? port with
    | none =>
      rw [remove_none hnumber]
      exact Or.inl (.of_same rfl fun _ => rfl)
    | some j =>
      obtain ⟨metrics, heq⟩ := remove_some hnumber standing
      rw [heq]
      exact stepSession_shuts (fun _ => standing) fun s => rfl
  | prune retention =>
    refine Or.inl (.of_same (congrArg (·[i]?) (sessions_prune retention)) fun rem => ?_)
    change (x.prune retention).2.watch i rem = _
    unfold Exchange.prune
    dsimp only
    split <;> rfl
  | advance ms => exact absurd rfl (he ms)

theorem ring_leavesAlone {a : Alarm} (ha : a.sleeper ≠ .playback i w.request.id) :
    LeavesAlone i w x (x.ring c a) := by
  unfold Exchange.ring
  split
  · next j id hsleeper =>
    by_cases hij : i = j
    · subst hij
      refine stepSession_leavesAlone fun s hs => Session.wake_undisturbed hs fun heq => ?_
      exact ha (heq ▸ hsleeper)
    · exact .of_same (session_stepSession_of_ne hij) fun _ => watch_stepSession_of_ne hij
  · exact .of_same rfl fun _ => rfl

end Exchange

end RtpBroker
