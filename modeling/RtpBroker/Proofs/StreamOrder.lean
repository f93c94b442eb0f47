import RtpBroker.Proofs.Newcomers
import RtpBroker.Proofs.Runs

/-!
# The order of the streams

The playbacks of a session start streaming in the order in which they find the
address of the peer. That is the order of their acceptance, but for one case: the
address becomes known between the looks of two playbacks, so that the one accepted
later looks first.
-/

namespace RtpBroker

/-- Whom of the session with number `i` an alarm wakes, and when. -/
def Alarm.wake? (i : Nat) (a : Alarm) : Option (Nat × Uuid) :=
  match a.sleeper with
  | .playback j id => if j = i then some (a.due, id) else none
  | .reaper _ => none

theorem Alarm.due_of_wake? {i : Nat} {a : Alarm} {w : Nat × Uuid} (h : a.wake? i = some w) :
    w.1 = a.due := by
  unfold Alarm.wake? at h
  split at h
  · split at h
    · cases h
      rfl
    · cases h
  · cases h

theorem Alarm.sleeper_of_wake? {i : Nat} {a : Alarm} {w : Nat × Uuid} (h : a.wake? i = some w) :
    a.sleeper = .playback i w.2 := by
  unfold Alarm.wake? at h
  split at h
  · next hsleeper =>
    split at h
    · next hji =>
      cases h
      rw [hsleeper, hji]
    · cases h
  · cases h

namespace Exchange

open Session (InTurn Proceeds)

def history (i : Nat) (x : Exchange) : History :=
  x.journal.filterMap fun n => if n.session = i then some (n.time, n.effect) else none

/-- What is known of the session with number `i`, of whose alarms those among `rem` ring. -/
def watch (i : Nat) (rem : List Alarm) (x : Exchange) : Watch where
  now := x.now
  ringing := (rem.filterMap (Alarm.wake? i)).map Prod.snd
  set := x.agenda.filterMap (Alarm.wake? i)
  history := x.history i

/-- In every session it goes in turn, and of others nothing is known. -/
structure Ordered (c : PlaySetup) (rem : List Alarm) (x : Exchange) : Prop where
  inTurn : ∀ (i : Nat) s, x.sessions[i]? = some s → ∃ last, s.InTurn c last (x.watch i rem)
  unopened : ∀ i, x.sessions[i]? = none → x.watch i [] = { now := x.now }

variable {c : PlaySetup} {asked : Request → Prop} {x x' : Exchange} {i j : Nat}
  {rem rem' : List Alarm} {f : Session → Session × List Effect} {s : Session} {id : Uuid}

/-! ## Watching -/

theorem wakes_of_alarms (es : List Effect) :
    (es.filterMap (Effect.alarm? j)).filterMap (Alarm.wake? i) =
      if j = i then es.filterMap Effect.wake? else [] := by
  rw [List.filterMap_filterMap]
  split
  · next hji =>
    refine List.filterMap_congr fun e _ => ?_
    cases e <;> simp [Effect.alarm?, Effect.wake?, Alarm.wake?, hji]
  · next hji =>
    refine List.filterMap_eq_nil_iff.mpr fun e _ => ?_
    cases e <;> simp [Effect.alarm?, Alarm.wake?, hji]

theorem watch_performs (es : List Effect) {sessions : List Session} :
    (es.foldl (perform j) { x with sessions }).watch i rem =
      if j = i then (x.watch i rem).tell es else x.watch i rem := by
  have hnow : (es.foldl (perform j) { x with sessions }).now = x.now := now_performs es
  have hset : (es.foldl (perform j) { x with sessions }).agenda.filterMap (Alarm.wake? i) =
      x.agenda.filterMap (Alarm.wake? i) ++ if j = i then es.filterMap Effect.wake? else [] := by
    rw [agenda_performs, List.filterMap_append, wakes_of_alarms]
  have hhistory : (es.foldl (perform j) { x with sessions }).history i =
      x.history i ++ if j = i then es.map (x.now, ·) else [] := by
    rw [history, journal_performs, List.filterMap_append, List.filterMap_map]
    refine congrArg _ ?_
    split
    · next hji => simp [hji]
    · next hji => simp [hji]
  rw [watch, hnow, hset, hhistory]
  split
  · rfl
  · rw [List.append_nil, List.append_nil]
    rfl

theorem mem_story_of_accepted (h : id ∈ (x.history i).accepted) : x.story id ≠ [] := by
  obtain ⟨⟨t, e⟩, hmem, haccepted⟩ := List.mem_filterMap.mp h
  obtain ⟨n, hn, heq⟩ := List.mem_filterMap.mp hmem
  split at heq
  · cases heq
    have hsubject : n.effect.subject? = some id := by
      cases heffect : n.effect <;> simp_all [Effect.accepted?, Effect.subject?]
    exact List.ne_nil_of_mem (mem_story id hn hsubject)
  · cases heq

/-! ## One session -/

theorem Ordered.stepSession (h : Ordered c rem x)
    (hf : ∀ s last, x.sessions[i]? = some s → s.InTurn c last (x.watch i rem) →
      ∃ last', (f s).1.InTurn c last' ((x.watch i rem').tell (f s).2))
    (hrem : ∀ j ≠ i, x.watch j rem' = x.watch j rem) : Ordered c rem' (x.stepSession i f) := by
  cases hi : x.sessions[i]? with
  | none =>
    rw [stepSession_none hi]
    refine ⟨fun j t ht => ?_, h.unopened⟩
    have hji : j ≠ i := fun hji => by
      rw [hji, hi] at ht
      cases ht
    rw [hrem j hji]
    exact h.inTurn j t ht
  | some s =>
    rw [stepSession_some hi]
    refine ⟨fun j t ht => ?_, fun j hj => ?_⟩
    · rw [watch_performs]
      rcases session_of_move ht with ⟨rfl, rfl⟩ | ⟨hji, ht⟩
      · obtain ⟨last, hturn⟩ := h.inTurn j s hi
        rw [if_pos rfl]
        exact hf s last hi hturn
      · rw [if_neg (Ne.symm hji), hrem j hji]
        exact h.inTurn j t ht
    · rw [sessions_performs, List.getElem?_set] at hj
      split at hj
      · next hij =>
        subst hij
        rw [if_pos (List.getElem?_eq_some_iff.mp hi).1] at hj
        cases hj
      · next hij =>
        rw [watch_performs, if_neg hij, now_performs]
        exact h.unopened j hj

theorem Ordered.proceed (h : Ordered c [] x) (hx : Reached c asked x)
    (hf : ∀ s, x.sessions[i]? = some s → Proceeds x.now s (f s).2 (f s).1) :
    Ordered c [] (x.stepSession i f) := by
  refine h.stepSession (fun s last hi hturn => ?_) fun _ _ => rfl
  exact ⟨last, hturn.proceed (hx.sound hi) (hf s hi) (List.Sublist.refl _) fun _ _ hring => hring⟩

theorem Ordered.close (h : Ordered c [] x) (hx : Reached c asked x) (i : Nat) :
    Ordered c [] (x.close i) :=
  h.proceed hx fun _ hi => Session.close_proceeds x.now (hx.sound hi).nodup

theorem Ordered.remove (h : Ordered c [] x) (hx : Reached c asked x) (port : Port)
    (standing : Standing) : Ordered c [] (x.remove port standing).2 := by
  unfold Exchange.remove
  split
  · exact h
  · next i _ =>
    have hclosed : Ordered c []
        ((x.stepSession i fun s => ({ s with standing }, [])).stepSession i (·.close x.now)) := by
      rw [stepSession_stepSession]
      refine h.proceed hx fun s hi => ?_
      have hstand : Proceeds x.now s [] { s with standing } :=
        .of_aside (List.Sublist.refl _) (List.Sublist.refl _) rfl (fun hslot => hslot) (by simp)
      exact hstand.trans (Session.close_proceeds x.now (hx.sound hi).nodup)
    have hnow : (x.stepSession i fun s => ({ s with standing }, [])).now = x.now :=
      now_stepSession ..
    dsimp only [Exchange.close]
    rw [hnow]
    exact ⟨hclosed.inTurn, hclosed.unopened⟩

theorem Ordered.create (h : Ordered c [] x) (port : Port) : Ordered c [] (x.create port).2 := by
  unfold Exchange.create
  split
  · exact h
  · refine ⟨fun i s hi => ?_, fun i hi => h.unopened i ?_⟩
    · by_cases hlt : i < x.sessions.length
      · exact h.inTurn i s ((List.getElem?_append_left hlt).symm.trans hi)
      · have hwatch := h.unopened i (List.getElem?_eq_none (Nat.le_of_not_lt hlt))
        obtain rfl : Session.opened port x.now = s := by
          rw [List.getElem?_append_right (Nat.le_of_not_lt hlt)] at hi
          exact (List.mem_singleton.mp (List.mem_of_getElem? hi)).symm
        refine ⟨fun _ => 0, ?_⟩
        change InTurn c _ (x.watch i []) _
        rw [hwatch]
        exact .opened port x.now
    · rw [List.getElem?_eq_none_iff] at hi ⊢
      rw [List.length_append] at hi
      omega

theorem Ordered.play (h : Ordered c [] x) (port : Port) (payload : ByteArray)
    (format : Option String) (hnew : x.story id = []) :
    Ordered c [] (x.play c port payload format id).2 := by
  rcases play_cases c x port payload format id with heq | ⟨i, s, f, -, -, -, heq⟩
  · rw [heq]
    exact h
  · rw [heq]
    refine h.stepSession (fun s last hi hturn => ?_) fun _ _ => rfl
    exact hturn.accept rfl fun hmem => mem_story_of_accepted hmem hnew

theorem Ordered.receive (h : Ordered c [] x) (hx : Reached c asked x) (i : Nat)
    (sender : SocketAddr) : Ordered c [] (x.receive c i sender) :=
  h.stepSession (fun _ last hi hturn => ⟨last, hturn.receive (hx.sound hi) rfl sender⟩)
    fun _ _ => rfl

/-! ## The clock -/

theorem Ordered.ring {a : Alarm} (h : Ordered c (a :: rem) x) (hx : Reached c asked x) :
    Ordered c rem (x.ring c a) := by
  unfold Exchange.ring
  split
  · next i id ha =>
    refine h.stepSession (fun s last hi hturn => ?_) fun j hji => ?_
    · have hringing : (x.watch i (a :: rem)).ringing = id :: (x.watch i rem).ringing := by
        simp [watch, Alarm.wake?, ha]
      exact hturn.wake (hx.sound hi) hringing
    · have hskip : Alarm.wake? j a = none := by
        simp [Alarm.wake?, ha, Ne.symm hji]
      rw [watch, watch, List.filterMap_cons_none hskip]
  · next k ha =>
    refine ⟨fun i s hi => ?_, h.unopened⟩
    have hskip : Alarm.wake? i a = none := by
      simp [Alarm.wake?, ha]
    have hwatch : x.watch i rem = x.watch i (a :: rem) := by
      rw [watch, watch, List.filterMap_cons_none hskip]
    rw [hwatch]
    exact h.inTurn i s hi

theorem Ordered.rings (alarms : List Alarm) (h : Ordered c alarms x) (hx : Reached c asked x) :
    Ordered c [] (alarms.foldl (Exchange.ring c) x) := by
  induction alarms generalizing x with
  | nil => exact h
  | cons a alarms ih => exact ih (h.ring hx) ((ring_steps c x a).reached hx (by simp))

theorem wakes_filter (p : Nat → Bool) (agenda : Agenda) :
    (agenda.filter (p ·.due)).filterMap (Alarm.wake? i) =
      (agenda.filterMap (Alarm.wake? i)).filter (p ·.1) := by
  rw [List.filterMap_filter, List.filter_filterMap]
  refine List.filterMap_congr fun a _ => ?_
  cases hwake : a.wake? i with
  | none => simp
  | some w =>
    simp [Option.filter, Alarm.due_of_wake? hwake]

theorem watch_goOn (i t : Nat) (x : Exchange) :
    ({ x with now := t, agenda := x.agenda.after t } : Exchange).watch i (x.agenda.dueAt t) =
      (x.watch i []).goOn t := by
  have hdue := wakes_filter (i := i) (· == t) x.agenda
  have hafter := wakes_filter (i := i) (fun due => decide (t < due)) x.agenda
  simp only [watch, Watch.goOn, Agenda.dueAt, Agenda.after, hdue, hafter]
  rfl

theorem Ordered.ahead {t : Nat} (h : Ordered c [] x) (hi : x.sessions[i]? = some s)
    (hnext : ∀ t', x.agenda.nextAfter? x.now = some t' → t ≤ t') :
    ∀ w ∈ (x.watch i []).set, t ≤ w.1 := by
  intro w hw
  obtain ⟨last, hturn⟩ := h.inTurn i s hi
  have hfuture := hturn.awaiting.future w hw
  obtain ⟨a, ha, hwake⟩ := List.mem_filterMap.mp hw
  rw [Alarm.due_of_wake? hwake] at hfuture ⊢
  obtain ⟨t', ht', hle⟩ := Agenda.nextAfter?_le ha hfuture
  exact Nat.le_trans (hnext t' ht') hle

/-- The clock goes on to a time before which nobody is to be woken. -/
theorem Ordered.goOn {t : Nat} (h : Ordered c [] x) (hle : x.now ≤ t)
    (hnext : ∀ t', x.agenda.nextAfter? x.now = some t' → t ≤ t') :
    Ordered c (x.agenda.dueAt t) { x with now := t, agenda := x.agenda.after t } := by
  refine ⟨fun i s hi => ?_, fun i hi => ?_⟩
  · obtain ⟨last, hturn⟩ := h.inTurn i s hi
    rw [watch_goOn]
    exact ⟨last, hturn.goOn rfl hle (h.ahead hi hnext)⟩
  · have hnone := h.unopened i hi
    have hset : x.agenda.filterMap (Alarm.wake? i) = [] := congrArg Watch.set hnone
    have hafter := wakes_filter (i := i) (fun due => decide (t < due)) x.agenda
    rw [hset] at hafter
    have hhistory : x.history i = [] := congrArg Watch.history hnone
    exact Watch.ext rfl rfl hafter hhistory

theorem Ordered.fire {t : Nat} (h : Ordered c [] x) (hx : Reached c asked x) (hp : Punctual [] x)
    (ht : x.agenda.nextAfter? x.now = some t) : Ordered c [] (x.fire c t) := by
  have hdue := h.goOn (Nat.le_of_lt (Agenda.lt_of_nextAfter? ht)) fun t' ht' =>
    Nat.le_of_eq (Option.some.inj (ht.symm.trans ht'))
  exact hdue.rings _ (hx.due hp ht)

/-- The clock goes on to a time for which nobody is to be woken either. -/
theorem Ordered.later {target : Nat} (h : Ordered c [] x) (hle : x.now ≤ target)
    (hnext : ∀ t, x.agenda.nextAfter? x.now = some t → target < t) :
    Ordered c [] { x with now := target } := by
  refine ⟨fun i s hi => ?_, fun i hi => ?_⟩
  · obtain ⟨last, hturn⟩ := h.inTurn i s hi
    have hahead := h.ahead (t := target + 1) hi hnext
    have hwatch : ({ x with now := target } : Exchange).watch i [] =
        (x.watch i []).goOn target := by
      have hnobody : (x.watch i []).set.filter (·.1 == target) = [] :=
        List.filter_eq_nil_iff.mpr fun w hw => by
          have hlt := hahead w hw
          simp only [beq_iff_eq]
          omega
      have hall : (x.watch i []).set.filter (target < ·.1) = (x.watch i []).set :=
        List.filter_eq_self.mpr fun w hw => decide_eq_true (hahead w hw)
      exact Watch.ext rfl (congrArg (List.map Prod.snd) hnobody).symm hall.symm rfl
    rw [hwatch]
    exact ⟨last, hturn.goOn rfl hle fun w hw => Nat.le_of_lt (hahead w hw)⟩
  · have hnone := h.unopened i hi
    have hset : x.agenda.filterMap (Alarm.wake? i) = [] := congrArg Watch.set hnone
    have hhistory : x.history i = [] := congrArg Watch.history hnone
    exact Watch.ext rfl rfl hset hhistory

theorem Ordered.advance (h : Ordered c [] x) (hx : Reached c asked x) (hp : Punctual [] x)
    (ms : Nat) : Ordered c [] (x.advance c ms) := by
  have hfire : ∀ now t (y : Exchange),
      (y.now = now ∧ Reached c asked y ∧ Punctual [] y ∧ Ordered c [] y) →
      y.agenda.nextAfter? now = some t → t ≤ x.now + ms →
      ((y.fire c t).now = t ∧ Reached c asked (y.fire c t) ∧ Punctual [] (y.fire c t) ∧
        Ordered c [] (y.fire c t)) := by
    rintro _ t y ⟨rfl, hy, hpy, hordered⟩ ht -
    obtain ⟨hy', hpy'⟩ := hy.fire hpy ht
    exact ⟨now_fire t, hy', hpy', hordered.fire hy hpy ht⟩
  obtain ⟨last, -, hlast, ⟨rfl, -, -, hordered⟩, hrest⟩ :=
    Agenda.run_induct hfire ⟨rfl, hx, hp, h⟩ (Nat.le_add_right x.now ms)
  exact hordered.later hlast hrest

/-! ## Runs -/

theorem Ordered.apply (h : Ordered c [] x) (hx : Rests c asked x) (e : Event)
    (hnew : ∀ id, e.playback? = some id → x.story id = []) : Ordered c [] (x.apply c e) := by
  cases e with
  | create port => exact h.create port
  | mark session state hstate =>
    have hmark : ∀ s : Session, Proceeds x.now s [] (s.advanceTo state) := fun s =>
      .of_aside (List.Sublist.refl _) (List.Sublist.refl _) rfl (fun hslot => hslot) (by simp)
    exact h.proceed hx.reached (f := fun s => (s.advanceTo state, [])) fun s _ => hmark s
  | receive session sender => exact h.receive hx.reached session sender
  | play port payload format id => exact h.play port payload format (hnew id rfl)
  | endProgram session ending held =>
    exact h.proceed hx.reached fun s hi =>
      Session.endProgram_proceeds c x.now (hx.reached.sound hi).nodup ending held
  | closeOutput session =>
    exact h.proceed hx.reached fun s _ => Session.closeOutput_proceeds c x.now s
  | close session => exact h.close hx.reached session
  | remove port standing => exact h.remove hx.reached port standing
  | prune retention =>
    change Ordered c [] (x.prune retention).2
    unfold Exchange.prune
    dsimp only
    split
    · exact ⟨h.inTurn, h.unopened⟩
    · exact ⟨h.inTurn, h.unopened⟩
  | advance ms => exact h.advance hx.reached hx.punctual ms

theorem run_ordered (calendar : Timestamp) {events before after : List Event}
    (hfresh : Fresh events) (heq : events = before ++ after) :
    Ordered c [] (run c before { calendar }) := by
  induction before using List.reverseRecOn generalizing after with
  | nil => exact ⟨by simp [run], fun _ _ => rfl⟩
  | append_singleton before e ih =>
    rw [List.append_assoc] at heq
    obtain ⟨hrests, hnil⟩ := run_rests (c := c) calendar hfresh heq
    rw [run_snoc]
    refine (ih heq).apply hrests e fun id hid => hnil id fun hmem => ?_
    unfold Fresh at hfresh
    rw [heq, List.filterMap_append, List.nodup_append] at hfresh
    exact hfresh.2.2 id hmem id (List.mem_filterMap.mpr ⟨e, by simp, hid⟩) rfl

/-- Who has streamed did so in a session that knows the address of its peer. -/
theorem Reached.known_of_streamed (hx : Reached c asked x) (hid : id ∈ (x.history i).streamed) :
    ∃ s, x.sessions[i]? = some s ∧ s.remote ≠ none := by
  obtain ⟨⟨t, e⟩, hmem, hstreams⟩ := List.mem_filterMap.mp hid
  obtain ⟨n, hn, heq⟩ := List.mem_filterMap.mp hmem
  split at heq
  · next hsession =>
    cases heq
    obtain ⟨s, hi, hwarranted⟩ := hx.warranted n hn
    refine ⟨s, hsession ▸ hi, ?_⟩
    cases heffect : n.effect <;> simp_all [Effect.streams?, Effect.Warranted]
  · cases heq

/-- Of two playbacks of a session, the one accepted first streams first, unless the other one finds
the address of the peer before it does; then that one does. -/
theorem run_streams_as_found (c : PlaySetup) (calendar : Timestamp) {events : List Event}
    (hfresh : Fresh events) (i : Nat) {id₁ id₂ : Uuid}
    (haccepted : ((run c events { calendar }).history i).AcceptedBefore id₁ id₂)
    (h₁ : id₁ ∈ ((run c events { calendar }).history i).streamed)
    (h₂ : id₂ ∈ ((run c events { calendar }).history i).streamed) :
    ∃ f₁ f₂, ((run c events { calendar }).history i).finding? c id₁ = some f₁ ∧
      ((run c events { calendar }).history i).finding? c id₂ = some f₂ ∧
      (((run c events { calendar }).history i).StreamsBefore id₁ id₂ ↔ ¬ f₂.Before f₁) ∧
      (((run c events { calendar }).history i).StreamsBefore id₂ id₁ ↔ f₂.Before f₁) := by
  obtain ⟨hrests, -⟩ := run_rests (c := c) calendar hfresh (List.append_nil events).symm
  have hordered : Ordered c [] (run c events { calendar }) :=
    run_ordered calendar hfresh (List.append_nil events).symm
  obtain ⟨s, hi, hremote⟩ := hrests.reached.known_of_streamed h₁
  obtain ⟨last, hturn⟩ := hordered.inTurn i s hi
  have hqueueing := hturn.queueing hremote
  obtain ⟨f₁, hf₁, -⟩ := hqueueing.past id₁ (List.mem_append_left _ h₁)
  obtain ⟨f₂, hf₂, -⟩ := hqueueing.past id₂ (List.mem_append_left _ h₂)
  have hsorted := hqueueing.sorted.sublist (List.sublist_append_left _ _)
  exact ⟨f₁, f₂, hf₁, hf₂, History.streamsBefore_iff hturn.awaiting.unrepeated hsorted haccepted
    h₁ h₂ hf₁ hf₂⟩

/-- The address becomes known between the looks of a playback, and another one that is accepted
after that finds it before the first one looks again. -/
def overtaking : List Event :=
  [.create 40000, .play 40000 ⟨#[1]⟩ none ⟨1⟩, .advance 300,
    .receive 0 ⟨.v4 127 0 0 1, 50000, 0⟩, .advance 100, .play 40000 ⟨#[2]⟩ none ⟨2⟩,
    .endProgram 0 (.exit (some 0)) false, .advance 100]

def overtakingSetup : PlaySetup where
  host := { directories := ["/tmp"] }

theorem overtaking_streams_as_found :
    ∃ f₁ f₂,
      ((run overtakingSetup overtaking {}).history 0).finding? overtakingSetup ⟨1⟩ = some f₁ ∧
      ((run overtakingSetup overtaking {}).history 0).finding? overtakingSetup ⟨2⟩ = some f₂ ∧
      (((run overtakingSetup overtaking {}).history 0).StreamsBefore ⟨1⟩ ⟨2⟩ ↔ ¬ f₂.Before f₁) ∧
      (((run overtakingSetup overtaking {}).history 0).StreamsBefore ⟨2⟩ ⟨1⟩ ↔ f₂.Before f₁) :=
  run_streams_as_found overtakingSetup ⟨0, 0⟩ (by unfold Fresh; decide) 0 (by decide +kernel)
    (by decide +kernel) (by decide +kernel)

/-- Not always does the one accepted first stream first. -/
theorem not_streams_as_accepted :
    ¬ ∀ (c : PlaySetup) (calendar : Timestamp) (events : List Event), Fresh events →
      ∀ (i : Nat) (id₁ id₂ : Uuid),
        ((run c events { calendar }).history i).AcceptedBefore id₁ id₂ →
        id₁ ∈ ((run c events { calendar }).history i).streamed →
        id₂ ∈ ((run c events { calendar }).history i).streamed →
        ((run c events { calendar }).history i).StreamsBefore id₁ id₂ := by
  intro h
  have hfirst : ((run overtakingSetup overtaking { }).history 0).StreamsBefore ⟨1⟩ ⟨2⟩ :=
    h overtakingSetup ⟨0, 0⟩ overtaking (by unfold Fresh; decide) 0 ⟨1⟩ ⟨2⟩ (by decide +kernel)
      (by decide +kernel) (by decide +kernel)
  exact absurd hfirst (by decide +kernel)

end Exchange

end RtpBroker
