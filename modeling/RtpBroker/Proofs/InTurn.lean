import Mathlib.Logic.Function.Basic
import RtpBroker.Proofs.Findings
import RtpBroker.Proofs.Punctual

/-!
# Taking turns

As long as the address of the peer is unknown, everybody looks in its own grid, and
who looked last comes last among those who look at one time. Once it is known,
whoever looks joins the line, so the playbacks that have had their turn, those in
line and those who look next are in the order in which they find the address.
-/

namespace RtpBroker

/-- What is known of a session at some time: the playbacks that are woken right now, those that will
be woken and when, and its history. -/
@[ext] structure Watch where
  now : Nat
  ringing : List Uuid := []
  set : List (Nat × Uuid) := []
  history : History := []

def Effect.wake? : Effect → Option (Nat × Uuid)
  | .alarm due id => some (due, id)
  | _ => none

/-- Nothing that matters to those who wait. -/
def Effect.IsAside (e : Effect) : Prop :=
  e.isLearned = false ∧ e.accepted? = none ∧ e.wake? = none

namespace Watch

def tell (es : List Effect) (k : Watch) : Watch :=
  { k with set := k.set ++ es.filterMap Effect.wake?, history := k.history ++ es.map (k.now, ·) }

/-- What is known when the clock goes on to `t`: those ring whose time has come. -/
def goOn (t : Nat) (k : Watch) : Watch where
  now := t
  ringing := (k.set.filter (·.1 == t)).map Prod.snd
  set := k.set.filter (t < ·.1)
  history := k.history

/-- The playback will be woken at this time, or is so right now. -/
def Wakes (k : Watch) (id : Uuid) (due : Nat) : Prop :=
  k.now = due ∧ id ∈ k.ringing ∨ k.now < due ∧ (due, id) ∈ k.set

end Watch

namespace Session

def waitingIds (s : Session) : List Uuid := s.waiting.map (·.request.id)

/-- The playbacks that had their turn and those in line. -/
def turns (h : History) (s : Session) : List Uuid := h.streamed ++ s.line.map (·.id)

/-- Of those who wait, this one looked before that one, or at the same time and was accepted
before. -/
def Ranked (h : History) (last : Uuid → Nat) (s : Session) (id id' : Uuid) : Prop :=
  id ∈ s.waitingIds → id' ∈ s.waitingIds →
    last id < last id' ∨ last id = last id' ∧ h.AcceptedBefore id id'

/-- When a playback looks for the next time that looked `last` in vain. -/
def lookAfter (c : PlaySetup) (last : Uuid → Nat) (w : Waiting) : Nat :=
  nextLook c (last w.request.id) w.deadline

/-- Everybody is woken once, for its next look, and at one time in the order of the last looks. -/
structure Awaiting (c : PlaySetup) (last : Uuid → Nat) (k : Watch) (s : Session) : Prop where
  unrepeated : k.history.accepted.Nodup
  woken : ∀ w ∈ s.waiting, k.Wakes w.request.id (lookAfter c last w)
  rung : ∀ w ∈ s.waiting, w.request.id ∈ k.ringing → k.now = lookAfter c last w
  once : ∀ w ∈ s.waiting, ∀ due, (due, w.request.id) ∈ k.set → due = lookAfter c last w
  future : ∀ a ∈ k.set, k.now < a.1
  ringing : k.ringing.Pairwise (Ranked k.history last s)
  set : (k.set.map Prod.snd).Pairwise (Ranked k.history last s)

/-- What is so as long as the address is unknown. -/
structure Searching (c : PlaySetup) (last : Uuid → Nat) (k : Watch) (s : Session) : Prop where
  unlearned : k.history.learnings = []
  turns : s.turns k.history = []
  ordered : s.waiting.Pairwise fun u w =>
    u.deadline ≤ w.deadline ∧ k.history.AcceptedBefore u.request.id w.request.id
  onGrid : ∀ w ∈ s.waiting, ∃ a n, k.history.milestones w.request.id = [.accepted a] ∧
    w.deadline = a + c.ceiling ∧ last w.request.id = a + n * c.interval
  past : ∀ w ∈ s.waiting, last w.request.id ≤ k.now ∧ last w.request.id < w.deadline
  ahead : ∀ u ∈ s.waiting, last u.request.id = k.now → ∀ w ∈ s.waiting,
    w.request.id ∈ k.ringing → k.now < w.deadline →
      k.history.AcceptedBefore u.request.id w.request.id
  known : ∀ a ∈ k.set, a.2 ∈ k.history.accepted

/-- What is so once the address is known. -/
structure Queueing (c : PlaySetup) (last : Uuid → Nat) (k : Watch) (s : Session) : Prop where
  learned : ∃ t, k.history.learnings = [t]
  still : c.interval = 0 → s.waiting = []
  found : ∀ w ∈ s.waiting, k.history.finding? c w.request.id =
    some ⟨lookAfter c last w, last w.request.id⟩
  looked : ∀ w ∈ s.waiting, last w.request.id ≤ k.now
  past : ∀ id ∈ s.turns k.history, ∃ f, k.history.finding? c id = some f ∧
    f.time ≤ k.now ∧ f.missed ≤ k.now
  sorted : (s.turns k.history).Pairwise (k.history.FindsBefore c)
  ahead : ∀ id ∈ s.turns k.history, ∀ id' ∈ s.waitingIds, k.history.FindsBefore c id id'

structure InTurn (c : PlaySetup) (last : Uuid → Nat) (k : Watch) (s : Session) : Prop where
  awaiting : Awaiting c last k s
  searching : s.remote = none → Searching c last k s
  queueing : s.remote ≠ none → Queueing c last k s

/-! ## Nobody new finds the address -/

/-- Nobody has begun to wait, and nobody who waits is woken at another time. -/
structure Eases (now : Nat) (s : Session) (es : List Effect) (s' : Session) : Prop where
  waiting : s'.waiting.Sublist s.waiting
  wakes : ∀ due id, .alarm due id ∈ es → now < due ∧ id ∉ s'.waitingIds

/-- Nor has anybody been accepted, the address become known, or somebody joined the line. -/
structure Proceeds (now : Nat) (s : Session) (es : List Effect) (s' : Session) : Prop
    extends Eases now s es s' where
  remote : s'.remote = s.remote
  asleep : s.slot = none → s'.slot = none ∧ ∀ e ∈ es, e.wake? = none
  unaccepted : ∀ e ∈ es, e.accepted? = none
  unlearned : ∀ e ∈ es, e.isLearned = false
  turns : (es.filterMap Effect.streams? ++ s'.line.map (·.id)).Sublist (s.line.map (·.id))

/-- The playbacks `ids` join the line in this order, and `ws` are those who wait then. -/
structure Joins (ids : List Uuid) (ws : List Waiting) (s : Session) (es : List Effect)
    (s' : Session) : Prop where
  waiting : s'.waiting = ws
  remote : s'.remote = s.remote
  turns : es.filterMap Effect.streams? ++ s'.line.map (·.id) = s.line.map (·.id) ++ ids
  aside : ∀ e ∈ es, e.IsAside

section

variable {c : PlaySetup} {last : Uuid → Nat} {k : Watch} {now : Nat} {s s' : Session}
  {es : List Effect} {ringing : List Uuid}

theorem mem_waitingIds {w : Waiting} (hw : w ∈ s.waiting) : w.request.id ∈ s.waitingIds :=
  List.mem_map_of_mem hw

theorem waitingIds_sublist (h : s'.waiting.Sublist s.waiting) :
    s'.waitingIds.Sublist s.waitingIds := h.map _

theorem learnings_eq_nil (h : ∀ e ∈ es, e.isLearned = false) (t : Nat) :
    History.learnings (es.map (t, ·)) = [] := by
  rw [History.learnings_map, List.filter_eq_nil_iff.mpr, List.map_nil]
  intro e he
  rw [h e he]
  exact Bool.false_ne_true

theorem accepted_eq_nil (h : ∀ e ∈ es, e.accepted? = none) (t : Nat) :
    History.accepted (es.map (t, ·)) = [] := by
  rw [History.accepted_map, List.filterMap_eq_nil_iff]
  exact h

theorem nodup_told (hk : k.history.accepted.Nodup) (h : ∀ e ∈ es, e.accepted? = none) :
    (k.tell es).history.accepted.Nodup := by
  change (History.accepted (k.history ++ es.map (k.now, ·))).Nodup
  rw [History.accepted_append, accepted_eq_nil h, List.append_nil]
  exact hk

theorem Eases.wake (h : Eases now s es s') : ∀ a ∈ es.filterMap Effect.wake?,
    now < a.1 ∧ a.2 ∉ s'.waitingIds := by
  rintro ⟨due, id⟩ ha
  obtain ⟨e, he, hwake⟩ := List.mem_filterMap.mp ha
  cases e with
  | alarm due' id' =>
    cases hwake
    exact h.wakes due id he
  | _ => cases hwake

theorem Ranked.mono {h h' : History} {id id' : Uuid} (hr : Ranked h last s id id')
    (hwaiting : s'.waitingIds ⊆ s.waitingIds)
    (hbefore : h.AcceptedBefore id id' → h'.AcceptedBefore id id') :
    Ranked h' last s' id id' := fun hid hid' =>
  (hr (hwaiting hid) (hwaiting hid')).imp_right fun ⟨heq, hb⟩ => ⟨heq, hbefore hb⟩

theorem InTurn.opened (port : Port) (created : Nat) :
    (Session.opened port created).InTurn c last { now } := by
  refine ⟨⟨List.nodup_nil, ?_, ?_, ?_, ?_, .nil, .nil⟩, fun _ => ?_, fun hsome => absurd rfl hsome⟩
  · simp [Session.opened]
  · simp [Session.opened]
  · simp [Session.opened]
  · simp
  · exact ⟨rfl, rfl, .nil, by simp [Session.opened], by simp [Session.opened],
      by simp [Session.opened], by simp⟩

/-- `ringing` are those who ring after that; who is not woken does not wait any more. -/
theorem Awaiting.ease (h : Awaiting c last k s) (he : Eases k.now s es s')
    (hnodup : (k.tell es).history.accepted.Nodup) (hringing : ringing.Sublist k.ringing)
    (hkept : ∀ id ∈ s'.waitingIds, id ∈ k.ringing → id ∈ ringing) :
    Awaiting c last ({ k with ringing }.tell es) s' := by
  have hsub := he.waiting.subset
  have hids := (waitingIds_sublist he.waiting).subset
  have hranked : ∀ {id id'}, Ranked k.history last s id id' →
      Ranked (k.history ++ es.map (k.now, ·)) last s' id id' := fun hr =>
    hr.mono hids fun hb => hb.append _
  have hwake := he.wake
  refine ⟨hnodup, fun w hw => ?_, fun w hw hring => ?_, fun w hw due hmem => ?_, fun a ha => ?_,
    ?_, ?_⟩
  · refine (h.woken w (hsub hw)).imp (fun ⟨hnow, hring⟩ => ⟨hnow, ?_⟩) fun ⟨hlt, hset⟩ =>
      ⟨hlt, List.mem_append_left _ hset⟩
    exact hkept _ (mem_waitingIds hw) hring
  · exact h.rung w (hsub hw) (hringing.subset hring)
  · rcases List.mem_append.mp hmem with hmem | hmem
    · exact h.once w (hsub hw) due hmem
    · exact absurd (mem_waitingIds hw) (hwake _ hmem).2
  · rcases List.mem_append.mp ha with ha | ha
    · exact h.future a ha
    · exact (hwake a ha).1
  · exact (h.ringing.sublist hringing).imp hranked
  · change ((k.set ++ es.filterMap Effect.wake?).map Prod.snd).Pairwise _
    rw [List.map_append]
    have hnew : ∀ id ∈ (es.filterMap Effect.wake?).map Prod.snd, id ∉ s'.waitingIds := by
      intro id hid
      obtain ⟨a, ha, rfl⟩ := List.mem_map.mp hid
      exact (hwake a ha).2
    refine List.pairwise_append.mpr ⟨h.set.imp hranked, ?_, fun id _ id' hid' _ hwaits => ?_⟩
    · exact List.pairwise_of_forall_mem_list fun id hid _ _ hwaits _ => absurd hwaits (hnew id hid)
    · exact absurd hwaits (hnew id' hid')

theorem Proceeds.turns_sublist (hp : Proceeds now s es s') (h : History) (t : Nat) :
    (s'.turns (h ++ es.map (t, ·))).Sublist (s.turns h) := by
  rw [Session.turns, Session.turns, History.streamed_append, History.streamed_map,
    List.append_assoc]
  exact hp.turns.append_left _

theorem Searching.proceed (h : Searching c last k s) (he : Proceeds k.now s es s')
    (hslot : s.slot = none) (hringing : ringing ⊆ k.ringing) :
    Searching c last ({ k with ringing }.tell es) s' := by
  have hsub := he.waiting.subset
  have hlearned := learnings_eq_nil he.unlearned k.now
  have hunaccepted := accepted_eq_nil he.unaccepted k.now
  refine ⟨?_, ?_, ?_, fun w hw => ?_, fun w hw => h.past w (hsub hw), ?_, fun a ha => ?_⟩
  · change History.learnings (k.history ++ es.map (k.now, ·)) = []
    rw [History.learnings_append, h.unlearned, hlearned, List.append_nil]
  · exact List.sublist_nil.mp (h.turns ▸ he.turns_sublist k.history k.now)
  · exact (h.ordered.sublist he.waiting).imp fun ⟨hle, hb⟩ => ⟨hle, hb.append _⟩
  · obtain ⟨a, n, hmilestones, hgrid⟩ := h.onGrid w (hsub hw)
    refine ⟨a, n, ?_, hgrid⟩
    refine (History.milestones_append_of_nil hlearned ?_).trans hmilestones
    rw [hunaccepted]
    exact List.not_mem_nil
  · intro u hu hlast w hw hring hdue
    exact (h.ahead u (hsub hu) hlast w (hsub hw) (hringing hring) hdue).append _
  · change a ∈ k.set ++ es.filterMap Effect.wake? at ha
    change a.2 ∈ History.accepted (k.history ++ es.map (k.now, ·))
    rw [List.filterMap_eq_nil_iff.mpr (he.asleep hslot).2, List.append_nil] at ha
    rw [History.accepted_append]
    exact List.mem_append_left _ (h.known a ha)

theorem Queueing.proceed (h : Queueing c last k s) (he : Proceeds k.now s es s') :
    Queueing c last ({ k with ringing }.tell es) s' := by
  have hids := (waitingIds_sublist he.waiting).subset
  have hturns := he.turns_sublist k.history k.now
  have hlearned := learnings_eq_nil he.unlearned k.now
  have hnew : ∀ id, id ∉ History.accepted (es.map (k.now, ·)) := by
    rw [accepted_eq_nil he.unaccepted]
    exact fun _ => List.not_mem_nil
  have hfinding : ∀ id, History.finding? c id (k.history ++ es.map (k.now, ·)) =
      k.history.finding? c id := fun id => History.finding?_append_of_nil hlearned (hnew id)
  refine ⟨?_, fun hzero => ?_, fun w hw => ?_, fun w hw => h.looked w (he.waiting.subset hw),
    fun id hid => ?_, ?_, fun id hid id' hid' => ?_⟩
  · obtain ⟨t, ht⟩ := h.learned
    refine ⟨t, ?_⟩
    change History.learnings (k.history ++ es.map (k.now, ·)) = [t]
    rw [History.learnings_append, ht, hlearned, List.append_nil]
  · exact List.sublist_nil.mp (h.still hzero ▸ he.waiting)
  · exact (hfinding _).trans (h.found w (he.waiting.subset hw))
  · obtain ⟨f, hf, hle⟩ := h.past id (hturns.subset hid)
    exact ⟨f, (hfinding id).trans hf, hle⟩
  · exact (h.sorted.sublist hturns).imp fun hb => hb.append hlearned (hnew _) (hnew _)
  · exact (h.ahead id (hturns.subset hid) id' (hids hid')).append hlearned (hnew _) (hnew _)

theorem Sound.slot_eq_none (hs : s.Sound now) (hremote : s.remote = none) : s.slot = none := by
  by_contra hslot
  exact hs.ready (Or.inr hslot) hremote

theorem InTurn.proceed (h : InTurn c last k s) (hs : s.Sound k.now)
    (hp : Proceeds k.now s es s') (hringing : ringing.Sublist k.ringing)
    (hkept : ∀ id ∈ s'.waitingIds, id ∈ k.ringing → id ∈ ringing) :
    InTurn c last ({ k with ringing }.tell es) s' :=
  ⟨h.awaiting.ease hp.toEases (nodup_told h.awaiting.unrepeated hp.unaccepted) hringing hkept,
    fun hnone => (h.searching (hp.remote ▸ hnone)).proceed hp
      (hs.slot_eq_none (hp.remote ▸ hnone)) hringing.subset,
    fun hsome => (h.queueing (hp.remote ▸ hsome)).proceed hp⟩

end

/-! ### Operations -/

section

variable {c : PlaySetup} {now : Nat} {s s' : Session} {es : List Effect}

theorem Eases.of_aside (hwaiting : s'.waiting.Sublist s.waiting) (hes : ∀ e ∈ es, e.IsAside) :
    Eases now s es s' := by
  refine ⟨hwaiting, fun due id hmem => ?_⟩
  have hwake := (hes _ hmem).2.2
  cases hwake

theorem Joins.trans {ids ids' : List Uuid} {ws ws' : List Waiting} {s'' : Session}
    {es' : List Effect} (h : Joins ids ws s es s') (h' : Joins ids' ws' s' es' s'') :
    Joins (ids ++ ids') ws' s (es ++ es') s'' := by
  refine ⟨h'.waiting, h'.remote.trans h.remote, ?_, fun e he => ?_⟩
  · rw [List.filterMap_append, List.append_assoc, h'.turns, ← List.append_assoc, h.turns,
      List.append_assoc]
  · exact (List.mem_append.mp he).elim (h.aside e) (h'.aside e)

theorem Joins.learnings {ids : List Uuid} {ws : List Waiting} (h : Joins ids ws s es s')
    (t : Nat) : History.learnings (es.map (t, ·)) = [] :=
  learnings_eq_nil (fun e he => (h.aside e he).1) t

theorem Joins.unaccepted {ids : List Uuid} {ws : List Waiting} (h : Joins ids ws s es s') :
    ∀ e ∈ es, e.accepted? = none :=
  fun e he => (h.aside e he).2.1

variable (c now) in
theorem begin_turns (port : Port) (target : SocketAddr) (r : Request) :
    (begin c now port target r).2.filterMap Effect.streams? = [r.id] ∧
      ∀ e ∈ (begin c now port target r).2, e.IsAside := by
  unfold begin
  split
  · simp [Effect.streams?, Effect.IsAside, Effect.isLearned, Effect.accepted?, Effect.wake?]
  · simp [Effect.streams?, Effect.IsAside, Effect.isLearned, Effect.accepted?, Effect.wake?,
      finishEffect]
  · simp [Effect.streams?, Effect.IsAside, Effect.isLearned, Effect.accepted?, Effect.wake?,
      finishEffect]

variable (c now) in
theorem serve_turns (port : Port) (target : SocketAddr) (rs : List Request) :
    (serve c now port target rs).2.2.filterMap Effect.streams? ++
        (serve c now port target rs).2.1.map (·.id) = rs.map (·.id) ∧
      ∀ e ∈ (serve c now port target rs).2.2, e.IsAside := by
  induction rs with
  | nil => simp [serve_nil]
  | cons r rs ih =>
    obtain ⟨hturn, haside⟩ := begin_turns c now port target r
    rw [serve_cons]
    rcases hbegin : begin c now port target r with ⟨slot, es⟩
    rw [hbegin] at hturn haside
    cases slot with
    | some st => exact ⟨by simp [hturn], haside⟩
    | none =>
      refine ⟨?_, fun e he => ?_⟩
      · change (es ++ _).filterMap Effect.streams? ++ _ = r.id :: rs.map (·.id)
        rw [List.filterMap_append, show es.filterMap Effect.streams? = [r.id] from hturn,
          List.append_assoc, ih.1, List.singleton_append]
      · exact (List.mem_append.mp he).elim (haside e) (ih.2 e)

variable (c now s) in
theorem handOver_joins : Joins [] s.waiting s (s.handOver c now).2 (s.handOver c now).1 := by
  unfold handOver
  split
  · next r rs target hslot hline hremote =>
    obtain ⟨hturns, haside⟩ := serve_turns c now s.port target (r :: rs)
    refine ⟨rfl, hremote ▸ rfl, ?_, haside⟩
    rw [List.append_nil, hline]
    exact hturns
  · exact ⟨rfl, rfl, (List.append_nil _).symm, by simp⟩

variable (c now s) in
theorem release_aside (st : Streaming) (o : Outcome) (timeUp : Bool) :
    (s.release c now st o timeUp).1.waiting = s.waiting ∧
      ∀ e ∈ (s.release c now st o timeUp).2, e.IsAside := by
  have hjoins := handOver_joins c now { s with slot := none, lastActive := now }
  refine ⟨hjoins.waiting, fun e he => ?_⟩
  rcases List.mem_append.mp he with he | he
  · simp only [List.mem_cons, List.not_mem_nil, or_false] at he
    rcases he with rfl | rfl | rfl | rfl <;> exact ⟨rfl, rfl, rfl⟩
  · exact hjoins.aside e he

variable (c now) in
theorem release_proceeds {st : Streaming} (hslot : s.slot = some st) (o : Outcome)
    (timeUp : Bool) :
    Proceeds now s (s.release c now st o timeUp).2 (s.release c now st o timeUp).1 := by
  have hjoins := handOver_joins c now { s with slot := none, lastActive := now }
  obtain ⟨hwaiting, haside⟩ := release_aside c now s st o timeUp
  refine ⟨.of_aside (hwaiting ▸ List.Sublist.refl _) haside, hjoins.remote,
    fun hnone => absurd (hslot.symm.trans hnone) (by simp), fun e he => (haside e he).2.1,
    fun e he => (haside e he).1, ?_⟩
  have hturns := hjoins.turns
  rw [List.append_nil] at hturns
  exact hturns ▸ List.Sublist.refl _

theorem Proceeds.of_aside (hwaiting : s'.waiting.Sublist s.waiting)
    (hline : s'.line.Sublist s.line) (hremote : s'.remote = s.remote)
    (hslot : s.slot = none → s'.slot = none) (hes : ∀ e ∈ es, e.IsAside ∧ e.streams? = none) :
    Proceeds now s es s' := by
  refine ⟨.of_aside hwaiting fun e he => (hes e he).1, hremote,
    fun hnone => ⟨hslot hnone, fun e he => (hes e he).1.2.2⟩, fun e he => (hes e he).1.2.1,
    fun e he => (hes e he).1.1, ?_⟩
  rw [List.filterMap_eq_nil_iff.mpr fun e he => (hes e he).2]
  exact hline.map _

theorem Proceeds.refl (now : Nat) (s : Session) : Proceeds now s [] s :=
  .of_aside (List.Sublist.refl _) (List.Sublist.refl _) rfl (fun h => h) (by simp)

theorem Proceeds.trans {s'' : Session} {es' : List Effect} (h : Proceeds now s es s')
    (h' : Proceeds now s' es' s'') : Proceeds now s (es ++ es') s'' := by
  refine ⟨⟨h'.waiting.trans h.waiting, fun due id hmem => ?_⟩, h'.remote.trans h.remote,
    fun hslot => ?_, fun e he => ?_, fun e he => ?_, ?_⟩
  · rcases List.mem_append.mp hmem with hmem | hmem
    · obtain ⟨hlt, hnot⟩ := h.wakes due id hmem
      exact ⟨hlt, fun hid => hnot ((waitingIds_sublist h'.waiting).subset hid)⟩
    · exact h'.wakes due id hmem
  · obtain ⟨hslot', hes⟩ := h.asleep hslot
    obtain ⟨hslot'', hes'⟩ := h'.asleep hslot'
    exact ⟨hslot'', fun e he => (List.mem_append.mp he).elim (hes e) (hes' e)⟩
  · exact (List.mem_append.mp he).elim (h.unaccepted e) (h'.unaccepted e)
  · exact (List.mem_append.mp he).elim (h.unlearned e) (h'.unlearned e)
  · rw [List.filterMap_append, List.append_assoc]
    exact (h'.turns.append_left _).trans h.turns

theorem slot_not_waiting (hs : s.playbacks.Nodup) {st : Streaming} (hslot : s.slot = some st) :
    st.id ∉ s.waitingIds := by
  intro hmem
  have hdisjoint := (List.nodup_append.mp hs).2.2
  exact hdisjoint st.id (List.mem_append_left _ hmem) st.id (by simp [hslot]) rfl

/-- A program that is over while its error output is held open is a matter of its own. -/
theorem Proceeds.of_held {st st' : Streaming} {e : Effect} (hs : s.playbacks.Nodup)
    (hslot : s.slot = some st) (he : e.IsAside ∧ e.streams? = none) :
    Proceeds now s [e, .alarm (now + PlaySetup.lingerLimit) st.id] { s with slot := some st' } := by
  have hpair : ∀ {P : Effect → Prop}, P e → P (.alarm (now + PlaySetup.lingerLimit) st.id) →
      ∀ e' ∈ [e, .alarm (now + PlaySetup.lingerLimit) st.id], P e' := by
    intro P h h' e' he'
    rcases List.mem_cons.mp he' with rfl | he'
    · exact h
    · exact List.mem_singleton.mp he' ▸ h'
  refine ⟨⟨List.Sublist.refl _, fun due id hmem => ?_⟩, rfl,
    fun hnone => absurd (hslot.symm.trans hnone) (by simp), hpair he.1.2.1 rfl,
    hpair he.1.1 rfl, ?_⟩
  · rcases List.mem_cons.mp hmem with rfl | hmem
    · cases he.1.2.2
    · cases List.mem_singleton.mp hmem
      exact ⟨Nat.lt_add_of_pos_right (by decide), slot_not_waiting hs hslot⟩
  · rw [List.filterMap_cons_none he.2]
    exact List.Sublist.refl _

/-- Only who looks can join the line. -/
theorem Move.proceeds {cue : Cue} (h : Move c now cue s es s') (hs : s.playbacks.Nodup)
    (hlook : cue ≠ .look) (henter : ∀ id, cue ≠ .enter id) (hhear : ∀ a, cue ≠ .hear a) :
    Proceeds now s es s' := by
  have hsame := List.Sublist.refl s.waiting
  have hsame' := List.Sublist.refl s.line
  cases h with
  | hear sender => exact absurd rfl (hhear _)
  | enter _ r => exact absurd rfl (henter r.id)
  | mark => exact .of_aside hsame hsame' rfl (fun h => h) (by simp)
  | exit ending hslot h =>
    exact .of_aside hsame hsame' rfl (fun _ => rfl) (by
      simp [settling, finishEffect, Effect.IsAside, Effect.isLearned, Effect.accepted?,
        Effect.wake?, Effect.streams?])
  | exitHeld ending hslot h => exact .of_held hs hslot ⟨⟨rfl, rfl, rfl⟩, rfl⟩
  | settle hslot h =>
    exact .of_aside hsame hsame' rfl (fun _ => rfl) (by
      simp [settling, finishEffect, Effect.IsAside, Effect.isLearned, Effect.accepted?,
        Effect.wake?, Effect.streams?])
  | shut => exact .of_aside hsame hsame' rfl (fun h => h) (by simp)
  | dropWaiting _ hw =>
    exact .of_aside (hw ▸ List.sublist_cons_self _ _) hsame' rfl (fun h => h) (by
      simp [drop, Effect.IsAside, Effect.isLearned, Effect.accepted?, Effect.wake?,
        Effect.streams?])
  | dropLine _ hr =>
    exact .of_aside hsame (hr ▸ List.sublist_cons_self _ _) rfl (fun h => h) (by
      simp [drop, Effect.IsAside, Effect.isLearned, Effect.accepted?, Effect.wake?,
        Effect.streams?])
  | kill _ hslot h =>
    exact .of_aside hsame hsame' rfl (fun _ => rfl) (by
      simp [settling, finishEffect, Effect.IsAside, Effect.isLearned, Effect.accepted?,
        Effect.wake?, Effect.streams?])
  | killHeld _ hslot h => exact .of_held hs hslot ⟨⟨rfl, rfl, rfl⟩, rfl⟩
  | _ => exact absurd rfl hlook

theorem close_proceeds (now : Nat) (hs : s.playbacks.Nodup) :
    Proceeds now s (s.close now).2 (s.close now).1 := by
  have hmoves := close_moves {} now s
  generalize (s.close now).1 = s', (s.close now).2 = es at hmoves
  induction hmoves with
  | refl => exact .refl now _
  | head hcue hmove _ ih =>
    obtain rfl := List.mem_singleton.mp hcue
    exact (hmove.proceeds hs (by simp) (by simp) (by simp)).trans (ih (hmove.nodup hs (by simp)))

variable (c now) in
theorem endProgram_proceeds (hs : s.playbacks.Nodup) (ending : Ending) (held : Bool) :
    Proceeds now s (s.endProgram c now ending held).2 (s.endProgram c now ending held).1 := by
  unfold endProgram
  split
  · exact .refl now s
  · next st hslot =>
    split
    · exact .refl now s
    · cases held with
      | true => exact .of_held hs hslot ⟨⟨rfl, rfl, rfl⟩, rfl⟩
      | false =>
        have hexited : Proceeds now s [.exited st.id ending] s :=
          .of_aside (List.Sublist.refl _) (List.Sublist.refl _) rfl (fun h => h) (by
            simp [Effect.IsAside, Effect.isLearned, Effect.accepted?, Effect.wake?,
              Effect.streams?])
        exact hexited.trans (release_proceeds c now hslot (.ended ending) false)

variable (c now s) in
theorem closeOutput_proceeds :
    Proceeds now s (s.closeOutput c now).2 (s.closeOutput c now).1 := by
  unfold closeOutput
  split
  · exact .refl now s
  · next st hslot =>
    split
    · exact .refl now s
    · exact release_proceeds c now hslot _ false

end

end Session

end RtpBroker
