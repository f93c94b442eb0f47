import RtpBroker.Proofs.WaitTimes

/-!
# What a wait comes to

From its acceptance on a playback looks at all times at which it should and at no other
one. Its wait ends when it finds the address of the peer, when it has looked in vain for
the last time, or when its session is closed, whichever is first.
-/

namespace RtpBroker

/-- How the wait of a playback ends: it comes to know the address of the peer, its time is up, or
its session is closed. -/
inductive Fate
  | known (target : SocketAddr)
  | timedOut
  | cancelled
  deriving DecidableEq

/-- The playback was accepted at `a` and has looked in vain until the time `t`, at every time at
which it should. -/
def PlaySetup.VainUntil (c : PlaySetup) (a t : Nat) (looks : List Look) : Prop :=
  ∃ n ≤ c.rounds, looks = c.vain a n ∧ (∀ l ∈ looks, l.time ≤ t) ∧
    ∀ u ∈ (c.lookTimes a).drop n, t ≤ u

namespace Fate

/-- The looks of a playback that was accepted at `a` and has met its fate at `t`. -/
def Looks (c : PlaySetup) (a t : Nat) (looks : List Look) : Fate → Prop
  | .known target => ∃ n, (c.lookTimes a)[n]? = some t ∧ looks = c.vain a n ++ [⟨t, some target⟩]
  | .timedOut => t = a + c.ceiling ∧ looks = (c.lookTimes a).map (⟨·, none⟩)
  | .cancelled => c.VainUntil a t looks

/-- What the exchange knows of it. -/
def Shows (c : PlaySetup) (i : Nat) (id : Uuid) (t : Nat) (x : Exchange) : Fate → Prop
  | .known target => ∃ s, x.sessions[i]? = some s ∧ s.remote = some target
  | .timedOut => ⟨t, i, .finish id .timedOut none
      (some (.remoteUnknown (UInt64.ofNat c.ceiling)))⟩ ∈ x.journal
  | .cancelled => (∃ s, x.sessions[i]? = some s ∧ s.isClosed = true) ∧
      ∀ e ∈ Session.drop id, ⟨t, i, e⟩ ∈ x.journal

end Fate

/-- Who does not wait never will. -/
theorem Exchange.Course.not_waiting {c : PlaySetup} {cues : List Session.Cue} {x x' : Exchange}
    {i : Nat} {id : Uuid} {s : Session} (h : Course c cues x x') (hid : .enter id ∉ cues)
    (hi : x.sessions[i]? = some s) (hnot : id ∉ s.waitingIds) :
    ∃ s', x'.sessions[i]? = some s' ∧ id ∉ s'.waitingIds := by
  have hmove : ∀ cue ∈ cues, ∀ now s es s', Session.Move c now cue s es s' →
      id ∉ s.waitingIds → id ∉ s'.waitingIds := by
    intro cue hcue now s es s' hmove hnot hmem
    obtain ⟨v, hv, rfl⟩ := List.mem_map.mp hmem
    rcases hmove.waiting v hv with hv | ⟨-, hentered⟩
    · exact hnot (Session.mem_waitingIds hv)
    · exact hid (hmove.entered hentered ▸ hcue)
  obtain ⟨s', hi', hkept⟩ := h.relates (R := fun s s' => id ∉ s.waitingIds → id ∉ s'.waitingIds)
    (fun _ h => h) (fun h h' hnot => h' (h hnot)) hmove (fun _ _ h => h) hi
  exact ⟨s', hi', hkept hnot⟩

namespace Instant

/-- The playback waits, and has looked in vain at every time at which it should. -/
structure Pending (c : PlaySetup) (i : Nat) (id : Uuid) (a : Nat) (looks : List Look) (x : Exchange) :
    Prop where
  waits : x.Awaits i id
  isOpen : x.IsOpen i
  inTime : x.now ≤ a + c.ceiling
  vain : c.VainUntil a x.now looks

/-- The playback waits no more since it met its fate at `t`. -/
structure Ended (c : PlaySetup) (i : Nat) (id : Uuid) (a : Nat) (looks : List Look) (t : Nat)
    (fate : Fate) (x : Exchange) : Prop where
  absent : ∃ s, x.sessions[i]? = some s ∧ id ∉ s.waitingIds
  past : t ≤ x.now
  looks : fate.Looks c a t looks
  shows : fate.Shows c i id t x

variable {c : PlaySetup} {b : Instant} {i a n t : Nat} {id : Uuid} {w : Waiting} {s : Session}
  {looks : List Look} {fate : Fate} {m : Moment}

/-! ## Afterwards -/

/-- At a moment sessions go on and time does not go back. -/
theorem step_course (b : Instant) (hm : m.playback? ≠ some id) :
    ∃ cues, .enter id ∉ cues ∧ Exchange.Course c cues b.exchange (b.step c m).exchange ∧
      b.exchange.now ≤ (b.step c m).exchange.now := by
  obtain ⟨x, rem⟩ := b
  cases m with
  | event e he =>
    exact ⟨e.cues, Exchange.Event.enter_not_mem hm, Exchange.apply_course c x e,
      Nat.le_of_eq (Exchange.apply_steps c x e he).now.symm⟩
  | ring k =>
    refine ⟨[.settle true, .look], by simp, ?_⟩
    change Exchange.Course c _ x (ring c k ⟨x, rem⟩).exchange ∧
      x.now ≤ (ring c k ⟨x, rem⟩).exchange.now
    cases hk : rem[k]? with
    | none =>
      rw [ring_none hk]
      exact ⟨.refl x, Nat.le_refl _⟩
    | some al =>
      rw [ring_some hk]
      have hsteps := Exchange.ring_steps c x al
      exact ⟨hsteps.course, Nat.le_of_eq hsteps.now.symm⟩
  | pass ms =>
    refine ⟨[], List.not_mem_nil, ?_⟩
    have hclock : ∀ now agenda, x.now ≤ now →
        Exchange.Course c [] x { x with now, agenda } ∧ x.now ≤ now := fun now agenda hle =>
      ⟨(Exchange.Course.refl x).clock now agenda, hle⟩
    change Exchange.Course c [] x (pass ms ⟨x, rem⟩).exchange ∧
      x.now ≤ (pass ms ⟨x, rem⟩).exchange.now
    have hpassed := pass_passed ms x rem
    generalize pass ms ⟨x, rem⟩ = b' at hpassed ⊢
    cases hpassed with
    | held => exact ⟨.refl x, Nat.le_refl _⟩
    | due hnext => exact hclock _ _ (Nat.le_of_lt (Agenda.lt_of_nextAfter? hnext))
    | early => exact hclock _ _ (Nat.le_add_right _ _)

theorem look?_of_over (hm : m.playback? ≠ some id)
    (hover : ∃ s, b.exchange.sessions[i]? = some s ∧ id ∉ s.waitingIds) :
    b.look? i id m = none := by
  obtain ⟨s, hi, hnot⟩ := hover
  cases m with
  | event e he => exact look?_event he hm
  | ring k =>
    cases hk : b.ringing[k]? with
    | none => simp only [look?, hk]
    | some al => simp only [look?, hk, hi, hnot, and_false, if_false]
  | pass ms => rfl

theorem Ended.step (h : Ended c i id a looks t fate b.exchange) (hm : m.playback? ≠ some id) :
    Ended c i id a looks t fate (b.step c m).exchange := by
  obtain ⟨cues, hcues, hcourse, hnow⟩ := step_course (c := c) b hm
  obtain ⟨s, hi, hnot⟩ := h.absent
  obtain ⟨s', hi', hlasts⟩ := hcourse.lasts hi
  refine ⟨hcourse.not_waiting hcues hi hnot, h.past.trans hnow, h.looks, ?_⟩
  cases fate with
  | known target =>
    obtain ⟨s₀, hi₀, hremote⟩ := h.shows
    obtain rfl := Option.some.inj (hi.symm.trans hi₀)
    exact ⟨s', hi', hlasts.remote target hremote⟩
  | timedOut => exact hcourse.journal_mono h.shows
  | cancelled =>
    obtain ⟨⟨s₀, hi₀, hclosed⟩, hentries⟩ := h.shows
    obtain rfl := Option.some.inj (hi.symm.trans hi₀)
    exact ⟨⟨s', hi', hlasts.closed hclosed⟩, fun e he => hcourse.journal_mono (hentries e he)⟩

/-- Nothing comes after the end of a wait. -/
theorem Ended.run (h : Ended c i id a looks t fate b.exchange) {after : List Moment}
    (hafter : ∀ m ∈ after, m.playback? ≠ some id) :
    Instant.looks c i id after b = [] ∧
      Ended c i id a looks t fate (Instant.run c after b).exchange := by
  induction after generalizing b with
  | nil => exact ⟨rfl, h⟩
  | cons m after ih =>
    have hm := hafter m (List.mem_cons_self ..)
    obtain ⟨hlooks, hended⟩ := ih (h.step hm) fun m' hm' =>
      hafter m' (List.mem_cons_of_mem _ hm')
    refine ⟨?_, hended⟩
    rw [Instant.looks, look?_of_over hm h.absent, hlooks]
    rfl

/-! ## From look to look -/

/-- A playback waits still, or its wait is over. -/
inductive Stage (c : PlaySetup) (i : Nat) (w : Waiting) (a : Nat) (looks : List Look)
    (b : Instant) : Prop
  | waits {n : Nat} {s : Session} (h : Waits c i w a n s b) (hlooks : looks = c.vain a (n + 1))
  | ended {t : Nat} {fate : Fate} (h : Ended c i w.request.id a looks t fate b.exchange)

theorem Waits.vainUntil (h : Waits c i w a n s b) (hinterval : 0 < c.interval) :
    c.VainUntil a b.exchange.now (c.vain a (n + 1)) := by
  refine ⟨n + 1, h.pending, rfl, fun l hl => ?_, fun u hu => ?_⟩
  · obtain ⟨k, hk, rfl⟩ := PlaySetup.mem_vain hinterval hl
    exact (PlaySetup.lookTime_mono (Nat.le_of_lt_succ hk)).trans h.looked
  · exact h.woken.le.trans (PlaySetup.le_of_mem_drop hinterval hu)

theorem Looked.known (h : Looked c i w a n s b) (hinterval : 0 < c.interval) (hn : n ≤ c.rounds)
    {target : SocketAddr} (hremote : s.remote = some target) :
    Ended c i w.request.id a (c.vain a n ++ [⟨c.lookTime a n, some target⟩]) (c.lookTime a n)
      (.known target) b.exchange := by
  cases h with
  | @found s' target' hnow hremote' hi hnot _ hknown =>
    obtain rfl := Option.some.inj (hremote.symm.trans hremote')
    exact ⟨⟨s', hi, hnot⟩, Nat.le_of_eq hnow.symm,
      ⟨n, PlaySetup.getElem?_lookTimes hinterval hn, rfl⟩, s', hi, hknown⟩
  | lapsed _ hnone => cases hnone.symm.trans hremote
  | again hnone => cases hnone.symm.trans hremote

/-- A look ends the wait, or it is in vain and another one will come. -/
theorem Looked.ended_or_waits (h : Looked c i w a n s b) (hinterval : 0 < c.interval)
    (hn : n ≤ c.rounds) :
    (∃ fate, Ended c i w.request.id a (c.vain a n ++ [⟨c.lookTime a n, s.remote⟩])
      (c.lookTime a n) fate b.exchange) ∨
    s.remote = none ∧ Waits c i w a n s b := by
  have hknown := fun (target : SocketAddr) (hremote : s.remote = some target) =>
    h.known hinterval hn hremote
  cases h with
  | @found s' target hnow hremote =>
    rw [hremote]
    exact Or.inl ⟨.known target, hknown target hremote⟩
  | @lapsed s' hnow hremote hlast hi hnot _ hentry =>
    have hend : c.lookTime a n = a + c.ceiling := by
      rw [hlast, PlaySetup.lookTime_rounds hinterval]
    have hall : c.vain a (n + 1) = (c.lookTimes a).map (⟨·, none⟩) := by
      rw [PlaySetup.vain, List.take_of_length_le (by simp [hlast])]
    rw [hremote, ← PlaySetup.vain_succ hinterval hn]
    exact Or.inl ⟨.timedOut, ⟨s', hi, hnot⟩, Nat.le_of_eq hnow.symm, ⟨hend, hall⟩, hnow ▸ hentry⟩
  | again hremote h => exact Or.inr ⟨hremote, h⟩

theorem Looked.stage (h : Looked c i w a n s b) (hinterval : 0 < c.interval) (hn : n ≤ c.rounds) :
    Stage c i w a (c.vain a n ++ [⟨c.lookTime a n, s.remote⟩]) b := by
  rcases h.ended_or_waits hinterval hn with ⟨fate, hended⟩ | ⟨hremote, hwaits⟩
  · exact .ended hended
  · rw [hremote, ← PlaySetup.vain_succ hinterval hn]
    exact .waits hwaits rfl

theorem Waits.dropped {b' : Instant} (h : Waits c i w a n s b) (hinterval : 0 < c.interval)
    {s' : Session} (hnow : b'.exchange.now = b.exchange.now)
    (hi : b'.exchange.sessions[i]? = some s') (hnot : w.request.id ∉ s'.waitingIds)
    (hclosed : s'.isClosed = true)
    (hentries : ∀ e ∈ Session.drop w.request.id,
      ⟨b.exchange.now, i, e⟩ ∈ b'.exchange.journal) :
    Ended c i w.request.id a (c.vain a (n + 1)) b.exchange.now .cancelled b'.exchange :=
  ⟨⟨s', hi, hnot⟩, Nat.le_of_eq hnow.symm, h.vainUntil hinterval, ⟨s', hi, hclosed⟩, hentries⟩

theorem Stage.step (h : Stage c i w a looks b) (hinterval : 0 < c.interval)
    (hm : m.playback? ≠ some w.request.id) :
    Stage c i w a (looks ++ (b.look? i w.request.id m).toList) (b.step c m) := by
  cases h with
  | @waits n s h hlooks =>
    subst hlooks
    have hnext := h.next hinterval hm
    generalize b.look? i w.request.id m = l at hnext
    cases hnext with
    | waits h' => exact .waits h' (List.append_nil _)
    | cancelled hnow hi hnot hclosed hentries =>
      rw [Option.toList_none, List.append_nil]
      exact .ended (h.dropped hinterval hnow hi hnot hclosed hentries)
    | looks hnow hlooked =>
      rw [hnow]
      exact hlooked.stage hinterval h.pending
  | ended h =>
    rw [look?_of_over hm h.absent, Option.toList_none, List.append_nil]
    exact .ended (h.step hm)

theorem Stage.run (h : Stage c i w a looks b) (hinterval : 0 < c.interval) {after : List Moment}
    (hafter : ∀ m ∈ after, m.playback? ≠ some w.request.id) :
    Stage c i w a (looks ++ Instant.looks c i w.request.id after b) (Instant.run c after b) := by
  induction after generalizing looks b with
  | nil =>
    rw [Instant.looks, List.append_nil]
    exact h
  | cons m after ih =>
    have hrest := ih (h.step hinterval (hafter m (List.mem_cons_self ..))) fun m' hm' =>
      hafter m' (List.mem_cons_of_mem _ hm')
    rw [Instant.looks, ← List.append_assoc]
    exact hrest

/-- Once the address is known, the playback finds it at its next look, unless its session is closed
before that. -/
theorem Waits.run_known (h : Waits c i w a n s b) (hinterval : 0 < c.interval)
    {target : SocketAddr} (hremote : s.remote = some target) {after : List Moment}
    (hafter : ∀ m ∈ after, m.playback? ≠ some w.request.id) :
    (∃ s', Waits c i w a n s' (Instant.run c after b) ∧
      Instant.looks c i w.request.id after b = []) ∨
    Ended c i w.request.id a (c.vain a (n + 1) ++ Instant.looks c i w.request.id after b)
      (c.lookTime a (n + 1)) (.known target) (Instant.run c after b).exchange ∨
    ∃ t ≤ c.lookTime a (n + 1),
      Ended c i w.request.id a (c.vain a (n + 1) ++ Instant.looks c i w.request.id after b) t
        .cancelled (Instant.run c after b).exchange := by
  induction after generalizing s b with
  | nil => exact Or.inl ⟨s, h, rfl⟩
  | cons m after ih =>
    have hm := hafter m (List.mem_cons_self ..)
    have hafter' : ∀ m ∈ after, m.playback? ≠ some w.request.id := fun m' hm' =>
      hafter m' (List.mem_cons_of_mem _ hm')
    have hnext := h.next hinterval hm
    rw [Instant.looks]
    generalize b.look? i w.request.id m = l at hnext
    cases hnext with
    | waits h' hkept => exact ih h' (hkept target hremote) hafter'
    | cancelled hnow hi hnot hclosed hentries =>
      obtain ⟨hnone, hended⟩ :=
        (h.dropped hinterval hnow hi hnot hclosed hentries).run hafter'
      refine Or.inr (Or.inr ⟨b.exchange.now, h.woken.le, ?_⟩)
      rw [hnone, Option.toList_none, List.append_nil, List.append_nil]
      exact hended
    | looks hnow hlooked =>
      obtain ⟨hnone, hended⟩ := (hlooked.known hinterval h.pending hremote).run hafter'
      refine Or.inr (Or.inl ?_)
      rw [hnone, List.append_nil, Option.toList_some, hnow, hremote]
      exact hended

end Instant

end RtpBroker
