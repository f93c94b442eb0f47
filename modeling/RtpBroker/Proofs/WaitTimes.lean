import RtpBroker.Proofs.LookTimes
import RtpBroker.Proofs.SingleStream

/-!
# How long a playback waits

As long as a playback waits it is woken once for each of its looks, whatever else
happens. So it has looked at all times at which it should and at no other one, until it
found the address of the peer, its time was up or its session was closed; which of these
it is, and when, depends only on when the address became known and when the session was
closed.
-/

namespace RtpBroker

namespace Watch

/-- The playback is woken for the next time at `due`, and not again. -/
inductive WokenAt (id : Uuid) (due : Nat) (k : Watch) : Prop
  | now (hnow : k.now = due) (hringing : k.ringing.count id = 1) (hset : ∀ a ∈ k.set, a.2 ≠ id)
  | later (hnow : k.now < due) (hringing : id ∉ k.ringing)
      (hset : k.set.filter (·.2 == id) = [(due, id)])

structure Unwoken (id : Uuid) (k : Watch) : Prop where
  ringing : id ∉ k.ringing
  set : ∀ a ∈ k.set, a.2 ≠ id

variable {k : Watch} {id : Uuid} {due t : Nat} {es : List Effect}

/-- In which order the alarms ring makes no difference to who is woken. -/
theorem WokenAt.of_perm {ringing : List Uuid} (h : k.WokenAt id due)
    (hperm : k.ringing.Perm ringing) : ({ k with ringing } : Watch).WokenAt id due := by
  cases h with
  | now hnow hringing hset => exact .now hnow (hperm.count_eq id ▸ hringing) hset
  | later hnow hringing hset => exact .later hnow (fun hmem => hringing (hperm.mem_iff.mpr hmem)) hset

theorem WokenAt.le (h : k.WokenAt id due) : k.now ≤ due := by
  cases h with
  | now hnow => exact Nat.le_of_eq hnow
  | later hnow => exact Nat.le_of_lt hnow

theorem wake_ne_of_unalarmed (hes : ∀ due, .alarm due id ∉ es) :
    ∀ a ∈ es.filterMap Effect.wake?, a.2 ≠ id := by
  intro a ha heq
  obtain ⟨e, he, hwake⟩ := List.mem_filterMap.mp ha
  cases e with
  | alarm due id' =>
    cases hwake
    exact hes due (heq ▸ he)
  | _ => cases hwake

theorem Unwoken.tell (h : k.Unwoken id) (hes : ∀ due, .alarm due id ∉ es) :
    (k.tell es).Unwoken id :=
  ⟨h.ringing, fun a ha => (List.mem_append.mp ha).elim (h.set a) (wake_ne_of_unalarmed hes a)⟩

theorem WokenAt.tell (h : k.WokenAt id due) (hes : ∀ due, .alarm due id ∉ es) :
    (k.tell es).WokenAt id due := by
  have hnone := wake_ne_of_unalarmed hes
  cases h with
  | now hnow hringing hset =>
    exact .now hnow hringing fun a ha => (List.mem_append.mp ha).elim (hset a) (hnone a)
  | later hnow hringing hset =>
    refine .later hnow hringing ?_
    change (k.set ++ es.filterMap Effect.wake?).filter _ = _
    rw [List.filter_append, hset, List.filter_eq_nil_iff.mpr fun a ha => by simpa using hnone a ha]
    rfl

/-- Who sets an alarm is woken then. -/
theorem Unwoken.alarm (h : k.Unwoken id) (hdue : k.now < due) :
    (k.tell [.alarm due id]).WokenAt id due := by
  refine .later hdue h.ringing ?_
  change (k.set ++ [(due, id)]).filter _ = _
  rw [List.filter_append, List.filter_eq_nil_iff.mpr fun a ha => by simpa using h.set a ha]
  simp

/-- The clock goes on, but no further than to the next time. -/
theorem WokenAt.goOn (h : k.WokenAt id due) (hringing : k.ringing = []) (hle : t ≤ due) :
    (k.goOn t).WokenAt id due := by
  cases h with
  | now _ hcount => simp [hringing] at hcount
  | later _ _ hset =>
    have hown : ∀ p : Nat × Uuid → Bool,
        (k.set.filter p).filter (·.2 == id) = [(due, id)].filter p := fun p => by
      rw [List.filter_comm, hset]
    have hcount : ((k.set.filter (·.1 == t)).map Prod.snd).count id =
        ([(due, id)].filter (·.1 == t)).length := by
      rw [← hown, List.count, List.countP_map, List.countP_eq_length_filter]
      rfl
    rcases Nat.eq_or_lt_of_le hle with rfl | hlt
    · refine .now rfl (hcount.trans (by simp)) fun a ha heq => ?_
      have hmem : a ∈ (k.set.filter (t < ·.1)).filter (·.2 == id) :=
        List.mem_filter.mpr ⟨ha, by simpa using heq⟩
      rw [hown] at hmem
      simp at hmem
    · refine .later hlt (List.count_eq_zero.mp (hcount.trans ?_)) ((hown _).trans ?_)
      · simp [Nat.ne_of_gt hlt]
      · simpa using hlt

theorem WokenAt.wait (h : k.WokenAt id due) (hringing : k.ringing = []) (hlt : t < due) :
    ({ k with now := t } : Watch).WokenAt id due := by
  cases h with
  | now _ hcount => simp [hringing] at hcount
  | later _ hnot hset => exact .later hlt hnot hset

end Watch

namespace Exchange

variable {x : Exchange} {i : Nat} {id : Uuid} {a : Alarm} {rem : List Alarm} {due : Nat}

theorem ringing_cons (i : Nat) (a : Alarm) (rem : List Alarm) (x : Exchange) :
    (x.watch i (a :: rem)).ringing =
      ((a.wake? i).map Prod.snd).toList ++ (x.watch i rem).ringing := by
  cases h : a.wake? i <;> simp [watch, h]

/-- The alarm that goes off next may stand anywhere among those that ring. -/
theorem woken_of_getElem? {k : Nat} (h : (x.watch i rem).WokenAt id due) (hk : rem[k]? = some a) :
    (x.watch i (a :: rem.eraseIdx k)).WokenAt id due := by
  obtain ⟨hlt, rfl⟩ := List.getElem?_eq_some_iff.mp hk
  exact h.of_perm (((List.getElem_cons_eraseIdx_perm hlt).symm.filterMap _).map _)

/-- Somebody else is woken first. -/
theorem woken_of_other (h : (x.watch i (a :: rem)).WokenAt id due)
    (ha : a.sleeper ≠ .playback i id) : (x.watch i rem).WokenAt id due := by
  have hother : id ∉ ((a.wake? i).map Prod.snd).toList := by
    unfold Alarm.wake?
    split
    · next j id' hsleeper =>
      split
      · next hji => simpa using fun heq => ha (by rw [hsleeper, hji, heq])
      · simp
    · simp
  cases h with
  | now hnow hcount hset =>
    rw [ringing_cons, List.count_append, List.count_eq_zero.mpr hother, Nat.zero_add] at hcount
    exact .now hnow hcount hset
  | later hnow hnot hset =>
    rw [ringing_cons] at hnot
    exact .later hnow (fun hmem => hnot (List.mem_append_right _ hmem)) hset

/-- The playback itself is woken: it is its time, and no other alarm is set for it. -/
theorem woken_of_own (h : (x.watch i (a :: rem)).WokenAt id due)
    (ha : a.sleeper = .playback i id) : x.now = due ∧ (x.watch i rem).Unwoken id := by
  have hown : ((a.wake? i).map Prod.snd).toList = [id] := by
    simp [Alarm.wake?, ha]
  cases h with
  | now hnow hcount hset =>
    rw [ringing_cons, hown, List.singleton_append, List.count_cons_self] at hcount
    exact ⟨hnow, List.count_eq_zero.mp (by omega), hset⟩
  | later _ hnot =>
    rw [ringing_cons, hown] at hnot
    exact absurd (List.mem_cons_self ..) hnot

theorem nextAfter?_le_of_woken (h : (x.watch i []).WokenAt id due) :
    ∃ t, x.agenda.nextAfter? x.now = some t ∧ t ≤ due := by
  cases h with
  | now _ hcount => simp [watch] at hcount
  | later hnow _ hset =>
    have hmem : (due, id) ∈ (x.watch i []).set :=
      (List.mem_filter.mp (hset ▸ List.mem_singleton_self (due, id))).1
    obtain ⟨a, ha, hwake⟩ := List.mem_filterMap.mp hmem
    have hdue : due = a.due := Alarm.due_of_wake? hwake
    obtain ⟨t, ht, hle⟩ := Agenda.nextAfter?_le ha (hdue ▸ hnow)
    exact ⟨t, ht, hdue ▸ hle⟩

end Exchange

/-! ## One look -/

namespace Exchange

/-- The playback waits in the session with number `i`. -/
def Awaits (i : Nat) (id : Uuid) (x : Exchange) : Prop :=
  ∃ s, x.sessions[i]? = some s ∧ id ∈ s.waitingIds

def IsOpen (i : Nat) (x : Exchange) : Prop := ∃ s, x.sessions[i]? = some s ∧ s.isClosed = false

end Exchange

namespace Instant

def watch (i : Nat) (b : Instant) : Watch := b.exchange.watch i b.ringing

/-- The playback waits and has looked in vain `n + 1` times; it will be woken for the next look. -/
structure Waits (c : PlaySetup) (i : Nat) (w : Waiting) (a n : Nat) (s : Session) (b : Instant) :
    Prop where
  session : b.exchange.sessions[i]? = some s
  bides : s.Bides w
  deadline : w.deadline = a + c.ceiling
  pending : n < c.rounds
  looked : c.lookTime a n ≤ b.exchange.now
  woken : (b.watch i).WokenAt w.request.id (c.lookTime a (n + 1))

/-- What has become of a playback that had its look number `n` in the session `s`. -/
inductive Looked (c : PlaySetup) (i : Nat) (w : Waiting) (a n : Nat) (s : Session) (b : Instant) :
    Prop
  | found {s' : Session} {target : SocketAddr} (hnow : b.exchange.now = c.lookTime a n)
      (hremote : s.remote = some target) (hsession : b.exchange.sessions[i]? = some s')
      (hnot : w.request.id ∉ s'.waitingIds) (hopen : s'.isClosed = false) (hknown : s'.remote = some target)
  | lapsed {s' : Session} (hnow : b.exchange.now = c.lookTime a n)
      (hremote : s.remote = none) (hlast : n = c.rounds)
      (hsession : b.exchange.sessions[i]? = some s') (hnot : w.request.id ∉ s'.waitingIds)
      (hopen : s'.isClosed = false)
      (hentry : ⟨b.exchange.now, i, .finish w.request.id .timedOut none
        (some (.remoteUnknown (UInt64.ofNat c.ceiling)))⟩ ∈ b.exchange.journal)
  | again (hremote : s.remote = none) (h : Waits c i w a n s b)

variable {c : PlaySetup} {x : Exchange} {b : Instant} {i a n : Nat} {s : Session} {w : Waiting}
  {rem : List Alarm}

theorem looked_of_look (hinterval : 0 < c.interval) (hi : x.sessions[i]? = some s)
    (hs : s.Bides w) (hdeadline : w.deadline = a + c.ceiling) (hn : n ≤ c.rounds)
    (hnow : x.now = c.lookTime a n) (hunwoken : (x.watch i rem).Unwoken w.request.id) :
    Looked c i w a n s ⟨x.stepSession i (·.look c x.now w), rem⟩ := by
  have hi' : (x.stepSession i (·.look c x.now w)).sessions[i]? = some (s.look c x.now w).1 :=
    Exchange.session_stepSession hi
  have hnow' : (x.stepSession i (·.look c x.now w)).now = c.lookTime a n :=
    Exchange.now_stepSession.trans hnow
  cases hremote : s.remote with
  | some target =>
    obtain ⟨hnot, hknown, hopen⟩ := hs.found c x.now hremote
    exact .found hnow' hremote hi' hnot hopen hknown
  | none =>
    rcases Nat.lt_or_eq_of_le hn with hlt | rfl
    · have hdue : x.now < w.deadline := by
        have hlook := PlaySetup.lookTime_lt_succ (a := a) hinterval hlt
        have hend := PlaySetup.lookTime_le c a (n + 1)
        omega
      have hlook := Session.look_again (c := c) hremote hdue
      have hnext : Session.nextLook c x.now w.deadline = c.lookTime a (n + 1) := by
        rw [hnow, hdeadline, PlaySetup.nextLook_lookTime hinterval hlt]
      refine .again hremote ⟨hi'.trans (congrArg (some ·.1) hlook), hs, hdeadline, hlt, ?_, ?_⟩
      · exact Nat.le_of_eq hnow'.symm
      · change ((x.stepSession i (·.look c x.now w)).watch i rem).WokenAt _ _
        rw [Exchange.watch_stepSession hi, hlook, hnext]
        refine hunwoken.alarm ?_
        change x.now < _
        rw [hnow]
        exact PlaySetup.lookTime_lt_succ hinterval hlt
    · have hdue : w.deadline ≤ x.now := by
        rw [hnow, hdeadline, PlaySetup.lookTime_rounds hinterval]
      have hlook := Session.look_lapsed (c := c) hremote hdue
      refine .lapsed hnow' hremote rfl hi' ?_ ?_ ?_
      · exact Session.not_waiting_of_without (s := s) (congrArg (·.1.waiting) hlook)
      · rw [hlook]
        exact hs.isOpen
      · change ⟨(x.stepSession i (·.look c x.now w)).now, _, _⟩ ∈
          (x.stepSession i (·.look c x.now w)).journal
        rw [Exchange.now_stepSession, Exchange.stepSession_some hi]
        refine Exchange.mem_journal_performs_of_mem ?_
        rw [hlook]
        exact List.mem_singleton_self _

/-! ## One moment -/

/-- What becomes of a playback that waits in the session `s` after its look number `n`, and what
it finds if it looks. -/
inductive Next (c : PlaySetup) (i : Nat) (w : Waiting) (a n : Nat) (s : Session) (t : Nat)
    (b : Instant) : Option Look → Prop
  | waits {s' : Session} (h : Waits c i w a n s' b)
      (hremote : ∀ target, s.remote = some target → s'.remote = some target) : Next c i w a n s t b none
  | cancelled {s' : Session} (hnow : b.exchange.now = t)
      (hsession : b.exchange.sessions[i]? = some s') (hnot : w.request.id ∉ s'.waitingIds)
      (hclosed : s'.isClosed = true)
      (hentries : ∀ e ∈ Session.drop w.request.id, ⟨t, i, e⟩ ∈ b.exchange.journal) :
      Next c i w a n s t b none
  | looks (hnow : t = c.lookTime a (n + 1)) (h : Looked c i w a (n + 1) s b) :
      Next c i w a n s t b (some ⟨t, s.remote⟩)

theorem Waits.event (h : Waits c i w a n s b) (hinterval : 0 < c.interval) (e : Exchange.Event)
    (he : ∀ ms, e ≠ .advance ms) (hid : e.playback? ≠ some w.request.id) :
    Next c i w a n s b.exchange.now (b.step c (.event e he)) none := by
  have hnow : (b.exchange.apply c e).now = b.exchange.now :=
    (Exchange.apply_steps c b.exchange e he).now
  rcases Exchange.apply_leavesAlone (x := b.exchange) (i := i) hinterval e he hid with halone | hshuts
  · obtain ⟨s', es, hi', hwatch, hs'⟩ := halone s b.ringing h.session h.bides
    refine .waits ⟨hi', hs'.bides, h.deadline, h.pending, h.looked.trans (Nat.le_of_eq hnow.symm),
      ?_⟩ hs'.remote
    change ((b.exchange.apply c e).watch i b.ringing).WokenAt _ _
    rw [hwatch]
    exact h.woken.tell hs'.unalarmed
  · obtain ⟨standing, hi', hwatch⟩ := hshuts s b.ringing h.session
    have hqueued : w.request.id ∈ Session.queued { s with standing } :=
      Session.mem_waiting_queued (s := { s with standing }) h.bides.waits
    refine .cancelled hnow hi' (Session.not_waiting_of_close _ _ _) (Session.isClosed_close _ _)
      fun e' he' => ?_
    refine Exchange.mem_journal_of_history (x := b.exchange.apply c e) ?_
    change _ ∈ ((b.exchange.apply c e).watch i b.ringing).history
    rw [hwatch]
    refine List.mem_append_right _ (List.mem_map.mpr ⟨e', ?_, rfl⟩)
    exact Session.drop_of_close hqueued he'

theorem Waits.ring (h : Waits c i w a n s b) (hinterval : 0 < c.interval) (k : Nat) :
    Next c i w a n s b.exchange.now (b.step c (.ring k)) (b.look? i w.request.id (.ring k)) := by
  obtain ⟨x, rem⟩ := b
  have hwaits : w.request.id ∈ s.waitingIds := Session.mem_waitingIds h.bides.waits
  have hi : x.sessions[i]? = some s := h.session
  change Next c i w a n s x.now (Instant.ring c k ⟨x, rem⟩) _
  cases hk : rem[k]? with
  | none =>
    have hlook : look? i w.request.id ⟨x, rem⟩ (.ring k) = none := by simp only [look?, hk]
    rw [ring_none hk, hlook]
    exact .waits h fun _ hremote => hremote
  | some al =>
    have hwoken := Exchange.woken_of_getElem? h.woken hk
    rw [ring_some hk]
    by_cases hal : al.sleeper = .playback i w.request.id
    · obtain ⟨hnow, hunwoken⟩ := Exchange.woken_of_own hwoken hal
      have hring : x.ring c al = x.stepSession i (·.look c x.now w) := by
        have hwake : x.ring c al = x.stepSession i (·.wake c x.now w.request.id) := by
          simp only [Exchange.ring, hal]
        rw [hwake, Exchange.stepSession_some hi, Exchange.stepSession_some hi, h.bides.wake]
      have hlook : look? i w.request.id ⟨x, rem⟩ (.ring k) = some ⟨x.now, s.remote⟩ := by
        simp only [look?, hk, hi, hal, hwaits, and_self, if_true]
      rw [hlook]
      refine .looks hnow ?_
      rw [hring]
      exact looked_of_look hinterval hi h.bides h.deadline h.pending hnow hunwoken
    · have hlook : look? i w.request.id ⟨x, rem⟩ (.ring k) = none := by
        simp only [look?, hk, hi, hal, false_and, if_false]
      obtain ⟨s', es, hi', hwatch, hs'⟩ :=
        Exchange.ring_leavesAlone (c := c) (x := x) hal s (rem.eraseIdx k) hi h.bides
      rw [hlook]
      refine .waits ⟨hi', hs'.bides, h.deadline, h.pending, ?_, ?_⟩ hs'.remote
      · exact h.looked.trans (Nat.le_of_eq (Exchange.ring_steps c x al).now.symm)
      · change ((x.ring c al).watch i (rem.eraseIdx k)).WokenAt _ _
        rw [hwatch]
        exact (Exchange.woken_of_other hwoken hal).tell hs'.unalarmed

theorem Waits.pass (h : Waits c i w a n s b) (ms : Nat) :
    ∃ s', Waits c i w a n s' (b.pass ms) ∧ s'.remote = s.remote := by
  obtain ⟨x, rem⟩ := b
  have hwoken : (x.watch i rem).WokenAt w.request.id (c.lookTime a (n + 1)) := h.woken
  have hlooked : c.lookTime a n ≤ x.now := h.looked
  refine ⟨s, ?_, rfl⟩
  have hpassed := pass_passed ms x rem
  generalize pass ms ⟨x, rem⟩ = b' at hpassed ⊢
  cases hpassed with
  | held => exact h
  | due hnext =>
    obtain ⟨t, hnext', hle⟩ := Exchange.nextAfter?_le_of_woken hwoken
    obtain rfl := Option.some.inj (hnext.symm.trans hnext')
    have hlt := Agenda.lt_of_nextAfter? hnext
    refine ⟨h.session, h.bides, h.deadline, h.pending, hlooked.trans (Nat.le_of_lt hlt), ?_⟩
    rw [watch, Exchange.watch_goOn]
    exact hwoken.goOn rfl hle
  | early hlate =>
    obtain ⟨t, hnext, hle⟩ := Exchange.nextAfter?_le_of_woken hwoken
    have hlt := hlate t hnext
    exact ⟨h.session, h.bides, h.deadline, h.pending, hlooked.trans (Nat.le_add_right _ _),
      hwoken.wait (t := x.now + ms) rfl (by omega)⟩

theorem look?_event {e : Exchange.Event} (he : ∀ ms, e ≠ .advance ms) {id : Uuid}
    (hid : e.playback? ≠ some id) : b.look? i id (.event e he) = none := by
  cases e with
  | play port payload format id' =>
    have hne : id' ≠ id := fun heq => hid (congrArg some heq)
    simp only [look?, hne, and_false, if_false]
    split <;> rfl
  | _ => rfl

theorem Waits.next (h : Waits c i w a n s b) (hinterval : 0 < c.interval) {m : Moment}
    (hm : m.playback? ≠ some w.request.id) :
    Next c i w a n s b.exchange.now (b.step c m) (b.look? i w.request.id m) := by
  cases m with
  | event e he =>
    rw [look?_event he hm]
    exact h.event hinterval e he hm
  | ring k => exact h.ring hinterval k
  | pass ms =>
    obtain ⟨s', hwaits, hremote⟩ := h.pass ms
    exact .waits hwaits fun target htarget => hremote.trans htarget

end Instant

end RtpBroker
