import RtpBroker.Proofs.Routines
import RtpBroker.Proofs.Strangers
import RtpBroker.Proofs.WaitOutcomes

/-!
# Exact waits

When a playback looks for the address of the peer, and how and when its wait ends, is
determined by the times at which the address becomes known and the session is closed.
-/

namespace RtpBroker

def Moment.play (port : Port) (payload : ByteArray) (format : Option String) (id : Uuid) : Moment :=
  .event (.play port payload format id) (by simp)

def Moment.receive (session : Nat) (sender : SocketAddr) : Moment :=
  .event (.receive session sender) (by simp)

/-- A session is closed while alarms may ring. Who is woken by one of those in `first` takes notice
of that before it takes notice of the end of its session. -/
def Moment.shut (e : Exchange.Event) (he : ∀ ms, e ≠ .advance ms) (first : List Nat) :
    List Moment :=
  first.map .ring ++ [.event e he]

namespace Instant

/-- Nobody asks for a playback under this identifier. -/
def Unasked (id : Uuid) (moments : List Moment) : Prop := ∀ m ∈ moments, m.playback? ≠ some id

/-- After these moments the playback waits that was accepted at the first one. -/
def WaitsAfter (c : PlaySetup) (i : Nat) (id : Uuid) (moments : List Moment) (b : Instant) : Prop :=
  Pending c i id b.exchange.now (looks c i id moments b) (run c moments b).exchange

/-- After these moments the playback has met its fate at `t` that was accepted at the first one. -/
def EndedAfter (c : PlaySetup) (i : Nat) (id : Uuid) (moments : List Moment) (t : Nat) (fate : Fate)
    (b : Instant) : Prop :=
  Ended c i id b.exchange.now (looks c i id moments b) t fate (run c moments b).exchange

/-- After these moments the address of the peer is unknown, the time of the playback is not up and
its next look is still to come. -/
structure ExpectsAfter (c : PlaySetup) (i : Nat) (id : Uuid) (moments : List Moment) (b : Instant) :
    Prop where
  unknown : ∃ s, (run c moments b).exchange.sessions[i]? = some s ∧ s.isClosed = false ∧
    s.remote = none
  inTime : (run c moments b).exchange.now ≤ b.exchange.now + c.ceiling
  unlooked : ∀ l ∈ looks c i id moments b, l.time < (run c moments b).exchange.now

/-- After these moments a look of the playback is due that it has not had. -/
def DueAfter (c : PlaySetup) (i : Nat) (id : Uuid) (moments : List Moment) (b : Instant) : Prop :=
  ∃ al ∈ (run c moments b).ringing, al.sleeper = .playback i id

/-- The time after these moments, rounded up to intervals since the acceptance of a playback at the
first one, or the end of its time if that is earlier. -/
def nextLookAfter (c : PlaySetup) (moments : List Moment) (b : Instant) : Nat :=
  b.exchange.now + min (((run c moments b).exchange.now - b.exchange.now) ⌈/⌉ c.interval *
    c.interval) c.ceiling

/-- How a playback waits that is accepted in the session with number `i`. -/
structure WaitsExactly (c : PlaySetup) (i : Nat) (id : Uuid) (play : Moment) (b : Instant) :
    Prop where
  /-- As long as it waits it looks when it should, and it stops when it meets its fate. -/
  looks : ∀ after, Unasked id after → WaitsAfter c i id (play :: after) b ∨
    ∃ t fate, EndedAfter c i id (play :: after) t fate b
  bounded : ∀ after, Unasked id after →
    (Instant.looks c i id (play :: after) b).length ≤ c.ceiling ⌈/⌉ c.interval + 1
  /-- An address that was known before is found at once. -/
  known : ∀ s target, b.exchange.sessions[i]? = some s → s.remote = some target →
    ∀ after, Unasked id after →
      EndedAfter c i id (play :: after) b.exchange.now (.known target) b
  /-- An address that becomes known later, and before the look at that time, is found at the next
  look, unless the session is closed by then. -/
  learned : ∀ mid sender rest, Unasked id (mid ++ rest) → ExpectsAfter c i id (play :: mid) b →
    let moments := play :: mid ++ .receive i sender :: rest
    let due := nextLookAfter c (play :: mid) b
    WaitsAfter c i id moments b ∧ (run c moments b).exchange.now ≤ due ∨
      EndedAfter c i id moments due (.known sender) b ∨
      ∃ t ≤ due, EndedAfter c i id moments t .cancelled b
  /-- If the look at the end of its time is in vain, its time is up. -/
  timedOut : ∀ after, Unasked id after →
    ⟨b.exchange.now + c.ceiling, none⟩ ∈ Instant.looks c i id (play :: after) b →
    EndedAfter c i id (play :: after) (b.exchange.now + c.ceiling) .timedOut b
  /-- If the session is closed while it waits, its wait ends then: it is cancelled, unless a look is
  due that it has first. -/
  cancelled : ∀ mid e he first rest, Unasked id (mid ++ (Moment.shut e he first ++ rest)) →
    (run c (play :: mid) b).exchange.Awaits i id →
    ¬ (run c (play :: mid ++ Moment.shut e he first) b).exchange.IsOpen i →
    ∃ fate, EndedAfter c i id (play :: mid ++ (Moment.shut e he first ++ rest))
        (run c (play :: mid) b).exchange.now fate b ∧
      (fate = .cancelled ∨ first ≠ [] ∧ DueAfter c i id (play :: mid) b)

variable {c : PlaySetup} {b : Instant} {i a n t : Nat} {id : Uuid} {w : Waiting} {s : Session}
  {looks : List Look} {fate : Fate} {port : Port} {payload : ByteArray} {format : Option String}
  {f : String} {after rest : List Moment} {m : Moment}

/-! ## Acceptance -/

/-- A playback that is accepted looks at once. -/
theorem Stranger.accepted (hb : b.Stranger id) (hinterval : 0 < c.interval)
    (hplace : b.exchange.refusalOrPlace port payload format = .ok (f, i)) :
    ∃ s s', b.exchange.sessions[i]? = some s ∧ s'.remote = s.remote ∧
      b.look? i id (.play port payload format id) = some ⟨b.exchange.now, s.remote⟩ ∧
      Looked c i ⟨⟨id, payload, f⟩, b.exchange.now + c.ceiling⟩ b.exchange.now 0 s'
        (b.step c (.play port payload format id)) := by
  obtain ⟨x, rem⟩ := b
  obtain ⟨-, -, s, hi, hopen⟩ := Exchange.refusalOrPlace_ok x hplace
  let r : Request := ⟨id, payload, f⟩
  let y := x.stepSession i (·.enter c x.now r)
  have hnone : s.playbacks.count id = 0 := List.count_eq_zero.mpr (hb.1.1 i s hi)
  have hbides : (s.enter c x.now r).1.Bides ⟨r, x.now + c.ceiling⟩ := by
    refine ⟨List.mem_append_right _ (List.mem_singleton_self _), ?_, hopen⟩
    simp only [Session.playbacks, Session.queued, Session.enter, Session.register,
      List.map_append, List.count_append, List.map_cons, List.map_nil, r] at hnone ⊢
    simp
    omega
  have hunwoken : (y.watch i rem).Unwoken id := by
    rw [Exchange.watch_stepSession hi]
    exact (hb.unwoken i).tell (by simp [Session.enter])
  have hnow : y.now = x.now := Exchange.now_stepSession
  have hlooked : Looked c i ⟨r, x.now + c.ceiling⟩ x.now 0 (s.enter c x.now r).1
      ⟨y.stepSession i (·.look c y.now ⟨r, x.now + c.ceiling⟩), rem⟩ :=
    looked_of_look hinterval (Exchange.session_stepSession hi) hbides rfl (Nat.zero_le _)
      (hnow.trans (PlaySetup.lookTime_zero c x.now).symm) hunwoken
  have hplay : (x.play c port payload format id).2 =
      y.stepSession i (·.look c y.now ⟨r, x.now + c.ceiling⟩) := by
    rw [hnow, ← Exchange.stepSession_accept]
    unfold Exchange.play
    rw [show x.refusalOrPlace port payload format = .ok (f, i) from hplace]
  refine ⟨s, (s.enter c x.now r).1, hi, rfl, ?_, ?_⟩
  · have hplace' : x.refusalOrPlace port payload format = .ok (f, i) := hplace
    simp only [Moment.play, look?, hplace', hi, and_self, if_true, Option.map_some]
  · change Looked c i _ _ 0 _ ⟨(x.play c port payload format id).2, rem⟩
    rw [hplay]
    exact hlooked

/-! ## What follows from where it stands -/

theorem Waits.isPending (h : Waits c i w a n s b) (hinterval : 0 < c.interval) :
    Pending c i w.request.id a (c.vain a (n + 1)) b.exchange where
  waits := ⟨s, h.session, Session.mem_waitingIds h.bides.waits⟩
  isOpen := ⟨s, h.session, h.bides.isOpen⟩
  inTime := h.woken.le.trans (PlaySetup.lookTime_le c a (n + 1))
  vain := h.vainUntil hinterval

theorem Stage.length_le (h : Stage c i w a looks b) : looks.length ≤ c.rounds + 1 := by
  have hvain : ∀ n, (c.vain a n).length ≤ n := fun n => by
    rw [PlaySetup.vain, List.length_map]
    exact List.length_take_le _ _
  cases h with
  | @waits n s h hlooks => exact hlooks ▸ (hvain _).trans (Nat.succ_le_succ (Nat.le_of_lt h.pending))
  | @ended t fate h =>
    have hlooks := h.looks
    cases fate with
    | known target =>
      obtain ⟨n, hn, rfl⟩ := hlooks
      have hlt := (List.getElem?_eq_some_iff.mp hn).1
      rw [PlaySetup.length_lookTimes] at hlt
      have hle := hvain n
      rw [List.length_append, List.length_singleton]
      omega
    | timedOut => rw [hlooks.2, List.length_map, PlaySetup.length_lookTimes]
    | cancelled =>
      obtain ⟨n, hn, rfl, -⟩ := hlooks
      exact (hvain n).trans (by omega)

theorem Stage.of_awaits (h : Stage c i w a looks b)
    (hwaits : b.exchange.Awaits i w.request.id) :
    ∃ n s, Waits c i w a n s b ∧ looks = c.vain a (n + 1) := by
  cases h with
  | @waits n s h hlooks => exact ⟨n, s, h, hlooks⟩
  | ended h =>
    obtain ⟨s, hi, hmem⟩ := hwaits
    obtain ⟨s', hi', hnot⟩ := h.absent
    obtain rfl := Option.some.inj (hi.symm.trans hi')
    exact absurd hmem hnot

/-- The last look comes after all that are not at the end of the time. -/
theorem time_lt_of_mem_vain (hinterval : 0 < c.interval) (hn : n ≤ c.rounds) {l : Look}
    (hl : l ∈ c.vain a n) : l.time < a + c.ceiling := by
  obtain ⟨k, hk, rfl⟩ := PlaySetup.mem_vain hinterval hl
  have hlt : k < c.rounds := by omega
  exact Nat.lt_of_lt_of_le (PlaySetup.lookTime_lt_succ hinterval hlt)
    (PlaySetup.lookTime_le c a (k + 1))

theorem Stage.timedOut (h : Stage c i w a looks b) (hinterval : 0 < c.interval)
    (hmem : ⟨a + c.ceiling, none⟩ ∈ looks) :
    Ended c i w.request.id a looks (a + c.ceiling) .timedOut b.exchange := by
  have hearly : ∀ n, n ≤ c.rounds → ⟨a + c.ceiling, none⟩ ∉ c.vain a n := fun n hn hl =>
    Nat.lt_irrefl _ (time_lt_of_mem_vain hinterval hn hl)
  cases h with
  | @waits n s h hlooks => exact absurd (hlooks ▸ hmem) (hearly _ h.pending)
  | @ended t fate h =>
    have hlooks := h.looks
    cases fate with
    | known target =>
      obtain ⟨n, hn, rfl⟩ := hlooks
      have hlt := (List.getElem?_eq_some_iff.mp hn).1
      rw [PlaySetup.length_lookTimes] at hlt
      rcases List.mem_append.mp hmem with hmem | hmem
      · exact absurd hmem (hearly n (by omega))
      · cases List.mem_singleton.mp hmem
    | timedOut =>
      obtain ⟨rfl, -⟩ := hlooks
      exact h
    | cancelled =>
      obtain ⟨n, hn, rfl, -⟩ := hlooks
      exact absurd hmem (hearly n hn)

/-- Who has not looked at this time, in an open session that does not know the address, waits. -/
theorem Stage.of_expects (h : Stage c i w a looks b) (hi : b.exchange.sessions[i]? = some s)
    (hopen : s.isClosed = false) (hremote : s.remote = none)
    (htime : b.exchange.now ≤ a + c.ceiling) (hlooks : ∀ l ∈ looks, l.time < b.exchange.now) :
    ∃ n, Waits c i w a n s b ∧ looks = c.vain a (n + 1) := by
  cases h with
  | @waits n s' h hvain =>
    obtain rfl := Option.some.inj (hi.symm.trans h.session)
    exact ⟨n, h, hvain⟩
  | @ended t fate h =>
    have hshows := h.shows
    cases fate with
    | known target =>
      obtain ⟨s', hi', hknown⟩ := hshows
      obtain rfl := Option.some.inj (hi.symm.trans hi')
      cases hremote.symm.trans hknown
    | timedOut =>
      obtain ⟨-, hall⟩ := h.looks
      have hlast : ⟨a + c.ceiling, none⟩ ∈ looks := by
        rw [hall]
        exact List.mem_map_of_mem (List.mem_append_right _ (List.mem_singleton_self _))
      exact absurd (hlooks _ hlast) (Nat.not_lt.mpr htime)
    | cancelled =>
      obtain ⟨⟨s', hi', hclosed⟩, -⟩ := hshows
      obtain rfl := Option.some.inj (hi.symm.trans hi')
      exact Bool.noConfusion (hopen.symm.trans hclosed)

/-- A datagram makes the address known to who waits. -/
theorem Waits.learns (h : Waits c i w a n s b) (hinterval : 0 < c.interval)
    (hremote : s.remote = none) (sender : SocketAddr) :
    ∃ s', Waits c i w a n s' (b.step c (.receive i sender)) ∧ s'.remote = some sender := by
  have hi' : (b.step c (.receive i sender)).exchange.sessions[i]? =
      some (s.receive c b.exchange.now sender).1 := Exchange.session_stepSession h.session
  have hnext := h.event hinterval (.receive i sender) (by simp) (by simp [Exchange.Event.playback?])
  change Next c i w a n s b.exchange.now (b.step c (.receive i sender)) none at hnext
  generalize b.step c (.receive i sender) = b' at hnext hi'
  cases hnext with
  | waits h' =>
    obtain rfl := Option.some.inj (hi'.symm.trans h'.session)
    refine ⟨_, h', ?_⟩
    rw [(Session.receive_hears c _ sender s).1, hremote, Option.none_or]
  | cancelled _ hi hnot hclosed =>
    obtain rfl := Option.some.inj (hi'.symm.trans hi)
    have hopen := (Session.receive_moves c b.exchange.now sender s).isOpen (by simp) h.bides.isOpen
    exact Bool.noConfusion (hopen.symm.trans hclosed)

/-- The session is not open any more: the playback is given up. -/
theorem Waits.cancelled (h : Waits c i w a n s b) (hinterval : 0 < c.interval)
    (hm : m.playback? ≠ some w.request.id) (hclosed : ¬ (b.step c m).exchange.IsOpen i) :
    b.look? i w.request.id m = none ∧
      Ended c i w.request.id a (c.vain a (n + 1)) b.exchange.now .cancelled
        (b.step c m).exchange := by
  have hnext := h.next hinterval hm
  generalize b.look? i w.request.id m = l at hnext
  cases hnext with
  | @waits s' h' => exact absurd ⟨s', h'.session, h'.bides.isOpen⟩ hclosed
  | cancelled hnow hi hnot hshut hentries =>
    exact ⟨rfl, h.dropped hinterval hnow hi hnot hshut hentries⟩
  | looks _ hlooked =>
    refine absurd ?_ hclosed
    cases hlooked with
    | @found s' _ _ _ hi _ hopen => exact ⟨s', hi, hopen⟩
    | @lapsed s' _ _ _ hi _ hopen => exact ⟨s', hi, hopen⟩
    | again _ h' => exact ⟨s, h'.session, h'.bides.isOpen⟩

theorem ringing_ring_subset (k : Nat) (b : Instant) : (b.ring c k).ringing ⊆ b.ringing := by
  unfold Instant.ring
  split
  · exact List.Subset.refl _
  · exact List.eraseIdx_subset

theorem now_ring (k : Nat) (b : Instant) : (b.ring c k).exchange.now = b.exchange.now := by
  unfold Instant.ring
  split
  · rfl
  · exact (Exchange.ring_steps c b.exchange _).now

theorem due_of_look? {k : Nat} {l : Look} (h : b.look? i id (.ring k) = some l) :
    ∃ al ∈ b.ringing, al.sleeper = .playback i id := by
  unfold look? at h
  dsimp only at h
  split at h
  · next al s hk _ =>
    split at h
    · next hal => exact ⟨al, List.mem_of_getElem? hk, hal.1⟩
    · cases h
  · cases h

/-- The session is closed while the playback waits: its wait ends at this time, with a look only if
one is due. -/
theorem Waits.shut (h : Waits c i w a n s b) (hinterval : 0 < c.interval) {e : Exchange.Event}
    (he : ∀ ms, e ≠ .advance ms) {first : List Nat}
    (hmoments : Unasked w.request.id (Moment.shut e he first ++ rest))
    (hclosed : ¬ (Instant.run c (Moment.shut e he first) b).exchange.IsOpen i) :
    ∃ fate, Ended c i w.request.id a
        (c.vain a (n + 1) ++ Instant.looks c i w.request.id (Moment.shut e he first ++ rest) b)
        b.exchange.now fate (Instant.run c (Moment.shut e he first ++ rest) b).exchange ∧
      (fate = .cancelled ∨
        first ≠ [] ∧ ∃ al ∈ b.ringing, al.sleeper = .playback i w.request.id) := by
  induction first generalizing n s b with
  | nil =>
    obtain ⟨hlook, hended⟩ := h.cancelled hinterval (hmoments _ (List.mem_cons_self ..)) hclosed
    obtain ⟨hnone, hended⟩ := hended.run fun m' hm' => hmoments m' (List.mem_cons_of_mem _ hm')
    refine ⟨.cancelled, ?_, Or.inl rfl⟩
    change Ended c i _ a (_ ++ ((b.look? i w.request.id (.event e he)).toList ++ _)) _ _ _
    rw [hlook, hnone, Option.toList_none, List.append_nil, List.append_nil]
    exact hended
  | cons k first ih =>
    have hrest : Unasked w.request.id (Moment.shut e he first ++ rest) := fun m' hm' =>
      hmoments m' (List.mem_cons_of_mem _ hm')
    have hlooks : Instant.looks c i w.request.id (Moment.shut e he (k :: first) ++ rest) b =
        (b.look? i w.request.id (.ring k)).toList ++
          Instant.looks c i w.request.id (Moment.shut e he first ++ rest) (b.ring c k) := rfl
    have hrun : Instant.run c (Moment.shut e he (k :: first) ++ rest) b =
        Instant.run c (Moment.shut e he first ++ rest) (b.ring c k) := rfl
    have hnext := h.ring hinterval k
    change Next c i w a n s _ (b.ring c k) _ at hnext
    rw [hlooks, hrun]
    -- what comes of the rest if it waits still, or once more
    have hgo : ∀ {n' s'}, Waits c i w a n' s' (b.ring c k) → ∃ fate, Ended c i w.request.id a
        (c.vain a (n' + 1) ++
          Instant.looks c i w.request.id (Moment.shut e he first ++ rest) (b.ring c k))
        b.exchange.now fate
        (Instant.run c (Moment.shut e he first ++ rest) (b.ring c k)).exchange ∧
        (fate = .cancelled ∨
          k :: first ≠ [] ∧ ∃ al ∈ b.ringing, al.sleeper = .playback i w.request.id) := by
      intro n' s' h'
      obtain ⟨fate, hended, hfate⟩ := ih h' hrest hclosed
      rw [now_ring] at hended
      refine ⟨fate, hended, hfate.imp_right fun ⟨_, al, hal, hown⟩ => ⟨by simp, al, ?_, hown⟩⟩
      exact ringing_ring_subset k b hal
    cases hlook : b.look? i w.request.id (.ring k) with
    | none =>
      rw [hlook] at hnext
      cases hnext with
      | waits h' => exact hgo h'
      | cancelled hnow hi hnot hshut hentries =>
        obtain ⟨hnone, hended⟩ := (h.dropped hinterval hnow hi hnot hshut hentries).run hrest
        refine ⟨.cancelled, ?_, Or.inl rfl⟩
        rw [hnone, Option.toList_none, List.append_nil, List.append_nil]
        exact hended
    | some l =>
      rw [hlook] at hnext
      cases hnext with
      | looks hnow hlooked =>
        rw [Option.toList_some, ← List.append_assoc, hnow]
        rcases hlooked.ended_or_waits hinterval h.pending with ⟨fate, hended⟩ | ⟨hremote, h'⟩
        · obtain ⟨hnone, hended⟩ := hended.run hrest
          refine ⟨fate, ?_, Or.inr ⟨by simp, due_of_look? hlook⟩⟩
          rw [hnone, List.append_nil]
          exact hended
        · rw [hremote, ← PlaySetup.vain_succ hinterval h.pending, ← hnow]
          exact hgo h'

theorem Stage.shut (h : Stage c i w a looks b) (hinterval : 0 < c.interval)
    (hwaits : b.exchange.Awaits i w.request.id) {e : Exchange.Event} (he : ∀ ms, e ≠ .advance ms)
    {first : List Nat} (hmoments : Unasked w.request.id (Moment.shut e he first ++ rest))
    (hclosed : ¬ (Instant.run c (Moment.shut e he first) b).exchange.IsOpen i) :
    ∃ fate, Ended c i w.request.id a
        (looks ++ Instant.looks c i w.request.id (Moment.shut e he first ++ rest) b)
        b.exchange.now fate (Instant.run c (Moment.shut e he first ++ rest) b).exchange ∧
      (fate = .cancelled ∨
        first ≠ [] ∧ ∃ al ∈ b.ringing, al.sleeper = .playback i w.request.id) := by
  obtain ⟨n, s, hw, rfl⟩ := h.of_awaits hwaits
  exact hw.shut hinterval he hmoments hclosed

theorem Stage.learned (h : Stage c i w a looks b) (hinterval : 0 < c.interval)
    (hi : b.exchange.sessions[i]? = some s) (hopen : s.isClosed = false)
    (hremote : s.remote = none) (htime : b.exchange.now ≤ a + c.ceiling)
    (hlooks : ∀ l ∈ looks, l.time < b.exchange.now) (hrest : Unasked w.request.id rest)
    (sender : SocketAddr) {due : Nat}
    (hdue : due = a + min ((b.exchange.now - a) ⌈/⌉ c.interval * c.interval) c.ceiling) :
    (Pending c i w.request.id a
        (looks ++ Instant.looks c i w.request.id (.receive i sender :: rest) b)
        (Instant.run c (.receive i sender :: rest) b).exchange ∧
      (Instant.run c (.receive i sender :: rest) b).exchange.now ≤ due) ∨
    Ended c i w.request.id a
      (looks ++ Instant.looks c i w.request.id (.receive i sender :: rest) b) due (.known sender)
      (Instant.run c (.receive i sender :: rest) b).exchange ∨
    ∃ t ≤ due, Ended c i w.request.id a
      (looks ++ Instant.looks c i w.request.id (.receive i sender :: rest) b) t .cancelled
      (Instant.run c (.receive i sender :: rest) b).exchange := by
  obtain ⟨n, hw, rfl⟩ := h.of_expects hi hopen hremote htime hlooks
  have hlast : ⟨c.lookTime a n, none⟩ ∈ c.vain a (n + 1) := by
    rw [PlaySetup.vain_succ hinterval (Nat.le_of_lt hw.pending)]
    exact List.mem_append_right _ (List.mem_singleton_self _)
  have hnext : due = c.lookTime a (n + 1) :=
    hdue.trans (PlaySetup.lookTime_of_between hinterval hw.pending (hlooks _ hlast) hw.woken.le)
  obtain ⟨s', hw', hknown⟩ := hw.learns hinterval hremote sender
  have hnone : b.look? i w.request.id (.receive i sender) = none := rfl
  have hsame : Instant.looks c i w.request.id (.receive i sender :: rest) b =
      Instant.looks c i w.request.id rest (b.step c (.receive i sender)) := by
    rw [Instant.looks, hnone]
    rfl
  rw [hsame, hnext]
  rcases hw'.run_known hinterval hknown hrest with ⟨s'', hwaits, hvain⟩ | hended
  · rw [hvain, List.append_nil]
    exact Or.inl ⟨hwaits.isPending hinterval, hwaits.woken.le⟩
  · exact Or.inr hended

/-! ## From the acceptance on -/

/-- A playback that is accepted as a stranger waits exactly as it should. -/
theorem Stranger.waitsExactly (hb : b.Stranger id) (hinterval : 0 < c.interval)
    (hplace : b.exchange.refusalOrPlace port payload format = .ok (f, i)) :
    WaitsExactly c i id (.play port payload format id) b := by
  obtain ⟨s, s', hi, hremote, hlook, hlooked⟩ := hb.accepted hinterval hplace
  let a := b.exchange.now
  let w : Waiting := ⟨⟨id, payload, f⟩, a + c.ceiling⟩
  let b₁ := b.step c (.play port payload format id)
  have hzero : c.lookTime a 0 = a := PlaySetup.lookTime_zero c a
  have hlooks : ∀ after, Instant.looks c i id (.play port payload format id :: after) b =
      ⟨a, s.remote⟩ :: Instant.looks c i id after b₁ := fun after => by
    rw [Instant.looks, hlook]
    rfl
  have hfirst : Stage c i w a [⟨a, s.remote⟩] b₁ := by
    have hstage := hlooked.stage hinterval (Nat.zero_le _)
    rwa [hzero, hremote] at hstage
  have hstage : ∀ after, Unasked id after →
      Stage c i w a (Instant.looks c i id (.play port payload format id :: after) b)
        (Instant.run c (.play port payload format id :: after) b) := fun after hafter => by
    rw [hlooks]
    exact hfirst.run hinterval hafter
  have hsplit : ∀ mid rest,
      Instant.looks c i id (.play port payload format id :: mid ++ rest) b =
        Instant.looks c i id (.play port payload format id :: mid) b ++
          Instant.looks c i id rest (Instant.run c (.play port payload format id :: mid) b) ∧
      Instant.run c (.play port payload format id :: mid ++ rest) b =
        Instant.run c rest (Instant.run c (.play port payload format id :: mid) b) :=
    fun mid rest => ⟨looks_append _ rest b, run_append _ rest b⟩
  refine ⟨fun after hafter => ?_, fun after hafter => (hstage after hafter).length_le,
    fun t target ht htarget after hafter => ?_, fun mid sender rest hmoments hexpects => ?_,
    fun after hafter hmem => (hstage after hafter).timedOut hinterval hmem,
    fun mid e he first rest hmoments hwaits hclosed => ?_⟩
  · unfold WaitsAfter EndedAfter
    cases hstage after hafter with
    | waits hw hvain => exact Or.inl (hvain ▸ hw.isPending hinterval)
    | @ended t fate hended => exact Or.inr ⟨t, fate, hended⟩
  · obtain rfl := Option.some.inj (hi.symm.trans ht)
    have hended := hlooked.known hinterval (Nat.zero_le _) (hremote.trans htarget)
    obtain ⟨hnone, hended⟩ := hended.run hafter
    unfold EndedAfter
    rw [hlooks, hnone, htarget]
    rw [hzero] at hended
    exact hended
  · have hmid : Unasked id mid := fun m hm => hmoments m (List.mem_append_left _ hm)
    have hrest : Unasked id rest := fun m hm => hmoments m (List.mem_append_right _ hm)
    obtain ⟨t, ht, hopen, hunknown⟩ := hexpects.unknown
    intro moments due
    unfold WaitsAfter EndedAfter
    rw [(hsplit mid _).1, (hsplit mid _).2]
    exact (hstage mid hmid).learned hinterval ht hopen hunknown hexpects.inTime hexpects.unlooked
      hrest sender rfl
  · have hmid : Unasked id mid := fun m' hm' => hmoments m' (List.mem_append_left _ hm')
    have hrest : Unasked id (Moment.shut e he first ++ rest) := fun m' hm' =>
      hmoments m' (List.mem_append_right _ hm')
    unfold EndedAfter DueAfter
    rw [(hsplit mid _).1, (hsplit mid _).2]
    rw [(hsplit mid _).2] at hclosed
    exact (hstage mid hmid).shut hinterval hwaits he hrest hclosed

/-- Every playback that is accepted waits exactly as it should, whatever came before. -/
theorem run_waitsExactly (hinterval : 0 < c.interval) (calendar : Timestamp)
    {before : List Moment} (hbefore : Unasked id before)
    (hplace : (run c before { exchange := { calendar } }).exchange.refusalOrPlace port payload
      format = .ok (f, i)) :
    WaitsExactly c i id (.play port payload format id)
      (run c before { exchange := { calendar } }) := by
  have hstart : Stranger id { exchange := { calendar } } :=
    ⟨⟨fun _ _ hi => by simp at hi, by simp⟩, by simp⟩
  exact (hstart.run hbefore).waitsExactly hinterval hplace

/-- The time of a playback is no multiple of the interval, and the address becomes known right
before its look after two intervals. -/
theorem run_waitsExactly_in_between :
    let c : PlaySetup := { ceiling := 1200, interval := 500 }
    let before : List Moment := [.event (.create 40000) (by simp)]
    let play : Moment := .play 40000 ⟨#[1]⟩ none ⟨1⟩
    let b := run c before { exchange := { calendar := ⟨0, 0⟩ } }
    let peer : SocketAddr := ⟨.v4 127 0 0 1, 50000, 0⟩
    b.exchange.refusalOrPlace 40000 ⟨#[1]⟩ none = .ok ("mp3", 0) ∧
      WaitsExactly c 0 ⟨1⟩ play b ∧
      Instant.looks c 0 ⟨1⟩ [play, .pass 700, .ring 0, .pass 700, .receive 0 peer, .ring 0] b =
        [⟨0, none⟩, ⟨500, none⟩, ⟨1000, some peer⟩] := by
  refine ⟨rfl, run_waitsExactly (by decide) ⟨0, 0⟩ (by simp [Unasked, Moment.playback?,
    Exchange.Event.playback?]) rfl, by decide +kernel⟩

/-- The session is closed just when the look at the end of the time is due: the playback is
cancelled, or it looks first and its time is up. -/
example :
    let c : PlaySetup := { ceiling := 500, interval := 500 }
    let waited : List Moment := [.event (.create 40000) (by simp), .play 40000 ⟨#[1]⟩ none ⟨1⟩,
      .pass 500]
    let phase (first : List Nat) := ((run c (waited ++ Moment.shut (.close 0) (by simp) first)
      { exchange := { calendar := ⟨0, 0⟩ } }).exchange.tracker.find? ⟨1⟩).map (·.phase)
    phase [] = some .cancelled ∧ phase [0] = some .timedOut := by
  decide +kernel

end Instant

end RtpBroker
