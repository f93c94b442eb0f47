import RtpBroker.Proofs.Evolution

/-!
# How sessions mature

The state of a session never goes back, and with the last one everyone who works
for the session is told to stop. In a broker, where nobody marks a state from
outside but that the session listens, the state also tells what is known of the
peer: its address since its first datagram, and that a playback began to stream to
it.
-/

namespace RtpBroker

theorem SessionState.eq_closed_of_rank_le {a : SessionState}
    (h : SessionState.closed.rank ≤ a.rank) : a = .closed := by
  cases a with
  | closed => rfl
  | _ => exact absurd h (by decide)

theorem SessionState.eq_of_join {a b state : SessionState} (h : a.join state = b)
    (hlt : state.rank < b.rank) : a = b := by
  unfold SessionState.join at h
  split at h
  · exact absurd hlt (h ▸ Nat.lt_irrefl _)
  · exact h

namespace Session

/-- Of the states only that the session listens is marked from outside. -/
def Cue.Plain : Cue → Prop
  | .mark state => state = .listening
  | _ => True

theorem Cue.Own.plain {cue : Cue} (h : cue.Own) : cue.Plain := by
  cases cue with
  | mark state => exact h
  | _ => trivial

/-- The state goes on, and whoever is to be told of the last one is told so. -/
structure Matures (s s' : Session) : Prop where
  state : s.state.rank ≤ s'.state.rank
  halted : s.aborted = s.isClosed → s'.aborted = s'.isClosed

/-- What the state of a session says of its peer. -/
structure Coherent (s : Session) : Prop where
  known : s.remote ≠ none → SessionState.remoteKnown.rank ≤ s.state.rank
  peer : s.state = .remoteKnown ∨ s.state = .streaming → s.remote ≠ none

variable {c : PlaySetup} {now : Nat} {cue : Cue} {s s' s'' : Session} {es : List Effect}

theorem Matures.refl (s : Session) : s.Matures s := ⟨Nat.le_refl _, fun h => h⟩

theorem Matures.trans (h : s.Matures s') (h' : s'.Matures s'') : s.Matures s'' :=
  ⟨Nat.le_trans h.state h'.state, fun hs => h'.halted (h.halted hs)⟩

/-- The last state is never left. -/
theorem Matures.closed (h : s.Matures s') (hs : s.isClosed = true) : s'.isClosed = true := by
  have hstate : s.state = .closed := by simpa [isClosed] using hs
  have hrank := h.state
  rw [hstate] at hrank
  simp [isClosed, SessionState.eq_closed_of_rank_le hrank]

theorem matures_advanceTo {state : SessionState} (hstate : state ≠ .closed) (s : Session) :
    s.Matures (s.advanceTo state) := by
  refine ⟨rank_le_advanceTo state s, fun h => h.trans ?_⟩
  rw [Bool.eq_iff_iff]
  constructor
  · exact fun hclosed => isClosed_advanceTo hclosed state
  · intro hclosed
    by_contra hopen
    simp only [isClosed, advanceTo, beq_iff_eq] at hclosed hopen
    have hlt := SessionState.eq_of_join hclosed
    cases state with
    | closed => exact hstate rfl
    | _ => exact hopen (hlt (by decide))

theorem hear_matures (sender : SocketAddr) (s : Session) : s.Matures (s.hear now sender).1 := by
  unfold hear
  dsimp only
  split
  · exact ⟨Nat.le_refl _, fun h => h⟩
  · have hopen : SessionState.remoteKnown ≠ .closed := by decide
    have hlearned := matures_advanceTo hopen
      { s with packets := s.packets + 1, lastActive := now, remote := some sender }
    exact ⟨hlearned.state, hlearned.halted⟩

theorem served_matures (slot : Option Streaming) (line : List Request) (s : Session) :
    s.Matures (s.served now slot line) := by
  have hopen : SessionState.streaming ≠ .closed := by decide
  have hserved := matures_advanceTo hopen { s with slot, line, lastActive := now }
  exact ⟨hserved.state, hserved.halted⟩

theorem Move.matures (h : Move c now cue s es s') : s.Matures s' := by
  cases h with
  | hear sender => exact hear_matures _ s
  | mark _ hstate => exact matures_advanceTo hstate s
  | noFile => exact served_matures _ _ s
  | notStarted => exact served_matures _ _ s
  | start => exact served_matures _ _ s
  | shut =>
    refine ⟨rank_le_advanceTo .closed s, fun _ => ?_⟩
    simp [Session.shut, isClosed, advanceTo]
  | _ => exact ⟨Nat.le_refl _, fun h => h⟩

theorem hear_coherent (sender : SocketAddr) (hs : s.Coherent) :
    (s.hear now sender).1.Coherent := by
  unfold hear
  dsimp only
  split
  · exact ⟨hs.known, hs.peer⟩
  · refine ⟨fun _ => ?_, fun _ => by simp [advanceTo]⟩
    rw [advanceTo, SessionState.rank_join]
    exact Nat.le_max_right _ _

theorem served_coherent {target : SocketAddr} (hremote : s.remote = some target)
    (slot : Option Streaming) (line : List Request) : (s.served now slot line).Coherent := by
  refine ⟨fun _ => ?_, fun _ => by simp [served, advanceTo, hremote]⟩
  rw [served, advanceTo, SessionState.rank_join]
  exact Nat.le_trans (by decide) (Nat.le_max_right _ SessionState.streaming.rank)

theorem Move.coherent (h : Move c now cue s es s') (hcue : cue.Plain) (hs : s.Coherent) :
    s'.Coherent := by
  cases h with
  | hear sender => exact hear_coherent _ hs
  | @mark _ state _ =>
    obtain rfl : state = .listening := hcue
    refine ⟨fun hremote => ?_, fun hstate => hs.peer ?_⟩
    · exact Nat.le_trans (hs.known hremote) (rank_le_advanceTo _ s)
    · -- No session comes to know its peer by listening.
      exact hstate.imp (fun h => SessionState.eq_of_join h (by decide))
        fun h => SessionState.eq_of_join h (by decide)
  | noFile _ _ hremote => exact served_coherent hremote _ _
  | notStarted _ _ hremote => exact served_coherent hremote _ _
  | start _ _ hremote => exact served_coherent hremote _ _
  | shut =>
    have hclosed : s.shut.state = .closed := SessionState.join_closed s.state
    refine ⟨fun _ => ?_, fun hstate => ?_⟩
    · rw [hclosed]
      decide
    · rw [hclosed] at hstate
      exact absurd hstate (by decide)
  | _ => exact ⟨hs.known, hs.peer⟩

/-- A session streams for the first time when a playback of it begins, to a peer that is known. -/
theorem Move.streams (h : Move c now cue s es s') (hcue : cue.Plain)
    (hs' : s'.state = .streaming) :
    s.state = .streaming ∨ s.remote ≠ none ∧ ∃ id ∈ s.playbacks, .phase id .streaming ∈ es := by
  cases h with
  | hear sender =>
    unfold Session.hear at hs'
    dsimp only at hs'
    split at hs'
    · exact Or.inl hs'
    · exact Or.inl (SessionState.eq_of_join hs' (by decide))
  | @mark _ state _ =>
    obtain rfl : state = .listening := hcue
    exact Or.inl (SessionState.eq_of_join hs' (by decide))
  | @noFile _ r _ _ _ _ hline hremote =>
    exact Or.inr ⟨by simp [hremote], r.id, by simp [playbacks, queued, hline],
      List.mem_cons_self ..⟩
  | @notStarted _ r _ _ _ _ _ hline hremote =>
    exact Or.inr ⟨by simp [hremote], r.id, by simp [playbacks, queued, hline],
      List.mem_cons_self ..⟩
  | @start _ r _ _ _ _ hline hremote =>
    exact Or.inr ⟨by simp [hremote], r.id, by simp [playbacks, queued, hline],
      List.mem_cons_self ..⟩
  | shut => exact absurd (hs'.symm.trans (SessionState.join_closed s.state)) (by decide)
  | _ => exact Or.inl hs'

/-- The address of the peer becomes known by a datagram. -/
theorem Move.heard (h : Move c now cue s es s') (hs' : s'.remote ≠ none) :
    s.remote ≠ none ∨ ∃ sender, .datagram sender ∈ es := by
  cases h with
  | hear _ sender =>
    refine Or.inr ⟨sender, ?_⟩
    unfold Session.hear
    dsimp only
    split <;> exact List.mem_cons_self ..
  | _ => exact Or.inl hs'

theorem Move.playback (h : Move c now cue s es s') {id : Uuid} (hid : id ∈ s'.playbacks) :
    id ∈ s.playbacks ∨ .enter id s.port ∈ es := by
  by_cases hcue : cue = .enter id
  · subst hcue
    cases h with
    | enter _ r => exact Or.inr (List.mem_singleton_self _)
  · refine Or.inl (List.count_pos_iff.mp ?_)
    exact Nat.lt_of_lt_of_le (List.count_pos_iff.mpr hid) (h.count_le id hcue)

end Session

namespace Exchange

open Session (Cue Move)

variable {c : PlaySetup} {cues : List Cue} {x x' : Exchange} {i : Nat} {s : Session}

def Entered (i : Nat) (id : Uuid) (journal : List Entry) : Prop :=
  ∃ t port, ⟨t, i, .enter id port⟩ ∈ journal

def PeerHeard (i : Nat) (journal : List Entry) : Prop :=
  ∃ t sender, ⟨t, i, .datagram sender⟩ ∈ journal

/-- A playback began to stream that had been accepted in the session, whose peer had been heard. -/
def Begun (i : Nat) (x : Exchange) : Prop :=
  ∃ id t before after, x.journal = before ++ ⟨t, i, .phase id .streaming⟩ :: after ∧
    Entered i id before ∧ PeerHeard i before

theorem Entered.mono {id : Uuid} {l l' : List Entry} (h : Entered i id l) (hl : l ⊆ l') :
    Entered i id l' :=
  h.imp fun _ => Exists.imp fun _ hmem => hl hmem

theorem PeerHeard.mono {l l' : List Entry} (h : PeerHeard i l) (hl : l ⊆ l') : PeerHeard i l' :=
  h.imp fun _ => Exists.imp fun _ hmem => hl hmem

theorem Begun.mono (h : x.Begun i) (hjournal : x.journal <+: x'.journal) : x'.Begun i := by
  obtain ⟨id, t, before, after, heq, hbefore⟩ := h
  obtain ⟨new, hnew⟩ := hjournal
  refine ⟨id, t, before, after ++ new, ?_, hbefore⟩
  rw [← hnew, heq, List.append_assoc, List.cons_append]

/-- What there is to the state of a session, and that its playbacks were accepted in it. -/
structure Grown (x : Exchange) (i : Nat) (s : Session) : Prop where
  coherent : s.Coherent
  entered : ∀ id ∈ s.playbacks, Entered i id x.journal
  heard : s.remote ≠ none → PeerHeard i x.journal
  begun : s.state = .streaming → x.Begun i

theorem Grown.mono (h : x.Grown i s) (hjournal : x.journal <+: x'.journal) : x'.Grown i s :=
  ⟨h.coherent, fun id hid => (h.entered id hid).mono hjournal.subset,
    fun hremote => (h.heard hremote).mono hjournal.subset,
    fun hstate => (h.begun hstate).mono hjournal⟩

theorem grown_opened (port : Port) (now : Nat) (x : Exchange) :
    x.Grown i (Session.opened port now) := by
  refine ⟨⟨fun h => absurd rfl h, fun h => ?_⟩, fun id hid => ?_, fun h => absurd rfl h,
    fun h => ?_⟩
  · simp [Session.opened] at h
  · exact absurd hid List.not_mem_nil
  · simp [Session.opened] at h

theorem journal_extends (es : List Effect) (x : Exchange) (i : Nat) (sessions : List Session) :
    x.journal <+: (es.foldl (perform i) { x with sessions }).journal := by
  rw [journal_performs]
  exact List.prefix_append _ _

theorem Grown.move {cue : Cue} {s' : Session} {es : List Effect} (hs : x.Grown i s)
    (h : Move c x.now cue s es s') (hcue : cue.Plain) (sessions : List Session) :
    (es.foldl (perform i) { x with sessions }).Grown i s' := by
  have hgrows := journal_extends es x i sessions
  refine ⟨h.coherent hcue hs.coherent, fun id hid => ?_, fun hremote => ?_, fun hstate => ?_⟩
  · rcases h.playback hid with hid | hmem
    · exact (hs.entered id hid).mono hgrows.subset
    · exact ⟨x.now, s.port, mem_journal_performs_of_mem hmem⟩
  · rcases h.heard hremote with hremote | ⟨sender, hmem⟩
    · exact (hs.heard hremote).mono hgrows.subset
    · exact ⟨x.now, sender, mem_journal_performs_of_mem hmem⟩
  · rcases h.streams hcue hstate with hstate | ⟨hremote, id, hid, hmem⟩
    · exact (hs.begun hstate).mono hgrows
    -- What the move itself tells comes after everything that was told before.
    · obtain ⟨first, last, rfl⟩ := List.append_of_mem hmem
      refine ⟨id, x.now, x.journal ++ first.map (Entry.mk x.now i), last.map (Entry.mk x.now i), ?_,
        (hs.entered id hid).mono (List.subset_append_left _ _),
        (hs.heard hremote).mono (List.subset_append_left _ _)⟩
      rw [journal_performs, List.map_append, List.map_cons, List.append_assoc]

def Grows (x : Exchange) : Prop := ∀ (i : Nat) s, x.sessions[i]? = some s → x.Grown i s

theorem Step.grows (h : Step c cues x x') (hcues : ∀ cue ∈ cues, cue.Plain) (hx : x.Grows) :
    x'.Grows := by
  intro j t ht
  rcases h.cases_on with hidle | ⟨i, s, s', es, cue, hcue, hi, hmove, rfl⟩
  · have hjournal : x.journal <+: x'.journal := ⟨[], by simp [hidle.idle.journal]⟩
    rcases hidle.idle.sessions j t ht with ⟨s₀, footing, hs₀, rfl⟩ | ⟨-, port, rfl⟩
    · have hold := (hx j s₀ hs₀).mono hjournal
      exact ⟨⟨hold.coherent.known, hold.coherent.peer⟩, hold.entered, hold.heard, hold.begun⟩
    · exact grown_opened port _ x'
  · rcases session_of_move ht with ⟨rfl, rfl⟩ | ⟨-, ht⟩
    · exact (hx j s hi).move hmove (hcues cue hcue) _
    · exact (hx j t ht).mono (journal_extends es x i _)

theorem Course.grows (h : Course c cues x x') (hcues : ∀ cue ∈ cues, cue.Plain) (hx : x.Grows) :
    x'.Grows := by
  induction h with
  | refl => exact hx
  | step _ hs ih => exact hs.grows hcues ih
  | clock _ _ _ ih => exact fun i s hi => (ih i s hi).mono (List.prefix_refl _)

theorem Course.matures (h : Course c cues x x') (hi : x.sessions[i]? = some s) :
    ∃ s', x'.sessions[i]? = some s' ∧ s.Matures s' :=
  h.relates Session.Matures.refl Session.Matures.trans (fun _ _ _ _ _ _ hm => hm.matures)
    (fun _ _ => ⟨Nat.le_refl _, fun h => h⟩) hi

/-- Everyone who works for a session is told to stop when it is closed, and not before. -/
def Halts (x : Exchange) : Prop :=
  ∀ (i : Nat) s, x.sessions[i]? = some s → s.aborted = s.isClosed

theorem Course.halts (h : Course c cues x x') (hx : x.Halts) : x'.Halts :=
  h.everywhere (fun _ _ => rfl) (fun _ _ hs => hs)
    (fun _ _ _ _ _ _ hmove hs => hmove.matures.halted hs) hx

/-! ## What evolves -/

theorem Beat.course (h : Beat c x x') :
    ∃ cues, (∀ cue ∈ cues, cue.Plain) ∧ Course c cues x x' := by
  cases h with
  | change h =>
    rcases h.steps with ⟨cues, hcues, hsteps⟩ | ⟨due, k, rfl⟩
    · exact ⟨cues, fun cue hcue => (hcues cue hcue).plain, hsteps.course⟩
    · exact ⟨[], by simp, (Course.refl x).clock x.now _⟩
  | @enter i s r hi =>
    refine ⟨[.enter r.id], by simp [Cue.Plain], (Course.refl x).step ?_⟩
    rw [Exchange.enter, stepSession_some hi]
    exact .move (List.mem_singleton_self _) hi (.enter s r)
  | @clock now _ _ agenda => exact ⟨[], by simp, (Course.refl x).clock now agenda⟩

/-- What evolves is a course in which only listening is marked from outside. -/
theorem Evolves.course (h : Evolves c x x') :
    ∃ cues, (∀ cue ∈ cues, cue.Plain) ∧ Course c cues x x' := by
  induction h with
  | refl => exact ⟨[], by simp, .refl x⟩
  | tail _ hlast ih =>
    obtain ⟨cues, hcues, hcourse⟩ := ih
    obtain ⟨cues', hcues', hcourse'⟩ := hlast.course
    refine ⟨cues ++ cues', fun cue hcue => ?_, ?_⟩
    · exact (List.mem_append.mp hcue).elim (hcues cue) (hcues' cue)
    · exact (hcourse.mono (List.subset_append_left _ _)).trans
        (hcourse'.mono (List.subset_append_right _ _))

end Exchange

namespace Broker

/-- Whatever is done to the registry, and in whichever order, the state of a session never goes back
and is never left once it is the last one, and in that one alone everyone who works for the session
is told to stop. In a broker, whatever comes before what, the state is at least that the address is
known if it is, the address is known if the state says so, and the state is that the session streams
only if a playback that was accepted in it has begun to, after the first datagram. -/
theorem state_matures :
    (∀ (c : PlaySetup) (calendar : Timestamp) (before after : List Exchange.Event) (i : Nat)
      (s : Session), (Exchange.run c before { calendar }).sessions[i]? = some s →
        s.aborted = s.isClosed ∧
        ∃ s', (Exchange.run c (before ++ after) { calendar }).sessions[i]? = some s' ∧
          s.state.rank ≤ s'.state.rank ∧ (s.isClosed = true → s'.isClosed = true)) ∧
    ∀ (setup : BrokerSetup) (calendar : Timestamp) (b₀ b b' : Broker),
      start setup calendar = .ok b₀ → Evolves b₀ b → Evolves b b' →
      ∀ (i : Nat) (s : Session), b.session? i = some s →
        s.aborted = s.isClosed ∧
        (s.remote ≠ none → SessionState.remoteKnown.rank ≤ s.state.rank) ∧
        (s.state = .remoteKnown ∨ s.state = .streaming → s.remote ≠ none) ∧
        (s.state = .streaming → b.exchange.Begun i) ∧
        ∃ s', b'.session? i = some s' ∧
          s.state.rank ≤ s'.state.rank ∧ (s.isClosed = true → s'.isClosed = true) := by
  constructor
  · intro c calendar before after i s hi
    have hbefore := Exchange.run_course c { calendar } before
    have hafter := Exchange.run_course c (Exchange.run c before { calendar }) after
    obtain ⟨s', hi', hmatures⟩ := hafter.matures hi
    refine ⟨hbefore.halts (by simp [Exchange.Halts]) i s hi, s', ?_, hmatures.state,
      hmatures.closed⟩
    rwa [Exchange.run, List.foldl_append]
  · intro setup calendar b₀ b b' hstart hb hb' i s hi
    obtain ⟨cues, hcues, hcourse⟩ := hb.exchange.course
    obtain ⟨cues', -, hcourse'⟩ := hb'.exchange.course
    have hempty := start_exchange hstart
    have hgrown : b.exchange.Grown i s :=
      hcourse.grows hcues (by simp [hempty, Exchange.Grows]) i s hi
    obtain ⟨s', hi', hmatures⟩ := hcourse'.matures hi
    exact ⟨hcourse.halts (by simp [hempty, Exchange.Halts]) i s hi, hgrown.coherent.known,
      hgrown.coherent.peer, hgrown.begun, s', hi', hmatures.state, hmatures.closed⟩

/-- The peer writes first, a playback streams to it, and the session is released. -/
def answered : List Event := [
  .openSession ⟨fun _ _ => 10002, fun _ _ => none⟩, .receive 0 ⟨.v4 192 0 2 1, 5004, 0⟩,
  .play 10002 ⟨#[1]⟩ none ⟨1⟩, .release 10002]

theorem state_matures_answered :
    ∃ b₀ s s',
      start { low := 10000, high := 10007, play := { host := { directories := ["/tmp"] } } }
        ⟨0, 0⟩ = .ok b₀ ∧
      (b₀.run (answered.take 3)).session? 0 = some s ∧ s.state = .streaming ∧
      s.aborted = false ∧ s.remote ≠ none ∧ (b₀.run (answered.take 3)).exchange.Begun 0 ∧
      (b₀.run answered).session? 0 = some s' ∧ s'.isClosed = true ∧ s'.aborted = true ∧
      s.state.rank ≤ s'.state.rank := by
  obtain ⟨b₀, hstart, hstreams, hcloses⟩ :
      ∃ b₀, start { low := 10000, high := 10007, play := { host := { directories := ["/tmp"] } } }
          ⟨0, 0⟩ = .ok b₀ ∧
        ((b₀.run (answered.take 3)).session? 0).map (·.state) = some .streaming ∧
        ((b₀.run answered).session? 0).map (·.state) = some .closed :=
    ⟨_, rfl, by decide +kernel, by decide +kernel⟩
  have hfair := fair_of_draw answered 10002 hstart (by decide) (by simp [answered])
  have hfirst : Evolves b₀ (b₀.run (answered.take 3)) :=
    (run_continues hstart [] (answered.take 3)
      (fun e he => hfair e (List.take_subset 3 _ he)) (by decide)).1
  have hlast : Evolves (b₀.run (answered.take 3)) (b₀.run answered) :=
    (run_continues hstart (answered.take 3) (answered.drop 3) hfair (by decide)).1
  obtain ⟨s, hs, hstate⟩ := Option.map_eq_some_iff.mp hstreams
  obtain ⟨t, ht, hclosed⟩ := Option.map_eq_some_iff.mp hcloses
  obtain ⟨hhalted, -, hpeer, hbegun, s', hs', hrank, -⟩ :=
    state_matures.2 _ _ b₀ _ _ hstart hfirst hlast 0 s hs
  obtain ⟨hhalted', -⟩ :=
    state_matures.2 _ _ b₀ _ _ hstart (hfirst.trans hlast) .refl 0 s' hs'
  obtain rfl := Option.some.inj (hs'.symm.trans ht)
  have hover : s'.isClosed = true := by simp [Session.isClosed, hclosed]
  refine ⟨b₀, s, s', hstart, hs, hstate, ?_, hpeer (.inr hstate), hbegun hstate, hs', hover,
    hhalted'.trans hover, hrank⟩
  rw [hhalted, Session.isClosed, hstate]
  rfl

end Broker

end RtpBroker
