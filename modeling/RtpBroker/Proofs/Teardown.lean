import RtpBroker.Proofs.AudioFiles

/-!
# Tearing sessions down

Off its port a session winds down: nobody waits in it, and at most one program is
over there with its error output still read, for as long as that is put up with. Then
the session vacates its port, which is the only way to be gone, and nothing is left
of it.
-/

namespace RtpBroker

namespace Session

variable {c : PlaySetup} {now limit : Nat} {cue : Cue} {s s' : Session} {es : List Effect}

/-- Nobody waits in a session off its port, and what it streams is over by a time. -/
structure Winding (limit : Nat) (s : Session) : Prop where
  left : s.standing ≠ .registered
  waiting : s.waiting = []
  line : s.line = []
  settling : ∀ st, s.slot = some st → ∃ o, ∃ due ≤ limit, st.program = .lingering o due

theorem Winding.congr (h : s.Winding limit) (hleft : s'.standing ≠ .registered)
    (hwaiting : s'.waiting = s.waiting) (hline : s'.line = s.line) (hslot : s'.slot = s.slot) :
    s'.Winding limit :=
  ⟨hleft, hwaiting.trans h.waiting, hline.trans h.line, fun st hst => h.settling st (hslot ▸ hst)⟩

/-- A session that winds down goes on to do so. -/
theorem Move.winding (h : Move c now cue s es s') (hs : s.Winding limit)
    (hcue : ∀ id, cue ≠ .enter id) : s'.Winding limit := by
  have hstanding : s'.standing = s.standing := congrArg Prod.snd h.post
  have hleft : s'.standing ≠ .registered := hstanding ▸ hs.left
  have hended : ∀ st, s.slot = some st → st.program ≠ .running := fun st hst hrunning => by
    obtain ⟨o, due, -, hlingering⟩ := hs.settling st hst
    cases hrunning.symm.trans hlingering
  cases h with
  | hear sender =>
    exact hs.congr hleft (hear_waiting _ _ s) (hear_line _ _ s) (hear_slot _ _ s)
  | mark => exact hs.congr hleft rfl rfl rfl
  | shut => exact hs.congr hleft rfl rfl rfl
  | enter => exact absurd rfl (hcue _)
  | queue hw => exact absurd hw (by simp [hs.waiting])
  | lapse hw => exact absurd hw (by simp [hs.waiting])
  | again hw => exact absurd hw (by simp [hs.waiting])
  | noFile _ hline => exact absurd (hs.line.symm.trans hline) (by simp)
  | notStarted _ hline => exact absurd (hs.line.symm.trans hline) (by simp)
  | start _ hline => exact absurd (hs.line.symm.trans hline) (by simp)
  | exit ending hslot hrunning => exact absurd hrunning (hended _ hslot)
  | exitHeld ending hslot hrunning => exact absurd hrunning (hended _ hslot)
  | settle => exact ⟨hleft, hs.waiting, hs.line, fun st hst => by cases hst⟩
  | dropWaiting _ hw => exact absurd (hs.waiting.symm.trans hw) (by simp)
  | dropLine _ hr => exact absurd (hs.line.symm.trans hr) (by simp)
  | kill _ hslot hrunning => exact absurd hrunning (hended _ hslot)
  | killHeld _ hslot hrunning => exact absurd hrunning (hended _ hslot)

theorem Recedes.winding (h : s.Recedes s') (hs : s.Winding limit) : s'.Winding limit := by
  cases h with
  | stays => exact hs
  | leaves h => exact absurd h hs.left
  | vacates => exact hs.congr (by simp) rfl rfl rfl

theorem Winding.idle (h : s.Winding limit) (hsound : s.Sound now)
    (hdone : s.slot = none ∨ limit < now) : s.playbacks = [] := by
  have hslot : s.slot = none := by
    rcases hdone with hslot | hlate
    · exact hslot
    · cases hslot : s.slot with
      | none => rfl
      | some st =>
        obtain ⟨o, due, hdue, hlingering⟩ := h.settling st hslot
        have hnow := hsound.settles st o due hslot hlingering
        omega
  simp [playbacks, queued, h.waiting, h.line, hslot]

/-- A session that is closed winds down, within the time that a program may linger. -/
theorem close_winding (hleft : s.standing ≠ .registered)
    (hlate : ∀ st o due, s.slot = some st → st.program = .lingering o due →
      due ≤ now + PlaySetup.lingerLimit) :
    (s.close now).1.Winding (now + PlaySetup.lingerLimit) := by
  cases hslot : s.slot with
  | none =>
    have hclose : (s.close now).1 = { s with waiting := [], line := [] }.shut := by
      simp [close, shut, advanceTo, hslot]
    rw [hclose]
    exact ⟨hleft, rfl, rfl, fun st hst => by simp [shut, advanceTo, hslot] at hst⟩
  | some st =>
    cases hprogram : st.program with
    | lingering o due =>
      have hclose : (s.close now).1 = { s with waiting := [], line := [] }.shut := by
        simp [close, shut, advanceTo, hslot, hprogram]
      rw [hclose]
      refine ⟨hleft, rfl, rfl, fun st' hst => ?_⟩
      obtain rfl : st = st' := Option.some.inj (hslot.symm.trans hst)
      exact ⟨o, due, hlate st o due hslot hprogram, hprogram⟩
    | running =>
      cases houtlives : st.outlives with
      | true =>
        have hclose : (s.close now).1 = { { s with waiting := [], line := [] }.shut with
            slot := some { st with
              program := .lingering .aborted (now + PlaySetup.lingerLimit) } } := by
          simp [close, shut, advanceTo, hslot, hprogram, houtlives]
        rw [hclose]
        refine ⟨hleft, rfl, rfl, ?_⟩
        rintro _ ⟨⟩
        exact ⟨.aborted, _, Nat.le_refl _, rfl⟩
      | false =>
        have hclose : (s.close now).1 = { { s with waiting := [], line := [] }.shut with
            slot := none, lastActive := now } := by
          simp [close, shut, advanceTo, hslot, hprogram, houtlives]
        rw [hclose]
        exact ⟨hleft, rfl, rfl, fun st' hst => by cases hst⟩

end Session

namespace Exchange

variable {c : PlaySetup} {x x' : Exchange} {i : Nat} {limit : Nat}

/-- A program lingers no longer than is put up with. -/
theorem Reached.lingering_le {asked : Request → Prop} (hx : Reached c asked x) {s : Session}
    {st : Streaming} {o : Outcome} {due : Nat} (hi : x.sessions[i]? = some s)
    (hslot : s.slot = some st) (hlingering : st.program = .lingering o due) :
    due ≤ x.now + PlaySetup.lingerLimit := by
  obtain ⟨j, p, hl⟩ := hx.lives st.id
  have hcondition : s.condition? st.id = (Condition.lingering o due).shown := by
    rw [Session.condition?_of_slot (hx.sound hi).nodup hslot, hlingering]
    rfl
  obtain ⟨-, rfl⟩ := hl.of_shown hi hcondition (by simp [Condition.shown])
  obtain ⟨t₁, port, t₂, arguments, t₃, e, -, rfl, heq⟩ := hl.life.eq_of_lingering
  have hend : ⟨t₃, j, e⟩ ∈ x.story st.id := by simp [heq]
  have hpast := hx.past _ (mem_journal_of_story hend)
  exact Nat.add_le_add_right hpast _

def WindsDown (i limit : Nat) (x : Exchange) : Prop :=
  ∀ s, x.sessions[i]? = some s → s.Winding limit

theorem Beat.windsDown (h : Beat c x x') (hi : i < x.sessions.length)
    (hx : x.WindsDown i limit) : x'.WindsDown i limit := by
  intro t ht
  cases h.shift with
  | still h =>
    rcases h.comes i t ht with ⟨s, hs, hrecedes⟩ | ⟨hnone, -⟩
    · exact hrecedes.winding (hx s hs)
    · exact absurd hi (Nat.not_lt.mpr (List.getElem?_eq_none_iff.mp hnone))
  | @move j cue s s' es hj hmove hadmits =>
    rcases session_of_move ht with ⟨rfl, rfl⟩ | ⟨-, ht⟩
    · refine hmove.winding (hx s hj) fun id heq => ?_
      subst heq
      exact (hx s hj).left hadmits.2.1
    · exact hx t ht
  | clock => exact hx t ht

/-- A playback that is known and goes on nowhere has ended. -/
theorem Lives.ended_of_hidden {id : Uuid} {p : Condition} (h : Lives c x i id p)
    (hne : x.story id ≠ []) (hshown : p.shown = none) :
    ∃ q, q.isFinished = true ∧ x.ending? id = some q := by
  cases p with
  | unknown => exact absurd h.life.eq_of_unknown hne
  | settled v =>
    refine ⟨v.phase, v.isFinished_phase, ?_⟩
    rw [h.ending?]
    rfl
  | _ => cases hshown

/-- A playback that is accepted and does not go on in its session has ended. -/
theorem Reached.ended_of_idle {asked : Request → Prop} (hx : Reached c asked x) {s : Session}
    (hi : x.sessions[i]? = some s) (hidle : s.playbacks = []) {id : Uuid}
    (haccepted : x.Accepted i id) : ∃ p, p.isFinished = true ∧ x.ending? id = some p := by
  obtain ⟨j, p, hl⟩ := hx.lives id
  obtain ⟨t, port, hentry⟩ := haccepted
  have hstory := mem_story id hentry rfl
  obtain rfl : i = j := hl.life.session_eq _ hstory
  refine hl.ended_of_hidden (List.ne_nil_of_mem hstory) ?_
  rw [← hl.here s hi]
  exact Session.condition?_of_not_mem (by simp [hidle])

end Exchange

namespace Broker

variable {b b' : Broker} {i : Nat} {s s' : Session}

/-! ## To be gone -/

theorem standing_of_posts (h : b'.exchange.posts = b.exchange.posts) (hi : b.session? i = some s)
    (hi' : b'.session? i = some s') : s'.standing = s.standing := by
  have heq := (Exchange.post_of_session hi').symm.trans (h ▸ Exchange.post_of_session hi)
  exact congrArg Prod.snd (Option.some.inj heq)

/-- The only way to be gone is to vacate the port, when the listener and all tasks are over. -/
theorem Beat.vacates (h : Beat b b') (hi : b.session? i = some s) (hi' : b'.session? i = some s')
    (hs : s.standing ≠ .gone) (hs' : s'.standing = .gone) :
    s.standing = .leaving ∧ i ∉ b.listeners ∧ s.isJoined = true ∧ b' = b.vacate i s.port := by
  have hsame : ¬ b'.exchange.posts = b.exchange.posts := fun hposts =>
    hs ((standing_of_posts hposts hi hi').symm.trans hs')
  have hlt := (List.getElem?_eq_some_iff.mp hi).1
  cases h with
  | act h =>
    cases h with
    | inside h => exact absurd (congrArg Ledger.posts (ledger_stir h)) hsame
    | @enroll p _ _ _ _ =>
      have hstays : (b.enroll p).session? i = some s := (List.getElem?_append_left hlt).trans hi
      obtain rfl : s = s' := Option.some.inj (hstays.symm.trans hi')
      exact absurd hs' hs
    | @leave j t hj h =>
      have hsessions : (b.leave j).exchange.sessions = b.exchange.sessions.set j t.leave :=
        Exchange.sessions_leave hj
      unfold session? at hi'
      rw [hsessions] at hi'
      by_cases hji : j = i
      · subst hji
        rw [List.getElem?_set_self hlt] at hi'
        cases hi'
        cases hs'
      · rw [List.getElem?_set_ne hji] at hi'
        obtain rfl : s = s' := Option.some.inj (hi.symm.trans hi')
        exact absurd hs' hs
    | quiet j =>
      have hstays : (b.endListener j).session? i = some s := by rwa [session_endListener]
      obtain rfl : s = s' := Option.some.inj (hstays.symm.trans hi')
      exact absurd hs' hs
    | @vacate j t hj h hquiet hjoined =>
      by_cases hji : j = i
      · subst hji
        obtain rfl : t = s := Option.some.inj (hj.symm.trans hi)
        exact ⟨h, hquiet, hjoined, rfl⟩
      · rw [session_vacate_of_ne (Ne.symm hji)] at hi'
        obtain rfl : s = s' := Option.some.inj (hi.symm.trans hi')
        exact absurd hs' hs
    | drain => exact absurd rfl hsame
    | bounce => exact absurd rfl hsame
    | arrange => exact absurd rfl hsame
  | @enter j _ r _ _ _ _ => exact absurd (Exchange.posts_enter j r b.exchange) hsame
  | clock => exact absurd rfl hsame

/-! ## Listeners -/

/-- Whoever listens does so for a session that is not gone, and nobody stops before being told
to. -/
structure Listened (b : Broker) : Prop where
  known : ∀ i ∈ b.listeners, ∃ s, b.session? i = some s ∧ s.standing ≠ .gone
  listens : ∀ (i : Nat) s, b.session? i = some s → s.aborted = false → i ∈ b.listeners

theorem mem_listeners_endListener {j : Nat} (h : i ∈ (b.endListener j).listeners) :
    i ∈ b.listeners := by
  unfold endListener at h
  split at h
  · exact h
  · split at h
    · exact (List.mem_filter.mp h).1
    · exact h

theorem mem_listeners_of_open {j : Nat} (hi : b.session? i = some s) (hopen : s.aborted = false)
    (h : i ∈ b.listeners) : i ∈ (b.endListener j).listeners := by
  unfold endListener
  split
  · exact h
  · next t hj =>
    split
    · next haborted =>
      have hne : i ≠ j := by
        rintro rfl
        rw [Option.some.inj (hi.symm.trans hj)] at hopen
        exact Bool.noConfusion (hopen.symm.trans haborted)
      exact List.mem_filter.mpr ⟨h, by simpa using hne⟩
    · exact h

theorem Beat.ages (h : Beat b b') (hi : b.session? i = some s) :
    ∃ s', b'.session? i = some s' ∧ s.Ages s' := by
  rcases h.exchange with heq | hbeat
  · exact ⟨s, by rwa [session?, heq], .refl s⟩
  · exact hbeat.ages hi

theorem length_of_posts (h : b'.exchange.posts = b.exchange.posts) :
    b'.exchange.sessions.length = b.exchange.sessions.length := by
  simpa [Exchange.posts] using congrArg List.length h

/-- A listener is started with its session, which nothing else adds, and it may end. -/
theorem Beat.listeners (h : Beat b b') : (∃ p, b' = b.enroll p) ∨
    b'.exchange.sessions.length = b.exchange.sessions.length ∧
      (b'.listeners = b.listeners ∨ ∃ j, b' = b.endListener j) := by
  cases h with
  | act h =>
    cases h with
    | inside h =>
      exact Or.inr ⟨length_of_posts (congrArg Ledger.posts (ledger_stir h)), Or.inl rfl⟩
    | @enroll p => exact Or.inl ⟨p, rfl⟩
    | leave hi =>
      refine Or.inr ⟨?_, Or.inl rfl⟩
      rw [leave, Exchange.sessions_leave hi, List.length_set]
    | quiet j => exact Or.inr ⟨by rw [exchange_endListener], Or.inr ⟨j, rfl⟩⟩
    | vacate hi =>
      refine Or.inr ⟨?_, Or.inl rfl⟩
      rw [vacate, Exchange.vacate, Exchange.sessions_stepSession hi, List.length_set]
    | _ => exact Or.inr ⟨rfl, Or.inl rfl⟩
  | @enter j _ r _ _ _ _ =>
    exact Or.inr ⟨length_of_posts (Exchange.posts_enter j r b.exchange), Or.inl rfl⟩
  | clock => exact Or.inr ⟨rfl, Or.inl rfl⟩

theorem Beat.listened (h : Beat b b') (hb : b.Listened) : b'.Listened := by
  have hknown : ∀ i ∈ b.listeners, ∃ s, b'.session? i = some s ∧ s.standing ≠ .gone := by
    intro i hmem
    obtain ⟨s, hi, hs⟩ := hb.known i hmem
    obtain ⟨s', hi', -⟩ := h.ages hi
    refine ⟨s', hi', fun hgone => ?_⟩
    obtain ⟨-, hquiet, -⟩ := h.vacates hi hi' hs hgone
    exact hquiet hmem
  have hold : ∀ (i : Nat) s', b'.session? i = some s' → s'.aborted = false →
      i < b.exchange.sessions.length → i ∈ b.listeners := by
    intro i s' hi' haborted hlt
    have hi : b.session? i = some b.exchange.sessions[i] := List.getElem?_eq_getElem hlt
    obtain ⟨t, ht, hages⟩ := h.ages hi
    obtain rfl : s' = t := Option.some.inj (hi'.symm.trans ht)
    refine hb.listens i _ hi (Bool.of_not_eq_true fun htold => ?_)
    exact Bool.noConfusion (haborted.symm.trans (hages.told htold))
  rcases h.listeners with ⟨p, rfl⟩ | ⟨hlength, hsame⟩
  · refine ⟨fun i hmem => ?_, fun i s' hi' haborted => List.mem_append.mpr ?_⟩
    · rcases List.mem_append.mp hmem with hmem | hmem
      · exact hknown i hmem
      · -- The new one listens for the session that has just been opened.
        obtain rfl := List.mem_singleton.mp hmem
        exact ⟨Session.opened p b.exchange.now, List.getElem?_concat_length, by
          simp [Session.opened]⟩
    · by_cases hlt : i < b.exchange.sessions.length
      · exact Or.inl (hold i s' hi' haborted hlt)
      · have hlt' : i < b.exchange.sessions.length + 1 := by
          simpa [Broker.enroll, Exchange.enroll] using (List.getElem?_eq_some_iff.mp hi').1
        exact Or.inr (List.mem_singleton.mpr (by omega))
  · have hlistens : ∀ (i : Nat) s', b'.session? i = some s' → s'.aborted = false →
        i ∈ b.listeners := fun i s' hi' haborted =>
      hold i s' hi' haborted (hlength ▸ (List.getElem?_eq_some_iff.mp hi').1)
    rcases hsame with heq | ⟨j, rfl⟩
    · exact ⟨fun i hmem => hknown i (heq ▸ hmem),
        fun i s' hi' haborted => heq ▸ hlistens i s' hi' haborted⟩
    · refine ⟨fun i hmem => hknown i (mem_listeners_endListener hmem), fun i s' hi' haborted => ?_⟩
      exact mem_listeners_of_open (by rwa [session_endListener] at hi') haborted
        (hlistens i s' hi' haborted)

theorem Reachable.listened (hb : Reachable b) : b.Listened := by
  obtain ⟨setup, calendar, b₀, hstart, hevolves⟩ := hb
  induction hevolves with
  | refl =>
    obtain ⟨range, -, rfl⟩ := start_eq hstart
    exact ⟨fun i hmem => (by cases hmem), fun i s hi => (by cases hi)⟩
  | tail _ hlast ih => exact hlast.listened ih

/-- The port of a session that has just gone: it is free if there is no time to cool down, and
else it begins to cool. -/
structure Returned (p : Port) (b : Broker) : Prop where
  free : b.allocator.cooldown = 0 → b.pool.isOccupied p = false
  cooling : b.allocator.cooldown ≠ 0 →
    b.pool.isOccupied p = true ∧ b.pool.coolingSince? p = some b.now

theorem vacate_returned (hb : Ledger.Conserved b.allocator.range b.ledger)
    (hi : b.session? i = some s) (hs : s.standing = .leaving) :
    Returned s.port (b.vacate i s.port) := by
  have hheld : s.port ∈ b.ledger.held := by
    refine List.mem_map.mpr ⟨s.post, List.mem_filter.mpr ⟨?_, ?_⟩, rfl⟩
    · exact List.mem_map_of_mem (List.mem_of_getElem? hi)
    · simp [Post.holds, Session.post, hs]
  have hoccupied : b.pool.isOccupied s.port = true := hb.occupied_of_held hheld
  have hcooling : b.pool.coolingSince? s.port = none := hb.not_cooling _ hheld
  have hnow : (b.vacate i s.port).now = b.now := Exchange.now_stepSession
  refine ⟨fun (hzero : b.allocator.cooldown = 0) => ?_,
    fun (hcooldown : b.allocator.cooldown ≠ 0) => ?_⟩
  · change (b.allocator.giveBack b.now s.port b.pool).2.isOccupied s.port = false
    rw [Allocator.giveBack, if_pos hzero, PortPool.isOccupied_free]
    simp
  · rw [hnow]
    change (b.allocator.giveBack b.now s.port b.pool).2.isOccupied s.port = true ∧
      (b.allocator.giveBack b.now s.port b.pool).2.coolingSince? s.port = some b.now
    rw [Allocator.giveBack, if_neg hcooldown, PortPool.isOccupied_coolDown,
      PortPool.coolingSince?_coolDown, if_pos ⟨rfl, hoccupied⟩, hcooling]
    exact ⟨hoccupied, rfl⟩

/-! ## What is left -/

/-- Nothing is left of a session: it is closed, hears nothing, and nothing goes on in it; all its
playbacks have ended, and none has a program or an audio file. -/
structure TornDown (i : Nat) (b : Broker) : Prop where
  session : ∃ s, b.session? i = some s ∧ s.standing = .gone ∧ s.isClosed = true ∧
    s.playbacks = []
  listener : i ∉ b.listeners ∧ ∀ sender, b.receive i sender = b
  ended : ∀ id, b.exchange.Accepted i id →
    ∃ p, p.isFinished = true ∧ b.exchange.ending? id = some p
  shown : ∀ id r, b.exchange.Accepted i id → b.status? id = some r → r.phase.isFinished = true
  program : ∀ id, ¬ b.exchange.Running i id ∧ ¬ b.exchange.Draining i id
  files : ∀ f ∈ b.exchange.files, ¬ b.exchange.Accepted i f.owner

theorem Reachable.tornDown (hb : Reachable b) (hi : b.session? i = some s)
    (hs : s.standing = .gone) : TornDown i b := by
  have hx := hb.arises
  have hplaced := hb.placed i s hi
  have hidle := hplaced.idle hs
  have hended : ∀ id, b.exchange.Accepted i id →
      ∃ p, p.isFinished = true ∧ b.exchange.ending? id = some p :=
    fun id hid => hx.ended_of_idle hi hidle hid
  have hnone : ∀ id, ¬ b.exchange.Holds i id := by
    rintro id ⟨t, st, ht, hslot, -⟩
    obtain rfl : s = t := Option.some.inj (hi.symm.trans ht)
    simp [Session.playbacks, hslot] at hidle
  have hlistener : i ∉ b.listeners := fun hmem => by
    obtain ⟨t, ht, hne⟩ := hb.listened.known i hmem
    obtain rfl : s = t := Option.some.inj (hi.symm.trans ht)
    exact hne hs
  refine ⟨⟨s, hi, hs, hplaced.closed (by simp [hs]), hidle⟩, ⟨hlistener, fun sender => ?_⟩, hended,
    fun id r hid hr => ?_, fun id => ?_, fun f hf hid => ?_⟩
  · simp [receive, hi, hlistener]
  · obtain ⟨p, hp, hend⟩ := hended id hid
    rw [hx.ending?_of_record hr] at hend
    split at hend
    · assumption
    · cases hend
  · exact not_or.mp (hx.holds_iff.not.mp (hnone id))
  · obtain ⟨p, -, hend⟩ := hended f.owner hid
    obtain ⟨j, t, st, hj, hslot, hst, -⟩ := hb.holds_of_file hf
    have hholds : b.exchange.Holds j f.owner := ⟨t, st, hj, hslot, hst⟩
    cases hend.symm.trans (hx.ending?_of_holds hholds)

end Broker

end RtpBroker
