import RtpBroker.Proofs.Errands

/-!
# Sweeps over idle sessions

A sweep lists the ports of the idle sessions, then it releases one port after the other
and waits for each, while anything may happen in the broker. It releases whoever is
registered when the turn of a port has come: the session that it listed, idle still, or
one in which something happened after the ports were listed.
-/

namespace RtpBroker

namespace Session

/-- Nothing happens in a session, and nothing begins in it. -/
structure Rests (s s' : Session) : Prop where
  lastActive : s'.lastActive = s.lastActive
  idle : s.playbacks = [] → s'.playbacks = []

variable {c : PlaySetup} {now : Nat} {cue : Cue} {s s' s'' : Session} {es : List Effect}

theorem Rests.refl (s : Session) : s.Rests s := ⟨rfl, fun h => h⟩

theorem Rests.trans (h : s.Rests s') (h' : s'.Rests s'') : s.Rests s'' :=
  ⟨h'.lastActive.trans h.lastActive, fun hs => h'.idle (h.idle hs)⟩

theorem hear_lastActive (now : Nat) (sender : SocketAddr) (s : Session) :
    (s.hear now sender).1.lastActive = now := by
  unfold hear
  dsimp only
  split <;> rfl

/-- A move is noted as the last thing that happened, or the session rests. -/
theorem Move.rests (h : Move c now cue s es s') : s'.lastActive = now ∨ s.Rests s' := by
  have hrests : s'.lastActive = s.lastActive → (∀ id, cue ≠ .enter id) →
      s'.lastActive = now ∨ s.Rests s' := fun hsame hcue => Or.inr ⟨hsame, h.idle hcue⟩
  cases h with
  | hear _ sender => exact Or.inl (hear_lastActive now sender s)
  | enter | noFile | notStarted | start | exit | settle | kill => exact Or.inl rfl
  | mark | queue | lapse | again | exitHeld | shut | dropWaiting | dropLine | killHeld =>
    exact hrests rfl (by simp)

theorem Recedes.rests (h : s.Recedes s') : s.Rests s' := by
  cases h with
  | stays => exact .refl s
  | leaves => exact ⟨rfl, fun h => h⟩
  | vacates => exact ⟨rfl, fun h => h⟩

/-- Who was idle and has rested is idle still. -/
theorem Rests.isIdle {limit now' : Nat} (h : s.Rests s') (hplaced : s.Placed)
    (hregistered : s.standing = .registered) (hs : s.isIdle limit now = true)
    (hnow : now ≤ now') : s'.isIdle limit now' = true := by
  simp only [Session.isIdle, Bool.and_eq_true, decide_eq_true_eq, Bool.not_eq_true'] at hs ⊢
  rw [h.lastActive]
  have hidle := (hplaced.isBusy_eq_false hregistered).mp hs.2
  exact ⟨by omega, isBusy_of_idle (h.idle hidle)⟩

end Session

namespace Exchange

/-- Since `x₀` each session has rested, or something happened in it at that time or later. -/
structure Watched (x₀ x : Exchange) : Prop where
  now : x₀.now ≤ x.now
  sessions : ∀ (i : Nat) s, x.sessions[i]? = some s →
    x₀.now ≤ s.lastActive ∨ ∃ t, x₀.sessions[i]? = some t ∧ t.Rests s

variable {c : PlaySetup} {x₀ x x' : Exchange}

theorem Watched.refl (x : Exchange) : Watched x x :=
  ⟨Nat.le_refl _, fun _ s hi => Or.inr ⟨s, hi, .refl s⟩⟩

theorem Watched.rests {i : Nat} {s s' : Session} (hx : Watched x₀ x)
    (hi : x.sessions[i]? = some s) (h : s.Rests s') :
    x₀.now ≤ s'.lastActive ∨ ∃ t, x₀.sessions[i]? = some t ∧ t.Rests s' := by
  rcases hx.sessions i s hi with hactive | ⟨t, ht, hrests⟩
  · exact Or.inl (h.lastActive ▸ hactive)
  · exact Or.inr ⟨t, ht, hrests.trans h⟩

theorem Beat.watched (h : Beat c x x') (hx : Watched x₀ x) : Watched x₀ x' := by
  cases h.shift with
  | still h =>
    refine ⟨h.now ▸ hx.now, fun i s' hi' => ?_⟩
    rcases h.comes i s' hi' with ⟨s, hi, hrecedes⟩ | ⟨-, port, rfl⟩
    · exact hx.rests hi hrecedes.rests
    · exact Or.inl hx.now
  | @move j cue s s' es hj hmove _ =>
    refine ⟨?_, fun i t hi => ?_⟩
    · rw [now_performs]
      exact hx.now
    · rcases session_of_move hi with ⟨rfl, rfl⟩ | ⟨-, hi⟩
      · rcases hmove.rests with hnow | hrests
        · exact Or.inl (hnow ▸ hx.now)
        · exact hx.rests hj hrests
      · exact hx.sessions i t hi
  | clock hnow agenda => exact ⟨Nat.le_trans hx.now hnow, hx.sessions⟩

theorem Evolves.watched (h : Evolves c x x') : Watched x x' := by
  induction h with
  | refl => exact .refl x
  | tail _ hlast ih => exact hlast.watched ih

end Exchange

namespace Broker

open Exchange (Watched)

/-- A session that a sweep took off its port: its number, what it was then, and when. -/
structure Removal where
  port : Port
  number : Nat
  session : Session
  time : Nat

/-- A sweep under way: the ports that it listed and will return, those still before it, the session
that it waits for, and what it has removed. -/
structure Sweep where
  listed : List Port
  next : List Port
  awaited : Option Nat := none
  removals : List Removal := []

namespace Sweep

/-- Lists the ports of idle sessions. -/
def list (limit : Nat) (b : Broker) : Sweep where
  listed := b.idlePorts limit
  next := b.idlePorts limit

/-- Whether the sweep waits for a session that is not gone yet. -/
def waits (w : Sweep) (b : Broker) : Bool := w.awaited.any fun i => !b.isGone i

/-- Releases the next port, unless a session has to be waited for. -/
def turn (w : Sweep) (b : Broker) : Sweep × Broker :=
  if w.waits b then (w, b)
  else
    match w.next with
    | [] => ({ w with awaited := none }, b)
    | p :: ps =>
      match b.detach p with
      | (.error _, b) => ({ w with next := ps, awaited := none }, b)
      | (.ok i, b') =>
        ({ w with
          next := ps
          awaited := some i
          removals := w.removals ++ (b.session? i).toList.map (⟨p, i, ·, b.now⟩) }, b')

end Sweep

/-- The sweep has its turn, or the broker does whatever else it does. -/
inductive Sweeps : Sweep × Broker → Sweep × Broker → Prop
  | turn (w : Sweep) (b : Broker) : Sweeps (w, b) (w.turn b)
  | beat {w : Sweep} {b b' : Broker} (h : Beat b b') : Sweeps (w, b) (w, b')

abbrev Sweeping : Sweep × Broker → Sweep × Broker → Prop := Relation.ReflTransGen Sweeps

variable {b₀ b b' : Broker} {w w' : Sweep} {limit i : Nat} {p : Port} {s : Session}

theorem sweeping_of_evolves (w : Sweep) (h : Evolves b b') : Sweeping (w, b) (w, b') := by
  induction h with
  | refl => exact .refl
  | tail _ hlast ih => exact ih.tail (.beat hlast)

theorem mem_idlePorts : p ∈ b.idlePorts limit ↔
    ∃ i s, b.session? i = some s ∧ s.standing = .registered ∧ s.port = p ∧
      s.isIdle limit b.now = true := by
  rw [idlePorts, Exchange.idlePorts, (b.setup.listing.perm _ _).mem_iff]
  simp only [Exchange.registered, List.mem_map, List.mem_filter, beq_iff_eq]
  constructor
  · rintro ⟨s, ⟨⟨hmem, hs⟩, hidle⟩, hp⟩
    obtain ⟨i, hi⟩ := List.mem_iff_getElem?.mp hmem
    exact ⟨i, s, hi, hs, hp, hidle⟩
  · rintro ⟨i, s, hi, hs, hp, hidle⟩
    exact ⟨s, ⟨⟨List.mem_of_getElem? hi, hs⟩, hidle⟩, hp⟩

/-! ## A turn -/

/-- A turn does nothing, or passes over a port where nobody is, or removes a session. -/
inductive Turns (w : Sweep) (b : Broker) : Sweep × Broker → Prop
  | rests (awaited : Option Nat) : Turns w b ({ w with awaited }, b)
  | skips {p : Port} {ps : List Port} (hnext : w.next = p :: ps)
      (hnone : b.exchange.numberAt? p = none) :
      Turns w b ({ w with next := ps, awaited := none }, b)
  | removes {p : Port} {ps : List Port} {i : Nat} {s : Session} (hnext : w.next = p :: ps)
      (hnumber : b.exchange.numberAt? p = some i) (hi : b.session? i = some s)
      (hs : s.standing = .registered) (hport : s.port = p) :
      Turns w b ({ w with
        next := ps
        awaited := some i
        removals := w.removals ++ [⟨p, i, s, b.now⟩] }, (b.detach p).2)

theorem turn_turns (w : Sweep) (b : Broker) : Turns w b (w.turn b) := by
  unfold Sweep.turn
  split
  · exact .rests w.awaited
  · split
    · exact .rests none
    · next p ps hnext =>
      cases hnumber : b.exchange.numberAt? p with
      | none =>
        rw [detach_none hnumber]
        exact .skips hnext hnumber
      | some i =>
        obtain ⟨s, hi, hs, hport⟩ := Exchange.registered_of_numberAt? hnumber
        have hremoves := Turns.removes hnext hnumber hi hs hport
        rw [detach_eq hnumber] at hremoves ⊢
        simpa [session?, hi] using hremoves

theorem Turns.evolves {next : Sweep × Broker} (h : Turns w b next) : Evolves b next.2 := by
  cases h with
  | rests => exact .refl
  | skips => exact .refl
  | removes => exact (detach_deeds _ b).acts.evolves

/-! ## What a sweep removes -/

/-- How a sweep that began with `b₀` came to a removal: it released the session that it listed,
which was idle still, or one that was opened or in which something happened after the list was
made. -/
structure Removal.Sound (limit : Nat) (b₀ b : Broker) (r : Removal) : Prop where
  found : r.session.standing = .registered ∧ r.session.port = r.port
  time : b₀.now ≤ r.time
  reason : b₀.exchange.numberAt? r.port = some r.number ∧ r.session.isIdle limit r.time = true ∨
    b₀.now ≤ r.session.lastActive
  off : ∃ s, b.session? r.number = some s ∧ s.standing ≠ .registered

/-- What is true of a sweep that began with `b₀`, however far it is. -/
structure Passage (limit : Nat) (b₀ : Broker) (w : Sweep) (b : Broker) : Prop where
  evolves : Evolves b₀ b
  listed : w.listed = b₀.idlePorts limit
  ports : (w.removals.map (·.port) ++ w.next).Sublist w.listed
  removed : ∀ r ∈ w.removals, r.Sound limit b₀ b
  passed : ∀ p ∈ w.listed, p ∉ w.next → p ∉ w.removals.map (·.port) →
    ∃ i s, b₀.exchange.numberAt? p = some i ∧ b.session? i = some s ∧ s.standing ≠ .registered

/-- Who is off its port stays off it. -/
theorem Evolves.off (h : Evolves b b')
    (hi : ∃ s, b.session? i = some s ∧ s.standing ≠ .registered) :
    ∃ s, b'.session? i = some s ∧ s.standing ≠ .registered := by
  obtain ⟨s, hi, hs⟩ := hi
  obtain ⟨s', hi', hages⟩ := h.ages hi
  refine ⟨s', hi', fun hs' => hs (Standing.eq_of_rank (Nat.le_zero.mp ?_))⟩
  have hrank := hages.standing
  rwa [hs'] at hrank

theorem Removal.Sound.evolves {r : Removal} (hr : r.Sound limit b₀ b) (h : Evolves b b') :
    r.Sound limit b₀ b' :=
  ⟨hr.found, hr.time, hr.reason, h.off hr.off⟩

theorem Passage.beyond (hw : Passage limit b₀ w b) (h : Evolves b b') (awaited : Option Nat) :
    Passage limit b₀ { w with awaited } b' where
  evolves := hw.evolves.trans h
  listed := hw.listed
  ports := hw.ports
  removed r hr := (hw.removed r hr).evolves h
  passed p hp hnext hremoved := by
    obtain ⟨i, s, hnumber, hoff⟩ := hw.passed p hp hnext hremoved
    obtain ⟨s', hoff'⟩ := h.off ⟨s, hoff⟩
    exact ⟨i, s', hnumber, hoff'⟩

theorem passage_list (limit : Nat) (b : Broker) : Passage limit b (Sweep.list limit b) b where
  evolves := .refl
  listed := rfl
  ports := List.Sublist.refl _
  removed r hr := by cases hr
  passed p hp hnext := absurd hp hnext

/-- A listed port was that of an idle session. -/
theorem listed_idle (hb : Reachable b₀) (hp : p ∈ b₀.idlePorts limit) :
    ∃ i s, b₀.exchange.numberAt? p = some i ∧ b₀.session? i = some s ∧
      s.standing = .registered ∧ s.port = p ∧ s.isIdle limit b₀.now = true := by
  obtain ⟨i, s, hi, hs, rfl, hidle⟩ := mem_idlePorts.mp hp
  exact ⟨i, s, numberAt?_of_registered hb.conserved hi hs, hi, hs, rfl, hidle⟩

/-- Who is found on a listed port is the session that was there, idle still, or something has
happened in it. -/
theorem reason_of_found (hb : Reachable b₀) (h : Evolves b₀ b)
    (hp : p ∈ b₀.idlePorts limit) (hi : b.session? i = some s)
    (hs : s.standing = .registered) (hport : s.port = p) :
    b₀.exchange.numberAt? p = some i ∧ s.isIdle limit b.now = true ∨ b₀.now ≤ s.lastActive := by
  obtain ⟨hnow, hwatched⟩ := h.exchange.watched
  rcases hwatched i s hi with hactive | ⟨t, ht, hrests⟩
  · exact Or.inr hactive
  · obtain ⟨s', hi', hages⟩ := h.ages ht
    obtain rfl : s' = s := Option.some.inj (hi'.symm.trans hi)
    have hregistered : t.standing = .registered := by
      have hrank := hages.standing
      rw [hs] at hrank
      exact Standing.eq_of_rank (Nat.le_zero.mp hrank)
    have hnumber := numberAt?_of_registered hb.conserved ht hregistered
    rw [← hages.port, hport] at hnumber
    obtain ⟨j, u, hnumber', hj, -, -, hidle⟩ := listed_idle hb hp
    obtain rfl : i = j := Option.some.inj (hnumber.symm.trans hnumber')
    obtain rfl : t = u := Option.some.inj (ht.symm.trans hj)
    exact Or.inl ⟨hnumber, hrests.isIdle (hb.placed i t ht) hregistered hidle hnow⟩

theorem Passage.turn (hb : Reachable b₀) (hw : Passage limit b₀ w b) :
    Passage limit b₀ (w.turn b).1 (w.turn b).2 := by
  have hturns := turn_turns w b
  generalize w.turn b = next at hturns
  cases hturns with
  | rests awaited => exact hw.beyond .refl awaited
  | @skips p ps hnext hnone =>
    have hmem : p ∈ w.listed := hw.ports.subset (by simp [hnext])
    refine ⟨hw.evolves, hw.listed, ?_, hw.removed, fun q hq hqnext hqremoved => ?_⟩
    · refine List.Sublist.trans ?_ hw.ports
      rw [hnext]
      exact (List.Sublist.refl _).append (List.sublist_cons_self p ps)
    · by_cases hqp : q = p
      · subst hqp
        obtain ⟨i, t, hnumber, ht, -, hport, -⟩ := listed_idle hb (hw.listed ▸ hmem)
        obtain ⟨s, hi, hages⟩ := hw.evolves.ages ht
        refine ⟨i, s, hnumber, hi, fun hs => ?_⟩
        exact numberAt?_ne_none
          (mem_registeredPorts.mpr ⟨i, s, hi, hs, hages.port.trans hport⟩) hnone
      · exact hw.passed q hq (by simp [hnext, hqp, hqnext]) hqremoved
  | @removes p ps i s hnext hnumber hi hs hport =>
    have hmem : p ∈ w.listed := hw.ports.subset (by simp [hnext])
    have hdetach : Evolves b (b.detach p).2 := (detach_deeds p b).acts.evolves
    have hoff : ∃ s', (b.detach p).2.session? i = some s' ∧ s'.standing ≠ .registered := by
      obtain ⟨-, -, hclose⟩ := detach_some (R := Exchange.Stir) hnumber
      exact hclose.acts.evolves.off ⟨s.leave, leave_session hi, by simp [Session.leave,
        Session.yield, Session.shut, Session.advanceTo]⟩
    have hbeyond := hw.beyond hdetach w.awaited
    refine ⟨hbeyond.evolves, hw.listed, ?_, fun r hr => ?_, fun q hq hqnext hqremoved => ?_⟩
    · have hports := hw.ports
      rw [hnext] at hports
      simpa using hports
    · rcases List.mem_append.mp hr with hold | hnew
      · exact hbeyond.removed r hold
      · obtain rfl := List.mem_singleton.mp hnew
        exact ⟨⟨hs, hport⟩, hw.evolves.exchange.watched.now,
          reason_of_found hb hw.evolves (hw.listed ▸ hmem) hi hs hport, hoff⟩
    · simp only [List.map_append, List.map_cons, List.map_nil, List.mem_append,
        List.mem_singleton, not_or] at hqremoved
      exact hbeyond.passed q hq (by simp [hnext, hqremoved.2, hqnext]) hqremoved.1

theorem Sweeping.passage (hb : Reachable b₀) (h : Sweeping (Sweep.list limit b₀, b₀) (w, b)) :
    Passage limit b₀ w b := by
  have hinvariant : ∀ at' : Sweep × Broker, Sweeping (Sweep.list limit b₀, b₀) at' →
      Passage limit b₀ at'.1 at'.2 := by
    intro at' h
    induction h with
    | refl => exact passage_list limit b₀
    | tail _ hlast ih =>
      cases hlast with
      | turn w b => exact ih.turn hb
      | @beat w b b' hbeat => exact ih.beyond (.single hbeat) w.awaited
  exact hinvariant (w, b) h

/-! ## The sweeps of a broker -/

theorem turn_skips {ps : List Port} (hwaits : w.waits b = false) (hnext : w.next = p :: ps)
    (hnone : b.exchange.numberAt? p = none) :
    w.turn b = ({ w with next := ps, awaited := none }, b) := by
  simp [Sweep.turn, hwaits, hnext, detach_none hnone]

theorem turn_removes {ps : List Port} (hwaits : w.waits b = false) (hnext : w.next = p :: ps)
    (hnumber : b.exchange.numberAt? p = some i) :
    ∃ removals, w.turn b =
      ({ w with next := ps, awaited := some i, removals }, (b.detach p).2) := by
  refine ⟨w.removals ++ (b.session? i).toList.map (⟨p, i, ·, b.now⟩), ?_⟩
  simp [Sweep.turn, hwaits, hnext, detach_eq hnumber]

/-- How far a sweep is that was carried on as far as possible: it is over, or it is the errand. -/
def Sweep.Left (w : Sweep) (b : Broker) : Option Errand → Prop
  | none => w.next = [] ∧ w.waits b = false
  | some e => w.next = e.ports ∧ w.awaited = e.awaited

/-- A sweep that is carried on until it has to wait has its turns, and the sessions that it removes
complete their teardowns if they can. -/
theorem proceed_sweeps (ports : List Port) (w : Sweep) (b : Broker) (hwaits : w.waits b = false)
    (hnext : w.next = ports) :
    ∃ w', Sweeping (w, b) (w', (b.proceed ports).2) ∧ w'.listed = w.listed ∧
      w'.Left (b.proceed ports).2 (b.proceed ports).1 := by
  induction ports generalizing w b with
  | nil => exact ⟨w, .refl, rfl, hnext, hwaits⟩
  | cons p ps ih =>
    unfold proceed
    cases hnumber : b.exchange.numberAt? p with
    | none =>
      have hturn : Sweeping (w, b) ({ w with next := ps, awaited := none }, b) :=
        turn_skips hwaits hnext hnumber ▸ .single (.turn w b)
      have hrelease : b.release p = (.error (.sessionNotFound p), b) := by
        unfold release
        rw [detach_none hnumber]
      rw [hrelease]
      obtain ⟨w', hrest, hlisted, hleft⟩ := ih { w with next := ps, awaited := none } b rfl rfl
      exact ⟨w', hturn.trans hrest, hlisted, hleft⟩
    | some i =>
      obtain ⟨removals, hremoves⟩ := turn_removes hwaits hnext hnumber
      let removed : Sweep := { w with next := ps, awaited := some i, removals }
      let torn : Broker := (b.detach p).2.completeSession i
      have hturn : Sweeping (w, b) (removed, (b.detach p).2) := hremoves ▸ .single (.turn w b)
      have htorn : Sweeping (w, b) (removed, torn) :=
        hturn.trans (sweeping_of_evolves removed (completeSession_deeds _ i).acts.evolves)
      rw [release_some hnumber]
      dsimp only
      split
      · next hgone =>
        have hfree : removed.waits torn = false := by
          rw [Sweep.waits, Option.any_some, show torn.isGone i = true from hgone]
          rfl
        obtain ⟨w', hrest, hlisted, hleft⟩ := ih removed torn hfree rfl
        exact ⟨w', htorn.trans hrest, hlisted, hleft⟩
      · exact ⟨removed, htorn, rfl, rfl, rfl⟩

/-- What the broker does of a sweep at once, and what it keeps in mind of it. -/
theorem releaseIdle_sweeps (hb : Reachable b) (limit : Nat) :
    ∃ w e, Sweeping (Sweep.list limit b, b) (w, (b.releaseIdle limit).2) ∧
      (b.releaseIdle limit).1 = w.listed ∧ w.Left (b.releaseIdle limit).2 e ∧
      (b.releaseIdle limit).2.errands = b.errands ++ e.toList := by
  obtain ⟨w, hsweeping, hlisted, hleft⟩ :=
    proceed_sweeps (b.idlePorts limit) (Sweep.list limit b) b rfl rfl
  have herrands := (proceed_carriesOn (b.idlePorts limit) hb.conserved).errands
  unfold releaseIdle
  dsimp only
  rcases hproceed : b.proceed (b.idlePorts limit) with ⟨_ | e, b'⟩ <;>
    rw [hproceed] at hsweeping hleft herrands
  · exact ⟨w, none, hsweeping, hlisted.symm, hleft, by simpa using herrands⟩
  · refine ⟨w, some e, hsweeping.tail (.beat (.act (.arrange b' _ b'.reapers b'.stopped))),
      hlisted.symm, hleft, ?_⟩
    exact congrArg (· ++ [e]) herrands

/-- Whatever happens while a sweep goes on, it releases listed ports only, one after the other, and
each removed session is the one that was listed, idle still, unless it was opened or something
happened in it after the list was made. The sweep returns all listed ports: those that it did not
release were released by somebody else meanwhile. -/
theorem sweep_releases (hb : Reachable b₀) (limit : Nat) :
    (∀ w b, Sweeping (Sweep.list limit b₀, b₀) (w, b) →
      w.listed = b₀.idlePorts limit ∧
      (w.removals.map (·.port) ++ w.next).Sublist w.listed ∧
      (∀ r ∈ w.removals, r.Sound limit b₀ b) ∧
      ∀ p ∈ w.listed, p ∉ w.next → p ∉ w.removals.map (·.port) →
        ∃ i s, b₀.exchange.numberAt? p = some i ∧ b.session? i = some s ∧
          s.standing ≠ .registered) ∧
    ∃ w e, Sweeping (Sweep.list limit b₀, b₀) (w, (b₀.releaseIdle limit).2) ∧
      (b₀.releaseIdle limit).1 = w.listed ∧ w.Left (b₀.releaseIdle limit).2 e ∧
      (b₀.releaseIdle limit).2.errands = b₀.errands ++ e.toList := by
  refine ⟨fun w b h => ?_, releaseIdle_sweeps hb limit⟩
  have hpassage := h.passage hb
  exact ⟨hpassage.listed, hpassage.ports, hpassage.removed, hpassage.passed⟩

/-! ## What comes in between -/

def idleSetup : BrokerSetup where
  low := 10000
  high := 10007
  play := { host := { directories := ["/tmp"] } }

/-- Two sessions, and nothing happens in them. -/
def twoIdle : List Event := [
  .openSession ⟨fun _ _ => 10002, fun _ _ => none⟩,
  .openSession ⟨fun _ _ => 10004, fun _ _ => none⟩, .advance 2000]

def twoListed : Sweep where
  listed := [10002, 10004]
  next := [10002, 10004]

/-- A sweep over both sessions that has its turn before some events and after them. -/
def interrupted (b : Broker) (between : List Event) : Sweep × Broker :=
  (twoListed.turn b).1.turn ((twoListed.turn b).2.run between)

theorem turn_detach {ps : List Port} (hwaits : w.waits b = false) (hnext : w.next = p :: ps) :
    (w.turn b).2 = b.step (.detach p) := by
  cases hnumber : b.exchange.numberAt? p with
  | none => rw [turn_skips hwaits hnext hnumber, step, detach_none hnumber]
  | some i =>
    obtain ⟨removals, hremoves⟩ := turn_removes hwaits hnext hnumber
    rw [hremoves, step]

theorem contains_idleSetup {b₀ : Broker} (hstart : start idleSetup ⟨0, 0⟩ = .ok b₀) (p : Port) :
    b₀.allocator.range.contains p = (10000 ≤ p && p ≤ 10007) := by
  obtain ⟨hlow, hhigh, -⟩ := start_ok hstart
  rw [PortRange.contains, hlow, hhigh]
  rfl

/-- The events are fair, since both candidates are ports of the range. -/
theorem fair_twoIdle {b₀ : Broker} (hstart : start idleSetup ⟨0, 0⟩ = .ok b₀)
    (after : List Event) (hopens : ∀ chance, .openSession chance ∉ after) :
    ∀ e ∈ twoIdle ++ after, e.Fair b₀.allocator.range := by
  intro e he
  rcases List.mem_append.mp he with hmem | hmem
  · simp only [twoIdle, List.mem_cons, List.not_mem_nil, or_false] at hmem
    rcases hmem with rfl | rfl | rfl
    · exact fun _ _ => contains_idleSetup hstart 10002
    · exact fun _ _ => contains_idleSetup hstart 10004
    · trivial
  · cases e with
    | openSession chance => exact absurd hmem (hopens chance)
    | _ => trivial

theorem sweeping_interrupted {b₀ : Broker} (hstart : start idleSetup ⟨0, 0⟩ = .ok b₀)
    (between : List Event) (hfresh : Fresh (twoIdle ++ .detach 10002 :: between))
    (hopens : ∀ chance, .openSession chance ∉ between) :
    Reachable (b₀.run twoIdle) ∧ (b₀.run twoIdle).setup = idleSetup ∧
      Sweeping (twoListed, b₀.run twoIdle) (interrupted (b₀.run twoIdle) between) := by
  let removed := (twoListed.turn (b₀.run twoIdle)).1
  have hsetup : (b₀.run twoIdle).setup = idleSetup := by
    have hfair : ∀ e ∈ twoIdle, e.Fair b₀.allocator.range := fun e he =>
      fair_twoIdle hstart [] (by simp) e (List.mem_append_left _ he)
    obtain ⟨range, -, rfl⟩ := start_eq hstart
    exact (run_follows twoIdle _ hfair).setup
  have hfair := fair_twoIdle hstart (.detach 10002 :: between) (by simpa using hopens)
  have hreachable := run_take_reachable hstart hfair hfresh twoIdle.length
  rw [List.take_left] at hreachable
  have hdetach : (twoListed.turn (b₀.run twoIdle)).2 = b₀.run (twoIdle ++ [.detach 10002]) := by
    rw [run_append]
    exact turn_detach rfl rfl
  have hfirst : Sweeping (twoListed, b₀.run twoIdle)
      (removed, b₀.run (twoIdle ++ [.detach 10002])) := hdetach ▸ .single (.turn twoListed _)
  have hsplit : twoIdle ++ .detach 10002 :: between = twoIdle ++ [.detach 10002] ++ between := by
    simp
  rw [hsplit] at hfair hfresh
  have hbetween := (run_continues hstart _ between hfair hfresh).1
  have hsecond := (hfirst.trans (sweeping_of_evolves removed hbetween)).tail (.turn removed _)
  rw [run_append, ← hdetach] at hsecond
  exact ⟨hreachable, hsetup, hsecond⟩

theorem list_eq_twoListed (hsetup : b.setup = idleSetup)
    (hidle : (b.exchange.registered.filter (·.isIdle 1000 b.now)).map (·.port) = [10002, 10004]) :
    Sweep.list 1000 b = twoListed := by
  have hports : b.idlePorts 1000 = [10002, 10004] := by
    have hsorted : List.Pairwise (fun p q : Port => decide (p ≤ q) = true) [10002, 10004] := by
      decide
    rw [now] at hidle
    rw [idlePorts, hsetup]
    change List.mergeSort _ _ = _
    rw [hidle, List.mergeSort_of_pairwise hsorted]
  rw [Sweep.list, hports]
  rfl

/-- The first session is torn down, and a playback is accepted in the second one. -/
def playedMeanwhile : List Event := [.complete 0, .play 10004 ⟨#[1]⟩ none ⟨1⟩]

/-- The first session is torn down, and the second one is released. -/
def releasedMeanwhile : List Event := [.complete 0, .release 10004]

theorem sweep_releases_playedMeanwhile :
    ∃ b₀ w b, Reachable b₀ ∧ Sweeping (Sweep.list 1000 b₀, b₀) (w, b) ∧
      w.listed = b₀.idlePorts 1000 ∧ w.removals.map (·.port) = [10002, 10004] ∧
      ∀ r ∈ w.removals, r.Sound 1000 b₀ b := by
  obtain ⟨b₀, hstart, hidle, hremoved⟩ : ∃ b₀, start idleSetup ⟨0, 0⟩ = .ok b₀ ∧
      ((b₀.run twoIdle).exchange.registered.filter
        (·.isIdle 1000 (b₀.run twoIdle).now)).map (·.port) = [10002, 10004] ∧
      (interrupted (b₀.run twoIdle) playedMeanwhile).1.removals.map (·.port) =
        [10002, 10004] :=
    ⟨_, rfl, by decide +kernel, by decide +kernel⟩
  obtain ⟨hreachable, hsetup, hsweeping⟩ := sweeping_interrupted hstart playedMeanwhile
    (by decide) (by simp [playedMeanwhile])
  rw [← list_eq_twoListed hsetup hidle] at hsweeping
  obtain ⟨hports, -, hsound, -⟩ := (sweep_releases hreachable 1000).1 _ _ hsweeping
  exact ⟨_, _, _, hreachable, hsweeping, hports, hremoved, hsound⟩

/-- Between the list and its turn a playback was accepted in a session, and the sweep removes it; or
a session was released by somebody else, and the sweep returns its port. -/
theorem not_sweep_removes_idle :
    (¬ ∀ b₀ limit w b, Reachable b₀ → Sweeping (Sweep.list limit b₀, b₀) (w, b) →
      ∀ r ∈ w.removals, b₀.exchange.numberAt? r.port = some r.number ∧
        r.session.isIdle limit r.time = true) ∧
    ¬ ∀ b₀ limit w b, Reachable b₀ → Sweeping (Sweep.list limit b₀, b₀) (w, b) → w.next = [] →
      w.listed = w.removals.map (·.port) := by
  obtain ⟨b₀, hstart, hidle, hbusy, hnext, hlisted, hremoved⟩ : ∃ b₀,
      start idleSetup ⟨0, 0⟩ = .ok b₀ ∧
      ((b₀.run twoIdle).exchange.registered.filter
        (·.isIdle 1000 (b₀.run twoIdle).now)).map (·.port) = [10002, 10004] ∧
      (interrupted (b₀.run twoIdle) playedMeanwhile).1.removals.any
        (fun r => !r.session.isIdle 1000 r.time) = true ∧
      (interrupted (b₀.run twoIdle) releasedMeanwhile).1.next = [] ∧
      (interrupted (b₀.run twoIdle) releasedMeanwhile).1.listed = [10002, 10004] ∧
      (interrupted (b₀.run twoIdle) releasedMeanwhile).1.removals.map (·.port) = [10002] :=
    ⟨_, rfl, by decide +kernel, by decide +kernel, by decide +kernel, by decide +kernel,
      by decide +kernel⟩
  refine ⟨fun h => ?_, fun h => ?_⟩
  · obtain ⟨hreachable, hsetup, hsweeping⟩ := sweeping_interrupted hstart playedMeanwhile
      (by decide) (by simp [playedMeanwhile])
    rw [← list_eq_twoListed hsetup hidle] at hsweeping
    obtain ⟨r, hr, hactive⟩ := List.any_eq_true.mp hbusy
    have hstill := (h _ _ _ _ hreachable hsweeping r hr).2
    simp [hstill] at hactive
  · obtain ⟨hreachable, hsetup, hsweeping⟩ := sweeping_interrupted hstart releasedMeanwhile
      (by decide) (by simp [releasedMeanwhile])
    rw [← list_eq_twoListed hsetup hidle] at hsweeping
    have hreturned := (hlisted.symm.trans (h _ _ _ _ hreachable hsweeping hnext)).trans hremoved
    cases hreturned

end Broker

end RtpBroker
