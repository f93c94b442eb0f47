import RtpBroker.Proofs.Completion

/-!
# Releasing a port

From the moment a session leaves its port nobody is known there until a session is
opened on it again, so only one release of a session succeeds. Its teardown comes to
the same end whoever waits for it: the session vacates the port once nothing goes on
in it any more, and that is within the time that a program may linger.
-/

namespace RtpBroker

namespace Broker

variable {b b₂ b₃ : Broker} {p : Port} {i j : Nat} {s t : Session}

/-! ## Who is known on a port -/

/-- No port is held by two sessions. -/
theorem eq_of_held (hb : Ledger.Conserved b.allocator.range b.ledger) (hi : b.session? i = some s)
    (hj : b.session? j = some t) (hs : s.post.holds = true) (ht : t.post.holds = true)
    (hport : s.port = t.port) : i = j := by
  have hpairs : ((b.exchange.posts.filter Post.holds).map (·.1)).Nodup := hb.nodup
  rw [List.Nodup, List.pairwise_map, List.pairwise_filter,
    List.pairwise_iff_getElem] at hpairs
  obtain ⟨hlt, heq⟩ := List.getElem?_eq_some_iff.mp (Exchange.post_of_session hi)
  obtain ⟨hlt', heq'⟩ := List.getElem?_eq_some_iff.mp (Exchange.post_of_session hj)
  rcases Nat.lt_trichotomy i j with hij | rfl | hij
  · refine absurd ?_ (hpairs i j hlt hlt' hij (by rwa [heq]) (by rwa [heq']))
    rw [heq, heq']
    exact hport
  · rfl
  · refine absurd ?_ (hpairs j i hlt' hlt hij (by rwa [heq']) (by rwa [heq]))
    rw [heq, heq']
    exact hport.symm

theorem eq_of_registered (hb : Ledger.Conserved b.allocator.range b.ledger)
    (hi : b.session? i = some s) (hj : b.session? j = some t) (hs : s.standing = .registered)
    (ht : t.standing = .registered) (hport : s.port = t.port) : i = j :=
  eq_of_held hb hi hj (by simp [Session.post, Post.holds, hs])
    (by simp [Session.post, Post.holds, ht]) hport

theorem numberAt?_eq_none (h : ∀ (j : Nat) t, b.session? j = some t → t.port = p →
    t.standing ≠ .registered) : b.exchange.numberAt? p = none := by
  refine List.findIdx?_eq_none_iff.mpr fun t ht => ?_
  obtain ⟨j, hj⟩ := List.mem_iff_getElem?.mp ht
  have hnot := h j t hj
  simp only [Exchange.isAt, Bool.and_eq_false_iff, beq_eq_false_iff_ne]
  by_cases hport : t.port = p
  · exact Or.inl (hnot hport)
  · exact Or.inr hport

/-- Nobody is known on a port: there is no session to find, to play to or to release. -/
structure Unknown (p : Port) (b : Broker) : Prop where
  session : b.exchange.sessionAt? p = none
  play : ∀ payload format f id, payload.size ≠ 0 → AudioFormat.check format = .ok f →
    b.play p payload format id = (.error (.sessionNotFound p), b)
  release : b.release p = (.error (.sessionNotFound p), b)

theorem unknown_of_numberAt? (h : b.exchange.numberAt? p = none) : Unknown p b := by
  have hsession : b.exchange.sessionAt? p = none :=
    List.find?_eq_none.mpr fun t ht => by simp [List.findIdx?_eq_none_iff.mp h t ht]
  refine ⟨hsession, fun payload format f id hsize hformat => ?_, ?_⟩
  · have hrefusal : b.exchange.refusalOrPlace p payload format = .error (.sessionNotFound p) := by
      rw [Exchange.refusalOrPlace, if_neg hsize, hformat]
      dsimp only
      rw [h]
    unfold play Exchange.play
    rw [hrefusal]
  · unfold release
    rw [detach_none h]

/-- A release takes the session off its port, and closes it and completes its teardown if it can. -/
theorem release_some (hnumber : b.exchange.numberAt? p = some i) :
    b.release p = (.ok i, (b.detach p).2.completeSession i) := by
  unfold release
  rw [detach_eq hnumber]

/-- A session that is registered on a port is the one found there. -/
theorem numberAt?_of_registered (hb : Ledger.Conserved b.allocator.range b.ledger)
    (hi : b.session? i = some s) (hs : s.standing = .registered) :
    b.exchange.numberAt? s.port = some i := by
  have hat : Exchange.isAt s.port s = true := by simp [Exchange.isAt, hs]
  cases hnumber : b.exchange.numberAt? s.port with
  | none =>
    have hnone := List.findIdx?_eq_none_iff.mp hnumber s (List.mem_of_getElem? hi)
    exact absurd hat (by simp [hnone])
  | some j =>
    obtain ⟨t, hj, ht, hport⟩ := Exchange.registered_of_numberAt? hnumber
    exact congrArg some (eq_of_registered hb hj hi ht hs hport)

/-! ## From leaving on -/

theorem leave_session (hi : b.session? i = some s) : (b.leave i).session? i = some s.leave := by
  unfold session?
  rw [show (b.leave i).exchange.sessions = _ from Exchange.sessions_leave hi]
  exact List.getElem?_set_self (List.getElem?_eq_some_iff.mp hi).1

/-- Who has left its port is never registered again. -/
theorem Evolves.left (h : Evolves (b.leave i) b₂) (hi : b.session? i = some s)
    (hj : b₂.session? i = some t) : t.standing ≠ .registered := by
  intro hregistered
  obtain ⟨t', hj', hages⟩ := h.ages (leave_session hi)
  obtain rfl : t' = t := Option.some.inj (hj'.symm.trans hj)
  have hrank := hages.standing
  rw [hregistered] at hrank
  cases hrank

/-- After a session has left its port none is registered there, unless one has been opened. -/
theorem unknown_of_left (hb : Reachable b) (hi : b.session? i = some s)
    (hs : s.standing = .registered) (h : Evolves (b.leave i) b₂)
    (hnew : ∀ (j : Nat) t, b.exchange.sessions.length ≤ j → b₂.session? j = some t →
      t.port ≠ s.port) : Unknown s.port b₂ := by
  refine unknown_of_numberAt? (numberAt?_eq_none fun j t hj hport hregistered => ?_)
  by_cases hlt : j < b.exchange.sessions.length
  · -- Whoever is registered now has been so when the session left, and on the same port.
    obtain ⟨u, hu⟩ : ∃ u, b.session? j = some u := ⟨_, List.getElem?_eq_getElem hlt⟩
    have hleft : Evolves b b₂ := .head (.act (.leave hi hs)) h
    obtain ⟨t', hj', hages⟩ := hleft.ages hu
    obtain rfl : t' = t := Option.some.inj (hj'.symm.trans hj)
    have hu' : u.standing = .registered := by
      have hrank := hages.standing
      rw [hregistered] at hrank
      exact Standing.eq_of_rank (Nat.le_zero.mp hrank)
    obtain rfl : i = j :=
      eq_of_registered hb.conserved hi hu hs hu' (hport.symm.trans hages.port)
    exact h.left hi hj hregistered
  · exact hnew j t (Nat.le_of_not_lt hlt) hj hport

/-- Nobody releases a session again that has left its port. -/
theorem release_ne_left (hi : b.session? i = some s) (h : Evolves (b.leave i) b₂) (q : Port) :
    (b₂.release q).1 ≠ .ok i := by
  intro hok
  cases hnumber : b₂.exchange.numberAt? q with
  | none =>
    rw [(unknown_of_numberAt? hnumber).release] at hok
    cases hok
  | some j =>
    obtain ⟨t, hj, hregistered, -⟩ := Exchange.registered_of_numberAt? hnumber
    rw [release_some hnumber] at hok
    obtain rfl : j = i := Except.ok.inj hok
    exact h.left hi hj hregistered

/-! ## The end of a teardown -/

theorem isGone_iff (hi : b.session? i = some s) : b.isGone i = true ↔ s.standing = .gone := by
  simp [isGone, hi]

/-- The port is given back at the moment when the session is gone. -/
theorem returned_of_gone (hb : Reachable b₂) (hi : b₂.session? i = some s) (h : Beat b₂ b₃)
    (hbefore : b₂.isGone i = false) (hafter : b₃.isGone i = true) : Returned s.port b₃ := by
  obtain ⟨s', hi', -⟩ := Evolves.ages (.single h) hi
  have hs : s.standing ≠ .gone := fun hgone => by
    rw [(isGone_iff hi).mpr hgone] at hbefore
    cases hbefore
  obtain ⟨hleaving, -, -, rfl⟩ := h.vacates hi hi' hs ((isGone_iff hi').mp hafter)
  exact vacate_returned hb.conserved hi hleaving

theorem Evolves.windsDown {limit : Nat} (h : Evolves b b₂) (hi : i < b.exchange.sessions.length)
    (hb : b.exchange.WindsDown i limit) : b₂.exchange.WindsDown i limit := by
  induction h with
  | refl => exact hb
  | tail hrest hlast ih =>
    rcases hlast.exchange with heq | hbeat
    · exact heq ▸ ih
    · obtain ⟨s', hs', -⟩ := Evolves.ages hrest (List.getElem?_eq_getElem hi)
      exact hbeat.windsDown (List.getElem?_eq_some_iff.mp hs').1 ih

theorem detach_windsDown (hb : Reachable b) (hnumber : b.exchange.numberAt? p = some i) :
    (b.detach p).2.exchange.WindsDown i (b.now + PlaySetup.lingerLimit) := by
  obtain ⟨s, hi, hs, -⟩ := Exchange.registered_of_numberAt? hnumber
  intro t ht
  rw [detach_eq hnumber] at ht
  have hnow : (b.exchange.leave i).now = b.now := Exchange.now_stepSession
  have hclosed : ((b.exchange.leave i).close i).sessions[i]? = some (s.leave.close b.now).1 := by
    rw [Exchange.close, hnow]
    exact Exchange.session_stepSession (leave_session hi)
  obtain rfl := Option.some.inj (hclosed.symm.trans ht)
  refine Session.close_winding (by simp [Session.leave, Session.yield, Session.shut,
    Session.advanceTo]) ?_
  intro st o due hslot hlingering
  exact hb.arises.lingering_le hi hslot hlingering

/-- A program is over in a session, and its error output is read until some time at the latest. -/
def Lingers (i limit : Nat) (b : Broker) : Prop :=
  ∃ s st o due, b.session? i = some s ∧ s.slot = some st ∧ st.program = .lingering o due ∧
    b.now ≤ due ∧ due ≤ limit

theorem Underway.gone_or_lingers {limit : Nat} (h : Underway i b) (hb : Reachable b)
    (hwinds : b.exchange.WindsDown i limit) : b.isGone i = true ∨ Lingers i limit b := by
  obtain ⟨s, hi, -, hgone | ⟨hleaving, hunjoined⟩⟩ := h
  · exact Or.inl ((isGone_iff hi).mpr hgone)
  · have hsound := hb.arises.sound hi
    cases hslot : s.slot with
    | none =>
      have hidle := (hwinds s hi).idle hsound (Or.inl hslot)
      have hjoined := ((hb.placed i s hi).isJoined_iff (by simp [hleaving])).mpr hidle
      cases hunjoined.symm.trans hjoined
    | some st =>
      obtain ⟨o, due, hdue, hlingering⟩ := (hwinds s hi).settling st hslot
      exact Or.inr ⟨s, st, o, due, hi, hslot, hlingering, hsound.settles st o due hslot hlingering,
        hdue⟩

/-- After every event of a run from a release on the teardown is over, or a program lingers. -/
theorem release_run (hb : Reachable b) (halert : Alert [] b)
    (hnumber : b.exchange.numberAt? p = some i) {events : List Event}
    (hfair : ∀ e ∈ events, e.Fair b.allocator.range) (hfresh : Fresh events)
    (hnew : ∀ id ∈ events.filterMap Event.playback?, b.exchange.story id = []) :
    ((b.release p).2.run events).isGone i = true ∨
      Lingers i (b.now + PlaySetup.lingerLimit) ((b.release p).2.run events) := by
  obtain ⟨s, hi, -, -⟩ := Exchange.registered_of_numberAt? hnumber
  obtain ⟨-, -, hclose⟩ := detach_some (R := Exchange.Stir) hnumber
  obtain ⟨s', hi', hages⟩ := hclose.acts.evolves.ages (leave_session hi)
  have hrelease : (b.release p).2 = (b.detach p).2.completeSession i :=
    congrArg Prod.snd (release_some hnumber)
  have hunderway : Underway i (b.release p).2 :=
    hrelease ▸ completeSession_underway hi' hages.standing (hages.told rfl)
  have hwinds : (b.release p).2.exchange.WindsDown i (b.now + PlaySetup.lingerLimit) :=
    hrelease ▸ (completeSession_deeds _ i).acts.evolves.windsDown
      (List.getElem?_eq_some_iff.mp hi').1 (detach_windsDown hb hnumber)
  -- The run goes on from the release, which is an event of its own.
  obtain ⟨hevolves, halert', hunheard⟩ :=
    step_evolves halert (e := .release p) trivial fun _ h => by cases h
  obtain ⟨hrun, -⟩ := run_evolves (b := (b.release p).2) halert'
    (fun e he => hevolves.follows.allocator ▸ hfair e he) hfresh
    fun id hid => hunheard id nofun (hnew id hid)
  have hlt : i < (b.release p).2.exchange.sessions.length := by
    obtain ⟨t, ht, -⟩ := hunderway
    exact (List.getElem?_eq_some_iff.mp ht).1
  exact (run_underway events hunderway).gone_or_lingers ((hb.evolves hevolves).evolves hrun)
    (hrun.windsDown hlt hwinds)

/-- The release of a port with a session on it succeeds, and the session leaves the port at once.
From then on nobody is known there until a session is opened on it again, and no release of any port
succeeds for the session once more. When it is gone nothing is left of it, and at that moment its
port begins to cool down or is free. Whatever else happens, and whether or not somebody waits, it is
gone but for a program that lingers, and that is put up with for a time only. -/
theorem release_complete (hb : Reachable b) (hnumber : b.exchange.numberAt? p = some i) :
    (b.release p).1 = .ok i ∧ Beat b (b.leave i) ∧ Evolves (b.leave i) (b.release p).2 ∧
    (∀ b₂, Evolves (b.leave i) b₂ →
      ((∀ (j : Nat) t, b.exchange.sessions.length ≤ j → b₂.session? j = some t → t.port ≠ p) →
        Unknown p b₂) ∧
      (∀ q, (b₂.release q).1 ≠ .ok i) ∧
      (b₂.isGone i = true → TornDown i b₂) ∧
      (∀ b₃, Beat b₂ b₃ → b₂.isGone i = false → b₃.isGone i = true → Returned p b₃)) ∧
    (Alert [] b → ∀ events : List Event, (∀ e ∈ events, e.Fair b.allocator.range) →
      Fresh events → (∀ id ∈ events.filterMap Event.playback?, b.exchange.story id = []) →
      ((b.release p).2.run events).isGone i = true ∨
        Lingers i (b.now + PlaySetup.lingerLimit) ((b.release p).2.run events)) := by
  obtain ⟨s, hi, hs, rfl⟩ := Exchange.registered_of_numberAt? hnumber
  obtain ⟨-, hleave, hclose⟩ := detach_some (R := Exchange.Stir) hnumber
  have hrelease := release_some hnumber
  refine ⟨congrArg Prod.fst hrelease, .act hleave, ?_, fun b₂ h => ?_,
    fun halert events hfair hfresh hnew => release_run hb halert hnumber hfair hfresh hnew⟩
  · rw [hrelease]
    exact hclose.acts.evolves.trans (completeSession_deeds _ i).acts.evolves
  · have hb₂ : Reachable b₂ := hb.evolves (.head (.act hleave) h)
    obtain ⟨s₂, hi₂, hages⟩ := h.ages (leave_session hi)
    refine ⟨unknown_of_left hb hi hs h, release_ne_left hi h, fun hgone => ?_,
      fun b₃ hbeat hbefore hafter => ?_⟩
    · exact hb₂.tornDown hi₂ ((isGone_iff hi₂).mp hgone)
    · have hreturned := returned_of_gone hb₂ hi₂ hbeat hbefore hafter
      rwa [hages.port] at hreturned

/-- Of two playbacks one streams and the other one waits in line when the port is released; the
program outlives its end with the error output held open. -/
def releasedInUse : List Event := [
  .openSession ⟨fun _ _ => 10002, fun _ _ => none⟩, .receive 0 ⟨.v4 192 0 2 1, 5004, 0⟩,
  .play 10002 ⟨#[1]⟩ none ⟨1⟩, .play 10002 ⟨#[2]⟩ none ⟨2⟩]

def outlivingSetup : BrokerSetup where
  low := 10000
  high := 10007
  play := { host := { directories := ["/tmp"], outlives := fun _ => true } }

theorem release_complete_inUse :
    ∃ b₀, start outlivingSetup ⟨0, 0⟩ = .ok b₀ ∧
      ((b₀.run releasedInUse).release 10002).1 = .ok 0 ∧
      ((b₀.run releasedInUse).release 10002).2.isGone 0 = false ∧
      Unknown 10002 ((b₀.run releasedInUse).release 10002).2 ∧
      TornDown 0 (((b₀.run releasedInUse).release 10002).2.run [.advance 501]) := by
  obtain ⟨b₀, hstart, hnumber, hlength, hnow, hbusy, hlength', hnow'⟩ :
      ∃ b₀, start outlivingSetup ⟨0, 0⟩ = .ok b₀ ∧
        (b₀.run releasedInUse).exchange.numberAt? 10002 = some 0 ∧
        (b₀.run releasedInUse).exchange.sessions.length = 1 ∧
        (b₀.run releasedInUse).now = 0 ∧
        ((b₀.run releasedInUse).release 10002).2.isGone 0 = false ∧
        ((b₀.run releasedInUse).release 10002).2.exchange.sessions.length = 1 ∧
        (((b₀.run releasedInUse).release 10002).2.run [.advance 501]).now = 501 :=
    ⟨_, rfl, by decide +kernel, by decide +kernel, by decide +kernel, by decide +kernel,
      by decide +kernel, by decide +kernel⟩
  have hfair := fair_of_draw (releasedInUse ++ [.release 10002, .advance 501]) 10002 hstart
    (by decide) (by simp [releasedInUse])
  have hfresh : Fresh (releasedInUse ++ [.release 10002, .advance 501]) := by decide
  have hreachable : (b₀.run releasedInUse).Reachable := run_take_reachable hstart hfair hfresh 4
  have halert := (run_continues hstart releasedInUse _ hfair hfresh).2
  have hlast := (run_continues hstart (releasedInUse ++ [.release 10002]) [.advance 501]
    (by simpa using hfair) hfresh).1
  rw [run_append _ [.advance 501], run_append releasedInUse] at hlast
  obtain ⟨hok, -, hreleased, hlater, hends⟩ := release_complete hreachable hnumber
  obtain ⟨hunknown, -⟩ := hlater _ hreleased
  obtain ⟨-, -, htorn, -⟩ := hlater _ (hreleased.trans hlast)
  have hgone : (((b₀.run releasedInUse).release 10002).2.run [.advance 501]).isGone 0 = true := by
    refine (hends halert [.advance 501] (by simp [Event.Fair]) (by decide)
      (by simp [Event.playback?])).resolve_right ?_
    rintro ⟨s, st, o, due, -, -, -, hdue, hlimit⟩
    rw [hnow'] at hdue
    rw [hnow, PlaySetup.lingerLimit] at hlimit
    omega
  refine ⟨b₀, hstart, hok, hbusy, hunknown fun j t hj ht => ?_, htorn hgone⟩
  have hlt := (List.getElem?_eq_some_iff.mp ht).1
  omega

end Broker

end RtpBroker
