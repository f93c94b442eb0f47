import RtpBroker.Proofs.Accounting
import RtpBroker.Proofs.FirstSender
import RtpBroker.Proofs.WindingUp

/-!
# Shutting down

A shutdown is over when the sessions that were registered are gone. It does not wait for
those that somebody else has taken off their ports: when it is over nothing is left but
what goes on in them, and nothing at all if whoever released them waited, too.
-/

namespace RtpBroker

namespace Exchange

variable {c : PlaySetup} {x x' : Exchange} {i : Nat} {s : Session}

/-! ## The gauge of sessions -/

theorem Stir.gauge (h : Stir c x x') : x'.metrics.sessions = x.metrics.sessions := by
  cases h with
  | move => exact gauge_performs _ _
  | note _ h => exact h.sessions
  | _ => rfl

theorem Gauged.leave (hx : x.Gauged) (hi : x.sessions[i]? = some s)
    (hs : s.standing = .registered) : (x.leave i).Gauged := by
  obtain ⟨before, after, hsplit, hleft⟩ := posts_stand hi (f := fun s => (s.leave, []))
    (show s.leave.post = (s.port, .leaving) from rfl)
  have hposts : (x.leave i).posts = before ++ (s.port, .leaving) :: after := hleft
  have hregistered : (x.leave i).registered.length + 1 = x.registered.length := by
    rw [length_registered, length_registered, hsplit, hposts]
    simp [Session.post, hs]
    omega
  have hgauge : (x.leave i).metrics.sessions = x.metrics.sessions.dec := by
    rw [leave_eq hi]
    rfl
  rw [Gauged] at hx ⊢
  rw [hgauge, hx, ← hregistered]
  refine congrArg Reading.whole ?_
  omega

theorem Gauged.vacate (hx : x.Gauged) (hi : x.sessions[i]? = some s)
    (hs : s.standing = .leaving) : (x.vacate i).Gauged := by
  obtain ⟨before, after, hsplit, hgone⟩ := posts_stand hi
    (f := fun s => ({ s with standing := .gone }, [])) (show _ = (s.port, .gone) from rfl)
  have hposts : (x.vacate i).posts = before ++ (s.port, .gone) :: after := hgone
  have hgauge : (x.vacate i).metrics.sessions = x.metrics.sessions := by
    rw [Exchange.vacate, stepSession_some hi]
    rfl
  rw [Gauged, length_registered, hsplit] at hx
  rw [Gauged, length_registered, hposts, hgauge, hx]
  simp [Session.post, hs]

end Exchange

namespace Broker

variable {b b' : Broker} {i : Nat} {s : Session}

theorem Beat.gauged (h : Beat b b') (hb : b.exchange.Gauged) : b'.exchange.Gauged := by
  cases h with
  | act h =>
    cases h with
    | inside h =>
      exact Exchange.gauged_of_posts (congrArg Ledger.posts (ledger_stir h)) h.gauge hb
    | @enroll p _ _ _ hnone =>
      have hcreate := (Exchange.enlists_create (x := b.exchange) p).gauged hb
      rw [Exchange.create_none hnone] at hcreate
      exact hcreate
    | leave hi h => exact hb.leave hi h
    | vacate hi h => exact hb.vacate hi h
    | quiet i => rwa [exchange_endListener]
    | _ => exact hb
  | @enter i s r hi _ _ _ =>
    refine Exchange.gauged_of_posts (Exchange.posts_enter i r b.exchange) ?_ hb
    have henter : (b.enter i r).exchange = _ :=
      Exchange.stepSession_some (f := (·.enter b.setup.play b.now r)) hi
    rw [henter]
    exact Exchange.gauge_performs _ _
  | clock => exact hb

theorem Reachable.gauged (h : Reachable b) : b.exchange.Gauged := by
  obtain ⟨setup, calendar, b₀, hstart, hevolves⟩ := h
  induction hevolves with
  | refl =>
    rw [start_exchange hstart]
    rfl
  | tail _ hlast ih => exact hlast.gauged ih

/-! ## What is left -/

/-- Nothing is left of what was opened and accepted. -/
structure Cleared (b : Broker) : Prop where
  gone : ∀ i s, b.session? i = some s → s.standing = .gone
  ended : ∀ id ∈ b.exchange.accepted, ∃ p, p.isFinished = true ∧ b.exchange.ending? id = some p
  shown : ∀ id r, b.status? id = some r → r.phase.isFinished = true
  program : ∀ i id, ¬ b.exchange.Running i id ∧ ¬ b.exchange.Draining i id
  files : b.exchange.files = []
  gauge : b.exchange.metrics.sessions = .whole 0
  cooling : ∀ p, b.pool.isOccupied p = true → b.pool.isCooling p = true

/-- No session is taken off its port but to be torn down. -/
theorem Follows.ne_dismissed (h : Follows b b') (hb : ∀ q ∈ b.exchange.posts, q.2 ≠ .dismissed) :
    ∀ q ∈ b'.exchange.posts, q.2 ≠ .dismissed := by
  suffices hall : ∀ l, Relation.ReflTransGen (Transfer b.allocator) b.ledger l →
      ∀ q ∈ l.posts, q.2 ≠ .dismissed from hall _ h.transfers
  intro l hl
  induction hl with
  | refl => exact hb
  | tail _ hlast ih =>
    intro q hq
    cases hlast with
    | drain => exact ih q hq
    | bounce => exact ih q hq
    | enter =>
      rcases List.mem_append.mp hq with hq | hq
      · exact ih q hq
      · obtain rfl := List.mem_singleton.mp hq
        nofun
    | _ =>
      simp only [List.mem_append, List.mem_cons] at ih hq
      rcases hq with hq | rfl | hq
      · exact ih q (Or.inl hq)
      · nofun
      · exact ih q (Or.inr (Or.inr hq))

theorem Reachable.ne_dismissed (h : Reachable b) (hi : b.session? i = some s) :
    s.standing ≠ .dismissed := by
  obtain ⟨setup, calendar, b₀, hstart, hevolves⟩ := h
  have hnone : ∀ q ∈ b₀.exchange.posts, q.2 ≠ .dismissed := by
    rw [start_exchange hstart]
    nofun
  exact hevolves.follows.ne_dismissed hnone s.post
    (List.mem_of_getElem? (Exchange.post_of_session hi))

theorem leavingPorts_eq_nil : b.leavingPorts = [] ↔ ∀ i, ¬ Leaving i b := by
  rw [leavingPorts, List.map_eq_nil_iff, List.filter_eq_nil_iff]
  constructor
  · rintro hnone i ⟨s, hi, hs⟩
    exact hnone s (List.mem_of_getElem? hi) (by simp [hs])
  · intro hnone s hs hstanding
    obtain ⟨i, hi⟩ := List.mem_iff_getElem?.mp hs
    exact hnone i ⟨s, hi, by simpa using hstanding⟩

/-- Once nobody is registered and no teardown is on, all sessions are gone. -/
theorem Reachable.gone (hb : Reachable b) (hports : b.exchange.ports = [])
    (hleaving : b.leavingPorts = []) (hi : b.session? i = some s) : s.standing = .gone := by
  cases hs : s.standing with
  | gone => rfl
  | dismissed => exact absurd hs (hb.ne_dismissed hi)
  | registered =>
    have hport := mem_registeredPorts.mpr ⟨i, s, hi, hs, rfl⟩
    rw [hports] at hport
    cases hport
  | leaving => exact absurd ⟨s, hi, hs⟩ (leavingPorts_eq_nil.mp hleaving i)

theorem Reachable.cleared (hb : Reachable b) (hports : b.exchange.ports = [])
    (hleaving : b.leavingPorts = []) : Cleared b := by
  have hx := hb.arises
  have hgone : ∀ (i : Nat) s, b.session? i = some s → s.standing = .gone :=
    fun i s hi => hb.gone hports hleaving hi
  have hidle : ∀ (i : Nat) s, b.session? i = some s → s.playbacks = [] :=
    fun i s hi => (hb.placed i s hi).idle (hgone i s hi)
  have hended : ∀ id, b.exchange.story id ≠ [] →
      ∃ p, p.isFinished = true ∧ b.exchange.ending? id = some p := by
    intro id hne
    obtain ⟨i, p, hl⟩ := hx.lives id
    refine hl.ended_of_hidden hne ?_
    by_contra hshown
    obtain ⟨s, hi⟩ := hl.known hshown
    refine hshown ((hl.here s hi).symm.trans ?_)
    exact Session.condition?_of_not_mem (by simp [hidle i s hi])
  have hslot : ∀ i (s : Session), b.session? i = some s → s.slot = none := fun i s hi => by
    have hnone := (List.append_eq_nil_iff.mp (hidle i s hi)).2
    simpa using hnone
  refine ⟨hgone, fun id hid => hended id (hx.mem_accepted.mp hid), fun id r hr => ?_,
    fun i id => ?_, ?_, ?_, fun p hp => ?_⟩
  · obtain ⟨p, hp, hend⟩ := hended id (hx.known_of_record hr)
    rw [hx.ending?_of_record hr] at hend
    split at hend
    · assumption
    · cases hend
  · refine not_or.mp (hx.holds_iff.not.mp ?_)
    rintro ⟨s, st, hi, hst, -⟩
    cases (hslot i s hi).symm.trans hst
  · refine List.eq_nil_iff_forall_not_mem.mpr fun f hf => ?_
    obtain ⟨i, s, st, hi, hst, -⟩ := hb.holds_of_file hf
    cases (hslot i s hi).symm.trans hst
  · have hlength := congrArg List.length hports
    rw [Exchange.ports, List.length_mergeSort, List.length_map] at hlength
    have hgauge := hb.gauged
    rwa [Exchange.Gauged, hlength] at hgauge
  · have hmem := (ports_perm hb.conserved).mem_iff.mp (PortPool.mem_ports.mpr hp)
    rw [hports, hleaving] at hmem
    exact PortPool.mem_coolingPorts.mp hmem

theorem Cleared.leavingPorts (h : Cleared b) : b.leavingPorts = [] := by
  refine leavingPorts_eq_nil.mpr ?_
  rintro i ⟨s, hi, hs⟩
  cases hs.symm.trans (h.gone i s hi)

/-- From a shutdown on, as long as no session is opened, one caller has all registered ports before
it, so none is registered when it is through. The gauge shows how many there are, and no sweep
begins. Once none is registered, nothing is left of the sessions and their playbacks exactly if no
teardown is on. If somebody waited for every teardown that was on at the shutdown, and none was
begun since for which nobody waits, then nothing is left when nobody waits any more. -/
theorem shutDown_clears {setup : BrokerSetup} {calendar : Timestamp} {b₀ : Broker}
    (hstart : start setup calendar = .ok b₀) {before after : List Event}
    (hfair : ∀ e ∈ before ++ .shutDown :: after, e.Fair b₀.allocator.range)
    (hfresh : Fresh (before ++ .shutDown :: after)) (hopens : ∀ e ∈ after, ¬ e.Opens) :
    let b := b₀.run (before ++ .shutDown :: after)
    Covered b.errands b ∧
    b.exchange.metrics.sessions = .whole b.exchange.registered.length ∧
    NoSweep (b₀.run before) b ∧ (∀ r ∈ b.reapers, r.isResting = false) ∧
    (b.exchange.ports = [] → (Cleared b ↔ b.leavingPorts = [])) ∧
    (Attended (b₀.run before) → (∀ e ∈ after, ¬ e.Abandons) → b.pending = [] → Cleared b) := by
  intro b
  have hreachable : b.Reachable := run_reachable hstart hfair hfresh
  have hb : b = (b₀.run before).shutDown.run after := run_append before (.shutDown :: after) b₀
  have hbefore : (b₀.run before).Reachable := by
    have htake := run_take_reachable hstart hfair hfresh before.length
    rwa [List.take_left] at htake
  have hshut := shutDown_windsUp hbefore.conserved
  obtain ⟨hclosing, hnone⟩ := run_closing after hopens hshut.closing
  rw [← hb] at hclosing hnone
  refine ⟨hclosing.covered, hreachable.gauged, hshut.noSweep.trans hnone, hclosing.resting,
    fun hports => ⟨Cleared.leavingPorts, hreachable.cleared hports⟩,
    fun hattended habandons hpending => ?_⟩
  have hwinds := hshut.trans (run_windsUp after hopens habandons hshut.closing)
  rw [← hb] at hwinds
  have herrands : b.errands = [] := (List.append_eq_nil_iff.mp hpending).1
  have hports : b.exchange.ports = [] := by
    rcases hclosing.covered with hnil | ⟨e, he, -⟩
    · exact hnil
    · rw [herrands] at he
      cases he
  refine hreachable.cleared hports (leavingPorts_eq_nil.mpr fun i hi => ?_)
  obtain ⟨e, he, -⟩ := hwinds.attended hattended i hi
  rw [hpending] at he
  cases he

/-- A program ends, and its error output is held open. -/
def heldOutput : List Event := [
  .startReaper 100 none 60, .openSession ⟨fun _ _ => 10002, fun _ _ => none⟩,
  .receive 0 ⟨.v4 192 0 2 1, 5004, 0⟩, .play 10002 ⟨#[1]⟩ none ⟨1⟩,
  .endProgram 0 (.exit (some 0)) true]

def tidySetup : BrokerSetup where
  low := 10000
  high := 10007
  play := { host := { directories := ["/tmp"] } }

/-- The shutdown waits for the session, and no sweep begins meanwhile. -/
theorem shutDown_clears_heldOutput :
    ∃ b₀, start tidySetup ⟨0, 0⟩ = .ok b₀ ∧
      (b₀.run (heldOutput ++ [.shutDown])).errands.length = 1 ∧
      Cleared (b₀.run (heldOutput ++ .shutDown :: [.advance 501])) ∧
      NoSweep (b₀.run heldOutput) (b₀.run (heldOutput ++ .shutDown :: [.advance 501])) := by
  obtain ⟨b₀, hstart, hwaits, hleaving, hpending⟩ :
      ∃ b₀, start tidySetup ⟨0, 0⟩ = .ok b₀ ∧
        (b₀.run (heldOutput ++ [.shutDown])).errands.length = 1 ∧
        (b₀.run heldOutput).leavingPorts = [] ∧
        (b₀.run (heldOutput ++ .shutDown :: [.advance 501])).pending.length = 0 :=
    ⟨_, rfl, by decide +kernel, by decide +kernel, by decide +kernel⟩
  have hfair := fair_of_draw (heldOutput ++ .shutDown :: [.advance 501]) 10002 hstart (by decide)
    (by simp [heldOutput])
  have hattended : Attended (b₀.run heldOutput) :=
    fun i hi => absurd hi (leavingPorts_eq_nil.mp hleaving i)
  obtain ⟨-, -, hnone, -, -, hcleared⟩ :=
    shutDown_clears hstart hfair (by decide) (by simp [Event.Opens])
  exact ⟨b₀, hstart, hwaits, hcleared hattended (by simp [Event.Abandons])
    (List.length_eq_zero_iff.mp hpending), hnone⟩

/-- The session is released before the shutdown, and nobody waits for it. -/
def abandoned : List Event := heldOutput ++ [.release 10002, .shutDown]

/-- A shutdown is over at once that does not wait for a session released before. The playback of the
session is still streaming then, its file is there, and its port does not cool. -/
theorem not_shutDown_clears :
    ∃ b₀, start tidySetup ⟨0, 0⟩ = .ok b₀ ∧ (∀ e ∈ abandoned, e.Fair b₀.allocator.range) ∧
      Fresh abandoned ∧ (b₀.run abandoned).errands = [] ∧
      (b₀.run abandoned).exchange.ports = [] ∧ (b₀.run abandoned).leavingPorts = [10002] ∧
      (∃ r, (b₀.run abandoned).status? ⟨1⟩ = some r ∧ r.phase = .streaming) ∧
      (b₀.run abandoned).exchange.files ≠ [] ∧
      (b₀.run abandoned).pool.isOccupied 10002 = true ∧
      (b₀.run abandoned).pool.isCooling 10002 = false ∧ ¬ Cleared (b₀.run abandoned) := by
  obtain ⟨b₀, hstart, herrands, hports, hleaving, hphase, hfiles, hoccupied, hcooling⟩ :
      ∃ b₀, start tidySetup ⟨0, 0⟩ = .ok b₀ ∧ (b₀.run abandoned).errands.length = 0 ∧
        (b₀.run abandoned).exchange.ports = [] ∧ (b₀.run abandoned).leavingPorts = [10002] ∧
        ((b₀.run abandoned).status? ⟨1⟩).map (·.phase) = some .streaming ∧
        (b₀.run abandoned).exchange.files.length = 1 ∧
        (b₀.run abandoned).pool.isOccupied 10002 = true ∧
        (b₀.run abandoned).pool.isCooling 10002 = false :=
    ⟨_, rfl, by decide +kernel, by decide +kernel, by decide +kernel, by decide +kernel,
      by decide +kernel, by decide +kernel, by decide +kernel⟩
  have hfair := fair_of_draw abandoned 10002 hstart (by decide) (by simp [abandoned, heldOutput])
  refine ⟨b₀, hstart, hfair, by decide, List.length_eq_zero_iff.mp herrands, hports, hleaving, ?_,
    fun hnil => ?_, hoccupied, hcooling, fun h => ?_⟩
  · simpa only [Option.map_eq_some_iff] using hphase
  · rw [hnil] at hfiles
    cases hfiles
  · cases hleaving.symm.trans h.leavingPorts

end Broker

end RtpBroker
