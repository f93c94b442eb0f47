import RtpBroker.Proofs.Errands

/-!
# Winding up

A broker that is shut down winds up, as long as no session is opened: no reaper begins
to sweep again, one of the callers has all registered ports before it, and nobody stops
waiting for a session that it took off its port.
-/

namespace RtpBroker

/-- What a reaper has still to release in its sweep. -/
def Reaper.errand? (r : Reaper) : Option Errand :=
  match r.stage with
  | .sweeping e => some e
  | _ => none

namespace Broker

/-- All that somebody waits for. -/
def pending (b : Broker) : List Errand := b.errands ++ b.reapers.filterMap Reaper.errand?

/-- Every session being torn down is waited for by somebody. -/
def Attended (b : Broker) : Prop := ∀ i, Leaving i b → Awaits i b.pending

/-- How often each reaper has begun to sweep. -/
def sweepCounts (b : Broker) : List Nat := b.reapers.map (·.sweeps)

variable {b b' b'' : Broker} {p : Port} {i k : Nat} {s : Session} {es es' : List Errand}

/-! ## To be shut down -/

/-- What holds from a shutdown on: nobody will sweep again, and somebody is about to release whoever
is registered. -/
structure Closing (b : Broker) : Prop where
  conserved : Ledger.Conserved b.allocator.range b.ledger
  stopped : b.stopped = true
  resting : ∀ r ∈ b.reapers, r.isResting = false
  covered : Covered b.errands b

/-- Nobody has begun to sweep, and who has come since never has. -/
def NoSweep (b b' : Broker) : Prop :=
  ∃ n, b'.sweepCounts = b.sweepCounts ++ List.replicate n 0

theorem noSweep_of_eq (h : b'.sweepCounts = b.sweepCounts) : NoSweep b b' :=
  ⟨0, by rw [h, List.replicate_zero, List.append_nil]⟩

theorem NoSweep.trans (h : NoSweep b b') (h' : NoSweep b' b'') : NoSweep b b'' := by
  obtain ⟨n, hn⟩ := h
  obtain ⟨n', hn'⟩ := h'
  exact ⟨n + n', by rw [hn', hn, List.append_assoc, List.replicate_append_replicate]⟩

/-- The broker is shut down and goes on. -/
structure WindsUp (b b' : Broker) : Prop where
  closing : Closing b'
  noSweep : NoSweep b b'
  attended : Attended b → Attended b'

theorem WindsUp.refl (hb : Closing b) : WindsUp b b := ⟨hb, noSweep_of_eq rfl, fun h => h⟩

theorem WindsUp.trans (h : WindsUp b b') (h' : WindsUp b' b'') : WindsUp b b'' :=
  ⟨h'.closing, h.noSweep.trans h'.noSweep, fun hb => h'.attended (h.attended hb)⟩

theorem windsUp_foldl {α : Type} {f : Broker → α → Broker}
    (hf : ∀ b k, Closing b → WindsUp b (f b k)) (ks : List α) (hb : Closing b) :
    WindsUp b (ks.foldl f b) := by
  induction ks generalizing b with
  | nil => exact .refl hb
  | cons k ks ih => exact (hf b k hb).trans (ih (hf b k hb).closing)

theorem Thins.closing (h : Thins b b') (hb : Closing b) : Closing b' where
  conserved := h.follows.conserved hb.conserved
  stopped := h.stopped.trans hb.stopped
  resting := h.reapers ▸ hb.resting
  covered := by
    rw [h.errands]
    exact hb.covered.mono h.ports (List.Subset.refl _)

theorem Thins.noSweep (h : Thins b b') : NoSweep b b' :=
  noSweep_of_eq (congrArg (List.map Reaper.sweeps) h.reapers)

theorem Thins.pending (h : Thins b b') : b'.pending = b.pending := by
  rw [Broker.pending, h.errands, h.reapers]
  rfl

theorem Calm.windsUp (h : Calm b b') (hb : Closing b) : WindsUp b b' := by
  refine ⟨h.closing hb, h.noSweep, fun hattended i hi => ?_⟩
  rw [h.pending]
  exact hattended i (h.leaving i hi)

/-- Who carries on with errands among all that are pending leaves nobody unattended. -/
theorem CarriesOn.attended (h : CarriesOn es b es' b') (hb : ∀ i, Leaving i b → Awaits i es)
    (hi : Leaving i b') : Awaits i es' :=
  (h.leaving i hi).resolve_left fun ⟨hleaving, hnot⟩ => hnot (hb i hleaving)

/-! ## Reapers -/

theorem catchUp_of_not_resting {n : Nat} {r : Reaper} (h : r.isResting = false) :
    catchUp k n r b = b := by
  cases n with
  | zero => rfl
  | succ n =>
    unfold catchUp
    rw [if_neg (by simp [h])]

theorem ringReaper_windsUp (k : Nat) (hb : Closing b) : WindsUp b (b.ringReaper k) := by
  have hsame : b.ringReaper k = b := by
    unfold ringReaper
    split
    · rfl
    · next r hr => exact catchUp_of_not_resting (hb.resting r (List.mem_of_getElem? hr))
  rw [hsame]
  exact .refl hb

theorem prune_calm (retention : Nat) (b : Broker) :
    Calm b { b with exchange := (b.exchange.prune retention).2 } :=
  calm_of_stirs (Exchange.prune_stirs _ _ retention)

/-- What becomes of a reaper after the releases of its sweep. -/
def stageAfter (r : Reaper) (b : Broker) : ReaperStage :=
  match (b.exchange.prune r.retention).1 with
  | .error _ => .ended
  | .ok _ => if b.stopped then .ended else .resting

theorem afterSweep_eq (k : Nat) (r : Reaper) (b : Broker) :
    ∃ b', Acts b b' ∧ Calm b b' ∧ b.afterSweep k r =
      ({ r with stage := b.stageAfter r }, b'.setReaper k { r with stage := b.stageAfter r }) := by
  let drained : Broker := { b with pool := b.allocator.drain b.now b.pool }
  let pruned : Broker := { drained with exchange := (drained.exchange.prune r.retention).2 }
  have hdrained : Calm b drained :=
    calm_of_posts (Acts.follows (.single (.drain b))) rfl rfl rfl rfl
  have hacts : Acts b pruned :=
    .head (.drain b) (acts_of_stirs (b := drained) (Exchange.prune_stirs _ _ r.retention))
  refine ⟨pruned, hacts, hdrained.trans (prune_calm r.retention drained), ?_⟩
  unfold afterSweep stageAfter
  dsimp only [pruned, drained]
  split <;> next hprune => rw [hprune]

/-- The last thing that a reaper does after a shutdown is to end. -/
theorem stageAfter_of_stopped (r : Reaper) (hstopped : b.stopped = true) :
    b.stageAfter r = .ended := by
  unfold stageAfter
  split
  · rfl
  · rw [if_pos hstopped]

/-- A reaper in the midst of its sweep carries on with it, and ends when it is through. -/
theorem resumeReaper_cases (hb : Closing b) (k : Nat) : b.resumeReaper k = b ∨
    ∃ r e r' b', b.reapers[k]? = some r ∧ r.errand? = some e ∧ r'.sweeps = r.sweeps ∧
      r'.isResting = false ∧ r'.errand? = (b.resume e).1 ∧ Calm (b.resume e).2 b' ∧
      b.resumeReaper k = b'.setReaper k r' := by
  unfold resumeReaper
  split
  · exact Or.inl rfl
  · next r hr =>
    split
    · next e hstage =>
      refine Or.inr ?_
      have hresume := resume_carriesOn e hb.conserved
      have herrand : r.errand? = some e := by simp [Reaper.errand?, hstage]
      split
      · next e' b' heq =>
        rw [heq] at hresume
        refine ⟨r, e, { r with stage := .sweeping e' }, b', hr, herrand, rfl, rfl, ?_, ?_, rfl⟩
        · rw [heq]
          rfl
        · rw [heq]
          exact .refl b'
      · next b' heq =>
        rw [heq] at hresume
        obtain ⟨swept, -, hcalm, hafter⟩ := afterSweep_eq k r b'
        rw [stageAfter_of_stopped r (hresume.stopped.trans hb.stopped)] at hafter
        refine ⟨r, e, { r with stage := .ended }, swept, hr, herrand, rfl, rfl, ?_, ?_, ?_⟩
        · rw [heq]
          rfl
        · rw [heq]
          exact hcalm
        · rw [hafter]
          exact catchUp_of_not_resting rfl
    · exact Or.inl rfl

theorem resumeReaper_windsUp (hb : Closing b) (k : Nat) : WindsUp b (b.resumeReaper k) := by
  rcases resumeReaper_cases hb k with heq | ⟨r, e, r', b', hr, herrand, hsweeps, hresting, hrest,
    hcalm, heq⟩
  · rw [heq]
    exact .refl hb
  · have hresume := resume_carriesOn e hb.conserved
    have hthins := hresume.toThins.trans hcalm.toThins
    obtain ⟨hlt, rfl⟩ := List.getElem?_eq_some_iff.mp hr
    obtain ⟨before, after, hsplit, -, hset⟩ :
        ∃ before after, b.reapers = before ++ b.reapers[k] :: after ∧ before.length = k ∧
          b.reapers.set k r' = before ++ r' :: after := List.exists_of_set hlt
    have hreapers : (b'.setReaper k r').reapers = before ++ r' :: after := by
      rw [← hset, ← hthins.reapers]
      rfl
    rw [heq]
    refine ⟨⟨?_, ?_, fun r hr' => ?_, ?_⟩, noSweep_of_eq ?_, fun hattended i hi => ?_⟩
    · exact hthins.follows.conserved hb.conserved
    · exact hthins.stopped.trans hb.stopped
    · rw [hreapers] at hr'
      rcases List.mem_append.mp hr' with hmem | hmem
      · exact hb.resting r (by rw [hsplit]; simp [hmem])
      · rcases List.mem_cons.mp hmem with rfl | hmem
        · exact hresting
        · exact hb.resting r (by rw [hsplit]; simp [hmem])
    · exact (hthins.closing hb).covered
    · rw [sweepCounts, sweepCounts, hreapers, hsplit]
      simp [hsweeps]
    · -- The errand of the reaper is one of those pending, in the midst of the others.
      have hpending : b.pending =
          (b.errands ++ before.filterMap Reaper.errand?) ++ [e] ++
            after.filterMap Reaper.errand? := by
        rw [pending, hsplit]
        simp [herrand]
      have hpending' : (b'.setReaper k r').pending =
          (b.errands ++ before.filterMap Reaper.errand?) ++ (b.resume e).1.toList ++
            after.filterMap Reaper.errand? := by
        rw [pending, hreapers, show (b'.setReaper k r').errands = b.errands from hthins.errands]
        cases hopt : (b.resume e).1 <;> simp [hrest, hopt]
      rw [hpending']
      refine (hresume.frame _ _).attended (fun j hj => hpending ▸ hattended j hj) ?_
      exact hcalm.leaving i hi

/-! ## Settling -/

theorem resumeAll_windsUp (hb : Closing b) :
    WindsUp b { (b.errands.foldl resumeNext ([], b)).2 with
      errands := (b.errands.foldl resumeNext ([], b)).1 } := by
  have hall := resumeNext_carriesOn b.errands [] hb.conserved
  rw [List.nil_append] at hall
  refine ⟨⟨hall.follows.conserved hb.conserved, hall.stopped.trans hb.stopped, ?_,
    hall.covered hb.covered⟩, hall.noSweep, fun hattended i hi => ?_⟩
  · exact hall.reapers ▸ hb.resting
  · have hframe := hall.frame [] (b.reapers.filterMap Reaper.errand?)
    have hawaits := hframe.attended (fun j hj => hattended j hj) hi
    rw [← hall.reapers] at hawaits
    exact hawaits

theorem settle_windsUp (hb : Closing b) : WindsUp b b.settle := by
  let completed := (List.range b.exchange.sessions.length).foldl completeSession b
  have hcompleted : WindsUp b completed :=
    windsUp_foldl (fun b i hb => (completeSession_calm b i).windsUp hb) _ hb
  have hresumed := resumeAll_windsUp hcompleted.closing
  exact (hcompleted.trans hresumed).trans
    (windsUp_foldl (fun b k hb => resumeReaper_windsUp hb k) _ hresumed.closing)

theorem inExchange_windsUp {f : Exchange → Exchange}
    (hf : Exchange.Bout b.setup.play b.exchange (f b.exchange)) (hb : Closing b) :
    WindsUp b (b.inExchange f) := by
  have hcalm := (calm_of_stirs hf.stirs).windsUp hb
  exact hcalm.trans (settle_windsUp hcalm.closing)

/-! ## Events -/

/-- Releases some ports, and keeps in mind what is left to do. -/
def aside (ps : List Port) (b : Broker) : Broker :=
  match b.proceed ps with
  | (some e, b) => { b with errands := b.errands ++ [e] }
  | (none, b) => b

theorem aside_eq (ps : List Port) (b : Broker) : b.aside ps =
    { (b.proceed ps).2 with
      errands := (b.proceed ps).2.errands ++ (b.proceed ps).1.toList } := by
  unfold aside
  split <;> next h => simp [h]

theorem releaseIdle_eq (limit : Nat) (b : Broker) :
    (b.releaseIdle limit).2 = b.aside (b.idlePorts limit) := by
  unfold releaseIdle aside
  dsimp only
  rcases b.proceed (b.idlePorts limit) with ⟨_ | e, b'⟩ <;> rfl

theorem aside_windsUp (ps : List Port) (hb : Ledger.Conserved b.allocator.range b.ledger)
    (hstopped : b.stopped = true) (hresting : ∀ r ∈ b.reapers, r.isResting = false)
    (hcovered : Covered (b.errands ++ [⟨ps, none⟩]) b) : WindsUp b (b.aside ps) := by
  have hproceed := proceed_carriesOn ps hb
  have herrands := hproceed.frame b.errands []
  have hpending := hproceed.frame b.errands (b.reapers.filterMap Reaper.errand?)
  rw [List.append_nil, List.append_nil] at herrands
  rw [aside_eq, hproceed.errands]
  refine ⟨⟨hproceed.follows.conserved hb, hproceed.stopped.trans hstopped,
    hproceed.reapers ▸ hresting, herrands.covered hcovered⟩, ?_, fun hattended i hi => ?_⟩
  · exact noSweep_of_eq (congrArg (List.map Reaper.sweeps) hproceed.reapers)
  · have hawaits := hpending.attended (fun j hj => ?_) hi
    · rw [← hproceed.reapers] at hawaits
      exact hawaits
    · have hj' := hattended j hj
      simp only [pending, awaits_append] at hj' ⊢
      tauto

theorem releaseIdle_windsUp (limit : Nat) (hb : Closing b) :
    WindsUp b (b.releaseIdle limit).2 := by
  rw [releaseIdle_eq]
  exact aside_windsUp _ hb.conserved hb.stopped hb.resting
    (hb.covered.mono (List.Subset.refl _) (by simp))

/-- The caller of a shutdown has all registered ports before it. -/
theorem shutDown_windsUp (hb : Ledger.Conserved b.allocator.range b.ledger) :
    WindsUp b b.shutDown := by
  let halt (r : Reaper) : Reaper := if r.isResting then { r with stage := .ended } else r
  let halted : Broker := { b with stopped := true, reapers := b.reapers.map halt }
  have hhalt : ∀ r, (halt r).sweeps = r.sweeps ∧ (halt r).isResting = false ∧
      (halt r).errand? = r.errand? := by
    intro r
    cases hstage : r.stage <;> simp [halt, Reaper.isResting, Reaper.errand?, hstage]
  have hshut : b.shutDown = halted.aside halted.exchange.ports := rfl
  have hresting : ∀ r ∈ halted.reapers, r.isResting = false := by
    intro r hr
    obtain ⟨r', -, rfl⟩ := List.mem_map.mp hr
    exact (hhalt r').2.1
  have haside : WindsUp halted (halted.aside halted.exchange.ports) :=
    aside_windsUp _ hb rfl hresting
      (Or.inr ⟨_, List.mem_append_right _ (List.mem_singleton_self _), List.Subset.refl _⟩)
  have hsweeps : halted.sweepCounts = b.sweepCounts := by simp [halted, sweepCounts, hhalt]
  have hpending : halted.pending = b.pending := by
    simp [pending, halted, List.filterMap_map, hhalt]
  rw [hshut]
  refine ⟨haside.closing, (noSweep_of_eq hsweeps).trans haside.noSweep, fun hattended => ?_⟩
  refine haside.attended fun i hi => ?_
  rw [hpending]
  exact hattended i hi

theorem startReaper_windsUp (interval : Nat) (idleLimit : Option Nat) (retention : Nat)
    (hb : Closing b) : WindsUp b (b.startReaper interval idleLimit retention) := by
  let r : Reaper := { start := b.now, interval, idleLimit, retention, stage := .ended }
  have hstart : b.startReaper interval idleLimit retention =
      { b with reapers := b.reapers ++ [r] } := by
    simp [startReaper, hb.stopped, Reaper.isResting, r]
  rw [hstart]
  refine ⟨⟨hb.conserved, hb.stopped, fun r' hr' => ?_, hb.covered⟩, ⟨1, ?_⟩,
    fun hattended i hi => ?_⟩
  · rcases List.mem_append.mp hr' with hr' | hr'
    · exact hb.resting r' hr'
    · obtain rfl := List.mem_singleton.mp hr'
      rfl
  · simp [sweepCounts, r]
  · have hpending : ({ b with reapers := b.reapers ++ [r] } : Broker).pending = b.pending := by
      simp [pending, Reaper.errand?, r]
    rw [hpending]
    exact hattended i hi

theorem ring_windsUp (a : Alarm) (hb : Closing b) : WindsUp b (b.ring a) := by
  unfold ring
  split
  · exact inExchange_windsUp (.ring a) hb
  · exact ringReaper_windsUp _ hb

theorem clock_calm (now : Nat) (agenda : Agenda) (b : Broker) :
    Calm b { b with exchange := { b.exchange with now, agenda } } :=
  calm_of_posts (.of_ledger rfl rfl rfl) rfl rfl rfl rfl

theorem fire_windsUp (time : Nat) (hb : Closing b) : WindsUp b (b.fire time) := by
  have hlater := (clock_calm time (b.exchange.agenda.after time) b).windsUp hb
  exact hlater.trans (windsUp_foldl (fun b a hb => ring_windsUp a hb) _ hlater.closing)

theorem advance_windsUp (ms : Nat) (hb : Closing b) : WindsUp b (b.advance ms) := by
  have hfire : ∀ now time (b' : Broker), WindsUp b b' →
      b'.exchange.agenda.nextAfter? now = some time → time ≤ b.now + ms →
      WindsUp b (b'.fire time) :=
    fun _ time b' h _ _ => h.trans (fire_windsUp time h.closing)
  obtain ⟨-, -, -, hrun, -⟩ := Agenda.run_induct hfire (.refl hb) (Nat.le_add_right b.now ms)
  exact hrun.trans ((clock_calm (b.now + ms) _ _).windsUp hrun.closing)

/-- Whether a session may be opened. -/
def Event.Opens : Event → Prop
  | .openSession _ => True
  | _ => False

/-- Whether a session may be taken off its port and nobody waits for its teardown. -/
def Event.Abandons : Event → Prop
  | .release _ | .detach _ => True
  | _ => False

theorem step_windsUp (e : Event) (hopens : ¬ e.Opens) (habandons : ¬ e.Abandons)
    (hb : Closing b) : WindsUp b (b.step e) := by
  cases e with
  | openSession chance => exact absurd trivial hopens
  | release port => exact absurd trivial habandons
  | detach port => exact absurd trivial habandons
  | complete session => exact (completeSession_calm b session).windsUp hb
  | play port payload format id =>
    have hposts : (b.play port payload format id).2.exchange.posts = b.exchange.posts :=
      Exchange.posts_play _ _ _ _ _ _
    exact (calm_of_posts (play_follows port payload format id b) hposts rfl rfl rfl).windsUp hb
  | receive session sender =>
    unfold step receive
    dsimp only
    split
    · split
      · exact inExchange_windsUp (.receive session sender) hb
      · exact .refl hb
    · exact .refl hb
  | endProgram session ending held =>
    exact inExchange_windsUp (.endProgram session ending held) hb
  | closeOutput session => exact inExchange_windsUp (.closeOutput session) hb
  | releaseIdle limit => exact releaseIdle_windsUp limit hb
  | startReaper interval idleLimit retention =>
    exact startReaper_windsUp interval idleLimit retention hb
  | shutDown => exact shutDown_windsUp hb.conserved
  | advance ms => exact advance_windsUp ms hb

theorem step_closing (e : Event) (hopens : ¬ e.Opens) (hb : Closing b) :
    Closing (b.step e) ∧ NoSweep b (b.step e) := by
  cases e with
  | release port =>
    have hthins := release_thins hb.conserved port
    exact ⟨hthins.closing hb, hthins.noSweep⟩
  | detach port =>
    have hthins := detach_thins hb.conserved port
    exact ⟨hthins.closing hb, hthins.noSweep⟩
  | _ =>
    have hwinds := step_windsUp _ hopens (fun h => h) hb
    exact ⟨hwinds.closing, hwinds.noSweep⟩

theorem run_windsUp (events : List Event) (hopens : ∀ e ∈ events, ¬ e.Opens)
    (habandons : ∀ e ∈ events, ¬ e.Abandons) (hb : Closing b) : WindsUp b (b.run events) := by
  induction events generalizing b with
  | nil => exact .refl hb
  | cons e events ih =>
    have hstep := step_windsUp e (hopens e (List.mem_cons_self ..))
      (habandons e (List.mem_cons_self ..)) hb
    exact hstep.trans (ih (fun e' he' => hopens e' (List.mem_cons_of_mem _ he'))
      (fun e' he' => habandons e' (List.mem_cons_of_mem _ he')) hstep.closing)

theorem run_closing (events : List Event) (hopens : ∀ e ∈ events, ¬ e.Opens) (hb : Closing b) :
    Closing (b.run events) ∧ NoSweep b (b.run events) := by
  induction events generalizing b with
  | nil => exact ⟨hb, noSweep_of_eq rfl⟩
  | cons e events ih =>
    obtain ⟨hclosing, hnone⟩ := step_closing e (hopens e (List.mem_cons_self ..)) hb
    obtain ⟨hclosing', hnone'⟩ :=
      ih (fun e' he' => hopens e' (List.mem_cons_of_mem _ he')) hclosing
    exact ⟨hclosing', hnone.trans hnone'⟩

end Broker

end RtpBroker
