import RtpBroker.Proofs.Opening
import RtpBroker.Proofs.Retiring
import RtpBroker.Proofs.WindingUp

/-!
# Reapers keep their pace

A sweep over idle sessions has nobody to wait for, so a reaper is through with it at
once, and sets its alarm for the next one. The clock passes over no alarm. So a reaper
sweeps when its alarm rings and at no other time, and once it has ended it never does.
-/

namespace RtpBroker

namespace Exchange

variable {c : PlaySetup} {cues : List Session.Cue} {x x' : Exchange}

theorem Step.agenda (h : Step c cues x x') : x.agenda ⊆ x'.agenda := by
  cases h with
  | move =>
    rw [agenda_performs]
    exact List.subset_append_left _ _
  | _ => exact List.Subset.refl _

theorem Steps.agenda (h : Steps c cues x x') : x.agenda ⊆ x'.agenda := by
  induction h with
  | refl => exact List.Subset.refl _
  | tail _ hlast ih => exact List.Subset.trans ih hlast.agenda

theorem Change.agenda (h : Change c x x') : x.agenda ⊆ x'.agenda := by
  rcases h.steps with ⟨_, -, hsteps⟩ | ⟨_, _, rfl⟩
  · exact hsteps.agenda
  · exact List.subset_append_left _ _

end Exchange

namespace Reaper

variable {r : Reaper}

theorem isResting_of_resting (h : r.stage = .resting) : r.isResting = true := by
  simp [isResting, h]

theorem isResting_of_ended (h : r.stage = .ended) : r.isResting = false := by
  simp [isResting, h]

theorem errand?_of_resting (h : r.stage = .resting) : r.errand? = none := by
  simp [errand?, h]

theorem errand?_of_ended (h : r.stage = .ended) : r.errand? = none := by
  simp [errand?, h]

/-- What a shutdown makes of a reaper that is not in the midst of a sweep. -/
theorem halt_of_through (h : r.errand? = none) :
    (if r.isResting then { r with stage := .ended } else r) = { r with stage := .ended } := by
  obtain ⟨start, interval, idleLimit, retention, sweeps, stage⟩ := r
  cases stage with
  | resting => rfl
  | sweeping e => cases h
  | ended => rfl

end Reaper

/-- One reaper, earlier and later. -/
structure Reaper.Same (r r' : Reaper) : Prop where
  start : r'.start = r.start
  interval : r'.interval = r.interval
  idleLimit : r'.idleLimit = r.idleLimit
  retention : r'.retention = r.retention

/-- What becomes of a reaper at the time `t`: it may make the sweep that is due then. -/
structure Reaper.Paced (t : Nat) (r r' : Reaper) : Prop extends r.Same r' where
  sweeps : r'.sweeps = r.sweeps ∨ r'.sweeps = r.sweeps + 1 ∧ r.due = t ∧ 0 < r.interval
  ended : r.stage = .ended → r' = r

namespace Reaper

variable {r r' r'' : Reaper} {t : Nat}

theorem Same.refl (r : Reaper) : r.Same r := ⟨rfl, rfl, rfl, rfl⟩

theorem Same.trans (h : r.Same r') (h' : r'.Same r'') : r.Same r'' :=
  ⟨h'.start.trans h.start, h'.interval.trans h.interval, h'.idleLimit.trans h.idleLimit,
    h'.retention.trans h.retention⟩

theorem Paced.refl (t : Nat) (r : Reaper) : r.Paced t r :=
  ⟨.refl r, Or.inl rfl, fun _ => rfl⟩

/-- No two sweeps are due at one time. -/
theorem Paced.trans (h : r.Paced t r') (h' : r'.Paced t r'') : r.Paced t r'' := by
  refine ⟨h.toSame.trans h'.toSame, ?_, fun hended => ?_⟩
  · rcases h.sweeps with hsame | ⟨hone, hdue, hinterval⟩
    · have hdue : r.due = r'.due := by rw [due, due, h.start, h.interval, hsame]
      rw [← hsame, ← h.interval, hdue]
      exact h'.sweeps
    · refine Or.inr ⟨?_, hdue, hinterval⟩
      rcases h'.sweeps with hsame | ⟨-, hdue', -⟩
      · exact hsame.trans hone
      · rw [due, h.start, h.interval, hone, Nat.succ_mul] at hdue'
        rw [due] at hdue
        omega
  · obtain rfl := h.ended hended
    exact h'.ended hended

end Reaper

namespace Broker

variable {b b' b'' : Broker} {rem : List Alarm} {k : Nat} {r r' r'' : Reaper} {t : Nat}

/-! ## On time -/

/-- A reaper is not in the midst of a sweep, and if it rests the alarm for its next sweep is set, or
is among those that ring now. -/
structure OnTime (rem : List Alarm) (b : Broker) (k : Nat) (r : Reaper) : Prop where
  through : r.errand? = none
  made : r.start + r.sweeps * r.interval ≤ b.now
  next : r.stage = .resting → 0 < r.interval ∧ b.stopped = false ∧
    (b.now < r.due ∧ ⟨r.due, .reaper k⟩ ∈ b.exchange.agenda ∨
      b.now = r.due ∧ ⟨r.due, .reaper k⟩ ∈ rem)

/-- What holds whenever it is a reaper's turn; `rem` are the alarms that ring now. -/
structure Regular (rem : List Alarm) (b : Broker) : Prop where
  tidy : b.Tidy
  onTime : ∀ (k : Nat) r, b.reapers[k]? = some r → OnTime rem b k r

theorem OnTime.stage (h : OnTime rem b k r) : r.stage = .resting ∨ r.stage = .ended := by
  have hthrough := h.through
  cases hstage : r.stage with
  | resting => exact Or.inl rfl
  | sweeping e => simp [Reaper.errand?, hstage] at hthrough
  | ended => exact Or.inr rfl

theorem OnTime.of_ended (hstage : r.stage = .ended) (hmade : r.start + r.sweeps * r.interval ≤ b.now) :
    OnTime rem b k r :=
  ⟨Reaper.errand?_of_ended hstage, hmade, fun hresting => by simp [hstage] at hresting⟩

theorem start_regular {setup : BrokerSetup} {calendar : Timestamp}
    (h : start setup calendar = .ok b) : Regular [] b := by
  obtain ⟨-, -, hledger⟩ := start_ok h
  obtain ⟨range, -, rfl⟩ := start_eq h
  exact ⟨⟨hledger ▸ .empty _, fun i s hi => by cases hi⟩, fun k r hr => by cases hr⟩

/-! ## Without the reapers -/

/-- The broker goes on at one time, and no reaper takes part. -/
structure Unswept (b b' : Broker) : Prop where
  follows : Follows b b'
  placed : b.exchange.Placed → b'.exchange.Placed
  now : b'.now = b.now
  agenda : b.exchange.agenda ⊆ b'.exchange.agenda
  reapers : b'.reapers = b.reapers
  stopped : b'.stopped = b.stopped

theorem Unswept.refl (b : Broker) : Unswept b b :=
  ⟨.refl b, fun hb => hb, rfl, List.Subset.refl _, rfl, rfl⟩

theorem Unswept.trans (h : Unswept b b') (h' : Unswept b' b'') : Unswept b b'' :=
  ⟨h.follows.trans h'.follows, fun hb => h'.placed (h.placed hb), h'.now.trans h.now,
    List.Subset.trans h.agenda h'.agenda, h'.reapers.trans h.reapers, h'.stopped.trans h.stopped⟩

theorem unswept_foldl {α : Type} {f : Broker → α → Broker} (hf : ∀ b a, Unswept b (f b a))
    (as : List α) (b : Broker) : Unswept b (as.foldl f b) := by
  induction as generalizing b with
  | nil => exact .refl b
  | cons a as ih => exact (hf b a).trans (ih (f b a))

theorem Acts.agenda (h : Acts b b') : b.exchange.agenda ⊆ b'.exchange.agenda := by
  induction h with
  | refl => exact List.Subset.refl _
  | tail _ hlast ih =>
    rcases hlast.change with heq | hchange
    · exact heq ▸ ih
    · exact List.Subset.trans ih hchange.agenda

theorem Acts.placed (h : Acts b b') (hb : b.exchange.Placed) : b'.exchange.Placed := by
  induction h with
  | refl => exact hb
  | tail _ hlast ih =>
    rcases hlast.change with heq | hchange
    · exact heq ▸ ih
    · exact hchange.shift.placed ih

theorem Acts.unswept (h : Acts b b') (hreapers : b'.reapers = b.reapers)
    (hstopped : b'.stopped = b.stopped) : Unswept b b' :=
  ⟨h.follows, h.placed, h.now, h.agenda, hreapers, hstopped⟩

theorem Thins.unswept (h : Thins b b') (hacts : Acts b b') : Unswept b b' :=
  hacts.unswept h.reapers h.stopped

theorem Unswept.onTime (h : Unswept b b') (hr : OnTime rem b k r) : OnTime rem b' k r := by
  refine ⟨hr.through, h.now ▸ hr.made, fun hstage => ?_⟩
  obtain ⟨hinterval, hstopped, halarm⟩ := hr.next hstage
  refine ⟨hinterval, h.stopped.trans hstopped, ?_⟩
  rw [h.now]
  exact halarm.imp_left fun ⟨hlt, hmem⟩ => ⟨hlt, h.agenda hmem⟩

theorem Unswept.tidy (h : Unswept b b') (hb : b.Tidy) : b'.Tidy :=
  ⟨h.follows.conserved hb.conserved, h.placed hb.placed⟩

theorem Unswept.regular (h : Unswept b b') (hb : Regular rem b) : Regular rem b' :=
  ⟨h.tidy hb.tidy, fun k r hr => h.onTime (hb.onTime k r (h.reapers ▸ hr))⟩

theorem Outcome.unswept {binds : List Bind} {result : Except Fault Endpoint × Broker}
    (h : Outcome b binds result) (hacts : Acts b result.2) : Unswept b result.2 := by
  cases h <;> exact hacts.unswept rfl rfl

theorem openSession_unswept {chance : Chance} (hb : Regular rem b)
    (hchance : DrawnFrom b.allocator.range chance) : Unswept b (b.openSession chance).2 :=
  (openSession_outcome hb.tidy.conserved hchance).unswept (openSession_deeds chance b hchance).acts

theorem completeSession_unswept (b : Broker) (i : Nat) : Unswept b (b.completeSession i) :=
  (completeSession_calm b i).toThins.unswept (completeSession_deeds b i).acts

theorem play_unswept (port : Port) (payload : ByteArray) (format : Option String) (id : Uuid)
    (b : Broker) : Unswept b (b.play port payload format id).2 := by
  have hsteps := Exchange.play_steps b.setup.play b.exchange port payload format id
  exact ⟨play_follows port payload format id b, Exchange.play_placed port payload format id,
    hsteps.now, hsteps.agenda, rfl, rfl⟩

theorem releaseIdle_unswept (limit : Nat) (hb : Regular rem b) :
    Unswept b (b.releaseIdle limit).2 := by
  have hproceed := proceed_carriesOn (b.idlePorts limit) hb.tidy.conserved
  have hacts := (releaseIdle_deeds limit b).acts
  rw [releaseIdle_proceeds hb.tidy] at hacts ⊢
  exact hproceed.toThins.unswept hacts

theorem resumeReaper_of_through (h : ∀ r, b.reapers[k]? = some r → r.errand? = none) :
    b.resumeReaper k = b := by
  unfold resumeReaper
  split
  · rfl
  · next r hr =>
    split
    · next e hstage =>
      have hthrough := h r hr
      simp [Reaper.errand?, hstage] at hthrough
    · rfl

theorem settle_unswept (hb : Regular rem b) : Unswept b b.settle := by
  let completed := (List.range b.exchange.sessions.length).foldl completeSession b
  let resumed := completed.errands.foldl resumeNext ([], completed)
  let kept : Broker := { resumed.2 with errands := resumed.1 }
  have hcompleted : Unswept b completed := unswept_foldl completeSession_unswept _ b
  have hresumed : Unswept completed kept := by
    have hcarries :=
      resumeNext_carriesOn completed.errands [] (hcompleted.regular hb).tidy.conserved
    have hacts := (resumeNext_deeds completed.errands [] completed).acts
    have hkept : Acts completed kept := hacts.tail (.arrange resumed.2 resumed.1 _ _)
    exact hkept.unswept hcarries.reapers hcarries.stopped
  have hboth := hcompleted.trans hresumed
  -- No reaper is in the midst of a sweep.
  have hsame : b.settle = kept := List.foldl_fixed'
    (fun k => resumeReaper_of_through fun r hr => ((hboth.regular hb).onTime k r hr).through) _
  rw [hsame]
  exact hboth

theorem inExchange_unswept {f : Exchange → Exchange}
    (hf : Exchange.Bout b.setup.play b.exchange (f b.exchange)) (hb : Regular rem b) :
    Unswept b (b.inExchange f) := by
  have hinside : Unswept b { b with exchange := f b.exchange } :=
    (acts_of_stirs hf.stirs).unswept rfl rfl
  exact hinside.trans (settle_unswept (hinside.regular hb))

/-! ## Keeping the pace -/

/-- Nobody sweeps any more, and nobody ever will. -/
structure Halted (b : Broker) : Prop where
  stopped : b.stopped = true
  ended : ∀ r ∈ b.reapers, r.stage = .ended

/-- The broker goes on at the time `t`, and its reapers keep their pace. -/
structure Paces (t : Nat) (b b' : Broker) : Prop where
  kept : ∀ (k : Nat) r, b.reapers[k]? = some r → ∃ r', b'.reapers[k]? = some r' ∧ r.Paced t r'
  come : ∀ (k : Nat) r', b'.reapers[k]? = some r' → b.reapers[k]? = none →
    r'.sweeps = 0 ∧ r'.start = t
  halted : Halted b → Halted b'

theorem Paces.of_eq (t : Nat) (hreapers : b'.reapers = b.reapers)
    (hstopped : b'.stopped = b.stopped) : Paces t b b' where
  kept k r hr := ⟨r, hreapers ▸ hr, .refl t r⟩
  come k r' hr' hnone := by
    rw [hreapers, hnone] at hr'
    cases hr'
  halted h := ⟨hstopped.trans h.stopped, hreapers ▸ h.ended⟩

theorem Unswept.paces (h : Unswept b b') (t : Nat) : Paces t b b' := .of_eq t h.reapers h.stopped

theorem Paces.trans (h : Paces t b b') (h' : Paces t b' b'') : Paces t b b'' where
  kept k r hr := by
    obtain ⟨r', hr', hpaced⟩ := h.kept k r hr
    obtain ⟨r'', hr'', hpaced'⟩ := h'.kept k r' hr'
    exact ⟨r'', hr'', hpaced.trans hpaced'⟩
  come k r'' hr'' hnone := by
    cases hk : b'.reapers[k]? with
    | none => exact h'.come k r'' hr'' hk
    | some r' =>
      obtain ⟨hsweeps, hstart⟩ := h.come k r' hk hnone
      obtain ⟨r₁, hr₁, hpaced⟩ := h'.kept k r' hk
      obtain rfl : r'' = r₁ := Option.some.inj (hr''.symm.trans hr₁)
      refine ⟨?_, hpaced.start.trans hstart⟩
      rcases hpaced.sweeps with hsame | ⟨-, hdue, hinterval⟩
      · exact hsame.trans hsweeps
      · -- The first sweep of who has just come is not due yet.
        rw [Reaper.due, hsweeps, hstart] at hdue
        omega
  halted hb := h'.halted (h.halted hb)

/-! ## Sweeps -/

theorem reapers_setReaper (hr : b.reapers[k]? = some r) :
    (b.setReaper k r').reapers[k]? = some r' :=
  List.getElem?_set_self (List.getElem?_eq_some_iff.mp hr).1

theorem reapers_setReaper_of_ne {j : Nat} (hjk : j ≠ k) :
    (b.setReaper k r').reapers[j]? = b.reapers[j]? :=
  List.getElem?_set_ne (Ne.symm hjk)

/-- One reaper goes on at its pace, while all the others rest. -/
theorem setReaper_paces (hr : b.reapers[k]? = some r) (hpaced : r.Paced t r') :
    Paces t b (b.setReaper k r') where
  kept j r₁ hr₁ := by
    by_cases hjk : j = k
    · subst hjk
      obtain rfl : r = r₁ := Option.some.inj (hr.symm.trans hr₁)
      exact ⟨r', reapers_setReaper hr, hpaced⟩
    · exact ⟨r₁, (reapers_setReaper_of_ne hjk).trans hr₁, .refl t r₁⟩
  come j r₁ hr₁ hnone := by
    by_cases hjk : j = k
    · rw [hjk, hr] at hnone
      cases hnone
    · rw [reapers_setReaper_of_ne hjk, hnone] at hr₁
      cases hr₁
  halted h := by
    refine ⟨h.stopped, fun r₁ hr₁ => ?_⟩
    rcases List.mem_or_eq_of_mem_set hr₁ with hmem | rfl
    · exact h.ended r₁ hmem
    · have hended := h.ended r (List.mem_of_getElem? hr)
      rw [hpaced.ended hended, hended]

/-- The stage at the end of a sweep, once the sessions have been released. -/
theorem stageAfter_cases (r : Reaper) (b : Broker) :
    b.stageAfter r = .ended ∨ b.stageAfter r = .resting ∧ b.stopped = false := by
  unfold stageAfter
  split
  · exact Or.inl rfl
  · cases hstopped : b.stopped with
    | true => exact Or.inl rfl
    | false => exact Or.inr ⟨rfl, rfl⟩

/-- The idle sessions are released, if there is a limit. -/
def reaped (idleLimit : Option Nat) (b : Broker) : Broker :=
  match idleLimit with
  | some limit => (b.releaseIdle limit).2
  | none => b

theorem reaped_unswept (idleLimit : Option Nat) (hb : Regular rem b) :
    Unswept b (b.reaped idleLimit) := by
  unfold reaped
  split
  · exact releaseIdle_unswept _ hb
  · exact .refl b

/-- A sweep is over at once. -/
theorem sweep_eq (k : Nat) (r : Reaper) (hb : b.Tidy) :
    b.sweep k r = (b.reaped r.idleLimit).afterSweep k { r with sweeps := r.sweeps + 1 } := by
  obtain ⟨start, interval, idleLimit, retention, sweeps, stage⟩ := r
  cases idleLimit with
  | none => rfl
  | some limit =>
    have hproceed : b.proceed (b.idlePorts limit) = (none, b.reaped (some limit)) :=
      Prod.ext (proceed_idlePorts hb limit).1 (by rw [reaped, releaseIdle_proceeds hb])
    unfold sweep
    dsimp only
    rw [hproceed]

theorem sweep_outcome (k : Nat) (r : Reaper) (hb : Regular rem b) :
    ∃ b' stage, Unswept b b' ∧ (stage = .ended ∨ stage = .resting ∧ b.stopped = false) ∧
      b.sweep k r = ({ r with sweeps := r.sweeps + 1, stage },
        b'.setReaper k { r with sweeps := r.sweeps + 1, stage }) := by
  have hreaped := reaped_unswept r.idleLimit hb
  obtain ⟨b', hacts, hcalm, heq⟩ :=
    afterSweep_eq k { r with sweeps := r.sweeps + 1 } (b.reaped r.idleLimit)
  refine ⟨b', _, hreaped.trans (hcalm.toThins.unswept hacts), ?_,
    (sweep_eq k r hb.tidy).trans heq⟩
  rw [← hreaped.stopped]
  exact stageAfter_cases _ _

/-- Who was not woken by an alarm still has its own. -/
theorem OnTime.of_ne {a : Alarm} (h : OnTime (a :: rem) b k r) (ha : a.sleeper ≠ .reaper k) :
    OnTime rem b k r := by
  refine ⟨h.through, h.made, fun hstage => ?_⟩
  obtain ⟨hinterval, hstopped, halarm⟩ := h.next hstage
  refine ⟨hinterval, hstopped, halarm.imp_right fun ⟨hnow, hmem⟩ => ⟨hnow, ?_⟩⟩
  refine (List.mem_cons.mp hmem).resolve_left fun heq => ha ?_
  rw [← heq]

theorem setAlarm_unswept (due k : Nat) (b : Broker) : Unswept b (b.setAlarm due k) :=
  (setAlarm_deeds due k b).acts.unswept rfl rfl

/-- Who waits for its next sweep sets the alarm for it. -/
theorem setAlarm_onTime (hthrough : r.errand? = none)
    (hmade : r.start + r.sweeps * r.interval ≤ b.now) (hinterval : 0 < r.interval)
    (hstopped : b.stopped = false) (hlt : b.now < r.due) :
    OnTime rem (b.setAlarm r.due k) k r :=
  ⟨hthrough, hmade, fun _ => ⟨hinterval, hstopped, Or.inl ⟨hlt, by simp [setAlarm]⟩⟩⟩

/-- The broker goes on at one time, its reapers keep their pace, and those that wait for an alarm
that rings still do. -/
structure Keeps (rem : List Alarm) (b b' : Broker) : Prop where
  regular : Regular rem b'
  paces : Paces b.now b b'
  now : b'.now = b.now

theorem Unswept.keeps (h : Unswept b b') (hb : Regular rem b) : Keeps rem b b' :=
  ⟨h.regular hb, h.paces b.now, h.now⟩

theorem Keeps.trans {rem' : List Alarm} (h : Keeps rem b b') (h' : Keeps rem' b' b'') :
    Keeps rem' b b'' :=
  ⟨h'.regular, h.paces.trans (h.now ▸ h'.paces), h'.now.trans h.now⟩

/-- All reapers are on time if the others were, and this one is. -/
theorem regular_of_set (htidy : b.Tidy)
    (hothers : ∀ (j : Nat) r, j ≠ k → b.reapers[j]? = some r → OnTime rem b j r)
    (hr : b.reapers[k]? = some r) (h : Unswept (b.setReaper k r') b')
    (hk : OnTime rem b' k r') : Regular rem b' := by
  refine ⟨h.tidy ⟨htidy.conserved, htidy.placed⟩, fun j r₂ hr₂ => ?_⟩
  rw [h.reapers] at hr₂
  by_cases hjk : j = k
  · subst hjk
    rw [reapers_setReaper hr] at hr₂
    exact Option.some.inj hr₂ ▸ hk
  · rw [reapers_setReaper_of_ne hjk] at hr₂
    obtain ⟨hthrough, hmade, hnext⟩ := hothers j r₂ hjk hr₂
    exact h.onTime ⟨hthrough, hmade, hnext⟩

/-- A sweep that is due now is made, and the next one is later. -/
theorem catchUp_due {rem' : List Alarm} (hr : b.reapers[k]? = some r) (hb : Regular rem' b)
    (hothers : ∀ (j : Nat) r, j ≠ k → b.reapers[j]? = some r → OnTime rem b j r)
    (hresting : r.stage = .resting) (hinterval : 0 < r.interval) (hstopped : b.stopped = false)
    (hnow : b.now = r.due) : Keeps rem b (catchUp k 2 r b) := by
  obtain ⟨b', stage, hunswept, hstage, hsweep⟩ := sweep_outcome k r hb
  let r' : Reaper := { r with sweeps := r.sweeps + 1, stage }
  let swept : Broker := b'.setReaper k r'
  have hnow' : swept.now = b.now := hunswept.now
  have hmade : r'.start + r'.sweeps * r'.interval = swept.now := hnow.symm.trans hnow'.symm
  have hlt : swept.now < r'.due := by
    rw [Reaper.due, Nat.succ_mul, ← Nat.add_assoc, hmade]
    exact Nat.lt_add_of_pos_right hinterval
  have hpaced : r.Paced b.now r' :=
    ⟨⟨rfl, rfl, rfl, rfl⟩, Or.inr ⟨rfl, hnow.symm, hinterval⟩, fun h => by simp [hresting] at h⟩
  have hr' : b'.reapers[k]? = some r := hunswept.reapers ▸ hr
  have hpaces : Paces b.now b swept := (hunswept.paces b.now).trans (setReaper_paces hr' hpaced)
  have hkeeps : ∀ next, Unswept swept next → OnTime rem next k r' → Keeps rem b next :=
    fun next h hk => ⟨regular_of_set (hunswept.tidy hb.tidy)
      (fun j r₂ hjk hr₂ => hunswept.onTime (hothers j r₂ hjk (hunswept.reapers ▸ hr₂))) hr' h hk,
      hpaces.trans (h.paces b.now), h.now.trans hnow'⟩
  rw [catchUp, if_pos (Reaper.isResting_of_resting hresting), if_pos (Nat.le_of_eq hnow.symm),
    hsweep]
  change Keeps rem b (catchUp k 1 r' swept)
  rcases hstage with hended | ⟨hrests, -⟩
  · rw [catchUp_of_not_resting (Reaper.isResting_of_ended (r := r') hended)]
    exact hkeeps swept (.refl swept) (.of_ended hended (Nat.le_of_eq hmade))
  · rw [catchUp, if_pos (Reaper.isResting_of_resting (r := r') hrests), if_neg (Nat.not_le.mpr hlt)]
    refine hkeeps _ (setAlarm_unswept r'.due k swept) ?_
    exact setAlarm_onTime (Reaper.errand?_of_resting (r := r') hrests) (Nat.le_of_eq hmade) hinterval
      (hunswept.stopped.trans hstopped) hlt

/-- A reaper that is woken makes the sweep that is due, if one is, and sets its alarm. -/
theorem ringReaper_keeps {a : Alarm} (ha : a.sleeper = .reaper k) (hb : Regular (a :: rem) b) :
    Keeps rem b (b.ringReaper k) := by
  have hothers : ∀ (j : Nat) r, j ≠ k → b.reapers[j]? = some r → OnTime rem b j r := by
    refine fun j r hjk hr => (hb.onTime j r hr).of_ne ?_
    rw [ha]
    exact fun heq => hjk (Sleeper.reaper.inj heq).symm
  have hunswept : ∀ next, Unswept b next →
      (∀ r, b.reapers[k]? = some r → OnTime rem next k r) → Keeps rem b next := by
    refine fun next h hk => ⟨⟨h.tidy hb.tidy, fun j r hr => ?_⟩,
      h.paces b.now, h.now⟩
    rw [h.reapers] at hr
    by_cases hjk : j = k
    · exact hjk ▸ hk r (hjk ▸ hr)
    · exact h.onTime (hothers j r hjk hr)
  unfold ringReaper
  split
  · next hnone => exact hunswept b (.refl b) fun r hr => by simp [hnone] at hr
  · next r hr =>
    have honTime := hb.onTime k r hr
    rcases honTime.stage with hresting | hended
    · obtain ⟨hinterval, hstopped, halarm⟩ := honTime.next hresting
      rcases halarm with ⟨hlt, -⟩ | ⟨hnow, -⟩
      · have hset : catchUp k (overdue r b) r b = b.setAlarm r.due k := by
          rw [overdue, catchUp, if_pos (Reaper.isResting_of_resting hresting),
            if_neg (Nat.not_le.mpr hlt)]
        rw [hset]
        refine hunswept _ (setAlarm_unswept r.due k b) fun r₂ hr₂ => ?_
        obtain rfl : r = r₂ := Option.some.inj (hr.symm.trans hr₂)
        exact setAlarm_onTime honTime.through honTime.made hinterval hstopped hlt
      · rw [show overdue r b = 2 by rw [overdue, hnow]; omega]
        exact catchUp_due hr hb hothers hresting hinterval hstopped hnow
    · rw [catchUp_of_not_resting (Reaper.isResting_of_ended hended)]
      refine hunswept b (.refl b) fun r₂ hr₂ => ?_
      obtain rfl : r = r₂ := Option.some.inj (hr.symm.trans hr₂)
      exact .of_ended hended honTime.made

theorem ring_keeps {a : Alarm} (hb : Regular (a :: rem) b) : Keeps rem b (b.ring a) := by
  unfold ring
  split
  · next i id ha =>
    have hunswept : Unswept b (b.inExchange (·.ring b.setup.play a)) :=
      inExchange_unswept (.ring a) hb
    refine ⟨hunswept.regular ⟨hb.tidy, fun k r hr => ?_⟩, hunswept.paces b.now, hunswept.now⟩
    exact (hb.onTime k r hr).of_ne (by simp [ha])
  · next k ha => exact ringReaper_keeps ha hb

theorem rings_keeps (alarms : List Alarm) (hb : Regular alarms b) :
    Keeps [] b (alarms.foldl ring b) := by
  induction alarms generalizing b with
  | nil => exact (Unswept.refl b).keeps hb
  | cons a alarms ih =>
    have hring := ring_keeps hb
    exact hring.trans (ih hring.regular)

/-! ## Time -/

theorem Regular.clock (hb : Regular [] b) (ht : b.exchange.agenda.nextAfter? b.now = some t) :
    Regular (b.exchange.agenda.dueAt t)
      { b with exchange := { b.exchange with now := t, agenda := b.exchange.agenda.after t } } := by
  have hlt := Agenda.lt_of_nextAfter? ht
  refine ⟨⟨hb.tidy.conserved, hb.tidy.placed⟩, fun k r hr => ?_⟩
  obtain ⟨hthrough, hmade, hnext⟩ := hb.onTime k r hr
  refine ⟨hthrough, Nat.le_trans hmade (Nat.le_of_lt hlt), fun hstage => ?_⟩
  obtain ⟨hinterval, hstopped, ⟨hdue, hmem⟩ | ⟨-, hmem⟩⟩ := hnext hstage
  · -- The clock does not pass over the alarm.
    obtain ⟨t', ht', hle⟩ := Agenda.nextAfter?_le hmem hdue
    obtain rfl : t = t' := Option.some.inj (ht.symm.trans ht')
    refine ⟨hinterval, hstopped, ?_⟩
    rcases Nat.eq_or_lt_of_le hle with heq | hlater
    · exact Or.inr ⟨heq, List.mem_filter.mpr ⟨hmem, by simpa using heq.symm⟩⟩
    · exact Or.inl ⟨hlater, List.mem_filter.mpr ⟨hmem, by simpa using hlater⟩⟩
  · cases hmem

theorem Regular.later {target : Nat} (hb : Regular [] b) (hle : b.now ≤ target)
    (hnext : ∀ t, b.exchange.agenda.nextAfter? b.now = some t → target < t) :
    Regular [] { b with exchange := { b.exchange with now := target } } := by
  refine ⟨⟨hb.tidy.conserved, hb.tidy.placed⟩, fun k r hr => ?_⟩
  obtain ⟨hthrough, hmade, hset⟩ := hb.onTime k r hr
  refine ⟨hthrough, Nat.le_trans hmade hle, fun hstage => ?_⟩
  obtain ⟨hinterval, hstopped, ⟨hdue, hmem⟩ | ⟨-, hmem⟩⟩ := hset hstage
  · obtain ⟨t, ht, hle'⟩ := Agenda.nextAfter?_le hmem hdue
    exact ⟨hinterval, hstopped, Or.inl ⟨Nat.lt_of_lt_of_le (hnext t ht) hle', hmem⟩⟩
  · cases hmem

theorem fire_regular (hb : Regular [] b) (ht : b.exchange.agenda.nextAfter? b.now = some t) :
    Regular [] (b.fire t) ∧ Paces t b (b.fire t) := by
  let later : Broker :=
    { b with exchange := { b.exchange with now := t, agenda := b.exchange.agenda.after t } }
  have hrings := rings_keeps (b.exchange.agenda.dueAt t) (hb.clock ht)
  have hlater : Paces t b later := .of_eq t rfl rfl
  exact ⟨hrings.regular, hlater.trans hrings.paces⟩

/-! ## Events -/

theorem reapers_concat (h : (b.reapers ++ [r])[k]? = some r') :
    b.reapers[k]? = some r' ∨ b.reapers[k]? = none ∧ k = b.reapers.length ∧ r' = r := by
  rw [List.getElem?_append] at h
  split at h
  · exact Or.inl h
  · next hge =>
    rw [List.getElem?_singleton] at h
    split at h
    · next hzero =>
      refine Or.inr ⟨List.getElem?_eq_none (by omega), by omega, ?_⟩
      exact (Option.some.inj h).symm
    · cases h

/-- A reaper that is started sets its alarm, unless it never sweeps. -/
theorem startReaper_keeps (interval : Nat) (idleLimit : Option Nat) (retention : Nat)
    (hb : Regular [] b) : Keeps [] b (b.startReaper interval idleLimit retention) := by
  let stage : ReaperStage := if interval = 0 ∨ b.stopped = true then .ended else .resting
  let r : Reaper := { start := b.now, interval, idleLimit, retention, stage }
  let added : Broker := { b with reapers := b.reapers ++ [r] }
  have hmade : r.start + r.sweeps * r.interval ≤ b.now :=
    Nat.le_of_eq (by simp [r])
  have hkeeps : ∀ next, Unswept added next → OnTime [] next b.reapers.length r →
      Keeps [] b next := by
    intro next h hk
    refine ⟨⟨h.tidy ⟨hb.tidy.conserved, hb.tidy.placed⟩, fun j r₂ hr₂ => ?_⟩, ⟨fun j r₂ hr₂ => ?_,
      fun j r₂ hr₂ hnone => ?_, fun hhalted => ⟨h.stopped.trans hhalted.stopped, ?_⟩⟩, h.now⟩
    · rw [h.reapers] at hr₂
      rcases reapers_concat hr₂ with hold | ⟨-, rfl, rfl⟩
      · obtain ⟨hthrough, hmade, hnext⟩ := hb.onTime j r₂ hold
        exact h.onTime ⟨hthrough, hmade, hnext⟩
      · exact hk
    · refine ⟨r₂, ?_, .refl _ r₂⟩
      rw [h.reapers]
      exact (List.getElem?_append_left (List.getElem?_eq_some_iff.mp hr₂).1).trans hr₂
    · rw [h.reapers] at hr₂
      rcases reapers_concat hr₂ with hold | ⟨-, -, rfl⟩
      · rw [hnone] at hold
        cases hold
      · exact ⟨rfl, rfl⟩
    · rw [h.reapers]
      intro r₂ hr₂
      rcases List.mem_append.mp hr₂ with hold | hnew
      · exact hhalted.ended r₂ hold
      · obtain rfl := List.mem_singleton.mp hnew
        exact if_pos (Or.inr hhalted.stopped)
  by_cases hnever : interval = 0 ∨ b.stopped = true
  · have hended : r.stage = .ended := if_pos hnever
    have hstart : b.startReaper interval idleLimit retention = added :=
      if_neg (Bool.not_eq_true _ ▸ Reaper.isResting_of_ended hended)
    rw [hstart]
    exact hkeeps added (.refl added) (.of_ended hended hmade)
  · have hresting : r.stage = .resting := if_neg hnever
    have hstart : b.startReaper interval idleLimit retention =
        added.setAlarm r.due b.reapers.length := if_pos (Reaper.isResting_of_resting hresting)
    rw [not_or, Bool.not_eq_true] at hnever
    have hpos : 0 < interval := Nat.pos_of_ne_zero hnever.1
    have hlt : b.now < r.due := by
      simpa [Reaper.due, r] using hpos
    rw [hstart]
    exact hkeeps _ (setAlarm_unswept _ _ _)
      (setAlarm_onTime (Reaper.errand?_of_resting hresting) hmade hpos hnever.2 hlt)

theorem reaper_started (interval : Nat) (idleLimit : Option Nat) (retention : Nat) (b : Broker) :
    ∃ r, (b.startReaper interval idleLimit retention).reapers[b.reapers.length]? = some r ∧
      r.start = b.now ∧ r.interval = interval ∧ r.idleLimit = idleLimit ∧
      r.retention = retention := by
  unfold startReaper
  dsimp only
  split <;> exact ⟨_, List.getElem?_concat_length .., rfl, rfl, rfl, rfl⟩

/-- After a shutdown no reaper sweeps any more. -/
theorem shutDown_keeps (hb : Regular [] b) : Keeps [] b b.shutDown ∧ Halted b.shutDown := by
  let halt (r : Reaper) : Reaper := if r.isResting then { r with stage := .ended } else r
  let halted : Broker := { b with stopped := true, reapers := b.reapers.map halt }
  have hhalt : ∀ (k : Nat) r', halted.reapers[k]? = some r' →
      ∃ r, b.reapers[k]? = some r ∧ r' = { r with stage := .ended } := by
    intro k r' hr'
    obtain ⟨r, hr, rfl⟩ := Option.map_eq_some_iff.mp ((List.getElem?_map ..).symm.trans hr')
    exact ⟨r, hr, Reaper.halt_of_through (hb.onTime k r hr).through⟩
  have hended : ∀ r ∈ halted.reapers, r.stage = .ended := by
    intro r' hr'
    obtain ⟨k, hk⟩ := List.mem_iff_getElem?.mp hr'
    obtain ⟨r, -, rfl⟩ := hhalt k r' hk
    rfl
  have hregular : Regular [] halted := by
    refine ⟨⟨hb.tidy.conserved, hb.tidy.placed⟩, fun k r' hr' => ?_⟩
    obtain ⟨r, hr, rfl⟩ := hhalt k r' hr'
    exact .of_ended rfl (hb.onTime k r hr).made
  have hpaces : Paces b.now b halted := by
    refine ⟨fun k r hr => ?_, fun k r' hr' hnone => ?_, fun _ => ⟨rfl, hended⟩⟩
    · refine ⟨{ r with stage := .ended }, ?_, ⟨rfl, rfl, rfl, rfl⟩, Or.inl rfl, fun h => ?_⟩
      · rw [← Reaper.halt_of_through (hb.onTime k r hr).through]
        exact (List.getElem?_map ..).trans (congrArg (Option.map halt) hr)
      · rw [← h]
    · obtain ⟨r, hr, -⟩ := hhalt k r' hr'
      rw [hnone] at hr
      cases hr
  have hunswept : Unswept halted (halted.aside halted.exchange.ports) := by
    have hproceed := proceed_carriesOn halted.exchange.ports hregular.tidy.conserved
    have hacts : Acts halted (halted.aside halted.exchange.ports) := by
      rw [aside_eq]
      exact (proceed_deeds _ halted).acts.tail (.arrange _ _ _ _)
    refine hacts.unswept ?_ ?_
    · rw [aside_eq]
      exact hproceed.reapers
    · rw [aside_eq]
      exact hproceed.stopped
  have hrest := hunswept.keeps hregular
  exact ⟨⟨hrest.regular, hpaces.trans hrest.paces, hrest.now⟩, hrest.paces.halted ⟨rfl, hended⟩⟩

theorem step_keeps (hb : Regular [] b) {e : Event} (he : e.Fair b.allocator.range)
    (hadvance : ∀ ms, e ≠ .advance ms) : Keeps [] b (b.step e) := by
  cases e with
  | openSession chance => exact (openSession_unswept hb he).keeps hb
  | release port =>
    exact ((release_thins hb.tidy.conserved port).unswept (release_deeds port b).acts).keeps hb
  | detach port =>
    exact ((detach_thins hb.tidy.conserved port).unswept (detach_deeds port b).acts).keeps hb
  | complete session => exact (completeSession_unswept b session).keeps hb
  | play port payload format id => exact (play_unswept port payload format id b).keeps hb
  | receive session sender =>
    unfold step receive
    dsimp only
    split
    · split
      · exact (inExchange_unswept (.receive session sender) hb).keeps hb
      · exact (Unswept.refl b).keeps hb
    · exact (Unswept.refl b).keeps hb
  | endProgram session ending held =>
    exact (inExchange_unswept (.endProgram session ending held) hb).keeps hb
  | closeOutput session => exact (inExchange_unswept (.closeOutput session) hb).keeps hb
  | releaseIdle limit => exact (releaseIdle_unswept limit hb).keeps hb
  | startReaper interval idleLimit retention =>
    exact startReaper_keeps interval idleLimit retention hb
  | shutDown => exact (shutDown_keeps hb).1
  | advance ms => exact absurd rfl (hadvance ms)

end Broker

end RtpBroker
