import RtpBroker.Proofs.Teardown

/-!
# Teardowns come to their end

The broker leaves a session alone that is off its port, until all tasks in it are
over: then it vacates the port for it as soon as it settles, and it settles
whenever something has happened in a session. So after every event a session that is
still leaving has a program that lingers, and when the time for that is up it is gone.
-/

namespace RtpBroker

namespace Broker

variable {b b' b'' : Broker} {p : Port} {i j : Nat} {s : Session}

/-! ## What is left alone -/

/-- A session off its port stays as it is, or it vacates the port. -/
def Spares (i : Nat) (b b' : Broker) : Prop :=
  ∀ s, b.session? i = some s → s.standing ≠ .registered →
    b'.session? i = some s ∨ b'.session? i = some { s with standing := .gone }

theorem spares_of_session (h : b'.session? i = b.session? i) : Spares i b b' :=
  fun _ hi _ => Or.inl (h.trans hi)

theorem Spares.trans (h : Spares i b b') (h' : Spares i b' b'') : Spares i b b'' := by
  intro s hi hs
  rcases h s hi hs with hi' | hi'
  · exact h' s hi' hs
  · exact Or.inr (by simpa using h' _ hi' (by simp))

theorem spares_foldl {α : Type} {f : Broker → α → Broker} (hf : ∀ b k, Spares i b (f b k))
    (ks : List α) (b : Broker) : Spares i b (ks.foldl f b) := by
  induction ks generalizing b with
  | nil => exact spares_of_session rfl
  | cons k ks ih => exact (hf b k).trans (ih (f b k))

theorem completeSession_spares (b : Broker) (j : Nat) : Spares i b (b.completeSession j) := by
  have hquiet := b.session_endListener j
  rcases completeSession_cases b j with ⟨t, hj, -, -, -, heq⟩ | ⟨-, heq⟩
  · rw [heq]
    by_cases hij : i = j
    · subst hij
      intro s hi _
      obtain rfl : s = t := Option.some.inj (hi.symm.trans hj)
      exact Or.inr (session_vacate ((hquiet i).trans hi) _)
    · exact spares_of_session ((session_vacate_of_ne hij _).trans (hquiet i))
  · rw [heq]
    exact spares_of_session (hquiet i)

/-- Who is registered on a port is not a session off its port. -/
theorem ne_of_numberAt? (h : b.exchange.numberAt? p = some j) (hi : b.session? i = some s)
    (hs : s.standing ≠ .registered) : i ≠ j := by
  rintro rfl
  obtain ⟨t, ht, hregistered, -⟩ := Exchange.registered_of_numberAt? h
  obtain rfl : s = t := Option.some.inj (hi.symm.trans ht)
  exact hs hregistered

theorem detach_spares (p : Port) (b : Broker) : Spares i b (b.detach p).2 := by
  cases hnumber : b.exchange.numberAt? p with
  | none =>
    rw [detach_none hnumber]
    exact spares_of_session rfl
  | some j =>
    intro s hi hs
    have hij := ne_of_numberAt? hnumber hi hs
    have hleave : (b.exchange.leave j).sessions[i]? = b.exchange.sessions[i]? :=
      Exchange.session_stepSession_of_ne hij
    rw [detach_eq hnumber]
    exact Or.inl ((Exchange.session_stepSession_of_ne hij).trans (hleave.trans hi))

theorem release_spares (p : Port) (b : Broker) : Spares i b (b.release p).2 := by
  have hdetach := detach_spares (i := i) p b
  unfold release
  split <;> next h =>
    rw [h] at hdetach
    first
    | exact hdetach
    | exact hdetach.trans (completeSession_spares _ _)

theorem proceed_spares (ps : List Port) (b : Broker) : Spares i b (b.proceed ps).2 := by
  induction ps generalizing b with
  | nil => exact spares_of_session rfl
  | cons p ps ih =>
    have hrelease := release_spares (i := i) p b
    unfold proceed
    split
    · next h =>
      rw [h] at hrelease
      exact hrelease.trans (ih _)
    · next h =>
      rw [h] at hrelease
      split
      · exact hrelease.trans (ih _)
      · exact hrelease

theorem resume_spares (e : Errand) (b : Broker) : Spares i b (b.resume e).2 := by
  unfold resume
  split
  · exact proceed_spares _ _
  · split
    · exact proceed_spares _ _
    · exact spares_of_session rfl

theorem afterSweep_spares (k : Nat) (r : Reaper) (b : Broker) :
    Spares i b (b.afterSweep k r).2 := by
  have hpruned := Exchange.sessions_prune (x := b.exchange) r.retention
  unfold afterSweep
  dsimp only
  split <;> next hprune =>
    rw [hprune] at hpruned
    exact spares_of_session (congrArg (·[i]?) hpruned)

theorem sweep_spares (k : Nat) (r : Reaper) (b : Broker) : Spares i b (b.sweep k r).2 := by
  have hproceed := fun ps => proceed_spares (i := i) ps b
  unfold sweep
  dsimp only
  split <;> next h =>
    have hspares := h ▸ hproceed _
    first
    | exact hspares.trans (afterSweep_spares _ _ _)
    | exact hspares

theorem catchUp_spares (k n : Nat) (r : Reaper) (b : Broker) : Spares i b (catchUp k n r b) := by
  induction n generalizing r b with
  | zero => exact spares_of_session rfl
  | succ n ih =>
    unfold catchUp
    split
    · split
      · exact (sweep_spares k r b).trans (ih _ _)
      · exact spares_of_session rfl
    · exact spares_of_session rfl

theorem resumeReaper_spares (b : Broker) (k : Nat) : Spares i b (b.resumeReaper k) := by
  unfold resumeReaper
  split
  · exact spares_of_session rfl
  · split
    · next e _ =>
      have hresume := resume_spares (i := i) e b
      split
      · next h =>
        rw [h] at hresume
        exact hresume
      · next h =>
        rw [h] at hresume
        exact (hresume.trans (afterSweep_spares k _ _)).trans (catchUp_spares k _ _ _)
    · exact spares_of_session rfl

theorem ringReaper_spares (k : Nat) (b : Broker) : Spares i b (b.ringReaper k) := by
  unfold ringReaper
  split
  · exact spares_of_session rfl
  · exact catchUp_spares k _ _ b

theorem startReaper_spares (interval : Nat) (idleLimit : Option Nat) (retention : Nat)
    (b : Broker) : Spares i b (b.startReaper interval idleLimit retention) := by
  have hstart : ∀ r : Reaper, Spares i b (if r.isResting
      then ({ b with reapers := b.reapers ++ [r] } : Broker).setAlarm r.due b.reapers.length
      else { b with reapers := b.reapers ++ [r] }) := by
    intro r
    split <;> exact spares_of_session rfl
  exact hstart _

theorem resumeNext_spares (es kept : List Errand) (b : Broker) :
    Spares i b (es.foldl resumeNext (kept, b)).2 := by
  induction es generalizing kept b with
  | nil => exact spares_of_session rfl
  | cons e es ih =>
    have hresume := resume_spares (i := i) e b
    rw [List.foldl_cons, resumeNext]
    split <;> next h =>
      rw [h] at hresume
      exact hresume.trans (ih _ _)

theorem releaseIdle_spares (limit : Nat) (b : Broker) : Spares i b (b.releaseIdle limit).2 := by
  have hproceed := proceed_spares (i := i) (b.idlePorts limit) b
  unfold releaseIdle
  dsimp only
  split <;> next h =>
    rw [h] at hproceed
    exact hproceed

theorem shutDown_spares (b : Broker) : Spares i b b.shutDown := by
  let halted : Broker := { b with
    stopped := true
    reapers := b.reapers.map fun r => if r.isResting then { r with stage := .ended } else r }
  have hproceed := proceed_spares (i := i) halted.exchange.ports halted
  unfold shutDown
  dsimp only
  split <;> next h =>
    rw [h] at hproceed
    exact hproceed

theorem register_spares (p : Port) (b : Broker) : Spares i b (b.register p).2 := by
  unfold register Exchange.create
  cases b.exchange.numberAt? p with
  | some j => exact spares_of_session rfl
  | none =>
    intro s hi _
    have hlt := (List.getElem?_eq_some_iff.mp hi).1
    exact Or.inl ((Exchange.session_stepSession_of_ne (Nat.ne_of_lt hlt)).trans
      ((List.getElem?_append_left hlt).trans hi))

theorem openFrom_spares (chance : Chance) (n round : Nat) (failure : Fault) (b : Broker) :
    Spares i b (openFrom chance n round failure b).2 := by
  induction n generalizing round failure b with
  | zero => exact spares_of_session rfl
  | succ n ih =>
    unfold openFrom
    split
    · exact spares_of_session rfl
    · next p pool _ =>
      dsimp only
      split
      · exact ih (round + 1) _ { b with pool := (pool.free p).2 }
      · exact register_spares p { b with pool }

theorem play_spares (port : Port) (payload : ByteArray) (format : Option String) (id : Uuid)
    (b : Broker) : Spares i b (b.play port payload format id).2 := by
  cases hplay : (b.play port payload format id).1 with
  | error e =>
    exact spares_of_session (congrArg (·.sessions[i]?) (Exchange.play_error hplay))
  | ok id' =>
    obtain ⟨-, j, t, f, hnumber, -, -, heq⟩ := Exchange.play_ok hplay
    intro s hi hs
    have hij := ne_of_numberAt? hnumber hi hs
    refine Or.inl ?_
    rw [session?, show (b.play port payload format id).2.exchange = _ from heq,
      Exchange.session_stepSession_of_ne hij]
    exact hi

/-! ## To settle -/

/-- The teardown of a session is over, or it still waits for a task. -/
def Underway (i : Nat) (b : Broker) : Prop :=
  ∃ s, b.session? i = some s ∧ s.aborted = true ∧
    (s.standing = .gone ∨ s.standing = .leaving ∧ s.isJoined = false)

theorem Spares.underway (h : Spares i b b') (hb : Underway i b) : Underway i b' := by
  obtain ⟨s, hi, htold, hs⟩ := hb
  have hleft : s.standing ≠ .registered := by
    rcases hs with hgone | ⟨hleaving, -⟩
    · simp [hgone]
    · simp [hleaving]
  rcases h s hi hleft with hi' | hi'
  · exact ⟨s, hi', htold, hs⟩
  · exact ⟨_, hi', htold, Or.inl rfl⟩

theorem completeSession_underway (hi : b.session? i = some s)
    (hrank : Standing.leaving.rank ≤ s.standing.rank) (htold : s.aborted = true) :
    Underway i (b.completeSession i) := by
  have hi' : (b.endListener i).session? i = some s := (b.session_endListener i i).trans hi
  rcases completeSession_cases b i with ⟨t, ht, -, -, -, heq⟩ | ⟨hunjoined, heq⟩
  · rw [heq]
    exact ⟨_, session_vacate hi' _, htold, Or.inl rfl⟩
  · rw [heq]
    refine ⟨s, hi', htold, ?_⟩
    rcases Standing.leaving_or_gone hrank with hleaving | hgone
    · exact Or.inr ⟨hleaving, hunjoined s hi hleaving htold⟩
    · exact Or.inl hgone

theorem completed_underway {ks : List Nat} (hmem : i ∈ ks) (hi : b.session? i = some s)
    (hrank : Standing.leaving.rank ≤ s.standing.rank) (htold : s.aborted = true) :
    Underway i (ks.foldl completeSession b) := by
  have hleft : s.standing ≠ .registered := fun h => by
    rw [h] at hrank
    cases hrank
  induction ks generalizing b with
  | nil => cases hmem
  | cons k ks ih =>
    have hrest := spares_foldl (i := i) completeSession_spares ks (b.completeSession k)
    by_cases hk : k = i
    · subst hk
      exact hrest.underway (completeSession_underway hi hrank htold)
    · rcases completeSession_spares b k s hi hleft with hi' | hi'
      · exact ih ((List.mem_cons.mp hmem).resolve_left (Ne.symm hk)) hi'
      · exact hrest.underway ⟨_, hi', htold, Or.inl rfl⟩

theorem settle_underway (hi : b.session? i = some s)
    (hrank : Standing.leaving.rank ≤ s.standing.rank) (htold : s.aborted = true) :
    Underway i b.settle := by
  let completed := (List.range b.exchange.sessions.length).foldl completeSession b
  have hcompleted : Underway i completed :=
    completed_underway (List.mem_range.mpr (List.getElem?_eq_some_iff.mp hi).1) hi hrank htold
  let resumed := completed.errands.foldl resumeNext ([], completed)
  have hresumed : Spares i completed resumed.2 := resumeNext_spares completed.errands [] completed
  have hreapers : Spares i { resumed.2 with errands := resumed.1 } b.settle :=
    spares_foldl resumeReaper_spares _ _
  exact hreapers.underway (hresumed.underway hcompleted)

theorem Evolves.ages (h : Evolves b b') (hi : b.session? i = some s) :
    ∃ s', b'.session? i = some s' ∧ s.Ages s' :=
  h.exchange.ages hi

theorem inExchange_underway {f : Exchange → Exchange}
    (hf : Exchange.Stirs b.setup.play b.exchange (f b.exchange)) (hb : Underway i b) :
    Underway i (b.inExchange f) := by
  obtain ⟨s, hi, htold, hs⟩ := hb
  obtain ⟨s', hi', hages⟩ := (acts_of_stirs hf).evolves.ages hi
  refine settle_underway hi' (Nat.le_trans ?_ hages.standing) (hages.told htold)
  rcases hs with hgone | ⟨hleaving, -⟩
  · rw [hgone]
    decide
  · exact Nat.le_of_eq (congrArg Standing.rank hleaving.symm)

/-! ## Events -/

theorem ring_underway (a : Alarm) (hb : Underway i b) : Underway i (b.ring a) := by
  unfold ring
  split
  · exact inExchange_underway (Exchange.ring_stirs _ _ a) hb
  · exact (ringReaper_spares _ b).underway hb

theorem advance_underway (ms : Nat) (hb : Underway i b) : Underway i (b.advance ms) := by
  have hrings : ∀ (alarms : List Alarm) (b' : Broker), Underway i b' →
      Underway i (alarms.foldl ring b') := by
    intro alarms
    induction alarms with
    | nil => exact fun _ h => h
    | cons a alarms ih => exact fun b' h => ih _ (ring_underway a h)
  have hfire : ∀ now t (b' : Broker), Underway i b' →
      b'.exchange.agenda.nextAfter? now = some t → t ≤ b.now + ms → Underway i (b'.fire t) :=
    fun _ t b' h _ _ => hrings _ _ h
  obtain ⟨-, -, -, hrun, -⟩ := Agenda.run_induct hfire hb (Nat.le_add_right b.now ms)
  exact hrun

/-- After every event a teardown is over, or it still waits for a task. -/
theorem step_underway (e : Event) (hb : Underway i b) : Underway i (b.step e) := by
  cases e with
  | openSession chance => exact (openFrom_spares chance _ _ _ b).underway hb
  | release port => exact (release_spares port b).underway hb
  | detach port => exact (detach_spares port b).underway hb
  | complete session => exact (completeSession_spares b session).underway hb
  | play port payload format id => exact (play_spares port payload format id b).underway hb
  | receive session sender =>
    unfold step receive
    dsimp only
    split
    · split
      · exact inExchange_underway (Exchange.receive_stirs _ _ session sender) hb
      · exact hb
    · exact hb
  | endProgram session ending held =>
    exact inExchange_underway (Exchange.endProgram_stirs _ _ session ending held) hb
  | closeOutput session => exact inExchange_underway (Exchange.closeOutput_stirs _ _ session) hb
  | releaseIdle limit => exact (releaseIdle_spares limit b).underway hb
  | startReaper interval idleLimit retention =>
    exact (startReaper_spares interval idleLimit retention b).underway hb
  | shutDown => exact (shutDown_spares b).underway hb
  | advance ms => exact advance_underway ms hb

theorem run_underway (events : List Event) (hb : Underway i b) : Underway i (b.run events) := by
  induction events generalizing b with
  | nil => exact hb
  | cons e events ih => exact ih (step_underway e hb)

end Broker

end RtpBroker
