import RtpBroker.Allocator
import RtpBroker.Broker
import RtpBroker.Proofs.Changes

/-!
# The acts of a broker

The exchange of a broker changes, its pool does, or both when a session is enrolled on
a held port or vacates it, or the broker keeps in mind for whom it releases and sweeps.
Every operation of the broker but to accept a playback is a chain of such deeds, whoever
waits for it to be over. An act is the least of them, with one move in the exchange.
-/

namespace RtpBroker

namespace Broker

open Exchange (Bout Change Stir Stirs)

/-- Opens a session on a port that is reserved for it, and starts its listener. -/
def enroll (p : Port) (b : Broker) : Broker :=
  { b with
    pool := (b.pool.reserve p).2
    exchange := b.exchange.enroll p
    listeners := b.listeners ++ [b.exchange.sessions.length] }

def leave (i : Nat) (b : Broker) : Broker := { b with exchange := b.exchange.leave i }

def vacate (i : Nat) (p : Port) (b : Broker) : Broker :=
  { b with
    exchange := b.exchange.vacate i
    pool := (b.allocator.giveBack b.now p b.pool).2 }

/-- What a broker does at once; `R` says how its exchange changes with every session on its post. -/
inductive Deed (R : PlaySetup → Exchange → Exchange → Prop) : Broker → Broker → Prop
  | inside {b : Broker} {x : Exchange} (h : R b.setup.play b.exchange x) :
      Deed R b { b with exchange := x }
  | enroll {b : Broker} {p : Port} (heven : isEven p = true)
      (hin : b.allocator.range.contains p = true) (hfree : b.pool.isOccupied p = false)
      (hnone : b.exchange.numberAt? p = none) : Deed R b (b.enroll p)
  | leave {b : Broker} {i : Nat} {s : Session} (hi : b.session? i = some s)
      (h : s.standing = .registered) : Deed R b (b.leave i)
  | quiet (b : Broker) (i : Nat) : Deed R b (b.endListener i)
  | vacate {b : Broker} {i : Nat} {s : Session} (hi : b.session? i = some s)
      (h : s.standing = .leaving) (hquiet : i ∉ b.listeners) (hjoined : s.isJoined = true) :
      Deed R b (b.vacate i s.port)
  | drain (b : Broker) : Deed R b { b with pool := b.allocator.drain b.now b.pool }
  | bounce {b : Broker} {p : Port} (hfree : b.pool.isOccupied p = false) :
      Deed R b { b with pool := ((b.pool.reserve p).2.free p).2 }
  | arrange (b : Broker) (errands : List Errand) (reapers : List Reaper) (stopped : Bool) :
      Deed R b { b with errands, reapers, stopped }

abbrev Deeds : Broker → Broker → Prop := Relation.ReflTransGen (Deed Bout)

abbrev Act : Broker → Broker → Prop := Deed Stir

abbrev Acts : Broker → Broker → Prop := Relation.ReflTransGen Act

variable {R : PlaySetup → Exchange → Exchange → Prop} {b b' : Broker}

theorem endListener_eq (b : Broker) (i : Nat) :
    ∃ listeners, b.endListener i = { b with listeners } := by
  unfold endListener
  split
  · exact ⟨b.listeners, rfl⟩
  · split
    · exact ⟨_, rfl⟩
    · exact ⟨b.listeners, rfl⟩

section

variable (b : Broker) (i : Nat)

@[simp] theorem exchange_endListener : (b.endListener i).exchange = b.exchange := by
  obtain ⟨_, heq⟩ := b.endListener_eq i
  rw [heq]

@[simp] theorem session_endListener (j : Nat) : (b.endListener i).session? j = b.session? j := by
  rw [session?, exchange_endListener, session?]

end

theorem Deed.setup (h : Deed R b b') : b'.setup = b.setup := by
  cases h with
  | quiet i =>
    obtain ⟨_, heq⟩ := b.endListener_eq i
    rw [heq]
  | _ => rfl

theorem Act.change (h : Act b b') :
    b'.exchange = b.exchange ∨ Change b.setup.play b.exchange b'.exchange := by
  cases h with
  | inside h => exact Or.inr (.stir h)
  | enroll _ _ _ hnone => exact Or.inr (.enroll hnone)
  | leave hi h => exact Or.inr (.leave hi h)
  | quiet i => exact Or.inl (b.exchange_endListener i)
  | vacate hi h _ hjoined => exact Or.inr (.vacate hi h hjoined)
  | _ => exact Or.inl rfl

theorem acts_of_stirs {x : Exchange} (h : Stirs b.setup.play b.exchange x) :
    Acts b { b with exchange := x } := by
  induction h with
  | refl => exact .refl
  | tail _ hlast ih => exact ih.tail (.inside (b := { b with exchange := _ }) hlast)

theorem Deed.acts (h : Deed Bout b b') : Acts b b' := by
  cases h with
  | inside h => exact acts_of_stirs h.stirs
  | enroll heven hin hfree hnone => exact .single (.enroll heven hin hfree hnone)
  | leave hi h => exact .single (.leave hi h)
  | quiet i => exact .single (.quiet b i)
  | vacate hi h hquiet hjoined => exact .single (.vacate hi h hquiet hjoined)
  | drain => exact .single (.drain b)
  | bounce hfree => exact .single (.bounce hfree)
  | arrange errands reapers stopped => exact .single (.arrange b errands reapers stopped)

theorem Deeds.acts (h : Deeds b b') : Acts b b' := by
  induction h with
  | refl => exact .refl
  | tail _ hlast ih => exact ih.trans hlast.acts

theorem deeds_of_bout {x : Exchange} (h : Bout b.setup.play b.exchange x) :
    Deeds b { b with exchange := x } :=
  .single (.inside h)

theorem deeds_foldl {α : Type} {f : Broker → α → Broker} (hf : ∀ b k, Deeds b (f b k))
    (ks : List α) (b : Broker) : Deeds b (ks.foldl f b) := by
  induction ks generalizing b with
  | nil => exact .refl
  | cons k ks ih => exact (hf b k).trans (ih (f b k))

/-! ## Opening -/

def DrawnFrom (r : PortRange) (chance : Chance) : Prop :=
  ∀ round i, r.contains (chance.draw round i) = true

theorem countAllocation_deeds (result : String) (b : Broker) : Deeds b (b.countAllocation result) :=
  deeds_of_bout (.note ⟨rfl, rfl, rfl, rfl, rfl⟩)

theorem register_deeds (b : Broker) {p : Port} (heven : isEven p = true)
    (hin : b.allocator.range.contains p = true) (hfree : b.pool.isOccupied p = false) :
    Deeds b ({ b with pool := (b.pool.reserve p).2 }.register p).2 := by
  unfold register Exchange.create
  dsimp only
  cases hnumber : b.exchange.numberAt? p with
  | some i => exact .head (.bounce hfree) (countAllocation_deeds "error" _)
  | none =>
    have henroll : Deed Bout b (b.enroll p) := .enroll heven hin hfree hnumber
    have hmark := deeds_of_bout (b := b.enroll p) (.listen b.exchange.sessions.length)
    exact .head henroll (hmark.trans (countAllocation_deeds "ok" _))

theorem openFrom_deeds (chance : Chance) (n round : Nat) (failure : Fault) (b : Broker)
    (hchance : DrawnFrom b.allocator.range chance) :
    Deeds b (openFrom chance n round failure b).2 := by
  induction n generalizing round failure b with
  | zero => exact countAllocation_deeds "bind_error" b
  | succ n ih =>
    let drained : Broker := { b with pool := b.allocator.drain b.now b.pool }
    have hdrained : Deeds b drained := .single (.drain b)
    unfold openFrom
    split
    · next hallocate =>
      obtain ⟨rfl, -⟩ := Allocator.allocate_error hallocate
      exact hdrained.trans (countAllocation_deeds "exhausted" drained)
    · next p pool hallocate =>
      obtain ⟨⟨j, rfl⟩, heven, hfree, rfl⟩ := Allocator.allocate_ok hallocate
      dsimp only
      split
      · have hbounced := hdrained.tail (.bounce (b := drained) hfree)
        exact hbounced.trans (ih _ _ _ hchance)
      · exact hdrained.trans (drained.register_deeds heven (hchance round j) hfree)

theorem openSession_deeds (chance : Chance) (b : Broker)
    (hchance : DrawnFrom b.allocator.range chance) : Deeds b (b.openSession chance).2 :=
  openFrom_deeds chance _ _ _ b hchance

/-! ## Releasing -/

theorem endListener_of_told {i : Nat} {s : Session} (hi : b.session? i = some s)
    (h : s.aborted = true) :
    b.endListener i = { b with listeners := b.listeners.filter (· != i) } := by
  unfold endListener
  rw [hi]
  exact if_pos h

/-- The listener of a session that was told to stop does not run any more. -/
theorem not_mem_listeners {i : Nat} {s : Session} (hi : b.session? i = some s)
    (h : s.aborted = true) : i ∉ (b.endListener i).listeners := by
  simp [endListener_of_told hi h]

/-- To complete a teardown is to end the listener, and to vacate the port if all tasks are over that
the teardown waits for. -/
theorem completeSession_cases (b : Broker) (i : Nat) :
    (∃ s, b.session? i = some s ∧ s.standing = .leaving ∧ i ∉ (b.endListener i).listeners ∧
      s.isJoined = true ∧ b.completeSession i = (b.endListener i).vacate i s.port) ∨
    (∀ s, b.session? i = some s → s.standing = .leaving → s.aborted = true →
      s.isJoined = false) ∧ b.completeSession i = b.endListener i := by
  unfold completeSession
  dsimp only
  rw [session_endListener]
  split
  · next hnone => exact Or.inr ⟨fun s hs => by simp [hnone] at hs, rfl⟩
  · next s hs =>
    split
    · next h =>
      refine Or.inl ⟨s, hs, h.1, h.2.1, h.2.2, ?_⟩
      have hnow : ((b.endListener i).settleSession i .gone).now = (b.endListener i).now :=
        Exchange.now_stepSession
      rw [hnow]
      rfl
    · next h =>
      refine Or.inr ⟨fun s' hs' hleaving haborted => ?_, rfl⟩
      obtain rfl : s = s' := Option.some.inj (hs.symm.trans hs')
      exact Bool.of_not_eq_true fun hjoined => h ⟨hleaving, not_mem_listeners hs haborted, hjoined⟩

theorem session_vacate {i : Nat} {s : Session} (h : b.session? i = some s) (p : Port) :
    (b.vacate i p).session? i = some { s with standing := .gone } :=
  Exchange.session_stepSession h

theorem session_vacate_of_ne {i j : Nat} (hij : i ≠ j) (p : Port) :
    (b.vacate j p).session? i = b.session? i :=
  Exchange.session_stepSession_of_ne hij

theorem completeSession_deeds (b : Broker) (i : Nat) : Deeds b (b.completeSession i) := by
  have hquiet : Deeds b (b.endListener i) := .single (.quiet b i)
  rcases completeSession_cases b i with ⟨s, hs, hleaving, hlistener, hjoined, heq⟩ | ⟨-, heq⟩
  · rw [heq]
    exact hquiet.tail (.vacate (by rwa [session_endListener]) hleaving hlistener hjoined)
  · rw [heq]
    exact hquiet

theorem detach_none {p : Port} (h : b.exchange.numberAt? p = none) :
    b.detach p = (.error (.sessionNotFound p), b) := by
  unfold detach Exchange.remove
  rw [h]

theorem detach_eq {p : Port} {i : Nat} (h : b.exchange.numberAt? p = some i) :
    b.detach p = (.ok i, { b with exchange := (b.exchange.leave i).close i }) := by
  obtain ⟨x, hremove, hyield⟩ := Exchange.remove_leaving h
  simp only [detach, hremove, hyield]

/-- A session whose port is released leaves it first, and is closed then. -/
theorem detach_some {p : Port} {i : Nat} (h : b.exchange.numberAt? p = some i) :
    (b.detach p).1 = .ok i ∧ Deed R b (b.leave i) ∧ Deeds (b.leave i) (b.detach p).2 := by
  obtain ⟨s, hi, hstanding, -⟩ := Exchange.registered_of_numberAt? h
  rw [detach_eq h]
  exact ⟨rfl, .leave hi hstanding,
    deeds_of_bout (b := b.leave i) (.close i)⟩

theorem detach_deeds (p : Port) (b : Broker) : Deeds b (b.detach p).2 := by
  cases h : b.exchange.numberAt? p with
  | none =>
    rw [detach_none h]
  | some i =>
    obtain ⟨-, hleave, hclose⟩ := detach_some (R := Bout) h
    exact .head hleave hclose

theorem release_deeds (p : Port) (b : Broker) : Deeds b (b.release p).2 := by
  have hdetach := detach_deeds p b
  unfold release
  split <;> next h =>
    rw [h] at hdetach
    first
    | exact hdetach
    | exact hdetach.trans (completeSession_deeds _ _)

theorem proceed_deeds (ps : List Port) (b : Broker) : Deeds b (b.proceed ps).2 := by
  induction ps generalizing b with
  | nil => exact .refl
  | cons p ps ih =>
    have hrelease := release_deeds p b
    unfold proceed
    split
    · next h =>
      rw [h] at hrelease
      exact hrelease.trans (ih _)
    · next h =>
      rw [h] at hrelease
      split
      · exact hrelease.trans (ih _)
      · exact hrelease

theorem resume_deeds (e : Errand) (b : Broker) : Deeds b (b.resume e).2 := by
  unfold resume
  split
  · exact proceed_deeds _ _
  · split
    · exact proceed_deeds _ _
    · exact .refl

/-! ## Reapers -/

theorem setReaper_deeds (k : Nat) (r : Reaper) (b : Broker) : Deeds b (b.setReaper k r) :=
  .single (.arrange b b.errands _ b.stopped)

theorem setAlarm_deeds (due k : Nat) (b : Broker) : Deeds b (b.setAlarm due k) :=
  deeds_of_bout (.alarm due k)

theorem afterSweep_deeds (k : Nat) (r : Reaper) (b : Broker) : Deeds b (b.afterSweep k r).2 := by
  let drained : Broker := { b with pool := b.allocator.drain b.now b.pool }
  have hdrained : Deeds b drained := .single (.drain b)
  have hpruned := hdrained.trans (deeds_of_bout (b := drained) (.prune r.retention))
  unfold afterSweep
  dsimp only
  split <;> next hprune =>
    rw [hprune] at hpruned
    exact hpruned.trans (setReaper_deeds k _ _)

theorem sweep_deeds (k : Nat) (r : Reaper) (b : Broker) : Deeds b (b.sweep k r).2 := by
  have hproceed := fun ps => proceed_deeds ps b
  unfold sweep
  dsimp only
  split <;> next h =>
    have hdeeds := h ▸ hproceed _
    first
    | exact hdeeds.trans (afterSweep_deeds _ _ _)
    | exact hdeeds.trans (setReaper_deeds k _ _)

theorem catchUp_deeds (k n : Nat) (r : Reaper) (b : Broker) : Deeds b (catchUp k n r b) := by
  induction n generalizing r b with
  | zero => exact .refl
  | succ n ih =>
    unfold catchUp
    split
    · split
      · exact (sweep_deeds k r b).trans (ih _ _)
      · exact setAlarm_deeds _ k b
    · exact .refl

theorem resumeReaper_deeds (b : Broker) (k : Nat) : Deeds b (b.resumeReaper k) := by
  unfold resumeReaper
  split
  · exact .refl
  · split
    · next e _ =>
      have hresume := resume_deeds e b
      split
      · next h =>
        rw [h] at hresume
        exact hresume.trans (setReaper_deeds k _ _)
      · next h =>
        rw [h] at hresume
        exact (hresume.trans (afterSweep_deeds k _ _)).trans (catchUp_deeds k _ _ _)
    · exact .refl

theorem ringReaper_deeds (k : Nat) (b : Broker) : Deeds b (b.ringReaper k) := by
  unfold ringReaper
  split
  · exact .refl
  · exact catchUp_deeds k _ _ b

theorem startReaper_deeds (interval : Nat) (idleLimit : Option Nat) (retention : Nat)
    (b : Broker) : Deeds b (b.startReaper interval idleLimit retention) := by
  have hstart : ∀ r : Reaper, Deeds b (if r.isResting
      then ({ b with reapers := b.reapers ++ [r] } : Broker).setAlarm r.due b.reapers.length
      else { b with reapers := b.reapers ++ [r] }) := by
    intro r
    have hadded : Deed Bout b { b with reapers := b.reapers ++ [r] } :=
      .arrange b b.errands _ b.stopped
    split
    · exact .head hadded (setAlarm_deeds _ _ _)
    · exact .single hadded
  exact hstart _

/-! ## Settling -/

theorem resumeNext_deeds (es kept : List Errand) (b : Broker) :
    Deeds b (es.foldl resumeNext (kept, b)).2 := by
  induction es generalizing kept b with
  | nil => exact .refl
  | cons e es ih =>
    have hresume := resume_deeds e b
    rw [List.foldl_cons, resumeNext]
    split <;> next h =>
      rw [h] at hresume
      exact hresume.trans (ih _ _)

theorem settle_deeds (b : Broker) : Deeds b b.settle := by
  let completed := (List.range b.exchange.sessions.length).foldl completeSession b
  have hcompleted : Deeds b completed := deeds_foldl completeSession_deeds _ b
  let resumed := completed.errands.foldl resumeNext ([], completed)
  have hresumed : Deeds completed resumed.2 := resumeNext_deeds completed.errands [] completed
  have hkept : Deed Bout resumed.2 { resumed.2 with errands := resumed.1 } :=
    .arrange _ _ _ _
  have hreapers : Deeds { resumed.2 with errands := resumed.1 } b.settle :=
    deeds_foldl resumeReaper_deeds _ _
  exact ((hcompleted.trans hresumed).tail hkept).trans hreapers

theorem inExchange_deeds {f : Exchange → Exchange}
    (hf : Bout b.setup.play b.exchange (f b.exchange)) : Deeds b (b.inExchange f) :=
  (deeds_of_bout hf).trans (settle_deeds _)

/-! ## Requests -/

theorem receive_deeds (i : Nat) (sender : SocketAddr) (b : Broker) :
    Deeds b (b.receive i sender) := by
  unfold receive
  split
  · split
    · exact inExchange_deeds (.receive i sender)
    · exact .refl
  · exact .refl

theorem releaseIdle_deeds (limit : Nat) (b : Broker) : Deeds b (b.releaseIdle limit).2 := by
  have hproceed := proceed_deeds (b.idlePorts limit) b
  unfold releaseIdle
  dsimp only
  split
  · next h =>
    rw [h] at hproceed
    exact hproceed.tail (.arrange _ _ _ _)
  · next h =>
    rw [h] at hproceed
    exact hproceed

theorem shutDown_deeds (b : Broker) : Deeds b b.shutDown := by
  let halted : Broker := { b with
    stopped := true
    reapers := b.reapers.map fun r => if r.isResting then { r with stage := .ended } else r }
  have hhalted : Deed Bout b halted := .arrange b b.errands _ true
  have hproceed := Relation.ReflTransGen.head hhalted (proceed_deeds halted.exchange.ports halted)
  unfold shutDown
  dsimp only
  split
  · next h =>
    rw [h] at hproceed
    exact hproceed.tail (.arrange _ _ _ _)
  · next h =>
    rw [h] at hproceed
    exact hproceed

theorem ring_deeds (b : Broker) (a : Alarm) : Deeds b (b.ring a) := by
  unfold ring
  split
  · exact inExchange_deeds (.ring a)
  · exact ringReaper_deeds _ b

end Broker

end RtpBroker
