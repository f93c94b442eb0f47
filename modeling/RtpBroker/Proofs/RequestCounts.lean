import RtpBroker.Http.Api
import RtpBroker.Proofs.BrokerMoves

/-!
# Who counts requests

Whatever happens in a broker leaves the counts of HTTP requests as they are: no effect of
a session touches them, so no operation does, and neither does the handling of a request.
They change only when a request that has been answered is counted.
-/

namespace RtpBroker

namespace Exchange

/-- What has been counted of requests. -/
def requestCounts (x : Exchange) : Family Nat × Family Histogram :=
  (x.metrics.requests, x.metrics.requestSeconds)

variable (x : Exchange)

@[simp] theorem requestCounts_perform (i : Nat) (e : Effect) :
    (x.perform i e).requestCounts = x.requestCounts := by
  cases e <;> rfl

@[simp] theorem requestCounts_performs (i : Nat) (es : List Effect) :
    (es.foldl (perform i) x).requestCounts = x.requestCounts := by
  induction es generalizing x with
  | nil => rfl
  | cons e es ih => exact (ih (x.perform i e)).trans (requestCounts_perform x i e)

@[simp] theorem requestCounts_stepSession (i : Nat) (f : Session → Session × List Effect) :
    (x.stepSession i f).requestCounts = x.requestCounts := by
  unfold stepSession
  split
  · rfl
  · exact requestCounts_performs _ i _

theorem requestCounts_remove (port : Port) (standing : Standing) :
    (x.remove port standing).2.requestCounts = x.requestCounts := by
  unfold remove
  split
  · rfl
  · exact (requestCounts_stepSession _ _ _).trans (requestCounts_stepSession x _ _)

theorem requestCounts_play (c : PlaySetup) (port : Port) (payload : ByteArray)
    (format : Option String) (id : Uuid) :
    (x.play c port payload format id).2.requestCounts = x.requestCounts := by
  unfold play
  split
  · rfl
  · exact requestCounts_stepSession x _ _

theorem requestCounts_prune (retention : Nat) :
    (x.prune retention).2.requestCounts = x.requestCounts := by
  unfold prune
  dsimp only
  split <;> rfl

theorem requestCounts_ring (c : PlaySetup) (a : Alarm) :
    (x.ring c a).requestCounts = x.requestCounts := by
  unfold ring
  split
  · exact requestCounts_stepSession x _ _
  · rfl

end Exchange

namespace Broker

def requestCounts (b : Broker) : Family Nat × Family Histogram := b.exchange.requestCounts

theorem requestCounts_foldl {α : Type} {f : Broker → α → Broker}
    (hf : ∀ b k, (f b k).requestCounts = b.requestCounts) (ks : List α) (b : Broker) :
    (ks.foldl f b).requestCounts = b.requestCounts := by
  induction ks generalizing b with
  | nil => rfl
  | cons k ks ih => exact (ih (f b k)).trans (hf b k)

/-! ## Opening -/

theorem requestCounts_register (port : Port) (b : Broker) :
    (b.register port).2.requestCounts = b.requestCounts := by
  unfold register Exchange.create
  cases b.exchange.numberAt? port with
  | some i => rfl
  | none => exact Exchange.requestCounts_stepSession _ _ _

theorem requestCounts_openFrom (chance : Chance) (n round : Nat) (failure : Fault) (b : Broker) :
    (openFrom chance n round failure b).2.requestCounts = b.requestCounts := by
  induction n generalizing round failure b with
  | zero => rfl
  | succ n ih =>
    unfold openFrom
    split
    · rfl
    · next port pool _ =>
      dsimp only
      split
      · exact ih (round + 1) _ { b with pool := (pool.free port).2 }
      · exact requestCounts_register port { b with pool }

/-! ## Releasing -/

theorem requestCounts_completeSession (b : Broker) (i : Nat) :
    (b.completeSession i).requestCounts = b.requestCounts := by
  have hquiet : (b.endListener i).requestCounts = b.requestCounts :=
    congrArg Exchange.requestCounts (b.exchange_endListener i)
  rcases completeSession_cases b i with ⟨s, -, -, -, -, heq⟩ | ⟨-, heq⟩ <;> rw [heq]
  · exact (Exchange.requestCounts_stepSession _ _ _).trans hquiet
  · exact hquiet

theorem requestCounts_detach (port : Port) (b : Broker) :
    (b.detach port).2.requestCounts = b.requestCounts := by
  have hremove := Exchange.requestCounts_remove b.exchange port .leaving
  unfold detach
  split
  · rfl
  · next h =>
    rw [h] at hremove
    exact (Exchange.requestCounts_stepSession _ _ _).trans hremove

theorem requestCounts_release (port : Port) (b : Broker) :
    (b.release port).2.requestCounts = b.requestCounts := by
  have hdetach := requestCounts_detach port b
  unfold release
  split <;> next h =>
    rw [h] at hdetach
    first
    | exact hdetach
    | exact (requestCounts_completeSession _ _).trans hdetach

theorem requestCounts_proceed (ports : List Port) (b : Broker) :
    (b.proceed ports).2.requestCounts = b.requestCounts := by
  induction ports generalizing b with
  | nil => rfl
  | cons port ports ih =>
    have hrelease := requestCounts_release port b
    unfold proceed
    split <;> next h =>
      rw [h] at hrelease
      first
      | exact (ih _).trans hrelease
      | split
        · exact (ih _).trans hrelease
        · exact hrelease

theorem requestCounts_resume (e : Errand) (b : Broker) :
    (b.resume e).2.requestCounts = b.requestCounts := by
  unfold resume
  split
  · exact requestCounts_proceed _ b
  · split
    · exact requestCounts_proceed _ b
    · rfl

/-! ## Reapers -/

theorem requestCounts_afterSweep (k : Nat) (r : Reaper) (b : Broker) :
    (b.afterSweep k r).2.requestCounts = b.requestCounts := by
  have hprune := Exchange.requestCounts_prune b.exchange r.retention
  unfold afterSweep
  dsimp only
  split <;> next h =>
    rw [h] at hprune
    exact hprune

theorem requestCounts_sweep (k : Nat) (r : Reaper) (b : Broker) :
    (b.sweep k r).2.requestCounts = b.requestCounts := by
  have hproceed := fun ports => requestCounts_proceed ports b
  unfold sweep
  dsimp only
  split <;> next h =>
    have hcounts := h ▸ hproceed _
    first
    | exact (requestCounts_afterSweep _ _ _).trans hcounts
    | exact hcounts

theorem requestCounts_catchUp (k n : Nat) (r : Reaper) (b : Broker) :
    (catchUp k n r b).requestCounts = b.requestCounts := by
  induction n generalizing r b with
  | zero => rfl
  | succ n ih =>
    unfold catchUp
    split
    · split
      · exact (ih _ _).trans (requestCounts_sweep k r b)
      · rfl
    · rfl

theorem requestCounts_resumeReaper (b : Broker) (k : Nat) :
    (b.resumeReaper k).requestCounts = b.requestCounts := by
  unfold resumeReaper
  split
  · rfl
  · split
    · next e _ =>
      have hresume := requestCounts_resume e b
      split <;> next h =>
        rw [h] at hresume
        first
        | exact hresume
        | exact ((requestCounts_catchUp k _ _ _).trans
            (requestCounts_afterSweep k _ _)).trans hresume
    · rfl

theorem requestCounts_startReaper (interval : Nat) (idleLimit : Option Nat) (retention : Nat)
    (b : Broker) : (b.startReaper interval idleLimit retention).requestCounts =
      b.requestCounts := by
  unfold startReaper
  dsimp only
  split <;> rfl

/-! ## Settling -/

theorem requestCounts_resumeNext (es kept : List Errand) (b : Broker) :
    (es.foldl resumeNext (kept, b)).2.requestCounts = b.requestCounts := by
  induction es generalizing kept b with
  | nil => rfl
  | cons e es ih =>
    have hresume := requestCounts_resume e b
    rw [List.foldl_cons, resumeNext]
    split <;> next h =>
      rw [h] at hresume
      exact (ih _ _).trans hresume

theorem requestCounts_settle (b : Broker) : b.settle.requestCounts = b.requestCounts := by
  let completed := (List.range b.exchange.sessions.length).foldl completeSession b
  have hcompleted : completed.requestCounts = b.requestCounts :=
    requestCounts_foldl requestCounts_completeSession _ b
  let resumed := completed.errands.foldl resumeNext ([], completed)
  have hresumed : resumed.2.requestCounts = completed.requestCounts :=
    requestCounts_resumeNext completed.errands [] completed
  have hreapers : b.settle.requestCounts = resumed.2.requestCounts :=
    requestCounts_foldl requestCounts_resumeReaper _ { resumed.2 with errands := resumed.1 }
  exact (hreapers.trans hresumed).trans hcompleted

theorem requestCounts_inExchange {f : Exchange → Exchange} {b : Broker}
    (hf : (f b.exchange).requestCounts = b.requestCounts) :
    (b.inExchange f).requestCounts = b.requestCounts :=
  (requestCounts_settle _).trans hf

/-! ## Events -/

theorem requestCounts_ringNext (b : Broker) (a : Alarm) :
    (b.ring a).requestCounts = b.requestCounts := by
  unfold ring
  split
  · exact requestCounts_inExchange (Exchange.requestCounts_ring b.exchange _ a)
  · unfold ringReaper
    split
    · rfl
    · exact requestCounts_catchUp _ _ _ b

theorem requestCounts_advance (ms : Nat) (b : Broker) :
    (b.advance ms).requestCounts = b.requestCounts := by
  have hfire : ∀ now t (b' : Broker), b'.requestCounts = b.requestCounts →
      b'.exchange.agenda.nextAfter? now = some t → t ≤ b.now + ms →
        (b'.fire t).requestCounts = b.requestCounts :=
    fun _ t b' h _ _ => (requestCounts_foldl requestCounts_ringNext _ _).trans h
  obtain ⟨-, -, -, hrun, -⟩ := Agenda.run_induct hfire rfl (Nat.le_add_right b.now ms)
  exact hrun

theorem requestCounts_receive (i : Nat) (sender : SocketAddr) (b : Broker) :
    (b.receive i sender).requestCounts = b.requestCounts := by
  unfold receive
  split
  · split
    · exact requestCounts_inExchange (Exchange.requestCounts_stepSession b.exchange i _)
    · rfl
  · rfl

theorem requestCounts_releaseIdle (limit : Nat) (b : Broker) :
    (b.releaseIdle limit).2.requestCounts = b.requestCounts := by
  have hproceed := requestCounts_proceed (b.idlePorts limit) b
  unfold releaseIdle
  dsimp only
  split <;> next h =>
    rw [h] at hproceed
    exact hproceed

theorem requestCounts_shutDown (b : Broker) : b.shutDown.requestCounts = b.requestCounts := by
  let halted : Broker := { b with
    stopped := true
    reapers := b.reapers.map fun r => if r.isResting then { r with stage := .ended } else r }
  have hproceed := requestCounts_proceed halted.exchange.ports halted
  unfold shutDown
  dsimp only
  split <;> next h =>
    rw [h] at hproceed
    exact hproceed

theorem requestCounts_step (b : Broker) (e : Event) :
    (b.step e).requestCounts = b.requestCounts := by
  cases e with
  | openSession chance => exact requestCounts_openFrom chance _ _ _ b
  | release port => exact requestCounts_release port b
  | detach port => exact requestCounts_detach port b
  | complete session => exact requestCounts_completeSession b session
  | play port payload format id =>
    exact Exchange.requestCounts_play b.exchange _ port payload format id
  | receive session sender => exact requestCounts_receive session sender b
  | endProgram session ending held =>
    exact requestCounts_inExchange (Exchange.requestCounts_stepSession b.exchange session _)
  | closeOutput session =>
    exact requestCounts_inExchange (Exchange.requestCounts_stepSession b.exchange session _)
  | releaseIdle limit => exact requestCounts_releaseIdle limit b
  | startReaper interval idleLimit retention =>
    exact requestCounts_startReaper interval idleLimit retention b
  | shutDown => exact requestCounts_shutDown b
  | advance ms => exact requestCounts_advance ms b

end Broker

/-! ## Requests -/

namespace Http

variable (o : Occasion) (b : Broker)

theorem requestCounts_openSession : (openSession o b).2.requestCounts = b.requestCounts := by
  have hopen := Broker.requestCounts_step b (.openSession o.chance)
  rw [Broker.step] at hopen
  unfold openSession
  split <;> next h =>
    rw [h] at hopen
    exact hopen

theorem requestCounts_release (segment : String) :
    (release segment b).2.requestCounts = b.requestCounts := by
  unfold release
  split
  · rfl
  · next port _ =>
    have hrelease := Broker.requestCounts_release port b
    split <;> next h =>
      rw [h] at hrelease
      exact hrelease

theorem requestCounts_play (r : Request) : (play o r b).2.requestCounts = b.requestCounts := by
  unfold play
  split
  · rfl
  · next p _ =>
    unfold playBody
    split
    · rfl
    · next port payload _ =>
      have hplay := Broker.requestCounts_step b (.play port payload p.format o.id)
      rw [Broker.step] at hplay
      split <;> next h =>
        rw [h] at hplay
        exact hplay

theorem requestCounts_dispatch (h : Health) (r : Request) :
    (dispatch o h r b).2.requestCounts = b.requestCounts := by
  unfold dispatch
  split
  · rfl
  · next route _ =>
    split
    · cases route with
      | openSession => exact requestCounts_openSession o b
      | release port => exact requestCounts_release b port
      | play => exact requestCounts_play o b r
      | _ => rfl
    · rfl

end Http

end RtpBroker
