import RtpBroker.Proofs.Evolution
import RtpBroker.Proofs.Runs

/-!
# Nobody waits for a stream that is free

Whoever waits in line for the stream of a session knows the address of the peer, and
someone else has the stream: every operation that frees it hands it over before it is
done. So it is in every broker that a request finds, whatever went on before.
-/

namespace RtpBroker

namespace Session

structure Orderly (s : Session) : Prop where
  free : s.slot = none → s.line = []
  known : s.line ≠ [] → s.remote.isSome = true

variable (c : PlaySetup) (now : Nat) {s : Session}

theorem serve_line (port : Port) (target : SocketAddr) (line : List Request)
    (h : (serve c now port target line).1 = none) : (serve c now port target line).2.1 = [] := by
  induction line with
  | nil => rfl
  | cons r rs ih =>
    rw [serve_cons] at h ⊢
    rcases hbegin : begin c now port target r with ⟨slot, es⟩
    rw [hbegin] at h
    cases slot with
    | some st => cases h
    | none => exact ih h

theorem handOver_orderly (h : s.line ≠ [] → s.remote.isSome = true) :
    (s.handOver c now).1.Orderly := by
  unfold handOver
  split
  · next r rs target hslot hline hremote =>
    exact ⟨serve_line c now s.port target (r :: rs),
      fun _ => Option.isSome_iff_exists.mpr ⟨target, hremote⟩⟩
  · next hother =>
    refine ⟨fun hslot => ?_, h⟩
    cases hline : s.line with
    | nil => rfl
    | cons r rs =>
      obtain ⟨target, hremote⟩ := Option.isSome_iff_exists.mp (h (by simp [hline]))
      exact (hother r rs target hslot hline hremote).elim

theorem hear_orderly (sender : SocketAddr) (hs : s.Orderly) :
    (s.hear now sender).1.Orderly := by
  refine ⟨?_, fun hline => ?_⟩
  · rw [hear_slot, hear_line]
    exact hs.free
  · rw [hear_line] at hline
    obtain ⟨target, hremote⟩ := Option.isSome_iff_exists.mp (hs.known hline)
    exact Option.isSome_iff_exists.mpr ⟨target, (hear_lasts sender s).remote target hremote⟩

theorem look_orderly (w : Waiting) (hs : s.Orderly) : (s.look c now w).1.Orderly := by
  unfold look
  dsimp only
  split
  · next hremote => exact handOver_orderly c now fun _ => hremote
  · split
    · exact ⟨hs.free, hs.known⟩
    · exact hs

theorem accept_orderly (r : Request) (hs : s.Orderly) : (s.accept c now r).1.Orderly :=
  look_orderly c now _ ⟨hs.free, hs.known⟩

theorem lookAll_orderly (ids : List Uuid) (hs : s.Orderly) :
    (lookAll c now ids s).1.Orderly := by
  induction ids generalizing s with
  | nil => exact hs
  | cons id ids ih =>
    unfold lookAll
    cases s.waiting.find? (·.request.id == id) with
    | none => exact ih hs
    | some w => exact ih (look_orderly c now w hs)

theorem receive_orderly (sender : SocketAddr) (hs : s.Orderly) :
    (s.receive c now sender).1.Orderly := by
  have hheard := hear_orderly now sender hs
  unfold receive
  dsimp only
  split
  · exact lookAll_orderly c now _ hheard
  · exact hheard

theorem release_orderly (st : Streaming) (o : Outcome) (timeUp : Bool) (hs : s.Orderly) :
    (s.release c now st o timeUp).1.Orderly :=
  handOver_orderly c now hs.known

theorem endProgram_orderly (ending : Ending) (held : Bool) (hs : s.Orderly) :
    (s.endProgram c now ending held).1.Orderly := by
  unfold endProgram
  split
  · exact hs
  · next st _ =>
    split
    · exact hs
    · split
      · exact ⟨by simp, hs.known⟩
      · exact release_orderly c now st (.ended ending) false hs

theorem closeOutput_orderly (hs : s.Orderly) : (s.closeOutput c now).1.Orderly := by
  unfold closeOutput
  split
  · exact hs
  · next st _ =>
    split
    · exact hs
    · exact release_orderly c now st _ _ hs

theorem wake_orderly (id : Uuid) (hs : s.Orderly) : (s.wake c now id).1.Orderly := by
  unfold wake
  split
  · next w _ => exact look_orderly c now w hs
  · split
    · exact hs
    · next st _ =>
      split
      · exact hs
      · split
        · exact release_orderly c now st _ _ hs
        · exact hs

theorem close_orderly (s : Session) : (s.close now).1.Orderly := by
  have hempty : (s.close now).1.line = [] := by
    unfold close
    dsimp only
    split
    · rfl
    · split
      · rfl
      · split <;> rfl
  exact ⟨fun _ => hempty, fun h => absurd hempty h⟩

end Session

namespace Exchange

variable {c : PlaySetup} {x x' : Exchange}

def Orderly (x : Exchange) : Prop := ∀ (i : Nat) s, x.sessions[i]? = some s → s.Orderly

theorem Orderly.of_sessions (hx : x.Orderly) (h : x'.sessions = x.sessions) : x'.Orderly :=
  fun i s hi => hx i s (h ▸ hi)

theorem ring_orderly (a : Alarm) (hx : x.Orderly) : (x.ring c a).Orderly := by
  unfold ring
  split
  · exact sessions_of_stepSession hx fun s hs => Session.wake_orderly c x.now _ (hx _ s hs)
  · exact hx

theorem Bout.orderly (h : Bout c x x') (hx : x.Orderly) : x'.Orderly := by
  cases h with
  | listen i => exact sessions_of_stepSession hx fun s hs => ⟨(hx i s hs).free, (hx i s hs).known⟩
  | receive i sender =>
    exact sessions_of_stepSession hx fun s hs => Session.receive_orderly c x.now sender (hx i s hs)
  | endProgram i ending held =>
    exact sessions_of_stepSession hx fun s hs =>
      Session.endProgram_orderly c x.now ending held (hx i s hs)
  | closeOutput i =>
    exact sessions_of_stepSession hx fun s hs => Session.closeOutput_orderly c x.now (hx i s hs)
  | close i => exact sessions_of_stepSession hx fun s _ => Session.close_orderly x.now s
  | ring a => exact ring_orderly a hx
  | prune retention => exact hx.of_sessions (sessions_prune retention)
  | note _ => exact hx.of_sessions rfl
  | alarm due k => exact hx.of_sessions rfl

theorem Orderly.enroll (hx : x.Orderly) (port : Port) : (x.enroll port).Orderly := by
  intro i s hi
  by_cases hlt : i < x.sessions.length
  · exact hx i s ((List.getElem?_append_left hlt).symm.trans hi)
  · simp only [Exchange.enroll, List.getElem?_append_right (Nat.le_of_not_lt hlt)] at hi
    obtain ⟨_, hs⟩ := List.getElem?_eq_some_iff.mp hi
    obtain rfl : Session.opened port x.now = s := by simpa using hs
    exact ⟨fun _ => rfl, fun h => absurd rfl h⟩

theorem play_orderly (port : Port) (payload : ByteArray) (format : Option String) (id : Uuid)
    (hx : x.Orderly) : (x.play c port payload format id).2.Orderly := by
  rcases play_cases c x port payload format id with heq | ⟨i, s, f, -, -, -, heq⟩
  · rw [heq]
    exact hx
  · rw [heq]
    exact sessions_of_stepSession hx fun t ht => Session.accept_orderly c x.now _ (hx i t ht)

end Exchange

namespace Broker

variable {b b' : Broker}

def Orderly (b : Broker) : Prop := b.exchange.Orderly

theorem Deed.orderly (h : Deed Exchange.Bout b b') (hb : b.Orderly) : b'.Orderly := by
  cases h with
  | inside h => exact h.orderly hb
  | enroll => exact hb.enroll _
  | @leave i s hi _ =>
    exact Exchange.sessions_of_stepSession hb fun t ht => ⟨(hb i t ht).free, (hb i t ht).known⟩
  | quiet i =>
    rw [Orderly, exchange_endListener]
    exact hb
  | @vacate i s hi _ _ _ =>
    exact Exchange.sessions_of_stepSession hb fun t ht => ⟨(hb i t ht).free, (hb i t ht).known⟩
  | _ => exact hb

theorem Deeds.orderly (h : Deeds b b') (hb : b.Orderly) : b'.Orderly := by
  induction h with
  | refl => exact hb
  | tail _ hlast ih => exact hlast.orderly ih

theorem advance_orderly (ms : Nat) (hb : b.Orderly) : (b.advance ms).Orderly := by
  have hfire : ∀ now t (b' : Broker), b'.Orderly → b'.exchange.agenda.nextAfter? now = some t →
      t ≤ b.now + ms → (b'.fire t).Orderly := fun _ t b' hb' _ _ =>
    Deeds.orderly (deeds_foldl ring_deeds _ _) (b := { b' with
      exchange := { b'.exchange with now := t, agenda := b'.exchange.agenda.after t } }) hb'
  obtain ⟨-, -, -, hrun, -⟩ := Agenda.run_induct hfire hb (Nat.le_add_right b.now ms)
  exact hrun

theorem step_orderly {e : Event} (he : e.Fair b.allocator.range) (hb : b.Orderly) :
    (b.step e).Orderly := by
  have hdeeds := step_deeds b e he
  cases e with
  | play port payload format id => exact Exchange.play_orderly port payload format id hb
  | advance ms => exact advance_orderly ms hb
  | _ => exact (hdeeds (by simp) (by simp)).orderly hb

/-! ## What a request finds -/

/-- The brokers that requests find. Since the start events have happened, and in between the
calendar has gone on and something else may have been counted. -/
inductive Attained : Broker → Prop
  | start {setup : BrokerSetup} {calendar : Timestamp} {b : Broker}
      (h : start setup calendar = .ok b) : Attained b
  | step {b : Broker} {e : Event} (h : Attained b) (he : e.Fair b.allocator.range)
      (hnew : ∀ id, e.playback? = some id → b.exchange.story id = []) : Attained (b.step e)
  | note {b : Broker} (h : Attained b) (calendar : Timestamp) {metrics : Metrics}
      (hmetrics : b.exchange.metrics.Alike metrics) :
      Attained { b with exchange := { b.exchange with calendar, metrics } }

theorem Attained.orderly (h : Attained b) : b.Orderly := by
  induction h with
  | start h =>
    intro i s hi
    rw [start_exchange h] at hi
    cases hi
  | step _ he _ ih => exact step_orderly he ih
  | note _ _ _ ih => exact ih

theorem Attained.reachable (h : Attained b) : Reachable b ∧ Alert [] b := by
  induction h with
  | start h => exact ⟨⟨_, _, _, h, .refl⟩, start_alert h⟩
  | step _ he hnew ih =>
    obtain ⟨hreachable, halert⟩ := ih
    obtain ⟨hevolves, halert', -⟩ := step_evolves halert he hnew
    exact ⟨hreachable.evolves hevolves, halert'⟩
  | @note b _ calendar metrics hmetrics ih =>
    obtain ⟨hreachable, halert⟩ := ih
    have hact : Act b { b with exchange := { b.exchange with calendar, metrics } } :=
      .inside (.note calendar hmetrics)
    have hevolves : Evolves b _ := .single (.act hact)
    exact ⟨hreachable.evolves hevolves, (hreachable.evolves hevolves).arises, halert.punctual⟩

end Broker

end RtpBroker
