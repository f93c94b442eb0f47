import Mathlib.Data.List.Induction
import RtpBroker.Proofs.Accounting

/-!
# Where requests come from

The sessions of a broker hold only requests that it has granted: each is a playback
that an event of the run asked for, with its payload and its format, and that was
accepted on the port that was asked for.
-/

namespace RtpBroker

open Session (Move)

namespace Exchange

variable {c : PlaySetup} {asked asked' : Request → Prop} {x x' : Exchange} {i : Nat}

theorem Reached.mono (h : Reached c asked x) (hle : ∀ r, asked r → asked' r) :
    Reached c asked' x := by
  induction h with
  | start calendar => exact .start calendar
  | move _ hi hmove hnew hasked ih => exact ih.move hi hmove hnew fun r hr => hle r (hasked r hr)
  | idle _ hs ih => exact ih.idle hs
  | clock _ hnow hsound agenda ih => exact ih.clock hnow hsound agenda

theorem story_enter_self {s : Session} {r : Request} (hi : x.sessions[i]? = some s) :
    (x.enter c i r).story r.id ≠ [] := by
  rw [enter, stepSession_some hi, story_performs]
  simp [Session.enter, Effect.isAbout, Effect.subject?]

/-- A beat that makes nothing known asks for nothing. -/
theorem Beat.reached (h : Beat c x x') (hx : Reached c asked x)
    (hquiet : ∀ id, x.story id = [] → x'.story id = []) : Reached c asked x' := by
  cases h with
  | change h => exact h.reached hx
  | enter r hi _ _ hnew => exact absurd (hquiet r.id hnew) (story_enter_self hi)
  | clock hnow hsound agenda => exact hx.clock hnow hsound agenda

theorem Evolves.known (h : Evolves c x x') {id : Uuid} (hx : x.story id ≠ []) :
    x'.story id ≠ [] := by
  induction h with
  | refl => exact hx
  | tail _ hlast ih => exact hlast.known ih

theorem Evolves.reached (h : Evolves c x x') (hx : Reached c asked x)
    (hquiet : ∀ id, x.story id = [] → x'.story id = []) : Reached c asked x' := by
  induction h with
  | refl => exact hx
  | @tail y z hrest hlast ih =>
    -- What is unheard of in the end has been so all along.
    have hbefore : ∀ id, x.story id = [] → y.story id = [] := fun id hnil =>
      Decidable.byContradiction fun hne => hlast.known hne (hquiet id hnil)
    refine hlast.reached (ih hbefore) fun id hnil => hquiet id ?_
    exact Decidable.byContradiction fun hne => Evolves.known hrest hne hnil

/-- Who is accepted is asked for, and everybody else was before. -/
theorem Reached.play (h : Reached c asked x) (port : Port) (payload : ByteArray)
    (format : Option String) {id : Uuid} (hnew : x.story id = [])
    (hle : ∀ r, asked r → asked' r)
    (hasked : ∀ f i, (x.play c port payload format id).1 = .ok id → x.numberAt? port = some i →
      AudioFormat.check format = .ok f →
      (x.play c port payload format id).2 = x.stepSession i (·.accept c x.now ⟨id, payload, f⟩) →
      asked' ⟨id, payload, f⟩) :
    Reached c asked' (x.play c port payload format id).2 := by
  cases hplace : x.refusalOrPlace port payload format with
  | error e =>
    have hsame : (x.play c port payload format id).2 = x := by
      unfold Exchange.play
      rw [hplace]
    rw [hsame]
    exact h.mono hle
  | ok place =>
    obtain ⟨f, i⟩ := place
    obtain ⟨hnumber, hformat, s, hi, -⟩ := refusalOrPlace_ok x hplace
    have hplay : x.play c port payload format id =
        (.ok id, x.stepSession i (·.accept c x.now ⟨id, payload, f⟩)) := by
      unfold Exchange.play
      rw [hplace]
    let r : Request := ⟨id, payload, f⟩
    have hgranted : asked' r :=
      hasked f i (congrArg Prod.fst hplay) hnumber hformat (congrArg Prod.snd hplay)
    have hentered : Reached c asked' (x.enter c i r) := by
      rw [enter, stepSession_some hi]
      refine (h.mono hle).move hi (.enter s r) (fun k heq => by cases heq; exact hnew)
        fun r' hr' => ?_
      rcases Session.requests_enter hr' with hr' | rfl
      · exact hle r' (h.requested i s hi r' hr')
      · exact hgranted
    have hlooks : Steps c [.look] (x.enter c i r) (x.stepSession i (·.accept c x.now r)) := by
      have hi' : (x.enter c i r).sessions[i]? = some (s.enter c x.now r).1 :=
        session_stepSession hi
      rw [stepSession_accept, enter, stepSession_some (session_stepSession hi)]
      exact steps_of_moves (Session.look_moves c x.now
        (List.mem_append_right _ (List.mem_singleton_self _))) (now_stepSession ..) hi'
    rw [hplay]
    exact hlooks.reached hentered (by simp)

end Exchange

namespace Broker

open Exchange (Reached)

variable {b₀ : Broker} {events : List Event} {setup : BrokerSetup} {calendar : Timestamp}

end Broker

end RtpBroker
