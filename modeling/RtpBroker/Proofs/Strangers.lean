import RtpBroker.Proofs.Maturity
import RtpBroker.Proofs.WaitTimes

/-!
# Playbacks nobody has heard of

Until a playback is accepted no session has to do with it, and no alarm is set for it.
-/

namespace RtpBroker

/-- No session has to do with the playback, and nobody is to wake it. -/
def Exchange.Stranger (id : Uuid) (x : Exchange) : Prop :=
  (∀ (i : Nat) s, x.sessions[i]? = some s → id ∉ s.playbacks) ∧
    ∀ al ∈ x.agenda, ∀ i, al.sleeper ≠ .playback i id

theorem Exchange.Steps.stranger {c : PlaySetup} {cues : List Session.Cue} {x x' : Exchange}
    {id : Uuid} (h : Steps c cues x x') (hid : .enter id ∉ cues) (hx : x.Stranger id) :
    x'.Stranger id := by
  induction h with
  | refl => exact hx
  | tail _ hstep ih =>
    rcases hstep.cases_on with hidle | ⟨i, s, s', es, cue, hcue, hi, hmove, rfl⟩
    · refine ⟨fun j t ht => ?_, hidle.idle.agenda ▸ ih.2⟩
      rcases hidle.idle.sessions j t ht with ⟨s₀, footing, hs₀, rfl⟩ | ⟨-, port, rfl⟩
      · exact ih.1 j s₀ hs₀
      · simp [Session.playbacks, Session.queued, Session.opened]
    · have hnot : id ∉ s.playbacks := ih.1 i s hi
      refine ⟨fun j t ht hmem => ?_, fun al hal j => ?_⟩
      · rcases session_of_move ht with ⟨rfl, rfl⟩ | ⟨-, ht⟩
        · rcases hmove.playback hmem with hmem | hentered
          · exact hnot hmem
          · exact hid (hmove.entered hentered ▸ hcue)
        · exact ih.1 j t ht hmem
      · rw [agenda_performs] at hal
        rcases List.mem_append.mp hal with hal | hal
        · exact ih.2 al hal j
        · obtain ⟨e, he, halarm⟩ := List.mem_filterMap.mp hal
          cases e with
          | alarm due id' =>
            cases halarm
            rintro ⟨⟩
            exact hnot (hmove.alarmed he)
          | _ => cases halarm

namespace Instant

variable {c : PlaySetup} {b : Instant} {id : Uuid} {m : Moment}

def Stranger (id : Uuid) (b : Instant) : Prop :=
  b.exchange.Stranger id ∧ ∀ al ∈ b.ringing, ∀ i, al.sleeper ≠ .playback i id

theorem Stranger.step (h : b.Stranger id) (hm : m.playback? ≠ some id) :
    (b.step c m).Stranger id := by
  obtain ⟨x, rem⟩ := b
  obtain ⟨hx, hrem⟩ := h
  cases m with
  | event e he =>
    exact ⟨(Exchange.apply_steps c x e he).stranger (Exchange.Event.enter_not_mem hm) hx, hrem⟩
  | ring k =>
    change (ring c k ⟨x, rem⟩).Stranger id
    cases hk : rem[k]? with
    | none =>
      rw [ring_none hk]
      exact ⟨hx, hrem⟩
    | some al =>
      rw [ring_some hk]
      exact ⟨(Exchange.ring_steps c x al).stranger (by simp) hx,
        fun al' hal' => hrem al' (List.mem_of_mem_eraseIdx hal')⟩
  | pass ms =>
    change (pass ms ⟨x, rem⟩).Stranger id
    have hpassed := pass_passed ms x rem
    generalize pass ms ⟨x, rem⟩ = b' at hpassed ⊢
    cases hpassed with
    | held => exact ⟨hx, hrem⟩
    | due =>
      exact ⟨⟨hx.1, fun al hal => hx.2 al (List.mem_filter.mp hal).1⟩,
        fun al hal => hx.2 al (List.mem_filter.mp hal).1⟩
    | early => exact ⟨hx, hrem⟩

theorem Stranger.run (h : b.Stranger id) {before : List Moment}
    (hbefore : ∀ m ∈ before, m.playback? ≠ some id) : (Instant.run c before b).Stranger id := by
  induction before generalizing b with
  | nil => exact h
  | cons m before ih =>
    exact ih (h.step (hbefore m (List.mem_cons_self ..))) fun m' hm' =>
      hbefore m' (List.mem_cons_of_mem _ hm')

theorem Stranger.unwoken (h : b.Stranger id) (i : Nat) : (b.watch i).Unwoken id := by
  refine ⟨fun hmem => ?_, fun al hal heq => ?_⟩
  · obtain ⟨⟨due, id'⟩, hal, rfl⟩ := List.mem_map.mp hmem
    obtain ⟨al, hal, hwake⟩ := List.mem_filterMap.mp hal
    exact h.2 al hal i (Alarm.sleeper_of_wake? hwake)
  · obtain ⟨al', hal', hwake⟩ := List.mem_filterMap.mp hal
    exact h.1.2 al' hal' i (heq ▸ Alarm.sleeper_of_wake? hwake)

end Instant

end RtpBroker
