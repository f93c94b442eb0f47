import RtpBroker.Proofs.Runs

/-!
# What decides how a playback ends

A playback comes to its end because its time was up, because its session was
closed, because the machine refused it, or because its program ended. Each cause
leaves a mark of its own in the journal, and an event leaves such a mark exactly if
the cause is given in the exchange in which it happens.
-/

namespace RtpBroker

inductive Cause
  /-- The time was up, and the address of the peer was not known. -/
  | lapse
  /-- The session was closed before the playback was over. -/
  | closure
  /-- The machine did not make the file or did not start the program. -/
  | refusal (o : Outcome)
  /-- The program ended by itself, or it could not be waited for. -/
  | ending (e : Ending)
  deriving DecidableEq

/-- What the record of a playback shows in the end. -/
def Cause.digest (c : PlaySetup) : Cause → Digest
  | .lapse => ⟨.timedOut, none, some (Fault.remoteUnknown (UInt64.ofNat c.ceiling)).message, true⟩
  | .closure => ⟨.cancelled, none, none, true⟩
  | .refusal o => ⟨.failed, none, o.fault.map Fault.message, true⟩
  | .ending e => ⟨if e = .exit (some 0) then .completed else .failed, (Outcome.ended e).exitCode,
      (Outcome.ended e).fault.map Fault.message, true⟩

namespace Cause

variable (c : PlaySetup) (cause : Cause)

theorem timedOut_iff : (cause.digest c).phase = .timedOut ↔ cause = .lapse := by
  cases cause with
  | ending e => by_cases he : e = .exit (some 0) <;> simp [digest, he]
  | _ => simp [digest]

theorem cancelled_iff : (cause.digest c).phase = .cancelled ↔ cause = .closure := by
  cases cause with
  | ending e => by_cases he : e = .exit (some 0) <;> simp [digest, he]
  | _ => simp [digest]

theorem failed_iff : (cause.digest c).phase = .failed ↔
    (∃ o, cause = .refusal o) ∨ (∃ code, code ≠ some 0 ∧ cause = .ending (.exit code)) ∨
      ∃ reason, cause = .ending (.unawaited reason) := by
  cases cause with
  | ending e =>
    cases e with
    | exit code => by_cases hcode : code = some 0 <;> simp [digest, hcode]
    | unawaited reason => simp [digest]
  | _ => simp [digest]

theorem completed_iff : (cause.digest c).phase = .completed ↔ cause = .ending (.exit (some 0)) := by
  cases cause with
  | ending e => by_cases he : e = .exit (some 0) <;> simp [digest, he]
  | _ => simp [digest]

variable {c cause} in
/-- Only a program that ended leaves a code. -/
theorem eq_of_exitCode {code : Int} (h : (cause.digest c).exitCode = some code) :
    cause = .ending (.exit (some code)) := by
  cases cause with
  | ending e =>
    cases e with
    | exit code' => exact congrArg (fun k => Cause.ending (.exit k)) h
    | unawaited reason => cases h
  | _ => cases h

end Cause

def Verdict.cause : Verdict → Cause
  | .lapsed => .lapse
  | .dropped | .played .aborted => .closure
  | .played (.ended e) => .ending e
  | .played o => .refusal o

theorem Outcome.succeeded_ended (ending : Ending) :
    (Outcome.ended ending).succeeded = true ↔ ending = .exit (some 0) := by
  cases ending <;> simp [succeeded, exitCode]

theorem Verdict.digest_cause (c : PlaySetup) (v : Verdict) : v.cause.digest c = v.digest c := by
  rcases v with _ | _ | ending | _ | _ | _
  case ended =>
    simp only [Verdict.cause, Cause.digest, Verdict.digest, Session.endPhase,
      Outcome.succeeded_ended]
  all_goals
    simp [Verdict.cause, Cause.digest, Verdict.digest, Session.endPhase, Outcome.succeeded,
      Outcome.exitCode, Outcome.fault]

/-- The mark of a cause in the journal. -/
def Cause.Marks (id : Uuid) : Cause → Effect → Prop
  | .lapse, e => ∃ code fault, e = .finish id .timedOut code fault
  | .closure, e => e = .dropped id ∨ e = .killed id
  | .refusal o, e => e = .refused id o
  | .ending how, e => e = .exited id how

theorem Cause.Marks.subject? {id : Uuid} {cause : Cause} {e : Effect} (h : cause.Marks id e) :
    e.subject? = some id := by
  cases cause with
  | lapse =>
    obtain ⟨code, fault, rfl⟩ := h
    rfl
  | closure => rcases h with rfl | rfl <;> rfl
  | refusal o => exact h ▸ rfl
  | ending how => exact h ▸ rfl

namespace Life

variable {c : PlaySetup} {i : Nat} {id : Uuid} {story : List Entry} {v : Verdict}

/-- The story of a playback that is over has the mark of one cause only. -/
theorem marks_iff (h : Life c i id story (.settled v)) (cause : Cause) :
    (∃ n ∈ story, cause.Marks id n.effect) ↔ cause = v.cause := by
  have hne := Session.endPhase_ne_timedOut
  cases v with
  | lapsed =>
    obtain ⟨t₁, port, t₂, rfl⟩ := h.eq_of_lapsed
    cases cause <;> simp [Cause.Marks, Verdict.cause]
  | dropped =>
    obtain ⟨t₁, port, t₂, rfl⟩ := h.eq_of_dropped
    cases cause <;> simp [Cause.Marks, Verdict.cause]
  | played o =>
    rcases h.eq_of_played with ⟨ho, t₁, port, t₂, rfl⟩ |
      ⟨t₁, port, t₂, arguments, t₃, e, t₄, timeUp, he, -, -, rfl⟩
    · cases o <;> cases cause <;>
        simp_all [Cause.Marks, Verdict.cause, Session.finishEffect, Outcome.IsRefusal, eq_comm]
    · cases he <;> cases cause <;>
        simp [Cause.Marks, Verdict.cause, Session.finishEffect, Life.started, hne]
      exact eq_comm

/-- Who had its turn was refused by the machine then, or its program was started. -/
theorem refused_or_launched (h : Life c i id story (.settled v)) {t : Nat}
    (hphase : ⟨t, i, .phase id .streaming⟩ ∈ story) :
    (∃ t o, ⟨t, i, .refused id o⟩ ∈ story) ∨
      ∃ t arguments, ⟨t, i, .launch id arguments⟩ ∈ story := by
  cases v with
  | lapsed =>
    obtain ⟨t₁, port, t₂, rfl⟩ := h.eq_of_lapsed
    simp at hphase
  | dropped =>
    obtain ⟨t₁, port, t₂, rfl⟩ := h.eq_of_dropped
    simp at hphase
  | played o =>
    rcases h.eq_of_played with ⟨-, t₁, port, t₂, rfl⟩ |
      ⟨t₁, port, t₂, arguments, t₃, e, t₄, timeUp, -, -, -, rfl⟩
    · exact Or.inl ⟨t₂, o, by simp⟩
    · exact Or.inr ⟨t₂, arguments, by simp [started]⟩

theorem phase_of_refused (h : Life c i id story (.settled v)) {n : Entry} {o : Outcome}
    (hn : n ∈ story) (he : n.effect = .refused id o) :
    ∃ t, ⟨t, i, .phase id .streaming⟩ ∈ story := by
  have hcause := (h.marks_iff (.refusal o)).mp ⟨n, hn, he⟩
  cases v with
  | lapsed => cases hcause
  | dropped => cases hcause
  | played o' =>
    rcases h.eq_of_played with ⟨-, t₁, port, t₂, rfl⟩ |
      ⟨t₁, port, t₂, arguments, t₃, e, t₄, timeUp, -, -, -, rfl⟩
    · exact ⟨t₂, by simp⟩
    · exact ⟨t₂, by simp [started]⟩

end Life

namespace Session

variable {c : PlaySetup} {now : Nat} {id : Uuid}

theorem endProgram_exited (ending ending' : Ending) (held : Bool) (s : Session) :
    .exited id ending' ∈ (s.endProgram c now ending held).2 ↔
      ending = ending' ∧ ∃ st, s.slot = some st ∧ st.id = id ∧ st.program = .running := by
  have hrest : ∀ t : Session, .exited id ending' ∉ (t.handOver c now).2 := by
    intro t
    suffices h : ∀ cues s es s', Moves c now cues s es s' → (∀ k held, .exit k held ∉ cues) →
        .exited id ending' ∉ es from h _ _ _ _ (handOver_moves c now t) (by simp)
    intro cues s es s' hmoves hcues
    induction hmoves with
    | refl => exact List.not_mem_nil
    | head hcue hmove _ ih =>
      rw [List.mem_append, not_or]
      refine ⟨fun hmem => ?_, ih⟩
      obtain ⟨held, rfl⟩ := hmove.exited hmem
      exact hcues ending' held hcue
  unfold endProgram
  split
  · next hslot => simp [hslot]
  · next st hslot =>
    split
    · next hp => simp [hslot, hp]
    · next hp =>
      split
      · simp [hslot, hp, and_comm, eq_comm]
      · simp [hslot, hp, release, finishEffect, hrest, and_comm, eq_comm]

theorem close_standing (now : Nat) (s : Session) (standing : Standing) :
    (close now { s with standing }).2 = (s.close now).2 := by
  unfold close
  cases hslot : s.slot with
  | none => simp [shut, advanceTo]
  | some st =>
    cases houtlives : st.outlives <;> cases hprogram : st.program <;>
      simp [shut, advanceTo, hprogram, houtlives]

theorem close_marks (s : Session) :
    (∃ e ∈ (s.close now).2, Cause.closure.Marks id e) ↔
      id ∈ s.queued ∨ ∃ st, s.slot = some st ∧ st.id = id ∧ st.program = .running := by
  have hdrops : (∃ e ∈ s.queued.flatMap drop, Cause.closure.Marks id e) ↔ id ∈ s.queued := by
    constructor
    · rintro ⟨e, he, hmark⟩
      obtain ⟨k, hk, hek⟩ := List.mem_flatMap.mp he
      have hid : k = id := by
        rcases List.mem_cons.mp hek with rfl | hek
        · simpa [Cause.Marks] using hmark
        · simp_all [Cause.Marks]
      exact hid ▸ hk
    · exact fun h => ⟨.dropped id, List.mem_flatMap.mpr ⟨id, h, by simp [drop]⟩, Or.inl rfl⟩
  have hes : s.queued.flatMap drop =
      (s.waiting.map (·.request.id) ++ s.line.map (·.id)).flatMap drop := rfl
  unfold close
  dsimp only
  rw [← hes]
  split
  · next hslot =>
    rw [hdrops]
    have hnone : s.slot = none := hslot
    simp [hnone]
  · next st hslot =>
    have hsome : s.slot = some st := hslot
    split
    · next hp =>
      rw [hdrops]
      simp [hsome, hp]
    · next hp =>
      split <;>
        simp only [List.mem_append, or_and_right, exists_or, hdrops] <;>
        simp [Cause.Marks, hsome, hp, finishEffect, eq_comm]

end Session

end RtpBroker
