import RtpBroker.Proofs.Lives

/-!
# What the tracker shows

A record of the tracker shows the phase of a playback, and how it ended. Only the
effects that tell about a playback change its record, and every turn of its life
brings the record to what its condition says.
-/

namespace RtpBroker

/-- A record without its times. -/
structure Digest where
  phase : Phase
  exitCode : Option Int := none
  fault : Option String := none
  isFinished : Bool := false
  deriving DecidableEq

def PlaybackStatus.digest (r : PlaybackStatus) : Digest :=
  ⟨r.phase, r.exitCode, r.fault, r.finished.isSome⟩

def Verdict.digest (c : PlaySetup) : Verdict → Digest
  | .lapsed =>
    ⟨.timedOut, none, some (Fault.remoteUnknown (UInt64.ofNat c.ceiling)).message, true⟩
  | .dropped => ⟨.cancelled, none, none, true⟩
  | .played o => ⟨Session.endPhase o, o.exitCode, o.fault.map Fault.message, true⟩

def Condition.digest? (c : PlaySetup) : Condition → Option Digest
  | .unknown => none
  | .pending => some { phase := .waiting }
  | .running | .lingering _ _ => some { phase := .streaming }
  | .settled v => some (v.digest c)

/-- What an effect makes of the record of a playback. -/
def Effect.revise (id : Uuid) : Effect → Option Digest → Option Digest
  | .enter k _, d => if k = id then some { phase := .waiting } else d
  | .phase k p, d => if k = id then d.map ({ · with phase := p }) else d
  | .finish k p exitCode fault, d =>
    if k = id then d.map fun _ => ⟨p, exitCode, fault.map Fault.message, true⟩ else d
  | _, d => d

theorem Effect.revise_of_not_about {id : Uuid} {e : Effect} (h : e.isAbout id = false)
    (d : Option Digest) : e.revise id d = d := by
  cases e <;> simp_all [Effect.isAbout, Effect.subject?, Effect.revise]

theorem foldl_revise_filter (id : Uuid) (es : List Effect) (d : Option Digest) :
    (es.filter (Effect.isAbout id)).foldl (fun d e => e.revise id d) d =
      es.foldl (fun d e => e.revise id d) d := by
  induction es generalizing d with
  | nil => rfl
  | cons e es ih =>
    cases h : e.isAbout id with
    | true => rw [List.filter_cons_of_pos h, List.foldl_cons, List.foldl_cons, ih]
    | false =>
      rw [List.filter_cons_of_neg (by simp [h]), List.foldl_cons, Effect.revise_of_not_about h, ih]

/-- A turn brings the record to what the new condition says. -/
theorem Turn.digest {c : PlaySetup} {now : Nat} {id : Uuid} {cue : Session.Cue}
    {p p' : Condition} {es : List Effect} (h : Turn c now id cue p es p') :
    es.foldl (fun d e => e.revise id d) (p.digest? c) = p'.digest? c := by
  cases h <;> simp [Effect.revise, Condition.digest?, Verdict.digest, Session.finishEffect,
    Session.endPhase]

namespace Exchange

/-- What every record of a playback shows. -/
def Shows (d : Option Digest) (id : Uuid) (x : Exchange) : Prop :=
  ∀ r ∈ x.tracker.records, r.id = id → d = some r.digest

variable {id : Uuid} {d : Option Digest} {i : Nat} {x : Exchange}

theorem Shows.update (h : x.Shows d id) (k : Uuid) {f : PlaybackStatus → PlaybackStatus}
    {g : Digest → Digest} (hf : ∀ r, (f r).id = r.id) (hg : ∀ r, (f r).digest = g r.digest) :
    { x with tracker := x.tracker.update k f }.Shows (if k = id then d.map g else d) id := by
  intro r hr hid
  obtain ⟨r', hr', rfl⟩ := List.mem_map.mp hr
  by_cases hk : r'.id = k
  · rw [if_pos hk, hf] at hid
    rw [if_pos hk, hg, if_pos (hk.symm.trans hid), h r' hr' hid]
    rfl
  · rw [if_neg hk] at hid ⊢
    rw [if_neg fun heq => hk (hid.trans heq.symm)]
    exact h r' hr' hid

theorem Shows.perform (h : x.Shows d id) (e : Effect) :
    (x.perform i e).Shows (e.revise id d) id := by
  cases e with
  | enter k port =>
    intro r hr hid
    rcases List.mem_append.mp hr with hr | hr
    · obtain ⟨hr, hne⟩ := List.mem_filter.mp hr
      have hk : k ≠ id := fun heq => by simp [hid, heq] at hne
      rw [Effect.revise, if_neg hk]
      exact h r hr hid
    · obtain rfl := List.mem_singleton.mp hr
      rw [Effect.revise, if_pos (show k = id from hid)]
      rfl
  | phase k p => exact h.update k (fun _ => rfl) fun _ => rfl
  | finish k p exitCode fault => exact h.update k (fun _ => rfl) fun _ => rfl
  | _ => exact h

theorem Shows.performs (h : x.Shows d id) (es : List Effect) :
    (es.foldl (Exchange.perform i) x).Shows
      ((es.filter (Effect.isAbout id)).foldl (fun d e => e.revise id d) d) id := by
  rw [foldl_revise_filter]
  induction es generalizing x d with
  | nil => exact h
  | cons e es ih => exact ih (h.perform e)

end Exchange

end RtpBroker
