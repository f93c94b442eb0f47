import RtpBroker.Proofs.Endings

/-!
# What the metrics tell of playbacks

The metrics count each end under its label, and take a sample of each stream that is
over. So they are a function of the journal. A stream is over once its program is
drained or could not be started, and its file was made when it was started or that
was tried.
-/

namespace RtpBroker

theorem Phase.label_injective : Function.Injective Phase.label := by
  intro p q h
  cases p <;> cases q <;> first | rfl | exact absurd h (by decide)

namespace Family

/-- Counts some ends, each under its label. -/
def tally (ends : List Phase) (fam : Family Nat) : Family Nat :=
  ends.foldl (fun fam p => fam.change 0 [p.label] (· + 1)) fam

theorem count_tally (ends : List Phase) (fam : Family Nat) (p : Phase) :
    (fam.tally ends).count [p.label] = fam.count [p.label] + ends.count p := by
  induction ends generalizing fam with
  | nil => rfl
  | cons q ends ih =>
    have hone : (fam.change 0 [q.label] (· + 1)).count [p.label] =
        fam.count [p.label] + if q = p then 1 else 0 := by
      rw [count_change]
      by_cases h : q = p
      · simp [h]
      · rw [if_neg (fun heq => h (Phase.label_injective heq)), if_neg h]
    rw [tally, List.foldl_cons, ← tally, ih, hone, List.count_cons, Nat.add_assoc,
      Nat.add_comm (ends.count p)]
    simp

theorem mem_tally {ends : List Phase} {fam : Family Nat} {ls : List String}
    (h : ls ∈ (fam.tally ends).series.map (·.1)) :
    ls ∈ fam.series.map (·.1) ∨ ∃ p ∈ ends, ls = [p.label] := by
  induction ends generalizing fam with
  | nil => exact Or.inl h
  | cons q ends ih =>
    rcases ih h with hls | ⟨p, hp, hls⟩
    · rcases mem_change hls with hls | rfl
      · exact Or.inl hls
      · exact Or.inr ⟨q, List.mem_cons_self .., rfl⟩
    · exact Or.inr ⟨p, List.mem_cons_of_mem _ hp, hls⟩

end Family

def Effect.entered? : Effect → Option Uuid
  | .enter id _ => some id
  | _ => none

/-- Which playback has ended in a phase. -/
def Effect.endedIn? (p : Phase) : Effect → Option Uuid
  | .finish id q _ _ => if q = p then some id else none
  | _ => none

/-- Whose audio file is made. -/
def Effect.stored? : Effect → Option Uuid
  | .createFile id _ _ => some id
  | _ => none

/-- Whose stream a sample is taken of. -/
def Effect.sampled? : Effect → Option Uuid
  | .streamed id _ => some id
  | _ => none

/-- Whose program is started, or tried to be. -/
def Effect.tried? : Effect → Option Uuid
  | .launch id _ | .refused id (.notStarted _) => some id
  | _ => none

/-- Whose program is drained, or could not be started. -/
def Effect.through? : Effect → Option Uuid
  | .drained id _ | .refused id (.notStarted _) => some id
  | _ => none

namespace Session

variable {c : PlaySetup} {now : Nat} {cue : Cue} {s s' : Session} {es : List Effect}

theorem Move.stored (h : Move c now cue s es s') :
    es.filterMap Effect.stored? = es.filterMap Effect.tried? := by
  cases h with
  | hear sender =>
    unfold Session.hear
    dsimp only
    split <;> rfl
  | _ => rfl

theorem Move.sampled (h : Move c now cue s es s') :
    es.filterMap Effect.sampled? = es.filterMap Effect.through? := by
  cases h with
  | hear sender =>
    unfold Session.hear
    dsimp only
    split <;> rfl
  | _ => rfl

end Session

namespace Exchange

variable {c : PlaySetup} {x x' : Exchange} {i : Nat} {id : Uuid} {f : Effect → Option Uuid}

/-- The playbacks that effects of a kind tell about. -/
def told (f : Effect → Option Uuid) (x : Exchange) : List Uuid :=
  x.journal.filterMap (f ·.effect)

/-- The ends of playbacks, in which phase each. -/
def ends (x : Exchange) : List Phase := x.journal.filterMap (·.effect.ending?)

theorem playbacks_performs (es : List Effect) (x : Exchange) :
    (es.foldl (perform i) x).metrics.playbacks =
      x.metrics.playbacks.tally (es.filterMap Effect.ending?) := by
  induction es generalizing x with
  | nil => rfl
  | cons e es ih =>
    rw [List.foldl_cons, ih]
    cases e <;> rfl

theorem samples_performs (es : List Effect) (x : Exchange) :
    (es.foldl (perform i) x).metrics.streamSeconds.samples =
      x.metrics.streamSeconds.samples + (es.filterMap Effect.sampled?).length := by
  induction es generalizing x with
  | nil => rfl
  | cons e es ih =>
    rw [List.foldl_cons, ih]
    cases e with
    | streamed id ms =>
      rw [List.filterMap_cons_some (show (Effect.streamed id ms).sampled? = some id from rfl),
        List.length_cons, Nat.add_comm _ 1, ← Nat.add_assoc]
      rfl
    | _ => rfl

/-- The metrics are a function of the journal. -/
structure Tallied (x : Exchange) : Prop where
  playbacks : x.metrics.playbacks = Family.tally x.ends {}
  samples : x.metrics.streamSeconds.samples = (x.told Effect.sampled?).length
  stored : x.told Effect.stored? = x.told Effect.tried?
  sampled : x.told Effect.sampled? = x.told Effect.through?

theorem told_performs (f : Effect → Option Uuid) (es : List Effect) (x : Exchange) :
    (es.foldl (perform i) x).told f = x.told f ++ es.filterMap f := by
  rw [told, journal_performs, List.filterMap_append, List.filterMap_map]
  rfl

theorem ends_performs (es : List Effect) (x : Exchange) :
    (es.foldl (perform i) x).ends = x.ends ++ es.filterMap Effect.ending? := by
  rw [ends, journal_performs, List.filterMap_append, List.filterMap_map]
  rfl

theorem Beat.tallied (h : Beat c x x') (hx : x.Tallied) : x'.Tallied := by
  cases h.shift with
  | still h =>
    have htold : ∀ f, x'.told f = x.told f := fun f => by rw [told, h.journal, told]
    refine ⟨?_, ?_, ?_, ?_⟩
    · rw [h.playbacks, hx.playbacks, ends, ends, h.journal]
    · rw [h.streamSeconds, hx.samples, htold]
    · rw [htold, htold, hx.stored]
    · rw [htold, htold, hx.sampled]
  | move hi hmove _ =>
    refine ⟨?_, ?_, ?_, ?_⟩
    · rw [playbacks_performs, ends_performs]
      refine (congrArg (Family.tally _) hx.playbacks).trans ?_
      exact List.foldl_append.symm
    · rw [samples_performs, told_performs, List.length_append]
      exact congrArg (· + _) hx.samples
    · rw [told_performs, told_performs, hmove.stored]
      exact congrArg (· ++ _) hx.stored
    · rw [told_performs, told_performs, hmove.sampled]
      exact congrArg (· ++ _) hx.sampled
  | clock => exact ⟨hx.playbacks, hx.samples, hx.stored, hx.sampled⟩

theorem Evolves.tallied (h : Evolves c x x') (hx : x.Tallied) : x'.Tallied := by
  induction h with
  | refl => exact hx
  | tail _ hlast ih => exact hlast.tallied ih

end Exchange

theorem Broker.Reachable.tallied {b : Broker} (h : b.Reachable) : b.exchange.Tallied := by
  obtain ⟨calendar, hx⟩ := h.exchange
  exact hx.tallied ⟨rfl, rfl, rfl, rfl⟩

end RtpBroker
