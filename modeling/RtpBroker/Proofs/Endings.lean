import RtpBroker.Proofs.StatusHistory

/-!
# Endings

The story of a playback tells of its end once, and of none as long as it goes on.
The record of a playback is there as long as it goes on, and whoever has a record
sees in it whether the playback is over, and how it ended.
-/

namespace RtpBroker

def Effect.ending? : Effect → Option Phase
  | .finish _ p _ _ => some p
  | _ => none

def Verdict.phase : Verdict → Phase
  | .lapsed => .timedOut
  | .dropped => .cancelled
  | .played o => Session.endPhase o

def Condition.ending? : Condition → Option Phase
  | .settled v => some v.phase
  | _ => none

theorem Verdict.isFinished_phase (v : Verdict) : v.phase.isFinished = true := by
  cases v with
  | played o => exact Session.isFinished_endPhase o
  | _ => rfl

theorem Condition.ending?_of_digest {c : PlaySetup} {p : Condition} {d : Digest}
    (h : p.digest? c = some d) :
    p.ending? = if d.phase.isFinished = true then some d.phase else none := by
  cases p with
  | unknown => cases h
  | settled v =>
    cases h
    have hphase : (v.digest c).phase = v.phase := by cases v <;> rfl
    rw [hphase, if_pos v.isFinished_phase]
    rfl
  | _ =>
    cases h
    rfl

theorem Turn.endings {c : PlaySetup} {now : Nat} {id : Uuid} {cue : Session.Cue}
    {p p' : Condition} {es : List Effect} (h : Turn c now id cue p es p') :
    p.ending? = none ∧ es.filterMap Effect.ending? = p'.ending?.toList := by
  cases h <;> exact ⟨rfl, rfl⟩

theorem Life.endings {c : PlaySetup} {i : Nat} {id : Uuid} {story : List Entry} {p : Condition}
    (h : Life c i id story p) : story.filterMap (·.effect.ending?) = p.ending?.toList := by
  induction h with
  | unknown => rfl
  | turn _ ht ih =>
    obtain ⟨hnone, hends⟩ := ht.endings
    rw [List.filterMap_append, ih, hnone, List.filterMap_map]
    exact hends

namespace Exchange

/-- How a playback has ended, if it has. -/
def ending? (id : Uuid) (x : Exchange) : Option Phase :=
  (x.story id).findSome? (·.effect.ending?)

variable {c : PlaySetup} {asked : Request → Prop} {x x' : Exchange} {i : Nat} {id : Uuid}
  {p : Condition} {phase : Phase}

theorem Lives.ending? (h : Lives c x i id p) : x.ending? id = p.ending? := by
  rw [Exchange.ending?, ← List.head?_filterMap, h.life.endings]
  cases p.ending? <;> rfl

/-- The end of a playback is final. -/
theorem Beat.ending? (h : Beat c x x') (hx : x.ending? id = some phase) :
    x'.ending? id = some phase := by
  obtain ⟨rest, hrest⟩ : x.story id <+: x'.story id := h.journal.filter _
  rw [Exchange.ending?, ← hrest, List.findSome?_append]
  rw [Exchange.ending?] at hx
  rw [hx]
  rfl

/-- A record shows how the playback has ended, or that it goes on. -/
theorem Reached.ending?_of_record (hx : Reached c asked x) {r : PlaybackStatus}
    (hr : x.tracker.find? id = some r) :
    x.ending? id = if r.phase.isFinished = true then some r.phase else none := by
  obtain ⟨j, p, hl⟩ := hx.lives id
  rw [hl.ending?, Condition.ending?_of_digest (hl.recorded hr)]
  rfl

theorem Reached.known_of_record (hx : Reached c asked x) {r : PlaybackStatus}
    (hr : x.tracker.find? id = some r) : x.story id ≠ [] := by
  obtain ⟨j, p, hl⟩ := hx.lives id
  intro hnil
  have hlife := hl.life
  rw [hnil] at hlife
  obtain rfl := hlife.unknown_of_nil
  cases hl.recorded hr

/-- Every playback that is known has a record or is over. -/
def Listed (x : Exchange) : Prop :=
  ∀ id, x.story id ≠ [] → x.tracker.find? id = none → ∃ phase, x.ending? id = some phase

theorem Beat.listed (h : Beat c x x') (hx : Arises c x) (hd : x.tracker.Distinct)
    (hlisted : x.Listed) : x'.Listed := by
  intro id hknown hnone
  by_cases hnil : x.story id = []
  · -- Who becomes known has a record.
    cases h with
    | change h => exact absurd (h.unheard hx hnil) hknown
    | @enter i s r hi _ _ _ =>
      by_cases hid : id = r.id
      · rw [hid, find?_enter hi] at hnone
        cases hnone
      · exact absurd ((story_enter hid).trans hnil) hknown
    | clock => exact absurd hnil hknown
  · cases hx.fate hd hnil h with
    | leads _ hr' => cases hr'.symm.trans hnone
    | absent hr _ =>
      obtain ⟨phase, hphase⟩ := hlisted id hnil hr
      exact ⟨phase, h.ending? hphase⟩
    | @swept r _ _ hr hover _ _ =>
      have hended := hx.ending?_of_record hr
      rw [if_pos hover] at hended
      exact ⟨r.phase, h.ending? hended⟩

theorem Evolves.listed (h : Evolves c x x') (hx : Arises c x) (hd : x.tracker.Distinct)
    (hlisted : x.Listed) : x'.Listed := by
  induction h with
  | refl => exact hlisted
  | tail hrest hlast ih =>
    exact hlast.listed (Evolves.arises hrest hx) (Evolves.distinct hrest hd) ih

end Exchange

theorem Broker.Reachable.listed {b : Broker} (h : b.Reachable) : b.exchange.Listed := by
  obtain ⟨calendar, hx⟩ := h.exchange
  exact hx.listed (.start calendar) List.nodup_nil fun id hknown => absurd rfl hknown

end RtpBroker
