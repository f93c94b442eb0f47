import RtpBroker.Proofs.Accounting
import RtpBroker.Proofs.Activity

/-!
# The tasks of a session

A session keeps the handles of the tasks of its playbacks, until its teardown takes
them. It drops those of tasks that are over only when the next one comes, so it may keep
more handles than there are tasks. But no task goes on without one: the handles of the
tasks that go on are those of the playbacks accepted in the session that wait or stream,
in the order in which they were accepted.
-/

namespace RtpBroker

namespace Session

variable {c : PlaySetup} {now : Nat} {cue : Cue} {s s' : Session} {es : List Effect}

/-- A move drops handles, and adds that of a playback it accepts. -/
theorem Move.handles (h : Move c now cue s es s') :
    s'.joined = s.joined ∧
      ∃ kept, kept.Sublist s.handles ∧ s'.handles = kept ++ es.filterMap Effect.entered? := by
  cases h with
  | hear sender =>
    unfold Session.hear
    dsimp only
    split <;> exact ⟨rfl, s.handles, .refl _, (List.append_nil _).symm⟩
  | enter _ r => exact ⟨rfl, s.handles.filter s.isUnfinished, List.filter_sublist, rfl⟩
  | _ => exact ⟨rfl, s.handles, .refl _, (List.append_nil _).symm⟩

end Session

namespace Exchange

variable {c : PlaySetup} {x x' : Exchange} {i j : Nat} {es : List Effect}

theorem acceptedIn_eq (i : Nat) (x : Exchange) :
    x.acceptedIn i = (x.journal.filter (·.session = i)).filterMap (·.effect.entered?) := by
  rw [acceptedIn, List.filterMap_filter]
  refine List.filterMap_congr fun n _ => ?_
  cases n.effect <;> simp [Effect.entered?]

theorem acceptedIn_performs (es : List Effect) (x : Exchange) :
    (es.foldl (perform i) x).acceptedIn j =
      x.acceptedIn j ++ if i = j then es.filterMap Effect.entered? else [] := by
  rw [acceptedIn_eq, acceptedIn_eq, journal_performs, List.filter_append, List.filterMap_append]
  congr 1
  split
  · next hij =>
    subst hij
    simp [List.filter_map, List.filterMap_map, Function.comp_def]
  · next hij => simp [List.filter_map, Function.comp_def, hij]

/-- A session has handles only of playbacks accepted in it, in the order in which they were. -/
def Handled (x : Exchange) : Prop :=
  ∀ (i : Nat) s, x.sessions[i]? = some s →
    s.handles.Sublist (x.acceptedIn i) ∧ s.joined.Sublist (x.acceptedIn i)

theorem Shift.handled (h : Shift c x x') (hx : x.Handled) : x'.Handled := by
  intro j t ht
  cases h with
  | still h =>
    rw [acceptedIn_eq, h.journal, ← acceptedIn_eq]
    rcases h.comes j t ht with ⟨s, hs, hrecedes⟩ | ⟨-, port, rfl⟩
    · obtain ⟨hhandles, hjoined⟩ := hx j s hs
      cases hrecedes with
      | leaves => exact ⟨List.nil_sublist _, hhandles⟩
      | _ => exact ⟨hhandles, hjoined⟩
    · exact ⟨List.nil_sublist _, List.nil_sublist _⟩
  | @move i cue s s' es hi hmove hadmits =>
    rw [acceptedIn_performs]
    rcases session_of_move ht with ⟨rfl, rfl⟩ | ⟨hji, ht⟩
    · obtain ⟨hsame, kept, hkept, hhandles⟩ := hmove.handles
      obtain ⟨hold, hjoined⟩ := hx j s hi
      rw [if_pos rfl, hsame, hhandles]
      exact ⟨(hkept.trans hold).append (.refl _), hjoined.trans (List.sublist_append_left ..)⟩
    · rw [if_neg (Ne.symm hji), List.append_nil]
      exact hx j t ht
  | clock => exact hx j t ht

theorem Evolves.handled (h : Evolves c x x') (hx : x.Handled) : x'.Handled := by
  induction h with
  | refl => exact hx
  | tail _ hlast ih => exact hlast.shift.handled ih

/-- No playback is accepted twice, in whichever session. -/
theorem Reached.nodup_acceptedIn {asked : Request → Prop} (h : Reached c asked x) (i : Nat) :
    (x.acceptedIn i).Nodup := by
  rw [acceptedIn_eq]
  exact h.nodup_accepted.sublist (List.filter_sublist.filterMap _)

end Exchange

namespace Broker

variable {b : Broker} {i : Nat} {s : Session}

/-- Whether a playback waits or streams, as its record shows. -/
def isOpen (b : Broker) (id : Uuid) : Bool := (b.status? id).any (!·.phase.isFinished)

/-- What the handles of a session tell of the playbacks accepted in it. -/
structure Tracks (i : Nat) (s : Session) (b : Broker) : Prop where
  order : (s.handles ++ s.joined).Sublist (b.exchange.acceptedIn i)
  unfinished : (s.handles ++ s.joined).filter s.isUnfinished =
    (b.exchange.acceptedIn i).filter b.isOpen
  busy : s.standing = .registered →
    (s.isBusy = true ↔ ∃ id ∈ b.exchange.acceptedIn i, b.isOpen id = true)
  joined : s.standing ≠ .registered →
    (s.isJoined = true ↔ ∀ id ∈ b.exchange.acceptedIn i, b.isOpen id = false)

theorem Reachable.handled (hb : b.Reachable) : b.exchange.Handled := by
  obtain ⟨calendar, hx⟩ := hb.exchange
  exact hx.handled fun i s hi => by cases hi

theorem Reachable.mem_playbacks_iff (hb : b.Reachable) (hi : b.session? i = some s) {id : Uuid} :
    id ∈ s.playbacks ↔ id ∈ b.exchange.acceptedIn i ∧ b.isOpen id = true := by
  have hphase (p : Phase) : (!p.isFinished) = true ↔ p = .waiting ∨ p = .streaming := by
    cases p <;> decide
  simp only [isOpen, Option.any_eq_true, hphase]
  exact hb.arises.mem_playbacks_iff hb.listed hi

theorem Reachable.tracks (hb : b.Reachable) (hi : b.session? i = some s) : Tracks i s b := by
  obtain ⟨hhandles, hjoined⟩ := hb.handled i s hi
  have hplaced := hb.placed i s hi
  have hmem (id : Uuid) : id ∈ s.playbacks ↔ id ∈ b.exchange.acceptedIn i ∧ b.isOpen id = true :=
    hb.mem_playbacks_iff hi
  have hnodup := hb.arises.nodup_acceptedIn i
  -- Either the session has the handles or its teardown does.
  have horder : (s.handles ++ s.joined).Sublist (b.exchange.acceptedIn i) := by
    by_cases hs : s.standing = .registered
    · rwa [hplaced.joined hs, List.append_nil]
    · rwa [hplaced.yielded hs, List.nil_append]
  refine ⟨horder, ?_, fun hs => ?_, fun hs => ?_⟩
  · have hopen : (b.exchange.acceptedIn i).filter s.isUnfinished =
        (b.exchange.acceptedIn i).filter b.isOpen := by
      refine List.filter_congr fun id hid => Bool.eq_iff_iff.mpr ?_
      rw [Session.isUnfinished_iff, hmem]
      exact and_iff_right hid
    -- In the order they have, the handles are all there if they are as many.
    have hall : (b.exchange.acceptedIn i).filter s.isUnfinished ⊆
        (s.handles ++ s.joined).filter s.isUnfinished := by
      intro id hid
      have hgoes := (List.mem_filter.mp hid).2
      have htracked := hplaced.tracked id (Session.isUnfinished_iff.mp hgoes)
      exact List.mem_filter.mpr ⟨List.mem_append.mpr htracked, hgoes⟩
    rw [← hopen]
    exact (horder.filter _).eq_of_length_le ((hnodup.filter _).subperm hall).length_le
  · rw [← Bool.not_eq_false, hplaced.isBusy_eq_false hs, List.eq_nil_iff_forall_not_mem]
    simp [hmem]
  · rw [hplaced.isJoined_iff hs, List.eq_nil_iff_forall_not_mem]
    simp [hmem]

end Broker

end RtpBroker
