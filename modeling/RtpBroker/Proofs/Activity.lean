import RtpBroker.Proofs.IdleSweep

/-!
# What a session shows of its activity

A session notes the time of its last activity, and is busy as long as it has
playbacks at hand. Both can be told from outside: the time from the journal, and
whether the session is busy from the records of the playbacks accepted in it.
-/

namespace RtpBroker

/-- A datagram, a playback that is accepted, a stream that starts, and one that is over. -/
def Effect.isActivity : Effect → Bool
  | .datagram _ | .enter _ _ | .phase _ .streaming | .drained _ _ => true
  | _ => false

theorem foldl_max_replicate {a t : Nat} (h : a ≤ t) (k : Nat) :
    (List.replicate (k + 1) t).foldl max a = t := by
  induction k generalizing a with
  | zero => exact Nat.max_eq_right h
  | succ k ih =>
    rw [List.replicate_succ, List.foldl_cons, Nat.max_eq_right h]
    exact ih (Nat.le_refl t)

namespace Session

variable {c : PlaySetup} {now : Nat} {cue : Cue} {s s' : Session} {es : List Effect}

theorem hear_created (now : Nat) (sender : SocketAddr) (s : Session) :
    (s.hear now sender).1.created = s.created := by
  unfold hear
  dsimp only
  split <;> rfl

theorem Move.created (h : Move c now cue s es s') : s'.created = s.created := by
  cases h with
  | hear _ sender => exact hear_created now sender s
  | _ => rfl

/-- A session takes note of a move that is an activity, and of no other one. -/
theorem Move.stamps (h : Move c now cue s es s') :
    s'.lastActive = if es.any Effect.isActivity then now else s.lastActive := by
  cases h with
  | hear _ sender =>
    have hany : (s.hear now sender).2.any Effect.isActivity = true := by
      unfold Session.hear
      dsimp only
      split <;> rfl
    rw [hany, if_pos rfl, hear_lastActive]
  | _ => rfl

theorem Recedes.created (h : s.Recedes s') : s'.created = s.created := by
  cases h <;> rfl

end Session

namespace Exchange

open Session (Cue Move)

/-- The times at which something happened in the session with number `i`. -/
def activities (i : Nat) (x : Exchange) : List Nat :=
  (x.journal.filter fun n => n.session == i && n.effect.isActivity).map (·.time)

/-- The latest of them, or else when the session was created. -/
def lastActivity (i : Nat) (s : Session) (x : Exchange) : Nat :=
  (x.activities i).foldl max s.created

/-- The playbacks accepted in the session with number `i`. -/
def acceptedIn (i : Nat) (x : Exchange) : List Uuid :=
  x.journal.filterMap fun n =>
    match n.effect with
    | .enter id _ => if n.session = i then some id else none
    | _ => none

/-- Every session knows when something happened in it last. -/
structure Stamped (x : Exchange) : Prop where
  owned : ∀ n ∈ x.journal, n.session < x.sessions.length
  active : ∀ (i : Nat) s, x.sessions[i]? = some s → s.lastActive = x.lastActivity i s
  past : ∀ (i : Nat) s, x.sessions[i]? = some s → s.lastActive ≤ x.now

variable {c : PlaySetup} {x x' : Exchange} {i j : Nat} {s s' : Session} {es : List Effect}

theorem activities_performs (es : List Effect) (x : Exchange) :
    (es.foldl (perform i) x).activities j =
      x.activities j ++ if i = j then List.replicate (es.countP Effect.isActivity) x.now else [] := by
  rw [activities, journal_performs, List.filter_append, List.map_append, ← activities]
  congr 1
  split
  · next hij =>
    subst hij
    simp [List.filter_map, List.map_const', List.countP_eq_length_filter, Function.comp_def]
  · next hij => simp [hij]

theorem Stamped.move {cue : Cue} (hx : x.Stamped) (hi : x.sessions[i]? = some s)
    (h : Move c x.now cue s es s') :
    (es.foldl (perform i) { x with sessions := x.sessions.set i s' }).Stamped := by
  have hlength : (es.foldl (perform i) { x with sessions := x.sessions.set i s' }).sessions.length =
      x.sessions.length := by
    rw [sessions_performs, List.length_set]
  have hlt := (List.getElem?_eq_some_iff.mp hi).1
  have hpast := hx.past i s hi
  refine ⟨fun n hn => ?_, fun j t ht => ?_, fun j t ht => ?_⟩
  · rw [hlength]
    rw [journal_performs] at hn
    rcases List.mem_append.mp hn with hn | hn
    · exact hx.owned n hn
    · obtain ⟨e, -, rfl⟩ := List.mem_map.mp hn
      exact hlt
  · rcases session_of_move ht with ⟨rfl, rfl⟩ | ⟨hji, ht⟩
    · rw [lastActivity, activities_performs, if_pos rfl, List.foldl_append, h.created]
      change _ = (List.replicate _ x.now).foldl max (x.lastActivity j s)
      rw [← hx.active j s hi, h.stamps]
      cases hcount : es.countP Effect.isActivity with
      | zero =>
        have hnone : es.any Effect.isActivity = false := by
          simpa [List.countP_eq_zero] using hcount
        rw [hnone]
        rfl
      | succ k =>
        have hpos : 0 < es.countP Effect.isActivity := by omega
        have hany : es.any Effect.isActivity = true :=
          List.any_eq_true.mpr (List.countP_pos_iff.mp hpos)
        rw [hany, foldl_max_replicate hpast]
        rfl
    · rw [lastActivity, activities_performs, if_neg (Ne.symm hji), List.append_nil]
      exact hx.active j t ht
  · rw [now_performs]
    rcases session_of_move ht with ⟨rfl, rfl⟩ | ⟨-, ht⟩
    · rw [h.stamps]
      split
      · exact Nat.le_refl _
      · exact hpast
    · exact hx.past j t ht

theorem Still.stamped (h : Still x x') (hx : x.Stamped) : x'.Stamped := by
  have hactivities (j : Nat) : x'.activities j = x.activities j := by
    rw [activities, h.journal, activities]
  refine ⟨fun n hn => ?_, fun j t ht => ?_, fun j t ht => ?_⟩
  · have hlt := hx.owned n (h.journal ▸ hn)
    obtain ⟨s', hs', -⟩ := h.stays n.session _ (List.getElem?_eq_getElem hlt)
    exact (List.getElem?_eq_some_iff.mp hs').1
  · rw [lastActivity, hactivities]
    rcases h.comes j t ht with ⟨s, hs, hrecedes⟩ | ⟨hnone, port, rfl⟩
    · rw [hrecedes.created, hrecedes.rests.lastActive]
      exact hx.active j s hs
    · -- Nothing has happened yet in a session that is new.
      have hnil : x.activities j = [] := by
        refine List.map_eq_nil_iff.mpr (List.filter_eq_nil_iff.mpr fun n hn hact => ?_)
        simp only [Bool.and_eq_true, beq_iff_eq] at hact
        have hlt := hx.owned n hn
        rw [hact.1] at hlt
        exact absurd (List.getElem?_eq_none_iff.mp hnone) (Nat.not_le.mpr hlt)
      rw [hnil]
      rfl
  · rw [h.now]
    rcases h.comes j t ht with ⟨s, hs, hrecedes⟩ | ⟨-, port, rfl⟩
    · rw [hrecedes.rests.lastActive]
      exact hx.past j s hs
    · exact Nat.le_refl _

theorem Beat.stamped (h : Beat c x x') (hx : x.Stamped) : x'.Stamped := by
  cases h.shift with
  | still h => exact h.stamped hx
  | move hi hmove _ => exact hx.move hi hmove
  | clock hnow agenda => exact ⟨hx.owned, hx.active, fun i s hi => Nat.le_trans (hx.past i s hi) hnow⟩

theorem Evolves.stamped (h : Evolves c x x') (hx : x.Stamped) : x'.Stamped := by
  induction h with
  | refl => exact hx
  | tail _ hlast ih => exact hlast.stamped ih

/-! ## Who is busy -/

theorem mem_acceptedIn {id : Uuid} :
    id ∈ x.acceptedIn i ↔ ∃ t port, ⟨t, i, .enter id port⟩ ∈ x.journal := by
  simp only [acceptedIn, List.mem_filterMap]
  constructor
  · rintro ⟨⟨t, j, e⟩, hn, he⟩
    cases e with
    | enter k port =>
      dsimp only at he
      split at he
      · next hj =>
        cases he
        exact ⟨t, port, hj ▸ hn⟩
      · cases he
    | _ => cases he
  · rintro ⟨t, port, hn⟩
    exact ⟨_, hn, by simp⟩

/-- A playback goes on in a session exactly as long as it was accepted there and waits or
streams. -/
theorem Arises.mem_playbacks_iff (hx : Arises c x) (hlisted : x.Listed)
    (hi : x.sessions[i]? = some s) {id : Uuid} :
    id ∈ s.playbacks ↔ id ∈ x.acceptedIn i ∧ ∃ r, x.tracker.find? id = some r ∧
      (r.phase = .waiting ∨ r.phase = .streaming) := by
  have hphase (p : Phase) : p.isFinished = false ↔ p = .waiting ∨ p = .streaming := by
    cases p <;> decide
  simp only [← hphase]
  constructor
  · intro hid
    obtain ⟨k, p, hl⟩ := hx.lives id
    have hshown : s.condition? id ≠ none := fun hnone => Session.not_mem_playbacks hnone hid
    have hki : k = i := by
      by_contra hki
      exact hshown (hl.elsewhere i s (Ne.symm hki) hi)
    subst hki
    have hcondition := hl.here s hi
    have hopen : x.ending? id = none := by
      rw [hl.ending?]
      cases p with
      | settled v => exact absurd hcondition hshown
      | _ => rfl
    have hknown : x.story id ≠ [] := fun hnil => hl.not_mem_playbacks hnil hi hid
    obtain ⟨t, port, hmem⟩ := hl.life.entered hknown
    refine ⟨mem_acceptedIn.mpr ⟨t, port, mem_journal_of_story hmem⟩, ?_⟩
    cases hr : x.tracker.find? id with
    | none =>
      obtain ⟨phase, hended⟩ := hlisted id hknown hr
      cases hopen.symm.trans hended
    | some r =>
      rw [hx.ending?_of_record hr] at hopen
      refine ⟨r, rfl, ?_⟩
      by_contra hover
      rw [if_pos (by simpa using hover)] at hopen
      cases hopen
  · rintro ⟨hid, r, hr, hopen⟩
    obtain ⟨t, port, hn⟩ := mem_acceptedIn.mp hid
    have hstory := mem_story id hn rfl
    obtain ⟨k, p, hl⟩ := hx.lives id
    obtain rfl : i = k := hl.life.session_eq _ hstory
    have hended := hx.ending?_of_record hr
    rw [if_neg (by simp [hopen]), hl.ending?] at hended
    have hcondition := hl.here s hi
    have hshown : p.shown ≠ none := by
      cases p with
      | unknown => exact absurd rfl (hl.life.ne_unknown hstory)
      | settled v => cases hended
      | _ => simp [Condition.shown]
    by_contra hnot
    exact hshown (hcondition ▸ Session.condition?_of_not_mem hnot)

end Exchange

namespace Broker

theorem Reachable.stamped {b : Broker} (h : b.Reachable) : b.exchange.Stamped := by
  obtain ⟨calendar, hx⟩ := h.exchange
  exact hx.stamped ⟨by simp, by simp, by simp⟩

end Broker

end RtpBroker
