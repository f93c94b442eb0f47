import Mathlib.Data.List.Nodup
import RtpBroker.Proofs.Lives

/-!
# The condition of a playback in its session

What a session knows of a playback tells in which condition it is. No playback is
in two places of a session, so a move is a turn of the one playback that it
concerns, and the others stay as they are.
-/

namespace RtpBroker

section

variable {α β : Type} {f : α → Option β} {a : α} {l : List α}

theorem mem_filterMap_cons {b : β} :
    b ∈ (a :: l).filterMap f ↔ f a = some b ∨ b ∈ l.filterMap f := by
  simp [List.mem_filterMap]

/-- If nothing that is chosen is chosen twice, what the first one chooses is not chosen again. -/
theorem nodup_filterMap_cons :
    ((a :: l).filterMap f).Nodup ↔
      (l.filterMap f).Nodup ∧ ∀ b, f a = some b → b ∉ l.filterMap f := by
  cases h : f a with
  | none => simp [List.filterMap_cons_none h]
  | some b =>
    rw [List.filterMap_cons_some h, List.nodup_cons]
    simp [and_comm]

end

/-- What of a condition shows in the session of the playback. -/
def Condition.shown : Condition → Option Condition
  | .unknown | .settled _ => none
  | p => some p

def ProgramState.condition : ProgramState → Condition
  | .running => .running
  | .lingering o limit => .lingering o limit

namespace Session

def condition? (id : Uuid) (s : Session) : Option Condition :=
  if id ∈ s.queued then some .pending
  else (s.slot.filter (·.id == id)).map (·.program.condition)

section

variable {s s' : Session} {id : Uuid}

theorem condition?_of_queued (h : id ∈ s.queued) : s.condition? id = some .pending := if_pos h

theorem condition?_of_slot {st : Streaming} (hs : s.playbacks.Nodup) (hslot : s.slot = some st) :
    s.condition? st.id = some st.program.condition := by
  have hnot : st.id ∉ s.queued := by
    intro hmem
    have hdisj := (List.nodup_append.mp hs).2.2
    exact hdisj st.id hmem st.id (by simp [hslot]) rfl
  rw [condition?, if_neg hnot, hslot]
  simp

theorem condition?_of_not_mem (h : id ∉ s.playbacks) : s.condition? id = none := by
  rw [playbacks, List.mem_append, not_or] at h
  rw [condition?, if_neg h.1]
  cases hslot : s.slot with
  | none => rfl
  | some st =>
    have hne : st.id ≠ id := fun heq => h.2 (by simp [hslot, heq])
    simp [hne]

theorem condition?_congr (hqueued : id ∈ s'.queued ↔ id ∈ s.queued)
    (hslot : s'.slot.filter (·.id == id) = s.slot.filter (·.id == id)) :
    s'.condition? id = s.condition? id := by
  simp only [condition?, hqueued, hslot]

end

section

variable {c : PlaySetup} {now : Nat} {cue : Cue} {s s' : Session} {es : List Effect}

theorem ids_without (id : Uuid) (s : Session) :
    (s.without id).map (·.request.id) = (s.waiting.map (·.request.id)).filter (· != id) := by
  simp [without, List.filter_map, Function.comp_def]

theorem count_without (id : Uuid) {k : Uuid} (s : Session) :
    ((s.without k).map (·.request.id)).count id =
      if id = k then 0 else (s.waiting.map (·.request.id)).count id := by
  rw [ids_without]
  by_cases hid : id = k
  · subst hid
    rw [if_pos rfl, List.count_eq_zero]
    simp
  · rw [if_neg hid, List.count_filter (by simpa using hid)]

theorem Move.count_le (h : Move c now cue s es s') (id : Uuid) (hcue : cue ≠ .enter id) :
    s'.playbacks.count id ≤ s.playbacks.count id := by
  cases h with
  | hear _ => simp [playbacks, queued]
  | mark => exact Nat.le_refl _
  | again => exact Nat.le_refl _
  | shut => exact Nat.le_refl _
  | enter _ r =>
    have hne : r.id ≠ id := fun heq => hcue (by rw [heq])
    simp [playbacks, queued, register, List.count_append, hne]
  | @queue _ w hw _ =>
    have hpos := List.count_pos_iff.mpr (List.mem_map_of_mem (f := (·.request.id)) hw)
    simp only [playbacks, queued, List.count_append, List.map_append, List.map_cons, List.map_nil,
      count_without, List.count_singleton, beq_iff_eq]
    by_cases hid : id = w.request.id
    · subst hid
      rw [if_pos rfl, if_pos rfl]
      omega
    · rw [if_neg hid, if_neg (Ne.symm hid)]
      omega
  | lapse hw _ _ =>
    simp only [playbacks, queued, List.count_append, count_without]
    split <;> omega
  | noFile hslot hline => simp [playbacks, queued, served, advanceTo, hline, hslot, List.count_cons]
  | notStarted hslot hline =>
    simp [playbacks, queued, served, advanceTo, hline, hslot, List.count_cons]
  | start hslot hline _ h =>
    simp [playbacks, queued, served, advanceTo, hline, hslot, List.count_cons,
      (launch_ok c now h).1]
  | exit ending hslot => simp [playbacks, queued, hslot, List.count_cons]
  | exitHeld ending hslot => simp [playbacks, queued, hslot, List.count_cons]
  | settle hslot => simp [playbacks, queued, hslot, List.count_cons]
  | dropWaiting _ hw => simp [playbacks, queued, hw, List.count_cons]
  | dropLine _ hr => simp [playbacks, queued, hr, List.count_cons]
  | kill _ hslot => simp [playbacks, queued, hslot, List.count_cons]
  | killHeld _ hslot => simp [playbacks, queued, hslot, List.count_cons]

/-- No playback is ever in two places of a session if none is accepted twice. -/
theorem Move.nodup (h : Move c now cue s es s') (hs : s.playbacks.Nodup)
    (hnew : ∀ id, cue = .enter id → id ∉ s.playbacks) : s'.playbacks.Nodup := by
  rw [List.nodup_iff_count_le_one] at hs ⊢
  intro id
  by_cases hcue : cue = .enter id
  · have hnot := List.count_eq_zero.mpr (hnew id hcue)
    subst hcue
    cases h with
    | enter _ r =>
      simp only [playbacks, queued, register, List.map_append, List.count_append, List.map_cons,
        List.map_nil, List.count_singleton] at hnot ⊢
      split <;> omega
  · exact Nat.le_trans (h.count_le id hcue) (hs id)

theorem condition?_of_count (id : Uuid) (h : s.playbacks.count id = 0) :
    s.condition? id = none := condition?_of_not_mem (List.count_eq_zero.mp h)

/-- What a move tells of a playback is nothing, if that stays as it is, or else a turn. -/
def Tells (c : PlaySetup) (now : Nat) (cue : Cue) (s : Session) (es : List Effect) (s' : Session)
    (id : Uuid) : Prop :=
  es.filter (Effect.isAbout id) = [] ∧ s'.condition? id = s.condition? id ∨
    ∃ p p', Turn c now id cue p (es.filter (Effect.isAbout id)) p' ∧
      s.condition? id = p.shown ∧ s'.condition? id = p'.shown

theorem filter_slot_of_eq {slot : Option Streaming} {k : Uuid}
    (h : ∀ st, slot = some st → st.id = k) : slot.filter (·.id == k) = slot := by
  cases slot with
  | none => rfl
  | some st => simp [Option.filter, h st rfl]

theorem filter_slot_of_ne {slot : Option Streaming} {k : Uuid}
    (h : ∀ st, slot = some st → st.id ≠ k) : slot.filter (·.id == k) = none := by
  cases slot with
  | none => rfl
  | some st => simp [Option.filter, h st rfl]

theorem Tells.of_turn {k : Uuid} {p p' : Condition} (ht : Turn c now k cue p
      (es.filter (·.subject?.isSome)) p')
    (hes : ∀ e ∈ es, e.subject? = none ∨ e.subject? = some k)
    (hp : s.condition? k = p.shown) (hp' : s'.condition? k = p'.shown)
    (hqueued : ∀ id ≠ k, (id ∈ s'.queued ↔ id ∈ s.queued))
    (hslot : ∀ id ≠ k, s'.slot.filter (·.id == id) = s.slot.filter (·.id == id)) (id : Uuid) :
    Tells c now cue s es s' id := by
  by_cases hid : k = id
  · subst hid
    refine Or.inr ⟨p, p', ?_, hp, hp'⟩
    rwa [filter_isAbout hes, if_pos rfl]
  · refine Or.inl ⟨?_, ?_⟩
    · rw [filter_isAbout hes, if_neg hid]
    · exact condition?_congr (hqueued id (Ne.symm hid)) (hslot id (Ne.symm hid))

theorem Tells.of_served {r : Request} {rs : List Request} {slot : Option Streaming}
    {p' : Condition} (hs : s.playbacks.Nodup) (hslot : s.slot = none) (hline : s.line = r :: rs)
    (ht : Turn c now r.id cue .pending (es.filter (·.subject?.isSome)) p')
    (hes : ∀ e ∈ es, e.subject? = none ∨ e.subject? = some r.id)
    (hslot' : ∀ st, slot = some st → st.id = r.id)
    (hp' : (slot.map (·.program.condition)) = p'.shown) (id : Uuid) :
    Tells c now cue s es (s.served now slot rs) id := by
  have hone := List.nodup_iff_count_le_one.mp hs r.id
  simp only [playbacks, queued, hline, hslot, List.map_cons, List.count_append,
    List.count_cons_self, Option.map_none, Option.toList_none, List.count_nil] at hone
  have hnot : r.id ∉ (s.served now slot rs).queued := by
    rw [← List.count_eq_zero]
    simp only [queued, served, advanceTo, List.count_append]
    omega
  refine Tells.of_turn ht hes ?_ ?_ ?_ ?_ id
  · exact condition?_of_queued (by simp [queued, hline])
  · rw [condition?, if_neg hnot, ← hp']
    change ((slot.filter (·.id == r.id)).map _) = _
    rw [filter_slot_of_eq hslot']
  · intro k hk
    simp [queued, served, advanceTo, hline, hk]
  · intro k hk
    change slot.filter (·.id == k) = s.slot.filter (·.id == k)
    rw [hslot]
    exact filter_slot_of_ne fun st hst => hslot' st hst ▸ Ne.symm hk

theorem Tells.of_streaming {st : Streaming} {slot : Option Streaming} {lastActive : Nat}
    {p p' : Condition} (hs : s.playbacks.Nodup) (hslot : s.slot = some st)
    (hp : st.program.condition = p)
    (ht : Turn c now st.id cue p (es.filter (·.subject?.isSome)) p')
    (hes : ∀ e ∈ es, e.subject? = none ∨ e.subject? = some st.id)
    (hslot' : ∀ st', slot = some st' → st'.id = st.id)
    (hp' : (slot.map (·.program.condition)) = p'.shown) (id : Uuid) :
    Tells c now cue s es { s with slot, lastActive } id := by
  have hnot : st.id ∉ s.queued := by
    intro hmem
    exact (List.nodup_append.mp hs).2.2 st.id hmem st.id (by simp [hslot]) rfl
  have hshown : some st.program.condition = p.shown := by
    rw [← hp]
    cases st.program <;> rfl
  refine Tells.of_turn ht hes ?_ ?_ ?_ ?_ id
  · rw [condition?_of_slot hs hslot, hshown]
  · rw [condition?, if_neg (show st.id ∉ queued { s with slot, lastActive } from hnot), ← hp']
    change ((slot.filter (·.id == st.id)).map _) = _
    rw [filter_slot_of_eq hslot']
  · exact fun _ _ => Iff.rfl
  · intro k hk
    change slot.filter (·.id == k) = s.slot.filter (·.id == k)
    rw [hslot, filter_slot_of_ne fun st' hst' => hslot' st' hst' ▸ Ne.symm hk]
    exact (filter_slot_of_ne fun st' hst' => Option.some.inj hst' ▸ Ne.symm hk).symm

theorem Tells.of_leaving {k : Uuid} {p' : Condition} (hs : s.playbacks.Nodup) (hk : k ∈ s.queued)
    (ht : Turn c now k cue .pending (es.filter (·.subject?.isSome)) p') (hp' : p'.shown = none)
    (hes : ∀ e ∈ es, e.subject? = none ∨ e.subject? = some k)
    (hcount : s'.playbacks.count k < s.playbacks.count k)
    (hqueued : ∀ id ≠ k, (id ∈ s'.queued ↔ id ∈ s.queued)) (hslot : s'.slot = s.slot)
    (id : Uuid) : Tells c now cue s es s' id := by
  refine Tells.of_turn ht hes (condition?_of_queued hk) ?_ hqueued (fun _ _ => by rw [hslot]) id
  have hone := List.nodup_iff_count_le_one.mp hs k
  rw [hp', condition?_of_count]
  omega

/-- What holds of every session: no playback is in two places, nobody has a turn before the address
of the peer is known, and nobody waits for longer than meant. -/
structure Sound (now : Nat) (s : Session) : Prop where
  nodup : s.playbacks.Nodup
  ready : s.line ≠ [] ∨ s.slot ≠ none → s.remote ≠ none
  inTime : ∀ w ∈ s.waiting, now ≤ w.deadline
  settles : ∀ st o limit, s.slot = some st → st.program = .lingering o limit → now ≤ limit

theorem Sound.opened (port : Port) (now : Nat) : Sound now (Session.opened port now) where
  nodup := List.nodup_nil
  ready h := by simp [Session.opened] at h
  inTime w hw := by simp [Session.opened] at hw
  settles st o limit hst := by simp [Session.opened] at hst

theorem Sound.hear (h : Sound now s) (sender : SocketAddr) : Sound now (s.hear now sender).1 := by
  unfold Session.hear
  dsimp only
  split
  · exact ⟨h.nodup, h.ready, h.inTime, h.settles⟩
  · exact ⟨h.nodup, fun _ => by simp [advanceTo], h.inTime, h.settles⟩

theorem Move.sound (h : Move c now cue s es s') (hs : Sound now s)
    (hnew : ∀ id, cue = .enter id → id ∉ s.playbacks) : Sound now s' := by
  have hnodup := h.nodup hs.nodup hnew
  cases h with
  | hear sender => exact hs.hear _
  | mark => exact ⟨hnodup, hs.ready, hs.inTime, hs.settles⟩
  | enter _ r =>
    refine ⟨hnodup, hs.ready, fun w hw => ?_, hs.settles⟩
    rcases List.mem_append.mp hw with hw | hw
    · exact hs.inTime w hw
    · rw [List.mem_singleton.mp hw]
      exact Nat.le_add_right _ _
  | queue hw hremote =>
    exact ⟨hnodup, fun _ => Option.isSome_iff_ne_none.mp hremote,
      fun w hw => hs.inTime w (List.mem_filter.mp hw).1, hs.settles⟩
  | lapse hw hremote hdue =>
    exact ⟨hnodup, hs.ready, fun w hw => hs.inTime w (List.mem_filter.mp hw).1, hs.settles⟩
  | again => exact hs
  | noFile hslot hline hremote _ =>
    exact ⟨hnodup, fun _ => by simp [served, advanceTo, hremote], hs.inTime,
      fun st o limit hst => by simp [served, advanceTo] at hst⟩
  | notStarted hslot hline hremote _ =>
    exact ⟨hnodup, fun _ => by simp [served, advanceTo, hremote], hs.inTime,
      fun st o limit hst => by simp [served, advanceTo] at hst⟩
  | start hslot hline hremote hlaunch =>
    refine ⟨hnodup, fun _ => by simp [served, advanceTo, hremote], hs.inTime, ?_⟩
    rintro _ o limit ⟨⟩ hst
    rw [(launch_ok c now hlaunch).2.1] at hst
    cases hst
  | exit ending hslot _ =>
    exact ⟨hnodup, fun _ => hs.ready (Or.inr (by simp [hslot])), hs.inTime, by simp⟩
  | exitHeld ending hslot _ =>
    refine ⟨hnodup, fun _ => hs.ready (Or.inr (by simp [hslot])), hs.inTime, ?_⟩
    rintro _ o limit ⟨⟩ hst
    cases hst
    exact Nat.le_add_right _ _
  | settle hslot _ _ =>
    exact ⟨hnodup, fun _ => hs.ready (Or.inr (by simp [hslot])), hs.inTime, by simp⟩
  | shut => exact ⟨hnodup, hs.ready, hs.inTime, hs.settles⟩
  | dropWaiting _ hw =>
    exact ⟨hnodup, hs.ready, fun w h => hs.inTime w (by rw [hw]; exact List.mem_cons_of_mem _ h),
      hs.settles⟩
  | dropLine _ hr =>
    exact ⟨hnodup, fun _ => hs.ready (Or.inl (by simp [hr])), hs.inTime, hs.settles⟩
  | kill _ hslot _ =>
    exact ⟨hnodup, fun _ => hs.ready (Or.inr (by simp [hslot])), hs.inTime, by simp⟩
  | killHeld _ hslot _ =>
    refine ⟨hnodup, fun _ => hs.ready (Or.inr (by simp [hslot])), hs.inTime, ?_⟩
    rintro _ o limit ⟨⟩ hst
    cases hst
    exact Nat.le_add_right _ _

theorem Move.tells (h : Move c now cue s es s') (hsound : Sound now s)
    (hnew : ∀ id, cue = .enter id → id ∉ s.playbacks) : ∀ id, Tells c now cue s es s' id := by
  have hs := hsound.nodup
  cases h with
  | hear sender =>
    intro id
    unfold Session.hear
    dsimp only
    split <;> exact Or.inl ⟨rfl, rfl⟩
  | mark => exact fun _ => Or.inl ⟨rfl, rfl⟩
  | again => exact fun _ => Or.inl ⟨rfl, rfl⟩
  | shut => exact fun _ => Or.inl ⟨rfl, rfl⟩
  | enter _ r =>
    refine Tells.of_turn (.enter s.port) (by simp [Effect.subject?])
      (condition?_of_not_mem (hnew r.id rfl)) (condition?_of_queued (by simp [queued])) ?_
      (fun _ _ => rfl)
    intro id hid
    simp [queued, register, hid]
  | @queue _ w hw _ =>
    refine fun id => Or.inl ⟨rfl, condition?_congr ?_ rfl⟩
    by_cases hid : id = w.request.id
    · subst hid
      simp only [queued, List.map_append, List.mem_append, List.map_cons, List.map_nil,
        List.mem_singleton, or_true, List.mem_map_of_mem hw, true_or]
    · simp [queued, ids_without, hid]
  | @lapse _ w hw hremote hdue =>
    refine Tells.of_leaving hs (List.mem_append_left _ (List.mem_map_of_mem hw)) .lapse rfl
      (by simp [Effect.subject?]) ?_ ?_ rfl
    · have hpos := List.count_pos_iff.mpr (List.mem_map_of_mem (f := (·.request.id)) hw)
      simp only [playbacks, queued, List.count_append, count_without, if_true]
      omega
    · intro id hid
      simp [queued, ids_without, hid]
  | noFile hslot hline _ _ =>
    exact Tells.of_served hs hslot hline (.refuse (show Outcome.IsRefusal (.noFile _) from trivial))
      (by simp [Effect.subject?, finishEffect]) (by simp) rfl
  | notStarted hslot hline _ _ =>
    exact Tells.of_served hs hslot hline
      (.refuse (show Outcome.IsRefusal (.notStarted _) from trivial))
      (by simp [Effect.subject?, finishEffect]) (by simp) rfl
  | start hslot hline _ h =>
    obtain ⟨hid, hprogram, -⟩ := launch_ok c now h
    refine Tells.of_served hs hslot hline (.start _) (by simp [Effect.subject?]) ?_ ?_
    · rintro _ ⟨⟩
      exact hid
    · simp [hprogram, ProgramState.condition, Condition.shown]
  | @exit _ st ending hslot h =>
    exact Tells.of_streaming hs hslot (congrArg _ h) (.exit ending)
      (by simp [Effect.subject?, settling, finishEffect]) (by simp) rfl
  | @exitHeld _ st ending hslot h =>
    exact Tells.of_streaming hs hslot (congrArg _ h) (.exitHeld ending)
      (by simp [Effect.subject?]) (by rintro _ ⟨⟩; rfl) rfl
  | @settle _ st o limit timeUp hslot h hlimit =>
    have hle := hsound.settles st o limit hslot h
    exact Tells.of_streaming hs hslot (congrArg _ h)
      (.settle hle fun htime => Nat.le_antisymm hle (hlimit htime))
      (by simp [Effect.subject?, settling, finishEffect]) (by simp) rfl
  | dropWaiting hclosed hw =>
    refine Tells.of_leaving hs (by simp [queued, hw]) .drop rfl (by simp [Effect.subject?, drop])
      (by simp [playbacks, queued, hw]) ?_ rfl
    intro id hid
    simp [queued, hw, hid]
  | dropLine hclosed hr =>
    refine Tells.of_leaving hs (by simp [queued, hr]) .drop rfl (by simp [Effect.subject?, drop])
      (by simp [playbacks, queued, hr]) ?_ rfl
    intro id hid
    simp [queued, hr, hid]
  | @kill _ st hclosed hslot h =>
    exact Tells.of_streaming hs hslot (congrArg _ h) .kill
      (by simp [Effect.subject?, settling, finishEffect]) (by simp) rfl
  | @killHeld _ st hclosed hslot h =>
    exact Tells.of_streaming hs hslot (congrArg _ h) .killHeld
      (by simp [Effect.subject?]) (by rintro _ ⟨⟩; rfl) rfl

end

end Session

end RtpBroker
