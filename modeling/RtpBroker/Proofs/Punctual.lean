import RtpBroker.Proofs.Conditions

/-!
# Nobody oversleeps

Whoever waits for the address of the peer, and an ended program whose error output
is held open, has an alarm set that goes off in time, or one that goes off right
now. A playback that is woken has no need of the alarm that woke it.
-/

namespace RtpBroker

/-- The alarm that an effect sets for a session. -/
def Effect.alarm? (i : Nat) : Effect → Option Alarm
  | .alarm due id => some ⟨due, .playback i id⟩
  | _ => none

namespace Session

/-- Who waits has an alarm that is `ringing`, or one on the agenda that goes off in time. -/
structure Timely (i : Nat) (agenda : Agenda) (now : Nat) (ringing : Uuid → Prop) (s : Session) :
    Prop where
  waits : ∀ w ∈ s.waiting, now ≤ w.deadline ∧ ringing w.request.id ∨
    now < w.deadline ∧ ∃ due, now < due ∧ due ≤ w.deadline ∧
      ⟨due, .playback i w.request.id⟩ ∈ agenda
  lingers : ∀ st o limit, s.slot = some st → st.program = .lingering o limit →
    now = limit ∧ ringing st.id ∨ now < limit ∧ ⟨limit, .playback i st.id⟩ ∈ agenda

section

variable {c : PlaySetup} {i now : Nat} {agenda agenda' : Agenda} {ringing ringing' : Uuid → Prop}
  {cue : Cue} {cues : List Cue} {s s' : Session} {es : List Effect} {id : Uuid}

theorem Timely.opened (port : Port) (created : Nat) :
    (Session.opened port created).Timely i agenda now ringing :=
  ⟨by simp [Session.opened], by simp [Session.opened]⟩

theorem Timely.mono (h : s.Timely i agenda now ringing) (hagenda : agenda ⊆ agenda')
    (hringing : ∀ id, ringing id → ringing' id) : s.Timely i agenda' now ringing' := by
  refine ⟨fun w hw => (h.waits w hw).imp ?_ ?_, fun st o limit hst hp =>
    (h.lingers st o limit hst hp).imp ?_ ?_⟩
  · exact fun ⟨hle, hr⟩ => ⟨hle, hringing _ hr⟩
  · exact fun ⟨hlt, due, hdue, hle, hmem⟩ => ⟨hlt, due, hdue, hle, hagenda hmem⟩
  · exact fun ⟨heq, hr⟩ => ⟨heq, hringing _ hr⟩
  · exact fun ⟨hlt, hmem⟩ => ⟨hlt, hagenda hmem⟩

theorem Timely.of_subset (h : s.Timely i agenda now ringing) (hwaiting : s'.waiting ⊆ s.waiting)
    (hslot : ∀ st o limit, s'.slot = some st → st.program = .lingering o limit →
      s.slot = some st) : s'.Timely i agenda now ringing :=
  ⟨fun w hw => h.waits w (hwaiting hw),
    fun st o limit hst hp => h.lingers st o limit (hslot st o limit hst hp) hp⟩

theorem Timely.hush (h : s.Timely i agenda now fun k => ringing k ∨ k = id)
    (hwaits : ∀ w ∈ s.waiting, w.request.id = id → now < w.deadline ∧
      ∃ due, now < due ∧ due ≤ w.deadline ∧ ⟨due, .playback i w.request.id⟩ ∈ agenda)
    (hlingers : ∀ st o limit, s.slot = some st → st.program = .lingering o limit → st.id = id →
      now ≠ limit) : s.Timely i agenda now ringing := by
  refine ⟨fun w hw => ?_, fun st o limit hst hp => ?_⟩
  · rcases h.waits w hw with ⟨hle, hr | hid⟩ | hset
    · exact Or.inl ⟨hle, hr⟩
    · exact Or.inr (hwaits w hw hid)
    · exact Or.inr hset
  · rcases h.lingers st o limit hst hp with ⟨heq, hr | hid⟩ | hset
    · exact Or.inl ⟨heq, hr⟩
    · exact absurd heq (hlingers st o limit hst hp hid)
    · exact Or.inr hset

/-- In time for the time that it is, a session is still sound when that time comes. -/
theorem Timely.sound {earlier : Nat} (h : s.Timely i agenda now ringing)
    (hs : s.Sound earlier) : s.Sound now := by
  refine ⟨hs.nodup, hs.ready, fun w hw => ?_, fun st o limit hst hp => ?_⟩
  · rcases h.waits w hw with ⟨hle, -⟩ | ⟨hlt, -⟩
    · exact hle
    · exact Nat.le_of_lt hlt
  · rcases h.lingers st o limit hst hp with ⟨heq, -⟩ | ⟨hlt, -⟩
    · exact Nat.le_of_eq heq
    · exact Nat.le_of_lt hlt

theorem Move.timely (h : Move c now cue s es s') (hs : s.Timely i agenda now ringing)
    (hnew : ∀ id, cue = .enter id → ringing id) :
    s'.Timely i (agenda ++ es.filterMap (Effect.alarm? i)) now ringing := by
  have hset := hs.mono (List.subset_append_left agenda (es.filterMap (Effect.alarm? i)))
    fun _ hr => hr
  cases h with
  | hear sender =>
    exact hset.of_subset (by simp) fun _ _ _ hst _ => hear_slot now _ s ▸ hst
  | mark => exact hset.of_subset (fun _ hw => hw) fun _ _ _ hst _ => hst
  | enter _ r =>
    refine ⟨fun w hw => ?_, hset.lingers⟩
    rcases List.mem_append.mp hw with hw | hw
    · exact hset.waits w hw
    · obtain rfl := List.mem_singleton.mp hw
      exact Or.inl ⟨Nat.le_add_right _ _, hnew r.id rfl⟩
  | queue => exact hset.of_subset List.filter_sublist.subset fun _ _ _ hst _ => hst
  | lapse => exact hset.of_subset List.filter_sublist.subset fun _ _ _ hst _ => hst
  | again => exact hset
  | noFile => exact hset.of_subset (fun _ hw => hw) (by simp [served, advanceTo])
  | notStarted => exact hset.of_subset (fun _ hw => hw) (by simp [served, advanceTo])
  | start _ _ _ hlaunch =>
    refine hset.of_subset (fun _ hw => hw) ?_
    rintro _ o limit ⟨⟩ hp
    rw [(launch_ok c now hlaunch).2.1] at hp
    cases hp
  | exit => exact hset.of_subset (fun _ hw => hw) (by simp)
  | exitHeld ending hslot hp =>
    refine ⟨hset.waits, ?_⟩
    rintro _ o limit ⟨⟩ hlimit
    cases hlimit
    exact Or.inr ⟨Nat.lt_add_of_pos_right (by decide), by simp [Effect.alarm?]⟩
  | settle => exact hset.of_subset (fun _ hw => hw) (by simp)
  | shut => exact hset.of_subset (fun _ hw => hw) fun _ _ _ hst _ => hst
  | dropWaiting _ hw =>
    exact hset.of_subset (hw ▸ List.subset_cons_self _ _) fun _ _ _ hst _ => hst
  | dropLine => exact hset.of_subset (fun _ hw => hw) fun _ _ _ hst _ => hst
  | kill => exact hset.of_subset (fun _ hw => hw) (by simp)
  | killHeld _ hslot hp =>
    refine ⟨hset.waits, ?_⟩
    rintro _ o limit ⟨⟩ hlimit
    cases hlimit
    exact Or.inr ⟨Nat.lt_add_of_pos_right (by decide), by simp [Effect.alarm?]⟩

theorem Moves.timely (h : Moves c now cues s es s') (hs : s.Timely i agenda now ringing)
    (hcues : ∀ id, .enter id ∉ cues) :
    s'.Timely i (agenda ++ es.filterMap (Effect.alarm? i)) now ringing := by
  induction h generalizing agenda with
  | refl => simpa using hs
  | head hcue hmove _ ih =>
    have hmid := hmove.timely hs fun id heq => absurd (heq ▸ hcue) (hcues id)
    have hrest := ih hmid
    rwa [List.append_assoc, ← List.filterMap_append] at hrest

theorem mem_waiting_queued {w : Waiting} (hw : w ∈ s.waiting) : w.request.id ∈ s.queued :=
  List.mem_append_left _ (List.mem_map_of_mem hw)

theorem slot_ne_of_queued {st : Streaming} (hs : s.playbacks.Nodup) (hid : id ∈ s.queued)
    (hslot : s.slot = some st) : st.id ≠ id := by
  intro heq
  exact (List.nodup_append.mp hs).2.2 id hid st.id (by simp [hslot]) heq.symm

theorem nextLook_mem {deadline : Nat} (hdue : now < deadline) :
    now < nextLook c now deadline ∧ nextLook c now deadline ≤ deadline := by
  unfold nextLook
  split <;> omega

theorem look_timely {w : Waiting} (hnodup : s.playbacks.Nodup) (hw : w ∈ s.waiting)
    (hs : s.Timely i agenda now fun k => ringing k ∨ k = w.request.id) :
    (s.look c now w).1.Timely i (agenda ++ (s.look c now w).2.filterMap (Effect.alarm? i)) now
      ringing := by
  have hslot : ∀ st o limit, s.slot = some st → st.program = .lingering o limit →
      st.id = w.request.id → now ≠ limit := fun st o limit hst _ hid =>
    absurd hid (slot_ne_of_queued hnodup (mem_waiting_queued hw) hst)
  have hgone : ∀ w' ∈ s.without w.request.id, w'.request.id ≠ w.request.id := fun w' hw' => by
    simpa using (List.mem_filter.mp hw').2
  unfold look
  dsimp only
  split
  · refine (handOver_moves c now _).timely ?_ (by simp)
    have hqueued : Timely i agenda now (fun k => ringing k ∨ k = w.request.id)
        { s with waiting := s.without w.request.id, line := s.line ++ [w.request] } :=
      hs.of_subset List.filter_sublist.subset fun _ _ _ hst _ => hst
    exact hqueued.hush (fun w' hw' hid => absurd hid (hgone w' hw')) hslot
  · split
    · have hlapsed : Timely i agenda now (fun k => ringing k ∨ k = w.request.id)
          { s with waiting := s.without w.request.id } :=
        hs.of_subset List.filter_sublist.subset fun _ _ _ hst _ => hst
      have hhush := hlapsed.hush (fun w' hw' hid => absurd hid (hgone w' hw')) hslot
      exact hhush.mono (List.subset_append_left _ _) fun _ hr => hr
    · next hdue =>
      have hlook := nextLook_mem (c := c) (Nat.lt_of_not_le hdue)
      have hset := hs.mono (List.subset_append_left agenda
        [⟨nextLook c now w.deadline, .playback i w.request.id⟩]) fun _ hr => hr
      refine hset.hush (fun w' hw' hid => ?_) hslot
      have hsame : w' = w := by
        have hids : (s.waiting.map (·.request.id)).Nodup :=
          (List.nodup_append.mp (List.nodup_append.mp hnodup).1).1
        exact List.inj_on_of_nodup_map hids hw' hw hid
      subst hsame
      exact ⟨Nat.lt_of_not_le hdue, _, hlook.1, hlook.2, by simp⟩

theorem accept_timely {r : Request} (hsound : s.Sound now) (hnew : r.id ∉ s.playbacks)
    (hs : s.Timely i agenda now ringing) :
    (s.accept c now r).1.Timely i (agenda ++ (s.accept c now r).2.filterMap (Effect.alarm? i)) now
      ringing := by
  have hmove : Move c now (.enter r.id) s _ _ := .enter s r
  have hnodup := hmove.nodup hsound.nodup fun id heq => by
    cases heq
    exact hnew
  have hring : s.Timely i agenda now fun k => ringing k ∨ k = r.id :=
    hs.mono (fun _ hmem => hmem) fun _ hr => Or.inl hr
  have hentered := hmove.timely hring fun id heq => by
    cases heq
    exact Or.inr rfl
  have hlook := look_timely (c := c) (w := ⟨r, now + c.ceiling⟩) hnodup
    (List.mem_append_right _ (List.mem_singleton_self _)) hentered
  rw [List.append_assoc, ← List.filterMap_append] at hlook
  exact hlook

theorem wake_timely (hsound : s.Sound now)
    (hs : s.Timely i agenda now fun k => ringing k ∨ k = id) :
    (s.wake c now id).1.Timely i (agenda ++ (s.wake c now id).2.filterMap (Effect.alarm? i)) now
      ringing := by
  unfold wake
  split
  · next w hfind =>
    have hid : w.request.id = id := by simpa using List.find?_some hfind
    subst hid
    exact look_timely hsound.nodup (List.mem_of_find?_eq_some hfind) hs
  · next hfind =>
    have hnone : ∀ w ∈ s.waiting, w.request.id ≠ id := fun w hw => by
      simpa using List.find?_eq_none.mp hfind w hw
    have hwaits : ∀ w ∈ s.waiting, w.request.id = id → now < w.deadline ∧
        ∃ due, now < due ∧ due ≤ w.deadline ∧ ⟨due, .playback i w.request.id⟩ ∈ agenda :=
      fun w hw hid => absurd hid (hnone w hw)
    split
    · next hslot => simpa using hs.hush hwaits (by simp [hslot])
    · next st hslot =>
      split
      · next hp =>
        refine (hs.hush hwaits ?_).mono (List.subset_append_left _ _) fun _ hr => hr
        intro st' o limit hst' hp'
        obtain rfl := Option.some.inj (hslot.symm.trans hst')
        rw [hp] at hp'
        cases hp'
      · next o limit hp =>
        split
        · have hfree : Timely i agenda now (fun k => ringing k ∨ k = id)
              { s with slot := none, lastActive := now } :=
            hs.of_subset (fun _ hw => hw) (by simp)
          have hhush := hfree.hush hwaits (by simp)
          have hrest := (handOver_moves c now _).timely hhush (by simp)
          exact hrest
        · next hnot =>
          refine (hs.hush hwaits ?_).mono (List.subset_append_left _ _) fun _ hr => hr
          intro st' o' limit' hst' hp' hid heq
          obtain rfl := Option.some.inj (hslot.symm.trans hst')
          rw [hp] at hp'
          cases hp'
          exact hnot ⟨hid, Nat.le_of_eq heq.symm⟩

end

end Session

end RtpBroker
