import RtpBroker.Proofs.Annals

/-!
# The slot of a session

Who had its turn at the stream holds the slot of its session until its program is
drained, and then it is over. A turn begins only when the slot is free, so whoever
had a turn before has been drained by then.
-/

namespace RtpBroker

theorem Life.turned {c : PlaySetup} {i : Nat} {id : Uuid} {story : List Entry} {p : Condition}
    (h : Life c i id story p) {n : Entry} (hn : n ∈ story)
    (he : (∃ arguments, n.effect = .launch id arguments) ∨ ∃ phase, n.effect = .phase id phase) :
    (∃ program : ProgramState, p = program.condition) ∨ ∃ o, p = .settled (.played o) := by
  cases p with
  | unknown => exact absurd rfl (h.ne_unknown hn)
  | pending =>
    obtain ⟨t, port, rfl⟩ := h.eq_of_pending
    obtain rfl := List.mem_singleton.mp hn
    simp at he
  | running => exact Or.inl ⟨.running, rfl⟩
  | lingering o limit => exact Or.inl ⟨.lingering o limit, rfl⟩
  | settled v =>
    cases v with
    | lapsed =>
      obtain ⟨t₁, port, t₂, rfl⟩ := h.eq_of_lapsed
      simp only [List.mem_cons, List.not_mem_nil, or_false] at hn
      rcases hn with rfl | rfl <;> simp at he
    | dropped =>
      obtain ⟨t₁, port, t₂, rfl⟩ := h.eq_of_dropped
      simp only [List.mem_cons, List.not_mem_nil, or_false] at hn
      rcases hn with rfl | rfl | rfl <;> simp at he
    | played o => exact Or.inr ⟨o, rfl⟩

theorem Life.played_of_drained {c : PlaySetup} {i : Nat} {id : Uuid} {story : List Entry}
    {p : Condition} (h : Life c i id story p) {n : Entry} {timeUp : Bool} (hn : n ∈ story)
    (he : n.effect = .drained id timeUp) : ∃ o, p = .settled (.played o) := by
  induction h with
  | unknown => cases hn
  | turn h ht ih =>
    rcases List.mem_append.mp hn with hn | hn
    · obtain ⟨o, rfl⟩ := ih hn
      cases ht
    · obtain ⟨e, hmem, rfl⟩ := List.mem_map.mp hn
      obtain rfl : e = .drained id timeUp := he
      cases ht with
      | exit ending => exact ⟨_, rfl⟩
      | settle => exact ⟨_, rfl⟩
      | kill => exact ⟨_, rfl⟩
      | _ => simp [Session.finishEffect] at hmem

namespace Exchange

open Session (Cue Move)

variable {c : PlaySetup} {asked : Request → Prop} {x : Exchange} {i : Nat} {id : Uuid}

/-- The playback has the slot of the session with number `i`. -/
def Holds (i : Nat) (id : Uuid) (x : Exchange) : Prop :=
  ∃ (s : Session) (st : Streaming), x.sessions[i]? = some s ∧ s.slot = some st ∧ st.id = id

theorem Holds.unique {id' : Uuid} (h : x.Holds i id) (h' : x.Holds i id') : id = id' := by
  obtain ⟨s, st, hs, hslot, rfl⟩ := h
  obtain ⟨s', st', hs', hslot', rfl⟩ := h'
  obtain rfl : s = s' := Option.some.inj (hs.symm.trans hs')
  rw [hslot] at hslot'
  cases hslot'
  rfl

theorem Lives.holds {program : ProgramState} (h : Lives c x i id program.condition) :
    x.Holds i id := by
  obtain ⟨s, st, hs, hslot, hid, -⟩ := h.streaming rfl
  exact ⟨s, st, hs, hslot, hid⟩

/-- Who had its turn holds the slot or is over, and its program is drained if it was started. -/
theorem Reached.held (h : Reached c asked x) {n : Entry} (hn : n ∈ x.journal)
    (he : (∃ arguments, n.effect = .launch id arguments) ∨ ∃ phase, n.effect = .phase id phase) :
    x.Holds n.session id ∨
      (∃ k ∈ x.journal, ∃ phase code fault, k.effect = .finish id phase code fault) ∧
      ((∃ arguments, n.effect = .launch id arguments) →
        ∃ k ∈ x.journal, ∃ timeUp, k.effect = .drained id timeUp) := by
  obtain ⟨j, p, hl⟩ := h.lives id
  have hstory : n ∈ x.story id :=
    mem_story _ hn (by rcases he with ⟨_, he⟩ | ⟨_, he⟩ <;> rw [he] <;> rfl)
  rw [hl.life.session_eq n hstory]
  rcases hl.life.turned hstory he with ⟨program, rfl⟩ | ⟨o, rfl⟩
  · exact Or.inl hl.holds
  · have hjournal : ∀ k ∈ x.story id, k ∈ x.journal := fun k hk => mem_journal_of_story hk
    refine Or.inr ?_
    rcases hl.life.eq_of_played with ⟨-, t₁, port, t₂, heq⟩ |
      ⟨t₁, port, t₂, arguments, t₃, e, t₄, timeUp, -, -, -, heq⟩
    · rw [heq] at hstory hjournal
      refine ⟨⟨⟨t₂, j, Session.finishEffect id o⟩, hjournal _ (by simp), _, _, _, rfl⟩, ?_⟩
      rintro ⟨arguments, hlaunch⟩
      simp only [List.mem_cons, List.not_mem_nil, or_false] at hstory
      rcases hstory with rfl | rfl | rfl | rfl <;> cases hlaunch
    · rw [heq] at hjournal
      exact ⟨⟨⟨t₄, j, Session.finishEffect id o⟩, hjournal _ (by simp), _, _, _, rfl⟩,
        fun _ => ⟨⟨t₄, j, .drained id timeUp⟩, hjournal _ (by simp), _, rfl⟩⟩

theorem split_performs {es : List Effect} {before after : List Entry} {n : Entry}
    (heq : (es.foldl (perform i) x).journal = before ++ n :: after) :
    (∃ rest, x.journal = before ++ n :: rest) ∨
      ∃ new, before = x.journal ++ new ∧ es.map (Entry.mk x.now i) = new ++ n :: after := by
  rw [journal_performs] at heq
  rcases List.append_eq_append_iff.mp heq.symm with ⟨rest, hold, hnew⟩ | ⟨new, hold, hnew⟩
  · cases rest with
    | nil => exact Or.inr ⟨[], by simpa using hold.symm, by simpa using hnew.symm⟩
    | cons n' rest =>
      cases hnew
      exact Or.inl ⟨rest, hold⟩
  · exact Or.inr ⟨new, hold, hnew⟩

/-- If moves begin something only while the slot is free, and who has begun it holds the slot until
it has done something else, then whoever has begun it earlier has done so by then. -/
theorem Reached.serial {first last : Effect → Option Uuid}
    (hmove : ∀ now cue s es s', Move c now cue s es s' → (es.filterMap first).length ≤ 1 ∧
      (es.filterMap first ≠ [] → s.slot = none))
    (hheld : ∀ x, Reached c asked x → ∀ n ∈ x.journal, ∀ id, first n.effect = some id →
      x.Holds n.session id ∨ ∃ k ∈ x.journal, last k.effect = some id)
    (h : Reached c asked x) {before after : List Entry} {n : Entry}
    (heq : x.journal = before ++ n :: after) (hn : first n.effect ≠ none) {m : Entry}
    (hm : m ∈ before) (hsession : m.session = n.session) {id : Uuid}
    (hid : first m.effect = some id) : ∃ k ∈ before, last k.effect = some id := by
  induction h generalizing before after with
  | start => simp at heq
  | @move x i cue s s' es hx hi hstep _ _ ih =>
    rcases split_performs heq with ⟨rest, hold⟩ | ⟨new, rfl, hnew⟩
    · exact ih hold hm
    -- The move itself begins it, so the slot is free, and nothing else is begun in the move.
    · obtain ⟨before', rest, rfl, rfl, hrest⟩ := List.map_eq_append_iff.mp hnew
      obtain ⟨e, after', rfl, rfl, -⟩ := List.map_eq_cons_iff.mp hrest
      obtain ⟨hlength, hfree⟩ := hmove _ _ _ _ _ hstep
      obtain ⟨k, hk⟩ := Option.ne_none_iff_exists'.mp hn
      have he : first e = some k := hk
      rw [List.filterMap_append, List.filterMap_cons_some he] at hlength hfree
      have hslot := hfree (by simp)
      have hnone : before'.filterMap first = [] := by
        rw [← List.length_eq_zero_iff]
        simp only [List.length_append, List.length_cons] at hlength
        omega
      rcases List.mem_append.mp hm with hm | hm
      · rcases hheld x hx m hm id hid with ⟨s', st, hs', hst, -⟩ | ⟨k, hk, hlast⟩
        · rw [hsession] at hs'
          obtain rfl : s = s' := Option.some.inj (hi.symm.trans hs')
          rw [hslot] at hst
          cases hst
        · exact ⟨k, List.mem_append_left _ hk, hlast⟩
      · obtain ⟨e', he', rfl⟩ := List.mem_map.mp hm
        have hmem : id ∈ before'.filterMap first := List.mem_filterMap.mpr ⟨e', he', hid⟩
        rw [hnone] at hmem
        cases hmem
  | idle _ hstep ih => exact ih (hstep.idle.journal ▸ heq) hm
  | clock _ _ _ _ ih => exact ih heq hm

theorem Reached.sorted (h : Reached c asked x) : x.journal.Pairwise (·.time ≤ ·.time) := by
  induction h with
  | start => exact .nil
  | @move x i cue s s' es hx _ _ _ _ ih =>
    rw [journal_performs]
    refine List.pairwise_append.mpr ⟨ih, ?_, fun m hm n hn => ?_⟩
    · exact List.pairwise_map.mpr (List.pairwise_of_forall fun _ _ => Nat.le_refl _)
    · obtain ⟨e, -, rfl⟩ := List.mem_map.mp hn
      exact hx.past m hm
  | idle _ hstep ih => exact hstep.idle.journal ▸ ih
  | clock _ _ _ _ ih => exact ih

/-- The error output of a program is read for as long as meant after the program has come to an
end, and less only if it is closed. -/
theorem Reached.drained (h : Reached c asked x) {n : Entry} (hn : n ∈ x.journal) {timeUp : Bool}
    (he : n.effect = .drained id timeUp) :
    ∃ m ∈ x.journal, m.session = n.session ∧
      ((∃ ending, m.effect = .exited id ending) ∨ m.effect = .killed id) ∧ m.time ≤ n.time ∧
      n.time ≤ m.time + PlaySetup.lingerLimit ∧
      (timeUp = true → n.time = m.time + PlaySetup.lingerLimit) := by
  obtain ⟨j, p, hl⟩ := h.lives id
  have hstory : n ∈ x.story id := mem_story _ hn (by rw [he]; rfl)
  have hsorted : (x.story id).Pairwise (·.time ≤ ·.time) := h.sorted.sublist List.filter_sublist
  obtain ⟨o, rfl⟩ := hl.life.played_of_drained hstory he
  rw [hl.life.session_eq n hstory]
  rcases hl.life.eq_of_played with ⟨-, t₁, port, t₂, heq⟩ |
    ⟨t₁, port, t₂, arguments, t₃, e, t₄, timeUp', hends, hle, hexact, heq⟩
  · rw [heq] at hstory
    simp only [List.mem_cons, List.not_mem_nil, or_false] at hstory
    rcases hstory with rfl | rfl | rfl | rfl <;> cases he
  · have hend : ⟨t₃, j, e⟩ ∈ x.story id := by simp [heq]
    have hn' : n = ⟨t₄, j, .drained id timeUp'⟩ := by
      rw [heq] at hstory
      cases hends <;>
        simp only [Life.started, List.cons_append, List.nil_append, List.mem_cons,
          List.not_mem_nil, or_false] at hstory <;>
        rcases hstory with rfl | rfl | rfl | rfl | rfl | rfl <;> cases he <;> rfl
    subst hn'
    cases he
    have htime : t₃ ≤ t₄ := by
      rw [heq] at hsorted
      have hends := (List.pairwise_append.mp hsorted).2.1
      exact (List.pairwise_cons.mp hends).1 ⟨t₄, j, .drained id timeUp⟩ (by simp)
    refine ⟨⟨t₃, j, e⟩, mem_journal_of_story hend, rfl, ?_, htime, hle, hexact⟩
    cases hends with
    | ended ending => exact Or.inl ⟨ending, rfl⟩
    | aborted => exact Or.inr rfl

end Exchange

end RtpBroker
