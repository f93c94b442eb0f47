import RtpBroker.Proofs.Acceptance
import RtpBroker.Proofs.Maturity

/-!
# Whose a playback is

A playback belongs to the session that it was accepted in: what a session does is about
its own playbacks, and the record of a playback has the port of its session. So what
happens in a session on one port does not change the records of another.
-/

namespace RtpBroker

namespace Session

variable {c : PlaySetup} {now : Nat} {cue : Cue} {cues : List Cue} {s s' : Session}
  {es : List Effect}

/-- What a session does by itself: it stays on its port, which whoever it accepts is told, and its
effects are about its own playbacks or about a `fresh` one. -/
structure Discreet (fresh : Uuid → Prop) (s s' : Session) (es : List Effect) : Prop where
  port : s'.port = s.port
  enters : ∀ id port, .enter id port ∈ es → port = s.port
  about : ∀ e ∈ es, ∀ id, e.subject? = some id → id ∈ s.playbacks ∨ fresh id

theorem Discreet.mono {fresh fresh' : Uuid → Prop} (h : s.Discreet fresh s' es)
    (hfresh : ∀ id, fresh id → fresh' id) : s.Discreet fresh' s' es :=
  ⟨h.port, h.enters, fun e he id hid => (h.about e he id hid).imp_right (hfresh id)⟩

/-- The effects of a move that are about a playback are about the one that it concerns. -/
theorem Move.about (h : Move c now cue s es s') {e : Effect} (he : e ∈ es) {id : Uuid}
    (hid : e.subject? = some id) : id ∈ s.playbacks ∨ cue = .enter id := by
  have hone : ∀ {k}, k ∈ s.playbacks → (∀ e ∈ es, e.subject? = none ∨ e.subject? = some k) →
      id ∈ s.playbacks ∨ cue = .enter id := by
    intro k hk hes
    rcases hes e he with hnone | hsome
    · cases hnone.symm.trans hid
    · exact Or.inl (Option.some.inj (hsome.symm.trans hid) ▸ hk)
  cases h with
  | hear sender =>
    rcases (mem_hear ..).mp he with rfl | ⟨rfl, -⟩ <;> cases hid
  | enter _ r =>
    obtain rfl := List.mem_singleton.mp he
    exact Or.inr (congrArg Cue.enter (Option.some.inj hid))
  | again =>
    obtain rfl := List.mem_singleton.mp he
    cases hid
  | @lapse _ w hw =>
    have hmem : w.request.id ∈ s.waiting.map (·.request.id) := List.mem_map_of_mem hw
    exact hone (List.mem_append_left _ (List.mem_append_left _ hmem)) (by simp [Effect.subject?])
  | @noFile _ r _ _ _ _ hline =>
    exact hone (k := r.id) (by simp [playbacks, queued, hline])
      (by simp [Effect.subject?, finishEffect])
  | @notStarted _ r _ _ _ _ _ hline =>
    exact hone (k := r.id) (by simp [playbacks, queued, hline])
      (by simp [Effect.subject?, finishEffect])
  | @start _ r _ _ _ _ hline =>
    exact hone (k := r.id) (by simp [playbacks, queued, hline]) (by simp [Effect.subject?])
  | @dropWaiting _ w _ _ hw =>
    exact hone (k := w.request.id) (by simp [playbacks, queued, hw])
      (by simp [Effect.subject?, drop])
  | @dropLine _ r _ _ hr =>
    exact hone (k := r.id) (by simp [playbacks, queued, hr]) (by simp [Effect.subject?, drop])
  | @exit _ st _ hslot | @exitHeld _ st _ hslot | @settle _ st _ _ _ hslot
  | @kill _ st _ hslot | @killHeld _ st _ hslot =>
    exact hone (k := st.id) (by simp [playbacks, hslot])
      (by simp [Effect.subject?, settling, finishEffect])
  | _ => cases he

theorem Move.discreet (h : Move c now cue s es s') :
    s.Discreet (fun id => cue = .enter id) s' es := by
  refine ⟨h.lasts.port, fun id port hmem => ?_, fun e he id hid => h.about he hid⟩
  obtain rfl := h.entered hmem
  cases h with
  | enter => simpa using hmem

theorem Moves.discreet (h : Moves c now cues s es s') :
    s.Discreet (fun id => .enter id ∈ cues) s' es := by
  induction h with
  | refl s => exact ⟨rfl, by simp, by simp⟩
  | @head cue s s' s'' es es' hcue hm _ ih =>
    have hfirst := hm.discreet
    refine ⟨ih.port.trans hfirst.port, fun id port hmem => ?_, fun e he id hid => ?_⟩
    · rcases List.mem_append.mp hmem with hmem | hmem
      · exact hfirst.enters id port hmem
      · exact (ih.enters id port hmem).trans hfirst.port
    · rcases List.mem_append.mp he with he | he
      · exact (hfirst.about e he id hid).imp_right fun (heq : cue = .enter id) => heq ▸ hcue
      · refine (ih.about e he id hid).elim (fun hmem => ?_) Or.inr
        rcases hm.playback hmem with hmem | hentered
        · exact Or.inl hmem
        · exact Or.inr (hm.entered hentered ▸ hcue)

end Session

namespace Tracker

variable {now : Timestamp} {t : Tracker} {r : PlaybackStatus}

theorem mem_update {id : Uuid} {f : PlaybackStatus → PlaybackStatus}
    (hr : r ∈ (t.update id f).records) (hf : ∀ s, (f s).id = s.id ∧ (f s).port = s.port) :
    ∃ r₀ ∈ t.records, r₀.id = r.id ∧ r₀.port = r.port := by
  obtain ⟨r₀, hr₀, rfl⟩ := List.mem_map.mp hr
  refine ⟨r₀, hr₀, ?_⟩
  split
  · exact ⟨(hf r₀).1.symm, (hf r₀).2.symm⟩
  · exact ⟨rfl, rfl⟩

/-- Whose a record is and on which port does not change once it is made. -/
theorem mem_note {e : Effect} (hr : r ∈ (t.note now e).records) :
    (∃ r₀ ∈ t.records, r₀.id = r.id ∧ r₀.port = r.port) ∨ e = .enter r.id r.port := by
  cases e with
  | enter id port =>
    rcases List.mem_append.mp hr with hr | hr
    · exact Or.inl ⟨r, (List.mem_filter.mp hr).1, rfl, rfl⟩
    · obtain rfl := List.mem_singleton.mp hr
      exact Or.inr rfl
  | phase id phase => exact Or.inl (mem_update hr fun _ => ⟨rfl, rfl⟩)
  | finish id phase exitCode fault => exact Or.inl (mem_update hr fun _ => ⟨rfl, rfl⟩)
  | _ => exact Or.inl ⟨r, hr, rfl, rfl⟩

theorem mem_notes {es : List Effect} (hr : r ∈ (es.foldl (note now) t).records) :
    (∃ r₀ ∈ t.records, r₀.id = r.id ∧ r₀.port = r.port) ∨ .enter r.id r.port ∈ es := by
  induction es generalizing t with
  | nil => exact Or.inl ⟨r, hr, rfl, rfl⟩
  | cons e es ih =>
    rcases ih hr with ⟨r₁, hr₁, hid, hport⟩ | hmem
    · rw [← hid, ← hport]
      exact (mem_note hr₁).imp_right fun heq => List.mem_cons.mpr (Or.inl heq.symm)
    · exact Or.inr (List.mem_cons_of_mem _ hmem)

end Tracker

namespace Exchange

variable {c : PlaySetup} {asked : Request → Prop} {x : Exchange} {i : Nat} {s : Session}
  {id : Uuid}

/-- Every record was made when its playback was accepted, in a session on its port. -/
theorem Reached.filed (h : Reached c asked x) : ∀ r ∈ x.tracker.records, ∃ t i s,
    ⟨t, i, .enter r.id r.port⟩ ∈ x.journal ∧ x.sessions[i]? = some s ∧ s.port = r.port := by
  induction h with
  | start => simp
  | @move x i cue s s' es _ hi hmove _ _ ih =>
    intro r hr
    rw [tracker_performs] at hr
    rcases Tracker.mem_notes hr with ⟨r₀, hr₀, hid, hport⟩ | hmem
    · obtain ⟨t, j, s₀, hentry, hj, hs₀⟩ := ih r₀ hr₀
      rw [hid, hport] at hentry
      by_cases hji : j = i
      · subst hji
        obtain rfl : s = s₀ := Option.some.inj (hi.symm.trans hj)
        exact ⟨t, j, s', mem_journal_performs_of_journal hentry, session_moved hi,
          hmove.lasts.port.trans (hs₀.trans hport)⟩
      · exact ⟨t, j, s₀, mem_journal_performs_of_journal hentry, (session_unmoved hji).trans hj,
          hs₀.trans hport⟩
    · exact ⟨x.now, i, s', mem_journal_performs_of_mem hmem, session_moved hi,
        hmove.lasts.port.trans (hmove.discreet.enters _ _ hmem).symm⟩
  | idle _ hstep ih =>
    have hidle := hstep.idle
    intro r hr
    obtain ⟨t, j, s, hentry, hj, hport⟩ := ih r (hidle.records r hr)
    obtain ⟨footing, hj'⟩ := hidle.kept j s hj
    exact ⟨t, j, _, hidle.journal ▸ hentry, hj', hport⟩
  | clock _ _ _ _ ih => exact ih

/-- The record of a playback that a session has to do with is on the port of the session. -/
theorem Reached.owned (h : Reached c asked x) (hi : x.sessions[i]? = some s)
    (hid : id ∈ s.playbacks ∨ x.story id = []) :
    ∀ r ∈ x.tracker.records, r.id = id → r.port = s.port := by
  rintro r hr rfl
  rcases hid with hid | hnew
  · obtain ⟨t, j, s', hentry, hj, hport⟩ := h.filed r hr
    obtain ⟨k, p, hlives⟩ := h.lives r.id
    -- The session that knows the playback is the one that it was accepted in.
    have hik : i = k := by
      by_contra hik
      exact Session.not_mem_playbacks (hlives.elsewhere i s hik hi) hid
    have hjk : j = k := hlives.life.session_eq _ (mem_story r.id hentry rfl)
    obtain rfl : s = s' := Option.some.inj (hi.symm.trans (hik ▸ hjk ▸ hj))
    exact hport.symm
  · exact absurd rfl (h.unfiled hnew r hr)

end Exchange

end RtpBroker
