import RtpBroker.Proofs.InTurn

/-!
# Looking and joining the line

Who looks in vain is woken again, after everybody who has looked already. Who finds
the address joins the line behind everybody who has found it already, and before
everybody who looks later.
-/

namespace RtpBroker.Session

section

variable {c : PlaySetup} {last : Uuid → Nat} {k : Watch} {now : Nat} {s s' : Session}
  {es : List Effect} {ringing : List Uuid} {w : Waiting} {id : Uuid}

/-! ## In vain -/

/-- Whoever waits but for `w` waited before, and has looked before `w` did just now. -/
theorem Awaiting.again {last' : Uuid → Nat} (h : Awaiting c last k s)
    (hself : last' w.request.id = k.now) (hother : ∀ id ≠ w.request.id, last' id = last id)
    (hwaiting : ∀ v ∈ s'.waiting, v = w ∨ v ∈ s.waiting ∧ v.request.id ≠ w.request.id)
    (hring : w.request.id ∉ k.ringing) (hset : w.request.id ∉ k.set.map Prod.snd)
    (hdue : k.now < w.deadline)
    (hes : es.filterMap Effect.wake? = [(nextLook c k.now w.deadline, w.request.id)])
    (hnodup : (k.tell es).history.accepted.Nodup)
    (hbehind : ∀ v ∈ s.waiting, v.request.id ≠ w.request.id →
      last v.request.id < k.now ∨ last v.request.id = k.now ∧
        (k.tell es).history.AcceptedBefore v.request.id w.request.id) :
    Awaiting c last' (k.tell es) s' := by
  have hafter : lookAfter c last' w = nextLook c k.now w.deadline := by
    rw [lookAfter, hself]
  have hafter' : ∀ v : Waiting, v.request.id ≠ w.request.id →
      lookAfter c last' v = lookAfter c last v := by
    intro v hne
    rw [lookAfter, lookAfter, hother _ hne]
  have hset' : (k.tell es).set = k.set ++ [(nextLook c k.now w.deadline, w.request.id)] := by
    rw [← hes]
    rfl
  have hnext := nextLook_mem (c := c) hdue
  have hranked : ∀ {id id'}, id ≠ w.request.id → id' ≠ w.request.id →
      Ranked k.history last s id id' → Ranked (k.tell es).history last' s' id id' := by
    intro id id' hne hne' hr hid hid'
    have hold : ∀ {id}, id ≠ w.request.id → id ∈ s'.waitingIds → id ∈ s.waitingIds := by
      rintro _ hne hid
      obtain ⟨v, hv, rfl⟩ := List.mem_map.mp hid
      rcases hwaiting v hv with rfl | ⟨hv, -⟩
      · exact absurd rfl hne
      · exact mem_waitingIds hv
    rw [hother _ hne, hother _ hne']
    exact (hr (hold hne hid) (hold hne' hid')).imp_right fun ⟨heq, hb⟩ => ⟨heq, hb.append _⟩
  refine ⟨hnodup, fun v hv => ?_, fun v hv hvring => ?_, fun v hv due hmem => ?_, fun a ha => ?_,
    ?_, ?_⟩
  · rcases hwaiting v hv with rfl | ⟨hv, hne⟩
    · rw [hafter]
      exact Or.inr ⟨hnext.1, hset' ▸ List.mem_append_right _ (List.mem_singleton_self _)⟩
    · rw [hafter' v hne]
      exact (h.woken v hv).imp_right fun ⟨hlt, hmem⟩ =>
        ⟨hlt, hset' ▸ List.mem_append_left _ hmem⟩
  · rcases hwaiting v hv with rfl | ⟨hv, hne⟩
    · exact absurd hvring hring
    · rw [hafter' v hne]
      exact h.rung v hv hvring
  · rw [hset'] at hmem
    rcases hwaiting v hv with rfl | ⟨hv, hne⟩
    · rcases List.mem_append.mp hmem with hmem | hmem
      · exact absurd (List.mem_map_of_mem hmem) hset
      · rw [hafter]
        exact congrArg Prod.fst (List.mem_singleton.mp hmem)
    · rw [hafter' v hne]
      rcases List.mem_append.mp hmem with hmem | hmem
      · exact h.once v hv due hmem
      · exact absurd (congrArg Prod.snd (List.mem_singleton.mp hmem)) hne
  · rw [hset'] at ha
    rcases List.mem_append.mp ha with ha | ha
    · exact h.future a ha
    · rw [List.mem_singleton.mp ha]
      exact hnext.1
  · exact h.ringing.imp_of_mem fun hid hid' hr =>
      hranked (fun heq => hring (heq ▸ hid)) (fun heq => hring (heq ▸ hid')) hr
  · rw [hset', List.map_append]
    refine List.pairwise_append.mpr ⟨?_, List.pairwise_singleton _ _, fun id hid id' hid' => ?_⟩
    · exact h.set.imp_of_mem fun hid hid' hr =>
        hranked (fun heq => hset (heq ▸ hid)) (fun heq => hset (heq ▸ hid')) hr
    · obtain rfl := List.mem_singleton.mp hid'
      intro hwaits _
      have hne : id ≠ w.request.id := fun heq => hset (heq ▸ hid)
      obtain ⟨v, hv, rfl⟩ := List.mem_map.mp hwaits
      change _ < last' w.request.id ∨ _ = last' w.request.id ∧ _
      rw [hself, hother _ hne]
      rcases hwaiting v hv with rfl | ⟨hv, -⟩
      · exact absurd rfl hne
      · exact hbehind v hv hne

/-- Who looks again before its time is up does so an interval after its last look. -/
theorem eq_add_interval {deadline t : Nat} (hnow : now = nextLook c t deadline)
    (hdue : now < deadline) : c.interval ≠ 0 ∧ now = t + c.interval := by
  unfold nextLook at hnow
  split at hnow
  · omega
  · next hne => exact ⟨hne, by omega⟩

/-- The first of those who ring looks in vain. -/
theorem Searching.again {last' : Uuid → Nat} (h : Searching c last k s) (ha : Awaiting c last k s)
    (hw : w ∈ s.waiting) (hself : last' w.request.id = k.now)
    (hother : ∀ id ≠ w.request.id, last' id = last id)
    (hids : ∀ v ∈ s.waiting, v.request.id = w.request.id → v = w)
    (hringing : k.ringing = w.request.id :: ringing) (hnot : w.request.id ∉ ringing)
    (hdue : k.now < w.deadline) {due : Nat} :
    Searching c last' ({ k with ringing }.tell [.alarm due w.request.id]) s := by
  have hring : ∀ id ∈ ringing, id ∈ k.ringing := fun id hid => hringing ▸ List.mem_cons_of_mem _ hid
  have hnow := ha.rung w hw (hringing ▸ List.mem_cons_self ..)
  obtain ⟨-, hlook⟩ := eq_add_interval hnow hdue
  have hmilestones : ∀ id, History.milestones id
      (k.history ++ [.alarm due w.request.id].map (k.now, ·)) = k.history.milestones id :=
    fun id => History.milestones_append_of_nil rfl List.not_mem_nil
  refine ⟨?_, ?_, h.ordered.imp fun ⟨hle, hb⟩ => ⟨hle, hb.append _⟩, fun v hv => ?_,
    fun v hv => ?_, fun u hu hlast v hv hvring hvdue => ?_, fun a ha' => ?_⟩
  · change History.learnings (k.history ++ _) = []
    rw [History.learnings_append, h.unlearned]
    rfl
  · have hnone : History.streamed ([Effect.alarm due w.request.id].map (k.now, ·)) = [] := rfl
    change History.streamed (k.history ++ _) ++ _ = []
    rw [History.streamed_append, hnone, List.append_nil]
    exact h.turns
  · obtain ⟨a, n, hmilestone, hdeadline, hgrid⟩ := h.onGrid v hv
    by_cases hvw : v.request.id = w.request.id
    · obtain rfl := hids v hv hvw
      refine ⟨a, n + 1, (hmilestones _).trans hmilestone, hdeadline, ?_⟩
      rw [hself, hlook, hgrid, Nat.succ_mul, Nat.add_assoc]
    · exact ⟨a, n, (hmilestones _).trans hmilestone, hdeadline, (hother _ hvw).trans hgrid⟩
  · by_cases hvw : v.request.id = w.request.id
    · obtain rfl := hids v hv hvw
      rw [hself]
      exact ⟨Nat.le_refl _, hdue⟩
    · rw [hother _ hvw]
      exact h.past v hv
  · have hvw : v.request.id ≠ w.request.id := fun heq => hnot (heq ▸ hvring)
    by_cases huw : u.request.id = w.request.id
    · -- Both looked an interval ago, so the order in which they ring is that of their acceptance.
      have hpairs : (w.request.id :: ringing).Pairwise (Ranked k.history last s) :=
        hringing ▸ ha.ringing
      have hrank := (List.pairwise_cons.mp hpairs).1 _ hvring (mem_waitingIds hw)
        (mem_waitingIds hv)
      obtain ⟨-, hlook'⟩ := eq_add_interval (ha.rung v hv (hring _ hvring)) hvdue
      rw [huw]
      rcases hrank with hlt | ⟨-, hb⟩
      · omega
      · exact hb.append _
    · rw [hother _ huw] at hlast
      exact (h.ahead u hu hlast v hv (hring _ hvring) hvdue).append _
  · change a ∈ k.set ++ [(due, w.request.id)] at ha'
    change a.2 ∈ History.accepted (k.history ++ _)
    rw [History.accepted_append]
    refine List.mem_append_left _ ?_
    rcases List.mem_append.mp ha' with ha' | ha'
    · exact h.known a ha'
    · obtain ⟨t, n, hmilestone, -⟩ := h.onGrid w hw
      rw [List.mem_singleton.mp ha']
      exact History.mem_accepted (t := t) (by simp [hmilestone])

/-! ## With success -/

/-- Whoever finds the address later than those who have found it and before those who wait comes
next. -/
theorem Queueing.join {new : History} {set : List (Nat × Uuid)} {f : RtpBroker.Finding}
    (h : Queueing c last k s) (id : Uuid) (hwaiting : s'.waiting.Sublist s.waiting)
    (hlearned : new.learnings = [])
    (hnew : ∀ id', id' ∈ k.history.accepted → id' ∉ new.accepted)
    (hturns : s'.turns (k.history ++ new) = s.turns k.history ++ [id])
    (hf : History.finding? c id (k.history ++ new) = some f) (htime : f.time ≤ k.now)
    (hmissed : f.missed ≤ k.now)
    (hlast : ∀ id' ∈ s.turns k.history, History.FindsBefore c (k.history ++ new) id' id)
    (hfirst : ∀ id' ∈ s'.waitingIds, History.FindsBefore c (k.history ++ new) id id') :
    Queueing c last ⟨k.now, ringing, set, k.history ++ new⟩ s' := by
  have hids := (waitingIds_sublist hwaiting).subset
  have hturn : ∀ id' ∈ s.turns k.history, id' ∉ new.accepted := fun id' hid' => by
    obtain ⟨g, hg, -⟩ := h.past id' hid'
    exact hnew id' (History.mem_accepted_of_finding hg)
  have hwait : ∀ id' ∈ s.waitingIds, id' ∉ new.accepted := fun id' hid' => by
    obtain ⟨v, hv, rfl⟩ := List.mem_map.mp hid'
    exact hnew _ (History.mem_accepted_of_finding (h.found v hv))
  refine ⟨?_, fun hzero => ?_, fun v hv => ?_, fun v hv => h.looked v (hwaiting.subset hv),
    fun id' hid' => ?_, ?_, fun id' hid' v hv => ?_⟩
  · obtain ⟨t, ht⟩ := h.learned
    refine ⟨t, ?_⟩
    change History.learnings (k.history ++ new) = [t]
    rw [History.learnings_append, ht, hlearned, List.append_nil]
  · exact List.sublist_nil.mp (h.still hzero ▸ hwaiting)
  · have hv' := hwaiting.subset hv
    exact (History.finding?_append_of_nil hlearned (hwait _ (mem_waitingIds hv'))).trans
      (h.found v hv')
  · change id' ∈ s'.turns (k.history ++ new) at hid'
    rw [hturns] at hid'
    rcases List.mem_append.mp hid' with hid' | hid'
    · obtain ⟨g, hg, hle⟩ := h.past id' hid'
      exact ⟨g, (History.finding?_append_of_nil hlearned (hturn id' hid')).trans hg, hle⟩
    · rw [List.mem_singleton.mp hid']
      exact ⟨f, hf, htime, hmissed⟩
  · change (s'.turns (k.history ++ new)).Pairwise _
    rw [hturns]
    refine List.pairwise_append.mpr ⟨?_, List.pairwise_singleton _ _, fun id' hid' id'' hid'' => ?_⟩
    · exact h.sorted.imp_of_mem fun hid' hid'' hb =>
        hb.append hlearned (hturn _ hid') (hturn _ hid'')
    · rw [List.mem_singleton.mp hid'']
      exact hlast id' hid'
  · change id' ∈ s'.turns (k.history ++ new) at hid'
    rw [hturns] at hid'
    rcases List.mem_append.mp hid' with hid' | hid'
    · exact (h.ahead id' hid' v (hids hv)).append hlearned (hturn id' hid') (hwait v (hids hv))
    · rw [List.mem_singleton.mp hid']
      exact hfirst v hv

variable (c now s) in
theorem look_joins (hsome : s.remote.isSome = true) (w : Waiting) :
    Joins [w.request.id] (s.without w.request.id) s (s.look c now w).2 (s.look c now w).1 := by
  unfold look
  dsimp only
  rw [if_pos hsome]
  have hjoins := handOver_joins c now
    { s with waiting := s.without w.request.id, line := s.line ++ [w.request] }
  have hturns := hjoins.turns
  rw [List.append_nil, List.map_append] at hturns
  exact ⟨hjoins.waiting, hjoins.remote, hturns, hjoins.aside⟩

theorem not_mem_without (id : Uuid) (s : Session) {v : Waiting} (hv : v ∈ s.without id) :
    v ∈ s.waiting ∧ v.request.id ≠ id := by
  simpa [without] using hv

theorem look_lapsed (hnone : s.remote = none) (hdue : w.deadline ≤ now) :
    s.look c now w = ({ s with waiting := s.without w.request.id },
      [.finish w.request.id .timedOut none (some (.remoteUnknown (UInt64.ofNat c.ceiling)))]) := by
  unfold look
  rw [if_neg (by simp [hnone]), if_pos hdue]
  rfl

theorem look_again (hnone : s.remote = none) (hdue : now < w.deadline) :
    s.look c now w = (s, [.alarm (nextLook c now w.deadline) w.request.id]) := by
  unfold look
  rw [if_neg (by simp [hnone]), if_neg (Nat.not_le.mpr hdue)]

/-- Of those who ring, and of everybody else who waits, the first one who rings finds the address
first. -/
theorem Queueing.first (h : Queueing c last k s) (ha : Awaiting c last k s) (hw : w ∈ s.waiting)
    (hringing : k.ringing = w.request.id :: ringing) {v : Waiting} (hv : v ∈ s.waiting)
    (hne : v.request.id ≠ w.request.id) :
    k.history.FindsBefore c w.request.id v.request.id := by
  intro f g hf hg
  have hnow := ha.rung w hw (hringing ▸ List.mem_cons_self ..)
  rw [h.found w hw] at hf
  rw [h.found v hv] at hg
  cases hf
  cases hg
  rcases ha.woken v hv with ⟨hvnow, hvring⟩ | ⟨hlt, -⟩
  · have hpairs : (w.request.id :: ringing).Pairwise (Ranked k.history last s) :=
      hringing ▸ ha.ringing
    have hmem := (List.mem_cons.mp (hringing ▸ hvring)).resolve_left hne
    have htime : lookAfter c last w = lookAfter c last v := hnow.symm.trans hvnow
    rcases (List.pairwise_cons.mp hpairs).1 _ hmem (mem_waitingIds hw) (mem_waitingIds hv) with
      hlt | ⟨heq, hb⟩
    · exact Or.inl (Or.inr ⟨htime, hlt⟩)
    · exact Or.inr ⟨by rw [htime, heq], hb⟩
  · exact Or.inl (Or.inl (hnow ▸ hlt))

theorem tell_nil (k : Watch) : k.tell [] = k := by
  simp [Watch.tell]

/-- The first of those who ring looks, in vain or not. -/
theorem InTurn.look (h : InTurn c last k s) (hs : s.Sound k.now) (hw : w ∈ s.waiting)
    (hringing : k.ringing = w.request.id :: ringing) :
    ∃ last',
      InTurn c last' ({ k with ringing }.tell (s.look c k.now w).2) (s.look c k.now w).1 := by
  have hmem : w.request.id ∈ k.ringing := hringing ▸ List.mem_cons_self ..
  have hsub : ringing.Sublist k.ringing := hringing ▸ List.sublist_cons_self _ _
  have hwithout : (s.without w.request.id).Sublist s.waiting := List.filter_sublist
  have hkept : ∀ {s' : Session}, s'.waiting = s.without w.request.id →
      ∀ id ∈ s'.waitingIds, id ∈ k.ringing → id ∈ ringing := by
    intro s' hs' id hid hring
    obtain ⟨v, hv, rfl⟩ := List.mem_map.mp hid
    exact (List.mem_cons.mp (hringing ▸ hring)).resolve_left (not_mem_without _ s (hs' ▸ hv)).2
  have hnow := h.awaiting.rung w hw hmem
  cases hremote : s.remote with
  | some target =>
    have hne : s.remote ≠ none := by simp [hremote]
    have hjoins := look_joins c k.now s (by simp [hremote]) w
    have hq := h.queueing hne
    have hafter : (s.look c k.now w).1.waiting.Sublist s.waiting := hjoins.waiting ▸ hwithout
    have hlearned := hjoins.learnings k.now
    have hnew : ∀ id, id ∉ History.accepted ((s.look c k.now w).2.map (k.now, ·)) := by
      rw [accepted_eq_nil hjoins.unaccepted]
      exact fun _ => List.not_mem_nil
    have hnodup := nodup_told h.awaiting.unrepeated hjoins.unaccepted
    refine ⟨last, h.awaiting.ease (.of_aside hafter hjoins.aside) hnodup hsub
      (hkept hjoins.waiting), fun hnone => absurd (hjoins.remote.symm.trans hnone) hne,
      fun _ => ?_⟩
    refine hq.join (k := k) (f := ⟨lookAfter c last w, last w.request.id⟩) w.request.id hafter
      hlearned (fun id _ => hnew id) ?_ ?_ (Nat.le_of_eq hnow.symm) (hq.looked w hw)
      (fun id hid => ?_) fun id hid => ?_
    · rw [turns, turns, History.streamed_append, History.streamed_map, List.append_assoc,
        hjoins.turns, List.append_assoc]
    · exact (History.finding?_append_of_nil hlearned (hnew _)).trans (hq.found w hw)
    · exact (hq.ahead id hid _ (mem_waitingIds hw)).append hlearned (hnew _) (hnew _)
    · obtain ⟨v, hv, rfl⟩ := List.mem_map.mp hid
      obtain ⟨hv, hvw⟩ := not_mem_without _ s (hjoins.waiting ▸ hv)
      exact (hq.first h.awaiting hw hringing hv hvw).append hlearned (hnew _) (hnew _)
  | none =>
    rcases Nat.lt_or_ge k.now w.deadline with hdue | hdue
    · rw [look_again hremote hdue]
      have hsearching := h.searching hremote
      have hpairs : (w.request.id :: ringing).Pairwise (Ranked k.history last s) :=
        hringing ▸ h.awaiting.ringing
      have hnotring : w.request.id ∉ ringing := by
        intro hring
        rcases (List.pairwise_cons.mp hpairs).1 _ hring (mem_waitingIds hw) (mem_waitingIds hw) with
          hlt | ⟨-, hb⟩
        · exact Nat.lt_irrefl _ hlt
        · exact hb.irrefl h.awaiting.unrepeated
      have hnotset : w.request.id ∉ k.set.map Prod.snd := by
        intro hset
        obtain ⟨⟨due, _⟩, ha, rfl⟩ := List.mem_map.mp hset
        have hlt := h.awaiting.future _ ha
        rw [h.awaiting.once w hw due ha, ← hnow] at hlt
        exact Nat.lt_irrefl _ hlt
      have hids : ∀ v ∈ s.waiting, v.request.id = w.request.id → v = w := by
        have hnodup : (s.waiting.map (·.request.id)).Nodup :=
          (List.nodup_append.mp (List.nodup_append.mp hs.nodup).1).1
        exact fun v hv heq => List.inj_on_of_nodup_map hnodup hv hw heq
      have hself : Function.update last w.request.id k.now w.request.id = k.now :=
        Function.update_self ..
      have hother : ∀ id ≠ w.request.id, Function.update last w.request.id k.now id = last id :=
        fun id hne => Function.update_of_ne hne ..
      -- Without the one that looks, everybody awaits what they awaited before.
      let others : Session := { s with waiting := s.without w.request.id }
      have hothers : Awaiting c last { k with ringing } others := by
        have heases : Eases k.now s [] others := .of_aside hwithout (by simp)
        have hnodup : (k.tell []).history.accepted.Nodup :=
          nodup_told h.awaiting.unrepeated (by simp)
        have hease := h.awaiting.ease heases hnodup hsub (hkept rfl)
        rwa [tell_nil] at hease
      refine ⟨Function.update last w.request.id k.now, ?_, fun _ => ?_,
        fun hne => absurd hremote hne⟩
      · refine hothers.again hself hother (fun v hv => ?_) hnotring hnotset hdue rfl ?_
          fun v hv hne => ?_
        · by_cases hvw : v.request.id = w.request.id
          · exact Or.inl (hids v hv hvw)
          · exact Or.inr ⟨List.mem_filter.mpr ⟨hv, by simpa using hvw⟩, hvw⟩
        · change (History.accepted (k.history ++ [(k.now, _)])).Nodup
          rw [History.accepted_append]
          exact (List.append_nil _).symm ▸ h.awaiting.unrepeated
        · obtain ⟨hv, -⟩ := not_mem_without _ s hv
          rcases Nat.eq_or_lt_of_le (hsearching.past v hv).1 with heq | hlt
          · exact Or.inr ⟨heq, (hsearching.ahead v hv heq w hw hmem hdue).append _⟩
          · exact Or.inl hlt
      · exact hsearching.again h.awaiting hw hself hother hids hringing hnotring hdue
    · rw [look_lapsed hremote hdue]
      refine ⟨last, h.proceed hs (.of_aside hwithout (List.Sublist.refl _) rfl (fun h => h) ?_)
        hsub (hkept rfl)⟩
      simp [Effect.IsAside, Effect.isLearned, Effect.accepted?, Effect.wake?, Effect.streams?]

theorem InTurn.wake (h : InTurn c last k s) (hs : s.Sound k.now)
    (hringing : k.ringing = id :: ringing) :
    ∃ last', InTurn c last' ({ k with ringing }.tell (s.wake c k.now id).2)
      (s.wake c k.now id).1 := by
  unfold Session.wake
  split
  · next w hfind =>
    obtain rfl : w.request.id = id := by simpa using List.find?_some hfind
    exact h.look hs (List.mem_of_find?_eq_some hfind) hringing
  · next hfind =>
    -- Nobody who waits is woken, so it does not matter whether anybody else is.
    have hnot : id ∉ s.waitingIds := by
      intro hid
      obtain ⟨w, hw, rfl⟩ := List.mem_map.mp hid
      simpa using List.find?_eq_none.mp hfind w hw
    have hproceed : ∀ {es s'}, Proceeds k.now s es s' →
        ∃ last', InTurn c last' ({ k with ringing }.tell es) s' := by
      intro es s' hp
      refine ⟨last, h.proceed hs hp (hringing ▸ List.sublist_cons_self _ _)
        fun id' hid' hring => ?_⟩
      have hne : id' ≠ id := fun heq => hnot ((waitingIds_sublist hp.waiting).subset (heq ▸ hid'))
      exact (List.mem_cons.mp (hringing ▸ hring)).resolve_left hne
    split
    · exact hproceed (.refl _ _)
    · next st hslot =>
      split
      · exact hproceed (.refl _ _)
      · split
        · exact hproceed (release_proceeds c k.now hslot _ true)
        · exact hproceed (.refl _ _)

end

end RtpBroker.Session
