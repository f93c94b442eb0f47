import RtpBroker.Proofs.Joining

/-!
# Newcomers, the first datagram and the clock

A playback that is accepted looks at once, so it comes after everybody who has
looked already. When the address becomes known, everybody who waits finds it at the
next look. When the clock goes on, those ring whose time has come, in the order in
which they have looked.
-/

namespace RtpBroker.Session

section

variable {c : PlaySetup} {last : Uuid → Nat} {k : Watch} {now : Nat} {s s' : Session}
  {es : List Effect} {w : Waiting} {id : Uuid} {r : Request}

/-! ## Acceptance -/

theorem InTurn.accepted_of_waiting (h : InTurn c last k s) (hid : id ∈ s.waitingIds) :
    id ∈ k.history.accepted := by
  obtain ⟨w, hw, rfl⟩ := List.mem_map.mp hid
  cases hremote : s.remote with
  | none =>
    obtain ⟨a, n, hmilestones, -⟩ := (h.searching hremote).onGrid w hw
    exact History.mem_accepted (t := a) (by simp [hmilestones])
  | some target =>
    exact History.mem_accepted_of_finding ((h.queueing (by simp [hremote])).found w hw)

theorem without_enter (c : PlaySetup) (now : Nat) (hnew : r.id ∉ s.waitingIds) :
    (s.enter c now r).1.without r.id = s.waiting := by
  have hfilter : s.waiting.filter (·.request.id != r.id) = s.waiting := by
    refine List.filter_eq_self.mpr fun w hw => ?_
    have hne : w.request.id ≠ r.id := fun heq => hnew (heq ▸ mem_waitingIds hw)
    simpa using hne
  simp [without, enter, hfilter]

/-- Who is accepted once the address is known joins the line at once. -/
theorem accept_joins (c : PlaySetup) (now : Nat) (hsome : s.remote.isSome = true)
    (hnew : r.id ∉ s.waitingIds) : ∃ es, (s.accept c now r).2 = .enter r.id s.port :: es ∧
      Joins [r.id] s.waiting s es (s.accept c now r).1 := by
  have hjoins := look_joins c now (s.enter c now r).1 hsome ⟨r, now + c.ceiling⟩
  exact ⟨_, rfl, hjoins.waiting.trans (without_enter c now hnew), hjoins.remote, hjoins.turns,
    hjoins.aside⟩

/-- Who is accepted once the address is known finds it after everybody in line and before everybody
who waits. -/
theorem Queueing.accept (h : Queueing c last k s) (ha : Awaiting c last k s)
    (hringing : k.ringing = []) (hnew : r.id ∉ k.history.accepted)
    (hj : Joins [r.id] s.waiting s es s') {port : Port} :
    Queueing c last (k.tell (.enter r.id port :: es)) s' := by
  have hrest := hj.learnings k.now
  have hrest' := accepted_eq_nil hj.unaccepted k.now
  have hlearned : History.learnings ((.enter r.id port :: es).map (k.now, ·)) = [] := hrest
  have haccepted : History.accepted ((.enter r.id port :: es).map (k.now, ·)) = [r.id] :=
    congrArg (r.id :: ·) hrest'
  have hold : ∀ id ∈ k.history.accepted,
      id ∉ History.accepted ((.enter r.id port :: es).map (k.now, ·)) := by
    intro id hid
    rw [haccepted, List.mem_singleton]
    exact fun heq => hnew (heq ▸ hid)
  obtain ⟨t, ht⟩ := h.learned
  have hfinding : History.finding? c r.id
      (k.history ++ (.enter r.id port :: es).map (k.now, ·)) = some ⟨k.now, k.now⟩ := by
    rw [History.finding?, History.milestones_append, History.milestones_of_not_accepted hnew, ht,
      List.map_cons, List.map_cons, History.milestones_enter hrest (hrest' ▸ List.not_mem_nil)]
    rfl
  refine h.join (k := k) (f := ⟨k.now, k.now⟩) r.id (hj.waiting ▸ List.Sublist.refl _) hlearned
    hold ?_ hfinding (Nat.le_refl _) (Nat.le_refl _) (fun id hid => ?_) fun id hid => ?_
  · rw [turns, turns, History.streamed_append, History.streamed_map, List.append_assoc,
      List.append_assoc, ← hj.turns]
    rfl
  · obtain ⟨f, hf, htime, hmissed⟩ := h.past id hid
    have hid' := History.mem_accepted_of_finding hf
    intro f' g hf' hg
    rw [History.finding?_append_of_nil hlearned (hold id hid'), hf] at hf'
    rw [hfinding] at hg
    cases hf'
    cases hg
    have hbefore : History.AcceptedBefore
        (k.history ++ (.enter r.id port :: es).map (k.now, ·)) id r.id :=
      .of_new hid' (haccepted ▸ List.mem_singleton_self _)
    rcases Nat.eq_or_lt_of_le htime with hnow | hlt
    · rcases Nat.eq_or_lt_of_le hmissed with hnow' | hlt
      · exact Or.inr ⟨Finding.ext hnow hnow', hbefore⟩
      · exact Or.inl (Or.inr ⟨hnow, hlt⟩)
    · exact Or.inl (Or.inl hlt)
  · obtain ⟨v, hv, rfl⟩ := List.mem_map.mp hid
    have hv' : v ∈ s.waiting := hj.waiting ▸ hv
    intro f g hf hg
    have hfound := h.found v hv'
    rw [hfinding] at hf
    rw [History.finding?_append_of_nil hlearned
      (hold _ (History.mem_accepted_of_finding hfound)), hfound] at hg
    cases hf
    cases hg
    rcases ha.woken v hv' with ⟨-, hring⟩ | ⟨hlt, -⟩
    · simp [hringing] at hring
    · exact Or.inl (Or.inl hlt)

/-- Who is accepted while the address is unknown comes last, if it waits at all. -/
theorem Searching.accept {last' : Uuid → Nat} {ws : List Waiting} (h : Searching c last k s)
    (hringing : k.ringing = []) (hnew : r.id ∉ k.history.accepted)
    (hother : ∀ id ≠ r.id, last' id = last id)
    (hws : ws = [] ∨ ws = [⟨r, k.now + c.ceiling⟩] ∧ 0 < c.ceiling ∧ last' r.id = k.now)
    (hwaiting : s'.waiting = s.waiting ++ ws) (hline : s'.line = s.line) {port : Port}
    (hes : ∀ e ∈ es, e.isLearned = false ∧ e.accepted? = none ∧ e.streams? = none)
    (hwake : ∀ a ∈ es.filterMap Effect.wake?, a.2 = r.id) :
    Searching c last' (k.tell (.enter r.id port :: es)) s' := by
  have hrest := learnings_eq_nil (fun e he => (hes e he).1) k.now
  have hrest' := accepted_eq_nil (fun e he => (hes e he).2.1) k.now
  have hlearned : History.learnings ((.enter r.id port :: es).map (k.now, ·)) = [] := hrest
  have haccepted : History.accepted ((.enter r.id port :: es).map (k.now, ·)) = [r.id] :=
    congrArg (r.id :: ·) hrest'
  have hstreamed : History.streamed ((.enter r.id port :: es).map (k.now, ·)) = [] := by
    rw [History.streamed_map]
    exact List.filterMap_eq_nil_iff.mpr fun e he => by
      rcases List.mem_cons.mp he with rfl | he
      · rfl
      · exact (hes e he).2.2
  have hwaits : ∀ v ∈ s.waiting, v.request.id ∈ k.history.accepted := by
    intro v hv
    obtain ⟨a, n, hmilestones, -⟩ := h.onGrid v hv
    exact History.mem_accepted (t := a) (by simp [hmilestones])
  have hne : ∀ v ∈ s.waiting, v.request.id ≠ r.id := fun v hv heq => hnew (heq ▸ hwaits v hv)
  have hcases : ∀ v ∈ s'.waiting,
      v ∈ s.waiting ∨ v = ⟨r, k.now + c.ceiling⟩ ∧ 0 < c.ceiling ∧ last' r.id = k.now := by
    intro v hv
    rw [hwaiting, List.mem_append] at hv
    rcases hws with rfl | ⟨rfl, hlast⟩
    · exact Or.inl (hv.resolve_right List.not_mem_nil)
    · exact hv.imp_right fun hv => ⟨List.mem_singleton.mp hv, hlast⟩
  refine ⟨?_, ?_, ?_, fun v hv => ?_, fun v hv => ?_, fun u _ _ v _ hring => ?_, fun a ha => ?_⟩
  · change History.learnings (k.history ++ _) = []
    rw [History.learnings_append, h.unlearned, hlearned, List.append_nil]
  · change History.streamed (k.history ++ _) ++ _ = []
    rw [History.streamed_append, hstreamed, List.append_nil, hline]
    exact h.turns
  · have hold : s.waiting.Pairwise fun u v => u.deadline ≤ v.deadline ∧ History.AcceptedBefore
        (k.tell (.enter r.id port :: es)).history u.request.id v.request.id :=
      h.ordered.imp fun ⟨hle, hb⟩ => ⟨hle, hb.append _⟩
    rcases hws with rfl | ⟨rfl, -⟩
    · rwa [hwaiting, List.append_nil]
    · rw [hwaiting]
      refine List.pairwise_append.mpr ⟨hold, List.pairwise_singleton _ _, fun u hu v hv => ?_⟩
      rw [List.mem_singleton.mp hv]
      obtain ⟨a, n, -, hdeadline, hgrid⟩ := h.onGrid u hu
      have hpast := (h.past u hu).1
      refine ⟨?_, .of_new (hwaits u hu) (haccepted ▸ List.mem_singleton_self _)⟩
      change u.deadline ≤ k.now + c.ceiling
      omega
  · rcases hcases v hv with hv | ⟨rfl, -, hself⟩
    · obtain ⟨a, n, hmilestones, hdeadline, hgrid⟩ := h.onGrid v hv
      refine ⟨a, n, ?_, hdeadline, (hother _ (hne v hv)).trans hgrid⟩
      refine (History.milestones_append_of_nil hlearned ?_).trans hmilestones
      rw [haccepted, List.mem_singleton]
      exact hne v hv
    · refine ⟨k.now, 0, ?_, rfl, by rw [hself, Nat.zero_mul, Nat.add_zero]⟩
      change History.milestones r.id (k.history ++ _) = _
      rw [History.milestones_append, History.milestones_of_not_accepted hnew, h.unlearned]
      exact History.milestones_enter hrest (hrest' ▸ List.not_mem_nil)
  · rcases hcases v hv with hv | ⟨rfl, hpos, hself⟩
    · rw [hother _ (hne v hv)]
      exact h.past v hv
    · rw [hself]
      exact ⟨Nat.le_refl _, Nat.lt_add_of_pos_right hpos⟩
  · exact absurd (hringing ▸ hring) List.not_mem_nil
  · change a.2 ∈ History.accepted (k.history ++ _)
    rw [History.accepted_append, haccepted]
    rcases List.mem_append.mp ha with ha | ha
    · exact List.mem_append_left _ (h.known a ha)
    · rw [hwake a ha]
      exact List.mem_append_right _ (List.mem_singleton_self _)

theorem InTurn.accept (h : InTurn c last k s) (hringing : k.ringing = [])
    (hnew : r.id ∉ k.history.accepted) :
    ∃ last', InTurn c last' (k.tell (s.accept c k.now r).2) (s.accept c k.now r).1 := by
  have hnot : r.id ∉ s.waitingIds := fun hid => hnew (h.accepted_of_waiting hid)
  have hnodup : ∀ {es : List Effect}, (∀ e ∈ es, e.accepted? = none) →
      (k.tell (.enter r.id s.port :: es)).history.accepted.Nodup := by
    intro es hes
    have haccepted : History.accepted ((.enter r.id s.port :: es).map (k.now, ·)) = [r.id] :=
      congrArg (r.id :: ·) (accepted_eq_nil hes k.now)
    change (History.accepted (k.history ++ _)).Nodup
    rw [History.accepted_append, haccepted]
    exact h.awaiting.unrepeated.append (List.nodup_singleton _) (by simpa using hnew)
  cases hremote : s.remote with
  | some target =>
    obtain ⟨es, hes, hjoins⟩ := accept_joins c k.now (by simp [hremote]) hnot
    have heases : Eases k.now s (.enter r.id s.port :: es) (s.accept c k.now r).1 := by
      refine ⟨hjoins.waiting ▸ List.Sublist.refl _, fun due id hmem => ?_⟩
      cases (hjoins.aside _ ((List.mem_cons.mp hmem).resolve_left (by simp))).2.2
    rw [hes]
    refine ⟨last, ?_, fun hnone => ?_, fun _ => ?_⟩
    · exact h.awaiting.ease heases (hnodup hjoins.unaccepted) (List.Sublist.refl _)
        fun _ _ hring => hring
    · rw [hjoins.remote, hremote] at hnone
      cases hnone
    · exact (h.queueing (by simp [hremote])).accept h.awaiting hringing hnew hjoins
  | none =>
    have hsearching := h.searching hremote
    let w : Waiting := ⟨r, k.now + c.ceiling⟩
    have haccept : s.accept c k.now r = (((s.enter c k.now r).1.look c k.now w).1,
        .enter r.id s.port :: ((s.enter c k.now r).1.look c k.now w).2) := rfl
    rcases Nat.eq_zero_or_pos c.ceiling with hzero | hpos
    · let timedOut : Effect := .finish r.id .timedOut none
        (some (.remoteUnknown (UInt64.ofNat c.ceiling)))
      let s' : Session :=
        { (s.enter c k.now r).1 with waiting := (s.enter c k.now r).1.without r.id }
      have hlapsed : (s.enter c k.now r).1.look c k.now w = (s', [timedOut]) :=
        look_lapsed hremote (Nat.le_of_eq (by simp [w, hzero]))
      have hsame : s.accept c k.now r = (s', [.enter r.id s.port, timedOut]) := by
        rw [haccept, hlapsed]
      have hwaiting : s'.waiting = s.waiting := without_enter c k.now hnot
      have heases : Eases k.now s [.enter r.id s.port, timedOut] s' :=
        ⟨hwaiting ▸ List.Sublist.refl _, by simp [timedOut]⟩
      rw [hsame]
      refine ⟨last, ?_, fun _ => ?_, fun hne => absurd hremote hne⟩
      · exact h.awaiting.ease heases (hnodup (by simp [timedOut, Effect.accepted?]))
          (List.Sublist.refl _) fun _ _ hring => hring
      · exact hsearching.accept hringing hnew (fun _ _ => rfl) (Or.inl rfl)
          (hwaiting.trans (List.append_nil _).symm) rfl
          (by simp [timedOut, Effect.isLearned, Effect.accepted?, Effect.streams?])
          (by simp [timedOut, Effect.wake?])
    · have hdue : k.now < w.deadline := Nat.lt_add_of_pos_right hpos
      have hself : Function.update last r.id k.now r.id = k.now := Function.update_self ..
      have hother : ∀ id ≠ r.id, Function.update last r.id k.now id = last id :=
        fun id hne => Function.update_of_ne hne ..
      let alarm : Effect := .alarm (nextLook c k.now w.deadline) r.id
      let s' : Session := (s.enter c k.now r).1
      have hagain : s'.look c k.now w = (s', [alarm]) := look_again hremote hdue
      have hsame : s.accept c k.now r = (s', [.enter r.id s.port, alarm]) := by
        rw [haccept, hagain]
      have hes : ∀ e ∈ [alarm], e.isLearned = false ∧ e.accepted? = none ∧ e.streams? = none := by
        simp [alarm, Effect.isLearned, Effect.accepted?, Effect.streams?]
      rw [hsame]
      refine ⟨Function.update last r.id k.now, ?_, fun _ => ?_, fun hne => absurd hremote hne⟩
      · refine h.awaiting.again (w := w) hself hother (fun v hv => ?_) (by simp [hringing, w]) ?_
          hdue rfl (hnodup (by simp [alarm, Effect.accepted?])) fun v hv hne => ?_
        · rcases List.mem_append.mp hv with hv | hv
          · exact Or.inr ⟨hv, fun heq => hnot (heq ▸ mem_waitingIds hv)⟩
          · exact Or.inl (List.mem_singleton.mp hv)
        · intro hset
          obtain ⟨a, ha, heq⟩ := List.mem_map.mp hset
          exact hnew (heq ▸ hsearching.known a ha)
        · rcases Nat.eq_or_lt_of_le (hsearching.past v hv).1 with heq | hlt
          · refine Or.inr ⟨heq, .of_new (h.accepted_of_waiting (mem_waitingIds hv)) ?_⟩
            exact List.mem_cons_self ..
          · exact Or.inl hlt
      · have hwaiting : s'.waiting = s.waiting ++ [⟨r, k.now + c.ceiling⟩] := rfl
        have hline : s'.line = s.line := rfl
        exact hsearching.accept hringing hnew hother (Or.inr ⟨rfl, hpos, hself⟩) hwaiting hline hes
          (by simp [alarm, Effect.wake?])

/-! ## Datagrams -/

/-- Those who look all the time join the line one after the other. -/
theorem lookAll_joins (c : PlaySetup) (now : Nat) {ids : List Uuid} (hids : s.waitingIds = ids)
    (hnodup : ids.Nodup) (hsome : s.remote.isSome = true) :
    Joins ids [] s (lookAll c now ids s).2 (lookAll c now ids s).1 := by
  induction ids generalizing s with
  | nil => exact ⟨List.map_eq_nil_iff.mp hids, rfl, by simp [lookAll], by simp [lookAll]⟩
  | cons id ids ih =>
    obtain ⟨w, ws, hwaiting, rfl, hrest⟩ := List.map_eq_cons_iff.mp hids
    obtain ⟨hnot, hnodup'⟩ := List.nodup_cons.mp hnodup
    have hfind : s.waiting.find? (·.request.id == w.request.id) = some w := by
      rw [hwaiting, List.find?_cons_of_pos (by simp)]
    have hjoins := look_joins c now s hsome w
    have hothers : (s.look c now w).1.waitingIds = ids := by
      rw [waitingIds, hjoins.waiting, without, hwaiting, List.filter_cons_of_neg (by simp), ← hrest]
      refine congrArg _ (List.filter_eq_self.mpr fun v hv => ?_)
      have hne : v.request.id ≠ w.request.id := fun heq =>
        hnot (hrest ▸ heq ▸ List.mem_map_of_mem hv)
      simpa using hne
    simp only [lookAll, hfind]
    exact hjoins.trans (ih hothers hnodup' (hjoins.remote ▸ hsome))

/-- The address of the peer becomes known. -/
structure Learns (c : PlaySetup) (s : Session) (es : List Effect) (s' : Session) : Prop where
  remote : s'.remote ≠ none
  learned : es.filter Effect.isLearned = [.learned]
  unaccepted : ∀ e ∈ es, e.accepted? = none
  asleep : ∀ e ∈ es, e.wake? = none
  atOnce : c.interval = 0 → s'.waiting = [] ∧
    es.filterMap Effect.streams? ++ s'.line.map (·.id) = s.line.map (·.id) ++ s.waitingIds
  later : c.interval ≠ 0 → s'.waiting = s.waiting ∧
    es.filterMap Effect.streams? ++ s'.line.map (·.id) = s.line.map (·.id)

theorem receive_learns (c : PlaySetup) (now : Nat) (sender : SocketAddr) (hnone : s.remote = none)
    (hnodup : s.waitingIds.Nodup) :
    Learns c s (s.receive c now sender).2 (s.receive c now sender).1 := by
  let known : Session := { s with
    packets := s.packets + 1, lastActive := now, remote := some sender }.advanceTo .remoteKnown
  have hhear : s.hear now sender = (known, [.datagram sender, .learned]) := by
    simp [hear, hnone, known]
  by_cases hzero : c.interval = 0
  · have hreceive : s.receive c now sender = ((known.lookAll c now s.waitingIds).1,
        [.datagram sender, .learned] ++ (known.lookAll c now s.waitingIds).2) := by
      simp only [Session.receive, hhear, if_pos hzero]
      rfl
    have hids : known.waitingIds = s.waitingIds := rfl
    have hjoins := lookAll_joins c now hids hnodup rfl
    rw [hreceive]
    generalize (known.lookAll c now s.waitingIds).2 = es at *
    refine ⟨fun hunknown => ?_, ?_, fun e he => ?_, fun e he => ?_,
      fun _ => ⟨hjoins.waiting, hjoins.turns⟩, fun hne => absurd hzero hne⟩
    · cases hjoins.remote.symm.trans hunknown
    · have hrest : es.filter Effect.isLearned = [] :=
        List.filter_eq_nil_iff.mpr fun e he => by simp [(hjoins.aside e he).1]
      exact congrArg (Effect.learned :: ·) hrest
    · simp only [List.cons_append, List.nil_append, List.mem_cons] at he
      rcases he with rfl | rfl | he
      · rfl
      · rfl
      · exact hjoins.unaccepted e he
    · simp only [List.cons_append, List.nil_append, List.mem_cons] at he
      rcases he with rfl | rfl | he
      · rfl
      · rfl
      · exact (hjoins.aside e he).2.2
  · have hreceive : s.receive c now sender = (known, [.datagram sender, .learned]) := by
      simp only [Session.receive, hhear, if_neg hzero]
    rw [hreceive]
    exact ⟨Option.some_ne_none _, rfl, by simp [Effect.accepted?], by simp [Effect.wake?],
      fun h => absurd h hzero, fun _ => ⟨rfl, rfl⟩⟩

/-- Everybody who waits finds it at the next look. -/
theorem Searching.found (h : Searching c last k s) (ha : Awaiting c last k s)
    (hringing : k.ringing = []) (hl : Learns c s es s') {w : Waiting} (hw : w ∈ s.waiting) :
    ∃ a, w.deadline = a + c.ceiling ∧ a ≤ k.now ∧
      History.finding? c w.request.id (k.tell es).history =
        some ⟨if c.interval = 0 then k.now else lookAfter c last w, last w.request.id⟩ := by
  obtain ⟨a, n, hmilestones, hdeadline, hgrid⟩ := h.onGrid w hw
  have hpast := (h.past w hw).1
  have hmilestones' : History.milestones w.request.id (k.tell es).history =
      [.accepted a, .learned k.now] := by
    change History.milestones _ (k.history ++ es.map (k.now, ·)) = _
    rw [History.milestones_append, hmilestones,
      History.milestones_of_not_accepted (accepted_eq_nil hl.unaccepted k.now ▸ List.not_mem_nil),
      History.learnings_map, hl.learned]
    rfl
  refine ⟨a, hdeadline, by omega, ?_⟩
  rw [History.finding?, hmilestones']
  by_cases hzero : c.interval = 0
  · rw [PlaySetup.finding?_of_interval_zero hzero, if_pos hzero, hgrid, hzero, Nat.mul_zero,
      Nat.add_zero]
  · have hnext : k.now < nextLook c (last w.request.id) (a + c.ceiling) := by
      rcases ha.woken w hw with ⟨-, hring⟩ | ⟨hlt, -⟩
      · exact absurd (hringing ▸ hring) List.not_mem_nil
      · rwa [lookAfter, hdeadline] at hlt
    rw [PlaySetup.finding?_of_last hzero hgrid hpast hnext, if_neg hzero, lookAfter, hdeadline]

/-- Those who look all the time find it at once, in the order of their acceptance. -/
theorem Searching.inOrder (h : Searching c last k s) (ha : Awaiting c last k s)
    (hringing : k.ringing = []) (hl : Learns c s es s') (hzero : c.interval = 0) :
    s.waitingIds.Pairwise (History.FindsBefore c (k.tell es).history) := by
  refine List.pairwise_map.mpr (h.ordered.imp_of_mem fun {u w} hu hw ⟨hle, hb⟩ => ?_)
  intro f g hf hg
  obtain ⟨a, n, -, hdeadline, hgrid⟩ := h.onGrid u hu
  obtain ⟨a', n', -, hdeadline', hgrid'⟩ := h.onGrid w hw
  obtain ⟨-, -, -, hfound⟩ := h.found ha hringing hl hu
  obtain ⟨-, -, -, hfound'⟩ := h.found ha hringing hl hw
  cases hfound.symm.trans hf
  cases hfound'.symm.trans hg
  rw [hzero, Nat.mul_zero] at hgrid hgrid'
  have hearlier : last u.request.id ≤ last w.request.id := by omega
  rcases Nat.lt_or_eq_of_le hearlier with hlt | heq
  · exact Or.inl (Or.inr ⟨by simp [hzero], hlt⟩)
  · exact Or.inr ⟨Finding.ext (by simp [hzero]) heq, hb.append _⟩

theorem Searching.learn (h : Searching c last k s) (ha : Awaiting c last k s)
    (hringing : k.ringing = []) (hl : Learns c s es s') : Queueing c last (k.tell es) s' := by
  obtain ⟨hstreamed, hline⟩ := List.append_eq_nil_iff.mp h.turns
  have hlearned : ∃ t, (k.tell es).history.learnings = [t] := by
    refine ⟨k.now, ?_⟩
    change History.learnings (k.history ++ _) = _
    rw [History.learnings_append, h.unlearned, History.learnings_map, hl.learned]
    rfl
  have hturns : s'.turns (k.tell es).history =
      es.filterMap Effect.streams? ++ s'.line.map (·.id) := by
    change History.streamed (k.history ++ _) ++ _ = _
    rw [History.streamed_append, hstreamed, History.streamed_map, List.nil_append]
  by_cases hzero : c.interval = 0
  · obtain ⟨hwaiting, hjoin⟩ := hl.atOnce hzero
    rw [hjoin, hline, List.nil_append] at hturns
    refine ⟨hlearned, fun _ => hwaiting, by simp [hwaiting], by simp [hwaiting], fun id hid => ?_,
      hturns ▸ h.inOrder ha hringing hl hzero, by simp [waitingIds, hwaiting]⟩
    obtain ⟨w, hw, rfl⟩ := List.mem_map.mp (hturns ▸ hid)
    obtain ⟨-, -, -, hfound⟩ := h.found ha hringing hl hw
    exact ⟨_, hfound, Nat.le_of_eq (if_pos hzero), (h.past w hw).1⟩
  · obtain ⟨hwaiting, hjoin⟩ := hl.later hzero
    rw [hjoin, hline] at hturns
    refine ⟨hlearned, fun h => absurd h hzero, fun w hw => ?_,
      fun w hw => (h.past w (hwaiting ▸ hw)).1, by simp [hturns], by simp [hturns],
      by simp [hturns]⟩
    obtain ⟨-, -, -, hfound⟩ := h.found ha hringing hl (hwaiting ▸ hw)
    rwa [if_neg hzero] at hfound

theorem receive_proceeds (c : PlaySetup) (now : Nat) (sender : SocketAddr)
    (hsome : s.remote ≠ none) (hstill : c.interval = 0 → s.waiting = []) :
    Proceeds now s (s.receive c now sender).2 (s.receive c now sender).1 := by
  obtain ⟨target, hremote⟩ := Option.ne_none_iff_exists'.mp hsome
  have hreceive : s.receive c now sender =
      ({ s with packets := s.packets + 1, lastActive := now }, [.datagram sender]) := by
    by_cases hzero : c.interval = 0
    · simp [Session.receive, hear, hremote, hzero, hstill hzero, lookAll]
    · simp [Session.receive, hear, hremote, hzero]
  rw [hreceive]
  exact .of_aside (List.Sublist.refl _) (List.Sublist.refl _) rfl (fun hslot => hslot) (by
    simp [Effect.IsAside, Effect.isLearned, Effect.accepted?, Effect.wake?, Effect.streams?])

theorem InTurn.receive (h : InTurn c last k s) (hs : s.Sound k.now) (hringing : k.ringing = [])
    (sender : SocketAddr) :
    InTurn c last (k.tell (s.receive c k.now sender).2) (s.receive c k.now sender).1 := by
  have hkept : ∀ id ∈ (s.receive c k.now sender).1.waitingIds, id ∈ k.ringing → id ∈ k.ringing :=
    fun _ _ hring => hring
  by_cases hremote : s.remote = none
  · have hl := receive_learns c k.now sender hremote
      (List.nodup_append.mp (List.nodup_append.mp hs.nodup).1).1
    have heases : Eases k.now s (s.receive c k.now sender).2 (s.receive c k.now sender).1 := by
      refine ⟨?_, fun due id hmem => ?_⟩
      · by_cases hzero : c.interval = 0
        · exact (hl.atOnce hzero).1 ▸ List.nil_sublist _
        · exact (hl.later hzero).1 ▸ List.Sublist.refl _
      · cases hl.asleep _ hmem
    exact ⟨h.awaiting.ease heases (nodup_told h.awaiting.unrepeated hl.unaccepted)
        (List.Sublist.refl _) hkept,
      fun hnone => absurd hnone hl.remote,
      fun _ => (h.searching hremote).learn h.awaiting hringing hl⟩
  · exact h.proceed hs (receive_proceeds c k.now sender hremote (h.queueing hremote).still)
      (List.Sublist.refl _) hkept

/-! ## The clock -/

theorem Awaiting.goOn {t : Nat} (h : Awaiting c last k s) (hringing : k.ringing = [])
    (hset : ∀ a ∈ k.set, t ≤ a.1) : Awaiting c last (k.goOn t) s := by
  have hwoken : ∀ w ∈ s.waiting, (lookAfter c last w, w.request.id) ∈ k.set := fun w hw => by
    rcases h.woken w hw with ⟨-, hring⟩ | ⟨-, hmem⟩
    · exact absurd (hringing ▸ hring) List.not_mem_nil
    · exact hmem
  have hpairs : ∀ p : Nat × Uuid → Bool,
      ((k.set.filter p).map Prod.snd).Pairwise (Ranked k.history last s) := fun p =>
    h.set.sublist (List.filter_sublist.map _)
  refine ⟨h.unrepeated, fun w hw => ?_, fun w hw hring => ?_, fun w hw due hmem => ?_,
    fun a ha => ?_, hpairs _, hpairs _⟩
  · have hmem := hwoken w hw
    rcases Nat.eq_or_lt_of_le (hset _ hmem) with heq | hlt
    · exact Or.inl ⟨heq, List.mem_map.mpr ⟨_, List.mem_filter.mpr ⟨hmem, by simp [heq]⟩, rfl⟩⟩
    · exact Or.inr ⟨hlt, List.mem_filter.mpr ⟨hmem, by simpa using hlt⟩⟩
  · obtain ⟨⟨due, id⟩, ha, rfl⟩ := List.mem_map.mp hring
    obtain ⟨hmem, hdue⟩ := List.mem_filter.mp ha
    exact (beq_iff_eq.mp hdue).symm.trans (h.once w hw due hmem)
  · exact h.once w hw due (List.mem_filter.mp hmem).1
  · exact of_decide_eq_true (List.mem_filter.mp ha).2

theorem Searching.goOn {t : Nat} (h : Searching c last k s) (hfuture : ∀ a ∈ k.set, k.now < a.1)
    (hle : k.now ≤ t) : Searching c last (k.goOn t) s := by
  refine ⟨h.unlearned, h.turns, h.ordered, h.onGrid, fun w hw => ?_, fun u hu hlast w _ hring => ?_,
    fun a ha => h.known a (List.mem_filter.mp ha).1⟩
  · obtain ⟨hpast, hlapse⟩ := h.past w hw
    exact ⟨Nat.le_trans hpast hle, hlapse⟩
  · -- Who has looked at that time already did so before the clock went on, so nobody rings.
    have hlooked : t ≤ k.now := Nat.le_trans (Nat.le_of_eq hlast.symm) (h.past u hu).1
    have hsame : k.now = t := Nat.le_antisymm hle hlooked
    obtain ⟨a, ha, -⟩ := List.mem_map.mp hring
    obtain ⟨hmem, hdue⟩ := List.mem_filter.mp ha
    have hlt := hfuture a hmem
    rw [hsame, beq_iff_eq.mp hdue] at hlt
    exact absurd hlt (Nat.lt_irrefl _)

theorem Queueing.goOn {t : Nat} (h : Queueing c last k s) (hle : k.now ≤ t) :
    Queueing c last (k.goOn t) s := by
  refine ⟨h.learned, h.still, h.found, fun w hw => Nat.le_trans (h.looked w hw) hle,
    fun id hid => ?_, h.sorted, h.ahead⟩
  obtain ⟨f, hf, htime, hmissed⟩ := h.past id hid
  exact ⟨f, hf, Nat.le_trans htime hle, Nat.le_trans hmissed hle⟩

/-- The clock goes on to a time for which nobody was to be woken before. -/
theorem InTurn.goOn {t : Nat} (h : InTurn c last k s) (hringing : k.ringing = [])
    (hle : k.now ≤ t) (hset : ∀ a ∈ k.set, t ≤ a.1) : InTurn c last (k.goOn t) s :=
  ⟨h.awaiting.goOn hringing hset, fun hnone => (h.searching hnone).goOn h.awaiting.future hle,
    fun hsome => (h.queueing hsome).goOn hle⟩
end

end RtpBroker.Session
