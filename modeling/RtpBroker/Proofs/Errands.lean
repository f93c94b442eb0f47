import RtpBroker.Proofs.Release

/-!
# Errands

An errand releases one port after the other and waits for the session of each. However
it is carried on with, a port that it has before it stays before it until nobody is
registered there, and a session that it took off a port is waited for until it is gone.
-/

namespace RtpBroker

namespace Broker

/-- The session with number `i` is being torn down. -/
def Leaving (i : Nat) (b : Broker) : Prop := ∃ s, b.session? i = some s ∧ s.standing = .leaving

def Awaits (i : Nat) (es : List Errand) : Prop := ∃ e ∈ es, e.awaited = some i

/-- One of the errands has all registered ports before it, if there are any. -/
def Covered (es : List Errand) (b : Broker) : Prop :=
  b.exchange.ports = [] ∨ ∃ e ∈ es, b.exchange.ports ⊆ e.ports

variable {b b' b'' : Broker} {p : Port} {i j : Nat} {s t : Session} {es es' es'' : List Errand}

/-! ## Who is registered, and who is leaving -/

theorem mem_registeredPorts : p ∈ b.exchange.ports ↔
    ∃ i s, b.session? i = some s ∧ s.standing = .registered ∧ s.port = p := by
  simp only [Exchange.ports, Exchange.registered, List.mem_mergeSort, List.mem_map,
    List.mem_filter, beq_iff_eq]
  constructor
  · rintro ⟨s, ⟨hmem, hs⟩, hp⟩
    obtain ⟨i, hi⟩ := List.mem_iff_getElem?.mp hmem
    exact ⟨i, s, hi, hs, hp⟩
  · rintro ⟨i, s, hi, hs, hp⟩
    exact ⟨s, ⟨List.mem_of_getElem? hi, hs⟩, hp⟩

theorem session_of_posts (h : b'.exchange.posts = b.exchange.posts) (hi : b'.session? i = some t) :
    ∃ s, b.session? i = some s ∧ s.post = t.post := by
  have hpost : b.exchange.posts[i]? = some t.post := h ▸ Exchange.post_of_session hi
  rw [Exchange.posts, List.getElem?_map, Option.map_eq_some_iff] at hpost
  exact hpost

/-- The broker goes on, and nobody is opened; what it has in mind stays. -/
structure Thins (b b' : Broker) : Prop where
  follows : Follows b b'
  ports : b'.exchange.ports ⊆ b.exchange.ports
  errands : b'.errands = b.errands
  reapers : b'.reapers = b.reapers
  stopped : b'.stopped = b.stopped

/-- Nobody is opened, and nobody leaves its port. -/
structure Calm (b b' : Broker) : Prop extends Thins b b' where
  leaving : ∀ i, Leaving i b' → Leaving i b

theorem Thins.refl (b : Broker) : Thins b b := ⟨.refl b, List.Subset.refl _, rfl, rfl, rfl⟩

theorem Thins.trans (h : Thins b b') (h' : Thins b' b'') : Thins b b'' :=
  ⟨h.follows.trans h'.follows, List.Subset.trans h'.ports h.ports, h'.errands.trans h.errands,
    h'.reapers.trans h.reapers, h'.stopped.trans h.stopped⟩

theorem Calm.refl (b : Broker) : Calm b b := ⟨.refl b, fun _ h => h⟩

theorem Calm.trans (h : Calm b b') (h' : Calm b' b'') : Calm b b'' :=
  ⟨h.toThins.trans h'.toThins, fun i hi => h.leaving i (h'.leaving i hi)⟩

theorem calm_of_posts (h : Follows b b') (hposts : b'.exchange.posts = b.exchange.posts)
    (herrands : b'.errands = b.errands) (hreapers : b'.reapers = b.reapers)
    (hstopped : b'.stopped = b.stopped) : Calm b b' := by
  refine ⟨⟨h, fun p hp => ?_, herrands, hreapers, hstopped⟩, ?_⟩
  · obtain ⟨i, t, hi, ht, rfl⟩ := mem_registeredPorts.mp hp
    obtain ⟨s, hs, hpost⟩ := session_of_posts hposts hi
    obtain ⟨hport, hstanding⟩ := Prod.mk.inj hpost
    exact mem_registeredPorts.mpr ⟨i, s, hs, hstanding.trans ht, hport⟩
  · rintro i ⟨t, hi, ht⟩
    obtain ⟨s, hs, hpost⟩ := session_of_posts hposts hi
    exact ⟨s, hs, (Prod.mk.inj hpost).2.trans ht⟩

theorem calm_of_stirs {x : Exchange} (h : Exchange.Stirs b.setup.play b.exchange x) :
    Calm b { b with exchange := x } := by
  have hposts : x.posts = b.exchange.posts := by
    induction h with
    | refl => rfl
    | @tail y _ _ hlast ih =>
      have hledger := ledger_stir (b := { b with exchange := y }) hlast
      exact (congrArg Ledger.posts hledger).trans ih
  exact calm_of_posts (.of_ledger rfl rfl (congrArg (Ledger.mk b.pool) hposts)) hposts rfl rfl rfl

theorem endListener_calm (b : Broker) (i : Nat) : Calm b (b.endListener i) := by
  obtain ⟨_, heq⟩ := b.endListener_eq i
  rw [heq]
  exact calm_of_posts (.of_ledger rfl rfl rfl) rfl rfl rfl rfl

theorem completeSession_calm (b : Broker) (i : Nat) : Calm b (b.completeSession i) := by
  have hfollows := (completeSession_deeds b i).acts.follows
  have hquiet := endListener_calm b i
  rcases completeSession_cases b i with ⟨s, hi, -, -, -, heq⟩ | ⟨-, heq⟩
  · rw [heq] at hfollows ⊢
    -- Whoever is still there after one has gone was there before.
    have hkept : ∀ j t, ((b.endListener i).vacate i s.port).session? j = some t →
        t.standing ≠ .gone → b.session? j = some t := by
      intro j t hj ht
      by_cases hji : j = i
      · subst hji
        rw [session_vacate ((b.session_endListener j j).trans hi)] at hj
        cases hj
        exact absurd rfl ht
      · rwa [session_vacate_of_ne hji, session_endListener] at hj
    refine ⟨⟨hfollows, fun p hp => ?_, hquiet.errands, hquiet.reapers, hquiet.stopped⟩, ?_⟩
    · obtain ⟨j, t, hj, ht, rfl⟩ := mem_registeredPorts.mp hp
      exact mem_registeredPorts.mpr ⟨j, t, hkept j t hj (by simp [ht]), ht, rfl⟩
    · rintro j ⟨t, hj, ht⟩
      exact ⟨t, hkept j t hj (by simp [ht]), ht⟩
  · rw [heq]
    exact hquiet

/-! ## Releases -/

theorem numberAt?_ne_none (hp : p ∈ b.exchange.ports) : b.exchange.numberAt? p ≠ none := by
  obtain ⟨i, s, hi, hs, rfl⟩ := mem_registeredPorts.mp hp
  intro hnone
  have hnot := List.findIdx?_eq_none_iff.mp hnone s (List.mem_of_getElem? hi)
  simp [Exchange.isAt, hs] at hnot

/-- To take one session off its port leaves the others alone. -/
theorem detach_session_of_ne (hnumber : b.exchange.numberAt? p = some i) (hji : j ≠ i) :
    (b.detach p).2.session? j = b.session? j := by
  have hleave : (b.exchange.leave i).sessions[j]? = b.exchange.sessions[j]? :=
    Exchange.session_stepSession_of_ne hji
  rw [detach_eq hnumber]
  exact (Exchange.session_stepSession_of_ne hji).trans hleave

/-- What a release of the port `p` does, whose session has the number `i`. -/
structure Frees (p : Port) (i : Nat) (b b' : Broker) : Prop extends Thins b b' where
  freed : p ∉ b'.exchange.ports
  leaving : ∀ j, Leaving j b' → Leaving j b ∨ j = i

theorem detach_frees (hb : Ledger.Conserved b.allocator.range b.ledger)
    (hnumber : b.exchange.numberAt? p = some i) : Frees p i b (b.detach p).2 := by
  obtain ⟨s, hi, hs, hport⟩ := Exchange.registered_of_numberAt? hnumber
  obtain ⟨-, -, hclose⟩ := detach_some (R := Exchange.Stir) hnumber
  obtain ⟨s', hi', hages⟩ := hclose.acts.evolves.ages (leave_session hi)
  have hleft : s'.standing ≠ .registered := fun heq => by
    have hrank := hages.standing
    rw [heq] at hrank
    cases hrank
  -- Whoever is registered still is another one than who left.
  have hkept : ∀ j t, (b.detach p).2.session? j = some t → t.standing = .registered →
      j ≠ i ∧ b.session? j = some t := by
    intro j t hj ht
    by_cases hji : j = i
    · subst hji
      obtain rfl : s' = t := Option.some.inj (hi'.symm.trans hj)
      exact absurd ht hleft
    · exact ⟨hji, detach_session_of_ne hnumber hji ▸ hj⟩
  refine ⟨⟨(detach_deeds p b).acts.follows, fun q hq => ?_, ?_, ?_, ?_⟩, fun hp => ?_, ?_⟩
  · obtain ⟨j, t, hj, ht, rfl⟩ := mem_registeredPorts.mp hq
    exact mem_registeredPorts.mpr ⟨j, t, (hkept j t hj ht).2, ht, rfl⟩
  iterate 3 rw [detach_eq hnumber]
  · obtain ⟨j, t, hj, ht, hq⟩ := mem_registeredPorts.mp hp
    obtain ⟨hji, hj'⟩ := hkept j t hj ht
    exact hji (eq_of_registered hb hj' hi ht hs (hq.trans hport.symm))
  · rintro j ⟨t, hj, ht⟩
    by_cases hji : j = i
    · exact Or.inr hji
    · exact Or.inl ⟨t, detach_session_of_ne hnumber hji ▸ hj, ht⟩

theorem release_frees (hb : Ledger.Conserved b.allocator.range b.ledger)
    (hnumber : b.exchange.numberAt? p = some i) : Frees p i b (b.release p).2 := by
  have hdetach := detach_frees hb hnumber
  have hcomplete := completeSession_calm (b.detach p).2 i
  rw [release_some hnumber]
  exact ⟨hdetach.toThins.trans hcomplete.toThins, fun hp => hdetach.freed (hcomplete.ports hp),
    fun j hj => hdetach.leaving j (hcomplete.leaving j hj)⟩

theorem release_thins (hb : Ledger.Conserved b.allocator.range b.ledger) (p : Port) :
    Thins b (b.release p).2 := by
  cases hnumber : b.exchange.numberAt? p with
  | none =>
    rw [(unknown_of_numberAt? hnumber).release]
    exact .refl b
  | some i => exact (release_frees hb hnumber).toThins

theorem detach_thins (hb : Ledger.Conserved b.allocator.range b.ledger) (p : Port) :
    Thins b (b.detach p).2 := by
  cases hnumber : b.exchange.numberAt? p with
  | none =>
    rw [detach_none hnumber]
    exact .refl b
  | some i => exact (detach_frees hb hnumber).toThins

/-! ## Errands -/

/-- Errands are carried on with: what they had before them and was not released they still have,
and they wait for whoever they took off a port. -/
structure CarriesOn (es : List Errand) (b : Broker) (es' : List Errand) (b' : Broker) : Prop
    extends Thins b b' where
  covered : Covered es b → Covered es' b'
  leaving : ∀ i, Leaving i b' → (Leaving i b ∧ ¬ Awaits i es) ∨ Awaits i es'

theorem CarriesOn.trans (h : CarriesOn es b es' b') (h' : CarriesOn es' b' es'' b'') :
    CarriesOn es b es'' b'' := by
  refine ⟨h.toThins.trans h'.toThins, fun hes => h'.covered (h.covered hes), fun i hi => ?_⟩
  rcases h'.leaving i hi with ⟨hleaving, hnot⟩ | hawaits
  · exact Or.inl ((h.leaving i hleaving).resolve_right hnot)
  · exact Or.inr hawaits

theorem Covered.mono (h : Covered es b) (hports : b'.exchange.ports ⊆ b.exchange.ports)
    (hes : es ⊆ es') : Covered es' b' := by
  rcases h with hnil | ⟨e, he, hsub⟩
  · exact Or.inl (List.subset_nil.mp (hnil ▸ hports))
  · exact Or.inr ⟨e, hes he, List.Subset.trans hports hsub⟩

theorem awaits_append : Awaits i (es ++ es') ↔ Awaits i es ∨ Awaits i es' := by
  simp [Awaits, or_and_right, exists_or]

/-- Whatever else there is to do stays. -/
theorem CarriesOn.frame (h : CarriesOn es b es' b') (before after : List Errand) :
    CarriesOn (before ++ es ++ after) b (before ++ es' ++ after) b' := by
  refine ⟨h.toThins, fun hes => ?_, fun i hi => ?_⟩
  · rcases hes with hnil | ⟨e, he, hsub⟩
    · exact Or.inl (List.subset_nil.mp (hnil ▸ h.ports))
    · rcases List.mem_append.mp he with he | he
      · rcases List.mem_append.mp he with he | he
        · exact Or.inr ⟨e, by simp [he], List.Subset.trans h.ports hsub⟩
        · exact (h.covered (Or.inr ⟨e, he, hsub⟩)).mono (List.Subset.refl _) (by simp)
      · exact Or.inr ⟨e, by simp [he], List.Subset.trans h.ports hsub⟩
  · simp only [awaits_append]
    have hleaving := h.leaving i hi
    tauto

theorem proceed_carriesOn (ps : List Port) (hb : Ledger.Conserved b.allocator.range b.ledger) :
    CarriesOn [⟨ps, none⟩] b (b.proceed ps).1.toList (b.proceed ps).2 := by
  have hnobody : ∀ i ps, ¬ Awaits i [⟨ps, none⟩] := by simp [Awaits]
  induction ps generalizing b with
  | nil =>
    refine ⟨.refl b, fun hes => Or.inl ?_, fun i hi => Or.inl ⟨hi, hnobody i []⟩⟩
    rcases hes with hnil | ⟨e, he, hsub⟩
    · exact hnil
    · obtain rfl := List.mem_singleton.mp he
      exact List.subset_nil.mp hsub
  | cons p ps ih =>
    -- Whoever was registered on the port is not any more.
    have hrest : ∀ b', b'.exchange.ports ⊆ b.exchange.ports → p ∉ b'.exchange.ports →
        Covered [⟨p :: ps, none⟩] b → Covered [⟨ps, none⟩] b' := by
      rintro b' hports hp (hnil | ⟨e, he, hsub⟩)
      · exact Or.inl (List.subset_nil.mp (hnil ▸ hports))
      · obtain rfl := List.mem_singleton.mp he
        exact Or.inr ⟨_, List.mem_singleton_self _, fun q hq =>
          (List.mem_cons.mp (hsub (hports hq))).resolve_left fun heq => hp (heq ▸ hq)⟩
    unfold proceed
    cases hnumber : b.exchange.numberAt? p with
    | none =>
      have hp : p ∉ b.exchange.ports := fun hp => numberAt?_ne_none hp hnumber
      rw [(unknown_of_numberAt? hnumber).release]
      have hproceed := ih hb
      exact ⟨hproceed.toThins, fun hes =>
        hproceed.covered (hrest b (List.Subset.refl _) hp hes), fun i hi =>
        (hproceed.leaving i hi).imp_left fun h => ⟨h.1, hnobody i _⟩⟩
    | some j =>
      have hfrees := release_frees hb hnumber
      have hpair : b.release p = (.ok j, (b.release p).2) :=
        Prod.ext (by rw [release_some hnumber]) rfl
      rw [hpair]
      dsimp only
      split
      · next hgone =>
        have hproceed := ih (hfrees.follows.conserved hb)
        refine ⟨hfrees.toThins.trans hproceed.toThins, fun hes =>
          hproceed.covered (hrest _ hfrees.ports hfrees.freed hes), fun i hi => ?_⟩
        refine (hproceed.leaving i hi).imp_left fun h => ⟨?_, hnobody i _⟩
        refine (hfrees.leaving i h.1).resolve_right ?_
        rintro rfl
        obtain ⟨⟨t, ht, hstanding⟩, -⟩ := h
        cases hstanding.symm.trans ((isGone_iff ht).mp hgone)
      · refine ⟨hfrees.toThins, fun hes => ?_, fun i hi => ?_⟩
        · rcases hrest _ hfrees.ports hfrees.freed hes with hnil | ⟨e, he, hsub⟩
          · exact Or.inl hnil
          · obtain rfl := List.mem_singleton.mp he
            exact Or.inr ⟨_, List.mem_singleton_self _, hsub⟩
        · rcases hfrees.leaving i hi with hleaving | rfl
          · exact Or.inl ⟨hleaving, hnobody i _⟩
          · exact Or.inr ⟨_, List.mem_singleton_self _, rfl⟩

theorem resume_carriesOn (e : Errand) (hb : Ledger.Conserved b.allocator.range b.ledger) :
    CarriesOn [e] b (b.resume e).1.toList (b.resume e).2 := by
  obtain ⟨ps, awaited⟩ := e
  unfold resume
  cases awaited with
  | none => exact proceed_carriesOn ps hb
  | some j =>
    dsimp only
    split
    · next hgone =>
      -- Nobody waits for the session any more, which is gone.
      have hproceed := proceed_carriesOn ps hb
      refine ⟨hproceed.toThins, fun hes => hproceed.covered ?_, fun i hi => ?_⟩
      · simpa [Covered] using hes
      · refine (hproceed.leaving i hi).imp_left fun ⟨hleaving, _⟩ => ⟨hleaving, ?_⟩
        rintro ⟨e, he, hi⟩
        obtain rfl := List.mem_singleton.mp he
        cases hi
        obtain ⟨t, ht, hstanding⟩ := hleaving
        cases hstanding.symm.trans ((isGone_iff ht).mp hgone)
    · refine ⟨.refl b, fun hes => hes, fun i hi => ?_⟩
      by_cases hawaits : Awaits i [⟨ps, some j⟩]
      · exact Or.inr hawaits
      · exact Or.inl ⟨hi, hawaits⟩

theorem resumeNext_eq (kept : List Errand × Broker) (e : Errand) :
    resumeNext kept e = (kept.1 ++ (kept.2.resume e).1.toList, (kept.2.resume e).2) := by
  unfold resumeNext
  split <;> next h => simp [h]

theorem resumeNext_carriesOn (es kept : List Errand)
    (hb : Ledger.Conserved b.allocator.range b.ledger) :
    CarriesOn (kept ++ es) b (es.foldl resumeNext (kept, b)).1
      (es.foldl resumeNext (kept, b)).2 := by
  induction es generalizing kept b with
  | nil =>
    rw [List.append_nil]
    refine ⟨.refl b, fun hes => hes, fun i hi => ?_⟩
    by_cases hawaits : Awaits i kept
    · exact Or.inr hawaits
    · exact Or.inl ⟨hi, hawaits⟩
  | cons e es ih =>
    have hresume := resume_carriesOn e hb
    rw [List.foldl_cons, resumeNext_eq]
    have hframe := hresume.frame kept es
    rw [List.append_assoc, List.singleton_append] at hframe
    exact hframe.trans (ih _ (hresume.follows.conserved hb))

end Broker

end RtpBroker
