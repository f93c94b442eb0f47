import RtpBroker.Proofs.Evolution

/-!
# The history of a playback's status

Whoever asks for the status of a playback sees its record in the tracker. Between
two beats the record stays as it is or advances: from waiting to streaming, and from
either to an end, which is final. Only a sweep drops it, and only after its end.
-/

namespace RtpBroker

/-- Waiting comes first and an end last. -/
def Phase.rank : Phase → Nat
  | .waiting => 0
  | .streaming => 1
  | _ => 2

theorem Phase.rank_of_isFinished {phase : Phase} (h : phase.isFinished = true) :
    phase.rank = 2 := by
  cases phase <;> first | rfl | cases h

theorem Session.isFinished_endPhase (o : Outcome) : (endPhase o).isFinished = true := by
  unfold endPhase
  split
  · rfl
  · split <;> rfl

theorem Condition.isFinished_phase {c : PlaySetup} {p : Condition} {d : Digest}
    (h : p.digest? c = some d) : d.phase.isFinished = d.isFinished := by
  cases p with
  | unknown => cases h
  | settled v =>
    cases h
    cases v with
    | played o => exact Session.isFinished_endPhase o
    | _ => rfl
  | _ =>
    cases h
    rfl

/-- A turn advances the phase, or the phase stays. -/
theorem Turn.advances {c : PlaySetup} {now : Nat} {id : Uuid} {cue : Session.Cue}
    {p p' : Condition} {es : List Effect} (h : Turn c now id cue p es p') {d d' : Digest}
    (hd : p.digest? c = some d) (hd' : p'.digest? c = some d') :
    d.isFinished = false ∧ (d.phase = d'.phase ∨ d.phase.rank < d'.phase.rank) := by
  have hover : d'.isFinished = true → 1 < d'.phase.rank := fun hfinished => by
    rw [Phase.rank_of_isFinished ((Condition.isFinished_phase hd').trans hfinished)]
    exact Nat.one_lt_two
  cases h with
  | enter => cases hd
  | start =>
    cases hd
    cases hd'
    exact ⟨rfl, Or.inr Nat.zero_lt_one⟩
  | exitHeld =>
    cases hd
    cases hd'
    exact ⟨rfl, Or.inl rfl⟩
  | killHeld =>
    cases hd
    cases hd'
    exact ⟨rfl, Or.inl rfl⟩
  | lapse =>
    cases hd
    cases hd'
    exact ⟨rfl, Or.inr Nat.two_pos⟩
  | drop =>
    cases hd
    cases hd'
    exact ⟨rfl, Or.inr Nat.two_pos⟩
  | refuse =>
    cases hd
    cases hd'
    exact ⟨rfl, Or.inr (Nat.lt_of_succ_lt (hover rfl))⟩
  | _ =>
    cases hd
    cases hd'
    exact ⟨rfl, Or.inr (hover rfl)⟩

namespace PlaybackStatus

/-- What may become of a record: its phase advances, and after the end nothing changes. -/
structure Leads (r r' : PlaybackStatus) : Prop where
  id : r'.id = r.id
  port : r'.port = r.port
  accepted : r'.accepted = r.accepted
  phase : r.phase = r'.phase ∨ r.phase.rank < r'.phase.rank
  settled : r.phase.isFinished = true → r' = r

variable {r r' r'' : PlaybackStatus}

theorem Leads.refl (r : PlaybackStatus) : Leads r r := ⟨rfl, rfl, rfl, Or.inl rfl, fun _ => rfl⟩

theorem Leads.trans (h : Leads r r') (h' : Leads r' r'') : Leads r r'' where
  id := h'.id.trans h.id
  port := h'.port.trans h.port
  accepted := h'.accepted.trans h.accepted
  phase := by
    rcases h.phase with heq | hlt
    · rw [heq]
      exact h'.phase
    · rcases h'.phase with heq' | hlt'
      · exact Or.inr (heq' ▸ hlt)
      · exact Or.inr (Nat.lt_trans hlt hlt')
  settled hover := by
    obtain rfl := h.settled hover
    exact h'.settled hover

end PlaybackStatus

/-! ## Records -/

namespace Tracker

/-- No playback has two records. -/
def Distinct (t : Tracker) : Prop := (t.records.map (·.id)).Nodup

variable {t t' : Tracker} {id : Uuid} {r : PlaybackStatus}

theorem id_of_find? (h : t.find? id = some r) : r.id = id := by
  simpa using List.find?_some h

theorem find?_eq_some (h : t.Distinct) : t.find? id = some r ↔ r ∈ t.records ∧ r.id = id := by
  refine ⟨fun hr => ⟨List.mem_of_find?_eq_some hr, id_of_find? hr⟩, ?_⟩
  rintro ⟨hr, rfl⟩
  cases hfind : t.find? r.id with
  | none => simpa using List.find?_eq_none.mp hfind r hr
  | some r' =>
    rw [List.inj_on_of_nodup_map h (List.mem_of_find?_eq_some hfind) hr (id_of_find? hfind)]

theorem find?_eq_none : t.find? id = none ↔ ∀ r ∈ t.records, r.id ≠ id := by
  simp [find?]

theorem Distinct.update (h : t.Distinct) (id : Uuid) {f : PlaybackStatus → PlaybackStatus}
    (hf : ∀ s, (f s).id = s.id) : (t.update id f).Distinct := by
  have hids : (t.update id f).records.map (·.id) = t.records.map (·.id) := by
    simp only [Tracker.update, List.map_map]
    refine List.map_congr_left fun s _ => ?_
    by_cases hs : s.id = id <;> simp [hs, hf]
  rwa [Distinct, hids]

theorem Distinct.enter (h : t.Distinct) (id : Uuid) (port : Port) (now : Timestamp) :
    (t.enter id port now).Distinct := by
  have hold : ((t.records.filter (·.id != id)).map (·.id)).Nodup :=
    h.sublist (List.filter_sublist.map _)
  rw [Distinct, Tracker.enter, List.map_append]
  refine hold.append (List.nodup_singleton _) fun k hk hk' => ?_
  obtain ⟨s, hs, rfl⟩ := List.mem_map.mp hk
  have hne : s.id ≠ id := by simpa using (List.mem_filter.mp hs).2
  exact hne (by simpa [PlaybackStatus.fresh] using hk')

/-- A sweep leaves a record alone, or it drops it, and then it has ended. -/
theorem mem_prune {retention n : Nat} {now : Timestamp}
    (h : t.prune retention now = .ok (n, t')) :
    t'.records.Sublist t.records ∧ ∀ r ∈ t.records, r ∈ t'.records ∨ r.finished.isSome = true := by
  refine ⟨sublist_of_pruneFor h, fun r hr => ?_⟩
  rcases pruneFor_cases h with ⟨-, -, rfl⟩ | ⟨limit, -, hrecords, -⟩
  · exact Or.inl hr
  · rw [hrecords]
    cases hended : endedBefore limit r with
    | false => exact Or.inl (List.mem_filter.mpr ⟨hr, by simp [hended]⟩)
    | true =>
      unfold endedBefore at hended
      split at hended
      · next hfinished => exact Or.inr (by simp [hfinished])
      · cases hended

end Tracker

/-- What an effect makes of a record. -/
def Effect.amend (now : Timestamp) (e : Effect) (r : PlaybackStatus) : PlaybackStatus :=
  match e with
  | .phase k p => if r.id = k then { r with phase := p } else r
  | .finish k p exitCode fault =>
    if r.id = k then
      { r with phase := p, exitCode, fault := fault.map Fault.message, finished := some now }
    else r
  | _ => r

theorem Effect.amend_keeps (now : Timestamp) (e : Effect) :
    (∀ r, (e.amend now r).id = r.id ∧ (e.amend now r).port = r.port ∧
      (e.amend now r).accepted = r.accepted) ∧
    ∀ r, e.subject? ≠ some r.id → e.amend now r = r := by
  refine ⟨fun r => ?_, fun r hr => ?_⟩
  · unfold amend
    split
    · split <;> exact ⟨rfl, rfl, rfl⟩
    · split <;> exact ⟨rfl, rfl, rfl⟩
    · exact ⟨rfl, rfl, rfl⟩
  · cases e with
    | phase k p => exact if_neg fun heq => hr (congrArg some heq.symm)
    | finish k p exitCode fault => exact if_neg fun heq => hr (congrArg some heq.symm)
    | _ => rfl

namespace Exchange

variable {c : PlaySetup} {x x' : Exchange} {i : Nat} {id : Uuid} {es : List Effect}

theorem distinct_performs (h : x.tracker.Distinct) (es : List Effect) :
    (es.foldl (perform i) x).tracker.Distinct := by
  induction es generalizing x with
  | nil => exact h
  | cons e es ih =>
    refine ih ?_
    cases e with
    | enter k port => exact h.enter k port _
    | phase k phase => exact h.update k fun _ => rfl
    | finish k phase code fault => exact h.update k fun _ => rfl
    | _ => exact h

theorem find?_perform {e : Effect} (he : ∀ k port, e ≠ .enter k port) (x : Exchange) (id : Uuid) :
    (x.perform i e).tracker.find? id = (x.tracker.find? id).map (e.amend x.calendar) := by
  cases e with
  | enter k port => exact absurd rfl (he k port)
  | phase k phase =>
    exact @Tracker.find?_update k (fun s => { s with phase }) (fun _ => rfl) id x.tracker
  | finish k phase exitCode fault =>
    exact @Tracker.find?_update k (fun s => { s with
      phase, exitCode, fault := fault.map Fault.message, finished := some x.calendar })
      (fun _ => rfl) id x.tracker
  | _ => exact Option.map_id'.symm

/-- Without an acceptance whose record it is stays, and what it shows unless an effect tells about
the playback. -/
theorem find?_performs (hes : ∀ k port, .enter k port ∉ es) (x : Exchange) (id : Uuid) :
    ∃ f : PlaybackStatus → PlaybackStatus,
      (es.foldl (perform i) x).tracker.find? id = (x.tracker.find? id).map f ∧
      (∀ r, (f r).id = r.id ∧ (f r).port = r.port ∧ (f r).accepted = r.accepted) ∧
      (es.filter (Effect.isAbout id) = [] → ∀ r, r.id = id → f r = r) := by
  induction es generalizing x with
  | nil => exact ⟨fun r => r, by simp, fun r => ⟨rfl, rfl, rfl⟩, fun _ _ _ => rfl⟩
  | cons e es ih =>
    have he : ∀ k port, e ≠ .enter k port := fun k port heq => hes k port (by simp [heq])
    obtain ⟨f, hfind, hkeeps, hsame⟩ :=
      ih (fun k port hmem => hes k port (List.mem_cons_of_mem _ hmem)) (x.perform i e)
    obtain ⟨hamends, hstays⟩ := e.amend_keeps x.calendar
    refine ⟨f ∘ e.amend x.calendar, ?_, fun r => ?_, fun hnil r hr => ?_⟩
    · rw [List.foldl_cons, hfind, find?_perform he, Option.map_map]
    · obtain ⟨hid, hport, haccepted⟩ := hamends r
      obtain ⟨hid', hport', haccepted'⟩ := hkeeps (e.amend x.calendar r)
      exact ⟨hid'.trans hid, hport'.trans hport, haccepted'.trans haccepted⟩
    · obtain ⟨habout, hnil⟩ := List.filter_eq_nil_iff.mp hnil |> List.forall_mem_cons.mp
      have hnone : e.subject? ≠ some r.id := by simpa [Effect.isAbout, hr] using habout
      rw [Function.comp_apply, hstays r hnone]
      exact hsame (List.filter_eq_nil_iff.mpr hnil) r hr

/-! ## Beats -/

theorem Beat.distinct (h : Beat c x x') (hx : x.tracker.Distinct) : x'.tracker.Distinct := by
  cases h.shift with
  | still h =>
    rcases h.tracker with heq | ⟨retention, n, hprune⟩
    · exact heq ▸ hx
    · exact hx.sublist ((Tracker.mem_prune hprune).1.map _)
  | @move i cue s s' es hi hm _ =>
    exact distinct_performs (x := { x with sessions := x.sessions.set i s' }) hx es
  | clock => exact hx

theorem Evolves.distinct (h : Evolves c x x') (hx : x.tracker.Distinct) : x'.tracker.Distinct := by
  induction h with
  | refl => exact hx
  | tail _ hlast ih => exact hlast.distinct ih

/-- What the record of a playback shows is what its life says. -/
theorem Lives.recorded {j : Nat} {p : Condition} (hl : Lives c x j id p) {r : PlaybackStatus}
    (hr : x.tracker.find? id = some r) : p.digest? c = some r.digest :=
  hl.shows r (List.mem_of_find?_eq_some hr) (Tracker.id_of_find? hr)

theorem Reached.isFinished_phase {asked : Request → Prop} (hx : Reached c asked x)
    {r : PlaybackStatus} (hr : x.tracker.find? id = some r) :
    r.finished.isSome = r.phase.isFinished := by
  obtain ⟨j, p, hl⟩ := hx.lives id
  exact (Condition.isFinished_phase (hl.recorded hr)).symm

/-- What becomes in a beat of the record of a playback that is known. -/
inductive Fate (id : Uuid) (x x' : Exchange) : Prop
  | leads {r r' : PlaybackStatus} (hr : x.tracker.find? id = some r)
      (hr' : x'.tracker.find? id = some r') (h : r.Leads r')
  | absent (h : x.tracker.find? id = none) (h' : x'.tracker.find? id = none)
  | swept {r : PlaybackStatus} {retention n : Nat} (hr : x.tracker.find? id = some r)
      (hover : r.phase.isFinished = true)
      (hprune : x.tracker.prune retention x.calendar = .ok (n, x'.tracker))
      (hnone : x'.tracker.find? id = none)

theorem Fate.of_same (h : x'.tracker.find? id = x.tracker.find? id) : Fate id x x' := by
  cases hr : x.tracker.find? id with
  | none => exact .absent hr (h.trans hr)
  | some r => exact .leads hr (h.trans hr) (.refl r)

/-- A move without acceptance leaves the record of a playback alone or advances it. -/
theorem Reached.fate_of_move {asked : Request → Prop} {cue : Session.Cue} {s s' : Session}
    (hx : Reached c asked x) (hi : x.sessions[i]? = some s)
    (h : Session.Move c x.now cue s es s') (hcue : ∀ k, cue ≠ .enter k) :
    Fate id x (es.foldl (perform i) { x with sessions := x.sessions.set i s' }) := by
  let x' := es.foldl (perform i) { x with sessions := x.sessions.set i s' }
  have hes : ∀ k port, .enter k port ∉ es := fun k port hmem => hcue k (h.entered hmem)
  obtain ⟨f, hfind, hkeeps, hsame⟩ :=
    find?_performs (i := i) hes { x with sessions := x.sessions.set i s' } id
  cases hr : x.tracker.find? id with
  | none => exact .absent hr (hfind.trans (congrArg (Option.map f) hr))
  | some r =>
  have hr' : x'.tracker.find? id = some (f r) := hfind.trans (congrArg (Option.map f) hr)
  obtain ⟨hid, hport, haccepted⟩ := hkeeps r
  have hrid := Tracker.id_of_find? hr
  refine .leads hr hr' ?_
  obtain ⟨j, p, hl⟩ := hx.lives id
  have hnew : ∀ k, cue = .enter k → k ∉ s.playbacks := fun k heq => absurd heq (hcue k)
  rcases h.tells (hx.sound hi) hnew id with ⟨hnil, -⟩ | ⟨p₀, p', hturn, hp₀, hp'⟩
  · rw [hsame hnil r hrid]
    exact .refl r
  · have hl' : Lives c x' i id p' :=
      hl.turns hi (fun heq => absurd heq (hcue id)) hturn hp₀ hp'
    have hshown : p₀.shown ≠ none := fun hnone => hcue id (hturn.of_shown_none hnone).2
    obtain ⟨-, rfl⟩ := hl.of_shown hi hp₀ hshown
    have hd := hl.recorded hr
    obtain ⟨hopen, hadvances⟩ := hturn.advances hd (hl'.recorded hr')
    refine ⟨hid, hport, haccepted, hadvances, fun hover => ?_⟩
    have hfinished : r.phase.isFinished = false := (Condition.isFinished_phase hd).trans hopen
    rw [hfinished] at hover
    cases hover

theorem Arises.fate (hx : Arises c x) (hd : x.tracker.Distinct) (hknown : x.story id ≠ [])
    (h : Beat c x x') : Fate id x x' := by
  cases h.shift with
  | still h =>
    rcases h.tracker with heq | ⟨retention, n, hprune⟩
    · exact .of_same (by rw [heq])
    · obtain ⟨hsub, hover⟩ := Tracker.mem_prune hprune
      cases hr' : x'.tracker.find? id with
      | some r' =>
        have hmem := hsub.subset (List.mem_of_find?_eq_some hr')
        have hr := (Tracker.find?_eq_some hd).mpr ⟨hmem, Tracker.id_of_find? hr'⟩
        exact .leads hr hr' (.refl r')
      | none =>
        cases hr : x.tracker.find? id with
        | none => exact .absent hr hr'
        | some r =>
          have hended := (hover r (List.mem_of_find?_eq_some hr)).resolve_left fun hkept =>
            Tracker.find?_eq_none.mp hr' r hkept (Tracker.id_of_find? hr)
          exact .swept hr (hx.isFinished_phase hr ▸ hended) hprune hr'
  | @move i cue s s' es hi hmove hadmits =>
    by_cases hcue : ∃ k, cue = .enter k
    · obtain ⟨k, rfl⟩ := hcue
      have hne : k ≠ id := fun heq => hknown (heq ▸ hadmits.1)
      cases hmove with
      | enter _ r => exact .of_same (Tracker.find?_enter_of_ne s.port x.calendar x.tracker hne)
    · exact hx.fate_of_move hi hmove fun k heq => hcue ⟨k, heq⟩
  | clock => exact .of_same rfl

theorem Beat.journal (h : Beat c x x') : x.journal <+: x'.journal := by
  cases h.shift with
  | still h => exact h.journal ▸ List.prefix_refl _
  | move =>
    rw [journal_performs]
    exact List.prefix_append _ _
  | clock => exact List.prefix_refl _

theorem Beat.known (h : Beat c x x') (hx : x.story id ≠ []) : x'.story id ≠ [] := fun hnil =>
  hx (List.prefix_nil.mp (hnil ▸ h.journal.filter _))

end Exchange

namespace Broker

open Exchange (Arises)

/-- What is answered to whoever asks for the status of a playback. -/
def status? (id : Uuid) (b : Broker) : Option PlaybackStatus := b.exchange.tracker.find? id

/-- A sweep in between has dropped the record of a playback that was over. -/
def Swept (id : Uuid) (b b' : Broker) : Prop :=
  ∃ b₁ b₂ r retention n, Evolves b b₁ ∧ Beat b₁ b₂ ∧ Evolves b₂ b' ∧ b₁.status? id = some r ∧
    r.phase.isFinished = true ∧
    b₁.exchange.tracker.prune retention b₁.exchange.calendar = .ok (n, b₂.exchange.tracker) ∧
    b₂.status? id = none

variable {b b' b'' : Broker} {id : Uuid}

theorem Swept.evolves (h : Swept id b b') (h' : Evolves b' b'') : Swept id b b'' := by
  obtain ⟨b₁, b₂, r, retention, n, hb₁, hbeat, hb₂, hrest⟩ := h
  exact ⟨b₁, b₂, r, retention, n, hb₁, hbeat, hb₂.trans h', hrest⟩

/-- The records of a broker in which a playback is known. -/
structure Knows (id : Uuid) (b : Broker) : Prop where
  arises : Arises b.setup.play b.exchange
  distinct : b.exchange.tracker.Distinct
  known : b.exchange.story id ≠ []

theorem Beat.knows (h : Beat b b') (hb : Knows id b) : Knows id b' := by
  have harises := (Evolves.exchange (.single h)).arises hb.arises
  rw [← h.setup] at harises
  rcases h.exchange with heq | hbeat
  · exact ⟨harises, heq ▸ hb.distinct, heq ▸ hb.known⟩
  · exact ⟨harises, hbeat.distinct hb.distinct, hbeat.known hb.known⟩

theorem Evolves.knows (h : Evolves b b') (hb : Knows id b) : Knows id b' := by
  induction h with
  | refl => exact hb
  | tail _ hlast ih => exact hlast.knows ih

theorem Beat.fate (h : Beat b b') (hb : Knows id b) : Exchange.Fate id b.exchange b'.exchange := by
  rcases h.exchange with heq | hbeat
  · exact .of_same (by rw [heq])
  · exact hb.arises.fate hb.distinct hb.known hbeat

/-- As a broker evolves, the record of a playback advances until a sweep drops it. -/
theorem Evolves.fate (h : Evolves b b') (hb : Knows id b) {r : PlaybackStatus}
    (hr : b.status? id = some r) :
    (∃ r', b'.status? id = some r' ∧ r.Leads r') ∨ b'.status? id = none ∧ Swept id b b' := by
  induction h with
  | refl => exact Or.inl ⟨r, hr, .refl r⟩
  | @tail b₁ b₂ hrest hlast ih =>
    have hfate := hlast.fate (Evolves.knows hrest hb)
    rcases ih with ⟨r₁, hr₁, hleads⟩ | ⟨hnone, hswept⟩
    · cases hfate with
      | leads hr₁' hr₂ h =>
        obtain rfl := Option.some.inj (hr₁.symm.trans hr₁')
        exact Or.inl ⟨_, hr₂, hleads.trans h⟩
      | absent hnone => exact absurd (hr₁.symm.trans hnone) (by simp)
      | swept hr₁' hover hprune hnone =>
        exact Or.inr ⟨hnone, b₁, b₂, _, _, _, hrest, hlast, .refl, hr₁', hover, hprune, hnone⟩
    · cases hfate with
      | absent _ hnone' => exact Or.inr ⟨hnone', hswept.evolves (.single hlast)⟩
      | leads hr₁ => exact absurd (hnone.symm.trans hr₁) (by simp)
      | swept hr₁ => exact absurd (hnone.symm.trans hr₁) (by simp)

/-- Once there is no record any more, there is none again. -/
theorem Evolves.absent (h : Evolves b b') (hb : Knows id b) (hr : b.status? id = none) :
    b'.status? id = none := by
  induction h with
  | refl => exact hr
  | tail hrest hlast ih =>
    cases hlast.fate (Evolves.knows hrest hb) with
    | absent _ hnone => exact hnone
    | leads hr₁ => exact absurd (ih.symm.trans hr₁) (by simp)
    | swept _ _ _ hnone => exact hnone

theorem Reachable.distinct (h : Reachable b) : b.exchange.tracker.Distinct := by
  obtain ⟨calendar, hx⟩ := h.exchange
  exact hx.distinct List.nodup_nil

theorem status_enter {i : Nat} {s : Session} {r : Request} (hi : b.session? i = some s) :
    (b.enter i r).status? r.id = some (.fresh r.id s.port b.exchange.calendar) ∧
      (b.enter i r).exchange.story r.id ≠ [] := by
  have heq : (b.enter i r).exchange = [Effect.enter r.id s.port].foldl (Exchange.perform i) _ :=
    Exchange.stepSession_some (f := (·.enter b.setup.play b.now r)) hi
  refine ⟨Exchange.find?_enter hi, ?_⟩
  rw [heq, Exchange.story_performs]
  simp [Session.enter, Effect.isAbout, Effect.subject?]

/-- From its acceptance on the status of a playback is found by whoever asks for it, until a sweep
drops it after its end. Between two questions whose playback it is and when it was accepted stay,
the phase advances from waiting to streaming and from either to an end if it does not stay, the
time of the end is set exactly at an end, and after the end nothing changes. -/
theorem status_advances (hb : Reachable b) {port : Port} {payload : ByteArray}
    {format : Option String} (hnew : b.exchange.story id = [])
    (hplay : (b.play port payload format id).1 = .ok id) :
    ∃ b₁, Evolves b b₁ ∧ Evolves b₁ (b.play port payload format id).2 ∧
      b₁.status? id = some (.fresh id port b.exchange.calendar) ∧
      ∀ b₂, Evolves b₁ b₂ →
        (∀ r, b₂.status? id = some r → r.id = id ∧ r.port = port ∧
          r.accepted = b.exchange.calendar ∧ r.finished.isSome = r.phase.isFinished) ∧
        (b₂.status? id = none → Swept id b₁ b₂) ∧
        ∀ b₃, Evolves b₂ b₃ →
          (∀ r r', b₂.status? id = some r → b₃.status? id = some r' → r.Leads r') ∧
          (b₂.status? id = none → b₃.status? id = none) := by
  obtain ⟨-, i, s, r, hi, rfl, rfl, henter, hlooked, -⟩ := play_enters hplay hnew
  obtain ⟨hfresh, hknown⟩ := status_enter (r := r) hi
  have hevolves : Evolves b (b.enter i r) := .single henter
  have hb₁ : Knows r.id (b.enter i r) :=
    ⟨(hb.evolves hevolves).arises, (hb.evolves hevolves).distinct, hknown⟩
  refine ⟨b.enter i r, hevolves, hlooked.evolves, hfresh, fun b₂ hb₂ => ⟨?_, ?_, ?_⟩⟩
  · intro r₂ hr₂
    rcases hb₂.fate hb₁ hfresh with ⟨r', hr', hleads⟩ | ⟨hnone, -⟩
    · obtain rfl := Option.some.inj (hr'.symm.trans hr₂)
      exact ⟨hleads.id, hleads.port, hleads.accepted,
        (hb₂.knows hb₁).arises.isFinished_phase hr₂⟩
    · exact absurd (hnone.symm.trans hr₂) (by simp)
  · intro hnone
    rcases hb₂.fate hb₁ hfresh with ⟨r', hr', -⟩ | ⟨-, hswept⟩
    · exact absurd (hnone.symm.trans hr') (by simp)
    · exact hswept
  · refine fun b₃ hb₃ => ⟨fun r₂ r₃ hr₂ hr₃ => ?_, fun hnone => hb₃.absent (hb₂.knows hb₁) hnone⟩
    rcases hb₃.fate (hb₂.knows hb₁) hr₂ with ⟨r', hr', hleads⟩ | ⟨hnone, -⟩
    · exact Option.some.inj (hr'.symm.trans hr₃) ▸ hleads
    · exact absurd (hnone.symm.trans hr₃) (by simp)

/-- A playback waits in vain for the address of the peer, and a sweep drops its record. -/
def lapsing : List Event := [
  .openSession ⟨fun _ _ => 10002, fun _ _ => none⟩, .play 10002 ⟨#[1]⟩ none ⟨1⟩, .advance 5000,
  .startReaper 1000 none 0, .advance 1000]

theorem status_advances_lapsing :
    ∃ b₀ b₁, start { low := 10000, high := 10007 } ⟨0, 0⟩ = .ok b₀ ∧
      b₁.status? ⟨1⟩ = some (.fresh ⟨1⟩ 10002 ⟨0, 0⟩) ∧
      (∃ r, (b₀.run (lapsing.take 3)).status? ⟨1⟩ = some r ∧ r.phase = .timedOut ∧
        r.accepted = ⟨0, 0⟩ ∧ r.finished.isSome = true) ∧
      Swept ⟨1⟩ b₁ (b₀.run lapsing) := by
  obtain ⟨b₀, hstart, hnew, hplay, hcalendar, hlapsed, hdropped⟩ :
      ∃ b₀, start { low := 10000, high := 10007 } ⟨0, 0⟩ = .ok b₀ ∧
        (b₀.run (lapsing.take 1)).exchange.story ⟨1⟩ = [] ∧
        ((b₀.run (lapsing.take 1)).play 10002 ⟨#[1]⟩ none ⟨1⟩).1 = .ok ⟨1⟩ ∧
        (b₀.run (lapsing.take 1)).exchange.calendar = ⟨0, 0⟩ ∧
        ((b₀.run (lapsing.take 3)).status? ⟨1⟩).map (·.phase) = some .timedOut ∧
        (b₀.run lapsing).status? ⟨1⟩ = none :=
    ⟨_, rfl, rfl, rfl, rfl, by decide +kernel, by decide +kernel⟩
  have hfair := fair_of_draw lapsing 10002 hstart (by decide) (by simp [lapsing])
  have hopened := run_take_reachable hstart hfair (by decide) 1
  obtain ⟨b₁, -, hplayed, hfresh, hrest⟩ := status_advances hopened hnew hplay
  have hlater : Evolves b₁ (b₀.run (lapsing.take 3)) := hplayed.trans
    (run_continues hstart (lapsing.take 2) [.advance 5000]
      (fun e he => hfair e (List.take_subset 3 _ he)) (by decide)).1
  have hlast : Evolves (b₀.run (lapsing.take 3)) (b₀.run lapsing) :=
    (run_continues hstart (lapsing.take 3) (lapsing.drop 3) hfair (by decide)).1
  obtain ⟨hshown, -, -⟩ := hrest _ hlater
  obtain ⟨-, hswept, -⟩ := hrest _ (hlater.trans hlast)
  obtain ⟨r, hr, hphase⟩ := Option.map_eq_some_iff.mp hlapsed
  obtain ⟨-, -, haccepted, hfinished⟩ := hshown r hr
  rw [hcalendar] at hfresh haccepted
  exact ⟨b₀, b₁, hstart, hfresh, ⟨r, hr, hphase, haccepted, by rw [hfinished, hphase]; rfl⟩,
    hswept hdropped⟩

end Broker

end RtpBroker
