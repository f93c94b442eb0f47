import RtpBroker.Proofs.Causes

/-!
# Decisions

The causes for the end of a playback, told by the events of a run and by the
exchange in which each of them happens. After the run the journal has the marks of
the causes that were given in it, and no others.
-/

namespace RtpBroker.Exchange

open Session (Cue Move Moves)

variable {c : PlaySetup} {asked : Request → Prop} {cues : List Cue} {x x' : Exchange} {i : Nat}
  {id : Uuid} {e : Event}

/-- An event of a run, and the exchange in which it happens. -/
def Happens (c : PlaySetup) (calendar : Timestamp) (events : List Event) (x : Exchange)
    (e : Event) : Prop :=
  ∃ before after, events = before ++ e :: after ∧ x = run c before { calendar }

/-- The session that an event closes. -/
def Event.closes? (x : Exchange) : Event → Option Nat
  | .close i => some i
  | .remove port _ => x.numberAt? port
  | _ => none

/-- The time is up of a playback that the session with number `i` has accepted. -/
def Due (c : PlaySetup) (i : Nat) (id : Uuid) (x : Exchange) : Prop :=
  ∃ t port, ⟨t, i, .enter id port⟩ ∈ x.journal ∧ t + c.ceiling ≤ x.now

/-- The time of a playback runs out whose session is open and has not heard of its peer. -/
def Lapses (c : PlaySetup) (id : Uuid) (x : Exchange) (e : Event) : Prop :=
  ∃ (i : Nat) (s : Session), x.sessions[i]? = some s ∧ s.remote = none ∧ s.isClosed = false ∧
    ¬ x.Due c i id ∧ (x.apply c e).Due c i id

/-- The session is closed in which a playback waits for the address of the peer or for the stream,
or in which its program runs. -/
def Closes (id : Uuid) (x : Exchange) (e : Event) : Prop :=
  ∃ (i : Nat) (s : Session), e.closes? x = some i ∧ x.sessions[i]? = some s ∧
    (id ∈ s.queued ∨ ∃ st, s.slot = some st ∧ st.id = id ∧ st.program = .running)

def Ends (id : Uuid) (ending : Ending) (x : Exchange) (e : Event) : Prop :=
  ∃ (i : Nat) (s : Session) (st : Streaming) (held : Bool), e = .endProgram i ending held ∧
    x.sessions[i]? = some s ∧ s.slot = some st ∧ st.id = id ∧ st.program = .running

/-- A playback had its turn at the stream, and the machine does not launch what was asked for. -/
def Refuses (c : PlaySetup) (events : List Event) (id : Uuid) (o : Outcome) (x : Exchange) : Prop :=
  ∃ (t i : Nat) (s : Session) (r : Request) (target : SocketAddr) (file? : Option String),
    ⟨t, i, .phase id .streaming⟩ ∈ x.journal ∧ x.sessions[i]? = some s ∧
      s.remote = some target ∧ Asked events r ∧ r.id = id ∧
      Session.launch c t s.port target r = .error (o, file?)

/-- The causes that were given in a run for the end of a playback. -/
def Decided (c : PlaySetup) (calendar : Timestamp) (events : List Event) (id : Uuid) : Cause → Prop
  | .lapse => ∃ x e, Happens c calendar events x e ∧ Lapses c id x e
  | .closure => ∃ x e, Happens c calendar events x e ∧ Closes id x e
  | .refusal o => Refuses c events id o (run c events { calendar })
  | .ending ending => ∃ x e, Happens c calendar events x e ∧ Ends id ending x e

def Marked (id : Uuid) (cause : Cause) (x : Exchange) : Prop :=
  ∃ n ∈ x.journal, cause.Marks id n.effect

theorem marked_iff_story {cause : Cause} :
    x.Marked id cause ↔ ∃ n ∈ x.story id, cause.Marks id n.effect :=
  ⟨fun ⟨n, hn, hmark⟩ => ⟨n, mem_story _ hn hmark.subject?, hmark⟩,
    fun ⟨n, hn, hmark⟩ => ⟨n, mem_journal_of_story hn, hmark⟩⟩

/-! ## The marks of an event -/

theorem marked_stepSession {cause : Cause} {f : Session → Session × List Effect} :
    (x.stepSession i f).Marked id cause ↔ x.Marked id cause ∨
      ∃ s, x.sessions[i]? = some s ∧ ∃ e ∈ (f s).2, cause.Marks id e := by
  cases hi : x.sessions[i]? with
  | none =>
    rw [stepSession_none hi]
    simp
  | some s =>
    rw [stepSession_some hi]
    constructor
    · rintro ⟨n, hn, hmark⟩
      rcases mem_journal_performs hn with hn | ⟨e, he, rfl⟩
      · exact Or.inl ⟨n, hn, hmark⟩
      · exact Or.inr ⟨s, rfl, e, he, hmark⟩
    · rintro (⟨n, hn, hmark⟩ | ⟨s', hs', e, he, hmark⟩)
      · exact ⟨n, mem_journal_performs_of_journal hn, hmark⟩
      · cases hs'
        exact ⟨_, mem_journal_performs_of_mem he, hmark⟩

theorem Course.marked {cause : Cause} (h : Course c cues x x')
    (hcues : ∀ cue ∈ cues, ∀ now s es s', Move c now cue s es s' → ∀ e ∈ es, ¬ cause.Marks id e) :
    x'.Marked id cause ↔ x.Marked id cause := by
  constructor
  · rintro ⟨n, hn, hmark⟩
    rcases h.new_entry hn with hn | ⟨cue, hcue, z, s, es, s', -, -, hmove, hmem⟩
    · exact ⟨n, hn, hmark⟩
    · exact absurd hmark (hcues cue hcue _ _ _ _ hmove _ hmem)
  · exact fun ⟨n, hn, hmark⟩ => ⟨n, h.journal_mono hn, hmark⟩

theorem marked_ending (x : Exchange) (e : Event) (ending : Ending) :
    (x.apply c e).Marked id (.ending ending) ↔
      x.Marked id (.ending ending) ∨ Ends id ending x e := by
  cases e with
  | endProgram i ending' held =>
    have hstep :
        (x.stepSession i (·.endProgram c x.now ending' held)).Marked id (.ending ending) ↔ _ :=
      marked_stepSession
    refine hstep.trans (or_congr_right ?_)
    simp only [Cause.Marks, exists_eq_right, Session.endProgram_exited]
    constructor
    · rintro ⟨s, hs, rfl, st, hst⟩
      exact ⟨i, s, st, held, rfl, hs, hst⟩
    · rintro ⟨i', s, st, held', heq, hs, hst⟩
      cases heq
      exact ⟨s, hs, rfl, st, hst⟩
  | _ =>
    refine ((apply_course c x _).marked fun cue hcue now s es s' hmove e he hmark => ?_).trans
      (or_iff_left ?_).symm
    · obtain rfl := hmark
      obtain ⟨held, rfl⟩ := hmove.exited he
      simp [Event.cues] at hcue
    · rintro ⟨_, _, _, _, heq, -⟩
      cases heq

theorem apply_closes {e : Event} {s : Session} (he : e.closes? x = some i)
    (hi : x.sessions[i]? = some s) (n : Entry) :
    n ∈ (x.apply c e).journal ↔
      n ∈ x.journal ∨ ∃ effect ∈ (s.close x.now).2, n = ⟨x.now, i, effect⟩ := by
  have hclose : ∀ (y : Exchange) standing, y.sessions[i]? = some { s with standing } →
      y.journal = x.journal → y.now = x.now →
      (n ∈ (y.close i).journal ↔
        n ∈ x.journal ∨ ∃ effect ∈ (s.close x.now).2, n = ⟨x.now, i, effect⟩) := by
    intro y standing hy hjournal hnow
    have hsame : (Session.close y.now { s with standing }).2 = (s.close x.now).2 := by
      rw [hnow, Session.close_standing]
    unfold Exchange.close
    rw [stepSession_some hy]
    constructor
    · intro hn
      rw [← hjournal, ← hsame, ← hnow]
      exact mem_journal_performs hn
    · rintro (hn | ⟨effect, heffect, rfl⟩)
      · exact mem_journal_performs_of_journal (hjournal ▸ hn)
      · rw [← hsame] at heffect
        exact hnow ▸ mem_journal_performs_of_mem heffect
  cases e with
  | close j =>
    cases he
    exact hclose x s.standing hi rfl rfl
  | remove port standing =>
    have hnumber : x.numberAt? port = some i := he
    simp only [apply, remove, hnumber]
    refine hclose _ standing ?_ ?_ ?_
    · exact session_stepSession hi
    · rw [stepSession_some hi]
      rfl
    · exact now_stepSession ..
  | _ => cases he

variable (c x) in
theorem closes_cases {e : Event} (h : .close ∈ e.cues) :
    (∃ i s, e.closes? x = some i ∧ x.sessions[i]? = some s) ∨ x.apply c e = x := by
  cases e with
  | close i =>
    cases hi : x.sessions[i]? with
    | none => exact Or.inr (stepSession_none hi)
    | some s => exact Or.inl ⟨i, s, rfl, hi⟩
  | remove port standing =>
    cases hnumber : x.numberAt? port with
    | none =>
      refine Or.inr ?_
      simp only [apply, remove, hnumber]
    | some i =>
      obtain ⟨hlt, -⟩ := List.findIdx?_eq_some_iff_getElem.mp hnumber
      exact Or.inl ⟨i, _, hnumber, List.getElem?_eq_getElem hlt⟩
  | _ => simp [Event.cues] at h

theorem marked_closure (x : Exchange) (e : Event) :
    (x.apply c e).Marked id .closure ↔ x.Marked id .closure ∨ Closes id x e := by
  constructor
  · rintro ⟨n, hn, hmark⟩
    rcases (apply_course c x e).new_entry hn with h | ⟨cue, hcue, z, s, es, s', -, -, hmove, hmem⟩
    · exact Or.inl ⟨n, h, hmark⟩
    · rw [hmove.closing (hmark.imp (fun heq => heq ▸ hmem) fun heq => heq ▸ hmem)] at hcue
      rcases closes_cases c x hcue with ⟨i, s, hcloses, hi⟩ | hsame
      · rcases (apply_closes hcloses hi n).mp hn with h | ⟨effect, heffect, rfl⟩
        · exact Or.inl ⟨n, h, hmark⟩
        · exact Or.inr ⟨i, s, hcloses, hi, (Session.close_marks s).mp ⟨effect, heffect, hmark⟩⟩
      · exact Or.inl ⟨n, hsame ▸ hn, hmark⟩
  · rintro (⟨n, hn, hmark⟩ | ⟨i, s, hcloses, hi, hid⟩)
    · exact ⟨n, (apply_course c x e).journal_mono hn, hmark⟩
    · obtain ⟨effect, heffect, hmark⟩ := (Session.close_marks s).mpr hid
      exact ⟨_, (apply_closes hcloses hi _).mpr (Or.inr ⟨effect, heffect, rfl⟩), hmark⟩

theorem Rests.not_due (h : Rests c asked x) {s : Session} (hi : x.sessions[i]? = some s)
    (hremote : s.remote = none) (hqueued : id ∈ s.queued) : ¬ x.Due c i id := by
  rintro ⟨t, port, hentry, htime⟩
  have hline : s.line = [] := by
    by_contra hline
    exact (h.reached.sound hi).ready (Or.inl hline) hremote
  rw [Session.queued, hline, List.map_nil, List.append_nil] at hqueued
  obtain ⟨w, hw, rfl⟩ := List.mem_map.mp hqueued
  obtain ⟨t', port', hentry', hdeadline⟩ := h.reached.dated i s hi w hw
  obtain ⟨j, p, hl⟩ := h.reached.lives w.request.id
  obtain ⟨ht, -⟩ := hl.life.enter_unique (mem_story _ hentry rfl) (mem_story _ hentry' rfl)
  rcases (h.punctual i s hi).waits w hw with ⟨-, _, ha, -⟩ | ⟨hlt, -⟩
  · cases ha
  · omega

theorem Rests.pending (hx : Rests c asked x) (hx' : Rests c asked (x.apply c e)) {t t' : Nat}
    {port : Port} {code : Option Int} {fault : Option Fault}
    (hentry : ⟨t, i, .enter id port⟩ ∈ x.journal)
    (hfinish : ⟨t', i, .finish id .timedOut code fault⟩ ∈ (x.apply c e).journal)
    (hold : ¬ x.Marked id .lapse) : ∃ s, x.sessions[i]? = some s ∧ id ∈ s.queued := by
  obtain ⟨j, p, hl⟩ := hx.reached.lives id
  obtain ⟨j', p', hl'⟩ := hx'.reached.lives id
  have hlife' := hl'.life
  rw [hlife'.settled_of_timedOut (mem_story _ hfinish rfl) rfl] at hlife'
  obtain ⟨t₁, port', t₂, hstory⟩ := hlife'.eq_of_lapsed
  rcases hl.life.stages with hp | hp | ⟨n, hn, hstage⟩
  · exact absurd hp (hl.life.ne_unknown (mem_story id hentry rfl))
  · obtain rfl : i = j := hl.life.session_eq _ (mem_story _ hentry rfl)
    exact (hp ▸ hl).queued
  · have hn' : n ∈ (x.apply c e).story id :=
      mem_story _ ((apply_course c x e).journal_mono (mem_journal_of_story hn)) (by
        rcases hstage with h | h | ⟨code, fault, h⟩ <;> rw [h] <;> rfl)
    rw [hstory] at hn'
    simp only [List.mem_cons, List.not_mem_nil, or_false] at hn'
    rcases hstage with h | h | ⟨code, fault, h⟩
    · rcases hn' with rfl | rfl <;> cases h
    · rcases hn' with rfl | rfl <;> cases h
    · exact absurd ⟨n, mem_journal_of_story hn, code, fault, h⟩ hold

theorem enter_cases {t : Nat} {port : Port} (hnew : ⟨t, i, .enter id port⟩ ∉ x.journal)
    (hentry : ⟨t, i, .enter id port⟩ ∈ (x.apply c e).journal) :
    .enter id ∈ e.cues ∧ ∃ s, x.sessions[i]? = some s ∧ s.isClosed = false := by
  rcases (apply_course c x e).new_entry hentry with
    h | ⟨cue, hcue, z, s, es, s', -, -, hmove, hmem⟩
  · exact absurd h hnew
  · rw [hmove.entered hmem] at hcue
    refine ⟨hcue, ?_⟩
    cases e with
    | play port' payload format id' =>
      change _ ∈ (x.play c port' payload format id').2.journal at hentry
      rcases play_cases c x port' payload format id' with heq | ⟨j, s, f, hj, hopen, -, heq⟩
      · rw [heq] at hentry
        exact absurd hentry hnew
      · rw [heq, stepSession_some hj] at hentry
        rcases mem_journal_performs hentry with h | ⟨e, -, h⟩
        · exact absurd h hnew
        · cases h
          exact ⟨s, hj, hopen⟩
    | _ => simp [Event.cues] at hcue

theorem Rests.lapses (hx : Rests c asked x) (hx' : Rests c asked (x.apply c e))
    (h : (x.apply c e).Marked id .lapse) (hold : ¬ x.Marked id .lapse) : Lapses c id x e := by
  obtain ⟨⟨t', i, _⟩, hn, code, fault, rfl⟩ := h
  obtain ⟨t, port, hentry, htime⟩ := hx'.reached.timedOut _ _ _ _ _ hn
  have hdue : (x.apply c e).Due c i id :=
    ⟨t, port, hentry, htime ▸ hx'.reached.past _ hn⟩
  have hremote : ∀ s, x.sessions[i]? = some s → s.remote = none := by
    intro s hi
    rcases (apply_course c x e).new_entry hn with
      h | ⟨cue, hcue, z, sz, es, s', hxz, hz, hmove, hmem⟩
    · exact absurd ⟨_, h, code, fault, rfl⟩ hold
    · by_contra hne
      obtain ⟨a, ha⟩ := Option.ne_none_iff_exists'.mp hne
      obtain ⟨sz', hz', hlasts⟩ := hxz.lasts hi
      obtain rfl : sz = sz' := Option.some.inj (hz.symm.trans hz')
      have hknown := hlasts.remote a ha
      rw [(hmove.timedOut hmem).1] at hknown
      cases hknown
  -- The playback may have been accepted before the event, or in the event if there is no time to
  -- wait at all.
  by_cases hentry' : ⟨t, i, .enter id port⟩ ∈ x.journal
  · obtain ⟨s, hi, hqueued⟩ := hx.pending hx' hentry' hn hold
    refine ⟨i, s, hi, hremote s hi, ?_, hx.not_due hi (hremote s hi) hqueued, hdue⟩
    by_contra hclosed
    obtain ⟨hwaiting, hline, -⟩ := hx.quiet i s hi (by simpa using hclosed)
    simp [Session.queued, hwaiting, hline] at hqueued
  · obtain ⟨-, s, hi, hopen⟩ := enter_cases hentry' hentry
    refine ⟨i, s, hi, hremote s hi, hopen, ?_, hdue⟩
    rintro ⟨t₁, port₁, hentry₁, -⟩
    obtain ⟨j, p, hl⟩ := hx'.reached.lives id
    have hentry₂ := (apply_course c x e).journal_mono hentry₁
    obtain ⟨rfl, rfl⟩ := hl.life.enter_unique (mem_story id hentry rfl) (mem_story id hentry₂ rfl)
    exact hentry' hentry₁

theorem cues_of_due (hnot : ¬ x.Due c i id) (hdue : (x.apply c e).Due c i id) :
    ∀ cue ∈ e.cues, cue = .look ∨ cue = .settle true ∨ cue = .enter id := by
  obtain ⟨t, port, hentry, htime⟩ := hdue
  by_cases hold : ⟨t, i, .enter id port⟩ ∈ x.journal
  · by_cases hadvance : ∃ ms, e = .advance ms
    · obtain ⟨ms, rfl⟩ := hadvance
      simp [Event.cues]
    · rw [(apply_steps c x e fun ms heq => hadvance ⟨ms, heq⟩).now] at htime
      exact absurd ⟨t, port, hold, htime⟩ hnot
  · have hcue := (enter_cases hold hentry).1
    cases e <;> simp_all [Event.cues]

theorem Rests.marked_of_lapses (hx : Rests c asked x) (hx' : Rests c asked (x.apply c e))
    (h : Lapses c id x e) : (x.apply c e).Marked id .lapse := by
  obtain ⟨i, s, hi, hremote, hopen, hnot, hdue⟩ := h
  have hcues := cues_of_due hnot hdue
  have hcourse := apply_course c x e
  obtain ⟨s', hi', -⟩ := hcourse.lasts hi
  have hremote' : s'.remote = none := by
    rw [hx'.reached.learned i s' hi']
    refine hcourse.unheard (fun sender hmem => ?_) (hx.reached.learned i s hi ▸ hremote)
    rcases hcues _ hmem with h | h | h <;> cases h
  have hdue' := hdue
  obtain ⟨t, port, hentry, -⟩ := hdue'
  obtain ⟨j, p, hl⟩ := hx'.reached.lives id
  have hsession := hl.life.session_eq
  obtain rfl : i = j := hsession _ (mem_story _ hentry rfl)
  -- It cannot still wait. Had it got its turn, the address would be known, and had it been given
  -- up, the session would be closed.
  rcases hl.life.stages with hp | hp | ⟨n, hn, hstage⟩
  · exact absurd hp (hl.life.ne_unknown (mem_story id hentry rfl))
  · obtain ⟨s'', hi'', hqueued⟩ := (hp ▸ hl).queued
    obtain rfl : s' = s'' := Option.some.inj (hi'.symm.trans hi'')
    exact absurd hdue (hx'.not_due hi' hremote' hqueued)
  · have hn' := mem_journal_of_story hn
    obtain ⟨s'', hi'', hwarranted⟩ := hx'.reached.warranted n hn'
    rw [hsession n hn] at hi''
    obtain rfl : s' = s'' := Option.some.inj (hi'.symm.trans hi'')
    rcases hstage with hstage | hstage | ⟨code, fault, hstage⟩
    · rw [hstage] at hwarranted
      exact absurd hremote' hwarranted
    · rcases hcourse.new_entry hn' with hold | ⟨cue, hcue, z, sz, es, sz', -, -, hmove, hmem⟩
      · obtain ⟨s₀, hi₀, hclosed⟩ := hx.reached.warranted n hold
        rw [hsession n hn, hi] at hi₀
        cases hi₀
        rw [hstage] at hclosed
        exact Bool.noConfusion (hopen.symm.trans hclosed)
      · rw [hstage] at hmem
        rw [hmove.closing (Or.inl hmem)] at hcue
        rcases hcues _ hcue with h | h | h <;> cases h
    · exact ⟨n, hn', code, fault, hstage⟩

theorem marked_lapse (hx : Rests c asked x) (hx' : Rests c asked (x.apply c e)) :
    (x.apply c e).Marked id .lapse ↔ x.Marked id .lapse ∨ Lapses c id x e := by
  constructor
  · intro h
    by_cases hold : x.Marked id .lapse
    · exact Or.inl hold
    · exact Or.inr (hx.lapses hx' h hold)
  · rintro (⟨n, hn, hmark⟩ | h)
    · exact ⟨n, (apply_course c x e).journal_mono hn, hmark⟩
    · exact hx.marked_of_lapses hx' h

/-! ## The marks of a run -/

section

variable {calendar : Timestamp} {events : List Event}

theorem happens_snoc {x : Exchange} {e e' : Event} :
    Happens c calendar (events ++ [e]) x e' ↔
      Happens c calendar events x e' ∨ x = run c events { calendar } ∧ e' = e := by
  constructor
  · rintro ⟨before, after, heq, rfl⟩
    rcases List.eq_nil_or_concat after with rfl | ⟨after, last, rfl⟩
    · obtain ⟨rfl, hlast⟩ := List.append_inj' heq rfl
      cases hlast
      exact Or.inr ⟨rfl, rfl⟩
    · rw [List.concat_eq_append, ← List.cons_append, ← List.append_assoc] at heq
      exact Or.inl ⟨before, after, (List.append_inj' heq rfl).1, rfl⟩
  · rintro (⟨before, after, rfl, rfl⟩ | ⟨rfl, rfl⟩)
    · exact ⟨before, after ++ [e], by simp, rfl⟩
    · exact ⟨events, [], rfl, rfl⟩

/-- What comes about only by an event of some kind has come about if there was such an event. -/
theorem run_iff_exists {P : Exchange → Event → Prop} {Q : Exchange → Prop}
    (hstart : ¬ Q { calendar })
    (hstep : ∀ before e after, events = before ++ e :: after →
      (Q ((run c before { calendar }).apply c e) ↔
        Q (run c before { calendar }) ∨ P (run c before { calendar }) e)) :
    Q (run c events { calendar }) ↔ ∃ x e, Happens c calendar events x e ∧ P x e := by
  induction events using List.reverseRecOn with
  | nil =>
    refine iff_of_false hstart ?_
    rintro ⟨x, e, ⟨before, after, heq, -⟩, -⟩
    simp at heq
  | append_singleton events e ih =>
    have hbefore := ih fun before e' after heq => hstep before e' (after ++ [e]) (by simp [heq])
    rw [run_snoc, hstep events e [] rfl, hbefore]
    simp only [happens_snoc, or_and_right, exists_or]
    refine or_congr_right ⟨fun h => ⟨_, _, ⟨rfl, rfl⟩, h⟩, ?_⟩
    rintro ⟨_, _, ⟨rfl, rfl⟩, h⟩
    exact h

theorem rests_split (hfresh : Fresh events) {before after : List Event} {e : Event}
    (heq : events = before ++ e :: after) :
    Rests c (Asked events) (run c before { calendar }) ∧
      Rests c (Asked events) ((run c before { calendar }).apply c e) := by
  refine ⟨(run_rests calendar hfresh heq).1, ?_⟩
  rw [← run_snoc]
  exact (run_rests calendar hfresh (by rw [heq, List.append_assoc]; rfl)).1

end

end RtpBroker.Exchange
