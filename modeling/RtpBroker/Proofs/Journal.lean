import Mathlib.Tactic.Tauto
import RtpBroker.Proofs.ExchangeRun
import RtpBroker.Proofs.Lives

/-!
# The journal

The journal of the exchange only grows, by the effects of moves. A session never
forgets the address of its peer, nor is it ever opened again, so what warranted an
effect once does so for ever.
-/

namespace RtpBroker

namespace Session

/-- What of a session lasts. -/
structure Lasts (s s' : Session) : Prop where
  port : s'.port = s.port
  remote : ∀ a, s.remote = some a → s'.remote = some a
  closed : s.isClosed = true → s'.isClosed = true

theorem Lasts.refl (s : Session) : Lasts s s := ⟨rfl, fun _ h => h, fun h => h⟩

theorem Lasts.trans {s s' s'' : Session} (h : Lasts s s') (h' : Lasts s' s'') : Lasts s s'' :=
  ⟨h'.port.trans h.port, fun a ha => h'.remote a (h.remote a ha),
    fun hc => h'.closed (h.closed hc)⟩

theorem isClosed_advanceTo {s : Session} (h : s.isClosed = true) (state : SessionState) :
    (s.advanceTo state).isClosed = true := by
  have hs : s.state = .closed := by simpa [isClosed] using h
  simp [isClosed, advanceTo, hs]

section

variable {c : PlaySetup} {now : Nat} {cue : Cue} {cues : List Cue} {s s' : Session}
  {es : List Effect}

theorem hear_lasts (sender : SocketAddr) (s : Session) : Lasts s (s.hear now sender).1 := by
  unfold hear
  dsimp only
  split
  · exact ⟨rfl, fun _ h => h, fun h => h⟩
  · next hremote =>
    exact ⟨rfl, fun a ha => by simp [hremote] at ha, fun h => isClosed_advanceTo h _⟩

def requests (s : Session) : List Request := s.waiting.map (·.request) ++ s.line

theorem Move.requests (h : Move c now cue s es s') (hcue : ∀ id, cue ≠ .enter id) :
    ∀ r ∈ s'.requests, r ∈ s.requests := by
  have hsub : ∀ id, ∀ r ∈ (s.without id).map (·.request), r ∈ s.waiting.map (·.request) :=
    fun id r hr => by
      obtain ⟨w, hw, rfl⟩ := List.mem_map.mp hr
      exact List.mem_map_of_mem (List.mem_filter.mp hw).1
  unfold Session.requests
  intro r hr
  rw [List.mem_append] at hr ⊢
  cases h with
  | hear sender => simpa using hr
  | enter => exact absurd rfl (hcue _)
  | @queue _ w hw _ =>
    rcases hr with hr | hr
    · exact Or.inl (hsub _ r hr)
    · rcases List.mem_append.mp hr with hr | hr
      · exact Or.inr hr
      · rw [List.mem_singleton.mp hr]
        exact Or.inl (List.mem_map_of_mem hw)
  | lapse => exact hr.imp_left (hsub _ r)
  | noFile _ hline => exact hr.imp_right fun h => hline ▸ List.mem_cons_of_mem _ h
  | notStarted _ hline => exact hr.imp_right fun h => hline ▸ List.mem_cons_of_mem _ h
  | start _ hline => exact hr.imp_right fun h => hline ▸ List.mem_cons_of_mem _ h
  | dropWaiting _ hw => exact hr.imp_left fun h => by simp_all
  | dropLine _ hline => exact hr.imp_right fun h => hline ▸ List.mem_cons_of_mem _ h
  | _ => exact hr

theorem requests_enter {r r' : Request} (h : r' ∈ (s.enter c now r).1.requests) :
    r' ∈ s.requests ∨ r' = r := by
  simp only [Session.requests, enter, List.map_append, List.map_cons, List.map_nil,
    List.mem_append, List.mem_singleton] at h ⊢
  tauto

theorem Move.lasts (h : Move c now cue s es s') : Lasts s s' := by
  cases h with
  | hear sender => exact hear_lasts _ s
  | mark => exact ⟨rfl, fun _ h => h, fun h => isClosed_advanceTo h _⟩
  | shut => exact ⟨rfl, fun _ h => h, fun h => isClosed_advanceTo h _⟩
  | noFile => exact ⟨rfl, fun _ h => h, fun h => isClosed_advanceTo h _⟩
  | notStarted => exact ⟨rfl, fun _ h => h, fun h => isClosed_advanceTo h _⟩
  | start => exact ⟨rfl, fun _ h => h, fun h => isClosed_advanceTo h _⟩
  | _ => exact ⟨rfl, fun _ h => h, fun h => h⟩

end

end Session

/-- What there is to an effect: where the address of the peer must be known, what was launched or
could not be, and which session is closed. `asked` holds of the requests that were made. -/
def Effect.Warranted (c : PlaySetup) (asked : Request → Prop) (s : Session) : Effect → Prop
  | .phase _ _ => s.remote ≠ none
  | .launch id arguments => ∃ now target r st, s.remote = some target ∧ asked r ∧ r.id = id ∧
      Session.launch c now s.port target r = .ok st ∧
      arguments = c.stream.arguments st.file target
  | .refused id o => ∃ now target r file?, s.remote = some target ∧ asked r ∧ r.id = id ∧
      Session.launch c now s.port target r = .error (o, file?)
  | .dropped _ | .killed _ => s.isClosed = true
  | _ => True

section

variable {c : PlaySetup} {asked : Request → Prop} {s s' : Session}

theorem Effect.Warranted.lasts {e : Effect} (h : e.Warranted c asked s) (hs : s.Lasts s') :
    e.Warranted c asked s' := by
  cases e with
  | phase id p =>
    obtain ⟨a, ha⟩ := Option.ne_none_iff_exists'.mp h
    exact Option.ne_none_iff_exists'.mpr ⟨a, hs.remote a ha⟩
  | launch id arguments =>
    obtain ⟨now, target, r, st, htarget, hr, hid, hlaunch, harguments⟩ := h
    exact ⟨now, target, r, st, hs.remote target htarget, hr, hid, hs.port ▸ hlaunch, harguments⟩
  | refused id o =>
    obtain ⟨now, target, r, file?, htarget, hr, hid, hlaunch⟩ := h
    exact ⟨now, target, r, file?, hs.remote target htarget, hr, hid, hs.port ▸ hlaunch⟩
  | dropped id => exact hs.closed h
  | killed id => exact hs.closed h
  | _ => exact h

theorem Session.Move.warranted {now : Nat} {cue : Session.Cue} {es : List Effect}
    (h : Session.Move c now cue s es s') (hasked : ∀ r ∈ s.requests, asked r) :
    ∀ e ∈ es, e.Warranted c asked s' := by
  have hlasts := h.lasts
  cases h with
  | hear sender =>
    unfold Session.hear
    dsimp only
    split <;> simp [Effect.Warranted]
  | @noFile _ r _ target text hslot hline hremote hlaunch =>
    have hr : asked r := hasked r (by simp [Session.requests, hline])
    have hrefused := Effect.Warranted.lasts (c := c) (e := .refused r.id (.noFile text))
      ⟨now, target, r, none, hremote, hr, rfl, hlaunch⟩ hlasts
    have hphase : s.remote ≠ none := by simp [hremote]
    simp only [List.mem_cons, forall_eq_or_imp]
    exact ⟨hphase, hrefused, trivial, by simp⟩
  | @notStarted _ r _ target text file hslot hline hremote hlaunch =>
    have hr : asked r := hasked r (by simp [Session.requests, hline])
    have hrefused := Effect.Warranted.lasts (c := c) (e := .refused r.id (.notStarted text))
      ⟨now, target, r, some file, hremote, hr, rfl, hlaunch⟩ hlasts
    have hphase : s.remote ≠ none := by simp [hremote]
    simp only [List.mem_cons, forall_eq_or_imp]
    exact ⟨hphase, trivial, hrefused, trivial, trivial, trivial, by simp⟩
  | @start _ r _ target st hslot hline hremote hlaunch =>
    have hr : asked r := hasked r (by simp [Session.requests, hline])
    have harguments := (Session.launch_ok c now hlaunch).2.2
    have hlaunched := Effect.Warranted.lasts (c := c) (e := .launch r.id st.arguments)
      ⟨now, target, r, st, hremote, hr, rfl, hlaunch, harguments⟩ hlasts
    have hphase : s.remote ≠ none := by simp [hremote]
    simp only [List.mem_cons, forall_eq_or_imp]
    exact ⟨hphase, trivial, hlaunched, by simp⟩
  | dropWaiting hclosed hw =>
    simpa [Effect.Warranted, Session.drop] using hlasts.closed hclosed
  | dropLine hclosed hr =>
    simpa [Effect.Warranted, Session.drop] using hlasts.closed hclosed
  | kill hclosed hslot h =>
    simpa [Effect.Warranted, Session.settling, Session.finishEffect] using hlasts.closed hclosed
  | killHeld hclosed hslot h => simpa [Effect.Warranted] using hlasts.closed hclosed
  | _ => simp [Effect.Warranted, Session.settling, Session.finishEffect]

end

/-! ## Entries -/

def Effect.sender? : Effect → Option SocketAddr
  | .datagram sender => some sender
  | _ => none

/-- The first datagram that a session hears tells it the address of its peer, and nothing else
does. -/
theorem Session.Move.remote {c : PlaySetup} {now : Nat} {cue : Session.Cue} {s s' : Session}
    {es : List Effect} (h : Session.Move c now cue s es s') :
    s'.remote = s.remote.or (es.findSome? Effect.sender?) := by
  cases h with
  | hear sender =>
    unfold Session.hear
    dsimp only
    split <;> next hremote =>
      simp [hremote, Session.advanceTo, Effect.sender?, List.findSome?]
  | _ => simp [Effect.sender?, Session.register, Session.served, Session.advanceTo, Session.shut,
      Session.settling, Session.finishEffect, Session.drop, List.findSome?]

section

variable {c : PlaySetup} {now : Nat} {cue : Session.Cue} {s s' : Session} {es : List Effect}
  {id : Uuid}

theorem Session.Move.entered (h : Session.Move c now cue s es s') {port : Port}
    (hmem : .enter id port ∈ es) : cue = .enter id := by
  cases h with
  | enter => simp_all
  | _ => simp [Session.settling, Session.finishEffect, Session.drop] at hmem

theorem Session.Move.exited (h : Session.Move c now cue s es s') {ending : Ending}
    (hmem : .exited id ending ∈ es) : ∃ held, cue = .exit ending held := by
  cases h with
  | exit ending => simp_all [Session.settling, Session.finishEffect]
  | exitHeld ending => simp_all
  | _ => simp [Session.settling, Session.finishEffect, Session.drop] at hmem

theorem Session.Move.closing (h : Session.Move c now cue s es s')
    (hmem : .dropped id ∈ es ∨ .killed id ∈ es) : cue = .close := by
  cases h with
  | dropWaiting => rfl
  | dropLine => rfl
  | kill => rfl
  | killHeld => rfl
  | _ => simp [Session.settling, Session.finishEffect] at hmem

theorem Session.Move.datagram (h : Session.Move c now cue s es s') {sender : SocketAddr}
    (hmem : .datagram sender ∈ es) : cue = .hear sender := by
  cases h with
  | hear => simp_all
  | _ => simp [Session.settling, Session.finishEffect, Session.drop] at hmem

end

namespace Exchange

/-- The effects that tell about a playback. -/
def story (id : Uuid) (x : Exchange) : List Entry := x.journal.filter (·.effect.isAbout id)

/-- Who sent the first datagram to a session. -/
def firstSender? (i : Nat) (x : Exchange) : Option SocketAddr :=
  x.journal.findSome? fun n => if n.session = i then n.effect.sender? else none

section

variable {c : PlaySetup} {cues : List Session.Cue} {i : Nat} {x x' : Exchange}

theorem mem_journal_of_story {id : Uuid} {n : Entry} (h : n ∈ x.story id) : n ∈ x.journal :=
  (List.mem_filter.mp h).1

theorem mem_story (id : Uuid) {n : Entry} (h : n ∈ x.journal)
    (hid : n.effect.subject? = some id) : n ∈ x.story id :=
  List.mem_filter.mpr ⟨h, by simp [Effect.isAbout, hid]⟩

theorem journal_performs (es : List Effect) (x : Exchange) :
    (es.foldl (perform i) x).journal = x.journal ++ es.map (Entry.mk x.now i) := by
  induction es generalizing x with
  | nil => simp
  | cons e es ih =>
    have hjournal : (x.perform i e).journal = x.journal ++ [⟨x.now, i, e⟩] := rfl
    rw [List.foldl_cons, ih, hjournal, now_perform, List.append_assoc]
    rfl

theorem story_performs (es : List Effect) (x : Exchange) (id : Uuid) :
    (es.foldl (perform i) x).story id =
      x.story id ++ (es.filter (Effect.isAbout id)).map (Entry.mk x.now i) := by
  rw [story, journal_performs, List.filter_append, List.filter_map]
  rfl

theorem firstSender?_performs (es : List Effect) (x : Exchange) (j : Nat) :
    (es.foldl (perform i) x).firstSender? j =
      (x.firstSender? j).or (if i = j then es.findSome? Effect.sender? else none) := by
  rw [firstSender?, journal_performs, List.findSome?_append, List.findSome?_map]
  by_cases hij : i = j
  · simp [hij, firstSender?, Function.comp_def]
  · have hnone : es.findSome? (fun _ => (none : Option SocketAddr)) = none :=
      List.findSome?_eq_none_iff.mpr fun _ _ => rfl
    simp [hij, firstSender?, Function.comp_def, hnone]

/-- A new entry comes from a move, and the session is what it is after that move. -/
theorem Step.new_entry (h : Step c cues x x') {n : Entry} (hn : n ∈ x'.journal) :
    n ∈ x.journal ∨ ∃ cue ∈ cues, ∃ s es s', x.sessions[n.session]? = some s ∧
      Session.Move c x.now cue s es s' ∧ n.effect ∈ es ∧ n.time = x.now ∧
      x'.sessions[n.session]? = some s' := by
  cases h with
  | @move j cue s s' es hcue hi hmove =>
    rw [journal_performs, List.mem_append] at hn
    rcases hn with hn | hn
    · exact Or.inl hn
    · obtain ⟨e, he, rfl⟩ := List.mem_map.mp hn
      exact Or.inr ⟨cue, hcue, s, es, s', hi, hmove, he, rfl, session_moved hi⟩
  | _ => exact Or.inl hn

theorem Step.journal_mono (h : Step c cues x x') {n : Entry} (hn : n ∈ x.journal) :
    n ∈ x'.journal := by
  cases h with
  | move hcue hi hmove =>
    rw [journal_performs]
    exact List.mem_append_left _ hn
  | _ => exact hn

/-! ## Courses -/

theorem Course.journal_mono (h : Course c cues x x') {n : Entry} (hn : n ∈ x.journal) :
    n ∈ x'.journal := by
  induction h with
  | refl => exact hn
  | step _ hs ih => exact hs.journal_mono ih
  | clock _ _ _ ih => exact ih

theorem Course.lasts (h : Course c cues x x') {s : Session} (hi : x.sessions[i]? = some s) :
    ∃ s', x'.sessions[i]? = some s' ∧ s.Lasts s' :=
  h.relates Session.Lasts.refl Session.Lasts.trans (fun _ _ _ _ _ _ hm => hm.lasts)
    (fun _ _ => ⟨rfl, fun _ h => h, fun h => h⟩) hi

theorem Course.new_entry (h : Course c cues x x') {n : Entry} (hn : n ∈ x'.journal) :
    n ∈ x.journal ∨ ∃ cue ∈ cues, ∃ z s es s', Course c cues x z ∧
      z.sessions[n.session]? = some s ∧ Session.Move c z.now cue s es s' ∧ n.effect ∈ es := by
  induction h with
  | refl => exact Or.inl hn
  | step h hs ih =>
    rcases hs.new_entry hn with hn | ⟨cue, hcue, s, es, s', hi, hmove, hmem, -⟩
    · exact ih hn
    · exact Or.inr ⟨cue, hcue, _, s, es, s', h, hi, hmove, hmem⟩
  | clock _ _ _ ih => exact ih hn

/-- Who hears nothing does not get to know the address. -/
theorem Course.unheard (h : Course c cues x x') (hcues : ∀ sender, .hear sender ∉ cues)
    (hx : x.firstSender? i = none) : x'.firstSender? i = none := by
  rw [firstSender?, List.findSome?_eq_none_iff] at hx ⊢
  intro n hn
  rcases h.new_entry hn with hn | ⟨cue, hcue, z, s, es, s', -, -, hmove, hmem⟩
  · exact hx n hn
  · split
    · cases heffect : n.effect with
      | datagram sender =>
        rw [heffect] at hmem
        exact absurd (hmove.datagram hmem ▸ hcue) (hcues sender)
      | _ => rfl
    · rfl

end

end Exchange

end RtpBroker
