import RtpBroker.Proofs.SingleStream
import RtpBroker.Proofs.Standings

/-!
# Audio files

The audio file of a playback is made when it has its turn, and goes when its program
is drained or could not be started. So the files are those of the playbacks that have
the stream of their session: nobody has one before or after that, however it ends.
-/

namespace RtpBroker

def Effect.refile (files : List TempFile) : Effect → List TempFile
  | .createFile id path content => files ++ [⟨id, path, content⟩]
  | .removeFile id => files.filter (·.owner != id)
  | _ => files

/-- Whose program is over holds the slot until it is drained. -/
theorem Life.lingering_or_drained {c : PlaySetup} {i : Nat} {id : Uuid} {story : List Entry}
    {p : Condition} (h : Life c i id story p) {n : Entry} (hn : n ∈ story)
    (he : (∃ ending, n.effect = .exited id ending) ∨ n.effect = .killed id) :
    (∃ o limit, p = .lingering o limit) ∨ ∃ k ∈ story, ∃ timeUp, k.effect = .drained id timeUp := by
  induction h with
  | unknown => cases hn
  | @turn story p p' now cue es h ht ih =>
    have hdrained : ∀ timeUp, Effect.drained id timeUp ∈ es →
        ∃ k ∈ story ++ es.map (Entry.mk now i), ∃ timeUp, k.effect = .drained id timeUp :=
      fun timeUp hmem =>
        ⟨_, List.mem_append_right _ (List.mem_map_of_mem hmem), timeUp, rfl⟩
    rcases List.mem_append.mp hn with hn | hn
    · rcases ih hn with ⟨o, limit, rfl⟩ | ⟨k, hk, hdrained⟩
      · cases ht with
        | settle => exact Or.inr (hdrained _ (List.mem_cons_self ..))
      · exact Or.inr ⟨k, List.mem_append_left _ hk, hdrained⟩
    · obtain ⟨e, hmem, rfl⟩ := List.mem_map.mp hn
      cases ht with
      | exit => exact Or.inr (hdrained false (by simp))
      | kill => exact Or.inr (hdrained false (by simp))
      | settle => exact Or.inr (hdrained _ (List.mem_cons_self ..))
      | exitHeld => exact Or.inl ⟨_, _, rfl⟩
      | killHeld => exact Or.inl ⟨_, _, rfl⟩
      | _ =>
        rcases he with ⟨ending, rfl⟩ | rfl <;> simp [Session.finishEffect] at hmem

namespace Session

variable {c : PlaySetup} {now : Nat} {cue : Cue} {s s' : Session} {es : List Effect}

/-- The playback that has the stream, and its audio file. -/
def holder? (s : Session) : Option (Uuid × String) := s.slot.map fun st => (st.id, st.file)

theorem Recedes.slot (h : s.Recedes s') : s'.slot = s.slot := by
  cases h <;> rfl

/-- What a move does with audio files, and what becomes of the slot. -/
inductive Refiles (s s' : Session) (es : List Effect) : Prop
  | keeps (hsame : s'.holder? = s.holder?) (h : ∀ files, es.foldl Effect.refile files = files)
  | stores {r : Request} {st : Streaming} (hr : r ∈ s.line) (hfree : s.slot = none)
      (hslot : s'.slot = some st) (hid : st.id = r.id)
      (h : ∀ files, es.foldl Effect.refile files = files ++ [⟨st.id, st.file, r.payload⟩])
  | discards {r : Request} (hr : r ∈ s.line) (hsame : s'.holder? = s.holder?)
      (h : ∀ files, es.foldl Effect.refile files = files.filter (·.owner != r.id))
  | removes {st : Streaming} (hslot : s.slot = some st) (hfree : s'.slot = none)
      (h : ∀ files, es.foldl Effect.refile files = files.filter (·.owner != st.id))

theorem Move.refiles (h : Move c now cue s es s') : Refiles s s' es := by
  cases h with
  | hear sender =>
    refine .keeps ?_ fun files => ?_
    · rw [holder?, hear_slot, holder?]
    · unfold Session.hear
      dsimp only
      split <;> rfl
  | noFile hslot => exact .keeps (by simp [holder?, served, advanceTo, hslot]) fun _ => rfl
  | @notStarted _ r rs target text file hslot hline =>
    refine .discards (r := r) (by simp [hline]) (by simp [holder?, served, advanceTo, hslot]) ?_
    intro files
    simp [Effect.refile, finishEffect]
  | @start _ r rs target st hslot hline _ h =>
    have hid := (launch_ok c now h).1
    refine .stores (r := r) (by simp [hline]) hslot rfl hid fun files => ?_
    rw [hid]
    rfl
  | exit ending hslot => exact .removes hslot rfl fun _ => rfl
  | exitHeld ending hslot => exact .keeps (by simp [holder?, hslot]) fun _ => rfl
  | settle hslot => exact .removes hslot rfl fun _ => rfl
  | kill _ hslot => exact .removes hslot rfl fun _ => rfl
  | killHeld _ hslot => exact .keeps (by simp [holder?, hslot]) fun _ => rfl
  | _ => exact .keeps rfl fun _ => rfl

end Session

namespace Exchange

variable {c : PlaySetup} {x x' : Exchange} {i j : Nat} {id : Uuid} {s : Session}

theorem files_performs (es : List Effect) (x : Exchange) :
    (es.foldl (perform i) x).files = es.foldl Effect.refile x.files := by
  induction es generalizing x with
  | nil => rfl
  | cons e es ih =>
    rw [List.foldl_cons, ih, List.foldl_cons]
    congr 1
    cases e <;> rfl

/-- Those who have the stream of their session, with their audio files. -/
def holders (x : Exchange) : List (Uuid × String) := x.sessions.filterMap Session.holder?

def audioFiles (x : Exchange) : List (Uuid × String) := x.files.map fun f => (f.owner, f.path)

theorem mem_holders {k : Uuid × String} :
    k ∈ x.holders ↔ ∃ (i : Nat) (s : Session) (st : Streaming), x.sessions[i]? = some s ∧
      s.slot = some st ∧ (st.id, st.file) = k := by
  simp only [holders, List.mem_filterMap, Session.holder?, Option.map_eq_some_iff]
  constructor
  · rintro ⟨s, hs, st, hslot, hk⟩
    obtain ⟨i, hi⟩ := List.mem_iff_getElem?.mp hs
    exact ⟨i, s, st, hi, hslot, hk⟩
  · rintro ⟨i, s, st, hi, hslot, hk⟩
    exact ⟨s, List.mem_of_getElem? hi, st, hslot, hk⟩

theorem mem_map_holders : id ∈ x.holders.map (·.1) ↔ ∃ i, x.Holds i id := by
  simp only [List.mem_map, mem_holders]
  constructor
  · rintro ⟨k, ⟨i, s, st, hi, hslot, rfl⟩, rfl⟩
    exact ⟨i, s, st, hi, hslot, rfl⟩
  · rintro ⟨i, s, st, hi, hslot, rfl⟩
    exact ⟨(st.id, st.file), ⟨i, s, st, hi, hslot, rfl⟩, rfl⟩

theorem Reached.lives_of_holds {asked : Request → Prop} (hx : Reached c asked x)
    (h : x.Holds i id) : ∃ program : ProgramState, Lives c x i id program.condition := by
  obtain ⟨s, st, hi, hslot, rfl⟩ := h
  obtain ⟨j, p, hl⟩ := hx.lives st.id
  have hshown : some st.program.condition = st.program.condition.shown := by
    cases st.program <;> rfl
  have hcondition := (Session.condition?_of_slot (hx.sound hi).nodup hslot).trans hshown
  obtain ⟨rfl, rfl⟩ := hl.of_shown hi hcondition (by simp [← hshown])
  exact ⟨st.program, hl⟩

/-- Nobody has two streams. -/
theorem Reached.nodup_holders {asked : Request → Prop} (hx : Reached c asked x) :
    (x.holders.map (·.1)).Nodup := by
  rw [holders, List.map_filterMap, List.Nodup, List.pairwise_filterMap]
  refine List.pairwise_iff_getElem.mpr fun i j hi hj hlt id hid id' hid' heq => ?_
  subst heq
  have hholds : ∀ (k : Nat) (hk : k < x.sessions.length),
      x.sessions[k].holder?.map (·.1) = some id → x.Holds k id := fun k hk hkid => by
    obtain ⟨key, hkey, rfl⟩ := Option.map_eq_some_iff.mp hkid
    obtain ⟨st, hslot, rfl⟩ := Option.map_eq_some_iff.mp hkey
    exact ⟨_, st, List.getElem?_eq_getElem hk, hslot, rfl⟩
  obtain ⟨program, hl⟩ := hx.lives_of_holds (hholds i hi hid)
  obtain ⟨s', st', hj', hslot', hst'⟩ := hholds j hj hid'
  have hcondition := Session.condition?_of_slot (hx.sound hj').nodup hslot'
  rw [hst', hl.elsewhere j s' (Nat.ne_of_gt hlt) hj'] at hcondition
  cases hcondition

/-- Who waits in a line has no stream. -/
theorem Reached.not_holds_of_queued {asked : Request → Prop} (hx : Reached c asked x)
    (hi : x.sessions[i]? = some s) (hid : id ∈ s.queued) : id ∉ x.holders.map (·.1) := by
  rw [mem_map_holders]
  rintro ⟨j, hj⟩
  obtain ⟨program, hl⟩ := hx.lives_of_holds hj
  have hpending : s.condition? id = Condition.pending.shown := Session.condition?_of_queued hid
  obtain ⟨-, heq⟩ := hl.of_shown hi hpending (by simp [Condition.shown])
  cases program <;> cases heq

/-- The program of a playback is over in the session with number `i`, and its error output is
still read. -/
def Draining (i : Nat) (id : Uuid) (x : Exchange) : Prop :=
  (∃ n ∈ x.journal, n.session = i ∧
    ((∃ ending, n.effect = .exited id ending) ∨ n.effect = .killed id)) ∧
  ∀ n ∈ x.journal, ∀ timeUp, n.effect ≠ .drained id timeUp

theorem Lives.draining {o : Outcome} {limit : Nat} (h : Lives c x i id (.lingering o limit)) :
    x.Draining i id := by
  obtain ⟨t₁, port, t₂, arguments, t₃, e, hends, -, heq⟩ := h.life.eq_of_lingering
  have hstory : ⟨t₃, i, e⟩ ∈ x.story id := by simp [heq]
  have hend := mem_journal_of_story hstory
  refine ⟨⟨_, hend, rfl, ?_⟩, fun n hn timeUp he => ?_⟩
  · cases hends with
    | ended ending => exact Or.inl ⟨ending, rfl⟩
    | aborted => exact Or.inr rfl
  · have hstory := mem_story id hn (by rw [he]; rfl)
    rw [heq] at hstory
    simp only [Life.started, List.cons_append, List.nil_append, List.mem_cons, List.not_mem_nil,
      or_false] at hstory
    rcases hstory with rfl | rfl | rfl | rfl
    · cases he
    · cases he
    · cases he
    · cases hends <;> cases he

theorem Lives.alive (h : Lives c x i id .running) : x.Running i id := by
  obtain ⟨t₁, port, t₂, arguments, heq⟩ := h.life.eq_of_running
  have hlaunch : ⟨t₂, i, .launch id arguments⟩ ∈ x.story id := by simp [heq, Life.started]
  have hnot : ∀ n ∈ x.journal, ∀ e : Effect, e.subject? = some id → n.effect = e →
      e = .enter id port ∨ e = .phase id .streaming ∨ e = .launch id arguments := by
    rintro n hn e hsubject rfl
    have hstory := mem_story id hn hsubject
    rw [heq] at hstory
    simp only [Life.started, List.mem_cons, List.not_mem_nil, or_false] at hstory
    rcases hstory with rfl | rfl | rfl <;> simp
  refine ⟨⟨t₂, arguments, mem_journal_of_story hlaunch⟩, fun n hn => ⟨fun he => ?_, ?_⟩⟩
  · simpa using hnot n hn _ rfl he
  · exact fun ending he => by simpa using hnot n hn _ rfl he

/-- Who has the stream of a session has a program that runs there, or whose error output is still
read. -/
theorem Reached.holds_iff {asked : Request → Prop} (hx : Reached c asked x) :
    x.Holds i id ↔ x.Running i id ∨ x.Draining i id := by
  constructor
  · intro h
    obtain ⟨program, hl⟩ := hx.lives_of_holds h
    cases program with
    | running => exact Or.inl hl.alive
    | lingering o limit => exact Or.inr hl.draining
  · rintro (h | ⟨⟨n, hn, rfl, hend⟩, hnot⟩)
    · exact hx.holds_of_running h
    · obtain ⟨j, p, hl⟩ := hx.lives id
      have hstory : n ∈ x.story id :=
        mem_story id hn (by rcases hend with ⟨ending, he⟩ | he <;> rw [he] <;> rfl)
      rw [hl.life.session_eq n hstory]
      rcases hl.life.lingering_or_drained hstory hend with ⟨o, limit, rfl⟩ | ⟨k, hk, timeUp, he⟩
      · exact @Lives.holds _ _ _ _ (.lingering o limit) hl
      · exact absurd he (hnot k (mem_journal_of_story hk) timeUp)

/-! ## Every file has its holder -/

/-- The audio files are those of the playbacks that have a stream. -/
def Filed (x : Exchange) : Prop := x.audioFiles.Perm x.holders

theorem holders_move (hi : x.sessions[i]? = some s) (s' : Session) (es : List Effect) :
    ∃ before after, x.holders = before ++ s.holder?.toList ++ after ∧
      (es.foldl (perform i) { x with sessions := x.sessions.set i s' }).holders =
        before ++ s'.holder?.toList ++ after := by
  obtain ⟨hlt, rfl⟩ := List.getElem?_eq_some_iff.mp hi
  obtain ⟨before, after, hsplit, -, hset⟩ := @List.exists_of_set _ i s' x.sessions hlt
  have hkeys : ∀ l : List Session, l.filterMap Session.holder? =
      (l.map fun t => t.holder?.toList).flatten := fun l => by
    induction l with
    | nil => rfl
    | cons t l ih => cases h : t.holder? <;> simp [h, ih]
  refine ⟨before.filterMap Session.holder?, after.filterMap Session.holder?, ?_, ?_⟩
  · rw [holders]
    conv_lhs => rw [hsplit]
    simp [hkeys]
  · rw [holders, sessions_performs]
    simp only [hset]
    simp [hkeys]

theorem filter_holders_eq {l : List (Uuid × String)} (h : id ∉ l.map (·.1)) :
    l.filter (·.1 != id) = l := by
  refine List.filter_eq_self.mpr fun k hk => ?_
  simpa using fun heq => h (List.mem_map.mpr ⟨k, hk, heq⟩)

theorem audioFiles_filter (files : List TempFile) (id : Uuid) :
    (files.filter (·.owner != id)).map (fun f => (f.owner, f.path)) =
      (files.map fun f => (f.owner, f.path)).filter (·.1 != id) := by
  rw [List.filter_map]
  rfl

theorem Reached.filed_of_move {asked : Request → Prop} {cue : Session.Cue} {s' : Session}
    {es : List Effect} (hx : Reached c asked x) (hi : x.sessions[i]? = some s)
    (h : Session.Move c x.now cue s es s') (hfiled : x.Filed) :
    (es.foldl (perform i) { x with sessions := x.sessions.set i s' }).Filed := by
  obtain ⟨before, after, hold, hnew⟩ := holders_move hi s' es
  have hnodup := hx.nodup_holders
  rw [Filed, hnew, audioFiles, files_performs]
  rw [Filed, hold] at hfiled
  rw [hold] at hnodup
  cases h.refiles with
  | keeps hsame hkeeps =>
    rw [hkeeps, hsame]
    exact hfiled
  | @stores r st hr hfree hslot hid hstores =>
    simp only [Session.holder?, hfree, Option.map_none, Option.toList_none] at hfiled
    simp only [hstores, Session.holder?, hslot, Option.map_some, Option.toList_some,
      List.map_append, List.map_cons, List.map_nil]
    rw [List.append_nil] at hfiled
    rw [List.append_assoc]
    exact ((hfiled.append_right _).trans (List.perm_append_singleton _ _)).trans
      List.perm_middle.symm
  | @discards r hr hsame hdiscards =>
    have hnot := hx.not_holds_of_queued hi
      (show r.id ∈ s.queued from List.mem_append_right _ (List.mem_map_of_mem hr))
    rw [hold] at hnot
    rw [hdiscards, hsame, audioFiles_filter, ← filter_holders_eq hnot]
    exact hfiled.filter _
  | @removes st hslot hfree hremoves =>
    have hmiddle : (before ++ s.holder?.toList ++ after).Perm
        ((st.id, st.file) :: (before ++ after)) := by
      rw [Session.holder?, hslot, List.append_assoc]
      exact List.perm_middle
    have hothers : st.id ∉ (before ++ after).map (·.1) :=
      (List.nodup_cons.mp ((hmiddle.map (·.1)).nodup_iff.mp hnodup)).1
    have hkept := (hfiled.trans hmiddle).filter (·.1 != st.id)
    rw [List.filter_cons_of_neg (by simp), filter_holders_eq hothers] at hkept
    rw [hremoves, audioFiles_filter, Session.holder?, hfree, Option.map_none, Option.toList_none,
      List.append_nil]
    exact hkept

theorem Beat.filed (h : Beat c x x') (hx : Arises c x) (hfiled : x.Filed) : x'.Filed := by
  cases h.shift with
  | still hstill =>
    have hsame : x.holders.Perm x'.holders := by
      refine (List.perm_ext_iff_of_nodup (.of_map _ hx.nodup_holders)
        (.of_map _ (h.arises hx).nodup_holders)).mpr fun k => ?_
      rw [mem_holders, mem_holders]
      constructor
      · rintro ⟨i, s, st, hi, hslot, hk⟩
        obtain ⟨s', hi', hrecedes⟩ := hstill.stays i s hi
        exact ⟨i, s', st, hi', hrecedes.slot ▸ hslot, hk⟩
      · rintro ⟨i, s', st, hi', hslot, hk⟩
        rcases hstill.comes i s' hi' with ⟨s, hi, hrecedes⟩ | ⟨-, port, rfl⟩
        · exact ⟨i, s, st, hi, hrecedes.slot ▸ hslot, hk⟩
        · cases hslot
    rw [Filed, audioFiles, hstill.files]
    exact hfiled.trans hsame
  | move hi hmove _ => exact hx.filed_of_move hi hmove hfiled
  | clock => exact hfiled

theorem Evolves.filed (h : Evolves c x x') (hx : Arises c x) (hfiled : x.Filed) : x'.Filed := by
  induction h with
  | refl => exact hfiled
  | tail hrest hlast ih => exact hlast.filed (Evolves.arises hrest hx) ih

theorem Reached.ending?_of_holds {asked : Request → Prop} (hx : Reached c asked x)
    (h : x.Holds i id) : x.ending? id = none := by
  obtain ⟨program, hl⟩ := hx.lives_of_holds h
  rw [hl.ending?]
  cases program <;> rfl

/-- The playbacks that stream, as the tracker shows. -/
def streaming (x : Exchange) : List Uuid :=
  (x.tracker.records.filter (·.phase == .streaming)).map (·.id)

theorem mem_streaming :
    id ∈ x.streaming ↔ ∃ r ∈ x.tracker.records, r.phase = .streaming ∧ r.id = id := by
  simp [streaming, and_assoc]

theorem Arises.mem_streaming (hx : Arises c x) (hd : x.tracker.Distinct) (hlisted : x.Listed) :
    id ∈ x.streaming ↔ ∃ i, x.Holds i id := by
  rw [Exchange.mem_streaming]
  constructor
  · rintro ⟨r, hr, hphase, rfl⟩
    obtain ⟨j, p, hl⟩ := hx.lives r.id
    obtain ⟨program, rfl⟩ := Condition.eq_of_streaming (hl.shows r hr rfl) hphase
    exact ⟨j, hl.holds⟩
  · rintro ⟨i, hi⟩
    obtain ⟨program, hl⟩ := hx.lives_of_holds hi
    have hknown : x.story id ≠ [] := fun hnil => by
      have hlife := hl.life
      rw [hnil] at hlife
      cases program <;> cases hlife.unknown_of_nil
    cases hr : x.tracker.find? id with
    | none =>
      obtain ⟨phase, hphase⟩ := hlisted id hknown hr
      cases (hx.ending?_of_holds hi).symm.trans hphase
    | some r =>
      refine ⟨r, ((Tracker.find?_eq_some hd).mp hr).1, ?_, Tracker.id_of_find? hr⟩
      have hdigest := hl.recorded hr
      cases program <;> exact (congrArg Digest.phase (Option.some.inj hdigest)).symm

theorem nodup_streaming (hd : x.tracker.Distinct) : x.streaming.Nodup :=
  hd.sublist (List.filter_sublist.map _)

end Exchange

namespace Broker

variable {b : Broker}

theorem Reachable.filed (h : Reachable b) : b.exchange.Filed := by
  obtain ⟨calendar, hx⟩ := h.exchange
  exact hx.filed (.start calendar) .nil

theorem Reachable.holds_of_file (h : Reachable b) {f : TempFile} (hf : f ∈ b.exchange.files) :
    ∃ i s st, b.session? i = some s ∧ s.slot = some st ∧ st.id = f.owner ∧ st.file = f.path := by
  have hmem := h.filed.mem_iff.mp (List.mem_map_of_mem hf)
  obtain ⟨i, s, st, hi, hslot, hkey⟩ := Exchange.mem_holders.mp hmem
  obtain ⟨hid, hfile⟩ := Prod.mk.inj hkey
  exact ⟨i, s, st, hi, hslot, hid, hfile⟩

/-- The audio files are those of the playbacks that stream, one for each: its program runs, or is
over with its error output still read. Who waits has none, nor who has ended, however it has. Once
all playbacks have ended, or all sessions are gone, none is left. -/
theorem audio_files_stream (hb : Reachable b) :
    (b.exchange.files.map (·.owner)).Perm b.exchange.streaming ∧ b.exchange.streaming.Nodup ∧
    (∀ id, id ∈ b.exchange.streaming ↔
      ∃ i, b.exchange.Running i id ∨ b.exchange.Draining i id) ∧
    (∀ f ∈ b.exchange.files, ∃ i s st, b.session? i = some s ∧ s.slot = some st ∧
      st.id = f.owner ∧ st.file = f.path) ∧
    (∀ id r, b.status? id = some r → r.phase ≠ .streaming →
      ∀ f ∈ b.exchange.files, f.owner ≠ id) ∧
    (∀ id phase, b.exchange.ending? id = some phase → ∀ f ∈ b.exchange.files, f.owner ≠ id) ∧
    ((∀ r ∈ b.exchange.tracker.records, r.phase.isFinished = true) → b.exchange.files = []) ∧
    ((∀ i s, b.session? i = some s → s.standing = .gone) → b.exchange.files = []) := by
  have hx := hb.arises
  have hstreaming : ∀ id, id ∈ b.exchange.streaming ↔ ∃ i, b.exchange.Holds i id := fun _ =>
    hx.mem_streaming hb.distinct hb.listed
  have howners : b.exchange.files.map (·.owner) = b.exchange.audioFiles.map (·.1) := by
    simp [Exchange.audioFiles]
  have hperm : (b.exchange.files.map (·.owner)).Perm (b.exchange.holders.map (·.1)) :=
    howners ▸ hb.filed.map _
  have hone : (b.exchange.files.map (·.owner)).Perm b.exchange.streaming :=
    hperm.trans ((List.perm_ext_iff_of_nodup hx.nodup_holders
      (Exchange.nodup_streaming hb.distinct)).mpr fun id =>
        Exchange.mem_map_holders.trans (hstreaming id).symm)
  have howner : ∀ f ∈ b.exchange.files, f.owner ∈ b.exchange.streaming := fun f hf =>
    hone.mem_iff.mp (List.mem_map_of_mem hf)
  refine ⟨hone, Exchange.nodup_streaming hb.distinct, fun id => ?_, fun f => hb.holds_of_file,
    ?_, ?_, fun hover => ?_, fun hgone => ?_⟩
  · rw [hstreaming]
    exact exists_congr fun i => hx.holds_iff
  · rintro id r hr hphase f hf rfl
    obtain ⟨r', hr', hphase', hid⟩ := Exchange.mem_streaming.mp (howner f hf)
    have hsame := (Tracker.find?_eq_some hb.distinct).mpr ⟨hr', hid⟩
    obtain rfl := Option.some.inj (hr.symm.trans hsame)
    exact hphase hphase'
  · rintro id phase hphase f hf rfl
    obtain ⟨i, hi⟩ := (hstreaming _).mp (howner f hf)
    cases hphase.symm.trans (hx.ending?_of_holds hi)
  · refine List.eq_nil_iff_forall_not_mem.mpr fun f hf => ?_
    obtain ⟨r, hr, hphase, -⟩ := Exchange.mem_streaming.mp (howner f hf)
    have hfinished := hover r hr
    rw [hphase] at hfinished
    cases hfinished
  · refine List.eq_nil_iff_forall_not_mem.mpr fun f hf => ?_
    obtain ⟨i, s, st, hi, hslot, -⟩ := hb.holds_of_file hf
    have hidle := (hb.placed i s hi).idle (hgone i s hi)
    simp [Session.playbacks, hslot] at hidle

/-- Of two playbacks the first one's error output is held open until the time for it is up, so the
second one streams from then on, until the session is released. -/
def heldOpen : List Event := [
  .openSession ⟨fun _ _ => 10002, fun _ _ => none⟩, .receive 0 ⟨.v4 192 0 2 1, 5004, 0⟩,
  .play 10002 ⟨#[1]⟩ none ⟨1⟩, .play 10002 ⟨#[2]⟩ none ⟨2⟩, .endProgram 0 (.exit (some 0)) true,
  .advance 500, .release 10002]

theorem audio_files_stream_heldOpen :
    ∃ b₀, start { low := 10000, high := 10007, play := { host := { directories := ["/tmp"] } } }
        ⟨0, 0⟩ = .ok b₀ ∧
      ((b₀.run (heldOpen.take 5)).exchange.files.map (·.owner)).Perm [⟨1⟩] ∧
      ((b₀.run (heldOpen.take 6)).exchange.files.map (·.owner)).Perm [⟨2⟩] ∧
      (b₀.run heldOpen).exchange.files = [] := by
  obtain ⟨b₀, hstart, hdraining, hrunning, hgone⟩ :
      ∃ b₀, start { low := 10000, high := 10007, play := { host := { directories := ["/tmp"] } } }
          ⟨0, 0⟩ = .ok b₀ ∧
        (b₀.run (heldOpen.take 5)).exchange.streaming = [⟨1⟩] ∧
        (b₀.run (heldOpen.take 6)).exchange.streaming = [⟨2⟩] ∧
        (b₀.run heldOpen).exchange.sessions.map (·.standing) = [.gone] :=
    ⟨_, rfl, by decide +kernel, by decide +kernel, by decide +kernel⟩
  have hfair := fair_of_draw heldOpen 10002 hstart (by decide) (by simp [heldOpen])
  have hreachable := run_take_reachable hstart hfair (by decide)
  obtain ⟨hfirst, -⟩ := audio_files_stream (hreachable 5)
  obtain ⟨hsecond, -⟩ := audio_files_stream (hreachable 6)
  obtain ⟨-, -, -, -, -, -, -, hlast⟩ := audio_files_stream (hreachable 7)
  refine ⟨b₀, hstart, hdraining ▸ hfirst, hrunning ▸ hsecond, hlast fun i s hi => ?_⟩
  have hmem : s.standing ∈ (b₀.run heldOpen).exchange.sessions.map (·.standing) :=
    List.mem_map_of_mem (List.mem_of_getElem? hi)
  rw [hgone] at hmem
  exact List.mem_singleton.mp hmem

end Broker

end RtpBroker
