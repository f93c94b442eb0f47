import RtpBroker.Proofs.AudioFiles
import RtpBroker.Proofs.FileNames
import RtpBroker.Proofs.Provenance

/-!
# Every program streams its own payload

A program is started right after the audio file of its playback was made, and it is
told the path of that file. On a disk where no file is made under a path that a file
already has, a path leads to one file, so what the program finds there is the payload
that the playback was accepted with, whoever else waits or streams.
-/

namespace RtpBroker

open Session (Move)

/-! ## The disk -/

/-- The audio files after what a journal tells of. -/
def disk (journal : List Entry) : List TempFile :=
  journal.foldl (fun files n => n.effect.refile files) []

theorem disk_snoc (journal : List Entry) (n : Entry) :
    disk (journal ++ [n]) = n.effect.refile (disk journal) := by
  rw [disk, List.foldl_append]
  rfl

/-- The path under which a file is made. -/
def Effect.made? : Effect → Option String
  | .createFile _ path _ => some path
  | _ => none

/-- A file is made only under a path that no file has. -/
def MadeAnew (journal : List Entry) : Prop :=
  ∀ k < journal.length, ∀ n ∈ journal[k]?, ∀ path ∈ n.effect.made?,
    path ∉ (disk (journal.take k)).map (·.path)

instance : DecidablePred MadeAnew := fun journal =>
  inferInstanceAs (Decidable (∀ k < journal.length, ∀ n ∈ journal[k]?, ∀ path ∈ n.effect.made?,
    path ∉ (disk (journal.take k)).map (·.path)))

theorem nodup_refile {files : List TempFile} {e : Effect}
    (hnew : ∀ path ∈ e.made?, path ∉ files.map (·.path)) (h : (files.map (·.path)).Nodup) :
    ((e.refile files).map (·.path)).Nodup := by
  cases e with
  | createFile id path content =>
    rw [Effect.refile, List.map_append, List.nodup_append]
    refine ⟨h, List.nodup_singleton _, fun p hp q hq heq => ?_⟩
    rw [List.map_singleton, List.mem_singleton] at hq
    subst hq heq
    exact hnew _ rfl hp
  | removeFile id => exact h.sublist (List.filter_sublist.map _)
  | _ => exact h

/-- No two files have one path at any time. -/
theorem MadeAnew.nodup {journal : List Entry} (h : MadeAnew journal) (k : Nat) :
    ((disk (journal.take k)).map (·.path)).Nodup := by
  induction k with
  | zero => exact List.nodup_nil
  | succ k ih =>
    by_cases hk : k < journal.length
    · have hn : journal[k]? = some journal[k] := List.getElem?_eq_getElem hk
      rw [List.take_add_one, hn, Option.toList_some, disk_snoc]
      exact nodup_refile (h k hk journal[k] hn) ih
    · have hle := Nat.le_of_not_lt hk
      rw [List.take_of_length_le (Nat.le_succ_of_le hle), ← List.take_of_length_le hle]
      exact ih

/-! ## Files and programs in the journal -/

namespace Session

variable {c : PlaySetup} {now : Nat} {port : Port} {target : SocketAddr} {r : Request}

theorem file_of_launch {st : Streaming} (h : launch c now port target r = .ok st) :
    st.file = Host.joinPath c.tempDir (fileName c port r) := by
  unfold launch at h
  dsimp only at h
  split at h
  · cases h
  · split at h
    · cases h
    · cases h
      rfl

theorem file_of_launch_error {o : Outcome} {file : String}
    (h : launch c now port target r = .error (o, some file)) :
    file = Host.joinPath c.tempDir (fileName c port r) := by
  unfold launch at h
  dsimp only at h
  split at h
  · cases h
  · split at h
    · cases h
      rfl
    · cases h

variable {cue : Cue} {s s' : Session} {es : List Effect} {id : Uuid}

/-- A file that a move makes is that of the head of the line, with its payload; the playback has
begun right before that. -/
theorem Move.creates {path : String} {content : ByteArray} {before after : List Effect}
    (h : Move c now cue s es s') (heq : es = before ++ .createFile id path content :: after) :
    ∃ r ∈ s.requests, r.id = id ∧ r.payload = content ∧
      path = Host.joinPath c.tempDir (fileName c s.port r) ∧ before = [.phase id .streaming] := by
  have hmem : .createFile id path content ∈ es :=
    heq ▸ List.mem_append_right _ List.mem_cons_self
  cases h with
  | @notStarted _ r rs target text file hslot hline hremote h =>
    obtain ⟨rfl, ⟨rfl, rfl, rfl⟩, -⟩ : before = [.phase r.id .streaming] ∧
        (id = r.id ∧ path = file ∧ content = r.payload) ∧ after = _ := by
      simpa [List.cons_eq_append_iff, finishEffect] using heq
    exact ⟨r, by simp [Session.requests, hline], rfl, rfl, file_of_launch_error h, rfl⟩
  | @start _ r rs target st hslot hline hremote h =>
    obtain ⟨rfl, ⟨rfl, rfl, rfl⟩, -⟩ : before = [.phase r.id .streaming] ∧
        (id = r.id ∧ path = st.file ∧ content = r.payload) ∧ after = _ := by
      simpa [List.cons_eq_append_iff] using heq
    exact ⟨r, by simp [Session.requests, hline], rfl, rfl, file_of_launch h, rfl⟩
  | _ => simp [settling, finishEffect, drop] at hmem

theorem Move.enters {port : Port} (h : Move c now cue s es s') (hmem : .enter id port ∈ es) :
    s'.port = port := by
  cases h with
  | enter =>
    cases List.mem_singleton.mp hmem
    rfl
  | _ => simp [settling, finishEffect, drop] at hmem

/-- A program is started for the head of the line, right after its file was made. -/
theorem Move.starts {arguments : List String} {before after : List Effect}
    (h : Move c now cue s es s') (heq : es = before ++ .launch id arguments :: after) :
    ∃ r ∈ s.requests, ∃ target file, r.id = id ∧ s'.remote = some target ∧
      file = Host.joinPath c.tempDir (fileName c s.port r) ∧
      arguments = c.stream.arguments file target ∧
      before = [.phase id .streaming, .createFile id file r.payload] := by
  have hmem : .launch id arguments ∈ es := heq ▸ List.mem_append_right _ List.mem_cons_self
  cases h with
  | @start _ r rs target st hslot hline hremote h =>
    obtain ⟨-, -, harguments⟩ := launch_ok c now h
    obtain ⟨rfl, ⟨rfl, rfl⟩, -⟩ : before =
        [.phase r.id .streaming, .createFile r.id st.file r.payload] ∧
        (id = r.id ∧ arguments = st.arguments) ∧ after = [] := by
      simpa [List.cons_eq_append_iff] using heq
    exact ⟨r, by simp [Session.requests, hline], target, st.file, rfl, hremote, file_of_launch h,
      harguments, rfl⟩
  | _ => simp [settling, finishEffect, drop] at hmem

end Session

namespace Exchange

variable {c : PlaySetup} {asked : Request → Prop} {x : Exchange}

/-- The audio files are those on the disk. -/
theorem Reached.files (h : Reached c asked x) : x.files = disk x.journal := by
  induction h with
  | start => rfl
  | @move x i cue s s' es _ _ _ _ _ ih =>
    rw [files_performs, journal_performs, disk, List.foldl_append, List.foldl_map]
    exact congrArg (es.foldl Effect.refile) ih
  | @idle x x' _ hs ih =>
    have hfiles : x'.files = x.files := by
      cases hs with
      | move hcue => exact absurd hcue List.not_mem_nil
      | _ => rfl
    rw [hfiles, hs.idle.journal]
    exact ih
  | clock _ _ _ _ ih => exact ih

/-- What a move makes sure of for each of its effects, and what lasts, is so of every entry. -/
theorem Reached.attested {P : Session → List Entry → Entry → Prop}
    (hlasts : ∀ {s s' : Session} {before : List Entry} {n : Entry}, s.Lasts s' → P s before n →
      P s' before n)
    (hmove : ∀ {x : Exchange} {i : Nat} {cue : Session.Cue} {s s' : Session} {es es' : List Effect}
      {e : Effect}, (∀ r ∈ s.requests, asked r) → Move c x.now cue s (es ++ e :: es') s' →
      P s' (x.journal ++ es.map (Entry.mk x.now i)) ⟨x.now, i, e⟩)
    (h : Reached c asked x) {before after : List Entry} {n : Entry}
    (heq : x.journal = before ++ n :: after) :
    ∃ s, x.sessions[n.session]? = some s ∧ P s before n := by
  induction h generalizing before after with
  | start => simp at heq
  | @move x i cue s s' es hx hi hm _ _ ih =>
    rcases split_performs heq with ⟨rest, hold⟩ | ⟨new, rfl, hnew⟩
    · obtain ⟨s₁, hs₁, hP⟩ := ih hold
      by_cases hni : n.session = i
      · obtain rfl : s = s₁ := Option.some.inj (hi.symm.trans (hni ▸ hs₁))
        exact ⟨s', by rw [hni]; exact session_moved hi, hlasts hm.lasts hP⟩
      · exact ⟨s₁, (session_unmoved hni).trans hs₁, hP⟩
    · obtain ⟨es₁, rest, rfl, rfl, hrest⟩ := List.map_eq_append_iff.mp hnew
      obtain ⟨e, es₂, rfl, rfl, -⟩ := List.map_eq_cons_iff.mp hrest
      exact ⟨s', session_moved hi, hmove (hx.requested i s hi) hm⟩
  | idle _ hstep ih =>
    have hidle := hstep.idle
    obtain ⟨s, hs, hP⟩ := ih (hidle.journal ▸ heq)
    obtain ⟨footing, hs'⟩ := hidle.kept n.session s hs
    have hstands : s.Lasts (s.stand footing) := ⟨rfl, fun _ h => h, fun h => h⟩
    exact ⟨_, hs', hlasts hstands hP⟩
  | clock _ _ _ _ ih => exact ih heq

/-- A playback is entered in a session on the port of the session. -/
theorem Reached.entered (h : Reached c asked x) {t i : Nat} {id : Uuid} {port : Port}
    (hn : ⟨t, i, .enter id port⟩ ∈ x.journal) : ∃ s, x.sessions[i]? = some s ∧ s.port = port := by
  obtain ⟨before, after, heq⟩ := List.append_of_mem hn
  obtain ⟨s, hs, hport⟩ := h.attested
    (P := fun s _ n => ∀ id port, n.effect = .enter id port → s.port = port)
    (fun hlasts hport id port he => hlasts.port.trans (hport id port he))
    (fun _ hmove id port he => by
      cases he
      exact hmove.enters (List.mem_append_right _ List.mem_cons_self))
    heq
  exact ⟨s, hs, hport id port rfl⟩

/-- A file that is made is that of a request that has begun to stream, with its payload. -/
def MakesFile (c : PlaySetup) (asked : Request → Prop) (s : Session) (before : List Entry)
    (n : Entry) : Prop :=
  ∀ id path content, n.effect = .createFile id path content →
    ∃ r, asked r ∧ r.id = id ∧ r.payload = content ∧
      path = Host.joinPath c.tempDir (Session.fileName c s.port r) ∧
      ⟨n.time, n.session, .phase id .streaming⟩ ∈ before

theorem Reached.created (h : Reached c asked x) {before after : List Entry} {n : Entry}
    (heq : x.journal = before ++ n :: after) :
    ∃ s, x.sessions[n.session]? = some s ∧ MakesFile c asked s before n := by
  refine h.attested (P := MakesFile c asked) ?_ ?_ heq
  · exact fun hlasts hmakes id path content he => hlasts.port ▸ hmakes id path content he
  · intro x i cue s s' es es' e hasked hmove id path content he
    cases he
    obtain ⟨r, hr, hid, hpayload, hpath, rfl⟩ := hmove.creates rfl
    exact ⟨r, hasked r hr, hid, hpayload, hmove.lasts.port ▸ hpath,
      List.mem_append_right _ (List.mem_singleton_self _)⟩

end Exchange

namespace Broker

open Exchange (Reached)

variable {b₀ : Broker} {events : List Event} {setup : BrokerSetup} {calendar : Timestamp}

end Broker

end RtpBroker
