import RtpBroker.Proofs.Joining
import RtpBroker.Proofs.Runs

/-!
# Whoever waits is left alone

Whatever else happens in its session, a playback that waits for the address of the
peer goes on waiting, and no alarm is set for it. Only its own look and the end of the
session concern it.
-/

namespace RtpBroker.Session

/-- A playback waits in a session that is open, and is nowhere else in it. -/
structure Bides (w : Waiting) (s : Session) : Prop where
  waits : w ∈ s.waiting
  once : s.playbacks.count w.request.id ≤ 1
  isOpen : s.isClosed = false

/-- The playback goes on waiting, and is woken no sooner for what happened. An address that was
known stays known. -/
structure Undisturbed (w : Waiting) (s : Session) (es : List Effect) (s' : Session) : Prop where
  bides : s'.Bides w
  unalarmed : ∀ due, .alarm due w.request.id ∉ es
  remote : ∀ target, s.remote = some target → s'.remote = some target

variable {c : PlaySetup} {now : Nat} {cue : Cue} {cues : List Cue} {s s' s'' : Session}
  {es es' : List Effect} {w v : Waiting} {id : Uuid}

theorem Undisturbed.trans (h : Undisturbed w s es s') (h' : Undisturbed w s' es' s'') :
    Undisturbed w s (es ++ es') s'' :=
  ⟨h'.bides, fun due hmem => (List.mem_append.mp hmem).elim (h.unalarmed due) (h'.unalarmed due),
    fun target hremote => h'.remote target (h.remote target hremote)⟩

/-! ## Moves -/

theorem isOpen_of_join (state : SessionState) (h : s'.state = s.state.join state)
    (hstate : state ≠ .closed) (hs : s.isClosed = false) : s'.isClosed = false := by
  refine Bool.eq_false_iff.mpr fun hclosed => Bool.eq_false_iff.mp hs ?_
  have hadvanced : (s.advanceTo state).isClosed = true := by
    rw [isClosed, h] at hclosed
    exact hclosed
  exact isClosed_of_advanceTo hadvanced hstate

theorem Move.isOpen (h : Move c now cue s es s') (hclose : cue ≠ .close)
    (hs : s.isClosed = false) : s'.isClosed = false := by
  cases h with
  | hear sender =>
    unfold Session.hear
    dsimp only
    split
    · exact hs
    · exact isOpen_of_join _ rfl (by decide) hs
  | mark _ hstate => exact isOpen_of_join _ rfl hstate hs
  | noFile | notStarted | start => exact isOpen_of_join .streaming rfl (by decide) hs
  | shut | dropWaiting | dropLine | kill | killHeld => exact absurd rfl hclose
  | _ => exact hs

/-- An alarm is set for a playback of the session. -/
theorem Move.alarmed (h : Move c now cue s es s') {due : Nat} (hmem : .alarm due id ∈ es) :
    id ∈ s.playbacks := by
  cases h with
  | again hw =>
    cases List.mem_singleton.mp hmem
    exact List.mem_append_left _ (mem_waiting_queued hw)
  | exitHeld _ hslot | killHeld _ hslot =>
    simp only [List.mem_cons, reduceCtorEq, Effect.alarm.injEq, List.not_mem_nil, or_false,
      false_or] at hmem
    simp [playbacks, hslot, hmem.2]
  | _ => simp [settling, finishEffect, drop] at hmem

theorem Moves.isOpen (h : Moves c now cues s es s') (hclose : .close ∉ cues)
    (hs : s.isClosed = false) : s'.isClosed = false :=
  h.preserves (P := fun t => t.isClosed = false) (fun _ hcue _ _ _ hm ht =>
    hm.isOpen (fun heq => hclose (heq ▸ hcue)) ht) hs

theorem Moves.lasts (h : Moves c now cues s es s') : Lasts s s' := by
  induction h with
  | refl => exact ⟨rfl, fun _ h => h, fun h => h⟩
  | head _ hm _ ih =>
    have hfirst := hm.lasts
    exact ⟨ih.port.trans hfirst.port, fun a ha => ih.remote a (hfirst.remote a ha),
      fun hclosed => ih.closed (hfirst.closed hclosed)⟩

theorem Moves.count_le (h : Moves c now cues s es s') (id : Uuid) (henter : .enter id ∉ cues) :
    s'.playbacks.count id ≤ s.playbacks.count id :=
  h.preserves (P := fun t => t.playbacks.count id ≤ s.playbacks.count id)
    (fun _ hcue _ _ _ hm ht =>
      Nat.le_trans (hm.count_le id fun heq => henter (heq ▸ hcue)) ht) (Nat.le_refl _)

/-- Moves that neither close the session nor accept the playback once more do not disturb it if it
waits after them and no alarm was set for it. -/
theorem Moves.undisturbed (h : Moves c now cues s es s') (hs : s.Bides w) (hclose : .close ∉ cues)
    (henter : .enter w.request.id ∉ cues) (hwaits : w ∈ s'.waiting)
    (hes : ∀ due, .alarm due w.request.id ∉ es) : Undisturbed w s es s' where
  bides := ⟨hwaits, Nat.le_trans (h.count_le _ henter) hs.once, h.isOpen hclose hs.isOpen⟩
  unalarmed := hes
  remote := h.lasts.remote

/-! ## Operations -/

theorem unalarmed_of_aside (hes : ∀ e ∈ es, e.IsAside) (due : Nat) : .alarm due id ∉ es := by
  intro hmem
  cases (hes _ hmem).2.2

theorem Bides.not_in_slot (hs : s.Bides w) {st : Streaming} (hslot : s.slot = some st) :
    st.id ≠ w.request.id := by
  intro heq
  have hwaits := List.count_pos_iff.mpr (mem_waiting_queued hs.waits)
  have honce := hs.once
  rw [playbacks, hslot, List.count_append, Option.map_some, Option.toList_some, heq,
    List.count_singleton_self] at honce
  omega

theorem Bides.eq_of_mem (hs : s.Bides w) (hv : v ∈ s.waiting) (hid : v.request.id = w.request.id) :
    v = w := by
  have hcount : (s.waiting.filter (·.request.id == w.request.id)).length ≤ 1 := by
    have hwaiting : s.waitingIds.count w.request.id ≤ s.playbacks.count w.request.id :=
      ((List.sublist_append_left _ _).trans (List.sublist_append_left _ _)).count_le _
    rw [waitingIds, List.count, List.countP_map, List.countP_eq_length_filter] at hwaiting
    exact Nat.le_trans hwaiting hs.once
  have hv' : v ∈ s.waiting.filter (·.request.id == w.request.id) :=
    List.mem_filter.mpr ⟨hv, by simpa using hid⟩
  have hw' : w ∈ s.waiting.filter (·.request.id == w.request.id) :=
    List.mem_filter.mpr ⟨hs.waits, by simp⟩
  rcases hones : s.waiting.filter (·.request.id == w.request.id) with _ | ⟨u, _ | ⟨u', us⟩⟩
  · exact absurd (hones ▸ hv') List.not_mem_nil
  · rw [hones] at hv' hw'
    rw [List.mem_singleton.mp hv', List.mem_singleton.mp hw']
  · rw [hones] at hcount
    exact absurd hcount (by simp)

/-- Another one looks. -/
theorem look_undisturbed (hs : s.Bides w) (hv : v ∈ s.waiting)
    (hne : v.request.id ≠ w.request.id) :
    Undisturbed w s (s.look c now v).2 (s.look c now v).1 := by
  have hkept : w ∈ s.without v.request.id :=
    List.mem_filter.mpr ⟨hs.waits, by simpa using Ne.symm hne⟩
  refine (look_moves c now hv).undisturbed hs (by simp) (by simp) ?_ ?_
  · by_cases hremote : s.remote = none
    · by_cases hdue : v.deadline ≤ now
      · exact look_lapsed hremote hdue ▸ hkept
      · exact look_again hremote (Nat.lt_of_not_le hdue) ▸ hs.waits
    · exact (look_joins c now s (Option.isSome_iff_ne_none.mpr hremote) v).waiting ▸ hkept
  · by_cases hremote : s.remote = none
    · by_cases hdue : v.deadline ≤ now
      · simp [look_lapsed hremote hdue]
      · simp [look_again hremote (Nat.lt_of_not_le hdue), Ne.symm hne]
    · exact unalarmed_of_aside
        (look_joins c now s (Option.isSome_iff_ne_none.mpr hremote) v).aside

theorem receive_undisturbed (hs : s.Bides w) (hinterval : 0 < c.interval) (sender : SocketAddr) :
    Undisturbed w s (s.receive c now sender).2 (s.receive c now sender).1 := by
  have hreceive : s.receive c now sender = s.hear now sender := by
    simp only [receive, if_neg (Nat.ne_of_gt hinterval)]
  refine (receive_moves c now sender s).undisturbed hs (by simp) (by simp) ?_ ?_
  · rw [hreceive, hear_waiting]
    exact hs.waits
  · rw [hreceive]
    unfold hear
    dsimp only
    split <;> simp

/-- Another one is accepted. -/
theorem accept_undisturbed (hs : s.Bides w) {r : Request} (hne : r.id ≠ w.request.id) :
    Undisturbed w s (s.accept c now r).2 (s.accept c now r).1 := by
  have hmove : Move c now (.enter r.id) s (s.enter c now r).2 (s.enter c now r).1 := .enter s r
  have hentered : Undisturbed w s (s.enter c now r).2 (s.enter c now r).1 :=
    hmove.moves.undisturbed hs (by simp) (by simp [hne.symm]) (List.mem_append_left _ hs.waits)
      (by simp [enter])
  exact hentered.trans (look_undisturbed hentered.bides
    (List.mem_append_right _ (List.mem_singleton_self _)) hne)

theorem endProgram_undisturbed (hs : s.Bides w) (ending : Ending) (held : Bool) :
    Undisturbed w s (s.endProgram c now ending held).2 (s.endProgram c now ending held).1 := by
  suffices hkept : w ∈ (s.endProgram c now ending held).1.waiting ∧
      ∀ due, .alarm due w.request.id ∉ (s.endProgram c now ending held).2 from
    (endProgram_moves c now ending held s).undisturbed hs (by simp) (by simp) hkept.1 hkept.2
  unfold endProgram
  split
  · exact ⟨hs.waits, by simp⟩
  · next st hslot =>
    split
    · exact ⟨hs.waits, by simp⟩
    · cases held with
      | true => exact ⟨hs.waits, by simp [Ne.symm (hs.not_in_slot hslot)]⟩
      | false =>
        obtain ⟨hwaiting, haside⟩ := release_aside c now s st (.ended ending) false
        refine ⟨hwaiting ▸ hs.waits, fun due hmem => ?_⟩
        rcases List.mem_cons.mp hmem with heq | hmem
        · cases heq
        · exact unalarmed_of_aside haside due hmem

theorem closeOutput_undisturbed (hs : s.Bides w) :
    Undisturbed w s (s.closeOutput c now).2 (s.closeOutput c now).1 := by
  suffices hkept : w ∈ (s.closeOutput c now).1.waiting ∧
      ∀ due, .alarm due w.request.id ∉ (s.closeOutput c now).2 from
    (closeOutput_moves c now s).undisturbed hs (by simp) (by simp) hkept.1 hkept.2
  unfold closeOutput
  split
  · exact ⟨hs.waits, by simp⟩
  · next st hslot =>
    split
    · exact ⟨hs.waits, by simp⟩
    · obtain ⟨hwaiting, haside⟩ := release_aside c now s st _ false
      exact ⟨hwaiting ▸ hs.waits, unalarmed_of_aside haside⟩

/-- Another one is woken. -/
theorem wake_undisturbed (hs : s.Bides w) (hne : id ≠ w.request.id) :
    Undisturbed w s (s.wake c now id).2 (s.wake c now id).1 := by
  cases hfind : s.waiting.find? (·.request.id == id) with
  | some v =>
    have hid : v.request.id = id := by simpa using List.find?_some hfind
    have hlook : s.wake c now id = s.look c now v := by
      simp only [wake, hfind]
    rw [hlook]
    exact look_undisturbed hs (List.mem_of_find?_eq_some hfind) (hid ▸ hne)
  | none =>
    suffices hkept : w ∈ (s.wake c now id).1.waiting ∧
        ∀ due, .alarm due w.request.id ∉ (s.wake c now id).2 from
      (wake_moves c now id s).undisturbed hs (by simp) (by simp) hkept.1 hkept.2
    unfold wake
    rw [hfind]
    dsimp only
    split
    · exact ⟨hs.waits, by simp⟩
    · next st hslot =>
      split
      · exact ⟨hs.waits, by simp⟩
      · split
        · obtain ⟨hwaiting, haside⟩ := release_aside c now s st _ true
          exact ⟨hwaiting ▸ hs.waits, unalarmed_of_aside haside⟩
        · exact ⟨hs.waits, by simp⟩

/-! ## Its own look -/

theorem Bides.wake (hs : s.Bides w) : s.wake c now w.request.id = s.look c now w := by
  have hfind : s.waiting.find? (·.request.id == w.request.id) = some w := by
    obtain ⟨v, hv⟩ := Option.isSome_iff_exists.mp
      (List.find?_isSome (p := (·.request.id == w.request.id)) |>.mpr ⟨w, hs.waits, by simp⟩)
    have hid : v.request.id = w.request.id := by simpa using List.find?_some hv
    rw [hv, hs.eq_of_mem (List.mem_of_find?_eq_some hv) hid]
  simp only [Session.wake, hfind]

theorem not_waiting_of_without (hwaiting : s'.waiting = s.without id) : id ∉ s'.waitingIds := by
  intro hmem
  obtain ⟨v, hv, hid⟩ := List.mem_map.mp hmem
  exact (not_mem_without id s (hwaiting ▸ hv)).2 hid

theorem Bides.found (hs : s.Bides w) (c : PlaySetup) (now : Nat) {target : SocketAddr} (hremote : s.remote = some target) :
    w.request.id ∉ (s.look c now w).1.waitingIds ∧ (s.look c now w).1.remote = some target ∧
      (s.look c now w).1.isClosed = false := by
  have hjoins := look_joins c now s (Option.isSome_iff_exists.mpr ⟨target, hremote⟩) w
  exact ⟨not_waiting_of_without hjoins.waiting, hjoins.remote.trans hremote,
    (look_moves c now hs.waits).isOpen (by simp) hs.isOpen⟩

/-! ## The end of the session -/

theorem isClosed_close (now : Nat) (s : Session) : (s.close now).1.isClosed = true := by
  have hshut : ∀ s : Session, s.shut.isClosed = true := fun s => by
    simp [shut, advanceTo, isClosed]
  unfold close
  dsimp only
  split
  · exact hshut _
  · split
    · exact hshut _
    · split <;> exact hshut { s with waiting := [], line := [] }

theorem not_waiting_of_close (now : Nat) (s : Session) (id : Uuid) :
    id ∉ (s.close now).1.waitingIds := by
  have hnobody := (close_quiet now s (isClosed_close now s)).1
  simp [waitingIds, hnobody]

end RtpBroker.Session
