import RtpBroker.Proofs.Endings

/-!
# How sessions stand

A session stands to the broker in one way after the other and never goes back. Off
its port it is closed, so nothing is accepted in it any more, and once it is gone
nothing goes on in it, and nothing will.
-/

namespace RtpBroker

def Standing.rank : Standing → Nat
  | .registered => 0
  | .dismissed => 1
  | .leaving => 2
  | .gone => 3

theorem Standing.eq_of_rank {a b : Standing} (h : a.rank = b.rank) : a = b := by
  cases a <;> cases b <;> first | rfl | cases h

/-- Off its port a session is leaving, or it is gone. -/
theorem Standing.leaving_or_gone {a : Standing} (h : Standing.leaving.rank ≤ a.rank) :
    a = .leaving ∨ a = .gone := by
  cases a <;> first | exact Or.inl rfl | exact Or.inr rfl | exact absurd h (by decide)

namespace Session

variable {c : PlaySetup} {now : Nat} {cue : Cue} {s s' s'' : Session} {es : List Effect}

theorem isUnfinished_iff {id : Uuid} : s.isUnfinished id = true ↔ id ∈ s.playbacks := by
  simp [isUnfinished]

theorem isBusy_iff : s.isBusy = true ↔ ∃ id ∈ s.handles, id ∈ s.playbacks := by
  simp [isBusy, isUnfinished]

theorem isBusy_of_idle (h : s.playbacks = []) : s.isBusy = false := by
  simp [isBusy, isUnfinished, h]

theorem isJoined_iff : s.isJoined = true ↔ ∀ id ∈ s.joined, id ∉ s.playbacks := by
  simp [isJoined, isUnfinished]

/-- Where nothing goes on nothing begins by itself. -/
theorem Move.idle (h : Move c now cue s es s') (hcue : ∀ id, cue ≠ .enter id)
    (hs : s.playbacks = []) : s'.playbacks = [] := by
  refine List.eq_nil_iff_forall_not_mem.mpr fun id hid => ?_
  have hle := h.count_le id (hcue id)
  rw [hs, List.count_nil, Nat.le_zero, List.count_eq_zero] at hle
  exact hle hid

theorem Move.mem_playbacks (h : Move c now cue s es s') (hcue : ∀ id, cue ≠ .enter id) {id : Uuid}
    (hid : id ∈ s'.playbacks) : id ∈ s.playbacks :=
  List.count_pos_iff.mp (Nat.lt_of_lt_of_le (List.count_pos_iff.mpr hid) (h.count_le id (hcue id)))

/-- Who has the handles of the tasks changes in a move only with a new task. -/
theorem Move.footing (h : Move c now cue s es s') (hcue : ∀ id, cue ≠ .enter id) :
    s'.footing = s.footing := by
  cases h with
  | hear sender =>
    unfold Session.hear
    dsimp only
    split <;> rfl
  | enter _ r => exact absurd rfl (hcue r.id)
  | _ => rfl

/-- What a session's standing says of what goes on in it. No task that goes on is without a handle,
which the session has while it is registered and its teardown has then. -/
structure Placed (s : Session) : Prop where
  closed : s.standing ≠ .registered → s.isClosed = true
  told : s.standing ≠ .registered → s.aborted = true
  tracked : ∀ id ∈ s.playbacks, id ∈ s.handles ∨ id ∈ s.joined
  joined : s.standing = .registered → s.joined = []
  yielded : s.standing ≠ .registered → s.handles = []
  idle : s.standing = .gone → s.playbacks = []

namespace Placed

theorem opened (port : Port) (now : Nat) : (Session.opened port now).Placed where
  closed h := absurd rfl h
  told h := absurd rfl h
  tracked _ hid := by cases hid
  joined _ := rfl
  yielded h := absurd rfl h
  idle _ := rfl

/-- A registered session is busy as long as a playback in it has not ended. -/
theorem isBusy_eq_false (hs : s.Placed) (h : s.standing = .registered) :
    s.isBusy = false ↔ s.playbacks = [] := by
  rw [← Bool.not_eq_true, isBusy_iff]
  constructor
  · intro hnone
    refine List.eq_nil_iff_forall_not_mem.mpr fun id hid => hnone ⟨id, ?_, hid⟩
    exact (hs.tracked id hid).resolve_right (by simp [hs.joined h])
  · rintro hnil ⟨id, -, hid⟩
    exact List.not_mem_nil (hnil ▸ hid)

/-- The teardown of a session waits until no playback in it goes on. -/
theorem isJoined_iff (hs : s.Placed) (h : s.standing ≠ .registered) :
    s.isJoined = true ↔ s.playbacks = [] := by
  rw [Session.isJoined_iff]
  constructor
  · intro hover
    refine List.eq_nil_iff_forall_not_mem.mpr fun id hid => hover id ?_ hid
    exact (hs.tracked id hid).resolve_left (by simp [hs.yielded h])
  · exact fun hnil id _ => hnil ▸ List.not_mem_nil

/-- The handle of a new task is noted, and none is dropped of a task that goes on. -/
theorem enter (hs : s.Placed) (h : s.standing = .registered) (r : Request) :
    (s.enter c now r).1.Placed where
  closed hleft := absurd h hleft
  told hleft := absurd h hleft
  tracked id hid := by
    have hsame : id ∈ s.playbacks ∨ id = r.id := by
      simp only [Session.enter, playbacks, queued, register, List.map_append, List.map_cons,
        List.map_nil, List.mem_append, List.mem_singleton] at hid ⊢
      tauto
    refine Or.inl (List.mem_append.mpr ?_)
    rcases hsame with hold | rfl
    · have hhandle := (hs.tracked id hold).resolve_right (by simp [hs.joined h])
      exact Or.inl (List.mem_filter.mpr ⟨hhandle, isUnfinished_iff.mpr hold⟩)
    · exact Or.inr (List.mem_singleton_self _)
  joined _ := hs.joined h
  yielded hleft := absurd h hleft
  idle hgone := by cases h.symm.trans hgone

end Placed

theorem Move.told (h : Move c now cue s es s') (hs : s.aborted = true) : s'.aborted = true := by
  cases h with
  | hear sender =>
    unfold Session.hear
    dsimp only
    split <;> exact hs
  | shut => rfl
  | _ => exact hs

theorem Move.placed (h : Move c now cue s es s') (hs : s.Placed)
    (hcue : ∀ id, cue = .enter id → s.standing = .registered) : s'.Placed := by
  by_cases henter : ∃ id, cue = .enter id
  · obtain ⟨id, rfl⟩ := henter
    have hregistered := hcue id rfl
    cases h with
    | enter _ r => exact hs.enter (c := c) hregistered r
  · have hother : ∀ id, cue ≠ .enter id := fun id heq => henter ⟨id, heq⟩
    obtain ⟨hstanding, hhandles, hjoined⟩ := Footing.mk.inj (h.footing hother)
    refine ⟨fun hleft => h.lasts.closed (hs.closed (hstanding ▸ hleft)),
      fun hleft => h.told (hs.told (hstanding ▸ hleft)), fun id hid => ?_, fun hr => ?_,
      fun hleft => ?_, fun hgone => h.idle hother (hs.idle (hstanding ▸ hgone))⟩
    · rw [hhandles, hjoined]
      exact hs.tracked id (h.mem_playbacks hother hid)
    · rw [hjoined]
      exact hs.joined (hstanding ▸ hr)
    · rw [hhandles]
      exact hs.yielded (hstanding ▸ hleft)

theorem isClosed_leave (s : Session) : s.leave.isClosed = true := by
  simp [leave, yield, isClosed, shut, advanceTo]

theorem Placed.leave (hs : s.Placed) (h : s.standing = .registered) : s.leave.Placed where
  closed _ := s.isClosed_leave
  told _ := rfl
  tracked id hid := by
    have hhandle := (hs.tracked id hid).resolve_right (by simp [hs.joined h])
    exact Or.inr hhandle
  joined hr := by cases hr
  yielded _ := rfl
  idle hgone := by cases hgone

theorem Recedes.placed (h : s.Recedes s') (hs : s.Placed) : s'.Placed := by
  cases h with
  | stays => exact hs
  | leaves h => exact hs.leave h
  | vacates h hjoined =>
    have hleft : s.standing ≠ .registered := by simp [h]
    exact ⟨fun _ => hs.closed hleft, fun _ => hs.told hleft, hs.tracked, fun hr => (by cases hr),
      fun _ => hs.yielded hleft, fun _ => (hs.isJoined_iff hleft).mp hjoined⟩

/-- What a session keeps as long as it exists, and what only goes one way. -/
structure Ages (s s' : Session) : Prop where
  port : s'.port = s.port
  standing : s.standing.rank ≤ s'.standing.rank
  closed : s.isClosed = true → s'.isClosed = true
  told : s.aborted = true → s'.aborted = true

theorem Ages.refl (s : Session) : Ages s s := ⟨rfl, Nat.le_refl _, fun h => h, fun h => h⟩

theorem Ages.trans (h : Ages s s') (h' : Ages s' s'') : Ages s s'' :=
  ⟨h'.port.trans h.port, Nat.le_trans h.standing h'.standing, fun hs => h'.closed (h.closed hs),
    fun hs => h'.told (h.told hs)⟩

theorem Move.ages (h : Move c now cue s es s') : Ages s s' :=
  ⟨h.lasts.port, Nat.le_of_eq (congrArg Standing.rank (congrArg Prod.snd h.post).symm),
    h.lasts.closed, h.told⟩

theorem Recedes.ages (h : s.Recedes s') : Ages s s' := by
  cases h with
  | stays => exact .refl s
  | leaves h =>
    refine ⟨rfl, ?_, fun _ => s.isClosed_leave, fun _ => rfl⟩
    simp [h, leave, yield, shut, advanceTo, Standing.rank]
  | vacates h => exact ⟨rfl, by simp [h, Standing.rank], fun hs => hs, fun hs => hs⟩

end Session

namespace Exchange

variable {c : PlaySetup} {x x' : Exchange} {i : Nat} {s : Session}

def Placed (x : Exchange) : Prop := ∀ (i : Nat) s, x.sessions[i]? = some s → s.Placed

theorem Shift.placed (h : Shift c x x') (hx : x.Placed) : x'.Placed := by
  intro j t ht
  cases h with
  | still h =>
    rcases h.comes j t ht with ⟨s, hs, hrecedes⟩ | ⟨-, port, rfl⟩
    · exact hrecedes.placed (hx j s hs)
    · exact .opened port x.now
  | @move i cue s s' es hi hmove hadmits =>
    rcases session_of_move ht with ⟨-, rfl⟩ | ⟨-, ht⟩
    · exact hmove.placed (hx i s hi) fun id heq => by
        subst heq
        exact hadmits.2.1
    · exact hx j t ht
  | clock => exact hx j t ht

theorem Stirs.placed (h : Stirs c x x') (hx : x.Placed) : x'.Placed := by
  induction h with
  | refl => exact hx
  | tail _ hlast ih => exact hlast.shift.placed ih

theorem Evolves.placed (h : Evolves c x x') (hx : x.Placed) : x'.Placed := by
  induction h with
  | refl => exact hx
  | tail _ hlast ih => exact hlast.shift.placed ih

/-- Also a playback that is known already gets a handle where it is accepted. -/
theorem play_placed (port : Port) (payload : ByteArray) (format : Option String) (id : Uuid)
    (hx : x.Placed) : (x.play c port payload format id).2.Placed := by
  cases hplay : (x.play c port payload format id).1 with
  | error e =>
    rw [play_error hplay]
    exact hx
  | ok id' =>
    obtain ⟨-, i, s, f, hnumber, hi, -, heq⟩ := play_ok hplay
    obtain ⟨t, ht, hregistered, -⟩ := registered_of_numberAt? hnumber
    obtain rfl : s = t := Option.some.inj (hi.symm.trans ht)
    have hentered : (x.enter c i ⟨id, payload, f⟩).Placed := by
      intro j t ht
      rw [Exchange.enter, stepSession_some hi] at ht
      rcases session_of_move ht with ⟨-, rfl⟩ | ⟨-, ht⟩
      · exact (hx i s hi).enter hregistered _
      · exact hx j t ht
    rw [heq]
    exact Stirs.placed (accept_stirs hi) hentered

theorem Beat.ages (h : Beat c x x') (hi : x.sessions[i]? = some s) :
    ∃ s', x'.sessions[i]? = some s' ∧ s.Ages s' := by
  cases h.shift with
  | still h =>
    obtain ⟨s', hi', hrecedes⟩ := h.stays i s hi
    exact ⟨s', hi', hrecedes.ages⟩
  | @move j cue s₁ s' es hj hmove _ =>
    by_cases hij : i = j
    · subst hij
      obtain rfl : s₁ = s := Option.some.inj (hj.symm.trans hi)
      exact ⟨s', session_moved hj, hmove.ages⟩
    · exact ⟨s, (session_unmoved hij).trans hi, .refl s⟩
  | clock => exact ⟨s, hi, .refl s⟩

theorem Evolves.ages (h : Evolves c x x') (hi : x.sessions[i]? = some s) :
    ∃ s', x'.sessions[i]? = some s' ∧ s.Ages s' := by
  induction h with
  | refl => exact ⟨s, hi, .refl s⟩
  | tail _ hlast ih =>
    obtain ⟨s₁, hi₁, hages⟩ := ih
    obtain ⟨s₂, hi₂, hages'⟩ := hlast.ages hi₁
    exact ⟨s₂, hi₂, hages.trans hages'⟩

end Exchange

theorem Broker.Reachable.placed {b : Broker} (h : b.Reachable) : b.exchange.Placed := by
  obtain ⟨calendar, hx⟩ := h.exchange
  exact hx.placed fun i s hi => by cases hi

end RtpBroker
