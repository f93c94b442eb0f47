import RtpBroker.Exchange
import RtpBroker.Proofs.SessionMoves

/-!
# The life of a playback

A playback is accepted, waits, has its turn at the stream, and is over in one of
a few ways. Its life is a chain of turns, each told by a few effects, so the
condition that it is in and its whole story determine each other.
-/

namespace RtpBroker

/-- The playback that an effect tells about, if it tells what becomes of one. -/
def Effect.subject? : Effect → Option Uuid
  | .enter id _ | .phase id _ | .finish id _ _ _ | .refused id _ | .launch id _ | .exited id _
  | .dropped id | .killed id | .drained id _ => some id
  | .alarm _ _ | .datagram _ | .learned | .createFile _ _ _ | .removeFile _ | .streamed _ _ => none

def Effect.isAbout (id : Uuid) (e : Effect) : Bool := e.subject? == some id

theorem filter_isAbout {k : Uuid} {es : List Effect}
    (hes : ∀ e ∈ es, e.subject? = none ∨ e.subject? = some k) (id : Uuid) :
    es.filter (Effect.isAbout id) =
      if k = id then es.filter (·.subject?.isSome) else [] := by
  split
  · next hid =>
    subst hid
    refine List.filter_congr fun e he => ?_
    rcases hes e he with h | h <;> simp [Effect.isAbout, h]
  · next hid =>
    refine List.filter_eq_nil_iff.mpr fun e he => ?_
    rcases hes e he with h | h <;> simp [Effect.isAbout, h, hid]

/-- How a playback came to its end: it looked in vain until its time was up, it was given up before
its turn, or it had the stream. -/
inductive Verdict
  | lapsed
  | dropped
  | played (o : Outcome)
  deriving DecidableEq

inductive Condition
  | unknown
  | pending
  | running
  | lingering (o : Outcome) (limit : Nat)
  | settled (v : Verdict)
  deriving DecidableEq

def Outcome.IsRefusal : Outcome → Prop
  | .notStarted _ | .noFile _ => True
  | .ended _ | .aborted => False

/-- What tells that a program has come to an end. -/
inductive Outcome.EndsBy (id : Uuid) : Outcome → Effect → Prop
  | ended (ending : Ending) : EndsBy id (.ended ending) (.exited id ending)
  | aborted : EndsBy id .aborted (.killed id)

open Session in
/-- A turn of a playback's life, and what tells of it. -/
inductive Turn (c : PlaySetup) (now : Nat) (id : Uuid) :
    Cue → Condition → List Effect → Condition → Prop
  | enter (port : Port) : Turn c now id (.enter id) .unknown [.enter id port] .pending
  | lapse : Turn c now id .look .pending
      [.finish id .timedOut none (some (.remoteUnknown (UInt64.ofNat c.ceiling)))]
      (.settled .lapsed)
  | refuse {o : Outcome} (ho : o.IsRefusal) : Turn c now id .look .pending
      [.phase id .streaming, .refused id o, finishEffect id o] (.settled (.played o))
  | start (arguments : List String) : Turn c now id .look .pending
      [.phase id .streaming, .launch id arguments] .running
  | exit (ending : Ending) : Turn c now id (.exit ending false) .running
      [.exited id ending, .drained id false, finishEffect id (.ended ending)]
      (.settled (.played (.ended ending)))
  | exitHeld (ending : Ending) : Turn c now id (.exit ending true) .running [.exited id ending]
      (.lingering (.ended ending) (now + PlaySetup.lingerLimit))
  | settle {o : Outcome} {limit : Nat} {timeUp : Bool} (hle : now ≤ limit)
      (h : timeUp = true → now = limit) : Turn c now id (.settle timeUp) (.lingering o limit)
        [.drained id timeUp, finishEffect id o] (.settled (.played o))
  | drop : Turn c now id .close .pending [.dropped id, .finish id .cancelled none none]
      (.settled .dropped)
  | kill : Turn c now id .close .running
      [.killed id, .drained id false, finishEffect id .aborted] (.settled (.played .aborted))
  | killHeld : Turn c now id .close .running [.killed id]
      (.lingering .aborted (now + PlaySetup.lingerLimit))

theorem Turn.ne_nil {c : PlaySetup} {now : Nat} {id : Uuid} {cue : Session.Cue}
    {p p' : Condition} {es : List Effect} (h : Turn c now id cue p es p') : es ≠ [] := by
  cases h <;> simp

/-- The story of a playback of the session with number `i`, and the condition it leads to. -/
inductive Life (c : PlaySetup) (i : Nat) (id : Uuid) : List Entry → Condition → Prop
  | unknown : Life c i id [] .unknown
  | turn {story : List Entry} {p p' : Condition} {now : Nat} {cue : Session.Cue}
      {es : List Effect} (h : Life c i id story p) (ht : Turn c now id cue p es p') :
      Life c i id (story ++ es.map (Entry.mk now i)) p'

theorem Session.endPhase_ne_timedOut (o : Outcome) : endPhase o ≠ .timedOut := by
  unfold endPhase
  split
  · simp
  · split <;> simp

namespace Life

variable {c : PlaySetup} {i : Nat} {id : Uuid} {story : List Entry}

theorem unknown_of_nil {p : Condition} (h : Life c i id [] p) : p = .unknown := by
  generalize hstory : ([] : List Entry) = story at h
  cases h with
  | unknown => rfl
  | turn _ ht => simp [ht.ne_nil] at hstory

theorem entered {p : Condition} (h : Life c i id story p) (hne : story ≠ []) :
    ∃ t port, ⟨t, i, .enter id port⟩ ∈ story := by
  induction h with
  | unknown => exact absurd rfl hne
  | @turn story p p' now cue es h ht ih =>
    by_cases hstory : story = []
    · subst hstory
      have hp := h.unknown_of_nil
      subst hp
      cases ht with
      | enter port => exact ⟨now, port, by simp⟩
    · obtain ⟨t, port, hmem⟩ := ih hstory
      exact ⟨t, port, List.mem_append_left _ hmem⟩

theorem eq_of_unknown (h : Life c i id story .unknown) : story = [] := by
  cases h with
  | unknown => rfl
  | turn _ ht => cases ht

theorem ne_unknown {p : Condition} {n : Entry} (h : Life c i id story p) (hn : n ∈ story) :
    p ≠ .unknown := by
  rintro rfl
  rw [h.eq_of_unknown] at hn
  exact List.not_mem_nil hn

theorem session_eq {p : Condition} (h : Life c i id story p) : ∀ n ∈ story, n.session = i := by
  induction h with
  | unknown => simp
  | turn _ _ ih =>
    intro n hn
    rcases List.mem_append.mp hn with hn | hn
    · exact ih n hn
    · obtain ⟨e, -, rfl⟩ := List.mem_map.mp hn
      rfl

theorem enter_unique {p : Condition} (h : Life c i id story p) {t t' j j' : Nat}
    {port port' : Port} (hn : ⟨t, j, .enter id port⟩ ∈ story)
    (hn' : ⟨t', j', .enter id port'⟩ ∈ story) : t = t' ∧ port = port' := by
  induction h with
  | unknown => cases hn
  | @turn story p p' now cue es h ht ih =>
    rw [List.mem_append] at hn hn'
    cases ht with
    | enter =>
      obtain rfl := h.eq_of_unknown
      simp_all
    | _ =>
      refine ih (hn.resolve_right ?_) (hn'.resolve_right ?_) <;> simp [Session.finishEffect]

/-- Who does not wait any more had its turn, was given up, or its time was up. -/
theorem stages {p : Condition} (h : Life c i id story p) : p = .unknown ∨ p = .pending ∨
    ∃ n ∈ story, n.effect = .phase id .streaming ∨ n.effect = .dropped id ∨
      ∃ code fault, n.effect = .finish id .timedOut code fault := by
  induction h with
  | unknown => exact Or.inl rfl
  | turn h ht ih =>
    rcases ih with rfl | rfl | ⟨n, hn, hstage⟩
    · cases ht with
      | enter => exact Or.inr (Or.inl rfl)
    · cases ht <;>
        exact Or.inr (Or.inr ⟨_, List.mem_append_right _ (List.mem_cons_self ..), by simp⟩)
    · exact Or.inr (Or.inr ⟨n, List.mem_append_left _ hn, hstage⟩)

theorem settled_of_timedOut {p : Condition} (h : Life c i id story p) {n : Entry}
    {code : Option Int} {fault : Option Fault} (hn : n ∈ story)
    (he : n.effect = .finish id .timedOut code fault) : p = .settled .lapsed := by
  have hne : ∀ o, .timedOut ≠ Session.endPhase o := fun o =>
    (Session.endPhase_ne_timedOut o).symm
  induction h with
  | unknown => cases hn
  | turn h ht ih =>
    rcases List.mem_append.mp hn with hn | hn
    · rw [ih hn] at ht
      cases ht
    · obtain ⟨e, hmem, rfl⟩ := List.mem_map.mp hn
      obtain rfl : e = .finish id .timedOut code fault := he
      cases ht with
      | lapse => rfl
      | _ => simp [Session.finishEffect, hne] at hmem

theorem settled_of_dropped {p : Condition} (h : Life c i id story p) {n : Entry}
    (hn : n ∈ story) (he : n.effect = .dropped id) : p = .settled .dropped := by
  induction h with
  | unknown => cases hn
  | turn h ht ih =>
    rcases List.mem_append.mp hn with hn | hn
    · rw [ih hn] at ht
      cases ht
    · obtain ⟨e, hmem, rfl⟩ := List.mem_map.mp hn
      obtain rfl : e = .dropped id := he
      cases ht with
      | drop => rfl
      | _ => simp [Session.finishEffect] at hmem

theorem eq_of_pending (h : Life c i id story .pending) :
    ∃ t port, story = [⟨t, i, .enter id port⟩] := by
  cases h with
  | turn h ht =>
    cases ht with
    | enter port =>
      obtain rfl := h.eq_of_unknown
      exact ⟨_, port, rfl⟩

/-- The story of a playback whose program was started. -/
def started (i : Nat) (id : Uuid) (t₁ : Nat) (port : Port) (t₂ : Nat) (arguments : List String) :
    List Entry :=
  [⟨t₁, i, .enter id port⟩, ⟨t₂, i, .phase id .streaming⟩, ⟨t₂, i, .launch id arguments⟩]

theorem eq_of_running (h : Life c i id story .running) :
    ∃ t₁ port t₂ arguments, story = started i id t₁ port t₂ arguments := by
  cases h with
  | turn h ht =>
    cases ht with
    | start arguments =>
      obtain ⟨t₁, port, rfl⟩ := h.eq_of_pending
      exact ⟨t₁, port, _, arguments, rfl⟩

theorem eq_of_lingering {o : Outcome} {limit : Nat} (h : Life c i id story (.lingering o limit)) :
    ∃ t₁ port t₂ arguments t₃ e, o.EndsBy id e ∧ limit = t₃ + PlaySetup.lingerLimit ∧
      story = started i id t₁ port t₂ arguments ++ [⟨t₃, i, e⟩] := by
  cases h with
  | turn h ht =>
    cases ht with
    | exitHeld ending =>
      obtain ⟨t₁, port, t₂, arguments, rfl⟩ := h.eq_of_running
      exact ⟨t₁, port, t₂, arguments, _, _, .ended ending, rfl, rfl⟩
    | killHeld =>
      obtain ⟨t₁, port, t₂, arguments, rfl⟩ := h.eq_of_running
      exact ⟨t₁, port, t₂, arguments, _, _, .aborted, rfl, rfl⟩

theorem eq_of_lapsed (h : Life c i id story (.settled .lapsed)) :
    ∃ t₁ port t₂, story = [⟨t₁, i, .enter id port⟩, ⟨t₂, i, .finish id .timedOut none
      (some (.remoteUnknown (UInt64.ofNat c.ceiling)))⟩] := by
  cases h with
  | turn h ht =>
    cases ht with
    | lapse =>
      obtain ⟨t₁, port, rfl⟩ := h.eq_of_pending
      exact ⟨t₁, port, _, rfl⟩

theorem eq_of_dropped (h : Life c i id story (.settled .dropped)) :
    ∃ t₁ port t₂, story = [⟨t₁, i, .enter id port⟩, ⟨t₂, i, .dropped id⟩,
      ⟨t₂, i, .finish id .cancelled none none⟩] := by
  cases h with
  | turn h ht =>
    cases ht with
    | drop =>
      obtain ⟨t₁, port, rfl⟩ := h.eq_of_pending
      exact ⟨t₁, port, _, rfl⟩

/-- Who had the stream was refused by the machine, or its program has come to an end and its error
output was read until it was closed or the time for it was up. -/
theorem eq_of_played {o : Outcome} (h : Life c i id story (.settled (.played o))) :
    (o.IsRefusal ∧ ∃ t₁ port t₂, story = [⟨t₁, i, .enter id port⟩,
      ⟨t₂, i, .phase id .streaming⟩, ⟨t₂, i, .refused id o⟩,
      ⟨t₂, i, Session.finishEffect id o⟩]) ∨
    ∃ t₁ port t₂ arguments t₃ e t₄ timeUp, o.EndsBy id e ∧
      t₄ ≤ t₃ + PlaySetup.lingerLimit ∧ (timeUp = true → t₄ = t₃ + PlaySetup.lingerLimit) ∧
      story = started i id t₁ port t₂ arguments ++ [⟨t₃, i, e⟩, ⟨t₄, i, .drained id timeUp⟩,
        ⟨t₄, i, Session.finishEffect id o⟩] := by
  cases h with
  | turn h ht =>
    cases ht with
    | refuse ho =>
      obtain ⟨t₁, port, rfl⟩ := h.eq_of_pending
      exact Or.inl ⟨ho, t₁, port, _, rfl⟩
    | exit ending =>
      obtain ⟨t₁, port, t₂, arguments, rfl⟩ := h.eq_of_running
      exact Or.inr ⟨t₁, port, t₂, arguments, _, _, _, false, .ended ending, Nat.le_add_right _ _,
        by simp, rfl⟩
    | settle hle hlimit =>
      obtain ⟨t₁, port, t₂, arguments, t₃, e, he, rfl, rfl⟩ := h.eq_of_lingering
      exact Or.inr ⟨t₁, port, t₂, arguments, t₃, e, _, _, he, hle, hlimit, rfl⟩
    | kill =>
      obtain ⟨t₁, port, t₂, arguments, rfl⟩ := h.eq_of_running
      exact Or.inr ⟨t₁, port, t₂, arguments, _, _, _, false, .aborted, Nat.le_add_right _ _,
        by simp, rfl⟩

end Life

end RtpBroker
