import Mathlib.Data.List.Nodup
import RtpBroker.Proofs.Conditions

/-!
# Who finds the address when

A playback that is accepted once the address of the peer is known finds it at once.
One that was accepted before looks at fixed intervals, and for the last time when
its time is up; it finds the address the first time it looks after that became
known. So the history of a session tells when each of its playbacks finds the
address, and when it looked in vain for the last time before that.
-/

namespace RtpBroker

def Effect.accepted? : Effect → Option Uuid
  | .enter id _ => some id
  | _ => none

def Effect.streams? : Effect → Option Uuid
  | .phase id .streaming => some id
  | _ => none

/-- When a playback finds the address, and when it looked in vain for the last time; for one that
finds it at once, the time of its acceptance. -/
@[ext] structure Finding where
  time : Nat
  missed : Nat
  deriving DecidableEq, Repr

/-- Of two findings at one time, that one is before the other whose playback has not looked for
longer. -/
def Finding.Before (f g : Finding) : Prop :=
  f.time < g.time ∨ f.time = g.time ∧ f.missed < g.missed

instance (f g : Finding) : Decidable (f.Before g) :=
  inferInstanceAs (Decidable (f.time < g.time ∨ f.time = g.time ∧ f.missed < g.missed))

theorem Finding.Before.asymm {f g : Finding} (h : f.Before g) : ¬ g.Before f := by
  unfold Finding.Before at *
  omega

/-- What it depends on when a playback finds the address. -/
inductive Milestone
  | accepted (time : Nat)
  | learned (time : Nat)
  deriving DecidableEq, Repr

/-- Who was accepted at `a` looks at `a`, `a + interval`, …, and at the end of its time. -/
def PlaySetup.finding? (c : PlaySetup) : List Milestone → Option Finding
  | [.learned _, .accepted a] => some ⟨a, a⟩
  | [.accepted a, .learned t] =>
    let missed := a + (t - a) / c.interval * c.interval
    some ⟨if c.interval = 0 then t else min (missed + c.interval) (a + c.ceiling), missed⟩
  | _ => none

/-- The effects for one session and their times, the oldest first. -/
abbrev History := List (Nat × Effect)

namespace History

/-- The playbacks of the session in the order of their acceptance. -/
def accepted (h : History) : List Uuid := h.filterMap (·.2.accepted?)

/-- The playbacks of the session in the order in which they started streaming. -/
def streamed (h : History) : List Uuid := h.filterMap (·.2.streams?)

/-- When the address of the peer became known. -/
def learnings (h : History) : List Nat :=
  h.filterMap fun n => if n.2.isLearned then some n.1 else none

def milestone? (id : Uuid) (n : Nat × Effect) : Option Milestone :=
  if n.2.isLearned then some (.learned n.1)
  else if n.2.accepted? = some id then some (.accepted n.1)
  else none

def milestones (id : Uuid) (h : History) : List Milestone := h.filterMap (milestone? id)

def finding? (c : PlaySetup) (id : Uuid) (h : History) : Option Finding :=
  c.finding? (h.milestones id)

def AcceptedBefore (h : History) (id id' : Uuid) : Prop := [id, id'].Sublist h.accepted

def StreamsBefore (h : History) (id id' : Uuid) : Prop := [id, id'].Sublist h.streamed

instance (h : History) (id id' : Uuid) : Decidable (h.AcceptedBefore id id') :=
  inferInstanceAs (Decidable ([id, id'].Sublist h.accepted))

instance (h : History) (id id' : Uuid) : Decidable (h.StreamsBefore id id') :=
  inferInstanceAs (Decidable ([id, id'].Sublist h.streamed))

/-- The order in which playbacks find the address, and that of their acceptance if they find it at
one time and have not looked for equally long. -/
def FindsBefore (c : PlaySetup) (h : History) (id id' : Uuid) : Prop :=
  ∀ f g, h.finding? c id = some f → h.finding? c id' = some g →
    f.Before g ∨ f = g ∧ h.AcceptedBefore id id'

variable {c : PlaySetup} {h new : History} {id id' : Uuid}

/-! ## Growth -/

@[simp] theorem accepted_append (h new : History) :
    History.accepted (h ++ new) = h.accepted ++ History.accepted new := List.filterMap_append

@[simp] theorem streamed_append (h new : History) :
    History.streamed (h ++ new) = h.streamed ++ History.streamed new := List.filterMap_append

@[simp] theorem learnings_append (h new : History) :
    History.learnings (h ++ new) = h.learnings ++ History.learnings new := List.filterMap_append

@[simp] theorem milestones_append (id : Uuid) (h new : History) :
    History.milestones id (h ++ new) = h.milestones id ++ History.milestones id new :=
  List.filterMap_append

theorem AcceptedBefore.append (hb : h.AcceptedBefore id id') (new : History) :
    History.AcceptedBefore (h ++ new) id id' := by
  rw [AcceptedBefore, accepted_append]
  exact hb.trans (List.sublist_append_left _ _)

theorem AcceptedBefore.of_new (hid : id ∈ h.accepted) (hid' : id' ∈ History.accepted new) :
    History.AcceptedBefore (h ++ new) id id' := by
  rw [AcceptedBefore, accepted_append]
  exact (List.singleton_sublist.mpr hid).append (List.singleton_sublist.mpr hid')

theorem AcceptedBefore.irrefl (hnodup : h.accepted.Nodup) : ¬ h.AcceptedBefore id id := by
  intro hb
  have hpair := hnodup.sublist hb
  simp at hpair

theorem AcceptedBefore.asymm (hnodup : h.accepted.Nodup) (hb : h.AcceptedBefore id id') :
    ¬ h.AcceptedBefore id' id := by
  intro hb'
  obtain ⟨l, r, heq, hl, hr⟩ := List.cons_sublist_iff.mp hb
  obtain ⟨l', r', heq', hl', hr'⟩ := List.cons_sublist_iff.mp hb'
  rw [List.singleton_sublist] at hr hr'
  have hdisjoint := (List.nodup_append.mp (heq ▸ hnodup)).2.2
  have happend : l ++ r = l' ++ r' := heq.symm.trans heq'
  rcases List.append_eq_append_iff.mp happend with ⟨m, rfl, rfl⟩ | ⟨m, rfl, rfl⟩
  · exact hdisjoint id hl id (List.mem_append_right _ hr') rfl
  · exact hdisjoint id' (List.mem_append_left _ hl') id' hr rfl

theorem learnings_map (t : Nat) (es : List Effect) :
    History.learnings (es.map (t, ·)) = (es.filter Effect.isLearned).map fun _ => t := by
  induction es with
  | nil => rfl
  | cons e es ih =>
    cases h : e.isLearned <;> simp_all [learnings]

theorem accepted_map (t : Nat) (es : List Effect) :
    History.accepted (es.map (t, ·)) = es.filterMap Effect.accepted? := by
  simp [accepted, List.filterMap_map]

theorem streamed_map (t : Nat) (es : List Effect) :
    History.streamed (es.map (t, ·)) = es.filterMap Effect.streams? := by
  simp [streamed, List.filterMap_map]

/-! ## Milestones -/

theorem milestones_of_not_accepted (hid : id ∉ h.accepted) :
    h.milestones id = h.learnings.map .learned := by
  rw [milestones, learnings, List.map_filterMap]
  refine List.filterMap_congr fun n hn => ?_
  have hne : n.2.accepted? ≠ some id := fun heq => hid (List.mem_filterMap.mpr ⟨n, hn, heq⟩)
  unfold milestone?
  rw [if_neg hne]
  split <;> rfl

/-- What tells neither of the address nor of the playback does not change when that finds it. -/
theorem milestones_append_of_nil (hlearned : new.learnings = []) (hid : id ∉ new.accepted) :
    History.milestones id (h ++ new) = h.milestones id := by
  rw [milestones_append, milestones_of_not_accepted hid, hlearned, List.map_nil, List.append_nil]

theorem milestones_enter {t : Nat} {port : Port} (hlearned : new.learnings = [])
    (hid : id ∉ new.accepted) :
    History.milestones id ((t, .enter id port) :: new) = [.accepted t] := by
  have hrest := milestones_of_not_accepted hid
  rw [hlearned, List.map_nil] at hrest
  have henter : milestone? id (t, .enter id port) = some (.accepted t) := by
    simp [milestone?, Effect.isLearned, Effect.accepted?]
  rw [milestones, List.filterMap_cons_some henter]
  exact congrArg _ hrest

theorem finding?_append_of_nil (hlearned : new.learnings = []) (hid : id ∉ new.accepted) :
    History.finding? c id (h ++ new) = h.finding? c id := by
  rw [finding?, finding?, milestones_append_of_nil hlearned hid]

theorem FindsBefore.append (hb : h.FindsBefore c id id') (hlearned : new.learnings = [])
    (hid : id ∉ new.accepted) (hid' : id' ∉ new.accepted) :
    History.FindsBefore c (h ++ new) id id' := by
  intro f g hf hg
  rw [finding?_append_of_nil hlearned hid] at hf
  rw [finding?_append_of_nil hlearned hid'] at hg
  exact (hb f g hf hg).imp_right fun ⟨heq, hbefore⟩ => ⟨heq, hbefore.append new⟩

theorem mem_accepted {t : Nat} (hmem : .accepted t ∈ h.milestones id) : id ∈ h.accepted := by
  obtain ⟨n, hn, hmilestone⟩ := List.mem_filterMap.mp hmem
  unfold milestone? at hmilestone
  split at hmilestone
  · cases hmilestone
  · split at hmilestone
    · next heq => exact List.mem_filterMap.mpr ⟨n, hn, heq⟩
    · cases hmilestone

theorem mem_accepted_of_finding {f : Finding} (hf : h.finding? c id = some f) :
    id ∈ h.accepted := by
  unfold finding? PlaySetup.finding? at hf
  split at hf
  · next a heq => exact mem_accepted (t := a) (by simp [heq])
  · next a _ heq => exact mem_accepted (t := a) (by simp [heq])
  · cases hf

/-! ## The order of the streams -/

theorem pair_sublist_or {l : List Uuid} (hid : id ∈ l) (hid' : id' ∈ l) (hne : id ≠ id') :
    [id, id'].Sublist l ∨ [id', id].Sublist l := by
  obtain ⟨l₁, l₂, rfl⟩ := List.append_of_mem hid
  rcases List.mem_append.mp hid' with hmem | hmem
  · exact Or.inr ((List.singleton_sublist.mpr hmem).append
      (List.singleton_sublist.mpr (List.mem_cons_self ..)))
  · have hmem' := (List.mem_cons.mp hmem).resolve_left (Ne.symm hne)
    exact Or.inl (((List.singleton_sublist.mpr hmem').cons_cons id).trans
      (List.sublist_append_right _ _))

/-- If playbacks stream in the order in which they find the address, then one that was accepted
before another one streams before it, unless the other one finds the address first. -/
theorem streamsBefore_iff (hnodup : h.accepted.Nodup)
    (hsorted : h.streamed.Pairwise (h.FindsBefore c)) (hb : h.AcceptedBefore id id')
    (hid : id ∈ h.streamed) (hid' : id' ∈ h.streamed) {f g : Finding}
    (hf : h.finding? c id = some f) (hg : h.finding? c id' = some g) :
    (h.StreamsBefore id id' ↔ ¬ g.Before f) ∧ (h.StreamsBefore id' id ↔ g.Before f) := by
  have hne : id ≠ id' := fun heq => AcceptedBefore.irrefl hnodup (heq ▸ hb)
  have hfirst : h.StreamsBefore id id' → ¬ g.Before f := by
    intro hs
    rcases List.pairwise_pair.mp (hsorted.sublist hs) f g hf hg with hlt | ⟨rfl, -⟩
    · exact hlt.asymm
    · exact fun hlt => hlt.asymm hlt
  have hsecond : h.StreamsBefore id' id → g.Before f := by
    intro hs
    rcases List.pairwise_pair.mp (hsorted.sublist hs) g f hg hf with hlt | ⟨-, hb'⟩
    · exact hlt
    · exact absurd hb' (hb.asymm hnodup)
  have hor : h.StreamsBefore id id' ∨ h.StreamsBefore id' id := pair_sublist_or hid hid' hne
  exact ⟨⟨hfirst, fun hnot => hor.resolve_right fun hs => hnot (hsecond hs)⟩,
    ⟨hsecond, fun hlt => hor.resolve_left fun hs => hfirst hs hlt⟩⟩

end History

/-! ## On the grid -/

/-- Who looked in vain at `last`, and has not looked again when the address becomes known, finds it
at the next look. -/
theorem PlaySetup.finding?_of_last {c : PlaySetup} {a n last t : Nat} (hne : c.interval ≠ 0)
    (hlast : last = a + n * c.interval) (hle : last ≤ t)
    (hlt : t < Session.nextLook c last (a + c.ceiling)) :
    c.finding? [.accepted a, .learned t] =
      some ⟨Session.nextLook c last (a + c.ceiling), last⟩ := by
  unfold Session.nextLook at hlt ⊢
  rw [if_neg hne] at hlt ⊢
  have hcount : (t - a) / c.interval = n := by
    refine Nat.div_eq_of_lt_le ?_ ?_
    · omega
    · rw [Nat.succ_mul]
      omega
  simp only [finding?, hcount, if_neg hne, ← hlast]

theorem PlaySetup.finding?_of_interval_zero {c : PlaySetup} (hzero : c.interval = 0) (a t : Nat) :
    c.finding? [.accepted a, .learned t] = some ⟨t, a⟩ := by
  simp [finding?, hzero]

end RtpBroker
