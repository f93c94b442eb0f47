import Mathlib.Algebra.Ring.Nat
import RtpBroker.Proofs.Tallies

/-!
# Every playback is accounted for once

Of each playback the journal tells once that it is accepted, once how it ends, and
at most once that its stream is over. So the counts of the ends and the playbacks
that go on add up to those accepted, and there is a sample for each that ended and
had an audio file.
-/

namespace RtpBroker

/-- The phases in which a playback can end. -/
def Phase.outcomes : List Phase := [.completed, .failed, .timedOut, .cancelled]

theorem Phase.mem_outcomes {p : Phase} : p ∈ outcomes ↔ p.isFinished = true := by
  cases p <;> decide

namespace Life

variable {c : PlaySetup} {i : Nat} {id : Uuid} {story : List Entry} {p : Condition}

theorem told_entered (h : Life c i id story p) :
    story.filterMap (·.effect.entered?) = if p = .unknown then [] else [id] := by
  induction h with
  | unknown => rfl
  | turn h ht ih =>
    rw [List.filterMap_append, ih, List.filterMap_map]
    cases ht <;> rfl

theorem told_ended (h : Life c i id story p) (q : Phase) :
    story.filterMap (·.effect.endedIn? q) = if p.ending? = some q then [id] else [] := by
  induction h with
  | unknown => rfl
  | turn h ht ih =>
    rw [List.filterMap_append, ih, List.filterMap_map]
    cases ht <;> simp [Effect.endedIn?, Condition.ending?, Session.finishEffect, Verdict.phase,
      Function.comp_def, List.filterMap_cons] <;> split <;> simp_all

/-- A playback has one program at most, which is through when the playback ends. -/
theorem told_tried (h : Life c i id story p) :
    (story.filterMap (·.effect.tried?)).length ≤ 1 ∧
      story.filterMap (·.effect.through?) =
        if p.ending?.isSome = true then story.filterMap (·.effect.tried?) else [] := by
  cases p with
  | unknown =>
    rw [h.eq_of_unknown]
    exact ⟨Nat.zero_le _, rfl⟩
  | pending =>
    obtain ⟨t, port, rfl⟩ := h.eq_of_pending
    exact ⟨Nat.zero_le _, rfl⟩
  | running =>
    obtain ⟨t₁, port, t₂, arguments, rfl⟩ := h.eq_of_running
    exact ⟨Nat.le_refl _, rfl⟩
  | lingering o limit =>
    obtain ⟨t₁, port, t₂, arguments, t₃, e, hends, -, rfl⟩ := h.eq_of_lingering
    cases hends <;> exact ⟨Nat.le_refl _, rfl⟩
  | settled v =>
    cases v with
    | lapsed =>
      obtain ⟨t₁, port, t₂, rfl⟩ := h.eq_of_lapsed
      exact ⟨Nat.zero_le _, rfl⟩
    | dropped =>
      obtain ⟨t₁, port, t₂, rfl⟩ := h.eq_of_dropped
      exact ⟨Nat.zero_le _, rfl⟩
    | played o =>
      rcases h.eq_of_played with ⟨ho, t₁, port, t₂, rfl⟩ |
        ⟨t₁, port, t₂, arguments, t₃, e, t₄, timeUp, hends, -, -, rfl⟩
      · cases o with
        | notStarted text => exact ⟨Nat.le_refl _, rfl⟩
        | noFile text => exact ⟨Nat.zero_le _, rfl⟩
        | ended ending => cases ho
        | aborted => cases ho
      · cases hends <;> exact ⟨Nat.le_refl _, rfl⟩

end Life

namespace Exchange

variable {c : PlaySetup} {asked : Request → Prop} {x x' : Exchange} {id : Uuid}
  {f : Effect → Option Uuid}

/-! ## What is told of each playback -/

theorem count_told (hf : ∀ e k, f e = some k → e.subject? = some k) (id : Uuid) (x : Exchange) :
    (x.told f).count id = ((x.story id).filterMap (f ·.effect)).count id := by
  unfold told story
  induction x.journal with
  | nil => rfl
  | cons n journal ih =>
    cases hn : f n.effect with
    | none =>
      rw [List.filter_cons]
      split <;> simp only [List.filterMap_cons, hn, ih]
    | some k =>
      have hsubject := hf n.effect k hn
      rw [List.filter_cons]
      by_cases hk : k = id
      · rw [if_pos (by simp [Effect.isAbout, hsubject, hk])]
        simp only [List.filterMap_cons, hn, List.count_cons, ih]
      · rw [if_neg (by simp [Effect.isAbout, hsubject, hk])]
        simp only [List.filterMap_cons, hn, List.count_cons_of_ne hk, ih]

theorem mem_told (hf : ∀ e k, f e = some k → e.subject? = some k) :
    id ∈ x.told f ↔ id ∈ (x.story id).filterMap (f ·.effect) := by
  rw [← List.count_pos_iff, ← List.count_pos_iff, count_told hf]

theorem nodup_told (hf : ∀ e k, f e = some k → e.subject? = some k)
    (hone : ∀ id, ((x.story id).filterMap (f ·.effect)).length ≤ 1) : (x.told f).Nodup := by
  refine List.nodup_iff_count_le_one.mpr fun id => ?_
  rw [count_told hf]
  exact Nat.le_trans List.count_le_length (hone id)

theorem subject?_of_entered {e : Effect} {k : Uuid} (h : e.entered? = some k) :
    e.subject? = some k := by
  cases e <;> first | exact h | cases h

theorem subject?_of_endedIn {q : Phase} {e : Effect} {k : Uuid} (h : e.endedIn? q = some k) :
    e.subject? = some k := by
  cases e with
  | finish id p code fault =>
    simp only [Effect.endedIn?] at h
    split at h
    · exact h
    · cases h
  | _ => cases h

theorem subject?_of_tried {e : Effect} {k : Uuid} (h : e.tried? = some k) :
    e.subject? = some k := by
  cases e with
  | refused id o => cases o <;> first | exact h | cases h
  | _ => first | exact h | cases h

theorem subject?_of_through {e : Effect} {k : Uuid} (h : e.through? = some k) :
    e.subject? = some k := by
  cases e with
  | refused id o => cases o <;> first | exact h | cases h
  | _ => first | exact h | cases h

/-! ## Accounts -/

/-- The playbacks accepted so far, in their order. -/
def accepted (x : Exchange) : List Uuid := x.told Effect.entered?

/-- Whether an audio file was made for a playback. -/
def hadFile (id : Uuid) (x : Exchange) : Bool := (x.told Effect.stored?).contains id

theorem Reached.nodup_accepted (h : Reached c asked x) : x.accepted.Nodup := by
  refine nodup_told (fun e k => subject?_of_entered) fun id => ?_
  obtain ⟨i, p, hl⟩ := h.lives id
  rw [hl.life.told_entered]
  split <;> simp

theorem Reached.mem_accepted (h : Reached c asked x) : id ∈ x.accepted ↔ x.story id ≠ [] := by
  obtain ⟨i, p, hl⟩ := h.lives id
  have hlife := hl.life
  rw [accepted, mem_told fun e k => subject?_of_entered, hlife.told_entered]
  constructor
  · intro hmem hnil
    rw [hnil] at hlife
    rw [if_pos hlife.unknown_of_nil] at hmem
    cases hmem
  · intro hne
    rw [if_neg]
    · exact List.mem_singleton_self id
    · rintro rfl
      exact hne hlife.eq_of_unknown

theorem Reached.accepted_of_ending (h : Reached c asked x) {p : Phase}
    (hp : x.ending? id = some p) : id ∈ x.accepted := by
  refine h.mem_accepted.mpr fun hnil => ?_
  rw [ending?, hnil] at hp
  cases hp

/-- As often as an end is told there are playbacks that ended so. -/
theorem Reached.count_ends (h : Reached c asked x) (p : Phase) :
    x.ends.count p = x.accepted.countP (x.ending? · = some p) := by
  have hends : x.ends.count p = (x.told (Effect.endedIn? p)).length := by
    rw [ends, told, List.length_filterMap_eq_countP, List.count, List.countP_filterMap]
    refine List.countP_congr fun n _ => ?_
    cases n.effect with
    | finish id q code fault => by_cases hq : q = p <;> simp [Effect.ending?, Effect.endedIn?, hq]
    | _ => simp [Effect.ending?, Effect.endedIn?]
  have htold : ∀ id, (x.story id).filterMap (·.effect.endedIn? p) =
      if x.ending? id = some p then [id] else [] := fun id => by
    obtain ⟨i, q, hl⟩ := h.lives id
    rw [hl.life.told_ended, hl.ending?]
  have hperm : (x.told (Effect.endedIn? p)).Perm
      (x.accepted.filter (x.ending? · = some p)) := by
    refine (List.perm_ext_iff_of_nodup (nodup_told (fun e k => subject?_of_endedIn) fun id => ?_)
      (h.nodup_accepted.filter _)).mpr fun id => ?_
    · rw [htold]
      split <;> simp
    · rw [mem_told fun e k => subject?_of_endedIn, htold, List.mem_filter, decide_eq_true_eq]
      constructor
      · intro hmem
        split at hmem
        · next hp => exact ⟨h.accepted_of_ending hp, hp⟩
        · cases hmem
      · rintro ⟨-, hp⟩
        rw [if_pos hp]
        exact List.mem_singleton_self id
  rw [hends, hperm.length_eq, List.countP_eq_length_filter]

/-- A sample is taken of each playback that ended and had an audio file, and of no other one. -/
theorem Reached.samples (h : Reached c asked x) (ht : x.Tallied) :
    (x.told Effect.sampled?).Perm
      (x.accepted.filter fun id => (x.ending? id).isSome && x.hadFile id) := by
  have htold : ∀ id, ((x.story id).filterMap (·.effect.tried?)).length ≤ 1 ∧
      (x.story id).filterMap (·.effect.through?) = if (x.ending? id).isSome = true
        then (x.story id).filterMap (·.effect.tried?) else [] := fun id => by
    obtain ⟨i, p, hl⟩ := h.lives id
    rw [hl.ending?]
    exact hl.life.told_tried
  rw [ht.sampled]
  refine (List.perm_ext_iff_of_nodup (nodup_told (fun e k => subject?_of_through) fun id => ?_)
    (h.nodup_accepted.filter _)).mpr fun id => ?_
  · obtain ⟨hone, hthrough⟩ := htold id
    rw [hthrough]
    split
    · exact hone
    · exact Nat.zero_le _
  · obtain ⟨-, hthrough⟩ := htold id
    rw [mem_told fun e k => subject?_of_through, hthrough, List.mem_filter, Bool.and_eq_true,
      hadFile, List.contains_iff_mem, ht.stored, mem_told fun e k => subject?_of_tried]
    constructor
    · intro hmem
      split at hmem
      · next hended =>
        obtain ⟨p, hp⟩ := Option.isSome_iff_exists.mp hended
        exact ⟨h.accepted_of_ending hp, hended, hmem⟩
      · cases hmem
    · rintro ⟨-, hended, hmem⟩
      rw [if_pos hended]
      exact hmem

/-- The records of playbacks that go on are those of the accepted ones that have not ended. -/
theorem Arises.unfinished (h : Arises c x) (hd : x.tracker.Distinct) (hlisted : x.Listed) :
    ((x.tracker.records.filter (!·.phase.isFinished)).map (·.id)).Perm
      (x.accepted.filter (x.ending? · = none)) := by
  refine (List.perm_ext_iff_of_nodup (hd.sublist (List.filter_sublist.map _))
    (h.nodup_accepted.filter _)).mpr fun id => ?_
  rw [List.mem_filter, decide_eq_true_eq, h.mem_accepted]
  constructor
  · intro hmem
    obtain ⟨r, hr, rfl⟩ := List.mem_map.mp hmem
    obtain ⟨hr, hopen⟩ := List.mem_filter.mp hr
    have hfind := (Tracker.find?_eq_some hd).mpr ⟨hr, rfl⟩
    refine ⟨h.known_of_record hfind, ?_⟩
    rw [h.ending?_of_record hfind, if_neg (by simpa using hopen)]
  · rintro ⟨hknown, hopen⟩
    cases hr : x.tracker.find? id with
    | none =>
      obtain ⟨p, hp⟩ := hlisted id hknown hr
      cases hopen.symm.trans hp
    | some r =>
      obtain ⟨hmem, rfl⟩ := (Tracker.find?_eq_some hd).mp hr
      refine List.mem_map.mpr ⟨r, List.mem_filter.mpr ⟨hmem, ?_⟩, rfl⟩
      rw [h.ending?_of_record hr] at hopen
      split at hopen
      · cases hopen
      · next hnot => simpa using hnot

theorem Reached.outcome_of_ending (h : Reached c asked x) {p : Phase}
    (hp : x.ending? id = some p) : p ∈ Phase.outcomes := by
  obtain ⟨i, q, hl⟩ := h.lives id
  rw [hl.ending?] at hp
  cases q with
  | settled v =>
    cases hp
    exact Phase.mem_outcomes.mpr v.isFinished_phase
  | _ => cases hp

/-- Everybody has one end, or none. -/
theorem length_by_ending {ids : List Uuid} {ending : Uuid → Option Phase}
    (h : ∀ id p, ending id = some p → p ∈ Phase.outcomes) :
    ids.length = (Phase.outcomes.map fun p => ids.countP (ending · = some p)).sum +
      ids.countP (ending · = none) := by
  induction ids with
  | nil => rfl
  | cons id ids ih =>
    cases hend : ending id with
    | none =>
      simp only [Phase.outcomes, List.map_cons, List.map_nil, List.sum_cons, List.sum_nil,
        List.countP_cons, hend, List.length_cons] at ih ⊢
      simp
      omega
    | some p =>
      have hp := h id p hend
      simp only [Phase.outcomes, List.map_cons, List.map_nil, List.sum_cons, List.sum_nil,
        List.countP_cons, hend, List.length_cons] at ih ⊢
      simp only [Phase.outcomes, List.mem_cons, List.not_mem_nil, or_false] at hp
      rcases hp with rfl | rfl | rfl | rfl <;> simp <;> omega

theorem told_prefix (h : x.journal <+: x'.journal) (f : Effect → Option Uuid) :
    x.told f <+: x'.told f := h.filterMap _

end Exchange

namespace Broker

open Exchange (Arises)

variable {b b' : Broker} {id : Uuid}

theorem Evolves.journal (h : Evolves b b') : b.exchange.journal <+: b'.exchange.journal := by
  induction h with
  | refl => exact List.prefix_refl _
  | tail _ hlast ih =>
    rcases hlast.exchange with heq | hbeat
    · exact heq ▸ ih
    · exact ih.trans hbeat.journal

/-- No playback is accepted but when it is asked for. -/
theorem GoesOn.accepted (h : GoesOn b b') (hb : Arises b.setup.play b.exchange) :
    b'.exchange.accepted = b.exchange.accepted := by
  have hb' := h.evolves.exchange.arises hb
  obtain ⟨rest, hrest⟩ := Exchange.told_prefix h.evolves.journal Effect.entered?
  suffices hnil : rest = [] by
    rw [Exchange.accepted, ← hrest, hnil, List.append_nil]
    rfl
  refine List.eq_nil_iff_forall_not_mem.mpr fun id hid => ?_
  have hnodup := hb'.nodup_accepted
  rw [Exchange.accepted, ← hrest] at hnodup
  have hnew : id ∉ b.exchange.accepted := fun hold =>
    (List.nodup_append.mp hnodup).2.2 id hold id hid rfl
  have hmem : id ∈ b'.exchange.accepted := by
    rw [Exchange.accepted, ← hrest]
    exact List.mem_append_right _ hid
  rw [hb.mem_accepted, not_not] at hnew
  exact hb'.mem_accepted.mp hmem (h.unheard id hnew)

theorem accepted_enter {i : Nat} {s : Session} {r : Request} (hi : b.session? i = some s) :
    (b.enter i r).exchange.accepted = b.exchange.accepted ++ [r.id] := by
  have heq : (b.enter i r).exchange = [Effect.enter r.id s.port].foldl (Exchange.perform i) _ :=
    Exchange.stepSession_some (f := (·.enter b.setup.play b.now r)) hi
  rw [Exchange.accepted, heq, Exchange.told_performs]
  rfl

/-- What is accepted is what the answers to whoever asks for playbacks tell. -/
theorem accepted_play (hb : Arises b.setup.play b.exchange) (port : Port) (payload : ByteArray)
    (format : Option String) (hnew : b.exchange.story id = []) :
    (b.play port payload format id).2.exchange.accepted =
      b.exchange.accepted ++ (b.play port payload format id).1.toOption.toList := by
  cases hplay : (b.play port payload format id).1 with
  | error e =>
    have hsame : (b.play port payload format id).2.exchange = b.exchange :=
      Exchange.play_error hplay
    rw [hsame]
    exact (List.append_nil _).symm
  | ok id' =>
    obtain ⟨rfl, i, s, r, hi, -, hid, henter, hlooked, -⟩ := play_enters hplay hnew
    have harises := (Evolves.exchange (.single henter)).arises hb
    rw [(hlooked.goesOn harises).accepted harises, accepted_enter hi, hid]
    rfl

/-- Each end is counted as often as accepted playbacks have ended so, and nothing else is. The
accepted playbacks are those that the counts tell, and those whose records show that they wait or
stream. There is a sample for each that has ended and had an audio file, and no other one. -/
theorem playbacks_accounted (hb : Reachable b) :
    b.exchange.accepted.Nodup ∧
    (∀ p ∈ Phase.outcomes, b.exchange.metrics.playbacks.count [p.label] =
      b.exchange.accepted.countP (b.exchange.ending? · = some p)) ∧
    (∀ ls ∈ b.exchange.metrics.playbacks.series.map (·.1),
      ∃ p ∈ Phase.outcomes, ls = [p.label]) ∧
    b.exchange.accepted.length =
      (Phase.outcomes.map fun p => b.exchange.metrics.playbacks.count [p.label]).sum +
        b.exchange.tracker.records.countP (fun r => r.phase = .waiting ∨ r.phase = .streaming) ∧
    b.exchange.metrics.streamSeconds.samples = (b.exchange.told Effect.sampled?).length ∧
    (b.exchange.told Effect.sampled?).Perm (b.exchange.accepted.filter fun id =>
      (b.exchange.ending? id).isSome && b.exchange.hadFile id) ∧
    (∀ id r, b.status? id = some r →
      b.exchange.ending? id = if r.phase.isFinished = true then some r.phase else none) ∧
    (∀ port payload format id, b.exchange.story id = [] →
      (b.play port payload format id).2.exchange.accepted =
        b.exchange.accepted ++ (b.play port payload format id).1.toOption.toList) := by
  have hx := hb.arises
  have ht := hb.tallied
  have hcount : ∀ p, b.exchange.metrics.playbacks.count [p.label] =
      b.exchange.accepted.countP (b.exchange.ending? · = some p) := fun p => by
    rw [ht.playbacks, Family.count_tally, hx.count_ends]
    exact Nat.zero_add _
  refine ⟨hx.nodup_accepted, fun p _ => hcount p, fun ls hls => ?_, ?_, ht.samples, hx.samples ht,
    fun id r hr => hx.ending?_of_record hr,
    fun port payload format id hnew => accepted_play hx port payload format hnew⟩
  · rw [ht.playbacks] at hls
    rcases Family.mem_tally hls with hls | ⟨p, hp, rfl⟩
    · cases hls
    · rw [← List.count_pos_iff, hx.count_ends] at hp
      obtain ⟨id, -, hend⟩ := List.countP_pos_iff.mp hp
      exact ⟨p, hx.outcome_of_ending (by simpa using hend), rfl⟩
  · have hopen : b.exchange.tracker.records.countP
        (fun r => r.phase = .waiting ∨ r.phase = .streaming) =
        b.exchange.accepted.countP (b.exchange.ending? · = none) := by
      rw [List.countP_eq_length_filter, List.countP_eq_length_filter,
        ← (hx.unfinished hb.distinct hb.listed).length_eq, List.length_map]
      congr 2
      funext r
      cases r.phase <;> rfl
    simp only [hcount]
    rw [hopen]
    exact Exchange.length_by_ending fun id p hp => hx.outcome_of_ending hp

/-- One playback waits in vain, one has no room for its file, two programs end, and of the last two
playbacks one streams and one is in line when their session is released. A sweep drops all
records. -/
def sixEnds : List Event := [
  .openSession ⟨fun _ _ => 10002, fun _ _ => none⟩, .play 10002 ⟨#[1]⟩ none ⟨1⟩, .advance 5000,
  .receive 0 ⟨.v4 192 0 2 1, 5004, 0⟩, .play 10002 ⟨#[2]⟩ none ⟨2⟩, .play 10002 ⟨#[3]⟩ none ⟨3⟩,
  .play 10002 ⟨#[4]⟩ none ⟨4⟩, .play 10002 ⟨#[5]⟩ none ⟨5⟩, .play 10002 ⟨#[6]⟩ none ⟨6⟩,
  .endProgram 0 (.exit (some 0)) false, .endProgram 0 (.exit (some 1)) false, .release 10002,
  .startReaper 1000 none 0, .advance 1000]

def crowdedSetup : BrokerSetup where
  low := 10000
  high := 10007
  play := { host := {
    directories := ["/tmp"]
    fileMishap? := fun id =>
      if id = ⟨4⟩ then some "No space left on device (os error 28)" else none } }

theorem playbacks_accounted_sixEnds :
    ∃ b₀, start crowdedSetup ⟨0, 0⟩ = .ok b₀ ∧
      (b₀.run (sixEnds.take 11)).exchange.accepted.length = 1 + 2 + 1 + 0 + 2 ∧
      (b₀.run sixEnds).exchange.accepted.length = 6 ∧
      (b₀.run sixEnds).exchange.tracker.records = [] ∧
      (b₀.run sixEnds).exchange.accepted.countP
        ((b₀.run sixEnds).exchange.ending? · = some .cancelled) = 2 ∧
      ((b₀.run sixEnds).exchange.told Effect.sampled?).length = 3 := by
  obtain ⟨b₀, hstart, hcounts, hopen, hcounts', hrecords, hsamples⟩ :
      ∃ b₀, start crowdedSetup ⟨0, 0⟩ = .ok b₀ ∧
        Phase.outcomes.map (fun p => (b₀.run (sixEnds.take 11)).exchange.metrics.playbacks.count
          [p.label]) = [1, 2, 1, 0] ∧
        (b₀.run (sixEnds.take 11)).exchange.tracker.records.countP
          (fun r => r.phase = .waiting ∨ r.phase = .streaming) = 2 ∧
        Phase.outcomes.map (fun p => (b₀.run sixEnds).exchange.metrics.playbacks.count
          [p.label]) = [1, 2, 1, 2] ∧
        (b₀.run sixEnds).exchange.tracker.records = [] ∧
        (b₀.run sixEnds).exchange.metrics.streamSeconds.samples = 3 :=
    ⟨_, rfl, by decide +kernel, by decide +kernel, by decide +kernel, by decide +kernel,
      by decide +kernel⟩
  have hfair := fair_of_draw sixEnds 10002 hstart (by decide) (by simp [sixEnds])
  have hreachable := run_take_reachable hstart hfair (by decide)
  obtain ⟨-, -, -, hsum, -⟩ := playbacks_accounted (hreachable 11)
  obtain ⟨-, hcount, -, hsum', hsampled, -⟩ := playbacks_accounted (hreachable 14)
  refine ⟨b₀, hstart, ?_, ?_, hrecords, ?_, hsampled.symm.trans hsamples⟩
  · rw [hsum, hcounts, hopen]
    rfl
  · refine hsum'.trans ?_
    rw [show sixEnds.take 14 = sixEnds from rfl, hcounts', hrecords]
    rfl
  · refine (hcount .cancelled (by decide)).symm.trans ?_
    simp only [Phase.outcomes, List.map_cons, List.cons.injEq] at hcounts'
    exact hcounts'.2.2.2.1

end Broker

end RtpBroker
