import RtpBroker.Proofs.Decisions

/-!
# The outcomes of playbacks

What becomes of a playback depends on what happened first in its session. The
record of a playback that is over shows the one cause that was given in the run,
and each of its phases is shown if and only if the cause for it was given.
-/

namespace RtpBroker.Exchange

variable {c : PlaySetup} {calendar : Timestamp} {events : List Event} {x : Exchange} {i : Nat}
  {id : Uuid}

theorem Fresh.inj {e e' : Event} (hfresh : Fresh events) (he : e ∈ events) (he' : e' ∈ events)
    (hid : e.playback? = some id) (hid' : e'.playback? = some id) : e = e' := by
  induction events with
  | nil => cases he
  | cons a events ih =>
    obtain ⟨hrest, hapart⟩ := nodup_filterMap_cons.mp hfresh
    have hfirst : ∀ b ∈ events, b.playback? = some id → a.playback? ≠ some id :=
      fun b hb hb' ha => hapart id ha (List.mem_filterMap.mpr ⟨b, hb, hb'⟩)
    rcases List.mem_cons.mp he with rfl | hmem <;> rcases List.mem_cons.mp he' with rfl | hmem'
    · rfl
    · exact absurd hid (hfirst e' hmem' hid')
    · exact absurd hid' (hfirst e hmem hid)
    · exact ih hrest hmem hmem'

theorem Asked.unique {r r' : Request} (hfresh : Fresh events) (h : Asked events r)
    (h' : Asked events r') (hid : r.id = r'.id) : r = r' := by
  obtain ⟨port, format, hmem, hformat⟩ := h
  obtain ⟨port', format', hmem', hformat'⟩ := h'
  have heq := hfresh.inj hmem hmem' rfl (congrArg some hid.symm)
  cases r
  cases r'
  simp_all

/-- Who is over was refused by the machine if it had its turn and cannot be launched. -/
theorem marked_refusal {v : Verdict} (hfresh : Fresh events) (h : Rests c (Asked events) x)
    (hl : Lives c x i id (.settled v)) (o : Outcome) :
    x.Marked id (.refusal o) ↔ Refuses c events id o x := by
  have hsession := hl.life.session_eq
  have hwarranted : ∀ n ∈ x.story id, ∃ s, x.sessions[i]? = some s ∧
      n.effect.Warranted c (Asked events) s := fun n hn =>
    hsession n hn ▸ h.reached.warranted n (mem_journal_of_story hn)
  constructor
  · intro hmark
    obtain ⟨n, hn, heq⟩ := marked_iff_story.mp hmark
    obtain ⟨s, hs, hrefused⟩ := hwarranted n hn
    rw [heq] at hrefused
    obtain ⟨now, target, r, file?, htarget, hasked, hid, hlaunch⟩ := hrefused
    obtain ⟨t, ht⟩ := hl.life.phase_of_refused hn heq
    exact ⟨t, i, s, r, target, file?, mem_journal_of_story ht, hs, htarget, hasked, hid,
      Session.launch_error_congr c now hlaunch⟩
  · rintro ⟨t, j, s, r, target, file?, hphase, hs, htarget, hasked, rfl, hlaunch⟩
    have hmem := mem_story r.id hphase rfl
    obtain rfl : j = i := hsession _ hmem
    -- What was asked for is the same request, and its launch fails at one time as at another.
    rcases hl.life.refused_or_launched hmem with ⟨t', o', hn⟩ | ⟨t', arguments, hn⟩
    · obtain ⟨s', hs', now, target', r', file?', htarget', hasked', hid, hlaunch'⟩ :=
        hwarranted _ hn
      obtain rfl : s = s' := Option.some.inj (hs.symm.trans hs')
      obtain rfl : target = target' := Option.some.inj (htarget.symm.trans htarget')
      obtain rfl := hasked'.unique hfresh hasked hid
      cases hlaunch.symm.trans (Session.launch_error_congr c now hlaunch')
      exact ⟨_, mem_journal_of_story hn, rfl⟩
    · obtain ⟨s', hs', now, target', r', st, htarget', hasked', hid, hlaunch', -⟩ :=
        hwarranted _ hn
      obtain rfl : s = s' := Option.some.inj (hs.symm.trans hs')
      obtain rfl : target = target' := Option.some.inj (htarget.symm.trans htarget')
      obtain rfl := hasked'.unique hfresh hasked hid
      cases (Session.launch_error_congr c t hlaunch).symm.trans hlaunch'

/-- The marks after a run are those of the causes that were given in it. -/
theorem marked_iff_decided {v : Verdict} (hfresh : Fresh events)
    (hl : Lives c (run c events { calendar }) i id (.settled v)) (cause : Cause) :
    (run c events { calendar }).Marked id cause ↔ Decided c calendar events id cause := by
  have hstart : ∀ cause, ¬ Marked id cause { calendar } := by simp [Marked]
  cases cause with
  | lapse =>
    exact run_iff_exists (hstart _) fun before e after heq =>
      marked_lapse (rests_split hfresh heq).1 (rests_split hfresh heq).2
  | closure => exact run_iff_exists (hstart _) fun _ _ _ _ => marked_closure _ _
  | refusal o =>
    exact marked_refusal hfresh (run_rests calendar hfresh (List.append_nil _).symm).1 hl o
  | ending ending => exact run_iff_exists (hstart _) fun _ _ _ _ => marked_ending _ _ ending

/-- A playback that is over is so for one cause that was given in the run, and its record shows
that cause. -/
theorem exists_decided (c : PlaySetup) (calendar : Timestamp) {events : List Event}
    (hfresh : Fresh events) {r : PlaybackStatus}
    (hr : r ∈ (run c events { calendar }).tracker.records) (hfinished : r.finished.isSome = true) :
    ∃ cause : Cause, r.digest = cause.digest c ∧
      ∀ cause', Decided c calendar events r.id cause' ↔ cause' = cause := by
  have hrests := (run_rests (c := c) calendar hfresh (List.append_nil _).symm).1
  obtain ⟨i, p, hl⟩ := hrests.reached.lives r.id
  have hshows := hl.shows r hr rfl
  obtain ⟨v, rfl⟩ : ∃ v, p = .settled v := by
    cases p with
    | settled v => exact ⟨v, rfl⟩
    | unknown => cases hshows
    | _ =>
      have hflag := congrArg Digest.isFinished (Option.some.inj hshows)
      exact absurd (hflag.trans hfinished) (by simp)
  refine ⟨v.cause, ?_, fun cause => ?_⟩
  · rw [Verdict.digest_cause]
    exact (Option.some.inj hshows).symm
  · exact (marked_iff_decided hfresh hl cause).symm.trans
      (marked_iff_story.trans (hl.life.marks_iff cause))

/-- In a run every program of which can be waited for, none is decided otherwise. -/
theorem not_decided_unawaited {reason : String}
    (hawaited : ∀ i reason held, .endProgram i (.unawaited reason) held ∉ events) :
    ¬ Decided c calendar events id (.ending (.unawaited reason)) := by
  rintro ⟨_, _, ⟨before, after, rfl, rfl⟩, i, s, st, held, rfl, -⟩
  exact hawaited i reason held (by simp)

/-- Each phase in which a playback can be over is shown if and only if the cause for it was given,
and there is one cause. A playback has failed if the machine refused it, if its program ended by
itself without success, or if it could not be waited for. -/
theorem outcome_decided (c : PlaySetup) (calendar : Timestamp) {events : List Event}
    (hfresh : Fresh events) {r : PlaybackStatus}
    (hr : r ∈ (run c events { calendar }).tracker.records) (hfinished : r.finished.isSome = true) :
    (∃ cause, r.digest = cause.digest c ∧
      ∀ cause', Decided c calendar events r.id cause' ↔ cause' = cause) ∧
    (r.phase = .timedOut ↔ Decided c calendar events r.id .lapse) ∧
    (r.phase = .cancelled ↔ Decided c calendar events r.id .closure) ∧
    (r.phase = .failed ↔ (∃ o, Decided c calendar events r.id (.refusal o)) ∨
      (∃ code, code ≠ some 0 ∧ Decided c calendar events r.id (.ending (.exit code))) ∨
      ∃ reason, Decided c calendar events r.id (.ending (.unawaited reason))) ∧
    (r.phase = .completed ↔ Decided c calendar events r.id (.ending (.exit (some 0)))) ∧
    ((∀ i reason held, .endProgram i (.unawaited reason) held ∉ events) →
      (r.phase = .failed ↔ (∃ o, Decided c calendar events r.id (.refusal o)) ∨
        ∃ code, code ≠ some 0 ∧ Decided c calendar events r.id (.ending (.exit code)))) := by
  obtain ⟨cause, hdigest, hunique⟩ := exists_decided c calendar hfresh hr hfinished
  have hphase : r.phase = (cause.digest c).phase := congrArg Digest.phase hdigest
  have hfailed : r.phase = .failed ↔ (∃ o, Decided c calendar events r.id (.refusal o)) ∨
      (∃ code, code ≠ some 0 ∧ Decided c calendar events r.id (.ending (.exit code))) ∨
      ∃ reason, Decided c calendar events r.id (.ending (.unawaited reason)) := by
    rw [hphase, Cause.failed_iff]
    simp only [hunique, eq_comm]
  refine ⟨⟨cause, hdigest, hunique⟩, ?_, ?_, hfailed, ?_, fun hawaited => hfailed.trans ?_⟩
  · rw [hphase, Cause.timedOut_iff, hunique, eq_comm]
  · rw [hphase, Cause.cancelled_iff, hunique, eq_comm]
  · rw [hphase, Cause.completed_iff, hunique, eq_comm]
  · have hnone : ¬ ∃ reason, Decided c calendar events r.id (.ending (.unawaited reason)) :=
      fun ⟨_, h⟩ => not_decided_unawaited hawaited h
    rw [or_iff_left hnone]

/-- One playback waits in vain. After a datagram three have the stream one after the other: a
program fails, one ends well, and one cannot be waited for. When the session is closed there is one
more that streams, and one in line. -/
def everyWay : List Event := [
  .create 40000, .play 40000 ⟨#[1]⟩ none ⟨1⟩, .advance 1000, .receive 0 ⟨.v4 192 0 2 1, 5004, 0⟩,
  .play 40000 ⟨#[2]⟩ none ⟨2⟩, .endProgram 0 (.exit (some 3)) false,
  .play 40000 ⟨#[3]⟩ none ⟨3⟩, .endProgram 0 (.exit (some 0)) false,
  .play 40000 ⟨#[4]⟩ none ⟨4⟩, .endProgram 0 (.unawaited "No child processes (os error 10)") false,
  .play 40000 ⟨#[5]⟩ none ⟨5⟩, .play 40000 ⟨#[6]⟩ none ⟨6⟩, .close 0]

def everyWaySetup : PlaySetup where
  ceiling := 1000
  host := { directories := ["/tmp"] }

theorem outcome_decided_everyWay :
    Fresh everyWay ∧
    (run everyWaySetup everyWay { calendar := ⟨0, 0⟩ }).tracker.records.map
        (fun r => (r.id, r.phase, r.exitCode, r.finished.isSome)) =
      [(⟨1⟩, .timedOut, none, true), (⟨2⟩, .failed, some 3, true), (⟨3⟩, .completed, some 0, true),
        (⟨4⟩, .failed, none, true), (⟨5⟩, .cancelled, none, true), (⟨6⟩, .cancelled, none, true)] ∧
    Decided everyWaySetup ⟨0, 0⟩ everyWay ⟨1⟩ .lapse ∧
    Decided everyWaySetup ⟨0, 0⟩ everyWay ⟨2⟩ (.ending (.exit (some 3))) ∧
    Decided everyWaySetup ⟨0, 0⟩ everyWay ⟨3⟩ (.ending (.exit (some 0))) ∧
    ((∃ o, Decided everyWaySetup ⟨0, 0⟩ everyWay ⟨4⟩ (.refusal o)) ∨
      (∃ code, code ≠ some 0 ∧ Decided everyWaySetup ⟨0, 0⟩ everyWay ⟨4⟩ (.ending (.exit code))) ∨
      ∃ reason, Decided everyWaySetup ⟨0, 0⟩ everyWay ⟨4⟩ (.ending (.unawaited reason))) ∧
    Decided everyWaySetup ⟨0, 0⟩ everyWay ⟨5⟩ .closure ∧
    Decided everyWaySetup ⟨0, 0⟩ everyWay ⟨6⟩ .closure := by
  have hfresh : Fresh everyWay := by
    unfold Fresh
    decide
  have hrecords : (run everyWaySetup everyWay { calendar := ⟨0, 0⟩ }).tracker.records.map
        (fun r => (r.id, r.phase, r.exitCode, r.finished.isSome)) =
      [(⟨1⟩, .timedOut, none, true), (⟨2⟩, .failed, some 3, true), (⟨3⟩, .completed, some 0, true),
        (⟨4⟩, .failed, none, true), (⟨5⟩, .cancelled, none, true),
        (⟨6⟩, .cancelled, none, true)] := by decide +kernel
  have hfind : ∀ row ∈ _, ∃ r ∈ (run everyWaySetup everyWay { calendar := ⟨0, 0⟩ }).tracker.records,
      (r.id, r.phase, r.exitCode, r.finished.isSome) = row :=
    fun row hrow => List.mem_map.mp (hrecords ▸ hrow)
  obtain ⟨r₁, hr₁, heq₁⟩ := hfind (⟨1⟩, .timedOut, none, true) (by decide)
  obtain ⟨r₂, hr₂, heq₂⟩ := hfind (⟨2⟩, .failed, some 3, true) (by decide)
  obtain ⟨r₃, hr₃, heq₃⟩ := hfind (⟨3⟩, .completed, some 0, true) (by decide)
  obtain ⟨r₄, hr₄, heq₄⟩ := hfind (⟨4⟩, .failed, none, true) (by decide)
  obtain ⟨r₅, hr₅, heq₅⟩ := hfind (⟨5⟩, .cancelled, none, true) (by decide)
  obtain ⟨r₆, hr₆, heq₆⟩ := hfind (⟨6⟩, .cancelled, none, true) (by decide)
  simp only [Prod.mk.injEq] at heq₁ heq₂ heq₃ heq₄ heq₅ heq₆
  obtain ⟨-, hlapse, -⟩ := outcome_decided everyWaySetup ⟨0, 0⟩ hfresh hr₁ heq₁.2.2.2
  obtain ⟨⟨cause, hdigest, hcause⟩, -⟩ :=
    outcome_decided everyWaySetup ⟨0, 0⟩ hfresh hr₂ heq₂.2.2.2
  obtain ⟨-, -, -, -, hdone, -⟩ := outcome_decided everyWaySetup ⟨0, 0⟩ hfresh hr₃ heq₃.2.2.2
  obtain ⟨-, -, -, hfailed, -⟩ := outcome_decided everyWaySetup ⟨0, 0⟩ hfresh hr₄ heq₄.2.2.2
  obtain ⟨-, -, hstreaming, -⟩ := outcome_decided everyWaySetup ⟨0, 0⟩ hfresh hr₅ heq₅.2.2.2
  obtain ⟨-, -, hinLine, -⟩ := outcome_decided everyWaySetup ⟨0, 0⟩ hfresh hr₆ heq₆.2.2.2
  have hcode : (cause.digest everyWaySetup).exitCode = some 3 := hdigest ▸ heq₂.2.2.1
  refine ⟨hfresh, hrecords, ?_, ?_, ?_, ?_, ?_, ?_⟩
  · exact heq₁.1 ▸ hlapse.mp heq₁.2.1
  · rw [← heq₂.1, hcause]
    exact (Cause.eq_of_exitCode hcode).symm
  · exact heq₃.1 ▸ hdone.mp heq₃.2.1
  · exact heq₄.1 ▸ hfailed.mp heq₄.2.1
  · exact heq₅.1 ▸ hstreaming.mp heq₅.2.1
  · exact heq₆.1 ▸ hinLine.mp heq₆.2.1

/-- A playback can fail without a refusal of the machine, and without an end of its program that
anybody knows of. -/
theorem not_failed_as_ended :
    ¬ ∀ (c : PlaySetup) (calendar : Timestamp) (events : List Event), Fresh events →
      ∀ r ∈ (run c events { calendar }).tracker.records, r.finished.isSome = true →
        (r.phase = .failed ↔ (∃ o, Decided c calendar events r.id (.refusal o)) ∨
          ∃ code, code ≠ some 0 ∧ Decided c calendar events r.id (.ending (.exit code))) := by
  intro h
  let reason := "No child processes (os error 10)"
  let before : List Event := [
    .create 40000, .receive 0 ⟨.v4 192 0 2 1, 5004, 0⟩, .play 40000 ⟨#[4]⟩ none ⟨4⟩]
  let events := before ++ [.endProgram 0 (.unawaited reason) false]
  have hfresh : Fresh events := by
    unfold Fresh
    decide
  have hrecords : (run everyWaySetup events { calendar := ⟨0, 0⟩ }).tracker.records.map
      (fun r => (r.id, r.phase, r.finished.isSome)) = [(⟨4⟩, .failed, true)] := by decide +kernel
  obtain ⟨r, hr, heq⟩ := List.mem_map.mp (hrecords ▸ List.mem_singleton_self _)
  simp only [Prod.mk.injEq] at heq
  obtain ⟨hid, hfailed, hfinished⟩ := heq
  obtain ⟨cause, -, hcause⟩ := exists_decided everyWaySetup ⟨0, 0⟩ hfresh hr hfinished
  have hslot : (((run everyWaySetup before { calendar := ⟨0, 0⟩ }).sessions[0]?).bind
      (·.slot)).map (fun st => (st.id, st.program)) = some (⟨4⟩, .running) := by decide +kernel
  obtain ⟨st, hst, hrunning⟩ := Option.map_eq_some_iff.mp hslot
  obtain ⟨s, hs, hst⟩ := Option.bind_eq_some_iff.mp hst
  have hunawaited : Decided everyWaySetup ⟨0, 0⟩ events r.id (.ending (.unawaited reason)) := by
    rw [hid]
    exact ⟨_, _, ⟨before, [], rfl, rfl⟩, 0, s, st, false, rfl, hs, hst, congrArg Prod.fst hrunning,
      congrArg Prod.snd hrunning⟩
  obtain rfl := (hcause _).mp hunawaited
  rcases (h everyWaySetup ⟨0, 0⟩ events hfresh r hr hfinished).mp hfailed with
    ⟨o, ho⟩ | ⟨code, -, hcode⟩
  · cases (hcause _).mp ho
  · cases (hcause _).mp hcode

end RtpBroker.Exchange
