import RtpBroker.Proofs.Lines

/-!
# What the acceptance of a playback changes

An accepted playback gets one record in the tracker, and one task and one place in its
session, where it takes its first steps at once: it waits for the address of the peer or
for the stream, has the stream, or is over already. Nothing else changes in the other
sessions and records.
-/

namespace RtpBroker

namespace Session

variable {c : PlaySetup} {now : Nat} {r : Request} {s s' : Session} {es : List Effect}

/-- How far an accepted playback comes at once, and what the session is then. -/
inductive Takes (s : Session) (c : PlaySetup) (now : Nat) (r : Request) :
    Session → List Effect → Prop
  | waits (hremote : s.remote = none) (hpos : 0 < c.ceiling) :
      Takes s c now r
        { s.register r.id with lastActive := now, waiting := s.waiting ++ [⟨r, now + c.ceiling⟩] }
        [.enter r.id s.port, .alarm (nextLook c now (now + c.ceiling)) r.id]
  | lapses (hremote : s.remote = none) (hzero : c.ceiling = 0) :
      Takes s c now r { s.register r.id with lastActive := now }
        [.enter r.id s.port, .finish r.id .timedOut none
          (some (.remoteUnknown (UInt64.ofNat c.ceiling)))]
  | queues {st : Streaming} (hslot : s.slot = some st) :
      Takes s c now r { s.register r.id with lastActive := now, line := s.line ++ [r] }
        [.enter r.id s.port]
  | begins {target : SocketAddr} (hremote : s.remote = some target) (hslot : s.slot = none) :
      Takes s c now r
        ({ s.register r.id with
          lastActive := now, slot := (begin c now s.port target r).1 }.advanceTo .streaming)
        (.enter r.id s.port :: (begin c now s.port target r).2)

theorem serve_singleton (c : PlaySetup) (now : Nat) (port : Port) (target : SocketAddr)
    (r : Request) : serve c now port target [r] =
      ((begin c now port target r).1, [], (begin c now port target r).2) := by
  rw [serve_cons]
  rcases begin c now port target r with ⟨_ | st, es⟩
  · simp [serve_nil]
  · rfl

theorem accept_takes (hs : s.Orderly) (hnew : r.id ∉ s.queued) :
    Takes s c now r (s.accept c now r).1 (s.accept c now r).2 := by
  have hrest : s.waiting.filter (·.request.id != r.id) = s.waiting := by
    refine List.filter_eq_self.mpr fun w hw => ?_
    have hne : w.request.id ≠ r.id := fun heq =>
      hnew (List.mem_append_left _ (heq ▸ List.mem_map_of_mem hw))
    simpa using hne
  cases hremote : s.remote with
  | none =>
    by_cases hzero : c.ceiling = 0
    · have heq : s.accept c now r = ({ s.register r.id with lastActive := now },
          [.enter r.id s.port, .finish r.id .timedOut none
            (some (.remoteUnknown (UInt64.ofNat c.ceiling)))]) := by
        simp [accept, enter, register, look, hremote, hrest, hzero]
      rw [heq]
      exact .lapses hremote hzero
    · have hpos := Nat.pos_of_ne_zero hzero
      have hlater : ¬ now + c.ceiling ≤ now := by omega
      have heq : s.accept c now r =
          ({ s.register r.id with
              lastActive := now, waiting := s.waiting ++ [⟨r, now + c.ceiling⟩] },
            [.enter r.id s.port, .alarm (nextLook c now (now + c.ceiling)) r.id]) := by
        simp [accept, enter, register, look, hremote, hlater]
      rw [heq]
      exact .waits hremote hpos
  | some target =>
    cases hslot : s.slot with
    | some st =>
      have heq : s.accept c now r =
          ({ s.register r.id with lastActive := now, line := s.line ++ [r] },
            [.enter r.id s.port]) := by
        simp [accept, enter, register, look, handOver, hremote, hrest, hslot]
      rw [heq]
      exact .queues hslot
    | none =>
      -- The stream is free, so nobody is in line for it.
      have hline := hs.free hslot
      have heq : s.accept c now r =
          ({ s.register r.id with
            lastActive := now, slot := (begin c now s.port target r).1 }.advanceTo .streaming,
            .enter r.id s.port :: (begin c now s.port target r).2) := by
        simp [accept, enter, register, look, handOver, hremote, hrest, hslot, hline,
          serve_singleton]
      rw [heq]
      exact .begins hremote hslot

/-- Where a playback stands that has just been accepted: it is one more that waits, it has the
stream, or it is over and the session has nothing more to do than before. -/
inductive Stage (s : Session) (fresh : PlaybackStatus) (s' : Session) : PlaybackStatus → Prop
  | waits (hqueued : s'.queued.Perm (fresh.id :: s.queued)) (hslot : s'.slot = s.slot) :
      Stage s fresh s' fresh
  | streams {st : Streaming} (hqueued : s'.queued = s.queued) (hfree : s.slot = none)
      (hslot : s'.slot = some st) (hid : st.id = fresh.id) :
      Stage s fresh s' { fresh with phase := .streaming }
  | over (phase : Phase) (exitCode : Option Int) (fault : Option String)
      (hphase : phase.isFinished = true) (hqueued : s'.queued = s.queued)
      (hslot : s'.slot = s.slot) :
      Stage s fresh s' { fresh with phase, exitCode, fault, finished := some fresh.accepted }

theorem endPhase_isFinished (o : Outcome) : (endPhase o).isFinished = true := by
  unfold endPhase
  split
  · rfl
  · split <;> rfl

end Session

namespace Tracker

variable {t : Tracker} {id : Uuid} {old : List PlaybackStatus} {r : PlaybackStatus}

theorem enter_new (hnew : ∀ q ∈ t.records, q.id ≠ id) (port : Port) (now : Timestamp) :
    t.enter id port now = ⟨t.records ++ [.fresh id port now]⟩ := by
  have hkept : t.records.filter (·.id != id) = t.records :=
    List.filter_eq_self.mpr fun q hq => by simpa using hnew q hq
  rw [enter, hkept]

theorem update_last (hold : ∀ q ∈ old, q.id ≠ id) (hid : r.id = id)
    (f : PlaybackStatus → PlaybackStatus) : update id f ⟨old ++ [r]⟩ = ⟨old ++ [f r]⟩ := by
  have hkept : old.map (fun q => if q.id = id then f q else q) = old := by
    have hsame : ∀ q ∈ old, (if q.id = id then f q else q) = q := fun q hq => if_neg (hold q hq)
    rw [List.map_congr_left hsame, List.map_id']
  simp [update, hkept, hid]

/-- What an effect of a session makes of the tracker. -/
def note (now : Timestamp) (t : Tracker) : Effect → Tracker
  | .enter id port => t.enter id port now
  | .phase id phase => t.setPhase id phase
  | .finish id phase exitCode fault => t.finish id phase exitCode (fault.map Fault.message) now
  | _ => t

theorem notes_still {now : Timestamp} {es : List Effect} (h : ∀ e ∈ es, ∀ t, note now t e = t)
    (t : Tracker) : es.foldl (note now) t = t := by
  induction es with
  | nil => rfl
  | cons e es ih =>
    obtain ⟨he, hes⟩ := List.forall_mem_cons.mp h
    rw [List.foldl_cons, he t, ih hes]

end Tracker

namespace Exchange

variable {x : Exchange} {i : Nat}

theorem calendar_performs (es : List Effect) :
    (es.foldl (perform i) x).calendar = x.calendar := by
  induction es generalizing x with
  | nil => rfl
  | cons e es ih => exact ih.trans (by cases e <;> rfl)

theorem tracker_performs (es : List Effect) :
    (es.foldl (perform i) x).tracker = es.foldl (Tracker.note x.calendar) x.tracker := by
  induction es generalizing x with
  | nil => rfl
  | cons e es ih =>
    have hcalendar : (x.perform i e).calendar = x.calendar := calendar_performs [e]
    have htracker : (x.perform i e).tracker = x.tracker.note x.calendar e := by cases e <;> rfl
    rw [List.foldl_cons, List.foldl_cons, ih, hcalendar, htracker]

/-- A playback of which nothing is known has no record. -/
theorem Reached.unfiled {c : PlaySetup} {asked : Request → Prop} {id : Uuid}
    (h : Reached c asked x) (hnew : x.story id = []) : ∀ q ∈ x.tracker.records, q.id ≠ id := by
  intro q hq hid
  obtain ⟨i, p, hlives⟩ := h.lives id
  have hlife := hlives.life
  rw [hnew] at hlife
  have hshown := hlives.shows q hq hid
  rw [hlife.unknown_of_nil] at hshown
  cases hshown

end Exchange

namespace Session

variable {c : PlaySetup} {now : Nat} {calendar : Timestamp} {t : Tracker} {r : Request}
  {s s' : Session} {es : List Effect}

/-- The tracker gets one record, which shows how far the playback has come. -/
theorem Takes.records (h : Takes s c now r s' es) (hnew : ∀ q ∈ t.records, q.id ≠ r.id)
    (calendar : Timestamp) : ∃ q, es.foldl (Tracker.note calendar) t = ⟨t.records ++ [q]⟩ ∧
      Stage s (.fresh r.id s.port calendar) s' q := by
  let fresh := PlaybackStatus.fresh r.id s.port calendar
  have hentered : t.note calendar (.enter r.id s.port) = ⟨t.records ++ [fresh]⟩ :=
    Tracker.enter_new hnew s.port calendar
  cases h with
  | waits =>
    refine ⟨fresh, hentered, .waits ?_ rfl⟩
    rw [queued, List.map_append, List.append_assoc]
    exact List.perm_middle
  | lapses =>
    let fault : Fault := .remoteUnknown (UInt64.ofNat c.ceiling)
    refine ⟨_, ?_, .over .timedOut none (some fault.message) rfl rfl rfl⟩
    rw [List.foldl_cons, hentered]
    exact Tracker.update_last hnew rfl _
  | queues hslot =>
    refine ⟨fresh, hentered, .waits ?_ rfl⟩
    rw [queued, List.map_append, ← List.append_assoc]
    exact List.perm_append_singleton _ _
  | @begins target hremote hslot =>
    have hbegun : (Tracker.mk (t.records ++ [fresh])).note calendar (.phase r.id .streaming) =
        ⟨t.records ++ [{ fresh with phase := .streaming }]⟩ := Tracker.update_last hnew rfl _
    -- However the launch fails, the playback is over with that outcome.
    have hended : ∀ o : Outcome,
        (Tracker.mk (t.records ++ [{ fresh with phase := .streaming }])).note calendar
          (finishEffect r.id o) =
        ⟨t.records ++ [{ fresh with phase := endPhase o, exitCode := o.exitCode
                                    fault := o.fault.map Fault.message
                                    finished := some calendar }]⟩ :=
      fun _ => Tracker.update_last hnew rfl _
    have hfailed : ∀ (o : Outcome) (es : List Effect),
        (∀ e ∈ es, ∀ t, Tracker.note calendar t e = t) →
        ∃ q, (.phase r.id .streaming :: (es ++ [finishEffect r.id o])).foldl
            (Tracker.note calendar) ⟨t.records ++ [fresh]⟩ = ⟨t.records ++ [q]⟩ ∧
          Stage s fresh ({ s.register r.id with lastActive := now, slot := none }.advanceTo
            .streaming) q := by
      intro o es hes
      refine ⟨_, ?_, .over (endPhase o) o.exitCode (o.fault.map Fault.message)
        (endPhase_isFinished o) rfl hslot.symm⟩
      rw [List.foldl_cons, hbegun, List.foldl_append, Tracker.notes_still hes]
      exact hended o
    rw [List.foldl_cons, hentered]
    unfold begin
    cases hlaunch : launch c now s.port target r with
    | ok st =>
      refine ⟨_, ?_, .streams rfl hslot rfl (launch_ok c now hlaunch).1⟩
      rw [List.foldl_cons, hbegun]
      rfl
    | error e =>
      rcases launch_error c now hlaunch with ⟨text, rfl⟩ | ⟨text, file, rfl⟩
      · exact hfailed (.noFile text) [.refused r.id _] (by simp [Tracker.note])
      · exact hfailed (.notStarted text) [.createFile r.id file r.payload, .refused r.id _,
          .removeFile r.id, .streamed r.id 0] (by simp [Tracker.note])

theorem Takes.lastActive (h : Takes s c now r s' es) : s'.lastActive = now := by
  cases h <;> rfl

theorem Takes.handles (h : Takes s c now r s' es) :
    s'.handles = s.handles.filter s.isUnfinished ++ [r.id] := by
  cases h <;> rfl

end Session

namespace Broker

variable {b : Broker} {id : Uuid}

/-- What the acceptance of a playback changes in the session with number `i`, and that nothing else
changes in the sessions, in the tracker and outside of the exchange. -/
structure Admitted (id : Uuid) (b b' : Broker) (i : Nat) (s s' : Session) (q : PlaybackStatus) :
    Prop where
  here : b.session? i = some s
  registered : s.standing = .registered
  isOpen : s.isClosed = false
  sessions : b'.exchange.sessions = b.exchange.sessions.set i s'
  renewed : s'.lastActive = b.now
  task : s'.handles = s.handles.filter s.isUnfinished ++ [id]
  fresh : (∀ q ∈ b.exchange.tracker.records, q.id ≠ id) ∧
    ∀ t ∈ b.exchange.sessions, id ∉ t.playbacks
  tracker : b'.exchange.tracker = ⟨b.exchange.tracker.records ++ [q]⟩
  stage : s.Stage (.fresh id s.port b.exchange.calendar) s' q
  rest : { b' with exchange := b.exchange } = b

/-- A playback of which nothing is known has no record and is in no session. -/
theorem Reachable.unheard (hb : Reachable b) (hnew : b.exchange.story id = []) :
    (∀ q ∈ b.exchange.tracker.records, q.id ≠ id) ∧
      ∀ t ∈ b.exchange.sessions, id ∉ t.playbacks := by
  refine ⟨hb.arises.unfiled hnew, fun t ht => ?_⟩
  obtain ⟨i, p, hlives⟩ := hb.arises.lives id
  obtain ⟨j, hj⟩ := List.mem_iff_getElem?.mp ht
  exact hlives.not_mem_playbacks hnew hj

theorem play_admitted (hb : Attained b) {port : Port} {payload : ByteArray}
    {format : Option String} (hnew : b.exchange.story id = [])
    (hplay : (b.play port payload format id).1 = .ok id) :
    ∃ i s s' q, Admitted id b (b.play port payload format id).2 i s s' q ∧ s.port = port := by
  obtain ⟨-, i, s, f, hnumber, hi, hopen, heq⟩ := Exchange.play_ok hplay
  obtain ⟨t, hi', hregistered, hport⟩ := Exchange.registered_of_numberAt? hnumber
  obtain rfl : s = t := Option.some.inj (hi.symm.trans hi')
  let r : Request := ⟨id, payload, f⟩
  have hunheard := hb.reachable.1.unheard hnew
  have hnot : id ∉ s.queued := fun hmem =>
    hunheard.2 s (List.mem_of_getElem? hi) (List.mem_append_left _ hmem)
  have htakes : s.Takes b.setup.play b.now r _ _ := Session.accept_takes (hb.orderly i s hi) hnot
  have hexchange : (b.play port payload format id).2.exchange =
      b.exchange.stepSession i (·.accept b.setup.play b.now r) := heq
  obtain ⟨q, htracker, hstage⟩ := htakes.records hunheard.1 b.exchange.calendar
  refine ⟨i, s, (s.accept b.setup.play b.now r).1, q, ⟨hi, hregistered, hopen, ?_,
    htakes.lastActive, htakes.handles, hunheard, ?_, hstage, rfl⟩, hport⟩
  · rw [hexchange, Exchange.sessions_stepSession hi]
  · rw [hexchange, Exchange.stepSession_some hi, Exchange.tracker_performs]
    exact htracker

end Broker

end RtpBroker
