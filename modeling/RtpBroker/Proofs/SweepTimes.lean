import RtpBroker.Proofs.Lines
import RtpBroker.Proofs.Reapers
import RtpBroker.Proofs.Tasks

/-!
# When reapers sweep, and what they release

A diary tells when a reaper sweeps: it notes the time whenever the reaper has begun one
sweep more. Since reapers keep their pace, the diary of each has the multiples of its
interval since its start, one after the other, until the shutdown. Each of these sweeps
releases the sessions that are inactive for longer than the limit, and nothing else.
-/

namespace RtpBroker

namespace Agenda

variable {σ τ : Type} {agenda : σ → Agenda} {agenda' : τ → Agenda} {fire : Nat → σ → σ}
  {fire' : Nat → τ → τ} {g : σ → τ}

/-- A run in which more is kept in mind is the same run. -/
theorem run_hom (hagenda : ∀ s, agenda' (g s) = agenda s)
    (hfire : ∀ t s, g (fire t s) = fire' t (g s)) (target now : Nat) (s : σ) :
    g (run agenda fire target now s) = run agenda' fire' target now (g s) := by
  induction now, s using run.induct agenda fire target with
  | case1 now s t hnext hle ih =>
    rw [run_some hnext, if_pos hle, run_some ((congrArg _ (hagenda s)).trans hnext), if_pos hle,
      ih, hfire]
  | case2 now s t hnext hle =>
    rw [run_some hnext, if_neg hle, run_some ((congrArg _ (hagenda s)).trans hnext), if_neg hle]
  | case3 now s hnext =>
    rw [run_none hnext, run_none ((congrArg _ (hagenda s)).trans hnext)]

end Agenda

namespace Broker

/-- How often the reaper number `k` has begun to sweep. -/
def sweepCount (k : Nat) (b : Broker) : Nat := b.sweepCounts[k]?.getD 0

/-- A broker, and when one of its reapers has swept. -/
structure Diary where
  broker : Broker
  times : List Nat := []

namespace Diary

/-- Lets something happen, and notes the time once for every sweep that the reaper number `k` has
begun meanwhile. -/
def note (k : Nat) (f : Broker → Broker) (d : Diary) : Diary where
  broker := f d.broker
  times := d.times ++
    List.replicate ((f d.broker).sweepCount k - d.broker.sweepCount k) (f d.broker).now

/-- An event, with a note whenever the clock has stopped. -/
def step (k : Nat) (d : Diary) : Event → Diary
  | .advance ms =>
    let target := d.broker.now + ms
    let d := Agenda.run (·.broker.exchange.agenda) (fun t => note k (fire t)) target d.broker.now d
    d.note k fun b => { b with exchange := { b.exchange with now := target } }
  | e => d.note k (·.step e)

def run (k : Nat) (events : List Event) (d : Diary) : Diary := events.foldl (step k) d

theorem step_broker (k : Nat) (d : Diary) (e : Event) : (d.step k e).broker = d.broker.step e := by
  cases e with
  | advance ms =>
    have hrun : (Agenda.run (·.broker.exchange.agenda) (fun t => note k (fire t))
        (d.broker.now + ms) d.broker.now d).broker =
          Agenda.run (·.exchange.agenda) fire (d.broker.now + ms) d.broker.now d.broker := by
      refine Agenda.run_hom (g := Diary.broker) ?_ ?_ _ _ d
      · exact fun _ => rfl
      · exact fun _ _ => rfl
    exact congrArg
      (fun b : Broker => { b with exchange := { b.exchange with now := d.broker.now + ms } }) hrun
  | _ => rfl

/-- To keep a diary changes nothing. -/
theorem run_broker (k : Nat) (events : List Event) (d : Diary) :
    (d.run k events).broker = d.broker.run events := by
  induction events generalizing d with
  | nil => rfl
  | cons e events ih => exact (ih (d.step k e)).trans (congrArg _ (step_broker k d e))

end Diary

/-- When the reaper number `k` sweeps in the course of some events. -/
def sweepTimes (k : Nat) (events : List Event) (b : Broker) : List Nat :=
  (Diary.run k events ⟨b, []⟩).times

/-- The times at which a reaper has been due. -/
def dues (r : Reaper) : List Nat :=
  (List.range r.sweeps).map fun j => r.start + (j + 1) * r.interval

/-- When the reaper number `k` has been due. -/
def duesOf (k : Nat) (b : Broker) : List Nat := (b.reapers[k]?.map dues).getD []

variable {b b' b'' b₀ : Broker} {k t : Nat} {r : Reaper} {d : Diary} {events : List Event}

/-- The broker goes on, and its reapers are who they were. -/
structure GoesBy (b b' : Broker) : Prop where
  kept : ∀ (k : Nat) r, b.reapers[k]? = some r → ∃ r', b'.reapers[k]? = some r' ∧ r.Same r'
  ended : ∀ (k : Nat) r, b.reapers[k]? = some r → r.stage = .ended → b'.reapers[k]? = some r
  halted : Halted b → Halted b' ∧ ∀ k, b'.duesOf k = b.duesOf k

theorem GoesBy.refl (b : Broker) : GoesBy b b :=
  ⟨fun _ r hr => ⟨r, hr, .refl r⟩, fun _ _ hr _ => hr, fun h => ⟨h, fun _ => rfl⟩⟩

theorem GoesBy.trans (h : GoesBy b b') (h' : GoesBy b' b'') : GoesBy b b'' := by
  refine ⟨fun k r hr => ?_, fun k r hr hended => ?_, fun hb => ?_⟩
  · obtain ⟨r', hr', hsame⟩ := h.kept k r hr
    obtain ⟨r'', hr'', hsame'⟩ := h'.kept k r' hr'
    exact ⟨r'', hr'', hsame.trans hsame'⟩
  · exact h'.ended k r (h.ended k r hr hended) hended
  · obtain ⟨hb', hdues⟩ := h.halted hb
    obtain ⟨hb'', hdues'⟩ := h'.halted hb'
    exact ⟨hb'', fun k => (hdues' k).trans (hdues k)⟩

/-- One reaper, now or never: it is there and keeps its pace, or it comes, or it is not there. -/
theorem Paces.cases (h : Paces t b b') (k : Nat) :
    (∃ r r', b.reapers[k]? = some r ∧ b'.reapers[k]? = some r' ∧ r.Paced t r') ∨
      b.reapers[k]? = none ∧ ∀ r', b'.reapers[k]? = some r' → r'.sweeps = 0 := by
  cases hr : b.reapers[k]? with
  | none => exact Or.inr ⟨rfl, fun r' hr' => (h.come k r' hr' hr).1⟩
  | some r =>
    obtain ⟨r', hr', hpaced⟩ := h.kept k r hr
    exact Or.inl ⟨r, r', rfl, hr', hpaced⟩

theorem Paces.goesBy (h : Paces t b b') : GoesBy b b' := by
  refine ⟨fun k r hr => ?_, fun k r hr hended => ?_, fun hb => ⟨h.halted hb, fun k => ?_⟩⟩
  · obtain ⟨r', hr', hpaced⟩ := h.kept k r hr
    exact ⟨r', hr', hpaced.toSame⟩
  · obtain ⟨r', hr', hpaced⟩ := h.kept k r hr
    exact hpaced.ended hended ▸ hr'
  · rcases h.cases k with ⟨r, r', hr, hr', hpaced⟩ | ⟨hnone, hnew⟩
    · rw [duesOf, duesOf, hr, hr', hpaced.ended (hb.ended r (List.mem_of_getElem? hr))]
    · rw [duesOf, duesOf, hnone]
      cases hr' : b'.reapers[k]? with
      | none => rfl
      | some r' => simp [dues, hnew r' hr']

/-- What a reaper that keeps its pace adds to its diary is what it was due for. -/
theorem Paces.duesOf (h : Paces t b b') (k : Nat) :
    b'.duesOf k = b.duesOf k ++ List.replicate (b'.sweepCount k - b.sweepCount k) t := by
  rcases h.cases k with ⟨r, r', hr, hr', hpaced⟩ | ⟨hnone, hnew⟩
  · have hcount : b.sweepCount k = r.sweeps := by simp [sweepCount, sweepCounts, hr]
    have hcount' : b'.sweepCount k = r'.sweeps := by simp [sweepCount, sweepCounts, hr']
    have hdues : b.duesOf k = dues r := by simp [Broker.duesOf, hr]
    have hdues' : b'.duesOf k = dues r' := by simp [Broker.duesOf, hr']
    rw [hcount, hcount', hdues, hdues', dues, dues, hpaced.start, hpaced.interval]
    rcases hpaced.sweeps with hsame | ⟨hone, hdue, -⟩
    · simp [hsame]
    · rw [hone, List.range_succ, List.map_append, Nat.add_sub_cancel_left]
      simp [← hdue, Reaper.due]
  · have hcount' : b'.sweepCount k = 0 := by
      cases hr' : b'.reapers[k]? with
      | none => simp [sweepCount, sweepCounts, hr']
      | some r' => simp [sweepCount, sweepCounts, hr', hnew r' hr']
    rw [hcount', Nat.zero_sub, List.replicate_zero, List.append_nil, Broker.duesOf,
      Broker.duesOf, hnone]
    cases hr' : b'.reapers[k]? with
    | none => rfl
    | some r' => simp [dues, hnew r' hr']

/-- A diary in which a reaper has swept whenever it was due. -/
structure Diary.Kept (k : Nat) (d : Diary) : Prop where
  regular : Regular [] d.broker
  times : d.times = d.broker.duesOf k

theorem Diary.Kept.note {f : Broker → Broker} (hd : d.Kept k) (hregular : Regular [] (f d.broker))
    (hpaces : Paces (f d.broker).now d.broker (f d.broker)) : (d.note k f).Kept k :=
  ⟨hregular, by rw [Diary.note, hd.times]; exact (hpaces.duesOf k).symm⟩

theorem Diary.Kept.step {e : Event} (hd : d.Kept k) (he : e.Fair d.broker.allocator.range) :
    (d.step k e).Kept k ∧ GoesBy d.broker (d.step k e).broker := by
  have hstep : ∀ e : Event, e.Fair d.broker.allocator.range → (∀ ms, e ≠ .advance ms) →
      (d.note k (·.step e)).Kept k ∧ GoesBy d.broker (d.note k (·.step e)).broker := by
    intro e he hadvance
    have hkeeps := step_keeps hd.regular he hadvance
    have hpaces : Paces (d.broker.step e).now d.broker (d.broker.step e) :=
      hkeeps.now ▸ hkeeps.paces
    exact ⟨hd.note hkeeps.regular hpaces, hkeeps.paces.goesBy⟩
  cases e with
  | advance ms =>
    have hfire : ∀ now t (d' : Diary),
        (d'.broker.now = now ∧ d'.Kept k ∧ GoesBy d.broker d'.broker) →
        d'.broker.exchange.agenda.nextAfter? now = some t → t ≤ d.broker.now + ms →
        ((d'.note k (fire t)).broker.now = t ∧ (d'.note k (fire t)).Kept k ∧
          GoesBy d.broker (d'.note k (fire t)).broker) := by
      rintro _ t d' ⟨rfl, hd', hgoes⟩ ht -
      obtain ⟨hregular, hpaces⟩ := fire_regular hd'.regular ht
      have hnow : (d'.broker.fire t).now = t := now_fire t d'.broker
      exact ⟨hnow, hd'.note hregular (hnow.symm ▸ hpaces), hgoes.trans hpaces.goesBy⟩
    obtain ⟨last, -, hlast, ⟨rfl, hrun, hgoes⟩, hrest⟩ := Agenda.run_induct hfire
      ⟨rfl, hd, .refl d.broker⟩ (Nat.le_add_right d.broker.now ms)
    let late (b : Broker) : Broker :=
      { b with exchange := { b.exchange with now := d.broker.now + ms } }
    have hpaces : ∀ (t : Nat) b, Paces t b (late b) := fun t _ => .of_eq t rfl rfl
    have hlate := hrun.note (f := late) (hrun.regular.later hlast hrest) (hpaces _ _)
    exact ⟨hlate, hgoes.trans (hpaces 0 _).goesBy⟩
  | _ => exact hstep _ he (by simp)

theorem Diary.Kept.run (hd : d.Kept k) (hfair : ∀ e ∈ events, e.Fair d.broker.allocator.range) :
    (d.run k events).Kept k ∧ GoesBy d.broker (d.run k events).broker := by
  induction events generalizing d with
  | nil => exact ⟨hd, .refl d.broker⟩
  | cons e events ih =>
    obtain ⟨hstep, hgoes⟩ := hd.step (hfair e (List.mem_cons_self ..))
    have hfair' : ∀ e' ∈ events, e'.Fair (d.step k e).broker.allocator.range := by
      rw [Diary.step_broker, (step_follows d.broker e (hfair e (List.mem_cons_self ..))).allocator]
      exact fun e' he' => hfair e' (List.mem_cons_of_mem _ he')
    obtain ⟨hrest, hgoes'⟩ := ih hstep hfair'
    exact ⟨hrest, hgoes.trans hgoes'⟩

variable {setup : BrokerSetup} {calendar : Timestamp}

/-- From the start on, a reaper has swept whenever it was due. -/
theorem sweepTimes_eq (hstart : start setup calendar = .ok b₀)
    (hfair : ∀ e ∈ events, e.Fair b₀.allocator.range) (k : Nat) :
    Regular [] (b₀.run events) ∧ sweepTimes k events b₀ = (b₀.run events).duesOf k := by
  have hempty : (⟨b₀, []⟩ : Diary).Kept k := by
    refine ⟨start_regular hstart, ?_⟩
    obtain ⟨range, -, rfl⟩ := start_eq hstart
    rfl
  obtain ⟨⟨hregular, htimes⟩, -⟩ := hempty.run hfair
  rw [Diary.run_broker] at hregular htimes
  exact ⟨hregular, htimes⟩

theorem run_goesBy (hb : Regular [] b) (hfair : ∀ e ∈ events, e.Fair b.allocator.range) :
    GoesBy b (b.run events) := by
  have hkept : (⟨b, b.duesOf 0⟩ : Diary).Kept 0 := ⟨hb, rfl⟩
  have hgoes := (hkept.run hfair).2
  rwa [Diary.run_broker] at hgoes

theorem NoSweep.sweepCount (h : NoSweep b b') (k : Nat) : b'.sweepCount k = b.sweepCount k := by
  obtain ⟨n, hn⟩ := h
  rw [Broker.sweepCount, Broker.sweepCount, hn, List.getElem?_append]
  split
  · rfl
  · next hge =>
    rw [List.getElem?_eq_none (Nat.not_lt.mp hge), List.getElem?_replicate]
    split <;> rfl

/-- A run in two parts, with an event in between. -/
theorem run_split (hstart : start setup calendar = .ok b₀) {before after : List Event} {e : Event}
    (hfair : ∀ e' ∈ before ++ e :: after, e'.Fair b₀.allocator.range) (k : Nat) :
    Regular [] (b₀.run before) ∧ sweepTimes k before b₀ = (b₀.run before).duesOf k ∧
      (Regular [] ((b₀.run before).step e) →
        GoesBy ((b₀.run before).step e) (b₀.run (before ++ e :: after))) := by
  have hbefore : ∀ e' ∈ before, e'.Fair b₀.allocator.range :=
    fun e' he' => hfair e' (List.mem_append_left _ he')
  obtain ⟨hregular, htimes⟩ := sweepTimes_eq hstart hbefore k
  refine ⟨hregular, htimes, fun hstep => ?_⟩
  have hfirst : ∀ e' ∈ before ++ [e], e'.Fair b₀.allocator.range := by
    intro e' he'
    rcases List.mem_append.mp he' with he' | he'
    · exact hbefore e' he'
    · exact List.mem_singleton.mp he' ▸ hfair e (by simp)
  have hfollows := run_follows (before ++ [e]) b₀ hfirst
  rw [run_append] at hfollows
  rw [run_append]
  refine run_goesBy hstep fun e' he' => ?_
  have hrange : ((b₀.run before).step e).allocator = b₀.allocator := hfollows.allocator
  rw [hrange]
  exact hfair e' (List.mem_append_right _ (List.mem_cons_of_mem _ he'))

/-- A reaper that rests has made every sweep whose time has come. -/
theorem OnTime.sweeps_eq (h : OnTime [] b k r) (hresting : r.stage = .resting) :
    r.sweeps = (b.now - r.start) / r.interval := by
  obtain ⟨hinterval, -, ⟨hlt, -⟩ | ⟨-, hmem⟩⟩ := h.next hresting
  · have hmade := h.made
    rw [Reaper.due, Nat.succ_mul] at hlt
    refine (Nat.div_eq_of_lt_le ?_ ?_).symm
    · omega
    · rw [Nat.succ_mul]
      omega
  · cases hmem

/-! ## Between events -/

/-- Nothing is due, so nobody who is told to stop has the choice to do something else first. -/
structure Settled (b : Broker) : Prop where
  looks : ∀ (i : Nat) s, b.session? i = some s → ∀ w ∈ s.waiting, b.now < w.deadline ∧
    ∃ due, b.now < due ∧ due ≤ w.deadline ∧ ⟨due, .playback i w.request.id⟩ ∈ b.exchange.agenda
  streams : ∀ (i : Nat) s, b.session? i = some s → s.line ≠ [] → s.slot ≠ none
  sweeps : ∀ r ∈ b.reapers, r.stage = .resting → b.now < r.due

theorem Attained.regular (h : Attained b) : Regular [] b := by
  induction h with
  | start h => exact start_regular h
  | @step b e _ he _ ih =>
    have hkept : (⟨b, b.duesOf 0⟩ : Diary).Kept 0 := ⟨ih, rfl⟩
    have hregular := (hkept.step he).1.regular
    rwa [Diary.step_broker] at hregular
  | note _ _ _ ih =>
    refine ⟨⟨ih.tidy.conserved, ih.tidy.placed⟩, fun k r hr => ?_⟩
    obtain ⟨hthrough, hmade, hnext⟩ := ih.onTime k r hr
    exact ⟨hthrough, hmade, hnext⟩

theorem Attained.settled (h : Attained b) : b.Settled where
  looks i s hi w hw := by
    rcases (h.reachable.2.punctual i s hi).waits w hw with ⟨-, a, ha, -⟩ | hset
    · cases ha
    · exact hset
  streams i s hi hline hslot := hline ((h.orderly i s hi).free hslot)
  sweeps r hr hresting := by
    obtain ⟨k, hk⟩ := List.mem_iff_getElem?.mp hr
    obtain ⟨-, -, ⟨hlt, -⟩ | ⟨-, hmem⟩⟩ := (h.regular.onTime k r hk).next hresting
    · exact hlt
    · cases hmem

/-! ## What a sweep releases -/

/-- What a sweep over the sessions inactive for more than `limit` returns and leaves behind. -/
structure ReleasesInactive (limit : Nat) (b : Broker) (ports : List Port) (b' : Broker) : Prop where
  listed : ∀ p, p ∈ ports ↔ ∃ i s, b.session? i = some s ∧ s.standing = .registered ∧
    s.port = p ∧ b.Inactive limit i s
  nodup : ports.Nodup
  released : ∀ (i : Nat) s, b.session? i = some s → s.standing = .registered →
    b.Inactive limit i s → b'.session? i = some s.retired
  kept : ∀ (i : Nat) s, b.session? i = some s →
    s.standing ≠ .registered ∨ ¬ b.Inactive limit i s → b'.session? i = some s
  listening : ∀ (i : Nat) s, b.session? i = some s →
    (i ∈ b'.listeners ↔ i ∈ b.listeners ∧ (s.standing ≠ .registered ∨ ¬ b.Inactive limit i s))
  length : b'.exchange.sessions.length = b.exchange.sessions.length
  returned : ∀ p ∈ ports, Returned p b'
  elsewhere : ∀ p ∉ ports, b'.pool.isOccupied p = b.pool.isOccupied p ∧
    b'.pool.coolingSince? p = b.pool.coolingSince? p
  status : ∀ id, b'.status? id = b.status? id
  rest : b' = { b with
    pool := b'.pool
    listeners := b'.listeners
    exchange := { b.exchange with
      sessions := b'.exchange.sessions, metrics := b'.exchange.metrics } }

theorem Reachable.mem_idlePorts_iff (hb : b.Reachable) {limit i : Nat} {s : Session}
    (hi : b.session? i = some s) (hs : s.standing = .registered) :
    s.port ∈ b.idlePorts limit ↔ b.Inactive limit i s := by
  rw [mem_idlePorts, ← hb.isIdle_iff hi hs]
  constructor
  · rintro ⟨j, t, hj, ht, hport, hidle⟩
    obtain rfl : j = i := eq_of_registered hb.conserved hj hi ht hs hport
    exact Option.some.inj (hj.symm.trans hi) ▸ hidle
  · exact fun hidle => ⟨i, s, hi, hs, rfl, hidle⟩

theorem Reachable.releasesInactive (hb : b.Reachable) (limit : Nat) :
    ReleasesInactive limit b (b.releaseIdle limit).1 (b.releaseIdle limit).2 := by
  have hretires := (proceed_idlePorts hb.tidy limit).2
  have hlisted (i : Nat) s (hi : b.session? i = some s) :
      s.standing ≠ .registered ∨ ¬ b.Inactive limit i s ↔
        s.standing ≠ .registered ∨ s.port ∉ b.idlePorts limit :=
    or_congr_right' fun hs => (hb.mem_idlePorts_iff hi (not_not.mp hs)).not.symm
  rw [releaseIdle_proceeds hb.tidy]
  generalize (b.proceed (b.idlePorts limit)).2 = b' at hretires
  exact {
    listed := fun p => mem_idlePorts.trans <| exists_congr fun i => exists_congr fun s =>
      and_congr_right fun hi => and_congr_right fun hs => and_congr_right fun _ =>
        hb.isIdle_iff hi hs
    nodup := nodup_idlePorts hb.conserved limit
    released := fun i s hi hs hinactive =>
      hretires.retired i s hi hs ((hb.mem_idlePorts_iff hi hs).mpr hinactive)
    kept := fun i s hi hother => hretires.kept i s hi ((hlisted i s hi).mp hother)
    listening := fun i s hi => by rw [hretires.listeners i s hi, hlisted i s hi]
    length := hretires.length
    returned := hretires.returned
    elsewhere := hretires.elsewhere
    status := fun id => by rw [hretires.rest]; rfl
    rest := hretires.rest }

/-- At any time a sweep returns the ports of the open sessions in which nothing has happened for
longer than the limit and no playback waits or streams. It releases these and leaves every other
session and all records of playbacks as they are. Whether a playback waits or streams is told by the
handles of the tasks that the session has. A reaper sweeps in this way when its interval is
over since its start, and whenever it is over again, and after a shutdown it never does. -/
theorem reapers_release_inactive (hstart : start setup calendar = .ok b₀)
    (hfair : ∀ e ∈ events, e.Fair b₀.allocator.range) :
    (∀ b, Evolves b₀ b → ∀ limit,
      ReleasesInactive limit b (b.releaseIdle limit).1 (b.releaseIdle limit).2) ∧
    (∀ b, Evolves b₀ b → ∀ i s, b.session? i = some s → Tracks i s b) ∧
    (∀ b, Evolves b₀ b → ∀ k r, b.sweep k r =
      (b.reaped r.idleLimit).afterSweep k { r with sweeps := r.sweeps + 1 }) ∧
    (∀ before interval idleLimit retention after,
      events = before ++ .startReaper interval idleLimit retention :: after →
      let begun := b₀.run before
      let k := begun.reapers.length
      ∃ r, (b₀.run events).reapers[k]? = some r ∧ r.start = begun.now ∧ r.interval = interval ∧
        r.idleLimit = idleLimit ∧ r.retention = retention ∧
        sweepTimes k events b₀ =
          (List.range r.sweeps).map (fun j => begun.now + (j + 1) * interval) ∧
        (r.stage = .resting → r.sweeps = ((b₀.run events).now - begun.now) / interval)) ∧
    ∀ before after, events = before ++ .shutDown :: after →
      ∀ k, sweepTimes k events b₀ = sweepTimes k before b₀ := by
  have hreachable : ∀ b, Evolves b₀ b → b.Reachable :=
    fun b hb => ⟨setup, calendar, b₀, hstart, hb⟩
  refine ⟨fun b hb limit => (hreachable b hb).releasesInactive limit,
    fun b hb i s hi => (hreachable b hb).tracks hi,
    fun b hb k r => sweep_eq k r (hreachable b hb).tidy, ?_, ?_⟩
  · rintro before interval idleLimit retention after rfl begun k
    obtain ⟨hbegun, -, hgoes⟩ := run_split hstart hfair k
    obtain ⟨hfinal, htimes⟩ := sweepTimes_eq hstart hfair k
    have hstarted := startReaper_keeps interval idleLimit retention hbegun
    obtain ⟨r₀, hr₀, hstart₀, hinterval₀, hlimit₀, hretention₀⟩ :=
      reaper_started interval idleLimit retention begun
    obtain ⟨r, hr, hsame⟩ := (hgoes hstarted.regular).kept k r₀ hr₀
    have hstart' : r.start = begun.now := hsame.start.trans hstart₀
    have hinterval' : r.interval = interval := hsame.interval.trans hinterval₀
    refine ⟨r, hr, hstart', hinterval', hsame.idleLimit.trans hlimit₀,
      hsame.retention.trans hretention₀, ?_, fun hresting => ?_⟩
    · rw [htimes, duesOf, hr, Option.map_some, Option.getD_some, dues, hstart', hinterval']
    · rw [(hfinal.onTime k r hr).sweeps_eq hresting, hstart', hinterval']
  · rintro before after rfl k
    obtain ⟨hbegun, htimes, hgoes⟩ := run_split hstart hfair k
    obtain ⟨hkeeps, hhalted⟩ := shutDown_keeps hbegun
    have hcount := (shutDown_windsUp hbegun.tidy.conserved).noSweep.sweepCount k
    have hdues := hkeeps.paces.duesOf k
    rw [hcount, Nat.sub_self, List.replicate_zero, List.append_nil] at hdues
    rw [(sweepTimes_eq hstart hfair k).2, htimes, ← hdues]
    exact ((hgoes hkeeps.regular).halted hhalted).2 k

/-- A playback waits in one of the two sessions when a reaper is started. -/
def oneIdle : List Event := twoIdle ++ [.play 10004 ⟨#[1]⟩ none ⟨1⟩]

/-- The reaper has swept twice when the broker is shut down. -/
def reapedTwice : List Event :=
  oneIdle ++ .startReaper 1500 (some 3000) 3600 :: [.advance 4000, .shutDown, .advance 5000]

theorem reapers_release_inactive_twice :
    ∃ b₀, start idleSetup ⟨0, 0⟩ = .ok b₀ ∧ sweepTimes 0 reapedTwice b₀ = [3500, 5000] ∧
      (b₀.run reapedTwice).now = 11000 ∧
      ((b₀.run oneIdle).releaseIdle 1000).1 = [10002] ∧
      ReleasesInactive 1000 (b₀.run oneIdle) [10002] ((b₀.run oneIdle).releaseIdle 1000).2 := by
  obtain ⟨b₀, hstart, hbegun, hnone, hcounts, hnow, hports⟩ : ∃ b₀,
      start idleSetup ⟨0, 0⟩ = .ok b₀ ∧ (b₀.run oneIdle).now = 2000 ∧
      (b₀.run oneIdle).reapers.length = 0 ∧ (b₀.run reapedTwice).sweepCounts = [2] ∧
      (b₀.run reapedTwice).now = 11000 ∧ ((b₀.run oneIdle).releaseIdle 1000).1 = [10002] :=
    ⟨_, rfl, by decide +kernel, by decide +kernel, by decide +kernel, by decide +kernel,
      by decide +kernel⟩
  have hfair : ∀ e ∈ reapedTwice, e.Fair b₀.allocator.range := by
    rw [reapedTwice, oneIdle, List.append_assoc]
    exact fair_twoIdle hstart _ (by simp)
  obtain ⟨hreleases, -, -, hsweeps, -⟩ := reapers_release_inactive hstart hfair
  have hevolves : Evolves b₀ (b₀.run oneIdle) :=
    (run_continues hstart [] oneIdle (fair_twoIdle hstart _ (by simp)) (by decide)).1
  have hreleased := hreleases _ hevolves 1000
  rw [hports] at hreleased
  obtain ⟨r, hr, -, -, -, -, htimes, -⟩ := hsweeps oneIdle _ _ _ _ rfl
  rw [hnone] at hr htimes
  have htwo : r.sweeps = 2 := by
    have hcount : (b₀.run reapedTwice).sweepCounts[0]? = some r.sweeps := by
      rw [sweepCounts, List.getElem?_map, hr, Option.map_some]
    rw [hcounts] at hcount
    exact (Option.some.inj hcount).symm
  rw [hbegun, htwo] at htimes
  exact ⟨b₀, hstart, htimes, hnow, hports, hreleased⟩

end Broker

end RtpBroker
