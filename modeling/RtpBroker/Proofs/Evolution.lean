import RtpBroker.Proofs.PortConservation

/-!
# How a broker evolves

A broker acts, accepts a playback, or the clock goes on, as long as nobody in a
session is late. So evolve all brokers that a run from the start leads to, and those
in the midst of its operations too, whichever of them is carried on next.
-/

namespace RtpBroker

open Exchange (Arises Punctual)

namespace Exchange

variable {c : PlaySetup} {x x' : Exchange} {id : Uuid}

/-- No change makes a playback known. -/
theorem Change.unheard (h : Change c x x') (hx : Arises c x) (hnil : x.story id = []) :
    x'.story id = [] := by
  by_contra hne
  obtain ⟨i, p, hl⟩ := (h.arises hx).lives id
  obtain ⟨t, port, hentry⟩ := hl.life.entered hne
  rcases h.steps with ⟨cues, hcues, hsteps⟩ | ⟨due, k, rfl⟩
  · rcases hsteps.course.new_entry (mem_journal_of_story hentry) with
      hold | ⟨cue, hcue, z, s, es, s', -, -, hmove, hmem⟩
    · have hstory := mem_story id hold rfl
      rw [hnil] at hstory
      cases hstory
    · exact Session.Cue.enter_not_mem hcues id (hmove.entered hmem ▸ hcue)
  · exact hne hnil

end Exchange

namespace Broker

/-- Accepts a playback in a session, which has not looked yet for the address of its peer. -/
def enter (i : Nat) (r : Request) (b : Broker) : Broker :=
  { b with exchange := b.exchange.enter b.setup.play i r }

inductive Beat : Broker → Broker → Prop
  | act {b b' : Broker} (h : Act b b') : Beat b b'
  | enter {b : Broker} {i : Nat} {s : Session} (r : Request) (hi : b.session? i = some s)
      (hregistered : s.standing = .registered) (hopen : s.isClosed = false)
      (hnew : b.exchange.story r.id = []) : Beat b (b.enter i r)
  | clock {b : Broker} {now : Nat} (hnow : b.now ≤ now)
      (hsound : ∀ (i : Nat) s, b.session? i = some s → s.Sound now) (agenda : Agenda) :
      Beat b { b with exchange := { b.exchange with now, agenda } }

abbrev Evolves : Broker → Broker → Prop := Relation.ReflTransGen Beat

/-- The brokers that come about after a start. -/
def Reachable (b : Broker) : Prop :=
  ∃ setup calendar b₀, start setup calendar = .ok b₀ ∧ Evolves b₀ b

section

variable {b b' : Broker}

theorem Acts.evolves (h : Acts b b') : Evolves b b' :=
  Relation.ReflTransGen.mono (fun _ _ => .act) _ _ h

theorem Beat.setup (h : Beat b b') : b'.setup = b.setup := by
  cases h with
  | act h => exact h.setup
  | _ => rfl

theorem Evolves.setup (h : Evolves b b') : b'.setup = b.setup := by
  induction h with
  | refl => rfl
  | tail _ hlast ih => exact hlast.setup.trans ih

theorem Beat.exchange (h : Beat b b') :
    b'.exchange = b.exchange ∨ Exchange.Beat b.setup.play b.exchange b'.exchange := by
  cases h with
  | act h => exact h.change.imp_right .change
  | enter r hi hregistered hopen hnew => exact Or.inr (.enter r hi hregistered hopen hnew)
  | clock hnow hsound agenda => exact Or.inr (.clock hnow hsound agenda)

theorem Evolves.exchange (h : Evolves b b') :
    Exchange.Evolves b.setup.play b.exchange b'.exchange := by
  induction h with
  | refl => exact .refl
  | tail hrest hlast ih =>
    rcases hlast.exchange with heq | hbeat
    · exact heq ▸ ih
    · exact ih.tail (Evolves.setup hrest ▸ hbeat)

theorem Beat.follows (h : Beat b b') : Follows b b' := by
  cases h with
  | act h => exact h.follows
  | @enter i s r _ _ _ _ =>
    exact .of_ledger rfl rfl (congrArg (Ledger.mk b.pool) (Exchange.posts_enter i r b.exchange))
  | clock _ _ agenda => exact .of_ledger rfl rfl rfl

theorem Evolves.follows (h : Evolves b b') : Follows b b' := by
  induction h with
  | refl => exact .refl b
  | tail _ hlast ih => exact ih.trans hlast.follows

theorem start_exchange {setup : BrokerSetup} {calendar : Timestamp}
    (h : start setup calendar = .ok b) : b.exchange = { calendar } := by
  obtain ⟨range, -, rfl⟩ := start_eq h
  rfl

theorem Reachable.evolves (h : Reachable b) (h' : Evolves b b') : Reachable b' := by
  obtain ⟨setup, calendar, b₀, hstart, hb⟩ := h
  exact ⟨setup, calendar, b₀, hstart, hb.trans h'⟩

theorem Reachable.exchange (h : Reachable b) :
    ∃ calendar, Exchange.Evolves b.setup.play { calendar } b.exchange := by
  obtain ⟨setup, calendar, b₀, hstart, hb⟩ := h
  have hx := hb.exchange
  rw [start_exchange hstart, ← hb.setup] at hx
  exact ⟨calendar, hx⟩

theorem Reachable.arises (h : Reachable b) : Arises b.setup.play b.exchange := by
  obtain ⟨calendar, hx⟩ := h.exchange
  exact hx.arises (.start calendar)

theorem Reachable.conserved (h : Reachable b) :
    Ledger.Conserved b.allocator.range b.ledger := by
  obtain ⟨setup, calendar, b₀, hstart, hb⟩ := h
  refine hb.follows.conserved ?_
  rw [(start_ok hstart).2.2]
  exact .empty _

end

/-! ## Time -/

/-- Nobody oversleeps, whoever is still to be woken by the alarms that ring now. -/
structure Alert (rem : List Alarm) (b : Broker) : Prop where
  arises : Arises b.setup.play b.exchange
  punctual : Punctual rem b.exchange

/-- The broker goes on by itself: it evolves, and no playback becomes known. -/
structure GoesOn (b b' : Broker) : Prop where
  evolves : Evolves b b'
  unheard : ∀ id, b.exchange.story id = [] → b'.exchange.story id = []

section

variable {b b' b'' : Broker} {rem : List Alarm}

theorem GoesOn.refl (b : Broker) : GoesOn b b := ⟨.refl, fun _ h => h⟩

theorem GoesOn.trans (h : GoesOn b b') (h' : GoesOn b' b'') : GoesOn b b'' :=
  ⟨h.evolves.trans h'.evolves, fun id hid => h'.unheard id (h.unheard id hid)⟩

theorem Acts.unheard (h : Acts b b') (hb : Arises b.setup.play b.exchange) :
    Arises b'.setup.play b'.exchange ∧
      ∀ id, b.exchange.story id = [] → b'.exchange.story id = [] := by
  induction h with
  | refl => exact ⟨hb, fun _ hid => hid⟩
  | tail _ hlast ih =>
    obtain ⟨harises, hunheard⟩ := ih
    rw [hlast.setup]
    rcases hlast.change with heq | hchange
    · rw [heq]
      exact ⟨harises, hunheard⟩
    · exact ⟨hchange.arises harises, fun id hid => hchange.unheard harises (hunheard id hid)⟩

theorem Acts.punctual (h : Acts b b') (hb : Punctual rem b.exchange) :
    Punctual rem b'.exchange := by
  induction h with
  | refl => exact hb
  | tail _ hlast ih =>
    rcases hlast.change with heq | hchange
    · exact heq ▸ ih
    · exact hchange.punctual ih

theorem Acts.goesOn (h : Acts b b') (hb : Arises b.setup.play b.exchange) : GoesOn b b' :=
  ⟨h.evolves, (h.unheard hb).2⟩

theorem ring_goesOn {a : Alarm} (hb : Alert (a :: rem) b) :
    GoesOn b (b.ring a) ∧ Alert rem (b.ring a) := by
  have hacts := (ring_deeds b a).acts
  have harises := (hacts.unheard hb.arises).1
  refine ⟨hacts.goesOn hb.arises, harises, ?_⟩
  cases ha : a.sleeper with
  | playback i id =>
    -- The alarm has rung before anything else happens.
    let rung : Broker := { b with exchange := b.exchange.ring b.setup.play a }
    have hring : b.ring a = rung.settle := by
      unfold ring
      rw [ha]
      rfl
    rw [hring]
    exact (settle_deeds rung).acts.punctual (hb.punctual.ring hb.arises)
  | reaper k =>
    have hring : (b.ring a).exchange.ring (b.ring a).setup.play a = (b.ring a).exchange := by
      unfold Exchange.ring
      rw [ha]
    rw [← hring]
    exact (hacts.punctual hb.punctual).ring harises

theorem rings_goesOn (alarms : List Alarm) (hb : Alert alarms b) :
    GoesOn b (alarms.foldl ring b) ∧ Alert [] (alarms.foldl ring b) := by
  induction alarms generalizing b with
  | nil => exact ⟨.refl b, hb⟩
  | cons a alarms ih =>
    obtain ⟨hgoes, halert⟩ := ring_goesOn hb
    obtain ⟨hgoes', halert'⟩ := ih halert
    exact ⟨hgoes.trans hgoes', halert'⟩

theorem Acts.now (h : Acts b b') : b'.now = b.now := by
  induction h with
  | refl => rfl
  | tail _ hlast ih =>
    rcases hlast.change with heq | hchange
    · exact (congrArg Exchange.now heq).trans ih
    · exact hchange.now.trans ih

theorem now_fire (t : Nat) (b : Broker) : (b.fire t).now = t :=
  (deeds_foldl ring_deeds _ _).acts.now

theorem clock_goesOn {now : Nat} (hb : Alert rem b) (hnow : b.now ≤ now) {agenda : Agenda}
    {rem' : List Alarm} (hp : Punctual rem' { b.exchange with now, agenda }) :
    GoesOn b { b with exchange := { b.exchange with now, agenda } } ∧
      Alert rem' { b with exchange := { b.exchange with now, agenda } } := by
  have hsound : ∀ (i : Nat) s, b.session? i = some s → s.Sound now :=
    fun i s hi => (hp i s hi).sound (hb.arises.sound hi)
  exact ⟨⟨.single (.clock hnow hsound agenda), fun _ hid => hid⟩,
    hb.arises.clock hnow hsound agenda, hp⟩

theorem fire_goesOn {t : Nat} (hb : Alert [] b)
    (ht : b.exchange.agenda.nextAfter? b.now = some t) :
    GoesOn b (b.fire t) ∧ Alert [] (b.fire t) := by
  obtain ⟨hclock, hlate⟩ := clock_goesOn hb (Nat.le_of_lt (Agenda.lt_of_nextAfter? ht))
    (hb.punctual.clock ht)
  obtain ⟨hrings, halert⟩ := rings_goesOn _ hlate
  exact ⟨hclock.trans hrings, halert⟩

theorem advance_goesOn (ms : Nat) (hb : Alert [] b) :
    GoesOn b (b.advance ms) ∧ Alert [] (b.advance ms) := by
  have hfire : ∀ now t (b' : Broker), (b'.now = now ∧ GoesOn b b' ∧ Alert [] b') →
      b'.exchange.agenda.nextAfter? now = some t → t ≤ b.now + ms →
      ((b'.fire t).now = t ∧ GoesOn b (b'.fire t) ∧ Alert [] (b'.fire t)) := by
    rintro _ t b' ⟨rfl, hgoes, halert⟩ ht -
    obtain ⟨hgoes', halert'⟩ := fire_goesOn halert ht
    exact ⟨now_fire t b', hgoes.trans hgoes', halert'⟩
  obtain ⟨last, -, hlast, ⟨rfl, hgoes, halert⟩, hrest⟩ :=
    Agenda.run_induct hfire ⟨rfl, .refl b, hb⟩ (Nat.le_add_right b.now ms)
  obtain ⟨hgoes', halert'⟩ := clock_goesOn halert hlast (halert.punctual.later hrest)
  exact ⟨hgoes.trans hgoes', halert'⟩

end

/-! ## Runs -/

def Event.playback? : Event → Option Uuid
  | .play _ _ _ id => some id
  | _ => none

/-- No playback is asked for twice. -/
def Fresh (events : List Event) : Prop := (events.filterMap Event.playback?).Nodup

instance (events : List Event) : Decidable (Fresh events) :=
  inferInstanceAs (Decidable (List.Nodup _))

section

variable {b b₀ : Broker}

/-- Who is accepted is entered in the session registered on the port, and looks then. -/
theorem play_enters {id id' : Uuid} {port : Port} {payload : ByteArray} {format : Option String}
    (h : (b.play port payload format id).1 = .ok id') (hnew : b.exchange.story id = []) :
    id' = id ∧ ∃ i s r, b.session? i = some s ∧ s.port = port ∧ r.id = id ∧ Beat b (b.enter i r) ∧
      Acts (b.enter i r) (b.play port payload format id).2 ∧
      (b.play port payload format id).2.exchange =
        b.exchange.stepSession i (·.accept b.setup.play b.now r) := by
  obtain ⟨rfl, i, s, f, hnumber, hi, hopen, heq⟩ := Exchange.play_ok h
  obtain ⟨s', hi', hregistered, hport⟩ := Exchange.registered_of_numberAt? hnumber
  obtain rfl : s = s' := Option.some.inj (hi.symm.trans hi')
  let r : Request := ⟨id', payload, f⟩
  have hlooked := acts_of_stirs (b := b.enter i r) (Exchange.accept_stirs hi)
  refine ⟨rfl, i, s, r, hi, hport, rfl, .enter r hi hregistered hopen hnew, ?_, heq⟩
  unfold play
  dsimp only
  rw [heq]
  exact hlooked

theorem play_evolves {id : Uuid} (port : Port) (payload : ByteArray) (format : Option String)
    (hb : Alert [] b) (hnew : b.exchange.story id = []) :
    Evolves b (b.play port payload format id).2 ∧ Alert [] (b.play port payload format id).2 ∧
      ∀ k ≠ id, b.exchange.story k = [] →
        (b.play port payload format id).2.exchange.story k = [] := by
  cases hplay : (b.play port payload format id).1 with
  | error e =>
    have hsame : (b.play port payload format id).2 = b := by
      unfold play
      dsimp only
      rw [Exchange.play_error hplay]
    rw [hsame]
    exact ⟨.refl, hb, fun _ _ hk => hk⟩
  | ok id' =>
    obtain ⟨-, i, s, r, hi, -, rfl, henter, hlooked, heq⟩ := play_enters hplay hnew
    have hevolves : Evolves b (b.play port payload format r.id).2 := .head henter hlooked.evolves
    have harises : Arises b.setup.play (b.enter i r).exchange :=
      (Evolves.exchange (.single henter)).arises hb.arises
    obtain ⟨harises', hunheard⟩ := hlooked.unheard harises
    refine ⟨hevolves, ⟨harises', ?_⟩, fun k hk hnil => hunheard k ?_⟩
    · rw [heq]
      exact hb.punctual.accept hb.arises hi hnew
    · exact (Exchange.story_enter hk).trans hnil

/-- Every event lets the broker evolve, and nothing becomes known but what is asked for. -/
theorem step_evolves (hb : Alert [] b) {e : Event} (he : e.Fair b.allocator.range)
    (hnew : ∀ id, e.playback? = some id → b.exchange.story id = []) :
    Evolves b (b.step e) ∧ Alert [] (b.step e) ∧
      ∀ id, e.playback? ≠ some id → b.exchange.story id = [] →
        (b.step e).exchange.story id = [] := by
  have hdeeds := step_deeds b e he
  cases e with
  | play port payload format id =>
    obtain ⟨hevolves, halert, hunheard⟩ := play_evolves port payload format hb (hnew id rfl)
    exact ⟨hevolves, halert, fun k hk hnil => hunheard k (fun heq => hk (heq ▸ rfl)) hnil⟩
  | advance ms =>
    obtain ⟨hgoes, halert⟩ := advance_goesOn ms hb
    exact ⟨hgoes.evolves, halert, fun id _ hnil => hgoes.unheard id hnil⟩
  | _ =>
    have hacts := (hdeeds (by simp) (by simp)).acts
    obtain ⟨harises, hunheard⟩ := hacts.unheard hb.arises
    exact ⟨hacts.evolves, ⟨harises, hacts.punctual hb.punctual⟩, fun id _ hnil => hunheard id hnil⟩

/-- A run in which no playback is asked for twice lets the broker evolve, and nothing becomes known
but what is asked for. -/
theorem run_evolves (hb : Alert [] b) {events : List Event}
    (hfair : ∀ e ∈ events, e.Fair b.allocator.range) (hfresh : Fresh events)
    (hnew : ∀ id ∈ events.filterMap Event.playback?, b.exchange.story id = []) :
    Evolves b (b.run events) ∧ Alert [] (b.run events) ∧
      ∀ id ∉ events.filterMap Event.playback?, b.exchange.story id = [] →
        (b.run events).exchange.story id = [] := by
  induction events generalizing b with
  | nil => exact ⟨.refl, hb, fun _ _ hnil => hnil⟩
  | cons e events ih =>
    obtain ⟨hfresh', hfirst⟩ := nodup_filterMap_cons.mp hfresh
    obtain ⟨hevolves, halert, hunheard⟩ := step_evolves hb (hfair e (List.mem_cons_self ..))
      fun id hid => hnew id (mem_filterMap_cons.mpr (.inl hid))
    have hfair' : ∀ e' ∈ events, e'.Fair (b.step e).allocator.range := by
      rw [hevolves.follows.allocator]
      exact fun e' he' => hfair e' (List.mem_cons_of_mem _ he')
    have hnew' : ∀ id ∈ events.filterMap Event.playback?, (b.step e).exchange.story id = [] :=
      fun id hid => hunheard id (fun heq => hfirst id heq hid)
        (hnew id (mem_filterMap_cons.mpr (.inr hid)))
    obtain ⟨hevolves', halert', hunheard'⟩ := ih halert hfair' hfresh' hnew'
    refine ⟨hevolves.trans hevolves', halert', fun id hid hnil => ?_⟩
    rw [mem_filterMap_cons, not_or] at hid
    exact hunheard' id hid.2 (hunheard id hid.1 hnil)

theorem start_alert {setup : BrokerSetup} {calendar : Timestamp}
    (h : start setup calendar = .ok b) : Alert [] b := by
  have hx := start_exchange h
  refine ⟨hx ▸ .start calendar, ?_⟩
  rw [hx]
  simp [Punctual]

section

variable {setup : BrokerSetup} {calendar : Timestamp}

/-- A run from the start leads to a broker that comes about. -/
theorem run_reachable (hstart : start setup calendar = .ok b₀) {events : List Event}
    (hfair : ∀ e ∈ events, e.Fair b₀.allocator.range) (hfresh : Fresh events) :
    (b₀.run events).Reachable := by
  have hnew : ∀ id ∈ events.filterMap Event.playback?, b₀.exchange.story id = [] := by
    rw [start_exchange hstart]
    exact fun _ _ => rfl
  exact ⟨setup, calendar, b₀, hstart, (run_evolves (start_alert hstart) hfair hfresh hnew).1⟩

theorem run_take_reachable (hstart : start setup calendar = .ok b₀) {events : List Event}
    (hfair : ∀ e ∈ events, e.Fair b₀.allocator.range) (hfresh : Fresh events) (k : Nat) :
    (b₀.run (events.take k)).Reachable :=
  run_reachable hstart (fun e he => hfair e (List.take_subset k _ he))
    (hfresh.sublist ((List.take_sublist k _).filterMap _))

/-- A run is fair in which every candidate drawn is the same port of the range. -/
theorem fair_of_draw (events : List Event) (p : Port) (hstart : start setup calendar = .ok b₀)
    (hp : setup.low ≤ p ∧ p ≤ setup.high)
    (hdraw : ∀ chance, .openSession chance ∈ events → chance.draw = fun _ _ => p) :
    ∀ e ∈ events, e.Fair b₀.allocator.range := by
  obtain ⟨hlow, hhigh, -⟩ := start_ok hstart
  intro e he
  cases e with
  | openSession chance =>
    intro round i
    rw [hdraw chance he, PortRange.contains, hlow, hhigh]
    simpa using hp
  | _ => trivial

theorem run_append (before after : List Event) (b : Broker) :
    b.run (before ++ after) = (b.run before).run after := List.foldl_append

/-- A run lets the broker evolve from each of its points on. -/
theorem run_continues (hstart : start setup calendar = .ok b₀) (before after : List Event)
    (hfair : ∀ e ∈ before ++ after, e.Fair b₀.allocator.range) (hfresh : Fresh (before ++ after)) :
    Evolves (b₀.run before) (b₀.run (before ++ after)) ∧ Alert [] (b₀.run before) := by
  have hnil : ∀ id, b₀.exchange.story id = [] := by
    rw [start_exchange hstart]
    exact fun _ => rfl
  unfold Fresh at hfresh
  rw [List.filterMap_append] at hfresh
  obtain ⟨hbefore, hafter, hapart⟩ := List.nodup_append.mp hfresh
  obtain ⟨hevolves, halert, hunheard⟩ := run_evolves (start_alert hstart)
    (fun e he => hfair e (List.mem_append_left _ he)) hbefore fun id _ => hnil id
  have hrest := run_evolves (b := b₀.run before) halert
    (fun e he => hevolves.follows.allocator ▸ hfair e (List.mem_append_right _ he)) hafter
    fun id hid => hunheard id (fun hmem => hapart id hmem id hid rfl) (hnil id)
  refine ⟨?_, halert⟩
  rw [run_append]
  exact hrest.1

end

end

end Broker

end RtpBroker
