import RtpBroker.Proofs.Acts

/-!
# What the broker does with its ports

The ledger of a broker is its pool together with the posts of its sessions. It
changes by transfers only: cooled ports are drained, a port is held for a moment
and freed again, a session is opened on a held port, it leaves its port, or it
vacates it. Every operation of the broker is a chain of transfers.
-/

namespace RtpBroker

structure Ledger where
  pool : PortPool
  posts : List Post

inductive Transfer (a : Allocator) : Ledger → Ledger → Prop
  | drain (l : Ledger) (time : Nat) : Transfer a l ⟨a.drain time l.pool, l.posts⟩
  | bounce (l : Ledger) {p : Port} (hfree : l.pool.isOccupied p = false) :
      Transfer a l ⟨((l.pool.reserve p).2.free p).2, l.posts⟩
  | enter (l : Ledger) {p : Port} (heven : isEven p = true) (hin : a.range.contains p = true)
      (hfree : l.pool.isOccupied p = false) :
      Transfer a l ⟨(l.pool.reserve p).2, l.posts ++ [(p, .registered)]⟩
  | leave (pool : PortPool) (before after : List Post) (p : Port) :
      Transfer a ⟨pool, before ++ (p, .registered) :: after⟩
        ⟨pool, before ++ (p, .leaving) :: after⟩
  | vacate (pool : PortPool) (before after : List Post) (p : Port) (time : Nat) :
      Transfer a ⟨pool, before ++ (p, .leaving) :: after⟩
        ⟨(a.giveBack time p pool).2, before ++ (p, .gone) :: after⟩

namespace Broker

def ledger (b : Broker) : Ledger := ⟨b.pool, b.exchange.posts⟩

/-- A broker comes from another by transfers. -/
structure Follows (b b' : Broker) : Prop where
  setup : b'.setup = b.setup
  allocator : b'.allocator = b.allocator
  transfers : Relation.ReflTransGen (Transfer b.allocator) b.ledger b'.ledger

section

variable {b b' b'' : Broker}

@[refl] theorem Follows.refl (b : Broker) : Follows b b := ⟨rfl, rfl, .refl⟩

theorem Follows.trans (h : Follows b b') (h' : Follows b' b'') : Follows b b'' := by
  refine ⟨h'.setup.trans h.setup, h'.allocator.trans h.allocator, h.transfers.trans ?_⟩
  rw [← h.allocator]
  exact h'.transfers

theorem Follows.of_transfer (hsetup : b'.setup = b.setup) (hallocator : b'.allocator = b.allocator)
    (h : Transfer b.allocator b.ledger b'.ledger) : Follows b b' :=
  ⟨hsetup, hallocator, .single h⟩

theorem Follows.of_ledger (hsetup : b'.setup = b.setup) (hallocator : b'.allocator = b.allocator)
    (h : b'.ledger = b.ledger) : Follows b b' :=
  ⟨hsetup, hallocator, by rw [h]⟩

end

/-! ## Acts -/

theorem ledger_stir {b : Broker} {x : Exchange} (h : Exchange.Stir b.setup.play b.exchange x) :
    ({ b with exchange := x } : Broker).ledger = b.ledger := by
  have hposts : x.posts = b.exchange.posts := by
    cases h with
    | move hi h _ => exact Exchange.posts_performs hi h.post
    | _ => rfl
  simp only [ledger, hposts]

theorem Act.follows {b b' : Broker} (h : Act b b') : Follows b b' := by
  cases h with
  | inside h => exact .of_ledger rfl rfl (ledger_stir h)
  | @enroll p heven hin hfree _ =>
    refine .of_transfer rfl rfl ?_
    have htransfer := Transfer.enter b.ledger heven hin hfree
    simpa [ledger, Broker.enroll, Exchange.enroll, Exchange.posts, Session.opened, Session.post]
      using htransfer
  | @leave i s hi h =>
    obtain ⟨before, after, hsplit, hleave⟩ :=
      Exchange.posts_stand hi (f := fun s => (s.leave, []))
        (show s.leave.post = (s.port, .leaving) from rfl)
    refine .of_transfer rfl rfl ?_
    have htransfer := Transfer.leave (a := b.allocator) b.pool before after s.port
    rw [← h, ← hleave] at htransfer
    rw [ledger, hsplit]
    exact htransfer
  | quiet i =>
    obtain ⟨_, heq⟩ := b.endListener_eq i
    rw [heq]
    exact .of_ledger rfl rfl rfl
  | @vacate i s hi h _ _ =>
    obtain ⟨before, after, hsplit, hgone⟩ :=
      Exchange.posts_stand hi (f := fun s => ({ s with standing := .gone }, []))
        (show _ = (s.port, .gone) from rfl)
    refine .of_transfer rfl rfl ?_
    have htransfer := Transfer.vacate (a := b.allocator) b.pool before after s.port b.now
    rw [← h, ← hgone] at htransfer
    rw [ledger, hsplit]
    exact htransfer
  | drain => exact .of_transfer rfl rfl (.drain b.ledger b.now)
  | bounce hfree => exact .of_transfer rfl rfl (.bounce b.ledger hfree)
  | arrange => exact .of_ledger rfl rfl rfl

theorem Acts.follows {b b' : Broker} (h : Acts b b') : Follows b b' := by
  induction h with
  | refl => exact .refl b
  | tail _ hlast ih => exact ih.trans hlast.follows

theorem play_follows (port : Port) (payload : ByteArray) (format : Option String) (id : Uuid)
    (b : Broker) : Follows b (b.play port payload format id).2 := by
  refine .of_ledger rfl rfl ?_
  simp only [ledger, play, Exchange.posts_play]

theorem fire_follows (t : Nat) (b : Broker) : Follows b (b.fire t) := by
  let later : Broker :=
    { b with exchange := { b.exchange with now := t, agenda := b.exchange.agenda.after t } }
  have hlater : Follows b later := .of_ledger rfl rfl rfl
  exact hlater.trans (deeds_foldl ring_deeds (b.exchange.agenda.dueAt t) later).acts.follows

theorem advance_follows (ms : Nat) (b : Broker) : Follows b (b.advance ms) := by
  have hfire : ∀ now t (b' : Broker), Follows b b' →
      b'.exchange.agenda.nextAfter? now = some t → t ≤ b.now + ms → Follows b (b'.fire t) :=
    fun _ t b' h _ _ => h.trans (fire_follows t b')
  obtain ⟨-, -, -, hrun, -⟩ := Agenda.run_induct hfire (.refl b) (Nat.le_add_right b.now ms)
  exact hrun.trans (.of_ledger rfl rfl rfl)

/-! ## Runs -/

/-- What can happen to a broker. A teardown can complete whenever nothing goes on in its session,
whether somebody waits for it or not. -/
inductive Event
  | openSession (chance : Chance)
  | release (port : Port)
  | detach (port : Port)
  | complete (session : Nat)
  | play (port : Port) (payload : ByteArray) (format : Option String) (id : Uuid)
  | receive (session : Nat) (sender : SocketAddr)
  | endProgram (session : Nat) (ending : Ending) (held : Bool)
  | closeOutput (session : Nat)
  | releaseIdle (limit : Nat)
  | startReaper (interval : Nat) (idleLimit : Option Nat) (retention : Nat)
  | shutDown
  | advance (ms : Nat)

/-- Candidates are drawn from the range. -/
def Event.Fair (r : PortRange) : Event → Prop
  | .openSession chance => DrawnFrom r chance
  | _ => True

def step (b : Broker) : Event → Broker
  | .openSession chance => (b.openSession chance).2
  | .release port => (b.release port).2
  | .detach port => (b.detach port).2
  | .complete session => b.completeSession session
  | .play port payload format id => (b.play port payload format id).2
  | .receive session sender => b.receive session sender
  | .endProgram session ending held => b.endProgram session ending held
  | .closeOutput session => b.closeOutput session
  | .releaseIdle limit => (b.releaseIdle limit).2
  | .startReaper interval idleLimit retention => b.startReaper interval idleLimit retention
  | .shutDown => b.shutDown
  | .advance ms => b.advance ms

def run (events : List Event) (b : Broker) : Broker := events.foldl step b

/-- Only to accept a playback and the clock's going on are more than a chain of deeds. -/
theorem step_deeds (b : Broker) (e : Event) (he : e.Fair b.allocator.range)
    (hplay : ∀ port payload format id, e ≠ .play port payload format id)
    (hadvance : ∀ ms, e ≠ .advance ms) : Deeds b (b.step e) := by
  cases e with
  | openSession chance => exact openSession_deeds chance b he
  | release port => exact release_deeds port b
  | detach port => exact detach_deeds port b
  | complete session => exact completeSession_deeds b session
  | play port payload format id => exact absurd rfl (hplay port payload format id)
  | receive session sender => exact receive_deeds session sender b
  | endProgram session ending held =>
    exact inExchange_deeds (.endProgram session ending held)
  | closeOutput session => exact inExchange_deeds (.closeOutput session)
  | releaseIdle limit => exact releaseIdle_deeds limit b
  | startReaper interval idleLimit retention =>
    exact startReaper_deeds interval idleLimit retention b
  | shutDown => exact shutDown_deeds b
  | advance ms => exact absurd rfl (hadvance ms)

theorem step_follows (b : Broker) (e : Event) (he : e.Fair b.allocator.range) :
    Follows b (b.step e) := by
  have hdeeds := step_deeds b e he
  cases e with
  | play port payload format id => exact play_follows port payload format id b
  | advance ms => exact advance_follows ms b
  | _ => exact (hdeeds (by simp) (by simp)).acts.follows

theorem run_follows (events : List Event) (b : Broker)
    (hfair : ∀ e ∈ events, e.Fair b.allocator.range) : Follows b (b.run events) := by
  induction events generalizing b with
  | nil => exact .refl b
  | cons e events ih =>
    have hstep := step_follows b e (hfair e (List.mem_cons_self ..))
    refine hstep.trans (ih (b.step e) fun e' he' => ?_)
    rw [hstep.allocator]
    exact hfair e' (List.mem_cons_of_mem _ he')

end Broker

end RtpBroker
