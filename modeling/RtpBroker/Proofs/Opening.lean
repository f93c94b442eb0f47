import RtpBroker.Proofs.Evolution

/-!
# What opening a session leaves behind

Opening a session tries to bind one allocated port after the other. A port that
cannot be bound is given back before the next one is allocated, so every round
finds the pool as the first one did, but for ports that have cooled down. What
the whole call leaves behind is therefore the trace of its last round: a session
on a port held for it, or no more than a count.
-/

namespace RtpBroker

namespace Broker

/-- A port on which a socket was to be bound, and why it could not be. -/
structure Bind where
  port : Port
  error? : Option String
  deriving DecidableEq, Repr

/-- A session listens on a port that is held for it. -/
def install (p : Port) (b : Broker) : Broker :=
  { b with
    exchange := { b.exchange with
      sessions := b.exchange.sessions ++ [(Session.opened p b.now).advanceTo .listening]
      metrics := b.exchange.metrics.sessionOpened }
    listeners := b.listeners ++ [b.exchange.sessions.length] }

/-- Opens a session as `openFrom` does, and writes down every bind that is attempted. -/
def openLogged (chance : Chance) :
    Nat → Nat → Fault → Broker → List Bind × Except Fault Endpoint × Broker
  | 0, _, failure, b => ([], .error failure, b.countAllocation "bind_error")
  | n + 1, round, _, b =>
    match b.allocator.allocate b.now (chance.draw round) b.pool with
    | (.error e, pool) => ([], .error e, { b with pool }.countAllocation "exhausted")
    | (.ok port, pool) =>
      let b := { b with pool }
      match chance.bindError? round port with
      | some text =>
        let (binds, rest) := openLogged chance n (round + 1) (.system text)
          { b with pool := (b.pool.free port).2 }
        (⟨port, some text⟩ :: binds, rest)
      | none => ([⟨port, none⟩], b.register port)

theorem openLogged_snd (chance : Chance) (n round : Nat) (failure : Fault) (b : Broker) :
    (openLogged chance n round failure b).2 = openFrom chance n round failure b := by
  induction n generalizing round failure b with
  | zero => rfl
  | succ n ih =>
    rw [openLogged, openFrom]
    rcases b.allocator.allocate b.now (chance.draw round) b.pool with ⟨e | port, pool⟩
    · rfl
    · dsimp only
      cases chance.bindError? round port with
      | some text => exact ih _ _ _
      | none => rfl

def bindLimit (b : Broker) : Nat := max b.setup.bindAttempts.toNat 1

/-- The binds that opening a session attempts, in their order. -/
def binds (chance : Chance) (b : Broker) : List Bind :=
  (openLogged chance b.bindLimit 0 (.internal "keine Bind-Versuche konfiguriert") b).1

/-- The pool once all that has cooled down is drained. -/
def drained (b : Broker) : PortPool := b.allocator.drain b.now b.pool

/-! ## What a call leaves behind -/

/-- How a call can end: no port is left to try, the last port that may be tried cannot be bound, or
a session is opened on the first port that can. -/
inductive Outcome (b : Broker) : List Bind → Except Fault Endpoint × Broker → Prop
  | exhausted {failed : List Bind} {n : UInt32} {pool : PortPool}
      (hfailed : ∀ bind ∈ failed, bind.error?.isSome) (hcount : failed.length < b.bindLimit)
      (hpool : pool.Alike b.drained) :
      Outcome b failed (.error (.portsExhausted n), { b with pool }.countAllocation "exhausted")
  | unbound {failed : List Bind} {port : Port} {text : String} {pool : PortPool}
      (hfailed : ∀ bind ∈ failed, bind.error?.isSome) (hcount : failed.length + 1 = b.bindLimit)
      (hpool : pool.Alike b.drained) :
      Outcome b (failed ++ [⟨port, some text⟩])
        (.error (.system text), { b with pool }.countAllocation "bind_error")
  | opened {failed : List Bind} {port : Port} {pool : PortPool}
      (hfailed : ∀ bind ∈ failed, bind.error?.isSome) (hcount : failed.length < b.bindLimit)
      (heven : isEven port = true) (hin : b.allocator.range.contains port = true)
      (hfree : b.drained.isOccupied port = false)
      (hpool : pool.Alike (b.drained.reserve port).2) :
      Outcome b (failed ++ [⟨port, none⟩])
        (.ok ⟨b.setup.publicHost, port⟩, ({ b with pool }.install port).countAllocation "ok")

end Broker

namespace Exchange

/-- A session listens at once when it is created on a port of nobody's. -/
theorem create_listening {p : Port} {x : Exchange} (h : x.numberAt? p = none) :
    ∃ x', x.create p = (.ok x.sessions.length, x') ∧ x'.mark .listening x.sessions.length =
      { x with
        sessions := x.sessions ++ [(Session.opened p x.now).advanceTo .listening]
        metrics := x.metrics.sessionOpened } := by
  refine ⟨_, by rw [create, h], ?_⟩
  simp [mark, stepSession]

end Exchange

namespace Broker

variable {b : Broker} {chance : Chance} {p : Port} {pool : PortPool}

theorem numberAt?_of_free (h : Ledger.Conserved b.allocator.range ⟨pool, b.exchange.posts⟩)
    (hfree : pool.isOccupied p = false) : b.exchange.numberAt? p = none := by
  cases hnumber : b.exchange.numberAt? p with
  | none => rfl
  | some i =>
    have hcreate : b.exchange.create p = (.error (.portTaken p), b.exchange) := by
      rw [Exchange.create, hnumber]
    have hheld : p ∈ Ledger.held ⟨pool, b.exchange.posts⟩ :=
      List.mem_map.mpr ⟨_, List.mem_filter.mpr ⟨(Exchange.create_error hcreate).2, rfl⟩, rfl⟩
    simp [h.occupied_of_held hheld] at hfree

theorem register_of_free (pool : PortPool) (h : b.exchange.numberAt? p = none) :
    { b with pool }.register p =
      (.ok ⟨b.setup.publicHost, p⟩, ({ b with pool }.install p).countAllocation "ok") := by
  obtain ⟨x, hcreate, hmark⟩ := Exchange.create_listening h
  unfold register
  dsimp only
  rw [hcreate]
  dsimp only
  rw [hmark]
  rfl

/-- The rounds so far have failed; `failure` is what the last of them has left. -/
inductive Failed (b : Broker) (pool : PortPool) : Fault → List Bind → Prop
  | none (failure : Fault) (hpool : pool = b.pool) : Failed b pool failure []
  | last {failed : List Bind} (port : Port) (text : String)
      (hfailed : ∀ bind ∈ failed, bind.error?.isSome) (hpool : pool.Alike b.drained) :
      Failed b pool (.system text) (failed ++ [⟨port, some text⟩])

theorem Failed.isSome {failure : Fault} {failed : List Bind} (h : Failed b pool failure failed) :
    ∀ bind ∈ failed, bind.error?.isSome := by
  intro bind hbind
  cases h with
  | none => cases hbind
  | last port text hfailed =>
    rcases List.mem_append.mp hbind with hbind | hbind
    · exact hfailed bind hbind
    · rw [List.mem_singleton.mp hbind]
      rfl

/-- A drain finds the same ports to be free after some failed rounds as before them. -/
theorem Failed.drained {failure : Fault} {failed : List Bind} (h : Failed b pool failure failed) :
    (b.allocator.drain b.now pool).Alike b.drained := by
  cases h with
  | none _ hpool =>
    rw [hpool]
    exact .refl _
  | last _ _ _ hpool =>
    exact (hpool.drain _ _).trans (PortPool.drain_drain (Nat.le_refl _) b.pool)

theorem openLogged_outcome (h : Ledger.Conserved b.allocator.range b.ledger)
    (hchance : DrawnFrom b.allocator.range chance) (n round : Nat) {failure : Fault}
    {failed : List Bind} (hfailed : Failed b pool failure failed)
    (hcount : failed.length + n = b.bindLimit) :
    Outcome b (failed ++ (openLogged chance n round failure { b with pool }).1)
      (openLogged chance n round failure { b with pool }).2 := by
  induction n generalizing round failure failed pool with
  | zero =>
    cases hfailed with
    | none =>
      have hpos : 1 ≤ b.bindLimit := Nat.le_max_right _ _
      simp only [List.length_nil] at hcount
      omega
    | last port text hsome hpool =>
      rw [openLogged, List.append_nil]
      rw [List.length_append, List.length_singleton] at hcount
      exact .unbound hsome hcount hpool
  | succ n ih =>
    have halike := hfailed.drained
    have hconserved : Ledger.Conserved b.allocator.range ⟨b.drained, b.exchange.posts⟩ :=
      h.drain b.allocator b.now
    unfold openLogged
    split
    · next hallocate =>
      obtain ⟨rfl, k, rfl⟩ := Allocator.allocate_error hallocate
      rw [List.append_nil]
      exact .exhausted hfailed.isSome (by omega) halike
    · next p found hallocate =>
      obtain ⟨⟨j, rfl⟩, heven, hfree, rfl⟩ := Allocator.allocate_ok hallocate
      have hfree' : b.drained.isOccupied (chance.draw round j) = false :=
        (halike.isOccupied _).symm.trans hfree
      have hcool := hconserved.coolingSince?_of_free hfree'
      dsimp only
      split
      · next text _ =>
        -- The port goes back to a pool that is as it was before the round.
        have hback := (((halike.reserve _).free _).trans (PortPool.free_reserve hfree' hcool))
        have hnext := ih (round + 1) (.last (chance.draw round j) text hfailed.isSome hback)
          (by rw [List.length_append, List.length_singleton]; omega)
        rw [List.append_assoc] at hnext
        exact hnext
      · next hbound =>
        rw [register_of_free _ (numberAt?_of_free hconserved hfree')]
        exact .opened hfailed.isSome (by omega) heven (hchance round j) hfree' (halike.reserve _)

theorem openSession_outcome (h : Ledger.Conserved b.allocator.range b.ledger)
    (hchance : DrawnFrom b.allocator.range chance) :
    Outcome b (b.binds chance) (b.openSession chance) := by
  have hnone : Failed b b.pool (.internal "keine Bind-Versuche konfiguriert") [] := .none _ rfl
  have hlogged := openLogged_outcome h hchance b.bindLimit 0 hnone (Nat.zero_add _)
  rw [List.nil_append, openLogged_snd] at hlogged
  exact hlogged

/-- The label under which a result is counted. -/
def resultLabel : Except Fault Endpoint → String
  | .ok _ => "ok"
  | .error (.portsExhausted _) => "exhausted"
  | .error (.system _) => "bind_error"
  | .error _ => "error"

theorem count_countAllocation (result label : String) (b : Broker) :
    (b.countAllocation result).exchange.metrics.allocations.count [label] =
      b.exchange.metrics.allocations.count [label] + if result = label then 1 else 0 :=
  Family.count_change ..

/-- What a call leaves that fails with `e`. -/
structure Untouched (b : Broker) (binds : List Bind) (e : Fault) (after : Broker) : Prop where
  unbound : ∀ bind ∈ binds, bind.error?.isSome
  reason : (∃ n, e = .portsExhausted n) ∨ binds.length = max b.setup.bindAttempts.toNat 1 ∧
    ∃ port text, binds.getLast? = some ⟨port, some text⟩ ∧ e = .system text
  pool : after.pool.Alike (b.allocator.drain b.now b.pool)
  rest : after = { b with pool := after.pool }.countAllocation (resultLabel (.error e))

/-- What a call leaves that opens a session on a port, after `failed` binds. -/
structure Added (b : Broker) (failed : List Bind) (port : Port) (binds : List Bind) (e : Endpoint)
    (after : Broker) : Prop where
  unbound : ∀ bind ∈ failed, bind.error?.isSome
  bound : binds = failed ++ [⟨port, none⟩]
  endpoint : e = ⟨b.setup.publicHost, port⟩
  even : isEven port = true
  contained : b.allocator.range.contains port = true
  free : (b.allocator.drain b.now b.pool).isOccupied port = false
  occupied : ∀ q, after.pool.isOccupied q =
    (port == q || (b.allocator.drain b.now b.pool).isOccupied q)
  cooling : ∀ q, after.pool.coolingSince? q = (b.allocator.drain b.now b.pool).coolingSince? q
  not_cooling : after.pool.coolingSince? port = none
  rest : after =
    ({ b with pool := after.pool }.install port).countAllocation (resultLabel (.ok e))

/-- However many rounds fail, and in whatever way, the call attempts no more binds than it may. A
call that fails leaves everything as it was but for the ports that have cooled down, and its
failure is that no port was free for a round, or why the last bind failed. A call that succeeds has
added one session, on the port of the first bind that did not fail, and this port alone is occupied
besides those that were. Either way one count has grown by one, that of the result. -/
theorem openSession_traceless (hb : b.Reachable) (hchance : DrawnFrom b.allocator.range chance) :
    let limit := max b.setup.bindAttempts.toNat 1
    let binds := b.binds chance
    let result := (b.openSession chance).1
    let after := (b.openSession chance).2
    openLogged chance limit 0 (.internal "keine Bind-Versuche konfiguriert") b =
      (binds, result, after) ∧
    binds.length ≤ limit ∧
    (∀ e, result = .error e → Untouched b binds e after) ∧
    (∀ e, result = .ok e → ∃ failed port, Added b failed port binds e after) ∧
    ∀ label, after.exchange.metrics.allocations.count [label] =
      b.exchange.metrics.allocations.count [label] + if resultLabel result = label then 1 else 0 := by
  intro limit binds result after
  have hlogged : openLogged chance limit 0 (.internal "keine Bind-Versuche konfiguriert") b =
      (binds, result, after) := Prod.ext rfl (openLogged_snd ..)
  have hconserved : Ledger.Conserved b.allocator.range ⟨b.drained, b.exchange.posts⟩ :=
    hb.conserved.drain b.allocator b.now
  have houtcome : Outcome b binds (result, after) := openSession_outcome hb.conserved hchance
  refine ⟨hlogged, ?_⟩
  clear_value binds result after
  cases houtcome with
  | exhausted hfailed hcount hpool =>
    refine ⟨Nat.le_of_lt hcount, fun e he => ?_, fun _ he => (by cases he),
      fun label => count_countAllocation ..⟩
    cases he
    exact ⟨hfailed, Or.inl ⟨_, rfl⟩, hpool, rfl⟩
  | @unbound failed port text pool hfailed hcount hpool =>
    have hlength : (failed ++ [(⟨port, some text⟩ : Bind)]).length = limit := by
      rw [List.length_append, List.length_singleton]
      exact hcount
    refine ⟨Nat.le_of_eq hlength, fun e he => ?_, fun _ he => (by cases he),
      fun label => count_countAllocation ..⟩
    cases he
    exact ⟨(Failed.last port text hfailed hpool).isSome,
      Or.inr ⟨hlength, port, text, List.getLast?_concat, rfl⟩, hpool, rfl⟩
  | @opened failed port pool hfailed hcount heven hin hfree hpool =>
    have hlength : (failed ++ [(⟨port, none⟩ : Bind)]).length ≤ limit := by
      rw [List.length_append, List.length_singleton]
      exact hcount
    have hcool (q : Port) : pool.coolingSince? q = b.drained.coolingSince? q :=
      (hpool.coolingSince? q).trans PortPool.coolingSince?_reserve
    refine ⟨hlength, fun _ he => (by cases he), fun e he => ⟨failed, port, ?_⟩,
      fun label => count_countAllocation ..⟩
    cases he
    exact {
      unbound := hfailed
      bound := rfl
      endpoint := rfl
      even := heven
      contained := hin
      free := hfree
      occupied := fun q => (hpool.isOccupied q).trans PortPool.isOccupied_reserve
      cooling := hcool
      not_cooling := (hcool port).trans (hconserved.coolingSince?_of_free hfree)
      rest := rfl }

/-- The first port cannot be bound, the second one can. -/
def secondBound : Chance :=
  ⟨fun round _ => if round = 0 then 10000 else 10004,
    fun round _ => if round = 0 then some "Address already in use" else none⟩

theorem secondBound_drawn {r : PortRange} (hlow : r.low = 10000) (hhigh : r.high = 10007) :
    DrawnFrom r secondBound := by
  intro round i
  simp only [secondBound, PortRange.contains, hlow, hhigh]
  split <;> decide

theorem openSession_traceless_secondBound :
    ∃ b₀, start { low := 10000, high := 10007 } ⟨0, 0⟩ = .ok b₀ ∧
      let b := b₀.run twoSessions
      b.pool.ports = [10002, 10006] ∧
      b.binds secondBound = [⟨10000, some "Address already in use"⟩, ⟨10004, none⟩] ∧
      (∃ failed port, Added b failed port (b.binds secondBound) ⟨"127.0.0.1", 10004⟩
        (b.openSession secondBound).2) ∧
      (b.openSession secondBound).2.pool.ports = [10002, 10004, 10006] ∧
      (b.openSession secondBound).2.exchange.metrics.allocations.count ["ok"] = 3 := by
  obtain ⟨b₀, hstart, hports, hbinds, hresult, hports', hcount⟩ :
      ∃ b₀, start { low := 10000, high := 10007 } ⟨0, 0⟩ = .ok b₀ ∧
        (b₀.run twoSessions).pool.ports = [10002, 10006] ∧
        (b₀.run twoSessions).binds secondBound =
          [⟨10000, some "Address already in use"⟩, ⟨10004, none⟩] ∧
        ((b₀.run twoSessions).openSession secondBound).1 = .ok ⟨"127.0.0.1", 10004⟩ ∧
        ((b₀.run twoSessions).openSession secondBound).2.pool.ports = [10002, 10004, 10006] ∧
        (b₀.run twoSessions).exchange.metrics.allocations.count ["ok"] = 2 :=
    ⟨_, rfl, by decide +kernel, by decide +kernel, by decide +kernel, by decide +kernel,
      by decide +kernel⟩
  obtain ⟨hlow, hhigh, -⟩ := start_ok hstart
  have hfair := twoSessions_fair hlow hhigh
  have hallocator := (run_follows twoSessions b₀ hfair).allocator
  have hdrawn : DrawnFrom (b₀.run twoSessions).allocator.range secondBound := by
    rw [hallocator]
    exact secondBound_drawn hlow hhigh
  obtain ⟨-, -, -, hadded, hcounts⟩ :=
    openSession_traceless (run_reachable hstart hfair (by decide)) hdrawn
  refine ⟨b₀, hstart, hports, hbinds, hadded _ hresult, hports', ?_⟩
  rw [hcounts, hcount, hresult]
  rfl

end Broker

end RtpBroker
