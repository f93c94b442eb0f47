import Mathlib.Logic.Function.Basic
import RtpBroker.Allocator

/-!
# Clients that share an allocator

An allocation touches the pool several times: it drains it at a time read
before, counts its ports, and then tries one candidate after the other. Here
each of these is an action of its own, so the calls of any number of clients
interleave in every way. A client that is left alone does in its actions what
`Allocator.allocate` does at once.
-/

namespace RtpBroker.Contention

/-- What a client is in the middle of. -/
inductive Call
  | idle
  /-- It has read the clock, and drains the pool next, for an allocation or for its own sake. -/
  | draining (seen : Nat) (allocates : Bool)
  | counting
  /-- It tries at most so many candidates more. -/
  | searching (left : Nat)
  deriving DecidableEq, Repr

inductive Action
  | beginAllocation (client : Nat)
  | beginDrain (client : Nat)
  | drain (client : Nat)
  | count (client : Nat)
  | attempt (client : Nat) (candidate : Port)
  | free (port : Port)
  | giveBack (port : Port)
  | wait (ms : Nat)
  deriving DecidableEq, Repr

inductive Report
  | took (client : Nat) (port : Port)
  | failed (client : Nat) (fault : Fault)
  | freed (port : Port) (wasOccupied : Bool)
  | returned (port : Port) (wasOccupied : Bool)
  deriving DecidableEq, Repr

structure Note where
  time : Nat
  report : Report
  deriving DecidableEq, Repr

structure Desk where
  now : Nat := 0
  pool : PortPool := {}
  calls : Nat → Call := fun _ => .idle
  log : List Note := []

namespace Desk

def setCall (k : Nat) (c : Call) (d : Desk) : Desk :=
  { d with calls := Function.update d.calls k c }

def note (r : Report) (d : Desk) : Desk := { d with log := d.log ++ [⟨d.now, r⟩] }

def goOn (a : Allocator) (k left : Nat) (d : Desk) : Desk :=
  if left = 0 then (d.note (.failed k (.portsExhausted a.attempts))).setCall k .idle
  else d.setCall k (.searching left)

/-- Carries out an action; one that does not fit what its client is doing changes nothing. -/
def act (a : Allocator) (d : Desk) : Action → Desk
  | .beginAllocation k =>
    match d.calls k with
    | .idle => d.setCall k (.draining d.now true)
    | _ => d
  | .beginDrain k =>
    match d.calls k with
    | .idle => d.setCall k (.draining d.now false)
    | _ => d
  | .drain k =>
    match d.calls k with
    | .draining seen allocates =>
      { d with pool := a.drain seen d.pool }.setCall k (if allocates then .counting else .idle)
    | _ => d
  | .count k =>
    match d.calls k with
    | .counting =>
      if a.isFull d.pool then (d.note (.failed k (.portsExhausted 0))).setCall k .idle
      else d.goOn a k a.attempts.toNat
    | _ => d
  | .attempt k p =>
    match d.calls k with
    | .searching left =>
      match Allocator.attempt p d.pool with
      | (true, pool) => ({ d with pool }.note (.took k p)).setCall k .idle
      | (false, _) => d.goOn a k (left - 1)
    | _ => d
  | .free p => { d with pool := (d.pool.free p).2 }.note (.freed p (d.pool.free p).1)
  | .giveBack p =>
    { d with pool := (a.giveBack d.now p d.pool).2 }.note
      (.returned p (a.giveBack d.now p d.pool).1)
  | .wait ms => { d with now := d.now + ms }

def run (a : Allocator) (acts : List Action) (d : Desk) : Desk := acts.foldl (act a) d

end Desk

/-! ## A client on its own -/

def reportOf (k : Nat) : Except Fault Port → Report
  | .ok p => .took k p
  | .error e => .failed k e

def attempts (k : Nat) (draw : Nat → Port) (n i : Nat) : List Action :=
  (List.range' i n).map fun j => .attempt k (draw j)

theorem attempts_succ (k : Nat) (draw : Nat → Port) (n i : Nat) :
    attempts k draw (n + 1) i = .attempt k (draw i) :: attempts k draw n (i + 1) := by
  simp [attempts, List.range'_succ]

theorem run_attempts_idle (a : Allocator) (k : Nat) (draw : Nat → Port) (n i : Nat) (d : Desk)
    (hk : d.calls k = .idle) : d.run a (attempts k draw n i) = d := by
  induction n generalizing i with
  | zero => rfl
  | succ n ih =>
    rw [attempts_succ]
    change (d.act a (.attempt k (draw i))).run a (attempts k draw n (i + 1)) = d
    rw [show d.act a (.attempt k (draw i)) = d by simp only [Desk.act, hk], ih]

/-- A search that nobody disturbs finds what the search in one go finds. -/
theorem run_attempts (a : Allocator) (k : Nat) (draw : Nat → Port) (n i : Nat) (d : Desk) :
    ((d.goOn a k n).run a (attempts k draw n i)).pool =
        ((Allocator.search draw d.pool n i).map Prod.snd).getD d.pool ∧
      ((d.goOn a k n).run a (attempts k draw n i)).log = d.log ++ [⟨d.now,
        match Allocator.search draw d.pool n i with
        | some (p, _) => .took k p
        | none => .failed k (.portsExhausted a.attempts)⟩] := by
  induction n generalizing i with
  | zero => exact ⟨rfl, rfl⟩
  | succ n ih =>
    rw [attempts_succ]
    change ((Desk.act a (d.setCall k (.searching (n + 1))) (.attempt k (draw i))).run a
        (attempts k draw n (i + 1))).pool = _ ∧
      ((Desk.act a (d.setCall k (.searching (n + 1))) (.attempt k (draw i))).run a
        (attempts k draw n (i + 1))).log = _
    have hcall : (d.setCall k (.searching (n + 1))).calls k = .searching (n + 1) := by
      simp [Desk.setCall]
    simp only [Desk.act, hcall, Allocator.search]
    rcases htry : Allocator.attempt (draw i) d.pool with ⟨taken, pool⟩
    have htry' : Allocator.attempt (draw i) (d.setCall k (.searching (n + 1))).pool =
        (taken, pool) := htry
    rw [htry']
    cases taken with
    | true =>
      dsimp only
      rw [run_attempts_idle]
      · exact ⟨rfl, rfl⟩
      · simp [Desk.setCall]
    | false =>
      have hsame : (d.setCall k (.searching (n + 1))).goOn a k n = d.goOn a k n := by
        simp [Desk.goOn, Desk.setCall, Desk.note]
      dsimp only
      rw [Nat.add_sub_cancel, hsame]
      exact ih (i + 1)

def wholeAllocation (a : Allocator) (k : Nat) (draw : Nat → Port) : List Action :=
  [.beginAllocation k, .drain k, .count k] ++ attempts k draw a.attempts.toNat 0

/-- A client that is left alone allocates as `Allocator.allocate` does. -/
theorem run_wholeAllocation (a : Allocator) (k : Nat) (draw : Nat → Port) (d : Desk)
    (hk : d.calls k = .idle) :
    (d.run a (wholeAllocation a k draw)).pool = (a.allocate d.now draw d.pool).2 ∧
      (d.run a (wholeAllocation a k draw)).log =
        d.log ++ [⟨d.now, reportOf k (a.allocate d.now draw d.pool).1⟩] := by
  let drained : Desk := { d with pool := a.drain d.now d.pool }
  have hbegin : d.run a [.beginAllocation k, .drain k] = drained.setCall k .counting := by
    simp [Desk.run, Desk.act, hk, Desk.setCall, drained]
  have hrun : d.run a (wholeAllocation a k draw) =
      ((drained.setCall k .counting).act a (.count k)).run a
        (attempts k draw a.attempts.toNat 0) := by
    rw [← hbegin]
    rfl
  have hcall : (drained.setCall k .counting).calls k = .counting := by simp [Desk.setCall]
  rw [hrun]
  simp only [Desk.act, hcall, Allocator.allocate]
  by_cases hfull : a.isFull (a.drain d.now d.pool) = true
  · rw [if_pos (show a.isFull (drained.setCall k .counting).pool = true from hfull), if_pos hfull,
      run_attempts_idle]
    · exact ⟨rfl, rfl⟩
    · simp [Desk.setCall]
  · rw [if_neg (show ¬ a.isFull (drained.setCall k .counting).pool = true from hfull),
      if_neg hfull]
    have hsame : (drained.setCall k .counting).goOn a k a.attempts.toNat =
        drained.goOn a k a.attempts.toNat := by
      simp [Desk.goOn, Desk.setCall, Desk.note]
    rw [hsame]
    have hsearch := run_attempts a k draw a.attempts.toNat 0 drained
    rw [hsearch.1, hsearch.2]
    change ((Allocator.search draw (a.drain d.now d.pool) a.attempts.toNat 0).map _).getD _ = _ ∧
      d.log ++ [⟨d.now, match Allocator.search draw (a.drain d.now d.pool) a.attempts.toNat 0 with
        | some (p, _) => _
        | none => _⟩] = _
    cases Allocator.search draw (a.drain d.now d.pool) a.attempts.toNat 0 with
    | none => exact ⟨rfl, rfl⟩
    | some found => exact ⟨rfl, rfl⟩

end RtpBroker.Contention
