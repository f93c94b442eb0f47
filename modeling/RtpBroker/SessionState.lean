/-!
# Session states

A session moves through its states in their order and never back; `closed` can
be reached from everywhere and is never left.
-/

namespace RtpBroker

inductive SessionState
  | assigned
  | listening
  | remoteKnown
  | streaming
  | closed
  deriving DecidableEq, Repr, Inhabited

namespace SessionState

def rank : SessionState → Nat
  | assigned => 0
  | listening => 1
  | remoteKnown => 2
  | streaming => 3
  | closed => 4

def all : List SessionState := [assigned, listening, remoteKnown, streaming, closed]

def ofRank? (n : Nat) : Option SessionState := all.find? (·.rank == n)

def name : SessionState → String
  | assigned => "zugewiesen"
  | listening => "lauschend"
  | remoteKnown => "remote_bekannt"
  | streaming => "streaming"
  | closed => "geschlossen"

def title : SessionState → String
  | assigned => "Zugewiesen"
  | listening => "Lauschend"
  | remoteKnown => "RemoteBekannt"
  | streaming => "Streaming"
  | closed => "Geschlossen"

def ofName? (s : String) : Option SessionState := all.find? (·.name == s)

/-- The later of two states. -/
def join (a b : SessionState) : SessionState := if a.rank < b.rank then b else a

@[simp] theorem rank_join (a b : SessionState) : (a.join b).rank = max a.rank b.rank := by
  unfold join
  split <;> omega

theorem rank_le_join (a b : SessionState) : a.rank ≤ (a.join b).rank := by
  rw [rank_join]
  exact Nat.le_max_left _ _

theorem eq_of_rank_eq {a b : SessionState} (h : a.rank = b.rank) : a = b := by
  revert h
  cases a <;> cases b <;> decide

theorem join_assoc (a b c : SessionState) : (a.join b).join c = a.join (b.join c) := by
  apply eq_of_rank_eq
  simp only [rank_join]
  omega

@[simp] theorem closed_join (a : SessionState) : closed.join a = closed := by
  cases a <;> rfl

@[simp] theorem join_closed (a : SessionState) : a.join closed = closed := by
  cases a <;> rfl

end SessionState

end RtpBroker
