import RtpBroker.Exchange
import RtpBroker.Proofs.SessionMoves

/-!
# Posts

The post of a session is its port together with how it stands to the broker.
Nothing that goes on within a session moves it from its post; only opening,
removing and settling do.
-/

namespace RtpBroker

abbrev Post := Port × Standing

namespace Session

def post (s : Session) : Post := (s.port, s.standing)

variable {c : PlaySetup} {now : Nat} {cue : Cue} {cues : List Cue} {s s' : Session}
  {es : List Effect}

theorem post_hear (sender : SocketAddr) (s : Session) : (s.hear now sender).1.post = s.post := by
  unfold hear
  dsimp only
  split <;> rfl

theorem Move.post (h : Move c now cue s es s') : s'.post = s.post := by
  cases h with
  | hear => exact post_hear _ s
  | _ => rfl

theorem Moves.post (h : Moves c now cues s es s') : s'.post = s.post :=
  h.preserves (P := fun t => t.post = s.post) (fun _ _ _ _ _ hm ht => hm.post.trans ht) rfl

end Session

namespace Exchange

def posts (x : Exchange) : List Post := x.sessions.map Session.post

/-! ## What a step leaves alone -/

section

variable {i : Nat} {x : Exchange}

@[simp] theorem sessions_perform (e : Effect) : (x.perform i e).sessions = x.sessions := by
  cases e <;> rfl

@[simp] theorem now_perform (e : Effect) : (x.perform i e).now = x.now := by
  cases e <;> rfl

@[simp] theorem sessions_performs (es : List Effect) :
    (es.foldl (perform i) x).sessions = x.sessions := by
  induction es generalizing x with
  | nil => rfl
  | cons e es ih => exact ih.trans (sessions_perform e)

@[simp] theorem now_performs (es : List Effect) : (es.foldl (perform i) x).now = x.now := by
  induction es generalizing x with
  | nil => rfl
  | cons e es ih => exact ih.trans (now_perform e)

@[simp] theorem sessions_prune (retention : Nat) :
    (x.prune retention).2.sessions = x.sessions := by
  unfold prune
  dsimp only
  split <;> rfl

theorem session_moved {s s' : Session} {es : List Effect} (h : x.sessions[i]? = some s) :
    (es.foldl (perform i) { x with sessions := x.sessions.set i s' }).sessions[i]? = some s' := by
  rw [sessions_performs]
  exact List.getElem?_set_self (List.getElem?_eq_some_iff.mp h).1

theorem session_unmoved {j : Nat} {s' : Session} {es : List Effect} (h : j ≠ i) :
    (es.foldl (perform i) { x with sessions := x.sessions.set i s' }).sessions[j]? =
      x.sessions[j]? := by
  rw [sessions_performs]
  exact List.getElem?_set_ne (Ne.symm h)

theorem session_of_move {j : Nat} {s s' : Session} {es : List Effect}
    (h : (es.foldl (perform i)
      { x with sessions := x.sessions.set i s' }).sessions[j]? = some s) :
    j = i ∧ s = s' ∨ j ≠ i ∧ x.sessions[j]? = some s := by
  by_cases hji : j = i
  · subst hji
    have hlt : j < x.sessions.length := by
      simpa using (List.getElem?_eq_some_iff.mp h).1
    rw [sessions_performs, List.getElem?_set_self hlt] at h
    exact Or.inl ⟨rfl, (Option.some.inj h).symm⟩
  · rw [session_unmoved hji] at h
    exact Or.inr ⟨hji, h⟩

variable {f : Session → Session × List Effect}

theorem stepSession_none (h : x.sessions[i]? = none) : x.stepSession i f = x := by
  unfold stepSession
  rw [h]

theorem stepSession_some {s : Session} (h : x.sessions[i]? = some s) :
    x.stepSession i f =
      (f s).2.foldl (perform i) { x with sessions := x.sessions.set i (f s).1 } := by
  unfold stepSession
  rw [h]

@[simp] theorem now_stepSession : (x.stepSession i f).now = x.now := by
  unfold stepSession
  split
  · rfl
  · exact now_performs _

theorem sessions_stepSession {s : Session} (h : x.sessions[i]? = some s) :
    (x.stepSession i f).sessions = x.sessions.set i (f s).1 := by
  rw [stepSession_some h]
  exact sessions_performs _

theorem session_stepSession {s : Session} (h : x.sessions[i]? = some s) :
    (x.stepSession i f).sessions[i]? = some (f s).1 := by
  rw [stepSession_some h]
  exact session_moved h

theorem session_stepSession_of_ne {j : Nat} (h : j ≠ i) :
    (x.stepSession i f).sessions[j]? = x.sessions[j]? := by
  cases hi : x.sessions[i]? with
  | none => rw [stepSession_none hi]
  | some s =>
    rw [stepSession_some hi]
    exact session_unmoved h

theorem post_of_session {s : Session} (h : x.sessions[i]? = some s) :
    x.posts[i]? = some s.post := by
  rw [posts, List.getElem?_map, h]
  rfl

theorem posts_stepSession {s : Session} (h : x.sessions[i]? = some s) :
    (x.stepSession i f).posts = x.posts.set i (f s).1.post := by
  rw [posts, sessions_stepSession h, List.map_set]
  rfl

end

theorem posts_performs {i : Nat} {x : Exchange} {s s' : Session} {es : List Effect}
    (h : x.sessions[i]? = some s) (hpost : s'.post = s.post) :
    (es.foldl (perform i) { x with sessions := x.sessions.set i s' }).posts = x.posts := by
  obtain ⟨hi, rfl⟩ := List.getElem?_eq_some_iff.mp h
  rw [posts, sessions_performs]
  change (x.sessions.set i s').map Session.post = x.sessions.map Session.post
  rw [List.map_set, hpost, ← List.map_set, List.set_getElem_self]

theorem posts_play (c : PlaySetup) (port : Port) (payload : ByteArray) (format : Option String)
    (id : Uuid) (x : Exchange) : (x.play c port payload format id).2.posts = x.posts := by
  unfold play
  split
  · rfl
  · next i _ =>
    cases h : x.sessions[i]? with
    | none => rw [stepSession_none h]
    | some s =>
      rw [stepSession_some h]
      exact posts_performs h (Session.accept_moves c x.now _ s).post

/-! ## Standing -/

/-- A session that moves to another standing is the only one to do so. -/
theorem posts_stand {i : Nat} {x : Exchange} {s : Session} (h : x.sessions[i]? = some s)
    {f : Session → Session × List Effect} {standing : Standing}
    (hf : (f s).1.post = (s.port, standing)) :
    ∃ before after, x.posts = before ++ s.post :: after ∧
      (x.stepSession i f).posts = before ++ (s.port, standing) :: after := by
  obtain ⟨hi, rfl⟩ := List.getElem?_eq_some_iff.mp h
  have hlen : i < x.posts.length := by simpa [posts] using hi
  obtain ⟨before, after, hsplit, -, hset⟩ := @List.exists_of_set _ i (x.sessions[i].port, standing)
    x.posts hlen
  refine ⟨before, after, ?_, ?_⟩
  · rw [hsplit]
    simp [posts]
  · rw [posts_stepSession h, hf, ← hset]

theorem create_error {port : Port} {e : Fault} {x x' : Exchange}
    (h : x.create port = (.error e, x')) :
    e = .portTaken port ∧ (port, .registered) ∈ x.posts := by
  unfold create at h
  split at h
  · next i hnumber =>
    cases h
    obtain ⟨hi, hat, -⟩ := List.findIdx?_eq_some_iff_getElem.mp hnumber
    refine ⟨rfl, List.mem_map.mpr ⟨_, List.getElem_mem hi, ?_⟩⟩
    simpa [isAt, Session.post, and_comm] using hat
  · cases h

end Exchange

end RtpBroker
