import Mathlib.Algebra.Ring.Nat
import RtpBroker.Proofs.Runs

/-!
# The routine of the exchange

Everything but opening and removing leaves the registry alone: sessions make moves,
records are dropped, and the clock goes on. Meanwhile each datagram is counted once by
its session and once by the metrics, and so is each address that becomes known.
-/

namespace RtpBroker

namespace Session

/-- What a session notices while some of its effects come about. -/
structure Hears (s : Session) (es : List Effect) (s' : Session) : Prop where
  remote : s'.remote = s.remote.or (es.findSome? Effect.sender?)
  packets : s'.packets = s.packets + (es.filterMap Effect.sender?).length
  learned : s'.remote.isSome.toNat = s.remote.isSome.toNat + es.countP Effect.isLearned

section

variable (now : Nat) (sender : SocketAddr) (s : Session)

@[simp] theorem hear_packets : (s.hear now sender).1.packets = s.packets + 1 := by
  unfold hear
  dsimp only
  split <;> rfl

@[simp] theorem hear_remote : (s.hear now sender).1.remote = s.remote.or (some sender) := by
  unfold hear
  dsimp only
  split <;> next hremote => simp [hremote, advanceTo]

/-- Only the first datagram makes the address known. -/
theorem hear_learned : (s.hear now sender).2.any Effect.isLearned = s.remote.isNone := by
  unfold hear
  dsimp only
  split <;> next hremote => simp [hremote, Effect.isLearned]

end

variable {c : PlaySetup} {now : Nat} {cue : Cue} {cues : List Cue} {s s' : Session}
  {es : List Effect}

theorem Move.hears (h : Move c now cue s es s') : s.Hears es s' := by
  refine ⟨h.remote, ?_, ?_⟩
  · cases h with
    | hear sender =>
      unfold Session.hear
      dsimp only
      split <;> rfl
    | _ => simp [Effect.sender?, register, served, advanceTo, Session.shut, settling,
        finishEffect, Session.drop]
  · cases h with
    | hear sender =>
      unfold Session.hear
      cases hremote : s.remote <;> simp [advanceTo, Effect.isLearned]
    | _ => simp [Effect.isLearned, register, served, advanceTo, Session.shut, settling,
        finishEffect, Session.drop]

/-- Who hears nothing has heard what it had before. -/
def Deaf (s s' : Session) : Prop := s'.remote = s.remote ∧ s'.packets = s.packets

theorem Deaf.trans {s'' : Session} (h : s.Deaf s') (h' : s'.Deaf s'') : s.Deaf s'' :=
  ⟨h'.1.trans h.1, h'.2.trans h.2⟩

theorem Move.deaf (h : Move c now cue s es s') (hcue : ∀ sender, cue ≠ .hear sender) :
    s.Deaf s' := by
  have hnone : ∀ e ∈ es, e.sender? = none := by
    intro e he
    cases e with
    | datagram sender => exact absurd (h.datagram he) (hcue sender)
    | _ => rfl
  refine ⟨?_, ?_⟩
  · rw [h.hears.remote, List.findSome?_eq_none_iff.mpr hnone, Option.or_none]
  · rw [h.hears.packets, List.filterMap_eq_nil_iff.mpr hnone, List.length_nil, Nat.add_zero]

theorem receive_hears (c : PlaySetup) (now : Nat) (sender : SocketAddr) (s : Session) :
    (s.receive c now sender).1.remote = s.remote.or (some sender) ∧
      (s.receive c now sender).1.packets = s.packets + 1 := by
  unfold receive
  dsimp only
  split
  · have hlooks := lookAll_moves c now ((s.hear now sender).1.waiting.map (·.request.id))
      (s.hear now sender).1
    have hdeaf : (s.hear now sender).1.Deaf _ := hlooks.preserves
      (P := fun t => (s.hear now sender).1.Deaf t)
      (fun cue hcue _ _ _ hm ht => ht.trans (hm.deaf fun _ heq => by simp_all)) ⟨rfl, rfl⟩
    exact ⟨hdeaf.1.trans (hear_remote now sender s), hdeaf.2.trans (hear_packets now sender s)⟩
  · exact ⟨hear_remote now sender s, hear_packets now sender s⟩

end Session

namespace Exchange

open Session (Cue Move Moves)

variable {c : PlaySetup} {cues : List Cue} {x x' : Exchange} {i : Nat} {s s' : Session}
  {es : List Effect}

/-! ## The metrics -/

section

variable (es : List Effect) (x : Exchange)

theorem datagrams_performs : (es.foldl (perform i) x).metrics.datagrams =
    x.metrics.datagrams + (es.filterMap Effect.sender?).length := by
  induction es generalizing x with
  | nil => rfl
  | cons e es ih =>
    rw [List.foldl_cons, ih]
    cases e with
    | datagram sender =>
      have hone : (Effect.datagram sender).sender? = some sender := rfl
      rw [List.filterMap_cons_some hone, List.length_cons, Nat.add_comm _ 1, ← Nat.add_assoc]
      rfl
    | _ => rfl

theorem learned_performs : (es.foldl (perform i) x).metrics.learned =
    x.metrics.learned + es.countP Effect.isLearned := by
  induction es generalizing x with
  | nil => rfl
  | cons e es ih =>
    rw [List.foldl_cons, ih, List.countP_cons, Nat.add_comm _ (ite ..), ← Nat.add_assoc]
    cases e <;> rfl

theorem gauge_performs : (es.foldl (perform i) x).metrics.sessions = x.metrics.sessions := by
  induction es generalizing x with
  | nil => rfl
  | cons e es ih =>
    rw [List.foldl_cons, ih]
    cases e <;> rfl

end

/-- What the metrics tell of datagrams is what the sessions know of them. -/
structure Counted (x : Exchange) : Prop where
  datagrams : x.metrics.datagrams = (x.sessions.map (·.packets)).sum
  learned : x.metrics.learned = x.sessions.countP (·.remote.isSome)

def Gauged (x : Exchange) : Prop := x.metrics.sessions = .whole x.registered.length

theorem sessions_split (hi : x.sessions[i]? = some s) (s' : Session) :
    ∃ before after, x.sessions = before ++ s :: after ∧
      x.sessions.set i s' = before ++ s' :: after := by
  obtain ⟨hlt, rfl⟩ := List.getElem?_eq_some_iff.mp hi
  obtain ⟨before, after, hsplit, -, hset⟩ : ∃ before after, x.sessions = before ++ _ :: after ∧
      before.length = i ∧ x.sessions.set i s' = before ++ s' :: after := List.exists_of_set hlt
  exact ⟨before, after, hsplit, hset⟩

theorem Counted.perform (hx : x.Counted) (hi : x.sessions[i]? = some s) (h : s.Hears es s') :
    (es.foldl (perform i) { x with sessions := x.sessions.set i s' }).Counted := by
  obtain ⟨before, after, hsplit, hset⟩ := sessions_split hi s'
  have hdatagrams := hx.datagrams
  have hlearned := hx.learned
  have hpeer := h.learned
  have hone : ∀ b : Bool, (if b = true then 1 else 0) = b.toNat := by decide
  rw [hsplit] at hdatagrams hlearned
  simp only [List.map_append, List.map_cons, List.sum_append, List.sum_cons] at hdatagrams
  simp only [List.countP_append, List.countP_cons, hone] at hlearned
  refine ⟨?_, ?_⟩
  · rw [datagrams_performs, sessions_performs]
    simp only [hset, hdatagrams, List.map_append, List.map_cons, List.sum_append, List.sum_cons,
      h.packets]
    omega
  · rw [learned_performs, sessions_performs]
    simp only [hset, hlearned, List.countP_append, List.countP_cons, hone]
    omega

theorem length_registered (x : Exchange) :
    x.registered.length = x.posts.countP (·.2 == .registered) := by
  rw [registered, ← List.countP_eq_length_filter, posts, List.countP_map]
  rfl

theorem gauged_of_posts (hposts : x'.posts = x.posts)
    (hgauge : x'.metrics.sessions = x.metrics.sessions) (hx : x.Gauged) : x'.Gauged := by
  rw [Gauged, hgauge, length_registered, hposts, ← length_registered]
  exact hx

/-! ## The routine -/

/-- What leaves the registry alone: a session makes a move, records are dropped, or the clock goes
on. -/
inductive Routine (c : PlaySetup) (x : Exchange) : Exchange → Prop
  | move {i : Nat} {cue : Cue} {s s' : Session} {es : List Effect}
      (hi : x.sessions[i]? = some s) (h : Move c x.now cue s es s') :
      Routine c x (es.foldl (perform i) { x with sessions := x.sessions.set i s' })
  | prune (retention : Nat) : Routine c x (x.prune retention).2
  | clock (now : Nat) (agenda : Agenda) : Routine c x { x with now, agenda }

abbrev Routines (c : PlaySetup) : Exchange → Exchange → Prop :=
  Relation.ReflTransGen (Routine c)

theorem posts_prune (retention : Nat) (x : Exchange) :
    (x.prune retention).2.posts = x.posts := by
  rw [posts, sessions_prune, posts]

theorem metrics_prune (retention : Nat) (x : Exchange) :
    (x.prune retention).2.metrics = x.metrics := by
  unfold prune
  dsimp only
  split <;> rfl

theorem Routine.posts (h : Routine c x x') : x'.posts = x.posts := by
  cases h with
  | move hi h => exact posts_performs hi h.post
  | prune retention => exact posts_prune retention x
  | clock now agenda => rfl

theorem Routine.gauge (h : Routine c x x') : x'.metrics.sessions = x.metrics.sessions := by
  cases h with
  | move => exact gauge_performs _ _
  | prune retention => rw [metrics_prune]
  | clock now agenda => rfl

theorem Routine.counted (h : Routine c x x') (hx : x.Counted) : x'.Counted := by
  cases h with
  | move hi h => exact hx.perform hi h.hears
  | prune retention =>
    refine ⟨?_, ?_⟩
    · rw [metrics_prune, sessions_prune, hx.datagrams]
    · rw [metrics_prune, sessions_prune, hx.learned]
  | clock now agenda => exact ⟨hx.datagrams, hx.learned⟩

/-- The registry and its gauge stay, and what is counted stays right. -/
theorem Routines.keep (h : Routines c x x') : x'.posts = x.posts ∧
    x'.metrics.sessions = x.metrics.sessions ∧ (x.Counted → x'.Counted) := by
  induction h with
  | refl => exact ⟨rfl, rfl, fun hx => hx⟩
  | tail _ hlast ih =>
    obtain ⟨hposts, hgauge, hcounted⟩ := ih
    exact ⟨hlast.posts.trans hposts, hlast.gauge.trans hgauge,
      fun hx => hlast.counted (hcounted hx)⟩

theorem stepSession_routines {f : Session → Session × List Effect}
    (hf : ∀ s, Moves c x.now cues s (f s).2 (f s).1) : Routines c x (x.stepSession i f) := by
  cases hi : x.sessions[i]? with
  | none =>
    rw [stepSession_none hi]
  | some s =>
    rw [stepSession_some hi]
    exact chain_of_moves (fun y cue t t' es _ hy hi hm => .move hi (hy ▸ hm)) (hf s) rfl hi

variable (c x)

theorem rings_routines (alarms : List Alarm) : Routines c x (alarms.foldl (ring c) x) := by
  induction alarms generalizing x with
  | nil => exact .refl
  | cons a alarms ih =>
    refine Relation.ReflTransGen.trans ?_ (ih (x.ring c a))
    unfold ring
    split
    · exact stepSession_routines fun s => Session.wake_moves c x.now _ s
    · exact .refl

theorem advance_routines (ms : Nat) : Routines c x (x.advance c ms) := by
  have hfire : ∀ now t (y : Exchange), Routines c x y → y.agenda.nextAfter? now = some t →
      t ≤ x.now + ms → Routines c x (y.fire c t) :=
    fun _ t y h _ _ => (h.tail (.clock t (y.agenda.after t))).trans (rings_routines c _ _)
  obtain ⟨-, -, -, hrun, -⟩ := Agenda.run_induct hfire .refl (Nat.le_add_right x.now ms)
  exact hrun.tail (.clock _ _)

/-- Only opening and removing are more than routine. -/
theorem apply_routines (e : Event) (hcreate : ∀ port, e ≠ .create port)
    (hremove : ∀ port standing, e ≠ .remove port standing) : Routines c x (x.apply c e) := by
  cases e with
  | create port => exact absurd rfl (hcreate port)
  | mark session state h =>
    exact stepSession_routines (f := fun s => (s.advanceTo state, [])) fun s =>
      (Move.mark s h).moves
  | receive session sender =>
    exact stepSession_routines fun s => Session.receive_moves c x.now sender s
  | play port payload format id =>
    rcases play_cases c x port payload format id with heq | ⟨i, s, f, -, -, -, heq⟩
    · rw [apply, heq]
    · rw [apply, heq]
      exact stepSession_routines fun s => Session.accept_moves c x.now _ s
  | endProgram session ending held =>
    exact stepSession_routines fun s => Session.endProgram_moves c x.now ending held s
  | closeOutput session => exact stepSession_routines fun s => Session.closeOutput_moves c x.now s
  | close session => exact stepSession_routines fun s => Session.close_moves c x.now s
  | remove port standing => exact absurd rfl (hremove port standing)
  | prune retention => exact .single (.prune retention)
  | advance ms => exact advance_routines c x ms

end Exchange

end RtpBroker
