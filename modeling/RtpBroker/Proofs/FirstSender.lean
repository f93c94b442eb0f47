import RtpBroker.Proofs.Routines

/-!
# The first sender

The first sender of a datagram is the peer of its session for good, whether the session
is open, closed or off its port, and the counters follow. The gauge of sessions follows
the registry, which only opening and removing change.
-/

namespace RtpBroker.Exchange

open Session (Move Moves)

variable {c : PlaySetup} {x x' : Exchange} {i : Nat} {s : Session}

/-! ## Opening and removing -/

/-- The port on which an event opens a session. -/
def opened (x : Exchange) : Event → List Port
  | .create port =>
    match x.create port with
    | (.ok _, _) => [port]
    | (.error _, _) => []
  | _ => []

/-- The session that an event takes off its port. -/
def removed (x : Exchange) : Event → List Nat
  | .remove port standing => (x.remove port standing).1.toList
  | _ => []

theorem create_none {port : Port} (h : x.numberAt? port = none) :
    x.create port = (.ok x.sessions.length,
      { x with
        sessions := x.sessions ++ [Session.opened port x.now]
        metrics := x.metrics.sessionOpened }) := by
  unfold create
  rw [h]

theorem create_some {port : Port} (h : x.numberAt? port = some i) :
    x.create port = (.error (.portTaken port), x) := by
  unfold create
  rw [h]

theorem numberAt?_eq_none {port : Port} : x.numberAt? port = none ↔ port ∉ x.ports := by
  rw [ports, List.mem_mergeSort, numberAt?, List.findIdx?_eq_none_iff]
  constructor
  · rintro h hmem
    obtain ⟨s, hs, rfl⟩ := List.mem_map.mp hmem
    obtain ⟨hmem, hregistered⟩ := List.mem_filter.mp hs
    exact absurd (h s hmem) (by simp_all [isAt])
  · intro h s hs
    by_contra hat
    simp only [isAt, Bool.not_eq_false, Bool.and_eq_true, beq_iff_eq] at hat
    exact h (List.mem_map.mpr ⟨s, List.mem_filter.mpr ⟨hs, by simp [hat.1]⟩, hat.2⟩)

/-- What opening and removing change: the sessions, and how many are registered. -/
structure Enlists (x : Exchange) (e : Event) (x' : Exchange) : Prop where
  length : x'.sessions.length = x.sessions.length + (x.opened e).length
  registered : x'.registered.length + (x.removed e).length =
    x.registered.length + (x.opened e).length
  gauged : x.Gauged → x'.Gauged
  counted : x.Counted → x'.Counted

theorem enlists_create (port : Port) : Enlists x (.create port) (x.create port).2 := by
  cases hnumber : x.numberAt? port with
  | some i =>
    rw [create_some hnumber]
    have hnone : x.opened (.create port) = [] := by
      simp only [opened, create_some hnumber]
    exact ⟨by simp [hnone], by simp [hnone, removed], fun h => h, fun h => h⟩
  | none =>
    rw [create_none hnumber]
    have hone : x.opened (.create port) = [port] := by
      simp only [opened, create_none hnumber]
    have hregistered : ∀ metrics, ({ x with
        sessions := x.sessions ++ [Session.opened port x.now], metrics } : Exchange).registered =
        x.registered ++ [Session.opened port x.now] := fun _ => by
      simp [Exchange.registered, Session.opened]
    refine ⟨?_, ?_, fun h => ?_, fun h => ⟨?_, ?_⟩⟩
    · simp [hone]
    · simp [hone, removed, hregistered]
    · rw [Gauged] at h
      rw [Gauged, hregistered, List.length_append]
      change x.metrics.sessions.inc = _
      rw [h]
      rfl
    · simp [Metrics.sessionOpened, h.datagrams, Session.opened]
    · simp [Metrics.sessionOpened, h.learned, Session.opened]

theorem enlists_remove {port : Port} {standing : Standing} (hstanding : standing ≠ .registered) :
    Enlists x (.remove port standing) (x.remove port standing).2 := by
  have hopened : x.opened (.remove port standing) = [] := rfl
  cases hnumber : x.numberAt? port with
  | none =>
    have hsame : x.remove port standing = (none, x) := by
      unfold remove
      rw [hnumber]
    rw [hsame]
    exact ⟨by simp [hopened], by simp [hopened, removed, hsame], fun h => h, fun h => h⟩
  | some i =>
    obtain ⟨hlt, hat, -⟩ := List.findIdx?_eq_some_iff_getElem.mp hnumber
    have hi := List.getElem?_eq_getElem hlt
    -- The session leaves its port first, and is closed then.
    let stood := x.stepSession i fun s => ({ s with standing }, [])
    have hremove : x.remove port standing =
        (some i, { stood.close i with metrics := (stood.close i).metrics.sessionClosed }) := by
      unfold remove
      rw [hnumber]
    have hstood : stood = { x with sessions := x.sessions.set i { x.sessions[i] with standing } } :=
      stepSession_some hi
    have hclose : Routines {} stood (stood.close i) :=
      stepSession_routines fun s => Session.close_moves {} stood.now s
    obtain ⟨hposts, hgauge, hcounted⟩ := hclose.keep
    obtain ⟨before, after, hsplit, hleft⟩ := posts_stand hi
      (f := fun s => ({ s with standing }, [])) (show _ = (_, standing) from rfl)
    have hregistered : (stood.close i).registered.length + 1 = x.registered.length := by
      have hhere : x.sessions[i].standing = .registered := by simp_all [isAt]
      rw [length_registered, length_registered, hposts, hsplit]
      change List.countP _ stood.posts + 1 = _
      rw [hleft]
      simp only [List.countP_append, List.countP_cons, Session.post, hhere]
      simp [hstanding]
      omega
    have hlength : (stood.close i).sessions.length = x.sessions.length := by
      have hlen := congrArg List.length hposts
      simpa [posts, hstood] using hlen
    rw [hremove]
    refine ⟨by simp [hopened, hlength], ?_, fun h => ?_, fun h => ?_⟩
    · simp only [removed, hremove, hopened, Option.toList_some, List.length_singleton,
        List.length_nil, Nat.add_zero]
      exact hregistered
    · rw [Gauged] at h
      have hbefore : (stood.close i).metrics.sessions = .whole x.registered.length := by
        rw [hgauge, hstood]
        exact h
      change (stood.close i).metrics.sessions.dec = .whole (stood.close i).registered.length
      rw [hbefore, ← hregistered]
      refine congrArg Reading.whole ?_
      omega
    · have hstoodCounted : stood.Counted := by
        rw [hstood]
        have hquiet : x.sessions[i].Hears [] { x.sessions[i] with standing } :=
          ⟨by simp, rfl, rfl⟩
        exact h.perform hi hquiet
      exact ⟨(hcounted hstoodCounted).datagrams, (hcounted hstoodCounted).learned⟩

theorem Routines.enlists (h : Routines c x x') {e : Event} (hopened : x.opened e = [])
    (hremoved : x.removed e = []) : Enlists x e x' := by
  obtain ⟨hposts, hgauge, hcounted⟩ := h.keep
  have hregistered : x'.registered.length = x.registered.length := by
    rw [length_registered, length_registered, hposts]
  refine ⟨?_, by simp [hopened, hremoved, hregistered], gauged_of_posts hposts hgauge, hcounted⟩
  have hlength := congrArg List.length hposts
  simpa [posts, hopened] using hlength

theorem apply_enlists (e : Event) (he : ∀ port, e ≠ .remove port .registered) :
    Enlists x e (x.apply c e) := by
  have hroutine := apply_routines c x e
  cases e with
  | create port => exact enlists_create port
  | remove port standing => exact enlists_remove fun heq => he port (heq ▸ rfl)
  | _ => exact (hroutine (by simp) (by simp)).enlists rfl rfl

/-! ## Runs -/

/-- What the events of a run yield, each with the exchange as it is when it comes. -/
def collect {α : Type} (c : PlaySetup) (f : Exchange → Event → List α) :
    List Event → Exchange → List α
  | [], _ => []
  | e :: events, x => f x e ++ collect c f events (x.apply c e)

theorem collect_snoc {α : Type} (f : Exchange → Event → List α) (events : List Event) (e : Event)
    (x : Exchange) :
    collect c f (events ++ [e]) x = collect c f events x ++ f (run c events x) e := by
  induction events generalizing x with
  | nil => simp [collect, run]
  | cons e' events ih =>
    rw [List.cons_append, collect, ih, collect, List.append_assoc]
    rfl

/-- Who sends the datagram that a session with the number `i` is given. -/
def heard (i : Nat) (x : Exchange) : Event → List SocketAddr
  | .receive j sender => if j = i ∧ i < x.sessions.length then [sender] else []
  | _ => []

theorem heard_of_not_receive {e : Event} (he : ∀ sender, e ≠ .receive i sender) :
    x.heard i e = [] := by
  cases e with
  | receive j sender =>
    have hj : j ≠ i := fun heq => he sender (heq ▸ rfl)
    simp [heard, hj]
  | _ => rfl

/-- A session notices the datagrams that it is given, and nothing else. -/
theorem apply_hears (e : Event) (hi : x.sessions[i]? = some s) :
    ∃ s', (x.apply c e).sessions[i]? = some s' ∧
      s'.remote = s.remote.or (x.heard i e).head? ∧
      s'.packets = s.packets + (x.heard i e).length := by
  by_cases he : ∃ sender, e = .receive i sender
  · obtain ⟨sender, rfl⟩ := he
    have hheard : x.heard i (.receive i sender) = [sender] := by
      simp [heard, (List.getElem?_eq_some_iff.mp hi).1]
    rw [hheard]
    exact ⟨_, session_stepSession hi, Session.receive_hears c x.now sender s⟩
  · rw [heard_of_not_receive fun sender heq => he ⟨sender, heq⟩]
    have hdeaf : ∃ s', (x.apply c e).sessions[i]? = some s' ∧ s.Deaf s' := by
      by_cases hother : ∃ j sender, e = .receive j sender
      · obtain ⟨j, sender, rfl⟩ := hother
        have hij : i ≠ j := fun heq => he ⟨sender, heq ▸ rfl⟩
        exact ⟨s, (session_stepSession_of_ne hij).trans hi, rfl, rfl⟩
      · refine (apply_course c x e).relates (R := Session.Deaf) (fun _ => ⟨rfl, rfl⟩)
          Session.Deaf.trans
          (fun cue hcue _ _ _ _ hm => hm.deaf fun sender heq => ?_) (fun _ _ => ⟨rfl, rfl⟩) hi
        subst heq
        cases e with
        | receive j sender' => exact hother ⟨j, sender', rfl⟩
        | _ => simp [Event.cues] at hcue
    obtain ⟨s', hi', hremote, hpackets⟩ := hdeaf
    exact ⟨s', hi', by simpa using hremote, hpackets⟩

theorem apply_opens {e : Event} (he : ∀ port, e ≠ .remove port .registered)
    (hnone : x.sessions[i]? = none) (hi : (x.apply c e).sessions[i]? = some s) :
    ∃ port, s = Session.opened port x.now := by
  have hlt := (List.getElem?_eq_some_iff.mp hi).1
  have hle := List.getElem?_eq_none_iff.mp hnone
  have hlength := (apply_enlists (c := c) (x := x) e he).length
  cases e with
  | create port =>
    cases hnumber : x.numberAt? port with
    | some j =>
      rw [apply, create_some hnumber] at hi
      exact absurd (hnone.symm.trans hi) (by simp)
    | none =>
      rw [apply, create_none hnumber] at hi
      rw [List.getElem?_append_right hle] at hi
      obtain ⟨_, hs⟩ := List.getElem?_eq_some_iff.mp hi
      exact ⟨port, by simpa using hs.symm⟩
  | _ =>
    simp only [opened, List.length_nil, Nat.add_zero] at hlength
    omega

/-- What has become of the sessions and of the counts after some events. -/
structure Reckons (c : PlaySetup) (calendar : Timestamp) (events : List Event) (x : Exchange) :
    Prop where
  length : x.sessions.length = (collect c opened events { calendar }).length
  registered : x.registered.length + (collect c removed events { calendar }).length =
    (collect c opened events { calendar }).length
  gauged : x.Gauged
  counted : x.Counted
  heard : ∀ (i : Nat) s, x.sessions[i]? = some s →
    s.remote = (collect c (Exchange.heard i) events { calendar }).head? ∧
      s.packets = (collect c (Exchange.heard i) events { calendar }).length
  unheard : ∀ i : Nat, x.sessions[i]? = none →
    collect c (Exchange.heard i) events { calendar } = []

theorem run_reckons (c : PlaySetup) (calendar : Timestamp) (events : List Event)
    (hremovals : ∀ port, .remove port .registered ∉ events) :
    Reckons c calendar events (run c events { calendar }) := by
  induction events using List.reverseRecOn with
  | nil =>
    refine ⟨rfl, rfl, rfl, ⟨rfl, rfl⟩, fun i s hi => ?_, fun _ _ => rfl⟩
    simp [run] at hi
  | append_singleton events e ih =>
    have hx := ih fun port hmem => hremovals port (List.mem_append_left _ hmem)
    have he : ∀ port, e ≠ .remove port .registered := fun port heq =>
      hremovals port (by simp [heq])
    have henlists := apply_enlists (c := c) (x := run c events { calendar }) e he
    rw [run_snoc]
    refine ⟨?_, ?_, henlists.gauged hx.gauged, henlists.counted hx.counted, fun i s hi => ?_,
      fun i hi => ?_⟩
    · rw [collect_snoc, List.length_append, henlists.length, hx.length]
    · rw [collect_snoc, collect_snoc, List.length_append, List.length_append]
      have hold := hx.registered
      have hstep := henlists.registered
      omega
    · rw [collect_snoc]
      cases hold : (run c events { calendar }).sessions[i]? with
      | some s₀ =>
        obtain ⟨s', hi', hremote, hpackets⟩ := apply_hears (c := c) e hold
        obtain rfl : s' = s := Option.some.inj (hi'.symm.trans hi)
        obtain ⟨hremote₀, hpackets₀⟩ := hx.heard i s₀ hold
        rw [hremote, hpackets, hremote₀, hpackets₀, List.head?_append, List.length_append]
        exact ⟨rfl, rfl⟩
      | none =>
        obtain ⟨port, rfl⟩ := apply_opens he hold hi
        have hle := List.getElem?_eq_none_iff.mp hold
        have hnone : (run c events { calendar }).heard i e = [] := by
          cases e with
          | receive j sender => simp [Exchange.heard, Nat.not_lt.mpr hle]
          | _ => rfl
        rw [hx.unheard i hold, hnone]
        exact ⟨rfl, rfl⟩
    · have hle := List.getElem?_eq_none_iff.mp hi
      have hlength := henlists.length
      have hold : (run c events { calendar }).sessions[i]? = none :=
        List.getElem?_eq_none_iff.mpr (by omega)
      have hnone : (run c events { calendar }).heard i e = [] := by
        cases e with
        | receive j sender =>
          simp [Exchange.heard, Nat.not_lt.mpr (List.getElem?_eq_none_iff.mp hold)]
        | _ => rfl
      rw [collect_snoc, hx.unheard i hold, hnone]
      rfl

theorem learns_eq (hi : x.sessions[i]? = some s) (sender : SocketAddr) :
    x.learns i sender = s.remote.isNone := by
  unfold learns
  rw [hi]
  exact s.hear_learned x.now sender

/-- Opening fails where a session is registered, and only there. -/
theorem create_fails (port : Port) (x : Exchange) :
    ((x.create port).1 = .error (.portTaken port) ↔ port ∈ x.ports) ∧
      ∀ e, (x.create port).1 = .error e → e = .portTaken port ∧ (x.create port).2 = x := by
  cases hnumber : x.numberAt? port with
  | some j =>
    have hmem : port ∈ x.ports := by
      by_contra hnot
      exact absurd ((numberAt?_eq_none.mpr hnot).symm.trans hnumber) (by simp)
    rw [create_some hnumber]
    exact ⟨by simp [hmem], fun e he => ⟨(Except.error.inj he).symm, rfl⟩⟩
  | none =>
    rw [create_none hnumber]
    exact ⟨by simp [numberAt?_eq_none.mp hnumber], fun e he => by cases he⟩

/-- Whatever happens to the registry, in whichever order and to whichever sessions, the address of a
session's peer is where its first datagram came from, whoever received that one was told so, and
nobody who received another. The session counts the datagrams that it was given, and the metrics
count them for all sessions ever opened, as they count the addresses known. The gauge shows how many
sessions are registered: those opened but for those taken off. On a registered port none is opened,
and nothing changes. Of the events it is only asked that no session that is taken off its port is
left registered on it. -/
theorem first_sender_wins (c : PlaySetup) (calendar : Timestamp) {events : List Event}
    (hremovals : ∀ port, .remove port .registered ∉ events) :
    (∀ (i : Nat) s, (run c events { calendar }).sessions[i]? = some s →
      s.remote = (collect c (heard i) events { calendar }).head? ∧
      s.packets = (collect c (heard i) events { calendar }).length ∧
      ∀ sender, (run c events { calendar }).learns i sender = true ↔
        collect c (heard i) events { calendar } = []) ∧
    (run c events { calendar }).sessions.length = (collect c opened events { calendar }).length ∧
    (run c events { calendar }).metrics.datagrams =
      ((run c events { calendar }).sessions.map (·.packets)).sum ∧
    (run c events { calendar }).metrics.learned =
      (run c events { calendar }).sessions.countP (·.remote.isSome) ∧
    (run c events { calendar }).metrics.sessions =
      .whole (run c events { calendar }).registered.length ∧
    (run c events { calendar }).registered.length +
      (collect c removed events { calendar }).length =
        (collect c opened events { calendar }).length ∧
    ∀ port,
      (((run c events { calendar }).create port).1 = .error (.portTaken port) ↔
        port ∈ (run c events { calendar }).ports) ∧
      ∀ e, ((run c events { calendar }).create port).1 = .error e →
        e = .portTaken port ∧
          ((run c events { calendar }).create port).2 = run c events { calendar } := by
  have hx := run_reckons c calendar events hremovals
  refine ⟨fun i s hi => ?_, hx.length, hx.counted.datagrams, hx.counted.learned, hx.gauged,
    hx.registered, fun port => create_fails port _⟩
  obtain ⟨hremote, hpackets⟩ := hx.heard i s hi
  refine ⟨hremote, hpackets, fun sender => ?_⟩
  rw [learns_eq hi, hremote, Option.isNone_iff_eq_none, List.head?_eq_none_iff]

/-- Datagrams reach a session before and after it is taken off its port, where another one is
opened in the meantime. -/
def reopened : List Event := [
  .create 40000, .receive 0 ⟨.v4 192 0 2 1, 5004, 0⟩, .remove 40000 .dismissed, .create 40000,
  .create 40000, .receive 0 ⟨.v4 192 0 2 2, 5006, 0⟩]

theorem first_sender_wins_reopened :
    (∀ port, .remove port .registered ∉ reopened) ∧
      (run {} reopened {}).sessions.length = 2 ∧ (run {} reopened {}).metrics.datagrams = 2 ∧
      (run {} reopened {}).metrics.learned = 1 ∧ (run {} reopened {}).registered.length + 1 = 2 ∧
      (∃ s, (run {} reopened {}).sessions[0]? = some s ∧
        s.remote = some ⟨.v4 192 0 2 1, 5004, 0⟩ ∧ s.packets = 2 ∧ s.isClosed = true) ∧
      (run {} reopened {}).learns 1 ⟨.v4 192 0 2 3, 5008, 0⟩ = true ∧
      40000 ∈ (run {} reopened {}).ports := by
  have hremovals : ∀ port, .remove port .registered ∉ reopened := by simp [reopened]
  obtain ⟨hheard, hlength, hdatagrams, hlearned, -, hregistered, hcreate⟩ :=
    first_sender_wins {} ⟨0, 0⟩ hremovals
  obtain ⟨s, hs, hclosed⟩ : ∃ s, (run {} reopened {}).sessions[0]? = some s ∧
      s.isClosed = true := ⟨_, rfl, rfl⟩
  obtain ⟨hremote, hpackets, -⟩ := hheard 0 s hs
  obtain ⟨s', hs'⟩ : ∃ s, (run {} reopened {}).sessions[1]? = some s := ⟨_, rfl⟩
  exact ⟨hremovals, hlength, hdatagrams, hlearned, hregistered, ⟨s, hs, hremote, hpackets, hclosed⟩,
    ((hheard 1 s' hs').2.2 _).mpr rfl, (hcreate 40000).1.mp rfl⟩

end RtpBroker.Exchange
