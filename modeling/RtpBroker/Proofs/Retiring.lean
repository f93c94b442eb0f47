import RtpBroker.Proofs.Activity

/-!
# Sessions in which nothing goes on

The teardown of a session in which nothing goes on has nothing to wait for: the
release of its port takes it off, closes it and gives the port back at once. So a
sweep that nobody interrupts releases the sessions that it listed, one after the
other, and leaves everything else as it is.
-/

namespace RtpBroker

namespace Session

/-- Taken off its port, closed and torn down. -/
def retired (s : Session) : Session := { s.shut.yield with standing := .gone }

theorem close_idle (now : Nat) {s : Session} (h : s.playbacks = []) :
    s.close now = (s.shut, []) := by
  simp only [playbacks, queued, List.append_eq_nil_iff, List.map_eq_nil_iff,
    Option.toList_eq_nil_iff, Option.map_eq_none_iff] at h
  obtain ⟨⟨hwaiting, hline⟩, hslot⟩ := h
  unfold close
  simp [hwaiting, hline, hslot, shut, advanceTo]

end Session

namespace Broker

/-- Takes a session off its port in which nothing goes on. -/
def retire (i : Nat) (s : Session) (b : Broker) : Broker :=
  { b with
    exchange := { b.exchange with
      sessions := b.exchange.sessions.set i s.retired
      metrics := b.exchange.metrics.sessionClosed }
    listeners := b.listeners.filter (· != i)
    pool := (b.allocator.giveBack b.now s.port b.pool).2 }

variable {b : Broker} {i j : Nat} {s t : Session} {p : Port} {ps : List Port} {limit : Nat}

theorem session_retire (hi : b.session? i = some s) :
    (b.retire i s).session? i = some s.retired :=
  List.getElem?_set_self (List.getElem?_eq_some_iff.mp hi).1

theorem session_retire_of_ne (hij : i ≠ j) : (b.retire i s).session? j = b.session? j :=
  List.getElem?_set_ne hij

theorem release_idle (hnumber : b.exchange.numberAt? p = some i) (hi : b.session? i = some s)
    (hidle : s.playbacks = []) : b.release p = (.ok i, b.retire i s) := by
  have hidle' : s.leave.playbacks = [] := hidle
  have hleft : (b.exchange.leave i).sessions[i]? = some s.leave := leave_session hi
  -- The session is closed when it has left its port; a second close changes nothing.
  have hshut : s.leave.shut = s.leave := by
    simp [Session.leave, Session.yield, Session.shut, Session.advanceTo]
  have hclose : (b.exchange.leave i).close i = b.exchange.leave i := by
    rw [Exchange.close, Exchange.stepSession_some hleft, Session.close_idle _ hidle', hshut,
      Exchange.sessions_leave hi, List.foldl_nil, List.set_set, Exchange.leave_eq hi]
  have hgone : (b.leave i).completeSession i = b.retire i s := by
    rcases completeSession_cases (b.leave i) i with ⟨t, ht, -, -, -, heq⟩ | ⟨hunjoined, -⟩
    · obtain rfl : s.leave = t := Option.some.inj ((leave_session hi).symm.trans ht)
      rw [heq, endListener_of_told (leave_session hi) rfl, vacate, Exchange.vacate,
        Exchange.stepSession_some (leave_session hi)]
      simp [leave, Exchange.leave_eq hi, retire, Session.retired, Session.leave, Session.yield,
        Session.shut, Session.advanceTo, now]
    · have hjoined := Session.isJoined_iff.mpr fun id (_ : id ∈ s.leave.joined) => by
        simp [hidle']
      cases hjoined.symm.trans (hunjoined s.leave (leave_session hi) rfl rfl)
  rw [release_some hnumber, detach_eq hnumber, hclose]
  exact Prod.ext rfl hgone

/-! ## One after the other -/

/-- Every one of these ports is that of a registered session in which nothing goes on. -/
def AllIdle (ps : List Port) (b : Broker) : Prop :=
  ∀ p ∈ ps, ∃ i s, b.session? i = some s ∧ s.standing = .registered ∧ s.port = p ∧
    s.playbacks = []

/-- What releasing all of these ports does, if nothing goes on there. -/
structure Retires (ps : List Port) (b b' : Broker) : Prop where
  rest : b' = { b with
    pool := b'.pool
    listeners := b'.listeners
    exchange := { b.exchange with
      sessions := b'.exchange.sessions, metrics := b'.exchange.metrics } }
  listeners : ∀ (i : Nat) s, b.session? i = some s →
    (i ∈ b'.listeners ↔ i ∈ b.listeners ∧ (s.standing ≠ .registered ∨ s.port ∉ ps))
  length : b'.exchange.sessions.length = b.exchange.sessions.length
  retired : ∀ (i : Nat) s, b.session? i = some s → s.standing = .registered → s.port ∈ ps →
    b'.session? i = some s.retired
  kept : ∀ (i : Nat) s, b.session? i = some s → s.standing ≠ .registered ∨ s.port ∉ ps →
    b'.session? i = some s
  returned : ∀ p ∈ ps, Returned p b'
  elsewhere : ∀ p ∉ ps, b'.pool.isOccupied p = b.pool.isOccupied p ∧
    b'.pool.coolingSince? p = b.pool.coolingSince? p

theorem retire_returned (hb : Ledger.Conserved b.allocator.range b.ledger)
    (hi : b.session? i = some s) (hs : s.standing = .registered) :
    Returned s.port (b.retire i s) := by
  have hleave : Ledger.Conserved b.allocator.range (b.leave i).ledger :=
    (Act.follows (.leave hi hs)).conserved hb
  have hreturned := vacate_returned hleave (leave_session hi) rfl
  have hnow : ((b.leave i).vacate i s.port).now = b.now := by
    refine Exchange.now_stepSession.trans ?_
    rw [leave, Exchange.leave_eq hi]
    rfl
  have hpool : ((b.leave i).vacate i s.port).pool = (b.retire i s).pool := by
    simp [vacate, leave, retire, Exchange.leave_eq hi, now]
  obtain ⟨hfree, hcooling⟩ := hreturned
  rw [show s.leave.port = s.port from rfl, hpool] at hfree hcooling
  rw [hnow] at hcooling
  exact ⟨hfree, hcooling⟩

theorem Retires.nil (b : Broker) : Retires [] b b where
  rest := rfl
  listeners _ _ _ := by simp
  length := rfl
  retired _ _ _ _ hmem := nomatch hmem
  kept _ _ hi _ := hi
  returned _ hp := nomatch hp
  elsewhere _ _ := ⟨rfl, rfl⟩

theorem Retires.cons {b' : Broker} (hb : Ledger.Conserved b.allocator.range b.ledger)
    (hi : b.session? i = some s) (hs : s.standing = .registered) (hnew : s.port ∉ ps)
    (h : Retires ps (b.retire i s) b') : Retires (s.port :: ps) b b' where
  rest := by
    have hrest := h.rest
    rw [hrest]
    rfl
  listeners j t hj := by
    by_cases hij : i = j
    · subst hij
      obtain rfl : s = t := Option.some.inj (hi.symm.trans hj)
      rw [h.listeners i s.retired (session_retire hi)]
      simp [retire, hs]
    · rw [h.listeners j t ((session_retire_of_ne hij).trans hj)]
      have hport : t.standing = .registered → t.port ≠ s.port := fun ht heq => hij <|
        eq_of_registered hb hi hj hs ht heq.symm
      have hsame : t.standing ≠ .registered ∨ t.port ∉ ps ↔
          t.standing ≠ .registered ∨ t.port ∉ s.port :: ps := by
        simp only [List.mem_cons, not_or]
        tauto
      simp [retire, Ne.symm hij, hsame]
  length := by
    rw [h.length]
    exact List.length_set
  retired j t hj ht hport := by
    by_cases hij : i = j
    · subst hij
      obtain rfl : s = t := Option.some.inj (hi.symm.trans hj)
      exact h.kept i s.retired (session_retire hi) (Or.inl (by simp [Session.retired]))
    · refine h.retired j t ((session_retire_of_ne hij).trans hj) ht ?_
      refine (List.mem_cons.mp hport).resolve_left fun heq => hij ?_
      exact eq_of_registered hb hi hj hs ht heq.symm
  kept j t hj hother := by
    have hij : i ≠ j := by
      rintro rfl
      obtain rfl : s = t := Option.some.inj (hi.symm.trans hj)
      rcases hother with hne | hnot
      · exact hne hs
      · exact hnot (List.mem_cons_self ..)
    refine h.kept j t ((session_retire_of_ne hij).trans hj) (hother.imp_right fun hnot hmem => ?_)
    exact hnot (List.mem_cons_of_mem _ hmem)
  returned p hp := by
    rcases List.mem_cons.mp hp with rfl | hp
    · -- The ports that are given back later are others.
      obtain ⟨hocc, hcool⟩ := h.elsewhere _ hnew
      obtain ⟨hfree, hcooling⟩ := retire_returned hb hi hs
      refine ⟨fun hzero => ?_, fun hcooldown => ?_⟩
      · rw [hocc]
        rw [h.rest] at hzero
        exact hfree hzero
      · rw [hocc, hcool, h.rest]
        rw [h.rest] at hcooldown
        exact hcooling hcooldown
    · exact h.returned p hp
  elsewhere p hp := by
    rw [List.mem_cons, not_or] at hp
    obtain ⟨hocc, hcool⟩ := h.elsewhere p hp.2
    obtain ⟨hocc', hcool'⟩ := b.allocator.giveBack_of_ne b.now b.pool (Ne.symm hp.1)
    exact ⟨hocc.trans hocc', hcool.trans hcool'⟩

theorem proceed_idle (hb : Ledger.Conserved b.allocator.range b.ledger) (hps : ps.Nodup)
    (h : AllIdle ps b) : (b.proceed ps).1 = none ∧ Retires ps b (b.proceed ps).2 := by
  induction ps generalizing b with
  | nil => exact ⟨rfl, .nil b⟩
  | cons p ps ih =>
    obtain ⟨hnew, hrest⟩ := List.nodup_cons.mp hps
    obtain ⟨i, s, hi, hs, rfl, hidle⟩ := h p (List.mem_cons_self ..)
    have hrelease := release_idle (numberAt?_of_registered hb hi hs) hi hidle
    have hb' : Ledger.Conserved (b.retire i s).allocator.range (b.retire i s).ledger := by
      have hfollows := (release_deeds s.port b).acts.follows
      rw [hrelease] at hfollows
      exact hfollows.conserved hb
    have hgone : (b.retire i s).isGone i = true := (isGone_iff (session_retire hi)).mpr rfl
    have hothers : AllIdle ps (b.retire i s) := by
      intro q hq
      obtain ⟨j, t, hj, ht, rfl, htidle⟩ := h q (List.mem_cons_of_mem _ hq)
      have hij : i ≠ j := by
        rintro rfl
        obtain rfl : s = t := Option.some.inj (hi.symm.trans hj)
        exact hnew hq
      exact ⟨j, t, (session_retire_of_ne hij).trans hj, ht, rfl, htidle⟩
    obtain ⟨hnone, hretires⟩ := ih hb' hrest hothers
    rw [proceed, hrelease]
    dsimp only
    rw [if_pos hgone]
    exact ⟨hnone, hretires.cons hb hi hs hnew⟩

/-! ## The idle ports -/

/-- What a sweep relies on: nobody holds a port of another session, and what goes on in a session is
as it stands. -/
structure Tidy (b : Broker) : Prop where
  conserved : Ledger.Conserved b.allocator.range b.ledger
  placed : b.exchange.Placed

theorem Reachable.tidy (hb : Reachable b) : b.Tidy := ⟨hb.conserved, hb.placed⟩

theorem nodup_idlePorts (hb : Ledger.Conserved b.allocator.range b.ledger) (limit : Nat) :
    (b.idlePorts limit).Nodup := by
  have hports : b.exchange.ports.Nodup :=
    ((held_perm b).nodup_iff.mp hb.nodup).of_append_left
  have hregistered : (b.exchange.registered.map (·.port)).Nodup :=
    (List.mergeSort_perm _ _).nodup_iff.mp hports
  refine (b.setup.listing.perm _ _).nodup_iff.mpr (hregistered.sublist ?_)
  exact List.filter_sublist.map _

theorem idlePorts_allIdle (hb : b.exchange.Placed) (limit : Nat) :
    AllIdle (b.idlePorts limit) b := by
  intro p hp
  obtain ⟨i, s, hi, hs, hport, hidle⟩ := mem_idlePorts.mp hp
  simp only [Session.isIdle, Bool.and_eq_true, Bool.not_eq_true'] at hidle
  exact ⟨i, s, hi, hs, hport, ((hb i s hi).isBusy_eq_false hs).mp hidle.2⟩

theorem proceed_idlePorts (hb : b.Tidy) (limit : Nat) :
    (b.proceed (b.idlePorts limit)).1 = none ∧
      Retires (b.idlePorts limit) b (b.proceed (b.idlePorts limit)).2 :=
  proceed_idle hb.conserved (nodup_idlePorts hb.conserved limit) (idlePorts_allIdle hb.placed limit)

/-- A sweep over the idle sessions has nobody to wait for. -/
theorem releaseIdle_proceeds (hb : b.Tidy) (limit : Nat) :
    b.releaseIdle limit = (b.idlePorts limit, (b.proceed (b.idlePorts limit)).2) := by
  have hnone := (proceed_idlePorts hb limit).1
  unfold releaseIdle
  dsimp only
  rcases hproceed : b.proceed (b.idlePorts limit) with ⟨e, b'⟩
  rw [hproceed] at hnone
  cases hnone
  rfl

/-! ## Who is idle, told from outside -/

/-- Nothing has happened in a session for more than `limit`, and no playback accepted in it waits or
streams. -/
structure Inactive (limit i : Nat) (s : Session) (b : Broker) : Prop where
  silent : b.exchange.lastActivity i s + limit < b.now
  done : ∀ id ∈ b.exchange.acceptedIn i, ∀ r, b.status? id = some r →
    r.phase ≠ .waiting ∧ r.phase ≠ .streaming

theorem Reachable.isIdle_iff (hb : b.Reachable) (hi : b.session? i = some s)
    (hs : s.standing = .registered) : s.isIdle limit b.now = true ↔ b.Inactive limit i s := by
  have hlast := hb.stamped.active i s hi
  have hbusy := (hb.placed i s hi).isBusy_eq_false hs
  rw [Session.isIdle, Bool.and_eq_true, decide_eq_true_eq, Bool.not_eq_true', hlast, hbusy]
  constructor
  · rintro ⟨hsilent, hidle⟩
    refine ⟨by omega, fun id hid r hr => not_or.mp fun hphase => ?_⟩
    have hmem := (hb.arises.mem_playbacks_iff hb.listed hi).mpr ⟨hid, r, hr, hphase⟩
    exact List.not_mem_nil (hidle ▸ hmem)
  · rintro ⟨hsilent, hdone⟩
    refine ⟨by omega, List.eq_nil_iff_forall_not_mem.mpr fun id hmem => ?_⟩
    obtain ⟨hid, r, hr, hphase⟩ := (hb.arises.mem_playbacks_iff hb.listed hi).mp hmem
    exact not_or.mpr (hdone id hid r hr) hphase

end Broker

end RtpBroker
