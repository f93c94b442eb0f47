import RtpBroker.Proofs.Ownership

/-!
# What a port has of an exchange

A port has the sessions that were opened on it, the records of their playbacks, and
their alarms. Another exchange mirrors the port if it has just these: what a session
on the port does it does in both alike, and what a session on another port does changes
nothing that the port has.
-/

namespace RtpBroker

section

variable {α : Type} {l : List α} {P : α → Bool} {i : Nat} {a b : α}

theorem exists_split (h : l[i]? = some a) :
    ∃ before after, l = before ++ a :: after ∧ before.length = i := by
  obtain ⟨hi, rfl⟩ := List.getElem?_eq_some_iff.mp h
  refine ⟨l.take i, l.drop (i + 1), ?_, List.length_take_of_le (Nat.le_of_lt hi)⟩
  rw [← List.drop_eq_getElem_cons hi, List.take_append_drop]

theorem getElem?_filter_countP (h : l[i]? = some a) (ha : P a = true) :
    (l.filter P)[(l.take i).countP P]? = some a := by
  obtain ⟨before, after, rfl, rfl⟩ := exists_split h
  simp [List.filter_append, List.filter_cons_of_pos ha, List.countP_eq_length_filter]

theorem filter_set_of_pos (h : l[i]? = some a) (ha : P a = true) (hb : P b = true) :
    (l.set i b).filter P = (l.filter P).set ((l.take i).countP P) b := by
  obtain ⟨before, after, rfl, rfl⟩ := exists_split h
  simp [List.filter_append, List.filter_cons_of_pos ha, List.filter_cons_of_pos hb,
    List.countP_eq_length_filter]

theorem filter_set_of_neg (h : l[i]? = some a) (ha : P a = false) (hb : P b = false) :
    (l.set i b).filter P = l.filter P := by
  obtain ⟨before, after, rfl, rfl⟩ := exists_split h
  simp [List.filter_append, ha, hb]

theorem findIdx?_filter {Q : α → Bool} (hQ : ∀ a, Q a = true → P a = true) :
    (l.filter P).findIdx? Q = (l.findIdx? Q).map fun i => (l.take i).countP P := by
  induction l with
  | nil => rfl
  | cons a l ih =>
    cases hP : P a with
    | false =>
      have hQa : Q a = false := by
        by_contra h
        simp [hQ a (by simpa using h)] at hP
      simp [List.findIdx?_cons, hP, hQa, ih, Function.comp_def]
    | true => cases hQa : Q a <;> simp [List.findIdx?_cons, hP, hQa, ih, Function.comp_def]

theorem getElem?_findIdxs {k : Nat} (h : (l.findIdxs P)[k]? = some i) :
    ∃ a, l[i]? = some a ∧ P a = true ∧ (l.take i).countP P = k := by
  induction l generalizing k i with
  | nil => simp at h
  | cons a l ih =>
    rw [List.findIdxs_cons, List.findIdxs_start] at h
    by_cases hP : P a
    · rw [if_pos hP] at h
      cases k with
      | zero =>
        obtain rfl : 0 = i := Option.some.inj h
        exact ⟨a, rfl, hP, rfl⟩
      | succ k =>
        rw [List.getElem?_cons_succ, List.getElem?_map] at h
        obtain ⟨j, hj, rfl⟩ := Option.map_eq_some_iff.mp h
        obtain ⟨b, hb, hPb, hcount⟩ := ih hj
        exact ⟨b, hb, hPb, by simp [hP, hcount]⟩
    · rw [if_neg hP, List.getElem?_map] at h
      obtain ⟨j, hj, rfl⟩ := Option.map_eq_some_iff.mp h
      obtain ⟨b, hb, hPb, hcount⟩ := ih hj
      exact ⟨b, hb, hPb, by simp [hP, hcount]⟩

theorem findIdxs_filter (P : α → Bool) (l : List α) (n : Nat) :
    (l.filter P).findIdxs P n = List.range' n (l.countP P) := by
  induction l generalizing n with
  | nil => rfl
  | cons a l ih =>
    cases hP : P a with
    | false => simp [hP, ih]
    | true => simp [hP, ih, List.range'_succ]

end

/-! ## Alarms -/

namespace Agenda

theorem after_after {n t : Nat} (h : n ≤ t) (a : Agenda) : (a.after n).after t = a.after t := by
  rw [after, after, after, List.filter_filter]
  refine List.filter_congr fun alarm _ => ?_
  rw [Bool.and_eq_left_iff_imp]
  simpa using fun hlt => Nat.lt_of_le_of_lt h hlt

theorem dueAt_after {n t : Nat} (h : n < t) (a : Agenda) : (a.after n).dueAt t = a.dueAt t := by
  rw [after, dueAt, dueAt, List.filter_filter]
  refine List.filter_congr fun alarm _ => ?_
  rw [Bool.and_eq_left_iff_imp]
  simpa using fun heq => heq ▸ h

theorem mem_after {t : Nat} {a : Agenda} {alarm : Alarm} :
    alarm ∈ a.after t ↔ alarm ∈ a ∧ t < alarm.due := by
  simp [after]

theorem exists_of_nextAfter? {now t : Nat} {a : Agenda} (h : a.nextAfter? now = some t) :
    ∃ alarm ∈ a.after now, alarm.due = t := by
  obtain ⟨hmem, hlt⟩ := List.mem_filter.mp (List.min?_mem h)
  obtain ⟨alarm, halarm, rfl⟩ := List.mem_map.mp hmem
  exact ⟨alarm, mem_after.mpr ⟨halarm, by simpa using hlt⟩, rfl⟩

theorem nextAfter?_eq {now t : Nat} {a : Agenda} {alarm : Alarm} (halarm : alarm ∈ a.dueAt t)
    (hlt : now < t) (hleast : ∀ t', a.nextAfter? now = some t' → t ≤ t') :
    a.nextAfter? now = some t := by
  obtain ⟨hmem, hdue⟩ := List.mem_filter.mp halarm
  obtain rfl : alarm.due = t := by simpa using hdue
  obtain ⟨t', ht', hle⟩ := nextAfter?_le hmem hlt
  rw [ht', Nat.le_antisymm hle (hleast t' ht')]

/-- Nothing goes off up to a time that is before the next alarm and has none itself. -/
theorem after_eq {now t : Nat} {a : Agenda} (hlt : now < t)
    (hleast : ∀ t', a.nextAfter? now = some t' → t ≤ t') (hnone : a.dueAt t = []) :
    a.after now = a.after t := by
  refine List.filter_congr fun alarm halarm =>
    decide_eq_decide.mpr ⟨fun hdue => ?_, Nat.lt_trans hlt⟩
  obtain ⟨t', ht', hle⟩ := nextAfter?_le halarm hdue
  have hne : alarm.due ≠ t := by simpa using List.filter_eq_nil_iff.mp hnone alarm halarm
  exact Nat.lt_of_le_of_ne (Nat.le_trans (hleast t' ht') hle) hne.symm

theorem after_append (t : Nat) (a a' : Agenda) :
    after t (a ++ a') = a.after t ++ a'.after t := List.filter_append ..

end Agenda

/-- The alarm as the port has it, whose sessions are those at the `places` that are the port. -/
def Alarm.narrow? (p : Port) (places : List Port) (a : Alarm) : Option Alarm :=
  match a.sleeper with
  | .playback i id =>
    if places[i]? = some p then some ⟨a.due, .playback ((places.take i).count p) id⟩ else none
  | .reaper _ => none

def Agenda.narrow (p : Port) (places : List Port) (a : Agenda) : Agenda :=
  a.filterMap (Alarm.narrow? p places)

section

variable {p q : Port} {places : List Port} {i : Nat}

theorem Alarm.due_narrow? {a a' : Alarm} (h : a.narrow? p places = some a') : a'.due = a.due := by
  unfold narrow? at h
  split at h
  · split at h
    · cases h
      rfl
    · cases h
  · cases h

theorem Agenda.narrow_filter (P : Nat → Bool) (a : Agenda) :
    narrow p places (a.filter (P ·.due)) = (a.narrow p places).filter (P ·.due) := by
  rw [narrow, narrow, List.filterMap_filter, List.filter_filterMap]
  congr 1
  funext alarm
  cases halarm : alarm.narrow? p places with
  | none => simp
  | some alarm' => simp [Option.filter, Alarm.due_narrow? halarm]

theorem Agenda.narrow_after (t : Nat) (a : Agenda) :
    narrow p places (a.after t) = (a.narrow p places).after t := narrow_filter (t < ·) a

theorem Agenda.narrow_dueAt (t : Nat) (a : Agenda) :
    narrow p places (a.dueAt t) = (a.narrow p places).dueAt t := narrow_filter (· == t) a

theorem Agenda.narrow_append (a a' : Agenda) :
    narrow p places (a ++ a') = a.narrow p places ++ a'.narrow p places :=
  List.filterMap_append ..

/-- Whoever is woken has a place. -/
def Agenda.Placed (places : List Port) (a : Agenda) : Prop :=
  ∀ alarm ∈ a, ∀ i id, alarm.sleeper = .playback i id → i < places.length

theorem Agenda.Placed.narrow_opened {a : Agenda} (h : a.Placed places) (q : Port) :
    a.narrow p (places ++ [q]) = a.narrow p places := by
  refine List.filterMap_congr fun alarm halarm => ?_
  unfold Alarm.narrow?
  split
  · next i id hsleeper =>
    have hi := h alarm halarm i id hsleeper
    rw [List.getElem?_append_left hi, List.take_append_of_le_length (Nat.le_of_lt hi)]
  · rfl

theorem Effect.narrow_alarms (h : places[i]? = some p) (es : List Effect) :
    Agenda.narrow p places (es.filterMap (Effect.alarm? i)) =
      es.filterMap (Effect.alarm? ((places.take i).count p)) := by
  rw [Agenda.narrow, List.filterMap_filterMap]
  congr 1
  funext e
  cases e <;> simp [Effect.alarm?, Alarm.narrow?, h]

theorem Effect.narrow_alarms_of_ne (h : places[i]? = some q) (hq : q ≠ p) (es : List Effect) :
    Agenda.narrow p places (es.filterMap (Effect.alarm? i)) = [] := by
  rw [Agenda.narrow, List.filterMap_filterMap, List.filterMap_eq_nil_iff]
  intro e _
  cases e <;> simp [Effect.alarm?, Alarm.narrow?, h, hq]

end

/-! ## Records -/

namespace Tracker

variable {p : Port} {now : Timestamp} {t : Tracker}

def narrow (p : Port) (t : Tracker) : Tracker := ⟨t.onPort p⟩

theorem narrow_update (p : Port) (id : Uuid) {f : PlaybackStatus → PlaybackStatus}
    (hf : ∀ s, (f s).port = s.port) (t : Tracker) :
    (t.update id f).narrow p = (t.narrow p).update id f := by
  have hport : ((·.port == p) ∘ fun s : PlaybackStatus => if s.id = id then f s else s) =
      (·.port == p) := by
    funext s
    by_cases hs : s.id = id <;> simp [hs, hf]
  simp only [narrow, onPort, update, List.filter_map, hport]

/-- An effect on the port changes what the port has of the tracker alike. -/
theorem narrow_note {e : Effect} (he : ∀ id port, e = .enter id port → port = p) (t : Tracker) :
    (t.note now e).narrow p = (t.narrow p).note now e := by
  cases e with
  | enter id port =>
    obtain rfl := he id port rfl
    simp [note, enter, narrow, onPort, PlaybackStatus.fresh, List.filter_append,
      List.filter_filter, Bool.and_comm]
  | phase id phase => exact narrow_update p id (fun _ => by rfl) t
  | finish id phase exitCode fault => exact narrow_update p id (fun _ => by rfl) t
  | _ => rfl

theorem narrow_notes {es : List Effect} (hes : ∀ id port, .enter id port ∈ es → port = p)
    (t : Tracker) : (es.foldl (note now) t).narrow p = es.foldl (note now) (t.narrow p) := by
  induction es generalizing t with
  | nil => rfl
  | cons e es ih =>
    rw [List.foldl_cons, ih fun id port hmem => hes id port (List.mem_cons_of_mem _ hmem),
      narrow_note fun id port heq => hes id port (heq ▸ List.mem_cons_self ..), List.foldl_cons]

theorem narrow_update_of_ne {id : Uuid} {f : PlaybackStatus → PlaybackStatus}
    (hf : ∀ s, (f s).port = s.port) (hid : ∀ r ∈ t.records, r.id = id → r.port ≠ p) :
    (t.update id f).narrow p = t.narrow p := by
  have hsame : ∀ r ∈ t.onPort p, (if r.id = id then f r else r) = r := by
    intro r hr
    obtain ⟨hr, hport⟩ := List.mem_filter.mp hr
    exact if_neg fun heq => hid r hr heq (by simpa using hport)
  rw [narrow_update p id hf, narrow, update, List.map_congr_left hsame, List.map_id']

/-- An effect elsewhere does not change what the port has of the tracker. -/
theorem narrow_note_of_ne {e : Effect} (he : ∀ id port, e = .enter id port → port ≠ p)
    (hid : ∀ id, e.subject? = some id → ∀ r ∈ t.records, r.id = id → r.port ≠ p) :
    (t.note now e).narrow p = t.narrow p := by
  cases e with
  | enter id port =>
    have hkept : (t.records.filter (·.id != id)).filter (·.port == p) = t.onPort p := by
      rw [onPort, List.filter_filter]
      refine List.filter_congr fun r hr => ?_
      by_cases hrp : r.port = p
      · have hne : r.id ≠ id := fun heq => hid id rfl r hr heq hrp
        simp [hrp, hne]
      · simp [hrp]
    have hport := he id port rfl
    simp [note, enter, narrow, hkept, onPort, List.filter_append, PlaybackStatus.fresh, hport]
  | phase id phase => exact narrow_update_of_ne (fun _ => by rfl) (hid id rfl)
  | finish id phase exitCode fault => exact narrow_update_of_ne (fun _ => by rfl) (hid id rfl)
  | _ => rfl

theorem narrow_notes_of_ne {es : List Effect} (hes : ∀ id port, .enter id port ∈ es → port ≠ p)
    (hid : ∀ e ∈ es, ∀ id, e.subject? = some id → ∀ r ∈ t.records, r.id = id → r.port ≠ p) :
    (es.foldl (note now) t).narrow p = t.narrow p := by
  induction es generalizing t with
  | nil => rfl
  | cons e es ih =>
    have he : ∀ id port, e = .enter id port → port ≠ p :=
      fun id port heq => hes id port (heq ▸ List.mem_cons_self ..)
    have hfirst : (t.note now e).narrow p = t.narrow p :=
      narrow_note_of_ne he (hid e (List.mem_cons_self ..))
    rw [List.foldl_cons, ← hfirst]
    refine ih (fun id port hmem => hes id port (List.mem_cons_of_mem _ hmem)) ?_
    intro e' he' id hsubject r hr hrid
    rcases mem_note hr with ⟨r₀, hr₀, hid₀, hport₀⟩ | heq
    · rw [← hport₀]
      exact hid e' (List.mem_cons_of_mem _ he') id hsubject r₀ hr₀ (hid₀.trans hrid)
    · exact he _ _ heq

/-- A sweep takes from a port what it would take if there were no other one. -/
theorem prune_narrow (p : Port) (retention : Nat) (now : Timestamp) (t : Tracker) :
    (∃ n n' t', t.prune retention now = .ok (n, t') ∧
      (t.narrow p).prune retention now = .ok (n', t'.narrow p)) ∨
    ∃ e, t.prune retention now = .error e ∧ (t.narrow p).prune retention now = .error e := by
  unfold prune pruneFor
  split
  · exact Or.inl ⟨0, 0, t, rfl, rfl⟩
  · split
    · exact Or.inr ⟨_, rfl, rfl⟩
    · next limit _ =>
      have hkept : (t.narrow p).records.filter (fun s => !endedBefore limit s) =
          onPort p ⟨t.records.filter fun s => !endedBefore limit s⟩ := by
        simp only [narrow, onPort, List.filter_filter, Bool.and_comm]
      refine Or.inl ⟨_, (t.narrow p).records.length -
        ((t.narrow p).records.filter fun s => !endedBefore limit s).length, _, rfl, ?_⟩
      dsimp only
      rw [hkept]
      rfl

end Tracker

end RtpBroker
