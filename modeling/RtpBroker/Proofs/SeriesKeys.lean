import Mathlib.Data.List.Nodup
import RtpBroker.Http.Api

/-!
# How the series of a metric are told apart

A family finds a series by its labels written one after the other. The labels of a
request are a token, a path and a status: with a path that begins with a slash nothing
else is written like them, so exactly their series counts the request. Only an empty
path and an asterisk can be mistaken for each other.
-/

namespace RtpBroker

namespace Family

variable {α : Type}

/-- No two series are written alike. -/
def Distinct (fam : Family α) : Prop := (fam.series.map fun s => key s.1).Nodup

/-- Labels that have a series. -/
def labels (fam : Family α) : List (List String) := fam.series.map (·.1)

/-- One series counts one more and the others stay as they are; a series that is new starts from
one. -/
inductive Raises (ls : List String) : Family Nat → Family Nat → Prop
  | known {before after : List (List String × Nat)} {n : Nat}
      (hothers : ∀ s ∈ before ++ after, s.1 ≠ ls) :
      Raises ls ⟨before ++ (ls, n) :: after⟩ ⟨before ++ (ls, n + 1) :: after⟩
  | new {series : List (List String × Nat)} (hnone : ∀ s ∈ series, s.1 ≠ ls) :
      Raises ls ⟨series⟩ ⟨series ++ [(ls, 1)]⟩

variable {fam : Family α} {ls : List String} {start : α} {f : α → α}

/-- A change finds the series written like the labels, among others that are not, or adds one. -/
theorem change_cases (hfam : fam.Distinct) (start : α) (ls : List String) (f : α → α) :
    (∃ before after ls' a, fam.series = before ++ (ls', a) :: after ∧ key ls' = key ls ∧
      (∀ s ∈ before ++ after, key s.1 ≠ key ls) ∧
      fam.change start ls f = ⟨before ++ (ls', f a) :: after⟩) ∨
    (∀ s ∈ fam.series, key s.1 ≠ key ls) ∧
      fam.change start ls f = ⟨fam.series ++ [(ls, f start)]⟩ := by
  obtain ⟨series⟩ := fam
  unfold change
  split
  · next hany =>
    obtain ⟨⟨ls', a⟩, hmem, hkey⟩ := List.any_eq_true.mp hany
    replace hkey : key ls' = key ls := by simpa using hkey
    obtain ⟨before, after, rfl⟩ := List.append_of_mem hmem
    have hothers : ∀ s ∈ before ++ after, key s.1 ≠ key ls := by
      rw [Distinct, List.map_append, List.map_cons, List.nodup_middle, List.nodup_cons,
        ← List.map_append] at hfam
      intro s hs heq
      exact hfam.1 (List.mem_map.mpr ⟨s, hs, heq.trans hkey.symm⟩)
    have hsame : ∀ part : List (List String × α), (∀ s ∈ part, key s.1 ≠ key ls) →
        part.map (fun s => if key s.1 == key ls then (s.1, f s.2) else (s.1, s.2)) = part := by
      intro part hpart
      refine (List.map_congr_left fun s hs => ?_).trans (List.map_id' part)
      simp [hpart s hs]
    refine Or.inl ⟨before, after, ls', a, rfl, hkey, hothers, ?_⟩
    rw [List.map_append, List.map_cons, hsame before (fun s hs => hothers s (by simp [hs])),
      hsame after (fun s hs => hothers s (by simp [hs]))]
    simp [hkey]
  · next hnone =>
    refine Or.inr ⟨fun s hs heq => hnone ?_, rfl⟩
    exact List.any_eq_true.mpr ⟨s, hs, by simpa using heq⟩

theorem distinct_change (hfam : fam.Distinct) (start : α) (ls : List String) (f : α → α) :
    (fam.change start ls f).Distinct := by
  rcases change_cases hfam start ls f with ⟨before, after, ls', a, heq, -, -, hchange⟩ |
    ⟨hnone, hchange⟩
  · rw [hchange]
    simpa [Distinct, heq] using hfam
  · rw [hchange, Distinct, List.map_append, List.map_singleton]
    refine hfam.append (List.nodup_singleton _) ?_
    simpa using fun labels a hs => hnone (labels, a) hs

/-- Whatever is counted raises one series, written like its labels. -/
theorem raises_change {fam : Family Nat} (hfam : fam.Distinct) (ls : List String) :
    ∃ ls', key ls' = key ls ∧ (ls' ∈ fam.labels ∨ ls' = ls) ∧
      Raises ls' fam (fam.change 0 ls (· + 1)) := by
  rcases change_cases hfam 0 ls (· + 1) with ⟨before, after, ls', n, heq, hkey, hothers, hchange⟩ |
    ⟨hnone, hchange⟩
  · refine ⟨ls', hkey, Or.inl (by simp [labels, heq]), ?_⟩
    obtain ⟨series⟩ := fam
    obtain rfl : series = _ := heq
    rw [hchange]
    exact .known fun s hs hls => hothers s hs (hls ▸ hkey)
  · refine ⟨ls, rfl, Or.inr rfl, ?_⟩
    rw [hchange]
    exact .new fun s hs hls => hnone s hs (hls ▸ rfl)

theorem labels_change_mono (hfam : fam.Distinct) (start : α) (ls : List String) (f : α → α) :
    fam.labels ⊆ (fam.change start ls f).labels := by
  rcases change_cases hfam start ls f with ⟨before, after, ls', a, heq, -, -, hchange⟩ |
    ⟨-, hchange⟩
  · rw [hchange]
    simp [labels, heq]
  · rw [hchange]
    simp [labels]

/-- What has been changed is there, written like the labels. -/
theorem key_mem_change (hfam : fam.Distinct) (start : α) (ls : List String) (f : α → α) :
    ∃ ls' ∈ (fam.change start ls f).labels, key ls' = key ls ∧ (ls' ∈ fam.labels ∨ ls' = ls) := by
  rcases change_cases hfam start ls f with ⟨before, after, ls', a, heq, hkey, -, hchange⟩ |
    ⟨-, hchange⟩
  · exact ⟨ls', by simp [hchange, labels], hkey, Or.inl (by simp [labels, heq])⟩
  · exact ⟨ls, by simp [hchange, labels], rfl, Or.inr rfl⟩

end Family

namespace Http

open Family (key)

/-! ## Labels of requests -/

/-- The path of a target is empty, an asterisk, or begins with a slash. -/
inductive IsPath : String → Prop
  | empty : IsPath ""
  | asterisk : IsPath "*"
  | slash {path : String} (h : path.toList.head? = some '/') : IsPath path

theorem pathOf?_eq {cs : List Char} {path : String} (h : Target.pathOf? cs = some path) :
    path = String.ofList (cs.takeWhile fun c => c != '?' && c != '#') := by
  unfold Target.pathOf? at h
  exact (Option.some.inj (Option.ite_none_right_eq_some.mp h).2).symm

theorem pathOf?_slash {cs : List Char} {path : String} (hcs : cs.head? = some '/')
    (h : Target.pathOf? cs = some path) : path.toList.head? = some '/' := by
  cases cs with
  | nil => cases hcs
  | cons c rest =>
    obtain rfl : c = '/' := by simpa using hcs
    simp [pathOf?_eq h]

/-- What comes after an authority begins a path, or there is none and the path is the root. -/
theorem isPath_afterAuthority {rest : List Char} {path : String}
    (h : Target.pathOf? (rest.dropWhile fun c => !Target.isAuthorityEnd c) = some path) :
    IsPath (if path = "" then "/" else path) := by
  have hhead := List.head?_dropWhile_not (fun c => !Target.isAuthorityEnd c) rest
  split
  · exact .slash rfl
  · next hne =>
    refine .slash (pathOf?_slash ?_ h)
    generalize rest.dropWhile (fun c => !Target.isAuthorityEnd c) = cs at h hhead
    obtain rfl := pathOf?_eq h
    cases cs with
    | nil => exact absurd rfl hne
    | cons c cs =>
      by_cases hc : c = '?' ∨ c = '#'
      · exact absurd (by rcases hc with rfl | rfl <;> rfl) hne
      · obtain rfl : c = '/' := by simpa [Target.isAuthorityEnd, not_or.mp hc] using hhead
        rfl

theorem isPath_path? {target path : String} (h : Target.path? target = some path) :
    IsPath path := by
  unfold Target.path? at h
  dsimp only at h
  split at h
  · cases h
  split at h
  · obtain rfl := Option.some.inj h
    exact .asterisk
  split at h
  · next hslash => exact .slash (pathOf?_slash hslash h)
  split at h
  · cases h
  · split at h
    · obtain rfl := Option.some.inj h
      exact .empty
    · cases h
  · next rest _ =>
    split at h
    · cases h
    obtain ⟨p, hp, rfl⟩ := Option.map_eq_some_iff.mp h
    have hdrop := @List.drop_left _ (rest.takeWhile fun c => !Target.isAuthorityEnd c)
      (rest.dropWhile fun c => !Target.isAuthorityEnd c)
    rw [List.takeWhile_append_dropWhile] at hdrop
    exact isPath_afterAuthority (hdrop ▸ hp)

/-- A request as it can arrive: its method is a token, and its path that of a target. -/
structure Arrival where
  request : Request
  target : String
  isMethod : isMethod request.method = true
  path_eq : Target.path? target = some request.path

namespace Arrival

variable (a : Arrival)

theorem slash_not_mem_method : '/' ∉ a.request.method.toList := by
  intro hmem
  have htoken := (Bool.and_eq_true _ _ ▸ a.isMethod : _ ∧ _).2
  exact absurd (List.all_eq_true.mp htoken '/' hmem) (by decide)

theorem isPath : IsPath a.request.path := isPath_path? a.path_eq

end Arrival

/-- A matched request is counted under the pattern of its route, any other one under its path. -/
theorem pathLabel_cases (path : String) :
    (∃ route, Route.of? path = some route ∧ pathLabel path = route.pattern) ∨
      Route.of? path = none ∧ pathLabel path = path := by
  unfold pathLabel
  split
  · next route h => exact Or.inl ⟨route, h, rfl⟩
  · next h => exact Or.inr ⟨h, rfl⟩

theorem isPath_pathLabel {path : String} (h : IsPath path) : IsPath (pathLabel path) := by
  rcases pathLabel_cases path with ⟨route, -, heq⟩ | ⟨-, heq⟩
  · rw [heq]
    refine .slash ?_
    cases route <;> simp [Route.pattern]
  · rwa [heq]

/-! ## Statuses -/

/-- A status has three digits. -/
def IsStatus (n : Nat) : Prop := 100 ≤ n ∧ n < 1000

theorem isStatus_fault (f : Fault) : IsStatus f.status := by
  cases f <;> simp [IsStatus, Fault.status]

theorem isStatus_refusal (e : Refusal) : IsStatus e.response.status := by
  cases e with
  | broker f => exact isStatus_fault f
  | _ => simp [IsStatus, Refusal.response, Response.json, Refusal.status]

theorem isStatus_release (port : String) (b : Broker) : IsStatus (release port b).1.status := by
  unfold release
  split
  · exact isStatus_refusal _
  · split
    · simp [IsStatus]
    · exact isStatus_refusal _

theorem isStatus_play (o : Occasion) (r : Request) (b : Broker) :
    IsStatus (play o r b).1.status := by
  unfold play playBody
  split
  · exact isStatus_refusal _
  · split
    · exact isStatus_refusal _
    · split
      · simp [IsStatus, Response.json]
      · exact isStatus_refusal _

theorem isStatus_playback (id : String) (b : Broker) : IsStatus (playback id b).status := by
  unfold playback
  split
  · exact isStatus_refusal _
  · split
    · exact isStatus_refusal _
    · split
      · simp [IsStatus, Response.json]
      · exact isStatus_refusal _

theorem isStatus_handle (o : Occasion) (h : Health) (r : Request) (b : Broker) (route : Route) :
    IsStatus (handle o h r b route).1.status := by
  cases route with
  | openSession =>
    simp only [handle, openSession]
    split
    · simp [IsStatus, Response.json]
    · exact isStatus_refusal _
  | release port => exact isStatus_release port b
  | play => exact isStatus_play o r b
  | playback id => exact isStatus_playback id b
  | health =>
    simp only [handle, healthResponse, Response.json]
    split <;> simp [IsStatus]
  | metrics => simp [IsStatus, handle, metricsResponse]

theorem isStatus_dispatch (o : Occasion) (h : Health) (r : Request) (b : Broker) :
    IsStatus (dispatch o h r b).1.status := by
  unfold dispatch
  split
  · simp [IsStatus, notFound]
  · next route _ =>
    split
    · have hstatus := isStatus_handle o h r b route
      dsimp only [Response.forMethod]
      split <;> exact hstatus
    · simp [IsStatus, notAllowed]

theorem length_status {n : Nat} (h : IsStatus n) : (toString n).toList.length = 3 := by
  have hlow : ¬ (Nat.toDigits 10 n).length ≤ 2 := by
    rw [Nat.length_toDigits_le_iff (by decide) (by decide)]
    exact Nat.not_lt.mpr h.1
  have hhigh : (Nat.toDigits 10 n).length ≤ 3 := by
    rw [Nat.length_toDigits_le_iff (by decide) (by decide)]
    exact h.2
  have hlength : (Nat.toDigits 10 n).length = 3 := by omega
  simpa [Nat.repr] using hlength

theorem slash_not_mem_digits (n : Nat) : '/' ∉ Nat.toDigits 10 n := by
  intro hmem
  have hdigit := Nat.isDigit_of_mem_toDigits (b := 10) (by decide) (by decide) hmem
  exact absurd hdigit (by decide)

/-! ## Their keys -/

/-- Labels under which a request can be counted. -/
inductive Shaped : List String → Prop
  | mk {method path : String} {status : Nat} (hmethod : '/' ∉ method.toList)
      (hpath : IsPath path) (hstatus : IsStatus status) : Shaped [method, path, toString status]

theorem toList_key (method path status : String) :
    (key [method, path, status]).toList = method.toList ++ (path.toList ++ status.toList) := by
  simp [key, String.join]

theorem eq_of_append_slash {front front' rest rest' : List Char} (hfront : '/' ∉ front)
    (hfront' : '/' ∉ front') (h : front ++ '/' :: rest = front' ++ '/' :: rest') :
    front = front' ∧ rest = rest' := by
  have hends : ∀ (part more : List Char), '/' ∉ part →
      (part ++ '/' :: more).takeWhile (· != '/') = part := by
    intro part more hpart
    rw [List.takeWhile_append_of_pos fun c hc => by
      simpa using fun heq : c = '/' => hpart (heq ▸ hc)]
    simp
  have heq : front = front' := by rw [← hends front rest hfront, h, hends front' rest' hfront']
  subst heq
  simpa using h

/-- With a path that begins with a slash, labels are found by their key. -/
theorem Shaped.eq_of_key {ls : List String} {method path status : String} (h : Shaped ls)
    (h' : Shaped [method, path, status]) (hslash : path.toList.head? = some '/')
    (hkey : key ls = key [method, path, status]) : ls = [method, path, status] := by
  obtain @⟨m, p, n, hm, hp, hn⟩ := h
  obtain @⟨_, _, n', hm', -, hn'⟩ := h'
  have hlist := congrArg String.toList hkey
  rw [toList_key, toList_key] at hlist
  obtain ⟨rest', hrest'⟩ : ∃ rest', path.toList = '/' :: rest' := List.head?_eq_some_iff.mp hslash
  have hmem : '/' ∈ method.toList ++ (path.toList ++ (toString n').toList) := by simp [hrest']
  cases hp with
  | empty => exact absurd (hlist ▸ hmem) (by simp [hm, slash_not_mem_digits n])
  | asterisk => exact absurd (hlist ▸ hmem) (by simp [hm, slash_not_mem_digits n])
  | slash hp =>
    obtain ⟨rest, hrest⟩ : ∃ rest, p.toList = '/' :: rest := List.head?_eq_some_iff.mp hp
    rw [hrest, hrest', List.cons_append, List.cons_append] at hlist
    obtain ⟨hmethods, hrests⟩ := eq_of_append_slash hm hm' hlist
    have hlength := (length_status hn).trans (length_status hn').symm
    obtain ⟨hpaths, hstatuses⟩ := List.append_inj' hrests hlength
    have hp' : p = path := String.toList_inj.mp (by rw [hrest, hrest', hpaths])
    rw [String.toList_inj.mp hmethods, hp', String.toList_inj.mp hstatuses]

end Http

end RtpBroker
