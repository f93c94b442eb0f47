import Mathlib.Data.List.Perm.Subperm
import Mathlib.Data.List.TakeWhile
import RtpBroker.Proofs.RequestCounts
import RtpBroker.Proofs.SeriesKeys
import RtpBroker.Proofs.Texts

/-!
# The series of HTTP requests

Requests arrive among whatever else happens to a broker. Each raises one series by one,
under its method, the pattern of its route and the status of its answer. A request that
matches no route is counted under its own path, so there are as many series as there are
paths that somebody asked for.
-/

namespace RtpBroker

/-- The paths under which a family counts; the path is the second label. -/
def Family.paths {α : Type} (fam : Family α) : List String := fam.labels.filterMap (·[1]?)

namespace Http

open Family (key Raises)

/-- A request is served, or something else happens to the broker. -/
inductive Happening
  | request (o : Occasion) (h : Health) (a : Arrival)
  | other (e : Broker.Event)

namespace Happening

def arrival? : Happening → Option Arrival
  | request _ _ a => some a
  | other _ => none

end Happening

def happen (b : Broker) : Happening → Broker
  | .request o h a => (serve o h a.request b).2
  | .other e => b.step e

def course (happenings : List Happening) (b : Broker) : Broker := happenings.foldl happen b

/-- The patterns of all routes. -/
def patterns : List String :=
  ["/rtp-session", "/rtp-session/:port", "/play-audio", "/playback/:id", "/health", "/metrics"]

theorem pattern_mem_patterns (route : Route) : route.pattern ∈ patterns := by
  cases route <;> simp [Route.pattern, patterns]

/-- The paths of the requests that match no route. -/
def strays (arrivals : List Arrival) : List String :=
  (arrivals.map (·.request.path)).filter fun path => (Route.of? path).isNone

/-- The labels under which a request with this answer is counted. -/
def seriesOf (r : Request) (status : Nat) : List String :=
  [r.method, pathLabel r.path, toString status]

variable {o : Occasion} {h : Health} {a : Arrival} {b : Broker} {arrivals : List Arrival}

theorem requestCounts_serve (o : Occasion) (h : Health) (r : Request) (b : Broker) :
    (serve o h r b).2.requestCounts =
      (b.requestCounts.1.change 0 (seriesOf r (serve o h r b).1.status) (· + 1),
        b.requestCounts.2.change (.empty requestBounds) [r.method, pathLabel r.path]
          (·.observe o.elapsed)) := by
  rw [← requestCounts_dispatch o b h r]
  rfl

theorem isStatus_serve (o : Occasion) (h : Health) (r : Request) (b : Broker) :
    IsStatus (serve o h r b).1.status :=
  isStatus_dispatch o h r b

theorem shaped_seriesOf (a : Arrival) {status : Nat} (hstatus : IsStatus status) :
    Shaped (seriesOf a.request status) :=
  .mk a.slash_not_mem_method (isPath_pathLabel a.isPath) hstatus

/-- Only the empty path and the asterisk do not begin with a slash. -/
theorem slash_pathLabel (hempty : a.request.path ≠ "") (hasterisk : a.request.path ≠ "*") :
    (pathLabel a.request.path).toList.head? = some '/' := by
  rcases pathLabel_cases a.request.path with ⟨route, -, heq⟩ | ⟨-, heq⟩
  · rw [heq]
    cases route <;> simp [Route.pattern]
  · have hpath := a.isPath
    rw [heq]
    generalize a.request.path = path at hpath hempty hasterisk
    cases hpath with
    | empty => exact absurd rfl hempty
    | asterisk => exact absurd rfl hasterisk
    | slash h => exact h

/-! ## What has been recorded -/

/-- The series of a broker after some arrivals. -/
structure Recorded (arrivals : List Arrival) (b : Broker) : Prop where
  distinct : b.requestCounts.1.Distinct ∧ b.requestCounts.2.Distinct
  counted : ∀ ls ∈ b.requestCounts.1.labels,
    ∃ a ∈ arrivals, ∃ status, IsStatus status ∧ ls = seriesOf a.request status
  timed : ∀ ls ∈ b.requestCounts.2.labels,
    ∃ a ∈ arrivals, ls = [a.request.method, pathLabel a.request.path]
  found : ∀ a ∈ arrivals, (pathLabel a.request.path).toList.head? = some '/' →
    (∃ status, seriesOf a.request status ∈ b.requestCounts.1.labels) ∧
      [a.request.method, pathLabel a.request.path] ∈ b.requestCounts.2.labels

theorem Recorded.shaped (hb : Recorded arrivals b) {ls : List String}
    (hls : ls ∈ b.requestCounts.1.labels) : Shaped ls := by
  obtain ⟨a, -, status, hstatus, rfl⟩ := hb.counted ls hls
  exact shaped_seriesOf a hstatus

/-- Labels of a request with its path, but without its status, are found by their key as well. -/
theorem timed_eq_of_key {a a' : Arrival}
    (hslash : (pathLabel a.request.path).toList.head? = some '/')
    (hkey : key [a'.request.method, pathLabel a'.request.path] =
      key [a.request.method, pathLabel a.request.path]) :
    [a'.request.method, pathLabel a'.request.path] =
      [a.request.method, pathLabel a.request.path] := by
  have hstatus : IsStatus 200 := ⟨by decide, by decide⟩
  have hlonger : key (seriesOf a'.request 200) = key (seriesOf a.request 200) := by
    simpa [key, String.join, seriesOf] using hkey
  have heq := (shaped_seriesOf a' hstatus).eq_of_key (shaped_seriesOf a hstatus) hslash hlonger
  injection heq with hmethod hrest
  injection hrest with hpath
  rw [hmethod, hpath]

theorem recorded_start {setup : BrokerSetup} {calendar : Timestamp}
    (hstart : Broker.start setup calendar = .ok b) : Recorded [] b := by
  have hcounts : b.requestCounts = ({}, {}) := by
    unfold Broker.start at hstart
    cases hrange : PortRange.of setup.low setup.high with
    | error e => rw [hrange] at hstart; cases hstart
    | ok range =>
      rw [hrange] at hstart
      simp only [bind, Except.bind] at hstart
      split at hstart
      · cases hstart
      · obtain rfl := Except.ok.inj hstart
        rfl
  refine ⟨?_, ?_, ?_, by simp⟩ <;> rw [hcounts] <;> simp [Family.Distinct, Family.labels]

/-- What an arrival raises is the series of its labels, unless its path is empty or an asterisk. -/
theorem Recorded.raises (hb : Recorded arrivals b) (o : Occasion) (h : Health) (a : Arrival) :
    ∃ ls, key ls = key (seriesOf a.request (serve o h a.request b).1.status) ∧
      ((pathLabel a.request.path).toList.head? = some '/' →
        ls = seriesOf a.request (serve o h a.request b).1.status) ∧
      Raises ls b.requestCounts.1 (serve o h a.request b).2.requestCounts.1 := by
  have hstatus := isStatus_serve o h a.request b
  obtain ⟨ls, hkey, hls, hraises⟩ := Family.raises_change hb.distinct.1
    (seriesOf a.request (serve o h a.request b).1.status)
  rw [requestCounts_serve]
  refine ⟨ls, hkey, fun hslash => ?_, hraises⟩
  rcases hls with hls | rfl
  · exact (hb.shaped hls).eq_of_key (shaped_seriesOf a hstatus) hslash hkey
  · rfl

theorem Recorded.serve (hb : Recorded arrivals b) (o : Occasion) (h : Health) (a : Arrival) :
    Recorded (arrivals ++ [a]) (serve o h a.request b).2 := by
  let status := (Http.serve o h a.request b).1.status
  have hstatus : IsStatus status := isStatus_serve o h a.request b
  have hcounts := requestCounts_serve o h a.request b
  have hmono := Family.labels_change_mono hb.distinct.1 0 (seriesOf a.request status) (· + 1)
  have hmono' := Family.labels_change_mono hb.distinct.2 (.empty requestBounds)
    [a.request.method, pathLabel a.request.path] (·.observe o.elapsed)
  refine ⟨?_, fun ls hls => ?_, fun ls hls => ?_, fun a' ha' hslash => ?_⟩
  · rw [hcounts]
    exact ⟨Family.distinct_change hb.distinct.1 _ _ _, Family.distinct_change hb.distinct.2 _ _ _⟩
  · rw [hcounts] at hls
    rcases Family.mem_change hls with hold | rfl
    · obtain ⟨a', ha', hrest⟩ := hb.counted ls hold
      exact ⟨a', List.mem_append_left _ ha', hrest⟩
    · exact ⟨a, by simp, status, hstatus, rfl⟩
  · rw [hcounts] at hls
    rcases Family.mem_change hls with hold | rfl
    · obtain ⟨a', ha', hrest⟩ := hb.timed ls hold
      exact ⟨a', List.mem_append_left _ ha', hrest⟩
    · exact ⟨a, by simp, rfl⟩
  · rw [hcounts]
    rcases List.mem_append.mp ha' with hold | hnew
    · obtain ⟨⟨status', hcounted⟩, htimed⟩ := hb.found a' hold hslash
      exact ⟨⟨status', hmono hcounted⟩, hmono' htimed⟩
    · obtain rfl := List.mem_singleton.mp hnew
      obtain ⟨ls, hmem, hkey, hls⟩ := Family.key_mem_change hb.distinct.1 0
        (seriesOf a'.request status) (· + 1)
      obtain ⟨ls', hmem', hkey', hls'⟩ := Family.key_mem_change hb.distinct.2
        (.empty requestBounds) [a'.request.method, pathLabel a'.request.path] (·.observe o.elapsed)
      refine ⟨⟨status, ?_⟩, ?_⟩
      · rcases hls with hls | rfl
        · rwa [(hb.shaped hls).eq_of_key (shaped_seriesOf a' hstatus) hslash hkey] at hmem
        · exact hmem
      · rcases hls' with hls' | rfl
        · obtain ⟨a'', -, rfl⟩ := hb.timed ls' hls'
          rwa [timed_eq_of_key hslash hkey'] at hmem'
        · exact hmem'

theorem Recorded.of_counts {b' : Broker} (hb : Recorded arrivals b)
    (h : b'.requestCounts = b.requestCounts) : Recorded arrivals b' := by
  obtain ⟨hdistinct, hcounted, htimed, hfound⟩ := hb
  rw [← h] at hdistinct hcounted htimed hfound
  exact ⟨hdistinct, hcounted, htimed, hfound⟩

theorem Recorded.course (hb : Recorded arrivals b) (happenings : List Happening) :
    Recorded (arrivals ++ happenings.filterMap Happening.arrival?) (course happenings b) := by
  induction happenings generalizing arrivals b with
  | nil => simpa [Http.course] using hb
  | cons happening happenings ih =>
    cases happening with
    | request o h a =>
      have hrest := ih (hb.serve o h a)
      rwa [List.append_assoc] at hrest
    | other e => exact ih (hb.of_counts (Broker.requestCounts_step b e))

/-! ## Paths -/

theorem mem_paths {α : Type} {fam : Family α} {path : String} :
    path ∈ fam.paths ↔ ∃ ls ∈ fam.labels, ls[1]? = some path := by
  simp [Family.paths]

theorem Recorded.paths_subset (hb : Recorded arrivals b) {path : String}
    (hpath : path ∈ b.requestCounts.1.paths ∨ path ∈ b.requestCounts.2.paths) :
    path ∈ patterns ∨ path ∈ strays arrivals := by
  obtain ⟨a, ha, rfl⟩ : ∃ a ∈ arrivals, path = pathLabel a.request.path := by
    rcases hpath with hpath | hpath
    · obtain ⟨ls, hls, hsome⟩ := mem_paths.mp hpath
      obtain ⟨a, ha, status, -, rfl⟩ := hb.counted ls hls
      exact ⟨a, ha, (Option.some.inj hsome).symm⟩
    · obtain ⟨ls, hls, hsome⟩ := mem_paths.mp hpath
      obtain ⟨a, ha, rfl⟩ := hb.timed ls hls
      exact ⟨a, ha, (Option.some.inj hsome).symm⟩
  rcases pathLabel_cases a.request.path with ⟨route, -, heq⟩ | ⟨hnone, heq⟩
  · exact Or.inl (heq ▸ pattern_mem_patterns route)
  · rw [heq]
    exact Or.inr (List.mem_filter.mpr ⟨List.mem_map_of_mem ha, by simp [hnone]⟩)

theorem Recorded.stray_mem (hb : Recorded arrivals b) {path : String}
    (hpath : path ∈ strays arrivals) (hempty : path ≠ "") (hasterisk : path ≠ "*") :
    path ∈ b.requestCounts.1.paths ∧ path ∈ b.requestCounts.2.paths := by
  obtain ⟨hmem, hnone⟩ := List.mem_filter.mp hpath
  obtain ⟨a, ha, rfl⟩ := List.mem_map.mp hmem
  have hlabel : pathLabel a.request.path = a.request.path := by
    rw [pathLabel, Option.isNone_iff_eq_none.mp hnone]
  obtain ⟨⟨status, hcounted⟩, htimed⟩ := hb.found a ha (slash_pathLabel hempty hasterisk)
  exact ⟨mem_paths.mpr ⟨_, hcounted, congrArg some hlabel⟩,
    mem_paths.mpr ⟨_, htimed, congrArg some hlabel⟩⟩

/-- The path labels are patterns of routes and the paths that matched none, each of which has its
own; and every further request raises exactly one series, that of its method, path label and
status. Only requests without a path or for an asterisk can share a series, since series are
found by labels written one after the other. -/
theorem requests_recorded {setup : BrokerSetup} {calendar : Timestamp} {b : Broker}
    (hstart : Broker.start setup calendar = .ok b) (happenings : List Happening) :
    let metrics := (course happenings b).exchange.metrics
    let unmatched := strays (happenings.filterMap Happening.arrival?)
    (∀ path, path ∈ metrics.requests.paths ∨ path ∈ metrics.requestSeconds.paths →
      path ∈ patterns ∨ path ∈ unmatched) ∧
    (∀ path ∈ unmatched, path ≠ "" → path ≠ "*" →
      path ∈ metrics.requests.paths ∧ path ∈ metrics.requestSeconds.paths) ∧
    ∀ (o : Occasion) (h : Health) (a : Arrival),
      let answered := serve o h a.request (course happenings b)
      let labels := [a.request.method, pathLabel a.request.path, toString answered.1.status]
      ∃ ls, key ls = key labels ∧
        (a.request.path ≠ "" → a.request.path ≠ "*" → ls = labels) ∧
        Raises ls metrics.requests answered.2.exchange.metrics.requests := by
  intro metrics unmatched
  have hrecorded := (recorded_start hstart).course happenings
  refine ⟨fun path => hrecorded.paths_subset, fun path => hrecorded.stray_mem, fun o h a => ?_⟩
  obtain ⟨ls, hkey, hls, hraises⟩ := hrecorded.raises o h a
  exact ⟨ls, hkey, fun hempty hasterisk => hls (slash_pathLabel hempty hasterisk), hraises⟩

/-- A request to get a path. -/
def get (target : String) (h : Target.path? target = some target) : Arrival where
  request := { method := "GET", path := target, contentType := none, body := "" }
  target
  isMethod := show isMethod "GET" = true by decide
  path_eq := h

def anyOccasion : Occasion := ⟨⟨fun _ _ => 0, fun _ _ => none⟩, ⟨0⟩, 0.0, 0⟩

/-- Two requests that match no route, and one that does. -/
def wandering : List Happening :=
  [.request anyOccasion {} (get "/a/1" (by decide +kernel)),
    .request anyOccasion {} (get "/health" (by decide +kernel)),
    .request anyOccasion {} (get "/b/2" (by decide +kernel))]

theorem requests_recorded_wandering : ∃ b, Broker.start {} ⟨0, 0⟩ = .ok b ∧
    strays (wandering.filterMap Happening.arrival?) = ["/a/1", "/b/2"] ∧
    "/a/1" ∈ (course wandering b).exchange.metrics.requests.paths ∧
    "/b/2" ∈ (course wandering b).exchange.metrics.requestSeconds.paths := by
  obtain ⟨b, hstart⟩ : ∃ b, Broker.start {} ⟨0, 0⟩ = .ok b := ⟨_, rfl⟩
  have hstrays : strays (wandering.filterMap Happening.arrival?) = ["/a/1", "/b/2"] := by
    decide +kernel
  obtain ⟨-, hfound, -⟩ := requests_recorded hstart wandering
  rw [hstrays] at hfound
  exact ⟨b, hstart, hstrays, (hfound "/a/1" (by simp) (by simp) (by simp)).1,
    (hfound "/b/2" (by simp) (by simp) (by simp)).2⟩

/-! ## No bound -/

def strayChars (n : Nat) : List Char := ['/', 'a', '/', 'b', '/'] ++ Nat.toDigits 10 n

/-- A path of its own for every number. -/
def strayPath (n : Nat) : String := String.ofList (strayChars n)

theorem strayPath_inj {m n : Nat} (h : strayPath m = strayPath n) : m = n := by
  have hdigits : Nat.toDigits 10 m = Nat.toDigits 10 n :=
    List.append_cancel_left (String.ofList_inj.mp h)
  calc
    m = Nat.ofDigitChars 10 (Nat.toDigits 10 m) 0 := Nat.ofDigitChars_ten_toDigits.symm
    _ = Nat.ofDigitChars 10 (Nat.toDigits 10 n) 0 := by rw [hdigits]
    _ = n := Nat.ofDigitChars_ten_toDigits

/-- No route has a path of more than two segments. -/
theorem of?_strayPath (n : Nat) : Route.of? (strayPath n) = none := by
  have hsplit : Text.split '/' (strayPath n) =
      "" :: "a" :: "b" :: (Text.splitChars '/' (Nat.toDigits 10 n)).map String.ofList := by
    simp [strayPath, strayChars, Text.split, Text.splitChars]
  unfold Route.of?
  rw [hsplit]
  split <;> simp_all

theorem strayChars_plain {n : Nat} {c : Char} (h : c ∈ strayChars n) :
    c.toNat ≤ 127 ∧ (c != '?' && c != '#') = true ∧ Target.isPathChar c = true := by
  rcases List.mem_append.mp h with hc | hc
  · simp only [List.mem_cons, List.not_mem_nil, or_false] at hc
    rcases hc with rfl | rfl | rfl | rfl | rfl <;> decide
  · obtain ⟨hlow, hhigh⟩ : 48 ≤ c.toNat ∧ c.toNat ≤ 57 :=
      Char.isDigit_iff_toNat.mp (Nat.isDigit_of_mem_toDigits (by decide) (by decide) hc)
    have hquery : c ≠ '?' := fun heq => absurd (heq ▸ hhigh) (by decide)
    have hfragment : c ≠ '#' := fun heq => absurd (heq ▸ hlow) (by decide)
    refine ⟨by omega, by simp [hquery, hfragment], ?_⟩
    simp [Target.isPathChar]
    omega

theorem path?_strayPath {n : Nat} (hn : n < Text.tenTo 250) :
    Target.path? (strayPath n) = some (strayPath n) := by
  have hlength : (Nat.toDigits 10 n).length ≤ 250 :=
    (@Nat.length_toDigits_le_iff 10 n 250 (by decide) (by decide)).mpr hn
  have hsize : (strayPath n).utf8ByteSize = 5 + (Nat.toDigits 10 n).length := by
    rw [strayPath, String.utf8ByteSize_ofList,
      Text.utf8Len_eq_length fun c hc => (strayChars_plain hc).1, strayChars, List.length_append]
    rfl
  have hshort : ¬ ((strayPath n).isEmpty = true ∨ Target.longest < (strayPath n).utf8ByteSize) := by
    rw [String.isEmpty_iff_utf8ByteSize_eq_zero, hsize, Target.longest]
    omega
  have hlist : (strayPath n).toList = strayChars n := String.toList_ofList
  have hasterisk : strayPath n ≠ "*" := by
    intro h
    rw [h] at hlist
    cases hlist
  have hall : (strayChars n).all Target.isPathChar = true :=
    List.all_eq_true.mpr fun c hc => (strayChars_plain hc).2.2
  have htake : (strayChars n).takeWhile (fun c => c != '?' && c != '#') = strayChars n :=
    List.takeWhile_eq_self_iff.mpr fun c hc => (strayChars_plain hc).2.1
  have hdrop : (strayChars n).dropWhile (fun c => c != '?' && c != '#') = [] :=
    List.dropWhile_eq_nil_iff.mpr fun c hc => (strayChars_plain hc).2.1
  unfold Target.path?
  rw [if_neg hshort, if_neg hasterisk, hlist,
    if_pos (show (strayChars n).head? = some '/' from rfl), Target.pathOf?]
  simp only [htake, hdrop, hall]
  rfl

/-- Whatever the fixed labels are, a request can come that is counted under none of them; a path
has at most 65534 bytes, so there are not infinitely many. -/
theorem not_paths_bounded : ¬ ∃ fixed : List String, fixed.length ≤ Text.tenTo 200 ∧
    ∀ (setup : BrokerSetup) (calendar : Timestamp) (b : Broker) (happenings : List Happening),
      Broker.start setup calendar = .ok b →
      ∀ path ∈ (course happenings b).exchange.metrics.requests.paths,
        path ∈ patterns ∨ path ∈ fixed := by
  rintro ⟨fixed, hlength, hfixed⟩
  obtain ⟨b, hstart⟩ : ∃ b, Broker.start {} ⟨0, 0⟩ = .ok b := ⟨_, rfl⟩
  let bound := Text.tenTo 200 + patterns.length
  have hstray : ∀ n ≤ bound, strayPath n ∈ patterns ++ fixed := by
    intro n hn
    have hn' : n < Text.tenTo 250 := Nat.lt_of_le_of_lt hn (by decide)
    let asked : List Happening :=
      [.request anyOccasion {} (get (strayPath n) (path?_strayPath hn'))]
    have hrecorded := (recorded_start hstart).course asked
    have hmem : strayPath n ∈ strays (asked.filterMap Happening.arrival?) := by
      simp [strays, asked, Happening.arrival?, get, of?_strayPath]
    have hne : ∀ short : String, short.toList.length ≤ 1 → strayPath n ≠ short := by
      rintro short hshort rfl
      simp [strayPath, strayChars] at hshort
    have hpath := (hrecorded.stray_mem hmem (hne "" (by decide)) (hne "*" (by decide))).1
    exact List.mem_append.mpr (hfixed {} ⟨0, 0⟩ b asked hstart _ hpath)
  have hnodup : ((List.range (bound + 1)).map strayPath).Nodup :=
    List.nodup_range.map fun _ _ => strayPath_inj
  have hsubset : (List.range (bound + 1)).map strayPath ⊆ patterns ++ fixed := by
    intro path hpath
    obtain ⟨n, hn, rfl⟩ := List.mem_map.mp hpath
    exact hstray n (Nat.lt_succ_iff.mp (List.mem_range.mp hn))
  have hle := (List.subperm_of_subset hnodup hsubset).length_le
  rw [List.length_map, List.length_range, List.length_append] at hle
  omega

end Http

end RtpBroker
