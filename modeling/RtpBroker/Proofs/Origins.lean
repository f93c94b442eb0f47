import RtpBroker.Http.Api
import RtpBroker.Startup

/-!
# The origins at start-up

Which lists of origins have a layer, and which one. A check of the configuration does not look at
the list, so what it accepts can still end the start: when the wildcard is listed.
-/

namespace RtpBroker

namespace Http.Cors

/-- A text without control characters but the tab. -/
def Writable (origin : String) : Prop :=
  ∀ c ∈ origin.toList, c = '\t' ∨ 32 ≤ c.toNat ∧ c.toNat ≠ 127

instance : DecidablePred Writable := fun _ => List.decidableBAll _ _

/-- The layer for some listed origins: none if there are none, else those that can stand in a
header, in their order. -/
def layer (listed : List String) : Option Cors :=
  if listed = [] then none else some ⟨listed.filter fun o => Writable o⟩

theorem isHeaderValue_iff (o : String) : Media.isHeaderValue o = true ↔ Writable o := by
  simp [Media.isHeaderValue, Media.isQuotedChar, Writable, List.all_eq_true]

theorem filter_isHeaderValue (listed : List String) :
    listed.filter Media.isHeaderValue = listed.filter fun o => Writable o := by
  refine List.filter_congr fun o _ => ?_
  rw [Bool.eq_iff_iff, isHeaderValue_iff, decide_eq_true_eq]

theorem writable_wildcard : Writable wildcard := by decide

/-- No list is refused but one with the wildcard. -/
theorem of_eq (listed : List String) :
    Cors.of listed = if wildcard ∈ listed then .error .wildcardListed else .ok (layer listed) := by
  have hkept : wildcard ∈ listed.filter (fun o => Writable o) ↔ wildcard ∈ listed := by
    rw [List.mem_filter, decide_eq_true_eq]
    exact and_iff_left writable_wildcard
  unfold Cors.of layer
  by_cases hnil : listed = []
  · simp [hnil]
  · have hnonempty : listed.isEmpty = false := by simpa using hnil
    simp only [hnonempty, Bool.false_eq_true, if_false, filter_isHeaderValue,
      List.contains_iff_mem, hkept, hnil]

theorem of_eq_ok_iff {listed : List String} {l : Option Cors} :
    Cors.of listed = .ok l ↔ wildcard ∉ listed ∧ l = layer listed := by
  rw [of_eq]
  split
  · next hlisted => simp [hlisted]
  · next hlisted => simp [hlisted, eq_comm]

/-- A preflight is no request that a route takes, and it learns of every method that a route takes
but of HEAD, which needs no permission. -/
theorem methods_of_route {route : Route} {method : String} (h : method ∈ route.methods) :
    isPreflight method = false ∧ (method = "HEAD" ∨ method ∈ Text.split ',' methods) := by
  have hmethod : method = "DELETE" ∨ method = "POST" ∨ method = "GET" ∨ method = "HEAD" := by
    cases route <;> simp [Route.methods] at h <;> simp [h]
  rcases hmethod with rfl | rfl | rfl | rfl
  all_goals decide +kernel

end Http.Cors

namespace Config

open Http (Cors)

/-- A configuration with other origins. -/
def allowing (c : Config) (listed : List String) : Config :=
  { c with network := { c.network with corsOrigins := listed } }

variable {c : Config} {host : Host} {calendar : Timestamp}
  {bindError? : SocketAddr → Option String}

theorem components_error {flaw : StartFlaw} (h : c.components host calendar = .error flaw) :
    ∃ texts, flaw = .chain texts := by
  unfold components at h
  split at h
  · next texts _ => exact ⟨texts, (Except.error.inj h).symm⟩
  · split at h
    · exact ⟨_, (Except.error.inj h).symm⟩
    · cases h

theorem readAddress_error {context text : String} {flaw : StartFlaw}
    (h : readAddress context text = .error flaw) : ∃ texts, flaw = .chain texts := by
  unfold readAddress at h
  split at h
  · cases h
  · exact ⟨_, (Except.error.inj h).symm⟩

theorem readAddresses_error {flaw : StartFlaw} (h : c.readAddresses = .error flaw) :
    ∃ texts, flaw = .chain texts := by
  unfold readAddresses at h
  split at h
  · cases hseparate : readAddress observabilityAddressText c.observabilityAddress with
    | error f =>
      rw [hseparate] at h
      cases h
      exact readAddress_error hseparate
    | ok address =>
      rw [hseparate] at h
      exact readAddress_error h
  · exact readAddress_error h

/-- A start gets as far as the origins when it has made the broker and read the addresses. -/
def Reaches (c : Config) (host : Host) (calendar : Timestamp) : Prop :=
  (∃ parts, c.components host calendar = .ok parts) ∧ ∃ address, c.readAddresses = .ok address

theorem bringUp_cors_iff {flaw : Cors.Flaw} :
    (c.bringUp host calendar bindError?).2 = .error (.cors flaw) ↔
      c.Reaches host calendar ∧ Cors.of c.network.corsOrigins = .error flaw := by
  unfold bringUp Reaches
  cases hparts : c.components host calendar with
  | error f =>
    obtain ⟨texts, rfl⟩ := components_error hparts
    simp
  | ok parts =>
    cases haddress : c.readAddresses with
    | error f =>
      obtain ⟨texts, rfl⟩ := readAddresses_error haddress
      simp
    | ok address =>
      cases Cors.of c.network.corsOrigins with
      | error f => simp
      | ok l =>
        dsimp only
        split <;> simp

theorem layer_of_bringUp {parts : Components} {l : Option Cors}
    (h : (c.bringUp host calendar bindError?).2 = .ok (parts, l)) :
    Cors.of c.network.corsOrigins = .ok l := by
  unfold bringUp at h
  split at h
  · cases h
  · dsimp only at h
    split at h
    · cases h
    · split at h
      · cases h
      · next hof =>
        split at h
        · cases h
        · cases h
          exact hof

/-- Whatever is listed, the check of a configuration comes out the same. Without the wildcard there
is a layer of what can stand in a header; with it the start ends at the origins if it gets there. -/
theorem origins_at_start (c : Config) (listed : List String) (host : Host) (calendar : Timestamp)
    (bindError? : SocketAddr → Option String) :
    (c.allowing listed).check = c.check ∧
    Cors.of listed =
      (if "*" ∈ listed then .error .wildcardListed else .ok (Cors.layer listed)) ∧
    (((c.allowing listed).bringUp host calendar bindError?).2 = .error (.cors .wildcardListed) ↔
      c.Reaches host calendar ∧ "*" ∈ listed) ∧
    ∀ parts l, ((c.allowing listed).bringUp host calendar bindError?).2 = .ok (parts, l) →
      "*" ∉ listed ∧ l = Cors.layer listed := by
  have hof := Cors.of_eq listed
  refine ⟨rfl, hof, ?_, fun parts l h => Cors.of_eq_ok_iff.mp (layer_of_bringUp h)⟩
  have hrefused : Cors.of listed = .error .wildcardListed ↔ "*" ∈ listed := by
    rw [hof]
    split
    · next hlisted => exact iff_of_true rfl hlisted
    · next hlisted => exact iff_of_false (by simp) hlisted
  exact bringUp_cors_iff.trans (and_congr_right fun _ => hrefused)

/-- The check accepts a configuration whose list of origins has no layer. -/
theorem not_origins_accepted :
    ¬ ∀ c : Config, c.check = .ok () → ∃ l, Cors.of c.network.corsOrigins = .ok l := by
  intro h
  obtain ⟨l, hl⟩ := h (allowing {} ["*"]) rfl
  exact absurd hl (by simp [allowing, Cors.of_eq, Cors.wildcard])

end Config

end RtpBroker
