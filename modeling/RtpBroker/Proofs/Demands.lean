import Mathlib.Order.WellFounded
import RtpBroker.Proofs.Acceptance
import RtpBroker.Proofs.Encoding
import RtpBroker.Proofs.Inquiry
import RtpBroker.Proofs.Release

/-!
# What a request to play must meet

A request to play is accepted if and only if it meets six demands, and otherwise the first
of them that it does not meet decides how it is refused. A refusal changes nothing but the
counts of requests.
-/

namespace RtpBroker.Http

/-! ## The demands -/

inductive Demand
  | port
  | audio
  | encoding
  | content
  | format
  | session
  deriving DecidableEq

namespace Demand

/-- The place in the order in which the demands are looked at. -/
def place : Demand → Nat
  | port => 0
  | audio => 1
  | encoding => 2
  | content => 3
  | format => 4
  | session => 5

def bytes (text : String) : List UInt8 := text.toUTF8.data.toList

/-- Whether a body meets a demand, the last one in an exchange. -/
def Met (p : PlayBody) (x : Exchange) : Demand → Prop
  | port => ∃ port, p.port = some port ∧ port ≠ 0
  | audio => ∃ text, p.audio = some text ∧ text ≠ ""
  | encoding => ∃ text payload, p.audio = some text ∧ bytes text = Base64.encode payload
  | content => ∃ text payload, p.audio = some text ∧ bytes text = Base64.encode payload ∧
      payload ≠ []
  | format => ∃ f, AudioFormat.check p.format = .ok f
  | session => ∃ port, p.port = some port ∧
      ∃ s ∈ x.sessions, s.port = port ∧ s.standing = .registered ∧ s.isClosed = false

/-- How a body is refused for want of a demand. -/
inductive Refuses (p : PlayBody) : Demand → Refusal → Prop
  | port : Refuses p .port (.badRequest "rtp_port fehlt")
  | audio : Refuses p .audio (.badRequest "audio_data_base64 fehlt")
  | encoding {text : String} {flaw : Base64.Flaw} (haudio : p.audio = some text)
      (h : Base64.decode (bytes text) = .error flaw) : Refuses p .encoding (.base64 flaw)
  | content : Refuses p .content (.broker (.badRequest Exchange.emptyText))
  | format {text : String} (hformat : p.format = some text) :
      Refuses p .format (.broker (AudioFormat.refusal (Text.trim text)))
  | session {port : Port} (hport : p.port = some port) :
      Refuses p .session (.broker (.sessionNotFound port))

theorem Refuses.status {p : PlayBody} {d : Demand} {e : Refusal} (h : Refuses p d e) :
    e.status = if d = .session then 404 else 400 := by
  cases h <;> rfl

end Demand

open Demand

variable {p : PlayBody} {b : Broker} {id : Uuid}

/-! ## The first demand that is not met -/

theorem check_error {e : Refusal} (h : p.check = .error e) : playBody p id b = (e.response, b) := by
  rw [playBody, h]

theorem check_eq {port : Port} {text : String} (hport : p.port = some port) (hzero : port ≠ 0)
    (haudio : p.audio = some text) (hempty : text ≠ "") :
    p.check = match Base64.decode (bytes text) with
      | .ok payload => .ok (port, ByteArray.mk payload.toArray)
      | .error f => .error (.base64 f) := by
  rw [PlayBody.check, hport]
  dsimp only
  rw [if_neg hzero, haudio]
  dsimp only
  rw [if_neg hempty]
  rfl

theorem playBody_eq {port : Port} {text : String} {payload : List UInt8}
    (hport : p.port = some port) (hzero : port ≠ 0) (haudio : p.audio = some text)
    (hempty : text ≠ "") (hbytes : bytes text = Base64.encode payload) :
    playBody p id b =
      match b.play port ⟨payload.toArray⟩ p.format id with
      | (.ok id, b) =>
        (.json 202 (Json.object [("status", .str "accepted"), ("playback_id", .str id.text)]), b)
      | (.error f, b) => (Refusal.response (.broker f), b) := by
  rewrite [playBody, check_eq hport hzero haudio hempty, Base64.decode_eq_ok.mpr hbytes]
  rfl

theorem check_format_error {format : Option String} {f : Fault}
    (h : AudioFormat.check format = .error f) :
    ∃ text, format = some text ∧ f = AudioFormat.refusal (Text.trim text) := by
  unfold AudioFormat.check at h
  split at h
  · cases h
  · next text =>
    refine ⟨text, rfl, ?_⟩
    dsimp only at h
    split at h
    · cases h
    · split at h
      · exact (Except.error.inj h).symm
      · cases h

theorem size_ne_zero {payload : List UInt8} (hne : payload ≠ []) :
    (ByteArray.mk payload.toArray).size ≠ 0 := by
  simpa [ByteArray.size] using hne

/-- The last two demands are the exchange's. -/
theorem refusalOrPlace_eq {port : Port} {payload : List UInt8} (hne : payload ≠ [])
    (format : Option String) (x : Exchange) :
    x.refusalOrPlace port ⟨payload.toArray⟩ format =
      match AudioFormat.check format with
      | .error e => .error e
      | .ok format =>
        match x.numberAt? port, x.sessionAt? port with
        | some i, some s => if s.isClosed then .error (.sessionNotFound port) else .ok (format, i)
        | _, _ => .error (.sessionNotFound port) := by
  rewrite [Exchange.refusalOrPlace, if_neg (size_ne_zero hne)]
  rfl

theorem playBody_error {port : Port} {text : String} {payload : List UInt8} {f : Fault}
    (hport : p.port = some port) (hzero : port ≠ 0) (haudio : p.audio = some text)
    (hempty : text ≠ "") (hbytes : bytes text = Base64.encode payload)
    (h : b.exchange.refusalOrPlace port ⟨payload.toArray⟩ p.format = .error f) :
    playBody p id b = (Refusal.response (.broker f), b) := by
  have hplay : b.play port ⟨payload.toArray⟩ p.format id = (.error f, b) := by
    rw [Broker.play, Exchange.play, h]
  rw [playBody_eq hport hzero haudio hempty hbytes, hplay]

theorem refusalOrPlace_error {port : Port} {payload : List UInt8} {f : String} (hne : payload ≠ [])
    (hformat : AudioFormat.check p.format = .ok f) (hport : p.port = some port) {x : Exchange}
    (h : ¬ Demand.session.Met p x) :
    x.refusalOrPlace port ⟨payload.toArray⟩ p.format = .error (.sessionNotFound port) := by
  rw [refusalOrPlace_eq hne, hformat]
  dsimp only
  cases hnumber : x.numberAt? port with
  | none => rfl
  | some i =>
    obtain ⟨s, hi, hregistered, hat⟩ := Exchange.registered_of_numberAt? hnumber
    have hclosed : s.isClosed = true := by
      by_contra hopen
      exact h ⟨port, hport, s, List.mem_of_getElem? hi, hat, hregistered, by simpa using hopen⟩
    rw [Exchange.sessionAt?_of_numberAt? x hnumber, hi]
    exact if_pos hclosed

theorem refused_first {d : Demand}
    (hbefore : ∀ d' : Demand, d'.place < d.place → d'.Met p b.exchange)
    (h : ¬ d.Met p b.exchange) :
    ∃ e, Refuses p d e ∧ playBody p id b = (e.response, b) := by
  cases d with
  | port =>
    refine ⟨_, .port, check_error ?_⟩
    unfold PlayBody.check
    cases hport : p.port with
    | none => rfl
    | some port =>
      have hzero : port = 0 := by
        by_contra hne
        exact h ⟨port, hport, hne⟩
      exact if_pos hzero
  | audio =>
    obtain ⟨port, hport, hzero⟩ := hbefore .port (by decide)
    refine ⟨_, .audio, check_error ?_⟩
    rw [PlayBody.check, hport]
    dsimp only
    rw [if_neg hzero]
    cases haudio : p.audio with
    | none => rfl
    | some text =>
      have hempty : text = "" := by
        by_contra hne
        exact h ⟨text, haudio, hne⟩
      exact if_pos hempty
  | encoding =>
    obtain ⟨port, hport, hzero⟩ := hbefore .port (by decide)
    obtain ⟨text, haudio, hempty⟩ := hbefore .audio (by decide)
    cases hdecode : Base64.decode (bytes text) with
    | error flaw =>
      refine ⟨_, .encoding haudio hdecode, check_error ?_⟩
      rw [check_eq hport hzero haudio hempty, hdecode]
    | ok payload => exact absurd ⟨text, payload, haudio, Base64.decode_eq_ok.mp hdecode⟩ h
  | content =>
    obtain ⟨port, hport, hzero⟩ := hbefore .port (by decide)
    obtain ⟨text, haudio, hempty⟩ := hbefore .audio (by decide)
    obtain ⟨text', payload, haudio', hbytes⟩ := hbefore .encoding (by decide)
    obtain rfl : text = text' := Option.some.inj (haudio.symm.trans haudio')
    have hnil : payload = [] := by
      by_contra hne
      exact h ⟨text, payload, haudio, hbytes, hne⟩
    refine ⟨_, .content, playBody_error hport hzero haudio hempty hbytes ?_⟩
    rw [hnil]
    rfl
  | format =>
    obtain ⟨port, hport, hzero⟩ := hbefore .port (by decide)
    obtain ⟨text, haudio, hempty⟩ := hbefore .audio (by decide)
    obtain ⟨text', payload, haudio', hbytes, hne⟩ := hbefore .content (by decide)
    obtain rfl : text = text' := Option.some.inj (haudio.symm.trans haudio')
    cases hcheck : AudioFormat.check p.format with
    | ok f => exact absurd ⟨f, hcheck⟩ h
    | error f =>
      obtain ⟨format, hformat, rfl⟩ := check_format_error hcheck
      refine ⟨_, .format hformat, playBody_error hport hzero haudio hempty hbytes ?_⟩
      rw [refusalOrPlace_eq hne, hcheck]
  | session =>
    obtain ⟨port, hport, hzero⟩ := hbefore .port (by decide)
    obtain ⟨text, haudio, hempty⟩ := hbefore .audio (by decide)
    obtain ⟨text', payload, haudio', hbytes, hne⟩ := hbefore .content (by decide)
    obtain rfl : text = text' := Option.some.inj (haudio.symm.trans haudio')
    obtain ⟨f, hformat⟩ := hbefore .format (by decide)
    exact ⟨_, .session hport, playBody_error hport hzero haudio hempty hbytes
      (refusalOrPlace_error hne hformat hport h)⟩

/-! ## All demands are met -/

def accepted (id : Uuid) : Response :=
  .json 202 (Json.object [("status", .str "accepted"), ("playback_id", .str id.text)])

theorem playBody_accepted (hb : b.Attained) (hnew : b.exchange.story id = [])
    (hmet : ∀ d : Demand, d.Met p b.exchange) :
    (playBody p id b).1 = accepted id ∧ ∃ i s s' q, p.port = some s.port ∧
      Broker.Admitted id b (playBody p id b).2 i s s' q := by
  obtain ⟨port, hport, hzero⟩ := hmet .port
  obtain ⟨text, haudio, hempty⟩ := hmet .audio
  obtain ⟨text', payload, haudio', hbytes, hne⟩ := hmet .content
  obtain rfl : text = text' := Option.some.inj (haudio.symm.trans haudio')
  obtain ⟨f, hformat⟩ := hmet .format
  obtain ⟨port', hport', s, hs, rfl, hregistered, hopen⟩ := hmet .session
  obtain rfl : port = s.port := Option.some.inj (hport.symm.trans hport')
  obtain ⟨i, hi⟩ := List.mem_iff_getElem?.mp hs
  have hnumber := Broker.numberAt?_of_registered hb.reachable.1.conserved hi hregistered
  have hplace : b.exchange.refusalOrPlace s.port ⟨payload.toArray⟩ p.format = .ok (f, i) := by
    rw [refusalOrPlace_eq hne, hformat]
    dsimp only
    rw [hnumber, Exchange.sessionAt?_of_numberAt? _ hnumber, hi]
    exact if_neg (by simp [hopen])
  have hplay : (b.play s.port ⟨payload.toArray⟩ p.format id).1 = .ok id := by
    rw [Broker.play, Exchange.play, hplace]
  obtain ⟨j, t, t', q, hadmitted, htport⟩ := Broker.play_admitted hb hnew hplay
  have hbody : playBody p id b =
      (accepted id, (b.play s.port ⟨payload.toArray⟩ p.format id).2) := by
    rw [playBody_eq hport hzero haudio hempty hbytes]
    generalize b.play s.port ⟨payload.toArray⟩ p.format id = answer at hplay
    obtain ⟨result, b'⟩ := answer
    cases hplay
    rfl
  rw [hbody]
  exact ⟨rfl, j, t, t', q, htport ▸ hport, hadmitted⟩

/-! ## The answer -/

/-- The same but for the counts of requests. -/
def SameButRequests (b b' : Broker) : Prop :=
  ∃ requests requestSeconds, b' = { b with exchange := { b.exchange with
    metrics := { b.exchange.metrics with requests, requestSeconds } } }

theorem SameButRequests.admitted {b₁ b₂ : Broker} (h : SameButRequests b₁ b₂) {i : Nat}
    {s s' : Session} {q : PlaybackStatus} (ha : Broker.Admitted id b b₁ i s s' q) :
    Broker.Admitted id b b₂ i s s' q := by
  obtain ⟨requests, requestSeconds, rfl⟩ := h
  exact { ha with sessions := ha.sessions, tracker := ha.tracker, rest := ha.rest }

theorem serve_play (o : Occasion) (h : Health) {r : Request} (b : Broker)
    (hmethod : r.method = "POST") (hpath : r.path = "/play-audio")
    (hbody : readPlayBody r = .ok p) :
    (serve o h r b).1 = (playBody p o.id b).1 ∧
      SameButRequests (playBody p o.id b).2 (serve o h r b).2 := by
  have hroute : Route.of? r.path = some .play := by
    rw [hpath]
    decide
  have hdispatch : dispatch o h r b = playBody p o.id b := by
    rw [dispatch, hroute, hmethod]
    simp [Route.methods, handle, play, hbody, Response.forMethod]
  rw [serve, hdispatch]
  exact ⟨rfl, _, _, rfl⟩

theorem accepted_ne_refused (id : Uuid) {d : Demand} {e : Refusal} (h : Refuses p d e) :
    (accepted id).status ≠ e.response.status := by
  have hstatus : e.response.status = e.status := rfl
  rw [hstatus, h.status, show (accepted id).status = 202 from rfl]
  split <;> decide

/-- The first demand that is not met, if there is one. -/
theorem exists_first_unmet {x : Exchange} (h : ¬ ∀ d : Demand, d.Met p x) :
    ∃ d : Demand, ¬ d.Met p x ∧ ∀ d' : Demand, d'.place < d.place → d'.Met p x := by
  rw [not_forall] at h
  obtain ⟨d, hd, hleast⟩ := (measure Demand.place).wf.has_min {d | ¬ d.Met p x} h
  exact ⟨d, hd, fun d' hlt => not_not.mp fun hunmet => hleast d' hunmet hlt⟩

theorem admitted_found {b' : Broker} {i : Nat} {s s' : Session} {q : PlaybackStatus}
    (h : Broker.Admitted id b b' i s s' q) : b'.exchange.tracker.find? id = some q := by
  have hold : b.exchange.tracker.records.find? (·.id == id) = none :=
    List.find?_eq_none.mpr fun q hq => by simpa using h.fresh.1 q hq
  have hid : q.id = id := by
    have hstage := h.stage
    cases hstage <;> rfl
  rw [h.tracker, Tracker.find?, List.find?_append, hold]
  simp [hid]

/-- A request to play is accepted if and only if it meets every demand. The first one that it does
not meet decides the refusal, which changes nothing but the counts of requests. An acceptance adds
one record and one playback in the session on the port, and the identifier in the answer is the one
under which the record is found. -/
theorem play_all_or_nothing {o : Occasion} {h : Health} {r : Request} (hmethod : r.method = "POST")
    (hpath : r.path = "/play-audio") (hbody : readPlayBody r = .ok p) (hb : b.Attained)
    (hnew : b.exchange.story o.id = []) :
    ((serve o h r b).1.status = 202 ↔ ∀ d : Demand, d.Met p b.exchange) ∧
    (∀ d : Demand, (∀ d' : Demand, d'.place < d.place → d'.Met p b.exchange) →
      ¬ d.Met p b.exchange →
      ∃ e, Refuses p d e ∧ e.status = (if d = .session then 404 else 400) ∧
        (serve o h r b).1 = e.response ∧ SameButRequests b (serve o h r b).2) ∧
    ((∀ d : Demand, d.Met p b.exchange) →
      (serve o h r b).1 = accepted o.id ∧
      ∃ i s s' q, p.port = some s.port ∧
        Broker.Admitted o.id b (serve o h r b).2 i s s' q ∧
        ∀ o' h' r', r'.method = "GET" → r'.path = "/playback/" ++ o.id.text →
          (serve o' h' r' (serve o h r b).2).1 = .json 200 (PlaybackStatus.codec.write q)) := by
  obtain ⟨hanswer, hsame⟩ := serve_play o h b hmethod hpath hbody
  have hrefused : ∀ d : Demand, (∀ d' : Demand, d'.place < d.place → d'.Met p b.exchange) →
      ¬ d.Met p b.exchange →
      ∃ e, Refuses p d e ∧ e.status = (if d = .session then 404 else 400) ∧
        (serve o h r b).1 = e.response ∧ SameButRequests b (serve o h r b).2 := by
    intro d hbefore hunmet
    obtain ⟨e, he, heq⟩ : ∃ e, Refuses p d e ∧ playBody p o.id b = (e.response, b) :=
      refused_first hbefore hunmet
    rw [heq] at hanswer hsame
    exact ⟨e, he, he.status, hanswer, hsame⟩
  have haccepted : (∀ d : Demand, d.Met p b.exchange) → (serve o h r b).1 = accepted o.id ∧
      ∃ i s s' q, p.port = some s.port ∧
        Broker.Admitted o.id b (serve o h r b).2 i s s' q := by
    intro hmet
    obtain ⟨hbody, i, s, s', q, hport, hadmitted⟩ := playBody_accepted hb hnew hmet
    exact ⟨hanswer.trans hbody, i, s, s', q, hport, hsame.admitted hadmitted⟩
  refine ⟨⟨fun hstatus => ?_, fun hmet => ?_⟩, hrefused, fun hmet => ?_⟩
  · by_contra hunmet
    obtain ⟨d, hd, hbefore⟩ := exists_first_unmet hunmet
    obtain ⟨e, he, -, heq, -⟩ := hrefused d hbefore hd
    rw [heq] at hstatus
    exact accepted_ne_refused o.id he hstatus.symm
  · rw [(haccepted hmet).1]
    rfl
  · obtain ⟨heq, i, s, s', q, hport, hadmitted⟩ := haccepted hmet
    refine ⟨heq, i, s, s', q, hport, hadmitted, fun o' h' r' hmethod' hpath' => ?_⟩
    rw [serve_inquiry o' h' o.id _ hmethod' hpath', playback_of_id, admitted_found hadmitted]

/-- Two bytes of audio are to be played on port 10002. -/
def twoBytes : Request where
  method := "POST"
  path := "/play-audio"
  contentType := some "application/json"
  body := "\x7b\"rtp_port\":10002,\"audio_data_base64\":\"AQI=\"\x7d"

def firstId : Occasion := ⟨⟨fun _ _ => 10002, fun _ _ => none⟩, ⟨1⟩, 0, 0⟩

theorem read_twoBytes : ∃ p, readPlayBody twoBytes = .ok p ∧ p.port = some 10002 ∧
    p.audio = some "AQI=" ∧ p.format = none := by
  have hparts : (readPlayBody twoBytes).toOption.map (fun p => (p.port, p.audio, p.format)) =
      some (some 10002, some "AQI=", none) := by
    decide +kernel
  obtain ⟨p, hp, heq⟩ := Option.map_eq_some_iff.mp hparts
  cases hread : readPlayBody twoBytes with
  | error e =>
    rw [hread] at hp
    cases hp
  | ok p' =>
    rw [hread] at hp
    cases hp
    simp only [Prod.mk.injEq] at heq
    exact ⟨p, rfl, heq⟩

theorem play_all_or_nothing_twoBytes :
    ∃ b₀ b : Broker, b₀.Attained ∧ b.Attained ∧ b₀.exchange.story firstId.id = [] ∧
      b.exchange.story firstId.id = [] ∧ (∃ p, readPlayBody twoBytes = .ok p) ∧
      (serve firstId {} twoBytes b₀).1.status = 404 ∧
      (serve firstId {} twoBytes b).1.status = 202 := by
  obtain ⟨p, hread, hport, haudio, hformat⟩ := read_twoBytes
  obtain ⟨b₀, hstart, hnew₀, hnew, hnone, s, hs, hopened⟩ :
      ∃ b₀, Broker.start { low := 10000, high := 10007 } ⟨0, 0⟩ = .ok b₀ ∧
        b₀.exchange.story ⟨1⟩ = [] ∧
        (b₀.step (.openSession firstId.chance)).exchange.story ⟨1⟩ = [] ∧
        b₀.exchange.sessions = [] ∧
        ∃ s, s ∈ (b₀.step (.openSession firstId.chance)).exchange.sessions ∧
          s.port = 10002 ∧ s.standing = .registered ∧ s.isClosed = false :=
    ⟨_, rfl, rfl, rfl, rfl, _, List.mem_singleton_self _, rfl, rfl, rfl⟩
  have hstarted : b₀.Attained := .start hstart
  have hfair : (Broker.Event.openSession firstId.chance).Fair b₀.allocator.range :=
    Broker.fair_of_draw [.openSession firstId.chance] 10002 hstart (by decide)
      (by simp [firstId]) _ (List.mem_singleton_self _)
  have hattained : (b₀.step (.openSession firstId.chance)).Attained :=
    .step hstarted hfair (by simp [Broker.Event.playback?])
  -- Only the demand for a session depends on the broker.
  have hmet : ∀ (x : Exchange) (d : Demand), d ≠ .session → d.Met p x := by
    have hbytes : bytes "AQI=" = Base64.encode [1, 2] := by decide +kernel
    intro x d hd
    cases d with
    | port => exact ⟨10002, hport, by decide⟩
    | audio => exact ⟨_, haudio, by decide⟩
    | encoding => exact ⟨_, _, haudio, hbytes⟩
    | content => exact ⟨_, _, haudio, hbytes, by decide⟩
    | format => exact ⟨AudioFormat.standard, by rw [hformat]; rfl⟩
    | session => exact absurd rfl hd
  refine ⟨b₀, _, hstarted, hattained, hnew₀, hnew, ⟨p, hread⟩, ?_, ?_⟩
  · obtain ⟨-, hrefused, -⟩ := play_all_or_nothing (o := firstId) (h := {}) rfl rfl hread hstarted
      hnew₀
    have hunmet : ¬ Demand.session.Met p b₀.exchange := by
      rintro ⟨port, -, t, ht, -⟩
      rw [hnone] at ht
      cases ht
    obtain ⟨e, -, hstatus, heq, -⟩ := hrefused .session
      (fun d hlt => hmet _ d fun heq => by simp [heq] at hlt) hunmet
    rw [heq]
    exact hstatus
  · obtain ⟨haccepted, -, -⟩ := play_all_or_nothing (o := firstId) (h := {}) rfl rfl hread hattained
      hnew
    refine haccepted.mpr fun d => ?_
    by_cases hd : d = .session
    · exact hd ▸ ⟨10002, hport, s, hs, hopened⟩
    · exact hmet _ d hd

end RtpBroker.Http
