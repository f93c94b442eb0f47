import RtpBroker.Config
import RtpBroker.Proofs.Codecs
import RtpBroker.Proofs.TimestampText

/-!
# Data and their texts

A configuration, an endpoint and the status of a playback are read back from their texts.
Fields that are deleted from the text of a configuration, whole sections among them, are read
as their defaults, and fields that nobody knows are not noticed.
-/

namespace RtpBroker

open Json

/-! ## Sections -/

/-- The section with the fields that are gone at their defaults. -/
def NetworkConfig.without (gone : String → Bool) (c : NetworkConfig) : NetworkConfig :=
  let d : NetworkConfig := {}
  { bindAddress := if gone "bind_adresse" then d.bindAddress else c.bindAddress
    apiPort := if gone "api_port" then d.apiPort else c.apiPort
    publicHost := if gone "oeffentlicher_host" then d.publicHost else c.publicHost
    corsOrigins := if gone "cors_origins" then d.corsOrigins else c.corsOrigins }

def RtpConfig.without (gone : String → Bool) (c : RtpConfig) : RtpConfig :=
  let d : RtpConfig := {}
  { bindHost := if gone "bind_host" then d.bindHost else c.bindHost
    portMin := if gone "port_min" then d.portMin else c.portMin
    portMax := if gone "port_max" then d.portMax else c.portMax
    attempts := if gone "versuche" then d.attempts else c.attempts
    bindAttempts := if gone "bind_versuche" then d.bindAttempts else c.bindAttempts
    idleSeconds := if gone "inaktivitaet_timeout_secs" then d.idleSeconds else c.idleSeconds
    sweepSeconds := if gone "bereinigung_intervall_secs" then d.sweepSeconds else c.sweepSeconds
    cooldownSeconds := if gone "quarantaene_secs" then d.cooldownSeconds else c.cooldownSeconds }

def PlaybackConfig.without (gone : String → Bool) (c : PlaybackConfig) : PlaybackConfig :=
  let d : PlaybackConfig := {}
  { ceilingMs := if gone "wartezeit_ms" then d.ceilingMs else c.ceilingMs
    intervalMs := if gone "pruef_intervall_ms" then d.intervalMs else c.intervalMs
    retentionSeconds :=
      if gone "aufbewahrung_secs" then d.retentionSeconds else c.retentionSeconds }

def StreamSetup.without (gone : String → Bool) (c : StreamSetup) : StreamSetup :=
  let d : StreamSetup := {}
  { program := if gone "programm" then d.program else c.program
    leading := if gone "vor_argumente" then d.leading else c.leading
    sampleRate := if gone "sample_rate" then d.sampleRate else c.sampleRate
    channels := if gone "kanaele" then d.channels else c.channels
    codec := if gone "codec" then d.codec else c.codec
    packetSize := if gone "paket_groesse" then d.packetSize else c.packetSize
    tempDir := if gone "temp_verzeichnis" then d.tempDir else c.tempDir }

def LoggingConfig.without (gone : String → Bool) (c : LoggingConfig) : LoggingConfig :=
  let d : LoggingConfig := {}
  { level := if gone "level" then d.level else c.level
    format := if gone "format" then d.format else c.format }

def ObservabilityConfig.without (gone : String → Bool) (c : ObservabilityConfig) :
    ObservabilityConfig :=
  let d : ObservabilityConfig := {}
  { enabled := if gone "aktiviert" then d.enabled else c.enabled
    port := if gone "port" then d.port else c.port }

namespace Config

/-! ## Reading and writing -/

theorem text_optional : (Codec.optional Codec.text).Sound fun o => ∀ s ∈ o, True :=
  Codec.text_total.optional fun _ h => nomatch h

theorem restore_network (long : Bool) (gone : String → Bool) (c : NetworkConfig) :
    (networkRecord long).restore gone c = c.without gone := by
  simp only [Record.restore, networkRecord, List.foldl_cons, List.foldl_nil]
  rw [Field.fill_of Codec.text_total trivial fun _ => rfl,
    Field.fill_of Codec.uint16_total trivial fun _ => rfl,
    Field.fill_of Codec.text_total trivial fun _ => rfl,
    Field.fill_of Codec.text_total.list trivial fun _ => rfl]
  rfl

theorem network_sound (long : Bool) : (networkRecord long).Sound fun _ => True where
  nodup := by cases long <;> decide
  fields := by
    simp only [networkRecord, List.forall_mem_cons]
    exact ⟨.total Codec.text_total, .total Codec.uint16_total, .total Codec.text_total,
      .total Codec.text_total.list, fun _ hf => absurd hf List.not_mem_nil⟩
  start := trivial
  restore_all c _ := restore_network long _ c

theorem restore_rtp (long : Bool) (gone : String → Bool) (c : RtpConfig) :
    (rtpRecord long).restore gone c = c.without gone := by
  simp only [Record.restore, rtpRecord, List.foldl_cons, List.foldl_nil]
  rw [Field.fill_of Codec.text_total trivial fun _ => rfl,
    Field.fill_of Codec.uint16_total trivial fun _ => rfl,
    Field.fill_of Codec.uint16_total trivial fun _ => rfl,
    Field.fill_of Codec.uint32_total trivial fun _ => rfl,
    Field.fill_of Codec.uint32_total trivial fun _ => rfl,
    Field.fill_of Codec.uint64_total trivial fun _ => rfl,
    Field.fill_of Codec.uint64_total trivial fun _ => rfl,
    Field.fill_of Codec.uint64_total trivial fun _ => rfl]
  rfl

theorem rtp_sound (long : Bool) : (rtpRecord long).Sound fun _ => True where
  nodup := by cases long <;> decide
  fields := by
    simp only [rtpRecord, List.forall_mem_cons]
    exact ⟨.total Codec.text_total, .total Codec.uint16_total, .total Codec.uint16_total,
      .total Codec.uint32_total, .total Codec.uint32_total, .total Codec.uint64_total,
      .total Codec.uint64_total, .total Codec.uint64_total,
      fun _ hf => absurd hf List.not_mem_nil⟩
  start := trivial
  restore_all c _ := restore_rtp long _ c

theorem restore_playback (long : Bool) (gone : String → Bool) (c : PlaybackConfig) :
    (playbackRecord long).restore gone c = c.without gone := by
  simp only [Record.restore, playbackRecord, List.foldl_cons, List.foldl_nil]
  rw [Field.fill_of Codec.uint64_total trivial fun _ => rfl,
    Field.fill_of Codec.uint64_total trivial fun _ => rfl,
    Field.fill_of Codec.uint64_total trivial fun _ => rfl]
  rfl

theorem playback_sound (long : Bool) : (playbackRecord long).Sound fun _ => True where
  nodup := by cases long <;> decide
  fields := by
    simp only [playbackRecord, List.forall_mem_cons]
    exact ⟨.total Codec.uint64_total, .total Codec.uint64_total, .total Codec.uint64_total,
      fun _ hf => absurd hf List.not_mem_nil⟩
  start := trivial
  restore_all c _ := restore_playback long _ c

theorem restore_streaming (long : Bool) (gone : String → Bool) (c : StreamSetup) :
    (streamingRecord long).restore gone c = c.without gone := by
  simp only [Record.restore, streamingRecord, List.foldl_cons, List.foldl_nil]
  rw [Field.fill_of Codec.text_total trivial fun _ => rfl,
    Field.fill_of Codec.text_total.list trivial fun _ => rfl,
    Field.fill_of Codec.uint32_total trivial fun _ => rfl,
    Field.fill_of Codec.uint8_total trivial fun _ => rfl,
    Field.fill_of Codec.text_total trivial fun _ => rfl,
    Field.fill_of Codec.uint16_total trivial fun _ => rfl,
    Field.fill_of text_optional (fun _ _ => trivial) fun _ => rfl]
  rfl

theorem streaming_sound (long : Bool) : (streamingRecord long).Sound fun _ => True where
  nodup := by cases long <;> decide
  fields := by
    simp only [streamingRecord, List.forall_mem_cons]
    exact ⟨.total Codec.text_total, .total Codec.text_total.list, .total Codec.uint32_total,
      .total Codec.uint8_total, .total Codec.text_total, .total Codec.uint16_total,
      .of text_optional (fun _ _ _ _ => trivial) fun _ _ _ _ => trivial,
      fun _ hf => absurd hf List.not_mem_nil⟩
  start := trivial
  restore_all c _ := restore_streaming long _ c

theorem restore_logging (long : Bool) (gone : String → Bool) (c : LoggingConfig) :
    (loggingRecord long).restore gone c = c.without gone := by
  simp only [Record.restore, loggingRecord, List.foldl_cons, List.foldl_nil]
  rw [Field.fill_of Codec.text_total trivial fun _ => rfl,
    Field.fill_of Codec.text_total trivial fun _ => rfl]
  rfl

theorem logging_sound (long : Bool) : (loggingRecord long).Sound fun _ => True where
  nodup := by cases long <;> decide
  fields := by
    simp only [loggingRecord, List.forall_mem_cons]
    exact ⟨.total Codec.text_total, .total Codec.text_total,
      fun _ hf => absurd hf List.not_mem_nil⟩
  start := trivial
  restore_all c _ := restore_logging long _ c

theorem restore_observability (long : Bool) (gone : String → Bool) (c : ObservabilityConfig) :
    (observabilityRecord long).restore gone c = c.without gone := by
  simp only [Record.restore, observabilityRecord, List.foldl_cons, List.foldl_nil]
  rw [Field.fill_of Codec.bool_total trivial fun _ => rfl,
    Field.fill_of Codec.uint16_total trivial fun _ => rfl]
  rfl

theorem observability_sound (long : Bool) : (observabilityRecord long).Sound fun _ => True where
  nodup := by cases long <;> decide
  fields := by
    simp only [observabilityRecord, List.forall_mem_cons]
    exact ⟨.total Codec.bool_total, .total Codec.uint16_total,
      fun _ hf => absurd hf List.not_mem_nil⟩
  start := trivial
  restore_all c _ := restore_observability long _ c

/-- The configuration with whole sections at their defaults. -/
def withoutSections (gone : String → Bool) (c : Config) : Config where
  network := if gone "netzwerk" then {} else c.network
  rtp := if gone "rtp" then {} else c.rtp
  playback := if gone "wiedergabe" then {} else c.playback
  streaming := if gone "streaming" then {} else c.streaming
  logging := if gone "logging" then {} else c.logging
  observability := if gone "observability" then {} else c.observability

/-- The configuration with fields at their defaults; `gone` tells them of each section. -/
def withoutFields (gone : String → String → Bool) (c : Config) : Config where
  network := c.network.without (gone "netzwerk")
  rtp := c.rtp.without (gone "rtp")
  playback := c.playback.without (gone "wiedergabe")
  streaming := c.streaming.without (gone "streaming")
  logging := c.logging.without (gone "logging")
  observability := c.observability.without (gone "observability")

theorem restore_record (long : Bool) (gone : String → Bool) (c : Config) :
    (record long).restore gone c = c.withoutSections gone := by
  simp only [Record.restore, record, List.foldl_cons, List.foldl_nil]
  rw [Field.fill_of (network_sound long).codec trivial fun _ => rfl,
    Field.fill_of (rtp_sound long).codec trivial fun _ => rfl,
    Field.fill_of (playback_sound long).codec trivial fun _ => rfl,
    Field.fill_of (streaming_sound long).codec trivial fun _ => rfl,
    Field.fill_of (logging_sound long).codec trivial fun _ => rfl,
    Field.fill_of (observability_sound long).codec trivial fun _ => rfl]
  rfl

theorem record_sound (long : Bool) : (record long).Sound fun _ => True where
  nodup := by cases long <;> decide
  fields := by
    simp only [record, List.forall_mem_cons]
    exact ⟨.total (network_sound long).codec, .total (rtp_sound long).codec,
      .total (playback_sound long).codec, .total (streaming_sound long).codec,
      .total (logging_sound long).codec, .total (observability_sound long).codec,
      fun _ hf => absurd hf List.not_mem_nil⟩
  start := trivial
  restore_all c _ := restore_record long _ c

def without (gone : String → Bool) (goneIn : String → String → Bool) (c : Config) : Config :=
  (c.withoutFields goneIn).withoutSections gone

theorem without_nothing (c : Config) : c.without (fun _ => false) (fun _ _ => false) = c := rfl

/-- The object `j` is what is written for the configuration, with whole sections and fields of
others deleted, and with unknown members added to any of its objects. -/
def Edited (gone : String → Bool) (goneIn : String → String → Bool) (c : Config) (j : Json) :
    Prop :=
  Trimmed gone (fun name => Trimmed (goneIn name) fun _ v v' => v' = v) (codec.write c) j

/-- A section of which fields are deleted. -/
theorem read_section {α : Type} {r : Record α} {name : String} {get : Config → α}
    {set : α → Config → Config} {gone : String → Bool} {c c' : Config} {v : Json}
    (h : r.Sound fun _ => True) (hoptional : ∀ f ∈ r.fields, f.required = false)
    (hget : r.restore gone (get c) = get c')
    (hv : Trimmed gone (fun _ v v' => v' = v)
      ((Field.of name false r.codec get set).write c) v) (acc : Config) :
    (Field.of name false r.codec get set).read v acc =
      .ok ((Field.of name false r.codec get set).copy c' acc) := by
  have hread : r.read v = .ok (get c') := hget ▸ h.read_without hoptional trivial hv
  rw [Field.copy_of h.codec trivial]
  simp only [Field.of, Record.codec, hread, Except.map]

theorem Edited.read {gone : String → Bool} {goneIn : String → String → Bool} {c : Config}
    {j : Json} (h : c.Edited gone goneIn j) : codec.read j = .ok (c.without gone goneIn) := by
  have hsections : ∀ f ∈ (record false).fields, ∀ v,
      Trimmed (goneIn f.name) (fun _ v v' => v' = v) (f.write c) v →
        ∀ acc, f.read v acc = .ok (f.copy (c.withoutFields goneIn) acc) := by
    simp only [record, List.forall_mem_cons]
    refine ⟨fun v => ?_, fun v => ?_, fun v => ?_, fun v => ?_, fun v => ?_, fun v => ?_,
      fun _ hf => absurd hf List.not_mem_nil⟩
    · exact read_section (network_sound _) (by simp [networkRecord, Field.of]) (restore_network ..)
    · exact read_section (rtp_sound _) (by simp [rtpRecord, Field.of]) (restore_rtp ..)
    · exact read_section (playback_sound _) (by simp [playbackRecord, Field.of])
        (restore_playback ..)
    · exact read_section (streaming_sound _) (by simp [streamingRecord, Field.of])
        (restore_streaming ..)
    · exact read_section (logging_sound _) (by simp [loggingRecord, Field.of]) (restore_logging ..)
    · exact read_section (observability_sound _) (by simp [observabilityRecord, Field.of])
        (restore_observability ..)
  have hread := Record.read_trimmed (record_sound false).nodup hsections
    (by simp [record, Field.of]) h
  rwa [restore_record] at hread

end Config

/-! ## Endpoints and statuses -/

theorem Endpoint.record_sound : Endpoint.record.Sound fun _ => True where
  nodup := by decide
  fields := by
    simp only [Endpoint.record, List.forall_mem_cons]
    exact ⟨.total Codec.text_total, .total Codec.uint16_total,
      fun _ hf => absurd hf List.not_mem_nil⟩
  start := trivial
  restore_all e _ := by
    simp only [Record.restore, Endpoint.record, List.foldl_cons, List.foldl_nil]
    rw [Field.fill_of Codec.text_total trivial fun _ => rfl,
      Field.fill_of Codec.uint16_total trivial fun _ => rfl]
    rfl

namespace PlaybackStatus

/-- An exit code has 32 bits, and times are times of the calendar. -/
structure Valid (s : PlaybackStatus) : Prop where
  exitCode : ∀ code ∈ s.exitCode,
    -(UInt32.size / 2 : Nat) ≤ code ∧ code ≤ (UInt32.size / 2 - 1 : Nat)
  accepted : s.accepted.Valid
  finished : ∀ t ∈ s.finished, t.Valid

theorem uuid_total : (Codec.named Uuid.text Uuid.ofString?).Total :=
  Codec.named_sound (fun u _ => u.ofString?_text) fun _ _ _ => trivial

theorem phase_total : Phase.codec.Total := Codec.choice_total fun p => by cases p <;> rfl

theorem time_sound : (Codec.named Timestamp.text Timestamp.ofString?).Sound Timestamp.Valid :=
  Codec.named_sound (fun _ h => Timestamp.ofString?_text h) fun _ _ =>
    Timestamp.valid_of_ofString?

theorem exitCode_sound : (Codec.optional Codec.int32).Sound fun o =>
    ∀ code ∈ o, -(UInt32.size / 2 : Nat) ≤ code ∧ code ≤ (UInt32.size / 2 - 1 : Nat) :=
  Codec.int32_sound.optional fun _ h => nomatch h

theorem finished_sound : (Codec.optional (.named Timestamp.text Timestamp.ofString?)).Sound
    fun o => ∀ t ∈ o, t.Valid :=
  time_sound.optional fun _ h => nomatch h

theorem record_sound : PlaybackStatus.record.Sound Valid where
  nodup := by decide
  fields := by
    simp only [PlaybackStatus.record, List.forall_mem_cons]
    exact ⟨.of uuid_total (fun _ _ => trivial) fun _ _ hs _ => ⟨hs.1, hs.2, hs.3⟩,
      .of Codec.uint16_total (fun _ _ => trivial) fun _ _ hs _ => ⟨hs.1, hs.2, hs.3⟩,
      .of phase_total (fun _ _ => trivial) fun _ _ hs _ => ⟨hs.1, hs.2, hs.3⟩,
      .of exitCode_sound (fun _ hs => hs.1) fun _ _ hs hcode => ⟨hcode, hs.2, hs.3⟩,
      .of Config.text_optional (fun _ _ _ _ => trivial) fun _ _ hs _ => ⟨hs.1, hs.2, hs.3⟩,
      .of time_sound (fun _ hs => hs.2) fun _ _ hs ht => ⟨hs.1, ht, hs.3⟩,
      .of finished_sound (fun _ hs => hs.3) fun _ _ hs ht => ⟨hs.1, hs.2, ht⟩,
      fun _ hf => absurd hf List.not_mem_nil⟩
  start := {
    exitCode := fun _ h => nomatch h
    accepted := ⟨by decide, .inl (by decide)⟩
    finished := fun _ h => nomatch h }
  restore_all s hs := by
    simp only [Record.restore, PlaybackStatus.record, List.foldl_cons, List.foldl_nil]
    rw [Field.fill_of uuid_total trivial fun _ => rfl,
      Field.fill_of Codec.uint16_total trivial fun _ => rfl,
      Field.fill_of phase_total trivial fun _ => rfl,
      Field.fill_of exitCode_sound hs.exitCode fun _ => rfl,
      Field.fill_of Config.text_optional (fun _ _ => trivial) fun _ => rfl,
      Field.fill_of time_sound hs.accepted fun _ => rfl,
      Field.fill_of finished_sound hs.finished fun _ => rfl]
    rfl

end PlaybackStatus

/-! ## Texts -/

/-- The forms lose nothing, whatever has been deleted from a text of a configuration is at its
default, and what was added to it changes nothing. Every tree without flaws has a text. -/
theorem forms_faithful :
    (∀ (c : Config) gone goneIn j, c.Edited gone goneIn j → ∀ t, ofWholeText? t = some j →
      Config.codec.ofText? t = some (c.without gone goneIn)) ∧
    (∀ (c : Config) j, c.Edited (fun _ => false) (fun _ _ => false) j → ∀ t,
      ofWholeText? t = some j → Config.codec.ofText? t = some c) ∧
    (∀ j : Json, j.Plain → ofWholeText? j.text = some j) ∧
    (∀ c, Config.codec.ofText? (Config.codec.print c) = some c) ∧
    (∀ e, Endpoint.codec.ofText? (Endpoint.codec.print e) = some e) ∧
    (∀ s : PlaybackStatus, s.Valid →
      PlaybackStatus.codec.ofText? (PlaybackStatus.codec.print s) = some s) ∧
    Config.codec.Stable ∧ Endpoint.codec.Stable ∧ PlaybackStatus.codec.Stable := by
  have hconfig := (Config.record_sound false).codec
  have hendpoint := Endpoint.record_sound.codec
  have hstatus := PlaybackStatus.record_sound.codec
  have hedited : ∀ (c : Config) gone goneIn j, c.Edited gone goneIn j → ∀ t,
      ofWholeText? t = some j → Config.codec.ofText? t = some (c.without gone goneIn) :=
    fun c gone goneIn j hedit t ht => Codec.ofText?_eq_some.mpr ⟨j, ht, hedit.read⟩
  refine ⟨hedited, fun c j hedit t ht => ?_, fun j hj => hj.ofWholeText?_text,
    fun c => hconfig.ofText?_print trivial, fun e => hendpoint.ofText?_print trivial,
    fun s hs => hstatus.ofText?_print hs, hconfig.stable, hendpoint.stable, hstatus.stable⟩
  rw [hedited c _ _ j hedit t ht, c.without_nothing]

/-- A text without the section for RTP and with a member that nobody knows, and the status of a
playback that ended in a leap second. -/
theorem forms_faithful_withoutSection :
    let c : Config := { network := { apiPort := 8080 }, rtp := { portMin := 12000 } }
    let j := object [("netzwerk", (Config.networkRecord false).write c.network),
      ("wiedergabe", (Config.playbackRecord false).write {}),
      ("streaming", (Config.streamingRecord false).write {}), ("neu", .null),
      ("logging", (Config.loggingRecord false).write {}),
      ("observability", (Config.observabilityRecord false).write {})]
    let s : PlaybackStatus := {
      id := ⟨7⟩, port := 10000, phase := .failed, exitCode := some (-9), fault := some "\n"
      accepted := ⟨1483228798, 5⟩, finished := some ⟨1483228799, 1500000000⟩ }
    Config.codec.ofText? j.text = some { network := { apiPort := 8080 } } ∧
      PlaybackStatus.codec.ofText? (PlaybackStatus.codec.print s) = some s := by
  intro c j s
  have hplain : j.Plain := by
    refine .object ?_
    simp only [List.forall_mem_cons]
    exact ⟨(Config.network_sound _).codec.plain _ trivial,
      (Config.playback_sound _).codec.plain _ trivial,
      (Config.streaming_sound _).codec.plain _ trivial, .null,
      (Config.logging_sound _).codec.plain _ trivial,
      (Config.observability_sound _).codec.plain _ trivial, fun _ hm => absurd hm List.not_mem_nil⟩
  have hedit : c.Edited (· == "rtp") (fun _ _ => false) j :=
    ⟨_, _, rfl, rfl, .kept rfl (Record.trimmed_refl _) (.gone rfl
      (.kept rfl (Record.trimmed_refl _) (.kept rfl (Record.trimmed_refl _)
        (.unknown (by decide) rfl (.kept rfl (Record.trimmed_refl _)
          (.kept rfl (Record.trimmed_refl _) .nil))))))⟩
  obtain ⟨hread, -, htext, -, -, hstatus, -⟩ := forms_faithful
  refine ⟨hread c _ _ j hedit j.text (htext j hplain), hstatus s ⟨?_, ?_, ?_⟩⟩
  · intro code hcode
    cases hcode
    decide
  · exact ⟨by decide, .inl (by decide)⟩
  · intro t ht
    cases ht
    exact ⟨by decide, .inr (by decide)⟩

end RtpBroker
