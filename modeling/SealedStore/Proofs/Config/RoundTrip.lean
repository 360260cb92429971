import SealedStore.Config.Document
import SealedStore.Proofs.Config.Overlay
import SealedStore.Proofs.Duration
import SealedStore.Proofs.Toml.Document

/-! # Configurations read back

A configuration that was read, from a file or from an environment alone, can be saved, and what was
saved is read as the same configuration (`saved_reads_back`).  Three things meet here.  The document
of a configuration is plain, so it reads back as a document (`parse?_render`) and, entry by entry,
as the configuration (`ofValue?_sections`).  This needs durations that a text can say, and every
duration that came from a text, or is a default, is such a one (`ServerSettings.Fits`).  The
environment is laid over what is read once more, where it finds its own values (`overlay_again`).
-/
namespace SealedStore

/-- Every duration of a server has a text that is read. -/
structure ServerSettings.Fits (s : ServerSettings) : Prop where
  connectionTimeout : s.connectionTimeout.Fits
  responseTimeout : s.responseTimeout.Fits
  valueTtl : s.valueTtl.Fits

namespace Config

open Toml (Value)

variable {env : Environment} {c d : Config} {v : Value}

/-! ## The document of a configuration -/

theorem plain_sections (c : Config) : Toml.Plain c.sections where
  names := by
    simp only [sections, List.forall_mem_cons]
    decide
  distinct := by
    simp only [sections, List.map_cons, List.map_nil]
    decide
  settingNames := by
    simp only [sections, List.forall_mem_cons]
    decide
  settingsDistinct := by
    simp only [sections, List.forall_mem_cons, List.map_cons, List.map_nil]
    decide

theorem readTexts_strings (items : List String) :
    readTexts (.array (items.map .string)) = some items := by
  change (items.map Value.string).mapM Value.text? = some items
  induction items with
  | nil => rfl
  | cons s items ih => simp [ih, Value.text?]

theorem readSpan_text {x : Duration} (hx : x.Fits) : readSpan (.string x.text) = some x := by
  simp [readSpan, Value.text?, Duration.read_text hx, Except.toOption]

theorem readEngine_settings (e : EngineSettings) :
    readEngine
      (.table [("backend", .string e.backend.name), ("transport", .string e.transport.name),
        ("signing_keys", .array (e.signingKeys.map .string)),
        ("enable_outbox", .boolean e.enableOutbox)]) =
      some e := by
  simp [readEngine, Value.fields?, Value.entry?, readOr, readKind, Value.choice?, Value.flag?,
    readTexts_strings]

theorem readServer_settings {s : ServerSettings} (h : s.Fits) :
    readServer (.table [("store_url", .string s.storeUrl), ("pubsub_url", .string s.pubsubUrl),
      ("connection_timeout", .string s.connectionTimeout.text),
      ("response_timeout", .string s.responseTimeout.text),
      ("value_ttl", .string s.valueTtl.text)]) = some s := by
  simp [readServer, Value.fields?, Value.entry?, readOr, Value.text?,
    readSpan_text h.connectionTimeout, readSpan_text h.responseTimeout, readSpan_text h.valueTtl]

theorem readLogging_settings (l : LogOptions) :
    readLogging (.table [("level", .string l.level), ("json_format", .boolean l.jsonFormat),
      ("with_target", .boolean l.withTarget)]) = some l := by
  simp [readLogging, Value.fields?, Value.entry?, readOr, Value.text?, Value.flag?]

theorem readOnly_entry {α : Type} (read : Value → Option α) (default : α)
    (name : String) (v : Value) :
    readOnly name read default (.table [(name, v)]) = read v := by
  simp [readOnly, Value.fields?, Value.entry?, readOr]

/-- **The document of a configuration describes it.** -/
theorem ofValue?_sections (h : c.server.Fits) : ofValue? (Toml.ofSections c.sections) = some c := by
  have hengine := readEngine_settings c.engine
  have hserver := readServer_settings h
  have hlogging := readLogging_settings c.logging
  simp [ofValue?, Toml.ofSections, sections, Toml.Setting.toValue, Value.fields?,
    Value.entry?, readOr, hengine, hserver, hlogging, readOnly_entry, Value.text?, Value.flag?]

theorem parse_render (h : c.server.Fits) : parse c.render = .ok c := by
  rw [parse, render, Toml.parse?_render (plain_sections c), Option.bind_some, ofValue?_sections h]

/-! ## Durations that are read -/

theorem readSpan_fits {x : Duration} (h : readSpan v = some x) : x.Fits := by
  obtain ⟨s, -, hs⟩ := Option.bind_eq_some_iff.mp h
  cases hread : Duration.read s with
  | error e =>
    rw [hread] at hs
    cases hs
  | ok y =>
    rw [hread] at hs
    cases hs
    exact Duration.read_fits s _ hread

theorem readOr_span_fits {x y : Duration} {field : Option Value} (hy : y.Fits)
    (h : readOr readSpan y field = some x) : x.Fits := by
  cases field with
  | none =>
    cases h
    exact hy
  | some v => exact readSpan_fits h

theorem default_fits : default.server.Fits where
  connectionTimeout := by decide
  responseTimeout := by decide
  valueTtl := by decide

theorem readServer_fits {s : ServerSettings} (h : readServer v = some s) : s.Fits := by
  obtain ⟨fields, -, h⟩ := Option.bind_eq_some_iff.mp h
  split at h
  · obtain ⟨store, -, h⟩ := Option.bind_eq_some_iff.mp h
    obtain ⟨pubsub, -, h⟩ := Option.bind_eq_some_iff.mp h
    obtain ⟨connection, hconnection, h⟩ := Option.bind_eq_some_iff.mp h
    obtain ⟨response, hresponse, h⟩ := Option.bind_eq_some_iff.mp h
    obtain ⟨ttl, httl, h⟩ := Option.bind_eq_some_iff.mp h
    cases h
    exact ⟨readOr_span_fits default_fits.connectionTimeout hconnection,
      readOr_span_fits default_fits.responseTimeout hresponse,
      readOr_span_fits default_fits.valueTtl httl⟩
  · cases h

theorem ofValue?_fits (h : ofValue? v = some c) : c.server.Fits := by
  obtain ⟨fields, -, h⟩ := Option.bind_eq_some_iff.mp h
  split at h
  · next engine server database logging metrics =>
    obtain ⟨_, -, h⟩ := Option.bind_eq_some_iff.mp h
    obtain ⟨s, hserver, h⟩ := Option.bind_eq_some_iff.mp h
    obtain ⟨_, -, h⟩ := Option.bind_eq_some_iff.mp h
    obtain ⟨_, -, h⟩ := Option.bind_eq_some_iff.mp h
    obtain ⟨_, -, h⟩ := Option.bind_eq_some_iff.mp h
    cases h
    cases server with
    | none =>
      cases hserver
      exact default_fits
    | some v => exact readServer_fits hserver
  · cases h

theorem parse_fits {s : String} (h : parse s = .ok c) : c.server.Fits := by
  unfold parse at h
  split at h
  · next d hd =>
    cases h
    obtain ⟨v, -, hv⟩ := Option.bind_eq_some_iff.mp hd
    exact ofValue?_fits hv
  · cases h

/-- The field of a duration variable behind an overlay. -/
theorem settled_fits {x y : Duration} {label : String} {value : Option String} (hx : x.Fits)
    (h : match value with
      | none => y = x
      | some s => Variable.readDuration label s = .ok y) : y.Fits := by
  cases value with
  | none => exact h ▸ hx
  | some s =>
    dsimp only [Variable.readDuration] at h
    cases hread : Duration.read s with
    | error e =>
      rw [hread] at h
      cases h
    | ok z =>
      rw [hread] at h
      cases h
      exact Duration.read_fits s _ hread

theorem overlay_fits (hc : c.server.Fits) (h : c.overlay env = (.ok (), d)) : d.server.Fits where
  connectionTimeout := settled_fits hc.connectionTimeout (overlay_ok_iff.mp h .connectionTimeout)
  responseTimeout := settled_fits hc.responseTimeout (overlay_ok_iff.mp h .responseTimeout)
  valueTtl := settled_fits hc.valueTtl (overlay_ok_iff.mp h .valueTtl)

/-! ## Saving and loading -/

/-- A configuration is complete when the environment is laid over it and what
comes of it is valid. -/
theorem complete_eq_ok : complete env c = .ok d ↔ c.overlay env = (.ok (), d) ∧
    d.validate = .ok () := by
  unfold complete
  obtain ⟨outcome, f⟩ := c.overlay env
  cases outcome with
  | error e => simp [Bind.bind, Except.bind]
  | ok u =>
    cases hvalid : f.validate with
    | error e =>
      constructor
      · simp [Bind.bind, Except.bind, hvalid]
      · rintro ⟨heq, hd⟩
        cases heq
        rw [hvalid] at hd
        cases hd
    | ok w =>
      constructor
      · intro h
        simp only [Bind.bind, Except.bind, hvalid, pure, Except.pure, Except.ok.injEq] at h
        exact h ▸ ⟨rfl, hvalid⟩
      · rintro ⟨heq, -⟩
        cases heq
        simp [Bind.bind, Except.bind, hvalid, pure, Except.pure]

/-- A complete configuration is complete under the same environment, and under
one without variables. -/
theorem complete_again (h : complete env c = .ok d) :
    complete env d = .ok d ∧ complete (fun _ => none) d = .ok d := by
  obtain ⟨hoverlay, hvalid⟩ := complete_eq_ok.mp h
  exact ⟨complete_eq_ok.mpr ⟨overlay_again hoverlay, hvalid⟩,
    complete_eq_ok.mpr ⟨overlay_nothing d, hvalid⟩⟩

/-- What is loaded of a file is complete over what the text of the file says. -/
theorem ofFile_eq_ok {file : File} :
    ofFile file env = .ok c ↔
      ∃ s start, readText file = .ok s ∧ parse s = .ok start ∧ complete env start = .ok c := by
  constructor
  · intro h
    unfold ofFile at h
    cases htext : readText file with
    | error e =>
      rw [htext] at h
      cases h
    | ok s =>
      rw [htext] at h
      change (parse s).bind _ = _ at h
      cases hparse : parse s with
      | error e =>
        rw [hparse] at h
        cases h
      | ok start =>
        rw [hparse] at h
        exact ⟨s, start, rfl, hparse, h⟩
  · rintro ⟨s, start, htext, hparse, hcomplete⟩
    rw [ofFile, htext]
    change (parse s).bind _ = _
    rw [hparse]
    exact hcomplete

/-- What is loaded is complete over a configuration whose durations have texts. -/
theorem exists_start (h : ofEnvironment env = .ok c ∨ ∃ file, ofFile file env = .ok c) :
    ∃ start, start.server.Fits ∧ complete env start = .ok c := by
  rcases h with h | ⟨file, h⟩
  · exact ⟨default, default_fits, h⟩
  · obtain ⟨s, start, -, hparse, hcomplete⟩ := ofFile_eq_ok.mp h
    exact ⟨start, parse_fits hparse, hcomplete⟩

/-- A file in which a configuration was saved is loaded as this configuration
wherever it is complete. -/
theorem ofFile_render (hfits : c.server.Fits) (h : complete env c = .ok c) :
    ofFile (some (Bytes.ofText c.render)) env = .ok c := by
  have htext : readText (some (Bytes.ofText c.render)) = .ok c.render := by
    rw [readText, Bytes.toText?_ofText]
  exact ofFile_eq_ok.mpr ⟨_, c, htext, parse_render hfits, h⟩

/-- **A configuration that was read can be saved and read again.**  Under the environment under
which it was read, and under none, what was saved is read as the same configuration. -/
theorem saved_reads_back (h : ofEnvironment env = .ok c ∨ ∃ file, ofFile file env = .ok c) :
    ∃ b, c.save true = .ok b ∧ ofFile (some b) env = .ok c ∧
      ofFile (some b) (fun _ => none) = .ok c := by
  obtain ⟨start, hstart, hcomplete⟩ := exists_start h
  have hfits : c.server.Fits := overlay_fits hstart (complete_eq_ok.mp hcomplete).1
  obtain ⟨hagain, hnothing⟩ := complete_again hcomplete
  exact ⟨Bytes.ofText c.render, rfl, ofFile_render hfits hagain, ofFile_render hfits hnothing⟩

/-- A path with both quotes, a line end and a bell in it, and an expiry of odd parts. -/
theorem saved_reads_back_quoted :
    let env : Environment := fun name =>
      if name = "CONFSTORE_SLED_PATH" then some "a\"b'c\n\x07"
      else if name = "CONFSTORE_REDIS_VALUE_TTL" then some "1year 2months 3s 4ns" else none
    let c : Config := { default with
      server := { default.server with valueTtl := ⟨36817635000000004⟩ }
      databasePath := "a\"b'c\n\x07" }
    ofEnvironment env = .ok c ∧ ∃ b, c.save true = .ok b ∧ ofFile (some b) env = .ok c ∧
      ofFile (some b) (fun _ => none) = .ok c := by
  intro env c
  have hoverlay : default.overlay env = (.ok (), c) := rfl
  have hvalid : c.validate = .ok () := by
    dsimp only [c]
    rfl
  have h : ofEnvironment env = .ok c := complete_eq_ok.mpr ⟨hoverlay, hvalid⟩
  exact ⟨h, saved_reads_back (.inl h)⟩

end Config
end SealedStore
