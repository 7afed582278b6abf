import Mathlib
import SpotWire.Config.Reader
import SpotWire.Proofs.Config.Overlay

/-!
# Settings that are loaded

Settings that are loaded from a text are those that the text holds, and they keep all rules. Of
settings that break rules the first broken one is told, in a fixed order of the rules.
-/

namespace SpotWire.Config

open Json Wire

variable {config settings : Config} {failure : Failure} {text : List Char}

/-! ### Rules -/

/-- The address of a stream begins with the scheme of one. -/
def HasStreamScheme (url : String) : Prop :=
  "ws://".toList <+: url.toList ∨ "wss://".toList <+: url.toList

instance : DecidablePred HasStreamScheme :=
  fun _ => inferInstanceAs (Decidable (_ ∨ _))

theorem isStreamUrl_eq (url : String) : isStreamUrl url = decide (HasStreamScheme url) := by
  apply Bool.eq_iff_iff.mpr
  rw [decide_eq_true_iff, isStreamUrl, Bool.or_eq_true, List.isPrefixOf_iff_prefix,
    List.isPrefixOf_iff_prefix]
  exact or_comm

/-- What settings have to be, and what is said of those that are not so. -/
structure Rule where
  isKept : Config → Bool
  message : Config → String

/-- All rules, in the order in which they are checked. -/
def rules : List Rule :=
  [⟨fun config => config.rateLimit ≠ 0 ∧ config.privateRateLimit ≠ 0,
      fun _ => "rate limits must be positive"⟩,
    ⟨fun config => config.symbolSuffix ≠ "", fun _ => "symbol suffix must not be empty"⟩,
    ⟨fun config => HasStreamScheme config.publicStreamUrl,
      fun config => "not a websocket url: " ++ config.publicStreamUrl⟩,
    ⟨fun config => HasStreamScheme config.privateStreamUrl,
      fun config => "not a websocket url: " ++ config.privateStreamUrl⟩]

/-- A rule that settings break while they keep all rules before it. -/
def BreaksFirst (config : Config) (rule : Rule) : Prop :=
  ∃ before after, rules = before ++ rule :: after ∧ rule.isKept config = false ∧
    ∀ earlier ∈ before, earlier.isKept config = true

def firstBroken? (config : Config) : Option Rule :=
  rules.find? fun rule => !rule.isKept config

theorem firstBroken?_eq_none_iff :
    config.firstBroken? = none ↔
      config.rateLimit ≠ 0 ∧ config.privateRateLimit ≠ 0 ∧ config.symbolSuffix ≠ "" ∧
        HasStreamScheme config.publicStreamUrl ∧ HasStreamScheme config.privateStreamUrl := by
  rw [firstBroken?, List.find?_eq_none]
  simp [rules, and_assoc]

theorem firstBroken?_eq_some_iff {rule : Rule} :
    config.firstBroken? = some rule ↔ config.BreaksFirst rule := by
  rw [firstBroken?, List.find?_eq_some_iff_append]
  constructor
  · rintro ⟨hbroken, before, after, hrules, hkept⟩
    exact ⟨before, after, hrules, by simpa using hbroken, by simpa using hkept⟩
  · rintro ⟨before, after, hrules, hbroken, hkept⟩
    exact ⟨by simpa using hbroken, before, after, hrules, by simpa using hkept⟩

@[simp]
theorem ofConfig_rateLimit :
    Failure.ofConfig .rateLimit = .invalidConfig "rate limits must be positive" :=
  rfl

@[simp]
theorem ofConfig_symbolSuffix :
    Failure.ofConfig .symbolSuffix = .invalidConfig "symbol suffix must not be empty" :=
  rfl

@[simp]
theorem ofConfig_streamUrl (url : String) :
    Failure.ofConfig (.streamUrl url) = .invalidConfig ("not a websocket url: " ++ url) :=
  rfl

/-- Settings are checked rule by rule. -/
theorem mapError_validate (config : Config) :
    config.validate.mapError Failure.ofConfig =
      match config.firstBroken? with
      | none => .ok config
      | some rule => .error (Failure.invalidConfig (rule.message config)) := by
  unfold validate fault? firstBroken? rules
  by_cases hrate : config.rateLimit = 0
  · simp [hrate, Except.mapError]
  by_cases hprivateRate : config.privateRateLimit = 0
  · simp [hprivateRate, Except.mapError]
  by_cases hsuffix : config.symbolSuffix = ""
  · simp [hrate, hprivateRate, hsuffix, Except.mapError]
  by_cases hpublic : HasStreamScheme config.publicStreamUrl
  · by_cases hprivate : HasStreamScheme config.privateStreamUrl
    · simp [hrate, hprivateRate, hsuffix, isStreamUrl_eq, hpublic, hprivate, Except.mapError]
    · simp [hrate, hprivateRate, hsuffix, isStreamUrl_eq, hpublic, hprivate, Except.mapError]
  · simp [hrate, hprivateRate, hsuffix, isStreamUrl_eq, hpublic, Except.mapError]

/-! ### Texts -/

/-- The settings that a text holds, whatever rules they break. -/
def decodeYaml? (text : List Char) : Option Config :=
  (Yaml.Document.ofChars? text).bind ofDocument?

section Texts

variable (h : decodeYaml? text = some settings)

include h

theorem ofYaml_of_decoded : ofYaml text = settings.validate.mapError .ofConfig := by
  unfold decodeYaml? at h
  rw [ofYaml, h]

theorem ofYaml_eq_ok_iff {loaded : Config} :
    ofYaml text = .ok loaded ↔ settings.firstBroken? = none ∧ loaded = settings := by
  rw [ofYaml_of_decoded h, mapError_validate]
  cases settings.firstBroken? with
  | none => simp [eq_comm]
  | some rule => simp

theorem ofYaml_eq_error_iff :
    ofYaml text = .error failure ↔
      ∃ rule, settings.BreaksFirst rule ∧ failure = .invalidConfig (rule.message settings) := by
  simp only [ofYaml_of_decoded h, mapError_validate, ← firstBroken?_eq_some_iff]
  cases settings.firstBroken? with
  | none => simp
  | some rule => simp [eq_comm]

end Texts

theorem ofYaml_eq_unreadable_iff :
    ofYaml text = .error .unreadableConfig ↔ decodeYaml? text = none := by
  cases h : decodeYaml? text with
  | none =>
      unfold decodeYaml? at h
      rw [ofYaml, h]
      exact iff_of_true rfl rfl
  | some settings =>
      rw [ofYaml_eq_error_iff h]
      refine iff_of_false ?_ nofun
      rintro ⟨rule, -, hfailure⟩
      cases hfailure

/-! ### Partial and loaded settings -/

/-- **Loading.** An object with members of settings left out, with the others in any order and with
members of unknown keys is read as these settings with defaults for what is left out. Settings are
loaded as their text holds them, exactly if they keep all rules; else the first broken rule is
told. A text that holds no settings is unreadable. -/
theorem settings_overlay_defaults_and_keep_rules :
    (∀ config dropped droppedLimits node, IsPart config dropped droppedLimits node →
      (∀ text, Document.ofChars text.toList = ⟨node, false⟩ →
        ofText decode text = .ok (config.without dropped droppedLimits)) ∧
      ∀ value, Node.ofValue value = node →
        ofHeld decode value = .ok (config.without dropped droppedLimits)) ∧
      (∀ text settings, decodeYaml? text = some settings →
        (ofYaml text = .ok settings ↔
          settings.rateLimit ≠ 0 ∧ settings.privateRateLimit ≠ 0 ∧ settings.symbolSuffix ≠ "" ∧
            HasStreamScheme settings.publicStreamUrl ∧
            HasStreamScheme settings.privateStreamUrl) ∧
        (∀ loaded, ofYaml text = .ok loaded → loaded = settings) ∧
        ∀ failure, ofYaml text = .error failure ↔
          ∃ rule, settings.BreaksFirst rule ∧
            failure = .invalidConfig (rule.message settings)) ∧
      ∀ text, ofYaml text = .error .unreadableConfig ↔ decodeYaml? text = none := by
  refine ⟨?_, ?_, fun text => ofYaml_eq_unreadable_iff⟩
  · intro config dropped droppedLimits node hpart
    constructor
    · intro text hdocument
      have hdecode := decode_of_isPart (Reading.admits_ofDocument (by decide)) hpart
      rw [ofText, hdocument]
      exact ofDocument_eq_ok_iff.mpr ⟨hdecode, rfl⟩
    · rintro value rfl
      exact decode_of_isPart (Reading.admits_ofHeld 2) hpart
  · intro text settings hsettings
    refine ⟨?_, ?_, ?_⟩
    · rw [ofYaml_eq_ok_iff hsettings, firstBroken?_eq_none_iff]
      exact and_iff_left rfl
    · intro loaded hloaded
      exact ((ofYaml_eq_ok_iff hsettings).mp hloaded).2
    · exact fun failure => ofYaml_eq_error_iff hsettings

/-- Settings with few requests and connections, and of which all else is to be left out. -/
def scarce : Config where
  spotUrl := ""
  contractUrl := ""
  publicStreamUrl := "https://ws-spot.weex.com"
  privateStreamUrl := ""
  rateLimit := 5
  privateRateLimit := 0
  symbolSuffix := ""
  limits := ⟨10, 0, 0, 0⟩

def scarceText : String :=
  "\x7b\"connection_limits\":\x7b\"region\":null,\"max_connections_per_ip\":10\x7d," ++
    "\"comment\":\"few\",\"rate_limit\":5\x7d"

def scarceYaml : List Char :=
  "rate_limit: 5\nconnection_limits:\n  max_connections_per_ip: 10".toList

def scarceLimits : Node :=
  .object (membersOf [("region", .null), ("max_connections_per_ip", .ofValue (.ofWord 10))])
    .closed

/-- What is left of the settings, with the limits first and a member of another key. -/
def scarceNode : Node :=
  .object (membersOf
    [("connection_limits", scarceLimits), ("comment", .string (.ok "few")),
      ("rate_limit", .ofValue (.ofWord 5))]) .closed

def scarceDropped : List String :=
  ["spot_api_url", "contract_api_url", "websocket_public_url", "websocket_private_url",
    "private_rate_limit", "supported_symbols_suffix"]

def scarceDroppedLimits : List String :=
  ["max_subscriptions_per_connection", "operations_per_hour", "connection_requests_per_5min"]

theorem isPart_scarceLimits : scarce.limits.IsPart scarceDroppedLimits scarceLimits := by
  refine ⟨_, rfl, [("region", .null)], ?_, ?_⟩
  · simp [fieldsOf, ConnectionLimits.toValue, Node.passedFault?]
  · have hkept : (fieldsOf scarce.limits.toValue).filter
          (fun member => member.1 ∉ scarceDroppedLimits) =
        [("max_connections_per_ip", .ofValue (.ofWord 10))] := by
      simp [fieldsOf, ConnectionLimits.toValue, scarceDroppedLimits, scarce]
    rw [hkept]
    exact List.Perm.swap _ _ []

theorem isPart_scarceNode : scarce.IsPart scarceDropped scarceDroppedLimits scarceNode := by
  refine ⟨_, _, rfl, isPart_scarceLimits, [("comment", .string (.ok "few"))], ?_, ?_⟩
  · simp [fieldsWith_eq, Node.passedFault?]
  · have hkept : (scarce.fieldsWith scarceLimits).filter (fun member => member.1 ∉ scarceDropped) =
        [("rate_limit", .ofValue (.ofWord 5)), ("connection_limits", scarceLimits)] := by
      simp [fieldsWith_eq, scarceDropped, scarce]
    rw [hkept]
    exact @List.perm_append_comm _ [_, _] [_]

def scarceLoaded : Config :=
  { standard with rateLimit := 5, limits := { standard.limits with connectionsPerIp := 10 } }

/-- What is left out has its default, and settings in a text are loaded if they keep the rules. -/
theorem settings_of_scarce :
    ofText decode scarceText = .ok scarceLoaded ∧
      ofYaml scarceYaml = .ok scarceLoaded ∧
      ofYaml "websocket_private_url: https://ws".toList =
        .error (.invalidConfig "not a websocket url: https://ws") ∧
      ofYaml "rate_limit: -1".toList = .error .unreadableConfig := by
  have hdocument : Document.ofChars scarceText.toList = ⟨scarceNode, false⟩ := by cbv
  have hscarce : decodeYaml? scarceYaml = some scarceLoaded := by cbv
  have hplain : decodeYaml? "websocket_private_url: https://ws".toList =
      some { standard with privateStreamUrl := "https://ws" } := by cbv
  have hnegative : decodeYaml? "rate_limit: -1".toList = none := by cbv
  obtain ⟨hoverlay, hloaded, hunreadable⟩ := settings_overlay_defaults_and_keep_rules
  obtain ⟨hread, -⟩ := hoverlay scarce scarceDropped scarceDroppedLimits scarceNode
    isPart_scarceNode
  refine ⟨hread scarceText hdocument, ?_, ?_, ?_⟩
  · exact (hloaded _ _ hscarce).1.mpr (by decide)
  · refine ((hloaded _ _ hplain).2.2 _).mpr ⟨_, ⟨rules.take 3, [], rfl, ?_, ?_⟩, rfl⟩
    · decide
    · decide
  · exact (hunreadable _).mpr hnegative

end SpotWire.Config
