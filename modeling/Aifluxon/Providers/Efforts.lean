import Aifluxon.Auth.Tokens
import Aifluxon.Providers.Bodies
import Aifluxon.Providers.Families

/-!
# Models and their reasoning efforts

What a model takes, by its name: `strategy.rs` and the model tables of `openai/mod.rs`, `gemini/mod.rs`,
`deepseek/mod.rs`, `qwen/mod.rs`, `kimi/mod.rs` and `codex/mod.rs`.

* `modelIsFamily`, `ModelApiCapabilities`, `ApiFamily.capabilities` : the interfaces of a model;
* `effectiveApiMode` : the interface that a request goes to (`effectiveApiMode_supported`);
* `OpenAi.supportedReasoningEfforts`, `Gemini.supportedReasoningEfforts` : the efforts that a model knows;
* `normalizeEffort` : the effort that stands for the one that is asked for.
-/

namespace Aifluxon

/-! ## Names of models -/

def asciiLowercase (text : String) : String := String.ofList (text.toList.map Char.toLower)

/-- `model.trim().to_ascii_lowercase()`. -/
def normalizedModel (model : String) : String := asciiLowercase (trim model)

/-- The name of the family, or what follows it begins with a hyphen. -/
def modelIsFamily (model family : String) : Bool :=
  model = family ||
    (startsWith family model && (model.toList.drop family.toList.length).head? = some '-')

def modelIsOneOf (model : String) (families : List String) : Bool := families.any (modelIsFamily model)

/-! ## Interfaces -/

structure ModelApiCapabilities where
  supportsChatCompletions : Bool
  supportsResponses : Bool
  deriving DecidableEq

namespace ModelApiCapabilities

def chatOnly : ModelApiCapabilities := ⟨true, false⟩

def chatAndResponses : ModelApiCapabilities := ⟨true, true⟩

def responsesOnly : ModelApiCapabilities := ⟨false, true⟩

/-- Whether a model has an interface. -/
def supports (capabilities : ModelApiCapabilities) : OpenAiApiMode → Bool
  | .chatCompletions => capabilities.supportsChatCompletions
  | .responses => capabilities.supportsResponses

end ModelApiCapabilities

namespace OpenAi

def modelRequiresResponses (model : String) : Bool :=
  let model := normalizedModel model
  model = "codex-mini-latest" || (startsWith "gpt-5" model &&
    (textContains model "-codex" || modelIsOneOf model ["gpt-5-pro", "gpt-5.2-pro", "gpt-5.4-pro", "gpt-5.5-pro"]))

def capabilities (model : String) : ModelApiCapabilities :=
  if modelRequiresResponses model then .responsesOnly else .chatAndResponses

end OpenAi

namespace Qwen

def capabilities (model : String) : ModelApiCapabilities :=
  if modelIsOneOf (normalizedModel model) ["qwen3.7-max", "qwen3-max", "qwen3.7-plus", "qwen3.6-plus", "qwen3.5-plus",
    "qwen3.6-flash", "qwen3.5-flash", "qwen3.6-35b-a3b", "qwen3.5-397b-a17b", "qwen3.5-122b-a10b", "qwen3.5-27b",
    "qwen3.5-35b-a3b", "qwen-plus", "qwen-flash", "qwen3-coder-plus", "qwen3-coder-flash", "qwen3.5-ocr",
    "qwen-plus-character", "qwen-flash-character"]
  then .chatAndResponses else .chatOnly

inductive ThinkingSupport where
  | unsupported
  | hybrid
  | always
  deriving DecidableEq

def thinkingSupport (model : String) : ThinkingSupport :=
  let model := normalizedModel model
  if textContains model "-thinking" || startsWith "qwq" model then .always
  else if textContains model "-instruct" || modelIsOneOf model ["qwen3-coder-next", "qwen3-coder-plus"] then .unsupported
  else if startsWith "qwen3" model || modelIsOneOf model ["qwen-plus", "qwen-flash", "qwen-turbo"] then .hybrid
  else .unsupported

end Qwen

/-- The capabilities that `effective_api_mode` asks for; a family that has none keeps the mode of its configuration. -/
def ApiFamily.capabilities (family : ApiFamily) (model : String) : Option ModelApiCapabilities :=
  match family with
  | .openAi => some (OpenAi.capabilities model)
  | .deepSeek => some .chatAndResponses
  | .qwen => some (Qwen.capabilities model)
  | .gemini => some .chatOnly
  | .codex => some .responsesOnly
  | .kimi | .custom => none

/-- `effective_api_mode`. -/
def effectiveApiMode (family : ApiFamily) (apiMode : OpenAiApiMode) (model : String) : OpenAiApiMode :=
  match family.capabilities model with
  | none => apiMode
  | some capabilities => match apiMode with
    | .responses =>
      if capabilities.supportsResponses then .responses
      else if capabilities.supportsChatCompletions then .chatCompletions
      else .responses
    | .chatCompletions => if ¬ capabilities.supportsChatCompletions then .responses else .chatCompletions

theorem OpenAi.capabilities_any (model : String) : OpenAi.capabilities model = .responsesOnly ∨
    OpenAi.capabilities model = .chatAndResponses := ite_eq_or_eq _ _ _

theorem Qwen.capabilities_any (model : String) : Qwen.capabilities model = .chatAndResponses ∨
    Qwen.capabilities model = .chatOnly := ite_eq_or_eq _ _ _

/-- A model that is known has an interface. -/
theorem capabilities_supports {family : ApiFamily} {model : String} {capabilities : ModelApiCapabilities}
    (h : family.capabilities model = some capabilities) :
    capabilities.supports .chatCompletions = true ∨ capabilities.supports .responses = true := by
  cases family with
  | openAi =>
    obtain rfl := Option.some.inj h
    obtain h | h := OpenAi.capabilities_any model
    · rw [h]
      exact .inr rfl
    · rw [h]
      exact .inl rfl
  | qwen =>
    obtain rfl := Option.some.inj h
    obtain h | h := Qwen.capabilities_any model
    · rw [h]
      exact .inl rfl
    · rw [h]
      exact .inl rfl
  | deepSeek | gemini =>
    obtain rfl := Option.some.inj h
    exact .inl rfl
  | codex =>
    obtain rfl := Option.some.inj h
    exact .inr rfl
  | kimi | custom => cases h

/-- A request goes to an interface that its model has, and to the one that was asked for if it has that. -/
theorem effectiveApiMode_supported {family : ApiFamily} {apiMode : OpenAiApiMode} {model : String}
    {capabilities : ModelApiCapabilities} (h : family.capabilities model = some capabilities) :
    capabilities.supports (effectiveApiMode family apiMode model) = true ∧
      (capabilities.supports apiMode = true → effectiveApiMode family apiMode model = apiMode) := by
  have hone := capabilities_supports h
  unfold effectiveApiMode
  rw [h]
  obtain ⟨chat, responses⟩ := capabilities
  unfold ModelApiCapabilities.supports at *
  cases apiMode <;> cases chat <;> cases responses <;> simp at hone ⊢

/-! ## Efforts -/

/-- The efforts that a request may ask for. -/
def reasoningEfforts : List String := ["none", "minimal", "low", "medium", "high", "xhigh", "max"]

def effortFallbacks (requested : String) : List String :=
  match requested with
  | "none" => ["minimal", "low", "medium", "high", "xhigh", "max"]
  | "minimal" => ["low", "none", "medium", "high", "xhigh", "max"]
  | "low" => ["minimal", "none", "medium", "high", "xhigh", "max"]
  | "medium" => ["low", "high", "minimal", "none", "xhigh", "max"]
  | "high" => ["medium", "xhigh", "max", "low", "minimal", "none"]
  | "xhigh" => ["max", "high", "medium", "low", "minimal", "none"]
  | "max" => ["xhigh", "high", "medium", "low", "minimal", "none"]
  | _ => []

/-- `normalize_effort`; `default` : no effort is sent. -/
def normalizeEffort (supported : List String) (requested : String) : String :=
  if requested = "" ∨ requested = "default" then "default"
  else if requested ∈ supported then requested
  else ((effortFallbacks requested).find? fun candidate => candidate ∈ supported).getD "default"

namespace OpenAi

def supportedReasoningEfforts (model : String) : List String :=
  let model := normalizedModel model
  if modelIsFamily model "gpt-5.6" then ["none", "low", "medium", "high", "xhigh", "max"]
  else if modelIsOneOf model ["gpt-5.5-pro", "gpt-5.4-pro", "gpt-5.2-pro"] then ["medium", "high", "xhigh"]
  else if modelIsOneOf model ["gpt-5.3-codex", "gpt-5.2-codex", "gpt-5.1-codex"] then ["low", "medium", "high", "xhigh"]
  else if modelIsOneOf model ["gpt-5.5", "gpt-5.4", "gpt-5.2"] then ["none", "low", "medium", "high", "xhigh"]
  else if modelIsFamily model "gpt-5.1" then ["none", "low", "medium", "high"]
  else if model = "gpt-5-pro" || modelIsOneOf model ["o1-pro", "o3-pro"] then ["high"]
  else if modelIsFamily model "gpt-5" then ["minimal", "low", "medium", "high"]
  else if modelIsOneOf model ["o1", "o3", "o4"] then ["low", "medium", "high"]
  else []

end OpenAi

namespace Gemini

def supportedReasoningEfforts (model : String) : List String :=
  let model := normalizedModel model
  if modelIsOneOf model ["gemini-3.8", "gemini-3.7", "gemini-4"] then ["low", "medium", "high"]
  else if modelIsOneOf model ["gemini-3.5", "gemini-3.6"] then ["minimal", "low", "medium", "high"]
  else if modelIsFamily model "gemini-3.1-pro" then ["low", "medium", "high"]
  else if modelIsOneOf model ["gemini-3-flash", "gemini-3.1-flash-lite"] then ["minimal", "low", "medium", "high"]
  else if modelIsFamily model "gemini-2.5-pro" then ["low", "medium", "high"]
  else if modelIsFamily model "gemini-2.5" then ["none", "low", "medium", "high"]
  else if modelIsFamily model "gemini-3-pro" then ["low", "high"]
  else []

end Gemini

namespace DeepSeek

def supportsLowReasoningEffort (model : String) : Bool :=
  modelIsOneOf (normalizedModel model) ["deepseek-flash", "deepseek-v4-flash"]

def supportsThinkingToggle (model : String) : Bool :=
  modelIsFamily (normalizedModel model) "deepseek-flash" || startsWith "deepseek-v4" (normalizedModel model)

def normalizeReasoningEffort (model requested : String) : String :=
  if requested = "low" ∧ ¬ supportsLowReasoningEffort model then "high" else requested

def defaultMaxOutputTokens (model : String) : Option Nat :=
  if startsWith "deepseek-v4" (normalizedModel model) || normalizedModel model = "deepseek-flash" then some 256000 else none

end DeepSeek

end Aifluxon
