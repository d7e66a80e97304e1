import Aifluxon.Providers.CachePasses
import Aifluxon.Providers.Efforts
import Aifluxon.Providers.NextTurn
import Aifluxon.Providers.ToolPairs
import Aifluxon.Runtime.Objects

/-!
# What a family adds to a body

`decorate_turn_body` of `decorate.rs`, with the functions of the families that it calls.

* `OpenAiCompatibleConfig` : the configuration of a provider, and its defaults;
* `OpenAi.applyChatReasoning` and its siblings : the reasoning that a body asks for;
* `replayReasoning`, `withHostedSearch`, `applyHostedTools`, `applyToolFlags` : the messages and the tools;
* `decorateChat`, `decorateResponses`, `decorateTurnBody` : all that a family sets.
-/

namespace Aifluxon

open Value

/-! ## Configuration -/

def ApiFamily.fromProviderId (id : String) : ApiFamily :=
  match normalizedModel id with
  | "openai" => .openAi
  | "deepseek" => .deepSeek
  | "qwen" => .qwen
  | "kimi" => .kimi
  | "gemini" => .gemini
  | "codex" => .codex
  | _ => .custom

/-- `supportsRefresh` : of the source of its credentials. -/
structure OpenAiCompatibleConfig where
  providerId : ProviderId
  baseUrl : String
  apiMode : OpenAiApiMode
  allowCumulativeDelta : Bool
  family : ApiFamily
  retryWithoutToolsOnToolModeError : Bool
  sendToolChoiceAuto : Bool
  parallelToolCalls : Bool
  includeStreamUsage : Bool
  chatgptAccountId : Option String
  supportsRefresh : Bool
  deriving DecidableEq

namespace OpenAiCompatibleConfig

def withCredential (providerId : ProviderId) (baseUrl : String) (supportsRefresh : Bool) (apiMode : OpenAiApiMode)
    (allowCumulativeDelta : Bool) : OpenAiCompatibleConfig :=
  let family := ApiFamily.fromProviderId providerId.id
  { providerId, baseUrl, apiMode, allowCumulativeDelta, family, supportsRefresh
    retryWithoutToolsOnToolModeError := false
    sendToolChoiceAuto := family ≠ .deepSeek
    parallelToolCalls := family ≠ .deepSeek && family ≠ .gemini
    includeStreamUsage := true
    chatgptAccountId := none }

/-- A key does not refresh. -/
def new (providerId : ProviderId) (baseUrl : String) (apiMode : OpenAiApiMode) (allowCumulativeDelta : Bool) :
    OpenAiCompatibleConfig := withCredential providerId baseUrl false apiMode allowCumulativeDelta

/-- What a turn of a model reads of it. -/
def forModel (config : OpenAiCompatibleConfig) (model : String) : ProviderConfig where
  family := config.family
  mode := effectiveApiMode config.family config.apiMode model
  allowCumulativeDelta := config.allowCumulativeDelta
  retryWithoutToolsOnToolModeError := config.retryWithoutToolsOnToolModeError
  supportsRefresh := config.supportsRefresh

end OpenAiCompatibleConfig

/-! ## Reasoning -/

/-- An option that is not blank, trimmed. -/
def requestedText (text : Option String) : Option String := (text.map trim).filter fun value => value ≠ ""

namespace OpenAi

def normalizeReasoningEffort (model requested : String) : String :=
  normalizeEffort (supportedReasoningEfforts model) requested

def applyChatReasoning (model : String) (requested : Option String) (body : Value) : Value :=
  match requestedText requested with
  | none => body
  | some requested =>
    let effort := normalizeReasoningEffort model requested
    if effort = "default" then body else body.setField "reasoning_effort" (.string effort)

def applyResponsesReasoning (model : String) (requested : Option String) (includeSummary : Bool) (body : Value) :
    Value :=
  let summary (body : Value) := body.setInner "reasoning" "summary" (.string "auto")
  match requestedText requested with
  | none => if includeSummary then summary body else body
  | some requested =>
    let effort := normalizeReasoningEffort model requested
    if effort ≠ "default" then
      let body := body.setInner "reasoning" "effort" (.string effort)
      if includeSummary ∧ effort ≠ "none" then summary body else body
    else if includeSummary then summary body
    else body

end OpenAi

namespace Gemini

def normalizeReasoningEffort (model requested : String) : String :=
  normalizeEffort (supportedReasoningEfforts model) requested

/-- The tokens that a Gemini 2.5 model may think with. -/
def thinkingBudget (effort : String) : Int :=
  match effort with
  | "none" => 0
  | "low" | "minimal" => 1024
  | "medium" => 8192
  | _ => 24576

/-- The control of an effort. -/
def thinkingConfig (model effort : String) : Value :=
  let thinking := Value.object [("include_thoughts", .bool true)]
  if effort = "default" then thinking
  else if startsWith "gemini-2.5" (normalizedModel model) then
    thinking.setField "thinking_budget" (.number (.int (thinkingBudget effort)))
  else thinking.setField "thinking_level" (.string effort)

def applyChatReasoning (model : String) (requested : Option String) (body : Value) : Value :=
  if supportedReasoningEfforts model = [] then body
  else
    let effort := normalizeReasoningEffort model (trim (requested.getD "default"))
    let body := body.removeField "reasoning_effort"
    let google := ((body.get "extra_body").getD .null).get "google"
    body.setField "extra_body" (((body.get "extra_body").getD .null).setField "google"
      ((google.getD .null).setField "thinking_config" (thinkingConfig model effort)))

end Gemini

namespace DeepSeek

def applyChatThinking (thinkingEnabled : Bool) (effort : String) (body : Value) : Value :=
  let body := body.setField "thinking"
    (.object [("type", .string (if thinkingEnabled then "enabled" else "disabled"))])
  if thinkingEnabled then body.setField "reasoning_effort" (.string effort) else body

def applyResponsesReasoning (thinkingEnabled : Bool) (effort : String) (body : Value) : Value :=
  body.setField "reasoning" (.object [("effort", .string (if thinkingEnabled then effort else "none"))])

end DeepSeek

/-- `str::parse::<u32>`. -/
def parseU32 (text : String) : Option Nat :=
  let digits := match text.toList with
    | '+' :: digits => digits
    | digits => digits
  if digits = [] ∨ ¬ digits.all Char.isDigit then none
  else
    let n := digits.foldl (fun n c => n * 10 + (c.toNat - '0'.toNat)) 0
    if n ≤ u32Max then some n else none

namespace Qwen

def applyChatThinking (model mode budget : String) (body : Value) : Value :=
  let support := thinkingSupport model
  if support = .unsupported then body
  else
    let body := if support = .hybrid then match trim mode with
        | "enabled" => body.setField "enable_thinking" (.bool true)
        | "disabled" => body.setField "enable_thinking" (.bool false)
        | _ => body
      else body
    match parseU32 (trim budget) with
    | none => body
    | some value =>
      if (support = .always ∨ trim mode = "enabled") ∧ 0 < value then
        body.setField "thinking_budget" (.number (.int value))
      else body

def applyResponsesReasoning (mode : String) (body : Value) : Value :=
  match mode with
  | "disabled" => body.setField "reasoning" (.object [("effort", .string "none")])
  | "enabled" => body.setField "reasoning" (.object [("effort", .string "medium")])
  | _ => body

end Qwen

namespace Kimi

def applyChatThinking (model : String) (body : Value) : Value :=
  let model := normalizedModel model
  if startsWith "kimi-k2.6" model then
    body.setField "thinking" (.object [("keep", .string "all"), ("type", .string "enabled")])
  else if startsWith "kimi-k2.5" model then body.setField "thinking" (.object [("type", .string "enabled")])
  else body

def applyChatLimits (maxCompletionTokens : Nat) (body : Value) : Value :=
  body.setField "max_completion_tokens" (.number (.int maxCompletionTokens))

end Kimi

namespace Codex

def applyResponsesContract (reasoningEffort : String) (body : Value) : Value :=
  let body := body.setField "include" (.array [.string "reasoning.encrypted_content"])
  let body := body.setInner "reasoning" "summary" (.string (if reasoningEffort = "none" then "none" else "auto"))
  body.setInner "text" "verbosity" (.string "medium")

end Codex

def thinkingEnabled (features : ProviderFeatureRequest) : Bool :=
  ¬ features.thinkingMode.getD "disabled" ∈ ["disabled", "none", "off"]

/-- The effort that a DeepSeek request asks for. -/
def deepSeekEffort (request : ModelTurnRequest) : String :=
  DeepSeek.normalizeReasoningEffort request.model (request.features.reasoningEffort.getD "high")

/-! ## Messages -/

/-- The reasoning of a turn that goes back with its message; only Kimi trims it. -/
def replayedReasoning (deepseek : Bool) (message : Message) : Option String :=
  if message.role ≠ .assistant ∨ (deepseek ∧ message.toolCalls = []) then none
  else (((message.stateField "reasoning_content").bind Value.asStr).map fun value =>
    if deepseek then value else trim value).filter fun value => trim value ≠ ""

/-- `replay_assistant_reasoning_content`, of the messages. -/
def replayReasoning (deepseek : Bool) : List Value → List Message → List Value
  | wire :: wires, original :: originals =>
    (match replayedReasoning deepseek original with
    | some reasoning => wire.setField "reasoning_content" (.string reasoning)
    | none => wire) :: replayReasoning deepseek wires originals
  | wires, _ => wires

/-- `body.get_mut("messages").and_then(Value::as_array_mut)`, with what is done to the messages. -/
def modifyMessages (f : List Value → List Value) : Value → Value
  | .object entries => .object (modifyEntry "messages" (fun
    | .array messages => .array (f messages)
    | messages => messages) entries)
  | body => body

/-! ## Tools -/

def imageGenerationInstruction : String :=
  "When the user asks to generate or edit a raster image, use the native image_generation tool. Do not substitute SVG, HTML, placeholder files, or an unsupported-capability claim. The application will save and display the returned image."

def hostedWebSearchTool (family : ApiFamily) : Value :=
  if family = .qwen ∨ family = .deepSeek then .object [("type", .string "web_search")]
  else .object [("external_web_access", .bool true), ("type", .string "web_search")]

def hostedImageTool (family : ApiFamily) : Value :=
  if family = .codex then .object [("type", .string "image_generation")]
  else .object [("output_format", .string "png"), ("type", .string "image_generation")]

/-- A body's tools. -/
def bodyTools (body : Value) : List Value := ((body.get "tools").bind Value.asArray).getD []

def hasToolType (type : String) (tools : List Value) : Bool := tools.any fun tool => tool.getStr "type" = some type

/-- A DeepSeek tool of the host with the name of the hosted search. -/
def explicitDeepseekSearch (family : ApiFamily) (tools : List Value) : Bool :=
  family = .deepSeek && tools.any fun tool =>
    tool.getStr "type" = some "function" && tool.getStr "name" = some "web_search"

/-- The tools with the search that the provider hosts. -/
def withHostedSearch (config : OpenAiCompatibleConfig) (features : ProviderFeatureRequest) (tools : List Value) :
    List Value :=
  if features.webSearch ∧ ¬ explicitDeepseekSearch config.family tools ∧
      config.family ∈ [ApiFamily.openAi, .codex, .deepSeek] ∧ ¬ hasToolType "web_search" tools then
    tools ++ [hostedWebSearchTool config.family]
  else tools

/-- The instructions with the one for images. -/
def imageInstructions (body : Value) : String :=
  let instructions := (body.getStr "instructions").getD ""
  if instructions = "" then imageGenerationInstruction else instructions ++ "\n\n" ++ imageGenerationInstruction

def applyHostedTools (config : OpenAiCompatibleConfig) (request : ModelTurnRequest) (body : Value) : Value :=
  let tools := withHostedSearch config request.features (bodyTools body)
  let images : Bool := request.features.imageGeneration ∧ ¬ hasToolType "image_generation" tools
  let body := if images then body.setField "instructions" (.string (imageInstructions body)) else body
  let tools := if images then tools ++ [hostedImageTool config.family] else tools
  if tools = [] then body else body.setField "tools" (.array tools)

def applyToolFlags (config : OpenAiCompatibleConfig) (body : Value) : Value :=
  if (body.get "tools").bind Value.asArray = none then body
  else
    let body := if config.sendToolChoiceAuto then body.setField "tool_choice" (.string "auto")
      else body.removeField "tool_choice"
    if config.parallelToolCalls ∧ config.family ≠ .kimi then body.setField "parallel_tool_calls" (.bool true)
    else body.removeField "parallel_tool_calls"

/-! ## Bodies -/

def setLimit (key : String) (limit : Option Nat) (body : Value) : Value :=
  match limit with
  | some limit => body.setField key (.number (.int limit))
  | none => body

/-- What a family adds to a body of Chat Completions. -/
def decorateChatFamily (config : OpenAiCompatibleConfig) (request : ModelTurnRequest) (body : Value) : Value :=
  match config.family with
  | .openAi | .custom => OpenAi.applyChatReasoning request.model request.features.reasoningEffort body
  | .gemini => Gemini.applyChatReasoning request.model request.features.reasoningEffort body
  | .deepSeek =>
    let body := setLimit "max_tokens" (DeepSeek.defaultMaxOutputTokens request.model) body
    let body := if DeepSeek.supportsThinkingToggle request.model then
        DeepSeek.applyChatThinking (thinkingEnabled request.features) (deepSeekEffort request) body
      else body
    modifyMessages (fun messages => replayReasoning true messages request.messages) body
  | .qwen =>
    let body := Qwen.applyChatThinking request.model (request.features.thinkingMode.getD "disabled")
      (request.features.thinkingBudget.getD "") body
    if request.features.explicitCache then modifyMessages cachePasses body else body
  | .kimi =>
    let body := Kimi.applyChatLimits 32768 (Kimi.applyChatThinking request.model body)
    modifyMessages (fun messages => replayReasoning false messages request.messages) body
  | .codex => body

def decorateChat (config : OpenAiCompatibleConfig) (request : ModelTurnRequest) (body : Value) : Value :=
  let body := if config.includeStreamUsage then body else body.removeField "stream_options"
  applyToolFlags config (decorateChatFamily config request body)

/-- Whether an OpenAI or a custom model is asked for summaries of its reasoning. -/
def includeSummary (config : OpenAiCompatibleConfig) (request : ModelTurnRequest) : Bool :=
  let effort := request.features.reasoningEffort
  (effort ≠ some "none" && (config.family = .openAi || effort.isSome)) &&
    (OpenAi.supportedReasoningEfforts request.model ≠ [] || (config.family = .custom && effort.isSome))

/-- What a family adds to a body of Responses. -/
def decorateResponsesFamily (config : OpenAiCompatibleConfig) (request : ModelTurnRequest) (body : Value) : Value :=
  match config.family with
  | .openAi | .custom =>
    OpenAi.applyResponsesReasoning request.model request.features.reasoningEffort (includeSummary config request) body
  | .qwen => Qwen.applyResponsesReasoning (request.features.thinkingMode.getD "disabled") body
  | .deepSeek => DeepSeek.applyResponsesReasoning (thinkingEnabled request.features) (deepSeekEffort request) body
  | .codex =>
    let effort := request.features.reasoningEffort.getD "default"
    Codex.applyResponsesContract effort (OpenAi.applyResponsesReasoning request.model (some effort) false body)
  | .kimi | .gemini => body

def decorateResponses (config : OpenAiCompatibleConfig) (request : ModelTurnRequest) (body : Value) : Value :=
  let body := if config.family = .deepSeek then
      setLimit "max_output_tokens" (DeepSeek.defaultMaxOutputTokens request.model) body
    else body
  let body := if config.family ≠ .deepSeek then body.setField "store" (.bool false) else body.removeField "store"
  applyToolFlags config (applyHostedTools config request (decorateResponsesFamily config request body))

def setCacheKey (features : ProviderFeatureRequest) (body : Value) : Value :=
  match requestedText features.promptCacheKey with
  | some key => body.setField "prompt_cache_key" (.string key)
  | none => body

def decorateTurnBody (config : OpenAiCompatibleConfig) (mode : OpenAiApiMode) (request : ModelTurnRequest)
    (body : Value) : Value :=
  setCacheKey request.features (match mode with
    | .chatCompletions => decorateChat config request body
    | .responses => decorateResponses config request body)

/-- The body that `next_turn_once` builds and decorates. -/
def turnBody (codec : WireCodec) (config : OpenAiCompatibleConfig) (request : ModelTurnRequest) : Value :=
  let mode := effectiveApiMode config.family config.apiMode request.model
  decorateTurnBody config mode request (match mode with
    | .chatCompletions => buildChatCompletionsBody codec request
    | .responses => buildResponsesBody codec request)

end Aifluxon
