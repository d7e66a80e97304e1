import Aifluxon.Providers.Decorate
import Aifluxon.Providers.SessionBodies

/-!
# Bodies that a family has decorated

What `decorate_turn_body` leaves of the bodies that are built, for every family and both interfaces.

* `Sets` : the fields that two bodies differ in; the fields of each family (`decorateChatFamily_sets`);
* `MessageKept`, `decorated_messages` : what becomes of the messages of a body of Chat Completions;
* `hostedTools`, `applyHostedTools_kept` : what becomes of the tools of a body of Responses;
* `ChatKept`, `ResponsesKept` : all of it (`decorated_bodies`);
* `sent_bodies_paired` : calls and outputs stay where they are.
-/

namespace Aifluxon

open Value

/-! ## The fields that are set -/

/-- `body'` is an object that differs from `body` in these fields only. -/
structure Sets (fields : List String) (body body' : Value) : Prop where
  object : body'.isObject = true
  kept : ∀ key ∉ fields, body'.get key = body.get key

section Sets
variable {fields : List String} {body body' : Value}

theorem Sets.refl (h : body.isObject = true) (fields : List String) : Sets fields body body := ⟨h, fun _ _ => rfl⟩

theorem Sets.trans {body'' : Value} (h : Sets fields body body') (h' : Sets fields body' body'') :
    Sets fields body body'' := ⟨h'.object, fun key hkey => (h'.kept key hkey).trans (h.kept key hkey)⟩

theorem Sets.mono {fields' : List String} (h : Sets fields body body') (hfields : fields ⊆ fields') :
    Sets fields' body body' := ⟨h.object, fun key hkey => h.kept key fun hmem => hkey (hfields hmem)⟩

theorem Sets.field (h : Sets fields body body') {key : String} (hkey : key ∈ fields) (value : Value) :
    Sets fields body (body'.setField key value) := by
  refine ⟨isObject_setField h.object, fun k hk => (get_setField_ne ?_ _ _).trans (h.kept k hk)⟩
  rintro rfl
  exact hk hkey

theorem Sets.inner (h : Sets fields body body') {outer : String} (houter : outer ∈ fields) (key : String)
    (value : Value) : Sets fields body (body'.setInner outer key value) := h.field houter _

theorem Sets.removed (h : Sets fields body body') {key : String} (hkey : key ∈ fields) :
    Sets fields body (body'.removeField key) := by
  refine ⟨isObject_removeField h.object, fun k hk => ?_⟩
  rw [get_removeField, if_neg, h.kept k hk]
  rintro rfl
  exact hk hkey

theorem Sets.limit (h : Sets fields body body') {key : String} (hkey : key ∈ fields) (limit : Option Nat) :
    Sets fields body (setLimit key limit body') := by
  cases limit with
  | none => exact h
  | some limit => exact h.field hkey _

theorem Sets.messages (h : Sets fields body body') (hfields : "messages" ∈ fields) (f : List Value → List Value) :
    Sets fields body (modifyMessages f body') := by
  cases body' with
  | object entries =>
    refine ⟨rfl, fun key hkey => (lookup_modifyEntry_ne ?_).trans (h.kept key hkey)⟩
    rintro rfl
    exact hkey hfields
  | _ => cases h.object

theorem Sets.summary (h : Sets fields body body') (hfields : "reasoning" ∈ fields) (model : String)
    (requested : Option String) (includeSummary : Bool) :
    Sets fields body (OpenAi.applyResponsesReasoning model requested includeSummary body') := by
  unfold OpenAi.applyResponsesReasoning
  dsimp only
  split
  · split
    · exact h.inner hfields _ _
    · exact h
  · split
    · split
      · exact (h.inner hfields _ _).inner hfields _ _
      · exact h.inner hfields _ _
    · split
      · exact h.inner hfields _ _
      · exact h

end Sets

/-- The fields that a family sets in a body of Chat Completions. -/
def ApiFamily.chatFields : ApiFamily → List String
  | .openAi | .custom => ["reasoning_effort"]
  | .gemini => ["reasoning_effort", "extra_body"]
  | .deepSeek => ["max_tokens", "thinking", "reasoning_effort", "messages"]
  | .qwen => ["enable_thinking", "thinking_budget", "messages"]
  | .kimi => ["thinking", "max_completion_tokens", "messages"]
  | .codex => []

/-- And in a body of Responses. -/
def ApiFamily.responsesFields : ApiFamily → List String
  | .openAi | .custom | .qwen | .deepSeek => ["reasoning"]
  | .codex => ["reasoning", "include", "text"]
  | .kimi | .gemini => []

section
variable {body : Value} (config : OpenAiCompatibleConfig) (request : ModelTurnRequest)

theorem Qwen.applyChatThinking_sets (h : body.isObject = true) (model mode budget : String) :
    Sets ["enable_thinking", "thinking_budget"] body (Qwen.applyChatThinking model mode budget body) := by
  have hrefl := Sets.refl h ["enable_thinking", "thinking_budget"]
  have hset (enabled : Bool) : Sets ["enable_thinking", "thinking_budget"] body
      (body.setField "enable_thinking" (.bool enabled)) := hrefl.field (by decide) _
  have hbudget {inner : Value} (hinner : Sets ["enable_thinking", "thinking_budget"] body inner) (value : Nat) :
      Sets ["enable_thinking", "thinking_budget"] body (inner.setField "thinking_budget" (.number (.int value))) :=
    hinner.field (by decide) _
  unfold Qwen.applyChatThinking
  dsimp only
  split
  · exact hrefl
  · split
    on_goal 2 => split
    on_goal 2 => apply hbudget
    all_goals
      split
      · split
        · exact hset true
        · exact hset false
        · exact hrefl
      · exact hrefl

/-- What a DeepSeek body gets beside the reasoning of its messages. -/
def DeepSeek.limitAndThink (request : ModelTurnRequest) (body : Value) : Value :=
  let body := setLimit "max_tokens" (DeepSeek.defaultMaxOutputTokens request.model) body
  if DeepSeek.supportsThinkingToggle request.model then
    DeepSeek.applyChatThinking (thinkingEnabled request.features) (deepSeekEffort request) body
  else body

theorem DeepSeek.applyChatThinking_sets (h : body.isObject = true) (enabled : Bool) (effort : String) :
    Sets ["thinking", "reasoning_effort"] body (DeepSeek.applyChatThinking enabled effort body) := by
  unfold DeepSeek.applyChatThinking
  dsimp only
  split
  · exact ((Sets.refl h _).field (by decide) _).field (by decide) _
  · exact (Sets.refl h _).field (by decide) _

/-- Beside the limit it sets how the model thinks. -/
theorem DeepSeek.limitAndThink_limited (h : body.isObject = true) : Sets ["thinking", "reasoning_effort"]
    (setLimit "max_tokens" (DeepSeek.defaultMaxOutputTokens request.model) body) (DeepSeek.limitAndThink request body) := by
  have hlimit : Sets ["max_tokens"] body (setLimit "max_tokens" (DeepSeek.defaultMaxOutputTokens request.model) body) :=
    (Sets.refl h _).limit (by decide) _
  unfold DeepSeek.limitAndThink
  dsimp only
  split
  · exact DeepSeek.applyChatThinking_sets hlimit.object _ _
  · exact .refl hlimit.object _

theorem DeepSeek.limitAndThink_sets (h : body.isObject = true) :
    Sets ["max_tokens", "thinking", "reasoning_effort"] body (DeepSeek.limitAndThink request body) := by
  have hlimit : Sets ["max_tokens"] body (setLimit "max_tokens" (DeepSeek.defaultMaxOutputTokens request.model) body) :=
    (Sets.refl h _).limit (by decide) _
  exact (hlimit.mono (by decide)).trans ((DeepSeek.limitAndThink_limited request h).mono (by decide))

theorem Kimi.applyChatThinking_sets (h : body.isObject = true) (model : String) :
    Sets ["thinking"] body (Kimi.applyChatThinking model body) := by
  unfold Kimi.applyChatThinking
  dsimp only
  split
  · exact (Sets.refl h _).field (by decide) _
  · split
    · exact (Sets.refl h _).field (by decide) _
    · exact .refl h _

theorem Kimi.applyChat_sets (h : body.isObject = true) (model : String) (limit : Nat) :
    Sets ["thinking", "max_completion_tokens"] body
      (Kimi.applyChatLimits limit (Kimi.applyChatThinking model body)) :=
  ((Kimi.applyChatThinking_sets h model).mono (by decide)).field (by decide) _

theorem OpenAi.applyChatReasoning_sets (h : body.isObject = true) (model : String) (requested : Option String) :
    Sets ["reasoning_effort"] body (OpenAi.applyChatReasoning model requested body) := by
  unfold OpenAi.applyChatReasoning
  dsimp only
  split
  · exact .refl h _
  · split
    · exact .refl h _
    · exact (Sets.refl h _).field (by decide) _

theorem Gemini.applyChatReasoning_sets (h : body.isObject = true) (model : String) (requested : Option String) :
    Sets ["reasoning_effort", "extra_body"] body (Gemini.applyChatReasoning model requested body) := by
  unfold Gemini.applyChatReasoning
  dsimp only
  split
  · exact .refl h _
  · exact ((Sets.refl h _).removed (by decide)).field (by decide) _

/-- What a family does to the messages of a body. -/
def decoratedMessages (messages : List Value) : List Value :=
  match config.family with
  | .deepSeek => replayReasoning true messages request.messages
  | .kimi => replayReasoning false messages request.messages
  | .qwen => if request.features.explicitCache then cachePasses messages else messages
  | .openAi | .custom | .gemini | .codex => messages

theorem get_modifyMessages (f : List Value → List Value) (messages : List Value)
    (h : body.get "messages" = some (.array messages)) :
    (modifyMessages f body).get "messages" = some (.array (f messages)) := by
  cases body with
  | object entries =>
    have hlookup : entries.lookup "messages" = some (.array messages) := h
    show (modifyEntry "messages" _ entries).lookup "messages" = _
    rw [lookup_modifyEntry_self, hlookup]
    rfl
  | _ => cases h

/-- **What a family does to a body of Chat Completions**: it sets its fields, and decorates the messages. -/
theorem decorateChatFamily_sets (h : body.isObject = true) {messages : List Value}
    (hmessages : body.get "messages" = some (.array messages)) :
    Sets config.family.chatFields body (decorateChatFamily config request body) ∧
      (decorateChatFamily config request body).get "messages" =
        some (.array (decoratedMessages config request messages)) := by
  unfold decorateChatFamily decoratedMessages
  cases config.family with
  | openAi | custom =>
    have hsets := OpenAi.applyChatReasoning_sets h request.model request.features.reasoningEffort
    exact ⟨hsets, (hsets.kept _ (by decide)).trans hmessages⟩
  | gemini =>
    have hsets := Gemini.applyChatReasoning_sets h request.model request.features.reasoningEffort
    exact ⟨hsets, (hsets.kept _ (by decide)).trans hmessages⟩
  | deepSeek =>
    have hsets := DeepSeek.limitAndThink_sets request h
    exact ⟨(hsets.mono (by decide)).messages (by decide) _,
      get_modifyMessages _ _ ((hsets.kept _ (by decide)).trans hmessages)⟩
  | qwen =>
    have hsets := Qwen.applyChatThinking_sets h request.model (request.features.thinkingMode.getD "disabled")
      (request.features.thinkingBudget.getD "")
    dsimp only
    split
    · exact ⟨(hsets.mono (by decide)).messages (by decide) _,
        get_modifyMessages _ _ ((hsets.kept _ (by decide)).trans hmessages)⟩
    · exact ⟨hsets.mono (by decide), (hsets.kept _ (by decide)).trans hmessages⟩
  | kimi =>
    have hsets := Kimi.applyChat_sets h request.model 32768
    exact ⟨(hsets.mono (by decide)).messages (by decide) _,
      get_modifyMessages _ _ ((hsets.kept _ (by decide)).trans hmessages)⟩
  | codex => exact ⟨.refl h _, hmessages⟩

/-- **The limits that a family sets**: the one of a DeepSeek model, if there is one, and the one of Kimi. -/
theorem decorateChatFamily_limits (h : body.isObject = true) {messages : List Value}
    (hmessages : body.get "messages" = some (.array messages)) (hmax : body.get "max_tokens" = none)
    (hcompletion : body.get "max_completion_tokens" = none) :
    (decorateChatFamily config request body).get "max_tokens" = (if config.family = .deepSeek then
        (DeepSeek.defaultMaxOutputTokens request.model).map fun limit => .number (.int limit) else none) ∧
      (decorateChatFamily config request body).get "max_completion_tokens" =
        if config.family = .kimi then some (.number (.int 32768)) else none := by
  obtain ⟨hsets, -⟩ := decorateChatFamily_sets config request h hmessages
  unfold decorateChatFamily at hsets ⊢
  cases hfamily : config.family with
  | deepSeek =>
    rw [hfamily] at hsets
    refine ⟨?_, (hsets.kept _ (by decide)).trans hcompletion⟩
    have hlimit : (setLimit "max_tokens" (DeepSeek.defaultMaxOutputTokens request.model) body).get "max_tokens" =
        (DeepSeek.defaultMaxOutputTokens request.model).map fun limit => .number (.int limit) := by
      cases DeepSeek.defaultMaxOutputTokens request.model with
      | none => exact hmax
      | some limit => exact get_setField_self h
    have hthink := ((DeepSeek.limitAndThink_limited request h).mono
      (show _ ⊆ ["thinking", "reasoning_effort", "messages"] by decide)).messages (by decide)
        fun messages => replayReasoning true messages request.messages
    exact (hthink.kept _ (by decide)).trans hlimit
  | kimi =>
    rw [hfamily] at hsets
    refine ⟨(hsets.kept _ (by decide)).trans hmax, ?_⟩
    have hthinking := Kimi.applyChatThinking_sets h request.model
    have hobject : (Kimi.applyChatLimits 32768 (Kimi.applyChatThinking request.model body)).isObject = true :=
      isObject_setField hthinking.object
    have hmodified := (Sets.refl hobject ["messages"]).messages (by decide)
      fun messages => replayReasoning false messages request.messages
    exact (hmodified.kept _ (by decide)).trans (get_setField_self hthinking.object)
  | openAi | custom | gemini | qwen | codex =>
    rw [hfamily] at hsets
    exact ⟨(hsets.kept _ (by decide)).trans hmax, (hsets.kept _ (by decide)).trans hcompletion⟩

/-- The flags of the tools, which are set when there are tools. -/
structure ToolFlags (config : OpenAiCompatibleConfig) (body body' : Value) : Prop where
  sets : Sets ["tool_choice", "parallel_tool_calls"] body body'
  choice : body'.get "tool_choice" = if (body.get "tools").bind Value.asArray = none then body.get "tool_choice"
    else if config.sendToolChoiceAuto then some (.string "auto") else none
  parallel : body'.get "parallel_tool_calls" =
    if (body.get "tools").bind Value.asArray = none then body.get "parallel_tool_calls"
    else if config.parallelToolCalls ∧ config.family ≠ .kimi then some (.bool true) else none

theorem applyToolFlags_flags (h : body.isObject = true) : ToolFlags config body (applyToolFlags config body) := by
  unfold applyToolFlags
  dsimp only
  split
  · rename_i hnone
    exact ⟨.refl h _, (if_pos hnone).symm, (if_pos hnone).symm⟩
  · rename_i hsome
    let chosen := if config.sendToolChoiceAuto then body.setField "tool_choice" (.string "auto")
      else body.removeField "tool_choice"
    have hset : Sets ["tool_choice", "parallel_tool_calls"] body chosen := by
      dsimp only [chosen]
      split
      · exact (Sets.refl h _).field (by decide) _
      · exact (Sets.refl h _).removed (by decide)
    have hchoice : chosen.get "tool_choice" = if config.sendToolChoiceAuto then some (.string "auto") else none := by
      dsimp only [chosen]
      split
      · exact get_setField_self h
      · rw [get_removeField, if_pos rfl]
    split
    · rename_i hparallel
      refine ⟨hset.field (by decide) _, ?_, ?_⟩
      · rw [if_neg hsome]
        exact (get_setField_ne (by decide) _ _).trans hchoice
      · rw [if_neg hsome, if_pos hparallel]
        exact get_setField_self hset.object
    · rename_i hparallel
      refine ⟨hset.removed (by decide), ?_, ?_⟩
      · rw [if_neg hsome, ← hchoice]
        exact (get_removeField _ _ _).trans (if_neg (by decide))
      · rw [if_neg hsome, if_neg hparallel]
        exact (get_removeField _ _ _).trans (if_pos rfl)

end

/-! ## The messages -/

/-- The reasoning that a family gives back with a message. -/
def ApiFamily.replayed (family : ApiFamily) (message : Message) : Option String :=
  match family with
  | .deepSeek => replayedReasoning true message
  | .kimi => replayedReasoning false message
  | .openAi | .custom | .gemini | .qwen | .codex => none

/-- What becomes of a message: its content is cut into other parts at most, and only for the cache of Qwen, and its
reasoning goes back with it. -/
structure MessageKept (config : OpenAiCompatibleConfig) (request : ModelTurnRequest) (message : Message)
    (wire wire' : Value) : Prop where
  text : wireText wire' = wireText wire
  content : ¬ (config.family = .qwen ∧ request.features.explicitCache) → wire'.get "content" = wire.get "content"
  reasoning : wire'.get "reasoning_content" = (config.family.replayed message).map .string
  fields : ∀ key ∉ ["content", "reasoning_content"], wire'.get key = wire.get key

section
variable {codec : WireCodec} {config : OpenAiCompatibleConfig} {request : ModelTurnRequest}

theorem messageToWire_reasoning (message : Message) : (messageToWire codec message).get "reasoning_content" = none := by
  simp [messageToWire, Value.get, lookup_optionalEntry, lookup_optionalEntry_last, List.lookup_cons]

theorem MessageKept.refl {message : Message} (hfamily : config.family.replayed message = none) :
    MessageKept config request message (messageToWire codec message) (messageToWire codec message) where
  text := rfl
  content := fun _ => rfl
  reasoning := by rw [messageToWire_reasoning, hfamily]; rfl
  fields := fun _ _ => rfl

/-- A message with its reasoning. -/
theorem MessageKept.replay {message : Message} {reasoning : String}
    (hfamily : config.family.replayed message = some reasoning) :
    MessageKept config request message (messageToWire codec message)
      ((messageToWire codec message).setField "reasoning_content" (.string reasoning)) := by
  have hne {key : String} (h : key ≠ "reasoning_content") :
      ((messageToWire codec message).setField "reasoning_content" (.string reasoning)).get key =
        (messageToWire codec message).get key := get_setField_ne h _ _
  refine ⟨?_, fun _ => hne (by decide), ?_, fun key hkey => hne ?_⟩
  · unfold wireText
    rw [hne (by decide)]
  · rw [hfamily]
    exact get_setField_self rfl
  · rintro rfl
    exact hkey (by decide)

theorem replayReasoning_kept {deepseek : Bool} {messages : List Message}
    (hfamily : ∀ message, config.family.replayed message = replayedReasoning deepseek message) :
    List.Forall₂ (fun message wire => MessageKept config request message (messageToWire codec message) wire) messages
      (replayReasoning deepseek (messages.map (messageToWire codec)) messages) := by
  induction messages with
  | nil => exact .nil
  | cons message messages ih =>
    refine .cons ?_ ih
    have hmessage := hfamily message
    rcases hreasoning : replayedReasoning deepseek message with _ | reasoning
    · exact .refl (hmessage.trans hreasoning)
    · exact .replay (hmessage.trans hreasoning)

theorem cachePasses_kept {messages : List Message} (hqwen : config.family = .qwen)
    (hcache : request.features.explicitCache = true) :
    List.Forall₂ (fun message wire => MessageKept config request message (messageToWire codec message) wire) messages
      (cachePasses (messages.map (messageToWire codec))) := by
  have hat := getElem?_cachePasses (messages.map (messageToWire codec))
  have hlength := congrArg List.length (map_wireText_cachePasses (messages.map (messageToWire codec)))
  rw [List.length_map, List.length_map, List.length_map] at hlength
  rw [List.forall₂_iff_get]
  refine ⟨hlength.symm, fun i hi hi' => ?_⟩
  have hget := hat i
  rw [List.getElem?_eq_getElem hi', List.getElem?_map, List.getElem?_eq_getElem hi] at hget
  rw [List.get_eq_getElem, List.get_eq_getElem, Option.some.inj hget]
  generalize CacheFlags.of (messages.map (messageToWire codec)) i = flags
  have hne {key : String} (h : key ≠ "content") :
      (withContent flags.content (messageToWire codec messages[i])).get key =
        (messageToWire codec messages[i]).get key := get_withContent_ne h
  refine ⟨wireText_withContent flags.keeps flags.joinTexts_content _, fun h => (h ⟨hqwen, hcache⟩).elim, ?_,
    fun key hkey => hne ?_⟩
  · rw [hne (by decide), messageToWire_reasoning, hqwen]
    rfl
  · rintro rfl
    exact hkey (by decide)

/-- **The messages of a decorated body** are those of the history, in their order. -/
theorem decorated_messages : List.Forall₂
    (fun message wire => MessageKept config request message (messageToWire codec message) wire) request.messages
      (decoratedMessages config request (request.messages.map (messageToWire codec))) := by
  have hsame (hfamily : ∀ message, config.family.replayed message = none) : List.Forall₂
      (fun message wire => MessageKept config request message (messageToWire codec message) wire) request.messages
        (request.messages.map (messageToWire codec)) := by
    rw [List.forall₂_map_right_iff, List.forall₂_same]
    exact fun message _ => .refl (hfamily message)
  unfold decoratedMessages
  split
  · rename_i hfamily
    exact replayReasoning_kept fun message => by rw [hfamily]; rfl
  · rename_i hfamily
    exact replayReasoning_kept fun message => by rw [hfamily]; rfl
  · rename_i hfamily
    split
    · rename_i hcache
      exact cachePasses_kept hfamily hcache
    · exact hsame fun message => by rw [hfamily]; rfl
  all_goals
    rename_i hfamily
    exact hsame fun message => by rw [hfamily]; rfl

end

/-! ## Chat Completions -/

/-- The fields of a body of Chat Completions that every family has. -/
def chatKeys : List String :=
  ["messages", "model", "stream", "stream_options", "tool_choice", "tools", "parallel_tool_calls", "prompt_cache_key"]

/-- A body of Chat Completions, after its family has decorated it. -/
structure ChatKept (codec : WireCodec) (config : OpenAiCompatibleConfig) (request : ModelTurnRequest) (body : Value) :
    Prop where
  model : body.get "model" = some (.string request.model)
  stream : body.get "stream" = some (.bool true)
  usage : body.get "stream_options" =
    if config.includeStreamUsage then some (.object [("include_usage", .bool true)]) else none
  tools : body.get "tools" =
    if request.tools = [] then none else some (.array (request.tools.map descriptorToOpenaiTool))
  choice : body.get "tool_choice" =
    if request.tools ≠ [] ∧ config.sendToolChoiceAuto then some (.string "auto") else none
  parallel : body.get "parallel_tool_calls" =
    if request.tools ≠ [] ∧ config.parallelToolCalls ∧ config.family ≠ .kimi then some (.bool true) else none
  cacheKey : body.get "prompt_cache_key" = (requestedText request.features.promptCacheKey).map .string
  maxTokens : body.get "max_tokens" = if config.family = .deepSeek then
    (DeepSeek.defaultMaxOutputTokens request.model).map fun limit => .number (.int limit) else none
  maxCompletionTokens : body.get "max_completion_tokens" =
    if config.family = .kimi then some (.number (.int 32768)) else none
  messages : ∃ wires, body.get "messages" = some (.array wires) ∧ List.Forall₂
    (fun message wire => MessageKept config request message (messageToWire codec message) wire) request.messages wires
  others : ∀ key ∉ chatKeys ++ config.family.chatFields, body.get key = none

section
variable {codec : WireCodec} {config : OpenAiCompatibleConfig} {request : ModelTurnRequest}

theorem get_chatBody_choice : (buildChatCompletionsBody codec request).get "tool_choice" =
    if request.tools = [] then none else some (.string "auto") := by
  by_cases htools : request.tools = [] <;>
    simp [buildChatCompletionsBody, toolChoiceEntries, Value.get, List.lookup_cons, htools]

theorem get_chatBody_tools : (buildChatCompletionsBody codec request).get "tools" =
    if request.tools = [] then none else some (.array (request.tools.map descriptorToOpenaiTool)) := by
  by_cases htools : request.tools = [] <;>
    simp [buildChatCompletionsBody, toolChoiceEntries, Value.get, List.lookup_cons, htools]

theorem get_chatBody_other {key : String}
    (hkey : key ∉ ["messages", "model", "stream", "stream_options", "tool_choice", "tools"]) :
    (buildChatCompletionsBody codec request).get key = none := by
  simp only [List.mem_cons, List.not_mem_nil, or_false, not_or] at hkey
  by_cases htools : request.tools = [] <;>
    simp [buildChatCompletionsBody, toolChoiceEntries, Value.get, List.lookup_cons, htools, beq_false_of_ne, hkey]

/-- The key of a cache is the last field that is set. -/
theorem get_setCacheKey (features : ProviderFeatureRequest) {body : Value} (hobject : body.isObject = true)
    (hnone : body.get "prompt_cache_key" = none) : (setCacheKey features body).get "prompt_cache_key" =
        (requestedText features.promptCacheKey).map .string ∧
      ∀ key ≠ "prompt_cache_key", (setCacheKey features body).get key = body.get key := by
  unfold setCacheKey
  cases requestedText features.promptCacheKey with
  | none => exact ⟨hnone, fun _ _ => rfl⟩
  | some text => exact ⟨get_setField_self hobject, fun key hkey => get_setField_ne hkey _ _⟩

/-- The fields that no family sets. -/
theorem chatFields_disjoint {key : String} (hkey : key ∈ chatKeys) (hmessages : key ≠ "messages") (family : ApiFamily) :
    key ∉ family.chatFields := by
  unfold chatKeys at hkey
  cases family <;> simp only [List.mem_cons, List.not_mem_nil, or_false, ApiFamily.chatFields] at hkey ⊢ <;>
    rcases hkey with rfl | rfl | rfl | rfl | rfl | rfl | rfl | rfl <;> first | exact (hmessages rfl).elim | decide

/-- **What a decorated body of Chat Completions says**, for every family: the model, the tools and the conversation of
the request, and nothing that is not of the interface or of the family. -/
theorem decoratedChat_kept (codec : WireCodec) (config : OpenAiCompatibleConfig) (request : ModelTurnRequest) :
    ChatKept codec config request
      (decorateTurnBody config .chatCompletions request (buildChatCompletionsBody codec request)) := by
  let body := buildChatCompletionsBody codec request
  let usageBody := if config.includeStreamUsage then body else body.removeField "stream_options"
  let familyBody := decorateChatFamily config request usageBody
  let flagBody := applyToolFlags config familyBody
  -- the usage
  have husage : Sets ["stream_options"] body usageBody ∧ usageBody.get "stream_options" =
      if config.includeStreamUsage then some (.object [("include_usage", .bool true)]) else none := by
    dsimp only [usageBody]
    split
    · exact ⟨.refl rfl _, rfl⟩
    · exact ⟨(Sets.refl rfl _).removed (by decide), (get_removeField _ _ _).trans (if_pos rfl)⟩
  -- the family
  have hwires : usageBody.get "messages" = some (.array (request.messages.map (messageToWire codec))) :=
    husage.1.kept _ (by decide)
  obtain ⟨hfamily, hmessages⟩ := decorateChatFamily_sets config request husage.1.object hwires
  have hlimits : familyBody.get "max_tokens" = _ ∧ familyBody.get "max_completion_tokens" = _ :=
    decorateChatFamily_limits config request husage.1.object hwires
      ((husage.1.kept _ (by decide)).trans (get_chatBody_other (by decide)))
      ((husage.1.kept _ (by decide)).trans (get_chatBody_other (by decide)))
  -- the flags
  have hflags : ToolFlags config familyBody flagBody := applyToolFlags_flags config hfamily.object
  have hkept {key : String} (hkey : key ∈ chatKeys) (hmessages : key ≠ "messages")
      (husageKey : key ∉ ["stream_options"]) : familyBody.get key = body.get key :=
    (hfamily.kept key (chatFields_disjoint hkey hmessages _)).trans (husage.1.kept key husageKey)
  have htools : familyBody.get "tools" =
      if request.tools = [] then none else some (.array (request.tools.map descriptorToOpenaiTool)) :=
    (hkept (by decide) (by decide) (by decide)).trans get_chatBody_tools
  have harray : (familyBody.get "tools").bind Value.asArray = none ↔ request.tools = [] := by
    rw [htools]
    split
    · exact iff_of_true rfl ‹_›
    · exact iff_of_false (Option.some_ne_none _) ‹_›
  -- the key of the cache
  have hkeyNone : flagBody.get "prompt_cache_key" = none :=
    (hflags.sets.kept _ (by decide)).trans ((hkept (by decide) (by decide) (by decide)).trans
      (get_chatBody_other (by decide)))
  obtain ⟨hcacheKey, hrest⟩ := get_setCacheKey request.features hflags.sets.object hkeyNone
  have hfield {key : String} (hkey : key ≠ "prompt_cache_key") (hflagKey : key ∉ ["tool_choice", "parallel_tool_calls"]) :
      (setCacheKey request.features flagBody).get key = familyBody.get key :=
    (hrest key hkey).trans (hflags.sets.kept key hflagKey)
  show ChatKept codec config request (setCacheKey request.features flagBody)
  refine ⟨?_, ?_, ?_, ?_, ?_, ?_, hcacheKey, (hfield (by decide) (by decide)).trans hlimits.1,
    (hfield (by decide) (by decide)).trans hlimits.2, ⟨_, ?_, decorated_messages⟩, fun key hkey => ?_⟩
  · rw [hfield (by decide) (by decide), hkept (by decide) (by decide) (by decide)]
    rfl
  · rw [hfield (by decide) (by decide), hkept (by decide) (by decide) (by decide)]
    rfl
  · rw [hfield (by decide) (by decide), ← husage.2]
    exact hfamily.kept _ (chatFields_disjoint (by decide) (by decide) _)
  · rw [hfield (by decide) (by decide), htools]
  · rw [hrest _ (by decide), hflags.choice]
    by_cases hnone : request.tools = []
    · rw [if_pos (harray.2 hnone), if_neg fun h => h.1 hnone, hkept (by decide) (by decide) (by decide),
        get_chatBody_choice, if_pos hnone]
    · simp only [if_neg (mt harray.1 hnone), ne_eq, hnone, not_false_eq_true, true_and]
  · rw [hrest _ (by decide), hflags.parallel]
    by_cases hnone : request.tools = []
    · rw [if_pos (harray.2 hnone), if_neg fun h => h.1 hnone, hkept (by decide) (by decide) (by decide)]
      exact get_chatBody_other (by decide)
    · simp only [if_neg (mt harray.1 hnone), ne_eq, hnone, not_false_eq_true, true_and]
  · rw [hfield (by decide) (by decide), hmessages]
  · rw [List.mem_append, not_or] at hkey
    have hne {k : String} (hk : k ∈ chatKeys) : key ≠ k := fun h => hkey.1 (h ▸ hk)
    have hnot (l : List String) (hl : ∀ k ∈ l, k ∈ chatKeys) : key ∉ l := fun h => hkey.1 (hl _ h)
    rw [hfield (hne (by decide)) (hnot _ (by decide)), hfamily.kept _ hkey.2, husage.1.kept _ (hnot _ (by decide))]
    exact get_chatBody_other (hnot _ (by decide))

end

/-! ## Responses -/

/-- The fields of a body of Responses that every family has. -/
def responsesKeys : List String :=
  ["input", "instructions", "model", "store", "stream", "tool_choice", "tools", "parallel_tool_calls",
    "prompt_cache_key", "max_output_tokens"]

/-- Whether the provider searches: the model is asked to, its family can, and the host has no tool for it of its own. -/
def searches (config : OpenAiCompatibleConfig) (request : ModelTurnRequest) : Bool :=
  request.features.webSearch && (config.family = .openAi || config.family = .codex ||
    (config.family = .deepSeek && request.tools.all fun tool => tool.name ≠ "web_search"))

/-- The tools that the provider hosts. -/
def hostedTools (config : OpenAiCompatibleConfig) (request : ModelTurnRequest) : List Value :=
  (if searches config request then [hostedWebSearchTool config.family] else []) ++
    if request.features.imageGeneration then [hostedImageTool config.family] else []

/-- The system messages that a request begins with, as instructions. -/
def requestInstructions (request : ModelTurnRequest) : Option String :=
  let instructions := (leadingInstructions request.messages).1
  if instructions = [] then none else some (String.intercalate "\n\n" instructions)

/-- The instructions with the one for images. -/
def sentInstructions (request : ModelTurnRequest) : Option String :=
  if ¬ request.features.imageGeneration then requestInstructions request
  else match requestInstructions request with
    | none | some "" => some imageGenerationInstruction
    | some instructions => some (instructions ++ "\n\n" ++ imageGenerationInstruction)

/-- A body of Responses, after its family has decorated it. -/
structure ResponsesKept (codec : WireCodec) (config : OpenAiCompatibleConfig) (request : ModelTurnRequest)
    (body : Value) : Prop where
  model : body.get "model" = some (.string request.model)
  stream : body.get "stream" = some (.bool true)
  input : body.get "input" = some (.array (responsesItems codec ∅ (leadingInstructions request.messages).2))
  instructions : body.get "instructions" = (sentInstructions request).map .string
  store : body.get "store" = if config.family = .deepSeek then none else some (.bool false)
  limit : body.get "max_output_tokens" = if config.family = .deepSeek then
    (DeepSeek.defaultMaxOutputTokens request.model).map fun limit => .number (.int limit) else none
  tools : body.get "tools" =
    if request.tools.map responsesTool ++ hostedTools config request = [] then none
    else some (.array (request.tools.map responsesTool ++ hostedTools config request))
  choice : body.get "tool_choice" =
    if request.tools.map responsesTool ++ hostedTools config request ≠ [] ∧ config.sendToolChoiceAuto then
      some (.string "auto") else none
  parallel : body.get "parallel_tool_calls" =
    if request.tools.map responsesTool ++ hostedTools config request ≠ [] ∧ config.parallelToolCalls ∧
      config.family ≠ .kimi then some (.bool true) else none
  cacheKey : body.get "prompt_cache_key" = (requestedText request.features.promptCacheKey).map .string
  others : ∀ key ∉ responsesKeys ++ config.family.responsesFields, body.get key = none

section
variable {codec : WireCodec} {config : OpenAiCompatibleConfig} {request : ModelTurnRequest}

theorem decorateResponsesFamily_sets {body : Value} (h : body.isObject = true) :
    Sets config.family.responsesFields body (decorateResponsesFamily config request body) := by
  unfold decorateResponsesFamily
  cases config.family with
  | openAi | custom => exact (Sets.refl h _).summary (by decide) _ _ _
  | qwen =>
    show Sets _ _ (Qwen.applyResponsesReasoning _ body)
    unfold Qwen.applyResponsesReasoning
    split
    · exact (Sets.refl h _).field (by decide) _
    · exact (Sets.refl h _).field (by decide) _
    · exact .refl h _
  | deepSeek => exact (Sets.refl h _).field (by decide) _
  | codex =>
    exact ((((Sets.refl h _).summary (by decide) _ _ _).field (by decide) _).inner (by decide) _ _).inner (by decide) _ _
  | kimi | gemini => exact .refl h _

/-- The tools of the request that a body of Responses has are functions. -/
theorem hasToolType_request (type : String) (htype : type ≠ "function") (tools : List ToolDescriptor) :
    hasToolType type (tools.map responsesTool) = false := by
  unfold hasToolType
  rw [List.any_map, List.any_eq_false]
  intro tool _
  show ¬ decide (some "function" = some type) = true
  rw [decide_eq_true_iff]
  exact fun h => htype (Option.some.inj h).symm

theorem explicitDeepseekSearch_request (family : ApiFamily) (tools : List ToolDescriptor) :
    explicitDeepseekSearch family (tools.map responsesTool) =
      (family = .deepSeek && tools.any fun tool => tool.name = "web_search") := by
  unfold explicitDeepseekSearch
  rw [List.any_map]
  congr 2
  funext tool
  show (decide (some "function" = some "function") && decide (some tool.name = some "web_search")) = _
  simp

/-- The search is among the tools when it is asked for. -/
theorem withHostedSearch_request : withHostedSearch config request.features (request.tools.map responsesTool) =
    request.tools.map responsesTool ++
      if searches config request then [hostedWebSearchTool config.family] else [] := by
  have hiff : (request.features.webSearch ∧ ¬ explicitDeepseekSearch config.family (request.tools.map responsesTool) ∧
      config.family ∈ [ApiFamily.openAi, .codex, .deepSeek] ∧
        ¬ hasToolType "web_search" (request.tools.map responsesTool)) ↔ searches config request = true := by
    rw [hasToolType_request _ (by decide), explicitDeepseekSearch_request]
    unfold searches
    cases request.features.webSearch <;> cases config.family <;> simp
  unfold withHostedSearch
  rw [if_congr hiff rfl rfl]
  split
  · rfl
  · exact (List.append_nil _).symm

theorem hasToolType_hosted : hasToolType "image_generation"
    (withHostedSearch config request.features (request.tools.map responsesTool)) = false := by
  have hsearch (family : ApiFamily) : hasToolType "image_generation" [hostedWebSearchTool family] = false := by
    cases family <;> decide
  rw [withHostedSearch_request]
  unfold hasToolType at hsearch ⊢
  rw [List.any_append, ← hasToolType, hasToolType_request _ (by decide), Bool.false_or]
  split
  · exact hsearch _
  · rfl

theorem get_responsesBody (codec : WireCodec) (request : ModelTurnRequest) :
    (buildResponsesBody codec request).get "model" = some (.string request.model) ∧
    (buildResponsesBody codec request).get "stream" = some (.bool true) ∧
      (buildResponsesBody codec request).get "input" =
        some (.array (responsesItems codec ∅ (leadingInstructions request.messages).2)) := by
  simp [buildResponsesBody, Value.get, List.lookup_cons, lookup_optionalEntry]

theorem get_responsesBody_tools : (buildResponsesBody codec request).get "tools" =
    if request.tools = [] then none else some (.array (request.tools.map responsesTool)) := by
  by_cases htools : request.tools = [] <;>
    simp [buildResponsesBody, toolChoiceEntries, Value.get, List.lookup_cons, lookup_optionalEntry, htools]

theorem get_responsesBody_choice : (buildResponsesBody codec request).get "tool_choice" =
    if request.tools = [] then none else some (.string "auto") := by
  by_cases htools : request.tools = [] <;>
    simp [buildResponsesBody, toolChoiceEntries, Value.get, List.lookup_cons, lookup_optionalEntry, htools]

theorem get_responsesBody_instructions : (buildResponsesBody codec request).get "instructions" =
    (requestInstructions request).map .string := by
  unfold requestInstructions
  by_cases hnone : (leadingInstructions request.messages).1 = [] <;>
    by_cases htools : request.tools = [] <;>
      simp [buildResponsesBody, toolChoiceEntries, Value.get, List.lookup_cons, lookup_optionalEntry, hnone, htools]

theorem get_responsesBody_other {key : String}
    (hkey : key ∉ ["input", "instructions", "model", "store", "stream", "tool_choice", "tools"]) :
    (buildResponsesBody codec request).get key = none := by
  simp only [List.mem_cons, List.not_mem_nil, or_false, not_or] at hkey
  by_cases htools : request.tools = [] <;>
    simp [buildResponsesBody, toolChoiceEntries, Value.get, List.lookup_cons, lookup_optionalEntry, htools,
      beq_false_of_ne, hkey]

/-- What the hosted tools change of a body that has the tools of the request. -/
theorem applyHostedTools_kept (config : OpenAiCompatibleConfig) {body : Value} (h : body.isObject = true)
    (htools : body.get "tools" = if request.tools = [] then none else some (.array (request.tools.map responsesTool))) :
    Sets ["instructions", "tools"] body (applyHostedTools config request body) ∧
      (applyHostedTools config request body).get "tools" =
        (if request.tools.map responsesTool ++ hostedTools config request = [] then none
        else some (.array (request.tools.map responsesTool ++ hostedTools config request))) ∧
      (applyHostedTools config request body).get "instructions" =
        if request.features.imageGeneration then some (.string (imageInstructions body))
        else body.get "instructions" := by
  have hbody : bodyTools body = request.tools.map responsesTool := by
    unfold bodyTools
    rw [htools]
    split
    · rename_i hnone
      rw [hnone]
      rfl
    · rfl
  let imageBody := if request.features.imageGeneration then
      body.setField "instructions" (.string (imageInstructions body)) else body
  let tools := request.tools.map responsesTool ++ hostedTools config request
  have happly : applyHostedTools config request body =
      if tools = [] then imageBody else imageBody.setField "tools" (.array tools) := by
    unfold applyHostedTools
    dsimp only
    rw [hbody, hasToolType_hosted, withHostedSearch_request]
    dsimp only [tools, imageBody, hostedTools]
    by_cases himages : request.features.imageGeneration = true <;> simp [himages]
  have himage : Sets ["instructions", "tools"] body imageBody ∧ imageBody.get "instructions" =
      if request.features.imageGeneration then some (.string (imageInstructions body))
      else body.get "instructions" := by
    dsimp only [imageBody]
    split
    · exact ⟨(Sets.refl h _).field (by decide) _, get_setField_self h⟩
    · exact ⟨.refl h _, rfl⟩
  have himageTools : imageBody.get "tools" = body.get "tools" := by
    dsimp only [imageBody]
    split
    · exact get_setField_ne (by decide) _ _
    · rfl
  rw [happly]
  by_cases hnone : tools = []
  · have hrequest : request.tools = [] := List.map_eq_nil_iff.1 (List.append_eq_nil_iff.1 hnone).1
    rw [if_pos hnone, if_pos (show request.tools.map responsesTool ++ hostedTools config request = [] from hnone)]
    exact ⟨himage.1, himageTools.trans (htools.trans (if_pos hrequest)), himage.2⟩
  · rw [if_neg hnone, if_neg (show ¬ request.tools.map responsesTool ++ hostedTools config request = [] from hnone)]
    exact ⟨himage.1.field (by decide) _, get_setField_self himage.1.object,
      (get_setField_ne (by decide) _ _).trans himage.2⟩

theorem imageInstructions_request {body : Value}
    (h : body.get "instructions" = (requestInstructions request).map .string) :
    (if request.features.imageGeneration then some (.string (imageInstructions body)) else body.get "instructions") =
      (sentInstructions request).map .string := by
  unfold sentInstructions
  by_cases himages : request.features.imageGeneration = true
  · rw [if_pos himages, if_neg (not_not.2 himages)]
    unfold imageInstructions getStr
    rw [h]
    rcases requestInstructions request with _ | instructions
    · rfl
    · show some (Value.string (if instructions = "" then _ else _)) = _
      split
      · rename_i hempty
        rw [hempty]
        rfl
      · rename_i hnonempty
        split
        · rename_i heq
          cases heq
        · rename_i heq
          exact (hnonempty (Option.some.inj heq)).elim
        · rename_i heq
          cases heq
          rfl
  · rw [if_neg himages, if_pos himages, h]

theorem responsesFields_disjoint {key : String} (hkey : key ∈ responsesKeys) (family : ApiFamily) :
    key ∉ family.responsesFields := by
  unfold responsesKeys at hkey
  cases family <;> simp only [List.mem_cons, List.not_mem_nil, or_false, ApiFamily.responsesFields] at hkey ⊢ <;>
    rcases hkey with rfl | rfl | rfl | rfl | rfl | rfl | rfl | rfl | rfl | rfl <;> decide

end

/-- **What a decorated body of Responses says**, for every family: the model, the conversation and the tools of the
request, the tools that the provider hosts behind them, and the instructions for these behind its own. -/
theorem decoratedResponses_kept (codec : WireCodec) (config : OpenAiCompatibleConfig) (request : ModelTurnRequest) :
    ResponsesKept codec config request
      (decorateTurnBody config .responses request (buildResponsesBody codec request)) := by
  let body := buildResponsesBody codec request
  let limitBody := if config.family = .deepSeek then
      setLimit "max_output_tokens" (DeepSeek.defaultMaxOutputTokens request.model) body
    else body
  let storeBody := if config.family ≠ .deepSeek then limitBody.setField "store" (.bool false)
    else limitBody.removeField "store"
  let familyBody := decorateResponsesFamily config request storeBody
  let hostedBody := applyHostedTools config request familyBody
  let flagBody := applyToolFlags config hostedBody
  -- the limit and the store
  have hlimit : Sets ["max_output_tokens"] body limitBody ∧ limitBody.get "max_output_tokens" =
      if config.family = .deepSeek then
        (DeepSeek.defaultMaxOutputTokens request.model).map fun limit => .number (.int limit) else none := by
    have hnone : body.get "max_output_tokens" = none := get_responsesBody_other (by decide)
    dsimp only [limitBody]
    split
    · refine ⟨(Sets.refl rfl _).limit (by decide) _, ?_⟩
      unfold setLimit
      cases DeepSeek.defaultMaxOutputTokens request.model with
      | none => exact hnone
      | some limit => exact get_setField_self rfl
    · exact ⟨.refl rfl _, hnone⟩
  have hstore : Sets ["store"] limitBody storeBody ∧ storeBody.get "store" =
      if config.family = .deepSeek then none else some (.bool false) := by
    dsimp only [storeBody]
    by_cases hdeepSeek : config.family = .deepSeek
    · rw [if_neg (not_not.2 hdeepSeek), if_pos hdeepSeek]
      exact ⟨(Sets.refl hlimit.1.object _).removed (by decide), (get_removeField _ _ _).trans (if_pos rfl)⟩
    · rw [if_pos hdeepSeek, if_neg hdeepSeek]
      exact ⟨(Sets.refl hlimit.1.object _).field (by decide) _, get_setField_self hlimit.1.object⟩
  -- the family
  have hfamily : Sets config.family.responsesFields storeBody familyBody :=
    decorateResponsesFamily_sets hstore.1.object
  have hbuilt {key : String} (hkey : key ∈ responsesKeys) (hfirst : key ∉ ["max_output_tokens", "store"]) :
      familyBody.get key = body.get key := by
    simp only [List.mem_cons, List.not_mem_nil, or_false, not_or] at hfirst
    rw [hfamily.kept key (responsesFields_disjoint hkey _), hstore.1.kept key (by simpa using hfirst.2),
      hlimit.1.kept key (by simpa using hfirst.1)]
  -- the tools
  have htools : familyBody.get "tools" =
      if request.tools = [] then none else some (.array (request.tools.map responsesTool)) :=
    (hbuilt (by decide) (by decide)).trans get_responsesBody_tools
  obtain ⟨hhosted, hhostedTools, hinstructions⟩ := applyHostedTools_kept config hfamily.object htools
  have hflags : ToolFlags config hostedBody flagBody := applyToolFlags_flags config hhosted.object
  have harray : (hostedBody.get "tools").bind Value.asArray = none ↔
      request.tools.map responsesTool ++ hostedTools config request = [] := by
    rw [hhostedTools]
    split
    · exact iff_of_true rfl ‹_›
    · exact iff_of_false (Option.some_ne_none _) ‹_›
  have hflagged {key : String} (hkey : key ∉ ["tool_choice", "parallel_tool_calls"])
      (hhostedKey : key ∉ ["instructions", "tools"]) : flagBody.get key = familyBody.get key :=
    (hflags.sets.kept key hkey).trans (hhosted.kept key hhostedKey)
  -- the key of the cache
  have hkeyNone : flagBody.get "prompt_cache_key" = none :=
    (hflagged (by decide) (by decide)).trans ((hbuilt (by decide) (by decide)).trans
      (get_responsesBody_other (by decide)))
  obtain ⟨hcacheKey, hrest⟩ := get_setCacheKey request.features hflags.sets.object hkeyNone
  have hkept {key : String} (hkey : key ∈ responsesKeys) (hfirst : key ∉ ["max_output_tokens", "store"])
      (hlast : key ∉ ["tool_choice", "parallel_tool_calls", "instructions", "tools", "prompt_cache_key"]) :
      (setCacheKey request.features flagBody).get key = body.get key := by
    simp only [List.mem_cons, List.not_mem_nil, or_false, not_or] at hlast
    rw [hrest key hlast.2.2.2.2, hflagged (by simpa using ⟨hlast.1, hlast.2.1⟩)
      (by simpa using ⟨hlast.2.2.1, hlast.2.2.2.1⟩), hbuilt hkey hfirst]
  show ResponsesKept codec config request (setCacheKey request.features flagBody)
  have hmodel := hkept (by decide : "model" ∈ responsesKeys) (by decide) (by decide)
  have hstream := hkept (by decide : "stream" ∈ responsesKeys) (by decide) (by decide)
  have hinput := hkept (by decide : "input" ∈ responsesKeys) (by decide) (by decide)
  obtain ⟨hbodyModel, hbodyStream, hbodyInput⟩ := get_responsesBody codec request
  refine ⟨hmodel.trans hbodyModel, hstream.trans hbodyStream, hinput.trans hbodyInput, ?_, ?_, ?_, ?_, ?_, ?_,
    hcacheKey, fun key hkey => ?_⟩
  · rw [hrest _ (by decide), hflags.sets.kept _ (by decide), hinstructions]
    exact imageInstructions_request ((hbuilt (by decide) (by decide)).trans get_responsesBody_instructions)
  · rw [hrest _ (by decide), hflagged (by decide) (by decide), ← hstore.2]
    exact hfamily.kept _ (responsesFields_disjoint (by decide) _)
  · rw [hrest _ (by decide), hflagged (by decide) (by decide), ← hlimit.2]
    exact (hfamily.kept _ (responsesFields_disjoint (by decide) _)).trans (hstore.1.kept _ (by decide))
  · rw [hrest _ (by decide), hflags.sets.kept _ (by decide), hhostedTools]
  · rw [hrest _ (by decide), hflags.choice]
    by_cases hnone : request.tools.map responsesTool ++ hostedTools config request = []
    · have hrequest : request.tools = [] := List.map_eq_nil_iff.1 (List.append_eq_nil_iff.1 hnone).1
      rw [if_pos (harray.2 hnone), if_neg fun h => h.1 hnone, hhosted.kept _ (by decide),
        hbuilt (by decide) (by decide), get_responsesBody_choice, if_pos hrequest]
    · simp only [if_neg (mt harray.1 hnone), ne_eq, hnone, not_false_eq_true, true_and]
  · rw [hrest _ (by decide), hflags.parallel]
    by_cases hnone : request.tools.map responsesTool ++ hostedTools config request = []
    · rw [if_pos (harray.2 hnone), if_neg fun h => h.1 hnone, hhosted.kept _ (by decide),
        hbuilt (by decide) (by decide)]
      exact get_responsesBody_other (by decide)
    · simp only [if_neg (mt harray.1 hnone), ne_eq, hnone, not_false_eq_true, true_and]
  · rw [List.mem_append, not_or] at hkey
    have hne {k : String} (hk : k ∈ responsesKeys) : key ≠ k := fun h => hkey.1 (h ▸ hk)
    have hnot (l : List String) (hl : ∀ k ∈ l, k ∈ responsesKeys) : key ∉ l := fun h => hkey.1 (hl _ h)
    rw [hrest key (hne (by decide)), hflagged (hnot _ (by decide)) (hnot _ (by decide)), hfamily.kept key hkey.2,
      hstore.1.kept key (hnot _ (by decide)), hlimit.1.kept key (hnot _ (by decide))]
    exact get_responsesBody_other (hnot _ (by decide))

section
variable {codec : WireCodec} {config : OpenAiCompatibleConfig} {request : ModelTurnRequest}

theorem MessageKept.marks {message : Message} {wire wire' : Value} (h : MessageKept config request message wire wire') :
    messageMarks wire' = messageMarks wire := by
  unfold messageMarks getStr
  rw [h.fields "role" (by decide), h.fields "tool_call_id" (by decide), h.fields "tool_calls" (by decide)]

/-- The messages keep their calls and outputs. -/
theorem ChatKept.marks {body : Value} (h : ChatKept codec config request body) :
    chatMarks body = request.messages.flatMap fun message => messageMarks (messageToWire codec message) := by
  obtain ⟨wires, hwires, hkept⟩ := h.messages
  unfold chatMarks
  rw [hwires]
  show wires.flatMap messageMarks = _
  clear hwires
  generalize request.messages = messages at hkept
  induction hkept with
  | nil => rfl
  | cons hmessage _ ih => rw [List.flatMap_cons, List.flatMap_cons, hmessage.marks, ih]

theorem ResponsesKept.marks {body : Value} (h : ResponsesKept codec config request body) :
    responsesMarks body = (responsesItems codec ∅ (leadingInstructions request.messages).2).map itemMark := by
  unfold responsesMarks
  rw [h.input]
  rfl

end

section
variable {codec : WireCodec} {sessionId : SessionId} {w : Backend} {configuration : BackendConfiguration}
  {env : LaunchEnv} {request : RunRequest} {existingRun : Option RunId} {launched : Launched}

/-- **What is sent in all runs of a session is paired**, whatever the family adds to it. -/
theorem sent_bodies_paired (h : SessionRuns (PairedMessages codec) sessionId w)
    (hlaunch : (launch configuration env request existingRun w).1 = .ok launched)
    (hsession : request.sessionId = some sessionId) (hrequest : PairedMessages codec request.messages)
    {as : List TaskAction} {tr : List AgentObs} {s : TaskState}
    (hrun : (taskMachine launched.task).Run Driven
      (launched.task.init (launch configuration env request existingRun w).2) as tr s)
    (hphase : s.agent.loop.phase = .awaiting) (config : OpenAiCompatibleConfig) :
    ∀ sent ∈ [s.agent.loop.request, fallbackRequest s.agent.loop.request],
      Mark.Paired (chatMarks (decorateTurnBody config .chatCompletions sent (buildChatCompletionsBody codec sent))) ∧
        Mark.Paired (responsesMarks (decorateTurnBody config .responses sent (buildResponsesBody codec sent))) := by
  have hbodies {sent : ModelTurnRequest} (hsent : PairedMessages codec sent.messages) :
      Mark.Paired (chatMarks (decorateTurnBody config .chatCompletions sent (buildChatCompletionsBody codec sent))) ∧
        Mark.Paired (responsesMarks (decorateTurnBody config .responses sent (buildResponsesBody codec sent))) := by
    rw [(decoratedChat_kept codec config sent).marks, (decoratedResponses_kept codec config sent).marks]
    exact ⟨hsent.chat, hsent.rest.responses ∅⟩
  obtain ⟨hw, hpaired⟩ := h.paired
  obtain ⟨hwf, hinit⟩ := launch_paired hw hpaired hlaunch hsession hrequest
  have hloop := (hinit.run hrun hwf).2.loop
  unfold LoopPaired at hloop
  rw [hphase] at hloop
  intro sent hsent
  rcases List.mem_pair.1 hsent with rfl | rfl
  · exact hbodies hloop
  · exact hbodies (hloop.append (system_message rfl rfl rfl))

end

theorem sent_bodies_paired_kimi : ∃ tr s,
    (taskMachine (addingTask [askedCall, callResult])).Run Driven
      ((addingTask [askedCall, callResult]).init (addingLaunch [askedCall, callResult]).2)
      (toRequest ++ [.agent (.loop (.turn (.ok sendingTurn)))] ++ toNextRequest) tr s ∧
    Mark.Paired (chatMarks (decorateTurnBody (.new ⟨"kimi"⟩ "" .chatCompletions false) .chatCompletions
      s.agent.loop.request (buildChatCompletionsBody plainCodec s.agent.loop.request))) := by
  have hasked := Machine.exec_run (M := taskMachine (addingTask [askedCall, callResult]))
    (s := (addingTask [askedCall, callResult]).init (addingLaunch [askedCall, callResult]).2) (l := toRequest)
    driven_of_test rfl
  have hrun := (hasked.snoc (driven_sending _) rfl).append
    (Machine.exec_run (l := toNextRequest) driven_of_test rfl)
  have hlaunch : (addingLaunch [askedCall, callResult]).1 =
      .ok ⟨⟨⟨1⟩, some ⟨7⟩, none⟩, addingTask [askedCall, callResult]⟩ := rfl
  have hpaired := sent_bodies_paired (.new RunTable.new_wellFormed rfl) hlaunch rfl askedCall_paired hrun rfl
    (.new ⟨"kimi"⟩ "" .chatCompletions false) _ (List.mem_cons_self ..)
  exact ⟨_, _, hrun, hpaired.1⟩

end Aifluxon
