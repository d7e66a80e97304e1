import Aifluxon.Providers.DecoratedBodies

/-!
# The efforts that are sent

The effort of a request, in the bodies of OpenAI, of custom providers and of Codex.

* `effortFor` : the effort that stands for the one that is asked for;
* `EffortSent`, `effortFor_sent` : it is one that the model knows;
* `efforts_known` : so is the one in a decorated body.
-/

namespace Aifluxon

open Value

/-! ## Efforts of a model -/

/-- The effort that is sent for the one that is asked for. -/
def effortFor (supported : List String) (requested : Option String) : Option String :=
  (requestedText requested).bind fun requested =>
    let effort := normalizeEffort supported requested
    if effort = "default" then none else some effort

/-- What is sent to a model that knows some efforts. -/
structure EffortSent (supported : List String) (requested : Option String) (sent : Option Value) : Prop where
  known : ∀ value, sent = some value → ∃ effort ∈ supported, value = .string effort
  silent : requestedText requested = none → sent = none
  same : ∀ effort ∈ supported, requestedText requested = some effort → sent = some (.string effort)
  nearest : ∀ effort ∈ reasoningEfforts, requestedText requested = some effort → supported ≠ [] → sent ≠ none

/-- The efforts that are tried for one are all the others. -/
theorem mem_effortFallbacks {requested effort : String} (h : requested ∈ reasoningEfforts)
    (h' : effort ∈ reasoningEfforts) : effort = requested ∨ effort ∈ effortFallbacks requested := by
  revert effort
  revert requested
  decide

theorem normalizeEffort_mem (supported : List String) (requested : String) :
    normalizeEffort supported requested = "default" ∨ normalizeEffort supported requested ∈ supported := by
  unfold normalizeEffort
  split
  · exact .inl rfl
  · split
    · exact .inr ‹_›
    · rcases hfind : (effortFallbacks requested).find? fun candidate => candidate ∈ supported with _ | effort
      · exact .inl rfl
      · exact .inr (by simpa using List.find?_some hfind)

/-- An effort that is asked for is sent as itself, or as another one that the model knows. -/
theorem normalizeEffort_ne {supported : List String} {requested : String} (hsupported : supported ⊆ reasoningEfforts)
    (hne : supported ≠ []) (hrequested : requested ∈ reasoningEfforts) :
    normalizeEffort supported requested ≠ "default" := by
  have hdefault : "default" ∉ reasoningEfforts := by decide
  have hnot : ¬ (requested = "" ∨ requested = "default") := by
    rintro (rfl | rfl)
    · exact absurd hrequested (by decide)
    · exact hdefault hrequested
  unfold normalizeEffort
  rw [if_neg hnot]
  split
  · rintro rfl
    exact hdefault hrequested
  · rename_i hmissing
    obtain ⟨effort, heffort⟩ := List.exists_mem_of_ne_nil _ hne
    rcases hfind : (effortFallbacks requested).find? fun candidate => candidate ∈ supported with _ | found
    · rw [List.find?_eq_none] at hfind
      obtain rfl | hfallback := mem_effortFallbacks hrequested (hsupported heffort)
      · exact (hmissing heffort).elim
      · exact absurd (decide_eq_true heffort) (hfind effort hfallback)
    · have hfound : found ∈ supported := by simpa using List.find?_some hfind
      rintro rfl
      exact hdefault (hsupported hfound)

theorem effortFor_sent {supported : List String} (hsupported : supported ⊆ reasoningEfforts) (requested : Option String) :
    EffortSent supported requested ((effortFor supported requested).map .string) := by
  have hdefault : "default" ∉ supported := fun h => absurd (hsupported h) (by decide)
  unfold effortFor
  refine ⟨?_, fun h => by rw [h]; rfl, fun effort heffort h => ?_, fun effort heffort h hne => ?_⟩
  · rcases requestedText requested with _ | text
    · exact fun _ h => absurd h (Option.some_ne_none _).symm
    · rintro value hvalue
      dsimp only [Option.bind_some] at hvalue
      split at hvalue
      · exact absurd hvalue (Option.some_ne_none _).symm
      · rename_i hne
        exact ⟨_, (normalizeEffort_mem supported text).resolve_left hne, (Option.some.inj hvalue).symm⟩
  · have hblank : ¬ (effort = "" ∨ effort = "default") := by
      rintro (rfl | rfl)
      · exact absurd (hsupported heffort) (by decide)
      · exact hdefault heffort
    have hsame : normalizeEffort supported effort = effort := by
      unfold normalizeEffort
      rw [if_neg hblank, if_pos heffort]
    rw [h]
    dsimp only [Option.bind_some]
    rw [hsame, if_neg fun h => hblank (.inr h)]
    rfl
  · rw [h]
    dsimp only [Option.bind_some]
    rw [if_neg (normalizeEffort_ne hsupported hne heffort)]
    exact Option.some_ne_none _

theorem OpenAi.supported_known (model : String) : OpenAi.supportedReasoningEfforts model ⊆ reasoningEfforts := by
  unfold OpenAi.supportedReasoningEfforts
  dsimp only
  repeat' split
  all_goals decide

/-! ## Efforts of a body -/

/-- The effort that a body asks for. -/
def sentEffort (mode : OpenAiApiMode) (body : Value) : Option Value :=
  match mode with
  | .chatCompletions => body.get "reasoning_effort"
  | .responses => (body.get "reasoning").bind (Value.get "effort")

section
variable {body : Value} {model : String}

theorem get_setInner_self {outer key : String} {value : Value} (h : body.isObject = true) :
    (body.setInner outer key value).get outer = some ((orObject (body.get outer)).setField key value) :=
  get_setField_self h

theorem isObject_orObject (value : Option Value) : (orObject value).isObject = true := by
  unfold orObject
  split <;> rfl

/-- Another field inside does not change the effort. -/
theorem sentEffort_setInner {outer key : String} {value : Value} (h : body.isObject = true)
    (hkey : outer ≠ "reasoning" ∨ key ≠ "effort") :
    sentEffort .responses (body.setInner outer key value) = sentEffort .responses body := by
  unfold sentEffort
  dsimp only
  by_cases houter : outer = "reasoning"
  · subst houter
    have hne : key ≠ "effort" := hkey.resolve_left fun h => h rfl
    rw [get_setInner_self h]
    dsimp only [Option.bind_some]
    rw [get_setField_ne hne.symm]
    rcases body.get "reasoning" with _ | reasoning
    · rfl
    · cases reasoning <;> rfl
  · rw [get_setInner_ne (Ne.symm houter)]

theorem sentEffort_setInner_self {value : Value} (h : body.isObject = true) :
    sentEffort .responses (body.setInner "reasoning" "effort" value) = some value := by
  unfold sentEffort
  dsimp only
  rw [get_setInner_self h]
  exact get_setField_self (isObject_orObject _)

theorem OpenAi.sentEffort_chat (h : body.isObject = true) (hnone : sentEffort .chatCompletions body = none)
    (requested : Option String) : sentEffort .chatCompletions (OpenAi.applyChatReasoning model requested body) =
      (effortFor (OpenAi.supportedReasoningEfforts model) requested).map .string := by
  unfold OpenAi.applyChatReasoning OpenAi.normalizeReasoningEffort effortFor
  rcases requestedText requested with _ | text
  · exact hnone
  · dsimp only [Option.bind_some]
    split
    · exact hnone
    · exact get_setField_self h

theorem OpenAi.sentEffort_responses (h : body.isObject = true) (hnone : sentEffort .responses body = none)
    (requested : Option String) (includeSummary : Bool) :
    sentEffort .responses (OpenAi.applyResponsesReasoning model requested includeSummary body) =
      (effortFor (OpenAi.supportedReasoningEfforts model) requested).map .string := by
  have hsummary {body : Value} (h : body.isObject = true) :
      sentEffort .responses (body.setInner "reasoning" "summary" (.string "auto")) = sentEffort .responses body :=
    sentEffort_setInner h (.inr (by decide))
  unfold OpenAi.applyResponsesReasoning OpenAi.normalizeReasoningEffort effortFor
  rcases requestedText requested with _ | text
  · dsimp only [Option.bind_none]
    split
    · exact (hsummary h).trans hnone
    · exact hnone
  · dsimp only [Option.bind_some]
    by_cases hdefault : normalizeEffort (OpenAi.supportedReasoningEfforts model) text = "default"
    · rw [if_pos hdefault, if_neg (not_not.2 hdefault)]
      split
      · exact (hsummary h).trans hnone
      · exact hnone
    · rw [if_neg hdefault, if_pos hdefault]
      split
      · exact (hsummary (isObject_setInner h)).trans (sentEffort_setInner_self h)
      · exact sentEffort_setInner_self h

end

/-! ## Decorated bodies -/

section
variable {config : OpenAiCompatibleConfig} {request : ModelTurnRequest} {body : Value}

/-- The families whose models are those of OpenAI. -/
def ApiFamily.openAiEfforts (family : ApiFamily) : Prop := family = .openAi ∨ family = .custom ∨ family = .codex

theorem sentEffort_chatFamily (request : ModelTurnRequest) (h : body.isObject = true)
    (hnone : sentEffort .chatCompletions body = none) (hfamily : config.family = .openAi ∨ config.family = .custom) :
    sentEffort .chatCompletions (decorateChatFamily config request body) =
      (effortFor (OpenAi.supportedReasoningEfforts request.model) request.features.reasoningEffort).map .string := by
  unfold decorateChatFamily
  rcases hfamily with hfamily | hfamily <;> rw [hfamily] <;> exact OpenAi.sentEffort_chat h hnone _

/-- Codex asks for the default effort when nothing else is asked for, and for no effort then. -/
theorem effortFor_default (supported requested) : effortFor supported (some (requested.getD "default")) =
    effortFor supported requested := by
  cases requested with
  | none =>
    have htext : requestedText (some "default") = some "default" := by decide
    show (requestedText (some "default")).bind _ = none
    rw [htext]
    dsimp only [Option.bind_some]
    rw [if_pos]
    unfold normalizeEffort
    exact if_pos (.inr rfl)
  | some requested => rfl

theorem sentEffort_responsesFamily (request : ModelTurnRequest) (h : body.isObject = true)
    (hnone : sentEffort .responses body = none) (hfamily : config.family.openAiEfforts) :
    sentEffort .responses (decorateResponsesFamily config request body) =
      (effortFor (OpenAi.supportedReasoningEfforts request.model) request.features.reasoningEffort).map .string := by
  unfold decorateResponsesFamily
  rcases hfamily with hfamily | hfamily | hfamily <;> rw [hfamily]
  · exact OpenAi.sentEffort_responses h hnone _ _
  · exact OpenAi.sentEffort_responses h hnone _ _
  · have hsummary : Sets ["reasoning"] body (OpenAi.applyResponsesReasoning request.model
        (some (request.features.reasoningEffort.getD "default")) false body) :=
      (Sets.refl h _).summary (by decide) _ _ _
    have hinclude := ((Sets.refl hsummary.object ["include"]).field (by decide : "include" ∈ ["include"])
      (.array [.string "reasoning.encrypted_content"])).object
    dsimp only [Codex.applyResponsesContract]
    rw [sentEffort_setInner (isObject_setInner hinclude) (.inl (by decide)),
      sentEffort_setInner hinclude (.inr (by decide)), ← effortFor_default]
    refine Eq.trans ?_ (OpenAi.sentEffort_responses h hnone _ false)
    unfold sentEffort
    dsimp only
    rw [get_setField_ne (by decide)]

theorem setCacheKey_sets (h : body.isObject = true) (features : ProviderFeatureRequest) :
    Sets ["prompt_cache_key"] body (setCacheKey features body) := by
  unfold setCacheKey
  split
  · exact (Sets.refl h _).field (by decide) _
  · exact .refl h _

theorem applyHostedTools_sets (config : OpenAiCompatibleConfig) (request : ModelTurnRequest) (h : body.isObject = true) :
    Sets ["instructions", "tools"] body (applyHostedTools config request body) := by
  have himage : Sets ["instructions", "tools"] body (body.setField "instructions" (.string (imageInstructions body))) :=
    (Sets.refl h _).field (by decide) _
  unfold applyHostedTools
  dsimp only
  split
  · split
    · exact himage
    · exact himage.field (by decide) _
  · split
    · exact .refl h _
    · exact (Sets.refl h _).field (by decide) _

/-- What is set before the family and behind it is not the effort. -/
theorem sentEffort_chat (h : body.isObject = true) (hnone : sentEffort .chatCompletions body = none)
    (hfamily : config.family = .openAi ∨ config.family = .custom) :
    sentEffort .chatCompletions (decorateTurnBody config .chatCompletions request body) =
      (effortFor (OpenAi.supportedReasoningEfforts request.model) request.features.reasoningEffort).map .string := by
  have husage : Sets ["stream_options"] body
      (if config.includeStreamUsage then body else body.removeField "stream_options") := by
    split
    · exact .refl h _
    · exact (Sets.refl h _).removed (by decide)
  have heffort := sentEffort_chatFamily request husage.object
    ((husage.kept "reasoning_effort" (by decide)).trans hnone) hfamily
  have hobject : (decorateChatFamily config request
      (if config.includeStreamUsage then body else body.removeField "stream_options")).isObject = true := by
    unfold decorateChatFamily
    rcases hfamily with hfamily | hfamily <;> rw [hfamily] <;>
      exact (OpenAi.applyChatReasoning_sets husage.object _ _).object
  have hflags := (applyToolFlags_flags config hobject).sets
  rw [← heffort]
  exact ((setCacheKey_sets hflags.object _).kept "reasoning_effort" (by decide)).trans
    (hflags.kept "reasoning_effort" (by decide))

theorem sentEffort_responses (h : body.isObject = true) (hnone : sentEffort .responses body = none)
    (hfamily : config.family.openAiEfforts) :
    sentEffort .responses (decorateTurnBody config .responses request body) =
      (effortFor (OpenAi.supportedReasoningEfforts request.model) request.features.reasoningEffort).map .string := by
  have hdeepSeek : config.family ≠ .deepSeek := by
    rcases hfamily with hfamily | hfamily | hfamily <;> rw [hfamily] <;> decide
  have hstore : Sets ["store"] body (body.setField "store" (.bool false)) := (Sets.refl h _).field (by decide) _
  have heffort (body' : Value) (hget : body'.get "reasoning" = body.get "reasoning") :
      sentEffort .responses body' = sentEffort .responses body := by
    unfold sentEffort
    dsimp only
    rw [hget]
  have hsent := sentEffort_responsesFamily request hstore.object
    ((heffort _ (hstore.kept "reasoning" (by decide))).trans hnone) hfamily
  have hsets : Sets config.family.responsesFields _ (decorateResponsesFamily config request _) :=
    decorateResponsesFamily_sets hstore.object
  have hhosted := applyHostedTools_sets config request hsets.object
  have hflags := (applyToolFlags_flags config hhosted.object).sets
  rw [← hsent]
  unfold decorateTurnBody decorateResponses
  dsimp only
  rw [if_neg hdeepSeek, if_pos hdeepSeek]
  unfold sentEffort
  dsimp only
  rw [(setCacheKey_sets hflags.object _).kept "reasoning" (by decide), hflags.kept "reasoning" (by decide),
    hhosted.kept "reasoning" (by decide)]

/-- **The effort that is sent to a model is one that it knows**: the one that is asked for, or the nearest; and one is
sent when one is asked for and the model knows any. -/
theorem efforts_known (codec : WireCodec) (config : OpenAiCompatibleConfig) (request : ModelTurnRequest)
    (hfamily : config.family.openAiEfforts) :
    EffortSent (OpenAi.supportedReasoningEfforts request.model) request.features.reasoningEffort
      (sentEffort (config.forModel request.model).mode (turnBody codec config request)) := by
  have hsent := effortFor_sent (OpenAi.supported_known request.model) request.features.reasoningEffort
  have heffort : sentEffort (config.forModel request.model).mode (turnBody codec config request) =
      (effortFor (OpenAi.supportedReasoningEfforts request.model) request.features.reasoningEffort).map .string := by
    have hnoneChat : (buildChatCompletionsBody codec request).get "reasoning_effort" = none :=
      get_chatBody_other (by decide)
    have hnoneResponses : sentEffort .responses (buildResponsesBody codec request) = none := by
      unfold sentEffort
      dsimp only
      rw [get_responsesBody_other (by decide)]
      rfl
    have hcodex : config.family = .codex → effectiveApiMode config.family config.apiMode request.model = .responses := by
      intro hcodex
      rw [hcodex]
      cases config.apiMode <;> rfl
    unfold turnBody OpenAiCompatibleConfig.forModel
    dsimp only
    rcases hmode : effectiveApiMode config.family config.apiMode request.model with _ | _
    · refine sentEffort_chat rfl hnoneChat (hfamily.imp_right fun h => h.resolve_right fun hfamily => ?_)
      rw [hcodex hfamily] at hmode
      cases hmode
    · exact sentEffort_responses rfl hnoneResponses hfamily
  rw [heffort]
  exact hsent

end

/-- A request for more than the model knows. -/
def xhighRequest : ModelTurnRequest :=
  ⟨"gpt-5.1", [], [], ⟨""⟩, ⟨1⟩, none, ⟨false, false, some "xhigh", none, none, none, false⟩⟩

theorem efforts_known_nearest : sentEffort (OpenAiCompatibleConfig.forModel (.new ⟨"openai"⟩ "" .responses false)
    xhighRequest.model).mode (turnBody plainCodec (.new ⟨"openai"⟩ "" .responses false) xhighRequest) ≠ none :=
  (efforts_known plainCodec (.new ⟨"openai"⟩ "" .responses false) xhighRequest (.inl (by decide))).nearest "xhigh"
    (by decide) (by decide) (by decide)

end Aifluxon
