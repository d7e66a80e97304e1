import Aifluxon.Api.EventJson
import Aifluxon.Api.SessionHistory
import Aifluxon.Bindings.PythonInputs
import Aifluxon.Core.Uuid

/-!
# Starts from Python

What `Agent.start` of `agent.py` sends, and the request that `start` and `start_with_content` of `lib.rs`
make of it.

* `PyAgent`, `PyAgent.start` : the settings of an agent, and the call that leaves Python;
* `parseContentParts`, `parseFeatures`, `NativeAgent.start` : the request that Rust reads;
* `parseContentParts_payload`, `parseFeatures_toPayload` : the prompt and the settings come back as they were;
* `parseOrStableKey_hyphenated` : the identifier of a session is a name of it;
* `start_request` : the request of a call of Python.
-/

namespace Aifluxon

open Value

/-! ## The call that leaves Python -/

/-- What an `Agent` keeps for its calls. -/
structure PyAgent where
  thinking : ThinkingSettings
  systemPrompt : Option String
  thinking_normal : thinking.Normal
  systemPrompt_normal : Normal systemPrompt

/-- The arguments of `Agent.start`; a keyword argument that is not given is `none`. -/
structure PyStart (py : PyText) where
  prompt : PyPrompt py
  sessionId : Option String
  systemPrompt : Option PyArg
  reasoningEffort : Option PyArg
  thinking : Option PyArg
  thinkingBudget : Option PyArg

/-- The arguments of `start`, or of `start_with_content`. -/
structure NativeStart where
  prompt : String
  withContent : Bool
  sessionId : Option String
  featuresJson : Option String
  systemPrompt : Option String

/-- The prompt that is sent, and whether it is sent to `start_with_content`. -/
def NormalPrompt.encode (json : PyJson) : NormalPrompt → Except PyError (String × Bool)
  | .text s => .ok (s, false)
  | .parts payload => (json.dumps (.array payload)).map fun text => (text, true)

namespace PyAgent
variable (py : PyText) (json : PyJson)

/-- The settings of `__init__`. -/
def new (systemPrompt reasoningEffort thinking thinkingBudget : PyArg) : Except PyError PyAgent :=
  match hsystem : normalizeSystemPrompt systemPrompt,
    hthinking : thinkingSettings py reasoningEffort thinking thinkingBudget with
  | .error error, _ | _, .error error => .error error
  | .ok systemPrompt, .ok thinking =>
    .ok ⟨thinking, systemPrompt, thinkingSettings_normal hthinking, normalizeSystemPrompt_normal hsystem⟩

variable {py} (agent : PyAgent) (call : PyStart py)

/-- The settings of a call. -/
def settings : Except PyError ThinkingSettings :=
  mergeThinkingSettings py agent.thinking call.reasoningEffort call.thinking call.thinkingBudget

/-- The system prompt of a call. -/
def prompted : Except PyError (Option String) := orNormalized agent.systemPrompt normalizeSystemPrompt call.systemPrompt

def start : Except PyError NativeStart := do
  let settings ← agent.settings call
  let systemPrompt ← agent.prompted call
  let prompt ← normalizePromptInput call.prompt
  let (prompt, withContent) ← prompt.encode json
  let features ← json.dumps settings.toPayload.value
  return ⟨prompt, withContent, call.sessionId, some features, systemPrompt⟩

end PyAgent

/-! ## What Rust reads -/

section Native
variable (json : PyJson) (serde : Serde)

def invalidNative (message : String) : AifluxonError := ⟨.invalidRequest, message⟩

/-- `content_part_string`. -/
def contentPartString (value : Value) (index : Nat) (field : String) : Except AifluxonError String :=
  match ((fieldStr value field).map trim).filter fun text => text ≠ "" with
  | some text => .ok text
  | none => .error (invalidNative
      ("Content part " ++ toString index ++ " requires a non-empty `" ++ field ++ "`."))

def parseContentPart (index : Nat) (part : Value) : Except AifluxonError ContentPart :=
  match fieldStr part "type" with
  | none => .error (invalidNative ("Content part " ++ toString index ++ " has no `type`."))
  | some "text" => match fieldStr part "text" with
    | some text => .ok (.text text)
    | none => .error (invalidNative ("Text content part " ++ toString index ++ " requires `text`."))
  | some "image" => do
    let reference ← contentPartString part index "reference"
    let mimeType ← contentPartString part index "mime_type"
    let mimeType := asciiLowercase mimeType
    if startsWith "image/" mimeType then .ok (.image ⟨⟨reference⟩, mimeType⟩)
    else .error (invalidNative ("Image content part " ++ toString index ++ " requires an image MIME type."))
  | some other => .error (invalidNative
      ("Unsupported content part type `" ++ other ++ "` at index " ++ toString index ++ "."))

/-- The parts from an index on, up to the first that fails. -/
def parsePartsFrom (index : Nat) : List Value → Except AifluxonError (List ContentPart)
  | [] => .ok []
  | part :: parts => do
    let content ← parseContentPart index part
    let contents ← parsePartsFrom (index + 1) parts
    return content :: contents

def parseContentParts (raw : String) : Except AifluxonError (List ContentPart) :=
  match serde.fromStr raw with
  | none => .error (invalidNative (json.readError raw))
  | some value => match (asArray value).filter fun parts => parts ≠ [] with
    | some parts => parsePartsFrom 0 parts
    | none => .error (invalidNative "Multimodal content must be a non-empty JSON array.")

/-- `optional_feature_str`. -/
def optionalFeatureStr (value : Value) (field : String) : Except AifluxonError (Option String) :=
  match value.get field with
  | none | some .null => .ok none
  | some (.string text) => .ok (if trim text = "" then none else some (trim text))
  | some (.number n) =>
    if field = "thinking_budget" then
      .ok (((asU64 (.number n)).filter fun n => 0 < n).map toString)
    else .error (invalidNative ("Feature `" ++ field ++ "` must be a string."))
  | some _ => .error (invalidNative ("Feature `" ++ field ++ "` must be a string."))

/-- `ProviderFeatureRequest::default()`. -/
def ProviderFeatureRequest.default : ProviderFeatureRequest := ⟨false, false, none, none, none, none, false⟩

def featuresOf (value : Value) : Except AifluxonError ProviderFeatureRequest := do
  let reasoningEffort ← optionalFeatureStr value "reasoning_effort"
  let thinkingMode ← optionalFeatureStr value "thinking_mode"
  let thinkingBudget ← optionalFeatureStr value "thinking_budget"
  return { ProviderFeatureRequest.default with reasoningEffort, thinkingMode, thinkingBudget }

def parseFeatures (raw : Option String) : Except AifluxonError ProviderFeatureRequest :=
  match (raw.map trim).filter fun text => text ≠ "" ∧ text ≠ "{}" with
  | none => .ok .default
  | some text => match serde.fromStr text with
    | none => .error (invalidNative (json.readError text))
    | some value => featuresOf value

/-- `SessionId::parse_or_stable_key`, over the version 5 identifiers of texts. -/
def SessionId.parseOrStableKey (stableKey : String → Uuid) (raw : String) : Except String SessionId :=
  if trim raw = "" then .error "Session identifiers must not be empty."
  else .ok ⟨(parseUuid (trim raw)).getD (stableKey (trim raw))⟩

/-- `content_messages`. -/
def contentMessages (content : List ContentPart) (systemPrompt : Option String) : List Message :=
  let system := match systemPrompt with
    | some text => if trim text = "" then [] else [textMessage .system (trim text)]
    | none => []
  system ++ [⟨.user, content, [], none, none⟩]

def userContentRequestWithSystem (model : ModelRef) (content : List ContentPart) (sessionId : Option SessionId)
    (limits : RunLimits) (features : ProviderFeatureRequest) (systemPrompt : Option String) : RunRequest where
  sessionId
  messages := contentMessages content systemPrompt
  model
  sessionKey := none
  allowedTools := none
  limits
  features
  authority := none

/-- A `NativeAgent`, as its calls read it. -/
structure NativeAgent where
  binding : ModelRef
  limits : RunLimits

namespace NativeAgent
variable (stableKey : String → Uuid) (agent : NativeAgent)

/-- The session that a call names. -/
def session : Option String → Except AifluxonError (Option SessionId)
  | none => .ok none
  | some raw => ((SessionId.parseOrStableKey stableKey raw).map some).mapError invalidNative

/-- `start_content`, up to the request that is started. -/
def startContent (content : List ContentPart) (call : NativeStart) : Except AifluxonError RunRequest := do
  let session ← session stableKey call.sessionId
  let features ← parseFeatures json serde call.featuresJson
  let systemPrompt := (call.systemPrompt.map trim).filter fun text => text ≠ ""
  return userContentRequestWithSystem agent.binding content session agent.limits features systemPrompt

/-- The content of `start`, or of `start_with_content`. -/
def content (call : NativeStart) : Except AifluxonError (List ContentPart) :=
  if call.withContent then parseContentParts json serde call.prompt else .ok [.text call.prompt]

def start (call : NativeStart) : Except AifluxonError RunRequest := do
  let content ← content json serde call
  agent.startContent json serde stableKey content call

end NativeAgent

end Native

/-! ## Round trips -/

/-- Rust reads what Python prints, unless it has floats or is nested too deeply. -/
structure PyJson.Reads (json : PyJson) (serde : Serde) : Prop where
  printed : ∀ v text, json.dumps v = .ok text → v.Integral → v.depth ≤ recursionLimit →
    trim text = text ∧ text ≠ "" ∧ serde.fromStr text = some v.canonical
  empty : serde.fromStr "{}" = some (.object [])

section RoundTrip
variable {py : PyText} {json : PyJson} {serde : Serde}

theorem fieldStr_canonical {entries : List (String × Value)} (h : (entries.map Prod.fst).Nodup) {key s : String}
    (hlookup : entries.lookup key = some (.string s)) : fieldStr (canonical (.object entries)) key = some s := by
  rw [fieldStr, get_canonical h, hlookup]
  rfl

theorem contentPartString_eq {value : Value} {field text : String} (h : fieldStr value field = some text)
    (htrim : trim text = text) (hne : text ≠ "") (index : Nat) : contentPartString value index field = .ok text := by
  have hfilter : ((fieldStr value field).map trim).filter (fun text => text ≠ "") = some text := by
    rw [h, Option.map_some, htrim, Option.filter_eq_some_iff]
    exact ⟨rfl, by simpa using hne⟩
  unfold contentPartString
  rw [hfilter]

/-- **An item of a prompt** is read as what it is meant to be. -/
theorem parseContentPart_payload (hpy : py.Lawful) {part : PyPart py} {index : Nat} {value : Value}
    (h : part.toPayload index = .ok value) (i : Nat) :
    ∃ content, part.content = some content ∧ parseContentPart i value.canonical = .ok content := by
  cases part with
  | text s =>
    cases h
    have hnodup : ([("type", Value.string "text"), ("text", .string s)].map Prod.fst).Nodup := by simp
    have htype := @fieldStr_canonical _ hnodup "type" _ rfl
    have htext := @fieldStr_canonical _ hnodup "text" _ rfl
    refine ⟨_, rfl, ?_⟩
    unfold parseContentPart
    rw [htype]
    simp only [htext]
  | image image =>
    cases h
    have hnodup : ([("type", Value.string "image"), ("reference", .string image.reference),
      ("mime_type", .string image.mimeType)].map Prod.fst).Nodup := by simp
    have htype := @fieldStr_canonical _ hnodup "type" _ rfl
    have hreference := @fieldStr_canonical _ hnodup "reference" _ rfl
    have hmimeType := @fieldStr_canonical _ hnodup "mime_type" _ rfl
    obtain ⟨given, hgiven, hlower⟩ := image.mimeType_lower
    have htrim : trim image.mimeType = image.mimeType := by
      rw [hlower]
      exact hpy.blanks given hgiven
    have hascii : asciiLowercase image.mimeType = image.mimeType := by
      rw [hlower]
      exact hpy.ascii given
    have hne : image.mimeType ≠ "" := by
      intro hempty
      have himage := image.mimeType_image
      rw [hempty] at himage
      exact absurd himage (by decide)
    refine ⟨_, rfl, ?_⟩
    unfold parseContentPart
    rw [ImageInput.toPayload, htype]
    simp only [contentPartString_eq hreference (trim_of_pyStrip image.reference_strip) image.reference_ne,
      contentPartString_eq hmimeType htrim hne, bind, Except.bind, hascii, image.mimeType_image, if_true,
      ImageInput.content]
  | other typeName => cases h

theorem toPayload_integral {part : PyPart py} {index : Nat} {value : Value} (h : part.toPayload index = .ok value) :
    value.Integral ∧ value.depth = 1 := by
  cases part with
  | text s =>
    cases h
    exact ⟨⟨trivial, trivial, trivial⟩, rfl⟩
  | image image =>
    cases h
    exact ⟨⟨trivial, trivial, trivial, trivial⟩, rfl⟩
  | other typeName => cases h

/-- The items of a prompt, one by one. -/
theorem payloadFrom_ok (hpy : py.Lawful) {parts : List (PyPart py)} {index : Nat} {payload : List Value}
    (h : payloadFrom index parts = .ok payload) : payload.length = parts.length ∧
      IntegralItems payload ∧ depthItems payload ≤ 1 ∧
      ∃ contents, parts.mapM PyPart.content = some contents ∧
        ∀ i, parsePartsFrom i (payload.map canonical) = .ok contents := by
  induction parts generalizing index payload with
  | nil =>
    cases h
    exact ⟨rfl, trivial, Nat.zero_le _, [], rfl, fun _ => rfl⟩
  | cons part parts ih =>
    obtain ⟨value, hvalue, h⟩ := ok_of_bind h
    obtain ⟨rest, hrest, h⟩ := ok_of_bind h
    cases h
    obtain ⟨hlength, hintegral, hdepth, contents, hcontents, hparse⟩ := ih hrest
    obtain ⟨hvalueIntegral, hvalueDepth⟩ := toPayload_integral hvalue
    refine ⟨congrArg (· + 1) hlength, ⟨hvalueIntegral, hintegral⟩, ?_, ?_⟩
    · rw [depthItems, hvalueDepth]
      exact max_le le_rfl hdepth
    · obtain ⟨content, hcontent, -⟩ := parseContentPart_payload hpy hvalue 0
      refine ⟨content :: contents, ?_, fun i => ?_⟩
      · rw [List.mapM_cons, hcontent, hcontents]
        rfl
      · obtain ⟨content', hcontent', hpart⟩ := parseContentPart_payload hpy hvalue i
        rw [hcontent] at hcontent'
        cases hcontent'
        rw [List.map_cons, parsePartsFrom, hpart, hparse]
        rfl

/-- **A prompt** of several items is read as what it is meant to be. -/
theorem parseContentParts_payload (hpy : py.Lawful) {parts : List (PyPart py)} (hne : parts ≠ []) {payload : List Value}
    (h : payloadFrom 0 parts = .ok payload) {text : String}
    (hread : serde.fromStr text = some (canonical (.array payload))) :
    ∃ contents, parts.mapM PyPart.content = some contents ∧ parseContentParts json serde text = .ok contents := by
  obtain ⟨hlength, -, -, contents, hcontents, hparse⟩ := payloadFrom_ok hpy h
  refine ⟨contents, hcontents, ?_⟩
  have hpayload : payload.map canonical ≠ [] := by
    intro hempty
    rw [List.map_eq_nil_iff] at hempty
    rw [hempty] at hlength
    exact hne (List.length_eq_zero_iff.1 hlength.symm)
  have hfilter : (asArray (canonical (.array payload))).filter (fun parts => parts ≠ []) =
      some (payload.map canonical) := by
    rw [canonical, canonicalItems_eq_map, asArray, Option.filter_eq_some_iff]
    exact ⟨rfl, by simpa using hpayload⟩
  unfold parseContentParts
  rw [hread]
  simp only [hfilter, hparse]

/-! ### Settings -/

/-- The features that settings are meant to be. -/
def ThinkingSettings.features (settings : ThinkingSettings) : ProviderFeatureRequest :=
  { ProviderFeatureRequest.default with
    reasoningEffort := settings.reasoningEffort
    thinkingMode := settings.thinkingMode
    thinkingBudget := settings.thinkingBudget }

theorem toPayload_get (settings : ThinkingSettings) :
    settings.toPayload.value.canonical.get "reasoning_effort" = settings.reasoningEffort.map .string ∧
    settings.toPayload.value.canonical.get "thinking_mode" = settings.thinkingMode.map .string ∧
    settings.toPayload.value.canonical.get "thinking_budget" = settings.thinkingBudget.map .string := by
  have hget (key : String) := get_canonical settings.toPayload.nodup key
  obtain ⟨effort, mode, budget⟩ := settings
  refine ⟨(hget _).trans ?_, (hget _).trans ?_, (hget _).trans ?_⟩
  all_goals cases effort <;> cases mode <;> cases budget <;> rfl

theorem optionalFeatureStr_normal {value : Value} {field : String} {setting : Option String}
    (hget : value.get field = setting.map .string) (hnormal : Normal setting) :
    optionalFeatureStr value field = .ok setting := by
  unfold optionalFeatureStr
  rw [hget]
  cases setting with
  | none => rfl
  | some text =>
    obtain ⟨htrim, hne⟩ := hnormal text rfl
    simp only [Option.map_some, htrim, if_neg hne]

theorem featuresOf_eq {settings : ThinkingSettings} (hnormal : settings.Normal) {value : Value}
    (heffort : value.get "reasoning_effort" = settings.reasoningEffort.map .string)
    (hmode : value.get "thinking_mode" = settings.thinkingMode.map .string)
    (hbudget : value.get "thinking_budget" = settings.thinkingBudget.map .string) :
    featuresOf value = .ok settings.features := by
  unfold featuresOf
  rw [optionalFeatureStr_normal heffort hnormal.reasoningEffort, optionalFeatureStr_normal hmode hnormal.thinkingMode,
    optionalFeatureStr_normal hbudget hnormal.thinkingBudget]
  rfl

theorem toPayload_integralEntries (settings : ThinkingSettings) :
    settings.toPayload.value.Integral ∧ settings.toPayload.value.depth ≤ recursionLimit := by
  obtain ⟨effort, mode, budget⟩ := settings
  cases effort <;> cases mode <;> cases budget <;>
    simp [ThinkingSettings.toPayload, PyDict.value, Integral, IntegralEntries, depth, depthEntries, recursionLimit]

/-- **The settings** are read as they are printed, also when there are none. -/
theorem parseFeatures_toPayload (hjson : json.Reads serde) {settings : ThinkingSettings} (hnormal : settings.Normal)
    {text : String} (h : json.dumps settings.toPayload.value = .ok text) :
    parseFeatures json serde (some text) = .ok settings.features := by
  obtain ⟨hintegral, hdepth⟩ := toPayload_integralEntries settings
  obtain ⟨htrim, hne, hread⟩ := hjson.printed _ text h hintegral hdepth
  obtain ⟨heffort, hmode, hbudget⟩ := toPayload_get settings
  unfold parseFeatures
  rw [Option.map_some, htrim]
  by_cases hempty : text = "{}"
  · rw [hempty, hjson.empty, Option.some.injEq] at hread
    rw [← hread] at heffort hmode hbudget
    have hnone : settings = ⟨none, none, none⟩ := by
      obtain ⟨effort, mode, budget⟩ := settings
      simp only [ThinkingSettings.mk.injEq]
      exact ⟨Option.map_eq_none_iff.1 heffort.symm, Option.map_eq_none_iff.1 hmode.symm,
        Option.map_eq_none_iff.1 hbudget.symm⟩
    rw [hempty, hnone]
    rfl
  · have hfilter : (some text).filter (fun text => text ≠ "" ∧ text ≠ "{}") = some text := by
      rw [Option.filter_eq_some_iff]
      exact ⟨rfl, decide_eq_true ⟨hne, hempty⟩⟩
    rw [hfilter]
    simp only [hread]
    exact featuresOf_eq hnormal heffort hmode hbudget

end RoundTrip

/-! ## The request of a call -/

theorem hexDigit_isWhitespace {u : Uuid} {i n : Nat} {c : Char} (h : c ∈ hexChars u i n) : isWhitespace c = false := by
  obtain ⟨j, -, rfl⟩ := List.mem_map.1 h
  have hlt : u.toNat / 16 ^ (31 - (i + j)) % 16 < 16 := Nat.mod_lt _ (by decide)
  have hdigits : ∀ d < 16, isWhitespace (Nat.digitChar d) = false := by decide
  exact hdigits _ hlt

/-- **The identifier of a session** is a name of it. -/
theorem parseOrStableKey_hyphenated (stableKey : String → Uuid) (id : SessionId) :
    SessionId.parseOrStableKey stableKey (hyphenated id.uuid) = .ok id := by
  have htrim : trim (hyphenated id.uuid) = hyphenated id.uuid := by
    refine trim_eq_self fun c hc => ?_
    rw [toList_hyphenated] at hc
    simp only [List.mem_append, List.mem_cons] at hc
    rcases hc with (((hc | rfl | hc) | rfl | hc) | rfl | hc) | rfl | hc
    all_goals first | exact hexDigit_isWhitespace hc | decide
  have hne : hyphenated id.uuid ≠ "" := by
    intro hempty
    have hlength := length_hyphenated id.uuid
    rw [hempty] at hlength
    exact absurd hlength (by decide)
  rw [SessionId.parseOrStableKey, htrim, if_neg hne, parseUuid_hyphenated]
  rfl

section Request
variable {py : PyText} {json : PyJson} {serde : Serde} {call : PyStart py}

/-- The content of a prompt that is sent. -/
theorem content_of_encode (hpy : py.Lawful) (hjson : json.Reads serde) {prompt : NormalPrompt} {sent : String × Bool}
    (hprompt : normalizePromptInput call.prompt = .ok prompt) (hsent : prompt.encode json = .ok sent)
    {native : NativeStart} (htext : native.prompt = sent.1) (hcontent : native.withContent = sent.2) :
    ∃ content, call.prompt.content = some content ∧ NativeAgent.content json serde native = .ok content := by
  cases hcall : call.prompt with
  | text s =>
    rw [hcall] at hprompt
    cases hprompt
    cases hsent
    refine ⟨_, rfl, ?_⟩
    rw [NativeAgent.content, hcontent, htext]
    rfl
  | parts parts =>
    rw [hcall] at hprompt
    cases parts with
    | nil => cases hprompt
    | cons part parts =>
      obtain ⟨payload, hpayload, hnormal⟩ := ok_of_bind (f := fun payload => .ok (NormalPrompt.parts payload)) hprompt
      cases hnormal
      obtain ⟨text, hdumps, hencode⟩ := ok_of_bind (f := fun text => .ok (text, true)) hsent
      cases hencode
      obtain ⟨-, hintegral, hdepth, -⟩ := payloadFrom_ok hpy hpayload
      have hshallow : (Value.array payload).depth ≤ recursionLimit := by
        rw [depth, recursionLimit]
        omega
      obtain ⟨-, -, hread⟩ := hjson.printed _ text hdumps hintegral hshallow
      obtain ⟨contents, hcontents, hparse⟩ :=
        @parseContentParts_payload py json serde hpy _ (List.cons_ne_nil part parts) payload hpayload text hread
      refine ⟨contents, hcontents, ?_⟩
      rw [NativeAgent.content, hcontent, htext]
      exact hparse
  | other =>
    rw [hcall] at hprompt
    cases hprompt

/-- A system prompt of Python is taken as it is. -/
theorem contentMessages_normal {systemPrompt : Option String} (h : Normal systemPrompt) (content : List ContentPart) :
    contentMessages content ((systemPrompt.map trim).filter fun text => text ≠ "") =
      (systemPrompt.map (textMessage .system)).toList ++ [⟨.user, content, [], none, none⟩] := by
  cases systemPrompt with
  | none => rfl
  | some text =>
    obtain ⟨htrim, hne⟩ := h text rfl
    have hfilter : (some text).filter (fun text => text ≠ "") = some text := by
      rw [Option.filter_eq_some_iff]
      exact ⟨rfl, by simpa using hne⟩
    rw [Option.map_some, htrim, hfilter, contentMessages]
    simp only [htrim, if_neg hne]
    rfl

/-- **A call of Python** that leaves Python is started as it is meant: its parts are the content of the
message of the user, its system prompt stands before, and its settings are the features. Rust refuses none
of it but a name of a session that is blank; the identifier of a session names it. -/
theorem start_request (hpy : py.Lawful) (hjson : json.Reads serde) {agent : PyAgent} {native : NativeStart}
    (h : agent.start json call = .ok native) (stableKey : String → Uuid) (host : NativeAgent) :
    ∃ settings systemPrompt content, agent.settings call = .ok settings ∧ agent.prompted call = .ok systemPrompt ∧
      call.prompt.content = some content ∧
      host.start json serde stableKey native =
        (NativeAgent.session stableKey call.sessionId).map (fun session => {
          sessionId := session
          messages := (systemPrompt.map (textMessage .system)).toList ++ [⟨.user, content, [], none, none⟩]
          model := host.binding
          sessionKey := none
          allowedTools := none
          limits := host.limits
          features := settings.features
          authority := none }) ∧
      (call.sessionId = none → NativeAgent.session stableKey call.sessionId = .ok none) ∧
      ∀ id : SessionId, call.sessionId = some (hyphenated id.uuid) →
        NativeAgent.session stableKey call.sessionId = .ok (some id) := by
  obtain ⟨settings, hsettings, h⟩ := ok_of_bind h
  obtain ⟨systemPrompt, hsystem, h⟩ := ok_of_bind h
  obtain ⟨prompt, hprompt, h⟩ := ok_of_bind h
  obtain ⟨sent, hsent, h⟩ := ok_of_bind h
  obtain ⟨features, hfeatures, h⟩ := ok_of_bind h
  cases h
  have hsettingsNormal := mergeThinkingSettings_normal agent.thinking_normal hsettings
  have hsystemNormal : Normal systemPrompt :=
    orNormalized_ok hsystem agent.systemPrompt_normal fun _ _ => normalizeSystemPrompt_normal
  obtain ⟨content, hcontent, hread⟩ := @content_of_encode py json serde call hpy hjson prompt sent hprompt hsent
    ⟨sent.1, sent.2, call.sessionId, some features, systemPrompt⟩ rfl rfl
  refine ⟨settings, systemPrompt, content, hsettings, hsystem, hcontent, ?_, ?_, ?_⟩
  · unfold NativeAgent.start
    rw [hread]
    unfold NativeAgent.startContent
    cases hsession : NativeAgent.session stableKey call.sessionId with
    | error error =>
      simp only [bind, Except.bind]
      rfl
    | ok session =>
      simp only [bind, Except.bind, parseFeatures_toPayload hjson hsettingsNormal hfeatures,
        userContentRequestWithSystem, contentMessages_normal hsystemNormal]
      rfl
  · intro hnone
    rw [hnone]
    rfl
  · intro id hid
    rw [hid, NativeAgent.session, parseOrStableKey_hyphenated]
    rfl

end Request

/-! ### A picture with a question -/

/-- Python on texts of ASCII. -/
def asciiPython : PyText := ⟨asciiLowercase, fun _ => none⟩

/-- A character is small already, or it is one of the capitals. -/
theorem toLower_cases (c : Char) : c.toLower = c ∨ ∃ n < 26, c = Char.ofNat (65 + n) := by
  by_cases hupper : c.val ≥ 'A'.val ∧ c.val ≤ 'Z'.val
  · right
    have hrange : 65 ≤ c.toNat ∧ c.toNat ≤ 90 := hupper
    refine ⟨c.toNat - 65, by omega, ?_⟩
    rw [Nat.add_sub_cancel' hrange.1, Char.ofNat_toNat]
  · exact .inl (dif_neg hupper)

theorem toLower_blank (c : Char) : isWhitespace c.toLower = isWhitespace c ∧ c.toLower.toLower = c.toLower := by
  have hcapitals : ∀ n < 26, isWhitespace (Char.ofNat (65 + n)).toLower = isWhitespace (Char.ofNat (65 + n)) ∧
      (Char.ofNat (65 + n)).toLower.toLower = (Char.ofNat (65 + n)).toLower := by decide
  rcases toLower_cases c with hsmall | ⟨n, hn, rfl⟩
  · rw [hsmall]
    exact ⟨rfl, hsmall⟩
  · exact hcapitals n hn

theorem asciiPython_lawful : asciiPython.Lawful where
  ascii text := by
    simp only [asciiPython, asciiLowercase, String.toList_ofList, List.map_map]
    congr 2
    funext c
    exact (toLower_blank c).2
  blanks text h := by
    have hblank : isWhitespace ∘ Char.toLower = isWhitespace := funext fun c => (toLower_blank c).1
    have htrim : trimList (text.toList.map Char.toLower) = (trimList text.toList).map Char.toLower := by
      rw [trimList, List.dropWhile_map, hblank, trimList, List.rdropWhile, List.rdropWhile, ← List.map_reverse,
        List.dropWhile_map, hblank, List.map_reverse]
    have htext : trimList text.toList = text.toList := by
      have hsame : String.ofList (trimList text.toList) = text := trim_of_pyStrip h
      have hlist := congrArg String.toList hsame
      rwa [String.toList_ofList] at hlist
    have hlower : asciiPython.lower text = String.ofList (text.toList.map Char.toLower) := rfl
    rw [hlower, trim_ofList, htrim, htext]

def pngImage : ImageInput asciiPython where
  reference := "https://host/a.png"
  mimeType := "image/png"
  reference_strip := by decide +kernel
  reference_ne := by decide
  mimeType_lower := ⟨"image/png", by decide +kernel, by decide +kernel⟩
  mimeType_image := by decide +kernel
  data := by decide +kernel

/-- An agent with a system prompt and an effort. -/
def briefAgent : PyAgent where
  thinking := ⟨some "high", none, none⟩
  systemPrompt := some "Be brief."
  thinking_normal := ⟨normal_some (by decide +kernel) (by decide), normal_none, normal_none⟩
  systemPrompt_normal := normal_some (by decide +kernel) (by decide)

def pictureCall : PyStart asciiPython where
  prompt := .parts [.text "What is this?", .image pngImage]
  sessionId := none
  systemPrompt := none
  reasoningEffort := none
  thinking := some (.bool true)
  thinkingBudget := some (.int 1024)

def pictureTable : List (Value × String) :=
  [(.array [.object [("type", .string "text"), ("text", .string "What is this?")], pngImage.toPayload],
      "[\x7b\"type\": \"text\", \"text\": \"What is this?\"\x7d, \x7b\"type\": \"image\", \"reference\": \"https://host/a.png\", \"mime_type\": \"image/png\"\x7d]"),
    ((ThinkingSettings.mk (some "high") (some "enabled") (some "1024")).toPayload.value,
      "\x7b\"reasoning_effort\": \"high\", \"thinking_mode\": \"enabled\", \"thinking_budget\": \"1024\"\x7d")]

theorem pictureTable_reads : (tableJson pictureTable).Reads (tableSerde pictureTable) where
  printed v text h _ _ := by
    obtain ⟨⟨e, he, rfl⟩, hread⟩ := tableJson_dumps (by decide +kernel) (by decide +kernel) h
    have htexts : ∀ e ∈ pictureTable, trim e.2 = e.2 ∧ e.2 ≠ "" := by decide +kernel
    exact ⟨(htexts e he).1, (htexts e he).2, hread⟩
  empty := rfl

theorem start_request_picture : ∃ native, briefAgent.start (tableJson pictureTable) pictureCall = .ok native ∧
    (NativeAgent.mk ⟨⟨"openai"⟩, "gpt-5"⟩ ⟨32, 64⟩).start (tableJson pictureTable) (tableSerde pictureTable)
      (fun _ => 0) native = .ok {
        sessionId := none
        messages := [textMessage .system "Be brief.",
          ⟨.user, [.text "What is this?", .image ⟨⟨"https://host/a.png"⟩, "image/png"⟩], [], none, none⟩]
        model := ⟨⟨"openai"⟩, "gpt-5"⟩
        sessionKey := none
        allowedTools := none
        limits := ⟨32, 64⟩
        features := ⟨false, false, some "high", some "enabled", some "1024", none, false⟩
        authority := none } := by
  have hstart : ∃ native, briefAgent.start (tableJson pictureTable) pictureCall = .ok native := ⟨_, rfl⟩
  obtain ⟨native, hnative⟩ := hstart
  obtain ⟨settings, systemPrompt, content, hsettings, hsystem, hcontent, hrequest, hsession, -⟩ :=
    start_request asciiPython_lawful pictureTable_reads hnative (fun _ => 0) ⟨⟨⟨"openai"⟩, "gpt-5"⟩, ⟨32, 64⟩⟩
  refine ⟨native, hnative, ?_⟩
  cases hsettings
  cases hsystem
  cases hcontent
  rw [hrequest, hsession rfl]
  rfl

end Aifluxon
