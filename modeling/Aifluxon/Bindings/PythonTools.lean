import Aifluxon.Bindings.PythonStarts

/-!
# Tools of Python

What a tool of Python gives back to the runtime: `_tool_bridge` and `_normalize_tool_result` of `agent.py`,
and `PythonToolExecutor` of `lib.rs`.

* `PyReturn`, `normalizeToolResult`, `toolBridge` : what a function returns, and what leaves Python of it;
* `parsePythonToolResult`, `PythonToolExecutor.execute` : what Rust reads of it;
* `PyReturn.outcome` : the result that a return is meant to be;
* `parse_envelope`, `normalize_read` : Rust reads that result;
* `tool_result` : the result of a tool, from its arguments to its content.
-/

namespace Aifluxon

open Value

/-! ## What leaves Python -/

/-- What a function of Python returns or raises. A sequence that is no list, and a value of another type, are known
by their `str`. -/
inductive PyReturn (py : PyText) where
  | nothing
  | dict (d : PyDict)
  | text (s : String)
  | bool (b : Bool)
  | number (n : Number)
  | image (i : ImageInput py)
  | list (items : List (PyPart py))
  | sequence (items : List (PyPart py)) (shown : String)
  | other (shown : String)
  | raised (error : PyError)

section Bridge
variable {py : PyText}

def PyPart.isImage : PyPart py → Bool
  | .image _ => true
  | _ => false

/-- An item of a list of texts. -/
def PyPart.plain : PyPart py → Value
  | .text s => .string s
  | _ => .null

def resultKey : String := "$aifluxon_tool_result"

def envelope (multimodal : List Value) : PyDict where
  entries := [(resultKey, .object [("content", .array multimodal), ("value", .object [("content", .array multimodal)])])]
  nodup := by simp

def resultOf (value : Value) : PyDict where
  entries := [("result", value)]
  nodup := by simp

def okResult : PyDict where
  entries := [("ok", .bool true)]
  nodup := by simp

/-- A sequence with images is content, and another is a result like any value. -/
def normalizeSequence (items : List (PyPart py)) (shown : Value) : Except PyError PyDict :=
  match normalizePromptInput (.parts items) with
  | .error error => .error error
  | .ok (.parts payload) => .ok (if items.any PyPart.isImage then envelope payload else resultOf shown)
  | .ok (.text _) => .ok (resultOf shown)

/-- `_normalize_tool_result`. -/
def normalizeToolResult : PyReturn py → Except PyError PyDict
  | .image i => .ok (envelope [i.toPayload])
  | .list items => normalizeSequence items (.array (items.map PyPart.plain))
  | .sequence items shown => normalizeSequence items (.string shown)
  | .nothing => .ok okResult
  | .dict d => .ok d
  | .text s => .ok (resultOf (.string s))
  | .bool b => .ok (resultOf (.bool b))
  | .number n => .ok (resultOf (.number n))
  | .other shown => .ok (resultOf (.string shown))
  | .raised error => .error error

/-- `call` of `_tool_bridge`, for a function on its arguments. -/
def toolBridge (json : PyJson) (fn : Value → PyReturn py) (argumentsJson : String) : Except PyError String := do
  let arguments ← bridgeArguments json argumentsJson
  if arguments.isObject then
    let result ← normalizeToolResult (fn arguments)
    json.dumps result.value
  else .error ⟨"TypeError", "Tool arguments must be a JSON object.", ""⟩

end Bridge

/-! ## What Rust reads -/

/-- `{:?}` of the kind of an error. -/
def AifluxonErrorKind.debug : AifluxonErrorKind → String
  | .invalidConfiguration => "InvalidConfiguration"
  | .invalidRequest => "InvalidRequest"
  | .provider => "Provider"
  | .tool => "Tool"
  | .policyDenied => "PolicyDenied"
  | .operationPending => "OperationPending"
  | .operationRejected => "OperationRejected"
  | .cancelled => "Cancelled"
  | .budgetExceeded => "BudgetExceeded"
  | .stateConflict => "StateConflict"
  | .runtimeUnavailable => "RuntimeUnavailable"
  | .failed => "Failed"
  | .internal => "Internal"

section Native
variable (json : PyJson) (serde : Serde)

/-- `native_error`. -/
def nativeError (error : AifluxonError) : PyError :=
  ⟨"RuntimeError", serde.display (.object [("kind", .string error.kind.debug), ("message", .string error.message)]), ""⟩

def parsePythonToolResult (value : Value) : Except ToolExecutionError ToolResult :=
  match value.get resultKey with
  | none => .ok (.fromValue value)
  | some envelope =>
    let contentValue := (envelope.get "content").getD .null
    match parseContentParts json serde (serde.display contentValue) with
    | .error error => .error (.failed (nativeError serde error).display)
    | .ok content =>
      .ok ⟨(envelope.get "value").getD (.object [("content", contentValue)]), some content⟩

/-- `execute`, on what the callback returns or raises. -/
def PythonToolExecutor.execute (answer : Except PyError String) : Except ToolExecutionError ToolResult :=
  match answer with
  | .error error => .error (.failed error.display)
  | .ok text => parsePythonToolResult json serde ((serde.fromStr text).getD (resultOf (.string text)).value)

end Native

/-! ## What is meant -/

section Meant
variable {py : PyText}

/-- What a part is in the value of a result. -/
def ContentPart.payload : ContentPart → Value
  | .text s => canonical (.object [("type", .string "text"), ("text", .string s)])
  | .image content => canonical (.object [("type", .string "image"), ("reference", .string content.artifact.reference),
      ("mime_type", .string content.mimeType)])

/-- The result that shows some content. -/
def shownResult (content : List ContentPart) : ToolResult :=
  ⟨.object [("content", .array (content.map ContentPart.payload))], some content⟩

def valueResult (dict : PyDict) : ToolResult := .fromValue dict.value.canonical

/-- The result of a sequence: one with images is shown, one with texts alone is a value, and another is none. -/
def sequenceOutcome (items : List (PyPart py)) (shown : Value) : Option ToolResult :=
  match PyPrompt.content (.parts items) with
  | none => none
  | some content => some (if items.any PyPart.isImage then shownResult content else valueResult (resultOf shown))

/-- **The result** that a return is meant to be; a function that raises has none. -/
def PyReturn.outcome : PyReturn py → Option ToolResult
  | .nothing => some (valueResult okResult)
  | .dict d => some (valueResult d)
  | .text s => some (valueResult (resultOf (.string s)))
  | .bool b => some (valueResult (resultOf (.bool b)))
  | .number n => some (valueResult (resultOf (.number n)))
  | .image i => some (shownResult [i.content])
  | .list items => sequenceOutcome items (.array (items.map PyPart.plain))
  | .sequence items shown => sequenceOutcome items (.string shown)
  | .other shown => some (valueResult (resultOf (.string shown)))
  | .raised _ => none

/-- A return whose value Rust reads exactly: no float, not nested too deeply, and no dictionary under the key of the
runtime. -/
def PyReturn.Plain : PyReturn py → Prop
  | .dict d => d.value.get resultKey = none ∧ d.value.Integral ∧ d.value.depth ≤ recursionLimit
  | .number n => (Value.number n).Integral
  | _ => True

/-- The content of a return that Rust prints and reads once more. -/
def PyReturn.sent : PyReturn py → Option (List Value)
  | .image i => some [i.toPayload]
  | .list items | .sequence items _ => (payloadFrom 0 items).toOption
  | _ => none

end Meant

/-! ## What comes back -/

section Read
variable {py : PyText} {json : PyJson} {serde : Serde}

theorem payloadFrom_payload {items : List (PyPart py)} {index : Nat} {payload : List Value}
    {contents : List ContentPart} (h : payloadFrom index items = .ok payload)
    (hcontents : items.mapM PyPart.content = some contents) :
    payload.map canonical = contents.map ContentPart.payload := by
  induction items generalizing index payload contents with
  | nil =>
    cases h
    cases hcontents
    rfl
  | cons item items ih =>
    obtain ⟨value, hvalue, h⟩ := ok_of_bind h
    obtain ⟨rest, hrest, h⟩ := ok_of_bind h
    cases h
    rw [List.mapM_cons] at hcontents
    obtain ⟨content, hcontent, hcontents⟩ := Option.bind_eq_some_iff.1 hcontents
    obtain ⟨others, hothers, hcontents⟩ := Option.bind_eq_some_iff.1 hcontents
    cases hcontents
    rw [List.map_cons, List.map_cons, ih hrest hothers]
    congr 1
    cases item with
    | text | image =>
      cases hvalue
      cases hcontent
      rfl
    | other => cases hvalue

theorem parse_plain {dict : PyDict} (h : dict.value.get resultKey = none) :
    parsePythonToolResult json serde dict.value.canonical = .ok (valueResult dict) := by
  have hget : dict.value.canonical.get resultKey = none := by
    rw [PyDict.value, get_canonical dict.nodup]
    exact Option.map_eq_none_iff.2 h
  unfold parsePythonToolResult
  rw [hget]
  rfl

/-- **Content** that is sent in an envelope is read as it is. -/
theorem parse_envelope (hpy : py.Lawful) {items : List (PyPart py)} (hne : items ≠ []) {payload : List Value}
    (hpayload : payloadFrom 0 items = .ok payload)
    (hreread : serde.fromStr (serde.display (canonical (.array payload))) = some (canonical (.array payload))) :
    ∃ content, PyPrompt.content (.parts items) = some content ∧
      parsePythonToolResult json serde (envelope payload).value.canonical = .ok (shownResult content) := by
  obtain ⟨content, hcontent, hparse⟩ := @parseContentParts_payload py json serde hpy items hne payload hpayload _ hreread
  refine ⟨content, ?_, ?_⟩
  · cases items with
    | nil => exact absurd rfl hne
    | cons item items => exact hcontent
  have hinner : ([("content", Value.array payload), ("value", .object [("content", .array payload)])].map
    Prod.fst).Nodup := by simp
  have hvalue : canonical (.object [("content", .array payload)]) =
      .object [("content", .array (content.map ContentPart.payload))] := by
    rw [← payloadFrom_payload hpayload hcontent, canonical, canonicalEntries, canonicalEntries, canonical,
      canonicalItems_eq_map]
    rfl
  unfold parsePythonToolResult
  rw [PyDict.value, get_canonical (envelope payload).nodup]
  have hlookup : (envelope payload).entries.lookup resultKey =
      some (.object [("content", .array payload), ("value", .object [("content", .array payload)])]) := rfl
  rw [hlookup, Option.map_some]
  have hcontentValue := get_canonical hinner "content"
  have hvalueValue := get_canonical hinner "value"
  simp only [hcontentValue, hvalueValue]
  have hfirst : [("content", Value.array payload), ("value", .object [("content", .array payload)])].lookup "content" =
      some (.array payload) := rfl
  have hsecond : [("content", Value.array payload), ("value", .object [("content", .array payload)])].lookup "value" =
      some (.object [("content", .array payload)]) := rfl
  rw [hfirst, hsecond]
  simp only [Option.map_some, Option.getD_some, hparse, hvalue, shownResult]

theorem normalizePromptInput_cons (item : PyPart py) (items : List (PyPart py)) :
    normalizePromptInput (.parts (item :: items)) = NormalPrompt.parts <$> payloadFrom 0 (item :: items) := rfl

theorem resultOf_key (value : Value) : (resultOf value).value.get resultKey = none := rfl

theorem resultOf_integral {value : Value} (h : value.Integral) (hdepth : value.depth ≤ 1) :
    (resultOf value).value.Integral ∧ (resultOf value).value.depth ≤ recursionLimit := by
  refine ⟨⟨h, trivial⟩, ?_⟩
  simp only [resultOf, PyDict.value, depth, depthEntries, recursionLimit]
  omega

theorem plain_integral (items : List (PyPart py)) : (Value.array (items.map PyPart.plain)).Integral ∧
    (Value.array (items.map PyPart.plain)).depth ≤ 1 := by
  induction items with
  | nil => exact ⟨trivial, le_rfl⟩
  | cons item items ih =>
    simp only [depth, Integral] at ih
    simp only [List.map_cons, depth, depthItems, Integral, IntegralItems]
    cases item <;> exact ⟨⟨trivial, ih.1⟩, by simp only [PyPart.plain, depth]; omega⟩

theorem envelope_integral {payload : List Value} (h : IntegralItems payload) (hdepth : depthItems payload ≤ 1) :
    (envelope payload).value.Integral ∧ (envelope payload).value.depth ≤ recursionLimit := by
  refine ⟨⟨⟨h, ⟨h, trivial⟩, trivial⟩, trivial⟩, ?_⟩
  simp only [envelope, PyDict.value, depth, depthEntries, recursionLimit]
  omega

/-- A sequence that Python sends. -/
theorem normalizeSequence_read (hpy : py.Lawful) {items : List (PyPart py)} {shown : Value} {dict : PyDict}
    (h : normalizeSequence items shown = .ok dict) (hshown : shown.Integral) (hdepth : shown.depth ≤ 1)
    (hreread : ∀ payload, (payloadFrom 0 items).toOption = some payload →
      serde.fromStr (serde.display (canonical (.array payload))) = some (canonical (.array payload))) :
    (dict.value.Integral ∧ dict.value.depth ≤ recursionLimit) ∧
      ∃ result, sequenceOutcome items shown = some result ∧
        parsePythonToolResult json serde dict.value.canonical = .ok result := by
  unfold normalizeSequence at h
  cases items with
  | nil => cases h
  | cons item items =>
    cases hpayload : payloadFrom 0 (item :: items) with
    | error error =>
      have hprompt : normalizePromptInput (.parts (item :: items)) = .error error := by
        rw [normalizePromptInput_cons, hpayload]
        rfl
      rw [hprompt] at h
      cases h
    | ok payload =>
      have hprompt : normalizePromptInput (.parts (item :: items)) = .ok (.parts payload) := by
        rw [normalizePromptInput_cons, hpayload]
        rfl
      rw [hprompt] at h
      cases h
      obtain ⟨-, hintegral, hpayloadDepth, -⟩ := payloadFrom_ok hpy hpayload
      obtain ⟨content, hcontent, hparse⟩ := @parse_envelope py json serde hpy _ (List.cons_ne_nil item items) payload
        hpayload (hreread payload (by rw [hpayload]; rfl))
      unfold sequenceOutcome
      rw [hcontent]
      by_cases himage : (item :: items).any PyPart.isImage = true
      · rw [if_pos himage]
        refine ⟨envelope_integral hintegral hpayloadDepth, _, rfl, ?_⟩
        simp only [if_pos himage]
        exact hparse
      · rw [if_neg himage]
        refine ⟨resultOf_integral hshown hdepth, _, rfl, ?_⟩
        simp only [if_neg himage]
        exact parse_plain (resultOf_key shown)

/-- **What Python sends** of a return is read as the result that it is meant to be. -/
theorem normalizeToolResult_read (hpy : py.Lawful) {r : PyReturn py} {dict : PyDict}
    (h : normalizeToolResult r = .ok dict) (hplain : r.Plain)
    (hreread : ∀ payload, r.sent = some payload →
      serde.fromStr (serde.display (canonical (.array payload))) = some (canonical (.array payload))) :
    (dict.value.Integral ∧ dict.value.depth ≤ recursionLimit) ∧
      ∃ result, r.outcome = some result ∧ parsePythonToolResult json serde dict.value.canonical = .ok result := by
  cases r with
  | nothing =>
    cases h
    exact ⟨⟨⟨trivial, trivial⟩, by decide⟩, _, rfl, parse_plain rfl⟩
  | dict d =>
    cases h
    exact ⟨hplain.2, _, rfl, parse_plain hplain.1⟩
  | text s =>
    cases h
    exact ⟨resultOf_integral trivial (Nat.zero_le _), _, rfl, parse_plain (resultOf_key _)⟩
  | bool b =>
    cases h
    exact ⟨resultOf_integral trivial (Nat.zero_le _), _, rfl, parse_plain (resultOf_key _)⟩
  | number n =>
    cases h
    exact ⟨resultOf_integral hplain (Nat.zero_le _), _, rfl, parse_plain (resultOf_key _)⟩
  | image i =>
    cases h
    have hpayload : payloadFrom 0 [PyPart.image i] = .ok [i.toPayload] := rfl
    obtain ⟨-, hintegral, hdepth, -⟩ := payloadFrom_ok hpy hpayload
    obtain ⟨content, hcontent, hparse⟩ := @parse_envelope py json serde hpy _ (List.cons_ne_nil _ _) _ hpayload
      (hreread _ rfl)
    cases hcontent
    exact ⟨envelope_integral hintegral hdepth, _, rfl, hparse⟩
  | list items =>
    exact normalizeSequence_read hpy h (plain_integral items).1 (plain_integral items).2 hreread
  | sequence items shown => exact normalizeSequence_read hpy h trivial (Nat.zero_le _) hreread
  | other shown =>
    cases h
    exact ⟨resultOf_integral trivial (Nat.zero_le _), _, rfl, parse_plain (resultOf_key _)⟩
  | raised error => cases h

theorem normalizeSequence_none (hpy : py.Lawful) {items : List (PyPart py)} {shown : Value}
    (h : sequenceOutcome items shown = none) : ∃ error, normalizeSequence items shown = .error error := by
  unfold normalizeSequence
  cases items with
  | nil => exact ⟨_, rfl⟩
  | cons item items =>
    cases hpayload : payloadFrom 0 (item :: items) with
    | error error =>
      rw [normalizePromptInput_cons, hpayload]
      exact ⟨_, rfl⟩
    | ok payload =>
      exfalso
      obtain ⟨-, -, -, contents, hcontents, -⟩ := payloadFrom_ok hpy hpayload
      have hcontent : PyPrompt.content (.parts (item :: items)) = some contents := hcontents
      rw [sequenceOutcome, hcontent] at h
      cases h

/-- What is meant to have no result fails in Python. -/
theorem normalizeToolResult_none (hpy : py.Lawful) {r : PyReturn py} (h : r.outcome = none) :
    ∃ error, normalizeToolResult r = .error error := by
  cases r with
  | list items => exact normalizeSequence_none hpy h
  | sequence items shown => exact normalizeSequence_none hpy h
  | raised error => exact ⟨error, rfl⟩
  | nothing | dict | text | bool | number | image | other => cases h

/-- **A tool of Python** is called with the arguments of the invocation, and has the result that its return
is meant to be: images and texts as content, if there is an image, and other values as they are. It fails
if the function raises, or returns a sequence that is empty or holds something else. -/
theorem tool_result (hpy : py.Lawful) (hlawful : json.Lawful serde) (hjson : json.Reads serde)
    (fn : Value → PyReturn py) {arguments : Value} (hsorted : arguments.Sorted) (hintegral : arguments.Integral)
    (hdepth : arguments.depth ≤ recursionLimit) (hplain : (fn arguments).Plain)
    (hreread : ∀ payload, (fn arguments).sent = some payload →
      serde.fromStr (serde.display (canonical (.array payload))) = some (canonical (.array payload))) :
    (∀ text, toolBridge json fn (serde.display arguments) = .ok text → ∃ result, (fn arguments).outcome = some result ∧
      PythonToolExecutor.execute json serde (toolBridge json fn (serde.display arguments)) = .ok result) ∧
    ((fn arguments).outcome = none → ∃ message,
      PythonToolExecutor.execute json serde (toolBridge json fn (serde.display arguments)) = .error (.failed message)) := by
  have hbridge (text : String) (h : toolBridge json fn (serde.display arguments) = .ok text) :
      ∃ dict, normalizeToolResult (fn arguments) = .ok dict ∧ json.dumps dict.value = .ok text := by
    obtain ⟨arguments', harguments, hcall⟩ := ok_of_bind h
    rw [bridgeArguments, if_neg (hlawful.display_ne _)] at harguments
    have hsame : arguments' = arguments := hlawful.loads _ _ harguments hsorted hintegral hdepth
    subst hsame
    by_cases hobject : arguments'.isObject = true
    · rw [if_pos hobject] at hcall
      obtain ⟨dict, hdict, hdumps⟩ := ok_of_bind hcall
      exact ⟨dict, hdict, hdumps⟩
    · rw [if_neg hobject] at hcall
      cases hcall
  constructor
  · intro text htext
    obtain ⟨dict, hdict, hdumps⟩ := hbridge text htext
    obtain ⟨⟨hvalue, hshallow⟩, result, houtcome, hparse⟩ :=
      @normalizeToolResult_read py json serde hpy _ dict hdict hplain hreread
    refine ⟨result, houtcome, ?_⟩
    obtain ⟨-, -, hread⟩ := hjson.printed _ text hdumps hvalue hshallow
    rw [htext, PythonToolExecutor.execute]
    simp only [hread, Option.getD_some, hparse]
  · intro hnone
    cases hanswer : toolBridge json fn (serde.display arguments) with
    | error error => exact ⟨_, rfl⟩
    | ok text =>
      obtain ⟨dict, hdict, -⟩ := hbridge text hanswer
      obtain ⟨error, herror⟩ := normalizeToolResult_none hpy hnone
      rw [hdict] at herror
      cases herror

end Read

/-! ### A tool that shows a picture -/

def drawPayload : List Value := [.object [("type", .string "text"), ("text", .string "Here:")], pngImage.toPayload]

def drawContent : String :=
  "[\x7b\"text\":\"Here:\",\"type\":\"text\"\x7d,\x7b\"mime_type\":\"image/png\",\"reference\":\"https://host/a.png\",\"type\":\"image\"\x7d]"

/-- What `json.dumps` prints of the content. -/
def drawPrinted : String :=
  "[\x7b\"type\": \"text\", \"text\": \"Here:\"\x7d, \x7b\"type\": \"image\", \"reference\": \"https://host/a.png\", \"mime_type\": \"image/png\"\x7d]"

def drawTable : List (Value × String) :=
  [((envelope drawPayload).value,
      "\x7b\"$aifluxon_tool_result\": \x7b\"content\": " ++ drawPrinted ++ ", \"value\": \x7b\"content\": " ++ drawPrinted ++
        "\x7d\x7d\x7d"),
    (.array drawPayload, drawContent)]

def drawSerde : Serde :=
  { tableSerde drawTable with display := fun v => if v = .object [] then "{}" else drawContent }

theorem drawTable_lawful : (tableJson drawTable).Lawful drawSerde where
  field := (tableJson_lawful (by decide +kernel) (by decide +kernel)).field
  fromStr := (tableJson_lawful (by decide +kernel) (by decide +kernel)).fromStr
  loads v read h _ _ _ := by
    by_cases hv : v = .object []
    · subst hv
      cases h
      rfl
    · simp only [drawSerde, if_neg hv] at h
      cases h
  display_ne v := by
    simp only [drawSerde]
    split <;> decide

theorem drawTable_reads : (tableJson drawTable).Reads drawSerde where
  printed v text h _ _ := by
    obtain ⟨⟨e, he, rfl⟩, hread⟩ := tableJson_dumps (by decide +kernel) (by decide +kernel) h
    have htexts : ∀ e ∈ drawTable, trim e.2 = e.2 ∧ e.2 ≠ "" := by decide +kernel
    exact ⟨(htexts e he).1, (htexts e he).2, hread⟩
  empty := rfl

theorem tool_result_drawn : PythonToolExecutor.execute (tableJson drawTable) drawSerde
    (toolBridge (tableJson drawTable) (fun _ => .list [.text "Here:", .image pngImage]) (drawSerde.display (.object []))) =
      .ok (shownResult [.text "Here:", .image ⟨⟨"https://host/a.png"⟩, "image/png"⟩]) := by
  obtain ⟨result, houtcome, hresult⟩ := (@tool_result asciiPython (tableJson drawTable) drawSerde
    asciiPython_lawful drawTable_lawful drawTable_reads (fun _ => .list [.text "Here:", .image pngImage])
    (.object []) ⟨.nil, trivial⟩ trivial (by decide) trivial
    (fun payload hpayload => by
      cases hpayload
      decide +kernel)).1 _ rfl
  rw [hresult]
  cases houtcome
  rfl

end Aifluxon
