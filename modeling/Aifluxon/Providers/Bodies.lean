import Aifluxon.Lib.HashMap
import Aifluxon.Providers.Reading
import Aifluxon.Providers.ToolDeltas

/-!
# The bodies of requests

`build_chat_completions_body` and `build_responses_body`, with `tools.rs`.

* `messageToWire`, `buildChatCompletionsBody` : a message of the history is a message of the body;
* `replayItemsFromMessage` : the items of a saved turn that go back as they are;
* `messageToResponsesItems`, `buildResponsesBody` : a message of the history is some items of the input.
-/

namespace Aifluxon

/-- A field of an object that may be left out. -/
def optionalEntry (key : String) (value : Option Value) : List (String × Value) :=
  value.toList.map fun value => (key, value)

/-- `str::starts_with`. -/
def startsWith (start text : String) : Bool := start.toList.isPrefixOf text.toList

/-- `descriptor_to_openai_tool`, with the fields of its `function`. -/
def functionEntries (descriptor : ToolDescriptor) : List (String × Value) :=
  [("description", .string descriptor.description), ("name", .string descriptor.name),
    ("parameters", descriptor.inputSchema)]

def descriptorToOpenaiTool (descriptor : ToolDescriptor) : Value :=
  .object [("function", .object (functionEntries descriptor)), ("type", .string "function")]

def toolChoiceEntries (tools : List Value) : List (String × Value) :=
  if tools = [] then [] else [("tool_choice", .string "auto"), ("tools", .array tools)]

def imageIsFileId (reference : String) : Bool := startsWith "file-" (trim reference)

/-- A field of the provider's state of a message. -/
def Message.stateField (message : Message) (key : String) : Option Value := message.providerState.bind (Value.get key)

/-- The identifier of its call that a tool message was given. -/
def Message.namedCallId (message : Message) : Option String :=
  (((message.stateField "call_id").bind Value.asStr).map trim).filter fun id => id ≠ ""

/-! ## Chat Completions -/

def imageToChatWire (image : ImageContent) : Value :=
  if imageIsFileId image.artifact.reference then
    .object [("file_id", .string image.artifact.reference), ("type", .string "file")]
  else .object [("image_url", .object [("url", .string image.artifact.reference)]), ("type", .string "image_url")]

def contentToWire (message : Message) : Value :=
  match message.content with
  | [.text text] => .string text
  | parts => .array (parts.map fun
    | .text text => .object [("text", .string text), ("type", .string "text")]
    | .image image => imageToChatWire image)

def toolMessageCallId (message : Message) : Option String :=
  message.namedCallId.or (message.toolCallId.map fun id => hyphenated id.uuid)

def roleName : MessageRole → String
  | .system => "system"
  | .user => "user"
  | .assistant => "assistant"
  | .tool => "tool"

section
variable (codec : WireCodec)

def toolCallToWire (message : Message) (call : ToolCall) : Value :=
  let extra := ((message.stateField "tool_call_extra_content").bind (Value.get call.wireCallId)).filter Value.isObject
  .object (optionalEntry "extra_content" extra ++
    [("function", .object [("arguments", .string (codec.display call.arguments)), ("name", .string call.name)]),
      ("id", .string call.wireCallId), ("type", .string "function")])

def messageToWire (message : Message) : Value :=
  let extra := if message.role = .assistant then (message.stateField "extra_content").filter Value.isObject else none
  let toolCallId := if message.role = .tool then toolMessageCallId message else none
  let toolCalls := if message.toolCalls = [] then none
    else some (Value.array (message.toolCalls.map (toolCallToWire codec message)))
  .object ([("content", contentToWire message)] ++ optionalEntry "extra_content" extra ++
    [("role", .string (roleName message.role))] ++ optionalEntry "tool_call_id" (toolCallId.map .string) ++
    optionalEntry "tool_calls" toolCalls)

def buildChatCompletionsBody (request : ModelTurnRequest) : Value :=
  .object ([("messages", .array (request.messages.map (messageToWire codec))), ("model", .string request.model),
    ("stream", .bool true), ("stream_options", .object [("include_usage", .bool true)])] ++
    toolChoiceEntries (request.tools.map descriptorToOpenaiTool))

/-! ## Responses -/

/-- The identifiers of the calls in the items so far. -/
abbrev CallIds := HashMap ToolInvocationId String

def imageToResponsesWire (image : ImageContent) : Value :=
  if imageIsFileId image.artifact.reference then
    .object [("file_id", .string image.artifact.reference), ("type", .string "input_image")]
  else .object [("image_url", .string image.artifact.reference), ("type", .string "input_image")]

def responsesPart (textType : String) : ContentPart → Value
  | .text text => .object [("text", .string text), ("type", .string textType)]
  | .image image => imageToResponsesWire image

def responsesRole : MessageRole → String
  | .system => "system"
  | .user => "user"
  | .assistant => "assistant"
  | .tool => "user"

def responsesContent (message : Message) : Value :=
  match message.content with
  | [.text text] => .string text
  | parts => .array (parts.map (responsesPart (if message.role = .assistant then "output_text" else "input_text")))

def responsesContentIsPresent : Value → Bool
  | .string text => trim text ≠ ""
  | .array parts => parts ≠ []
  | _ => false

/-- `value_to_tool_output` and `arguments_to_responses_wire`. -/
def valueText : Value → String
  | .string text => text
  | value => codec.display value

/-- The texts of the parts of a message, one after the other. -/
def toolOutputText (message : Message) : String :=
  String.join (message.content.filterMap fun
    | .text text => some text
    | .image _ => none)

def toolOutputContent (message : Message) : Value :=
  if message.content.any fun
    | .image _ => true
    | .text _ => false
  then .array (message.content.map (responsesPart "input_text"))
  else .string (toolOutputText message)

def functionCallOutput (callId : String) (output : Value) : Value :=
  .object [("call_id", .string callId), ("output", output), ("type", .string "function_call_output")]

def resolveFunctionCallId (message : Message) (callIds : CallIds) : String :=
  ((message.namedCallId.or (message.toolCallId.bind callIds.lookup)).or
    (message.toolCallId.map fun id => hyphenated id.uuid)).getD ""

def functionCallOutputItem (message : Message) (callIds : CallIds) : Value :=
  functionCallOutput (resolveFunctionCallId message callIds) (toolOutputContent message)

/-! The items of a saved turn. -/

def functionCallOutputFromChatItem (item : Value) : Value :=
  functionCallOutput ((((item.get "tool_call_id").or (item.get "call_id")).bind Value.asStr).getD "")
    (.string ((((item.get "output").or (item.get "content")).map (valueText codec)).getD ""))

/-- An item of a saved turn as it goes back, if it does. -/
def persistedTurnItem (item : Value) : Option Value :=
  match item.getStr "role" with
  | some "tool" => some (functionCallOutputFromChatItem codec item)
  | role => match item.getStr "type" with
    | some "message" => if role = some "assistant" then some item else none
    | some "reasoning" | some "function_call" | some "function_call_output" | some "web_search_call"
    | some "custom_tool_call" | some "custom_tool_call_output" => some item
    | _ => none

def filterPersistedTurnItems (items : List Value) : List Value := items.filterMap (persistedTurnItem codec)

/-- The items that go back beside the text and the calls of their turn. -/
def isPartialReplayItem (item : Value) : Bool :=
  match item.getStr "type" with
  | some "reasoning" | some "web_search_call" => true
  | _ => false

def codexStylePartialReplayItems (items : List Value) : List Value := items.filter isPartialReplayItem

/-- An array that is not empty. -/
def nonemptyArray (value : Option Value) : Option (List Value) :=
  (value.bind Value.asArray).filter fun items => items ≠ []

/-- The items that a message replays, and whether they are all of its turn. -/
def replayItemsFromMessage (message : Message) : List Value × Bool :=
  match (nonemptyArray message.providerState).or (nonemptyArray (message.stateField "responses_turn_items")) with
  | some items => (filterPersistedTurnItems codec items, true)
  | none =>
    match ((nonemptyArray (message.stateField "response_items")).or
      (nonemptyArray (message.stateField "responses_replay_items"))).or
      (nonemptyArray (message.stateField "responses_reasoning_items")) with
    | some items => (items, false)
    | none => (((nonemptyArray (message.stateField "terminal_output")).map codexStylePartialReplayItems).getD [], false)

def recordFunctionCallIds (items : List Value) (callIds : CallIds) : CallIds :=
  items.foldl (fun callIds item =>
    if item.getStr "type" = some "function_call" then
      match ((item.getStr "call_id").map trim).filter fun id => id ≠ "" with
      | some id => callIds.insert (codec.stableKey id) id
      | none => callIds
    else callIds) callIds

/-! The items of a message. -/

def reasoningContentFromMessage (message : Message) : Option String :=
  (((message.stateField "reasoning_content").bind Value.asStr).map trim).filter fun content => content ≠ ""

def reasoningItem (reasoning : String) : Value :=
  .object [("content", .array [.object [("text", .string reasoning), ("type", .string "reasoning_text")]]),
    ("type", .string "reasoning")]

def functionCallItem (call : ToolCall) : Value :=
  .object [("arguments", .string (valueText codec call.arguments)), ("call_id", .string call.wireCallId),
    ("name", .string call.name), ("type", .string "function_call")]

def recordToolCalls (calls : List ToolCall) (callIds : CallIds) : CallIds :=
  calls.foldl (fun callIds call => callIds.insert call.id call.wireCallId) callIds

/-- What a message says beside the items that it replays and its calls. -/
def spokenItems (message : Message) (replayItems : List Value) : List Value :=
  (if replayItems = [] then (reasoningContentFromMessage message).toList.map reasoningItem else []) ++
    if responsesContentIsPresent (responsesContent message) then
      [.object [("content", responsesContent message), ("role", .string (responsesRole message.role))]]
    else []

def messageToResponsesItems (message : Message) (callIds : CallIds) : List Value × CallIds :=
  if message.role = .tool then ([functionCallOutputItem message callIds], callIds)
  else
    let (replayItems, coversFullTurn) := replayItemsFromMessage codec message
    let callIds := recordFunctionCallIds codec replayItems callIds
    if coversFullTurn then (replayItems, callIds)
    else (replayItems ++ spokenItems message replayItems ++ message.toolCalls.map (functionCallItem codec),
      recordToolCalls message.toolCalls callIds)

def responsesItems (callIds : CallIds) : List Message → List Value
  | [] => []
  | message :: messages =>
    let (items, callIds) := messageToResponsesItems codec message callIds
    items ++ responsesItems callIds messages

def singleTextContent (message : Message) : Option String :=
  match message.content with
  | [.text text] => some text
  | _ => none

/-- The texts of the system messages that a history begins with, and the rest of it. -/
def leadingInstructions : List Message → List String × List Message
  | [] => ([], [])
  | message :: messages =>
    match if message.role = .system then singleTextContent message else none with
    | some text => let (instructions, rest) := leadingInstructions messages; (text :: instructions, rest)
    | none => ([], message :: messages)

def responsesTool (descriptor : ToolDescriptor) : Value :=
  .object (functionEntries descriptor ++ [("type", .string "function")])

def buildResponsesBody (request : ModelTurnRequest) : Value :=
  let (instructions, messages) := leadingInstructions request.messages
  .object ([("input", .array (responsesItems codec ∅ messages))] ++
    optionalEntry "instructions"
      (if instructions = [] then none else some (.string (String.intercalate "\n\n" instructions))) ++
    [("model", .string request.model), ("store", .bool false), ("stream", .bool true)] ++
    toolChoiceEntries (request.tools.map responsesTool))

end

/-! ## Without tools -/

def fallbackText : String :=
  "Tool mode is unavailable for this DeepSeek request. Do not call tools. Answer based on the provided conversation and active file context only."

/-- The request that is sent again when its tools have failed. -/
def fallbackRequest (request : ModelTurnRequest) : ModelTurnRequest :=
  { request with
    tools := []
    messages := request.messages ++ [⟨.system, [.text fallbackText], [], none, none⟩] }

end Aifluxon
