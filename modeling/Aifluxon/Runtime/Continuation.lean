import Aifluxon.Runtime.Tools

/-!
# Messages of the agent loop

The messages that `coordinator.rs` and `continuation.rs` append to a request.
-/

namespace Aifluxon

namespace Value

/-- `value.get(key)`. -/
def get (key : String) : Value → Option Value
  | .object entries => entries.lookup key
  | _ => none

def asStr : Value → Option String
  | .string s => some s
  | _ => none

def asArray : Value → Option (List Value)
  | .array items => some items
  | _ => none

end Value

/-- `(!value.is_null()).then(..)`. -/
def notNull (value : Value) : Option Value := if value.isNull then none else some value

def assistantMessage (turn : ModelTurn) : Message where
  role := .assistant
  content := if turn.text = "" then [] else [.text turn.text]
  toolCalls := turn.toolCalls
  toolCallId := none
  providerState := notNull turn.opaqueValue

/-- The identifier that the provider gave a call, if it is not blank. -/
def ToolCall.wireId (call : ToolCall) : Option String :=
  (call.providerCallId.map trim).filter fun id => id ≠ ""

/-- A result without content is sent as the text of its value. -/
def ToolResult.parts (serde : Serde) (result : ToolResult) : List ContentPart :=
  match result.content with
  | some (part :: parts) => part :: parts
  | some [] | none => [.text (serde.display result.value)]

def toolMessage (serde : Serde) (call : ToolCall) (result : ToolResult) : Message where
  role := .tool
  content := result.parts serde
  toolCalls := []
  toolCallId := some call.id
  providerState := call.wireId.map fun id => .object [("call_id", .string id)]

/-- `json!({ "ok": false, "error": reason })`. -/
def errorValue (reason : String) : Value :=
  .object [("error", .string reason), ("ok", .bool false)]

structure RunExecutionResult where
  turn : ModelTurn
  messages : List Message
  deriving DecidableEq

def completeWithoutTools (messages : List Message) (turn : ModelTurn) : RunExecutionResult where
  turn := turn
  messages :=
    if turn.text ≠ "" ∨ turn.reasoning ≠ "" ∨ ¬ turn.opaqueValue.isNull then
      messages ++ [assistantMessage turn]
    else messages

/-! ## Continuations -/

def assistantContinuationMessage (turn : ModelTurn) : Message := assistantMessage turn

/-- The `hidden_context` of a turn. -/
def hiddenContext (turn : ModelTurn) : String :=
  trim (((turn.opaqueValue.get "hidden_context").bind Value.asStr).getD "")

def continuationPromptText (reason : ContinuationReason) (turn : ModelTurn) : String :=
  match reason with
  | .incomplete =>
    "The previous assistant message promised or prepared to inspect, search, read, run, verify, or edit, but it did not include a tool call. Continue the same user request now by calling the necessary tool or tools. Do not restate intent and do not give a final answer until the required tool work is actually complete."
  | .summaryOnly =>
    "The previous response contained only an internal summary, not a user-facing answer. Treat the following summary as hidden context and continue the same user request by giving a concise final answer. Do not include internal recap sections in the user-visible answer.\n\nHidden summary:\n" ++
      hiddenContext turn
  | .providerRequested => "Continue the same turn; the previous response was not terminal."

def continuationPrompt (reason : ContinuationReason) (turn : ModelTurn) : Message where
  role := .system
  content := [.text (continuationPromptText reason turn)]
  toolCalls := []
  toolCallId := none
  providerState := none

def hasReplayItems (turn : ModelTurn) : Bool :=
  match ((turn.opaqueValue.get "response_items").or
    (turn.opaqueValue.get "responses_replay_items")).bind Value.asArray with
  | some (_ :: _) => true
  | some [] | none => false

/-- The messages that continue a turn. -/
def continuationMessages (turn : ModelTurn) : ContinuationReason → List Message
  | .incomplete => [assistantContinuationMessage turn, continuationPrompt .incomplete turn]
  | .summaryOnly => [continuationPrompt .summaryOnly turn]
  | .providerRequested =>
    if trim turn.text ≠ "" ∨ hasReplayItems turn then [assistantContinuationMessage turn]
    else [continuationPrompt .providerRequested turn]

def applyContinuation (request : ModelTurnRequest) (turn : ModelTurn) (reason : ContinuationReason) :
    ModelTurnRequest :=
  { request with
    opaqueState := some turn.opaqueValue
    messages := request.messages ++ continuationMessages turn reason }

end Aifluxon
