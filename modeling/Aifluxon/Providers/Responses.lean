import Aifluxon.Lib.HashMap
import Aifluxon.Providers.ChatCompletions

/-!
# Responses turns

`ResponsesTurnAssembler` of `responses.rs`.

* `terminalStatus`, `terminalSnapshot`, `textPartKey`, … : what the assembler reads of a value;
* `ReplayState`, `GeneratedArtifactState` : the items that are sent back, and the images;
* `ResponsesTurnAssembler.applyValue` : an event of a stream, or a buffered response;
* `ResponsesTurnAssembler.finishChecked` : the turn, if the response has completed.
-/

namespace Aifluxon

/-! ## What is read of a value -/

/-- The type of an event, of an item or of a content part. -/
def eventType (value : Value) : Option String := value.getStr "type"

/-- The response that a value carries, or is. -/
def responseOf (value : Value) : Value := (value.get "response").getD value

def looksLikeResponsesStreamValue (value : Value) : Bool :=
  (eventType value).any (fun type => type = "error" ∨ "response.".toList.isPrefixOf type.toList) ||
    ((value.get "output").bind Value.asArray).isSome || value.getStr "object" == some "response"

def eventKey (codec : WireCodec) (value : Value) : Option String :=
  ((value.get "sequence_number").or (value.get "event_id")).map codec.display

/-- The part of a message that an event belongs to. -/
def textPartKey (value : Value) : String :=
  let item := (value.getStr "item_id").getD
    ("output:" ++ toString (((value.get "output_index").bind Value.asU64).getD 0))
  let contentIndex := (((value.get "summary_index").or (value.get "content_index")).bind Value.asU64).getD 0
  item ++ ":" ++ toString contentIndex

def terminalSnapshot (value : Value) : Option Value :=
  if ((value.get "output").bind Value.asArray).isSome then some value
  else match eventType value with
    | some "response.completed" | some "response.done" | some "response.incomplete" => value.get "response"
    | _ => none

inductive ResponsesTerminalStatus where
  | completed
  | incomplete
  | failed
  deriving DecidableEq

/-- A status other than success in the payload comes before the label of the event. -/
def terminalStatus (value : Value) : Option ResponsesTerminalStatus :=
  match (responseOf value).getStr "status" with
  | some "incomplete" => some .incomplete
  | some "failed" | some "cancelled" => some .failed
  | status => match eventType value with
    | some "response.completed" | some "response.done" => some .completed
    | some "response.incomplete" => some .incomplete
    | some "response.failed" | some "response.cancelled" | some "error" => some .failed
    | _ =>
      if (responseOf value).getStr "object" = some "response" ∧ status = some "completed" then some .completed
      else none

/-- The identifier of an item, or of its call. -/
def itemId (item : Value) : Option String := ((item.get "id").or (item.get "call_id")).bind Value.asStr

def replayItemKey (item : Value) : Option String :=
  match eventType item, itemId item with
  | some type, some id => some (type ++ ":" ++ id)
  | _, _ => none

def usageFromResponses (value : Value) : Option Value :=
  (((value.get "response").bind (Value.getSome "usage"))).or (usageValue value)

/-- The text of a content part. -/
def contentPartText (content : Value) : Option (List Char) :=
  match eventType content with
  | some "output_text" | some "refusal" =>
    ((((content.get "text").or (content.get "output_text")).or (content.get "refusal")).bind Value.asStr).map
      String.toList
  | _ => none

/-- The text of the parts of an item, if it is a message. -/
def messageItemText (item : Value) : List Char :=
  if eventType item = some "message" then
    (((item.get "content").bind Value.asArray).getD []).flatMap fun content => (contentPartText content).getD []
  else []

def extractResponsesOutputText (value : Value) : List Char :=
  match value.getStr "output_text" with
  | some text => text.toList
  | none => (((value.get "output").bind Value.asArray).getD []).flatMap messageItemText

/-- The message of a failed response. -/
def failureMessage (value : Value) : String :=
  ((((value.pointer ["response", "error", "message"]).or (value.pointer ["error", "message"])).or
    (value.get "message")).bind Value.asStr).getD "Responses stream failed."

/-! ## Items -/

structure ReplayState where
  items : List Value
  deriving DecidableEq

/-- The first item that meets a condition is replaced, or the item is added. -/
def upsertBy (p : Value → Bool) (item : Value) : List Value → List Value
  | [] => [item]
  | x :: xs => if p x then item :: xs else x :: upsertBy p item xs

def ReplayState.upsert (replay : ReplayState) (item : Value) : ReplayState :=
  match replayItemKey item with
  | none => if item ∈ replay.items then replay else ⟨replay.items ++ [item]⟩
  | some key => ⟨upsertBy (fun existing => replayItemKey existing = some key) item replay.items⟩

structure GeneratedArtifact where
  id : Option String
  result : String
  revisedPrompt : Option String
  deriving DecidableEq

structure GeneratedArtifactState where
  images : List GeneratedArtifact
  seen : List String
  deriving DecidableEq

/-- A text without the blanks around it, if there is more of it. -/
def trimmed (text : Option String) : Option String := (text.map trim).filter fun text => text ≠ ""

/-- The image of an item. -/
def generatedArtifact (item : Value) : Option GeneratedArtifact :=
  if eventType item = some "image_generation_call" then
    (trimmed (item.getStr "result")).map fun result =>
      ⟨trimmed (itemId item), result, trimmed (item.getStr "revised_prompt")⟩
  else none

def GeneratedArtifact.key (codec : WireCodec) (image : GeneratedArtifact) : String :=
  image.id.getD ("result-" ++ codec.hashHex image.result)

def GeneratedArtifactState.capture (codec : WireCodec) (artifacts : GeneratedArtifactState) (item : Value) :
    GeneratedArtifactState :=
  match generatedArtifact item with
  | none => artifacts
  | some image =>
    if image.key codec ∈ artifacts.seen then artifacts
    else ⟨artifacts.images ++ [image], image.key codec :: artifacts.seen⟩

def GeneratedArtifact.toJson (image : GeneratedArtifact) : Value :=
  .object [("id", jsonOption image.id), ("result", .string image.result),
    ("revised_prompt", jsonOption image.revisedPrompt)]

/-! ## The assembler -/

structure ResponsesTurnState where
  lastSequenceNumber : Option Nat
  seenEventKeys : List String
  reasoningParts : HashMap String TextDeltaReconciler
  reasoningSummaryParts : HashMap String TextDeltaReconciler
  outputParts : HashMap String TextDeltaReconciler
  tools : ToolCallAssembler
  replay : ReplayState
  artifacts : GeneratedArtifactState
  usage : Option Value
  terminal : Option ResponsesTerminalStatus
  incompleteReason : Option String
  endTurn : Option Bool
  sawOutputDone : Bool
  terminalOutputItems : List Value
  text : List Char
  reasoning : List Char

structure ResponsesTurnAssembler where
  allowCumulativeDelta : Bool
  state : ResponsesTurnState

namespace ResponsesTurnState

def new : ResponsesTurnState :=
  ⟨none, [], ∅, ∅, ∅, .default, ⟨[]⟩, ⟨[], []⟩, none, none, none, none, false, [], [], []⟩

variable (codec : WireCodec) (s : ResponsesTurnState)

/-- Whether an event is new. -/
def acceptEvent (value : Value) : Except ProviderError (Bool × ResponsesTurnState) :=
  match (value.get "sequence_number").bind Value.asU64 with
  | some sequence =>
    match s.lastSequenceNumber with
    | some previous =>
      if sequence = previous then .ok (false, s)
      else if sequence < previous then
        .error ⟨"Responses stream sequence_number " ++ toString sequence ++ " arrived after " ++
          toString previous ++ "."⟩
      else .ok (true, { s with lastSequenceNumber := some sequence })
    | none => .ok (true, { s with lastSequenceNumber := some sequence })
  | none => match eventKey codec value with
    | some key =>
      if key ∈ s.seenEventKeys then .ok (false, s) else .ok (true, { s with seenEventKeys := key :: s.seenEventKeys })
    | none => .ok (true, s)

def applyStatus (status : Option ResponsesTerminalStatus) : ResponsesTurnState :=
  { s with terminal := status.or s.terminal }

/-- Once the stream has a status, the response says whether the turn ends, and why it is incomplete. -/
def applyTerminal (value : Value) : ResponsesTurnState :=
  if s.terminal = none then s
  else
    let terminal := responseOf value
    { s with
      endTurn := ((terminal.get "end_turn").bind Value.asBool).or s.endTurn
      incompleteReason :=
        if s.terminal = some .incomplete then
          ((((terminal.pointer ["incomplete_details", "reason"]).or
            (terminal.pointer ["error", "message"])).bind Value.asStr).or (some "incomplete"))
        else s.incompleteReason }

def applyUsage (usage : Option Value) : Sunk ResponsesTurnState :=
  match usage with
  | none => (s, [])
  | some usage => ({ s with usage := some usage }, [.usage usage])

/-- The deltas of one kind of parts: where they are kept, and where their text goes. -/
inductive PartKind where
  | reasoningSummary
  | reasoning
  | output
  deriving DecidableEq

def parts : PartKind → HashMap String TextDeltaReconciler
  | .reasoningSummary => s.reasoningSummaryParts
  | .reasoning => s.reasoningParts
  | .output => s.outputParts

/-- `entry(key).or_default()`. -/
def part (kind : PartKind) (key : String) : TextDeltaReconciler := ((s.parts kind).lookup key).getD .default

def setPart (kind : PartKind) (key : String) (part : TextDeltaReconciler) : ResponsesTurnState :=
  match kind with
  | .reasoningSummary => { s with reasoningSummaryParts := s.reasoningSummaryParts.insert key part }
  | .reasoning => { s with reasoningParts := s.reasoningParts.insert key part }
  | .output => { s with outputParts := s.outputParts.insert key part }

/-- What a part hands on goes to the text or the reasoning of the turn, and to the sink. -/
def emit (kind : PartKind) (delta : Option (List Char)) : Sunk ResponsesTurnState :=
  match kind with
  | .reasoningSummary | .reasoning => ({ s with reasoning := s.reasoning ++ delta.getD [] }, reasoningCall delta)
  | .output => ({ s with text := s.text ++ delta.getD [] }, textCall delta)

/-- `push_reasoning_summary`, `push_reasoning` and `push_output`. -/
def pushPart (kind : PartKind) (allow : Bool) (value : Value) (delta : List Char) : Sunk ResponsesTurnState :=
  let key := textPartKey value
  let (part, delta) := (s.part kind key).pushCompatible delta false allow
  (s.setPart kind key part).emit kind delta

/-- `complete_reasoning_summary`, `complete_reasoning` and `complete_output`. -/
def completePart (kind : PartKind) (value : Value) (text : List Char) :
    Sunk (Except ProviderError ResponsesTurnState) :=
  let key := textPartKey value
  match (s.part kind key).complete text with
  | .error message => (.error ⟨message⟩, [])
  | .ok (part, suffix) => ((s.setPart kind key part).emit kind suffix).ok

/-- A function call as a delta of the tool calls. -/
def functionCallDelta (index : Nat) (item : Value) : Value :=
  .object [
    ("function", .object [("arguments", .string ((item.getStr "arguments").getD "")),
      ("name", .string ((item.getStr "name").getD ""))]),
    ("id", .string ((item.getStr "call_id").getD "")),
    ("index", .number (.int index))]

/-- The arguments of a function call as a delta of the tool calls. -/
def argumentsDelta (index : Nat) (arguments : String) : Value :=
  .object [("function", .object [("arguments", .string arguments)]), ("index", .number (.int index))]

def applyFunctionCallItem (index : Nat) (item : Value) (snapshot : Bool) : ResponsesTurnState :=
  if eventType item = some "function_call" then
    { s with tools := s.tools.applyChatDelta (functionCallDelta index item) index snapshot }
  else s

def applyArguments (index : Nat) (arguments : String) (snapshot : Bool) : ResponsesTurnState :=
  { s with tools := s.tools.applyChatDelta (argumentsDelta index arguments) index snapshot }

def upsertItem (item : Value) : ResponsesTurnState :=
  if eventType item = some "reasoning" ∨ eventType item = some "web_search_call" then
    { s with replay := s.replay.upsert item }
  else s

/-- An item that is done, at its index: `output_item.done`, and an item of a snapshot. -/
def applyItem (index : Nat) (item : Value) : ResponsesTurnState :=
  ({ s with artifacts := s.artifacts.capture codec item }.upsertItem item).applyFunctionCallItem index item true

/-- `merge_snapshot_items`. -/
def mergeSnapshotItems (response : Value) : ResponsesTurnState :=
  (((response.get "output").bind Value.asArray).getD []).zipIdx.foldl (fun s item => s.applyItem codec item.2 item.1) s

def applyTerminalSnapshot (response : Value) : Sunk (Except ProviderError ResponsesTurnState) :=
  let s := { s with
    terminalOutputItems := ((response.get "output").bind Value.asArray).getD s.terminalOutputItems }
  match reconcileTerminalText s.text (extractResponsesOutputText response) s.sawOutputDone with
  | .error message => (.error ⟨message⟩, [])
  | .ok suffix => ((s.emit .output suffix).andThen fun s => (s.mergeSnapshotItems codec response, [])).ok

/-! What items change. -/

section
variable {codec : WireCodec} {s : ResponsesTurnState}

theorem applyFunctionCallItem_frame (index : Nat) (item : Value) (snapshot : Bool) :
    ∃ tools, s.applyFunctionCallItem index item snapshot = { s with tools } := by
  unfold applyFunctionCallItem
  split
  · exact ⟨_, rfl⟩
  · exact ⟨s.tools, rfl⟩

theorem applyItem_frame (index : Nat) (item : Value) :
    ∃ tools replay artifacts, s.applyItem codec index item = { s with tools, replay, artifacts } := by
  unfold applyItem upsertItem
  split
  · obtain ⟨tools, h⟩ := applyFunctionCallItem_frame (s := { s with
      artifacts := s.artifacts.capture codec item
      replay := s.replay.upsert item }) index item true
    exact ⟨tools, _, _, h⟩
  · obtain ⟨tools, h⟩ := applyFunctionCallItem_frame (s := { s with
      artifacts := s.artifacts.capture codec item }) index item true
    exact ⟨tools, _, _, h⟩

theorem mergeSnapshotItems_frame (response : Value) :
    ∃ tools replay artifacts, s.mergeSnapshotItems codec response = { s with tools, replay, artifacts } := by
  rw [mergeSnapshotItems]
  generalize List.zipIdx _ = items
  induction items generalizing s with
  | nil => exact ⟨s.tools, s.replay, s.artifacts, rfl⟩
  | cons item items ih =>
    obtain ⟨_, _, _, hitem⟩ := @applyItem_frame codec s item.2 item.1
    rw [List.foldl_cons, hitem]
    obtain ⟨tools, replay, artifacts, hrest⟩ := @ih _
    exact ⟨tools, replay, artifacts, hrest⟩

end

/-- What an event does by its type. -/
def applyTyped (allow : Bool) (value : Value) : Sunk (Except ProviderError ResponsesTurnState) :=
  let index := (value.get "output_index").bind Value.asU64
  let delta := (value.getStr "delta").map String.toList
  match eventType value with
  | some "response.reasoning_summary_part.added" =>
    let text := (((value.pointer ["part", "text"]).bind Value.asStr).getD "").toList
    if text = [] then (.ok s, []) else (s.pushPart .reasoningSummary allow value text).ok
  | some "response.reasoning_summary_text.delta" => match delta with
    | some delta => (s.pushPart .reasoningSummary allow value delta).ok
    | none => (.ok s, [])
  | some "response.reasoning_summary_text.done" => match value.getStr "text" with
    | some text => s.completePart .reasoningSummary value text.toList
    | none => (.ok s, [])
  | some "response.reasoning_text.delta" => match delta with
    | some delta => (s.pushPart .reasoning allow value delta).ok
    | none => (.ok s, [])
  | some "response.reasoning_text.done" => match value.getStr "text" with
    | some text => s.completePart .reasoning value text.toList
    | none => (.ok s, [])
  | some "response.output_text.delta" | some "response.refusal.delta" => match delta with
    | some delta => (s.pushPart .output allow value delta).ok
    | none => (.ok s, [])
  | some "response.output_text.done" | some "response.refusal.done" =>
    let s := { s with sawOutputDone := true }
    match ((value.get "text").or (value.get "refusal")).bind Value.asStr with
    | some text => s.completePart .output value text.toList
    | none => (.ok s, [])
  | some "response.output_item.added" => match index, value.get "item" with
    | some index, some item => (.ok (s.applyFunctionCallItem index item false), [])
    | _, _ => (.ok s, [])
  | some "response.function_call_arguments.delta" => match index, value.getStr "delta" with
    | some index, some delta => (.ok (s.applyArguments index delta false), [])
    | _, _ => (.ok s, [])
  | some "response.function_call_arguments.done" => match index, value.getStr "arguments" with
    | some index, some arguments => (.ok (s.applyArguments index arguments true), [])
    | _, _ => (.ok s, [])
  | some "response.output_item.done" => match index, value.get "item" with
    | some index, some item => (.ok (s.applyItem codec index item), [])
    | _, _ => (.ok s, [])
  | _ => match terminalSnapshot value with
    | some response => s.applyTerminalSnapshot codec response
    | none => (.ok s, [])

/-- What an event can do by its type. -/
inductive TypedEffect (allow : Bool) (value : Value) : Sunk (Except ProviderError ResponsesTurnState) → Prop
  | keep : TypedEffect allow value (.ok s, [])
  | push (kind : PartKind) (delta : List Char) : TypedEffect allow value (s.pushPart kind allow value delta).ok
  | complete (kind : PartKind) (text : List Char) : TypedEffect allow value (s.completePart kind value text)
  | outputDone : TypedEffect allow value (.ok { s with sawOutputDone := true }, [])
  | completeOutput (text : List Char) :
    TypedEffect allow value ({ s with sawOutputDone := true }.completePart .output value text)
  | functionCall (index : Nat) (item : Value) : TypedEffect allow value (.ok (s.applyFunctionCallItem index item false), [])
  | arguments (index : Nat) (arguments : String) (snapshot : Bool) :
    TypedEffect allow value (.ok (s.applyArguments index arguments snapshot), [])
  | item (index : Nat) (item : Value) : TypedEffect allow value (.ok (s.applyItem codec index item), [])
  | snapshot (response : Value) : TypedEffect allow value (s.applyTerminalSnapshot codec response)

theorem applyTyped_effect (allow : Bool) (value : Value) :
    s.TypedEffect codec allow value (s.applyTyped codec allow value) := by
  unfold applyTyped
  simp only
  split
  · split
    · exact .keep
    · exact .push _ _
  · split
    · exact .push _ _
    · exact .keep
  · split
    · exact .complete _ _
    · exact .keep
  · split
    · exact .push _ _
    · exact .keep
  · split
    · exact .complete _ _
    · exact .keep
  · split
    · exact .push _ _
    · exact .keep
  · split
    · exact .push _ _
    · exact .keep
  · split
    · exact .completeOutput _
    · exact .outputDone
  · split
    · exact .completeOutput _
    · exact .outputDone
  · split
    · exact .functionCall _ _
    · exact .keep
  · split
    · exact .arguments _ _ _
    · exact .keep
  · split
    · exact .arguments _ _ _
    · exact .keep
  · split
    · exact .item _ _
    · exact .keep
  · split
    · exact .snapshot _
    · exact .keep

/-- The events that end a stream with an error. -/
def isFailure (value : Value) : Bool :=
  eventType value = some "response.failed" || eventType value = some "response.cancelled" ||
    eventType value = some "error"

def applyValue (allow : Bool) (value : Value) : Sunk (Except ProviderError ResponsesTurnState) :=
  if ¬ looksLikeResponsesStreamValue value then (.ok s, [])
  else match s.acceptEvent codec value with
    | .error e => (.error e, [])
    | .ok (false, s) => (.ok s, [])
    | .ok (true, s) =>
      let s := s.applyStatus (terminalStatus value)
      if isFailure value then (.error ⟨failureMessage value⟩, [])
      else (((s.applyTerminal value).applyUsage (usageFromResponses value)).ok).attempt fun s =>
        s.applyTyped codec allow value

/-! ## The turn -/

def opaqueValue : Value :=
  .object [
    ("end_turn", match s.endTurn with
      | some endTurn => .bool endTurn
      | none => .null),
    ("generated_images", .array (s.artifacts.images.map GeneratedArtifact.toJson)),
    ("incomplete_reason", jsonOption s.incompleteReason),
    ("protocol", .string "responses"),
    ("response_items", .array s.replay.items),
    ("terminal_output", .array s.terminalOutputItems)]

/-- The turn of a response that has completed. -/
def turn : ModelTurn :=
  let toolCalls := ChatCompletionsTurnAssembler.finishedToolCalls codec s.tools
  { text := String.ofList s.text
    reasoning := String.ofList s.reasoning
    toolCalls
    usage := s.usage
    terminal := if toolCalls = [] then .stop else .toolCalls
    opaqueValue := s.opaqueValue }

def finish : Except ProviderError ModelTurn :=
  match s.terminal with
  | some .completed => .ok (s.turn codec)
  | some .incomplete => .error
    ⟨"PROVIDER_OUTPUT_INCOMPLETE: Responses stream ended incomplete: " ++ s.incompleteReason.getD "incomplete"⟩
  | some .failed => .error ⟨"Responses stream ended with a failed terminal."⟩
  | none => .error ⟨"PROVIDER_STREAM_CLOSED: Responses stream ended without an explicit terminal event."⟩

def finishChecked : Except ProviderError ModelTurn := do
  if s.terminal = some .completed then s.tools.validate codec
  s.finish codec

/-- **The turn is returned exactly when the response has completed and its calls allow it.** -/
theorem finishChecked_ok_iff {codec : WireCodec} {s : ResponsesTurnState} {turn : ModelTurn} :
    s.finishChecked codec = .ok turn ↔
      s.terminal = some .completed ∧ s.tools.validate codec = .ok () ∧ turn = s.turn codec := by
  unfold finishChecked finish
  by_cases hterminal : s.terminal = some .completed
  · simp only [hterminal, if_true, true_and]
    cases s.tools.validate codec with
    | error e => simp [bind, Except.bind]
    | ok _ =>
      simp only [bind, Except.bind, Except.ok.injEq, true_and]
      exact eq_comm
  · simp only [hterminal, if_false, false_and, iff_false]
    split
    · rename_i h
      exact absurd h hterminal
    all_goals simp

end ResponsesTurnState

namespace ResponsesTurnAssembler

def new (allowCumulativeDelta : Bool) : ResponsesTurnAssembler := ⟨allowCumulativeDelta, .new⟩

def applyValue (codec : WireCodec) (a : ResponsesTurnAssembler) (value : Value) :
    Sunk (Except ProviderError ResponsesTurnAssembler) :=
  (a.state.applyValue codec a.allowCumulativeDelta value).attempt fun state => (.ok { a with state }, [])

def finishChecked (codec : WireCodec) (a : ResponsesTurnAssembler) : Except ProviderError ModelTurn :=
  a.state.finishChecked codec

end ResponsesTurnAssembler

end Aifluxon
