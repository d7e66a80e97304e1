import Aifluxon.Providers.Delta
import Aifluxon.Providers.Reliability

/-!
# Chat Completions turns

`ChatCompletionsTurnAssembler` of `chat_completions.rs`.

* `Value.choice`, `.chatDelta`, `deltaContent`, … : what the assembler reads of a value;
* `ChatCompletionsTurnAssembler.applyValue` : a value of a stream, or of a buffered response;
* `ChatCompletionsTurnAssembler.finishChecked` : the turn, if the finish reason and the tool calls allow it.
-/

namespace Aifluxon

/-! ## What is read of a value -/

/-- The first choice. -/
def Value.choice (value : Value) : Option Value := ((value.get "choices").bind Value.asArray).bind List.head?

/-- The finish reason of a choice. -/
def choiceFinishReason (choice : Value) : Option String :=
  (choice.getStr "finish_reason").filter fun reason => reason ≠ "" ∧ reason ≠ "null"

/-- The delta of a choice, or its message, which is a snapshot. -/
def choiceDelta (choice : Value) : Option (Value × Bool) :=
  match choice.get "delta" with
  | some delta => some (delta, false)
  | none => (choice.get "message").map fun message => (message, true)

def deltaExtra (delta : Value) : Option Value := (delta.get "extra_content").filter Value.isObject

def deltaReasoning (delta : Value) : Option (List Char) :=
  (((delta.get "reasoning_content").or (delta.get "reasoning")).bind Value.asStr).map String.toList

/-- The content, or the refusal where there is none. -/
def deltaContent (delta : Value) : Option (List Char) :=
  (((delta.getStr "content").filter fun content => content ≠ "").or (delta.getStr "refusal")).map String.toList

/-- The mark that a delta is a thought. -/
def deltaThought (delta : Value) : Option Bool :=
  (delta.pointer ["extra_content", "google", "thought"]).bind Value.asBool

def deltaToolCalls (delta : Value) : List Value := ((delta.get "tool_calls").bind Value.asArray).getD []

/-- A tool call with an extension of Google. -/
def hasGoogleExtra (call : Value) : Bool := (call.pointer ["extra_content", "google"]).isSome

/-- The extension that is sent back: without the mark of a streamed thought. -/
def replayExtra : Value → Value
  | .object entries => match entries.lookup "google" with
    | some (.object google) =>
      match google.filter fun e => e.1 ≠ "thought" with
      | [] => .object (entries.filter fun e => e.1 ≠ "google")
      | google => .object (insertEntry "google" (.object google) entries)
    | _ => .object entries
  | extra => extra

/-! ## The assembler -/

structure ChatCompletionsTurnAssembler where
  allowCumulativeDelta : Bool
  text : TextDeltaReconciler
  reasoning : TextDeltaReconciler
  tools : ToolCallAssembler
  usage : Option Value
  finishReason : Option String
  extraContent : Value
  geminiThoughts : Option ThoughtStream
  deriving DecidableEq

namespace ChatCompletionsTurnAssembler

def new (allowCumulativeDelta : Bool) : ChatCompletionsTurnAssembler :=
  ⟨allowCumulativeDelta, .default, .default, .default, none, none, .object [], none⟩

variable (a : ChatCompletionsTurnAssembler)

def useGeminiContract : ChatCompletionsTurnAssembler :=
  { a with
    tools := a.tools.useGeminiContract
    geminiThoughts := some (a.geminiThoughts.getD .default) }

def useDeepseekContract : ChatCompletionsTurnAssembler := { a with tools := a.tools.useMetadataSnapshots }

def pushReasoning (incoming : List Char) (snapshot : Bool) : Sunk ChatCompletionsTurnAssembler :=
  let (reasoning, delta) := a.reasoning.pushCompatible incoming snapshot a.allowCumulativeDelta
  ({ a with reasoning }, reasoningCall delta)

def pushText (incoming : List Char) (snapshot : Bool) : Sunk ChatCompletionsTurnAssembler :=
  let (text, delta) := a.text.pushCompatible incoming snapshot a.allowCumulativeDelta
  ({ a with text }, textCall delta)

def emitContent (visible reasoning : List Char) (snapshot : Bool) : Sunk ChatCompletionsTurnAssembler :=
  (a.pushReasoning reasoning snapshot).andThen fun a => a.pushText visible snapshot

def flushContent : Sunk ChatCompletionsTurnAssembler :=
  match a.geminiThoughts with
  | none => (a, [])
  | some parser =>
    let (parser, visible, reasoning) := parser.finish
    { a with geminiThoughts := some parser }.emitContent visible reasoning false

/-! The parts of `apply_value`, in its order. -/

def applyUsage (usage : Option Value) : Sunk ChatCompletionsTurnAssembler :=
  match usage with
  | none => (a, [])
  | some usage => ({ a with usage := some usage }, [.usage usage])

def applyFinishReason (reason : Option String) : ChatCompletionsTurnAssembler :=
  { a with finishReason := reason.or a.finishReason }

def applyExtra (extra : Option Value) : ChatCompletionsTurnAssembler :=
  match extra with
  | none => a
  | some extra =>
    let a := if (extra.get "google").isSome then a.useGeminiContract else a
    { a with extraContent := mergeExtraContent a.extraContent (replayExtra extra) }

def applyReasoning (reasoning : Option (List Char)) (snapshot : Bool) : Sunk ChatCompletionsTurnAssembler :=
  match reasoning with
  | none => (a, [])
  | some reasoning => a.pushReasoning reasoning snapshot

def applyContent (content : Option (List Char)) (thought : Option Bool) (snapshot : Bool) :
    Sunk ChatCompletionsTurnAssembler :=
  match content with
  | none => (a, [])
  | some content => match a.geminiThoughts with
    | none => a.emitContent content [] snapshot
    | some parser =>
      let (parser, visible, reasoning) := (if snapshot then .default else parser).push content thought
      { a with geminiThoughts := some parser }.emitContent visible reasoning snapshot

def applyToolCalls (calls : List Value) (snapshot : Bool) : ChatCompletionsTurnAssembler :=
  let a := if calls.any hasGoogleExtra then a.useGeminiContract else a
  { a with
    tools := calls.zipIdx.foldl (fun tools call => tools.applyChatDelta call.1 call.2 snapshot) a.tools }

def applyDelta (delta : Value) (snapshot : Bool) : Sunk ChatCompletionsTurnAssembler :=
  let step := (a.applyExtra (deltaExtra delta)).applyReasoning (deltaReasoning delta) snapshot
  let step := step.andThen fun a => a.applyContent (deltaContent delta) (deltaThought delta) snapshot
  step.andThen fun a => (a.applyToolCalls (deltaToolCalls delta) snapshot, [])

def applyValue (value : Value) : Sunk ChatCompletionsTurnAssembler :=
  (a.applyUsage (usageValue value)).andThen fun a =>
    match value.choice with
    | none => (a, [])
    | some choice =>
      let a := a.applyFinishReason (choiceFinishReason choice)
      match choiceDelta choice with
      | none => (a, [])
      | some (delta, snapshot) => a.applyDelta delta snapshot

/-! What a value leaves of the finish reason. -/

@[simp] theorem applyExtra_finishReason (extra : Option Value) : (a.applyExtra extra).finishReason = a.finishReason := by
  cases extra with
  | none => rfl
  | some extra =>
    simp only [applyExtra]
    split
    · rfl
    · rfl

@[simp] theorem applyReasoning_finishReason (reasoning : Option (List Char)) (snapshot : Bool) :
    (a.applyReasoning reasoning snapshot).1.finishReason = a.finishReason := by
  cases reasoning <;> rfl

@[simp] theorem applyContent_finishReason (content : Option (List Char)) (thought : Option Bool) (snapshot : Bool) :
    (a.applyContent content thought snapshot).1.finishReason = a.finishReason := by
  unfold applyContent
  split
  · rfl
  · split
    · rfl
    · rfl

@[simp] theorem applyToolCalls_finishReason (calls : List Value) (snapshot : Bool) :
    (a.applyToolCalls calls snapshot).finishReason = a.finishReason := by
  simp only [applyToolCalls]
  split
  · rfl
  · rfl

@[simp] theorem applyUsage_finishReason (usage : Option Value) : (a.applyUsage usage).1.finishReason = a.finishReason := by
  cases usage <;> rfl

@[simp] theorem flushContent_finishReason : a.flushContent.1.finishReason = a.finishReason := by
  unfold flushContent
  split
  · rfl
  · rfl

/-- A value has the last word on the finish reason, if it has one. -/
theorem applyValue_finishReason (value : Value) :
    (a.applyValue value).1.finishReason = (value.choice.bind choiceFinishReason).or a.finishReason := by
  simp only [applyValue, Sunk.andThen]
  cases value.choice with
  | none => simp
  | some choice =>
    simp only [Option.bind_some]
    cases choiceDelta choice with
    | none => simp [applyFinishReason]
    | some r => simp [applyDelta, applyFinishReason, Sunk.andThen]

/-! ## The turn -/

variable (codec : WireCodec)

/-- The calls that have a name. -/
def finishedToolCalls (tools : ToolCallAssembler) : List ToolCall :=
  (tools.finish codec).filter fun call => trim call.name ≠ ""

/-- An entry of the opaque value of a turn, where there is one. -/
def withEntry (key : String) (value : Option Value) (entries : List (String × Value)) : List (String × Value) :=
  match value with
  | none => entries
  | some value => insertEntry key value entries

theorem lookup_withEntry_ne {key k : String} (h : k ≠ key) (value : Option Value) (entries : List (String × Value)) :
    (withEntry key value entries).lookup k = entries.lookup k := by
  cases value with
  | none => rfl
  | some value => exact lookup_insertEntry_ne h value entries

/-- An object that has entries. -/
def filledObject : Value → Option Value
  | .object (e :: entries) => some (.object (e :: entries))
  | _ => none

def opaqueEntries : List (String × Value) :=
  withEntry "extra_content" (filledObject a.extraContent)
    (withEntry "tool_call_extra_content" (filledObject a.tools.extraContentByCallId)
      (withEntry "reasoning_content" ((nonempty a.reasoning.emitted).map jsonText)
        [("finish_reason", jsonOption a.finishReason), ("protocol", .string "chat_completions")]))

/-- The turn of the values so far. -/
def turn : ModelTurn :=
  let toolCalls := finishedToolCalls codec a.tools
  { text := String.ofList a.text.emitted
    reasoning := String.ofList a.reasoning.emitted
    toolCalls
    usage := a.usage
    terminal :=
      if toolCalls ≠ [] ∨ a.finishReason = some "tool_calls" ∨ a.finishReason = some "function_call" then .toolCalls
      else .stop
    opaqueValue := .object a.opaqueEntries }

/-- `finish`, whose last calls go to no sink. -/
def finish : ModelTurn := turn a.flushContent.1 codec

/-- The finish reasons that end a turn. -/
def checkFinishReason : Option String → Except ProviderError Unit
  | some "stop" | some "tool_calls" => .ok ()
  | some "length" => .error
    ⟨"PROVIDER_OUTPUT_LIMIT: Output token limit reached; no tools from this truncated response were dispatched."⟩
  | some "insufficient_system_resource" =>
    .error ⟨"PROVIDER_RESOURCE_UNAVAILABLE: Provider could not complete this response."⟩
  | some _ => .error ⟨"PROVIDER_FINISH_ERROR: Provider did not return a successful finish reason."⟩
  | none => .error ⟨"PROVIDER_STREAM_CLOSED: Response ended without a finish reason."⟩

def finishChecked : Except ProviderError ModelTurn := do
  checkFinishReason a.finishReason
  a.tools.validate codec
  validateTurn (a.finish codec)
  return a.finish codec

/-- **The turn is returned exactly when its finish reason and its calls allow it.** -/
theorem finishChecked_ok_iff {a : ChatCompletionsTurnAssembler} {codec : WireCodec} {turn : ModelTurn} :
    a.finishChecked codec = .ok turn ↔ checkFinishReason a.finishReason = .ok () ∧ a.tools.validate codec = .ok () ∧
      ValidTurn (a.finish codec) ∧ turn = a.finish codec := by
  rw [← validateTurn_ok, finishChecked]
  cases checkFinishReason a.finishReason with
  | error e => simp [bind, Except.bind]
  | ok _ =>
    cases a.tools.validate codec with
    | error e => simp [bind, Except.bind]
    | ok _ =>
      cases validateTurn (a.finish codec) with
      | error e => simp [bind, Except.bind]
      | ok _ =>
        simp only [bind, Except.bind, pure, Except.pure, Except.ok.injEq, true_and]
        exact eq_comm

end ChatCompletionsTurnAssembler

end Aifluxon
