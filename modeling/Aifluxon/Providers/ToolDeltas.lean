import Aifluxon.Providers.Gemini

/-!
# Tool calls that come as deltas

`ToolCallAssembler` of `tool_deltas.rs`.

* `PendingToolCall` : a tool call as far as it has come;
* `ToolCallAssembler.applyChatDelta` : a delta goes to the call of its index;
* `ToolCallAssembler.validate`, `.finish` : the calls of a complete response.
-/

namespace Aifluxon

structure PendingToolCall where
  observed : Bool
  id : String
  name : String
  arguments : String
  extraContent : Option Value
  deriving DecidableEq

namespace PendingToolCall

def default : PendingToolCall := ⟨false, "", "", "", none⟩

/-- A text that replaces another, or is added to it. -/
def put (replace : Bool) (old new : String) : String := if replace then new else old ++ new

def applyExtra (delta : Value) (call : PendingToolCall) : PendingToolCall :=
  match (delta.get "extra_content").filter Value.isObject with
  | none => call
  | some extra => { call with extraContent := some (mergeExtraContent (call.extraContent.getD (.object [])) extra) }

def applyId (replace : Bool) (delta : Value) (call : PendingToolCall) : PendingToolCall :=
  match delta.getStr "id" with
  | none => call
  | some id => { call with id := put replace call.id id }

/-- The name and the arguments of the `function` of a delta. -/
def applyFunction (metadata snapshot : Bool) (delta : Value) (call : PendingToolCall) : PendingToolCall :=
  match delta.get "function" with
  | none => call
  | some function => { call with
      name := match function.getStr "name" with
        | none => call.name
        | some name => put (snapshot || metadata) call.name name
      arguments := match function.getStr "arguments" with
        | none => call.arguments
        | some arguments => put snapshot call.arguments arguments }

/-- The name and the arguments of a delta without a `function`. -/
def applyFlat (snapshot : Bool) (delta : Value) (call : PendingToolCall) : PendingToolCall :=
  { call with
    name := match delta.getStr "name" with
      | none => call.name
      | some name => if snapshot then name else if call.name = "" then name else call.name
    arguments := match delta.getStr "arguments" with
      | none => call.arguments
      | some arguments =>
        if snapshot then arguments
        else if delta.get "function" = none then call.arguments ++ arguments else call.arguments }

def applyDelta (metadata snapshot : Bool) (delta : Value) (call : PendingToolCall) : PendingToolCall :=
  applyFlat snapshot delta (applyFunction metadata snapshot delta
    (applyId (snapshot || metadata) delta (applyExtra delta { call with observed := true })))

end PendingToolCall

/-- The index of a delta, or its place among the deltas of its event. -/
def streamedToolCallIndex (delta : Value) (fallbackPosition toolCallsLen : Nat) : Nat :=
  match (delta.get "index").bind Value.asU64 with
  | some index => index
  | none => if fallbackPosition < toolCallsLen then fallbackPosition else toolCallsLen

structure ToolCallAssembler where
  calls : List PendingToolCall
  metadataSnapshots : Bool
  geminiContract : Bool
  deriving DecidableEq

namespace ToolCallAssembler

def default : ToolCallAssembler := ⟨[], false, false⟩

def useGeminiContract (a : ToolCallAssembler) : ToolCallAssembler :=
  { a with geminiContract := true, metadataSnapshots := true }

def useMetadataSnapshots (a : ToolCallAssembler) : ToolCallAssembler := { a with metadataSnapshots := true }

/-- The call that a delta belongs to. Under the Gemini contract a delta without an index belongs to the
call with its identifier. -/
def index (a : ToolCallAssembler) (delta : Value) (fallbackPosition : Nat) : Nat :=
  let streamed := streamedToolCallIndex delta fallbackPosition a.calls.length
  if a.geminiContract ∧ (delta.get "index").bind Value.asU64 = none then
    match (delta.getStr "id").filter fun id => id ≠ "" with
    | some id => (a.calls.findIdx? fun call => call.id = id).getD a.calls.length
    | none => streamed
  else streamed

/-- The calls up to one at `index`. -/
def padTo (calls : List PendingToolCall) (index : Nat) : List PendingToolCall :=
  calls ++ List.replicate (index + 1 - calls.length) PendingToolCall.default

def applyChatDelta (a : ToolCallAssembler) (delta : Value) (fallbackPosition : Nat) (isSnapshot : Bool) :
    ToolCallAssembler :=
  let index := a.index delta fallbackPosition
  { a with
    calls := (padTo a.calls index).modify index (PendingToolCall.applyDelta a.metadataSnapshots isSnapshot delta) }

def invalidToolCall : ProviderError :=
  ⟨"PROVIDER_INVALID_TOOL_CALL: Incomplete tool identity or JSON arguments; no tools were dispatched."⟩

variable (codec : WireCodec)

/-- The arguments are the text of a JSON object. -/
def hasObjectArguments (call : PendingToolCall) : Bool :=
  (codec.fromStr call.arguments.toList).any Value.isObject

/-- The loop of `validate`, with the identifiers that it has seen. -/
def validCalls (ids : List String) : List PendingToolCall → Bool
  | [] => true
  | call :: calls =>
    if ¬ call.observed then validCalls ids calls
    else if trim call.id = "" ∨ trim call.name = "" ∨ call.id ∈ ids ∨ ¬ hasObjectArguments codec call then false
    else validCalls (call.id :: ids) calls

def validate (a : ToolCallAssembler) : Except ProviderError Unit :=
  if validCalls codec [] a.calls then .ok () else .error invalidToolCall

def extraContentByCallId (a : ToolCallAssembler) : Value :=
  .object (a.calls.foldl (fun metadata call =>
    if call.id = "" then metadata
    else match call.extraContent with
      | none => metadata
      | some extra => insertEntry call.id extra metadata) [])

/-- The tool call of a pending one; arguments that are no JSON stay a text. -/
def finishCall (call : PendingToolCall) : ToolCall :=
  let providerCallId := if trim call.id = "" then none else some call.id
  { id := codec.stableKey (providerCallId.getD (call.name ++ ":" ++ call.arguments))
    name := call.name
    arguments := (codec.fromStr call.arguments.toList).getD (.string call.arguments)
    providerCallId }

def finish (a : ToolCallAssembler) : List ToolCall := a.calls.map (finishCall codec)

end ToolCallAssembler

/-- `ToolCall::wire_call_id`. -/
def ToolCall.wireCallId (call : ToolCall) : String := call.wireId.getD (hyphenated call.id.uuid)

end Aifluxon
