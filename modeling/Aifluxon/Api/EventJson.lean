import Aifluxon.Runtime.Objects

/-!
# Events as JSON

`events_json.rs`: what leaves Rust of an event. Every value is a map with sorted keys.

* `messageToJson`, `pendingOperationToJson`, `eventToJson`, `envelopeToJson` : the values;
* `Message.fromJson_messageToJson` : a message is read back;
* `get_envelopeToJson` : the fields of an envelope stand beside those of its event.
-/

namespace Aifluxon

open Value

/-! ## The values -/

def runStateName : RunState → String
  | .running => "running"
  | .awaitingOperation => "awaiting_operation"
  | .completed => "completed"
  | .failed => "failed"
  | .cancelled => "cancelled"

/-- The `{:?}` form of an effect. -/
def ToolEffect.debug : ToolEffect → String
  | .pureRead => "PureRead"
  | .fsRead => "FsRead"
  | .fsWrite => "FsWrite"
  | .processSpawn => "ProcessSpawn"
  | .processControl => "ProcessControl"
  | .network => "Network"
  | .settingsWrite => "SettingsWrite"
  | .externalSideEffect => "ExternalSideEffect"
  | .unknown => "Unknown"

/-- `serde_json::to_value`. -/
def messageToJson (message : Message) : Value := message.toJson.canonical

def OperationMode.wireName : OperationMode → String
  | .blockingApproval => "blocking_approval"
  | .deferredCommit => "deferred_commit"

def pendingOperationToJson (operation : PendingOperation) : Value :=
  .object [("effect", .string operation.effect.debug), ("id", ofUuid operation.id.uuid),
    ("invocation_id", ofOption (fun id => ofUuid id.uuid) operation.invocationId),
    ("mode", .string operation.mode.wireName), ("payload", operation.payload),
    ("run_id", ofUuid operation.runId.uuid), ("summary", .string operation.summary)]

def eventToJson : RunEvent → Value
  | .runStarted context => .object [("parent_run_id", ofOption (fun id => ofUuid id.uuid) context.parentRunId),
      ("session_id", ofOption (fun id => ofUuid id.uuid) context.sessionId), ("type", .string "run_started")]
  | .stateChanged state => .object [("state", .string (runStateName state)), ("type", .string "state_changed")]
  | .modelDelta delta => .object [("delta", .string delta), ("type", .string "text_delta")]
  | .reasoningDelta delta => .object [("delta", .string delta), ("type", .string "reasoning_delta")]
  | .toolStarted invocationId name arguments => .object [("arguments", arguments),
      ("invocation_id", ofUuid invocationId.uuid), ("name", .string name), ("type", .string "tool_started")]
  | .toolFinished invocationId name result => .object [("invocation_id", ofUuid invocationId.uuid),
      ("name", .string name), ("result", result), ("type", .string "tool_finished")]
  | .operationRequested operation => .object [("operation", pendingOperationToJson operation),
      ("type", .string "operation_requested")]
  | .usageUpdated usage => .object [("type", .string "usage_updated"), ("usage", usage)]
  | .artifactProduced artifact => .object [("artifact", .string artifact.reference),
      ("type", .string "artifact_produced")]
  | .completed output => .object [("output", .array (output.map messageToJson)), ("type", .string "completed")]
  | .failed message => .object [("message", .string message), ("type", .string "failed")]
  | .cancelled => .object [("type", .string "cancelled")]

def envelopeToJson (envelope : RunEventEnvelope) : Value :=
  ((eventToJson envelope.event).setField "sequence" (ofNat envelope.sequence)).setField "run_id"
    (ofUuid envelope.runId.uuid)

/-! ## Fields of an envelope -/

theorem isObject_eventToJson (event : RunEvent) : (eventToJson event).isObject = true := by
  cases event <;> rfl

theorem get_envelopeToJson_runId (envelope : RunEventEnvelope) :
    (envelopeToJson envelope).get "run_id" = some (ofUuid envelope.runId.uuid) :=
  get_setField_self (isObject_setField (isObject_eventToJson _))

theorem get_envelopeToJson_sequence (envelope : RunEventEnvelope) :
    (envelopeToJson envelope).get "sequence" = some (ofNat envelope.sequence) :=
  (get_setField_ne (by decide) _ _).trans (get_setField_self (isObject_eventToJson _))

/-- The envelope leaves the fields of its event. -/
theorem get_envelopeToJson {key : String} (hrun : key ≠ "run_id") (hsequence : key ≠ "sequence")
    (envelope : RunEventEnvelope) : (envelopeToJson envelope).get key = (eventToJson envelope.event).get key :=
  (get_setField_ne hrun _ _).trans (get_setField_ne hsequence _ _)

/-! ## Messages -/

theorem ContentPart.toJson_sorted (part : ContentPart) : part.toJson.Sorted := by
  cases part with
  | text text => exact ⟨List.pairwise_singleton _ _, trivial, trivial⟩
  | image content =>
    have hkeys : "artifact" < "mime_type" := by decide
    exact ⟨List.pairwise_singleton _ _, ⟨List.pairwise_pair.2 hkeys, trivial, trivial, trivial⟩, trivial⟩

/-- A map of values, whose parts are read one by one. -/
theorem canonicalItems_eq_map (items : List Value) : canonicalItems items = items.map canonical := by
  induction items with
  | nil => rfl
  | cons item items ih => rw [canonicalItems, ih, List.map_cons]

theorem canonical_array (items : List Value) : canonical (.array items) = .array (items.map canonical) := by
  unfold canonical
  rw [canonicalItems_eq_map]

theorem canonical_array_map {α : Type} {write : α → Value} {l : List α} (h : ∀ a ∈ l, (write a).Sorted) :
    canonical (.array (l.map write)) = .array (l.map write) := by
  rw [canonical_array, List.map_map]
  exact congrArg Value.array (List.map_congr_left fun a ha => canonical_eq (h a ha))

theorem ToolCall.keys_nodup (call : ToolCall) : (([("id", ofUuid call.id.uuid), ("name", .string call.name),
    ("arguments", call.arguments)] ++ (call.providerCallId.map fun id => ("provider_call_id", Value.string id)).toList
      : List (String × Value)).map Prod.fst).Nodup := by
  cases call.providerCallId <;> simp

theorem ToolCall.fromJson_canonical {call : ToolCall} (h : call.arguments.Sorted) :
    fromJson call.toJson.canonical = some call := by
  have hfield (key : String) := field_canonical call.keys_nodup key
  rw [← toJson] at hfield
  obtain ⟨id, name, arguments, providerCallId⟩ := call
  have hread : readValue arguments.canonical = some arguments := by
    rw [canonical_eq h]
    exact readValue_eq h
  cases providerCallId <;>
    simp [fromJson, requiredField, optionalField, hfield, List.lookup_cons, canonical, hread, ofUuid, readUuid,
      parseUuid_hyphenated]

theorem Message.keys_nodup (message : Message) : ((([("role", message.role.toJson),
    ("content", .array (message.content.map ContentPart.toJson)),
    ("tool_calls", .array (message.toolCalls.map ToolCall.toJson)),
    ("tool_call_id", ofOption (fun id => ofUuid id.uuid) message.toolCallId),
    ("provider_state", ofOption id message.providerState)] : List (String × Value))).map Prod.fst).Nodup := by
  simp

/-- What a message is found to be under a key. -/
theorem Message.get_messageToJson (message : Message) (key : String) :
    (messageToJson message).get key = (message.toJson.get key).map canonical :=
  get_canonical message.keys_nodup key

/-- **A message that has left Rust is read back.** -/
theorem Message.fromJson_messageToJson {message : Message} (h : message.Sorted) :
    fromJson (messageToJson message) = some message.reread := by
  have hfield (key : String) := field_canonical message.keys_nodup key
  rw [← toJson, ← messageToJson] at hfield
  obtain ⟨role, content, toolCalls, toolCallId, providerState⟩ := message
  have hrole : canonical role.toJson = role.toJson := by cases role <;> rfl
  have hcontent : readList ContentPart.fromJson (canonical (.array (content.map ContentPart.toJson))) =
      some content := by
    rw [canonical_array_map fun part _ => part.toJson_sorted]
    exact (readList_map fun part _ => part.fromJson_toJson).trans (congrArg some (List.map_id content))
  have hcalls : readList ToolCall.fromJson (canonical (.array (toolCalls.map ToolCall.toJson))) =
      some toolCalls := by
    rw [canonical_array, List.map_map]
    refine (readList_map fun call hcall => ?_).trans (congrArg some (List.map_id toolCalls))
    exact ToolCall.fromJson_canonical (h.arguments call hcall)
  have hid : optionalField "tool_call_id" readUuid
      (messageToJson ⟨role, content, toolCalls, toolCallId, providerState⟩) =
      some (toolCallId.map ToolInvocationId.uuid) := by
    cases toolCallId <;>
      simp [optionalField, hfield, List.lookup_cons, ofOption, ofUuid, canonical, readUuid, parseUuid_hyphenated]
  have hstate : optionalField "provider_state" readValue
      (messageToJson ⟨role, content, toolCalls, toolCallId, providerState⟩) =
      some (providerState.filter fun state => ¬ state.isNull) := by
    cases providerState with
    | none => simp [optionalField, hfield, List.lookup_cons, ofOption, canonical]
    | some state =>
      have hsame := canonical_eq (h.providerState state rfl)
      have hread := readValue_eq (h.providerState state rfl)
      cases state <;>
        simp [optionalField, hfield, List.lookup_cons, ofOption, isNull, Option.filter, hread, hsame]
  rw [fromJson, hid, hstate]
  simp [requiredField, hfield, List.lookup_cons, hrole, hcontent, hcalls, reread, Option.map_map,
    Function.comp_def]

end Aifluxon
