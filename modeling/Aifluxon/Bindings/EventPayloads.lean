import Aifluxon.Api.EventJson
import Aifluxon.Bindings.EventPump

/-!
# Events in Python

`events.py` reads the payloads of `events_json.rs`.

* `PyBuiltins` : `str`, `int` and `list` of values that no payload has there;
* `PyEvent`, `eventFromPayload` : the classes of `events.py`, and how an event is made of a payload;
* `PyEvent.envelope` : the envelope that the attributes of an event stand for;
* `RunEventEnvelope.received` : an envelope without what Python is not told;
* `eventFromPayload_envelopeToJson` : every event of a run arrives.
-/

namespace Aifluxon

open Value

/-! ## Built-in functions -/

/-- `str`, `int` and `list` of the other values. -/
structure PyBuiltins where
  str : Value → String
  int : Value → Except PyError Int
  list : Value → Except PyError (List Value)

namespace PyBuiltins

variable (py : PyBuiltins)

def toStr : Value → String
  | .string s => s
  | v => py.str v

def toInt : Value → Except PyError Int
  | .number (.int n) => .ok n
  | v => py.int v

def toList : Value → Except PyError (List Value)
  | .array items => .ok items
  | v => py.list v

end PyBuiltins

/-- The truth of a value: `None`, zeros and what is empty are false. -/
def pyTrue : Value → Bool
  | .null => false
  | .bool b => b
  | .number (.int n) => n ≠ 0
  | .number (.float bits) => bits ≠ 0 && bits ≠ BitVec.ofNat 64 (2 ^ 63)
  | .string s => s ≠ ""
  | .array items => items ≠ []
  | .object entries => entries ≠ []

/-- `value or other`. -/
def pyOr (value other : Value) : Value := if pyTrue value then value else other

/-- `payload.get(key)`; `None` is `null`. -/
def pyGet (key : String) (payload : Value) : Value := (payload.get key).getD .null

/-- `payload[key]`. -/
def pyItem (key : String) (payload : Value) : Except PyError Value :=
  match payload.get key with
  | some value => .ok value
  | none => .error ⟨"KeyError", key, ""⟩

/-! ## Events -/

inductive PyEvent where
  | runStarted (sequence : Int) (runId : String) (sessionId parentRunId : Value)
  | stateChanged (sequence : Int) (runId state : String)
  | textDelta (sequence : Int) (runId delta : String)
  | reasoningDelta (sequence : Int) (runId delta : String)
  | toolStarted (sequence : Int) (runId invocationId name : String) (arguments : Value)
  | toolFinished (sequence : Int) (runId invocationId name : String) (result : Value)
  | operationRequested (sequence : Int) (runId : String) (operation : Value)
  | usageUpdated (sequence : Int) (runId : String) (usage : Value)
  | artifactProduced (sequence : Int) (runId artifact : String)
  | completed (sequence : Int) (runId : String) (output : List Value)
  | failed (sequence : Int) (runId message : String)
  | cancelled (sequence : Int) (runId : String)

namespace PyEvent

/-- `event.type`. -/
def type : PyEvent → String
  | .runStarted .. => "run_started"
  | .stateChanged .. => "state_changed"
  | .textDelta .. => "text_delta"
  | .reasoningDelta .. => "reasoning_delta"
  | .toolStarted .. => "tool_started"
  | .toolFinished .. => "tool_finished"
  | .operationRequested .. => "operation_requested"
  | .usageUpdated .. => "usage_updated"
  | .artifactProduced .. => "artifact_produced"
  | .completed .. => "completed"
  | .failed .. => "failed"
  | .cancelled .. => "cancelled"

/-- `is_terminal`. -/
def isTerminal (event : PyEvent) : Bool := event.type ∈ terminalTypes

end PyEvent

/-- `str(payload.get(key) or "")`. -/
def textField (py : PyBuiltins) (key : String) (payload : Value) : String :=
  py.toStr (pyOr (pyGet key payload) (.string ""))

/-- The event of a type. -/
def eventOfType (py : PyBuiltins) (eventType : String) (sequence : Int) (runId : String) (payload : Value) :
    Except PyError PyEvent :=
  let text (key : String) := textField py key payload
  if eventType = "run_started" then
    .ok (.runStarted sequence runId (pyGet "session_id" payload) (pyGet "parent_run_id" payload))
  else if eventType = "state_changed" then .ok (.stateChanged sequence runId (text "state"))
  else if eventType = "text_delta" then .ok (.textDelta sequence runId (text "delta"))
  else if eventType = "reasoning_delta" then .ok (.reasoningDelta sequence runId (text "delta"))
  else if eventType = "tool_started" then
    .ok (.toolStarted sequence runId (text "invocation_id") (text "name") (pyGet "arguments" payload))
  else if eventType = "tool_finished" then
    .ok (.toolFinished sequence runId (text "invocation_id") (text "name") (pyGet "result" payload))
  else if eventType = "operation_requested" then
    .ok (.operationRequested sequence runId (pyOr (pyGet "operation" payload) (.object [])))
  else if eventType = "usage_updated" then .ok (.usageUpdated sequence runId (pyGet "usage" payload))
  else if eventType = "artifact_produced" then .ok (.artifactProduced sequence runId (text "artifact"))
  else if eventType = "completed" then
    (py.toList (pyOr (pyGet "output" payload) (.array []))).map (.completed sequence runId)
  else if eventType = "failed" then .ok (.failed sequence runId (text "message"))
  else if eventType = "cancelled" then .ok (.cancelled sequence runId)
  else .error ⟨"ValueError", "Unknown run event type `" ++ eventType ++ "`.", ""⟩

/-- `event_from_payload`. -/
def eventFromPayload (py : PyBuiltins) (payload : Value) : Except PyError PyEvent := do
  let sequence ← (pyItem "sequence" payload).bind py.toInt
  let runId ← (pyItem "run_id" payload).map py.toStr
  eventOfType py (textField py "type" payload) sequence runId payload

/-! ## What an event stands for -/

/-- An identifier, or `None`. -/
def optionalUuid : Value → Option (Option Uuid)
  | .null => some none
  | v => (readUuid v).map some

def runStateOf (name : String) : Option RunState :=
  [RunState.running, .awaitingOperation, .completed, .failed, .cancelled].find? fun state => runStateName state = name

def effectOf (name : String) : Option ToolEffect :=
  [ToolEffect.pureRead, .fsRead, .fsWrite, .processSpawn, .processControl, .network, .settingsWrite,
    .externalSideEffect, .unknown].find? fun effect => effect.debug = name

def operationModeOf (name : String) : Option OperationMode :=
  [OperationMode.blockingApproval, .deferredCommit].find? fun mode => mode.wireName = name

/-- The operation that the `operation` of an event describes; its deadline is not told. -/
def operationOf (v : Value) : Option PendingOperation := do
  let id ← (v.get "id").bind readUuid
  let runId ← (v.get "run_id").bind readUuid
  let invocationId ← (v.get "invocation_id").bind optionalUuid
  let effect ← ((v.get "effect").bind asStr).bind effectOf
  let mode ← ((v.get "mode").bind asStr).bind operationModeOf
  let summary ← (v.get "summary").bind asStr
  let payload ← v.get "payload"
  return ⟨⟨id⟩, ⟨runId⟩, invocationId.map ToolInvocationId.mk, effect, mode, summary, payload, none⟩

namespace PyEvent

/-- The event that the attributes describe, and the number and the run that it has. -/
def fields : PyEvent → Int × String × Option RunEvent
  | .runStarted sequence runId sessionId parentRunId => (sequence, runId, do
      let run ← parseUuid runId
      let session ← optionalUuid sessionId
      let parent ← optionalUuid parentRunId
      return .runStarted ⟨⟨run⟩, session.map SessionId.mk, parent.map RunId.mk⟩)
  | .stateChanged sequence runId state => (sequence, runId, (runStateOf state).map .stateChanged)
  | .textDelta sequence runId delta => (sequence, runId, some (.modelDelta delta))
  | .reasoningDelta sequence runId delta => (sequence, runId, some (.reasoningDelta delta))
  | .toolStarted sequence runId invocationId name arguments => (sequence, runId, do
      let invocation ← parseUuid invocationId
      return .toolStarted ⟨invocation⟩ name arguments)
  | .toolFinished sequence runId invocationId name result => (sequence, runId, do
      let invocation ← parseUuid invocationId
      return .toolFinished ⟨invocation⟩ name result)
  | .operationRequested sequence runId operation => (sequence, runId, (operationOf operation).map .operationRequested)
  | .usageUpdated sequence runId usage => (sequence, runId, some (.usageUpdated usage))
  | .artifactProduced sequence runId artifact => (sequence, runId, some (.artifactProduced ⟨artifact⟩))
  | .completed sequence runId output => (sequence, runId, (output.mapM Message.fromJson).map .completed)
  | .failed sequence runId message => (sequence, runId, some (.failed message))
  | .cancelled sequence runId => (sequence, runId, some .cancelled)

/-- The envelope that an event stands for. -/
def envelope (event : PyEvent) : Option RunEventEnvelope := do
  let runId ← parseUuid event.fields.2.1
  let runEvent ← event.fields.2.2
  return ⟨event.fields.1.toNat, ⟨runId⟩, runEvent⟩

end PyEvent

/-- What Python is told of an event: a run has the identifier of its envelope, an operation no deadline, and a provider
state that is `null` is none. -/
def RunEvent.received (runId : RunId) : RunEvent → RunEvent
  | .runStarted context => .runStarted { context with runId }
  | .operationRequested operation => .operationRequested { operation with deadline := none }
  | .completed output => .completed (output.map Message.reread)
  | event => event

def RunEventEnvelope.received (envelope : RunEventEnvelope) : RunEventEnvelope :=
  { envelope with event := envelope.event.received envelope.runId }

/-! ## The round trip -/

theorem optionalUuid_ofOption {α : Type} (uuid : α → Uuid) (id : Option α) :
    optionalUuid (ofOption (fun id => ofUuid (uuid id)) id) = some (id.map uuid) := by
  cases id with
  | none => rfl
  | some id =>
    show (readUuid (ofUuid (uuid id))).map some = _
    rw [readUuid_ofUuid]
    rfl

theorem runStateOf_runStateName (state : RunState) : runStateOf (runStateName state) = some state := by
  cases state <;> simp [runStateOf, runStateName]

theorem effectOf_debug (effect : ToolEffect) : effectOf effect.debug = some effect := by
  cases effect <;> simp [effectOf, ToolEffect.debug]

theorem operationModeOf_wireName (mode : OperationMode) : operationModeOf mode.wireName = some mode := by
  cases mode <;> simp [operationModeOf, OperationMode.wireName]

/-- An operation is told with all but its deadline. -/
theorem operationOf_toJson (operation : PendingOperation) :
    operationOf (pendingOperationToJson operation) = some { operation with deadline := none } := by
  obtain ⟨id, runId, invocationId, effect, mode, summary, payload, deadline⟩ := operation
  have hinvocation : optionalUuid (ofOption (fun id => ofUuid id.uuid) invocationId) =
      some (invocationId.map ToolInvocationId.uuid) := optionalUuid_ofOption _ _
  simp [operationOf, pendingOperationToJson, Value.get, List.lookup_cons, asStr, effectOf_debug,
    operationModeOf_wireName, hinvocation, Option.map_map, Function.comp_def]

theorem mapM_messageToJson {output : List Message} (h : ∀ message ∈ output, message.Sorted) :
    (output.map messageToJson).mapM Message.fromJson = some (output.map Message.reread) := by
  have hread : readList Message.fromJson (.array (output.map messageToJson)) = some (output.map Message.reread) :=
    readList_map fun message hmessage => Message.fromJson_messageToJson (h message hmessage)
  exact hread

/-- The values in an event are values of the program. -/
def RunEvent.Sorted : RunEvent → Prop
  | .completed output => ∀ message ∈ output, message.Sorted
  | _ => True

section
variable {py : PyBuiltins} {payload value : Value} {key text : String}

theorem pyOr_of_true (h : pyTrue value = true) (other : Value) : pyOr value other = value := if_pos h

/-- The text of a field that is a string. -/
theorem textField_of_get (h : payload.get key = some (.string text)) : textField py key payload = text := by
  rw [textField, pyGet, h, Option.getD_some, pyOr]
  split
  · rfl
  · rename_i hfalse
    simp only [pyTrue, decide_not, Bool.not_eq_true, Bool.not_eq_false', decide_eq_true_eq] at hfalse
    rw [hfalse]
    rfl

theorem pyGet_of_get (h : payload.get key = some value) : pyGet key payload = value := by
  rw [pyGet, h, Option.getD_some]

/-- A list, which is read as it is also when it is empty. -/
theorem toList_pyOr (items : List Value) : py.toList (pyOr (.array items) (.array [])) = .ok items := by
  cases items with
  | nil => rfl
  | cons item items => rfl

end

/-- The payload of an envelope is read by the type of its event. -/
theorem eventFromPayload_eq (py : PyBuiltins) (envelope : RunEventEnvelope) :
    eventFromPayload py (envelopeToJson envelope) = eventOfType py envelope.event.typeName envelope.sequence
      (hyphenated envelope.runId.uuid) (envelopeToJson envelope) := by
  have htype : (envelopeToJson envelope).get "type" = some (.string envelope.event.typeName) := by
    rw [get_envelopeToJson (by decide) (by decide)]
    cases envelope.event <;> simp [eventToJson, Value.get, List.lookup_cons, RunEvent.typeName]
  rw [eventFromPayload, textField_of_get htype, pyItem, get_envelopeToJson_sequence, pyItem, get_envelopeToJson_runId]
  rfl

/-- The event that Python makes of an envelope. -/
def RunEventEnvelope.toPy (envelope : RunEventEnvelope) : PyEvent :=
  let sequence : Int := envelope.sequence
  let runId := hyphenated envelope.runId.uuid
  match envelope.event with
  | .runStarted context => .runStarted sequence runId (ofOption (fun id => ofUuid id.uuid) context.sessionId)
      (ofOption (fun id => ofUuid id.uuid) context.parentRunId)
  | .stateChanged state => .stateChanged sequence runId (runStateName state)
  | .modelDelta delta => .textDelta sequence runId delta
  | .reasoningDelta delta => .reasoningDelta sequence runId delta
  | .toolStarted invocationId name arguments =>
    .toolStarted sequence runId (hyphenated invocationId.uuid) name arguments
  | .toolFinished invocationId name result => .toolFinished sequence runId (hyphenated invocationId.uuid) name result
  | .operationRequested operation => .operationRequested sequence runId (pendingOperationToJson operation)
  | .usageUpdated usage => .usageUpdated sequence runId usage
  | .artifactProduced artifact => .artifactProduced sequence runId artifact.reference
  | .completed output => .completed sequence runId (output.map messageToJson)
  | .failed message => .failed sequence runId message
  | .cancelled => .cancelled sequence runId

/-- **What Python makes of the payload of an event.** -/
theorem eventFromPayload_toPy (py : PyBuiltins) (envelope : RunEventEnvelope) :
    eventFromPayload py (envelopeToJson envelope) = .ok envelope.toPy := by
  rw [eventFromPayload_eq]
  have hget (key : String) (hkey : key ≠ "run_id" ∧ key ≠ "sequence") {value : Value}
      (h : (eventToJson envelope.event).get key = some value) : (envelopeToJson envelope).get key = some value :=
    (get_envelopeToJson hkey.1 hkey.2 envelope).trans h
  generalize envelopeToJson envelope = payload at hget
  obtain ⟨sequence, runId, event⟩ := envelope
  cases event with
  | runStarted context =>
    have hsession := pyGet_of_get (hget "session_id" (by decide) rfl)
    have hparent := pyGet_of_get (hget "parent_run_id" (by decide) rfl)
    simp [eventOfType, RunEvent.typeName, RunEventEnvelope.toPy, hsession, hparent]
  | stateChanged state =>
    have hstate : textField py "state" payload = _ := textField_of_get (hget "state" (by decide) rfl)
    simp [eventOfType, RunEvent.typeName, RunEventEnvelope.toPy, hstate]
  | modelDelta delta | reasoningDelta delta =>
    have hdelta : textField py "delta" payload = _ := textField_of_get (hget "delta" (by decide) rfl)
    simp [eventOfType, RunEvent.typeName, RunEventEnvelope.toPy, hdelta]
  | toolStarted invocationId name arguments =>
    have hid : textField py "invocation_id" payload = _ := textField_of_get (hget "invocation_id" (by decide) rfl)
    have hname : textField py "name" payload = _ := textField_of_get (hget "name" (by decide) rfl)
    have harguments := pyGet_of_get (hget "arguments" (by decide) rfl)
    simp [eventOfType, RunEvent.typeName, RunEventEnvelope.toPy, hid, hname, harguments]
  | toolFinished invocationId name result =>
    have hid : textField py "invocation_id" payload = _ := textField_of_get (hget "invocation_id" (by decide) rfl)
    have hname : textField py "name" payload = _ := textField_of_get (hget "name" (by decide) rfl)
    have hresult := pyGet_of_get (hget "result" (by decide) rfl)
    simp [eventOfType, RunEvent.typeName, RunEventEnvelope.toPy, hid, hname, hresult]
  | operationRequested operation =>
    have hoperation := pyGet_of_get (hget "operation" (by decide) rfl)
    have htrue : pyTrue (pendingOperationToJson operation) = true := rfl
    simp [eventOfType, RunEvent.typeName, RunEventEnvelope.toPy, hoperation, pyOr_of_true htrue]
  | usageUpdated usage =>
    have husage := pyGet_of_get (hget "usage" (by decide) rfl)
    simp [eventOfType, RunEvent.typeName, RunEventEnvelope.toPy, husage]
  | artifactProduced artifact =>
    have hartifact : textField py "artifact" payload = _ := textField_of_get (hget "artifact" (by decide) rfl)
    simp [eventOfType, RunEvent.typeName, RunEventEnvelope.toPy, hartifact]
  | completed output =>
    have houtput := pyGet_of_get (hget "output" (by decide) rfl)
    simp [eventOfType, RunEvent.typeName, RunEventEnvelope.toPy, houtput, toList_pyOr, Except.map]
  | failed message =>
    have hmessage : textField py "message" payload = _ := textField_of_get (hget "message" (by decide) rfl)
    simp [eventOfType, RunEvent.typeName, RunEventEnvelope.toPy, hmessage]
  | cancelled => simp [eventOfType, RunEvent.typeName, RunEventEnvelope.toPy]

/-- What an event of Python stands for is the envelope, as far as Python is told of it. -/
theorem envelope_toPy {envelope : RunEventEnvelope} (h : envelope.event.Sorted) :
    envelope.toPy.envelope = some envelope.received := by
  obtain ⟨sequence, runId, event⟩ := envelope
  cases event with
  | runStarted context =>
    have hsession : optionalUuid (ofOption (fun id => ofUuid id.uuid) context.sessionId) = _ :=
      optionalUuid_ofOption _ _
    have hparent : optionalUuid (ofOption (fun id => ofUuid id.uuid) context.parentRunId) = _ :=
      optionalUuid_ofOption _ _
    simp [RunEventEnvelope.toPy, PyEvent.envelope, PyEvent.fields, parseUuid_hyphenated, hsession, hparent,
      RunEventEnvelope.received, RunEvent.received, Option.map_map, Function.comp_def]
  | completed output =>
    simp [RunEventEnvelope.toPy, PyEvent.envelope, PyEvent.fields, parseUuid_hyphenated,
      RunEventEnvelope.received, RunEvent.received, mapM_messageToJson h]
  | _ =>
    simp [RunEventEnvelope.toPy, PyEvent.envelope, PyEvent.fields, parseUuid_hyphenated,
      RunEventEnvelope.received, RunEvent.received, runStateOf_runStateName, operationOf_toJson]

theorem isTerminal_toPy (envelope : RunEventEnvelope) : envelope.toPy.isTerminal = isTerminalEvent envelope := by
  obtain ⟨sequence, runId, event⟩ := envelope
  cases event <;> rfl

/-- **Every event of a run arrives in Python**: its payload is read without an error, as an event that stands for it,
and is found to be the last one when it is terminal. -/
theorem event_round_trip (py : PyBuiltins) {envelope : RunEventEnvelope} (h : envelope.event.Sorted) :
    ∃ event, eventFromPayload py (envelopeToJson envelope) = .ok event ∧
      event.envelope = some envelope.received ∧ event.isTerminal = envelope.event.terminalState.isSome :=
  ⟨envelope.toPy, eventFromPayload_toPy py envelope, envelope_toPy h,
    (isTerminal_toPy envelope).trans (isTerminalEvent_eq envelope)⟩

/-- An answer with a call of a tool, whose provider state is `null`. -/
def toldMessage : Message :=
  ⟨.assistant, [.text "Hi.", .image ⟨⟨"a"⟩, "image/png"⟩], [⟨⟨3⟩, "send", .object [("to", .string "x")], none⟩], none,
    some .null⟩

theorem event_round_trip_completed : ∃ event, eventFromPayload ⟨fun _ => "", fun _ => .ok 0, fun _ => .ok []⟩
    (envelopeToJson ⟨7, ⟨1⟩, .completed [toldMessage]⟩) = .ok event ∧
      event.envelope = some ⟨7, ⟨1⟩, .completed [{ toldMessage with providerState := none }]⟩ ∧
      event.isTerminal = true := by
  refine @event_round_trip _ ⟨7, ⟨1⟩, .completed [toldMessage]⟩ fun message hmessage => ?_
  obtain rfl := List.mem_singleton.1 hmessage
  refine ⟨fun call hcall => ?_, fun state hstate => ?_⟩
  · obtain rfl := List.mem_singleton.1 hcall
    exact ⟨List.pairwise_singleton _ _, trivial, trivial⟩
  · obtain rfl := Option.some.inj hstate
    trivial

end Aifluxon
