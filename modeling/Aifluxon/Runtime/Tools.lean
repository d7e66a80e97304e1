import Aifluxon.Core.Run
import Aifluxon.Lib.HashMap
import Mathlib.Data.List.Sort

/-!
# Tools

`executor.rs`, `validation.rs`, `registry.rs` and `policy.rs`.

* `ToolResult`, `ToolLedger` : the recorded results of a run;
* `prepareToolCall` : arguments are parsed and validated; `JsonSchema` stands for the validator crate;
* `ToolRegistry` : every tool stands under the name of its descriptor;
* `ToolPolicyInput`, `ToolDecision` : what a policy sees and answers.
-/

namespace Aifluxon

structure ToolInvocation where
  id : ToolInvocationId
  name : String
  arguments : Value
  effect : ToolEffect
  deriving DecidableEq

structure ToolResult where
  value : Value
  content : Option (List ContentPart)
  deriving DecidableEq

def ToolResult.fromValue (value : Value) : ToolResult := ⟨value, none⟩

inductive ToolExecutionError where
  | validation (error : ToolValidationError)
  | rejectedDuplicate
  | failed (message : String)
  deriving DecidableEq

def ToolExecutionError.message : ToolExecutionError → String
  | .validation error => error.message
  | .rejectedDuplicate =>
    "Duplicate tool invocation was rejected because the original side effect already ran."
  | .failed message => message

/-! ## The ledger -/

structure ToolLedger where
  completed : HashMap ToolInvocationId ToolResult

namespace ToolLedger

def new : ToolLedger := ⟨∅⟩

def get (ledger : ToolLedger) (invocationId : ToolInvocationId) : Option ToolResult :=
  ledger.completed.lookup invocationId

def record (ledger : ToolLedger) (invocationId : ToolInvocationId) (result : ToolResult) : ToolLedger :=
  ⟨ledger.completed.insert invocationId result⟩

@[simp] theorem get_new (a : ToolInvocationId) : new.get a = none := rfl

@[simp] theorem get_record (ledger : ToolLedger) (id a : ToolInvocationId) (result : ToolResult) :
    (ledger.record id result).get a = if a = id then some result else ledger.get a :=
  HashMap.lookup_insert_ite _ _ _ _

end ToolLedger

/-! ## Validation of arguments -/

/-- What the code reads of a `jsonschema::error::ValidationErrorKind`. -/
inductive ValidationErrorKind where
  | required (property : Value)
  | type
  | enum
  | additionalProperties
  | unevaluatedProperties
  | minLength
  | maxLength
  | minimum
  | exclusiveMinimum
  | maximum
  | exclusiveMaximum
  | minItems
  | maxItems
  | pattern
  | format
  | other

/-- `jsonschema::ValidationError`. -/
structure SchemaError where
  instancePath : String
  kind : ValidationErrorKind
  display : String

/-- The validator crate: `validator_for` compiles a schema, or fails; the compiled validator gives
the first of the errors of an instance. -/
structure JsonSchema where
  validatorFor : Value → Option (Value → Option SchemaError)

/-- `entry(key).or_insert(value)`. -/
def entryOrInsert (key : String) (value : Value) (entries : List (String × Value)) :
    List (String × Value) :=
  if (entries.lookup key).isSome then entries else insertEntry key value entries

/-- The schema that `validate_tool_arguments` compiles. -/
def relaxed : Value → Value
  | .object entries => .object
    (entryOrInsert "type" (.string "object") (insertEntry "additionalProperties" (.bool true) entries))
  | schema => schema

def replaceChar (text : String) (c : Char) (by' : String) : String :=
  String.ofList (text.toList.flatMap fun x => if x = c then by'.toList else [x])

def escapeJsonPointerSegment (segment : String) : String :=
  replaceChar (replaceChar segment '~' "~0") '/' "~1"

def schemaViolation (error : SchemaError) : ToolValidationError :=
  let path := match error.kind with
    | .required (.string property) =>
      error.instancePath ++ "/" ++ escapeJsonPointerSegment property
    | _ => error.instancePath
  let kind := match error.kind with
    | .required _ => "required"
    | .type => "type"
    | .enum => "enum"
    | .additionalProperties | .unevaluatedProperties => "additional_properties"
    | .minLength => "min_length"
    | .maxLength => "max_length"
    | .minimum | .exclusiveMinimum => "minimum"
    | .maximum | .exclusiveMaximum => "maximum"
    | .minItems => "min_items"
    | .maxItems => "max_items"
    | .pattern => "pattern"
    | .format => "format"
    | .other => "schema"
  .schemaViolation kind path error.display

/-- The code outside the repository that prepares arguments. -/
structure Codec where
  serde : Serde
  schema : JsonSchema

section Prepare
variable (codec : Codec)

def parseToolArguments (raw : String) : Except ToolValidationError Value :=
  if raw.utf8ByteSize > maxToolArgumentBytes then .error .oversizedArgument
  else if trim raw = "" then .ok (.object [])
  else match codec.serde.fromStr (trim raw) with
    | some arguments => .ok arguments
    | none => .error .invalidJson

def validateToolArguments (schema arguments : Value) : Except ToolValidationError Unit :=
  if ¬ arguments.isObject then
    .error (.schemaViolation "type" "" "Tool arguments must be a JSON object.")
  else match codec.schema.validatorFor (relaxed schema) with
    | none => .ok ()
    | some validator => match validator arguments with
      | none => .ok ()
      | some error => .error (schemaViolation error)

def prepareToolCall (descriptor : ToolDescriptor) (rawArguments : String) :
    Except ToolValidationError PreparedToolCall :=
  match parseToolArguments codec rawArguments with
  | .error error => .error error
  | .ok arguments => match validateToolArguments codec descriptor.inputSchema arguments with
    | .error error => .error error
    | .ok () => .ok ⟨descriptor.name, arguments, descriptor.effect⟩

def invocationFromPrepared (invocationId : ToolInvocationId) (prepared : PreparedToolCall) :
    ToolInvocation :=
  ⟨invocationId, prepared.name, prepared.arguments, prepared.effect⟩

/-- `prepare_invocation` of `executor.rs`. -/
def prepareWithDescriptor (invocationId : ToolInvocationId) (descriptor : ToolDescriptor)
    (rawArguments : String) : Except ToolExecutionError ToolInvocation :=
  match prepareToolCall codec descriptor rawArguments with
  | .error error => .error (.validation error)
  | .ok prepared => .ok (invocationFromPrepared invocationId prepared)

theorem prepareWithDescriptor_ok {id : ToolInvocationId} {descriptor : ToolDescriptor} {raw : String}
    {invocation : ToolInvocation} (h : prepareWithDescriptor codec id descriptor raw = .ok invocation) :
    ∃ arguments, parseToolArguments codec raw = .ok arguments ∧
      validateToolArguments codec descriptor.inputSchema arguments = .ok () ∧
      invocation = ⟨id, descriptor.name, arguments, descriptor.effect⟩ := by
  unfold prepareWithDescriptor prepareToolCall at h
  split at h
  · cases h
  rename_i prepared hprep
  split at hprep
  · cases hprep
  rename_i arguments hparse
  split at hprep
  · cases hprep
  rename_i hvalid
  cases hprep
  cases h
  exact ⟨arguments, hparse, hvalid, rfl⟩

/-- `json!({…})` of an argument that did not pass; its entries stand in the order of the map. -/
def validationErrorValue (error : ToolValidationError) : Value :=
  .object [
    ("error", .string error.message),
    ("errorCode", .string "TOOL_ARGUMENT_VALIDATION_FAILED"),
    ("ok", .bool false),
    ("validation", .object [
      ("kind", .string error.kind),
      ("path", match error.path with
        | some path => .string path
        | none => .null),
      ("pathFormat", .string "json_pointer"),
      ("retryable", .bool true)])]

end Prepare

/-! ## The registry -/

/-- An executor of the host; only its identity matters here. -/
structure ToolExecutor where
  id : Nat
  deriving DecidableEq

structure RegisteredTool where
  descriptor : ToolDescriptor
  executor : ToolExecutor
  deriving DecidableEq

inductive ToolRegistryError where
  | duplicateToolName (name : String)
  deriving DecidableEq

/-- Every tool stands under the name of its descriptor. -/
structure ToolRegistry where
  tools : HashMap String RegisteredTool
  keyed : ∀ name tool, tools.lookup name = some tool → tool.descriptor.name = name

namespace ToolRegistry

def new : ToolRegistry where
  tools := ∅
  keyed := by simp

def resolve (registry : ToolRegistry) (name : String) : Option RegisteredTool :=
  registry.tools.lookup name

def contains (registry : ToolRegistry) (name : String) : Bool := (registry.resolve name).isSome

def register (registry : ToolRegistry) (descriptor : ToolDescriptor) (executor : ToolExecutor) :
    Except ToolRegistryError Unit × ToolRegistry :=
  if registry.contains descriptor.name then (.error (.duplicateToolName descriptor.name), registry)
  else (.ok (), {
    tools := registry.tools.insert descriptor.name ⟨descriptor, executor⟩
    keyed := by
      intro name tool h
      rw [HashMap.lookup_insert_ite] at h
      split at h
      · cases h; exact Eq.symm ‹_›
      · exact registry.keyed name tool h })

def descriptors (registry : ToolRegistry) : List ToolDescriptor :=
  (registry.tools.values.map RegisteredTool.descriptor).insertionSort fun a b => a.name ≤ b.name

def prepareInvocation (codec : Codec) (registry : ToolRegistry) (invocationId : ToolInvocationId)
    (name rawArguments : String) : Except ToolExecutionError (ToolInvocation × ToolExecutor) :=
  match registry.resolve name with
  | none => .error (.validation .unknownTool)
  | some registered => match prepareWithDescriptor codec invocationId registered.descriptor rawArguments with
    | .error error => .error error
    | .ok invocation => .ok (invocation, registered.executor)

theorem resolve_name {registry : ToolRegistry} {name : String} {tool : RegisteredTool}
    (h : registry.resolve name = some tool) : tool.descriptor.name = name :=
  registry.keyed name tool h

/-- What `prepare_invocation` found and prepared. -/
theorem prepareInvocation_ok {codec : Codec} {registry : ToolRegistry} {id : ToolInvocationId}
    {name raw : String} {invocation : ToolInvocation} {executor : ToolExecutor}
    (h : registry.prepareInvocation codec id name raw = .ok (invocation, executor)) :
    ∃ tool, registry.resolve name = some tool ∧ executor = tool.executor ∧
      prepareWithDescriptor codec id tool.descriptor raw = .ok invocation := by
  unfold prepareInvocation at h
  split at h
  · cases h
  rename_i tool htool
  split at h
  · cases h
  rename_i inv hinv
  cases h
  exact ⟨tool, htool, rfl, hinv⟩

/-- A prepared invocation runs under the name of the call. -/
theorem prepareInvocation_name {codec : Codec} {registry : ToolRegistry} {id : ToolInvocationId}
    {name raw : String} {invocation : ToolInvocation} {executor : ToolExecutor}
    (h : registry.prepareInvocation codec id name raw = .ok (invocation, executor)) :
    invocation.name = name ∧ invocation.id = id := by
  obtain ⟨tool, htool, -, hinv⟩ := prepareInvocation_ok h
  obtain ⟨arguments, -, -, rfl⟩ := prepareWithDescriptor_ok codec hinv
  exact ⟨resolve_name htool, rfl⟩

end ToolRegistry

/-! ## Policies -/

structure ResolvedResourceFacts where
  resource : Option String
  cwd : Option String
  networkTarget : Option String
  preparedEffect : Bool
  deriving DecidableEq

structure ToolPolicyInput where
  descriptor : ToolDescriptor
  invocation : ToolInvocation
  facts : ResolvedResourceFacts
  authority : ExecutionAuthority
  deriving DecidableEq

inductive ToolDecision where
  | allow
  | deny (reason : String)
  | requireApproval (operation : PendingOperationDraft)
  deriving DecidableEq

def canRunToolCallsInParallel (calls : List ToolDescriptor) : Bool :=
  calls.length > 1 && calls.all fun descriptor => descriptor.parallelSafe

end Aifluxon
