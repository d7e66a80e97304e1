import Aifluxon.Core.Json
import Mathlib.Data.Finset.Basic

/-!
# Messages, tools and authority

The shared types of `message.rs`, `tool.rs`, `artifact.rs`, `capability.rs` and `authority.rs`.
-/

namespace Aifluxon

/-! ## Messages -/

inductive MessageRole where
  | system
  | user
  | assistant
  | tool
  deriving DecidableEq

structure ArtifactRef where
  reference : String
  deriving DecidableEq

structure ImageContent where
  artifact : ArtifactRef
  mimeType : String
  deriving DecidableEq

structure ToolCall where
  id : ToolInvocationId
  name : String
  arguments : Value
  providerCallId : Option String
  deriving DecidableEq

inductive ContentPart where
  | text (text : String)
  | image (content : ImageContent)
  deriving DecidableEq

structure Message where
  role : MessageRole
  content : List ContentPart
  toolCalls : List ToolCall
  toolCallId : Option ToolInvocationId
  providerState : Option Value
  deriving DecidableEq

/-! ## Tools -/

def maxToolArgumentBytes : Nat := 256 * 1024

inductive ToolEffect where
  | pureRead
  | fsRead
  | fsWrite
  | processSpawn
  | processControl
  | network
  | settingsWrite
  | externalSideEffect
  | unknown
  deriving DecidableEq

structure CapabilityId where
  id : String
  deriving DecidableEq

structure ToolDescriptor where
  name : String
  description : String
  inputSchema : Value
  effect : ToolEffect
  requiredCapabilities : List CapabilityId
  parallelSafe : Bool
  deriving DecidableEq

inductive ToolValidationError where
  | invalidJson
  | oversizedArgument
  | unknownTool
  | missingRequiredField (field : String)
  | wrongFieldType (field : String)
  | unknownEnum (field : String)
  | schemaViolation (kind path message : String)
  | schemaInvalid (message : String)
  deriving DecidableEq

namespace ToolValidationError

def message : ToolValidationError → String
  | .invalidJson => "Tool arguments must be valid JSON."
  | .oversizedArgument =>
    "Tool arguments exceed the " ++ toString maxToolArgumentBytes ++ "-byte limit."
  | .unknownTool => "Unknown tool."
  | .missingRequiredField field => "Tool arguments are missing required field `" ++ field ++ "`."
  | .wrongFieldType field => "Tool argument `" ++ field ++ "` has the wrong type."
  | .unknownEnum field => "Tool argument `" ++ field ++ "` is not an allowed enum value."
  | .schemaViolation _ _ message => message
  | .schemaInvalid message => message

def kind : ToolValidationError → String
  | .invalidJson => "invalid_json"
  | .oversizedArgument => "argument_too_large"
  | .unknownTool => "unknown_tool"
  | .missingRequiredField _ => "required"
  | .wrongFieldType _ => "type"
  | .unknownEnum _ => "enum"
  | .schemaViolation kind _ _ => kind
  | .schemaInvalid _ => "schema"

def path : ToolValidationError → Option String
  | .missingRequiredField field | .wrongFieldType field | .unknownEnum field => some field
  | .schemaViolation _ path _ => some path
  | .invalidJson | .oversizedArgument | .unknownTool | .schemaInvalid _ => none

def isArgumentValidation : ToolValidationError → Bool
  | .unknownTool => false
  | _ => true

end ToolValidationError

structure PreparedToolCall where
  name : String
  arguments : Value
  effect : ToolEffect
  deriving DecidableEq

/-! ## Authority -/

inductive AgentFilesystemScope where
  | workspace
  | isolated
  | scopedSelection
  | trusted
  deriving DecidableEq

inductive PermissionMode where
  | default
  | managed
  | trusted
  deriving DecidableEq

structure ExecutionAuthority where
  permissionMode : PermissionMode
  filesystemScope : AgentFilesystemScope
  capabilities : Finset CapabilityId
  deriving DecidableEq

end Aifluxon
