import Aifluxon.Core.Message

/-!
# Operations, model turns, runs and their events

The shared types of `operation.rs`, `provider.rs`, `run.rs`, `event.rs` and `error.rs`.
-/

namespace Aifluxon

/-! ## Operations -/

inductive OperationMode where
  | blockingApproval
  | deferredCommit
  deriving DecidableEq

structure PendingOperation where
  id : OperationId
  runId : RunId
  invocationId : Option ToolInvocationId
  effect : ToolEffect
  mode : OperationMode
  summary : String
  payload : Value
  deadline : Option SystemTime
  deriving DecidableEq

structure PendingOperationDraft where
  invocationId : Option ToolInvocationId
  effect : ToolEffect
  mode : OperationMode
  summary : String
  payload : Value
  deadline : Option SystemTime
  deriving DecidableEq

def PendingOperationDraft.bind (draft : PendingOperationDraft) (id : OperationId) (runId : RunId) :
    PendingOperation where
  id := id
  runId := runId
  invocationId := draft.invocationId
  effect := draft.effect
  mode := draft.mode
  summary := draft.summary
  payload := draft.payload
  deadline := draft.deadline

inductive OperationDecision where
  | approve (data : Option Value)
  | reject (reason : Option String)
  deriving DecidableEq

inductive OperationState where
  | pending
  | approved
  | rejected
  | committing
  | committed
  | failed (message : String)
  | cancelled
  | expired
  deriving DecidableEq

def OperationState.isTerminal : OperationState → Bool
  | .rejected | .committed | .failed _ | .cancelled | .expired => true
  | .pending | .approved | .committing => false

structure OperationSnapshot where
  operation : PendingOperation
  state : OperationState
  deriving DecidableEq

/-! ## Model turns -/

structure ProviderId where
  id : String
  deriving DecidableEq

structure ModelRef where
  provider : ProviderId
  model : String
  deriving DecidableEq

structure ProviderSessionKey where
  key : String
  deriving DecidableEq

structure ProviderFeatureRequest where
  webSearch : Bool
  imageGeneration : Bool
  reasoningEffort : Option String
  thinkingMode : Option String
  thinkingBudget : Option String
  promptCacheKey : Option String
  explicitCache : Bool
  deriving DecidableEq

structure ModelTurnRequest where
  model : String
  messages : List Message
  tools : List ToolDescriptor
  sessionKey : ProviderSessionKey
  runId : RunId
  opaqueState : Option Value
  features : ProviderFeatureRequest

inductive ContinuationReason where
  | incomplete
  | providerRequested
  | summaryOnly
  deriving DecidableEq

def ContinuationReason.defaultLimit : ContinuationReason → Nat
  | .incomplete => 2
  | .summaryOnly => 1
  | .providerRequested => 4

inductive ProviderTerminal where
  | stop
  | toolCalls
  | continue (reason : ContinuationReason)
  | cancelled
  | error
  deriving DecidableEq

def ProviderTerminal.continuationReason : ProviderTerminal → Option ContinuationReason
  | .continue reason => some reason
  | _ => none

structure ModelTurn where
  text : String
  reasoning : String
  toolCalls : List ToolCall
  usage : Option Value
  terminal : ProviderTerminal
  opaqueValue : Value
  deriving DecidableEq

structure ProviderError where
  message : String
  deriving DecidableEq

/-! ## Runs -/

structure RunContext where
  runId : RunId
  sessionId : Option SessionId
  parentRunId : Option RunId
  deriving DecidableEq

/-- `u32::MAX` disables a limit. -/
structure RunLimits where
  maxModelRounds : Nat
  maxToolInvocations : Nat
  deriving DecidableEq

namespace RunLimits

def unlimited : RunLimits := ⟨u32Max, u32Max⟩

def isUnlimited (limits : RunLimits) : Bool :=
  limits.maxModelRounds == u32Max && limits.maxToolInvocations == u32Max

end RunLimits

inductive RunState where
  | running
  | awaitingOperation
  | completed
  | failed
  | cancelled
  deriving DecidableEq

/-- The `{:?}` form of a run state. -/
def RunState.debug : RunState → String
  | .running => "Running"
  | .awaitingOperation => "AwaitingOperation"
  | .completed => "Completed"
  | .failed => "Failed"
  | .cancelled => "Cancelled"

structure RunRequest where
  sessionId : Option SessionId
  messages : List Message
  model : ModelRef
  sessionKey : Option ProviderSessionKey
  allowedTools : Option (List String)
  limits : RunLimits
  features : ProviderFeatureRequest
  authority : Option ExecutionAuthority

/-! ## Events -/

inductive RunEvent where
  | runStarted (context : RunContext)
  | stateChanged (state : RunState)
  | modelDelta (delta : String)
  | reasoningDelta (delta : String)
  | toolStarted (invocationId : ToolInvocationId) (name : String) (arguments : Value)
  | toolFinished (invocationId : ToolInvocationId) (name : String) (result : Value)
  | operationRequested (operation : PendingOperation)
  | usageUpdated (usage : Value)
  | artifactProduced (artifact : ArtifactRef)
  | completed (output : List Message)
  | failed (message : String)
  | cancelled
  deriving DecidableEq

namespace RunEvent

def terminalState : RunEvent → Option RunState
  | .completed _ => some .completed
  | .failed _ => some .failed
  | .cancelled => some .cancelled
  | _ => none

def isRunStarted : RunEvent → Bool
  | .runStarted _ => true
  | _ => false

end RunEvent

structure RunEventEnvelope where
  sequence : Nat
  runId : RunId
  event : RunEvent
  deriving DecidableEq

end Aifluxon
