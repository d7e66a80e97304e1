import Aifluxon.Runtime.Continuation
import Aifluxon.Runtime.TableCalls

/-!
# The agent loop

`run_registered_model_tool_loop` and `execute_registered_tool` of `coordinator.rs`, one critical
section of the run table, or one answer of the environment, at a time.

* `CallPhase`, `CallPhase.step` : the execution of one tool call;
* `LoopPhase`, `LoopState.step` : the loop over model turns;
* `agentMachine` : the loop, the calls of a batch, and the host's calls on the table, interleaved.

The environment gives what the provider, the policy, the executors and the clocks answer, the
identifiers that are drawn, and which branch of a `select!` is taken where more than one is ready.
-/

namespace Aifluxon

/-- What the loop of a run is given for all of its turns. -/
structure AgentEnv where
  runId : RunId
  authority : ExecutionAuthority
  codec : Codec

/-- A tool call of a run: the number of its batch and its place in it. -/
structure CallKey where
  round : Nat
  index : Nat
  deriving DecidableEq

/-! ## Observations -/

inductive AgentObs where
  | turn (turn : ModelTurn)
  | validated (k : CallKey) (invocation : ToolInvocation)
  | invalid (k : CallKey) (error : ToolValidationError)
  | evaluated (k : CallKey) (input : ToolPolicyInput) (decision : ToolDecision)
  | registered (k : CallKey) (operation : PendingOperation)
  | admitted (k : CallKey)
  | started (k : CallKey) (invocation : ToolInvocation) (executor : ToolExecutor)
  | completed (k : CallKey) (id : ToolInvocationId) (result : Except ToolExecutionError ToolResult)
  | recorded (k : CallKey) (id : ToolInvocationId) (result : ToolResult)
  | message (k : CallKey) (call : ToolCall) (message : Message)
  | host (before after : CallState)

/-! ## One tool call -/

/-- The operation that the host approved for a call. -/
abbrev Approved := Option (OperationId × OperationMode)

/-- Where the execution of a tool call stands. -/
inductive CallPhase where
  | consume
  | lookup
  | prepare
  | invalidStarted (error : ToolValidationError)
  | invalidFinished (result : ToolResult)
  | decide (invocation : ToolInvocation) (executor : ToolExecutor)
  | register (draft : PendingOperationDraft) (invocation : ToolInvocation) (executor : ToolExecutor)
  | setAwaiting (operation : PendingOperation) (invocation : ToolInvocation) (executor : ToolExecutor)
  | request (operation : PendingOperation) (invocation : ToolInvocation) (executor : ToolExecutor)
  | wait (operation : PendingOperation) (invocation : ToolInvocation) (executor : ToolExecutor)
  | resume (operation : PendingOperation) (invocation : ToolInvocation) (executor : ToolExecutor)
  | rejected (reason : Option String)
  | emitStarted (invocation : ToolInvocation) (executor : ToolExecutor) (approved : Approved)
  | select (invocation : ToolInvocation) (executor : ToolExecutor) (approved : Approved)
  | executing (invocation : ToolInvocation) (executor : ToolExecutor) (approved : Approved)
  | failOperation (error : ProviderError) (approved : Approved)
  | finishOperation (result : ToolResult) (approved : Approved)
  | record (result : ToolResult)
  | emitFinished (result : ToolResult)
  | done (res : Except ProviderError Message)

/-- What the environment gives to the next step of a call. -/
inductive CallAction where
  | step
  | consume (elapsed : Duration)
  | decide (facts : Except String ResolvedResourceFacts) (decision : ToolDecision)
  | register (id : OperationId) (now : SystemTime)
  | observeCancel
  | start
  | complete (result : Except ToolExecutionError ToolResult)

/-- A step of a call: where it stands next, the table and the observations. -/
abbrev CallOutcome := CallPhase × RunTable × List AgentObs

namespace CallPhase

def budgetMessage (e : AgentBudgetExceeded) : String :=
  "Agent loop budget exceeded: " ++ e.kind.debug

def cancelledMessage : String := "Run was cancelled."

def fail (t : RunTable) (message : String) : CallOutcome := (.done (.error ⟨message⟩), t, [])

/-- The call returns the message of a result. -/
def answer (env : AgentEnv) (t : RunTable) (k : CallKey) (call : ToolCall) (result : ToolResult)
    (obs : List AgentObs) : CallOutcome :=
  let message := toolMessage env.codec.serde call result
  (.done (.ok message), t, obs ++ [.message k call message])

/-- `?` on a section of the table. -/
def after {α : Type} (res : Except RunTableError α × RunTable) (next : RunTable → CallOutcome) :
    CallOutcome :=
  match res with
  | (.error e, t) => fail t e.message
  | (.ok _, t) => next t

/-- `wait` or `wait_for_commit_or_reject`, by the mode of the operation. -/
def pollHost (t : RunTable) (runId : RunId) (operation : PendingOperation) :
    Option (Except OperationError OperationDecision) :=
  match operation.mode with
  | .blockingApproval => t.operations.pollWait runId operation.id
  | .deferredCommit => t.operations.pollWaitForCommitOrReject runId operation.id

/-- `finish_host_operation`. -/
def finishCall (runId : RunId) (id : OperationId) (mode : OperationMode)
    (result : Except String Unit) : OperationCall :=
  match mode with
  | .blockingApproval => .finishBlockingApproval runId id result
  | .deferredCommit => .finishCommit runId id result

variable (env : AgentEnv) (registry : ToolRegistry) (t : RunTable) (k : CallKey) (call : ToolCall)

/-- The arguments are printed, parsed and validated. -/
def prepareCall : CallOutcome :=
  match env.codec.serde.toString call.arguments with
  | .error error => fail t ("Tool arguments are invalid: " ++ error)
  | .ok raw => match registry.prepareInvocation env.codec call.id call.name raw with
    | .ok (invocation, executor) => (.decide invocation executor, t, [.validated k invocation])
    | .error (.validation error) =>
      if error.isArgumentValidation then (.invalidStarted error, t, [.invalid k error])
      else fail t (ToolExecutionError.validation error).message
    | .error error => fail t error.message

/-- The policy resolves the facts of a prepared invocation and decides on it. -/
def decideCall (invocation : ToolInvocation) (executor : ToolExecutor)
    (facts : Except String ResolvedResourceFacts) (decision : ToolDecision) : CallOutcome :=
  match registry.resolve call.name with
  | none => fail t "Tool disappeared during execution."
  | some registered => match facts with
    | .error message => fail t message
    | .ok facts =>
      let input : ToolPolicyInput := ⟨registered.descriptor, invocation, facts, env.authority⟩
      match decision with
      | .allow => (.emitStarted invocation executor none, t, [.evaluated k input .allow])
      | .deny reason =>
        answer env t k call (.fromValue (errorValue reason)) [.evaluated k input (.deny reason)]
      | .requireApproval draft =>
        (.register draft invocation executor, t, [.evaluated k input (.requireApproval draft)])

/-- The next step of a call; `none` : it waits, or the action is not the one it waits for. -/
def step : CallPhase → CallAction → Option CallOutcome
  | .consume, .consume elapsed => match t.consumeToolInvocation env.runId elapsed with
    | (.error e, t') => some (fail t' (budgetMessage e))
    | (.ok (), t') => some (.lookup, t', [])
  | .lookup, .step => match t.cachedToolExecution env.runId call.id with
    | .error e => some (fail t e.message)
    | .ok (some result) => some (answer env t k call result [])
    | .ok none => some (.prepare, t, [])
  | .prepare, .step => some (prepareCall env registry t k call)
  | .invalidStarted error, .step =>
    some (after (t.emit env.runId (.toolStarted call.id call.name call.arguments)) fun t' =>
      (.invalidFinished (.fromValue (validationErrorValue error)), t', []))
  | .invalidFinished result, .step =>
    some (after (t.emit env.runId (.toolFinished call.id call.name result.value)) fun t' =>
      answer env t' k call result [])
  | .decide invocation executor, .decide facts decision =>
    some (decideCall env registry t k call invocation executor facts decision)
  | .register draft invocation executor, .register id now =>
    let operation := draft.bind id env.runId
    match t.operate (.register now operation) with
    | (.error e, t') => some (fail t' e.message)
    | (.ok _, t') => some (.setAwaiting operation invocation executor, t', [.registered k operation])
  | .setAwaiting operation invocation executor, .step =>
    some (after (t.setState env.runId .awaitingOperation) fun t' =>
      (.request operation invocation executor, t', []))
  | .request operation invocation executor, .step =>
    some (after (t.emit env.runId (.operationRequested operation)) fun t' =>
      (.wait operation invocation executor, t', []))
  | .wait operation invocation executor, .step => match pollHost t env.runId operation with
    | none => none
    | some (.error e) => some (fail t e.message)
    | some (.ok (.approve _)) => some (.resume operation invocation executor, t, [])
    | some (.ok (.reject reason)) => some (.rejected reason, t, [])
  | .resume operation invocation executor, .step =>
    some (after (t.setState env.runId .running) fun t' =>
      (.emitStarted invocation executor (some (operation.id, operation.mode)), t', []))
  | .rejected reason, .step =>
    some (after (t.setState env.runId .running) fun t' =>
      answer env t' k call (.fromValue (errorValue (reason.getD "Operation rejected."))) [])
  | .emitStarted invocation executor approved, .step =>
    some (after (t.emit env.runId (.toolStarted call.id call.name call.arguments)) fun t' =>
      (.select invocation executor approved, t', [.admitted k]))
  | .select _ _ approved, .observeCancel =>
    if t.isCancelled env.runId then some (.failOperation ⟨cancelledMessage⟩ approved, t, []) else none
  | .select invocation executor approved, .start =>
    some (.executing invocation executor approved, t, [.started k invocation executor])
  | .executing _ _ approved, .observeCancel =>
    if t.isCancelled env.runId then some (.failOperation ⟨cancelledMessage⟩ approved, t, []) else none
  | .executing _ _ approved, .complete (.error e) =>
    some (.failOperation ⟨e.message⟩ approved, t, [.completed k call.id (.error e)])
  | .executing _ _ approved, .complete (.ok result) =>
    some (.finishOperation result approved, t, [.completed k call.id (.ok result)])
  | .failOperation error none, .step => some (.done (.error error), t, [])
  | .failOperation error (some (id, mode)), .step =>
    some (.done (.error error),
      (t.operate (finishCall env.runId id mode (.error error.message))).2, [])
  | .finishOperation result none, .step => some (.record result, t, [])
  | .finishOperation result (some (id, mode)), .step =>
    match t.operate (finishCall env.runId id mode (.ok ())) with
    | (.error e, t') => some (fail t' e.message)
    | (.ok _, t') => some (.record result, t', [])
  | .record result, .step =>
    some (after (t.recordToolExecution env.runId call.id result) fun t' =>
      (.emitFinished result, t', [.recorded k call.id result]))
  | .emitFinished result, .step =>
    some (after (t.emit env.runId (.toolFinished call.id call.name result.value)) fun t' =>
      answer env t' k call result [])
  | _, _ => none

end CallPhase

/-! ## The loop -/

structure Frame where
  call : ToolCall
  phase : CallPhase

namespace Frame

def isDone (frame : Frame) : Bool :=
  match frame.phase with
  | .done _ => true
  | _ => false

def isOk (frame : Frame) : Bool :=
  match frame.phase with
  | .done (.ok _) => true
  | _ => false

/-- The messages of the calls in their order, or the first error; `none` : a call before it runs. -/
def collect : List Frame → Option (Except ProviderError (List Message))
  | [] => some (.ok [])
  | frame :: frames => match frame.phase with
    | .done (.error e) => some (.error e)
    | .done (.ok message) => (collect frames).map fun res => res.map (message :: ·)
    | _ => none

end Frame

inductive LoopPhase where
  | start
  | top
  | consumeRound
  | awaiting
  | batch (parallel : Bool) (frames : List Frame)
  | returned (res : Except ProviderError RunExecutionResult)

inductive LoopAction where
  | step
  | consume (elapsed : Duration)
  | observeCancel
  | turn (res : Except ProviderError ModelTurn)

structure LoopState where
  request : ModelTurnRequest
  continuations : ContinuationCounts
  round : Nat
  phase : LoopPhase

namespace LoopState

/-- The loop on a request, before its first step. -/
def new (request : ModelTurnRequest) : LoopState := ⟨request, .forLimits .unlimited, 0, .start⟩

def failed (loop : LoopState) (message : String) : LoopState :=
  { loop with phase := .returned (.error ⟨message⟩) }

/-- The calls of a turn become a batch, if all of their tools are registered. -/
def dispatch (registry : ToolRegistry) (loop : LoopState) (turn : ModelTurn) : LoopState :=
  match turn.toolCalls.find? fun call => ¬ registry.contains call.name with
  | some call => loop.failed ("Provider requested unregistered tool `" ++ call.name ++ "`.")
  | none =>
    let resolved := turn.toolCalls.filterMap fun call => registry.resolve call.name
    { loop with
      round := loop.round + 1
      phase := .batch (canRunToolCallsInParallel (resolved.map RegisteredTool.descriptor))
        (turn.toolCalls.map fun call => ⟨call, .consume⟩) }

/-- What the loop does with a turn. -/
def receive (registry : ToolRegistry) (loop : LoopState) (turn : ModelTurn) : LoopState :=
  let request := { loop.request with opaqueState := some turn.opaqueValue }
  match turn.terminal.continuationReason with
  | some reason => match loop.continuations.tryBegin reason with
    | (true, continuations) => { loop with
        request := applyContinuation request turn reason, continuations, phase := .top }
    | (false, continuations) =>
      { loop with request, continuations }.failed
        "Model continuation limit reached before the task completed."
  | none =>
    if turn.toolCalls = [] ∨ turn.terminal ≠ .toolCalls then
      { loop with request, phase := .returned (.ok (completeWithoutTools request.messages turn)) }
    else
      { loop with
        request := { request with messages := request.messages ++ [assistantMessage turn] }
        continuations := loop.continuations.resetIncomplete }.dispatch registry turn

/-- `join_all` ends when every call has; one call after the other ends with the first error. -/
def joined (parallel : Bool) (frames : List Frame) : Option (Except ProviderError (List Message)) :=
  if parallel && ¬ frames.all Frame.isDone then none else Frame.collect frames

variable (env : AgentEnv) (registry : ToolRegistry) (t : RunTable)

def step (loop : LoopState) (action : LoopAction) : Option (LoopState × RunTable × List AgentObs) :=
  match loop.phase, action with
  | .start, .step => match t.limits env.runId with
    | .error e => some (loop.failed e.message, t, [])
    | .ok limits => some ({ loop with continuations := .forLimits limits, phase := .top }, t, [])
  | .top, .step =>
    if t.isCancelled env.runId then some (loop.failed CallPhase.cancelledMessage, t, [])
    else some ({ loop with phase := .consumeRound }, t, [])
  | .consumeRound, .consume elapsed => match t.consumeModelRound env.runId elapsed with
    | (.error e, t') => some (loop.failed (CallPhase.budgetMessage e), t', [])
    | (.ok (), t') => some ({ loop with phase := .awaiting }, t', [])
  | .awaiting, .observeCancel =>
    if t.isCancelled env.runId then some (loop.failed CallPhase.cancelledMessage, t, []) else none
  | .awaiting, .turn (.error e) => some ({ loop with phase := .returned (.error e) }, t, [])
  | .awaiting, .turn (.ok turn) => some (loop.receive registry turn, t, [.turn turn])
  | .batch parallel frames, .step => match joined parallel frames with
    | none => none
    | some (.error e) => some ({ loop with phase := .returned (.error e) }, t, [])
    | some (.ok messages) => some ({ loop with
        request := { loop.request with messages := loop.request.messages ++ messages }
        phase := .top }, t, [])
  | _, _ => none

end LoopState

/-! ## The machine -/

/-- What a provider sends through the sink of the run while it works on a turn. -/
inductive SinkEvent where
  | textDelta (delta : String)
  | reasoningDelta (delta : String)
  | usage (usage : Value)

def SinkEvent.event : SinkEvent → RunEvent
  | .textDelta delta => .modelDelta delta
  | .reasoningDelta delta => .reasoningDelta delta
  | .usage value => .usageUpdated value

structure AgentState where
  system : TableSystem
  registry : ToolRegistry
  loop : LoopState

inductive AgentAction where
  | host (a : TableAction)
  | registerTool (descriptor : ToolDescriptor) (executor : ToolExecutor)
  | sink (event : SinkEvent)
  | loop (a : LoopAction)
  | call (index : Nat) (a : CallAction)

namespace AgentState

/-- The table after a step that keeps the host's calls where they stand. -/
def withTable (s : AgentState) (t : RunTable) : AgentState := { s with system := { s.system with table := t } }

abbrev table (s : AgentState) : RunTable := s.system.table

end AgentState

/-- A call of a batch runs when the batch is parallel, or when all calls before it have succeeded. -/
def callEnabled (parallel : Bool) (frames : List Frame) (index : Nat) : Bool :=
  parallel || (frames.take index).all Frame.isOk

def agentMachine (env : AgentEnv) : Machine AgentState AgentAction AgentObs where
  step s
    | .host a => match tableMachine.step s.system a with
      | none => none
      | some (system, o) => some ({ s with system }, o.map fun p => .host p.1 p.2)
    | .registerTool descriptor executor =>
      some ({ s with registry := (s.registry.register descriptor executor).2 }, [])
    | .sink event => some (s.withTable (s.table.emit env.runId event.event).2, [])
    | .loop a => match s.loop.step env s.registry s.table a with
      | none => none
      | some (loop, t, o) => some ({ s.withTable t with loop }, o)
    | .call index a => match s.loop.phase with
      | .batch parallel frames => match frames[index]? with
        | none => none
        | some frame =>
          if callEnabled parallel frames index then
            match frame.phase.step env s.registry s.table ⟨s.loop.round, index⟩ frame.call a with
            | none => none
            | some (phase, t, o) => some ({ s.withTable t with
                loop := { s.loop with phase := .batch parallel (frames.set index { frame with phase }) } }, o)
          else none
      | _ => none

/-! ## An agent with one tool -/

/-- A codec that knows the empty object, and a schema that every object meets. -/
def objectCodec : Codec where
  serde := {
    toString := fun
      | .object [] => .ok "{}"
      | _ => .error "unknown value"
    fromStr := fun text => if text = "{}" then some (.object []) else none
    display := fun
      | .object [] => "{}"
      | _ => "" }
  schema := ⟨fun _ => some fun _ => none⟩

def sendTool : ToolDescriptor := ⟨"send", "", .object [], .externalSideEffect, [], true⟩

/-- A call of the tool, under the identifier `n`. -/
def sendCall (n : Uuid) : ToolCall := ⟨⟨n⟩, "send", .object [], none⟩

def sendTurn (calls : List ToolCall) : ModelTurn := ⟨"", "", calls, none, .toolCalls, .null⟩

def sendRequest : ModelTurnRequest where
  model := "model"
  messages := []
  tools := [sendTool]
  sessionKey := ⟨"session"⟩
  runId := ⟨1⟩
  opaqueState := none
  features := ⟨false, false, none, none, none, none, false⟩

def sendEnv : AgentEnv := ⟨⟨1⟩, ⟨.default, .workspace, ∅⟩, objectCodec⟩

/-- The agent before its first step, in a table with its run alone. -/
def sendAgent : AgentState where
  system := ⟨(RunTable.new.register ⟨⟨1⟩, none, none⟩ .unlimited).2, []⟩
  registry := (ToolRegistry.new.register sendTool ⟨0⟩).2
  loop := .new sendRequest

theorem sendAgent_wellFormed : sendAgent.table.WellFormed :=
  (RunTable.register_step .new _ _).wellFormed RunTable.new_wellFormed

/-- The loop comes to its first turn, which asks for `calls`. -/
def firstTurn (calls : List ToolCall) : List AgentAction :=
  [.loop .step, .loop .step, .loop (.consume 0), .loop (.turn (.ok (sendTurn calls)))]

/-- A call comes to the decision of the policy. -/
def toDecision (index : Nat) : List AgentAction :=
  [.call index (.consume 0), .call index .step, .call index .step]

def noFacts : ResolvedResourceFacts := ⟨none, none, none, false⟩

/-- A call is allowed and admitted. -/
def toSelect (index : Nat) : List AgentAction :=
  toDecision index ++ [.call index (.decide (.ok noFacts) .allow), .call index .step]

end Aifluxon
