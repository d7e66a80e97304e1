import Aifluxon.Runtime.Coordinator
import Aifluxon.Runtime.State

/-!
# Launching a run

`Aifluxon::launch` of `backend.rs` with `prompt.rs`: from a request to a registered run, its event
forwarder and its task.

* `validateRequest`, `selectedTools`, `mergeSessionAndRequestMessages` : what a launch computes;
* `Forwarder`, `Forwarder.poll` : the loop of `spawn_event_forwarder`;
* `launch` : the fallible steps in their order, each with what it leaves behind;
* `RunTask.agent` : the agent loop that the task of a launched run starts.

The environment gives the identifiers, the times, the faults of the stores, and how far the forwarder
gets while the launch waits for a store.
-/

namespace Aifluxon

/-! ## Errors -/

inductive AifluxonErrorKind where
  | invalidConfiguration
  | invalidRequest
  | provider
  | tool
  | policyDenied
  | operationPending
  | operationRejected
  | cancelled
  | budgetExceeded
  | stateConflict
  | runtimeUnavailable
  | failed
  | internal
  deriving DecidableEq

structure AifluxonError where
  kind : AifluxonErrorKind
  message : String
  deriving DecidableEq

def mapRuntimeError (error : RunTableError) : AifluxonError where
  kind := match error with
    | .unknownRun => .invalidRequest
    | .runTerminal => .stateConflict
    | _ => .internal
  message := error.message

def mapStoreError (error : StoreError) : AifluxonError where
  kind := match error with
    | .conflict => .stateConflict
    | .invalidId => .invalidRequest
    | _ => .internal
  message := error.message

/-! ## Messages -/

def splitLeadingSystem (messages : List Message) : List Message × List Message :=
  let count := (messages.takeWhile fun message => message.role = .system).length
  (messages.take count, messages.drop count)

def mergeSessionAndRequestMessages (session request : List Message) : List Message :=
  let (requestSystem, requestRest) := splitLeadingSystem request
  if requestSystem = [] then session ++ requestRest
  else requestSystem ++ (splitLeadingSystem session).2 ++ requestRest

/-! ## The configuration -/

structure ProviderRegistry where
  providers : Finset ProviderId

def ProviderRegistry.contains (registry : ProviderRegistry) (id : ProviderId) : Bool :=
  id ∈ registry.providers

def ProviderRegistry.resolveRequired (registry : ProviderRegistry) (id : ProviderId) :
    Except String Unit :=
  if registry.contains id then .ok () else .error "The provider is not registered."

/-- What a launch reads of the configuration; `supports` is the host's workspace. -/
structure BackendConfiguration where
  providerRegistry : ProviderRegistry
  toolRegistry : ToolRegistry
  supports : CapabilityId → Bool

def BackendConfiguration.validateRequest (configuration : BackendConfiguration) (request : RunRequest) :
    Except AifluxonError Unit :=
  if trim request.model.provider.id = "" ∨ trim request.model.model = "" then
    .error ⟨.invalidRequest, "Run requests require a provider identifier and model name."⟩
  else if ¬ configuration.providerRegistry.contains request.model.provider then
    .error ⟨.provider, "Provider `" ++ request.model.provider.id ++ "` is not registered."⟩
  else match request.allowedTools with
    | none => .ok ()
    | some allowedTools =>
      match allowedTools.find? fun name => ¬ configuration.toolRegistry.contains name with
      | some unknown => .error ⟨.tool, "Tool `" ++ unknown ++ "` is not registered."⟩
      | none => .ok ()

def selectedTools (registry : ToolRegistry) : Option (List String) → List ToolDescriptor
  | some allowed => allowed.filterMap fun name => (registry.resolve name).map RegisteredTool.descriptor
  | none => registry.descriptors

/-- The authority of a run holds the capabilities that its tools require and the host supports. -/
def BackendConfiguration.authority (configuration : BackendConfiguration) (tools : List ToolDescriptor)
    (requested : Option ExecutionAuthority) : ExecutionAuthority :=
  let authority := requested.getD ⟨.default, .isolated, ∅⟩
  let capabilities := (tools.flatMap ToolDescriptor.requiredCapabilities).filter configuration.supports
  { authority with capabilities := authority.capabilities ∪ capabilities.toFinset }

/-! ## The event forwarder -/

/-- The loop of a forwarder between two events. `receiving` : the stream that it sends to is there;
`queued` : the events in its channel. -/
structure Forwarder where
  runId : RunId
  sequence : Nat
  queued : Nat
  receiving : Bool
  deriving DecidableEq

namespace Forwarder

def capacity : Nat := 128

def new (runId : RunId) : Forwarder := ⟨runId, 0, 0, true⟩

/-- The next event; `none` : the loop has returned. A forwarder without an event, or without room in
its channel, waits. -/
def poll (t : RunTable) (f : Forwarder) : Option Forwarder :=
  match t.eventsSince f.runId f.sequence with
  | .error _ => none
  | .ok [] => some f
  | .ok (event :: _) =>
    if ¬ f.receiving then none
    else if capacity ≤ f.queued then some f
    else if event.event.terminalState.isSome then none
    else some { f with sequence := event.sequence, queued := f.queued + 1 }

def polls (t : RunTable) : Nat → Forwarder → Option Forwarder
  | 0, f => some f
  | n + 1, f => (f.poll t).bind (polls t n)

end Forwarder

/-! ## The launch -/

/-- What a launch reads and changes. -/
structure Backend where
  table : RunTable
  stores : Stores
  forwarders : List Forwarder

/-- What the environment gives to a launch. -/
structure LaunchEnv where
  codec : Codec
  runId : RunId
  sessionId : SessionId
  now : TimestampMillis
  sessionLoad : Option StoreError
  providerStateLoad : Option StoreError
  checkpointSave : Fault
  polls : Nat

/-- What the task of a run is given. -/
structure RunTask where
  env : AgentEnv
  registry : ToolRegistry
  request : ModelTurnRequest
  sessionId : Option SessionId
  sessionRecord : SessionRecord
  providerId : ProviderId

/-- The agent loop of the task, before its first step. -/
def RunTask.agent (task : RunTask) (t : RunTable) : AgentState := ⟨⟨t, []⟩, task.registry, .new task.request⟩

/-- The handle of a run, with the task that runs it. -/
structure Launched where
  context : RunContext
  task : RunTask

section Launch
variable (configuration : BackendConfiguration) (env : LaunchEnv) (request : RunRequest)

/-- The record of the session, from the store or new. -/
def openRecord (stores : Stores) : Except StoreError SessionRecord :=
  match request.sessionId with
  | none => .ok (.new env.sessionId env.now)
  | some sessionId => match stores.sessions.load env.sessionLoad sessionId with
    | .error error => .error error
    | .ok record => .ok (record.getD (.new sessionId env.now))

/-- A run that the host has registered, or a new one. -/
def openRun (existingRun : Option RunId) (t : RunTable) : Except RunTableError RunContext × RunTable :=
  match existingRun with
  | some runId => (t.context runId, t)
  | none => t.register ⟨env.runId, request.sessionId, none⟩ request.limits

/-- The provider's state of the session. -/
def loadState (stores : Stores) : Except StoreError (Option Value) :=
  match request.sessionId with
  | none => .ok none
  | some sessionId =>
    match stores.providerStates.load env.providerStateLoad sessionId request.model.provider with
    | .error error => .error error
    | .ok record => .ok (record.map ProviderStateRecord.state)

def sessionKey (record : SessionRecord) : ProviderSessionKey :=
  request.sessionKey.getD ⟨hyphenated (request.sessionId.getD record.id).uuid⟩

/-- The task of a run. -/
def runTask (record : SessionRecord) (context : RunContext) (opaqueState : Option Value) : RunTask where
  env := ⟨context.runId, configuration.authority
    (selectedTools configuration.toolRegistry request.allowedTools) request.authority, env.codec⟩
  registry := configuration.toolRegistry
  request := {
    model := request.model.model
    messages := mergeSessionAndRequestMessages
      (if request.sessionId.isSome then record.messages else []) request.messages
    tools := selectedTools configuration.toolRegistry request.allowedTools
    sessionKey := sessionKey request record
    runId := context.runId
    opaqueState
    features := request.features }
  sessionId := request.sessionId
  sessionRecord := record
  providerId := request.model.provider

/-- The checkpoint of a run before its first step. -/
def RunTask.checkpoint (task : RunTask) (now : TimestampMillis) : RunCheckpoint :=
  ⟨task.env.runId, task.sessionId, .running, task.request.messages, task.request.opaqueState, now⟩

/-- The forwarder of the run, as far as it gets while the launch goes on. -/
def forwarders (t : RunTable) (runId : RunId) (receiving : Bool) : List Forwarder :=
  ((Forwarder.new runId).polls t env.polls).toList.map fun f => { f with receiving }

/-- The steps of a launch once its run is there. An error drops the stream of the events, and
nothing else. -/
def launchRun (record : SessionRecord) (context : RunContext) (w : Backend) :
    Except AifluxonError Launched × Backend :=
  let dropped := w.forwarders ++ forwarders env w.table context.runId false
  match loadState env request w.stores with
  | .error error => (.error (mapStoreError error), { w with forwarders := dropped })
  | .ok opaqueState =>
    let task := runTask configuration env request record context opaqueState
    match w.stores.checkpoints.save env.checkpointSave (task.checkpoint env.now) with
    | (.error error, checkpoints) => (.error (mapStoreError error),
        { w with stores := { w.stores with checkpoints }, forwarders := dropped })
    | (.ok (), checkpoints) => (.ok ⟨context, task⟩,
        { w with
          stores := { w.stores with checkpoints }
          forwarders := w.forwarders ++ forwarders env w.table context.runId true })

def launch (existingRun : Option RunId) (w : Backend) : Except AifluxonError Launched × Backend :=
  match configuration.validateRequest request with
  | .error error => (.error error, w)
  | .ok () => match configuration.providerRegistry.resolveRequired request.model.provider with
    | .error message => (.error ⟨.provider, message⟩, w)
    | .ok () => match openRecord env request w.stores with
      | .error error => (.error (mapStoreError error), w)
      | .ok record => match openRun env request existingRun w.table with
        | (.error error, t) => (.error (mapRuntimeError error), { w with table := t })
        | (.ok context, t) => launchRun configuration env request record context { w with table := t }

/-- `Aifluxon::start`. -/
def start (w : Backend) : Except AifluxonError Launched × Backend := launch configuration env request none w

end Launch

end Aifluxon
