import Aifluxon.Runtime.Coordinator
import Aifluxon.Runtime.Finish

/-!
# The steps of the agent loop

All that a step of `agentMachine` can do, as relations with one constructor for each way it goes.

* `CallStep`, `callStep_of_step` : the steps of a tool call;
* `LoopStep`, `loopStep_of_step` : the steps of the loop over model turns;
* `AgentStep`, `agentStep_of_step` : the steps of the machine;
* `agent_wellFormed` : every table that the machine reaches is well formed.
-/

namespace Aifluxon

/-! ## Steps of a call -/

/-- The call that emits an observation. -/
def AgentObs.key? : AgentObs → Option CallKey
  | .validated k _ | .invalid k _ | .evaluated k _ _ | .registered k _ | .admitted k | .started k _ _
  | .completed k _ _ | .recorded k _ _ | .message k _ _ => some k
  | .turn _ | .host _ _ => none

/-- The sections of a call that fail only on a closed run. -/
def CallPhase.InSection : CallPhase → Bool
  | .invalidStarted _ | .invalidFinished _ | .setAwaiting .. | .request .. | .resume .. | .rejected _
  | .emitStarted .. | .record _ | .emitFinished _ => true
  | _ => false

section CallStep
variable (env : AgentEnv) (registry : ToolRegistry) (t : RunTable) (k : CallKey) (call : ToolCall)

/-- All that a step of a call can do. -/
inductive CallStep : CallPhase → CallOutcome → Prop where
  | consumed {t' : RunTable} (h : InnerStep t env.runId t') : CallStep .consume (.lookup, t', [])
  | consumeFailed {t' : RunTable} (e : ProviderError) (h : InnerStep t env.runId t') :
      CallStep .consume (.done (.error e), t', [])
  | cached {r : RunRecord} {result : ToolResult} (hr : t.get env.runId = some r)
      (h : r.ledger.get call.id = some result) : CallStep .lookup (CallPhase.answer env t k call result [])
  | uncached {r : RunRecord} (hr : t.get env.runId = some r) (h : r.ledger.get call.id = none) :
      CallStep .lookup (.prepare, t, [])
  | lookupFailed (e : ProviderError) : CallStep .lookup (.done (.error e), t, [])
  | validated {raw : String} {invocation : ToolInvocation} {executor : ToolExecutor}
      (hraw : env.codec.serde.toString call.arguments = .ok raw)
      (h : registry.prepareInvocation env.codec call.id call.name raw = .ok (invocation, executor)) :
      CallStep .prepare (.decide invocation executor, t, [.validated k invocation])
  | invalid (error : ToolValidationError) :
      CallStep .prepare (.invalidStarted error, t, [.invalid k error])
  | prepareFailed (e : ProviderError) : CallStep .prepare (.done (.error e), t, [])
  | invalidStarted {error : ToolValidationError} {t' : RunTable}
      (h : Moved t env.runId (.appends (.toolStarted call.id call.name call.arguments)) t') :
      CallStep (.invalidStarted error) (.invalidFinished (.fromValue (validationErrorValue error)), t', [])
  | invalidFinished {result : ToolResult} {t' : RunTable}
      (h : Moved t env.runId (.appends (.toolFinished call.id call.name result.value)) t') :
      CallStep (.invalidFinished result) (CallPhase.answer env t' k call result [])
  | decideFailed {invocation : ToolInvocation} {executor : ToolExecutor} (e : ProviderError) :
      CallStep (.decide invocation executor) (.done (.error e), t, [])
  | allowed {invocation : ToolInvocation} {executor : ToolExecutor} {registered : RegisteredTool}
      {facts : ResolvedResourceFacts} (h : registry.resolve call.name = some registered) :
      CallStep (.decide invocation executor) (.emitStarted invocation executor none, t,
        [.evaluated k ⟨registered.descriptor, invocation, facts, env.authority⟩ .allow])
  | denied {invocation : ToolInvocation} {executor : ToolExecutor} {registered : RegisteredTool}
      {facts : ResolvedResourceFacts} {reason : String}
      (h : registry.resolve call.name = some registered) :
      CallStep (.decide invocation executor)
        (CallPhase.answer env t k call (.fromValue (errorValue reason))
          [.evaluated k ⟨registered.descriptor, invocation, facts, env.authority⟩ (.deny reason)])
  | approvalRequired {invocation : ToolInvocation} {executor : ToolExecutor} {registered : RegisteredTool}
      {facts : ResolvedResourceFacts} {draft : PendingOperationDraft}
      (h : registry.resolve call.name = some registered) :
      CallStep (.decide invocation executor) (.register draft invocation executor, t,
        [.evaluated k ⟨registered.descriptor, invocation, facts, env.authority⟩ (.requireApproval draft)])
  | registerFailed {draft : PendingOperationDraft} {invocation : ToolInvocation}
      {executor : ToolExecutor} {t' : RunTable} (e : ProviderError) (h : SameTable t t') :
      CallStep (.register draft invocation executor) (.done (.error e), t', [])
  | registered {draft : PendingOperationDraft} {invocation : ToolInvocation} {executor : ToolExecutor}
      {id : OperationId} {now : SystemTime}
      (h : Registrable t.operations now (draft.bind id env.runId)) :
      CallStep (.register draft invocation executor)
        (.setAwaiting (draft.bind id env.runId) invocation executor,
          (t.operate (.register now (draft.bind id env.runId))).2,
          [.registered k (draft.bind id env.runId)])
  | awaiting {operation : PendingOperation} {invocation : ToolInvocation} {executor : ToolExecutor}
      {t' : RunTable} (h : Moved t env.runId (.appends (.stateChanged .awaitingOperation)) t') :
      CallStep (.setAwaiting operation invocation executor) (.request operation invocation executor, t', [])
  | requested {operation : PendingOperation} {invocation : ToolInvocation} {executor : ToolExecutor}
      {t' : RunTable} (h : Moved t env.runId (.appends (.operationRequested operation)) t') :
      CallStep (.request operation invocation executor) (.wait operation invocation executor, t', [])
  | waitFailed {operation : PendingOperation} {invocation : ToolInvocation} {executor : ToolExecutor}
      {error : OperationError} (h : CallPhase.pollHost t env.runId operation = some (.error error)) :
      CallStep (.wait operation invocation executor) (.done (.error ⟨error.message⟩), t, [])
  | approved {operation : PendingOperation} {invocation : ToolInvocation} {executor : ToolExecutor}
      {data : Option Value} (h : CallPhase.pollHost t env.runId operation = some (.ok (.approve data))) :
      CallStep (.wait operation invocation executor) (.resume operation invocation executor, t, [])
  | rejected {operation : PendingOperation} {invocation : ToolInvocation} {executor : ToolExecutor}
      {reason : Option String} (h : CallPhase.pollHost t env.runId operation = some (.ok (.reject reason))) :
      CallStep (.wait operation invocation executor) (.rejected reason, t, [])
  | resumed {operation : PendingOperation} {invocation : ToolInvocation} {executor : ToolExecutor}
      {t' : RunTable} (h : Moved t env.runId (.appends (.stateChanged .running)) t') :
      CallStep (.resume operation invocation executor)
        (.emitStarted invocation executor (some (operation.id, operation.mode)), t', [])
  | refused {reason : Option String} {t' : RunTable}
      (h : Moved t env.runId (.appends (.stateChanged .running)) t') :
      CallStep (.rejected reason) (CallPhase.answer env t' k call
        (.fromValue (errorValue (reason.getD "Operation rejected."))) [])
  | admitted {invocation : ToolInvocation} {executor : ToolExecutor} {approved : Approved} {t' : RunTable}
      (h : Moved t env.runId (.appends (.toolStarted call.id call.name call.arguments)) t') :
      CallStep (.emitStarted invocation executor approved)
        (.select invocation executor approved, t', [.admitted k])
  | selectCancelled {invocation : ToolInvocation} {executor : ToolExecutor} {approved : Approved}
      (h : t.isCancelled env.runId = true) : CallStep (.select invocation executor approved)
        (.failOperation ⟨CallPhase.cancelledMessage⟩ approved, t, [])
  | started {invocation : ToolInvocation} {executor : ToolExecutor} {approved : Approved} :
      CallStep (.select invocation executor approved)
        (.executing invocation executor approved, t, [.started k invocation executor])
  | executionCancelled {invocation : ToolInvocation} {executor : ToolExecutor} {approved : Approved}
      (h : t.isCancelled env.runId = true) : CallStep (.executing invocation executor approved)
        (.failOperation ⟨CallPhase.cancelledMessage⟩ approved, t, [])
  | failed {invocation : ToolInvocation} {executor : ToolExecutor} {approved : Approved}
      (e : ToolExecutionError) : CallStep (.executing invocation executor approved)
        (.failOperation ⟨e.message⟩ approved, t, [.completed k call.id (.error e)])
  | completed {invocation : ToolInvocation} {executor : ToolExecutor} {approved : Approved}
      (result : ToolResult) : CallStep (.executing invocation executor approved)
        (.finishOperation result approved, t, [.completed k call.id (.ok result)])
  | failPlain {error : ProviderError} : CallStep (.failOperation error none) (.done (.error error), t, [])
  | failApproved {error : ProviderError} {id : OperationId} {mode : OperationMode} :
      CallStep (.failOperation error (some (id, mode))) (.done (.error error),
        (t.operate (CallPhase.finishCall env.runId id mode (.error error.message))).2, [])
  | finishPlain {result : ToolResult} : CallStep (.finishOperation result none) (.record result, t, [])
  | finishApproved {result : ToolResult} {id : OperationId} {mode : OperationMode} {n : Option Nat}
      (h : (t.operate (CallPhase.finishCall env.runId id mode (.ok ()))).1 = .ok n) :
      CallStep (.finishOperation result (some (id, mode))) (.record result,
        (t.operate (CallPhase.finishCall env.runId id mode (.ok ()))).2, [])
  | finishFailed {result : ToolResult} {id : OperationId} {mode : OperationMode} {t' : RunTable}
      {error : OperationError}
      (h : t.operate (CallPhase.finishCall env.runId id mode (.ok ())) = (.error error, t')) :
      CallStep (.finishOperation result (some (id, mode))) (.done (.error ⟨error.message⟩), t', [])
  | recorded {result : ToolResult} {t' : RunTable} (h : Moved t env.runId (.recorded call.id result) t') :
      CallStep (.record result) (.emitFinished result, t', [.recorded k call.id result])
  | answered {result : ToolResult} {t' : RunTable}
      (h : Moved t env.runId (.appends (.toolFinished call.id call.name result.value)) t') :
      CallStep (.emitFinished result) (CallPhase.answer env t' k call result [])
  | sectionFailed {phase : CallPhase} {t' : RunTable} (e : ProviderError) (hp : phase.InSection = true)
      (hclosed : t.Closed env.runId) (h : SameTable t t') : CallStep phase (.done (.error e), t', [])

variable {env registry t k call}

/-- A section of the table, in a call. -/
theorem callStep_after {α : Type} {phase : CallPhase} {label : RecordLabel}
    {res : Except RunTableError α × RunTable} {next : RunTable → CallOutcome}
    (hp : phase.InSection = true) (hsec : SectionResult t env.runId label res)
    (hclosed : ∀ e t', res = (.error e, t') → t.Closed env.runId)
    (hnext : ∀ t', Moved t env.runId label t' → CallStep env registry t k call phase (next t')) :
    CallStep env registry t k call phase (CallPhase.after res next) := by
  obtain ⟨_ | _, t'⟩ := res
  · exact .sectionFailed _ hp (hclosed _ t' rfl) (hsec.same rfl)
  · exact hnext t' (hsec.moved rfl)

theorem callStep_emit (ht : t.WellFormed) {phase : CallPhase} {event : RunEvent}
    {next : RunTable → CallOutcome} (hp : phase.InSection = true) (hterminal : event.terminalState = none)
    (hstarted : event.isRunStarted = false)
    (hnext : ∀ t', Moved t env.runId (.appends event) t' → CallStep env registry t k call phase (next t')) :
    CallStep env registry t k call phase (CallPhase.after (t.emit env.runId event) next) :=
  callStep_after hp (RunTable.emit_section ht env.runId hterminal hstarted)
    (fun _ _ h => RunTable.emit_closed ht h) hnext

theorem callStep_setState (ht : t.WellFormed) {phase : CallPhase} {state : RunState}
    {next : RunTable → CallOutcome} (hp : phase.InSection = true) (hstate : state.isTerminal = false)
    (hnext : ∀ t', Moved t env.runId (.appends (.stateChanged state)) t' →
      CallStep env registry t k call phase (next t')) :
    CallStep env registry t k call phase (CallPhase.after (t.setState env.runId state) next) :=
  callStep_after hp (RunTable.setState_section ht env.runId state)
    (fun _ _ h => RunTable.setState_closed ht hstate h) hnext

theorem callStep_prepare : CallStep env registry t k call .prepare
    (CallPhase.prepareCall env registry t k call) := by
  unfold CallPhase.prepareCall
  split
  · exact .prepareFailed _
  split
  · exact .validated ‹_› ‹_›
  · split
    · exact .invalid _
    · exact .prepareFailed _
  · exact .prepareFailed _

theorem callStep_decide (invocation : ToolInvocation) (executor : ToolExecutor)
    (facts : Except String ResolvedResourceFacts) (decision : ToolDecision) :
    CallStep env registry t k call (.decide invocation executor)
      (CallPhase.decideCall env registry t k call invocation executor facts decision) := by
  unfold CallPhase.decideCall
  split
  · exact .decideFailed _
  rename_i hreg
  split
  · exact .decideFailed _
  split
  · exact .allowed hreg
  · exact .denied hreg
  · exact .approvalRequired hreg

theorem operate_same {c : OperationCall} {e : OperationError} {t' : RunTable}
    (h : t.operate c = (.error e, t')) : SameTable t t' := by
  have herr : (c.apply t.operations).1 = .error e := congrArg Prod.fst h
  obtain rfl : (t.operate c).2 = t' := congrArg Prod.snd h
  exact ⟨fun _ => rfl, InMemoryOperationStore.apply_error herr⟩

theorem callStep_register (draft : PendingOperationDraft) (invocation : ToolInvocation)
    (executor : ToolExecutor) (id : OperationId) (now : SystemTime) {x : CallOutcome}
    (h : CallPhase.step env registry t k call (.register draft invocation executor) (.register id now) =
      some x) : CallStep env registry t k call (.register draft invocation executor) x := by
  simp only [CallPhase.step] at h
  split at h <;> rename_i heq <;> cases h
  · exact .registerFailed _ (operate_same heq)
  · have hres := congrArg Prod.fst heq
    simp only [RunTable.operate, OperationCall.apply] at hres
    obtain ⟨e, hreg⟩ | ⟨hrun, hnew, hdeadline, -⟩ :=
      t.operations.register_cases now (draft.bind id env.runId)
    · rw [hreg] at hres
      cases hres
    · obtain rfl : (t.operate (.register now (draft.bind id env.runId))).2 = _ := congrArg Prod.snd heq
      exact .registered ⟨hrun, hnew, hdeadline⟩

/-- **Every step of a call** is one of the steps above. -/
theorem callStep_of_step (ht : t.WellFormed) {phase : CallPhase} {a : CallAction} {x : CallOutcome}
    (h : phase.step env registry t k call a = some x) : CallStep env registry t k call phase x := by
  cases phase with
  | consume =>
    cases a <;> simp only [CallPhase.step, reduceCtorEq] at h
    have hin := t.consumeToolInvocation_inner env.runId ‹Duration›
    split at h <;> rename_i heq <;> rw [heq] at hin <;> cases h
    · exact .consumeFailed _ hin
    · exact .consumed hin
  | lookup =>
    cases a <;> simp only [CallPhase.step, RunTable.cachedToolExecution, reduceCtorEq] at h
    cases hr : t.get env.runId with
    | none =>
      simp only [hr, Option.some.injEq] at h
      subst h
      exact .lookupFailed _
    | some r =>
      simp only [hr] at h
      cases hres : r.ledger.get call.id with
      | none =>
        simp only [hres, Option.some.injEq] at h
        subst h
        exact .uncached hr hres
      | some result =>
        simp only [hres, Option.some.injEq] at h
        subst h
        exact .cached hr hres
  | prepare =>
    cases a <;> simp only [CallPhase.step, Option.some.injEq, reduceCtorEq] at h
    exact h ▸ callStep_prepare
  | invalidStarted error =>
    cases a <;> simp only [CallPhase.step, Option.some.injEq, reduceCtorEq] at h
    exact h ▸ callStep_emit ht rfl rfl rfl fun _ hm => .invalidStarted hm
  | invalidFinished result =>
    cases a <;> simp only [CallPhase.step, Option.some.injEq, reduceCtorEq] at h
    exact h ▸ callStep_emit ht rfl rfl rfl fun _ hm => .invalidFinished hm
  | decide invocation executor =>
    cases a <;> simp only [CallPhase.step, Option.some.injEq, reduceCtorEq] at h
    exact h ▸ callStep_decide invocation executor _ _
  | register draft invocation executor =>
    cases a with
    | register id now => exact callStep_register draft invocation executor id now h
    | _ => simp only [CallPhase.step, reduceCtorEq] at h
  | setAwaiting operation invocation executor =>
    cases a <;> simp only [CallPhase.step, Option.some.injEq, reduceCtorEq] at h
    exact h ▸ callStep_setState ht rfl rfl fun _ hm => .awaiting hm
  | request operation invocation executor =>
    cases a <;> simp only [CallPhase.step, Option.some.injEq, reduceCtorEq] at h
    exact h ▸ callStep_emit ht rfl rfl rfl fun _ hm => .requested hm
  | wait operation invocation executor =>
    cases a <;> simp only [CallPhase.step, reduceCtorEq] at h
    split at h <;> cases h
    · exact .waitFailed ‹_›
    · exact .approved ‹_›
    · exact .rejected ‹_›
  | resume operation invocation executor =>
    cases a <;> simp only [CallPhase.step, Option.some.injEq, reduceCtorEq] at h
    exact h ▸ callStep_setState ht rfl rfl fun _ hm => .resumed hm
  | rejected reason =>
    cases a <;> simp only [CallPhase.step, Option.some.injEq, reduceCtorEq] at h
    exact h ▸ callStep_setState ht rfl rfl fun _ hm => .refused hm
  | emitStarted invocation executor approved =>
    cases a <;> simp only [CallPhase.step, Option.some.injEq, reduceCtorEq] at h
    exact h ▸ callStep_emit ht rfl rfl rfl fun _ hm => .admitted hm
  | select invocation executor approved =>
    cases a <;> simp only [CallPhase.step, Option.some.injEq, reduceCtorEq] at h
    · split at h <;> cases h
      exact .selectCancelled ‹_›
    · exact h ▸ .started
  | executing invocation executor approved =>
    cases a with
    | observeCancel =>
      simp only [CallPhase.step] at h
      split at h <;> cases h
      exact .executionCancelled ‹_›
    | complete result =>
      cases result <;> cases h
      · exact .failed _
      · exact .completed _
    | _ => simp only [CallPhase.step, reduceCtorEq] at h
  | failOperation error approved =>
    obtain _ | ⟨id, mode⟩ := approved <;> cases a <;>
      simp only [CallPhase.step, Option.some.injEq, reduceCtorEq] at h
    · exact h ▸ .failPlain
    · exact h ▸ .failApproved
  | finishOperation result approved =>
    obtain _ | ⟨id, mode⟩ := approved <;> cases a <;>
      simp only [CallPhase.step, Option.some.injEq, reduceCtorEq] at h
    · exact h ▸ .finishPlain
    · split at h <;> rename_i heq <;> cases h
      · exact .finishFailed heq
      · obtain rfl : (t.operate (CallPhase.finishCall env.runId id mode (.ok ()))).2 = _ :=
          congrArg Prod.snd heq
        exact .finishApproved (congrArg Prod.fst heq)
  | record result =>
    cases a <;> simp only [CallPhase.step, Option.some.injEq, reduceCtorEq] at h
    exact h ▸ callStep_after rfl (t.recordToolExecution_section env.runId call.id result)
      (fun _ _ => RunTable.recordToolExecution_closed) fun _ hm => .recorded hm
  | emitFinished result =>
    cases a <;> simp only [CallPhase.step, Option.some.injEq, reduceCtorEq] at h
    exact h ▸ callStep_emit ht rfl rfl rfl fun _ hm => .answered hm
  | done res => cases a <;> simp only [CallPhase.step, reduceCtorEq] at h

/-- A call emits observations of its own. -/
theorem callStep_key {phase : CallPhase} {x : CallOutcome} (h : CallStep env registry t k call phase x) :
    ∀ y ∈ x.2.2, y.key? = some k := by
  cases h <;> simp [CallPhase.answer, AgentObs.key?]

end CallStep

/-! ## Steps of the loop -/

/-- The batch that the loop works on. -/
def LoopPhase.batch? : LoopPhase → Option (Bool × List Frame)
  | .batch parallel frames => some (parallel, frames)
  | _ => none

/-- All that a step of the loop can do. -/
inductive LoopStep (env : AgentEnv) (registry : ToolRegistry) (t : RunTable) (loop : LoopState) :
    LoopAction → LoopState → RunTable → List AgentObs → Prop where
  | advanced {a : LoopAction} {loop' : LoopState} {t' : RunTable} {o : List AgentObs}
      (hlive : ∀ res, loop.phase ≠ .returned res) (hphase : loop.phase.batch? = none)
      (hphase' : loop'.phase.batch? = none)
      (hround : loop'.round = loop.round) (htable : InnerStep t env.runId t')
      (hobs : ∀ x ∈ o, ∃ turn, x = .turn turn) : LoopStep env registry t loop a loop' t' o
  | dispatched {turn : ModelTurn} {loop' : LoopState} (hphase : loop.phase = .awaiting)
      (hresolved : ∀ call ∈ turn.toolCalls, registry.contains call.name = true)
      (hround : loop'.round = loop.round + 1)
      (hphase' : loop'.phase = .batch
        (canRunToolCallsInParallel ((turn.toolCalls.filterMap fun call => registry.resolve call.name).map
          RegisteredTool.descriptor))
        (turn.toolCalls.map fun call => ⟨call, .consume⟩)) :
      LoopStep env registry t loop (.turn (.ok turn)) loop' t [.turn turn]
  | joined {parallel : Bool} {frames : List Frame} {res : Except ProviderError (List Message)}
      {loop' : LoopState} (hphase : loop.phase = .batch parallel frames)
      (hjoined : LoopState.joined parallel frames = some res) (hround : loop'.round = loop.round)
      (hphase' : loop'.phase.batch? = none) (hfailed : ∀ e, res = .error e → loop'.phase = .returned (.error e)) :
      LoopStep env registry t loop .step loop' t []

section LoopStep
variable {env : AgentEnv} {registry : ToolRegistry} {t : RunTable} {loop : LoopState}

theorem loopStep_dispatch (hphase : loop.phase = .awaiting) (turn : ModelTurn)
    {loop₁ : LoopState} (hround : loop₁.round = loop.round) :
    LoopStep env registry t loop (.turn (.ok turn)) (loop₁.dispatch registry turn) t [.turn turn] := by
  unfold LoopState.dispatch
  split
  · exact .advanced (by simp [hphase]) (by rw [hphase]; rfl) rfl hround (.inl (.refl t)) (by simp)
  · rename_i hnone
    refine .dispatched hphase (fun call hcall => ?_) (by rw [hround]) rfl
    simpa using List.find?_eq_none.1 hnone call hcall

theorem loopStep_receive (hphase : loop.phase = .awaiting) (turn : ModelTurn) :
    LoopStep env registry t loop (.turn (.ok turn)) (loop.receive registry turn) t [.turn turn] := by
  have hbatch : loop.phase.batch? = none := by rw [hphase]; rfl
  have hlive : ∀ res, loop.phase ≠ .returned res := by simp [hphase]
  have hobs : ∀ x ∈ [AgentObs.turn turn], ∃ turn, x = .turn turn := by simp
  unfold LoopState.receive
  split
  · split <;> exact .advanced hlive hbatch rfl rfl (.inl (.refl t)) hobs
  split
  · exact .advanced hlive hbatch rfl rfl (.inl (.refl t)) hobs
  · exact loopStep_dispatch hphase turn rfl

/-- **Every step of the loop** is one of the steps above. -/
theorem loopStep_of_step {a : LoopAction} {loop' : LoopState} {t' : RunTable} {o : List AgentObs}
    (h : loop.step env registry t a = some (loop', t', o)) : LoopStep env registry t loop a loop' t' o := by
  unfold LoopState.step at h
  split at h <;> rename_i hphase
  case h_1 =>
    split at h <;> cases h <;>
      exact .advanced (by simp [hphase]) (by rw [hphase]; rfl) rfl rfl (.inl (.refl t)) (by simp)
  case h_2 =>
    split at h <;> cases h <;>
      exact .advanced (by simp [hphase]) (by rw [hphase]; rfl) rfl rfl (.inl (.refl t)) (by simp)
  case h_3 elapsed =>
    have hin := t.consumeModelRound_inner env.runId elapsed
    split at h <;> rename_i heq <;> rw [heq] at hin <;> cases h <;>
      exact .advanced (by simp [hphase]) (by rw [hphase]; rfl) rfl rfl hin (by simp)
  case h_4 =>
    split at h <;> cases h
    exact .advanced (by simp [hphase]) (by rw [hphase]; rfl) rfl rfl (.inl (.refl t)) (by simp)
  case h_5 =>
    cases h
    exact .advanced (by simp [hphase]) (by rw [hphase]; rfl) rfl rfl (.inl (.refl t)) (by simp)
  case h_6 turn =>
    cases h
    exact loopStep_receive hphase turn
  case h_7 parallel frames =>
    split at h <;> rename_i hjoined <;> cases h
    · exact .joined hphase hjoined rfl rfl fun e he => by rw [Except.error.inj he]
    · exact .joined hphase hjoined rfl rfl fun e he => by cases he
  case h_8 => cases h

end LoopStep

namespace LoopStep

variable {env : AgentEnv} {registry : ToolRegistry} {t t' : RunTable} {loop loop' : LoopState}
  {a : LoopAction} {o : List AgentObs}

/-- The loop observes turns only. -/
theorem obs (h : LoopStep env registry t loop a loop' t' o) : ∀ x ∈ o, ∃ turn, x = .turn turn := by
  cases h with
  | advanced _ _ _ _ _ hobs => exact hobs
  | dispatched => simp
  | joined => simp

theorem key_none (h : LoopStep env registry t loop a loop' t' o) : ∀ x ∈ o, x.key? = none := by
  intro x hx
  obtain ⟨turn, rfl⟩ := h.obs x hx
  rfl

/-- A loop that has returned makes no step. -/
theorem live (h : LoopStep env registry t loop a loop' t' o) : ∀ res, loop.phase ≠ .returned res := by
  intro res hreturned
  cases h with
  | advanced hlive => exact hlive res hreturned
  | dispatched hphase | joined hphase =>
    rw [hreturned] at hphase
    cases hphase

theorem round_le (h : LoopStep env registry t loop a loop' t' o) : loop.round ≤ loop'.round := by
  cases h with
  | advanced _ _ _ hround | joined _ _ hround => exact hround.ge
  | dispatched _ _ hround => exact hround ▸ Nat.le_succ _

/-- A frame that a step of the loop leaves is a new one, of a new round. -/
theorem new_frame (h : LoopStep env registry t loop a loop' t' o) {parallel : Bool} {frames : List Frame}
    (hphase : loop'.phase = .batch parallel frames) {i : Nat} {frame : Frame}
    (hframe : frames[i]? = some frame) : frame.phase = .consume ∧ loop'.round = loop.round + 1 := by
  cases h with
  | advanced _ _ hnone | joined _ _ _ hnone =>
    rw [hphase] at hnone
    cases hnone
  | dispatched _ _ hround hphase' =>
    rw [hphase'] at hphase
    obtain ⟨-, rfl⟩ := LoopPhase.batch.inj hphase
    rw [List.getElem?_map] at hframe
    obtain ⟨call, -, rfl⟩ := Option.map_eq_some_iff.1 hframe
    exact ⟨rfl, hround⟩

end LoopStep

/-! ## Steps of the machine -/

/-- All that a step of the machine can do. -/
inductive AgentStep (env : AgentEnv) (s : AgentState) : AgentAction → AgentState → List AgentObs → Prop where
  | host {a : TableAction} {system : TableSystem} {o : List (CallState × CallState)}
      (h : tableMachine.step s.system a = some (system, o)) :
      AgentStep env s (.host a) { s with system } (o.map fun p => .host p.1 p.2)
  | registerTool (descriptor : ToolDescriptor) (executor : ToolExecutor) :
      AgentStep env s (.registerTool descriptor executor)
        { s with registry := (s.registry.register descriptor executor).2 } []
  | sink (event : SinkEvent) :
      AgentStep env s (.sink event) (s.withTable (s.table.emit env.runId event.event).2) []
  | loop {a : LoopAction} {loop : LoopState} {t : RunTable} {o : List AgentObs}
      (h : LoopStep env s.registry s.table s.loop a loop t o) :
      AgentStep env s (.loop a) { s.withTable t with loop } o
  | call {index : Nat} {a : CallAction} {parallel : Bool} {frames : List Frame} {frame : Frame}
      {phase : CallPhase} {t : RunTable} {o : List AgentObs}
      (hphase : s.loop.phase = .batch parallel frames) (hframe : frames[index]? = some frame)
      (henabled : callEnabled parallel frames index = true)
      (h : frame.phase.step env s.registry s.table ⟨s.loop.round, index⟩ frame.call a = some (phase, t, o)) :
      AgentStep env s (.call index a) { s.withTable t with
        loop := { s.loop with phase := .batch parallel (frames.set index { frame with phase }) } } o

/-- **Every step of the machine** is one of the steps above. -/
theorem agentStep_of_step {env : AgentEnv} {s u : AgentState} {a : AgentAction} {o : List AgentObs}
    (h : (agentMachine env).step s a = some (u, o)) : AgentStep env s a u o := by
  cases a with
  | host a =>
    simp only [agentMachine] at h
    split at h <;> cases h
    exact .host ‹_›
  | registerTool descriptor executor =>
    cases h
    exact .registerTool descriptor executor
  | sink event =>
    cases h
    exact .sink event
  | loop a =>
    simp only [agentMachine] at h
    split at h <;> cases h
    exact .loop (loopStep_of_step ‹_›)
  | call index a =>
    simp only [agentMachine] at h
    split at h
    · rename_i hphase
      split at h
      · cases h
      rename_i hframe
      split at h
      · rename_i henabled
        split at h <;> cases h
        exact .call hphase hframe henabled ‹_›
      · cases h
    · cases h

/-! ## Tables -/

theorem operate_tableStep (t : RunTable) (c : OperationCall) : TableStep t (t.operate c).2 :=
  .operated c (fun _ => rfl) rfl

theorem CallStep.tableStep {env : AgentEnv} {registry : ToolRegistry} {t t' : RunTable} {k : CallKey}
    {call : ToolCall} {phase phase' : CallPhase} {o : List AgentObs}
    (h : CallStep env registry t k call phase (phase', t', o)) : TableStep t t' := by
  generalize hx : (phase', t', o) = x at h
  cases h with
  | consumed h | consumeFailed _ h => cases hx; exact h.tableStep
  | registerFailed _ h | sectionFailed _ _ _ h => cases hx; exact h.tableStep
  | registered | failApproved | finishApproved => cases hx; exact operate_tableStep t _
  | finishFailed h => cases hx; exact (operate_same h).tableStep
  | invalidStarted h | invalidFinished h | awaiting h | requested h | resumed h | refused h | admitted h
  | recorded h | answered h => cases hx; exact h.tableStep
  | _ => cases hx; exact .refl t

theorem LoopStep.tableStep {env : AgentEnv} {registry : ToolRegistry} {t t' : RunTable}
    {loop loop' : LoopState} {a : LoopAction} {o : List AgentObs}
    (h : LoopStep env registry t loop a loop' t' o) : TableStep t t' := by
  cases h with
  | advanced _ _ _ _ htable => exact htable.tableStep
  | dispatched | joined => exact .refl t

theorem sink_section {t : RunTable} (ht : t.WellFormed) (runId : RunId) (event : SinkEvent) :
    SectionResult t runId (.appends event.event) (t.emit runId event.event) := by
  cases event <;> exact RunTable.emit_section ht runId rfl rfl

theorem AgentStep.tableStep {env : AgentEnv} {s u : AgentState} {a : AgentAction} {o : List AgentObs}
    (hs : s.table.WellFormed) (h : AgentStep env s a u o) : TableStep s.table u.table := by
  cases h with
  | host h => exact tableStep_of_step hs h
  | registerTool => exact .refl _
  | sink event => exact (sink_section hs env.runId event).tableStep
  | loop h => exact h.tableStep
  | call _ _ _ h => exact (callStep_of_step hs h).tableStep

/-! ## The end of a run -/

section InState
variable {env : AgentEnv} {id : RunId} {state : RunState}

theorem CallStep.inState {registry : ToolRegistry} {t t' : RunTable} {k : CallKey} {call : ToolCall}
    {phase phase' : CallPhase} {o : List AgentObs} (h : CallStep env registry t k call phase (phase', t', o))
    (hstate : state.isTerminal = true) (hin : t'.InState id state) : t.InState id state := by
  generalize hx : (phase', t', o) = x at h
  cases h with
  | consumed h | consumeFailed _ h => cases hx; exact h.inState hstate hin
  | registerFailed _ h | sectionFailed _ _ _ h => cases hx; exact hin.of_get (h.runs id)
  | finishFailed h => cases hx; exact hin.of_get ((operate_same h).runs id)
  | invalidStarted h | invalidFinished h | awaiting h | requested h | resumed h | refused h | admitted h
  | recorded h | answered h => cases hx; exact h.inState hstate nofun hin
  | _ => cases hx; exact hin

theorem LoopStep.inState {registry : ToolRegistry} {t t' : RunTable} {loop loop' : LoopState} {a : LoopAction}
    {o : List AgentObs} (h : LoopStep env registry t loop a loop' t' o) (hstate : state.isTerminal = true)
    (hin : t'.InState id state) : t.InState id state := by
  cases h with
  | advanced _ _ _ _ htable => exact htable.inState hstate hin
  | dispatched | joined => exact hin

/-- **The loop ends no run**, and the host completes or fails one by its own `finish` alone. -/
theorem AgentStep.inState {s u : AgentState} {a : AgentAction} {o : List AgentObs} (hs : s.table.WellFormed)
    (h : AgentStep env s a u o) (hstate : state.isTerminal = true) (hcancelled : state ≠ .cancelled)
    (hhost : ∀ (n : Nat) (f : FinishEvent), f.state = state → a = .host (.step n) →
      s.system.calls[n]? ≠ some (.finishRecord id f))
    (hin : u.table.InState id state) : s.table.InState id state := by
  cases h with
  | host h =>
    obtain ⟨call, -, rfl, -⟩ | ⟨n, pc, rfl, hpc, -, rfl, -⟩ := tableMachine_cases h
    · exact hin
    · exact CallState.step_inState hs hstate hcancelled (fun f hf heq => hhost n f hf rfl (heq ▸ hpc)) hin
  | registerTool => exact hin
  | sink event =>
    cases sink_section hs env.runId event with
    | failed _ _ hruns => exact hin.of_get (hruns id)
    | done _ _ hr hmove hruns hops =>
      refine Moved.inState ⟨⟨_, _, hr, hmove, hruns⟩, hops⟩ hstate ?_ hin
      cases event <;> nofun
  | loop h => exact h.inState hstate hin
  | call _ _ _ h => exact (callStep_of_step hs h).inState hstate hin

end InState

/-! ## Runs -/

theorem agent_wellFormed {env : AgentEnv} {G : AgentState → AgentAction → Prop} {as : List AgentAction}
    {tr : List AgentObs} {s t : AgentState} (h : (agentMachine env).Run G s as tr t)
    (hs : s.table.WellFormed) : t.table.WellFormed :=
  h.invariant (P := fun t => t.table.WellFormed) hs
    fun ht _ hstep => ((agentStep_of_step hstep).tableStep ht).wellFormed ht

end Aifluxon
