import Aifluxon.Runtime.Rounds

/-!
# Batches

The calls of a turn, polled together or one after the other, under a policy that allows every call.

* `RunView` : what the calls of a batch read of their run, and one lemma for each section that they enter;
* `BatchAnswers` : what policy, executors and clock answer; `CallPhase.ahead` : what a call comes to from a phase on;
* `callReturn`, `batchOutcome` : what the calls return, and the batch;
* `FrameLaw`, `BatchLaw` : what is true of a call and of a batch at any time; `frame_step`, `BatchLaw.step`,
  `inBatch_of_run`;
* `batch_outcome` : both paths come to the same; `batch_outcomes_differ` : two calls under one identifier.
-/

namespace Aifluxon

/-! ## What a batch reads of its run -/

structure RunView where
  ended : Bool
  cancelled : Bool
  ledger : ToolLedger
  budget : AgentLoopBudget

def RunRecord.view (r : RunRecord) : RunView := ⟨r.state.isTerminal, r.cancelled, r.ledger, r.budget⟩

def RunTable.view (t : RunTable) (runId : RunId) : Option RunView := (t.get runId).map RunRecord.view

/-- `consume_tool_invocation`, when the wall time is over or not. -/
def AgentLoopBudget.takeTool (budget : AgentLoopBudget) (late : Bool) :
    Except AgentBudgetExceeded Unit × AgentLoopBudget :=
  if budget.maxToolInvocations ≠ u32Max ∧ budget.toolInvocations ≥ budget.maxToolInvocations then
    (.error ⟨.toolInvocations⟩, budget)
  else
    (if late then .error ⟨.wallTime⟩ else .ok (),
      { budget with toolInvocations := min (budget.toolInvocations + 1) u32Max })

theorem AgentLoopBudget.consumeToolInvocation_eq (budget : AgentLoopBudget) (elapsed : Duration) :
    budget.consumeToolInvocation elapsed = budget.takeTool (decide (elapsed > budget.maxWallTime)) := by
  simp only [consumeToolInvocation, takeTool, checkWallTime, decide_eq_true_eq]

@[simp] theorem AgentLoopBudget.takeTool_maxWallTime (budget : AgentLoopBudget) (late : Bool) :
    (budget.takeTool late).2.maxWallTime = budget.maxWallTime := by
  unfold takeTool
  split <;> rfl

section View
variable {t : RunTable} {runId : RunId} {v : RunView}

theorem view_withRecord {ε α : Type} (unknown : ε) (f : RunRecord → Except ε α × RunRecord)
    (hf : ∀ r, (f r).2.context = r.context) (hv : t.view runId = some v) :
    ∃ r, t.get runId = some r ∧ r.view = v ∧ (t.withRecord runId unknown f hf).1 = (f r).1 ∧
      (t.withRecord runId unknown f hf).2.view runId = some (f r).2.view := by
  obtain ⟨r, hr, hview⟩ := Option.map_eq_some_iff.1 hv
  obtain ⟨hres, hget⟩ : (t.withRecord runId unknown f hf).1 = (f r).1 ∧
      ∀ id, (t.withRecord runId unknown f hf).2.get id = if id = runId then some (f r).2 else t.get id :=
    RunTable.withRecord_some hr
  refine ⟨r, hr, hview, hres, ?_⟩
  rw [RunTable.view, hget, if_pos rfl]
  rfl

/-- An event is appended, unless the run has ended. -/
theorem view_emit (ht : t.WellFormed) (hv : t.view runId = some v) (event : RunEvent)
    (next : RunTable → CallOutcome) : ∃ t', t'.view runId = some v ∧
      CallPhase.after (t.emit runId event) next =
        if v.ended then CallPhase.fail t' RunTableError.runTerminal.message else next t' := by
  obtain ⟨r, hr, rfl, hres, hview⟩ := view_withRecord RunTableError.unknownRun (RunRecord.emit · event)
    (fun r => r.emit_context event) hv
  refine ⟨(t.emit runId event).2, ?_, ?_⟩
  · rw [RunTable.emit, hview]
    obtain ⟨-, h⟩ | ⟨-, h⟩ := RunRecord.emit_cases (ht runId r hr) event
    · rw [h]
    · rw [h]
      rfl
  · rw [show t.emit runId event = ((r.emit event).1, (t.emit runId event).2) from Prod.ext hres rfl]
    obtain ⟨hended, h⟩ | ⟨hopen, h⟩ := RunRecord.emit_cases (ht runId r hr) event
    · rw [h, show r.view.ended = true from hended]
      rfl
    · rw [h, show r.view.ended = false from hopen]
      rfl

theorem view_consume (hv : t.view runId = some v) (elapsed : Duration) :
    (t.consumeToolInvocation runId elapsed).1 = (v.budget.consumeToolInvocation elapsed).1 ∧
      (t.consumeToolInvocation runId elapsed).2.view runId =
        some { v with budget := (v.budget.consumeToolInvocation elapsed).2 } := by
  unfold RunTable.consumeToolInvocation
  obtain ⟨r, -, rfl, hres, hview⟩ := view_withRecord (AgentBudgetExceeded.mk .toolInvocations)
    (fun r => ((r.budget.consumeToolInvocation elapsed).1,
      { r with budget := (r.budget.consumeToolInvocation elapsed).2 })) (fun _ => rfl) hv
  exact ⟨hres, hview⟩

theorem view_record (hv : t.view runId = some v) (id : ToolInvocationId) (result : ToolResult)
    (next : RunTable → CallOutcome) : ∃ t', t'.view runId = some { v with ledger := v.ledger.record id result } ∧
      CallPhase.after (t.recordToolExecution runId id result) next = next t' := by
  refine ⟨(t.recordToolExecution runId id result).2, ?_⟩
  unfold RunTable.recordToolExecution
  obtain ⟨r, -, rfl, hres, hview⟩ := view_withRecord RunTableError.unknownRun
    (fun r => (.ok (), { r with ledger := r.ledger.record id result })) (fun _ => rfl) hv
  refine ⟨hview, ?_⟩
  unfold CallPhase.after
  split
  · rename_i heq
    rw [heq] at hres
    cases hres
  · rename_i heq
    rw [heq]

theorem view_cached (hv : t.view runId = some v) (id : ToolInvocationId) :
    t.cachedToolExecution runId id = .ok (v.ledger.get id) := by
  obtain ⟨r, hr, rfl⟩ := Option.map_eq_some_iff.1 hv
  rw [RunTable.cachedToolExecution, hr]
  rfl

theorem view_cancelled (hv : t.view runId = some v) : t.isCancelled runId = v.cancelled := by
  obtain ⟨r, hr, rfl⟩ := Option.map_eq_some_iff.1 hv
  rw [RunTable.isCancelled, hr]
  rfl

end View

/-! ## What a call comes to -/

/-- The answers to the calls of a batch: the facts that the policy resolves of an invocation, which it then allows,
the results of the executors, and whether the wall time of the run is over when the `i`-th call takes its share of the
budget. -/
structure BatchAnswers where
  facts : ToolInvocation → Except String ResolvedResourceFacts
  execute : ToolExecutor → ToolInvocation → Except ToolExecutionError ToolResult
  late : Nat → Bool

section Ahead
variable (env : AgentEnv) (registry : ToolRegistry) (answers : BatchAnswers) (ended : Bool) (call : ToolCall)

/-- A run that has ended takes no event. -/
def unlessEnded (res : Except ProviderError ToolResult) : Except ProviderError ToolResult :=
  if ended then .error ⟨RunTableError.runTerminal.message⟩ else res

def executedResult (invocation : ToolInvocation) (executor : ToolExecutor) : Except ProviderError ToolResult :=
  match answers.execute executor invocation with
  | .error e => .error ⟨e.message⟩
  | .ok result => .ok result

namespace CallPhase

/-- The phases of a call that no operation of the host stands in the way of. What is behind the first event is reached
in a run that has not ended only. -/
def plain : CallPhase → Bool
  | .prepare | .decide _ _ | .invalidStarted _ | .emitStarted _ _ none | .failOperation _ none => true
  | .invalidFinished _ | .select _ _ none | .executing _ _ none | .finishOperation _ none | .record _
  | .emitFinished _ => !ended
  | _ => false

/-- What a call comes to from a phase behind the decision on. -/
def aheadOfDecision : CallPhase → Except ProviderError ToolResult
  | .done (.error e) | .failOperation e _ => .error e
  | .invalidStarted error => unlessEnded ended (.ok (.fromValue (validationErrorValue error)))
  | .emitStarted invocation executor _ => unlessEnded ended (executedResult answers invocation executor)
  | .select invocation executor _ | .executing invocation executor _ => executedResult answers invocation executor
  | .invalidFinished result | .finishOperation result _ | .record result | .emitFinished result => .ok result
  | _ => .error ⟨""⟩

def aheadOfPreparation : CallPhase → Except ProviderError ToolResult
  | .decide invocation executor => aheadOfDecision answers ended
      (decideCall env registry .new ⟨0, 0⟩ call invocation executor (answers.facts invocation) .allow).1
  | phase => aheadOfDecision answers ended phase

/-- What a plain call comes to. -/
def ahead : CallPhase → Except ProviderError ToolResult
  | .prepare => aheadOfPreparation env registry answers ended call (prepareCall env registry .new ⟨0, 0⟩ call).1
  | phase => aheadOfPreparation env registry answers ended call phase

end CallPhase

/-- The message of a result. -/
def resultMessage (res : Except ProviderError ToolResult) : Except ProviderError Message :=
  res.map (toolMessage env.codec.serde call)

/-- The answers to a call in a phase; `i` is its place and `maxWallTime` the limit of its run. -/
def CallAction.Answered (maxWallTime : Duration) (i : Nat) : CallPhase → CallAction → Prop
  | .consume, .consume elapsed => answers.late i = true ↔ elapsed > maxWallTime
  | .decide invocation _, .decide facts decision => facts = answers.facts invocation ∧ decision = .allow
  | .executing invocation executor _, .complete result => result = answers.execute executor invocation
  | _, _ => True

end Ahead

section CallStep
variable {env : AgentEnv} {registry : ToolRegistry} {answers : BatchAnswers} {t : RunTable} {k : CallKey}
  {call : ToolCall} {v : RunView} {phase : CallPhase} {a : CallAction} {x : CallOutcome} {maxWallTime : Duration} {i : Nat}

variable (env registry call) in
theorem prepareCall_phase (t t' : RunTable) (k k' : CallKey) :
    (CallPhase.prepareCall env registry t k call).1 = (CallPhase.prepareCall env registry t' k' call).1 := by
  unfold CallPhase.prepareCall
  split
  · rfl
  · split
    · rfl
    · split <;> rfl
    · rfl

variable (env registry call) in
theorem decideCall_phase (t t' : RunTable) (k k' : CallKey) (invocation : ToolInvocation) (executor : ToolExecutor)
    (facts : Except String ResolvedResourceFacts) :
    (CallPhase.decideCall env registry t k call invocation executor facts .allow).1 =
      (CallPhase.decideCall env registry t' k' call invocation executor facts .allow).1 := by
  unfold CallPhase.decideCall
  split
  · rfl
  · split <;> rfl

/-- Where a call stands on its way to the result `res`. -/
def CallPhase.Toward (env : AgentEnv) (registry : ToolRegistry) (answers : BatchAnswers) (ended : Bool) (call : ToolCall)
    (res : Except ProviderError ToolResult) (phase : CallPhase) : Prop :=
  phase = .done (resultMessage env call res) ∨
    phase.plain ended = true ∧ phase.ahead env registry answers ended call = res

theorem toward_fail {ended : Bool} {e : ProviderError} :
    (CallPhase.done (.error e)).Toward env registry answers ended call (.error e) := .inl rfl

/-- **A step of a plain call** keeps what the call comes to. Its run stays as it is, but for the record of a result. -/
theorem ahead_step (ht : t.WellFormed) (hv : t.view env.runId = some v) (hcancelled : v.cancelled = false)
    (hplain : phase.plain v.ended = true) (ha : a.Answered answers maxWallTime i phase)
    (h : phase.step env registry t k call a = some x) :
    (x.1.Toward env registry answers v.ended call (phase.ahead env registry answers v.ended call)) ∧
      (x.2.1.view env.runId = some v ∨ ∃ result, phase = .record result ∧ x.1 = .emitFinished result ∧
        x.2.1.view env.runId = some { v with ledger := v.ledger.record call.id result }) := by
  -- a section that appends an event
  have hemit {event : RunEvent} {next : RunTable → CallOutcome} {res : Except ProviderError ToolResult}
      (hx : CallPhase.after (t.emit env.runId event) next = x)
      (hended : v.ended = true → res = .error ⟨RunTableError.runTerminal.message⟩)
      (hopen : v.ended = false → ∀ t', t'.view env.runId = some v → (next t').1.Toward env registry answers v.ended call res ∧
        (next t').2.1.view env.runId = some v) :
      x.1.Toward env registry answers v.ended call res ∧ (x.2.1.view env.runId = some v ∨ ∃ result, phase = .record result ∧
        x.1 = .emitFinished result ∧ x.2.1.view env.runId = some { v with ledger := v.ledger.record call.id result }) := by
    obtain ⟨t', hv', hafter⟩ := view_emit ht hv event next
    rw [hafter] at hx
    cases hend : v.ended with
    | true =>
      rw [if_pos hend] at hx
      rw [← hx, hended hend]
      exact ⟨toward_fail, .inl hv'⟩
    | false =>
      rw [if_neg (by simp [hend])] at hx
      rw [← hx, ← hend]
      exact ⟨(hopen hend t' hv').1, .inl (hopen hend t' hv').2⟩
  cases phase with
  | prepare =>
    cases a <;> simp only [CallPhase.step, Option.some.injEq, reduceCtorEq] at h
    have hphase := prepareCall_phase env registry call t .new k ⟨0, 0⟩
    subst h
    refine ⟨?_, .inl ?_⟩
    · show CallPhase.Toward env registry answers v.ended call (CallPhase.aheadOfPreparation env registry answers v.ended call
        (CallPhase.prepareCall env registry .new ⟨0, 0⟩ call).1) _
      rw [← hphase]
      unfold CallPhase.prepareCall
      split
      · exact toward_fail
      · split
        · exact .inr ⟨rfl, rfl⟩
        · split
          · exact .inr ⟨rfl, rfl⟩
          · exact toward_fail
        · exact toward_fail
    · unfold CallPhase.prepareCall
      split
      · exact hv
      · split
        · exact hv
        · split <;> exact hv
        · exact hv
  | invalidStarted error =>
    cases a <;> simp only [CallPhase.step, Option.some.injEq, reduceCtorEq] at h
    refine hemit h (fun hended => ?_) fun hopen t' hv' => ⟨.inr ⟨?_, ?_⟩, hv'⟩
    · simp [CallPhase.ahead, CallPhase.aheadOfPreparation, CallPhase.aheadOfDecision, unlessEnded, hended]
    · simp [CallPhase.plain, hopen]
    · simp [CallPhase.ahead, CallPhase.aheadOfPreparation, CallPhase.aheadOfDecision, unlessEnded, hopen]
  | invalidFinished result =>
    cases a <;> simp only [CallPhase.step, Option.some.injEq, reduceCtorEq] at h
    have hopen : v.ended = false := by simpa [CallPhase.plain] using hplain
    exact hemit h (fun hended => absurd hended (by simp [hopen])) fun _ t' hv' => ⟨.inl rfl, hv'⟩
  | emitFinished result =>
    cases a <;> simp only [CallPhase.step, Option.some.injEq, reduceCtorEq] at h
    have hopen : v.ended = false := by simpa [CallPhase.plain] using hplain
    exact hemit h (fun hended => absurd hended (by simp [hopen])) fun _ t' hv' => ⟨.inl rfl, hv'⟩
  | decide invocation executor =>
    cases a with
    | decide facts decision =>
      simp only [CallPhase.step, Option.some.injEq] at h
      obtain ⟨rfl, rfl⟩ := ha
      have hphase := decideCall_phase env registry call t .new k ⟨0, 0⟩ invocation executor
        (answers.facts invocation)
      subst h
      refine ⟨?_, .inl ?_⟩
      · show CallPhase.Toward env registry answers v.ended call (CallPhase.aheadOfDecision answers v.ended
          (CallPhase.decideCall env registry .new ⟨0, 0⟩ call invocation executor (answers.facts invocation) .allow).1) _
        rw [← hphase]
        unfold CallPhase.decideCall
        split
        · exact toward_fail
        · split
          · exact toward_fail
          · exact .inr ⟨rfl, rfl⟩
      · unfold CallPhase.decideCall
        split
        · exact hv
        · split <;> exact hv
    | _ => simp only [CallPhase.step, reduceCtorEq] at h
  | emitStarted invocation executor approved =>
    cases approved with
    | some => cases hplain
    | none =>
      cases a <;> simp only [CallPhase.step, Option.some.injEq, reduceCtorEq] at h
      refine hemit h (fun hended => ?_) fun hopen t' hv' => ⟨.inr ⟨?_, ?_⟩, hv'⟩
      · simp [CallPhase.ahead, CallPhase.aheadOfPreparation, CallPhase.aheadOfDecision, unlessEnded, hended]
      · simp [CallPhase.plain, hopen]
      · simp [CallPhase.ahead, CallPhase.aheadOfPreparation, CallPhase.aheadOfDecision, unlessEnded, hopen]
  | select invocation executor approved =>
    cases approved with
    | some => cases hplain
    | none =>
      cases a <;> simp only [CallPhase.step, reduceCtorEq] at h
      · rw [view_cancelled hv, hcancelled] at h
        cases h
      · cases h
        exact ⟨.inr ⟨hplain, rfl⟩, .inl hv⟩
  | executing invocation executor approved =>
    cases approved with
    | some => cases hplain
    | none => cases a with
      | observeCancel =>
        simp only [CallPhase.step] at h
        rw [view_cancelled hv, hcancelled] at h
        cases h
      | complete result =>
        have hahead : CallPhase.ahead env registry answers v.ended call (.executing invocation executor none) =
            executedResult answers invocation executor := rfl
        rw [hahead, executedResult, ← show result = _ from ha]
        cases result with
        | error e =>
          cases h
          exact ⟨.inr ⟨rfl, rfl⟩, .inl hv⟩
        | ok result =>
          cases h
          exact ⟨.inr ⟨hplain, rfl⟩, .inl hv⟩
      | _ => simp only [CallPhase.step, reduceCtorEq] at h
  | failOperation error approved =>
    cases approved with
    | some => cases hplain
    | none =>
      cases a <;> simp only [CallPhase.step, Option.some.injEq, reduceCtorEq] at h
      subst h
      exact ⟨toward_fail, .inl hv⟩
  | finishOperation result approved =>
    cases approved with
    | some => cases hplain
    | none =>
      cases a <;> simp only [CallPhase.step, Option.some.injEq, reduceCtorEq] at h
      subst h
      exact ⟨.inr ⟨hplain, rfl⟩, .inl hv⟩
  | record result =>
    cases a <;> simp only [CallPhase.step, Option.some.injEq, reduceCtorEq] at h
    obtain ⟨t', hv', hafter⟩ := view_record hv call.id result fun t' =>
      (.emitFinished result, t', [.recorded k call.id result])
    rw [hafter] at h
    subst h
    exact ⟨.inr ⟨hplain, rfl⟩, .inr ⟨result, rfl, rfl, hv'⟩⟩
  | consume | lookup | register | setAwaiting | request | wait | resume | rejected | done => cases hplain

end CallStep

/-! ## What a batch comes to -/

/-- The budget behind the first `n` calls of a batch. -/
def AgentLoopBudget.afterCalls (budget : AgentLoopBudget) (late : Nat → Bool) : Nat → AgentLoopBudget
  | 0 => budget
  | n + 1 => ((budget.afterCalls late n).takeTool (late n)).2

/-- Calls under one identifier that has no recorded result are the same call. -/
def SameCalls (ledger : ToolLedger) (calls : List ToolCall) : Prop :=
  ∀ c ∈ calls, ∀ d ∈ calls, c.id = d.id → ledger.get c.id = none → c.name = d.name ∧ c.arguments = d.arguments

instance (ledger : ToolLedger) (calls : List ToolCall) : Decidable (SameCalls ledger calls) :=
  inferInstanceAs (Decidable (∀ c ∈ calls, ∀ d ∈ calls, _ → _ → _))

section Batch
variable (env : AgentEnv) (registry : ToolRegistry) (answers : BatchAnswers) (v : RunView)

/-- What the `i`-th call of a batch returns. -/
def callReturn (i : Nat) (call : ToolCall) : Except ProviderError Message :=
  match ((v.budget.afterCalls answers.late i).takeTool (answers.late i)).1 with
  | .error e => .error ⟨CallPhase.budgetMessage e⟩
  | .ok () => match v.ledger.get call.id with
    | some result => .ok (toolMessage env.codec.serde call result)
    | none => resultMessage env call (CallPhase.prepare.ahead env registry answers v.ended call)

/-- What a batch returns: the messages of its calls in their order, or the first error. -/
def batchOutcome (calls : List ToolCall) : Except ProviderError (List Message) :=
  (calls.mapIdx (callReturn env registry answers v)).mapM id

/-- Where the `i`-th call of a batch may stand. -/
inductive FrameLaw (i : Nat) (call : ToolCall) : CallPhase → Prop where
  | waiting : FrameLaw i call .consume
  | taken (htaken : ((v.budget.afterCalls answers.late i).takeTool (answers.late i)).1 = .ok ()) : FrameLaw i call .lookup
  | working {phase : CallPhase} (htaken : ((v.budget.afterCalls answers.late i).takeTool (answers.late i)).1 = .ok ())
      (hnew : v.ledger.get call.id = none) (hplain : phase.plain v.ended = true)
      (hahead : phase.ahead env registry answers v.ended call =
        CallPhase.prepare.ahead env registry answers v.ended call) : FrameLaw i call phase
  | done : FrameLaw i call (.done (callReturn env registry answers v i call))

/-- What the batch has changed of its run, whose view was `v`. -/
structure LedgerLaw (calls : List ToolCall) (v' : RunView) : Prop where
  ended : v'.ended = v.ended
  cancelled : v'.cancelled = false
  kept : ∀ id result, v.ledger.get id = some result → v'.ledger.get id = some result
  added : ∀ id result, v'.ledger.get id = some result → v.ledger.get id = none →
    ∃ call ∈ calls, call.id = id ∧ CallPhase.prepare.ahead env registry answers v.ended call = .ok result

/-- What is true of a batch at any time. The calls take their shares of the budget in their order. -/
structure BatchLaw (calls : List ToolCall) (v' : RunView) (frames : List Frame) : Prop where
  same : frames.map Frame.call = calls
  ledger : LedgerLaw env registry answers v calls v'
  budget : ∃ n, v'.budget = v.budget.afterCalls answers.late n ∧
    ∀ (i : Nat) frame, frames[i]? = some frame → (frame.phase.begun = true ↔ i < n)
  frames : ∀ (i : Nat) frame, frames[i]? = some frame → FrameLaw env registry answers v i frame.call frame.phase

end Batch

section Batch
variable {env : AgentEnv} {registry : ToolRegistry} {answers : BatchAnswers} {v v' : RunView} {t : RunTable} {k : CallKey}
  {call : ToolCall} {calls : List ToolCall} {frames : List Frame} {phase : CallPhase} {a : CallAction} {x : CallOutcome}
  {i : Nat}

theorem callReturn_working (htaken : ((v.budget.afterCalls answers.late i).takeTool (answers.late i)).1 = .ok ())
    (hnew : v.ledger.get call.id = none) : callReturn env registry answers v i call =
      resultMessage env call (CallPhase.prepare.ahead env registry answers v.ended call) := by
  unfold callReturn
  rw [htaken]
  dsimp only
  rw [hnew]

/-- The wire identifier of a call is for its message only. -/
theorem ahead_congr {ended : Bool} {d : ToolCall} (hid : call.id = d.id) (hname : call.name = d.name)
    (harguments : call.arguments = d.arguments) : CallPhase.prepare.ahead env registry answers ended call =
      CallPhase.prepare.ahead env registry answers ended d := by
  obtain ⟨id, name, arguments, wire⟩ := call
  obtain ⟨id', name', arguments', wire'⟩ := d
  cases hid
  cases hname
  cases harguments
  rfl

theorem FrameLaw.of_result {res : Except ProviderError Message} (h : callReturn env registry answers v i call = res) :
    FrameLaw env registry answers v i call (.done res) := by
  rw [← h]
  exact .done

/-- A step toward a result keeps the law of its frame. -/
theorem FrameLaw.of_toward (htaken : ((v.budget.afterCalls answers.late i).takeTool (answers.late i)).1 = .ok ())
    (hnew : v.ledger.get call.id = none) (h : phase.Toward env registry answers v.ended call
      (CallPhase.prepare.ahead env registry answers v.ended call)) : FrameLaw env registry answers v i call phase := by
  rcases h with rfl | ⟨hplain, hahead⟩
  · rw [← callReturn_working htaken hnew]
    exact .done
  · exact .working htaken hnew hplain hahead

theorem LedgerLaw.record {result : ToolResult} (hl : LedgerLaw env registry answers v calls v') (hcall : call ∈ calls)
    (hnew : v.ledger.get call.id = none)
    (hresult : CallPhase.prepare.ahead env registry answers v.ended call = .ok result) :
    LedgerLaw env registry answers v calls { v' with ledger := v'.ledger.record call.id result } where
  ended := hl.ended
  cancelled := hl.cancelled
  kept id r hr := by
    have hne : id ≠ call.id := by
      rintro rfl
      rw [hnew] at hr
      cases hr
    rw [ToolLedger.get_record, if_neg hne]
    exact hl.kept id r hr
  added id r hr hnone := by
    rw [ToolLedger.get_record] at hr
    split at hr
    · rename_i hid
      cases hr
      exact ⟨call, hcall, hid.symm, hresult⟩
    · exact hl.added id r hr hnone

/-- **A step of a call of a batch**: of its budget when it begins, and of the ledger when it records. -/
theorem frame_step (ht : t.WellFormed) (hv : t.view env.runId = some v') (hl : LedgerLaw env registry answers v calls v')
    (hsame : SameCalls v.ledger calls) (hcall : call ∈ calls)
    (hbudget : phase = .consume → v'.budget = v.budget.afterCalls answers.late i)
    (hlaw : FrameLaw env registry answers v i call phase) (ha : a.Answered answers v'.budget.maxWallTime i phase)
    (h : phase.step env registry t k call a = some x) :
    FrameLaw env registry answers v i call x.1 ∧ ∃ v'', x.2.1.view env.runId = some v'' ∧
      LedgerLaw env registry answers v calls v'' ∧
      v''.budget = if phase.begun then v'.budget else v.budget.afterCalls answers.late (i + 1) := by
  cases hlaw with
  | waiting =>
    cases a with
    | consume elapsed =>
      obtain ⟨hres, hview⟩ := view_consume hv elapsed
      have hlate : answers.late i = decide (elapsed > v'.budget.maxWallTime) := by
        rw [Bool.eq_iff_iff, decide_eq_true_iff]
        exact ha
      rw [AgentLoopBudget.consumeToolInvocation_eq, ← hlate, hbudget rfl] at hres hview
      have hledger : LedgerLaw env registry answers v calls { v' with budget := v.budget.afterCalls answers.late (i + 1) } :=
        ⟨hl.ended, hl.cancelled, hl.kept, hl.added⟩
      simp only [CallPhase.step] at h
      split at h
      · rename_i e t' heq
        rw [heq] at hres hview
        cases h
        have hdone : callReturn env registry answers v i call = .error ⟨CallPhase.budgetMessage e⟩ := by
          rw [callReturn, ← hres]
        exact ⟨.of_result hdone, _, hview, hledger, rfl⟩
      · rename_i t' heq
        rw [heq] at hres hview
        cases h
        exact ⟨.taken hres.symm, _, hview, hledger, rfl⟩
    | _ => simp only [CallPhase.step, reduceCtorEq] at h
  | taken htaken =>
    cases a <;> simp only [CallPhase.step, view_cached hv, reduceCtorEq] at h
    have hsaved : v.ledger.get call.id = none → ∀ result, v'.ledger.get call.id = some result →
        CallPhase.prepare.ahead env registry answers v.ended call = .ok result := by
      intro hnew result hresult
      obtain ⟨d, hd, hid, hahead⟩ := hl.added call.id result hresult hnew
      obtain ⟨hname, harguments⟩ := hsame call hcall d hd hid.symm hnew
      rw [ahead_congr hid.symm hname harguments]
      exact hahead
    cases hfound : v'.ledger.get call.id with
    | some result =>
      simp only [hfound, Option.some.injEq] at h
      have hdone : callReturn env registry answers v i call = .ok (toolMessage env.codec.serde call result) := by
        cases hold : v.ledger.get call.id with
        | none =>
          rw [callReturn_working htaken hold, hsaved hold result hfound]
          rfl
        | some result' =>
          have hkept := hl.kept call.id result' hold
          rw [hfound, Option.some.injEq] at hkept
          rw [callReturn, htaken]
          dsimp only
          rw [hold, hkept]
      subst h
      exact ⟨.of_result hdone, v', hv, hl, rfl⟩
    | none =>
      simp only [hfound, Option.some.injEq] at h
      have hnew : v.ledger.get call.id = none := by
        rw [Option.eq_none_iff_forall_not_mem]
        intro result hresult
        rw [hl.kept call.id result hresult] at hfound
        cases hfound
      subst h
      exact ⟨.working htaken hnew rfl rfl, v', hv, hl, rfl⟩
  | working htaken hnew hplain hahead =>
    have hplain' : phase.plain v'.ended = true := by
      rw [hl.ended]
      exact hplain
    obtain ⟨htoward, hview⟩ := ahead_step ht hv hl.cancelled hplain' ha h
    rw [hl.ended, hahead] at htoward
    have hbegun : phase.begun = true := by
      cases phase <;> first | rfl | cases hplain
    rw [if_pos hbegun]
    refine ⟨.of_toward htaken hnew htoward, ?_⟩
    rcases hview with hview | ⟨result, rfl, -, hview⟩
    · exact ⟨v', hview, hl, rfl⟩
    · exact ⟨_, hview, hl.record hcall hnew hahead.symm, rfl⟩
  | done => cases a <;> simp only [CallPhase.step, reduceCtorEq] at h

/-! ## Runs of a batch -/

/-- The loop with the calls of a turn, none of which has begun, as `LoopState.dispatch` leaves it. -/
def AgentState.onBatch (s : AgentState) (parallel : Bool) (calls : List ToolCall) : AgentState :=
  { s with loop := { s.loop with phase := .batch parallel (calls.map fun call => ⟨call, .consume⟩) } }

/-- What the batch of a loop has come to; `none` : it goes on. -/
def AgentState.joined (s : AgentState) : Option (Except ProviderError (List Message)) :=
  match s.loop.phase with
  | .batch parallel frames => LoopState.joined parallel frames
  | _ => none

/-- The steps of a batch: its calls get their answers and are first polled in their order. What else happens touches
neither the run nor the tools. -/
def BatchStep (env : AgentEnv) (answers : BatchAnswers) (s : AgentState) (a : AgentAction) : Prop :=
  match a with
  | .call i a => ∀ v parallel frames frame, s.table.view env.runId = some v → s.loop.phase = .batch parallel frames →
    frames[i]? = some frame → a.Answered answers v.budget.maxWallTime i frame.phase ∧
      (frame.phase = .consume → ∀ j < i, ∀ g, frames[j]? = some g → g.phase.begun = true)
  | .loop _ => False
  | a => ∀ u o, (agentMachine env).step s a = some (u, o) → u.table.view env.runId = s.table.view env.runId ∧
    u.registry = s.registry

/-- What is true of the states of a batch. -/
structure InBatch (env : AgentEnv) (registry : ToolRegistry) (answers : BatchAnswers) (v : RunView) (calls : List ToolCall)
    (parallel : Bool) (s : AgentState) : Prop where
  tools : s.registry = registry
  law : ∃ v' frames, s.table.view env.runId = some v' ∧ s.loop.phase = .batch parallel frames ∧
    BatchLaw env registry answers v calls v' frames

theorem BatchLaw.start (hcancelled : v.cancelled = false) :
    BatchLaw env registry answers v calls v (calls.map fun call => ⟨call, .consume⟩) where
  same := by simp [Function.comp_def]
  ledger := ⟨rfl, hcancelled, fun _ _ h => h, fun id result h hnone => by rw [hnone] at h; cases h⟩
  budget := by
    refine ⟨0, rfl, fun i frame hframe => ?_⟩
    rw [List.getElem?_map] at hframe
    obtain ⟨call, -, rfl⟩ := Option.map_eq_some_iff.1 hframe
    simp [CallPhase.begun]
  frames i frame hframe := by
    rw [List.getElem?_map] at hframe
    obtain ⟨call, -, rfl⟩ := Option.map_eq_some_iff.1 hframe
    exact .waiting

theorem callStep_begun (h : CallStep env registry t k call phase x) : x.1.begun = true := by
  cases h <;> rfl

/-- **A step of a call keeps the batch.** -/
theorem BatchLaw.step {frame : Frame} (hb : BatchLaw env registry answers v calls v' frames) (ht : t.WellFormed)
    (hv : t.view env.runId = some v') (hsame : SameCalls v.ledger calls) (hframe : frames[i]? = some frame)
    (ha : a.Answered answers v'.budget.maxWallTime i frame.phase)
    (horder : frame.phase = .consume → ∀ j < i, ∀ g, frames[j]? = some g → g.phase.begun = true)
    (h : frame.phase.step env registry t k frame.call a = some x) : ∃ v'', x.2.1.view env.runId = some v'' ∧
      BatchLaw env registry answers v calls v'' (frames.set i { frame with phase := x.1 }) := by
  obtain ⟨n, hn, hbegun⟩ := hb.budget
  have hlt := (List.getElem?_eq_some_iff.1 hframe).1
  -- the call that begins is the first that has not
  have hfirst (hphase : frame.phase = .consume) : n = i := by
    have hle : ¬ i < n := fun hlt => by
      have hf := (hbegun i frame hframe).2 hlt
      rw [hphase] at hf
      cases hf
    by_contra hne
    have hni : n < i := by omega
    have hg : frames[n]? = some frames[n] := List.getElem?_eq_getElem (by omega)
    have hn' := (hbegun n _ hg).1 (horder hphase n hni _ hg)
    omega
  have hcall : frame.call ∈ calls := by
    rw [← hb.same]
    exact List.mem_map_of_mem (List.mem_of_getElem? hframe)
  obtain ⟨hlaw, v'', hview, hledger, hbudget⟩ := frame_step ht hv hb.ledger hsame hcall
    (fun hphase => by rw [hn, hfirst hphase]) (hb.frames i frame hframe) ha h
  have hdone := callStep_begun (callStep_of_step ht h)
  refine ⟨v'', hview, ?_, hledger, ?_, fun j g hg => ?_⟩
  · rw [List.map_set, ← hb.same]
    refine List.ext_getElem? fun j => ?_
    rw [List.getElem?_set]
    split
    · rename_i hij
      rw [← hij, List.getElem?_map, hframe]
      simp [hlt]
    · rfl
  · cases hphase : frame.phase.begun with
    | true =>
      refine ⟨n, by rw [hbudget, if_pos hphase, hn], fun j g hg => ?_⟩
      obtain ⟨rfl, rfl⟩ | ⟨-, hg⟩ := getElem?_set_cases hframe hg
      · simpa [hdone] using (hbegun i frame hframe).1 hphase
      · exact hbegun j g hg
    | false =>
      have hconsume : frame.phase = .consume := by
        cases hp : frame.phase <;> first | rfl | (rw [hp] at hphase; cases hphase)
      have hni := hfirst hconsume
      refine ⟨i + 1, by rw [hbudget, if_neg (by simp [hphase])], fun j g hg => ?_⟩
      obtain ⟨rfl, rfl⟩ | ⟨hij, hg⟩ := getElem?_set_cases hframe hg
      · simp [hdone]
      · rw [hbegun j g hg]
        omega
  · obtain ⟨rfl, rfl⟩ | ⟨-, hg⟩ := getElem?_set_cases hframe hg
    · exact hlaw
    · exact hb.frames j g hg

theorem inBatch_step {calls : List ToolCall} {parallel : Bool} {s u : AgentState} {a : AgentAction} {o : List AgentObs}
    (hi : InBatch env registry answers v calls parallel s) (ht : s.table.WellFormed) (hsame : SameCalls v.ledger calls)
    (hguard : BatchStep env answers s a) (hstep : (agentMachine env).step s a = some (u, o)) :
    InBatch env registry answers v calls parallel u := by
  obtain ⟨hregistry, v', frames, hv, hphase, hb⟩ := hi
  cases a with
  | loop => exact hguard.elim
  | call i a =>
    cases agentStep_of_step hstep with
    | @call _ _ parallel' frames' frame phase t' _ hphase' hframe _ h =>
      rw [hphase] at hphase'
      cases hphase'
      obtain ⟨ha, horder⟩ := hguard v' _ _ frame hv hphase hframe
      rw [hregistry] at h
      obtain ⟨v'', hview, hlaw⟩ := hb.step ht hv hsame hframe ha horder h
      exact ⟨hregistry, v'', _, hview, rfl, hlaw⟩
  | host a | registerTool descriptor executor | sink event =>
    obtain ⟨hview, htools⟩ := hguard u o hstep
    have hloop : u.loop = s.loop := by
      cases agentStep_of_step hstep
      rfl
    exact ⟨htools.trans hregistry, v', frames, hview.trans hv, by rw [hloop, hphase], hb⟩

theorem inBatch_of_run {calls : List ToolCall} {parallel : Bool} {s u : AgentState} {as : List AgentAction}
    {tr : List AgentObs} (hs : s.table.WellFormed) (hv : s.table.view env.runId = some v) (hcancelled : v.cancelled = false)
    (hsame : SameCalls v.ledger calls)
    (hrun : (agentMachine env).Run (BatchStep env answers) (s.onBatch parallel calls) as tr u) :
    InBatch env s.registry answers v calls parallel u := by
  have hstart : InBatch env s.registry answers v calls parallel (s.onBatch parallel calls) :=
    ⟨rfl, v, _, hv, rfl, .start hcancelled⟩
  refine hrun.induction (P := fun _ u => InBatch env s.registry answers v calls parallel u) hstart ?_
  intro as tr t a u o hr hi hguard hstep
  exact inBatch_step hi (agent_wellFormed hr hs) hsame hguard hstep

/-! ## Its end -/

theorem collect_eq {f : Nat → ToolCall → Except ProviderError Message} {frames : List Frame}
    {out : Except ProviderError (List Message)}
    (hframes : ∀ (i : Nat) frame res, frames[i]? = some frame → frame.phase = .done res → res = f i frame.call)
    (h : Frame.collect frames = some out) : out = ((frames.map Frame.call).mapIdx f).mapM id := by
  induction frames generalizing f out with
  | nil =>
    cases h
    rfl
  | cons frame frames ih =>
    have hrest (i : Nat) (g : Frame) (res : Except ProviderError Message) (hg : frames[i]? = some g)
        (hphase : g.phase = .done res) : res = f (i + 1) g.call := hframes (i + 1) g res (by simpa using hg) hphase
    rw [List.map_cons, List.mapIdx_cons, List.mapM_cons]
    rw [Frame.collect] at h
    split at h
    · rename_i e hphase
      rw [← hframes 0 frame _ rfl hphase]
      cases h
      rfl
    · rename_i message hphase
      obtain ⟨res, hres, rfl⟩ := Option.map_eq_some_iff.1 h
      rw [← hframes 0 frame _ rfl hphase, ← ih hrest hres]
      cases res <;> rfl
    · cases h

/-- A batch that has been joined has come to its outcome. -/
theorem BatchLaw.joined {parallel : Bool} {out : Except ProviderError (List Message)}
    (hb : BatchLaw env registry answers v calls v' frames) (h : LoopState.joined parallel frames = some out) :
    out = batchOutcome env registry answers v calls := by
  have hcollect : Frame.collect frames = some out := by
    unfold LoopState.joined at h
    split at h
    · cases h
    · exact h
  rw [batchOutcome, ← hb.same]
  refine collect_eq (fun i frame res hframe hphase => ?_) hcollect
  have hlaw := hb.frames i frame hframe
  rw [hphase] at hlaw
  cases hlaw with
  | done => rfl
  | working _ _ hplain => cases hplain

theorem Frame.begun_of_isDone {frame : Frame} (h : frame.isDone = true) : frame.phase.begun = true := by
  unfold Frame.isDone at h
  split at h
  · rename_i hphase
    rw [hphase]
    rfl
  · cases h

/-- The first element of a list that fails a test. -/
theorem exists_first {α : Type} (p : α → Bool) {l : List α} (h : l.all p = false) :
    ∃ (i : Nat) (x : α), l[i]? = some x ∧ p x = false ∧ (l.take i).all p = true := by
  induction l with
  | nil => cases h
  | cons y l ih =>
    cases hy : p y with
    | false => exact ⟨0, y, rfl, hy, rfl⟩
    | true =>
      rw [List.all_cons, hy, Bool.true_and] at h
      obtain ⟨i, x, hx, hpx, htake⟩ := ih h
      exact ⟨i + 1, x, by simpa using hx, hpx, by rw [List.take_succ_cons, List.all_cons, hy, htake]; rfl⟩

theorem first_of_collect {frames : List Frame} (h : Frame.collect frames = none) :
    ∃ (i : Nat) (frame : Frame), frames[i]? = some frame ∧ frame.isDone = false ∧ (frames.take i).all Frame.isOk = true := by
  induction frames with
  | nil => cases h
  | cons frame frames ih =>
    rw [Frame.collect] at h
    split at h
    · cases h
    · rename_i message hphase
      obtain ⟨i, g, hg, hdone, htake⟩ := ih (Option.map_eq_none_iff.1 h)
      refine ⟨i + 1, g, by simpa using hg, hdone, ?_⟩
      rw [List.take_succ_cons, List.all_cons, htake, Frame.isOk, hphase]
      rfl
    · rename_i herror hok
      refine ⟨0, frame, rfl, ?_, rfl⟩
      unfold Frame.isDone
      split
      · rename_i res hphase
        cases res with
        | error e => exact absurd hphase (herror e)
        | ok message => exact absurd hphase (hok message)
      · rfl

/-- The first call that goes on. -/
theorem exists_next {parallel : Bool} {frames : List Frame} (h : LoopState.joined parallel frames = none) :
    ∃ (i : Nat) (frame : Frame), frames[i]? = some frame ∧ frame.isDone = false ∧ callEnabled parallel frames i = true ∧
      ∀ j < i, ∀ g, frames[j]? = some g → g.phase.begun = true := by
  have hbefore {p : Frame → Bool} {i : Nat} (htake : (frames.take i).all p = true) (j : Nat) (hj : j < i) (g : Frame)
      (hg : frames[j]? = some g) : p g = true :=
    List.all_eq_true.1 htake g (List.mem_of_getElem? (i := j) (by rw [List.getElem?_take_of_lt hj, hg]))
  unfold LoopState.joined at h
  split at h
  · rename_i hgoes
    simp only [Bool.and_eq_true, decide_eq_true_eq, Bool.not_eq_true] at hgoes
    obtain ⟨i, frame, hframe, hdone, htake⟩ := exists_first Frame.isDone hgoes.2
    exact ⟨i, frame, hframe, hdone, by rw [hgoes.1]; rfl, fun j hj g hg => Frame.begun_of_isDone (hbefore htake j hj g hg)⟩
  · obtain ⟨i, frame, hframe, hdone, htake⟩ := first_of_collect h
    refine ⟨i, frame, hframe, hdone, ?_, fun j hj g hg => Frame.begun_of_isDone (Frame.isDone_of_isOk (hbefore htake j hj g hg))⟩
    rw [callEnabled, htake, Bool.or_true]

/-- A call that has not returned gets an answer and goes on. -/
theorem FrameLaw.next (hlaw : FrameLaw env registry answers v i call phase) (hdone : ∀ res, phase ≠ .done res)
    (t : RunTable) (k : CallKey) (maxWallTime : Duration) : ∃ a : CallAction, a.Answered answers maxWallTime i phase ∧
      (phase.step env registry t k call a).isSome = true := by
  cases hlaw with
  | waiting =>
    -- a reading of the clock on the right side of the limit
    refine ⟨.consume (if answers.late i then maxWallTime + 1 else 0), ?_, ?_⟩
    · show answers.late i = true ↔ _ > maxWallTime
      cases answers.late i <;> simp
    · simp only [CallPhase.step]
      split <;> rfl
  | taken =>
    refine ⟨.step, trivial, ?_⟩
    simp only [CallPhase.step]
    split <;> rfl
  | done => exact absurd rfl (hdone _)
  | working _ _ hplain => cases phase with
    | prepare | invalidStarted | invalidFinished | emitFinished | record => exact ⟨.step, trivial, rfl⟩
    | decide invocation executor => exact ⟨.decide (answers.facts invocation) .allow, ⟨rfl, rfl⟩, rfl⟩
    | emitStarted invocation executor approved => exact ⟨.step, trivial, rfl⟩
    | select invocation executor approved => exact ⟨.start, trivial, rfl⟩
    | executing invocation executor approved =>
      refine ⟨.complete (answers.execute executor invocation), rfl, ?_⟩
      cases answers.execute executor invocation <;> rfl
    | failOperation error approved => cases approved with
      | none => exact ⟨.step, trivial, rfl⟩
      | some => cases hplain
    | finishOperation result approved => cases approved with
      | none => exact ⟨.step, trivial, rfl⟩
      | some => cases hplain
    | consume | lookup | register | setAwaiting | request | wait | resume | rejected | done => cases hplain

/-- The batch goes on until it is joined, with ever fewer steps left. -/
theorem batch_progress {parallel : Bool} {s : AgentState} (hi : InBatch env registry answers v calls parallel s)
    (ht : s.table.WellFormed) (hgoes : s.joined = none) : ∃ a u o, BatchStep env answers s a ∧
      (agentMachine env).step s a = some (u, o) ∧ u.loop.phase.callRanks < s.loop.phase.callRanks := by
  obtain ⟨rfl, v', frames, hv, hphase, hb⟩ := hi
  have hjoined : LoopState.joined parallel frames = none := by
    simpa only [AgentState.joined, hphase] using hgoes
  obtain ⟨i, frame, hframe, hdone, henabled, hbefore⟩ := exists_next hjoined
  have hlive (res : Except ProviderError Message) : frame.phase ≠ .done res := fun hphase => by
    rw [Frame.isDone, hphase] at hdone
    cases hdone
  obtain ⟨a, ha, hsome⟩ := (hb.frames i frame hframe).next hlive s.table ⟨s.loop.round, i⟩ v'.budget.maxWallTime
  obtain ⟨⟨phase, t, o⟩, hstep⟩ := Option.isSome_iff_exists.1 hsome
  refine ⟨.call i a, { s.withTable t with
    loop := { s.loop with phase := .batch parallel (frames.set i { frame with phase }) } }, o, ?_, ?_, ?_⟩
  · intro w parallel' frames' frame' hw hphase' hframe'
    rw [hv] at hw
    cases hw
    rw [hphase] at hphase'
    cases hphase'
    rw [hframe] at hframe'
    cases hframe'
    exact ⟨ha, fun _ => hbefore⟩
  · simp only [agentMachine, hphase, hframe, henabled, if_pos, hstep]
  · have hsum : ((frames.set i { frame with phase }).map fun frame => frame.phase.rank).sum + frame.phase.rank =
        (frames.map fun frame => frame.phase.rank).sum + phase.rank := sum_map_set _ hframe
    have hlt := (callStep_of_step ht hstep).rank_lt
    simp only [hphase, LoopPhase.callRanks]
    omega

theorem batch_ends {parallel : Bool} {s : AgentState} (hi : InBatch env registry answers v calls parallel s)
    (ht : s.table.WellFormed) (hsame : SameCalls v.ledger calls) : ∃ as tr u,
      (agentMachine env).Run (BatchStep env answers) s as tr u ∧
        u.joined = some (batchOutcome env registry answers v calls) := by
  induction hn : s.loop.phase.callRanks using Nat.strongRecOn generalizing s with
  | ind n ih =>
    cases hjoined : s.joined with
    | some out =>
      refine ⟨[], [], s, .nil, ?_⟩
      obtain ⟨-, v', frames, -, hphase, hb⟩ := hi
      simp only [AgentState.joined, hphase] at hjoined
      rw [AgentState.joined, hphase]
      exact hjoined.trans (congrArg some (hb.joined hjoined))
    | none =>
      obtain ⟨a, u, o, hguard, hstep, hlt⟩ := batch_progress hi ht hjoined
      have htable := ((agentStep_of_step hstep).tableStep ht).wellFormed ht
      obtain ⟨as, tr, w, hrun, hend⟩ := ih _ (hn ▸ hlt) (inBatch_step hi ht hsame hguard hstep) htable rfl
      have hfirst : (agentMachine env).Run (BatchStep env answers) s ([] ++ [a]) ([] ++ o) u := .snoc .nil hguard hstep
      exact ⟨_, _, w, hfirst.append hrun, hend⟩

/-- **One outcome.** Whether the calls of a turn are joined or awaited one after the other, and however the joined ones
interleave, the batch can be brought to its end, and comes to the same messages in call order or the same first
error. -/
theorem batch_outcome {env : AgentEnv} {answers : BatchAnswers} {s : AgentState} {v : RunView} {calls : List ToolCall}
    (hs : s.table.WellFormed) (hv : s.table.view env.runId = some v) (hcancelled : v.cancelled = false)
    (hsame : SameCalls v.ledger calls) (parallel : Bool) {as : List AgentAction} {tr : List AgentObs} {u : AgentState}
    (hrun : (agentMachine env).Run (BatchStep env answers) (s.onBatch parallel calls) as tr u) :
    (∀ out, u.joined = some out → out = batchOutcome env s.registry answers v calls) ∧
      ∃ bs tr' w, (agentMachine env).Run (BatchStep env answers) u bs tr' w ∧
        w.joined = some (batchOutcome env s.registry answers v calls) := by
  have hi := inBatch_of_run hs hv hcancelled hsame hrun
  refine ⟨fun out hout => ?_, batch_ends hi (agent_wellFormed hrun hs) hsame⟩
  obtain ⟨-, v', frames, -, hphase, hb⟩ := hi
  rw [AgentState.joined, hphase] at hout
  exact hb.joined hout

end Batch

/-! ## Two tools -/

/-- A test for `CallAction.Answered`. -/
def answeredTest (answers : BatchAnswers) (maxWallTime : Duration) (i : Nat) : CallPhase → CallAction → Bool
  | .consume, .consume elapsed => answers.late i = decide (elapsed > maxWallTime)
  | .decide invocation _, .decide facts decision => facts = answers.facts invocation ∧ decision = .allow
  | .executing invocation executor _, .complete result => result = answers.execute executor invocation
  | _, _ => true

/-- A test for `BatchStep`. -/
def batchTest (env : AgentEnv) (answers : BatchAnswers) (s : AgentState) : AgentAction → Bool
  | .call i a => match s.table.view env.runId, s.loop.phase with
    | some v, .batch _ frames => match frames[i]? with
      | some frame => answeredTest answers v.budget.maxWallTime i frame.phase a &&
        (frames.take i).all fun g => g.phase.begun
      | none => true
    | _, _ => true
  | _ => false

theorem answered_of_test {answers : BatchAnswers} {maxWallTime : Duration} {i : Nat} {phase : CallPhase} {a : CallAction}
    (h : answeredTest answers maxWallTime i phase a = true) : a.Answered answers maxWallTime i phase := by
  unfold CallAction.Answered
  split
  · have hlate : answers.late i = decide (_ > maxWallTime) := of_decide_eq_true h
    rw [hlate, decide_eq_true_iff]
  · exact of_decide_eq_true (p := _ ∧ _) h
  · exact of_decide_eq_true (p := _ = _) h
  · trivial

theorem batchStep_of_test {env : AgentEnv} {answers : BatchAnswers} (s : AgentState) (a : AgentAction)
    (h : batchTest env answers s a = true) : BatchStep env answers s a := by
  cases a with
  | call i a =>
    intro v parallel frames frame hv hphase hframe
    simp only [batchTest, hv, hphase, hframe, Bool.and_eq_true] at h
    refine ⟨answered_of_test h.1, fun _ j hj g hg => ?_⟩
    refine List.all_eq_true.1 h.2 g (List.mem_of_getElem? (i := j) ?_)
    rw [List.getElem?_take_of_lt hj, hg]
  | _ => cases h

/-- An agent with the tools `send` and `tell`. -/
def twoTools : AgentState :=
  { sendAgent with registry := (sendAgent.registry.register { sendTool with name := "tell" } ⟨1⟩).2 }

/-- Every tool answers with its name. -/
def namingAnswers : BatchAnswers where
  facts _ := .ok noFacts
  execute _ invocation := .ok ⟨.object [], some [.text invocation.name]⟩
  late _ := false

/-- A call of `send` and a call of `tell`. -/
def sendAndTell (m n : Uuid) : List ToolCall := [sendCall m, { sendCall n with name := "tell" }]

/-- The executor of a call starts and completes, and its result is recorded and sent. -/
def executing (index : Nat) (name : String) : List AgentAction :=
  [.call index .start, .call index (.complete (.ok ⟨.object [], some [.text name]⟩)), .call index .step,
    .call index .step, .call index .step]

/-- The call `n` has answered with the text. -/
def namedAnswer (n : Uuid) (text : String) : Message :=
  toolMessage objectCodec.serde (sendCall n) ⟨.object [], some [.text text]⟩

theorem batch_outcome_joined : ∃ tr u,
    (agentMachine sendEnv).Run (BatchStep sendEnv namingAnswers) (twoTools.onBatch true (sendAndTell 1 2))
      (toSelect 0 ++ toSelect 1 ++ executing 1 "tell" ++ executing 0 "send") tr u ∧
      u.joined = some (.ok [namedAnswer 1 "send", namedAnswer 2 "tell"]) ∧
      .ok [namedAnswer 1 "send", namedAnswer 2 "tell"] = batchOutcome sendEnv twoTools.registry namingAnswers
        ⟨false, false, .new, .fromRunLimits .unlimited⟩ (sendAndTell 1 2) := by
  have hrun := Machine.exec_run (M := agentMachine sendEnv) (G := BatchStep sendEnv namingAnswers)
    (s := twoTools.onBatch true (sendAndTell 1 2))
    (l := toSelect 0 ++ toSelect 1 ++ executing 1 "tell" ++ executing 0 "send") batchStep_of_test (by decide +kernel)
  have hsame : SameCalls ToolLedger.new (sendAndTell 1 2) := by decide
  refine ⟨_, _, hrun, ?_, (batch_outcome (s := twoTools) sendAgent_wellFormed rfl rfl hsame true hrun).1 _ ?_⟩ <;>
    decide +kernel

/-- Two calls under one identifier. The joined ones are both executed; of the ones awaited one after the other, the
second gets the result of the first. -/
theorem batch_outcomes_differ : ∃ tr u tr' w,
    (agentMachine sendEnv).Run (BatchStep sendEnv namingAnswers) (twoTools.onBatch true (sendAndTell 1 1))
      (toSelect 0 ++ toSelect 1 ++ executing 0 "send" ++ executing 1 "tell") tr u ∧
    (agentMachine sendEnv).Run (BatchStep sendEnv namingAnswers) (twoTools.onBatch false (sendAndTell 1 1))
      (toSelect 0 ++ executing 0 "send" ++ [.call 1 (.consume 0), .call 1 .step]) tr' w ∧
    u.joined = some (.ok [namedAnswer 1 "send", namedAnswer 1 "tell"]) ∧
    w.joined = some (.ok [namedAnswer 1 "send", namedAnswer 1 "send"]) ∧ u.joined ≠ w.joined := by
  have hjoined := Machine.exec_run (M := agentMachine sendEnv) (G := BatchStep sendEnv namingAnswers)
    (s := twoTools.onBatch true (sendAndTell 1 1))
    (l := toSelect 0 ++ toSelect 1 ++ executing 0 "send" ++ executing 1 "tell") batchStep_of_test (by decide +kernel)
  have hone := Machine.exec_run (M := agentMachine sendEnv) (G := BatchStep sendEnv namingAnswers)
    (s := twoTools.onBatch false (sendAndTell 1 1))
    (l := toSelect 0 ++ executing 0 "send" ++ [.call 1 (.consume 0), .call 1 .step]) batchStep_of_test (by decide +kernel)
  exact ⟨_, _, _, _, hjoined, hone, by decide +kernel, by decide +kernel, by decide +kernel⟩

end Aifluxon
