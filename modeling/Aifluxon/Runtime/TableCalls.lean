import Aifluxon.Lib.Machine
import Aifluxon.Runtime.RunTable

/-!
# Calls on the run table, one critical section at a time

A call of `run_table.rs` takes its locks one after the other, and other calls run in between.

* `TableCall`, `CallState` : the calls, and where a call stands between two of its sections;
* `CallState.step` : the next section of a call;
* `tableMachine` : any number of callers that interleave their sections;
* `CallEffect`, `CallState.step_effect` : all that a section of a call can do to the table;
* `CallState.step_keeps` : what a section keeps of the record of a run;
* `wellFormed_of_run` : every table that the calls reach is well formed.
-/

namespace Aifluxon

open Machine (Free)

structure CancellationReport where
  snapshot : CanonicalRunSnapshot
  hookErrors : List String
  deriving DecidableEq

inductive Reply where
  | unit
  | context (context : RunContext)
  | sequence (sequence : Nat)
  | report (report : CancellationReport)
  | reports (reports : List CancellationReport)
  | count (n : Option Nat)
  deriving DecidableEq

/-- `start` is `register` with an identifier that the caller draws. -/
inductive TableCall where
  | register (context : RunContext) (limits : RunLimits)
  | setState (runId : RunId) (state : RunState)
  | emit (runId : RunId) (event : RunEvent)
  | finishCompleted (runId : RunId) (output : List Message)
  | finishFailed (runId : RunId) (message : String)
  | cancel (runId : RunId)
  | cancelTree (rootRunId : RunId)
  | registerCancellationHook (runId : RunId) (hook : RunCancellationHook)
  | operation (c : OperationCall)

/-- For whom a run is cancelled: for `cancel`, or for `cancel_tree` with the targets and the reports
that it has. -/
inductive CancelFor where
  | run
  | tree (remaining : List RunId) (reports : List CancellationReport)

/-- Where a call stands: the section that comes next, with what the call has read so far. -/
inductive CallState where
  | invoked (call : TableCall)
  | refused (runId : RunId) (src dst : RunState)
  | finishRecord (runId : RunId) (f : FinishEvent)
  | finishMark (runId : RunId) (sequence : Nat)
  | cancelTreeTargets (rootRunId : RunId)
  | cancelRecord (runId : RunId) (k : CancelFor)
  | cancelOperations (runId : RunId) (hooks : List RunCancellationHook) (k : CancelFor)
  | cancelHead (runId : RunId) (hookErrors : List String) (k : CancelFor)
  | cancelSnapshot (runId : RunId) (head : RunHead) (hookErrors : List String) (k : CancelFor)
  | returned (res : Except RunTableError Reply)

/-- A call of the operation store. -/
def RunTable.operate (t : RunTable) (c : OperationCall) :
    Except OperationError (Option Nat) × RunTable :=
  ((c.apply t.operations).1, { t with operations := (c.apply t.operations).2 })

namespace CancelFor

/-- The loop of `cancel_tree` over its targets. -/
def next (reports : List CancellationReport) : List RunId → CallState
  | [] => .returned (.ok (.reports reports))
  | target :: rest => .cancelRecord target (.tree rest reports)

/-- A run that is terminal already is passed over. -/
def failed (e : RunTableError) : CancelFor → CallState
  | .run => .returned (.error e)
  | .tree rest reports => if e = .runTerminal then next reports rest else .returned (.error e)

def done (report : CancellationReport) : CancelFor → CallState
  | .run => .returned (.ok (.report report))
  | .tree rest reports => next (reports ++ [report]) rest

end CancelFor

namespace CallState

/-- The errors of the hooks, which run in order and without a lock. -/
def runHooks (runId : RunId) (hooks : List RunCancellationHook) : List String :=
  hooks.filterMap fun hook => match hook runId with
    | .ok () => none
    | .error error => some error

/-- The section of `cancel` on the runs. -/
def cancelRun (t : RunTable) (runId : RunId) (k : CancelFor) : CallState × RunTable :=
  match t.cancelRecord runId with
  | (.error e, t') => (k.failed e, t')
  | (.ok hooks, t') => (.cancelOperations runId hooks k, t')

/-- `snapshot(run_id)?.state`, up to the section on the operations. -/
def refuse (t : RunTable) (runId : RunId) (dst : RunState) : CallState × RunTable :=
  match t.head runId with
  | .error e => (.returned (.error e), t)
  | .ok head => (.refused runId head.state dst, t)

/-- The section of `finish` on the operations. -/
def checkFinish (t : RunTable) (runId : RunId) (f : FinishEvent) : CallState × RunTable :=
  if t.hasPendingOperations runId then (.returned (.error .pendingOperations), t)
  else (.finishRecord runId f, t)

/-- The result of a call that has had its only section. -/
def finished {ε α : Type} (mapError : ε → RunTableError) (mapOk : α → Reply) :
    Except ε α × RunTable → CallState × RunTable
  | (.error e, t) => (.returned (.error (mapError e)), t)
  | (.ok a, t) => (.returned (.ok (mapOk a)), t)

/-- The first section of a call. -/
def begin (t : RunTable) : TableCall → CallState × RunTable
  | .register context limits => finished id .context (t.register context limits)
  | .setState runId state =>
    if state.isTerminal then refuse t runId state
    else finished id .sequence (t.setState runId state)
  | .emit runId event =>
    if event.terminalState.isSome ∨ event.isRunStarted then
      refuse t runId (event.terminalState.getD .running)
    else finished id .sequence (t.emit runId event)
  | .finishCompleted runId output => checkFinish t runId (.completed output)
  | .finishFailed runId message => checkFinish t runId (.failed message)
  | .cancel runId => cancelRun t runId .run
  | .cancelTree rootRunId =>
    if t.contains rootRunId then (.cancelTreeTargets rootRunId, t)
    else (.returned (.error .unknownRun), t)
  | .registerCancellationHook runId hook =>
    finished id (fun _ => .unit) (t.registerCancellationHook runId hook)
  | .operation c => finished .operation .count (t.operate c)

/-- The next section of a call. -/
def step (t : RunTable) : CallState → CallState × RunTable
  | .invoked call => begin t call
  | .refused _ src dst => (.returned (.error (.invalidTransition src dst)), t)
  | .finishRecord runId f => match t.finishRecord runId f with
    | (.error e, t') => (.returned (.error e), t')
    | (.ok sequence, t') => (.finishMark runId sequence, t')
  | .finishMark runId sequence =>
    (.returned (.ok (.sequence sequence)), (t.operate (.cancelRun runId)).2)
  | .cancelTreeTargets rootRunId => (CancelFor.next [] (t.cancelTargets [rootRunId] []), t)
  | .cancelRecord runId k => cancelRun t runId k
  | .cancelOperations runId hooks k =>
    (.cancelHead runId (runHooks runId hooks) k, (t.operate (.cancelRun runId)).2)
  | .cancelHead runId hookErrors k => match t.head runId with
    | .error e => (k.failed e, t)
    | .ok head => (.cancelSnapshot runId head hookErrors k, t)
  | .cancelSnapshot runId head hookErrors k =>
    (k.done ⟨⟨head.context, head.state, head.lastEventSequence, t.operations.snapshot runId⟩, hookErrors⟩,
      t)
  | .returned res => (.returned res, t)

def isReturned : CallState → Bool
  | .returned _ => true
  | _ => false

end CallState

/-! ## The machine -/

structure TableSystem where
  table : RunTable
  calls : List CallState

def TableSystem.new : TableSystem := ⟨.new, []⟩

inductive TableAction where
  | invoke (call : TableCall)
  | step (n : Nat)

/-- A section of a call is observed with where the call stood before it and stands after it. -/
def tableMachine : Machine TableSystem TableAction (CallState × CallState) where
  step s
    | .invoke call => some (⟨s.table, s.calls ++ [.invoked call]⟩, [])
    | .step n => match s.calls[n]? with
      | none => none
      | some pc =>
        if pc.isReturned then none
        else some (⟨(pc.step s.table).2, s.calls.set n (pc.step s.table).1⟩, [(pc, (pc.step s.table).1)])

/-- What an action does to the system. -/
theorem tableMachine_cases {s u : TableSystem} {a : TableAction} {o}
    (h : tableMachine.step s a = some (u, o)) :
    (∃ call, a = .invoke call ∧ u = ⟨s.table, s.calls ++ [.invoked call]⟩ ∧ o = []) ∨
    ∃ n pc, a = .step n ∧ s.calls[n]? = some pc ∧ pc.isReturned = false ∧
      u = ⟨(pc.step s.table).2, s.calls.set n (pc.step s.table).1⟩ ∧
      o = [(pc, (pc.step s.table).1)] := by
  cases a with
  | invoke call =>
    simp only [tableMachine, Option.some.injEq, Prod.mk.injEq] at h
    exact .inl ⟨call, rfl, h.1.symm, h.2.symm⟩
  | step n =>
    simp only [tableMachine] at h
    split at h
    · cases h
    rename_i pc hpc
    split at h
    · cases h
    rename_i hret
    simp only [Option.some.injEq, Prod.mk.injEq] at h
    exact .inr ⟨n, pc, rfl, hpc, by simpa using hret, h.1.symm, h.2.symm⟩

/-! ## What a section of a call does to the table -/

/-- The event that a section of a call may append to the log of a run. -/
def CallState.Appends (runId : RunId) (event : RunEvent) : CallState → Prop
  | .invoked (.setState id state) => id = runId ∧ event = .stateChanged state
  | .invoked (.emit id e) => id = runId ∧ event = e ∧ e.terminalState = none
  | .finishRecord id f => id = runId ∧ event = f.event
  | .invoked (.cancel id) | .cancelRecord id _ => id = runId ∧ event = .cancelled
  | _ => False

/-- The move that a section of a call may make on the record of a run. -/
def CallState.Writes (pc : CallState) (runId : RunId) : RecordLabel → Prop
  | .inner => True
  | .recorded .. => False
  | .appends event => pc.Appends runId event

/-- The call that a section makes on the operation store. -/
def CallState.Operates (c : OperationCall) : CallState → Prop
  | .invoked (.operation c') => c = c'
  | .finishMark runId _ | .cancelOperations runId _ _ => c = .cancelRun runId
  | _ => False

/-- The section of a call of the host sets the state of the run. -/
def CallState.SetsState (runId : RunId) : CallState → Prop
  | .invoked (.setState id _) | .invoked (.cancel id) | .cancelRecord id _ | .finishRecord id _ => id = runId
  | _ => False

/-- All that a section of a call can do to a well-formed table. -/
inductive CallEffect (pc : CallState) (t t' : RunTable) : Prop where
  | quiet (hruns : ∀ id, t'.get id = t.get id) (hops : t'.operations = t.operations)
  | registered (context : RunContext) (limits : RunLimits)
      (hpc : pc = .invoked (.register context limits)) (hnew : t.get context.runId = none)
      (hruns : ∀ id, t'.get id = if id = context.runId then some (.new context limits) else t.get id)
      (hops : t'.operations = t.operations)
  | moved {runId : RunId} {label : RecordLabel} {r r' : RunRecord} (hpc : pc.Writes runId label)
      (hr : t.get runId = some r) (hmove : RecordMove label r r')
      (hruns : ∀ id, t'.get id = if id = runId then some r' else t.get id)
      (hops : t'.operations = t.operations)
  | operated (c : OperationCall) (hpc : pc.Operates c) (hruns : ∀ id, t'.get id = t.get id)
      (hops : t'.operations = (c.apply t.operations).2)

theorem keeps_operate {β : Type} {f : RunRecord → β} {runId : RunId} {t : RunTable} (c : OperationCall) :
    Keeps f runId t (t.operate c).2 :=
  .of_get fun _ => rfl

theorem CallEffect.tableStep {pc : CallState} {t t' : RunTable} (h : CallEffect pc t t') :
    TableStep t t' := by
  cases h with
  | quiet hruns hops => exact .quiet hruns hops
  | registered context limits _ hnew hruns hops => exact .registered context limits hnew hruns hops
  | moved _ hr hmove hruns hops => exact .moved hr hmove hruns hops
  | operated c _ hruns hops => exact .operated c hruns hops

namespace CallState

variable {t : RunTable}

theorem effect_refl (pc : CallState) (t : RunTable) : CallEffect pc t t := .quiet (fun _ => rfl) rfl

theorem effect_of_section {ε α : Type} {pc : CallState} {runId : RunId} {label : RecordLabel}
    {res : Except ε α × RunTable} (h : SectionResult t runId label res) (hpc : pc.Writes runId label) :
    CallEffect pc t res.2 := by
  cases h with
  | failed _ _ hruns hops => exact .quiet hruns hops
  | done _ _ hr hmove hruns hops => exact .moved hpc hr hmove hruns hops

theorem finished_table {ε α : Type} (mapError : ε → RunTableError) (mapOk : α → Reply)
    (res : Except ε α × RunTable) : (finished mapError mapOk res).2 = res.2 := by
  obtain ⟨_ | _, t⟩ := res <;> rfl

theorem refuse_table (t : RunTable) (runId : RunId) (dst : RunState) : (refuse t runId dst).2 = t := by
  unfold refuse
  split <;> rfl

theorem checkFinish_table (t : RunTable) (runId : RunId) (f : FinishEvent) :
    (checkFinish t runId f).2 = t := by
  unfold checkFinish
  split <;> rfl

theorem cancelRun_table (t : RunTable) (runId : RunId) (k : CancelFor) :
    (cancelRun t runId k).2 = (t.cancelRecord runId).2 := by
  unfold cancelRun
  split <;> rename_i heq <;> rw [heq]

theorem begin_effect (ht : t.WellFormed) (call : TableCall) :
    CallEffect (.invoked call) t (begin t call).2 := by
  cases call with
  | register context limits =>
    rw [begin, finished_table]
    obtain h | ⟨hnew, -, hget, hops⟩ := t.register_cases context limits
    · rw [h]
      exact effect_refl _ t
    · exact .registered context limits rfl hnew hget hops
  | setState runId state =>
    rw [begin]
    split
    · rw [refuse_table]
      exact effect_refl _ t
    · rw [finished_table]
      exact effect_of_section (RunTable.setState_section ht runId state) ⟨rfl, rfl⟩
  | emit runId event =>
    rw [begin]
    split
    · rw [refuse_table]
      exact effect_refl _ t
    · rename_i hevent
      obtain ⟨hterminal, hstarted⟩ := not_or.1 hevent
      have hnone : event.terminalState = none := by simpa using hterminal
      rw [finished_table]
      exact effect_of_section (RunTable.emit_section ht runId hnone (by simpa using hstarted))
        ⟨rfl, rfl, hnone⟩
  | finishCompleted runId output | finishFailed runId message =>
    rw [begin, checkFinish_table]
    exact effect_refl _ t
  | cancel runId =>
    rw [begin, cancelRun_table]
    exact effect_of_section (RunTable.cancelRecord_section ht runId) ⟨rfl, rfl⟩
  | cancelTree rootRunId =>
    rw [begin]
    split <;> exact effect_refl _ t
  | registerCancellationHook runId hook =>
    rw [begin, finished_table]
    exact effect_of_section (t.registerCancellationHook_section runId hook) trivial
  | operation c =>
    rw [begin, finished_table]
    exact .operated c rfl (fun _ => rfl) rfl

/-- **Every section of a call** does what its place in the call allows. -/
theorem step_effect (ht : t.WellFormed) (pc : CallState) : CallEffect pc t (pc.step t).2 := by
  cases pc with
  | invoked call => exact begin_effect ht call
  | refused | cancelTreeTargets | cancelSnapshot | returned => exact effect_refl _ t
  | finishRecord runId f =>
    have h : CallEffect (.finishRecord runId f) t (t.finishRecord runId f).2 :=
      effect_of_section (RunTable.finishRecord_section ht runId f) ⟨rfl, rfl⟩
    rw [step]
    split <;> rename_i heq <;> rwa [heq] at h
  | finishMark runId | cancelOperations runId =>
    exact .operated (.cancelRun runId) rfl (fun _ => rfl) rfl
  | cancelRecord runId k =>
    rw [step, cancelRun_table]
    exact effect_of_section (RunTable.cancelRecord_section ht runId) ⟨rfl, rfl⟩
  | cancelHead runId =>
    rw [step]
    split <;> exact effect_refl _ t

theorem step_tableStep (ht : t.WellFormed) (pc : CallState) : TableStep t (pc.step t).2 :=
  (step_effect ht pc).tableStep

/-- **What a section keeps of a run:** what every event and every hook leave as it is, if the section does
not set the state of the run, or keeps it there too. -/
theorem step_keeps {β : Type} {f : RunRecord → β} {runId : RunId} {pc : CallState}
    (hemit : ∀ r event, f (r.emit event).2 = f r) (hhook : ∀ r hook, f (r.registerHook hook).2 = f r)
    (hsets : pc.SetsState runId → ∀ r, (∀ state, f (r.setState state).2 = f r) ∧
      (∀ e, f (r.finish e).2 = f r) ∧ f r.cancel.2 = f r) : Keeps f runId t (pc.step t).2 := by
  have hcancel (id : RunId) (k : CancelFor) (h : id = runId → ∀ r, f r.cancel.2 = f r) :
      Keeps f runId t (cancelRun t id k).2 := by
    rw [cancelRun_table]
    exact keeps_withRecord h
  cases pc with
  | invoked call =>
    cases call with
    | register context limits =>
      rw [step, begin, finished_table]
      exact keeps_register context limits
    | setState id state =>
      simp only [step, begin]
      split
      · rw [refuse_table]
        exact .refl f runId t
      · rw [finished_table]
        exact keeps_withRecord fun hid r => (hsets hid r).1 state
    | emit id event =>
      simp only [step, begin]
      split
      · rw [refuse_table]
        exact .refl f runId t
      · rw [finished_table]
        exact keeps_withRecord fun _ r => hemit r event
    | finishCompleted id output =>
      rw [step, begin, checkFinish_table]
      exact .refl f runId t
    | finishFailed id message =>
      rw [step, begin, checkFinish_table]
      exact .refl f runId t
    | cancel id => exact hcancel id .run fun hid r => (hsets hid r).2.2
    | cancelTree rootRunId =>
      simp only [step, begin]
      split <;> exact .refl f runId t
    | registerCancellationHook id hook =>
      rw [step, begin, finished_table]
      exact keeps_withRecord fun _ r => hhook r hook
    | operation c =>
      rw [step, begin, finished_table]
      exact keeps_operate c
  | finishRecord id e =>
    have hfinish : Keeps f runId t (t.finishRecord id e).2 := keeps_withRecord fun hid r => (hsets hid r).2.1 e
    simp only [step]
    split
    · rename_i heq
      rw [heq] at hfinish
      exact hfinish
    · rename_i heq
      rw [heq] at hfinish
      exact hfinish
  | cancelRecord id k => exact hcancel id k fun hid r => (hsets hid r).2.2
  | cancelHead id hookErrors k =>
    simp only [step]
    split <;> exact .refl f runId t
  | finishMark | cancelOperations => exact keeps_operate _
  | refused | cancelTreeTargets | cancelSnapshot | returned => exact .refl f runId t

end CallState

/-! ## Every reachable table is well formed -/

theorem tableStep_of_step {s u : TableSystem} {a : TableAction} {o}
    (hs : s.table.WellFormed) (h : tableMachine.step s a = some (u, o)) : TableStep s.table u.table := by
  obtain ⟨call, -, rfl, -⟩ | ⟨n, pc, -, -, -, rfl, -⟩ := tableMachine_cases h
  · exact .refl _
  · exact pc.step_tableStep hs

theorem wellFormed_of_run {G : TableSystem → TableAction → Prop} {as : List TableAction} {tr}
    {s t : TableSystem} (h : tableMachine.Run G s as tr t) (hs : s.table.WellFormed) :
    t.table.WellFormed :=
  h.invariant (P := fun t => t.table.WellFormed) hs
    fun ht _ hstep => (tableStep_of_step ht hstep).wellFormed ht

/-- A run stays in the table, and its log only grows. -/
theorem events_of_run {G : TableSystem → TableAction → Prop} {as : List TableAction} {tr}
    {s t : TableSystem} {id : RunId} {r : RunRecord} (h : tableMachine.Run G s as tr t)
    (hs : s.table.WellFormed) (hr : s.table.get id = some r) :
    ∃ r', t.table.get id = some r' ∧ r.events <+: r'.events := by
  induction h with
  | nil => exact ⟨r, hr, List.prefix_rfl⟩
  | snoc hrun _ hstep ih =>
    obtain ⟨r', hr', hpre⟩ := ih
    have ht := wellFormed_of_run hrun hs
    obtain ⟨label, r'', hr'', hmove⟩ := (tableStep_of_step ht hstep).persists hr'
    exact ⟨r'', hr'', hpre.trans hmove.events_prefix⟩

end Aifluxon
