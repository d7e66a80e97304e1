import Aifluxon.Api.Allowed
import Aifluxon.Api.RunTask
import Aifluxon.Runtime.HeldOperations

/-!
# The end of a task

The task of a run ignores the error of its `finish`, which leaves a run with an open operation open.

* `LeftToTask` : the host neither registers an operation of the run nor finishes it;
* `FinishedMarked` : a run that is completed or failed is marked, and its operations are terminal;
* `EndLaw`, `EndLaw.step` : what holds of the operations and of the run in each phase of the task;
* `task_ends` : the check of `finish` finds no open operation, and a task that returns leaves a run that is over.
-/

namespace Aifluxon

/-- The host registers no operation of the run, and does not finish it. -/
structure LeftToTask (task : RunTask) (s : TaskState) (a : TaskAction) : Prop where
  unregistered : ∀ a', a = .agent a' → Unregistered task.env.runId s.agent a'
  unfinished : ∀ (n : Nat) f, a = .agent (.host (.step n)) →
    s.agent.system.calls[n]? ≠ some (.finishRecord task.env.runId f)

/-- A run that is completed or failed is marked, and has terminal operations only. -/
def FinishedMarked (t : RunTable) (runId : RunId) : Prop :=
  ∀ state : RunState, state.IsFinished → t.InState runId state →
    runId ∈ t.operations.terminalRuns ∧ OperationsTerminal t.operations runId

theorem RunState.IsFinished.isTerminal {state : RunState} (h : state.IsFinished) : state.isTerminal = true := by
  rcases h with rfl | rfl <;> rfl

theorem RunState.IsFinished.ne_cancelled {state : RunState} (h : state.IsFinished) : state ≠ .cancelled := by
  rcases h with rfl | rfl <;> nofun

theorem RunState.finished_of_terminal {state : RunState} (h : state.isTerminal = true) (hc : state ≠ .cancelled) :
    state.IsFinished := by
  cases state with
  | completed => exact .inl rfl
  | failed => exact .inr rfl
  | cancelled => exact absurd rfl hc
  | _ => cases h

theorem RunTable.InState.ended {t : RunTable} {runId : RunId} {state : RunState} (h : t.InState runId state)
    (hstate : state.isTerminal = true) : t.Ended runId := by
  obtain ⟨r, hr, rfl⟩ := h
  exact ⟨r, hr, hstate⟩

theorem RunTable.InState.step {t t' : RunTable} {runId : RunId} {state : RunState} (h : t.InState runId state)
    (hstate : state.isTerminal = true) (hstep : TableStep t t') : t'.InState runId state := by
  obtain ⟨r, hr, rfl⟩ := h
  obtain ⟨r', hr', hsame, -⟩ := hstep.keeps_terminal hr hstate
  exact ⟨r', hr', hsame⟩

/-! ## Steps of the loop and of the host -/

section Agent
variable {env : AgentEnv} {s u : AgentState} {a : AgentAction} {o : List AgentObs}

theorem OperationsTerminal.marked {t t' : RunTable} {runId : RunId} (h : OperationsTerminal t.operations runId)
    (hmarked : runId ∈ t.operations.terminalRuns) (hstep : TableStep t t') :
    runId ∈ t'.operations.terminalRuns ∧ OperationsTerminal t'.operations runId := by
  rcases hstep.operations_cases with heq | ⟨c, heq⟩ <;> rw [heq]
  · exact ⟨hmarked, h⟩
  · refine ⟨(InMemoryOperationStore.mem_terminalRuns_apply _ c runId).2 (.inl hmarked), h.apply c ?_⟩
    rintro now operation - rfl hregistrable
    exact hregistrable.1 hmarked

theorem FinishedMarked.step (h : FinishedMarked s.table env.runId) (hs : s.table.WellFormed)
    (hg : ∀ (n : Nat) f, a = .host (.step n) → s.system.calls[n]? ≠ some (.finishRecord env.runId f))
    (hstep : AgentStep env s a u o) : FinishedMarked u.table env.runId := by
  intro state hfinished hin
  obtain ⟨hmarked, hops⟩ := h state hfinished
    (hstep.inState hs hfinished.isTerminal hfinished.ne_cancelled (fun n f _ => hg n f) hin)
  exact hops.marked hmarked (hstep.tableStep hs)

theorem AgentStep.returned {res : Except ProviderError RunExecutionResult} (h : AgentStep env s a u o)
    (hloop : s.loop.phase = .returned res) : u.loop.phase = .returned res := by
  cases h with
  | host | registerTool | sink => exact hloop
  | loop h => exact absurd hloop (h.live res)
  | call hphase =>
    rw [hloop] at hphase
    cases hphase

/-- Once the loop has returned, nobody opens an operation of the run. -/
theorem OperationsTerminal.returned (h : OperationsTerminal s.table.operations env.runId)
    {res : Except ProviderError RunExecutionResult} (hloop : s.loop.phase = .returned res) (hs : s.table.WellFormed)
    (hg : Unregistered env.runId s a) (hstep : AgentStep env s a u o) :
    OperationsTerminal u.table.operations env.runId := by
  cases hstep with
  | host hstep =>
    obtain ⟨call, -, rfl, -⟩ | ⟨n, pc, rfl, hpc, -, rfl, -⟩ := tableMachine_cases hstep
    · exact h
    obtain heq | ⟨c, heq, hc⟩ := CallState.step_operations hs pc
    · exact heq ▸ h
    · rw [show (pc.step s.table).2.operations = _ from heq]
      refine h.apply c fun now operation hregister hrun => ?_
      rcases hc with rfl | ⟨runId, rfl⟩
      · subst hregister
        exact absurd hrun (hg n now operation rfl hpc)
      · cases hregister
  | registerTool => exact h
  | sink event => exact (sink_section hs env.runId event).operations_eq ▸ h
  | loop hstep => exact absurd hloop (hstep.live res)
  | call hphase =>
    rw [hloop] at hphase
    cases hphase

/-- **What the loop leaves behind:** no open operation, or a run that has ended before its error. -/
theorem HeldOperations.returned (hi : HeldOperations env s) {res : Except ProviderError RunExecutionResult}
    (hloop : s.loop.phase = .returned res) :
    OperationsTerminal s.table.operations env.runId ∨ s.table.Ended env.runId ∧ ∃ e, res = .error e := by
  by_cases hops : OperationsTerminal s.table.operations env.runId
  · exact .inl hops
  simp only [OperationsTerminal, not_forall] at hops
  obtain ⟨id, r, hr, hrun, hopen⟩ := hops
  rw [Bool.not_eq_true] at hopen
  rcases hi.held id r ⟨hr, hrun, hopen⟩ with ⟨frame, hframe, -⟩ | ⟨hended, hfailing⟩
  · rw [LoopState.frames, hloop] at hframe
    cases hframe
  · rw [hloop] at hfailing
    cases res with
    | ok => exact hfailing.elim
    | error e => exact .inr ⟨hended, e, rfl⟩

end Agent

/-! ## The law of a task -/

section Law
variable (task : RunTask) (s : TaskState)

/-- The loop has returned, and the operations of the run are terminal. -/
def Settled : Prop :=
  (∃ res, s.agent.loop.phase = .returned res) ∧ OperationsTerminal s.table.operations task.env.runId

/-- What holds in a phase of the task. -/
def EndLaw : TaskPhase → Prop
  | .running => HeldOperations task.env s.agent ∧ FinishedMarked s.table task.env.runId
  | .saveSession _ | .saveProviderState _ | .saveCheckpoint _ => Settled task s
  | .failSnapshot error => HeldOperations task.env s.agent ∧ FinishedMarked s.table task.env.runId ∧
    s.agent.loop.phase = .returned (.error error)
  | .failCheckpoint _ state => (state = .cancelled → s.table.InState task.env.runId .cancelled) ∧
    (state ≠ .cancelled → Settled task s)
  | .finish (.invoked call) => ∃ f : FinishEvent, call = f.call task.env.runId ∧ Settled task s
  | .finish (.finishRecord runId _) => runId = task.env.runId
  | .finish (.finishMark _ _) | .returned => s.table.Ended task.env.runId
  | .finish _ => False

end Law

section Step
variable {task : RunTask} {s u : TaskState} {a : TaskAction}

theorem Settled.of_agent {a : AgentAction} {agent : AgentState} {o : List AgentObs} (h : Settled task s)
    (hs : s.table.WellFormed) (hg : Unregistered task.env.runId s.agent a)
    (hstep : AgentStep task.env s.agent a agent o) : Settled task { s with agent } := by
  obtain ⟨⟨res, hloop⟩, hops⟩ := h
  exact ⟨⟨res, hstep.returned hloop⟩, hops.returned hloop hs hg hstep⟩

/-- A step of the loop or of the host keeps the law of the phase. -/
theorem EndLaw.of_agent {phase : TaskPhase} {a : AgentAction} {agent : AgentState} {o : List AgentObs}
    (h : EndLaw task s phase) (hs : s.table.WellFormed) (hrun : ∃ r, s.table.get task.env.runId = some r)
    (hg : LeftToTask task s (.agent a)) (hstep : AgentStep task.env s.agent a agent o) :
    EndLaw task { s with agent } phase := by
  have hunregistered := hg.unregistered a rfl
  have hunfinished (n : Nat) (f : FinishEvent) (ha : a = .host (.step n)) :
      s.agent.system.calls[n]? ≠ some (.finishRecord task.env.runId f) :=
    hg.unfinished n f (congrArg TaskAction.agent ha)
  cases phase with
  | running => exact ⟨h.1.step hs hrun hunregistered hstep, h.2.step hs hunfinished hstep⟩
  | saveSession | saveProviderState | saveCheckpoint => exact Settled.of_agent h hs hunregistered hstep
  | failSnapshot error =>
    obtain ⟨hheld, hmarked, hloop⟩ := h
    exact ⟨hheld.step hs hrun hunregistered hstep, hmarked.step hs hunfinished hstep, hstep.returned hloop⟩
  | failCheckpoint error state =>
    exact ⟨fun hc => (h.1 hc).step rfl (hstep.tableStep hs), fun hc => (h.2 hc).of_agent hs hunregistered hstep⟩
  | finish pc =>
    cases pc with
    | invoked call =>
      obtain ⟨f, hcall, hsettled⟩ := h
      exact ⟨f, hcall, hsettled.of_agent hs hunregistered hstep⟩
    | finishMark => exact RunTable.Ended.step h (hstep.tableStep hs)
    | _ => exact h
  | returned => exact RunTable.Ended.step h (hstep.tableStep hs)

/-- The check of `finish` passes, as the operations of the run are terminal. -/
theorem endLaw_check {f : FinishEvent} (h : Settled task s) :
    EndLaw task (s.afterFinish (CallState.checkFinish s.table task.env.runId f))
      (s.afterFinish (CallState.checkFinish s.table task.env.runId f)).phase := by
  obtain ⟨hpending, -⟩ | ⟨-, heq⟩ := checkFinish_cases s.table task.env.runId f
  · rw [OperationsTerminal.iff_check.2 h.2] at hpending
    cases hpending
  · rw [heq]
    exact rfl

theorem endLaw_finish (hs : s.table.WellFormed) (hrun : ∃ r, s.table.get task.env.runId = some r)
    (f : FinishEvent) :
    EndLaw task (s.afterFinish ((CallState.finishRecord task.env.runId f).step s.table))
      (s.afterFinish ((CallState.finishRecord task.env.runId f).step s.table)).phase := by
  obtain ⟨e, t', heq, hclosed, hget⟩ | ⟨sequence, t', r', heq, hr', hstate, -⟩ :=
    CallState.finishRecord_cases hs task.env.runId f <;> rw [heq]
  · obtain ⟨r, hr⟩ := hrun
    exact ⟨r, (hget _).trans hr, hclosed r hr⟩
  · exact ⟨r', hr', by rw [hstate]; exact f.isTerminal_state⟩

/-- **A step keeps the law of the task.** -/
theorem EndLaw.step (hs : s.table.WellFormed) (hrun : ∃ r, s.table.get task.env.runId = some r)
    (hg : LeftToTask task s a) (hi : EndLaw task s s.phase) (h : TaskStep task s a u) : EndLaw task u u.phase := by
  cases h with
  | agent h => exact hi.of_agent hs hrun hg h
  | ended hphase hloop =>
    rw [hphase] at hi
    have hsettled : Settled task s := by
      rcases hi.1.returned hloop with hops | ⟨-, e, herror⟩
      · exact ⟨⟨_, hloop⟩, hops⟩
      · cases herror
    dsimp only
    split <;> exact hsettled
  | failed hphase hloop =>
    rw [hphase] at hi
    exact ⟨hi.1, hi.2, hloop⟩
  | sessionSaved hphase =>
    rw [hphase] at hi
    have hsettled : Settled task s := hi
    dsimp only
    split <;> exact hsettled
  | providerStateSkipped hphase | providerStateSaved hphase =>
    rw [hphase] at hi
    exact hi
  | sessionFailed hphase | providerStateFailed hphase | checkpointSaved hphase | checkpointFailed hphase =>
    rw [hphase] at hi
    exact ⟨_, rfl, hi⟩
  | @snapshot _ _ error state hphase hstate hlive =>
    rw [hphase] at hi
    obtain ⟨hheld, hmarked, hloop⟩ := hi
    refine ⟨hstate, fun hc => ⟨⟨_, hloop⟩, ?_⟩⟩
    rcases hheld.returned hloop with hops | ⟨⟨r, hr, hterm⟩, -⟩
    · exact hops
    · -- a run that has ended otherwise is marked
      have hfinished : r.state.IsFinished := RunState.finished_of_terminal hterm (hlive r hr ▸ hc)
      exact (hmarked r.state hfinished ⟨r, hr, rfl⟩).2
  | failureSaved hphase =>
    rw [hphase] at hi
    obtain ⟨hcancelled, hsettled⟩ := hi
    dsimp only
    split
    · exact (hcancelled ‹_›).ended rfl
    · exact ⟨_, rfl, hsettled ‹_›⟩
  | @finish _ _ pc hphase =>
    rw [hphase] at hi
    cases pc with
    | invoked call =>
      obtain ⟨f, rfl, hsettled⟩ := hi
      rw [CallState.step, begin_finish]
      exact endLaw_check hsettled
    | finishRecord runId f =>
      obtain rfl : runId = task.env.runId := hi
      exact endLaw_finish hs hrun f
    | finishMark runId sequence => exact RunTable.Ended.step hi (operate_tableStep _ _)
    | _ => exact hi.elim

end Step

/-! ## Runs -/

theorem FinishedMarked.of_open {t : RunTable} {runId : RunId} (h : ¬ t.Ended runId) : FinishedMarked t runId :=
  fun _ hfinished hin => absurd (hin.ended hfinished.isTerminal) h

section Launched
variable {request : RunRequest} {w w' : Backend} {launched : Launched} {G : TaskState → TaskAction → Prop}
  {as : List TaskAction} {tr : List AgentObs} {s : TaskState}

/-- A run that has ended before its task is spawned stays so. -/
theorem Opened.ended (ho : Opened request w w' launched) (hw' : w'.table.WellFormed)
    (h : (taskMachine launched.task).Run G (launched.task.init w') as tr s)
    (hended : w'.table.Ended launched.task.env.runId) : s.table.Ended launched.task.env.runId :=
  (ho.invariant (P := fun s => s.table.Ended launched.task.env.runId) hw' h hended
    fun hs _ _ hi hstep => hi.step (hstep.tableStep hs)).1

/-- **The law holds in every run of a task.** -/
theorem Opened.endLaw (ho : Opened request w w' launched) (hw' : w'.table.WellFormed)
    (hops : OperationsTerminal w'.table.operations launched.task.env.runId)
    (hmarked : FinishedMarked w'.table launched.task.env.runId)
    (h : (taskMachine launched.task).Run (LeftToTask launched.task) (launched.task.init w') as tr s) :
    EndLaw launched.task s s.phase := by
  have hinit : EndLaw launched.task (launched.task.init w') .running := ⟨.init rfl hops, hmarked⟩
  exact (ho.invariant (P := fun s => EndLaw launched.task s s.phase) hw' h hinit
    fun hs hrun hg hi hstep => hi.step hs hrun hg hstep).1

end Launched

/-- **A task that returns leaves a run that is over.** When the host neither registers operations of a
launched run nor finishes it, the run has ended when the task returns; and unless somebody stands in a
`finish` of the run when the task is spawned, the `finish` of the task never finds an open operation. -/
theorem task_ends {configuration : BackendConfiguration} {env : LaunchEnv} {request : RunRequest}
    {existingRun : Option RunId} {w : Backend} {launched : Launched} {as : List TaskAction} {tr : List AgentObs}
    {s : TaskState} (hlaunch : (launch configuration env request existingRun w).1 = .ok launched)
    (hw : w.table.WellFormed)
    (hops : OperationsTerminal (launch configuration env request existingRun w).2.table.operations
      launched.context.runId)
    (h : (taskMachine launched.task).Run (LeftToTask launched.task)
      (launched.task.init (launch configuration env request existingRun w).2) as tr s) :
    (s.phase = .returned → ∃ r, s.table.get launched.context.runId = some r ∧ r.state.isTerminal = true) ∧
    (FinishedMarked (launch configuration env request existingRun w).2.table launched.context.runId →
      ∀ f : FinishEvent, s.phase = .finish (.invoked (f.call launched.context.runId)) →
        s.table.hasPendingOperations launched.context.runId = false) := by
  have hopened := opened_of_launch hlaunch
  have hwf : (launch configuration env request existingRun w).2.table.WellFormed := launch_wellFormed hw
  generalize (launch configuration env request existingRun w).2 = w' at hopened hwf h hops
  rw [← hopened.runId] at hops ⊢
  refine ⟨fun hphase => ?_, fun hmarked f hphase => ?_⟩
  · by_cases hended : w'.table.Ended launched.task.env.runId
    · exact hopened.ended hwf h hended
    · have hlaw := hopened.endLaw hwf hops (.of_open hended) h
      rw [hphase] at hlaw
      exact hlaw
  · have hlaw := hopened.endLaw hwf hops hmarked h
    rw [hphase] at hlaw
    obtain ⟨-, -, hsettled⟩ := hlaw
    exact OperationsTerminal.iff_check.2 hsettled.2

/-- A test for `LeftToTask`. -/
def leftToTaskTest (_ : RunTask) (s : TaskState) : TaskAction → Bool
  | .agent (.host (.step n)) => match s.agent.system.calls[n]? with
    | some (.invoked (.operation (.register _ _))) | some (.finishRecord _ _) => false
    | _ => true
  | _ => true

theorem leftToTask_of_test {task : RunTask} (s : TaskState) (a : TaskAction)
    (h : leftToTaskTest task s a = true) : LeftToTask task s a where
  unregistered a' ha n now operation ha' hcall := by
    subst ha ha'
    simp [leftToTaskTest, hcall] at h
  unfinished n f ha hcall := by
    subst ha
    simp [leftToTaskTest, hcall] at h

/-- The host begins the commit of an operation, the executor fails, and the task returns. -/
def failedSend : List TaskAction :=
  approvedSend.map .agent ++
    [.agent (.call 0 (.complete (.error (.failed "refused")))), .agent (.call 0 .step), .agent (.loop .step),
      .step .none 1, .step .none 2, .step .none 3, .step .none 4, .step .none 5, .step .none 6]

theorem task_ends_failedSend :
    ∃ tr s, (taskMachine (sendTask ["send"])).Run (LeftToTask (sendTask ["send"]))
        ((sendTask ["send"]).init (sendLaunch ["send"]).2) failedSend tr s ∧ s.phase = .returned ∧
      (∃ r, s.table.operations.get ⟨1⟩ = some r ∧ r.state.isTerminal = true) ∧
      ∃ r, s.table.get ⟨1⟩ = some r ∧ r.state.isTerminal = true := by
  have hrun := Machine.exec_run (M := taskMachine (sendTask ["send"]))
    (s := (sendTask ["send"]).init (sendLaunch ["send"]).2) (l := failedSend) (G := LeftToTask (sendTask ["send"]))
    leftToTask_of_test rfl
  have hlaunched : (sendLaunch ["send"]).1 = .ok (sendLaunched ["send"]) := rfl
  have hops : OperationsTerminal (sendLaunch ["send"]).2.table.operations ⟨1⟩ := fun _ _ h => by cases h
  have hends := task_ends hlaunched RunTable.new_wellFormed hops hrun
  exact ⟨_, _, hrun, rfl, ⟨_, rfl, rfl⟩, hends.1 rfl⟩

end Aifluxon
