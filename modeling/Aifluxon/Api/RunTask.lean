import Aifluxon.Api.LaunchErrors
import Aifluxon.Runtime.AgentStep

/-!
# The task of a run

What the task that `launch` spawns does once its loop has returned: the stores are written one after
the other, and then the run is finished.

* `TaskPhase` : where the task stands; every store call and every section of `finish` is a step;
* `taskMachine` : the task and the host, interleaved;
* `TaskStep`, `taskStep_of_step` : all that a step of the machine can do;
* `checkFinish_cases` : the check that the task's `finish` begins with;
* `Opened`, `opened_of_launch` : what a launch hands over to its task;
* `Opened.invariant` : the invariant rule of a launched task.
-/

namespace Aifluxon

/-- The call that appends the event. -/
def FinishEvent.call (runId : RunId) : FinishEvent → TableCall
  | .completed output => .finishCompleted runId output
  | .failed message => .finishFailed runId message

inductive TaskPhase where
  | running
  | saveSession (result : RunExecutionResult)
  | saveProviderState (result : RunExecutionResult)
  | saveCheckpoint (result : RunExecutionResult)
  | failSnapshot (error : ProviderError)
  | failCheckpoint (error : ProviderError) (state : RunState)
  | finish (pc : CallState)
  | returned

structure TaskState where
  agent : AgentState
  stores : Stores
  phase : TaskPhase

/-- A step of the loop or of the host, or of the task, with the fault of its store and the time. -/
inductive TaskAction where
  | agent (a : AgentAction)
  | step (fault : Fault) (now : TimestampMillis)

namespace TaskState

abbrev table (s : TaskState) : RunTable := s.agent.table

def withTable (s : TaskState) (t : RunTable) : TaskState := { s with agent := s.agent.withTable t }

/-- The state after a section of the task's `finish`. -/
def afterFinish (s : TaskState) (x : CallState × RunTable) : TaskState :=
  { s.withTable x.2 with phase := if x.1.isReturned then .returned else .finish x.1 }

end TaskState

namespace RunTask

variable (task : RunTask)

def init (w : Backend) : TaskState := ⟨task.agent w.table, w.stores, .running⟩

/-- The record of the session with the messages of a result. -/
def record (result : RunExecutionResult) : SessionRecord :=
  { task.sessionRecord with messages := result.messages }

/-- The checkpoint of a run that has its result. -/
def completedCheckpoint (result : RunExecutionResult) (now : TimestampMillis) : RunCheckpoint :=
  ⟨task.env.runId, task.sessionId, .completed, result.messages, notNull result.turn.opaqueValue, now⟩

/-- The checkpoint of a run whose loop has failed. -/
def failedCheckpoint (state : RunState) (now : TimestampMillis) : RunCheckpoint :=
  ⟨task.env.runId, task.sessionId, if state = .cancelled then .cancelled else .failed,
    task.request.messages, task.request.opaqueState, now⟩

/-- The error of a loop, and that of the checkpoint after it. -/
def failure (error : ProviderError) : Except StoreError Unit → String
  | .ok () => error.message
  | .error storeError =>
    error.message ++ "; additionally failed to persist the run checkpoint: " ++ storeError.message

def toFinish (f : FinishEvent) : TaskPhase := .finish (.invoked (f.call task.env.runId))

/-- The next step of the task. -/
def step (s : TaskState) (fault : Fault) (now : TimestampMillis) : Option TaskState :=
  match s.phase with
  | .running => match s.agent.loop.phase with
    | .returned (.ok result) => some { s with
        phase := if task.sessionId.isSome then .saveSession result else .saveCheckpoint result }
    | .returned (.error error) => some { s with phase := .failSnapshot error }
    | _ => none
  | .saveSession result => match s.stores.sessions.save fault now (task.record result) with
    | (.error error, sessions) => some { s with
        stores := { s.stores with sessions }, phase := task.toFinish (.failed error.message) }
    | (.ok _, sessions) => some { s with
        stores := { s.stores with sessions }
        phase := if result.turn.opaqueValue.isNull then .saveCheckpoint result
          else .saveProviderState result }
  | .saveProviderState result => match task.sessionId with
    | none => some { s with phase := .saveCheckpoint result }
    | some sessionId =>
      match s.stores.providerStates.save fault ⟨sessionId, task.providerId, result.turn.opaqueValue⟩ with
      | (.error error, providerStates) => some { s with
          stores := { s.stores with providerStates }, phase := task.toFinish (.failed error.message) }
      | (.ok (), providerStates) => some { s with
          stores := { s.stores with providerStates }, phase := .saveCheckpoint result }
  | .saveCheckpoint result =>
    match s.stores.checkpoints.save fault (task.completedCheckpoint result now) with
    | (.error error, checkpoints) => some { s with
        stores := { s.stores with checkpoints }, phase := task.toFinish (.failed error.message) }
    | (.ok (), checkpoints) => some { s with
        stores := { s.stores with checkpoints }, phase := task.toFinish (.completed result.messages) }
  | .failSnapshot error =>
    let state := match s.table.head task.env.runId with
      | .ok head => head.state
      | .error _ => .failed
    some { s with phase := .failCheckpoint error state }
  | .failCheckpoint error state =>
    let saved := s.stores.checkpoints.save fault (task.failedCheckpoint state now)
    some { s with
      stores := { s.stores with checkpoints := saved.2 }
      phase := if state = .cancelled then .returned
        else task.toFinish (.failed (failure error saved.1)) }
  | .finish pc => some (s.afterFinish (pc.step s.table))
  | .returned => none

end RunTask

def taskMachine (task : RunTask) : Machine TaskState TaskAction AgentObs where
  step s
    | .agent a => match (agentMachine task.env).step s.agent a with
      | none => none
      | some (agent, o) => some ({ s with agent }, o)
    | .step fault now => match task.step s fault now with
      | none => none
      | some s' => some (s', [])

/-! ## Steps of the task -/

/-- All that a step of the machine can do. -/
inductive TaskStep (task : RunTask) (s : TaskState) : TaskAction → TaskState → Prop where
  | agent {a : AgentAction} {agent : AgentState} {o : List AgentObs} (h : AgentStep task.env s.agent a agent o) :
      TaskStep task s (.agent a) { s with agent }
  | ended {fault : Fault} {now : TimestampMillis} {result : RunExecutionResult} (hphase : s.phase = .running)
      (hloop : s.agent.loop.phase = .returned (.ok result)) :
      TaskStep task s (.step fault now) { s with
        phase := if task.sessionId.isSome then .saveSession result else .saveCheckpoint result }
  | failed {fault : Fault} {now : TimestampMillis} {error : ProviderError} (hphase : s.phase = .running)
      (hloop : s.agent.loop.phase = .returned (.error error)) :
      TaskStep task s (.step fault now) { s with phase := .failSnapshot error }
  | sessionSaved {fault : Fault} {now : TimestampMillis} {result : RunExecutionResult}
      {saved : SessionRecord} {sessions : SessionStore} (hphase : s.phase = .saveSession result)
      (h : s.stores.sessions.save fault now (task.record result) = (.ok saved, sessions)) :
      TaskStep task s (.step fault now) { s with
        stores := { s.stores with sessions }
        phase := if result.turn.opaqueValue.isNull then .saveCheckpoint result
          else .saveProviderState result }
  | sessionFailed {fault : Fault} {now : TimestampMillis} {result : RunExecutionResult}
      {error : StoreError} {sessions : SessionStore} (hphase : s.phase = .saveSession result)
      (h : s.stores.sessions.save fault now (task.record result) = (.error error, sessions)) :
      TaskStep task s (.step fault now) { s with
        stores := { s.stores with sessions }, phase := task.toFinish (.failed error.message) }
  | providerStateSkipped {fault : Fault} {now : TimestampMillis} {result : RunExecutionResult}
      (hphase : s.phase = .saveProviderState result) (hsession : task.sessionId = none) :
      TaskStep task s (.step fault now) { s with phase := .saveCheckpoint result }
  | providerStateSaved {fault : Fault} {now : TimestampMillis} {result : RunExecutionResult}
      {providerStates : ProviderStateStore} (hphase : s.phase = .saveProviderState result) :
      TaskStep task s (.step fault now) { s with
        stores := { s.stores with providerStates }, phase := .saveCheckpoint result }
  | providerStateFailed {fault : Fault} {now : TimestampMillis} {result : RunExecutionResult}
      {providerStates : ProviderStateStore} {error : StoreError}
      (hphase : s.phase = .saveProviderState result) (hfault : fault ≠ .none) :
      TaskStep task s (.step fault now) { s with
        stores := { s.stores with providerStates }, phase := task.toFinish (.failed error.message) }
  | checkpointSaved {now : TimestampMillis} {result : RunExecutionResult}
      (hphase : s.phase = .saveCheckpoint result) :
      TaskStep task s (.step .none now) { s with
        stores := { s.stores with
          checkpoints := ⟨s.stores.checkpoints.records.insert task.env.runId
            (task.completedCheckpoint result now)⟩ }
        phase := task.toFinish (.completed result.messages) }
  | checkpointFailed {fault : Fault} {now : TimestampMillis} {result : RunExecutionResult}
      {checkpoints : RunCheckpointStore} {error : StoreError} (hphase : s.phase = .saveCheckpoint result)
      (hfault : fault ≠ .none) :
      TaskStep task s (.step fault now) { s with
        stores := { s.stores with checkpoints }, phase := task.toFinish (.failed error.message) }
  | snapshot {fault : Fault} {now : TimestampMillis} {error : ProviderError} {state : RunState}
      (hphase : s.phase = .failSnapshot error)
      (hstate : state = .cancelled → ∃ r, s.table.get task.env.runId = some r ∧ r.state = .cancelled)
      (hlive : ∀ r, s.table.get task.env.runId = some r → r.state = state) :
      TaskStep task s (.step fault now) { s with phase := .failCheckpoint error state }
  | failureSaved {fault : Fault} {now : TimestampMillis} {error : ProviderError} {state : RunState}
      {res : Except StoreError Unit} {checkpoints : RunCheckpointStore}
      (hphase : s.phase = .failCheckpoint error state)
      (h : s.stores.checkpoints.save fault (task.failedCheckpoint state now) = (res, checkpoints)) :
      TaskStep task s (.step fault now) { s with
        stores := { s.stores with checkpoints }
        phase := if state = .cancelled then .returned
          else task.toFinish (.failed (RunTask.failure error res)) }
  | finish {fault : Fault} {now : TimestampMillis} {pc : CallState} (hphase : s.phase = .finish pc) :
      TaskStep task s (.step fault now) (s.afterFinish (pc.step s.table))

section TaskStep
variable {task : RunTask} {s u : TaskState} {a : TaskAction} {o : List AgentObs}

/-- **Every step of the machine** is one of the steps above. -/
theorem taskStep_of_step (h : (taskMachine task).step s a = some (u, o)) : TaskStep task s a u := by
  cases a with
  | agent a =>
    simp only [taskMachine] at h
    split at h <;> cases h
    exact .agent (agentStep_of_step ‹_›)
  | step fault now =>
    simp only [taskMachine] at h
    split at h <;> cases h
    rename_i hstep
    unfold RunTask.step at hstep
    split at hstep <;> rename_i hphase
    · split at hstep <;> cases hstep
      · exact .ended hphase ‹_›
      · exact .failed hphase ‹_›
    · split at hstep <;> rename_i hsave <;> cases hstep
      · exact .sessionFailed hphase hsave
      · exact .sessionSaved hphase hsave
    · split at hstep
      · cases hstep
        exact .providerStateSkipped hphase ‹_›
      · split at hstep <;> rename_i hsave <;> cases hstep
        · refine .providerStateFailed hphase fun hfault => ?_
          subst hfault
          cases hsave
        · exact .providerStateSaved hphase
    · split at hstep <;> rename_i hsave <;> cases hstep
      · refine .checkpointFailed hphase fun hfault => ?_
        subst hfault
        cases hsave
      · obtain rfl := (Fault.write_ok fault).1 (congrArg Prod.fst hsave)
        obtain rfl := congrArg Prod.snd hsave
        exact .checkpointSaved hphase
    · cases hstep
      refine .snapshot hphase (fun hstate => ?_) fun r hr => ?_
      · unfold RunTable.head at hstate
        cases hr : s.table.get task.env.runId with
        | none => rw [hr] at hstate; cases hstate
        | some r => rw [hr] at hstate; exact ⟨r, rfl, hstate⟩
      · rw [RunTable.head, hr]
    · cases hstep
      exact .failureSaved hphase rfl
    · cases hstep
      exact .finish hphase
    · cases hstep

/-! ## Finishing -/

theorem begin_finish (t : RunTable) (runId : RunId) (f : FinishEvent) :
    CallState.begin t (f.call runId) = CallState.checkFinish t runId f := by
  cases f <;> rfl

theorem checkFinish_cases (t : RunTable) (runId : RunId) (f : FinishEvent) :
    (t.hasPendingOperations runId = true ∧
      CallState.checkFinish t runId f = (.returned (.error .pendingOperations), t)) ∨
    (t.hasPendingOperations runId = false ∧ CallState.checkFinish t runId f = (.finishRecord runId f, t)) := by
  unfold CallState.checkFinish
  split
  · exact .inl ⟨‹_›, rfl⟩
  · exact .inr ⟨Bool.not_eq_true _ ▸ ‹_›, rfl⟩

end TaskStep

/-! ## Tables -/

theorem TaskStep.tableStep {task : RunTask} {s u : TaskState} {a : TaskAction} (hs : s.table.WellFormed)
    (h : TaskStep task s a u) : TableStep s.table u.table := by
  cases h with
  | agent h => exact h.tableStep hs
  | @finish _ _ pc => exact pc.step_tableStep hs
  | _ => exact .refl _

theorem task_wellFormed {task : RunTask} {G : TaskState → TaskAction → Prop} {as : List TaskAction}
    {tr : List AgentObs} {s t : TaskState} (h : (taskMachine task).Run G s as tr t)
    (hs : s.table.WellFormed) : t.table.WellFormed :=
  h.invariant (P := fun t => t.table.WellFormed) hs
    fun ht _ hstep => ((taskStep_of_step hstep).tableStep ht).wellFormed ht

/-- A run stays in the table. -/
theorem run_stays {task : RunTask} {G : TaskState → TaskAction → Prop} {as : List TaskAction}
    {tr : List AgentObs} {s t : TaskState} {id : RunId} (h : (taskMachine task).Run G s as tr t)
    (hs : s.table.WellFormed) (hrun : ∃ r, s.table.get id = some r) : ∃ r, t.table.get id = some r :=
  h.induction (P := fun _ t => ∃ r, t.table.get id = some r) hrun fun hr ⟨_, hx⟩ _ hstep =>
    have ⟨_, r', hr', _⟩ := ((taskStep_of_step hstep).tableStep (task_wellFormed hr hs)).persists hx
    ⟨r', hr'⟩

/-! ## Launched tasks -/

/-- The task works on the session, with the record that the store has. -/
structure OnSession (task : RunTask) (sessionId : SessionId) (before : Stores) : Prop where
  works : task.sessionId = some sessionId
  recordId : task.sessionRecord.id = sessionId
  revision : task.sessionRecord.revision =
    ((before.sessions.get sessionId).map SessionRecord.revision).getD 0

/-- What a launch hands over: a record that is current, its run in the table, and the stores of
sessions and provider states as they were. -/
structure Opened (request : RunRequest) (w w' : Backend) (launched : Launched) : Prop where
  runId : launched.task.env.runId = launched.context.runId
  sessionId : launched.task.sessionId = request.sessionId
  onSession : ∀ {sessionId}, launched.task.sessionId = some sessionId →
    OnSession launched.task sessionId w.stores
  run : ∃ r, w'.table.get launched.context.runId = some r
  completed : w'.table.IsCompleted launched.context.runId → w.table.IsCompleted launched.context.runId
  sessions : w'.stores.sessions = w.stores.sessions
  providerStates : w'.stores.providerStates = w.stores.providerStates

theorem openRecord_current {env : LaunchEnv} {request : RunRequest} {stores : Stores}
    {record : SessionRecord} (h : openRecord env request stores = .ok record) {sessionId : SessionId}
    (hsession : request.sessionId = some sessionId) : record.id = sessionId ∧
      record.revision = ((stores.sessions.get sessionId).map SessionRecord.revision).getD 0 := by
  rw [openRecord, hsession] at h
  simp only [SessionStore.load, loaded] at h
  split at h <;> rename_i heq
  · cases h
  split at heq
  · cases heq
  cases heq
  cases hget : stores.sessions.get sessionId with
  | none =>
    rw [hget] at h
    cases h
    exact ⟨rfl, rfl⟩
  | some existing =>
    rw [hget] at h
    cases h
    exact ⟨stores.sessions.keyed sessionId existing hget, rfl⟩

theorem openRun_ok {env : LaunchEnv} {request : RunRequest} {existingRun : Option RunId}
    {t t' : RunTable} {context : RunContext} (h : openRun env request existingRun t = (.ok context, t')) :
    (∃ r, t'.get context.runId = some r) ∧ (t'.IsCompleted context.runId → t.IsCompleted context.runId) := by
  cases existingRun with
  | some runId =>
    simp only [openRun, RunTable.context] at h
    split at h <;> cases h
    rename_i r hr
    have hid : r.context.runId = runId := t.keyed runId r hr
    exact ⟨⟨r, hid ▸ hr⟩, id⟩
  | none =>
    simp only [openRun] at h
    obtain hcol | ⟨-, hok, hget, -⟩ := t.register_cases ⟨env.runId, request.sessionId, none⟩ request.limits
    · rw [hcol] at h
      cases h
    · rw [h] at hok hget
      cases hok
      refine ⟨⟨_, (hget env.runId).trans (if_pos rfl)⟩, ?_⟩
      rintro ⟨r, hr, hstate⟩
      rw [hget, if_pos rfl] at hr
      cases hr
      cases hstate

theorem opened_of_launch {configuration : BackendConfiguration} {env : LaunchEnv} {request : RunRequest}
    {existingRun : Option RunId} {w : Backend} {launched : Launched}
    (h : (launch configuration env request existingRun w).1 = .ok launched) :
    Opened request w (launch configuration env request existingRun w).2 launched := by
  generalize hx : launch configuration env request existingRun w = x at h ⊢
  unfold launch at hx
  split at hx
  · cases hx
    cases h
  split at hx
  · cases hx
    cases h
  split at hx
  · cases hx
    cases h
  rename_i record hrecord
  split at hx
  · cases hx
    cases h
  rename_i context t hopen
  unfold launchRun at hx
  dsimp only at hx
  split at hx
  · cases hx
    cases h
  split at hx <;> cases hx <;> cases h
  obtain ⟨hrun, hcompleted⟩ := openRun_ok hopen
  refine ⟨rfl, rfl, fun hsession => ?_, hrun, hcompleted, rfl, rfl⟩
  obtain ⟨hid, hrev⟩ := openRecord_current hrecord hsession
  exact ⟨hsession, hid, hrev⟩

/-- The messages that the store keeps of a session. -/
def SessionStore.history (sessions : SessionStore) (sessionId : SessionId) : List Message :=
  ((sessions.get sessionId).map SessionRecord.messages).getD []

theorem openRecord_messages {env : LaunchEnv} {request : RunRequest} {stores : Stores} {record : SessionRecord}
    (h : openRecord env request stores = .ok record) {sessionId : SessionId}
    (hsession : request.sessionId = some sessionId) : record.messages = stores.sessions.history sessionId := by
  rw [openRecord, hsession] at h
  simp only [SessionStore.load, loaded] at h
  split at h <;> rename_i heq
  · cases h
  split at heq
  · cases heq
  cases heq
  rw [SessionStore.history]
  cases hget : stores.sessions.get sessionId with
  | none =>
    rw [hget] at h
    cases h
    rfl
  | some existing =>
    rw [hget] at h
    cases h
    rfl

/-- The history of a task is that of its session with the messages of its request. -/
theorem launch_messages {configuration : BackendConfiguration} {env : LaunchEnv} {request : RunRequest}
    {existingRun : Option RunId} {w : Backend} {launched : Launched}
    (hlaunch : (launch configuration env request existingRun w).1 = .ok launched) :
    ∃ record, openRecord env request w.stores = .ok record ∧ launched.task.request.messages =
      mergeSessionAndRequestMessages (if request.sessionId.isSome then record.messages else []) request.messages := by
  generalize hx : launch configuration env request existingRun w = x at hlaunch
  unfold launch at hx
  split at hx
  · cases hx
    cases hlaunch
  split at hx
  · cases hx
    cases hlaunch
  split at hx
  · cases hx
    cases hlaunch
  rename_i record hrecord
  split at hx
  · cases hx
    cases hlaunch
  unfold launchRun at hx
  dsimp only at hx
  split at hx
  · cases hx
    cases hlaunch
  split at hx <;> cases hx <;> cases hlaunch
  exact ⟨record, hrecord, rfl⟩

/-- **The invariant rule of a launched task.** A step may use that the table is well formed and holds
the run of the task. -/
theorem Opened.invariant {request : RunRequest} {w w' : Backend} {launched : Launched}
    {G : TaskState → TaskAction → Prop} {as : List TaskAction} {tr : List AgentObs} {s : TaskState}
    {P : TaskState → Prop} (ho : Opened request w w' launched) (hw' : w'.table.WellFormed)
    (h : (taskMachine launched.task).Run G (launched.task.init w') as tr s)
    (hinit : P (launched.task.init w'))
    (hstep : ∀ {s a u}, s.table.WellFormed → (∃ r, s.table.get launched.task.env.runId = some r) →
      G s a → P s → TaskStep launched.task s a u → P u) :
    P s ∧ s.table.WellFormed ∧ ∃ r, s.table.get launched.task.env.runId = some r := by
  have hrun : ∃ r, w'.table.get launched.task.env.runId = some r := by
    rw [ho.runId]
    exact ho.run
  refine ⟨?_, task_wellFormed h hw', run_stays h hw' hrun⟩
  exact h.induction (P := fun _ s => P s) hinit fun hr hi hg hst =>
    hstep (task_wellFormed hr hw') (run_stays hr hw' hrun) hg hi (taskStep_of_step hst)

end Aifluxon
