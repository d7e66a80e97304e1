import Aifluxon.Api.Persistence

/-!
# The last checkpoint of a run and its terminal state

The task saves the checkpoint of its run, and finishes the run afterwards.

* `Undisturbed` : the saves work, and the run ends as its checkpoint says;
* `CheckpointLaw` : what holds of the checkpoint in each phase of the task;
* `checkpoint_agrees` : in such runs the last checkpoint has the terminal state of the run, and a
  cancelled run has not touched its session;
* `cancelled_after_checkpoint` : a cancel between the checkpoint and the finish parts the two.
-/

namespace Aifluxon

open Machine (Free)

/-- The saves of a result work, that of a failure writes its checkpoint; and in the sections of
`finish` no operation is open, and no other state has been reached. -/
structure Undisturbed (task : RunTask) (s : TaskState) (a : TaskAction) : Prop where
  session : ∀ result fault now, s.phase = .saveSession result → a = .step fault now → fault = .none
  providerState : ∀ result fault now, s.phase = .saveProviderState result → a = .step fault now →
    fault = .none
  checkpoint : ∀ result fault now, s.phase = .saveCheckpoint result → a = .step fault now → fault = .none
  failure : ∀ error state fault now, s.phase = .failCheckpoint error state → a = .step fault now →
    ∀ e, fault ≠ .before e
  check : ∀ (f : FinishEvent) fault now, s.phase = .finish (.invoked (f.call task.env.runId)) →
    a = .step fault now → s.table.hasPendingOperations task.env.runId = false ∨
      ∃ r, s.table.get task.env.runId = some r ∧ r.state = f.state
  finish : ∀ (f : FinishEvent) fault now, s.phase = .finish (.finishRecord task.env.runId f) →
    a = .step fault now →
      ∀ r, s.table.get task.env.runId = some r → r.state.isTerminal = true → r.state = f.state

section Law
variable (task : RunTask) (before : Stores) (s : TaskState)

/-- The last checkpoint of the run has the state. -/
def LastCheckpoint (state : RunState) : Prop :=
  ∃ checkpoint, s.stores.checkpoints.get task.env.runId = some checkpoint ∧ checkpoint.state = state

/-- The run is over, its last checkpoint says how, and a cancelled run has left the sessions alone. -/
def CheckpointAgrees : Prop :=
  ∃ r, s.table.get task.env.runId = some r ∧ r.state.isTerminal = true ∧ LastCheckpoint task s r.state ∧
    (r.state = .cancelled → s.stores.sessions = before.sessions)

/-- What holds of the checkpoint in a phase of the task. -/
def CheckpointLaw : TaskPhase → Prop
  | .running | .failSnapshot _ => s.stores.sessions = before.sessions
  | .saveSession _ => s.stores.sessions = before.sessions ∧ ∃ sessionId, OnSession task sessionId before
  | .saveProviderState _ | .saveCheckpoint _ => True
  | .failCheckpoint _ state => s.stores.sessions = before.sessions ∧
    (state = .cancelled → ∃ r, s.table.get task.env.runId = some r ∧ r.state = .cancelled)
  | .finish (.invoked call) => ∃ f : FinishEvent, call = f.call task.env.runId ∧ LastCheckpoint task s f.state
  | .finish (.finishRecord runId f) => runId = task.env.runId ∧ LastCheckpoint task s f.state
  | .finish (.finishMark _ _) | .returned => CheckpointAgrees task before s
  | .finish _ => False

end Law

section Mono
variable {task : RunTask} {before : Stores} {s u : TaskState}

theorem LastCheckpoint.mono {state : RunState} (h : LastCheckpoint task s state)
    (hstores : u.stores = s.stores) : LastCheckpoint task u state := by
  rwa [LastCheckpoint, hstores]

theorem CheckpointAgrees.mono (h : CheckpointAgrees task before s) (hstores : u.stores = s.stores)
    (htable : TableStep s.table u.table) : CheckpointAgrees task before u := by
  obtain ⟨r, hr, hterm, hlast, hsessions⟩ := h
  obtain ⟨r', hr', hstate, -⟩ := htable.keeps_terminal hr hterm
  refine ⟨r', hr', hstate ▸ hterm, hstate ▸ hlast.mono hstores, fun hc => ?_⟩
  rw [hstores]
  exact hsessions (hstate ▸ hc)

theorem CheckpointLaw.mono {phase : TaskPhase} (h : CheckpointLaw task before s phase)
    (hstores : u.stores = s.stores) (htable : TableStep s.table u.table) :
    CheckpointLaw task before u phase := by
  have hsessions : u.stores.sessions = s.stores.sessions := by rw [hstores]
  cases phase with
  | running | failSnapshot => exact hsessions.trans h
  | saveSession => exact ⟨hsessions.trans h.1, h.2⟩
  | saveProviderState | saveCheckpoint => trivial
  | failCheckpoint error state =>
    refine ⟨hsessions.trans h.1, fun hc => ?_⟩
    obtain ⟨r, hr, hstate⟩ := h.2 hc
    obtain ⟨r', hr', hstate', -⟩ := htable.keeps_terminal hr (by rw [hstate]; rfl)
    exact ⟨r', hr', hstate'.trans hstate⟩
  | finish pc =>
    cases pc with
    | invoked call =>
      obtain ⟨f, hcall, hlast⟩ := h
      exact ⟨f, hcall, hlast.mono hstores⟩
    | finishRecord => exact ⟨h.1, h.2.mono hstores⟩
    | finishMark => exact CheckpointAgrees.mono h hstores htable
    | _ => exact h
  | returned => exact CheckpointAgrees.mono h hstores htable

end Mono

/-! ## Steps -/

section Step
variable {task : RunTask} {before : Stores} {s u : TaskState} {a : TaskAction} {fault : Fault}
  {now : TimestampMillis}

/-- The revision of the task is current, as long as no save of a session has been made. -/
theorem OnSession.current {sessionId : SessionId} (ho : OnSession task sessionId before)
    (hsessions : s.stores.sessions = before.sessions) (result : RunExecutionResult) :
    s.stores.sessions.current (task.record result) = true := by
  have hid : (task.record result).id = sessionId := ho.recordId
  have hrev : (task.record result).revision =
    ((before.sessions.get sessionId).map SessionRecord.revision).getD 0 := ho.revision
  rw [SessionStore.current, hid, hsessions, hrev]
  cases before.sessions.get sessionId <;> simp

/-- A run that has the state of its checkpoint agrees with it. -/
theorem agrees_of_state {f : FinishEvent} {r : RunRecord} (hr : s.table.get task.env.runId = some r)
    (hstate : r.state = f.state) (hlast : LastCheckpoint task s f.state) : CheckpointAgrees task before s := by
  refine ⟨r, hr, by rw [hstate]; exact f.isTerminal_state, hstate ▸ hlast, fun hc => ?_⟩
  exact absurd (hstate.symm.trans hc) f.state_ne_cancelled

theorem checkpointLaw_check (hg : Undisturbed task s (.step fault now)) {f : FinishEvent}
    (hphase : s.phase = .finish (.invoked (f.call task.env.runId)))
    (hlast : LastCheckpoint task s f.state) :
    CheckpointLaw task before (s.afterFinish (CallState.checkFinish s.table task.env.runId f))
      (s.afterFinish (CallState.checkFinish s.table task.env.runId f)).phase := by
  obtain ⟨hpending, heq⟩ | ⟨-, heq⟩ := checkFinish_cases s.table task.env.runId f <;> rw [heq]
  · obtain hnone | ⟨r, hr, hstate⟩ := hg.check f fault now hphase rfl
    · rw [hnone] at hpending
      cases hpending
    · exact (agrees_of_state hr hstate hlast).mono rfl (.refl _)
  · exact ⟨rfl, hlast⟩

theorem checkpointLaw_finish (hs : s.table.WellFormed) (hg : Undisturbed task s (.step fault now))
    (hrun : ∃ r, s.table.get task.env.runId = some r) {f : FinishEvent}
    (hphase : s.phase = .finish (.finishRecord task.env.runId f))
    (hlast : LastCheckpoint task s f.state) :
    CheckpointLaw task before (s.afterFinish ((CallState.finishRecord task.env.runId f).step s.table))
      (s.afterFinish ((CallState.finishRecord task.env.runId f).step s.table)).phase := by
  have htable := (CallState.finishRecord task.env.runId f).step_tableStep hs
  obtain ⟨e, t', heq, hclosed, -⟩ | ⟨sequence, t', r', heq, hr', hstate, -⟩ :=
    CallState.finishRecord_cases hs task.env.runId f <;> rw [heq] at htable ⊢
  · obtain ⟨r, hr⟩ := hrun
    have hstate := hg.finish f fault now hphase rfl r hr (hclosed r hr)
    exact (agrees_of_state hr hstate hlast).mono rfl htable
  · exact agrees_of_state hr' hstate hlast

/-- **A step keeps the law of the checkpoint.** -/
theorem CheckpointLaw.step
    (hon : ∀ {sessionId}, task.sessionId = some sessionId → OnSession task sessionId before)
    (hs : s.table.WellFormed) (hrun : ∃ r, s.table.get task.env.runId = some r) (hg : Undisturbed task s a)
    (hi : CheckpointLaw task before s s.phase) (h : TaskStep task s a u) :
    CheckpointLaw task before u u.phase := by
  cases h with
  | agent h => exact hi.mono rfl (h.tableStep hs)
  | ended hphase =>
    rw [hphase] at hi
    dsimp only
    split
    · rename_i hsome
      obtain ⟨sessionId, hsession⟩ := Option.isSome_iff_exists.1 hsome
      exact ⟨hi, sessionId, hon hsession⟩
    · trivial
  | failed hphase =>
    rw [hphase] at hi
    exact hi
  | sessionSaved =>
    dsimp only
    split <;> trivial
  | @sessionFailed _ _ result _ _ hphase hsave =>
    rw [hphase] at hi
    obtain ⟨hsessions, sessionId, ho⟩ := hi
    obtain rfl := hg.session _ _ _ hphase rfl
    rw [SessionStore.save_current _ _ (ho.current hsessions result)] at hsave
    cases hsave
  | providerStateSkipped | providerStateSaved => trivial
  | providerStateFailed hphase hfault => exact absurd (hg.providerState _ _ _ hphase rfl) hfault
  | @checkpointSaved now result hphase =>
    refine ⟨_, rfl, task.completedCheckpoint result now, ?_, rfl⟩
    exact (HashMap.lookup_insert_ite _ _ _ _).trans (if_pos rfl)
  | checkpointFailed hphase hfault => exact absurd (hg.checkpoint _ _ _ hphase rfl) hfault
  | snapshot hphase hstate =>
    rw [hphase] at hi
    exact ⟨hi, hstate⟩
  | @failureSaved _ now error state res checkpoints hphase hsave =>
    have hget := s.stores.checkpoints.get_save (hg.failure _ _ _ _ hphase rfl) (task.failedCheckpoint state now)
    rw [hphase] at hi
    obtain ⟨hsessions, hcancelled⟩ := hi
    rw [hsave] at hget
    dsimp only
    split
    · rename_i hc
      obtain ⟨r, hr, hstate⟩ := hcancelled hc
      refine ⟨r, hr, by rw [hstate]; rfl, ⟨_, hget, ?_⟩, fun _ => hsessions⟩
      rw [hstate, RunTask.failedCheckpoint, if_pos hc]
    · rename_i hc
      exact ⟨_, rfl, _, hget, by rw [RunTask.failedCheckpoint, if_neg hc]; rfl⟩
  | @finish _ _ pc hphase =>
    rw [hphase] at hi
    cases pc with
    | invoked call =>
      obtain ⟨f, rfl, hlast⟩ := hi
      rw [CallState.step, begin_finish]
      exact checkpointLaw_check hg hphase hlast
    | finishRecord runId f =>
      obtain ⟨rfl, hlast⟩ := hi
      exact checkpointLaw_finish hs hg hrun hphase hlast
    | finishMark runId sequence => exact CheckpointAgrees.mono hi rfl (operate_tableStep _ _)
    | _ => exact hi.elim

end Step

/-! ## Runs -/

/-- **The last checkpoint has the terminal state of the run,** in the runs whose steps do not part the
two; and a cancelled run has changed no session. -/
theorem checkpoint_agrees {configuration : BackendConfiguration} {env : LaunchEnv} {request : RunRequest}
    {existingRun : Option RunId} {w : Backend} {launched : Launched} {as : List TaskAction}
    {tr : List AgentObs} {s : TaskState}
    (hlaunch : (launch configuration env request existingRun w).1 = .ok launched) (hw : w.table.WellFormed)
    (h : (taskMachine launched.task).Run (Undisturbed launched.task)
      (launched.task.init (launch configuration env request existingRun w).2) as tr s)
    (hret : s.phase = .returned) : ∃ r checkpoint, s.table.get launched.context.runId = some r ∧
      s.stores.checkpoints.get launched.context.runId = some checkpoint ∧ r.state.isTerminal = true ∧
      checkpoint.state = r.state ∧
      (r.state = .cancelled → ∀ sessionId, s.stores.sessions.get sessionId = w.stores.sessions.get sessionId) := by
  have hopened := opened_of_launch hlaunch
  have hwf : (launch configuration env request existingRun w).2.table.WellFormed := launch_wellFormed hw
  generalize (launch configuration env request existingRun w).2 = w' at hopened hwf h
  have hinit : CheckpointLaw launched.task w.stores (launched.task.init w') .running := hopened.sessions
  obtain ⟨hlaw, -, -⟩ := hopened.invariant (P := fun s => CheckpointLaw launched.task w.stores s s.phase)
    hwf h hinit fun hs hrun hg hi hstep => hi.step hopened.onSession hs hrun hg hstep
  rw [hret] at hlaw
  obtain ⟨r, hr, hterm, ⟨checkpoint, hcheckpoint, hstate⟩, hsessions⟩ := hlaw
  rw [hopened.runId] at hr hcheckpoint
  exact ⟨r, checkpoint, hr, hcheckpoint, hterm, hstate, fun hc _ => by rw [hsessions hc]⟩

/-! ## Two cancels -/

/-- The four sections of a `cancel` of the run. -/
def hostCancel : List TaskAction :=
  [.agent (.host (.invoke (.cancel ⟨1⟩))), .agent (.host (.step 0)), .agent (.host (.step 0)),
    .agent (.host (.step 0)), .agent (.host (.step 0))]

/-- The run is cancelled while its loop waits for the provider. -/
def cancelledTurn : List TaskAction :=
  [.agent (.loop .step), .agent (.loop .step), .agent (.loop (.consume 0))] ++ hostCancel ++
    [.agent (.loop .observeCancel), .step .none 1, .step .none 2, .step .none 3]

/-- A test for `Undisturbed`: no store fails, and the run is open until it is finished. -/
def undisturbedTest (task : RunTask) (s : TaskState) : TaskAction → Bool
  | .agent _ => true
  | .step fault _ => match s.phase with
    | .saveSession _ | .saveProviderState _ | .saveCheckpoint _ | .failCheckpoint _ _ => fault = .none
    | .finish (.invoked _) => ¬ s.table.hasPendingOperations task.env.runId
    | .finish (.finishRecord _ _) => (s.table.get task.env.runId).all fun r => ¬ r.state.isTerminal
    | _ => true

theorem undisturbed_of_test {task : RunTask} (s : TaskState) (a : TaskAction)
    (h : undisturbedTest task s a = true) : Undisturbed task s a where
  session result fault now hphase ha := by
    subst ha
    simpa [undisturbedTest, hphase] using h
  providerState result fault now hphase ha := by
    subst ha
    simpa [undisturbedTest, hphase] using h
  checkpoint result fault now hphase ha := by
    subst ha
    simpa [undisturbedTest, hphase] using h
  failure error state fault now hphase ha e hfault := by
    subst ha hfault
    simp [undisturbedTest, hphase] at h
  check f fault now hphase ha := by
    subst ha
    exact .inl (by simpa [undisturbedTest, hphase] using h)
  finish f fault now hphase ha r hr hterm := by
    subst ha
    simp [undisturbedTest, hphase, hr, hterm] at h

theorem checkpoint_agrees_cancelledTurn :
    ∃ tr s, (taskMachine (sendTask [])).Run (Undisturbed (sendTask []))
        ((sendTask []).init (sendLaunch []).2) cancelledTurn tr s ∧ s.phase = .returned ∧
      ∃ r checkpoint, s.table.get ⟨1⟩ = some r ∧ s.stores.checkpoints.get ⟨1⟩ = some checkpoint ∧
        r.state = .cancelled ∧ checkpoint.state = r.state ∧
        s.stores.sessions.get ⟨7⟩ = emptyBackend.stores.sessions.get ⟨7⟩ := by
  have hrun := Machine.exec_run (M := taskMachine (sendTask [])) (s := (sendTask []).init (sendLaunch []).2)
    (l := cancelledTurn) (G := Undisturbed (sendTask [])) undisturbed_of_test rfl
  have hlaunched : (sendLaunch []).1 = .ok (sendLaunched []) := rfl
  obtain ⟨r, checkpoint, hr, hcheckpoint, -, hstate, hsessions⟩ :=
    checkpoint_agrees hlaunched RunTable.new_wellFormed hrun rfl
  have hcancelled : r.state = .cancelled := by
    cases hr
    rfl
  exact ⟨_, _, hrun, rfl, r, checkpoint, hr, hcheckpoint, hcancelled, hstate, hsessions hcancelled ⟨7⟩⟩

/-- The stores have the result of the run when the cancel comes. -/
def lateCancel : List TaskAction :=
  answered ++ [.step .none 2, .step .none 3, .step .none 4] ++ hostCancel ++ [.step .none 5, .step .none 6]

/-- The run is cancelled, its last checkpoint is that of a completed run, and its session has
advanced. -/
theorem cancelled_after_checkpoint :
    (sendLaunch []).1 = .ok (sendLaunched []) ∧
    ∃ tr s, (taskMachine (sendTask [])).Run Free ((sendTask []).init (sendLaunch []).2) lateCancel tr s ∧
      s.phase = .returned ∧
      ∃ r checkpoint, s.table.get ⟨1⟩ = some r ∧ s.stores.checkpoints.get ⟨1⟩ = some checkpoint ∧
        r.state = .cancelled ∧ checkpoint.state = .completed ∧
        s.stores.sessions.get ⟨7⟩ ≠ emptyBackend.stores.sessions.get ⟨7⟩ := by
  have hrun := Machine.exec_free (M := taskMachine (sendTask [])) (s := (sendTask []).init (sendLaunch []).2)
    (l := lateCancel) rfl
  exact ⟨rfl, _, _, hrun, rfl, _, _, rfl, rfl, rfl, rfl, fun h => by cases h⟩

end Aifluxon
