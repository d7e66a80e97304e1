import Aifluxon.Api.Allowed
import Aifluxon.Api.RunTask

/-!
# The session of a run and its terminal event

The task saves the session first, the provider's state and the checkpoint next, and appends the
terminal event last.

* `SessionAdvanced` : the record of the session has new messages and the next revision;
* `Unbroken` : the step does not part the session from the event `Completed`;
* `SessionLaw` : what holds of the session in each phase of the task;
* `advanced_iff_completed` : in such runs the session advances exactly when the run is completed;
* `failed_after_save` : a provider state that is not saved fails the run of an advanced session.
-/

namespace Aifluxon

open Machine (Free)

/-- The record of the session has the messages and is one revision on. -/
def SessionAdvanced (before after : Stores) (sessionId : SessionId) (output : List Message) : Prop :=
  ∃ saved, after.sessions.get sessionId = some saved ∧ saved.messages = output ∧
    saved.revision = ((before.sessions.get sessionId).map SessionRecord.revision).getD 0 + 1

/-- The save of the session works, or fails before its write; the saves after it work; and nothing
keeps the run from its `Completed` event, which the host leaves to the task. -/
structure Unbroken (task : RunTask) (s : TaskState) (a : TaskAction) : Prop where
  host : ∀ (n : Nat) output, a = .agent (.host (.step n)) →
    s.agent.system.calls[n]? ≠ some (.finishRecord task.env.runId (.completed output))
  session : ∀ result fault now, s.phase = .saveSession result → a = .step fault now →
    (∃ error, fault = .before error) ∨ (fault = .none ∧ task.sessionRecord.revision < u64Max)
  providerState : ∀ result fault now, s.phase = .saveProviderState result → a = .step fault now →
    fault = .none
  checkpoint : ∀ result fault now, s.phase = .saveCheckpoint result → a = .step fault now → fault = .none
  check : ∀ output fault now, s.phase = .finish (.invoked (.finishCompleted task.env.runId output)) →
    a = .step fault now → s.table.hasPendingOperations task.env.runId = false
  finish : ∀ output fault now, s.phase = .finish (.finishRecord task.env.runId (.completed output)) →
    a = .step fault now → ∀ r, s.table.get task.env.runId = some r → r.state.isTerminal = false

section Law
variable (task : RunTask) (sessionId : SessionId) (before : Stores)

/-- The session and the provider states are as they were, and the run is not completed. -/
structure SessionUnsaved (s : TaskState) : Prop where
  sessions : s.stores.sessions = before.sessions
  providerStates : s.stores.providerStates = before.providerStates
  incomplete : ¬ s.table.IsCompleted task.env.runId

/-- The session has the messages of a run that is not completed yet. -/
structure SessionAhead (s : TaskState) (output : List Message) : Prop where
  advanced : SessionAdvanced before s.stores sessionId output
  incomplete : ¬ s.table.IsCompleted task.env.runId

/-- The session has the output of its completed run. -/
structure SessionCommitted (s : TaskState) (output : List Message) : Prop where
  advanced : SessionAdvanced before s.stores sessionId output
  run : ∃ r, s.table.get task.env.runId = some r ∧ r.state = .completed ∧ r.EndsWith (.completed output)

def SessionSettled (s : TaskState) : Prop :=
  SessionUnsaved task before s ∨ ∃ output, SessionCommitted task sessionId before s output

/-- The session agrees with the event that the task is about to append. -/
def SessionReady (s : TaskState) : FinishEvent → Prop
  | .completed output => SessionAhead task sessionId before s output
  | .failed _ => SessionUnsaved task before s

/-- What holds of the session in a phase of the task. -/
def SessionLaw (s : TaskState) : TaskPhase → Prop
  | .running | .saveSession _ | .failSnapshot _ | .failCheckpoint _ _ => SessionUnsaved task before s
  | .saveProviderState result | .saveCheckpoint result => SessionAhead task sessionId before s result.messages
  | .finish (.invoked call) => ∃ f, call = f.call task.env.runId ∧ SessionReady task sessionId before s f
  | .finish (.finishRecord runId f) => runId = task.env.runId ∧ SessionReady task sessionId before s f
  | .finish (.finishMark _ _) | .returned => SessionSettled task sessionId before s
  | .finish _ => False

end Law

section Mono
variable {task : RunTask} {sessionId : SessionId} {before : Stores} {s u : TaskState}

/-- The step keeps the stores and completes no run. -/
structure TaskKeeps (task : RunTask) (s u : TaskState) : Prop where
  stores : u.stores = s.stores
  table : TableStep s.table u.table
  completed : u.table.IsCompleted task.env.runId → s.table.IsCompleted task.env.runId

theorem SessionUnsaved.mono (h : SessionUnsaved task before s) (hk : TaskKeeps task s u) :
    SessionUnsaved task before u :=
  ⟨hk.stores ▸ h.sessions, hk.stores ▸ h.providerStates, fun hc => h.incomplete (hk.completed hc)⟩

theorem SessionAhead.mono {output : List Message} (h : SessionAhead task sessionId before s output)
    (hk : TaskKeeps task s u) : SessionAhead task sessionId before u output :=
  ⟨hk.stores ▸ h.advanced, fun hc => h.incomplete (hk.completed hc)⟩

theorem SessionCommitted.mono {output : List Message} (h : SessionCommitted task sessionId before s output)
    (hstores : u.stores = s.stores) (htable : TableStep s.table u.table) :
    SessionCommitted task sessionId before u output := by
  obtain ⟨r, hr, hstate, e, he, hevent⟩ := h.run
  obtain ⟨r', hr', hstate', hevents⟩ := htable.keeps_terminal hr (by rw [hstate]; rfl)
  exact ⟨hstores ▸ h.advanced, r', hr', hstate'.trans hstate, e, hevents ▸ he, hevent⟩

theorem SessionSettled.mono (h : SessionSettled task sessionId before s) (hk : TaskKeeps task s u) :
    SessionSettled task sessionId before u :=
  h.imp (·.mono hk) fun ⟨output, hc⟩ => ⟨output, hc.mono hk.stores hk.table⟩

theorem SessionReady.mono {f : FinishEvent} (h : SessionReady task sessionId before s f)
    (hk : TaskKeeps task s u) : SessionReady task sessionId before u f := by
  cases f with
  | completed output => exact SessionAhead.mono h hk
  | failed message => exact SessionUnsaved.mono h hk

theorem SessionLaw.mono {phase : TaskPhase} (h : SessionLaw task sessionId before s phase)
    (hk : TaskKeeps task s u) : SessionLaw task sessionId before u phase := by
  cases phase with
  | running | saveSession | failSnapshot | failCheckpoint => exact SessionUnsaved.mono h hk
  | saveProviderState | saveCheckpoint => exact SessionAhead.mono h hk
  | finish pc =>
    cases pc with
    | invoked call =>
      obtain ⟨f, hcall, hp⟩ := h
      exact ⟨f, hcall, hp.mono hk⟩
    | finishRecord => exact ⟨h.1, h.2.mono hk⟩
    | finishMark => exact SessionSettled.mono h hk
    | _ => exact h
  | returned => exact SessionSettled.mono h hk

end Mono

/-! ## Steps -/

section Step
variable {task : RunTask} {sessionId : SessionId} {before : Stores} {s u : TaskState} {a : TaskAction}
  {fault : Fault} {now : TimestampMillis}

theorem TaskKeeps.of_table (hstores : u.stores = s.stores) (htable : u.table = s.table) : TaskKeeps task s u where
  stores := hstores
  table := by rw [htable]; exact .refl _
  completed hc := htable ▸ hc

/-- A save without a fault advances the session, unless the revision is at its end. -/
theorem advanced_of_put (ho : OnSession task sessionId before) (hrev : task.sessionRecord.revision < u64Max)
    (result : RunExecutionResult) {after : Stores}
    (hafter : after.sessions = s.stores.sessions.put (SessionStore.advance (task.record result) now)) :
    SessionAdvanced before after sessionId result.messages := by
  refine ⟨SessionStore.advance (task.record result) now, ?_, rfl, ?_⟩
  · rw [hafter, SessionStore.get_put]
    exact if_pos ho.recordId.symm
  · rw [← ho.revision]
    show min (task.sessionRecord.revision + 1) u64Max = _
    omega

theorem ahead_sessionSaved (ho : OnSession task sessionId before) (hg : Unbroken task s (.step fault now))
    {result : RunExecutionResult} {saved : SessionRecord} {sessions : SessionStore}
    (hphase : s.phase = .saveSession result) (hi : SessionUnsaved task before s)
    (h : s.stores.sessions.save fault now (task.record result) = (.ok saved, sessions))
    (hsessions : u.stores.sessions = sessions) (htable : u.table = s.table) :
    SessionAhead task sessionId before u result.messages := by
  refine ⟨?_, htable ▸ hi.incomplete⟩
  obtain ⟨error, rfl⟩ | ⟨rfl, hrev⟩ := hg.session result fault now hphase rfl
  · cases h
  have hsaved := s.stores.sessions.save_cases .none now (task.record result)
  rw [h] at hsaved
  cases hsaved
  exact advanced_of_put ho hrev result hsessions

/-- A save that reports an error before its write, or that finds another revision, keeps the session. -/
theorem unsaved_sessionFailed (hg : Unbroken task s (.step fault now)) {result : RunExecutionResult}
    {error : StoreError} {sessions : SessionStore} (hphase : s.phase = .saveSession result)
    (hi : SessionUnsaved task before s)
    (h : s.stores.sessions.save fault now (task.record result) = (.error error, sessions))
    (hsessions : u.stores.sessions = sessions)
    (hproviderStates : u.stores.providerStates = s.stores.providerStates) (htable : u.table = s.table) :
    SessionUnsaved task before u := by
  have hsaved := s.stores.sessions.save_cases fault now (task.record result)
  rw [h] at hsaved
  cases hsaved with
  | kept => exact ⟨hsessions.trans hi.sessions, hproviderStates.trans hi.providerStates,
      htable ▸ hi.incomplete⟩
  | lost =>
    obtain ⟨_, hfault⟩ | ⟨hfault, -⟩ := hg.session result _ now hphase rfl <;> cases hfault

/-- The check of `finish` keeps a prepared session: it passes when the run is to be completed. -/
theorem sessionLaw_check (hg : Unbroken task s (.step fault now)) {f : FinishEvent}
    (hphase : s.phase = .finish (.invoked (f.call task.env.runId)))
    (hp : SessionReady task sessionId before s f) :
    SessionLaw task sessionId before (s.afterFinish (CallState.checkFinish s.table task.env.runId f))
      (s.afterFinish (CallState.checkFinish s.table task.env.runId f)).phase := by
  obtain ⟨hpending, heq⟩ | ⟨-, heq⟩ := checkFinish_cases s.table task.env.runId f
  · rw [heq]
    cases f with
    | completed output =>
      rw [hg.check output fault now hphase rfl] at hpending
      cases hpending
    | failed message => exact .inl (SessionUnsaved.mono hp (.of_table rfl rfl))
  · rw [heq]
    exact ⟨rfl, hp.mono (.of_table rfl rfl)⟩

/-- The section that appends the event settles a prepared session: the run is open when it is to be
completed. -/
theorem sessionLaw_finish (hs : s.table.WellFormed) (hg : Unbroken task s (.step fault now))
    (hrun : ∃ r, s.table.get task.env.runId = some r) {f : FinishEvent}
    (hphase : s.phase = .finish (.finishRecord task.env.runId f))
    (hp : SessionReady task sessionId before s f) :
    SessionLaw task sessionId before
      (s.afterFinish ((CallState.finishRecord task.env.runId f).step s.table))
      (s.afterFinish ((CallState.finishRecord task.env.runId f).step s.table)).phase := by
  have htable := (CallState.finishRecord task.env.runId f).step_tableStep hs
  obtain ⟨e, t', heq, hclosed, hruns⟩ | ⟨sequence, t', r', heq, hr', hstate, hlast, -⟩ :=
    CallState.finishRecord_cases hs task.env.runId f <;> rw [heq] at htable ⊢
  · cases f with
    | completed output =>
      obtain ⟨r, hr⟩ := hrun
      have hopen := hg.finish output fault now hphase rfl r hr
      rw [hclosed r hr] at hopen
      cases hopen
    | failed message =>
      exact .inl (SessionUnsaved.mono hp ⟨rfl, htable, fun hc => RunTable.InState.of_get hc (hruns task.env.runId)⟩)
  · cases f with
    | completed output =>
      have hahead : SessionAhead task sessionId before s output := hp
      exact .inr ⟨output, hahead.advanced, r', hr', hstate, hlast⟩
    | failed message =>
      have hkeep : SessionUnsaved task before s := hp
      refine .inl ⟨hkeep.sessions, hkeep.providerStates, fun ⟨x, hx, hc⟩ => ?_⟩
      change t'.get task.env.runId = some x at hx
      rw [hr', Option.some.injEq] at hx
      subst hx
      rw [hstate] at hc
      cases hc

/-- **A step keeps the law of the session.** -/
theorem SessionLaw.step (ho : OnSession task sessionId before) (hs : s.table.WellFormed)
    (hrun : ∃ r, s.table.get task.env.runId = some r) (hg : Unbroken task s a)
    (hi : SessionLaw task sessionId before s s.phase) (h : TaskStep task s a u) :
    SessionLaw task sessionId before u u.phase := by
  cases h with
  | @agent a agent o h =>
    have hhost (n : Nat) (output : List Message) (ha : a = .host (.step n)) :
        s.agent.system.calls[n]? ≠ some (.finishRecord task.env.runId (.completed output)) :=
      hg.host n output (congrArg TaskAction.agent ha)
    have hk : TaskKeeps task s { s with agent } := by
      refine ⟨rfl, h.tableStep hs, h.inState hs rfl nofun fun n f hf ha => ?_⟩
      cases f with
      | completed output => exact hhost n output ha
      | failed => cases hf
    exact hi.mono hk
  | ended hphase =>
    rw [hphase] at hi
    simp only [ho.works, Option.isSome_some, if_true]
    exact SessionUnsaved.mono hi (.of_table rfl rfl)
  | failed hphase =>
    rw [hphase] at hi
    exact SessionUnsaved.mono hi (.of_table rfl rfl)
  | sessionSaved hphase hsave =>
    rw [hphase] at hi
    dsimp only
    split <;> exact ahead_sessionSaved ho hg hphase hi hsave rfl rfl
  | sessionFailed hphase hsave =>
    rw [hphase] at hi
    exact ⟨_, rfl, unsaved_sessionFailed hg hphase hi hsave rfl rfl rfl⟩
  | providerStateSkipped _ hsession =>
    rw [ho.works] at hsession
    cases hsession
  | @providerStateSaved _ _ result _ hphase =>
    rw [hphase] at hi
    have hahead : SessionAhead task sessionId before s result.messages := hi
    exact ⟨hahead.advanced, hahead.incomplete⟩
  | providerStateFailed hphase hfault => exact absurd (hg.providerState _ _ _ hphase rfl) hfault
  | @checkpointSaved _ result hphase =>
    rw [hphase] at hi
    have hahead : SessionAhead task sessionId before s result.messages := hi
    exact ⟨_, rfl, hahead.advanced, hahead.incomplete⟩
  | checkpointFailed hphase hfault => exact absurd (hg.checkpoint _ _ _ hphase rfl) hfault
  | snapshot hphase =>
    rw [hphase] at hi
    exact SessionUnsaved.mono hi (.of_table rfl rfl)
  | failureSaved hphase =>
    rw [hphase] at hi
    have hkeep : SessionUnsaved task before s := hi
    dsimp only
    split
    · exact .inl ⟨hkeep.sessions, hkeep.providerStates, hkeep.incomplete⟩
    · exact ⟨_, rfl, hkeep.sessions, hkeep.providerStates, hkeep.incomplete⟩
  | @finish _ _ pc hphase =>
    rw [hphase] at hi
    cases pc with
    | invoked call =>
      obtain ⟨f, rfl, hp⟩ := hi
      rw [CallState.step, begin_finish]
      exact sessionLaw_check hg hphase hp
    | finishRecord runId f =>
      obtain ⟨rfl, hp⟩ := hi
      exact sessionLaw_finish hs hg hrun hphase hp
    | finishMark runId sequence =>
      -- the mark is a call of the operation store
      have hk : TaskKeeps task s (s.afterFinish ((CallState.finishMark runId sequence).step s.table)) :=
        ⟨rfl, operate_tableStep _ _, id⟩
      exact SessionSettled.mono hi hk
    | _ => exact hi.elim

end Step

/-! ## Runs -/

theorem SessionSettled.advanced_iff {task : RunTask} {sessionId : SessionId} {before : Stores} {s : TaskState}
    (h : SessionSettled task sessionId before s) (hs : s.table.WellFormed) {r : RunRecord}
    (hr : s.table.get task.env.runId = some r) (output : List Message) :
    SessionAdvanced before s.stores sessionId output ↔ r.Logs (.completed output) := by
  have hwf := hs _ r hr
  rcases h with hkeep | ⟨output', hadv, x, hx, -, hlast⟩
  · constructor
    · rintro ⟨saved, hget, -, hrev⟩
      rw [hkeep.sessions] at hget
      rw [hget, Option.map_some, Option.getD_some] at hrev
      omega
    · intro hlog
      exact absurd ⟨r, hr, (hwf.of_logs hlog rfl).2⟩ hkeep.incomplete
  · rw [hr, Option.some.injEq] at hx
    subst hx
    constructor
    · rintro ⟨saved, hget, rfl, -⟩
      obtain ⟨saved', hget', rfl, -⟩ := hadv
      rw [hget, Option.some.injEq] at hget'
      exact hget' ▸ hlast.logs
    · intro hlog
      obtain rfl : output' = output := by simpa using hlast.unique (hwf.of_logs hlog rfl).1
      exact hadv

/-- The session and the provider states of a settled task are as they were when its run has failed. -/
theorem SessionSettled.kept_of_failed {task : RunTask} {sessionId : SessionId} {before : Stores} {s : TaskState}
    (h : SessionSettled task sessionId before s) (hs : s.table.WellFormed) {r : RunRecord}
    (hr : s.table.get task.env.runId = some r) {message : String} (hf : r.Logs (.failed message)) :
    s.stores.sessions = before.sessions ∧ s.stores.providerStates = before.providerStates := by
  rcases h with hkeep | ⟨output, -, x, hx, hstate, -⟩
  · exact ⟨hkeep.sessions, hkeep.providerStates⟩
  · rw [hr, Option.some.injEq] at hx
    subst hx
    rw [((hs _ r hr).of_logs hf rfl).2] at hstate
    cases hstate

/-- **The session advances exactly when the run is completed,** in the runs whose steps do not part
the two; and a run that fails leaves its session and the provider states as they were. -/
theorem advanced_iff_completed {configuration : BackendConfiguration} {env : LaunchEnv}
    {request : RunRequest} {existingRun : Option RunId} {w : Backend} {launched : Launched}
    {sessionId : SessionId} {as : List TaskAction} {tr : List AgentObs} {s : TaskState}
    (hlaunch : (launch configuration env request existingRun w).1 = .ok launched)
    (hsession : request.sessionId = some sessionId) (hw : w.table.WellFormed)
    (hopen : ¬ w.table.IsCompleted launched.context.runId)
    (h : (taskMachine launched.task).Run (Unbroken launched.task)
      (launched.task.init (launch configuration env request existingRun w).2) as tr s)
    (hret : s.phase = .returned) : ∃ r, s.table.get launched.context.runId = some r ∧
      (∀ output, SessionAdvanced w.stores s.stores sessionId output ↔ r.Logs (.completed output)) ∧
      ∀ message, r.Logs (.failed message) →
        s.stores.sessions.get sessionId = w.stores.sessions.get sessionId ∧
        ∀ providerId, s.stores.providerStates.get sessionId providerId =
          w.stores.providerStates.get sessionId providerId := by
  have hopened := opened_of_launch hlaunch
  have hwf : (launch configuration env request existingRun w).2.table.WellFormed := launch_wellFormed hw
  generalize (launch configuration env request existingRun w).2 = w' at hopened hwf h
  have ho : OnSession launched.task sessionId w.stores := hopened.onSession (hopened.sessionId.trans hsession)
  have hincomplete : ¬ w'.table.IsCompleted launched.task.env.runId := by
    rw [hopened.runId]
    exact fun hc => hopen (hopened.completed hc)
  have hinit : SessionLaw launched.task sessionId w.stores (launched.task.init w') .running :=
    ⟨hopened.sessions, hopened.providerStates, hincomplete⟩
  obtain ⟨hlaw, hs, r, hr⟩ := hopened.invariant
    (P := fun s => SessionLaw launched.task sessionId w.stores s s.phase) hwf h hinit
    fun hs hrun hg hi hstep => hi.step ho hs hrun hg hstep
  rw [hret] at hlaw
  refine ⟨r, hopened.runId ▸ hr, SessionSettled.advanced_iff hlaw hs hr, fun message hf => ?_⟩
  obtain ⟨hsessions, hproviderStates⟩ := SessionSettled.kept_of_failed hlaw hs hr hf
  exact ⟨by rw [hsessions], fun _ => by rw [hproviderStates]⟩

/-! ## Two runs -/

/-- A turn that answers without a tool call, with a state for the provider. -/
def answerTurn : ModelTurn := ⟨"done", "", [], none, .stop, .bool true⟩

/-- The loop gets its answer, and the task its result. -/
def answered : List TaskAction :=
  [.agent (.loop .step), .agent (.loop .step), .agent (.loop (.consume 0)),
    .agent (.loop (.turn (.ok answerTurn))), .step .none 1]

/-- Every store works, and the run is completed. -/
def savedRun : List TaskAction :=
  answered ++ [.step .none 2, .step .none 3, .step .none 4, .step .none 5, .step .none 6, .step .none 7]

/-- A test for `Unbroken`, in a run without the host. -/
def unbrokenTest (task : RunTask) (s : TaskState) : TaskAction → Bool
  | .agent (.host _) => false
  | .agent _ => true
  | .step fault _ => match s.phase with
    | .saveSession _ => fault = .none ∧ task.sessionRecord.revision < u64Max
    | .saveProviderState _ | .saveCheckpoint _ => fault = .none
    | .finish (.invoked _) => ¬ s.table.hasPendingOperations task.env.runId
    | .finish (.finishRecord _ _) => (s.table.get task.env.runId).all fun r => ¬ r.state.isTerminal
    | _ => true

theorem unbroken_of_test {task : RunTask} (s : TaskState) (a : TaskAction)
    (h : unbrokenTest task s a = true) : Unbroken task s a where
  host n output ha := by
    subst ha
    cases h
  session result fault now hphase ha := by
    subst ha
    simpa [unbrokenTest, hphase] using Or.inr h
  providerState result fault now hphase ha := by
    subst ha
    simpa [unbrokenTest, hphase] using h
  checkpoint result fault now hphase ha := by
    subst ha
    simpa [unbrokenTest, hphase] using h
  check output fault now hphase ha := by
    subst ha
    simpa [unbrokenTest, hphase] using h
  finish output fault now hphase ha r hr := by
    subst ha
    simpa [unbrokenTest, hphase, hr] using h

theorem advanced_iff_completed_saved :
    ∃ tr s, (taskMachine (sendTask [])).Run (Unbroken (sendTask []))
        ((sendTask []).init (sendLaunch []).2) savedRun tr s ∧ s.phase = .returned ∧
      SessionAdvanced emptyBackend.stores s.stores ⟨7⟩ [assistantMessage answerTurn] ∧
      ∃ r, s.table.get ⟨1⟩ = some r ∧ r.Logs (.completed [assistantMessage answerTurn]) := by
  have hrun := Machine.exec_run (M := taskMachine (sendTask [])) (s := (sendTask []).init (sendLaunch []).2)
    (l := savedRun) (G := Unbroken (sendTask [])) unbroken_of_test rfl
  have hlaunched : (sendLaunch []).1 = .ok (sendLaunched []) := rfl
  have hopen : ¬ emptyBackend.table.IsCompleted ⟨1⟩ := fun ⟨_, hr, _⟩ => by cases hr
  obtain ⟨r, hr, hiff, -⟩ :=
    advanced_iff_completed hlaunched rfl RunTable.new_wellFormed hopen hrun rfl
  refine ⟨_, _, hrun, rfl, ?advanced, r, hr, (hiff _).1 ?advanced⟩
  exact ⟨_, rfl, rfl, rfl⟩

/-- The session is saved, and the state of the provider is not. -/
def unsavedState : List TaskAction :=
  answered ++ [.step .none 2, .step (.before diskFull) 3, .step .none 4, .step .none 5, .step .none 6]

/-- The run fails, and its session has advanced. -/
theorem failed_after_save :
    (sendLaunch []).1 = .ok (sendLaunched []) ∧
    ∃ tr s, (taskMachine (sendTask [])).Run Free ((sendTask []).init (sendLaunch []).2) unsavedState tr s ∧
      s.phase = .returned ∧
      (∃ r, s.table.get ⟨1⟩ = some r ∧ r.state = .failed ∧ r.Logs (.failed diskFull.message)) ∧
      SessionAdvanced emptyBackend.stores s.stores ⟨7⟩ [assistantMessage answerTurn] ∧
      s.stores.sessions.get ⟨7⟩ ≠ emptyBackend.stores.sessions.get ⟨7⟩ := by
  have hrun := Machine.exec_free (M := taskMachine (sendTask [])) (s := (sendTask []).init (sendLaunch []).2)
    (l := unsavedState) rfl
  refine ⟨rfl, _, _, hrun, rfl, ⟨_, rfl, rfl, ?_⟩, ⟨_, rfl, rfl, rfl⟩, fun h => ?_⟩
  · exact ⟨_, List.mem_of_getElem? (i := 1) rfl, rfl⟩
  · cases h

end Aifluxon
