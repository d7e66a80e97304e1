import Aifluxon.Api.RunResults
import Aifluxon.Api.SessionHistory

/-!
# A run as its host reads it

The task of a launched run, the calls of others on its table, the forwarder of its events and the host that
waits for the result, interleaved.

* `WholeRun`, `wholeMachine` : all of them on one table; what is seen are the messages that the loop adds;
* `Said`, `SaysLaw` : the end that the log of the run tells, and what the task is about to say, against the loop;
* `Whole`, `Whole.step` : what holds of the run, with the messages so far;
* `host_reads_run` : the result that the host gets is what the provider and the tools have said.
-/

namespace Aifluxon

open Machine (Free)

namespace Api

/-! ## The end of a loop -/

/-- A loop returns with its last turn. -/
def TurnEnded (loop : LoopState) : Prop :=
  ∀ outcome, loop.phase = .returned (.ok outcome) → ∃ messages turn, outcome = completeWithoutTools messages turn

/-- What the task may say of a run whose loop has returned: its messages, its error, or the error of a store. -/
def Says (loop : LoopState) : FinishEvent → Prop
  | .completed output => ∃ outcome, loop.phase = .returned (.ok outcome) ∧ output = outcome.messages
  | .failed message => (∃ error saved, loop.phase = .returned (.error error) ∧ message = RunTask.failure error saved) ∨
      ∃ outcome, loop.phase = .returned (.ok outcome) ∧ ∃ error : StoreError, message = error.message

section Loop
variable {env : AgentEnv} {registry : ToolRegistry} {t t' : RunTable} {loop loop' : LoopState} {o : List AgentObs}

theorem receive_turnEnded (turn : ModelTurn) :
    TurnEnded (loop.receive registry turn) := by
  intro outcome hreturned
  unfold LoopState.receive at hreturned
  split at hreturned
  · split at hreturned <;> cases hreturned
  · split at hreturned
    · cases hreturned
      exact ⟨_, _, rfl⟩
    · unfold LoopState.dispatch at hreturned
      split at hreturned <;> cases hreturned

theorem loopStep_turnEnded {a : LoopAction} (h : loop.step env registry t a = some (loop', t', o)) : TurnEnded loop' := by
  unfold LoopState.step at h
  split at h
  case h_6 turn _ =>
    cases h
    exact receive_turnEnded turn
  case h_5 | h_8 =>
    cases h
    try exact nofun
  all_goals
    split at h <;> cases h
    all_goals exact nofun

theorem Says.stays {s u : AgentState} {a : AgentAction} {f : FinishEvent} (h : Says s.loop f)
    (hstep : AgentStep env s a u o) : Says u.loop f := by
  cases f with
  | completed output =>
    obtain ⟨outcome, hloop, houtput⟩ := h
    exact ⟨outcome, hstep.returned hloop, houtput⟩
  | failed message =>
    rcases h with ⟨error, saved, hloop, hmessage⟩ | ⟨outcome, hloop, hmessage⟩
    · exact .inl ⟨error, saved, hstep.returned hloop, hmessage⟩
    · exact .inr ⟨outcome, hstep.returned hloop, hmessage⟩

end Loop

/-! ## The task -/

section Law
variable (task : RunTask) (s : TaskState)

/-- The end that the log tells is one that the task may say. -/
def Said : Prop := ∀ r f, s.table.get task.env.runId = some r → r.Logs f.event → Says s.agent.loop f

/-- What the task is about to say in a phase. -/
def SaysLaw : TaskPhase → Prop
  | .running | .returned => True
  | .saveSession outcome | .saveProviderState outcome | .saveCheckpoint outcome =>
    s.agent.loop.phase = .returned (.ok outcome)
  | .failSnapshot error | .failCheckpoint error _ => s.agent.loop.phase = .returned (.error error)
  | .finish (.invoked call) => ∃ f : FinishEvent, call = f.call task.env.runId ∧ Says s.agent.loop f
  | .finish (.finishRecord runId f) => runId = task.env.runId ∧ Says s.agent.loop f
  | .finish (.finishMark _ _) => True
  | .finish _ => False

/-- The others do not finish the run. -/
def Unfinished (a : TaskAction) : Prop :=
  ∀ (n : Nat) f, a = .agent (.host (.step n)) →
    s.agent.system.calls[n]? ≠ some (.finishRecord task.env.runId f)

end Law

section Task
variable {task : RunTask} {s u : TaskState} {a : TaskAction}

/-- A step that ends no run, and after which the task may say what it might say before. -/
theorem Said.kept (h : Said task s) (hu : u.table.WellFormed)
    (htable : TableStep s.table u.table)
    (hstate : ∀ f : FinishEvent, u.table.InState task.env.runId f.state → s.table.InState task.env.runId f.state)
    (hsaid : ∀ f, Says s.agent.loop f → Says u.agent.loop f) : Said task u := by
  intro r' f hr' hlogs
  have hfinal := ((hu _ r' hr').of_logs hlogs f.terminalState_event).2
  obtain ⟨r, hr, hrstate⟩ := hstate f ⟨r', hr', hfinal⟩
  obtain ⟨r'', hr'', -, hevents⟩ := htable.keeps_terminal hr (by rw [hrstate]; exact f.isTerminal_state)
  rw [hr', Option.some.injEq] at hr''
  subst hr''
  apply hsaid
  apply h r f hr
  unfold RunRecord.Logs at hlogs ⊢
  rwa [← hevents]

/-- A step that keeps the table and the loop. -/
theorem Said.same (h : Said task s) (htable : u.table = s.table) (hloop : u.agent.loop = s.agent.loop) :
    Said task u := by
  intro r f hr hlogs
  rw [htable] at hr
  rw [hloop]
  exact h r f hr hlogs

/-- The section that appends the end of the run. -/
theorem said_finish (h : Said task s) (hs : s.table.WellFormed) {f : FinishEvent} (hf : Says s.agent.loop f) :
    Said task (s.afterFinish ((CallState.finishRecord task.env.runId f).step s.table)) ∧
      SaysLaw task (s.afterFinish ((CallState.finishRecord task.env.runId f).step s.table))
        (s.afterFinish ((CallState.finishRecord task.env.runId f).step s.table)).phase := by
  have htable := (CallState.finishRecord task.env.runId f).step_tableStep hs
  obtain ⟨e, t', heq, -, hruns⟩ | ⟨sequence, t', r', heq, hr', -, hlast, -⟩ :=
    CallState.finishRecord_cases hs task.env.runId f <;> rw [heq] at htable ⊢
  · refine ⟨fun r g hr hlogs => ?_, trivial⟩
    exact h r g ((hruns _).symm.trans hr) hlogs
  · refine ⟨fun r g hr hlogs => ?_, trivial⟩
    change t'.get task.env.runId = some r at hr
    rw [hr', Option.some.injEq] at hr
    subst hr
    have hlast' := ((htable.wellFormed hs _ r' hr').of_logs hlogs g.terminalState_event).1
    have hsame : g = f := by
      have hevent := hlast'.unique hlast
      cases g <;> cases f <;> cases hevent <;> rfl
    rw [hsame]
    exact hf

/-- **A step of the task** keeps what it may say. -/
theorem said_step (h : Said task s) (hlaw : SaysLaw task s s.phase) (hs : s.table.WellFormed)
    (hg : Unfinished task s a) (hstep : TaskStep task s a u) : Said task u ∧ SaysLaw task u u.phase := by
  cases hstep with
  | @agent a agent o hagent =>
    have htable := hagent.tableStep hs
    refine ⟨h.kept (htable.wellFormed hs) htable (fun f hin => ?_) fun f hf => hf.stays hagent, ?_⟩
    · refine hagent.inState hs f.isTerminal_state f.state_ne_cancelled (fun n g _ ha => ?_) hin
      exact hg n g (congrArg TaskAction.agent ha)
    · cases hphase : s.phase with
      | running | returned => trivial
      | saveSession | saveProviderState | saveCheckpoint | failSnapshot | failCheckpoint =>
        rw [hphase] at hlaw
        exact hagent.returned hlaw
      | finish pc =>
        rw [hphase] at hlaw
        cases pc with
        | invoked call =>
          obtain ⟨f, hcall, hf⟩ := hlaw
          exact ⟨f, hcall, hf.stays hagent⟩
        | finishRecord runId f => exact ⟨hlaw.1, hlaw.2.stays hagent⟩
        | _ => exact hlaw
  | ended hphase hloop =>
    refine ⟨h.same rfl rfl, ?_⟩
    dsimp only
    split <;> exact hloop
  | failed hphase hloop => exact ⟨h.same rfl rfl, hloop⟩
  | sessionSaved hphase =>
    rw [hphase] at hlaw
    refine ⟨h.same rfl rfl, ?_⟩
    dsimp only
    split <;> exact hlaw
  | @sessionFailed _ _ outcome error _ hphase | @providerStateFailed _ _ outcome _ error hphase
  | @checkpointFailed _ _ outcome _ error hphase =>
    rw [hphase] at hlaw
    exact ⟨h.same rfl rfl, .failed error.message, rfl, .inr ⟨outcome, hlaw, error, rfl⟩⟩
  | providerStateSkipped hphase | providerStateSaved hphase =>
    rw [hphase] at hlaw
    exact ⟨h.same rfl rfl, hlaw⟩
  | @checkpointSaved _ outcome hphase =>
    rw [hphase] at hlaw
    exact ⟨h.same rfl rfl, .completed outcome.messages, rfl, outcome, hlaw, rfl⟩
  | snapshot hphase =>
    rw [hphase] at hlaw
    exact ⟨h.same rfl rfl, hlaw⟩
  | @failureSaved _ _ error state saved _ hphase =>
    rw [hphase] at hlaw
    refine ⟨h.same rfl rfl, ?_⟩
    dsimp only
    split
    · trivial
    · exact ⟨.failed (RunTask.failure error saved), rfl, .inl ⟨error, saved, hlaw, rfl⟩⟩
  | @finish _ _ pc hphase =>
    rw [hphase] at hlaw
    cases pc with
    | invoked call =>
      obtain ⟨f, rfl, hf⟩ := hlaw
      have hbegin : (CallState.invoked (f.call task.env.runId)).step s.table =
          CallState.checkFinish s.table task.env.runId f := begin_finish s.table task.env.runId f
      rw [hbegin]
      obtain ⟨-, hcheck⟩ | ⟨-, hcheck⟩ := checkFinish_cases s.table task.env.runId f <;> rw [hcheck]
      · exact ⟨h.same rfl rfl, trivial⟩
      · exact ⟨h.same rfl rfl, rfl, hf⟩
    | finishRecord runId f =>
      obtain ⟨rfl, hf⟩ := hlaw
      exact said_finish h hs hf
    | finishMark runId sequence =>
      -- the mark is a call of the operation store
      exact ⟨h, trivial⟩
    | _ => exact hlaw.elim

end Task

/-! ## The whole run -/

/-- The task of a run, and the host with its handle. -/
structure WholeRun where
  task : TaskState
  host : ResultSystem

/-- The calls on the table are steps of the task's machine. -/
inductive WholeAction where
  | task (a : TaskAction)
  | host (a : ResultAction)

/-- The host sees the table as it is. -/
def ResultSystem.on (s : ResultSystem) (system : TableSystem) : ResultSystem :=
  { s with bridge := { s.bridge with system } }

/-- All steps of a run, with the messages that its loop adds. -/
def wholeMachine (task : RunTask) (context : RunContext) : Machine WholeRun WholeAction Message where
  step s
    | .task a => ((taskMachine task).step s.task a).map fun x => (⟨x.1, s.host.on x.1.agent.system⟩, s.task.adds a)
    | .host (.table _) => none
    | .host a => ((resultMachine context).step s.host a).map fun x => (⟨s.task, x.1⟩, [])

/-- The others do not finish the run, and the numbers of the log have not run out when it is read. -/
structure Reported (task : RunTask) (context : RunContext) (s : WholeRun) (a : WholeAction) : Prop where
  unfinished : ∀ b, a = .task b → Unfinished task s.task b
  numbered : ∀ b, a = .host b → Numbered context s.host b

/-- What holds of a run whose loop began with `start` and has added `said`. -/
structure Whole (task : RunTask) (context : RunContext) (start said : List Message) (s : WholeRun) : Prop where
  wellFormed : s.task.table.WellFormed
  system : s.host.bridge.system = s.task.agent.system
  record : ∃ r, s.task.table.get context.runId = some r ∧ Forwarded r s.host.bridge
  receiving : s.host.bridge.receiving = true
  collected : Collected context s.host
  spoken : LoopSpoken start said s.task.agent.loop
  ended : TurnEnded s.task.agent.loop
  ends : Said task s.task
  law : SaysLaw task s.task s.task.phase

section Step
variable {task : RunTask} {context : RunContext} {start said more : List Message} {s u : WholeRun}

theorem task_spoken {s u : TaskState} {a : TaskAction} {o : List AgentObs}
    (h : (taskMachine task).step s a = some (u, o)) (hspoken : LoopSpoken start said s.agent.loop) :
    LoopSpoken start (said ++ s.adds a) u.agent.loop := by
  cases a with
  | agent b =>
    simp only [taskMachine] at h
    split at h <;> cases h
    exact agent_spoken ‹_› hspoken
  | step fault now =>
    have hloop : u.agent.loop = s.agent.loop := by cases taskStep_of_step h <;> rfl
    have hadds : s.adds (.step fault now) = [] := rfl
    rw [hloop, hadds, List.append_nil]
    exact hspoken

theorem task_turnEnded {s u : TaskState} {a : TaskAction} {o : List AgentObs}
    (h : (taskMachine task).step s a = some (u, o)) (hended : TurnEnded s.agent.loop) : TurnEnded u.agent.loop := by
  cases a with
  | agent b =>
    simp only [taskMachine] at h
    split at h <;> cases h
    rename_i hagent
    cases b with
    | loop b =>
      simp only [agentMachine] at hagent
      split at hagent <;> cases hagent
      exact loopStep_turnEnded ‹_›
    | call index b =>
      cases agentStep_of_step hagent
      intro outcome hreturned
      cases hreturned
    | _ =>
      cases agentStep_of_step hagent
      exact hended
  | step fault now =>
    have hloop : u.agent.loop = s.agent.loop := by cases taskStep_of_step h <;> rfl
    rw [hloop]
    exact hended

/-- **A step of the task** or of another party on the table. -/
theorem Whole.step_task (h : Whole task context start said s) {a : TaskAction}
    (hg : Unfinished task s.task a) {t : TaskState} {o : List AgentObs}
    (hstep : (taskMachine task).step s.task a = some (t, o)) :
    Whole task context start (said ++ s.task.adds a) ⟨t, s.host.on t.agent.system⟩ := by
  have htask := taskStep_of_step hstep
  have htable := htask.tableStep h.wellFormed
  obtain ⟨r, hr, hforwarded⟩ := h.record
  obtain ⟨label, r', hr', hmove⟩ := htable.persists hr
  obtain ⟨hends, hlaw⟩ := said_step h.ends h.law h.wellFormed hg htask
  exact {
    wellFormed := htable.wellFormed h.wellFormed
    system := rfl
    record := ⟨r', hr', hforwarded.grow hmove.events_prefix _⟩
    receiving := h.receiving
    collected := h.collected.frame rfl (fun _ _ _ => rfl) fun hreturned hempty => ⟨hreturned, hempty, rfl⟩
    spoken := task_spoken hstep h.spoken
    ended := task_turnEnded hstep h.ended
    ends := hends
    law := hlaw }

/-- What a step of the forwarder or of the host keeps. -/
theorem forwarded_host {s u : ResultSystem} {a : ResultAction} {o : List Unit} {r : RunRecord} (h : Forwarded r s.bridge)
    (hw : r.WellFormed) (hr : s.bridge.system.table.get context.runId = some r) (hreceiving : s.bridge.receiving = true)
    (hnumbered : Numbered context s a) (ha : ∀ b, a ≠ .table b) (hstep : (resultMachine context).step s a = some (u, o)) :
    Forwarded r u.bridge ∧ u.bridge.receiving = true ∧ u.bridge.system = s.bridge.system := by
  have htaken {envelope : RunEventEnvelope} {channel} (htake : s.bridge.channel.take = some (envelope, channel)) :
      Forwarded r { s.bridge with channel, received := s.bridge.received ++ [envelope] } := by
    apply h.next
    rw [EventBridge.next, if_pos hreceiving, htake]
  cases a with
  | table a => exact absurd rfl (ha a)
  | forward =>
    obtain ⟨bridge, hforward, heq⟩ := Option.map_eq_some_iff.1 hstep
    obtain ⟨rfl, -⟩ := Prod.mk.inj heq
    refine ⟨h.forward hw (fun _ => ⟨fun _ _ _ _ => hreceiving, fun r hphase hr => ?_⟩) hr hforward,
      (forward_received hforward).2.1.trans hreceiving, EventBridge.forward_system hforward⟩
    exact hnumbered rfl r hphase hr
  | next =>
    simp only [resultMachine] at hstep
    split at hstep
    · cases hstep
    · obtain ⟨bridge, hnext, heq⟩ := Option.map_eq_some_iff.1 hstep
      obtain ⟨rfl, -⟩ := Prod.mk.inj heq
      obtain ⟨envelope, channel, -, htake, rfl⟩ := next_cases hnext
      exact ⟨htaken htake, hreceiving, rfl⟩
  | call =>
    simp only [resultMachine] at hstep
    split at hstep
    · cases hstep
    · obtain ⟨rfl, -⟩ := Prod.mk.inj (Option.some.inj hstep)
      exact ⟨h, hreceiving, rfl⟩
  | collect =>
    obtain ⟨s', hs', heq⟩ := Option.map_eq_some_iff.1 hstep
    obtain ⟨rfl, -⟩ := Prod.mk.inj heq
    obtain ⟨first, locals, -, ⟨envelope, channel, htake, rfl⟩ | ⟨-, -, rfl⟩⟩ := collect_cases hs'
    · exact ⟨htaken htake, hreceiving, rfl⟩
    · exact ⟨h, hreceiving, rfl⟩

/-- **A step** of the whole run. -/
theorem Whole.step (h : Whole task context start said s) {a : WholeAction} (hg : Reported task context s a)
    (hstep : (wholeMachine task context).step s a = some (u, more)) : Whole task context start (said ++ more) u := by
  cases a with
  | task a =>
    obtain ⟨⟨t, o⟩, htask, heq⟩ := Option.map_eq_some_iff.1 hstep
    cases heq
    exact h.step_task (hg.unfinished a rfl) htask
  | host a =>
    have ha : ∀ b, a ≠ .table b := by
      rintro b rfl
      cases hstep
    have hhost : ((resultMachine context).step s.host a).map (fun x => ((⟨s.task, x.1⟩ : WholeRun), ([] : List Message))) =
        some (u, more) := by
      cases a with
      | table b => exact absurd rfl (ha b)
      | _ => exact hstep
    obtain ⟨⟨host, o⟩, hresult, heq⟩ := Option.map_eq_some_iff.1 hhost
    cases heq
    obtain ⟨r, hr, hforwarded⟩ := h.record
    have hr' : s.host.bridge.system.table.get context.runId = some r := by
      rw [h.system]
      exact hr
    obtain ⟨hforwarded', hreceiving, hsystem⟩ := forwarded_host hforwarded (h.wellFormed _ r hr) hr' h.receiving
      (hg.numbered a rfl) ha hresult
    rw [List.append_nil]
    exact { h with
      system := hsystem.trans h.system
      record := ⟨r, hr, hforwarded'⟩
      receiving := hreceiving
      collected := h.collected.step hresult }

end Step

/-! ## What the host reads -/

/-- The last message of a history that ends with a turn. -/
theorem assistantText_snoc (messages : List Message) (turn : ModelTurn) :
    assistantText (messages ++ [assistantMessage turn]) = turn.text := by
  rw [assistantText, List.reverse_append, List.reverse_singleton, List.singleton_append, List.find?_cons_of_pos (by rfl)]
  by_cases htext : turn.text = ""
  · simp [assistantMessage, htext]
  · simp [assistantMessage, htext, String.join]

/-- The text of a result is that of the last turn, where the turn has left a message. -/
theorem assistantText_completed (messages : List Message) (turn : ModelTurn)
    (hleft : turn.text ≠ "" ∨ turn.reasoning ≠ "" ∨ ¬ turn.opaqueValue.isNull) :
    assistantText (completeWithoutTools messages turn).messages = turn.text := by
  rw [completeWithoutTools_messages, if_pos hleft]
  exact assistantText_snoc messages turn

/-- What the host gets when the run is completed. -/
structure Completed (start said : List Message) (loop : LoopState) (r : RunRecord) (result : RunResult) : Prop where
  state : result.state = .completed ∧ r.state = .completed
  output : result.output = start ++ said
  text : result.text = assistantText result.output
  turn : ∃ outcome, loop.phase = .returned (.ok outcome) ∧
    (outcome.turn.text ≠ "" ∨ outcome.turn.reasoning ≠ "" ∨ ¬ outcome.turn.opaqueValue.isNull →
      result.text = outcome.turn.text)

/-- An error that the host gets after the last event: the run is cancelled, or it has failed with what the task says. -/
def Refused (loop : LoopState) (r : RunRecord) (error : AifluxonError) : Prop :=
  error.kind = .cancelled ∧ r.state = .cancelled ∨
    error.kind = .failed ∧ r.state = .failed ∧ Says loop (.failed error.message)

section Read
variable {task : RunTask} {context : RunContext} {start said : List Message} {s : WholeRun} {r : RunRecord} {taken : Nat}

theorem Whole.resultOf (h : Whole task context start said s) (hr : s.task.table.get context.runId = some r)
    {res : Except AifluxonError RunResult} (hres : s.host.phase = .returned taken res) :
    ResultOf context r taken res := by
  obtain ⟨r', hr', hforwarded⟩ := h.record
  rw [hr, Option.some.injEq] at hr'
  subst hr'
  apply resultOf_returned hforwarded (h.wellFormed _ r hr) _ h.receiving h.collected hres
  rw [h.system]
  exact hr

/-- The last event of a run is one that the task may say. -/
theorem Whole.said_last (h : Whole task context start said s) (hid : task.env.runId = context.runId)
    (hr : s.task.table.get context.runId = some r) {last : RunEventEnvelope} (hlast : r.events.getLast? = some last)
    {f : FinishEvent} (hf : last.event = f.event) : Says s.task.agent.loop f := by
  apply h.ends r f
  · rw [hid]
    exact hr
  · exact ⟨last, List.mem_of_getLast? hlast, hf⟩

theorem Whole.completed (h : Whole task context start said s) (hid : task.env.runId = context.runId)
    (hr : s.task.table.get context.runId = some r) {result : RunResult}
    (hres : s.host.phase = .returned taken (.ok result)) : Completed start said s.task.agent.loop r result := by
  obtain ⟨-, hread, hlate⟩ := h.resultOf hr hres
  have htaken : taken < r.events.length := by
    by_contra hge
    have herror := hlate (by omega)
    cases herror
  obtain ⟨last, hlast, hfinal, houtcome⟩ := hread htaken
  cases hevent : last.event with
  | completed output =>
    rw [hevent] at hfinal houtcome
    cases houtcome
    have hsaid := h.said_last hid hr hlast (f := .completed output) hevent
    obtain ⟨outcome, hloop, rfl⟩ := hsaid
    have hspoken := h.spoken
    rw [LoopSpoken, hloop] at hspoken
    refine ⟨⟨rfl, (Option.some.inj hfinal).symm⟩, hspoken, rfl, outcome, hloop, fun hleft => ?_⟩
    obtain ⟨messages, turn, rfl⟩ := h.ended outcome hloop
    exact assistantText_completed messages turn hleft
  | _ =>
    rw [hevent] at houtcome
    cases houtcome

theorem Whole.refused (h : Whole task context start said s) (hid : task.env.runId = context.runId)
    (hr : s.task.table.get context.runId = some r) {error : AifluxonError}
    (hres : s.host.phase = .returned taken (.error error)) (htaken : taken < r.events.length) :
    Refused s.task.agent.loop r error := by
  obtain ⟨-, hread, -⟩ := h.resultOf hr hres
  obtain ⟨last, hlast, hfinal, houtcome⟩ := hread htaken
  cases hevent : last.event with
  | failed message =>
    rw [hevent] at hfinal houtcome
    cases houtcome
    exact .inr ⟨rfl, (Option.some.inj hfinal).symm, h.said_last hid hr hlast (f := .failed message) hevent⟩
  | cancelled =>
    rw [hevent] at hfinal houtcome
    cases houtcome
    exact .inl ⟨rfl, (Option.some.inj hfinal).symm⟩
  | _ =>
    rw [hevent] at houtcome
    cases houtcome

end Read

/-- A host that has its handle and has taken nothing, on the table that the task begins with. -/
structure Watches (launched : Launched) (w : Backend) (host : ResultSystem) : Prop where
  system : host.bridge.system = ⟨w.table, []⟩
  forwarded : ∀ r, w.table.get launched.context.runId = some r → Forwarded r host.bridge
  receiving : host.bridge.receiving = true
  iterating : host.phase = .iterating

/-- A forwarder that has just been spawned. -/
theorem watches_new (launched : Launched) (w : Backend) : Watches launched w (.new ⟨w.table, []⟩) where
  system := rfl
  forwarded r _ := {
    log := List.nil_prefix
    short := Nat.zero_le _
    sequence := rfl
    stream _ := rfl
    received := List.nil_prefix
    sending _ _ hsend := by cases hsend
    ended hret := by cases hret
    open' e he := by cases he }
  receiving := rfl
  iterating := rfl

section Runs
variable {configuration : BackendConfiguration} {env : LaunchEnv} {request : RunRequest} {existingRun : Option RunId}
  {w : Backend} {launched : Launched} {host : ResultSystem} {as : List WholeAction} {said : List Message} {s : WholeRun}

/-- What a launch asks its loop: the history of the session, and the messages of the request. -/
def launchedHistory (request : RunRequest) (w : Backend) : List Message :=
  mergeSessionAndRequestMessages ((request.sessionId.map w.stores.sessions.history).getD []) request.messages

theorem launchedHistory_eq (hlaunch : (launch configuration env request existingRun w).1 = .ok launched) :
    launched.task.request.messages = launchedHistory request w := by
  obtain ⟨record, hrecord, hmessages⟩ := launch_messages hlaunch
  rw [hmessages, launchedHistory]
  cases hsession : request.sessionId with
  | none => rfl
  | some sessionId =>
    have hhistory := openRecord_messages hrecord hsession
    rw [Option.isSome_some, if_pos rfl, hhistory]
    rfl

theorem Whole.initial {w' : Backend} (ho : Opened request w w' launched) (hw' : w'.table.WellFormed)
    (hopen : ¬ w'.table.Ended launched.context.runId) (hhost : Watches launched w' host) :
    Whole launched.task launched.context launched.task.request.messages [] ⟨launched.task.init w', host⟩ where
  wellFormed := hw'
  system := hhost.system
  record := by
    obtain ⟨r, hr⟩ := ho.run
    exact ⟨r, hr, hhost.forwarded r hr⟩
  receiving := hhost.receiving
  collected := by
    rw [Collected, hhost.iterating]
    trivial
  spoken := (List.append_nil _).symm
  ended := nofun
  ends r f hr hlogs := by
    rw [ho.runId] at hr
    have hfinal := ((hw' _ r hr).of_logs hlogs f.terminalState_event).2
    exact absurd ⟨r, hr, by rw [hfinal]; exact f.isTerminal_state⟩ hopen
  law := trivial

end Runs

/-! A run that is saved while its host waits. -/

/-- The forwarder has the start of the run in hand when the loop gets its answer, and the host waits. -/
def saveWhileWaiting : List WholeAction :=
  [.host .call, .host .forward, .host .forward] ++ savedRun.map .task ++
    [.host .forward, .host .collect, .host .forward, .host .forward, .host .forward, .host .forward, .host .collect,
      .host .collect]

/-- A test for `Reported`, in a run without other calls on the table. -/
def reportedTest (context : RunContext) (s : WholeRun) : WholeAction → Bool
  | .task (.agent (.host _)) => false
  | .task _ => true
  | .host a => numberedTest context s.host a

theorem reported_of_test {task : RunTask} {context : RunContext} (s : WholeRun) (a : WholeAction)
    (h : reportedTest context s a = true) : Reported task context s a where
  unfinished b ha n f hb := by
    subst ha hb
    cases h
  numbered b ha := by
    subst ha
    exact numbered_of_test s.host b h

end Api

end Aifluxon
