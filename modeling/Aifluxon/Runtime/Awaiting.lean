import Aifluxon.Runtime.GateLaws
import Aifluxon.Runtime.Once

/-!
# Waiting for the host

What the state of a run says while the calls of a batch wait for the decisions of the host.

* `AgentState.Suspended` : some calls of the batch wait for a pending operation, the others are done;
* `HostDecides` : the host decides on operations, and leaves the state of the run to its loop;
* `TakenUpAlone` : a decision is taken up when no other call of the batch waits for one;
* `Waiting`, `Waiting.step` : the invariant, and what every step keeps of it;
* `awaiting_while_suspended` : under the last condition a suspended run is `AwaitingOperation`;
* `running_while_suspended` : without it a run is `Running` while it waits for the host.
-/

namespace Aifluxon

/-! ## The state of a run -/

/-- The run keeps its state. -/
abbrev KeepsState : RunId → RunTable → RunTable → Prop := Keeps RunRecord.state

section State
variable {runId id : RunId} {t t' : RunTable} {state : RunState}

theorem Keeps.inState (h : KeepsState runId t t') (hs : t.InState runId state) : t'.InState runId state := by
  obtain ⟨r, hr, hstate⟩ := hs
  obtain ⟨r', hr', hkept⟩ := h r hr
  exact ⟨r', hr', hkept.trans hstate⟩

theorem emit_state (r : RunRecord) (event : RunEvent) : (r.emit event).2.state = r.state := by
  simp only [RunRecord.emit, RunRecord.appendEvent]
  split
  · rfl
  · split <;> rfl

theorem registerHook_state (r : RunRecord) (hook : RunCancellationHook) :
    (r.registerHook hook).2.state = r.state := by
  simp only [RunRecord.registerHook]
  split <;> rfl

theorem state_setState {r : RunRecord} {n : Nat} (h : (r.setState state).1 = .ok n) :
    (r.setState state).2.state = state := by
  simp only [RunRecord.setState, RunRecord.appendEvent] at h ⊢
  split at h
  · cases h
  rename_i hopen
  split at h
  · cases h
  rename_i hallowed
  rw [if_neg hopen, if_neg hallowed]
  split <;> rfl

/-- A section that sets the state of a run and succeeds leaves the run in it. -/
theorem inState_setState {n : Nat} (h : t.setState runId state = (.ok n, t')) : t'.InState runId state := by
  obtain ⟨r, -, hres, hr'⟩ := RunTable.withRecord_ok h
  exact ⟨_, hr', state_setState hres⟩

/-- **The calls of the host that do not set the state of a run** keep it. -/
theorem CallState.step_state {pc : CallState} (hpc : ¬ pc.SetsState runId) : KeepsState runId t (pc.step t).2 :=
  step_keeps emit_state registerHook_state fun hsets => absurd hsets hpc

theorem Moved.keepsState {label : RecordLabel} (h : Moved t id label t')
    (hlabel : ∀ event, label = .appends event → event.terminalState = none ∧ ∀ state, event ≠ .stateChanged state) :
    KeepsState runId t t' := by
  refine h.keeps fun r r' hmove => ?_
  cases hmove with
  | inner _ _ hstate => exact hstate
  | recorded | emitted => rfl
  | stateChanged => exact absurd rfl ((hlabel _ rfl).2 _)
  | finished f =>
    have hterminal := (hlabel _ rfl).1
    cases f <;> cases hterminal
  | cancelled => cases (hlabel _ rfl).1

theorem InnerStep.keepsState (h : InnerStep t id t') : KeepsState runId t t' := by
  rcases h with h | h
  · exact h.keeps
  · exact h.keepsState nofun

end State

/-- The phases in which a call sets the state of its run. -/
def CallPhase.setsState : CallPhase → Bool
  | .setAwaiting .. | .resume .. | .rejected _ => true
  | _ => false

/-- **The steps of a call that do not set the state of its run** keep it. -/
theorem CallStep.keepsState {env : AgentEnv} {registry : ToolRegistry} {t t' : RunTable} {k : CallKey}
    {call : ToolCall} {phase phase' : CallPhase} {o : List AgentObs} {runId : RunId}
    (h : CallStep env registry t k call phase (phase', t', o)) (hphase : phase.setsState = false) :
    KeepsState runId t t' := by
  cases h with
  | consumed h | consumeFailed _ h => exact h.keepsState
  | invalidStarted h | invalidFinished h | requested h | admitted h | recorded h | answered h =>
    exact h.keepsState (by rintro event ⟨⟩ <;> exact ⟨rfl, nofun⟩)
  | awaiting | resumed | refused => cases hphase
  | registerFailed _ h => exact h.keeps
  | sectionFailed _ _ _ h => exact h.keeps
  | finishFailed h => exact (operate_same h).keeps
  | registered | failApproved | finishApproved => exact keeps_operate _
  | _ => exact .refl _ runId t

/-! ## Calls that wait -/

/-- The call has asked for a decision, and its operation is pending. -/
def CallPhase.Undecided (s : InMemoryOperationStore) : CallPhase → Prop
  | .request operation _ _ | .wait operation _ _ => ∃ r, s.get operation.id = some r ∧ r.state = .pending
  | _ => False

/-- The call has its decision and takes it up in its next step. -/
def CallPhase.isDecided : CallPhase → Bool
  | .resume .. | .rejected _ => true
  | _ => false

/-- The operation of a call is registered for the run. -/
def CallPhase.Registered (s : InMemoryOperationStore) (runId : RunId) : CallPhase → Prop
  | .setAwaiting operation _ _ | .request operation _ _ | .wait operation _ _ =>
    ∃ r, s.get operation.id = some r ∧ r.operation.runId = runId
  | _ => True

/-- While the decision on a call is pending, its run awaits it. -/
structure FrameWaits (t : RunTable) (runId : RunId) (phase : CallPhase) : Prop where
  registered : phase.Registered t.operations runId
  awaiting : phase.Undecided t.operations → t.InState runId .awaitingOperation

/-- What holds of every state that the loop reaches. -/
def Waiting (env : AgentEnv) (s : AgentState) : Prop :=
  ∀ parallel frames, s.loop.phase = .batch parallel frames → ∀ (i : Nat) frame, frames[i]? = some frame →
    FrameWaits s.table env.runId frame.phase

section FrameWaits
variable {env : AgentEnv} {registry : ToolRegistry} {t t' : RunTable} {o : List AgentObs} {k : CallKey}
  {call : ToolCall} {phase phase' : CallPhase}

/-- The record of an operation of the run, before and after a step. -/
theorem OperationsStep.registered_pending {s s' : InMemoryOperationStore} (h : OperationsStep env s o s')
    {id : OperationId} (hr : ∃ r, s.get id = some r ∧ r.operation.runId = env.runId) :
    (∃ r, s'.get id = some r ∧ r.operation.runId = env.runId) ∧
      ((∃ r, s'.get id = some r ∧ r.state = .pending) → ∃ r, s.get id = some r ∧ r.state = .pending) := by
  obtain ⟨r, hr, hrun⟩ := hr
  obtain ⟨r', hr', hop, hmove⟩ := h.record hr hrun
  refine ⟨⟨r', hr', by rw [hop, hrun]⟩, ?_⟩
  rintro ⟨r'', hr'', hpending⟩
  rw [hr', Option.some.injEq] at hr''
  subst hr''
  rcases hmove with rfl | ⟨c, hmove, -⟩
  · exact ⟨r', hr, hpending⟩
  · exact absurd hpending hmove.not_pending

theorem FrameWaits.mono (h : FrameWaits t env.runId phase)
    (hops : OperationsStep env t.operations o t'.operations)
    (hstate : phase.Undecided t.operations → t.InState env.runId .awaitingOperation →
      t'.InState env.runId .awaitingOperation) : FrameWaits t' env.runId phase := by
  obtain ⟨hregistered, hawaiting⟩ := h
  cases phase with
  | setAwaiting operation => exact ⟨(hops.registered_pending hregistered).1, nofun⟩
  | request operation | wait operation =>
    obtain ⟨hregistered', hpending⟩ := hops.registered_pending hregistered
    exact ⟨hregistered', fun h => hstate (hpending h) (hawaiting (hpending h))⟩
  | _ => exact ⟨trivial, nofun⟩

/-- A call registers its operation and then sets the state of its run. -/
theorem step_setAwaiting {operation : PendingOperation} {invocation : ToolInvocation} {executor : ToolExecutor}
    {a : CallAction} (ht : t.WellFormed)
    (h : (CallPhase.setAwaiting operation invocation executor).step env registry t k call a =
      some (phase', t', o)) :
    (phase' = .request operation invocation executor ∧ t'.InState env.runId .awaitingOperation ∧
        t'.operations = t.operations) ∨
      (∃ e, phase' = .done (.error e)) ∧ SameTable t t' := by
  cases a <;> simp only [CallPhase.step, Option.some.injEq, reduceCtorEq] at h
  have hsection := RunTable.setState_section ht env.runId .awaitingOperation
  cases hres : t.setState env.runId .awaitingOperation with
  | mk res t'' =>
    rw [hres] at h hsection
    cases res with
    | error e =>
      cases h
      exact .inr ⟨⟨_, rfl⟩, hsection.same rfl⟩
    | ok n =>
      cases h
      exact .inl ⟨rfl, inState_setState hres, (hsection.moved rfl).operations⟩

theorem FrameWaits.step (h : FrameWaits t env.runId phase) (ht : t.WellFormed) {a : CallAction}
    (hstep : phase.step env registry t k call a = some (phase', t', o)) : FrameWaits t' env.runId phase' := by
  obtain ⟨hregistered, hawaiting⟩ := h
  cases callStep_of_step ht hstep with
  | registered h => exact ⟨⟨_, get_register h, rfl⟩, nofun⟩
  | awaiting h =>
    rcases step_setAwaiting ht hstep with ⟨-, hstate, hops⟩ | ⟨⟨e, he⟩, -⟩
    · refine ⟨?_, fun _ => hstate⟩
      rw [hops]
      exact hregistered
    · cases he
  | requested h =>
    have hstate : KeepsState env.runId t t' := h.keepsState (by rintro event ⟨⟩; exact ⟨rfl, nofun⟩)
    refine ⟨?_, fun hpending => hstate.inState (hawaiting ?_)⟩
    · rw [h.operations]
      exact hregistered
    · rw [h.operations] at hpending
      exact hpending
  | _ => exact ⟨trivial, nofun⟩

end FrameWaits

/-! ## Conditions on the steps -/

/-- The host decides on operations, and leaves the state of the run to its loop. -/
structure HostDecides (env : AgentEnv) (s : AgentState) (a : AgentAction) : Prop where
  retained : Retained env s a
  state : ∀ (n : Nat) pc, a = .host (.step n) → s.system.calls[n]? = some pc → ¬ pc.SetsState env.runId

/-- A call takes its decision up when no other call of the batch waits for a pending one. -/
structure TakenUpAlone (env : AgentEnv) (s : AgentState) (a : AgentAction) : Prop extends HostDecides env s a where
  alone : ∀ (i : Nat) c parallel frames frame, a = .call i c → s.loop.phase = .batch parallel frames →
    frames[i]? = some frame → frame.phase.isDecided = true → ∀ (j : Nat) g, i ≠ j → frames[j]? = some g →
    ¬ g.phase.Undecided s.table.operations

section Step
variable {env : AgentEnv} {s u : AgentState} {a : AgentAction} {o : List AgentObs}

theorem Waiting.same_loop (h : Waiting env s) (hloop : u.loop = s.loop)
    (hops : OperationsStep env s.table.operations o u.table.operations)
    (hstate : KeepsState env.runId s.table u.table) : Waiting env u := by
  intro parallel frames hphase i frame hframe
  rw [hloop] at hphase
  exact (h parallel frames hphase i frame hframe).mono hops fun _ => hstate.inState

/-- The calls of a batch that make no step, when one of them does. -/
theorem FrameWaits.other {t' : RunTable} {k : CallKey} {call : ToolCall} {phase phase' : CallPhase} {c : CallAction}
    {g : Frame} (h : FrameWaits s.table env.runId g.phase) (hs : s.table.WellFormed)
    (hstep : phase.step env s.registry s.table k call c = some (phase', t', o))
    (halone : phase.isDecided = true → ¬ g.phase.Undecided s.table.operations) :
    FrameWaits t' env.runId g.phase := by
  have hcall := callStep_of_step hs hstep
  refine h.mono (callStep_operationsStep hcall) fun hundecided hawaiting => ?_
  cases hsets : phase.setsState with
  | false => exact (hcall.keepsState hsets).inState hawaiting
  | true =>
    cases phase with
    | setAwaiting operation invocation executor =>
      rcases step_setAwaiting hs hstep with ⟨-, hstate, -⟩ | ⟨-, hsame⟩
      · exact hstate
      · exact Keeps.inState hsame.keeps hawaiting
    | resume | rejected => exact absurd hundecided (halone rfl)
    | _ => cases hsets

/-- **Every step keeps the invariant.** -/
theorem Waiting.step (h : Waiting env s) (hs : s.table.WellFormed) (hg : TakenUpAlone env s a)
    (hstep : (agentMachine env).step s a = some (u, o)) : Waiting env u := by
  have hagent := agentStep_of_step hstep
  have hops := agentStep_operationsStep hs hg.retained hagent
  cases hagent with
  | host hhost =>
    refine h.same_loop rfl hops ?_
    obtain ⟨call, -, rfl, -⟩ | ⟨n, pc, rfl, hpc, -, rfl, -⟩ := tableMachine_cases hhost
    · exact .refl _ _ _
    · exact CallState.step_state (hg.state n pc rfl hpc)
  | registerTool => exact h.same_loop rfl hops (.refl _ _ _)
  | sink event => exact h.same_loop rfl hops (keeps_withRecord fun _ r => emit_state r _)
  | loop hloop =>
    intro parallel frames hphase i frame hframe
    rw [(hloop.new_frame hphase hframe).1]
    exact ⟨trivial, nofun⟩
  | @call index c parallel frames frame phase t _ hphase hframe _ hcall =>
    intro parallel' frames' hphase' i g hi
    obtain ⟨rfl, rfl⟩ := LoopPhase.batch.inj hphase'
    rcases getElem?_set_cases hframe hi with ⟨rfl, rfl⟩ | ⟨hne, hi⟩
    · exact (h _ _ hphase _ _ hframe).step hs hcall
    · exact (h _ _ hphase _ _ hi).other hs hcall fun hdecided =>
        hg.alone _ _ _ _ _ rfl hphase hframe hdecided _ _ hne hi

end Step

/-! ## Suspended loops -/

/-- The call waits for the host to decide on its operation. -/
def Frame.WaitsForHost (s : InMemoryOperationStore) (frame : Frame) : Prop :=
  ∃ operation invocation executor, frame.phase = .wait operation invocation executor ∧
    ∃ r, s.get operation.id = some r ∧ r.state = .pending

/-- The loop waits for the host alone: calls of its batch wait for pending operations, and all others are
done. -/
def AgentState.Suspended (s : AgentState) : Prop :=
  ∃ parallel frames, s.loop.phase = .batch parallel frames ∧
    (∃ frame ∈ frames, frame.WaitsForHost s.table.operations) ∧
    ∀ frame ∈ frames, frame.WaitsForHost s.table.operations ∨ frame.isDone = true

/-- In the runs whose steps meet `G`, a suspended run is `AwaitingOperation`. -/
def AwaitsWhileSuspended (G : AgentEnv → AgentState → AgentAction → Prop) : Prop :=
  ∀ env s request as tr t, s.table.WellFormed → s.loop = .new request → (agentMachine env).Run (G env) s as tr t →
    t.Suspended → t.table.InState env.runId .awaitingOperation

/-- **A suspended run is `AwaitingOperation`**, when decisions are taken up alone. -/
theorem awaiting_while_suspended {env : AgentEnv} {s t : AgentState} {request : ModelTurnRequest}
    {as : List AgentAction} {tr : List AgentObs} (hs : s.table.WellFormed) (hloop : s.loop = .new request)
    (hrun : (agentMachine env).Run (TakenUpAlone env) s as tr t) (hsuspended : t.Suspended) :
    t.table.InState env.runId .awaitingOperation := by
  have hwaiting : Waiting env t := by
    refine hrun.induction (P := fun _ t => Waiting env t) ?_ ?_
    · intro parallel frames hphase
      rw [hloop] at hphase
      cases hphase
    · intro as tr t a u o hr hi hg hstep
      exact hi.step (agent_wellFormed hr hs) hg hstep
  obtain ⟨parallel, frames, hphase, ⟨frame, hmem, operation, invocation, executor, hwait, hpending⟩, -⟩ := hsuspended
  obtain ⟨i, hi⟩ := List.getElem?_of_mem hmem
  refine (hwaiting parallel frames hphase i frame hi).awaiting ?_
  rw [hwait]
  exact hpending

/-! ## Two calls that need an approval -/

/-- A test for `HostDecides`. -/
def hostDecidesTest (s : AgentState) : AgentAction → Bool
  | .host (.step n) => match s.system.calls[n]? with
    | some (.invoked (.operation (.resolve ..))) | none => true
    | _ => false
  | _ => true

theorem hostDecides_of_test {env : AgentEnv} (s : AgentState) (a : AgentAction) (h : hostDecidesTest s a = true) :
    HostDecides env s a where
  retained := by
    rintro n id rfl hcall
    simp [hostDecidesTest, hcall] at h
  state := by
    rintro n pc rfl hcall hsets
    simp only [hostDecidesTest, hcall] at h
    split at h
    · rename_i heq
      cases heq
      exact hsets
    · cases ‹some pc = none›
    · cases h

/-- The call has asked for a decision and not taken it up. -/
def CallPhase.isRequested : CallPhase → Bool
  | .request .. | .wait .. => true
  | _ => false

/-- A test for `TakenUpAlone`. -/
def takenUpAloneTest (s : AgentState) (a : AgentAction) : Bool :=
  hostDecidesTest s a && match a, s.loop.phase with
    | .call i _, .batch _ frames => match frames[i]? with
      | some frame => !frame.phase.isDecided || frames.all fun g => !g.phase.isRequested
      | none => true
    | _, _ => true

theorem takenUpAlone_of_test {env : AgentEnv} (s : AgentState) (a : AgentAction) (h : takenUpAloneTest s a = true) :
    TakenUpAlone env s a := by
  obtain ⟨hdecides, halone⟩ := (Bool.and_eq_true _ _).mp h
  refine ⟨hostDecides_of_test s a hdecides, ?_⟩
  rintro i c parallel frames frame rfl hphase hframe hdecided j g - hg hundecided
  simp only [hphase, hframe, hdecided, Bool.not_true, Bool.false_or, List.all_eq_true] at halone
  have hrequested := halone g (List.mem_of_getElem? hg)
  cases hgphase : g.phase with
  | request | wait =>
    rw [hgphase] at hrequested
    cases hrequested
  | _ =>
    rw [hgphase] at hundecided
    exact hundecided

def approvalDraft : PendingOperationDraft := { sendDraft with mode := .blockingApproval }

/-- A call asks for an approval, under the operation `id`, and waits for it. -/
def toWait (index : Nat) (id : OperationId) : List AgentAction :=
  toDecision index ++ [.call index (.decide (.ok noFacts) (.requireApproval approvalDraft)),
    .call index (.register id 0), .call index .step, .call index .step]

/-- The host approves the operation, in its call `n`. -/
def approve (n : Nat) (id : OperationId) : List AgentAction :=
  [.host (.invoke (.operation (.resolve ⟨1⟩ id (.approve none)))), .host (.step n)]

/-- A call takes its approval up, and its executor runs to the end. -/
def approvedToDone (index : Nat) : List AgentAction :=
  [.call index .step, .call index .step, .call index .step, .call index .start] ++ toMessage index

/-- The first call is approved and done before the second asks for its approval. -/
def oneByOne : List AgentAction :=
  firstTurn [sendCall 1, sendCall 2] ++ toWait 0 ⟨1⟩ ++ approve 0 ⟨1⟩ ++ approvedToDone 0 ++ toWait 1 ⟨2⟩

/-- Both calls wait for their approvals, and the first is approved and done. -/
def bothAtOnce : List AgentAction :=
  firstTurn [sendCall 1, sendCall 2] ++ toWait 0 ⟨1⟩ ++ toWait 1 ⟨2⟩ ++ approve 0 ⟨1⟩ ++ approvedToDone 0

theorem suspended_of_pair {s : AgentState} {parallel : Bool} {f g : Frame}
    (hphase : s.loop.phase = .batch parallel [f, g]) (hf : f.isDone = true)
    (hg : g.WaitsForHost s.table.operations) : s.Suspended := by
  refine ⟨parallel, [f, g], hphase, ⟨g, List.mem_cons_of_mem f List.mem_cons_self, hg⟩, fun frame hframe => ?_⟩
  rcases List.mem_pair.1 hframe with rfl | rfl
  · exact .inr hf
  · exact .inl hg

theorem awaiting_while_suspended_oneByOne :
    ∃ tr t, (agentMachine sendEnv).Run (TakenUpAlone sendEnv) sendAgent oneByOne tr t ∧ t.Suspended ∧
      t.table.InState ⟨1⟩ .awaitingOperation := by
  have hrun := Machine.exec_run (M := agentMachine sendEnv) (s := sendAgent) (l := oneByOne)
    (G := TakenUpAlone sendEnv) takenUpAlone_of_test rfl
  refine ⟨_, _, hrun, ?suspended, awaiting_while_suspended sendAgent_wellFormed rfl hrun ?suspended⟩
  exact suspended_of_pair rfl rfl ⟨_, _, _, rfl, _, rfl, rfl⟩

/-- **A run is `Running` while it waits for the host**, once the decision on another call is taken up. -/
theorem running_while_suspended : ¬ AwaitsWhileSuspended HostDecides := by
  intro h
  have hrun := Machine.exec_run (M := agentMachine sendEnv) (s := sendAgent) (l := bothAtOnce)
    (G := HostDecides sendEnv) hostDecides_of_test rfl
  obtain ⟨r, hr, hstate⟩ := h _ _ _ _ _ _ sendAgent_wellFormed rfl hrun
    (suspended_of_pair rfl rfl ⟨_, _, _, rfl, _, rfl, rfl⟩)
  cases hr
  cases hstate

end Aifluxon
