import Aifluxon.Api.LaunchErrors
import Aifluxon.Runtime.GateLaws

/-!
# The allowed tools of a run

`allowed_tools` of a request selects the descriptors that the model sees. The loop resolves the calls
of a turn in the whole registry.

* `Confined` : the policy allows, and the host approves, calls of allowed tools only;
* `FrameListed`, `ListedInvariant` : how far a call of another tool comes in such a run;
* `only_allowed_started` : then no executor of another tool starts;
* `unlisted_started` : without it, a call of another tool is executed.
-/

namespace Aifluxon

open Machine (Free)

/-- The operation whose decision a call waits for. -/
def CallPhase.waitsFor : CallPhase → Option PendingOperation
  | .setAwaiting operation _ _ | .request operation _ _ | .wait operation _ _ => some operation
  | _ => none

/-- The step does not let a call of a tool outside the list through the gate. -/
structure Confined (allowed : List String) (s : AgentState) (a : AgentAction) : Prop where
  policy : ∀ parallel frames (index : Nat) frame facts, s.loop.phase = .batch parallel frames →
    frames[index]? = some frame → a = .call index (.decide (.ok facts) .allow) →
    frame.call.name ∈ allowed
  host : ∀ parallel frames (index n : Nat) frame operation c, s.loop.phase = .batch parallel frames →
    frames[index]? = some frame → frame.phase.waitsFor = some operation → a = .host (.step n) →
    s.system.calls[n]? = some (.invoked (.operation c)) → c.approves operation = true →
    frame.call.name ∈ allowed

/-- The record of an operation does not show its waiter an approval. -/
def Unapproved (s : InMemoryOperationStore) (operation : PendingOperation) : Prop :=
  ∀ r, s.get operation.id = some r → r.operation.runId = operation.runId →
    r.operation.mode = operation.mode → r.state ≠ .approved ∧ r.state ≠ .committing ∧
      (r.state = .rejected → ∃ reason, r.decision = some (.reject reason))

theorem Unapproved.apply {s : InMemoryOperationStore} {operation : PendingOperation}
    (h : Unapproved s operation) {c : OperationCall} (hc : c.approves operation = false) :
    Unapproved (c.apply s).2 operation := by
  intro r' hr' hrun hmode
  have hch := s.get_apply c operation.id
  rw [hr'] at hch
  generalize hx : s.get operation.id = x at hch
  cases hch with
  | same => exact h r' hx hrun hmode
  | registered => exact ⟨by simp, by simp, by simp⟩
  | @moved r _ hm =>
    obtain ⟨-, hop⟩ := hm.source
    have hid : r.operation.id = operation.id := s.keyed _ _ hx
    have hno (hstate : r'.state = .approved ∨ r'.state = .committing) : False := by
      have happ := hm.approves hstate
      have hsame : c.approves r.operation = c.approves operation := by
        rw [hop] at hrun hmode
        cases c <;> simp [OperationCall.approves, hid, hrun, hmode]
      rw [hsame, hc] at happ
      cases happ
    exact ⟨fun hs => hno (.inl hs), fun hs => hno (.inr hs), hm.decision.1⟩

/-! ## Calls of tools outside the list -/

/-- How far a call has come: a call of a tool outside the list waits for an approval at most. -/
def FrameListed (env : AgentEnv) (allowed : List String) (s : InMemoryOperationStore) (call : ToolCall) :
    CallPhase → Prop
  | .decide invocation _ | .register _ invocation _ => invocation.name = call.name
  | .setAwaiting operation invocation _ | .request operation invocation _
  | .wait operation invocation _ => invocation.name = call.name ∧ operation.runId = env.runId ∧
    (call.name ∈ allowed ∨ Unapproved s operation)
  | .resume _ invocation _ | .emitStarted invocation _ _ | .select invocation _ _ =>
    invocation.name ∈ allowed
  | _ => True

/-- What holds of every state that the loop reaches with the trace `tr`. -/
structure ListedInvariant (env : AgentEnv) (allowed : List String) (tr : List AgentObs)
    (s : AgentState) : Prop where
  frames : ∀ parallel frames, s.loop.phase = .batch parallel frames → ∀ (i : Nat) frame,
    frames[i]? = some frame → FrameListed env allowed s.table.operations frame.call frame.phase
  started : ∀ k invocation executor, .started k invocation executor ∈ tr → invocation.name ∈ allowed

section CallStep
variable {env : AgentEnv} {allowed : List String} {registry : ToolRegistry} {t : RunTable} {k : CallKey}
  {call : ToolCall} {phase : CallPhase} {a : CallAction} {x : CallOutcome}

theorem FrameListed.mono {s s' : InMemoryOperationStore} (h : FrameListed env allowed s call phase)
    (hs : ∀ operation, phase.waitsFor = some operation → call.name ∉ allowed → Unapproved s operation →
      Unapproved s' operation) : FrameListed env allowed s' call phase := by
  cases phase with
  | setAwaiting operation | request operation | wait operation =>
    obtain ⟨hname, hrun, hop⟩ := h
    by_cases hlist : call.name ∈ allowed
    · exact ⟨hname, hrun, .inl hlist⟩
    · exact ⟨hname, hrun, .inr (hs operation rfl hlist (hop.resolve_left hlist))⟩
  | _ => exact h

theorem callStep_operated (h : CallStep env registry t k call phase x) :
    x.2.1.operations = t.operations ∨ ∃ c, x.2.1.operations = (c.apply t.operations).2 ∧
      ∀ operation, OperationCall.approves operation c = false := by
  have hfinish (id : OperationId) (mode : OperationMode) (result : Except String Unit)
      (operation : PendingOperation) :
      (CallPhase.finishCall env.runId id mode result).approves operation = false := by
    cases mode <;> rfl
  cases h with
  | registered => exact .inr ⟨_, rfl, fun _ => rfl⟩
  | failApproved | finishApproved => exact .inr ⟨_, rfl, hfinish _ _ _⟩
  | consumed h | consumeFailed _ h => exact .inl h.operations
  | registerFailed _ h | sectionFailed _ _ _ h => exact .inl h.operations
  | finishFailed h => exact .inl (operate_same h).operations
  | invalidStarted h | awaiting h | requested h | resumed h | admitted h | recorded h | invalidFinished h
  | refused h | answered h => exact .inl h.operations
  | _ => exact .inl rfl

theorem callStep_unapproved (h : CallStep env registry t k call phase x) {operation : PendingOperation}
    (hop : Unapproved t.operations operation) : Unapproved x.2.1.operations operation := by
  obtain heq | ⟨c, heq, hc⟩ := callStep_operated h
  · exact heq ▸ hop
  · exact heq ▸ hop.apply (hc operation)

/-- A call comes to its admission from the decision of the policy by `Allow` alone. -/
theorem decide_allow {invocation : ToolInvocation} {executor : ToolExecutor}
    (h : CallPhase.step env registry t k call (.decide invocation executor) a = some x)
    (hx : ∃ approved, x.1 = .emitStarted invocation executor approved) :
    ∃ facts, a = .decide (.ok facts) .allow := by
  obtain ⟨approved, hx⟩ := hx
  cases a with
  | decide facts decision =>
    simp only [CallPhase.step, Option.some.injEq] at h
    subst h
    unfold CallPhase.decideCall at hx
    split at hx
    · cases hx
    split at hx
    · cases hx
    split at hx
    · exact ⟨_, rfl⟩
    · cases hx
    · cases hx
  | _ => simp only [CallPhase.step, reduceCtorEq] at h

theorem callStep_listed (ht : t.WellFormed) (hstep : phase.step env registry t k call a = some x)
    (hf : FrameListed env allowed t.operations call phase)
    (hpolicy : ∀ facts, a = .decide (.ok facts) .allow → call.name ∈ allowed) :
    FrameListed env allowed x.2.1.operations call x.1 := by
  have h := callStep_of_step ht hstep
  have hops (operation : PendingOperation) (hop : Unapproved t.operations operation) :
      Unapproved x.2.1.operations operation := callStep_unapproved h hop
  cases h with
  | validated _ hprep => exact (ToolRegistry.prepareInvocation_name hprep).1
  | @allowed invocation =>
    obtain ⟨facts, ha⟩ := decide_allow hstep ⟨_, rfl⟩
    have hname : invocation.name = call.name := hf
    show invocation.name ∈ allowed
    rw [hname]
    exact hpolicy facts ha
  | approvalRequired => exact hf
  | registered hreg =>
    refine ⟨hf, rfl, .inr fun r hr _ _ => ?_⟩
    cases (get_register hreg).symm.trans hr
    exact ⟨by simp, by simp, by simp⟩
  | awaiting | requested =>
    obtain ⟨hname, hrun, hop⟩ := hf
    exact ⟨hname, hrun, hop.imp_right (hops _)⟩
  | @approved operation invocation executor data hpoll =>
    obtain ⟨hname, hrun, hlist | hop⟩ := hf
    · show invocation.name ∈ allowed
      rw [hname]
      exact hlist
    · -- an unapproved record does not answer with an approval
      obtain ⟨r, hr, hrrun, hmode, hstate⟩ := pollHost_ok hpoll
      obtain ⟨hnot, hnot', hrejected⟩ := hop r hr (hrrun.trans hrun.symm) hmode
      rcases hstate with ⟨hstate | hstate, hdecision⟩ | ⟨hstate, -⟩
      · exact absurd hstate hnot
      · obtain ⟨reason, hreason⟩ := hrejected hstate
        rw [hreason] at hdecision
        cases hdecision
      · exact absurd hstate hnot'
  | resumed | admitted => exact hf
  | _ => trivial

end CallStep

/-! ## Runs -/

section Step
variable {env : AgentEnv} {allowed : List String} {s u : AgentState} {a : AgentAction}
  {tr o : List AgentObs}

theorem ListedInvariant.kept (hi : ListedInvariant env allowed tr s) {operations : InMemoryOperationStore}
    {parallel : Bool} {frames : List Frame} (hphase : s.loop.phase = .batch parallel frames) {i : Nat}
    {frame : Frame} (hframe : frames[i]? = some frame)
    (hops : ∀ operation, frame.phase.waitsFor = some operation → frame.call.name ∉ allowed →
      Unapproved s.table.operations operation → Unapproved operations operation) :
    FrameListed env allowed operations frame.call frame.phase :=
  (hi.frames parallel frames hphase i frame hframe).mono hops

/-- A section of a call of the host approves no operation of a call outside the list. -/
theorem hostStep_unapproved (hs : s.table.WellFormed) {n : Nat} {pc : CallState}
    (hpc : s.system.calls[n]? = some pc) {operation : PendingOperation}
    (hno : ∀ c, pc = .invoked (.operation c) → c.approves operation = false)
    (hop : Unapproved s.table.operations operation) :
    Unapproved (pc.step s.table).2.operations operation := by
  obtain heq | ⟨c, heq, hc⟩ := CallState.step_operations hs pc
  · exact heq ▸ hop
  · refine heq ▸ hop.apply ?_
    rcases hc with rfl | ⟨runId, rfl⟩
    · exact hno c rfl
    · rfl

/-- **A step keeps calls outside the list from their executors.** -/
theorem ListedInvariant.step (hi : ListedInvariant env allowed tr s) (hs : s.table.WellFormed)
    (hg : Confined allowed s a) (h : AgentStep env s a u o) : ListedInvariant env allowed (tr ++ o) u := by
  have hold (hnew : ∀ k invocation executor, .started k invocation executor ∉ o) :
      ∀ k invocation executor, .started k invocation executor ∈ tr ++ o → invocation.name ∈ allowed := by
    intro k invocation executor hm
    rcases List.mem_append.1 hm with hm | hm
    · exact hi.started k invocation executor hm
    · exact absurd hm (hnew k invocation executor)
  cases h with
  | host h =>
    refine ⟨fun parallel frames hphase i frame hframe => hi.kept hphase hframe ?_, hold (by simp)⟩
    intro operation hwait hlist hop
    obtain ⟨call, -, rfl, -⟩ | ⟨n, pc, rfl, hpc, -, rfl, -⟩ := tableMachine_cases h
    · exact hop
    · refine hostStep_unapproved hs hpc (fun c hc => ?_) hop
      by_contra happ
      rw [Bool.not_eq_false] at happ
      exact hlist (hg.host parallel frames i n frame operation c hphase hframe hwait rfl (hc ▸ hpc) happ)
  | registerTool =>
    exact ⟨fun parallel frames hphase i frame hframe => hi.kept hphase hframe fun _ _ _ hop => hop,
      hold (by simp)⟩
  | sink event =>
    refine ⟨fun parallel frames hphase i frame hframe => hi.kept hphase hframe ?_, hold (by simp)⟩
    intro operation _ _ hop
    exact (sink_section hs env.runId event).operations_eq ▸ hop
  | loop h =>
    refine ⟨fun parallel frames hphase i frame hframe => ?_, hold fun k invocation executor hm => ?_⟩
    · rw [(h.new_frame hphase hframe).1]
      trivial
    · obtain ⟨turn, hturn⟩ := h.obs _ hm
      cases hturn
  | @call index a parallel frames frame phase t o hphase hframe henabled h =>
    have hcall := callStep_of_step hs h
    have hlisted := hi.frames parallel frames hphase index frame hframe
    refine ⟨fun parallel' frames' hphase' i g hg' => ?_, fun k invocation executor hm => ?_⟩
    · obtain ⟨rfl, rfl⟩ := LoopPhase.batch.inj hphase'
      by_cases hid : index = i
      · subst hid
        rw [List.getElem?_set_self (List.getElem?_eq_some_iff.1 hframe).1, Option.some.injEq] at hg'
        subst hg'
        exact callStep_listed hs h hlisted fun facts ha =>
          hg.policy parallel frames index frame facts hphase hframe (by rw [ha])
      · rw [List.getElem?_set_ne hid] at hg'
        exact hi.kept hphase hg' fun _ _ _ hop => callStep_unapproved hcall hop
    · rcases List.mem_append.1 hm with hm | hm
      · exact hi.started k invocation executor hm
      · obtain ⟨-, approved, hselect, -⟩ := callStep_started hcall hm
        rw [hselect] at hlisted
        exact hlisted

end Step

/-- **The allowed tools.** A launched run starts no executor of a tool outside the list of its
request, when the policy allows no call of such a tool and the host approves no operation that such
a call waits for. -/
theorem only_allowed_started {configuration : BackendConfiguration} {env : LaunchEnv}
    {request : RunRequest} {existingRun : Option RunId} {w : Backend} {launched : Launched}
    {allowed : List String} {t : AgentState} {as : List AgentAction} {tr : List AgentObs}
    (_ : (launch configuration env request existingRun w).1 = .ok launched)
    (_ : request.allowedTools = some allowed) (hw : w.table.WellFormed)
    (h : (agentMachine launched.task.env).Run (Confined allowed)
      (launched.task.agent (launch configuration env request existingRun w).2.table) as tr t) :
    ∀ k invocation executor, .started k invocation executor ∈ tr → invocation.name ∈ allowed := by
  have hwf : (launch configuration env request existingRun w).2.table.WellFormed := launch_wellFormed hw
  have hinit : ListedInvariant launched.task.env allowed []
      (launched.task.agent (launch configuration env request existingRun w).2.table) :=
    ⟨by simp [RunTask.agent, LoopState.new], by simp⟩
  exact (h.induction (P := ListedInvariant launched.task.env allowed) hinit fun hr hi hg hstep =>
    hi.step (agent_wellFormed hr hwf) hg (agentStep_of_step hstep)).started

/-- A test for `Confined`, in a run without the host. -/
def confinedTest (allowed : List String) (s : AgentState) : AgentAction → Bool
  | .host (.step _) => false
  | .call index (.decide _ _) => match s.loop.phase with
    | .batch _ frames => match frames[index]? with
      | some frame => frame.call.name ∈ allowed
      | none => true
    | _ => true
  | _ => true

theorem confined_of_test {allowed : List String} (s : AgentState) (a : AgentAction)
    (h : confinedTest allowed s a = true) : Confined allowed s a where
  policy parallel frames index frame facts hphase hframe ha := by
    subst ha
    simpa [confinedTest, hphase, hframe] using h
  host parallel frames index n frame operation c _ _ _ ha := by
    subst ha
    cases h

/-- The run of a request that allows the tools of the list. -/
def sendTask (allowed : List String) : RunTask :=
  runTask sendConfiguration quietLaunch (sessionRequest (some allowed)) (.new ⟨7⟩ 0)
    ⟨⟨1⟩, some ⟨7⟩, none⟩ none

def sendLaunched (allowed : List String) : Launched := ⟨⟨⟨1⟩, some ⟨7⟩, none⟩, sendTask allowed⟩

def sendLaunch (allowed : List String) : Except AifluxonError Launched × Backend :=
  launch sendConfiguration quietLaunch (sessionRequest (some allowed)) none emptyBackend

/-- The policy allows a call of the tool, and its executor starts. -/
def allowedSend : List AgentAction := firstTurn [sendCall 1] ++ toSelect 0 ++ [.call 0 .start]

theorem only_allowed_started_send :
    ∃ tr t, (agentMachine (sendTask ["send"]).env).Run (Confined ["send"])
        ((sendTask ["send"]).agent (sendLaunch ["send"]).2.table) allowedSend tr t ∧
      .started ⟨1, 0⟩ sendInvocation ⟨0⟩ ∈ tr ∧ sendInvocation.name ∈ ["send"] := by
  have hrun := Machine.exec_run (M := agentMachine (sendTask ["send"]).env)
    (s := (sendTask ["send"]).agent (sendLaunch ["send"]).2.table) (l := allowedSend)
    (G := Confined ["send"]) confined_of_test rfl
  have hlaunched : (sendLaunch ["send"]).1 = .ok (sendLaunched ["send"]) := rfl
  refine ⟨_, _, hrun, ?started,
    only_allowed_started hlaunched rfl RunTable.new_wellFormed hrun ⟨1, 0⟩ sendInvocation ⟨0⟩ ?started⟩
  exact List.mem_of_getElem? (i := 4) rfl

/-- The request allows no tool, and the loop runs one. -/
theorem unlisted_started :
    (sendLaunch []).1 = .ok (sendLaunched []) ∧ (sendTask []).request.tools = [] ∧
      ∃ tr t, (agentMachine (sendTask []).env).Run Free ((sendTask []).agent (sendLaunch []).2.table)
          allowedSend tr t ∧
        .started ⟨1, 0⟩ sendInvocation ⟨0⟩ ∈ tr ∧ sendInvocation.name ∉ ([] : List String) := by
  have hrun := Machine.exec_free (M := agentMachine (sendTask []).env)
    (s := (sendTask []).agent (sendLaunch []).2.table) (l := allowedSend) rfl
  exact ⟨rfl, rfl, _, _, hrun, List.mem_of_getElem? (i := 4) rfl, List.not_mem_nil⟩

end Aifluxon
