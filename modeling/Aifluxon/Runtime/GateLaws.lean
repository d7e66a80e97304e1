import Aifluxon.Runtime.Gate

/-!
# The laws of the gate

Runs of the agent loop with the calls of the host in between.

* `Retained` : the host keeps the operations of the run in the store;
* `GateInvariant.step`, `gateInvariant_of_run` : the invariant of the gate, over every run;
* `gate_laws` : every executor that starts has come through the gate, and no call is admitted once
  the run is terminal;
* `started_after_cancel` : a call may be cancelled between its admission and its start.
-/

namespace Aifluxon

open Machine (Free)

/-- The host does not take an operation of the run out of the store. -/
def Retained (env : AgentEnv) (s : AgentState) (a : AgentAction) : Prop :=
  ∀ (n : Nat) id, a = .host (.step n) →
    s.system.calls[n]? ≠ some (.invoked (.operation (.remove env.runId id)))

/-! ## The operations in a step of the machine -/

section Step
variable {env : AgentEnv} {s u : AgentState} {a : AgentAction} {tr o : List AgentObs}

theorem callStep_operationsStep {registry : ToolRegistry} {t : RunTable} {k : CallKey} {call : ToolCall}
    {phase : CallPhase} {x : CallOutcome} (h : CallStep env registry t k call phase x) :
    OperationsStep env t.operations x.2.2 x.2.1.operations := by
  cases h with
  | @registered draft invocation executor id now hreg => exact .registered k now _ rfl rfl hreg
  | @failApproved error id mode => exact .finished id mode (.error error.message) (by simp)
  | @finishApproved result id mode => exact .finished id mode (.ok ()) (by simp)
  | consumed h | consumeFailed _ h =>
    exact h.operations ▸ .same (by simp)
  | registerFailed _ h | sectionFailed _ _ _ h => exact h.operations ▸ .same (by simp)
  | finishFailed h => exact (operate_same h).operations ▸ .same (by simp)
  | invalidStarted h | awaiting h | requested h | resumed h | admitted h | recorded h =>
    exact h.operations ▸ .same (by simp)
  | invalidFinished h | refused h | answered h =>
    exact h.operations ▸ .same (by simp [CallPhase.answer])
  | _ => exact .same (by simp [CallPhase.answer])

/-- A section of a call of the host, with what is observed of it. -/
theorem hostStep_operationsStep {n : Nat} {pc : CallState} (hs : s.table.WellFormed)
    (hpc : s.system.calls[n]? = some pc) (hg : Retained env s (.host (.step n))) :
    OperationsStep env s.table.operations [.host pc (pc.step s.table).1]
      (pc.step s.table).2.operations := by
  cases pc.step_effect hs with
  | quiet _ hops | registered _ _ _ _ _ hops | moved _ _ _ _ hops => exact hops ▸ .same (by simp)
  | operated c hc _ hops =>
    refine hops ▸ .hosted c (by simp) (fun id hid => ?_) fun operation m happ hres => ?_
    · unfold CallState.Operates at hc
      split at hc
      · subst hc hid
        exact hg n id rfl hpc
      · rw [hc] at hid
        cases hid
      · rw [hc] at hid
        cases hid
      · exact hc
    · unfold CallState.Operates at hc
      split at hc
      · subst hc
        have hret : (CallState.step s.table (.invoked (.operation c))).1 = .returned (.ok (.count m)) := by
          rw [CallState.step, CallState.begin, RunTable.operate, hres]
          rfl
        rw [hret]
        exact List.mem_singleton_self _
      · rw [hc] at happ
        cases happ
      · rw [hc] at happ
        cases happ
      · exact hc.elim

theorem agentStep_operationsStep (hs : s.table.WellFormed) (hg : Retained env s a)
    (h : AgentStep env s a u o) : OperationsStep env s.table.operations o u.table.operations := by
  cases h with
  | host h =>
    obtain ⟨call, -, rfl, rfl⟩ | ⟨n, pc, rfl, hpc, -, rfl, rfl⟩ := tableMachine_cases h
    · exact .same (by simp)
    · exact hostStep_operationsStep hs hpc hg
  | registerTool => exact .same (by simp)
  | sink event => exact (sink_section hs env.runId event).operations_eq ▸ .same (by simp)
  | loop h =>
    have hno (k : CallKey) (operation : PendingOperation) : AgentObs.registered k operation ∉ o := by
      intro hm
      obtain ⟨turn, hturn⟩ := h.obs _ hm
      cases hturn
    cases h with
    | advanced _ _ _ _ htable => exact htable.operations ▸ .same hno
    | dispatched | joined => exact .same hno
  | call _ _ _ h => exact callStep_operationsStep (callStep_of_step hs h)

theorem agentStep_extends (h : AgentStep env s a u o) : Extends s.registry u.registry := by
  cases h with
  | registerTool descriptor executor => exact extends_register s.registry descriptor executor
  | _ => exact .refl s.registry

/-! ## Steps of the machine -/

/-- The decisions on the registered operations, after a step. -/
theorem GateInvariant.step_operations {operations : InMemoryOperationStore}
    (hi : GateInvariant env tr s) (hops : OperationsStep env s.table.operations o operations)
    (k : CallKey) (operation : PendingOperation) (hm : .registered k operation ∈ tr ++ o) :
    OperationGate env operations (tr ++ o) k operation := by
  by_cases hnew : .registered k operation ∈ o
  · cases hops with
    | same hno | hosted _ hno | finished _ _ _ hno => exact absurd hnew (hno k operation)
    | registered k' now operation' ho hrun hreg =>
      rw [ho] at hnew
      obtain ⟨rfl, rfl⟩ := AgentObs.registered.inj (List.mem_singleton.1 hnew)
      refine ⟨hrun, _, get_register hreg, rfl, by simp, by simp, fun hstate => ?_⟩
      rcases hstate with hstate | hstate <;> cases hstate
  · rcases List.mem_append.1 hm with hm | hm
    · exact (hi.operations k operation hm).step hops hnew
    · exact absurd hm hnew

/-- The approvals of the registered operations are kept. -/
theorem GateInvariant.step_approved (hi : GateInvariant env tr s)
    (hops : OperationsStep env s.table.operations o u.table.operations) {k : CallKey}
    {operation : PendingOperation} (hm : .registered k operation ∈ tr)
    (happ : HostApproved s.table.operations operation.id) :
    HostApproved u.table.operations operation.id := by
  obtain ⟨hrun, r, hr, hop, -⟩ := hi.operations k operation hm
  exact happ.step hops hr (hop ▸ hrun)

/-- The frames of a batch that the step does not touch. -/
theorem GateInvariant.kept (hi : GateInvariant env tr s) (hext : Extends s.registry u.registry)
    (hops : OperationsStep env s.table.operations o u.table.operations) {parallel : Bool}
    {frames : List Frame} (hphase : s.loop.phase = .batch parallel frames) {i : Nat} {frame : Frame}
    (hframe : frames[i]? = some frame) (ho : ∀ x ∈ o, x.key? ≠ some ⟨s.loop.round, i⟩) :
    FrameGate env u.registry (tr ++ o) ⟨s.loop.round, i⟩ frame.call frame.phase ∧
      FrameClean (tr ++ o) ⟨s.loop.round, i⟩ frame.phase ∧
      FrameOperations u.table.operations (tr ++ o) ⟨s.loop.round, i⟩ frame.phase := by
  obtain ⟨hgate, hclean, hframeops⟩ := hi.frames parallel frames hphase i frame hframe
  exact ⟨hgate.mono hext, hclean.mono ho,
    hframeops.mono ho fun operation hm happ => hi.step_approved hops hm happ⟩

/-- The frames of a batch that starts. -/
theorem GateInvariant.fresh (hi : GateInvariant env tr s) (ho : ∀ x ∈ o, x.key? = none) (i : Nat)
    (call : ToolCall) (registry : ToolRegistry) (operations : InMemoryOperationStore) :
    FrameGate env registry (tr ++ o) ⟨s.loop.round + 1, i⟩ call .consume ∧
      FrameClean (tr ++ o) ⟨s.loop.round + 1, i⟩ .consume ∧
      FrameOperations operations (tr ++ o) ⟨s.loop.round + 1, i⟩ .consume := by
  have hnone {x : AgentObs} (hx : x ∈ tr ++ o) (hk : x.key? = some ⟨s.loop.round + 1, i⟩) : False := by
    rcases List.mem_append.1 hx with hx | hx
    · have hround := hi.rounds x hx _ hk
      exact absurd hround (Nat.not_succ_le_self _)
    · rw [ho x hx] at hk
      cases hk
  exact ⟨trivial, ⟨fun _ _ _ hx => hnone hx rfl, fun _ _ hx hstop => hnone hx hstop.key,
    fun _ _ hx => hnone hx rfl⟩, trivial⟩

/-- A call that has started its executor is neither stopped nor registered by a later step. -/
theorem GateInvariant.settled (hi : GateInvariant env tr s) (hs : s.table.WellFormed)
    (h : AgentStep env s a u o) {k : CallKey} {invocation : ToolInvocation} {executor : ToolExecutor}
    (hstarted : .started k invocation executor ∈ tr) {y : AgentObs} (hy : y ∈ o) :
    ¬ y.Stops k ∧ ∀ operation, y ≠ .registered k operation := by
  have hkey (hno : y.key? ≠ some k) : ¬ y.Stops k ∧ ∀ operation, y ≠ .registered k operation :=
    ⟨fun hstop => hno hstop.key, fun operation heq => hno (by rw [heq]; rfl)⟩
  cases h with
  | host h =>
    obtain ⟨p, -, rfl⟩ := List.mem_map.1 hy
    exact hkey (by simp [AgentObs.key?])
  | registerTool | sink => cases hy
  | loop h =>
    cases h with
    | advanced _ _ _ _ _ hobs =>
      obtain ⟨turn, rfl⟩ := hobs y hy
      exact hkey (by simp [AgentObs.key?])
    | dispatched =>
      obtain rfl := List.mem_singleton.1 hy
      exact hkey (by simp [AgentObs.key?])
    | joined => cases hy
  | @call index a parallel frames frame phase t o hphase hframe henabled h =>
    have hcall := callStep_of_step hs h
    have hyk := callStep_key hcall y hy
    by_cases hk : k = ⟨s.loop.round, index⟩
    · subst hk
      have hclean := (hi.frames parallel frames hphase index frame hframe).2.1
      have hnot (hstop : y.Stops ⟨s.loop.round, index⟩ ∨
          ∃ operation, y = .registered ⟨s.loop.round, index⟩ operation) : False :=
        hclean.started (callStep_settled hcall hy hstop) _ _ hstarted
      exact ⟨fun hstop => hnot (.inl hstop), fun operation heq => hnot (.inr ⟨operation, heq⟩)⟩
    · exact hkey fun hk' => hk (by rw [hyk] at hk'; exact (Option.some.inj hk').symm)

/-- What has been observed of a call that started, after a step that does not start it. -/
theorem GateInvariant.step_started (hi : GateInvariant env tr s) (hs : s.table.WellFormed)
    (hg : Retained env s a) (h : AgentStep env s a u o) {k : CallKey} {invocation : ToolInvocation}
    {executor : ToolExecutor} (hstarted : .started k invocation executor ∈ tr) :
    (∃ path, GatePath env u.registry k invocation executor path ∧
      (path ++ [AgentObs.admitted k, .started k invocation executor]).Sublist (tr ++ o)) ∧
    (∀ x ∈ tr ++ o, ¬ x.Stops k) ∧
    ∀ operation, .registered k operation ∈ tr ++ o → HostApproved u.table.operations operation.id := by
  obtain ⟨⟨path, hpath, hsub⟩, hstop, happ⟩ := hi.started k invocation executor hstarted
  refine ⟨⟨path, hpath.mono (agentStep_extends h), sublist_mono hsub⟩, fun x hx => ?_, fun operation hx => ?_⟩
  · rcases List.mem_append.1 hx with hx | hx
    · exact hstop x hx
    · exact (hi.settled hs h hstarted hx).1
  · rcases List.mem_append.1 hx with hx | hx
    · exact hi.step_approved (agentStep_operationsStep hs hg h) hx (happ operation hx)
    · exact absurd rfl ((hi.settled hs h hstarted hx).2 operation)

theorem callStep_started {registry : ToolRegistry} {t : RunTable} {k : CallKey} {call : ToolCall}
    {phase : CallPhase} {x : CallOutcome} (h : CallStep env registry t k call phase x) {k' : CallKey}
    {invocation : ToolInvocation} {executor : ToolExecutor}
    (hx : .started k' invocation executor ∈ x.2.2) : k' = k ∧ ∃ approved,
      phase = .select invocation executor approved ∧ x = (.executing invocation executor approved, t,
        [.started k invocation executor]) := by
  cases h with
  | started =>
    obtain ⟨rfl, rfl, rfl⟩ := AgentObs.started.inj (List.mem_singleton.1 hx)
    exact ⟨rfl, _, rfl, rfl⟩
  | _ => simp [CallPhase.answer] at hx

/-- An executor that a step starts has come through the gate. -/
theorem GateInvariant.new_started (hi : GateInvariant env tr s) (hs : s.table.WellFormed)
    (h : AgentStep env s a u o) {k : CallKey} {invocation : ToolInvocation} {executor : ToolExecutor}
    (hstarted : .started k invocation executor ∈ o) :
    (∃ path, GatePath env u.registry k invocation executor path ∧
      (path ++ [AgentObs.admitted k, .started k invocation executor]).Sublist (tr ++ o)) ∧
    (∀ x ∈ tr ++ o, ¬ x.Stops k) ∧
    ∀ operation, .registered k operation ∈ tr ++ o → HostApproved u.table.operations operation.id := by
  cases h with
  | host h => simp at hstarted
  | registerTool | sink => cases hstarted
  | loop h =>
    obtain ⟨turn, hturn⟩ := h.obs _ hstarted
    cases hturn
  | @call index a parallel frames frame phase t o hphase hframe henabled h =>
    obtain ⟨rfl, approved, hselect, hx⟩ := callStep_started (callStep_of_step hs h) hstarted
    obtain ⟨rfl, rfl, rfl⟩ : phase = _ ∧ t = _ ∧ o = _ := by simpa using hx
    obtain ⟨hgate, hclean, hops⟩ := hi.frames parallel frames hphase index frame hframe
    rw [hselect] at hgate hclean hops
    obtain ⟨path, hpath, hsub⟩ := hgate
    refine ⟨⟨path, hpath, ?_⟩, fun x hx => ?_, fun operation hm => ?_⟩
    · simpa using sublist_snoc hsub (List.mem_singleton_self _)
    · rcases List.mem_append.1 hx with hx | hx
      · exact hclean.stopped (.inl rfl) x hx
      · rw [List.mem_singleton.1 hx]
        simp [AgentObs.Stops]
    · exact hops operation (by simpa using hm)

theorem GateInvariant.step_rounds (hi : GateInvariant env tr s) (hs : s.table.WellFormed)
    (h : AgentStep env s a u o) : ∀ x ∈ tr ++ o, ∀ k, x.key? = some k → k.round ≤ u.loop.round := by
  have hround : s.loop.round ≤ u.loop.round ∧ ∀ x ∈ o, ∀ k, x.key? = some k → k.round ≤ u.loop.round := by
    cases h with
    | host h =>
      refine ⟨le_rfl, fun x hx k hk => ?_⟩
      obtain ⟨p, -, rfl⟩ := List.mem_map.1 hx
      cases hk
    | registerTool | sink => exact ⟨le_rfl, by simp⟩
    | loop h =>
      refine ⟨h.round_le, fun x hx k hk => ?_⟩
      rw [h.key_none x hx] at hk
      cases hk
    | call _ _ _ h =>
      refine ⟨le_rfl, fun x hx k hk => ?_⟩
      rw [callStep_key (callStep_of_step hs h) x hx, Option.some.injEq] at hk
      subst hk
      exact le_rfl
  intro x hx k hk
  rcases List.mem_append.1 hx with hx | hx
  · exact (hi.rounds x hx k hk).trans hround.1
  · exact hround.2 x hx k hk

theorem GateInvariant.step_frames (hi : GateInvariant env tr s) (hs : s.table.WellFormed)
    (hg : Retained env s a) (h : AgentStep env s a u o) (parallel : Bool) (frames : List Frame)
    (hphase : u.loop.phase = .batch parallel frames) (i : Nat) (frame : Frame)
    (hframe : frames[i]? = some frame) :
    FrameGate env u.registry (tr ++ o) ⟨u.loop.round, i⟩ frame.call frame.phase ∧
      FrameClean (tr ++ o) ⟨u.loop.round, i⟩ frame.phase ∧
      FrameOperations u.table.operations (tr ++ o) ⟨u.loop.round, i⟩ frame.phase := by
  have hext := agentStep_extends h
  have hops := agentStep_operationsStep hs hg h
  cases h with
  | host h =>
    refine hi.kept hext hops hphase hframe fun x hx => ?_
    obtain ⟨p, -, rfl⟩ := List.mem_map.1 hx
    simp [AgentObs.key?]
  | registerTool | sink => exact hi.kept hext hops hphase hframe (by simp)
  | @loop a loop t o h =>
    obtain ⟨hnew, hround⟩ : frame.phase = .consume ∧ loop.round = s.loop.round + 1 :=
      h.new_frame hphase hframe
    rw [hnew]
    show FrameGate _ _ _ ⟨loop.round, i⟩ _ _ ∧ FrameClean _ ⟨loop.round, i⟩ _ ∧
      FrameOperations _ _ ⟨loop.round, i⟩ _
    rw [hround]
    exact hi.fresh h.key_none i frame.call _ _
  | @call index a parallel' frames' frame' phase t o hphase' hframe' henabled h =>
    obtain ⟨rfl, rfl⟩ := LoopPhase.batch.inj hphase
    have hcall := callStep_of_step hs h
    by_cases hid : index = i
    · subst hid
      rw [List.getElem?_set_self (List.getElem?_eq_some_iff.1 hframe').1, Option.some.injEq] at hframe
      subst hframe
      obtain ⟨hgate, hclean, hframeops⟩ := hi.frames _ _ hphase' index frame' hframe'
      have hgates := fun operation hm => hi.operations ⟨s.loop.round, index⟩ operation hm
      exact ⟨callStep_gate hcall hgate hgates, callStep_clean hcall hclean,
        callStep_operations hcall hgate hclean hframeops hgates
          fun operation hm happ => hi.step_approved hops hm happ⟩
    · rw [List.getElem?_set_ne hid] at hframe
      refine hi.kept hext hops hphase' hframe fun x hx hk => hid ?_
      rw [callStep_key hcall x hx] at hk
      exact congrArg CallKey.index (Option.some.inj hk)

/-- **A step keeps the gate.** -/
theorem GateInvariant.step (hi : GateInvariant env tr s) (hs : s.table.WellFormed)
    (hg : Retained env s a) (h : AgentStep env s a u o) : GateInvariant env (tr ++ o) u where
  rounds := hi.step_rounds hs h
  frames := hi.step_frames hs hg h
  operations := hi.step_operations (agentStep_operationsStep hs hg h)
  started k invocation executor hm := by
    rcases List.mem_append.1 hm with hm | hm
    · exact hi.step_started hs hg h hm
    · exact hi.new_started hs h hm

end Step

/-! ## Runs -/

/-- Before the first step of a loop. -/
theorem GateInvariant.init {env : AgentEnv} {s : AgentState} {request : ModelTurnRequest}
    (h : s.loop = .new request) : GateInvariant env [] s where
  rounds := by simp
  frames := by simp [h, LoopState.new]
  operations := by simp
  started := by simp

/-- **The gate holds in every run.** -/
theorem gateInvariant_of_run {env : AgentEnv} {s t : AgentState} {as : List AgentAction}
    {tr : List AgentObs} {request : ModelTurnRequest}
    (h : (agentMachine env).Run (Retained env) s as tr t) (hs : s.table.WellFormed)
    (hloop : s.loop = .new request) : GateInvariant env tr t :=
  h.induction (P := GateInvariant env) (.init hloop) fun hr hi hg hstep =>
    hi.step (agent_wellFormed hr hs) hg (agentStep_of_step hstep)

/-- The run is in the table, and terminal. -/
def RunTable.Ended (t : RunTable) (runId : RunId) : Prop :=
  ∃ r, t.get runId = some r ∧ r.state.isTerminal = true

theorem RunTable.Ended.step {t t' : RunTable} {runId : RunId} (h : t.Ended runId)
    (hstep : TableStep t t') : t'.Ended runId := by
  obtain ⟨r, hr, hterm⟩ := h
  obtain ⟨label, r', hr', hmove⟩ := hstep.persists hr
  exact ⟨r', hr', (hmove.of_terminal hterm).2.1 ▸ hterm⟩

theorem Moved.not_ended {t t' : RunTable} {runId : RunId} {event : RunEvent}
    (h : Moved t runId (.appends event) t') : ¬ t.Ended runId := by
  rintro ⟨r, hr, hterm⟩
  obtain ⟨r₀, r', hr₀, hmove, -⟩ := h.move
  rw [hr, Option.some.injEq] at hr₀
  subst hr₀
  cases (hmove.of_terminal hterm).1

section Ended
variable {env : AgentEnv} {G : AgentState → AgentAction → Prop} {s t u : AgentState} {a : AgentAction}
  {as : List AgentAction} {tr o : List AgentObs}

theorem callStep_admitted {registry : ToolRegistry} {t : RunTable} {k k' : CallKey} {call : ToolCall}
    {phase : CallPhase} {x : CallOutcome} (h : CallStep env registry t k call phase x)
    (hx : .admitted k' ∈ x.2.2) : ∃ event, Moved t env.runId (.appends event) x.2.1 := by
  cases h with
  | admitted hm => exact ⟨_, hm⟩
  | _ => simp [CallPhase.answer] at hx

/-- A run that has ended admits no call. -/
theorem agentStep_not_admitted (hs : s.table.WellFormed) (hend : s.table.Ended env.runId)
    (h : AgentStep env s a u o) (k : CallKey) : .admitted k ∉ o := by
  intro hk
  cases h with
  | host h => simp at hk
  | registerTool | sink => cases hk
  | loop h =>
    obtain ⟨turn, hturn⟩ := h.obs _ hk
    cases hturn
  | @call index a parallel frames frame phase t o hphase hframe henabled h =>
    obtain ⟨event, hm⟩ := callStep_admitted (callStep_of_step hs h) hk
    exact hm.not_ended hend

/-- **The gate.** In every run of the loop, with any calls of the host in between:

* an executor starts only after its arguments have been found valid and the policy, on exactly
  that invocation, has allowed it, or has asked for an operation that was registered and that the
  host has approved; and after the call has been admitted;
* a call that is invalid or denied never starts its executor;
* nor does a call whose operation is pending, rejected, expired, or cancelled before an approval;
* once the run has ended, no further call is admitted. -/
theorem gate_laws {env : AgentEnv} {s t u : AgentState} {as bs : List AgentAction}
    {tr tr' : List AgentObs} {request : ModelTurnRequest}
    (h : (agentMachine env).Run (Retained env) s as tr t) (h' : (agentMachine env).Run (Retained env) t bs tr' u)
    (hs : s.table.WellFormed) (hloop : s.loop = .new request) :
    (∀ k invocation executor, .started k invocation executor ∈ tr ++ tr' →
      (∃ path, GatePath env u.registry k invocation executor path ∧
        (path ++ [AgentObs.admitted k, .started k invocation executor]).Sublist (tr ++ tr')) ∧
      (∀ x ∈ tr ++ tr', ¬ x.Stops k) ∧
      ∀ operation, .registered k operation ∈ tr ++ tr' →
        ∃ r, u.table.operations.get operation.id = some r ∧ r.isApproved = true) ∧
    (t.table.Ended env.runId → ∀ k, .admitted k ∉ tr') := by
  refine ⟨(gateInvariant_of_run (h.append h') hs hloop).started, fun hend k hk => ?_⟩
  have ht := agent_wellFormed h hs
  have hquiet : ∀ k, .admitted k ∉ tr' := by
    refine (h'.induction (P := fun tr' u => u.table.WellFormed ∧ u.table.Ended env.runId ∧
      ∀ k, .admitted k ∉ tr') ⟨ht, hend, by simp⟩ ?_).2.2
    rintro as tr t a u o - ⟨ht, hend, hno⟩ - hstep
    have hst := agentStep_of_step hstep
    have htable := hst.tableStep ht
    refine ⟨htable.wellFormed ht, hend.step htable, fun k hk => ?_⟩
    rcases List.mem_append.1 hk with hk | hk
    · exact hno k hk
    · exact agentStep_not_admitted ht hend hst k hk
  exact hquiet k hk

end Ended

/-- A test for `Retained`. -/
def retainedTest (env : AgentEnv) (s : AgentState) : AgentAction → Bool
  | .host (.step n) => match s.system.calls[n]? with
    | some (.invoked (.operation (.remove runId _))) => runId ≠ env.runId
    | _ => true
  | _ => true

theorem retained_of_test {env : AgentEnv} (s : AgentState) (a : AgentAction)
    (h : retainedTest env s a = true) : Retained env s a := by
  rintro n id rfl hcall
  simp [retainedTest, hcall] at h

/-- The operation that a policy asks for before the tool sends. -/
def sendDraft : PendingOperationDraft :=
  ⟨some ⟨1⟩, .externalSideEffect, .deferredCommit, "send", .object [], none⟩

def sendInvocation : ToolInvocation := ⟨⟨1⟩, "send", .object [], .externalSideEffect⟩

/-- The host begins the commit of the operation, and the executor starts. -/
def approvedSend : List AgentAction :=
  firstTurn [sendCall 1] ++ toDecision 0 ++
    [.call 0 (.decide (.ok noFacts) (.requireApproval sendDraft)), .call 0 (.register ⟨1⟩ 0),
      .call 0 .step, .call 0 .step, .host (.invoke (.operation (.beginCommit ⟨1⟩ ⟨1⟩))),
      .host (.step 0), .call 0 .step, .call 0 .step, .call 0 .step, .call 0 .start]

theorem gate_laws_approvedSend :
    ∃ tr t, (agentMachine sendEnv).Run (Retained sendEnv) sendAgent approvedSend tr t ∧
      .started ⟨1, 0⟩ sendInvocation ⟨0⟩ ∈ tr ∧
      ∃ path, GatePath sendEnv t.registry ⟨1, 0⟩ sendInvocation ⟨0⟩ path ∧
        (path ++ [AgentObs.admitted ⟨1, 0⟩, .started ⟨1, 0⟩ sendInvocation ⟨0⟩]).Sublist tr := by
  have hrun := Machine.exec_run (M := agentMachine sendEnv) (s := sendAgent) (l := approvedSend)
    (g := retainedTest sendEnv) retained_of_test rfl
  have hlaws := gate_laws hrun .nil sendAgent_wellFormed rfl
  rw [List.append_nil] at hlaws
  refine ⟨_, _, hrun, ?started, (hlaws.1 _ _ _ ?started).1⟩
  exact List.mem_of_getElem? (i := 6) rfl

/-- The host approves the operation, and cancels the run once the call is admitted. -/
def cancelAdmitted : List AgentAction :=
  firstTurn [sendCall 1] ++ toDecision 0 ++
    [.call 0 (.decide (.ok noFacts) (.requireApproval { sendDraft with mode := .blockingApproval })),
      .call 0 (.register ⟨1⟩ 0), .call 0 .step, .call 0 .step,
      .host (.invoke (.operation (.resolve ⟨1⟩ ⟨1⟩ (.approve none)))), .host (.step 0),
      .call 0 .step, .call 0 .step, .call 0 .step,
      .host (.invoke (.cancel ⟨1⟩)), .host (.step 1), .host (.step 1)]

/-- The executor of a call starts after its run and its operation have been cancelled. -/
theorem started_after_cancel :
    ∃ tr t o u, (agentMachine sendEnv).Run Free sendAgent cancelAdmitted tr t ∧
      t.table.isCancelled ⟨1⟩ = true ∧
      (∃ r, t.table.operations.get ⟨1⟩ = some r ∧ r.state = .cancelled) ∧
      (agentMachine sendEnv).step t (.call 0 .start) = some (u, o) ∧
      .started ⟨1, 0⟩ sendInvocation ⟨0⟩ ∈ o := by
  have hrun := Machine.exec_free (M := agentMachine sendEnv) (s := sendAgent) (l := cancelAdmitted) rfl
  exact ⟨_, _, _, _, hrun, rfl, ⟨_, rfl, rfl⟩, rfl, List.mem_singleton_self _⟩

end Aifluxon
