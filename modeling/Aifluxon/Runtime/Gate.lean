import Aifluxon.Runtime.AgentStep
import Aifluxon.Runtime.Lifecycle

/-!
# The gate before an executor

* `GatePath` : what is observed before a call is admitted: its arguments are valid, and the policy
  allows it, or asks for an approval that the host then gives;
* `FrameGate`, `FrameClean`, `FrameOperations` : how much of it each phase of a call has behind it;
* `OperationGate` : the host's decision on every operation that the loop has registered;
* `GateInvariant` : all of it, for every call and operation of a state of the loop;
* `callStep_gate`, `callStep_clean`, `callStep_operations` : what a step of a call keeps of it.
-/

namespace Aifluxon

/-! ## Observations of a call -/

/-- The call is stopped: its arguments are invalid, or the policy denies it. -/
def AgentObs.Stops (k : CallKey) (x : AgentObs) : Prop :=
  (∃ error, x = .invalid k error) ∨ ∃ input reason, x = .evaluated k input (.deny reason)

/-- The host approves the operation in the way of its mode. -/
def HostApproval (operation : PendingOperation) (x : AgentObs) : Prop :=
  ∃ c n, x = .host (.invoked (.operation c)) (.returned (.ok (.count n))) ∧ c.approves operation = true

/-- The invocation was prepared for the executor, and the policy saw exactly it. -/
structure Prepared (env : AgentEnv) (registry : ToolRegistry) (invocation : ToolInvocation)
    (executor : ToolExecutor) (input : ToolPolicyInput) : Prop where
  tool : registry.resolve invocation.name = some ⟨input.descriptor, executor⟩
  valid : validateToolArguments env.codec input.descriptor.inputSchema invocation.arguments = .ok ()
  invocation : input.invocation = invocation
  authority : input.authority = env.authority

/-- What is observed before the call `k` is admitted, in its order. -/
inductive GatePath (env : AgentEnv) (registry : ToolRegistry) (k : CallKey) (invocation : ToolInvocation)
    (executor : ToolExecutor) : List AgentObs → Prop where
  | allowed {input : ToolPolicyInput} (h : Prepared env registry invocation executor input) :
      GatePath env registry k invocation executor
        [.validated k invocation, .evaluated k input .allow]
  | approved {input : ToolPolicyInput} {draft : PendingOperationDraft} {id : OperationId} {x : AgentObs}
      (h : Prepared env registry invocation executor input) (hx : HostApproval (draft.bind id env.runId) x) :
      GatePath env registry k invocation executor
        [.validated k invocation, .evaluated k input (.requireApproval draft),
          .registered k (draft.bind id env.runId), x]

/-! ## Records that the host has approved -/

namespace OperationRecord

/-- The host has approved the operation, or begun its commit. -/
def isApproved (r : OperationRecord) : Bool :=
  match r.state with
  | .approved | .cancelled => r.decision.isSome
  | .committing | .committed | .failed _ => true
  | .pending | .rejected | .expired => false

end OperationRecord

section Moves
variable {terminal : Finset RunId} {c : OperationCall} {r r' : OperationRecord}

theorem Move.isApproved (h : Move terminal c r r') (hr : r.isApproved = true) : r'.isApproved = true := by
  cases h with
  | approve _ _ _ hstate | reject _ _ hstate | beginCommit _ _ hstate | expire _ hstate =>
    simp [OperationRecord.isApproved, hstate] at hr
  | finishBlockingApproval result | finishCommit result => cases result <;> rfl
  | cancel hstate =>
    rcases hstate with hstate | hstate
    · simp [OperationRecord.isApproved, hstate] at hr
    · simpa [OperationRecord.isApproved, hstate] using hr

/-- Only the approval of the host leads to `Approved` and `Committing`. -/
theorem Move.approves (h : Move terminal c r r') (hr' : r'.state = .approved ∨ r'.state = .committing) :
    c.approves r.operation = true := by
  cases h with
  | approve data _ hmode => simp [OperationCall.approves, InMemoryOperationStore.isApprove, hmode]
  | beginCommit _ hmode => simp [OperationCall.approves, hmode]
  | reject | cancel | expire => simp at hr'
  | finishBlockingApproval result | finishCommit result =>
    cases result <;> simp [InMemoryOperationStore.resultState] at hr'

/-- A rejected operation holds the rejection, and an approved one a decision. -/
theorem Move.decision (h : Move terminal c r r') :
    (r'.state = .rejected → ∃ reason, r'.decision = some (.reject reason)) ∧
      (r'.state = .approved → r'.decision.isSome = true) := by
  cases h with
  | approve data => exact ⟨by simp, fun _ => rfl⟩
  | reject reason => exact ⟨fun _ => ⟨reason, rfl⟩, by simp⟩
  | beginCommit | cancel | expire => simp
  | finishBlockingApproval result | finishCommit result =>
    cases result <;> simp [InMemoryOperationStore.resultState]

end Moves

/-- A call that leaves an operation in the store moves it at most once. -/
theorem record_apply {s : InMemoryOperationStore} {c : OperationCall} {id : OperationId}
    {r : OperationRecord} (hr : s.get id = some r) (hc : c ≠ .remove r.operation.runId id) :
    ∃ r', (c.apply s).2.get id = some r' ∧ r'.operation = r.operation ∧
      (r' = r ∨ Move s.terminalRuns c r r') := by
  have hch := s.get_apply c id
  have hid := s.keyed id r hr
  rw [hr] at hch
  generalize hx : (c.apply s).2.get id = x at hch
  cases hch with
  | same => exact ⟨r, rfl, rfl, .inl rfl⟩
  | moved hm => exact ⟨_, rfl, hm.source.2, .inr hm⟩
  | removed h => exact absurd (hid ▸ h) hc

/-! ## What the phases of a call have behind them -/

/-- The phases before the executor starts. -/
def CallPhase.unsettled : CallPhase → Bool
  | .consume | .lookup | .prepare | .decide .. | .register .. | .setAwaiting .. | .request .. | .wait ..
  | .resume .. | .emitStarted .. | .select .. => true
  | _ => false

/-- The phases of an admitted call. -/
def CallPhase.underway : CallPhase → Bool
  | .executing .. | .failOperation .. | .finishOperation .. | .record _ | .emitFinished _ => true
  | _ => false

/-- The phases before an operation is registered. -/
def CallPhase.unregistered : CallPhase → Bool
  | .consume | .lookup | .prepare | .decide .. | .register .. => true
  | _ => false

/-- What has been observed of a call in a phase before its executor starts. -/
def FrameGate (env : AgentEnv) (registry : ToolRegistry) (tr : List AgentObs) (k : CallKey)
    (call : ToolCall) : CallPhase → Prop
  | .decide invocation executor => invocation.name = call.name ∧
    (∃ descriptor, registry.resolve invocation.name = some ⟨descriptor, executor⟩ ∧
      validateToolArguments env.codec descriptor.inputSchema invocation.arguments = .ok ()) ∧
    [AgentObs.validated k invocation].Sublist tr
  | .register draft invocation executor => ∃ input, Prepared env registry invocation executor input ∧
    [AgentObs.validated k invocation, .evaluated k input (.requireApproval draft)].Sublist tr
  | .setAwaiting operation invocation executor | .request operation invocation executor
  | .wait operation invocation executor => ∃ input draft id, operation = draft.bind id env.runId ∧
    Prepared env registry invocation executor input ∧
    [AgentObs.validated k invocation, .evaluated k input (.requireApproval draft),
      .registered k operation].Sublist tr
  | .resume _ invocation executor | .emitStarted invocation executor _ =>
    ∃ path, GatePath env registry k invocation executor path ∧ path.Sublist tr
  | .select invocation executor _ =>
    ∃ path, GatePath env registry k invocation executor path ∧ (path ++ [AgentObs.admitted k]).Sublist tr
  | _ => True

/-- What has not been observed of a call. -/
structure FrameClean (tr : List AgentObs) (k : CallKey) (phase : CallPhase) : Prop where
  started : phase.unsettled = true → ∀ invocation executor, .started k invocation executor ∉ tr
  stopped : phase.unsettled = true ∨ phase.underway = true → ∀ x ∈ tr, ¬ x.Stops k
  registered : phase.unregistered = true → ∀ operation, .registered k operation ∉ tr

/-- The host has approved the operation under the identifier. -/
def HostApproved (s : InMemoryOperationStore) (id : OperationId) : Prop :=
  ∃ r, s.get id = some r ∧ r.isApproved = true

/-- The operations that a call has registered: its own while it waits, approved once it goes on. -/
def FrameOperations (s : InMemoryOperationStore) (tr : List AgentObs) (k : CallKey) : CallPhase → Prop
  | .setAwaiting operation _ _ | .request operation _ _ | .wait operation _ _ =>
    ∀ operation', .registered k operation' ∈ tr → operation' = operation
  | .resume .. | .emitStarted .. | .select .. =>
    ∀ operation, .registered k operation ∈ tr → HostApproved s operation.id
  | _ => True

/-- The decisions on the operations that the loop has registered. -/
structure OperationGate (env : AgentEnv) (s : InMemoryOperationStore) (tr : List AgentObs) (k : CallKey)
    (operation : PendingOperation) : Prop where
  runId : operation.runId = env.runId
  record : ∃ r, s.get operation.id = some r ∧ r.operation = operation ∧
    (r.state = .rejected → ∃ reason, r.decision = some (.reject reason)) ∧
    (r.state = .approved → r.decision.isSome = true) ∧
    (r.state = .approved ∨ r.state = .committing →
      ∀ l, (l ++ [.registered k operation]).Sublist tr →
        ∃ x, HostApproval operation x ∧ (l ++ [.registered k operation, x]).Sublist tr)

/-- What holds of every state that the loop reaches with the trace `tr`. -/
structure GateInvariant (env : AgentEnv) (tr : List AgentObs) (s : AgentState) : Prop where
  rounds : ∀ x ∈ tr, ∀ k, x.key? = some k → k.round ≤ s.loop.round
  frames : ∀ parallel frames, s.loop.phase = .batch parallel frames → ∀ (i : Nat) frame,
    frames[i]? = some frame →
    FrameGate env s.registry tr ⟨s.loop.round, i⟩ frame.call frame.phase ∧
      FrameClean tr ⟨s.loop.round, i⟩ frame.phase ∧
      FrameOperations s.table.operations tr ⟨s.loop.round, i⟩ frame.phase
  operations : ∀ k operation, .registered k operation ∈ tr →
    OperationGate env s.table.operations tr k operation
  started : ∀ k invocation executor, .started k invocation executor ∈ tr →
    (∃ path, GatePath env s.registry k invocation executor path ∧
      (path ++ [AgentObs.admitted k, .started k invocation executor]).Sublist tr) ∧
    (∀ x ∈ tr, ¬ x.Stops k) ∧
    ∀ operation, .registered k operation ∈ tr → HostApproved s.table.operations operation.id

/-! ## What later steps keep -/

/-- Registered tools stay as they are. -/
def Extends (registry registry' : ToolRegistry) : Prop :=
  ∀ name tool, registry.resolve name = some tool → registry'.resolve name = some tool

theorem Extends.refl (registry : ToolRegistry) : Extends registry registry := fun _ _ h => h

theorem extends_register (registry : ToolRegistry) (descriptor : ToolDescriptor)
    (executor : ToolExecutor) : Extends registry (registry.register descriptor executor).2 := by
  intro name tool h
  unfold ToolRegistry.register
  split
  · exact h
  rename_i hnew
  rw [ToolRegistry.resolve, HashMap.lookup_insert_ite, if_neg]
  · exact h
  · rintro rfl
    exact hnew (Option.isSome_iff_exists.2 ⟨tool, h⟩)

section Mono
variable {env : AgentEnv} {registry registry' : ToolRegistry} {tr o : List AgentObs} {k : CallKey}
  {call : ToolCall} {phase : CallPhase} {invocation : ToolInvocation} {executor : ToolExecutor}

theorem Prepared.mono {input : ToolPolicyInput} (h : Prepared env registry invocation executor input)
    (hr : Extends registry registry') : Prepared env registry' invocation executor input :=
  ⟨hr _ _ h.tool, h.valid, h.invocation, h.authority⟩

theorem GatePath.mono {path : List AgentObs} (h : GatePath env registry k invocation executor path)
    (hr : Extends registry registry') : GatePath env registry' k invocation executor path := by
  cases h with
  | allowed h => exact .allowed (h.mono hr)
  | approved h hx => exact .approved (h.mono hr) hx

theorem FrameGate.mono (h : FrameGate env registry tr k call phase) (hr : Extends registry registry') :
    FrameGate env registry' (tr ++ o) k call phase := by
  cases phase with
  | decide =>
    obtain ⟨hname, ⟨descriptor, hreg, hvalid⟩, hsub⟩ := h
    exact ⟨hname, ⟨descriptor, hr _ _ hreg, hvalid⟩, sublist_mono hsub⟩
  | register =>
    obtain ⟨input, hprep, hsub⟩ := h
    exact ⟨input, hprep.mono hr, sublist_mono hsub⟩
  | setAwaiting | request | wait =>
    obtain ⟨input, draft, id, hop, hprep, hsub⟩ := h
    exact ⟨input, draft, id, hop, hprep.mono hr, sublist_mono hsub⟩
  | resume | emitStarted | select =>
    obtain ⟨path, hpath, hsub⟩ := h
    exact ⟨path, hpath.mono hr, sublist_mono hsub⟩
  | _ => trivial

theorem AgentObs.Stops.key {x : AgentObs} (h : x.Stops k) : x.key? = some k := by
  obtain ⟨error, rfl⟩ | ⟨input, reason, rfl⟩ := h <;> rfl

/-- An observation of the call is an old one, when the step has emitted none of it. -/
theorem mem_of_key (ho : ∀ x ∈ o, x.key? ≠ some k) {x : AgentObs} (hx : x ∈ tr ++ o)
    (hk : x.key? = some k) : x ∈ tr := by
  rcases List.mem_append.1 hx with hx | hx
  · exact hx
  · exact absurd hk (ho x hx)

theorem FrameClean.mono (h : FrameClean tr k phase) (ho : ∀ x ∈ o, x.key? ≠ some k) :
    FrameClean (tr ++ o) k phase where
  started hp invocation executor hx := h.started hp invocation executor (mem_of_key ho hx rfl)
  stopped hp x hx hstop := h.stopped hp x (mem_of_key ho hx hstop.key) hstop
  registered hp operation hx := h.registered hp operation (mem_of_key ho hx rfl)

theorem FrameOperations.mono {s s' : InMemoryOperationStore} (h : FrameOperations s tr k phase)
    (ho : ∀ x ∈ o, x.key? ≠ some k)
    (hs : ∀ operation, .registered k operation ∈ tr → HostApproved s operation.id →
      HostApproved s' operation.id) : FrameOperations s' (tr ++ o) k phase := by
  cases phase with
  | setAwaiting | request | wait => exact fun operation hx => h operation (mem_of_key ho hx rfl)
  | resume | emitStarted | select =>
    intro operation hx
    have hmem := mem_of_key ho hx rfl
    exact hs operation hmem (h operation hmem)
  | _ => trivial

end Mono

/-! ## Steps of the operation store -/

/-- What a step of the machine does to the operations, and what it emits with it. -/
inductive OperationsStep (env : AgentEnv) (s : InMemoryOperationStore) (o : List AgentObs) :
    InMemoryOperationStore → Prop where
  | same (hno : ∀ k operation, .registered k operation ∉ o) : OperationsStep env s o s
  | hosted (c : OperationCall) (hno : ∀ k operation, .registered k operation ∉ o)
      (hremove : ∀ id, c ≠ .remove env.runId id)
      (hobs : ∀ operation n, c.approves operation = true → (c.apply s).1 = .ok n →
        .host (.invoked (.operation c)) (.returned (.ok (.count n))) ∈ o) :
      OperationsStep env s o (c.apply s).2
  | registered (k : CallKey) (now : SystemTime) (operation : PendingOperation)
      (ho : o = [.registered k operation]) (hrun : operation.runId = env.runId)
      (h : Registrable s now operation) :
      OperationsStep env s o ((OperationCall.register now operation).apply s).2
  | finished (id : OperationId) (mode : OperationMode) (result : Except String Unit)
      (hno : ∀ k operation, .registered k operation ∉ o) :
      OperationsStep env s o ((CallPhase.finishCall env.runId id mode result).apply s).2

section OperationsStep
variable {env : AgentEnv} {s s' : InMemoryOperationStore} {tr o : List AgentObs}

/-- The record of an operation of the run stays, or moves by a call that says so. -/
theorem OperationsStep.record (h : OperationsStep env s o s') {id : OperationId} {r : OperationRecord}
    (hr : s.get id = some r) (hrun : r.operation.runId = env.runId) :
    ∃ r', s'.get id = some r' ∧ r'.operation = r.operation ∧ (r' = r ∨
      ∃ c, Move s.terminalRuns c r r' ∧ (r'.state = .approved ∨ r'.state = .committing →
        ∃ x ∈ o, HostApproval r.operation x)) := by
  have hmove {c : OperationCall} (hc : ∀ i, c ≠ .remove env.runId i)
      (happ : ∀ r', Move s.terminalRuns c r r' → (c.apply s).2.get id = some r' →
        r'.state = .approved ∨ r'.state = .committing → ∃ x ∈ o, HostApproval r.operation x) :
      ∃ r', (c.apply s).2.get id = some r' ∧ r'.operation = r.operation ∧ (r' = r ∨
        ∃ c, Move s.terminalRuns c r r' ∧ (r'.state = .approved ∨ r'.state = .committing →
          ∃ x ∈ o, HostApproval r.operation x)) := by
    obtain ⟨r', hr', hop, hm⟩ := record_apply hr (hrun ▸ hc id)
    exact ⟨r', hr', hop, hm.imp_right fun hm => ⟨c, hm, happ r' hm hr'⟩⟩
  cases h with
  | same => exact ⟨r, hr, rfl, .inl rfl⟩
  | hosted c _ hremove hobs =>
    refine hmove hremove fun r' hm hr' hstate => ?_
    have happ := hm.approves hstate
    obtain ⟨e, he⟩ | ⟨⟨n, hn⟩, -⟩ := s.apply_cases c
    · rw [he, hr, Option.some.injEq] at hr'
      subst hr'
      exact absurd hm.lifecycle.1.rank_lt (lt_irrefl _)
    · exact ⟨_, hobs _ n happ hn, c, n, rfl, happ⟩
  | registered k now operation =>
    exact hmove (by simp) fun r' hm => by cases hm
  | finished id' mode result =>
    refine hmove (by cases mode <;> simp [CallPhase.finishCall]) fun r' hm _ hstate => ?_
    have happ := hm.approves hstate
    cases mode <;> simp [CallPhase.finishCall, OperationCall.approves] at happ

/-- The host's decision on an operation is kept, and a new one is observed. -/
theorem OperationGate.step {k : CallKey} {operation : PendingOperation}
    (h : OperationGate env s tr k operation) (hs : OperationsStep env s o s')
    (hk : .registered k operation ∉ o) : OperationGate env s' (tr ++ o) k operation := by
  obtain ⟨hrun, r, hr, hop, hrejected, hdecided, happroved⟩ := h
  subst hop
  obtain ⟨r', hr', hop', hm⟩ := hs.record hr hrun
  refine ⟨hrun, r', hr', hop', ?_⟩
  rcases hm with rfl | ⟨c, hm, hx⟩
  · refine ⟨hrejected, hdecided, fun hstate l hl => ?_⟩
    obtain ⟨x, hx, hsub⟩ := happroved hstate l (sublist_of_snoc hl hk)
    exact ⟨x, hx, sublist_mono hsub⟩
  · refine ⟨hm.decision.1, hm.decision.2, fun hstate l hl => ?_⟩
    obtain ⟨x, hxo, hxa⟩ := hx hstate
    refine ⟨x, hxa, ?_⟩
    have hsub := sublist_snoc (sublist_of_snoc hl hk) hxo
    simpa using hsub

theorem HostApproved.step {id : OperationId} {r : OperationRecord} (h : HostApproved s id)
    (hs : OperationsStep env s o s') (hr : s.get id = some r) (hrun : r.operation.runId = env.runId) :
    HostApproved s' id := by
  obtain ⟨r₀, hr₀, happ⟩ := h
  rw [hr, Option.some.injEq] at hr₀
  subst hr₀
  obtain ⟨r', hr', -, hm⟩ := hs.record hr hrun
  refine ⟨r', hr', ?_⟩
  rcases hm with rfl | ⟨c, hm, -⟩
  · exact happ
  · exact hm.isApproved happ

theorem get_register {now : SystemTime} {operation : PendingOperation}
    (h : Registrable s now operation) :
    ((OperationCall.register now operation).apply s).2.get operation.id =
      some ⟨operation, .pending, none⟩ := by
  obtain ⟨hrun, hnew, hdeadline⟩ := h
  simp [OperationCall.apply, InMemoryOperationStore.register, hrun, hnew, hdeadline]

end OperationsStep

/-! ## Steps of a call -/

theorem pollHost_ok {t : RunTable} {runId : RunId} {operation : PendingOperation} {decision : OperationDecision}
    (h : CallPhase.pollHost t runId operation = some (.ok decision)) :
    ∃ r, t.operations.get operation.id = some r ∧ r.operation.runId = runId ∧
      r.operation.mode = operation.mode ∧
        ((r.state = .approved ∨ r.state = .rejected) ∧ r.decision = some decision ∨
          r.state = .committing ∧ decision = .approve none) := by
  unfold CallPhase.pollHost at h
  split at h <;> rename_i hmode
  · unfold InMemoryOperationStore.pollWait at h
    split at h
    · cases h
    rename_i r hrec
    obtain ⟨hr, hrun⟩ := InMemoryOperationStore.recordForRun_ok.1 hrec
    split at h
    · cases h
    rename_i hblocking
    refine ⟨r, hr, hrun, by rw [hmode]; simpa using hblocking, ?_⟩
    split at h <;> try cases h
    · split at h <;> cases h
      exact .inl ⟨.inl ‹_›, ‹_›⟩
    · split at h <;> cases h
      exact .inl ⟨.inr ‹_›, ‹_›⟩
  · unfold InMemoryOperationStore.pollWaitForCommitOrReject at h
    split at h
    · cases h
    rename_i r hrec
    obtain ⟨hr, hrun⟩ := InMemoryOperationStore.recordForRun_ok.1 hrec
    split at h
    · cases h
    rename_i hdeferred
    refine ⟨r, hr, hrun, by rw [hmode]; simpa using hdeferred, ?_⟩
    split at h <;> try cases h
    · exact .inr ⟨‹_›, rfl⟩
    · split at h <;> cases h
      exact .inl ⟨.inr ‹_›, ‹_›⟩

section CallStep
variable {env : AgentEnv} {registry : ToolRegistry} {t : RunTable} {tr : List AgentObs} {k : CallKey}
  {call : ToolCall} {phase : CallPhase} {x : CallOutcome}

/-- The operation of a waiting call is among those that the loop has registered. -/
theorem registered_of_wait {operation : PendingOperation} {invocation : ToolInvocation}
    {executor : ToolExecutor} (h : FrameGate env registry tr k call (.wait operation invocation executor)) :
    .registered k operation ∈ tr := by
  obtain ⟨input, draft, id, -, -, hsub⟩ := h
  exact hsub.subset (by simp)

/-- An operation that a waiter takes for approved has been approved by the host. -/
theorem approved_of_poll {operation : PendingOperation} {data : Option Value}
    (hg : OperationGate env t.operations tr k operation)
    (h : CallPhase.pollHost t env.runId operation = some (.ok (.approve data))) :
    HostApproved t.operations operation.id ∧
      ∀ l, (l ++ [.registered k operation]).Sublist tr →
        ∃ y, HostApproval operation y ∧ (l ++ [.registered k operation, y]).Sublist tr := by
  obtain ⟨r, hr, -, -, hstate⟩ := pollHost_ok h
  obtain ⟨r', hr', -, hrejected, hdecided, happroved⟩ := hg.record
  rw [hr, Option.some.injEq] at hr'
  subst hr'
  rcases hstate with ⟨hstate | hstate, hdecision⟩ | ⟨hstate, -⟩
  · refine ⟨⟨r, hr, ?_⟩, happroved (.inl hstate)⟩
    simpa [OperationRecord.isApproved, hstate] using hdecided hstate
  · obtain ⟨reason, hreason⟩ := hrejected hstate
    rw [hreason] at hdecision
    cases hdecision
  · exact ⟨⟨r, hr, by simp [OperationRecord.isApproved, hstate]⟩, happroved (.inr hstate)⟩

theorem callStep_gate (h : CallStep env registry t k call phase x)
    (hg : FrameGate env registry tr k call phase)
    (hops : ∀ operation, .registered k operation ∈ tr → OperationGate env t.operations tr k operation) :
    FrameGate env registry (tr ++ x.2.2) k call x.1 := by
  cases h with
  | validated hraw hprep =>
    obtain ⟨tool, htool, rfl, hinv⟩ := ToolRegistry.prepareInvocation_ok hprep
    obtain ⟨hname, -⟩ := ToolRegistry.prepareInvocation_name hprep
    obtain ⟨arguments, -, hvalid, rfl⟩ := prepareWithDescriptor_ok env.codec hinv
    refine ⟨hname, ⟨tool.descriptor, ?_, hvalid⟩, ?_⟩
    · rw [hname]
      exact htool
    · exact List.singleton_sublist.2 (by simp)
  | @allowed invocation executor registered facts hreg =>
    obtain ⟨hname, ⟨descriptor, hdesc, hvalid⟩, hsub⟩ := hg
    rw [← hname, hdesc, Option.some.injEq] at hreg
    subst hreg
    have hprep : Prepared env registry invocation executor
        ⟨descriptor, invocation, facts, env.authority⟩ := ⟨hdesc, hvalid, rfl, rfl⟩
    exact ⟨_, .allowed hprep, sublist_snoc hsub (by simp)⟩
  | @approvalRequired invocation executor registered facts draft hreg =>
    obtain ⟨hname, ⟨descriptor, hdesc, hvalid⟩, hsub⟩ := hg
    rw [← hname, hdesc, Option.some.injEq] at hreg
    subst hreg
    have hprep : Prepared env registry invocation executor
        ⟨descriptor, invocation, facts, env.authority⟩ := ⟨hdesc, hvalid, rfl, rfl⟩
    exact ⟨_, hprep, sublist_snoc hsub (by simp)⟩
  | @registered draft invocation executor id now _ =>
    obtain ⟨input, hprep, hsub⟩ := hg
    exact ⟨input, draft, id, rfl, hprep, sublist_snoc hsub (by simp)⟩
  | awaiting | requested =>
    obtain ⟨input, draft, id, hop, hprep, hsub⟩ := hg
    exact ⟨input, draft, id, hop, hprep, sublist_mono hsub⟩
  | approved hpoll =>
    have hmem := registered_of_wait hg
    obtain ⟨input, draft, id, rfl, hprep, hsub⟩ := hg
    obtain ⟨y, hy, hsub'⟩ := (approved_of_poll (hops _ hmem) hpoll).2
      [.validated k _, .evaluated k input (.requireApproval draft)] hsub
    exact ⟨_, .approved hprep hy, sublist_mono hsub'⟩
  | resumed =>
    obtain ⟨path, hpath, hsub⟩ := hg
    exact ⟨path, hpath, sublist_mono hsub⟩
  | admitted =>
    obtain ⟨path, hpath, hsub⟩ := hg
    exact ⟨path, hpath, sublist_snoc hsub (by simp)⟩
  | _ => trivial

theorem callStep_clean (h : CallStep env registry t k call phase x) (hc : FrameClean tr k phase) :
    FrameClean (tr ++ x.2.2) k x.1 := by
  have hquiet (hs : ∀ invocation executor, .started k invocation executor ∉ x.2.2)
      (hst : ∀ y ∈ x.2.2, ¬ y.Stops k) (hr : ∀ operation, .registered k operation ∉ x.2.2)
      (h₁ : x.1.unsettled = true → phase.unsettled = true)
      (h₂ : x.1.underway = true → phase.unsettled = true ∨ phase.underway = true)
      (h₃ : x.1.unregistered = true → phase.unregistered = true) : FrameClean (tr ++ x.2.2) k x.1 := by
    refine ⟨fun hp i e hm => ?_, fun hp y hm => ?_, fun hp op hm => ?_⟩
    · rcases List.mem_append.1 hm with hm | hm
      · exact hc.started (h₁ hp) i e hm
      · exact hs i e hm
    · rcases List.mem_append.1 hm with hm | hm
      · exact hc.stopped (hp.elim (fun hp => .inl (h₁ hp)) h₂) y hm
      · exact hst y hm
    · rcases List.mem_append.1 hm with hm | hm
      · exact hc.registered (h₃ hp) op hm
      · exact hr op hm
  cases h with
  | started =>
    refine ⟨by simp [CallPhase.unsettled], fun _ y hm => ?_, by simp [CallPhase.unregistered]⟩
    rcases List.mem_append.1 hm with hm | hm
    · exact hc.stopped (.inl rfl) y hm
    · rw [List.mem_singleton.1 hm]
      simp [AgentObs.Stops]
  | registered =>
    refine ⟨fun _ i e hm => ?_, fun _ y hm => ?_, by simp [CallPhase.unregistered]⟩
    · rcases List.mem_append.1 hm with hm | hm
      · exact hc.started rfl i e hm
      · simp at hm
    · rcases List.mem_append.1 hm with hm | hm
      · exact hc.stopped (.inl rfl) y hm
      · rw [List.mem_singleton.1 hm]
        simp [AgentObs.Stops]
  | invalid | denied =>
    exact ⟨by simp [CallPhase.unsettled, CallPhase.answer],
      by simp [CallPhase.unsettled, CallPhase.underway, CallPhase.answer],
      by simp [CallPhase.unregistered, CallPhase.answer]⟩
  | _ =>
    refine hquiet ?_ ?_ ?_ ?_ ?_ ?_ <;>
      simp [CallPhase.unsettled, CallPhase.underway, CallPhase.unregistered, CallPhase.answer,
        AgentObs.Stops]

/-- The operations of a call: its own while it waits for the host, and approved once it goes on. -/
theorem callStep_operations (h : CallStep env registry t k call phase x)
    (hg : FrameGate env registry tr k call phase) (hc : FrameClean tr k phase)
    (hf : FrameOperations t.operations tr k phase)
    (hops : ∀ operation, .registered k operation ∈ tr → OperationGate env t.operations tr k operation)
    (hkept : ∀ operation, .registered k operation ∈ tr → HostApproved t.operations operation.id →
      HostApproved x.2.1.operations operation.id) :
    FrameOperations x.2.1.operations (tr ++ x.2.2) k x.1 := by
  cases h with
  | allowed =>
    intro operation hm
    rcases List.mem_append.1 hm with hm | hm
    · exact absurd hm (hc.registered rfl operation)
    · simp at hm
  | registered =>
    intro operation hm
    rcases List.mem_append.1 hm with hm | hm
    · exact absurd hm (hc.registered rfl operation)
    · simpa using hm
  | awaiting | requested =>
    intro operation hm
    exact hf operation (by simpa using hm)
  | approved hpoll =>
    intro operation hm
    have hmem : AgentObs.registered k operation ∈ tr := by simpa using hm
    obtain rfl := hf operation hmem
    exact (approved_of_poll (hops _ hmem) hpoll).1
  | resumed | admitted =>
    intro operation hm
    have hmem : AgentObs.registered k operation ∈ tr := by simpa using hm
    exact hkept operation hmem (hf operation hmem)
  | _ => trivial

/-- A call is denied, found invalid or registered before its executor starts. -/
theorem callStep_settled (h : CallStep env registry t k call phase x) {y : AgentObs} (hy : y ∈ x.2.2)
    (hstop : y.Stops k ∨ ∃ operation, y = .registered k operation) : phase.unsettled = true := by
  cases h with
  | invalid | denied | registered => rfl
  | _ =>
    exfalso
    revert hstop
    simp only [CallPhase.answer, List.nil_append, List.mem_cons, List.not_mem_nil, or_false] at hy
    all_goals try subst hy
    all_goals simp [AgentObs.Stops] at *

end CallStep

end Aifluxon
