import Aifluxon.Runtime.GateLaws
import Aifluxon.Runtime.Once

/-!
# The operations that the loop holds

An operation that the loop of a run registers stays open only while a call of its batch works on it.

* `OperationRecord.Lawful` : what the states `Approved` and `Committing` say of a record;
* `CallPhase.Holds` : the phases of a call between the registration of its operation and its end;
* `pollHost_open`, `finishCall_open` : the two calls of the loop on an open operation;
* `callStep_holds` : every exit of a call has closed its operation, or the run has ended;
* `HeldOperations`, `HeldOperations.step` : the invariant of the loop, with the calls of the host between.
-/

namespace Aifluxon

/-! ## Records -/

/-- Only a blocking approval is approved, and only a deferred commit begins. -/
structure OperationRecord.Lawful (r : OperationRecord) : Prop where
  approved : r.state = .approved →
    r.operation.mode = .blockingApproval ∧ ∃ data, r.decision = some (.approve data)
  committing : r.state = .committing → r.operation.mode = .deferredCommit

theorem Move.lawful {terminal : Finset RunId} {c : OperationCall} {r r' : OperationRecord}
    (h : Move terminal c r r') : r'.Lawful := by
  cases h with
  | approve data _ hmode => exact ⟨fun _ => ⟨hmode, data, rfl⟩, nofun⟩
  | beginCommit _ hmode => exact ⟨nofun, fun _ => hmode⟩
  | finishBlockingApproval result | finishCommit result => cases result <;> exact ⟨nofun, nofun⟩
  | _ => exact ⟨nofun, nofun⟩

/-- An open operation of the run, under its identifier. -/
structure OpenRecord (s : InMemoryOperationStore) (runId : RunId) (id : OperationId) (r : OperationRecord) :
    Prop where
  get : s.get id = some r
  runId : r.operation.runId = runId
  isOpen : r.state.isTerminal = false

/-- The record of an open operation: it was open before, and has made one move or none. -/
def OpenBefore (s : InMemoryOperationStore) (runId : RunId) (id : OperationId) (r' : OperationRecord) : Prop :=
  ∃ r, OpenRecord s runId id r ∧ (r' = r ∨ ∃ c, Move s.terminalRuns c r r')

/-- The record of an open operation comes from a registration, or from an open one. -/
theorem OpenRecord.apply {s : InMemoryOperationStore} {c : OperationCall} {runId : RunId} {id : OperationId}
    {r' : OperationRecord} (h : OpenRecord (c.apply s).2 runId id r') :
    (∃ now operation, c = .register now operation ∧ Registrable s now operation ∧
        operation.runId = runId ∧ r' = ⟨operation, .pending, none⟩) ∨
      OpenBefore s runId id r' := by
  have hchange := s.get_apply c id
  rw [h.get] at hchange
  generalize hold : s.get id = old at hchange
  cases hchange with
  | same => exact .inr ⟨r', ⟨hold, h.runId, h.isOpen⟩, .inl rfl⟩
  | registered hc hid hrun hdeadline =>
    exact .inl ⟨_, _, hc, ⟨hrun, hid ▸ hold, hdeadline⟩, h.runId, rfl⟩
  | moved hmove =>
    obtain ⟨hopen, hop⟩ := hmove.source
    exact .inr ⟨_, ⟨hold, hop ▸ h.runId, hopen⟩, .inr ⟨_, hmove⟩⟩

/-! ## Calls that hold an operation -/

/-- The operation that the host approved for a call. -/
def CallPhase.approved? : CallPhase → Approved
  | .emitStarted _ _ approved | .select _ _ approved | .executing _ _ approved | .failOperation _ approved
  | .finishOperation _ approved => approved
  | .resume operation _ _ => some (operation.id, operation.mode)
  | _ => none

/-- The operation that a call waits for. -/
def CallPhase.awaited? : CallPhase → Approved
  | .setAwaiting operation _ _ | .request operation _ _ | .wait operation _ _ =>
    some (operation.id, operation.mode)
  | _ => none

/-- The call works on the operation: it waits for the decision, or has taken an approval up. -/
def CallPhase.Holds (phase : CallPhase) (r : OperationRecord) : Prop :=
  phase.awaited? = some (r.operation.id, r.operation.mode) ∨
    phase.approved? = some (r.operation.id, r.operation.mode) ∧ r.state ≠ .pending

theorem CallPhase.Holds.begun {phase : CallPhase} {r : OperationRecord} (h : phase.Holds r) :
    phase.begun = true := by
  cases phase with
  | consume => rcases h with hnone | ⟨hnone, -⟩ <;> cases hnone
  | _ => rfl

theorem CallPhase.Holds.move {phase : CallPhase} {terminal : Finset RunId} {c : OperationCall}
    {r r' : OperationRecord} (h : phase.Holds r) (hmove : Move terminal c r r') : phase.Holds r' := by
  unfold CallPhase.Holds
  rw [hmove.lifecycle.2]
  exact h.imp id fun ⟨happroved, _⟩ => ⟨happroved, hmove.not_pending⟩

theorem OpenBefore.lawful {s : InMemoryOperationStore} {runId : RunId} {id : OperationId} {r' : OperationRecord}
    (h : OpenBefore s runId id r') (hlawful : ∀ id r, OpenRecord s runId id r → r.Lawful) : r'.Lawful := by
  obtain ⟨r, hr, rfl | ⟨c, hmove⟩⟩ := h
  · exact hlawful id r' hr
  · exact hmove.lawful

theorem CallPhase.Holds.keep {phase : CallPhase} {terminal : Finset RunId} {r r' : OperationRecord}
    (h : phase.Holds r) (hmove : r' = r ∨ ∃ c, Move terminal c r r') : phase.Holds r' := by
  obtain rfl | ⟨c, hmove⟩ := hmove
  · exact h
  · exact h.move hmove

section Host
variable {t : RunTable} {runId : RunId} {id : OperationId} {r : OperationRecord}

theorem pollHost_open (h : OpenRecord t.operations runId id r) (hlawful : r.Lawful) {operation : PendingOperation}
    (hid : operation.id = id) (hmode : operation.mode = r.operation.mode) :
    CallPhase.pollHost t runId operation = none ∨
      r.state ≠ .pending ∧ ∃ data, CallPhase.pollHost t runId operation = some (.ok (.approve data)) := by
  have hrecord : t.operations.recordForRun runId operation.id = .ok r :=
    InMemoryOperationStore.recordForRun_ok.2 ⟨hid ▸ h.get, h.runId⟩
  unfold CallPhase.pollHost InMemoryOperationStore.pollWait InMemoryOperationStore.pollWaitForCommitOrReject
  rw [hrecord, hmode]
  have hopen := h.isOpen
  cases hstate : r.state with
  | pending => cases hm : r.operation.mode <;> simp [hm, hstate]
  | approved =>
    obtain ⟨hm, data, hdecision⟩ := hlawful.approved hstate
    simp [hm, hstate, hdecision]
  | committing => simp [hlawful.committing hstate, hstate]
  | _ =>
    rw [hstate] at hopen
    cases hopen

theorem resultState_terminal (result : Except String Unit) :
    (InMemoryOperationStore.resultState result).isTerminal = true := by
  cases result <;> rfl

/-- The loop finishes an operation that is open and no longer pending. -/
theorem finishCall_modifies (h : OpenRecord t.operations runId id r) (hlawful : r.Lawful)
    (hpending : r.state ≠ .pending) (result : Except String Unit) :
    (CallPhase.finishCall runId id r.operation.mode result).apply t.operations =
      (.ok none, t.operations.modifyRecord id
        (fun r => { r with state := InMemoryOperationStore.resultState result }) fun _ => rfl) := by
  have hrecord : t.operations.recordForRun runId id = .ok r :=
    InMemoryOperationStore.recordForRun_ok.2 ⟨h.get, h.runId⟩
  have hopen := h.isOpen
  cases hstate : r.state with
  | pending => exact absurd hstate hpending
  | approved =>
    have hmode := (hlawful.approved hstate).1
    rw [hmode, CallPhase.finishCall, OperationCall.apply, InMemoryOperationStore.finishBlockingApproval, hrecord]
    simp [hmode, hstate, Except.map]
  | committing =>
    have hmode := hlawful.committing hstate
    rw [hmode, CallPhase.finishCall, OperationCall.apply, InMemoryOperationStore.finishCommit, hrecord]
    simp [hstate, Except.map]
  | _ =>
    rw [hstate] at hopen
    cases hopen

theorem finishCall_open (h : OpenRecord t.operations runId id r) (hlawful : r.Lawful)
    (hpending : r.state ≠ .pending) (result : Except String Unit) :
    (t.operate (CallPhase.finishCall runId id r.operation.mode result)).1 = .ok none ∧ ∀ r',
      ¬ OpenRecord (t.operate (CallPhase.finishCall runId id r.operation.mode result)).2.operations runId id r' := by
  rw [RunTable.operate, finishCall_modifies h hlawful hpending]
  refine ⟨rfl, ?_⟩
  rintro r' ⟨hget, -, hopen⟩
  rw [InMemoryOperationStore.get_modifyRecord, if_pos rfl, h.get] at hget
  cases hget
  rw [resultState_terminal] at hopen
  cases hopen

end Host

/-! ## Steps of a call -/

section CallStep
variable {env : AgentEnv} {registry : ToolRegistry} {t t' : RunTable} {k : CallKey} {call : ToolCall}
  {phase phase' : CallPhase} {o : List AgentObs} {id : OperationId} {r r' : OperationRecord}

theorem OpenRecord.finishCall {s : InMemoryOperationStore} {runId : RunId} {id' : OperationId}
    {mode : OperationMode} {result : Except String Unit}
    (h : OpenRecord ((CallPhase.finishCall env.runId id' mode result).apply s).2 runId id r') :
    OpenBefore s runId id r' := by
  rcases h.apply with ⟨now, operation, hc, -⟩ | hbefore
  · cases mode <;> cases hc
  · exact hbefore

/-- An open operation after a step of a call was open before, or is held by the call that registers it. -/
theorem callStep_open (h : CallStep env registry t k call phase (phase', t', o))
    (hr' : OpenRecord t'.operations env.runId id r') :
    phase'.Holds r' ∧ r'.Lawful ∨ OpenBefore t.operations env.runId id r' := by
  have hsame (hops : t'.operations = t.operations) : OpenBefore t.operations env.runId id r' :=
    ⟨r', hops ▸ hr', .inl rfl⟩
  cases h with
  | consumed h | consumeFailed _ h => exact .inr (hsame h.operations)
  | invalidStarted h | invalidFinished h | awaiting h | requested h | resumed h | refused h | admitted h
  | recorded h | answered h => exact .inr (hsame h.operations)
  | registerFailed _ h | sectionFailed _ _ _ h => exact .inr (hsame h.operations)
  | finishFailed h => exact .inr (hsame (operate_same h).operations)
  | registered =>
    rcases hr'.apply with ⟨now, operation, hc, -, -, rfl⟩ | hbefore
    · cases hc
      exact .inl ⟨.inl rfl, nofun, nofun⟩
    · exact .inr hbefore
  | failApproved => exact .inr hr'.finishCall
  | finishApproved => exact .inr hr'.finishCall
  | _ => exact .inr (hsame rfl)

/-- **Every exit of a call** has closed the operation that it held, or the run is closed. -/
theorem callStep_holds (h : CallStep env registry t k call phase (phase', t', o))
    (hr : OpenRecord t.operations env.runId id r) (hlawful : r.Lawful) (hholds : phase.Holds r)
    (hr' : OpenRecord t'.operations env.runId id r') :
    phase'.Holds r ∨ t.Closed env.runId ∧ ∃ e, phase' = .done (.error e) := by
  have hid : r.operation.id = id := t.operations.keyed id r hr.get
  -- what the loop waits for, and what it has been granted
  have hwait {operation : PendingOperation} {invocation : ToolInvocation} {executor : ToolExecutor}
      (hphase : (CallPhase.wait operation invocation executor).Holds r) :
      operation.id = id ∧ operation.mode = r.operation.mode := by
    obtain hawaited | ⟨hnone, -⟩ := hphase
    · obtain ⟨hop, hmode⟩ := Prod.mk.inj (Option.some.inj hawaited)
      exact ⟨hop.trans hid, hmode⟩
    · cases hnone
  have hgranted {id' : OperationId} {mode : OperationMode}
      (happroved : phase.approved? = some (id', mode)) (hnone : phase.awaited? = none) :
      id' = id ∧ mode = r.operation.mode ∧ r.state ≠ .pending := by
    obtain hawaited | ⟨hsome, hpending⟩ := hholds
    · rw [hnone] at hawaited
      cases hawaited
    · rw [happroved] at hsome
      cases hsome
      exact ⟨hid, rfl, hpending⟩
  cases h with
  | awaiting | requested => exact .inl hholds
  | waitFailed h =>
    obtain ⟨hwid, hmode⟩ := hwait hholds
    rcases pollHost_open hr hlawful hwid hmode with hpoll | ⟨-, data, hpoll⟩ <;> rw [hpoll] at h <;> cases h
  | approved h =>
    obtain ⟨hwid, hmode⟩ := hwait hholds
    rcases pollHost_open hr hlawful hwid hmode with hpoll | ⟨hpending, -⟩
    · rw [hpoll] at h
      cases h
    · rcases hholds with hawaited | ⟨hnone, -⟩
      · exact .inl (.inr ⟨hawaited, hpending⟩)
      · cases hnone
  | rejected h =>
    obtain ⟨hwid, hmode⟩ := hwait hholds
    rcases pollHost_open hr hlawful hwid hmode with hpoll | ⟨-, data, hpoll⟩ <;> rw [hpoll] at h <;> cases h
  | resumed | admitted | selectCancelled | started | executionCancelled | failed | completed => exact .inl hholds
  | @failApproved error id' mode =>
    obtain ⟨rfl, rfl, hpending⟩ := hgranted rfl rfl
    exact absurd hr' ((finishCall_open hr hlawful hpending _).2 r')
  | finishApproved =>
    obtain ⟨rfl, rfl, hpending⟩ := hgranted rfl rfl
    exact absurd hr' ((finishCall_open hr hlawful hpending _).2 r')
  | finishFailed h =>
    obtain ⟨rfl, rfl, hpending⟩ := hgranted rfl rfl
    have hok := (finishCall_open hr hlawful hpending (.ok ())).1
    rw [h] at hok
    cases hok
  | sectionFailed e _ hclosed => exact .inr ⟨hclosed, e, rfl⟩
  | _ => rcases hholds with hnone | ⟨hnone, -⟩ <;> cases hnone

end CallStep

/-! ## Batches -/

/-- The calls of the batch that the loop works on. -/
def LoopState.frames (loop : LoopState) : List Frame :=
  match loop.phase with
  | .batch _ frames => frames
  | _ => []

/-- The loop has returned an error, or will return that of a call. -/
def LoopPhase.Failing : LoopPhase → Prop
  | .batch _ frames => ∃ frame ∈ frames, ∃ e, frame.phase = .done (.error e)
  | .returned (.error _) => True
  | _ => False

/-- In a batch that is not parallel a call begins after those before it have succeeded. -/
def Ordered (phase : LoopPhase) : Prop :=
  ∀ frames, phase = .batch false frames → ∀ (i j : Nat) f g, i < j → frames[i]? = some f → frames[j]? = some g →
    g.phase.begun = true → f.isOk = true

section Batch
variable {parallel : Bool} {frames : List Frame} {r : OperationRecord}

theorem Frame.not_holds_of_done {frame : Frame} (h : frame.isDone = true) : ¬ frame.phase.Holds r := by
  unfold Frame.isDone at h
  split at h
  · rename_i hphase
    rw [hphase]
    rintro (hnone | ⟨hnone, -⟩) <;> cases hnone
  · cases h

/-- The error of a batch is that of a call, and the calls before it have succeeded. -/
theorem error_of_collect : ∀ {frames : List Frame} {e : ProviderError}, Frame.collect frames = some (.error e) →
    ∃ (i : Nat) (f : Frame), frames[i]? = some f ∧ f.phase = .done (.error e) ∧
      ∀ (j : Nat) (g : Frame), j < i → frames[j]? = some g → g.isOk = true := by
  intro frames
  induction frames with
  | nil =>
    intro e h
    cases h
  | cons frame frames ih =>
    intro e h
    rw [Frame.collect] at h
    split at h
    · rename_i hphase
      cases h
      exact ⟨0, frame, rfl, hphase, fun j g hj => absurd hj (Nat.not_lt_zero j)⟩
    · rename_i message hphase
      obtain ⟨res, hres, hmap⟩ := Option.map_eq_some_iff.1 h
      cases res with
      | ok => cases hmap
      | error =>
        cases hmap
        obtain ⟨i, f, hf, herror, hbefore⟩ := ih hres
        refine ⟨i + 1, f, hf, herror, fun j g hj hg => ?_⟩
        cases j with
        | zero =>
          cases hg
          unfold Frame.isOk
          rw [hphase]
        | succ j => exact hbefore j g (Nat.lt_of_succ_lt_succ hj) hg
    · cases h

/-- A batch that is joined has no call that holds an operation. -/
theorem not_holds_of_joined (hordered : Ordered (.batch parallel frames))
    {res : Except ProviderError (List Message)} (h : LoopState.joined parallel frames = some res) : ∀ frame ∈ frames, ¬ frame.phase.Holds r := by
  intro frame hframe hholds
  cases res with
  | ok messages => exact Frame.not_holds_of_done (Frame.isDone_of_isOk (ok_of_joined h frame hframe)) hholds
  | error e =>
    unfold LoopState.joined at h
    split at h
    · cases h
    rename_i hall
    cases parallel with
    | true =>
      simp only [Bool.true_and, decide_eq_true_eq, not_not] at hall
      exact Frame.not_holds_of_done (List.all_eq_true.1 hall frame hframe) hholds
    | false =>
      obtain ⟨i, f, hf, herror, hbefore⟩ := error_of_collect h
      obtain ⟨j, hj⟩ := List.getElem?_of_mem hframe
      -- the call stands before the error, is the failed one, or has not begun
      rcases Nat.lt_trichotomy j i with hlt | rfl | hlt
      · exact Frame.not_holds_of_done (Frame.isDone_of_isOk (hbefore j frame hlt hj)) hholds
      · rw [hf] at hj
        cases hj
        exact Frame.not_holds_of_done (by rw [Frame.isDone, herror]) hholds
      · have hok := hordered frames rfl i j f frame hlt hf hj hholds.begun
        rw [Frame.isOk, herror] at hok
        cases hok

theorem not_failing_of_joined {messages : List Message}
    (h : LoopState.joined parallel frames = some (.ok messages)) : ¬ (LoopPhase.batch parallel frames).Failing := by
  rintro ⟨frame, hframe, e, herror⟩
  have hok := ok_of_joined h frame hframe
  rw [Frame.isOk, herror] at hok
  cases hok

end Batch

/-! ## The loop -/

/-- Every open operation of the run is held by a call, unless the run has ended and the loop fails. -/
structure HeldOperations (env : AgentEnv) (s : AgentState) : Prop where
  lawful : ∀ id r, OpenRecord s.table.operations env.runId id r → r.Lawful
  held : ∀ id r, OpenRecord s.table.operations env.runId id r →
    (∃ frame ∈ s.loop.frames, frame.phase.Holds r) ∨ (s.table.Ended env.runId ∧ s.loop.phase.Failing)
  ordered : Ordered s.loop.phase

/-- The host does not register an operation of the run. -/
def Unregistered (runId : RunId) (s : AgentState) (a : AgentAction) : Prop :=
  ∀ (n : Nat) now operation, a = .host (.step n) →
    s.system.calls[n]? = some (.invoked (.operation (.register now operation))) → operation.runId ≠ runId

namespace HeldOperations

variable {env : AgentEnv} {s u : AgentState} {a : AgentAction} {o : List AgentObs}

theorem of_closed (hclosed : ∀ id r, ¬ OpenRecord s.table.operations env.runId id r)
    (hordered : Ordered s.loop.phase) : HeldOperations env s :=
  ⟨fun id r hr => absurd hr (hclosed id r), fun id r hr => absurd hr (hclosed id r), hordered⟩

/-- A loop that neither holds an operation nor fails leaves none open. -/
theorem closed (hi : HeldOperations env s) (hholds : ∀ r, ∀ frame ∈ s.loop.frames, ¬ frame.phase.Holds r)
    (hfailing : ¬ s.loop.phase.Failing) (id : OperationId) (r : OperationRecord) :
    ¬ OpenRecord s.table.operations env.runId id r := by
  intro hr
  rcases hi.held id r hr with ⟨frame, hframe, hholds'⟩ | ⟨-, hfailing'⟩
  · exact hholds r frame hframe hholds'
  · exact hfailing hfailing'

theorem closed_between (hi : HeldOperations env s) (hlive : ∀ res, s.loop.phase ≠ .returned res)
    (hphase : s.loop.phase.batch? = none) (id : OperationId) (r : OperationRecord) :
    ¬ OpenRecord s.table.operations env.runId id r := by
  refine hi.closed (fun r frame hframe => ?_) (fun hfailing => ?_) id r
  · unfold LoopState.frames at hframe
    split at hframe
    · rename_i heq
      rw [heq] at hphase
      cases hphase
    · cases hframe
  · unfold LoopPhase.Failing at hfailing
    split at hfailing
    · rename_i heq
      rw [heq] at hphase
      cases hphase
    · exact hlive _ ‹_›
    · exact hfailing

/-- A step that leaves the loop and opens no operation of the run. -/
theorem same_loop (hi : HeldOperations env s) (hloop : u.loop = s.loop) (htable : TableStep s.table u.table)
    (hopen : ∀ id r', OpenRecord u.table.operations env.runId id r' →
      OpenBefore s.table.operations env.runId id r') :
    HeldOperations env u where
  lawful id r' hr' := (hopen id r' hr').lawful hi.lawful
  held id r' hr' := by
    obtain ⟨r, hr, hmove⟩ := hopen id r' hr'
    rw [hloop]
    rcases hi.held id r hr with ⟨frame, hframe, hholds⟩ | ⟨hended, hfailing⟩
    · exact .inl ⟨frame, hframe, hholds.keep hmove⟩
    · exact .inr ⟨hended.step htable, hfailing⟩
  ordered := hloop ▸ hi.ordered

/-- A section of a call of the host opens no operation of the run. -/
theorem host_open (hs : s.table.WellFormed) {n : Nat} {pc : CallState} (hpc : s.system.calls[n]? = some pc)
    (hg : Unregistered env.runId s (.host (.step n))) {id : OperationId} {r' : OperationRecord}
    (hr' : OpenRecord (pc.step s.table).2.operations env.runId id r') :
    OpenBefore s.table.operations env.runId id r' := by
  obtain heq | ⟨c, heq, hc⟩ := CallState.step_operations hs pc
  · exact ⟨r', heq ▸ hr', .inl rfl⟩
  rw [heq] at hr'
  rcases hr'.apply with ⟨now, operation, rfl, -, hrun, -⟩ | hbefore
  · rcases hc with rfl | ⟨runId, hcancel⟩
    · exact absurd hrun (hg n now operation rfl hpc)
    · cases hcancel
  · exact hbefore

theorem step_loop (hi : HeldOperations env s) {a : LoopAction} {loop : LoopState} {t : RunTable}
    (h : LoopStep env s.registry s.table s.loop a loop t o) :
    HeldOperations env { s.withTable t with loop } := by
  cases h with
  | advanced hlive hphase hphase' _ htable =>
    refine of_closed (fun id r hr => hi.closed_between hlive hphase id r ?_) fun frames heq => ?_
    · exact htable.operations ▸ hr
    · have hphase' : loop.phase.batch? = none := hphase'
      rw [show loop.phase = _ from heq] at hphase'
      cases hphase'
  | dispatched hphase _ _ hphase' =>
    refine of_closed (hi.closed_between (by simp [hphase]) (by rw [hphase]; rfl)) fun frames heq => ?_
    intro i j f g hij hf hg hbegun
    -- no call of the new batch has begun
    have heq : loop.phase = _ := heq
    rw [hphase'] at heq
    obtain ⟨-, rfl⟩ := LoopPhase.batch.inj heq
    rw [List.getElem?_map] at hg
    obtain ⟨call, -, rfl⟩ := Option.map_eq_some_iff.1 hg
    cases hbegun
  | @joined parallel frames res _ hphase hjoined _ hphase' hfailed =>
    have hordered : Ordered loop.phase := fun frames heq => by
      rw [heq] at hphase'
      cases hphase'
    have hframes : s.loop.frames = frames := by rw [LoopState.frames, hphase]
    have hholds (r : OperationRecord) : ∀ frame ∈ s.loop.frames, ¬ frame.phase.Holds r := by
      rw [hframes]
      exact not_holds_of_joined (hphase ▸ hi.ordered) hjoined
    cases res with
    | ok messages => exact of_closed (hi.closed hholds (hphase ▸ not_failing_of_joined hjoined)) hordered
    | error e =>
      refine ⟨hi.lawful, fun id r hr => ?_, hordered⟩
      rcases hi.held id r hr with ⟨frame, hframe, hheld⟩ | ⟨hended, -⟩
      · exact absurd hheld (hholds r frame hframe)
      · refine .inr ⟨hended, ?_⟩
        rw [show loop.phase = _ from hfailed e rfl]
        trivial

section Call
variable {index : Nat} {parallel : Bool} {frames : List Frame} {frame : Frame} {phase : CallPhase} {t : RunTable}

/-- The call of a batch that has made a step stands in the batch. -/
theorem mem_set_self (hframe : frames[index]? = some frame) :
    { frame with phase } ∈ frames.set index { frame with phase } :=
  List.mem_of_getElem? (i := index) (List.getElem?_set_self (List.getElem?_eq_some_iff.1 hframe).1)

theorem mem_set_of_ne (hframe : frames[index]? = some frame) {g : Frame} (hg : g ∈ frames) :
    g = frame ∨ g ∈ frames.set index { frame with phase } := by
  obtain ⟨j, hj⟩ := List.getElem?_of_mem hg
  by_cases hij : index = j
  · subst hij
    rw [hframe] at hj
    exact .inl (Option.some.inj hj).symm
  · exact .inr (List.mem_of_getElem? (i := j) (by rw [List.getElem?_set_ne hij, hj]))

theorem step_call (hi : HeldOperations env s) (hrun : ∃ r, s.table.get env.runId = some r)
    (hphase : s.loop.phase = .batch parallel frames) (hframe : frames[index]? = some frame)
    (henabled : callEnabled parallel frames index = true)
    (h : CallStep env s.registry s.table ⟨s.loop.round, index⟩ frame.call frame.phase (phase, t, o)) :
    HeldOperations env { s.withTable t with
      loop := { s.loop with phase := .batch parallel (frames.set index { frame with phase }) } } where
  lawful id r' hr' := by
    rcases callStep_open h hr' with ⟨-, hlawful⟩ | hbefore
    · exact hlawful
    · exact hbefore.lawful hi.lawful
  held id r' hr' := by
    have hlive := callStep_live h
    rcases callStep_open h hr' with ⟨hholds, -⟩ | ⟨r, hr, hmove⟩
    · exact .inl ⟨_, mem_set_self hframe, hholds⟩
    rcases hi.held id r hr with ⟨g, hg, hholds⟩ | ⟨hended, hfailing⟩
    · rw [LoopState.frames, hphase] at hg
      rcases mem_set_of_ne hframe hg with rfl | hg
      · -- the call itself: it goes on holding the operation, or fails on a closed run
        rcases callStep_holds h hr (hi.lawful id r hr) hholds hr' with hholds | ⟨hclosed, e, rfl⟩
        · exact .inl ⟨_, mem_set_self hframe, hholds.keep hmove⟩
        · obtain ⟨x, hx⟩ := hrun
          exact .inr ⟨RunTable.Ended.step ⟨x, hx, hclosed x hx⟩ h.tableStep, _, mem_set_self hframe, e, rfl⟩
      · exact .inl ⟨g, hg, hholds.keep hmove⟩
    · rw [hphase] at hfailing
      obtain ⟨g, hg, e, herror⟩ := hfailing
      rcases mem_set_of_ne hframe hg with rfl | hg
      · exact absurd herror (hlive _)
      · exact .inr ⟨hended.step h.tableStep, g, hg, e, herror⟩
  ordered := by
    rintro _ heq
    obtain ⟨rfl, rfl⟩ := LoopPhase.batch.inj heq
    exact ordered_set (hi.ordered frames hphase) hframe henabled (callStep_live h)

end Call

/-- **A step keeps the operations held.** -/
theorem step (hi : HeldOperations env s) (hs : s.table.WellFormed) (hrun : ∃ r, s.table.get env.runId = some r)
    (hg : Unregistered env.runId s a) (h : AgentStep env s a u o) : HeldOperations env u := by
  cases h with
  | host h =>
    refine hi.same_loop rfl (tableStep_of_step hs h) fun id r' hr' => ?_
    obtain ⟨call, -, rfl, -⟩ | ⟨n, pc, rfl, hpc, -, rfl, -⟩ := tableMachine_cases h
    · exact ⟨r', hr', .inl rfl⟩
    · exact host_open hs hpc hg hr'
  | registerTool => exact hi.same_loop rfl (.refl _) fun id r' hr' => ⟨r', hr', .inl rfl⟩
  | sink event =>
    have hsection := sink_section hs env.runId event
    refine hi.same_loop rfl hsection.tableStep fun id r' hr' => ⟨r', ?_, .inl rfl⟩
    exact hsection.operations_eq ▸ hr'
  | loop h => exact hi.step_loop h
  | call hphase hframe henabled h => exact hi.step_call hrun hphase hframe henabled (callStep_of_step hs h)

theorem init {request : ModelTurnRequest} (hloop : s.loop = .new request)
    (hops : OperationsTerminal s.table.operations env.runId) : HeldOperations env s := by
  refine of_closed (fun id r hr => ?_) fun frames heq => ?_
  · have hterm := hops id r hr.get hr.runId
    rw [hr.isOpen] at hterm
    cases hterm
  · rw [hloop] at heq
    cases heq

end HeldOperations

end Aifluxon
