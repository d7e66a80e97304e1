import Aifluxon.Runtime.Lifecycle
import Aifluxon.Runtime.TableCalls

/-!
# Finishing a run

`finish` reads the operations, appends the terminal event and marks the run in three critical
sections.

* `OperationsTerminal` : no operation of a run is `Pending`, `Approved` or `Committing`;
* `FinishGap` : a `finish` of the run stands behind its check and has not marked the run;
* `Unraced` : the step does not register an operation in such a gap;
* `finished_without_operations` : then a completed or failed run has no open operation, for ever;
* `committing_in_completed_run` : an operation that comes in the gap outlives its run.
-/

namespace Aifluxon

open Machine (Free)

def OperationsTerminal (s : InMemoryOperationStore) (runId : RunId) : Prop :=
  ∀ id r, s.get id = some r → r.operation.runId = runId → r.state.isTerminal = true

/-- The guards of `register`. -/
def Registrable (s : InMemoryOperationStore) (now : SystemTime) (operation : PendingOperation) : Prop :=
  operation.runId ∉ s.terminalRuns ∧ s.get operation.id = none ∧
    InMemoryOperationStore.deadlinePassed operation now = false

namespace OperationsTerminal

variable {s : InMemoryOperationStore} {runId : RunId}

/-- Only the registration of an operation can open one. -/
theorem apply (h : OperationsTerminal s runId) (c : OperationCall)
    (hc : ∀ now operation, c = .register now operation → operation.runId = runId →
      ¬ Registrable s now operation) : OperationsTerminal (c.apply s).2 runId := by
  intro id r hr hrun
  have hch := s.get_apply c id
  rw [hr] at hch
  generalize hx : s.get id = x at hch
  cases hch with
  | same => exact h id r hx hrun
  | registered hcall hid hlive hdeadline =>
    exact absurd ⟨hlive, hid ▸ hx, hdeadline⟩ (hc _ _ hcall hrun)
  | @moved r₀ _ hm =>
    obtain ⟨hstate, hop⟩ := hm.source
    exact absurd (h id r₀ hx (hop ▸ hrun)) (by simp [hstate])

/-- What the check of `finish` sees. -/
theorem iff_check {t : RunTable} :
    t.hasPendingOperations runId = false ↔ OperationsTerminal t.operations runId := by
  rw [RunTable.hasPendingOperations, List.any_eq_false]
  refine ⟨fun h id r hr hrun => ?_, fun h x hx => ?_⟩
  · have hmem : (⟨r.operation, r.state⟩ : OperationSnapshot) ∈ t.operations.snapshot runId := by
      rw [InMemoryOperationStore.snapshot, List.mem_insertionSort, List.mem_map]
      refine ⟨r, List.mem_filter.2 ⟨HashMap.mem_values.2 ⟨id, hr⟩, ?_⟩, rfl⟩
      simpa using hrun
    simpa using h _ hmem
  · rw [InMemoryOperationStore.snapshot, List.mem_insertionSort, List.mem_map] at hx
    obtain ⟨r, hr, rfl⟩ := hx
    obtain ⟨hmem, hrun⟩ := List.mem_filter.1 hr
    obtain ⟨id, hget⟩ := HashMap.mem_values.1 hmem
    simpa using h id r hget (by simpa using hrun)

end OperationsTerminal

/-! ## What a section does to states and operations -/

namespace CallState

variable {t : RunTable} {id : RunId} {r r' : RunRecord}

/-- A terminal event is appended by the second section of a `finish`, or by a cancel. -/
theorem Appends.terminal {pc : CallState} {event : RunEvent} {state : RunState} (h : pc.Appends id event)
    (hfinal : event.terminalState = some state) :
    (∃ f, pc = .finishRecord id f ∧ state = f.state) ∨ state = .cancelled := by
  unfold Appends at h
  split at h
  · rw [h.2] at hfinal
    cases hfinal
  · rw [h.2.1, h.2.2] at hfinal
    cases hfinal
  · rename_i f
    obtain ⟨rfl, rfl⟩ := h
    rw [f.terminalState_event, Option.some.injEq] at hfinal
    exact .inl ⟨f, rfl, hfinal.symm⟩
  · rw [h.2] at hfinal
    exact .inr (Option.some.inj hfinal).symm
  · rw [h.2] at hfinal
    exact .inr (Option.some.inj hfinal).symm
  · exact h.elim

/-- A run ends by the second section of its `finish`, or by a cancel. -/
theorem step_terminal (ht : t.WellFormed) {pc : CallState} (hr : t.get id = some r)
    (hr' : (pc.step t).2.get id = some r') (hopen : r.state.isTerminal = false)
    (hterm : r'.state.isTerminal = true) :
    (∃ f, pc = .finishRecord id f ∧ r'.state = f.state) ∨ r'.state = .cancelled := by
  have hmoved : (pc.step t).2.get id ≠ t.get id := by
    intro heq
    rw [heq, hr] at hr'
    cases hr'
    rw [hopen] at hterm
    cases hterm
  cases step_effect ht pc with
  | quiet hruns | operated _ _ hruns => exact absurd (hruns id) hmoved
  | registered context limits _ hnew hruns =>
    refine absurd ?_ hmoved
    rw [hruns, if_neg]
    rintro rfl
    rw [hr] at hnew
    cases hnew
  | @moved runId label r₀ _ hwrites hr₀ hmove hruns =>
    have hid : id = runId := by
      by_contra hne
      exact hmoved (by rw [hruns, if_neg hne])
    subst hid
    rw [hruns, if_pos rfl, Option.some.injEq] at hr'
    rw [hr, Option.some.injEq] at hr₀
    subst hr' hr₀
    have hevent := hmove.state_of_terminal hopen hterm
    obtain ⟨event, hlabel, hfinal⟩ := Option.bind_eq_some_iff.1 hevent
    cases label with
    | inner | recorded => cases hlabel
    | appends e =>
      cases hlabel
      have happends : pc.Appends id event := hwrites
      exact happends.terminal hfinal

/-- A run is completed or failed by the second section of its `finish` alone. -/
theorem step_inState (ht : t.WellFormed) {pc : CallState} {state : RunState} (hstate : state.isTerminal = true)
    (hcancelled : state ≠ .cancelled) (hpc : ∀ f : FinishEvent, f.state = state → pc ≠ .finishRecord id f)
    (hin : (pc.step t).2.InState id state) : t.InState id state := by
  have hstep := step_tableStep ht pc
  obtain ⟨r', hr', rfl⟩ := hin
  cases hr : t.get id with
  | none =>
    obtain ⟨context, limits, rfl⟩ := hstep.fresh hr hr'
    cases hstate
  | some r =>
    by_cases hterm : r.state.isTerminal = true
    · obtain ⟨x, hx, hxstate, -⟩ := hstep.keeps_terminal hr hterm
      rw [hr', Option.some.injEq] at hx
      subst hx
      exact ⟨r, hr, hxstate.symm⟩
    · rw [Bool.not_eq_true] at hterm
      rcases step_terminal ht hr hr' hterm hstate with ⟨f, rfl, hf⟩ | hcan
      · exact absurd rfl (hpc f hf.symm)
      · exact absurd hcan hcancelled

/-- The section that appends the event fails on a closed run, and ends an open one. -/
theorem finishRecord_cases (ht : t.WellFormed) (runId : RunId) (f : FinishEvent) :
    (∃ e t', (CallState.finishRecord runId f).step t = (.returned (.error e), t') ∧ t.Closed runId ∧
      ∀ id, t'.get id = t.get id) ∨
    (∃ sequence t' r', (CallState.finishRecord runId f).step t = (.finishMark runId sequence, t') ∧
      t'.get runId = some r' ∧ r'.state = f.state ∧ r'.EndsWith f.event ∧ t'.operations = t.operations) := by
  have hsec := RunTable.finishRecord_section ht runId f
  rw [CallState.step]
  split <;> rename_i heq
  · rw [heq] at hsec
    refine .inl ⟨_, _, rfl, fun r hr => ?_, (hsec.same rfl).runs⟩
    have hres : (t.finishRecord runId f).1 = (r.finish f).1 := (RunTable.withRecord_some hr).1
    obtain ⟨hterm, -⟩ | ⟨-, hok⟩ := RunRecord.finish_cases (ht runId r hr) f
    · exact hterm
    · rw [heq, hok] at hres
      cases hres
  · rw [heq] at hsec
    have hmoved := hsec.moved rfl
    obtain ⟨r, r', hr, hmove, hruns⟩ := hmoved.move
    have hevents : r'.events = r.events ++ [⟨r.nextSequence, r.context.runId, f.event⟩] := hmove.events_eq
    have hlast : r'.EndsWith f.event :=
      ⟨⟨r.nextSequence, r.context.runId, f.event⟩, by rw [hevents, List.getLast?_concat], rfl⟩
    exact .inr ⟨_, _, r', rfl, by rw [hruns, if_pos rfl],
      hmove.of_event.2 _ f.terminalState_event, hlast, hmoved.operations⟩

/-- The operations change by the call that a caller makes, or when a run is marked terminal. -/
theorem step_operations (ht : t.WellFormed) (pc : CallState) :
    (pc.step t).2.operations = t.operations ∨
      ∃ c, (pc.step t).2.operations = (c.apply t.operations).2 ∧
        (pc = .invoked (.operation c) ∨ ∃ runId, c = .cancelRun runId) := by
  cases step_effect ht pc with
  | quiet _ hops | registered _ _ _ _ _ hops | moved _ _ _ _ hops => exact .inl hops
  | operated c hpc _ hops =>
    refine .inr ⟨c, hops, ?_⟩
    unfold Operates at hpc
    split at hpc
    · exact .inl (by rw [hpc])
    · exact .inr ⟨_, hpc⟩
    · exact .inr ⟨_, hpc⟩
    · exact hpc.elim

theorem finished_ne_finishRecord {ε α : Type} (mapError : ε → RunTableError) (mapOk : α → Reply)
    (res : Except ε α × RunTable) (runId : RunId) (f : FinishEvent) :
    (finished mapError mapOk res).1 ≠ .finishRecord runId f := by
  obtain ⟨_ | _, t⟩ := res <;> simp [finished]

theorem next_ne_finishRecord (reports : List CancellationReport) (remaining : List RunId)
    (runId : RunId) (f : FinishEvent) : CancelFor.next reports remaining ≠ .finishRecord runId f := by
  cases remaining <;> simp [CancelFor.next]

theorem failed_ne_finishRecord (k : CancelFor) (e : RunTableError) (runId : RunId) (f : FinishEvent) :
    k.failed e ≠ .finishRecord runId f := by
  cases k with
  | run => simp [CancelFor.failed]
  | tree =>
    rw [CancelFor.failed]
    split
    · exact next_ne_finishRecord _ _ runId f
    · simp

theorem cancelRun_ne_finishRecord (t : RunTable) (runId' : RunId) (k : CancelFor) (runId : RunId)
    (f : FinishEvent) : (cancelRun t runId' k).1 ≠ .finishRecord runId f := by
  unfold cancelRun
  split
  · exact failed_ne_finishRecord k _ runId f
  · simp

theorem checkFinish_eq {runId runId' : RunId} {f f' : FinishEvent}
    (h : (checkFinish t runId' f').1 = .finishRecord runId f) :
    t.hasPendingOperations runId = false ∧ (checkFinish t runId' f').2 = t := by
  unfold checkFinish at h ⊢
  split at h
  · simp at h
  · rename_i hp
    cases h
    exact ⟨by simpa using hp, by rw [if_neg hp]⟩

/-- A call comes to the second section of `finish` by the check alone. -/
theorem step_finishRecord {pc : CallState} {runId : RunId} {f : FinishEvent}
    (hret : pc.isReturned = false) (h : (pc.step t).1 = .finishRecord runId f) :
    t.hasPendingOperations runId = false ∧ (pc.step t).2 = t := by
  cases pc with
  | invoked call =>
    cases call with
    | register | registerCancellationHook | operation => exact absurd h (finished_ne_finishRecord _ _ _ _ _)
    | setState runId' state =>
      rw [step, begin] at h
      split at h
      · unfold refuse at h
        split at h <;> simp at h
      · exact absurd h (finished_ne_finishRecord _ _ _ _ _)
    | emit runId' event =>
      rw [step, begin] at h
      split at h
      · unfold refuse at h
        split at h <;> simp at h
      · exact absurd h (finished_ne_finishRecord _ _ _ _ _)
    | finishCompleted runId' output | finishFailed runId' message => exact checkFinish_eq h
    | cancel runId' => exact absurd h (cancelRun_ne_finishRecord t runId' _ runId f)
    | cancelTree rootRunId =>
      rw [step, begin] at h
      split at h <;> simp at h
  | finishRecord runId' f' =>
    rw [step] at h
    split at h <;> simp at h
  | cancelTreeTargets => exact absurd h (next_ne_finishRecord _ _ runId f)
  | cancelRecord runId' k => exact absurd h (cancelRun_ne_finishRecord t runId' k runId f)
  | cancelHead runId' hookErrors k =>
    rw [step] at h
    split at h
    · exact absurd h (failed_ne_finishRecord k _ runId f)
    · simp at h
  | cancelSnapshot runId' head hookErrors k =>
    cases k with
    | run => simp [step, CancelFor.done] at h
    | tree => exact absurd h (next_ne_finishRecord _ _ runId f)
  | refused | finishMark | cancelOperations => simp [step] at h
  | returned => simp [isReturned] at hret

end CallState

/-! ## Runs without a registration in the gap -/

/-- A `finish` of the run has passed its check and may still append, or has not marked the run. -/
def FinishGap (s : TableSystem) (runId : RunId) : Prop :=
  ((∃ (n : Nat) (f : FinishEvent), s.calls[n]? = some (.finishRecord runId f)) ∧
      ∀ r, s.table.get runId = some r → r.state.isTerminal = false) ∨
    ∃ (n : Nat) (sequence : Nat), s.calls[n]? = some (.finishMark runId sequence)

/-- The step does not take an operation of a run into the store in a gap of the run. -/
def Unraced (s : TableSystem) (a : TableAction) : Prop :=
  ∀ (n : Nat) now operation, a = .step n →
    s.calls[n]? = some (.invoked (.operation (.register now operation))) →
    FinishGap s operation.runId → ¬ Registrable s.table.operations now operation

def RunState.IsFinished (state : RunState) : Prop := state = .completed ∨ state = .failed

/-- A run that may be finished next, and a run that has been, have terminal operations only. -/
structure FinishInvariant (s : TableSystem) : Prop where
  checked : ∀ (n : Nat) runId f, s.calls[n]? = some (.finishRecord runId f) →
    (∀ r, s.table.get runId = some r → r.state.isTerminal = false) →
    OperationsTerminal s.table.operations runId
  finished : ∀ runId r, s.table.get runId = some r → r.state.IsFinished →
    OperationsTerminal s.table.operations runId ∧
      (runId ∈ s.table.operations.terminalRuns ∨
        ∃ (n : Nat) (sequence : Nat), s.calls[n]? = some (.finishMark runId sequence))

section Step
variable {s u : TableSystem} {a : TableAction} {o : List (CallState × CallState)}

/-- No step opens an operation of a run that is marked or stands in a gap. -/
theorem operationsTerminal_step (hs : s.table.WellFormed) (hg : Unraced s a)
    (h : tableMachine.step s a = some (u, o)) {runId : RunId}
    (hops : OperationsTerminal s.table.operations runId)
    (hgap : runId ∈ s.table.operations.terminalRuns ∨ FinishGap s runId) :
    OperationsTerminal u.table.operations runId := by
  obtain ⟨call, -, rfl, -⟩ | ⟨n, pc, rfl, hpc, -, rfl, -⟩ := tableMachine_cases h
  · exact hops
  obtain heq | ⟨c, heq, hc⟩ := CallState.step_operations hs pc
  · exact heq ▸ hops
  rw [heq]
  refine hops.apply c fun now operation hreg hrun => ?_
  rcases hc with rfl | ⟨runId', rfl⟩
  · subst hreg hrun
    rcases hgap with hmarked | hgap
    · exact fun hr => hr.1 hmarked
    · exact hg n now operation rfl hpc hgap
  · cases hreg

/-- A run is open before a step after which it is. -/
theorem open_of_step (h : TableStep s.table u.table) {runId : RunId}
    (hopen : ∀ r, u.table.get runId = some r → r.state.isTerminal = false) :
    ∀ r, s.table.get runId = some r → r.state.isTerminal = false := by
  intro r hr
  obtain ⟨label, r', hr', hmove⟩ := h.persists hr
  by_contra hterm
  rw [Bool.not_eq_false] at hterm
  have hstate := (hmove.of_terminal hterm).2.1
  have := hopen r' hr'
  rw [hstate, hterm] at this
  cases this

theorem checked_step (hs : s.table.WellFormed) (hi : FinishInvariant s) (hg : Unraced s a)
    (h : tableMachine.step s a = some (u, o)) (n : Nat) (runId : RunId) (f : FinishEvent)
    (hn : u.calls[n]? = some (.finishRecord runId f))
    (hopen : ∀ r, u.table.get runId = some r → r.state.isTerminal = false) :
    OperationsTerminal u.table.operations runId := by
  have hopen' := open_of_step (tableStep_of_step hs h) hopen
  have hold (hcall : s.calls[n]? = some (.finishRecord runId f)) :
      OperationsTerminal u.table.operations runId :=
    operationsTerminal_step hs hg h (hi.checked n runId f hcall hopen') (.inr (.inl ⟨⟨n, f, hcall⟩, hopen'⟩))
  obtain ⟨call, -, rfl, -⟩ | ⟨m, pc, -, hpc, hret, rfl, -⟩ := tableMachine_cases h
  · rw [List.getElem?_append] at hn
    split at hn
    · exact hold hn
    · rw [List.getElem?_singleton] at hn
      split at hn <;> cases hn
  · by_cases hmn : m = n
    · subst hmn
      rw [List.getElem?_set_self (List.getElem?_eq_some_iff.1 hpc).1, Option.some.injEq] at hn
      obtain ⟨hcheck, htable⟩ := CallState.step_finishRecord hret hn
      rw [htable]
      exact OperationsTerminal.iff_check.1 hcheck
    · rw [List.getElem?_set_ne hmn] at hn
      exact hold hn

/-- A call that stands at its mark stays there, or marks the run. -/
theorem marked_step (hs : s.table.WellFormed) (h : tableMachine.step s a = some (u, o)) {runId : RunId}
    (hm : runId ∈ s.table.operations.terminalRuns ∨
      ∃ (n : Nat) (sequence : Nat), s.calls[n]? = some (.finishMark runId sequence)) :
    runId ∈ u.table.operations.terminalRuns ∨
      ∃ (n : Nat) (sequence : Nat), u.calls[n]? = some (.finishMark runId sequence) := by
  rcases hm with hm | ⟨n, sequence, hn⟩
  · left
    rcases (tableStep_of_step hs h).operations_cases with heq | ⟨c, heq⟩ <;> rw [heq]
    · exact hm
    · exact (InMemoryOperationStore.mem_terminalRuns_apply _ c runId).2 (.inl hm)
  obtain ⟨call, -, rfl, -⟩ | ⟨m, pc, -, hpc, -, rfl, -⟩ := tableMachine_cases h
  · exact .inr ⟨n, sequence, by
      rw [List.getElem?_append_left (List.getElem?_eq_some_iff.1 hn).1, hn]⟩
  · by_cases hmn : m = n
    · subst hmn
      rw [hn, Option.some.injEq] at hpc
      subst hpc
      exact .inl ((InMemoryOperationStore.mem_terminalRuns_apply _ _ _).2 (.inr rfl))
    · exact .inr ⟨n, sequence, by rw [List.getElem?_set_ne hmn, hn]⟩

theorem finished_step (hs : s.table.WellFormed) (hi : FinishInvariant s) (hg : Unraced s a)
    (h : tableMachine.step s a = some (u, o)) (runId : RunId) (r' : RunRecord)
    (hr' : u.table.get runId = some r') (hfin : r'.state.IsFinished) :
    OperationsTerminal u.table.operations runId ∧
      (runId ∈ u.table.operations.terminalRuns ∨
        ∃ (n : Nat) (sequence : Nat), u.calls[n]? = some (.finishMark runId sequence)) := by
  have hterm : r'.state.isTerminal = true := by
    rcases hfin with h | h <;> rw [h] <;> rfl
  have hstep := tableStep_of_step hs h
  have hold {r : RunRecord} (hr : s.table.get runId = some r) (hrfin : r.state.IsFinished) :
      OperationsTerminal u.table.operations runId ∧
        (runId ∈ u.table.operations.terminalRuns ∨
          ∃ (n : Nat) (sequence : Nat), u.calls[n]? = some (.finishMark runId sequence)) := by
    obtain ⟨hops, hmark⟩ := hi.finished runId r hr hrfin
    exact ⟨operationsTerminal_step hs hg h hops (hmark.imp_right .inr), marked_step hs h hmark⟩
  cases hr : s.table.get runId with
  | none =>
    obtain ⟨context, limits, rfl⟩ := hstep.fresh hr hr'
    cases hterm
  | some r =>
    obtain ⟨label, r'', hr'', hmove⟩ := hstep.persists hr
    rw [hr'] at hr''
    cases hr''
    by_cases hopen : r.state.isTerminal = true
    · exact hold hr ((hmove.of_terminal hopen).2.1 ▸ hfin)
    rw [Bool.not_eq_true] at hopen
    obtain ⟨call, -, rfl, -⟩ | ⟨n, pc, -, hpc, -, rfl, -⟩ := tableMachine_cases h
    · rw [hr] at hr'
      cases hr'
      rw [hopen] at hterm
      cases hterm
    rcases CallState.step_terminal hs hr hr' hopen hterm with ⟨f, rfl, -⟩ | hcan
    · -- the section that appends the event: the check has been passed
      have hopen' : ∀ x, s.table.get runId = some x → x.state.isTerminal = false := by
        intro x hx
        rw [hr] at hx
        cases hx
        exact hopen
      have hchecked := hi.checked n runId f hpc hopen'
      obtain ⟨e, t', heq, hclosed, -⟩ | ⟨sequence, t', x, heq, -, -, -, hops⟩ :=
        CallState.finishRecord_cases hs runId f
      · rw [hclosed r hr] at hopen
        cases hopen
      · rw [heq]
        exact ⟨hops.symm ▸ hchecked,
          .inr ⟨n, sequence, List.getElem?_set_self (List.getElem?_eq_some_iff.1 hpc).1⟩⟩
    · rcases hfin with hf | hf <;> rw [hcan] at hf <;> cases hf

end Step

theorem finishInvariant_of_run {as : List TableAction} {tr} {s : TableSystem}
    (h : tableMachine.Run Unraced .new as tr s) : FinishInvariant s := by
  induction h with
  | nil => exact ⟨by simp [TableSystem.new], fun _ _ hr => by cases hr⟩
  | snoc hr hg hs ih =>
    have hwf := wellFormed_of_run hr RunTable.new_wellFormed
    exact ⟨checked_step hwf ih hg hs, finished_step hwf ih hg hs⟩

/-- The log of a run holds a `Completed` or `Failed` event. -/
def HasFinished (s : TableSystem) (runId : RunId) : Prop :=
  ∃ r, s.table.get runId = some r ∧ ∃ e ∈ r.events, ∃ f : FinishEvent, e.event = f.event

theorem HasFinished.state {s : TableSystem} {runId : RunId} (hs : s.table.WellFormed)
    (h : HasFinished s runId) : ∃ r, s.table.get runId = some r ∧ r.state.IsFinished := by
  obtain ⟨r, hr, e, he, f, hf⟩ := h
  refine ⟨r, hr, ?_⟩
  rw [RunState.IsFinished, ((hs runId r hr).of_logs ⟨e, he, hf⟩ f.terminalState_event).2]
  cases f with
  | completed => exact .inl rfl
  | failed => exact .inr rfl

/-- **Finishing.** When no operation comes between the check of a `finish` and its mark, a run whose
log has a `Completed` or `Failed` event has terminal operations only, then and ever after. -/
theorem finished_without_operations {as bs : List TableAction} {tr tr'} {s u : TableSystem}
    (h : tableMachine.Run Unraced .new as tr s) (h' : tableMachine.Run Unraced s bs tr' u)
    {runId : RunId} (hf : HasFinished s runId) : OperationsTerminal u.table.operations runId := by
  have hs := wellFormed_of_run h RunTable.new_wellFormed
  obtain ⟨r, hr, e, he, hfin⟩ := hf
  obtain ⟨r', hr', hpre⟩ := events_of_run h' hs hr
  have hu := wellFormed_of_run h' hs
  obtain ⟨x, hx, hxfin⟩ := HasFinished.state hu ⟨r', hr', e, hpre.subset he, hfin⟩
  exact ((finishInvariant_of_run (h.append h')).finished runId x hx hxfin).1

/-- A test for `Unraced`: an operation is registered while no call stands in `finish`. -/
def unracedTest (s : TableSystem) : TableAction → Bool
  | .invoke _ => true
  | .step n => match s.calls[n]? with
    | some (.invoked (.operation (.register _ _))) => s.calls.all fun
      | .finishRecord _ _ | .finishMark _ _ => false
      | _ => true
    | _ => true

theorem unraced_of_test (s : TableSystem) (a : TableAction) (h : unracedTest s a = true) :
    Unraced s a := by
  rintro n now operation rfl hcall hgap
  simp only [unracedTest, hcall, List.all_eq_true] at h
  rcases hgap with ⟨⟨m, f, hm⟩, -⟩ | ⟨m, sequence, hm⟩
  · have := h _ (List.mem_of_getElem? hm)
    cases this
  · have := h _ (List.mem_of_getElem? hm)
    cases this

/-- A prepared effect that waits for its commit. -/
def externalOperation : PendingOperation :=
  ⟨⟨1⟩, ⟨1⟩, none, .externalSideEffect, .deferredCommit, "send", .null, none⟩

/-- An operation is rejected before its run is finished. -/
def rejectThenFinish : List TableAction :=
  [.invoke (.register ⟨⟨1⟩, none, none⟩ .unlimited), .step 0,
    .invoke (.operation (.register 0 externalOperation)), .step 1,
    .invoke (.operation (.resolve ⟨1⟩ ⟨1⟩ (.reject none))), .step 2,
    .invoke (.finishCompleted ⟨1⟩ []), .step 3, .step 3]

theorem finished_without_operations_rejected :
    ∃ tr s, tableMachine.Run Unraced .new rejectThenFinish tr s ∧ HasFinished s ⟨1⟩ ∧
      OperationsTerminal s.table.operations ⟨1⟩ := by
  have hrun := Machine.exec_run (M := tableMachine) (s := .new) (l := rejectThenFinish)
    unraced_of_test rfl
  refine ⟨_, _, hrun, ?finished, finished_without_operations hrun .nil ?finished⟩
  exact ⟨_, rfl, _, List.mem_cons_of_mem _ (List.mem_cons_self ..), .completed [], rfl⟩

/-- An operation is registered after the check of `finish` and starts to commit before the mark. -/
def registerAfterCheck : List TableAction :=
  [.invoke (.register ⟨⟨1⟩, none, none⟩ .unlimited), .step 0,
    .invoke (.finishCompleted ⟨1⟩ []), .step 1,
    .invoke (.operation (.register 0 externalOperation)), .step 2,
    .invoke (.operation (.beginCommit ⟨1⟩ ⟨1⟩)), .step 3, .step 1, .step 1]

/-- The run is completed and marked, and its operation is committing for ever. -/
theorem committing_in_completed_run :
    ∃ tr s, tableMachine.Run Free .new registerAfterCheck tr s ∧ HasFinished s ⟨1⟩ ∧
      ¬ OperationsTerminal s.table.operations ⟨1⟩ := by
  have hrun := Machine.exec_free (M := tableMachine) (s := .new) (l := registerAfterCheck) rfl
  refine ⟨_, _, hrun, ⟨_, rfl, _, List.mem_cons_of_mem _ (List.mem_cons_self ..), .completed [], rfl⟩,
    fun h => ?_⟩
  have hterm := h ⟨1⟩ ⟨externalOperation, .committing, none⟩ rfl rfl
  cases hterm

end Aifluxon
