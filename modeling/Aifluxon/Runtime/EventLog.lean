import Aifluxon.Runtime.TableCalls

/-!
# The event log of a run

* `LawfulLog` : the numbers, the start and the end of the log, and the state of the run;
* `lawfulLog_of_wellFormed` : well-formed records have lawful logs;
* `CallState.Early`, `CallState.Sure` : a call changes no log before it is sure of its success;
* `event_logs_lawful` : both, over every interleaving of calls.
-/

namespace Aifluxon

open Machine (Free)

/-! ## Lawful logs -/

/-- The log counts `1, 2, …`, opens with its only `RunStarted`, ends with its only terminal event, if
it has one, and the state of the run is terminal exactly with the last event, and then its state. -/
structure LawfulLog (r : RunRecord) : Prop where
  numbered : r.events.length < u64Max → ∀ i (h : i < r.events.length), r.events[i].sequence = i + 1
  started : ∃ rest, r.events = ⟨1, r.context.runId, .runStarted r.context⟩ :: rest ∧
    ∀ e ∈ rest, e.event.isRunStarted = false
  terminalLast : ∀ init last, r.events = init ++ [last] → ∀ e ∈ init, e.event.terminalState = none
  state : ∀ s, (r.state.isTerminal = true ∧ r.state = s) ↔
    ∃ last, r.events.getLast? = some last ∧ last.event.terminalState = some s

theorem lawfulLog_of_wellFormed {r : RunRecord} (h : r.WellFormed) : LawfulLog r where
  numbered hlen i hi := h.log.number_eq hlen.le i hi
  started := by
    obtain ⟨e, rest, hevents, -, hrest⟩ := h.log.opened
    have he := h.started
    rw [hevents, List.head?_cons, Option.some.injEq] at he
    subst he
    exact ⟨rest, hevents, hrest⟩
  terminalLast := h.log.sealedLast
  state s := by
    have hseal := h.state
    rw [sealOf] at hseal
    show _ ↔ ∃ last, r.events.getLast? = some last ∧ RunRecord.final last = some s
    rw [← Option.bind_eq_some_iff, hseal]
    by_cases hterm : r.state.isTerminal = true
    · simp [hterm]
    · simp [hterm]

/-! ## Calls that return an error -/

/-- Every run has the same log in both tables. -/
def SameLogs (t t' : RunTable) : Prop :=
  ∀ id, (t'.get id).map RunRecord.events = (t.get id).map RunRecord.events

theorem SameLogs.refl (t : RunTable) : SameLogs t t := fun _ => rfl

/-- The targets that `cancel_tree` has still to visit are runs of the table. -/
def CancelFor.Known (t : RunTable) : CancelFor → Prop
  | .run => True
  | .tree remaining _ => ∀ id ∈ remaining, t.contains id = true

/-- The call cannot return an error any more. -/
def CallState.Sure (t : RunTable) : CallState → Prop
  | .finishMark _ _ => True
  | .cancelTreeTargets rootRunId => t.contains rootRunId = true
  | .cancelRecord runId (.tree remaining reports) =>
    t.contains runId = true ∧ (CancelFor.tree remaining reports).Known t
  | .cancelOperations runId _ k | .cancelHead runId _ k | .cancelSnapshot runId _ _ k =>
    t.contains runId = true ∧ k.Known t
  | .returned (.ok _) => True
  | .invoked _ | .refused .. | .finishRecord .. | .cancelRecord _ .run | .returned (.error _) => False

theorem contains_of_tableStep {t t' : RunTable} (h : TableStep t t') {id : RunId}
    (hc : t.contains id = true) : t'.contains id = true := by
  obtain ⟨r, hr⟩ := Option.isSome_iff_exists.1 hc
  obtain ⟨label, r', hr', -⟩ := h.persists hr
  exact Option.isSome_iff_exists.2 ⟨r', hr'⟩

theorem CancelFor.Known.mono {t t' : RunTable} (h : TableStep t t') {k : CancelFor} (hk : k.Known t) :
    k.Known t' := by
  cases k with
  | run => trivial
  | tree remaining reports => exact fun id hid => contains_of_tableStep h (hk id hid)

theorem CallState.Sure.mono {t t' : RunTable} (h : TableStep t t') {pc : CallState}
    (hpc : pc.Sure t) : pc.Sure t' := by
  cases pc with
  | finishMark => trivial
  | cancelTreeTargets => exact contains_of_tableStep h hpc
  | cancelRecord runId k =>
    cases k with
    | run => exact hpc
    | tree => exact ⟨contains_of_tableStep h hpc.1, CancelFor.Known.mono h hpc.2⟩
  | cancelOperations | cancelHead | cancelSnapshot =>
    exact ⟨contains_of_tableStep h hpc.1, CancelFor.Known.mono h hpc.2⟩
  | returned res =>
    cases res with
    | ok => trivial
    | error => exact hpc
  | invoked | refused | finishRecord => exact hpc

theorem sure_next {t : RunTable} {reports : List CancellationReport} {remaining : List RunId}
    (h : ∀ id ∈ remaining, t.contains id = true) : (CancelFor.next reports remaining).Sure t := by
  cases remaining with
  | nil => trivial
  | cons target rest => exact ⟨h target (by simp), fun id hid => h id (List.mem_cons_of_mem _ hid)⟩

theorem sure_done {t : RunTable} {k : CancelFor} (report : CancellationReport) (h : k.Known t) :
    (k.done report).Sure t := by
  cases k with
  | run => trivial
  | tree remaining reports => exact sure_next h

/-- Only runs of the table are targets. -/
theorem mem_cancelTargets {t : RunTable} {pending targets : List RunId} {id : RunId}
    (hp : ∀ a ∈ pending, t.contains a = true) (ht : ∀ a ∈ targets, t.contains a = true)
    (h : id ∈ t.cancelTargets pending targets) : t.contains id = true := by
  induction pending, targets using RunTable.cancelTargets.induct t with
  | case1 targets =>
    rw [RunTable.cancelTargets] at h
    exact ht id h
  | case2 targets parent rest hmem ih =>
    rw [RunTable.cancelTargets, if_pos hmem] at h
    exact ih (fun a ha => hp a (List.mem_cons_of_mem _ ha)) ht h
  | case3 targets parent rest hmem ih =>
    rw [RunTable.cancelTargets, if_neg hmem] at h
    refine ih (fun a ha => ?_) (fun a ha => ?_) h
    · rcases List.mem_append.1 ha with ha | ha
      · obtain ⟨r, hr, -, rfl⟩ := RunTable.mem_childrenOf.1 (List.mem_reverse.1 ha)
        obtain ⟨k, hk⟩ := HashMap.mem_values.1 hr
        rw [t.keyed k r hk]
        exact Option.isSome_iff_exists.2 ⟨r, hk⟩
      · exact hp a (List.mem_cons_of_mem _ ha)
    · rcases List.mem_append.1 ha with ha | ha
      · exact ht a ha
      · rw [List.mem_singleton.1 ha]
        exact hp parent (by simp)

/-- The call has changed no log yet. -/
def CallState.Early : CallState → Prop
  | .invoked _ | .refused .. | .finishRecord .. | .returned (.error _) => True
  | _ => False

/-- A section that keeps the logs and leaves the call early, or ends where the call cannot fail. -/
def SafeStep (t : RunTable) (x : CallState × RunTable) : Prop :=
  (SameLogs t x.2 ∧ x.1.Early) ∨ x.1.Sure x.2

theorem finished_safe {ε α : Type} {t : RunTable} {runId : RunId} {label : RecordLabel}
    {res : Except ε α × RunTable} (h : SectionResult t runId label res) (mapError : ε → RunTableError)
    (mapOk : α → Reply) : SafeStep t (CallState.finished mapError mapOk res) := by
  obtain ⟨x, t'⟩ := res
  cases h with
  | failed e herr hruns =>
    cases herr
    exact .inl ⟨fun id => congrArg _ (hruns id), trivial⟩
  | done a hok =>
    cases hok
    exact .inr trivial

theorem refuse_safe (t : RunTable) (runId : RunId) (dst : RunState) :
    SafeStep t (CallState.refuse t runId dst) := by
  unfold CallState.refuse
  split <;> exact .inl ⟨.refl t, trivial⟩

theorem checkFinish_safe (t : RunTable) (runId : RunId) (f : FinishEvent) :
    SafeStep t (CallState.checkFinish t runId f) := by
  unfold CallState.checkFinish
  split <;> exact .inl ⟨.refl t, trivial⟩

/-- `cancel` fails before it changes the run. -/
theorem cancelRun_safe {t : RunTable} (ht : t.WellFormed) (runId : RunId) :
    SafeStep t (CallState.cancelRun t runId .run) := by
  have hsec := RunTable.cancelRecord_section ht runId
  have hstep := hsec.tableStep
  unfold CallState.cancelRun
  split <;> rename_i heq <;> rw [heq] at hsec hstep
  · cases hsec with
    | failed _ _ hruns => exact .inl ⟨fun id => congrArg _ (hruns id), trivial⟩
    | done _ hok => cases hok
  · cases hsec with
    | failed _ herr => cases herr
    | done _ _ hr => exact .inr ⟨contains_of_tableStep hstep (Option.isSome_iff_exists.2 ⟨_, hr⟩), trivial⟩

theorem begin_safe {t : RunTable} (ht : t.WellFormed) (call : TableCall) :
    SafeStep t (CallState.begin t call) := by
  cases call with
  | register context limits =>
    rw [CallState.begin]
    obtain h | ⟨-, hok, -⟩ := t.register_cases context limits
    · rw [h]
      exact .inl ⟨.refl t, trivial⟩
    · generalize t.register context limits = res at hok
      obtain ⟨x, t'⟩ := res
      cases hok
      exact .inr trivial
  | setState runId state =>
    rw [CallState.begin]
    split
    · exact refuse_safe t runId state
    · exact finished_safe (RunTable.setState_section ht runId state) _ _
  | emit runId event =>
    rw [CallState.begin]
    split
    · exact refuse_safe t runId _
    · rename_i hevent
      obtain ⟨hterminal, hstarted⟩ := not_or.1 hevent
      exact finished_safe (RunTable.emit_section ht runId (by simpa using hterminal)
        (by simpa using hstarted)) _ _
  | finishCompleted runId output | finishFailed runId message => exact checkFinish_safe t runId _
  | cancel runId => exact cancelRun_safe ht runId
  | cancelTree rootRunId =>
    rw [CallState.begin]
    split
    · exact .inr ‹_›
    · exact .inl ⟨.refl t, trivial⟩
  | registerCancellationHook runId hook =>
    exact finished_safe (t.registerCancellationHook_section runId hook) _ _
  | operation c =>
    rw [CallState.begin, RunTable.operate]
    cases (c.apply t.operations).1 with
    | error e => exact .inl ⟨fun _ => rfl, trivial⟩
    | ok n => exact .inr trivial

/-- Until a call is sure of its success its sections change no log. -/
theorem early_step {t : RunTable} (ht : t.WellFormed) {pc : CallState} (hpc : pc.Early) :
    SafeStep t (pc.step t) := by
  cases pc with
  | invoked call => exact begin_safe ht call
  | refused => exact .inl ⟨.refl t, trivial⟩
  | finishRecord runId f =>
    have hsec := RunTable.finishRecord_section ht runId f
    rw [CallState.step]
    split <;> rename_i heq <;> rw [heq] at hsec
    · cases hsec with
      | failed _ _ hruns => exact .inl ⟨fun id => congrArg _ (hruns id), trivial⟩
      | done _ hok => cases hok
    · exact .inr trivial
  | returned res => exact .inl ⟨.refl t, hpc⟩
  | _ => exact hpc.elim

/-- In a loop of `cancel_tree` a run of the table is cancelled, or passed over. -/
theorem cancelTarget_sure {t : RunTable} (ht : t.WellFormed) {runId : RunId} {rest : List RunId}
    {reports : List CancellationReport} (hc : t.contains runId = true)
    (hrest : ∀ id ∈ rest, t.contains id = true) :
    (CallState.cancelRun t runId (.tree rest reports)).1.Sure
      (CallState.cancelRun t runId (.tree rest reports)).2 := by
  obtain ⟨r, hr⟩ := Option.isSome_iff_exists.1 hc
  have hstep := (RunTable.cancelRecord_section ht runId).tableStep
  have hres : (t.cancelRecord runId).1 = r.cancel.1 := (RunTable.withRecord_some hr).1
  have hmono : ∀ id ∈ rest, (t.cancelRecord runId).2.contains id = true :=
    fun id hid => contains_of_tableStep hstep (hrest id hid)
  have hc' := contains_of_tableStep hstep hc
  unfold CallState.cancelRun
  split <;> rename_i heq <;> rw [heq] at hres hmono hc'
  · obtain ⟨-, hcan⟩ | ⟨-, hcan⟩ := RunRecord.cancel_cases (ht runId r hr) <;> rw [hcan] at hres
    · cases hres
      exact sure_next hmono
    · cases hres
  · exact ⟨hc', hmono⟩

theorem sure_step {t : RunTable} (ht : t.WellFormed) {pc : CallState} (hpc : pc.Sure t) :
    (pc.step t).1.Sure (pc.step t).2 := by
  have hstep := pc.step_tableStep ht
  cases pc with
  | invoked | refused | finishRecord => exact hpc.elim
  | finishMark => trivial
  | cancelTreeTargets rootRunId =>
    refine sure_next fun id hid => mem_cancelTargets (fun a ha => ?_) (by simp) hid
    rw [List.mem_singleton.1 ha]
    exact hpc
  | cancelRecord runId k =>
    cases k with
    | run => exact hpc.elim
    | tree rest reports => exact cancelTarget_sure ht hpc.1 hpc.2
  | cancelOperations runId hooks k =>
    have hhead : CallState.Sure t (.cancelHead runId (CallState.runHooks runId hooks) k) := hpc
    exact hhead.mono hstep
  | cancelHead runId hookErrors k =>
    obtain ⟨r, hr⟩ := Option.isSome_iff_exists.1 hpc.1
    rw [CallState.step, RunTable.head, hr]
    exact hpc
  | cancelSnapshot runId head hookErrors k => exact sure_done _ hpc.2
  | returned res =>
    cases res with
    | ok => trivial
    | error => exact hpc.elim

/-! ## Every interleaving -/

/-- Every call is early or sure. -/
def CallsSafe (s : TableSystem) : Prop :=
  ∀ (n : Nat) (pc : CallState), s.calls[n]? = some pc → pc.Early ∨ pc.Sure s.table

theorem safe_step {s u : TableSystem} {a : TableAction} {o} (hs : s.table.WellFormed)
    (hcalls : CallsSafe s) (h : tableMachine.step s a = some (u, o)) : CallsSafe u := by
  have hstep := tableStep_of_step hs h
  intro n pc hpc
  obtain ⟨call, -, rfl, -⟩ | ⟨m, pc₀, -, hpc₀, -, rfl, -⟩ := tableMachine_cases h
  · rw [List.getElem?_append] at hpc
    split at hpc
    · exact hcalls n pc hpc
    · rw [List.getElem?_singleton] at hpc
      split at hpc <;> cases hpc
      exact .inl trivial
  · by_cases hnm : m = n
    · subst hnm
      rw [List.getElem?_set_self (List.getElem?_eq_some_iff.1 hpc₀).1] at hpc
      cases hpc
      rcases hcalls m pc₀ hpc₀ with hearly | hsure
      · exact (early_step hs hearly).imp And.right id
      · exact .inr (sure_step hs hsure)
    · rw [List.getElem?_set_ne hnm] at hpc
      exact (hcalls n pc hpc).imp id (CallState.Sure.mono hstep)

theorem callsSafe_of_run {as : List TableAction} {tr} {s : TableSystem}
    (h : tableMachine.Run Free .new as tr s) : CallsSafe s := by
  induction h with
  | nil => intro n pc hpc; simp [TableSystem.new] at hpc
  | snoc hr _ hs ih => exact safe_step (wellFormed_of_run hr RunTable.new_wellFormed) ih hs

/-- A call that has been sure of its success stays so. -/
theorem sure_of_run {as : List TableAction} {tr} {s t : TableSystem} {n : Nat} {pc : CallState}
    (h : tableMachine.Run Free s as tr t) (hs : s.table.WellFormed) (hpc : s.calls[n]? = some pc)
    (hsure : pc.Sure s.table) : ∃ pc', t.calls[n]? = some pc' ∧ pc'.Sure t.table := by
  induction h with
  | nil => exact ⟨pc, hpc, hsure⟩
  | @snoc as tr t u a o hr _ hstp ih =>
    obtain ⟨pc', hpc', hsure'⟩ := ih
    have ht := wellFormed_of_run hr hs
    have hstep := tableStep_of_step ht hstp
    have hn := (List.getElem?_eq_some_iff.1 hpc').1
    obtain ⟨call, -, rfl, -⟩ | ⟨m, pc₀, -, hpc₀, -, rfl, -⟩ := tableMachine_cases hstp
    · exact ⟨pc', by rw [List.getElem?_append_left hn, hpc'], hsure'⟩
    · by_cases hnm : m = n
      · subst hnm
        rw [hpc'] at hpc₀
        cases hpc₀
        exact ⟨_, List.getElem?_set_self hn, sure_step ht hsure'⟩
      · exact ⟨pc', by rw [List.getElem?_set_ne hnm, hpc'], hsure'.mono hstep⟩

/-- No section of a call that ends in an error changes a log. -/
theorem sameLogs_of_error {as : List TableAction} {tr} {s : TableSystem} {n : Nat} {e : RunTableError}
    (h : tableMachine.Run Free .new as tr s) (herr : s.calls[n]? = some (.returned (.error e)))
    {pre post : List TableAction} {tr₁} {t u : TableSystem} {o} (has : as = pre ++ .step n :: post)
    (ht : tableMachine.Run Free .new pre tr₁ t) (hstep : tableMachine.step t (.step n) = some (u, o)) :
    SameLogs t.table u.table := by
  have hwf := wellFormed_of_run ht RunTable.new_wellFormed
  obtain ⟨call, ha, -⟩ | ⟨m, pc, ha, hpc, -, rfl, -⟩ := tableMachine_cases hstep
  · cases ha
  cases ha
  by_contra hchanged
  have hsure : (pc.step t.table).1.Sure (pc.step t.table).2 := by
    rcases callsSafe_of_run ht n pc hpc with hearly | hsure
    · exact (early_step hwf hearly).resolve_left fun hsame => hchanged hsame.1
    · exact sure_step hwf hsure
  rw [has, List.append_cons] at h
  obtain ⟨x, tr₂, tr₃, hx, hpost, -⟩ := h.split
  obtain ⟨-, rfl⟩ := (Machine.Run.snoc ht trivial hstep).unique hx
  obtain ⟨pc', hpc', hsure'⟩ := sure_of_run hpost ((pc.step_tableStep hwf).wellFormed hwf)
    (List.getElem?_set_self (List.getElem?_eq_some_iff.1 hpc).1) hsure
  rw [herr] at hpc'
  cases hpc'
  exact hsure'

/-- Every run has a lawful log, and a call that returned an error has changed no log. -/
def LogsLawful (as : List TableAction) (s : TableSystem) : Prop :=
  (∀ id r, s.table.get id = some r → LawfulLog r) ∧
  ∀ n e, s.calls[n]? = some (.returned (.error e)) → ∀ pre post tr₁ t u o,
    as = pre ++ .step n :: post → tableMachine.Run Free .new pre tr₁ t →
    tableMachine.step t (.step n) = some (u, o) → SameLogs t.table u.table

/-- **Event logs** are lawful in every state that calls reach, whatever the order of their critical
sections. -/
theorem event_logs_lawful {as : List TableAction} {tr} {s : TableSystem}
    (h : tableMachine.Run Free .new as tr s) : LogsLawful as s :=
  ⟨fun id r hr => lawfulLog_of_wellFormed (wellFormed_of_run h RunTable.new_wellFormed id r hr),
    fun _ _ herr _ _ _ _ _ _ has ht hstep => sameLogs_of_error h herr has ht hstep⟩

/-- A run is registered and completed; an event comes too late. -/
def lateDelta : List TableAction :=
  [.invoke (.register ⟨⟨1⟩, none, none⟩ .unlimited), .step 0,
    .invoke (.finishCompleted ⟨1⟩ []), .step 1, .step 1, .step 1,
    .invoke (.emit ⟨1⟩ (.modelDelta "late")), .step 2]

theorem event_logs_lawful_lateDelta :
    ∃ tr s, tableMachine.Run Free .new lateDelta tr s ∧
      (∃ r, s.table.get ⟨1⟩ = some r ∧ r.state = .completed ∧ r.events.length = 2) ∧
      s.calls[2]? = some (.returned (.error .runTerminal)) ∧ LogsLawful lateDelta s := by
  have hrun := Machine.exec_free (M := tableMachine) (s := .new) (l := lateDelta) rfl
  exact ⟨_, _, hrun, ⟨_, rfl, rfl, rfl⟩, rfl, event_logs_lawful hrun⟩

end Aifluxon
