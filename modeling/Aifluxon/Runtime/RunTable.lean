import Aifluxon.Runtime.RunRecord
import Mathlib.Data.Finset.Card

/-!
# The run table

`RunTable` of `run_table.rs`: the runs behind one lock and the operation store behind another. Each
definition here is one critical section, or a pure part of one; a call of several sections is put
together from them in the next module. A poisoned lock (a panic while it is held) does not occur.

* `RunTable.withRecord` : a section that looks a run up and works on its record;
* `RunTable.cancelTargets` : the loop of `cancel_tree`, which visits no run twice and so ends;
* `TableStep` : all that a section can do to a well-formed table;
* `Section` : a section on the record of a run fails and changes no run, or makes its move.
-/

namespace Aifluxon

/-! ## The table -/

/-- Every record stands under the identifier of its run. -/
structure RunTable where
  runs : HashMap RunId RunRecord
  operations : InMemoryOperationStore
  keyed : ∀ id r, runs.lookup id = some r → r.context.runId = id

/-- What `snapshot` reads under the lock of the runs. -/
structure RunHead where
  context : RunContext
  state : RunState
  lastEventSequence : Nat
  deriving DecidableEq

structure CanonicalRunSnapshot where
  context : RunContext
  state : RunState
  lastEventSequence : Nat
  pendingOperations : List OperationSnapshot
  deriving DecidableEq

namespace RunTable

def new : RunTable where
  runs := ∅
  operations := .empty
  keyed := by simp

/-- The record of a run. -/
abbrev get (t : RunTable) (runId : RunId) : Option RunRecord := t.runs.lookup runId

/-- A section that looks a run up and works on its record. -/
def withRecord {ε α : Type} (t : RunTable) (runId : RunId) (unknown : ε)
    (f : RunRecord → Except ε α × RunRecord) (hf : ∀ r, (f r).2.context = r.context) :
    Except ε α × RunTable :=
  match t.get runId with
  | none => (.error unknown, t)
  | some r => ((f r).1, {
    runs := t.runs.modify runId fun r => (f r).2
    operations := t.operations
    keyed := by
      intro id r h
      rw [HashMap.lookup_modify] at h
      split at h
      · obtain ⟨r', hr', rfl⟩ := Option.map_eq_some_iff.1 h
        rw [hf]
        exact t.keyed id r' hr'
      · exact t.keyed id r h })

def register (t : RunTable) (context : RunContext) (limits : RunLimits) :
    Except RunTableError RunContext × RunTable :=
  if (t.get context.runId).isSome then (.error .identifierCollision, t)
  else (.ok context, {
    runs := t.runs.insert context.runId (.new context limits)
    operations := t.operations
    keyed := by
      intro id r h
      rw [HashMap.lookup_insert_ite] at h
      split at h
      · cases h; exact Eq.symm ‹_›
      · exact t.keyed id r h })

def setState (t : RunTable) (runId : RunId) (state : RunState) : Except RunTableError Nat × RunTable :=
  t.withRecord runId .unknownRun (RunRecord.setState · state) fun r => r.setState_context state

def emit (t : RunTable) (runId : RunId) (event : RunEvent) : Except RunTableError Nat × RunTable :=
  t.withRecord runId .unknownRun (RunRecord.emit · event) fun r => r.emit_context event

def finishRecord (t : RunTable) (runId : RunId) (f : FinishEvent) : Except RunTableError Nat × RunTable :=
  t.withRecord runId .unknownRun (RunRecord.finish · f) fun r => r.finish_context f

def cancelRecord (t : RunTable) (runId : RunId) :
    Except RunTableError (List RunCancellationHook) × RunTable :=
  t.withRecord runId .unknownRun RunRecord.cancel RunRecord.cancel_context

def registerCancellationHook (t : RunTable) (runId : RunId) (hook : RunCancellationHook) :
    Except RunTableError Unit × RunTable :=
  t.withRecord runId .unknownRun (RunRecord.registerHook · hook) fun r => r.registerHook_context hook

/-- The budget of a run stands behind a lock of its own, which nothing else holds. -/
def consumeModelRound (t : RunTable) (runId : RunId) (elapsed : Duration) :
    Except AgentBudgetExceeded Unit × RunTable :=
  t.withRecord runId ⟨.modelRounds⟩ (fun r =>
    ((r.budget.consumeModelRound elapsed).1, { r with budget := (r.budget.consumeModelRound elapsed).2 }))
    fun _ => rfl

def consumeToolInvocation (t : RunTable) (runId : RunId) (elapsed : Duration) :
    Except AgentBudgetExceeded Unit × RunTable :=
  t.withRecord runId ⟨.toolInvocations⟩ (fun r =>
    ((r.budget.consumeToolInvocation elapsed).1,
      { r with budget := (r.budget.consumeToolInvocation elapsed).2 }))
    fun _ => rfl

def cachedToolExecution (t : RunTable) (runId : RunId) (invocationId : ToolInvocationId) :
    Except RunTableError (Option ToolResult) :=
  match t.get runId with
  | none => .error .unknownRun
  | some r => .ok (r.ledger.get invocationId)

def recordToolExecution (t : RunTable) (runId : RunId) (invocationId : ToolInvocationId)
    (result : ToolResult) : Except RunTableError Unit × RunTable :=
  t.withRecord runId .unknownRun (fun r => (.ok (), { r with ledger := r.ledger.record invocationId result }))
    fun _ => rfl

def contains (t : RunTable) (runId : RunId) : Bool := (t.get runId).isSome

def limits (t : RunTable) (runId : RunId) : Except RunTableError RunLimits :=
  match t.get runId with
  | none => .error .unknownRun
  | some r => .ok r.limits

def context (t : RunTable) (runId : RunId) : Except RunTableError RunContext :=
  match t.get runId with
  | none => .error .unknownRun
  | some r => .ok r.context

/-- The flag of the token that `cancellation_token` gives. -/
def isCancelled (t : RunTable) (runId : RunId) : Bool := (t.get runId).any RunRecord.cancelled

/-- The part of `snapshot` that reads the runs. -/
def head (t : RunTable) (runId : RunId) : Except RunTableError RunHead :=
  match t.get runId with
  | none => .error .unknownRun
  | some r => .ok ⟨r.context, r.state, match r.events.getLast? with
    | some last => last.sequence
    | none => 0⟩

/-- `snapshot`, when nothing happens between its two sections. -/
def snapshot (t : RunTable) (runId : RunId) : Except RunTableError CanonicalRunSnapshot :=
  match t.head runId with
  | .error error => .error error
  | .ok head => .ok ⟨head.context, head.state, head.lastEventSequence, t.operations.snapshot runId⟩

def eventsSince (t : RunTable) (runId : RunId) (sequence : Nat) :
    Except RunTableError (List RunEventEnvelope) :=
  match t.get runId with
  | none => .error .unknownRun
  | some r => .ok (r.events.filter fun event => event.sequence > sequence)

/-- The check of `finish` on the operation store. -/
def hasPendingOperations (t : RunTable) (runId : RunId) : Bool :=
  (t.operations.snapshot runId).any fun snapshot => ¬ snapshot.state.isTerminal

/-! ### The targets of `cancel_tree` -/

def childrenOf (t : RunTable) (parent : RunId) : List RunId :=
  t.runs.values.filterMap fun r =>
    if r.context.parentRunId = some parent then some r.context.runId else none

/-- The runs that the loop may still visit. -/
def unvisited (t : RunTable) (pending targets : List RunId) : Finset RunId :=
  ((t.runs.values.map fun r => r.context.runId) ++ pending).toFinset \ targets.toFinset

theorem mem_unvisited {t : RunTable} {pending targets : List RunId} {a : RunId} :
    a ∈ t.unvisited pending targets ↔
      ((∃ r ∈ t.runs.values, r.context.runId = a) ∨ a ∈ pending) ∧ a ∉ targets := by
  simp [unvisited]

theorem mem_childrenOf {t : RunTable} {parent a : RunId} :
    a ∈ t.childrenOf parent ↔
      ∃ r ∈ t.runs.values, r.context.parentRunId = some parent ∧ r.context.runId = a := by
  simp [childrenOf]

/-- The loop over `pending`, a stack whose top stands first. -/
def cancelTargets (t : RunTable) (pending targets : List RunId) : List RunId :=
  match pending with
  | [] => targets
  | parent :: rest =>
    if parent ∈ targets then t.cancelTargets rest targets
    else t.cancelTargets ((t.childrenOf parent).reverse ++ rest) (targets ++ [parent])
termination_by ((t.unvisited pending targets).card, pending.length)
decreasing_by
  · have hsub : t.unvisited rest targets ⊆ t.unvisited (parent :: rest) targets := by
      intro a ha
      rw [mem_unvisited] at ha ⊢
      exact ⟨ha.1.imp_right (List.mem_cons_of_mem _), ha.2⟩
    rcases (Finset.card_le_card hsub).lt_or_eq with hlt | heq
    · exact Prod.Lex.left _ _ hlt
    · rw [heq]
      exact Prod.Lex.right _ (by simp)
  · refine Prod.Lex.left _ _ (Finset.card_lt_card ?_)
    rw [Finset.ssubset_iff_of_subset]
    · refine ⟨parent, mem_unvisited.2 ⟨.inr (by simp), ‹_›⟩, fun h => ?_⟩
      exact (mem_unvisited.1 h).2 (by simp)
    · intro a ha
      rw [mem_unvisited] at ha ⊢
      obtain ⟨hmem, hnot⟩ := ha
      refine ⟨?_, fun h => hnot (List.mem_append_left _ h)⟩
      rcases hmem with hmem | hmem
      · exact .inl hmem
      rcases List.mem_append.1 hmem with hmem | hmem
      · obtain ⟨r, hr, -, rfl⟩ := mem_childrenOf.1 (List.mem_reverse.1 hmem)
        exact .inl ⟨r, hr, rfl⟩
      · exact .inr (List.mem_cons_of_mem _ hmem)

/-- Every record of the table is well formed. -/
def WellFormed (t : RunTable) : Prop := ∀ id r, t.get id = some r → r.WellFormed

theorem new_wellFormed : new.WellFormed := by
  intro id r h
  cases h

end RunTable

/-! ## What a section can do -/

/-- All that a section can do to a well-formed table. -/
inductive TableStep (t t' : RunTable) : Prop where
  | quiet (hruns : ∀ id, t'.get id = t.get id) (hops : t'.operations = t.operations)
  | registered (context : RunContext) (limits : RunLimits) (hnew : t.get context.runId = none)
      (hruns : ∀ id, t'.get id = if id = context.runId then some (.new context limits) else t.get id)
      (hops : t'.operations = t.operations)
  | moved {runId : RunId} {label : RecordLabel} {r r' : RunRecord} (hr : t.get runId = some r)
      (hmove : RecordMove label r r')
      (hruns : ∀ id, t'.get id = if id = runId then some r' else t.get id)
      (hops : t'.operations = t.operations)
  | operated (c : OperationCall) (hruns : ∀ id, t'.get id = t.get id)
      (hops : t'.operations = (c.apply t.operations).2)

namespace TableStep

variable {t t' : RunTable} {id : RunId} {r r' : RunRecord}

theorem refl (t : RunTable) : TableStep t t := .quiet (fun _ => rfl) rfl

/-- A run stays in the table and makes at most one move. -/
theorem persists (h : TableStep t t') (hr : t.get id = some r) :
    ∃ label r', t'.get id = some r' ∧ RecordMove label r r' := by
  cases h with
  | quiet hruns | operated _ hruns => exact ⟨.inner, r, by rw [hruns, hr], .refl r⟩
  | registered context limits hnew hruns =>
    have hne : id ≠ context.runId := by
      rintro rfl
      rw [hr] at hnew
      cases hnew
    exact ⟨.inner, r, by rw [hruns, if_neg hne, hr], .refl r⟩
  | @moved runId label r₀ r' hr₀ hmove hruns =>
    by_cases hid : id = runId
    · subst hid
      rw [hr] at hr₀
      cases hr₀
      exact ⟨label, r', by rw [hruns, if_pos rfl], hmove⟩
    · exact ⟨.inner, r, by rw [hruns, if_neg hid, hr], .refl r⟩

/-- A run comes into the table as it is registered. -/
theorem fresh (h : TableStep t t') (hr : t.get id = none) (hr' : t'.get id = some r') :
    ∃ context limits, r' = .new context limits := by
  cases h with
  | quiet hruns | operated _ hruns =>
    rw [hruns, hr] at hr'
    cases hr'
  | registered context limits _ hruns =>
    rw [hruns] at hr'
    split at hr'
    · cases hr'
      exact ⟨context, limits, rfl⟩
    · rw [hr] at hr'
      cases hr'
  | moved hr₀ _ hruns =>
    rw [hruns] at hr'
    split at hr'
    · subst id
      rw [hr] at hr₀
      cases hr₀
    · rw [hr] at hr'
      cases hr'

theorem wellFormed (h : TableStep t t') (ht : t.WellFormed) : t'.WellFormed := by
  intro id r' hr'
  cases hr : t.get id with
  | none =>
    obtain ⟨context, limits, rfl⟩ := h.fresh hr hr'
    exact RunRecord.new_wellFormed context limits
  | some r =>
    obtain ⟨label, r'', hr'', hmove⟩ := h.persists hr
    rw [hr'] at hr''
    cases hr''
    exact hmove.wellFormed (ht id r hr)

/-- A terminal run stays as it is. -/
theorem keeps_terminal (h : TableStep t t') (hr : t.get id = some r) (hterm : r.state.isTerminal = true) :
    ∃ r', t'.get id = some r' ∧ r'.state = r.state ∧ r'.events = r.events := by
  obtain ⟨label, r', hr', hmove⟩ := h.persists hr
  exact ⟨r', hr', (hmove.of_terminal hterm).2⟩

/-- The operations of a table change by a call of the store, if at all. -/
theorem operations_cases (h : TableStep t t') :
    t'.operations = t.operations ∨ ∃ c : OperationCall, t'.operations = (c.apply t.operations).2 := by
  cases h with
  | quiet _ hops | registered _ _ _ _ hops | moved _ _ _ hops => exact .inl hops
  | operated c _ hops => exact .inr ⟨c, hops⟩

end TableStep

/-- The tables have the same runs and operations. -/
structure SameTable (t t' : RunTable) : Prop where
  runs : ∀ id, t'.get id = t.get id
  operations : t'.operations = t.operations

/-- The record of a run makes the move with `label`. -/
structure Moved (t : RunTable) (runId : RunId) (label : RecordLabel) (t' : RunTable) : Prop where
  move : ∃ r r', t.get runId = some r ∧ RecordMove label r r' ∧
    ∀ id, t'.get id = if id = runId then some r' else t.get id
  operations : t'.operations = t.operations

theorem SameTable.refl (t : RunTable) : SameTable t t := ⟨fun _ => rfl, rfl⟩

theorem SameTable.tableStep {t t' : RunTable} (h : SameTable t t') : TableStep t t' :=
  .quiet h.runs h.operations

theorem Moved.tableStep {t t' : RunTable} {runId : RunId} {label : RecordLabel}
    (h : Moved t runId label t') : TableStep t t' := by
  obtain ⟨r, r', hr, hmove, hruns⟩ := h.move
  exact .moved hr hmove hruns h.operations

/-- Neither the state nor the log of a run changes. -/
def InnerStep (t : RunTable) (runId : RunId) (t' : RunTable) : Prop :=
  SameTable t t' ∨ Moved t runId .inner t'

theorem InnerStep.tableStep {t t' : RunTable} {runId : RunId} (h : InnerStep t runId t') :
    TableStep t t' :=
  h.elim SameTable.tableStep Moved.tableStep

theorem InnerStep.operations {t t' : RunTable} {runId : RunId} (h : InnerStep t runId t') :
    t'.operations = t.operations :=
  h.elim SameTable.operations Moved.operations

def RunTable.IsCompleted (t : RunTable) (runId : RunId) : Prop :=
  ∃ r, t.get runId = some r ∧ r.state = .completed

/-- The run is in the table, in the state. -/
def RunTable.InState (t : RunTable) (runId : RunId) (state : RunState) : Prop :=
  ∃ r, t.get runId = some r ∧ r.state = state

section InState
variable {t t' : RunTable} {runId id : RunId} {state : RunState}

theorem RunTable.InState.of_get (h : t'.InState id state) (heq : t'.get id = t.get id) : t.InState id state := by
  rwa [InState, heq] at h

/-- A move ends a run by the event of the terminal state alone. -/
theorem Moved.inState {label : RecordLabel} (h : Moved t runId label t') (hstate : state.isTerminal = true)
    (hlabel : label.event?.bind RunEvent.terminalState ≠ some state) (hin : t'.InState id state) :
    t.InState id state := by
  obtain ⟨r, r', hr, hmove, hruns⟩ := h.move
  by_cases hid : id = runId
  · subst hid
    obtain ⟨x, hx, hx'⟩ := hin
    rw [hruns, if_pos rfl, Option.some.injEq] at hx
    subst hx
    exact ⟨r, hr, by_contra fun hnot => hlabel (hmove.ends_of hstate hnot hx')⟩
  · exact hin.of_get (by rw [hruns, if_neg hid])

theorem InnerStep.inState (h : InnerStep t runId t') (hstate : state.isTerminal = true)
    (hin : t'.InState id state) : t.InState id state := by
  rcases h with h | h
  · exact hin.of_get (h.runs id)
  · exact h.inState hstate nofun hin

end InState

/-- A section on the record of a run fails and changes no run, or makes the move with `label`. -/
inductive SectionResult {ε α : Type} (t : RunTable) (runId : RunId) (label : RecordLabel)
    (res : Except ε α × RunTable) : Prop where
  | failed (e : ε) (herr : res.1 = .error e) (hruns : ∀ id, res.2.get id = t.get id)
      (hops : res.2.operations = t.operations)
  | done (a : α) (hok : res.1 = .ok a) {r r' : RunRecord} (hr : t.get runId = some r)
      (hmove : RecordMove label r r')
      (hruns : ∀ id, res.2.get id = if id = runId then some r' else t.get id)
      (hops : res.2.operations = t.operations)

namespace SectionResult

variable {ε α : Type} {t : RunTable} {runId : RunId} {label : RecordLabel}
  {res : Except ε α × RunTable}

theorem tableStep (h : SectionResult t runId label res) : TableStep t res.2 := by
  cases h with
  | failed _ _ hruns hops => exact .quiet hruns hops
  | done _ _ hr hmove hruns hops => exact .moved hr hmove hruns hops

theorem operations_eq (h : SectionResult t runId label res) : res.2.operations = t.operations := by
  cases h with
  | failed _ _ _ hops | done _ _ _ _ _ hops => exact hops

theorem same {e : ε} {t' : RunTable} (h : SectionResult t runId label res) (hres : res = (.error e, t')) :
    SameTable t t' := by
  subst hres
  cases h with
  | failed _ _ hruns hops => exact ⟨hruns, hops⟩
  | done _ hok => cases hok

theorem moved {a : α} {t' : RunTable} (h : SectionResult t runId label res) (hres : res = (.ok a, t')) :
    Moved t runId label t' := by
  subst hres
  cases h with
  | failed _ herr => cases herr
  | done _ _ hr hmove hruns hops => exact ⟨⟨_, _, hr, hmove, hruns⟩, hops⟩

end SectionResult

namespace RunTable

variable {t : RunTable}

section WithRecord
variable {ε α : Type} {runId : RunId} {unknown : ε} {f : RunRecord → Except ε α × RunRecord}
  {hf : ∀ r, (f r).2.context = r.context}

theorem withRecord_operations :
    (t.withRecord runId unknown f hf).2.operations = t.operations := by
  unfold withRecord
  split <;> rfl

theorem withRecord_none (h : t.get runId = none) :
    t.withRecord runId unknown f hf = (.error unknown, t) := by
  simp [withRecord, h]

theorem withRecord_some {r : RunRecord} (h : t.get runId = some r) :
    (t.withRecord runId unknown f hf).1 = (f r).1 ∧
      ∀ id, (t.withRecord runId unknown f hf).2.get id = if id = runId then some (f r).2 else t.get id := by
  unfold withRecord
  rw [h]
  refine ⟨rfl, fun id => ?_⟩
  rw [get, HashMap.lookup_modify]
  by_cases hid : id = runId
  · subst hid
    rw [if_pos rfl, if_pos rfl]
    exact congrArg (Option.map fun r => (f r).2) h
  · rw [if_neg hid, if_neg hid]

/-- A section that succeeds has worked on the record of its run. -/
theorem withRecord_ok {a : α} {t' : RunTable} (h : t.withRecord runId unknown f hf = (.ok a, t')) :
    ∃ r, t.get runId = some r ∧ (f r).1 = .ok a ∧ t'.get runId = some (f r).2 := by
  cases hr : t.get runId with
  | none =>
    rw [withRecord_none hr] at h
    cases h
  | some r =>
    obtain ⟨hres, hruns⟩ : (t.withRecord runId unknown f hf).1 = (f r).1 ∧
        ∀ id, (t.withRecord runId unknown f hf).2.get id = if id = runId then some (f r).2 else t.get id :=
      withRecord_some hr
    rw [h] at hres hruns
    exact ⟨r, rfl, hres.symm, (hruns runId).trans (if_pos rfl)⟩

/-- A section whose work on a record fails and keeps it, or makes a move. -/
theorem withRecord_section {label : RecordLabel}
    (hcases : ∀ r, t.get runId = some r →
      (∃ e, f r = (.error e, r)) ∨ ∃ a r', f r = (.ok a, r') ∧ RecordMove label r r') :
    SectionResult t runId label (t.withRecord runId unknown f hf) := by
  cases hr : t.get runId with
  | none =>
    rw [withRecord_none hr]
    exact .failed unknown rfl (fun _ => rfl) rfl
  | some r =>
    obtain ⟨hres, hget⟩ : (t.withRecord runId unknown f hf).1 = (f r).1 ∧ ∀ id,
        (t.withRecord runId unknown f hf).2.get id = if id = runId then some (f r).2 else t.get id :=
      withRecord_some hr
    obtain ⟨e, he⟩ | ⟨a, r', ha, hmove⟩ := hcases r hr
    · rw [he] at hres hget
      refine .failed e hres (fun id => ?_) withRecord_operations
      rw [hget]
      split
      · subst id
        exact hr.symm
      · rfl
    · rw [ha] at hres hget
      exact .done a hres hr hmove hget withRecord_operations

/-- A section that touches neither the state nor the log. -/
theorem withRecord_inner (hinner : ∀ r, RecordMove .inner r (f r).2) :
    InnerStep t runId (t.withRecord runId unknown f hf).2 := by
  cases hr : t.get runId with
  | none =>
    rw [withRecord_none hr]
    exact .inl (.refl t)
  | some r => exact .inr ⟨⟨r, _, hr, hinner r, (withRecord_some hr).2⟩, withRecord_operations⟩

end WithRecord

/-! ### One lemma for each section -/

theorem register_cases (t : RunTable) (context : RunContext) (limits : RunLimits) :
    (t.register context limits = (.error .identifierCollision, t)) ∨
    (t.get context.runId = none ∧ (t.register context limits).1 = .ok context ∧
      (∀ id, (t.register context limits).2.get id =
        if id = context.runId then some (.new context limits) else t.get id) ∧
      (t.register context limits).2.operations = t.operations) := by
  unfold register
  split
  · exact .inl rfl
  rename_i hnew
  exact .inr ⟨Option.not_isSome_iff_eq_none.1 hnew, rfl, fun id => HashMap.lookup_insert_ite _ _ _ _, rfl⟩

theorem register_step (t : RunTable) (context : RunContext) (limits : RunLimits) :
    TableStep t (t.register context limits).2 := by
  obtain h | ⟨hnew, -, hget, hops⟩ := t.register_cases context limits
  · rw [h]
    exact .refl t
  · exact .registered context limits hnew hget hops

theorem setState_section (ht : t.WellFormed) (runId : RunId) (state : RunState) :
    SectionResult t runId (.appends (.stateChanged state)) (t.setState runId state) := by
  refine withRecord_section fun r hr => ?_
  obtain he | ⟨hopen, hstate, h⟩ := RunRecord.setState_cases (ht runId r hr) state
  · exact .inl he
  · exact .inr ⟨_, _, h, .stateChanged hopen hstate⟩

theorem emit_section (ht : t.WellFormed) (runId : RunId) {event : RunEvent}
    (hterminal : event.terminalState = none) (hstarted : event.isRunStarted = false) :
    SectionResult t runId (.appends event) (t.emit runId event) := by
  refine withRecord_section fun r hr => ?_
  obtain ⟨-, he⟩ | ⟨hopen, h⟩ := RunRecord.emit_cases (ht runId r hr) event
  · exact .inl ⟨_, he⟩
  · exact .inr ⟨_, _, h, .emitted hopen hterminal hstarted⟩

/-- The states in which a section on a run fails. -/
def Closed (t : RunTable) (runId : RunId) : Prop :=
  ∀ r, t.get runId = some r → r.state.isTerminal = true

theorem emit_closed (ht : t.WellFormed) {runId : RunId} {event : RunEvent} {e : RunTableError}
    {t' : RunTable} (h : t.emit runId event = (.error e, t')) : t.Closed runId := by
  intro r hr
  have hres : (t.emit runId event).1 = (r.emit event).1 := (withRecord_some hr).1
  obtain ⟨hterm, -⟩ | ⟨-, hok⟩ := RunRecord.emit_cases (ht runId r hr) event
  · exact hterm
  · rw [h, hok] at hres
    cases hres

theorem setState_closed (ht : t.WellFormed) {runId : RunId} {state : RunState} {e : RunTableError}
    {t' : RunTable} (hstate : state.isTerminal = false) (h : t.setState runId state = (.error e, t')) :
    t.Closed runId := by
  intro r hr
  have hres : (t.setState runId state).1 = (r.setState state).1 := (withRecord_some hr).1
  rw [h] at hres
  by_contra hopen
  rw [Bool.not_eq_true] at hopen
  rw [RunRecord.setState_open (ht runId r hr) hopen hstate] at hres
  cases hres

theorem finishRecord_section (ht : t.WellFormed) (runId : RunId) (f : FinishEvent) :
    SectionResult t runId (.appends f.event) (t.finishRecord runId f) := by
  refine withRecord_section fun r hr => ?_
  obtain ⟨-, he⟩ | ⟨hopen, h⟩ := RunRecord.finish_cases (ht runId r hr) f
  · exact .inl ⟨_, he⟩
  · exact .inr ⟨_, _, h, .finished f hopen⟩

theorem cancelRecord_section (ht : t.WellFormed) (runId : RunId) :
    SectionResult t runId (.appends .cancelled) (t.cancelRecord runId) := by
  refine withRecord_section fun r hr => ?_
  obtain ⟨-, he⟩ | ⟨hopen, h⟩ := RunRecord.cancel_cases (ht runId r hr)
  · exact .inl ⟨_, he⟩
  · exact .inr ⟨_, _, h, .cancelled hopen⟩

theorem registerCancellationHook_section (t : RunTable) (runId : RunId) (hook : RunCancellationHook) :
    SectionResult t runId .inner (t.registerCancellationHook runId hook) := by
  refine withRecord_section fun r _ => ?_
  obtain he | ⟨-, h⟩ := RunRecord.registerHook_cases r hook
  · exact .inl he
  · exact .inr ⟨_, _, h, .inner rfl rfl rfl rfl rfl rfl⟩

theorem recordToolExecution_section (t : RunTable) (runId : RunId) (id : ToolInvocationId)
    (result : ToolResult) : SectionResult t runId (.recorded id result) (t.recordToolExecution runId id result) :=
  withRecord_section fun _ _ => .inr ⟨_, _, rfl, .recorded⟩

theorem recordToolExecution_closed {runId : RunId} {id : ToolInvocationId} {result : ToolResult}
    {e : RunTableError} {t' : RunTable} (h : t.recordToolExecution runId id result = (.error e, t')) :
    t.Closed runId := by
  intro r hr
  have hres : (t.recordToolExecution runId id result).1 = .ok () := (withRecord_some hr).1
  rw [h] at hres
  cases hres

theorem consumeModelRound_inner (t : RunTable) (runId : RunId) (elapsed : Duration) :
    InnerStep t runId (t.consumeModelRound runId elapsed).2 :=
  withRecord_inner fun _ => .inner rfl rfl rfl rfl rfl rfl

theorem consumeToolInvocation_inner (t : RunTable) (runId : RunId) (elapsed : Duration) :
    InnerStep t runId (t.consumeToolInvocation runId elapsed).2 :=
  withRecord_inner fun _ => .inner rfl rfl rfl rfl rfl rfl

end RunTable

/-! ### What a section keeps of a run -/

/-- The run stays in the table, and what `f` reads of its record stays too. -/
def Keeps {β : Type} (f : RunRecord → β) (runId : RunId) (t t' : RunTable) : Prop :=
  ∀ r, t.get runId = some r → ∃ r', t'.get runId = some r' ∧ f r' = f r

section Keeps
variable {β : Type} {f : RunRecord → β} {runId id : RunId} {t t' : RunTable}

theorem Keeps.refl (f : RunRecord → β) (runId : RunId) (t : RunTable) : Keeps f runId t t :=
  fun r hr => ⟨r, hr, rfl⟩

theorem Keeps.of_get (h : ∀ id, t'.get id = t.get id) : Keeps f runId t t' :=
  fun r hr => ⟨r, (h runId).trans hr, rfl⟩

theorem SameTable.keeps (h : SameTable t t') : Keeps f runId t t' := .of_get h.runs

theorem keeps_withRecord {ε α : Type} {unknown : ε} {g : RunRecord → Except ε α × RunRecord}
    {hg : ∀ r, (g r).2.context = r.context} (hkeeps : id = runId → ∀ r, f (g r).2 = f r) :
    Keeps f runId t (t.withRecord id unknown g hg).2 := by
  cases hget : t.get id with
  | none =>
    rw [RunTable.withRecord_none hget]
    exact .refl f runId t
  | some r₀ =>
    intro r hr
    rw [(RunTable.withRecord_some hget).2 runId]
    split
    · rename_i hid
      rw [hid, hget, Option.some.injEq] at hr
      subst hr
      exact ⟨_, rfl, hkeeps hid.symm r₀⟩
    · exact ⟨r, hr, rfl⟩

theorem keeps_register (context : RunContext) (limits : RunLimits) :
    Keeps f runId t (t.register context limits).2 := by
  rcases t.register_cases context limits with h | ⟨hnew, -, hruns, -⟩
  · rw [h]
    exact .refl f runId t
  · intro r hr
    rw [hruns runId, if_neg fun hid => by rw [hid, hnew] at hr; cases hr]
    exact ⟨r, hr, rfl⟩

/-- A move on the record of a run keeps what it keeps of the record. -/
theorem Moved.keeps {label : RecordLabel} (h : Moved t id label t')
    (hkeeps : ∀ r r', RecordMove label r r' → f r' = f r) : Keeps f runId t t' := by
  obtain ⟨r₀, r', hr₀, hmove, hruns⟩ := h.move
  intro r hr
  rw [hruns runId]
  split
  · rename_i hid
    rw [hid, hr₀, Option.some.injEq] at hr
    subst hr
    exact ⟨r', rfl, hkeeps _ _ hmove⟩
  · exact ⟨r, hr, rfl⟩

end Keeps

end Aifluxon
