import Aifluxon.Lib.SealedLog
import Aifluxon.Runtime.Budget
import Aifluxon.Runtime.Operations
import Aifluxon.Runtime.Tools

/-!
# The record of a run

What the critical sections of `RunTable` (`run_table.rs`) do to the record of one run.

* `RunRecord.setState`, `.emit`, `.finish`, `.cancel`, `.registerHook` : the sections;
* `RunRecord.WellFormed` : the log, the state and the token of a run agree;
* `RecordMove` : all that a section can do to a well-formed record (`RecordMove.wellFormed`);
* `RunRecord.setState_cases` and its like : a section fails and changes nothing, or makes its move.
-/

namespace Aifluxon

/-! ## Errors -/

inductive RunTableError where
  | identifierCollision
  | unknownRun
  | runTerminal
  | invalidTransition (src dst : RunState)
  | pendingOperations
  | storeUnavailable
  | operation (error : OperationError)
  deriving DecidableEq

def RunTableError.message : RunTableError → String
  | .identifierCollision => "Run identifier collision."
  | .unknownRun => "Run was not found."
  | .runTerminal => "Run is already terminal."
  | .invalidTransition src dst =>
    "Invalid run state transition from " ++ src.debug ++ " to " ++ dst.debug ++ "."
  | .pendingOperations => "Run cannot finish while operations are still pending."
  | .storeUnavailable => "Run table is unavailable."
  | .operation error => error.message

/-! ## The record of a run -/

/-- Code of the host that `cancel` calls. -/
abbrev RunCancellationHook := RunId → Except String Unit

/-- `cancelled` is the flag of the run's cancellation token. -/
structure RunRecord where
  context : RunContext
  limits : RunLimits
  state : RunState
  cancelled : Bool
  budget : AgentLoopBudget
  ledger : ToolLedger
  hooks : List RunCancellationHook
  events : List RunEventEnvelope

/-- `is_terminal` of `run_table.rs`. -/
def RunState.isTerminal : RunState → Bool
  | .completed | .failed | .cancelled => true
  | .running | .awaitingOperation => false

/-- The events that `finish` is called with. -/
inductive FinishEvent where
  | completed (output : List Message)
  | failed (message : String)
  deriving DecidableEq

namespace FinishEvent

def event : FinishEvent → RunEvent
  | .completed output => .completed output
  | .failed message => .failed message

def state : FinishEvent → RunState
  | .completed _ => .completed
  | .failed _ => .failed

@[simp] theorem terminalState_event (f : FinishEvent) : f.event.terminalState = some f.state := by
  cases f <;> rfl

@[simp] theorem isRunStarted_event (f : FinishEvent) : f.event.isRunStarted = false := by
  cases f <;> rfl

@[simp] theorem isTerminal_state (f : FinishEvent) : f.state.isTerminal = true := by
  cases f <;> rfl

theorem state_ne_cancelled (f : FinishEvent) : f.state ≠ .cancelled := by
  cases f <;> simp [state]

end FinishEvent

namespace RunRecord

def new (context : RunContext) (limits : RunLimits) : RunRecord where
  context := context
  limits := limits
  state := .running
  cancelled := false
  budget := AgentLoopBudget.fromRunLimits limits
  ledger := ToolLedger.new
  hooks := []
  events := [⟨1, context.runId, .runStarted context⟩]

/-- The final state that an envelope carries. -/
def final (e : RunEventEnvelope) : Option RunState := e.event.terminalState

def nextSequence (r : RunRecord) : Nat :=
  match r.events.getLast? with
  | some last => saturatingAdd last.sequence 1
  | none => 1

def push (r : RunRecord) (event : RunEvent) : RunRecord :=
  { r with events := r.events ++ [⟨r.nextSequence, r.context.runId, event⟩] }

def appendEvent (r : RunRecord) (event : RunEvent) : Except RunTableError Nat × RunRecord :=
  if (sealOf final r.events).isSome then (.error .runTerminal, r)
  else (.ok r.nextSequence, r.push event)

/-- The transitions that `set_state` admits. -/
def allowed : RunState → RunState → Bool
  | .running, .running | .running, .awaitingOperation
  | .awaitingOperation, .awaitingOperation | .awaitingOperation, .running => true
  | _, _ => false

/-- The state is set before the event is appended. -/
def setState (r : RunRecord) (state : RunState) : Except RunTableError Nat × RunRecord :=
  if r.state.isTerminal then (.error .runTerminal, r)
  else if ¬ allowed r.state state then (.error (.invalidTransition r.state state), r)
  else { r with state := state }.appendEvent (.stateChanged state)

def emit (r : RunRecord) (event : RunEvent) : Except RunTableError Nat × RunRecord :=
  if r.state.isTerminal then (.error .runTerminal, r) else r.appendEvent event

def finish (r : RunRecord) (f : FinishEvent) : Except RunTableError Nat × RunRecord :=
  if r.state.isTerminal then (.error .runTerminal, r)
  else { r with state := f.state }.appendEvent f.event

/-- Gives the hooks, which are called after the lock is dropped. -/
def cancel (r : RunRecord) : Except RunTableError (List RunCancellationHook) × RunRecord :=
  if r.state.isTerminal then (.error .runTerminal, r)
  else match { r with state := .cancelled, cancelled := true }.appendEvent .cancelled with
    | (.error error, r') => (.error error, r')
    | (.ok _, r') => (.ok r'.hooks, { r' with hooks := [] })

def registerHook (r : RunRecord) (hook : RunCancellationHook) : Except RunTableError Unit × RunRecord :=
  if r.state.isTerminal then (.error .runTerminal, r)
  else (.ok (), { r with hooks := r.hooks ++ [hook] })

/-! ### Well-formed records -/

/-- The log is numbered and sealed, and the state and the token say what its last event says. -/
structure WellFormed (r : RunRecord) : Prop where
  log : SealedLog RunEventEnvelope.sequence (fun e => e.event.isRunStarted) final u64Max r.events
  started : r.events.head? = some ⟨1, r.context.runId, .runStarted r.context⟩
  owned : ∀ e ∈ r.events, e.runId = r.context.runId
  state : sealOf final r.events = if r.state.isTerminal then some r.state else none
  token : r.cancelled = true ↔ r.state = .cancelled

variable {r r' : RunRecord}

@[simp] theorem push_context (r : RunRecord) (event : RunEvent) : (r.push event).context = r.context := rfl
@[simp] theorem push_limits (r : RunRecord) (event : RunEvent) : (r.push event).limits = r.limits := rfl
@[simp] theorem push_state (r : RunRecord) (event : RunEvent) : (r.push event).state = r.state := rfl
@[simp] theorem push_cancelled (r : RunRecord) (event : RunEvent) :
    (r.push event).cancelled = r.cancelled := rfl
@[simp] theorem push_budget (r : RunRecord) (event : RunEvent) : (r.push event).budget = r.budget := rfl
@[simp] theorem push_ledger (r : RunRecord) (event : RunEvent) : (r.push event).ledger = r.ledger := rfl
@[simp] theorem push_hooks (r : RunRecord) (event : RunEvent) : (r.push event).hooks = r.hooks := rfl

theorem new_wellFormed (context : RunContext) (limits : RunLimits) : (new context limits).WellFormed where
  log := .single rfl (by simp [u64Max])
  started := rfl
  owned := by simp [new]
  state := rfl
  token := by simp [new]

theorem WellFormed.nextSequence_eq (h : r.WellFormed) :
    r.nextSequence = min (r.events.length + 1) u64Max := by
  obtain ⟨init, last, hlast⟩ := List.eq_nil_or_concat r.events |>.resolve_left h.log.ne_nil
  have hget : r.events.getLast? = some last := by rw [hlast]; simp
  have hnum := h.log.last_number hget
  simp only [nextSequence, hget, saturatingAdd, hnum]
  omega

/-- An event is appended to the log of an open run, whose state may change with it. -/
theorem WellFormed.push (h : r.WellFormed) (hopen : r.state.isTerminal = false) {event : RunEvent}
    (hs : event.isRunStarted = false) (hcontext : r'.context = r.context)
    (hevents : r'.events = (r.push event).events)
    (hstate : event.terminalState = if r'.state.isTerminal then some r'.state else none)
    (htoken : r'.cancelled = true ↔ r'.state = .cancelled) : r'.WellFormed where
  log := by
    rw [hevents]
    refine h.log.snoc ?_ hs h.nextSequence_eq
    rw [h.state, hopen]
    rfl
  started := by
    rw [hevents, RunRecord.push, hcontext, List.head?_append, h.started]
    rfl
  owned := by
    intro e he
    rw [hevents, RunRecord.push] at he
    rw [hcontext]
    rcases List.mem_append.1 he with he | he
    · exact h.owned e he
    · rw [List.mem_singleton.1 he]
  state := by
    rw [hevents, RunRecord.push, SealedLog.sealOf_snoc]
    exact hstate
  token := htoken

/-- Nothing is appended past a terminal event, so that no append fails after a state is set. -/
theorem WellFormed.appendEvent (h : r.WellFormed) (hopen : r.state.isTerminal = false)
    (r' : RunRecord) (hevents : r'.events = r.events) (event : RunEvent) :
    r'.appendEvent event = (.ok r'.nextSequence, r'.push event) := by
  have hseal := h.state
  rw [hopen] at hseal
  simp [RunRecord.appendEvent, hevents, hseal]

end RunRecord

/-- What a critical section does to a record, beyond its state. -/
inductive RecordLabel where
  | inner
  | recorded (id : ToolInvocationId) (result : ToolResult)
  | appends (event : RunEvent)

/-- The event that is appended. -/
def RecordLabel.event? : RecordLabel → Option RunEvent
  | .inner | .recorded .. => none
  | .appends e => some e

/-- All that a critical section can do to a well-formed record. -/
inductive RecordMove : RecordLabel → RunRecord → RunRecord → Prop where
  | inner {r r' : RunRecord} (hcontext : r'.context = r.context) (hlimits : r'.limits = r.limits)
      (hstate : r'.state = r.state) (hcancelled : r'.cancelled = r.cancelled)
      (hledger : r'.ledger = r.ledger) (hevents : r'.events = r.events) : RecordMove .inner r r'
  | recorded {r : RunRecord} {id : ToolInvocationId} {result : ToolResult} :
      RecordMove (.recorded id result) r { r with ledger := r.ledger.record id result }
  | stateChanged {r : RunRecord} {state : RunState} (hopen : r.state.isTerminal = false)
      (hstate : state.isTerminal = false) :
      RecordMove (.appends (.stateChanged state)) r ({ r with state := state }.push (.stateChanged state))
  | emitted {r : RunRecord} {event : RunEvent} (hopen : r.state.isTerminal = false)
      (hterminal : event.terminalState = none) (hstarted : event.isRunStarted = false) :
      RecordMove (.appends event) r (r.push event)
  | finished {r : RunRecord} (f : FinishEvent) (hopen : r.state.isTerminal = false) :
      RecordMove (.appends f.event) r ({ r with state := f.state }.push f.event)
  | cancelled {r : RunRecord} (hopen : r.state.isTerminal = false) :
      RecordMove (.appends .cancelled) r
        { { r with state := .cancelled, cancelled := true }.push .cancelled with hooks := [] }

namespace RecordMove

variable {label : RecordLabel} {r r' : RunRecord}

theorem refl (r : RunRecord) : RecordMove .inner r r := .inner rfl rfl rfl rfl rfl rfl

/-- Only a recording touches the ledger. -/
theorem ledger_eq (h : RecordMove label r r') (hl : ∀ id result, label ≠ .recorded id result) :
    r'.ledger = r.ledger := by
  cases h with
  | inner _ _ _ _ hledger => exact hledger
  | recorded => exact absurd rfl (hl _ _)
  | stateChanged | emitted | finished | cancelled => rfl

theorem wellFormed (h : RecordMove label r r') (hr : r.WellFormed) : r'.WellFormed := by
  have hfalse (hopen : r.state.isTerminal = false) : r.cancelled = true ↔ False := by
    rw [hr.token, iff_false]
    intro hc
    simp [hc, RunState.isTerminal] at hopen
  cases h with
  | inner hcontext _ hstate hcancelled _ hevents =>
    refine ⟨hevents ▸ hr.log, ?_, ?_, ?_, ?_⟩
    · rw [hevents, hcontext]
      exact hr.started
    · rw [hevents, hcontext]
      exact hr.owned
    · rw [hevents, hstate]
      exact hr.state
    · rw [hcancelled, hstate]
      exact hr.token
  | recorded => exact ⟨hr.log, hr.started, hr.owned, hr.state, hr.token⟩
  | stateChanged hopen hstate =>
    refine hr.push hopen rfl rfl rfl (by simp [RunEvent.terminalState, hstate]) ?_
    refine (hfalse hopen).trans (iff_of_false id fun hc => ?_)
    rw [RunRecord.push_state] at hc
    subst hc
    cases hstate
  | emitted hopen hterminal hstarted =>
    refine hr.push hopen hstarted rfl rfl ?_ hr.token
    rw [hterminal, RunRecord.push_state, hopen]
    rfl
  | finished f hopen =>
    refine hr.push hopen (by simp) rfl rfl (by simp) ?_
    exact (hfalse hopen).trans (iff_of_false id f.state_ne_cancelled)
  | cancelled hopen => exact hr.push hopen rfl rfl rfl rfl (by simp)

/-- The log only grows, by the event of the move. -/
theorem events_eq (h : RecordMove label r r') :
    r'.events = r.events ++ (label.event?.map fun event =>
      (⟨r.nextSequence, r.context.runId, event⟩ : RunEventEnvelope)).toList := by
  cases h with
  | inner _ _ _ _ _ hevents => simpa [RecordLabel.event?] using hevents
  | recorded => simp [RecordLabel.event?]
  | stateChanged | emitted | finished | cancelled => rfl

theorem events_prefix (h : RecordMove label r r') : r.events <+: r'.events :=
  ⟨_, h.events_eq.symm⟩

/-- A terminal run stays as it is. -/
theorem of_terminal (h : RecordMove label r r') (hr : r.state.isTerminal = true) :
    label.event? = none ∧ r'.state = r.state ∧ r'.events = r.events := by
  cases h with
  | inner _ _ hstate _ _ hevents => exact ⟨rfl, hstate, hevents⟩
  | recorded => exact ⟨rfl, rfl, rfl⟩
  | stateChanged hopen | emitted hopen | finished _ hopen | cancelled hopen =>
    rw [hr] at hopen
    cases hopen

/-- An event is appended to an open run only, and a terminal one leaves its state behind. -/
theorem of_event {event : RunEvent} (h : RecordMove (.appends event) r r') :
    r.state.isTerminal = false ∧ ∀ s, event.terminalState = some s → r'.state = s := by
  generalize hl : RecordLabel.appends event = l at h
  cases h with
  | inner | recorded => cases hl
  | stateChanged hopen =>
    cases hl
    exact ⟨hopen, by simp [RunEvent.terminalState]⟩
  | emitted hopen hterminal =>
    cases hl
    exact ⟨hopen, by simp [hterminal]⟩
  | finished f hopen =>
    cases hl
    exact ⟨hopen, by simp⟩
  | cancelled hopen =>
    cases hl
    exact ⟨hopen, by simp [RunEvent.terminalState]⟩

/-- A run becomes terminal by the terminal event of the move. -/
theorem state_of_terminal (h : RecordMove label r r') (hr : r.state.isTerminal = false)
    (hr' : r'.state.isTerminal = true) : label.event?.bind RunEvent.terminalState = some r'.state := by
  cases h with
  | inner _ _ hstate =>
    rw [hstate, hr] at hr'
    cases hr'
  | recorded =>
    rw [hr] at hr'
    cases hr'
  | stateChanged hopen hstate =>
    rw [RunRecord.push_state] at hr'
    exact absurd hr' (by simp [hstate])
  | emitted => exact absurd hr' (by simp [hr])
  | finished f => simp [RecordLabel.event?]
  | cancelled => rfl

/-- A run comes into a terminal state by an event that leaves this state behind. -/
theorem ends_of {state : RunState} (h : RecordMove label r r') (hstate : state.isTerminal = true)
    (hr : r.state ≠ state) (hr' : r'.state = state) : label.event?.bind RunEvent.terminalState = some state := by
  by_cases hterm : r.state.isTerminal = true
  · exact absurd ((h.of_terminal hterm).2.1.symm.trans hr') hr
  · rw [Bool.not_eq_true] at hterm
    rw [h.state_of_terminal hterm (by rw [hr', hstate]), hr']

end RecordMove

namespace RunRecord

variable {r : RunRecord}

/-! ### Terminal events -/

/-- The log holds the event. -/
def Logs (r : RunRecord) (event : RunEvent) : Prop := ∃ e ∈ r.events, e.event = event

/-- The last event of the log. -/
def EndsWith (r : RunRecord) (event : RunEvent) : Prop := ∃ e, r.events.getLast? = some e ∧ e.event = event

theorem EndsWith.logs {event : RunEvent} (h : r.EndsWith event) : r.Logs event := by
  obtain ⟨e, he, hevent⟩ := h
  exact ⟨e, List.mem_of_getLast? he, hevent⟩

theorem EndsWith.unique {event event' : RunEvent} (h : r.EndsWith event) (h' : r.EndsWith event') :
    event = event' := by
  obtain ⟨e, he, rfl⟩ := h
  obtain ⟨e', he', rfl⟩ := h'
  rw [he, Option.some.injEq] at he'
  rw [he']

/-- A terminal event stands last and gives the state. -/
theorem WellFormed.of_logs (h : r.WellFormed) {event : RunEvent} {state : RunState} (hl : r.Logs event)
    (hfinal : event.terminalState = some state) : r.EndsWith event ∧ r.state = state := by
  obtain ⟨e, he, rfl⟩ := hl
  refine ⟨⟨e, h.log.last_of_final he hfinal, rfl⟩, ?_⟩
  have hseal := h.log.sealOf_of_final he hfinal
  rw [h.state] at hseal
  split at hseal
  · exact Option.some.inj hseal
  · cases hseal

/-! ### One lemma for each section -/

theorem allowed_open {a b : RunState} (h : allowed a b = true) : b.isTerminal = false := by
  cases a <;> cases b <;> simp [allowed, RunState.isTerminal] at h ⊢

theorem setState_cases (h : r.WellFormed) (state : RunState) :
    (∃ e, r.setState state = (.error e, r)) ∨
    (r.state.isTerminal = false ∧ state.isTerminal = false ∧ r.setState state =
      (.ok { r with state := state }.nextSequence, { r with state := state }.push (.stateChanged state))) := by
  unfold setState
  split
  · exact .inl ⟨_, rfl⟩
  rename_i hopen
  rw [Bool.not_eq_true] at hopen
  split
  · exact .inl ⟨_, rfl⟩
  rename_i hallowed
  exact .inr ⟨hopen, allowed_open (by simpa using hallowed), h.appendEvent hopen { r with state } rfl _⟩

/-- An open run may go to any open state. -/
theorem setState_open (h : r.WellFormed) (hopen : r.state.isTerminal = false) {state : RunState}
    (hstate : state.isTerminal = false) : r.setState state =
      (.ok { r with state := state }.nextSequence, { r with state := state }.push (.stateChanged state)) := by
  have hallowed : allowed r.state state = true := by
    revert hopen hstate
    cases r.state <;> cases state <;> simp [allowed, RunState.isTerminal]
  rw [setState, hopen, hallowed]
  exact h.appendEvent hopen { r with state } rfl _

theorem emit_cases (h : r.WellFormed) (event : RunEvent) :
    (r.state.isTerminal = true ∧ r.emit event = (.error .runTerminal, r)) ∨
    (r.state.isTerminal = false ∧ r.emit event = (.ok r.nextSequence, r.push event)) := by
  unfold emit
  split
  · exact .inl ⟨‹_›, rfl⟩
  rename_i hopen
  rw [Bool.not_eq_true] at hopen
  exact .inr ⟨hopen, h.appendEvent hopen r rfl _⟩

theorem finish_cases (h : r.WellFormed) (f : FinishEvent) :
    (r.state.isTerminal = true ∧ r.finish f = (.error .runTerminal, r)) ∨
    (r.state.isTerminal = false ∧ r.finish f =
      (.ok { r with state := f.state }.nextSequence, { r with state := f.state }.push f.event)) := by
  unfold finish
  split
  · exact .inl ⟨‹_›, rfl⟩
  rename_i hopen
  rw [Bool.not_eq_true] at hopen
  exact .inr ⟨hopen, h.appendEvent hopen { r with state := f.state } rfl _⟩

theorem cancel_cases (h : r.WellFormed) :
    (r.state.isTerminal = true ∧ r.cancel = (.error .runTerminal, r)) ∨
    (r.state.isTerminal = false ∧ r.cancel = (.ok r.hooks,
      { { r with state := .cancelled, cancelled := true }.push .cancelled with hooks := [] })) := by
  unfold cancel
  split
  · exact .inl ⟨‹_›, rfl⟩
  rename_i hopen
  rw [Bool.not_eq_true] at hopen
  refine .inr ⟨hopen, ?_⟩
  rw [h.appendEvent hopen { r with state := .cancelled, cancelled := true } rfl]
  rfl

theorem registerHook_cases (r : RunRecord) (hook : RunCancellationHook) :
    (∃ e, r.registerHook hook = (.error e, r)) ∨
    (r.state.isTerminal = false ∧
      r.registerHook hook = (.ok (), { r with hooks := r.hooks ++ [hook] })) := by
  unfold registerHook
  split
  · exact .inl ⟨_, rfl⟩
  rename_i hopen
  exact .inr ⟨by simpa using hopen, rfl⟩

theorem appendEvent_context (r : RunRecord) (event : RunEvent) :
    (r.appendEvent event).2.context = r.context := by
  unfold appendEvent
  split <;> rfl

theorem setState_context (r : RunRecord) (state : RunState) : (r.setState state).2.context = r.context := by
  unfold setState
  split
  · rfl
  split
  · rfl
  · exact appendEvent_context _ _

theorem emit_context (r : RunRecord) (event : RunEvent) : (r.emit event).2.context = r.context := by
  unfold emit
  split
  · rfl
  · exact appendEvent_context _ _

theorem finish_context (r : RunRecord) (f : FinishEvent) : (r.finish f).2.context = r.context := by
  unfold finish
  split
  · rfl
  · exact appendEvent_context _ _

theorem cancel_context (r : RunRecord) : r.cancel.2.context = r.context := by
  have h := appendEvent_context { r with state := .cancelled, cancelled := true } .cancelled
  unfold cancel
  split
  · rfl
  split
  · rename_i heq
    rwa [heq] at h
  · rename_i heq
    rwa [heq] at h

theorem registerHook_context (r : RunRecord) (hook : RunCancellationHook) :
    (r.registerHook hook).2.context = r.context := by
  unfold registerHook
  split <;> rfl

end RunRecord

end Aifluxon
