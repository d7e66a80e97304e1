import Aifluxon.Lib.OnceMap
import Aifluxon.Runtime.Once
import Aifluxon.Runtime.Rounds

/-!
# The loop over a function

`run_model_tool_loop` of `coordinator.rs`, which runs its tools by one function, over `execute_once_recorded`
and `ToolLedger::execute_once`. Any number of such loops may run on one run, beside the calls of the host and
others that record results and spend the budget.

* `PlainLoop.step`, `plainMachine` : a step of a loop, and the loops on one table;
* `PlainSystem.ledger`, `plain_ledger_step` : the ledger of the run is a map whose values are computed once;
* `HeldRight` : the loop that executes holds the ledger;
* `plain_executed_once` : no call is executed twice, and all loops answer it alike;
* `PlainAccount`, `plain_bounded` : all loops together keep the limits of the run, and each answers the calls that it has
  paid for.
-/

namespace Aifluxon

open Machine (Free)

/-! ## A loop -/

structure PlainEnv where
  runId : RunId
  serde : Serde
  /-- The version 5 identifier of a text. -/
  stableKey : String → Uuid

/-- `ToolInvocationId::from_stable_key(&call.id.hyphenated())`. -/
def PlainEnv.key (env : PlainEnv) (call : ToolCall) : ToolInvocationId := ⟨env.stableKey (hyphenated call.id.uuid)⟩

inductive PlainPhase where
  | start
  | consumeRound
  | awaiting
  | consumeTool (call : ToolCall) (rest : List ToolCall)
  | claim (call : ToolCall) (rest : List ToolCall)
  | executing (call : ToolCall) (rest : List ToolCall)
  | returned (res : Except ProviderError ModelTurn)

structure PlainLoop where
  request : ModelTurnRequest
  continuations : ContinuationCounts
  phase : PlainPhase

inductive PlainStep where
  | step
  | consume (elapsed : Duration)
  | turn (res : Except ProviderError ModelTurn)
  | finish (value : Value)

/-- What is seen of the loops. -/
inductive PlainObs (ι : Type) where
  | ledger (e : OnceEvent ι ToolInvocationId ToolResult)
  | asked (i : ι)
  | paid (i : ι) (call : ToolCall)
  | answered (i : ι) (call : ToolCall) (value : Value)

namespace PlainLoop

def new (request : ModelTurnRequest) : PlainLoop := ⟨request, .forLimits .unlimited, .start⟩

def failed (loop : PlainLoop) (message : String) : PlainLoop :=
  { loop with phase := .returned (.error ⟨message⟩) }

/-- The next call of a turn, or the next turn. -/
def next : List ToolCall → PlainPhase
  | [] => .consumeRound
  | call :: rest => .consumeTool call rest

/-- What the loop does with a turn. -/
def receive (loop : PlainLoop) (turn : ModelTurn) : PlainLoop :=
  let request := { loop.request with opaqueState := some turn.opaqueValue }
  match turn.terminal.continuationReason with
  | some reason => match loop.continuations.tryBegin reason with
    | (true, continuations) => ⟨applyContinuation request turn reason, continuations, .consumeRound⟩
    | (false, continuations) =>
      failed ⟨request, continuations, loop.phase⟩ "Model continuation limit reached before the task completed."
  | none =>
    if turn.toolCalls = [] ∨ turn.terminal ≠ .toolCalls then ⟨request, loop.continuations, .returned (.ok turn)⟩
    else ⟨{ request with messages := request.messages ++ [assistantMessage turn] },
      loop.continuations.resetIncomplete, next turn.toolCalls⟩

/-- The message of a call; the content of a recorded result is not sent. -/
def answer (env : PlainEnv) (loop : PlainLoop) (call : ToolCall) (rest : List ToolCall) (value : Value) : PlainLoop where
  request := { loop.request with
    messages := loop.request.messages ++ [toolMessage env.serde call (.fromValue value)] }
  continuations := loop.continuations
  phase := next rest

variable {ι : Type} (env : PlainEnv) (t : RunTable) (free : Bool) (i : ι)

/-- A step of the loop `i`; `free` : nobody holds the ledger. -/
def step (loop : PlainLoop) (a : PlainStep) : Option (PlainLoop × RunTable × List (PlainObs ι)) :=
  match loop.phase, a with
  | .start, .step => match t.limits env.runId with
    | .error e => some (loop.failed e.message, t, [])
    | .ok limits => some ({ loop with continuations := .forLimits limits, phase := .consumeRound }, t, [])
  | .consumeRound, .consume elapsed => match t.consumeModelRound env.runId elapsed with
    | (.error e, t') => some (loop.failed (CallPhase.budgetMessage e), t', [])
    | (.ok (), t') => some ({ loop with phase := .awaiting }, t', [.asked i])
  | .awaiting, .turn (.error e) => some ({ loop with phase := .returned (.error e) }, t, [])
  | .awaiting, .turn (.ok turn) => some (loop.receive turn, t, [])
  | .consumeTool call rest, .consume elapsed => match t.consumeToolInvocation env.runId elapsed with
    | (.error e, t') => some (loop.failed (CallPhase.budgetMessage e), t', [])
    | (.ok (), t') => some ({ loop with phase := .claim call rest }, t', [.paid i call])
  | .claim call rest, .step => match t.get env.runId with
    | none =>
      let value := errorValue RunTableError.unknownRun.message
      some (loop.answer env call rest value, t, [.answered i call value])
    | some r =>
      if ¬ free then none
      else match r.ledger.get (env.key call) with
        | some result => some (loop.answer env call rest result.value, t,
            [.ledger (.found i (env.key call) result), .answered i call result.value])
        | none => some ({ loop with phase := .executing call rest }, t, [.ledger (.claimed i (env.key call))])
  | .executing call rest, .finish value =>
    some (loop.answer env call rest value, (t.recordToolExecution env.runId (env.key call) (.fromValue value)).2,
      [.ledger (.computed i (env.key call) (.fromValue value)), .answered i call value])
  | _, _ => none

/-- The call that is paid for and has no answer. -/
def pending? (loop : PlainLoop) : Option ToolCall :=
  match loop.phase with
  | .claim call _ | .executing call _ => some call
  | _ => none

/-- The call whose executor runs. -/
def executing? (loop : PlainLoop) : Option ToolCall :=
  match loop.phase with
  | .executing call _ => some call
  | _ => none

end PlainLoop

/-! ## The loops of a run -/

/-- The table, the loops, the calls of the host, and who holds the ledger of the run, for which call. -/
structure PlainSystem (ι : Type) where
  table : RunTable
  loops : ι → PlainLoop
  calls : List CallState
  held : Option (ι × ToolInvocationId)

inductive PlainAction (ι : Type) where
  | loop (i : ι) (a : PlainStep)
  | host (a : TableAction)
  | record (id : ToolInvocationId) (result : ToolResult)
  | consumeRound (elapsed : Duration)
  | consumeTool (elapsed : Duration)

/-- Who holds the ledger after a step of a loop: it takes it when its executor starts, and releases it when it ends. -/
def heldAfter {ι : Type} (env : PlainEnv) (i : ι) (loop loop' : PlainLoop) (held : Option (ι × ToolInvocationId)) :
    Option (ι × ToolInvocationId) :=
  match loop'.executing?, loop.executing? with
  | some call, _ => some (i, env.key call)
  | none, some _ => none
  | none, none => held

section Machine
variable {ι : Type} [DecidableEq ι] (env : PlainEnv)

/-- The loop `i` is `loop`, and the table `t`. -/
def PlainSystem.after (s : PlainSystem ι) (i : ι) (loop : PlainLoop) (t : RunTable) : PlainSystem ι where
  table := t
  loops := Function.update s.loops i loop
  calls := s.calls
  held := heldAfter env i (s.loops i) loop s.held

/-- The loops, the calls of the host, and others that record a result or spend the budget of the run. -/
def plainMachine : Machine (PlainSystem ι) (PlainAction ι) (PlainObs ι) where
  step s
    | .loop i a => (PlainLoop.step env s.table s.held.isNone i (s.loops i) a).map fun x =>
        (s.after env i x.1 x.2.1, x.2.2)
    | .host a => (tableMachine.step ⟨s.table, s.calls⟩ a).map fun x =>
        ({ s with table := x.1.table, calls := x.1.calls }, [])
    | .record id result =>
      if s.held.isSome then none
      else match s.table.get env.runId with
        | none => some (s, [])
        | some _ => some ({ s with table := (s.table.recordToolExecution env.runId id result).2 },
            [.ledger (.put id result)])
    | .consumeRound elapsed => some ({ s with table := (s.table.consumeModelRound env.runId elapsed).2 }, [])
    | .consumeTool elapsed => some ({ s with table := (s.table.consumeToolInvocation env.runId elapsed).2 }, [])

end Machine

/-! ## Steps of a loop -/

section Steps
variable {ι : Type} {env : PlainEnv} {t t' : RunTable} {free : Bool} {i : ι} {loop loop' : PlainLoop} {a : PlainStep}
  {o : List (PlainObs ι)}

/-- All that a step of a loop does. -/
inductive PlainMove (env : PlainEnv) (t : RunTable) (free : Bool) (i : ι) (loop : PlainLoop) :
    PlainLoop → RunTable → List (PlainObs ι) → Prop where
  | quiet {loop' : PlainLoop} (hidle : loop.pending? = none) (hidle' : loop'.pending? = none) :
      PlainMove env t free i loop loop' t []
  | exhausted {elapsed : Duration} {e : AgentBudgetExceeded} {t' : RunTable} (hidle : loop.pending? = none)
      (h : t.consumeModelRound env.runId elapsed = (.error e, t')) :
      PlainMove env t free i loop (loop.failed (CallPhase.budgetMessage e)) t' []
  | asked {elapsed : Duration} {t' : RunTable} (hidle : loop.pending? = none)
      (h : t.consumeModelRound env.runId elapsed = (.ok (), t')) :
      PlainMove env t free i loop { loop with phase := .awaiting } t' [.asked i]
  | refused {elapsed : Duration} {e : AgentBudgetExceeded} {t' : RunTable} (hidle : loop.pending? = none)
      (h : t.consumeToolInvocation env.runId elapsed = (.error e, t')) :
      PlainMove env t free i loop (loop.failed (CallPhase.budgetMessage e)) t' []
  | paid {call : ToolCall} {rest : List ToolCall} {elapsed : Duration} {t' : RunTable}
      (hphase : loop.phase = .consumeTool call rest) (h : t.consumeToolInvocation env.runId elapsed = (.ok (), t')) :
      PlainMove env t free i loop { loop with phase := .claim call rest } t' [.paid i call]
  | unknown {call : ToolCall} {rest : List ToolCall} (value : Value) (hphase : loop.phase = .claim call rest)
      (hrun : t.get env.runId = none) :
      PlainMove env t free i loop (loop.answer env call rest value) t [.answered i call value]
  | found {call : ToolCall} {rest : List ToolCall} {result : ToolResult} (hphase : loop.phase = .claim call rest)
      (hfree : free = true) (hresult : t.recorded env.runId (env.key call) = some result) :
      PlainMove env t free i loop (loop.answer env call rest result.value) t
        [.ledger (.found i (env.key call) result), .answered i call result.value]
  | claimed {call : ToolCall} {rest : List ToolCall} (hphase : loop.phase = .claim call rest) (hfree : free = true)
      (hresult : t.recorded env.runId (env.key call) = none) :
      PlainMove env t free i loop { loop with phase := .executing call rest } t [.ledger (.claimed i (env.key call))]
  | computed {call : ToolCall} {rest : List ToolCall} (value : Value) (hphase : loop.phase = .executing call rest) :
      PlainMove env t free i loop (loop.answer env call rest value)
        (t.recordToolExecution env.runId (env.key call) (.fromValue value)).2
        [.ledger (.computed i (env.key call) (.fromValue value)), .answered i call value]

theorem pending_next {rest : List ToolCall} (hphase : loop.phase = PlainLoop.next rest) : loop.pending? = none := by
  rw [PlainLoop.pending?, hphase]
  cases rest <;> rfl

theorem receive_pending (turn : ModelTurn) : (loop.receive turn).pending? = none := by
  unfold PlainLoop.receive
  split
  · split
    · rfl
    · rfl
  · split
    · rfl
    · exact pending_next rfl

theorem plainMove_of_step (h : loop.step env t free i a = some (loop', t', o)) :
    PlainMove env t free i loop loop' t' o := by
  unfold PlainLoop.step at h
  split at h <;> rename_i hphase
  case h_1 =>
    split at h
    · cases h
      exact .quiet (by rw [PlainLoop.pending?, hphase]) rfl
    · cases h
      exact .quiet (by rw [PlainLoop.pending?, hphase]) rfl
  case h_2 =>
    have hidle : loop.pending? = none := by rw [PlainLoop.pending?, hphase]
    split at h <;> rename_i hconsume <;> cases h
    · exact .exhausted hidle hconsume
    · exact .asked hidle hconsume
  case h_3 =>
    cases h
    exact .quiet (by rw [PlainLoop.pending?, hphase]) rfl
  case h_4 turn =>
    cases h
    exact .quiet (by rw [PlainLoop.pending?, hphase]) (receive_pending turn)
  case h_5 call rest elapsed =>
    have hidle : loop.pending? = none := by rw [PlainLoop.pending?, hphase]
    split at h <;> rename_i hconsume <;> cases h
    · exact .refused hidle hconsume
    · exact .paid hphase hconsume
  case h_6 call rest =>
    split at h
    · rename_i hrun
      cases h
      exact .unknown _ hphase hrun
    rename_i r hrun
    have hrecorded : t.recorded env.runId (env.key call) = r.ledger.get (env.key call) := by
      rw [RunTable.recorded, hrun, Option.bind_some]
    split at h
    · cases h
    rename_i hfree
    rw [not_not] at hfree
    split at h <;> rename_i hresult <;> cases h
    · exact .found hphase hfree (hrecorded.trans hresult)
    · exact .claimed hphase hfree (hrecorded.trans hresult)
  case h_7 call rest value =>
    cases h
    exact .computed value hphase
  case h_8 => cases h

theorem executing_of_idle (h : loop.pending? = none) : loop.executing? = none := by
  unfold PlainLoop.pending? at h
  unfold PlainLoop.executing?
  split at h <;> rename_i hphase
  · cases h
  · cases h
  · split
    · rename_i call rest hexecuting
      exact absurd hexecuting (hphase call rest)
    · rfl

end Steps

/-! ## The ledger -/

section Ledger
variable {ι : Type} {env : PlainEnv} {s u : PlainSystem ι} {a : PlainAction ι} {o : List (PlainObs ι)}

/-- The ledger of the run, as a map whose values are computed once. -/
def PlainSystem.ledger (env : PlainEnv) (s : PlainSystem ι) : OnceMap ι ToolInvocationId ToolResult where
  entries := s.table.recorded env.runId
  held := s.held

def PlainObs.ledger? : PlainObs ι → Option (OnceEvent ι ToolInvocationId ToolResult)
  | .ledger e => some e
  | _ => none

/-- What is seen of the ledger. -/
def ledgerEvents (tr : List (PlainObs ι)) : List (OnceEvent ι ToolInvocationId ToolResult) := tr.filterMap PlainObs.ledger?

/-- The run is registered, and the loop that executes holds the ledger. -/
structure HeldRight (env : PlainEnv) (s : PlainSystem ι) : Prop where
  wellFormed : s.table.WellFormed
  known : (s.table.get env.runId).isSome
  held : ∀ i k, s.held = some (i, k) ↔ ∃ call, (s.loops i).executing? = some call ∧ env.key call = k

theorem InnerStep.known {t t' : RunTable} {runId id : RunId} (h : InnerStep t id t') (hk : (t.get runId).isSome) :
    (t'.get runId).isSome := by
  rcases h with h | h
  · rwa [h.runs]
  · obtain ⟨r, r', -, -, hruns⟩ := h.move
    rw [hruns]
    split
    · rfl
    · exact hk

/-- A recorded result is in the ledger of its run. -/
theorem recordToolExecution_moved {t : RunTable} {runId : RunId} (hk : (t.get runId).isSome) (id : ToolInvocationId)
    (result : ToolResult) : Moved t runId (.recorded id result) (t.recordToolExecution runId id result).2 := by
  obtain ⟨r, hr⟩ := Option.isSome_iff_exists.1 hk
  exact (t.recordToolExecution_section runId id result).moved (Prod.ext (RunTable.withRecord_some hr).1 rfl)

theorem Moved.known {t t' : RunTable} {runId : RunId} {label : RecordLabel} (h : Moved t runId label t') :
    (t'.get runId).isSome := by
  obtain ⟨r, r', -, -, hruns⟩ := h.move
  rw [hruns, if_pos rfl]
  rfl

theorem Moved.enters {t t' : RunTable} {runId : RunId} {id : ToolInvocationId} {result : ToolResult}
    (h : Moved t runId (.recorded id result) t') {m m' : OnceMap ι ToolInvocationId ToolResult}
    (hm : m.entries = t.recorded runId) (hm' : m'.entries = t'.recorded runId) : OnceMap.Enters m m' id result := by
  rw [OnceMap.Enters, hm, hm']
  refine ⟨?_, fun l hl => ?_⟩
  · rw [h.recorded_result, if_pos rfl]
  · rw [h.recorded_result, if_neg hl]

/-- A step of another party leaves the loops. -/
theorem HeldRight.of_loops (h : HeldRight env s) (hloops : u.loops = s.loops) (hheld : u.held = s.held)
    (hwf : u.table.WellFormed) (hknown : (u.table.get env.runId).isSome) : HeldRight env u where
  wellFormed := hwf
  known := hknown
  held i k := by rw [hheld, hloops]; exact h.held i k

/-- What a step does to the ledger: nothing, or one event. -/
def LedgerStep (m : OnceMap ι ToolInvocationId ToolResult) (events : List (OnceEvent ι ToolInvocationId ToolResult))
    (m' : OnceMap ι ToolInvocationId ToolResult) : Prop :=
  events = [] ∧ m' = m ∨ ∃ e, events = [e] ∧ OnceMap.Step m e m'

theorem ledger_of_recorded (hrecorded : ∀ id, u.table.recorded env.runId id = s.table.recorded env.runId id)
    (hheld : u.held = s.held) : u.ledger env = s.ledger env := by
  rw [PlainSystem.ledger, PlainSystem.ledger, hheld]
  congr 1
  funext id
  exact hrecorded id

theorem ledgerEvents_append (tr o : List (PlainObs ι)) : ledgerEvents (tr ++ o) = ledgerEvents tr ++ ledgerEvents o :=
  List.filterMap_append

theorem LedgerStep.trace {start m m' : OnceMap ι ToolInvocationId ToolResult}
    {events events' : List (OnceEvent ι ToolInvocationId ToolResult)} (hstep : LedgerStep m events' m')
    (h : OnceMap.Trace start events m) : OnceMap.Trace start (events ++ events') m' := by
  rcases hstep with ⟨rfl, rfl⟩ | ⟨e, rfl, hstep⟩
  · rwa [List.append_nil]
  · exact h.snoc hstep

variable [DecidableEq ι]

section After
variable {i j : ι} {loop : PlainLoop} {t : RunTable}

theorem loops_after_self : (s.after env i loop t).loops i = loop := Function.update_self ..

theorem loops_after_of_ne (hj : j ≠ i) : (s.after env i loop t).loops j = s.loops j := Function.update_of_ne hj ..

theorem held_after_idle (hidle : (s.loops i).executing? = none) (hidle' : loop.executing? = none) :
    (s.after env i loop t).held = s.held := by
  rw [PlainSystem.after, heldAfter, hidle, hidle']

theorem held_after_taken {call : ToolCall} (htaken : loop.executing? = some call) :
    (s.after env i loop t).held = some (i, env.key call) := by
  rw [PlainSystem.after, heldAfter, htaken]

theorem held_after_released {call : ToolCall} (htaken : (s.loops i).executing? = some call)
    (hreleased : loop.executing? = none) : (s.after env i loop t).held = none := by
  rw [PlainSystem.after, heldAfter, htaken, hreleased]

end After

/-- A step of a loop that neither takes nor releases the ledger. -/
theorem HeldRight.of_idle (h : HeldRight env s) {i : ι} {loop : PlainLoop} {t : RunTable}
    (hidle : (s.loops i).executing? = none) (hidle' : loop.executing? = none) (hwf : t.WellFormed)
    (hknown : (t.get env.runId).isSome) : HeldRight env (s.after env i loop t) where
  wellFormed := hwf
  known := hknown
  held j k := by
    rw [held_after_idle hidle hidle', h.held]
    by_cases hj : j = i
    · subst hj
      rw [loops_after_self, hidle, hidle']
    · rw [loops_after_of_ne hj]

/-- A step of a loop outside the ledger. -/
theorem HeldRight.of_inner (h : HeldRight env s) {i : ι} {loop : PlainLoop} {t : RunTable}
    (hidle : (s.loops i).executing? = none) (hidle' : loop.executing? = none) (hinner : InnerStep s.table env.runId t) :
    HeldRight env (s.after env i loop t) ∧ (s.after env i loop t).ledger env = s.ledger env := by
  refine ⟨h.of_idle hidle hidle' (hinner.tableStep.wellFormed h.wellFormed) (hinner.known h.known), ?_⟩
  exact ledger_of_recorded (fun _ => hinner.recorded) (held_after_idle hidle hidle')

/-- **A step of a loop**, as a step of the ledger. -/
theorem plain_ledger_loop (h : HeldRight env s) {i : ι} {loop : PlainLoop} {t : RunTable}
    (hmove : PlainMove env s.table s.held.isNone i (s.loops i) loop t o) :
    HeldRight env (s.after env i loop t) ∧ LedgerStep (s.ledger env) (ledgerEvents o) ((s.after env i loop t).ledger env) := by
  have hround {elapsed : Duration} {res : Except AgentBudgetExceeded Unit}
      (hconsume : s.table.consumeModelRound env.runId elapsed = (res, t)) : InnerStep s.table env.runId t := by
    have hinner := s.table.consumeModelRound_inner env.runId elapsed
    rwa [hconsume] at hinner
  have htool {elapsed : Duration} {res : Except AgentBudgetExceeded Unit}
      (hconsume : s.table.consumeToolInvocation env.runId elapsed = (res, t)) : InnerStep s.table env.runId t := by
    have hinner := s.table.consumeToolInvocation_inner env.runId elapsed
    rwa [hconsume] at hinner
  have hquiet (hidle : (s.loops i).executing? = none) (hidle' : loop.executing? = none)
      (hinner : InnerStep s.table env.runId t) :
      HeldRight env (s.after env i loop t) ∧ LedgerStep (s.ledger env) [] ((s.after env i loop t).ledger env) :=
    (h.of_inner hidle hidle' hinner).imp_right fun hledger => .inl ⟨rfl, hledger⟩
  cases hmove with
  | quiet hidle hidle' => exact hquiet (executing_of_idle hidle) (executing_of_idle hidle') (.inl (SameTable.refl s.table))
  | exhausted hidle hconsume => exact hquiet (executing_of_idle hidle) rfl (hround hconsume)
  | asked hidle hconsume => exact hquiet (executing_of_idle hidle) rfl (hround hconsume)
  | refused hidle hconsume => exact hquiet (executing_of_idle hidle) rfl (htool hconsume)
  | paid hphase hconsume => exact hquiet (by rw [PlainLoop.executing?, hphase]) rfl (htool hconsume)
  | unknown value hphase hrun =>
    have hknown := h.known
    rw [hrun] at hknown
    cases hknown
  | @found call rest result hphase hfree hresult =>
    have hidle : (s.loops i).executing? = none := by rw [PlainLoop.executing?, hphase]
    have hidle' : ((s.loops i).answer env call rest result.value).executing? = none :=
      executing_of_idle (pending_next rfl)
    obtain ⟨hright, hledger⟩ := h.of_inner hidle hidle' (.inl (SameTable.refl s.table))
    refine ⟨hright, .inr ⟨_, rfl, ?_⟩⟩
    rw [hledger]
    exact .found (Option.isNone_iff_eq_none.1 hfree) hresult
  | @claimed call rest hphase hfree hresult =>
    have hheld : s.held = none := Option.isNone_iff_eq_none.1 hfree
    have htaken : ({ s.loops i with phase := .executing call rest } : PlainLoop).executing? = some call := rfl
    have hafter : (s.after env i { s.loops i with phase := .executing call rest } s.table).held = some (i, env.key call) :=
      held_after_taken htaken
    refine ⟨⟨h.wellFormed, h.known, fun j k => ?_⟩, .inr ⟨_, rfl, .claimed hheld hresult rfl hafter⟩⟩
    rw [hafter]
    by_cases hj : j = i
    · subst hj
      rw [loops_after_self, htaken]
      simp
    · rw [loops_after_of_ne hj, ← h.held, hheld]
      simp [Ne.symm hj]
  | @computed call rest value hphase =>
    have htaken : (s.loops i).executing? = some call := by rw [PlainLoop.executing?, hphase]
    have hreleased : ((s.loops i).answer env call rest value).executing? = none := executing_of_idle (pending_next rfl)
    have hheld : s.held = some (i, env.key call) := (h.held i _).2 ⟨call, htaken, rfl⟩
    have hmoved := recordToolExecution_moved h.known (env.key call) (.fromValue value)
    have hafter : (s.after env i ((s.loops i).answer env call rest value)
        (s.table.recordToolExecution env.runId (env.key call) (.fromValue value)).2).held = none :=
      held_after_released htaken hreleased
    refine ⟨⟨hmoved.tableStep.wellFormed h.wellFormed, hmoved.known, fun j k => ?_⟩,
      .inr ⟨_, rfl, .computed hheld (hmoved.enters rfl rfl) hafter⟩⟩
    rw [hafter]
    by_cases hj : j = i
    · subst hj
      rw [loops_after_self, hreleased]
      simp
    · rw [loops_after_of_ne hj, ← h.held, hheld]
      simp [Ne.symm hj]

/-- **A step of the system**, as a step of the ledger. -/
theorem plain_ledger_step (h : HeldRight env s) (hstep : (plainMachine env).step s a = some (u, o)) :
    HeldRight env u ∧ LedgerStep (s.ledger env) (ledgerEvents o) (u.ledger env) := by
  have hother {t : RunTable} {calls : List CallState} (hwf : t.WellFormed) (hknown : (t.get env.runId).isSome)
      (hrecorded : ∀ id, t.recorded env.runId id = s.table.recorded env.runId id) :
      HeldRight env { s with table := t, calls := calls } ∧
        LedgerStep (s.ledger env) [] (({ s with table := t, calls := calls } : PlainSystem ι).ledger env) :=
    ⟨h.of_loops rfl rfl hwf hknown, .inl ⟨rfl, ledger_of_recorded hrecorded rfl⟩⟩
  cases a with
  | loop i a =>
    simp only [plainMachine, Option.map_eq_some_iff] at hstep
    obtain ⟨⟨loop, t, o'⟩, hloop, hu⟩ := hstep
    cases hu
    exact plain_ledger_loop h (plainMove_of_step hloop)
  | host a =>
    simp only [plainMachine, Option.map_eq_some_iff] at hstep
    obtain ⟨⟨⟨t, calls⟩, o'⟩, htable, hu⟩ := hstep
    cases hu
    rcases tableMachine_cases htable with ⟨call, -, heq, -⟩ | ⟨n, pc, -, -, -, heq, -⟩
    · cases heq
      exact hother h.wellFormed h.known fun _ => rfl
    · cases heq
      have heffect := CallState.step_effect h.wellFormed pc
      obtain ⟨r, hr⟩ := Option.isSome_iff_exists.1 h.known
      obtain ⟨r', hr', -⟩ := pc.step_budget r hr
      exact hother (heffect.tableStep.wellFormed h.wellFormed) (by rw [hr']; rfl) fun _ => heffect.recorded
  | record id result =>
    have hmoved := recordToolExecution_moved h.known id result
    obtain ⟨r, hr⟩ := Option.isSome_iff_exists.1 h.known
    simp only [plainMachine, hr] at hstep
    split at hstep
    · cases hstep
    rename_i hfree
    have hfree : s.held = none := by simpa using hfree
    cases hstep
    exact ⟨h.of_loops rfl rfl (hmoved.tableStep.wellFormed h.wellFormed) hmoved.known,
      .inr ⟨_, rfl, .put hfree (hmoved.enters rfl rfl) hfree⟩⟩
  | consumeRound elapsed =>
    cases hstep
    have hinner := s.table.consumeModelRound_inner env.runId elapsed
    exact hother (hinner.tableStep.wellFormed h.wellFormed) (hinner.known h.known) fun _ => hinner.recorded
  | consumeTool elapsed =>
    cases hstep
    have hinner := s.table.consumeToolInvocation_inner env.runId elapsed
    exact hother (hinner.tableStep.wellFormed h.wellFormed) (hinner.known h.known) fun _ => hinner.recorded

/-- The ledger follows its events, and each answer is a value that was found or computed. -/
structure PlainOnce (env : PlainEnv) (start : PlainSystem ι) (tr : List (PlainObs ι)) (s : PlainSystem ι) : Prop where
  right : HeldRight env s
  trace : OnceMap.Trace (start.ledger env) (ledgerEvents tr) (s.ledger env)
  answers : ∀ i call v, .answered i call v ∈ tr → ∃ result, result.value = v ∧
    (.found i (env.key call) result ∈ ledgerEvents tr ∨ .computed i (env.key call) result ∈ ledgerEvents tr)

/-- A step answers what it finds or computes. -/
theorem plain_answers_step (h : HeldRight env s) (hstep : (plainMachine env).step s a = some (u, o)) {i : ι}
    {call : ToolCall} {v : Value} (ho : .answered i call v ∈ o) : ∃ result, result.value = v ∧
      (.found i (env.key call) result ∈ ledgerEvents o ∨ .computed i (env.key call) result ∈ ledgerEvents o) := by
  cases a with
  | loop j a =>
    simp only [plainMachine, Option.map_eq_some_iff] at hstep
    obtain ⟨⟨loop, t, o'⟩, hloop, hu⟩ := hstep
    cases hu
    cases plainMove_of_step hloop with
    | unknown value hphase hrun =>
      have hknown := h.known
      rw [hrun] at hknown
      cases hknown
    | @found call' rest result hphase hfree hresult =>
      have hobs : PlainObs.answered i call v = .answered j call' result.value := by simpa using ho
      cases hobs
      exact ⟨result, rfl, .inl (List.mem_singleton_self _)⟩
    | @computed call' rest w hphase =>
      have hobs : PlainObs.answered i call v = .answered j call' w := by simpa using ho
      cases hobs
      exact ⟨.fromValue v, rfl, .inr (List.mem_singleton_self _)⟩
    | quiet => cases ho
    | exhausted => cases ho
    | refused => cases ho
    | asked => simp at ho
    | paid => simp at ho
    | claimed => simp at ho
  | host a =>
    simp only [plainMachine, Option.map_eq_some_iff] at hstep
    obtain ⟨x, -, hu⟩ := hstep
    cases hu
    cases ho
  | record id result =>
    simp only [plainMachine] at hstep
    split at hstep
    · cases hstep
    · split at hstep
      · cases hstep
        cases ho
      · cases hstep
        simp at ho
  | consumeRound elapsed =>
    cases hstep
    cases ho
  | consumeTool elapsed =>
    cases hstep
    cases ho

theorem PlainOnce.step {start : PlainSystem ι} {tr : List (PlainObs ι)} (h : PlainOnce env start tr s)
    (hstep : (plainMachine env).step s a = some (u, o)) : PlainOnce env start (tr ++ o) u := by
  obtain ⟨hright, hledger⟩ := plain_ledger_step h.right hstep
  refine ⟨hright, ?_, fun i call v hmem => ?_⟩
  · rw [ledgerEvents_append]
    exact hledger.trace h.trace
  · rw [ledgerEvents_append]
    rcases List.mem_append.1 hmem with hmem | hmem
    · obtain ⟨result, hvalue, hfrom⟩ := h.answers i call v hmem
      exact ⟨result, hvalue, hfrom.imp (List.mem_append_left _) (List.mem_append_left _)⟩
    · obtain ⟨result, hvalue, hfrom⟩ := plain_answers_step h.right hstep hmem
      exact ⟨result, hvalue, hfrom.imp (List.mem_append_right _) (List.mem_append_right _)⟩

end Ledger

/-! ## The account -/

section Account
variable {ι : Type} {env : PlainEnv} {limits : RunLimits} {tr o : List (PlainObs ι)} {t t' : RunTable}
  {rounds tools : Nat}

/-- The loops that have askedLoops their providers, in the order of their requests. -/
def askedLoops (tr : List (PlainObs ι)) : List ι :=
  tr.filterMap fun
    | .asked i => some i
    | _ => none

/-- The calls that are paid for, and who has paid. -/
def paidCalls (tr : List (PlainObs ι)) : List (ι × ToolCall) :=
  tr.filterMap fun
    | .paid i call => some (i, call)
    | _ => none

/-- The calls that are answered, and to whom. -/
def answeredCalls (tr : List (PlainObs ι)) : List (ι × ToolCall) :=
  tr.filterMap fun
    | .answered i call _ => some (i, call)
    | _ => none

theorem askedLoops_append (tr o : List (PlainObs ι)) :
    askedLoops (tr ++ o) = askedLoops tr ++ askedLoops o := List.filterMap_append

theorem paidCalls_append (tr o : List (PlainObs ι)) :
    paidCalls (tr ++ o) = paidCalls tr ++ paidCalls o := List.filterMap_append

theorem answeredCalls_append (tr o : List (PlainObs ι)) : answeredCalls (tr ++ o) = answeredCalls tr ++ answeredCalls o :=
  List.filterMap_append

/-- The run has spent at least so many model rounds and tool invocations, and is within its limits. -/
def Spent (runId : RunId) (limits : RunLimits) (rounds tools : Nat) (t : RunTable) : Prop :=
  ∃ b, t.Budgeted runId limits b ∧
    b.maxModelRounds = limits.maxModelRounds ∧ b.maxToolInvocations = limits.maxToolInvocations ∧
    (limits.maxModelRounds ≠ u32Max → rounds ≤ b.modelRounds ∧ b.modelRounds ≤ limits.maxModelRounds) ∧
    (limits.maxToolInvocations ≠ u32Max → tools ≤ b.toolInvocations ∧ b.toolInvocations ≤ limits.maxToolInvocations)

namespace Spent
variable {runId : RunId} {elapsed : Duration} {res : Except AgentBudgetExceeded Unit}

theorem keeps (h : Spent runId limits rounds tools t) (hkeeps : KeepsBudget runId t t') :
    Spent runId limits rounds tools t' := by
  obtain ⟨b, hb, hrest⟩ := h
  exact ⟨b, hkeeps.budgeted hb, hrest⟩

/-- A round is spent when it is granted. -/
theorem round (h : Spent runId limits rounds tools t) (hmax : limits.maxModelRounds ≤ u32Max)
    (hconsume : t.consumeModelRound runId elapsed = (res, t')) :
    Spent runId limits rounds tools t' ∧ (res = .ok () → Spent runId limits (rounds + 1) tools t') := by
  obtain ⟨b, hb, hmaxRounds, hmaxTools, hrounds, htools⟩ := h
  obtain ⟨n, hb', hspends⟩ := budgeted_consumeModelRound hb (hmaxRounds ▸ hmax) hconsume
  rw [hmaxRounds] at hspends
  refine ⟨⟨_, hb', hmaxRounds, hmaxTools, fun hlimited => ?_, htools⟩,
    fun hok => ⟨_, hb', hmaxRounds, hmaxTools, fun hlimited => ?_, htools⟩⟩
  · obtain ⟨hle, hmax'⟩ := hrounds hlimited
    obtain ⟨hmore, hwithin, -⟩ := hspends hlimited hmax'
    exact ⟨hle.trans hmore, hwithin⟩
  · obtain ⟨hle, hmax'⟩ := hrounds hlimited
    obtain ⟨-, hwithin, hnext⟩ := hspends hlimited hmax'
    refine ⟨?_, hwithin⟩
    have := hnext hok
    dsimp only
    omega

/-- A tool invocation is spent when it is granted. -/
theorem tool (h : Spent runId limits rounds tools t) (hmax : limits.maxToolInvocations ≤ u32Max)
    (hconsume : t.consumeToolInvocation runId elapsed = (res, t')) :
    Spent runId limits rounds tools t' ∧ (res = .ok () → Spent runId limits rounds (tools + 1) t') := by
  obtain ⟨b, hb, hmaxRounds, hmaxTools, hrounds, htools⟩ := h
  obtain ⟨n, hb', hspends⟩ := budgeted_consumeToolInvocation hb (hmaxTools ▸ hmax) hconsume
  rw [hmaxTools] at hspends
  refine ⟨⟨_, hb', hmaxRounds, hmaxTools, hrounds, fun hlimited => ?_⟩,
    fun hok => ⟨_, hb', hmaxRounds, hmaxTools, hrounds, fun hlimited => ?_⟩⟩
  · obtain ⟨hle, hmax'⟩ := htools hlimited
    obtain ⟨hmore, hwithin, -⟩ := hspends hlimited hmax'
    exact ⟨hle.trans hmore, hwithin⟩
  · obtain ⟨hle, hmax'⟩ := htools hlimited
    obtain ⟨-, hwithin, hnext⟩ := hspends hlimited hmax'
    refine ⟨?_, hwithin⟩
    have := hnext hok
    dsimp only
    omega

end Spent

variable {i : ι} {loop loop' : PlainLoop} {free : Bool}

theorem recordToolExecution_keepsBudget {runId : RunId} {id : ToolInvocationId} {result : ToolResult} :
    KeepsBudget runId t (t.recordToolExecution runId id result).2 :=
  keeps_withRecord fun _ _ => rfl

/-- A step spends what it asks and pays. -/
theorem PlainMove.spent (hmove : PlainMove env t free i loop loop' t' o) (h : Spent env.runId limits rounds tools t)
    (hrounds : limits.maxModelRounds ≤ u32Max) (htools : limits.maxToolInvocations ≤ u32Max) :
    Spent env.runId limits (rounds + (askedLoops o).length) (tools + (paidCalls o).length) t' := by
  cases hmove with
  | quiet => exact h
  | exhausted _ hconsume => exact (h.round hrounds hconsume).1
  | asked _ hconsume => exact (h.round hrounds hconsume).2 rfl
  | refused _ hconsume => exact (h.tool htools hconsume).1
  | paid _ hconsume => exact (h.tool htools hconsume).2 rfl
  | unknown => exact h
  | found => exact h
  | claimed => exact h
  | computed => exact h.keeps recordToolExecution_keepsBudget

/-- A loop claims a call that it has paid for. -/
theorem PlainMove.claimed_pending (hmove : PlainMove env t free i loop loop' t' o) {k : ToolInvocationId}
    (hk : k ∈ OnceEvent.claims (ledgerEvents o)) :
    ∃ call, loop.pending? = some call ∧ env.key call = k := by
  cases hmove with
  | @claimed call rest hphase =>
    have hkey : k = env.key call := by simpa [ledgerEvents, PlainObs.ledger?, OnceEvent.claims] using hk
    exact ⟨call, by rw [PlainLoop.pending?, hphase], hkey.symm⟩
  | _ => simp [ledgerEvents, PlainObs.ledger?, OnceEvent.claims] at hk

variable [DecidableEq ι] {s u : PlainSystem ι} {a : PlainAction ι}

/-- What belongs to the loop `i`. -/
def ofLoop (i : ι) (calls : List (ι × ToolCall)) : List ToolCall :=
  calls.filterMap fun x => if x.1 = i then some x.2 else none

theorem ofLoop_append (calls calls' : List (ι × ToolCall)) :
    ofLoop i (calls ++ calls') = ofLoop i calls ++ ofLoop i calls' := List.filterMap_append

namespace PlainMove
variable (hmove : PlainMove env t free i loop loop' t' o)
include hmove

/-- A step answers the call that is paid for, or pays for the next one. -/
theorem served : loop.pending?.toList ++ ofLoop i (paidCalls o) = ofLoop i (answeredCalls o) ++ loop'.pending?.toList := by
  have hanswered {call : ToolCall} {rest : List ToolCall} {value : Value} :
      (loop.answer env call rest value).pending? = none := pending_next rfl
  cases hmove with
  | quiet hidle hidle' => rw [hidle, hidle']; rfl
  | exhausted hidle => rw [hidle]; rfl
  | asked hidle => rw [hidle]; rfl
  | refused hidle => rw [hidle]; rfl
  | paid hphase =>
    have hpending : loop.pending? = none := by rw [PlainLoop.pending?, hphase]
    rw [hpending]
    simp [PlainLoop.pending?, paidCalls, answeredCalls, ofLoop]
  | @claimed call rest hphase =>
    have hpending : loop.pending? = some call := by rw [PlainLoop.pending?, hphase]
    rw [hpending]
    rfl
  | @unknown call rest value hphase =>
    have hpending : loop.pending? = some call := by rw [PlainLoop.pending?, hphase]
    rw [hpending, hanswered]
    simp [paidCalls, answeredCalls, ofLoop]
  | @found call rest result hphase =>
    have hpending : loop.pending? = some call := by rw [PlainLoop.pending?, hphase]
    rw [hpending, hanswered]
    simp [paidCalls, answeredCalls, ofLoop]
  | @computed call rest value hphase =>
    have hpending : loop.pending? = some call := by rw [PlainLoop.pending?, hphase]
    rw [hpending, hanswered]
    simp [paidCalls, answeredCalls, ofLoop]

/-- A step of a loop pays and answers for itself. -/
theorem owned {j : ι} (hj : j ≠ i) : ofLoop j (paidCalls o) = [] ∧ ofLoop j (answeredCalls o) = [] := by
  cases hmove with
  | _ => simp [paidCalls, answeredCalls, ofLoop, Ne.symm hj]

end PlainMove

/-- The requests, the payments and the answers of the loops. -/
structure PlainAccount (env : PlainEnv) (limits : RunLimits) (tr : List (PlainObs ι)) (s : PlainSystem ι) : Prop where
  spent : Spent env.runId limits (askedLoops tr).length (paidCalls tr).length s.table
  served : ∀ i, ofLoop i (answeredCalls tr) ++ (s.loops i).pending?.toList = ofLoop i (paidCalls tr)
  claimed : OnceEvent.claims (ledgerEvents tr) ⊆ (paidCalls tr).map fun x => env.key x.2

theorem mem_of_ofLoop {call : ToolCall} {calls : List (ι × ToolCall)} (h : call ∈ ofLoop i calls) : (i, call) ∈ calls := by
  obtain ⟨⟨j, call'⟩, hmem, hcall⟩ := List.mem_filterMap.1 h
  dsimp only at hcall
  split at hcall
  · rename_i hj
    cases hcall
    rwa [← hj]
  · cases hcall

/-- **A step of a loop** keeps the account. -/
theorem PlainAccount.step_loop (h : PlainAccount env limits tr s) (hrounds : limits.maxModelRounds ≤ u32Max)
    (htools : limits.maxToolInvocations ≤ u32Max) (hmove : PlainMove env s.table free i (s.loops i) loop t o) :
    PlainAccount env limits (tr ++ o) (s.after env i loop t) where
  spent := by
    rw [askedLoops_append, paidCalls_append, List.length_append, List.length_append]
    exact hmove.spent h.spent hrounds htools
  served j := by
    rw [answeredCalls_append, paidCalls_append, ofLoop_append, ofLoop_append, ← h.served j]
    by_cases hj : j = i
    · subst hj
      rw [loops_after_self, List.append_assoc, List.append_assoc, hmove.served]
    · obtain ⟨hpaid, hanswered⟩ := hmove.owned hj
      rw [loops_after_of_ne hj, hpaid, hanswered, List.append_nil, List.append_nil]
  claimed k hk := by
    rw [paidCalls_append, List.map_append]
    refine List.mem_append_left _ ?_
    rw [ledgerEvents_append, OnceEvent.claims, List.filterMap_append] at hk
    rcases List.mem_append.1 hk with hk | hk
    · exact h.claimed hk
    · obtain ⟨call, hpending, rfl⟩ := hmove.claimed_pending hk
      have hmem : call ∈ ofLoop i (paidCalls tr) := by
        rw [← h.served i, hpending]
        exact List.mem_append_right _ (List.mem_singleton_self _)
      exact List.mem_map.2 ⟨(i, call), mem_of_ofLoop hmem, rfl⟩

/-- A step of another party. -/
theorem PlainAccount.of_other (h : PlainAccount env limits tr s) (hloops : u.loops = s.loops)
    (hspent : Spent env.runId limits (askedLoops tr).length (paidCalls tr).length u.table)
    (ho : o = [] ∨ ∃ id result, o = [.ledger (.put id result)]) : PlainAccount env limits (tr ++ o) u := by
  have hquiet : askedLoops o = [] ∧ paidCalls o = [] ∧ answeredCalls o = [] ∧ OnceEvent.claims (ledgerEvents o) = [] := by
    rcases ho with rfl | ⟨id, result, rfl⟩ <;> exact ⟨rfl, rfl, rfl, rfl⟩
  obtain ⟨hasked, hpaid, hanswered, hclaims⟩ := hquiet
  refine ⟨?_, fun i => ?_, fun k hk => ?_⟩
  · rwa [askedLoops_append, paidCalls_append, hasked, hpaid, List.append_nil, List.append_nil]
  · rw [answeredCalls_append, paidCalls_append, hanswered, hpaid, List.append_nil, List.append_nil, hloops]
    exact h.served i
  · rw [ledgerEvents_append, OnceEvent.claims, List.filterMap_append] at hk
    rw [paidCalls_append, hpaid, List.append_nil]
    rcases List.mem_append.1 hk with hk | hk
    · exact h.claimed hk
    · rw [← OnceEvent.claims, hclaims] at hk
      cases hk

/-- **A step of the system** keeps the account. -/
theorem PlainAccount.step (h : PlainAccount env limits tr s) (hrounds : limits.maxModelRounds ≤ u32Max)
    (htools : limits.maxToolInvocations ≤ u32Max) (hstep : (plainMachine env).step s a = some (u, o)) :
    PlainAccount env limits (tr ++ o) u := by
  cases a with
  | loop i a =>
    simp only [plainMachine, Option.map_eq_some_iff] at hstep
    obtain ⟨⟨loop, t, o'⟩, hloop, hu⟩ := hstep
    cases hu
    exact h.step_loop hrounds htools (plainMove_of_step hloop)
  | host a =>
    simp only [plainMachine, Option.map_eq_some_iff] at hstep
    obtain ⟨⟨⟨t, calls⟩, o'⟩, htable, hu⟩ := hstep
    cases hu
    rcases tableMachine_cases htable with ⟨call, -, heq, -⟩ | ⟨n, pc, -, -, -, heq, -⟩
    · cases heq
      exact h.of_other rfl h.spent (.inl rfl)
    · cases heq
      exact h.of_other rfl (h.spent.keeps pc.step_budget) (.inl rfl)
  | record id result =>
    simp only [plainMachine] at hstep
    split at hstep
    · cases hstep
    · split at hstep
      · cases hstep
        exact h.of_other rfl h.spent (.inl rfl)
      · cases hstep
        exact h.of_other rfl (h.spent.keeps recordToolExecution_keepsBudget) (.inr ⟨id, result, rfl⟩)
  | consumeRound elapsed =>
    cases hstep
    exact h.of_other rfl (h.spent.round hrounds rfl).1 (.inl rfl)
  | consumeTool elapsed =>
    cases hstep
    exact h.of_other rfl (h.spent.tool htools rfl).1 (.inl rfl)

theorem PlainAccount.run (h : PlainAccount env limits [] s) (hrounds : limits.maxModelRounds ≤ u32Max)
    (htools : limits.maxToolInvocations ≤ u32Max) {as : List (PlainAction ι)}
    (hrun : (plainMachine env).Run Free s as tr u) : PlainAccount env limits tr u :=
  hrun.induction (P := PlainAccount env limits) h fun _ hi _ hstep => hi.step hrounds htools hstep

end Account

/-! ## Runs -/

section Runs
variable {ι : Type} [DecidableEq ι] {env : PlainEnv} {s t : PlainSystem ι} {as : List (PlainAction ι)}
  {tr : List (PlainObs ι)}

theorem PlainOnce.run (h : HeldRight env s) (hrun : (plainMachine env).Run Free s as tr t) : PlainOnce env s tr t :=
  hrun.induction (P := PlainOnce env s) ⟨h, .nil, nofun⟩ fun _ hi _ hstep => hi.step hstep

/-- **No call is executed twice.** In any interleaving of the loops of a run, the executor of an identifier starts once
at most, and not for one that is recorded; a loop holds the ledger while its executor runs; every answer is the value
that was recorded, computed or put; and all loops answer an identifier alike that is not recorded and that nobody puts. -/
theorem plain_executed_once (h : HeldRight env s) (hfree : s.held = none)
    (hrun : (plainMachine env).Run Free s as tr t) :
    ((OnceEvent.claims (ledgerEvents tr)).Nodup ∧
      ∀ id ∈ OnceEvent.claims (ledgerEvents tr), s.table.recorded env.runId id = none) ∧
    (∀ i id, t.held = some (i, id) ↔ ∃ call, (t.loops i).executing? = some call ∧ env.key call = id) ∧
    (∀ i call v, .answered i call v ∈ tr → ∃ result, result.value = v ∧
      (s.table.recorded env.runId (env.key call) = some result ∨
        (∃ j, .ledger (.computed j (env.key call) result) ∈ tr) ∨ .ledger (.put (env.key call) result) ∈ tr)) ∧
    ∀ id, s.table.recorded env.runId id = none → (∀ result, .ledger (.put id result) ∉ tr) →
      ∀ i j c d v w, env.key c = id → env.key d = id → .answered i c v ∈ tr → .answered j d w ∈ tr → v = w := by
  have hi := PlainOnce.run h hrun
  have hmem {e : OnceEvent ι ToolInvocationId ToolResult} (he : e ∈ ledgerEvents tr) : .ledger e ∈ tr := by
    obtain ⟨o, ho, heq⟩ := List.mem_filterMap.1 he
    cases o with
    | ledger e' =>
      cases heq
      exact ho
    | _ => cases heq
  refine ⟨hi.trace.claimed_once hfree, hi.right.held, fun i call v hv => ?_, fun id hnone hput i j c d v w hc hd hv hw => ?_⟩
  · obtain ⟨result, hvalue, hfound | hcomputed⟩ := hi.answers i call v hv
    · refine ⟨result, hvalue, ?_⟩
      rcases hi.trace.found_from hfree hfound with hs | hc | hp
      · exact .inl hs
      · obtain ⟨e, he, heq⟩ := List.mem_filterMap.1 hc
        cases e with
        | computed j k w =>
          cases heq
          exact .inr (.inl ⟨j, hmem he⟩)
        | _ => cases heq
      · exact .inr (.inr (hmem hp))
    · exact ⟨result, hvalue, .inr (.inl ⟨i, hmem hcomputed⟩)⟩
  · obtain ⟨result, hvalue, hfrom⟩ := hi.answers i c v hv
    obtain ⟨result', hvalue', hfrom'⟩ := hi.answers j d w hw
    rw [hc] at hfrom
    rw [hd] at hfrom'
    have hagree := hi.trace.agree hfree hnone (fun result hp => hput result (hmem hp)) hfrom hfrom'
    rw [← hvalue, ← hvalue', hagree]

/-- The run is registered and has spent nothing, its loops are before their first steps, and nobody holds the ledger. -/
structure PlainFresh (env : PlainEnv) (limits : RunLimits) (s : PlainSystem ι) : Prop where
  wellFormed : s.table.WellFormed
  budgeted : s.table.Budgeted env.runId limits (.fromRunLimits limits)
  loops : ∀ i, ∃ request, s.loops i = .new request
  held : s.held = none
  maxModelRounds_le : limits.maxModelRounds ≤ u32Max
  maxToolInvocations_le : limits.maxToolInvocations ≤ u32Max

omit [DecidableEq ι] in
theorem PlainFresh.heldRight {limits : RunLimits} (h : PlainFresh env limits s) : HeldRight env s where
  wellFormed := h.wellFormed
  known := by
    obtain ⟨r, hr, -⟩ := h.budgeted
    rw [hr]
    rfl
  held i k := by
    obtain ⟨request, hloop⟩ := h.loops i
    rw [h.held, hloop]
    simp [PlainLoop.executing?, PlainLoop.new]

theorem PlainFresh.account {limits : RunLimits} (h : PlainFresh env limits s) : PlainAccount env limits [] s where
  spent := ⟨_, h.budgeted, rfl, rfl, fun _ => ⟨Nat.le_refl _, Nat.zero_le _⟩, fun _ => ⟨Nat.le_refl _, Nat.zero_le _⟩⟩
  served i := by
    obtain ⟨request, hloop⟩ := h.loops i
    rw [hloop]
    rfl
  claimed _ hk := by cases hk

/-- **The loops share the limits of their run.** However many they are, and whoever else spends the budget, together they
ask their providers, pay for calls and start executors within the limits of the run; and each loop answers the calls that
it has paid for, in their order, all but the last at most. -/
theorem plain_bounded {limits : RunLimits} (h : PlainFresh env limits s)
    (hrun : (plainMachine env).Run Free s as tr t) :
    (limits.maxModelRounds ≠ u32Max → (askedLoops tr).length ≤ limits.maxModelRounds) ∧
    (limits.maxToolInvocations ≠ u32Max → (paidCalls tr).length ≤ limits.maxToolInvocations ∧
      (OnceEvent.claims (ledgerEvents tr)).length ≤ limits.maxToolInvocations) ∧
    ∀ i, ofLoop i (answeredCalls tr) <+: ofLoop i (paidCalls tr) ∧
      (ofLoop i (paidCalls tr)).length ≤ (ofLoop i (answeredCalls tr)).length + 1 := by
  have haccount := h.account.run h.maxModelRounds_le h.maxToolInvocations_le hrun
  have hclaims : (OnceEvent.claims (ledgerEvents tr)).length ≤ (paidCalls tr).length := by
    have hnodup := ((PlainOnce.run h.heldRight hrun).trace.claimed_once h.held).1
    have hle := (hnodup.subperm haccount.claimed).length_le
    rwa [List.length_map] at hle
  obtain ⟨b, -, -, -, hrounds, htools⟩ := haccount.spent
  refine ⟨fun hlimited => ?_, fun hlimited => ?_, fun i => ⟨⟨_, haccount.served i⟩, ?_⟩⟩
  · obtain ⟨hspent, hwithin⟩ := hrounds hlimited
    exact hspent.trans hwithin
  · obtain ⟨hspent, hwithin⟩ := htools hlimited
    exact ⟨hspent.trans hwithin, hclaims.trans (hspent.trans hwithin)⟩
  · have hpending : (t.loops i).pending?.toList.length ≤ 1 := by
      cases (t.loops i).pending? <;> simp
    rw [← haccount.served i, List.length_append]
    omega

end Runs

def plainEnv : PlainEnv where
  runId := ⟨1⟩
  serde := objectCodec.serde
  stableKey _ := 0xd1fafe3a65e558f188e20ffb5179e72b

/-- Two loops in a run of two model rounds and two tool calls. -/
def plainSystem : PlainSystem Bool where
  table := (RunTable.new.register ⟨⟨1⟩, none, none⟩ ⟨2, 2⟩).2
  loops _ := .new sendRequest
  calls := []
  held := none

theorem plainSystem_fresh : PlainFresh plainEnv ⟨2, 2⟩ plainSystem where
  wellFormed := (RunTable.register_step .new _ _).wellFormed RunTable.new_wellFormed
  budgeted := ⟨_, rfl, rfl, rfl⟩
  loops _ := ⟨sendRequest, rfl⟩
  held := rfl
  maxModelRounds_le := by decide
  maxToolInvocations_le := by decide

/-- A loop comes to a call. -/
def toClaim (i : Bool) : List (PlainAction Bool) :=
  [.loop i .step, .loop i (.consume 0), .loop i (.turn (.ok (sendTurn [sendCall 1]))), .loop i (.consume 0)]

/-- Both loops come to one call; the first executes it, and the second finds its value. -/
def foundByOther : List (PlainAction Bool) :=
  toClaim false ++ toClaim true ++ [.loop false .step, .loop false (.finish (.string "sent")), .loop true .step]

theorem plain_executed_once_foundByOther :
    ∃ tr t, (plainMachine plainEnv).Run Free plainSystem foundByOther tr t ∧
      .answered true (sendCall 1) (.string "sent") ∈ tr ∧ (OnceEvent.claims (ledgerEvents tr)).Nodup := by
  have hrun := Machine.exec_free (M := plainMachine plainEnv) (s := plainSystem) (l := foundByOther) rfl
  exact ⟨_, _, hrun, List.mem_of_getElem? (i := 8) rfl,
    (plain_executed_once plainSystem_fresh.heldRight rfl hrun).1.1⟩

theorem plain_bounded_foundByOther :
    ∃ tr t, (plainMachine plainEnv).Run Free plainSystem foundByOther tr t ∧ askedLoops tr = [false, true] ∧
      (askedLoops tr).length ≤ 2 ∧ (OnceEvent.claims (ledgerEvents tr)).length ≤ 2 := by
  have hrun := Machine.exec_free (M := plainMachine plainEnv) (s := plainSystem) (l := foundByOther) rfl
  obtain ⟨hrounds, htools, -⟩ := plain_bounded plainSystem_fresh hrun
  exact ⟨_, _, hrun, rfl, hrounds (by decide), (htools (by decide)).2⟩

end Aifluxon
