import Aifluxon.Core.Run

/-!
# Budgets

`AgentLoopBudget` of `budget.rs` and `ContinuationCounts` of `continuation.rs`. The clock that a
budget was started with is read as an elapsed time; the token counters, which nothing consumes, are
left out.
-/

namespace Aifluxon

/-! ## The budget of a run -/

inductive AgentBudgetKind where
  | modelRounds
  | toolInvocations
  | wallTime
  deriving DecidableEq

/-- The `{:?}` form of a kind. -/
def AgentBudgetKind.debug : AgentBudgetKind → String
  | .modelRounds => "ModelRounds"
  | .toolInvocations => "ToolInvocations"
  | .wallTime => "WallTime"

structure AgentBudgetExceeded where
  kind : AgentBudgetKind
  deriving DecidableEq

structure AgentLoopBudget where
  maxModelRounds : Nat
  maxToolInvocations : Nat
  maxWallTime : Duration
  modelRounds : Nat
  toolInvocations : Nat
  deriving DecidableEq

namespace AgentLoopBudget

/-- `Duration::MAX`. -/
def durationMax : Duration := u64Max * 10 ^ 9 + 999999999

def fromRunLimits (limits : RunLimits) : AgentLoopBudget where
  maxModelRounds := limits.maxModelRounds
  maxToolInvocations := limits.maxToolInvocations
  maxWallTime := if limits.isUnlimited then durationMax else 30 * 60 * 10 ^ 9
  modelRounds := 0
  toolInvocations := 0

def checkWallTime (budget : AgentLoopBudget) (elapsed : Duration) : Except AgentBudgetExceeded Unit :=
  if elapsed > budget.maxWallTime then .error ⟨.wallTime⟩ else .ok ()

def consumeModelRound (budget : AgentLoopBudget) (elapsed : Duration) :
    Except AgentBudgetExceeded Unit × AgentLoopBudget :=
  if budget.maxModelRounds ≠ u32Max ∧ budget.modelRounds ≥ budget.maxModelRounds then
    (.error ⟨.modelRounds⟩, budget)
  else
    (budget.checkWallTime elapsed, { budget with modelRounds := min (budget.modelRounds + 1) u32Max })

def consumeToolInvocation (budget : AgentLoopBudget) (elapsed : Duration) :
    Except AgentBudgetExceeded Unit × AgentLoopBudget :=
  if budget.maxToolInvocations ≠ u32Max ∧ budget.toolInvocations ≥ budget.maxToolInvocations then
    (.error ⟨.toolInvocations⟩, budget)
  else
    (budget.checkWallTime elapsed,
      { budget with toolInvocations := min (budget.toolInvocations + 1) u32Max })

end AgentLoopBudget

/-! ## Continuations of a turn -/

structure ContinuationCounts where
  unlimited : Bool
  incomplete : Nat
  summaryOnly : Nat
  providerRequested : Nat
  deriving DecidableEq

namespace ContinuationCounts

def forLimits (limits : RunLimits) : ContinuationCounts := ⟨limits.isUnlimited, 0, 0, 0⟩

def slot (counts : ContinuationCounts) : ContinuationReason → Nat
  | .incomplete => counts.incomplete
  | .summaryOnly => counts.summaryOnly
  | .providerRequested => counts.providerRequested

def increment (counts : ContinuationCounts) : ContinuationReason → ContinuationCounts
  | .incomplete => { counts with incomplete := counts.incomplete + 1 }
  | .summaryOnly => { counts with summaryOnly := counts.summaryOnly + 1 }
  | .providerRequested => { counts with providerRequested := counts.providerRequested + 1 }

def tryBegin (counts : ContinuationCounts) (reason : ContinuationReason) : Bool × ContinuationCounts :=
  if counts.unlimited then (true, counts)
  else if counts.slot reason ≥ reason.defaultLimit then (false, counts)
  else (true, counts.increment reason)

def resetIncomplete (counts : ContinuationCounts) : ContinuationCounts := { counts with incomplete := 0 }

end ContinuationCounts

end Aifluxon
