import Aifluxon.Runtime.Once
import Mathlib.Algebra.GroupWithZero.Nat
import Mathlib.Data.Prod.Lex

/-!
# Rounds

How often the loop of a run asks its provider, and how often it starts an executor.

* `KeepsBudget` : the sections that leave the limits and the budget of a run alone; the calls of the
  host do (`CallState.step_budget`), and the steps of a tool call but its first (`CallStep.keepsBudget`);
* `LoopMove`, `loopMove_of_step` : the steps of the loop with the counters they move;
* `Account` : the calls of the provider against the budget and the counters; every step of the machine
  keeps it (`Account.step`);
* `rounds_bounded` : the bounds for a fresh run, and its end.
-/

namespace Aifluxon

open Machine (Free)

/-! ## Sections that leave a budget alone -/

/-- The run keeps its limits and its budget. -/
abbrev KeepsBudget : RunId → RunTable → RunTable → Prop := Keeps fun r => (r.limits, r.budget)

section KeepsBudget
variable {runId id : RunId} {t t' : RunTable}

theorem appendEvent_budget (r : RunRecord) (event : RunEvent) :
    ((r.appendEvent event).2.limits, (r.appendEvent event).2.budget) = (r.limits, r.budget) := by
  simp only [RunRecord.appendEvent]
  split <;> rfl

theorem setState_budget (r : RunRecord) (state : RunState) :
    ((r.setState state).2.limits, (r.setState state).2.budget) = (r.limits, r.budget) := by
  simp only [RunRecord.setState]
  split
  · rfl
  · split
    · rfl
    · exact appendEvent_budget _ _

theorem emit_budget (r : RunRecord) (event : RunEvent) :
    ((r.emit event).2.limits, (r.emit event).2.budget) = (r.limits, r.budget) := by
  simp only [RunRecord.emit]
  split
  · rfl
  · exact appendEvent_budget _ _

theorem finish_budget (r : RunRecord) (f : FinishEvent) :
    ((r.finish f).2.limits, (r.finish f).2.budget) = (r.limits, r.budget) := by
  simp only [RunRecord.finish]
  split
  · rfl
  · exact appendEvent_budget _ _

theorem cancel_budget (r : RunRecord) : (r.cancel.2.limits, r.cancel.2.budget) = (r.limits, r.budget) := by
  simp only [RunRecord.cancel]
  split
  · rfl
  · have hbudget := appendEvent_budget { r with state := .cancelled, cancelled := true } .cancelled
    split
    · rename_i happend
      rw [happend] at hbudget
      exact hbudget
    · rename_i happend
      rw [happend] at hbudget
      exact hbudget

theorem registerHook_budget (r : RunRecord) (hook : RunCancellationHook) :
    ((r.registerHook hook).2.limits, (r.registerHook hook).2.budget) = (r.limits, r.budget) := by
  simp only [RunRecord.registerHook]
  split <;> rfl

/-- **No call of the host touches a budget.** -/
theorem CallState.step_budget (pc : CallState) : KeepsBudget runId t (pc.step t).2 :=
  step_keeps emit_budget registerHook_budget fun _ r => ⟨setState_budget r, finish_budget r, cancel_budget r⟩

/-- A move that appends an event or records a result leaves the budget. -/
theorem Moved.keepsBudget {label : RecordLabel} (h : Moved t id label t') (hlabel : label ≠ .inner) :
    KeepsBudget runId t t' := by
  refine h.keeps fun r r' hmove => ?_
  cases hmove with
  | inner => exact absurd rfl hlabel
  | recorded | stateChanged | emitted | finished | cancelled => rfl

/-- **A tool call touches the budget in its first step alone.** -/
theorem CallStep.keepsBudget {env : AgentEnv} {registry : ToolRegistry} {k : CallKey} {call : ToolCall}
    {phase phase' : CallPhase} {o : List AgentObs}
    (h : CallStep env registry t k call phase (phase', t', o)) (hphase : phase ≠ .consume) :
    KeepsBudget runId t t' := by
  cases h with
  | consumed | consumeFailed => exact absurd rfl hphase
  | invalidStarted h | invalidFinished h | awaiting h | requested h | resumed h | refused h | admitted h
  | recorded h | answered h => exact h.keepsBudget nofun
  | registerFailed _ h => exact h.keeps
  | sectionFailed _ _ _ h => exact h.keeps
  | finishFailed h => exact (operate_same h).keeps
  | registered | failApproved | finishApproved => exact keeps_operate _
  | _ => exact .refl _ runId t

end KeepsBudget

/-! ## Steps of the loop, with its counters -/

/-- The answer that ends a call of the provider. -/
def LoopAction.answers : LoopAction → Bool
  | .observeCancel | .turn _ => true
  | .step | .consume _ => false

/-- The provider works on a turn. -/
def LoopPhase.isAwaiting : LoopPhase → Bool
  | .awaiting => true
  | _ => false

/-- All that a step of the loop does to its phase, its round and its counters. -/
inductive LoopMove (env : AgentEnv) (t : RunTable) (loop : LoopState) :
    LoopAction → LoopState → RunTable → Prop where
  | started {limits : RunLimits} (hphase : loop.phase = .start) (h : t.limits env.runId = .ok limits) :
      LoopMove env t loop .step { loop with continuations := .forLimits limits, phase := .top } t
  | entered (hphase : loop.phase = .top) : LoopMove env t loop .step { loop with phase := .consumeRound } t
  | asked {elapsed : Duration} {t' : RunTable} (hphase : loop.phase = .consumeRound)
      (h : t.consumeModelRound env.runId elapsed = (.ok (), t')) :
      LoopMove env t loop (.consume elapsed) { loop with phase := .awaiting } t'
  | exhausted {elapsed : Duration} {e : AgentBudgetExceeded} {t' : RunTable} (hphase : loop.phase = .consumeRound)
      (h : t.consumeModelRound env.runId elapsed = (.error e, t')) :
      LoopMove env t loop (.consume elapsed) (loop.failed (CallPhase.budgetMessage e)) t'
  | continued {turn : ModelTurn} {reason : ContinuationReason} {loop' : LoopState} (hphase : loop.phase = .awaiting)
      (h : loop.continuations.tryBegin reason = (true, loop'.continuations)) (hround : loop'.round = loop.round)
      (hphase' : loop'.phase = .top) : LoopMove env t loop (.turn (.ok turn)) loop' t
  | dispatched {turn : ModelTurn} {parallel : Bool} {loop' : LoopState} (hphase : loop.phase = .awaiting)
      (hcalls : turn.toolCalls ≠ []) (hcounts : loop'.continuations = loop.continuations.resetIncomplete)
      (hround : loop'.round = loop.round + 1)
      (hphase' : loop'.phase = .batch parallel (turn.toolCalls.map fun call => ⟨call, .consume⟩)) :
      LoopMove env t loop (.turn (.ok turn)) loop' t
  | joined {parallel : Bool} {frames : List Frame} {messages : List Message} {loop' : LoopState}
      (hphase : loop.phase = .batch parallel frames)
      (hjoined : LoopState.joined parallel frames = some (.ok messages))
      (hcounts : loop'.continuations = loop.continuations) (hround : loop'.round = loop.round)
      (hphase' : loop'.phase = .top) : LoopMove env t loop .step loop' t
  | returned {a : LoopAction} {loop' : LoopState} {res : Except ProviderError RunExecutionResult}
      (hlive : ∀ res, loop.phase ≠ .returned res) (hanswers : a.answers = loop.phase.isAwaiting)
      (hphase' : loop'.phase = .returned res) : LoopMove env t loop a loop' t

section LoopMove
variable {env : AgentEnv} {registry : ToolRegistry} {t t' : RunTable} {loop loop' : LoopState} {a : LoopAction}

theorem loopMove_dispatch (hphase : loop.phase = .awaiting) {turn : ModelTurn} (hcalls : turn.toolCalls ≠ [])
    {loop₁ : LoopState} (hcounts : loop₁.continuations = loop.continuations.resetIncomplete)
    (hround : loop₁.round = loop.round) :
    LoopMove env t loop (.turn (.ok turn)) (loop₁.dispatch registry turn) t := by
  have hlive : ∀ res, loop.phase ≠ .returned res := by simp [hphase]
  unfold LoopState.dispatch
  split
  · exact .returned hlive (by rw [hphase]; rfl) rfl
  · exact .dispatched hphase hcalls hcounts (congrArg (· + 1) hround) rfl

theorem loopMove_receive (hphase : loop.phase = .awaiting) (turn : ModelTurn) :
    LoopMove env t loop (.turn (.ok turn)) (loop.receive registry turn) t := by
  have hlive : ∀ res, loop.phase ≠ .returned res := by simp [hphase]
  have hanswers : (LoopAction.turn (.ok turn)).answers = loop.phase.isAwaiting := by rw [hphase]; rfl
  unfold LoopState.receive
  split
  · split
    · rename_i hbegin
      exact .continued hphase hbegin rfl rfl
    · exact .returned hlive hanswers rfl
  split
  · exact .returned hlive hanswers rfl
  · rename_i hcalls
    exact loopMove_dispatch hphase (fun hnil => hcalls (.inl hnil)) rfl rfl

/-- **Every step of the loop** is one of the moves above. -/
theorem loopMove_of_step {o : List AgentObs} (h : loop.step env registry t a = some (loop', t', o)) :
    LoopMove env t loop a loop' t' := by
  unfold LoopState.step at h
  split at h <;> rename_i hphase
  case h_1 =>
    split at h <;> cases h
    · exact .returned (by simp [hphase]) (by rw [hphase]; rfl) rfl
    · exact .started hphase ‹_›
  case h_2 =>
    split at h <;> cases h
    · exact .returned (by simp [hphase]) (by rw [hphase]; rfl) rfl
    · exact .entered hphase
  case h_3 elapsed =>
    split at h <;> cases h
    · exact .exhausted hphase ‹_›
    · exact .asked hphase ‹_›
  case h_4 =>
    split at h <;> cases h
    exact .returned (by simp [hphase]) (by rw [hphase]; rfl) rfl
  case h_5 =>
    cases h
    exact .returned (by simp [hphase]) (by rw [hphase]; rfl) rfl
  case h_6 turn =>
    cases h
    exact loopMove_receive hphase turn
  case h_7 parallel frames =>
    split at h <;> rename_i hjoined <;> cases h
    · exact .returned (by simp [hphase]) (by rw [hphase]; rfl) rfl
    · exact .joined hphase hjoined rfl rfl rfl
  case h_8 => cases h

/-- The loop takes an answer exactly where the provider works. -/
theorem LoopMove.answers (h : LoopMove env t loop a loop' t') : a.answers = loop.phase.isAwaiting := by
  cases h with
  | started hphase | entered hphase | asked hphase | exhausted hphase | continued hphase | dispatched hphase
  | joined hphase => rw [hphase]; rfl
  | returned _ hanswers => exact hanswers

end LoopMove

/-! ## What a run has spent -/

/-- The calls of the provider that were made: the answered ones, and the one that is underway. -/
def providerCalls (as : List AgentAction) (loop : LoopState) : Nat :=
  as.countP (fun
    | .loop a => a.answers
    | _ => false) + loop.phase.isAwaiting.toNat

/-- The executors that were started. -/
def executorStarts (tr : List AgentObs) : Nat :=
  tr.countP fun
    | .started .. => true
    | _ => false

/-- The call has been counted, and its executor may still be started. -/
def CallPhase.unstarted : CallPhase → Bool
  | .lookup | .prepare | .decide .. | .register .. | .setAwaiting .. | .request .. | .wait .. | .resume ..
  | .emitStarted .. | .select .. => true
  | _ => false

def LoopPhase.unstarted : LoopPhase → Nat
  | .batch _ frames => (frames.map fun frame => frame.phase.unstarted.toNat).sum
  | _ => 0

/-- The call has been counted and has not failed. -/
def CallPhase.isCounted : CallPhase → Bool
  | .consume | .done (.error _) => false
  | _ => true

/-- No counter of a continuation is past its limit. -/
structure ContinuationCounts.Limited (counts : ContinuationCounts) : Prop where
  limited : counts.unlimited = false
  incomplete : counts.incomplete ≤ 2
  summaryOnly : counts.summaryOnly ≤ 1
  providerRequested : counts.providerRequested ≤ 4

namespace ContinuationCounts
variable {counts counts' : ContinuationCounts} {reason : ContinuationReason}

def total (counts : ContinuationCounts) : Nat :=
  counts.incomplete + counts.summaryOnly + counts.providerRequested

theorem Limited.total_le (h : counts.Limited) : counts.total ≤ 7 := by
  have := h.incomplete
  have := h.summaryOnly
  have := h.providerRequested
  unfold total
  omega

theorem Limited.resetIncomplete (h : counts.Limited) : counts.resetIncomplete.Limited :=
  ⟨h.limited, Nat.zero_le _, h.summaryOnly, h.providerRequested⟩

theorem limited_forLimits {limits : RunLimits} (h : limits.isUnlimited = false) : (forLimits limits).Limited :=
  ⟨h, Nat.zero_le _, Nat.zero_le _, Nat.zero_le _⟩

/-- A continuation that begins takes one slot, and stays in the limits. -/
theorem Limited.tryBegin (h : counts.Limited) (hbegin : counts.tryBegin reason = (true, counts')) :
    counts'.Limited ∧ counts'.total = counts.total + 1 := by
  simp only [ContinuationCounts.tryBegin, h.limited, Bool.false_eq_true, if_false] at hbegin
  split at hbegin
  · cases hbegin
  · rename_i hslot
    cases hbegin
    have hi := h.incomplete
    have hs := h.summaryOnly
    have hp := h.providerRequested
    cases reason <;> simp only [slot, ContinuationReason.defaultLimit] at hslot
    · exact ⟨⟨h.limited, by simp only [increment]; omega, hs, hp⟩, by simp only [total, increment]; omega⟩
    · exact ⟨⟨h.limited, hi, hs, by simp only [increment]; omega⟩, by simp only [total, increment]; omega⟩
    · exact ⟨⟨h.limited, hi, by simp only [increment]; omega, hp⟩, by simp only [total, increment]; omega⟩

end ContinuationCounts

/-! ## Spending the budget -/

section Budget
variable {b b' : AgentLoopBudget} {elapsed : Duration} {res : Except AgentBudgetExceeded Unit}

/-- A counter of a budget under its maximum moves by one step at most, and by one when it is granted. -/
def Spends (maximum used used' : Nat) (granted : Prop) : Prop :=
  maximum ≠ u32Max → used ≤ maximum → used ≤ used' ∧ used' ≤ maximum ∧ (granted → used' = used + 1)

theorem spends_of_lt {maximum used : Nat} {granted : Prop} (hmax : maximum ≤ u32Max)
    (h : ¬ (maximum ≠ u32Max ∧ used ≥ maximum)) : Spends maximum used (min (used + 1) u32Max) granted := by
  intro hlimited hle
  omega

theorem spends_refl {maximum used : Nat} {granted : Prop} (h : ¬ granted) : Spends maximum used used granted :=
  fun _ hle => ⟨Nat.le_refl _, hle, fun hg => absurd hg h⟩

theorem AgentLoopBudget.consumeModelRound_spends (hmax : b.maxModelRounds ≤ u32Max)
    (h : b.consumeModelRound elapsed = (res, b')) :
    b' = { b with modelRounds := b'.modelRounds } ∧
      Spends b.maxModelRounds b.modelRounds b'.modelRounds (res = .ok ()) := by
  unfold AgentLoopBudget.consumeModelRound at h
  split at h
  · cases h
    exact ⟨rfl, spends_refl nofun⟩
  · cases h
    exact ⟨rfl, spends_of_lt hmax ‹_›⟩

theorem AgentLoopBudget.consumeToolInvocation_spends (hmax : b.maxToolInvocations ≤ u32Max)
    (h : b.consumeToolInvocation elapsed = (res, b')) :
    b' = { b with toolInvocations := b'.toolInvocations } ∧
      Spends b.maxToolInvocations b.toolInvocations b'.toolInvocations (res = .ok ()) := by
  unfold AgentLoopBudget.consumeToolInvocation at h
  split at h
  · cases h
    exact ⟨rfl, spends_refl nofun⟩
  · cases h
    exact ⟨rfl, spends_of_lt hmax ‹_›⟩

/-- The limits and the budget that a run has. -/
def RunTable.Budgeted (t : RunTable) (runId : RunId) (limits : RunLimits) (b : AgentLoopBudget) : Prop :=
  ∃ r, t.get runId = some r ∧ r.limits = limits ∧ r.budget = b

variable {t t' : RunTable} {runId : RunId} {limits : RunLimits}

theorem KeepsBudget.budgeted (h : KeepsBudget runId t t') (hb : t.Budgeted runId limits b) :
    t'.Budgeted runId limits b := by
  obtain ⟨r, hr, hlimits, hbudget⟩ := hb
  obtain ⟨r', hr', heq⟩ := h r hr
  obtain ⟨hlimits', hbudget'⟩ := Prod.mk.inj heq
  exact ⟨r', hr', hlimits'.trans hlimits, hbudget'.trans hbudget⟩

theorem budgeted_withRecord {α : Type} {unknown : AgentBudgetExceeded}
    (consume : AgentLoopBudget → Except AgentBudgetExceeded α × AgentLoopBudget)
    {hf : ∀ r : RunRecord, ({ r with budget := (consume r.budget).2 } : RunRecord).context = r.context}
    {res : Except AgentBudgetExceeded α} (hb : t.Budgeted runId limits b)
    (h : t.withRecord runId unknown
      (fun r => ((consume r.budget).1, { r with budget := (consume r.budget).2 })) hf = (res, t')) :
    (consume b).1 = res ∧ t'.Budgeted runId limits (consume b).2 := by
  obtain ⟨r, hr, hlimits, rfl⟩ := hb
  have hrecord := @RunTable.withRecord_some t _ _ runId unknown (fun r =>
    ((consume r.budget).1, { r with budget := (consume r.budget).2 })) hf r hr
  rw [h] at hrecord
  exact ⟨hrecord.1.symm, _, (hrecord.2 runId).trans (if_pos rfl), hlimits, rfl⟩

theorem budgeted_consumeModelRound (hb : t.Budgeted runId limits b) (hmax : b.maxModelRounds ≤ u32Max)
    (h : t.consumeModelRound runId elapsed = (res, t')) :
    ∃ n, t'.Budgeted runId limits { b with modelRounds := n } ∧
      Spends b.maxModelRounds b.modelRounds n (res = .ok ()) := by
  obtain ⟨hres, hb'⟩ := budgeted_withRecord (·.consumeModelRound elapsed) hb h
  obtain ⟨heq, hspends⟩ := AgentLoopBudget.consumeModelRound_spends hmax (Prod.ext hres rfl)
  exact ⟨_, heq ▸ hb', hspends⟩

theorem budgeted_consumeToolInvocation (hb : t.Budgeted runId limits b) (hmax : b.maxToolInvocations ≤ u32Max)
    (h : t.consumeToolInvocation runId elapsed = (res, t')) :
    ∃ n, t'.Budgeted runId limits { b with toolInvocations := n } ∧
      Spends b.maxToolInvocations b.toolInvocations n (res = .ok ()) := by
  obtain ⟨hres, hb'⟩ := budgeted_withRecord (·.consumeToolInvocation elapsed) hb h
  obtain ⟨heq, hspends⟩ := AgentLoopBudget.consumeToolInvocation_spends hmax (Prod.ext hres rfl)
  exact ⟨_, heq ▸ hb', hspends⟩

end Budget

/-! ## The account of a run -/

/-- The loop works on its turns, with the counters of the run's limits. -/
def LoopPhase.isTurning : LoopPhase → Bool
  | .start | .returned _ => false
  | _ => true

/-- The calls of the provider against the rounds of tool calls, and these against the tool calls that
were counted: a round that is over has counted one. -/
def LoopState.Paid (loop : LoopState) (tools calls : Nat) : Prop :=
  match loop.phase with
  | .start => calls = 0 ∧ loop.round = 0
  | .top | .consumeRound => calls ≤ 3 * loop.round + loop.continuations.total ∧ loop.round ≤ tools
  | .awaiting => calls ≤ 3 * loop.round + loop.continuations.total + 1 ∧ loop.round ≤ tools
  | .batch _ frames => calls ≤ 3 * loop.round + loop.continuations.total ∧ loop.continuations.incomplete = 0 ∧
      frames ≠ [] ∧ loop.round ≤ tools + 1 ∧
      ∀ frame ∈ frames, frame.phase.isCounted = true → loop.round ≤ tools
  | .returned _ => calls ≤ 3 * tools + 8

/-- A budget, the calls of the provider and the starts of executors, where the loop stands. -/
structure Account (limits : RunLimits) (b : AgentLoopBudget) (calls starts : Nat) (loop : LoopState) : Prop where
  maxModelRounds : b.maxModelRounds = limits.maxModelRounds
  maxToolInvocations : b.maxToolInvocations = limits.maxToolInvocations
  counts : loop.phase.isTurning = true → loop.continuations.Limited
  rounds : limits.maxModelRounds ≠ u32Max → calls ≤ b.modelRounds ∧ b.modelRounds ≤ limits.maxModelRounds
  paid : limits.maxToolInvocations ≠ u32Max → loop.Paid b.toolInvocations calls
  starts : limits.maxToolInvocations ≠ u32Max → starts + loop.phase.unstarted ≤ b.toolInvocations
  tools : limits.maxToolInvocations ≠ u32Max → b.toolInvocations ≤ limits.maxToolInvocations

namespace LoopState.Paid
variable {loop loop' : LoopState} {tools tools' calls : Nat}

/-- Wherever the loop stands, the tool calls pay for the calls of the provider. -/
theorem calls_le (h : loop.Paid tools calls)
    (hcounts : loop.phase.isTurning = true → loop.continuations.Limited) : calls ≤ 3 * tools + 8 := by
  unfold LoopState.Paid at h
  split at h <;> rename_i hphase <;> rw [hphase] at hcounts
  · omega
  · have := (hcounts rfl).total_le
    omega
  · have := (hcounts rfl).total_le
    omega
  · have := (hcounts rfl).total_le
    omega
  · obtain ⟨hcalls, hzero, -, hround, -⟩ := h
    have hs := (hcounts rfl).summaryOnly
    have hp := (hcounts rfl).providerRequested
    unfold ContinuationCounts.total at hcalls
    omega
  · exact h

end LoopState.Paid

section Account
variable {env : AgentEnv} {registry : ToolRegistry} {t t' : RunTable} {limits : RunLimits} {b : AgentLoopBudget}
  {calls starts : Nat} {loop loop' : LoopState} {a : LoopAction}

/-- The loop returns. -/
theorem Account.returned (h : Account limits b calls starts loop) {res : Except ProviderError RunExecutionResult}
    (hphase' : loop'.phase = .returned res) : Account limits b calls starts loop' where
  maxModelRounds := h.maxModelRounds
  maxToolInvocations := h.maxToolInvocations
  counts hturning := by rw [hphase'] at hturning; cases hturning
  rounds := h.rounds
  paid hT := by
    have hcalls := (h.paid hT).calls_le h.counts
    simpa only [LoopState.Paid, hphase'] using hcalls
  starts hT := by
    have hunstarted : loop'.phase.unstarted = 0 := by rw [hphase']; rfl
    have := h.starts hT
    omega
  tools := h.tools

/-- The loop comes to a phase of its turns, with no call before its start. -/
theorem Account.moved (h : Account limits b calls starts loop) (hcounts : loop'.continuations.Limited)
    (hpaid : loop.Paid b.toolInvocations calls → loop'.Paid b.toolInvocations calls)
    (hstarts : loop'.phase.unstarted = 0) : Account limits b calls starts loop' where
  maxModelRounds := h.maxModelRounds
  maxToolInvocations := h.maxToolInvocations
  counts _ := hcounts
  rounds := h.rounds
  paid hT := hpaid (h.paid hT)
  starts hT := by
    have := h.starts hT
    omega
  tools := h.tools

/-- The budget of rounds moves, and no call is made. -/
theorem Account.spent (h : Account limits b calls starts loop) {n : Nat} {granted : Prop}
    (hspends : Spends b.maxModelRounds b.modelRounds n granted) :
    Account limits { b with modelRounds := n } calls starts loop where
  maxModelRounds := h.maxModelRounds
  maxToolInvocations := h.maxToolInvocations
  counts := h.counts
  rounds hR := by
    obtain ⟨hcalls, hle⟩ := h.rounds hR
    rw [h.maxModelRounds] at hspends
    obtain ⟨hmono, hbound, -⟩ := hspends hR hle
    exact ⟨hcalls.trans hmono, hbound⟩
  paid := h.paid
  starts := h.starts
  tools := h.tools

/-- A round is granted, and the provider is called. -/
theorem Account.asked (h : Account limits b calls starts loop) (hphase : loop.phase = .consumeRound) {n : Nat}
    (hspends : Spends b.maxModelRounds b.modelRounds n (Except.ok () = (.ok () : Except AgentBudgetExceeded Unit))) :
    Account limits { b with modelRounds := n } (calls + 1) starts { loop with phase := .awaiting } where
  maxModelRounds := h.maxModelRounds
  maxToolInvocations := h.maxToolInvocations
  counts _ := h.counts (by rw [hphase]; rfl)
  rounds hR := by
    obtain ⟨hcalls, hle⟩ := h.rounds hR
    rw [h.maxModelRounds] at hspends
    obtain ⟨-, hbound, hgranted⟩ := hspends hR hle
    refine ⟨?_, hbound⟩
    rw [hgranted rfl]
    exact Nat.succ_le_succ hcalls
  paid hT := by
    have hpaid := h.paid hT
    simp only [LoopState.Paid, hphase] at hpaid ⊢
    omega
  starts hT := by
    have := h.starts hT
    simp only [hphase, LoopPhase.unstarted] at this ⊢
    exact this
  tools := h.tools

/-- **A step of the loop** keeps the account. -/
theorem Account.step_loop (h : Account limits b calls starts loop) (hb : t.Budgeted env.runId limits b)
    (hlimited : limits.isUnlimited = false) (hR : limits.maxModelRounds ≤ u32Max)
    (hmove : LoopMove env t loop a loop' t') :
    ∃ b', t'.Budgeted env.runId limits b' ∧
      Account limits b' (calls + loop'.phase.isAwaiting.toNat) starts loop' := by
  have hmax : b.maxModelRounds ≤ u32Max := h.maxModelRounds ▸ hR
  cases hmove with
  | started hphase hlimits =>
    obtain ⟨r, hr, hrlimits, -⟩ := id hb
    simp only [RunTable.limits, hr, Except.ok.injEq] at hlimits
    subst hlimits
    refine ⟨b, hb, h.moved (ContinuationCounts.limited_forLimits (hrlimits ▸ hlimited)) (fun hpaid => ?_) rfl⟩
    simp only [LoopState.Paid, hphase] at hpaid ⊢
    omega
  | entered hphase =>
    refine ⟨b, hb, h.moved (h.counts (by rw [hphase]; rfl)) (fun hpaid => ?_) rfl⟩
    simpa only [LoopState.Paid, hphase] using hpaid
  | asked hphase hconsume =>
    obtain ⟨n, hb', hspends⟩ := budgeted_consumeModelRound hb hmax hconsume
    exact ⟨_, hb', h.asked hphase hspends⟩
  | exhausted hphase hconsume =>
    obtain ⟨n, hb', hspends⟩ := budgeted_consumeModelRound hb hmax hconsume
    exact ⟨_, hb', (h.spent hspends).returned rfl⟩
  | continued hphase hbegin hround hphase' =>
    obtain ⟨hcounts, htotal⟩ := (h.counts (by rw [hphase]; rfl)).tryBegin hbegin
    rw [hphase']
    refine ⟨b, hb, h.moved hcounts (fun hpaid => ?_) (by rw [hphase']; rfl)⟩
    simp only [LoopState.Paid, hphase, hphase'] at hpaid ⊢
    omega
  | dispatched hphase hcalls hcounts hround hphase' =>
    have hlimits := h.counts (by rw [hphase]; rfl)
    rw [hphase']
    refine ⟨b, hb, h.moved (hcounts ▸ hlimits.resetIncomplete) (fun hpaid => ?_) ?_⟩
    · have hi := hlimits.incomplete
      simp only [LoopState.Paid, hphase, hphase', hcounts, ContinuationCounts.total,
        ContinuationCounts.resetIncomplete] at hpaid ⊢
      refine ⟨by omega, trivial, by simpa using hcalls, by omega, fun frame hframe hcounted => ?_⟩
      obtain ⟨call, -, rfl⟩ := List.mem_map.1 hframe
      cases hcounted
    · rw [hphase', LoopPhase.unstarted, List.map_map]
      exact List.sum_eq_zero_iff_forall_eq_nat.2 fun n hn => by
        obtain ⟨call, -, rfl⟩ := List.mem_map.1 hn
        rfl
  | @joined parallel frames messages loop' hphase hjoined hcounts hround hphase' =>
    rw [hphase']
    refine ⟨b, hb, h.moved (hcounts ▸ h.counts (by rw [hphase]; rfl)) (fun hpaid => ?_) (by rw [hphase']; rfl)⟩
    simp only [LoopState.Paid, hphase, hphase', hcounts, hround] at hpaid ⊢
    obtain ⟨hcalls, -, hne, -, hcounted⟩ := hpaid
    -- the first call of the batch has succeeded, so it was counted
    obtain ⟨frame, frames, rfl⟩ := List.exists_cons_of_ne_nil hne
    have hok := ok_of_joined hjoined frame List.mem_cons_self
    refine ⟨hcalls, hcounted frame List.mem_cons_self ?_⟩
    unfold Frame.isOk at hok
    split at hok
    · rename_i hdone
      rw [hdone]
      rfl
    · cases hok
  | returned _ _ hphase' =>
    rw [hphase']
    exact ⟨b, hb, h.returned hphase'⟩

/-! ## Steps of a call -/

variable {k : CallKey} {call : ToolCall} {phase phase' : CallPhase} {o : List AgentObs}

theorem sum_map_set {α : Type} (f : α → Nat) {l : List α} {i : Nat} {x y : α} (hx : l[i]? = some x) :
    ((l.set i y).map f).sum + f x = (l.map f).sum + f y := by
  induction l generalizing i with
  | nil => cases hx
  | cons z l ih =>
    cases i with
    | zero =>
      cases hx
      simp only [List.set_cons_zero, List.map_cons, List.sum_cons]
      omega
    | succ i =>
      have := ih hx
      simp only [List.set_cons_succ, List.map_cons, List.sum_cons]
      omega

/-- The first step of a call takes one of the tool calls of the budget, or fails. -/
theorem consume_cases {a : CallAction}
    (h : CallPhase.consume.step env registry t k call a = some (phase', t', o)) :
    ∃ elapsed res, t.consumeToolInvocation env.runId elapsed = (res, t') ∧ o = [] ∧
      ((res = .ok () ∧ phase' = .lookup) ∨ ∃ e, phase' = .done (.error e)) := by
  cases a <;> simp only [CallPhase.step, reduceCtorEq] at h
  split at h <;> rename_i hconsume <;> cases h
  · exact ⟨_, _, hconsume, rfl, .inr ⟨_, rfl⟩⟩
  · exact ⟨_, _, hconsume, rfl, .inl ⟨rfl, rfl⟩⟩

/-- Past its first step a call starts its executor at most once. -/
theorem CallStep.unstarted (h : CallStep env registry t k call phase (phase', t', o)) (hphase : phase ≠ .consume) :
    executorStarts o + phase'.unstarted.toNat ≤ phase.unstarted.toNat ∧ phase.isCounted = true := by
  cases h with
  | consumed | consumeFailed => exact absurd rfl hphase
  | sectionFailed _ hsection =>
    cases phase <;> first | exact ⟨Nat.zero_le _, rfl⟩ | cases hsection
  | _ => exact ⟨Nat.le_of_ble_eq_true rfl, rfl⟩

/-- A call of the batch moves on, and the budget of tool calls with it. -/
theorem Account.called (h : Account limits b calls starts loop) {parallel : Bool} {frames : List Frame}
    {index n starts' : Nat} {frame : Frame} (hphase : loop.phase = .batch parallel frames)
    (hframe : frames[index]? = some frame)
    (htools : limits.maxToolInvocations ≠ u32Max → b.toolInvocations ≤ n ∧ n ≤ limits.maxToolInvocations ∧
      starts' + phase'.unstarted.toNat + b.toolInvocations ≤ starts + frame.phase.unstarted.toNat + n ∧
      (phase'.isCounted = true → frame.phase.isCounted = true ∨ b.toolInvocations + 1 ≤ n)) :
    Account limits { b with toolInvocations := n } calls starts'
      { loop with phase := .batch parallel (frames.set index { frame with phase := phase' }) } where
  maxModelRounds := h.maxModelRounds
  maxToolInvocations := h.maxToolInvocations
  counts _ := h.counts (by rw [hphase]; rfl)
  rounds := h.rounds
  paid hT := by
    obtain ⟨hmono, -, -, hcounted⟩ := htools hT
    have hpaid := h.paid hT
    simp only [LoopState.Paid, hphase] at hpaid ⊢
    obtain ⟨hcalls, hzero, hne, hround, hframes⟩ := hpaid
    refine ⟨hcalls, hzero, by simpa using hne, by omega, fun f hf hfcounted => ?_⟩
    rcases List.mem_or_eq_of_mem_set hf with hf | rfl
    · exact (hframes f hf hfcounted).trans hmono
    · rcases hcounted hfcounted with hcounted | hcounted
      · exact (hframes frame (List.mem_of_getElem? hframe) hcounted).trans hmono
      · omega
  starts hT := by
    obtain ⟨-, -, hstarts, -⟩ := htools hT
    have hsum : ((frames.set index { frame with phase := phase' }).map fun frame => frame.phase.unstarted.toNat).sum
          + frame.phase.unstarted.toNat =
        (frames.map fun frame => frame.phase.unstarted.toNat).sum + phase'.unstarted.toNat := sum_map_set _ hframe
    have := h.starts hT
    simp only [hphase, LoopPhase.unstarted] at this ⊢
    omega
  tools hT := (htools hT).2.1

/-- **A step of a call** keeps the account. -/
theorem Account.step_call (h : Account limits b calls starts loop) (ht : t.WellFormed)
    (hb : t.Budgeted env.runId limits b) (hT : limits.maxToolInvocations ≤ u32Max) {parallel : Bool}
    {frames : List Frame} {index : Nat} {frame : Frame} {a : CallAction}
    (hphase : loop.phase = .batch parallel frames) (hframe : frames[index]? = some frame)
    (hstep : frame.phase.step env registry t k frame.call a = some (phase', t', o)) :
    ∃ b', t'.Budgeted env.runId limits b' ∧ Account limits b' calls (starts + executorStarts o)
      { loop with phase := .batch parallel (frames.set index { frame with phase := phase' }) } := by
  have hcall := callStep_of_step ht hstep
  by_cases hconsume : frame.phase = .consume
  · rw [hconsume] at hstep
    obtain ⟨elapsed, res, htable, rfl, hres⟩ := consume_cases hstep
    obtain ⟨n, hb', hspends⟩ := budgeted_consumeToolInvocation hb (h.maxToolInvocations ▸ hT) htable
    rw [h.maxToolInvocations] at hspends
    refine ⟨_, hb', h.called hphase hframe fun hlimited => ?_⟩
    obtain ⟨hmono, hbound, hgranted⟩ := hspends hlimited (h.tools hlimited)
    refine ⟨hmono, hbound, ?_⟩
    obtain ⟨hok, rfl⟩ | ⟨e, rfl⟩ := hres
    · have hn := hgranted hok
      rw [hconsume]
      exact ⟨by simp only [executorStarts, CallPhase.unstarted, List.countP_nil, Bool.toNat_true]; omega,
        fun _ => .inr hn.ge⟩
    · rw [hconsume]
      exact ⟨by simp only [executorStarts, CallPhase.unstarted, List.countP_nil, Bool.toNat_false]; omega, nofun⟩
  · obtain ⟨hunstarted, hcounted⟩ := hcall.unstarted hconsume
    refine ⟨b, (hcall.keepsBudget hconsume).budgeted hb, h.called hphase hframe fun hlimited => ?_⟩
    exact ⟨Nat.le_refl _, h.tools hlimited, by omega, fun _ => .inl hcounted⟩

end Account

/-! ## Steps of the machine -/

/-- The run is registered with its limits and has spent nothing, and its loop is before its first step. -/
structure Fresh (env : AgentEnv) (limits : RunLimits) (s : AgentState) : Prop where
  wellFormed : s.table.WellFormed
  budgeted : s.table.Budgeted env.runId limits (.fromRunLimits limits)
  loop : ∃ request, s.loop = .new request
  maxModelRounds_le : limits.maxModelRounds ≤ u32Max
  maxToolInvocations_le : limits.maxToolInvocations ≤ u32Max

/-- The account holds of the calls and the starts of a run. -/
def Accounted (env : AgentEnv) (limits : RunLimits) (as : List AgentAction) (tr : List AgentObs)
    (s : AgentState) : Prop :=
  ∃ b, s.table.Budgeted env.runId limits b ∧
    Account limits b (providerCalls as s.loop) (executorStarts tr) s.loop

section Step
variable {env : AgentEnv} {limits : RunLimits} {as : List AgentAction} {tr o : List AgentObs} {s u : AgentState}
  {a : AgentAction} {loop loop' : LoopState}

theorem Fresh.accounted (h : Fresh env limits s) : Accounted env limits [] [] s := by
  obtain ⟨request, hloop⟩ := h.loop
  refine ⟨_, h.budgeted, ?_⟩
  rw [hloop]
  exact ⟨rfl, rfl, nofun, fun _ => ⟨Nat.le_refl _, Nat.zero_le _⟩, fun _ => ⟨rfl, rfl⟩, fun _ => Nat.le_refl _,
    fun _ => Nat.zero_le _⟩

theorem executorStarts_eq_zero (ho : ∀ x ∈ o, ∀ k invocation executor, x ≠ .started k invocation executor) :
    executorStarts o = 0 := by
  refine List.countP_eq_zero.2 fun x hx => ?_
  cases x with
  | started k invocation executor => exact absurd rfl (ho _ hx k invocation executor)
  | _ => exact Bool.false_ne_true

theorem executorStarts_append : executorStarts (tr ++ o) = executorStarts tr + executorStarts o :=
  List.countP_append

theorem providerCalls_loop {l : LoopAction} (h : l.answers = loop.phase.isAwaiting) :
    providerCalls (as ++ [.loop l]) loop' = providerCalls as loop + loop'.phase.isAwaiting.toNat := by
  simp only [providerCalls, List.countP_append, List.countP_singleton, h]
  cases loop.phase.isAwaiting <;> simp

/-- The action is a step of the loop, or of one of its calls. -/
def AgentAction.isLoop : AgentAction → Bool
  | .loop _ | .call _ _ => true
  | .host _ | .registerTool _ _ | .sink _ => false

theorem providerCalls_other (ha : ∀ l, a ≠ .loop l) (hphase : loop'.phase.isAwaiting = loop.phase.isAwaiting) :
    providerCalls (as ++ [a]) loop' = providerCalls as loop := by
  simp only [providerCalls, List.countP_append, List.countP_singleton, hphase]
  cases a with
  | loop l => exact absurd rfl (ha l)
  | _ => rfl

/-- A step that leaves the loop alone keeps the account. -/
theorem Accounted.same_loop (h : Accounted env limits as tr s) (ha : ∀ l, a ≠ .loop l) (hloop : u.loop = s.loop)
    (hkeeps : KeepsBudget env.runId s.table u.table)
    (ho : ∀ x ∈ o, ∀ k invocation executor, x ≠ .started k invocation executor) :
    Accounted env limits (as ++ [a]) (tr ++ o) u := by
  obtain ⟨b, hb, haccount⟩ := h
  refine ⟨b, hkeeps.budgeted hb, ?_⟩
  rw [executorStarts_append, executorStarts_eq_zero ho, hloop, providerCalls_other ha rfl]
  exact haccount

/-- **Every step of the machine** keeps the account. -/
theorem Accounted.step (h : Accounted env limits as tr s) (hs : s.table.WellFormed)
    (hlimited : limits.isUnlimited = false) (hR : limits.maxModelRounds ≤ u32Max)
    (hT : limits.maxToolInvocations ≤ u32Max) (hstep : (agentMachine env).step s a = some (u, o)) :
    Accounted env limits (as ++ [a]) (tr ++ o) u := by
  cases a with
  | loop l =>
    obtain ⟨b, hb, haccount⟩ := h
    simp only [agentMachine] at hstep
    split at hstep <;> cases hstep
    rename_i hl
    have hmove := loopMove_of_step hl
    obtain ⟨b', hb', haccount'⟩ := haccount.step_loop hb hlimited hR hmove
    refine ⟨b', hb', ?_⟩
    have ho : executorStarts o = 0 := executorStarts_eq_zero fun x hx k invocation executor heq => by
      obtain ⟨turn, rfl⟩ := (loopStep_of_step hl).obs x hx
      cases heq
    rw [executorStarts_append, ho, providerCalls_loop hmove.answers]
    exact haccount'
  | host a =>
    cases agentStep_of_step hstep with
    | host hhost =>
      refine h.same_loop (by simp) rfl ?_ ?_
      · obtain ⟨call, -, rfl, -⟩ | ⟨n, pc, -, -, -, rfl, -⟩ := tableMachine_cases hhost
        · exact .refl _ _ _
        · exact pc.step_budget
      · intro x hx k invocation executor heq
        obtain ⟨p, -, rfl⟩ := List.mem_map.1 hx
        cases heq
  | registerTool =>
    cases hstep
    exact h.same_loop (by simp) rfl (.refl _ _ _) (by simp)
  | sink event =>
    cases hstep
    exact h.same_loop (by simp) rfl (keeps_withRecord fun _ r => emit_budget r event.event) (by simp)
  | call index c =>
    obtain ⟨b, hb, haccount⟩ := h
    cases agentStep_of_step hstep with
    | call hphase hframe _ hcall =>
      obtain ⟨b', hb', haccount'⟩ := haccount.step_call hs hb hT hphase hframe hcall
      refine ⟨b', hb', ?_⟩
      rw [executorStarts_append, providerCalls_other (a := .call index c) (by simp)
        (show _ = s.loop.phase.isAwaiting by rw [hphase]; rfl)]
      exact haccount'

end Step

/-! ## The end of a run -/

/-- The calls of the provider that limits allow. -/
def RunLimits.callBound (limits : RunLimits) : Nat :=
  if limits.maxModelRounds ≠ u32Max then limits.maxModelRounds else 3 * limits.maxToolInvocations + 8

/-- The steps that are left of a call are fewer than this. -/
def CallPhase.rank : CallPhase → Nat
  | .consume => 16
  | .lookup => 15
  | .prepare => 14
  | .decide .. => 13
  | .register .. => 12
  | .setAwaiting .. => 11
  | .request .. => 10
  | .wait .. => 9
  | .resume .. | .rejected _ => 8
  | .emitStarted .. => 7
  | .select .. => 6
  | .executing .. => 5
  | .failOperation .. | .finishOperation .. => 4
  | .record _ => 3
  | .emitFinished _ | .invalidStarted _ => 2
  | .invalidFinished _ => 1
  | .done _ => 0

/-- A turn goes down this order, from the answer of its provider to its next call. -/
def LoopPhase.rank : LoopPhase → Nat
  | .start => 5
  | .awaiting => 4
  | .batch .. => 3
  | .top => 2
  | .consumeRound => 1
  | .returned _ => 0

def LoopPhase.callRanks : LoopPhase → Nat
  | .batch _ frames => (frames.map fun frame => frame.phase.rank).sum
  | _ => 0

/-- The measure that every step of the loop lowers: the calls of the provider that are left, then where the
turn stands, then where its tool calls stand. -/
def loopMeasure (limits : RunLimits) (as : List AgentAction) (loop : LoopState) : ℕ ×ₗ ℕ ×ₗ ℕ :=
  toLex (limits.callBound - providerCalls as loop, toLex (loop.phase.rank, loop.phase.callRanks))

section Measure
variable {env : AgentEnv} {registry : ToolRegistry} {t t' : RunTable} {limits : RunLimits}
  {as : List AgentAction} {tr o : List AgentObs} {loop loop' : LoopState} {k : CallKey} {call : ToolCall}
  {phase phase' : CallPhase} {s u : AgentState}

/-- The calls of an account are in the bound. -/
theorem Account.calls_le {b : AgentLoopBudget} {calls starts : Nat} (h : Account limits b calls starts loop)
    (hlimited : limits.isUnlimited = false) : calls ≤ limits.callBound := by
  unfold RunLimits.callBound
  split
  · rename_i hR
    obtain ⟨hcalls, hrounds⟩ := h.rounds hR
    exact hcalls.trans hrounds
  · rename_i hR
    have hT : limits.maxToolInvocations ≠ u32Max := fun hT => by
      simp [RunLimits.isUnlimited, not_not.1 hR, hT] at hlimited
    have hcalls := (h.paid hT).calls_le h.counts
    have htools := h.tools hT
    omega

theorem CallStep.rank_lt (h : CallStep env registry t k call phase (phase', t', o)) : phase'.rank < phase.rank := by
  cases h with
  | sectionFailed _ hsection =>
    cases phase <;> first | exact Nat.zero_lt_succ _ | cases hsection
  | _ => exact Nat.le_of_ble_eq_true rfl

theorem LoopMove.rank_lt {a : LoopAction} (h : LoopMove env t loop a loop' t')
    (hphase' : loop'.phase.isAwaiting = false) : loop'.phase.rank < loop.phase.rank := by
  cases h with
  | started hphase | entered hphase | exhausted hphase =>
    rw [hphase]
    exact Nat.le_of_ble_eq_true rfl
  | asked => cases hphase'
  | continued hphase _ _ hphase' | dispatched hphase _ _ _ hphase' | joined hphase _ _ _ hphase' =>
    rw [hphase, hphase']
    exact Nat.le_of_ble_eq_true rfl
  | returned hlive _ hphase' =>
    rw [hphase']
    cases hphase : loop.phase with
    | returned res => exact absurd hphase (hlive res)
    | _ => exact Nat.zero_lt_succ _

/-- **Every step of the loop** lowers the measure, and no other step raises it. -/
theorem loopMeasure_step {a : AgentAction} (hs : s.table.WellFormed)
    (hbound : providerCalls (as ++ [a]) u.loop ≤ limits.callBound)
    (hstep : (agentMachine env).step s a = some (u, o)) :
    loopMeasure limits (as ++ [a]) u.loop ≤ loopMeasure limits as s.loop ∧
      (a.isLoop = true → loopMeasure limits (as ++ [a]) u.loop < loopMeasure limits as s.loop) := by
  have hother (ha : ∀ l, a ≠ .loop l) (hloop : u.loop = s.loop) :
      loopMeasure limits (as ++ [a]) u.loop = loopMeasure limits as s.loop := by
    unfold loopMeasure
    rw [hloop, providerCalls_other ha rfl]
  have hlower (hlt : loopMeasure limits (as ++ [a]) u.loop < loopMeasure limits as s.loop) :
      loopMeasure limits (as ++ [a]) u.loop ≤ loopMeasure limits as s.loop ∧
        (a.isLoop = true → loopMeasure limits (as ++ [a]) u.loop < loopMeasure limits as s.loop) :=
    ⟨hlt.le, fun _ => hlt⟩
  cases a with
  | loop l =>
    refine hlower (Prod.Lex.toLex_lt_toLex.2 ?_)
    simp only [agentMachine] at hstep
    split at hstep <;> cases hstep
    rename_i loop' t' hl
    have hmove := loopMove_of_step hl
    rw [providerCalls_loop hmove.answers] at hbound ⊢
    cases hasked : loop'.phase.isAwaiting with
    | true =>
      rw [hasked, Bool.toNat_true] at hbound
      exact .inl (by simp only [Bool.toNat_true]; omega)
    | false =>
      rw [Bool.toNat_false, Nat.add_zero]
      exact .inr ⟨rfl, Prod.Lex.toLex_lt_toLex.2 (.inl (hmove.rank_lt hasked))⟩
  | call index c =>
    refine hlower (Prod.Lex.toLex_lt_toLex.2 (.inr ?_))
    cases agentStep_of_step hstep with
    | @call _ _ parallel frames frame phase t _ hphase hframe _ hcall =>
      have hsum : ((frames.set index { frame with phase }).map fun frame => frame.phase.rank).sum
          + frame.phase.rank = (frames.map fun frame => frame.phase.rank).sum + phase.rank := sum_map_set _ hframe
      have hlt := (callStep_of_step hs hcall).rank_lt
      rw [providerCalls_other (a := .call index c) (by simp) (show _ = s.loop.phase.isAwaiting by rw [hphase]; rfl)]
      refine ⟨rfl, Prod.Lex.toLex_lt_toLex.2 (.inr ?_)⟩
      simp only [hphase, LoopPhase.rank, LoopPhase.callRanks, true_and]
      omega
  | host a =>
    cases agentStep_of_step hstep with
    | host => exact ⟨(hother (by simp) rfl).le, by simp [AgentAction.isLoop]⟩
  | registerTool =>
    cases hstep
    exact ⟨(hother (by simp) rfl).le, by simp [AgentAction.isLoop]⟩
  | sink event =>
    cases hstep
    exact ⟨(hother (by simp) rfl).le, by simp [AgentAction.isLoop]⟩

end Measure

/-! ## The bounds -/

section Bounds
variable {env : AgentEnv} {limits : RunLimits} {s : AgentState}

theorem Fresh.run (h : Fresh env limits s) (hlimited : limits.isUnlimited = false) {as : List AgentAction}
    {tr : List AgentObs} {t : AgentState} (hrun : (agentMachine env).Run Free s as tr t) :
    t.table.WellFormed ∧ Accounted env limits as tr t := by
  refine ⟨agent_wellFormed hrun h.wellFormed, ?_⟩
  refine hrun.history (P := fun as tr t => Accounted env limits as tr t) h.accounted ?_
  intro as tr t a u o hr hi _ hstep
  exact hi.step (agent_wellFormed hr h.wellFormed) hlimited h.maxModelRounds_le h.maxToolInvocations_le hstep

/-- **Rounds are bounded.** Whatever the provider, the tools, the policy and the host do, the loop of a fresh
run calls its provider within its limits, starts an executor within its limits, and comes to an end. -/
theorem rounds_bounded (h : Fresh env limits s) (hlimited : limits.isUnlimited = false) :
    (∀ as tr t, (agentMachine env).Run Free s as tr t →
      (limits.maxModelRounds ≠ u32Max → providerCalls as t.loop ≤ limits.maxModelRounds) ∧
      (limits.maxToolInvocations ≠ u32Max → providerCalls as t.loop ≤ 3 * limits.maxToolInvocations + 8 ∧
        executorStarts tr ≤ limits.maxToolInvocations)) ∧
    ∀ states actions, states 0 = s → (agentMachine env).Infinite states actions →
      ∃ N, ∀ n ≥ N, (actions n).isLoop = false := by
  constructor
  · intro as tr t hrun
    obtain ⟨b, -, haccount⟩ := (h.run hlimited hrun).2
    refine ⟨fun hR => ?_, fun hT => ⟨?_, ?_⟩⟩
    · obtain ⟨hcalls, hrounds⟩ := haccount.rounds hR
      exact hcalls.trans hrounds
    · have hcalls := (haccount.paid hT).calls_le haccount.counts
      have htools := haccount.tools hT
      omega
    · have hstarts := haccount.starts hT
      have htools := haccount.tools hT
      omega
  · rintro states actions rfl hinf
    let as (n : ℕ) : List AgentAction := (List.range n).map actions
    have hsucc (n : ℕ) : as (n + 1) = as n ++ [actions n] := by
      simp only [as, List.range_succ, List.map_append, List.map_singleton]
    have hbound (n : ℕ) : providerCalls (as n) (states n).loop ≤ limits.callBound := by
      obtain ⟨tr, hrun⟩ := hinf.run n
      obtain ⟨b, -, haccount⟩ := (h.run hlimited hrun).2
      exact haccount.calls_le hlimited
    let m (n : ℕ) := loopMeasure limits (as n) (states n).loop
    have hstep (n : ℕ) : m (n + 1) ≤ m n ∧ ((actions n).isLoop = true → m (n + 1) < m n) := by
      obtain ⟨tr, hrun⟩ := hinf.run n
      obtain ⟨o, hs⟩ := hinf n
      have hnext := hbound (n + 1)
      simp only [m]
      rw [hsucc] at hnext ⊢
      exact loopMeasure_step (h.run hlimited hrun).1 hnext hs
    obtain ⟨N, hN⟩ := Machine.eventually_not (m := m) (P := fun n => (actions n).isLoop = true)
      (fun n => (hstep n).1) fun n => (hstep n).2
    exact ⟨N, fun n hn => Bool.eq_false_iff.2 (hN n hn)⟩

end Bounds

/-- The agent in a run of one tool call, with no limit on its rounds. -/
def limitedAgent : AgentState :=
  { sendAgent with system := ⟨(RunTable.new.register ⟨⟨1⟩, none, none⟩ ⟨u32Max, 1⟩).2, []⟩ }

theorem limitedAgent_fresh : Fresh sendEnv ⟨u32Max, 1⟩ limitedAgent where
  wellFormed := (RunTable.register_step .new _ _).wellFormed RunTable.new_wellFormed
  budgeted := ⟨_, rfl, rfl, rfl⟩
  loop := ⟨sendRequest, rfl⟩
  maxModelRounds_le := Nat.le_refl _
  maxToolInvocations_le := by decide

/-- A turn of a provider that says that it is not done. -/
def incompleteTurn : ModelTurn := ⟨"", "", [], none, .continue .incomplete, .null⟩

/-- The provider asks to continue until it is refused. -/
def refusedAtThird : List AgentAction :=
  [.loop .step, .loop .step, .loop (.consume 0), .loop (.turn (.ok incompleteTurn)),
    .loop .step, .loop (.consume 0), .loop (.turn (.ok incompleteTurn)),
    .loop .step, .loop (.consume 0), .loop (.turn (.ok incompleteTurn))]

theorem rounds_bounded_refusedAtThird :
    ∃ tr t, (agentMachine sendEnv).Run Free limitedAgent refusedAtThird tr t ∧
      providerCalls refusedAtThird t.loop = 3 ∧ providerCalls refusedAtThird t.loop ≤ 3 * 1 + 8 ∧
      executorStarts tr ≤ 1 := by
  have hrun := Machine.exec_free (M := agentMachine sendEnv) (s := limitedAgent) (l := refusedAtThird) rfl
  obtain ⟨hcalls, hstarts⟩ := ((rounds_bounded limitedAgent_fresh rfl).1 _ _ _ hrun).2 (by decide)
  exact ⟨_, _, hrun, rfl, hcalls, hstarts⟩

end Aifluxon
