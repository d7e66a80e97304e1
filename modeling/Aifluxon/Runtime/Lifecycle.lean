import Aifluxon.Runtime.Operations

/-!
# The life of an operation

* `Lifecycle` : the automaton that the store is for, one copy for each operation;
* `Lifecycle.rank_lt` : every move goes forward, so that a terminal state is never left and an effect
  is committed at most once;
* `lifecycle_of_run` : the store refines the automaton, over every sequence of calls;
* `Overdue`, `deadlines_iff` : which runs of the store respect the deadlines.
-/

namespace Aifluxon

open Machine (Free)

/-! ## The automaton -/

/-- The moves of an operation between its registration and its removal. -/
inductive Lifecycle (mode : OperationMode) : OperationState → OperationState → Prop where
  | approve (hmode : mode = .blockingApproval) : Lifecycle mode .pending .approved
  | reject : Lifecycle mode .pending .rejected
  | beginCommit (hmode : mode = .deferredCommit) : Lifecycle mode .pending .committing
  | cancelPending : Lifecycle mode .pending .cancelled
  | expire : Lifecycle mode .pending .expired
  | commitApproved : Lifecycle mode .approved .committed
  | failApproved (message : String) : Lifecycle mode .approved (.failed message)
  | cancelApproved : Lifecycle mode .approved .cancelled
  | commitCommitting : Lifecycle mode .committing .committed
  | failCommitting (message : String) : Lifecycle mode .committing (.failed message)

/-- How far an operation is from its end. -/
def OperationState.rank : OperationState → Nat
  | .pending => 2
  | .approved | .committing => 1
  | .rejected | .committed | .failed _ | .cancelled | .expired => 0

namespace Lifecycle

variable {mode : OperationMode} {a b : OperationState}

theorem rank_lt (h : Lifecycle mode a b) : b.rank < a.rank := by
  cases h <;> simp [OperationState.rank]

theorem rank_eq_zero : a.rank = 0 ↔ a.isTerminal = true := by
  cases a <;> simp [OperationState.rank, OperationState.isTerminal]

theorem not_terminal (h : Lifecycle mode a b) : a.isTerminal = false := by
  have hlt := h.rank_lt
  rw [← Bool.not_eq_true, ← rank_eq_zero]
  omega

/-- Along the life of an operation the distance to its end only shrinks. -/
theorem rank_le (h : Relation.ReflTransGen (Lifecycle mode) a b) : b.rank ≤ a.rank := by
  induction h with
  | refl => exact le_refl _
  | tail _ hs ih => exact (hs.rank_lt.le).trans ih

theorem committing_once (h : Relation.ReflTransGen (Lifecycle mode) .committing a)
    (hs : Lifecycle mode a b) : b ≠ .committing := by
  rintro rfl
  have hle := rank_le h
  have hlt := hs.rank_lt
  simp only [OperationState.rank] at hle hlt
  omega

end Lifecycle

/-- Every move of a record is a move of the automaton, and keeps the operation. -/
theorem Move.lifecycle {terminal : Finset RunId} {c : OperationCall} {r r' : OperationRecord}
    (h : Move terminal c r r') :
    Lifecycle r.operation.mode r.state r'.state ∧ r'.operation = r.operation := by
  cases h with
  | approve data _ hmode hstate => exact ⟨hstate ▸ .approve hmode, rfl⟩
  | reject reason _ hstate => exact ⟨hstate ▸ .reject, rfl⟩
  | beginCommit _ hmode hstate => exact ⟨hstate ▸ .beginCommit hmode, rfl⟩
  | finishBlockingApproval result hstate =>
    cases result with
    | ok => exact ⟨hstate ▸ .commitApproved, rfl⟩
    | error message => exact ⟨hstate ▸ .failApproved message, rfl⟩
  | finishCommit result hstate =>
    cases result with
    | ok => exact ⟨hstate ▸ .commitCommitting, rfl⟩
    | error message => exact ⟨hstate ▸ .failCommitting message, rfl⟩
  | cancel hstate =>
    rcases hstate with hstate | hstate
    · exact ⟨hstate ▸ .cancelPending, rfl⟩
    · exact ⟨hstate ▸ .cancelApproved, rfl⟩
  | expire now hstate _ => exact ⟨hstate ▸ .expire, rfl⟩

theorem Move.not_pending {terminal : Finset RunId} {c : OperationCall} {r r' : OperationRecord}
    (h : Move terminal c r r') : r'.state ≠ .pending := by
  intro hpending
  have hrank := h.lifecycle.1.rank_lt
  rw [hpending] at hrank
  cases hstate : r.state <;> rw [hstate] at hrank <;> simp [OperationState.rank] at hrank

/-- What moves is not terminal, and stays the same operation. -/
theorem Move.source {terminal : Finset RunId} {c : OperationCall} {r r' : OperationRecord}
    (h : Move terminal c r r') : r.state.isTerminal = false ∧ r'.operation = r.operation :=
  ⟨h.lifecycle.1.not_terminal, h.lifecycle.2⟩

theorem Move.runId {terminal : Finset RunId} {c : OperationCall} {r r' : OperationRecord}
    {runId : RunId} (h : Move terminal c r r') (hc : c.runId? = some runId) :
    r.operation.runId = runId := by
  cases h <;> first | exact Option.some.inj hc | cases hc

/-! ## Runs of the store -/

/-- The store under calls of any callers; a call is observed with its result. -/
def operationMachine : Machine InMemoryOperationStore OperationCall
    (OperationCall × Except OperationError (Option Nat)) where
  step s c := some ((c.apply s).2, [(c, (c.apply s).1)])

theorem operationMachine_step {s u : InMemoryOperationStore} {c : OperationCall} {o}
    (h : operationMachine.step s c = some (u, o)) : u = (c.apply s).2 := by
  simp only [operationMachine, Option.some.injEq, Prod.mk.injEq] at h
  exact h.1.symm

/-- What one call may do to the operations of a store. -/
structure LawfulCall (s : InMemoryOperationStore) (c : OperationCall) : Prop where
  moves : ∀ id r r', s.get id = some r → (c.apply s).2.get id = some r' →
    r'.operation = r.operation ∧ (r' = r ∨ Lifecycle r.operation.mode r.state r'.state)
  terminal : ∀ id r r', s.get id = some r → (c.apply s).2.get id = some r' →
    r.state.isTerminal = true → r' = r
  registered : ∀ id r', s.get id = none → (c.apply s).2.get id = some r' →
    (∃ now, c = .register now r'.operation) ∧ r'.operation.id = id ∧ r'.state = .pending ∧
      r'.decision = none
  removed : ∀ id r, s.get id = some r → (c.apply s).2.get id = none →
    c = .remove r.operation.runId id
  otherRun : ∀ id r runId, s.get id = some r → c.runId? = some runId → runId ≠ r.operation.runId →
    (c.apply s).2.get id = some r
  failed : ∀ e, (c.apply s).1 = .error e → (c.apply s).2 = s

theorem lawfulCall (s : InMemoryOperationStore) (c : OperationCall) : LawfulCall s c := by
  refine ⟨?_, ?_, ?_, ?_, ?_, fun e => InMemoryOperationStore.apply_error⟩
  · intro id r r' hr hr'
    have h := s.get_apply c id
    rw [hr, hr'] at h
    cases h with
    | same => exact ⟨rfl, .inl rfl⟩
    | moved h => exact ⟨h.lifecycle.2, .inr h.lifecycle.1⟩
  · intro id r r' hr hr' hterm
    have h := s.get_apply c id
    rw [hr, hr'] at h
    cases h with
    | same => rfl
    | moved h => exact absurd hterm (by simp [h.lifecycle.1.not_terminal])
  · intro id r' hr hr'
    have h := s.get_apply c id
    rw [hr, hr'] at h
    cases h with
    | registered hc hid => exact ⟨⟨_, hc⟩, hid, rfl, rfl⟩
  · intro id r hr hr'
    have h := s.get_apply c id
    have hid := s.keyed id r hr
    rw [hr, hr'] at h
    cases h with
    | removed hc => rw [hc, hid]
  · intro id r runId hr hc hne
    have h := s.get_apply c id
    have hid := s.keyed id r hr
    rw [hr] at h
    generalize hx : (c.apply s).2.get id = x at h
    cases h with
    | same => rfl
    | moved h => exact absurd (h.runId hc).symm hne
    | removed h =>
      rw [h] at hc
      exact absurd (Option.some.inj hc).symm hne

/-- While an operation is not removed, a run of the store takes it along its automaton. -/
theorem lifecycle_of_run {calls : List OperationCall} {tr} {s t : InMemoryOperationStore}
    {id : OperationId} {r : OperationRecord} (h : operationMachine.Run Free s calls tr t)
    (hr : s.get id = some r) (hrem : .remove r.operation.runId id ∉ calls) :
    ∃ r', t.get id = some r' ∧ r'.operation = r.operation ∧
      Relation.ReflTransGen (Lifecycle r.operation.mode) r.state r'.state := by
  induction h with
  | nil => exact ⟨r, hr, rfl, .refl⟩
  | @snoc calls tr t u c o _ _ hs ih =>
    rw [List.mem_append, not_or, List.mem_singleton] at hrem
    obtain ⟨r', hr', hop, hlife⟩ := ih hrem.1
    obtain rfl := operationMachine_step hs
    have hc := lawfulCall t c
    cases hu : (c.apply t).2.get id with
    | none => exact absurd (hop ▸ hc.removed id r' hr' hu).symm hrem.2
    | some r'' =>
      obtain ⟨hop', hm⟩ := hc.moves id r' r'' hr' hu
      refine ⟨r'', rfl, hop'.trans hop, ?_⟩
      rcases hm with rfl | hm
      · exact hlife
      · exact hlife.tail (hop ▸ hm)

/-- A call of the run gave a record its decision and, from `Pending`, its state. -/
def Decided (calls : List OperationCall) (id : OperationId) (r : OperationRecord) : Prop :=
  ∃ decision pre post tr t r₀, r.decision = some decision ∧
    r.state = InMemoryOperationStore.decisionState decision ∧
    calls = pre ++ .resolve r.operation.runId id decision :: post ∧
    operationMachine.Run Free .empty pre tr t ∧ t.get id = some r₀ ∧ r₀.state = .pending ∧
    ((OperationCall.resolve r.operation.runId id decision).apply t).2.get id = some r

theorem Decided.snoc {calls : List OperationCall} {id : OperationId} {r : OperationRecord}
    (h : Decided calls id r) (c : OperationCall) : Decided (calls ++ [c]) id r := by
  obtain ⟨decision, pre, post, tr, t, r₀, hd, hstate, hcalls, ht⟩ := h
  exact ⟨decision, pre, post ++ [c], tr, t, r₀, hd, hstate, by rw [hcalls]; simp, ht⟩

/-- What holds of every store that calls have made out of the empty one. -/
structure LawfulStore (calls : List OperationCall) (s : InMemoryOperationStore) : Prop where
  decided : ∀ id r, s.get id = some r → r.state = .approved ∨ r.state = .rejected →
    Decided calls id r
  terminalRun : ∀ runId ∈ s.terminalRuns, ∀ id r, s.get id = some r → r.operation.runId = runId →
    r.state ≠ .pending ∧ r.state ≠ .approved
  marked : ∀ runId, .cancelRun runId ∈ calls → runId ∈ s.terminalRuns

theorem decided_step {calls : List OperationCall} {tr} {s : InMemoryOperationStore}
    (hrun : operationMachine.Run Free .empty calls tr s) (h : LawfulStore calls s)
    (c : OperationCall) (id : OperationId) (r : OperationRecord)
    (hr : (c.apply s).2.get id = some r) (hstate : r.state = .approved ∨ r.state = .rejected) :
    Decided (calls ++ [c]) id r := by
  have hch := s.get_apply c id
  have hkey : ∀ r₀, s.get id = some r₀ → r₀.operation.id = id := fun r₀ => s.keyed id r₀
  have hafter := hr
  rw [hr] at hch
  generalize hx : s.get id = x at hch
  cases hch with
  | same => exact (h.decided id r hx hstate).snoc c
  | registered => simp at hstate
  | @moved r₀ _ hm =>
    have hid := hkey r₀ hx
    cases hm with
    | approve data _ _ hpending =>
      rw [hid] at hafter ⊢
      exact ⟨.approve data, calls, [], tr, s, r₀, rfl, rfl, rfl, hrun, hx, hpending, hafter⟩
    | reject reason _ hpending =>
      rw [hid] at hafter ⊢
      exact ⟨.reject reason, calls, [], tr, s, r₀, rfl, rfl, rfl, hrun, hx, hpending, hafter⟩
    | beginCommit | cancel | expire => simp at hstate
    | finishBlockingApproval result | finishCommit result =>
      cases result <;> simp [InMemoryOperationStore.resultState] at hstate

theorem terminalRun_step {calls : List OperationCall} {s : InMemoryOperationStore}
    (h : LawfulStore calls s) (c : OperationCall) (runId : RunId)
    (hrun : runId ∈ (c.apply s).2.terminalRuns) (id : OperationId) (r : OperationRecord)
    (hr : (c.apply s).2.get id = some r) (hop : r.operation.runId = runId) :
    r.state ≠ .pending ∧ r.state ≠ .approved := by
  rcases (s.mem_terminalRuns_apply c runId).1 hrun with hmem | rfl
  · have hch := s.get_apply c id
    rw [hr] at hch
    generalize hx : s.get id = x at hch
    cases hch with
    | same => exact h.terminalRun runId hmem id r hx hop
    | registered _ _ hnot => exact absurd (hop ▸ hmem) hnot
    | moved hm =>
      cases hm with
      | approve _ hnot | reject _ hnot | beginCommit hnot => exact absurd (hop ▸ hmem) hnot
      | cancel | expire => simp
      | finishBlockingApproval result | finishCommit result =>
        cases result <;> simp [InMemoryOperationStore.resultState]
  · simp only [OperationCall.apply, InMemoryOperationStore.cancelRun_get] at hr
    obtain ⟨r₀, -, rfl⟩ := Option.map_eq_some_iff.1 hr
    by_cases hcan : InMemoryOperationStore.cancellable runId r₀ = true
    · simp [hcan]
    · rw [if_neg hcan] at hop ⊢
      simpa [InMemoryOperationStore.cancellable, hop] using hcan

theorem LawfulStore.step {calls : List OperationCall} {tr} {s : InMemoryOperationStore}
    (hrun : operationMachine.Run Free .empty calls tr s) (h : LawfulStore calls s)
    (c : OperationCall) : LawfulStore (calls ++ [c]) (c.apply s).2 where
  decided := decided_step hrun h c
  terminalRun := terminalRun_step h c
  marked := by
    intro runId hmem
    rw [s.mem_terminalRuns_apply]
    rcases List.mem_append.1 hmem with hmem | hmem
    · exact .inl (h.marked runId hmem)
    · exact .inr (List.mem_singleton.1 hmem).symm

theorem lawfulStore {calls : List OperationCall} {tr} {s : InMemoryOperationStore}
    (h : operationMachine.Run Free .empty calls tr s) : LawfulStore calls s := by
  induction h with
  | nil => exact ⟨by simp, by simp [InMemoryOperationStore.empty], by simp⟩
  | snoc hr _ hs ih => exact operationMachine_step hs ▸ ih.step hr _

/-- **The store follows the automaton**: every store that calls of any callers reach is lawful, and
so is every further call on it. -/
theorem operation_store_lawful {calls : List OperationCall} {tr} {s : InMemoryOperationStore}
    (h : operationMachine.Run Free .empty calls tr s) :
    LawfulStore calls s ∧ ∀ c, LawfulCall s c :=
  ⟨lawfulStore h, lawfulCall s⟩

/-- A write that waits for a blocking approval until 10. -/
def fsWriteOperation : PendingOperation :=
  ⟨⟨1⟩, ⟨1⟩, none, .fsWrite, .blockingApproval, "write", .null, some 10⟩

theorem operation_store_lawful_approved :
    ∃ tr s, operationMachine.Run Free .empty
        [.register 0 fsWriteOperation, .resolve ⟨1⟩ ⟨1⟩ (.approve none)] tr s ∧
      s.get ⟨1⟩ = some ⟨fsWriteOperation, .approved, some (.approve none)⟩ ∧
      LawfulStore [.register 0 fsWriteOperation, .resolve ⟨1⟩ ⟨1⟩ (.approve none)] s ∧
      ∀ c, LawfulCall s c := by
  have hrun := Machine.exec_free (M := operationMachine) (s := .empty)
    (l := [.register 0 fsWriteOperation, .resolve ⟨1⟩ ⟨1⟩ (.approve none)]) rfl
  exact ⟨_, _, hrun, rfl, operation_store_lawful hrun⟩

/-! ## Deadlines -/

/-- The clock reading at which a call is made agrees with what `register` reads. -/
def OperationCall.madeAt (now : SystemTime) : OperationCall → Bool
  | .register clock _ => clock = now
  | _ => true

/-- The store under calls at clock readings. -/
def timedMachine : Machine InMemoryOperationStore (SystemTime × OperationCall)
    (OperationCall × Except OperationError (Option Nat)) where
  step s a := if a.2.madeAt a.1 then some ((a.2.apply s).2, [(a.2, (a.2.apply s).1)]) else none

/-- A pending operation whose deadline has come only stays so, is removed or leaves unapproved. -/
def RespectsDeadline (s : InMemoryOperationStore) (a : SystemTime × OperationCall) : Prop :=
  ∀ id r d, s.get id = some r → r.state = .pending → r.operation.deadline = some d → d ≤ a.1 →
    ∀ r', (a.2.apply s).2.get id = some r' →
      r'.state = .pending ∨ r'.state = .expired ∨ r'.state = .rejected ∨ r'.state = .cancelled

/-- The call asks for the approval, or the commit, of the operation in the way of its mode. -/
def OperationCall.approves (operation : PendingOperation) : OperationCall → Bool
  | .resolve runId id decision => runId = operation.runId && id = operation.id &&
    InMemoryOperationStore.isApprove decision && operation.mode = .blockingApproval
  | .beginCommit runId id =>
    runId = operation.runId && id = operation.id && operation.mode = .deferredCommit
  | _ => false

/-- The call approves an operation of a live run that a sweep at its time would still expire. -/
def Overdue (s : InMemoryOperationStore) (a : SystemTime × OperationCall) : Prop :=
  ∃ id r, s.get id = some r ∧ a.2.approves r.operation = true ∧
    r.operation.runId ∉ s.terminalRuns ∧ InMemoryOperationStore.expirable a.1 r = true

theorem expirable_iff {now : SystemTime} {r : OperationRecord} :
    InMemoryOperationStore.expirable now r = true ↔
      r.state = .pending ∧ ∃ d, r.operation.deadline = some d ∧ d ≤ now := by
  simp [InMemoryOperationStore.expirable, InMemoryOperationStore.deadlinePassed, Option.any_eq_true]

/-- Approval and the start of a commit are the only ways out of `Pending` past the deadline. -/
theorem respectsDeadline_of_not_overdue {s : InMemoryOperationStore} {a : SystemTime × OperationCall}
    (h : ¬ Overdue s a) : RespectsDeadline s a := by
  obtain ⟨now, c⟩ := a
  intro id r d hr hpending hd hnow r' hr'
  have hexp := expirable_iff.2 ⟨hpending, d, hd, hnow⟩
  have hch := s.get_apply c id
  rw [hr, hr'] at hch
  cases hch with
  | same => exact .inl hpending
  | moved hm =>
    cases hm with
    | approve data hrun hmode =>
      exact absurd ⟨id, r, hr, by simp [OperationCall.approves, InMemoryOperationStore.isApprove, hmode],
        hrun, hexp⟩ h
    | beginCommit hrun hmode =>
      exact absurd ⟨id, r, hr, by simp [OperationCall.approves, hmode], hrun, hexp⟩ h
    | reject => exact .inr (.inr (.inl rfl))
    | cancel => exact .inr (.inr (.inr rfl))
    | expire => exact .inr (.inl rfl)
    | finishBlockingApproval _ hstate | finishCommit _ hstate => rw [hpending] at hstate; cases hstate

/-- Neither `resolve` nor `begin_commit` looks at the deadline. -/
theorem not_respectsDeadline_of_overdue {s : InMemoryOperationStore}
    {a : SystemTime × OperationCall} (h : Overdue s a) : ¬ RespectsDeadline s a := by
  obtain ⟨now, c⟩ := a
  obtain ⟨id, r, hr, hc, hrun, hexp⟩ := h
  obtain ⟨hpending, d, hd, hnow⟩ := expirable_iff.1 hexp
  have hid := s.keyed id r hr
  intro hresp
  have hkeep := hresp id r d hr hpending hd hnow
  have hrec : s.recordForRun r.operation.runId id = .ok r :=
    InMemoryOperationStore.recordForRun_ok.2 ⟨hr, rfl⟩
  cases c with
  | resolve runId id' decision =>
    simp only [OperationCall.approves, Bool.and_eq_true, decide_eq_true_eq] at hc
    obtain ⟨⟨⟨rfl, rfl⟩, happ⟩, hmode⟩ := hc
    rw [hid] at hkeep
    cases decision with
    | reject => simp [InMemoryOperationStore.isApprove] at happ
    | approve data =>
      simp [OperationCall.apply, InMemoryOperationStore.resolve, hrun, hrec, hpending, hmode, hr,
        InMemoryOperationStore.decisionState] at hkeep
  | beginCommit runId id' =>
    simp only [OperationCall.approves, Bool.and_eq_true, decide_eq_true_eq] at hc
    obtain ⟨⟨rfl, rfl⟩, hmode⟩ := hc
    rw [hid] at hkeep
    simp [OperationCall.apply, InMemoryOperationStore.beginCommit, hrun, hrec, hpending, hmode, hr]
      at hkeep
  | register | finishBlockingApproval | finishCommit | cancelRun | expire | remove =>
    simp [OperationCall.approves] at hc

/-- **Deadlines.** A run of the store keeps every deadline exactly when none of its calls approves
an operation that is overdue and has not been swept. -/
theorem deadlines_iff (calls : List (SystemTime × OperationCall)) :
    timedMachine.Always RespectsDeadline .empty calls ↔
      timedMachine.Always (fun s a => ¬ Overdue s a) .empty calls :=
  ⟨fun h => h.imp fun _ _ hr ho => not_respectsDeadline_of_overdue ho hr,
    fun h => h.imp fun _ _ => respectsDeadline_of_not_overdue⟩

/-- The operation is approved ten units after its deadline. -/
theorem approved_after_deadline :
    ¬ timedMachine.Always RespectsDeadline .empty
      [(0, .register 0 fsWriteOperation), (20, .resolve ⟨1⟩ ⟨1⟩ (.approve none))] := by
  intro h
  have hrun := Machine.exec_free (M := timedMachine) (s := .empty)
    (l := [(0, .register 0 fsWriteOperation)]) rfl
  have hlast := h [_] (20, .resolve ⟨1⟩ ⟨1⟩ (.approve none)) [] _ _ rfl hrun
  have hstate := hlast ⟨1⟩ ⟨fsWriteOperation, .pending, none⟩ 10 rfl rfl rfl (by decide) _ rfl
  revert hstate
  decide

/-- A sweep at the time of the call leaves nothing overdue. -/
theorem not_overdue_expire (s : InMemoryOperationStore) (now : SystemTime) (c : OperationCall) :
    ¬ Overdue (s.expire now).2 (now, c) := by
  rintro ⟨id, r, hr, -, -, hexp⟩
  rw [InMemoryOperationStore.expire_get] at hr
  obtain ⟨r₀, -, rfl⟩ := Option.map_eq_some_iff.1 hr
  by_cases h : InMemoryOperationStore.expirable now r₀ = true
  · rw [if_pos h] at hexp
    exact absurd (expirable_iff.1 hexp).1 (by simp)
  · rw [if_neg h] at hexp
    exact h hexp

end Aifluxon
