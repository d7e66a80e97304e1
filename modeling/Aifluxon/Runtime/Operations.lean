import Aifluxon.Core.Run
import Aifluxon.Lib.HashMap
import Aifluxon.Lib.Machine
import Mathlib.Data.Finset.Insert
import Mathlib.Data.List.Sort

/-!
# The operation store

`InMemoryOperationStore` of `operations.rs`. Every method takes the store's one lock once, so that a
method is one atomic step; a poisoned lock (a panic while it is held) does not occur.

* the methods, each giving its result and the store after it;
* `OperationCall.apply` : a call of any of the eight methods that change the store;
* `Move`, `Change`, `lookup_apply` : all that a call can do to one operation;
* `apply_error` : a call that fails changes nothing.
-/

namespace Aifluxon

inductive OperationError where
  | identifierCollision
  | unknownOperation
  | wrongRun
  | alreadyResolved
  | blockingWaitRequired
  | deferredCommitRequired
  | invalidState
  | runTerminal
  | cancelled
  | expired
  | commitFailed (message : String)
  | storeUnavailable
  deriving DecidableEq

def OperationError.message : OperationError → String
  | .identifierCollision => "Operation identifier collision."
  | .unknownOperation => "Operation was not found."
  | .wrongRun => "Operation does not belong to the requested run."
  | .alreadyResolved => "Operation was already resolved."
  | .blockingWaitRequired => "Only blocking approvals can be awaited for a decision."
  | .deferredCommitRequired => "Deferred operations must use the prepared-effect commit path."
  | .invalidState => "Operation is not in a valid state for this action."
  | .runTerminal => "The run is terminal and cannot accept operation changes."
  | .cancelled => "Operation was cancelled with its run."
  | .expired => "Operation expired before it was resolved."
  | .commitFailed message => "Prepared operation commit failed: " ++ message
  | .storeUnavailable => "Operation store is unavailable."

structure OperationRecord where
  operation : PendingOperation
  state : OperationState
  decision : Option OperationDecision
  deriving DecidableEq

/-- Every record stands under the identifier of its operation. -/
structure InMemoryOperationStore where
  operations : HashMap OperationId OperationRecord
  terminalRuns : Finset RunId
  keyed : ∀ id record, operations.lookup id = some record → record.operation.id = id

namespace InMemoryOperationStore

def empty : InMemoryOperationStore where
  operations := ∅
  terminalRuns := ∅
  keyed := by simp

/-- The record of an operation. -/
abbrev get (s : InMemoryOperationStore) (id : OperationId) : Option OperationRecord :=
  s.operations.lookup id

/-! ## The map behind the lock -/

def insertRecord (s : InMemoryOperationStore) (record : OperationRecord) : InMemoryOperationStore where
  operations := s.operations.insert record.operation.id record
  terminalRuns := s.terminalRuns
  keyed := by
    intro id r h
    rw [HashMap.lookup_insert_ite] at h
    split at h
    · cases h; exact Eq.symm ‹_›
    · exact s.keyed id r h

def modifyRecord (s : InMemoryOperationStore) (id : OperationId)
    (f : OperationRecord → OperationRecord) (hf : ∀ r, (f r).operation = r.operation) :
    InMemoryOperationStore where
  operations := s.operations.modify id f
  terminalRuns := s.terminalRuns
  keyed := by
    intro a r h
    rw [HashMap.lookup_modify] at h
    split at h
    · obtain ⟨r', hr', rfl⟩ := Option.map_eq_some_iff.1 h
      rw [hf]
      exact s.keyed a r' hr'
    · exact s.keyed a r h

def mapRecords (s : InMemoryOperationStore) (f : OperationRecord → OperationRecord)
    (hf : ∀ r, (f r).operation = r.operation) : InMemoryOperationStore where
  operations := s.operations.mapVals f
  terminalRuns := s.terminalRuns
  keyed := by
    intro a r h
    rw [HashMap.lookup_mapVals] at h
    obtain ⟨r', hr', rfl⟩ := Option.map_eq_some_iff.1 h
    rw [hf]
    exact s.keyed a r' hr'

def eraseRecord (s : InMemoryOperationStore) (id : OperationId) : InMemoryOperationStore where
  operations := s.operations.erase id
  terminalRuns := s.terminalRuns
  keyed := by
    intro a r h
    rw [HashMap.lookup_erase_ite] at h
    split at h
    · cases h
    · exact s.keyed a r h

def insertTerminalRun (s : InMemoryOperationStore) (runId : RunId) : InMemoryOperationStore :=
  { s with terminalRuns := insert runId s.terminalRuns }

section Map
variable (s : InMemoryOperationStore) (a : OperationId) (runId : RunId)

@[simp] theorem get_empty : empty.get a = none := rfl

@[simp] theorem get_insertRecord (record : OperationRecord) :
    (s.insertRecord record).get a = if a = record.operation.id then some record else s.get a :=
  HashMap.lookup_insert_ite _ _ _ _

@[simp] theorem get_modifyRecord (id : OperationId) (f hf) :
    (s.modifyRecord id f hf).get a = if a = id then (s.get a).map f else s.get a :=
  HashMap.lookup_modify _ _ _ _

@[simp] theorem get_mapRecords (f hf) : (s.mapRecords f hf).get a = (s.get a).map f :=
  HashMap.lookup_mapVals _ _ _

@[simp] theorem get_eraseRecord (id : OperationId) :
    (s.eraseRecord id).get a = if a = id then none else s.get a :=
  HashMap.lookup_erase_ite _ _ _

@[simp] theorem get_insertTerminalRun : (s.insertTerminalRun runId).get a = s.get a := rfl

@[simp] theorem terminalRuns_insertRecord (record : OperationRecord) :
    (s.insertRecord record).terminalRuns = s.terminalRuns := rfl

@[simp] theorem terminalRuns_modifyRecord (id : OperationId) (f hf) :
    (s.modifyRecord id f hf).terminalRuns = s.terminalRuns := rfl

@[simp] theorem terminalRuns_mapRecords (f hf) :
    (s.mapRecords f hf).terminalRuns = s.terminalRuns := rfl

@[simp] theorem terminalRuns_eraseRecord (id : OperationId) :
    (s.eraseRecord id).terminalRuns = s.terminalRuns := rfl

@[simp] theorem terminalRuns_insertTerminalRun :
    (s.insertTerminalRun runId).terminalRuns = insert runId s.terminalRuns := rfl

end Map

/-! ## The methods -/

/-- `record_for_run` and `record_for_run_mut`. -/
def recordForRun (s : InMemoryOperationStore) (runId : RunId) (operationId : OperationId) :
    Except OperationError OperationRecord :=
  match s.get operationId with
  | none => .error .unknownOperation
  | some record => if record.operation.runId ≠ runId then .error .wrongRun else .ok record

/-- `deadline.is_some_and(|deadline| deadline <= now)`. -/
def deadlinePassed (operation : PendingOperation) (now : SystemTime) : Bool :=
  operation.deadline.any fun deadline => decide (deadline ≤ now)

def register (s : InMemoryOperationStore) (now : SystemTime) (operation : PendingOperation) :
    Except OperationError Unit × InMemoryOperationStore :=
  if operation.runId ∈ s.terminalRuns then (.error .runTerminal, s)
  else if (s.get operation.id).isSome then (.error .identifierCollision, s)
  else if deadlinePassed operation now then (.error .expired, s)
  else (.ok (), s.insertRecord ⟨operation, .pending, none⟩)

/-- The order of the printed identifiers is that of their numbers. -/
def snapshot (s : InMemoryOperationStore) (runId : RunId) : List OperationSnapshot :=
  let records := s.operations.values.filter fun record => record.operation.runId = runId
  (records.map fun record => ⟨record.operation, record.state⟩).insertionSort
    fun a b => a.operation.id.uuid.toNat ≤ b.operation.id.uuid.toNat

def snapshotOperation (s : InMemoryOperationStore) (runId : RunId) (operationId : OperationId) :
    Except OperationError OperationSnapshot :=
  match s.recordForRun runId operationId with
  | .error error => .error error
  | .ok record => .ok ⟨record.operation, record.state⟩

/-- The state that a decision gives a pending operation. -/
def decisionState : OperationDecision → OperationState
  | .approve _ => .approved
  | .reject _ => .rejected

def isApprove : OperationDecision → Bool
  | .approve _ => true
  | .reject _ => false

def resolve (s : InMemoryOperationStore) (runId : RunId) (operationId : OperationId)
    (decision : OperationDecision) : Except OperationError Unit × InMemoryOperationStore :=
  if runId ∈ s.terminalRuns then (.error .runTerminal, s)
  else match s.recordForRun runId operationId with
    | .error error => (.error error, s)
    | .ok record =>
      if record.state ≠ .pending then (.error .alreadyResolved, s)
      else if record.operation.mode = .deferredCommit ∧ isApprove decision then
        (.error .deferredCommitRequired, s)
      else (.ok (), s.modifyRecord operationId
        (fun r => { r with state := decisionState decision, decision := some decision })
        fun _ => rfl)

/-- One turn of the loop of `wait`; `none` while the waiter is suspended. -/
def pollWait (s : InMemoryOperationStore) (runId : RunId) (operationId : OperationId) :
    Option (Except OperationError OperationDecision) :=
  match s.recordForRun runId operationId with
  | .error error => some (.error error)
  | .ok record =>
    if record.operation.mode ≠ .blockingApproval then some (.error .blockingWaitRequired)
    else match record.state with
      | .pending => none
      | .approved | .rejected => match record.decision with
        | some decision => some (.ok decision)
        | none => some (.error .invalidState)
      | .cancelled => some (.error .cancelled)
      | .expired => some (.error .expired)
      | .failed message => some (.error (.commitFailed message))
      | .committing | .committed => some (.error .invalidState)

/-- One turn of the loop of `wait_for_commit_or_reject`. -/
def pollWaitForCommitOrReject (s : InMemoryOperationStore) (runId : RunId)
    (operationId : OperationId) : Option (Except OperationError OperationDecision) :=
  match s.recordForRun runId operationId with
  | .error error => some (.error error)
  | .ok record =>
    if record.operation.mode ≠ .deferredCommit then some (.error .deferredCommitRequired)
    else match record.state with
      | .pending => none
      | .committing => some (.ok (.approve none))
      | .rejected => match record.decision with
        | some decision => some (.ok decision)
        | none => some (.error .invalidState)
      | .cancelled => some (.error .cancelled)
      | .expired => some (.error .expired)
      | .failed message => some (.error (.commitFailed message))
      | .approved | .committed => some (.error .invalidState)

def beginCommit (s : InMemoryOperationStore) (runId : RunId) (operationId : OperationId) :
    Except OperationError Unit × InMemoryOperationStore :=
  if runId ∈ s.terminalRuns then (.error .runTerminal, s)
  else match s.recordForRun runId operationId with
    | .error error => (.error error, s)
    | .ok record =>
      if record.operation.mode ≠ .deferredCommit then (.error .deferredCommitRequired, s)
      else if record.state ≠ .pending then (.error .alreadyResolved, s)
      else (.ok (), s.modifyRecord operationId (fun r => { r with state := .committing })
        fun _ => rfl)

/-- The state that the result of an effect gives its operation. -/
def resultState : Except String Unit → OperationState
  | .ok () => .committed
  | .error message => .failed message

def finishBlockingApproval (s : InMemoryOperationStore) (runId : RunId) (operationId : OperationId)
    (result : Except String Unit) : Except OperationError Unit × InMemoryOperationStore :=
  match s.recordForRun runId operationId with
  | .error error => (.error error, s)
  | .ok record =>
    if record.operation.mode ≠ .blockingApproval ∨ record.state ≠ .approved then
      (.error .invalidState, s)
    else (.ok (), s.modifyRecord operationId (fun r => { r with state := resultState result })
      fun _ => rfl)

def finishCommit (s : InMemoryOperationStore) (runId : RunId) (operationId : OperationId)
    (result : Except String Unit) : Except OperationError Unit × InMemoryOperationStore :=
  match s.recordForRun runId operationId with
  | .error error => (.error error, s)
  | .ok record =>
    if record.state ≠ .committing then (.error .invalidState, s)
    else (.ok (), s.modifyRecord operationId (fun r => { r with state := resultState result })
      fun _ => rfl)

/-- The operations that `cancel_run` cancels. -/
def cancellable (runId : RunId) (record : OperationRecord) : Bool :=
  record.operation.runId = runId && (record.state = .pending || record.state = .approved)

def cancelRun (s : InMemoryOperationStore) (runId : RunId) : Nat × InMemoryOperationStore :=
  ((s.operations.values.filter (cancellable runId)).length,
    (s.insertTerminalRun runId).mapRecords
      (fun r => if cancellable runId r then { r with state := .cancelled } else r)
      fun r => by split <;> rfl)

/-- The operations that `expire` expires. -/
def expirable (now : SystemTime) (record : OperationRecord) : Bool :=
  record.state = .pending && deadlinePassed record.operation now

def expire (s : InMemoryOperationStore) (now : SystemTime) : Nat × InMemoryOperationStore :=
  ((s.operations.values.filter (expirable now)).length,
    s.mapRecords (fun r => if expirable now r then { r with state := .expired } else r)
      fun r => by split <;> rfl)

def markRunTerminal (s : InMemoryOperationStore) (runId : RunId) : Nat × InMemoryOperationStore :=
  s.cancelRun runId

def remove (s : InMemoryOperationStore) (runId : RunId) (operationId : OperationId) :
    Except OperationError Unit × InMemoryOperationStore :=
  match s.recordForRun runId operationId with
  | .error error => (.error error, s)
  | .ok _ => (.ok (), s.eraseRecord operationId)

end InMemoryOperationStore

/-! ## Calls -/

/-- A call of a method that changes the store; `now` is what the caller's clock reads, or what it
passes to `expire`. -/
inductive OperationCall where
  | register (now : SystemTime) (operation : PendingOperation)
  | resolve (runId : RunId) (operationId : OperationId) (decision : OperationDecision)
  | beginCommit (runId : RunId) (operationId : OperationId)
  | finishBlockingApproval (runId : RunId) (operationId : OperationId) (result : Except String Unit)
  | finishCommit (runId : RunId) (operationId : OperationId) (result : Except String Unit)
  | cancelRun (runId : RunId)
  | expire (now : SystemTime)
  | remove (runId : RunId) (operationId : OperationId)

namespace OperationCall

/-- The result of a call (`cancel_run` and `expire` give a count) and the store after it. -/
def apply : OperationCall → InMemoryOperationStore →
    Except OperationError (Option Nat) × InMemoryOperationStore
  | register now operation, s => ((s.register now operation).1.map fun _ => none,
      (s.register now operation).2)
  | resolve runId id decision, s => ((s.resolve runId id decision).1.map fun _ => none,
      (s.resolve runId id decision).2)
  | beginCommit runId id, s => ((s.beginCommit runId id).1.map fun _ => none,
      (s.beginCommit runId id).2)
  | finishBlockingApproval runId id result, s =>
    ((s.finishBlockingApproval runId id result).1.map fun _ => none,
      (s.finishBlockingApproval runId id result).2)
  | finishCommit runId id result, s => ((s.finishCommit runId id result).1.map fun _ => none,
      (s.finishCommit runId id result).2)
  | cancelRun runId, s => (.ok (some (s.cancelRun runId).1), (s.cancelRun runId).2)
  | expire now, s => (.ok (some (s.expire now).1), (s.expire now).2)
  | remove runId id, s => ((s.remove runId id).1.map fun _ => none, (s.remove runId id).2)

/-- The run that a call names. -/
def runId? : OperationCall → Option RunId
  | register _ operation => some operation.runId
  | resolve runId _ _ | beginCommit runId _ | finishBlockingApproval runId _ _
  | finishCommit runId _ _ | cancelRun runId | remove runId _ => some runId
  | expire _ => none

end OperationCall

/-! ## What a call can do -/

/-- The moves of one operation under a call, the runs in `terminal` being marked terminal. -/
inductive Move (terminal : Finset RunId) : OperationCall → OperationRecord → OperationRecord → Prop where
  | approve {r : OperationRecord} (data : Option Value) (hrun : r.operation.runId ∉ terminal)
      (hmode : r.operation.mode = .blockingApproval) (hstate : r.state = .pending) :
      Move terminal (.resolve r.operation.runId r.operation.id (.approve data)) r
        { r with state := .approved, decision := some (.approve data) }
  | reject {r : OperationRecord} (reason : Option String) (hrun : r.operation.runId ∉ terminal)
      (hstate : r.state = .pending) :
      Move terminal (.resolve r.operation.runId r.operation.id (.reject reason)) r
        { r with state := .rejected, decision := some (.reject reason) }
  | beginCommit {r : OperationRecord} (hrun : r.operation.runId ∉ terminal)
      (hmode : r.operation.mode = .deferredCommit) (hstate : r.state = .pending) :
      Move terminal (.beginCommit r.operation.runId r.operation.id) r { r with state := .committing }
  | finishBlockingApproval {r : OperationRecord} (result : Except String Unit)
      (hstate : r.state = .approved) :
      Move terminal (.finishBlockingApproval r.operation.runId r.operation.id result) r
        { r with state := InMemoryOperationStore.resultState result }
  | finishCommit {r : OperationRecord} (result : Except String Unit) (hstate : r.state = .committing) :
      Move terminal (.finishCommit r.operation.runId r.operation.id result) r
        { r with state := InMemoryOperationStore.resultState result }
  | cancel {r : OperationRecord} (hstate : r.state = .pending ∨ r.state = .approved) :
      Move terminal (.cancelRun r.operation.runId) r { r with state := .cancelled }
  | expire {r : OperationRecord} (now : SystemTime) (hstate : r.state = .pending)
      (hdeadline : InMemoryOperationStore.deadlinePassed r.operation now = true) :
      Move terminal (.expire now) r { r with state := .expired }

/-- What a call can do to the record under one identifier. -/
inductive Change (s : InMemoryOperationStore) (c : OperationCall) (id : OperationId) :
    Option OperationRecord → Option OperationRecord → Prop where
  | same (x : Option OperationRecord) : Change s c id x x
  | registered {now : SystemTime} {operation : PendingOperation} (hc : c = .register now operation)
      (hid : operation.id = id) (hrun : operation.runId ∉ s.terminalRuns)
      (hdeadline : InMemoryOperationStore.deadlinePassed operation now = false) :
      Change s c id none (some ⟨operation, .pending, none⟩)
  | moved {r r' : OperationRecord} (h : Move s.terminalRuns c r r') : Change s c id (some r) (some r')
  | removed {r : OperationRecord} (hc : c = .remove r.operation.runId r.operation.id) :
      Change s c id (some r) none

namespace InMemoryOperationStore

variable {s : InMemoryOperationStore} {runId : RunId} {operationId : OperationId}

theorem recordForRun_ok {record : OperationRecord} :
    s.recordForRun runId operationId = .ok record ↔
      s.get operationId = some record ∧ record.operation.runId = runId := by
  unfold recordForRun
  cases h : s.get operationId with
  | none => simp
  | some r =>
    by_cases hr : r.operation.runId = runId
    · simp only [hr, ne_eq, not_true_eq_false, if_false, Except.ok.injEq, Option.some.injEq]
      exact ⟨fun h => ⟨h, h ▸ hr⟩, fun h => h.1⟩
    · simp only [hr, ne_eq, not_false_eq_true, if_true, reduceCtorEq, Option.some.injEq, false_iff,
        not_and]
      rintro rfl
      exact hr

/-! ### One lemma for each method: it fails and changes nothing, or its guards hold -/

theorem register_cases (s : InMemoryOperationStore) (now : SystemTime) (operation : PendingOperation) :
    (∃ e, s.register now operation = (.error e, s)) ∨
    (operation.runId ∉ s.terminalRuns ∧ s.get operation.id = none ∧
      deadlinePassed operation now = false ∧
      s.register now operation = (.ok (), s.insertRecord ⟨operation, .pending, none⟩)) := by
  unfold register
  split
  · exact .inl ⟨_, rfl⟩
  split
  · exact .inl ⟨_, rfl⟩
  split
  · exact .inl ⟨_, rfl⟩
  · rename_i hrun hnone hdeadline
    exact .inr ⟨hrun, by simpa using hnone, by simpa using hdeadline, rfl⟩

theorem resolve_cases (s : InMemoryOperationStore) (runId : RunId) (operationId : OperationId)
    (decision : OperationDecision) :
    (∃ e, s.resolve runId operationId decision = (.error e, s)) ∨
    ∃ record, s.get operationId = some record ∧ record.operation.runId = runId ∧
      runId ∉ s.terminalRuns ∧ record.state = .pending ∧
      (isApprove decision = true → record.operation.mode = .blockingApproval) ∧
      s.resolve runId operationId decision = (.ok (), s.modifyRecord operationId
        (fun r => { r with state := decisionState decision, decision := some decision })
        fun _ => rfl) := by
  unfold resolve
  split
  · exact .inl ⟨_, rfl⟩
  rename_i hrun
  split
  · exact .inl ⟨_, rfl⟩
  rename_i record hrec
  obtain ⟨hget, hr⟩ := recordForRun_ok.1 hrec
  split
  · exact .inl ⟨_, rfl⟩
  rename_i hstate
  split
  · exact .inl ⟨_, rfl⟩
  rename_i hmode
  refine .inr ⟨record, hget, hr, hrun, not_not.1 hstate, fun happ => ?_, rfl⟩
  cases hm : record.operation.mode with
  | blockingApproval => rfl
  | deferredCommit => exact absurd ⟨hm, happ⟩ hmode

theorem beginCommit_cases (s : InMemoryOperationStore) (runId : RunId) (operationId : OperationId) :
    (∃ e, s.beginCommit runId operationId = (.error e, s)) ∨
    ∃ record, s.get operationId = some record ∧ record.operation.runId = runId ∧
      runId ∉ s.terminalRuns ∧ record.operation.mode = .deferredCommit ∧ record.state = .pending ∧
      s.beginCommit runId operationId = (.ok (), s.modifyRecord operationId
        (fun r => { r with state := .committing }) fun _ => rfl) := by
  unfold beginCommit
  split
  · exact .inl ⟨_, rfl⟩
  rename_i hrun
  split
  · exact .inl ⟨_, rfl⟩
  rename_i record hrec
  obtain ⟨hget, hr⟩ := recordForRun_ok.1 hrec
  split
  · exact .inl ⟨_, rfl⟩
  rename_i hmode
  split
  · exact .inl ⟨_, rfl⟩
  rename_i hstate
  exact .inr ⟨record, hget, hr, hrun, not_not.1 hmode, not_not.1 hstate, rfl⟩

theorem finishBlockingApproval_cases (s : InMemoryOperationStore) (runId : RunId)
    (operationId : OperationId) (result : Except String Unit) :
    (∃ e, s.finishBlockingApproval runId operationId result = (.error e, s)) ∨
    ∃ record, s.get operationId = some record ∧ record.operation.runId = runId ∧
      record.operation.mode = .blockingApproval ∧ record.state = .approved ∧
      s.finishBlockingApproval runId operationId result = (.ok (), s.modifyRecord operationId
        (fun r => { r with state := resultState result }) fun _ => rfl) := by
  unfold finishBlockingApproval
  split
  · exact .inl ⟨_, rfl⟩
  rename_i record hrec
  obtain ⟨hget, hr⟩ := recordForRun_ok.1 hrec
  split
  · exact .inl ⟨_, rfl⟩
  rename_i hguard
  obtain ⟨hmode, hstate⟩ := not_or.1 hguard
  exact .inr ⟨record, hget, hr, not_not.1 hmode, not_not.1 hstate, rfl⟩

theorem finishCommit_cases (s : InMemoryOperationStore) (runId : RunId)
    (operationId : OperationId) (result : Except String Unit) :
    (∃ e, s.finishCommit runId operationId result = (.error e, s)) ∨
    ∃ record, s.get operationId = some record ∧ record.operation.runId = runId ∧
      record.state = .committing ∧
      s.finishCommit runId operationId result = (.ok (), s.modifyRecord operationId
        (fun r => { r with state := resultState result }) fun _ => rfl) := by
  unfold finishCommit
  split
  · exact .inl ⟨_, rfl⟩
  rename_i record hrec
  obtain ⟨hget, hr⟩ := recordForRun_ok.1 hrec
  split
  · exact .inl ⟨_, rfl⟩
  rename_i hstate
  exact .inr ⟨record, hget, hr, not_not.1 hstate, rfl⟩

theorem remove_cases (s : InMemoryOperationStore) (runId : RunId) (operationId : OperationId) :
    (∃ e, s.remove runId operationId = (.error e, s)) ∨
    ∃ record, s.get operationId = some record ∧ record.operation.runId = runId ∧
      s.remove runId operationId = (.ok (), s.eraseRecord operationId) := by
  unfold remove
  split
  · exact .inl ⟨_, rfl⟩
  rename_i record hrec
  obtain ⟨hget, hr⟩ := recordForRun_ok.1 hrec
  exact .inr ⟨record, hget, hr, rfl⟩

/-! ### The change of one operation -/

/-- A change of the record that the call has looked up. -/
theorem Change.ofModify {c : OperationCall} {record : OperationRecord}
    {f : OperationRecord → OperationRecord} (hget : s.get operationId = some record)
    (hm : Move s.terminalRuns c record (f record)) (id : OperationId) :
    Change s c id (s.get id) (if id = operationId then (s.get id).map f else s.get id) := by
  by_cases hid : id = operationId
  · subst hid
    rw [if_pos rfl, hget]
    exact .moved hm
  · rw [if_neg hid]
    exact .same _

/-- A change of every record that meets a condition. -/
theorem Change.ofMap {c : OperationCall} {p : OperationRecord → Bool}
    {f : OperationRecord → OperationRecord} (hm : ∀ r, p r = true → Move s.terminalRuns c r (f r))
    (id : OperationId) :
    Change s c id (s.get id) ((s.get id).map fun r => if p r then f r else r) := by
  cases hr : s.get id with
  | none => exact .same _
  | some r =>
    rw [Option.map_some]
    by_cases hp : p r = true
    · rw [if_pos hp]
      exact .moved (hm r hp)
    · rw [if_neg hp]
      exact .same _

theorem cancelRun_get (s : InMemoryOperationStore) (runId : RunId) (id : OperationId) :
    (s.cancelRun runId).2.get id = (s.get id).map fun r =>
      if cancellable runId r then { r with state := .cancelled } else r := by
  simp [cancelRun]

theorem expire_get (s : InMemoryOperationStore) (now : SystemTime) (id : OperationId) :
    (s.expire now).2.get id = (s.get id).map fun r =>
      if expirable now r then { r with state := .expired } else r := by
  simp [expire]

/-- **All that a call can do to one operation.** -/
theorem get_apply (s : InMemoryOperationStore) (c : OperationCall) (id : OperationId) :
    Change s c id (s.get id) ((c.apply s).2.get id) := by
  cases c with
  | register now operation =>
    simp only [OperationCall.apply]
    obtain ⟨e, h⟩ | ⟨hrun, hnone, hdeadline, h⟩ := s.register_cases now operation <;> rw [h]
    · exact .same _
    rw [get_insertRecord]
    by_cases hid : id = operation.id
    · subst hid
      rw [if_pos rfl, hnone]
      exact .registered rfl rfl hrun hdeadline
    · rw [if_neg hid]
      exact .same _
  | resolve runId operationId decision =>
    simp only [OperationCall.apply]
    obtain ⟨e, h⟩ | ⟨record, hget, rfl, hrun, hstate, hmode, h⟩ :=
      s.resolve_cases runId operationId decision <;> rw [h]
    · exact .same _
    rw [get_modifyRecord]
    refine Change.ofModify hget ?_ id
    obtain rfl := s.keyed _ _ hget
    cases decision with
    | approve data => exact .approve data hrun (hmode rfl) hstate
    | reject reason => exact .reject reason hrun hstate
  | beginCommit runId operationId =>
    simp only [OperationCall.apply]
    obtain ⟨e, h⟩ | ⟨record, hget, rfl, hrun, hmode, hstate, h⟩ :=
      s.beginCommit_cases runId operationId <;> rw [h]
    · exact .same _
    obtain rfl := s.keyed _ _ hget
    rw [get_modifyRecord]
    exact Change.ofModify hget (.beginCommit hrun hmode hstate) id
  | finishBlockingApproval runId operationId result =>
    simp only [OperationCall.apply]
    obtain ⟨e, h⟩ | ⟨record, hget, rfl, -, hstate, h⟩ :=
      s.finishBlockingApproval_cases runId operationId result <;> rw [h]
    · exact .same _
    obtain rfl := s.keyed _ _ hget
    rw [get_modifyRecord]
    exact Change.ofModify hget (.finishBlockingApproval result hstate) id
  | finishCommit runId operationId result =>
    simp only [OperationCall.apply]
    obtain ⟨e, h⟩ | ⟨record, hget, rfl, hstate, h⟩ :=
      s.finishCommit_cases runId operationId result <;> rw [h]
    · exact .same _
    obtain rfl := s.keyed _ _ hget
    rw [get_modifyRecord]
    exact Change.ofModify hget (.finishCommit result hstate) id
  | cancelRun runId =>
    simp only [OperationCall.apply, cancelRun_get]
    refine Change.ofMap (fun r hr => ?_) id
    simp only [cancellable, Bool.and_eq_true, decide_eq_true_eq, Bool.or_eq_true] at hr
    obtain ⟨rfl, hstate⟩ := hr
    exact .cancel hstate
  | expire now =>
    simp only [OperationCall.apply, expire_get]
    refine Change.ofMap (fun r hr => ?_) id
    simp only [expirable, Bool.and_eq_true, decide_eq_true_eq] at hr
    exact .expire now hr.1 hr.2
  | remove runId operationId =>
    simp only [OperationCall.apply]
    obtain ⟨e, h⟩ | ⟨record, hget, rfl, h⟩ := s.remove_cases runId operationId <;> rw [h]
    · exact .same _
    obtain rfl := s.keyed _ _ hget
    rw [get_eraseRecord]
    by_cases hid : id = record.operation.id
    · subst hid
      rw [if_pos rfl, hget]
      exact .removed rfl
    · rw [if_neg hid]
      exact .same _

/-- The result and the terminal runs after a call, for the calls that may fail. -/
theorem apply_cases (s : InMemoryOperationStore) (c : OperationCall) :
    (∃ e, c.apply s = (.error e, s)) ∨
    (∃ n, (c.apply s).1 = .ok n) ∧
      ((c.apply s).2.terminalRuns = s.terminalRuns ∨
        ∃ runId, c = .cancelRun runId ∧ (c.apply s).2.terminalRuns = insert runId s.terminalRuns) := by
  cases c with
  | register now operation =>
    simp only [OperationCall.apply]
    obtain ⟨e, h⟩ | ⟨-, -, -, h⟩ := s.register_cases now operation <;> rw [h]
    · exact .inl ⟨e, rfl⟩
    · exact .inr ⟨⟨none, rfl⟩, .inl rfl⟩
  | resolve runId operationId decision =>
    simp only [OperationCall.apply]
    obtain ⟨e, h⟩ | ⟨record, -, -, -, -, -, h⟩ := s.resolve_cases runId operationId decision <;> rw [h]
    · exact .inl ⟨e, rfl⟩
    · exact .inr ⟨⟨none, rfl⟩, .inl rfl⟩
  | beginCommit runId operationId =>
    simp only [OperationCall.apply]
    obtain ⟨e, h⟩ | ⟨record, -, -, -, -, -, h⟩ := s.beginCommit_cases runId operationId <;> rw [h]
    · exact .inl ⟨e, rfl⟩
    · exact .inr ⟨⟨none, rfl⟩, .inl rfl⟩
  | finishBlockingApproval runId operationId result =>
    simp only [OperationCall.apply]
    obtain ⟨e, h⟩ | ⟨record, -, -, -, -, h⟩ :=
      s.finishBlockingApproval_cases runId operationId result <;> rw [h]
    · exact .inl ⟨e, rfl⟩
    · exact .inr ⟨⟨none, rfl⟩, .inl rfl⟩
  | finishCommit runId operationId result =>
    simp only [OperationCall.apply]
    obtain ⟨e, h⟩ | ⟨record, -, -, -, h⟩ := s.finishCommit_cases runId operationId result <;> rw [h]
    · exact .inl ⟨e, rfl⟩
    · exact .inr ⟨⟨none, rfl⟩, .inl rfl⟩
  | cancelRun runId => exact .inr ⟨⟨_, rfl⟩, .inr ⟨runId, rfl, rfl⟩⟩
  | expire now => exact .inr ⟨⟨_, rfl⟩, .inl rfl⟩
  | remove runId operationId =>
    simp only [OperationCall.apply]
    obtain ⟨e, h⟩ | ⟨record, -, -, h⟩ := s.remove_cases runId operationId <;> rw [h]
    · exact .inl ⟨e, rfl⟩
    · exact .inr ⟨⟨none, rfl⟩, .inl rfl⟩

/-- A call that fails changes nothing. -/
theorem apply_error {c : OperationCall} {error : OperationError} (h : (c.apply s).1 = .error error) :
    (c.apply s).2 = s := by
  obtain ⟨e, he⟩ | ⟨⟨n, hn⟩, -⟩ := s.apply_cases c
  · rw [he]
  · rw [hn] at h
    cases h

theorem mem_terminalRuns_apply (s : InMemoryOperationStore) (c : OperationCall) (runId : RunId) :
    runId ∈ (c.apply s).2.terminalRuns ↔ runId ∈ s.terminalRuns ∨ c = .cancelRun runId := by
  by_cases hc : c = .cancelRun runId
  · subst hc
    simp [OperationCall.apply, cancelRun]
  obtain ⟨e, he⟩ | ⟨-, h | ⟨runId', rfl, h⟩⟩ := s.apply_cases c
  · simp [he, hc]
  · simp [h, hc]
  · have hne : runId ≠ runId' := fun h => hc (h ▸ rfl)
    simp [h, hne, hne.symm]

end InMemoryOperationStore

end Aifluxon
