import Aifluxon.Lib.Machine
import Aifluxon.Lib.Wakeups
import Aifluxon.Runtime.Operations

/-!
# Waits for an operation

`wait` and `wait_for_commit_or_reject` of `operations.rs` sleep on the `Notify` of a record. A call that changes the
record holds its notify when it has released the lock, and wakes the waiters after that.

* `OperationCall.notifies` : the records whose notify a call holds after its section;
* `WatchedStore` : the store with the notifies of its records, one for each registration;
* `WaitCall.turn` : a turn of the loop of a wait, up to its `notified.await`;
* `waitMachine` : any calls of the store, any wake-ups, and any number of waits, interleaved; a wait may be dropped;
* `Watched` : what holds of a wait that sleeps;
* `no_lost_wakeup` : who sleeps is woken, will be, or waits for a pending operation of its run, and a decided wait ends.
-/

namespace Aifluxon

open Machine (Free)

/-! ## The notifies of a call -/

namespace OperationCall

/-- The records whose notify a call calls when its section is over. -/
def notifies : OperationCall → InMemoryOperationStore → List OperationId
  | register _ _, _ | finishBlockingApproval _ _ _, _ | finishCommit _ _ _, _ => []
  | resolve runId id decision, s => match (s.resolve runId id decision).1 with
    | .ok _ => [id]
    | .error _ => []
  | beginCommit runId id, s => match (s.beginCommit runId id).1 with
    | .ok _ => [id]
    | .error _ => []
  | cancelRun runId, s =>
    (s.operations.values.filter (InMemoryOperationStore.cancellable runId)).map fun record => record.operation.id
  | expire now, s =>
    (s.operations.values.filter (InMemoryOperationStore.expirable now)).map fun record => record.operation.id
  | remove runId id, s => match (s.remove runId id).1 with
    | .ok _ => [id]
    | .error _ => []

/-- The operation that a call puts into the store. -/
def registers : OperationCall → InMemoryOperationStore → Option OperationId
  | register now operation, s => match (s.register now operation).1 with
    | .ok _ => some operation.id
    | .error _ => none
  | _, _ => none

end OperationCall

/-! ## Watched records -/

/-- The notify that the record of an operation got when it was registered for the n-th time. -/
abbrev NotifyRef := OperationId × Nat

/-- `registrations` : how often an operation has been registered. The record has the notify of the last time. -/
structure WatchedStore where
  store : InMemoryOperationStore
  registrations : OperationId → Nat
  notifies : Notifies NotifyRef

namespace WatchedStore

def empty : WatchedStore := ⟨.empty, fun _ => 0, .init⟩

/-- The notify of the record of an operation. -/
def notifyOf (s : WatchedStore) (id : OperationId) : NotifyRef := (id, s.registrations id)

/-- The section of a call; its notifies are cloned under the lock. -/
def call (s : WatchedStore) (c : OperationCall) : WatchedStore where
  store := (c.apply s.store).2
  registrations id := if c.registers s.store = some id then s.registrations id + 1 else s.registrations id
  notifies := s.notifies.owe ((c.notifies s.store).map s.notifyOf)

/-- A call wakes the waiters of a notify that it holds. -/
def wake (s : WatchedStore) (ref : NotifyRef) : WatchedStore := { s with notifies := s.notifies.notify ref }

end WatchedStore

/-! ## Waits -/

/-- The two loops. -/
inductive WaitKind where
  | wait
  | waitForCommitOrReject
  deriving DecidableEq

namespace WaitKind

/-- The mode that a loop is for. -/
def mode : WaitKind → OperationMode
  | wait => .blockingApproval
  | waitForCommitOrReject => .deferredCommit

end WaitKind

structure WaitCall where
  kind : WaitKind
  runId : RunId
  operationId : OperationId

/-- Where a wait stands: before the section of its loop, at `notified.await`, or at its end. -/
inductive WaitState where
  | looping
  | asleep (ticket : Ticket NotifyRef)
  | returned (result : Except OperationError OperationDecision)
  | dropped

namespace WaitCall

def poll (w : WaitCall) (s : InMemoryOperationStore) : Option (Except OperationError OperationDecision) :=
  match w.kind with
  | .wait => s.pollWait w.runId w.operationId
  | .waitForCommitOrReject => s.pollWaitForCommitOrReject w.runId w.operationId

/-- A turn of the loop: the future is created in the section that reads the record. -/
def turn (w : WaitCall) (s : WatchedStore) : WaitState :=
  match w.poll s.store with
  | some result => .returned result
  | none => .asleep (s.notifies.ticket (s.notifyOf w.operationId))

/-- The next step of a wait; `none` : it sleeps. -/
def step (w : WaitCall) (s : WatchedStore) : WaitState → Option WaitState
  | .looping => some (w.turn s)
  | .asleep ticket => if s.notifies.isReady ticket then some .looping else none
  | .returned _ | .dropped => none

end WaitCall

/-! ## The system -/

structure WaitSystem (ι : Type*) where
  watched : WatchedStore
  waits : ι → WaitState

namespace WaitSystem

variable {ι : Type*}

def init : WaitSystem ι := ⟨.empty, fun _ => .looping⟩

def set [DecidableEq ι] (s : WaitSystem ι) (i : ι) (w : WaitState) : WaitSystem ι :=
  { s with waits := Function.update s.waits i w }

end WaitSystem

/-- `drop` : the future of a wait is dropped. -/
inductive WaitAction (ι : Type*) where
  | call (c : OperationCall)
  | wake (ref : NotifyRef)
  | wait (i : ι)
  | drop (i : ι)

section
variable {ι : Type*} [DecidableEq ι] (calls : ι → WaitCall)

def waitMachine : Machine (WaitSystem ι) (WaitAction ι) Unit where
  step s
    | .call c => some ({ s with watched := s.watched.call c }, [])
    | .wake ref => if ref ∈ s.watched.notifies.owed then some ({ s with watched := s.watched.wake ref }, []) else none
    | .wait i => ((calls i).step s.watched (s.waits i)).map fun w => (s.set i w, [])
    | .drop i => some (s.set i .dropped, [])

end

/-! ## What a call does to a pending operation -/

namespace InMemoryOperationStore

variable {s : InMemoryOperationStore} {id : OperationId} {r : OperationRecord} {c : OperationCall}

theorem mem_filter_id (h : s.get id = some r) {p : OperationRecord → Bool} (hp : p r = true) :
    id ∈ (s.operations.values.filter p).map fun record => record.operation.id := by
  refine List.mem_map.2 ⟨r, List.mem_filter.2 ⟨?_, hp⟩, s.keyed id r h⟩
  exact HashMap.mem_values.2 ⟨id, h⟩

/-- A call that does not hold the notify of a pending operation leaves it as it is. -/
theorem pending_kept (h : s.get id = some r) (hstate : r.state = .pending) (hc : id ∉ c.notifies s) :
    (c.apply s).2.get id = some r := by
  cases c with
  | register now operation =>
    simp only [OperationCall.apply]
    obtain ⟨e, he⟩ | ⟨-, hnone, -, he⟩ := s.register_cases now operation
    · rw [he]
      exact h
    · rw [he, get_insertRecord, if_neg, h]
      rintro rfl
      rw [hnone] at h
      cases h
  | resolve runId operationId decision =>
    simp only [OperationCall.apply]
    simp only [OperationCall.notifies] at hc
    obtain ⟨e, he⟩ | ⟨record, -, -, -, -, -, he⟩ := s.resolve_cases runId operationId decision
    · rw [he]
      exact h
    · rw [he] at hc ⊢
      rw [get_modifyRecord, if_neg (List.mem_singleton.not.1 hc), h]
  | beginCommit runId operationId =>
    simp only [OperationCall.apply]
    simp only [OperationCall.notifies] at hc
    obtain ⟨e, he⟩ | ⟨record, -, -, -, -, -, he⟩ := s.beginCommit_cases runId operationId
    · rw [he]
      exact h
    · rw [he] at hc ⊢
      rw [get_modifyRecord, if_neg (List.mem_singleton.not.1 hc), h]
  | finishBlockingApproval runId operationId result =>
    simp only [OperationCall.apply]
    obtain ⟨e, he⟩ | ⟨record, hget, -, -, happroved, he⟩ := s.finishBlockingApproval_cases runId operationId result
    · rw [he]
      exact h
    · rw [he, get_modifyRecord, if_neg, h]
      rintro rfl
      obtain rfl := Option.some.inj (h.symm.trans hget)
      rw [hstate] at happroved
      cases happroved
  | finishCommit runId operationId result =>
    simp only [OperationCall.apply]
    obtain ⟨e, he⟩ | ⟨record, hget, -, hcommitting, he⟩ := s.finishCommit_cases runId operationId result
    · rw [he]
      exact h
    · rw [he, get_modifyRecord, if_neg, h]
      rintro rfl
      obtain rfl := Option.some.inj (h.symm.trans hget)
      rw [hstate] at hcommitting
      cases hcommitting
  | cancelRun runId =>
    have hkeep : ¬ cancellable runId r = true := fun hp => hc (mem_filter_id h hp)
    simp only [OperationCall.apply, cancelRun_get, h, Option.map_some, if_neg hkeep]
  | expire now =>
    have hkeep : ¬ expirable now r = true := fun hp => hc (mem_filter_id h hp)
    simp only [OperationCall.apply, expire_get, h, Option.map_some, if_neg hkeep]
  | remove runId operationId =>
    simp only [OperationCall.apply]
    simp only [OperationCall.notifies] at hc
    obtain ⟨e, he⟩ | ⟨record, -, -, he⟩ := s.remove_cases runId operationId
    · rw [he]
      exact h
    · rw [he] at hc ⊢
      rw [get_eraseRecord, if_neg (List.mem_singleton.not.1 hc), h]

/-- An operation that is there is not registered again. -/
theorem registers_ne (h : s.get id = some r) : c.registers s ≠ some id := by
  cases c with
  | register now operation =>
    simp only [OperationCall.registers]
    obtain ⟨e, he⟩ | ⟨-, hnone, -, he⟩ := s.register_cases now operation
    · rw [he]
      exact Option.some_ne_none id |>.symm
    · rw [he]
      rintro heq
      rw [Option.some.inj heq, h] at hnone
      cases hnone
  | _ => exact Option.some_ne_none id |>.symm

end InMemoryOperationStore

/-! ## What a wait waits for -/

namespace WaitCall

variable {w : WaitCall} {s : InMemoryOperationStore}

/-- A wait goes to sleep for a pending operation of its run, of the mode that it is for. -/
theorem poll_eq_none : w.poll s = none ↔ ∃ record, s.get w.operationId = some record ∧
    record.operation.runId = w.runId ∧ record.operation.mode = w.kind.mode ∧ record.state = .pending := by
  unfold poll
  cases hrecord : s.recordForRun w.runId w.operationId with
  | error e =>
    have hnone : ¬ ∃ record, s.get w.operationId = some record ∧ record.operation.runId = w.runId ∧
        record.operation.mode = w.kind.mode ∧ record.state = .pending := by
      rintro ⟨record, hget, hrun, -⟩
      rw [InMemoryOperationStore.recordForRun_ok.2 ⟨hget, hrun⟩] at hrecord
      cases hrecord
    rw [iff_false_right hnone]
    cases w.kind <;> simp [InMemoryOperationStore.pollWait, InMemoryOperationStore.pollWaitForCommitOrReject, hrecord]
  | ok record =>
    obtain ⟨hget, hrun⟩ := InMemoryOperationStore.recordForRun_ok.1 hrecord
    simp only [hget, Option.some.injEq, exists_eq_left', hrun, true_and]
    cases w.kind with
    | wait =>
      simp only [InMemoryOperationStore.pollWait, hrecord, WaitKind.mode]
      cases record.operation.mode <;> cases record.state <;> cases record.decision <;> simp
    | waitForCommitOrReject =>
      simp only [InMemoryOperationStore.pollWaitForCommitOrReject, hrecord, WaitKind.mode]
      cases record.operation.mode <;> cases record.state <;> cases record.decision <;> simp

/-- The notify of the record that a wait reads, while it would go to sleep. -/
def Idle (w : WaitCall) (s : WatchedStore) (key : NotifyRef) : Prop :=
  key = s.notifyOf w.operationId ∧ w.poll s.store = none

/-- **Who changes what is waited for holds its notify.** -/
theorem Idle.call {s : WatchedStore} {key : NotifyRef} (h : w.Idle s key) (c : OperationCall) :
    w.Idle (s.call c) key ∨ key ∈ (c.notifies s.store).map s.notifyOf := by
  obtain ⟨rfl, hpoll⟩ := h
  obtain ⟨record, hget, hrun, hmode, hstate⟩ := poll_eq_none.1 hpoll
  by_cases hc : w.operationId ∈ c.notifies s.store
  · exact .inr (List.mem_map_of_mem hc)
  · have hkept := InMemoryOperationStore.pending_kept hget hstate hc
    refine .inl ⟨?_, poll_eq_none.2 ⟨record, hkept, hrun, hmode, hstate⟩⟩
    simp [WatchedStore.notifyOf, WatchedStore.call, InMemoryOperationStore.registers_ne hget]

end WaitCall

/-! ## Runs -/

section
variable {ι : Type*} [DecidableEq ι] {calls : ι → WaitCall} {s t : WaitSystem ι} {as : List (WaitAction ι)}
  {tr o : List Unit} {a : WaitAction ι}

/-- Every wait that sleeps is waiting for an idle notify, or will be woken. -/
def Watched (calls : ι → WaitCall) (s : WaitSystem ι) : Prop :=
  ∀ i ticket, s.waits i = .asleep ticket → s.watched.notifies.Awaits ((calls i).Idle s.watched) ticket

theorem Watched.set (h : Watched calls s) {i : ι} {w : WaitState}
    (hw : ∀ ticket, w = .asleep ticket → s.watched.notifies.Awaits ((calls i).Idle s.watched) ticket) :
    Watched calls (s.set i w) := by
  intro j ticket hj
  simp only [WaitSystem.set, Function.update_apply] at hj
  split at hj
  · rename_i heq
    subst heq
    exact hw ticket hj
  · exact h j ticket hj

theorem Watched.step (h : Watched calls s) (hstep : (waitMachine calls).step s a = some (t, o)) :
    Watched calls t := by
  cases a with
  | call c =>
    obtain ⟨rfl, -⟩ := Prod.mk.inj (Option.some.inj hstep)
    exact fun i ticket hi => (h i ticket hi).owe fun hidle => hidle.call c
  | wake ref =>
    simp only [waitMachine] at hstep
    split at hstep
    · obtain ⟨rfl, -⟩ := Prod.mk.inj (Option.some.inj hstep)
      exact fun i ticket hi => (h i ticket hi).notify ref
    · cases hstep
  | wait i =>
    obtain ⟨w, hw, hnext⟩ := Option.map_eq_some_iff.1 hstep
    obtain ⟨rfl, -⟩ := Prod.mk.inj hnext
    apply h.set
    rintro ticket rfl
    -- only a turn of the loop ends asleep, and it has read the record with the notify
    cases hi : s.waits i with
    | looping =>
      rw [hi, WaitCall.step, Option.some.injEq] at hw
      unfold WaitCall.turn at hw
      split at hw
      · cases hw
      · rename_i hpoll
        obtain rfl := WaitState.asleep.inj hw
        exact (Notifies.issued_ticket _).awaits ⟨rfl, hpoll⟩
    | asleep ticket' =>
      rw [hi, WaitCall.step] at hw
      split at hw <;> cases hw
    | returned | dropped =>
      rw [hi] at hw
      cases hw
  | drop i =>
    obtain ⟨rfl, -⟩ := Prod.mk.inj (Option.some.inj hstep)
    apply h.set
    intro ticket hw
    cases hw

theorem watched_of_run (hrun : (waitMachine calls).Run Free .init as tr s) : Watched calls s := by
  refine hrun.invariant ?_ fun h _ => h.step
  intro i ticket hi
  cases hi

/-- A wait whose future is ready returns what it finds. -/
theorem returned_of_ready {i : ι} {ticket : Ticket NotifyRef} {result : Except OperationError OperationDecision}
    (hasleep : s.waits i = .asleep ticket) (hready : s.watched.notifies.isReady ticket = true)
    (hpoll : (calls i).poll s.watched.store = some result) :
    ∃ t, (waitMachine calls).Run Free s [.wait i, .wait i] [] t ∧ t.waits i = .returned result := by
  have hloop : (waitMachine calls).step s (.wait i) = some (s.set i .looping, []) := by
    simp [waitMachine, WaitCall.step, hasleep, hready]
  have hreturn : (waitMachine calls).step (s.set i .looping) (.wait i) =
      some ((s.set i .looping).set i (.returned result), []) := by
    simp [waitMachine, WaitCall.step, WaitCall.turn, WaitSystem.set, hpoll]
  exact ⟨_, .snoc (.snoc .nil trivial hloop) trivial hreturn, Function.update_self ..⟩

/-- **No wake-up is lost**: who sleeps while its operation is decided has been woken or is about to be; when every
wake-up is made, it returns the decision in its next two steps, and who sleeps on waits for a pending operation. -/
theorem no_lost_wakeup (hrun : (waitMachine calls).Run Free .init as tr s) {i : ι} {ticket : Ticket NotifyRef}
    (hasleep : s.waits i = .asleep ticket) :
    ((calls i).poll s.watched.store ≠ none →
      s.watched.notifies.isReady ticket = true ∨ ticket.key ∈ s.watched.notifies.owed) ∧
    (s.watched.notifies.owed = [] →
      (∀ result, (calls i).poll s.watched.store = some result →
        ∃ t, (waitMachine calls).Run Free s [.wait i, .wait i] [] t ∧ t.waits i = .returned result) ∧
      (s.watched.notifies.isReady ticket = false → ∃ record, s.watched.store.get (calls i).operationId = some record ∧
        record.operation.runId = (calls i).runId ∧ record.operation.mode = (calls i).kind.mode ∧
        record.state = .pending)) := by
  have hawaits := watched_of_run hrun i ticket hasleep
  refine ⟨fun hpoll => ?_, fun howed => ⟨fun result hpoll => ?_, fun hready => ?_⟩⟩
  · cases hready : s.watched.notifies.isReady ticket with
    | true => exact .inl rfl
    | false => exact .inr ((hawaits.2 hready).resolve_left fun hidle => hpoll hidle.2)
  · cases hready : s.watched.notifies.isReady ticket with
    | true => exact returned_of_ready hasleep hready hpoll
    | false =>
      have hidle := hawaits.settled howed hready
      rw [hidle.2] at hpoll
      cases hpoll
  · exact WaitCall.poll_eq_none.1 (hawaits.settled howed hready).2

end

/-! An approval that comes while a wait sleeps. -/

def awaitedApproval : PendingOperation :=
  ⟨⟨7⟩, ⟨1⟩, none, .externalSideEffect, .blockingApproval, "Send it.", .null, none⟩

/-- The wait sleeps, the approval has left its section, and its wake-up is owed. -/
def approvedInSleep : List (WaitAction Unit) :=
  [.call (.register 0 awaitedApproval), .wait (), .call (.resolve ⟨1⟩ ⟨7⟩ (.approve none))]

theorem no_lost_wakeup_approved : ∃ (s : WaitSystem Unit) (ticket : Ticket NotifyRef),
    s.waits () = .asleep ticket ∧
      (s.watched.notifies.isReady ticket = true ∨ ticket.key ∈ s.watched.notifies.owed) :=
  have hrun := Machine.exec_free (M := waitMachine fun _ : Unit => ⟨.wait, ⟨1⟩, ⟨7⟩⟩) (s := .init)
    (l := approvedInSleep) rfl
  ⟨_, _, rfl, (no_lost_wakeup hrun (i := ()) rfl).1 (Option.some_ne_none _)⟩

end Aifluxon
