import Aifluxon.Core.Run
import Aifluxon.Lib.HashMap
import Mathlib.Data.List.Sort

/-!
# Sessions, provider states and checkpoints

The records and stores of `state.rs`. A store is its map; the environment gives the fault of a call.

* `Fault` : a call works, or it reports an error before or after its effect (`save` of the JSON
  session store writes the record first and its index second);
* `SessionStore.save` : the save of a session compares the revisions and raises the revision;
* `SessionStore.list` : the summaries of the sessions, the last updated first;
* `Stores` : the three stores of a backend.
-/

namespace Aifluxon

/-- `u64` milliseconds from the epoch. -/
abbrev TimestampMillis := Nat

structure SessionRecord where
  id : SessionId
  revision : Nat
  createdAt : TimestampMillis
  updatedAt : TimestampMillis
  messages : List Message
  metadata : List (String × Value)
  deriving DecidableEq

def SessionRecord.new (id : SessionId) (now : TimestampMillis) : SessionRecord := ⟨id, 0, now, now, [], []⟩

structure SessionSummary where
  id : SessionId
  revision : Nat
  createdAt : TimestampMillis
  updatedAt : TimestampMillis
  messageCount : Nat
  deriving DecidableEq

def SessionRecord.summary (record : SessionRecord) : SessionSummary :=
  ⟨record.id, record.revision, record.createdAt, record.updatedAt, record.messages.length⟩

namespace SessionSummary

/-- The order of a listing: by `Reverse(updated_at)`, then by the printed identifier, which is the
order of the numbers. -/
def Before (a b : SessionSummary) : Prop :=
  b.updatedAt < a.updatedAt ∨ a.updatedAt = b.updatedAt ∧ a.id.uuid ≤ b.id.uuid

instance : DecidableRel Before := fun a b =>
  inferInstanceAs (Decidable (_ ∨ _ ∧ a.id.uuid ≤ b.id.uuid))

instance : Std.Total Before where
  total a b := by
    simp only [Before, BitVec.le_def]
    grind

instance : IsTrans SessionSummary Before where
  trans a b c := by
    simp only [Before, BitVec.le_def]
    grind

theorem Before.id_eq {a b : SessionSummary} (hab : a.Before b) (hba : b.Before a) : a.id = b.id := by
  obtain ⟨⟨u⟩, ra, ca, ta, ma⟩ := a
  obtain ⟨⟨v⟩, rb, cb, tb, mb⟩ := b
  simp only [Before, BitVec.le_def] at hab hba
  have huv : u = v := BitVec.eq_of_toNat_eq (by grind)
  rw [huv]

end SessionSummary

def sortSummaries (summaries : List SessionSummary) : List SessionSummary :=
  summaries.insertionSort SessionSummary.Before

/-- Two listings of the same sessions, each once, are in the same order. -/
theorem sortSummaries_perm {l l' : List SessionSummary} (h : l.Perm l')
    (hid : ∀ a ∈ l, ∀ b ∈ l, a.id = b.id → a = b) : sortSummaries l = sortSummaries l' := by
  have hperm : (sortSummaries l).Perm (sortSummaries l') :=
    (List.perm_insertionSort _ l).trans (h.trans (List.perm_insertionSort _ l').symm)
  refine hperm.eq_of_pairwise (fun a b ha hb hab hba => ?_) (List.pairwise_insertionSort _ _)
    (List.pairwise_insertionSort _ _)
  have ha' : a ∈ l := (List.mem_insertionSort _).1 ha
  have hb' : b ∈ l := h.mem_iff.2 ((List.mem_insertionSort _).1 hb)
  exact hid a ha' b hb' (hab.id_eq hba)

structure ProviderStateRecord where
  sessionId : SessionId
  providerId : ProviderId
  state : Value
  deriving DecidableEq

structure RunCheckpoint where
  runId : RunId
  sessionId : Option SessionId
  state : RunState
  messages : List Message
  providerState : Option Value
  updatedAt : TimestampMillis
  deriving DecidableEq

inductive StoreError where
  | unavailable (message : String)
  | conflict
  | corruptQuarantined (message : String)
  | invalidId
  deriving DecidableEq

def StoreError.message : StoreError → String
  | .unavailable message => "The state store is unavailable: " ++ message
  | .conflict => "The session revision is stale."
  | .corruptQuarantined message => "The stored record was corrupt and quarantined: " ++ message
  | .invalidId => "The state identifier is invalid."

/-! ## Faults -/

/-- What becomes of a call that writes. -/
inductive Fault where
  | none
  | before (error : StoreError)
  | after (error : StoreError)
  deriving DecidableEq

/-- A write under a fault: the error before it, or the write and then the error. -/
def Fault.write {α σ : Type} (fault : Fault) (s : σ) (write : Except StoreError α × σ) :
    Except StoreError α × σ :=
  match fault with
  | .none => write
  | .before error => (.error error, s)
  | .after error => match write with
    | (.error e, s') => (.error e, s')
    | (.ok _, s') => (.error error, s')

/-- A load under a fault. -/
def loaded {α : Type} (fault : Option StoreError) (value : Option α) : Except StoreError (Option α) :=
  match fault with
  | some error => .error error
  | none => .ok value

/-! ## The stores -/

/-- Every record stands under its identifier. -/
structure SessionStore where
  records : HashMap SessionId SessionRecord
  keyed : ∀ id r, records.lookup id = some r → r.id = id

structure ProviderStateStore where
  records : HashMap (SessionId × ProviderId) ProviderStateRecord

structure RunCheckpointStore where
  records : HashMap RunId RunCheckpoint

structure Stores where
  sessions : SessionStore
  providerStates : ProviderStateStore
  checkpoints : RunCheckpointStore

namespace SessionStore

def empty : SessionStore where
  records := ∅
  keyed := by simp

def get (s : SessionStore) (id : SessionId) : Option SessionRecord := s.records.lookup id

def load (s : SessionStore) (fault : Option StoreError) (id : SessionId) :
    Except StoreError (Option SessionRecord) :=
  loaded fault (s.get id)

/-- The revision of a record is that of the stored one, and `0` when there is none. -/
def current (s : SessionStore) (record : SessionRecord) : Bool :=
  match s.get record.id with
  | some existing => existing.revision = record.revision
  | none => record.revision = 0

/-- The record that a save writes. -/
def advance (record : SessionRecord) (now : TimestampMillis) : SessionRecord :=
  { record with revision := saturatingAdd record.revision 1, updatedAt := now }

@[simp] theorem advance_id (record : SessionRecord) (now : TimestampMillis) :
    (advance record now).id = record.id := rfl

def put (s : SessionStore) (record : SessionRecord) : SessionStore where
  records := s.records.insert record.id record
  keyed := by
    intro id r h
    rw [HashMap.lookup_insert_ite] at h
    split at h
    · cases h; exact Eq.symm ‹_›
    · exact s.keyed id r h

def save (s : SessionStore) (fault : Fault) (now : TimestampMillis) (record : SessionRecord) :
    Except StoreError SessionRecord × SessionStore :=
  fault.write s <|
    if s.current record then
      (.ok (advance record now), s.put (advance record now))
    else (.error .conflict, s)

def delete (s : SessionStore) (id : SessionId) : SessionStore where
  records := s.records.erase id
  keyed := by
    intro k r h
    rw [HashMap.lookup_erase_ite] at h
    split at h
    · cases h
    · exact s.keyed k r h

def list (s : SessionStore) : List SessionSummary :=
  sortSummaries (s.records.values.map SessionRecord.summary)

@[simp] theorem get_delete (s : SessionStore) (id k : SessionId) :
    (s.delete id).get k = if k = id then none else s.get k :=
  HashMap.lookup_erase_ite _ _ _

@[simp] theorem get_put (s : SessionStore) (record : SessionRecord) (id : SessionId) :
    (s.put record).get id = if id = record.id then some record else s.get id :=
  HashMap.lookup_insert_ite _ _ _ _

/-- What a save leaves behind, and what it reports. -/
inductive Saved (s : SessionStore) (now : TimestampMillis) (record : SessionRecord) :
    Fault → Except StoreError SessionRecord × SessionStore → Prop where
  | written (hcurrent : s.current record = true) :
      Saved s now record .none (.ok (advance record now), s.put (advance record now))
  | kept {fault : Fault} (error : StoreError) : Saved s now record fault (.error error, s)
  | lost (error : StoreError) (hcurrent : s.current record = true) :
      Saved s now record (.after error) (.error error, s.put (advance record now))

theorem save_cases (s : SessionStore) (fault : Fault) (now : TimestampMillis) (record : SessionRecord) :
    Saved s now record fault (s.save fault now record) := by
  unfold save
  cases fault with
  | before error => exact .kept error
  | none =>
    by_cases h : s.current record = true
    · rw [if_pos h]
      exact .written h
    · rw [if_neg h]
      exact .kept .conflict
  | after error =>
    by_cases h : s.current record = true
    · rw [if_pos h]
      exact .lost error h
    · rw [if_neg h]
      exact .kept .conflict

end SessionStore

namespace ProviderStateStore

def empty : ProviderStateStore := ⟨∅⟩

def get (s : ProviderStateStore) (sessionId : SessionId) (providerId : ProviderId) :
    Option ProviderStateRecord :=
  s.records.lookup (sessionId, providerId)

def load (s : ProviderStateStore) (fault : Option StoreError) (sessionId : SessionId)
    (providerId : ProviderId) : Except StoreError (Option ProviderStateRecord) :=
  loaded fault (s.get sessionId providerId)

def save (s : ProviderStateStore) (fault : Fault) (record : ProviderStateRecord) :
    Except StoreError Unit × ProviderStateStore :=
  fault.write s (.ok (), ⟨s.records.insert (record.sessionId, record.providerId) record⟩)

def delete (s : ProviderStateStore) (sessionId : SessionId) (providerId : ProviderId) : ProviderStateStore :=
  ⟨s.records.erase (sessionId, providerId)⟩

end ProviderStateStore

namespace RunCheckpointStore

def get (s : RunCheckpointStore) (runId : RunId) : Option RunCheckpoint := s.records.lookup runId

def save (s : RunCheckpointStore) (fault : Fault) (checkpoint : RunCheckpoint) :
    Except StoreError Unit × RunCheckpointStore :=
  fault.write s (.ok (), ⟨s.records.insert checkpoint.runId checkpoint⟩)

end RunCheckpointStore

section Unit
variable {σ : Type} {s s' : σ}

/-- A plain write succeeds without a fault, and without one only. -/
theorem Fault.write_ok (fault : Fault) :
    (fault.write s (.ok (), s')).1 = .ok () ↔ fault = .none := by
  cases fault <;> simp [Fault.write]

/-- A plain write is left out by a fault before it, and by no other. -/
theorem Fault.write_snd (fault : Fault) :
    (fault.write s ((.ok () : Except StoreError Unit), s')).2 =
      match fault with
      | .before _ => s
      | .none | .after _ => s' := by
  cases fault <;> rfl

end Unit

/-- A checkpoint is written, unless its save fails before the write. -/
theorem RunCheckpointStore.get_save (s : RunCheckpointStore) {fault : Fault} (hfault : ∀ e, fault ≠ .before e)
    (checkpoint : RunCheckpoint) : (s.save fault checkpoint).2.get checkpoint.runId = some checkpoint := by
  rw [save, Fault.write_snd]
  cases fault with
  | before e => exact absurd rfl (hfault e)
  | none | after => exact (HashMap.lookup_insert_ite _ _ _ _).trans (if_pos rfl)

/-- A save of a current record that meets no fault works. -/
theorem SessionStore.save_current (s : SessionStore) (now : TimestampMillis) {record : SessionRecord}
    (h : s.current record = true) :
    s.save .none now record = (.ok (advance record now), s.put (advance record now)) := by
  rw [save, if_pos h]
  rfl

end Aifluxon
