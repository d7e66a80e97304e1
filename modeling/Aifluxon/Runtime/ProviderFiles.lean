import Aifluxon.Lib.Machine
import Aifluxon.Runtime.JsonStore
import Mathlib.Data.Set.Function

/-!
# Provider states in files

`JsonFileProviderStateStore` of `json_store.rs` against the store in memory. A state stands in a file
that is named by the session and by the provider, whose characters other than ASCII letters, digits,
`.`, `-` and `_` are replaced.

* `ProviderStateStore.machine`, `JsonFileProviderStateStore.machine` : the calls of the two stores;
* `Mirrors` : the files of some pairs hold what memory holds; every call keeps it (`Mirrors.step`);
* `provider_files_iff` : the stores answer alike over a set of pairs exactly when no two of them share a
  file.
-/

namespace Aifluxon

/-- The characters that stay in a file name. -/
def keptInStem (ch : Char) : Bool := ch.isAlphanum || ch == '.' || ch == '-' || ch == '_'

def sanitizeProviderStem (providerId : ProviderId) : String :=
  let stem := String.ofList (providerId.id.toList.map fun ch => if keptInStem ch then ch else '_')
  if stem = "" then "provider" else stem

/-- The file of a session and a provider. -/
def stateName (key : SessionId × ProviderId) : String :=
  hyphenated key.1.uuid ++ "--" ++ sanitizeProviderStem key.2 ++ ".json"

theorem stateName_eq_iff {key other : SessionId × ProviderId} : stateName key = stateName other ↔
    key.1 = other.1 ∧ sanitizeProviderStem key.2 = sanitizeProviderStem other.2 := by
  constructor
  · intro h
    have hlist : (hyphenated key.1.uuid).toList ++
        ("--".toList ++ ((sanitizeProviderStem key.2).toList ++ ".json".toList)) =
        (hyphenated other.1.uuid).toList ++
          ("--".toList ++ ((sanitizeProviderStem other.2).toList ++ ".json".toList)) := by
      simpa [stateName] using congrArg String.toList h
    obtain ⟨huuid, hrest⟩ := List.append_inj hlist (by simp)
    have hstem := List.append_cancel_right (List.append_cancel_left hrest)
    exact ⟨congrArg SessionId.mk (hyphenated_injective (String.toList_injective huuid)),
      String.toList_injective hstem⟩
  · rintro ⟨hsession, hstem⟩
    rw [stateName, stateName, hsession, hstem]

/-- A provider whose name can stand in a file name as it is. -/
def ProviderId.Plain (providerId : ProviderId) : Prop :=
  providerId.id ≠ "" ∧ ∀ ch ∈ providerId.id.toList, keptInStem ch = true

theorem ProviderId.Plain.sanitize {providerId : ProviderId} (h : providerId.Plain) :
    sanitizeProviderStem providerId = providerId.id := by
  have hmap : providerId.id.toList.map (fun ch => if keptInStem ch then ch else '_') = providerId.id.toList :=
    (List.map_congr_left fun ch hch => if_pos (h.2 ch hch)).trans (List.map_id _)
  simp only [sanitizeProviderStem, hmap, String.ofList_toList]
  exact if_neg h.1

theorem stateName_injOn_plain : Set.InjOn stateName {key | key.2.Plain} := by
  rintro ⟨session, ⟨p⟩⟩ hkey ⟨session', ⟨q⟩⟩ hother h
  obtain ⟨rfl, hstem⟩ := stateName_eq_iff.1 h
  rw [ProviderId.Plain.sanitize hkey, ProviderId.Plain.sanitize hother] at hstem
  exact congrArg (session, ProviderId.mk ·) hstem

def ProviderStateRecord.key (record : ProviderStateRecord) : SessionId × ProviderId :=
  (record.sessionId, record.providerId)

/-! ## The store -/

/-- `new` refuses an empty root. -/
structure JsonFileProviderStateStore where
  root : String
  nonempty : root ≠ ""

namespace JsonFileProviderStateStore

def new (root : String) : Except StoreError JsonFileProviderStateStore :=
  if h : root = "" then
    .error (.unavailable "JSON provider-state store requires an explicit data directory.")
  else .ok ⟨root, h⟩

def stateDir (store : JsonFileProviderStateStore) : String := joinPath store.root "provider-state"

variable (codec : FileCodec ProviderStateRecord) (store : JsonFileProviderStateStore) (disk : Disk)

/-- The record in the file of a pair. -/
def readState (key : SessionId × ProviderId) (text : codec.Text) : Option ProviderStateRecord :=
  match codec.fromSlice text with
  | none => none
  | some record => if record.sessionId ≠ key.1 ∨ record.providerId ≠ key.2 then none else some record

def loadSync (key : SessionId × ProviderId) (files : HashMap String codec.Text) :
    Except StoreError (Option ProviderStateRecord) × HashMap String codec.Text :=
  match disk.read with
  | some error => (.error (.unavailable error), files)
  | none => match files.lookup (stateName key) with
    | none => (.ok none, files)
    | some text => match readState codec key text with
      | some record => (.ok (some record), files)
      | none => match quarantineCorrupt disk store.stateDir (stateName key) files with
        | (error, files') => (.error error, files')

def load (key : SessionId × ProviderId) (files : HashMap String codec.Text) :
    Except StoreError (Option ProviderStateRecord) × HashMap String codec.Text :=
  match disk.lock with
  | some error => (.error (.unavailable error), files)
  | none => loadSync codec store disk key files

def save (record : ProviderStateRecord) (files : HashMap String codec.Text) :
    Except StoreError Unit × HashMap String codec.Text :=
  match disk.lock with
  | some error => (.error (.unavailable error), files)
  | none => disk.write.write files (files.insert (stateName record.key) (codec.toVec record))

def delete (key : SessionId × ProviderId) (files : HashMap String codec.Text) :
    Except StoreError Unit × HashMap String codec.Text :=
  match disk.lock with
  | some error => (.error (.unavailable error), files)
  | none => match disk.remove with
    | some error => (.error (.unavailable error), files)
    | none => (.ok (), files.erase (stateName key))

end JsonFileProviderStateStore

/-! ## Calls -/

inductive ProviderCall where
  | load (key : SessionId × ProviderId)
  | save (record : ProviderStateRecord)
  | delete (key : SessionId × ProviderId)

inductive ProviderAnswer where
  | loaded (result : Except StoreError (Option ProviderStateRecord))
  | done (result : Except StoreError Unit)

def ProviderCall.key : ProviderCall → SessionId × ProviderId
  | .load key | .delete key => key
  | .save record => record.key

/-- The calls on the store in memory; each comes with the clock. -/
def ProviderStateStore.machine : Machine ProviderStateStore (ProviderCall × TimestampMillis) ProviderAnswer where
  step s a := match a.1 with
    | .load key => some (s, [.loaded (s.load none key.1 key.2)])
    | .save record => match s.save .none record with
      | (result, s') => some (s', [.done result])
    | .delete key => some (s.delete key.1 key.2, [.done (.ok ())])

/-- The calls on the store in files, without an I/O failure. -/
def JsonFileProviderStateStore.machine (codec : FileCodec ProviderStateRecord)
    (store : JsonFileProviderStateStore) :
    Machine (HashMap String codec.Text) (ProviderCall × TimestampMillis) ProviderAnswer where
  step files a := match a.1 with
    | .load key => match load codec store (.clean a.2) key files with
      | (result, files') => some (files', [.loaded result])
    | .save record => match save codec (.clean a.2) record files with
      | (result, files') => some (files', [.done result])
    | .delete key => match delete codec (.clean a.2) key files with
      | (result, files') => some (files', [.done result])

section Agreement
variable (codec : FileCodec ProviderStateRecord) (S : Set (SessionId × ProviderId))

/-- A call about one of the pairs; a record that it saves is read back. -/
def ProviderCall.Within (call : ProviderCall) : Prop :=
  call.key ∈ S ∧ ∀ record, call = .save record → codec.ReadsBack record

/-- The file of every pair holds what memory holds for it. -/
structure Mirrors (s : ProviderStateStore) (files : HashMap String codec.Text) : Prop where
  file : ∀ key ∈ S, files.lookup (stateName key) = (s.records.lookup key).map codec.toVec
  key : ∀ key record, s.records.lookup key = some record → record.key = key
  readsBack : ∀ key record, s.records.lookup key = some record → codec.ReadsBack record

variable {codec S} {s s' : ProviderStateStore} {files : HashMap String codec.Text}

theorem JsonFileProviderStateStore.readState_toVec {record : ProviderStateRecord}
    (h : codec.ReadsBack record) : readState codec record.key (codec.toVec record) = some record := by
  rw [FileCodec.ReadsBack] at h
  simp [readState, h, ProviderStateRecord.key]

theorem Mirrors.load (h : Mirrors codec S s files) (store : JsonFileProviderStateStore)
    (now : TimestampMillis) {key : SessionId × ProviderId} (hkey : key ∈ S) :
    store.load codec (.clean now) key files = (s.load none key.1 key.2, files) := by
  have hfile := h.file key hkey
  cases hget : s.records.lookup key with
  | none =>
    rw [hget] at hfile
    simp [JsonFileProviderStateStore.load, JsonFileProviderStateStore.loadSync, hfile, ProviderStateStore.load,
      loaded, ProviderStateStore.get, hget]
  | some record =>
    have hread := JsonFileProviderStateStore.readState_toVec (h.readsBack key record hget)
    rw [h.key key record hget] at hread
    rw [hget] at hfile
    simp [JsonFileProviderStateStore.load, JsonFileProviderStateStore.loadSync, hfile, hread,
      ProviderStateStore.load, loaded, ProviderStateStore.get, hget]

/-- **Every call keeps the files in step**, as long as the pairs have files of their own. -/
theorem Mirrors.step (h : Mirrors codec S s files) (hS : Set.InjOn stateName S)
    (store : JsonFileProviderStateStore) {a : ProviderCall × TimestampMillis} {o : List ProviderAnswer}
    (ha : a.1.Within codec S) (hs : ProviderStateStore.machine.step s a = some (s', o)) :
    ∃ files', (store.machine codec).step files a = some (files', o) ∧ Mirrors codec S s' files' := by
  obtain ⟨call, now⟩ := a
  obtain ⟨hkey, hback⟩ := ha
  cases call with
  | load key =>
    replace hkey : key ∈ S := hkey
    simp only [ProviderStateStore.machine, Option.some.injEq, Prod.mk.injEq] at hs
    obtain ⟨rfl, rfl⟩ := hs
    exact ⟨files, by simp only [JsonFileProviderStateStore.machine, h.load store now hkey], h⟩
  | save record =>
    simp only [ProviderStateStore.machine, ProviderStateStore.save, Fault.write, Option.some.injEq,
      Prod.mk.injEq] at hs
    obtain ⟨rfl, rfl⟩ := hs
    refine ⟨_, rfl, fun key hin => ?_, fun key r hr => ?_, fun key r hr => ?_⟩
    · have hname : stateName key = stateName record.key ↔ key = record.key := hS.eq_iff hin hkey
      simp only [HashMap.lookup_insert_ite, hname]
      split
      · rw [if_pos ‹_›]
        rfl
      · rw [if_neg ‹_›]
        exact h.file key hin
    · rw [HashMap.lookup_insert_ite] at hr
      split at hr
      · cases hr
        exact Eq.symm ‹_›
      · exact h.key key r hr
    · rw [HashMap.lookup_insert_ite] at hr
      split at hr
      · cases hr
        exact hback _ rfl
      · exact h.readsBack key r hr
  | delete key =>
    simp only [ProviderStateStore.machine, Option.some.injEq, Prod.mk.injEq] at hs
    obtain ⟨rfl, rfl⟩ := hs
    refine ⟨_, rfl, fun k hin => ?_, fun k r hr => ?_, fun k r hr => ?_⟩
    · have hname : stateName k = stateName key ↔ k = key := hS.eq_iff hin hkey
      simp only [ProviderStateStore.delete, HashMap.lookup_erase_ite, hname]
      split
      · rfl
      · exact h.file k hin
    · simp only [ProviderStateStore.delete, HashMap.lookup_erase_ite] at hr
      split at hr
      · cases hr
      · exact h.key k r hr
    · simp only [ProviderStateStore.delete, HashMap.lookup_erase_ite] at hr
      split at hr
      · cases hr
      · exact h.readsBack k r hr

theorem Mirrors.empty : Mirrors codec S .empty ∅ where
  file _ _ := rfl
  key _ _ h := by cases h
  readsBack _ _ h := by cases h

namespace JsonFileProviderStateStore
variable (store : JsonFileProviderStateStore)

/-- **What memory answers, the files answer**, and they hold the same states. -/
theorem run_of_memory (hS : Set.InjOn stateName S) {as : List (ProviderCall × TimestampMillis)}
    {tr : List ProviderAnswer}
    (h : ProviderStateStore.machine.Run (fun _ a => a.1.Within codec S) .empty as tr s) :
    ∃ files, (store.machine codec).Run Machine.Free ∅ as tr files ∧ Mirrors codec S s files := by
  obtain ⟨tr', files, hrun, hmirrors, htr⟩ := h.simulate (N := store.machine codec)
    (R := Mirrors codec S) (Q := Eq) .empty fun hm ha hs => by
      obtain ⟨files', hs', hm'⟩ := hm.step hS store ha hs
      exact ⟨files', _, hs', hm', List.forall₂_refl _⟩
  rw [List.forall₂_eq_eq_eq] at htr
  exact ⟨files, htr ▸ hrun, hmirrors⟩

variable (codec S) in
/-- Both stores, starting empty, give the same answers to the same calls about the pairs. -/
def Agrees : Prop :=
  ∀ as tr s, ProviderStateStore.machine.Run (fun _ a => a.1.Within codec S) .empty as tr s →
    ∃ files, (store.machine codec).Run Machine.Free ∅ as tr files

theorem readState_other {record : ProviderStateRecord} {key : SessionId × ProviderId} (hne : key ≠ record.key)
    (hread : codec.ReadsBack record) : readState codec key (codec.toVec record) = none := by
  rw [FileCodec.ReadsBack] at hread
  have hkey : record.sessionId ≠ key.1 ∨ record.providerId ≠ key.2 := by
    by_contra hsame
    rw [not_or, not_not, not_not] at hsame
    exact hne (Prod.ext hsame.1.symm hsame.2.symm)
  rw [readState, hread]
  exact if_pos hkey

theorem load_corrupt {key : SessionId × ProviderId} {text : codec.Text} (now : TimestampMillis)
    (hfile : files.lookup (stateName key) = some text) (hcorrupt : readState codec key text = none) :
    ∃ error files', store.load codec (.clean now) key files = (.error error, files') := by
  cases hq : quarantineCorrupt (.clean now) store.stateDir (stateName key) files with
  | mk error files' =>
    exact ⟨error, files', by simp only [load, loadSync, Disk.clean_lock, Disk.clean_read, hfile, hcorrupt, hq]⟩

theorem not_agrees (record : ProviderStateRecord) {key : SessionId × ProviderId} (hrecord : record.key ∈ S)
    (hkey : key ∈ S) (hne : key ≠ record.key) (hname : stateName key = stateName record.key)
    (hread : codec.ReadsBack record) : ¬ store.Agrees codec S := by
  intro h
  have hsave : ProviderCall.Within codec S (.save record) := ⟨hrecord, fun r hr => by cases hr; exact hread⟩
  have hload : ProviderCall.Within codec S (.load key) := ⟨hkey, nofun⟩
  have hmissing : (ProviderStateStore.empty.save .none record).2.load none key.1 key.2 = .ok none := by
    simp only [ProviderStateStore.load, loaded, ProviderStateStore.get, ProviderStateStore.save, Fault.write,
      HashMap.lookup_insert_ite]
    rw [if_neg (show (key.1, key.2) ≠ (record.sessionId, record.providerId) from hne)]
    rfl
  have hstep : ProviderStateStore.machine.step (ProviderStateStore.empty.save .none record).2 (.load key, 0) =
      some ((ProviderStateStore.empty.save .none record).2, [.loaded (.ok none)]) := by
    simp only [ProviderStateStore.machine, hmissing]
  have hsaved : ProviderStateStore.machine.Run (fun _ a => a.1.Within codec S) .empty
      ([] ++ [(.save record, 0)]) ([] ++ [.done (.ok ())]) (ProviderStateStore.empty.save .none record).2 :=
    .snoc .nil hsave rfl
  have hmemory := hsaved.snoc (a := (.load key, 0)) hload hstep
  have hfile : ((∅ : HashMap String codec.Text).insert (stateName record.key) (codec.toVec record)).lookup
      (stateName key) = some (codec.toVec record) := by
    rw [HashMap.lookup_insert_ite, if_pos hname]
  obtain ⟨error, files', hquarantine⟩ := store.load_corrupt 0 hfile (readState_other hne hread)
  have hstep' : (store.machine codec).step
      ((∅ : HashMap String codec.Text).insert (stateName record.key) (codec.toVec record)) (.load key, 0) =
        some (files', [.loaded (.error error)]) := by
    simp only [machine, hquarantine]
  have hfirst : (store.machine codec).Run Machine.Free ∅ ([] ++ [(.save record, 0)]) ([] ++ [.done (.ok ())])
      ((∅ : HashMap String codec.Text).insert (stateName record.key) (codec.toVec record)) :=
    .snoc .nil trivial rfl
  have hactual := hfirst.snoc (show Machine.Free _ _ from trivial) hstep'
  obtain ⟨files, hfiles⟩ := h _ _ _ hmemory
  have htr := (hactual.unique hfiles).1
  simp at htr

/-- **The stores answer alike over a set of pairs** exactly when no two of them share a file. -/
theorem provider_files_iff {json : JsonText} (hjson : json.Lawful) :
    store.Agrees (ProviderStateRecord.codec json) S ↔ Set.InjOn stateName S := by
  constructor
  · intro h key hkey other hother hname
    by_contra hne
    have hread : (ProviderStateRecord.codec json).ReadsBack ⟨other.1, other.2, .null⟩ :=
      ProviderStateRecord.readsBack hjson trivial trivial (show Value.null.depth < recursionLimit by decide)
    exact store.not_agrees ⟨other.1, other.2, .null⟩ hother hkey hne hname hread h
  · intro hS as tr s hrun
    obtain ⟨files, hfiles, -⟩ := store.run_of_memory hS hrun
    exact ⟨files, hfiles⟩

theorem provider_files_iff_plain : Agrees (ProviderStateRecord.codec .values)
    {(⟨0⟩, ⟨"openai"⟩), (⟨0⟩, ⟨"deepseek"⟩)} ⟨"data", by decide⟩ := by
  refine (provider_files_iff _ JsonText.values_lawful).2 (stateName_injOn_plain.mono ?_)
  rintro key (rfl | rfl)
  · exact ⟨by decide, List.all_eq_true.1 rfl⟩
  · exact ⟨by decide, List.all_eq_true.1 rfl⟩

/-- Two providers whose names differ in a character that is replaced. -/
theorem slashed_disagree : ¬ Agrees (ProviderStateRecord.codec .values)
    {(⟨0⟩, ⟨"a/b"⟩), (⟨0⟩, ⟨"a_b"⟩)} ⟨"data", by decide⟩ :=
  not_agrees _ ⟨⟨0⟩, ⟨"a_b"⟩, .null⟩ (.inr rfl) (.inl rfl) (by decide)
    (stateName_eq_iff.2 ⟨rfl, by decide⟩)
    (ProviderStateRecord.readsBack JsonText.values_lawful trivial trivial
      (show Value.null.depth < recursionLimit by decide))

end JsonFileProviderStateStore

end Agreement

end Aifluxon
