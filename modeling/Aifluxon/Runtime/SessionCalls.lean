import Aifluxon.Lib.Machine
import Aifluxon.Runtime.SaveErrors

/-!
# Calls on a session store

The trait `SessionStore` as a machine, for the store in memory and for the store in files when no call
meets an I/O failure. Each call comes with the clock; a call on the files also with the instance that
makes it, and all instances are on one root.

* `SessionStore.machine`, `JsonFileSessionStore.machine` : the two stores;
* `Tidy` : a directory that holds valid records only; every call keeps it;
* `save_tidy`, `load_tidy`, `delete_tidy`, `list_tidy` : the calls on such a directory, and as steps
  of the machine `step_save`, `step_stale`, `step_load`, `step_delete`, `step_list`.
-/

namespace Aifluxon

inductive SessionCall where
  | load (id : SessionId)
  | save (record : SessionRecord)
  | delete (id : SessionId)
  | list

inductive SessionAnswer where
  | loaded (result : Except StoreError (Option SessionRecord))
  | saved (result : Except StoreError SessionRecord)
  | deleted (result : Except StoreError Unit)
  | listed (result : Except StoreError (List SessionSummary))

/-- A call, the instance that makes it, and the clocks of the files and of memory. -/
structure SessionAction where
  call : SessionCall
  store : JsonFileSessionStore
  fileNow : TimestampMillis
  memoryNow : TimestampMillis

/-- The calls on the store in memory. -/
def SessionStore.machine : Machine SessionStore SessionAction SessionAnswer where
  step s a := match a.call with
    | .load id => some (s, [.loaded (s.load none id)])
    | .save record => match s.save .none a.memoryNow record with
      | (result, s') => some (s', [.saved result])
    | .delete id => some (s.delete id, [.deleted (.ok ())])
    | .list => some (s, [.listed (.ok s.list)])

namespace JsonFileSessionStore

/-- The calls on the store in files, without an I/O failure. -/
def machine (codec : FileCodec SessionEnvelope) :
    Machine (SessionsDir codec.Text) SessionAction SessionAnswer where
  step d a := match a.call with
    | .load id => match load codec a.store (.clean a.fileNow) id d with
      | (result, d') => some (d', [.loaded result])
    | .save record => match save codec a.store (.clean a.fileNow) a.fileNow record d with
      | (result, d') => some (d', [.saved result])
    | .delete id => match delete codec a.store (.clean a.fileNow) id d with
      | (result, d') => some (d', [.deleted result])
    | .list => match list codec a.store (.clean a.fileNow) d with
      | (result, d') => some (d', [.listed result])

/-! ## Directories of valid records -/

variable {codec : FileCodec SessionEnvelope} {d : SessionsDir codec.Text}

variable (codec) in
/-- Every file is the valid record of a session. -/
def Tidy (d : SessionsDir codec.Text) : Prop :=
  ∀ name ∈ d.records, ∃ id, name = recordName id ∧ (stored codec d id).isSome

variable (codec) in
/-- The directory with the summaries in its index. -/
def indexed (d : SessionsDir codec.Text) : SessionsDir codec.Text :=
  { d with index := some ⟨schemaVersion, summaries codec (.clean 0) d⟩ }

@[simp] theorem stored_indexed : stored codec (indexed codec d) = stored codec d := rfl

@[simp] theorem records_indexed : (indexed codec d).records = d.records := rfl

theorem tidy_empty : Tidy codec .empty := fun name h => absurd h (AList.notMem_empty name)

theorem Tidy.indexed (h : Tidy codec d) : Tidy codec (indexed codec d) := h

theorem Tidy.put (h : Tidy codec d) {record : SessionRecord} (hread : (readBack codec record).isSome) :
    Tidy codec (put codec record d) := by
  intro name hname
  rcases SessionsDir.mem_putFile.1 hname with rfl | hin
  · exact ⟨record.id, rfl, by rw [stored_put, if_pos rfl]; exact hread⟩
  · obtain ⟨id, rfl, hvalid⟩ := h name hin
    refine ⟨id, rfl, ?_⟩
    rw [stored_put]
    split
    · exact hread
    · exact hvalid

theorem Tidy.removeFile (h : Tidy codec d) (id : SessionId) :
    Tidy codec (d.removeFile (recordName id)) := by
  intro name hname
  obtain ⟨hne, hin⟩ := SessionsDir.mem_removeFile.1 hname
  obtain ⟨k, rfl, hvalid⟩ := h name hin
  refine ⟨k, rfl, ?_⟩
  rw [stored_removeFile, if_neg fun hk => hne (congrArg recordName hk)]
  exact hvalid

theorem Tidy.readable (h : Tidy codec d) (id : SessionId) : Readable codec none d id := by
  refine ⟨rfl, ?_⟩
  by_cases hin : recordName id ∈ d.records
  · obtain ⟨k, hk, hvalid⟩ := h _ hin
    rw [recordName_injective hk]
    exact .inr hvalid
  · exact .inl (AList.lookup_eq_none.2 hin)

theorem Tidy.indexable (h : Tidy codec d) (now : TimestampMillis) : Indexable codec (.clean now) d := by
  refine ⟨rfl, fun name hin _ stem hstem => ?_⟩
  obtain ⟨id, rfl, -⟩ := h name hin
  rw [jsonStem_recordName, Option.some.injEq] at hstem
  rw [← hstem]
  exact ⟨id.uuid, parseUuid_hyphenated _, h.readable id⟩

/-! ## The calls -/

variable (store : JsonFileSessionStore) (now : TimestampMillis)

theorem load_tidy (h : Tidy codec d) (id : SessionId) :
    load codec store (.clean now) id d = (.ok (stored codec d id), d) := by
  simp only [load, Disk.clean_lock, Disk.clean_read, loadRecordSync_ok (h.readable id)]

theorem save_tidy (h : Tidy codec d) {record : SessionRecord}
    (hread : record.isCurrent (stored codec d record.id) = true →
      (readBack codec (SessionStore.advance record now)).isSome) :
    save codec store (.clean now) now record d =
      if record.isCurrent (stored codec d record.id) then
        (.ok (SessionStore.advance record now), indexed codec (put codec (SessionStore.advance record now) d))
      else (.error .conflict, d) := by
  by_cases hcurrent : record.isCurrent (stored codec d record.id) = true
  · rw [if_pos hcurrent]
    have hput := h.put (hread hcurrent)
    rw [save_accepted store ⟨rfl, h.readable _, hcurrent⟩]
    simp only [Disk.clean_write, WriteFault.write, writeIndexSync_ok (hput.indexable now) rfl]
    rfl
  · rw [if_neg hcurrent]
    simp only [save, Disk.clean_lock, Disk.clean_read, loadRecordSync_ok (h.readable record.id)]
    exact if_neg hcurrent

theorem delete_tidy (h : Tidy codec d) (id : SessionId) : delete codec store (.clean now) id d =
    (.ok (), indexed codec (d.removeFile (recordName id))) := by
  simp only [delete, Disk.clean_lock, Disk.clean_remove,
    writeIndexSync_ok ((h.removeFile id).indexable now) rfl]
  rfl

theorem list_tidy (h : Tidy codec d) : list codec store (.clean now) d =
    (.ok (summaries codec (.clean 0) d), indexed codec d) := by
  simp only [list, Disk.clean_lock, listSync_ok (h.indexable now), writeIndex, Disk.clean_index,
    WriteFault.write]
  rfl

/-! ## The steps of the machine -/

section Steps
variable (memoryNow : TimestampMillis)

theorem step_load (h : Tidy codec d) (id : SessionId) :
    (machine codec).step d ⟨.load id, store, now, memoryNow⟩ =
      some (d, [.loaded (.ok (stored codec d id))]) := by
  simp only [machine, load_tidy store now h id]

theorem step_save (h : Tidy codec d) {record : SessionRecord}
    (hcurrent : record.isCurrent (stored codec d record.id) = true)
    (hread : (readBack codec (SessionStore.advance record now)).isSome) :
    (machine codec).step d ⟨.save record, store, now, memoryNow⟩ =
      some (indexed codec (put codec (SessionStore.advance record now) d),
        [.saved (.ok (SessionStore.advance record now))]) := by
  simp only [machine, save_tidy store now h fun _ => hread, if_pos hcurrent]

theorem step_stale (h : Tidy codec d) {record : SessionRecord}
    (hstale : record.isCurrent (stored codec d record.id) = false) :
    (machine codec).step d ⟨.save record, store, now, memoryNow⟩ =
      some (d, [.saved (.error .conflict)]) := by
  have hne : ¬ record.isCurrent (stored codec d record.id) = true := by rw [hstale]; exact Bool.false_ne_true
  simp only [machine, save_tidy store now h fun hc => absurd hc hne, if_neg hne]

theorem step_delete (h : Tidy codec d) (id : SessionId) :
    (machine codec).step d ⟨.delete id, store, now, memoryNow⟩ =
      some (indexed codec (d.removeFile (recordName id)), [.deleted (.ok ())]) := by
  simp only [machine, delete_tidy store now h id]

theorem step_list (h : Tidy codec d) : (machine codec).step d ⟨.list, store, now, memoryNow⟩ =
    some (indexed codec d, [.listed (.ok (summaries codec (.clean 0) d))]) := by
  simp only [machine, list_tidy store now h]

end Steps

end JsonFileSessionStore

end Aifluxon
