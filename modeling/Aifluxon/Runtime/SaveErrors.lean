import Aifluxon.Runtime.JsonStore

/-!
# A save that reports an error

`JsonFileSessionStore::save` writes the record first and rebuilds the index from the whole directory
second; what fails in the second part is reported, and the record stays written.

* `save_outcome` : the three ends of a save;
* `Harmless` : an error leaves the stored record, and does not make a retry a conflict;
* `save_harmless_iff` : a save is harmless unless its record is written and lost to the client (`Lost`).
-/

namespace Aifluxon.JsonFileSessionStore

variable (codec : FileCodec SessionEnvelope) (store : JsonFileSessionStore) (disk : Disk)
variable (now : TimestampMillis) (record : SessionRecord) (d : SessionsDir codec.Text)

/-- A save comes to its write: the lock is taken, and the record is the current one of its session. -/
structure Accepts : Prop where
  lock : disk.lock = none
  readable : Readable codec disk.read d record.id
  current : record.isCurrent (stored codec d record.id) = true

/-- The record is written, and an error follows: of the write itself, of an entry of the directory, or
of the index. -/
def Interrupted : Prop :=
  (∃ error, disk.write = .after error) ∨
    disk.write = .none ∧
      ¬ (Indexable codec disk (put codec (SessionStore.advance record now) d) ∧ disk.index = .none)

/-- What is read of the file that a record is written to. -/
def readBack (record : SessionRecord) : Option SessionRecord :=
  readRecord codec record.id (codec.toVec record.envelope)

variable {codec record} in
theorem readBack_of_fromSlice {found : SessionRecord} (hid : found.id = record.id)
    (h : codec.fromSlice (codec.toVec record.envelope) = some found.envelope) :
    readBack codec record = some found := by
  rw [readBack, readRecord, h]
  simp [SessionRecord.envelope, hid]

variable {codec record} in
theorem readBack_eq (h : codec.ReadsBack record.envelope) : readBack codec record = some record :=
  readBack_of_fromSlice rfl h

variable {codec store disk now record d} in
theorem stored_put (k : SessionId) : stored codec (put codec record d) k =
    if k = record.id then readBack codec record else stored codec d k := by
  rw [put, stored_putFile]
  split
  · rename_i hk
    rw [hk, readBack]
  · rfl

/-- What a save leaves behind. -/
inductive Outcome : Except StoreError SessionRecord × SessionsDir codec.Text → Prop where
  | kept {error : StoreError} {d' : SessionsDir codec.Text}
      (hstored : stored codec d' = stored codec d)
      (hconflict : error = .conflict → record.isCurrent (stored codec d record.id) = false)
      (hnot : Accepts codec disk record d → ¬ Interrupted codec disk now record d) :
      Outcome (.error error, d')
  | interrupted {error : StoreError} {d' : SessionsDir codec.Text}
      (haccepts : Accepts codec disk record d) (hint : Interrupted codec disk now record d)
      (hstored : stored codec d' = stored codec (put codec (SessionStore.advance record now) d))
      (hne : error ≠ .conflict) : Outcome (.error error, d')
  | written (haccepts : Accepts codec disk record d) (hwrite : disk.write = .none)
      (hindexable : Indexable codec disk (put codec (SessionStore.advance record now) d))
      (hindex : disk.index = .none) :
      Outcome (.ok (SessionStore.advance record now),
        { put codec (SessionStore.advance record now) d with
          index := some ⟨schemaVersion, summaries codec disk (put codec (SessionStore.advance record now) d)⟩ })

variable {codec disk now record d}

/-- A save that is accepted makes its write, and then rebuilds the index. -/
theorem save_accepted (h : Accepts codec disk record d) : save codec store disk now record d =
    match disk.write.write d (put codec (SessionStore.advance record now) d) with
    | (.error error, d') => (.error error, d')
    | (.ok (), d') => match writeIndexSync codec store disk d' with
      | (.error error, d'') => (.error error, d'')
      | (.ok (), d'') => (.ok (SessionStore.advance record now), d'') := by
  unfold save
  rw [h.lock]
  dsimp only
  rw [loadRecordSync_ok h.readable]
  exact if_pos h.current

variable (codec disk now record d) in
theorem save_outcome : Outcome codec disk now record d (save codec store disk now record d) := by
  by_cases hacc : Accepts codec disk record d
  · rw [save_accepted store hacc]
    cases hwrite : disk.write with
    | before error =>
      refine .kept rfl nofun fun _ hint => ?_
      obtain ⟨e, he⟩ | ⟨he, -⟩ := hint
      · rw [hwrite] at he
        cases he
      · rw [hwrite] at he
        cases he
    | after error => exact .interrupted hacc (.inl ⟨error, hwrite⟩) rfl nofun
    | none =>
      simp only [WriteFault.write]
      by_cases hrest : Indexable codec disk (put codec (SessionStore.advance record now) d) ∧ disk.index = .none
      · rw [writeIndexSync_ok hrest.1 hrest.2]
        exact .written hacc hwrite hrest.1 hrest.2
      · obtain ⟨error, d', heq, hne, hstored⟩ := writeIndexSync_fails store hrest
        rw [heq]
        exact .interrupted hacc (.inr ⟨hwrite, hrest⟩) hstored hne
  · simp only [save]
    cases hlock : disk.lock with
    | some error => exact .kept rfl nofun fun h => absurd h hacc
    | none =>
      by_cases hread : Readable codec disk.read d record.id
      · have hcurrent : record.isCurrent (stored codec d record.id) = false :=
          Bool.eq_false_iff.2 fun hc => hacc ⟨hlock, hread, hc⟩
        simp only [loadRecordSync_ok hread, hcurrent, Bool.false_eq_true, if_false]
        exact .kept rfl (fun _ => hcurrent) fun h => absurd h hacc
      · obtain ⟨error, d', heq, hne, hstored⟩ := loadRecordSync_fails store disk hread
        simp only [heq]
        exact .kept hstored (fun h => absurd h hne) fun h => absurd h hacc

/-- A conflict is the answer to a record that is not current, and to no other. -/
theorem save_conflict {d' : SessionsDir codec.Text}
    (h : save codec store disk now record d = (.error .conflict, d')) :
    record.isCurrent (stored codec d record.id) = false := by
  have hout := save_outcome codec store disk now record d
  rw [h] at hout
  cases hout with
  | kept _ hconflict _ => exact hconflict rfl
  | interrupted _ _ _ hne => exact absurd rfl hne

variable (codec disk now record d)

/-- An error of the save leaves the stored record of the session as it was, and a retry with the same
revision is a conflict only where the record was not current before. -/
def Harmless : Prop :=
  ∀ error d', save codec store disk now record d = (.error error, d') →
    stored codec d' record.id = stored codec d record.id ∧
      ∀ store' disk' now' retry d'', retry.id = record.id → retry.revision = record.revision →
        save codec store' disk' now' retry d' = (.error .conflict, d'') →
          record.isCurrent (stored codec d record.id) = false

/-- The record is written under the next revision, which the client is not told. -/
structure Lost : Prop where
  accepts : Accepts codec disk record d
  interrupted : Interrupted codec disk now record d
  changed : readBack codec (SessionStore.advance record now) ≠ stored codec d record.id

variable {codec disk now record d}

theorem Lost.not_harmless (h : Lost codec disk now record d) : ¬ Harmless codec store disk now record d := by
  intro hsafe
  have hout := save_outcome codec store disk now record d
  generalize hr : save codec store disk now record d = r at hout
  cases hout with
  | kept _ _ hnot => exact hnot h.accepts h.interrupted
  | interrupted _ _ hstored _ =>
    have hkept := (hsafe _ _ hr).1
    rw [hstored, stored_put, SessionStore.advance_id, if_pos rfl] at hkept
    exact h.changed hkept
  | written _ hwrite hindexable hindex =>
    obtain ⟨e, he⟩ | ⟨-, hrest⟩ := h.interrupted
    · rw [hwrite] at he
      cases he
    · exact hrest ⟨hindexable, hindex⟩

/-- **A save is harmless** exactly when it does not lose its own record. -/
theorem save_harmless_iff : Harmless codec store disk now record d ↔ ¬ Lost codec disk now record d := by
  refine ⟨fun h hlost => hlost.not_harmless store h, fun h error d' hsave => ?_⟩
  have hout := save_outcome codec store disk now record d
  rw [hsave] at hout
  have hkept : stored codec d' record.id = stored codec d record.id := by
    cases hout with
    | kept hstored _ _ => rw [hstored]
    | interrupted haccepts hint hstored _ =>
      rw [hstored, stored_put, SessionStore.advance_id, if_pos rfl]
      exact not_not.1 fun hchanged => h ⟨haccepts, hint, hchanged⟩
  refine ⟨hkept, fun store' disk' now' retry d'' hid hrevision hretry => ?_⟩
  have hstale := save_conflict store' hretry
  rw [hid, hkept] at hstale
  simpa only [SessionRecord.isCurrent, hrevision] using hstale

/-! ## A corrupt neighbour -/

/-- A corrupt record of another session interrupts every save. -/
theorem Interrupted.of_corrupt {neighbour : SessionId} (hne : neighbour ≠ record.id)
    (hfile : recordName neighbour ∈ d.records) (hcorrupt : stored codec d neighbour = none)
    (hdropped : disk.dropped (recordName neighbour) = false) (hwrite : disk.write = .none) :
    Interrupted codec disk now record d := by
  refine .inr ⟨hwrite, fun h => ?_⟩
  have hmem : recordName neighbour ∈ (put codec (SessionStore.advance record now) d).records :=
    SessionsDir.mem_putFile.2 (.inr hfile)
  obtain ⟨uuid, huuid, -, hread⟩ := h.1.2 _ hmem hdropped _ (jsonStem_recordName _)
  rw [parseUuid_hyphenated, Option.some.injEq] at huuid
  subst huuid
  rcases hread with habsent | hvalid
  · exact absurd hmem (AList.lookup_eq_none.1 habsent)
  · rw [stored_put, SessionStore.advance_id, if_neg hne] at hvalid
    rw [show stored codec d ⟨neighbour.uuid⟩ = none from hcorrupt] at hvalid
    cases hvalid

/-- A directory with one file in it, `null` under the name of the session `id`. -/
def corruptFile (id : SessionId) : SessionsDir (SessionEnvelope.codec .values).Text :=
  SessionsDir.empty.putFile (recordName id) (show (SessionEnvelope.codec .values).Text from Value.null)

theorem stored_corruptFile (id k : SessionId) :
    stored (SessionEnvelope.codec .values) (corruptFile id) k = none :=
  (stored_putFile _ k).trans (ite_self _)

/-- The first save of a session, next to a corrupt record of another. -/
theorem corrupt_neighbour : ¬ Harmless (SessionEnvelope.codec .values) .underData (.clean 1) 1
    (.new ⟨0⟩ 0) (corruptFile ⟨1⟩) := by
  have habsent : recordName ⟨0⟩ ∉ (corruptFile ⟨1⟩).records := fun h => by
    rcases SessionsDir.mem_putFile.1 h with heq | hin
    · cases recordName_injective heq
    · exact AList.notMem_empty _ hin
  have hread : (SessionEnvelope.codec .values).ReadsBack
      (SessionStore.advance (.new ⟨0⟩ 0) 1).envelope :=
    (SessionRecord.faithful_new _).advance.readsBack JsonText.values_lawful
      ((SessionRecord.typed_new _ (by decide)).advance (by decide))
      ((SessionRecord.integral_new _ (by decide)).advance (by decide))
  refine Lost.not_harmless _ ⟨⟨rfl, ⟨rfl, .inl (AList.lookup_eq_none.2 habsent)⟩, ?_⟩, ?_, ?_⟩
  · rw [stored_corruptFile]
    rfl
  · exact .of_corrupt (show (⟨1⟩ : SessionId) ≠ ⟨0⟩ by decide) (SessionsDir.mem_putFile.2 (.inl rfl))
      (stored_corruptFile _ _) rfl rfl
  · rw [stored_corruptFile, readBack_eq hread]
    nofun

end Aifluxon.JsonFileSessionStore
