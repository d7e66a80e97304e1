import Aifluxon.Auth.Scopes

/-!
# The account index

What the calls read of the index, and what they write.

* `Serde.Lawful` : what is promised of the JSON; `AuthLibrary.parseIndex_printIndex` : an index is read as it was
  written;
* `AuthLibrary.rawRecords`, `storedRecords` : the records that are stored, and those that a fresh manager reads;
* `lastRead`, `hasWritten` : the list that a call has read, and whether it has written one;
* `AuthLibrary.Writes` : an operation writes a list; `IndexOps` : a call writes what it makes of the list it has read;
* `storeCredentials_index`, `logout_index` : the two calls that do.
-/

namespace Aifluxon

open AuthM Value

/-! ## Texts -/

/-- What is promised of values without floats: their text is not blank, and is read as the value. -/
structure Serde.Lawful (serde : Serde) : Prop where
  fromStr_toString : ∀ (v : Value) text, v.Integral → v.depth ≤ recursionLimit → serde.toString v = .ok text →
    serde.fromStr text = some v ∧ trim text ≠ ""

theorem Serde.ofTable_lawful {texts : List (Value × String)}
    (hsame : ∀ e ∈ texts, ∀ e' ∈ texts, e.2 = e'.2 → e.1 = e'.1) (hblank : ∀ e ∈ texts, trim e.2 ≠ "") :
    (Serde.ofTable texts).Lawful where
  fromStr_toString v text _ _ h := by
    change Option.elim _ _ _ = _ at h
    cases hfind : texts.find? fun e => e.1 = v with
    | none =>
      rw [hfind] at h
      cases h
    | some e =>
      rw [hfind] at h
      obtain rfl : e.2 = text := Except.ok.inj h
      obtain rfl : e.1 = v := by simpa using List.find?_some hfind
      have hmem := List.mem_of_find?_eq_some hfind
      refine ⟨?_, hblank e hmem⟩
      show Option.map Prod.fst (texts.find? _) = _
      cases hback : texts.find? fun e' => e'.2 = e.2 with
      | none =>
        have hno := List.find?_eq_none.1 hback e hmem
        simp at hno
      | some e' =>
        have htext : e'.2 = e.2 := by simpa using List.find?_some hback
        rw [Option.map_some, hsame e' (List.mem_of_find?_eq_some hback) e hmem htext]

namespace CodexAccountRecord

theorem fromJson_toJson (record : CodexAccountRecord) : fromJson record.toJson = some record := by
  obtain ⟨accountId, accountEmail⟩ := record
  cases accountEmail <;> rfl

theorem integral_toJson (record : CodexAccountRecord) : record.toJson.Integral := by
  obtain ⟨accountId, accountEmail⟩ := record
  cases accountEmail <;> exact ⟨trivial, trivial, trivial⟩

theorem depth_toJson (record : CodexAccountRecord) : record.toJson.depth = 1 := by
  obtain ⟨accountId, accountEmail⟩ := record
  cases accountEmail <;> rfl

end CodexAccountRecord

/-- Values that are all written and read alike. -/
theorem integral_index (records : List CodexAccountRecord) :
    (Value.array (records.map CodexAccountRecord.toJson)).Integral := by
  rw [Value.Integral]
  induction records with
  | nil => exact trivial
  | cons record records ih => exact ⟨record.integral_toJson, ih⟩

theorem depth_index (records : List CodexAccountRecord) :
    (Value.array (records.map CodexAccountRecord.toJson)).depth ≤ recursionLimit := by
  have hitems : depthItems (records.map CodexAccountRecord.toJson) ≤ 1 := by
    induction records with
    | nil => exact Nat.zero_le _
    | cons record records ih =>
      rw [List.map_cons, depthItems, record.depth_toJson]
      exact max_le le_rfl ih
  rw [Value.depth, recursionLimit]
  omega

namespace AuthLibrary
variable {lib : AuthLibrary}

theorem parseIndex_printIndex (hserde : lib.serde.Lawful) {records : List CodexAccountRecord} {text : String}
    (h : lib.printIndex records = .ok text) : lib.parseIndex text = some records ∧ trim text ≠ "" := by
  obtain ⟨hread, hblank⟩ := hserde.fromStr_toString _ _ (integral_index records) (depth_index records) h
  refine ⟨?_, hblank⟩
  rw [parseIndex, hread, Option.bind_some,
    readList_map (f := id) fun record _ => CodexAccountRecord.fromJson_toJson record, List.map_id]

/-! ## What is stored -/

variable (lib) in
/-- The records in the text of an index. -/
def recordsIn (text : Option String) : List CodexAccountRecord :=
  ((notBlank text).bind lib.parseIndex).getD []

variable (lib) in
/-- The records that a manager reads that has read nothing yet. -/
def storedRecords (w : AuthWorld) : List CodexAccountRecord :=
  CodexAccountRecord.normalizeAll (lib.recordsIn (w.secrets .accountIndex))

end AuthLibrary

/-- The accounts of a list. -/
def Names (records : List CodexAccountRecord) (accountId : String) : Prop :=
  ∃ record ∈ records, record.accountId = accountId

namespace CodexAccountRecord
variable {records : List CodexAccountRecord} {accountId : String}

@[simp] theorem names_nil : ¬ Names [] accountId := fun ⟨_, h, _⟩ => nomatch h

@[simp] theorem names_cons (record : CodexAccountRecord) :
    Names (record :: records) accountId ↔ record.accountId = accountId ∨ Names records accountId := by
  simp [Names]

@[simp] theorem names_append (more : List CodexAccountRecord) :
    Names (records ++ more) accountId ↔ Names records accountId ∨ Names more accountId := by
  simp [Names, or_and_right, exists_or]

/-- The accounts of a list that is read are those that are listed, without the white space around them. -/
theorem names_normalizeAll :
    Names (normalizeAll records) accountId ↔ accountId ≠ "" ∧ ∃ record ∈ records, trim record.accountId = accountId := by
  have hfold : ∀ (kept : List CodexAccountRecord),
      Names (records.foldl (fun kept record =>
        if record.normalized.accountId ≠ "" ∧ ∀ current ∈ kept, current.accountId ≠ record.normalized.accountId then
          kept ++ [record.normalized]
        else kept) kept) accountId ↔
      Names kept accountId ∨ accountId ≠ "" ∧ ∃ record ∈ records, trim record.accountId = accountId := by
    induction records with
    | nil => simp
    | cons record records ih =>
      intro kept
      rw [List.foldl_cons, ih]
      have hid : record.normalized.accountId = trim record.accountId := rfl
      simp only [hid, List.mem_cons, exists_eq_or_imp]
      split
      · rename_i h
        rw [names_append, names_cons, hid]
        constructor
        · rintro ((hkept | hlast | hnil) | hmore)
          · exact .inl hkept
          · exact .inr ⟨hlast ▸ h.1, .inl hlast⟩
          · exact absurd hnil names_nil
          · exact .inr ⟨hmore.1, .inr hmore.2⟩
        · rintro (hkept | ⟨hne, hlast | hmore⟩)
          · exact .inl (.inl hkept)
          · exact .inl (.inr (.inl hlast))
          · exact .inr ⟨hne, hmore⟩
      · rename_i h
        constructor
        · rintro (hkept | hmore)
          · exact .inl hkept
          · exact .inr ⟨hmore.1, .inr hmore.2⟩
        · rintro (hkept | ⟨hne, hlast | hmore⟩)
          · exact .inl hkept
          · -- it is not kept twice
            left
            by_contra hnone
            exact h ⟨by rw [hlast]; exact hne, fun current hcurrent heq => hnone ⟨current, hcurrent, heq.trans hlast⟩⟩
          · exact .inr ⟨hne, hmore⟩
  rw [normalizeAll, hfold]
  simp

theorem names_upsert (record : CodexAccountRecord) :
    Names (record.upsert records) accountId ↔ record.accountId = accountId ∨ Names records accountId := by
  induction records with
  | nil => simp [upsert]
  | cons current records ih =>
    rw [upsert]
    split
    · rename_i heq
      rw [names_cons, names_cons, heq, or_self_left]
    · rw [names_cons, names_cons, ih]
      exact or_left_comm

theorem names_filter (removed : String) :
    Names (records.filter fun record => record.accountId ≠ removed) accountId ↔
      Names records accountId ∧ accountId ≠ removed := by
  constructor
  · rintro ⟨record, hrecord, rfl⟩
    have hmem := List.mem_filter.1 hrecord
    exact ⟨⟨record, hmem.1, rfl⟩, by simpa using hmem.2⟩
  · rintro ⟨⟨record, hrecord, rfl⟩, hne⟩
    exact ⟨record, List.mem_filter.2 ⟨hrecord, by simpa using hne⟩, rfl⟩

end CodexAccountRecord

/-! ## What a call has read and written -/

/-- The list that an operation reads: the cached one, or the one that it caches. -/
def readBy : Sigma AuthOp.Answer → Option (List CodexAccountRecord)
  | ⟨.cachedRecords, records⟩ => records
  | ⟨.cacheRecords records, _⟩ => some records
  | _ => none

def lastRead (h : AuthHistory) : Option (List CodexAccountRecord) := h.reverse.findSome? readBy

def AuthOp.writesIndex : AuthOp → Bool
  | .set .accountIndex _ | .delete .accountIndex => true
  | _ => false

def AuthOp.setsEntry : AuthOp → Bool
  | .set (.account _ _) _ => true
  | _ => false

/-- A write of the index that does not fail. -/
def wroteIndex : Sigma AuthOp.Answer → Bool
  | ⟨.set .accountIndex _, .ok _⟩ | ⟨.delete .accountIndex, .ok _⟩ => true
  | _ => false

def hasWritten (h : AuthHistory) : Bool := h.any wroteIndex

/-- An entry that is deleted. -/
def deletedEntry (key : SecretKey) : Sigma AuthOp.Answer → Bool
  | ⟨.delete key', .ok _⟩ => key' = key
  | _ => false

def hasDeleted (key : SecretKey) (h : AuthHistory) : Bool := h.any (deletedEntry key)

theorem lastRead_snoc (h : AuthHistory) (e : Sigma AuthOp.Answer) : lastRead (h ++ [e]) = (readBy e).or (lastRead h) := by
  rw [lastRead, List.reverse_append, List.reverse_singleton, List.singleton_append, List.findSome?_cons]
  cases readBy e <;> rfl

@[simp] theorem hasWritten_snoc (h : AuthHistory) (e : Sigma AuthOp.Answer) :
    hasWritten (h ++ [e]) = (hasWritten h || wroteIndex e) := by
  simp [hasWritten]

@[simp] theorem hasDeleted_snoc (key : SecretKey) (h : AuthHistory) (e : Sigma AuthOp.Answer) :
    hasDeleted key (h ++ [e]) = (hasDeleted key h || deletedEntry key e) := by
  simp [hasDeleted]

theorem wroteIndex_eq_false {op : AuthOp} (h : op.writesIndex = false) (r : op.Answer) : wroteIndex ⟨op, r⟩ = false := by
  cases op with
  | set key | delete key => cases key with
    | accountIndex => cases h
    | legacy | account => rfl
  | _ => rfl

namespace AuthLibrary
variable (lib : AuthLibrary)

/-- An operation that writes a list into the index. -/
def Writes (records : List CodexAccountRecord) (op : AuthOp) : Prop :=
  records = [] ∧ op = .delete .accountIndex ∨
    ∃ text, lib.printIndex records = .ok text ∧ op = .set .accountIndex text

/-- The index is written once, with what `change` makes of the list that has been read. -/
def IndexOps (change : List CodexAccountRecord → List CodexAccountRecord) (h : AuthHistory) (op : AuthOp) : Prop :=
  op.writesIndex = true → hasWritten h = false ∧
    ∃ records, lastRead h = some records ∧ lib.Writes (change records) op

variable {lib} {R : (op : AuthOp) → op.Answer → Prop} {P : AuthHistory → AuthOp → Prop} {h : AuthHistory}

/-- What is written is what is stored. -/
theorem recordsIn_of_writes (hserde : lib.serde.Lawful) {records : List CodexAccountRecord} {op : AuthOp}
    (hop : lib.Writes records op) {m : Nat} {w : AuthWorld} (hfault : w.input.fault = none) :
    lib.recordsIn ((AuthWorld.handle m op w).2.secrets .accountIndex) = records := by
  rcases hop with ⟨rfl, rfl⟩ | ⟨text, htext, rfl⟩
  · rw [show AuthWorld.handle m (.delete .accountIndex) w = _ from AuthWorld.attempt_ok hfault]
    simp [recordsIn, notBlank]
  · obtain ⟨hparse, hblank⟩ := parseIndex_printIndex hserde htext
    rw [show AuthWorld.handle m (.set .accountIndex text) w = _ from AuthWorld.attempt_ok hfault]
    simp [recordsIn, notBlank, Option.filter_some, hblank, hparse]

theorem readAccountIndex_reads (hP : ∀ h op, op.writesIndex = false → op.setsEntry = false → P h op)
    (hnone : hasWritten h = false) :
    Meets R P (fun h records => lastRead h = some records ∧ hasWritten h = false) lib.readAccountIndex h := by
  have hcached : Meets R P (fun h cached => (∀ records, cached = some records → lastRead h = some records) ∧
      hasWritten h = false) (perform .cachedRecords) h :=
    meets_perform .cachedRecords (hP _ _ rfl rfl) fun cached _ => by
      refine ⟨fun records hrecords => ?_, by simpa [wroteIndex] using hnone⟩
      rw [lastRead_snoc, hrecords]
      rfl
  have hcache (records : List CodexAccountRecord) {h : AuthHistory} (hnone : hasWritten h = false) :
      Meets R P (fun h _ => lastRead h = some records ∧ hasWritten h = false) (perform (.cacheRecords records)) h :=
    meets_perform (.cacheRecords records) (hP _ _ rfl rfl) fun _ _ => by
      refine ⟨?_, by simpa [wroteIndex] using hnone⟩
      rw [lastRead_snoc]
      rfl
  refine hcached.bind fun h cached ⟨hread, hnone⟩ => ?_
  cases cached with
  | some records => exact meets_pure ⟨hread records rfl, hnone⟩
  | none =>
    refine Meets.bind (Q := fun h _ => hasWritten h = false)
      (meets_getText (hP _ _ rfl rfl) fun _ _ => by simpa [wroteIndex] using hnone) fun h text hnone => ?_
    cases text with
    | none => exact (hcache [] hnone).bind fun _ _ hread => meets_pure hread
    | some value =>
      refine Meets.bind (Q := fun h _ => hasWritten h = false) (meets_okOr fun _ _ => hnone) fun h records hnone => ?_
      exact (hcache _ hnone).bind fun _ _ hread => meets_pure hread

theorem writeAccountIndex_writes {records : List CodexAccountRecord}
    (hP : ∀ h op, op.writesIndex = false → op.setsEntry = false → P h op) (hW : ∀ op, lib.Writes records op → P h op) :
    Meets (fun op r => R op r) P (fun h _ => hasWritten h = true) (lib.writeAccountIndex records) h := by
  refine Meets.bind (Q := fun h _ => hasWritten h = true) ?_ fun h _ hwritten =>
    meets_perform (.cacheRecords records) (hP _ _ rfl rfl) fun _ _ => by simp [hwritten]
  unfold storeAccountIndex
  split
  · rename_i hempty
    exact meets_deleteSecret (hW _ (.inl ⟨List.isEmpty_iff.1 hempty, rfl⟩)) fun _ => by simp [wroteIndex]
  · split
    · exact meets_throw
    · rename_i text htext
      exact meets_setSecret (hW _ (.inr ⟨text, htext, rfl⟩)) fun _ => by simp [wroteIndex]

/-- A call that writes what it makes of the list that it has read. -/
theorem changeIndex_ops {change : List CodexAccountRecord → List CodexAccountRecord} (hnone : hasWritten h = false) :
    Meets R (fun h op => lib.IndexOps change h op ∧ op.setsEntry = false) (fun h _ => hasWritten h = true)
      (lib.readAccountIndex >>= fun records => lib.writeAccountIndex (change records)) h := by
  have hquiet (h : AuthHistory) (op : AuthOp) (hop : op.writesIndex = false) (hset : op.setsEntry = false) :
      lib.IndexOps change h op ∧ op.setsEntry = false := ⟨fun hw => (by rw [hop] at hw; cases hw), hset⟩
  refine (readAccountIndex_reads hquiet hnone).bind fun h records ⟨hread, hnone⟩ => ?_
  refine writeAccountIndex_writes hquiet fun op hop => ⟨fun _ => ⟨hnone, records, hread, hop⟩, ?_⟩
  rcases hop with ⟨-, rfl⟩ | ⟨_, -, rfl⟩ <;> rfl

/-! ## The two calls -/

variable {accountId : String}

/-- A store writes the index with the record of its account. -/
theorem storeCredentials_index (credentials : CodexCredentials) :
    Meets R (lib.IndexOps (CodexAccountRecord.upsert ⟨accountId, lib.idTokenEmail credentials.idToken⟩))
      (fun h _ => hasWritten h = true) (lib.storeCredentials accountId credentials) [] := by
  have hset (kind : CredentialKind) (value : String) {h : AuthHistory} (hnone : hasWritten h = false) :
      Meets R (lib.IndexOps (CodexAccountRecord.upsert ⟨accountId, lib.idTokenEmail credentials.idToken⟩))
        (fun h _ => hasWritten h = false) (setText (lib.accountSecret accountId kind) value) h :=
    meets_setSecret nofun fun _ => by simp [hnone, wroteIndex, accountSecret]
  have hscoped : Meets R (lib.IndexOps (CodexAccountRecord.upsert ⟨accountId, lib.idTokenEmail credentials.idToken⟩))
      (fun h _ => hasWritten h = false) (lib.storeScopedCredentials accountId credentials) [] := by
    refine (hset _ _ rfl).bind fun h _ hnone => (hset _ _ hnone).bind fun h _ hnone => (hset _ _ hnone).bind
      fun h _ hnone => ?_
    split
    · exact meets_throw
    · exact hset _ _ hnone
  refine Meets.bind (Q := fun h _ => h = []) (meets_okOr fun _ _ => rfl) fun h claim hh => ?_
  subst hh
  split
  · exact meets_throw
  · refine hscoped.bind fun h _ hnone => ((changeIndex_ops hnone).mono (fun _ _ hop => hop.1) fun _ _ hw => hw).bind
      fun h _ hwritten => ?_
    exact meets_perform (.cacheCredentials _ _) nofun fun _ _ => by simp [hwritten]

/-- The kinds are deleted, unless an error is returned. -/
theorem deleteKinds_deletes (hP : ∀ h op, op.writesIndex = false → op.setsEntry = false → P h op)
    (kinds : List CredentialKind) (firstError : Option AuthError) (hnone : hasWritten h = false) :
    Meets R P (fun h' _ => firstError = none ∧ hasWritten h' = false ∧ ∀ kind,
      kind ∈ kinds ∨ hasDeleted (lib.accountSecret accountId kind) h = true →
        hasDeleted (lib.accountSecret accountId kind) h' = true)
      (lib.deleteKinds accountId kinds firstError) h := by
  induction kinds generalizing h firstError with
  | nil => cases firstError with
    | none => exact meets_pure ⟨rfl, hnone, fun kind hkind => hkind.resolve_left List.not_mem_nil⟩
    | some error => exact meets_throw
  | cons first kinds ih =>
    have hdelete : (deleteSecret (lib.accountSecret accountId first)).run.Sat R P
        (fun h' r => h' = h ++ [⟨.delete (lib.accountSecret accountId first), r⟩]) h := ⟨hP _ _ rfl rfl, fun _ _ => rfl⟩
    refine ⟨hdelete.bind fun h' r hh' => ?_⟩
    subst hh'
    cases r with
    | error error =>
      refine ((ih (firstError.or (some error)) (by simpa [wroteIndex] using hnone)).mono (fun _ _ hop => hop)
        fun h' _ hkinds => ?_).sat
      cases firstError <;> cases hkinds.1
    | ok =>
      refine ((ih firstError (by simpa [wroteIndex, accountSecret] using hnone)).mono (fun _ _ hop => hop)
        fun h' _ ⟨hfirst, hwritten, hkinds⟩ => ⟨hfirst, hwritten, fun kind hkind => hkinds kind ?_⟩).sat
      rcases hkind with hkind | hkind
      · rcases List.mem_cons.1 hkind with rfl | hkind
        · exact .inr (by simp [deletedEntry])
        · exact .inl hkind
      · exact .inr (by simp [hkind])

/-- A sign-out deletes the entries of its account, and writes the index without its records. -/
theorem logout_index :
    Meets R (fun h op => lib.IndexOps (fun records => records.filter fun record => record.accountId ≠ trim accountId)
      h op ∧ op.setsEntry = false)
      (fun h _ => hasWritten h = true ∧
        ∀ kind, hasDeleted (lib.accountSecret (trim accountId) kind) h = true) (lib.logout accountId) [] := by
  have hquiet (h : AuthHistory) (op : AuthOp) (hop : op.writesIndex = false) (hset : op.setsEntry = false) :
      lib.IndexOps (fun records => records.filter fun record => record.accountId ≠ trim accountId) h op ∧
        op.setsEntry = false := ⟨fun hw => (by rw [hop] at hw; cases hw), hset⟩
  unfold logout
  split
  · exact meets_throw
  · refine Meets.bind (Q := fun h _ => hasWritten h = false ∧
      ∀ kind, hasDeleted (lib.accountSecret (trim accountId) kind) h = true) ?_ fun h _ ⟨hnone, hdeleted⟩ => ?_
    · refine Meets.bind (Q := fun h _ => hasWritten h = false)
        (meets_perform (.removeCredentials _) (hquiet _ _ rfl rfl) fun _ _ => rfl) fun h _ hnone => ?_
      refine (deleteKinds_deletes hquiet _ none hnone).mono (fun _ _ hop => hop) fun h' _ ⟨_, hnone, hkinds⟩ => ?_
      exact ⟨hnone, fun kind => hkinds kind (.inl (by cases kind <;> decide))⟩
    · refine ⟨((changeIndex_ops hnone).sat.keeping
        (F := fun h => ∀ kind, hasDeleted (lib.accountSecret (trim accountId) kind) h = true) ?_ hdeleted).mono
        (fun _ _ hop => hop.1) fun h result hresult a ha => ⟨hresult.1 a ha, hresult.2⟩⟩
      intro h e hall kind
      rw [hasDeleted_snoc, hall kind, Bool.true_or]

end AuthLibrary

end Aifluxon
