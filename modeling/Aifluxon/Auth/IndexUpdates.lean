import Aifluxon.Auth.AccountIndex

/-!
# Updates of the index, side by side

Calls that store credentials and calls that sign out, of several threads and several managers over one secret store.

* `IndexCall`, `indexMachine` : the calls, in any interleaving of their operations;
* `AuthLibrary.Listed` : the accounts that a manager lists that has read nothing yet;
* `WritesOverRead` : an index is written by a call over the list that the call has read;
* `IndexKept`, `index_step` : the changes that have been written are in the index, step by step;
* `index_complete`, `index_complete_two`, `update_lost` : after all calls.
-/

namespace Aifluxon

open AuthM AuthLibrary

inductive IndexCall where
  | store (accountId : String) (credentials : CodexCredentials)
  | logout (accountId : String)

namespace IndexCall
variable (lib : AuthLibrary)

def procedure : IndexCall → AuthM Unit
  | store accountId credentials => lib.storeCredentials accountId credentials
  | logout accountId => lib.logout accountId

/-- The account that the call touches. -/
def account : IndexCall → String
  | store accountId _ | logout accountId => trim accountId

def signsIn : IndexCall → Bool
  | store _ _ => true
  | logout _ => false

/-- What the call makes of the list that it has read. -/
def change : IndexCall → List CodexAccountRecord → List CodexAccountRecord
  | store accountId credentials, records => CodexAccountRecord.upsert ⟨accountId, lib.idTokenEmail credentials.idToken⟩ records
  | logout accountId, records => records.filter fun record => record.accountId ≠ trim accountId

theorem index_ops {R : (op : AuthOp) → op.Answer → Prop} (call : IndexCall) :
    Meets R (lib.IndexOps (call.change lib)) (fun h _ => hasWritten h = true) (call.procedure lib) [] := by
  cases call with
  | store accountId credentials => exact storeCredentials_index credentials
  | logout accountId => exact logout_index.mono (fun _ _ hop => hop.1) fun _ _ hend => hend.1

end IndexCall

/-! ## What is listed -/

/-- The accounts that a manager lists that has read nothing yet. -/
def AuthLibrary.Listed (lib : AuthLibrary) (w : AuthWorld) (accountId : String) : Prop :=
  Names (lib.storedRecords w) accountId

section Listed
variable {lib : AuthLibrary} {w : AuthWorld} {accountId : String} {m : Nat} {op : AuthOp}

theorem AuthLibrary.Listed.proper (h : lib.Listed w accountId) : trim accountId = accountId ∧ accountId ≠ "" := by
  obtain ⟨hne, record, -, rfl⟩ := CodexAccountRecord.names_normalizeAll.1 h
  exact ⟨trim_trim _, hne⟩

theorem listed_iff {records : List CodexAccountRecord} (hw : lib.recordsIn (w.secrets .accountIndex) = records) :
    lib.Listed w accountId ↔ accountId ≠ "" ∧ ∃ a, Names records a ∧ trim a = accountId := by
  rw [Listed, storedRecords, hw, CodexAccountRecord.names_normalizeAll]
  refine and_congr Iff.rfl ⟨?_, ?_⟩
  · rintro ⟨record, hrecord, ha⟩
    exact ⟨record.accountId, ⟨record, hrecord, rfl⟩, ha⟩
  · rintro ⟨a, ⟨record, hrecord, rfl⟩, ha⟩
    exact ⟨record, hrecord, ha⟩

/-- An operation that does not write the index, or that fails, leaves what is listed. -/
theorem handle_index (hop : op.writesIndex = true → w.input.fault ≠ none) :
    (AuthWorld.handle m op w).2.secrets .accountIndex = w.secrets .accountIndex := by
  cases op with
  | get => simp only [AuthWorld.handle, AuthWorld.attempt]; split <;> rfl
  | set key value | delete key => cases key with
    | accountIndex =>
      obtain ⟨error, herror⟩ := Option.ne_none_iff_exists'.1 (hop rfl)
      simp [AuthWorld.handle, AuthWorld.attempt, herror]
    | legacy | account =>
      simp only [AuthWorld.handle, AuthWorld.attempt]
      split
      · rfl
      · simp
  | _ => rfl

/-- A change of the list of those that are listed. -/
theorem listed_change (hserde : lib.serde.Lawful) {call : IndexCall} {records : List CodexAccountRecord}
    (hread : ∀ a, Names records a ↔ lib.Listed w a) (hop : lib.Writes (call.change lib records) op)
    (hfault : w.input.fault = none) :
    lib.Listed (AuthWorld.handle m op w).2 accountId ↔ if call.account = accountId then
      call.signsIn = true ∧ accountId ≠ "" else lib.Listed w accountId := by
  rw [listed_iff (recordsIn_of_writes hserde hop hfault)]
  have hlisted : (accountId ≠ "" ∧ ∃ a, lib.Listed w a ∧ trim a = accountId) ↔ lib.Listed w accountId := by
    constructor
    · rintro ⟨-, a, ha, rfl⟩
      rwa [ha.proper.1]
    · exact fun h => ⟨h.proper.2, accountId, h, h.proper.1⟩
  by_cases h : call.account = accountId
  · rw [if_pos h]
    cases call with
    | store a credentials =>
      simp only [IndexCall.change, IndexCall.signsIn, CodexAccountRecord.names_upsert, hread, or_and_right, exists_or,
        exists_eq_left', and_or_left, hlisted, true_and]
      constructor
      · rintro (hne | hlisted)
        · exact hne.1
        · exact hlisted.proper.2
      · exact fun hne => .inl ⟨hne, h⟩
    | logout a =>
      simp only [IndexCall.change, IndexCall.signsIn, CodexAccountRecord.names_filter, hread]
      refine ⟨fun ⟨_, b, ⟨hb, hne⟩, hba⟩ => absurd ?_ hne, nofun⟩
      rw [show trim a = accountId from h, ← hba, hb.proper.1]
  · rw [if_neg h]
    cases call with
    | store a credentials =>
      simp only [IndexCall.change, CodexAccountRecord.names_upsert, hread, or_and_right, exists_or, exists_eq_left',
        and_or_left, hlisted]
      exact ⟨fun hor => hor.resolve_left fun heq => h heq.2, .inr⟩
    | logout a =>
      simp only [IndexCall.change, CodexAccountRecord.names_filter, hread]
      rw [← hlisted]
      refine and_congr Iff.rfl (exists_congr fun b => ⟨fun hb => ⟨hb.1.1, hb.2⟩, fun hb => ⟨⟨hb.1, ?_⟩, hb.2⟩⟩)
      rintro rfl
      exact h (show trim a = accountId by rw [← hb.2, trim_trim])

end Listed

/-! ## Interleavings -/

abbrev IndexPool (ι : Type) : Type := Pool ι AuthWorld AuthOp.Answer (Except AuthError Unit)

section Interleavings

variable {ι : Type} (lib : AuthLibrary)

/-- The call `i` is made on the manager `managers i`. -/
def indexMachine [DecidableEq ι] (managers : ι → Nat) : Machine (IndexPool ι) ι (ι × Sigma AuthOp.Answer) :=
  Pool.machine (fun i => AuthWorld.enabled (managers i)) fun i => AuthWorld.handle (managers i)

/-- Calls that have not begun. -/
def indexCalls (w : AuthWorld) (calls : ι → IndexCall) : IndexPool ι :=
  Pool.start w fun i => ((calls i).procedure lib).run

/-- When the call `i` writes the index, the accounts that are listed are those of the list that it has read. -/
def WritesOverRead (s : IndexPool ι) (i : ι) : Prop :=
  ∀ op next, s.procs i = .call op next → op.writesIndex = true →
    ∀ records, lastRead (s.history i) = some records → ∀ a, Names records a ↔ lib.Listed s.shared a

/-- The account is listed: it was before or has been signed in, and has not been signed out. -/
def IndexKept (w : AuthWorld) (calls : ι → IndexCall) (s : IndexPool ι) : Prop :=
  ∀ a, lib.Listed s.shared a ↔
    (lib.Listed w a ∨ ∃ i, hasWritten (s.history i) = true ∧ (calls i).signsIn = true ∧ (calls i).account = a ∧ a ≠ "") ∧
      ¬ ∃ i, hasWritten (s.history i) = true ∧ (calls i).signsIn = false ∧ (calls i).account = a

variable {lib} {w : AuthWorld} {calls : ι → IndexCall} {managers : ι → Nat} {s t : IndexPool ι} {i : ι}
  {tr : List (ι × Sigma AuthOp.Answer)} [DecidableEq ι]

/-- **One operation**: a write that is over what its call has read adds the change of the call. -/
theorem index_step (hserde : lib.serde.Lawful) (hdistinct : ∀ i j, (calls i).account = (calls j).account → i = j)
    (hs : (indexMachine managers).step s i = some (t, tr)) (hover : WritesOverRead lib s i)
    (hops : ∀ op next, s.procs i = .call op next → lib.IndexOps ((calls i).change lib) (s.history i) op)
    (h : IndexKept lib w calls s) : IndexKept lib w calls t := by
  obtain ⟨op, next, hproc, -, hshared, -, hhistory, -⟩ := Pool.step_cases hs
  have hwritten (j : ι) : hasWritten (t.history j) = true ↔ hasWritten (s.history j) = true ∨
      j = i ∧ wroteIndex ⟨op, (AuthWorld.handle (managers i) op s.shared).1⟩ = true := by
    rw [hhistory]
    by_cases hj : j = i
    · subst hj
      rw [Function.update_self, hasWritten_snoc, Bool.or_eq_true]
      simp
    · rw [Function.update_of_ne hj]
      simp [hj]
  by_cases hwrites : op.writesIndex = true ∧ s.shared.input.fault = none
  · obtain ⟨hnone, records, hread, hop⟩ := hops op next hproc hwrites.1
    have hlisted (a : String) : lib.Listed (AuthWorld.handle (managers i) op s.shared).2 a ↔
        if (calls i).account = a then (calls i).signsIn = true ∧ a ≠ "" else lib.Listed s.shared a :=
      listed_change hserde (hover op next hproc hwrites.1 records hread) hop hwrites.2
    have hwrote : wroteIndex ⟨op, (AuthWorld.handle (managers i) op s.shared).1⟩ = true := by
      rcases hop with ⟨-, rfl⟩ | ⟨text, -, rfl⟩
      · rw [show AuthWorld.handle (managers i) (.delete .accountIndex) s.shared = _ from AuthWorld.attempt_ok hwrites.2]
        rfl
      · rw [show AuthWorld.handle (managers i) (.set .accountIndex text) s.shared = _ from AuthWorld.attempt_ok hwrites.2]
        rfl
    intro a
    rw [hshared, hlisted a]
    by_cases ha : (calls i).account = a
    · rw [if_pos ha]
      cases hin : (calls i).signsIn with
      | true =>
        refine ⟨fun hne => ⟨.inr ⟨i, (hwritten i).2 (.inr ⟨rfl, hwrote⟩), hin, ha, hne.2⟩, ?_⟩, fun ⟨hor, _⟩ => ⟨rfl, ?_⟩⟩
        · rintro ⟨j, -, hout, hj⟩
          rw [hdistinct j i (hj.trans ha.symm), hin] at hout
          cases hout
        · rcases hor with hbefore | ⟨-, -, -, -, hne⟩
          · exact hbefore.proper.2
          · exact hne
      | false => exact ⟨nofun, fun ⟨_, hnot⟩ => absurd ⟨i, (hwritten i).2 (.inr ⟨rfl, hwrote⟩), hin, ha⟩ hnot⟩
    · rw [if_neg ha, h a]
      have hsame (j : ι) (hj : (calls j).account = a) : hasWritten (s.history j) = true ↔ hasWritten (t.history j) = true := by
        rw [hwritten j]
        refine ⟨.inl, fun hor => hor.resolve_right fun ⟨hji, _⟩ => ha ?_⟩
        rw [← hji, hj]
      refine and_congr (or_congr Iff.rfl (exists_congr fun j => ⟨?_, ?_⟩)) (not_congr (exists_congr fun j => ⟨?_, ?_⟩))
      · exact fun ⟨hw, hin, hj, hne⟩ => ⟨(hsame j hj).1 hw, hin, hj, hne⟩
      · exact fun ⟨hw, hin, hj, hne⟩ => ⟨(hsame j hj).2 hw, hin, hj, hne⟩
      · exact fun ⟨hw, hout, hj⟩ => ⟨(hsame j hj).1 hw, hout, hj⟩
      · exact fun ⟨hw, hout, hj⟩ => ⟨(hsame j hj).2 hw, hout, hj⟩
  · -- nothing is written
    have hindex : t.shared.secrets .accountIndex = s.shared.secrets .accountIndex := by
      rw [hshared]
      exact handle_index fun hop hfault => hwrites ⟨hop, hfault⟩
    have hnone : wroteIndex ⟨op, (AuthWorld.handle (managers i) op s.shared).1⟩ = false := by
      cases hop : op.writesIndex with
      | false => exact wroteIndex_eq_false hop _
      | true =>
        obtain ⟨error, herror⟩ := Option.ne_none_iff_exists'.1 fun hfault => hwrites ⟨hop, hfault⟩
        obtain ⟨-, records, -, hop⟩ := hops op next hproc hop
        rcases hop with ⟨-, rfl⟩ | ⟨text, -, rfl⟩
        · rw [show AuthWorld.handle (managers i) (.delete .accountIndex) s.shared = _ from AuthWorld.attempt_error herror]
          rfl
        · rw [show AuthWorld.handle (managers i) (.set .accountIndex text) s.shared = _ from
            AuthWorld.attempt_error herror]
          rfl
    have hsame (j : ι) : hasWritten (t.history j) = true ↔ hasWritten (s.history j) = true := by
      rw [hwritten j, hnone]
      simp
    intro a
    rw [Listed, storedRecords, hindex]
    simp only [hsame]
    exact h a

/-- **After all calls.** When every write is over what its call has read, the index lists the accounts that were
listed before or have signed in, and have not been signed out. -/
theorem index_complete (hserde : lib.serde.Lawful) (hdistinct : ∀ i j, (calls i).account = (calls j).account → i = j)
    {as : List ι} (hr : (indexMachine managers).Run (WritesOverRead lib) (indexCalls lib w calls) as tr t)
    (hok : ∀ i, t.procs i = .ret (.ok ())) (a : String) :
    lib.Listed t.shared a ↔
      (lib.Listed w a ∨ ∃ i, (calls i).signsIn = true ∧ (calls i).account = a ∧ a ≠ "") ∧
        ¬ ∃ i, (calls i).signsIn = false ∧ (calls i).account = a := by
  have hsat : (indexCalls lib w calls).Sat (fun _ _ => True) (fun i => lib.IndexOps ((calls i).change lib))
      (fun _ h result => ∀ u, result = .ok u → hasWritten h = true) := fun i => ((calls i).index_ops lib).sat
  have hstart : IndexKept lib w calls (indexCalls lib w calls) := by
    intro a
    have hnone (i : ι) : hasWritten ((indexCalls lib w calls).history i) = false := rfl
    simp only [hnone, Bool.false_eq_true, false_and, exists_false, or_false, not_false_eq_true, and_true]
    exact Iff.rfl
  obtain ⟨hsat, hkept⟩ := Pool.sat_of_run (I := IndexKept lib w calls) hsat hstart hr (fun _ _ => trivial)
    fun hI hsat hover hs => index_step hserde hdistinct hs hover (fun op next hproc => hsat.next hproc) hI
  have hall (i : ι) : hasWritten (t.history i) = true := hsat.result (hok i) () rfl
  rw [hkept a]
  simp only [hall, true_and]

end Interleavings

/-! ## Two calls -/

section TwoCalls

def indexTexts : List (Value × String) :=
  [(metadataJson 1000, metadataText "1000"),
    (.array [CodexAccountRecord.toJson ⟨"a", none⟩], "[" ++ recordText "a" ++ "]"),
    (.array [CodexAccountRecord.toJson ⟨"b", none⟩], "[" ++ recordText "b" ++ "]"),
    (.array [CodexAccountRecord.toJson ⟨"a", none⟩, CodexAccountRecord.toJson ⟨"b", none⟩],
      "[" ++ recordText "a" ++ "," ++ recordText "b" ++ "]")]

theorem indexTexts_lawful : (AuthLibrary.ofTable indexTexts).serde.Lawful :=
  Serde.ofTable_lawful (by decide +kernel) (by decide +kernel)

/-- Two accounts sign in. -/
def storeBoth : Bool → IndexCall
  | false => .store "a" ⟨"A", "R", idTokenA, 1000⟩
  | true => .store "b" ⟨"B", "S", idTokenB, 1000⟩

theorem storeBoth_distinct (i j : Bool) (h : (storeBoth i).account = (storeBoth j).account) : i = j := by
  cases i <;> cases j <;> first | rfl | exact absurd h (by decide +kernel)

/-- A secret store that works. -/
def workingInput (_ : Nat) : AuthInput := ⟨none, .error ⟨.network, "not asked"⟩, .error ⟨.network, "not asked"⟩, 1000⟩

/-- A test of `WritesOverRead`. -/
def overReadTest (s : IndexPool Bool) (i : Bool) : Bool :=
  match s.procs i with
  | .ret _ => true
  | .call op _ => !op.writesIndex || (lastRead (s.history i)).all fun records =>
    records.map CodexAccountRecord.accountId =
      ((AuthLibrary.ofTable indexTexts).storedRecords s.shared).map CodexAccountRecord.accountId

theorem writesOverRead_of_test {s : IndexPool Bool} {i : Bool} (h : overReadTest s i = true) :
    WritesOverRead (.ofTable indexTexts) s i := by
  intro op next hproc hop records hread a
  rw [overReadTest, hproc] at h
  simp only [hop, hread, Bool.not_true, Bool.false_or, Option.all_some, decide_eq_true_eq] at h
  have hnames (l : List CodexAccountRecord) : Names l a ↔ a ∈ l.map CodexAccountRecord.accountId := by
    rw [List.mem_map]
    rfl
  rw [Listed, hnames, hnames, h]

/-- Both calls on one manager, one after the other. -/
theorem index_complete_two : ∃ (tr : List (Bool × Sigma AuthOp.Answer)) (t : IndexPool Bool),
    (indexMachine fun _ => 0).Run (WritesOverRead (.ofTable indexTexts))
        (indexCalls (.ofTable indexTexts) (.start workingInput) storeBoth)
        (List.replicate 10 false ++ List.replicate 8 true) tr t ∧
      (∀ i, t.procs i = .ret (.ok ())) ∧
      ∀ a, (AuthLibrary.ofTable indexTexts).Listed t.shared a ↔
        ((AuthLibrary.ofTable indexTexts).Listed (.start workingInput) a ∨
          ∃ i, (storeBoth i).signsIn = true ∧ (storeBoth i).account = a ∧ a ≠ "") ∧
          ¬ ∃ i, (storeBoth i).signsIn = false ∧ (storeBoth i).account = a := by
  have hexec : ((indexMachine fun _ => 0).exec overReadTest
      (indexCalls (.ofTable indexTexts) (.start workingInput) storeBoth)
      (List.replicate 10 false ++ List.replicate 8 true)).any
      (fun r => decide (∀ i, (r.1.procs i).returnedOk = true)) = true := by decide +kernel
  obtain ⟨⟨t, tr⟩, hexec, hok⟩ := (Option.any_eq_true _ _).1 hexec
  have hrun := Machine.run_of_exec (G := WritesOverRead (.ofTable indexTexts)) (fun _ _ => writesOverRead_of_test) hexec
  have hok (i : Bool) := Procedure.eq_of_returnedOk (of_decide_eq_true hok i)
  exact ⟨tr, t, hrun, hok, index_complete indexTexts_lawful storeBoth_distinct hrun hok⟩

/-- **A lost update**: both calls read the empty list, and the second write is without the first account. -/
theorem update_lost : ¬ ∀ (lib : AuthLibrary) (managers : Bool → Nat) (w : AuthWorld) (calls : Bool → IndexCall)
    (as : List Bool) (tr : List (Bool × Sigma AuthOp.Answer)) (t : IndexPool Bool), lib.serde.Lawful →
    (∀ i j, (calls i).account = (calls j).account → i = j) →
    (indexMachine managers).Run Machine.Free (indexCalls lib w calls) as tr t → (∀ i, t.procs i = .ret (.ok ())) →
    ∀ a, lib.Listed t.shared a ↔
      (lib.Listed w a ∨ ∃ i, (calls i).signsIn = true ∧ (calls i).account = a ∧ a ≠ "") ∧
        ¬ ∃ i, (calls i).signsIn = false ∧ (calls i).account = a := by
  intro hall
  have hexec : ((indexMachine fun _ => 0).exec (fun _ _ => true)
      (indexCalls (.ofTable indexTexts) (.start workingInput) storeBoth)
      (List.replicate 7 false ++ List.replicate 5 true ++ List.replicate 3 false ++ List.replicate 3 true)).any
      (fun r => decide (∀ i, (r.1.procs i).returnedOk = true) && decide
        ("a" ∉ ((AuthLibrary.ofTable indexTexts).storedRecords r.1.shared).map CodexAccountRecord.accountId)) = true := by
    decide +kernel
  obtain ⟨⟨t, tr⟩, hexec, hends⟩ := (Option.any_eq_true _ _).1 hexec
  obtain ⟨hok, hlost⟩ := Bool.and_eq_true_iff.1 hends
  have hrun := Machine.run_of_exec (G := Machine.Free) (fun _ _ _ => trivial) hexec
  have hlisted := (hall (.ofTable indexTexts) (fun _ => 0) (.start workingInput) storeBoth _ tr t indexTexts_lawful
    storeBoth_distinct hrun (fun i => Procedure.eq_of_returnedOk (of_decide_eq_true hok i)) "a").2
    ⟨.inr ⟨false, rfl, by decide +kernel, by decide⟩, fun ⟨i, hout, _⟩ => by cases i <;> cases hout⟩
  obtain ⟨record, hrecord, ha⟩ := hlisted
  exact of_decide_eq_true hlost (List.mem_map.2 ⟨record, hrecord, ha⟩)

end TwoCalls

end Aifluxon
