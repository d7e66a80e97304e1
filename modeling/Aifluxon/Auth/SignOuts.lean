import Aifluxon.Auth.TornWrites
import Aifluxon.Auth.UnderWay

/-!
# Sign-outs

A sign-out side by side with other calls of its manager, in any interleaving of their operations.

* `callMachine` : the interleavings; `AuthCall.keepsTo` : the calls about an account;
* `NothingUnderWay`, `SignsOutAlone` : a sign-out finds no refresh of the account and no migration under way;
* `OutOfReach` : nothing of the account can be read; `OutOfReach.step`, `NothingUnderWay.outOfReach` : from the first
  deletion on;
* `SignedOut`, `signedOut_step` : what a sign-out has taken away stays away, step by step;
* `signed_out`, `signed_out_before_read`, `refresh_restores` : after a sign-out.
-/

namespace Aifluxon

open AuthM AuthLibrary

/-! ## Interleavings -/

abbrev CallPool (ι : Type) : Type := Pool ι AuthWorld AuthOp.Answer (Except AuthError AuthReply)

/-- The call `i` is made on the manager `managers i`. -/
def callMachine {ι : Type} [DecidableEq ι] (managers : ι → Nat) : Machine (CallPool ι) ι (ι × Sigma AuthOp.Answer) :=
  Pool.machine (fun i => AuthWorld.enabled (managers i)) fun i => AuthWorld.handle (managers i)

/-- Calls that have not begun. -/
def authCalls {ι : Type} (lib : AuthLibrary) (w : AuthWorld) (calls : ι → AuthCall) : CallPool ι :=
  Pool.start w fun i => ((calls i).procedure lib).run

def AuthCall.signsOut (accountId : String) : AuthCall → Bool
  | logout a => trim a = accountId
  | _ => false

namespace AuthLibrary
variable (lib : AuthLibrary) (accountId : String)

/-- The text of an index has a record of the account. -/
def hasRecord (text : Option String) : Bool := (lib.recordsIn text).any fun record => record.accountId = accountId

end AuthLibrary

/-- A call that does not sign in, and signs out no other account. -/
def AuthCall.keepsTo (accountId : String) : AuthCall → Bool
  | login _ _ => false
  | logout a => trim a = accountId
  | _ => true

section SignOuts

variable {ι : Type} (lib : AuthLibrary) (accountId : String)

/-- No call has a refresh of the account or a migration under way, none has put the credentials back into the cache, and
there is nothing left to migrate. -/
structure NothingUnderWay (m : Nat) (s : CallPool ι) : Prop where
  refreshes : ∀ k, lib.refreshing (s.history k) ≠ some (accountId, true)
  migrations : ∀ k, migrating (s.history k) = none
  uncached : (s.shared.managers m).credentials accountId = none
  settled : (s.shared.managers m).migrated = true ∨ ¬ LegacyComplete s.shared

/-- The calls are about the account, and a sign-out that begins to delete its entries finds nothing under way. -/
def SignsOutAlone (m : Nat) (s : CallPool ι) (i : ι) : Prop :=
  ∀ op next, s.procs i = .call op next →
    (∀ a, op = .lockAccount a → a = accountId) ∧
      (op = .delete (lib.accountSecret accountId .accessToken) → NothingUnderWay lib accountId m s)

/-- Nothing of the account can be read, and nothing that has been read of it is under way. -/
structure OutOfReach (m : Nat) (s : CallPool ι) : Prop where
  refreshes : ∀ k, lib.refreshing (s.history k) ≠ some (accountId, true)
  uncached : (s.shared.managers m).credentials accountId = none
  deleted : s.shared.secrets (lib.accountSecret accountId .accessToken) = none
  settled : ((s.shared.managers m).migrated = true ∧ ∀ k, migrating (s.history k) = none) ∨
    ∃ kind, kind ≠ .metadata ∧ notBlank (s.shared.secrets (.legacy kind)) = none ∧
      ∀ k, ¬ HasFound [kind] (s.history k)

/-- What a sign-out of the account has taken away is not there. -/
def SignedOut (calls : ι → AuthCall) (s : CallPool ι) : Prop :=
  ∀ j, (calls j).signsOut accountId = true →
    (∀ kind, hasDeleted (lib.accountSecret accountId kind) (s.history j) = true →
      s.shared.secrets (lib.accountSecret accountId kind) = none) ∧
    (hasWritten (s.history j) = true → lib.hasRecord accountId (s.shared.secrets .accountIndex) = false)

variable {lib accountId} {calls : ι → AuthCall} {managers : ι → Nat} {s t : CallPool ι} {i : ι}
  {tr : List (ι × Sigma AuthOp.Answer)} {m : Nat} {w : AuthWorld} {op : AuthOp} {key : SecretKey}

/-- What an entry is after an operation. -/
theorem secrets_handle (m : Nat) (op : AuthOp) (w : AuthWorld) (key : SecretKey) :
    (AuthWorld.handle m op w).2.secrets key = w.secrets key ∨
    op = .delete key ∧ (AuthWorld.handle m op w).2.secrets key = none ∨
    ∃ value, op = .set key value ∧ w.input.fault = none ∧ (AuthWorld.handle m op w).2.secrets key = some value := by
  cases op with
  | get => simp only [AuthWorld.handle, AuthWorld.attempt]; split <;> exact .inl rfl
  | set key' value =>
    simp only [AuthWorld.handle, AuthWorld.attempt]
    split
    · exact .inl rfl
    · rename_i hfault
      by_cases hkey : key = key'
      · subst hkey
        exact .inr (.inr ⟨value, rfl, hfault, by simp⟩)
      · exact .inl (by simp [hkey])
  | delete key' =>
    simp only [AuthWorld.handle, AuthWorld.attempt]
    split
    · exact .inl rfl
    · by_cases hkey : key = key'
      · subst hkey
        exact .inr (.inl ⟨rfl, by simp⟩)
      · exact .inl (by simp [hkey])
  | _ => exact .inl rfl

/-- An entry that an operation deletes is gone. -/
theorem secrets_of_deleted (h : deletedEntry key ⟨op, (AuthWorld.handle m op w).1⟩ = true) :
    (AuthWorld.handle m op w).2.secrets key = none := by
  cases op with
  | delete key' =>
    cases hfault : w.input.fault with
    | some error =>
      rw [show AuthWorld.handle m (.delete key') w = _ from AuthWorld.attempt_error hfault] at h
      cases h
    | none =>
      rw [show AuthWorld.handle m (.delete key') w = _ from AuthWorld.attempt_ok hfault] at h ⊢
      simp only [deletedEntry, decide_eq_true_eq] at h
      simp [h]
  | _ => cases h

theorem op_of_deleted {r : op.Answer} (h : deletedEntry key ⟨op, r⟩ = true) : op = .delete key := by
  cases op with
  | delete key' =>
    cases r with
    | ok =>
      simp only [deletedEntry, decide_eq_true_eq] at h
      rw [h]
    | error => cases h
  | _ => cases h

theorem fault_of_wrote (h : wroteIndex ⟨op, (AuthWorld.handle m op w).1⟩ = true) :
    op.writesIndex = true ∧ w.input.fault = none := by
  cases hop : op.writesIndex with
  | false =>
    rw [wroteIndex_eq_false hop] at h
    cases h
  | true =>
    refine ⟨rfl, ?_⟩
    cases hfault : w.input.fault with
    | none => rfl
    | some error =>
      cases op with
      | set key value =>
        rw [show AuthWorld.handle m (.set key value) w = _ from AuthWorld.attempt_error hfault] at h
        cases key <;> cases h
      | delete key =>
        rw [show AuthWorld.handle m (.delete key) w = _ from AuthWorld.attempt_error hfault] at h
        cases key <;> cases h
      | _ => cases hop

theorem hasRecord_of_writes (hserde : lib.serde.Lawful) {records : List CodexAccountRecord}
    (hop : lib.Writes (records.filter fun record => record.accountId ≠ accountId) op) (hfault : w.input.fault = none) :
    lib.hasRecord accountId ((AuthWorld.handle m op w).2.secrets .accountIndex) = false := by
  rw [hasRecord, recordsIn_of_writes hserde hop hfault, List.any_eq_false]
  intro record hrecord
  simpa using (List.mem_filter.1 hrecord).2

variable [DecidableEq ι]

/-- An event of a history after a step. -/
theorem any_step {p : Sigma AuthOp.Answer → Bool} {next : op.Answer → Procedure AuthOp.Answer (Except AuthError AuthReply)}
    (hs : (callMachine managers).step s i = some (t, tr)) (hproc : s.procs i = .call op next) {j : ι}
    (hany : (t.history j).any p = true) :
    (s.history j).any p = true ∨ j = i ∧ p ⟨op, (AuthWorld.handle (managers i) op s.shared).1⟩ = true := by
  obtain ⟨op', next', hproc', -, -, -, hhistory, -⟩ := Pool.step_cases hs
  rw [hproc] at hproc'
  cases hproc'
  rw [hhistory] at hany
  by_cases hji : j = i
  · subst hji
    rw [Function.update_self, List.any_append, Bool.or_eq_true, List.any_cons, List.any_nil, Bool.or_false] at hany
    exact hany.imp id fun hlast => ⟨rfl, hlast⟩
  · rw [Function.update_of_ne hji] at hany
    exact .inl hany

/-- **One operation**: what has been taken away stays away. -/
theorem signedOut_step (hserde : lib.serde.Lawful) (hs : (callMachine managers).step s i = some (t, tr))
    (hspares : (calls i).signsOut accountId = false → ∀ op next, s.procs i = .call op next →
      ∀ j, (calls j).signsOut accountId = true →
        (∀ kind value, op = .set (lib.accountSecret accountId kind) value →
          hasDeleted (lib.accountSecret accountId kind) (s.history j) = false) ∧
        (op.writesIndex = true → hasWritten (s.history j) = false))
    (hops : (calls i).signsOut accountId = true → ∀ op next, s.procs i = .call op next →
      lib.IndexOps (fun records => records.filter fun record => record.accountId ≠ accountId) (s.history i) op ∧
        op.setsEntry = false) (h : SignedOut lib accountId calls s) : SignedOut lib accountId calls t := by
  obtain ⟨op, next, hproc, -, hshared, -, -, -⟩ := Pool.step_cases hs
  intro j hj
  obtain ⟨hentries, hindex⟩ := h j hj
  refine ⟨fun kind hdeleted => ?_, fun hwritten => ?_⟩
  · rw [hshared]
    rcases any_step hs hproc hdeleted with hbefore | ⟨-, hlast⟩
    · have hbefore : hasDeleted (lib.accountSecret accountId kind) (s.history j) = true := hbefore
      rcases secrets_handle (managers i) op s.shared (lib.accountSecret accountId kind) with
        hsame | ⟨-, hnone⟩ | ⟨value, rfl, -, -⟩
      · rw [hsame, hentries kind hbefore]
      · exact hnone
      · -- neither a sign-out nor another call sets the entry
        cases hi : (calls i).signsOut accountId with
        | true => exact absurd (hops hi _ next hproc).2 (by simp [AuthLibrary.accountSecret, AuthOp.setsEntry])
        | false =>
          have hrestores := (hspares hi _ next hproc j hj).1 kind value rfl
          rw [hbefore] at hrestores
          cases hrestores
    · exact secrets_of_deleted hlast
  · -- a sign-out writes a list without the account
    have hout (hi : (calls i).signsOut accountId = true) (hop : op.writesIndex = true) (hfault : s.shared.input.fault = none) :
        lib.hasRecord accountId (t.shared.secrets .accountIndex) = false := by
      obtain ⟨-, records, -, hwrites⟩ := (hops hi op next hproc).1 hop
      rw [hshared]
      exact hasRecord_of_writes hserde hwrites hfault
    rcases any_step hs hproc hwritten with hbefore | ⟨rfl, hlast⟩
    · have hbefore : hasWritten (s.history j) = true := hbefore
      rcases secrets_handle (managers i) op s.shared .accountIndex with hsame | ⟨-, hnone⟩ | ⟨value, rfl, hfault, hvalue⟩
      · rw [hshared, hsame, hindex hbefore]
      · rw [hshared, hnone]
        rfl
      · cases hi : (calls i).signsOut accountId with
        | true => exact hout hi rfl hfault
        | false =>
          have hrestores := (hspares hi _ next hproc j hj).2 rfl
          rw [hbefore] at hrestores
          cases hrestores
    · obtain ⟨hop, hfault⟩ := fault_of_wrote hlast
      exact hout hj hop hfault

/-! ### Nothing is restored -/

/-- An operation that sets no entry but the index, and leaves the credentials of the account out of the cache. -/
def LeavesOut (accountId : String) : AuthOp → Prop
  | .set (.account _ _) _ | .set (.legacy _) _ => False
  | .cacheCredentials a _ => a ≠ accountId
  | _ => True

omit [DecidableEq ι] in
/-- A call that locks the account only has nothing to store. -/
theorem OutOfReach.mayStore (hout : OutOfReach lib accountId m s)
    (hlocks : ∀ a read, lib.refreshing (s.history i) = some (a, read) → a = accountId) : ¬ lib.MayStore (s.history i) := by
  rintro (⟨a, ha⟩ | hfound)
  · obtain rfl := hlocks a true ha
    exact hout.refreshes i ha
  · rcases hout.settled with ⟨-, hnone⟩ | ⟨kind, hkind, -, hnone⟩
    · obtain ⟨found, hmigrating, -⟩ := hfound
      rw [hnone] at hmigrating
      cases hmigrating
    · refine hnone i (hfound.mono fun kind' hkind' => ?_)
      rw [List.mem_singleton.1 hkind']
      cases kind with
      | metadata => exact absurd rfl hkind
      | _ => simp

theorem answer_cached {credentials : CodexCredentials}
    (he : (⟨op, (AuthWorld.handle m op w).1⟩ : Sigma AuthOp.Answer) = ⟨.cachedCredentials accountId, some credentials⟩) :
    (w.managers m).credentials accountId = some credentials := by
  obtain ⟨rfl, hr⟩ := Sigma.mk.inj_iff.1 he
  exact eq_of_heq hr

theorem answer_get {text : String}
    (he : (⟨op, (AuthWorld.handle m op w).1⟩ : Sigma AuthOp.Answer) = ⟨.get key, .ok (some text)⟩) :
    w.secrets key = some text := by
  obtain ⟨rfl, hr⟩ := Sigma.mk.inj_iff.1 he
  have hread := eq_of_heq hr
  simp only [AuthWorld.handle, AuthWorld.attempt] at hread
  split at hread
  · cases hread
  · exact Except.ok.inj hread

theorem answer_lock (he : (⟨op, (AuthWorld.handle m op w).1⟩ : Sigma AuthOp.Answer) = ⟨.lockMigrated, false⟩) :
    (w.managers m).migrated = false := by
  obtain ⟨rfl, hr⟩ := Sigma.mk.inj_iff.1 he
  exact eq_of_heq hr

theorem handle_uncached (hop : LeavesOut accountId op) (h : (w.managers m).credentials accountId = none) :
    ((AuthWorld.handle m op w).2.managers m).credentials accountId = none := by
  cases op with
  | get | set | delete =>
    simp only [AuthWorld.handle, AuthWorld.attempt]
    split <;> exact h
  | cacheCredentials a credentials =>
    have hne : accountId ≠ a := Ne.symm hop
    simp [AuthWorld.handle, hne, h]
  | removeCredentials a =>
    by_cases ha : accountId = a <;> simp [AuthWorld.handle, ha, h]
  | _ => simp [AuthWorld.handle, h]

theorem handle_migrated (h : (w.managers m).migrated = true) :
    ((AuthWorld.handle m op w).2.managers m).migrated = true := by
  by_cases hop : op = .setMigrated
  · subst hop
    simp [AuthWorld.handle]
  · rw [(handle_frame m op w hop).2.1, h]

theorem handle_absent (hop : LeavesOut accountId op) (hkey : key ≠ .accountIndex) {p : Option String → Prop}
    (hnone : p none) (h : p (w.secrets key)) : p ((AuthWorld.handle m op w).2.secrets key) := by
  rcases secrets_handle m op w key with hsame | ⟨-, hdeleted⟩ | ⟨value, rfl, -, -⟩
  · rwa [hsame]
  · rwa [hdeleted]
  · cases key with
    | accountIndex => exact absurd rfl hkey
    | legacy | account => exact hop.elim

/-- **What is out of reach stays so**, if nothing is set. -/
theorem OutOfReach.step (hout : OutOfReach lib accountId m s)
    (hs : (callMachine fun _ => m).step s i = some (t, tr))
    (hop : ∀ op next, s.procs i = .call op next → LeavesOut accountId op) : OutOfReach lib accountId m t := by
  obtain ⟨op, next, hproc, -, hshared, -, hhistory, -⟩ := Pool.step_cases hs
  have hleaves := hop op next hproc
  have hself : t.history i = s.history i ++ [⟨op, (AuthWorld.handle m op s.shared).1⟩] := by
    rw [hhistory, Function.update_self]
  have hother {k : ι} (hk : k ≠ i) : t.history k = s.history k := by rw [hhistory, Function.update_of_ne hk]
  refine ⟨fun k => ?_, ?_, ?_, ?_⟩
  · by_cases hk : k = i
    · subst hk
      rw [hself, refreshing_snoc]
      intro hread
      rcases refreshingAfter_read hread with hbefore | ⟨credentials, he⟩ | ⟨text, he⟩
      · exact hout.refreshes k hbefore
      · exact absurd (answer_cached he) (by rw [hout.uncached]; nofun)
      · exact absurd (answer_get he) (by rw [hout.deleted]; nofun)
    · rw [hother hk]
      exact hout.refreshes k
  · rw [hshared]
    exact handle_uncached hleaves hout.uncached
  · rw [hshared]
    have hkey : lib.accountSecret accountId .accessToken ≠ .accountIndex := nofun
    exact handle_absent hleaves hkey (p := fun entry => entry = none) rfl hout.deleted
  · rcases hout.settled with ⟨hmigrated, hnone⟩ | ⟨kind, hkind, hblank, hnone⟩
    · refine .inl ⟨by rw [hshared]; exact handle_migrated hmigrated, fun k => ?_⟩
      by_cases hk : k = i
      · subst hk
        rw [hself, migrating_snoc, Option.eq_none_iff_forall_ne_some]
        intro found hfound
        rcases migratingAfter_some hfound with ⟨found', hbefore⟩ | he
        · rw [hnone] at hbefore
          cases hbefore
        · rw [answer_lock he] at hmigrated
          cases hmigrated
      · rw [hother hk]
        exact hnone k
    · refine .inr ⟨kind, hkind, ?_, fun k => ?_⟩
      · rw [hshared]
        have hkey : SecretKey.legacy kind ≠ .accountIndex := nofun
        exact handle_absent hleaves hkey (p := fun entry => notBlank entry = none) rfl hblank
      · by_cases hk : k = i
        · subst hk
          rw [hself]
          intro hfound
          rcases hasFound_snoc hfound with hbefore | ⟨text, he, htext⟩
          · exact hnone k hbefore
          · rw [answer_get he] at hblank
            simp [notBlank, Option.filter_some, htext] at hblank
        · rw [hother hk]
          exact hnone k

/-- **The first deletion** of a sign-out puts the account out of reach, if nothing is under way. -/
theorem NothingUnderWay.outOfReach (hnone : NothingUnderWay lib accountId m s) (hworking : s.shared.Working)
    (hs : (callMachine fun _ => m).step s i = some (t, tr)) {next : Except AuthError Unit → Procedure AuthOp.Answer _}
    (hproc : s.procs i = .call (.delete (lib.accountSecret accountId .accessToken)) next) :
    OutOfReach lib accountId m t := by
  obtain ⟨op, next', hproc', -, hshared, -, hhistory, -⟩ := Pool.step_cases hs
  rw [hproc] at hproc'
  cases hproc'
  have hsteady : (AuthOp.delete (lib.accountSecret accountId .accessToken)).Steady := trivial
  have hleaves : LeavesOut accountId (.delete (lib.accountSecret accountId .accessToken)) := trivial
  have hsame (k : ι) : SameUnderWay lib (s.history k) (t.history k) := by
    rw [hhistory]
    by_cases hk : k = i
    · subst hk
      rw [Function.update_self]
      exact hsteady.same _
    · rw [Function.update_of_ne hk]
      exact ⟨rfl, rfl⟩
  have hmigrating (k : ι) : migrating (t.history k) = none := (hsame k).2.trans (hnone.migrations k)
  refine ⟨fun k => ?_, ?_, ?_, ?_⟩
  · rw [(hsame k).1]
    exact hnone.refreshes k
  · rw [hshared]
    exact handle_uncached hleaves hnone.uncached
  · rw [hshared, show AuthWorld.handle m (.delete _) s.shared = _ from AuthWorld.attempt_ok (hworking _)]
    simp
  · rw [hshared]
    rcases hnone.settled with hmigrated | hlegacy
    · exact .inl ⟨handle_migrated hmigrated, hmigrating⟩
    · unfold LegacyComplete at hlegacy
      push Not at hlegacy
      obtain ⟨kind, hkind, hblank⟩ := hlegacy
      have hkey : SecretKey.legacy kind ≠ .accountIndex := nofun
      refine .inr ⟨kind, hkind, handle_absent hleaves hkey (p := fun entry => notBlank entry = none) rfl hblank, ?_⟩
      rintro k ⟨found, hfound, -⟩
      rw [hmigrating] at hfound
      cases hfound

/-! ### Sign-outs -/

/-- A deletion does not fail. -/
def deletes : (op : AuthOp) → op.Answer → Prop
  | .delete _, r => r = .ok ()
  | _, _ => True

/-- A sign-out deletes the access token before the other entries, and before it writes the index. -/
def SignOutOps (lib : AuthLibrary) (accountId : String) (h : AuthHistory) (op : AuthOp) : Prop :=
  LeavesOut accountId op ∧
    (∀ kind, op = .delete (lib.accountSecret accountId kind) → kind = .accessToken ∨
      hasDeleted (lib.accountSecret accountId .accessToken) h = true) ∧
    (op.writesIndex = true → hasDeleted (lib.accountSecret accountId .accessToken) h = true)

omit [DecidableEq ι] in
theorem logout_ops : Meets deletes (SignOutOps lib (trim accountId)) (fun _ _ => True) (lib.logout accountId) [] := by
  have hdelete (h : AuthHistory) (hdeleted : hasDeleted (lib.accountSecret (trim accountId) .accessToken) h = true)
      (kind : CredentialKind) : SignOutOps lib (trim accountId) h (.delete (lib.accountSecret (trim accountId) kind)) :=
    ⟨trivial, fun _ _ => .inr hdeleted, fun _ => hdeleted⟩
  have hkinds (kinds : List CredentialKind) (firstError : Option AuthError) {h : AuthHistory}
      (hdeleted : hasDeleted (lib.accountSecret (trim accountId) .accessToken) h = true) :
      Meets deletes (SignOutOps lib (trim accountId))
        (fun h' _ => hasDeleted (lib.accountSecret (trim accountId) .accessToken) h' = true)
        (lib.deleteKinds (trim accountId) kinds firstError) h := by
    induction kinds generalizing firstError h with
    | nil => cases firstError with
      | none => exact meets_pure hdeleted
      | some error => exact meets_throw
    | cons kind kinds ih =>
      refine ⟨⟨hdelete h hdeleted kind, fun r _ => ?_⟩⟩
      have hafter : hasDeleted (lib.accountSecret (trim accountId) .accessToken)
          (h ++ [⟨.delete (lib.accountSecret (trim accountId) kind), r⟩]) = true := by
        rw [hasDeleted_snoc, hdeleted, Bool.true_or]
      cases r with
      | ok => exact (ih _ hafter).sat
      | error error => exact (ih _ hafter).sat
  unfold logout
  split
  · exact meets_throw
  · refine Meets.bind (Q := fun h _ => hasDeleted (lib.accountSecret (trim accountId) .accessToken) h = true) ?_
      fun h _ hdeleted => ?_
    · refine Meets.bind (Q := fun _ _ => True) (meets_perform (.removeCredentials (trim accountId))
        ⟨trivial, fun _ hop => AuthOp.noConfusion hop, fun hindex => absurd hindex Bool.false_ne_true⟩
        fun _ _ => trivial) fun h _ _ => ?_
      refine ⟨⟨⟨trivial, fun kind hkind => ?_, fun hindex => absurd hindex Bool.false_ne_true⟩, fun r hr => ?_⟩⟩
      · exact .inl (SecretKey.account.inj (AuthOp.delete.inj hkind)).2.symm
      · obtain rfl : r = .ok () := hr
        exact (hkinds [.refreshToken, .idToken, .metadata] none (by simp [deletedEntry])).sat
    · have hindex : Performs (fun op => LeavesOut (trim accountId) op ∧
          ∀ kind, op ≠ .delete (lib.accountSecret (trim accountId) kind)) (lib.removeAccountRecord (trim accountId)) := by
        refine removeAccountRecord_performs _ fun op hindex _ => ?_
        cases op with
        | set key | delete key => cases key with
          | accountIndex =>
            refine ⟨trivial, fun kind hop => ?_⟩
            cases hop
          | legacy | account => exact hindex.elim
        | get | cachedRecords | cacheRecords =>
          refine ⟨trivial, fun kind hop => ?_⟩
          cases hop
        | _ => exact hindex.elim
      refine ⟨((hindex.meets h).sat.restrict.keeping
        (F := fun h => hasDeleted (lib.accountSecret (trim accountId) .accessToken) h = true) ?_ hdeleted).mono ?_
        fun _ _ _ _ _ => trivial⟩
      · intro h' e hbefore
        rw [hasDeleted_snoc, hbefore, Bool.true_or]
      · rintro h' op ⟨⟨hleaves, hnot⟩, hbefore⟩
        exact ⟨hleaves, fun kind hop => absurd hop (hnot kind), fun _ => hbefore⟩

/-! ### Every run -/

/-- What every step of calls that keep to the account keeps. -/
structure SignOutInv (lib : AuthLibrary) (accountId : String) (m : Nat) (calls : ι → AuthCall) (s : CallPool ι) : Prop where
  working : s.shared.Working
  locks : ∀ k a read, lib.refreshing (s.history k) = some (a, read) → a = accountId
  first : ∀ j, (calls j).signsOut accountId = true →
    (∃ kind, hasDeleted (lib.accountSecret accountId kind) (s.history j) = true) ∨ hasWritten (s.history j) = true →
      hasDeleted (lib.accountSecret accountId .accessToken) (s.history j) = true
  out : ∀ j, (calls j).signsOut accountId = true →
    hasDeleted (lib.accountSecret accountId .accessToken) (s.history j) = true → OutOfReach lib accountId m s
  gone : SignedOut lib accountId calls s

/-- What a call may do: a sign-out writes the index without the account, and every other call is guarded. -/
def CallOps (lib : AuthLibrary) (accountId : String) (call : AuthCall) (h : AuthHistory) (op : AuthOp) : Prop :=
  (call.signsOut accountId = true →
    (lib.IndexOps (fun records => records.filter fun record => record.accountId ≠ accountId) h op ∧ op.setsEntry = false) ∧
      SignOutOps lib accountId h op) ∧
    (call.signsOut accountId = false → lib.Guarded h op)

omit [DecidableEq ι] in
theorem callOps {call : AuthCall} (hcall : call.keepsTo accountId = true) :
    Meets deletes (CallOps lib accountId call) (fun h _ => call.signsOut accountId = true → hasWritten h = true ∧
      ∀ kind, hasDeleted (lib.accountSecret accountId kind) h = true) (call.procedure lib) [] := by
  cases call with
  | logout a =>
    obtain rfl : trim a = accountId := of_decide_eq_true hcall
    have hboth := (logout_index (R := deletes)).and (@logout_ops lib a)
    refine (hboth.mono (fun h op hop => ⟨fun _ => hop, fun hnot => ?_⟩) fun h _ hend => hend.1).map fun h _ hend _ => hend
    simp [AuthCall.signsOut] at hnot
  | login redirectUri verifier => cases hcall
  | _ => exact ⟨((procedure_guarded rfl).sat.mono (fun h op hop => ⟨nofun, fun _ => hop⟩) fun _ _ _ _ _ => nofun).restrict⟩

omit [DecidableEq ι] in
/-- A call that finds the account out of reach puts nothing back. -/
theorem CallOps.leavesOut {call : AuthCall} (hops : CallOps lib accountId call (s.history i) op)
    (hmay : ¬ lib.MayStore (s.history i)) :
    LeavesOut accountId op ∧ (call.signsOut accountId = false → op.writesIndex = false) := by
  cases hcall : call.signsOut accountId with
  | true => exact ⟨(hops.1 hcall).2.1, nofun⟩
  | false =>
    have hguarded := hops.2 hcall
    cases op with
    | set key value => cases key with
      | legacy => exact hguarded.elim
      | accountIndex | account => exact absurd hguarded hmay
    | delete key => cases key with
      | accountIndex => exact absurd hguarded hmay
      | legacy => exact ⟨trivial, fun _ => rfl⟩
      | account => exact hguarded.elim
    | cacheCredentials a => exact absurd (.inl ⟨a, hguarded⟩) hmay
    | _ => exact ⟨trivial, fun _ => rfl⟩

/-- **One operation** of a call that keeps to the account. -/
theorem SignOutInv.step (hserde : lib.serde.Lawful) (hinv : SignOutInv lib accountId m calls s)
    {Q : ι → AuthHistory → Except AuthError AuthReply → Prop}
    (hsat : s.Sat deletes (fun i => CallOps lib accountId (calls i)) Q)
    (halone : SignsOutAlone lib accountId m s i)
    (hs : (callMachine fun _ => m).step s i = some (t, tr)) : SignOutInv lib accountId m calls t := by
  obtain ⟨op, next, hproc, -, hshared, -, hhistory, -⟩ := Pool.step_cases hs
  have hops := hsat.next hproc
  obtain ⟨hlock, hfirst⟩ := halone op next hproc
  -- once the access token has been deleted, nothing is put back
  have hleaves (hout : OutOfReach lib accountId m s) := hops.leavesOut (hout.mayStore (hinv.locks i))
  refine ⟨fun n => ?_, fun k a read hread => ?_, fun j hj hafter => ?_, fun j hj hdeleted => ?_, ?_⟩
  · rw [hshared, inputs_handle]
    exact hinv.working n
  · rw [hhistory] at hread
    by_cases hk : k = i
    · subst hk
      rw [Function.update_self, refreshing_snoc] at hread
      rcases refreshingAfter_account hread with ⟨read', hbefore⟩ | he
      · exact hinv.locks k a read' hbefore
      · exact hlock a (Sigma.mk.inj_iff.1 he).1
    · rw [Function.update_of_ne hk] at hread
      exact hinv.locks k a read hread
  · have hmono (hbefore : hasDeleted (lib.accountSecret accountId .accessToken) (s.history j) = true) :
        hasDeleted (lib.accountSecret accountId .accessToken) (t.history j) = true := by
      rw [hhistory]
      by_cases hji : j = i
      · subst hji
        rw [Function.update_self, hasDeleted_snoc, hbefore, Bool.true_or]
      · rw [Function.update_of_ne hji, hbefore]
    rcases hafter with ⟨kind, hdeleted⟩ | hwritten
    · rcases any_step hs hproc hdeleted with hbefore | ⟨rfl, hlast⟩
      · exact hmono (hinv.first j hj (.inl ⟨kind, hbefore⟩))
      · rcases (hops.1 hj).2.2.1 kind (op_of_deleted hlast) with rfl | hbefore
        · exact hdeleted
        · exact hmono hbefore
    · rcases any_step hs hproc hwritten with hbefore | ⟨rfl, hlast⟩
      · exact hmono (hinv.first j hj (.inr hbefore))
      · exact hmono ((hops.1 hj).2.2.2 (fault_of_wrote hlast).1)
  · rcases any_step hs hproc hdeleted with hbefore | ⟨-, hlast⟩
    · have hout := hinv.out j hj hbefore
      refine hout.step hs fun op' next' hproc' => ?_
      rw [hproc] at hproc'
      cases hproc'
      exact (hleaves hout).1
    · obtain rfl := op_of_deleted hlast
      exact (hfirst rfl).outOfReach hinv.working hs hproc
  · refine signedOut_step hserde hs (fun hi op' next' hproc' j hj => ?_) (fun hi op' next' hproc' => ?_) hinv.gone
    · rw [hproc] at hproc'
      cases hproc'
      refine ⟨fun kind value hop => ?_, fun hwrites => ?_⟩
      · rw [Bool.eq_false_iff]
        intro hdeleted
        have hset := (hleaves (hinv.out j hj (hinv.first j hj (.inl ⟨kind, hdeleted⟩)))).1
        rw [hop] at hset
        exact hset
      · rw [Bool.eq_false_iff]
        intro hwritten
        have hnot := (hleaves (hinv.out j hj (hinv.first j hj (.inr hwritten)))).2 hi
        rw [hwrites] at hnot
        cases hnot
    · rw [hproc] at hproc'
      cases hproc'
      exact (hops.1 hi).1

/-- **After a sign-out** of an account that finds no refresh of it and no migration under way, the account has no entry and
no record: no other call restores it. -/
theorem signed_out (hserde : lib.serde.Lawful) (hworking : w.Working)
    (hcalls : ∀ i, (calls i).keepsTo accountId = true) {as : List ι}
    (hr : (callMachine fun _ => m).Run (SignsOutAlone lib accountId m) (authCalls lib w calls) as tr t)
    (hout : (calls i).signsOut accountId = true) {reply : AuthReply} (hok : t.procs i = .ret (.ok reply)) :
    (∀ kind, t.shared.secrets (lib.accountSecret accountId kind) = none) ∧
      lib.hasRecord accountId (t.shared.secrets .accountIndex) = false := by
  have hsat : (authCalls lib w calls).Sat deletes _ _ := fun i => (callOps (hcalls i)).sat
  have hstart : SignOutInv lib accountId m calls (authCalls lib w calls) :=
    ⟨hworking, nofun, fun _ _ h => by simp [authCalls, Pool.start, hasDeleted, hasWritten] at h, fun _ _ => nofun,
      fun _ _ => ⟨fun _ => nofun, nofun⟩⟩
  have hanswer (s : CallPool ι) (op : AuthOp) (hinv : SignOutInv lib accountId m calls s) :
      deletes op (AuthWorld.handle m op s.shared).1 := by
    cases op with
    | delete key =>
      rw [show AuthWorld.handle m (.delete key) s.shared = _ from AuthWorld.attempt_ok (hinv.working _)]
      exact rfl
    | _ => trivial
  obtain ⟨hsat, hinv⟩ := Pool.sat_of_run (I := SignOutInv lib accountId m calls) hsat hstart hr
    (fun hinv _ => hanswer _ _ hinv) fun hinv hsat halone hs => hinv.step hserde hsat halone hs
  obtain ⟨hwritten, hdeleted⟩ := hsat.result hok reply rfl hout
  exact ⟨fun kind => (hinv.gone i hout).1 kind (hdeleted kind), (hinv.gone i hout).2 hwritten⟩

end SignOuts

/-! ## A refresh under way -/

section Refresh

/-- A refresh of the account `a`, and its sign-out. -/
def refreshAndSignOut : Bool → AuthCall
  | false => .forceRefresh "a"
  | true => .logout "a"

/-- The account `a` is signed in, no call of the secret store fails, and the token server answers. -/
def renewedWorld : AuthWorld := .holding (signedInA (.ofTable renewalTexts)) fun _ =>
  ⟨none, .ok ⟨200, answerText idTokenA "A2" "R2"⟩, .ok "code", 2000⟩

/-- A test of `SignsOutAlone`. -/
def aloneTest (s : CallPool Bool) (i : Bool) : Bool :=
  match s.procs i with
  | .call (.lockAccount a) _ => a = "a"
  | .call (.delete (.account _ .accessToken)) _ =>
    (∀ k, (AuthLibrary.ofTable renewalTexts).refreshing (s.history k) ≠ some ("a", true) ∧ migrating (s.history k) = none) ∧
      ((s.shared.managers 0).credentials "a").isNone ∧ (s.shared.managers 0).migrated
  | _ => true

theorem signsOutAlone_of_test {s : CallPool Bool} {i : Bool} (h : aloneTest s i = true) :
    SignsOutAlone (.ofTable renewalTexts) "a" 0 s i := by
  intro op next hproc
  rw [aloneTest, hproc] at h
  constructor
  · rintro a rfl
    exact of_decide_eq_true h
  · rintro rfl
    obtain ⟨hcalls, hcache, hmigrated⟩ := of_decide_eq_true h
    exact ⟨fun k => (hcalls k).1, fun k => (hcalls k).2, Option.isNone_iff_eq_none.1 hcache, .inl hmigrated⟩

theorem signsOut_a : (refreshAndSignOut true).signsOut "a" = true := by decide +kernel

theorem renewalTexts_lawful : (AuthLibrary.ofTable renewalTexts).serde.Lawful :=
  Serde.ofTable_lawful (by decide +kernel) (by decide +kernel)

/-- The refresh has the lock of the account and has read nothing of it yet when the account is signed out: it fails. -/
theorem signed_out_before_read : ∃ (tr : List (Bool × Sigma AuthOp.Answer)) (t : CallPool Bool),
    (callMachine fun _ => 0).Run (SignsOutAlone (.ofTable renewalTexts) "a" 0)
        (authCalls (.ofTable renewalTexts) renewedWorld refreshAndSignOut)
        (List.replicate 10 false ++ List.replicate 8 true ++ List.replicate 3 false) tr t ∧
      (∃ reply, t.procs true = .ret (.ok reply)) ∧
      (∀ kind, t.shared.secrets ((AuthLibrary.ofTable renewalTexts).accountSecret "a" kind) = none) ∧
      (AuthLibrary.ofTable renewalTexts).hasRecord "a" (t.shared.secrets .accountIndex) = false := by
  have hexec : ((callMachine fun _ => 0).exec aloneTest
      (authCalls (.ofTable renewalTexts) renewedWorld refreshAndSignOut)
      (List.replicate 10 false ++ List.replicate 8 true ++ List.replicate 3 false)).any
      (fun r => (r.1.procs true).returnedOk) = true := by decide +kernel
  obtain ⟨⟨t, tr⟩, hexec, hok⟩ := (Option.any_eq_true _ _).1 hexec
  have hrun := Machine.run_of_exec (G := SignsOutAlone (.ofTable renewalTexts) "a" 0)
    (fun _ _ => signsOutAlone_of_test) hexec
  obtain ⟨reply, hreply⟩ := Procedure.exists_of_returnedOk hok
  have hcalls : ∀ i, (refreshAndSignOut i).keepsTo "a" = true := by decide +kernel
  exact ⟨tr, t, hrun, ⟨reply, hreply⟩, signed_out renewalTexts_lawful (fun _ => rfl) hcalls hrun signsOut_a hreply⟩

/-- **A refresh restores the account**: it has read the credentials when the account is signed out, and stores the
new ones afterwards. -/
theorem refresh_restores : ¬ ∀ (lib : AuthLibrary) (accountId : String) (m : Nat) (w : AuthWorld)
    (calls : Bool → AuthCall) (as : List Bool) (tr : List (Bool × Sigma AuthOp.Answer)) (t : CallPool Bool) (i : Bool),
    lib.serde.Lawful → w.Working → (∀ i, (calls i).keepsTo accountId = true) →
    (callMachine fun _ => m).Run Machine.Free (authCalls lib w calls) as tr t → (calls i).signsOut accountId = true →
    (∀ k, ∃ reply, t.procs k = .ret (.ok reply)) →
    (∀ kind, t.shared.secrets (lib.accountSecret accountId kind) = none) ∧
      lib.hasRecord accountId (t.shared.secrets .accountIndex) = false := by
  intro hall
  have hexec : ((callMachine fun _ => 0).exec (fun _ _ => true)
      (authCalls (.ofTable renewalTexts) renewedWorld refreshAndSignOut)
      (List.replicate 18 false ++ List.replicate 8 true ++ List.replicate 9 false)).any
      (fun r => decide (∀ i, (r.1.procs i).returnedOk = true) &&
        (AuthLibrary.ofTable renewalTexts).hasRecord "a" (r.1.shared.secrets .accountIndex)) = true := by decide +kernel
  obtain ⟨⟨t, tr⟩, hexec, hends⟩ := (Option.any_eq_true _ _).1 hexec
  obtain ⟨hok, hthere⟩ := Bool.and_eq_true_iff.1 hends
  have hrun := Machine.run_of_exec (G := Machine.Free) (fun _ _ _ => trivial) hexec
  have hreplies (k : Bool) : ∃ reply, t.procs k = .ret (.ok reply) :=
    Procedure.exists_of_returnedOk (of_decide_eq_true hok k)
  have hcalls : ∀ i, (refreshAndSignOut i).keepsTo "a" = true := by decide +kernel
  have hgone := (hall (.ofTable renewalTexts) "a" 0 renewedWorld refreshAndSignOut _ tr t true renewalTexts_lawful
    (fun _ => rfl) hcalls hrun signsOut_a hreplies).2
  rw [hthere] at hgone
  cases hgone

end Refresh

end Aifluxon
