import Aifluxon.Auth.Migration
import Aifluxon.Auth.SignOuts

/-!
# What every call leaves

* `AuthWorld.core` : what the managers share, and which of them have migrated; `quiet_core` : an operation that only reads
  leaves it;
* `AuthOp.Regular` : an operation sets no legacy entry, and only an index that can be read; `procedure_regular`,
  `Performs.regularFrom` : every call of a manager is regular, and what that means;
* `accountRecords_settled`, .., `upToStore_settled` : the calls after the migration.
-/

namespace Aifluxon

open AuthM AuthLibrary

/-! ## What a call leaves -/

namespace AuthWorld

/-- What the managers share, and which of them have migrated. -/
def core (w : AuthWorld) : (SecretKey → Option String) × (Nat → AuthInput) × (Nat → Bool) :=
  (w.secrets, w.inputs, fun m => (w.managers m).migrated)

theorem core_eq {w w' : AuthWorld} (hsecrets : w'.secrets = w.secrets) (hinputs : w'.inputs = w.inputs)
    (hmigrated : ∀ m, (w'.managers m).migrated = (w.managers m).migrated) : w'.core = w.core := by
  rw [core, core, hsecrets, hinputs]
  simp only [hmigrated]

end AuthWorld

section Quiet

variable {C : AuthOp → Prop} {α : Type} {x : AuthM α} {m : Nat} {w : AuthWorld} {op : AuthOp}

/-- What the operations keep is kept by the call. -/
theorem Performs.keeps {J : AuthWorld → Prop} (hx : Performs C x)
    (hkeep : ∀ op w, C op → J w → J (AuthWorld.handle m op w).2) (hw : J w) : J (exec m x w).2 :=
  (Procedure.Sat.run (AuthWorld.handle m) (hx.meets []).sat hw fun _ op w hw hop => ⟨trivial, hkeep op w hop hw⟩).2.1

theorem quiet_core (hop : op.Quiet) : (AuthWorld.handle m op w).2.core = w.core := by
  have hset : ∀ key value, op ≠ .set key value := by
    rintro key value rfl
    exact hop
  have hdelete : ∀ key, op ≠ .delete key := by
    rintro key rfl
    exact hop
  have hmark : op ≠ .setMigrated := by
    rintro rfl
    exact hop
  obtain ⟨hinputs, hmigrated, hsecrets⟩ := handle_frame m op w hmark
  exact AuthWorld.core_eq (funext fun key => hsecrets key (hset key) (hdelete key)) hinputs hmigrated

end Quiet

/-! ## Regular operations -/

/-- There is no index, or it can be read. -/
def AuthLibrary.IndexReadable (lib : AuthLibrary) (w : AuthWorld) : Prop :=
  ∀ text, notBlank (w.secrets .accountIndex) = some text → lib.parseIndex text ≠ none

/-- An operation that sets no legacy entry, and only an index that can be read. -/
def AuthOp.Regular (lib : AuthLibrary) : AuthOp → Prop
  | .set (.legacy _) _ => False
  | .set .accountIndex text => lib.parseIndex text ≠ none
  | _ => True

section Regular

variable {lib : AuthLibrary} {accountId : String} {requested : Option String} {force : Bool} {α : Type} {x : AuthM α}
  {w w' : AuthWorld} {m : Nat} {op : AuthOp}

theorem AuthOp.Quiet.regular (hop : op.Quiet) : op.Regular lib := by
  cases op <;> trivial

/-- A call that is quiet, or that writes the index. -/
theorem regular_of_writes (hserde : lib.serde.Lawful) (hop : op.Quiet ∨ ∃ records, lib.Writes records op) :
    op.Regular lib := by
  rcases hop with hop | ⟨records, ⟨-, rfl⟩ | ⟨text, htext, rfl⟩⟩
  · exact hop.regular
  · trivial
  · show lib.parseIndex text ≠ none
    rw [(parseIndex_printIndex hserde htext).1]
    nofun

theorem Performs.regular (hx : Performs AuthOp.Quiet x) : Performs (AuthOp.Regular lib) x :=
  hx.mono fun _ => AuthOp.Quiet.regular

theorem Performs.unlocking {C : AuthOp → Prop} {unlock : AuthOp} (hx : Performs C x) (hunlock : C unlock) :
    Performs C (AuthM.unlocking unlock x) :=
  ⟨fun h => (hx.meets h).unlocking (fun _ => hunlock) fun _ _ _ _ => trivial⟩

theorem ensureLegacyCredentialsMigrated_regular (hserde : lib.serde.Lawful) :
    Performs (AuthOp.Regular lib) lib.ensureLegacyCredentialsMigrated := by
  refine .bind (.perform trivial) fun migrated => .unlocking ?_ trivial
  split
  · exact .pure _
  · exact .bind (migrateLegacyCredentials_performs (fun _ => trivial) (fun _ _ _ => trivial)
      (fun _ _ hop => regular_of_writes hserde hop) fun _ => trivial) fun _ => .perform trivial

theorem accountRecords_regular (hserde : lib.serde.Lawful) : Performs (AuthOp.Regular lib) lib.accountRecords :=
  .bind (ensureLegacyCredentialsMigrated_regular hserde) fun _ => readAccountIndex_performs fun _ _ hop => hop.regular

theorem resolveAccountId_regular (hserde : lib.serde.Lawful) :
    Performs (AuthOp.Regular lib) (lib.resolveAccountId requested) :=
  .bind (accountRecords_regular hserde) fun _ => .result _

theorem readCredentials_regular (hserde : lib.serde.Lawful) : Performs (AuthOp.Regular lib)
    (lib.readCredentials accountId) := by
  refine .bind (ensureLegacyCredentialsMigrated_regular hserde) fun _ => .bind (.perform trivial) fun cached => ?_
  split
  · exact .pure _
  · exact .bind readScopedCredentials_quiet.regular fun _ => .bind (.perform trivial) fun _ => .pure _

theorem storeCredentials_regular (hserde : lib.serde.Lawful) (credentials : CodexCredentials) :
    Performs (AuthOp.Regular lib) (lib.storeCredentials accountId credentials) := by
  refine .bind (.okOr _ _) fun claim => ?_
  split
  · exact .throw _
  · exact .bind (storeScopedCredentials_performs _ fun _ _ => trivial) fun _ =>
      .bind (upsertAccountRecord_performs _ fun _ _ hop => regular_of_writes hserde hop) fun _ => .perform trivial

theorem refreshedFor_quiet (current : CodexCredentials) : Performs AuthOp.Quiet (lib.refreshedFor accountId current) := by
  refine .bind (.bind (.perform trivial) fun _ => .bind (.perform trivial) fun _ => .result _) fun refreshed => ?_
  split
  · exact .throw _
  · exact .pure _

theorem refreshCredentials_regular (hserde : lib.serde.Lawful) :
    Performs (AuthOp.Regular lib) (lib.refreshCredentials requested force) := by
  have hrenew (accountId : String) (current : CodexCredentials) : Performs (AuthOp.Regular lib) (lib.renew accountId current) :=
    .bind (refreshedFor_quiet current).regular fun _ => .bind (storeCredentials_regular hserde _) fun _ => .pure _
  refine .bind (resolveAccountId_regular hserde) fun accountId => .bind (.perform trivial) fun _ => .unlocking ?_ trivial
  refine .bind (readCredentials_regular hserde) fun current => ?_
  split
  · exact hrenew accountId current
  · refine .bind (.perform trivial) fun now => ?_
    split
    · exact hrenew accountId current
    · exact .pure _

theorem status_regular (hserde : lib.serde.Lawful) : Performs (AuthOp.Regular lib) (lib.status accountId) :=
  .bind (accountRecords_regular hserde) fun _ => .bind (.okOr _ _) fun _ => (statusFromStorage_quiet _).regular

theorem exchangeAuthorizationCode_quiet (code redirectUri verifier : String) :
    Performs AuthOp.Quiet (lib.exchangeAuthorizationCode code redirectUri verifier) :=
  .bind (.perform trivial) fun _ => .bind (.perform trivial) fun _ => .result _

/-- **Every call** sets no legacy entry, and only indexes that can be read. -/
theorem procedure_regular (hserde : lib.serde.Lawful) (call : AuthCall) : Performs (AuthOp.Regular lib)
    (call.procedure lib) := by
  cases call with
  | login redirectUri verifier =>
    have hcallback : Performs (AuthOp.Regular lib) (ExceptT.mk (Procedure.perform AuthOp.waitForCallback)) :=
      ⟨fun _ => ⟨trivial, fun _ _ _ _ => trivial⟩⟩
    refine .map (.bind hcallback fun code => .bind (exchangeAuthorizationCode_quiet _ _ _).regular fun credentials => ?_)
    exact .bind (.okOr _ _) fun _ => .bind (storeCredentials_regular hserde _) fun _ => .map (status_regular hserde)
  | refresh requested force =>
    exact .map (.bind (resolveAccountId_regular hserde) fun _ => .bind (refreshCredentials_regular hserde) fun _ =>
      status_regular hserde)
  | bearer accountId | forceRefresh accountId => exact .map (.map (refreshCredentials_regular hserde))
  | status accountId => exact .map (status_regular hserde)
  | accounts =>
    exact .map (.bind (accountRecords_regular hserde) fun _ => .mapM (fun _ => .map (statusFromStorage_quiet _).regular) _)
  | logout accountId =>
    exact .map (logout_performs (fun _ => trivial) trivial fun _ _ hop => regular_of_writes hserde hop)

/-- What regular operations leave of the legacy entries and of the index. -/
structure RegularFrom (lib : AuthLibrary) (w w' : AuthWorld) : Prop where
  legacy : LegacyShrinks w w'
  index : lib.IndexReadable w → lib.IndexReadable w'

theorem Performs.regularFrom (hx : Performs (AuthOp.Regular lib) x) : RegularFrom lib w (exec m x w).2 := by
  refine hx.keeps (J := RegularFrom lib w) (fun op w' hop hw => ⟨fun kind => ?_, fun hindex => ?_⟩) ⟨fun _ => .inl rfl, id⟩
  · rcases secrets_handle m op w' (.legacy kind) with hsame | ⟨-, hnone⟩ | ⟨value, rfl, -, -⟩
    · rw [hsame]
      exact hw.legacy kind
    · exact .inr hnone
    · exact hop.elim
  · intro text htext
    rcases secrets_handle m op w' .accountIndex with hsame | ⟨-, hnone⟩ | ⟨value, rfl, -, hvalue⟩
    · rw [hsame] at htext
      exact hw.index hindex text htext
    · rw [hnone] at htext
      cases htext
    · rw [hvalue] at htext
      obtain rfl : value = text := (Option.filter_eq_some_iff.1 htext).1 |> Option.some.inj
      exact hop

end Regular

/-! ## The state in which a call is left -/

section Left

variable {lib : AuthLibrary} {inputs : Nat → AuthInput} {S S' : String → Prop} {E E' : String → CredentialKind → Option String}
  {w w' : AuthWorld} {m : Nat} {α : Type} {x : AuthM α}

theorem EntriesKept.mono (h : EntriesKept lib inputs S E w) (hS : ∀ a, S' a → S a) (hE : ∀ a, S' a → E' a = E a) :
    EntriesKept lib inputs S' E' w :=
  ⟨h.inputs, h.migrated, fun a ha => h.aside a (hS a ha), fun a ha => (h.entries a (hS a ha)).trans (hE a ha).symm⟩

theorem core_legacy (hcore : w'.core = w.core) : LegacyShrinks w w' := fun _ =>
  .inl (congrFun (congrArg Prod.fst hcore) _)

theorem EntriesKept.of_core (h : EntriesKept lib inputs S E w) (hcore : w'.core = w.core) : EntriesKept lib inputs S E w' :=
  h.transfer (congrArg (fun core => core.2.1) hcore) (core_legacy hcore)
    (fun m => congrFun (congrArg (fun core => core.2.2) hcore) m)
    fun _ _ => funext fun _ => congrFun (congrArg Prod.fst hcore) _

theorem EntriesSettled.of_core (h : EntriesSettled lib inputs S E w) (hcore : w'.core = w.core) :
    EntriesSettled lib inputs S E w' :=
  ⟨h.kept.of_core hcore, fun hcomplete => h.legacy ((core_legacy hcore).complete hcomplete).1⟩

theorem Performs.settled (hx : Performs AuthOp.Quiet x) :
    Leads m (fun w _ => EntriesSettled lib inputs S E w) x (fun _ w _ => EntriesSettled lib inputs S E w)
      fun w _ => EntriesKept lib inputs S E w :=
  (hx.leads fun _ w hop (hw : EntriesSettled lib inputs S E w) => hw.of_core (quiet_core hop)).mono (fun _ _ hw => hw)
    (fun _ _ _ hw => hw) fun _ _ hw => hw.kept

theorem accountRecords_settled (hinj : Function.Injective lib.fingerprint) :
    Leads m (fun w _ => EntriesKept lib inputs S E w) lib.accountRecords (fun _ w _ => EntriesSettled lib inputs S E w)
      fun w _ => EntriesKept lib inputs S E w :=
  (ensureLegacyCredentialsMigrated_settled hinj).bind fun _ => (readAccountIndex_performs fun _ _ hop => hop).settled

theorem resolveAccountId_settled (hinj : Function.Injective lib.fingerprint) (requested : Option String) :
    Leads m (fun w _ => EntriesKept lib inputs S E w) (lib.resolveAccountId requested)
      (fun _ w _ => EntriesSettled lib inputs S E w) fun w _ => EntriesKept lib inputs S E w :=
  (accountRecords_settled hinj).bind fun _ => leads_result (fun _ _ _ _ hw => hw) fun _ _ hw => hw.kept

theorem status_settled (hinj : Function.Injective lib.fingerprint) (accountId : String) :
    Leads m (fun w _ => EntriesKept lib inputs S E w) (lib.status accountId)
      (fun _ w _ => EntriesSettled lib inputs S E w) fun w _ => EntriesKept lib inputs S E w :=
  (accountRecords_settled hinj).bind fun _ => (leads_okOr (fun _ _ _ _ hw => hw) fun _ _ hw => hw.kept).bind fun record =>
    (statusFromStorage_quiet record).settled

theorem accounts_settled (hinj : Function.Injective lib.fingerprint) :
    Leads m (fun w _ => EntriesKept lib inputs S E w) lib.accounts (fun _ w _ => EntriesSettled lib inputs S E w)
      fun w _ => EntriesKept lib inputs S E w :=
  (accountRecords_settled hinj).bind fun records =>
    (Performs.mapM (fun record => .map (statusFromStorage_quiet record)) records).settled

/-- A refresh comes to the store after the migration. -/
theorem upToStore_settled (hinj : Function.Injective lib.fingerprint) (requested : Option String) (force : Bool) :
    Leads m (fun w _ => EntriesKept lib inputs S E w) (lib.upToStore requested force)
      (fun _ w _ => EntriesSettled lib inputs S E w) fun w _ => EntriesKept lib inputs S E w := by
  have hread (accountId : String) : Leads m (fun w _ => EntriesSettled lib inputs S E w) (lib.readCredentials accountId)
      (fun _ w _ => EntriesSettled lib inputs S E w) fun w _ => EntriesKept lib inputs S E w := by
    refine ((ensureLegacyCredentialsMigrated_settled hinj).pre fun w _ hw => hw.kept).bind fun _ => Performs.settled ?_
    refine .bind (.perform trivial) fun cached => ?_
    split
    · exact .pure _
    · exact .bind readScopedCredentials_quiet fun _ => .bind (.perform trivial) fun _ => .pure _
  have hrenewal (accountId : String) : Leads m (fun w _ => EntriesSettled lib inputs S E w) (lib.renewal accountId force)
      (fun _ w _ => EntriesSettled lib inputs S E w) fun w _ => EntriesKept lib inputs S E w := by
    refine (hread accountId).bind fun current => Performs.settled ?_
    split
    · exact .map (refreshedFor_quiet current)
    · refine .bind (.perform trivial) fun now => ?_
      split
      · exact .map (refreshedFor_quiet current)
      · exact .pure _
  refine (resolveAccountId_settled hinj requested).bind fun accountId => ?_
  have hlock : Performs AuthOp.Quiet (perform (.lockAccount accountId)) := .perform trivial
  refine hlock.settled.bind fun _ => (hrenewal accountId).bind fun _ => leads_pure fun _ _ hw => hw

theorem leads_kept (hx : Leads m (fun w _ => EntriesKept lib inputs S E w) x (fun _ w _ => EntriesSettled lib inputs S E w)
    fun w _ => EntriesKept lib inputs S E w) (hw : EntriesKept lib inputs S E w) :
    EntriesKept lib inputs S E (exec m x w).2 :=
  leads_left (hx.mono (fun _ _ hw => hw) (fun _ _ _ hw => hw.kept) fun _ _ hw => hw) hw

end Left

end Aifluxon
