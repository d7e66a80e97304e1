import Aifluxon.Auth.Tokens
import Aifluxon.Lib.Procedure

/-!
# The credential store

`CodexCredentialStore` of `store.rs`. Every call of the secret store, every section under a lock and every
answer from outside is an operation of a procedure, so that calls run alone or interleaved.

* `SecretKey` : the entries of the secret store, told apart by their names (`SecretKey.text_injective`);
* `AuthOp`, `AuthWorld`, `AuthWorld.handle` : the operations and what they do; `AuthInput` : what comes from
  outside, a failure of the secret store included;
* `AuthLibrary.readAccountIndex`, `writeAccountIndex`, `storeScopedCredentials`, `readScopedCredentials`,
  `deleteAccountCredentials`, `ensureLegacyCredentialsMigrated`, `storeCredentials` : the calls.
-/

namespace Aifluxon

open Value

/-! ## Entries -/

inductive CredentialKind where
  | accessToken
  | refreshToken
  | idToken
  | metadata
  deriving DecidableEq

def CredentialKind.text : CredentialKind → String
  | accessToken => "access-token"
  | refreshToken => "refresh-token"
  | idToken => "id-token"
  | metadata => "metadata"

/-- `account` carries the fingerprint of an account. -/
inductive SecretKey where
  | accountIndex
  | legacy (kind : CredentialKind)
  | account (fingerprint : String) (kind : CredentialKind)
  deriving DecidableEq

/-- The name of an entry. -/
def SecretKey.text : SecretKey → String
  | accountIndex => "codex-oauth:account-index"
  | legacy kind => "codex-oauth:" ++ kind.text
  | account fingerprint kind => "codex-oauth:account:" ++ fingerprint ++ ":" ++ kind.text

theorem CredentialKind.text_injective : Function.Injective CredentialKind.text := by
  intro a b h
  cases a <;> cases b <;> first | rfl | exact absurd h (by decide)

theorem CredentialKind.colon_not_mem (kind : CredentialKind) : ':' ∉ kind.text.toList := by
  cases kind <;> decide

/-- What stands behind the last colon. -/
theorem eq_of_last_colon {l l' t t' : List Char} (h : l ++ ':' :: t = l' ++ ':' :: t') (ht : ':' ∉ t)
    (ht' : ':' ∉ t') : l = l' ∧ t = t' := by
  rcases List.append_eq_append_iff.1 h with ⟨a, rfl, ha⟩ | ⟨a, rfl, ha⟩
  · cases a with
    | nil => exact ⟨(List.append_nil l).symm, (List.cons.inj ha).2⟩
    | cons _ a =>
      rw [(List.cons.inj ha).2] at ht
      exact absurd (List.mem_append_right a (List.mem_cons_self ..)) ht
  · cases a with
    | nil => exact ⟨List.append_nil l', (List.cons.inj ha).2.symm⟩
    | cons _ a =>
      rw [(List.cons.inj ha).2] at ht'
      exact absurd (List.mem_append_right a (List.mem_cons_self ..)) ht'

theorem SecretKey.account_prefix (fingerprint : String) (kind : CredentialKind) :
    "codex-oauth:account:".toList <+: (account fingerprint kind).text.toList := by
  show "codex-oauth:account:".toList <+: ("codex-oauth:account:" ++ fingerprint ++ ":" ++ kind.text).toList
  simp only [String.toList_append, List.append_assoc]
  exact List.prefix_append _ _

theorem SecretKey.text_injective : Function.Injective SecretKey.text := by
  intro a b h
  cases a with
  | accountIndex => cases b with
    | accountIndex => rfl
    | legacy kind => exact absurd h (by cases kind <;> decide)
    | account fingerprint kind =>
      have haccount := account_prefix fingerprint kind
      rw [← h] at haccount
      exact absurd haccount (by decide)
  | legacy kind => cases b with
    | accountIndex => exact absurd h (by cases kind <;> decide)
    | legacy kind' =>
      have hchars : ("codex-oauth:" ++ kind.text).toList = ("codex-oauth:" ++ kind'.text).toList :=
        congrArg String.toList h
      simp only [String.toList_append] at hchars
      rw [CredentialKind.text_injective (String.toList_injective (List.append_cancel_left hchars))]
    | account fingerprint kind' =>
      have haccount := account_prefix fingerprint kind'
      rw [← h] at haccount
      exact absurd haccount (by cases kind <;> decide)
  | account fingerprint kind => cases b with
    | accountIndex =>
      have haccount := account_prefix fingerprint kind
      rw [h] at haccount
      exact absurd haccount (by decide)
    | legacy kind' =>
      have haccount := account_prefix fingerprint kind
      rw [h] at haccount
      exact absurd haccount (by cases kind' <;> decide)
    | account fingerprint' kind' =>
      have hchars : ("codex-oauth:account:" ++ fingerprint ++ ":" ++ kind.text).toList =
          ("codex-oauth:account:" ++ fingerprint' ++ ":" ++ kind'.text).toList := congrArg String.toList h
      simp only [String.toList_append, List.append_assoc] at hchars
      obtain ⟨hfingerprint, hkind⟩ := eq_of_last_colon (List.append_cancel_left hchars) kind.colon_not_mem
        kind'.colon_not_mem
      rw [String.toList_injective hfingerprint, CredentialKind.text_injective (String.toList_injective hkind)]

/-! ## Operations -/

structure CodexAccountRecord where
  accountId : String
  accountEmail : Option String
  deriving DecidableEq

inductive AuthOp where
  /-- The calls of the secret store. -/
  | get (key : SecretKey)
  | set (key : SecretKey) (value : String)
  | delete (key : SecretKey)
  /-- The sections under the lock of the cache. -/
  | cachedRecords
  | cacheRecords (records : List CodexAccountRecord)
  | cachedCredentials (accountId : String)
  | cacheCredentials (accountId : String) (credentials : CodexCredentials)
  | removeCredentials (accountId : String)
  /-- The lock of `migrated`, for what stands under it. -/
  | lockMigrated
  | setMigrated
  | unlockMigrated
  /-- The refresh lock of an account. -/
  | lockAccount (accountId : String)
  | unlockAccount (accountId : String)
  /-- `post_form` and `post_json` to the token server. -/
  | postForm (form : List (String × String))
  | postJson (body : Value)
  | waitForCallback
  | unixNow

@[reducible] def AuthOp.Answer : AuthOp → Type
  | get _ => Except AuthError (Option String)
  | set _ _ | delete _ => Except AuthError Unit
  | cachedRecords => Option (List CodexAccountRecord)
  | cachedCredentials _ => Option CodexCredentials
  | lockMigrated => Bool
  | postForm _ | postJson _ => Except AuthError TokenHttpResponse
  | waitForCallback => Except AuthError String
  | unixNow => Nat
  | cacheRecords _ | cacheCredentials _ _ | removeCredentials _ | setMigrated | unlockMigrated | lockAccount _
  | unlockAccount _ => Unit

/-- The entry of the secret store that an operation is about. -/
def AuthOp.key? : AuthOp → Option SecretKey
  | get key | set key _ | delete key => some key
  | _ => none

/-- One manager: its `CodexRuntimeCredentialCache` and its locks. -/
structure CodexManager where
  records : Option (List CodexAccountRecord)
  credentials : String → Option CodexCredentials
  migrated : Bool
  migratedLocked : Bool
  accountLocked : String → Bool

def CodexManager.new : CodexManager := ⟨none, fun _ => none, false, false, fun _ => false⟩

/-- What comes from outside at an operation; a call of the secret store that fails has no effect. -/
structure AuthInput where
  fault : Option AuthError
  answer : Except AuthError TokenHttpResponse
  callback : Except AuthError String
  now : Nat

/-- A secret store and the managers over it. The operation that is the `clock`-th takes that input. -/
structure AuthWorld where
  secrets : SecretKey → Option String
  managers : Nat → CodexManager
  inputs : Nat → AuthInput
  clock : Nat

namespace AuthWorld

def input (w : AuthWorld) : AuthInput := w.inputs w.clock

def tick (w : AuthWorld) : AuthWorld := { w with clock := w.clock + 1 }

/-- A change of the manager `m`. -/
def modify (w : AuthWorld) (m : Nat) (f : CodexManager → CodexManager) : AuthWorld :=
  { w with managers := Function.update w.managers m (f (w.managers m)) }

def write (w : AuthWorld) (key : SecretKey) (value : Option String) : AuthWorld :=
  { w with secrets := Function.update w.secrets key value }

/-- A call of the secret store. -/
def attempt {α : Type} (w : AuthWorld) (result : α) (after : AuthWorld) : Except AuthError α × AuthWorld :=
  match w.input.fault with
  | some error => (.error error, w.tick)
  | none => (.ok result, after.tick)

/-- An operation of the manager `m`. -/
def handle (m : Nat) : (op : AuthOp) → AuthWorld → op.Answer × AuthWorld
  | .get key, w => w.attempt (w.secrets key) w
  | .set key value, w => w.attempt () (w.write key (some value))
  | .delete key, w => w.attempt () (w.write key none)
  | .cachedRecords, w => ((w.managers m).records, w.tick)
  | .cacheRecords records, w => ((), (w.modify m fun c => { c with records := some records }).tick)
  | .cachedCredentials accountId, w => ((w.managers m).credentials accountId, w.tick)
  | .cacheCredentials accountId credentials, w =>
    ((), (w.modify m fun c =>
      { c with credentials := Function.update c.credentials accountId (some credentials) }).tick)
  | .removeCredentials accountId, w =>
    ((), (w.modify m fun c => { c with credentials := Function.update c.credentials accountId none }).tick)
  | .lockMigrated, w => ((w.managers m).migrated, (w.modify m fun c => { c with migratedLocked := true }).tick)
  | .setMigrated, w => ((), (w.modify m fun c => { c with migrated := true }).tick)
  | .unlockMigrated, w => ((), (w.modify m fun c => { c with migratedLocked := false }).tick)
  | .lockAccount accountId, w =>
    ((), (w.modify m fun c => { c with accountLocked := Function.update c.accountLocked accountId true }).tick)
  | .unlockAccount accountId, w =>
    ((), (w.modify m fun c => { c with accountLocked := Function.update c.accountLocked accountId false }).tick)
  | .postForm _, w => (w.input.answer, w.tick)
  | .postJson _, w => (w.input.answer, w.tick)
  | .waitForCallback, w => (w.input.callback, w.tick)
  | .unixNow, w => (w.input.now, w.tick)

/-- A lock that is held has to be waited for. -/
def enabled (m : Nat) : AuthOp → AuthWorld → Bool
  | .lockMigrated, w => !(w.managers m).migratedLocked
  | .lockAccount accountId, w => !(w.managers m).accountLocked accountId
  | _, _ => true

end AuthWorld

/-! ## Calls -/

/-- What a call does and returns. -/
abbrev AuthM (α : Type) : Type := ExceptT AuthError (Procedure AuthOp.Answer) α

namespace AuthM

/-- An operation that cannot fail. -/
def perform (op : AuthOp) : AuthM op.Answer := ExceptT.lift (Procedure.perform op)

def getSecret (key : SecretKey) : AuthM (Option String) := ExceptT.mk (Procedure.perform (AuthOp.get key))

def setSecret (key : SecretKey) (value : String) : AuthM Unit := ExceptT.mk (Procedure.perform (AuthOp.set key value))

def deleteSecret (key : SecretKey) : AuthM Unit := ExceptT.mk (Procedure.perform (AuthOp.delete key))

/-- `Option::ok_or_else`. -/
def okOr {α : Type} (error : AuthError) : Option α → AuthM α
  | some a => pure a
  | none => throw error

/-- A call that is left by way of `unlock`, whatever comes of it. -/
def unlocking {α : Type} (unlock : AuthOp) (x : AuthM α) : AuthM α := ExceptT.mk do
  let result ← x.run
  let _ ← Procedure.perform unlock
  return result

end AuthM

open AuthM

/-- Blank texts count as missing. -/
def getText (key : SecretKey) : AuthM (Option String) := notBlank <$> getSecret key

def setText (key : SecretKey) (value : String) : AuthM Unit := setSecret key value

namespace CodexAccountRecord

def toJson (record : CodexAccountRecord) : Value :=
  .object [("accountId", .string record.accountId), ("accountEmail", ofOption .string record.accountEmail)]

def fromJson (v : Value) : Option CodexAccountRecord := do
  let accountId ← v.requiredField "accountId" readString
  let accountEmail ← v.optionalField "accountEmail" readString
  return ⟨accountId, accountEmail⟩

/-- Without the white space around its texts. -/
def normalized (record : CodexAccountRecord) : CodexAccountRecord :=
  ⟨trim record.accountId, (record.accountEmail.map trim).filter fun email => email ≠ ""⟩

/-- The records that are read of an index: normalized, and the first of each account. -/
def normalizeAll (records : List CodexAccountRecord) : List CodexAccountRecord :=
  records.foldl (fun kept record =>
    if record.normalized.accountId ≠ "" ∧ ∀ current ∈ kept, current.accountId ≠ record.normalized.accountId then
      kept ++ [record.normalized]
    else kept) []

/-- The record of an account is replaced, or added. -/
def upsert (record : CodexAccountRecord) : List CodexAccountRecord → List CodexAccountRecord
  | [] => [record]
  | current :: records =>
    if current.accountId = record.accountId then record :: records else current :: upsert record records

end CodexAccountRecord

/-- `CodexCredentialMetadata`. -/
def metadataJson (lastRefreshAt : Nat) : Value := .object [("lastRefreshAt", ofNat lastRefreshAt)]

namespace AuthLibrary
variable (lib : AuthLibrary)

/-- `account_secret_account`. -/
def accountSecret (accountId : String) (kind : CredentialKind) : SecretKey :=
  .account (lib.fingerprint accountId) kind

def printIndex (records : List CodexAccountRecord) : Except String String :=
  lib.serde.toString (.array (records.map CodexAccountRecord.toJson))

def parseIndex (text : String) : Option (List CodexAccountRecord) :=
  (lib.serde.fromStr text).bind (readList CodexAccountRecord.fromJson)

def parseMetadata (text : String) : Option Nat :=
  (lib.serde.fromStr text).bind fun v => v.requiredField "lastRefreshAt" (readNat u64Max)

def readAccountIndex : AuthM (List CodexAccountRecord) := do
  match ← perform .cachedRecords with
  | some records => return records
  | none =>
    match ← getText .accountIndex with
    | none =>
      perform (.cacheRecords [])
      return []
    | some value =>
      let records ← okOr (.new .credentialCorrupted "Codex account index is invalid.") (lib.parseIndex value)
      perform (.cacheRecords (CodexAccountRecord.normalizeAll records))
      return CodexAccountRecord.normalizeAll records

/-- The entry of the index; an empty index has none. -/
def storeAccountIndex (records : List CodexAccountRecord) : AuthM Unit :=
  if records.isEmpty then deleteSecret .accountIndex
  else match lib.printIndex records with
    | .error error => throw (.new .credentialStore error)
    | .ok encoded => setText .accountIndex encoded

def writeAccountIndex (records : List CodexAccountRecord) : AuthM Unit := do
  lib.storeAccountIndex records
  perform (.cacheRecords records)

def upsertAccountRecord (record : CodexAccountRecord) : AuthM Unit := do
  let records ← lib.readAccountIndex
  lib.writeAccountIndex (record.upsert records)

def removeAccountRecord (accountId : String) : AuthM Unit := do
  let records ← lib.readAccountIndex
  lib.writeAccountIndex (records.filter fun record => record.accountId ≠ accountId)

/-- The metadata of an account; what cannot be read counts as the default. -/
def readMetadata (accountId : String) : AuthM Nat := ExceptT.mk do
  match ← (getText (lib.accountSecret accountId .metadata)).run with
  | .ok (some value) => return .ok ((lib.parseMetadata value).getD 0)
  | _ => return .ok 0

def readToken (accountId : String) (kind : CredentialKind) : AuthM String := do
  let value ← getText (lib.accountSecret accountId kind)
  okOr (.new .authenticationRequired "The selected Codex account is not authorized.") value

def readScopedCredentials (accountId : String) : AuthM CodexCredentials := do
  let accessToken ← lib.readToken accountId .accessToken
  let refreshToken ← lib.readToken accountId .refreshToken
  let idToken ← lib.readToken accountId .idToken
  let lastRefreshAt ← lib.readMetadata accountId
  return ⟨accessToken, refreshToken, idToken, lastRefreshAt⟩

def storeScopedCredentials (accountId : String) (credentials : CodexCredentials) : AuthM Unit := do
  setText (lib.accountSecret accountId .accessToken) credentials.accessToken
  setText (lib.accountSecret accountId .refreshToken) credentials.refreshToken
  setText (lib.accountSecret accountId .idToken) credentials.idToken
  match lib.serde.toString (metadataJson credentials.lastRefreshAt) with
  | .error error => throw (.new .credentialStore error)
  | .ok metadata => setText (lib.accountSecret accountId .metadata) metadata

/-- The entries of the kinds are deleted, and the first error is kept. -/
def deleteKinds (accountId : String) : List CredentialKind → Option AuthError → AuthM Unit
  | [], none => return
  | [], some error => throw error
  | kind :: kinds, firstError => ExceptT.mk do
    match ← (deleteSecret (lib.accountSecret accountId kind)).run with
    | .ok () => (deleteKinds accountId kinds firstError).run
    | .error error => (deleteKinds accountId kinds (firstError.or (some error))).run

def deleteAccountCredentials (accountId : String) : AuthM Unit := do
  perform (.removeCredentials accountId)
  lib.deleteKinds accountId [.accessToken, .refreshToken, .idToken, .metadata] none

/-- The entries of one account only, when its tokens are all there, become those of the account. -/
def migrateLegacyCredentials : AuthM Unit := do
  let some idToken ← getText (.legacy .idToken) | return
  let some accessToken ← getText (.legacy .accessToken) | return
  let some refreshToken ← getText (.legacy .refreshToken) | return
  let accountId ← okOr (.new .credentialCorrupted "Legacy Codex credentials are missing a ChatGPT account id.")
    (lib.accountClaim idToken)
  let metadata ← getText (.legacy .metadata)
  lib.storeScopedCredentials accountId
    ⟨accessToken, refreshToken, idToken, (metadata.bind lib.parseMetadata).getD 0⟩
  lib.upsertAccountRecord ⟨accountId, lib.idTokenEmail idToken⟩
  deleteSecret (.legacy .accessToken)
  deleteSecret (.legacy .refreshToken)
  deleteSecret (.legacy .idToken)
  deleteSecret (.legacy .metadata)

def ensureLegacyCredentialsMigrated : AuthM Unit := do
  let migrated ← perform .lockMigrated
  unlocking .unlockMigrated do
    if migrated then return
    else
      lib.migrateLegacyCredentials
      perform .setMigrated

def accountRecords : AuthM (List CodexAccountRecord) := do
  lib.ensureLegacyCredentialsMigrated
  lib.readAccountIndex

/-- The account that is requested, or the only one. -/
def chooseAccount (requested : Option String) (records : List CodexAccountRecord) : Except AuthError String :=
  match (requested.map trim).filter fun accountId => accountId ≠ "" with
  | some accountId =>
    if ∃ record ∈ records, record.accountId = accountId then .ok accountId
    else .error (.new .accountNotFound "The requested Codex account is not signed in.")
  | none => match records with
    | [record] => .ok record.accountId
    | [] => .error (.new .authenticationRequired "No Codex account is signed in.")
    | _ => .error (.new .accountSelectionRequired
      "Multiple Codex accounts are signed in; select an account explicitly.")

def resolveAccountId (requested : Option String) : AuthM String := do
  let records ← lib.accountRecords
  ExceptT.mk (pure (chooseAccount requested records))

def readCredentials (accountId : String) : AuthM CodexCredentials := do
  lib.ensureLegacyCredentialsMigrated
  match ← perform (.cachedCredentials accountId) with
  | some credentials => return credentials
  | none =>
    let credentials ← lib.readScopedCredentials accountId
    perform (.cacheCredentials accountId credentials)
    return credentials

/-- Only credentials of the account itself are stored. -/
def storeCredentials (accountId : String) (credentials : CodexCredentials) : AuthM Unit := do
  let tokenAccountId ← okOr (.new .credentialCorrupted "Codex ID token is missing a ChatGPT account id.")
    (lib.accountClaim credentials.idToken)
  if tokenAccountId ≠ accountId then
    throw (.new .credentialCorrupted "Codex OAuth credentials do not match the selected account.")
  else
    lib.storeScopedCredentials accountId credentials
    lib.upsertAccountRecord ⟨accountId, lib.idTokenEmail credentials.idToken⟩
    perform (.cacheCredentials accountId credentials)

end AuthLibrary

end Aifluxon
