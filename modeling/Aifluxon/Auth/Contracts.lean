import Aifluxon.Auth.Manager

/-!
# What the calls do

* `AuthM.Meets R P Q` : every operation of a call meets `P`, and what it returns meets `Q`; its rules;
* `AuthOp.Within S W` : an operation is about accounts in `S` only, and stores something for those in `W` only;
* `readAccountIndex_within`, .., `completeLogin_scoped` : the calls, one by one, when there are no legacy entries.
-/

namespace Aifluxon

/-- The operations made, each with its answer. -/
abbrev AuthHistory : Type := List (Sigma AuthOp.Answer)

namespace AuthM

variable {α β : Type} {R : (op : AuthOp) → op.Answer → Prop} {P P' : AuthHistory → AuthOp → Prop}
  {Q Q' : AuthHistory → α → Prop} {h : AuthHistory}

/-- `Q` is about the results that are not errors. -/
structure Meets (R : (op : AuthOp) → op.Answer → Prop) (P : AuthHistory → AuthOp → Prop) (Q : AuthHistory → α → Prop)
    (x : AuthM α) (h : AuthHistory) : Prop where
  sat : x.run.Sat R P (fun h result => ∀ a, result = .ok a → Q h a) h

theorem Meets.mono {x : AuthM α} (hx : Meets R P Q x h) (hP : ∀ h op, P h op → P' h op)
    (hQ : ∀ h a, Q h a → Q' h a) : Meets R P' Q' x h :=
  ⟨hx.sat.mono hP fun h _ hresult a ha => hQ h a (hresult a ha)⟩

theorem Meets.and {x : AuthM α} (hx : Meets R P Q x h) (hx' : Meets R P' Q' x h) :
    Meets R (fun h op => P h op ∧ P' h op) (fun h a => Q h a ∧ Q' h a) x h :=
  ⟨(hx.sat.and hx'.sat).mono (fun _ _ hop => hop) fun _ _ hresult a ha => ⟨hresult.1 a ha, hresult.2 a ha⟩⟩

theorem meets_pure {a : α} (ha : Q h a) : Meets R P Q (pure a) h := ⟨fun b hb => by
  cases hb
  exact ha⟩

theorem meets_throw {error : AuthError} : Meets R P Q (throw error : AuthM α) h := ⟨fun _ hb => nomatch hb⟩

theorem meets_result {result : Except AuthError α} (ha : ∀ a, result = .ok a → Q h a) :
    Meets R P Q (ExceptT.mk (pure result)) h := ⟨ha⟩

theorem Meets.bind {Q' : AuthHistory → β → Prop} {x : AuthM α} {f : α → AuthM β} (hx : Meets R P Q x h)
    (hf : ∀ h a, Q h a → Meets R P Q' (f a) h) : Meets R P Q' (x >>= f) h := by
  refine ⟨hx.sat.bind fun h result hresult => ?_⟩
  cases result with
  | ok a => exact (hf h a (hresult a rfl)).sat
  | error error => exact fun b hb => nomatch hb

theorem Meets.map {Q' : AuthHistory → β → Prop} {x : AuthM α} {f : α → β} (hx : Meets R P Q x h)
    (hf : ∀ h a, Q h a → Q' h (f a)) : Meets R P Q' (f <$> x) h :=
  hx.bind fun h a ha => meets_pure (hf h a ha)

theorem meets_perform (op : AuthOp) {Q : AuthHistory → op.Answer → Prop} (hP : P h op)
    (hQ : ∀ r, R op r → Q (h ++ [⟨op, r⟩]) r) : Meets R P Q (perform op) h :=
  ⟨hP, fun r hr a ha => by cases ha; exact hQ r hr⟩

theorem meets_getSecret {key : SecretKey} {Q : AuthHistory → Option String → Prop} (hP : P h (.get key))
    (hQ : ∀ value, R (.get key) (.ok value) → Q (h ++ [⟨.get key, .ok value⟩]) value) :
    Meets R P Q (getSecret key) h :=
  ⟨hP, fun r hr a ha => by cases ha; exact hQ a hr⟩

theorem meets_setSecret {key : SecretKey} {value : String} {Q : AuthHistory → Unit → Prop}
    (hP : P h (.set key value)) (hQ : R (.set key value) (.ok ()) → Q (h ++ [⟨.set key value, .ok ()⟩]) ()) :
    Meets R P Q (setSecret key value) h :=
  ⟨hP, fun r hr a ha => by cases ha; exact hQ hr⟩

theorem meets_deleteSecret {key : SecretKey} {Q : AuthHistory → Unit → Prop} (hP : P h (.delete key))
    (hQ : R (.delete key) (.ok ()) → Q (h ++ [⟨.delete key, .ok ()⟩]) ()) : Meets R P Q (deleteSecret key) h :=
  ⟨hP, fun r hr a ha => by cases ha; exact hQ hr⟩

theorem meets_getText {key : SecretKey} {Q : AuthHistory → Option String → Prop} (hP : P h (.get key))
    (hQ : ∀ value, R (.get key) (.ok value) → Q (h ++ [⟨.get key, .ok value⟩]) (notBlank value)) :
    Meets R P Q (getText key) h :=
  (meets_getSecret (Q := fun h value => Q h (notBlank value)) hP hQ).map fun _ _ ha => ha

theorem meets_okOr {error : AuthError} {found : Option α} (hQ : ∀ a, found = some a → Q h a) :
    Meets R P Q (okOr error found) h := by
  cases found with
  | none => exact meets_throw
  | some a => exact meets_pure (hQ a rfl)

theorem Meets.unlocking {unlock : AuthOp} {x : AuthM α} (hx : Meets R P Q x h) (hP : ∀ h, P h unlock)
    (hQ : ∀ h a r, Q h a → Q (h ++ [⟨unlock, r⟩]) a) : Meets R P Q (AuthM.unlocking unlock x) h :=
  ⟨hx.sat.bind fun h _ hresult => ⟨hP h, fun r _ a ha => hQ h a r (hresult a ha)⟩⟩

end AuthM

open AuthM

/-! ## The accounts that an operation is about -/

/-- An account as a host names it. -/
def ProperAccount (accountId : String) : Prop := trim accountId = accountId ∧ accountId ≠ ""

instance (accountId : String) : Decidable (ProperAccount accountId) := inferInstanceAs (Decidable (_ ∧ _))

/-- Only accounts in `S` are locked, read or deleted, and only for those in `W` is something stored or
cached. No legacy entry is set. -/
def AuthOp.Within (lib : AuthLibrary) (S W : String → Prop) : AuthOp → Prop
  | .get (.account fingerprint _) | .delete (.account fingerprint _) =>
    ∃ accountId, S accountId ∧ fingerprint = lib.fingerprint accountId
  | .set (.account fingerprint _) _ => ∃ accountId, W accountId ∧ fingerprint = lib.fingerprint accountId
  | .set (.legacy _) _ => False
  | .cachedCredentials accountId | .removeCredentials accountId | .lockAccount accountId => S accountId
  | .cacheCredentials accountId _ => W accountId
  | _ => True

theorem AuthOp.Within.mono {lib : AuthLibrary} {S S' W W' : String → Prop} {op : AuthOp} (h : op.Within lib S W)
    (hS : ∀ accountId, S accountId → S' accountId) (hW : ∀ accountId, W accountId → W' accountId) :
    op.Within lib S' W' := by
  cases op with
  | get key | delete key => cases key with
    | account =>
      obtain ⟨accountId, ha, hfingerprint⟩ := h
      exact ⟨accountId, hS _ ha, hfingerprint⟩
    | accountIndex | legacy => trivial
  | set key => cases key with
    | account =>
      obtain ⟨accountId, ha, hfingerprint⟩ := h
      exact ⟨accountId, hW _ ha, hfingerprint⟩
    | accountIndex => trivial
    | legacy => exact h
  | cachedCredentials | removeCredentials | lockAccount => exact hS _ h
  | cacheCredentials => exact hW _ h
  | cachedRecords | cacheRecords | lockMigrated | setMigrated | unlockMigrated | unlockAccount | postForm | postJson
  | waitForCallback | unixNow => trivial

/-- No legacy entry is found. -/
def noLegacy : (op : AuthOp) → op.Answer → Prop
  | .get (.legacy _), r => ∀ text, r ≠ .ok (some text)
  | _, _ => True

/-- The operations of a call are within `S` and `W`, as long as the answers meet `R`. -/
structure Within (R : (op : AuthOp) → op.Answer → Prop) (lib : AuthLibrary) (S W : String → Prop) {α : Type}
    (x : AuthM α) : Prop where
  meets : ∀ h, Meets R (fun _ op => op.Within lib S W) (fun _ _ => True) x h

namespace Within

variable {R : (op : AuthOp) → op.Answer → Prop} {lib : AuthLibrary} {S W : String → Prop} {α β : Type}
  {accountId : String}

theorem pure (a : α) : Within R lib S W (pure a) := ⟨fun _ => meets_pure trivial⟩

theorem throw (error : AuthError) : Within R lib S W (throw error : AuthM α) := ⟨fun _ => meets_throw⟩

theorem result (r : Except AuthError α) : Within R lib S W (ExceptT.mk (Pure.pure r)) :=
  ⟨fun _ => meets_result fun _ _ => trivial⟩

theorem bind {x : AuthM α} {f : α → AuthM β} (hx : Within R lib S W x) (hf : ∀ a, Within R lib S W (f a)) :
    Within R lib S W (x >>= f) := ⟨fun h => (hx.meets h).bind fun h a _ => (hf a).meets h⟩

theorem map {x : AuthM α} {f : α → β} (hx : Within R lib S W x) : Within R lib S W (f <$> x) :=
  ⟨fun h => (hx.meets h).map fun _ _ _ => trivial⟩

theorem perform {op : AuthOp} (hop : op.Within lib S W) : Within R lib S W (AuthM.perform op) :=
  ⟨fun _ => meets_perform op hop fun _ _ => trivial⟩

theorem getText {key : SecretKey} (hop : (AuthOp.get key).Within lib S W) : Within R lib S W (getText key) :=
  ⟨fun _ => meets_getText hop fun _ _ => trivial⟩

theorem setText {key : SecretKey} {value : String} (hop : (AuthOp.set key value).Within lib S W) :
    Within R lib S W (setText key value) := ⟨fun _ => meets_setSecret hop fun _ => trivial⟩

theorem deleteSecret {key : SecretKey} (hop : (AuthOp.delete key).Within lib S W) :
    Within R lib S W (deleteSecret key) := ⟨fun _ => meets_deleteSecret hop fun _ => trivial⟩

theorem okOr (error : AuthError) (found : Option α) : Within R lib S W (okOr error found) :=
  ⟨fun _ => meets_okOr fun _ _ => trivial⟩

theorem unlocking {unlock : AuthOp} {x : AuthM α} (hx : Within R lib S W x) (hop : unlock.Within lib S W) :
    Within R lib S W (unlocking unlock x) := ⟨fun h => (hx.meets h).unlocking (fun _ => hop) fun _ _ _ _ => trivial⟩

/-- With what is known of the results of the first call. -/
theorem after {C : α → Prop} {x : AuthM α} {f : α → AuthM β}
    (hx : ∀ h, Meets R (fun _ op => op.Within lib S W) (fun _ a => C a) x h)
    (hf : ∀ a, C a → Within R lib S W (f a)) : Within R lib S W (x >>= f) :=
  ⟨fun h => (hx h).bind fun h a ha => (hf a ha).meets h⟩

end Within

namespace AuthLibrary

variable {R : (op : AuthOp) → op.Answer → Prop} {lib : AuthLibrary} {S W : String → Prop} {accountId : String}

theorem readAccountIndex_within : Within R lib S W lib.readAccountIndex := by
  refine .bind (.perform trivial) fun cached => ?_
  cases cached with
  | some records => exact .pure _
  | none =>
    refine .bind (.getText trivial) fun text => ?_
    cases text with
    | none => exact .bind (.perform (by trivial)) fun _ => .pure _
    | some value => exact .bind (.okOr _ _) fun _ => .bind (.perform (by trivial)) fun _ => .pure _

theorem storeAccountIndex_within (records : List CodexAccountRecord) :
    Within R lib S W (lib.storeAccountIndex records) := by
  unfold storeAccountIndex
  split
  · exact .deleteSecret trivial
  · split
    · exact .throw _
    · exact .setText trivial

theorem writeAccountIndex_within (records : List CodexAccountRecord) :
    Within R lib S W (lib.writeAccountIndex records) :=
  .bind (storeAccountIndex_within records) fun _ => .perform (by trivial)

theorem upsertAccountRecord_within (record : CodexAccountRecord) :
    Within R lib S W (lib.upsertAccountRecord record) :=
  .bind readAccountIndex_within fun _ => writeAccountIndex_within _

theorem removeAccountRecord_within (accountId : String) : Within R lib S W (lib.removeAccountRecord accountId) :=
  .bind readAccountIndex_within fun _ => writeAccountIndex_within _

theorem readToken_within (hS : S accountId) (kind : CredentialKind) :
    Within R lib S W (lib.readToken accountId kind) :=
  .bind (.getText ⟨accountId, hS, rfl⟩) fun _ => .okOr _ _

theorem readMetadata_within (hS : S accountId) : Within R lib S W (lib.readMetadata accountId) := by
  have hget : Within R lib S W (getText (lib.accountSecret accountId .metadata)) := .getText ⟨accountId, hS, rfl⟩
  refine ⟨fun h => ⟨(hget.meets h).sat.bind fun _ r _ => ?_⟩⟩
  split <;> exact fun _ _ => trivial

theorem readScopedCredentials_within (hS : S accountId) : Within R lib S W (lib.readScopedCredentials accountId) :=
  .bind (readToken_within hS _) fun _ => .bind (readToken_within hS _) fun _ =>
    .bind (readToken_within hS _) fun _ => .bind (readMetadata_within hS) fun _ => .pure _

theorem storeScopedCredentials_within (hW : W accountId) (credentials : CodexCredentials) :
    Within R lib S W (lib.storeScopedCredentials accountId credentials) := by
  refine .bind (.setText ⟨accountId, hW, rfl⟩) fun _ => .bind (.setText ⟨accountId, hW, rfl⟩) fun _ =>
    .bind (.setText ⟨accountId, hW, rfl⟩) fun _ => ?_
  split
  · exact .throw _
  · exact .setText ⟨accountId, hW, rfl⟩

theorem deleteKinds_within (hS : S accountId) (kinds : List CredentialKind) (firstError : Option AuthError) :
    Within R lib S W (lib.deleteKinds accountId kinds firstError) := by
  induction kinds generalizing firstError with
  | nil => cases firstError with
    | none => exact .pure _
    | some error => exact .throw _
  | cons kind kinds ih =>
    have hdelete : Within R lib S W (deleteSecret (lib.accountSecret accountId kind)) :=
      .deleteSecret ⟨accountId, hS, rfl⟩
    refine ⟨fun h => ⟨(hdelete.meets h).sat.bind fun h r _ => ?_⟩⟩
    cases r with
    | ok => exact ((ih _).meets h).sat
    | error error => exact ((ih _).meets h).sat

theorem deleteAccountCredentials_within (hS : S accountId) :
    Within R lib S W (lib.deleteAccountCredentials accountId) :=
  .bind (.perform hS) fun _ => deleteKinds_within hS _ _

/-- Without legacy entries there is nothing to migrate. -/
theorem migrateLegacyCredentials_within : Within noLegacy lib S W lib.migrateLegacyCredentials := by
  refine .after (C := fun text => text = none)
    (fun h => meets_getText (by trivial) fun value hvalue => ?_) fun text htext => ?_
  · cases value with
    | none => rfl
    | some text => exact absurd rfl (hvalue text)
  · subst htext
    exact .pure _

theorem ensureLegacyCredentialsMigrated_within : Within noLegacy lib S W lib.ensureLegacyCredentialsMigrated := by
  refine .bind (.perform trivial) fun migrated => .unlocking ?_ trivial
  cases migrated with
  | true => exact .pure _
  | false => exact .bind migrateLegacyCredentials_within fun _ => .perform trivial

theorem accountRecords_within : Within noLegacy lib S W lib.accountRecords :=
  .bind ensureLegacyCredentialsMigrated_within fun _ => readAccountIndex_within

theorem resolveAccountId_within (requested : Option String) : Within noLegacy lib S W (lib.resolveAccountId requested) :=
  .bind accountRecords_within fun _ => .result _

theorem readCredentials_within (hS : S accountId) (hW : W accountId) :
    Within noLegacy lib S W (lib.readCredentials accountId) := by
  refine .bind ensureLegacyCredentialsMigrated_within fun _ => .bind (.perform hS) fun cached => ?_
  cases cached with
  | some credentials => exact .pure _
  | none => exact .bind (readScopedCredentials_within hS) fun _ => .bind (.perform hW) fun _ => .pure _

theorem storeCredentials_within (hW : W accountId) (credentials : CodexCredentials) :
    Within R lib S W (lib.storeCredentials accountId credentials) := by
  refine .bind (.okOr _ _) fun claim => ?_
  split
  · exact .throw _
  · exact .bind (storeScopedCredentials_within hW _) fun _ =>
      .bind (upsertAccountRecord_within _) fun _ => .perform hW

theorem refreshTokens_within (current : CodexCredentials) : Within R lib S W (lib.refreshTokens current) :=
  .bind (.perform trivial) fun _ => .bind (.perform trivial) fun _ => .result _

theorem refreshedFor_within (accountId : String) (current : CodexCredentials) :
    Within R lib S W (lib.refreshedFor accountId current) := by
  refine .bind (refreshTokens_within current) fun _ => ?_
  split
  · exact .throw _
  · exact .pure _

theorem renew_within (hW : W accountId) (current : CodexCredentials) : Within R lib S W (lib.renew accountId current) :=
  .bind (refreshedFor_within accountId current) fun _ => .bind (storeCredentials_within hW _) fun _ => .pure _

theorem refreshLocked_within (hS : S accountId) (hW : W accountId) (force : Bool) :
    Within noLegacy lib S W (lib.refreshLocked accountId force) := by
  refine .bind (readCredentials_within hS hW) fun current => ?_
  cases force with
  | true => exact renew_within hW current
  | false =>
    refine .bind (.perform trivial) fun now => ?_
    split
    · exact renew_within hW current
    · exact .pure _

theorem statusFromStorage_within {record : CodexAccountRecord} (hS : S record.accountId) :
    Within R lib S W (lib.statusFromStorage record) :=
  .bind (.getText ⟨_, hS, rfl⟩) fun _ => .bind (.getText ⟨_, hS, rfl⟩) fun _ =>
    .bind (.getText ⟨_, hS, rfl⟩) fun _ => .bind (.perform trivial) fun _ => .pure _

theorem status_within (hS : S accountId) : Within noLegacy lib S W (lib.status accountId) := by
  refine .bind accountRecords_within fun records => ?_
  refine .after (C := fun record => record.accountId = accountId)
    (fun h => meets_okOr fun record hrecord => by simpa using List.find?_some hrecord) fun record hrecord => ?_
  exact statusFromStorage_within (hrecord ▸ hS)

theorem logout_within (hS : S (trim accountId)) : Within R lib S W (lib.logout accountId) := by
  unfold logout
  split
  · exact .throw _
  · exact .bind (deleteAccountCredentials_within hS) fun _ => removeAccountRecord_within _

/-- The account that is asked for is the one that is found. -/
theorem resolveAccountId_named (hproper : ProperAccount accountId) (h : AuthHistory) :
    Meets noLegacy (fun _ op => op.Within lib S W) (fun _ a => a = accountId)
      (lib.resolveAccountId (some accountId)) h := by
  refine (accountRecords_within.meets h).bind fun h records _ => meets_result fun a ha => ?_
  have hnamed : ((some accountId).map trim).filter (fun accountId => accountId ≠ "") = some accountId := by
    simp [hproper.1, hproper.2]
  unfold chooseAccount at ha
  rw [hnamed] at ha
  dsimp only at ha
  split at ha
  · cases ha
    rfl
  · cases ha

theorem refreshCredentials_within (hproper : ProperAccount accountId) (hS : S accountId) (hW : W accountId)
    (force : Bool) : Within noLegacy lib S W (lib.refreshCredentials (some accountId) force) := by
  refine .after (resolveAccountId_named hproper) fun a ha => ?_
  subst ha
  have hlocked : Within noLegacy lib S W (AuthM.unlocking (.unlockAccount a) (lib.refreshLocked a force)) :=
    .unlocking (refreshLocked_within hS hW force) trivial
  exact .bind (.perform hS) fun _ => hlocked

theorem bearer_within (hproper : ProperAccount accountId) (hS : S accountId) (hW : W accountId) :
    Within noLegacy lib S W (lib.bearer accountId) := .map (refreshCredentials_within hproper hS hW false)

theorem forceRefresh_within (hproper : ProperAccount accountId) (hS : S accountId) (hW : W accountId) :
    Within noLegacy lib S W (lib.forceRefresh accountId) := .map (refreshCredentials_within hproper hS hW true)

theorem refresh_within (hproper : ProperAccount accountId) (hS : S accountId) (hW : W accountId) (force : Bool) :
    Within noLegacy lib S W (lib.refresh (some accountId) force) := by
  refine .after (resolveAccountId_named hproper) fun a ha => ?_
  subst ha
  exact .bind (refreshCredentials_within hproper hS hW force) fun _ => status_within hS

end AuthLibrary

end Aifluxon
