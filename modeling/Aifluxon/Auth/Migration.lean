import Aifluxon.Auth.AccountIndex
import Aifluxon.Auth.TornWrites

/-!
# The legacy migration

What the calls of a manager leave of the credentials in the store, when there are entries of an account from before.

* `Performs C` : every operation of a call meets `C`; `AuthOp.Calm` : it touches neither credentials nor the mark of the
  migration; `AuthOp.Quiet` : nor anything else in the secret store; `AuthOp.Touches` : nor the entries of other accounts;
* `LegacyComplete`, `AuthLibrary.LegacyFor` : the legacy entries are complete, and are for an account;
* `EntriesKept` : credentials are in the store, and the legacy entries are not for their accounts; `EntriesSettled` : they are not
  complete;
* `migrateLegacyCredentials_kept`, `ensureLegacyCredentialsMigrated_settled` : what the migration keeps.
-/

namespace Aifluxon

open AuthM AuthLibrary

/-! ## Operations -/

/-- An operation that touches neither credentials in the store nor the mark of the migration. -/
def AuthOp.Calm : AuthOp → Prop
  | .set .accountIndex _ | .delete .accountIndex => True
  | .set _ _ | .delete _ | .setMigrated => False
  | _ => True

/-- An operation that touches neither the secret store nor the marks. -/
def AuthOp.Quiet : AuthOp → Prop
  | .set _ _ | .delete _ | .setMigrated => False
  | _ => True

/-- An operation that touches the entries of one account at most. -/
def AuthOp.Touches (lib : AuthLibrary) (accountId : String) (op : AuthOp) : Prop :=
  op.Calm ∨ ∃ kind, op = .delete (lib.accountSecret accountId kind) ∨
    ∃ value, op = .set (lib.accountSecret accountId kind) value

/-- An operation on the index, stored or cached. -/
def AuthOp.OfIndex : AuthOp → Prop
  | .get .accountIndex | .set .accountIndex _ | .delete .accountIndex | .cachedRecords | .cacheRecords _ => True
  | _ => False

/-- An operation of the migration. -/
def AuthOp.Migrates : AuthOp → Prop
  | .get _ | .set _ _ | .delete _ | .cachedRecords | .cacheRecords _ => True
  | _ => False

theorem AuthOp.OfIndex.migrates {op : AuthOp} (hop : op.OfIndex) : op.Migrates := by
  cases op <;> trivial

theorem AuthOp.OfIndex.calm {op : AuthOp} (hop : op.OfIndex) : op.Calm := by
  cases op with
  | set key | delete key => cases key with
    | accountIndex => trivial
    | legacy | account => exact hop.elim
  | setMigrated => exact hop.elim
  | _ => trivial

/-- Every operation of a call meets `C`. -/
structure Performs (C : AuthOp → Prop) {α : Type} (x : AuthM α) : Prop where
  meets : ∀ h, Meets (fun _ _ => True) (fun _ op => C op) (fun _ _ => True) x h

namespace Performs

variable {C C' : AuthOp → Prop} {α β : Type} {x : AuthM α}

theorem mono (hx : Performs C x) (hC : ∀ op, C op → C' op) : Performs C' x :=
  ⟨fun h => (hx.meets h).mono (fun _ op hop => hC op hop) fun _ _ h => h⟩

theorem pure (a : α) : Performs C (pure a) := ⟨fun _ => meets_pure trivial⟩

theorem throw (error : AuthError) : Performs C (throw error : AuthM α) := ⟨fun _ => meets_throw⟩

theorem result (r : Except AuthError α) : Performs C (ExceptT.mk (Pure.pure r)) :=
  ⟨fun _ => meets_result fun _ _ => trivial⟩

theorem bind {f : α → AuthM β} (hx : Performs C x) (hf : ∀ a, Performs C (f a)) : Performs C (x >>= f) :=
  ⟨fun h => (hx.meets h).bind fun h a _ => (hf a).meets h⟩

theorem map {f : α → β} (hx : Performs C x) : Performs C (f <$> x) := ⟨fun h => (hx.meets h).map fun _ _ _ => trivial⟩

theorem perform {op : AuthOp} (hop : C op) : Performs C (AuthM.perform op) :=
  ⟨fun _ => meets_perform op hop fun _ _ => trivial⟩

theorem getText {key : SecretKey} (hop : C (.get key)) : Performs C (getText key) :=
  ⟨fun _ => meets_getText hop fun _ _ => trivial⟩

theorem setText {key : SecretKey} {value : String} (hop : C (.set key value)) : Performs C (setText key value) :=
  ⟨fun _ => meets_setSecret hop fun _ => trivial⟩

theorem deleteSecret {key : SecretKey} (hop : C (.delete key)) : Performs C (deleteSecret key) :=
  ⟨fun _ => meets_deleteSecret hop fun _ => trivial⟩

theorem okOr (error : AuthError) (found : Option α) : Performs C (okOr error found) :=
  ⟨fun _ => meets_okOr fun _ _ => trivial⟩

theorem mapM {f : α → AuthM β} (hf : ∀ a, Performs C (f a)) (l : List α) : Performs C (l.mapM f) := by
  induction l with
  | nil => exact .pure _
  | cons a l ih =>
    rw [List.mapM_cons]
    exact .bind (hf a) fun _ => .bind ih fun _ => .pure _

/-- What the operations keep is kept. -/
theorem leads {m : Nat} {J : AuthWorld → Prop} (hx : Performs C x)
    (hkeep : ∀ op w, C op → J w → J (AuthWorld.handle m op w).2) :
    Leads m (fun w _ => J w) x (fun _ w _ => J w) fun w _ => J w :=
  (Meets.leads (I := fun w _ => J w) hx.meets fun op w _ hw hop => ⟨trivial, hkeep op w hop hw⟩).mono (fun _ _ h => h)
    (fun _ _ _ h => h.2) fun _ _ h => h

end Performs

namespace AuthLibrary

variable {lib : AuthLibrary} {accountId : String}

theorem readAccountIndex_performs {C : AuthOp → Prop} (hC : ∀ op, op.OfIndex → op.Quiet → C op) :
    Performs C lib.readAccountIndex := by
  refine .bind (.perform (hC _ trivial trivial)) fun cached => ?_
  cases cached with
  | some records => exact .pure _
  | none =>
    refine .bind (.getText (hC _ trivial trivial)) fun text => ?_
    cases text with
    | none => exact .bind (.perform (hC _ (by trivial) trivial)) fun _ => .pure _
    | some value => exact .bind (.okOr _ _) fun _ => .bind (.perform (hC _ (by trivial) trivial)) fun _ => .pure _

/-- The index is read, and a list is written. -/
theorem writeAccountIndex_performs {C : AuthOp → Prop} (records : List CodexAccountRecord)
    (hC : ∀ op, op.OfIndex → op.Quiet ∨ lib.Writes records op → C op) : Performs C (lib.writeAccountIndex records) := by
  refine .bind ?_ fun _ => .perform (hC _ (by trivial) (.inl trivial))
  unfold storeAccountIndex
  split
  · rename_i hempty
    exact .deleteSecret (hC _ trivial (.inr (.inl ⟨List.isEmpty_iff.1 hempty, rfl⟩)))
  · split
    · exact .throw _
    · rename_i text htext
      exact .setText (hC _ trivial (.inr (.inr ⟨text, htext, rfl⟩)))

theorem upsertAccountRecord_performs {C : AuthOp → Prop} (record : CodexAccountRecord)
    (hC : ∀ op, op.OfIndex → (op.Quiet ∨ ∃ records, lib.Writes records op) → C op) :
    Performs C (lib.upsertAccountRecord record) :=
  .bind (readAccountIndex_performs fun op hindex hop => hC op hindex (.inl hop)) fun _ =>
    writeAccountIndex_performs _ fun op hindex hop => hC op hindex (hop.imp_right fun hop => ⟨_, hop⟩)

theorem removeAccountRecord_performs {C : AuthOp → Prop} (accountId : String)
    (hC : ∀ op, op.OfIndex → (op.Quiet ∨ ∃ records, lib.Writes records op) → C op) :
    Performs C (lib.removeAccountRecord accountId) :=
  .bind (readAccountIndex_performs fun op hindex hop => hC op hindex (.inl hop)) fun _ =>
    writeAccountIndex_performs _ fun op hindex hop => hC op hindex (hop.imp_right fun hop => ⟨_, hop⟩)

theorem readScopedCredentials_quiet : Performs AuthOp.Quiet (lib.readScopedCredentials accountId) := by
  have htoken (kind : CredentialKind) : Performs AuthOp.Quiet (lib.readToken accountId kind) :=
    .bind (.getText trivial) fun _ => .okOr _ _
  have hmetadata : Performs AuthOp.Quiet (lib.readMetadata accountId) := by
    have hget : Performs AuthOp.Quiet (getText (lib.accountSecret accountId .metadata)) := .getText trivial
    refine ⟨fun h => ⟨(hget.meets h).sat.bind fun h r _ => ?_⟩⟩
    split <;> exact fun _ _ => trivial
  exact .bind (htoken _) fun _ => .bind (htoken _) fun _ => .bind (htoken _) fun _ => .bind hmetadata fun _ => .pure _

theorem statusFromStorage_quiet (record : CodexAccountRecord) : Performs AuthOp.Quiet (lib.statusFromStorage record) :=
  .bind (.getText trivial) fun _ => .bind (.getText trivial) fun _ => .bind (.getText trivial) fun _ =>
    .bind (.perform trivial) fun _ => .pure _

theorem storeScopedCredentials_performs {C : AuthOp → Prop} (credentials : CodexCredentials)
    (hset : ∀ kind value, C (.set (lib.accountSecret accountId kind) value)) :
    Performs C (lib.storeScopedCredentials accountId credentials) := by
  refine .bind (.setText (hset _ _)) fun _ => .bind (.setText (hset _ _)) fun _ => .bind (.setText (hset _ _)) fun _ => ?_
  split
  · exact .throw _
  · exact .setText (hset _ _)

theorem storeScopedCredentials_touches (credentials : CodexCredentials) :
    Performs (AuthOp.Touches lib accountId) (lib.storeScopedCredentials accountId credentials) :=
  storeScopedCredentials_performs credentials fun kind value => .inr ⟨kind, .inr ⟨value, rfl⟩⟩

theorem storeCredentials_touches (credentials : CodexCredentials) :
    Performs (AuthOp.Touches lib accountId) (lib.storeCredentials accountId credentials) := by
  refine .bind (.okOr _ _) fun claim => ?_
  split
  · exact .throw _
  · exact .bind (storeScopedCredentials_touches credentials) fun _ =>
      .bind (upsertAccountRecord_performs _ fun _ hop _ => .inl hop.calm) fun _ => .perform (.inl trivial)

/-- The entries of the account are deleted, and its record. -/
theorem logout_performs {C : AuthOp → Prop} (hdelete : ∀ kind, C (.delete (lib.accountSecret (trim accountId) kind)))
    (hcache : C (.removeCredentials (trim accountId)))
    (hC : ∀ op, op.OfIndex → (op.Quiet ∨ ∃ records, lib.Writes records op) → C op) : Performs C (lib.logout accountId) := by
  have hkinds (kinds : List CredentialKind) (firstError : Option AuthError) :
      Performs C (lib.deleteKinds (trim accountId) kinds firstError) := by
    induction kinds generalizing firstError with
    | nil => cases firstError with
      | none => exact .pure _
      | some error => exact .throw _
    | cons kind kinds ih =>
      have hone : Performs C (deleteSecret (lib.accountSecret (trim accountId) kind)) := .deleteSecret (hdelete kind)
      refine ⟨fun h => ⟨(hone.meets h).sat.bind fun h r _ => ?_⟩⟩
      cases r with
      | ok => exact ((ih _).meets h).sat
      | error error => exact ((ih _).meets h).sat
  unfold logout
  split
  · exact .throw _
  · exact .bind (.bind (.perform hcache) fun _ => hkinds _ _) fun _ => removeAccountRecord_performs _ hC

theorem logout_touches : Performs (AuthOp.Touches lib (trim accountId)) (lib.logout accountId) :=
  logout_performs (fun kind => .inr ⟨kind, .inl rfl⟩) (.inl trivial) fun _ hop _ => .inl hop.calm

theorem migrateLegacyCredentials_performs {C : AuthOp → Prop} (hget : ∀ kind, C (.get (.legacy kind)))
    (hset : ∀ accountId kind value, C (.set (lib.accountSecret accountId kind) value))
    (hC : ∀ op, op.OfIndex → (op.Quiet ∨ ∃ records, lib.Writes records op) → C op)
    (hdelete : ∀ kind, C (.delete (.legacy kind))) : Performs C lib.migrateLegacyCredentials := by
  refine .bind (.getText (hget _)) fun idToken => ?_
  cases idToken with
  | none => exact .pure _
  | some idToken =>
    refine .bind (.getText (hget _)) fun accessToken => ?_
    cases accessToken with
    | none => exact .pure _
    | some accessToken =>
      refine .bind (.getText (hget _)) fun refreshToken => ?_
      cases refreshToken with
      | none => exact .pure _
      | some refreshToken =>
        refine .bind (.okOr _ _) fun accountId => .bind (.getText (hget _)) fun metadata => ?_
        refine .bind (storeScopedCredentials_performs _ fun _ _ => hset _ _ _) fun _ => ?_
        refine .bind (upsertAccountRecord_performs _ hC) fun _ => ?_
        exact .bind (.deleteSecret (hdelete _)) fun _ => .bind (.deleteSecret (hdelete _)) fun _ =>
          .bind (.deleteSecret (hdelete _)) fun _ => .deleteSecret (hdelete _)

theorem migrateLegacyCredentials_migrates (lib : AuthLibrary) : Performs AuthOp.Migrates lib.migrateLegacyCredentials :=
  migrateLegacyCredentials_performs (fun _ => trivial) (fun _ _ _ => trivial) (fun _ hop _ => hop.migrates) fun _ => trivial

end AuthLibrary

/-! ## What is kept -/

/-- The legacy entries have all three tokens. -/
def LegacyComplete (w : AuthWorld) : Prop :=
  ∀ kind, kind ≠ .metadata → notBlank (w.secrets (.legacy kind)) ≠ none

/-- The legacy entries would be migrated to the account. -/
def AuthLibrary.LegacyFor (lib : AuthLibrary) (w : AuthWorld) (accountId : String) : Prop :=
  LegacyComplete w ∧ (notBlank (w.secrets (.legacy .idToken))).bind lib.accountClaim = some accountId

/-- The entries of the accounts in `S` are those of `E`, and the legacy entries are not for them. A manager that has
migrated has left no complete legacy entries. -/
structure EntriesKept (lib : AuthLibrary) (inputs : Nat → AuthInput) (S : String → Prop)
    (E : String → CredentialKind → Option String) (w : AuthWorld) : Prop where
  inputs : w.inputs = inputs
  migrated : ∀ m, (w.managers m).migrated = true → ¬ LegacyComplete w
  aside : ∀ a, S a → ¬ lib.LegacyFor w a
  entries : ∀ a, S a → lib.entries a w = E a

/-- `EntriesKept`, with the migration done. -/
structure EntriesSettled (lib : AuthLibrary) (inputs : Nat → AuthInput) (S : String → Prop)
    (E : String → CredentialKind → Option String) (w : AuthWorld) : Prop where
  kept : EntriesKept lib inputs S E w
  legacy : ¬ LegacyComplete w

section EntriesKept

variable {lib : AuthLibrary} {inputs : Nat → AuthInput} {S : String → Prop}
  {E : String → CredentialKind → Option String} {w w' : AuthWorld} {m : Nat} {op : AuthOp} {accountId : String}

/-- Legacy entries stay as they are or go. -/
def LegacyShrinks (w w' : AuthWorld) : Prop :=
  ∀ kind, w'.secrets (.legacy kind) = w.secrets (.legacy kind) ∨ w'.secrets (.legacy kind) = none

theorem LegacyShrinks.complete (h : LegacyShrinks w w') (hcomplete : LegacyComplete w') :
    LegacyComplete w ∧ w'.secrets (.legacy .idToken) = w.secrets (.legacy .idToken) := by
  have hsame (kind : CredentialKind) (hkind : kind ≠ .metadata) :
      w'.secrets (.legacy kind) = w.secrets (.legacy kind) := by
    refine (h kind).resolve_right fun hnone => hcomplete kind hkind ?_
    rw [hnone]
    rfl
  exact ⟨fun kind hkind => by rw [← hsame kind hkind]; exact hcomplete kind hkind, hsame .idToken (by decide)⟩

theorem LegacyShrinks.for (h : LegacyShrinks w w') (hfor : lib.LegacyFor w' accountId) : lib.LegacyFor w accountId := by
  obtain ⟨hcomplete, hid⟩ := h.complete hfor.1
  exact ⟨hcomplete, by rw [← hid]; exact hfor.2⟩

theorem EntriesKept.transfer (h : EntriesKept lib inputs S E w) (hinputs : w'.inputs = w.inputs)
    (hlegacy : LegacyShrinks w w') (hmigrated : ∀ m, (w'.managers m).migrated = (w.managers m).migrated)
    (hentries : ∀ a, S a → lib.entries a w' = lib.entries a w) : EntriesKept lib inputs S E w' where
  inputs := by rw [hinputs, h.inputs]
  migrated m hm := by
    rw [hmigrated] at hm
    exact fun hcomplete => h.migrated m hm (hlegacy.complete hcomplete).1
  aside a ha hfor := h.aside a ha (hlegacy.for hfor)
  entries a ha := by rw [hentries a ha, h.entries a ha]

/-- What an operation does to the inputs, the marks and the entries. -/
theorem handle_frame (m : Nat) (op : AuthOp) (w : AuthWorld) (hop : op ≠ .setMigrated) :
    (AuthWorld.handle m op w).2.inputs = w.inputs ∧
      (∀ m', ((AuthWorld.handle m op w).2.managers m').migrated = (w.managers m').migrated) ∧
      ∀ key, (∀ value, op ≠ .set key value) → op ≠ .delete key →
        (AuthWorld.handle m op w).2.secrets key = w.secrets key := by
  have hmodify (f : CodexManager → CodexManager) (hf : ∀ c, (f c).migrated = c.migrated) (m' : Nat) :
      ((w.modify m f).managers m').migrated = (w.managers m').migrated := by
    rw [AuthWorld.managers_modify]
    split
    · rename_i hm
      rw [hf, hm]
    · rfl
  cases op with
  | get key => simp only [AuthWorld.handle, AuthWorld.attempt]; split <;> exact ⟨rfl, fun _ => rfl, fun _ _ _ => rfl⟩
  | set key value =>
    simp only [AuthWorld.handle, AuthWorld.attempt]
    split
    · exact ⟨rfl, fun _ => rfl, fun _ _ _ => rfl⟩
    · refine ⟨rfl, fun _ => rfl, fun key' hset _ => ?_⟩
      have hne : key' ≠ key := fun heq => hset value (by rw [heq])
      simp [hne]
  | delete key =>
    simp only [AuthWorld.handle, AuthWorld.attempt]
    split
    · exact ⟨rfl, fun _ => rfl, fun _ _ _ => rfl⟩
    · refine ⟨rfl, fun _ => rfl, fun key' _ hdelete => ?_⟩
      have hne : key' ≠ key := fun heq => hdelete (by rw [heq])
      simp [hne]
  | setMigrated => exact absurd rfl hop
  | cacheRecords | cacheCredentials | removeCredentials | lockMigrated | unlockMigrated | lockAccount | unlockAccount =>
    refine ⟨rfl, fun m' => ?_, fun _ _ _ => rfl⟩
    simp only [AuthWorld.handle, AuthWorld.managers_tick]
    apply hmodify
    exact fun _ => rfl
  | cachedRecords | cachedCredentials | postForm | postJson | waitForCallback | unixNow =>
    exact ⟨rfl, fun _ => rfl, fun _ _ _ => rfl⟩

theorem inputs_handle (m : Nat) (op : AuthOp) (w : AuthWorld) : (AuthWorld.handle m op w).2.inputs = w.inputs := by
  by_cases hop : op = .setMigrated
  · subst hop
    rfl
  · exact (handle_frame m op w hop).1

/-- An operation of the migration leaves the locks and the mark. -/
theorem handle_migrates {m : Nat} {op : AuthOp} (hop : op.Migrates) (w : AuthWorld) :
    (AuthWorld.handle m op w).2.inputs = w.inputs ∧
      ∃ records, (AuthWorld.handle m op w).2.managers m = { w.managers m with records := records } := by
  cases op with
  | get | set | delete =>
    simp only [AuthWorld.handle, AuthWorld.attempt]
    split <;> exact ⟨rfl, (w.managers m).records, rfl⟩
  | cachedRecords => exact ⟨rfl, (w.managers m).records, rfl⟩
  | cacheRecords records => exact ⟨rfl, some records, by simp [AuthWorld.handle]⟩
  | _ => exact hop.elim

theorem AuthOp.Touches.unmarked (hop : op.Touches lib accountId) : op ≠ .setMigrated := by
  rintro rfl
  rcases hop with hop | ⟨kind, hop | ⟨value, hop⟩⟩
  · exact hop
  · cases hop
  · cases hop

theorem calm_frame (hop : op.Calm) :
    (∀ key, key ≠ .accountIndex → (AuthWorld.handle m op w).2.secrets key = w.secrets key) ∧
      ∀ m', ((AuthWorld.handle m op w).2.managers m').migrated = (w.managers m').migrated := by
  have hmark : op ≠ .setMigrated := by
    rintro rfl
    exact hop
  obtain ⟨-, hmigrated, hsecrets⟩ := handle_frame m op w hmark
  refine ⟨fun key hkey => hsecrets key (fun value heq => ?_) fun heq => ?_, hmigrated⟩ <;>
  · subst heq
    cases key with
    | accountIndex => exact hkey rfl
    | legacy | account => exact hop

/-- An operation that touches one account keeps the legacy entries and the marks. -/
theorem touches_legacy (hop : op.Touches lib accountId) :
    (∀ kind, (AuthWorld.handle m op w).2.secrets (.legacy kind) = w.secrets (.legacy kind)) ∧
      ∀ m', ((AuthWorld.handle m op w).2.managers m').migrated = (w.managers m').migrated := by
  obtain ⟨-, hmigrated, hsecrets⟩ := handle_frame m op w hop.unmarked
  refine ⟨fun kind => ?_, hmigrated⟩
  rcases hop with hop | ⟨kind', rfl | ⟨value, rfl⟩⟩
  · exact (calm_frame hop).1 _ (by simp)
  · exact hsecrets _ (by simp) (by simp [AuthLibrary.accountSecret])
  · exact hsecrets _ (by simp [AuthLibrary.accountSecret]) (by simp)

/-- An operation that touches one account keeps the others, and the legacy entries. -/
theorem touches_frame (hinj : Function.Injective lib.fingerprint) (hop : op.Touches lib accountId) :
    (AuthWorld.handle m op w).2.inputs = w.inputs ∧
      (∀ m', ((AuthWorld.handle m op w).2.managers m').migrated = (w.managers m').migrated) ∧
      (∀ kind, (AuthWorld.handle m op w).2.secrets (.legacy kind) = w.secrets (.legacy kind)) ∧
      ∀ a, a ≠ accountId ∨ op.Calm → lib.entries a (AuthWorld.handle m op w).2 = lib.entries a w := by
  have hother {a : String} (ha : a ≠ accountId) (kind kind' : CredentialKind) :
      lib.accountSecret a kind ≠ lib.accountSecret accountId kind' := fun h => by
    injection h with hfingerprint
    exact ha (hinj hfingerprint)
  obtain ⟨hinputs, hmigrated, hsecrets⟩ := handle_frame m op w hop.unmarked
  refine ⟨hinputs, hmigrated, (touches_legacy hop).1, fun a ha => funext fun kind => ?_⟩
  rcases hop with hop | ⟨kind', rfl | ⟨value, rfl⟩⟩
  · exact (calm_frame hop).1 _ (by simp [AuthLibrary.accountSecret])
  · rcases ha with ha | ha
    · refine hsecrets _ (by simp) fun heq => hother ha kind kind' ?_
      injection heq with heq
      exact heq.symm
    · exact ha.elim
  · rcases ha with ha | ha
    · refine hsecrets _ (fun _ heq => hother ha kind kind' ?_) (by simp)
      injection heq with heq _
      exact heq.symm
    · exact ha.elim

theorem touches_shrinks (accountId : String) (hinj : Function.Injective lib.fingerprint) (hop : op.Touches lib accountId) :
    LegacyShrinks w (AuthWorld.handle m op w).2 := fun kind => .inl ((touches_frame hinj hop).2.2.1 kind)

theorem EntriesKept.touches (h : EntriesKept lib inputs S E w) (accountId : String)
    (hinj : Function.Injective lib.fingerprint) (hop : op.Touches lib accountId) (hS : ¬ S accountId ∨ op.Calm) :
    EntriesKept lib inputs S E (AuthWorld.handle m op w).2 := by
  obtain ⟨hinputs, hmigrated, -, hentries⟩ := touches_frame (m := m) (w := w) hinj hop
  exact h.transfer hinputs (touches_shrinks accountId hinj hop) hmigrated fun a ha =>
    hentries a (hS.imp (fun hS heq => hS (by rw [← heq]; exact ha)) id)

theorem EntriesKept.calm (h : EntriesKept lib inputs S E w) (hinj : Function.Injective lib.fingerprint) (hop : op.Calm) :
    EntriesKept lib inputs S E (AuthWorld.handle m op w).2 := h.touches "" hinj (.inl hop) (.inr hop)

theorem EntriesSettled.calm (h : EntriesSettled lib inputs S E w) (hinj : Function.Injective lib.fingerprint)
    (hop : op.Calm) : EntriesSettled lib inputs S E (AuthWorld.handle m op w).2 :=
  ⟨h.kept.calm hinj hop, fun hcomplete =>
    h.legacy ((touches_shrinks "" hinj (.inl hop)).complete hcomplete).1⟩

theorem EntriesKept.tick (h : EntriesKept lib inputs S E w) :
    EntriesKept lib inputs S E w.tick := ⟨h.inputs, h.migrated, h.aside, h.entries⟩

/-- A legacy entry goes. -/
theorem shrinks_write (kind : CredentialKind) : LegacyShrinks w (w.write (.legacy kind) none).tick := by
  intro kind'
  by_cases hkind : kind' = kind
  · exact .inr (by simp [hkind])
  · exact .inl (by simp [hkind])

theorem EntriesKept.write (h : EntriesKept lib inputs S E w) (kind : CredentialKind) :
    EntriesKept lib inputs S E (w.write (.legacy kind) none).tick :=
  h.transfer rfl (shrinks_write kind) (fun _ => rfl) fun a _ => funext fun kind' => by
    simp [AuthLibrary.entries, AuthLibrary.accountSecret]

/-! ## The migration -/

/-- The legacy entries that are migrated are not for the accounts whose credentials are kept. -/
theorem migrateLegacyCredentials_kept (hinj : Function.Injective lib.fingerprint) :
    Leads m (fun w _ => EntriesKept lib inputs S E w) lib.migrateLegacyCredentials (fun _ w _ => EntriesSettled lib inputs S E w)
      fun w _ => EntriesKept lib inputs S E w := by
  have hget (kind : CredentialKind) (P : AuthWorld → Prop) (hP : ∀ w, P w → P w.tick)
      (hkept : ∀ w, P w → EntriesKept lib inputs S E w) :
      Leads m (fun w _ => P w) (getText (.legacy kind)) (fun text w _ => P w ∧ notBlank (w.secrets (.legacy kind)) = text)
        fun w _ => EntriesKept lib inputs S E w :=
    leads_getText (fun w _ _ hw => ⟨hP w hw, rfl⟩) fun w _ _ _ hw => (hkept w hw).tick
  have hdelete (kind : CredentialKind) :
      Leads m (fun w _ => EntriesSettled lib inputs S E w) (deleteSecret (.legacy kind)) (fun _ w _ => EntriesSettled lib inputs S E w)
        fun w _ => EntriesKept lib inputs S E w :=
    leads_deleteSecret (fun w _ _ hw => ⟨hw.kept.write kind, fun hcomplete =>
      hw.legacy ((shrinks_write kind).complete hcomplete).1⟩) fun w _ _ _ hw => hw.kept.tick
  refine (hget .idToken (EntriesKept lib inputs S E) (fun _ => EntriesKept.tick) fun _ h => h).bind fun idToken => ?_
  cases idToken with
  | none => exact leads_pure fun w _ hw => ⟨hw.1, fun hcomplete => hcomplete .idToken (by decide) hw.2⟩
  | some idToken =>
    refine (hget .accessToken _ (fun _ h => ⟨h.1.tick, h.2⟩) fun _ h => h.1).bind fun accessToken => ?_
    cases accessToken with
    | none => exact leads_pure fun w _ hw => ⟨hw.1.1, fun hcomplete => hcomplete .accessToken (by decide) hw.2⟩
    | some accessToken =>
      refine (hget .refreshToken _ (fun _ h => ⟨⟨h.1.1.tick, h.1.2⟩, h.2⟩) fun _ h => h.1.1).bind fun refreshToken => ?_
      cases refreshToken with
      | none => exact leads_pure fun w _ hw => ⟨hw.1.1.1, fun hcomplete => hcomplete .refreshToken (by decide) hw.2⟩
      | some refreshToken =>
        have hclaim : Leads m (fun w _ => ((EntriesKept lib inputs S E w ∧ notBlank (w.secrets (.legacy .idToken)) = some idToken) ∧
            notBlank (w.secrets (.legacy .accessToken)) = some accessToken) ∧
            notBlank (w.secrets (.legacy .refreshToken)) = some refreshToken)
            (okOr (.new .credentialCorrupted "Legacy Codex credentials are missing a ChatGPT account id.")
              (lib.accountClaim idToken)) (fun accountId w _ => EntriesKept lib inputs S E w ∧ lib.LegacyFor w accountId)
            fun w _ => EntriesKept lib inputs S E w := by
          refine leads_okOr (fun accountId w _ hclaim hw => ⟨hw.1.1.1, fun kind hkind => ?_, ?_⟩) fun w _ hw => hw.1.1.1
          · cases kind with
            | idToken => rw [hw.1.1.2]; nofun
            | accessToken => rw [hw.1.2]; nofun
            | refreshToken => rw [hw.2]; nofun
            | metadata => exact absurd rfl hkind
          · rw [hw.1.1.2, Option.bind_some, hclaim]
        refine hclaim.bind fun accountId => ?_
        refine leads_knowing (C := ¬ S accountId) (fun w _ hw hS => hw.1.aside accountId hS hw.2) fun hnot => ?_
        refine ((hget .metadata (EntriesKept lib inputs S E) (fun _ => EntriesKept.tick) fun _ h => h).pre fun w _ hw => hw.1).bind fun metadata => ?_
        refine (((storeScopedCredentials_touches _).leads fun op w hop (h : EntriesKept lib inputs S E w) =>
          h.touches accountId hinj hop (.inl hnot)).pre fun w _ hw => hw.1).bind fun _ => ?_
        refine ((upsertAccountRecord_performs _ fun _ hop _ => hop).leads fun op w hop
          (h : EntriesKept lib inputs S E w) => h.calm hinj hop.calm).bind fun _ => ?_
        have hfirst : Leads m (fun w _ => EntriesKept lib inputs S E w) (deleteSecret (.legacy .accessToken))
            (fun _ w _ => EntriesSettled lib inputs S E w) fun w _ => EntriesKept lib inputs S E w :=
          leads_deleteSecret (fun w _ _ hw => ⟨hw.write _, fun hcomplete => hcomplete .accessToken (by decide) (by simp [notBlank])⟩)
            fun w _ _ _ hw => hw.tick
        exact hfirst.bind fun _ => (hdelete _).bind fun _ => (hdelete _).bind fun _ => hdelete _

theorem ensureLegacyCredentialsMigrated_settled (hinj : Function.Injective lib.fingerprint) :
    Leads m (fun w _ => EntriesKept lib inputs S E w) lib.ensureLegacyCredentialsMigrated
      (fun _ w _ => EntriesSettled lib inputs S E w) fun w _ => EntriesKept lib inputs S E w := by
  have hlock : Leads m (fun w _ => EntriesKept lib inputs S E w) (perform .lockMigrated)
      (fun (migrated : Bool) w _ => EntriesKept lib inputs S E w ∧ (migrated = true → ¬ LegacyComplete w))
      fun w _ => EntriesKept lib inputs S E w :=
    leads_perform fun w _ hw => ⟨hw.calm hinj (show AuthOp.lockMigrated.Calm from trivial), fun hm => hw.migrated m hm⟩
  refine hlock.bind fun migrated => Leads.unlocking ?_ (fun _ w _ hw => hw.calm hinj (show AuthOp.unlockMigrated.Calm from trivial))
    fun w _ hw => hw.calm hinj (show AuthOp.unlockMigrated.Calm from trivial)
  cases migrated with
  | true => exact leads_pure fun w _ hw => ⟨hw.1, hw.2 rfl⟩
  | false =>
    refine ((migrateLegacyCredentials_kept hinj).pre fun w _ hw => hw.1).bind fun _ => leads_perform fun w _ hw => ?_
    exact ⟨⟨hw.kept.inputs, fun _ _ => hw.legacy, hw.kept.aside, hw.kept.entries⟩, hw.legacy⟩

end EntriesKept

end Aifluxon
