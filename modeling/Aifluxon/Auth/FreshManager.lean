import Aifluxon.Auth.RegularCalls
import Mathlib.Logic.Equiv.List

/-!
# A fresh manager

What a manager reads that has done nothing yet, from a secret store that works.

* `CodexCredentials.Readable`, `AuthLibrary.PrintsStore` : credentials that can be read back, and what is printed of them;
* `AuthLibrary.StoreFit`, `MigrationFit` : nothing is in the way of a write, or of the migration;
  `ensureLegacyCredentialsMigrated_fit` : it does not fail;
* `readCredentials_fresh` : the credentials that are stored are read;
* `AuthLibrary.ofStore` : a library that prints every index.
-/

namespace Aifluxon

open AuthM AuthLibrary

/-- The manager `m` is a new one. -/
def AuthWorld.fresh (m : Nat) (w : AuthWorld) : AuthWorld := w.modify m fun _ => .new

/-- Metadata and indexes are printed. -/
structure AuthLibrary.PrintsStore (lib : AuthLibrary) : Prop where
  metadata : ∀ n ≤ u64Max, ∃ text, lib.serde.toString (metadataJson n) = .ok text
  index : ∀ records, ∃ text, lib.printIndex records = .ok text

/-- Credentials that can be read from the store. -/
structure CodexCredentials.Readable (credentials : CodexCredentials) : Prop where
  accessToken : trim credentials.accessToken ≠ ""
  refreshToken : trim credentials.refreshToken ≠ ""
  idToken : trim credentials.idToken ≠ ""
  lastRefreshAt : credentials.lastRefreshAt ≤ u64Max

/-! ## The migration does not fail -/

/-- The secret store works, and its index can be read. -/
def AuthLibrary.StoreFit (lib : AuthLibrary) (w : AuthWorld) : Prop := w.Working ∧ lib.IndexReadable w

section Fresh

variable {lib : AuthLibrary} {w : AuthWorld} {m : Nat} {accountId : String} {credentials : CodexCredentials} {α : Type}
  {P : AuthWorld → Prop} {key : SecretKey}

/-- A call of a secret store that works. -/
theorem leads_getText_working {Q : Option String → AuthWorld → Prop} (hworking : ∀ w, P w → w.Working)
    (hQ : ∀ w, P w → Q (notBlank (w.secrets key)) w.tick) :
    Leads m (fun w _ => P w) (getText key) (fun text w _ => Q text w) fun _ _ => False :=
  leads_getText (fun w _ _ hw => hQ w hw) fun w _ error hfault hw => by
    rw [AuthWorld.input, hworking w hw] at hfault
    cases hfault

theorem leads_setText_working {value : String} {Q : AuthWorld → Prop} (hworking : ∀ w, P w → w.Working)
    (hQ : ∀ w, P w → Q (w.write key (some value)).tick) :
    Leads m (fun w _ => P w) (setText key value) (fun _ w _ => Q w) fun _ _ => False :=
  leads_setText (fun w _ _ hw => hQ w hw) fun w _ error hfault hw => by
    rw [AuthWorld.input, hworking w hw] at hfault
    cases hfault

theorem leads_deleteSecret_working {Q : AuthWorld → Prop} (hworking : ∀ w, P w → w.Working)
    (hQ : ∀ w, P w → Q (w.write key none).tick) :
    Leads m (fun w _ => P w) (deleteSecret key) (fun _ w _ => Q w) fun _ _ => False :=
  leads_deleteSecret (fun w _ _ hw => hQ w hw) fun w _ error hfault hw => by
    rw [AuthWorld.input, hworking w hw] at hfault
    cases hfault

/-- Another entry is written. -/
theorem storeFit_write (h : lib.StoreFit w) (hkey : key ≠ .accountIndex) (value : Option String) :
    lib.StoreFit (w.write key value).tick := by
  refine ⟨h.1, fun text htext => h.2 text ?_⟩
  rw [AuthWorld.secrets_tick, AuthWorld.secrets_write, if_neg hkey.symm] at htext
  exact htext

theorem storeScopedCredentials_fit (hprints : lib.PrintsStore) (hlast : credentials.lastRefreshAt ≤ u64Max) :
    Leads m (fun w _ => lib.StoreFit w) (lib.storeScopedCredentials accountId credentials) (fun _ w _ => lib.StoreFit w)
      fun _ _ => False := by
  have hset (kind : CredentialKind) (value : String) :
      Leads m (fun w _ => lib.StoreFit w) (setText (lib.accountSecret accountId kind) value) (fun _ w _ => lib.StoreFit w)
        fun _ _ => False :=
    leads_setText_working (fun _ hw => hw.1) fun _ hw => storeFit_write hw (by simp [accountSecret]) _
  obtain ⟨text, htext⟩ := hprints.metadata _ hlast
  unfold storeScopedCredentials
  rw [htext]
  exact (hset _ _).bind fun _ => (hset _ _).bind fun _ => (hset _ _).bind fun _ => hset _ _

theorem upsertAccountRecord_fit (hserde : lib.serde.Lawful) (hprints : lib.PrintsStore) (record : CodexAccountRecord) :
    Leads m (fun w _ => lib.StoreFit w) (lib.upsertAccountRecord record) (fun _ w _ => lib.StoreFit w) fun _ _ => False := by
  have hcache (records : List CodexAccountRecord) : Leads m (fun w _ => lib.StoreFit w) (perform (.cacheRecords records))
      (fun _ w _ => lib.StoreFit w) fun _ _ => False := leads_perform fun _ _ hw => hw
  have hread : Leads m (fun w _ => lib.StoreFit w) lib.readAccountIndex (fun _ w _ => lib.StoreFit w) fun _ _ => False := by
    have hcached : Leads m (fun w _ => lib.StoreFit w) (perform .cachedRecords) (fun _ w _ => lib.StoreFit w)
        fun _ _ => False := leads_perform fun _ _ hw => hw
    refine hcached.bind fun cached => ?_
    cases cached with
    | some records => exact leads_pure fun _ _ hw => hw
    | none =>
      refine (leads_getText_working (Q := fun text w => lib.StoreFit w ∧ ∀ value, text = some value → lib.parseIndex value ≠ none)
        (fun _ hw => hw.1) fun _ hw => ⟨hw, fun value hvalue => hw.2 value hvalue⟩).bind fun text => ?_
      cases text with
      | none => exact ((hcache []).pre fun _ _ hw => hw.1).bind fun _ => leads_pure fun _ _ hw => hw
      | some value =>
        refine leads_knowing (fun _ _ hw => hw.2 value rfl) fun hparse => ?_
        obtain ⟨records, hrecords⟩ := Option.ne_none_iff_exists'.1 hparse
        dsimp only
        rw [hrecords]
        refine Leads.bind (Q := fun _ w _ => lib.StoreFit w) (leads_pure fun _ _ hw => hw.1) fun records => ?_
        exact (hcache _).bind fun _ => leads_pure fun _ _ hw => hw
  refine hread.bind fun records => Leads.bind (Q := fun _ w _ => lib.StoreFit w) ?_ fun _ => hcache _
  unfold storeAccountIndex
  split
  · refine leads_deleteSecret_working (fun _ hw => hw.1) fun w hw => ⟨hw.1, fun text htext => ?_⟩
    simp [notBlank] at htext
  · obtain ⟨encoded, hencoded⟩ := hprints.index (record.upsert records)
    rw [hencoded]
    refine leads_setText_working (fun _ hw => hw.1) fun w hw => ⟨hw.1, fun text htext => ?_⟩
    rw [AuthWorld.secrets_tick, AuthWorld.secrets_write, if_pos rfl] at htext
    obtain rfl := Option.some.inj (Option.filter_eq_some_iff.1 htext).1
    rw [(parseIndex_printIndex hserde hencoded).1]
    intro hnone
    cases hnone

theorem parseMetadata_le {text : String} {n : Nat} (h : lib.parseMetadata text = some n) : n ≤ u64Max := by
  obtain ⟨v, -, hv⟩ := Option.bind_eq_some_iff.1 h
  unfold Value.requiredField Value.readNat at hv
  split at hv
  · split at hv
    · split at hv
      · rename_i hle
        cases hv
        exact hle.2
      · cases hv
    · cases hv
  · cases hv

/-- What is printed of the metadata is read. -/
theorem parseMetadata_newEntries (hserde : lib.serde.Lawful) (hprints : lib.PrintsStore)
    (hlast : credentials.lastRefreshAt ≤ u64Max) :
    ∃ text, lib.newEntries credentials .metadata = some text ∧ notBlank (some text) = some text ∧
      lib.parseMetadata text = some credentials.lastRefreshAt := by
  obtain ⟨text, htext⟩ := hprints.metadata _ hlast
  have hint : (Value.ofNat credentials.lastRefreshAt).Integral := by
    rw [Value.ofNat, Value.Integral]
    unfold u64Max at hlast
    omega
  obtain ⟨hparse, hblank⟩ := hserde.fromStr_toString (metadataJson credentials.lastRefreshAt) text
    ⟨hint, trivial⟩ (show 1 ≤ recursionLimit by decide) htext
  refine ⟨text, by simp [newEntries, htext, Except.toOption], by simp [notBlank, Option.filter_some, hblank], ?_⟩
  rw [parseMetadata, hparse, Option.bind_some]
  exact Value.readNat_ofNat hlast

/-- Legacy entries that are complete can be migrated. -/
def AuthLibrary.MigrationFit (lib : AuthLibrary) (w : AuthWorld) : Prop :=
  w.Working ∧ (LegacyComplete w → (∃ other, lib.LegacyFor w other) ∧ lib.IndexReadable w)

/-- The migration does not fail. -/
theorem migrateLegacyCredentials_fit (hserde : lib.serde.Lawful) (hprints : lib.PrintsStore) :
    Leads m (fun w _ => lib.MigrationFit w) lib.migrateLegacyCredentials (fun _ _ _ => True) fun _ _ => False := by
  have hget (kind : CredentialKind) (P : AuthWorld → Prop) (hP : ∀ w, P w → P w.tick) (hworking : ∀ w, P w → w.Working) :
      Leads m (fun w _ => P w) (getText (.legacy kind)) (fun text w _ => P w ∧ notBlank (w.secrets (.legacy kind)) = text)
        fun _ _ => False := leads_getText_working hworking fun w hw => ⟨hP w hw, rfl⟩
  refine (hget .idToken lib.MigrationFit (fun _ hw => hw) fun _ hw => hw.1).bind fun idToken => ?_
  cases idToken with
  | none => exact leads_pure fun _ _ _ => trivial
  | some idToken =>
    refine (hget .accessToken _ (fun _ hw => hw) fun _ hw => hw.1.1).bind fun accessToken => ?_
    cases accessToken with
    | none => exact leads_pure fun _ _ _ => trivial
    | some accessToken =>
      refine (hget .refreshToken _ (fun _ hw => hw) fun _ hw => hw.1.1.1).bind fun refreshToken => ?_
      cases refreshToken with
      | none => exact leads_pure fun _ _ _ => trivial
      | some refreshToken =>
        have hready (w : AuthWorld) (hw : ((lib.MigrationFit w ∧ notBlank (w.secrets (.legacy .idToken)) = some idToken) ∧
            notBlank (w.secrets (.legacy .accessToken)) = some accessToken) ∧
            notBlank (w.secrets (.legacy .refreshToken)) = some refreshToken) :
            lib.StoreFit w ∧ ∃ other, lib.accountClaim idToken = some other := by
          obtain ⟨⟨⟨hfit, hid⟩, haccess⟩, hrefresh⟩ := hw
          have hcomplete : LegacyComplete w := fun kind hkind => by
            cases kind with
            | idToken => rw [hid]; nofun
            | accessToken => rw [haccess]; nofun
            | refreshToken => rw [hrefresh]; nofun
            | metadata => exact absurd rfl hkind
          obtain ⟨⟨other, -, hother⟩, hindex⟩ := hfit.2 hcomplete
          rw [hid, Option.bind_some] at hother
          exact ⟨⟨hfit.1, hindex⟩, other, hother⟩
        refine leads_knowing (fun w _ hw => (hready w hw).2) fun ⟨other, hother⟩ => ?_
        dsimp only
        rw [hother]
        refine Leads.bind (Q := fun _ w _ => lib.StoreFit w) (leads_pure fun w _ hw => (hready w hw).1) fun accountId => ?_
        refine (hget .metadata lib.StoreFit (fun _ hw => hw) fun _ hw => hw.1).bind fun metadata => ?_
        have hlast : (metadata.bind lib.parseMetadata).getD 0 ≤ u64Max := by
          cases hparse : metadata.bind lib.parseMetadata with
          | none => exact Nat.zero_le _
          | some n =>
            obtain ⟨text, -, htext⟩ := Option.bind_eq_some_iff.1 hparse
            exact parseMetadata_le htext
        have hdelete (kind : CredentialKind) : Leads m (fun w _ => lib.StoreFit w) (deleteSecret (.legacy kind))
            (fun _ w _ => lib.StoreFit w) fun _ _ => False :=
          leads_deleteSecret_working (fun _ hw => hw.1) fun _ hw => storeFit_write hw (by simp) _
        refine ((storeScopedCredentials_fit hprints hlast).pre fun _ _ hw => hw.1).bind fun _ => ?_
        refine (upsertAccountRecord_fit hserde hprints _).bind fun _ => (hdelete _).bind fun _ => (hdelete _).bind fun _ =>
          (hdelete _).bind fun _ => ?_
        exact (hdelete _).mono (fun _ _ hw => hw) (fun _ _ _ _ => trivial) fun _ _ h => h

/-- A fresh manager comes through the migration. -/
theorem ensureLegacyCredentialsMigrated_fit (hserde : lib.serde.Lawful) (hprints : lib.PrintsStore) :
    Leads m (fun w _ => lib.MigrationFit w) lib.ensureLegacyCredentialsMigrated (fun _ _ _ => True) fun _ _ => False := by
  have hlock : Leads m (fun w _ => lib.MigrationFit w) (perform .lockMigrated) (fun _ w _ => lib.MigrationFit w)
      fun _ _ => False := leads_perform fun _ _ hw => hw
  refine hlock.bind fun migrated => Leads.unlocking ?_ (fun _ _ _ _ => trivial) fun _ _ h => h
  cases migrated with
  | true => exact leads_pure fun _ _ _ => trivial
  | false => exact (migrateLegacyCredentials_fit hserde hprints).bind fun _ => leads_perform fun _ _ _ => trivial

theorem readToken_exec_ok {kind : CredentialKind} {token : String} (hw : w.Working)
    (hentry : lib.entries accountId w kind = some token) (hblank : trim token ≠ "") :
    exec m (lib.readToken accountId kind) w = (.ok token, w.tick) := by
  have hget : exec m (getText (lib.accountSecret accountId kind)) w = (.ok (some token), w.tick) := by
    unfold getText getSecret
    rw [exec_map, show exec m (ExceptT.mk (Procedure.perform (AuthOp.get (lib.accountSecret accountId kind)))) w = _ from
      AuthWorld.handle_get (m := m) hw _]
    dsimp only
    rw [show w.secrets (lib.accountSecret accountId kind) = some token from hentry, notBlank, Option.filter_some,
      if_pos (by simpa using hblank)]
  unfold readToken
  rw [exec_bind, hget]
  rfl

/-- The entries that credentials are stored in are read as the credentials. -/
theorem readScopedCredentials_exec_ok (hserde : lib.serde.Lawful) (hprints : lib.PrintsStore) (hw : w.Working)
    (hread : credentials.Readable) (hentries : lib.entries accountId w = lib.newEntries credentials) :
    (exec m (lib.readScopedCredentials accountId) w).1 = .ok credentials := by
  have hentry (kind : CredentialKind) : lib.entries accountId w kind = lib.newEntries credentials kind := congrFun hentries kind
  obtain ⟨text, htext, hnotBlank, hparse⟩ := parseMetadata_newEntries hserde hprints hread.lastRefreshAt
  have hmetadata (w' : AuthWorld) (hsecrets : w'.secrets = w.secrets) (hw' : w'.Working) :
      exec m (lib.readMetadata accountId) w' = (.ok credentials.lastRefreshAt, w'.tick) := by
    have hget : (getText (lib.accountSecret accountId .metadata)).run.run (AuthWorld.handle m) w' = (.ok (some text), w'.tick) := by
      have hvalue : w'.secrets (lib.accountSecret accountId .metadata) = some text := by
        rw [hsecrets]
        exact (hentry .metadata).trans htext
      show exec m (notBlank <$> getSecret _) w' = _
      rw [exec_map, show exec m (getSecret (lib.accountSecret accountId .metadata)) w' = _ from AuthWorld.handle_get (m := m) hw' _]
      dsimp only
      rw [hvalue, hnotBlank]
    show ((getText (lib.accountSecret accountId .metadata)).run >>= _).run (AuthWorld.handle m) w' = _
    rw [Procedure.run_bind, hget]
    show (Except.ok ((lib.parseMetadata text).getD 0), w'.tick) = _
    rw [hparse, Option.getD_some]
  unfold readScopedCredentials
  rw [exec_bind, readToken_exec_ok hw (hentry .accessToken) hread.accessToken]
  dsimp only
  rw [exec_bind, readToken_exec_ok (w := w.tick) hw (hentry .refreshToken) hread.refreshToken]
  dsimp only
  rw [exec_bind, readToken_exec_ok (w := w.tick.tick) hw (hentry .idToken) hread.idToken]
  dsimp only
  rw [exec_bind, hmetadata w.tick.tick.tick rfl hw]
  rfl

/-- **A fresh manager** reads the credentials obtained last. -/
theorem readCredentials_fresh {inputs : Nat → AuthInput} {S : String → Prop} {E : String → CredentialKind → Option String}
    (hinj : Function.Injective lib.fingerprint) (hserde : lib.serde.Lawful) (hprints : lib.PrintsStore)
    (hfit : lib.MigrationFit w) (h : EntriesKept lib inputs S E w) (haccount : S accountId)
    (hread : credentials.Readable) (hE : E accountId = lib.newEntries credentials) :
    (exec m (lib.readCredentials accountId) (w.fresh m)).1 = .ok credentials := by
  have hheld : EntriesKept lib inputs S E (w.fresh m) := by
    refine ⟨h.inputs, fun m' hm' => h.migrated m' ?_, h.aside, h.entries⟩
    rw [AuthWorld.fresh, AuthWorld.managers_modify] at hm'
    split at hm'
    · cases hm'
    · exact hm'
  -- the migration caches no credentials
  have hperforms : Performs (fun op => ∀ a c, op ≠ .cacheCredentials a c) lib.ensureLegacyCredentialsMigrated := by
    refine .bind (.perform nofun) fun migrated => .unlocking ?_ nofun
    split
    · exact .pure _
    · refine .bind ((migrateLegacyCredentials_migrates lib).mono fun op hop => ?_) fun _ => .perform nofun
      rintro a c rfl
      exact hop
  have hempty : ∀ a, ((exec m lib.ensureLegacyCredentialsMigrated (w.fresh m)).2.managers m).credentials a = none := by
    refine hperforms.keeps (J := fun w => ∀ a, (w.managers m).credentials a = none) (fun op w hop hw a => ?_) fun a => ?_
    · cases op with
      | get | set | delete =>
        simp only [AuthWorld.handle, AuthWorld.attempt]
        split <;> exact hw a
      | cacheCredentials a' c => exact absurd rfl (hop a' c)
      | removeCredentials a' => simp [AuthWorld.handle, Function.update_apply, hw a]
      | cacheRecords | lockMigrated | setMigrated | unlockMigrated | lockAccount | unlockAccount =>
        simp [AuthWorld.handle, hw a]
      | _ => exact hw a
    · rw [AuthWorld.fresh, AuthWorld.managers_modify, if_pos rfl]
      rfl
  have hsettled := leads_exec (ensureLegacyCredentialsMigrated_settled (m := m) hinj) hheld
  have hreturns := leads_exec (P := lib.MigrationFit) (Q := fun _ _ => True) (E := fun _ => False)
    (ensureLegacyCredentialsMigrated_fit (m := m) hserde hprints) (show lib.MigrationFit (w.fresh m) from hfit)
  unfold readCredentials
  rw [exec_bind]
  revert hempty hsettled hreturns
  rcases exec m lib.ensureLegacyCredentialsMigrated (w.fresh m) with ⟨result, w₁⟩
  intro hempty hsettled hreturns
  cases result with
  | error error => exact hreturns.elim
  | ok =>
    dsimp only at hsettled hempty ⊢
    rw [exec_bind, exec_perform]
    have hcached : (AuthWorld.handle m (.cachedCredentials accountId) w₁).1 = none := hempty accountId
    have hworking : w₁.Working := fun n => by
      rw [hsettled.kept.inputs, ← h.inputs]
      exact hfit.1 n
    have hentries : lib.entries accountId w₁ = lib.newEntries credentials :=
      (hsettled.kept.entries accountId haccount).trans hE
    have hread := readScopedCredentials_exec_ok (m := m) (w := w₁.tick) hserde hprints hworking hread hentries
    dsimp only
    rw [hcached]
    dsimp only
    rw [exec_bind, show (AuthWorld.handle m (.cachedCredentials accountId) w₁).2 = w₁.tick from rfl]
    revert hread
    rcases exec m (lib.readScopedCredentials accountId) w₁.tick with ⟨result, w₂⟩
    intro hread
    dsimp only at hread
    subst hread
    rfl

end Fresh

/-! ## A store that prints everything -/

namespace CodexAccountRecord

def codes (record : CodexAccountRecord) : List Nat × Option (List Nat) :=
  (record.accountId.toList.map Char.toNat, record.accountEmail.map fun email => email.toList.map Char.toNat)

def ofCodes (codes : List Nat × Option (List Nat)) : CodexAccountRecord :=
  ⟨String.ofList (codes.1.map Char.ofNat), codes.2.map fun email => String.ofList (email.map Char.ofNat)⟩

theorem ofCodes_codes (record : CodexAccountRecord) : ofCodes record.codes = record := by
  have hchars : Char.ofNat ∘ Char.toNat = id := funext Char.ofNat_toNat
  obtain ⟨accountId, accountEmail⟩ := record
  cases accountEmail <;> simp [codes, ofCodes, hchars]

end CodexAccountRecord

/-- Metadata or an index, by number. -/
def storedValue : Nat ⊕ List CodexAccountRecord → Value
  | .inl n => metadataJson n
  | .inr records => .array (records.map CodexAccountRecord.toJson)

def storedForm (v : Value) : Option (Nat ⊕ List CodexAccountRecord) :=
  match v.requiredField "lastRefreshAt" (Value.readNat u64Max) with
  | some n => if storedValue (.inl n) = v then some (.inl n) else none
  | none => (Value.readList CodexAccountRecord.fromJson v).bind fun records =>
    if storedValue (.inr records) = v then some (.inr records) else none

def formNumber (form : Nat ⊕ List CodexAccountRecord) : Nat :=
  Encodable.encode (form.map id (List.map CodexAccountRecord.codes))

def numberForm (n : Nat) : Option (Nat ⊕ List CodexAccountRecord) :=
  (Encodable.decode n : Option (Nat ⊕ List (List Nat × Option (List Nat)))).map
    (Sum.map id (List.map CodexAccountRecord.ofCodes))

/-- A text that no table has. -/
def strokes (n : Nat) : String := String.ofList (List.replicate (n + 1) '|')

/-- The texts of a table, and those of all other metadata and indexes. -/
def Serde.ofStore (texts : List (Value × String)) : Serde where
  toString v := match (Serde.ofTable texts).toString v with
    | .ok text => .ok text
    | .error error => (storedForm v).elim (.error error) fun form => .ok (strokes (formNumber form))
  fromStr text := match (Serde.ofTable texts).fromStr text with
    | some v => some v
    | none => if text = strokes (text.toList.length - 1) then (numberForm (text.toList.length - 1)).map storedValue else none
  display _ := ""

theorem numberForm_formNumber (form : Nat ⊕ List CodexAccountRecord) : numberForm (formNumber form) = some form := by
  rw [numberForm, formNumber, Encodable.encodek, Option.map_some, Sum.map_map, List.map_comp_map,
    show CodexAccountRecord.ofCodes ∘ CodexAccountRecord.codes = id from funext CodexAccountRecord.ofCodes_codes]
  cases form <;> simp

theorem storedValue_storedForm {v : Value} {form : Nat ⊕ List CodexAccountRecord} (h : storedForm v = some form) :
    storedValue form = v := by
  unfold storedForm at h
  split at h
  · split at h
    · rename_i hv
      cases h
      exact hv
    · cases h
  · obtain ⟨records, -, h⟩ := Option.bind_eq_some_iff.1 h
    split at h
    · rename_i hv
      cases h
      exact hv
    · cases h

theorem storedForm_metadata {n : Nat} (h : n ≤ u64Max) : storedForm (metadataJson n) = some (.inl n) := by
  have hfield : (metadataJson n).requiredField "lastRefreshAt" (Value.readNat u64Max) = some n := Value.readNat_ofNat h
  unfold storedForm
  rw [hfield]
  exact if_pos rfl

theorem storedForm_index (records : List CodexAccountRecord) :
    storedForm (storedValue (.inr records)) = some (.inr records) := by
  have hread : Value.readList CodexAccountRecord.fromJson (storedValue (.inr records)) = some records := by
    have hmap := Value.readList_map (f := id) (l := records) fun record _ => CodexAccountRecord.fromJson_toJson record
    rw [List.map_id] at hmap
    exact hmap
  unfold storedForm
  rw [show (storedValue (.inr records)).requiredField "lastRefreshAt" (Value.readNat u64Max) = none from rfl, hread]
  exact if_pos rfl

theorem trim_strokes (n : Nat) : trim (strokes n) ≠ "" := by
  have hstroke : isWhitespace '|' = false := by decide
  have hkept : (List.replicate (n + 1) '|').dropWhile isWhitespace = List.replicate (n + 1) '|' := by
    rw [List.replicate_succ, List.dropWhile_cons_of_neg (by simp [hstroke])]
  have hchars : (trim (strokes n)).toList = List.replicate (n + 1) '|' := by
    rw [trim, strokes, String.toList_ofList, String.toList_ofList, hkept, List.reverse_replicate, hkept, List.reverse_replicate]
  intro h
  rw [h] at hchars
  cases hchars

section OfStore

variable {texts : List (Value × String)}

theorem Serde.ofStore_lawful (htable : (Serde.ofTable texts).Lawful) (hstrokes : ∀ e ∈ texts, ∀ n, e.2 ≠ strokes n) :
    (Serde.ofStore texts).Lawful where
  fromStr_toString v text hintegral hdepth h := by
    change (match (Serde.ofTable texts).toString v with
      | .ok text => .ok text
      | .error error => (storedForm v).elim (.error error) fun form => .ok (strokes (formNumber form))) = Except.ok text at h
    show (match (Serde.ofTable texts).fromStr text with
      | some v => some v
      | none => if text = strokes (text.toList.length - 1) then (numberForm (text.toList.length - 1)).map storedValue
        else none) = some v ∧ _
    cases htext : (Serde.ofTable texts).toString v with
    | ok printed =>
      rw [htext] at h
      cases h
      obtain ⟨hread, hblank⟩ := htable.fromStr_toString v text hintegral hdepth htext
      rw [hread]
      exact ⟨rfl, hblank⟩
    | error error =>
      rw [htext] at h
      cases hform : storedForm v with
      | none =>
        rw [hform] at h
        cases h
      | some form =>
        rw [hform] at h
        cases h
        have hnone : (Serde.ofTable texts).fromStr (strokes (formNumber form)) = none := by
          show (texts.find? fun e => e.2 = strokes (formNumber form)).map Prod.fst = none
          rw [List.find?_eq_none.2 fun e he => by simpa using hstrokes e he _]
          rfl
        have hlength : (strokes (formNumber form)).toList.length - 1 = formNumber form := by
          simp [strokes]
        rw [hnone, hlength, numberForm_formNumber]
        exact ⟨by rw [if_pos rfl, Option.map_some, storedValue_storedForm hform], trim_strokes _⟩

/-- A library whose store prints everything. -/
def AuthLibrary.ofStore (texts : List (Value × String)) : AuthLibrary :=
  { AuthLibrary.ofTable texts with serde := .ofStore texts }

theorem AuthLibrary.ofStore_prints (texts : List (Value × String)) : (AuthLibrary.ofStore texts).PrintsStore := by
  have hprints {v : Value} {form : Nat ⊕ List CodexAccountRecord} (hform : storedForm v = some form) :
      ∃ text, (Serde.ofStore texts).toString v = .ok text := by
    show ∃ text, (match (Serde.ofTable texts).toString v with
      | .ok text => .ok text
      | .error error => (storedForm v).elim (.error error) fun form => .ok (strokes (formNumber form))) = Except.ok text
    cases (Serde.ofTable texts).toString v with
    | ok text => exact ⟨text, rfl⟩
    | error error =>
      rw [hform]
      exact ⟨_, rfl⟩
  exact ⟨fun n hn => hprints (storedForm_metadata hn), fun records => hprints (storedForm_index records)⟩

theorem AuthLibrary.ofStore_fingerprint_injective (texts : List (Value × String)) :
    Function.Injective (AuthLibrary.ofStore texts).fingerprint := AuthLibrary.ofTable_fingerprint_injective texts

end OfStore
end Aifluxon
