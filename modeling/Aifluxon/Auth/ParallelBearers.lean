import Aifluxon.Auth.SharedRefresh

/-!
# Bearers side by side

Calls of `bearer` on one manager, for an account whose credentials need a refresh, in any interleaving of their
operations.

* `AuthOp.Migrates`, `found_alone` : the migration, which one call makes alone;
* `ensureLegacyCredentialsMigrated_returns`, .., `bearer_returns` : the calls, one by one;
* `some_enabled` : there is no deadlock;
* `bearers_share_refresh`, `bearers_share_refresh_two` : every run.
-/

namespace Aifluxon

open AuthM AuthLibrary Protocol

namespace FoundAccount

variable {ι : Type} {x : FoundAccount} {i : ι}

/-! ## Calls -/

section Calls

variable {α β : Type} {A : AuthWorld → Shares ι → Prop}

theorem returns_perform {op : AuthOp} {B : op.Answer → AuthWorld → Shares ι → Prop} (hop : x.protocol.Makes i A op B) :
    x.protocol.Returns i A (perform op) B :=
  ⟨.call hop fun r => .ret fun _ _ _ hs => ⟨r, rfl, hs⟩⟩

theorem returns_getText {key : SecretKey} {B : Option String → AuthWorld → Shares ι → Prop}
    (hop : x.protocol.Makes i A (.get key) fun r s γ => ∃ value, r = .ok value ∧ B (notBlank value) s γ) :
    x.protocol.Returns i A (getText key) B := by
  have hget : x.protocol.Returns i A (getSecret key) fun value s γ => B (notBlank value) s γ := ⟨safe_perform hop⟩
  exact hget.map fun _ _ _ _ hs => hs

theorem returns_setText {key : SecretKey} {value : String} {B : AuthWorld → Shares ι → Prop}
    (hop : x.protocol.Makes i A (.set key value) fun r s γ => r = .ok () ∧ B s γ) :
    x.protocol.Returns i A (setText key value) fun _ => B :=
  ⟨(safe_perform hop).post fun _ _ _ _ hs => ⟨(), hs⟩⟩

theorem returns_okOr {error : AuthError} {found : Option α} {a : α} {Q : α → AuthWorld → Shares ι → Prop}
    (hfound : found = some a) (hQ : ∀ s γ, x.Inv s γ → A s γ → Q a s γ) :
    x.protocol.Returns i A (okOr error found) Q := by
  rw [hfound]
  exact returns_pure hQ

theorem returns_result {result : Except AuthError α} {a : α} {Q : α → AuthWorld → Shares ι → Prop}
    (hresult : result = .ok a) (hQ : ∀ s γ, x.Inv s γ → A s γ → Q a s γ) :
    x.protocol.Returns i A (ExceptT.mk (pure result)) Q := by
  rw [hresult]
  exact returns_pure hQ

theorem returns_unlocking {unlock : AuthOp} {y : AuthM α} {Q Q' : α → AuthWorld → Shares ι → Prop}
    (hy : x.protocol.Returns i A y Q) (hunlock : ∀ a, x.protocol.Makes i (Q a) unlock fun _ => Q' a) :
    x.protocol.Returns i A (unlocking unlock y) Q' := by
  refine ⟨hy.safe.bind fun result => ?_⟩
  cases result with
  | ok a =>
    refine (Safe.call (hunlock a) fun _ => .ret fun s γ _ hs => ⟨a, rfl, hs⟩).pre fun s γ _ h => ?_
    obtain ⟨b, hb, hs⟩ := h
    cases hb
    exact hs
  | error error => exact safe_of_not fun s γ ⟨a, ha, _⟩ => nomatch ha

end Calls

end FoundAccount

/-! ## The migration -/

theorem note_migrates {ι : Type} {i : ι} {op : AuthOp} (hop : op.Migrates) (r : op.Answer) (γ : Shares ι) :
    (Shares.note i ⟨op, r⟩ γ).migrating = γ.migrating ∧ (Shares.note i ⟨op, r⟩ γ).owner = γ.owner ∧
      (Shares.note i ⟨op, r⟩ γ).posts = γ.posts := by
  cases op with
  | set key => cases key <;> exact ⟨rfl, rfl, rfl⟩
  | get | delete | cachedRecords | cacheRecords => exact ⟨rfl, rfl, rfl⟩
  | _ => exact hop.elim

/-- What `readCredentials` does when the migration is done. -/
def AuthLibrary.cachedOrStored (lib : AuthLibrary) (accountId : String) : AuthM CodexCredentials := do
  match ← perform (.cachedCredentials accountId) with
  | some credentials => return credentials
  | none =>
    let credentials ← lib.readScopedCredentials accountId
    perform (.cacheCredentials accountId credentials)
    return credentials

theorem AuthLibrary.readCredentials_eq (lib : AuthLibrary) (accountId : String) : lib.readCredentials accountId = (do
    lib.ensureLegacyCredentialsMigrated
    lib.cachedOrStored accountId) := rfl

namespace AuthM

variable {m : Nat} {α β : Type} {w w' : AuthWorld}

theorem exec_bind_ok {y : AuthM α} {f : α → AuthM β} {b : β} (h : exec m (y >>= f) w = (.ok b, w')) :
    ∃ a w₁, exec m y w = (.ok a, w₁) ∧ exec m (f a) w₁ = (.ok b, w') :=
  Procedure.exec_bind_ok (AuthWorld.handle m) h

theorem exec_getText (hw : w.Working) (key : SecretKey) :
    exec m (getText key) w = (.ok (notBlank (w.secrets key)), w.tick) := by
  have hget : exec m (getSecret key) w = (.ok (w.secrets key), w.tick) := AuthWorld.handle_get (m := m) hw key
  unfold getText
  rw [exec_map, hget]

end AuthM

namespace FoundAccount

section Alone

variable {x : FoundAccount} {s t : AuthWorld} {c : CodexCredentials}

theorem readToken_exec {kind : CredentialKind} {token : String} (hs : s.Working)
    (h : exec x.manager (x.lib.readToken x.accountId kind) s = (.ok token, t)) :
    notBlank (x.lib.entries x.accountId s kind) = some token ∧ t = s.tick := by
  unfold readToken at h
  rw [exec_bind, exec_getText hs] at h
  dsimp only at h
  rw [exec_okOr] at h
  unfold AuthLibrary.entries
  cases hfound : notBlank (s.secrets (x.lib.accountSecret x.accountId kind)) with
  | none =>
    rw [hfound] at h
    cases h
  | some found =>
    rw [hfound] at h
    cases h
    exact ⟨rfl, rfl⟩

theorem readMetadata_exec (hs : s.Working) : exec x.manager (x.lib.readMetadata x.accountId) s =
    (.ok (((notBlank (x.lib.entries x.accountId s .metadata)).bind x.lib.parseMetadata).getD 0), s.tick) := by
  have hget : (getText (x.lib.accountSecret x.accountId .metadata)).run.run (AuthWorld.handle x.manager) s =
      (.ok (notBlank (x.lib.entries x.accountId s .metadata)), s.tick) := exec_getText hs _
  show (((getText (x.lib.accountSecret x.accountId .metadata)).run >>= _).run (AuthWorld.handle x.manager) s) = _
  rw [Procedure.run_bind, hget]
  cases notBlank (x.lib.entries x.accountId s .metadata) <;> rfl

theorem readScopedCredentials_exec (hs : s.Working)
    (h : exec x.manager (x.lib.readScopedCredentials x.accountId) s = (.ok c, t)) :
    x.Stored (x.lib.entries x.accountId s) c := by
  obtain ⟨accessToken, s₁, hfirst, h⟩ := exec_bind_ok h
  obtain ⟨haccess, rfl⟩ := readToken_exec hs hfirst
  obtain ⟨refreshToken, s₂, hsecond, h⟩ := exec_bind_ok h
  obtain ⟨hrefresh, rfl⟩ := readToken_exec (s := s.tick) hs hsecond
  obtain ⟨idToken, s₃, hthird, h⟩ := exec_bind_ok h
  obtain ⟨hid, rfl⟩ := readToken_exec (s := s.tick.tick) hs hthird
  obtain ⟨lastRefreshAt, s₄, hmetadata, h⟩ := exec_bind_ok h
  rw [readMetadata_exec (s := s.tick.tick.tick) hs] at hmetadata
  cases hmetadata
  cases h
  exact ⟨haccess, hrefresh, hid, rfl⟩

/-- A manager that reads the credentials alone has them at hand. -/
theorem reads_of_exec (hs : s.Working) (h : exec x.manager (x.lib.cachedOrStored x.accountId) s = (.ok c, t)) :
    x.Reads (x.view s) c := by
  obtain ⟨cached, s₁, hcached, h⟩ := exec_bind_ok h
  cases hcached
  cases hview : (x.view s).1 with
  | some credentials =>
    have hanswer : (AuthWorld.handle x.manager (.cachedCredentials x.accountId) s).1 = some credentials := hview
    rw [hanswer] at h
    cases h
    exact .inl hview
  | none =>
    have hanswer : (AuthWorld.handle x.manager (.cachedCredentials x.accountId) s).1 = none := hview
    rw [hanswer] at h
    obtain ⟨credentials, s₁, hread, h⟩ := exec_bind_ok h
    obtain ⟨-, s₂, -, h⟩ := exec_bind_ok h
    cases h
    exact .inr ⟨hview, readScopedCredentials_exec (s := s.tick) hs hread⟩

/-- A manager that lists the account alone reads a list with it. -/
theorem indexOk_of_exec {ι : Type} (hs : s.Working) (hnamed : Names x.records x.accountId)
    (h : exec x.manager x.lib.readAccountIndex s = (.ok x.records, t)) (γ : Shares ι) : x.IndexOk s γ := by
  obtain ⟨cached, s₁, hcached, h⟩ := exec_bind_ok h
  cases hcached
  cases hrecords : (x.cache s).records with
  | some records =>
    have hanswer : (AuthWorld.handle x.manager .cachedRecords s).1 = some records := hrecords
    rw [hanswer] at h
    cases h
    refine ⟨fun R hR => ?_, fun hnone => ?_⟩
    · rw [hrecords] at hR
      cases hR
      exact ⟨hnamed, fun _ => rfl⟩
    · rw [hrecords] at hnone
      cases hnone
  | none =>
    have hanswer : (AuthWorld.handle x.manager .cachedRecords s).1 = none := hrecords
    rw [hanswer] at h
    obtain ⟨text, s₁, htext, h⟩ := exec_bind_ok h
    have hget := exec_getText (m := x.manager) (w := s.tick) hs .accountIndex
    cases htext.symm.trans hget
    refine ⟨fun R hR => ?_, fun _ => ?_⟩
    · rw [hrecords] at hR
      cases hR
    · cases htext : notBlank (s.secrets .accountIndex) with
      | none =>
        rw [AuthWorld.secrets_tick, htext] at h
        obtain ⟨-, s₂, -, h⟩ := exec_bind_ok h
        injection h with hempty
        injection hempty with hempty
        rw [← hempty] at hnamed
        exact absurd hnamed CodexAccountRecord.names_nil
      | some text =>
        rw [AuthWorld.secrets_tick, htext] at h
        obtain ⟨records, s₂, hparse, h⟩ := exec_bind_ok h
        obtain ⟨-, s₃, -, h⟩ := exec_bind_ok h
        rw [exec_okOr] at hparse
        cases hfound : x.lib.parseIndex text with
        | none =>
          rw [hfound] at hparse
          cases hparse
        | some found =>
          rw [hfound] at hparse
          cases hparse
          injection h with hrecords
          injection hrecords with hrecords
          refine ⟨text, _, htext, hfound, ?_, fun _ => hrecords⟩
          rw [hrecords]
          exact hnamed

/-- With the lock of the migration. -/
def locked (x : FoundAccount) : AuthWorld := (AuthWorld.handle x.manager .lockMigrated x.world).2

/-- The migration alone. -/
def migratedAlone (x : FoundAccount) : Except AuthError Unit × AuthWorld :=
  exec x.manager x.lib.migrateLegacyCredentials x.locked

/-- The index and the credentials in a state that an account is found in when the migration is done. -/
structure Found (x : FoundAccount) (s : AuthWorld) : Prop where
  index : ∀ {ι : Type} (γ : Shares ι), x.IndexOk s γ
  reads : x.Reads (x.view s) x.current

theorem Found.congr (h : x.Found s) (hrecords : (x.cache t).records = (x.cache s).records)
    (hindex : t.secrets .accountIndex = s.secrets .accountIndex) (hview : x.view t = x.view s) : x.Found t where
  index γ := ⟨fun R hR => (h.index γ).cached R (by rw [← hrecords, hR]), fun hnone => by
    rw [hindex]
    exact (h.index γ).stored (by rw [← hrecords, hnone])⟩
  reads := by
    rw [hview]
    exact h.reads

/-- What is read alone is there after the migration, which does not fail. -/
theorem ensure_found (h : x.Due) : ∃ t, exec x.manager x.lib.ensureLegacyCredentialsMigrated x.world = (.ok (), t) ∧
    (t.Working → x.Found t) := by
  have hlisted : exec x.manager x.lib.accountRecords x.world =
      (.ok x.records, (exec x.manager x.lib.accountRecords x.world).2) := by
    rw [← h.listed]
  obtain ⟨⟨⟩, t, hensure, hindex⟩ := exec_bind_ok hlisted
  have hstored : exec x.manager (x.lib.readCredentials x.accountId) x.world =
      (.ok x.current, (exec x.manager (x.lib.readCredentials x.accountId) x.world).2) := by
    rw [← h.stored]
  rw [readCredentials_eq] at hstored
  obtain ⟨⟨⟩, t', hensure', hreads⟩ := exec_bind_ok hstored
  cases hensure.symm.trans hensure'
  exact ⟨t, hensure, fun ht => ⟨fun γ => indexOk_of_exec ht h.named hindex γ, reads_of_exec ht hreads⟩⟩

theorem found_of_migrated (h : x.Due) (hm : (x.cache x.world).migrated = true) : x.Found x.world := by
  obtain ⟨t, hensure, hfound⟩ := ensure_found h
  unfold ensureLegacyCredentialsMigrated at hensure
  have hanswer : (AuthWorld.handle x.manager .lockMigrated x.world).1 = true := hm
  rw [exec_bind, exec_perform, hanswer] at hensure
  dsimp only at hensure
  rw [if_pos rfl, exec_unlocking, exec_pure] at hensure
  cases hensure
  refine (hfound h.working).congr ?_ rfl ?_
  · simp [AuthWorld.handle]
  · simp [AuthWorld.handle]

theorem found_alone (h : x.Due) (hm : (x.cache x.world).migrated = false) : x.migratedAlone.1 = .ok () ∧
    (x.migratedAlone.2.Working →
      x.Found (x.migratedAlone.2.modify x.manager fun c => { c with migrated := true }).tick) := by
  obtain ⟨t, hensure, hfound⟩ := ensure_found h
  unfold ensureLegacyCredentialsMigrated at hensure
  have hanswer : (AuthWorld.handle x.manager .lockMigrated x.world).1 = false := hm
  rw [exec_bind, exec_perform, hanswer] at hensure
  dsimp only at hensure
  rw [if_neg Bool.false_ne_true, exec_unlocking, exec_bind] at hensure
  unfold migratedAlone locked
  rcases halone : exec x.manager x.lib.migrateLegacyCredentials (AuthWorld.handle x.manager .lockMigrated x.world).2 with
    ⟨result, v⟩
  rw [halone] at hensure
  cases result with
  | error error => cases hensure
  | ok u =>
    have hset : exec x.manager (perform .setMigrated) v =
        (.ok (), (v.modify x.manager fun c => { c with migrated := true }).tick) := rfl
    dsimp only at hensure
    rw [hset] at hensure
    cases hensure
    refine ⟨rfl, fun hv => (hfound hv).congr ?_ rfl ?_⟩
    · simp [AuthWorld.handle]
    · simp [AuthWorld.handle]

end Alone

section Migration

variable {ι : Type} {x : FoundAccount} {s s' : AuthWorld} {γ γ' : Shares ι} {i : ι}

/-- The call is the one that migrates, and nobody else has changed anything. -/
def Alone (x : FoundAccount) (i : ι) (v s : AuthWorld) (γ : Shares ι) : Prop :=
  γ.migrating = some i ∧ γ.owner ≠ some i ∧ (x.cache v).migrated = false ∧ s = v

/-- The call has the lock of the migration, which is done. -/
def Passing (x : FoundAccount) (i : ι) (s : AuthWorld) (γ : Shares ι) : Prop :=
  (x.cache s).migrated = true ∧ γ.migrating = some i ∧ γ.owner ≠ some i

theorem stable_alone (v : AuthWorld) : x.protocol.Stable i (x.Alone i v) := by
  rintro j s γ s' γ' hj - hstep ⟨hmigrating, -, hm, rfl⟩
  exact absurd (hstep.alone hm i hmigrating) hj.symm

theorem stable_passing : x.protocol.Stable i (x.Passing i) := by
  rintro j s γ s' γ' hj - hstep ⟨hm, hmigrating, howner⟩
  refine ⟨hstep.migrated hm, (hstep.migrating i hj.symm).2 hmigrating, ?_⟩
  rwa [Ne, hstep.owner i hj.symm]

/-- A step of the migration: it changes the entries and the cached list at most. -/
structure MigrationStep (x : FoundAccount) (s : AuthWorld) (γ : Shares ι) (s' : AuthWorld) (γ' : Shares ι) : Prop where
  inputs : s'.inputs = s.inputs
  cache : ∃ records, x.cache s' = { x.cache s with records := records }
  migrating : γ'.migrating = γ.migrating
  owner : γ'.owner = γ.owner
  posts : γ'.posts = γ.posts

theorem MigrationStep.migrated (h : x.MigrationStep s γ s' γ') : (x.cache s').migrated = (x.cache s).migrated := by
  obtain ⟨records, hcache⟩ := h.cache
  rw [hcache]

theorem MigrationStep.inv (h : x.MigrationStep s γ s' γ') (hI : x.Inv s γ) (hs : x.Alone i s s γ) : x.Inv s' γ' := by
  obtain ⟨hmigrating, howner, hm, -⟩ := hs
  obtain ⟨hnone, hposts, -⟩ := hI.unmigrated hm
  obtain ⟨records, hcache⟩ := h.cache
  have hfalse {C : Prop} (htrue : (x.cache s').migrated = true) : C := by
    rw [h.migrated, hm] at htrue
    cases htrue
  refine ⟨h.inputs.trans hI.inputs, ?_, ?_, fun _ => ⟨h.owner.trans hnone, h.posts.trans hposts, fun hnone => ?_⟩,
    fun htrue => hfalse htrue, fun htrue => hfalse htrue, ?_⟩
  · rw [hcache, h.migrating]
    exact hI.migrating
  · rw [hcache, h.owner]
    exact hI.owner
  · rw [h.migrating, hmigrating] at hnone
    cases hnone
  · rw [h.posts]
    exact hI.once

theorem MigrationStep.step (h : x.MigrationStep s γ s' γ') (hI : x.Inv s γ) (hs : x.Alone i s s γ) :
    x.Step i s γ s' γ' := by
  obtain ⟨hmigrating, howner, hm, -⟩ := hs
  obtain ⟨hnone, hposts, -⟩ := hI.unmigrated hm
  have hfalse {C : Prop} (htrue : (x.cache s).migrated = true) : C := by
    rw [hm] at htrue
    cases htrue
  refine ⟨fun j _ => by rw [h.migrating], fun j _ => by rw [h.owner], fun _ j hj => ?_, fun htrue => hfalse htrue,
    fun j _ hj => ?_, fun htrue => hfalse htrue, fun htrue => hfalse htrue, fun hne => absurd hposts hne⟩
  · rw [hmigrating, Option.some.injEq] at hj
    exact hj.symm
  · rw [hnone] at hj
    cases hj

/-- An operation of the migration does what it does alone. -/
theorem makes_alone {op : AuthOp} (hop : op.Migrates) (v : AuthWorld) :
    x.protocol.Makes i (x.Alone i v) op fun r s γ =>
      r = (AuthWorld.handle x.manager op v).1 ∧ x.Alone i (AuthWorld.handle x.manager op v).2 s γ := by
  have hstep (γ : Shares ι) : x.MigrationStep v γ (AuthWorld.handle x.manager op v).2
      (Shares.note i ⟨op, (AuthWorld.handle x.manager op v).1⟩ γ) := by
    obtain ⟨hinputs, hcache⟩ := handle_migrates (m := x.manager) hop v
    obtain ⟨hmigrating, howner, hposts⟩ := note_migrates (i := i) hop (AuthWorld.handle x.manager op v).1 γ
    exact ⟨hinputs, hcache, hmigrating, howner, hposts⟩
  refine ⟨fun s γ _ _ => ?_, fun r => (stable_const _).and (stable_alone _), ?_, ?_, ?_⟩
  · cases op <;> trivial
  · rintro s γ hI ⟨hmigrating, howner, hm, rfl⟩ -
    exact (hstep γ).inv hI ⟨hmigrating, howner, hm, rfl⟩
  · rintro s γ hI ⟨hmigrating, howner, hm, rfl⟩ -
    exact (hstep γ).step hI ⟨hmigrating, howner, hm, rfl⟩
  · rintro s γ - ⟨hmigrating, howner, hm, rfl⟩ -
    refine ⟨rfl, (hstep γ).migrating.trans hmigrating, fun hown => howner ?_, (hstep γ).migrated.trans hm, rfl⟩
    rw [← (hstep γ).owner]
    exact hown

/-- **The migration is done**, and the account is found as it is alone. -/
theorem makes_setMigrated (h : x.Due) (hm : (x.cache x.world).migrated = false) :
    x.protocol.Makes i (x.Alone i x.migratedAlone.2) .setMigrated fun _ => x.Passing i := by
  refine ⟨fun _ _ _ _ => trivial, fun _ => stable_passing, ?_, ?_, ?_⟩
  · rintro s γ hI ⟨hmigrating, -, hmv, rfl⟩ -
    obtain ⟨-, hposts, -⟩ := hI.unmigrated hmv
    have hfound := (found_alone h hm).2 (Inv.working h hI)
    refine inv_of_migrated hI rfl ?_ ?_ ?_ (hfound.index _)
      (fun _ => ⟨x.current, hfound.reads, .inl ⟨hposts, rfl, rfl⟩⟩) id
    · simp [protocol, AuthWorld.handle]
    · simpa [protocol, AuthWorld.handle, Shares.note] using hI.migrating
    · simpa [protocol, AuthWorld.handle, Shares.note] using hI.owner
  · rintro s γ hI ⟨hmigrating, -, hmv, rfl⟩ -
    obtain ⟨hnone, hposts, -⟩ := hI.unmigrated hmv
    have hfalse {C : Prop} (htrue : (x.cache x.migratedAlone.2).migrated = true) : C := by
      rw [hmv] at htrue
      cases htrue
    refine ⟨fun _ _ => Iff.rfl, fun _ _ => Iff.rfl, fun _ j hj => ?_, fun htrue => hfalse htrue, fun j _ hj => ?_,
      fun htrue => hfalse htrue, fun htrue => hfalse htrue, fun hne => absurd hposts hne⟩
    · rw [hmigrating, Option.some.injEq] at hj
      exact hj.symm
    · rw [hnone] at hj
      cases hj
  · rintro s γ hI ⟨hmigrating, howner, -, rfl⟩ -
    refine ⟨?_, hmigrating, howner⟩
    simp [protocol, AuthWorld.handle]

/-- The first call of all migrates, and the others wait. -/
theorem ensureLegacyCredentialsMigrated_returns (h : x.Due) :
    x.protocol.Returns i (Idle i) x.lib.ensureLegacyCredentialsMigrated
      fun _ => x.Waiting i := by
  let B (migrated : Bool) : AuthWorld → Shares ι → Prop := if migrated = true then x.Passing i else x.Alone i x.locked
  have hlock : x.protocol.Makes i (Idle i) .lockMigrated B := by
    refine makes_lockMigrated (fun _ _ hs => hs.1) (fun migrated => ?_) fun s γ hI hs hnone => ?_
    · cases migrated with
      | true => exact stable_passing
      | false => exact stable_alone _
    · cases hm : (x.cache s).migrated with
      | true => exact ⟨by simpa using hm, rfl, hs.2⟩
      | false =>
        obtain rfl := (hI.unmigrated hm).2.2 hnone
        exact ⟨rfl, hs.2, by simpa [locked, AuthWorld.handle] using hm, rfl⟩
  have hunlock : x.protocol.Makes i (x.Passing i) .unlockMigrated fun _ => x.Waiting i := by
    refine makes_unlockMigrated (fun _ _ hs => ⟨hs.1, hs.2.1⟩) stable_waiting fun s γ hs => ⟨?_, ?_, hs.2.2⟩
    · simpa using hs.1
    · simp
  refine (returns_perform hlock).bind fun migrated => returns_unlocking (Q := fun _ => x.Passing i) ?_ fun _ => hunlock
  cases migrated with
  | true => exact returns_pure fun _ _ _ hs => hs
  | false =>
    refine returns_knowing (C := (x.cache x.world).migrated = false) (fun s γ hs => ?_) fun hm => ?_
    · simpa [locked, AuthWorld.handle] using hs.2.2.1
    · have hsat := ((migrateLegacyCredentials_migrates x.lib).meets []).sat
      have halone := safe_alone (P := x.protocol) (i := i) (J := x.Alone i) hsat (fun _ _ _ => trivial)
        (fun _ v hop => makes_alone hop v) x.locked
      refine Returns.bind (Q := fun _ => x.Alone i x.migratedAlone.2) ⟨halone.post ?_⟩ fun _ =>
        returns_perform (makes_setMigrated h hm)
      rintro result s γ - ⟨hresult, hs⟩
      exact ⟨(), hresult.trans (found_alone h hm).1, hs⟩

end Migration

/-! ## The account -/

section Bearer

variable {ι : Type} {x : FoundAccount} {s s' : AuthWorld} {γ γ' : Shares ι} {i : ι} {c : CodexCredentials}
  {K : AccountView → List TokenAnswer → Bool → Prop}

/-- The migration is done when a call has the lock of the account. -/
theorem ensureLegacyCredentialsMigrated_owning :
    x.protocol.Returns i (x.Owning K i) x.lib.ensureLegacyCredentialsMigrated fun _ => x.Owning K i := by
  let Held (s : AuthWorld) (γ : Shares ι) : Prop :=
    (x.cache s).migrated = true ∧ γ.migrating = some i ∧ γ.owner = some i ∧ K (x.view s) γ.posts γ.rewritten
  have hheld : x.protocol.Stable i Held := by
    rintro j s γ s' γ' hj - hstep ⟨hm, hmigrating, howner, hK⟩
    obtain ⟨hview, hposts, hrewritten⟩ := hstep.account i hj.symm howner
    refine ⟨hstep.migrated hm, (hstep.migrating i hj.symm).2 hmigrating, (hstep.owner i hj.symm).2 howner, ?_⟩
    rwa [hview, hposts, hrewritten]
  have hlock : x.protocol.Makes i (x.Owning K i) .lockMigrated fun migrated s γ => migrated = true ∧ Held s γ := by
    refine makes_lockMigrated (fun _ _ hs => hs.2.1) (fun _ => (stable_const _).and hheld) fun s γ _ hs _ => ?_
    obtain ⟨hm, -, howner, hK⟩ := hs
    exact ⟨hm, by simpa using hm, rfl, howner, by simpa using hK⟩
  have hunlock : x.protocol.Makes i Held .unlockMigrated fun _ => x.Owning K i := by
    refine makes_unlockMigrated (fun _ _ hs => ⟨hs.1, hs.2.1⟩) stable_owning fun s γ hs => ?_
    obtain ⟨hm, -, howner, hK⟩ := hs
    exact ⟨by simpa using hm, by simp, howner, by simpa using hK⟩
  refine (returns_perform hlock).bind fun migrated => returns_unlocking (Q := fun _ => Held) ?_ fun _ => hunlock
  refine returns_knowing (C := migrated = true) (fun _ _ hs => hs.1) fun hm => ?_
  rw [if_pos hm]
  exact returns_pure fun _ _ _ hs => hs.2

/-- A list that is read names the account. -/
theorem readAccountIndex_returns (h : x.Due) {F : AuthWorld → Shares ι → Prop}
    (hm : ∀ s γ, F s γ → (x.cache s).migrated = true) (hstable : x.protocol.Stable i F)
    (hF : ∀ s γ s', x.view s' = x.view s → (x.cache s').migrated = (x.cache s).migrated → F s γ → F s' γ) :
    x.protocol.Returns i F x.lib.readAccountIndex fun records s γ => F s γ ∧ x.ListOk records γ := by
  have hlist (records : List CodexAccountRecord) : x.protocol.Stable i fun s γ => F s γ ∧ x.ListOk records γ := by
    rintro j s γ s' γ' hj hI hstep ⟨hs, hok⟩
    exact ⟨hstable j s γ s' γ' hj hI hstep hs, hok.step (hstep.rewritten (hm s γ hs))⟩
  have htext : x.protocol.Stable i fun s γ => F s γ ∧ x.TextOk (s.secrets .accountIndex) γ := by
    rintro j s γ s' γ' hj hI hstep ⟨hs, hok⟩
    exact ⟨hstable j s γ s' γ' hj hI hstep hs, hstep.text (hm s γ hs) hok⟩
  have hcached : x.protocol.Makes i F .cachedRecords fun cached s γ => F s γ ∧
      (∀ records, cached = some records → x.ListOk records γ) ∧
      (cached = none → x.TextOk (s.secrets .accountIndex) γ) := by
    refine makes_reading h (fun _ _ => rfl) (fun _ _ => rfl) (fun _ _ => trivial) hm (fun cached => ?_)
      fun s γ hI hs => ?_
    · rintro j s γ s' γ' hj hI hstep ⟨hs, hrecords, hnone⟩
      refine ⟨hstable j s γ s' γ' hj hI hstep hs, fun records hsome => ?_, fun hcached => ?_⟩
      · exact (hrecords records hsome).step (hstep.rewritten (hm s γ hs))
      · exact hstep.text (hm s γ hs) (hnone hcached)
    · have hindex := hI.index (hm s γ hs)
      exact ⟨hF s γ _ rfl rfl hs, hindex.cached, hindex.stored⟩
  refine (returns_perform hcached).bind fun cached => ?_
  cases cached with
  | some records => exact returns_pure fun s γ _ hs => ⟨hs.1, hs.2.1 records rfl⟩
  | none =>
    have hget : x.protocol.Makes i (fun s γ => F s γ ∧ x.TextOk (s.secrets .accountIndex) γ) (.get .accountIndex)
        fun r s γ => ∃ value, r = .ok value ∧ F s γ ∧ x.TextOk value γ := by
      refine makes_reading h (fun s hs => by rw [AuthWorld.handle_get hs]) (fun _ _ => rfl) (fun _ _ => trivial)
        (fun s γ hs => hm s γ hs.1) (fun r => ?_) fun s γ hI hs => ?_
      · rintro j s γ s' γ' hj hI hstep ⟨value, hvalue, hs, hok⟩
        exact ⟨value, hvalue, hstable j s γ s' γ' hj hI hstep hs, hok.step (hstep.rewritten (hm s γ hs))⟩
      · rw [AuthWorld.handle_get (Inv.working h hI)]
        exact ⟨_, rfl, hF s γ _ rfl rfl hs.1, hs.2⟩
    refine Returns.bind (Q := fun text s γ => F s γ ∧ ∃ value records, text = some value ∧
      x.lib.parseIndex value = some records ∧ x.ListOk (CodexAccountRecord.normalizeAll records) γ)
      ((returns_getText hget).pre fun s γ _ hs => ⟨hs.1, hs.2.2 rfl⟩) fun text => ?_
    cases text with
    | none =>
      refine returns_knowing (C := False) (fun s γ hs => ?_) False.elim
      obtain ⟨-, value, records, hnone, -⟩ := hs
      cases hnone
    | some value =>
      refine (returns_exists (A := fun records s γ => x.lib.parseIndex value = some records ∧ F s γ ∧
        x.ListOk (CodexAccountRecord.normalizeAll records) γ) fun records => ?_).pre fun s γ _ hs => ?_
      · refine returns_knowing (fun s γ hs => hs.1) fun hparse => ?_
        let Listed (s : AuthWorld) (γ : Shares ι) : Prop := F s γ ∧ x.ListOk (CodexAccountRecord.normalizeAll records) γ
        refine Returns.bind_value (a := records) (D := Listed) (returns_okOr hparse fun s γ _ hs => ⟨rfl, hs.2⟩) ?_
        have hcache := makes_cacheRecords (F := Listed) (CodexAccountRecord.normalizeAll records)
          (fun s γ hs => hm s γ hs.1) (hlist _) fun s γ s' hview hmark hs => ⟨hF s γ s' hview hmark hs.1, hs.2⟩
        refine ((returns_perform hcache).pre fun s γ _ hs => ⟨hs, hs.2⟩).bind fun _ => ?_
        exact returns_pure fun s γ _ hs => hs
      · obtain ⟨hs, value', records, hvalue, hparse, hok⟩ := hs
        cases hvalue
        exact ⟨records, hparse, hs, hok⟩

/-- The account is found. -/
theorem resolveAccountId_returns (h : x.Due) {requested : String} (hrequested : trim requested = x.accountId) :
    x.protocol.Returns i (Idle i) (x.lib.resolveAccountId (some requested))
      fun accountId s γ => accountId = x.accountId ∧ x.Waiting i s γ := by
  have hrecords : x.protocol.Returns i (Idle i) x.lib.accountRecords
      fun records s γ => x.Waiting i s γ ∧ x.ListOk records γ :=
    (ensureLegacyCredentialsMigrated_returns h).bind fun _ => readAccountIndex_returns h (fun _ _ hs => hs.1)
      stable_waiting fun s γ s' _ hmark hs => ⟨hmark.trans hs.1, hs.2⟩
  refine hrecords.bind fun records => ?_
  refine returns_knowing (C := Names records x.accountId) (fun _ _ hs => hs.2.1) fun hnamed => ?_
  obtain ⟨record, hrecord, hid⟩ := hnamed
  refine returns_result (a := x.accountId) ?_ fun s γ _ hs => ⟨rfl, hs.1⟩
  unfold chooseAccount
  rw [Option.map_some, hrequested, Option.filter_some, if_pos (by simpa using h.proper.2)]
  dsimp only
  rw [if_pos ⟨record, hrecord, hid⟩]

/-- An entry that is read is the one of the credentials. -/
theorem getText_returns (h : x.Due) {J : List TokenAnswer → Bool → Prop} (kind : CredentialKind)
    {T : Option String → Prop} (hT : ∀ entries, x.Stored entries c → T (notBlank (entries kind))) :
    x.protocol.Returns i (x.Owning (fun v posts rewritten => x.Stored v.2 c ∧ J posts rewritten) i)
      (getText (x.lib.accountSecret x.accountId kind)) fun text s γ =>
        T text ∧ x.Owning (fun v posts rewritten => x.Stored v.2 c ∧ J posts rewritten) i s γ := by
  refine returns_getText (makes_reading h (fun s hs => by rw [AuthWorld.handle_get hs]) (fun _ _ => rfl)
    (fun _ _ => trivial) (fun _ _ hs => hs.1) (fun r => ?_) fun s γ hI hs => ?_)
  · rintro j s γ s' γ' hj hI hstep ⟨value, hvalue, htext, hs⟩
    exact ⟨value, hvalue, htext, stable_owning j s γ s' γ' hj hI hstep hs⟩
  · rw [AuthWorld.handle_get (Inv.working h hI)]
    exact ⟨_, rfl, hT _ hs.2.2.2.1, hs⟩

theorem readToken_returns (h : x.Due) {J : List TokenAnswer → Bool → Prop} (kind : CredentialKind) {token : String}
    (htoken : ∀ entries, x.Stored entries c → notBlank (entries kind) = some token) :
    x.protocol.Returns i (x.Owning (fun v posts rewritten => x.Stored v.2 c ∧ J posts rewritten) i)
      (x.lib.readToken x.accountId kind) fun found s γ =>
        found = token ∧ x.Owning (fun v posts rewritten => x.Stored v.2 c ∧ J posts rewritten) i s γ := by
  refine (getText_returns h kind (T := fun text => text = some token) htoken).bind_value ?_
  exact returns_pure fun s γ _ hs => ⟨rfl, hs⟩

theorem readMetadata_returns (h : x.Due) {J : List TokenAnswer → Bool → Prop} :
    x.protocol.Returns i (x.Owning (fun v posts rewritten => x.Stored v.2 c ∧ J posts rewritten) i)
      (x.lib.readMetadata x.accountId) fun found s γ =>
        found = c.lastRefreshAt ∧ x.Owning (fun v posts rewritten => x.Stored v.2 c ∧ J posts rewritten) i s γ := by
  have hget := getText_returns (i := i) (J := J) h .metadata
    (T := fun text => (text.bind x.lib.parseMetadata).getD 0 = c.lastRefreshAt) fun _ hs => hs.metadata
  refine ⟨hget.safe.bind fun r => ?_⟩
  refine safe_exists fun text => safe_knowing (C := r = .ok text) (fun _ _ hs => hs.1) fun hr => ?_
  subst hr
  cases text with
  | none => exact .ret fun s γ _ hs => ⟨0, rfl, hs.2⟩
  | some value => exact .ret fun s γ _ hs => ⟨_, rfl, hs.2⟩

/-- The entries are read. -/
theorem readScopedCredentials_returns (h : x.Due) {J : List TokenAnswer → Bool → Prop} :
    x.protocol.Returns i (x.Owning (fun v posts rewritten => x.Stored v.2 c ∧ J posts rewritten) i)
      (x.lib.readScopedCredentials x.accountId) fun credentials s γ =>
        credentials = c ∧ x.Owning (fun v posts rewritten => x.Stored v.2 c ∧ J posts rewritten) i s γ := by
  refine (readToken_returns h .accessToken fun _ hs => hs.accessToken).bind_value ?_
  refine (readToken_returns h .refreshToken fun _ hs => hs.refreshToken).bind_value ?_
  refine (readToken_returns h .idToken fun _ hs => hs.idToken).bind_value ?_
  refine (readMetadata_returns h).bind_value ?_
  exact returns_pure fun s γ _ hs => ⟨rfl, hs⟩

/-- The credentials are read, and cached. -/
theorem readCredentials_returns (h : x.Due) :
    x.protocol.Returns i (x.Owning (fun v posts rewritten => x.Reads v c ∧ x.Obtained posts rewritten c) i)
      (x.lib.readCredentials x.accountId) fun credentials s γ => credentials = c ∧
        x.Owning (fun v posts rewritten => v.1 = some c ∧ x.Obtained posts rewritten c) i s γ := by
  rw [readCredentials_eq]
  refine ensureLegacyCredentialsMigrated_owning.bind fun _ => ?_
  have hcached : x.protocol.Makes i (x.Owning (fun v posts rewritten => x.Reads v c ∧ x.Obtained posts rewritten c) i)
      (.cachedCredentials x.accountId) fun cached => x.Owning (fun v posts rewritten => cached = v.1 ∧
        x.Reads v c ∧ x.Obtained posts rewritten c) i := by
    refine makes_reading h (fun _ _ => rfl) (fun _ _ => rfl) (fun _ _ => trivial) (fun _ _ hs => hs.1)
      (fun _ => stable_owning) fun s γ _ hs => ?_
    obtain ⟨hm, hmigrating, howner, hK⟩ := hs
    exact ⟨hm, hmigrating, howner, rfl, hK⟩
  refine (returns_perform hcached).bind fun cached => ?_
  cases cached with
  | some credentials =>
    refine returns_pure fun s γ _ hs => ?_
    obtain ⟨hm, hmigrating, howner, hcached, hreads, hobtained⟩ := hs
    rcases hreads with hsome | ⟨hnone, -⟩
    · rw [hsome] at hcached
      cases hcached
      exact ⟨rfl, hm, hmigrating, howner, hsome, hobtained⟩
    · rw [hnone] at hcached
      cases hcached
  | none =>
    refine Returns.bind_value (a := c)
      (D := x.Owning (fun v posts rewritten => x.Stored v.2 c ∧ x.Obtained posts rewritten c) i)
      ((readScopedCredentials_returns h).pre fun s γ _ hs => ?_) ?_
    · obtain ⟨hm, hmigrating, howner, hcached, hreads, hobtained⟩ := hs
      refine ⟨hm, hmigrating, howner, ?_, hobtained⟩
      rcases hreads with hsome | ⟨-, hstored⟩
      · rw [hsome] at hcached
        cases hcached
      · exact hstored
    · have hcache := makes_cacheCredentials (x := x) (i := i) (K := fun posts rewritten => x.Obtained posts rewritten c)
        (L := fun v posts rewritten => x.Stored v.2 c ∧ x.Obtained posts rewritten c) c fun _ _ _ hK => hK.2
      exact (returns_perform hcache).bind fun _ => returns_pure fun _ _ _ hs => ⟨rfl, hs⟩

theorem storeScopedCredentials_returns (h : x.Due) {answer : TokenAnswer} {new : CodexCredentials}
    (hprints : x.Prints new) : x.protocol.Returns i (x.Owning (Posted answer false) i)
      (x.lib.storeScopedCredentials x.accountId new) fun _ => x.Owning (Posted answer false) i := by
  have hset (kind : CredentialKind) (value : String) : x.protocol.Returns i (x.Owning (Posted answer false) i)
      (setText (x.lib.accountSecret x.accountId kind) value) fun _ => x.Owning (Posted answer false) i :=
    returns_setText (makes_setEntry h kind value)
  obtain ⟨text, htext⟩ := hprints.metadata
  unfold storeScopedCredentials
  rw [htext]
  exact (hset _ _).bind fun _ => (hset _ _).bind fun _ => (hset _ _).bind fun _ => hset _ _

/-- The record of the account is written over the list that was there. -/
theorem upsertAccountRecord_returns (h : x.Due) {answer : TokenAnswer} {new : CodexCredentials}
    (hprints : x.Prints new) : x.protocol.Returns i (x.Owning (Posted answer false) i)
      (x.lib.upsertAccountRecord ⟨x.accountId, x.lib.idTokenEmail new.idToken⟩)
      fun _ => x.Owning (Posted answer true) i := by
  have hF {b : Bool} (s : AuthWorld) (γ : Shares ι) (s' : AuthWorld) (hview : x.view s' = x.view s)
      (hmark : (x.cache s').migrated = (x.cache s).migrated) (hs : x.Owning (Posted answer b) i s γ) :
      x.Owning (Posted answer b) i s' γ := ⟨hmark.trans hs.1, hs.2.1, hs.2.2.1, hs.2.2.2⟩
  refine (readAccountIndex_returns h (fun _ _ hs => hs.1) stable_owning hF).bind fun records => ?_
  refine returns_knowing (C := records = x.records) (fun s γ hs => hs.2.2 hs.1.2.2.2.2) fun hrecords => ?_
  subst hrecords
  obtain ⟨text, htext⟩ := hprints.index
  have hnamed : Names (CodexAccountRecord.upsert ⟨x.accountId, x.lib.idTokenEmail new.idToken⟩ x.records) x.accountId :=
    (CodexAccountRecord.names_upsert _).2 (.inl rfl)
  have hwrite : x.protocol.Returns i (x.Owning (Posted answer false) i)
      (x.lib.storeAccountIndex (CodexAccountRecord.upsert ⟨x.accountId, x.lib.idTokenEmail new.idToken⟩ x.records))
      fun _ => x.Owning (Posted answer true) i := by
    unfold storeAccountIndex
    rw [if_neg, htext]
    · exact returns_setText (makes_setIndex h htext hnamed)
    · intro hempty
      rw [List.isEmpty_iff.1 hempty] at hnamed
      exact CodexAccountRecord.names_nil hnamed
  refine (hwrite.pre fun _ _ _ hs => hs.1).bind fun _ => ?_
  have hcache := makes_cacheRecords (CodexAccountRecord.upsert ⟨x.accountId, x.lib.idTokenEmail new.idToken⟩ x.records)
    (fun _ _ (hs : x.Owning (Posted answer true) i _ _) => hs.1) stable_owning hF
  refine (returns_perform hcache).pre fun s γ _ hs => ⟨hs, hnamed, fun hfalse => ?_⟩
  obtain ⟨-, -, -, -, hrewritten⟩ := hs
  rw [hrewritten] at hfalse
  cases hfalse

/-- The new credentials are stored. -/
theorem storeCredentials_returns (h : x.Due) {answer : TokenAnswer} {new : CodexCredentials}
    (hrenews : x.Renews answer new) (hprints : x.Prints new) : x.protocol.Returns i (x.Owning (Posted answer false) i)
      (x.lib.storeCredentials x.accountId new) fun _ => x.Owning (x.Done new) i := by
  refine Returns.bind_value (a := x.accountId) (D := x.Owning (Posted answer false) i)
    (returns_okOr hrenews.claim fun _ _ _ hs => ⟨rfl, hs⟩) ?_
  rw [if_neg (not_not.2 rfl)]
  refine (storeScopedCredentials_returns h hprints).bind fun _ => ?_
  refine (upsertAccountRecord_returns h hprints).bind fun _ => ?_
  have hcache := makes_cacheCredentials (x := x) (i := i) (K := fun posts _ => posts = [answer])
    (L := Posted answer true) new fun _ _ _ hK => hK.1
  refine (returns_perform hcache).post fun _ s γ _ hs => ?_
  obtain ⟨hm, hmigrating, howner, hcached, hposts⟩ := hs
  exact ⟨hm, hmigrating, howner, hcached, answer, hposts, hrenews⟩

theorem unixNow_returns (h : x.Due) : x.protocol.Returns i (x.Owning K i) (perform .unixNow)
    fun now s γ => now = x.now ∧ x.Owning K i s γ := by
  refine returns_perform (makes_reading h (fun _ _ => rfl) (fun _ _ => rfl) (fun _ _ => trivial) (fun _ _ hs => hs.1)
    (fun _ => (stable_const _).and stable_owning) fun s γ hI hs => ⟨?_, hs⟩)
  show (s.inputs s.clock).now = x.now
  rw [hI.inputs, h.clock]

/-- **The refresh**: one request, and what it gives is stored. -/
theorem renew_returns (h : x.Due) : x.protocol.Returns i (x.Owning (fun _ posts b => posts = [] ∧ b = false) i)
    (x.lib.renew x.accountId x.current) fun new s γ => x.Owning (x.Done new) i s γ := by
  have hrefresh : x.protocol.Returns i (x.Owning (fun _ posts b => posts = [] ∧ b = false) i)
      (x.lib.refreshTokens x.current) fun new s γ => ∃ answer, (x.Renews answer new ∧ x.Prints new) ∧
        x.Owning (Posted answer false) i s γ := by
    refine (returns_perform (makes_postJson h _)).bind fun answer => returns_exists fun new => ?_
    refine returns_knowing (fun _ _ hs => hs.1) fun hnew => ?_
    refine ((unixNow_returns h).pre fun _ _ _ hs => hs.2).bind_value ?_
    exact returns_result hnew.1.read fun s γ _ hs => ⟨answer, hnew, hs⟩
  unfold renew refreshedFor
  refine Returns.bind (Q := fun new s γ => ∃ answer, (x.Renews answer new ∧ x.Prints new) ∧
    x.Owning (Posted answer false) i s γ) (hrefresh.bind fun new => ?_) fun new => ?_
  · refine returns_knowing (C := x.lib.accountClaim new.idToken = some x.accountId) (fun _ _ hs => ?_) fun hclaim => ?_
    · obtain ⟨answer, hnew, -⟩ := hs
      exact hnew.1.claim
    · rw [if_neg (not_not.2 hclaim)]
      exact returns_pure fun _ _ _ hs => hs
  · refine returns_exists fun answer => returns_knowing (fun _ _ hs => hs.1) fun hnew => ?_
    refine ((storeCredentials_returns h hnew.1 hnew.2).pre fun _ _ _ hs => hs.2).bind fun _ => ?_
    exact returns_pure fun _ _ _ hs => hs

/-- **Under the lock of the account**: the first call refreshes, and the others find what it has stored. -/
theorem refreshLocked_returns (h : x.Due) : x.protocol.Returns i
    (fun s γ => ∃ c, x.Owning (fun v posts rewritten => x.Reads v c ∧ x.Obtained posts rewritten c) i s γ)
    (x.lib.refreshLocked x.accountId false) fun c s γ => x.Owning (x.Done c) i s γ := by
  refine returns_exists fun c => (readCredentials_returns h).bind_value ?_
  rw [if_neg Bool.false_ne_true]
  refine (unixNow_returns h).bind_value ?_
  by_cases hexpired : x.lib.shouldRefresh c x.now = true
  · rw [if_pos hexpired]
    refine returns_knowing (C := c = x.current) (fun s γ hs => ?_) fun hcurrent => ?_
    · obtain ⟨-, -, -, -, ⟨-, -, hcurrent⟩ | ⟨answer, -, hrenews⟩⟩ := hs
      · exact hcurrent
      · rw [hrenews.fresh] at hexpired
        cases hexpired
    · rw [hcurrent]
      refine (renew_returns h).pre fun s γ _ hs => ?_
      obtain ⟨hm, hmigrating, howner, -, ⟨hposts, hrewritten, -⟩ | ⟨answer, -, hrenews⟩⟩ := hs
      · exact ⟨hm, hmigrating, howner, hposts, hrewritten⟩
      · have hfresh := hrenews.fresh
        rw [h.expired] at hfresh
        cases hfresh
  · rw [if_neg hexpired]
    refine returns_pure fun s γ _ hs => ?_
    obtain ⟨hm, hmigrating, howner, hcached, ⟨-, -, hcurrent⟩ | hdone⟩ := hs
    · rw [hcurrent, h.expired] at hexpired
      exact absurd rfl hexpired
    · exact ⟨hm, hmigrating, howner, hcached, hdone⟩

/-- **One call** returns the new access token, after the only refresh. -/
theorem bearer_returns (h : x.Due) {requested : String} (hrequested : trim requested = x.accountId) :
    x.protocol.Returns i (Idle i)
      ((AuthCall.bearer requested).procedure x.lib) fun reply s γ =>
        ∃ c, reply = .token c.accessToken ∧ x.Released i c s γ := by
  have hcredentials : x.protocol.Returns i (Idle i)
      (x.lib.refreshCredentials (some requested) false) fun c s γ => x.Released i c s γ := by
    refine (resolveAccountId_returns h hrequested).bind_value ?_
    refine (returns_perform makes_lockAccount).bind fun _ => ?_
    exact returns_unlocking (refreshLocked_returns h) fun c => makes_unlockAccount
  have htoken := hcredentials.map (f := CodexCredentials.accessToken)
    (T := fun token s γ => ∃ c, token = c.accessToken ∧ x.Released i c s γ) fun c s γ _ hs => ⟨c, rfl, hs⟩
  exact htoken.map fun token s γ _ ⟨c, hc, hs⟩ => ⟨c, congrArg AuthReply.token hc, hs⟩

end Bearer

/-! ## All calls -/

section Runs

variable {ι : Type} {x : FoundAccount} {calls : ι → String} {t : CallPool ι} {γ : Shares ι}
  {tr : List (ι × Sigma AuthOp.Answer)}

/-- The calls of `bearer`, none of which has begun. -/
def bearers (x : FoundAccount) (calls : ι → String) : CallPool ι := authCalls x.lib x.world fun i => .bearer (calls i)

/-- What a call returns. -/
def Returned (x : FoundAccount) (i : ι) (result : Except AuthError AuthReply) (s : AuthWorld) (γ : Shares ι) : Prop :=
  ∃ reply, result = .ok reply ∧ ∃ c, reply = .token c.accessToken ∧ x.Released i c s γ

theorem inv_start (h : x.Due) : x.Inv x.world (.start : Shares ι) where
  inputs := rfl
  migrating := h.migration
  owner := h.lock
  unmigrated _ := ⟨rfl, rfl, fun _ => rfl⟩
  index hm := (found_of_migrated h hm).index _
  settled hm _ := ⟨x.current, (found_of_migrated h hm).reads, .inl ⟨rfl, rfl, rfl⟩⟩
  once := Nat.zero_le 1

theorem holds_start (h : x.Due) (hcalls : ∀ i, trim (calls i) = x.accountId) :
    x.protocol.Holds x.Returned (x.bearers calls) .start where
  inv := inv_start h
  procs i := by
    have hidle : Idle i x.world Shares.start := ⟨by simp [Shares.start], by simp [Shares.start]⟩
    exact ⟨Idle i, stable_idle, hidle, (bearer_returns h (hcalls i)).safe⟩

theorem posts_note (i : ι) (e : Sigma AuthOp.Answer) (γ : Shares ι) :
    (Shares.note i e γ).posts = γ.posts ++ (postedAnswer e).toList := by
  obtain ⟨op, r⟩ := e
  cases op with
  | set key => cases key <;> exact (List.append_nil _).symm
  | postJson => rfl
  | _ => exact (List.append_nil _).symm

/-- The ghost state has the answers of the trace. -/
theorem posts_observed (γ : Shares ι) : (x.protocol.observed γ tr).posts = γ.posts ++ refreshes tr := by
  induction tr generalizing γ with
  | nil => exact (List.append_nil _).symm
  | cons e tr ih =>
    show (x.protocol.observed (Shares.note e.1 e.2 γ) tr).posts = _
    rw [ih, posts_note, refreshes, refreshes, List.filterMap_cons]
    cases postedAnswer e.2 <;> simp

/-- An operation that has to wait is a lock that is held. -/
theorem not_enabled {m : Nat} {op : AuthOp} {s : AuthWorld} (h : ¬ AuthWorld.enabled m op s = true) :
    op = .lockMigrated ∧ (s.managers m).migratedLocked = true ∨
      ∃ accountId, op = .lockAccount accountId ∧ (s.managers m).accountLocked accountId = true := by
  cases op with
  | lockMigrated => exact .inl ⟨rfl, by simpa [AuthWorld.enabled] using h⟩
  | lockAccount accountId => exact .inr ⟨accountId, rfl, by simpa [AuthWorld.enabled] using h⟩
  | _ => exact absurd rfl h

variable [DecidableEq ι]

/-- **No deadlock**: the call that migrates goes on, or the one that has the lock of the account. -/
theorem some_enabled (h : x.protocol.Holds x.Returned t γ) {i : ι} (hi : ∀ result, t.procs i ≠ .ret result) :
    ∃ j, ((callMachine fun _ => x.manager).step t j).isSome = true := by
  have hcall {j : ι} (hj : ∀ result, t.procs j ≠ .ret result) (hwaits : ∀ op, x.Ask j op t.shared γ →
      AuthWorld.enabled x.manager op t.shared = true) : ((callMachine fun _ => x.manager).step t j).isSome = true := by
    cases hproc : t.procs j with
    | ret result => exact absurd hproc (hj result)
    | call op next => exact Pool.step_isSome hproc (hwaits op (h.ask hproc))
  cases hmigrating : γ.migrating with
  | some j =>
    refine ⟨j, hcall (fun result hproc => ?_) fun op hask => ?_⟩
    · obtain ⟨-, -, c, -, hreleased, -⟩ := h.result hproc
      exact hreleased.2.1 hmigrating
    · by_contra hblocked
      rcases not_enabled hblocked with ⟨rfl, -⟩ | ⟨accountId, rfl, -⟩
      · exact hask hmigrating
      · exact hask.2.2 hmigrating
  | none =>
    have hfree : (t.shared.managers x.manager).migratedLocked = false := h.inv.migrating.trans (by rw [hmigrating]; rfl)
    cases howner : γ.owner with
    | some j =>
      refine ⟨j, hcall (fun result hproc => ?_) fun op hask => ?_⟩
      · obtain ⟨-, -, c, -, hreleased, -⟩ := h.result hproc
        exact hreleased.2.2 howner
      · by_contra hblocked
        rcases not_enabled hblocked with ⟨rfl, hlocked⟩ | ⟨accountId, rfl, -⟩
        · rw [hfree] at hlocked
          cases hlocked
        · exact hask.2.1 howner
    | none =>
      refine ⟨i, hcall hi fun op hask => ?_⟩
      by_contra hblocked
      rcases not_enabled hblocked with ⟨rfl, hlocked⟩ | ⟨accountId, rfl, hlocked⟩
      · rw [hfree] at hlocked
        cases hlocked
      · have hopen : (t.shared.managers x.manager).accountLocked x.accountId = false :=
          h.inv.owner.trans (by rw [howner]; rfl)
        rw [hask.1, hopen] at hlocked
        cases hlocked

/-- **Every interleaving.** There is never more than one refresh; a call that returns does so after it, with the
new access token; as long as a call has not returned some call can go on; and finitely many calls come to an end. -/
theorem bearers_share_refresh [Finite ι] (h : x.Due) (hcalls : ∀ i, trim (calls i) = x.accountId) :
    (∀ as tr t, (callMachine fun _ => x.manager).Run Machine.Free (x.bearers calls) as tr t →
      (refreshes tr).length ≤ 1 ∧
      (∀ i result, t.procs i = .ret result → ∃ answer new, refreshes tr = [answer] ∧ x.Renews answer new ∧
        result = .ok (.token new.accessToken)) ∧
      ∀ i, (∀ result, t.procs i ≠ .ret result) → ∃ j, ((callMachine fun _ => x.manager).step t j).isSome = true) ∧
    ∀ states actions, states 0 = x.bearers calls → ¬ (callMachine fun _ => x.manager).Infinite states actions := by
  refine ⟨fun as tr t hr => ?_, fun states actions _ => Pool.not_infinite⟩
  have hholds := (holds_start h hcalls).run hr
  have hposts : (x.protocol.observed .start tr).posts = refreshes tr := posts_observed .start
  refine ⟨?_, fun i result hproc => ?_, fun i hi => some_enabled hholds hi⟩
  · rw [← hposts]
    exact hholds.inv.once
  · obtain ⟨reply, hresult, c, hreply, -, answer, hposted, hrenews⟩ := hholds.result hproc
    rw [hposts] at hposted
    exact ⟨answer, c, hposted, hrenews, by rw [hresult, hreply]⟩

end Runs

/-! ## Two calls -/

/-- The account `a` is signed in with tokens of an unknown age. -/
def staleWorld : AuthWorld := .holding ((signedInA (.ofTable renewalTexts)).take 4) fun _ =>
  ⟨none, .ok ⟨200, answerText idTokenA "A2" "R2"⟩, .ok "code", 2000⟩

def staleAccount : FoundAccount :=
  ⟨.ofTable renewalTexts, 0, "a", staleWorld, [⟨"a", none⟩], ⟨"A", "R", idTokenA, 0⟩, 2000⟩

theorem staleAccount_renews : ∃ new, staleAccount.Renews (.ok ⟨200, answerText idTokenA "A2" "R2"⟩) new ∧
    staleAccount.Prints new := by
  refine ⟨⟨"A2", "R2", idTokenA, 2000⟩, ⟨?_, ?_, ?_⟩, ⟨metadataText "2000", ?_⟩, "[" ++ recordText "a" ++ "]", ?_⟩ <;>
  · decide +kernel

theorem staleAccount_due : staleAccount.Due where
  working _ := rfl
  clock _ := rfl
  serde := renewalTexts_lawful
  proper := by decide
  migration := rfl
  lock := rfl
  listed := by decide +kernel
  named := ⟨⟨"a", none⟩, List.mem_singleton_self _, rfl⟩
  stored := by decide +kernel
  expired := by decide +kernel
  renews _ := staleAccount_renews

/-- The second call comes to the lock of the account while the first one has it. -/
theorem bearers_share_refresh_two : ∃ (tr : List (Bool × Sigma AuthOp.Answer)) (t : CallPool Bool),
    (callMachine fun _ => 0).Run Machine.Free (staleAccount.bearers fun _ => "a")
        (List.replicate 8 false ++ List.replicate 3 true ++ List.replicate 20 false ++ List.replicate 6 true) tr t ∧
      ∀ i, ∃ answer new, refreshes tr = [answer] ∧ staleAccount.Renews answer new ∧
        t.procs i = .ret (.ok (.token new.accessToken)) := by
  have hexec : ((callMachine fun _ => 0).exec (fun _ _ => true) (staleAccount.bearers fun _ => "a")
      (List.replicate 8 false ++ List.replicate 3 true ++ List.replicate 20 false ++ List.replicate 6 true)).any
      (fun r => decide (∀ i, (r.1.procs i).returnedOk = true)) = true := by decide +kernel
  obtain ⟨⟨t, tr⟩, hexec, hok⟩ := (Option.any_eq_true _ _).1 hexec
  have hrun := Machine.run_of_exec (G := Machine.Free) (fun _ _ _ => trivial) hexec
  refine ⟨tr, t, hrun, fun i => ?_⟩
  obtain ⟨reply, hreply⟩ := Procedure.exists_of_returnedOk (of_decide_eq_true hok i)
  have hreturns := ((bearers_share_refresh staleAccount_due fun _ => by decide).1 _ tr t hrun).2.1 i
  obtain ⟨answer, new, hposted, hrenews, hresult⟩ := hreturns _ hreply
  exact ⟨answer, new, hposted, hrenews, by rw [hreply, hresult]⟩

end FoundAccount

end Aifluxon
