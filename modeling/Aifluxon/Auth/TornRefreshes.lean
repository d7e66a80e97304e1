import Aifluxon.Auth.RegularCalls

/-!
# Torn refreshes

A refresh comes to its store after the legacy migration, which writes entries itself.

* `AuthLibrary.movedEntries`, `migrateLegacyCredentials_entries` : what the migration makes of the entries of an account;
* `upToStore_core` : nothing else writes before the store of a refresh;
* `credentials_whole_iff` : when a call that fails leaves a whole set.
-/

namespace Aifluxon

open AuthM AuthLibrary

/-! ## What the migration moves -/

namespace AuthLibrary
variable (lib : AuthLibrary)

/-- The legacy credentials, and the account that they are for. -/
def legacyCredentials (w : AuthWorld) : Option (String × CodexCredentials) := do
  let idToken ← notBlank (w.secrets (.legacy .idToken))
  let accessToken ← notBlank (w.secrets (.legacy .accessToken))
  let refreshToken ← notBlank (w.secrets (.legacy .refreshToken))
  let accountId ← lib.accountClaim idToken
  return (accountId, ⟨accessToken, refreshToken, idToken,
    ((notBlank (w.secrets (.legacy .metadata))).bind lib.parseMetadata).getD 0⟩)

/-- The credentials that a migration which begins now stores: it reads the four legacy entries. -/
def movedCredentials (w : AuthWorld) : Option (String × CodexCredentials) :=
  if (List.range 4).all fun i => (w.inputs (w.clock + i)).fault.isNone then lib.legacyCredentials w else none

/-- The entries of an account after it: for credentials of the account, those before the first write that fails. -/
def movedEntries (accountId : String) (w : AuthWorld) (kind : CredentialKind) : Option String :=
  match lib.movedCredentials w with
  | some (owner, credentials) =>
    if lib.fingerprint owner = lib.fingerprint accountId ∧
        kind.place < (lib.firstFailure credentials { w with clock := w.clock + 4 }).getD 4 then
      lib.newEntries credentials kind
    else lib.entries accountId w kind
  | none => lib.entries accountId w kind

/-- The entries of an account after the migration of a call that begins now, which takes the lock before. -/
def migratedEntries (m : Nat) (accountId : String) (w : AuthWorld) : CredentialKind → Option String :=
  if (w.managers m).migrated then lib.entries accountId w
  else lib.movedEntries accountId { w with clock := w.clock + 1 }

end AuthLibrary

section Migration
variable {lib : AuthLibrary} {m : Nat} {accountId owner : String} {credentials : CodexCredentials} {w : AuthWorld}

theorem exec_getText_eq (key : SecretKey) (w : AuthWorld) : exec m (getText key) w =
    (match w.input.fault with
      | some error => .error error
      | none => .ok (notBlank (w.secrets key)), w.tick) := by
  have hget : exec m (getSecret key) w = w.attempt (w.secrets key) w := rfl
  unfold getText
  rw [exec_map, hget, AuthWorld.attempt]
  cases w.input.fault <;> rfl

theorem storeScopedCredentials_of (accountId : String) (w : AuthWorld) (kind : CredentialKind) :
    lib.entries accountId (exec m (lib.storeScopedCredentials owner credentials) w).2 kind =
      if lib.fingerprint owner = lib.fingerprint accountId ∧ kind.place < (lib.firstFailure credentials w).getD 4 then
        lib.newEntries credentials kind
      else lib.entries accountId w kind := by
  by_cases hsame : lib.fingerprint owner = lib.fingerprint accountId
  · have hentries (w : AuthWorld) : lib.entries accountId w = lib.entries owner w := by
      funext kind
      simp only [AuthLibrary.entries, AuthLibrary.accountSecret, hsame]
    rw [hentries, hentries, (storeScopedCredentials_exec lib m owner credentials w).2 kind]
    simp only [hsame, true_and]
  · rw [if_neg fun h => hsame h.1]
    refine congrFun ((storeScopedCredentials_touches credentials).keeps (m := m)
      (J := fun w' => lib.entries accountId w' = lib.entries accountId w) (fun op w' hop hw => ?_) rfl) kind
    refine Eq.trans ?_ hw
    funext kind'
    rcases hop with hcalm | ⟨kind, rfl | ⟨value, rfl⟩⟩
    · exact (calm_frame hcalm).1 _ (by simp [AuthLibrary.accountSecret])
    all_goals
      have hne : lib.accountSecret accountId kind' ≠ lib.accountSecret owner kind := by
        intro heq
        injection heq with hfingerprint
        exact hsame hfingerprint.symm
      refine (handle_frame m _ w' (by simp)).2.2 _ ?_ ?_ <;> simp [Ne.symm hne]

theorem movedEntries_unread {i : Nat} (hi : i < 4) {error : AuthError}
    (hfault : (w.inputs (w.clock + i)).fault = some error) :
    lib.movedEntries accountId w = lib.entries accountId w := by
  have hunread : lib.movedCredentials w = none := by
    refine if_neg fun hall => ?_
    have hnone := List.all_eq_true.1 hall i (List.mem_range.2 hi)
    rw [hfault] at hnone
    cases hnone
  funext kind
  rw [AuthLibrary.movedEntries, hunread]

theorem movedEntries_none (hnone : lib.legacyCredentials w = none) :
    lib.movedEntries accountId w = lib.entries accountId w := by
  have hmoved : lib.movedCredentials w = none := by
    rw [AuthLibrary.movedCredentials, hnone, ite_self]
  funext kind
  rw [AuthLibrary.movedEntries, hmoved]

/-- **What the migration writes:** it reads, stores, and then touches no entry of an account. -/
theorem migrateLegacyCredentials_entries (w : AuthWorld) :
    lib.entries accountId (exec m lib.migrateLegacyCredentials w).2 = lib.movedEntries accountId w := by
  have hrest {x : AuthM Unit} (hx : Performs AuthOp.SparesEntries x) (w : AuthWorld) :
      lib.entries accountId (exec m x w).2 = lib.entries accountId w :=
    hx.keeps (J := fun w' => lib.entries accountId w' = lib.entries accountId w)
      (fun op w' hop hw => (handle_entries op hop w').trans hw) rfl
  have hread (i : Nat) (hi : i < 4) (kind : CredentialKind) (f : Option String → AuthM Unit)
      (hf : (w.inputs (w.clock + i)).fault = none → lib.entries accountId (exec m (f (notBlank (w.secrets (.legacy kind))))
        { w with clock := w.clock + (i + 1) }).2 = lib.movedEntries accountId w) :
      lib.entries accountId (exec m (getText (.legacy kind) >>= f) { w with clock := w.clock + i }).2 =
        lib.movedEntries accountId w := by
    rw [exec_bind, exec_getText_eq]
    cases hfault : (w.inputs (w.clock + i)).fault with
    | some error =>
      simp only [AuthWorld.input, hfault]
      exact (movedEntries_unread hi hfault).symm
    | none =>
      simp only [AuthWorld.input, hfault]
      exact hf hfault
  have hmissing (hnone : lib.legacyCredentials w = none) (w' : AuthWorld)
      (hw' : lib.entries accountId w' = lib.entries accountId w) :
      lib.entries accountId w' = lib.movedEntries accountId w := hw'.trans (movedEntries_none hnone).symm
  refine hread 0 (by decide) .idToken _ fun h0 => ?_
  rcases hid : notBlank (w.secrets (.legacy .idToken)) with _ | idToken
  · exact hmissing (by rw [AuthLibrary.legacyCredentials, hid]; rfl) _ rfl
  refine hread 1 (by decide) .accessToken _ fun h1 => ?_
  rcases haccess : notBlank (w.secrets (.legacy .accessToken)) with _ | accessToken
  · exact hmissing (by rw [AuthLibrary.legacyCredentials, hid, haccess]; rfl) _ rfl
  refine hread 2 (by decide) .refreshToken _ fun h2 => ?_
  rcases hrefresh : notBlank (w.secrets (.legacy .refreshToken)) with _ | refreshToken
  · exact hmissing (by rw [AuthLibrary.legacyCredentials, hid, haccess, hrefresh]; rfl) _ rfl
  dsimp only
  rw [exec_bind, exec_okOr]
  rcases hclaim : lib.accountClaim idToken with _ | owner
  · refine hmissing ?_ _ rfl
    rw [AuthLibrary.legacyCredentials, hid, haccess, hrefresh]
    show (lib.accountClaim idToken >>= _) = none
    rw [hclaim]
    rfl
  refine hread 3 (by decide) .metadata _ fun h3 => ?_
  have hmoved : lib.movedCredentials w = some (owner, ⟨accessToken, refreshToken, idToken,
      ((notBlank (w.secrets (.legacy .metadata))).bind lib.parseMetadata).getD 0⟩) := by
    have hall : ((List.range 4).all fun i => (w.inputs (w.clock + i)).fault.isNone) = true := by
      have hrange : List.range 4 = [0, 1, 2, 3] := rfl
      simp only [hrange, List.all_cons, List.all_nil, h0, h1, h2, h3]
      rfl
    rw [AuthLibrary.movedCredentials, if_pos hall, AuthLibrary.legacyCredentials, hid, haccess, hrefresh]
    show (lib.accountClaim idToken >>= _) = _
    rw [hclaim]
    rfl
  have hstored (kind : CredentialKind) := @storeScopedCredentials_of lib m owner
    ⟨accessToken, refreshToken, idToken, ((notBlank (w.secrets (.legacy .metadata))).bind lib.parseMetadata).getD 0⟩
    accountId { w with clock := w.clock + 4 } kind
  have hentries : lib.movedEntries accountId w = lib.entries accountId (exec m (lib.storeScopedCredentials owner
      ⟨accessToken, refreshToken, idToken, ((notBlank (w.secrets (.legacy .metadata))).bind lib.parseMetadata).getD 0⟩)
      { w with clock := w.clock + 4 }).2 := by
    funext kind
    rw [hstored kind, AuthLibrary.movedEntries, hmoved]
    rfl
  rw [hentries, exec_bind]
  rcases exec m (lib.storeScopedCredentials owner _) { w with clock := w.clock + (3 + 1) } with ⟨result, w'⟩
  cases result with
  | error error => rfl
  | ok =>
    refine hrest ?_ w'
    have hdelete (kind : CredentialKind) : Performs AuthOp.SparesEntries (deleteSecret (.legacy kind)) :=
      .deleteSecret trivial
    refine .bind (upsertAccountRecord_performs _ fun op hindex _ => ?_) fun _ => .bind (hdelete _) fun _ =>
      .bind (hdelete _) fun _ => .bind (hdelete _) fun _ => hdelete _
    cases op with
    | set key | delete key => cases key with
      | accountIndex => trivial
      | account | legacy => exact hindex.elim
    | _ => trivial

theorem ensureLegacyCredentialsMigrated_exec (w : AuthWorld) :
    lib.entries accountId (exec m lib.ensureLegacyCredentialsMigrated w).2 = lib.migratedEntries m accountId w ∧
      ((exec m lib.ensureLegacyCredentialsMigrated w).1 = .ok () →
        ((exec m lib.ensureLegacyCredentialsMigrated w).2.managers m).migrated = true) := by
  have hunlock (w : AuthWorld) : (AuthWorld.handle m .unlockMigrated w).2.core = w.core := quiet_core trivial
  have hlock : (AuthWorld.handle m .lockMigrated w).2.core = w.core := quiet_core trivial
  have hentries {w w' : AuthWorld} (hcore : w'.core = w.core) : lib.entries accountId w' = lib.entries accountId w :=
    funext fun _ => congrFun (congrArg Prod.fst hcore) _
  have hmigrated {w w' : AuthWorld} (hcore : w'.core = w.core) : (w'.managers m).migrated = (w.managers m).migrated :=
    congrFun (congrArg (fun core => core.2.2) hcore) m
  have hflag : (AuthWorld.handle m .lockMigrated w).1 = (w.managers m).migrated := rfl
  unfold AuthLibrary.ensureLegacyCredentialsMigrated AuthLibrary.migratedEntries
  rw [exec_bind, exec_perform, hflag]
  dsimp only
  rw [exec_unlocking, hentries (hunlock _), hmigrated (hunlock _)]
  cases hmark : (w.managers m).migrated with
  | true =>
    rw [if_pos rfl, if_pos rfl, exec_pure]
    exact ⟨hentries hlock, fun _ => (hmigrated hlock).trans hmark⟩
  | false =>
    rw [if_neg Bool.false_ne_true, if_neg Bool.false_ne_true, exec_bind]
    have hmoved : lib.entries accountId (exec m lib.migrateLegacyCredentials (AuthWorld.handle m .lockMigrated w).2).2 =
      lib.movedEntries accountId { w with clock := w.clock + 1 } := migrateLegacyCredentials_entries _
    rcases hexec : exec m lib.migrateLegacyCredentials (AuthWorld.handle m .lockMigrated w).2 with ⟨result, w'⟩
    rw [hexec] at hmoved
    cases result with
    | error error => exact ⟨hmoved, nofun⟩
    | ok =>
      refine ⟨hmoved, fun _ => ?_⟩
      show ((w'.modify m fun c => { c with migrated := true }).managers m).migrated = true
      simp

theorem ensureLegacyCredentialsMigrated_done {c : (SecretKey → Option String) × (Nat → AuthInput) × (Nat → Bool)}
    (hc : c.2.2 m = true) : Leads m (fun w _ => w.core = c) lib.ensureLegacyCredentialsMigrated
      (fun _ w _ => w.core = c) fun w _ => w.core = c := by
  have hquiet {op : AuthOp} {w : AuthWorld} (hop : op.Quiet) (hw : w.core = c) : (AuthWorld.handle m op w).2.core = c :=
    (quiet_core hop).trans hw
  have hlock : Leads m (fun w _ => w.core = c) (perform .lockMigrated)
      (fun (migrated : Bool) w _ => w.core = c ∧ migrated = true) fun w _ => w.core = c :=
    leads_perform fun w _ hw => ⟨hquiet trivial hw, (congrFun (congrArg (fun core => core.2.2) hw) m).trans hc⟩
  refine hlock.bind fun migrated => Leads.unlocking ?_ (fun _ _ _ hw => hquiet trivial hw) fun _ _ hw => hquiet trivial hw
  cases migrated with
  | true => exact leads_pure fun w _ hw => hw.1
  | false => exact leads_knowing (C := False) (fun w _ hw => absurd hw.2 Bool.false_ne_true) False.elim

/-- **Only the migration writes** before the store of a refresh. -/
theorem upToStore_core (requested : Option String) (force : Bool) (w : AuthWorld) :
    (exec m (lib.upToStore requested force) w).2.core = (exec m lib.ensureLegacyCredentialsMigrated w).2.core := by
  have hmark := (@ensureLegacyCredentialsMigrated_exec lib m "" w).2
  unfold AuthLibrary.upToStore AuthLibrary.resolveAccountId AuthLibrary.accountRecords
  simp only [bind_assoc]
  rw [exec_bind]
  rcases hexec : exec m lib.ensureLegacyCredentialsMigrated w with ⟨result, w₁⟩
  rw [hexec] at hmark
  cases result with
  | error error => rfl
  | ok =>
    have hc : w₁.core.2.2 m = true := hmark rfl
    have hquiet {α : Type} {x : AuthM α} (hx : Performs AuthOp.Quiet x) : Leads m (fun w _ => w.core = w₁.core) x
        (fun _ w _ => w.core = w₁.core) fun w _ => w.core = w₁.core :=
      hx.leads fun op w hop hw => (quiet_core hop).trans hw
    have hread (accountId : String) : Leads m (fun w _ => w.core = w₁.core) (lib.readCredentials accountId)
        (fun _ w _ => w.core = w₁.core) fun w _ => w.core = w₁.core := by
      refine (ensureLegacyCredentialsMigrated_done hc).bind fun _ => hquiet ?_
      refine .bind (.perform trivial) fun cached => ?_
      split
      · exact .pure _
      · exact .bind readScopedCredentials_quiet fun _ => .bind (.perform trivial) fun _ => .pure _
    refine leads_left (P := fun w => w.core = w₁.core) ?_ rfl
    refine (hquiet (readAccountIndex_performs fun _ _ hop => hop)).bind fun records => ?_
    have hlock (accountId : String) : Performs AuthOp.Quiet (perform (.lockAccount accountId)) := .perform trivial
    refine (hquiet (.result _)).bind fun accountId => (hquiet (hlock accountId)).bind fun _ => ?_
    refine Leads.bind ((hread accountId).bind fun current => hquiet ?_) fun _ => hquiet (.pure _)
    split
    · exact .map (refreshedFor_quiet current)
    · refine .bind (.perform trivial) fun now => ?_
      split
      · exact .map (refreshedFor_quiet current)
      · exact .pure _

theorem upToStore_entries (requested : Option String) (force : Bool) (w : AuthWorld) :
    lib.entries accountId (exec m (lib.upToStore requested force) w).2 = lib.migratedEntries m accountId w := by
  rw [← (@ensureLegacyCredentialsMigrated_exec lib m accountId w).1]
  exact funext fun _ => congrFun (congrArg Prod.fst (upToStore_core requested force w)) _

end Migration

/-! ## When a failing call leaves a whole set -/

section Whole
variable (lib : AuthLibrary) (m : Nat) (accountId : String)

/-- A store that fails leaves a whole set. -/
def StoreWhole (credentials : CodexCredentials) (w : AuthWorld) : Prop :=
  ∀ error, (exec m (lib.storeCredentials accountId credentials) w).1 = .error error →
    Whole (lib.entries accountId w) (lib.newEntries credentials)
      (lib.entries accountId (exec m (lib.storeCredentials accountId credentials) w).2)

/-- A refresh that fails leaves a whole set: the old one, or the one that it came to store. -/
def RefreshWhole (requested : Option String) (force : Bool) (w : AuthWorld) : Prop :=
  ∀ error, (exec m (lib.refreshCredentials requested force) w).1 = .error error →
    match (exec m (lib.upToStore requested force) w).1 with
    | .ok (_, refreshed, true) => Whole (lib.entries accountId w) (lib.newEntries refreshed)
        (lib.entries accountId (exec m (lib.refreshCredentials requested force) w).2)
    | _ => lib.entries accountId (exec m (lib.refreshCredentials requested force) w).2 = lib.entries accountId w

/-- A refresh that fails before its store finds nothing to migrate to the account, or migrates what the account has; in
the state in which one begins to store, the writes before the first failure and the entries that the migration has left
make a whole set. -/
def RefreshUnbroken (requested : Option String) (force : Bool) (w : AuthWorld) : Prop :=
  match exec m (lib.upToStore requested force) w with
  | (.error _, _) => lib.migratedEntries m accountId w = lib.entries accountId w
  | (.ok (_, _, false), _) => True
  | (.ok (_, refreshed, true), w₁) => Untorn (lib.entries accountId w) (lib.newEntries refreshed)
      (lib.migratedEntries m accountId w) (lib.firstFailure refreshed w₁)

variable {lib m accountId}

theorem StoreWhole.unbroken {credentials : CodexCredentials} {w : AuthWorld}
    (h : StoreWhole lib m accountId credentials w) (hclaim : lib.accountClaim credentials.idToken = some accountId) :
    Untorn (lib.entries accountId w) (lib.newEntries credentials) (lib.entries accountId w)
      (lib.firstFailure credentials w) := (storeCredentials_whole_iff hclaim).1 h

/-- **When a call that fails leaves a whole set.** A store does when the entries that it has written were the
same before, or those still to write are the new ones already. -/
theorem credentials_whole_iff (credentials : CodexCredentials) (w : AuthWorld) :
    (StoreWhole lib m accountId credentials w ↔ (lib.accountClaim credentials.idToken = some accountId →
      Untorn (lib.entries accountId w) (lib.newEntries credentials) (lib.entries accountId w)
        (lib.firstFailure credentials w))) ∧
    ∀ requested force,
      (∀ a renewed, (exec m (lib.upToStore requested force) w).1 = .ok (a, renewed) → a = accountId) →
      (RefreshWhole lib m accountId requested force w ↔ RefreshUnbroken lib m accountId requested force w) := by
  refine ⟨⟨StoreWhole.unbroken, fun h => ?_⟩, fun requested force hof => ?_⟩
  · by_cases hclaim : lib.accountClaim credentials.idToken = some accountId
    · exact (storeCredentials_whole_iff hclaim).2 (h hclaim)
    · exact fun _ _ => .inl ((storeCredentials_exec w).1 hclaim)
  · have hrefresh := refreshCredentials_exec lib m (lib.entries accountId)
      (fun a w => handle_entries (.unlockAccount a) trivial w) requested force w
    have hmigrated := @upToStore_entries lib m accountId requested force w
    unfold RefreshWhole RefreshUnbroken
    revert hof hrefresh hmigrated
    rcases exec m (lib.upToStore requested force) w with ⟨result, w₁⟩
    intro hof hrefresh hmigrated
    dsimp only at hmigrated
    cases result with
    | error error =>
      obtain ⟨herror, hentries⟩ := hrefresh
      dsimp only
      rw [hentries, hmigrated]
      exact ⟨fun h => h error herror, fun h _ _ => h⟩
    | ok renewed =>
      obtain ⟨a, refreshed, fresh⟩ := renewed
      cases fresh with
      | false =>
        refine ⟨fun _ => trivial, fun _ error herror => ?_⟩
        rw [hrefresh.1] at herror
        cases herror
      | true =>
        obtain rfl := hof a _ rfl
        obtain ⟨hclaim, hresult, hentries⟩ := hrefresh
        dsimp only
        rw [hentries, hresult, ← hmigrated, ← storeCredentials_whole_iff hclaim (m := m)]
        refine forall_congr' fun error => ?_
        rcases exec m (lib.storeCredentials a refreshed) w₁ with ⟨result, w₂⟩
        cases result with
        | ok => simp [Except.map]
        | error error => simp [Except.map]

/-- A forced refresh of `a` whose second write fails. -/
theorem credentials_whole_iff_refresh :
    let lib := AuthLibrary.ofTable renewalTexts
    let w := AuthWorld.holding (signedInA lib) (failingInput 19)
    (exec 0 (lib.upToStore (some "a") true) w).1 = .ok ("a", ⟨"A2", "R2", idTokenA, 2000⟩, true) ∧
      (RefreshWhole lib 0 "a" (some "a") true w ↔ RefreshUnbroken lib 0 "a" (some "a") true w) := by
  intro lib w
  have hof : (exec 0 (lib.upToStore (some "a") true) w).1 = .ok ("a", ⟨"A2", "R2", idTokenA, 2000⟩, true) := by
    decide +kernel
  refine ⟨hof, (credentials_whole_iff ⟨"A2", "R2", idTokenA, 2000⟩ w).2 (some "a") true fun a renewed h => ?_⟩
  rw [hof] at h
  cases h
  rfl

/-- The second write of a store fails: the access token is the new one, the others are the old ones. -/
theorem credentials_torn : ¬ ∀ (lib : AuthLibrary) (m : Nat) (accountId : String) (credentials : CodexCredentials)
    (w : AuthWorld), StoreWhole lib m accountId credentials w := by
  intro hall
  have hwhole := hall (.ofTable renewalTexts) 0 "a" ⟨"A2", "R2", idTokenA, 2000⟩
    (.holding (signedInA (.ofTable renewalTexts)) (failingInput 1))
  rcases hwhole.unbroken (by decide +kernel) 1 (by decide +kernel) with hold | hnew
  · exact absurd ((hold .accessToken).1 (by decide)) (by decide +kernel)
  · exact absurd ((hnew .refreshToken).2 (by decide)) (by decide +kernel)

end Whole

end Aifluxon
