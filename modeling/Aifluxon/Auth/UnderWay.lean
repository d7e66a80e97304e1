import Aifluxon.Auth.Migration

/-!
# What a call has under way

A refresh reads the credentials of an account under the lock of the account, and stores new ones before it gives the
lock back. A migration stores the credentials that it has found in the legacy entries.

* `refreshing`, `migrating` : what a call has under way, read off the operations that it has made;
* `AuthLibrary.Guarded` : only a call that has a renewal or a migration under way sets an entry, or writes the index;
* `AuthOp.Steady`, `Performs.guarded` : operations between which nothing begins or ends;
* `procedure_guarded` : all calls but logins and sign-outs are guarded.
-/

namespace Aifluxon

open AuthM AuthLibrary

/-! ## Renewals and migrations -/

namespace AuthLibrary
variable (lib : AuthLibrary)

/-- The account whose lock a call holds, and whether the call has read the credentials of the account since. -/
def refreshingAfter : Option (String × Bool) → Sigma AuthOp.Answer → Option (String × Bool)
  | _, ⟨.lockAccount accountId, _⟩ => some (accountId, false)
  | _, ⟨.unlockAccount _, _⟩ => none
  | some (accountId, read), ⟨.cachedCredentials accountId', some _⟩ => some (accountId, read || accountId' = accountId)
  | some (accountId, read), ⟨.get (.account fingerprint .accessToken), .ok (some text)⟩ =>
    some (accountId, read || decide (fingerprint = lib.fingerprint accountId ∧ trim text ≠ ""))
  | refreshing, _ => refreshing

def refreshing (h : AuthHistory) : Option (String × Bool) := h.foldl lib.refreshingAfter none

end AuthLibrary

/-- The legacy entries that a call has found since it took the lock of the migration, if it has to migrate. -/
def migratingAfter : Option (List CredentialKind) → Sigma AuthOp.Answer → Option (List CredentialKind)
  | _, ⟨.lockMigrated, migrated⟩ => if migrated then none else some []
  | _, ⟨.setMigrated, _⟩ | _, ⟨.unlockMigrated, _⟩ => none
  | some found, ⟨.get (.legacy kind), .ok (some text)⟩ => some (if trim text = "" then found else kind :: found)
  | migrating, _ => migrating

def migrating (h : AuthHistory) : Option (List CredentialKind) := h.foldl migratingAfter none

/-- A call that has to migrate has found these legacy entries. -/
def HasFound (kinds : List CredentialKind) (h : AuthHistory) : Prop :=
  ∃ found, migrating h = some found ∧ ∀ kind ∈ kinds, kind ∈ found

section
variable {lib : AuthLibrary} {h h' : AuthHistory} {kinds : List CredentialKind}

@[simp] theorem refreshing_snoc (h : AuthHistory) (e : Sigma AuthOp.Answer) :
    lib.refreshing (h ++ [e]) = lib.refreshingAfter (lib.refreshing h) e := by
  rw [refreshing, List.foldl_append, List.foldl_cons, List.foldl_nil, refreshing]

@[simp] theorem migrating_snoc (h : AuthHistory) (e : Sigma AuthOp.Answer) :
    migrating (h ++ [e]) = migratingAfter (migrating h) e := by
  rw [migrating, List.foldl_append, List.foldl_cons, List.foldl_nil, migrating]

/-- How a call comes to have read the credentials of an account. -/
theorem refreshingAfter_read {before : Option (String × Bool)} {e : Sigma AuthOp.Answer} {accountId : String}
    (hread : lib.refreshingAfter before e = some (accountId, true)) : before = some (accountId, true) ∨
      (∃ credentials, e = ⟨.cachedCredentials accountId, some credentials⟩) ∨
      ∃ text, e = ⟨.get (lib.accountSecret accountId .accessToken), .ok (some text)⟩ := by
  unfold refreshingAfter at hread
  split at hread
  · cases hread
  · cases hread
  · rename_i a read a' credentials
    obtain ⟨rfl, hor⟩ := Prod.mk.inj (Option.some.inj hread)
    rcases Bool.or_eq_true_iff.1 hor with rfl | hsame
    · exact .inl rfl
    · obtain rfl := of_decide_eq_true hsame
      exact .inr (.inl ⟨credentials, rfl⟩)
  · rename_i a read fingerprint text
    obtain ⟨rfl, hor⟩ := Prod.mk.inj (Option.some.inj hread)
    rcases Bool.or_eq_true_iff.1 hor with rfl | hsame
    · exact .inl rfl
    · obtain ⟨rfl, -⟩ := of_decide_eq_true hsame
      exact .inr (.inr ⟨text, rfl⟩)
  · exact .inl hread

/-- How a call comes to refresh an account. -/
theorem refreshingAfter_account {before : Option (String × Bool)} {e : Sigma AuthOp.Answer} {accountId : String}
    {read : Bool} (hafter : lib.refreshingAfter before e = some (accountId, read)) :
    (∃ read', before = some (accountId, read')) ∨ e = ⟨.lockAccount accountId, ()⟩ := by
  unfold refreshingAfter at hafter
  split at hafter
  · cases hafter
    exact .inr rfl
  · cases hafter
  · cases hafter
    exact .inl ⟨_, rfl⟩
  · cases hafter
    exact .inl ⟨_, rfl⟩
  · exact .inl ⟨read, hafter⟩

/-- How a call comes to migrate. -/
theorem migratingAfter_some {before : Option (List CredentialKind)} {e : Sigma AuthOp.Answer}
    {found : List CredentialKind} (hafter : migratingAfter before e = some found) :
    (∃ found', before = some found') ∨ e = ⟨.lockMigrated, false⟩ := by
  unfold migratingAfter at hafter
  split at hafter
  · rename_i migrated
    cases migrated with
    | true => cases hafter
    | false => exact .inr rfl
  · cases hafter
  · cases hafter
  · exact .inl ⟨_, rfl⟩
  · exact .inl ⟨found, hafter⟩

/-- How a call comes to have found a legacy entry. -/
theorem hasFound_snoc {kind : CredentialKind} {e : Sigma AuthOp.Answer} (hfound : HasFound [kind] (h ++ [e])) :
    HasFound [kind] h ∨ ∃ text, e = ⟨.get (.legacy kind), .ok (some text)⟩ ∧ trim text ≠ "" := by
  obtain ⟨found, hafter, hall⟩ := hfound
  have hmem : kind ∈ found := hall kind (List.mem_singleton.2 rfl)
  rw [migrating_snoc] at hafter
  have hsame (hbefore : migrating h = some found) : HasFound [kind] h := ⟨found, hbefore, hall⟩
  unfold migratingAfter at hafter
  split at hafter
  · rename_i migrated
    cases migrated with
    | true => cases hafter
    | false =>
      cases hafter
      cases hmem
  · cases hafter
  · cases hafter
  · rename_i found' kind' text hbefore
    cases hafter
    split at hmem
    · rename_i hblank
      rw [if_pos hblank] at hsame
      exact .inl (hsame hbefore)
    · rename_i hblank
      rcases List.mem_cons.1 hmem with rfl | hmem
      · exact .inr ⟨text, rfl, hblank⟩
      · refine .inl ⟨found', hbefore, fun k hk => ?_⟩
        rw [List.mem_singleton.1 hk]
        exact hmem
  · exact .inl (hsame hafter)

theorem HasFound.mono {kinds' : List CredentialKind} (hfound : HasFound kinds h) (hkinds : ∀ kind ∈ kinds', kind ∈ kinds) :
    HasFound kinds' h := by
  obtain ⟨found, hmigrating, hall⟩ := hfound
  exact ⟨found, hmigrating, fun kind hkind => hall kind (hkinds kind hkind)⟩

end

/-! ## Guarded operations -/

namespace AuthLibrary
variable (lib : AuthLibrary)

/-- A call may store credentials: it has read those of the account that it has locked, or the legacy ones. -/
def MayStore (h : AuthHistory) : Prop :=
  (∃ accountId, lib.refreshing h = some (accountId, true)) ∨ HasFound [.refreshToken, .accessToken, .idToken] h

/-- What may only be done by a call that has credentials to store. No legacy entry is set, and none of an account is
deleted. -/
def Guarded (h : AuthHistory) : AuthOp → Prop
  | .set (.account _ _) _ | .set .accountIndex _ | .delete .accountIndex => lib.MayStore h
  | .cacheCredentials accountId _ => lib.refreshing h = some (accountId, true)
  | .set (.legacy _) _ | .delete (.account _ _) => False
  | _ => True

end AuthLibrary

/-- An operation that may be done by any call. -/
def AuthOp.Free : AuthOp → Prop
  | .set _ _ | .delete .accountIndex | .delete (.account _ _) | .cacheCredentials _ _ => False
  | _ => True

/-- An operation that neither begins nor ends a renewal or a migration, and finds nothing. -/
def AuthOp.Steady : AuthOp → Prop
  | .lockAccount _ | .unlockAccount _ | .lockMigrated | .setMigrated | .unlockMigrated | .cachedCredentials _
  | .get (.account _ .accessToken) | .get (.legacy _) => False
  | _ => True

section
variable {lib : AuthLibrary} {h h' : AuthHistory} {op : AuthOp} {α : Type} {x : AuthM α} {C : AuthOp → Prop}

theorem AuthOp.Free.guarded (hop : op.Free) : lib.Guarded h op := by
  cases op with
  | set => exact hop.elim
  | delete key => cases key with
    | accountIndex | account => exact hop.elim
    | legacy => trivial
  | cacheCredentials => exact hop.elim
  | _ => trivial

/-- The call has the same under way. -/
def SameUnderWay (lib : AuthLibrary) (h h' : AuthHistory) : Prop :=
  lib.refreshing h' = lib.refreshing h ∧ migrating h' = migrating h

theorem AuthOp.Steady.same (hop : op.Steady) (r : op.Answer) : SameUnderWay lib h (h ++ [⟨op, r⟩]) := by
  rw [SameUnderWay, refreshing_snoc, migrating_snoc]
  cases op with
  | get key => cases key with
    | account fingerprint kind => cases kind with
      | accessToken => exact hop.elim
      | _ => cases lib.refreshing h <;> cases migrating h <;> exact ⟨rfl, rfl⟩
    | legacy => exact hop.elim
    | accountIndex => cases lib.refreshing h <;> cases migrating h <;> exact ⟨rfl, rfl⟩
  | lockAccount | unlockAccount | lockMigrated | setMigrated | unlockMigrated | cachedCredentials => exact hop.elim
  | _ => cases lib.refreshing h <;> cases migrating h <;> exact ⟨rfl, rfl⟩

theorem SameUnderWay.mayStore (h₁ : SameUnderWay lib h h') (hmay : lib.MayStore h) : lib.MayStore h' := by
  unfold MayStore HasFound
  rw [h₁.1, h₁.2]
  exact hmay

/-- Steady operations leave what is under way, and may be done if they may be done at first. -/
theorem Performs.guarded (hx : Performs C x) (hsteady : ∀ op, C op → op.Steady)
    (hguarded : ∀ h' op, SameUnderWay lib h h' → C op → lib.Guarded h' op) :
    Meets (fun _ _ => True) lib.Guarded (fun h' _ => SameUnderWay lib h h') x h := by
  have hsame (l : AuthHistory) (hl : ∀ e ∈ l, C e.1) : SameUnderWay lib h (h ++ l) := by
    induction l using List.reverseRecOn with
    | nil => exact ⟨by rw [List.append_nil], by rw [List.append_nil]⟩
    | append_singleton l e ih =>
      have hbefore := ih fun e he => hl e (List.mem_append_left _ he)
      have hlast : SameUnderWay lib (h ++ l) (h ++ l ++ [e]) := (hsteady e.1 (hl e (by simp))).same e.2
      rw [← List.append_assoc]
      exact ⟨hlast.1.trans hbefore.1, hlast.2.trans hbefore.2⟩
  refine ⟨(hx.meets h).sat.since.mono ?_ ?_⟩
  · rintro _ op ⟨⟨l, rfl, hl⟩, hop⟩
    exact hguarded _ op (hsame l hl) hop
  · rintro _ result ⟨⟨l, rfl, hl⟩, -⟩ _ _
    exact hsame l hl

/-- Operations that may be done by any call. -/
theorem Performs.free (hx : Performs AuthOp.Free x) : Meets (fun _ _ => True) lib.Guarded (fun _ _ => True) x h :=
  (hx.meets h).mono (fun _ _ hop => hop.guarded) fun _ _ _ => trivial

end

/-! ## The calls -/

/-- A call that stores nothing that it has not read before. -/
def AuthCall.readsFirst : AuthCall → Bool
  | login _ _ | logout _ => false
  | _ => true

namespace AuthLibrary

variable {lib : AuthLibrary} {h : AuthHistory} {accountId : String} {kinds : List CredentialKind} {α : Type}

/-- An operation that is steady and may be done by any call. -/
def SteadyFree (op : AuthOp) : Prop := op.Steady ∧ op.Free

/-- An operation that writes credentials, or the index. -/
def Writing (op : AuthOp) : Prop :=
  op.Steady ∧ (op.Free ∨ (∃ fingerprint kind value, op = .set (.account fingerprint kind) value) ∨ op.writesIndex = true)

theorem steadyFree_ofIndex {op : AuthOp} (hindex : op.OfIndex) (hop : op.Quiet) : SteadyFree op := by
  cases op with
  | get key => cases key with
    | accountIndex => exact ⟨trivial, trivial⟩
    | legacy | account => exact hindex.elim
  | set | delete => exact hop.elim
  | cachedRecords | cacheRecords => exact ⟨trivial, trivial⟩
  | _ => exact hindex.elim

theorem writing_ofIndex {op : AuthOp} (hindex : op.OfIndex) (hop : op.Quiet ∨ ∃ records, lib.Writes records op) :
    Writing op := by
  rcases hop with hop | ⟨records, ⟨-, rfl⟩ | ⟨text, -, rfl⟩⟩
  · obtain ⟨hsteady, hfree⟩ := steadyFree_ofIndex hindex hop
    exact ⟨hsteady, .inl hfree⟩
  · exact ⟨trivial, .inr (.inr rfl)⟩
  · exact ⟨trivial, .inr (.inr rfl)⟩

/-- A call that may store credentials may write. -/
theorem writing_guarded {x : AuthM α} (hx : Performs Writing x) (hmay : lib.MayStore h) :
    Meets (fun _ _ => True) lib.Guarded (fun h' _ => SameUnderWay lib h h') x h := by
  refine hx.guarded (fun _ hop => hop.1) fun h' op hsame hop => ?_
  have hmay' := hsame.mayStore hmay
  rcases hop.2 with hfree | ⟨fingerprint, kind, value, rfl⟩ | hwrites
  · exact hfree.guarded
  · exact hmay'
  · cases op with
    | set key | delete key => cases key with
      | accountIndex => exact hmay'
      | legacy | account => cases hwrites
    | _ => cases hwrites

theorem steadyFree_guarded {x : AuthM α} (hx : Performs SteadyFree x) :
    Meets (fun _ _ => True) lib.Guarded (fun h' _ => SameUnderWay lib h h') x h :=
  hx.guarded (fun _ hop => hop.1) fun _ _ _ hop => hop.2.guarded

theorem readAccountIndex_steadyFree : Performs SteadyFree lib.readAccountIndex :=
  readAccountIndex_performs fun _ hindex hop => steadyFree_ofIndex hindex hop

theorem storeScopedCredentials_writing (credentials : CodexCredentials) :
    Performs Writing (lib.storeScopedCredentials accountId credentials) :=
  storeScopedCredentials_performs credentials fun _ _ => ⟨trivial, .inr (.inl ⟨_, _, _, rfl⟩)⟩

theorem upsertAccountRecord_writing (record : CodexAccountRecord) : Performs Writing (lib.upsertAccountRecord record) :=
  upsertAccountRecord_performs record fun _ hindex hop => writing_ofIndex hindex hop

theorem refreshedFor_steadyFree (current : CodexCredentials) :
    Performs SteadyFree (lib.refreshedFor accountId current) := by
  have hpost : Performs SteadyFree (lib.refreshTokens current) :=
    .bind (.perform ⟨trivial, trivial⟩) fun _ => .bind (.perform ⟨trivial, trivial⟩) fun _ => .result _
  refine .bind hpost fun refreshed => ?_
  split
  · exact .throw _
  · exact .pure _

/-! ### The migration -/

/-- A legacy entry that is found is remembered. -/
theorem getLegacy_guarded (kind : CredentialKind) (hfound : HasFound kinds h) :
    Meets (fun _ _ => True) lib.Guarded (fun h' text => lib.refreshing h' = lib.refreshing h ∧ HasFound kinds h' ∧
      (text.isSome = true → HasFound (kind :: kinds) h')) (getText (.legacy kind)) h := by
  refine meets_getText trivial fun value _ => ?_
  obtain ⟨found, hmigrating, hall⟩ := hfound
  have hrefreshing : lib.refreshing (h ++ [⟨.get (.legacy kind), .ok value⟩]) = lib.refreshing h := by
    rw [refreshing_snoc]
    cases lib.refreshing h <;> rfl
  refine ⟨hrefreshing, ?_⟩
  cases value with
  | none =>
    have hsame : migrating (h ++ [⟨.get (.legacy kind), .ok none⟩]) = some found := by
      rw [migrating_snoc, hmigrating]
      rfl
    exact ⟨⟨found, hsame, hall⟩, nofun⟩
  | some text =>
    have hafter : migrating (h ++ [⟨.get (.legacy kind), .ok (some text)⟩]) =
        some (if trim text = "" then found else kind :: found) := by
      rw [migrating_snoc, hmigrating]
      rfl
    by_cases hblank : trim text = ""
    · rw [if_pos hblank] at hafter
      refine ⟨⟨found, hafter, hall⟩, fun hsome => ?_⟩
      simp [notBlank, Option.filter_some, hblank] at hsome
    · rw [if_neg hblank] at hafter
      refine ⟨⟨_, hafter, fun k hk => List.mem_cons_of_mem _ (hall k hk)⟩, fun _ => ⟨_, hafter, fun k hk => ?_⟩⟩
      rcases List.mem_cons.1 hk with rfl | hk
      · exact List.mem_cons_self ..
      · exact List.mem_cons_of_mem _ (hall k hk)

/-- A migration stores what it has found. -/
theorem migrateLegacyCredentials_guarded (hmigrating : migrating h = some []) :
    Meets (fun _ _ => True) lib.Guarded (fun h' _ => lib.refreshing h' = lib.refreshing h)
      lib.migrateLegacyCredentials h := by
  have hnone : HasFound [] h := ⟨[], hmigrating, nofun⟩
  refine (getLegacy_guarded .idToken hnone).bind fun h₁ idToken ⟨hr₁, _, hfound₁⟩ => ?_
  cases idToken with
  | none => exact meets_pure hr₁
  | some idToken =>
    refine (getLegacy_guarded .accessToken (hfound₁ rfl)).bind fun h₂ accessToken ⟨hr₂, _, hfound₂⟩ => ?_
    cases accessToken with
    | none => exact meets_pure (hr₂.trans hr₁)
    | some accessToken =>
      refine (getLegacy_guarded .refreshToken (hfound₂ rfl)).bind fun h₃ refreshToken ⟨hr₃, _, hfound₃⟩ => ?_
      cases refreshToken with
      | none => exact meets_pure (hr₃.trans (hr₂.trans hr₁))
      | some refreshToken =>
        refine Meets.bind (Q := fun h' _ => h' = h₃) (meets_okOr fun _ _ => rfl) fun h' accountId hh' => ?_
        subst hh'
        refine (getLegacy_guarded .metadata (hfound₃ rfl)).bind fun h₄ metadata ⟨hr₄, hfound₄, _⟩ => ?_
        -- all three tokens have been found
        have hmay : lib.MayStore h₄ := .inr hfound₄
        have hdelete (kind : CredentialKind) : Performs Writing (deleteSecret (.legacy kind)) :=
          .deleteSecret ⟨trivial, .inl trivial⟩
        refine Meets.mono (Q := fun h' _ => SameUnderWay lib h₄ h') (writing_guarded ?_ hmay) (fun _ _ hop => hop)
          fun _ _ hsame => hsame.1.trans (hr₄.trans (hr₃.trans (hr₂.trans hr₁)))
        exact .bind (storeScopedCredentials_writing _) fun _ => .bind (upsertAccountRecord_writing _) fun _ =>
          .bind (hdelete _) fun _ => .bind (hdelete _) fun _ => .bind (hdelete _) fun _ => hdelete _

/-- A call has nothing to migrate afterwards. -/
theorem ensureLegacyCredentialsMigrated_guarded :
    Meets (fun _ _ => True) lib.Guarded (fun h' _ => lib.refreshing h' = lib.refreshing h ∧ migrating h' = none)
      lib.ensureLegacyCredentialsMigrated h := by
  have hstep {h' : AuthHistory} {op : AuthOp} (r : op.Answer) (hop : op = .setMigrated ∨ op = .unlockMigrated)
      (hsame : lib.refreshing h' = lib.refreshing h) : lib.refreshing (h' ++ [⟨op, r⟩]) = lib.refreshing h ∧
        migrating (h' ++ [⟨op, r⟩]) = none := by
    rw [refreshing_snoc, migrating_snoc, ← hsame]
    rcases hop with rfl | rfl
    · exact ⟨by cases lib.refreshing h' <;> rfl, rfl⟩
    · exact ⟨by cases lib.refreshing h' <;> rfl, rfl⟩
  refine Meets.bind (Q := fun h' migrated => lib.refreshing h' = lib.refreshing h ∧
    (migrated = false → migrating h' = some [])) (meets_perform .lockMigrated trivial fun migrated _ => ?_)
    fun h' migrated ⟨hsame, hbegun⟩ => ?_
  · rw [refreshing_snoc, migrating_snoc]
    refine ⟨by cases lib.refreshing h <;> rfl, fun hmigrated => ?_⟩
    rw [hmigrated]
    rfl
  · have hsection : Meets (fun _ _ => True) lib.Guarded (fun h'' _ => lib.refreshing h'' = lib.refreshing h)
        (if migrated then pure () else do
          lib.migrateLegacyCredentials
          perform .setMigrated) h' := by
      cases migrated with
      | true => exact meets_pure hsame
      | false =>
        refine (migrateLegacyCredentials_guarded (hbegun rfl)).bind fun h'' _ hsame' => ?_
        exact meets_perform .setMigrated trivial fun _ _ => (hstep _ (.inl rfl) (hsame'.trans hsame)).1
    refine ⟨hsection.sat.bind fun h'' result hresult => ⟨trivial, fun r _ a ha => ?_⟩⟩
    exact hstep r (.inr rfl) (hresult a ha)

theorem accountRecords_guarded : Meets (fun _ _ => True) lib.Guarded (fun _ _ => True) lib.accountRecords h :=
  ensureLegacyCredentialsMigrated_guarded.bind fun _ _ _ =>
    (steadyFree_guarded readAccountIndex_steadyFree).mono (fun _ _ hop => hop) fun _ _ _ => trivial

theorem resolveAccountId_guarded (requested : Option String) :
    Meets (fun _ _ => True) lib.Guarded (fun _ _ => True) (lib.resolveAccountId requested) h :=
  accountRecords_guarded.bind fun _ _ _ => meets_result fun _ _ => trivial

/-! ### A refresh -/

/-- A call that holds the lock of an account reads its credentials. -/
theorem readCredentials_guarded {read : Bool} (hlock : lib.refreshing h = some (accountId, read)) :
    Meets (fun _ _ => True) lib.Guarded (fun h' _ => lib.refreshing h' = some (accountId, true))
      (lib.readCredentials accountId) h := by
  refine ensureLegacyCredentialsMigrated_guarded.bind fun h₁ _ hmigrated => ?_
  have hsame₁ := hmigrated.1
  rw [hlock] at hsame₁
  refine Meets.bind (Q := fun h' cached => lib.refreshing h' = some (accountId, read || cached.isSome))
    (meets_perform (.cachedCredentials accountId) trivial fun cached _ => ?_) fun h₂ cached hsame₂ => ?_
  · rw [refreshing_snoc, hsame₁]
    cases cached <;> simp [refreshingAfter]
  cases cached with
  | some credentials =>
    rw [Option.isSome_some, Bool.or_true] at hsame₂
    exact meets_pure hsame₂
  | none =>
    rw [Option.isSome_none, Bool.or_false] at hsame₂
    have htoken : Meets (fun _ _ => True) lib.Guarded (fun h' _ => lib.refreshing h' = some (accountId, true))
        (lib.readToken accountId .accessToken) h₂ := by
      refine Meets.bind (Q := fun h' text => text.isSome = true → lib.refreshing h' = some (accountId, true))
        (meets_getText trivial fun value _ hsome => ?_) fun h' text htext => meets_okOr fun a ha => htext (by rw [ha]; rfl)
      cases value with
      | none => cases hsome
      | some text =>
        have htext : trim text ≠ "" := by
          intro hblank
          simp [notBlank, Option.filter_some, hblank] at hsome
        rw [refreshing_snoc, hsame₂]
        simp [refreshingAfter, accountSecret, htext]
    have hother (kind : CredentialKind) (hkind : kind ≠ .accessToken) :
        Performs SteadyFree (lib.readToken accountId kind) := by
      refine .bind (.getText ⟨?_, trivial⟩) fun _ => .okOr _ _
      cases kind <;> trivial
    have hmetadata : Performs SteadyFree (lib.readMetadata accountId) := by
      have hget : Performs SteadyFree (getText (lib.accountSecret accountId .metadata)) := .getText ⟨trivial, trivial⟩
      refine ⟨fun h => ⟨(hget.meets h).sat.bind fun h r _ => ?_⟩⟩
      split <;> exact fun _ _ => trivial
    refine Meets.bind (Q := fun h' _ => lib.refreshing h' = some (accountId, true)) ?_ fun h₃ credentials hread => ?_
    · refine htoken.bind fun h' _ hread => ?_
      refine (steadyFree_guarded (.bind (hother .refreshToken (by decide)) fun _ => .bind (hother .idToken (by decide)) fun _ =>
        .bind hmetadata fun _ => .pure _)).mono (fun _ _ hop => hop) fun _ _ hsame => hsame.1.trans hread
    · refine Meets.bind (Q := fun h' _ => lib.refreshing h' = some (accountId, true))
        (meets_perform (.cacheCredentials accountId credentials) hread fun r _ => ?_) fun _ _ hread => meets_pure hread
      have hsteady : (AuthOp.cacheCredentials accountId credentials).Steady := trivial
      rw [(hsteady.same r).1, hread]

/-- A call that has read the credentials of an account renews them. -/
theorem renew_guarded (current : CodexCredentials) (hread : lib.refreshing h = some (accountId, true)) :
    Meets (fun _ _ => True) lib.Guarded (fun _ _ => True) (lib.renew accountId current) h := by
  refine (steadyFree_guarded (refreshedFor_steadyFree current)).bind fun h' refreshed hsame => ?_
  have hread' : lib.refreshing h' = some (accountId, true) := by rw [hsame.1, hread]
  have hstore : Meets (fun _ _ => True) lib.Guarded (fun _ _ => True) (lib.storeCredentials accountId refreshed) h' := by
    refine Meets.bind (Q := fun h'' _ => h'' = h') (meets_okOr fun _ _ => rfl) fun h'' claim hh' => ?_
    subst hh'
    split
    · exact meets_throw
    · refine (writing_guarded (storeScopedCredentials_writing refreshed) (.inl ⟨_, hread'⟩)).bind fun h₁ _ hsame₁ => ?_
      have hread₁ : lib.refreshing h₁ = some (accountId, true) := by rw [hsame₁.1, hread']
      refine (writing_guarded (upsertAccountRecord_writing _) (.inl ⟨_, hread₁⟩)).bind fun h₂ _ hsame₂ => ?_
      exact meets_perform (.cacheCredentials accountId refreshed) (hsame₂.1.trans hread₁) fun _ _ => trivial
  exact hstore.bind fun _ _ _ => meets_pure trivial

theorem refreshCredentials_guarded (requested : Option String) (force : Bool) :
    Meets (fun _ _ => True) lib.Guarded (fun _ _ => True) (lib.refreshCredentials requested force) h := by
  refine Meets.bind (Q := fun _ _ => True) (resolveAccountId_guarded requested) fun h₁ accountId _ => ?_
  refine Meets.bind (Q := fun h' _ => lib.refreshing h' = some (accountId, false))
    (meets_perform (.lockAccount accountId) trivial fun r _ => by rw [refreshing_snoc]; rfl) fun h₂ _ hlock => ?_
  refine Meets.unlocking ?_ (fun _ => trivial) fun _ _ _ _ => trivial
  refine (readCredentials_guarded hlock).bind fun h₃ current hread => ?_
  cases force with
  | true => exact renew_guarded current hread
  | false =>
    refine Meets.bind (Q := fun h' _ => lib.refreshing h' = some (accountId, true))
      (meets_perform .unixNow trivial fun r _ => ?_) fun h₄ now hread' => ?_
    · have hsteady : AuthOp.unixNow.Steady := trivial
      rw [(hsteady.same r).1, hread]
    · show Meets _ _ _ (if lib.shouldRefresh current now then lib.renew accountId current else pure current) _
      split
      · exact renew_guarded current hread'
      · exact meets_pure trivial

/-! ### Every call -/

theorem statusFromStorage_free (record : CodexAccountRecord) : Performs AuthOp.Free (lib.statusFromStorage record) :=
  .bind (.getText trivial) fun _ => .bind (.getText trivial) fun _ => .bind (.getText trivial) fun _ =>
    .bind (.perform trivial) fun _ => .pure _

theorem status_guarded (accountId : String) :
    Meets (fun _ _ => True) lib.Guarded (fun _ _ => True) (lib.status accountId) h :=
  Meets.bind (Q := fun _ _ => True) accountRecords_guarded fun _ _ _ =>
    Meets.bind (Q := fun _ _ => True) (meets_okOr fun _ _ => trivial) fun _ _ _ => (statusFromStorage_free _).free

/-- **Every call but a login and a sign-out** stores only what it has read under a lock. -/
theorem procedure_guarded {call : AuthCall} (hcall : call.readsFirst = true) :
    Meets (fun _ _ => True) lib.Guarded (fun _ _ => True) (call.procedure lib) h := by
  cases call with
  | login redirectUri verifier => cases hcall
  | logout accountId => cases hcall
  | refresh requested force =>
    refine Meets.map (Q := fun _ _ => True) ?_ fun _ _ _ => trivial
    exact Meets.bind (Q := fun _ _ => True) (resolveAccountId_guarded requested) fun _ _ _ =>
      Meets.bind (Q := fun _ _ => True) (refreshCredentials_guarded _ force) fun _ _ _ => status_guarded _
  | bearer accountId | forceRefresh accountId =>
    exact Meets.map (Q := fun _ _ => True) (Meets.map (Q := fun _ _ => True) (refreshCredentials_guarded _ _)
      fun _ _ _ => trivial) fun _ _ _ => trivial
  | status accountId => exact Meets.map (Q := fun _ _ => True) (status_guarded accountId) fun _ _ _ => trivial
  | accounts =>
    refine Meets.map (Q := fun _ _ => True) ?_ fun _ _ _ => trivial
    exact Meets.bind (Q := fun _ _ => True) accountRecords_guarded fun _ records _ =>
      (Performs.mapM (fun record => .map (statusFromStorage_free record)) records).free

end AuthLibrary

end Aifluxon
