import Aifluxon.Auth.Migration

/-!
# Retries of the legacy migration

`ensureLegacyCredentialsMigrated` called again and again by one manager, with a secret store whose calls may fail.

* `migrationRetries` : the calls one after another;
* `StoredCredentials`, `Stranded` : the credentials have been stored; an entry that there was could not be deleted;
* `MigrationLeft` : what a call leaves, by the place where it ends; `ensureLegacyCredentialsMigrated_left`;
* `RetriesLaw` : what is true between the calls; `migration_leaves_no_legacy`;
* `migration_strands_legacy` : a delete that fails once leaves entries for good.
-/

namespace Aifluxon

open AuthM AuthLibrary

/-- The call of the manager `m`, again and again; its operations are observed. -/
def migrationRetries (lib : AuthLibrary) (m : Nat) : Machine AuthWorld Unit (Sigma AuthOp.Answer) where
  step w _ := some ((exec m lib.ensureLegacyCredentialsMigrated w).2,
    lib.ensureLegacyCredentialsMigrated.run.events (AuthWorld.handle m) w)

/-- The last write of `storeScopedCredentials`. -/
def lastWrite : Sigma AuthOp.Answer → Bool
  | ⟨.set (.account _ .metadata) _, .ok ()⟩ => true
  | _ => false

def failedDelete : Sigma AuthOp.Answer → Option CredentialKind
  | ⟨.delete (.legacy kind), .error _⟩ => some kind
  | _ => none

/-- The credentials of an account have been stored. -/
def StoredCredentials (h : AuthHistory) : Prop := ∃ e ∈ h, lastWrite e = true

/-- A legacy entry that there is in `w`, other than the access token, could not be deleted. -/
def Stranded (w : AuthWorld) (h : AuthHistory) : Prop :=
  ∃ e ∈ h, ∃ kind ∈ failedDelete e, kind ≠ .accessToken ∧ w.secrets (.legacy kind) ≠ none

instance (h : AuthHistory) : Decidable (StoredCredentials h) := inferInstanceAs (Decidable (∃ e ∈ h, _))

instance (w : AuthWorld) (h : AuthHistory) : Decidable (Stranded w h) := inferInstanceAs (Decidable (∃ e ∈ h, _))

/-- In the state `w` no delete of such an entry fails. -/
def Unstranded (lib : AuthLibrary) (m : Nat) (w : AuthWorld) (_ : Unit) : Prop :=
  ¬ Stranded w (lib.ensureLegacyCredentialsMigrated.run.events (AuthWorld.handle m) w)

instance (lib : AuthLibrary) (m : Nat) (w : AuthWorld) (a : Unit) : Decidable (Unstranded lib m w a) :=
  inferInstanceAs (Decidable (¬ _))

/-- No legacy entry is left. -/
def LegacyGone (w : AuthWorld) : Prop := ∀ kind, w.secrets (.legacy kind) = none

/-- The legacy entries and the mark of `m` are those of `w₀`. -/
structure Unmoved (m : Nat) (w₀ w : AuthWorld) : Prop where
  legacy : ∀ kind, w.secrets (.legacy kind) = w₀.secrets (.legacy kind)
  migrated : (w.managers m).migrated = (w₀.managers m).migrated

/-- The legacy entries of `w₀` were complete, and those of the `kinds` have been deleted. -/
structure DeletedOf (w₀ : AuthWorld) (kinds : List CredentialKind) (w : AuthWorld) : Prop where
  complete : LegacyComplete w₀
  legacy : ∀ kind, w.secrets (.legacy kind) = if kind ∈ kinds then none else w₀.secrets (.legacy kind)

/-- A call that began in `w₀` is left in `w`, after the operations `h`. -/
inductive MigrationLeft (m : Nat) (w₀ w : AuthWorld) (h : AuthHistory) : Prop where
  | unstored (unmoved : Unmoved m w₀ w) (unstored : ¬ StoredCredentials h)
  | nothing (legacy : ∀ kind, w.secrets (.legacy kind) = w₀.secrets (.legacy kind)) (unstored : ¬ StoredCredentials h)
    (incomplete : ¬ LegacyComplete w₀)
  | undeleted (unmoved : Unmoved m w₀ w) (complete : LegacyComplete w₀)
  | gone (gone : LegacyGone w)
  | stranded (stranded : Stranded w₀ h)

section MigrationRetries

variable {lib : AuthLibrary} {m : Nat} {w₀ w w' : AuthWorld} {h : AuthHistory}

theorem storedCredentials_append (h more : AuthHistory) :
    StoredCredentials (h ++ more) ↔ StoredCredentials h ∨ StoredCredentials more := by
  simp only [StoredCredentials, List.mem_append, or_and_right, exists_or]

theorem Stranded.append (hstranded : Stranded w₀ h) (more : AuthHistory) : Stranded w₀ (h ++ more) := by
  obtain ⟨e, hmem, hkind⟩ := hstranded
  exact ⟨e, List.mem_append_left _ hmem, hkind⟩

/-- An operation other than a write stores no credentials. -/
theorem not_storedCredentials_snoc {op : AuthOp} {answer : op.Answer} (hunstored : ¬ StoredCredentials h)
    (hop : ∀ key value, op ≠ .set key value) : ¬ StoredCredentials (h ++ [⟨op, answer⟩]) := by
  rw [storedCredentials_append]
  rintro (hstored | ⟨e, hmem, hwrite⟩)
  · exact hunstored hstored
  · rw [List.mem_singleton.1 hmem] at hwrite
    unfold lastWrite at hwrite
    split at hwrite
    · rename_i heq
      exact hop _ _ (congrArg Sigma.fst heq)
    · cases hwrite

theorem notBlank_ne_none {found : Option String} (hfound : notBlank found ≠ none) : found ≠ none := by
  rintro rfl
  exact hfound rfl

theorem Unmoved.refl (m : Nat) (w : AuthWorld) : Unmoved m w w := ⟨fun _ => rfl, rfl⟩

theorem Unmoved.of_calm {op : AuthOp} (hw : Unmoved m w₀ w) (hop : op.Calm) :
    Unmoved m w₀ (AuthWorld.handle m op w).2 := by
  obtain ⟨hsecrets, hmigrated⟩ := calm_frame (m := m) (w := w) hop
  exact ⟨fun kind => by rw [hsecrets _ (by simp), hw.legacy], by rw [hmigrated, hw.migrated]⟩

theorem Unmoved.of_touches {op : AuthOp} {accountId : String} (hw : Unmoved m w₀ w) (hop : op.Touches lib accountId) :
    Unmoved m w₀ (AuthWorld.handle m op w).2 := by
  obtain ⟨hlegacy, hmigrated⟩ := touches_legacy (m := m) (w := w) hop
  exact ⟨fun kind => by rw [hlegacy, hw.legacy], by rw [hmigrated, hw.migrated]⟩

/-! ## One call -/

/-- One delete: where it fails, an entry is left, or there was none. -/
theorem leads_deleteLegacy {kinds : List CredentialKind} (kind : CredentialKind) (hkind : kind ≠ .accessToken)
    (hrest : kind ≠ .metadata ∨ ∀ other, other ≠ .metadata → other ∈ kinds) :
    Leads m (fun w _ => DeletedOf w₀ kinds w) (deleteSecret (.legacy kind)) (fun _ w _ => DeletedOf w₀ (kind :: kinds) w)
      (MigrationLeft m w₀) := by
  refine leads_deleteSecret (fun w h _ hw => ⟨hw.complete, fun other => ?_⟩) fun w h error _ hw => ?_
  · rw [AuthWorld.secrets_tick, AuthWorld.secrets_write]
    by_cases hother : other = kind
    · simp [hother]
    · simp [hother, hw.legacy]
  · by_cases hentry : w₀.secrets (.legacy kind) = none
    · have hmetadata : kind = .metadata := by
        by_contra hne
        exact notBlank_ne_none (hw.complete kind hne) hentry
      subst hmetadata
      refine .gone fun other => ?_
      rw [AuthWorld.secrets_tick, hw.legacy]
      by_cases hother : other = .metadata
      · rw [hother, hentry, ite_self]
      · rw [if_pos (hrest.resolve_left (fun hne => hne rfl) other hother)]
    · exact .stranded ⟨⟨.delete (.legacy kind), .error error⟩, by simp, kind, rfl, hkind, hentry⟩

/-- The migration, up to the point where the manager is marked. -/
theorem migrateLegacyCredentials_left :
    Leads m (fun w h => Unmoved m w₀ w ∧ ¬ StoredCredentials h) lib.migrateLegacyCredentials
      (fun _ w h => (Unmoved m w₀ w ∧ ¬ StoredCredentials h ∧ ¬ LegacyComplete w₀) ∨ LegacyGone w)
      (MigrationLeft m w₀) := by
  have hget (kind : CredentialKind) (F : Prop) :
      Leads m (fun w h => (Unmoved m w₀ w ∧ ¬ StoredCredentials h) ∧ F) (getText (.legacy kind))
        (fun text w h => (Unmoved m w₀ w ∧ ¬ StoredCredentials h) ∧ F ∧ notBlank (w₀.secrets (.legacy kind)) = text)
        (MigrationLeft m w₀) :=
    leads_getText
      (fun w h _ hw => ⟨⟨⟨hw.1.1.legacy, hw.1.1.migrated⟩, not_storedCredentials_snoc hw.1.2 (by simp)⟩, hw.2,
        by rw [hw.1.1.legacy]⟩)
      fun w h error _ hw => .unstored ⟨hw.1.1.legacy, hw.1.1.migrated⟩ (not_storedCredentials_snoc hw.1.2 (by simp))
  have hnothing {kind : CredentialKind} (hkind : kind ≠ .metadata) (hnone : notBlank (w₀.secrets (.legacy kind)) = none) :
      ¬ LegacyComplete w₀ := fun hcomplete => hcomplete kind hkind hnone
  refine ((hget .idToken True).pre fun w h hw => ⟨hw, trivial⟩).bind fun idToken => ?_
  cases idToken with
  | none => exact leads_pure fun w h hw => .inl ⟨hw.1.1, hw.1.2, hnothing (by decide) hw.2.2⟩
  | some idToken =>
    refine (hget .accessToken _).bind fun accessToken => ?_
    cases accessToken with
    | none => exact leads_pure fun w h hw => .inl ⟨hw.1.1, hw.1.2, hnothing (by decide) hw.2.2⟩
    | some accessToken =>
      refine (hget .refreshToken _).bind fun refreshToken => ?_
      cases refreshToken with
      | none => exact leads_pure fun w h hw => .inl ⟨hw.1.1, hw.1.2, hnothing (by decide) hw.2.2⟩
      | some refreshToken =>
        have hclaim : Leads m (fun w h => (Unmoved m w₀ w ∧ ¬ StoredCredentials h) ∧
            ((True ∧ notBlank (w₀.secrets (.legacy .idToken)) = some idToken) ∧
              notBlank (w₀.secrets (.legacy .accessToken)) = some accessToken) ∧
              notBlank (w₀.secrets (.legacy .refreshToken)) = some refreshToken)
            (okOr (.new .credentialCorrupted "Legacy Codex credentials are missing a ChatGPT account id.")
              (lib.accountClaim idToken))
            (fun _ w h => (Unmoved m w₀ w ∧ ¬ StoredCredentials h) ∧ LegacyComplete w₀) (MigrationLeft m w₀) := by
          refine leads_okOr (fun accountId w h _ hw => ⟨hw.1, fun kind hkind => ?_⟩) fun w h hw => .unstored hw.1.1 hw.1.2
          obtain ⟨-, ⟨⟨-, hid⟩, haccess⟩, hrefresh⟩ := hw
          cases kind with
          | idToken => simp [hid]
          | accessToken => simp [haccess]
          | refreshToken => simp [hrefresh]
          | metadata => exact absurd rfl hkind
        refine hclaim.bind fun accountId => (hget .metadata _).bind fun metadata => ?_
        -- the copy touches no legacy entry
        have hcopy {α : Type} {x : AuthM α} (hx : Performs (AuthOp.Touches lib accountId) x) :
            Leads m (fun w _ => Unmoved m w₀ w ∧ LegacyComplete w₀) x (fun _ w _ => Unmoved m w₀ w ∧ LegacyComplete w₀)
              (MigrationLeft m w₀) :=
          (hx.leads fun op w hop (hw : Unmoved m w₀ w ∧ LegacyComplete w₀) => ⟨hw.1.of_touches hop, hw.2⟩).mono
            (fun _ _ hw => hw) (fun _ _ _ hw => hw) fun w h hw => .undeleted hw.1 hw.2
        refine ((hcopy (storeScopedCredentials_touches _)).pre fun w h hw => ⟨hw.1.1, hw.2.1⟩).bind fun _ => ?_
        refine (hcopy (upsertAccountRecord_performs _ fun _ hop _ => .inl hop.calm)).bind fun _ => ?_
        have haccess : Leads m (fun w _ => Unmoved m w₀ w ∧ LegacyComplete w₀) (deleteSecret (.legacy .accessToken))
            (fun _ w _ => DeletedOf w₀ [.accessToken] w) (MigrationLeft m w₀) := by
          refine leads_deleteSecret (fun w h _ hw => ⟨hw.2, fun kind => ?_⟩) fun w h error _ hw =>
            .undeleted ⟨hw.1.legacy, hw.1.migrated⟩ hw.2
          rw [AuthWorld.secrets_tick, AuthWorld.secrets_write]
          by_cases hkind : kind = .accessToken
          · simp [hkind]
          · simp [hkind, hw.1.legacy]
        refine haccess.bind fun _ => (leads_deleteLegacy .refreshToken (by decide) (.inl (by decide))).bind fun _ =>
          (leads_deleteLegacy .idToken (by decide) (.inl (by decide))).bind fun _ => ?_
        refine (leads_deleteLegacy .metadata (by decide) (.inr fun kind hkind => ?_)).mono (fun _ _ hw => hw)
          (fun _ w h hw => .inr fun kind => ?_) fun _ _ hw => hw
        · cases kind with
          | metadata => exact absurd rfl hkind
          | accessToken | refreshToken | idToken => decide
        · rw [hw.legacy, if_pos]
          cases kind <;> decide

/-- An operation that touches neither entries nor the mark leaves what is left. -/
theorem MigrationLeft.unlock (hleft : MigrationLeft m w₀ w h) :
    MigrationLeft m w₀ (AuthWorld.handle m .unlockMigrated w).2
      (h ++ [⟨.unlockMigrated, (AuthWorld.handle m .unlockMigrated w).1⟩]) := by
  have hop : AuthOp.unlockMigrated.Calm := trivial
  have hlegacy (kind : CredentialKind) : (AuthWorld.handle m .unlockMigrated w).2.secrets (.legacy kind) =
      w.secrets (.legacy kind) := rfl
  cases hleft with
  | unstored hw hunstored => exact .unstored (hw.of_calm hop) (not_storedCredentials_snoc hunstored (by simp))
  | nothing hw hunstored hincomplete =>
    exact .nothing (fun kind => by rw [hlegacy, hw]) (not_storedCredentials_snoc hunstored (by simp)) hincomplete
  | undeleted hw hcomplete => exact .undeleted (hw.of_calm hop) hcomplete
  | gone hgone => exact .gone fun kind => by rw [hlegacy, hgone]
  | stranded hstranded => exact .stranded (hstranded.append _)

variable (lib) in
/-- Where a call of the manager `m` may be left, and with which mark. -/
theorem ensureLegacyCredentialsMigrated_left (hmark : (w₀.managers m).migrated = false) :
    Leads m (fun w h => w = w₀ ∧ h = []) lib.ensureLegacyCredentialsMigrated (fun _ => MigrationLeft m w₀)
      (MigrationLeft m w₀) := by
  have hlock : Leads m (fun w h => w = w₀ ∧ h = []) (perform .lockMigrated)
      (fun (migrated : Bool) w h => (Unmoved m w₀ w ∧ ¬ StoredCredentials h) ∧ migrated = false)
      (MigrationLeft m w₀) := by
    refine leads_perform fun w h hw => ?_
    obtain ⟨rfl, rfl⟩ := hw
    have hop : AuthOp.lockMigrated.Calm := trivial
    refine ⟨⟨(Unmoved.refl m w).of_calm hop, not_storedCredentials_snoc ?_ (by simp)⟩, hmark⟩
    simp [StoredCredentials]
  refine hlock.bind fun migrated => Leads.unlocking ?_ (fun _ _ _ hw => hw.unlock) fun _ _ hw => hw.unlock
  cases migrated with
  | true => exact leads_pure fun w h hw => absurd hw.2 (by simp)
  | false =>
    refine (migrateLegacyCredentials_left.pre fun w h hw => hw.1).bind fun _ => leads_perform fun w h hw => ?_
    rcases hw with ⟨hw, hunstored, hincomplete⟩ | hgone
    · exact .nothing hw.legacy (not_storedCredentials_snoc hunstored (by simp)) hincomplete
    · exact .gone hgone

/-! ## Any number of calls -/

/-- What is true between the calls, once the credentials have been stored: either nothing is left, or everything is and
the manager will find it. -/
structure RetriesLaw (m : Nat) (tr : AuthHistory) (w : AuthWorld) : Prop where
  found : StoredCredentials tr → LegacyComplete w ∨ LegacyGone w
  marked : StoredCredentials tr → (w.managers m).migrated = true → LegacyGone w

/-- A manager that is marked does nothing. -/
theorem ensureLegacyCredentialsMigrated_marked (hmark : (w.managers m).migrated = true) :
    Unmoved m w (exec m lib.ensureLegacyCredentialsMigrated w).2 ∧
      ¬ StoredCredentials (lib.ensureLegacyCredentialsMigrated.run.events (AuthWorld.handle m) w) := by
  have hcall : Leads m (fun w' h => Unmoved m w w' ∧ ¬ StoredCredentials h) lib.ensureLegacyCredentialsMigrated
      (fun _ w' h => Unmoved m w w' ∧ ¬ StoredCredentials h) fun w' h => Unmoved m w w' ∧ ¬ StoredCredentials h := by
    have hcalm {op : AuthOp} {w' : AuthWorld} {h : AuthHistory} {answer : op.Answer} (hop : op.Calm)
        (hset : ∀ key value, op ≠ .set key value) (hw : Unmoved m w w' ∧ ¬ StoredCredentials h) :
        Unmoved m w (AuthWorld.handle m op w').2 ∧ ¬ StoredCredentials (h ++ [⟨op, answer⟩]) :=
      ⟨hw.1.of_calm hop, not_storedCredentials_snoc hw.2 hset⟩
    have hlock : Leads m (fun w' h => Unmoved m w w' ∧ ¬ StoredCredentials h) (perform .lockMigrated)
        (fun (migrated : Bool) w' h => (Unmoved m w w' ∧ ¬ StoredCredentials h) ∧ migrated = true)
        fun w' h => Unmoved m w w' ∧ ¬ StoredCredentials h :=
      leads_perform fun w' h hw => ⟨hcalm trivial (by simp) hw, hw.1.migrated.trans hmark⟩
    refine hlock.bind fun migrated => Leads.unlocking ?_ (fun _ _ _ hw => hcalm trivial (by simp) hw)
      fun _ _ hw => hcalm trivial (by simp) hw
    cases migrated with
    | true => exact leads_pure fun w' h hw => hw.1
    | false => exact leads_knowing (C := False) (fun w' h hw => absurd hw.2 (by simp)) False.elim
  have hend := hcall.triple w [] ⟨Unmoved.refl m w, by simp [StoredCredentials]⟩
  rw [List.nil_append] at hend
  unfold exec
  revert hend
  cases (lib.ensureLegacyCredentialsMigrated.run.run (AuthWorld.handle m) w).1 with
  | ok => exact id
  | error error => exact id

/-- What a call of a manager that is not marked leaves. -/
theorem ensureLegacyCredentialsMigrated_unmarked (hmark : (w.managers m).migrated = false) :
    MigrationLeft m w (exec m lib.ensureLegacyCredentialsMigrated w).2
      (lib.ensureLegacyCredentialsMigrated.run.events (AuthWorld.handle m) w) := by
  have hend := (ensureLegacyCredentialsMigrated_left lib hmark).triple w [] ⟨rfl, rfl⟩
  rw [List.nil_append] at hend
  unfold exec
  revert hend
  cases (lib.ensureLegacyCredentialsMigrated.run.run (AuthWorld.handle m) w).1 with
  | ok => exact id
  | error error => exact id

theorem legacyComplete_congr (hlegacy : ∀ kind, w'.secrets (.legacy kind) = w.secrets (.legacy kind)) :
    LegacyComplete w' ↔ LegacyComplete w := by
  simp only [LegacyComplete, hlegacy]

theorem legacyGone_congr (hlegacy : ∀ kind, w'.secrets (.legacy kind) = w.secrets (.legacy kind)) :
    LegacyGone w' ↔ LegacyGone w := by
  simp only [LegacyGone, hlegacy]

/-- Nothing has been stored since, and the entries are the same. -/
theorem RetriesLaw.unstored {tr o : AuthHistory} (hw : RetriesLaw m tr w)
    (hlegacy : ∀ kind, w'.secrets (.legacy kind) = w.secrets (.legacy kind)) (hunstored : ¬ StoredCredentials o)
    (hmark : (w'.managers m).migrated = true → (w.managers m).migrated = true ∨ ¬ LegacyComplete w) :
    RetriesLaw m (tr ++ o) w' := by
  have hbefore (hstored : StoredCredentials (tr ++ o)) : StoredCredentials tr :=
    ((storedCredentials_append tr o).1 hstored).resolve_right hunstored
  refine ⟨fun hstored => ?_, fun hstored hmarked => ?_⟩
  · rw [legacyComplete_congr hlegacy, legacyGone_congr hlegacy]
    exact hw.found (hbefore hstored)
  · rw [legacyGone_congr hlegacy]
    rcases hmark hmarked with hmarked | hincomplete
    · exact hw.marked (hbefore hstored) hmarked
    · exact (hw.found (hbefore hstored)).resolve_left hincomplete

theorem RetriesLaw.step {tr o : AuthHistory} (hw : RetriesLaw m tr w) (hguard : Unstranded lib m w ())
    (hstep : (migrationRetries lib m).step w () = some (w', o)) : RetriesLaw m (tr ++ o) w' := by
  obtain ⟨rfl, rfl⟩ := Prod.mk.inj (Option.some.inj hstep)
  cases hmark : (w.managers m).migrated with
  | true =>
    obtain ⟨hunmoved, hunstored⟩ := ensureLegacyCredentialsMigrated_marked hmark
    exact hw.unstored hunmoved.legacy hunstored fun _ => .inl hmark
  | false =>
    cases ensureLegacyCredentialsMigrated_unmarked hmark with
    | unstored hunmoved hunstored =>
      exact hw.unstored hunmoved.legacy hunstored fun hmarked => .inl (hunmoved.migrated ▸ hmarked)
    | nothing hlegacy hunstored hincomplete => exact hw.unstored hlegacy hunstored fun _ => .inr hincomplete
    | undeleted hunmoved hcomplete =>
      refine ⟨fun _ => .inl ((legacyComplete_congr hunmoved.legacy).2 hcomplete), fun _ hmarked => ?_⟩
      rw [hunmoved.migrated, hmark] at hmarked
      exact absurd hmarked (by simp)
    | gone hgone => exact ⟨fun _ => .inr hgone, fun _ _ => hgone⟩
    | stranded hstranded => exact absurd hstranded hguard

theorem retriesLaw_of_run {as : List Unit} {tr : AuthHistory}
    (hrun : (migrationRetries lib m).Run (Unstranded lib m) w as tr w') : RetriesLaw m tr w' := by
  refine hrun.induction (P := RetriesLaw m) ⟨?_, ?_⟩ fun _ hlaw hguard hstep => hlaw.step hguard hstep
  · simp [StoredCredentials]
  · simp [StoredCredentials]

/-- **Nothing stays behind.** In retries in which no delete of an entry that there is fails, the access token's apart,
a manager that is marked and has stored the credentials leaves no legacy entry. -/
theorem migration_leaves_no_legacy {as : List Unit} {tr : AuthHistory}
    (hrun : (migrationRetries lib m).Run (Unstranded lib m) w as tr w') (hmarked : (w'.managers m).migrated = true)
    (hstored : StoredCredentials tr) (kind : CredentialKind) : w'.secrets (.legacy kind) = none :=
  (retriesLaw_of_run hrun).marked hstored hmarked kind

end MigrationRetries

/-- Complete legacy entries for the account `a`, and the operation `failing` fails. -/
def legacyOfA (failing : Nat) : AuthWorld :=
  .holding [(.legacy .accessToken, "A"), (.legacy .refreshToken, "R"), (.legacy .idToken, idTokenA),
    (.legacy .metadata, metadataText "1000")] (failingInput failing)

/-- The delete of the access token fails, and is made good by the next call. -/
theorem migration_leaves_no_legacy_retried : ∃ (lib : AuthLibrary) (w : AuthWorld) (tr : AuthHistory),
    (migrationRetries lib 0).Run (Unstranded lib 0) (legacyOfA 14) [(), ()] tr w ∧ (w.managers 0).migrated = true ∧
      StoredCredentials tr ∧ w.secrets (.legacy .refreshToken) = none := by
  have hrun := Machine.exec_run (M := migrationRetries (.ofTable renewalTexts) 0) (s := legacyOfA 14) (l := [(), ()])
    (g := fun w a => decide (Unstranded (.ofTable renewalTexts) 0 w a)) (fun _ _ hg => of_decide_eq_true hg)
    (by decide +kernel)
  exact ⟨_, _, _, hrun, by decide +kernel, by decide +kernel,
    migration_leaves_no_legacy hrun (by decide +kernel) (by decide +kernel) .refreshToken⟩

/-- The delete of the refresh token fails once. The next call finds no access token, and marks the manager. -/
theorem migration_strands_legacy : ∃ (lib : AuthLibrary) (w : AuthWorld) (tr : AuthHistory),
    (migrationRetries lib 0).Run Machine.Free (legacyOfA 15) [(), ()] tr w ∧ (w.managers 0).migrated = true ∧
      StoredCredentials tr ∧ w.secrets (.legacy .refreshToken) = some "R" ∧
      w.secrets (.legacy .idToken) = some idTokenA ∧ w.secrets (.legacy .metadata) = some (metadataText "1000") :=
  ⟨.ofTable renewalTexts, _, _, Machine.exec_free (M := migrationRetries (.ofTable renewalTexts) 0) (s := legacyOfA 15)
    (l := [(), ()]) (by decide +kernel), by decide +kernel⟩

end Aifluxon
