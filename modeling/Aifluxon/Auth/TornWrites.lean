import Aifluxon.Auth.Sessions

/-!
# Torn credential sets

`store_credentials` writes the entries of an account one after another, and stops at the first that fails.

* `AuthLibrary.newEntries` : the entries that credentials are stored in; `Whole` : the old set, or all of the new one;
* `AuthLibrary.firstFailure` : the first of the four writes that fails; `storeScopedCredentials_exec` : what is left;
* `storeCredentials_whole_iff` : when a store that fails leaves a whole set;
* `AuthLibrary.renewal`, `refreshCredentials_exec` : a refresh up to the store, and behind it.
-/

namespace Aifluxon

open AuthM

/-! ## One store -/

/-- The place of an entry in the order of the writes. -/
def CredentialKind.place : CredentialKind → Nat
  | accessToken => 0
  | refreshToken => 1
  | idToken => 2
  | metadata => 3

namespace AuthLibrary
variable (lib : AuthLibrary)

/-- The stored entries of an account. -/
def entries (accountId : String) (w : AuthWorld) (kind : CredentialKind) : Option String :=
  w.secrets (lib.accountSecret accountId kind)

/-- The entries that hold credentials; metadata that cannot be printed has none. -/
def newEntries (credentials : CodexCredentials) : CredentialKind → Option String
  | .accessToken => some credentials.accessToken
  | .refreshToken => some credentials.refreshToken
  | .idToken => some credentials.idToken
  | .metadata => (lib.serde.toString (metadataJson credentials.lastRefreshAt)).toOption

/-- The first of the four writes that fails, when they begin now. -/
def firstFailure (credentials : CodexCredentials) (w : AuthWorld) : Option Nat :=
  (List.range 4).find? fun i => (w.inputs (w.clock + i)).fault.isSome ∨
    i = 3 ∧ (lib.newEntries credentials .metadata).isNone

end AuthLibrary

/-- What is stored now is the old set, or all of the new one. -/
def Whole (old new now : CredentialKind → Option String) : Prop :=
  now = old ∨ now = new ∧ ∀ kind, new kind ≠ none

/-- The writes before `failure` and the entries that were there make a whole set. -/
def Untorn (old new before : CredentialKind → Option String) (failure : Option Nat) : Prop :=
  ∀ i, failure = some i →
    (∀ kind, (kind.place < i → new kind = old kind) ∧ (i ≤ kind.place → before kind = old kind)) ∨
      ∀ kind, new kind ≠ none ∧ (i ≤ kind.place → before kind = new kind)

section Store
variable {lib : AuthLibrary} {m : Nat} {accountId : String} {credentials : CodexCredentials}

variable (lib) in
theorem storeScopedCredentials_exec (m : Nat) (accountId : String) (credentials : CodexCredentials) (w : AuthWorld) :
    ((exec m (lib.storeScopedCredentials accountId credentials) w).1.isOk = (lib.firstFailure credentials w).isNone) ∧
      ∀ kind, lib.entries accountId (exec m (lib.storeScopedCredentials accountId credentials) w).2 kind =
        if kind.place < (lib.firstFailure credentials w).getD 4 then lib.newEntries credentials kind
        else lib.entries accountId w kind := by
  have hrange : List.range 4 = [0, 1, 2, 3] := rfl
  have hkey (kind kind' : CredentialKind) :
      lib.accountSecret accountId kind = lib.accountSecret accountId kind' ↔ kind = kind' := by
    simp [AuthLibrary.accountSecret]
  unfold AuthLibrary.storeScopedCredentials AuthLibrary.firstFailure
  simp only [hrange, List.find?_cons, exec_bind, exec_setText, AuthWorld.attempt, AuthWorld.input]
  -- one case for each write that may be the first to fail
  cases h0 : (w.inputs w.clock).fault with
  | some => exact ⟨by simp [Except.isOk, Except.toBool], fun kind => by simp [AuthLibrary.entries]⟩
  | none => cases h1 : (w.inputs (w.clock + 1)).fault with
    | some =>
      refine ⟨by simp [Except.isOk, Except.toBool, h1], fun kind => ?_⟩
      cases kind <;> simp [AuthLibrary.entries, AuthLibrary.newEntries, h1, hkey, CredentialKind.place]
    | none => cases h2 : (w.inputs (w.clock + 2)).fault with
      | some =>
        refine ⟨by simp [Except.isOk, Except.toBool, h1, h2], fun kind => ?_⟩
        cases kind <;>
          simp [AuthLibrary.entries, AuthLibrary.newEntries, h1, h2, hkey, CredentialKind.place]
      | none => cases hmetadata : lib.serde.toString (metadataJson credentials.lastRefreshAt) with
        | error =>
          refine ⟨by simp [AuthLibrary.newEntries, Except.isOk, Except.toBool, Except.toOption, h1, h2,
            hmetadata], fun kind => ?_⟩
          cases kind <;> simp [AuthLibrary.entries, AuthLibrary.newEntries, Except.toOption, h1, h2,
            hmetadata, hkey, CredentialKind.place]
        | ok text => cases h3 : (w.inputs (w.clock + 3)).fault with
          | some | none =>
            refine ⟨by simp [exec_setText, AuthWorld.attempt, AuthWorld.input, AuthLibrary.newEntries, Except.isOk,
              Except.toBool, Except.toOption, h1, h2, h3, hmetadata], fun kind => ?_⟩
            cases kind <;> simp [exec_setText, AuthWorld.attempt, AuthWorld.input, AuthLibrary.entries,
              AuthLibrary.newEntries, Except.toOption, h1, h2, h3, hmetadata, hkey, CredentialKind.place]

/-- An operation that writes no entry of an account. -/
def AuthOp.SparesEntries : AuthOp → Prop
  | .set (.account _ _) _ | .delete (.account _ _) => False
  | _ => True

theorem handle_entries (op : AuthOp) (hop : op.SparesEntries) (w : AuthWorld) :
    lib.entries accountId (AuthWorld.handle m op w).2 = lib.entries accountId w := by
  funext kind
  cases op with
  | get =>
    simp only [AuthWorld.handle, AuthWorld.attempt, AuthLibrary.entries]
    split <;> rfl
  | set key value | delete key => cases key with
    | account => exact hop.elim
    | accountIndex | legacy =>
      simp only [AuthWorld.handle, AuthWorld.attempt, AuthLibrary.entries, AuthLibrary.accountSecret]
      split
      · rfl
      · simp
  | _ => rfl

variable (lib) in
theorem upsertAccountRecord_entries (m : Nat) (accountId : String) (record : CodexAccountRecord) (w : AuthWorld) :
    lib.entries accountId (exec m (lib.upsertAccountRecord record) w).2 = lib.entries accountId w := by
  have hwithin : Within (fun _ _ => True) lib (fun _ => False) (fun _ => False) (lib.upsertAccountRecord record) :=
    AuthLibrary.upsertAccountRecord_within record
  refine (Procedure.Sat.run (AuthWorld.handle m) (I := fun w' => lib.entries accountId w' = lib.entries accountId w)
    (hwithin.meets []).sat rfl fun _ op w' hw hop => ⟨trivial, (handle_entries op ?_ w').trans hw⟩).2.1
  cases op with
  | set key | delete key => cases key with
    | account =>
      obtain ⟨_, hnobody, -⟩ := hop
      exact hnobody
    | accountIndex | legacy => trivial
  | _ => trivial

/-- Credentials of another account are refused, and those of the account are written up to the first failure. -/
theorem storeCredentials_exec (w : AuthWorld) :
    (lib.accountClaim credentials.idToken ≠ some accountId →
      lib.entries accountId (exec m (lib.storeCredentials accountId credentials) w).2 = lib.entries accountId w) ∧
    (lib.accountClaim credentials.idToken = some accountId →
      (lib.firstFailure credentials w ≠ none →
        ∃ error, (exec m (lib.storeCredentials accountId credentials) w).1 = .error error) ∧
      ∀ kind, lib.entries accountId (exec m (lib.storeCredentials accountId credentials) w).2 kind =
        if kind.place < (lib.firstFailure credentials w).getD 4 then lib.newEntries credentials kind
        else lib.entries accountId w kind) := by
  unfold AuthLibrary.storeCredentials
  simp only [exec_bind, exec_okOr]
  cases hclaim : lib.accountClaim credentials.idToken with
  | none => exact ⟨fun _ => rfl, nofun⟩
  | some claim =>
    refine ⟨fun hne => ?_, fun heq => ?_⟩
    · have hne : claim ≠ accountId := fun h => hne (congrArg some h)
      simp [hne]
    · obtain rfl := Option.some.inj heq
      obtain ⟨hok, hentries⟩ := storeScopedCredentials_exec lib m claim credentials w
      simp only [Option.elim_some, ne_eq, not_true_eq_false, if_false, exec_bind]
      rcases hstored : exec m (lib.storeScopedCredentials claim credentials) w with ⟨result, w'⟩
      rw [hstored] at hok hentries
      cases result with
      | error error => exact ⟨fun _ => ⟨error, rfl⟩, hentries⟩
      | ok =>
        have hnone : lib.firstFailure credentials w = none := by simpa [Except.isOk, Except.toBool] using hok.symm
        refine ⟨fun hsome => absurd hnone hsome, fun kind => ?_⟩
        rw [← hentries kind]
        have hindex := upsertAccountRecord_entries lib m claim ⟨claim, lib.idTokenEmail credentials.idToken⟩ w'
        rcases hupsert : exec m (lib.upsertAccountRecord ⟨claim, lib.idTokenEmail credentials.idToken⟩) w'
          with ⟨result, w''⟩
        rw [hupsert] at hindex
        dsimp only
        rw [hupsert]
        cases result <;> exact congrFun hindex kind

end Store

/-! ## Whole sets -/

theorem whole_iff {old new before now : CredentialKind → Option String} {i : Nat}
    (hnow : ∀ kind, now kind = if kind.place < i then new kind else before kind) :
    Whole old new now ↔ Untorn old new before (some i) := by
  have hcase (kind : CredentialKind) (value : CredentialKind → Option String) :
      now kind = value kind ↔ (kind.place < i → new kind = value kind) ∧ (i ≤ kind.place → before kind = value kind) := by
    rw [hnow kind]
    split
    · rename_i hlt
      exact ⟨fun h => ⟨fun _ => h, fun hle => absurd hlt (by omega)⟩, fun h => h.1 hlt⟩
    · rename_i hge
      exact ⟨fun h => ⟨fun hlt => absurd hlt hge, fun _ => h⟩, fun h => h.2 (by omega)⟩
  unfold Whole Untorn
  simp only [funext_iff, hcase, Option.some.injEq, forall_eq']
  refine or_congr Iff.rfl ⟨fun h kind => ⟨h.2 kind, (h.1 kind).2⟩, fun h => ⟨fun kind => ⟨fun _ => trivial, (h kind).2⟩,
    fun kind => (h kind).1⟩⟩

theorem newEntries_ne_none {lib : AuthLibrary} {credentials : CodexCredentials} {w : AuthWorld}
    (hnone : lib.firstFailure credentials w = none) (kind : CredentialKind) : lib.newEntries credentials kind ≠ none := by
  cases kind with
  | metadata =>
    have hlast := List.find?_eq_none.1 hnone 3 (by decide)
    intro hmissing
    simp [hmissing] at hlast
  | accessToken | refreshToken | idToken => exact Option.some_ne_none _

section Whole
variable {lib : AuthLibrary} {m : Nat} {accountId : String} {credentials : CodexCredentials}

/-- A store that fails leaves a whole set, with respect to `old`, when the writes before the first failure and
the entries that were there make one. -/
theorem storeCredentials_whole_iff {old : CredentialKind → Option String} {w : AuthWorld}
    (hclaim : lib.accountClaim credentials.idToken = some accountId) :
    (∀ error, (exec m (lib.storeCredentials accountId credentials) w).1 = .error error →
      Whole old (lib.newEntries credentials)
        (lib.entries accountId (exec m (lib.storeCredentials accountId credentials) w).2)) ↔
      Untorn old (lib.newEntries credentials) (lib.entries accountId w) (lib.firstFailure credentials w) := by
  obtain ⟨herror, hentries⟩ := (storeCredentials_exec (m := m) w).2 hclaim
  cases hfailure : lib.firstFailure credentials w with
  | none =>
    rw [hfailure] at hentries
    refine ⟨fun _ => nofun, fun _ error _ => .inr ⟨funext fun kind => ?_, newEntries_ne_none hfailure⟩⟩
    rw [hentries kind]
    exact if_pos (by cases kind <;> decide)
  | some i =>
    rw [hfailure] at hentries herror
    obtain ⟨error, herror⟩ := herror (Option.some_ne_none i)
    rw [← whole_iff (i := i) hentries]
    exact ⟨fun h => h error herror, fun h _ _ => h⟩

end Whole

/-! ## Refreshes -/

namespace AuthLibrary
variable (lib : AuthLibrary)

/-- What a refresh has at hand when it comes to the store, and whether it is new. -/
def renewal (accountId : String) (force : Bool) : AuthM (CodexCredentials × Bool) := do
  let current ← lib.readCredentials accountId
  if force then (·, true) <$> lib.refreshedFor accountId current
  else
    let now ← perform .unixNow
    if lib.shouldRefresh current now then (·, true) <$> lib.refreshedFor accountId current
    else return (current, false)

/-- A refresh up to the store. -/
def upToStore (requested : Option String) (force : Bool) : AuthM (String × CodexCredentials × Bool) := do
  let accountId ← lib.resolveAccountId requested
  perform (.lockAccount accountId)
  let renewed ← lib.renewal accountId force
  return (accountId, renewed)

end AuthLibrary

section Refresh
variable {lib : AuthLibrary} {m : Nat} {accountId : String} {credentials : CodexCredentials}

theorem refreshLocked_exec (force : Bool) (w : AuthWorld) :
    exec m (lib.refreshLocked accountId force) w = match exec m (lib.renewal accountId force) w with
      | (.error error, w) => (.error error, w)
      | (.ok (credentials, false), w) => (.ok credentials, w)
      | (.ok (credentials, true), w) => match exec m (lib.storeCredentials accountId credentials) w with
        | (.error error, w) => (.error error, w)
        | (.ok _, w) => (.ok credentials, w) := by
  have hrenew (current : CodexCredentials) (w : AuthWorld) : exec m (lib.renew accountId current) w =
      match exec m ((·, true) <$> lib.refreshedFor accountId current) w with
        | (.error error, w) => (.error error, w)
        | (.ok (credentials, false), w) => (.ok credentials, w)
        | (.ok (credentials, true), w) => match exec m (lib.storeCredentials accountId credentials) w with
          | (.error error, w) => (.error error, w)
          | (.ok _, w) => (.ok credentials, w) := by
    unfold AuthLibrary.renew
    rw [exec_bind, exec_map]
    rcases exec m (lib.refreshedFor accountId current) w with ⟨result, w'⟩
    cases result with
    | error error => rfl
    | ok refreshed =>
      dsimp only
      rw [exec_bind]
      rcases exec m (lib.storeCredentials accountId refreshed) w' with ⟨result, w''⟩
      cases result <;> rfl
  unfold AuthLibrary.refreshLocked AuthLibrary.renewal
  rw [exec_bind, exec_bind]
  rcases exec m (lib.readCredentials accountId) w with ⟨result, w'⟩
  cases result with
  | error error => rfl
  | ok current =>
    cases force with
    | true => exact hrenew current w'
    | false =>
      dsimp only
      rw [if_neg Bool.false_ne_true, if_neg Bool.false_ne_true, exec_bind, exec_bind, exec_perform]
      dsimp only
      split
      · exact hrenew current _
      · rfl

/-- The credentials that are new are those of the account. -/
theorem renewal_claim {force : Bool} {w w' : AuthWorld}
    (hrenewal : exec m (lib.renewal accountId force) w = (.ok (credentials, true), w')) :
    lib.accountClaim credentials.idToken = some accountId := by
  have hrefreshed (current : CodexCredentials) (w : AuthWorld)
      (h : exec m ((·, true) <$> lib.refreshedFor accountId current) w = (.ok (credentials, true), w')) :
      lib.accountClaim credentials.idToken = some accountId := by
    unfold AuthLibrary.refreshedFor at h
    rw [exec_map, exec_bind] at h
    generalize exec m (lib.refreshTokens current) w = refreshed at h
    obtain ⟨result, w₁⟩ := refreshed
    cases result with
    | error error => cases h
    | ok refreshed =>
      dsimp only at h
      by_cases hclaim : lib.accountClaim refreshed.idToken = some accountId
      · rw [if_neg (not_not.2 hclaim)] at h
        cases h
        exact hclaim
      · rw [if_pos hclaim] at h
        cases h
  unfold AuthLibrary.renewal at hrenewal
  rw [exec_bind] at hrenewal
  generalize exec m (lib.readCredentials accountId) w = read at hrenewal
  obtain ⟨result, w₁⟩ := read
  cases result with
  | error error => cases hrenewal
  | ok current =>
    cases force with
    | true => exact hrefreshed current w₁ hrenewal
    | false =>
      dsimp only at hrenewal
      rw [if_neg Bool.false_ne_true, exec_bind, exec_perform] at hrenewal
      dsimp only at hrenewal
      split at hrenewal
      · exact hrefreshed current _ hrenewal
      · cases hrenewal

variable (lib) in
/-- A refresh that does not come to the store leaves what there was then, and one that does leaves what the store leaves:
whatever `f` sees of the state, when it does not see the lock. -/
theorem refreshCredentials_exec {γ : Type} (m : Nat) (f : AuthWorld → γ)
    (hf : ∀ a w, f (AuthWorld.handle m (.unlockAccount a) w).2 = f w) (requested : Option String) (force : Bool)
    (w : AuthWorld) :
    match exec m (lib.upToStore requested force) w with
    | (.error error, w₁) => (exec m (lib.refreshCredentials requested force) w).1 = .error error ∧
        f (exec m (lib.refreshCredentials requested force) w).2 = f w₁
    | (.ok (_, credentials, false), w₁) => (exec m (lib.refreshCredentials requested force) w).1 = .ok credentials ∧
        f (exec m (lib.refreshCredentials requested force) w).2 = f w₁
    | (.ok (a, credentials, true), w₁) => lib.accountClaim credentials.idToken = some a ∧
        (exec m (lib.refreshCredentials requested force) w).1 =
          (exec m (lib.storeCredentials a credentials) w₁).1.map (fun _ => credentials) ∧
        f (exec m (lib.refreshCredentials requested force) w).2 =
          f (exec m (lib.storeCredentials a credentials) w₁).2 := by
  unfold AuthLibrary.upToStore AuthLibrary.refreshCredentials
  rw [exec_bind, exec_bind]
  rcases exec m (lib.resolveAccountId requested) w with ⟨result, w₁⟩
  cases result with
  | error error => exact ⟨rfl, rfl⟩
  | ok a =>
    dsimp only
    rw [exec_bind, exec_bind, exec_perform]
    dsimp only
    rw [exec_unlocking, refreshLocked_exec, exec_bind]
    generalize (AuthWorld.handle m (.lockAccount a) w₁).2 = w₂
    rcases hrenewal : exec m (lib.renewal a force) w₂ with ⟨result, w₃⟩
    cases result with
    | error error => exact ⟨rfl, hf a w₃⟩
    | ok renewed =>
      obtain ⟨credentials, fresh⟩ := renewed
      cases fresh with
      | false => exact ⟨rfl, hf a w₃⟩
      | true =>
        refine ⟨renewal_claim hrenewal, ?_, ?_⟩
        · dsimp only [exec_pure]
          rcases exec m (lib.storeCredentials a credentials) w₃ with ⟨result, w₄⟩
          cases result <;> rfl
        · dsimp only [exec_pure]
          rw [hf]
          rcases exec m (lib.storeCredentials a credentials) w₃ with ⟨result, w₄⟩
          cases result <;> rfl

end Refresh

/-! ## An account whose token server gives new tokens -/

/-- The account `a` is signed in with the tokens `A` and `R`, and the token server answers with others. -/
def renewalTexts : List (Value × String) :=
  [(answerValue idTokenA "A2" "R2", answerText idTokenA "A2" "R2"), (metadataJson 1000, metadataText "1000"),
    (metadataJson 2000, metadataText "2000"),
    (.array [CodexAccountRecord.toJson ⟨"a", none⟩], "[" ++ recordText "a" ++ "]")]

def signedInA (lib : AuthLibrary) : List (SecretKey × String) :=
  [(.accountIndex, "[" ++ recordText "a" ++ "]"), (lib.accountSecret "a" .accessToken, "A"),
    (lib.accountSecret "a" .refreshToken, "R"), (lib.accountSecret "a" .idToken, idTokenA),
    (lib.accountSecret "a" .metadata, metadataText "1000")]

def unavailable : AuthError := ⟨.credentialStore, "The secret store is not available."⟩

/-- The operation `failing` fails. -/
def failingInput (failing n : Nat) : AuthInput :=
  ⟨if n = failing then some unavailable else none,
    .ok ⟨200, answerText idTokenA "A2" "R2"⟩, .ok "code", 2000⟩

end Aifluxon
