import Aifluxon.Auth.CredentialStore

/-!
# The account manager

`CodexAuthManager` of `codex/mod.rs`, and the requests of `oauth.rs`.

* `AuthLibrary.refreshCredentials` : a refresh under the lock of its account; `bearer`, `forceRefresh`, `refresh`;
* `AuthLibrary.completeLogin` : a login from the callback on; `seedAccount`;
* `AuthLibrary.logout`, `status`, `accounts`.
-/

namespace Aifluxon

open AuthM

structure CodexAccount where
  id : String
  email : Option String
  expiresAt : Option Nat
  deriving DecidableEq

inductive CodexAuthState where
  | authenticated
  | refreshRequired
  | expired
  | missing
  deriving DecidableEq

structure CodexAuthStatus where
  account : CodexAccount
  state : CodexAuthState
  deriving DecidableEq

def refreshWindowSecs : Nat := 300
def unknownExpiryRefreshSecs : Nat := 8 * 24 * 60 * 60

def tokenUrl : String := "https://auth.openai.com/oauth/token"
def clientId : String := "app_EMoamEEZ73f0CkXaXp7hrann"

/-- The JSON of a refresh request; it is posted to `tokenUrl`. -/
def refreshBody (refreshToken : String) : Value :=
  .object [("client_id", .string clientId), ("grant_type", .string "refresh_token"),
    ("refresh_token", .string refreshToken)]

/-- The form of an exchange. -/
def exchangeForm (code redirectUri verifier : String) : List (String × String) :=
  [("grant_type", "authorization_code"), ("code", code), ("redirect_uri", redirectUri), ("client_id", clientId),
    ("code_verifier", verifier)]

namespace AuthLibrary
variable (lib : AuthLibrary)

def shouldRefresh (credentials : CodexCredentials) (now : Nat) : Bool :=
  match lib.accessTokenExpiry credentials.accessToken with
  | some expiry => expiry ≤ saturatingAdd now refreshWindowSecs
  | none => credentials.lastRefreshAt = 0 ∨ unknownExpiryRefreshSecs ≤ now - credentials.lastRefreshAt

/-- A token of the refresh answer that is missing or blank stays as it is. -/
def refreshTokens (current : CodexCredentials) : AuthM CodexCredentials := do
  let answer ← perform (.postJson (refreshBody current.refreshToken))
  let now ← perform .unixNow
  ExceptT.mk (pure (lib.readAnswer .tokenRefresh "Codex OAuth refresh response is invalid."
    [current.refreshToken] (some current) now answer))

def exchangeAuthorizationCode (code redirectUri verifier : String) : AuthM CodexCredentials := do
  let answer ← perform (.postForm (exchangeForm code redirectUri verifier))
  let now ← perform .unixNow
  ExceptT.mk (pure (lib.readAnswer .tokenExchange "Codex OAuth response is invalid." [code, verifier] none now answer))

/-- The credentials that the token server gives for `current`, when they are those of the account. -/
def refreshedFor (accountId : String) (current : CodexCredentials) : AuthM CodexCredentials := do
  let refreshed ← lib.refreshTokens current
  if lib.accountClaim refreshed.idToken ≠ some accountId then
    throw (.new .tokenRefresh "Refreshed Codex credentials do not match the selected account.")
  else return refreshed

def renew (accountId : String) (current : CodexCredentials) : AuthM CodexCredentials := do
  let refreshed ← lib.refreshedFor accountId current
  lib.storeCredentials accountId refreshed
  return refreshed

/-- What stands under the lock of the account. -/
def refreshLocked (accountId : String) (force : Bool) : AuthM CodexCredentials := do
  let current ← lib.readCredentials accountId
  if force then lib.renew accountId current
  else
    let now ← perform .unixNow
    if lib.shouldRefresh current now then lib.renew accountId current else return current

def refreshCredentials (requested : Option String) (force : Bool) : AuthM CodexCredentials := do
  let accountId ← lib.resolveAccountId requested
  perform (.lockAccount accountId)
  unlocking (.unlockAccount accountId) (lib.refreshLocked accountId force)

/-- `CodexOAuthCredentialSource::bearer`. -/
def bearer (accountId : String) : AuthM String :=
  CodexCredentials.accessToken <$> lib.refreshCredentials (some accountId) false

def forceRefresh (accountId : String) : AuthM String :=
  CodexCredentials.accessToken <$> lib.refreshCredentials (some accountId) true

def statusFromStorage (record : CodexAccountRecord) : AuthM CodexAuthStatus := do
  let accessToken ← getText (lib.accountSecret record.accountId .accessToken)
  let refreshToken ← getText (lib.accountSecret record.accountId .refreshToken)
  let idToken ← getText (lib.accountSecret record.accountId .idToken)
  let now ← perform .unixNow
  let expiresAt := accessToken.bind lib.accessTokenExpiry
  let complete := accessToken.isSome ∧ refreshToken.isSome ∧ idToken.isSome ∧
    idToken.bind lib.accountClaim = some record.accountId
  let state :=
    if complete then
      if expiresAt.any fun expiry => expiry ≤ now then CodexAuthState.refreshRequired else .authenticated
    else if accessToken.isSome ∨ refreshToken.isSome ∨ idToken.isSome then .expired
    else .missing
  return ⟨⟨record.accountId, (idToken.bind lib.idTokenEmail).orElse fun _ => record.accountEmail, expiresAt⟩, state⟩

def status (accountId : String) : AuthM CodexAuthStatus := do
  let records ← lib.accountRecords
  let record ← okOr (.new .accountNotFound "The requested Codex account is not signed in.")
    (records.find? fun record => record.accountId = accountId)
  lib.statusFromStorage record

def accounts : AuthM (List CodexAccount) := do
  let records ← lib.accountRecords
  records.mapM fun record => CodexAuthStatus.account <$> lib.statusFromStorage record

def logout (accountId : String) : AuthM Unit :=
  if trim accountId = "" then throw (.new .accountNotFound "Select a Codex account to sign out.")
  else do
    lib.deleteAccountCredentials (trim accountId)
    lib.removeAccountRecord (trim accountId)

def refresh (requested : Option String) (force : Bool) : AuthM CodexAuthStatus := do
  let accountId ← lib.resolveAccountId requested
  let _ ← lib.refreshCredentials (some accountId) force
  lib.status accountId

/-- `CodexLoginAttempt::complete`; what is written to the browser is left out. -/
def completeLogin (redirectUri verifier : String) : AuthM CodexAccount := do
  let code ← ExceptT.mk (Procedure.perform AuthOp.waitForCallback)
  let credentials ← lib.exchangeAuthorizationCode code redirectUri verifier
  let accountId ← okOr (.new .tokenExchange "Codex ID token is missing a ChatGPT account id.")
    (lib.accountClaim credentials.idToken)
  lib.storeCredentials accountId credentials
  CodexAuthStatus.account <$> lib.status accountId

def seedAccount (accountId accessToken refreshToken idToken : String) : AuthM CodexAccount := do
  let now ← perform .unixNow
  lib.storeCredentials accountId ⟨accessToken, refreshToken, idToken, now⟩
  CodexAuthStatus.account <$> lib.status accountId

end AuthLibrary

end Aifluxon
