import Aifluxon.Core.Encoding
import Aifluxon.Providers.Reading
import Mathlib.Data.List.Infix
import Mathlib.Logic.Equiv.Basic

/-!
# Tokens

The credentials of a Codex account, as `token.rs`, `oauth.rs` and `error.rs` read them.

* `AuthError` : a kind and a text without the names of secrets;
* `AuthLibrary` : the digest, the JSON and the base64 that the crate calls;
* `AuthLibrary.idTokenAuthClaim`, `accessTokenExpiry` : what a token says of itself;
* `credentialsFromTokens` : an answer of the token server, filled up with what is at hand;
* `credentialsFromTokens_ok` : none of the tokens is blank, and the ID token names an account.
-/

namespace Aifluxon

open Value

/-! ## Errors -/

inductive AuthErrorKind where
  | configuration
  | browser
  | callbackBind
  | callbackTimeout
  | callbackProtocol
  | stateMismatch
  | tokenExchange
  | tokenRefresh
  | authenticationRequired
  | accountSelectionRequired
  | accountNotFound
  | credentialStore
  | credentialStoreUnavailable
  | credentialStoreLocked
  | credentialCorrupted
  | unsupportedPlatform
  | cancelled
  | network
  deriving DecidableEq

structure AuthError where
  kind : AuthErrorKind
  message : String
  deriving DecidableEq

/-- `str::replace`, from left to right; `skip` characters still belong to the occurrence just replaced. -/
def replaceFrom (needle replacement : List Char) : Nat → List Char → List Char
  | _, [] => []
  | skip + 1, _ :: text => replaceFrom needle replacement skip text
  | 0, c :: text =>
    if needle <+: c :: text then replacement ++ replaceFrom needle replacement (needle.length - 1) text
    else c :: replaceFrom needle replacement 0 text

def replaceAll (text needle replacement : String) : String :=
  String.ofList (replaceFrom needle.toList replacement.toList 0 text.toList)

/-- `str::contains`. -/
def textContains (text needle : String) : Bool := needle.toList <:+: text.toList

def sanitizeSecrets (message : String) : String :=
  ["Bearer ", "refresh_token", "access_token", "id_token", "code_verifier", "authorization_code"].foldl
    (fun sanitized needle =>
      if textContains sanitized needle ∧ needle ≠ "Bearer " then replaceAll sanitized needle "[redacted]"
      else sanitized) message

def redactKnown (message : String) (secrets : List String) : String :=
  sanitizeSecrets (secrets.foldl (fun sanitized secret =>
    if 8 ≤ (trim secret).utf8ByteSize then replaceAll sanitized (trim secret) "[redacted]" else sanitized) message)

def AuthError.new (kind : AuthErrorKind) (message : String) : AuthError := ⟨kind, sanitizeSecrets message⟩

/-! ## Tokens -/

/-- `Option::filter` on texts that are not blank. -/
def notBlank (text : Option String) : Option String := text.filter fun value => trim value ≠ ""

structure CodexCredentials where
  accessToken : String
  refreshToken : String
  idToken : String
  lastRefreshAt : Nat
  deriving DecidableEq

structure TokenResponse where
  idToken : Option String
  accessToken : Option String
  refreshToken : Option String

structure TokenHttpResponse where
  status : Nat
  body : String
  deriving DecidableEq

/-- What the crate calls of others. -/
structure AuthLibrary where
  /-- The first 32 digits of the SHA-256 of a text. -/
  fingerprint : String → String
  serde : Serde
  /-- The JSON in the base64 of a segment, with the URL-safe alphabet, without padding or with it. -/
  segment : List Char → Option Value

namespace AuthLibrary
variable (lib : AuthLibrary)

def jwtPayload (token : String) : Option Value := (token.toList.splitOn '.')[1]?.bind lib.segment

def accessTokenExpiry (accessToken : String) : Option Nat :=
  (lib.jwtPayload accessToken).bind fun payload => (payload.get "exp").bind asU64

def idTokenAuthClaim (idToken key : String) : Option String :=
  (lib.jwtPayload idToken).bind fun payload =>
    (payload.get "https://api.openai.com/auth").bind (Value.getStr key)

/-- The account that an ID token is for. -/
def accountClaim (idToken : String) : Option String := lib.idTokenAuthClaim idToken "chatgpt_account_id"

def idTokenEmail (idToken : String) : Option String :=
  (lib.jwtPayload idToken).bind fun payload =>
    (payload.getStr "email").orElse fun _ =>
      (payload.get "https://api.openai.com/profile").bind (Value.getStr "email")

/-- `from_str::<TokenResponse>`. -/
def readTokens (body : String) : Option TokenResponse := do
  let v ← lib.serde.fromStr body
  let idToken ← v.optionalField "id_token" readString
  let accessToken ← v.optionalField "access_token" readString
  let refreshToken ← v.optionalField "refresh_token" readString
  return ⟨idToken, accessToken, refreshToken⟩

/-- A token of the answer, or the one at hand. -/
def tokenOr (answered fallback : Option String) (what : String) : Except AuthError String :=
  match notBlank ((notBlank answered).orElse fun _ => fallback) with
  | some token => .ok token
  | none => .error (.new .tokenExchange ("Codex OAuth response is missing " ++ what ++ "."))

def credentialsFromTokens (tokens : TokenResponse) (fallback : Option CodexCredentials) (now : Nat) :
    Except AuthError CodexCredentials := do
  let accessToken ← tokenOr tokens.accessToken (fallback.map CodexCredentials.accessToken) "an access token"
  let refreshToken ← tokenOr tokens.refreshToken (fallback.map CodexCredentials.refreshToken) "a refresh token"
  let idToken ← tokenOr tokens.idToken (fallback.map CodexCredentials.idToken) "an ID token"
  if (lib.accountClaim idToken).isNone then
    throw (.new .tokenExchange "Codex ID token is missing a ChatGPT account id.")
  return ⟨accessToken, refreshToken, idToken, now⟩

def oauthError (status : Nat) (body : String) (kind : AuthErrorKind) : AuthError :=
  let error := ((lib.serde.fromStr body).bind (Value.getStr "error")).getD ""
  let error := String.ofList (error.toList.map Char.toLower)
  .new kind
    (if textContains error "access_denied" then "Codex authorization was not completed."
    else if textContains error "invalid_grant" then "Codex authorization is expired or already used."
    else if status = 429 then "Codex authorization is rate limited. Try again later."
    else if 500 ≤ status ∧ status < 600 then "Codex authorization is temporarily unavailable."
    else if status = 401 ∨ status = 403 then "Codex authorization is no longer valid."
    else "Codex authorization failed.")

/-- The credentials in an answer of the token server. -/
def readAnswer (kind : AuthErrorKind) (invalid : String) (secrets : List String)
    (fallback : Option CodexCredentials) (now : Nat) :
    Except AuthError TokenHttpResponse → Except AuthError CodexCredentials
  | .error error => .error (.new error.kind (redactKnown error.message secrets))
  | .ok response =>
    if ¬ (200 ≤ response.status ∧ response.status < 300) then
      .error (lib.oauthError response.status response.body kind)
    else match lib.readTokens response.body with
      | none => .error (.new kind invalid)
      | some tokens => lib.credentialsFromTokens tokens fallback now

/-- The account that the ID token of an answer claims. -/
def answeredAccount : Except AuthError TokenHttpResponse → Option String
  | .ok response =>
    (lib.readTokens response.body).bind fun tokens => (notBlank tokens.idToken).bind lib.accountClaim
  | .error _ => none

variable {lib}

theorem tokenOr_ok {answered fallback : Option String} {what token : String}
    (h : tokenOr answered fallback what = .ok token) : trim token ≠ "" := by
  unfold tokenOr at h
  split at h
  · rename_i found hfound
    cases h
    have hblank := Option.filter_eq_some_iff.1 hfound
    simpa using hblank.2
  · cases h

/-- A token is that of the answer, or the one at hand where the answer has none. -/
theorem tokenOr_cases {answered fallback : Option String} {what token : String}
    (h : tokenOr answered fallback what = .ok token) :
    notBlank answered = some token ∨ notBlank answered = none ∧ fallback = some token := by
  unfold tokenOr at h
  cases hanswered : notBlank answered with
  | none =>
    rw [hanswered, Option.orElse_none] at h
    split at h
    · rename_i found hfound
      cases h
      exact .inr ⟨rfl, (Option.filter_eq_some_iff.1 hfound).1⟩
    · cases h
  | some found =>
    have hblank := (Option.filter_eq_some_iff.1 hanswered).2
    rw [hanswered, Option.orElse_some, notBlank, Option.filter_some, if_pos hblank] at h
    exact .inl (congrArg some (Except.ok.inj h))

theorem bind_eq_ok {ε α β : Type} {x : Except ε α} {f : α → Except ε β} {b : β} (h : x >>= f = .ok b) :
    ∃ a, x = .ok a ∧ f a = .ok b := by
  cases x with
  | error e => cases h
  | ok a => exact ⟨a, rfl, h⟩

/-- Where the tokens come from. -/
theorem credentialsFromTokens_eq_ok {tokens : TokenResponse} {fallback : Option CodexCredentials} {now : Nat}
    {credentials : CodexCredentials} (h : lib.credentialsFromTokens tokens fallback now = .ok credentials) :
    tokenOr tokens.accessToken (fallback.map CodexCredentials.accessToken) "an access token" =
        .ok credentials.accessToken ∧
      tokenOr tokens.refreshToken (fallback.map CodexCredentials.refreshToken) "a refresh token" =
        .ok credentials.refreshToken ∧
      tokenOr tokens.idToken (fallback.map CodexCredentials.idToken) "an ID token" = .ok credentials.idToken ∧
      (lib.accountClaim credentials.idToken).isSome = true ∧ credentials.lastRefreshAt = now := by
  obtain ⟨accessToken, haccess, h⟩ := bind_eq_ok h
  obtain ⟨refreshToken, hrefresh, h⟩ := bind_eq_ok h
  obtain ⟨idToken, hid, h⟩ := bind_eq_ok h
  cases hclaim : lib.accountClaim idToken with
  | none =>
    rw [hclaim] at h
    cases h
  | some account =>
    rw [hclaim] at h
    cases h
    exact ⟨haccess, hrefresh, hid, by rw [hclaim]; rfl, rfl⟩

/-- Credentials of an answer are complete. -/
theorem credentialsFromTokens_ok {tokens : TokenResponse} {fallback : Option CodexCredentials} {now : Nat}
    {credentials : CodexCredentials} (h : lib.credentialsFromTokens tokens fallback now = .ok credentials) :
    trim credentials.accessToken ≠ "" ∧ trim credentials.refreshToken ≠ "" ∧ trim credentials.idToken ≠ "" ∧
      (lib.accountClaim credentials.idToken).isSome = true ∧ credentials.lastRefreshAt = now := by
  obtain ⟨haccess, hrefresh, hid, hclaim, hnow⟩ := credentialsFromTokens_eq_ok h
  exact ⟨tokenOr_ok haccess, tokenOr_ok hrefresh, tokenOr_ok hid, hclaim, hnow⟩

/-- Without other tokens at hand, the account is the one of the answer. -/
theorem credentialsFromTokens_account {tokens : TokenResponse} {now : Nat} {credentials : CodexCredentials}
    (h : lib.credentialsFromTokens tokens none now = .ok credentials) :
    (notBlank tokens.idToken).bind lib.accountClaim = lib.accountClaim credentials.idToken := by
  obtain ⟨-, -, hid, -⟩ := credentialsFromTokens_eq_ok h
  cases hanswer : notBlank tokens.idToken with
  | none =>
    rw [tokenOr, hanswer] at hid
    cases hid
  | some answered =>
    have hblank := (Option.filter_eq_some_iff.1 hanswer).2
    simp only [tokenOr, hanswer, Option.orElse_some] at hid
    rw [notBlank, Option.filter_some, if_pos hblank] at hid
    cases hid
    rfl

/-- What an answer gives, it gives by its tokens. -/
theorem readAnswer_eq_ok {kind : AuthErrorKind} {invalid : String} {secrets : List String}
    {fallback : Option CodexCredentials} {now : Nat} {answer : Except AuthError TokenHttpResponse}
    {credentials : CodexCredentials} (h : lib.readAnswer kind invalid secrets fallback now answer = .ok credentials) :
    ∃ response tokens, answer = .ok response ∧ lib.readTokens response.body = some tokens ∧
      lib.credentialsFromTokens tokens fallback now = .ok credentials := by
  unfold readAnswer at h
  split at h
  · cases h
  · rename_i response
    split at h
    · cases h
    · split at h
      · cases h
      · rename_i tokens htokens
        exact ⟨response, tokens, rfl, htokens, h⟩

theorem readAnswer_account {kind : AuthErrorKind} {invalid : String} {secrets : List String} {now : Nat}
    {answer : Except AuthError TokenHttpResponse} {credentials : CodexCredentials}
    (h : lib.readAnswer kind invalid secrets none now answer = .ok credentials) :
    lib.answeredAccount answer = lib.accountClaim credentials.idToken := by
  obtain ⟨response, tokens, rfl, htokens, h⟩ := readAnswer_eq_ok h
  simp only [answeredAccount, htokens, Option.bind_some]
  exact credentialsFromTokens_account h

theorem readAnswer_ok {kind : AuthErrorKind} {invalid : String} {secrets : List String}
    {fallback : Option CodexCredentials} {now : Nat} {answer : Except AuthError TokenHttpResponse}
    {credentials : CodexCredentials}
    (h : lib.readAnswer kind invalid secrets fallback now answer = .ok credentials) :
    trim credentials.accessToken ≠ "" ∧ trim credentials.refreshToken ≠ "" ∧ trim credentials.idToken ≠ "" ∧
      (lib.accountClaim credentials.idToken).isSome = true ∧ credentials.lastRefreshAt = now := by
  obtain ⟨response, tokens, rfl, htokens, h⟩ := readAnswer_eq_ok h
  exact credentialsFromTokens_ok h

end AuthLibrary

/-! ## Tables in place of the library -/

/-- The printed forms of some values. -/
def Serde.ofTable (texts : List (Value × String)) : Serde where
  toString v := ((texts.find? fun e => e.1 = v).map Prod.snd).elim (.error "not in the table") .ok
  fromStr text := (texts.find? fun e => e.2 = text).map Prod.fst
  display _ := ""

/-- The claims of an ID token for an account. -/
def accountClaims (accountId : String) : Value :=
  .object [("https://api.openai.com/auth", .object [("chatgpt_account_id", .string accountId)])]

/-- ID tokens of the accounts `a` and `b`; their second segment is the base64 of the claims. -/
def idTokenA : String :=
  "e30.eyJodHRwczovL2FwaS5vcGVuYWkuY29tL2F1dGgiOnsiY2hhdGdwdF9hY2NvdW50X2lkIjoiYSJ9fQ.s"
def idTokenB : String :=
  "e30.eyJodHRwczovL2FwaS5vcGVuYWkuY29tL2F1dGgiOnsiY2hhdGdwdF9hY2NvdW50X2lkIjoiYiJ9fQ.s"

/-- An answer of the token server: its body and what is read of it. -/
def answerText (idToken accessToken refreshToken : String) : String :=
  "\x7b\"id_token\":\"" ++ idToken ++ "\",\"access_token\":\"" ++ accessToken ++ "\",\"refresh_token\":\"" ++
    refreshToken ++ "\"\x7d"

def answerValue (idToken accessToken refreshToken : String) : Value :=
  .object [("id_token", .string idToken), ("access_token", .string accessToken),
    ("refresh_token", .string refreshToken)]

def metadataText (lastRefreshAt : String) : String := "\x7b\"lastRefreshAt\":" ++ lastRefreshAt ++ "\x7d"

def recordText (accountId : String) : String :=
  "\x7b\"accountId\":\"" ++ accountId ++ "\",\"accountEmail\":null\x7d"

/-- The digests of the accounts `a` and `b` are those of SHA-256. -/
def AuthLibrary.ofTable (texts : List (Value × String)) : AuthLibrary where
  fingerprint := (Equiv.swap "a" "ca978112ca1bbdcafac231b39a23dc4d").trans
    (Equiv.swap "b" "3e23e8160039594a33894f6564e1b134")
  serde := .ofTable texts
  segment text :=
    if (idTokenA.toList.splitOn '.')[1]? = some text then some (accountClaims "a")
    else if (idTokenB.toList.splitOn '.')[1]? = some text then some (accountClaims "b")
    else none

theorem AuthLibrary.ofTable_fingerprint_injective (texts : List (Value × String)) :
    Function.Injective (ofTable texts).fingerprint := Equiv.injective _

end Aifluxon
