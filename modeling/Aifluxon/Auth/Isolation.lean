import Aifluxon.Auth.Scopes

/-!
# The accounts are kept apart

Calls one after another, on any managers over one secret store that was empty.

* `Together` : an access token was obtained with an ID token of the account; `AuthSound` : the tokens that are
  stored, or cached, were;
* `AuthCall.sound` : every call keeps a sound state;
* `accounts_isolated` : no call touches an entry of another account, and a bearer token was obtained with an ID
  token that claims its account.
-/

namespace Aifluxon

open AuthM AuthLibrary

/-! ## Tokens -/

section Tokens

/-- The tokens in an answer of the token server. -/
def AuthLibrary.answeredTokens (lib : AuthLibrary) : Sigma AuthOp.Answer → Option TokenResponse
  | ⟨.postForm _, .ok response⟩ | ⟨.postJson _, .ok response⟩ => lib.readTokens response.body
  | _ => none

/-- An ID token was read for the account. -/
def ReadFor (lib : AuthLibrary) (h : AuthHistory) (accountId idToken : String) : Prop :=
  ⟨.get (lib.accountSecret accountId .idToken), .ok (some idToken)⟩ ∈ h ∨
    ∃ credentials : CodexCredentials, credentials.idToken = idToken ∧
      ⟨.cachedCredentials accountId, some credentials⟩ ∈ h

/-- An answer gave the access token together with an ID token that claims the account; where it gave no ID
token, the one that was read for the account claims it. -/
def Together (lib : AuthLibrary) (h : AuthHistory) (accountId token : String) : Prop :=
  ∃ e ∈ h, ∃ tokens, lib.answeredTokens e = some tokens ∧ notBlank tokens.accessToken = some token ∧
    ∃ idToken, lib.accountClaim idToken = some accountId ∧ (notBlank tokens.idToken = some idToken ∨
      notBlank tokens.idToken = none ∧ ReadFor lib h accountId idToken)

/-- A call on the account obtained the access token: one of those that are over, or the one that goes on. -/
def Obtained (lib : AuthLibrary) (earlier : List AuthRecord) (call : AuthCall) (h : AuthHistory)
    (accountId token : String) : Prop :=
  (∃ record ∈ earlier, record.call.scope lib record.events accountId ∧ Together lib record.events accountId token) ∨
    call.scope lib h accountId ∧ Together lib h accountId token

/-- Every access token that is stored or cached was obtained for its account. -/
structure AuthSound (lib : AuthLibrary) (earlier : List AuthRecord) (call : AuthCall) (w : AuthWorld)
    (h : AuthHistory) : Prop where
  legacy : ∀ kind, w.secrets (.legacy kind) = none
  stored : ∀ accountId token, w.secrets (lib.accountSecret accountId .accessToken) = some token →
    Obtained lib earlier call h accountId token
  cached : ∀ m accountId credentials, (w.managers m).credentials accountId = some credentials →
    Obtained lib earlier call h accountId credentials.accessToken

/-- Nothing is stored in the entries of an account, and no credentials are cached. -/
def AuthOp.Harmless : AuthOp → Prop
  | .set (.account _ _) _ | .set (.legacy _) _ | .cacheCredentials _ _ => False
  | _ => True

variable {lib : AuthLibrary} {earlier : List AuthRecord} {call : AuthCall} {w : AuthWorld} {h : AuthHistory}
  {accountId token idToken : String} {m : Nat}

theorem ReadFor.append (hread : ReadFor lib h accountId idToken) (more : AuthHistory) :
    ReadFor lib (h ++ more) accountId idToken :=
  hread.imp (List.mem_append_left more) fun ⟨credentials, hid, hmem⟩ => ⟨credentials, hid, List.mem_append_left more hmem⟩

theorem Together.append (ht : Together lib h accountId token) (more : AuthHistory) :
    Together lib (h ++ more) accountId token := by
  obtain ⟨e, he, tokens, htokens, haccess, idToken, hclaim, hid⟩ := ht
  exact ⟨e, List.mem_append_left more he, tokens, htokens, haccess, idToken, hclaim,
    hid.imp id fun hid => ⟨hid.1, hid.2.append more⟩⟩

theorem Obtained.append (ht : Obtained lib earlier call h accountId token) (more : AuthHistory) :
    Obtained lib earlier call (h ++ more) accountId token :=
  ht.imp id fun ⟨hscope, ht⟩ => ⟨AuthCall.scope_prefix (List.prefix_append h more) hscope, ht.append more⟩

theorem AuthOp.Within.harmless {S : String → Prop} {op : AuthOp} (hop : op.Within lib S Nobody) : op.Harmless := by
  cases op with
  | set key => cases key with
    | accountIndex => trivial
    | legacy => exact hop
    | account =>
      obtain ⟨_, ha, -⟩ := hop
      exact ha
  | cacheCredentials => exact hop
  | _ => trivial

/-- Entries and caches that lose something, or stay as they are. -/
theorem AuthSound.of_subset {w' : AuthWorld} (hw : AuthSound lib earlier call w h) (more : AuthHistory)
    (hsecrets : ∀ key value, w'.secrets key = some value → key ≠ .accountIndex → w.secrets key = some value)
    (hcached : ∀ m accountId credentials, (w'.managers m).credentials accountId = some credentials →
      (w.managers m).credentials accountId = some credentials) : AuthSound lib earlier call w' (h ++ more) where
  legacy kind := by
    cases hlegacy : w'.secrets (.legacy kind) with
    | none => rfl
    | some value =>
      have hbefore := hsecrets _ value hlegacy nofun
      rw [hw.legacy kind] at hbefore
      cases hbefore
  stored accountId token ht := (hw.stored accountId token (hsecrets _ token ht nofun)).append more
  cached m accountId credentials hc := (hw.cached m accountId credentials (hcached m accountId credentials hc)).append more

theorem AuthSound.tick (hw : AuthSound lib earlier call w h) (more : AuthHistory) :
    AuthSound lib earlier call w.tick (h ++ more) :=
  hw.of_subset more (fun _ _ hkey _ => hkey) fun _ _ _ hc => hc

theorem modify_credentials {f : CodexManager → CodexManager} {m' : Nat}
    (hf : ∀ c credentials, (f c).credentials accountId = some credentials → c.credentials accountId = some credentials)
    {credentials : CodexCredentials} (hc : ((w.modify m f).managers m').credentials accountId = some credentials) :
    (w.managers m').credentials accountId = some credentials := by
  rw [AuthWorld.managers_modify] at hc
  split at hc
  · rename_i hm
    rw [hm]
    exact hf _ _ hc
  · exact hc

/-- A call of the secret store, which fails or not. -/
theorem attempt_sound {α : Type} {result : α} {after : AuthWorld} (hw : AuthSound lib earlier call w h)
    (hafter : ∀ more, AuthSound lib earlier call after.tick (h ++ more)) (more : AuthHistory) :
    AuthSound lib earlier call (w.attempt result after).2 (h ++ more) := by
  unfold AuthWorld.attempt
  split
  · exact hw.tick more
  · exact hafter more

/-- A harmless operation adds no token. -/
theorem AuthSound.harmless (hw : AuthSound lib earlier call w h) (op : AuthOp) (hop : op.Harmless) :
    noLegacy op (AuthWorld.handle m op w).1 ∧
      AuthSound lib earlier call (AuthWorld.handle m op w).2 (h ++ [⟨op, (AuthWorld.handle m op w).1⟩]) := by
  have hmodify (f : CodexManager → CodexManager) (hf : ∀ accountId c credentials,
      (f c).credentials accountId = some credentials → c.credentials accountId = some credentials)
      (more : AuthHistory) : AuthSound lib earlier call (w.modify m f).tick (h ++ more) :=
    hw.of_subset more (fun _ _ hkey _ => hkey) fun _ accountId _ hc => modify_credentials (hf accountId) hc
  cases op with
  | get key =>
    refine ⟨?_, attempt_sound hw hw.tick _⟩
    cases key with
    | legacy kind =>
      intro text htext
      simp only [AuthWorld.handle, AuthWorld.attempt, hw.legacy kind] at htext
      split at htext <;> cases htext
    | accountIndex | account => trivial
  | set key value => cases key with
    | accountIndex =>
      have hafter (more : AuthHistory) :
          AuthSound lib earlier call (w.write .accountIndex (some value)).tick (h ++ more) :=
        hw.of_subset more (fun key value hkey hne => by simpa [hne] using hkey) fun _ _ _ hc => hc
      exact ⟨trivial, attempt_sound hw hafter _⟩
    | legacy | account => exact hop.elim
  | delete key =>
    have hafter (more : AuthHistory) : AuthSound lib earlier call (w.write key none).tick (h ++ more) := by
      refine hw.of_subset more (fun key' value hkey _ => ?_) fun _ _ _ hc => hc
      by_cases heq : key' = key
      · simp [heq] at hkey
      · simpa [heq] using hkey
    exact ⟨by cases key <;> trivial, attempt_sound hw hafter _⟩
  | cacheCredentials => exact hop.elim
  | removeCredentials accountId =>
    refine ⟨trivial, hmodify _ ?_ _⟩
    intro accountId' c credentials hc
    by_cases heq : accountId' = accountId
    · simp [heq] at hc
    · simpa [heq] using hc
  | cacheRecords | lockMigrated | setMigrated | unlockMigrated | lockAccount | unlockAccount =>
    refine ⟨trivial, hmodify _ ?_ _⟩
    exact fun _ _ _ hc => hc
  | cachedRecords | cachedCredentials | postForm | postJson | waitForCallback | unixNow => exact ⟨trivial, hw.tick _⟩

/-! ## The calls keep the tokens apart -/

variable {α : Type}

theorem Within.sound {S : String → Prop} {x : AuthM α} (hx : Within noLegacy lib S Nobody x) :
    Leads m (AuthSound lib earlier call) x (fun _ => AuthSound lib earlier call) (AuthSound lib earlier call) :=
  (Meets.leads hx.meets fun op _ _ hw hop => hw.harmless op hop.harmless).mono (fun _ _ hpre => hpre)
    (fun _ _ _ hpost => hpost.2) fun _ _ herr => herr

/-- What is known of the credentials of an account while they are at hand. -/
abbrev AtHand (lib : AuthLibrary) (earlier : List AuthRecord) (call : AuthCall) (accountId : String)
    (credentials : CodexCredentials) (w : AuthWorld) (h : AuthHistory) : Prop :=
  AuthSound lib earlier call w h ∧ Obtained lib earlier call h accountId credentials.accessToken

theorem storeScopedCredentials_sound (hinj : Function.Injective lib.fingerprint) (credentials : CodexCredentials) :
    Leads m (AtHand lib earlier call accountId credentials) (lib.storeScopedCredentials accountId credentials)
      (fun _ => AtHand lib earlier call accountId credentials) (AuthSound lib earlier call) := by
  have hset (kind : CredentialKind) (value : String) (hvalue : kind = .accessToken → value = credentials.accessToken) :
      Leads m (AtHand lib earlier call accountId credentials) (setText (lib.accountSecret accountId kind) value)
        (fun _ => AtHand lib earlier call accountId credentials) (AuthSound lib earlier call) := by
    refine leads_setText (fun w h _ hw => ⟨⟨fun kind' => ?_, fun accountId' token ht => ?_, fun m a c hc =>
      (hw.1.cached m a c hc).append _⟩, hw.2.append _⟩) fun _ _ _ _ hw => hw.1.tick _
    · simpa [accountSecret] using hw.1.legacy kind'
    · rw [AuthWorld.secrets_tick, AuthWorld.secrets_write] at ht
      split at ht
      · rename_i heq
        simp only [accountSecret, SecretKey.account.injEq] at heq
        obtain rfl := hinj heq.1
        obtain rfl := Option.some.inj ht
        rw [hvalue heq.2.symm]
        exact hw.2.append _
      · exact (hw.1.stored accountId' token ht).append _
  refine (hset .accessToken _ fun _ => rfl).bind fun _ => (hset .refreshToken _ nofun).bind fun _ =>
    (hset .idToken _ nofun).bind fun _ => ?_
  split
  · exact leads_throw fun _ _ hw => hw.1
  · exact hset .metadata _ nofun

theorem cacheCredentials_sound (credentials : CodexCredentials) :
    Leads m (AtHand lib earlier call accountId credentials) (perform (.cacheCredentials accountId credentials))
      (fun _ => AtHand lib earlier call accountId credentials) (AuthSound lib earlier call) := by
  refine leads_perform fun w h hw => ⟨⟨hw.1.legacy, ?_, ?_⟩, hw.2.append _⟩
  · exact fun accountId token ht => (hw.1.stored accountId token ht).append _
  · intro m' accountId' credentials' hc
    simp only [AuthWorld.handle, AuthWorld.managers_tick, AuthWorld.managers_modify] at hc
    split at hc
    · dsimp only at hc
      rw [Function.update_apply] at hc
      split at hc
      · rename_i haccount
        cases hc
        rw [haccount]
        exact hw.2.append _
      · exact (hw.1.cached m accountId' credentials' hc).append _
    · exact (hw.1.cached m' accountId' credentials' hc).append _

theorem storeCredentials_sound (hinj : Function.Injective lib.fingerprint) (credentials : CodexCredentials) :
    Leads m (fun w h => AuthSound lib earlier call w h ∧ (lib.accountClaim credentials.idToken = some accountId →
        Obtained lib earlier call h accountId credentials.accessToken)) (lib.storeCredentials accountId credentials)
      (fun _ => AtHand lib earlier call accountId credentials) (AuthSound lib earlier call) := by
  refine Leads.bind (Q := fun claim w h => lib.accountClaim credentials.idToken = some claim ∧
      AuthSound lib earlier call w h ∧ (lib.accountClaim credentials.idToken = some accountId →
        Obtained lib earlier call h accountId credentials.accessToken))
    (leads_okOr (fun claim w h hclaim hw => ⟨hclaim, hw⟩) fun _ _ hw => hw.1) fun claim => ?_
  split
  · exact leads_throw fun _ _ hw => hw.2.1
  · rename_i hmatch
    refine leads_knowing (fun _ _ hw => hw.1) fun hclaim => ?_
    rw [not_not.1 hmatch] at hclaim
    refine Leads.pre (P := AtHand lib earlier call accountId credentials) ?_ fun _ _ hw => ⟨hw.2.1, hw.2.2 hclaim⟩
    exact (storeScopedCredentials_sound hinj credentials).bind fun _ =>
      ((upsertAccountRecord_within (S := Nobody) _).sound.keeping fun _ more ht => ht.append more).bind fun _ =>
        cacheCredentials_sound credentials

/-- The credentials that are read: what was stored or cached, with an ID token that is there to be read. -/
abbrev Current (lib : AuthLibrary) (earlier : List AuthRecord) (call : AuthCall) (accountId : String)
    (credentials : CodexCredentials) (w : AuthWorld) (h : AuthHistory) : Prop :=
  AtHand lib earlier call accountId credentials w h ∧ ReadFor lib h accountId credentials.idToken

theorem readToken_sound {T : AuthHistory → String → Prop} {kind : CredentialKind}
    (hT : ∀ w h token, AuthSound lib earlier call w h → w.secrets (lib.accountSecret accountId kind) = some token →
      T (h ++ [⟨.get (lib.accountSecret accountId kind), .ok (some token)⟩]) token) :
    Leads m (AuthSound lib earlier call) (lib.readToken accountId kind) (fun token w h => AuthSound lib earlier call w h ∧ T h token)
      (AuthSound lib earlier call) := by
  refine Leads.bind (Q := fun value w h => AuthSound lib earlier call w h ∧ ∀ token, value = some token → T h token)
    (leads_getText (fun w h _ hw => ⟨hw.tick _, fun token htoken => ?_⟩) fun _ _ _ _ hw => hw.tick _) fun value =>
    leads_okOr (fun token w h hvalue hw => ⟨hw.1, hw.2 token hvalue⟩) fun _ _ hw => hw.1
  have hstored := (Option.filter_eq_some_iff.1 htoken).1
  rw [hstored]
  exact hT w h token hw hstored

theorem readScopedCredentials_sound (accountId : String) :
    Leads m (AuthSound lib earlier call) (lib.readScopedCredentials accountId) (Current lib earlier call accountId)
      (AuthSound lib earlier call) := by
  have haccess : Leads m (AuthSound lib earlier call) (lib.readToken accountId .accessToken)
      (fun token w h => AuthSound lib earlier call w h ∧ Obtained lib earlier call h accountId token)
      (AuthSound lib earlier call) :=
    readToken_sound fun w h token hw ht => (hw.stored accountId token ht).append _
  refine haccess.bind fun accessToken => ?_
  refine ((readToken_within (only_self accountId) .refreshToken).sound.keeping (F := fun h =>
    Obtained lib earlier call h accountId accessToken) fun _ more ht => ht.append more).bind fun refreshToken => ?_
  have hid : Leads m (AuthSound lib earlier call) (lib.readToken accountId .idToken)
      (fun token w h => AuthSound lib earlier call w h ∧ ReadFor lib h accountId token) (AuthSound lib earlier call) :=
    readToken_sound fun w h token _ _ => .inl (List.mem_append_right h (List.mem_singleton_self _))
  refine (hid.keeping (F := fun h => Obtained lib earlier call h accountId accessToken)
    fun _ more ht => ht.append more).bind fun idToken => ?_
  refine Leads.bind (Q := fun _ w h => (AuthSound lib earlier call w h ∧ ReadFor lib h accountId idToken) ∧
    Obtained lib earlier call h accountId accessToken) ?_ fun lastRefreshAt =>
      leads_pure fun _ _ hw => ⟨⟨hw.1.1, hw.2⟩, hw.1.2⟩
  exact ((readMetadata_within (only_self accountId)).sound.keeping fun _ more ht => ht.append more).keeping
    fun _ more ht => ht.append more

theorem readCredentials_sound (accountId : String) : Leads m (AuthSound lib earlier call) (lib.readCredentials accountId)
    (Current lib earlier call accountId) (AuthSound lib earlier call) := by
  refine ((ensureLegacyCredentialsMigrated_within (S := Nobody)).sound).bind fun _ => ?_
  refine Leads.bind (Q := fun cached w h => AuthSound lib earlier call w h ∧
    ∀ credentials, cached = some credentials → Obtained lib earlier call h accountId credentials.accessToken ∧
      ReadFor lib h accountId credentials.idToken)
    (leads_perform fun w h hw => ⟨(hw.harmless (m := m) (.cachedCredentials accountId) trivial).2,
      fun credentials hc => ⟨(hw.cached m accountId credentials hc).append _, ?_⟩⟩) fun cached => ?_
  · have hcached : (w.managers m).credentials accountId = some credentials := hc
    exact .inr ⟨credentials, rfl, by simp [AuthWorld.handle, hcached]⟩
  · cases cached with
    | some credentials => exact leads_pure fun w h hw => ⟨⟨hw.1, (hw.2 credentials rfl).1⟩, (hw.2 credentials rfl).2⟩
    | none =>
      refine ((readScopedCredentials_sound accountId).pre fun _ _ hw => hw.1).bind fun credentials => ?_
      exact ((cacheCredentials_sound credentials).keeping fun _ more ht => ht.append more).bind
        fun _ => leads_pure fun _ _ hw => hw

/-- The credentials come of an answer, with those at hand in place of what it lacks. -/
def Gained (lib : AuthLibrary) (atHand : Option CodexCredentials) (credentials : CodexCredentials)
    (h : AuthHistory) : Prop :=
  ∃ e ∈ h, ∃ tokens now, lib.answeredTokens e = some tokens ∧
    lib.credentialsFromTokens tokens atHand now = .ok credentials

/-- An access token that an answer lacks is the one at hand, and so is the ID token. -/
theorem Gained.obtained {atHand : Option CodexCredentials} {credentials : CodexCredentials}
    (hgained : Gained lib atHand credentials h) (hclaim : lib.accountClaim credentials.idToken = some accountId)
    (hscope : call.scope lib h accountId)
    (hatHand : ∀ current, atHand = some current → Obtained lib earlier call h accountId current.accessToken ∧
      ReadFor lib h accountId current.idToken) : Obtained lib earlier call h accountId credentials.accessToken := by
  obtain ⟨e, he, tokens, now, htokens, hcredentials⟩ := hgained
  obtain ⟨haccess, -, hid, -⟩ := credentialsFromTokens_eq_ok hcredentials
  rcases tokenOr_cases haccess with haccess | ⟨-, haccess⟩
  · refine .inr ⟨hscope, e, he, tokens, htokens, haccess, credentials.idToken, hclaim, ?_⟩
    rcases tokenOr_cases hid with hid | ⟨hid, hkept⟩
    · exact .inl hid
    · obtain ⟨current, hcurrent, hsame⟩ := Option.map_eq_some_iff.1 hkept
      exact .inr ⟨hid, hsame ▸ (hatHand current hcurrent).2⟩
  · obtain ⟨current, hcurrent, hsame⟩ := Option.map_eq_some_iff.1 haccess
    rw [← hsame]
    exact (hatHand current hcurrent).1

/-- A request to the token server, and what its answer gives. -/
theorem request_sound (op : AuthOp) (hop : op.Harmless)
    {read : op.Answer → Nat → Except AuthError CodexCredentials} {atHand : Option CodexCredentials}
    (hread : ∀ answer now credentials, read answer now = .ok credentials →
      ∃ tokens, lib.answeredTokens ⟨op, answer⟩ = some tokens ∧
        lib.credentialsFromTokens tokens atHand now = .ok credentials) :
    Leads m (AuthSound lib earlier call)
      (perform op >>= fun answer => perform .unixNow >>= fun now => ExceptT.mk (pure (read answer now)))
      (fun credentials w h => AuthSound lib earlier call w h ∧ Gained lib atHand credentials h) (AuthSound lib earlier call) := by
  refine Leads.bind (Q := fun answer w h => AuthSound lib earlier call w h ∧ ⟨op, answer⟩ ∈ h)
    (leads_perform fun w h hw => ⟨(hw.harmless (m := m) op hop).2, by simp⟩) fun answer => ?_
  have hnow : Leads m (AuthSound lib earlier call) (perform .unixNow) (fun _ => AuthSound lib earlier call) (AuthSound lib earlier call) :=
    leads_perform fun w h hw => (hw.harmless (m := m) .unixNow trivial).2
  refine (hnow.keeping fun _ more he => List.mem_append_left more he).bind fun now =>
    leads_result (fun credentials w h hcredentials hw => ⟨hw.1, ?_⟩) fun _ _ hw => hw.1
  obtain ⟨tokens, htokens, hcredentials⟩ := hread answer now credentials hcredentials
  exact ⟨_, hw.2, tokens, now, htokens, hcredentials⟩

theorem refreshTokens_sound (current : CodexCredentials) : Leads m (AuthSound lib earlier call) (lib.refreshTokens current)
    (fun credentials w h => AuthSound lib earlier call w h ∧ Gained lib (some current) credentials h)
    (AuthSound lib earlier call) :=
  request_sound (.postJson (refreshBody current.refreshToken)) trivial fun answer now credentials hcredentials => by
    obtain ⟨response, tokens, rfl, htokens, hcredentials⟩ := readAnswer_eq_ok hcredentials
    exact ⟨tokens, htokens, hcredentials⟩

theorem exchangeAuthorizationCode_sound (code redirectUri verifier : String) :
    Leads m (AuthSound lib earlier call) (lib.exchangeAuthorizationCode code redirectUri verifier)
      (fun credentials w h => AuthSound lib earlier call w h ∧ Gained lib none credentials h) (AuthSound lib earlier call) :=
  request_sound (.postForm (exchangeForm code redirectUri verifier)) trivial fun answer now credentials hcredentials => by
    obtain ⟨response, tokens, rfl, htokens, hcredentials⟩ := readAnswer_eq_ok hcredentials
    exact ⟨tokens, htokens, hcredentials⟩

/-- A refresh in the scope of its call. -/
theorem renew_sound (hinj : Function.Injective lib.fingerprint) (current : CodexCredentials) :
    Leads m (fun w h => Current lib earlier call accountId current w h ∧ call.scope lib h accountId)
      (lib.renew accountId current) (AtHand lib earlier call accountId) (AuthSound lib earlier call) := by
  have hrefreshed : Leads m (fun w h => Current lib earlier call accountId current w h ∧ call.scope lib h accountId)
      (lib.refreshedFor accountId current) (fun refreshed w h => AtHand lib earlier call accountId refreshed w h)
      (AuthSound lib earlier call) := by
    refine Leads.bind (Q := fun refreshed w h => (AuthSound lib earlier call w h ∧ Gained lib (some current) refreshed h) ∧
      (Obtained lib earlier call h accountId current.accessToken ∧ ReadFor lib h accountId current.idToken) ∧
      call.scope lib h accountId) ?_ fun refreshed => ?_
    · refine ((refreshTokens_sound current).keeping fun h more hkept => ?_).pre fun _ _ hw =>
        ⟨hw.1.1.1, ⟨hw.1.1.2, hw.1.2⟩, hw.2⟩
      exact ⟨⟨hkept.1.1.append more, hkept.1.2.append more⟩, AuthCall.scope_prefix (List.prefix_append h more) hkept.2⟩
    · split
      · exact leads_throw fun _ _ hw => hw.1.1
      · rename_i hclaim
        refine leads_pure fun w h hw => ⟨hw.1.1, hw.1.2.obtained (not_not.1 hclaim) hw.2.2 ?_⟩
        intro current' hcurrent
        cases hcurrent
        exact hw.2.1
  refine hrefreshed.bind fun refreshed => ?_
  exact ((storeCredentials_sound hinj refreshed).pre fun _ _ hw => ⟨hw.1, fun _ => hw.2⟩).bind fun _ =>
    leads_pure fun _ _ hw => hw

theorem scope_append (h more : AuthHistory) (hscope : call.scope lib h accountId) :
    call.scope lib (h ++ more) accountId := AuthCall.scope_prefix (List.prefix_append h more) hscope

theorem refreshLocked_sound (hinj : Function.Injective lib.fingerprint) (accountId : String) (force : Bool) :
    Leads m (fun w h => AuthSound lib earlier call w h ∧ call.scope lib h accountId) (lib.refreshLocked accountId force)
      (AtHand lib earlier call accountId) (AuthSound lib earlier call) := by
  refine ((readCredentials_sound accountId).keeping scope_append).bind fun current => ?_
  cases force with
  | true => exact renew_sound hinj current
  | false =>
    refine Leads.bind (Q := fun _ w h => Current lib earlier call accountId current w h ∧ call.scope lib h accountId)
      (leads_perform fun w h hw => ?_) fun now => ?_
    · exact ⟨⟨⟨(hw.1.1.1.harmless (m := m) .unixNow trivial).2, hw.1.1.2.append _⟩, hw.1.2.append _⟩,
        scope_append _ _ hw.2⟩
    · split
      · exact renew_sound hinj current
      · exact leads_pure fun _ _ hw => hw.1.1

/-- No account has been locked. -/
def Unlocked (h : AuthHistory) : Prop := h.findSome? lockedBy = none

/-- An account is resolved without a lock, and one that is asked for by its proper name is found. -/
theorem resolveAccountId_sound (requested : Option String) :
    Leads m (fun w h => AuthSound lib earlier call w h ∧ Unlocked h) (lib.resolveAccountId requested)
      (fun a w h => (AuthSound lib earlier call w h ∧ Unlocked h) ∧ ∀ accountId, requested = some accountId →
        ProperAccount accountId → a = accountId) (AuthSound lib earlier call) := by
  have hkeep (op : AuthOp) (w : AuthWorld) (h : AuthHistory) (hw : AuthSound lib earlier call w h ∧ Unlocked h)
      (hop : op.Within lib Nobody Nobody) : noLegacy op (AuthWorld.handle m op w).1 ∧
        AuthSound lib earlier call (AuthWorld.handle m op w).2 (h ++ [⟨op, (AuthWorld.handle m op w).1⟩]) ∧
          Unlocked (h ++ [⟨op, (AuthWorld.handle m op w).1⟩]) := by
    obtain ⟨hanswer, hafter⟩ := hw.1.harmless (m := m) op hop.harmless
    refine ⟨hanswer, hafter, ?_⟩
    show (h ++ [_]).findSome? lockedBy = none
    rw [findSome_snoc, show h.findSome? lockedBy = none from hw.2]
    cases op with
    | lockAccount => exact hop.elim
    | _ => rfl
  by_cases hnamed : ∃ accountId, requested = some accountId ∧ ProperAccount accountId
  · obtain ⟨accountId, rfl, hproper⟩ := hnamed
    refine (Meets.leads (resolveAccountId_named hproper) hkeep).mono (fun _ _ hw => hw)
      (fun a w h hpost => ⟨hpost.2, fun accountId' haccount _ => ?_⟩) fun _ _ herr => herr.1
    rw [hpost.1, Option.some.inj haccount]
  · refine (Meets.leads (resolveAccountId_within requested).meets hkeep).mono (fun _ _ hw => hw)
      (fun a w h hpost => ⟨hpost.2, fun accountId haccount hproper => ?_⟩) fun _ _ herr => herr.1
    exact absurd ⟨accountId, haccount, hproper⟩ hnamed

/-- The lock brings the account into the scope of the call. -/
theorem refreshCredentials_sound (hinj : Function.Injective lib.fingerprint) (requested : Option String)
    (force : Bool) (hscope : ∀ h a, Unlocked h → (∀ accountId, requested = some accountId → ProperAccount accountId →
      a = accountId) → call.scope lib (h ++ [⟨.lockAccount a, ()⟩]) a) :
    Leads m (fun w h => AuthSound lib earlier call w h ∧ Unlocked h) (lib.refreshCredentials requested force)
      (fun credentials w h => AuthSound lib earlier call w h ∧ ∀ accountId, requested = some accountId →
        ProperAccount accountId → Obtained lib earlier call h accountId credentials.accessToken)
      (AuthSound lib earlier call) := by
  refine (resolveAccountId_sound requested).bind fun locked => leads_knowing (fun _ _ hw => hw.2) fun hlocked => ?_
  refine Leads.bind (Q := fun _ w h => AuthSound lib earlier call w h ∧ call.scope lib h locked)
    (leads_perform fun w h hw => ⟨(hw.1.1.harmless (m := m) (.lockAccount locked) trivial).2,
      hscope h locked hw.1.2 hlocked⟩) fun _ => ?_
  have hunlock {w : AuthWorld} {h : AuthHistory} (hw : AuthSound lib earlier call w h) :=
    (hw.harmless (m := m) (.unlockAccount locked) trivial).2
  refine ((refreshLocked_sound hinj locked force).unlocking (fun credentials w h hw =>
    ⟨hunlock hw.1, hw.2.append _⟩) fun w h hw => hunlock hw).mono (fun _ _ hw => hw)
    (fun credentials w h hw => ⟨hw.1, fun accountId haccount hproper => ?_⟩) fun _ _ herr => herr
  rw [← hlocked accountId haccount hproper]
  exact hw.2

theorem completeLogin_sound (hinj : Function.Injective lib.fingerprint) (redirectUri verifier : String) :
    Leads m (fun w h => AuthSound lib earlier (.login redirectUri verifier) w h ∧ h = [])
      (lib.completeLogin redirectUri verifier) (fun _ => AuthSound lib earlier (.login redirectUri verifier))
      (AuthSound lib earlier (.login redirectUri verifier)) := by
  have hnone : Leads m (fun w h => AuthSound lib earlier (.login redirectUri verifier) w h ∧ h = [])
      (ExceptT.mk (Procedure.perform AuthOp.waitForCallback))
      (fun _ w h => AuthSound lib earlier (.login redirectUri verifier) w h ∧ h.findSome? lib.namedBy = none)
      (AuthSound lib earlier (.login redirectUri verifier)) := by
    refine ⟨fun w h hw => ?_⟩
    have hafter := (hw.1.harmless (m := m) .waitForCallback trivial).2
    obtain rfl := hw.2
    show Ends _ _ w.input.callback w.tick [⟨.waitForCallback, w.input.callback⟩]
    cases hcallback : w.input.callback with
    | ok code => exact ⟨hw.1.tick _, rfl⟩
    | error error => exact hw.1.tick _
  refine hnone.bind fun code => ?_
  have hexchange : Leads m (fun w h => AuthSound lib earlier (.login redirectUri verifier) w h ∧
      h.findSome? lib.namedBy = none) (lib.exchangeAuthorizationCode code redirectUri verifier)
      (fun credentials w h => AuthSound lib earlier (.login redirectUri verifier) w h ∧ Gained lib none credentials h)
      (AuthSound lib earlier (.login redirectUri verifier)) :=
    (exchangeAuthorizationCode_sound code redirectUri verifier).pre fun _ _ hw => hw.1
  refine (hexchange.also fun w h hw => exchangeAuthorizationCode_named (fun _ _ => trivial) (fun _ => trivial) code
    redirectUri verifier hw.2).bind fun credentials => ?_
  refine Leads.bind (Q := fun accountId w h => lib.accountClaim credentials.idToken = some accountId ∧
      (AuthSound lib earlier (.login redirectUri verifier) w h ∧ Gained lib none credentials h) ∧
      h.findSome? lib.namedBy = lib.accountClaim credentials.idToken)
    (leads_okOr (fun accountId w h hclaim hw => ⟨hclaim, hw⟩) fun _ _ hw => hw.1.1) fun accountId => ?_
  refine leads_knowing (fun _ _ hw => hw.1) fun hclaim => ?_
  refine Leads.bind (Q := fun _ => AuthSound lib earlier (.login redirectUri verifier)) ?_ fun _ =>
    (Within.map (status_within (only_self accountId))).sound
  refine (storeCredentials_sound hinj credentials).mono (fun w h hw => ⟨hw.2.1.1, fun _ => ?_⟩)
    (fun _ _ _ hw => hw.1) fun _ _ herr => herr
  refine hw.2.1.2.obtained hclaim ?_ nofun
  show h.findSome? lib.namedBy = some accountId
  rw [hw.2.2, hclaim]

theorem bearer_sound (hinj : Function.Injective lib.fingerprint) (call : AuthCall)
    (hproper : ProperAccount accountId) (hscope : ∀ h, call.scope lib h accountId) (force : Bool) :
    Leads m (fun w h => AuthSound lib earlier call w h ∧ Unlocked h)
      (CodexCredentials.accessToken <$> lib.refreshCredentials (some accountId) force)
      (fun token w h => AuthSound lib earlier call w h ∧ Obtained lib earlier call h accountId token)
      (AuthSound lib earlier call) :=
  (refreshCredentials_sound hinj (some accountId) force fun _ _ _ ha =>
    ha accountId rfl hproper ▸ hscope _).map fun _ _ _ hw => ⟨hw.1, hw.2 accountId rfl hproper⟩

/-- Every call keeps the state sound, and a bearer call gives a token of its account. -/
theorem AuthCall.sound (hinj : Function.Injective lib.fingerprint) (hproper : call.Proper) :
    Leads m (fun w h => AuthSound lib earlier call w h ∧ h = []) (call.procedure lib)
      (fun reply w h => AuthSound lib earlier call w h ∧ ∀ accountId token, call = .bearer accountId → reply = .token token →
        Obtained lib earlier call h accountId token) (AuthSound lib earlier call) := by
  have hquiet {S : String → Prop} {α : Type} {x : AuthM α} {f : α → AuthReply} (hx : Within noLegacy lib S Nobody x)
      (hcall : ∀ accountId, call ≠ .bearer accountId) :
      Leads m (fun w h => AuthSound lib earlier call w h ∧ h = []) (f <$> x) (fun reply w h => AuthSound lib earlier call w h ∧
        ∀ accountId token, call = .bearer accountId → reply = .token token → Obtained lib earlier call h accountId token)
        (AuthSound lib earlier call) :=
    (hx.sound.map fun _ _ _ hw => ⟨hw, fun accountId _ h => absurd h (hcall accountId)⟩).pre fun _ _ hw => hw.1
  have hbegin {w : AuthWorld} {h : AuthHistory} (hw : AuthSound lib earlier call w h ∧ h = []) :
      AuthSound lib earlier call w h ∧ Unlocked h := ⟨hw.1, hw.2 ▸ rfl⟩
  cases call with
  | login redirectUri verifier => exact (completeLogin_sound hinj _ _).map fun _ _ _ hw => ⟨hw, nofun⟩
  | refresh requested force =>
    refine Leads.map (Q := fun _ => AuthSound lib earlier _) ?_ fun _ _ _ hw => ⟨hw, nofun⟩
    refine Leads.bind ((resolveAccountId_sound requested).pre fun _ _ => hbegin) fun accountId =>
      leads_knowing (fun _ _ hw => hw.2) fun hnamed => ?_
    refine Leads.bind (Q := fun _ => AuthSound lib earlier _) ?_ fun _ => (status_within (only_self accountId)).sound
    refine (refreshCredentials_sound hinj (some accountId) force fun h a hunlocked ha => ?_).mono
      (fun _ _ hw => hw.1) (fun _ _ _ hw => hw.1) fun _ _ herr => herr
    cases requested with
    | none =>
      refine ⟨a, ?_, .inl rfl⟩
      rw [findSome_snoc, show h.findSome? lockedBy = none from hunlocked]
      rfl
    | some named =>
      obtain rfl := hnamed named rfl hproper
      exact congrArg some (ha _ rfl hproper).symm
  | bearer accountId =>
    refine ((bearer_sound hinj (.bearer accountId) hproper (fun _ => rfl) false).pre fun _ _ => hbegin).map fun token w h hw => ⟨hw.1, fun accountId' token' hcall hreply => ?_⟩
    cases hcall
    cases hreply
    exact hw.2
  | forceRefresh accountId =>
    exact ((bearer_sound hinj (.forceRefresh accountId) hproper (fun _ => rfl) true).pre fun _ _ => hbegin).map fun _ _ _ hw => ⟨hw.1, nofun⟩
  | status accountId => exact hquiet (status_within (only_self accountId)) nofun
  | accounts => exact hproper.elim
  | logout accountId =>
    have hlogout : Within noLegacy lib (Only (trim accountId)) Nobody (lib.logout accountId) := logout_within (only_self _)
    exact hquiet hlogout nofun

end Tokens

/-! ## Sequences of calls -/

section Sequences
variable {lib : AuthLibrary} {earlier : List AuthRecord} {call : AuthCall} {w : AuthWorld} {h : AuthHistory}
  {accountId : String} {m : Nat}

/-- An entry of an account is touched in its scope only. -/
theorem AuthCall.Scoped.of_key (hinj : Function.Injective lib.fingerprint) {op : AuthOp} {kind : CredentialKind}
    (hop : call.Scoped lib h op) (hkey : op.key? = some (lib.accountSecret accountId kind)) :
    call.scope lib h accountId := by
  have hentry (key : SecretKey) (hkey : some key = some (lib.accountSecret accountId kind)) :
      key = .account (lib.fingerprint accountId) kind := Option.some.inj hkey
  rcases hop with hop | ⟨locked, rfl⟩
  · cases op with
    | get key | set key | delete key =>
      obtain rfl := hentry key hkey
      obtain ⟨a, ha, hfingerprint⟩ := hop
      rwa [hinj hfingerprint]
    | _ => cases hkey
  · cases hkey

/-- Without legacy entries, none is found, and none comes up. -/
theorem handle_noLegacy {op : AuthOp} (hw : ∀ kind, w.secrets (.legacy kind) = none) (hop : call.Scoped lib h op) :
    noLegacy op (AuthWorld.handle m op w).1 ∧ ∀ kind, (AuthWorld.handle m op w).2.secrets (.legacy kind) = none := by
  cases op with
  | get key =>
    refine ⟨?_, fun kind => ?_⟩
    · cases key with
      | legacy kind =>
        intro text htext
        simp only [AuthWorld.handle, AuthWorld.attempt, hw kind] at htext
        split at htext <;> cases htext
      | accountIndex | account => trivial
    · simp only [AuthWorld.handle, AuthWorld.attempt]
      split <;> exact hw kind
  | set key value =>
    refine ⟨by cases key <;> trivial, fun kind => ?_⟩
    have hne : SecretKey.legacy kind ≠ key := by
      rintro rfl
      rcases hop with hop | ⟨_, hop⟩
      · exact hop
      · cases hop
    simp only [AuthWorld.handle, AuthWorld.attempt]
    split
    · exact hw kind
    · rw [AuthWorld.secrets_tick, AuthWorld.secrets_write, if_neg hne]
      exact hw kind
  | delete key =>
    refine ⟨by cases key <;> trivial, fun kind => ?_⟩
    simp only [AuthWorld.handle, AuthWorld.attempt]
    split
    · exact hw kind
    · rw [AuthWorld.secrets_tick, AuthWorld.secrets_write, hw kind]
      exact ite_self _
  | _ => exact ⟨trivial, hw⟩

/-- The entries that a call touches are those of its account. -/
theorem AuthCall.record_scoped (hinj : Function.Injective lib.fingerprint) (hproper : call.Proper)
    (hw : ∀ kind, w.secrets (.legacy kind) = none) {e : Sigma AuthOp.Answer}
    (he : e ∈ (call.record lib m w).events) {kind : CredentialKind} (haccount : ProperAccount accountId)
    (hkey : e.1.key? = some (lib.accountSecret accountId kind)) :
    call.account lib (call.record lib m w).events = some accountId := by
  obtain ⟨before, after, hevents⟩ := List.append_of_mem he
  have hcalls := (Procedure.Sat.run (AuthWorld.handle m) (I := fun w => ∀ kind, w.secrets (.legacy kind) = none)
    (AuthCall.scoped hproper).sat hw fun h op w hw hop => handle_noLegacy hw hop).2.2 before e after hevents
  refine AuthCall.account_of_scope haccount (AuthCall.scope_prefix ?_ (hcalls.of_key hinj hkey))
  rw [List.nil_append, hevents]
  exact List.prefix_append _ _

/-- A call that is over is one of those that were. -/
theorem AuthSound.ended {record : AuthRecord} (hw : AuthSound lib earlier record.call w record.events) (next : AuthCall) :
    AuthSound lib (earlier ++ [record]) next w [] := by
  have hobtained {accountId token : String} (ht : Obtained lib earlier record.call record.events accountId token) :
      Obtained lib (earlier ++ [record]) next [] accountId token := by
    rcases ht with ⟨earlier, hearlier, ht⟩ | ht
    · exact .inl ⟨earlier, List.mem_append_left _ hearlier, ht⟩
    · exact .inl ⟨record, List.mem_append_right _ (List.mem_singleton_self _), ht⟩
  exact ⟨hw.legacy, fun accountId token ht => hobtained (hw.stored accountId token ht),
    fun m accountId credentials hc => hobtained (hw.cached m accountId credentials hc)⟩

theorem AuthCall.record_sound (hinj : Function.Injective lib.fingerprint) (hproper : call.Proper)
    (hw : AuthSound lib earlier call w []) :
    AuthSound lib earlier call ((call.procedure lib).run.run (AuthWorld.handle m) w).2 (call.record lib m w).events ∧
      ∀ accountId token, call = .bearer accountId → (call.record lib m w).result = .ok (.token token) →
        Obtained lib earlier call (call.record lib m w).events accountId token := by
  have hend := (AuthCall.sound (m := m) hinj hproper).triple w [] ⟨hw, rfl⟩
  rw [List.nil_append] at hend
  show AuthSound lib earlier call _ ((call.procedure lib).run.events (AuthWorld.handle m) w) ∧ ∀ accountId token, _ →
    ((call.procedure lib).run.run (AuthWorld.handle m) w).1 = _ → _
  revert hend
  cases ((call.procedure lib).run.run (AuthWorld.handle m) w).1 with
  | ok reply => exact fun hend => ⟨hend.1, fun accountId token hcall hreply => hend.2 accountId token hcall (Except.ok.inj hreply)⟩
  | error error => exact fun hend => ⟨hend, nofun⟩

/-- What a call after the calls `before` has to do with accounts. -/
structure KeptApart (lib : AuthLibrary) (before : List AuthRecord) (record : AuthRecord) : Prop where
  /-- A bearer call gives a token that a call on its account obtained with an ID token that claims it. -/
  bearer : ∀ accountId token, record.call = .bearer accountId → record.result = .ok (.token token) →
    ∃ obtaining ∈ before ++ [record], obtaining.call.account lib obtaining.events = some accountId ∧
      Together lib obtaining.events accountId token
  /-- The entries that the call touches are those of its account. -/
  entries : ∀ e ∈ record.events, ∀ accountId kind, ProperAccount accountId →
    e.1.key? = some (lib.accountSecret accountId kind) → record.call.account lib record.events = some accountId

theorem AuthCall.record_keptApart (hinj : Function.Injective lib.fingerprint) (hproper : call.Proper)
    (hw : AuthSound lib earlier call w []) : KeptApart lib earlier (call.record lib m w) where
  bearer accountId token hcall hresult := by
    have haccount : ProperAccount accountId := by
      obtain rfl : call = .bearer accountId := hcall
      exact hproper
    rcases (AuthCall.record_sound hinj hproper hw).2 accountId token hcall hresult with
      ⟨record, hrecord, hscope, ht⟩ | ⟨hscope, ht⟩
    · exact ⟨record, List.mem_append_left _ hrecord, AuthCall.account_of_scope haccount hscope, ht⟩
    · exact ⟨_, List.mem_append_right _ (List.mem_singleton_self _), AuthCall.account_of_scope haccount hscope, ht⟩
  entries _ he _ _ haccount hkey := AuthCall.record_scoped hinj hproper hw.legacy he haccount hkey

/-- **The accounts are kept apart**, whatever the token server answers and whichever calls of the secret store
fail. -/
theorem accounts_isolated (hinj : Function.Injective lib.fingerprint) {inputs : Nat → AuthInput}
    {as : List (Nat × AuthCall)} {tr : List AuthRecord} {w : AuthWorld}
    (hr : (authMachine lib).Run (fun _ a => a.2.Proper) (AuthWorld.start inputs) as tr w)
    {before after : List AuthRecord} {record : AuthRecord} (htr : tr = before ++ record :: after) :
    KeptApart lib before record := by
  have hall : (∀ call, AuthSound lib tr call w []) ∧ ∀ {before after : List AuthRecord} {record : AuthRecord},
      tr = before ++ record :: after → KeptApart lib before record := by
    refine hr.induction (P := fun tr w => (∀ call, AuthSound lib tr call w []) ∧
      ∀ {before after : List AuthRecord} {record : AuthRecord}, tr = before ++ record :: after →
        KeptApart lib before record)
      ⟨fun call => ⟨fun _ => rfl, nofun, nofun⟩, fun htr => absurd htr (by simp)⟩ fun _ hP hproper hs => ?_
    obtain ⟨rfl, rfl⟩ := Prod.mk.inj (Option.some.inj hs)
    refine ⟨fun next => (AuthCall.record_sound hinj hproper (hP.1 _)).1.ended next, fun htr => ?_⟩
    rcases List.append_eq_append_iff.1 htr with ⟨more, rfl, hlast⟩ | ⟨more, rfl, hlast⟩
    · cases more with
      | nil =>
        rw [List.append_nil]
        cases hlast
        exact AuthCall.record_keptApart hinj hproper (hP.1 _)
      | cons next more => simp at hlast
    · cases more with
      | nil =>
        rw [List.append_nil] at hP
        cases hlast
        exact AuthCall.record_keptApart hinj hproper (hP.1 _)
      | cons next more =>
        cases hlast
        exact hP.2 rfl
  exact hall.2 htr

/-- The texts of a login of the account `a`. -/
def loginTexts : List (Value × String) :=
  [(answerValue idTokenA "A" "R", answerText idTokenA "A" "R"), (metadataJson 1000, metadataText "1000"),
    (.array [CodexAccountRecord.toJson ⟨"a", none⟩], "[" ++ recordText "a" ++ "]")]

def loginInput (_ : Nat) : AuthInput := ⟨none, .ok ⟨200, answerText idTokenA "A" "R"⟩, .ok "code", 1000⟩

/-- A login of `a`, a bearer call of the same manager and one of another manager. -/
def loginCalls : List (Nat × AuthCall) :=
  [(0, .login "http://localhost:1455/auth/callback" "verifier"), (0, .bearer "a"), (1, .bearer "a")]

theorem accounts_isolated_login : ∃ (w : AuthWorld) (login first second : AuthRecord),
    (authMachine (.ofTable loginTexts)).exec (fun _ a => a.2.Proper) (.start loginInput) loginCalls =
        some (w, [login, first, second]) ∧
      second.result = .ok (.token "A") ∧ KeptApart (.ofTable loginTexts) [login, first] second := by
  have hexec : ∃ (w : AuthWorld) (login first second : AuthRecord),
      (authMachine (.ofTable loginTexts)).exec (fun _ a => a.2.Proper) (.start loginInput) loginCalls =
        some (w, [login, first, second]) ∧ second.result = .ok (.token "A") :=
    ⟨_, _, _, _, rfl, by decide +kernel⟩
  obtain ⟨w, login, first, second, hexec, hresult⟩ := hexec
  have hrun := Machine.run_of_exec (G := fun _ (a : Nat × AuthCall) => a.2.Proper) (fun _ _ hproper => of_decide_eq_true hproper) hexec
  exact ⟨w, login, first, second, hexec, hresult,
    accounts_isolated (AuthLibrary.ofTable_fingerprint_injective _) hrun rfl⟩

end Sequences

end Aifluxon
