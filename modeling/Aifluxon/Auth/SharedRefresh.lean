import Aifluxon.Auth.Migration
import Aifluxon.Auth.SignOuts
import Aifluxon.Lib.Cooperation

/-!
# What bearers share

Calls of `bearer` on one manager, for an account whose credentials need a refresh: what they agree on, and what
their operations do to it.

* `FoundAccount`, `FoundAccount.Due` : the account as the manager finds it, and what is given;
* `Shares` : what the calls observe of each other: who migrates, who has the lock of the account, what was posted;
* `FoundAccount.Inv`, `FoundAccount.Step` : what all calls keep, and what each guarantees to the others;
* `makes_lockMigrated`, .., `makes_setIndex` : the operations, one by one.
-/

namespace Aifluxon

open AuthM AuthLibrary Protocol

/-! ## The account -/

/-- An account as a manager finds it in a state: the list that it reads, and the credentials. -/
structure FoundAccount where
  lib : AuthLibrary
  manager : Nat
  accountId : String
  world : AuthWorld
  records : List CodexAccountRecord
  current : CodexCredentials
  now : Nat

abbrev TokenAnswer : Type := Except AuthError TokenHttpResponse

namespace FoundAccount
variable (x : FoundAccount)

/-- An answer of the token server with credentials of the account that need no refresh. -/
structure Renews (answer : TokenAnswer) (new : CodexCredentials) : Prop where
  read : x.lib.readAnswer .tokenRefresh "Codex OAuth refresh response is invalid." [x.current.refreshToken]
    (some x.current) x.now answer = .ok new
  claim : x.lib.accountClaim new.idToken = some x.accountId
  fresh : x.lib.shouldRefresh new x.now = false

/-- The JSON that a store of the credentials writes is printed. -/
structure Prints (new : CodexCredentials) : Prop where
  metadata : ∃ text, x.lib.serde.toString (metadataJson new.lastRefreshAt) = .ok text
  index : ∃ text, x.lib.printIndex
    (CodexAccountRecord.upsert ⟨x.accountId, x.lib.idTokenEmail new.idToken⟩ x.records) = .ok text

/-- The secret store works, the clock stands, the account is signed in and its credentials need a refresh, which
the token server grants. -/
structure Due : Prop where
  working : x.world.Working
  clock : ∀ n, (x.world.inputs n).now = x.now
  serde : x.lib.serde.Lawful
  proper : ProperAccount x.accountId
  migration : (x.world.managers x.manager).migratedLocked = false
  lock : (x.world.managers x.manager).accountLocked x.accountId = false
  listed : (exec x.manager x.lib.accountRecords x.world).1 = .ok x.records
  named : Names x.records x.accountId
  stored : (exec x.manager (x.lib.readCredentials x.accountId) x.world).1 = .ok x.current
  expired : x.lib.shouldRefresh x.current x.now = true
  renews : ∀ n, ∃ new, x.Renews (x.world.inputs n).answer new ∧ x.Prints new

end FoundAccount

/-! ## What the calls share -/

/-- Who migrates, who has the lock of the account, the answers of the token server, and whether the index has been
written since the migration. -/
structure Shares (ι : Type) where
  migrating : Option ι
  owner : Option ι
  posts : List TokenAnswer
  rewritten : Bool

def Shares.start {ι : Type} : Shares ι := ⟨none, none, [], false⟩

/-- The answer to a refresh request. -/
def postedAnswer : Sigma AuthOp.Answer → Option TokenAnswer
  | ⟨.postJson _, answer⟩ => some answer
  | _ => none

def Shares.note {ι : Type} (i : ι) (e : Sigma AuthOp.Answer) (γ : Shares ι) : Shares ι :=
  match e with
  | ⟨.lockMigrated, _⟩ => { γ with migrating := some i }
  | ⟨.unlockMigrated, _⟩ => { γ with migrating := none }
  | ⟨.setMigrated, _⟩ => { γ with rewritten := false }
  | ⟨.lockAccount _, _⟩ => { γ with owner := some i }
  | ⟨.unlockAccount _, _⟩ => { γ with owner := none }
  | ⟨.postJson _, answer⟩ => { γ with posts := γ.posts ++ [answer] }
  | ⟨.set .accountIndex _, _⟩ => { γ with rewritten := true }
  | _ => γ

/-- The answers to the refresh requests of a trace. -/
def refreshes {ι : Type} (tr : List (ι × Sigma AuthOp.Answer)) : List TokenAnswer :=
  tr.filterMap fun e => postedAnswer e.2

/-- Cached credentials of an account, and its entries. -/
abbrev AccountView : Type := Option CodexCredentials × (CredentialKind → Option String)

namespace FoundAccount
variable {ι : Type} (x : FoundAccount)

def cache (s : AuthWorld) : CodexManager := s.managers x.manager

def view (s : AuthWorld) : AccountView := ((x.cache s).credentials x.accountId, x.lib.entries x.accountId s)

/-- The entries hold the credentials. -/
structure Stored (entries : CredentialKind → Option String) (c : CodexCredentials) : Prop where
  accessToken : notBlank (entries .accessToken) = some c.accessToken
  refreshToken : notBlank (entries .refreshToken) = some c.refreshToken
  idToken : notBlank (entries .idToken) = some c.idToken
  metadata : ((notBlank (entries .metadata)).bind x.lib.parseMetadata).getD 0 = c.lastRefreshAt

/-- The credentials that the manager reads: the cached ones, or those of the entries. -/
def Reads (v : AccountView) (c : CodexCredentials) : Prop := v.1 = some c ∨ v.1 = none ∧ x.Stored v.2 c

/-- The credentials at hand are the ones from before any refresh, or those of the only one. -/
def Obtained (posts : List TokenAnswer) (rewritten : Bool) (c : CodexCredentials) : Prop :=
  posts = [] ∧ rewritten = false ∧ c = x.current ∨ ∃ answer, posts = [answer] ∧ x.Renews answer c

/-- A list that names the account; the one from before, as long as none has been written. -/
def ListOk (records : List CodexAccountRecord) (γ : Shares ι) : Prop :=
  Names records x.accountId ∧ (γ.rewritten = false → records = x.records)

/-- The text of an index with such a list. -/
def TextOk (entry : Option String) (γ : Shares ι) : Prop :=
  ∃ text records, notBlank entry = some text ∧ x.lib.parseIndex text = some records ∧
    x.ListOk (CodexAccountRecord.normalizeAll records) γ

structure IndexOk (s : AuthWorld) (γ : Shares ι) : Prop where
  cached : ∀ records, (x.cache s).records = some records → x.ListOk records γ
  stored : (x.cache s).records = none → x.TextOk (s.secrets .accountIndex) γ

/-- What all calls keep. -/
structure Inv (s : AuthWorld) (γ : Shares ι) : Prop where
  inputs : s.inputs = x.world.inputs
  migrating : (x.cache s).migratedLocked = γ.migrating.isSome
  owner : (x.cache s).accountLocked x.accountId = γ.owner.isSome
  /-- Before the migration nothing has happened, unless in the call that migrates. -/
  unmigrated : (x.cache s).migrated = false →
    γ.owner = none ∧ γ.posts = [] ∧ (γ.migrating = none → s = x.world)
  index : (x.cache s).migrated = true → x.IndexOk s γ
  settled : (x.cache s).migrated = true → γ.owner = none →
    ∃ c, x.Reads (x.view s) c ∧ x.Obtained γ.posts γ.rewritten c
  once : γ.posts.length ≤ 1

/-- A lock is asked for by a call that does not have it, the migration before the account. -/
def Ask (i : ι) : AuthOp → AuthWorld → Shares ι → Prop
  | .lockMigrated, _, γ => γ.migrating ≠ some i
  | .lockAccount accountId, _, γ => accountId = x.accountId ∧ γ.owner ≠ some i ∧ γ.migrating ≠ some i
  | _, _, _ => True

/-- What the call `i` guarantees to the others. -/
structure Step (i : ι) (s : AuthWorld) (γ : Shares ι) (s' : AuthWorld) (γ' : Shares ι) : Prop where
  migrating : ∀ j, j ≠ i → (γ'.migrating = some j ↔ γ.migrating = some j)
  owner : ∀ j, j ≠ i → (γ'.owner = some j ↔ γ.owner = some j)
  /-- Nobody else steps during the migration. -/
  alone : (x.cache s).migrated = false → ∀ j, γ.migrating = some j → j = i
  migrated : (x.cache s).migrated = true → (x.cache s').migrated = true
  account : ∀ j, j ≠ i → γ.owner = some j →
    x.view s' = x.view s ∧ γ'.posts = γ.posts ∧ γ'.rewritten = γ.rewritten
  rewritten : (x.cache s).migrated = true → γ.rewritten = true → γ'.rewritten = true
  text : (x.cache s).migrated = true → x.TextOk (s.secrets .accountIndex) γ → x.TextOk (s'.secrets .accountIndex) γ'
  posts : γ.posts ≠ [] → γ'.posts = γ.posts

/-- What the calls agree on. -/
def protocol : Protocol ι AuthWorld (Shares ι) AuthOp.Answer where
  enabled _ := AuthWorld.enabled x.manager
  handle _ := AuthWorld.handle x.manager
  note := Shares.note
  Inv := x.Inv
  Ask := x.Ask
  Step := x.Step

/-! ## Assertions -/

/-- The call has neither lock. -/
def Idle (i : ι) (_ : AuthWorld) (γ : Shares ι) : Prop := γ.migrating ≠ some i ∧ γ.owner ≠ some i

/-- And the migration is done. -/
def Waiting (i : ι) (s : AuthWorld) (γ : Shares ι) : Prop := (x.cache s).migrated = true ∧ Idle i s γ

/-- The call has the lock of the account, and `K` holds of the account. -/
def Owning (K : AccountView → List TokenAnswer → Bool → Prop) (i : ι) (s : AuthWorld) (γ : Shares ι) : Prop :=
  (x.cache s).migrated = true ∧ γ.migrating ≠ some i ∧ γ.owner = some i ∧ K (x.view s) γ.posts γ.rewritten

end FoundAccount

namespace FoundAccount

variable {ι : Type} {x : FoundAccount} {s s' : AuthWorld} {γ γ' : Shares ι} {i j : ι}
  {K : AccountView → List TokenAnswer → Bool → Prop}

theorem stable_idle : x.protocol.Stable i (Idle i) := by
  rintro j s γ s' γ' hj - hstep ⟨hmigrating, howner⟩
  refine ⟨?_, ?_⟩
  · rwa [Ne, hstep.migrating i hj.symm]
  · rwa [Ne, hstep.owner i hj.symm]

theorem stable_waiting : x.protocol.Stable i (x.Waiting i) := by
  rintro j s γ s' γ' hj hI hstep ⟨hm, hidle⟩
  exact ⟨hstep.migrated hm, stable_idle j s γ s' γ' hj hI hstep hidle⟩

/-- The others leave the account of the owner alone. -/
theorem stable_owning : x.protocol.Stable i (x.Owning K i) := by
  rintro j s γ s' γ' hj - hstep ⟨hm, hmigrating, howner, hK⟩
  obtain ⟨hview, hposts, hrewritten⟩ := hstep.account i hj.symm howner
  refine ⟨hstep.migrated hm, ?_, (hstep.owner i hj.symm).2 howner, ?_⟩
  · rwa [Ne, hstep.migrating i hj.symm]
  · rwa [hview, hposts, hrewritten]

/-- A list that is read stays one of the account. -/
theorem ListOk.step {records : List CodexAccountRecord} (h : x.ListOk records γ)
    (hrewritten : γ.rewritten = true → γ'.rewritten = true) : x.ListOk records γ' := by
  refine ⟨h.1, fun hfalse => h.2 ?_⟩
  cases hbefore : γ.rewritten with
  | false => rfl
  | true =>
    rw [hrewritten hbefore] at hfalse
    cases hfalse

theorem TextOk.step {entry : Option String} (h : x.TextOk entry γ)
    (hrewritten : γ.rewritten = true → γ'.rewritten = true) : x.TextOk entry γ' := by
  obtain ⟨text, records, htext, hparse, hlist⟩ := h
  exact ⟨text, records, htext, hparse, hlist.step hrewritten⟩

/-! ## Operations -/

@[simp] theorem cache_tick : x.cache s.tick = x.cache s := rfl

@[simp] theorem cache_write (key : SecretKey) (value : Option String) : x.cache (s.write key value) = x.cache s := rfl

@[simp] theorem cache_modify (f : CodexManager → CodexManager) : x.cache (s.modify x.manager f) = f (x.cache s) := by
  simp [cache]

@[simp] theorem view_tick : x.view s.tick = x.view s := rfl

@[simp] theorem view_modify (f : CodexManager → CodexManager) :
    x.view (s.modify x.manager f) = ((f (x.cache s)).credentials x.accountId, (x.view s).2) := by
  rw [view, cache_modify]
  rfl

@[simp] theorem view_eta : ((x.cache s).credentials x.accountId, (x.view s).2) = x.view s := rfl

theorem Inv.working (h : x.Due) (hI : x.Inv s γ) : s.Working := fun n => by
  rw [hI.inputs]
  exact h.working n

/-- What is left to show of a state after the migration. -/
theorem inv_of_migrated (hI : x.Inv s γ) (hinputs : s'.inputs = s.inputs) (hm : (x.cache s').migrated = true)
    (hmigrating : (x.cache s').migratedLocked = γ'.migrating.isSome)
    (howner : (x.cache s').accountLocked x.accountId = γ'.owner.isSome) (hindex : x.IndexOk s' γ')
    (hsettled : γ'.owner = none → ∃ c, x.Reads (x.view s') c ∧ x.Obtained γ'.posts γ'.rewritten c)
    (honce : γ.posts.length ≤ 1 → γ'.posts.length ≤ 1) : x.Inv s' γ' where
  inputs := by rw [hinputs, hI.inputs]
  migrating := hmigrating
  owner := howner
  unmigrated hfalse := by
    rw [hm] at hfalse
    cases hfalse
  index _ := hindex
  settled _ := hsettled
  once := honce hI.once

theorem step_of_same (hm : (x.cache s).migrated = true) (hm' : (x.cache s').migrated = true)
    (hview : x.view s' = x.view s) (hindex : s'.secrets .accountIndex = s.secrets .accountIndex) :
    x.Step i s γ s' γ where
  migrating _ _ := Iff.rfl
  owner _ _ := Iff.rfl
  alone hfalse := by
    rw [hm] at hfalse
    cases hfalse
  migrated _ := hm'
  account _ _ _ := ⟨hview, rfl, rfl⟩
  rewritten _ h := h
  text _ h := by rwa [hindex]
  posts _ := rfl

/-- An operation that reads. -/
theorem makes_reading (h : x.Due) {op : AuthOp} {A : AuthWorld → Shares ι → Prop}
    {B : op.Answer → AuthWorld → Shares ι → Prop}
    (hop : ∀ s : AuthWorld, s.Working → (AuthWorld.handle x.manager op s).2 = s.tick)
    (hnote : ∀ r (γ : Shares ι), Shares.note i ⟨op, r⟩ γ = γ) (hask : ∀ s γ, x.Ask i op s γ)
    (hA : ∀ s γ, A s γ → (x.cache s).migrated = true) (hstable : ∀ r, x.protocol.Stable i (B r))
    (hpost : ∀ s γ, x.Inv s γ → A s γ → B (AuthWorld.handle x.manager op s).1 s.tick γ) :
    x.protocol.Makes i A op B where
  ask s γ _ _ := hask s γ
  stable := hstable
  inv s γ hI hs _ := by
    show x.Inv (AuthWorld.handle x.manager op s).2 (Shares.note i ⟨op, _⟩ γ)
    rw [hnote, hop s (Inv.working h hI)]
    have hm := hA s γ hs
    exact inv_of_migrated hI rfl hm hI.migrating hI.owner ⟨(hI.index hm).cached, (hI.index hm).stored⟩ (hI.settled hm) id
  step s γ hI hs _ := by
    show x.Step i s γ (AuthWorld.handle x.manager op s).2 (Shares.note i ⟨op, _⟩ γ)
    rw [hnote, hop s (Inv.working h hI)]
    exact step_of_same (hA s γ hs) (hA s γ hs) rfl rfl
  post s γ hI hs _ := by
    show B _ (AuthWorld.handle x.manager op s).2 (Shares.note i ⟨op, _⟩ γ)
    rw [hnote, hop s (Inv.working h hI)]
    exact hpost s γ hI hs

/-- A list is cached. -/
theorem makes_cacheRecords {F : AuthWorld → Shares ι → Prop} (records : List CodexAccountRecord)
    (hm : ∀ s γ, F s γ → (x.cache s).migrated = true) (hstable : x.protocol.Stable i F)
    (hF : ∀ s γ s', x.view s' = x.view s → (x.cache s').migrated = (x.cache s).migrated → F s γ → F s' γ) :
    x.protocol.Makes i (fun s γ => F s γ ∧ x.ListOk records γ) (.cacheRecords records) fun _ => F where
  ask _ _ _ _ := trivial
  stable _ := hstable
  inv s γ hI hs _ := by
    have hms := hm s γ hs.1
    refine inv_of_migrated hI rfl ?_ ?_ ?_ ⟨fun R hR => ?_, fun hnone => ?_⟩ ?_ id
    · simpa [protocol, AuthWorld.handle] using hms
    · simpa [protocol, AuthWorld.handle, Shares.note] using hI.migrating
    · simpa [protocol, AuthWorld.handle, Shares.note] using hI.owner
    · simp only [protocol, AuthWorld.handle, cache_tick, cache_modify, Option.some.injEq] at hR
      rw [← hR]
      exact hs.2
    · simp [protocol, AuthWorld.handle] at hnone
    · simpa [protocol, AuthWorld.handle, Shares.note] using hI.settled hms
  step s γ _ hs _ := by
    have hms := hm s γ hs.1
    refine step_of_same hms ?_ ?_ rfl
    · simpa [protocol, AuthWorld.handle] using hms
    · simp only [protocol, AuthWorld.handle, view_tick, view_modify]
      rfl
  post s γ _ hs _ := by
    refine hF s γ _ ?_ ?_ hs.1
    · simp only [protocol, AuthWorld.handle, view_tick, view_modify]
      rfl
    · simp [protocol, AuthWorld.handle]

/-! ## The lock of the migration -/

/-- The lock is taken. -/
theorem makes_lockMigrated {A : AuthWorld → Shares ι → Prop} {B : Bool → AuthWorld → Shares ι → Prop}
    (hA : ∀ s γ, A s γ → γ.migrating ≠ some i) (hstable : ∀ r, x.protocol.Stable i (B r))
    (hpost : ∀ s γ, x.Inv s γ → A s γ → γ.migrating = none →
      B (x.cache s).migrated (s.modify x.manager fun c => { c with migratedLocked := true }).tick
        { γ with migrating := some i }) :
    x.protocol.Makes i A .lockMigrated B := by
  have hfree {s : AuthWorld} {γ : Shares ι} (hI : x.Inv s γ)
      (henabled : AuthWorld.enabled x.manager .lockMigrated s = true) : γ.migrating = none := by
    have hlock := hI.migrating
    rw [AuthWorld.enabled, Bool.not_eq_true'] at henabled
    rw [cache, henabled] at hlock
    simpa using hlock.symm
  refine ⟨fun s γ _ hs => hA s γ hs, hstable, fun s γ hI _ henabled => ?_, fun s γ hI _ henabled => ?_,
    fun s γ hI hs henabled => hpost s γ hI hs (hfree hI henabled)⟩
  · refine ⟨hI.inputs, ?_, ?_, fun hm => ?_, fun hm => ?_, fun hm => ?_, hI.once⟩
    · simp [protocol, AuthWorld.handle, Shares.note]
    · simpa [protocol, AuthWorld.handle, Shares.note] using hI.owner
    · simp only [protocol, AuthWorld.handle, cache_tick, cache_modify] at hm
      obtain ⟨howner, hposts, -⟩ := hI.unmigrated hm
      exact ⟨howner, hposts, fun hnone => by cases hnone⟩
    · simp only [protocol, AuthWorld.handle, cache_tick, cache_modify] at hm
      have hindex := hI.index hm
      refine ⟨fun R hR => hindex.cached R ?_, fun hnone => hindex.stored ?_⟩
      · simpa [protocol, AuthWorld.handle] using hR
      · simpa [protocol, AuthWorld.handle] using hnone
    · simp only [protocol, AuthWorld.handle, cache_tick, cache_modify] at hm
      simpa [protocol, AuthWorld.handle, Shares.note] using hI.settled hm
  · have hnone := hfree hI henabled
    refine ⟨fun j hj => ?_, fun _ _ => Iff.rfl, fun _ j hj => ?_, fun hm => ?_, fun j _ _ => ⟨?_, rfl, rfl⟩,
      fun _ h => h, fun _ h => h, fun _ => rfl⟩
    · simp [protocol, Shares.note, hnone, hj.symm]
    · rw [hnone] at hj
      cases hj
    · simpa [protocol, AuthWorld.handle] using hm
    · simp [protocol, AuthWorld.handle]

/-- The lock is given back. -/
theorem makes_unlockMigrated {A B : AuthWorld → Shares ι → Prop}
    (hA : ∀ s γ, A s γ → (x.cache s).migrated = true ∧ γ.migrating = some i) (hstable : x.protocol.Stable i B)
    (hpost : ∀ s γ, A s γ →
      B (s.modify x.manager fun c => { c with migratedLocked := false }).tick { γ with migrating := none }) :
    x.protocol.Makes i A .unlockMigrated fun _ => B := by
  refine ⟨fun _ _ _ _ => trivial, fun _ => hstable, fun s γ hI hs _ => ?_, fun s γ hI hs _ => ?_,
    fun s γ _ hs _ => hpost s γ hs⟩
  · obtain ⟨hm, -⟩ := hA s γ hs
    have hindex := hI.index hm
    refine inv_of_migrated hI rfl ?_ ?_ ?_ ⟨fun R hR => hindex.cached R ?_, fun hnone => hindex.stored ?_⟩ ?_ id
    · simpa [protocol, AuthWorld.handle] using hm
    · simp [protocol, AuthWorld.handle, Shares.note]
    · simpa [protocol, AuthWorld.handle, Shares.note] using hI.owner
    · simpa [protocol, AuthWorld.handle] using hR
    · simpa [protocol, AuthWorld.handle] using hnone
    · simpa [protocol, AuthWorld.handle, Shares.note] using hI.settled hm
  · obtain ⟨hm, hmigrating⟩ := hA s γ hs
    refine ⟨fun j hj => ?_, fun _ _ => Iff.rfl, fun hfalse => ?_, fun _ => ?_, fun j _ _ => ⟨?_, rfl, rfl⟩,
      fun _ h => h, fun _ h => h, fun _ => rfl⟩
    · simp [protocol, Shares.note, hmigrating, hj.symm]
    · rw [hm] at hfalse
      cases hfalse
    · simpa [protocol, AuthWorld.handle] using hm
    · simp [protocol, AuthWorld.handle]

/-! ## The lock of the account -/

/-- Who takes the lock finds credentials that are read. -/
theorem makes_lockAccount : x.protocol.Makes i (x.Waiting i) (.lockAccount x.accountId) fun _ s γ =>
    ∃ c, x.Owning (fun v posts rewritten => x.Reads v c ∧ x.Obtained posts rewritten c) i s γ := by
  have hfree {s : AuthWorld} {γ : Shares ι} (hI : x.Inv s γ)
      (henabled : AuthWorld.enabled x.manager (.lockAccount x.accountId) s = true) : γ.owner = none := by
    have hlock := hI.owner
    rw [AuthWorld.enabled, Bool.not_eq_true'] at henabled
    rw [cache, henabled] at hlock
    simpa using hlock.symm
  refine ⟨fun s γ _ hs => ⟨rfl, hs.2.2, hs.2.1⟩, fun _ => ?_, fun s γ hI hs henabled => ?_,
    fun s γ hI hs henabled => ?_, fun s γ hI hs henabled => ?_⟩
  · rintro j s γ s' γ' hj hI hstep ⟨c, hown⟩
    exact ⟨c, stable_owning j s γ s' γ' hj hI hstep hown⟩
  · have hindex := hI.index hs.1
    refine inv_of_migrated hI rfl ?_ ?_ ?_ ⟨fun R hR => hindex.cached R ?_, fun hnone => hindex.stored ?_⟩ ?_ id
    · simpa [protocol, AuthWorld.handle] using hs.1
    · simpa [protocol, AuthWorld.handle, Shares.note] using hI.migrating
    · simp [protocol, AuthWorld.handle, Shares.note]
    · simpa [protocol, AuthWorld.handle] using hR
    · simpa [protocol, AuthWorld.handle] using hnone
    · simp [protocol, Shares.note]
  · have hnone := hfree hI henabled
    refine ⟨fun _ _ => Iff.rfl, fun j hj => ?_, fun hfalse => ?_, fun _ => ?_, fun j _ hj => ?_,
      fun _ h => h, fun _ h => h, fun _ => rfl⟩
    · simp [protocol, Shares.note, hnone, hj.symm]
    · rw [hs.1] at hfalse
      cases hfalse
    · simpa [protocol, AuthWorld.handle] using hs.1
    · rw [hnone] at hj
      cases hj
  · obtain ⟨c, hreads, hobtained⟩ := hI.settled hs.1 (hfree hI henabled)
    refine ⟨c, ?_, hs.2.1, rfl, ?_, hobtained⟩
    · simpa [protocol, AuthWorld.handle] using hs.1
    · simpa [protocol, AuthWorld.handle] using hreads

/-- The credentials `c` are those of the only refresh. -/
def Done (x : FoundAccount) (c : CodexCredentials) (v : AccountView) (posts : List TokenAnswer) (_ : Bool) : Prop :=
  v.1 = some c ∧ ∃ answer, posts = [answer] ∧ x.Renews answer c

/-- The call has given back its locks, after the only refresh. -/
def Released (x : FoundAccount) (i : ι) (c : CodexCredentials) (s : AuthWorld) (γ : Shares ι) : Prop :=
  x.Waiting i s γ ∧ ∃ answer, γ.posts = [answer] ∧ x.Renews answer c

theorem stable_released {c : CodexCredentials} : x.protocol.Stable i (x.Released i c) := by
  rintro j s γ s' γ' hj hI hstep ⟨hwaiting, answer, hposts, hrenews⟩
  refine ⟨stable_waiting j s γ s' γ' hj hI hstep hwaiting, answer, ?_, hrenews⟩
  rw [hstep.posts (by rw [hposts]; exact List.cons_ne_nil _ _), hposts]

theorem makes_unlockAccount {c : CodexCredentials} : x.protocol.Makes i (x.Owning (x.Done c) i)
    (.unlockAccount x.accountId) fun _ => x.Released i c := by
  refine ⟨fun _ _ _ _ => trivial, fun _ => stable_released, fun s γ hI hs _ => ?_, fun s γ hI hs _ => ?_,
    fun s γ hI hs _ => ?_⟩
  · obtain ⟨hm, -, -, hcached, answer, hposts, hrenews⟩ := hs
    have hindex := hI.index hm
    refine inv_of_migrated hI rfl ?_ ?_ ?_ ⟨fun R hR => hindex.cached R ?_, fun hnone => hindex.stored ?_⟩
      (fun _ => ⟨c, .inl ?_, .inr ⟨answer, hposts, hrenews⟩⟩) id
    · simpa [protocol, AuthWorld.handle] using hm
    · simpa [protocol, AuthWorld.handle, Shares.note] using hI.migrating
    · simp [protocol, AuthWorld.handle, Shares.note]
    · simpa [protocol, AuthWorld.handle] using hR
    · simpa [protocol, AuthWorld.handle] using hnone
    · simpa [protocol, AuthWorld.handle] using hcached
  · obtain ⟨hm, -, howner, -⟩ := hs
    refine ⟨fun _ _ => Iff.rfl, fun j hj => ?_, fun hfalse => ?_, fun _ => ?_, fun j hj hown => ?_,
      fun _ h => h, fun _ h => h, fun _ => rfl⟩
    · simp [protocol, Shares.note, howner, hj.symm]
    · rw [hm] at hfalse
      cases hfalse
    · simpa [protocol, AuthWorld.handle] using hm
    · rw [howner, Option.some.injEq] at hown
      exact absurd hown.symm hj
  · obtain ⟨hm, hmigrating, -, -, answer, hposts, hrenews⟩ := hs
    refine ⟨⟨?_, hmigrating, ?_⟩, answer, hposts, hrenews⟩
    · simpa [protocol, AuthWorld.handle] using hm
    · simp [protocol, Shares.note]

/-! ## Operations of the owner -/

/-- A step that keeps the locks. -/
structure OwnStep (x : FoundAccount) (s : AuthWorld) (γ : Shares ι) (s' : AuthWorld) (γ' : Shares ι) : Prop where
  inputs : s'.inputs = s.inputs
  migrated : (x.cache s').migrated = (x.cache s).migrated
  migratedLocked : (x.cache s').migratedLocked = (x.cache s).migratedLocked
  accountLocked : (x.cache s').accountLocked = (x.cache s).accountLocked
  migrating : γ'.migrating = γ.migrating
  owner : γ'.owner = γ.owner
  index : x.IndexOk s γ → x.IndexOk s' γ'
  rewritten : γ.rewritten = true → γ'.rewritten = true
  text : x.TextOk (s.secrets .accountIndex) γ → x.TextOk (s'.secrets .accountIndex) γ'
  posts : γ.posts ≠ [] → γ'.posts = γ.posts
  once : γ.posts.length ≤ 1 → γ'.posts.length ≤ 1

theorem OwnStep.inv (h : x.OwnStep s γ s' γ') (hI : x.Inv s γ) (hown : x.Owning K i s γ) : x.Inv s' γ' := by
  obtain ⟨hm, -, howner, -⟩ := hown
  refine inv_of_migrated hI h.inputs ?_ ?_ ?_ (h.index (hI.index hm)) (fun hnone => ?_) h.once
  · rw [h.migrated, hm]
  · rw [h.migratedLocked, h.migrating, hI.migrating]
  · rw [h.accountLocked, h.owner, hI.owner]
  · rw [h.owner, howner] at hnone
    cases hnone

theorem OwnStep.step (h : x.OwnStep s γ s' γ') (hown : x.Owning K i s γ) : x.Step i s γ s' γ' := by
  obtain ⟨hm, -, howner, -⟩ := hown
  refine ⟨fun j _ => by rw [h.migrating], fun j _ => by rw [h.owner], fun hfalse => ?_, fun _ => by rw [h.migrated, hm],
    fun j hj hown => ?_, fun _ => h.rewritten, fun _ => h.text, h.posts⟩
  · rw [hm] at hfalse
    cases hfalse
  · rw [howner, Option.some.injEq] at hown
    exact absurd hown.symm hj

/-- An operation of the owner. -/
theorem makes_owning {op : AuthOp} {B : op.Answer → AuthWorld → Shares ι → Prop} (hask : ∀ s γ, x.Ask i op s γ)
    (hstable : ∀ r, x.protocol.Stable i (B r))
    (hstep : ∀ s γ, x.Inv s γ → x.Owning K i s γ → x.OwnStep s γ (AuthWorld.handle x.manager op s).2
      (Shares.note i ⟨op, (AuthWorld.handle x.manager op s).1⟩ γ))
    (hpost : ∀ s γ, x.Inv s γ → x.Owning K i s γ → B (AuthWorld.handle x.manager op s).1
      (AuthWorld.handle x.manager op s).2 (Shares.note i ⟨op, (AuthWorld.handle x.manager op s).1⟩ γ)) :
    x.protocol.Makes i (x.Owning K i) op B :=
  ⟨fun s γ _ _ => hask s γ, hstable, fun s γ hI hs _ => (hstep s γ hI hs).inv hI hs,
    fun s γ hI hs _ => (hstep s γ hI hs).step hs, fun s γ hI hs _ => hpost s γ hI hs⟩

/-- The refresh has been answered. -/
def Posted (answer : TokenAnswer) (rewritten : Bool) (_ : AccountView) (posts : List TokenAnswer) (b : Bool) : Prop :=
  posts = [answer] ∧ b = rewritten

theorem makes_setEntry (h : x.Due) {answer : TokenAnswer} {rewritten : Bool} (kind : CredentialKind) (value : String) :
    x.protocol.Makes i (x.Owning (Posted answer rewritten) i) (.set (x.lib.accountSecret x.accountId kind) value)
      fun r s γ => r = .ok () ∧ x.Owning (Posted answer rewritten) i s γ := by
  refine makes_owning (fun _ _ => trivial) (fun r => (stable_const _).and stable_owning) (fun s γ hI hs => ?_)
    fun s γ hI hs => ?_
  · rw [AuthWorld.handle_set (Inv.working h hI)]
    refine ⟨rfl, rfl, rfl, rfl, rfl, rfl, fun hindex => ⟨hindex.cached, fun hnone => ?_⟩, id, fun htext => ?_,
      fun _ => rfl, id⟩
    · have htext := hindex.stored hnone
      simpa [AuthLibrary.accountSecret, Shares.note] using htext
    · simpa [AuthLibrary.accountSecret, Shares.note] using htext
  · rw [AuthWorld.handle_set (Inv.working h hI)]
    exact ⟨rfl, hs⟩

theorem makes_cacheCredentials {K : List TokenAnswer → Bool → Prop} {L : AccountView → List TokenAnswer → Bool → Prop}
    (c : CodexCredentials) (hK : ∀ v posts b, L v posts b → K posts b) :
    x.protocol.Makes i (x.Owning L i) (.cacheCredentials x.accountId c)
      fun _ => x.Owning (fun v posts b => v.1 = some c ∧ K posts b) i := by
  refine makes_owning (fun _ _ => trivial) (fun r => stable_owning) (fun s γ hI hs => ?_) fun s γ hI hs => ?_
  · refine ⟨rfl, ?_, ?_, ?_, rfl, rfl, fun hindex => ⟨fun R hR => hindex.cached R ?_, fun hnone => hindex.stored ?_⟩, id,
      id, fun _ => rfl, id⟩
    · simp [AuthWorld.handle]
    · simp [AuthWorld.handle]
    · simp [AuthWorld.handle]
    · simpa [AuthWorld.handle] using hR
    · simpa [AuthWorld.handle] using hnone
  · obtain ⟨hm, hmigrating, howner, hKs⟩ := hs
    refine ⟨?_, hmigrating, howner, ?_, hK _ _ _ hKs⟩
    · simpa [AuthWorld.handle] using hm
    · simp [AuthWorld.handle]

/-- **The refresh**: its answer gives new credentials. -/
theorem makes_postJson (h : x.Due) (body : Value) :
    x.protocol.Makes i (x.Owning (fun _ posts b => posts = [] ∧ b = false) i) (.postJson body) fun answer s γ =>
      ∃ new, (x.Renews answer new ∧ x.Prints new) ∧ x.Owning (Posted answer false) i s γ := by
  refine makes_owning (fun _ _ => trivial) (fun r => ?_) (fun s γ hI hs => ?_) fun s γ hI hs => ?_
  · rintro j s γ s' γ' hj hI hstep ⟨new, hnew, hs⟩
    exact ⟨new, hnew, stable_owning j s γ s' γ' hj hI hstep hs⟩
  · obtain ⟨-, -, -, hposts, -⟩ := hs
    refine ⟨rfl, rfl, rfl, rfl, rfl, rfl, fun hindex => ⟨hindex.cached, hindex.stored⟩, id, id,
      fun hne => absurd hposts hne, fun _ => ?_⟩
    show (γ.posts ++ _).length ≤ 1
    rw [hposts]
    exact le_rfl
  · obtain ⟨hm, hmigrating, howner, hposts, hrewritten⟩ := hs
    obtain ⟨new, hnew⟩ := h.renews s.clock
    refine ⟨new, ?_, hm, hmigrating, howner, ?_, hrewritten⟩
    · show x.Renews (s.inputs s.clock).answer new ∧ _
      rwa [hI.inputs]
    · show γ.posts ++ _ = _
      rw [hposts]
      rfl

/-- **The index** is written with a list that names the account. -/
theorem makes_setIndex (h : x.Due) {answer : TokenAnswer} {text : String} {records : List CodexAccountRecord}
    (htext : x.lib.printIndex records = .ok text) (hnamed : Names records x.accountId) :
    x.protocol.Makes i (x.Owning (Posted answer false) i) (.set .accountIndex text)
      fun r s γ => r = .ok () ∧ x.Owning (Posted answer true) i s γ := by
  obtain ⟨hparse, hblank⟩ := parseIndex_printIndex h.serde htext
  have hok {γ : Shares ι} (hrewritten : γ.rewritten = true) : x.TextOk (some text) γ := by
    refine ⟨text, records, ?_, hparse, ?_, fun hfalse => ?_⟩
    · rw [notBlank, Option.filter_some, if_pos (by simpa using hblank)]
    · obtain ⟨record, hrecord, hid⟩ := hnamed
      refine CodexAccountRecord.names_normalizeAll.2 ⟨h.proper.2, record, hrecord, ?_⟩
      rw [hid, h.proper.1]
    · rw [hrewritten] at hfalse
      cases hfalse
  refine makes_owning (fun _ _ => trivial) (fun r => (stable_const _).and stable_owning) (fun s γ hI hs => ?_)
    fun s γ hI hs => ?_
  · rw [AuthWorld.handle_set (Inv.working h hI)]
    have hindex : ((s.write .accountIndex (some text)).tick).secrets .accountIndex = some text := by simp
    refine ⟨rfl, rfl, rfl, rfl, rfl, rfl, fun hbefore => ⟨fun R hR => ?_, fun _ => ?_⟩, fun _ => rfl, fun _ => ?_,
      fun _ => rfl, id⟩
    · exact (hbefore.cached R hR).step fun _ => rfl
    · rw [hindex]
      exact hok rfl
    · rw [hindex]
      exact hok rfl
  · rw [AuthWorld.handle_set (Inv.working h hI)]
    obtain ⟨hm, hmigrating, howner, hposts, -⟩ := hs
    exact ⟨rfl, hm, hmigrating, howner, hposts, rfl⟩

end FoundAccount

end Aifluxon
