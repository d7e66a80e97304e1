import Aifluxon.Auth.FreshManager

/-!
# Stored logins

Calls one after another on managers over one secret store, and what each account has obtained last.

* `Ledger`, `AuthCall.obtains` : the credentials that a login or a refresh has come to store; `ledgerMachine`;
* `AuthLibrary.LegacyAside` : the legacy entries will not be migrated over an account, and can be migrated;
* `obtains_readable`, `storeCredentials_stored` : what is obtained, and what is stored;
* `LedgerKept`, `LedgerKept.call` : the credentials stay in the store, call by call; `logins_stay` : and in any sequence;
* `login_is_overwritten` : a login before the migration.
-/

namespace Aifluxon

open AuthM AuthLibrary

/-! ## What has been obtained -/

/-- The credentials that each account has obtained last. -/
abbrev Ledger : Type := String → Option CodexCredentials

namespace Ledger

def empty : Ledger := fun _ => none

def enter (L : Ledger) : Option (String × CodexCredentials) → Ledger
  | some (accountId, credentials) => Function.update L accountId (some credentials)
  | none => L

end Ledger

/-- What a login obtains that begins now, and for which account. -/
def AuthLibrary.exchanged (lib : AuthLibrary) (verifier : String) (w : AuthWorld) : Option (String × CodexCredentials) := do
  let code ← (w.inputs w.clock).callback.toOption
  let credentials ← (lib.readAnswer .tokenExchange "Codex OAuth response is invalid." [code, verifier] none
    (w.inputs (w.clock + 2)).now (w.inputs (w.clock + 1)).answer).toOption
  let accountId ← lib.accountClaim credentials.idToken
  return (accountId, credentials)

/-- What a refresh has come to store. -/
def renewed : Except AuthError (String × CodexCredentials × Bool) → Option (String × CodexCredentials)
  | .ok (accountId, credentials, true) => some (accountId, credentials)
  | _ => none

namespace AuthCall
variable (lib : AuthLibrary) (m : Nat) (w : AuthWorld)

/-- The new credentials that a call comes to store. -/
def obtains : AuthCall → Option (String × CodexCredentials)
  | login _ verifier => lib.exchanged verifier w
  | refresh requested force =>
    renewed (exec m (lib.resolveAccountId requested >>= fun a => lib.upToStore (some a) force) w).1
  | bearer accountId => renewed (exec m (lib.upToStore (some accountId) false) w).1
  | forceRefresh accountId => renewed (exec m (lib.upToStore (some accountId) true) w).1
  | status _ | accounts | logout _ => none

/-- An account that is signed out has nothing. -/
def ledger (call : AuthCall) (L : Ledger) : Ledger :=
  match call with
  | logout accountId => if trim accountId = "" then L else Function.update L (trim accountId) none
  | call => L.enter (call.obtains lib m w)

end AuthCall

/-- One call after another, and what has been obtained. -/
def ledgerMachine (lib : AuthLibrary) : Machine (AuthWorld × Ledger) (Nat × AuthCall) AuthRecord where
  step s a := ((authMachine lib).step s.1 a).map fun next => ((next.1, a.2.ledger lib a.1 s.1 s.2), next.2)

/-- The credentials obtained last are in the store, and a fresh manager reads them. -/
structure LedgerHeld (lib : AuthLibrary) (s : AuthWorld × Ledger) : Prop where
  stored : ∀ a c, s.2 a = some c → lib.entries a s.1 = lib.newEntries c
  read : ∀ a c m, s.2 a = some c → (exec m (lib.readCredentials a) (s.1.fresh m)).1 = .ok c

namespace AuthLibrary
variable (lib : AuthLibrary)

/-- The legacy entries are not complete, or they are for another account and can be migrated. -/
def LegacyAside (w : AuthWorld) (accountId : String) : Prop :=
  LegacyComplete w → (∃ other, lib.LegacyFor w other ∧ other ≠ accountId) ∧ lib.IndexReadable w
end AuthLibrary

/-- A login obtains credentials for an account that the legacy entries are not for. -/
def LoginAside (lib : AuthLibrary) (s : AuthWorld × Ledger) (a : Nat × AuthCall) : Prop :=
  match a.2 with
  | .login _ verifier => ∀ accountId credentials, lib.exchanged verifier s.1 = some (accountId, credentials) →
    lib.LegacyAside s.1 accountId
  | _ => True

/-! ## What is obtained -/

/-- The clock is a `u64`. -/
def AuthWorld.Timely (w : AuthWorld) : Prop := ∀ n, (w.inputs n).now ≤ u64Max

def AuthOp.TimelyAnswer : (op : AuthOp) → op.Answer → Prop
  | .unixNow, now => now ≤ u64Max
  | _, _ => True

section Obtained

variable {lib : AuthLibrary} {accountId : String} {credentials : CodexCredentials} {w : AuthWorld} {m : Nat} {h : AuthHistory}

theorem eq_ok_of_toOption {ε α : Type} {result : Except ε α} {a : α} (h : result.toOption = some a) : result = .ok a := by
  cases result with
  | error error => cases h
  | ok b => exact congrArg Except.ok (Option.some.inj h)

theorem timely_handle (hw : w.Timely) (op : AuthOp) :
    op.TimelyAnswer (AuthWorld.handle m op w).1 ∧ (AuthWorld.handle m op w).2.Timely := by
  refine ⟨?_, fun n => by rw [inputs_handle]; exact hw n⟩
  cases op with
  | unixNow => exact hw w.clock
  | _ => trivial

theorem readAnswer_readable {kind : AuthErrorKind} {invalid : String} {secrets : List String}
    {fallback : Option CodexCredentials} {now : Nat} {answer : Except AuthError TokenHttpResponse} (hnow : now ≤ u64Max)
    (hread : lib.readAnswer kind invalid secrets fallback now answer = .ok credentials) : credentials.Readable := by
  obtain ⟨haccess, hrefresh, hid, -, hlast⟩ := readAnswer_ok hread
  exact ⟨haccess, hrefresh, hid, by rw [hlast]; exact hnow⟩

theorem meets_any {R : (op : AuthOp) → op.Answer → Prop} {α : Type} {x : AuthM α} :
    Meets R (fun _ _ => True) (fun _ _ => True) x h :=
  ⟨Procedure.sat_of_forall (fun _ _ => trivial) fun _ _ _ _ => trivial⟩

/-- A refresh that comes to the store has new credentials of the account. -/
theorem upToStore_meets (requested : Option String) (force : Bool) :
    Meets AuthOp.TimelyAnswer (fun _ _ => True)
      (fun _ r => r.2.2 = true → r.2.1.Readable ∧ lib.accountClaim r.2.1.idToken = some r.1)
      (lib.upToStore requested force) h := by
  have htokens (current : CodexCredentials) {h : AuthHistory} :
      Meets AuthOp.TimelyAnswer (fun _ _ => True) (fun _ c => c.Readable) (lib.refreshTokens current) h := by
    have hnow {h : AuthHistory} :
        Meets AuthOp.TimelyAnswer (fun _ _ => True) (fun _ now => now ≤ u64Max) (perform .unixNow) h :=
      meets_perform .unixNow trivial fun now hnow => hnow
    exact meets_any.bind fun h answer _ => hnow.bind fun h now hnow => meets_result fun c hread =>
      readAnswer_readable hnow hread
  have hrefreshed (accountId : String) (current : CodexCredentials) {h : AuthHistory} :
      Meets AuthOp.TimelyAnswer (fun _ _ => True) (fun _ c => c.Readable ∧ lib.accountClaim c.idToken = some accountId)
        (lib.refreshedFor accountId current) h := by
    refine (htokens current).bind fun h refreshed hread => ?_
    split
    · exact meets_throw
    · rename_i hclaim
      exact meets_pure ⟨hread, not_not.1 hclaim⟩
  have hrenewal (accountId : String) {h : AuthHistory} : Meets AuthOp.TimelyAnswer (fun _ _ => True)
      (fun _ r => r.2 = true → r.1.Readable ∧ lib.accountClaim r.1.idToken = some accountId)
      (lib.renewal accountId force) h := by
    refine meets_any.bind fun h current _ => ?_
    split
    · exact (hrefreshed accountId current).map fun _ _ hr _ => hr
    · refine meets_any.bind fun h now _ => ?_
      split
      · exact (hrefreshed accountId current).map fun _ _ hr _ => hr
      · exact meets_pure nofun
  exact meets_any.bind fun h accountId _ => meets_any.bind fun h _ _ => (hrenewal accountId).bind fun h r hr =>
    meets_pure hr

theorem renewed_readable (hw : w.Timely) {x : AuthM (String × CodexCredentials × Bool)}
    (hx : Meets AuthOp.TimelyAnswer (fun _ _ => True)
      (fun _ r => r.2.2 = true → r.2.1.Readable ∧ lib.accountClaim r.2.1.idToken = some r.1) x [])
    (hrenewed : renewed (exec m x w).1 = some (accountId, credentials)) :
    credentials.Readable ∧ lib.accountClaim credentials.idToken = some accountId := by
  have hend := (Procedure.Sat.run (AuthWorld.handle m) hx.sat hw fun _ op w hw _ => timely_handle hw op).1
  unfold exec at hrenewed
  unfold renewed at hrenewed
  split at hrenewed
  · rename_i heq
    cases hrenewed
    exact hend _ heq rfl
  · cases hrenewed

/-- What is obtained can be read, and is of its account. -/
theorem obtains_readable (hw : w.Timely) {call : AuthCall}
    (hobtains : call.obtains lib m w = some (accountId, credentials)) :
    credentials.Readable ∧ lib.accountClaim credentials.idToken = some accountId := by
  cases call with
  | login redirectUri verifier =>
    simp only [AuthCall.obtains, AuthLibrary.exchanged, Option.bind_eq_bind, Option.bind_eq_some_iff] at hobtains
    obtain ⟨code, -, found, hread, claim, hclaim, hfound⟩ := hobtains
    cases hfound
    exact ⟨readAnswer_readable (hw _) (eq_ok_of_toOption hread), hclaim⟩
  | refresh requested force => exact renewed_readable hw (meets_any.bind fun h a _ => upToStore_meets _ _) hobtains
  | bearer | forceRefresh => exact renewed_readable hw (upToStore_meets _ _) hobtains
  | status | accounts | logout => cases hobtains

end Obtained

/-! ## What stays in the store -/

/-- The entries in which a ledger is stored. -/
def Ledger.entries (lib : AuthLibrary) (L : Ledger) (accountId : String) (kind : CredentialKind) : Option String :=
  (L accountId).bind fun credentials => lib.newEntries credentials kind

/-- The credentials of a ledger are in the store, and the legacy entries are not for their accounts. -/
abbrev LedgerStored (lib : AuthLibrary) (inputs : Nat → AuthInput) (L : Ledger) : AuthWorld → Prop :=
  EntriesKept lib inputs (fun a => L a ≠ none) (L.entries lib)

/-- And the legacy entries are not complete. -/
abbrev LedgerSettled (lib : AuthLibrary) (inputs : Nat → AuthInput) (L : Ledger) : AuthWorld → Prop :=
  EntriesSettled lib inputs (fun a => L a ≠ none) (L.entries lib)

section Stored

variable {lib : AuthLibrary} {inputs : Nat → AuthInput} {S S' : String → Prop} {E E' : String → CredentialKind → Option String}
  {L : Ledger} {w w' : AuthWorld} {m : Nat} {accountId : String} {credentials : CodexCredentials} {α : Type} {x : AuthM α}

theorem firstFailure_none (hw : w.Working) (hprints : lib.PrintsStore) (hlast : credentials.lastRefreshAt ≤ u64Max) :
    lib.firstFailure credentials w = none := by
  obtain ⟨text, htext⟩ := hprints.metadata _ hlast
  refine List.find?_eq_none.2 fun i _ => ?_
  simp [hw _, newEntries, htext, Except.toOption]

/-- New credentials of an account that the legacy entries are not for. -/
theorem storeCredentials_stored (hinj : Function.Injective lib.fingerprint) (hprints : lib.PrintsStore) (hw : w.Working)
    (hread : credentials.Readable) (hclaim : lib.accountClaim credentials.idToken = some accountId)
    (haside : ¬ lib.LegacyFor w accountId) (h : LedgerStored lib inputs L w) :
    LedgerStored lib inputs (Function.update L accountId (some credentials))
        (exec m (lib.storeCredentials accountId credentials) w).2 ∧
      LegacyShrinks w (exec m (lib.storeCredentials accountId credentials) w).2 := by
  have hothers : EntriesKept lib inputs (fun a => L a ≠ none ∧ a ≠ accountId) (L.entries lib)
      (exec m (lib.storeCredentials accountId credentials) w).2 :=
    (storeCredentials_touches credentials).keeps
      (J := EntriesKept lib inputs (fun a => L a ≠ none ∧ a ≠ accountId) (L.entries lib))
      (fun _ _ hop hw => hw.touches accountId hinj hop (.inl fun h => h.2 rfl))
      (h.mono (fun a ha => ha.1) fun _ _ => rfl)
  have hlegacy : LegacyShrinks w (exec m (lib.storeCredentials accountId credentials) w).2 :=
    (storeCredentials_touches credentials).keeps
      (J := fun w' => ∀ kind, w'.secrets (.legacy kind) = w.secrets (.legacy kind) ∨ w'.secrets (.legacy kind) = none)
      (fun _ _ hop hw kind => by rw [(touches_legacy hop).1]; exact hw kind) fun _ => .inl rfl
  have hentries : lib.entries accountId (exec m (lib.storeCredentials accountId credentials) w).2 = lib.newEntries credentials := by
    funext kind
    rw [((storeCredentials_exec w).2 hclaim).2 kind, firstFailure_none hw hprints hread.lastRefreshAt]
    exact if_pos (by cases kind <;> decide)
  refine ⟨⟨hothers.inputs, hothers.migrated, fun a ha hfor => ?_, fun a ha => ?_⟩, hlegacy⟩
  · by_cases heq : a = accountId
    · subst heq
      exact haside (hlegacy.for hfor)
    · rw [Function.update_of_ne heq] at ha
      exact hothers.aside a ⟨ha, heq⟩ hfor
  · by_cases heq : a = accountId
    · subst heq
      rw [hentries]
      funext kind
      rw [Ledger.entries, Function.update_self]
      rfl
    · rw [Function.update_of_ne heq] at ha
      rw [hothers.entries a ⟨ha, heq⟩]
      funext kind
      rw [Ledger.entries, Ledger.entries, Function.update_of_ne heq]

end Stored

/-! ## Call by call -/

section Calls

variable {lib : AuthLibrary} {inputs : Nat → AuthInput} {L : Ledger} {w w' : AuthWorld} {m : Nat}

theorem completeLogin_exec (redirectUri verifier : String) (w : AuthWorld) :
    match lib.exchanged verifier w with
    | none => (exec m (lib.completeLogin redirectUri verifier) w).2.core = w.core
    | some (accountId, credentials) => ∃ w₁, w₁.core = w.core ∧ exec m (lib.completeLogin redirectUri verifier) w =
        exec m (lib.storeCredentials accountId credentials >>= fun _ =>
          CodexAuthStatus.account <$> lib.status accountId) w₁ := by
  have hcallback : exec m (ExceptT.mk (Procedure.perform AuthOp.waitForCallback)) w =
      ((w.inputs w.clock).callback, w.tick) := rfl
  have hexchange (code : String) : exec m (lib.exchangeAuthorizationCode code redirectUri verifier) w.tick =
      (lib.readAnswer .tokenExchange "Codex OAuth response is invalid." [code, verifier] none
        (w.inputs (w.clock + 2)).now (w.inputs (w.clock + 1)).answer, w.tick.tick.tick) := rfl
  unfold AuthLibrary.completeLogin AuthLibrary.exchanged
  rw [exec_bind, hcallback]
  cases (w.inputs w.clock).callback with
  | error error => rfl
  | ok code =>
    dsimp only [Except.toOption, Option.bind_eq_bind, Option.bind_some]
    rw [exec_bind, hexchange]
    cases lib.readAnswer .tokenExchange "Codex OAuth response is invalid." [code, verifier] none
        (w.inputs (w.clock + 2)).now (w.inputs (w.clock + 1)).answer with
    | error error => rfl
    | ok credentials =>
      dsimp only [Option.bind_some]
      rw [exec_bind, exec_okOr]
      cases lib.accountClaim credentials.idToken with
      | none => rfl
      | some accountId => exact ⟨w.tick.tick.tick, rfl, rfl⟩

/-- What is true between the calls. -/
structure LedgerKept (lib : AuthLibrary) (inputs : Nat → AuthInput) (L : Ledger) (w : AuthWorld) : Prop where
  held : LedgerStored lib inputs L w
  readable : ∀ accountId credentials, L accountId = some credentials → credentials.Readable
  legacy : (∃ accountId, L accountId ≠ none) → LegacyComplete w → (∃ other, lib.LegacyFor w other) ∧ lib.IndexReadable w

/-- A refresh: new credentials are stored after the migration. -/
theorem refreshCredentials_stored (hinj : Function.Injective lib.fingerprint) (hprints : lib.PrintsStore)
    (hw : w.Working) (htime : w.Timely) (requested : Option String) (force : Bool) (h : LedgerStored lib w.inputs L w) :
    LedgerStored lib w.inputs (L.enter (renewed (exec m (lib.upToStore requested force) w).1))
        (exec m (lib.refreshCredentials requested force) w).2 ∧
      (renewed (exec m (lib.upToStore requested force) w).1 ≠ none →
        ¬ LegacyComplete (exec m (lib.refreshCredentials requested force) w).2) := by
  have hobtained (a : String) (c : CodexCredentials)
      (hrenewed : renewed (exec m (lib.upToStore requested force) w).1 = some (a, c)) :
      c.Readable ∧ lib.accountClaim c.idToken = some a := renewed_readable htime (upToStore_meets _ _) hrenewed
  have hrefresh := refreshCredentials_exec lib m AuthWorld.core (fun _ _ => quiet_core trivial) requested force w
  have hup := leads_exec (upToStore_settled (m := m) hinj requested force) h
  revert hrefresh hup hobtained
  rcases exec m (lib.upToStore requested force) w with ⟨result, w₁⟩
  intro hobtained hrefresh hup
  cases result with
  | error error => exact ⟨EntriesKept.of_core hup hrefresh.2, nofun⟩
  | ok r =>
    obtain ⟨a, c, fresh⟩ := r
    cases fresh with
    | false => exact ⟨hup.kept.of_core hrefresh.2, nofun⟩
    | true =>
      obtain ⟨hread, hclaim⟩ := hobtained a c rfl
      have hworking : w₁.Working := fun n => by
        rw [hup.kept.inputs]
        exact hw n
      obtain ⟨hstored, hlegacy⟩ := storeCredentials_stored (m := m) hinj hprints hworking hread hclaim
        (fun hfor => hup.legacy hfor.1) hup.kept
      have hsettled : LedgerSettled lib w.inputs (Function.update L a (some c)) (exec m (lib.storeCredentials a c) w₁).2 :=
        ⟨hstored, fun hcomplete => hup.legacy (hlegacy.complete hcomplete).1⟩
      have hafter := hsettled.of_core hrefresh.2.2
      exact ⟨hafter.kept, fun _ => hafter.legacy⟩

/-- **One call** stores what it obtains, and keeps the rest. -/
theorem procedure_stored (hinj : Function.Injective lib.fingerprint) (hserde : lib.serde.Lawful) (hprints : lib.PrintsStore)
    (hw : w.Working) (htime : w.Timely) (call : AuthCall) (hguard : LoginAside lib (w, L) (m, call))
    (h : LedgerStored lib w.inputs L w) :
    LedgerStored lib w.inputs (call.ledger lib m w L) (exec m (call.procedure lib) w).2 ∧
      ((∀ redirectUri verifier, call ≠ .login redirectUri verifier) → call.obtains lib m w ≠ none →
        ¬ LegacyComplete (exec m (call.procedure lib) w).2) := by
  have hmap {α β : Type} (x : AuthM α) (f : α → β) (w : AuthWorld) : (exec m (f <$> x) w).2 = (exec m x w).2 := by
    rw [exec_map]
    rcases exec m x w with ⟨result, w'⟩
    cases result <;> rfl
  cases call with
  | login redirectUri verifier =>
    refine ⟨?_, fun hlogin => absurd rfl (hlogin redirectUri verifier)⟩
    have hexec := @completeLogin_exec lib m redirectUri verifier w
    have hread (a : String) (c : CodexCredentials)
        (hobtains : (AuthCall.login redirectUri verifier).obtains lib m w = some (a, c)) :
        c.Readable ∧ lib.accountClaim c.idToken = some a := obtains_readable htime hobtains
    unfold AuthCall.procedure AuthCall.ledger
    rw [hmap]
    simp only [AuthCall.obtains] at hread ⊢
    cases hobtains : lib.exchanged verifier w with
    | none =>
      rw [hobtains] at hexec
      exact h.of_core hexec
    | some found =>
      obtain ⟨a, c⟩ := found
      rw [hobtains] at hexec
      obtain ⟨w₁, hcore, hexec⟩ := hexec
      obtain ⟨hread, hclaim⟩ := hread a c hobtains
      have haside : ¬ lib.LegacyFor w a := fun hfor => by
        obtain ⟨⟨other, hother, hne⟩, -⟩ := hguard a c hobtains hfor.1
        exact hne (Option.some.inj (hother.2.symm.trans hfor.2))
      have hworking : w₁.Working := fun n => by
        rw [show w₁.inputs = w.inputs from congrArg (fun core => core.2.1) hcore]
        exact hw n
      obtain ⟨hstored, -⟩ := storeCredentials_stored (m := m) hinj hprints hworking hread hclaim
        (fun hfor => haside ((core_legacy hcore).for hfor)) (h.of_core hcore)
      rw [hexec, exec_bind]
      revert hstored
      rcases exec m (lib.storeCredentials a c) w₁ with ⟨result, w₂⟩
      intro hstored
      cases result with
      | error error => exact hstored
      | ok =>
        exact leads_left (Leads.map ((status_settled hinj a).mono (fun _ _ hw => hw) (fun _ _ _ hw => hw.kept)
          fun _ _ hw => hw) fun _ _ _ hw => hw) hstored
  | refresh requested force =>
    unfold AuthCall.procedure AuthCall.ledger
    rw [hmap]
    simp only [AuthCall.obtains, AuthLibrary.refresh]
    rw [exec_bind, exec_bind]
    have hresolve := leads_exec (resolveAccountId_settled (m := m) hinj requested) h
    revert hresolve
    rcases exec m (lib.resolveAccountId requested) w with ⟨result, w₁⟩
    intro hresolve
    cases result with
    | error error => exact ⟨hresolve, nofun⟩
    | ok a =>
      have hinputs : w₁.inputs = w.inputs := hresolve.kept.inputs
      obtain ⟨hstored, hsettled⟩ := refreshCredentials_stored (m := m) (w := w₁) hinj hprints
        (fun n => by rw [hinputs]; exact hw n) (fun n => by rw [hinputs]; exact htime n) (some a) force
        (by rw [hinputs]; exact hresolve.kept)
      rw [hinputs] at hstored
      dsimp only
      rw [exec_bind]
      revert hstored hsettled
      rcases exec m (lib.refreshCredentials (some a) force) w₁ with ⟨result, w₂⟩
      intro hstored hsettled
      cases result with
      | error error => exact ⟨hstored, fun _ => hsettled⟩
      | ok =>
        refine ⟨leads_kept (status_settled hinj a) hstored, fun _ hobtains hcomplete => hsettled hobtains ?_⟩
        exact ((status_regular hserde).regularFrom.legacy.complete hcomplete).1
  | bearer accountId =>
    unfold AuthCall.procedure AuthCall.ledger AuthLibrary.bearer
    rw [hmap, hmap]
    exact (refreshCredentials_stored hinj hprints hw htime _ _ h).imp_right fun hsettled _ => hsettled
  | forceRefresh accountId =>
    unfold AuthCall.procedure AuthCall.ledger AuthLibrary.forceRefresh
    rw [hmap, hmap]
    exact (refreshCredentials_stored hinj hprints hw htime _ _ h).imp_right fun hsettled _ => hsettled
  | status accountId =>
    refine ⟨?_, fun _ hobtains => absurd rfl hobtains⟩
    unfold AuthCall.procedure
    rw [hmap]
    exact leads_kept (status_settled hinj accountId) h
  | accounts =>
    refine ⟨?_, fun _ hobtains => absurd rfl hobtains⟩
    unfold AuthCall.procedure
    rw [hmap]
    exact leads_kept (accounts_settled hinj) h
  | logout accountId =>
    refine ⟨?_, fun _ hobtains => absurd rfl hobtains⟩
    have hout : EntriesKept lib w.inputs (fun a => L a ≠ none ∧ a ≠ trim accountId) (L.entries lib)
        (exec m (lib.logout accountId) w).2 :=
      logout_touches.keeps (J := EntriesKept lib w.inputs (fun a => L a ≠ none ∧ a ≠ trim accountId) (L.entries lib))
        (fun _ _ hop hw => hw.touches _ hinj hop (.inl fun h => h.2 rfl)) (h.mono (fun a ha => ha.1) fun _ _ => rfl)
    unfold AuthCall.procedure
    rw [hmap]
    show LedgerStored lib w.inputs (if trim accountId = "" then L else Function.update L (trim accountId) none) _
    by_cases hblank : trim accountId = ""
    · unfold AuthLibrary.logout
      rw [if_pos hblank, if_pos hblank]
      exact h
    · rw [if_neg hblank]
      refine hout.mono (fun a ha => ?_) fun a ha => ?_
      · by_cases heq : a = trim accountId
        · rw [heq, Function.update_self] at ha
          exact absurd rfl ha
        · rw [Function.update_of_ne heq] at ha
          exact ⟨ha, heq⟩
      · funext kind
        have heq : a ≠ trim accountId := by
          rintro rfl
          exact ha (Function.update_self ..)
        rw [Ledger.entries, Ledger.entries, Function.update_of_ne heq]

theorem ledger_new {call : AuthCall} {a : String} {c : CodexCredentials} (h : call.ledger lib m w L a = some c) :
    L a = some c ∨ call.obtains lib m w = some (a, c) := by
  have henter {found : Option (String × CodexCredentials)} (h : L.enter found a = some c) :
      L a = some c ∨ found = some (a, c) := by
    cases found with
    | none => exact .inl h
    | some found =>
      change Function.update L found.1 (some found.2) a = some c at h
      rw [Function.update_apply] at h
      split at h
      · rename_i heq
        cases h
        exact .inr (by rw [heq])
      · exact .inl h
  cases call with
  | logout accountId =>
    change (if trim accountId = "" then L else Function.update L (trim accountId) none) a = some c at h
    split at h
    · exact .inl h
    · rw [Function.update_apply] at h
      split at h
      · cases h
      · exact .inl h
  | _ => exact henter h

/-- **Step.** What is true between the calls is kept by each. -/
theorem LedgerKept.call (hinj : Function.Injective lib.fingerprint) (hserde : lib.serde.Lawful) (hprints : lib.PrintsStore)
    (hw : w.Working) (htime : w.Timely) (call : AuthCall) (hguard : LoginAside lib (w, L) (m, call))
    (h : LedgerKept lib inputs L w) : LedgerKept lib inputs (call.ledger lib m w L) (exec m (call.procedure lib) w).2 := by
  obtain rfl : w.inputs = inputs := h.held.inputs
  obtain ⟨hstored, hsettled⟩ := procedure_stored (m := m) hinj hserde hprints hw htime call hguard h.held
  have hregular : RegularFrom lib w (exec m (call.procedure lib) w).2 := (procedure_regular hserde call).regularFrom
  refine ⟨hstored, fun a c hc => ?_, fun hsome hcomplete => ?_⟩
  · rcases ledger_new hc with hold | hnew
    · exact h.readable a c hold
    · exact (obtains_readable htime hnew).1
  · have hbefore := (hregular.legacy.complete hcomplete).1
    have hmigrates : (∃ other, lib.LegacyFor w other) ∧ lib.IndexReadable w := by
      obtain ⟨a, ha⟩ := hsome
      obtain ⟨c, hc⟩ := Option.ne_none_iff_exists'.1 ha
      rcases ledger_new hc with hold | hnew
      · exact h.legacy ⟨a, by rw [hold]; nofun⟩ hbefore
      · cases call with
        | login redirectUri verifier =>
          obtain ⟨⟨other, hother, -⟩, hindex⟩ := hguard a c hnew hbefore
          exact ⟨⟨other, hother⟩, hindex⟩
        | _ => exact absurd hcomplete (hsettled nofun (by rw [hnew]; nofun))
    obtain ⟨⟨other, hother⟩, hindex⟩ := hmigrates
    refine ⟨⟨other, hcomplete, ?_⟩, hregular.index hindex⟩
    rw [(hregular.legacy.complete hcomplete).2]
    exact hother.2

end Calls

/-! ## Any sequence of calls -/

section Runs

variable {lib : AuthLibrary} {w : AuthWorld} {s : AuthWorld × Ledger} {as : List (Nat × AuthCall)} {tr : List AuthRecord}

theorem ledgerMachine_call (lib : AuthLibrary) {G : AuthWorld × Ledger → Nat × AuthCall → Prop} {L : Ledger} {m : Nat}
    {call : AuthCall} (hguard : G (w, L) (m, call)) : (ledgerMachine lib).Run G (w, L) [(m, call)] [call.record lib m w]
      ((exec m (call.procedure lib) w).2, call.ledger lib m w L) := .snoc .nil hguard rfl

theorem ledgerMachine_kept (hinj : Function.Injective lib.fingerprint) (hserde : lib.serde.Lawful)
    (hprints : lib.PrintsStore) (hw : w.Working) (htime : w.Timely) (hnew : ∀ m, w.managers m = .new)
    (hrun : (ledgerMachine lib).Run (LoginAside lib) (w, .empty) as tr s) :
    LedgerKept lib w.inputs s.2 s.1 := by
  refine hrun.invariant (P := fun s => LedgerKept lib w.inputs s.2 s.1) ?_ ?_
  · refine ⟨⟨rfl, fun m hm => ?_, fun a ha => absurd rfl ha, fun a ha => absurd rfl ha⟩, nofun, fun ⟨a, ha⟩ => absurd rfl ha⟩
    rw [hnew] at hm
    cases hm
  · rintro ⟨w₁, L⟩ ⟨m, call⟩ u o hkept hguard hstep
    have hinputs : w₁.inputs = w.inputs := hkept.held.inputs
    cases hstep
    exact LedgerKept.call hinj hserde hprints (fun n => by rw [hinputs]; exact hw n) (fun n => by rw [hinputs]; exact htime n)
      call hguard hkept

/-- **Logins stay.** As long as every login obtains credentials for an account that the legacy entries are not for, the
credentials that an account has obtained last are in the store, and a fresh manager reads them. -/
theorem logins_stay (hinj : Function.Injective lib.fingerprint) (hserde : lib.serde.Lawful) (hprints : lib.PrintsStore)
    (hw : w.Working) (htime : w.Timely) (hnew : ∀ m, w.managers m = .new)
    (hrun : (ledgerMachine lib).Run (LoginAside lib) (w, .empty) as tr s) : LedgerHeld lib s := by
  have hkept := ledgerMachine_kept hinj hserde hprints hw htime hnew hrun
  have hinputs : s.1.inputs = w.inputs := hkept.held.inputs
  refine ⟨fun a c hc => ?_, fun a c m hc => ?_⟩
  · rw [hkept.held.entries a (by rw [hc]; nofun)]
    funext kind
    rw [Ledger.entries, hc, Option.bind_some]
  · have hsome : s.2 a ≠ none := by
      rw [hc]
      nofun
    refine readCredentials_fresh hinj hserde hprints ⟨fun n => by rw [hinputs]; exact hw n, hkept.legacy ⟨a, hsome⟩⟩
      hkept.held hsome (hkept.readable a c hc) (funext fun kind => ?_)
    rw [Ledger.entries, hc, Option.bind_some]

end Runs

/-- The texts of two accounts. -/
def twoAccountTexts : List (Value × String) :=
  renewalTexts ++ [(.array [CodexAccountRecord.toJson ⟨"a", none⟩, CodexAccountRecord.toJson ⟨"b", none⟩],
    "[" ++ recordText "a" ++ "," ++ recordText "b" ++ "]")]

theorem twoAccountTexts_lawful : (AuthLibrary.ofStore twoAccountTexts).serde.Lawful := by
  refine Serde.ofStore_lawful (Serde.ofTable_lawful (by decide +kernel) (by decide +kernel)) fun e he n heq => ?_
  have hfirst : ∀ e ∈ twoAccountTexts, e.2.toList.head? ≠ some '|' := by decide +kernel
  refine hfirst e he ?_
  rw [heq, strokes, String.toList_ofList, List.replicate_succ]
  rfl

/-- Legacy entries with an ID token, and an exchange that obtains credentials of the account `a`. -/
def legacyWorld (idToken : String) : AuthWorld :=
  .holding [(.legacy .accessToken, "A"), (.legacy .refreshToken, "R"), (.legacy .idToken, idToken),
    (.legacy .metadata, metadataText "1000")] fun _ => ⟨none, .ok ⟨200, answerText idTokenA "A2" "R2"⟩, .ok "code", 2000⟩

theorem legacyWorld_exchanged (idToken : String) :
    (AuthLibrary.ofStore twoAccountTexts).exchanged "verifier" (legacyWorld idToken) =
      some ("a", ⟨"A2", "R2", idTokenA, 2000⟩) := by
  show (AuthLibrary.ofStore twoAccountTexts).exchanged "verifier" (legacyWorld "") = _
  decide +kernel

theorem legacyWorld_ledger (idToken : String) : (AuthCall.login "uri" "verifier").ledger (.ofStore twoAccountTexts) 0
    (legacyWorld idToken) .empty "a" = some ⟨"A2", "R2", idTokenA, 2000⟩ := by
  have henter : Ledger.empty.enter (some ("a", ⟨"A2", "R2", idTokenA, 2000⟩)) "a" = some ⟨"A2", "R2", idTokenA, 2000⟩ := by
    rw [Ledger.enter, Function.update_self]
  rw [← legacyWorld_exchanged idToken] at henter
  exact henter

theorem legacyWorld_timely (idToken : String) : (legacyWorld idToken).Timely := fun _ => show 2000 ≤ u64Max by decide

/-- The legacy entries are for the account `b`. -/
theorem logins_stay_aside : ∃ (tr : List AuthRecord) (s : AuthWorld × Ledger),
    (ledgerMachine (.ofStore twoAccountTexts)).Run (LoginAside (.ofStore twoAccountTexts))
        (legacyWorld idTokenB, Ledger.empty) [(0, .login "uri" "verifier")] tr s ∧
      s.2 "a" = some ⟨"A2", "R2", idTokenA, 2000⟩ ∧ LedgerHeld (.ofStore twoAccountTexts) s := by
  have hguard : LoginAside (.ofStore twoAccountTexts) (legacyWorld idTokenB, Ledger.empty) (0, .login "uri" "verifier") := by
    intro a c hc hcomplete
    rw [legacyWorld_exchanged] at hc
    cases hc
    exact ⟨⟨"b", ⟨hcomplete, by decide +kernel⟩, by decide⟩, nofun⟩
  have hrun := ledgerMachine_call (.ofStore twoAccountTexts) hguard
  refine ⟨_, _, hrun, ?_, logins_stay (AuthLibrary.ofStore_fingerprint_injective _) twoAccountTexts_lawful
    (AuthLibrary.ofStore_prints _) (fun _ => rfl) (legacyWorld_timely _) (fun _ => rfl) hrun⟩
  dsimp only
  exact legacyWorld_ledger idTokenB

/-- **A login before the migration**: the account `a` signs in again, and the status after the login migrates the legacy
entries over the new credentials. -/
theorem login_is_overwritten : ¬ ∀ (lib : AuthLibrary) (w : AuthWorld) (as : List (Nat × AuthCall)) (tr : List AuthRecord)
    (s : AuthWorld × Ledger), Function.Injective lib.fingerprint → lib.serde.Lawful → lib.PrintsStore → w.Working →
    w.Timely → (∀ m, w.managers m = .new) → (ledgerMachine lib).Run Machine.Free (w, .empty) as tr s →
    LedgerHeld lib s := by
  intro hall
  have hfree : Machine.Free (legacyWorld idTokenA, Ledger.empty) (0, AuthCall.login "uri" "verifier") := trivial
  have hrun := ledgerMachine_call (.ofStore twoAccountTexts) hfree
  have hheld := hall (.ofStore twoAccountTexts) (legacyWorld idTokenA) _ _ _ (AuthLibrary.ofStore_fingerprint_injective _)
    twoAccountTexts_lawful (AuthLibrary.ofStore_prints _) (fun _ => rfl) (legacyWorld_timely _) (fun _ => rfl) hrun
  have hstored := hheld.stored "a" ⟨"A2", "R2", idTokenA, 2000⟩ (by dsimp only; exact legacyWorld_ledger idTokenA)
  have haccess := congrFun hstored .accessToken
  revert haccess
  decide +kernel

end Aifluxon
