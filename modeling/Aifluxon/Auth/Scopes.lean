import Aifluxon.Auth.Sessions

/-!
# Scopes

* `AuthCall.account` : the account that a call is about, as the call, the token server or a lock names it;
* `AuthCall.scope` : the accounts that a call may be about, after some of its operations;
* `AuthCall.scoped` : the operations of a call stay within its scope.
-/

namespace Aifluxon

open AuthM AuthLibrary

/-! ## Scopes -/

/-- The account that an operation names: the token server does in an answer, and the caller by a lock. -/
def AuthLibrary.namedBy (lib : AuthLibrary) : Sigma AuthOp.Answer → Option String
  | ⟨.postForm _, answer⟩ => lib.answeredAccount answer
  | _ => none

def lockedBy : Sigma AuthOp.Answer → Option String
  | ⟨.lockAccount accountId, _⟩ => some accountId
  | _ => none

theorem findSome_snoc {α β : Type} (f : α → Option β) (l : List α) (a : α) :
    (l ++ [a]).findSome? f = (l.findSome? f).or (f a) := by
  rw [List.findSome?_append, List.findSome?_cons, List.findSome?_nil]
  cases f a <;> rfl

namespace AuthCall
variable (lib : AuthLibrary)

/-- The account that a call with these operations is about. -/
def account : AuthCall → AuthHistory → Option String
  | login _ _, h => h.findSome? lib.namedBy
  | refresh none _, h => h.findSome? lockedBy
  | refresh (some accountId) _, _ | bearer accountId, _ | forceRefresh accountId, _ | status accountId, _
  | logout accountId, _ => some accountId
  | accounts, _ => none

/-- The call names a proper account, if it names one, and does not go through all of them. -/
def Proper : AuthCall → Prop
  | refresh (some accountId) _ | bearer accountId | forceRefresh accountId | status accountId
  | logout accountId => ProperAccount accountId
  | login _ _ | refresh none _ => True
  | accounts => False

instance : DecidablePred Proper
  | refresh (some _) _ | bearer _ | forceRefresh _ | status _ | logout _ => inferInstanceAs (Decidable (ProperAccount _))
  | login _ _ | refresh none _ => .isTrue trivial
  | accounts => .isFalse id

/-- The accounts that a call may be about, after some of its operations. What is not a proper account may
show up when the only account is asked for. -/
def scope (call : AuthCall) (h : AuthHistory) (accountId : String) : Prop :=
  match call with
  | refresh none _ =>
    ∃ locked, h.findSome? lockedBy = some locked ∧ (accountId = locked ∨ trim accountId = locked ∨ trim accountId = "")
  | call => call.account lib h = some accountId

end AuthCall

theorem findSome_prefix {α β : Type} {f : α → Option β} {l l' : List α} {b : β} (hl : l <+: l')
    (h : l.findSome? f = some b) : l'.findSome? f = some b := by
  obtain ⟨more, rfl⟩ := hl
  rw [List.findSome?_append, h]
  rfl

namespace AuthCall
variable {lib : AuthLibrary} {call : AuthCall} {h h' : AuthHistory} {accountId : String}

theorem scope_prefix (hl : h <+: h') (hscope : call.scope lib h accountId) : call.scope lib h' accountId := by
  unfold scope at hscope ⊢
  cases call with
  | login => exact findSome_prefix hl hscope
  | refresh requested force => cases requested with
    | none =>
      obtain ⟨locked, hlocked, h⟩ := hscope
      exact ⟨locked, findSome_prefix hl hlocked, h⟩
    | some => exact hscope
  | bearer | forceRefresh | status | accounts | logout => exact hscope

/-- A proper account in the scope of a call is its account. -/
theorem account_of_scope (hproper : ProperAccount accountId) (hscope : call.scope lib h accountId) :
    call.account lib h = some accountId := by
  cases call with
  | refresh requested force => cases requested with
    | none =>
      obtain ⟨locked, hlocked, h⟩ := hscope
      rw [hproper.1, or_self_left] at h
      rcases h with rfl | hblank
      · exact hlocked
      · exact absurd hblank hproper.2
    | some => exact hscope
  | login | bearer | forceRefresh | status | accounts | logout => exact hscope

end AuthCall

/-- An operation of a call within its scope, or the lock that makes an account known. -/
def AuthCall.Scoped (lib : AuthLibrary) (call : AuthCall) (h : AuthHistory) (op : AuthOp) : Prop :=
  op.Within lib (call.scope lib h) (call.scope lib h) ∨ ∃ accountId, op = .lockAccount accountId

section Scoped
variable {lib : AuthLibrary} {call : AuthCall} {S : String → Prop} {α : Type} {x : AuthM α} {accountId : String}

/-- What is within the scope reached so far stays within the scope. -/
theorem Within.scoped {h : AuthHistory} (hx : Within noLegacy lib S S x) (hS : ∀ accountId, S accountId →
    call.scope lib h accountId) : Meets noLegacy (call.Scoped lib) (fun h' _ => h <+: h') x h := by
  refine ⟨(hx.meets h).sat.since.mono ?_ ?_⟩
  · rintro h' op ⟨⟨l, rfl, -⟩, hop⟩
    have hscope (accountId : String) (ha : S accountId) : call.scope lib (h ++ l) accountId :=
      AuthCall.scope_prefix (List.prefix_append h l) (hS accountId ha)
    exact .inl (hop.mono hscope hscope)
  · rintro h' result ⟨⟨l, rfl, -⟩, -⟩ a -
    exact List.prefix_append h l

theorem Within.scoped' {h : AuthHistory} (hx : Within noLegacy lib S S x) (hS : ∀ accountId, S accountId →
    call.scope lib h accountId) : Meets noLegacy (call.Scoped lib) (fun _ _ => True) x h :=
  (hx.scoped hS).mono (fun _ _ hop => hop) fun _ _ _ => trivial

/-- No account at all, and one account. -/
def Nobody (_ : String) : Prop := False

def Only (accountId a : String) : Prop := a = accountId

theorem only_self (accountId : String) : Only accountId accountId := rfl

/-- The account of an exchange is the one that the token server names. -/
theorem exchangeAuthorizationCode_named {R : (op : AuthOp) → op.Answer → Prop} {P : AuthHistory → AuthOp → Prop}
    (hpost : ∀ h form, P h (.postForm form)) (hnow : ∀ h, P h .unixNow) (code redirectUri verifier : String)
    {h : AuthHistory} (hnone : h.findSome? lib.namedBy = none) :
    Meets R P (fun h credentials => h.findSome? lib.namedBy = lib.accountClaim credentials.idToken)
      (lib.exchangeAuthorizationCode code redirectUri verifier) h := by
  have hanswer : Meets R P (fun h answer => h.findSome? lib.namedBy = lib.answeredAccount answer)
      (perform (.postForm (exchangeForm code redirectUri verifier))) h :=
    meets_perform (.postForm _) (hpost h _) fun answer _ => by
      rw [findSome_snoc, hnone]
      rfl
  refine hanswer.bind fun h answer hanswered => ?_
  have hlater : Meets R P (fun h _ => h.findSome? lib.namedBy = lib.answeredAccount answer) (perform .unixNow) h :=
    meets_perform .unixNow (hnow h) fun now _ => by
      rw [findSome_snoc, hanswered]
      exact Option.or_none
  refine hlater.bind fun h now hanswered => meets_result fun credentials hread => ?_
  rw [hanswered, readAnswer_account hread]

theorem completeLogin_scoped (redirectUri verifier : String) :
    Meets noLegacy ((AuthCall.login redirectUri verifier).Scoped lib) (fun _ _ => True)
      (lib.completeLogin redirectUri verifier) [] := by
  have hcallback : Meets noLegacy ((AuthCall.login redirectUri verifier).Scoped lib)
      (fun h _ => h.findSome? lib.namedBy = none) (ExceptT.mk (Procedure.perform AuthOp.waitForCallback)) [] :=
    ⟨.inl trivial, fun _ _ _ _ => rfl⟩
  refine hcallback.bind fun h code hnone => ?_
  refine (exchangeAuthorizationCode_named (fun _ _ => .inl trivial) (fun _ => .inl trivial) code redirectUri verifier
    hnone).bind fun h credentials hanswered => ?_
  refine Meets.bind (Q := fun h accountId => h.findSome? lib.namedBy = some accountId)
    (meets_okOr fun accountId hclaim => by rw [hanswered, hclaim]) fun h accountId hanswered => ?_
  have hlogin : Within noLegacy lib (Only accountId) (Only accountId)
      (lib.storeCredentials accountId credentials >>= fun _ => CodexAuthStatus.account <$> lib.status accountId) :=
    .bind (storeCredentials_within (only_self _) _) fun _ => .map (status_within (only_self _))
  have hscope : ∀ a, Only accountId a → (AuthCall.login redirectUri verifier).scope lib h a := fun a ha => by
    subst ha
    exact hanswered
  exact hlogin.scoped' hscope

/-- The only account is found by its record, and locked under the name without white space. -/
theorem refresh_scoped (force : Bool) :
    Meets noLegacy ((AuthCall.refresh none force).Scoped lib) (fun _ _ => True) (lib.refresh none force) [] := by
  have hresolve (requested : Option String) (h : AuthHistory) (hnone : h.findSome? lockedBy = none) :
      Meets noLegacy ((AuthCall.refresh none force).Scoped lib) (fun h a => h.findSome? lockedBy = none ∧
        ∀ accountId, requested = some accountId → a = trim accountId ∨ trim accountId = "")
        (lib.resolveAccountId requested) h := by
    refine Meets.bind (Q := fun h _ => h.findSome? lockedBy = none) ?_ fun h records hnone =>
      meets_result fun a ha => ⟨hnone, fun accountId hrequested => ?_⟩
    · refine ⟨((accountRecords_within (S := Nobody) (W := Nobody)).meets h).sat.since.mono ?_ ?_⟩
      · rintro h' op ⟨-, hop⟩
        exact .inl (hop.mono (fun _ ha => ha.elim) fun _ ha => ha.elim)
      · rintro h' result ⟨⟨l, rfl, hl⟩, -⟩ a -
        rw [List.findSome?_append, hnone, Option.none_or, List.findSome?_eq_none_iff]
        intro e he
        have hop := hl e he
        obtain ⟨op, r⟩ := e
        cases op with
        | lockAccount => exact hop.elim
        | _ => rfl
    · subst hrequested
      by_cases hblank : trim accountId = ""
      · exact .inr hblank
      · left
        unfold chooseAccount at ha
        simp only [Option.map_some, Option.filter_some, ne_eq, hblank, not_false_eq_true, decide_true, if_true] at ha
        split at ha
        · cases ha
          rfl
        · cases ha
  refine (hresolve none [] rfl).bind fun h accountId hresolved => ?_
  refine Meets.bind (Q := fun h _ => (AuthCall.refresh none force).scope lib h accountId) ?_
    fun h credentials hscope => Within.scoped' (S := Only accountId) (status_within (only_self _)) fun a ha => by
      subst ha
      exact hscope
  refine (hresolve (some accountId) h hresolved.1).bind fun h locked hresolved => ?_
  have hlock : Meets noLegacy ((AuthCall.refresh none force).Scoped lib)
      (fun h _ => h.findSome? lockedBy = some locked) (perform (.lockAccount locked)) h :=
    meets_perform (.lockAccount locked) (.inr ⟨locked, rfl⟩) fun r _ => by
      rw [findSome_snoc, hresolved.1]
      rfl
  refine hlock.bind fun h _ hlocked => ?_
  have hrefresh : Within noLegacy lib (Only locked) (Only locked)
      (AuthM.unlocking (.unlockAccount locked) (lib.refreshLocked locked force)) :=
    .unlocking (refreshLocked_within (only_self _) (only_self _) force) trivial
  have hscope (a : String) (ha : Only locked a) : (AuthCall.refresh none force).scope lib h a :=
    ⟨locked, hlocked, .inl ha⟩
  refine (hrefresh.scoped hscope).mono (fun _ _ hop => hop) fun h' _ hl => ?_
  refine ⟨locked, findSome_prefix hl hlocked, .inr ?_⟩
  exact (hresolved.2 accountId rfl).imp Eq.symm id

/-- **The operations of a call stay within its scope.** -/
theorem AuthCall.scoped (hproper : call.Proper) :
    Meets noLegacy (call.Scoped lib) (fun _ _ => True) (call.procedure lib) [] := by
  have hnamed {accountId : String} (haccount : ∀ h, call.scope lib h accountId) {α : Type} {x : AuthM α}
      {f : α → AuthReply} (hx : Within noLegacy lib (Only accountId) (Only accountId) x) :
      Meets noLegacy (call.Scoped lib) (fun _ _ => True) (f <$> x) [] :=
    (hx.scoped' fun a ha => ha ▸ haccount []).map fun _ _ _ => trivial
  cases call with
  | login redirectUri verifier => exact (completeLogin_scoped redirectUri verifier).map fun _ _ _ => trivial
  | refresh requested force => cases requested with
    | none => exact (refresh_scoped force).map fun _ _ _ => trivial
    | some accountId => exact hnamed (fun _ => rfl) (refresh_within hproper (only_self _) (only_self _) force)
  | bearer accountId => exact hnamed (fun _ => rfl) (bearer_within hproper (only_self _) (only_self _))
  | forceRefresh accountId => exact hnamed (fun _ => rfl) (forceRefresh_within hproper (only_self _) (only_self _))
  | status accountId => exact hnamed (fun _ => rfl) (status_within (only_self _))
  | accounts => exact hproper.elim
  | logout accountId =>
    have hself : Only accountId (trim accountId) := hproper.1
    have hlogout : Within noLegacy lib (Only accountId) (Only accountId) (lib.logout accountId) := logout_within hself
    exact hnamed (fun _ => rfl) hlogout

end Scoped

end Aifluxon
