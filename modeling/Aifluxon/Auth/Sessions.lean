import Aifluxon.Auth.Contracts

/-!
# Sequences of calls

* `AuthCall`, `AuthCall.procedure` : the calls of the manager and of its credential sources;
* `authMachine` : calls one after another, on any managers over one secret store; `AuthRecord` : what each did;
* `AuthM.Leads` : from one state to another, by a call that returns or fails; its rules.
-/

namespace Aifluxon

open AuthM

/-! ## Calls -/

inductive AuthCall where
  | login (redirectUri verifier : String)
  | refresh (requested : Option String) (force : Bool)
  | bearer (accountId : String)
  | forceRefresh (accountId : String)
  | status (accountId : String)
  | accounts
  | logout (accountId : String)
  deriving DecidableEq

inductive AuthReply where
  | account (account : CodexAccount)
  | status (status : CodexAuthStatus)
  | token (token : String)
  | accounts (accounts : List CodexAccount)
  | done
  deriving DecidableEq

def AuthCall.procedure (lib : AuthLibrary) : AuthCall → AuthM AuthReply
  | login redirectUri verifier => .account <$> lib.completeLogin redirectUri verifier
  | refresh requested force => .status <$> lib.refresh requested force
  | bearer accountId => .token <$> lib.bearer accountId
  | forceRefresh accountId => .token <$> lib.forceRefresh accountId
  | status accountId => .status <$> lib.status accountId
  | accounts => .accounts <$> lib.accounts
  | logout accountId => (fun _ => .done) <$> lib.logout accountId

/-- A call of the manager `manager`, its result and its operations. -/
structure AuthRecord where
  manager : Nat
  call : AuthCall
  result : Except AuthError AuthReply
  events : AuthHistory

/-- What the call does in the state `w`. -/
def AuthCall.record (lib : AuthLibrary) (m : Nat) (call : AuthCall) (w : AuthWorld) : AuthRecord :=
  ⟨m, call, ((call.procedure lib).run.run (AuthWorld.handle m) w).1,
    (call.procedure lib).run.events (AuthWorld.handle m) w⟩

/-- One call after another. -/
def authMachine (lib : AuthLibrary) : Machine AuthWorld (Nat × AuthCall) AuthRecord where
  step w a := some (((a.2.procedure lib).run.run (AuthWorld.handle a.1) w).2, [a.2.record lib a.1 w])

/-- An empty secret store, and managers that have done nothing yet. -/
def AuthWorld.start (inputs : Nat → AuthInput) : AuthWorld := ⟨fun _ => none, fun _ => .new, inputs, 0⟩

/-- Some entries in the secret store, and managers that have done nothing yet. -/
def AuthWorld.holding (entries : List (SecretKey × String)) (inputs : Nat → AuthInput) : AuthWorld :=
  ⟨fun key => entries.lookup key, fun _ => .new, inputs, 0⟩

/-- No call of the secret store fails. -/
def AuthWorld.Working (w : AuthWorld) : Prop := ∀ n, (w.inputs n).fault = none

/-! ## A call alone -/

namespace AuthM

variable {m : Nat} {α β : Type}

/-- The result of a call of the manager `m`, and the state that it leaves. -/
def exec (m : Nat) (x : AuthM α) (w : AuthWorld) : Except AuthError α × AuthWorld :=
  x.run.run (AuthWorld.handle m) w

@[simp] theorem exec_pure (a : α) (w : AuthWorld) : exec m (pure a) w = (.ok a, w) := rfl

@[simp] theorem exec_throw (error : AuthError) (w : AuthWorld) :
    exec m (throw error : AuthM α) w = (.error error, w) := rfl

theorem exec_bind (x : AuthM α) (f : α → AuthM β) (w : AuthWorld) :
    exec m (x >>= f) w = match exec m x w with
      | (.ok a, w) => exec m (f a) w
      | (.error error, w) => (.error error, w) := by
  unfold exec
  rw [Procedure.run_bind_except]
  rcases x.run.run (AuthWorld.handle m) w with ⟨result, w'⟩
  cases result <;> rfl

theorem exec_map (x : AuthM α) (f : α → β) (w : AuthWorld) :
    exec m (f <$> x) w = match exec m x w with
      | (.ok a, w) => (.ok (f a), w)
      | (.error error, w) => (.error error, w) := exec_bind x _ w

theorem exec_perform (op : AuthOp) (w : AuthWorld) :
    exec m (perform op) w = (.ok (AuthWorld.handle m op w).1, (AuthWorld.handle m op w).2) := rfl

theorem exec_setText (key : SecretKey) (value : String) (w : AuthWorld) :
    exec m (setText key value) w = w.attempt () (w.write key (some value)) := rfl

theorem exec_okOr (error : AuthError) (found : Option α) (w : AuthWorld) :
    exec m (okOr error found) w = (found.elim (.error error) .ok, w) := by
  cases found <;> rfl

theorem exec_unlocking (unlock : AuthOp) (x : AuthM α) (w : AuthWorld) :
    exec m (unlocking unlock x) w = ((exec m x w).1, (AuthWorld.handle m unlock (exec m x w).2).2) := by
  show (x.run >>= _).run (AuthWorld.handle m) w = _
  rw [Procedure.run_bind]
  rfl

end AuthM

/-! ## From one state to another -/

namespace AuthM

variable {m : Nat} {α β : Type} {P : AuthWorld → AuthHistory → Prop}
  {Q : α → AuthWorld → AuthHistory → Prop} {E : AuthWorld → AuthHistory → Prop}

/-- `Q` after a result, and `E` after an error. -/
def Ends (Q : α → AuthWorld → AuthHistory → Prop) (E : AuthWorld → AuthHistory → Prop) :
    Except AuthError α → AuthWorld → AuthHistory → Prop
  | .ok a => Q a
  | .error _ => E

/-- The manager `m` comes from `P` to `Q`, or to `E` with an error. -/
structure Leads (m : Nat) (P : AuthWorld → AuthHistory → Prop) (x : AuthM α)
    (Q : α → AuthWorld → AuthHistory → Prop) (E : AuthWorld → AuthHistory → Prop) : Prop where
  triple : Procedure.Triple (AuthWorld.handle m) P x.run (Ends Q E)

theorem Leads.mono {x : AuthM α} {P' : AuthWorld → AuthHistory → Prop}
    {T : α → AuthWorld → AuthHistory → Prop} {E' : AuthWorld → AuthHistory → Prop}
    (hx : Leads m P x Q E) (hpre : ∀ w h, P' w h → P w h) (hpost : ∀ a w h, Q a w h → T a w h)
    (herr : ∀ w h, E w h → E' w h) : Leads m P' x T E' :=
  ⟨hx.triple.mono hpre fun result w h hr => by
    cases result with
    | ok a => exact hpost a w h hr
    | error error => exact herr w h hr⟩

theorem Leads.pre {x : AuthM α} {P' : AuthWorld → AuthHistory → Prop} (hx : Leads m P x Q E)
    (hpre : ∀ w h, P' w h → P w h) : Leads m P' x Q E :=
  hx.mono hpre (fun _ _ _ hpost => hpost) fun _ _ herr => herr

/-- The operations made before stay, and what they say. -/
theorem Leads.keeping {F : AuthHistory → Prop} {x : AuthM α} (hx : Leads m P x Q E)
    (hF : ∀ h more, F h → F (h ++ more)) :
    Leads m (fun w h => P w h ∧ F h) x (fun a w h => Q a w h ∧ F h) E := by
  refine ⟨fun w h hpre => ?_⟩
  have hend := hx.triple w h hpre.1
  have hafter := hF h (x.run.events (AuthWorld.handle m) w) hpre.2
  revert hend
  cases (x.run.run (AuthWorld.handle m) w).1 with
  | ok a => exact fun hpost => ⟨hpost, hafter⟩
  | error error => exact id

/-- What the first state says of the arguments may be used. -/
theorem leads_knowing {C : Prop} {x : AuthM α} (hC : ∀ w h, P w h → C) (hx : C → Leads m P x Q E) :
    Leads m P x Q E := ⟨fun w h hpre => (hx (hC w h hpre)).triple w h hpre⟩

theorem leads_pure {a : α} (ha : ∀ w h, P w h → Q a w h) : Leads m P (pure a) Q E :=
  ⟨Procedure.triple_ret ha⟩

theorem leads_result {result : Except AuthError α} (hok : ∀ a w h, result = .ok a → P w h → Q a w h)
    (herr : ∀ w h, P w h → E w h) : Leads m P (ExceptT.mk (pure result)) Q E :=
  ⟨Procedure.triple_ret fun w h hpre => by
    cases result with
    | ok a => exact hok a w h rfl hpre
    | error error => exact herr w h hpre⟩

theorem leads_throw {error : AuthError} (herr : ∀ w h, P w h → E w h) :
    Leads m P (throw error : AuthM α) Q E := ⟨Procedure.triple_ret herr⟩

theorem Leads.bind {T : β → AuthWorld → AuthHistory → Prop} {x : AuthM α} {f : α → AuthM β}
    (hx : Leads m P x Q E) (hf : ∀ a, Leads m (Q a) (f a) T E) :
    Leads m P (x >>= f) T E :=
  ⟨hx.triple.bind fun result => by
    cases result with
    | ok a => exact (hf a).triple
    | error error => exact Procedure.triple_ret fun _ _ herr => herr⟩

theorem Leads.map {T : β → AuthWorld → AuthHistory → Prop} {x : AuthM α} {f : α → β}
    (hx : Leads m P x Q E) (hf : ∀ a w h, Q a w h → T (f a) w h) : Leads m P (f <$> x) T E :=
  hx.bind fun a => leads_pure (hf a)

theorem leads_perform {op : AuthOp} {Q : op.Answer → AuthWorld → AuthHistory → Prop}
    (hop : ∀ w h, P w h →
      Q (AuthWorld.handle m op w).1 (AuthWorld.handle m op w).2 (h ++ [⟨op, (AuthWorld.handle m op w).1⟩])) :
    Leads m P (perform op) Q E :=
  ⟨(Procedure.triple_perform hop).bind fun _ => Procedure.triple_ret fun _ _ hpost => hpost⟩

theorem leads_okOr {error : AuthError} {found : Option α} (hok : ∀ a w h, found = some a → P w h → Q a w h)
    (herr : ∀ w h, P w h → E w h) : Leads m P (okOr error found) Q E := by
  cases found with
  | none => exact leads_throw herr
  | some a => exact leads_pure fun w h hpre => hok a w h rfl hpre

/-- Calls whose operations keep an invariant that gives them the answers they rely on. -/
theorem Meets.leads {R : (op : AuthOp) → op.Answer → Prop} {C : AuthOp → Prop} {K : AuthHistory → α → Prop}
    {I : AuthWorld → AuthHistory → Prop} {x : AuthM α} (hx : ∀ h, Meets R (fun _ op => C op) K x h)
    (hkeep : ∀ op w h, I w h → C op → R op (AuthWorld.handle m op w).1 ∧
      I (AuthWorld.handle m op w).2 (h ++ [⟨op, (AuthWorld.handle m op w).1⟩])) :
    Leads m I x (fun a w h => K h a ∧ I w h) I :=
  ⟨(Procedure.Sat.triple (fun h => (hx h).sat) hkeep).mono (fun _ _ h => h) fun result w h hr => by
    cases result with
    | ok a => exact ⟨hr.1 a rfl, hr.2⟩
    | error error => exact hr.2⟩

/-- What a call says whatever is answered. -/
theorem Leads.also {K : AuthHistory → α → Prop} {x : AuthM α} (hx : Leads m P x Q E)
    (hK : ∀ w h, P w h → Meets (fun _ _ => True) (fun _ _ => True) K x h) :
    Leads m P x (fun a w h => Q a w h ∧ K h a) E := by
  refine ⟨fun w h hpre => ?_⟩
  have hend := hx.triple w h hpre
  have hresult := (Procedure.Sat.run (AuthWorld.handle m) (I := fun _ => True) (s := w) (hK w h hpre).sat trivial
    fun _ _ _ _ _ => ⟨trivial, trivial⟩).1
  revert hend hresult
  cases (x.run.run (AuthWorld.handle m) w).1 with
  | ok a => exact fun hpost hresult => ⟨hpost, hresult a rfl⟩
  | error error => exact fun herr _ => herr

/-- The lock is given back in either case. -/
theorem Leads.unlocking {unlock : AuthOp} {x : AuthM α} (hx : Leads m P x Q E)
    (hpost : ∀ a w h, Q a w h → Q a (AuthWorld.handle m unlock w).2
      (h ++ [⟨unlock, (AuthWorld.handle m unlock w).1⟩]))
    (herr : ∀ w h, E w h → E (AuthWorld.handle m unlock w).2
      (h ++ [⟨unlock, (AuthWorld.handle m unlock w).1⟩])) :
    Leads m P (AuthM.unlocking unlock x) Q E := by
  refine ⟨hx.triple.bind fun result => ?_⟩
  have hunlock : Procedure.Triple (AuthWorld.handle m) (Ends Q E result) (Procedure.perform unlock)
      fun _ => Ends Q E result := by
    refine Procedure.triple_perform fun w h hr => ?_
    cases result with
    | ok a => exact hpost a w h hr
    | error error => exact herr w h hr
  exact hunlock.bind fun _ => Procedure.triple_ret fun _ _ hr => hr

/-- The state in which a call is left. -/
theorem leads_exec {P E : AuthWorld → Prop} {Q : α → AuthWorld → Prop} {x : AuthM α} {w : AuthWorld}
    (hx : Leads m (fun w _ => P w) x (fun a w _ => Q a w) fun w _ => E w) (hw : P w) :
    match exec m x w with
    | (.ok a, w') => Q a w'
    | (.error _, w') => E w' := by
  have hend := hx.triple w [] hw
  unfold exec
  revert hend
  rcases x.run.run (AuthWorld.handle m) w with ⟨result, w'⟩
  cases result <;> exact id

/-- Whatever comes of it. -/
theorem leads_left {P : AuthWorld → Prop} {x : AuthM α} {w : AuthWorld}
    (hx : Leads m (fun w _ => P w) x (fun _ w _ => P w) fun w _ => P w) (hw : P w) : P (exec m x w).2 := by
  have hend := leads_exec hx hw
  revert hend
  rcases exec m x w with ⟨result, w'⟩
  cases result <;> exact id

end AuthM

/-! ## A secret store that works -/

namespace AuthWorld

variable {w : AuthWorld} {m : Nat}

theorem attempt_ok {α : Type} {result : α} {after : AuthWorld} (h : w.input.fault = none) :
    w.attempt result after = (.ok result, after.tick) := by
  unfold attempt
  rw [h]

theorem attempt_error {α : Type} {result : α} {after : AuthWorld} {error : AuthError}
    (h : w.input.fault = some error) : w.attempt result after = (.error error, w.tick) := by
  unfold attempt
  rw [h]

theorem handle_get (h : w.Working) (key : SecretKey) :
    handle m (.get key) w = (.ok (w.secrets key), w.tick) := attempt_ok (h _)

theorem handle_set (h : w.Working) (key : SecretKey) (value : String) :
    handle m (.set key value) w = (.ok (), (w.write key (some value)).tick) := attempt_ok (h _)

@[simp] theorem secrets_tick (w : AuthWorld) : w.tick.secrets = w.secrets := rfl
@[simp] theorem managers_tick (w : AuthWorld) : w.tick.managers = w.managers := rfl
@[simp] theorem inputs_tick (w : AuthWorld) : w.tick.inputs = w.inputs := rfl
@[simp] theorem clock_tick (w : AuthWorld) : w.tick.clock = w.clock + 1 := rfl
@[simp] theorem clock_write (key : SecretKey) (value : Option String) : (w.write key value).clock = w.clock := rfl
@[simp] theorem managers_write (key : SecretKey) (value : Option String) : (w.write key value).managers = w.managers :=
  rfl
@[simp] theorem inputs_write (key : SecretKey) (value : Option String) : (w.write key value).inputs = w.inputs := rfl

@[simp] theorem secrets_modify (f : CodexManager → CodexManager) : (w.modify m f).secrets = w.secrets := rfl
@[simp] theorem inputs_modify (f : CodexManager → CodexManager) : (w.modify m f).inputs = w.inputs := rfl

@[simp] theorem managers_modify (f : CodexManager → CodexManager) (m' : Nat) :
    (w.modify m f).managers m' = if m' = m then f (w.managers m) else w.managers m' :=
  Function.update_apply _ _ _ _

@[simp] theorem secrets_write (key key' : SecretKey) (value : Option String) :
    (w.write key value).secrets key' = if key' = key then value else w.secrets key' :=
  Function.update_apply _ _ _ _

end AuthWorld

namespace AuthM

variable {m : Nat} {P : AuthWorld → AuthHistory → Prop} {E : AuthWorld → AuthHistory → Prop} {key : SecretKey}

theorem leads_getText {Q : Option String → AuthWorld → AuthHistory → Prop}
    (hok : ∀ w h, w.input.fault = none → P w h →
      Q (notBlank (w.secrets key)) w.tick (h ++ [⟨.get key, .ok (w.secrets key)⟩]))
    (herr : ∀ w h error, w.input.fault = some error → P w h → E w.tick (h ++ [⟨.get key, .error error⟩])) :
    Leads m P (getText key) Q E := by
  refine Leads.map (Q := fun value => Q (notBlank value)) ⟨fun w h hpre => ?_⟩ fun _ _ _ hpost => hpost
  show Ends _ E (AuthWorld.handle m (.get key) w).1 (AuthWorld.handle m (.get key) w).2
    (h ++ [⟨.get key, (AuthWorld.handle m (.get key) w).1⟩])
  cases hfault : w.input.fault with
  | none =>
    rw [show AuthWorld.handle m (.get key) w = _ from AuthWorld.attempt_ok hfault]
    exact hok w h hfault hpre
  | some error =>
    rw [show AuthWorld.handle m (.get key) w = _ from AuthWorld.attempt_error hfault]
    exact herr w h error hfault hpre

theorem leads_setText {value : String} {Q : Unit → AuthWorld → AuthHistory → Prop}
    (hok : ∀ w h, w.input.fault = none → P w h →
      Q () (w.write key (some value)).tick (h ++ [⟨.set key value, .ok ()⟩]))
    (herr : ∀ w h error, w.input.fault = some error → P w h → E w.tick (h ++ [⟨.set key value, .error error⟩])) :
    Leads m P (setText key value) Q E := by
  refine ⟨fun w h hpre => ?_⟩
  show Ends Q E (AuthWorld.handle m (.set key value) w).1 (AuthWorld.handle m (.set key value) w).2
    (h ++ [⟨.set key value, (AuthWorld.handle m (.set key value) w).1⟩])
  cases hfault : w.input.fault with
  | none =>
    rw [show AuthWorld.handle m (.set key value) w = _ from AuthWorld.attempt_ok hfault]
    exact hok w h hfault hpre
  | some error =>
    rw [show AuthWorld.handle m (.set key value) w = _ from AuthWorld.attempt_error hfault]
    exact herr w h error hfault hpre

theorem leads_deleteSecret {Q : Unit → AuthWorld → AuthHistory → Prop}
    (hok : ∀ w h, w.input.fault = none → P w h → Q () (w.write key none).tick (h ++ [⟨.delete key, .ok ()⟩]))
    (herr : ∀ w h error, w.input.fault = some error → P w h → E w.tick (h ++ [⟨.delete key, .error error⟩])) :
    Leads m P (deleteSecret key) Q E := by
  refine ⟨fun w h hpre => ?_⟩
  show Ends Q E (AuthWorld.handle m (.delete key) w).1 (AuthWorld.handle m (.delete key) w).2
    (h ++ [⟨.delete key, (AuthWorld.handle m (.delete key) w).1⟩])
  cases hfault : w.input.fault with
  | none =>
    rw [show AuthWorld.handle m (.delete key) w = _ from AuthWorld.attempt_ok hfault]
    exact hok w h hfault hpre
  | some error =>
    rw [show AuthWorld.handle m (.delete key) w = _ from AuthWorld.attempt_error hfault]
    exact herr w h error hfault hpre

end AuthM

end Aifluxon
