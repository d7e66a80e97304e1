import Aifluxon.Auth.Manager
import Aifluxon.Lib.Machine

/-!
# One login at a time

`begin_login` with the `wait` and the `cancel` of its attempt, and the flag `login_in_progress` of the manager.

* `LoginPhase` : where a login stands between two of its suspension points;
* `LoginPhase.step` : what comes next, and whether it clears the flag;
* `loginMachine` : the logins of a manager, interleaved, each of which may be dropped;
* `LoginSystem.Agrees` : the flag is set exactly while a login is live;
* `login_flag_iff` : it agrees as long as nothing is dropped; `dropped_login_stays`.
-/

namespace Aifluxon

open Machine (Free)

/-! ## A login -/

structure CodexLoginAttempt where
  authorizationUrl : String
  listener : Option Nat
  deriving DecidableEq

/-- `begin_login` that waits for its listener; an attempt; and `wait`, at the callback, at the exchange of the code, or at
the response to the browser, with the account that it has stored or the error. -/
inductive LoginPhase where
  | binding
  | attempt (login : CodexLoginAttempt)
  | waiting
  | exchanging (code : String)
  | responding (res : Except AuthError String)
  | failed (error : AuthError)
  | done (res : Except AuthError CodexAccount)
  | cancelled
  | dropped

/-- What a login gets from its environment. The results of the calls that it makes are inputs. -/
inductive LoginInput where
  | bound (listener : Except AuthError Nat) (url : Except AuthError String)
  | wait
  | callback (code : Except AuthError String)
  | exchanged (accountId : Except AuthError (Option String)) (stored : Except AuthError Unit)
  | responded (status : Except AuthError CodexAuthStatus)
  | cancel
  | dropAttempt
  | dropWait

namespace LoginPhase

/-- `begin_login` runs, or the attempt or its `wait` is there. -/
def live : LoginPhase → Bool
  | .binding | .attempt _ | .waiting | .exchanging _ | .responding _ => true
  | .failed _ | .done _ | .cancelled | .dropped => false

/-- The next phase, and whether the flag is set to `false` on the way. -/
def step : LoginPhase → LoginInput → Option (LoginPhase × Bool)
  | .binding, .bound (.error error) _ => some (.failed error, true)
  | .binding, .bound (.ok _) (.error error) => some (.failed error, true)
  | .binding, .bound (.ok listener) (.ok url) => some (.attempt ⟨url, some listener⟩, false)
  | .attempt login, .wait => match login.listener with
    | none => some (.done (.error ⟨.cancelled, "Codex login attempt is no longer active."⟩), true)
    | some _ => some (.waiting, false)
  | .waiting, .callback (.error error) => some (.done (.error error), true)
  | .waiting, .callback (.ok code) => some (.exchanging code, false)
  | .exchanging _, .exchanged (.error error) _ => some (.responding (.error error), false)
  | .exchanging _, .exchanged (.ok none) _ =>
    some (.done (.error ⟨.tokenExchange, "Codex ID token is missing a ChatGPT account id."⟩), true)
  | .exchanging _, .exchanged (.ok (some _)) (.error error) => some (.responding (.error error), false)
  | .exchanging _, .exchanged (.ok (some accountId)) (.ok ()) => some (.responding (.ok accountId), false)
  | .responding (.error error), .responded _ => some (.done (.error error), true)
  | .responding (.ok _), .responded status => some (.done (status.map CodexAuthStatus.account), true)
  | .attempt _, .cancel => some (.cancelled, true)
  -- neither the attempt nor the future of `wait` has a destructor that clears the flag
  | .attempt _, .dropAttempt => some (.dropped, false)
  | .waiting, .dropWait | .exchanging _, .dropWait | .responding _, .dropWait => some (.dropped, false)
  | _, _ => none

end LoginPhase

def LoginInput.isDrop : LoginInput → Bool
  | .dropAttempt | .dropWait => true
  | _ => false

theorem loginPhase_step {phase phase' : LoginPhase} {a : LoginInput} {clears : Bool}
    (h : phase.step a = some (phase', clears)) :
    phase.live = true ∧ (a.isDrop = true → phase'.live = false ∧ clears = false) ∧
      (a.isDrop = false → clears = !phase'.live) := by
  unfold LoginPhase.step at h
  split at h
  case h_4 => split at h <;> cases h <;> simp [LoginPhase.live, LoginInput.isDrop]
  case h_18 => cases h
  all_goals
    cases h
    simp [LoginPhase.live, LoginInput.isDrop]

/-! ## The manager -/

structure LoginSystem where
  loginInProgress : Bool
  logins : List LoginPhase

def LoginSystem.new : LoginSystem := ⟨false, []⟩

inductive LoginAction where
  | begin
  | login (n : Nat) (a : LoginInput)

def LoginAction.isDrop : LoginAction → Bool
  | .begin => false
  | .login _ a => a.isDrop

/-- The logins of a manager. `begin_login` begins with `compare_exchange(false, true)` on the flag. -/
def loginMachine : Machine LoginSystem LoginAction Unit where
  step s
    | .begin =>
      if s.loginInProgress then
        some (⟨true, s.logins ++ [.failed ⟨.browser, "A Codex login is already in progress."⟩]⟩, [])
      else some (⟨true, s.logins ++ [.binding]⟩, [])
    | .login n a => match s.logins[n]? with
      | none => none
      | some phase => match phase.step a with
        | none => none
        | some (phase', clears) => some (⟨s.loginInProgress && !clears, s.logins.set n phase'⟩, [])

namespace LoginSystem

def HasLive (s : LoginSystem) : Prop := ∃ phase ∈ s.logins, phase.live = true

/-- **The flag agrees**: it is set exactly while a login is live. -/
def Agrees (s : LoginSystem) : Prop := s.loginInProgress = true ↔ s.HasLive

/-- The login at `n` is live, and no other is. -/
def Sole (s : LoginSystem) (n : Nat) : Prop :=
  (∃ phase, s.logins[n]? = some phase ∧ phase.live = true) ∧
    ∀ m phase, s.logins[m]? = some phase → phase.live = true → m = n

/-- At most one login is live, and the flag tells whether there is one. -/
def Exclusive (s : LoginSystem) : Prop :=
  (s.loginInProgress = false ∧ ¬ s.HasLive) ∨ s.loginInProgress = true ∧ ∃ n, s.Sole n

/-- The flag is set, and no login is there to clear it. -/
def Stuck (s : LoginSystem) : Prop := s.loginInProgress = true ∧ ¬ s.HasLive

section Laws
variable {s u : LoginSystem} {a : LoginAction} {n : Nat} {o : List Unit} {phase phase' : LoginPhase}

theorem HasLive.of_get (h : s.logins[n]? = some phase) (hlive : phase.live = true) : s.HasLive :=
  ⟨phase, List.mem_of_getElem? h, hlive⟩

theorem Sole.hasLive (h : s.Sole n) : s.HasLive := by
  obtain ⟨⟨phase, hphase, hlive⟩, -⟩ := h
  exact .of_get hphase hlive

theorem Exclusive.agrees (h : s.Exclusive) : s.Agrees := by
  rcases h with ⟨hflag, hnone⟩ | ⟨hflag, n, hsole⟩
  · simp [Agrees, hflag, hnone]
  · simp [Agrees, hflag, hsole.hasLive]

theorem Stuck.not_agrees (h : s.Stuck) : ¬ s.Agrees := fun hagrees => h.2 (hagrees.1 h.1)

/-- A list of logins with one that is not live at the end. -/
theorem not_hasLive_append (h : ¬ s.HasLive) (hphase : phase.live = false) (flag : Bool) :
    ¬ HasLive ⟨flag, s.logins ++ [phase]⟩ := by
  rintro ⟨p, hp, hlive⟩
  rcases List.mem_append.1 hp with hp | hp
  · exact h ⟨p, hp, hlive⟩
  · rw [List.mem_singleton.1 hp, hphase] at hlive
    cases hlive

theorem Sole.append (h : s.Sole n) (hphase : phase.live = false) (flag : Bool) :
    Sole ⟨flag, s.logins ++ [phase]⟩ n := by
  obtain ⟨⟨p, hp, hlive⟩, honly⟩ := h
  refine ⟨⟨p, ?_, hlive⟩, fun m p' hp' hlive' => ?_⟩
  · have hlt := (List.getElem?_eq_some_iff.1 hp).1
    rw [List.getElem?_append_left hlt, hp]
  · rcases Nat.lt_or_ge m s.logins.length with hlt | hge
    · rw [List.getElem?_append_left hlt] at hp'
      exact honly m p' hp' hlive'
    · rw [List.getElem?_append_right hge, List.getElem?_singleton] at hp'
      split at hp' <;> cases hp'
      rw [hphase] at hlive'
      cases hlive'

/-- The first login of a manager without a live one. -/
theorem sole_append (h : ¬ s.HasLive) (hphase : phase.live = true) (flag : Bool) :
    Sole ⟨flag, s.logins ++ [phase]⟩ s.logins.length := by
  refine ⟨⟨phase, by simp, hphase⟩, fun m p hp hlive => ?_⟩
  rcases Nat.lt_or_ge m s.logins.length with hlt | hge
  · rw [List.getElem?_append_left hlt] at hp
    exact absurd (.of_get hp hlive) h
  · rw [List.getElem?_append_right hge, List.getElem?_singleton] at hp
    split at hp <;> cases hp
    omega

theorem Sole.set (h : s.Sole n) (hphase : phase.live = true) (flag : Bool) : Sole ⟨flag, s.logins.set n phase⟩ n := by
  obtain ⟨⟨p, hp, -⟩, honly⟩ := h
  have hlt := (List.getElem?_eq_some_iff.1 hp).1
  refine ⟨⟨phase, by simp [hlt], hphase⟩, fun m p' hp' hlive' => ?_⟩
  by_contra hne
  rw [List.getElem?_set_ne (Ne.symm hne)] at hp'
  exact hne (honly m p' hp' hlive')

theorem Sole.ended (h : s.Sole n) (hphase : phase.live = false) (flag : Bool) :
    ¬ HasLive ⟨flag, s.logins.set n phase⟩ := by
  rintro ⟨p, hp, hlive⟩
  obtain ⟨m, hm⟩ := List.getElem?_of_mem hp
  rw [List.getElem?_set] at hm
  split at hm
  · split at hm <;> cases hm
    rw [hphase] at hlive
    cases hlive
  · rename_i hne
    exact hne (h.2 m p hm hlive).symm

/-- **A step** keeps the logins exclusive, unless it drops one: then the manager is stuck. -/
theorem Exclusive.step (h : s.Exclusive) (hstep : loginMachine.step s a = some (u, o)) :
    (a.isDrop = false → u.Exclusive) ∧ (a.isDrop = true → u.Stuck) := by
  cases a with
  | begin =>
    refine ⟨fun _ => ?_, fun hdrop => by cases hdrop⟩
    simp only [loginMachine] at hstep
    rcases h with ⟨hflag, hnone⟩ | ⟨hflag, n, hsole⟩
    · rw [if_neg (by simp [hflag])] at hstep
      cases hstep
      exact .inr ⟨rfl, _, sole_append hnone rfl true⟩
    · rw [if_pos hflag] at hstep
      cases hstep
      exact .inr ⟨rfl, n, hsole.append rfl true⟩
  | login n a =>
    simp only [loginMachine] at hstep
    split at hstep
    · cases hstep
    rename_i phase hphase
    split at hstep <;> cases hstep
    rename_i phase' clears hlogin
    obtain ⟨hlive, hdropped, hkept⟩ := loginPhase_step hlogin
    rcases h with ⟨-, hnone⟩ | ⟨hflag, m, hsole⟩
    · exact absurd (.of_get hphase hlive) hnone
    obtain rfl : n = m := hsole.2 n phase hphase hlive
    constructor
    · intro hdrop
      rw [hkept hdrop]
      cases hlive' : phase'.live with
      | true => exact .inr ⟨by simp [hflag], n, hsole.set hlive' _⟩
      | false => exact .inl ⟨by simp, hsole.ended hlive' _⟩
    · intro hdrop
      obtain ⟨hlive', rfl⟩ := hdropped hdrop
      exact ⟨by simp [hflag], hsole.ended hlive' _⟩

/-- A stuck manager stays stuck: it refuses every login. -/
theorem Stuck.step (h : s.Stuck) (hstep : loginMachine.step s a = some (u, o)) : u.Stuck := by
  cases a with
  | begin =>
    simp only [loginMachine, if_pos h.1] at hstep
    cases hstep
    exact ⟨rfl, not_hasLive_append h.2 rfl true⟩
  | login n a =>
    simp only [loginMachine] at hstep
    split at hstep
    · cases hstep
    rename_i phase hphase
    split at hstep <;> cases hstep
    rename_i phase' clears hlogin
    exact absurd (.of_get hphase (loginPhase_step hlogin).1) h.2

theorem run_laws {as : List LoginAction} {tr : List Unit} (hrun : loginMachine.Run Free .new as tr s) :
    ((∀ a ∈ as, a.isDrop = false) → s.Exclusive) ∧ ((∃ a ∈ as, a.isDrop = true) → s.Stuck) := by
  refine hrun.history (P := fun as _ s =>
    ((∀ a ∈ as, a.isDrop = false) → s.Exclusive) ∧ ((∃ a ∈ as, a.isDrop = true) → s.Stuck)) ⟨fun _ => ?_, ?_⟩ ?_
  · refine .inl ⟨rfl, ?_⟩
    rintro ⟨phase, hphase, -⟩
    cases hphase
  · rintro ⟨a, ha, -⟩
    cases ha
  · intro as tr s a u o _ hlaws _ hstep
    constructor
    · intro hnone
      have hexclusive := hlaws.1 fun b hb => hnone b (List.mem_append_left _ hb)
      exact (hexclusive.step hstep).1 (hnone a (by simp))
    · rintro ⟨b, hb, hdrop⟩
      by_cases hearlier : ∃ b ∈ as, b.isDrop = true
      · exact (hlaws.2 hearlier).step hstep
      · have hexclusive : s.Exclusive := hlaws.1 fun c hc => by
          by_contra hne
          exact hearlier ⟨c, hc, by simpa using hne⟩
        rcases List.mem_append.1 hb with hb | hb
        · exact absurd ⟨b, hb, hdrop⟩ hearlier
        · rw [List.mem_singleton.1 hb] at hdrop
          exact (hexclusive.step hstep).2 hdrop

end Laws

end LoginSystem

open LoginSystem

/-- **The flag and the logins**: after any sequence of steps the flag is set exactly while a login is live, if and only
if no attempt and no `wait` has been dropped. -/
theorem login_flag_iff {as : List LoginAction} {tr : List Unit} {s : LoginSystem}
    (hrun : loginMachine.Run Free .new as tr s) : s.Agrees ↔ ∀ a ∈ as, a.isDrop = false := by
  obtain ⟨hkept, hstuck⟩ := run_laws hrun
  constructor
  · intro hagrees a ha
    by_contra hdrop
    exact (hstuck ⟨a, ha, by simpa using hdrop⟩).not_agrees hagrees
  · exact fun hnone => (hkept hnone).agrees

/-- Once no login is live, the next one begins; after a drop, none ever does. -/
theorem begin_after {as : List LoginAction} {tr : List Unit} {s : LoginSystem}
    (hrun : loginMachine.Run Free .new as tr s) (hnone : ¬ s.HasLive) :
    loginMachine.step s .begin = some (⟨true, s.logins ++
      [if ∀ a ∈ as, a.isDrop = false then .binding else .failed ⟨.browser, "A Codex login is already in progress."⟩]⟩, []) := by
  obtain ⟨hkept, hstuck⟩ := run_laws hrun
  by_cases hdrops : ∀ a ∈ as, a.isDrop = false
  · rcases hkept hdrops with ⟨hflag, -⟩ | ⟨-, n, hsole⟩
    · simp [loginMachine, hflag, if_pos hdrops]
    · exact absurd hsole.hasLive hnone
  · have hdrop : ∃ a ∈ as, a.isDrop = true := by simpa using hdrops
    simp [loginMachine, (hstuck hdrop).1, if_neg hdrops]

/-- A login from its start to the account. -/
def completedLogin : List LoginAction :=
  [.begin, .login 0 (.bound (.ok 1455) (.ok "https://auth.openai.com/oauth/authorize")), .login 0 .wait,
    .login 0 (.callback (.ok "code")), .login 0 (.exchanged (.ok (some "a")) (.ok ())),
    .login 0 (.responded (.ok ⟨⟨"a", none, none⟩, .authenticated⟩))]

theorem login_flag_iff_completed : ∃ tr s, loginMachine.Run Free .new completedLogin tr s ∧ s.Agrees := by
  have hrun := Machine.exec_free (M := loginMachine) (s := .new) (l := completedLogin) rfl
  exact ⟨_, _, hrun, (login_flag_iff hrun).2 (by decide)⟩

/-- An attempt is dropped: no login is live, the flag is set, and the next login is refused. -/
theorem dropped_login_stays : ∃ tr s,
    loginMachine.Run Free .new [.begin, .login 0 (.bound (.ok 1455) (.ok "url")), .login 0 .dropAttempt] tr s ∧
      s.loginInProgress = true ∧ ¬ s.HasLive ∧ ¬ s.Agrees ∧
      loginMachine.step s .begin =
        some (⟨true, [.dropped, .failed ⟨.browser, "A Codex login is already in progress."⟩]⟩, []) := by
  have hrun := Machine.exec_free (M := loginMachine) (s := .new)
    (l := [.begin, .login 0 (.bound (.ok 1455) (.ok "url")), .login 0 .dropAttempt]) rfl
  have hstuck := (run_laws hrun).2 ⟨.login 0 .dropAttempt, by simp, rfl⟩
  exact ⟨_, _, hrun, hstuck.1, hstuck.2, hstuck.not_agrees, rfl⟩

end Aifluxon
