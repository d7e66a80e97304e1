import Aifluxon.Lib.Machine
import Mathlib.Logic.Function.Basic

/-!
# Procedures

A procedure calls operations, one at a time, and goes on with their answers. What an operation answers,
and does to a state, is left to a handler.

* `Procedure` : a monad; `Procedure.perform` : a single call;
* `Procedure.run`, `Procedure.events` : a procedure alone, and the calls that it makes (`run_bind`,
  `events_bind`); `Procedure.exec` : of one that may fail (`exec_bind`);
* `Procedure.Sat R P Q` : as long as the answers meet `R`, every call meets `P` and every result meets `Q`,
  after the calls made before (`Sat.bind`, `Sat.mono`, `Sat.run`);
* `Procedure.Triple` : from one state to another (`Triple.bind`, `Sat.triple`);
* `Pool.machine` : procedures that share a state, interleaved call by call; `Pool.sat_of_run`.
-/

/-- Operations `O`, each with the type of its answers, and results of type `α`. -/
inductive Procedure {O : Type} (Ans : O → Type) (α : Type) where
  | ret (a : α)
  | call (o : O) (next : Ans o → Procedure Ans α)

namespace Procedure

variable {O : Type} {Ans : O → Type} {α β σ : Type}

protected def bind : Procedure Ans α → (α → Procedure Ans β) → Procedure Ans β
  | ret a, f => f a
  | call o next, f => call o fun r => (next r).bind f

instance : Monad (Procedure Ans) where
  pure := ret
  bind := Procedure.bind

/-- One call, for its answer. -/
def perform (o : O) : Procedure Ans (Ans o) := call o ret

@[simp] theorem pure_eq (a : α) : (pure a : Procedure Ans α) = ret a := rfl

@[simp] theorem ret_bind (a : α) (f : α → Procedure Ans β) : ret a >>= f = f a := rfl

@[simp] theorem call_bind (o : O) (next : Ans o → Procedure Ans α) (f : α → Procedure Ans β) :
    call o next >>= f = call o fun r => next r >>= f := rfl

@[simp] theorem perform_bind (o : O) (f : Ans o → Procedure Ans β) : perform o >>= f = call o f := rfl

instance : LawfulMonad (Procedure Ans) := by
  refine .mk' _ (fun p => ?_) (fun _ _ => rfl) fun p f g => ?_
  · show p.bind (fun a => ret a) = p
    induction p with
    | ret a => rfl
    | call o next ih => exact congrArg (call o) (funext ih)
  · show (p.bind f).bind g = p.bind fun a => (f a).bind g
    induction p with
    | ret a => rfl
    | call o next ih => exact congrArg (call o) (funext ih)

/-! ## Alone -/

variable (handle : (o : O) → σ → Ans o × σ)

/-- The result and the state that is left. -/
def run : Procedure Ans α → σ → α × σ
  | ret a, s => (a, s)
  | call o next, s => (next (handle o s).1).run (handle o s).2

/-- The calls with their answers, in order. -/
def events : Procedure Ans α → σ → List (Sigma Ans)
  | ret _, _ => []
  | call o next, s => ⟨o, (handle o s).1⟩ :: (next (handle o s).1).events (handle o s).2

@[simp] theorem run_ret (a : α) (s : σ) : (ret a : Procedure Ans α).run handle s = (a, s) := rfl

@[simp] theorem run_call (o : O) (next : Ans o → Procedure Ans α) (s : σ) :
    (call o next).run handle s = (next (handle o s).1).run handle (handle o s).2 := rfl

@[simp] theorem run_perform (o : O) (s : σ) : (perform o : Procedure Ans (Ans o)).run handle s = handle o s := rfl

theorem run_bind (p : Procedure Ans α) (f : α → Procedure Ans β) (s : σ) :
    (p >>= f).run handle s = (f (p.run handle s).1).run handle (p.run handle s).2 := by
  induction p generalizing s with
  | ret a => rfl
  | call o next ih => exact ih _ _

/-- A procedure that may fail, followed by one that goes on with its result. -/
theorem run_bind_except {ε : Type} (x : ExceptT ε (Procedure Ans) α) (f : α → ExceptT ε (Procedure Ans) β) (s : σ) :
    (x >>= f).run.run handle s = match x.run.run handle s with
      | (.ok a, s) => (f a).run.run handle s
      | (.error error, s) => (.error error, s) := by
  show (x.run >>= _).run handle s = _
  rw [run_bind]
  rcases x.run.run handle s with ⟨result, t⟩
  cases result <;> rfl

@[simp] theorem events_ret (a : α) (s : σ) : (ret a : Procedure Ans α).events handle s = [] := rfl

@[simp] theorem events_call (o : O) (next : Ans o → Procedure Ans α) (s : σ) :
    (call o next).events handle s = ⟨o, (handle o s).1⟩ :: (next (handle o s).1).events handle (handle o s).2 := rfl

theorem events_bind (p : Procedure Ans α) (f : α → Procedure Ans β) (s : σ) :
    (p >>= f).events handle s =
      p.events handle s ++ (f (p.run handle s).1).events handle (p.run handle s).2 := by
  induction p generalizing s with
  | ret a => rfl
  | call o next ih =>
    rw [call_bind, events_call, ih]
    rfl

/-- A test of procedures that may fail. -/
def returnedOk {ε : Type} : Procedure Ans (Except ε α) → Bool
  | ret (.ok _) => true
  | _ => false

theorem exists_of_returnedOk {ε : Type} {p : Procedure Ans (Except ε α)} (h : p.returnedOk = true) :
    ∃ a, p = ret (.ok a) := by
  cases p with
  | call o next => cases h
  | ret result => cases result with
    | error error => cases h
    | ok a => exact ⟨a, rfl⟩

theorem eq_of_returnedOk {ε : Type} {p : Procedure Ans (Except ε Unit)} (h : p.returnedOk = true) : p = ret (.ok ()) := by
  obtain ⟨u, rfl⟩ := exists_of_returnedOk h
  rfl

/-! ## Procedures that may fail -/

/-- The result and the state that is left. -/
def exec {ε : Type} (x : ExceptT ε (Procedure Ans) α) (s : σ) : Except ε α × σ := x.run.run handle s

@[simp] theorem exec_pure {ε : Type} (a : α) (s : σ) :
    exec handle (pure a : ExceptT ε (Procedure Ans) α) s = (.ok a, s) := rfl

@[simp] theorem exec_throw {ε : Type} (error : ε) (s : σ) :
    exec handle (throw error : ExceptT ε (Procedure Ans) α) s = (.error error, s) := rfl

theorem exec_bind {ε : Type} (x : ExceptT ε (Procedure Ans) α) (f : α → ExceptT ε (Procedure Ans) β) (s : σ) :
    exec handle (x >>= f) s = match exec handle x s with
      | (.ok a, s) => exec handle (f a) s
      | (.error error, s) => (.error error, s) := by
  unfold exec
  rw [run_bind_except]

/-- Two procedures that succeed one after the other have both succeeded. -/
theorem exec_bind_ok {ε : Type} {x : ExceptT ε (Procedure Ans) α} {f : α → ExceptT ε (Procedure Ans) β} {b : β}
    {s t : σ} (h : exec handle (x >>= f) s = (.ok b, t)) :
    ∃ a s₁, exec handle x s = (.ok a, s₁) ∧ exec handle (f a) s₁ = (.ok b, t) := by
  rw [exec_bind] at h
  rcases hx : exec handle x s with ⟨result, s₁⟩
  rw [hx] at h
  cases result with
  | ok a => exact ⟨a, s₁, rfl, h⟩
  | error error => cases h

/-! ## Whatever is answered -/

/-- Every call meets `P` and every result meets `Q`, after the calls in `h` and those made since, as long
as the answers meet `R`. -/
def Sat (R : (o : O) → Ans o → Prop) (P : List (Sigma Ans) → O → Prop) (Q : List (Sigma Ans) → α → Prop) :
    Procedure Ans α → List (Sigma Ans) → Prop
  | ret a, h => Q h a
  | call o next, h => P h o ∧ ∀ r, R o r → (next r).Sat R P Q (h ++ [⟨o, r⟩])

variable {R : (o : O) → Ans o → Prop} {P P' : List (Sigma Ans) → O → Prop} {Q Q' : List (Sigma Ans) → α → Prop}
  {p : Procedure Ans α} {h : List (Sigma Ans)}

@[simp] theorem sat_ret {a : α} : (ret a).Sat R P Q h ↔ Q h a := Iff.rfl

@[simp] theorem sat_call {o : O} {next : Ans o → Procedure Ans α} :
    (call o next).Sat R P Q h ↔ P h o ∧ ∀ r, R o r → (next r).Sat R P Q (h ++ [⟨o, r⟩]) := Iff.rfl

theorem Sat.mono (hp : p.Sat R P Q h) (hP : ∀ h o, P h o → P' h o) (hQ : ∀ h a, Q h a → Q' h a) :
    p.Sat R P' Q' h := by
  induction p generalizing h with
  | ret a => exact hQ _ _ hp
  | call o next ih => exact ⟨hP _ _ hp.1, fun r hr => ih r (hp.2 r hr)⟩

theorem sat_of_forall (hP : ∀ h o, P h o) (hQ : ∀ h a, Q h a) : p.Sat R P Q h := by
  induction p generalizing h with
  | ret a => exact hQ h a
  | call o next ih => exact ⟨hP h o, fun r _ => ih r⟩

/-- Two conditions on the calls, and on the results. -/
theorem Sat.and (hp : p.Sat R P Q h) (hp' : p.Sat R P' Q' h) :
    p.Sat R (fun h o => P h o ∧ P' h o) (fun h a => Q h a ∧ Q' h a) h := by
  induction p generalizing h with
  | ret a => exact ⟨hp, hp'⟩
  | call o next ih => exact ⟨⟨hp.1, hp'.1⟩, fun r hr => ih r (hp.2 r hr) (hp'.2 r hr)⟩

/-- What holds of all answers holds of those that meet `R`. -/
theorem Sat.restrict (hp : p.Sat (fun _ _ => True) P Q h) : p.Sat R P Q h := by
  induction p generalizing h with
  | ret a => exact hp
  | call o next ih => exact ⟨hp.1, fun r _ => ih r (hp.2 r trivial)⟩

theorem Sat.bind {Q' : List (Sigma Ans) → β → Prop} {f : α → Procedure Ans β} (hp : p.Sat R P Q h)
    (hf : ∀ h a, Q h a → (f a).Sat R P Q' h) : (p >>= f).Sat R P Q' h := by
  induction p generalizing h with
  | ret a => exact hf _ _ hp
  | call o next ih => exact ⟨hp.1, fun r hr => ih r (hp.2 r hr)⟩

/-- What stays when calls are made. -/
theorem Sat.keeping {F : List (Sigma Ans) → Prop} (hp : p.Sat R P Q h) (hF : ∀ h e, F h → F (h ++ [e])) (h0 : F h) :
    p.Sat R (fun h o => P h o ∧ F h) (fun h a => Q h a ∧ F h) h := by
  induction p generalizing h with
  | ret a => exact ⟨hp, h0⟩
  | call o next ih => exact ⟨⟨hp.1, h0⟩, fun r hr => ih r (hp.2 r hr) (hF _ _ h0)⟩

/-- The calls since `h` are there, and meet what all calls meet. -/
theorem Sat.since {C : O → Prop} (hp : p.Sat R (fun _ o => C o) Q h) :
    p.Sat R (fun h' o => (∃ l, h' = h ++ l ∧ ∀ e ∈ l, C e.1) ∧ C o)
      (fun h' a => (∃ l, h' = h ++ l ∧ ∀ e ∈ l, C e.1) ∧ Q h' a) h := by
  have hfrom : ∀ h' : List (Sigma Ans), (∃ l, h' = h ++ l ∧ ∀ e ∈ l, C e.1) → p.Sat R (fun _ o => C o) Q h' →
      p.Sat R (fun h'' o => (∃ l, h'' = h ++ l ∧ ∀ e ∈ l, C e.1) ∧ C o)
        (fun h'' a => (∃ l, h'' = h ++ l ∧ ∀ e ∈ l, C e.1) ∧ Q h'' a) h' := by
    clear hp
    induction p with
    | ret a => exact fun h' hl hp => ⟨hl, hp⟩
    | call o next ih =>
      rintro h' ⟨l, rfl, hl⟩ hp
      refine ⟨⟨⟨l, rfl, hl⟩, hp.1⟩, fun r hr => ih r _ ⟨l ++ [⟨o, r⟩], by simp, fun e he => ?_⟩ (hp.2 r hr)⟩
      rcases List.mem_append.1 he with he | he
      · exact hl e he
      · rw [List.mem_singleton.1 he]
        exact hp.1
  exact hfrom h ⟨[], by simp⟩ hp

/-- What holds as long as the answers meet `R` holds of a run, when an invariant gives such answers. -/
theorem Sat.run {I : σ → Prop} (hp : p.Sat R P Q h) {s : σ} (hs : I s)
    (hkeep : ∀ h o s, I s → P h o → R o (handle o s).1 ∧ I (handle o s).2) :
    Q (h ++ p.events handle s) (p.run handle s).1 ∧ I (p.run handle s).2 ∧
      ∀ pre e post, p.events handle s = pre ++ e :: post → P (h ++ pre) e.1 := by
  induction p generalizing h s with
  | ret a =>
    rw [events_ret, List.append_nil]
    exact ⟨hp, hs, fun pre e post hl => absurd hl (by simp)⟩
  | call o next ih =>
    obtain ⟨hanswer, hafter⟩ := hkeep h o s hs hp.1
    obtain ⟨hresult, hleft, hcalls⟩ := ih _ (hp.2 _ hanswer) hafter
    rw [List.append_assoc] at hresult
    refine ⟨hresult, hleft, fun pre e post hl => ?_⟩
    cases pre with
    | nil =>
      cases hl
      rw [List.append_nil]
      exact hp.1
    | cons first pre =>
      obtain ⟨rfl, hrest⟩ := List.cons.inj hl
      have hcall := hcalls pre e post hrest
      rwa [List.append_assoc] at hcall

/-! ## From one state to another -/

/-- From a state and the calls so far that meet `Pre`, a run ends in a result, a state and calls that meet
`Post`. -/
def Triple (Pre : σ → List (Sigma Ans) → Prop) (p : Procedure Ans α)
    (Post : α → σ → List (Sigma Ans) → Prop) : Prop :=
  ∀ s h, Pre s h → Post (p.run handle s).1 (p.run handle s).2 (h ++ p.events handle s)

variable {handle} {Pre : σ → List (Sigma Ans) → Prop} {Post : α → σ → List (Sigma Ans) → Prop}

theorem triple_ret {a : α} (ha : ∀ s h, Pre s h → Post a s h) : Triple handle Pre (ret a) Post := fun s h hs => by
  rw [events_ret, List.append_nil]
  exact ha s h hs

theorem triple_perform {o : O} {Post : Ans o → σ → List (Sigma Ans) → Prop}
    (ho : ∀ s h, Pre s h → Post (handle o s).1 (handle o s).2 (h ++ [⟨o, (handle o s).1⟩])) :
    Triple handle Pre (perform o) Post := ho

theorem Triple.bind {Post' : β → σ → List (Sigma Ans) → Prop} {f : α → Procedure Ans β}
    (hp : Triple handle Pre p Post) (hf : ∀ a, Triple handle (Post a) (f a) Post') :
    Triple handle Pre (p >>= f) Post' := fun s h hs => by
  rw [run_bind, events_bind, ← List.append_assoc]
  exact hf _ _ _ (hp s h hs)

theorem Triple.mono {Pre' : σ → List (Sigma Ans) → Prop} {Post' : α → σ → List (Sigma Ans) → Prop}
    (hp : Triple handle Pre p Post) (hpre : ∀ s h, Pre' s h → Pre s h)
    (hpost : ∀ a s h, Post a s h → Post' a s h) : Triple handle Pre' p Post' :=
  fun s h hs => hpost _ _ _ (hp s h (hpre s h hs))

/-- A relation between the state and the calls that each call keeps. -/
theorem Sat.triple {I : σ → List (Sigma Ans) → Prop} {C : O → Prop} (hp : ∀ h, p.Sat R (fun _ o => C o) Q h)
    (hkeep : ∀ o s h, I s h → C o → R o (handle o s).1 ∧ I (handle o s).2 (h ++ [⟨o, (handle o s).1⟩])) :
    Triple handle I p fun a s h => Q h a ∧ I s h := by
  intro s h hs
  have hsat := hp h
  clear hp
  induction p generalizing s h with
  | ret a =>
    rw [events_ret, List.append_nil]
    exact ⟨hsat, hs⟩
  | call o next ih =>
    obtain ⟨hanswer, hafter⟩ := hkeep o s h hs hsat.1
    have hnext := ih (handle o s).1 (handle o s).2 _ hafter (hsat.2 _ hanswer)
    rw [List.append_assoc] at hnext
    exact hnext

end Procedure

/-! ## In any interleaving -/

/-- Procedures that share a state, and the calls that each has made. -/
structure Pool (ι σ : Type) {O : Type} (Ans : O → Type) (α : Type) where
  shared : σ
  procs : ι → Procedure Ans α
  history : ι → List (Sigma Ans)

namespace Pool

variable {ι σ O : Type} {Ans : O → Type} {α : Type}

/-- Procedures none of which has begun. -/
def start (shared : σ) (procs : ι → Procedure Ans α) : Pool ι σ Ans α := ⟨shared, procs, fun _ => []⟩

/-- Every procedure still does what it has to do. -/
def Sat (R : (o : O) → Ans o → Prop) (P : ι → List (Sigma Ans) → O → Prop) (Q : ι → List (Sigma Ans) → α → Prop)
    (s : Pool ι σ Ans α) : Prop :=
  ∀ i, (s.procs i).Sat R (P i) (Q i) (s.history i)

variable {R : (o : O) → Ans o → Prop} {P : ι → List (Sigma Ans) → O → Prop}
  {Q : ι → List (Sigma Ans) → α → Prop} {s t : Pool ι σ Ans α} {i : ι}

/-- The call that a step makes is one that its procedure may make. -/
theorem Sat.next (h : s.Sat R P Q) {o : O} {next : Ans o → Procedure Ans α} (hproc : s.procs i = .call o next) :
    P i (s.history i) o := by
  have hcall := h i
  rw [hproc] at hcall
  exact hcall.1

/-- A procedure that has returned. -/
theorem Sat.result (h : s.Sat R P Q) {a : α} (hproc : s.procs i = .ret a) : Q i (s.history i) a := by
  have hresult := h i
  rwa [hproc] at hresult

variable [DecidableEq ι] (enabled : ι → O → σ → Bool) (handle : ι → (o : O) → σ → Ans o × σ)

/-- The procedure `i` makes its next call. An operation may have to wait. -/
def machine : Machine (Pool ι σ Ans α) ι (ι × Sigma Ans) where
  step s i := match s.procs i with
    | .ret _ => none
    | .call o next =>
      if enabled i o s.shared then
        some (⟨(handle i o s.shared).2, Function.update s.procs i (next (handle i o s.shared).1),
          Function.update s.history i (s.history i ++ [⟨o, (handle i o s.shared).1⟩])⟩,
          [(i, ⟨o, (handle i o s.shared).1⟩)])
      else none

variable {enabled : ι → O → σ → Bool} {handle : ι → (o : O) → σ → Ans o × σ} {tr : List (ι × Sigma Ans)}

theorem step_cases (hs : (machine enabled handle).step s i = some (t, tr)) :
    ∃ o next, s.procs i = .call o next ∧ enabled i o s.shared = true ∧
      t.shared = (handle i o s.shared).2 ∧
      t.procs = Function.update s.procs i (next (handle i o s.shared).1) ∧
      t.history = Function.update s.history i (s.history i ++ [⟨o, (handle i o s.shared).1⟩]) ∧
      tr = [(i, ⟨o, (handle i o s.shared).1⟩)] := by
  simp only [machine] at hs
  split at hs
  · cases hs
  · rename_i o next hproc
    split at hs
    · rename_i henabled
      obtain ⟨rfl, rfl⟩ := Prod.mk.inj (Option.some.inj hs)
      exact ⟨o, next, hproc, henabled, rfl, rfl, rfl, rfl⟩
    · cases hs

theorem Sat.step (h : s.Sat R P Q) (hs : (machine enabled handle).step s i = some (t, tr))
    (hR : ∀ o, P i (s.history i) o → R o (handle i o s.shared).1) : t.Sat R P Q := by
  obtain ⟨o, next, hproc, -, -, hprocs, hhistory, -⟩ := step_cases hs
  intro j
  rw [hprocs, hhistory]
  by_cases hj : j = i
  · subst hj
    have hcall := h j
    rw [hproc] at hcall
    rw [Function.update_self, Function.update_self]
    exact hcall.2 _ (hR o hcall.1)
  · rw [Function.update_of_ne hj, Function.update_of_ne hj]
    exact h j

/-- The rule for all runs: an invariant that every call keeps, whose states give the answers that the
procedures rely on. -/
theorem sat_of_run {I : Pool ι σ Ans α → Prop} {G : Pool ι σ Ans α → ι → Prop} {as : List ι} (h : s.Sat R P Q)
    (hI : I s) (hr : (machine enabled handle).Run G s as tr t)
    (hanswer : ∀ {s i o}, I s → P i (s.history i) o → R o (handle i o s.shared).1)
    (hkeep : ∀ {s i t tr}, I s → s.Sat R P Q → G s i → (machine enabled handle).step s i = some (t, tr) → I t) :
    t.Sat R P Q ∧ I t := by
  refine hr.invariant (P := fun s => s.Sat R P Q ∧ I s) ⟨h, hI⟩ fun hP hg hs => ?_
  exact ⟨hP.1.step hs fun o ho => hanswer hP.2 ho, hkeep hP.2 hP.1 hg hs⟩

end Pool
