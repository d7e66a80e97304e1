import Mathlib.Data.List.Forall2
import Mathlib.Data.List.Induction
import Mathlib.Order.Monotone.Basic
import Mathlib.Order.WellFounded

/-!
# Machines: runs, invariants and guarded runs

A `Machine` takes one step on an action that its environment chooses, and emits observations.

* `Machine.Run G s as tr t` : the actions `as` lead from `s` to `t` and emit the trace `tr`, every
  step taken in a state and with an action that meet the condition `G`;
* `Run.induction` : what holds of the empty trace and is kept by every step holds of every run;
* `Run.split`, `Run.append` : a run is cut at any of its actions, and runs compose;
* `Machine.Infinite`, `eventually_not` : runs without an end, and what can happen finitely often only;
* `Run.simulate` : a relation that every step keeps between two machines;
* `Machine.Always P` : `P` holds of every step of a run;
* `Machine.exec` : the run of a list of actions, computed (`run_of_exec`, `exec_run`, `exec_free`);
* `sublist_snoc`, `pair_sublist` : the order of observations in a trace, step by step.
-/

/-- A state machine with observations. `none` : the action is not enabled. -/
structure Machine (σ α ω : Type*) where
  step : σ → α → Option (σ × List ω)

namespace Machine

variable {σ α ω : Type*} {M : Machine σ α ω}

/-- No condition on the steps. -/
def Free (_ : σ) (_ : α) : Prop := True

variable (M) in
/-- The runs from `s` whose steps all meet `G`: their actions, trace and last state. -/
inductive Run (G : σ → α → Prop) (s : σ) : List α → List ω → σ → Prop where
  | nil : Run G s [] [] s
  | snoc {as : List α} {tr : List ω} {t u : σ} {a : α} {o : List ω} :
      Run G s as tr t → G t a → M.step t a = some (u, o) → Run G s (as ++ [a]) (tr ++ o) u

variable {G G' : σ → α → Prop} {s t u : σ} {as bs : List α} {tr tr' : List ω}

theorem Run.mono (h : M.Run G s as tr t) (hG : ∀ x a, G x a → G' x a) : M.Run G' s as tr t := by
  induction h with
  | nil => exact .nil
  | snoc _ hg hs ih => exact .snoc ih (hG _ _ hg) hs

/-- **The invariant rule.** The step may use that its source state is reached by the run. -/
theorem Run.induction {P : List ω → σ → Prop} (h : M.Run G s as tr t) (hnil : P [] s)
    (hstep : ∀ {as tr t a u o}, M.Run G s as tr t → P tr t → G t a → M.step t a = some (u, o) →
      P (tr ++ o) u) : P tr t := by
  induction h with
  | nil => exact hnil
  | snoc hr hg hs ih => exact hstep hr ih hg hs

/-- The invariant rule for a predicate of the state. -/
theorem Run.invariant {P : σ → Prop} (h : M.Run G s as tr t) (hs : P s)
    (hstep : ∀ {t a u o}, P t → G t a → M.step t a = some (u, o) → P u) : P t :=
  h.induction (P := fun _ t => P t) hs fun _ hP hg hstp => hstep hP hg hstp

/-- The invariant rule for a predicate of the actions, the trace and the state. -/
theorem Run.history {P : List α → List ω → σ → Prop} (h : M.Run G s as tr t) (hnil : P [] [] s)
    (hstep : ∀ {as tr t a u o}, M.Run G s as tr t → P as tr t → G t a → M.step t a = some (u, o) →
      P (as ++ [a]) (tr ++ o) u) : P as tr t := by
  induction h with
  | nil => exact hnil
  | snoc hr hg hs ih => exact hstep hr ih hg hs

theorem Run.append (h : M.Run G s as tr t) (h' : M.Run G t bs tr' u) :
    M.Run G s (as ++ bs) (tr ++ tr') u := by
  induction h' with
  | nil => simpa using h
  | snoc _ hg hs ih =>
    rw [← List.append_assoc, ← List.append_assoc]
    exact .snoc ih hg hs

theorem Run.split : ∀ {bs tr u}, M.Run G s (as ++ bs) tr u →
    ∃ t tr₁ tr₂, M.Run G s as tr₁ t ∧ M.Run G t bs tr₂ u ∧ tr = tr₁ ++ tr₂ := by
  intro bs
  induction bs using List.reverseRecOn with
  | nil =>
    intro tr u h
    rw [List.append_nil] at h
    exact ⟨u, tr, [], h, .nil, (List.append_nil tr).symm⟩
  | append_singleton bs b ih =>
    intro tr u h
    rw [← List.append_assoc] at h
    generalize hl : as ++ bs ++ [b] = l at h
    cases h with
    | nil => simp at hl
    | snoc hr hg hs =>
      obtain ⟨rfl, hb⟩ := List.append_inj' hl rfl
      cases hb
      obtain ⟨t, tr₁, tr₂, h₁, h₂, rfl⟩ := ih hr
      exact ⟨t, tr₁, _, h₁, .snoc h₂ hg hs, List.append_assoc _ _ _⟩

theorem Run.last {a : α} (h : M.Run G s (as ++ [a]) tr u) :
    ∃ t tr₁ o, M.Run G s as tr₁ t ∧ G t a ∧ M.step t a = some (u, o) ∧ tr = tr₁ ++ o := by
  generalize hl : as ++ [a] = l at h
  cases h with
  | nil => simp at hl
  | snoc hr hg hs =>
    obtain ⟨rfl, hb⟩ := List.append_inj' hl rfl
    cases hb
    exact ⟨_, _, _, hr, hg, hs, rfl⟩

theorem Run.unique (h : M.Run G s as tr t) : ∀ {tr' t'}, M.Run G' s as tr' t' → tr' = tr ∧ t' = t := by
  induction h with
  | nil =>
    intro tr' t' h'
    generalize hl : ([] : List α) = l at h'
    cases h' with
    | nil => exact ⟨rfl, rfl⟩
    | snoc => simp at hl
  | snoc _ _ hs ih =>
    intro tr' t' h'
    obtain ⟨x, tr₁, o, hr, -, hs', rfl⟩ := h'.last
    obtain ⟨rfl, rfl⟩ := ih hr
    rw [hs] at hs'
    cases hs'
    exact ⟨rfl, rfl⟩

/-- **Simulation.** What `M` does under the condition, `N` does on the same actions, with observations
that correspond. -/
theorem Run.simulate {σ' ω' : Type*} {N : Machine σ' α ω'} {R : σ → σ' → Prop} {Q : ω → ω' → Prop} {s' : σ'}
    (h : M.Run G s as tr t) (hR : R s s')
    (hstep : ∀ {t t' a u o}, R t t' → G t a → M.step t a = some (u, o) →
      ∃ u' o', N.step t' a = some (u', o') ∧ R u u' ∧ List.Forall₂ Q o o') :
    ∃ tr' t', N.Run Free s' as tr' t' ∧ R t t' ∧ List.Forall₂ Q tr tr' := by
  induction h with
  | nil => exact ⟨[], s', .nil, hR, .nil⟩
  | snoc _ hg hs ih =>
    obtain ⟨tr', t', hr', hRt, hQ⟩ := ih
    obtain ⟨u', o', hs', hRu, ho⟩ := hstep hRt hg hs
    exact ⟨tr' ++ o', u', .snoc hr' trivial hs', hRu, List.rel_append hQ ho⟩

/-! ## Infinite runs -/

variable (M) in
/-- A run without an end. -/
def Infinite (states : ℕ → σ) (actions : ℕ → α) : Prop :=
  ∀ n, ∃ o, M.step (states n) (actions n) = some (states (n + 1), o)

theorem Infinite.run {states : ℕ → σ} {actions : ℕ → α} (h : M.Infinite states actions) (n : ℕ) :
    ∃ tr, M.Run Free (states 0) ((List.range n).map actions) tr (states n) := by
  induction n with
  | zero => exact ⟨[], .nil⟩
  | succ n ih =>
    obtain ⟨tr, hr⟩ := ih
    obtain ⟨o, hs⟩ := h n
    rw [List.range_succ, List.map_append]
    exact ⟨tr ++ o, .snoc hr trivial hs⟩

/-- What lowers a well-founded measure that nothing raises comes to an end. -/
theorem eventually_not {β : Type*} [PartialOrder β] [WellFoundedLT β] {m : ℕ → β} {P : ℕ → Prop}
    (hle : ∀ n, m (n + 1) ≤ m n) (hlt : ∀ n, P n → m (n + 1) < m n) : ∃ N, ∀ n ≥ N, ¬ P n := by
  have hanti : Antitone m := antitone_nat_of_succ_le hle
  obtain ⟨_, ⟨N, rfl⟩, hmin⟩ := wellFounded_lt.has_min (Set.range m) ⟨m 0, 0, rfl⟩
  exact ⟨N, fun n hn hP => hmin _ ⟨n + 1, rfl⟩ ((hlt n hP).trans_le (hanti hn))⟩

/-! ## Conditions on every step -/

variable (M) in
/-- `P` holds of every step of the run of `as` from `s`. -/
def Always (P : σ → α → Prop) (s : σ) (as : List α) : Prop :=
  ∀ pre a post tr t, as = pre ++ a :: post → M.Run Free s pre tr t → P t a

theorem Always.imp {P Q : σ → α → Prop} (h : M.Always P s as) (hPQ : ∀ t a, P t a → Q t a) :
    M.Always Q s as :=
  fun pre a post tr t hl hr => hPQ t a (h pre a post tr t hl hr)

/-! ## Computed runs -/

variable (M) in
/-- The run of the actions `l`, when all of them are enabled and pass the test `g`. -/
def exec (g : σ → α → Bool) (s : σ) : List α → Option (σ × List ω)
  | [] => some (s, [])
  | a :: as => if g s a then match M.step s a with
      | none => none
      | some (t, o) => match exec g t as with
        | none => none
        | some (u, tr) => some (u, o ++ tr)
    else none

theorem run_of_exec {g : σ → α → Bool} {l : List α} (hg : ∀ s a, g s a = true → G s a)
    (h : M.exec g s l = some (t, tr)) : M.Run G s l tr t := by
  induction l generalizing s tr with
  | nil =>
    simp only [exec, Option.some.injEq, Prod.mk.injEq] at h
    obtain ⟨rfl, rfl⟩ := h
    exact .nil
  | cons a l ih =>
    simp only [exec] at h
    split at h
    · rename_i hga
      cases hs : M.step s a with
      | none => rw [hs] at h; cases h
      | some p =>
        obtain ⟨x, o⟩ := p
        rw [hs] at h
        cases he : M.exec g x l with
        | none => simp only [he] at h; cases h
        | some q =>
          obtain ⟨y, tr₁⟩ := q
          simp only [he, Option.some.injEq, Prod.mk.injEq] at h
          obtain ⟨rfl, rfl⟩ := h
          have h₁ : M.Run G s ([] ++ [a]) ([] ++ o) x := .snoc .nil (hg s a hga) hs
          exact h₁.append (ih he)
    · cases h

theorem exec_run {g : σ → α → Bool} {l : List α} (hg : ∀ s a, g s a = true → G s a)
    (h : (M.exec g s l).isSome = true) :
    M.Run G s l ((M.exec g s l).get h).2 ((M.exec g s l).get h).1 :=
  run_of_exec hg (Option.some_get h).symm

/-- A computed run without a condition. -/
theorem exec_free {l : List α} (h : (M.exec (fun _ _ => true) s l).isSome = true) :
    M.Run Free s l ((M.exec _ s l).get h).2 ((M.exec _ s l).get h).1 :=
  exec_run (fun _ _ _ => trivial) h

end Machine

/-! ## Order in a trace -/

variable {ω : Type*} {l tr o : List ω} {x : ω}

/-- An ordered occurrence that ends in `x` was there before a step that does not emit `x`. -/
theorem sublist_of_snoc (h : (l ++ [x]).Sublist (tr ++ o)) (hx : x ∉ o) :
    (l ++ [x]).Sublist tr := by
  obtain ⟨l₁, l₂, hl, h₁, h₂⟩ := List.sublist_append_iff.1 h
  cases l₂ using List.reverseRecOn with
  | nil => rw [hl, List.append_nil]; exact h₁
  | append_singleton l₂ y =>
    rw [← List.append_assoc] at hl
    obtain ⟨-, hy⟩ := List.append_inj' hl rfl
    cases hy
    exact absurd (h₂.subset (List.mem_append_right _ (List.mem_singleton_self _))) hx

theorem sublist_snoc (h : l.Sublist tr) (hx : x ∈ o) : (l ++ [x]).Sublist (tr ++ o) :=
  h.append (List.singleton_sublist.2 hx)

theorem sublist_mono (h : l.Sublist tr) : l.Sublist (tr ++ o) :=
  h.trans (List.sublist_append_left _ _)

/-- Two observations in their order, before or across a step. -/
theorem pair_sublist {y : ω} (h : [x, y].Sublist (tr ++ o)) :
    [x, y].Sublist tr ∨ (x ∈ tr ∧ y ∈ o) ∨ [x, y].Sublist o := by
  obtain ⟨l₁, l₂, hl, h₁, h₂⟩ := List.sublist_append_iff.1 h
  rcases l₁ with _ | ⟨a, _ | ⟨b, l₁⟩⟩
  · rw [List.nil_append] at hl
    exact .inr (.inr (hl ▸ h₂))
  · simp only [List.cons_append, List.nil_append, List.cons.injEq] at hl
    obtain ⟨rfl, rfl⟩ := hl
    exact .inr (.inl ⟨List.singleton_sublist.1 h₁, List.singleton_sublist.1 h₂⟩)
  · simp only [List.cons_append, List.cons.injEq] at hl
    obtain ⟨rfl, rfl, hnil⟩ := hl
    obtain ⟨rfl, -⟩ := List.append_eq_nil_iff.1 hnil.symm
    exact .inl h₁
