import Aifluxon.Lib.Procedure
import Mathlib.Data.Set.Finite.Range
import Mathlib.Data.Set.Finite.Lattice
import Mathlib.Order.Bounds.Basic

/-!
# Procedures that rely on each other

Procedures that share a state are proved one at a time: each relies on what the steps of the others guarantee,
and guarantees as much of its own.

* `Protocol` : the operations, a ghost state that observes them, an invariant, what has to hold where an
  operation is asked for, and what a step of a procedure guarantees to the others;
* `Protocol.Stable i A` : the steps of the others keep `A`; `Protocol.Makes` : one call;
* `Protocol.Safe i A p Q` : from `A`, the procedure `p` keeps the protocol and ends in `Q` (`Safe.bind`,
  `safe_perform`, `safe_alone`); `Protocol.Returns` : and without an error;
* `Protocol.Holds.run` : procedures that are safe, in any interleaving;
* `Pool.not_infinite` : finitely many procedures come to an end.
-/

/-- What procedures that share a state agree on. -/
structure Protocol (ι σ Γ : Type) {O : Type} (Ans : O → Type) where
  enabled : ι → O → σ → Bool
  handle : ι → (o : O) → σ → Ans o × σ
  /-- The ghost state after a call. -/
  note : ι → Sigma Ans → Γ → Γ
  Inv : σ → Γ → Prop
  /-- Where the procedure may ask for an operation, also when it has to wait. -/
  Ask : ι → O → σ → Γ → Prop
  /-- What a step of the procedure guarantees. -/
  Step : ι → σ → Γ → σ → Γ → Prop

namespace Protocol

variable {ι σ Γ O : Type} {Ans : O → Type} {α β : Type} (P : Protocol ι σ Γ Ans)

/-- The others keep `A`. -/
def Stable (i : ι) (A : σ → Γ → Prop) : Prop :=
  ∀ j s γ s' γ', j ≠ i → P.Inv s γ → P.Step j s γ s' γ' → A s γ → A s' γ'

/-- From `A` the call `o` keeps the protocol, and leads to `B`. -/
structure Makes (i : ι) (A : σ → Γ → Prop) (o : O) (B : Ans o → σ → Γ → Prop) : Prop where
  ask : ∀ s γ, P.Inv s γ → A s γ → P.Ask i o s γ
  stable : ∀ r, P.Stable i (B r)
  inv : ∀ s γ, P.Inv s γ → A s γ → P.enabled i o s = true →
    P.Inv (P.handle i o s).2 (P.note i ⟨o, (P.handle i o s).1⟩ γ)
  step : ∀ s γ, P.Inv s γ → A s γ → P.enabled i o s = true →
    P.Step i s γ (P.handle i o s).2 (P.note i ⟨o, (P.handle i o s).1⟩ γ)
  post : ∀ s γ, P.Inv s γ → A s γ → P.enabled i o s = true →
    B (P.handle i o s).1 (P.handle i o s).2 (P.note i ⟨o, (P.handle i o s).1⟩ γ)

/-- From `A` a procedure keeps the protocol, and returns in `Q`. -/
inductive Safe (i : ι) (Q : α → σ → Γ → Prop) : (σ → Γ → Prop) → Procedure Ans α → Prop where
  | ret {A : σ → Γ → Prop} {a : α} (ha : ∀ s γ, P.Inv s γ → A s γ → Q a s γ) : Safe i Q A (.ret a)
  | call {A : σ → Γ → Prop} {o : O} {next : Ans o → Procedure Ans α} {B : Ans o → σ → Γ → Prop}
      (ho : P.Makes i A o B) (hnext : ∀ r, Safe i Q (B r) (next r)) : Safe i Q A (.call o next)

variable {P} {i : ι} {A A' : σ → Γ → Prop} {p : Procedure Ans α} {Q Q' : α → σ → Γ → Prop} {o : O}
  {B : Ans o → σ → Γ → Prop}

theorem safe_ret {a : α} : P.Safe i Q A (.ret a) ↔ ∀ s γ, P.Inv s γ → A s γ → Q a s γ := by
  refine ⟨fun h => ?_, .ret⟩
  cases h with
  | ret ha => exact ha

theorem safe_call {next : Ans o → Procedure Ans α} :
    P.Safe i Q A (.call o next) ↔ ∃ B, P.Makes i A o B ∧ ∀ r, P.Safe i Q (B r) (next r) := by
  refine ⟨fun h => ?_, fun ⟨B, ho, hnext⟩ => .call ho hnext⟩
  cases h with
  | call ho hnext => exact ⟨_, ho, hnext⟩

theorem Stable.and {A' : σ → Γ → Prop} (h : P.Stable i A) (h' : P.Stable i A') :
    P.Stable i fun s γ => A s γ ∧ A' s γ :=
  fun j s γ s' γ' hj hI hs hA => ⟨h j s γ s' γ' hj hI hs hA.1, h' j s γ s' γ' hj hI hs hA.2⟩

theorem stable_const (C : Prop) : P.Stable i fun _ _ => C := fun _ _ _ _ _ _ _ _ hC => hC

theorem Makes.pre (h : P.Makes i A o B) (hA : ∀ s γ, P.Inv s γ → A' s γ → A s γ) : P.Makes i A' o B where
  ask s γ hI hs := h.ask s γ hI (hA s γ hI hs)
  stable := h.stable
  inv s γ hI hs := h.inv s γ hI (hA s γ hI hs)
  step s γ hI hs := h.step s γ hI (hA s γ hI hs)
  post s γ hI hs := h.post s γ hI (hA s γ hI hs)

theorem Safe.pre (hp : P.Safe i Q A p) (hA : ∀ s γ, P.Inv s γ → A' s γ → A s γ) : P.Safe i Q A' p := by
  cases hp with
  | ret ha => exact .ret fun s γ hI hs => ha s γ hI (hA s γ hI hs)
  | call ho hnext => exact .call (ho.pre hA) hnext

theorem Safe.post (hp : P.Safe i Q A p) (hQ : ∀ a s γ, P.Inv s γ → Q a s γ → Q' a s γ) : P.Safe i Q' A p := by
  induction hp with
  | ret ha => exact .ret fun s γ hI hs => hQ _ s γ hI (ha s γ hI hs)
  | call ho _ ih => exact .call ho ih

theorem Safe.bind {f : α → Procedure Ans β} {Q' : β → σ → Γ → Prop} (hp : P.Safe i Q A p)
    (hf : ∀ a, P.Safe i Q' (Q a) (f a)) : P.Safe i Q' A (p >>= f) := by
  induction hp with
  | ret ha => exact (hf _).pre ha
  | call ho _ ih => exact .call ho ih

theorem safe_perform (ho : P.Makes i A o B) : P.Safe i B A (Procedure.perform o) :=
  .call ho fun _ => .ret fun _ _ _ h => h

/-- What is never the case may be followed by anything. -/
theorem safe_of_not (hA : ∀ s γ, ¬ A s γ) : P.Safe i Q A p := by
  induction p generalizing A with
  | ret a => exact .ret fun s γ _ hs => absurd hs (hA s γ)
  | call o next ih =>
    refine .call (B := fun _ _ _ => False) ⟨?_, fun _ => stable_const False, ?_, ?_, ?_⟩ fun r => ih r fun _ _ => id
    · exact fun s γ _ hs => absurd hs (hA s γ)
    · exact fun s γ _ hs => absurd hs (hA s γ)
    · exact fun s γ _ hs => absurd hs (hA s γ)
    · exact fun s γ _ hs => absurd hs (hA s γ)

/-- What the first states say of the arguments may be used. -/
theorem safe_knowing {C : Prop} (hC : ∀ s γ, A s γ → C) (hp : C → P.Safe i Q A p) : P.Safe i Q A p := by
  by_cases h : C
  · exact hp h
  · exact safe_of_not fun s γ hs => h (hC s γ hs)

/-- What the first states say to be there may be taken. -/
theorem safe_exists {τ : Type} {A : τ → σ → Γ → Prop} (hp : ∀ v, P.Safe i Q (A v) p) :
    P.Safe i Q (fun s γ => ∃ v, A v s γ) p := by
  induction p generalizing A with
  | ret a => exact .ret fun s γ hI ⟨v, hs⟩ => safe_ret.1 (hp v) s γ hI hs
  | call o next ih =>
    choose B hB hnext using fun v => safe_call.1 (hp v)
    refine .call (B := fun r s γ => ∃ v, B v r s γ) ⟨?_, ?_, ?_, ?_, ?_⟩ fun r => ih r fun v => hnext v r
    · rintro s γ hI ⟨v, hs⟩
      exact (hB v).ask s γ hI hs
    · rintro r j s γ s' γ' hj hI hstep ⟨v, hs⟩
      exact ⟨v, (hB v).stable r j s γ s' γ' hj hI hstep hs⟩
    · rintro s γ hI ⟨v, hs⟩ henabled
      exact (hB v).inv s γ hI hs henabled
    · rintro s γ hI ⟨v, hs⟩ henabled
      exact (hB v).step s γ hI hs henabled
    · rintro s γ hI ⟨v, hs⟩ henabled
      exact ⟨v, (hB v).post s γ hI hs henabled⟩

/-- **A procedure that nobody disturbs.** When its calls answer as `run` does, it does what it does alone. -/
theorem safe_alone {τ : Type} {run : (o : O) → τ → Ans o × τ} {C : O → Prop} {J : τ → σ → Γ → Prop}
    {R : (o : O) → Ans o → Prop} {T : List (Sigma Ans) → α → Prop} {h : List (Sigma Ans)}
    (hp : p.Sat R (fun _ o => C o) T h) (hR : ∀ o v, C o → R o (run o v).1)
    (hop : ∀ o v, C o → P.Makes i (J v) o fun r s γ => r = (run o v).1 ∧ J (run o v).2 s γ) (v : τ) :
    P.Safe i (fun a s γ => a = (p.run run v).1 ∧ J (p.run run v).2 s γ) (J v) p := by
  induction p generalizing v h with
  | ret a => exact .ret fun s γ _ hs => ⟨rfl, hs⟩
  | call o next ih =>
    refine .call (hop o v hp.1) fun r => safe_knowing (C := r = (run o v).1) (fun _ _ h => h.1) fun hr => ?_
    subst hr
    exact (ih _ (hp.2 _ (hR o v hp.1)) _).pre fun s γ _ h => h.2

/-! ## Procedures that may fail -/

section Returns

variable {ε : Type} {x : ExceptT ε (Procedure Ans) α}

variable (P) in
/-- From `A` a procedure keeps the protocol, and returns without an error in `Q`. -/
structure Returns (i : ι) (A : σ → Γ → Prop) (x : ExceptT ε (Procedure Ans) α) (Q : α → σ → Γ → Prop) : Prop where
  safe : P.Safe i (fun result s γ => ∃ a, result = .ok a ∧ Q a s γ) A x.run

theorem Returns.pre (hx : P.Returns i A x Q) (hA : ∀ s γ, P.Inv s γ → A' s γ → A s γ) : P.Returns i A' x Q :=
  ⟨hx.safe.pre hA⟩

theorem Returns.post (hx : P.Returns i A x Q) (hQ : ∀ a s γ, P.Inv s γ → Q a s γ → Q' a s γ) : P.Returns i A x Q' :=
  ⟨hx.safe.post fun _ s γ hI ⟨a, ha, hs⟩ => ⟨a, ha, hQ a s γ hI hs⟩⟩

theorem returns_pure {a : α} (ha : ∀ s γ, P.Inv s γ → A s γ → Q a s γ) :
    P.Returns i A (pure a : ExceptT ε (Procedure Ans) α) Q :=
  ⟨.ret fun s γ hI hs => ⟨a, rfl, ha s γ hI hs⟩⟩

theorem Returns.bind {f : α → ExceptT ε (Procedure Ans) β} {Q' : β → σ → Γ → Prop} (hx : P.Returns i A x Q)
    (hf : ∀ a, P.Returns i (Q a) (f a) Q') : P.Returns i A (x >>= f) Q' := by
  refine ⟨hx.safe.bind fun result => ?_⟩
  cases result with
  | ok a =>
    refine (hf a).safe.pre fun s γ _ h => ?_
    obtain ⟨b, hb, hs⟩ := h
    cases hb
    exact hs
  | error error => exact safe_of_not fun s γ ⟨a, ha, _⟩ => nomatch ha

theorem Returns.map {f : α → β} {T : β → σ → Γ → Prop} (hx : P.Returns i A x Q)
    (hf : ∀ a s γ, P.Inv s γ → Q a s γ → T (f a) s γ) : P.Returns i A (f <$> x) T :=
  hx.bind fun a => returns_pure (hf a)

theorem returns_knowing {C : Prop} (hC : ∀ s γ, A s γ → C) (hx : C → P.Returns i A x Q) : P.Returns i A x Q :=
  ⟨safe_knowing hC fun h => (hx h).safe⟩

/-- A result that is known. -/
theorem Returns.bind_value {a : α} {D : σ → Γ → Prop} {f : α → ExceptT ε (Procedure Ans) β} {T : β → σ → Γ → Prop}
    (hx : P.Returns i A x fun b s γ => b = a ∧ D s γ) (hf : P.Returns i D (f a) T) : P.Returns i A (x >>= f) T := by
  refine hx.bind fun b => returns_knowing (C := b = a) (fun _ _ hs => hs.1) fun hb => ?_
  rw [hb]
  exact hf.pre fun _ _ _ hs => hs.2

theorem returns_exists {τ : Type} {A : τ → σ → Γ → Prop} (hx : ∀ v, P.Returns i (A v) x Q) :
    P.Returns i (fun s γ => ∃ v, A v s γ) x Q := ⟨safe_exists fun v => (hx v).safe⟩

end Returns

/-! ## In any interleaving -/

section Pool

variable {enabled : ι → O → σ → Bool} {G : Pool ι σ Ans α → ι → Prop} {Q : ι → α → σ → Γ → Prop}
  {s t : Pool ι σ Ans α} {γ : Γ} {as : List ι} {tr : List (ι × Sigma Ans)}

variable (P) in
/-- The ghost state after the calls of a trace. -/
def observed (γ : Γ) (tr : List (ι × Sigma Ans)) : Γ := tr.foldl (fun γ e => P.note e.1 e.2 γ) γ

variable (P) in
/-- Each procedure is safe from what holds now, and the others keep that. -/
structure Holds (Q : ι → α → σ → Γ → Prop) (s : Pool ι σ Ans α) (γ : Γ) : Prop where
  inv : P.Inv s.shared γ
  procs : ∀ i, ∃ A, P.Stable i A ∧ A s.shared γ ∧ P.Safe i (Q i) A (s.procs i)

theorem Holds.result (h : P.Holds Q s γ) {a : α} (hproc : s.procs i = .ret a) : Q i a s.shared γ := by
  obtain ⟨A, -, hA, hsafe⟩ := h.procs i
  rw [hproc, safe_ret] at hsafe
  exact hsafe _ _ h.inv hA

theorem Holds.ask (h : P.Holds Q s γ) {next : Ans o → Procedure Ans α} (hproc : s.procs i = .call o next) :
    P.Ask i o s.shared γ := by
  obtain ⟨A, -, hA, hsafe⟩ := h.procs i
  rw [hproc, safe_call] at hsafe
  obtain ⟨B, ho, -⟩ := hsafe
  exact ho.ask _ _ h.inv hA

variable [DecidableEq ι]

/-- **One call** : its procedure is safe from what the call leads to, and the others rely on its guarantee. -/
theorem Holds.step (h : P.Holds Q s γ) (hs : (Pool.machine P.enabled P.handle).step s i = some (t, tr)) :
    P.Holds Q t (P.observed γ tr) := by
  obtain ⟨o, next, hproc, henabled, hshared, hprocs, -, rfl⟩ := Pool.step_cases hs
  obtain ⟨A, -, hA, hsafe⟩ := h.procs i
  rw [hproc, safe_call] at hsafe
  obtain ⟨B, ho, hnext⟩ := hsafe
  have hstep := ho.step _ _ h.inv hA henabled
  refine ⟨?_, fun j => ?_⟩
  · rw [hshared]
    exact ho.inv _ _ h.inv hA henabled
  · rw [hprocs, hshared]
    by_cases hj : j = i
    · subst hj
      rw [Function.update_self]
      exact ⟨_, ho.stable _, ho.post _ _ h.inv hA henabled, hnext _⟩
    · rw [Function.update_of_ne hj]
      obtain ⟨A', hstable, hA', hsafe'⟩ := h.procs j
      exact ⟨A', hstable, hstable i _ _ _ _ (Ne.symm hj) h.inv hstep hA', hsafe'⟩

/-- **Every run.** -/
theorem Holds.run (h : P.Holds Q s γ) (hr : (Pool.machine P.enabled P.handle).Run G s as tr t) :
    P.Holds Q t (P.observed γ tr) := by
  refine hr.induction (P := fun tr t => P.Holds Q t (P.observed γ tr)) h fun _ hP _ hs => ?_
  unfold observed
  rw [List.foldl_append]
  exact hP.step hs

end Pool

end Protocol

/-! ## Runs come to an end -/

namespace Pool

variable {ι σ O : Type} {Ans : O → Type} {α : Type} [DecidableEq ι] {enabled : ι → O → σ → Bool}
  {handle : ι → (o : O) → σ → Ans o × σ} {states : ℕ → Pool ι σ Ans α} {actions : ℕ → ι}

theorem step_isSome {s : Pool ι σ Ans α} {i : ι} {o : O} {next : Ans o → Procedure Ans α} (hproc : s.procs i = .call o next)
    (henabled : enabled i o s.shared = true) : ((machine enabled handle).step s i).isSome = true := by
  simp only [machine, hproc]
  rw [if_pos henabled]
  rfl

/-- A procedure makes no more calls, or a next one. -/
theorem next_call (h : (machine enabled handle).Infinite states actions) (i : ι) (n : ℕ) :
    (∀ k, n ≤ k → actions k ≠ i) ∨ ∃ k o next r, (states n).procs i = .call o next ∧ (states (k + 1)).procs i = next r := by
  by_cases hnever : ∀ k, n ≤ k → actions k ≠ i
  · exact .inl hnever
  · simp only [not_forall, not_not] at hnever
    have hex : ∃ d, actions (n + d) = i := by
      obtain ⟨k, hk, hi⟩ := hnever
      obtain ⟨d, rfl⟩ := Nat.exists_eq_add_of_le hk
      exact ⟨d, hi⟩
    -- until then the others step
    have hstays (d : ℕ) (hd : d ≤ Nat.find hex) : (states (n + d)).procs i = (states n).procs i := by
      induction d with
      | zero => rfl
      | succ d ih =>
        obtain ⟨tr, hs⟩ := h (n + d)
        obtain ⟨_, _, -, -, -, hprocs, -⟩ := step_cases hs
        have hother : i ≠ actions (n + d) := fun hi => Nat.find_min hex (by omega) hi.symm
        show (states (n + d + 1)).procs i = _
        rw [hprocs, Function.update_of_ne hother, ih (by omega)]
    obtain ⟨tr, hs⟩ := h (n + Nat.find hex)
    obtain ⟨o, next, hcall, -, -, hprocs, -⟩ := step_cases hs
    rw [Nat.find_spec hex] at hcall hprocs
    exact .inr ⟨n + Nat.find hex, o, next, _, by rw [← hstays _ le_rfl, hcall], by rw [hprocs, Function.update_self]⟩

/-- A procedure makes finitely many calls. -/
theorem eventually_idle (h : (machine enabled handle).Infinite states actions) (i : ι) (p : Procedure Ans α) (n : ℕ)
    (hproc : (states n).procs i = p) : ∃ N, ∀ k, N ≤ k → actions k ≠ i := by
  induction p generalizing n with
  | ret a =>
    rcases next_call h i n with hnever | ⟨k, o, next, r, hcall, -⟩
    · exact ⟨n, hnever⟩
    · rw [hproc] at hcall
      cases hcall
  | call o next ih =>
    rcases next_call h i n with hnever | ⟨k, o', next', r, hcall, hnext⟩
    · exact ⟨n, hnever⟩
    · rw [hproc] at hcall
      cases hcall
      exact ih r (k + 1) hnext

/-- **Finitely many procedures come to an end.** -/
theorem not_infinite [Finite ι] : ¬ (machine enabled handle).Infinite states actions := by
  intro h
  have hidle (i : ι) := eventually_idle h i _ 0 rfl
  choose N hN using hidle
  obtain ⟨bound, hbound⟩ := (Set.finite_range N).bddAbove
  exact hN (actions bound) bound (hbound ⟨_, rfl⟩) rfl

end Pool
