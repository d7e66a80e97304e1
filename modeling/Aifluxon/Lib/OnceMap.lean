import Mathlib.Data.List.Nodup

/-!
# A map whose values are computed once

Parties look keys up in a map behind a lock. Who finds no value keeps the lock, computes one and enters it;
others may also put values, and wait for the lock.

* `OnceMap`, `OnceMap.Step` : the map, who computes for which key, and the events;
* `OnceMap.Trace` : what has happened, in its order;
* `Trace.claimed_once` : a key is claimed once at most, and only when it has no value;
* `Trace.computed_once` : and a value is computed for it once at most;
* `Trace.found_from` : what is found was there, was computed or was put; `Trace.agree` : so all find one value.
-/

/-- The values, and the party that computes one, with its key. -/
structure OnceMap (ι κ ν : Type*) where
  entries : κ → Option ν
  held : Option (ι × κ)

inductive OnceEvent (ι κ ν : Type*) where
  | claimed (i : ι) (k : κ)
  | computed (i : ι) (k : κ) (v : ν)
  | found (i : ι) (k : κ) (v : ν)
  | put (k : κ) (v : ν)

namespace OnceMap
variable {ι κ ν : Type*}

/-- The entry of a key becomes a value. -/
def Enters (m m' : OnceMap ι κ ν) (k : κ) (v : ν) : Prop :=
  m'.entries k = some v ∧ ∀ l, l ≠ k → m'.entries l = m.entries l

inductive Step (m : OnceMap ι κ ν) : OnceEvent ι κ ν → OnceMap ι κ ν → Prop where
  | claimed {i : ι} {k : κ} {m' : OnceMap ι κ ν} (hfree : m.held = none) (hnone : m.entries k = none)
      (hentries : m'.entries = m.entries) (hheld : m'.held = some (i, k)) : Step m (.claimed i k) m'
  | computed {i : ι} {k : κ} {v : ν} {m' : OnceMap ι κ ν} (hheld : m.held = some (i, k)) (henters : Enters m m' k v)
      (hfree : m'.held = none) : Step m (.computed i k v) m'
  | found {i : ι} {k : κ} {v : ν} (hfree : m.held = none) (hsome : m.entries k = some v) : Step m (.found i k v) m
  | put {k : κ} {v : ν} {m' : OnceMap ι κ ν} (hfree : m.held = none) (henters : Enters m m' k v)
      (hfree' : m'.held = none) : Step m (.put k v) m'

/-- The events since a map was `start`. -/
inductive Trace (start : OnceMap ι κ ν) : List (OnceEvent ι κ ν) → OnceMap ι κ ν → Prop where
  | nil : Trace start [] start
  | snoc {tr : List (OnceEvent ι κ ν)} {e : OnceEvent ι κ ν} {m m' : OnceMap ι κ ν} :
      Trace start tr m → Step m e m' → Trace start (tr ++ [e]) m'

end OnceMap

namespace OnceEvent
variable {ι κ ν : Type*}

@[simp] def claimed? : OnceEvent ι κ ν → Option κ
  | claimed _ k => some k
  | _ => none

@[simp] def computed? : OnceEvent ι κ ν → Option (κ × ν)
  | computed _ k v => some (k, v)
  | _ => none

/-- The keys that are claimed, in their order. -/
def claims (tr : List (OnceEvent ι κ ν)) : List κ := tr.filterMap claimed?

/-- The values that are computed, with their keys. -/
def computations (tr : List (OnceEvent ι κ ν)) : List (κ × ν) := tr.filterMap computed?

end OnceEvent

namespace OnceMap
open OnceEvent

variable {ι κ ν : Type*} {start m m' : OnceMap ι κ ν} {tr : List (OnceEvent ι κ ν)} {e : OnceEvent ι κ ν}

theorem Step.isSome (h : Step m e m') {k : κ} (hk : (m.entries k).isSome) : (m'.entries k).isSome := by
  have henters {l : κ} {v : ν} (h : Enters m m' l v) : (m'.entries k).isSome := by
    by_cases hkey : k = l
    · rw [hkey, h.1]
      rfl
    · rw [h.2 k hkey]
      exact hk
  cases h with
  | claimed _ _ hentries => rwa [hentries]
  | computed _ h => exact henters h
  | found => exact hk
  | put _ h => exact henters h

/-- A value was there, was computed, or was put. -/
def Source (start : OnceMap ι κ ν) (tr : List (OnceEvent ι κ ν)) (k : κ) (v : ν) : Prop :=
  start.entries k = some v ∨ (k, v) ∈ computations tr ∨ .put k v ∈ tr

/-- What the events tell of the map. -/
structure Kept (start : OnceMap ι κ ν) (tr : List (OnceEvent ι κ ν)) (m : OnceMap ι κ ν) : Prop where
  claims_nodup : (claims tr).Nodup
  claimed : ∀ k ∈ claims tr, start.entries k = none ∧ ((m.entries k).isSome ∨ ∃ i, m.held = some (i, k))
  held : ∀ i k, m.held = some (i, k) → m.entries k = none
  computed_nodup : ((computations tr).map Prod.fst).Nodup
  computed : ∀ k v, (k, v) ∈ computations tr → (m.entries k).isSome
  kept : ∀ k, (start.entries k).isSome → (m.entries k).isSome
  sources : ∀ k v, m.entries k = some v → Source start tr k v

theorem Kept.initial (hfree : start.held = none) : Kept start [] start where
  claims_nodup := List.nodup_nil
  claimed := nofun
  held i k h := by rw [hfree] at h; cases h
  computed_nodup := List.nodup_nil
  computed := nofun
  kept _ h := h
  sources _ _ h := .inl h

theorem claims_snoc (tr : List (OnceEvent ι κ ν)) (e : OnceEvent ι κ ν) :
    claims (tr ++ [e]) = claims tr ++ e.claimed?.toList := by
  rw [claims, claims, List.filterMap_append]
  cases e <;> rfl

theorem computations_snoc (tr : List (OnceEvent ι κ ν)) (e : OnceEvent ι κ ν) :
    computations (tr ++ [e]) = computations tr ++ e.computed?.toList := by
  rw [computations, computations, List.filterMap_append]
  cases e <;> rfl

theorem Source.snoc {k : κ} {v : ν} (h : Source start tr k v) (e : OnceEvent ι κ ν) : Source start (tr ++ [e]) k v := by
  rcases h with hstart | hcomputed | hput
  · exact .inl hstart
  · refine .inr (.inl ?_)
    rw [computations_snoc]
    exact List.mem_append_left _ hcomputed
  · exact .inr (.inr (List.mem_append_left _ hput))

/-- Where the values come from after a value has been entered. -/
theorem Kept.entered (h : Kept start tr m) {k : κ} {v : ν} (henters : Enters m m' k v)
    (he : (k, v) ∈ e.computed?.toList ∨ e = .put k v) (l : κ) (w : ν) (hl : m'.entries l = some w) :
    Source start (tr ++ [e]) l w := by
  by_cases hkey : l = k
  · subst hkey
    rw [henters.1] at hl
    cases hl
    rcases he with he | rfl
    · refine .inr (.inl ?_)
      rw [computations_snoc]
      exact List.mem_append_right _ he
    · exact .inr (.inr (List.mem_append_right _ (List.mem_singleton_self _)))
  · rw [henters.2 l hkey] at hl
    exact (h.sources l w hl).snoc e

/-- **One event** keeps what is told. -/
theorem Kept.step (h : Kept start tr m) (hstep : Step m e m') : Kept start (tr ++ [e]) m' := by
  have hsome {k : κ} (hk : (m.entries k).isSome) : (m'.entries k).isSome := hstep.isSome hk
  have hkept (k : κ) (hk : (start.entries k).isSome) : (m'.entries k).isSome := hsome (h.kept k hk)
  cases hstep with
  | @claimed i k _ hfree hnone hentries hheld =>
    have hstart : start.entries k = none := by
      rw [← Option.not_isSome_iff_eq_none]
      intro hs
      have := h.kept k hs
      rw [hnone] at this
      cases this
    have hnew : k ∉ claims tr := by
      intro hk
      rcases (h.claimed k hk).2 with hs | ⟨j, hj⟩
      · rw [hnone] at hs
        cases hs
      · rw [hfree] at hj
        cases hj
    refine ⟨?_, ?_, ?_, ?_, ?_, hkept, ?_⟩
    · rw [claims_snoc]
      exact List.nodup_append.2 ⟨h.claims_nodup, List.nodup_singleton k, fun a ha b hb hab => by
        rw [List.mem_singleton.1 hb] at hab
        exact hnew (hab ▸ ha)⟩
    · intro l hl
      rw [claims_snoc] at hl
      rcases List.mem_append.1 hl with hl | hl
      · obtain ⟨hnone, hs | ⟨j, hj⟩⟩ := h.claimed l hl
        · exact ⟨hnone, .inl (hsome hs)⟩
        · rw [hfree] at hj
          cases hj
      · rw [List.mem_singleton.1 hl]
        exact ⟨hstart, .inr ⟨i, hheld⟩⟩
    · intro j l hj
      rw [hheld] at hj
      cases hj
      rw [hentries, hnone]
    · rw [computations_snoc]
      simpa using h.computed_nodup
    · intro l v hl
      rw [computations_snoc] at hl
      simp only [computed?, Option.toList_none, List.append_nil] at hl
      exact hsome (h.computed l v hl)
    · intro l v hl
      rw [hentries] at hl
      exact (h.sources l v hl).snoc _
  | @computed i k v _ hheld henters hfree =>
    have hnone := h.held i k hheld
    refine ⟨?_, ?_, ?_, ?_, ?_, hkept, ?_⟩
    · rw [claims_snoc]
      simpa using h.claims_nodup
    · intro l hl
      rw [claims_snoc] at hl
      simp only [claimed?, Option.toList_none, List.append_nil] at hl
      obtain ⟨hstart, hs | ⟨j, hj⟩⟩ := h.claimed l hl
      · exact ⟨hstart, .inl (hsome hs)⟩
      · rw [hheld] at hj
        cases hj
        refine ⟨hstart, .inl ?_⟩
        rw [henters.1]
        rfl
    · intro j l hj
      rw [hfree] at hj
      cases hj
    · rw [computations_snoc, List.map_append]
      refine List.nodup_append.2 ⟨h.computed_nodup, List.nodup_singleton k, fun a ha b hb hab => ?_⟩
      rw [List.mem_singleton.1 hb] at hab
      subst hab
      obtain ⟨⟨l, w⟩, hmem, rfl⟩ := List.mem_map.1 ha
      have hs := h.computed l w hmem
      rw [hnone] at hs
      cases hs
    · intro l w hl
      rw [computations_snoc] at hl
      rcases List.mem_append.1 hl with hl | hl
      · exact hsome (h.computed l w hl)
      · cases List.mem_singleton.1 hl
        rw [henters.1]
        rfl
    · exact h.entered henters (.inl (List.mem_singleton_self _))
  | @found i k v hfree hfound =>
    refine ⟨?_, ?_, h.held, ?_, ?_, hkept, ?_⟩
    · rw [claims_snoc]
      simpa using h.claims_nodup
    · rw [claims_snoc]
      simpa using h.claimed
    · rw [computations_snoc]
      simpa using h.computed_nodup
    · rw [computations_snoc]
      simpa using h.computed
    · exact fun l w hl => (h.sources l w hl).snoc _
  | @put k v _ hfree henters hfree' =>
    refine ⟨?_, ?_, ?_, ?_, ?_, hkept, h.entered henters (.inr rfl)⟩
    · rw [claims_snoc]
      simpa using h.claims_nodup
    · intro l hl
      rw [claims_snoc] at hl
      simp only [claimed?, Option.toList_none, List.append_nil] at hl
      obtain ⟨hstart, hs | ⟨j, hj⟩⟩ := h.claimed l hl
      · exact ⟨hstart, .inl (hsome hs)⟩
      · rw [hfree] at hj
        cases hj
    · intro j l hj
      rw [hfree'] at hj
      cases hj
    · rw [computations_snoc]
      simpa using h.computed_nodup
    · intro l w hl
      rw [computations_snoc] at hl
      simp only [computed?, Option.toList_none, List.append_nil] at hl
      exact hsome (h.computed l w hl)

namespace Trace

theorem kept (h : Trace start tr m) (hfree : start.held = none) : Kept start tr m := by
  induction h with
  | nil => exact .initial hfree
  | snoc _ hstep ih => exact ih.step hstep

/-- **A key is claimed once** at most, and only if it had no value. -/
theorem claimed_once (h : Trace start tr m) (hfree : start.held = none) :
    (claims tr).Nodup ∧ ∀ k ∈ claims tr, start.entries k = none :=
  ⟨(h.kept hfree).claims_nodup, fun k hk => ((h.kept hfree).claimed k hk).1⟩

theorem found_from (h : Trace start tr m) (hfree : start.held = none) {i : ι} {k : κ} {v : ν} (hfound : .found i k v ∈ tr) :
    Source start tr k v := by
  induction h with
  | nil => cases hfound
  | @snoc tr e m m' htrace hstep ih =>
    rcases List.mem_append.1 hfound with hfound | hfound
    · exact (ih hfound).snoc e
    · cases List.mem_singleton.1 hfound
      cases hstep with
      | found _ hsome => exact ((htrace.kept hfree).sources k v hsome).snoc _

/-- **A value is computed once** at most for a key. -/
theorem computed_once (h : Trace start tr m) (hfree : start.held = none) {k : κ} {v w : ν}
    (hv : (k, v) ∈ computations tr) (hw : (k, w) ∈ computations tr) : v = w :=
  congrArg Prod.snd (List.inj_on_of_nodup_map (h.kept hfree).computed_nodup hv hw rfl)

/-- **All find one value** for a key that had none, if nobody puts one. -/
theorem agree (h : Trace start tr m) (hfree : start.held = none) {k : κ} (hnone : start.entries k = none)
    (hput : ∀ v, .put k v ∉ tr) {i j : ι} {v w : ν} (hv : .found i k v ∈ tr ∨ .computed i k v ∈ tr)
    (hw : .found j k w ∈ tr ∨ .computed j k w ∈ tr) : v = w := by
  have hcomputed {i : ι} {v : ν} (hv : .found i k v ∈ tr ∨ .computed i k v ∈ tr) : (k, v) ∈ computations tr := by
    rcases hv with hv | hv
    · rcases h.found_from hfree hv with hs | hc | hp
      · rw [hnone] at hs
        cases hs
      · exact hc
      · exact absurd hp (hput v)
    · exact List.mem_filterMap.2 ⟨_, hv, rfl⟩
  exact h.computed_once hfree (hcomputed hv) (hcomputed hw)

end Trace

end OnceMap
