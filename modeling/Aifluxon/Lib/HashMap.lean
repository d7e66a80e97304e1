import Mathlib.Data.List.AList

/-!
# Hash maps as association lists

A hash map is a finite association list with distinct keys; its order stands for the order of the
map's iterator. To what Mathlib has on `AList` this adds the values and the update of every value:

* `HashMap.lookup_insert_ite` : one rewriting rule for the lookup after an insertion;
* `HashMap.values`, `mem_values`;
* `HashMap.modify`, `lookup_modify`, `HashMap.mapVals`, `lookup_mapVals`.
-/

/-- Finite maps from `K` to `V`. -/
abbrev HashMap (K V : Type*) := AList fun _ : K => V

namespace HashMap

variable {K V W : Type*} [DecidableEq K]

@[simp] theorem lookup_insert_ite (m : HashMap K V) (a b : K) (v : V) :
    (m.insert a v).lookup b = if b = a then some v else m.lookup b := by
  by_cases h : b = a
  · subst h
    rw [if_pos rfl, AList.lookup_insert]
  · rw [if_neg h, AList.lookup_insert_ne h]

@[simp] theorem lookup_erase_ite (m : HashMap K V) (a b : K) :
    (m.erase a).lookup b = if b = a then none else m.lookup b := by
  by_cases h : b = a
  · subst h
    rw [if_pos rfl, AList.lookup_erase]
  · rw [if_neg h, AList.lookup_erase_ne h]

/-- The values, in the order of the iterator. -/
def values (m : HashMap K V) : List V := m.entries.map Sigma.snd

theorem mem_values {m : HashMap K V} {v : V} : v ∈ m.values ↔ ∃ k, m.lookup k = some v := by
  constructor
  · intro h
    obtain ⟨⟨k, w⟩, he, rfl⟩ := List.mem_map.1 h
    exact ⟨k, AList.mem_lookup_iff.2 he⟩
  · rintro ⟨k, h⟩
    exact List.mem_map.2 ⟨⟨k, v⟩, AList.mem_lookup_iff.1 h, rfl⟩

/-- Replace the value `v` at every key `k` by `f k v`, in place. -/
def mapWithKey (f : K → V → W) (m : HashMap K V) : HashMap K W where
  entries := m.entries.map fun e => ⟨e.1, f e.1 e.2⟩
  nodupKeys := by
    have h := m.nodupKeys
    rw [List.NodupKeys] at h ⊢
    have hk : (m.entries.map fun e => (⟨e.1, f e.1 e.2⟩ : Sigma fun _ : K => W)).keys =
        m.entries.keys := by
      simp [List.keys, Function.comp_def]
    rwa [hk]

/-- `values_mut`. -/
def mapVals (f : V → W) (m : HashMap K V) : HashMap K W := m.mapWithKey fun _ => f

/-- `get_mut`: replace the value at `k`, if there is one, by its image under `f`. -/
def modify (k : K) (f : V → V) (m : HashMap K V) : HashMap K V :=
  m.mapWithKey fun a v => if a = k then f v else v

theorem lookup_mapWithKey (f : K → V → W) (m : HashMap K V) (k : K) :
    (m.mapWithKey f).lookup k = (m.lookup k).map (f k) := by
  apply Option.ext
  intro w
  rw [Option.map_eq_some_iff]
  constructor
  · intro h
    obtain ⟨⟨k', v⟩, he, heq⟩ := List.mem_map.1 (AList.mem_lookup_iff.1 h)
    cases heq
    exact ⟨v, AList.mem_lookup_iff.2 he, rfl⟩
  · rintro ⟨v, h, rfl⟩
    exact AList.mem_lookup_iff.2 (List.mem_map.2 ⟨⟨k, v⟩, AList.mem_lookup_iff.1 h, rfl⟩)

@[simp] theorem lookup_mapVals (f : V → W) (m : HashMap K V) (k : K) :
    (m.mapVals f).lookup k = (m.lookup k).map f :=
  lookup_mapWithKey _ _ _

@[simp] theorem lookup_modify (k : K) (f : V → V) (m : HashMap K V) (a : K) :
    (m.modify k f).lookup a = if a = k then (m.lookup a).map f else m.lookup a := by
  rw [modify, lookup_mapWithKey]
  by_cases h : a = k
  · simp [h]
  · simp [h]

end HashMap
