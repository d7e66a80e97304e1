import Aifluxon.Core.Json

/-!
# The entries of an object

`Map::get_mut`, `Map::remove` and `Map::insert` of `serde_json`, one after the other.

* `modifyEntry`, `removeEntry` : an entry is changed or taken away;
* `modifyEntry_congr`, `modifyEntry_insertEntry`, `removeEntry_insertEntry` : what is left of two calls.
-/

namespace Aifluxon

/-- `Map::get_mut`, with what is done to the value. -/
def modifyEntry (key : String) (f : Value → Value) : List (String × Value) → List (String × Value)
  | [] => []
  | (k, v) :: entries => if k = key then (k, f v) :: entries else (k, v) :: modifyEntry key f entries

/-- `Map::remove`. -/
def removeEntry (key : String) (entries : List (String × Value)) : List (String × Value) :=
  entries.filter fun e => e.1 ≠ key

section Entries
variable {key : String} {f g : Value → Value} {v : Value} {entries : List (String × Value)}

theorem lookup_modifyEntry_self : (modifyEntry key f entries).lookup key = (entries.lookup key).map f := by
  induction entries with
  | nil => rfl
  | cons e entries ih =>
    obtain ⟨k, w⟩ := e
    unfold modifyEntry
    split
    · rename_i hk
      rw [hk, List.lookup_cons_self, List.lookup_cons_self]
      rfl
    · rename_i hk
      have hbeq : (key == k) = false := beq_false_of_ne (Ne.symm hk)
      rw [List.lookup_cons, hbeq, List.lookup_cons, hbeq]
      exact ih

theorem lookup_modifyEntry_ne {k : String} (h : k ≠ key) : (modifyEntry key f entries).lookup k = entries.lookup k := by
  induction entries with
  | nil => rfl
  | cons e entries ih =>
    obtain ⟨k', w⟩ := e
    unfold modifyEntry
    split
    · rename_i hk
      have hbeq : (k == k') = false := beq_false_of_ne (hk ▸ h)
      rw [List.lookup_cons, hbeq, List.lookup_cons, hbeq]
    · rw [List.lookup_cons, List.lookup_cons, ih]

theorem modifyEntry_modifyEntry : modifyEntry key f (modifyEntry key g entries) = modifyEntry key (f ∘ g) entries := by
  induction entries with
  | nil => rfl
  | cons e entries ih =>
    obtain ⟨k, w⟩ := e
    by_cases hk : k = key
    · simp only [modifyEntry, if_pos hk, Function.comp_apply]
    · simp only [modifyEntry, if_neg hk, ih]

/-- Only the value that is there matters. -/
theorem modifyEntry_congr (hv : entries.lookup key = some v) (h : f v = g v) :
    modifyEntry key f entries = modifyEntry key g entries := by
  induction entries with
  | nil => rfl
  | cons e entries ih =>
    obtain ⟨k, w⟩ := e
    by_cases hk : k = key
    · rw [hk, List.lookup_cons_self] at hv
      simp only [modifyEntry, if_pos hk, Option.some.inj hv, h]
    · have hbeq : (key == k) = false := beq_false_of_ne (Ne.symm hk)
      rw [List.lookup_cons, hbeq] at hv
      simp only [modifyEntry, if_neg hk, ih hv]

theorem modifyEntry_of_lookup (h : entries.lookup key = none) : modifyEntry key f entries = entries := by
  induction entries with
  | nil => rfl
  | cons e entries ih =>
    obtain ⟨k, w⟩ := e
    unfold modifyEntry
    split
    · rename_i hk
      rw [hk, List.lookup_cons_self] at h
      exact nomatch h
    · rename_i hk
      rw [List.lookup_cons, beq_false_of_ne (Ne.symm hk)] at h
      rw [ih h]

theorem modifyEntry_id : modifyEntry key id entries = entries := by
  induction entries with
  | nil => rfl
  | cons e entries ih =>
    obtain ⟨k, w⟩ := e
    unfold modifyEntry
    split
    · rfl
    · rw [ih]

theorem modifyEntry_insertEntry : modifyEntry key f (insertEntry key v entries) = insertEntry key (f v) entries := by
  induction entries with
  | nil => simp [insertEntry, modifyEntry]
  | cons e entries ih =>
    obtain ⟨k, w⟩ := e
    by_cases hk : k = key
    · simp only [insertEntry, if_pos hk, modifyEntry, if_true]
    · by_cases hlt : key < k
      · simp only [insertEntry, if_neg hk, if_pos hlt, modifyEntry, if_true]
      · simp only [insertEntry, if_neg hk, if_neg hlt, modifyEntry, ih]

theorem insertEntry_insertEntry (w : Value) :
    insertEntry key v (insertEntry key w entries) = insertEntry key v entries := by
  induction entries with
  | nil => simp [insertEntry]
  | cons e entries ih =>
    obtain ⟨k, u⟩ := e
    by_cases hk : k = key
    · simp only [insertEntry, if_pos hk, if_true]
    · by_cases hlt : key < k
      · simp only [insertEntry, if_neg hk, if_pos hlt, if_true]
      · simp only [insertEntry, if_neg hk, if_neg hlt, ih]

/-- Nothing is removed where nothing is. -/
theorem removeEntry_of_lookup (h : entries.lookup key = none) : removeEntry key entries = entries := by
  refine List.filter_eq_self.2 fun e he => decide_eq_true fun heq => ?_
  have hne := List.lookup_eq_none_iff.1 h e he
  rw [heq, bne_self_eq_false] at hne
  exact absurd hne (by decide)

theorem removeEntry_insertEntry (h : entries.lookup key = none) :
    removeEntry key (insertEntry key v entries) = entries := by
  induction entries with
  | nil => exact List.filter_cons_of_neg (by simp)
  | cons e entries ih =>
    have hall := removeEntry_of_lookup h
    obtain ⟨k, u⟩ := e
    have hk : k ≠ key := by
      intro heq
      rw [heq, List.lookup_cons_self] at h
      exact nomatch h
    rw [List.lookup_cons, beq_false_of_ne (Ne.symm hk)] at h
    by_cases hlt : key < k
    · rw [insertEntry, if_neg hk, if_pos hlt]
      exact (List.filter_cons_of_neg (by simp)).trans hall
    · rw [insertEntry, if_neg hk, if_neg hlt]
      exact (List.filter_cons_of_pos (by simpa using hk)).trans (congrArg ((k, u) :: ·) (ih h))

end Entries

end Aifluxon
