import Aifluxon.Core.Encoding
import Aifluxon.Core.Entries
import Aifluxon.Runtime.Continuation

/-!
# Fields of an object

`body[key] = value` and `object.remove(key)`, and what stands under a key afterwards.

* `Value.setField`, `Value.removeField`, `Value.setInner` : the assignments;
* `get_setField_self`, `get_setField_ne`, `get_removeField` : what is under a key;
* `get_canonical` : what is under a key of an object that is read.
-/

namespace Aifluxon

namespace Value

/-- `body[key] = value`. Null becomes an object; another value that is no object panics, and no body is one. -/
def setField (body : Value) (key : String) (value : Value) : Value :=
  match body with
  | .object entries => .object (insertEntry key value entries)
  | .null => .object [(key, value)]
  | body => body

def removeField (body : Value) (key : String) : Value :=
  match body with
  | .object entries => .object (removeEntry key entries)
  | body => body

/-- An object, or a new one. -/
def orObject (value : Option Value) : Value :=
  match value with
  | some (.object entries) => .object entries
  | _ => .object []

/-- `body[outer][key] = value`, when `body[outer]` is made an object first. -/
def setInner (body : Value) (outer key : String) (value : Value) : Value :=
  body.setField outer ((orObject (body.get outer)).setField key value)

section
variable {key k outer : String} {value body : Value}

theorem get_setField_ne (h : k ≠ key) (body value : Value) : (body.setField key value).get k = body.get k := by
  cases body with
  | object entries => exact lookup_insertEntry_ne h value entries
  | null =>
    show List.lookup k [(key, value)] = none
    rw [List.lookup_cons, beq_false_of_ne h]
    rfl
  | _ => rfl

theorem get_setField_self (hbody : body.isObject = true) : (body.setField key value).get key = some value := by
  cases body with
  | object entries => exact lookup_insertEntry_self key value entries
  | _ => cases hbody

theorem isObject_setField (hbody : body.isObject = true) : (body.setField key value).isObject = true := by
  cases body with
  | object entries => rfl
  | _ => cases hbody

theorem get_removeField (body : Value) (key k : String) :
    (body.removeField key).get k = if k = key then none else body.get k := by
  cases body with
  | object entries => exact lookup_filter_key key k entries
  | _ => exact (ite_self none).symm

theorem isObject_removeField (hbody : body.isObject = true) : (body.removeField key).isObject = true := by
  cases body with
  | object entries => rfl
  | _ => cases hbody

theorem get_setInner_ne (h : k ≠ outer) (body value : Value) : (body.setInner outer key value).get k = body.get k :=
  get_setField_ne h _ _

theorem isObject_setInner (hbody : body.isObject = true) : (body.setInner outer key value).isObject = true :=
  isObject_setField hbody

end

/-! ## Objects that are read -/

/-- Keys that are different keep their values. -/
theorem lookup_canonicalEntries {map entries : List (String × Value)} (h : (entries.map Prod.fst).Nodup)
    (key : String) : (canonicalEntries map entries).lookup key =
      ((entries.lookup key).map canonical).or (map.lookup key) := by
  induction entries generalizing map with
  | nil => rfl
  | cons entry entries ih =>
    obtain ⟨k, value⟩ := entry
    rw [List.map_cons, List.nodup_cons] at h
    rw [canonicalEntries, ih h.2]
    by_cases hkey : key = k
    · subst hkey
      have hnone : entries.lookup key = none := by
        rw [List.lookup_eq_none_iff]
        intro entry hentry
        rw [bne_iff_ne]
        rintro rfl
        exact h.1 (List.mem_map.2 ⟨entry, hentry, rfl⟩)
      rw [hnone, List.lookup_cons_self, lookup_insertEntry_self]
      rfl
    · rw [lookup_insertEntry_ne hkey, List.lookup_cons, beq_false_of_ne hkey]

theorem get_canonical {entries : List (String × Value)} (h : (entries.map Prod.fst).Nodup) (key : String) :
    (canonical (.object entries)).get key = (entries.lookup key).map canonical := by
  rw [canonical, get, lookup_canonicalEntries h]
  exact Option.or_none

/-- A struct reads a sorted map by its keys. -/
theorem field_of_pairwise {entries : List (String × Value)} (h : entries.Pairwise fun a b => a.1 < b.1) (key : String) :
    (Value.object entries).field key = some (entries.lookup key) := by
  induction entries with
  | nil => rfl
  | cons entry entries ih =>
    obtain ⟨k, value⟩ := entry
    obtain ⟨hfirst, hrest⟩ := List.pairwise_cons.1 h
    by_cases hkey : k = key
    · subst hkey
      have hnone : (entries.filter fun e => e.1 = k) = [] := by
        rw [List.filter_eq_nil_iff]
        intro entry hentry
        simpa using (hfirst entry hentry).ne'
      simp [field, hnone]
    · have hlookup : List.lookup key ((k, value) :: entries) = entries.lookup key := by
        rw [List.lookup_cons, beq_false_of_ne (Ne.symm hkey)]
      rw [hlookup, ← ih hrest]
      simp [field, hkey]

/-- What a struct finds of an object that was read, whose keys are different. -/
theorem field_canonical {entries : List (String × Value)} (h : (entries.map Prod.fst).Nodup) (key : String) :
    (canonical (.object entries)).field key = some ((entries.lookup key).map canonical) := by
  have hsorted := (sorted_canonical (.object entries)).1
  unfold canonical at hsorted ⊢
  rw [field_of_pairwise hsorted, lookup_canonicalEntries h]
  exact congrArg some Option.or_none

end Value

end Aifluxon
