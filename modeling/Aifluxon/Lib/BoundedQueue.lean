import Mathlib.Data.List.Basic

/-!
# Bounded queues

A first-in first-out queue with room for `cap` items, as tasks share it. A put on a full queue and a
take from an empty one are not enabled.

* `BoundedQueue.put`, `.take` : the two ends, with one lemma for each way they go;
* `BoundedQueue.put_isSome` : a put waits on a full queue only.
-/

structure BoundedQueue (α : Type*) (cap : Nat) where
  items : List α
  bounded : items.length ≤ cap

namespace BoundedQueue

variable {α : Type*} {cap : Nat}

def empty : BoundedQueue α cap := ⟨[], Nat.zero_le _⟩

def put (q : BoundedQueue α cap) (a : α) : Option (BoundedQueue α cap) :=
  if h : q.items.length < cap then some ⟨q.items ++ [a], by rw [List.length_append]; exact h⟩ else none

def take : BoundedQueue α cap → Option (α × BoundedQueue α cap)
  | ⟨[], _⟩ => none
  | ⟨a :: items, h⟩ => some (a, ⟨items, Nat.le_of_succ_le h⟩)

variable {q q' : BoundedQueue α cap} {a : α}

@[simp] theorem items_empty : (empty : BoundedQueue α cap).items = [] := rfl

theorem put_eq_some (h : q.put a = some q') : q'.items = q.items ++ [a] := by
  unfold put at h
  split at h <;> cases h
  rfl

theorem put_isSome : (q.put a).isSome = true ↔ q.items.length < cap := by
  unfold put
  split <;> simp [*]

theorem put_eq_none : q.put a = none ↔ q.items.length = cap := by
  rw [← Option.not_isSome_iff_eq_none, put_isSome]
  have := q.bounded
  omega

theorem take_eq_some (h : q.take = some (a, q')) : q.items = a :: q'.items := by
  obtain ⟨_ | ⟨b, items⟩, hb⟩ := q
  · cases h
  · cases h
    rfl

end BoundedQueue
