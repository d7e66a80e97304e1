import Mathlib.Data.List.Basic

/-!
# Trying again

A loop that asks, and asks again after a delay while its policy says so, a bounded number of times.

* `retrying` : the answers after which it asks again, with the delays, and the last answer;
* `Retries`, `retrying_retries` : what the loop does, by its attempts;
* `Retries.again_of_mem` : why it asks again.
-/

section
variable {α δ : Type*} {again : Nat → α → Option δ} {answers : Nat → α} {limit first : Nat}

/-- The loop from an attempt on, with the number of attempts that may come after it. -/
def retrying (again : Nat → α → Option δ) (answers : Nat → α) : (limit first : Nat) → List (α × δ) × α
  | 0, first => ([], answers first)
  | limit + 1, first =>
    match again first (answers first) with
    | none => ([], answers first)
    | some delay =>
      let (tried, last) := retrying again answers limit (first + 1)
      ((answers first, delay) :: tried, last)

/-- The answers of the attempts that are tried again, and that of the last one. -/
structure Retries (again : Nat → α → Option δ) (answers : Nat → α) (limit first : Nat) (tried : List (α × δ)) (last : α) :
    Prop where
  bounded : tried.length ≤ limit
  retried : ∀ i (h : i < tried.length), tried[i].1 = answers (first + i) ∧ again (first + i) tried[i].1 = some tried[i].2
  lastAnswer : last = answers (first + tried.length)
  final : tried.length < limit → again (first + tried.length) last = none

theorem retrying_retries (again : Nat → α → Option δ) (answers : Nat → α) (limit first : Nat) :
    Retries again answers limit first (retrying again answers limit first).1 (retrying again answers limit first).2 := by
  induction limit generalizing first with
  | zero =>
    exact ⟨Nat.le_refl 0, fun i h => absurd h (Nat.not_lt_zero i), rfl, fun h => absurd h (Nat.not_lt_zero 0)⟩
  | succ limit ih =>
    rw [retrying]
    rcases hagain : again first (answers first) with _ | delay
    · exact ⟨Nat.zero_le _, fun i h => absurd h (Nat.not_lt_zero i), rfl, fun _ => hagain⟩
    · obtain ⟨hbounded, htried, hlast, hfinal⟩ := ih (first + 1)
      dsimp only
      refine ⟨Nat.succ_le_succ hbounded, fun i h => ?_, ?_, fun h => ?_⟩
      · cases i with
        | zero => exact ⟨rfl, hagain⟩
        | succ i =>
          have hi := htried i (Nat.lt_of_succ_lt_succ h)
          rw [Nat.add_right_comm first 1 i] at hi
          exact hi
      · rw [List.length_cons, ← Nat.add_assoc, Nat.add_right_comm]
        exact hlast
      · rw [List.length_cons, ← Nat.add_assoc, Nat.add_right_comm]
        exact hfinal (Nat.lt_of_succ_lt_succ h)

namespace Retries
variable {tried : List (α × δ)} {last : α}

/-- It asks again after an answer because its policy says so. -/
theorem again_of_mem (h : Retries again answers limit first tried last) {answer : α} {delay : δ}
    (hmem : (answer, delay) ∈ tried) : ∃ i < limit, again (first + i) answer = some delay := by
  obtain ⟨i, hi, hget⟩ := List.getElem_of_mem hmem
  have hagain := (h.retried i hi).2
  rw [hget] at hagain
  exact ⟨i, Nat.lt_of_lt_of_le hi h.bounded, hagain⟩

end Retries

end
