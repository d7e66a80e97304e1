import Mathlib.Data.List.Basic

/-!
# Functions that take their input in pieces

A function `push` reads a piece of input in a state and gives the next state with its outputs.

* `Splits push` : to read a piece is to read its two parts one after the other, wherever it is cut;
* `pushAll`, `Splits.pushAll` : hence the pieces of an input do not matter;
* `Splits.settled` : after a piece, an empty one changes nothing.
-/

namespace Incremental

variable {σ α β : Type*}

/-- A piece that is cut in two is read as before. -/
def Splits (push : σ → List α → σ × List β) : Prop :=
  ∀ s xs ys, push s (xs ++ ys) =
    ((push (push s xs).1 ys).1, (push s xs).2 ++ (push (push s xs).1 ys).2)

/-- The pieces of an input, one after the other. -/
def pushAll (push : σ → List α → σ × List β) : σ → List (List α) → σ × List β
  | s, [] => (s, [])
  | s, x :: xs =>
    let r := push s x
    let t := pushAll push r.1 xs
    (t.1, r.2 ++ t.2)

/-- **The cuts do not matter.** -/
theorem Splits.pushAll {push : σ → List α → σ × List β} (h : Splits push) (s : σ) (x : List α) :
    ∀ xs, Incremental.pushAll push s (x :: xs) = push s (x ++ xs.flatten) := by
  intro xs
  induction xs generalizing s x with
  | nil => simp [Incremental.pushAll]
  | cons y xs ih =>
    rw [Incremental.pushAll, ih, List.flatten_cons, h s x]

/-- After a piece, an empty one changes nothing. -/
theorem Splits.settled {push : σ → List α → σ × List β} (h : Splits push) (s : σ) (xs : List α) :
    push (push s xs).1 [] = ((push s xs).1, []) := by
  have hcut := h s xs []
  rw [List.append_nil, Prod.ext_iff] at hcut
  exact Prod.ext hcut.1.symm (List.self_eq_append_right.1 hcut.2)

end Incremental
