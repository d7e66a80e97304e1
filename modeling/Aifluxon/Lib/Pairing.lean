import Mathlib.Data.List.Basic

/-!
# Calls and their outputs

A sequence of marks in which every batch of calls is followed by its outputs.

* `Mark` : a call or an output under its identifier, or anything else, which ends a batch;
* `Paired` : one output for each call of a batch, in their order, and no other output;
* `Paired.append`, `paired_of_others` : paired sequences follow each other;
* `Paired.outputs` : the outputs are those of the calls.
-/

inductive Mark (α : Type*) where
  | call (id : α)
  | output (id : α)
  | other

namespace Mark

variable {α : Type*}

def callId : Mark α → Option α
  | .call id => some id
  | _ => none

def outputId : Mark α → Option α
  | .output id => some id
  | _ => none

/-- Every batch of calls is followed by the outputs of its calls. -/
inductive Paired : List (Mark α) → Prop where
  | nil : Paired []
  | other {marks : List (Mark α)} (h : Paired marks) : Paired (.other :: marks)
  | batch {marks : List (Mark α)} {ids : List α} (hids : ids ≠ []) (h : Paired marks) :
      Paired (ids.map .call ++ ids.map .output ++ marks)

variable {l l' : List (Mark α)}

theorem Paired.append (h : Paired l) (h' : Paired l') : Paired (l ++ l') := by
  induction h with
  | nil => exact h'
  | other _ ih => exact .other ih
  | batch hids _ ih =>
    rw [List.append_assoc]
    exact .batch hids ih

theorem paired_of_others (h : ∀ m ∈ l, m = .other) : Paired l := by
  induction l with
  | nil => exact .nil
  | cons m l ih =>
    rw [h m (List.mem_cons_self ..)]
    exact .other (ih fun x hx => h x (List.mem_cons_of_mem _ hx))

/-- **The outputs are those of the calls**, in their order. -/
theorem Paired.outputs (h : Paired l) : l.filterMap outputId = l.filterMap callId := by
  induction h with
  | nil => rfl
  | other _ ih => exact ih
  | batch _ _ ih =>
    simp only [List.filterMap_append, List.filterMap_map, Function.comp_def, callId, outputId, ih]
    simp

end Mark
