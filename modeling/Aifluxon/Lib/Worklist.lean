import Mathlib.Data.List.Nodup
import Mathlib.Logic.Relation

/-!
# Worklists

A search from a root over any relation, which keeps the nodes it still has to look at (`pending`) and those it has
visited. A node may be pending more than once; one that has been visited is passed over.

* `Explored` : what holds between two rounds of the search;
* `Explored.start`, `.skip`, `.visit` : the first state, and the two kinds of rounds;
* `Explored.mem_iff` : with nothing pending, the visited nodes are those that the root leads to.
-/

namespace Worklist

variable {α : Type*} {child : α → α → Prop} {root node : α} {pending rest visited : List α}

structure Explored (child : α → α → Prop) (root : α) (pending visited : List α) : Prop where
  reached : ∀ a, a ∈ pending ∨ a ∈ visited → Relation.ReflTransGen child root a
  root : root ∈ pending ∨ root ∈ visited
  closed : ∀ a ∈ visited, ∀ b, child a b → b ∈ pending ∨ b ∈ visited
  nodup : visited.Nodup

namespace Explored

theorem start : Explored child root [root] [] where
  reached a ha := by
    simp only [List.mem_singleton, List.not_mem_nil, or_false] at ha
    rw [ha]
  root := .inl (List.mem_singleton_self root)
  closed a ha := by cases ha
  nodup := .nil

theorem skip (h : Explored child root (node :: rest) visited) (hmem : node ∈ visited) :
    Explored child root rest visited := by
  have hkept : ∀ a, a ∈ node :: rest ∨ a ∈ visited → a ∈ rest ∨ a ∈ visited := by
    rintro a (ha | ha)
    · rcases List.mem_cons.1 ha with rfl | ha
      · exact .inr hmem
      · exact .inl ha
    · exact .inr ha
  exact ⟨fun a ha => h.reached a (ha.imp_left (List.mem_cons_of_mem _)), hkept _ h.root,
    fun a ha b hb => hkept b (h.closed a ha b hb), h.nodup⟩

/-- A new node is visited, and what it leads to becomes pending. -/
theorem visit (h : Explored child root (node :: rest) visited) (hnew : node ∉ visited)
    (hpending : ∀ a, a ∈ pending ↔ child node a ∨ a ∈ rest) : Explored child root pending (visited ++ [node]) := by
  have hkept : ∀ a, a ∈ node :: rest ∨ a ∈ visited → a ∈ pending ∨ a ∈ visited ++ [node] := by
    rintro a (ha | ha)
    · rcases List.mem_cons.1 ha with rfl | ha
      · exact .inr (by simp)
      · exact .inl ((hpending a).2 (.inr ha))
    · exact .inr (List.mem_append_left _ ha)
  have hnode : Relation.ReflTransGen child root node := h.reached node (.inl (List.mem_cons_self ..))
  refine ⟨?_, hkept _ h.root, ?_, ?_⟩
  · rintro a (ha | ha)
    · rcases (hpending a).1 ha with hchild | ha
      · exact hnode.tail hchild
      · exact h.reached a (.inl (List.mem_cons_of_mem _ ha))
    · rcases List.mem_append.1 ha with ha | ha
      · exact h.reached a (.inr ha)
      · rwa [List.mem_singleton.1 ha]
  · intro a ha b hb
    rcases List.mem_append.1 ha with ha | ha
    · exact hkept b (h.closed a ha b hb)
    · rw [List.mem_singleton.1 ha] at hb
      exact .inl ((hpending b).2 (.inl hb))
  · rw [List.nodup_append]
    refine ⟨h.nodup, List.nodup_singleton node, fun a ha b hb => ?_⟩
    rw [List.mem_singleton.1 hb]
    exact fun heq => hnew (heq ▸ ha)

/-- **A finished search** has visited exactly what the root leads to. -/
theorem mem_iff (h : Explored child root [] visited) {a : α} :
    a ∈ visited ↔ Relation.ReflTransGen child root a := by
  constructor
  · exact fun ha => h.reached a (.inr ha)
  · intro ha
    induction ha with
    | refl => exact h.root.resolve_left List.not_mem_nil
    | tail _ hchild ih => exact (h.closed _ ih _ hchild).resolve_left List.not_mem_nil

end Explored

end Worklist
