import Mathlib.Data.List.GetD
import Mathlib.Data.List.Induction

/-!
# Sealed logs

An append-only log whose entries are numbered from 1 with a counter that saturates at `cap`, that
opens with its only start entry, and that a final entry seals.

* `SealedLog` : the invariant, for any kind of entries;
* `SealedLog.single`, `SealedLog.snoc` : the log is opened, and an unsealed log is appended to;
* `SealedLog.number_eq`, `SealedLog.filter_number` : the numbers of a log shorter than `cap`;
* `SealedLog.last_of_final`, `SealedLog.prefix_eq` : a final entry is the last one, for ever.
-/

variable {ε φ : Type*}

/-- The final state that the last entry of a log gives, if it gives one. -/
def sealOf (final : ε → Option φ) (log : List ε) : Option φ := log.getLast?.bind final

/-- `log` opens with its only start entry, is numbered `1, 2, …` up to `cap`, and no entry but the
last is final. -/
structure SealedLog (number : ε → Nat) (start : ε → Bool) (final : ε → Option φ) (cap : Nat)
    (log : List ε) : Prop where
  opened : ∃ e rest, log = e :: rest ∧ start e = true ∧ ∀ x ∈ rest, start x = false
  numbered : ∀ i (h : i < log.length), number log[i] = min (i + 1) cap
  sealedLast : ∀ init e, log = init ++ [e] → ∀ x ∈ init, final x = none

namespace SealedLog

variable {number : ε → Nat} {start : ε → Bool} {final : ε → Option φ} {cap : Nat} {log : List ε} {e : ε}

@[simp] theorem sealOf_snoc : sealOf final (log ++ [e]) = final e := by
  simp [sealOf]

theorem ne_nil (h : SealedLog number start final cap log) : log ≠ [] := by
  obtain ⟨e, rest, rfl, -⟩ := h.opened
  exact List.cons_ne_nil e rest

theorem single (hs : start e = true) (hn : number e = min 1 cap) :
    SealedLog number start final cap [e] where
  opened := ⟨e, [], rfl, hs, by simp⟩
  numbered := by
    intro i h
    obtain rfl : i = 0 := by simpa using h
    simpa using hn
  sealedLast := by
    intro init x hx y hy
    have hlen := congrArg List.length hx
    simp only [List.length_singleton, List.length_append] at hlen
    have : init = [] := List.length_eq_zero_iff.1 (by omega)
    simp [this] at hy

/-- An entry is appended to a log that is not sealed. -/
theorem snoc (h : SealedLog number start final cap log) (hopen : sealOf final log = none)
    (hs : start e = false) (hn : number e = min (log.length + 1) cap) :
    SealedLog number start final cap (log ++ [e]) where
  opened := by
    obtain ⟨x, rest, rfl, hx, hrest⟩ := h.opened
    refine ⟨x, rest ++ [e], rfl, hx, fun y hy => ?_⟩
    rcases List.mem_append.1 hy with hy | hy
    · exact hrest y hy
    · rw [List.mem_singleton.1 hy]
      exact hs
  numbered := by
    intro i hi
    by_cases hlt : i < log.length
    · rw [List.getElem_append_left hlt]
      exact h.numbered i hlt
    · have hieq : i = log.length := by
        rw [List.length_append, List.length_singleton] at hi
        omega
      subst hieq
      simpa using hn
  sealedLast := by
    intro init x hx
    obtain ⟨rfl, -⟩ := List.append_inj' hx rfl
    obtain ⟨init', y, rfl⟩ := List.eq_nil_or_concat log |>.resolve_left h.ne_nil
    intro z hz
    rw [List.concat_eq_append] at hz hopen h
    rcases List.mem_append.1 hz with hz | hz
    · exact h.sealedLast init' y rfl z hz
    · rw [List.mem_singleton.1 hz]
      simpa using hopen

/-- The number that the next entry gets, from the last one. -/
theorem last_number (h : SealedLog number start final cap log) (hlast : log.getLast? = some e) :
    number e = min log.length cap := by
  obtain ⟨init, rfl⟩ := List.getLast?_eq_some_iff.1 hlast
  have hn := h.numbered init.length (by simp)
  simpa using hn

/-- A log shorter than the cap is numbered exactly `1, 2, …`. -/
theorem number_eq (h : SealedLog number start final cap log) (hlen : log.length ≤ cap) (i : Nat)
    (hi : i < log.length) : number log[i] = i + 1 := by
  rw [h.numbered i hi]
  omega

/-- The entries past the `n`-th one, by their numbers. -/
theorem filter_number (h : SealedLog number start final cap log) (hlen : log.length ≤ cap) (n : Nat) :
    (log.filter fun e => number e > n) = log.drop n := by
  conv_lhs => rw [← List.take_append_drop n log, List.filter_append]
  rw [List.filter_eq_nil_iff.2, List.filter_eq_self.2, List.nil_append]
  · intro e he
    obtain ⟨i, hi, rfl⟩ := List.mem_drop_iff_getElem.1 he
    rw [h.number_eq hlen, decide_eq_true_eq]
    omega
  · intro e he
    obtain ⟨i, hi, rfl⟩ := List.mem_take_iff_getElem.1 he
    rw [h.number_eq hlen, decide_eq_true_eq]
    omega

theorem last_of_final (h : SealedLog number start final cap log) {f : φ} (he : e ∈ log)
    (hf : final e = some f) : log.getLast? = some e := by
  obtain ⟨init, x, rfl⟩ := List.eq_nil_or_concat log |>.resolve_left h.ne_nil
  rw [List.concat_eq_append] at he h ⊢
  rcases List.mem_append.1 he with he | he
  · rw [h.sealedLast init x rfl e he] at hf
    cases hf
  · rw [List.mem_singleton.1 he]
    simp

theorem sealOf_of_final (h : SealedLog number start final cap log) {f : φ} (he : e ∈ log)
    (hf : final e = some f) : sealOf final log = some f := by
  rw [sealOf, h.last_of_final he hf]
  exact hf

theorem prefix_eq {log' : List ε} (h : SealedLog number start final cap log')
    (hpre : log <+: log') {f : φ} (hseal : sealOf final log = some f) : log' = log := by
  obtain ⟨x, hx, hf⟩ := Option.bind_eq_some_iff.1 hseal
  obtain ⟨init, rfl⟩ := List.getLast?_eq_some_iff.1 hx
  obtain ⟨rest, rfl⟩ := hpre
  have hlast := h.last_of_final (e := x) (by simp) hf
  obtain rfl | ⟨rest, y, rfl⟩ := List.eq_nil_or_concat rest
  · rw [List.append_nil]
  · have := h.sealedLast (init ++ [x] ++ rest) y (by simp) x (by simp)
    rw [this] at hf
    cases hf

end SealedLog
