import Mathlib.Data.List.Infix
import Mathlib.Order.Nat

/-!
# Text that comes as deltas and as snapshots

`TextDeltaReconciler` of `delta.rs`.

* `missingCompleteTextSuffix` : what a snapshot adds to a text, after what the two have in common;
* `strictCompleteTextSuffix`, `reconcileTerminalText` : the same where the text must begin the snapshot;
* `joinText`, `Unlapped`, `joinText_eq_append` : a snapshot that adds all of itself;
* `TextDeltaReconciler.pushCompatible`, `.complete` : a text that deltas and snapshots go into;
* `pushCompatible_emitted` : the text grows by what is handed on;
* `pushCompatible_incremental`, `pushCompatible_snapshot` : one lemma for each way a delta is taken;
* `pushAll`, `unrepeated`, `pushAll_emitted_iff` : when many deltas make up the text.
-/

namespace Aifluxon

/-! ## Suffixes -/

/-- How many characters at the end of `current` begin `complete`. -/
def overlap (current complete : List Char) : Nat :=
  ((List.range (min current.length complete.length + 1)).reverse.find? fun n =>
    (complete.take n).isSuffixOf current).getD 0

/-- `(!suffix.is_empty()).then(..)`. -/
def nonempty (suffix : List Char) : Option (List Char) := if suffix = [] then none else some suffix

def missingCompleteTextSuffix (current complete : List Char) : Option (List Char) :=
  if complete = [] ∨ current = complete ∨ complete.isSuffixOf current then none
  else if current.isPrefixOf complete then nonempty (complete.drop current.length)
  else nonempty (complete.drop (overlap current complete))

def strictCompleteTextSuffix (current complete : List Char) : Except String (Option (List Char)) :=
  if complete = [] ∨ current = complete then .ok none
  else if current.isPrefixOf complete then .ok (nonempty (complete.drop current.length))
  else .error "Responses stream text diverged from its completed snapshot."

def reconcileTerminalText (current complete : List Char) (sawOutputDone : Bool) :
    Except String (Option (List Char)) :=
  if sawOutputDone ∧ current ≠ complete then
    .error "Responses done output diverged from its completed terminal snapshot."
  else strictCompleteTextSuffix current complete

section Suffixes
variable {current complete suffix : List Char}

@[simp] theorem nonempty_getD (suffix : List Char) : (nonempty suffix).getD [] = suffix := by
  unfold nonempty
  split <;> simp [*]

theorem nonempty_eq_some : nonempty complete = some suffix ↔ complete = suffix ∧ suffix ≠ [] := by
  unfold nonempty
  split
  · rename_i h
    simp only [h, reduceCtorEq, false_iff]
    rintro ⟨rfl, hne⟩
    exact hne rfl
  · rename_i h
    simp only [Option.some.injEq]
    exact ⟨fun heq => ⟨heq, heq ▸ h⟩, fun heq => heq.1⟩

/-- Nothing is missing of a text but what is at its end. -/
theorem missing_suffix (h : missingCompleteTextSuffix current complete = some suffix) :
    suffix <:+ complete ∧ suffix ≠ [] := by
  unfold missingCompleteTextSuffix at h
  split at h
  · cases h
  split at h
  all_goals
    obtain ⟨rfl, hne⟩ := nonempty_eq_some.1 h
    exact ⟨List.drop_suffix _ _, hne⟩

/-- What is missing of a text that begins a snapshot. -/
@[simp] theorem missing_append (current suffix : List Char) :
    missingCompleteTextSuffix current (current ++ suffix) = nonempty suffix := by
  unfold missingCompleteTextSuffix
  split
  · rename_i h
    have hlen : (current ++ suffix).length ≤ current.length := by
      rcases h with h | h | h
      · rw [h]
        exact Nat.zero_le _
      · rw [← h]
      · exact (List.isSuffixOf_iff_suffix.1 h).length_le
    rw [List.length_append] at hlen
    rw [List.length_eq_zero_iff.1 (show suffix.length = 0 by omega)]
    rfl
  · rw [if_pos (List.isPrefixOf_iff_prefix.2 (List.prefix_append _ _)), List.drop_left]

/-- All of a snapshot is missing of an empty text. -/
@[simp] theorem missing_nil (complete : List Char) : missingCompleteTextSuffix [] complete = nonempty complete :=
  missing_append [] complete

/-- A text with what a snapshot adds to it. -/
def joinText (current complete : List Char) : List Char :=
  current ++ (missingCompleteTextSuffix current complete).getD []

/-- A text does not end with a beginning of another. -/
def Unlapped (current complete : List Char) : Prop := ∀ n, n < complete.length → ¬ complete.take (n + 1) <:+ current

instance (current complete : List Char) : Decidable (Unlapped current complete) :=
  inferInstanceAs (Decidable (∀ n, n < complete.length → _))

@[simp] theorem joinText_nil_left (complete : List Char) : joinText [] complete = complete := by
  simp [joinText]

@[simp] theorem joinText_nil_right (current : List Char) : joinText current [] = current := by
  simp [joinText, missingCompleteTextSuffix]

/-- No more is joined than has come. -/
theorem joinText_length (current complete : List Char) :
    (joinText current complete).length ≤ current.length + complete.length := by
  rw [joinText, List.length_append]
  cases h : missingCompleteTextSuffix current complete with
  | none => simp
  | some suffix => simpa using (missing_suffix h).1.length_le

theorem overlap_le (current complete : List Char) : overlap current complete ≤ complete.length := by
  unfold overlap
  cases h : (List.range (min current.length complete.length + 1)).reverse.find? fun n =>
      (complete.take n).isSuffixOf current with
  | none => exact Nat.zero_le _
  | some n =>
    have hmem := List.mem_of_find?_eq_some h
    rw [List.mem_reverse, List.mem_range] at hmem
    rw [Option.getD_some]
    omega

theorem overlap_suffix (current complete : List Char) : complete.take (overlap current complete) <:+ current := by
  unfold overlap
  cases h : (List.range (min current.length complete.length + 1)).reverse.find? fun n =>
      (complete.take n).isSuffixOf current with
  | none => simp
  | some n => simpa using List.find?_some h

/-- The longest beginning is found first. -/
theorem overlap_pos {n : Nat} (hn : n < complete.length) (h : complete.take (n + 1) <:+ current) :
    overlap current complete ≠ 0 := by
  have hlen := h.length_le
  rw [List.length_take] at hlen
  have hmem : n + 1 ∈ (List.range (min current.length complete.length + 1)).reverse := by
    rw [List.mem_reverse, List.mem_range]
    omega
  unfold overlap
  cases hfind : (List.range (min current.length complete.length + 1)).reverse.find? fun n =>
      (complete.take n).isSuffixOf current with
  | none => exact absurd (List.isSuffixOf_iff_suffix.2 h) (List.find?_eq_none.1 hfind _ hmem)
  | some m =>
    obtain ⟨-, before, after, hlist, hbefore⟩ := List.find?_eq_some_iff_append.1 hfind
    have hsorted : (List.range (min current.length complete.length + 1)).reverse.Pairwise (· > ·) :=
      List.pairwise_reverse.2 List.pairwise_lt_range
    rw [hlist] at hmem hsorted
    rintro rfl
    rcases List.mem_append.1 hmem with hmem | hmem
    · have hnot := hbefore _ hmem
      rw [List.isSuffixOf_iff_suffix.2 h] at hnot
      cases hnot
    · rcases List.mem_cons.1 hmem with h0 | hmem
      · cases h0
      · exact Nat.not_lt_zero _ ((List.pairwise_cons.1 (List.pairwise_append.1 hsorted).2.1).1 _ hmem)

/-- **A snapshot is added whole exactly when no beginning of it is there already.** -/
theorem joinText_eq_append : joinText current complete = current ++ complete ↔ Unlapped current complete := by
  have hdrop {n : Nat} (hn : n ≤ complete.length) : complete.drop n = complete ↔ n = 0 := by
    constructor
    · intro h
      have hlen := congrArg List.length h
      rw [List.length_drop] at hlen
      omega
    · rintro rfl
      rfl
  rw [joinText, List.append_right_inj]
  unfold missingCompleteTextSuffix
  split
  · rename_i h
    rw [Option.getD_none]
    by_cases hcomplete : complete = []
    · subst hcomplete
      exact ⟨fun _ n hn => absurd hn (Nat.not_lt_zero n), fun _ => rfl⟩
    · have hsuffix : complete <:+ current := by
        rcases h with h | rfl | h
        · exact absurd h hcomplete
        · exact List.suffix_rfl
        · exact List.isSuffixOf_iff_suffix.1 h
      refine ⟨fun h => absurd h.symm hcomplete, fun hunlapped => ?_⟩
      have hpos := List.length_pos_of_ne_nil hcomplete
      refine absurd ?_ (hunlapped (complete.length - 1) (by omega))
      rwa [Nat.sub_add_cancel hpos, List.take_length]
  · split
    · rename_i hprefix
      obtain ⟨rest, rfl⟩ := List.isPrefixOf_iff_prefix.1 hprefix
      rw [nonempty_getD, hdrop (by simp)]
      constructor
      · intro hnil n hn hsuffix
        rw [List.length_eq_zero_iff.1 hnil, List.nil_append] at hsuffix
        rw [List.length_eq_zero_iff.1 hnil, List.nil_append] at hn
        rw [List.take_eq_nil_iff.1 (List.suffix_nil.1 hsuffix) |>.resolve_left (Nat.succ_ne_zero n)] at hn
        exact Nat.not_lt_zero _ hn
      · intro hunlapped
        by_contra hpos
        have hlt : current.length - 1 < (current ++ rest).length := by
          rw [List.length_append]
          omega
        refine hunlapped (current.length - 1) hlt ?_
        rw [Nat.sub_add_cancel (Nat.pos_of_ne_zero hpos), List.take_left]
    · rw [nonempty_getD, hdrop (overlap_le current complete)]
      constructor
      · exact fun hzero n hn hsuffix => overlap_pos hn hsuffix hzero
      · intro hunlapped
        by_contra hpos
        have hle := overlap_le current complete
        refine hunlapped (overlap current complete - 1) (by omega) ?_
        rw [Nat.sub_add_cancel (Nat.pos_of_ne_zero hpos)]
        exact overlap_suffix current complete

/-- Two snapshots, one after the other. -/
theorem joinText_joinText {more : List Char} : joinText (joinText current complete) more = current ++ (complete ++ more) ↔
    Unlapped current complete ∧ Unlapped (current ++ complete) more := by
  rw [← joinText_eq_append, ← joinText_eq_append]
  constructor
  · intro h
    have hfirst : joinText current complete = current ++ complete := by
      have hle := joinText_length current complete
      have hle' := joinText_length (joinText current complete) more
      have hlen := congrArg List.length h
      have hprefix : joinText current complete <+: current ++ complete := by
        have hshort : joinText current complete <+: current ++ complete ++ more := by
          rw [List.append_assoc, ← h]
          exact List.prefix_append _ _
        exact List.prefix_of_prefix_length_le hshort (List.prefix_append _ _) (by rwa [List.length_append])
      refine hprefix.eq_of_length ?_
      rw [List.length_append, List.length_append] at hlen
      rw [List.length_append]
      omega
    exact ⟨hfirst, by rw [← hfirst, h, hfirst, List.append_assoc]⟩
  · rintro ⟨hfirst, hlast⟩
    rw [hfirst, hlast, List.append_assoc]

theorem strict_self (current : List Char) : strictCompleteTextSuffix current current = .ok none := if_pos (.inr rfl)

theorem strict_append (current suffix : List Char) :
    strictCompleteTextSuffix current (current ++ suffix) = .ok (nonempty suffix) := by
  unfold strictCompleteTextSuffix
  split
  · rename_i h
    have hsuffix : suffix = [] := by
      rcases h with h | h
      · exact (List.append_eq_nil_iff.1 h).2
      · exact (List.self_eq_append_right.1 h)
    rw [hsuffix]
    rfl
  · rw [if_pos (List.isPrefixOf_iff_prefix.2 (List.prefix_append _ _)), List.drop_left]

/-- A text is completed exactly when it begins the snapshot, and becomes the snapshot; an empty snapshot
completes every text. -/
theorem strict_ok {r : Option (List Char)} (h : strictCompleteTextSuffix current complete = .ok r) :
    complete = [] ∧ r = none ∨ complete = current ++ r.getD [] := by
  unfold strictCompleteTextSuffix at h
  split at h
  · cases h
    rename_i h
    exact h.imp (fun h => ⟨h, rfl⟩) fun h => by simp [h]
  · split at h
    · cases h
      rename_i h
      obtain ⟨rest, rfl⟩ := List.isPrefixOf_iff_prefix.1 h
      exact .inr (by simp)
    · cases h

end Suffixes

/-! ## The reconciler -/

structure TextDeltaReconciler where
  emitted : List Char
  cumulativeDetected : Bool
  deriving DecidableEq

namespace TextDeltaReconciler

def default : TextDeltaReconciler := ⟨[], false⟩

/-- The delta begins with all of the text so far. -/
def looksCumulative (r : TextDeltaReconciler) (incoming : List Char) : Bool :=
  r.emitted ≠ [] ∧ r.emitted.isPrefixOf incoming

/-- The text with a delta, and what of the delta is handed on. -/
def pushCompatible (r : TextDeltaReconciler) (incoming : List Char) (explicitSnapshot allowCumulativeDetection : Bool) :
    TextDeltaReconciler × Option (List Char) :=
  if incoming = [] then (r, none)
  else if explicitSnapshot ∨ r.cumulativeDetected ∨ (allowCumulativeDetection ∧ r.looksCumulative incoming) then
    match missingCompleteTextSuffix r.emitted incoming with
    | none => (⟨r.emitted, true⟩, none)
    | some suffix => (⟨r.emitted ++ suffix, true⟩, some suffix)
  else (⟨r.emitted ++ incoming, r.cumulativeDetected⟩, some incoming)

/-- The text is completed by a snapshot that it begins. -/
def complete (r : TextDeltaReconciler) (text : List Char) : Except String (TextDeltaReconciler × Option (List Char)) :=
  match strictCompleteTextSuffix r.emitted text with
  | .error message => .error message
  | .ok none => .ok (r, none)
  | .ok (some suffix) => .ok (⟨r.emitted ++ suffix, true⟩, some suffix)

section
variable (r : TextDeltaReconciler) {incoming : List Char} {snapshot allow : Bool}

/-- **The text grows by what is handed on.** -/
theorem pushCompatible_emitted (incoming : List Char) (snapshot allow : Bool) :
    (r.pushCompatible incoming snapshot allow).1.emitted =
      r.emitted ++ ((r.pushCompatible incoming snapshot allow).2).getD [] := by
  unfold pushCompatible
  split
  · simp
  split
  · split <;> simp
  · simp

/-- Without detection a delta is added as it is. -/
theorem pushCompatible_incremental (hr : r.cumulativeDetected = false)
    (h : (allow && r.looksCumulative incoming) = false) :
    r.pushCompatible incoming false allow = (⟨r.emitted ++ incoming, false⟩, nonempty incoming) := by
  unfold pushCompatible nonempty
  split
  · rename_i hincoming
    rw [hincoming, List.append_nil, ← hr]
  · rw [if_neg (by simpa [hr] using h), hr]

/-- Once a snapshot is there, what is missing is added. -/
theorem pushCompatible_snapshot (hr : snapshot = true ∨ r.cumulativeDetected = true) (hne : incoming ≠ []) :
    r.pushCompatible incoming snapshot allow =
      (⟨r.emitted ++ (missingCompleteTextSuffix r.emitted incoming).getD [], true⟩,
        missingCompleteTextSuffix r.emitted incoming) := by
  unfold pushCompatible
  rw [if_neg hne, if_pos (by rcases hr with hr | hr <;> simp [hr])]
  split <;> simp [*]

end

/-- A text that a snapshot has come to, or nothing. -/
def Snapshotted (r : TextDeltaReconciler) : Prop := r.cumulativeDetected = true ∨ r.emitted = []

theorem snapshotted_default : Snapshotted .default := .inr rfl

@[simp] theorem pushCompatible_nil (r : TextDeltaReconciler) (snapshot allow : Bool) :
    r.pushCompatible [] snapshot allow = (r, none) := if_pos rfl

/-- What comes then is joined. -/
theorem Snapshotted.emitted {r : TextDeltaReconciler} (hr : Snapshotted r) (incoming : List Char) (snapshot : Bool) :
    (r.pushCompatible incoming snapshot false).1.emitted = joinText r.emitted incoming := by
  by_cases hne : incoming = []
  · rw [hne, pushCompatible_nil, joinText_nil_right]
  rcases hr with hr | hr
  · rw [r.pushCompatible_snapshot (.inr hr) hne]
    rfl
  · cases hdetected : r.cumulativeDetected || snapshot with
    | true =>
      rw [r.pushCompatible_snapshot (by simpa [or_comm] using hdetected) hne]
      rfl
    | false =>
      obtain ⟨hfalse, rfl⟩ := Bool.or_eq_false_iff.1 hdetected
      rw [r.pushCompatible_incremental hfalse (Bool.false_and _), hr, joinText_nil_left]
      rfl

theorem Snapshotted.snapshot {r : TextDeltaReconciler} (hr : Snapshotted r) (incoming : List Char) (allow : Bool) :
    Snapshotted (r.pushCompatible incoming true allow).1 := by
  by_cases hne : incoming = []
  · rwa [hne, pushCompatible_nil]
  · rw [r.pushCompatible_snapshot (.inl rfl) hne]
    exact .inl rfl

/-! ### Many deltas -/

/-- No delta begins with all of the text before it. -/
def unrepeated : List Char → List (List Char) → Bool
  | _, [] => true
  | before, delta :: deltas => ¬ (before ≠ [] ∧ before.isPrefixOf delta) && unrepeated (before ++ delta) deltas

/-- The text after some deltas. -/
def pushAll (allow : Bool) (r : TextDeltaReconciler) (deltas : List (List Char)) : TextDeltaReconciler :=
  deltas.foldl (fun r delta => (r.pushCompatible delta false allow).1) r

@[simp] theorem pushAll_cons (allow : Bool) (r : TextDeltaReconciler) (delta : List Char) (deltas : List (List Char)) :
    pushAll allow r (delta :: deltas) = pushAll allow (r.pushCompatible delta false allow).1 deltas := rfl

/-- No more is handed on than has come. -/
theorem pushCompatible_length (r : TextDeltaReconciler) (delta : List Char) (snapshot allow : Bool) :
    (r.pushCompatible delta snapshot allow).1.emitted.length ≤ r.emitted.length + delta.length := by
  rw [pushCompatible_emitted, List.length_append]
  unfold pushCompatible
  split
  · simp
  split
  · split
    · simp
    · rename_i suffix hsuffix
      simpa using (missing_suffix hsuffix).1.length_le
  · simp

theorem pushAll_length (allow : Bool) (r : TextDeltaReconciler) (deltas : List (List Char)) :
    (pushAll allow r deltas).emitted.length ≤ r.emitted.length + deltas.flatten.length := by
  induction deltas generalizing r with
  | nil => exact le_rfl
  | cons delta deltas ih =>
    have hstep := pushCompatible_length r delta false allow
    have hrest := ih (r.pushCompatible delta false allow).1
    rw [List.flatten_cons, List.length_append]
    rw [pushAll_cons]
    omega

/-- A delta that begins with all of the text before it adds less than it has. -/
theorem pushCompatible_repeated {r : TextDeltaReconciler} {delta : List Char} (hne : r.emitted ≠ [])
    (h : r.emitted <+: delta) : (r.pushCompatible delta false true).1.emitted = delta := by
  obtain ⟨suffix, rfl⟩ := h
  rw [pushCompatible_emitted]
  unfold pushCompatible
  have hlooks : r.looksCumulative (r.emitted ++ suffix) = true := by
    simp [looksCumulative, hne]
  rw [if_neg (by simp [hne]), if_pos (by simp [hlooks]), missing_append]
  by_cases hsuffix : suffix = []
  · simp [hsuffix, nonempty]
  · simp [hsuffix, nonempty]

/-- **The text is all that has come exactly when no delta is taken as a snapshot.** -/
theorem pushAll_emitted_iff {allow : Bool} {r : TextDeltaReconciler} (hr : r.cumulativeDetected = false)
    (deltas : List (List Char)) : (pushAll allow r deltas).emitted = r.emitted ++ deltas.flatten ↔
      (allow = true → unrepeated r.emitted deltas = true) := by
  induction deltas generalizing r with
  | nil => simp [pushAll, unrepeated]
  | cons delta deltas ih =>
    by_cases hrepeat : allow = true ∧ r.emitted ≠ [] ∧ r.emitted <+: delta
    · obtain ⟨rfl, hne, hprefix⟩ := hrepeat
      have hlen := pushAll_length true (r.pushCompatible delta false true).1 deltas
      rw [pushCompatible_repeated hne hprefix] at hlen
      constructor
      · intro heq
        have hlong := congrArg List.length heq
        have hpos := List.length_pos_of_ne_nil hne
        rw [pushAll_cons, List.flatten_cons, List.length_append, List.length_append] at hlong
        omega
      · intro h
        exact absurd (h rfl) (by simp [unrepeated, hne, List.isPrefixOf_iff_prefix.2 hprefix])
    · have hlooks : (allow && r.looksCumulative delta) = false := by
        cases allow with
        | false => rfl
        | true => simpa [looksCumulative] using hrepeat
      have hstep := r.pushCompatible_incremental hr hlooks
      have hrest := @ih ⟨r.emitted ++ delta, false⟩ rfl
      rw [pushAll_cons, hstep, List.flatten_cons, ← List.append_assoc, hrest, unrepeated]
      refine forall_congr' fun hallow => ?_
      have hhead : ¬ (r.emitted ≠ [] ∧ r.emitted.isPrefixOf delta = true) := by
        rw [List.isPrefixOf_iff_prefix]
        exact fun h => hrepeat ⟨hallow, h⟩
      rw [decide_eq_true hhead, Bool.true_and]

end TextDeltaReconciler

example : missingCompleteTextSuffix "partial text".toList "text and more".toList = some " and more".toList := by
  decide

end Aifluxon
