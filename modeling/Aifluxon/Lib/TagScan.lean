import Mathlib.Data.List.Infix
import Aifluxon.Lib.Incremental

/-!
# Scanning for delimiters in pieces

A scanner reads tokens in a mode. Each mode has delimiters, each with the mode after it; the tokens
between two delimiters are handed on with the mode they stand in. Tokens at the end of a piece that may
begin a delimiter are held back. Tokens are compared with delimiters after `norm`.

* `findTag`, `splitKeep` : the first delimiter, and the longest end that may begin one;
* `Scanner.scan`, `Scanner.push` : the segments of a piece, the mode after it and what is held back;
* `labels`, `inMode` : the tokens of segments, each with its mode, and those of one mode;
* `Scanner.Separated` : delimiters begin with a token that is nowhere else in them, and none begins another;
* `Scanner.push_splits` : for such delimiters the cuts of the input do not matter;
* `Scanner.labelled` : the tokens of a whole text, each with its mode, and how they follow from its head.
-/

namespace TagScan

variable {α σ : Type*} [DecidableEq α]

/-! ## Delimiters in a text -/

section Find
variable (norm : α → α) (tags : List (List α × σ))

/-- The delimiter at the head of a text. -/
def tagAt (text : List α) : Option (List α × σ) := tags.find? fun tag => tag.1.isPrefixOf (text.map norm)

/-- The text before the first delimiter, the mode after it, and the text after it. -/
def findTag : List α → Option (List α × σ × List α)
  | [] => none
  | a :: text => match tagAt norm tags (a :: text) with
    | some tag => some ([], tag.2, (a :: text).drop tag.1.length)
    | none => (findTag text).map fun r => (a :: r.1, r.2)

/-- The text may be the beginning of a delimiter. -/
def mayBegin (text : List α) : Bool := tags.any fun tag => (text.map norm).isPrefixOf tag.1

/-- A text without the longest end that may begin a delimiter, and this end. -/
def splitKeep : List α → List α × List α
  | [] => ([], [])
  | a :: text =>
    if mayBegin norm tags (a :: text) then ([], a :: text)
    else (a :: (splitKeep text).1, (splitKeep text).2)

end Find

/-! ## Scanners -/

structure Scanner (α σ : Type*) where
  norm : α → α
  tags : σ → List (List α × σ)

/-- A mode and the text that is held back in it. -/
structure Scanning (α σ : Type*) where
  mode : σ
  pending : List α

/-- The tokens of segments, each with its mode. -/
def labels (segments : List (σ × List α)) : List (σ × α) := segments.flatMap fun s => s.2.map fun a => (s.1, a)

/-- The tokens that stand in a mode. -/
def inMode [DecidableEq σ] (mode : σ) (xs : List (σ × α)) : List α := (xs.filter fun x => x.1 = mode).map Prod.snd

namespace Scanner

variable (S : Scanner α σ)

/-- At most `n` delimiters of a text, and what comes after them. -/
def scan : Nat → σ → List α → Scanning α σ × List (σ × List α)
  | 0, mode, text => (⟨mode, text⟩, [])
  | n + 1, mode, text => match findTag S.norm (S.tags mode) text with
    | some (before, mode', rest) =>
      let r := scan n mode' rest
      (r.1, (mode, before) :: r.2)
    | none =>
      let r := splitKeep S.norm (S.tags mode) text
      (⟨mode, r.2⟩, [(mode, r.1)])

/-- Every delimiter has a token. -/
def segments (mode : σ) (text : List α) : Scanning α σ × List (σ × List α) := S.scan (text.length + 1) mode text

def push (s : Scanning α σ) (text : List α) : Scanning α σ × List (σ × List α) :=
  S.segments s.mode (s.pending ++ text)

/-- The delimiters of every mode begin with `mark`, have it nowhere else, and none begins another. -/
structure Separated (mark : α) : Prop where
  head : ∀ mode, ∀ tag ∈ S.tags mode, ∃ rest, tag.1 = mark :: rest ∧ mark ∉ rest
  prefixFree : ∀ mode, ∀ tag ∈ S.tags mode, ∀ tag' ∈ S.tags mode, tag.1 <+: tag'.1 → tag = tag'

end Scanner

section Modes
variable {α σ : Type*} [DecidableEq σ]

@[simp] theorem inMode_nil : inMode mode ([] : List (σ × α)) = [] := rfl

@[simp] theorem inMode_cons (mode : σ) (x : σ × α) (xs : List (σ × α)) :
    inMode mode (x :: xs) = (if x.1 = mode then [x.2] else []) ++ inMode mode xs := by
  by_cases h : x.1 = mode <;> simp [inMode, h]

@[simp] theorem inMode_append (mode : σ) (xs ys : List (σ × α)) :
    inMode mode (xs ++ ys) = inMode mode xs ++ inMode mode ys := by
  simp [inMode]

/-- Tokens of one mode. -/
@[simp] theorem inMode_map (mode mode' : σ) (text : List α) :
    inMode mode (text.map fun a => (mode', a)) = if mode' = mode then text else [] := by
  induction text with
  | nil => simp
  | cons a text ih =>
    rw [List.map_cons, inMode_cons, ih]
    split <;> rfl

end Modes

/-! ## Cuts -/

section Find
variable {norm : α → α} {tags : List (List α × σ)} {text more : List α}

theorem tagAt_eq_none : tagAt norm tags text = none ↔ ∀ tag ∈ tags, ¬ tag.1 <+: text.map norm := by
  simp [tagAt, List.find?_eq_none]

theorem tagAt_some {tag : List α × σ} (h : tagAt norm tags text = some tag) : tag ∈ tags ∧ tag.1 <+: text.map norm :=
  ⟨List.mem_of_find?_eq_some h, by simpa using List.find?_some h⟩

theorem mayBegin_iff : mayBegin norm tags text = true ↔ ∃ tag ∈ tags, text.map norm <+: tag.1 := by
  simp [mayBegin]

/-- A delimiter at the head of a longer text is there already, or the text may begin it. -/
theorem tagAt_append_none (h : tagAt norm tags text = none) (hkeep : mayBegin norm tags text = false) :
    tagAt norm tags (text ++ more) = none := by
  rw [tagAt_eq_none] at h ⊢
  intro tag htag hstarts
  rw [List.map_append] at hstarts
  rcases le_total tag.1.length (text.map norm).length with hle | hle
  · exact h tag htag (List.prefix_of_prefix_length_le hstarts (List.prefix_append _ _) hle)
  · have hbegin : mayBegin norm tags text = true :=
      mayBegin_iff.2 ⟨tag, htag, List.prefix_of_prefix_length_le (List.prefix_append _ _) hstarts hle⟩
    rw [hkeep] at hbegin
    cases hbegin

/-- A text without delimiters is what is held back of it and what is not. -/
theorem splitKeep_append (text : List α) : (splitKeep norm tags text).1 ++ (splitKeep norm tags text).2 = text := by
  induction text with
  | nil => rfl
  | cons a text ih =>
    rw [splitKeep]
    split
    · rfl
    · rw [List.cons_append, ih]

/-- What is held back is all that may be part of a delimiter in a longer text. -/
theorem findTag_keep (h : findTag norm tags text = none) :
    findTag norm tags (text ++ more) = (findTag norm tags ((splitKeep norm tags text).2 ++ more)).map
      fun r => ((splitKeep norm tags text).1 ++ r.1, r.2) := by
  induction text with
  | nil => simp [splitKeep]
  | cons a text ih =>
    rw [findTag] at h
    split at h
    · cases h
    rename_i hhead
    rw [splitKeep]
    split
    · simp
    · rename_i hkeep
      have hnone : tagAt norm tags (a :: (text ++ more)) = none :=
        tagAt_append_none hhead (Bool.eq_false_iff.2 hkeep)
      rw [List.cons_append, findTag, hnone]
      simp only [ih (Option.map_eq_none_iff.1 h), Option.map_map]
      rfl

theorem splitKeep_keep (h : findTag norm tags text = none) :
    splitKeep norm tags (text ++ more) =
      ((splitKeep norm tags text).1 ++ (splitKeep norm tags ((splitKeep norm tags text).2 ++ more)).1,
        (splitKeep norm tags ((splitKeep norm tags text).2 ++ more)).2) := by
  induction text with
  | nil => simp [splitKeep]
  | cons a text ih =>
    rw [findTag] at h
    split at h
    · cases h
    rename_i hhead
    by_cases hkeep : mayBegin norm tags (a :: text) = true
    · rw [splitKeep, if_pos hkeep]
      rfl
    · have hmore : ¬ mayBegin norm tags (a :: (text ++ more)) = true := by
        intro hmore
        obtain ⟨tag, htag, hstarts⟩ := mayBegin_iff.1 hmore
        rw [← List.cons_append, List.map_append] at hstarts
        exact hkeep (mayBegin_iff.2 ⟨tag, htag, (List.prefix_append _ _).trans hstarts⟩)
      rw [List.cons_append, splitKeep, if_neg hmore, splitKeep, if_neg hkeep,
        ih (Option.map_eq_none_iff.1 h), List.cons_append]

end Find

namespace Scanner

variable {S : Scanner α σ} {mark : α} {mode mode' : σ} {text before rest more : List α}

/-- A delimiter in a text has the mark. -/
theorem Separated.mark_mem (hS : S.Separated mark) (h : findTag S.norm (S.tags mode) text = some (before, mode', rest)) :
    mark ∈ text.map S.norm := by
  induction text generalizing before with
  | nil => cases h
  | cons a text ih =>
    rw [findTag] at h
    split at h
    · rename_i tag htag
      obtain ⟨hmem, hstarts⟩ := tagAt_some htag
      obtain ⟨tail, heq, -⟩ := hS.head mode tag hmem
      exact hstarts.subset (heq ▸ List.mem_cons_self ..)
    · obtain ⟨⟨before', _, _⟩, hr, heq⟩ := Option.map_eq_some_iff.1 h
      cases heq
      exact List.mem_cons_of_mem _ (ih hr)

/-- The delimiter at the head of a text is the one at the head of a longer text. -/
theorem Separated.tagAt_append (hS : S.Separated mark) {tag : List α × σ}
    (h : tagAt S.norm (S.tags mode) text = some tag) : tagAt S.norm (S.tags mode) (text ++ more) = some tag := by
  obtain ⟨hmem, hstarts⟩ := tagAt_some h
  have hstarts' : tag.1 <+: (text ++ more).map S.norm := by
    rw [List.map_append]
    exact hstarts.trans (List.prefix_append _ _)
  cases hfound : tagAt S.norm (S.tags mode) (text ++ more) with
  | none => exact absurd hstarts' (tagAt_eq_none.1 hfound tag hmem)
  | some tag' =>
    obtain ⟨hmem', hstarts''⟩ := tagAt_some hfound
    rcases List.prefix_or_prefix_of_prefix hstarts' hstarts'' with hle | hle
    · rw [hS.prefixFree mode tag hmem tag' hmem' hle]
    · rw [hS.prefixFree mode tag' hmem' tag hmem hle]

/-- The first delimiter of a text is the first one of a longer text. -/
theorem Separated.findTag_append (hS : S.Separated mark)
    (h : findTag S.norm (S.tags mode) text = some (before, mode', rest)) :
    findTag S.norm (S.tags mode) (text ++ more) = some (before, mode', rest ++ more) := by
  induction text generalizing before with
  | nil => cases h
  | cons a text ih =>
    rw [findTag] at h
    split at h
    · rename_i tag htag
      cases h
      have hle : tag.1.length ≤ (a :: text).length := by
        simpa using (tagAt_some htag).2.length_le
      have hlong : tagAt S.norm (S.tags mode) (a :: (text ++ more)) = some tag := hS.tagAt_append htag
      rw [List.cons_append, findTag, hlong]
      simp only [← List.cons_append, List.drop_append_of_le_length hle]
    · rename_i hhead
      obtain ⟨⟨before', _, _⟩, hr, heq⟩ := Option.map_eq_some_iff.1 h
      cases heq
      have hkeep : mayBegin S.norm (S.tags mode) (a :: text) = false := by
        rw [Bool.eq_false_iff]
        intro hbegin
        obtain ⟨tag, htag, hstarts⟩ := mayBegin_iff.1 hbegin
        obtain ⟨tail, heq, hmark⟩ := hS.head mode tag htag
        rw [heq, List.map_cons, List.cons_prefix_cons] at hstarts
        exact hmark (hstarts.2.subset (hS.mark_mem hr))
      have hnone : tagAt S.norm (S.tags mode) (a :: (text ++ more)) = none := tagAt_append_none hhead hkeep
      rw [List.cons_append, findTag, hnone]
      simp only [ih hr, Option.map_some]

/-- A delimiter takes tokens from the text. -/
theorem Separated.rest_lt (hS : S.Separated mark)
    (h : findTag S.norm (S.tags mode) text = some (before, mode', rest)) : rest.length < text.length := by
  induction text generalizing before with
  | nil => cases h
  | cons a text ih =>
    rw [findTag] at h
    split at h
    · rename_i tag htag
      cases h
      obtain ⟨tail, heq, -⟩ := hS.head mode tag (tagAt_some htag).1
      rw [heq, List.length_cons, List.drop_succ_cons, List.length_cons]
      rw [List.length_drop]
      omega
    · obtain ⟨⟨before', _, _⟩, hr, heq⟩ := Option.map_eq_some_iff.1 h
      cases heq
      exact (ih hr).trans (Nat.lt_succ_self _)

theorem Separated.scan_fuel (hS : S.Separated mark) : ∀ (m n : Nat) (mode : σ) (text : List α),
    text.length < m → text.length < n → S.scan n mode text = S.scan m mode text := by
  intro m
  induction m with
  | zero =>
    intro n mode text hm
    exact absurd hm (Nat.not_lt_zero _)
  | succ m ih =>
    intro n mode text hm hn
    obtain ⟨n, rfl⟩ : ∃ k, n = k + 1 := Nat.exists_eq_succ_of_ne_zero (by omega)
    simp only [scan]
    cases hfind : findTag S.norm (S.tags mode) text with
    | none => rfl
    | some r =>
      obtain ⟨before, mode', rest⟩ := r
      have hlt := hS.rest_lt hfind
      simp only [ih n mode' rest (by omega) (by omega)]

theorem Separated.segments_some (hS : S.Separated mark)
    (h : findTag S.norm (S.tags mode) text = some (before, mode', rest)) :
    S.segments mode text = ((S.segments mode' rest).1, (mode, before) :: (S.segments mode' rest).2) := by
  have hlt := hS.rest_lt h
  rw [segments, scan, h]
  simp only [segments, hS.scan_fuel (rest.length + 1) text.length mode' rest (by omega) hlt]

theorem segments_none (h : findTag S.norm (S.tags mode) text = none) :
    S.segments mode text = (⟨mode, (splitKeep S.norm (S.tags mode) text).2⟩,
      [(mode, (splitKeep S.norm (S.tags mode) text).1)]) := by
  rw [segments, scan, h]

theorem splitKeep_mayBegin {norm : α → α} {tags : List (List α × σ)} (h : (splitKeep norm tags text).2 ≠ []) :
    mayBegin norm tags (splitKeep norm tags text).2 = true := by
  induction text with
  | nil => exact absurd rfl h
  | cons a text ih =>
    rw [splitKeep] at h ⊢
    split
    · assumption
    · rename_i hkeep
      rw [if_neg hkeep] at h
      exact ih h

/-- What is held back may begin a delimiter. -/
theorem Separated.pending_mayBegin (hS : S.Separated mark) (mode : σ) (text : List α)
    (h : (S.segments mode text).1.pending ≠ []) :
    mayBegin S.norm (S.tags (S.segments mode text).1.mode) (S.segments mode text).1.pending = true := by
  induction hn : text.length using Nat.strongRecOn generalizing mode text with
  | _ n ih =>
    cases hfind : findTag S.norm (S.tags mode) text with
    | some r =>
      obtain ⟨before, mode', rest⟩ := r
      rw [hS.segments_some hfind] at h ⊢
      exact ih _ (hn ▸ hS.rest_lt hfind) mode' rest h rfl
    | none =>
      rw [segments_none hfind] at h ⊢
      exact splitKeep_mayBegin h

/-- It has the mark. -/
theorem Separated.pending_mark (hS : S.Separated mark) (mode : σ) (text : List α)
    (h : (S.segments mode text).1.pending ≠ []) : mark ∈ (S.segments mode text).1.pending.map S.norm := by
  obtain ⟨tag, htag, hstarts⟩ := mayBegin_iff.1 (hS.pending_mayBegin mode text h)
  obtain ⟨rest, heq, -⟩ := hS.head _ tag htag
  obtain ⟨a, pending, hpending⟩ := List.exists_cons_of_ne_nil h
  rw [hpending] at hstarts ⊢
  rw [heq, List.map_cons, List.cons_prefix_cons] at hstarts
  rw [List.map_cons, hstarts.1]
  exact List.mem_cons_self ..

/-- The labelled tokens of a piece. -/
def pushLabels (S : Scanner α σ) (s : Scanning α σ) (text : List α) : Scanning α σ × List (σ × α) :=
  ((S.push s text).1, labels (S.push s text).2)

/-- **The cuts of the input do not matter.** -/
theorem Separated.push_splits (hS : S.Separated mark) : Incremental.Splits S.pushLabels := by
  suffices h : ∀ mode xs ys, ((S.segments mode (xs ++ ys)).1, labels (S.segments mode (xs ++ ys)).2) =
      ((S.push (S.segments mode xs).1 ys).1,
        labels (S.segments mode xs).2 ++ labels (S.push (S.segments mode xs).1 ys).2) by
    rintro ⟨mode, pending⟩ xs ys
    simp only [pushLabels, push, ← List.append_assoc]
    exact h mode (pending ++ xs) ys
  intro mode xs ys
  induction hn : xs.length using Nat.strongRecOn generalizing mode xs with
  | _ n ih =>
    cases hfind : findTag S.norm (S.tags mode) xs with
    | some r =>
      obtain ⟨before, mode', rest⟩ := r
      have hrest := ih _ (hn ▸ hS.rest_lt hfind) mode' rest rfl
      rw [Prod.mk.injEq] at hrest
      rw [hS.segments_some hfind, hS.segments_some (hS.findTag_append hfind)]
      simp only [labels, List.flatMap_cons, List.append_assoc] at hrest ⊢
      rw [hrest.1, hrest.2]
    | none =>
      have hlong : findTag S.norm (S.tags mode) (xs ++ ys) = _ := findTag_keep hfind
      rw [segments_none hfind, push]
      simp only
      cases hmore : findTag S.norm (S.tags mode) ((splitKeep S.norm (S.tags mode) xs).2 ++ ys) with
      | none =>
        rw [hmore] at hlong
        rw [segments_none hmore, segments_none hlong, splitKeep_keep hfind]
        simp [labels]
      | some r =>
        obtain ⟨before, mode', rest⟩ := r
        rw [hmore] at hlong
        rw [hS.segments_some hmore, hS.segments_some hlong]
        simp [labels]

/-! ## The whole of a text -/

/-- The tokens of a text, each with the mode it stands in. What is held back at the end stands in the last mode. -/
def labelled (S : Scanner α σ) (mode : σ) (text : List α) : List (σ × α) :=
  labels (S.segments mode text).2 ++
    (S.segments mode text).1.pending.map fun a => ((S.segments mode text).1.mode, a)

/-- A text without delimiters stands in one mode. -/
theorem labelled_none (h : findTag S.norm (S.tags mode) text = none) :
    S.labelled mode text = text.map fun a => (mode, a) := by
  have hsplit : (splitKeep S.norm (S.tags mode) text).1 ++ (splitKeep S.norm (S.tags mode) text).2 = text :=
    splitKeep_append text
  rw [labelled, segments_none h]
  simp only [labels, List.flatMap_cons, List.flatMap_nil, List.append_nil]
  rw [← List.map_append, hsplit]

theorem Separated.labelled_some (hS : S.Separated mark)
    (h : findTag S.norm (S.tags mode) text = some (before, mode', rest)) :
    S.labelled mode text = (before.map fun a => (mode, a)) ++ S.labelled mode' rest := by
  rw [labelled, hS.segments_some h, labelled]
  simp only [labels, List.flatMap_cons, List.append_assoc]

@[simp] theorem labelled_nil (S : Scanner α σ) (mode : σ) : S.labelled mode [] = [] := labelled_none rfl

/-- A delimiter at the head of a text is left out. -/
theorem Separated.labelled_tag (hS : S.Separated mark) {tag : List α × σ}
    (h : tagAt S.norm (S.tags mode) text = some tag) :
    S.labelled mode text = S.labelled tag.2 (text.drop tag.1.length) := by
  cases text with
  | nil =>
    obtain ⟨tail, heq, -⟩ := hS.head mode tag (tagAt_some h).1
    have hstarts := (tagAt_some h).2
    rw [heq] at hstarts
    exact absurd (List.prefix_nil.1 hstarts) (List.cons_ne_nil _ _)
  | cons a text =>
    have hfind : findTag S.norm (S.tags mode) (a :: text) = some ([], tag.2, (a :: text).drop tag.1.length) := by
      rw [findTag, h]
    rw [hS.labelled_some hfind, List.map_nil, List.nil_append]

/-- A token that begins no delimiter stands in the mode. -/
theorem Separated.labelled_cons (hS : S.Separated mark) {a : α}
    (h : tagAt S.norm (S.tags mode) (a :: text) = none) :
    S.labelled mode (a :: text) = (mode, a) :: S.labelled mode text := by
  have hfind : findTag S.norm (S.tags mode) (a :: text) =
      (findTag S.norm (S.tags mode) text).map fun r => (a :: r.1, r.2) := by
    rw [findTag, h]
  cases hrest : findTag S.norm (S.tags mode) text with
  | none =>
    rw [hrest] at hfind
    rw [labelled_none hfind, labelled_none hrest, List.map_cons]
  | some r =>
    obtain ⟨before, mode', rest⟩ := r
    rw [hrest] at hfind
    rw [hS.labelled_some hfind, hS.labelled_some hrest, List.map_cons, List.cons_append]

/-- Tokens without the mark stand in the mode. -/
theorem Separated.labelled_unmarked (hS : S.Separated mark) (h : mark ∉ before.map S.norm) :
    S.labelled mode (before ++ text) = (before.map fun a => (mode, a)) ++ S.labelled mode text := by
  induction before with
  | nil => rfl
  | cons a before ih =>
    rw [List.map_cons, List.mem_cons, not_or] at h
    have hnone : tagAt S.norm (S.tags mode) (a :: (before ++ text)) = none := by
      rw [tagAt_eq_none]
      intro tag htag hstarts
      obtain ⟨tail, heq, -⟩ := hS.head mode tag htag
      rw [heq, List.map_cons, List.cons_prefix_cons] at hstarts
      exact h.1 hstarts.1
    rw [List.cons_append, hS.labelled_cons hnone, ih h.2, List.map_cons, List.cons_append]

/-- No delimiter begins in the first `n` tokens of a text. -/
def ClearTo (S : Scanner α σ) (mode : σ) (n : Nat) (text : List α) : Prop :=
  ∀ r, findTag S.norm (S.tags mode) text = some r → n ≤ r.1.length

instance (S : Scanner α σ) (mode : σ) (n : Nat) (text : List α) : Decidable (S.ClearTo mode n text) :=
  match h : findTag S.norm (S.tags mode) text with
  | none => .isTrue fun r hr => by rw [h] at hr; cases hr
  | some r => decidable_of_iff (n ≤ r.1.length)
    ⟨fun hn r' hr' => by rw [h] at hr'; cases hr'; exact hn, fun hc => hc r h⟩

/-- A text up to its first delimiter stands in the mode. -/
theorem Separated.labelled_clear (hS : S.Separated mark) (h : S.ClearTo mode before.length (before ++ text)) :
    S.labelled mode (before ++ text) = (before.map fun a => (mode, a)) ++ S.labelled mode text := by
  induction before with
  | nil => rfl
  | cons a before ih =>
    cases hhead : tagAt S.norm (S.tags mode) (a :: (before ++ text)) with
    | some tag =>
      have hfind : findTag S.norm (S.tags mode) (a :: (before ++ text)) =
          some ([], tag.2, (a :: (before ++ text)).drop tag.1.length) := by
        rw [findTag, hhead]
      exact absurd (h _ hfind) (Nat.not_succ_le_zero _)
    | none =>
      have hclear : S.ClearTo mode before.length (before ++ text) := by
        intro r hr
        have hfind : findTag S.norm (S.tags mode) (a :: (before ++ text)) = some (a :: r.1, r.2) := by
          rw [findTag, hhead, hr]
          rfl
        exact Nat.le_of_succ_le_succ (h _ hfind)
      rw [List.cons_append, hS.labelled_cons hhead, ih hclear, List.map_cons, List.cons_append]

end Scanner

end TagScan
