import Aifluxon.Lib.TagScan

/-!
# What a scanner reads

* `Merge` : a list that two lists make up, each in its order;
* `Scanner.Reads` : a text, delimiter by delimiter and token by token, and the tokens that are kept;
* `Scanner.Separated.reads_iff` : a text is read in one way, and `labelled` is what is kept of it;
* `Scanner.pushAll_labels`, `Scanner.labelledFrom` : a text in pieces, and what is held back of the last one;
* `Scanner.segments_suffix` : what is held back is the end of the text;
* `Scanner.Separated.held_mode`, `Scanner.Separated.handed_on` : for delimiters that end with a token of their own, what
  is held back stays in its mode, and what is handed on can begin no delimiter;
* `Scanner.decorate` : a scanner that reads tokens with a note on each, and does not look at the notes;
* `Scanner.Separated.pending_place`, `Scanner.Separated.handed_on_place` : what is held back, by its place in the text.
-/

namespace TagScan

/-! ## Merges -/

/-- Two lists make up a third one, each in its order. -/
inductive Merge {α : Type*} : List α → List α → List α → Prop
  | nil : Merge [] [] []
  | left {a : α} {xs ys zs : List α} (h : Merge xs ys zs) : Merge (a :: xs) ys (a :: zs)
  | right {a : α} {xs ys zs : List α} (h : Merge xs ys zs) : Merge xs (a :: ys) (a :: zs)

/-- The tokens of some modes and the others make up the text. -/
theorem Merge.labelled {α σ : Type*} (p : σ → Bool) (kept : List (σ × α)) :
    Merge ((kept.filter fun x => p x.1).map Prod.snd) ((kept.filter fun x => !p x.1).map Prod.snd)
      (kept.map Prod.snd) := by
  induction kept with
  | nil => exact .nil
  | cons x kept ih =>
    obtain ⟨mode, a⟩ := x
    cases h : p mode with
    | true =>
      simp only [List.filter_cons, h, Bool.not_true, Bool.false_eq_true, if_true, if_false, List.map_cons]
      exact ih.left
    | false =>
      simp only [List.filter_cons, h, Bool.not_false, Bool.false_eq_true, if_true, if_false, List.map_cons]
      exact ih.right

namespace Scanner

variable {α σ : Type*} [DecidableEq α]

/-! ## Reading -/

/-- A text is read in a mode: a delimiter changes the mode, and a token that begins none is kept. -/
inductive Reads (S : Scanner α σ) : σ → List α → List (σ × α) → Prop
  | done (mode : σ) : Reads S mode [] []
  | tag {mode : σ} {tag : List α × σ} {raw rest : List α} {kept : List (σ × α)} (htag : tag ∈ S.tags mode)
    (hraw : raw.map S.norm = tag.1) (h : Reads S tag.2 rest kept) : Reads S mode (raw ++ rest) kept
  | token {mode : σ} {a : α} {rest : List α} {kept : List (σ × α)}
    (hclear : ∀ tag ∈ S.tags mode, ¬ tag.1 <+: (a :: rest).map S.norm) (h : Reads S mode rest kept) :
    Reads S mode (a :: rest) ((mode, a) :: kept)

variable {S : Scanner α σ} {mark : α} {mode : σ} {text : List α} {kept : List (σ × α)}

/-- **A text is read in one way.** -/
theorem Separated.reads_iff (hS : S.Separated mark) : S.Reads mode text kept ↔ kept = S.labelled mode text := by
  constructor
  · intro h
    induction h with
    | done mode => exact (labelled_nil S mode).symm
    | @tag mode tag raw rest kept htag hraw h ih =>
      have hat : tagAt S.norm (S.tags mode) (raw ++ rest) = some tag := by
        cases hfound : tagAt S.norm (S.tags mode) (raw ++ rest) with
        | none =>
          refine absurd ?_ (tagAt_eq_none.1 hfound tag htag)
          rw [List.map_append, hraw]
          exact List.prefix_append _ _
        | some tag' =>
          obtain ⟨hmem, hstarts⟩ := tagAt_some hfound
          rw [List.map_append, hraw] at hstarts
          rcases List.prefix_or_prefix_of_prefix hstarts (List.prefix_append tag.1 _) with hle | hle
          · rw [hS.prefixFree mode tag' hmem tag htag hle]
          · rw [hS.prefixFree mode tag htag tag' hmem hle]
      have hlen : tag.1.length = raw.length := by rw [← hraw, List.length_map]
      rw [hS.labelled_tag hat, hlen, List.drop_left, ih]
    | @token mode a rest kept hclear h ih =>
      rw [hS.labelled_cons (tagAt_eq_none.2 hclear), ih]
  · rintro rfl
    induction hn : text.length using Nat.strongRecOn generalizing mode text with
    | _ n ih =>
      cases text with
      | nil =>
        rw [labelled_nil]
        exact .done mode
      | cons a rest =>
        cases hat : tagAt S.norm (S.tags mode) (a :: rest) with
        | none =>
          rw [hS.labelled_cons hat]
          refine .token (tagAt_eq_none.1 hat) (ih rest.length ?_ rfl)
          rw [← hn]
          exact Nat.lt_succ_self _
        | some tag =>
          obtain ⟨hmem, hstarts⟩ := tagAt_some hat
          have hraw : ((a :: rest).take tag.1.length).map S.norm = tag.1 := by
            rw [List.map_take]
            exact (List.prefix_iff_eq_take.1 hstarts).symm
          obtain ⟨tail, heq, -⟩ := hS.head mode tag hmem
          have hread : S.Reads tag.2 ((a :: rest).drop tag.1.length)
              (S.labelled tag.2 ((a :: rest).drop tag.1.length)) := by
            refine ih _ ?_ rfl
            rw [List.length_drop, ← hn, heq, List.length_cons, List.length_cons]
            omega
          have hwhole := Reads.tag hmem hraw hread
          rwa [List.take_append_drop, ← hS.labelled_tag hat] at hwhole

/-! ## Texts in pieces -/

/-- **A text in pieces**: what is handed on, and what is held back at the end. -/
theorem Separated.pushAll_labels (hS : S.Separated mark) (mode : σ) (pieces : List (List α)) :
    S.labelled mode pieces.flatten = labels (Incremental.pushAll S.push ⟨mode, []⟩ pieces).2 ++
      (Incremental.pushAll S.push ⟨mode, []⟩ pieces).1.pending.map
        fun a => ((Incremental.pushAll S.push ⟨mode, []⟩ pieces).1.mode, a) := by
  have hlabels (s : Scanning α σ) (pieces : List (List α)) : Incremental.pushAll S.pushLabels s pieces =
      ((Incremental.pushAll S.push s pieces).1, labels (Incremental.pushAll S.push s pieces).2) := by
    induction pieces generalizing s with
    | nil => rfl
    | cons piece pieces ih =>
      simp only [Incremental.pushAll, ih, pushLabels, labels, List.flatMap_append]
  cases pieces with
  | nil => rw [List.flatten_nil, labelled_nil]; rfl
  | cons piece pieces =>
    have hwhole := hS.push_splits.pushAll ⟨mode, []⟩ piece pieces
    rw [hlabels] at hwhole
    obtain ⟨hlast, hall⟩ := Prod.ext_iff.1 hwhole
    simp only at hlast hall
    rw [hall, hlast, List.flatten_cons]
    rfl

/-- The tokens that are read in a state, to the end of the text. -/
def labelledFrom (S : Scanner α σ) (s : Scanning α σ) (text : List α) : List (σ × α) :=
  labels (S.push s text).2 ++ (S.push s text).1.pending.map fun a => ((S.push s text).1.mode, a)

theorem Separated.labelledFrom_append (hS : S.Separated mark) (s : Scanning α σ) (xs ys : List α) :
    S.labelledFrom s (xs ++ ys) = labels (S.push s xs).2 ++ S.labelledFrom (S.push s xs).1 ys := by
  obtain ⟨hlast, hall⟩ := Prod.ext_iff.1 (hS.push_splits s xs ys)
  simp only [pushLabels] at hlast hall
  rw [labelledFrom, hlast, hall, labelledFrom, List.append_assoc]

theorem Separated.labelledFrom_settled (hS : S.Separated mark) (s : Scanning α σ) (text : List α) :
    S.labelledFrom (S.push s text).1 [] = (S.push s text).1.pending.map fun a => ((S.push s text).1.mode, a) := by
  obtain ⟨hlast, hall⟩ := Prod.ext_iff.1 (hS.push_splits.settled s text)
  simp only [pushLabels] at hlast hall
  rw [labelledFrom, hlast, hall, List.nil_append]

/-- A delimiter in a text: what comes before it, its tokens, and what comes after it. -/
theorem findTag_split {norm : α → α} {tags : List (List α × σ)} {before rest : List α} {mode' : σ}
    (h : findTag norm tags text = some (before, mode', rest)) :
    ∃ raw, ∃ tag ∈ tags, raw.map norm = tag.1 ∧ tag.2 = mode' ∧ text = before ++ (raw ++ rest) := by
  induction text generalizing before with
  | nil => cases h
  | cons a text ih =>
    rw [findTag] at h
    split at h
    · rename_i tag htag
      cases h
      obtain ⟨hmem, hstarts⟩ := tagAt_some htag
      refine ⟨(a :: text).take tag.1.length, tag, hmem, ?_, rfl, ?_⟩
      · rw [List.map_take]
        exact (List.prefix_iff_eq_take.1 hstarts).symm
      · rw [List.nil_append, List.take_append_drop]
    · obtain ⟨⟨before', _, _⟩, hr, heq⟩ := Option.map_eq_some_iff.1 h
      cases heq
      obtain ⟨raw, tag, hmem, hraw, hmode, rfl⟩ := ih hr
      exact ⟨raw, tag, hmem, hraw, hmode, rfl⟩

theorem findTag_suffix {norm : α → α} {tags : List (List α × σ)} {before rest : List α} {mode' : σ}
    (h : findTag norm tags text = some (before, mode', rest)) : rest <:+ text := by
  obtain ⟨raw, tag, -, -, -, rfl⟩ := findTag_split h
  rw [← List.append_assoc]
  exact List.suffix_append _ _

theorem findTag_subset {norm : α → α} {tags : List (List α × σ)} {before rest : List α} {mode' : σ}
    (h : findTag norm tags text = some (before, mode', rest)) : before ⊆ text := by
  obtain ⟨raw, tag, -, -, -, rfl⟩ := findTag_split h
  exact List.subset_append_left _ _

/-- **What is held back is the end of the text.** -/
theorem Separated.segments_suffix (hS : S.Separated mark) (mode : σ) (text : List α) :
    (S.segments mode text).1.pending <:+ text := by
  induction hn : text.length using Nat.strongRecOn generalizing mode text with
  | _ n ih =>
    cases hfind : findTag S.norm (S.tags mode) text with
    | some r =>
      obtain ⟨before, mode', rest⟩ := r
      have hrest := ih _ (hn ▸ hS.rest_lt hfind) mode' rest rfl
      rw [hS.segments_some hfind]
      exact hrest.trans (findTag_suffix hfind)
    | none =>
      have hsplit : (splitKeep S.norm (S.tags mode) text).1 ++ (splitKeep S.norm (S.tags mode) text).2 = text :=
        splitKeep_append text
      rw [segments_none hfind]
      exact ⟨_, hsplit⟩

theorem Separated.segments_subset (hS : S.Separated mark) {segment : σ × List α}
    (h : segment ∈ (S.segments mode text).2) : segment.2 ⊆ text := by
  induction hn : text.length using Nat.strongRecOn generalizing mode text with
  | _ n ih =>
    cases hfind : findTag S.norm (S.tags mode) text with
    | some r =>
      obtain ⟨before, mode', rest⟩ := r
      rw [hS.segments_some hfind] at h
      rcases List.mem_cons.1 h with rfl | h
      · exact findTag_subset hfind
      · exact List.Subset.trans (ih _ (hn ▸ hS.rest_lt hfind) h rfl) (findTag_suffix hfind).subset
    | none =>
      rw [segments_none hfind] at h
      obtain rfl := List.mem_singleton.1 h
      have hsplit : (splitKeep S.norm (S.tags mode) text).1 ++ (splitKeep S.norm (S.tags mode) text).2 = text :=
        splitKeep_append text
      exact fun a ha => hsplit ▸ List.mem_append_left _ ha

/-- A text has a segment before each of its delimiters, and one after the last. -/
theorem segments_ne_nil (S : Scanner α σ) (mode : σ) (text : List α) : (S.segments mode text).2 ≠ [] := by
  rw [segments, scan]
  split <;> exact List.cons_ne_nil _ _

theorem Separated.labelled_subset (hS : S.Separated mark) {x : σ × α} (h : x ∈ S.labelled mode text) : x.2 ∈ text := by
  rcases List.mem_append.1 h with h | h
  · obtain ⟨segment, hsegment, hmem⟩ := List.mem_flatMap.1 h
    obtain ⟨a, ha, rfl⟩ := List.mem_map.1 hmem
    exact hS.segments_subset hsegment ha
  · obtain ⟨a, ha, rfl⟩ := List.mem_map.1 h
    exact (hS.segments_suffix mode text).subset ha

/-! ## Closed delimiters -/

/-- Delimiters end with `last` and have it nowhere else. -/
def Closed (S : Scanner α σ) (last : α) : Prop := ∀ mode, ∀ tag ∈ S.tags mode, ∃ init, tag.1 = init ++ [last] ∧ last ∉ init

section Closed
variable {last : α} {p q : List α}

/-- In a text that may begin a delimiter the mark is at the head. -/
theorem Separated.mark_head (hS : S.Separated mark) (h : mayBegin S.norm (S.tags mode) (p ++ q) = true) (hp : p ≠ []) :
    mark ∉ q.map S.norm := by
  obtain ⟨tag, htag, hstarts⟩ := mayBegin_iff.1 h
  obtain ⟨rest, heq, hmark⟩ := hS.head mode tag htag
  obtain ⟨a, p, rfl⟩ := List.exists_cons_of_ne_nil hp
  rw [heq, List.cons_append, List.map_cons, List.cons_prefix_cons, List.map_append] at hstarts
  exact fun hmem => hmark (hstarts.2.subset (List.mem_append_right _ hmem))

theorem Closed.last_end (hS : S.Closed last) (h : mayBegin S.norm (S.tags mode) (p ++ q) = true) (hq : q ≠ []) :
    last ∉ p.map S.norm := by
  obtain ⟨tag, htag, hstarts⟩ := mayBegin_iff.1 h
  obtain ⟨init, heq, hlast⟩ := hS mode tag htag
  have hlen : (p.map S.norm).length ≤ init.length := by
    have hle := hstarts.length_le
    have hpos := List.length_pos_of_ne_nil hq
    rw [heq, List.map_append, List.length_append, List.length_append, List.length_singleton, List.length_map,
      List.length_map] at hle
    rw [List.length_map]
    omega
  have hinit : p.map S.norm <+: init := by
    refine List.prefix_of_prefix_length_le ?_ (heq ▸ List.prefix_append init [last]) hlen
    rw [List.map_append] at hstarts
    exact (List.prefix_append _ _).trans hstarts
  exact fun hmem => hlast (hinit.subset hmem)

omit [DecidableEq α] in
theorem Closed.last_mem (hS : S.Closed last) {raw : List α} {tag : List α × σ} (htag : tag ∈ S.tags mode)
    (hraw : raw.map S.norm = tag.1) : ∃ front a, raw = front ++ [a] ∧ S.norm a = last := by
  obtain ⟨init, heq, -⟩ := hS mode tag htag
  rw [heq] at hraw
  obtain ⟨front, back, rfl, -, hback⟩ := List.map_eq_append_iff.1 hraw
  obtain ⟨a, rfl, ha⟩ := List.map_eq_singleton_iff.1 hback
  exact ⟨front, a, rfl, ha⟩

theorem splitKeep_suffix {norm : α → α} {tags : List (List α × σ)} (h : q <:+ text) (hne : q ≠ [])
    (hbegin : mayBegin norm tags q = true) : q <:+ (splitKeep norm tags text).2 := by
  induction text with
  | nil => exact absurd (List.suffix_nil.1 h) hne
  | cons a text ih =>
    rw [splitKeep]
    split
    · exact h
    · rename_i hkeep
      rcases List.suffix_cons_iff.1 h with rfl | h
      · exact absurd hbegin hkeep
      · exact ih h

/-- **What is held back is handed on in its mode.** -/
theorem Separated.held_mode (hS : S.Separated mark) (hclosed : S.Closed last) {x : σ × α}
    (hbegin : mayBegin S.norm (S.tags mode) p = true) (h : x ∈ S.labelled mode (p ++ q)) (hq : x.2 ∉ q) :
    x.1 = mode := by
  cases hfind : findTag S.norm (S.tags mode) (p ++ q) with
  | none =>
    rw [labelled_none hfind] at h
    obtain ⟨a, -, rfl⟩ := List.mem_map.1 h
    rfl
  | some r =>
    obtain ⟨before, mode', rest⟩ := r
    rw [hS.labelled_some hfind] at h
    rcases List.mem_append.1 h with h | h
    · obtain ⟨a, -, rfl⟩ := List.mem_map.1 h
      rfl
    · -- A delimiter before the token would be complete in what is held back.
      have hrest := hS.labelled_subset h
      obtain ⟨raw, tag, htag, hraw, -, hsplit⟩ := findTag_split hfind
      obtain ⟨front, a, rfl, ha⟩ := hclosed.last_mem htag hraw
      rw [← List.append_assoc] at hsplit
      rcases List.append_eq_append_iff.1 hsplit with ⟨more, -, rfl⟩ | ⟨more, rfl, hmore⟩
      · exact absurd (List.mem_append_right _ hrest) hq
      · have hne : more ≠ [] := by
          rintro rfl
          rw [hmore, List.nil_append] at hrest
          exact hq hrest
        refine absurd ?_ (hclosed.last_end hbegin hne)
        rw [← ha]
        exact List.mem_map_of_mem (by simp)

/-- **What is handed on can begin no delimiter**, with what comes after it. -/
theorem Separated.handed_on (hS : S.Separated mark) (hclosed : S.Closed last) {x : σ × α}
    (h : x ∈ labels (S.segments mode text).2) : ∃ front back, text = front ++ x.2 :: back ∧
      ∀ w, w <:+ front → mayBegin S.norm (S.tags x.1) (w ++ x.2 :: back) = false := by
  induction hn : text.length using Nat.strongRecOn generalizing mode text with
  | _ n ih =>
    cases hfind : findTag S.norm (S.tags mode) text with
    | none =>
      rw [segments_none hfind] at h
      simp only [labels, List.flatMap_cons, List.flatMap_nil, List.append_nil] at h
      obtain ⟨a, ha, rfl⟩ := List.mem_map.1 h
      obtain ⟨front, back, hfront⟩ := List.append_of_mem ha
      have hsplit : (splitKeep S.norm (S.tags mode) text).1 ++ (splitKeep S.norm (S.tags mode) text).2 = text :=
        splitKeep_append text
      rw [hfront, List.append_assoc, List.cons_append] at hsplit
      refine ⟨front, back ++ (splitKeep S.norm (S.tags mode) text).2, hsplit.symm, fun w hw => ?_⟩
      rw [Bool.eq_false_iff]
      intro hbegin
      obtain ⟨v, rfl⟩ := hw
      rw [List.append_assoc] at hsplit
      have hend : w ++ a :: (back ++ (splitKeep S.norm (S.tags mode) text).2) <:+ text := ⟨v, hsplit⟩
      have hle : _ ≤ (splitKeep S.norm (S.tags mode) text).2.length := (splitKeep_suffix hend (by simp) hbegin).length_le
      rw [List.length_append, List.length_cons, List.length_append] at hle
      omega
    | some r =>
      obtain ⟨before, mode', rest⟩ := r
      obtain ⟨raw, tag, htag, hraw, -, hsplit⟩ := findTag_split hfind
      rw [hS.segments_some hfind] at h
      simp only [labels, List.flatMap_cons] at h
      rcases List.mem_append.1 h with h | h
      · -- The delimiter comes after the token, and brings its mark.
        obtain ⟨a, ha, rfl⟩ := List.mem_map.1 h
        obtain ⟨front, back, rfl⟩ := List.append_of_mem ha
        refine ⟨front, back ++ (raw ++ rest), by rw [hsplit, List.append_assoc, List.cons_append], fun w hw => ?_⟩
        rw [Bool.eq_false_iff]
        intro hbegin
        rw [← List.cons_append, ← List.append_assoc] at hbegin
        refine absurd ?_ (hS.mark_head hbegin (by simp))
        obtain ⟨tail, heq, -⟩ := hS.head mode tag htag
        rw [List.map_append, hraw, heq]
        exact List.mem_append_left _ (List.mem_cons_self ..)
      · -- The delimiter comes before it, and its last token may be nowhere but at the end.
        obtain ⟨front, back, rfl, hclear⟩ := ih _ (hn ▸ hS.rest_lt hfind) h rfl
        refine ⟨before ++ raw ++ front, back, by rw [hsplit]; simp, fun w hw => ?_⟩
        rcases List.suffix_or_suffix_of_suffix hw (List.suffix_append (before ++ raw) front) with hle | ⟨z, rfl⟩
        · exact hclear w hle
        · rcases List.eq_nil_or_concat z with rfl | ⟨z, b, rfl⟩
          · exact hclear _ (List.suffix_refl _)
          · rw [Bool.eq_false_iff]
            intro hbegin
            obtain ⟨init, a, rfl, ha⟩ := hclosed.last_mem htag hraw
            have hb : b = a := by
              obtain ⟨v, hv⟩ := hw
              rw [List.concat_eq_append, ← List.append_assoc, ← List.append_assoc, ← List.append_assoc] at hv
              have hlast := List.append_cancel_right hv
              exact (List.cons.inj (List.append_inj_right' hlast rfl)).1
            rw [List.concat_eq_append, List.append_assoc] at hbegin
            refine absurd ?_ (hclosed.last_end hbegin (by simp))
            rw [← ha, hb]
            exact List.mem_map_of_mem (by simp)

end Closed

theorem Separated.labelled_length_le (hS : S.Separated mark) (mode : σ) (text : List α) :
    (S.labelled mode text).length ≤ text.length := by
  induction hn : text.length using Nat.strongRecOn generalizing mode text with
  | _ n ih =>
    cases hfind : findTag S.norm (S.tags mode) text with
    | none => rw [labelled_none hfind, List.length_map, hn]
    | some r =>
      obtain ⟨before, mode', rest⟩ := r
      have hrest := ih _ (hn ▸ hS.rest_lt hfind) mode' rest rfl
      obtain ⟨raw, tag, -, -, -, rfl⟩ := findTag_split hfind
      rw [hS.labelled_some hfind, List.length_append, List.length_map]
      rw [List.length_append, List.length_append] at hn
      omega

theorem Separated.labelled_length_eq (hS : S.Separated mark) :
    (S.labelled mode text).length = text.length ↔ findTag S.norm (S.tags mode) text = none := by
  constructor
  · intro hlen
    by_contra hfind
    obtain ⟨⟨before, mode', rest⟩, hfind⟩ := Option.ne_none_iff_exists'.1 hfind
    have hrest := hS.labelled_length_le mode' rest
    obtain ⟨raw, tag, htag, hraw, -, rfl⟩ := findTag_split hfind
    obtain ⟨tail, heq, -⟩ := hS.head mode tag htag
    have hpos : 0 < raw.length := by
      rw [← List.length_map (f := S.norm), hraw, heq]
      exact Nat.succ_pos _
    rw [hS.labelled_some hfind, List.length_append, List.length_map, List.length_append, List.length_append] at hlen
    omega
  · intro hfind
    rw [labelled_none hfind, List.length_map]

/-! ## Notes on tokens -/

/-- A scanner of tokens with notes, which are not looked at. -/
def decorate {ι : Type*} (S : Scanner α σ) (note : ι) : Scanner (α × ι) σ where
  norm x := (S.norm x.1, note)
  tags mode := (S.tags mode).map fun tag => (tag.1.map fun a => (a, note), tag.2)

theorem isPrefixOf_eq_decide {β : Type*} [DecidableEq β] (xs ys : List β) : xs.isPrefixOf ys = decide (xs <+: ys) := by
  rw [Bool.eq_iff_iff, List.isPrefixOf_iff_prefix, decide_eq_true_iff]

section Decorate
variable {ι : Type*} [DecidableEq ι] (note : ι)

omit [DecidableEq α] [DecidableEq ι] in
theorem map_decorate (decorated : List (α × ι)) :
    decorated.map (S.decorate note).norm = ((decorated.map Prod.fst).map S.norm).map fun a => (a, note) := by
  rw [List.map_map, List.map_map]
  rfl

omit [DecidableEq α] [DecidableEq ι] in
theorem Separated.decorate (hS : S.Separated mark) (note : ι) : (S.decorate note).Separated (mark, note) where
  head mode tag htag := by
    obtain ⟨plainTag, hplain, rfl⟩ := List.mem_map.1 htag
    obtain ⟨rest, heq, hmark⟩ := hS.head mode plainTag hplain
    refine ⟨rest.map fun a => (a, note), by rw [heq]; rfl, fun hmem => ?_⟩
    obtain ⟨a, ha, hpair⟩ := List.mem_map.1 hmem
    cases hpair
    exact hmark ha
  prefixFree mode tag htag tag' htag' hprefix := by
    obtain ⟨plainTag, hplain, rfl⟩ := List.mem_map.1 htag
    obtain ⟨plainTag', hplain', rfl⟩ := List.mem_map.1 htag'
    have hle : plainTag.1 <+: plainTag'.1 :=
      (List.prefix_map_iff_of_injective fun a b h => (Prod.ext_iff.1 h).1).1 hprefix
    rw [hS.prefixFree mode plainTag hplain plainTag' hplain' hle]

omit [DecidableEq α] [DecidableEq ι] in
theorem Closed.decorate {last : α} (hS : S.Closed last) (note : ι) : (S.decorate note).Closed (last, note) := by
  intro mode tag htag
  obtain ⟨plainTag, hplain, rfl⟩ := List.mem_map.1 htag
  obtain ⟨init, heq, hlast⟩ := hS mode plainTag hplain
  refine ⟨init.map fun a => (a, note), by simp only [heq, List.map_append]; rfl, fun hmem => ?_⟩
  obtain ⟨a, ha, hpair⟩ := List.mem_map.1 hmem
  cases hpair
  exact hlast ha

theorem tagAt_decorate (mode : σ) (decorated : List (α × ι)) :
    tagAt (S.decorate note).norm ((S.decorate note).tags mode) decorated =
      (tagAt S.norm (S.tags mode) (decorated.map Prod.fst)).map fun tag => (tag.1.map fun a => (a, note), tag.2) := by
  rw [tagAt, tagAt, show (S.decorate note).tags mode = (S.tags mode).map _ from rfl, List.find?_map]
  congr 2
  funext tag
  rw [Function.comp_apply, isPrefixOf_eq_decide, isPrefixOf_eq_decide, map_decorate]
  exact decide_eq_decide.2 (List.prefix_map_iff_of_injective fun a b h => (Prod.ext_iff.1 h).1)

theorem mayBegin_decorate (mode : σ) (decorated : List (α × ι)) :
    mayBegin (S.decorate note).norm ((S.decorate note).tags mode) decorated =
      mayBegin S.norm (S.tags mode) (decorated.map Prod.fst) := by
  rw [mayBegin, mayBegin, show (S.decorate note).tags mode = (S.tags mode).map _ from rfl, List.any_map]
  congr 1
  funext tag
  rw [Function.comp_apply, isPrefixOf_eq_decide, isPrefixOf_eq_decide, map_decorate]
  exact decide_eq_decide.2 (List.prefix_map_iff_of_injective fun a b h => (Prod.ext_iff.1 h).1)

theorem findTag_decorate (mode : σ) (decorated : List (α × ι)) :
    findTag S.norm (S.tags mode) (decorated.map Prod.fst) =
      (findTag (S.decorate note).norm ((S.decorate note).tags mode) decorated).map
        fun r => (r.1.map Prod.fst, r.2.1, r.2.2.map Prod.fst) := by
  induction decorated with
  | nil => rfl
  | cons x decorated ih =>
    rw [List.map_cons, findTag, findTag, tagAt_decorate, List.map_cons]
    cases tagAt S.norm (S.tags mode) (x.1 :: decorated.map Prod.fst) with
    | none => simp only [Option.map_none, ih, Option.map_map, Function.comp_def, List.map_cons]
    | some tag =>
      simp only [Option.map_some, List.map_nil, List.length_map, List.map_drop, List.map_cons]

theorem splitKeep_decorate (mode : σ) (decorated : List (α × ι)) :
    splitKeep S.norm (S.tags mode) (decorated.map Prod.fst) =
      ((splitKeep (S.decorate note).norm ((S.decorate note).tags mode) decorated).1.map Prod.fst,
        (splitKeep (S.decorate note).norm ((S.decorate note).tags mode) decorated).2.map Prod.fst) := by
  induction decorated with
  | nil => rfl
  | cons x decorated ih =>
    rw [List.map_cons, splitKeep, splitKeep, mayBegin_decorate, List.map_cons]
    split
    · rfl
    · rw [ih]
      rfl

/-- Segments without their notes. -/
def plain (segments : List (σ × List (α × ι))) : List (σ × List α) := segments.map fun s => (s.1, s.2.map Prod.fst)

theorem scan_decorate (n : Nat) (mode : σ) (decorated : List (α × ι)) : S.scan n mode (decorated.map Prod.fst) =
    (⟨((S.decorate note).scan n mode decorated).1.mode, ((S.decorate note).scan n mode decorated).1.pending.map Prod.fst⟩,
      plain ((S.decorate note).scan n mode decorated).2) := by
  induction n generalizing mode decorated with
  | zero => rfl
  | succ n ih =>
    rw [scan, scan, findTag_decorate note]
    cases findTag (S.decorate note).norm ((S.decorate note).tags mode) decorated with
    | none => simp only [Option.map_none, splitKeep_decorate note, plain, List.map_cons, List.map_nil]
    | some r => simp only [Option.map_some, ih, plain, List.map_cons]

/-- **Notes do not matter to what is read.** -/
theorem push_decorate (s : Scanning (α × ι) σ) (decorated : List (α × ι)) :
    S.push ⟨s.mode, s.pending.map Prod.fst⟩ (decorated.map Prod.fst) =
      (⟨((S.decorate note).push s decorated).1.mode, ((S.decorate note).push s decorated).1.pending.map Prod.fst⟩,
        plain ((S.decorate note).push s decorated).2) := by
  have hlen : (s.pending.map Prod.fst ++ decorated.map Prod.fst).length = (s.pending ++ decorated).length := by simp
  rw [push, push, segments, segments, hlen, ← List.map_append, scan_decorate note]

end Decorate

/-! ## Places -/

section Places
variable {S : Scanner α σ} {mark : α} {mode : σ} {text : List α}

omit [DecidableEq α] in
/-- A token of a text, with its place, is where its place says. -/
theorem zipIdx_place {x : α × Nat} {front back : List (α × Nat)} (h : text.zipIdx = front ++ x :: back) :
    x.2 = front.length := by
  have hget : text.zipIdx[front.length]? = some x := by
    rw [h, List.getElem?_append_right (le_refl _), Nat.sub_self]
    rfl
  rw [List.getElem?_zipIdx] at hget
  obtain ⟨a, -, rfl⟩ := Option.map_eq_some_iff.1 hget
  exact Nat.zero_add _

/-- **What is held back may begin a delimiter**, as an end of the text. -/
theorem Separated.pending_place (hS : S.Separated mark) {x : α × Nat}
    (hx : x ∈ ((S.decorate 0).segments mode text.zipIdx).1.pending) : ∃ n ≤ x.2,
      mayBegin S.norm (S.tags ((S.decorate 0).segments mode text.zipIdx).1.mode) (text.drop n) = true := by
  have hbegin := (hS.decorate 0).pending_mayBegin mode text.zipIdx (List.ne_nil_of_mem hx)
  obtain ⟨front, hsplit⟩ := (hS.decorate 0).segments_suffix mode text.zipIdx
  rw [mayBegin_decorate] at hbegin
  refine ⟨front.length, ?_, ?_⟩
  · obtain ⟨before, after, hpending⟩ := List.append_of_mem hx
    rw [hpending, ← List.append_assoc] at hsplit
    rw [zipIdx_place hsplit.symm, List.length_append]
    exact Nat.le_add_right _ _
  · have hdrop : text.drop front.length = ((S.decorate 0).segments mode text.zipIdx).1.pending.map Prod.fst := by
      conv_lhs => rw [← List.zipIdx_map_fst 0 text, ← hsplit]
      rw [List.map_append, ← List.length_map (f := Prod.fst), List.drop_left]
    rwa [hdrop]

/-- **What is handed on is in no end of the text that may begin a delimiter.** -/
theorem Separated.handed_on_place (hS : S.Separated mark) {last : α} (hclosed : S.Closed last) {x : σ × α × Nat}
    (hx : x ∈ labels ((S.decorate 0).segments mode text.zipIdx).2) {n : Nat} (hn : n ≤ x.2.2) :
    mayBegin S.norm (S.tags x.1) (text.drop n) = false := by
  obtain ⟨front, back, hsplit, hclear⟩ := (hS.decorate 0).handed_on (hclosed.decorate 0) hx
  have hplace := zipIdx_place hsplit
  have hnone := hclear (front.drop n) (List.drop_suffix n front)
  have hdrop : text.drop n = (front.drop n ++ x.2 :: back).map Prod.fst := by
    conv_lhs => rw [← List.zipIdx_map_fst 0 text, hsplit, ← List.map_drop]
    rw [List.drop_append_of_le_length (hplace ▸ hn)]
  rw [mayBegin_decorate] at hnone
  rwa [hdrop]

end Places

end Scanner

end TagScan
