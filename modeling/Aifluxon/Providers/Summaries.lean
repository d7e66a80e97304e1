import Aifluxon.Providers.StreamedText
import Aifluxon.Providers.Thoughts

/-!
# The summary at the head of a text

The filter of Qwen, `SummaryFilter` of `qwen/mod.rs`.

* `trimList_head`, `trimList_last`, `trimList_length_dropWhile` : what `str::trim` leaves of a text in two parts;
* `SummaryBlock` : a text that begins with a summary, between tags in any letter case;
* `SummaryBlock.pushText` : the filter closes the summary at its end, and hands on the rest;
* `SummaryBlock.summaryText` : the summary without the tags that are stripped;
* `summary_kept_iff` : when the hidden context is what stands between the tags.
-/

namespace Aifluxon

/-! ## Blanks -/

/-- A text that is not blank has no blanks before what comes after it. -/
theorem trimList_last {text : List Char} {c : Char} {more : List Char} (h : text.dropWhile isWhitespace ≠ [])
    (hc : isWhitespace c = false) :
    trimList (text ++ (more ++ [c])) = text.dropWhile isWhitespace ++ (more ++ [c]) := by
  rw [trimList, dropWhile_append_of_ne h, ← List.append_assoc, List.rdropWhile_concat_neg]
  simp [hc]

theorem rdropWhile_append_of_ne {p : Char → Bool} {xs ys : List Char} (h : ys.rdropWhile p ≠ []) :
    (xs ++ ys).rdropWhile p = xs ++ ys.rdropWhile p := by
  have hne : ys.reverse.dropWhile p ≠ [] := by simpa [List.rdropWhile] using h
  rw [List.rdropWhile, List.reverse_append, dropWhile_append_of_ne hne, List.reverse_append, List.reverse_reverse]
  rfl

/-- A text that is not blank has no blanks after what comes before it. -/
theorem trimList_head {text : List Char} {c : Char} {more : List Char} (h : text.rdropWhile isWhitespace ≠ [])
    (hc : isWhitespace c = false) : trimList (c :: more ++ text) = c :: more ++ text.rdropWhile isWhitespace := by
  rw [trimList, List.cons_append, List.dropWhile_cons_of_neg (by simp [hc]), ← List.cons_append,
    rdropWhile_append_of_ne h]

theorem trimList_length_dropWhile (text : List Char) : (trimList text).length ≤ (text.dropWhile isWhitespace).length :=
  (List.rdropWhile_prefix _ _).length_le

/-- No more is left of a text than of it without the blanks at its end. -/
theorem trimList_length_rdropWhile (text : List Char) : (trimList text).length ≤ (text.rdropWhile isWhitespace).length := by
  have hdrop (xs ys : List Char) : (xs.dropWhile isWhitespace).length ≤ ((xs ++ ys).dropWhile isWhitespace).length := by
    by_cases h : xs.dropWhile isWhitespace = []
    · rw [h]
      exact Nat.zero_le _
    · rw [dropWhile_append_of_ne h, List.length_append]
      exact Nat.le_add_right _ _
  have hsplit : text.reverse = (text.dropWhile isWhitespace).reverse ++ (text.takeWhile isWhitespace).reverse := by
    rw [← List.reverse_append, List.takeWhile_append_dropWhile]
  have hlen := hdrop (text.dropWhile isWhitespace).reverse (text.takeWhile isWhitespace).reverse
  rw [← hsplit] at hlen
  simpa [trimList, List.rdropWhile] using hlen

/-! ## Texts with a summary -/

/-- A text that begins, after blanks, with a summary between tags in any letter case. -/
structure SummaryBlock where
  blank : List Char
  opening : List Char
  body : List Char
  closing : List Char
  rest : List Char
  blanks : ∀ c ∈ blank, isWhitespace c = true
  opens : opening.map Char.toLower = summaryTag
  closes : closing.map Char.toLower = summaryEnd
  /-- The closing tag is the first one. -/
  first : findText summaryEnd ((body ++ closing).map Char.toLower) = some body.length
  filled : trim (String.ofList body) ≠ ""

namespace SummaryBlock

variable (b : SummaryBlock)

def text : List Char := b.blank ++ (b.opening ++ (b.body ++ (b.closing ++ b.rest)))

/-- The text without the rest. -/
def block : List Char := b.blank ++ (b.opening ++ (b.body ++ b.closing))

theorem text_eq : b.text = b.block ++ b.rest := by simp [text, block]

theorem opening_length : b.opening.length = 9 := by
  have hlen := congrArg List.length b.opens
  rwa [List.length_map] at hlen

theorem closing_length : b.closing.length = 10 := by
  have hlen := congrArg List.length b.closes
  rwa [List.length_map] at hlen

theorem opening_head : ∃ more, b.opening = '<' :: more := by
  have hopens := b.opens
  cases hopening : b.opening with
  | nil =>
    rw [hopening] at hopens
    cases hopens
  | cons c more =>
    rw [hopening, List.map_cons, show summaryTag = '<' :: "summary>".toList from rfl, List.cons.injEq] at hopens
    exact ⟨more, by rw [eq_of_toLower (by decide) hopens.1]⟩

theorem closing_last : ∃ more, b.closing = more ++ ['>'] := by
  have hcloses := b.closes
  cases hclosing : b.closing.reverse with
  | nil =>
    rw [List.reverse_eq_nil_iff.1 hclosing] at hcloses
    cases hcloses
  | cons c more =>
    rw [List.reverse_eq_cons_iff] at hclosing
    rw [hclosing, List.map_append, show summaryEnd = "</summary".toList ++ ['>'] from rfl, List.map_singleton] at hcloses
    obtain ⟨-, hlast⟩ := List.append_inj' hcloses rfl
    exact ⟨more.reverse, by rw [hclosing, eq_of_toLower (by decide) (List.singleton_inj.1 hlast)]⟩

/-! ### The filter -/

theorem summaryStart_text : summaryStart b.text = summaryTag ++ (b.body ++ (b.closing ++ b.rest)).map Char.toLower := by
  obtain ⟨more, hopening⟩ := b.opening_head
  have hblank : b.blank.dropWhile isWhitespace = [] := List.dropWhile_eq_nil_iff.2 b.blanks
  have hstart : b.text.dropWhile isWhitespace = b.opening ++ (b.body ++ (b.closing ++ b.rest)) := by
    rw [text, List.dropWhile_append, hblank, if_pos (by rfl), hopening, List.cons_append, List.dropWhile_cons_of_neg]
    decide
  rw [summaryStart, hstart, List.map_append, b.opens]

/-- No closing tag begins with a character that is no mark. -/
theorem findText_skip {c : Char} (h : c ≠ '<') (hay : List Char) :
    findText summaryEnd (c :: hay) = (findText summaryEnd hay).map (· + 1) := by
  have hhead : ¬ summaryEnd.isPrefixOf (c :: hay) = true := by
    rw [List.isPrefixOf_iff_prefix, show summaryEnd = '<' :: "/summary>".toList from rfl, List.cons_prefix_cons]
    exact fun hinitial => h hinitial.1.symm
  rw [findText, if_neg hhead]

theorem findText_unmarked {before : List Char} (h : '<' ∉ before) (hay : List Char) :
    findText summaryEnd (before ++ hay) = (findText summaryEnd hay).map (· + before.length) := by
  induction before with
  | nil => simp
  | cons c before ih =>
    rw [List.mem_cons, not_or] at h
    rw [List.cons_append, findText_skip (Ne.symm h.1), ih h.2, Option.map_map, List.length_cons]
    rfl

theorem findText_opening (hay : List Char) :
    findText summaryEnd (summaryTag ++ hay) = (findText summaryEnd hay).map (· + 9) := by
  have hhead : ¬ summaryEnd.isPrefixOf (summaryTag ++ hay) = true := by
    rw [List.isPrefixOf_iff_prefix, show summaryEnd = '<' :: '/' :: "summary>".toList from rfl,
      show summaryTag = '<' :: 's' :: "ummary>".toList from rfl, List.cons_append, List.cons_prefix_cons,
      List.cons_append, List.cons_prefix_cons]
    exact fun hinitial => absurd hinitial.2.1 (by decide)
  have htail : findText summaryEnd ("summary>".toList ++ hay) = _ := findText_unmarked (by decide) hay
  rw [show summaryTag ++ hay = '<' :: ("summary>".toList ++ hay) from rfl] at hhead ⊢
  rw [findText, if_neg hhead, htail, Option.map_map]
  rfl

theorem findText_text : findText summaryEnd (b.text.map Char.toLower) =
    some (b.blank.length + 9 + b.body.length) := by
  have hblank : '<' ∉ b.blank.map Char.toLower := by
    intro hmem
    obtain ⟨c, hc, hlower⟩ := List.mem_map.1 hmem
    have hwhite := b.blanks c hc
    rw [eq_of_toLower (by decide) hlower] at hwhite
    cases hwhite
  have hfirst := findText_append b.first (b.rest.map Char.toLower)
  rw [← List.map_append, List.append_assoc] at hfirst
  rw [text, List.map_append, findText_unmarked hblank, List.map_append, b.opens, findText_opening, hfirst,
    Option.map_some, Option.map_some, List.length_map]
  congr 1
  omega

theorem block_length : b.block.length = b.blank.length + 9 + b.body.length + summaryEnd.length := by
  rw [block, List.length_append, List.length_append, List.length_append, b.opening_length, b.closing_length]
  have hend : summaryEnd.length = 10 := rfl
  omega

/-- **The filter closes the summary at its end, and hands on the rest.** -/
theorem pushText : (SummaryFilter.new true).pushText b.text = (⟨true, .passthrough, [], b.block⟩, b.rest) := by
  have hundecided : ¬ (summaryStart b.text).isPrefixOf summaryTag = true := by
    intro hinitial
    have hlen := (List.isPrefixOf_iff_prefix.1 hinitial).length_le
    rw [summaryStart_text, List.length_append, List.length_map, List.length_append, List.length_append,
      b.closing_length] at hlen
    omega
  have htag : summaryTag.isPrefixOf (summaryStart b.text) = true := by
    rw [List.isPrefixOf_iff_prefix, summaryStart_text]
    exact List.prefix_append _ _
  have hclose := SummaryFilter.closeText_closed (f := ⟨true, .suppressingSummary, [], b.text⟩) b.findText_text
  rw [SummaryFilter.pushText_undecided rfl rfl]
  simp only [SummaryFilter.new, List.nil_append, if_neg hundecided, if_pos htag, hclose]
  rw [← b.block_length, text_eq, List.take_left, List.drop_left]

/-! ### The summary -/

/-- The tags that are stripped. -/
def openStripped : Bool := b.opening = "<summary>".toList ∨ b.opening = "<SUMMARY>".toList

def closeStripped : Bool := b.closing = "</summary>".toList ∨ b.closing = "</SUMMARY>".toList

theorem body_dropWhile : b.body.dropWhile isWhitespace ≠ [] := by
  intro hnil
  apply b.filled
  rw [trim_ofList, trimList, hnil]
  rfl

theorem body_rdropWhile : b.body.rdropWhile isWhitespace ≠ [] := by
  intro hnil
  exact b.body_dropWhile (List.dropWhile_eq_nil_iff.2 (List.rdropWhile_eq_nil_iff.1 hnil))

/-- Without the blanks before it, the summary is its tags and its body. -/
theorem trimList_block : trimList b.block = b.opening ++ (b.body ++ b.closing) := by
  obtain ⟨more, hopening⟩ := b.opening_head
  obtain ⟨last, hclosing⟩ := b.closing_last
  have hblank : b.blank.dropWhile isWhitespace = [] := List.dropWhile_eq_nil_iff.2 b.blanks
  have hstart : b.block.dropWhile isWhitespace = b.opening ++ (b.body ++ b.closing) := by
    rw [block, List.dropWhile_append, hblank, if_pos (by rfl), hopening, List.cons_append, List.dropWhile_cons_of_neg]
    decide
  rw [trimList, hstart, hclosing, ← List.append_assoc, ← List.append_assoc, List.rdropWhile_concat_neg]
  decide

/-- What is left when a tag is stripped from the head of a text. -/
theorem stripStart_block (more : List Char) : SummaryFilter.stripStart (String.ofList (b.opening ++ more)) =
    String.ofList (if b.openStripped then more else b.opening ++ more) := by
  have hinitial (tag : List Char) (htag : tag.length = 9) :
      tag.isPrefixOf (b.opening ++ more) = true ↔ b.opening = tag := by
    rw [List.isPrefixOf_iff_prefix, List.prefix_iff_eq_take, List.take_left' (b.opening_length.trans htag.symm)]
    exact eq_comm
  have hcond : ("<summary>".toList.isPrefixOf (b.opening ++ more) = true ∨
      "<SUMMARY>".toList.isPrefixOf (b.opening ++ more) = true) ↔ b.openStripped = true := by
    rw [hinitial _ rfl, hinitial _ rfl, openStripped, decide_eq_true_iff]
  simp only [SummaryFilter.stripStart, String.toList_ofList, hcond]
  split
  · rw [List.drop_left' b.opening_length]
  · rfl

/-- What is left when a tag is stripped from the end of a text. -/
theorem stripEnd_block (before : List Char) : SummaryFilter.stripEnd (String.ofList (before ++ b.closing)) =
    String.ofList (if b.closeStripped then before else before ++ b.closing) := by
  have hsuffix (tag : List Char) (htag : tag.length = 10) :
      tag.isSuffixOf (before ++ b.closing) = true ↔ b.closing = tag := by
    have hdrop : (before ++ b.closing).length - tag.length = before.length := by
      rw [List.length_append, b.closing_length, htag]
      omega
    rw [List.isSuffixOf_iff_suffix, List.suffix_iff_eq_drop, hdrop, List.drop_left]
    exact eq_comm
  have hcond : ("</summary>".toList.isSuffixOf (before ++ b.closing) = true ∨
      "</SUMMARY>".toList.isSuffixOf (before ++ b.closing) = true) ↔ b.closeStripped = true := by
    rw [hsuffix _ rfl, hsuffix _ rfl, closeStripped, decide_eq_true_iff]
  have hlen : (before ++ b.closing).length - 10 = before.length := by
    rw [List.length_append, b.closing_length]
    omega
  simp only [SummaryFilter.stripEnd, String.toList_ofList, hcond]
  split
  · rw [hlen, List.take_left]
  · rfl

/-- What the filter has of the summary: what is between the tags, with those that are not stripped. -/
def kept : List Char :=
  (if b.openStripped then [] else b.opening) ++ b.body ++ (if b.closeStripped then [] else b.closing)

theorem stripped_block : trim (SummaryFilter.stripEnd (SummaryFilter.stripStart (String.ofList (trimList b.block)))) =
    String.ofList (trimList b.kept) := by
  rw [trimList_block, stripStart_block, kept]
  cases hopen : b.openStripped with
  | true =>
    rw [if_pos rfl, if_pos rfl, stripEnd_block, trim_ofList, List.nil_append]
    cases b.closeStripped <;> simp
  | false =>
    have hassoc : b.opening ++ (b.body ++ b.closing) = (b.opening ++ b.body) ++ b.closing := (List.append_assoc ..).symm
    rw [if_neg (by simp), if_neg (by simp), hassoc, stripEnd_block, trim_ofList]
    cases b.closeStripped <;> simp

theorem trimList_kept (h : ¬ (b.openStripped = true ∧ b.closeStripped = true)) :
    (trimList b.body).length < (trimList b.kept).length := by
  obtain ⟨more, hopening⟩ := b.opening_head
  obtain ⟨last, hclosing⟩ := b.closing_last
  have hlead := trimList_length_dropWhile b.body
  have htail := trimList_length_rdropWhile b.body
  have hopen := b.opening_length
  have hclose := b.closing_length
  unfold kept
  cases hopens : b.openStripped with
  | true =>
    have hcloses : b.closeStripped = false := by simpa [hopens] using h
    rw [hcloses, if_pos rfl, if_neg (by simp), List.nil_append, hclosing,
      trimList_last b.body_dropWhile (by decide), ← hclosing, List.length_append]
    omega
  | false =>
    rw [if_neg (by simp)]
    cases hcloses : b.closeStripped with
    | true =>
      rw [if_pos rfl, List.append_nil, hopening, trimList_head b.body_rdropWhile (by decide), ← hopening,
        List.length_append]
      omega
    | false =>
      have hwhole : (b.opening ++ b.body).dropWhile isWhitespace = b.opening ++ b.body := by
        rw [hopening, List.cons_append, List.dropWhile_cons_of_neg (by decide)]
      have hne : (b.opening ++ b.body).dropWhile isWhitespace ≠ [] := by
        rw [hwhole, hopening]
        exact List.cons_ne_nil _ _
      have hbody : (b.body.dropWhile isWhitespace).length ≤ b.body.length := (List.dropWhile_suffix _).length_le
      rw [if_neg (by simp), hclosing, trimList_last hne (by decide), hwhole, ← hclosing, List.length_append,
        List.length_append]
      omega

/-- **The summary of the filter**: what is between the tags, with those that are not stripped. -/
theorem summaryText : (⟨true, .passthrough, [], b.block⟩ : SummaryFilter).summaryText =
    some (String.ofList (trimList b.kept)) := by
  have hne : b.opening ++ (b.body ++ b.closing) ≠ [] := by
    obtain ⟨more, hopening⟩ := b.opening_head
    rw [hopening]
    exact List.cons_ne_nil _ _
  have hfilled : trimList b.body ≠ [] := by
    intro hnil
    apply b.filled
    rw [trim_ofList, hnil]
  have hkept : trimList b.kept ≠ [] := by
    by_cases h : b.openStripped = true ∧ b.closeStripped = true
    · rw [kept, h.1, h.2, if_pos rfl, if_pos rfl, List.nil_append, List.append_nil]
      exact hfilled
    · have hlen := b.trimList_kept h
      intro hnil
      rw [hnil] at hlen
      exact Nat.not_lt_zero _ hlen
  have hempty {l : List Char} (hl : l ≠ []) : String.ofList l ≠ "" := fun h => hl (String.ofList_injective h)
  rw [SummaryFilter.summaryText]
  simp only [trim_ofList, stripped_block]
  rw [if_neg (by rw [trimList_block]; exact hempty hne), if_neg (hempty hkept)]

end SummaryBlock

/-! ## The turn -/

/-- All that the filter hands on of a text in deltas, to its end. -/
def SummaryFilter.handedOn (deltas : List (List Char)) : List Char :=
  (Incremental.pushAll SummaryFilter.pushText (new true) deltas).2 ++
    ((Incremental.pushAll SummaryFilter.pushText (new true) deltas).1.finish).2.getD []

/-- What is expected of a text with a summary: its body is the hidden context, and the rest is the text, for the
turn and for the caller. -/
structure SummaryBlock.Expected (b : SummaryBlock) (turn : ModelTurn) : Prop where
  hidden : (applySummaryToTurn turn).opaqueValue.getStr "hidden_context" = some (trim (String.ofList b.body))
  text : (applySummaryToTurn turn).text = String.ofList b.rest
  live : ∀ deltas : List (List Char), deltas.flatten = b.text → SummaryFilter.handedOn deltas = b.rest

namespace SummaryBlock

variable (b : SummaryBlock)

/-- The rest is handed on, wherever the text is cut. -/
theorem handedOn {deltas : List (List Char)} (h : deltas.flatten = b.text) : SummaryFilter.handedOn deltas = b.rest := by
  cases deltas with
  | nil =>
    obtain ⟨more, hopening⟩ := b.opening_head
    rw [List.flatten_nil, text, hopening] at h
    have hlen := congrArg List.length h
    rw [List.length_append, List.length_append, List.length_cons, List.length_nil] at hlen
    omega
  | cons delta deltas =>
    rw [List.flatten_cons] at h
    rw [SummaryFilter.handedOn, SummaryFilter.pushText_splits.pushAll, h, pushText]
    exact List.append_nil _

theorem applySummaryToTurn_block {turn : ModelTurn} (hturn : turn.text.toList = b.text) :
    (applySummaryToTurn turn).opaqueValue.getStr "hidden_context" = some (String.ofList (trimList b.kept)) ∧
      (applySummaryToTurn turn).text = String.ofList b.rest := by
  have hpush := b.pushText
  rw [SummaryFilter.pushText, Prod.mk.injEq] at hpush
  have hfinish : SummaryFilter.finish ⟨true, .passthrough, [], b.block⟩ = (⟨true, .passthrough, [], b.block⟩, none) := rfl
  unfold applySummaryToTurn
  rw [hturn]
  simp only [hpush.1, hpush.2, hfinish, summaryText, Option.getD_none, List.append_nil]
  refine ⟨?_, trivial⟩
  split
  · rw [Value.getStr, Value.get, lookup_insertEntry_self]
    rfl
  · rfl

/-- **The hidden context is what stands between the tags exactly when both are written in one of the two ways that
are stripped.** -/
theorem summary_kept_iff {turn : ModelTurn} (hturn : turn.text.toList = b.text) :
    b.Expected turn ↔ b.openStripped = true ∧ b.closeStripped = true := by
  obtain ⟨hhidden, htext⟩ := b.applySummaryToTurn_block hturn
  constructor
  · intro h
    by_contra hnot
    have hlen := b.trimList_kept hnot
    have heq := h.hidden
    rw [hhidden, Option.some.injEq, trim_ofList] at heq
    rw [String.ofList_injective heq] at hlen
    exact Nat.lt_irrefl _ hlen
  · intro h
    refine ⟨?_, htext, fun deltas hdeltas => b.handedOn hdeltas⟩
    rw [hhidden, kept, h.1, h.2, if_pos rfl, if_pos rfl, List.nil_append, List.append_nil, trim_ofList]

/-- A plan between tags, and an answer. -/
def plan (opening closing : String) (hopens : opening.toList.map Char.toLower = summaryTag)
    (hcloses : closing.toList.map Char.toLower = summaryEnd)
    (hfirst : findText summaryEnd (("plan".toList ++ closing.toList).map Char.toLower) = some 4) : SummaryBlock :=
  ⟨[' '], opening.toList, "plan".toList, closing.toList, "done".toList, List.forall_mem_singleton.2 (by decide), hopens,
    hcloses, hfirst, by decide⟩

def turnOf (text : List Char) : ModelTurn := ⟨String.ofList text, "", [], none, .stop, .object []⟩

/-- A tag that is written with one capital stays in the hidden context. -/
theorem capital_tag_kept : ¬ (plan "<Summary>" "</Summary>" (by decide) (by decide) (by decide)).Expected
    (turnOf " <Summary>plan</Summary>done".toList) := by
  intro h
  have hkept : (applySummaryToTurn (turnOf " <Summary>plan</Summary>done".toList)).opaqueValue.getStr "hidden_context" =
      some "<Summary>plan</Summary>" := by decide +kernel
  have heq := h.hidden
  rw [hkept] at heq
  exact absurd heq (by decide)

theorem summary_kept_iff_plan : (plan "<summary>" "</SUMMARY>" (by decide) (by decide) (by decide)).Expected
    (turnOf " <summary>plan</SUMMARY>done".toList) :=
  (summary_kept_iff _ (by decide)).2 (by decide)

end SummaryBlock

end Aifluxon
