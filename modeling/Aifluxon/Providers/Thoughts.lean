import Aifluxon.Providers.Gemini
import Mathlib.Data.List.TakeWhile

/-!
# The visible text and the thoughts of a content

* `visibleFrom`, `thoughtsFrom` : the characters of a content outside and inside of its thoughts;
* `visibleFrom_append_length` : a content whose first part is not parsed has at least as many visible characters;
* `visibleFrom_lt` : it has more, if a tag begins in that part;
* `visibleFrom_eq_self` : a content is visible as it is exactly when it has no tag.
-/

namespace Aifluxon

open TagScan

/-- The tag that is looked for. -/
def thoughtTag (thought : Bool) : List Char := if thought then "</thought>".toList else "<thought>".toList

/-- The characters outside of thoughts; a thought may be open at the head of the content. -/
def visibleFrom (thought : Bool) (content : List Char) : List Char :=
  inMode false (thoughtScanner.labelled thought content)

def thoughtsFrom (thought : Bool) (content : List Char) : List Char :=
  inMode true (thoughtScanner.labelled thought content)

/-! ## Tags -/

section
variable {thought : Bool} {content : List Char}

/-- A content begins with a tag. -/
def TagAhead (thought : Bool) (content : List Char) : Prop := thoughtTag thought <+: content.map Char.toLower

theorem thoughtScanner_tags (thought : Bool) : thoughtScanner.tags thought = [(thoughtTag thought, !thought)] := by
  cases thought <;> rfl

theorem tagAt_ahead (h : TagAhead thought content) :
    tagAt thoughtScanner.norm (thoughtScanner.tags thought) content = some (thoughtTag thought, !thought) := by
  have hhead : (thoughtTag thought).isPrefixOf (content.map Char.toLower) = true := List.isPrefixOf_iff_prefix.2 h
  rw [tagAt, thoughtScanner_tags, List.find?_cons_of_pos]
  exact hhead

theorem tagAt_clear (h : ¬ TagAhead thought content) :
    tagAt thoughtScanner.norm (thoughtScanner.tags thought) content = none := by
  rw [tagAt_eq_none, thoughtScanner_tags]
  intro tag htag
  rw [List.mem_singleton.1 htag]
  exact h

/-- The tags of the two modes differ at their second character. -/
theorem TagAhead.other (h : TagAhead thought content) : ¬ TagAhead (!thought) content := by
  intro h'
  have hdiffer : ¬ thoughtTag thought <+: thoughtTag (!thought) ∧ ¬ thoughtTag (!thought) <+: thoughtTag thought := by
    cases thought <;> decide
  rcases List.prefix_or_prefix_of_prefix h h' with hle | hle
  · exact hdiffer.1 hle
  · exact hdiffer.2 hle

theorem thoughtTag_pos (thought : Bool) : 0 < (thoughtTag thought).length := by
  cases thought <;> decide

theorem TagAhead.length_le (h : TagAhead thought content) : (thoughtTag thought).length ≤ content.length := by
  have hlen := List.IsPrefix.length_le h
  rwa [List.length_map] at hlen

/-- A tag has its mark nowhere but at its head. -/
theorem TagAhead.unmarked {c : Char} (h : TagAhead thought (c :: content)) :
    '<' ∉ (content.take ((thoughtTag thought).length - 1)).map thoughtScanner.norm := by
  obtain ⟨more, hmore⟩ := h
  have htail : thoughtTag thought = '<' :: (thoughtTag thought).tail := by cases thought <;> rfl
  have hmark : '<' ∉ (thoughtTag thought).tail := by cases thought <;> decide
  have hcontent : content.map Char.toLower = (thoughtTag thought).tail ++ more := by
    rw [htail, List.cons_append, List.map_cons, List.cons.injEq] at hmore
    exact hmore.2.symm
  have htake : (content.take ((thoughtTag thought).length - 1)).map Char.toLower = (thoughtTag thought).tail := by
    rw [List.map_take, hcontent, ← List.length_tail, List.take_left]
  change '<' ∉ (content.take ((thoughtTag thought).length - 1)).map Char.toLower
  rwa [htake]

/-- A tag ahead is left out. -/
theorem TagAhead.labelled (h : TagAhead thought content) : thoughtScanner.labelled thought content =
    thoughtScanner.labelled (!thought) (content.drop (thoughtTag thought).length) :=
  thoughtScanner_separated.labelled_tag (tagAt_ahead h)

/-- In the other mode it is text. -/
theorem TagAhead.labelled_other (h : TagAhead thought content) : thoughtScanner.labelled (!thought) content =
    ((content.take (thoughtTag thought).length).map fun c => (!thought, c)) ++
      thoughtScanner.labelled (!thought) (content.drop (thoughtTag thought).length) := by
  cases content with
  | nil =>
    have hlen := h.length_le
    have hpos := thoughtTag_pos thought
    rw [List.length_nil] at hlen
    omega
  | cons c content =>
    obtain ⟨n, hn⟩ : ∃ n, (thoughtTag thought).length = n + 1 := Nat.exists_eq_succ_of_ne_zero (thoughtTag_pos thought).ne'
    have hunmarked := h.unmarked
    rw [hn, Nat.add_sub_cancel] at hunmarked
    rw [thoughtScanner_separated.labelled_cons (tagAt_clear h.other), hn, List.take_succ_cons, List.drop_succ_cons,
      List.map_cons, List.cons_append]
    conv_lhs => rw [← List.take_append_drop n content, thoughtScanner_separated.labelled_unmarked hunmarked]

theorem labelled_clear {c : Char} (h : ¬ TagAhead thought (c :: content)) :
    thoughtScanner.labelled thought (c :: content) = (thought, c) :: thoughtScanner.labelled thought content :=
  thoughtScanner_separated.labelled_cons (tagAt_clear h)

end

/-! ## How many characters are visible -/

/-- As many are visible where no thought is open as where one is. -/
theorem visibleFrom_true_length (content : List Char) :
    (visibleFrom true content).length ≤ (visibleFrom false content).length := by
  induction hn : content.length using Nat.strongRecOn generalizing content with
  | _ n ih =>
    cases content with
    | nil => exact le_rfl
    | cons c content =>
      by_cases hopen : TagAhead false (c :: content)
      · have hvisible : visibleFrom false (c :: content) =
            visibleFrom true ((c :: content).drop (thoughtTag false).length) := by
          rw [visibleFrom, hopen.labelled]
          rfl
        have hthought : visibleFrom true (c :: content) =
            visibleFrom true ((c :: content).drop (thoughtTag false).length) := by
          have hskip := hopen.labelled_other
          rw [Bool.not_false] at hskip
          rw [visibleFrom, hskip, inMode_append, inMode_map]
          rfl
        rw [hvisible, hthought]
      by_cases hclose : TagAhead true (c :: content)
      · have hthought : visibleFrom true (c :: content) =
            visibleFrom false ((c :: content).drop (thoughtTag true).length) := by
          rw [visibleFrom, hclose.labelled]
          rfl
        have hvisible : visibleFrom false (c :: content) = (c :: content).take (thoughtTag true).length ++
            visibleFrom false ((c :: content).drop (thoughtTag true).length) := by
          have hskip := hclose.labelled_other
          rw [Bool.not_true] at hskip
          rw [visibleFrom, hskip, inMode_append, inMode_map]
          rfl
        rw [hvisible, hthought, List.length_append]
        exact Nat.le_add_left _ _
      · have hrest := ih content.length (by rw [← hn]; exact Nat.lt_succ_self _) content rfl
        rw [visibleFrom, visibleFrom, labelled_clear hopen, labelled_clear hclose]
        simp only [inMode_cons, Bool.true_eq_false, if_false, if_true, List.nil_append, List.singleton_append]
        exact hrest.trans (Nat.le_succ _)

/-- Characters without the mark are as visible as what comes after them. -/
theorem visibleFrom_drop_length {content : List Char} {n : Nat}
    (h : '<' ∉ (content.take n).map thoughtScanner.norm) :
    (visibleFrom false (content.drop n)).length ≤ (visibleFrom false content).length := by
  conv_rhs => rw [← List.take_append_drop n content, visibleFrom, thoughtScanner_separated.labelled_unmarked h]
  rw [inMode_append, List.length_append]
  exact Nat.le_add_left _ _

/-- A tag takes characters from a part that it begins in. -/
theorem visibleFrom_tag {thought : Bool} {c : Char} {raw parsed : List Char}
    (h : TagAhead thought (c :: (raw ++ parsed)))
    (hshorter : ∀ n thought, 0 < n → (visibleFrom thought ((c :: raw).drop n ++ parsed)).length ≤
      ((c :: raw).drop n).length + (visibleFrom false parsed).length) :
    (visibleFrom thought (c :: (raw ++ parsed))).length < (c :: raw).length + (visibleFrom false parsed).length := by
  have hpos := thoughtTag_pos thought
  have hvisible : visibleFrom thought (c :: (raw ++ parsed)) =
      visibleFrom (!thought) ((c :: raw ++ parsed).drop (thoughtTag thought).length) := by
    rw [visibleFrom, h.labelled]
    rfl
  rw [hvisible]
  rcases le_total (thoughtTag thought).length (c :: raw).length with hle | hle
  · have hrest := hshorter _ (!thought) hpos
    rw [List.length_drop] at hrest
    rw [List.drop_append_of_le_length hle]
    omega
  · -- The tag goes on in the other part.
    have hunmarked := TagAhead.unmarked h
    have htake : (raw ++ parsed).take ((thoughtTag thought).length - 1) =
        raw ++ parsed.take ((thoughtTag thought).length - (c :: raw).length) := by
      rw [List.length_cons] at hle ⊢
      rw [List.take_append, List.take_of_length_le (by omega)]
      congr 2
      omega
    rw [htake, List.map_append, List.mem_append, not_or] at hunmarked
    have hrest := visibleFrom_drop_length hunmarked.2
    have hmode : (visibleFrom (!thought) (parsed.drop ((thoughtTag thought).length - (c :: raw).length))).length ≤
        (visibleFrom false (parsed.drop ((thoughtTag thought).length - (c :: raw).length))).length := by
      cases thought
      · exact visibleFrom_true_length _
      · exact le_rfl
    have hpos : 0 < (c :: raw).length := Nat.succ_pos _
    rw [List.drop_append, List.drop_of_length_le hle, List.nil_append]
    omega

/-- **A content whose first part is not parsed has at least as many visible characters.** -/
theorem visibleFrom_append_length (thought : Bool) (raw parsed : List Char) :
    (visibleFrom thought (raw ++ parsed)).length ≤ raw.length + (visibleFrom false parsed).length := by
  induction hn : raw.length using Nat.strongRecOn generalizing raw thought with
  | _ n ih =>
    subst hn
    cases raw with
    | nil =>
      rw [List.nil_append, List.length_nil, Nat.zero_add]
      cases thought
      · exact le_rfl
      · exact visibleFrom_true_length parsed
    | cons c raw =>
      rw [List.cons_append]
      by_cases h : TagAhead thought (c :: (raw ++ parsed))
      · refine (visibleFrom_tag h fun n thought hpos => ih _ ?_ thought _ rfl).le
        rw [List.length_drop, List.length_cons]
        omega
      · have hrest := ih raw.length (Nat.lt_succ_self _) thought raw rfl
        rw [visibleFrom, labelled_clear h, inMode_cons, List.length_append, List.length_cons]
        have hhead : (if (thought, c).1 = false then [(thought, c).2] else []).length ≤ 1 := by split <;> simp
        have htail : (inMode false (thoughtScanner.labelled thought (raw ++ parsed))).length ≤
            raw.length + (visibleFrom false parsed).length := hrest
        omega

/-- **It has more, if a tag begins in that part.** -/
theorem visibleFrom_lt {raw parsed : List Char} (h : ¬ thoughtScanner.ClearTo false raw.length (raw ++ parsed)) :
    (visibleFrom false (raw ++ parsed)).length < raw.length + (visibleFrom false parsed).length := by
  induction raw with
  | nil => exact absurd (fun _ _ => Nat.zero_le _) h
  | cons c raw ih =>
    rw [List.cons_append] at h ⊢
    by_cases htag : TagAhead false (c :: (raw ++ parsed))
    · exact visibleFrom_tag htag fun n thought _ => visibleFrom_append_length thought _ parsed
    · have hrest : ¬ thoughtScanner.ClearTo false raw.length (raw ++ parsed) := by
        intro hclear
        refine h fun r hr => ?_
        rw [findTag, tagAt_clear htag] at hr
        obtain ⟨r', hr', rfl⟩ := Option.map_eq_some_iff.1 hr
        exact Nat.succ_le_succ (hclear r' hr')
      have hlt := ih hrest
      rw [visibleFrom, labelled_clear htag, inMode_cons, List.length_append, List.length_cons]
      have htail : (inMode false (thoughtScanner.labelled false (raw ++ parsed))).length <
          raw.length + (visibleFrom false parsed).length := hlt
      rw [if_pos rfl, List.length_singleton]
      omega

/-! ## Contents without a tag -/

section
variable {raw parsed content : List Char}

/-- What comes before the first tag is visible. -/
theorem visibleFrom_clear (h : thoughtScanner.ClearTo false raw.length (raw ++ parsed)) :
    visibleFrom false (raw ++ parsed) = raw ++ visibleFrom false parsed := by
  rw [visibleFrom, thoughtScanner_separated.labelled_clear h, inMode_append, inMode_map]
  rfl

theorem thoughtsFrom_clear (h : thoughtScanner.ClearTo false raw.length (raw ++ parsed)) :
    thoughtsFrom false (raw ++ parsed) = thoughtsFrom false parsed := by
  rw [thoughtsFrom, thoughtScanner_separated.labelled_clear h, inMode_append, inMode_map]
  rfl

/-- **A content is visible as it is exactly when it has no tag.** -/
theorem visibleFrom_eq_self :
    visibleFrom false content = content ↔ thoughtScanner.ClearTo false content.length content := by
  constructor
  · intro h
    by_contra hclear
    have hlt : (visibleFrom false (content ++ [])).length < content.length + (visibleFrom false []).length :=
      visibleFrom_lt (by rwa [List.append_nil])
    rw [List.append_nil, h] at hlt
    exact absurd hlt (Nat.lt_irrefl _)
  · intro h
    have hclear : thoughtScanner.ClearTo false content.length (content ++ []) := by rwa [List.append_nil]
    have hvisible := visibleFrom_clear hclear
    rw [List.append_nil] at hvisible
    rw [hvisible]
    exact List.append_nil content

end

/-! ## Contents in one piece -/

/-- The visible text that is handed on when a content comes in one piece. -/
def shownText (content : List Char) : List Char := (ThoughtStream.default.push content none).2.1

def shownThoughts (content : List Char) : List Char := (ThoughtStream.default.push content none).2.2

/-- The visible text that is held back then. -/
def tailText (content : List Char) : List Char := (ThoughtStream.default.push content none).1.finish.2.1

def tailThoughts (content : List Char) : List Char := (ThoughtStream.default.push content none).1.finish.2.2

section
variable (content : List Char)

theorem labelled_feed : thoughtScanner.labelled false content = (ThoughtStream.default.feed content).2 ++
    (ThoughtStream.default.feed content).1.pending.map fun c => ((ThoughtStream.default.feed content).1.thought, c) := rfl

theorem visibleFrom_feed : visibleFrom false content = inMode false (ThoughtStream.default.feed content).2 ++
    (ThoughtStream.default.feed content).1.finish.2.1 := by
  rw [visibleFrom, labelled_feed, inMode_append, inMode_map, ThoughtStream.finish]
  cases (ThoughtStream.default.feed content).1.thought <;> rfl

theorem thoughtsFrom_feed : thoughtsFrom false content = inMode true (ThoughtStream.default.feed content).2 ++
    (ThoughtStream.default.feed content).1.finish.2.2 := by
  rw [thoughtsFrom, labelled_feed, inMode_append, inMode_map, ThoughtStream.finish]
  cases (ThoughtStream.default.feed content).1.thought <;> rfl

theorem shownText_append_tail : shownText content ++ tailText content = visibleFrom false content := by
  rw [visibleFrom_feed, shownText, tailText, ThoughtStream.push_feed]

theorem shownThoughts_append_tail : shownThoughts content ++ tailThoughts content = thoughtsFrom false content := by
  rw [thoughtsFrom_feed, shownThoughts, tailThoughts, ThoughtStream.push_feed]

end

/-- Lower case makes letters only. -/
theorem eq_of_toLower {c mark : Char} (hmark : mark.val.toNat < 97) (h : c.toLower = mark) : c = mark := by
  unfold Char.toLower at h
  split at h
  · rename_i hupper
    have hval : c.val + ('a'.val - 'A'.val) = mark.val := congrArg Char.val h
    have hnat := congrArg UInt32.toNat hval
    rw [UInt32.toNat_add] at hnat
    have hlow : 65 ≤ c.val.toNat := hupper.1
    have hhigh : c.val.toNat ≤ 90 := hupper.2
    have hcase : ('a'.val - 'A'.val).toNat = 32 := rfl
    omega
  · exact h

theorem mem_mark {text : List Char} (h : '<' ∈ text.map thoughtScanner.norm) : '<' ∈ text := by
  obtain ⟨c, hc, hlower⟩ := List.mem_map.1 h
  rwa [← eq_of_toLower (by decide) hlower]

/-- Visible text that is held back has the mark of a tag. -/
theorem tailText_mark {content : List Char} (h : tailText content ≠ []) : '<' ∈ tailText content := by
  have htail : tailText content = if (ThoughtStream.default.feed content).1.thought then []
      else (ThoughtStream.default.feed content).1.pending := by
    rw [tailText, ThoughtStream.push_feed, ThoughtStream.finish]
    simp only
    split <;> rfl
  rw [htail] at h ⊢
  split at h
  · exact absurd rfl h
  · rename_i hthought
    rw [if_neg hthought]
    exact mem_mark (thoughtScanner_separated.pending_mark false content h)

/-- A blank text has nothing but blanks. -/
theorem blank_of_trim {text : List Char} (h : trim (String.ofList text) = "") : ∀ c ∈ text, isWhitespace c = true := by
  have hnil : (((text.dropWhile isWhitespace).reverse.dropWhile isWhitespace).reverse) = [] := by
    have hlist := congrArg String.toList h
    rwa [trim, String.toList_ofList, String.toList_ofList] at hlist
  have hblank : ∀ c ∈ text.dropWhile isWhitespace, isWhitespace c = true := by
    intro c hc
    exact List.dropWhile_eq_nil_iff.1 (List.reverse_eq_nil_iff.1 hnil) c (List.mem_reverse.2 hc)
  refine List.dropWhile_eq_nil_iff.1 ?_
  by_contra hne
  have hhead := List.head_dropWhile_not isWhitespace hne
  rw [hblank _ (List.head_mem hne)] at hhead
  cases hhead

/-- A text with the mark of a tag is not blank. -/
theorem trim_mark {text : List Char} (h : '<' ∈ text) : trim (String.ofList text) ≠ "" := by
  intro hblank
  have hmark := blank_of_trim hblank _ h
  cases hmark

end Aifluxon
