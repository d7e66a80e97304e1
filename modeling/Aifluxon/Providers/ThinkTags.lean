import Aifluxon.Lib.TagReading
import Aifluxon.Providers.StreamedText

/-!
# Thoughts between tags

The filter of Kimi, `ThinkTagFilter` of `kimi/mod.rs`.

* `ThinkTagFilter.parts` : the parts of a text that comes in deltas, to its end;
* `ThinkTagFilter.visiblePart`, `.reasoningPart` : what of them is visible, and what is a thought;
* `parts_labels` : they are the characters of the whole text, each where the tags before it put it;
* `think_tags_split` : the deltas do not matter, and the two parts are the text without its tags.
-/

namespace Aifluxon

open TagScan

namespace ThinkTagFilter

/-- The parts of a text that comes in deltas, to its end. -/
def parts (deltas : List (List Char)) : List (ThinkMode × List Char) :=
  (Incremental.pushAll pushDelta new deltas).2 ++ (Incremental.pushAll pushDelta new deltas).1.finish

/-- The concatenation of the visible parts. -/
def visiblePart (parts : List (ThinkMode × List Char)) : List Char :=
  (parts.filter fun part => part.1 = .visible).flatMap Prod.snd

/-- The concatenation of the parts that are reasoning. -/
def reasoningPart (parts : List (ThinkMode × List Char)) : List Char :=
  (parts.filter fun part => part.1 ≠ .visible).flatMap Prod.snd

theorem filter_labels (p : ThinkMode → Bool) (parts : List (ThinkMode × List Char)) :
    ((labels parts).filter fun l => p l.1).map Prod.snd = (parts.filter fun part => p part.1).flatMap Prod.snd := by
  induction parts with
  | nil => rfl
  | cons part parts ih =>
    obtain ⟨mode, text⟩ := part
    have hcons : labels ((mode, text) :: parts) = (text.map fun c => (mode, c)) ++ labels parts := rfl
    have htext : (text.map fun c => (mode, c)).filter (fun l => p l.1) =
        if p mode then text.map fun c => (mode, c) else [] := by
      cases h : p mode <;> simp [List.filter_map, Function.comp_def, h]
    rw [hcons, List.filter_append, List.map_append, ih, htext, List.filter_cons]
    cases p mode with
    | true => simp [Function.comp_def]
    | false => simp

theorem visiblePart_labels (parts : List (ThinkMode × List Char)) :
    visiblePart parts = ((labels parts).filter fun l => l.1 = .visible).map Prod.snd :=
  (filter_labels (fun mode => mode = .visible) parts).symm

theorem reasoningPart_labels (parts : List (ThinkMode × List Char)) :
    reasoningPart parts = ((labels parts).filter fun l => l.1 ≠ .visible).map Prod.snd :=
  (filter_labels (fun mode => mode ≠ .visible) parts).symm

theorem textOf_parts (parts : List (ThinkMode × List Char)) : textOf (emitParts parts) = visiblePart parts := by
  rw [textOf_emitParts, visibleText, visiblePart_labels]

theorem emitParts_append (xs ys : List (ThinkMode × List Char)) :
    emitParts (xs ++ ys) = emitParts xs ++ emitParts ys := List.flatMap_append

theorem reasoningOf_parts (parts : List (ThinkMode × List Char)) :
    reasoningOf (emitParts parts) = reasoningPart parts := by
  induction parts with
  | nil => rfl
  | cons part parts ih =>
    obtain ⟨mode, text⟩ := part
    rw [← List.singleton_append, emitParts_append, reasoningOf_append, ih]
    cases mode <;> simp [emitParts, reasoningPart]

/-- **The parts are the characters of the whole text**, each where the tags before it put it. -/
theorem parts_labels (deltas : List (List Char)) :
    labels (parts deltas) = thinkScanner.labelled .visible deltas.flatten := by
  have hwhole := thinkScanner_separated.pushAll_labels .visible deltas
  have hfinish (f : ThinkTagFilter) : labels f.finish = f.pending.map fun c => (f.mode, c) := by
    simp [finish, labels]
  rw [hwhole, parts]
  simp only [labels, List.flatMap_append] at hfinish ⊢
  rw [hfinish]
  rfl

/-- The text of a turn has the parts of its text in one delta. -/
theorem applyThinkTagsToTurn_parts (turn : ModelTurn) :
    (applyThinkTagsToTurn turn).text = String.ofList (visiblePart (parts [turn.text.toList])) ∧
      (applyThinkTagsToTurn turn).reasoning =
        turn.reasoning ++ String.ofList (reasoningPart (parts [turn.text.toList])) := by
  have hparts : parts [turn.text.toList] = (new.pushDelta turn.text.toList).2 ++ (new.pushDelta turn.text.toList).1.finish := by
    simp only [parts, Incremental.pushAll, List.append_nil]
  rw [hparts, ← textOf_parts, ← reasoningOf_parts]
  exact ⟨rfl, rfl⟩

/-- **How a text is cut into deltas does not matter**: the two parts are those of the turn with the whole text, and
make up the text without its tags. -/
theorem think_tags_split (deltas : List (List Char)) (turn : ModelTurn) :
    let whole := applyThinkTagsToTurn { turn with text := String.ofList deltas.flatten }
    whole.text = String.ofList (visiblePart (parts deltas)) ∧
      whole.reasoning = turn.reasoning ++ String.ofList (reasoningPart (parts deltas)) ∧
      ∃ kept, thinkScanner.Reads .visible deltas.flatten kept ∧
        Merge (visiblePart (parts deltas)) (reasoningPart (parts deltas)) (kept.map Prod.snd) := by
  have hone : labels (parts [deltas.flatten]) = labels (parts deltas) := by
    rw [parts_labels, parts_labels, List.flatten_singleton]
  obtain ⟨htext, hreasoning⟩ := applyThinkTagsToTurn_parts { turn with text := String.ofList deltas.flatten }
  simp only [String.toList_ofList] at htext hreasoning
  refine ⟨?_, ?_, thinkScanner.labelled .visible deltas.flatten, thinkScanner_separated.reads_iff.2 rfl, ?_⟩
  · rw [htext, visiblePart_labels, hone, ← visiblePart_labels]
  · rw [hreasoning, reasoningPart_labels, hone, ← reasoningPart_labels]
  · have hmerge := Merge.labelled (fun mode => decide (mode = ThinkMode.visible)) (thinkScanner.labelled .visible deltas.flatten)
    rw [visiblePart_labels, reasoningPart_labels, parts_labels]
    simpa using hmerge

/-- Both opening tags, in pieces and in capitals, each with the tag that closes it, a tag that closes nothing, and one that
is not completed. -/
theorem think_tags_split_spelled :
    (applyThinkTagsToTurn ⟨"<think>a</THINK>b<Thinking>c</think>d</thinking>e<th", "", [], none, .stop, .null⟩).text =
        "be<th" ∧
      (applyThinkTagsToTurn ⟨"<think>a</THINK>b<Thinking>c</think>d</thinking>e<th", "", [], none, .stop, .null⟩).reasoning =
        "ac</think>d" ∧
      ∃ kept, thinkScanner.Reads .visible "<think>a</THINK>b<Thinking>c</think>d</thinking>e<th".toList kept ∧
        kept.map Prod.snd = "abc</think>de<th".toList := by
  have hdeltas : ["<thi".toList, "nk>a</TH".toList, "INK>b<Think".toList, "ing>c</think>d</thinking>e<th".toList].flatten =
      "<think>a</THINK>b<Thinking>c</think>d</thinking>e<th".toList := by decide
  obtain ⟨htext, hreasoning, kept, hreads, -⟩ := think_tags_split
    ["<thi".toList, "nk>a</TH".toList, "INK>b<Think".toList, "ing>c</think>d</thinking>e<th".toList]
    ⟨"", "", [], none, .stop, .null⟩
  rw [hdeltas] at hreads
  simp only [hdeltas, String.ofList_toList] at htext hreasoning
  refine ⟨htext.trans (by decide), hreasoning.trans (by decide), kept, hreads, ?_⟩
  rw [thinkScanner_separated.reads_iff.1 hreads]
  decide

end ThinkTagFilter

end Aifluxon
