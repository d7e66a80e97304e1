import Aifluxon.Lib.TagScan
import Aifluxon.Providers.Reading

/-!
# The Gemini contract

`merge_extra_content` and `ThoughtStream` of `gemini/mod.rs`.

* `mergeExtraContent` : an extension object put over another;
* `ThoughtStream` : content whose thoughts stand between `<thought>` and `</thought>`;
* `ThoughtStream.feed`, `feed_splits`, `push_feed` : the pieces of a content do not matter to its thoughts.
-/

namespace Aifluxon

open TagScan

mutual

/-- `merge_extra_content`: objects are merged, all else is replaced. -/
def mergeExtraContent (into : Value) : (source : Value) → Value
  | .object source => match into with
    | .object target => .object (mergeEntries target source)
    | _ => .object source
  | .null => .null
  | .bool b => .bool b
  | .number n => .number n
  | .string s => .string s
  | .array items => .array items

def mergeEntries (target : List (String × Value)) : List (String × Value) → List (String × Value)
  | [] => target
  | (key, value) :: source =>
    mergeEntries (insertEntry key
      (if value.isObject then mergeExtraContent ((target.lookup key).getD (.object [])) value else value) target)
      source

end

/-! ## Thoughts -/

/-- Whether a thought is open tells which tag is looked for. -/
def thoughtScanner : Scanner Char Bool where
  norm := Char.toLower
  tags
    | false => [("<thought>".toList, true)]
    | true => [("</thought>".toList, false)]

theorem thoughtScanner_separated : thoughtScanner.Separated '<' where
  head mode tag htag := by
    cases mode <;> obtain rfl := List.mem_singleton.1 htag
    · exact ⟨"thought>".toList, rfl, by decide⟩
    · exact ⟨"/thought>".toList, rfl, by decide⟩
  prefixFree mode tag htag tag' htag' _ := by
    cases mode <;> rw [List.mem_singleton.1 htag, List.mem_singleton.1 htag']

/-- The tokens of segments that stand in a mode. -/
def textIn {α σ : Type} [DecidableEq σ] (mode : σ) (segments : List (σ × List α)) : List α :=
  segments.flatMap fun s => if s.1 = mode then s.2 else []

structure ThoughtStream where
  pending : List Char
  thought : Bool
  deriving DecidableEq

namespace ThoughtStream

def default : ThoughtStream := ⟨[], false⟩

/-- The visible text and the reasoning of a piece. A mark says that the piece is a thought, if no tag ends in it. -/
def push (s : ThoughtStream) (text : List Char) (markedThought : Option Bool) :
    ThoughtStream × List Char × List Char :=
  let r := thoughtScanner.push ⟨s.thought, s.pending⟩ text
  let segments := match markedThought, r.2 with
    | some true, [(_, piece)] => [(true, piece)]
    | _, segments => segments
  (⟨r.1.pending, r.1.mode⟩, textIn false segments, textIn true segments)

/-- What is held back at the end. -/
def finish (s : ThoughtStream) : ThoughtStream × List Char × List Char :=
  (⟨[], s.thought⟩, if s.thought then ([], s.pending) else (s.pending, []))

/-- A piece without a mark, with the characters that are handed on; a thought is open or not at each. -/
def feed (s : ThoughtStream) (text : List Char) : ThoughtStream × List (Bool × Char) :=
  let r := thoughtScanner.pushLabels ⟨s.thought, s.pending⟩ text
  (⟨r.1.pending, r.1.mode⟩, r.2)

/-- **The pieces of a content do not matter to its thoughts.** -/
theorem feed_splits : Incremental.Splits feed := by
  intro s xs ys
  have hsplits := thoughtScanner_separated.push_splits ⟨s.thought, s.pending⟩ xs ys
  simp only [feed, hsplits]

theorem textIn_labels {α σ : Type} [DecidableEq σ] (mode : σ) (segments : List (σ × List α)) :
    textIn mode segments = inMode mode (labels segments) := by
  induction segments with
  | nil => rfl
  | cons segment segments ih =>
    have hlabels : labels (segment :: segments) = (segment.2.map fun a => (segment.1, a)) ++ labels segments := rfl
    rw [hlabels, inMode_append, inMode_map, ← ih]
    rfl

theorem push_feed (s : ThoughtStream) (text : List Char) :
    s.push text none = ((s.feed text).1, inMode false (s.feed text).2, inMode true (s.feed text).2) := by
  simp only [push, feed, Scanner.pushLabels, textIn_labels]

@[simp] theorem feed_nil (s : ThoughtStream) (hs : s = .default) : s.feed [] = (s, []) := by
  subst hs
  rfl

end ThoughtStream

end Aifluxon
