import Aifluxon.Lib.TagReading
import Aifluxon.Providers.Thoughts

/-!
# Chunks that are marked as thoughts

`ThoughtStream` of `gemini/mod.rs`, with marks on its chunks.

* `ThoughtStream.run` : the visible text and the reasoning of some chunks, to the end;
* `ThoughtStream.HeldBack`, `ThoughtStream.LetGo` : how long a character waits, by the text alone;
* `ThoughtStream.Judged` : where a character goes that waits for no other mark than its own;
* `pending_held`, `not_held_of_sent` : what is held back, and what is handed on, by the text alone;
* `sent_run` : where the characters of all chunks are sent;
* `marked_thoughts` : no character is lost or sent twice, and each is sent where it is judged to go.
-/

namespace Aifluxon

open TagScan

namespace ThoughtStream

/-- A chunk of content, and its mark. -/
abbrev Chunk := List Char × Option Bool

/-- The visible text and the reasoning of chunks, to the end. -/
def run (s : ThoughtStream) : List Chunk → List Char × List Char
  | [] => s.finish.2
  | chunk :: chunks =>
    let r := s.push chunk.1 chunk.2
    let t := run r.1 chunks
    (r.2.1 ++ t.1, r.2.2 ++ t.2)

/-- The text of some chunks. -/
def contentOf (chunks : List Chunk) : List Char := chunks.flatMap Prod.fst

/-- The text of the first `k` chunks. -/
def contentTo (chunks : List Chunk) (k : Nat) : List Char := contentOf (chunks.take k)

/-- Whether the chunk at `k` is marked; the end of the content, after all chunks, is not. -/
def marked (chunks : List Chunk) (k : Nat) : Bool := chunks[k]?.any fun chunk => chunk.2 = some true

/-- How many characters of a text belong to its delimiters. -/
def delimited (text : List Char) : Nat := text.length - (thoughtScanner.labelled false text).length

section
variable (chunks : List Chunk) (place own k : Nat)

/-- A delimiter ends in the chunk at `k`. -/
def Completes : Prop := delimited (contentTo chunks k) < delimited (contentTo chunks (k + 1))

/-- A delimiter ends in the chunk at `own`, before the character at a place. -/
def CompletedBefore : Prop := delimited (contentTo chunks own) < delimited ((contentOf chunks).take place)

/-- The character at a place is one of the chunk at `own`. -/
def InChunk : Prop := (contentTo chunks own).length ≤ place ∧ place < (contentTo chunks (own + 1)).length

/-- When `k` chunks have come, the character at a place waits: an end of the text that the character is in may begin a
delimiter. -/
def HeldBack : Prop := ∃ n ≤ place, ((contentTo chunks k).drop n).map Char.toLower <+: "<thought>".toList

/-- The chunk at `k` lets a character of the chunk at `own` go: it is the first one at whose end the character does not
wait any more. After all chunks, the end of the content does. -/
structure LetGo : Prop where
  own_le : own ≤ k
  waits : ∀ i, own ≤ i → i < k → HeldBack chunks place (i + 1)
  goes : k = chunks.length ∨ k < chunks.length ∧ ¬ HeldBack chunks place (k + 1)

/-- Whether a character of the chunk at `own` that the chunk at `k` lets go is part of a thought, by their mark. -/
structure Judged (thought : Bool) : Prop where
  plain : marked chunks k = false → thought = false
  summary : marked chunks k = true → ¬ Completes chunks k → thought = true
  answer : marked chunks k = true → Completes chunks k → CompletedBefore chunks place own → thought = false

end

/-- A character outside of the delimiters is sent: to reasoning between them, and else by the mark of its chunk, if this
is the mark of the chunk that lets it go. -/
structure Sent (chunks : List Chunk) (kept : Bool × Char × Nat) (sent : Bool × Char) : Prop where
  char : sent.2 = kept.2.1
  between : kept.1 = true → sent.1 = true
  outside : kept.1 = false → ∃ own k, InChunk chunks kept.2.2 own ∧ LetGo chunks kept.2.2 own k ∧
    (marked chunks own = marked chunks k → Judged chunks kept.2.2 own k sent.1)

/-- The scanner of characters with their places. -/
def placedScanner : Scanner (Char × Nat) Bool := thoughtScanner.decorate 0

theorem thoughtScanner_closed : thoughtScanner.Closed '>' := by
  intro mode tag htag
  cases mode <;> obtain rfl := List.mem_singleton.1 htag
  · exact ⟨"<thought".toList, rfl, by decide⟩
  · exact ⟨"</thought".toList, rfl, by decide⟩

theorem placedScanner_separated : placedScanner.Separated ('<', 0) := thoughtScanner_separated.decorate 0

theorem placedScanner_closed : placedScanner.Closed ('>', 0) := thoughtScanner_closed.decorate 0

/-! ## Chunks -/

/-- Whether a chunk counts as marked: no delimiter ends in it. -/
def countsAsMarked (s : ThoughtStream) (chunk : Chunk) : Bool :=
  chunk.2 = some true ∧ findTag thoughtScanner.norm (thoughtScanner.tags s.thought) (s.pending ++ chunk.1) = none

/-- A chunk is sent as its segments, unless it counts as marked. -/
theorem push_segments (s : ThoughtStream) (chunk : Chunk) :
    s.push chunk.1 chunk.2 =
      (⟨(thoughtScanner.push ⟨s.thought, s.pending⟩ chunk.1).1.pending,
        (thoughtScanner.push ⟨s.thought, s.pending⟩ chunk.1).1.mode⟩,
        let labelled := (labels (thoughtScanner.push ⟨s.thought, s.pending⟩ chunk.1).2).map fun l =>
          (l.1 || s.countsAsMarked chunk, l.2)
        (inMode false labelled, inMode true labelled)) := by
  have hkeep (labelled : List (Bool × Char)) : labelled.map (fun l => (l.1 || false, l.2)) = labelled := by simp
  cases hfind : findTag thoughtScanner.norm (thoughtScanner.tags s.thought) (s.pending ++ chunk.1) with
  | none =>
    have hone : (thoughtScanner.push ⟨s.thought, s.pending⟩ chunk.1).2 = [(s.thought, _)] :=
      congrArg Prod.snd (Scanner.segments_none hfind)
    by_cases hmark : chunk.2 = some true
    · have hcounts : s.countsAsMarked chunk = true := decide_eq_true ⟨hmark, hfind⟩
      simp only [push, hmark, hone, hcounts, textIn_labels, Bool.or_true]
      congr 2
      all_goals simp [labels, Function.comp_def]
    · have hcounts : s.countsAsMarked chunk = false := decide_eq_false fun h => hmark h.1
      simp only [push, hcounts, hkeep, textIn_labels]
      split
      · rename_i hsome _
        exact absurd hsome hmark
      · rfl
  | some r =>
    obtain ⟨before, mode', rest⟩ := r
    have hmany : (thoughtScanner.push ⟨s.thought, s.pending⟩ chunk.1).2 =
        (s.thought, before) :: (thoughtScanner.segments mode' rest).2 :=
      congrArg Prod.snd (thoughtScanner_separated.segments_some hfind)
    have hcounts : s.countsAsMarked chunk = false := decide_eq_false fun h => by simp [hfind] at h
    simp only [push, hcounts, hkeep, textIn_labels]
    split
    · rename_i hone
      rw [hmany] at hone
      exact absurd (List.cons.inj hone).2 (thoughtScanner.segments_ne_nil mode' rest)
    · rfl

/-! ## Places in the text -/

theorem contentOf_append (chunks more : List Chunk) : contentOf (chunks ++ more) = contentOf chunks ++ contentOf more :=
  List.flatMap_append ..

section
variable {read : List Chunk} {chunk : Chunk} {rest : List Chunk}

theorem contentTo_read : contentTo (read ++ rest) read.length = contentOf read := by
  rw [contentTo, List.take_left]

theorem contentTo_next : contentTo (read ++ chunk :: rest) (read.length + 1) = contentOf read ++ chunk.1 := by
  have hsplit : read ++ chunk :: rest = (read ++ [chunk]) ++ rest := by simp
  have hlen : read.length + 1 = (read ++ [chunk]).length := by simp
  rw [contentTo, hsplit, hlen, List.take_left, contentOf_append]
  simp [contentOf]

theorem marked_next : marked (read ++ chunk :: rest) read.length = decide (chunk.2 = some true) := by
  rw [marked, List.getElem?_append_right (le_refl _), Nat.sub_self]
  rfl

end

/-- The state of the scanner after a text. -/
def placedAt (text : List Char) : Scanning (Char × Nat) Bool := (placedScanner.push ⟨false, []⟩ text.zipIdx).1

/-- A stream after a text. -/
def After (text : List Char) (s : ThoughtStream) : Prop :=
  (thoughtScanner.push ⟨false, []⟩ text).1 = ⟨s.thought, s.pending⟩

section
variable {text : List Char} {s : ThoughtStream} {x : Char × Nat}

theorem push_placed (s : Scanning (Char × Nat) Bool) (placed : List (Char × Nat)) :
    thoughtScanner.push ⟨s.mode, s.pending.map Prod.fst⟩ (placed.map Prod.fst) =
      (⟨(placedScanner.push s placed).1.mode, (placedScanner.push s placed).1.pending.map Prod.fst⟩,
        Scanner.plain (placedScanner.push s placed).2) := Scanner.push_decorate 0 s placed

theorem After.placed (h : After text s) :
    (placedAt text).mode = s.thought ∧ (placedAt text).pending.map Prod.fst = s.pending := by
  have hplain := push_placed ⟨false, []⟩ text.zipIdx
  rw [List.zipIdx_map_fst] at hplain
  have hstate : (⟨(placedAt text).mode, (placedAt text).pending.map Prod.fst⟩ : Scanning Char Bool) =
      ⟨s.thought, s.pending⟩ := by
    rw [← h]
    exact (congrArg Prod.fst hplain).symm
  exact ⟨congrArg Scanning.mode hstate, congrArg Scanning.pending hstate⟩

/-- A text may begin an opening delimiter. -/
theorem mayBegin_opening (text : List Char) : mayBegin thoughtScanner.norm (thoughtScanner.tags false) text = true ↔
    text.map Char.toLower <+: "<thought>".toList := by
  rw [mayBegin_iff]
  constructor
  · rintro ⟨tag, htag, hstarts⟩
    obtain rfl := List.mem_singleton.1 htag
    exact hstarts
  · intro hstarts
    exact ⟨_, List.mem_singleton_self _, hstarts⟩

/-- **What is held back may begin a delimiter.** -/
theorem pending_held (hmode : (placedAt text).mode = false) (hx : x ∈ (placedAt text).pending) :
    ∃ n ≤ x.2, (text.drop n).map Char.toLower <+: "<thought>".toList := by
  obtain ⟨n, hn, hbegin⟩ := thoughtScanner_separated.pending_place hx
  refine ⟨n, hn, ?_⟩
  change mayBegin thoughtScanner.norm (thoughtScanner.tags (placedAt text).mode) (text.drop n) = true at hbegin
  rwa [hmode, mayBegin_opening] at hbegin

/-- **What is handed on does not wait**, in a text that ends there. -/
theorem not_held_of_sent (hx : (false, x) ∈ labels (placedScanner.push ⟨false, []⟩ text.zipIdx).2) :
    ¬ ∃ n ≤ x.2, (text.drop n).map Char.toLower <+: "<thought>".toList := by
  rintro ⟨n, hn, hstarts⟩
  have hnone := thoughtScanner_separated.handed_on_place thoughtScanner_closed hx hn
  rw [(mayBegin_opening _).2 hstarts] at hnone
  cases hnone

end

/-! ## Delimiters in a chunk -/

section
variable {text more : List Char} {s : ThoughtStream}

/-- A delimiter ends in a piece exactly when one is found. -/
theorem delimited_lt (h : After text s) : delimited text < delimited (text ++ more) ↔
    findTag thoughtScanner.norm (thoughtScanner.tags s.thought) (s.pending ++ more) ≠ none := by
  have hwhole : thoughtScanner.labelled false (text ++ more) = labels (thoughtScanner.push ⟨false, []⟩ text).2 ++
      thoughtScanner.labelled s.thought (s.pending ++ more) := by
    have happend := thoughtScanner_separated.labelledFrom_append ⟨false, []⟩ text more
    rw [h] at happend
    exact happend
  have htext : thoughtScanner.labelled false text = labels (thoughtScanner.push ⟨false, []⟩ text).2 ++
      s.pending.map fun c => (s.thought, c) := by
    change labels (thoughtScanner.push ⟨false, []⟩ text).2 ++
      ((thoughtScanner.push ⟨false, []⟩ text).1.pending.map fun c => ((thoughtScanner.push ⟨false, []⟩ text).1.mode, c)) = _
    rw [h]
  have hle := thoughtScanner_separated.labelled_length_le false text
  have hle' := thoughtScanner_separated.labelled_length_le false (text ++ more)
  have hrest := thoughtScanner_separated.labelled_length_le s.thought (s.pending ++ more)
  have hiff : (thoughtScanner.labelled s.thought (s.pending ++ more)).length = (s.pending ++ more).length ↔ _ :=
    thoughtScanner_separated.labelled_length_eq
  rw [ne_eq, ← hiff, delimited, delimited]
  rw [htext, List.length_append, List.length_map] at hle ⊢
  rw [hwhole, List.length_append, List.length_append] at hle' ⊢
  rw [List.length_append] at hrest ⊢
  omega

theorem After.push (h : After text s) (chunk : Chunk) : After (text ++ chunk.1) (s.push chunk.1 chunk.2).1 := by
  have hsplit := congrArg Prod.fst (thoughtScanner_separated.push_splits ⟨false, []⟩ text chunk.1)
  simp only [Scanner.pushLabels] at hsplit
  rw [After, hsplit, h, push_segments]

end

/-! ## Runs -/

section
variable {read : List Chunk} {chunk : Chunk} {rest : List Chunk}

/-- A character that waited in the first `k` chunks, since its own. -/
def WaitedTo (chunks : List Chunk) (place k : Nat) : Prop :=
  ∃ own ≤ k, InChunk chunks place own ∧ ∀ i, own ≤ i → i < k → HeldBack chunks place (i + 1)

/-- What is held back after some chunks has waited. -/
def Waiting (chunks : List Chunk) (k : Nat) : Prop :=
  (placedAt (contentTo chunks k)).mode = false → ∀ x ∈ (placedAt (contentTo chunks k)).pending, WaitedTo chunks x.2 k

/-- The characters of a chunk, with their places in the text. -/
def placed (read : List Chunk) (chunk : Chunk) : List (Char × Nat) := chunk.1.zipIdx (contentOf read).length

theorem pushLabels_placed (read : List Chunk) (chunk : Chunk) :
    placedScanner.pushLabels ⟨false, []⟩ (contentOf read ++ chunk.1).zipIdx =
      ((placedScanner.push (placedAt (contentOf read)) (placed read chunk)).1,
        labels (placedScanner.push ⟨false, []⟩ (contentOf read).zipIdx).2 ++
          labels (placedScanner.push (placedAt (contentOf read)) (placed read chunk)).2) := by
  rw [List.zipIdx_append, Nat.zero_add, placedScanner_separated.push_splits]
  rfl

theorem placedAt_next (read : List Chunk) (chunk : Chunk) : placedAt (contentOf read ++ chunk.1) =
    (placedScanner.push (placedAt (contentOf read)) (placed read chunk)).1 := by
  have hlast := congrArg Prod.fst (pushLabels_placed read chunk)
  exact hlast

/-- What comes out of a chunk, or stays, and is no thought has waited up to the chunk. -/
theorem Waiting.waited (h : Waiting (read ++ chunk :: rest) read.length) {x : Char × Nat}
    (hx : (false, x) ∈ placedScanner.labelledFrom (placedAt (contentOf read)) (placed read chunk)) :
    WaitedTo (read ++ chunk :: rest) x.2 read.length := by
  have hread : contentTo (read ++ chunk :: rest) read.length = contentOf read := contentTo_read
  have hnext : contentTo (read ++ chunk :: rest) (read.length + 1) = contentOf read ++ chunk.1 := contentTo_next
  by_cases hmem : x ∈ placed read chunk
  · -- A character of the chunk.
    obtain ⟨c, place⟩ := x
    have hlow := List.le_snd_of_mem_zipIdx hmem
    have hhigh := List.snd_lt_add_of_mem_zipIdx hmem
    refine ⟨read.length, le_refl _, ⟨by rwa [hread], ?_⟩, fun i hle hlt => absurd hle (Nat.not_le_of_lt hlt)⟩
    rw [hnext, List.length_append]
    omega
  · -- A character of an earlier one, which is held back.
    have hpending : x ∈ (placedAt (contentOf read)).pending := by
      have hfrom := placedScanner_separated.labelled_subset hx
      exact (List.mem_append.1 hfrom).resolve_right hmem
    have hbegin : mayBegin placedScanner.norm (placedScanner.tags (placedAt (contentOf read)).mode)
        (placedAt (contentOf read)).pending = true :=
      placedScanner_separated.pending_mayBegin false (contentOf read).zipIdx (List.ne_nil_of_mem hpending)
    have hmode : false = (placedAt (contentOf read)).mode :=
      placedScanner_separated.held_mode placedScanner_closed hbegin hx hmem
    rw [Waiting, hread] at h
    exact h hmode.symm x hpending

theorem Waiting.next (h : Waiting (read ++ chunk :: rest) read.length) :
    Waiting (read ++ chunk :: rest) (read.length + 1) := by
  have hnext : contentTo (read ++ chunk :: rest) (read.length + 1) = contentOf read ++ chunk.1 := contentTo_next
  rw [Waiting, hnext]
  intro hmode x hx
  have hheld := pending_held hmode hx
  rw [placedAt_next] at hmode hx
  have hfrom : (false, x) ∈ placedScanner.labelledFrom (placedAt (contentOf read)) (placed read chunk) := by
    refine List.mem_append_right _ (List.mem_map.2 ⟨x, hx, ?_⟩)
    rw [hmode]
  obtain ⟨own, hown, hin, hwaits⟩ := h.waited hfrom
  refine ⟨own, by omega, hin, fun i hle hlt => ?_⟩
  rcases Nat.lt_succ_iff_lt_or_eq.1 hlt with hlt | rfl
  · exact hwaits i hle hlt
  · rwa [HeldBack, hnext]

/-- The characters of a chunk that are sent. -/
def sentOf (s : ThoughtStream) (read : List Chunk) (chunk : Chunk) : List (Bool × Char) :=
  (labels (placedScanner.push (placedAt (contentOf read)) (placed read chunk)).2).map fun l =>
    (l.1 || s.countsAsMarked chunk, l.2.1)

/-- **The characters that a chunk lets go are sent where they are judged to go.** -/
theorem sent_chunk {s : ThoughtStream} (h : After (contentOf read) s)
    (hwaiting : Waiting (read ++ chunk :: rest) read.length) :
    (s.push chunk.1 chunk.2).2 = (inMode false (s.sentOf read chunk), inMode true (s.sentOf read chunk)) ∧
      List.Forall₂ (Sent (read ++ chunk :: rest))
        (labels (placedScanner.push (placedAt (contentOf read)) (placed read chunk)).2) (s.sentOf read chunk) := by
  have hlabels (segments : List (Bool × List (Char × Nat))) :
      labels (Scanner.plain segments) = (labels segments).map fun l => (l.1, l.2.1) := by
    simp [labels, Scanner.plain, List.flatMap_map, List.map_flatMap, Function.comp_def]
  constructor
  · have hplain := push_placed (placedAt (contentOf read)) (placed read chunk)
    rw [h.placed.1, h.placed.2, placed, List.zipIdx_map_fst] at hplain
    rw [push_segments, hplain]
    simp only [hlabels, List.map_map]
    rfl
  · rw [sentOf, List.forall₂_map_right_iff, List.forall₂_same]
    rintro ⟨mode, c, place⟩ hl
    refine ⟨rfl, fun hthought => by rw [hthought]; rfl, fun hmode => ?_⟩
    simp only at hmode
    subst hmode
    have hnext : contentTo (read ++ chunk :: rest) (read.length + 1) = contentOf read ++ chunk.1 := contentTo_next
    obtain ⟨own, hown, hin, hwaits⟩ := hwaiting.waited (List.mem_append_left _ hl)
    have hgone : ¬ HeldBack (read ++ chunk :: rest) place (read.length + 1) := by
      rw [HeldBack, hnext]
      refine not_held_of_sent (x := (c, place)) ?_
      have hall := congrArg Prod.snd (pushLabels_placed read chunk)
      simp only [Scanner.pushLabels] at hall
      rw [hall]
      exact List.mem_append_right _ hl
    have hcompletes : Completes (read ++ chunk :: rest) read.length ↔ findTag thoughtScanner.norm
        (thoughtScanner.tags s.thought) (s.pending ++ chunk.1) ≠ none := by
      rw [Completes, hnext, contentTo_read]
      exact delimited_lt h
    refine ⟨own, read.length, hin, ⟨hown, hwaits, .inr ⟨by simp, hgone⟩⟩, fun _ => ?_⟩
    simp only [Bool.false_or, countsAsMarked]
    refine ⟨fun hplain => ?_, fun hmarked hnone => ?_, fun _ hsome _ => ?_⟩
    · rw [marked_next, decide_eq_false_iff_not] at hplain
      exact decide_eq_false fun hcounts => hplain hcounts.1
    · rw [marked_next, decide_eq_true_iff] at hmarked
      exact decide_eq_true ⟨hmarked, not_not.1 fun hsome => hnone (hcompletes.2 hsome)⟩
    · exact decide_eq_false fun hcounts => hcompletes.1 hsome hcounts.2

/-- What is held back at the end is sent where it is judged to go. -/
theorem sent_finish {s : ThoughtStream} (h : After (contentOf read) s) (hwaiting : Waiting read read.length) :
    List.Forall₂ (Sent read) (placedScanner.labelledFrom (placedAt (contentOf read)) [])
      (s.pending.map fun c => (s.thought, c)) := by
  have hsettled : placedScanner.labelledFrom (placedAt (contentOf read)) [] =
      (placedAt (contentOf read)).pending.map fun x => ((placedAt (contentOf read)).mode, x) :=
    placedScanner_separated.labelledFrom_settled ⟨false, []⟩ (contentOf read).zipIdx
  rw [hsettled, ← h.placed.2, List.map_map, List.forall₂_map_left_iff, List.forall₂_map_right_iff, List.forall₂_same]
  intro x hx
  rw [h.placed.1]
  refine ⟨rfl, id, fun hmode => ?_⟩
  have hread : contentTo read read.length = contentOf read := by rw [contentTo, List.take_length]
  rw [Waiting, hread, h.placed.1] at hwaiting
  obtain ⟨own, hown, hin, hwaits⟩ := hwaiting hmode x hx
  have hend : marked read read.length = false := by rw [marked, List.getElem?_length]; rfl
  refine ⟨own, read.length, hin, ⟨hown, hwaits, .inl rfl⟩, fun _ => ⟨fun _ => hmode, fun hmarked => ?_, fun hmarked => ?_⟩⟩
  all_goals
    rw [hend] at hmarked
    cases hmarked

/-- **The characters of all chunks are sent where they are judged to go.** -/
theorem sent_run {s : ThoughtStream} (h : After (contentOf read) s) (hwaiting : Waiting (read ++ rest) read.length) :
    ∃ sent, s.run rest = (inMode false sent, inMode true sent) ∧ List.Forall₂ (Sent (read ++ rest))
      (placedScanner.labelledFrom (placedAt (contentOf read)) ((contentOf rest).zipIdx (contentOf read).length)) sent := by
  induction rest generalizing read s with
  | nil =>
    refine ⟨s.pending.map fun c => (s.thought, c), ?_, ?_⟩
    · rw [run, finish, inMode_map, inMode_map]
      cases s.thought <;> rfl
    · rw [List.append_nil] at hwaiting ⊢
      exact sent_finish h hwaiting
  | cons chunk rest ih =>
    have hchunk : contentOf (read ++ [chunk]) = contentOf read ++ chunk.1 := by
      rw [contentOf_append]
      simp [contentOf]
    have hchunks : read ++ [chunk] ++ rest = read ++ chunk :: rest := by simp
    have hafter : After (contentOf (read ++ [chunk])) (s.push chunk.1 chunk.2).1 := hchunk ▸ h.push chunk
    have hnext : Waiting (read ++ [chunk] ++ rest) (read ++ [chunk]).length := by
      rw [hchunks, List.length_append, List.length_singleton]
      exact hwaiting.next
    obtain ⟨sent, hrun, hsent⟩ := ih hafter hnext
    obtain ⟨hpush, hhere⟩ := sent_chunk h hwaiting
    refine ⟨s.sentOf read chunk ++ sent, ?_, ?_⟩
    · rw [run]
      simp only [hpush, hrun, inMode_append]
    · have hplaces : (contentOf (chunk :: rest)).zipIdx (contentOf read).length = placed read chunk ++
          (contentOf rest).zipIdx (contentOf (read ++ [chunk])).length := by
        rw [show contentOf (chunk :: rest) = chunk.1 ++ contentOf rest from rfl, List.zipIdx_append, hchunk, List.length_append]
        rfl
      rw [hchunks, hchunk, placedAt_next, ← hchunk] at hsent
      rw [hplaces, placedScanner_separated.labelledFrom_append]
      exact List.rel_append hhere hsent

end

/-- **Chunks with marks**: what is kept of them are the characters outside of the delimiters, none is lost or sent
twice, and each goes to reasoning between the delimiters, and else by the mark of its chunk, where it waits for no other
mark. -/
theorem marked_thoughts (chunks : List Chunk) : ∃ kept sent,
    placedScanner.Reads false (contentOf chunks).zipIdx kept ∧ run .default chunks = (inMode false sent, inMode true sent) ∧
      List.Forall₂ (Sent chunks) kept sent := by
  have hwaiting : Waiting ([] ++ chunks) ([] : List Chunk).length := by
    intro _ x hx
    cases hx
  obtain ⟨sent, hrun, hsent⟩ := @sent_run [] chunks .default rfl hwaiting
  exact ⟨_, sent, placedScanner_separated.reads_iff.2 rfl, hrun, hsent⟩

/-- The characters of chunks, each with whether its chunk is marked. -/
def markedText (chunks : List Chunk) : List (Char × Bool) :=
  chunks.flatMap fun chunk => chunk.1.map fun c => (c, decide (chunk.2 = some true))

/-- A complete thought and an answer in a marked chunk: the answer is visible. -/
theorem answer_in_marked_chunk :
    ¬ ∀ (chunks : List Chunk) (kept : List (Bool × Char × Bool)),
      (thoughtScanner.decorate false).Reads false (markedText chunks) kept →
      run .default chunks = (inMode false (kept.map fun k => (k.1 || k.2.2, k.2.1)),
        inMode true (kept.map fun k => (k.1 || k.2.2, k.2.1))) := by
  intro h
  have hrun := h [("<thought>summary</thought>answer".toList, some true)] _
    ((thoughtScanner_separated.decorate false).reads_iff.2 rfl)
  exact absurd hrun (by decide +kernel)

end ThoughtStream

end Aifluxon
