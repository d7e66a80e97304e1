import Aifluxon.Providers.Streaming

/-!
# The pieces of a response

How a response is cut into pieces does not matter to its decoder.

* `TurnAssembly.applyEvents_append` : events are applied one list after the other;
* `detectStart_mono`, `detectSse_mono` : what the first bytes of a body tell does not change with more bytes;
* `LiveStreamDecoder.pushSse_append`, `feed_append` : a piece that is cut in two;
* `decode_chunks` : the sink gets the same calls, and the caller the same turn or error.
-/

namespace Aifluxon

/-! ## Events -/

namespace TurnAssembly

variable {codec : WireCodec} {a : TurnAssembly}

theorem applyEvents_complete (h : a.complete = true) (events : List SseEvent) :
    a.applyEvents codec events = (.ok a, []) := by
  cases events with
  | nil => rfl
  | cons event events => rw [applyEvents, if_pos h]

theorem applyEvents_append (xs ys : List SseEvent) : a.applyEvents codec (xs ++ ys) =
    (a.applyEvents codec xs).attempt fun a => a.applyEvents codec ys := by
  induction xs generalizing a with
  | nil => rfl
  | cons event xs ih =>
    rw [List.cons_append, applyEvents, applyEvents]
    split
    · rename_i hcomplete
      exact (applyEvents_complete hcomplete ys).symm
    · rw [Sunk.attempt_assoc]
      congr 1
      funext a
      exact ih

end TurnAssembly

/-! ## The form of a body -/

theorem prefix_of_append {pattern xs ys : List Char} (h : pattern <+: xs ++ ys) (hys : ∀ c ∈ ys, c ∉ pattern) :
    pattern <+: xs := by
  rcases le_total pattern.length xs.length with hle | hle
  · exact List.prefix_of_prefix_length_le h (List.prefix_append _ _) hle
  · obtain ⟨rest, rfl⟩ := List.prefix_of_prefix_length_le (List.prefix_append xs ys) h hle
    cases rest with
    | nil => simp
    | cons c rest =>
      have hc : c ∈ ys := ((List.prefix_append_right_inj xs).1 h).subset (List.mem_cons_self ..)
      exact absurd (List.mem_append_right xs (List.mem_cons_self ..)) (hys c hc)

theorem dropWhile_append_of_ne {p : Char → Bool} {xs ys : List Char} (h : xs.dropWhile p ≠ []) :
    (xs ++ ys).dropWhile p = xs.dropWhile p ++ ys := by
  rw [List.dropWhile_append, if_neg (by simpa [List.isEmpty_iff] using h)]

/-- What the first characters tell does not change with more characters. -/
theorem detectStart_mono {start : List Char} {sse : Bool} (h : detectStart start = some sse) (more : List Char) :
    detectStart (start ++ more) = some sse := by
  unfold detectStart at h ⊢
  split at h
  · rename_i hfield
    rw [if_pos, ← h]
    obtain ⟨field, hmem, hprefix⟩ := List.any_eq_true.1 hfield
    exact List.any_eq_true.2 ⟨field, hmem, List.isPrefixOf_iff_prefix.2
      ((List.isPrefixOf_iff_prefix.1 hprefix).trans (List.prefix_append _ _))⟩
  · split at h
    · rename_i hfield hbrace
      obtain ⟨start, rfl⟩ := List.head?_eq_some_iff.1 hbrace
      rw [if_neg, if_pos (by simp), ← h]
      simp
    · cases h

/-- The replacement of a character that has not ended tells nothing. -/
theorem detectStart_replacement {start : List Char} {sse : Bool} (h : detectStart (start ++ [replacement]) = some sse) :
    detectStart start = some sse := by
  unfold detectStart at h ⊢
  split at h
  · rename_i hfield
    rw [if_pos, ← h]
    have hfields : ∀ field ∈ [":", "data:", "event:", "id:"], ∀ c ∈ [replacement], c ∉ field.toList := by
      simp [replacement]
    obtain ⟨field, hmem, hprefix⟩ := List.any_eq_true.1 hfield
    exact List.any_eq_true.2 ⟨field, hmem, List.isPrefixOf_iff_prefix.2
      (prefix_of_append (List.isPrefixOf_iff_prefix.1 hprefix) (hfields field hmem))⟩
  · rename_i hfield
    split at h
    · rename_i hbrace
      cases start with
      | nil => exact absurd hbrace (by decide)
      | cons c start =>
        rw [if_neg, if_pos (by simpa using hbrace), ← h]
        intro hany
        obtain ⟨field, hmem, hprefix⟩ := List.any_eq_true.1 hany
        exact hfield (List.any_eq_true.2 ⟨field, hmem, List.isPrefixOf_iff_prefix.2
          ((List.isPrefixOf_iff_prefix.1 hprefix).trans (List.prefix_append _ _))⟩)
    · cases h

/-- The characters of a body from the first that is not blank. -/
def bodyStart (text : List Char) : List Char := (text.dropWhile (· = '\uFEFF')).dropWhile isWhitespace

theorem bodyStart_append {xs ys : List Char} (h : bodyStart xs ≠ []) : bodyStart (xs ++ ys) = bodyStart xs ++ ys := by
  have hbom : xs.dropWhile (· = '\uFEFF') ≠ [] := by
    intro hnil
    rw [bodyStart, hnil] at h
    exact h rfl
  rw [bodyStart, dropWhile_append_of_ne hbom, dropWhile_append_of_ne h]
  rfl

theorem detectStart_nil : detectStart [] = none := rfl

theorem dropWhile_concat {p : Char → Bool} {xs : List Char} {c : Char} (h : xs.dropWhile p = []) (hc : p c = false) :
    (xs ++ [c]).dropWhile p = [c] := by
  rw [List.dropWhile_append, if_pos (by simp [h])]
  simp [hc]

/-- Blanks and a character that is none. -/
theorem bodyStart_concat {xs : List Char} {c : Char} (h : bodyStart xs = []) (hbom : c ≠ '\uFEFF')
    (hblank : isWhitespace c = false) : bodyStart (xs ++ [c]) = [c] := by
  by_cases hxs : xs.dropWhile (· = '\uFEFF') = []
  · rw [bodyStart, dropWhile_concat hxs (by simpa using hbom)]
    simp [hblank]
  · rw [bodyStart, dropWhile_append_of_ne hxs]
    exact dropWhile_concat h hblank

/-- **What the first bytes of a body tell does not change with more bytes.** -/
theorem detectSse_mono {contentType : Option String} {bytes : List UInt8} {sse : Bool}
    (h : detectSse contentType bytes = some sse) (more : List UInt8) :
    detectSse contentType (bytes ++ more) = some sse := by
  unfold detectSse at h ⊢
  split
  · rename_i htype
    rw [if_pos htype] at h
    exact h
  · rename_i htype
    rw [if_neg htype] at h
    obtain ⟨rest, hrest⟩ := fromUtf8Lossy_append bytes more
    have hstart : detectStart (bodyStart (decodeUtf8 bytes).2) = some sse := by
      change detectStart (bodyStart (fromUtf8Lossy bytes)) = some sse at h
      rw [fromUtf8Lossy] at h
      split at h
      · rwa [List.append_nil] at h
      · by_cases hnil : bodyStart (decodeUtf8 bytes).2 = []
        · rw [bodyStart_concat hnil (by decide) (by decide)] at h
          exact absurd h (by cases sse <;> decide)
        · rw [bodyStart_append hnil] at h
          exact detectStart_replacement h
    have hne : bodyStart (decodeUtf8 bytes).2 ≠ [] := by
      intro hnil
      rw [hnil, detectStart_nil] at hstart
      cases hstart
    change detectStart (bodyStart (fromUtf8Lossy (bytes ++ more))) = some sse
    rw [hrest, bodyStart_append hne]
    exact detectStart_mono hstart rest

/-! ## The decoder -/

namespace LiveStreamDecoder

variable {codec : WireCodec} {d : LiveStreamDecoder}

/-- What comes after a piece: the end, if the decoder is complete, or another piece and the end. -/
def next (codec : WireCodec) (ys : List UInt8) (d : LiveStreamDecoder) : Sunk (Except ProviderError ModelTurn) :=
  if d.isComplete then d.finish codec else (d.push codec ys).attempt fun d => d.finish codec

theorem next_complete {ys : List UInt8} (h : d.assembly.complete = true) : d.next codec ys = d.finish codec := if_pos h

theorem next_open {ys : List UInt8} (h : d.assembly.complete = false) :
    d.next codec ys = (d.push codec ys).attempt fun d => d.finish codec := if_neg (Bool.eq_false_iff.1 h)

theorem pushSse_append (hsse : d.sse = some true) (xs ys : List UInt8) :
    (d.pushSse codec (xs ++ ys)).attempt (fun d => d.finish codec) = (d.pushSse codec xs).attempt (next codec ys) := by
  simp only [pushSse, IncrementalSseParser.push_splits d.parser xs ys, TurnAssembly.applyEvents_append,
    Sunk.attempt_assoc, Sunk.attempt_pure]
  congr 1
  funext a
  cases hcomplete : a.complete with
  | true =>
    rw [TurnAssembly.applyEvents_complete hcomplete, next_complete (by exact hcomplete), Sunk.attempt_pure]
    simp only [finish, finishKnown, hsse, hcomplete, reduceCtorEq, if_false, if_true]
  | false =>
    rw [next_open (by exact hcomplete), push]
    simp only [hsse, pushSse, Sunk.attempt_assoc, Sunk.attempt_pure]

/-- **A piece that is cut in two.** -/
theorem push_append (hd : d.assembly.complete = false) (xs ys : List UInt8) :
    (d.push codec (xs ++ ys)).attempt (fun d => d.finish codec) = (d.push codec xs).attempt (next codec ys) := by
  cases hsse : d.sse with
  | some sse =>
    cases sse with
    | true =>
      have hpush (chunk : List UInt8) : d.push codec chunk = d.pushSse codec chunk := by
        simp only [push, hsse]
      rw [hpush, hpush]
      exact pushSse_append hsse xs ys
    | false =>
      simp only [push, hsse, Sunk.attempt_pure]
      rw [next_open (by exact hd)]
      simp only [push, Sunk.attempt_pure, List.append_assoc]
  | none =>
    simp only [push, hsse, show d.head ++ (xs ++ ys) = d.head ++ xs ++ ys from (List.append_assoc ..).symm]
    cases hdetect : detectSse d.contentType (d.head ++ xs) with
    | none =>
      simp only [Sunk.attempt_pure]
      rw [next_open (by exact hd)]
      simp only [push]
    | some sse =>
      rw [detectSse_mono hdetect]
      cases sse with
      | true => exact pushSse_append rfl (d.head ++ xs) ys
      | false =>
        simp only [Sunk.attempt_pure]
        rw [next_open (by exact hd)]
        simp only [push, Sunk.attempt_pure, List.append_assoc]

/-- **The pieces of a body.** -/
theorem feed_cons (hd : d.assembly.complete = false) (chunk : List UInt8) (chunks : List (List UInt8)) :
    d.feed codec (chunk :: chunks) = (d.push codec (chunk ++ chunks.flatten)).attempt fun d => d.finish codec := by
  induction chunks generalizing d chunk with
  | nil => simp only [feed, ite_self, List.flatten_nil, List.append_nil]
  | cons y chunks ih =>
    rw [List.flatten_cons, push_append hd, feed]
    congr 1
    funext d'
    cases hcomplete : d'.assembly.complete with
    | true => rw [next_complete hcomplete, isComplete, if_pos hcomplete]
    | false => rw [next_open hcomplete, isComplete, if_neg (by simp [hcomplete]), ih hcomplete]

end LiveStreamDecoder

/-- No piece at all is an empty one. -/
theorem decode_nil (codec : WireCodec) (config : DecoderConfig) :
    decodeChunks codec config [] = decode codec config [] := by
  obtain ⟨mode, allowCumulativeDelta, contract, contentType⟩ := config
  rw [decode, decodeChunks, decodeChunks, LiveStreamDecoder.feed_cons rfl, LiveStreamDecoder.feed]
  cases htype : isEventStream contentType with
  | true =>
    have hdetect : detectSse contentType [] = some true := if_pos htype
    simp only [LiveStreamDecoder.finish, LiveStreamDecoder.push, LiveStreamDecoder.new, List.flatten_nil,
      List.append_nil, hdetect, if_true]
    rfl
  | false =>
    have hdetect : detectSse contentType [] = none := by
      rw [detectSse, htype]
      rfl
    simp only [LiveStreamDecoder.finish, LiveStreamDecoder.push, LiveStreamDecoder.new, List.flatten_nil,
      List.append_nil, hdetect, Sunk.attempt_pure]

/-- **How a response is cut into pieces does not matter.** -/
theorem decode_chunks (codec : WireCodec) (config : DecoderConfig) (chunks : List (List UInt8)) :
    decodeChunks codec config chunks = decode codec config chunks.flatten := by
  cases chunks with
  | nil => exact decode_nil codec config
  | cons chunk chunks =>
    rw [decode, decodeChunks, decodeChunks, LiveStreamDecoder.feed_cons rfl, LiveStreamDecoder.feed_cons rfl,
      List.flatten_cons, List.flatten_nil, List.append_nil]

end Aifluxon
