import Aifluxon.Providers.Decoding

/-!
# Truncated responses

A response that is cut off is an error, or it is the same turn.

* `JsonTexts` : what `serde_json::from_slice` promises of the texts of objects;
* `finishRaw_object` : only an object is a turn;
* `truncated_events` : a stream that has ended does not read what comes after;
* `JsonTexts.detect` : the text of an object is no stream;
* `truncated_response` : the two forms of a body put together.
-/

namespace Aifluxon

/-- The text of an object begins with a brace after blanks, and nothing but blanks, which mean nothing,
comes after it. -/
structure JsonTexts (codec : WireCodec) : Prop where
  brace : ∀ {bytes entries}, codec.fromSlice bytes = some (.object entries) →
    ∃ blanks rest, bytes = blanks ++ 0x7B :: rest ∧ blanks.all isJsonBlank = true
  trailing : ∀ {bytes more entries value}, codec.fromSlice bytes = some (.object entries) →
    codec.fromSlice (bytes ++ more) = some value → more.all isJsonBlank = true
  blanks : ∀ {bytes blanks}, blanks.all isJsonBlank = true → codec.fromSlice (bytes ++ blanks) = codec.fromSlice bytes

/-! ## Objects -/

theorem Value.get_of_not_object {value : Value} (h : value.isObject = false) (key : String) : value.get key = none := by
  cases value with
  | object => cases h
  | null | bool | number | string | array => rfl

namespace ChatCompletionsTurnAssembler

variable {a : ChatCompletionsTurnAssembler} {codec : WireCodec}

theorem finishChecked_open (h : a.finishReason = none) (turn : ModelTurn) : a.finishChecked codec ≠ .ok turn := by
  rw [finishChecked, h]
  exact fun heq => by cases heq

end ChatCompletionsTurnAssembler

theorem ResponsesTurnState.finishChecked_open (codec : WireCodec) {s : ResponsesTurnState} (h : s.terminal = none)
    (turn : ModelTurn) : s.finishChecked codec ≠ .ok turn := by
  rw [finishChecked, finish, h]
  exact fun heq => by cases heq

theorem Contract.assembler_finishReason (contract : Contract) (allow : Bool) :
    (contract.assembler allow).finishReason = none := by
  obtain ⟨deepseek, gemini⟩ := contract
  cases deepseek <;> cases gemini <;> rfl

/-- Only an object says that a response has ended. -/
theorem finishRaw_object {codec : WireCodec} {config : DecoderConfig} {raw : List UInt8} {turn : ModelTurn}
    (h : (config.start.finishRaw codec raw).1 = .ok turn) : ∃ entries, codec.fromSlice raw = some (.object entries) := by
  unfold TurnAssembly.finishRaw at h
  split at h
  · cases h
  split at h
  · cases h
  rename_i value hvalue
  cases hobject : value.isObject with
  | true =>
    cases value with
    | object entries => exact ⟨entries, hvalue⟩
    | null | bool | number | string | array => cases hobject
  | false =>
    split at h
    · cases h
    obtain ⟨a, ha, hclose⟩ := Sunk.attempt_eq_ok h
    rw [TurnAssembly.close_eq] at hclose
    obtain ⟨finished, hfinished, -⟩ := except_bind_ok hclose
    cases hmode : config.mode with
    | chatCompletions =>
      simp only [TurnAssembly.applyValue, DecoderConfig.start, hmode, Sunk.andThen, Sunk.ok] at ha
      cases ha
      refine absurd hfinished (ChatCompletionsTurnAssembler.finishChecked_open ?_ finished)
      have hchoice : value.choice = none := by
        rw [Value.choice, Value.get_of_not_object hobject]
        rfl
      rw [ChatCompletionsTurnAssembler.flushContent_finishReason,
        ChatCompletionsTurnAssembler.applyValue_finishReason, hchoice, Contract.assembler_finishReason]
      rfl
    | responses =>
      have hlooks : looksLikeResponsesStreamValue value = false := by
        simp [looksLikeResponsesStreamValue, eventType, Value.getStr, Value.get_of_not_object hobject]
      simp only [TurnAssembly.applyValue, DecoderConfig.start, hmode, ResponsesTurnAssembler.applyValue,
        ResponsesTurnState.applyValue, hlooks] at ha
      cases ha
      have hopen : (ResponsesTurnAssembler.new config.allowCumulativeDelta).state.terminal = none := rfl
      exact absurd hfinished (ResponsesTurnState.finishChecked_open codec hopen finished)

/-! ## Streams of events -/

section
variable {codec : WireCodec} {config : DecoderConfig} {bytes more : List UInt8} {turn turn' : ModelTurn}

/-- A stream that has ended does not read what comes after. -/
theorem truncated_events (hsse : detectSse config.contentType bytes = some true)
    (hturn : (decode codec config bytes).1 = .ok turn) : (decode codec config (bytes ++ more)).1 = .ok turn := by
  obtain ⟨events, hevents⟩ := eventsOf_append bytes more
  rw [decode_events hsse] at hturn
  rw [decode_events (detectSse_mono hsse more), ← hevents, TurnAssembly.applyEvents_append, Sunk.attempt_assoc]
  obtain ⟨a, ha, hend⟩ := Sunk.attempt_eq_ok hturn
  generalize hx : config.start.applyEvents codec (eventsOf bytes) = x at ha ⊢
  obtain ⟨_, calls⟩ := x
  cases ha
  cases hcomplete : a.complete with
  | true =>
    rw [Sunk.attempt_ok, TurnAssembly.applyEvents_complete hcomplete, Sunk.attempt_pure]
    exact hend
  | false =>
    rw [TurnAssembly.endOfEvents, if_neg (by simp [hcomplete])] at hend
    cases hend

end

/-! ## Bodies -/

section
variable {codec : WireCodec} {config : DecoderConfig} {bytes more : List UInt8} {turn turn' : ModelTurn}

theorem isJsonBlank_cases {b : UInt8} (h : isJsonBlank b = true) : b = 0x20 ∨ b = 0x09 ∨ b = 0x0A ∨ b = 0x0D := by
  simpa [isJsonBlank] using h

theorem bodyStart_object {blanks : List UInt8} (hblanks : blanks.all isJsonBlank = true) (rest : List UInt8) :
    bodyStart (fromUtf8Lossy (blanks ++ 0x7B :: rest)) = '{' :: fromUtf8Lossy rest := by
  have hstart (blanks : List UInt8) (hblanks : blanks.all isJsonBlank = true) :
      (fromUtf8Lossy (blanks ++ 0x7B :: rest)).dropWhile isWhitespace = '{' :: fromUtf8Lossy rest := by
    induction blanks with
    | nil =>
      rw [List.nil_append, fromUtf8Lossy_ascii (by decide)]
      rfl
    | cons b blanks ih =>
      rw [List.all_cons, Bool.and_eq_true] at hblanks
      have hb : b ≤ 0x7F ∧ isWhitespace (Char.ofNat b.toNat) = true := by
        rcases isJsonBlank_cases hblanks.1 with rfl | rfl | rfl | rfl <;> decide
      rw [List.cons_append, fromUtf8Lossy_ascii hb.1, List.dropWhile_cons_of_pos hb.2, ih hblanks.2]
  cases blanks with
  | nil =>
    rw [List.nil_append, fromUtf8Lossy_ascii (by decide)]
    rfl
  | cons b blanks =>
    have hb : b ≤ 0x7F ∧ Char.ofNat b.toNat ≠ '\uFEFF' := by
      rw [List.all_cons, Bool.and_eq_true] at hblanks
      rcases isJsonBlank_cases hblanks.1 with rfl | rfl | rfl | rfl <;> decide
    rw [bodyStart, ← hstart (b :: blanks) hblanks, List.cons_append, fromUtf8Lossy_ascii hb.1,
      List.dropWhile_cons_of_neg (by simpa using hb.2)]

/-- The text of an object is no stream of events. -/
theorem JsonTexts.detect (hcodec : JsonTexts codec) {entries : List (String × Value)} {contentType : Option String}
    (htype : isEventStream contentType = false) (h : codec.fromSlice bytes = some (.object entries)) :
    detectSse contentType bytes = some false := by
  obtain ⟨blanks, rest, rfl, hblanks⟩ := hcodec.brace h
  rw [detectSse, if_neg (by simp [htype])]
  change detectStart (bodyStart _) = _
  rw [bodyStart_object hblanks]
  rfl

/-- A body is read as its value. -/
theorem finishRaw_congr (a : TurnAssembly) {raw raw' : List UInt8} (hraw : raw ≠ []) (hraw' : raw' ≠ [])
    (h : codec.fromSlice raw = codec.fromSlice raw') : a.finishRaw codec raw = a.finishRaw codec raw' := by
  rw [TurnAssembly.finishRaw, TurnAssembly.finishRaw, if_neg hraw, if_neg hraw', h]

/-- **A truncated response is an error, or the same turn.** -/
theorem truncated_response (hcodec : JsonTexts codec) (hturn : (decode codec config (bytes ++ more)).1 = .ok turn)
    (hturn' : (decode codec config bytes).1 = .ok turn') : turn' = turn := by
  by_cases hsse : detectSse config.contentType bytes = some true
  · rw [truncated_events hsse hturn'] at hturn
    exact Except.ok.inj hturn
  · rw [decode_body hsse] at hturn'
    obtain ⟨entries, hentries⟩ := finishRaw_object hturn'
    have htype : isEventStream config.contentType = false := by
      rw [Bool.eq_false_iff]
      exact fun htype => hsse (if_pos htype)
    have hdetect := detectSse_mono (hcodec.detect htype hentries) more
    rw [decode_body (by rw [hdetect]; decide)] at hturn
    obtain ⟨entries', hentries'⟩ := finishRaw_object hturn
    have hsame : codec.fromSlice (bytes ++ more) = codec.fromSlice bytes :=
      hcodec.blanks (hcodec.trailing hentries hentries')
    have hne : bytes ≠ [] := by
      obtain ⟨blanks, rest, rfl, -⟩ := hcodec.brace hentries
      simp
    rw [finishRaw_congr _ (by simp [hne]) hne hsame, hturn'] at hturn
    exact Except.ok.inj hturn

end

/-- A table with one text. -/
theorem jsonTexts_table (text : List UInt8) (value : Value) (hbrace : text.head? = some 0x7B) :
    JsonTexts (tableCodec [(asciiText text, value)] []) := by
  have hread {bytes : List UInt8} {v : Value} (h : (tableCodec [(asciiText text, value)] []).fromSlice bytes = some v) :
      bytes = text ++ bytes.rtakeWhile isJsonBlank := by
    have htext : bytes.rdropWhile isJsonBlank = text := by
      rw [← asciiBytes_asciiText text, ← asciiBytes_asciiText (bytes.rdropWhile isJsonBlank)]
      by_contra hne
      have : (asciiText (bytes.rdropWhile isJsonBlank) == asciiText text) = false := by
        simpa using fun heq => hne (by rw [heq])
      rw [tableCodec] at h
      simp [List.lookup_cons, this] at h
    rw [← htext, List.rdropWhile_append_rtakeWhile]
  have hblank (bytes : List UInt8) : (bytes.rtakeWhile isJsonBlank).all isJsonBlank = true :=
    List.all_eq_true.2 fun b hb => List.mem_rtakeWhile_imp hb
  refine ⟨fun h => ?_, fun h h' => ?_, fun h => ?_⟩
  · obtain ⟨rest, rfl⟩ := List.head?_eq_some_iff.1 hbrace
    exact ⟨[], _, hread h, rfl⟩
  · rename_i bytes more _ _
    have hlong : text ++ (bytes.rtakeWhile isJsonBlank ++ more) = text ++ (bytes ++ more).rtakeWhile isJsonBlank := by
      rw [← hread h', ← List.append_assoc, ← hread h]
    have hall := hblank (bytes ++ more)
    rw [← List.append_cancel_left hlong, List.all_append, Bool.and_eq_true] at hall
    exact hall.2
  · rename_i bytes blanks
    have hdrop : (bytes ++ blanks).rdropWhile isJsonBlank = bytes.rdropWhile isJsonBlank := by
      rw [List.rdropWhile, List.reverse_append, List.dropWhile_append_of_pos (by simpa using h)]
      rfl
    simp only [tableCodec, hdrop]

/-! A body with a blank after it, and without. -/

def stopText : List Char :=
  "\x7b\"choices\":[\x7b\"message\":\x7b\"content\":\"a\"\x7d,".toList ++ "\"finish_reason\":\"stop\"\x7d]\x7d".toList

def stopValue : Value :=
  .object [("choices", .array [.object [("finish_reason", .string "stop"),
    ("message", .object [("content", .string "a")])]])]

def stopCodec : WireCodec := tableCodec [(stopText, stopValue)] []

def plainChat : DecoderConfig := ⟨.chatCompletions, false, .plain, none⟩

def letterTurn : ModelTurn :=
  ⟨"a", "", [], none, .stop, .object [("finish_reason", .string "stop"), ("protocol", .string "chat_completions")]⟩

theorem truncated_response_blank :
    (decode stopCodec plainChat (asciiBytes stopText ++ [0x20])).1 = .ok letterTurn ∧
      (decode stopCodec plainChat (asciiBytes stopText)).1 = .ok letterTurn := by
  have hcodec : JsonTexts stopCodec := jsonTexts_table (asciiBytes stopText) stopValue rfl
  have hlong : (decode stopCodec plainChat (asciiBytes stopText ++ [0x20])).1 = .ok letterTurn := by decide
  obtain ⟨turn, hshort⟩ : ∃ turn, (decode stopCodec plainChat (asciiBytes stopText)).1 = .ok turn :=
    ⟨letterTurn, by decide⟩
  rw [truncated_response hcodec hlong hshort] at hshort
  exact ⟨hlong, hshort⟩

end Aifluxon
