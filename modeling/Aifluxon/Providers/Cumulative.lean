import Aifluxon.Providers.Decoding
import Mathlib.Data.List.Chain

/-!
# Content that comes as cumulative snapshots

With cumulative detection a delta that begins with all of the text before it is taken as a snapshot of
the text.

* `handedOn`, `growing_snapshots` : snapshots that grow are handed on as the text of the last one;
* `ContentChunk`, `StopChunk` : the values of a stream of content;
* `applyValues_content` : such a stream pushes its deltas into the text;
* `custom_stream_text` : the text is all of the deltas exactly when none of them begins with all before it.
-/

namespace Aifluxon

/-! ## Snapshots that grow -/

namespace TextDeltaReconciler

/-- What is handed on of each of some deltas. -/
def handedOn (allow : Bool) : TextDeltaReconciler → List (List Char) → List (List Char)
  | _, [] => []
  | r, delta :: deltas =>
    (r.pushCompatible delta false allow).2.getD [] :: handedOn allow (r.pushCompatible delta false allow).1 deltas

theorem pushAll_handedOn (allow : Bool) (r : TextDeltaReconciler) (deltas : List (List Char)) :
    (pushAll allow r deltas).emitted = r.emitted ++ (handedOn allow r deltas).flatten := by
  induction deltas generalizing r with
  | nil => simp [pushAll, handedOn]
  | cons delta deltas ih =>
    rw [pushAll_cons, ih, pushCompatible_emitted, handedOn, List.flatten_cons, List.append_assoc]

/-- A snapshot that the text begins is the text after it. -/
theorem pushCompatible_grown {r : TextDeltaReconciler} {snapshot : List Char} (h : r.emitted <+: snapshot) :
    (r.pushCompatible snapshot false true).1.emitted = snapshot := by
  by_cases hempty : r.emitted = []
  · by_cases hsnapshot : snapshot = []
    · rw [hsnapshot, pushCompatible_nil, hempty]
    cases hdetected : r.cumulativeDetected with
    | true =>
      rw [r.pushCompatible_snapshot (.inr hdetected) hsnapshot, hempty, missing_nil, nonempty_getD, List.nil_append]
    | false =>
      rw [r.pushCompatible_incremental hdetected (by simp [looksCumulative, hempty]), hempty, List.nil_append]
  · exact pushCompatible_repeated hempty h

/-- Snapshots that grow leave the text of the last one. -/
theorem pushAll_grown {r : TextDeltaReconciler} {snapshots : List (List Char)} {text : List Char}
    (h : (r.emitted :: snapshots).IsChain (· <+: ·)) (hlast : (r.emitted :: snapshots).getLast? = some text) :
    (pushAll true r snapshots).emitted = text := by
  induction snapshots generalizing r with
  | nil => exact Option.some.inj hlast
  | cons snapshot snapshots ih =>
    obtain ⟨hgrown, hchain⟩ := List.isChain_cons_cons.1 h
    have hnext := pushCompatible_grown hgrown
    rw [pushAll_cons]
    apply ih
    · rwa [hnext]
    · rwa [hnext, ← List.getLast?_cons_cons]

/-- **Snapshots that grow are handed on as the text of the last one**, and each is the text when it has come. -/
theorem growing_snapshots {snapshots : List (List Char)} {text : List Char} (h : snapshots.IsChain (· <+: ·))
    (hlast : snapshots.getLast? = some text) :
    (handedOn true .default snapshots).flatten = text ∧
      ∀ before snapshot after, snapshots = before ++ snapshot :: after →
        (pushAll true .default (before ++ [snapshot])).emitted = snapshot := by
  have hstart {taken : List (List Char)} {last : List Char} (hchain : taken.IsChain (· <+: ·))
      (hend : taken.getLast? = some last) : (pushAll true .default taken).emitted = last := by
    apply pushAll_grown
    · exact hchain.cons fun _ _ => List.nil_prefix
    · cases taken with
      | nil => cases hend
      | cons first taken => rwa [List.getLast?_cons_cons]
  constructor
  · have hall := hstart h hlast
    rw [pushAll_handedOn] at hall
    exact hall
  · rintro before snapshot after rfl
    apply hstart
    · rw [List.append_cons] at h
      exact h.left_of_append
    · exact List.getLast?_concat

/-- A text with a period comes in snapshots, one of them twice. -/
theorem growing_snapshots_haha :
    (handedOn true .default ["ha".toList, "haha".toList, "haha".toList, "hahaha".toList]).flatten = "hahaha".toList ∧
      ∀ before snapshot after, ["ha".toList, "haha".toList, "haha".toList, "hahaha".toList] = before ++ snapshot :: after →
        (pushAll true .default (before ++ [snapshot])).emitted = snapshot :=
  growing_snapshots (by decide) rfl

end TextDeltaReconciler

/-! ## Streams of content -/

/-- A delta of a chunk that has nothing but content. -/
structure ContentDelta (content : Option (List Char)) (delta : Value) : Prop where
  extra : deltaExtra delta = none
  reasoning : deltaReasoning delta = none
  content : deltaContent delta = content
  toolCalls : deltaToolCalls delta = []

/-- A chunk with a delta of content. -/
structure ContentChunk (content : List Char) (value : Value) : Prop where
  read : ∃ choice delta, value.choice = some choice ∧ choiceFinishReason choice = none ∧
    choiceDelta choice = some (delta, false) ∧ ContentDelta (some content) delta

/-- A chunk with the finish reason `stop`, without content. -/
structure StopChunk (value : Value) : Prop where
  read : ∃ choice, value.choice = some choice ∧ choiceFinishReason choice = some "stop" ∧
    ∀ delta snapshot, choiceDelta choice = some (delta, snapshot) → ContentDelta none delta

namespace ChatCompletionsTurnAssembler

variable {a : ChatCompletionsTurnAssembler} {content : List Char} {value : Value}

theorem applyUsage_fst (usage : Option Value) : (a.applyUsage usage).1 = { a with usage := usage.or a.usage } := by
  cases usage <;> rfl

theorem applyValue_content (ha : a.geminiThoughts = none) (h : ContentChunk content value) :
    (a.applyValue value).1 = { a with
      usage := (usageValue value).or a.usage
      text := (a.text.pushCompatible content false a.allowCumulativeDelta).1 } := by
  obtain ⟨choice, delta, hchoice, hreason, hdelta, hcontent⟩ := h.read
  simp only [applyValue, Sunk.andThen, hchoice, hreason, hdelta, applyDelta, hcontent.extra, hcontent.reasoning,
    hcontent.content, hcontent.toolCalls, applyUsage_fst, applyFinishReason, applyExtra, applyReasoning, applyContent, ha]
  rfl

theorem applyValue_stop (h : StopChunk value) : (a.applyValue value).1 = { a with
    usage := (usageValue value).or a.usage
    finishReason := some "stop" } := by
  obtain ⟨choice, hchoice, hreason, hdelta⟩ := h.read
  cases hread : choiceDelta choice with
  | none =>
    simp only [applyValue, Sunk.andThen, hchoice, hreason, hread, applyUsage_fst, applyFinishReason]
    rfl
  | some r =>
    obtain ⟨delta, snapshot⟩ := r
    have hcontent := hdelta delta snapshot hread
    simp only [applyValue, Sunk.andThen, hchoice, hreason, hread, applyDelta, hcontent.extra, hcontent.reasoning,
      hcontent.content, hcontent.toolCalls, applyUsage_fst, applyFinishReason, applyExtra, applyReasoning,
      applyContent]
    rfl

/-- The deltas of a stream go to the text, one after the other. -/
theorem applyValues_content (ha : a.geminiThoughts = none) {deltas : List (List Char)} {values : List Value}
    (h : List.Forall₂ ContentChunk deltas values) : ∃ usage, (a.applyValues values).1 = { a with
      usage
      text := a.text.pushAll a.allowCumulativeDelta deltas } := by
  induction h generalizing a with
  | nil => exact ⟨a.usage, rfl⟩
  | cons h hs ih =>
    rename_i content value deltas values
    obtain ⟨usage, hrest⟩ := @ih (a.applyValue value).1 (by rw [applyValue_content ha h]; exact ha)
    refine ⟨usage, ?_⟩
    rw [applyValue_content ha h] at hrest
    simp only [applyValues, Sunk.andThen, applyValue_content ha h, TextDeltaReconciler.pushAll_cons]
    exact hrest

end ChatCompletionsTurnAssembler

/-- What the custom family decodes Chat Completions with. -/
def customDecoder (contentType : Option String) : DecoderConfig := ⟨.chatCompletions, true, .plain, contentType⟩

section
variable {codec : WireCodec} {contentType : Option String} {bytes : List UInt8} {deltas : List (List Char)}
  {values : List Value} {stop : Value}

/-- The assembler at the end of a stream of content. -/
def contentEnd (usage : Option Value) (deltas : List (List Char)) : ChatCompletionsTurnAssembler :=
  { ChatCompletionsTurnAssembler.new true with
    usage
    text := TextDeltaReconciler.default.pushAll true deltas
    finishReason := some "stop" }

theorem custom_stream_end (hvalues : List.Forall₂ ContentChunk deltas values) (hstop : StopChunk stop)
    (hstream : ValueStream codec (customDecoder contentType) bytes (values ++ [stop])) :
    ∃ usage, (decode codec (customDecoder contentType) bytes).1 =
      ((contentEnd usage deltas).finishChecked codec).bind validated := by
  obtain ⟨usage, hcontent⟩ := ChatCompletionsTurnAssembler.applyValues_content
    (a := (customDecoder contentType).start.chat) rfl hvalues
  refine ⟨(usageValue stop).or usage, ?_⟩
  rw [decode_chatStream rfl hstream]
  simp only [ChatCompletionsTurnAssembler.applyValues_append, Sunk.andThen, hcontent,
    ChatCompletionsTurnAssembler.applyValues, ChatCompletionsTurnAssembler.applyValue_stop hstop]
  rfl

theorem contentEnd_finish (codec : WireCodec) (usage : Option Value) (deltas : List (List Char)) :
    ((contentEnd usage deltas).finish codec).text =
        String.ofList (TextDeltaReconciler.default.pushAll true deltas).emitted ∧
      ((contentEnd usage deltas).finish codec).toolCalls = [] ∧
      ((contentEnd usage deltas).finish codec).terminal = .stop := ⟨rfl, rfl, rfl⟩

/-- **The text is all of the deltas exactly when none of them begins with all before it.** -/
theorem custom_stream_text (hblank : trim (String.ofList deltas.flatten) ≠ "")
    (hvalues : List.Forall₂ ContentChunk deltas values) (hstop : StopChunk stop)
    (hstream : ValueStream codec (customDecoder contentType) bytes (values ++ [stop])) :
    (∃ turn, (decode codec (customDecoder contentType) bytes).1 = .ok turn ∧
      turn.text = String.ofList deltas.flatten) ↔ TextDeltaReconciler.unrepeated [] deltas = true := by
  obtain ⟨usage, hend⟩ := custom_stream_end hvalues hstop hstream
  obtain ⟨hfinish, htools, hterminal⟩ := contentEnd_finish codec usage deltas
  have hdefault : TextDeltaReconciler.default.cumulativeDetected = false := rfl
  have htext : (TextDeltaReconciler.default.pushAll true deltas).emitted = deltas.flatten ↔
      TextDeltaReconciler.unrepeated [] deltas = true :=
    (TextDeltaReconciler.pushAll_emitted_iff hdefault deltas).trans ⟨fun h => h rfl, fun h _ => h⟩
  rw [hend, ← htext]
  constructor
  · rintro ⟨turn, hturn, heq⟩
    obtain ⟨finished, hfinished, hvalid⟩ := except_bind_ok hturn
    rw [validated_ok hvalid, (ChatCompletionsTurnAssembler.finishChecked_ok_iff.1 hfinished).2.2.2, hfinish] at heq
    exact String.ofList_injective heq
  · intro heq
    have hvalid : ValidTurn ((contentEnd usage deltas).finish codec) :=
      .of_text (by rw [hfinish, heq]; exact hblank) htools (by rw [hterminal]; decide)
    have hfinished : (contentEnd usage deltas).finishChecked codec = .ok ((contentEnd usage deltas).finish codec) :=
      ChatCompletionsTurnAssembler.finishChecked_ok_iff.2 ⟨rfl, rfl, hvalid, rfl⟩
    refine ⟨(contentEnd usage deltas).finish codec, ?_, by rw [hfinish, heq]⟩
    rw [hfinished, Except.bind, validated_valid hvalid]

end

/-! Streams of two deltas. -/

def contentValue (content : String) : Value :=
  .object [("choices", .array [.object [("delta", .object [("content", .string content)])]])]

def stopChunk : Value :=
  .object [("choices", .array [.object [("delta", .object []), ("finish_reason", .string "stop")]])]

def contentText (content : String) : List Char :=
  "\x7b\"choices\":[\x7b\"delta\":\x7b\"content\":\"".toList ++ content.toList ++ "\"\x7d\x7d]\x7d".toList

/-- A chunk without content that finishes. -/
def finishText (reason : String) : List Char :=
  "\x7b\"choices\":[\x7b\"delta\":\x7b\x7d,".toList ++ "\"finish_reason\":\"".toList ++
    reason.toList ++ "\"\x7d]\x7d".toList

def eventStream : Option String := some "text/event-stream"

def dataEvent (text : List Char) : List UInt8 := asciiBytes ("data: ".toList ++ text ++ "\n\n".toList)

def doneEvent : List UInt8 := dataEvent "[DONE]".toList

theorem contentChunk_of {content : String} (h : content ≠ "") :
    ContentChunk content.toList (contentValue content) := by
  refine ⟨_, _, rfl, rfl, rfl, rfl, rfl, ?_, rfl⟩
  have hget : (Value.object [("content", .string content)]).getStr "content" = some content := rfl
  rw [deltaContent, hget, Option.filter_some, if_pos (by simpa using h)]
  rfl

theorem stopChunk_of : StopChunk stopChunk := by
  refine ⟨_, rfl, rfl, fun delta snapshot h => ?_⟩
  cases h
  exact ⟨rfl, rfl, rfl, rfl⟩

/-- A codec for two deltas, and their stream. -/
def twoCodec (first second : String) : WireCodec :=
  tableCodec [(contentText first, contentValue first), (contentText second, contentValue second),
    (finishText "stop", stopChunk)] []

def twoDeltas (first second : String) : List UInt8 :=
  dataEvent (contentText first) ++ dataEvent (contentText second) ++ dataEvent (finishText "stop") ++ doneEvent

theorem twoChunks {first second : String} (hfirst : first ≠ "") (hsecond : second ≠ "") :
    List.Forall₂ ContentChunk [first.toList, second.toList] [contentValue first, contentValue second] :=
  .cons (contentChunk_of hfirst) (.cons (contentChunk_of hsecond) .nil)

/-- The second of two equal deltas is taken as a snapshot of the first. -/
theorem repeated_delta_swallowed :
    List.Forall₂ ContentChunk ["ha".toList, "ha".toList] [contentValue "ha", contentValue "ha"] ∧
      StopChunk stopChunk ∧
      ValueStream (twoCodec "ha" "ha") (customDecoder eventStream) (twoDeltas "ha" "ha")
        ([contentValue "ha", contentValue "ha"] ++ [stopChunk]) ∧
      (decode (twoCodec "ha" "ha") (customDecoder eventStream) (twoDeltas "ha" "ha")).1.toOption.map ModelTurn.text =
        some "ha" := by
  have hstream : ValueStream (twoCodec "ha" "ha") (customDecoder eventStream) (twoDeltas "ha" "ha")
      ([contentValue "ha", contentValue "ha"] ++ [stopChunk]) := .of_read (by decide) (by decide +kernel)
  refine ⟨twoChunks (by decide) (by decide), stopChunk_of, hstream, ?_⟩
  rw [decode_chatStream rfl hstream]
  decide +kernel

theorem custom_stream_text_haok :
    ∃ turn, (decode (twoCodec "ha" "ok") (customDecoder eventStream) (twoDeltas "ha" "ok")).1 = .ok turn ∧
      turn.text = "haok" := by
  have hstream : ValueStream (twoCodec "ha" "ok") (customDecoder eventStream) (twoDeltas "ha" "ok")
      ([contentValue "ha", contentValue "ok"] ++ [stopChunk]) := .of_read (by decide) (by decide +kernel)
  have hchunks : List.Forall₂ ContentChunk ["ha".toList, "ok".toList] [contentValue "ha", contentValue "ok"] :=
    twoChunks (by decide) (by decide)
  exact (custom_stream_text (by decide) hchunks stopChunk_of hstream).2 (by decide)

end Aifluxon
