import Aifluxon.Providers.Deliveries

/-!
# A message gives the same turn, buffered and streamed

* `ChatMessage.turn`, `Assembled.result` : the turn of a message, with the text and the reasoning that were assembled;
* `BufferedBody`, `StreamedBody` : the two forms of a response;
* `SameText` : when the two forms have the same text and reasoning;
* `same_turn_iff` : the two forms of a message give the same turn exactly then.
-/

namespace Aifluxon

open TagScan

/-! ## The turn of a message -/

namespace ChatMessage

/-- The turn of a message of which this text and this reasoning were assembled. -/
def turn (codec : WireCodec) (m : ChatMessage) (text reasoning : List Char) : ModelTurn :=
  ChatCompletionsTurnAssembler.turn
    ⟨false, ⟨text, false⟩, ⟨reasoning, false⟩, ⟨m.calls.map ChatCall.pending, false, false⟩, m.usage, m.finishReason,
      saveExtra (.object []) m.extra, none⟩ codec

/-- The finish reason and the tool calls of the message allow a turn. -/
structure Accepted (codec : WireCodec) (m : ChatMessage) : Prop where
  finishReason : ChatCompletionsTurnAssembler.checkFinishReason m.finishReason = .ok ()
  calls : ToolCallAssembler.validCalls codec [] (m.calls.map ChatCall.pending) = true
  toolCalls : m.finishReason = some "tool_calls" → m.calls ≠ []

/-- The message has something to show. -/
def Visible (m : ChatMessage) (text : List Char) : Prop := m.calls ≠ [] ∨ trim (String.ofList text) ≠ ""

section
variable {codec : WireCodec} {m : ChatMessage} {text reasoning : List Char} {a : ChatCompletionsTurnAssembler}

theorem Assembled.turn_eq (h : m.Assembled text reasoning a) : a.turn codec = m.turn codec text reasoning := by
  obtain ⟨allow, ⟨t, td⟩, ⟨r, rd⟩, ⟨calls, metadata, gemini⟩, usage, finishReason, extra, thoughts⟩ := a
  obtain ⟨rfl, rfl, rfl, rfl, rfl, rfl⟩ := h
  rfl

@[simp] theorem turn_text : (m.turn codec text reasoning).text = String.ofList text := rfl

@[simp] theorem turn_reasoning : (m.turn codec text reasoning).reasoning = String.ofList reasoning := rfl

/-- A message has no image. -/
theorem turn_artifact : hasArtifact (m.turn codec text reasoning) = false := by
  have hkey (key : String) (h : key ∈ ["extra_content", "tool_call_extra_content", "reasoning_content"]) :
      "generated_images" ≠ key := by
    rintro rfl
    revert h
    decide
  have hget : (m.turn codec text reasoning).opaqueValue.get "generated_images" = none := by
    change List.lookup "generated_images" (ChatCompletionsTurnAssembler.opaqueEntries _) = none
    rw [ChatCompletionsTurnAssembler.opaqueEntries,
      ChatCompletionsTurnAssembler.lookup_withEntry_ne (hkey _ (by simp)),
      ChatCompletionsTurnAssembler.lookup_withEntry_ne (hkey _ (by simp)),
      ChatCompletionsTurnAssembler.lookup_withEntry_ne (hkey _ (by simp))]
    rfl
  rw [hasArtifact, hget]
  rfl

theorem turn_terminal : (m.turn codec text reasoning).terminal =
    if (m.turn codec text reasoning).toolCalls ≠ [] ∨ m.finishReason = some "tool_calls" ∨
      m.finishReason = some "function_call" then .toolCalls else .stop := rfl

theorem turn_continuation : (m.turn codec text reasoning).terminal.continuationReason = none := by
  rw [turn_terminal]
  split <;> rfl

/-- What `validate` says of the calls of a message. -/
theorem validCalls_iff {ids : List String} {calls : List ChatCall} :
    ToolCallAssembler.validCalls codec ids (calls.map ChatCall.pending) = true →
      ∀ call ∈ calls, trim call.id ≠ "" ∧ trim call.name ≠ "" ∧
        ToolCallAssembler.hasObjectArguments codec call.pending = true := by
  induction calls generalizing ids with
  | nil => simp
  | cons call calls ih =>
    intro h x hx
    rw [List.map_cons, ToolCallAssembler.validCalls, if_neg (by simp [ChatCall.pending])] at h
    split at h
    · cases h
    rename_i hvalid
    simp only [not_or, not_not] at hvalid
    rcases List.mem_cons.1 hx with rfl | hx
    · exact ⟨hvalid.1, hvalid.2.1, hvalid.2.2.2⟩
    · exact ih h x hx

/-- The turn has all of the tool calls, if they are valid. -/
theorem turn_toolCalls (h : ToolCallAssembler.validCalls codec [] (m.calls.map ChatCall.pending) = true) :
    (m.turn codec text reasoning).toolCalls =
      m.calls.map fun call => ToolCallAssembler.finishCall codec call.pending := by
  have hvalid := validCalls_iff h
  change List.filter _ (List.map _ _) = _
  rw [List.map_map, List.filter_eq_self.2]
  · rfl
  · intro finished hfinished
    obtain ⟨call, hcall, rfl⟩ := List.mem_map.1 hfinished
    exact decide_eq_true (hvalid call hcall).2.1

/-- Valid calls are identified. -/
theorem identified_calls {calls : List ChatCall} (h : ∀ call ∈ calls, trim call.id ≠ "" ∧ trim call.name ≠ "" ∧
      ToolCallAssembler.hasObjectArguments codec call.pending = true) :
    List.Forall₂ IdentifiedCall (calls.map fun call => ToolCallAssembler.finishCall codec call.pending)
      (calls.map ChatCall.id) := by
  induction calls with
  | nil => exact .nil
  | cons call calls ih =>
    obtain ⟨hid, hname, harguments⟩ := h call (List.mem_cons_self ..)
    refine .cons ⟨hname, ?_, ?_, hid⟩ (ih fun c hc => h c (List.mem_cons_of_mem _ hc))
    · rw [ToolCallAssembler.hasObjectArguments] at harguments
      change ((codec.fromStr call.pending.arguments.toList).getD _).isObject = true
      cases hparsed : codec.fromStr call.pending.arguments.toList with
      | none =>
        rw [hparsed] at harguments
        cases harguments
      | some arguments =>
        rw [hparsed] at harguments
        exact harguments
    · exact if_neg hid

/-- **The turn is valid exactly when the message may end in its calls and has something to show.** -/
theorem turn_valid (hfinish : ChatCompletionsTurnAssembler.checkFinishReason m.finishReason = .ok ())
    (hcalls : ToolCallAssembler.validCalls codec [] (m.calls.map ChatCall.pending) = true) :
    ValidTurn (m.turn codec text reasoning) ↔ (m.finishReason = some "tool_calls" → m.calls ≠ []) ∧ m.Visible text := by
  have htools : (m.turn codec text reasoning).toolCalls = _ := turn_toolCalls hcalls
  have hnil : (m.turn codec text reasoning).toolCalls = [] ↔ m.calls = [] := by rw [htools, List.map_eq_nil_iff]
  constructor
  · intro hvalid
    refine ⟨fun hreason hempty => ?_, ?_⟩
    · exact hvalid.toolCalls (if_pos (.inr (.inl hreason))) (hnil.2 hempty)
    · rcases hvalid.visible with h | h | h | h
      · exact .inl (mt hnil.2 h)
      · exact .inr h
      · rw [turn_artifact] at h
        cases h
      · exact absurd turn_continuation h
  · rintro ⟨hreason, hvisible⟩
    refine ⟨hvisible.imp (mt hnil.1) .inl, fun hterminal => ?_, m.calls.map ChatCall.id, ?_, m.distinct⟩
    · rw [turn_terminal] at hterminal
      split at hterminal
      · rename_i h
        rcases h with h | h | h
        · exact h
        · exact mt hnil.1 (hreason h)
        · rw [h] at hfinish
          cases hfinish
      · cases hterminal
    · rw [htools]
      exact identified_calls (validCalls_iff hcalls)

theorem Assembled.accepted (h : m.Assembled text reasoning a) :
    ChatCompletionsTurnAssembler.checkFinishReason a.finishReason = .ok () ∧ a.tools.validate codec = .ok () ↔
      ChatCompletionsTurnAssembler.checkFinishReason m.finishReason = .ok () ∧
        ToolCallAssembler.validCalls codec [] (m.calls.map ChatCall.pending) = true := by
  rw [h.finishReason, ToolCallAssembler.validate, h.calls]
  split
  · rename_i hvalid
    simp [hvalid]
  · rename_i hvalid
    simp [hvalid]

/-- **What a response ends in**: the turn of its message, if it is accepted and has something to show. -/
theorem Assembled.result [Decidable (m.Accepted codec ∧ m.Visible text)]
    (h : m.Assembled text reasoning a.flushContent.1) :
    ((a.flushContent.1.finishChecked codec).bind validated).toOption =
      if m.Accepted codec ∧ m.Visible text then some (m.turn codec text reasoning) else none := by
  have hfinish : a.flushContent.1.finish codec = m.turn codec text reasoning := by
    rw [ChatCompletionsTurnAssembler.finish, ChatCompletionsTurnAssembler.flushContent_again, h.turn_eq]
  split
  · rename_i haccepted
    obtain ⟨⟨hreason, hcalls, htools⟩, hvisible⟩ := haccepted
    have hvalid : ValidTurn (m.turn codec text reasoning) := (turn_valid hreason hcalls).2 ⟨htools, hvisible⟩
    have hchecked : a.flushContent.1.finishChecked codec = .ok (m.turn codec text reasoning) := by
      rw [ChatCompletionsTurnAssembler.finishChecked_ok_iff, hfinish, ← and_assoc, h.accepted]
      exact ⟨⟨hreason, hcalls⟩, hvalid, rfl⟩
    rw [hchecked, Except.bind, validated_valid hvalid]
    rfl
  · rename_i hrejected
    cases hresult : (a.flushContent.1.finishChecked codec).bind validated with
    | error e => rfl
    | ok turn =>
      obtain ⟨finished, hfinished, -⟩ := except_bind_ok hresult
      rw [ChatCompletionsTurnAssembler.finishChecked_ok_iff, hfinish, ← and_assoc, h.accepted] at hfinished
      obtain ⟨⟨hreason, hcalls⟩, hvalid, -⟩ := hfinished
      obtain ⟨htools, hvisible⟩ := (turn_valid hreason hcalls).1 hvalid
      exact absurd ⟨⟨hreason, hcalls, htools⟩, hvisible⟩ hrejected

end

end ChatMessage

/-! ## The two forms of a response -/

/-- What decodes Chat Completions without the detection of cumulative deltas. -/
def chatDecoder (contract : Contract) (contentType : Option String) : DecoderConfig :=
  ⟨.chatCompletions, false, contract, contentType⟩

/-- A body that is a message in one JSON value. -/
structure BufferedBody (codec : WireCodec) (contentType : Option String) (bytes : List UInt8) (m : ChatMessage) :
    Prop where
  json : detectSse contentType bytes ≠ some true
  filled : bytes ≠ []
  value : ∃ value, codec.fromSlice bytes = some value ∧ value.hasError = false ∧ m.Buffered value.chatPiece

/-- A body that is a message in events, to `[DONE]`. -/
structure StreamedBody (codec : WireCodec) (contract : Contract) (contentType : Option String) (bytes : List UInt8)
    (m : ChatMessage) (values : List Value) : Prop where
  stream : ValueStream codec (chatDecoder contract contentType) bytes values
  streamed : m.Streamed (values.map Value.chatPiece)

section
variable {codec : WireCodec} {contract : Contract} {contentType : Option String} {bytes : List UInt8}
  {m : ChatMessage} {values : List Value}

theorem BufferedBody.decoded (h : BufferedBody codec contentType bytes m) : ∃ p, m.Buffered p ∧
    (decode codec (chatDecoder contract contentType) bytes).1 =
      (((contract.assembler false).applyPiece p).flushContent.1.finishChecked codec).bind validated := by
  obtain ⟨value, hvalue, hfine, hbuffered⟩ := h.value
  refine ⟨value.chatPiece, hbuffered, ?_⟩
  have hdecode : decode codec (chatDecoder contract contentType) bytes = _ := decode_body h.json
  rw [hdecode, TurnAssembly.finishRaw, if_neg h.filled, hvalue]
  simp only [hfine, Bool.false_eq_true, if_false]
  rw [← ChatCompletionsTurnAssembler.applyValue_piece]
  simp only [TurnAssembly.applyValue, DecoderConfig.start, chatDecoder, Sunk.ok, Sunk.andThen, Sunk.attempt_ok,
    TurnAssembly.close_eq, TurnAssembly.finished]

theorem StreamedBody.decoded (h : StreamedBody codec contract contentType bytes m values) :
    (decode codec (chatDecoder contract contentType) bytes).1 =
      (((values.map Value.chatPiece).foldl ChatCompletionsTurnAssembler.applyPiece
        (contract.assembler false)).flushContent.1.finishChecked codec).bind validated := by
  rw [decode_chatStream rfl h.stream, ← ChatCompletionsTurnAssembler.applyValues_pieces]
  rfl

end

/-! ## When the two forms agree -/

namespace ChatMessage

/-- The content of the message is parsed for thoughts when it comes in one piece. -/
def Parsed (contract : Contract) (m : ChatMessage) : Prop := (contract.gemini || m.extra.any announces) = true

instance (contract : Contract) (m : ChatMessage) : Decidable (m.Parsed contract) := inferInstanceAs (Decidable (_ = true))

/-- The two forms of a message have the same text, and the same reasoning if there is something to show. Where the
content is parsed as a whole, no tag begins before the stream announces the contract, the visible text does not end
with a beginning of what is held back, and the reasoning with none of the thoughts. Where it is not, no tag comes
after a tool call has announced the contract. -/
def SameText (contract : Contract) (m : ChatMessage) (ps : List ChatPiece) : Prop :=
  if m.Parsed contract then
    thoughtScanner.ClearTo false (splitContent contract.gemini ps).1.length m.content ∧
    Unlapped (shownText m.content) (tailText m.content) ∧
    (¬ m.Visible (shownText m.content ++ tailText m.content) ∨
      Unlapped m.reasoning (shownThoughts m.content) ∧
        Unlapped (m.reasoning ++ shownThoughts m.content) (tailThoughts m.content))
  else
    thoughtScanner.ClearTo false (splitContent contract.gemini ps).2.length (splitContent contract.gemini ps).2

section
variable {codec : WireCodec} {m : ChatMessage} {text text' reasoning reasoning' : List Char}

/-- Turns are the same if their texts and their reasonings are, or if there are none. -/
theorem result_eq_iff [Decidable (m.Accepted codec ∧ m.Visible text)] [Decidable (m.Accepted codec ∧ m.Visible text')] :
    ((if m.Accepted codec ∧ m.Visible text then some (m.turn codec text reasoning) else none) =
      if m.Accepted codec ∧ m.Visible text' then some (m.turn codec text' reasoning') else none) ↔
      (m.Accepted codec → ¬ m.Visible text ∧ ¬ m.Visible text' ∨ text = text' ∧ reasoning = reasoning') := by
  have hsame : m.turn codec text reasoning = m.turn codec text' reasoning' ↔ text = text' ∧ reasoning = reasoning' := by
    constructor
    · intro h
      exact ⟨String.ofList_injective (congrArg ModelTurn.text h), String.ofList_injective (congrArg ModelTurn.reasoning h)⟩
    · rintro ⟨rfl, rfl⟩
      rfl
  by_cases haccepted : m.Accepted codec
  · by_cases hvisible : m.Visible text <;> by_cases hvisible' : m.Visible text'
    · simp [haccepted, hvisible, hvisible', hsame]
    · simp only [haccepted, hvisible, hvisible', and_true, if_true, and_false, if_false, reduceCtorEq,
        not_true_eq_false, false_and, false_or, forall_const, false_iff, not_and]
      rintro rfl
      exact absurd hvisible hvisible'
    · simp only [haccepted, hvisible, hvisible', true_and, if_true, if_false, reduceCtorEq,
        not_true_eq_false, and_false, false_or, forall_const, false_iff, not_and]
      rintro rfl
      exact absurd hvisible' hvisible
    · simp [haccepted, hvisible, hvisible']
  · simp [haccepted]

/-- A text with the mark of a tag is something to show. -/
theorem visible_of_mark (h : '<' ∈ text) : m.Visible text := .inr (trim_mark h)

/-- A tag that begins in a part of a content is in that part. -/
theorem mark_of_not_clear {raw parsed : List Char}
    (h : ¬ thoughtScanner.ClearTo false raw.length (raw ++ parsed)) : '<' ∈ raw := by
  induction raw with
  | nil => exact absurd (fun _ _ => Nat.zero_le _) h
  | cons c raw ih =>
    by_cases htag : TagAhead false (c :: (raw ++ parsed))
    · have hhead : c.toLower = '<' := by
        obtain ⟨rest, hrest⟩ := htag
        rw [List.map_cons] at hrest
        exact (List.cons.inj hrest).1.symm
      rw [eq_of_toLower (by decide) hhead]
      exact List.mem_cons_self ..
    · refine List.mem_cons_of_mem _ (ih fun hclear => h fun r hr => ?_)
      rw [List.cons_append, findTag, tagAt_clear htag] at hr
      obtain ⟨r', hr', rfl⟩ := Option.map_eq_some_iff.1 hr
      exact Nat.succ_le_succ (hclear r' hr')

/-- **A content that is parsed as a whole.** -/
theorem sameText_parsed {raw parsed : List Char} (hcontent : raw ++ parsed = m.content) :
    (¬ m.Visible (joinText (shownText m.content) (tailText m.content)) ∧ ¬ m.Visible (raw ++ visibleFrom false parsed) ∨
      joinText (shownText m.content) (tailText m.content) = raw ++ visibleFrom false parsed ∧
      joinText (joinText m.reasoning (shownThoughts m.content)) (tailThoughts m.content) =
        m.reasoning ++ thoughtsFrom false parsed) ↔
    thoughtScanner.ClearTo false raw.length m.content ∧
    Unlapped (shownText m.content) (tailText m.content) ∧
    (¬ m.Visible (shownText m.content ++ tailText m.content) ∨
      Unlapped m.reasoning (shownThoughts m.content) ∧
        Unlapped (m.reasoning ++ shownThoughts m.content) (tailThoughts m.content)) := by
  have htext := shownText_append_tail m.content
  have hthoughts := shownThoughts_append_tail m.content
  have hclear_text (hclear : thoughtScanner.ClearTo false raw.length m.content) :
      raw ++ visibleFrom false parsed = shownText m.content ++ tailText m.content := by
    rw [htext, ← hcontent, visibleFrom_clear (hcontent ▸ hclear)]
  have hclear_thoughts (hclear : thoughtScanner.ClearTo false raw.length m.content) :
      thoughtsFrom false parsed = shownThoughts m.content ++ tailThoughts m.content := by
    rw [hthoughts, ← hcontent, thoughtsFrom_clear (hcontent ▸ hclear)]
  constructor
  · intro h
    have hclear : thoughtScanner.ClearTo false raw.length m.content := by
      by_contra hclear
      rw [← hcontent] at hclear
      rcases h with ⟨-, hblank⟩ | ⟨hsame, -⟩
      · exact hblank (visible_of_mark (List.mem_append_left _ (mark_of_not_clear hclear)))
      · have hlt := visibleFrom_lt hclear
        have hle := joinText_length (shownText m.content) (tailText m.content)
        rw [hcontent, ← htext, List.length_append] at hlt
        rw [hsame, List.length_append] at hle
        omega
    have hunlapped : Unlapped (shownText m.content) (tailText m.content) := by
      rw [← joinText_eq_append]
      rcases h with ⟨-, hblank⟩ | ⟨hsame, -⟩
      · by_cases htail : tailText m.content = []
        · rw [htail, joinText_nil_right, List.append_nil]
        · rw [hclear_text hclear] at hblank
          exact absurd (visible_of_mark (List.mem_append_right _ (tailText_mark htail))) hblank
      · rw [hsame, hclear_text hclear]
    refine ⟨hclear, hunlapped, ?_⟩
    rcases h with ⟨-, hblank⟩ | ⟨-, hsame⟩
    · exact .inl (hclear_text hclear ▸ hblank)
    · rw [hclear_thoughts hclear] at hsame
      exact .inr (joinText_joinText.1 hsame)
  · rintro ⟨hclear, hunlapped, h⟩
    rw [hclear_text hclear, hclear_thoughts hclear, joinText_eq_append.2 hunlapped]
    rcases h with hblank | hunlapped
    · exact .inl ⟨hblank, hblank⟩
    · exact .inr ⟨rfl, joinText_joinText.2 hunlapped⟩

/-- **A content that is not.** -/
theorem sameText_raw {raw parsed : List Char} (hcontent : raw ++ parsed = m.content) :
    (¬ m.Visible m.content ∧ ¬ m.Visible (raw ++ visibleFrom false parsed) ∨
      m.content = raw ++ visibleFrom false parsed ∧ m.reasoning = m.reasoning ++ thoughtsFrom false parsed) ↔
    thoughtScanner.ClearTo false parsed.length parsed := by
  have hwhole : parsed ++ [] = parsed := List.append_nil parsed
  constructor
  · intro h
    by_contra hclear
    rcases h with ⟨hblank, -⟩ | ⟨hsame, -⟩
    · have hmark : '<' ∈ parsed := mark_of_not_clear (by rwa [hwhole])
      exact hblank (visible_of_mark (hcontent ▸ List.mem_append_right _ hmark))
    · rw [← hcontent, List.append_right_inj] at hsame
      exact hclear (visibleFrom_eq_self.1 hsame.symm)
  · intro hclear
    have hthoughts : thoughtsFrom false (parsed ++ []) = _ := thoughtsFrom_clear (by rwa [hwhole])
    rw [hwhole] at hthoughts
    rw [visibleFrom_eq_self.2 hclear, hthoughts, hcontent]
    exact .inr ⟨rfl, (List.append_nil _).symm⟩

end

end ChatMessage

/-- **The two forms of a message give the same turn exactly when they have the same text.** -/
theorem same_turn_iff {codec : WireCodec} {contract : Contract} {jsonType eventType : Option String}
    {body stream : List UInt8} {m : ChatMessage} {values : List Value} (hbody : BufferedBody codec jsonType body m)
    (hstream : StreamedBody codec contract eventType stream m values) :
    (decode codec (chatDecoder contract jsonType) body).1.toOption =
      (decode codec (chatDecoder contract eventType) stream).1.toOption ↔
    (m.Accepted codec → m.SameText contract (values.map Value.chatPiece)) := by
  classical
  obtain ⟨p, hbuffered, hdecode⟩ := @BufferedBody.decoded _ contract _ _ _ hbody
  have hcontent := (splitContent_append contract.gemini (values.map Value.chatPiece)).trans hstream.streamed.content
  rw [hdecode, hstream.decoded, (hbuffered.assembled contract).result, (hstream.streamed.assembled contract).result,
    ChatMessage.result_eq_iff]
  refine imp_congr_right fun _ => ?_
  by_cases hparsed : (contract.gemini || m.extra.any announces) = true
  · rw [ChatMessage.SameText, if_pos (show m.Parsed contract from hparsed), if_pos hparsed, if_pos hparsed]
    exact ChatMessage.sameText_parsed hcontent
  · rw [ChatMessage.SameText, if_neg (show ¬ m.Parsed contract from hparsed), if_neg hparsed, if_neg hparsed]
    exact ChatMessage.sameText_raw hcontent

/-! Messages with content only. -/

def messageValue (content : String) : Value :=
  .object [("choices", .array [.object [("finish_reason", .string "stop"),
    ("message", .object [("content", .string content)])]])]

def messageText (content : String) : List Char :=
  "\x7b\"choices\":[\x7b\"message\":\x7b".toList ++ "\"content\":\"".toList ++ content.toList ++
    "\"\x7d,\"finish_reason\":\"stop\"\x7d]\x7d".toList

def contentMessage (content : String) : ChatMessage := ⟨[], content.toList, [], none, some "stop", none, List.nodup_nil⟩

def jsonBody : Option String := some "application/json"

def geminiContract : Contract := ⟨false, true⟩

def messageCodec (content : String) : WireCodec :=
  tableCodec [(messageText content, messageValue content), (contentText content, contentValue content),
    (finishText "stop", stopChunk)] []

def messageStream (content : String) : List UInt8 :=
  dataEvent (contentText content) ++ dataEvent (finishText "stop") ++ doneEvent

theorem contentMessage_buffered {content : String} (h : content ≠ "") :
    (contentMessage content).Buffered (messageValue content).chatPiece where
  usage := rfl
  finishReason := rfl
  snapshot := rfl
  extra := rfl
  reasoning := rfl
  content := by
    have hcontent : deltaContent (.object [("content", .string content)]) = some content.toList := by
      have hget : (Value.object [("content", .string content)]).getStr "content" = some content := rfl
      rw [deltaContent, hget, Option.filter_some, if_pos (by simpa using h)]
      rfl
    change (deltaContent (.object [("content", .string content)])).getD [] = _
    rw [hcontent]
    rfl
  thought := rfl
  toolCalls := .nil

theorem contentMessage_streamed {content : String} (h : content ≠ "") :
    (contentMessage content).Streamed ([contentValue content, stopChunk].map Value.chatPiece) where
  deltas p hp := by
    rcases List.mem_cons.1 hp with rfl | hp
    · exact ⟨rfl, rfl⟩
    · obtain rfl := List.mem_singleton.1 hp
      exact ⟨rfl, rfl⟩
  usage := rfl
  finishReason := rfl
  extra := rfl
  announced := rfl
  reasoning := rfl
  content := by
    have hcontent : (contentValue content).chatPiece.contentText = content.toList := by
      have hget : (Value.object [("content", .string content)]).getStr "content" = some content := rfl
      change (deltaContent (.object [("content", .string content)])).getD [] = _
      rw [deltaContent, hget, Option.filter_some, if_pos (by simpa using h)]
      rfl
    rw [List.map_cons, List.flatMap_cons, hcontent]
    exact List.append_nil _
  order := by
    refine List.Pairwise.cons (fun q hq => ?_) (List.pairwise_singleton _ _)
    obtain rfl := List.mem_singleton.1 hq
    exact .inr rfl
  toolCalls := ⟨fun _ h => absurd h List.not_mem_nil, fun i h => absurd h (Nat.not_lt_zero i)⟩

/-- What is held back at the end of a buffered content is joined to the text before it. -/
theorem held_back_lost : BufferedBody (messageCodec "<<") jsonBody (asciiBytes (messageText "<<")) (contentMessage "<<") ∧
    StreamedBody (messageCodec "<<") geminiContract eventStream (messageStream "<<") (contentMessage "<<")
      [contentValue "<<", stopChunk] ∧
    (decode (messageCodec "<<") (chatDecoder geminiContract jsonBody)
      (asciiBytes (messageText "<<"))).1.toOption.map ModelTurn.text = some "<" ∧
    (decode (messageCodec "<<") (chatDecoder geminiContract eventStream) (messageStream "<<")).1.toOption.map
      ModelTurn.text = some "<<" := by
  have hstream : ValueStream (messageCodec "<<") (chatDecoder geminiContract eventStream) (messageStream "<<")
      [contentValue "<<", stopChunk] := .of_read (by decide) (by decide +kernel)
  refine ⟨⟨by decide, by decide, _, by decide +kernel, rfl, contentMessage_buffered (by decide)⟩,
    ⟨hstream, contentMessage_streamed (by decide)⟩, by decide +kernel, ?_⟩
  rw [decode_chatStream rfl hstream]
  decide +kernel

theorem same_turn_iff_hi :
    (decode (messageCodec "hi") (chatDecoder geminiContract jsonBody) (asciiBytes (messageText "hi"))).1.toOption =
      (decode (messageCodec "hi") (chatDecoder geminiContract eventStream) (messageStream "hi")).1.toOption := by
  have hbody : BufferedBody (messageCodec "hi") jsonBody (asciiBytes (messageText "hi")) (contentMessage "hi") :=
    ⟨by decide, by decide, _, by decide +kernel, rfl, contentMessage_buffered (by decide)⟩
  have hstream : StreamedBody (messageCodec "hi") geminiContract eventStream (messageStream "hi") (contentMessage "hi")
      [contentValue "hi", stopChunk] := ⟨.of_read (by decide) (by decide +kernel), contentMessage_streamed (by decide)⟩
  refine (same_turn_iff hbody hstream).2 fun _ => ?_
  rw [ChatMessage.SameText, if_pos (by rfl)]
  exact ⟨by decide, by decide, .inr ⟨by decide, by decide⟩⟩

end Aifluxon
