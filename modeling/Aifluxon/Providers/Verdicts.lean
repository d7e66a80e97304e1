import Aifluxon.Providers.Cumulative
import Aifluxon.Providers.Effects

/-!
# How a stream says that it has failed

* `verdict` : what a value says of the end of its response;
* `TurnAssembly.verdict`, `heeds`, `applyValue_verdict` : the last verdict that is heeded stands;
* `close_verdict` : a turn is returned only after a success;
* `failed_stream_rejected` : a failure after which no success comes.
-/

namespace Aifluxon

/-! ## Responses -/

namespace ResponsesTurnState

variable {codec : WireCodec} {s s' : ResponsesTurnState} {value : Value}

/-- The value is one of the Responses API, and is no repetition. -/
def heeds (codec : WireCodec) (s : ResponsesTurnState) (value : Value) : Bool :=
  looksLikeResponsesStreamValue value && match s.acceptEvent codec value with
    | .ok (true, _) => true
    | _ => false

theorem applyValue_terminal {allow : Bool} (h : (s.applyValue codec allow value).1 = .ok s') :
    s'.terminal = if s.heeds codec value then (terminalStatus value).or s.terminal else s.terminal := by
  have hcalls : s.applyValue codec allow value = (.ok s', (s.applyValue codec allow value).2) := Prod.ext h rfl
  unfold heeds
  rcases applyValue_cases hcalls with ⟨hlooks, rfl, -⟩ | ⟨hlooks, haccept, -⟩ | ⟨s₁, calls, hlooks, haccept, htyped, -⟩
  · simp [hlooks]
  · obtain ⟨_, _, haccepted⟩ := acceptEvent_frame haccept
    simp [hlooks, haccept, haccepted]
  · obtain ⟨_, _, haccepted⟩ := acceptEvent_frame haccept
    obtain ⟨_, _, _, hheeded⟩ := heeded_frame (s := s₁) value
    rw [(applyTyped_changes htyped).terminal, hheeded, haccepted]
    simp [hlooks, haccept]

end ResponsesTurnState

/-! ## Verdicts -/

/-- The finish reasons of a turn. -/
def isSuccessReason (reason : String) : Bool := reason = "stop" ∨ reason = "tool_calls"

theorem checkFinishReason_ok {reason : Option String}
    (h : ChatCompletionsTurnAssembler.checkFinishReason reason = .ok ()) : reason.map isSuccessReason = some true := by
  unfold ChatCompletionsTurnAssembler.checkFinishReason at h
  split at h
  · rfl
  · rfl
  all_goals cases h

/-- What a value says of the end of its response: success or failure. -/
def verdict (mode : OpenAiApiMode) (value : Value) : Option Bool :=
  match mode with
  | .chatCompletions => (value.choice.bind choiceFinishReason).map isSuccessReason
  | .responses => (terminalStatus value).map fun status => status = .completed

namespace TurnAssembly

variable {codec : WireCodec} {a a' : TurnAssembly} {value : Value} {turn : ModelTurn}

/-- What the values so far say. -/
def verdict (a : TurnAssembly) : Option Bool :=
  match a.mode with
  | .chatCompletions => a.chat.finishReason.map isSuccessReason
  | .responses => a.responses.state.terminal.map fun status => status = .completed

/-- A value is read. -/
def heeds (codec : WireCodec) (a : TurnAssembly) (value : Value) : Bool :=
  match a.mode with
  | .chatCompletions => true
  | .responses => a.responses.state.heeds codec value

/-- **The last verdict that is heeded stands.** -/
theorem applyValue_verdict (h : (a.applyValue codec value).1 = .ok a') :
    a'.verdict = if a.heeds codec value then (Aifluxon.verdict a.mode value).or a.verdict else a.verdict := by
  unfold applyValue at h
  cases hmode : a.mode with
  | chatCompletions =>
    simp only [hmode, Sunk.ok, Sunk.andThen] at h
    cases h
    simp only [verdict, heeds, hmode, Aifluxon.verdict, if_true, ChatCompletionsTurnAssembler.applyValue_finishReason]
    cases value.choice.bind choiceFinishReason <;> rfl
  | responses =>
    simp only [hmode] at h
    obtain ⟨responses, hresponses, h⟩ := Sunk.attempt_eq_ok h
    cases h
    obtain ⟨state, hstate, h⟩ := Sunk.attempt_eq_ok hresponses
    cases h
    have hterminal := ResponsesTurnState.applyValue_terminal hstate
    simp only [verdict, heeds, hmode, Aifluxon.verdict, hterminal]
    split
    · cases terminalStatus value <;> rfl
    · rfl

theorem applyValues_verdict (ha : a.verdict = some false) {values : List Value}
    (hvalues : ∀ value ∈ values, Aifluxon.verdict a.mode value ≠ some true)
    (h : (a.applyValues codec values).1 = .ok a') : a'.verdict = some false := by
  induction values generalizing a with
  | nil => cases h; exact ha
  | cons value values ih =>
    obtain ⟨a₁, ha₁, h⟩ := Sunk.attempt_eq_ok h
    have hmode := (applyValue_frame ha₁).1
    refine ih ?_ (fun v hv => hmode ▸ hvalues v (List.mem_cons_of_mem _ hv)) h
    have hvalue := hvalues value (List.mem_cons_self ..)
    rw [applyValue_verdict ha₁, ha]
    split
    · cases hverdict : Aifluxon.verdict a.mode value with
      | none => rfl
      | some b =>
        cases b with
        | true => exact absurd hverdict hvalue
        | false => rfl
    · rfl

theorem close_verdict (h : (a.close codec).1 = .ok turn) : a.verdict = some true := by
  rw [close_eq] at h
  obtain ⟨finished, hfinished, -⟩ := except_bind_ok h
  cases hmode : a.mode with
  | chatCompletions =>
    simp only [TurnAssembly.finished, hmode] at hfinished
    have hreason := (ChatCompletionsTurnAssembler.finishChecked_ok_iff.1 hfinished).1
    rw [ChatCompletionsTurnAssembler.flushContent_finishReason] at hreason
    simp only [verdict, hmode, checkFinishReason_ok hreason]
  | responses =>
    simp only [TurnAssembly.finished, hmode] at hfinished
    simp only [verdict, hmode, (ResponsesTurnState.finishChecked_ok_iff.1 hfinished).1]
    rfl

end TurnAssembly

/-! ## Streams -/

section
variable {codec : WireCodec} {config : DecoderConfig} {bytes : List UInt8} {turn : ModelTurn}

/-- A value of a stream says that the response has failed, it is heeded, and no value after it says that the
response has succeeded. -/
def FailureStands (codec : WireCodec) (config : DecoderConfig) (values : List Value) : Prop :=
  ∃ before failing after a, values = before ++ failing :: after ∧
    (config.start.applyValues codec before).1 = .ok a ∧ a.heeds codec failing = true ∧
    verdict config.mode failing = some false ∧ ∀ value ∈ after, verdict config.mode value ≠ some true

/-- **A failure after which no success comes.** -/
theorem failed_stream_rejected (hsse : detectSse config.contentType bytes = some true)
    (hfailed : ∀ values, ValueStream codec config bytes values → FailureStands codec config values)
    (turn : ModelTurn) : (decode codec config bytes).1 ≠ .ok turn := by
  intro hturn
  obtain ⟨values, hstream⟩ := valueStream_of_ok hsse hturn
  obtain ⟨before, failing, after, a, rfl, ha, hheeds, hfailing, hafter⟩ := hfailed values hstream
  rw [decode_stream hstream, TurnAssembly.applyValues_append, Sunk.attempt_assoc] at hturn
  obtain ⟨a₁, ha₁, hturn⟩ := Sunk.attempt_eq_ok hturn
  obtain rfl : a = a₁ := Except.ok.inj (ha.symm.trans ha₁)
  obtain ⟨a₂, ha₂, hclose⟩ := Sunk.attempt_eq_ok hturn
  obtain ⟨a₃, ha₃, hrest⟩ := Sunk.attempt_eq_ok ha₂
  have hmode : a.mode = config.mode := (TurnAssembly.applyValues_frame ha).1
  have hmode₃ : a₃.mode = config.mode := (TurnAssembly.applyValue_frame ha₃).1.trans hmode
  have hverdict : a₃.verdict = some false := by
    rw [TurnAssembly.applyValue_verdict ha₃, if_pos hheeds, hmode, hfailing]
    rfl
  have hstands := TurnAssembly.applyValues_verdict hverdict (by rw [hmode₃]; exact hafter) hrest
  rw [TurnAssembly.close_verdict hclose] at hstands
  cases hstands

end

/-! Streams in which a success comes after a failure, or does not. -/

def lengthChunk : Value :=
  .object [("choices", .array [.object [("delta", .object []), ("finish_reason", .string "length")]])]

def lengthCodec : WireCodec :=
  tableCodec [(contentText "ha", contentValue "ha"), (finishText "length", lengthChunk), (finishText "stop", stopChunk)] []

def lengthStream : List UInt8 := dataEvent (contentText "ha") ++ dataEvent (finishText "length")

def failedProgress : Value :=
  .object [("response", .object [("status", .string "failed")]), ("type", .string "response.in_progress")]

def failedProgressText : List Char :=
  "\x7b\"type\":\"response.in_progress\",".toList ++ "\"response\":\x7b\"status\":\"failed\"\x7d\x7d".toList

def completedEvent : Value :=
  .object [("response", .object [("output_text", .string "ha"), ("status", .string "completed")]),
    ("type", .string "response.completed")]

def completedText : List Char :=
  "\x7b\"type\":\"response.completed\",".toList ++ "\"response\":\x7b\"status\":\"completed\",".toList ++
    "\"output_text\":\"ha\"\x7d\x7d".toList

def failedCodec : WireCodec :=
  tableCodec [(failedProgressText, failedProgress), (completedText, completedEvent)] []

def plainResponses : DecoderConfig := ⟨.responses, false, .plain, eventStream⟩

/-- A success after a failure is a turn, in both modes. -/
theorem failure_overruled :
    (ValueStream lengthCodec (customDecoder eventStream) (lengthStream ++ dataEvent (finishText "stop") ++ doneEvent)
        [contentValue "ha", lengthChunk, stopChunk] ∧
      verdict .chatCompletions lengthChunk = some false ∧
      (decode lengthCodec (customDecoder eventStream)
        (lengthStream ++ dataEvent (finishText "stop") ++ doneEvent)).1.toOption.map ModelTurn.text = some "ha") ∧
    (ValueStream failedCodec plainResponses (dataEvent failedProgressText ++ dataEvent completedText)
        [failedProgress, completedEvent] ∧
      verdict .responses failedProgress = some false ∧
      (decode failedCodec plainResponses
        (dataEvent failedProgressText ++ dataEvent completedText)).1.toOption.map ModelTurn.text = some "ha") := by
  have hchat : ValueStream lengthCodec (customDecoder eventStream)
      (lengthStream ++ dataEvent (finishText "stop") ++ doneEvent) [contentValue "ha", lengthChunk, stopChunk] :=
    .of_read (by decide) (by decide +kernel)
  have hresponses : ValueStream failedCodec plainResponses (dataEvent failedProgressText ++ dataEvent completedText)
      [failedProgress, completedEvent] := .of_read (by decide) (by decide +kernel)
  refine ⟨⟨hchat, by decide, ?_⟩, ⟨hresponses, by decide, ?_⟩⟩
  · rw [decode_chatStream rfl hchat]
    decide +kernel
  · rw [decode_stream hresponses]
    decide +kernel

theorem failed_stream_rejected_length :
    (decode lengthCodec (customDecoder eventStream) (lengthStream ++ doneEvent)).1.toOption = none := by
  have hcarried : carriedValues lengthCodec .chatCompletions (eventsOf (lengthStream ++ doneEvent)) =
      some [contentValue "ha", lengthChunk] := by decide +kernel
  have hfailed (values : List Value)
      (h : ValueStream lengthCodec (customDecoder eventStream) (lengthStream ++ doneEvent) values) :
      FailureStands lengthCodec (customDecoder eventStream) values := by
    obtain rfl : [contentValue "ha", lengthChunk] = values := Option.some.inj (hcarried.symm.trans h.carried)
    exact ⟨[contentValue "ha"], lengthChunk, [], _, rfl, rfl, rfl, by decide, by simp⟩
  cases h : (decode lengthCodec (customDecoder eventStream) (lengthStream ++ doneEvent)).1 with
  | error e => rfl
  | ok turn => exact absurd h (failed_stream_rejected (by decide) hfailed turn)

end Aifluxon
