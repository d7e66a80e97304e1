import Aifluxon.Providers.Cumulative

/-!
# The first line of a stream of events

A body without a content type is a stream of events if it begins as one.

* `BeginsEvents` : the beginnings of a body that is taken as a stream of events;
* `Readable` : a result that is not that of a body which is no JSON text;
* `TurnAssembly.applyEvents_readable`, `endOfEvents_readable` : the results of a stream of events are;
* `missing_content_type_iff` : when a body decodes as it does with the content type of a stream of events.
-/

namespace Aifluxon

/-- After byte order marks and blanks, the body begins with a comment or with one of three fields. -/
def BeginsEvents (bytes : List UInt8) : Prop :=
  ∃ field ∈ [":", "data:", "event:", "id:"], field.toList <+: bodyStart (fromUtf8Lossy bytes)

theorem detectStart_eq_true {start : List Char} :
    detectStart start = some true ↔ ∃ field ∈ [":", "data:", "event:", "id:"], field.toList <+: start := by
  unfold detectStart
  constructor
  · intro h
    split at h
    · rename_i hany
      obtain ⟨field, hmem, hprefix⟩ := List.any_eq_true.1 hany
      exact ⟨field, hmem, List.isPrefixOf_iff_prefix.1 hprefix⟩
    · split at h <;> cases h
  · rintro ⟨field, hmem, hprefix⟩
    rw [if_pos (List.any_eq_true.2 ⟨field, hmem, List.isPrefixOf_iff_prefix.2 hprefix⟩)]

theorem detectSse_missing (bytes : List UInt8) : detectSse none bytes = some true ↔ BeginsEvents bytes := by
  rw [detectSse, if_neg (show ¬ isEventStream none = true by decide)]
  exact detectStart_eq_true

instance (bytes : List UInt8) : Decidable (BeginsEvents bytes) := decidable_of_iff _ (detectSse_missing bytes)

/-! ## Results that are not those of a malformed body -/

/-- A result other than that of a body which is no JSON text. -/
def Readable {α : Type} (x : Except ProviderError α) : Prop := x ≠ .error malformedBody

namespace Readable

variable {α β : Type}

theorem ok (a : α) : Readable (.ok a : Except ProviderError α) := by
  intro h
  cases h

theorem error {message : String} (h : message ≠ malformedBody.message) :
    Readable (.error ⟨message⟩ : Except ProviderError α) := by
  intro heq
  exact h (congrArg ProviderError.message (Except.error.inj heq))

theorem bind {x : Except ProviderError α} {next : α → Except ProviderError β} (hx : Readable x)
    (hnext : ∀ a, Readable (next a)) : Readable (x >>= next) := by
  cases x with
  | error e =>
    intro h
    exact hx (congrArg Except.error (Except.error.inj h))
  | ok a => exact hnext a

theorem map {x : Except ProviderError α} (hx : Readable x) (f : α → β) : Readable (x.map f) := by
  cases x with
  | error e =>
    intro h
    exact hx (congrArg Except.error (Except.error.inj h))
  | ok a => exact .ok (f a)

theorem attempt {x : Sunk (Except ProviderError α)} {next : α → Sunk (Except ProviderError β)}
    (hx : Readable x.1) (hnext : ∀ a, x.1 = .ok a → Readable (next a).1) : Readable (x.attempt next).1 := by
  obtain ⟨e | a, calls⟩ := x
  · intro h
    exact hx (congrArg Except.error (Except.error.inj h))
  · exact hnext a rfl

end Readable

/-- A message that begins in another way. -/
theorem append_ne {start text : String} (h : start.toList.isPrefixOf text.toList = false) (rest : String) :
    start ++ rest ≠ text := by
  rintro rfl
  rw [String.toList_append, Bool.eq_false_iff] at h
  exact h (List.isPrefixOf_iff_prefix.2 (List.prefix_append _ _))

/-! Results of a turn. -/

section
variable (codec : WireCodec)

theorem validateTurn_readable (turn : ModelTurn) : Readable (validateTurn turn) := by
  unfold validateTurn
  split
  · exact .error (by decide)
  · split
    · exact .error (by decide)
    · split
      · exact .ok ()
      · exact .error (by decide)

theorem ToolCallAssembler.validate_readable (tools : ToolCallAssembler) : Readable (tools.validate codec) := by
  unfold ToolCallAssembler.validate
  split
  · exact .ok ()
  · exact .error (by decide)

theorem ChatCompletionsTurnAssembler.finishChecked_readable (a : ChatCompletionsTurnAssembler) :
    Readable (a.finishChecked codec) := by
  refine .bind ?_ fun _ => .bind (a.tools.validate_readable codec) fun _ =>
    .bind (validateTurn_readable _) fun _ => .ok _
  unfold checkFinishReason
  split
  · exact .ok ()
  · exact .ok ()
  all_goals exact .error (by decide)

theorem ResponsesTurnState.finishChecked_readable (s : ResponsesTurnState) : Readable (s.finishChecked codec) := by
  have hfinish : Readable (s.finish codec) := by
    unfold finish
    split
    · exact .ok _
    · exact .error (append_ne (by decide) _)
    · exact .error (by decide)
    · exact .error (by decide)
  unfold finishChecked
  split
  · exact .bind (s.tools.validate_readable codec) fun _ => hfinish
  · exact hfinish

theorem TurnAssembly.close_readable (a : TurnAssembly) : Readable (a.close codec).1 := by
  rw [TurnAssembly.close_eq]
  have hfinished : Readable (a.finished codec) := by
    unfold finished
    split
    · exact a.chat.flushContent.1.finishChecked_readable codec
    · exact a.responses.state.finishChecked_readable codec
  have hvalidated (turn : ModelTurn) : Readable (validated turn) := by
    unfold validated
    split
    · exact .ok turn
    · exact (validateTurn_readable turn).map _
  exact hfinished.bind hvalidated

theorem TurnAssembly.endOfEvents_readable (a : TurnAssembly) : Readable (a.endOfEvents codec).1 := by
  unfold endOfEvents
  split
  · exact a.close_readable codec
  · exact .error (by decide)

end

/-! Results of events. -/

theorem strictCompleteTextSuffix_error {current complete : List Char} {message : String}
    (h : strictCompleteTextSuffix current complete = .error message) :
    message = "Responses stream text diverged from its completed snapshot." := by
  unfold strictCompleteTextSuffix at h
  split at h
  · cases h
  · split at h
    · cases h
    · exact (Except.error.inj h).symm

namespace ResponsesTurnState

variable {codec : WireCodec} {s : ResponsesTurnState} {value : Value} {allow : Bool}

theorem acceptEvent_readable (value : Value) : Readable (s.acceptEvent codec value) := by
  unfold acceptEvent
  split
  · split
    · split
      · exact .ok _
      · split
        · simp only [String.append_assoc]
          exact .error (append_ne (by decide) _)
        · exact .ok _
    · exact .ok _
  · split
    · split <;> exact .ok _
    · exact .ok _

theorem completePart_readable (kind : PartKind) (text : List Char) : Readable (s.completePart kind value text).1 := by
  simp only [completePart]
  split
  · rename_i message hmessage
    unfold TextDeltaReconciler.complete at hmessage
    split at hmessage
    · rename_i hstrict
      cases hmessage
      rw [strictCompleteTextSuffix_error hstrict]
      exact .error (by decide)
    · cases hmessage
    · cases hmessage
  · exact .ok _

theorem applyTerminalSnapshot_readable (response : Value) : Readable (s.applyTerminalSnapshot codec response).1 := by
  simp only [applyTerminalSnapshot]
  split
  · rename_i message hmessage
    unfold reconcileTerminalText at hmessage
    split at hmessage
    · cases hmessage
      exact .error (by decide)
    · rw [strictCompleteTextSuffix_error hmessage]
      exact .error (by decide)
  · exact .ok _

theorem applyTyped_readable (value : Value) : Readable (s.applyTyped codec allow value).1 := by
  generalize hx : s.applyTyped codec allow value = x
  cases hx ▸ s.applyTyped_effect codec allow value with
  | keep | push | outputDone | functionCall | arguments | item => exact .ok _
  | complete kind text => exact completePart_readable kind text
  | completeOutput text => exact completePart_readable .output text
  | snapshot response => exact applyTerminalSnapshot_readable response

/-- A value is readable, if its own message is another one. -/
theorem applyValue_readable (h : failureMessage value ≠ malformedBody.message) :
    Readable (s.applyValue codec allow value).1 := by
  unfold applyValue
  split
  · exact .ok s
  · split
    · rename_i e he
      have haccept : Readable (s.acceptEvent codec value) := acceptEvent_readable value
      rw [he] at haccept
      intro heq
      exact haccept (congrArg Except.error (Except.error.inj heq))
    · exact .ok _
    · simp only
      split
      · exact .error h
      · exact .attempt (.ok _) fun s _ => applyTyped_readable value

end ResponsesTurnState

namespace TurnAssembly

variable {codec : WireCodec} {a : TurnAssembly}

theorem applyEventValue_readable {value : Value} (name : Option String)
    (h : a.mode = .responses → failureMessage value ≠ malformedBody.message) :
    Readable (a.applyEventValue codec name value).1 := by
  unfold applyEventValue
  split
  · exact .error (by decide)
  · refine .attempt ?_ fun a _ => ?_
    · unfold applyValue
      split
      · exact .ok _
      · rename_i hmode
        exact .attempt (.attempt (ResponsesTurnState.applyValue_readable (h hmode)) fun _ _ => .ok _) fun _ _ => .ok _
    · split <;> exact .ok _

/-- **The results of events are readable**, if no event has the message of a malformed body itself. -/
theorem applyEvents_readable {events : List SseEvent} (h : a.mode = .responses →
      ∀ event ∈ events, ∀ value, codec.fromStr event.data = some value → failureMessage value ≠ malformedBody.message) :
    Readable (a.applyEvents codec events).1 := by
  induction events generalizing a with
  | nil => exact .ok a
  | cons event events ih =>
    rw [applyEvents]
    split
    · exact .ok a
    have hevent : Readable (a.applyEvent codec event).1 := by
      unfold applyEvent
      split
      · exact .ok _
      · split
        · exact .ok _
        · split
          · exact .error (by decide)
          · rename_i value hvalue
            exact applyEventValue_readable event.event fun hmode => h hmode event (List.mem_cons_self ..) value hvalue
    refine .attempt hevent fun a' ha' => ih fun hmode event hmem => ?_
    rw [applyEvent_mode ha'] at hmode
    exact h hmode event (List.mem_cons_of_mem _ hmem)

end TurnAssembly

/-! ## The content type -/

/-- A body that is no JSON text and does not begin as a stream of events. -/
theorem decode_unreadable {codec : WireCodec} {config : DecoderConfig} {bytes : List UInt8}
    (hbegin : detectSse config.contentType bytes ≠ some true) (hjson : codec.fromSlice bytes = none) :
    decode codec config bytes = (.error (if bytes = [] then emptyBody else malformedBody), []) := by
  rw [decode_body hbegin, TurnAssembly.finishRaw]
  split
  · rfl
  · rw [hjson]

/-- **The content type of a stream of events may be missing exactly when the body begins as one does**: with a comment or with
the field `data`, `event` or `id`. -/
theorem missing_content_type_iff {codec : WireCodec} {config : DecoderConfig} {contentType : Option String}
    {chunks : List (List UInt8)} (htype : isEventStream contentType = true)
    (hjson : codec.fromSlice chunks.flatten = none)
    (hmessage : config.mode = .responses → ∀ event ∈ eventsOf chunks.flatten, ∀ value,
      codec.fromStr event.data = some value → failureMessage value ≠ malformedBody.message) :
    decodeChunks codec { config with contentType := none } chunks = decodeChunks codec { config with contentType } chunks ↔
      BeginsEvents chunks.flatten := by
  rw [decode_chunks, decode_chunks]
  have hsse : detectSse contentType chunks.flatten = some true := if_pos htype
  have hstream : decode codec { config with contentType } chunks.flatten = _ :=
    @decode_events codec { config with contentType } _ hsse
  rw [hstream]
  constructor
  · intro h
    by_contra hbegin
    rw [decode_unreadable (by exact mt (detectSse_missing _).1 hbegin) hjson] at h
    by_cases hempty : chunks.flatten = []
    · rw [if_pos hempty, hempty] at h
      have hclosed : (TurnAssembly.endOfEvents codec config.start).1 = .error streamClosed := rfl
      have hempty : (TurnAssembly.endOfEvents codec config.start).1 = .error emptyBody := (congrArg Prod.fst h).symm
      rw [hclosed] at hempty
      exact absurd hempty (by decide)
    · rw [if_neg hempty] at h
      refine Readable.attempt (TurnAssembly.applyEvents_readable hmessage)
        (fun a _ => a.endOfEvents_readable codec) (congrArg Prod.fst h).symm
  · intro hbegin
    rw [decode_events (by exact (detectSse_missing _).2 hbegin)]
    rfl

/-- A stream of a delta, after a first line. -/
def streamAfter (line : String) : List UInt8 := asciiBytes line.toList ++ twoDeltas "ha" "ok"

/-- A stream that begins with a field `retry` is taken for a malformed response, if its content type is missing. -/
theorem retry_first_unreadable :
    decodeChunks (twoCodec "ha" "ok") (customDecoder none) [streamAfter "retry: 100\n"] = (.error malformedBody, []) ∧
      (decodeChunks (twoCodec "ha" "ok") (customDecoder eventStream)
        [streamAfter "retry: 100\n"]).1.toOption.map ModelTurn.text = some "haok" := by
  constructor
  · rw [decode_chunks, decode_unreadable (by decide +kernel) (by decide +kernel), if_neg (by decide +kernel)]
  · have hstream : ValueStream (twoCodec "ha" "ok") (customDecoder eventStream) [streamAfter "retry: 100\n"].flatten
        ([contentValue "ha", contentValue "ok"] ++ [stopChunk]) := .of_read (by decide) (by decide +kernel)
    rw [decode_chunks, decode_chatStream rfl hstream]
    decide +kernel

theorem missing_content_type_iff_comment :
    decodeChunks (twoCodec "ha" "ok") (customDecoder none) [[0xEF], [0xBB, 0xBF], streamAfter ": hi\nretry: 100\n"] =
      decodeChunks (twoCodec "ha" "ok") (customDecoder eventStream) [[0xEF], [0xBB, 0xBF], streamAfter ": hi\nretry: 100\n"] :=
  (@missing_content_type_iff (twoCodec "ha" "ok") (customDecoder none) eventStream _ (by decide)
    (by decide +kernel) (by decide)).2 (by decide +kernel)

end Aifluxon
