import Aifluxon.Providers.Chunking
import Mathlib.Data.List.DropRight

/-!
# What a body decodes to

* `eventsOf` : the events of a body, read in one piece;
* `decode_events`, `decode_body` : the two forms of a body, each decoded at once;
* `carried`, `carriedValues`, `ValueStream` : the value of an event, and those of a stream;
* `bodyValues`, `values_of_ok` : the values of a body that is a turn;
* `decode_stream`, `decode_chatStream` : they are applied one after the other, and the stream is closed;
* `tableCodec` : a codec for examples.
-/

namespace Aifluxon

/-- The assemblers before a response. -/
def DecoderConfig.start (config : DecoderConfig) : TurnAssembly :=
  ⟨config.mode, config.contract.assembler config.allowCumulativeDelta, .new config.allowCumulativeDelta, false⟩

/-- The events of a body. -/
def eventsOf (bytes : List UInt8) : List SseEvent := (IncrementalSseParser.new.push bytes).2

/-- The events of a body begin those of a longer one. -/
theorem eventsOf_append (xs ys : List UInt8) : eventsOf xs <+: eventsOf (xs ++ ys) := by
  rw [eventsOf, eventsOf, IncrementalSseParser.push_splits]
  exact List.prefix_append _ _

theorem except_bind_ok {ε α β : Type} {x : Except ε α} {f : α → Except ε β} {b : β} (h : x.bind f = .ok b) :
    ∃ a, x = .ok a ∧ f a = .ok b := by
  cases x with
  | error e => cases h
  | ok a => exact ⟨a, rfl, h⟩

/-- A turn that is not validated yet is, unless it asks for another one. -/
def validated (turn : ModelTurn) : Except ProviderError ModelTurn :=
  if (turn.opaqueValue.get "end_turn").bind Value.asBool = some false then .ok turn
  else (validateTurn turn).map fun _ => turn

theorem validated_valid {turn : ModelTurn} (h : ValidTurn turn) : validated turn = .ok turn := by
  rw [validated, validateTurn_ok.2 h, ite_eq_left_iff]
  exact fun _ => rfl

theorem validated_ok {turn turn' : ModelTurn} (h : validated turn = .ok turn') : turn' = turn := by
  unfold validated at h
  split at h
  · cases h
    rfl
  · cases hvalid : validateTurn turn with
    | error e =>
      rw [hvalid] at h
      cases h
    | ok u =>
      rw [hvalid] at h
      cases h
      rfl

namespace TurnAssembly

/-- What the assembler of the mode finishes with. -/
def finished (codec : WireCodec) (a : TurnAssembly) : Except ProviderError ModelTurn :=
  match a.mode with
  | .chatCompletions => a.chat.flushContent.1.finishChecked codec
  | .responses => a.responses.finishChecked codec

theorem close_eq (codec : WireCodec) (a : TurnAssembly) :
    a.close codec = ((a.finished codec).bind validated, a.chat.flushContent.2) := by
  have hvalid (x : Except ProviderError ModelTurn) : (do
      let turn ← x
      if (turn.opaqueValue.get "end_turn").bind Value.asBool ≠ some false then validateTurn turn
      return turn) = x.bind validated := by
    cases x with
    | error e => rfl
    | ok turn =>
      by_cases h : (turn.opaqueValue.get "end_turn").bind Value.asBool = some false
      · simp [h, validated, bind, Except.bind, pure, Except.pure]
      · simp only [h, validated, bind, Except.bind, pure, Except.pure, ne_eq, not_false_eq_true, if_true, if_false]
        cases validateTurn turn <;> rfl
  unfold close finishTurn finished
  cases a.mode <;> simp only [hvalid]

/-- The end of a stream of events. -/
def endOfEvents (codec : WireCodec) (a : TurnAssembly) : Sunk (Except ProviderError ModelTurn) :=
  if a.complete then a.close codec else (.error streamClosed, [])

end TurnAssembly

section
variable {codec : WireCodec} {config : DecoderConfig} {bytes : List UInt8}

/-- **A stream of events**: its events are applied, and the stream is closed. -/
theorem decode_events (h : detectSse config.contentType bytes = some true) : decode codec config bytes =
    (config.start.applyEvents codec (eventsOf bytes)).attempt (TurnAssembly.endOfEvents codec) := by
  rw [decode, decodeChunks, LiveStreamDecoder.feed_cons rfl, List.flatten_nil, List.append_nil,
    LiveStreamDecoder.push]
  simp only [LiveStreamDecoder.new, List.nil_append, h, LiveStreamDecoder.pushSse, Sunk.attempt_assoc,
    Sunk.attempt_pure]
  rfl

/-- **A body that is no stream** is one JSON value. -/
theorem decode_body (h : detectSse config.contentType bytes ≠ some true) :
    decode codec config bytes = config.start.finishRaw codec bytes := by
  rw [decode, decodeChunks, LiveStreamDecoder.feed_cons rfl, List.flatten_nil, List.append_nil,
    LiveStreamDecoder.push]
  cases hdetect : detectSse config.contentType bytes with
  | none =>
    simp only [LiveStreamDecoder.new, List.nil_append, hdetect, Sunk.attempt_pure, LiveStreamDecoder.finish]
    rfl
  | some sse =>
    cases sse with
    | true => exact absurd hdetect h
    | false =>
      simp only [LiveStreamDecoder.new, List.nil_append, hdetect, Sunk.attempt_pure]
      rfl

end

/-! ## Streams of values -/

/-- The values of a stream of events, up to `[DONE]` or an event that ends it. -/
def carriedValues (codec : WireCodec) (mode : OpenAiApiMode) : List SseEvent → Option (List Value)
  | [] => none
  | event :: events =>
    if event.isDone then some []
    else if trim (String.ofList event.data) = "" then carriedValues codec mode events
    else match codec.fromStr event.data with
      | none => none
      | some value =>
        if value.hasError ∨ event.event = some "error" then none
        else if mode = .responses ∧ endsStream value then some [value]
        else (carriedValues codec mode events).map (value :: ·)

/-- The value of an event that is neither `[DONE]` nor blank. -/
def carried (codec : WireCodec) (event : SseEvent) : Option Value :=
  if event.isDone ∨ trim (String.ofList event.data) = "" then none else codec.fromStr event.data

/-- A body is a stream of events that carry values, to its end. -/
structure ValueStream (codec : WireCodec) (config : DecoderConfig) (bytes : List UInt8) (values : List Value) : Prop where
  sse : detectSse config.contentType bytes = some true
  carried : carriedValues codec config.mode (eventsOf bytes) = some values

/-- `carriedValues`, on the characters of the events; the kernel runs this one. -/
def readValues (codec : WireCodec) (mode : OpenAiApiMode) : List SseEvent → Option (List Value)
  | [] => none
  | event :: events =>
    if trimList event.data = ['[', 'D', 'O', 'N', 'E', ']'] then some []
    else if trimList event.data = [] then readValues codec mode events
    else match codec.fromStr event.data with
      | none => none
      | some value =>
        if value.hasError ∨ event.event = some "error" then none
        else if mode = .responses ∧ endsStream value then some [value]
        else (readValues codec mode events).map (value :: ·)

theorem carriedValues_read (codec : WireCodec) (mode : OpenAiApiMode) (events : List SseEvent) :
    carriedValues codec mode events = readValues codec mode events := by
  have htrim (data text : List Char) :
      trim (String.ofList data) = String.ofList text ↔ trimList data = text := by
    rw [trim_ofList, String.ofList_inj]
  induction events with
  | nil => rfl
  | cons event events ih =>
    have hdone : event.isDone = true ↔ trimList event.data = ['[', 'D', 'O', 'N', 'E', ']'] := by
      rw [SseEvent.isDone, decide_eq_true_iff]
      exact htrim event.data _
    have hblank : trim (String.ofList event.data) = "" ↔ trimList event.data = [] := htrim event.data []
    simp only [carriedValues, readValues, hdone, hblank, ih]

theorem ValueStream.of_read {codec : WireCodec} {config : DecoderConfig} {bytes : List UInt8} {values : List Value}
    (hsse : detectSse config.contentType bytes = some true)
    (h : readValues codec config.mode (eventsOf bytes) = some values) : ValueStream codec config bytes values :=
  ⟨hsse, (carriedValues_read _ _ _).trans h⟩

namespace TurnAssembly

variable {codec : WireCodec} {a : TurnAssembly} {value : Value}

/-- Values, one after the other. -/
def applyValues (codec : WireCodec) (a : TurnAssembly) : List Value → Sunk (Except ProviderError TurnAssembly)
  | [] => (.ok a, [])
  | value :: values => (a.applyValue codec value).attempt fun a => applyValues codec a values

theorem applyValues_append (a : TurnAssembly) (xs ys : List Value) : a.applyValues codec (xs ++ ys) =
    (a.applyValues codec xs).attempt fun a => a.applyValues codec ys := by
  induction xs generalizing a with
  | nil => simp only [List.nil_append, applyValues, Sunk.attempt_pure]
  | cons value xs ih => simp only [List.cons_append, applyValues, Sunk.attempt_assoc, ih]

/-- A value leaves the mode, and does not end a stream. -/
theorem applyValue_frame {a' : TurnAssembly} (h : (a.applyValue codec value).1 = .ok a') :
    a'.mode = a.mode ∧ a'.complete = a.complete := by
  unfold applyValue at h
  split at h
  · simp only [Sunk.ok, Sunk.andThen] at h
    cases h
    exact ⟨rfl, rfl⟩
  · obtain ⟨responses, -, h⟩ := Sunk.attempt_eq_ok h
    cases h
    exact ⟨rfl, rfl⟩

theorem applyValues_frame {a' : TurnAssembly} {values : List Value} (h : (a.applyValues codec values).1 = .ok a') :
    a'.mode = a.mode ∧ a'.complete = a.complete := by
  induction values generalizing a with
  | nil => cases h; exact ⟨rfl, rfl⟩
  | cons value values ih =>
    obtain ⟨a₁, ha₁, h⟩ := Sunk.attempt_eq_ok h
    obtain ⟨hmode, hcomplete⟩ := applyValue_frame ha₁
    obtain ⟨hmode', hcomplete'⟩ := ih h
    exact ⟨hmode'.trans hmode, hcomplete'.trans hcomplete⟩

/-- The value of an event, after which the stream ends or goes on. -/
theorem applyEventValue_eq {name : Option String} (ha : a.complete = false)
    (hvalue : ¬ (value.hasError ∨ name = some "error")) :
    a.applyEventValue codec name value = (a.applyValue codec value).attempt fun a' =>
      (.ok { a' with complete := decide (a.mode = .responses ∧ endsStream value = true) }, []) := by
  rw [applyEventValue, if_neg hvalue]
  refine Sunk.attempt_congr fun a' ha' => ?_
  obtain ⟨hmode, hcomplete⟩ := applyValue_frame ha'
  obtain ⟨mode, chat, responses, complete⟩ := a'
  simp only at hmode hcomplete
  rw [← hmode, hcomplete, ha]
  cases mode with
  | chatCompletions => simp
  | responses => simp

theorem applyEvent_carried {event : SseEvent} (hcarried : carried codec event = some value) :
    a.applyEvent codec event = a.applyEventValue codec event.event value := by
  unfold carried at hcarried
  split at hcarried
  · cases hcarried
  · rename_i hopen
    rw [not_or] at hopen
    rw [applyEvent, if_neg hopen.1, if_neg hopen.2, hcarried]

theorem applyEvent_mode {a' : TurnAssembly} {event : SseEvent} (h : (a.applyEvent codec event).1 = .ok a') :
    a'.mode = a.mode := by
  unfold applyEvent at h
  split at h
  · cases h
    rfl
  · split at h
    · cases h
      rfl
    · split at h
      · cases h
      · unfold applyEventValue at h
        split at h
        · cases h
        · obtain ⟨a₁, ha₁, h⟩ := Sunk.attempt_eq_ok h
          rw [← (applyValue_frame ha₁).1]
          split at h <;> (cases h; rfl)

/-- **Events put the values that they carry into the assembler.** -/
theorem applyEvents_carried (ha : a.complete = false) {events : List SseEvent} {values : List Value}
    (h : carriedValues codec a.mode events = some values) : a.applyEvents codec events =
      (a.applyValues codec values).attempt fun a => (.ok { a with complete := true }, []) := by
  induction events generalizing a values with
  | nil => cases h
  | cons event events ih =>
    rw [carriedValues] at h
    rw [applyEvents, if_neg (by simp [ha]), applyEvent]
    split at h
    · rename_i hdone
      cases h
      rw [if_pos hdone, Sunk.attempt_pure, applyEvents_complete rfl, applyValues, Sunk.attempt_pure]
    rename_i hdone
    rw [if_neg hdone]
    split at h
    · rename_i hblank
      rw [if_pos hblank, Sunk.attempt_pure, ih ha h]
    rename_i hblank
    rw [if_neg hblank]
    cases hvalue : codec.fromStr event.data with
    | none =>
      rw [hvalue] at h
      cases h
    | some value =>
      rw [hvalue] at h
      dsimp only at h ⊢
      split at h
      · cases h
      rename_i hfine
      simp only [applyEventValue_eq ha hfine, Sunk.attempt_assoc, Sunk.attempt_pure]
      split at h
      · rename_i hend
        cases h
        simp only [applyValues, Sunk.attempt_assoc, Sunk.attempt_pure, decide_eq_true hend, applyEvents_complete]
      · rename_i hend
        obtain ⟨values, hvalues, rfl⟩ := Option.map_eq_some_iff.1 h
        simp only [applyValues, Sunk.attempt_assoc, decide_eq_false hend]
        refine Sunk.attempt_congr fun a' ha' => ?_
        obtain ⟨hmode, hcomplete⟩ := applyValue_frame ha'
        rw [← ih (hcomplete.trans ha) (by rw [hmode]; exact hvalues), ← hcomplete.trans ha]

theorem carriedValues_of_complete {a' : TurnAssembly} (ha : a.complete = false) {events : List SseEvent}
    (h : (a.applyEvents codec events).1 = .ok a') (ha' : a'.complete = true) :
    ∃ values, carriedValues codec a.mode events = some values := by
  induction events generalizing a with
  | nil =>
    cases h
    rw [ha] at ha'
    cases ha'
  | cons event events ih =>
    rw [applyEvents, if_neg (by simp [ha]), applyEvent] at h
    rw [carriedValues]
    split
    · exact ⟨[], rfl⟩
    rename_i hdone
    rw [if_neg hdone] at h
    split
    · rename_i hblank
      rw [if_pos hblank, Sunk.attempt_pure] at h
      exact ih ha h
    rename_i hblank
    rw [if_neg hblank] at h
    cases hvalue : codec.fromStr event.data with
    | none =>
      rw [hvalue] at h
      cases h
    | some value =>
      simp only [hvalue] at h ⊢
      split
      · rename_i herror
        rw [applyEventValue, if_pos herror] at h
        cases h
      rename_i hfine
      rw [applyEventValue_eq ha hfine, Sunk.attempt_assoc] at h
      split
      · exact ⟨[value], rfl⟩
      rename_i hend
      obtain ⟨a₁, ha₁, h⟩ := Sunk.attempt_eq_ok h
      rw [Sunk.attempt_pure] at h
      obtain ⟨values, hvalues⟩ := ih (by simpa using hend) h
      rw [← (applyValue_frame ha₁).1]
      exact ⟨value :: values, by rw [hvalues]; rfl⟩

end TurnAssembly

/-- **A stream of values**: they are applied, and the stream is closed. -/
theorem decode_stream {codec : WireCodec} {config : DecoderConfig} {bytes : List UInt8} {values : List Value}
    (h : ValueStream codec config bytes values) :
    decode codec config bytes = (config.start.applyValues codec values).attempt fun a => a.close codec := by
  have happly : config.start.applyEvents codec (eventsOf bytes) = _ := TurnAssembly.applyEvents_carried rfl h.carried
  rw [decode_events h.sse, happly, Sunk.attempt_assoc]
  congr 1

/-- A stream that is a turn carries values to its end. -/
theorem valueStream_of_ok {codec : WireCodec} {config : DecoderConfig} {bytes : List UInt8} {turn : ModelTurn}
    (hsse : detectSse config.contentType bytes = some true) (hturn : (decode codec config bytes).1 = .ok turn) :
    ∃ values, ValueStream codec config bytes values := by
  rw [decode_events hsse] at hturn
  obtain ⟨a, ha, hend⟩ := Sunk.attempt_eq_ok hturn
  cases hcomplete : a.complete with
  | true =>
    obtain ⟨values, hvalues⟩ := TurnAssembly.carriedValues_of_complete (by rfl) ha hcomplete
    exact ⟨values, hsse, hvalues⟩
  | false =>
    rw [TurnAssembly.endOfEvents, if_neg (by simp [hcomplete])] at hend
    cases hend

/-- The values of a body: those of its events, or the one that it is. -/
def bodyValues (codec : WireCodec) (config : DecoderConfig) (bytes : List UInt8) : Option (List Value) :=
  if detectSse config.contentType bytes = some true then carriedValues codec config.mode (eventsOf bytes)
  else (codec.fromSlice bytes).map fun value => [value]

/-- **A body that is a turn**: its values are applied one after the other, and the response is closed. -/
theorem values_of_ok {codec : WireCodec} {config : DecoderConfig} {bytes : List UInt8} {turn : ModelTurn}
    (hturn : (decode codec config bytes).1 = .ok turn) : ∃ values, bodyValues codec config bytes = some values ∧
      decode codec config bytes = (config.start.applyValues codec values).attempt fun a => a.close codec := by
  by_cases hsse : detectSse config.contentType bytes = some true
  · obtain ⟨values, hvalues⟩ := valueStream_of_ok hsse hturn
    exact ⟨values, by rw [bodyValues, if_pos hsse, hvalues.carried], decode_stream hvalues⟩
  · rw [decode_body hsse, TurnAssembly.finishRaw] at hturn ⊢
    split at hturn
    · cases hturn
    rename_i hraw
    rw [if_neg hraw]
    split at hturn
    · cases hturn
    rename_i value hvalue
    split at hturn
    · cases hturn
    rename_i hfine
    rw [if_neg hfine]
    refine ⟨[value], by rw [bodyValues, if_neg hsse, hvalue, Option.map_some], ?_⟩
    simp only [TurnAssembly.applyValues, Sunk.attempt_assoc, Sunk.attempt_pure]

/-! ## Streams of Chat Completions -/

/-- The values of a stream, one after the other. -/
def ChatCompletionsTurnAssembler.applyValues (a : ChatCompletionsTurnAssembler) :
    List Value → Sunk ChatCompletionsTurnAssembler
  | [] => (a, [])
  | value :: values => (a.applyValue value).andThen fun a => applyValues a values

theorem ChatCompletionsTurnAssembler.applyValues_append (a : ChatCompletionsTurnAssembler) (xs ys : List Value) :
    a.applyValues (xs ++ ys) = (a.applyValues xs).andThen fun a => a.applyValues ys := by
  induction xs generalizing a with
  | nil => rfl
  | cons value xs ih => simp only [List.cons_append, applyValues, Sunk.andThen, ih, List.append_assoc]

theorem TurnAssembly.applyValues_chat {codec : WireCodec} {a : TurnAssembly} (hmode : a.mode = .chatCompletions)
    (values : List Value) : a.applyValues codec values =
      (.ok { a with chat := (a.chat.applyValues values).1 }, (a.chat.applyValues values).2) := by
  induction values generalizing a with
  | nil => rfl
  | cons value values ih =>
    have hvalue : a.applyValue codec value =
        (.ok { a with chat := (a.chat.applyValue value).1 }, (a.chat.applyValue value).2) := by
      simp [applyValue, hmode, Sunk.andThen, Sunk.ok]
    rw [applyValues, hvalue, Sunk.attempt_ok, ih (by exact hmode)]
    rfl

/-- **A stream of Chat Completions.** -/
theorem decode_chatStream {codec : WireCodec} {config : DecoderConfig} {bytes : List UInt8} {values : List Value}
    (hmode : config.mode = .chatCompletions) (h : ValueStream codec config bytes values) :
    decode codec config bytes =
      let r := config.start.chat.applyValues values
      ((r.1.flushContent.1.finishChecked codec).bind validated, r.2 ++ r.1.flushContent.2) := by
  have hvalues : config.start.applyValues codec values = _ := TurnAssembly.applyValues_chat hmode values
  rw [decode_stream h, hvalues, Sunk.attempt_ok, TurnAssembly.close_eq]
  simp only [TurnAssembly.finished, DecoderConfig.start, hmode]

/-! ## A codec for examples -/

/-- The blanks of JSON. -/
def isJsonBlank (b : UInt8) : Bool := b = 0x20 ∨ b = 0x09 ∨ b = 0x0A ∨ b = 0x0D

/-- The characters of bytes of ASCII. -/
def asciiText (bytes : List UInt8) : List Char := bytes.map fun b => Char.ofNat b.toNat

/-- The bytes of a text of ASCII. -/
def asciiBytes (text : List Char) : List UInt8 := text.map fun c => UInt8.ofNat c.toNat

/-- A codec that knows the texts of a table and some identifiers. -/
def tableCodec (texts : List (List Char × Value)) (ids : List (String × Uuid)) : WireCodec where
  fromStr text := texts.lookup text
  fromSlice bytes := texts.lookup (asciiText (bytes.rdropWhile isJsonBlank))
  display value := String.ofList (((texts.find? fun e => e.2 = value).map Prod.fst).getD [])
  stableKey key := ⟨(ids.lookup key).getD 0⟩
  hashHex _ := ""

theorem asciiBytes_asciiText (bytes : List UInt8) : asciiBytes (asciiText bytes) = bytes := by
  have hb (b : UInt8) : UInt8.ofNat (Char.ofNat b.toNat).toNat = b := by
    have hlt := b.toNat_lt
    have hvalid : b.toNat.isValidChar := Or.inl (by omega)
    rw [Char.ofNat, dif_pos hvalid]
    exact UInt8.ofNat_toNat
  simp only [asciiBytes, asciiText, List.map_map]
  exact List.map_id'' hb bytes

end Aifluxon
