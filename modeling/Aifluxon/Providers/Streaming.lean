import Aifluxon.Providers.Responses
import Aifluxon.Providers.Sse

/-!
# Decoding a response

`LiveStreamDecoder` of `streaming.rs`.

* `detectSse` : whether a body is a stream of events, from its content type and its first bytes;
* `LiveStreamDecoder.push`, `.finish` : a piece of the body, and its end;
* `LiveStreamDecoder.feed` : the pieces of a body, until the decoder is complete or fails, and its end;
* `decode` : a body in one piece.
-/

namespace Aifluxon

inductive OpenAiApiMode where
  | chatCompletions
  | responses
  deriving DecidableEq

/-- `hay.contains(needle)`. -/
def containsText (hay needle : List Char) : Bool := hay.tails.any fun tail => needle.isPrefixOf tail

/-- A content type of a stream of events. -/
def isEventStream (contentType : Option String) : Bool :=
  contentType.any fun value => containsText (value.toList.map Char.toLower) "text/event-stream".toList

/-- The first characters of a body that tell. -/
def detectStart (start : List Char) : Option Bool :=
  if [":", "data:", "event:", "id:"].any (fun field => field.toList.isPrefixOf start) then some true
  else if start.head? = some '{' then some false
  else none

def detectSse (contentType : Option String) (bytes : List UInt8) : Option Bool :=
  if isEventStream contentType then some true
  else detectStart (((fromUtf8Lossy bytes).dropWhile (· = '\uFEFF')).dropWhile isWhitespace)

/-! ## Events -/

/-- `event.is_done()`. -/
def SseEvent.isDone (event : SseEvent) : Bool := trim (String.ofList event.data) = "[DONE]"

def malformedEvent : ProviderError := ⟨"PROVIDER_MALFORMED_RESPONSE: Invalid JSON in a stream event."⟩

def streamError : ProviderError := ⟨"PROVIDER_FINISH_ERROR: Provider returned a stream error."⟩

def streamClosed : ProviderError := ⟨"PROVIDER_STREAM_CLOSED: Stream ended before its terminal event."⟩

def emptyBody : ProviderError := ⟨"PROVIDER_EMPTY_RESPONSE: Provider returned an empty body."⟩

def malformedBody : ProviderError := ⟨"PROVIDER_MALFORMED_RESPONSE: Provider returned invalid JSON."⟩

def responseError : ProviderError := ⟨"PROVIDER_FINISH_ERROR: Provider returned a response error."⟩

/-- The events of the Responses API after which a stream is complete. -/
def endsStream (value : Value) : Bool :=
  match eventType value with
  | some "response.completed" | some "response.done" | some "response.incomplete" | some "response.failed"
  | some "response.cancelled" => true
  | _ => false

/-- The assemblers of the two modes, one of which is used, and whether the stream is complete. -/
structure TurnAssembly where
  mode : OpenAiApiMode
  chat : ChatCompletionsTurnAssembler
  responses : ResponsesTurnAssembler
  complete : Bool

namespace TurnAssembly

variable (codec : WireCodec) (a : TurnAssembly)

/-- A value goes to the assembler of the mode. -/
def applyValue (value : Value) : Sunk (Except ProviderError TurnAssembly) :=
  match a.mode with
  | .chatCompletions => ((a.chat.applyValue value).andThen fun chat => ({ a with chat }, [])).ok
  | .responses => (a.responses.applyValue codec value).attempt fun responses => (.ok { a with responses }, [])

/-- The value of an event of a stream. -/
def applyEventValue (name : Option String) (value : Value) : Sunk (Except ProviderError TurnAssembly) :=
  if value.hasError ∨ name = some "error" then (.error streamError, [])
  else (a.applyValue codec value).attempt fun a =>
    match a.mode with
    | .chatCompletions => (.ok a, [])
    | .responses => (.ok { a with complete := endsStream value }, [])

/-- One event of a stream that is not complete. -/
def applyEvent (event : SseEvent) : Sunk (Except ProviderError TurnAssembly) :=
  if event.isDone then (.ok { a with complete := true }, [])
  else if trim (String.ofList event.data) = "" then (.ok a, [])
  else match codec.fromStr event.data with
    | none => (.error malformedEvent, [])
    | some value => a.applyEventValue codec event.event value

/-- `apply_sse_events`: the events up to one that completes the stream. -/
def applyEvents (a : TurnAssembly) : List SseEvent → Sunk (Except ProviderError TurnAssembly)
  | [] => (.ok a, [])
  | event :: events =>
    if a.complete then (.ok a, []) else (a.applyEvent codec event).attempt fun a => applyEvents a events

/-- `finish_turn`. A turn that asks for another one is validated later. -/
def finishTurn : Except ProviderError ModelTurn := do
  let turn ← match a.mode with
    | .chatCompletions => a.chat.finishChecked codec
    | .responses => a.responses.finishChecked codec
  if (turn.opaqueValue.get "end_turn").bind Value.asBool ≠ some false then validateTurn turn
  return turn

/-- The end of a response: what the assembler holds back is flushed. -/
def close : Sunk (Except ProviderError ModelTurn) :=
  let (chat, calls) := a.chat.flushContent
  ({ a with chat }.finishTurn codec, calls)

/-- A response that is one JSON value. -/
def finishRaw (raw : List UInt8) : Sunk (Except ProviderError ModelTurn) :=
  if raw = [] then (.error emptyBody, [])
  else match codec.fromSlice raw with
    | none => (.error malformedBody, [])
    | some value =>
      if value.hasError then (.error responseError, [])
      else (a.applyValue codec value).attempt fun a => a.close codec

end TurnAssembly

/-! ## The decoder -/

structure LiveStreamDecoder where
  contentType : Option String
  parser : IncrementalSseParser
  head : List UInt8
  raw : List UInt8
  sse : Option Bool
  assembly : TurnAssembly

/-- The contract of a family of providers. -/
structure Contract where
  deepseek : Bool
  gemini : Bool
  deriving DecidableEq

namespace Contract

def plain : Contract := ⟨false, false⟩

/-- `with_deepseek_contract` and `with_gemini_contract`. -/
def assembler (contract : Contract) (allowCumulativeDelta : Bool) : ChatCompletionsTurnAssembler :=
  let chat := ChatCompletionsTurnAssembler.new allowCumulativeDelta
  let chat := if contract.deepseek then chat.useDeepseekContract else chat
  if contract.gemini then chat.useGeminiContract else chat

end Contract

namespace LiveStreamDecoder

def new (mode : OpenAiApiMode) (allowCumulativeDelta : Bool) (contract : Contract) (contentType : Option String) :
    LiveStreamDecoder where
  contentType
  parser := .new
  head := []
  raw := []
  sse := none
  assembly := ⟨mode, contract.assembler allowCumulativeDelta, .new allowCumulativeDelta, false⟩

variable (codec : WireCodec) (d : LiveStreamDecoder)

/-- `is_complete`. -/
def isComplete : Bool := d.assembly.complete

def pushSse (chunk : List UInt8) : Sunk (Except ProviderError LiveStreamDecoder) :=
  let (parser, events) := d.parser.push chunk
  (d.assembly.applyEvents codec events).attempt fun assembly => (.ok { d with parser, assembly }, [])

def push (chunk : List UInt8) : Sunk (Except ProviderError LiveStreamDecoder) :=
  match d.sse with
  | some false => (.ok { d with raw := d.raw ++ chunk }, [])
  | some true => d.pushSse codec chunk
  | none =>
    let head := d.head ++ chunk
    match detectSse d.contentType head with
    | none => (.ok { d with head }, [])
    | some false => (.ok { d with sse := some false, raw := d.raw ++ head, head := [] }, [])
    | some true => { d with sse := some true, head := [] }.pushSse codec head

/-- The end of a body whose form is known. -/
def finishKnown : Sunk (Except ProviderError ModelTurn) :=
  if d.sse = some true then
    if d.assembly.complete then d.assembly.close codec else (.error streamClosed, [])
  else d.assembly.finishRaw codec d.raw

def finish : Sunk (Except ProviderError ModelTurn) :=
  if d.sse = none then
    match detectSse d.contentType d.head with
    | some true =>
      ({ d with sse := some true, head := [] }.pushSse codec d.head).attempt fun d => d.finishKnown codec
    | _ => { d with sse := some false, raw := d.raw ++ d.head, head := [] }.finishKnown codec
  else d.finishKnown codec

/-- The caller pushes the pieces of a body until the decoder is complete or fails, and finishes it. -/
def feed (d : LiveStreamDecoder) : List (List UInt8) → Sunk (Except ProviderError ModelTurn)
  | [] => d.finish codec
  | chunk :: chunks => (d.push codec chunk).attempt fun d =>
    if d.isComplete then d.finish codec else feed d chunks

end LiveStreamDecoder

/-- What decodes a response. -/
structure DecoderConfig where
  mode : OpenAiApiMode
  allowCumulativeDelta : Bool
  contract : Contract
  contentType : Option String

/-- The response in the pieces in which it comes. -/
def decodeChunks (codec : WireCodec) (config : DecoderConfig) (chunks : List (List UInt8)) :
    Sunk (Except ProviderError ModelTurn) :=
  (LiveStreamDecoder.new config.mode config.allowCumulativeDelta config.contract config.contentType).feed codec chunks

/-- The response in one piece. -/
def decode (codec : WireCodec) (config : DecoderConfig) (bytes : List UInt8) :
    Sunk (Except ProviderError ModelTurn) := decodeChunks codec config [bytes]

end Aifluxon
