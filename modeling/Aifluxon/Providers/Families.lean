import Aifluxon.Providers.Decoding

/-!
# Families of providers

What a family does to the text of a turn, live and at its end: `SummaryFilterSink` of `qwen/mod.rs`,
`ThinkTagSink` of `kimi/mod.rs`, and `apply_turn_continuation` of `continuation.rs`.

* `SummaryFilter` : a text without the `<summary>` that it begins with;
* `ThinkTagFilter` : a text whose thoughts stand between tags;
* `applySummaryToTurn`, `applyThinkTagsToTurn` : the same of the turn;
* `ApiFamily`, `FamilySink` : the sink of a family, between the decoder and the sink of the caller;
* `applyTurnContinuation` : a turn that asks for another one.
-/

namespace Aifluxon

open TagScan

/-! ## Qwen -/

/-- `hay.find(needle)`, in characters. -/
def findText (needle : List Char) : List Char → Option Nat
  | [] => if needle = [] then some 0 else none
  | c :: hay => if needle.isPrefixOf (c :: hay) then some 0 else (findText needle hay).map (· + 1)

def summaryTag : List Char := "<summary>".toList

def summaryEnd : List Char := "</summary>".toList

/-- The lower case of a text from its first character that is not blank. -/
def summaryStart (text : List Char) : List Char := (text.dropWhile isWhitespace).map Char.toLower

inductive SummaryFilterMode where
  | undecided
  | passthrough
  | suppressingSummary
  deriving DecidableEq

structure SummaryFilter where
  enabled : Bool
  mode : SummaryFilterMode
  prefixBuffer : List Char
  summaryBuffer : List Char
  deriving DecidableEq

namespace SummaryFilter

def new (enabled : Bool) : SummaryFilter := ⟨enabled, .undecided, [], []⟩

def finishSummaryIfClosed (f : SummaryFilter) : SummaryFilter × Option (List Char) :=
  match findText summaryEnd (f.summaryBuffer.map Char.toLower) with
  | none => (f, none)
  | some endIndex =>
    let afterStart := endIndex + summaryEnd.length
    ({ f with summaryBuffer := f.summaryBuffer.take afterStart, mode := .passthrough },
      nonempty (f.summaryBuffer.drop afterStart))

def pushDelta (f : SummaryFilter) (delta : List Char) : SummaryFilter × Option (List Char) :=
  if ¬ f.enabled then (f, some delta)
  else match f.mode with
    | .passthrough => (f, some delta)
    | .suppressingSummary => { f with summaryBuffer := f.summaryBuffer ++ delta }.finishSummaryIfClosed
    | .undecided =>
      let text := f.prefixBuffer ++ delta
      if (summaryStart text).isPrefixOf summaryTag then ({ f with prefixBuffer := text }, none)
      else if summaryTag.isPrefixOf (summaryStart text) then
        { f with
          mode := .suppressingSummary
          summaryBuffer := f.summaryBuffer ++ text
          prefixBuffer := [] }.finishSummaryIfClosed
      else ({ f with mode := .passthrough, prefixBuffer := [] }, some text)

/-- `str::strip_prefix` of one of two tags. -/
def stripStart (text : String) : String :=
  if "<summary>".toList.isPrefixOf text.toList ∨ "<SUMMARY>".toList.isPrefixOf text.toList then
    String.ofList (text.toList.drop 9)
  else text

/-- `str::strip_suffix` of one of two tags. -/
def stripEnd (text : String) : String :=
  if "</summary>".toList.isSuffixOf text.toList ∨ "</SUMMARY>".toList.isSuffixOf text.toList then
    String.ofList (text.toList.take (text.toList.length - 10))
  else text

def summaryText (f : SummaryFilter) : Option String :=
  let trimmed := trim (String.ofList f.summaryBuffer)
  if trimmed = "" then none
  else
    let summary := trim (stripEnd (stripStart trimmed))
    if summary = "" then none else some summary

def finish (f : SummaryFilter) : SummaryFilter × Option (List Char) :=
  if f.mode = .undecided ∧ f.prefixBuffer ≠ [] then
    ({ f with mode := .passthrough, prefixBuffer := [] }, some f.prefixBuffer)
  else (f, none)

end SummaryFilter

/-- `apply_summary_to_turn`. -/
def applySummaryToTurn (turn : ModelTurn) : ModelTurn :=
  let (filter, delta) := (SummaryFilter.new true).pushDelta turn.text.toList
  let (filter, tail) := filter.finish
  let visible := String.ofList (delta.getD [] ++ tail.getD [])
  match filter.summaryText with
  | none => { turn with text := visible }
  | some summary =>
    { turn with
      opaqueValue := match turn.opaqueValue with
        | .object entries => .object (insertEntry "hidden_context" (.string summary) entries)
        | _ => .object [("hidden_context", .string summary)]
      terminal :=
        if trim visible = "" ∧ turn.toolCalls = [] then .continue .summaryOnly else turn.terminal
      text := visible }

/-! ## Kimi -/

/-- The close tag that a thought waits for. -/
inductive ThinkMode where
  | visible
  | think
  | thinking
  deriving DecidableEq

def thinkScanner : Scanner Char ThinkMode where
  norm := Char.toLower
  tags
    | .visible => [("<think>".toList, .think), ("<thinking>".toList, .thinking)]
    | .think => [("</think>".toList, .visible)]
    | .thinking => [("</thinking>".toList, .visible)]

/-- The mode is `reasoning` with `close_tag`. -/
abbrev ThinkTagFilter := Scanning Char ThinkMode

namespace ThinkTagFilter

def new : ThinkTagFilter := ⟨.visible, []⟩

def pushDelta (f : ThinkTagFilter) (delta : List Char) : ThinkTagFilter × List (ThinkMode × List Char) :=
  thinkScanner.push f delta

def finish (f : ThinkTagFilter) : List (ThinkMode × List Char) := [(f.mode, f.pending)]

end ThinkTagFilter

/-- `emit_parts`. -/
def emitParts (parts : List (ThinkMode × List Char)) : List SinkEvent :=
  parts.flatMap fun
    | (.visible, text) => textCall (nonempty text)
    | (_, text) => reasoningCall (nonempty text)

/-- `apply_think_tags_to_turn`. -/
def applyThinkTagsToTurn (turn : ModelTurn) : ModelTurn :=
  let (filter, parts) := ThinkTagFilter.new.pushDelta turn.text.toList
  let calls := emitParts (parts ++ filter.finish)
  { turn with
    text := String.ofList (textOf calls)
    reasoning := turn.reasoning ++ String.ofList (reasoningOf calls) }

/-! ## Families -/

inductive ApiFamily where
  | openAi
  | deepSeek
  | qwen
  | kimi
  | gemini
  | codex
  | custom
  deriving DecidableEq

/-- The contract that the decoder of a family has. -/
def ApiFamily.contract : ApiFamily → Contract
  | .deepSeek => ⟨true, false⟩
  | .gemini => ⟨false, true⟩
  | _ => .plain

/-- `wrap_family_sink`: the sink that the calls of the decoder go through. -/
inductive FamilySink where
  | plain
  | summary (filter : SummaryFilter)
  | think (filter : ThinkTagFilter)

def ApiFamily.sink : ApiFamily → FamilySink
  | .qwen => .summary (SummaryFilter.new true)
  | .kimi => .think ThinkTagFilter.new
  | _ => .plain

namespace FamilySink

/-- A call, and the calls of the sink of the caller. -/
def call (sink : FamilySink) (event : SinkEvent) : FamilySink × List SinkEvent :=
  match sink, event with
  | .summary filter, .textDelta delta =>
    let (filter, visible) := filter.pushDelta delta.toList
    (.summary filter, textCall (nonempty (visible.getD [])))
  | .think filter, .textDelta delta =>
    let (filter, parts) := filter.pushDelta delta.toList
    (.think filter, emitParts parts)
  | sink, event => (sink, [event])

def calls (sink : FamilySink) : List SinkEvent → FamilySink × List SinkEvent
  | [] => (sink, [])
  | event :: events =>
    let r := sink.call event
    let t := calls r.1 events
    (t.1, r.2 ++ t.2)

/-- What a turn flushes, before the tags are taken from it. -/
def flush : FamilySink → List SinkEvent
  | .think filter => emitParts filter.finish
  | _ => []

end FamilySink

/-- The text of a turn as the family has it. -/
def ApiFamily.applyToTurn (family : ApiFamily) (turn : ModelTurn) : ModelTurn :=
  match family with
  | .kimi => applyThinkTagsToTurn turn
  | .qwen => applySummaryToTurn turn
  | _ => turn

/-- `should_continue_end_turn`. -/
def shouldContinueEndTurn (opaqueValue : Value) : Bool := (opaqueValue.get "end_turn").bind Value.asBool = some false

/-- `apply_turn_continuation`. `promised` is `promised_tool_work_without_call`. -/
def applyTurnContinuation (promised : String → Bool) (family : ApiFamily) (toolsEnabled : Bool) (turn : ModelTurn) :
    ModelTurn :=
  if turn.toolCalls ≠ [] ∨ turn.terminal = .toolCalls then turn
  else if turn.terminal.continuationReason ≠ none then turn
  else if family = .codex ∧ shouldContinueEndTurn turn.opaqueValue then
    { turn with terminal := .continue .providerRequested }
  else if toolsEnabled ∧ promised turn.text then { turn with terminal := .continue .incomplete }
  else turn

end Aifluxon
