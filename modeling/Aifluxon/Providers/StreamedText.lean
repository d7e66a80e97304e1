import Aifluxon.Providers.Cumulative
import Aifluxon.Providers.Effects
import Aifluxon.Providers.NextTurn

/-!
# The text at the sink

* `SummaryFilter.pushText_splits`, `ThinkTagFilter.pushText_splits` : how a text is cut does not matter to the filters;
* `FamilySink.calls_text` : the caller gets what the sink of the family makes of the whole text;
* `decode_text` : the text of a turn is all that went to the sink;
* `streamed_text_iff` : when the text that the caller saw is the text of the turn.
-/

namespace Aifluxon

open TagScan

/-! ## Qwen -/

section
variable {needle hay : List Char} {i : Nat}

/-- What is found is in the text. -/
theorem findText_length (h : findText needle hay = some i) : i + needle.length ≤ hay.length := by
  induction hay generalizing i with
  | nil =>
    rw [findText] at h
    split at h
    · rename_i hneedle
      cases h
      rw [hneedle, List.length_nil]
    · cases h
  | cons c hay ih =>
    rw [findText] at h
    split at h
    · rename_i hhead
      cases h
      rw [Nat.zero_add]
      exact (List.isPrefixOf_iff_prefix.1 hhead).length_le
    · obtain ⟨j, hj, rfl⟩ := Option.map_eq_some_iff.1 h
      have hle := ih hj
      rw [List.length_cons]
      omega

/-- What is found first is found first in a longer text. -/
theorem findText_append (h : findText needle hay = some i) (more : List Char) :
    findText needle (hay ++ more) = some i := by
  induction hay generalizing i with
  | nil =>
    obtain ⟨rfl, rfl⟩ : i = 0 ∧ needle = [] := by simpa using findText_length h
    cases more <;> rfl
  | cons c hay ih =>
    have hlen := findText_length h
    rw [findText] at h
    rw [List.cons_append, findText]
    split at h
    · rename_i hhead
      cases h
      rw [if_pos]
      exact List.isPrefixOf_iff_prefix.2
        ((List.isPrefixOf_iff_prefix.1 hhead).trans (List.prefix_append (c :: hay) more))
    · rename_i hhead
      obtain ⟨j, hj, rfl⟩ := Option.map_eq_some_iff.1 h
      rw [if_neg, ih hj, Option.map_some]
      intro hlong
      refine hhead (List.isPrefixOf_iff_prefix.2 (List.prefix_of_prefix_length_le
        (List.isPrefixOf_iff_prefix.1 hlong) (List.prefix_append (c :: hay) more) ?_))
      omega

end

namespace SummaryFilter

variable {f : SummaryFilter}

theorem summaryStart_append {text : List Char} (h : summaryStart text ≠ []) (more : List Char) :
    summaryStart (text ++ more) = summaryStart text ++ more.map Char.toLower := by
  rw [summaryStart, dropWhile_append_of_ne (by simpa [summaryStart] using h), List.map_append, summaryStart]

/-- A piece, with the text that it hands on. -/
def pushText (f : SummaryFilter) (delta : List Char) : SummaryFilter × List Char :=
  ((f.pushDelta delta).1, (f.pushDelta delta).2.getD [])

def closeText (f : SummaryFilter) : SummaryFilter × List Char :=
  (f.finishSummaryIfClosed.1, f.finishSummaryIfClosed.2.getD [])

theorem closeText_open (h : findText summaryEnd (f.summaryBuffer.map Char.toLower) = none) : f.closeText = (f, []) := by
  simp only [closeText, finishSummaryIfClosed, h, Option.getD_none]

theorem closeText_closed {i : Nat} (h : findText summaryEnd (f.summaryBuffer.map Char.toLower) = some i) :
    f.closeText = ({ f with
      summaryBuffer := f.summaryBuffer.take (i + summaryEnd.length)
      mode := .passthrough }, f.summaryBuffer.drop (i + summaryEnd.length)) := by
  simp only [closeText, finishSummaryIfClosed, h, nonempty_getD]

theorem pushText_disabled (hf : f.enabled = false) (delta : List Char) : f.pushText delta = (f, delta) := by
  simp [pushText, pushDelta, hf]

theorem pushText_passthrough (hmode : f.mode = .passthrough) (delta : List Char) : f.pushText delta = (f, delta) := by
  cases hf : f.enabled <;> simp [pushText, pushDelta, hf, hmode]

theorem pushText_suppressing (hf : f.enabled = true) (hmode : f.mode = .suppressingSummary) (delta : List Char) :
    f.pushText delta = { f with summaryBuffer := f.summaryBuffer ++ delta }.closeText := by
  simp [pushText, closeText, pushDelta, hf, hmode]

theorem pushText_undecided (hf : f.enabled = true) (hmode : f.mode = .undecided) (delta : List Char) :
    f.pushText delta =
      let text := f.prefixBuffer ++ delta
      if (summaryStart text).isPrefixOf summaryTag then ({ f with prefixBuffer := text }, [])
      else if summaryTag.isPrefixOf (summaryStart text) then
        { f with
          mode := .suppressingSummary
          summaryBuffer := f.summaryBuffer ++ text
          prefixBuffer := [] }.closeText
      else ({ f with mode := .passthrough, prefixBuffer := [] }, text) := by
  simp only [pushText, closeText, pushDelta, hf, hmode, not_true_eq_false, if_false]
  split
  · rfl
  · split <;> rfl

/-- A summary is closed by the first tag of the text, wherever it is cut. -/
theorem closeText_append (hf : f.enabled = true) (hmode : f.mode = .suppressingSummary) (xs ys : List Char) :
    { f with summaryBuffer := xs ++ ys }.closeText =
      ((({ f with summaryBuffer := xs }.closeText).1.pushText ys).1,
        ({ f with summaryBuffer := xs }.closeText).2 ++ (({ f with summaryBuffer := xs }.closeText).1.pushText ys).2) := by
  cases hfind : findText summaryEnd (xs.map Char.toLower) with
  | none =>
    rw [closeText_open (f := { f with summaryBuffer := xs }) hfind,
      pushText_suppressing (f := { f with summaryBuffer := xs }) hf hmode, List.nil_append]
  | some i =>
    have hlen : i + summaryEnd.length ≤ xs.length := by simpa using findText_length hfind
    have hlong : findText summaryEnd ((xs ++ ys).map Char.toLower) = some i := by
      rw [List.map_append]
      exact findText_append hfind _
    rw [closeText_closed (f := { f with summaryBuffer := xs }) hfind, pushText_passthrough rfl,
      closeText_closed (f := { f with summaryBuffer := xs ++ ys }) hlong]
    simp only [List.take_append_of_le_length hlen, List.drop_append_of_le_length hlen]

/-- **How a text is cut into deltas does not matter to the filter.** -/
theorem pushText_splits : Incremental.Splits pushText := by
  intro f xs ys
  cases hf : f.enabled with
  | false => simp only [pushText_disabled hf]
  | true =>
    cases hmode : f.mode with
    | passthrough => simp only [pushText_passthrough hmode]
    | suppressingSummary =>
      rw [pushText_suppressing hf hmode, pushText_suppressing hf hmode, ← List.append_assoc]
      exact closeText_append hf hmode _ ys
    | undecided =>
      rw [pushText_undecided hf hmode, pushText_undecided hf hmode]
      simp only [show f.prefixBuffer ++ (xs ++ ys) = f.prefixBuffer ++ xs ++ ys from (List.append_assoc ..).symm]
      generalize f.prefixBuffer ++ xs = text
      by_cases hundecided : (summaryStart text).isPrefixOf summaryTag
      · rw [if_pos hundecided]
        simp only [pushText_undecided (f := { f with prefixBuffer := text }) hf hmode, List.nil_append]
      · rw [if_neg hundecided]
        have hne : summaryStart text ≠ [] := by
          rintro hnil
          rw [hnil] at hundecided
          exact hundecided rfl
        have hlong := summaryStart_append hne ys
        rw [List.isPrefixOf_iff_prefix] at hundecided
        have hlong' : ¬ (summaryStart (text ++ ys)).isPrefixOf summaryTag := by
          rw [List.isPrefixOf_iff_prefix, hlong]
          exact fun h => hundecided ((List.prefix_append _ _).trans h)
        rw [if_neg hlong']
        by_cases htag : summaryTag.isPrefixOf (summaryStart text)
        · have htag' : summaryTag.isPrefixOf (summaryStart (text ++ ys)) := by
            rw [List.isPrefixOf_iff_prefix, hlong]
            exact (List.isPrefixOf_iff_prefix.1 htag).trans (List.prefix_append _ _)
          rw [if_pos htag, if_pos htag', ← List.append_assoc]
          exact closeText_append (f := { f with mode := .suppressingSummary, prefixBuffer := [] }) hf rfl _ ys
        · have htag' : ¬ summaryTag.isPrefixOf (summaryStart (text ++ ys)) := by
            rw [List.isPrefixOf_iff_prefix, hlong]
            intro h
            rcases List.prefix_or_prefix_of_prefix h (List.prefix_append (summaryStart text) _) with h | h
            · exact htag (List.isPrefixOf_iff_prefix.2 h)
            · exact hundecided h
          rw [if_neg htag, if_neg htag', pushText_passthrough rfl]

/-- The text that has come may begin a summary, and is held back. -/
def heldBack (text : List Char) : Bool := text ≠ [] ∧ (summaryStart text).isPrefixOf summaryTag

/-- At the end of a text the filter has what it held back. -/
theorem finish_tail (text : List Char) :
    (((new true).pushText text).1.finish).2.getD [] = if heldBack text then text else [] := by
  have hpush : (new true).pushText text =
      if (summaryStart text).isPrefixOf summaryTag then (⟨true, .undecided, text, []⟩, [])
      else if summaryTag.isPrefixOf (summaryStart text) then (⟨true, .suppressingSummary, [], text⟩ : SummaryFilter).closeText
      else (⟨true, .passthrough, [], []⟩, text) := pushText_undecided rfl rfl text
  rw [hpush]
  by_cases hundecided : (summaryStart text).isPrefixOf summaryTag
  · rw [if_pos hundecided, finish]
    by_cases htext : text = []
    · have hheld : heldBack text = false := by simp [heldBack, htext]
      rw [if_neg fun h => h.2 htext, hheld]
      rfl
    · have hheld : heldBack text = true := decide_eq_true ⟨htext, hundecided⟩
      rw [if_pos ⟨rfl, htext⟩, hheld]
      rfl
  · have hheld : heldBack text = false := decide_eq_false fun h => hundecided h.2
    rw [if_neg hundecided, hheld]
    split
    · cases hfind : findText summaryEnd (text.map Char.toLower) with
      | none =>
        rw [closeText_open (by exact hfind)]
        rfl
      | some i =>
        rw [closeText_closed (by exact hfind)]
        rfl
    · rfl

end SummaryFilter

/-! ## Kimi -/

namespace ThinkTagFilter

theorem thinkScanner_separated : thinkScanner.Separated '<' where
  head mode tag htag := by
    cases mode with
    | visible =>
      rcases List.mem_cons.1 htag with rfl | htag
      · exact ⟨"think>".toList, rfl, by decide⟩
      · obtain rfl := List.mem_singleton.1 htag
        exact ⟨"thinking>".toList, rfl, by decide⟩
    | think =>
      obtain rfl := List.mem_singleton.1 htag
      exact ⟨"/think>".toList, rfl, by decide⟩
    | thinking =>
      obtain rfl := List.mem_singleton.1 htag
      exact ⟨"/thinking>".toList, rfl, by decide⟩
  prefixFree mode tag htag tag' htag' hprefix := by
    cases mode with
    | visible =>
      rcases List.mem_cons.1 htag with rfl | htag <;> rcases List.mem_cons.1 htag' with rfl | htag'
      · rfl
      · obtain rfl := List.mem_singleton.1 htag'
        exact absurd hprefix (by decide)
      · obtain rfl := List.mem_singleton.1 htag
        exact absurd hprefix (by decide)
      · rw [List.mem_singleton.1 htag, List.mem_singleton.1 htag']
    | think => rw [List.mem_singleton.1 htag, List.mem_singleton.1 htag']
    | thinking => rw [List.mem_singleton.1 htag, List.mem_singleton.1 htag']

/-- The visible characters among labelled ones. -/
def visibleText (labelled : List (ThinkMode × Char)) : List Char :=
  (labelled.filter fun l => l.1 = .visible).map Prod.snd

/-- The text of the parts is what is visible of them. -/
theorem textOf_emitParts (parts : List (ThinkMode × List Char)) :
    textOf (emitParts parts) = visibleText (labels parts) := by
  induction parts with
  | nil => rfl
  | cons part parts ih =>
    obtain ⟨mode, text⟩ := part
    have hcons : emitParts ((mode, text) :: parts) = emitParts [(mode, text)] ++ emitParts parts := by
      simp [emitParts]
    have hpart : textOf (emitParts [(mode, text)]) = visibleText (labels [(mode, text)]) := by
      cases mode <;> simp [emitParts, visibleText, labels, List.filter_map, Function.comp_def]
    rw [hcons, textOf_append, ih, hpart, visibleText, visibleText, visibleText, ← List.map_append, ← List.filter_append]
    congr 2
    simp [labels]

/-- A piece, with the text that it hands on. -/
def pushText (f : ThinkTagFilter) (delta : List Char) : ThinkTagFilter × List Char :=
  ((f.pushDelta delta).1, textOf (emitParts (f.pushDelta delta).2))

theorem pushText_splits : Incremental.Splits pushText := by
  intro f xs ys
  have hsplit := thinkScanner_separated.push_splits f xs ys
  simp only [Scanner.pushLabels, Prod.mk.injEq] at hsplit
  simp only [pushText, pushDelta, textOf_emitParts, visibleText, hsplit.1, hsplit.2, List.filter_append,
    List.map_append]

end ThinkTagFilter

/-! ## The sinks of the families -/

namespace FamilySink

/-- A delta, with the text that the caller gets. -/
def pushText (sink : FamilySink) (delta : List Char) : FamilySink × List Char :=
  ((sink.call (.textDelta (String.ofList delta))).1, textOf (sink.call (.textDelta (String.ofList delta))).2)

theorem pushText_plain (delta : List Char) : FamilySink.plain.pushText delta = (.plain, delta) := by
  simp [pushText, call, textOf]

theorem pushText_summary (f : SummaryFilter) (delta : List Char) :
    (FamilySink.summary f).pushText delta = (.summary (f.pushText delta).1, (f.pushText delta).2) := by
  simp [pushText, call, SummaryFilter.pushText]

theorem pushText_think (f : ThinkTagFilter) (delta : List Char) :
    (FamilySink.think f).pushText delta = (.think (f.pushText delta).1, (f.pushText delta).2) := by
  simp [pushText, call, ThinkTagFilter.pushText]

theorem pushText_splits : Incremental.Splits pushText := by
  intro sink xs ys
  cases sink with
  | plain => simp only [pushText_plain]
  | summary f => simp only [pushText_summary, SummaryFilter.pushText_splits f xs ys]
  | think f => simp only [pushText_think, ThinkTagFilter.pushText_splits f xs ys]

/-- **The caller gets what the sink makes of the whole text.** -/
theorem calls_text {sink : FamilySink} (hsink : sink.pushText [] = (sink, [])) (events : List SinkEvent) :
    ((sink.calls events).1, textOf (sink.calls events).2) = sink.pushText (textOf events) := by
  induction events generalizing sink with
  | nil => exact hsink.symm
  | cons event events ih =>
    have hsilent (h : sink.call event = (sink, [event])) (htext : textOf [event] = []) :
        ((sink.calls (event :: events)).1, textOf (sink.calls (event :: events)).2) =
          sink.pushText (textOf (event :: events)) := by
      have hevents : textOf (event :: events) = textOf events := by
        rw [← List.singleton_append, textOf_append, htext, List.nil_append]
      simp only [calls, h, textOf_append, htext, List.nil_append, hevents]
      exact ih hsink
    cases event with
    | textDelta delta =>
      have hdelta : sink.pushText delta.toList =
          ((sink.call (.textDelta delta)).1, textOf (sink.call (.textDelta delta)).2) := by
        rw [pushText, String.ofList_toList]
      have hevents : textOf (.textDelta delta :: events) = delta.toList ++ textOf events := rfl
      have hrest := @ih (sink.call (.textDelta delta)).1 (by
        have hsettled := pushText_splits.settled sink delta.toList
        rwa [hdelta] at hsettled)
      rw [hevents, pushText_splits sink delta.toList, hdelta, ← hrest]
      simp only [calls, textOf_append]
    | reasoningDelta delta => exact hsilent (by cases sink <;> rfl) rfl
    | usage usage => exact hsilent (by cases sink <;> rfl) rfl

end FamilySink

/-- A sink that has seen nothing holds nothing back. -/
theorem ApiFamily.sink_settled (family : ApiFamily) : family.sink.pushText [] = (family.sink, []) := by
  cases family with
  | qwen => rw [sink, FamilySink.pushText_summary]; rfl
  | kimi => rw [sink, FamilySink.pushText_think]; rfl
  | _ => rfl

/-! ## The text of a turn -/

section
variable {c : ProviderCalls} {config : ProviderConfig} {response : WireResponse} {turn : ModelTurn}
  {calls : List SinkEvent}

theorem applyTurnContinuation_text (promised : String → Bool) (family : ApiFamily) (toolsEnabled : Bool)
    (turn : ModelTurn) : (applyTurnContinuation promised family toolsEnabled turn).text = turn.text := by
  unfold applyTurnContinuation
  split
  · rfl
  split
  · rfl
  split
  · rfl
  split <;> rfl

/-- What a body decodes to is what the sink has got. -/
theorem decode_text {codec : WireCodec} {decoder : DecoderConfig} {bytes : List UInt8}
    (h : decode codec decoder bytes = (.ok turn, calls)) : turn.text = String.ofList (textOf calls) := by
  obtain ⟨values, -, hvalues⟩ := values_of_ok (by rw [h])
  rw [hvalues] at h
  cases hrun : decoder.start.applyValues codec values with
  | mk x delivered =>
    rw [hrun] at h
    cases x with
    | error e => cases h
    | ok a =>
      have hgrows := TurnAssembly.applyValues_grows hrun
      cases hclose : a.close codec with
      | mk y delivered' =>
        rw [Sunk.attempt_ok, hclose] at h
        cases h
        have hstart : decoder.start.text = [] := by
          obtain ⟨mode, allow, ⟨deepseek, gemini⟩, contentType⟩ := decoder
          cases mode <;> cases deepseek <;> cases gemini <;> rfl
        have hflush : textOf decoder.start.chat.flushContent.2 = [] := by
          obtain ⟨mode, allow, ⟨deepseek, gemini⟩, contentType⟩ := decoder
          cases deepseek <;> cases gemini <;> rfl
        rw [TurnAssembly.close_text (fun h => by rw [hgrows.chat (hgrows.mode ▸ h), hflush]) hclose, hgrows.text, hstart,
          List.nil_append, textOf_append]

/-- What the filter of Qwen holds back at the end of a text. -/
def ApiFamily.tail (family : ApiFamily) (text : List Char) : List Char :=
  if family = .qwen ∧ SummaryFilter.heldBack text then text else []

theorem applySummaryToTurn_text (turn : ModelTurn) : (applySummaryToTurn turn).text = String.ofList
    (((SummaryFilter.new true).pushText turn.text.toList).2 ++
      (((SummaryFilter.new true).pushText turn.text.toList).1.finish).2.getD []) := by
  unfold applySummaryToTurn SummaryFilter.pushText
  generalize (SummaryFilter.new true).pushDelta turn.text.toList = r
  simp only
  split <;> rfl

theorem applyThinkTagsToTurn_text (turn : ModelTurn) : (applyThinkTagsToTurn turn).text = String.ofList
    ((ThinkTagFilter.new.pushText turn.text.toList).2 ++
      textOf (emitParts (ThinkTagFilter.new.pushText turn.text.toList).1.finish)) := by
  have happend (xs ys : List (ThinkMode × List Char)) :
      textOf (emitParts (xs ++ ys)) = textOf (emitParts xs) ++ textOf (emitParts ys) := by
    rw [emitParts, List.flatMap_append, textOf_append]
    rfl
  exact congrArg String.ofList (happend _ _)

/-- The turn of a family has what the caller has got, and what its filter holds back. -/
theorem ApiFamily.applyToTurn_text (family : ApiFamily) {decoded : ModelTurn} {received : List SinkEvent}
    (h : textOf received = decoded.text.toList) : (family.applyToTurn decoded).text = String.ofList
      (textOf ((family.sink.calls received).2 ++ (family.sink.calls received).1.flush) ++
        family.tail decoded.text.toList) := by
  have hcalls := FamilySink.calls_text family.sink_settled received
  rw [h] at hcalls
  rw [textOf_append]
  cases family with
  | qwen =>
    rw [sink, FamilySink.pushText_summary] at hcalls
    obtain ⟨hsink, hdelivered⟩ := Prod.mk.inj hcalls
    have htail : ApiFamily.qwen.tail decoded.text.toList =
        if SummaryFilter.heldBack decoded.text.toList then decoded.text.toList else [] := by
      simp only [tail, true_and]
    rw [sink, hsink, hdelivered, applyToTurn, applySummaryToTurn_text, SummaryFilter.finish_tail, htail, FamilySink.flush,
      textOf_nil, List.append_nil]
    intro filter h
    cases h
  | kimi =>
    rw [sink, FamilySink.pushText_think] at hcalls
    obtain ⟨hsink, hdelivered⟩ := Prod.mk.inj hcalls
    rw [sink, hsink, hdelivered, applyToTurn, applyThinkTagsToTurn_text, FamilySink.flush, tail,
      if_neg (fun h => by cases h.1), List.append_nil]
  | openAi | deepSeek | gemini | codex | custom =>
    change ((FamilySink.plain.calls received).1, textOf (FamilySink.plain.calls received).2) =
      FamilySink.plain.pushText decoded.text.toList at hcalls
    rw [FamilySink.pushText_plain] at hcalls
    obtain ⟨hsink, hdelivered⟩ := Prod.mk.inj hcalls
    change decoded.text = String.ofList
      (textOf (FamilySink.plain.calls received).2 ++ textOf (FamilySink.plain.calls received).1.flush ++ [])
    rw [hsink, hdelivered, FamilySink.flush, textOf_nil, List.append_nil, List.append_nil, String.ofList_toList]
    intro filter h
    cases h

/-- The caller has got the text of the turn, unless the filter of Qwen holds it back. -/
theorem familyTurn_text {decoded : ModelTurn} (hdecoded : (decodeResponse c config response).1 = .ok decoded)
    (h : familyTurn c config response = (.ok turn, calls)) : String.ofList (textOf calls) = turn.text ↔
      (config.family = .qwen → SummaryFilter.heldBack decoded.text.toList = false) := by
  rw [familyTurn] at h
  cases hresponse : decodeResponse c config response with
  | mk x received =>
    rw [hresponse] at hdecoded h
    cases hdecoded
    have hbytes := decodeResponse_ok (show (decodeResponse c config response).1 = .ok decoded by rw [hresponse])
    rw [hresponse] at hbytes
    have hreceived : textOf received = decoded.text.toList := by rw [decode_text hbytes.symm, String.toList_ofList]
    simp only [Prod.mk.injEq, Except.ok.injEq] at h
    obtain ⟨rfl, rfl⟩ := h
    rw [config.family.applyToTurn_text hreceived, String.ofList_inj, List.self_eq_append_right, ApiFamily.tail]
    constructor
    · intro htail hfamily
      by_contra hheld
      have hheld : SummaryFilter.heldBack decoded.text.toList = true := by simpa using hheld
      rw [if_pos ⟨hfamily, hheld⟩] at htail
      exact (of_decide_eq_true hheld).1 htail
    · intro h
      exact if_neg fun hheld => by simp [h hheld.1] at hheld

/-- **What the user saw is the text of the turn, unless the filter of Qwen holds it back.** -/
theorem streamed_text_iff {request : ModelTurnRequest} {replies : Nat → AttemptReplies}
    (h : (nextTurn c config request replies).1 = .ok turn) : ∃ response decoded,
      turnResponse c config request replies = some response ∧
      (decodeResponse c config response).1 = .ok decoded ∧
      (String.ofList (textOf (nextTurn c config request replies).2) = turn.text ↔
        (config.family = .qwen → SummaryFilter.heldBack decoded.text.toList = false)) := by
  obtain ⟨response, calls, hresponse, hreturned, htext⟩ := nextTurn_returned h
  obtain ⟨family, toolsEnabled, hfamily, rfl⟩ := hreturned.made
  obtain ⟨decoded, hdecoded, -⟩ := familyTurn_decoded hfamily
  refine ⟨response, decoded, hresponse, hdecoded, ?_⟩
  rw [htext, applyTurnContinuation_text]
  exact familyTurn_text hdecoded hfamily

end

/-! Streams of one delta under the family of Qwen. -/

def plainRequest : ModelTurnRequest where
  model := "model"
  messages := []
  tools := []
  sessionKey := ⟨"session"⟩
  runId := ⟨0⟩
  opaqueState := none
  features := ⟨false, false, none, none, none, none, false⟩

/-- Every attempt is answered with a body. -/
def served (contentType : Option String) (bytes : List UInt8) (_ : Nat) : AttemptReplies where
  once := {
    checked := .ok ()
    turn := ⟨.ok "token", .ok ⟨200, contentType, none, [.ok bytes]⟩, .error ⟨""⟩, .error ⟨""⟩⟩
    fallbackChecked := .ok ()
    fallback := ⟨.error ⟨""⟩, .error ⟨""⟩, .error ⟨""⟩, .error ⟨""⟩⟩ }
  deadline := none
  backoff := 0

def chatConfig (family : ApiFamily) : ProviderConfig := ⟨family, .chatCompletions, false, false, false⟩

/-- One delta, and the end of a stream. -/
def oneDelta (content : String) : List UInt8 :=
  dataEvent (contentText content) ++ dataEvent (finishText "stop") ++ doneEvent

def oneCalls (content : String) : ProviderCalls where
  codec := tableCodec [(contentText content, contentValue content), (finishText "stop", stopChunk)] []
  sanitize message _ := message
  promised _ := false

/-- The answer of the provider to a stream of one delta. -/
def oneTurn (family : ApiFamily) (content : String) : Sunk (Except ProviderError ModelTurn) :=
  nextTurn (oneCalls content) (chatConfig family) plainRequest (served eventStream (oneDelta content))

/-- The text of the turn is never handed on. -/
theorem summary_start_kept : (oneTurn .qwen "<sum").1.toOption.map ModelTurn.text = some "<sum" ∧
    textOf (oneTurn .qwen "<sum").2 = [] := by decide +kernel

theorem streamed_text_iff_hi : ∃ turn, (oneTurn .qwen "hi").1 = .ok turn ∧
    String.ofList (textOf (oneTurn .qwen "hi").2) = turn.text := by
  have hok : (oneTurn .qwen "hi").1.toOption.isSome = true := by decide +kernel
  have hheld : (turnResponse (oneCalls "hi") (chatConfig .qwen) plainRequest (served eventStream (oneDelta "hi"))).map (fun response =>
      (decodeResponse (oneCalls "hi") (chatConfig .qwen) response).1.toOption.map fun decoded =>
        SummaryFilter.heldBack decoded.text.toList) = some (some false) := by decide +kernel
  cases hturn : (oneTurn .qwen "hi").1 with
  | error e =>
    rw [hturn] at hok
    cases hok
  | ok turn =>
    refine ⟨turn, rfl, ?_⟩
    obtain ⟨response, decoded, hresponse, hdecoded, htext⟩ := streamed_text_iff hturn
    rw [hresponse, Option.map_some, hdecoded] at hheld
    exact htext.2 fun _ => Option.some.inj (Option.some.inj hheld)

end Aifluxon
