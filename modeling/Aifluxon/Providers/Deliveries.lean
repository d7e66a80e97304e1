import Aifluxon.Providers.ChatMessages
import Aifluxon.Providers.Thoughts

/-!
# A message, buffered and streamed

* `ChatMessage.Buffered`, `.Streamed` : a message in one value, and its fragments in many;
* `streaming`, `applyPiece_streaming` : what a fragment adds;
* `readPieces`, `readPieces_eq` : the content before the Gemini contract is announced is not parsed;
* `ChatMessage.Streamed.assembled`, `ChatMessage.Buffered.assembled` : what the assembler has in the end.
-/

namespace Aifluxon

open TagScan

/-! ## Messages in values -/

/-- An extension put over those that are saved, without the mark of a thought. -/
def saveExtra (saved : Value) (extra : Option Value) : Value :=
  match extra with
  | none => saved
  | some extra => mergeExtraContent saved (replayExtra extra)

/-- The message in one value, which is a snapshot. -/
structure ChatMessage.Buffered (m : ChatMessage) (p : ChatPiece) : Prop where
  usage : p.usage = m.usage
  finishReason : p.finishReason = m.finishReason
  snapshot : p.snapshot = true
  extra : p.extra = m.extra
  reasoning : p.reasoningText = m.reasoning
  content : p.contentText = m.content
  thought : p.thought = none
  toolCalls : WholeCalls m.calls 0 p.toolCalls

/-- The message in fragments: reasoning first, then content, with the tool calls, the usage, the finish reason and
the extensions anywhere between them. -/
structure ChatMessage.Streamed (m : ChatMessage) (ps : List ChatPiece) : Prop where
  deltas : ∀ p ∈ ps, p.snapshot = false ∧ p.thought = none
  usage : ps.foldl (fun usage p => p.usage.or usage) none = m.usage
  finishReason : ps.foldl (fun reason p => p.finishReason.or reason) none = m.finishReason
  extra : ps.foldl (fun saved p => saveExtra saved p.extra) (.object []) = saveExtra (.object []) m.extra
  announced : (ps.any fun p => p.extra.any announces) = m.extra.any announces
  reasoning : ps.flatMap ChatPiece.reasoningText = m.reasoning
  content : ps.flatMap ChatPiece.contentText = m.content
  order : ps.Pairwise fun p q => p.contentText = [] ∨ q.reasoningText = []
  toolCalls : StreamedCalls m.calls (ps.flatMap ChatPiece.toolCalls)

/-- What the assembler has of a message in the end. -/
structure ChatMessage.Assembled (m : ChatMessage) (text reasoning : List Char) (a : ChatCompletionsTurnAssembler) :
    Prop where
  text : a.text.emitted = text
  reasoning : a.reasoning.emitted = reasoning
  calls : a.tools.calls = m.calls.map ChatCall.pending
  usage : a.usage = m.usage
  finishReason : a.finishReason = m.finishReason
  extra : a.extraContent = saveExtra (.object []) m.extra

/-! ## Fragments -/

/-- Thoughts are looked for from an announcement on. -/
def announcedThoughts (announced : Bool) (thoughts : Option ThoughtStream) : Option ThoughtStream :=
  if announced then some (thoughts.getD .default) else thoughts

/-- Content that is parsed, or not. -/
def feedContent (thoughts : Option ThoughtStream) (content : List Char) : Option ThoughtStream × List (Bool × Char) :=
  match thoughts with
  | none => (none, content.map fun c => (false, c))
  | some s => (some (s.feed content).1, (s.feed content).2)

/-- An empty content changes nothing. -/
def Drained (thoughts : Option ThoughtStream) : Prop := feedContent thoughts [] = (thoughts, [])

theorem drained_none : Drained none := rfl

theorem drained_default : Drained (some .default) := rfl

theorem feedContent_drained (thoughts : Option ThoughtStream) (content : List Char) :
    Drained (feedContent thoughts content).1 := by
  cases thoughts with
  | none => rfl
  | some s =>
    have hdrained := ThoughtStream.feed_splits.settled s content
    simp only [Drained, feedContent, hdrained]

theorem announcedThoughts_drained {thoughts : Option ThoughtStream} (h : Drained thoughts) (announced : Bool) :
    Drained (announcedThoughts announced thoughts) := by
  cases announced with
  | false => exact h
  | true =>
    cases thoughts with
    | none => exact drained_default
    | some s => exact h

namespace ChatCompletionsTurnAssembler

/-- An assembler that no snapshot has come to. -/
def streaming (text reasoning : List Char) (tools : ToolCallAssembler) (usage : Option Value)
    (finishReason : Option String) (extraContent : Value) (thoughts : Option ThoughtStream) :
    ChatCompletionsTurnAssembler :=
  ⟨false, ⟨text, false⟩, ⟨reasoning, false⟩, tools, usage, finishReason, extraContent, thoughts⟩

/-- The tool calls after those of a value. -/
def toolsAfter (tools : ToolCallAssembler) (announced : Bool) (calls : List Value) (snapshot : Bool) :
    ToolCallAssembler :=
  let tools := if announced then tools.useGeminiContract else tools
  let tools := if calls.any hasGoogleExtra then tools.useGeminiContract else tools
  calls.zipIdx.foldl (fun tools call => tools.applyChatDelta call.1 call.2 snapshot) tools

section
variable (text reasoning : List Char) (tools : ToolCallAssembler) (usage : Option Value)
  (finishReason : Option String) (extraContent : Value) (thoughts : Option ThoughtStream)

theorem applyExtra_eq (a : ChatCompletionsTurnAssembler) (extra : Option Value) : a.applyExtra extra = { a with
    tools := if extra.any announces then a.tools.useGeminiContract else a.tools
    extraContent := saveExtra a.extraContent extra
    geminiThoughts := announcedThoughts (extra.any announces) a.geminiThoughts } := by
  cases extra with
  | none => rfl
  | some extra =>
    simp only [applyExtra, Option.any_some, saveExtra, announcedThoughts]
    by_cases h : announces extra = true
    · rw [if_pos (show (extra.get "google").isSome = true from h), if_pos h, if_pos h]
      rfl
    · rw [if_neg (show ¬ (extra.get "google").isSome = true from h), if_neg h, if_neg h]

theorem applyToolCalls_eq (a : ChatCompletionsTurnAssembler) (calls : List Value) (snapshot : Bool) :
    a.applyToolCalls calls snapshot = { a with
      tools := toolsAfter a.tools false calls snapshot
      geminiThoughts := announcedThoughts (calls.any hasGoogleExtra) a.geminiThoughts } := by
  simp only [applyToolCalls, toolsAfter, announcedThoughts]
  by_cases h : calls.any hasGoogleExtra = true
  · simp only [if_pos h]
    rfl
  · simp only [if_neg h]
    rfl

theorem pushText_streaming (incoming : List Char) :
    ((streaming text reasoning tools usage finishReason extraContent thoughts).pushText incoming false).1 =
      streaming (text ++ incoming) reasoning tools usage finishReason extraContent thoughts := by
  have hpush : TextDeltaReconciler.pushCompatible ⟨text, false⟩ incoming false false = _ :=
    TextDeltaReconciler.pushCompatible_incremental ⟨text, false⟩ rfl rfl
  simp only [pushText, streaming, hpush]

theorem pushReasoning_streaming (incoming : List Char) :
    ((streaming text reasoning tools usage finishReason extraContent thoughts).pushReasoning incoming false).1 =
      streaming text (reasoning ++ incoming) tools usage finishReason extraContent thoughts := by
  have hpush : TextDeltaReconciler.pushCompatible ⟨reasoning, false⟩ incoming false false = _ :=
    TextDeltaReconciler.pushCompatible_incremental ⟨reasoning, false⟩ rfl rfl
  simp only [pushReasoning, streaming, hpush]

theorem applyReasoning_streaming (incoming : Option (List Char)) :
    ((streaming text reasoning tools usage finishReason extraContent thoughts).applyReasoning incoming false).1 =
      streaming text (reasoning ++ incoming.getD []) tools usage finishReason extraContent thoughts := by
  cases incoming with
  | none =>
    rw [Option.getD_none, List.append_nil]
    rfl
  | some incoming => exact pushReasoning_streaming ..

theorem emitContent_streaming (visible thought : List Char) :
    ((streaming text reasoning tools usage finishReason extraContent thoughts).emitContent visible thought false).1 =
      streaming (text ++ visible) (reasoning ++ thought) tools usage finishReason extraContent thoughts := by
  simp only [emitContent, Sunk.andThen, pushReasoning_streaming, pushText_streaming]

theorem applyContent_streaming {thoughts : Option ThoughtStream} (hdrained : Drained thoughts)
    (content : Option (List Char)) :
    ((streaming text reasoning tools usage finishReason extraContent thoughts).applyContent content none false).1 =
      streaming (text ++ inMode false (feedContent thoughts (content.getD [])).2)
        (reasoning ++ inMode true (feedContent thoughts (content.getD [])).2) tools usage finishReason extraContent
        (feedContent thoughts (content.getD [])).1 := by
  cases content with
  | none =>
    rw [Option.getD_none, hdrained]
    simp only [inMode_nil, List.append_nil]
    rfl
  | some content =>
    cases thoughts with
    | none =>
      have hemit := emitContent_streaming text reasoning tools usage finishReason extraContent none content []
      simp only [Option.getD_some, feedContent, inMode_map, if_true, Bool.false_eq_true, if_false]
      exact hemit
    | some s =>
      have hemit := emitContent_streaming text reasoning tools usage finishReason extraContent (some (s.feed content).1)
        (inMode false (s.feed content).2) (inMode true (s.feed content).2)
      simp only [applyContent, streaming, ThoughtStream.push_feed, Bool.false_eq_true, if_false] at hemit ⊢
      exact hemit

/-- What is held back comes in the end. -/
theorem flushContent_streaming (s : ThoughtStream) :
    (streaming text reasoning tools usage finishReason extraContent (some s)).flushContent.1 =
      streaming (text ++ s.finish.2.1) (reasoning ++ s.finish.2.2) tools usage finishReason extraContent
        (some s.finish.1) :=
  emitContent_streaming text reasoning tools usage finishReason extraContent (some s.finish.1) s.finish.2.1 s.finish.2.2

/-- **What a fragment adds.** -/
theorem applyPiece_streaming {thoughts : Option ThoughtStream} (hdrained : Drained thoughts) {p : ChatPiece}
    (hsnapshot : p.snapshot = false) (hthought : p.thought = none) :
    let read := feedContent (announcedThoughts (p.extra.any announces) thoughts) p.contentText
    (streaming text reasoning tools usage finishReason extraContent thoughts).applyPiece p =
      streaming (text ++ inMode false read.2) (reasoning ++ p.reasoningText ++ inMode true read.2)
        (toolsAfter tools (p.extra.any announces) p.toolCalls false) (p.usage.or usage) (p.finishReason.or finishReason)
        (saveExtra extraContent p.extra) (announcedThoughts (p.toolCalls.any hasGoogleExtra) read.1) := by
  intro read
  have husage : ((streaming text reasoning tools usage finishReason extraContent thoughts).applyUsage p.usage).1 =
      streaming text reasoning tools (p.usage.or usage) finishReason extraContent thoughts := by
    cases p.usage <;> rfl
  have hextra : ((streaming text reasoning tools (p.usage.or usage) finishReason extraContent thoughts).applyFinishReason
      p.finishReason).applyExtra p.extra = streaming text reasoning
        (if p.extra.any announces then tools.useGeminiContract else tools) (p.usage.or usage)
        (p.finishReason.or finishReason) (saveExtra extraContent p.extra)
        (announcedThoughts (p.extra.any announces) thoughts) := applyExtra_eq _ _
  simp only [applyPiece, husage, hextra, hsnapshot, hthought, applyReasoning_streaming]
  rw [applyContent_streaming _ _ _ _ _ _ (announcedThoughts_drained hdrained _), applyToolCalls_eq]
  rfl

end

end ChatCompletionsTurnAssembler

/-! ## Snapshots -/

/-- A text after a snapshot. -/
def snap (r : TextDeltaReconciler) (incoming : List Char) : TextDeltaReconciler :=
  (r.pushCompatible incoming true false).1

@[simp] theorem snap_nil (r : TextDeltaReconciler) : snap r [] = r := by
  rw [snap, TextDeltaReconciler.pushCompatible_nil]

theorem snap_emitted {r : TextDeltaReconciler} (hr : r.Snapshotted) (incoming : List Char) :
    (snap r incoming).emitted = joinText r.emitted incoming := hr.emitted incoming true

theorem snap_snapshotted {r : TextDeltaReconciler} (hr : r.Snapshotted) (incoming : List Char) :
    (snap r incoming).Snapshotted := hr.snapshot incoming false

/-- The visible text and the thoughts that a content in one piece is read as, and the parser after it. -/
def readWhole (parsed : Bool) (content : List Char) : List Char × List Char × Option ThoughtStream :=
  if parsed then (shownText content, shownThoughts content, some (ThoughtStream.default.push content none).1)
  else (content, [], none)

namespace ChatCompletionsTurnAssembler

section
variable (text reasoning : TextDeltaReconciler) (tools : ToolCallAssembler) (usage : Option Value)
  (finishReason : Option String) (extraContent : Value)

theorem applyReasoning_snapshot (thoughts : Option ThoughtStream) (incoming : Option (List Char)) :
    ((⟨false, text, reasoning, tools, usage, finishReason, extraContent, thoughts⟩ :
      ChatCompletionsTurnAssembler).applyReasoning incoming true).1 =
      ⟨false, text, snap reasoning (incoming.getD []), tools, usage, finishReason, extraContent, thoughts⟩ := by
  cases incoming with
  | none =>
    rw [Option.getD_none, snap_nil]
    rfl
  | some incoming => rfl

theorem applyContent_snapshot (parsed : Bool) (content : Option (List Char)) :
    ((⟨false, text, reasoning, tools, usage, finishReason, extraContent, announcedThoughts parsed none⟩ :
      ChatCompletionsTurnAssembler).applyContent content none true).1 =
      ⟨false, snap text (readWhole parsed (content.getD [])).1, snap reasoning (readWhole parsed (content.getD [])).2.1,
        tools, usage, finishReason, extraContent, (readWhole parsed (content.getD [])).2.2⟩ := by
  cases content with
  | none =>
    cases parsed with
    | false =>
      simp only [readWhole, Option.getD_none, snap_nil, Bool.false_eq_true, if_false]
      rfl
    | true => rfl
  | some content =>
    cases parsed with
    | false =>
      simp only [readWhole, Option.getD_some, snap_nil, Bool.false_eq_true, if_false]
      rfl
    | true => rfl

/-- **A message in one value.** -/
theorem applyPiece_snapshot {gemini : Bool} {p : ChatPiece} (hsnapshot : p.snapshot = true) (hthought : p.thought = none) :
    let read := readWhole (gemini || p.extra.any announces) p.contentText
    (⟨false, text, reasoning, tools, usage, finishReason, extraContent, announcedThoughts gemini none⟩ :
      ChatCompletionsTurnAssembler).applyPiece p =
      ⟨false, snap text read.1, snap (snap reasoning p.reasoningText) read.2.1,
        toolsAfter tools (p.extra.any announces) p.toolCalls true, p.usage.or usage, p.finishReason.or finishReason,
        saveExtra extraContent p.extra, announcedThoughts (p.toolCalls.any hasGoogleExtra) read.2.2⟩ := by
  intro read
  have husage : ((⟨false, text, reasoning, tools, usage, finishReason, extraContent, announcedThoughts gemini none⟩ :
      ChatCompletionsTurnAssembler).applyUsage p.usage).1 = ⟨false, text, reasoning, tools, p.usage.or usage,
        finishReason, extraContent, announcedThoughts gemini none⟩ := by
    cases p.usage <;> rfl
  have hannounced : announcedThoughts (p.extra.any announces) (announcedThoughts gemini none) =
      announcedThoughts (gemini || p.extra.any announces) none := by
    cases gemini <;> cases p.extra.any announces <;> rfl
  have hextra : ((⟨false, text, reasoning, tools, p.usage.or usage, finishReason, extraContent,
      announcedThoughts gemini none⟩ : ChatCompletionsTurnAssembler).applyFinishReason p.finishReason).applyExtra
        p.extra = ⟨false, text, reasoning, if p.extra.any announces then tools.useGeminiContract else tools,
        p.usage.or usage, p.finishReason.or finishReason, saveExtra extraContent p.extra,
        announcedThoughts (gemini || p.extra.any announces) none⟩ := by
    rw [applyExtra_eq, ← hannounced]
    rfl
  simp only [applyPiece, husage, hextra, hsnapshot, hthought, applyReasoning_snapshot, applyContent_snapshot,
    applyToolCalls_eq]
  rfl

end

/-- What is held back is joined to texts that a snapshot has come to. -/
theorem flushContent_snapshot {text reasoning : TextDeltaReconciler} (htext : text.Snapshotted)
    (hreasoning : reasoning.Snapshotted) (tools : ToolCallAssembler) (usage : Option Value)
    (finishReason : Option String) (extraContent : Value) (thoughts : Option ThoughtStream) :
    let tail := (thoughts.map fun s => s.finish.2).getD ([], [])
    ∃ text' reasoning' thoughts', (⟨false, text, reasoning, tools, usage, finishReason, extraContent, thoughts⟩ :
      ChatCompletionsTurnAssembler).flushContent.1 =
        ⟨false, text', reasoning', tools, usage, finishReason, extraContent, thoughts'⟩ ∧
      text'.emitted = joinText text.emitted tail.1 ∧ reasoning'.emitted = joinText reasoning.emitted tail.2 := by
  cases thoughts with
  | none => exact ⟨_, _, _, rfl, (joinText_nil_right _).symm, (joinText_nil_right _).symm⟩
  | some s => exact ⟨_, _, _, rfl, htext.emitted _ false, hreasoning.emitted _ false⟩

end ChatCompletionsTurnAssembler

/-! ## Streams -/

/-- The content of fragments, parsed from an announcement on. -/
def readPieces (thoughts : Option ThoughtStream) : List ChatPiece → Option ThoughtStream × List (Bool × Char)
  | [] => (thoughts, [])
  | p :: ps =>
    let read := feedContent (announcedThoughts (p.extra.any announces) thoughts) p.contentText
    let rest := readPieces (announcedThoughts (p.toolCalls.any hasGoogleExtra) read.1) ps
    (rest.1, read.2 ++ rest.2)

/-- The content of fragments before the Gemini contract is announced, and after. -/
def splitContent (announced : Bool) : List ChatPiece → List Char × List Char
  | [] => ([], [])
  | p :: ps =>
    let announced := announced || p.extra.any announces
    let rest := splitContent (announced || p.toolCalls.any hasGoogleExtra) ps
    if announced then (rest.1, p.contentText ++ rest.2) else (p.contentText ++ rest.1, rest.2)

section
variable {ps : List ChatPiece}

theorem splitContent_true (ps : List ChatPiece) : splitContent true ps = ([], ps.flatMap ChatPiece.contentText) := by
  induction ps with
  | nil => rfl
  | cons p ps ih => simp only [splitContent, Bool.true_or, ih, if_true, List.flatMap_cons]

/-- The two parts are the whole. -/
theorem splitContent_append (announced : Bool) (ps : List ChatPiece) :
    (splitContent announced ps).1 ++ (splitContent announced ps).2 = ps.flatMap ChatPiece.contentText := by
  induction ps generalizing announced with
  | nil => rfl
  | cons p ps ih =>
    simp only [splitContent, List.flatMap_cons]
    split
    · rename_i h
      rw [h, Bool.true_or, splitContent_true]
      rfl
    · rw [List.append_assoc, ih]

theorem readPieces_some {s : ThoughtStream} (hdrained : Drained (some s)) (ps : List ChatPiece) :
    readPieces (some s) ps = feedContent (some s) (ps.flatMap ChatPiece.contentText) := by
  induction ps generalizing s with
  | nil => exact hdrained.symm
  | cons p ps ih =>
    have hread (announced : Bool) (s : ThoughtStream) : announcedThoughts announced (some s) = some s := by
      cases announced <;> rfl
    have hnext : Drained (some (s.feed p.contentText).1) := feedContent_drained (some s) _
    have hsplits := ThoughtStream.feed_splits s p.contentText (ps.flatMap ChatPiece.contentText)
    simp only [readPieces, hread, feedContent, ih hnext, List.flatMap_cons, hsplits]

/-- **The content before the announcement is visible as it is, and what comes after is parsed.** -/
theorem readPieces_none (ps : List ChatPiece) : (readPieces none ps).2 =
    ((splitContent false ps).1.map fun c => (false, c)) ++ (ThoughtStream.default.feed (splitContent false ps).2).2 ∧
    ((readPieces none ps).1 = none ∧ (splitContent false ps).2 = [] ∨
      (readPieces none ps).1 = some (ThoughtStream.default.feed (splitContent false ps).2).1) := by
  induction ps with
  | nil => exact ⟨rfl, .inl ⟨rfl, rfl⟩⟩
  | cons p ps ih =>
    simp only [readPieces, splitContent, Bool.false_or]
    cases p.extra.any announces with
    | true =>
      have hnext : Drained (some (ThoughtStream.default.feed p.contentText).1) :=
        feedContent_drained (some .default) _
      have hsplits := ThoughtStream.feed_splits .default p.contentText (ps.flatMap ChatPiece.contentText)
      have hread (announced : Bool) (s : ThoughtStream) : announcedThoughts announced (some s) = some s := by
        cases announced <;> rfl
      have hstart : announcedThoughts true none = some .default := rfl
      simp only [hstart, feedContent, hread, readPieces_some hnext, Bool.true_or, splitContent_true, if_true, hsplits]
      exact ⟨rfl, .inr trivial⟩
    | false =>
      have hstart : announcedThoughts false none = none := rfl
      simp only [hstart, feedContent, Bool.false_or, Bool.false_eq_true, if_false, List.map_append, List.append_assoc]
      cases p.toolCalls.any hasGoogleExtra with
      | true =>
        have hnext : announcedThoughts true none = some .default := rfl
        simp only [hnext, readPieces_some drained_default, splitContent_true, feedContent]
        exact ⟨rfl, .inr trivial⟩
      | false =>
        simp only [hstart]
        exact ⟨by rw [ih.1], ih.2⟩

end

namespace ChatCompletionsTurnAssembler

/-- A contract leaves the calls. -/
theorem built_toolsAfter {calls : List ChatCall} {before deltas after : List Value} {tools : ToolCallAssembler}
    (hbuilt : ToolCallAssembler.Built calls before tools) (h : StreamedCalls calls (before ++ deltas ++ after))
    (announced : Bool) :
    ToolCallAssembler.Built calls (before ++ deltas) (toolsAfter tools announced deltas false) := by
  have hgemini (b : Bool) {tools : ToolCallAssembler} (hbuilt : ToolCallAssembler.Built calls before tools) :
      ToolCallAssembler.Built calls before (if b then tools.useGeminiContract else tools) := by
    cases b with
    | false => exact hbuilt
    | true => exact ⟨hbuilt.callAt, hbuilt.length⟩
  exact (hgemini _ (hgemini announced hbuilt)).run h 0

theorem applyPieces_streaming {text reasoning : List Char} {tools : ToolCallAssembler} {usage : Option Value}
    {finishReason : Option String} {extraContent : Value} {thoughts : Option ThoughtStream}
    (hdrained : Drained thoughts) {ps : List ChatPiece} (hdeltas : ∀ p ∈ ps, p.snapshot = false ∧ p.thought = none)
    (horder : ps.Pairwise fun p q => p.contentText = [] ∨ q.reasoningText = []) :
    ∃ tools', ps.foldl applyPiece (streaming text reasoning tools usage finishReason extraContent thoughts) =
      streaming (text ++ inMode false (readPieces thoughts ps).2)
        (reasoning ++ ps.flatMap ChatPiece.reasoningText ++ inMode true (readPieces thoughts ps).2) tools'
        (ps.foldl (fun usage p => p.usage.or usage) usage)
        (ps.foldl (fun reason p => p.finishReason.or reason) finishReason)
        (ps.foldl (fun saved p => saveExtra saved p.extra) extraContent) (readPieces thoughts ps).1 ∧
      ∀ {calls : List ChatCall} {before after : List Value}, ToolCallAssembler.Built calls before tools →
        StreamedCalls calls (before ++ ps.flatMap ChatPiece.toolCalls ++ after) →
        ToolCallAssembler.Built calls (before ++ ps.flatMap ChatPiece.toolCalls) tools' := by
  induction ps generalizing text reasoning tools usage finishReason extraContent thoughts with
  | nil =>
    refine ⟨tools, ?_, fun hbuilt _ => ?_⟩
    · simp only [readPieces, List.foldl_nil, List.flatMap_nil, inMode_nil, List.append_nil]
    · rwa [List.flatMap_nil, List.append_nil]
  | cons p ps ih =>
    obtain ⟨hsnapshot, hthought⟩ := hdeltas p (List.mem_cons_self ..)
    obtain ⟨hlater, horder⟩ := List.pairwise_cons.1 horder
    have hstart := announcedThoughts_drained hdrained (p.extra.any announces)
    have hnext := announcedThoughts_drained (feedContent_drained
      (announcedThoughts (p.extra.any announces) thoughts) p.contentText) (p.toolCalls.any hasGoogleExtra)
    obtain ⟨tools', hrest, htools⟩ := @ih
      (text ++ inMode false (feedContent (announcedThoughts (p.extra.any announces) thoughts) p.contentText).2)
      (reasoning ++ p.reasoningText ++
        inMode true (feedContent (announcedThoughts (p.extra.any announces) thoughts) p.contentText).2)
      (toolsAfter tools (p.extra.any announces) p.toolCalls false) (p.usage.or usage) (p.finishReason.or finishReason)
      (saveExtra extraContent p.extra) _ hnext (fun q hq => hdeltas q (List.mem_cons_of_mem _ hq)) horder
    refine ⟨tools', ?_, fun {calls before after} hbuilt h => ?_⟩
    · -- Reasoning that comes after content would stand before its thoughts.
      have hthoughts : inMode true (feedContent (announcedThoughts (p.extra.any announces) thoughts) p.contentText).2 ++
          ps.flatMap ChatPiece.reasoningText = ps.flatMap ChatPiece.reasoningText ++
            inMode true (feedContent (announcedThoughts (p.extra.any announces) thoughts) p.contentText).2 := by
        by_cases hcontent : p.contentText = []
        · rw [hcontent, hstart, inMode_nil, List.nil_append, List.append_nil]
        · have hnone : ps.flatMap ChatPiece.reasoningText = [] :=
            List.flatMap_eq_nil_iff.2 fun q hq => (hlater q hq).resolve_left hcontent
          rw [hnone, List.nil_append, List.append_nil]
      rw [List.foldl_cons, applyPiece_streaming _ _ _ _ _ _ hdrained hsnapshot hthought, hrest]
      simp only [readPieces, List.foldl_cons, List.flatMap_cons, inMode_append, List.append_assoc, hthoughts]
    · have hhead : StreamedCalls calls
          (before ++ p.toolCalls ++ (ps.flatMap ChatPiece.toolCalls ++ after)) := by simpa using h
      have hlater : StreamedCalls calls
          (before ++ p.toolCalls ++ ps.flatMap ChatPiece.toolCalls ++ after) := by simpa using h
      rw [List.flatMap_cons, ← List.append_assoc]
      exact htools (built_toolsAfter hbuilt hhead _) hlater

end ChatCompletionsTurnAssembler

/-! ## What the assembler has in the end -/

section
variable {m : ChatMessage} {p : ChatPiece} {ps : List ChatPiece}

/-- The assembler before a response. -/
theorem assembler_streaming (contract : Contract) : ∃ tools, tools.calls = [] ∧ contract.assembler false =
    ChatCompletionsTurnAssembler.streaming [] [] tools none none (.object [])
      (announcedThoughts contract.gemini none) := by
  obtain ⟨deepseek, gemini⟩ := contract
  cases deepseek <;> cases gemini <;> exact ⟨_, rfl, rfl⟩

/-- The content of a stream under a contract. -/
theorem readPieces_start (gemini : Bool) (ps : List ChatPiece) :
    (readPieces (announcedThoughts gemini none) ps).2 = ((splitContent gemini ps).1.map fun c => (false, c)) ++
      (ThoughtStream.default.feed (splitContent gemini ps).2).2 ∧
    ((readPieces (announcedThoughts gemini none) ps).1 = none ∧ (splitContent gemini ps).2 = [] ∨
      (readPieces (announcedThoughts gemini none) ps).1 =
        some (ThoughtStream.default.feed (splitContent gemini ps).2).1) := by
  cases gemini with
  | false => exact readPieces_none ps
  | true =>
    have hread : readPieces (announcedThoughts true none) ps = _ := readPieces_some drained_default ps
    rw [hread, splitContent_true]
    exact ⟨rfl, .inr rfl⟩

/-- **A streamed message**: the text that is not parsed, then the visible text; the reasoning, then the thoughts. -/
theorem ChatMessage.Streamed.assembled (h : m.Streamed ps) (contract : Contract) :
    m.Assembled
      ((splitContent contract.gemini ps).1 ++ visibleFrom false (splitContent contract.gemini ps).2)
      (m.reasoning ++ thoughtsFrom false (splitContent contract.gemini ps).2)
      (ps.foldl ChatCompletionsTurnAssembler.applyPiece (contract.assembler false)).flushContent.1 := by
  obtain ⟨tools, hcalls, hstart⟩ := assembler_streaming contract
  have hdrained : Drained (announcedThoughts contract.gemini none) := announcedThoughts_drained drained_none _
  obtain ⟨tools', hrun, htools⟩ := @ChatCompletionsTurnAssembler.applyPieces_streaming [] [] tools none none (.object [])
    _ hdrained ps h.deltas h.order
  have hempty : ToolCallAssembler.Built m.calls [] tools :=
    ⟨fun i => by rw [ToolCallAssembler.callAt, hcalls]; rfl, by rw [hcalls]; exact Nat.zero_le _⟩
  have hall : StreamedCalls m.calls ([] ++ ps.flatMap ChatPiece.toolCalls ++ []) := by simpa using h.toolCalls
  have hbuilt := (htools hempty hall).all h.toolCalls
  obtain ⟨hlabels, hthoughts⟩ := readPieces_start contract.gemini ps
  generalize (splitContent contract.gemini ps).1 = raw at hlabels ⊢
  generalize (splitContent contract.gemini ps).2 = parsed at hlabels hthoughts ⊢
  rw [hstart, hrun, hlabels, h.usage, h.finishReason, h.extra, h.reasoning]
  simp only [inMode_append, inMode_map, if_true, Bool.false_eq_true, if_false, List.nil_append]
  rcases hthoughts with ⟨hnone, rfl⟩ | hsome
  · rw [hnone]
    exact ⟨rfl, rfl, hbuilt, rfl, rfl, rfl⟩
  · rw [hsome, ChatCompletionsTurnAssembler.flushContent_streaming, visibleFrom_feed, thoughtsFrom_feed]
    exact ⟨List.append_assoc .., List.append_assoc .., hbuilt, rfl, rfl, rfl⟩

/-- A snapshot of tool calls goes to calls that are new. -/
theorem whole_toolsAfter {calls : List ChatCall} {values : List Value} {tools : ToolCallAssembler}
    (htools : tools.calls = []) (h : WholeCalls calls 0 values) (hdistinct : (calls.map ChatCall.id).Nodup)
    (announced : Bool) :
    (ChatCompletionsTurnAssembler.toolsAfter tools announced values true).calls = calls.map ChatCall.pending := by
  have hgemini (b : Bool) {tools : ToolCallAssembler} (htools : tools.calls = []) :
      (if b then tools.useGeminiContract else tools).calls = List.map ChatCall.pending [] := by
    cases b <;> exact htools
  exact ToolCallAssembler.foldl_whole (hgemini _ (hgemini announced htools)) h hdistinct

/-- What is held back of a content in one piece. -/
theorem readWhole_tail (parsed announced : Bool) (content : List Char) :
    (((announcedThoughts announced (readWhole parsed content).2.2).map fun s => s.finish.2).getD ([], [])).1 =
      (if parsed then tailText content else []) ∧
    (((announcedThoughts announced (readWhole parsed content).2.2).map fun s => s.finish.2).getD ([], [])).2 =
      if parsed then tailThoughts content else [] := by
  cases parsed <;> cases announced <;> exact ⟨rfl, rfl⟩

/-- **A buffered message**: thoughts and what is held back are joined to what is there. -/
theorem ChatMessage.Buffered.assembled (h : m.Buffered p) (contract : Contract) :
    m.Assembled
      (if contract.gemini || m.extra.any announces then joinText (shownText m.content) (tailText m.content) else m.content)
      (if contract.gemini || m.extra.any announces then
        joinText (joinText m.reasoning (shownThoughts m.content)) (tailThoughts m.content) else m.reasoning)
      ((contract.assembler false).applyPiece p).flushContent.1 := by
  obtain ⟨tools, hcalls, hstart⟩ := assembler_streaming contract
  have hwhole := whole_toolsAfter hcalls h.toolCalls m.distinct (p.extra.any announces)
  have hrun : (contract.assembler false).applyPiece p = _ := (congrArg (·.applyPiece p) hstart).trans
    (ChatCompletionsTurnAssembler.applyPiece_snapshot .default .default tools none none (.object []) h.snapshot h.thought)
  rw [hrun, ← h.extra, ← h.content, ← h.reasoning]
  generalize hparsed : (contract.gemini || p.extra.any announces) = parsed
  have htext := snap_snapshotted TextDeltaReconciler.snapshotted_default (readWhole parsed p.contentText).1
  have hreasoning := snap_snapshotted TextDeltaReconciler.snapshotted_default p.reasoningText
  obtain ⟨text, reasoning, thoughts, hflush, hjoined, hjoined'⟩ :=
    ChatCompletionsTurnAssembler.flushContent_snapshot htext
      (snap_snapshotted hreasoning (readWhole parsed p.contentText).2.1)
      (ChatCompletionsTurnAssembler.toolsAfter tools (p.extra.any announces) p.toolCalls true) (p.usage.or none)
      (p.finishReason.or none) (saveExtra (.object []) p.extra)
      (announcedThoughts (p.toolCalls.any hasGoogleExtra) (readWhole parsed p.contentText).2.2)
  rw [hflush]
  rw [snap_emitted TextDeltaReconciler.snapshotted_default] at hjoined
  rw [snap_emitted hreasoning, snap_emitted TextDeltaReconciler.snapshotted_default] at hjoined'
  obtain ⟨htail, htail'⟩ := readWhole_tail parsed (p.toolCalls.any hasGoogleExtra) p.contentText
  rw [htail] at hjoined
  rw [htail'] at hjoined'
  refine ⟨hjoined.trans ?_, hjoined'.trans ?_, hwhole, ?_, ?_, ?_⟩
  · cases parsed with
    | false => exact (joinText_nil_right _).trans (joinText_nil_left _)
    | true => exact congrArg (joinText · (tailText p.contentText)) (joinText_nil_left _)
  · have hstart : joinText TextDeltaReconciler.default.emitted p.reasoningText = p.reasoningText := joinText_nil_left _
    rw [hstart]
    cases parsed with
    | false => exact (joinText_nil_right _).trans (joinText_nil_right _)
    | true => rfl
  · exact Option.or_none.trans h.usage
  · exact Option.or_none.trans h.finishReason
  · exact congrArg (saveExtra _) h.extra

end

end Aifluxon
