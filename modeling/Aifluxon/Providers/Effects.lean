import Aifluxon.Providers.Decoding

/-!
# What a value changes

* `ToolCallAssembler.Reaches` : the tool calls grow by deltas;
* `ResponsesTurnState.Effect` : what an event leaves of the status, and adds to the text, the tool calls and the items;
* `ResponsesTurnState.applyValue_cases` : the ways in which an event is taken;
* `ChatCompletionsTurnAssembler.Grows` : the same for Chat Completions;
* `TurnAssembly.applyValues_grows` : the text of the assembler grows by what goes to the sink, its tool calls by deltas.
-/

namespace Aifluxon

/-! ## Tool calls -/

namespace ToolCallAssembler

/-- The calls grow by deltas; a contract may be found on the way. -/
inductive Reaches (a : ToolCallAssembler) : ToolCallAssembler → Prop
  | refl : Reaches a a
  | delta {b : ToolCallAssembler} (h : Reaches a b) (delta : Value) (fallbackPosition : Nat) (snapshot : Bool) :
    Reaches a (b.applyChatDelta delta fallbackPosition snapshot)
  | gemini {b : ToolCallAssembler} (h : Reaches a b) : Reaches a b.useGeminiContract

theorem Reaches.trans {a b c : ToolCallAssembler} (h : a.Reaches b) (h' : b.Reaches c) : a.Reaches c := by
  induction h' with
  | refl => exact h
  | delta _ delta fallbackPosition snapshot ih => exact ih.delta delta fallbackPosition snapshot
  | gemini _ ih => exact ih.gemini

end ToolCallAssembler

/-! ## Responses -/

/-- An item of the kinds that are kept for the next request. -/
def KeptItem (item : Value) : Prop := eventType item = some "reasoning" ∨ eventType item = some "web_search_call"

namespace ResponsesTurnState

variable {codec : WireCodec} {s s₁ s' : ResponsesTurnState} {calls calls' : List SinkEvent} {value : Value}

/-- The items that are kept are of their kinds. -/
def KeepsItems (s : ResponsesTurnState) : Prop := ∀ item ∈ s.replay.items, KeptItem item

/-- What is remembered of the events, so that one is known when it comes again. -/
def memory (s : ResponsesTurnState) : Option Nat × List String := (s.lastSequenceNumber, s.seenEventKeys)

/-- The status stays, and what is remembered of the events; the text grows by what goes to the sink, the tool calls by
deltas. -/
structure Effect (s s' : ResponsesTurnState) (calls : List SinkEvent) : Prop where
  memory : s'.memory = s.memory
  terminal : s'.terminal = s.terminal
  text : s'.text = s.text ++ textOf calls
  tools : s.tools.Reaches s'.tools
  items : s.KeepsItems → s'.KeepsItems

theorem Effect.trans (h : s.Effect s₁ calls) (h' : s₁.Effect s' calls') : s.Effect s' (calls ++ calls') where
  memory := h'.memory.trans h.memory
  terminal := h'.terminal.trans h.terminal
  text := by rw [h'.text, h.text, textOf_append, List.append_assoc]
  tools := h.tools.trans h'.tools
  items := h'.items ∘ h.items

/-- The other fields do not matter. -/
theorem Effect.silent (hmemory : s'.memory = s.memory) (hterminal : s'.terminal = s.terminal) (htext : s'.text = s.text)
    (htools : s.tools.Reaches s'.tools) (hreplay : s'.replay = s.replay) : s.Effect s' [] :=
  ⟨hmemory, hterminal, by rw [htext, textOf_nil, List.append_nil], htools, fun h => by rwa [KeepsItems, hreplay]⟩

theorem setPart_effect (kind : PartKind) (key : String) (part : TextDeltaReconciler) :
    s.Effect (s.setPart kind key part) [] := by
  cases kind <;> exact .silent rfl rfl rfl .refl rfl

theorem emit_effect (kind : PartKind) (delta : Option (List Char)) :
    s.Effect (s.emit kind delta).1 (s.emit kind delta).2 := by
  cases kind with
  | output => exact ⟨rfl, rfl, by simp [emit], .refl, id⟩
  | reasoning | reasoningSummary => exact ⟨rfl, rfl, by simp [emit], .refl, id⟩

theorem pushPart_effect (kind : PartKind) (allow : Bool) (value : Value) (delta : List Char) :
    s.Effect (s.pushPart kind allow value delta).1 (s.pushPart kind allow value delta).2 :=
  (setPart_effect kind _ _).trans (emit_effect kind _)

theorem completePart_effect {kind : PartKind} {text : List Char}
    (h : s.completePart kind value text = (.ok s', calls)) : s.Effect s' calls := by
  simp only [completePart] at h
  split at h
  · cases h
  · cases h
    exact (setPart_effect kind _ _).trans (emit_effect kind _)

theorem applyFunctionCallItem_effect (index : Nat) (item : Value) (snapshot : Bool) :
    s.Effect (s.applyFunctionCallItem index item snapshot) [] := by
  unfold applyFunctionCallItem
  split
  · exact .silent rfl rfl rfl (.delta .refl _ _ _) rfl
  · exact .silent rfl rfl rfl .refl rfl

theorem applyArguments_effect (index : Nat) (arguments : String) (snapshot : Bool) :
    s.Effect (s.applyArguments index arguments snapshot) [] := .silent rfl rfl rfl (.delta .refl _ _ _) rfl

theorem mem_upsertBy {p : Value → Bool} {item x : Value} {items : List Value} (h : x ∈ upsertBy p item items) :
    x = item ∨ x ∈ items := by
  induction items with
  | nil => exact .inl (List.mem_singleton.1 h)
  | cons y items ih =>
    rw [upsertBy] at h
    split at h
    · exact (List.mem_cons.1 h).imp id (List.mem_cons_of_mem _)
    · rcases List.mem_cons.1 h with rfl | h
      · exact .inr (List.mem_cons_self ..)
      · exact (ih h).imp id (List.mem_cons_of_mem _)

theorem mem_upsert {replay : ReplayState} {item x : Value} (h : x ∈ (replay.upsert item).items) :
    x = item ∨ x ∈ replay.items := by
  unfold ReplayState.upsert at h
  split at h
  · split at h
    · exact .inr h
    · exact (List.mem_append.1 h).symm.imp List.mem_singleton.1 id
  · exact mem_upsertBy h

theorem upsertItem_effect (item : Value) : s.Effect (s.upsertItem item) [] := by
  unfold upsertItem
  split
  · rename_i hkept
    refine ⟨rfl, rfl, (List.append_nil _).symm, .refl, fun h x hx => ?_⟩
    rcases mem_upsert hx with rfl | hx
    · exact hkept
    · exact h x hx
  · exact .silent rfl rfl rfl .refl rfl

theorem applyItem_effect (index : Nat) (item : Value) : s.Effect (s.applyItem codec index item) [] := by
  have hcapture : s.Effect { s with artifacts := s.artifacts.capture codec item } [] := .silent rfl rfl rfl .refl rfl
  have hupsert := hcapture.trans (upsertItem_effect item)
  exact hupsert.trans (applyFunctionCallItem_effect index item true)

theorem mergeSnapshotItems_effect (response : Value) : s.Effect (s.mergeSnapshotItems codec response) [] := by
  rw [mergeSnapshotItems]
  generalize List.zipIdx _ = items
  induction items generalizing s with
  | nil => exact .silent rfl rfl rfl .refl rfl
  | cons item items ih =>
    rw [List.foldl_cons]
    exact (applyItem_effect item.2 item.1).trans ih

theorem applyTerminalSnapshot_effect {response : Value}
    (h : s.applyTerminalSnapshot codec response = (.ok s', calls)) : s.Effect s' calls := by
  simp only [applyTerminalSnapshot] at h
  split at h
  · cases h
  · cases h
    have houtput : s.Effect { s with
        terminalOutputItems := ((response.get "output").bind Value.asArray).getD s.terminalOutputItems } [] :=
      .silent rfl rfl rfl .refl rfl
    exact houtput.trans ((emit_effect .output _).trans (mergeSnapshotItems_effect response))

/-- **What an event changes by its type.** -/
theorem applyTyped_changes {allow : Bool} (h : s.applyTyped codec allow value = (.ok s', calls)) :
    s.Effect s' calls := by
  have hdone : s.Effect { s with sawOutputDone := true } [] := .silent rfl rfl rfl .refl rfl
  generalize hx : s.applyTyped codec allow value = x at h
  cases hx ▸ s.applyTyped_effect codec allow value with
  | keep => cases h; exact .silent rfl rfl rfl .refl rfl
  | push kind delta => cases h; exact pushPart_effect kind allow value delta
  | complete kind text => exact completePart_effect h
  | outputDone => cases h; exact hdone
  | completeOutput text => exact hdone.trans (completePart_effect h)
  | functionCall index item => cases h; exact applyFunctionCallItem_effect index item false
  | arguments index arguments snapshot => cases h; exact applyArguments_effect index arguments snapshot
  | item index item => cases h; exact applyItem_effect index item
  | snapshot response => exact applyTerminalSnapshot_effect h

/-- A new event is remembered. -/
theorem acceptEvent_frame {new : Bool} (h : s.acceptEvent codec value = .ok (new, s')) :
    ∃ lastSequenceNumber seenEventKeys, s' = { s with lastSequenceNumber, seenEventKeys } := by
  unfold acceptEvent at h
  split at h
  · split at h
    · split at h
      · cases h
        exact ⟨_, _, rfl⟩
      · split at h <;> cases h
        exact ⟨_, _, rfl⟩
    · cases h
      exact ⟨_, _, rfl⟩
  · split at h
    · split at h <;> cases h <;> exact ⟨_, _, rfl⟩
    · cases h
      exact ⟨_, _, rfl⟩

/-- The state in which a new event does what its type says. -/
def heeded (s : ResponsesTurnState) (value : Value) : Sunk ResponsesTurnState :=
  ((s.applyStatus (terminalStatus value)).applyTerminal value).applyUsage (usageFromResponses value)

theorem heeded_frame (value : Value) : ∃ usage endTurn incompleteReason, (s.heeded value).1 = { s with
    usage, endTurn, incompleteReason, terminal := (terminalStatus value).or s.terminal } := by
  unfold heeded applyUsage applyTerminal applyStatus
  split <;> split <;> exact ⟨_, _, _, rfl⟩

theorem heeded_text (value : Value) : textOf (s.heeded value).2 = [] := by
  unfold heeded applyUsage
  split <;> rfl

/-- **The ways in which an event is taken**: not at all, as a repetition, or by its type. -/
theorem applyValue_cases {allow : Bool} (h : s.applyValue codec allow value = (.ok s', calls)) :
    (looksLikeResponsesStreamValue value = false ∧ s' = s ∧ calls = []) ∨
    (looksLikeResponsesStreamValue value = true ∧ s.acceptEvent codec value = .ok (false, s') ∧ calls = []) ∨
    ∃ s₁ calls', looksLikeResponsesStreamValue value = true ∧ s.acceptEvent codec value = .ok (true, s₁) ∧
      (s₁.heeded value).1.applyTyped codec allow value = (.ok s', calls') ∧ calls = (s₁.heeded value).2 ++ calls' := by
  unfold applyValue at h
  split at h
  · rename_i hlooks
    cases h
    exact .inl ⟨by simpa using hlooks, rfl, rfl⟩
  rename_i hlooks
  have hlooks : looksLikeResponsesStreamValue value = true := by simpa using hlooks
  split at h
  · cases h
  · rename_i haccept
    cases h
    exact .inr (.inl ⟨hlooks, haccept, rfl⟩)
  · rename_i s₁ haccept
    simp only at h
    split at h
    · cases h
    refine .inr (.inr ⟨s₁, ?_⟩)
    cases htyped : (s₁.heeded value).1.applyTyped codec allow value with
    | mk x delivered =>
      change (s₁.heeded value).ok.attempt _ = _ at h
      rw [Sunk.ok, Sunk.attempt_ok, htyped] at h
      cases h
      exact ⟨delivered, hlooks, haccept, rfl, rfl⟩

/-- An event adds to the text what goes to the sink, and to the tool calls deltas. -/
theorem applyValue_grows {allow : Bool} (h : s.applyValue codec allow value = (.ok s', calls)) :
    s'.text = s.text ++ textOf calls ∧ s.tools.Reaches s'.tools ∧ (s.KeepsItems → s'.KeepsItems) := by
  rcases applyValue_cases h with ⟨-, rfl, rfl⟩ | ⟨-, haccept, rfl⟩ | ⟨s₁, calls', -, haccept, htyped, rfl⟩
  · exact ⟨(List.append_nil _).symm, .refl, id⟩
  · obtain ⟨_, _, rfl⟩ := acceptEvent_frame haccept
    exact ⟨(List.append_nil _).symm, .refl, id⟩
  · obtain ⟨_, _, haccepted⟩ := acceptEvent_frame haccept
    obtain ⟨_, _, _, hheeded⟩ := heeded_frame (s := s₁) value
    have heffect := applyTyped_changes htyped
    have htext : (s₁.heeded value).1.text = s.text := by rw [hheeded, haccepted]
    have htools : (s₁.heeded value).1.tools = s.tools := by rw [hheeded, haccepted]
    have hreplay : (s₁.heeded value).1.replay = s.replay := by rw [hheeded, haccepted]
    rw [heffect.text, htext, textOf_append, heeded_text, List.nil_append]
    exact ⟨rfl, htools ▸ heffect.tools, fun hkeeps => heffect.items (by rwa [KeepsItems, hreplay])⟩

end ResponsesTurnState

/-! ## Chat Completions -/

namespace ChatCompletionsTurnAssembler

variable (a : ChatCompletionsTurnAssembler)

/-- The text grows by what goes to the sink, the tool calls by deltas. -/
structure Grows (r : Sunk ChatCompletionsTurnAssembler) : Prop where
  text : r.1.text.emitted = a.text.emitted ++ textOf r.2
  tools : a.tools.Reaches r.1.tools

variable {a}

theorem Grows.andThen {r : Sunk ChatCompletionsTurnAssembler} (h : a.Grows r)
    {next : ChatCompletionsTurnAssembler → Sunk ChatCompletionsTurnAssembler}
    (hnext : ∀ a : ChatCompletionsTurnAssembler, a.Grows (next a)) : a.Grows (r.andThen next) where
  text := by
    rw [Sunk.andThen, textOf_append, ← List.append_assoc, ← h.text]
    exact (hnext r.1).text
  tools := h.tools.trans (hnext r.1).tools

/-- A step that leaves the text and calls nothing. -/
theorem Grows.silent {a' : ChatCompletionsTurnAssembler} (h : a'.text = a.text) (htools : a.tools.Reaches a'.tools) :
    a.Grows (a', []) := ⟨by rw [h, textOf_nil, List.append_nil], htools⟩

/-- The fields beside the text and the tool calls do not matter. -/
theorem Grows.of_fields {a' : ChatCompletionsTurnAssembler} {r : Sunk ChatCompletionsTurnAssembler} (h : a'.Grows r)
    (htext : a'.text = a.text) (htools : a.tools.Reaches a'.tools) : a.Grows r :=
  ⟨htext ▸ h.text, htools.trans h.tools⟩

theorem pushText_grows (a : ChatCompletionsTurnAssembler) (incoming : List Char) (snapshot : Bool) :
    a.Grows (a.pushText incoming snapshot) where
  text := by
    simp only [pushText, textOf_textCall]
    exact a.text.pushCompatible_emitted incoming snapshot a.allowCumulativeDelta
  tools := .refl

theorem pushReasoning_grows (a : ChatCompletionsTurnAssembler) (incoming : List Char) (snapshot : Bool) :
    a.Grows (a.pushReasoning incoming snapshot) where
  text := by simp [pushReasoning]
  tools := .refl

theorem emitContent_grows (a : ChatCompletionsTurnAssembler) (visible reasoning : List Char) (snapshot : Bool) :
    a.Grows (a.emitContent visible reasoning snapshot) :=
  (a.pushReasoning_grows reasoning snapshot).andThen fun a => a.pushText_grows visible snapshot

theorem flushContent_grows (a : ChatCompletionsTurnAssembler) : a.Grows a.flushContent := by
  unfold flushContent
  split
  · exact .silent rfl .refl
  · exact (emitContent_grows _ _ _ _).of_fields rfl .refl

theorem applyContent_grows (a : ChatCompletionsTurnAssembler) (content : Option (List Char)) (thought : Option Bool)
    (snapshot : Bool) : a.Grows (a.applyContent content thought snapshot) := by
  unfold applyContent
  split
  · exact .silent rfl .refl
  · split
    · exact emitContent_grows a _ _ _
    · exact (emitContent_grows _ _ _ _).of_fields rfl .refl

theorem applyReasoning_grows (a : ChatCompletionsTurnAssembler) (reasoning : Option (List Char)) (snapshot : Bool) :
    a.Grows (a.applyReasoning reasoning snapshot) := by
  cases reasoning with
  | none => exact .silent rfl .refl
  | some reasoning => exact a.pushReasoning_grows reasoning snapshot

theorem applyExtra_grows (a : ChatCompletionsTurnAssembler) (extra : Option Value) :
    a.Grows (a.applyExtra extra, []) := by
  cases extra with
  | none => exact .silent rfl .refl
  | some extra =>
    simp only [applyExtra]
    split
    · exact .silent rfl (.gemini .refl)
    · exact .silent rfl .refl

theorem applyToolCalls_grows (a : ChatCompletionsTurnAssembler) (calls : List Value) (snapshot : Bool) :
    a.Grows (a.applyToolCalls calls snapshot, []) := by
  have hdeltas (items : List (Value × Nat)) (tools : ToolCallAssembler) :
      tools.Reaches (items.foldl (fun tools call => tools.applyChatDelta call.1 call.2 snapshot) tools) := by
    induction items generalizing tools with
    | nil => exact .refl
    | cons item items ih => exact (ToolCallAssembler.Reaches.refl.delta _ _ _).trans (ih _)
  simp only [applyToolCalls]
  split
  · exact .silent rfl ((ToolCallAssembler.Reaches.refl.gemini).trans (hdeltas _ _))
  · exact .silent rfl (hdeltas _ _)

theorem applyDelta_grows (a : ChatCompletionsTurnAssembler) (delta : Value) (snapshot : Bool) :
    a.Grows (a.applyDelta delta snapshot) := by
  have hextra := (a.applyExtra_grows (deltaExtra delta)).andThen fun a => a.applyReasoning_grows (deltaReasoning delta) snapshot
  exact (hextra.andThen fun a => a.applyContent_grows _ _ snapshot).andThen fun a => a.applyToolCalls_grows _ snapshot

/-- **A value adds to the text what goes to the sink, and to the tool calls deltas.** -/
theorem applyValue_grows (a : ChatCompletionsTurnAssembler) (value : Value) : a.Grows (a.applyValue value) := by
  have husage : a.Grows (a.applyUsage (usageValue value)) := by
    cases usageValue value with
    | none => exact .silent rfl .refl
    | some usage => exact ⟨by simp [applyUsage], .refl⟩
  refine husage.andThen fun a => ?_
  split
  · exact .silent rfl .refl
  · split
    · exact .silent rfl .refl
    · exact (applyDelta_grows _ _ _).of_fields rfl .refl

/-- What has been flushed is not flushed again. -/
theorem flushContent_again (a : ChatCompletionsTurnAssembler) :
    a.flushContent.1.flushContent = (a.flushContent.1, []) := by
  cases hthoughts : a.geminiThoughts with
  | none =>
    have hflush : a.flushContent = (a, []) := by simp only [flushContent, hthoughts]
    rw [hflush, hflush]
  | some parser =>
    simp only [flushContent, hthoughts]
    obtain ⟨pending, thought⟩ := parser
    cases thought <;> rfl

end ChatCompletionsTurnAssembler

/-! ## A response -/

namespace TurnAssembly

variable {codec : WireCodec} {a a' : TurnAssembly} {calls : List SinkEvent}

/-- The text so far. -/
def text (a : TurnAssembly) : List Char :=
  match a.mode with
  | .chatCompletions => a.chat.text.emitted
  | .responses => a.responses.state.text

/-- The tool calls so far. -/
def tools (a : TurnAssembly) : ToolCallAssembler :=
  match a.mode with
  | .chatCompletions => a.chat.tools
  | .responses => a.responses.state.tools

/-- The text grows by what goes to the sink, the tool calls by deltas; a value of the Responses API leaves the
assembler of Chat Completions. -/
structure Grows (a a' : TurnAssembly) (calls : List SinkEvent) : Prop where
  text : a'.text = a.text ++ textOf calls
  tools : a.tools.Reaches a'.tools
  mode : a'.mode = a.mode
  chat : a.mode = .responses → a'.chat = a.chat
  items : a.responses.state.KeepsItems → a'.responses.state.KeepsItems

theorem applyValue_grows {value : Value} (h : a.applyValue codec value = (.ok a', calls)) : a.Grows a' calls := by
  unfold applyValue at h
  cases hmode : a.mode with
  | chatCompletions =>
    simp only [hmode, Sunk.ok, Sunk.andThen, List.append_nil] at h
    cases h
    have hgrows := a.chat.applyValue_grows value
    refine ⟨?_, ?_, hmode.symm, fun h => OpenAiApiMode.noConfusion (hmode.symm.trans h), id⟩
    · simp only [text, hmode]
      exact hgrows.text
    · simp only [tools, hmode]
      exact hgrows.tools
  | responses =>
    simp only [hmode] at h
    cases hvalue : a.responses.applyValue codec value with
    | mk x delivered =>
      rw [hvalue] at h
      cases x with
      | error e => cases h
      | ok responses =>
        rw [Sunk.attempt_ok, List.append_nil] at h
        cases h
        rw [ResponsesTurnAssembler.applyValue] at hvalue
        cases hstate : a.responses.state.applyValue codec a.responses.allowCumulativeDelta value with
        | mk y delivered' =>
          rw [hstate] at hvalue
          cases y with
          | error e => cases hvalue
          | ok state =>
            rw [Sunk.attempt_ok, List.append_nil] at hvalue
            cases hvalue
            obtain ⟨htext, htools, hitems⟩ := ResponsesTurnState.applyValue_grows hstate
            refine ⟨?_, ?_, hmode.symm, fun _ => rfl, hitems⟩
            · simp only [text, hmode]
              exact htext
            · simp only [tools, hmode]
              exact htools

/-- **Values add to the text what goes to the sink, and to the tool calls deltas.** -/
theorem applyValues_grows {values : List Value} (h : a.applyValues codec values = (.ok a', calls)) :
    a.Grows a' calls := by
  induction values generalizing a calls with
  | nil =>
    cases h
    exact ⟨(List.append_nil _).symm, .refl, rfl, fun _ => rfl, id⟩
  | cons value values ih =>
    rw [applyValues] at h
    cases hvalue : a.applyValue codec value with
    | mk x delivered =>
      rw [hvalue] at h
      cases x with
      | error e => cases h
      | ok a₁ =>
        have hfirst := applyValue_grows hvalue
        cases hrest : a₁.applyValues codec values with
        | mk y delivered' =>
          rw [Sunk.attempt_ok, hrest] at h
          cases h
          have hlater := ih hrest
          refine ⟨?_, hfirst.tools.trans hlater.tools, hlater.mode.trans hfirst.mode, fun h => ?_,
            hlater.items ∘ hfirst.items⟩
          · rw [hlater.text, hfirst.text, textOf_append, List.append_assoc]
          · exact (hlater.chat (hfirst.mode.trans h)).trans (hfirst.chat h)

/-- The turn has the calls that have a name, and all of them are complete. -/
theorem close_toolCalls {turn : ModelTurn} (h : a.close codec = (.ok turn, calls)) :
    turn.toolCalls = ChatCompletionsTurnAssembler.finishedToolCalls codec a.tools ∧
      a.tools.validate codec = .ok () := by
  rw [close_eq] at h
  simp only [Prod.mk.injEq] at h
  obtain ⟨hturn, -⟩ := h
  obtain ⟨finished, hfinished, hvalid⟩ := except_bind_ok hturn
  rw [validated_ok hvalid]
  cases hmode : a.mode with
  | chatCompletions =>
    simp only [TurnAssembly.finished, hmode] at hfinished
    obtain ⟨-, hvalidate, -, rfl⟩ := ChatCompletionsTurnAssembler.finishChecked_ok_iff.1 hfinished
    have htools : a.chat.flushContent.1.tools = a.chat.tools := by
      unfold ChatCompletionsTurnAssembler.flushContent
      split <;> rfl
    rw [ChatCompletionsTurnAssembler.finish, ChatCompletionsTurnAssembler.flushContent_again,
      ChatCompletionsTurnAssembler.turn]
    simp only [tools, hmode]
    rw [← htools]
    exact ⟨rfl, hvalidate⟩
  | responses =>
    simp only [TurnAssembly.finished, hmode] at hfinished
    obtain ⟨-, hvalidate, rfl⟩ := ResponsesTurnState.finishChecked_ok_iff.1 hfinished
    simp only [tools, hmode]
    exact ⟨rfl, hvalidate⟩

/-- The turn has all of the text, with what is flushed at the end. -/
theorem close_text {turn : ModelTurn} (ha : a.mode = .responses → textOf a.chat.flushContent.2 = [])
    (h : a.close codec = (.ok turn, calls)) : turn.text = String.ofList (a.text ++ textOf calls) := by
  rw [close_eq] at h
  simp only [Prod.mk.injEq] at h
  obtain ⟨hturn, rfl⟩ := h
  obtain ⟨finished, hfinished, hvalid⟩ := except_bind_ok hturn
  rw [validated_ok hvalid]
  cases hmode : a.mode with
  | chatCompletions =>
    simp only [TurnAssembly.finished, hmode] at hfinished
    rw [(ChatCompletionsTurnAssembler.finishChecked_ok_iff.1 hfinished).2.2.2, ChatCompletionsTurnAssembler.finish,
      ChatCompletionsTurnAssembler.flushContent_again]
    simp only [ChatCompletionsTurnAssembler.turn, text, hmode]
    rw [a.chat.flushContent_grows.text]
  | responses =>
    simp only [TurnAssembly.finished, hmode] at hfinished
    rw [ha hmode, List.append_nil]
    simp only [text, hmode]
    rw [(ResponsesTurnState.finishChecked_ok_iff.1 hfinished).2.2]
    rfl

end TurnAssembly

end Aifluxon
