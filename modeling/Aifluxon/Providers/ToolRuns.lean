import Aifluxon.Providers.Verdicts
import Aifluxon.Providers.ChatMessages

/-!
# What a response does to its tool calls

* `ToolStep` : a delta, an item of a snapshot, or the Gemini contract;
* `ToolCallAssembler.run` : steps, one after the other;
* `chatToolSteps`, `responsesToolSteps` : the steps of a value;
* `TurnAssembly.applyValue_tools`, `.applyEvents_tools` : a value and a run of events do their steps.
-/

namespace Aifluxon

/-! ## Steps -/

/-- What is done to the tool calls: a delta of its event, the function call at a place of a snapshot, or the Gemini
contract that is found on the way. -/
inductive ToolStep where
  | delta (delta : Value) (fallbackPosition : Nat) (snapshot : Bool)
  | item (position : Nat) (item : Value)
  | gemini

namespace ToolCallAssembler

def step (a : ToolCallAssembler) : ToolStep → ToolCallAssembler
  | .delta delta fallbackPosition snapshot => a.applyChatDelta delta fallbackPosition snapshot
  | .item position item => a.applyChatDelta (ResponsesTurnState.functionCallDelta position item) position true
  | .gemini => a.useGeminiContract

def run (a : ToolCallAssembler) (steps : List ToolStep) : ToolCallAssembler := steps.foldl step a

variable (a : ToolCallAssembler)

@[simp] theorem run_nil : a.run [] = a := rfl

@[simp] theorem run_cons (step : ToolStep) (steps : List ToolStep) : a.run (step :: steps) = (a.step step).run steps := rfl

@[simp] theorem run_append (xs ys : List ToolStep) : a.run (xs ++ ys) = (a.run xs).run ys := List.foldl_append

end ToolCallAssembler

/-! ## The steps of a value -/

/-- The steps of a value of Chat Completions. -/
def chatToolSteps (value : Value) : List ToolStep :=
  let piece := value.chatPiece
  (if piece.extra.any announces then [.gemini] else []) ++
    ((if piece.toolCalls.any hasGoogleExtra then [.gemini] else []) ++
      piece.toolCalls.zipIdx.map fun call => .delta call.1 call.2 piece.snapshot)

def outputIndex (value : Value) : Option Nat := (value.get "output_index").bind Value.asU64

theorem outputIndex_le {value : Value} {i : Nat} (h : outputIndex value = some i) : (i : Int) ≤ u64Max := by
  obtain ⟨x, -, hx⟩ := Option.bind_eq_some_iff.1 h
  unfold Value.asU64 at hx
  split at hx
  · split at hx
    · rename_i hbounds
      cases hx
      omega
    · cases hx
  · cases hx

/-- The step of an item, if it is a function call. -/
def functionCallStep (item : Value) (step : ToolStep) : List ToolStep :=
  if eventType item = some "function_call" then [step] else []

/-- The steps of the items of a snapshot. -/
def snapshotToolSteps (response : Value) : List ToolStep :=
  (((response.get "output").bind Value.asArray).getD []).zipIdx.flatMap fun item =>
    functionCallStep item.1 (.item item.2 item.1)

/-- The steps of an event of the Responses API, by its type. -/
def responsesToolSteps (value : Value) : List ToolStep :=
  match eventType value with
  | some "response.reasoning_summary_part.added" | some "response.reasoning_summary_text.delta"
  | some "response.reasoning_summary_text.done" | some "response.reasoning_text.delta"
  | some "response.reasoning_text.done" | some "response.output_text.delta" | some "response.refusal.delta"
  | some "response.output_text.done" | some "response.refusal.done" => []
  | some "response.output_item.added" => match outputIndex value, value.get "item" with
    | some index, some item =>
      functionCallStep item (.delta (ResponsesTurnState.functionCallDelta index item) index false)
    | _, _ => []
  | some "response.function_call_arguments.delta" => match outputIndex value, value.getStr "delta" with
    | some index, some delta => [.delta (ResponsesTurnState.argumentsDelta index delta) index false]
    | _, _ => []
  | some "response.function_call_arguments.done" => match outputIndex value, value.getStr "arguments" with
    | some index, some arguments => [.delta (ResponsesTurnState.argumentsDelta index arguments) index true]
    | _, _ => []
  | some "response.output_item.done" => match outputIndex value, value.get "item" with
    | some index, some item =>
      functionCallStep item (.delta (ResponsesTurnState.functionCallDelta index item) index true)
    | _, _ => []
  | _ => match terminalSnapshot value with
    | some response => snapshotToolSteps response
    | none => []

/-! ## Responses -/

namespace ResponsesTurnState

variable {codec : WireCodec} {s s' : ResponsesTurnState} {calls : List SinkEvent} {value : Value} {allow : Bool}

theorem emit_tools (kind : PartKind) (delta : Option (List Char)) : (s.emit kind delta).1.tools = s.tools := by
  cases kind <;> rfl

theorem setPart_tools (kind : PartKind) (key : String) (part : TextDeltaReconciler) :
    (s.setPart kind key part).tools = s.tools := by
  cases kind <;> rfl

theorem pushPart_tools (kind : PartKind) (allow : Bool) (value : Value) (delta : List Char) :
    (s.pushPart kind allow value delta).1.tools = s.tools := by
  rw [pushPart, emit_tools, setPart_tools]

theorem completePart_tools {kind : PartKind} {text : List Char}
    (h : s.completePart kind value text = (.ok s', calls)) : s'.tools = s.tools := by
  simp only [completePart] at h
  split at h
  · cases h
  · cases h
    rw [emit_tools, setPart_tools]

theorem applyFunctionCallItem_tools (index : Nat) (item : Value) (snapshot : Bool) :
    (s.applyFunctionCallItem index item snapshot).tools =
      s.tools.run (functionCallStep item (.delta (functionCallDelta index item) index snapshot)) := by
  unfold applyFunctionCallItem functionCallStep
  split <;> rfl

theorem applyItem_tools (index : Nat) (item : Value) : (s.applyItem codec index item).tools =
    s.tools.run (functionCallStep item (.delta (functionCallDelta index item) index true)) := by
  unfold applyItem
  rw [applyFunctionCallItem_tools]
  unfold upsertItem
  split <;> rfl

theorem mergeSnapshotItems_tools (response : Value) :
    (s.mergeSnapshotItems codec response).tools = s.tools.run (snapshotToolSteps response) := by
  rw [mergeSnapshotItems, snapshotToolSteps]
  generalize List.zipIdx _ = items
  induction items generalizing s with
  | nil => rfl
  | cons item items ih =>
    have hitem (tools : ToolCallAssembler) :
        tools.run (functionCallStep item.1 (.delta (functionCallDelta item.2 item.1) item.2 true)) =
          tools.run (functionCallStep item.1 (.item item.2 item.1)) := by
      unfold functionCallStep
      split <;> rfl
    rw [List.foldl_cons, ih, applyItem_tools, List.flatMap_cons, ToolCallAssembler.run_append, hitem]

theorem applyTerminalSnapshot_tools {response : Value}
    (h : s.applyTerminalSnapshot codec response = (.ok s', calls)) :
    s'.tools = s.tools.run (snapshotToolSteps response) := by
  simp only [applyTerminalSnapshot] at h
  split at h
  · cases h
  · cases h
    simp only [Sunk.andThen]
    rw [mergeSnapshotItems_tools, emit_tools]

/-- **What an event does to the tool calls by its type.** -/
theorem applyTyped_tools (h : s.applyTyped codec allow value = (.ok s', calls)) :
    s'.tools = s.tools.run (responsesToolSteps value) := by
  unfold applyTyped at h
  unfold responsesToolSteps outputIndex
  simp only at h
  split at h <;> try simp only [*]
  · split at h <;> cases h
    · rfl
    · exact pushPart_tools _ _ _ _
  · split at h <;> cases h
    · exact pushPart_tools _ _ _ _
    · rfl
  · split at h
    · exact completePart_tools h
    · cases h; rfl
  · split at h <;> cases h
    · exact pushPart_tools _ _ _ _
    · rfl
  · split at h
    · exact completePart_tools h
    · cases h; rfl
  · split at h <;> cases h
    · exact pushPart_tools _ _ _ _
    · rfl
  · split at h <;> cases h
    · exact pushPart_tools _ _ _ _
    · rfl
  · split at h
    · exact completePart_tools (s := { s with sawOutputDone := true }) h
    · cases h; rfl
  · split at h
    · exact completePart_tools (s := { s with sawOutputDone := true }) h
    · cases h; rfl
  · split at h <;> cases h <;> try simp only [*]
    · exact applyFunctionCallItem_tools _ _ _
    · rfl
  · split at h <;> cases h <;> try simp only [*]
    · rfl
    · rfl
  · split at h <;> cases h <;> try simp only [*]
    · rfl
    · rfl
  · split at h <;> cases h <;> try simp only [*]
    · exact applyItem_tools _ _
    · rfl
  · split at h <;> try simp only [*]
    · exact applyTerminalSnapshot_tools h
    · cases h; rfl

theorem applyValue_tools (h : s.applyValue codec allow value = (.ok s', calls)) :
    s'.tools = s.tools.run (if s.heeds codec value then responsesToolSteps value else []) := by
  rcases applyValue_cases h with ⟨hlooks, rfl, -⟩ | ⟨-, haccept, -⟩ | ⟨s₁, calls', hlooks, haccept, htyped, -⟩
  · rw [if_neg (by rw [heeds, hlooks, Bool.false_and]; decide)]
    rfl
  · obtain ⟨lastSequenceNumber, seenEventKeys, rfl⟩ := acceptEvent_frame haccept
    rw [if_neg (by simp only [heeds, haccept, Bool.and_false]; decide)]
    rfl
  · obtain ⟨lastSequenceNumber, seenEventKeys, haccepted⟩ := acceptEvent_frame haccept
    obtain ⟨usage, endTurn, incompleteReason, hheeded⟩ := heeded_frame (s := s₁) value
    rw [if_pos (by simp only [heeds, hlooks, haccept, Bool.and_self]), applyTyped_tools htyped, hheeded, haccepted]

end ResponsesTurnState

/-! ## Chat Completions -/

namespace ChatCompletionsTurnAssembler

variable (a : ChatCompletionsTurnAssembler)

theorem emitContent_tools (visible reasoning : List Char) (snapshot : Bool) :
    (a.emitContent visible reasoning snapshot).1.tools = a.tools := rfl

theorem applyReasoning_tools (reasoning : Option (List Char)) (snapshot : Bool) :
    (a.applyReasoning reasoning snapshot).1.tools = a.tools := by
  cases reasoning <;> rfl

theorem applyContent_tools (content : Option (List Char)) (thought : Option Bool) (snapshot : Bool) :
    (a.applyContent content thought snapshot).1.tools = a.tools := by
  cases content with
  | none => rfl
  | some content =>
    unfold applyContent
    simp only
    split
    · exact emitContent_tools a _ _ _
    · exact emitContent_tools _ _ _ _

theorem applyExtra_tools (extra : Option Value) : (a.applyExtra extra).tools =
    a.tools.run (if extra.any announces then [.gemini] else []) := by
  cases extra with
  | none => rfl
  | some extra =>
    unfold applyExtra
    by_cases h : announces extra = true
    · rw [if_pos (show (some extra).any announces = true from h)]
      simp only [if_pos (show (extra.get "google").isSome = true from h)]
      rfl
    · rw [if_neg (show ¬ (some extra).any announces = true from h)]
      simp only [if_neg (show ¬ (extra.get "google").isSome = true from h)]
      rfl

theorem applyToolCalls_tools (calls : List Value) (snapshot : Bool) : (a.applyToolCalls calls snapshot).tools =
    a.tools.run ((if calls.any hasGoogleExtra then [.gemini] else []) ++
      calls.zipIdx.map fun call => .delta call.1 call.2 snapshot) := by
  have hdeltas (tools : ToolCallAssembler) (calls : List (Value × Nat)) :
      calls.foldl (fun tools call => tools.applyChatDelta call.1 call.2 snapshot) tools =
        tools.run (calls.map fun call => .delta call.1 call.2 snapshot) := by
    induction calls generalizing tools with
    | nil => rfl
    | cons call calls ih => exact ih _
  unfold applyToolCalls
  simp only [hdeltas, ToolCallAssembler.run_append]
  split <;> rfl

/-- **What a value does to the tool calls.** -/
theorem applyValue_tools (value : Value) : (a.applyValue value).1.tools = a.tools.run (chatToolSteps value) := by
  have husage (usage : Option Value) (reason : Option String) :
      ((a.applyUsage usage).1.applyFinishReason reason).tools = a.tools := by
    cases usage <;> rfl
  rw [applyValue_piece, chatToolSteps]
  simp only [applyPiece, applyToolCalls_tools, applyContent_tools, applyReasoning_tools, applyExtra_tools, husage,
    ToolCallAssembler.run_append]

end ChatCompletionsTurnAssembler

/-! ## Values and events -/

namespace TurnAssembly

variable {codec : WireCodec} {a a' : TurnAssembly}

/-- The steps of a value. -/
def toolSteps (codec : WireCodec) (a : TurnAssembly) (value : Value) : List ToolStep :=
  match a.mode with
  | .chatCompletions => chatToolSteps value
  | .responses => if a.responses.state.heeds codec value then responsesToolSteps value else []

/-- The steps of an event. -/
def eventToolSteps (codec : WireCodec) (a : TurnAssembly) (event : SseEvent) : List ToolStep :=
  match carried codec event with
  | none => []
  | some value => a.toolSteps codec value

/-- The steps of a run of events: those of each event that is taken. -/
def eventsToolSteps (codec : WireCodec) (a : TurnAssembly) : List SseEvent → List (List ToolStep)
  | [] => []
  | event :: events =>
    if a.complete then []
    else match (a.applyEvent codec event).1 with
      | .ok a' => a.eventToolSteps codec event :: eventsToolSteps codec a' events
      | .error _ => []

/-- **A value does its steps.** -/
theorem applyValue_tools {value : Value} (h : (a.applyValue codec value).1 = .ok a') :
    a'.tools = a.tools.run (a.toolSteps codec value) := by
  unfold applyValue at h
  unfold toolSteps tools
  cases hmode : a.mode with
  | chatCompletions =>
    simp only [hmode, Sunk.ok, Sunk.andThen] at h ⊢
    cases h
    exact ChatCompletionsTurnAssembler.applyValue_tools _ _
  | responses =>
    simp only [hmode] at h ⊢
    obtain ⟨responses, hresponses, h⟩ := Sunk.attempt_eq_ok h
    cases h
    rw [ResponsesTurnAssembler.applyValue] at hresponses
    obtain ⟨state, hstate, hresponses⟩ := Sunk.attempt_eq_ok hresponses
    cases hresponses
    exact ResponsesTurnState.applyValue_tools (Prod.ext hstate rfl)

/-- An event does its steps. -/
theorem applyEvent_tools {event : SseEvent} (h : (a.applyEvent codec event).1 = .ok a') :
    a'.tools = a.tools.run (a.eventToolSteps codec event) := by
  unfold eventToolSteps
  cases hcarried : carried codec event with
  | none =>
    unfold carried at hcarried
    unfold applyEvent at h
    split at h
    · cases h
      rfl
    rename_i hdone
    split at h
    · cases h
      rfl
    rename_i hblank
    rw [if_neg (not_or.2 ⟨hdone, hblank⟩)] at hcarried
    rw [hcarried] at h
    cases h
  | some value =>
    rw [applyEvent_carried hcarried, applyEventValue] at h
    split at h
    · cases h
    · obtain ⟨a₁, ha₁, h⟩ := Sunk.attempt_eq_ok h
      rw [← applyValue_tools ha₁]
      split at h <;> (cases h; rfl)

/-- **A run of events does its steps.** -/
theorem applyEvents_tools {events : List SseEvent} (h : (a.applyEvents codec events).1 = .ok a') :
    a'.tools = a.tools.run (a.eventsToolSteps codec events).flatten := by
  induction events generalizing a with
  | nil =>
    cases h
    rfl
  | cons event events ih =>
    rw [applyEvents] at h
    rw [eventsToolSteps]
    split at h
    · rename_i hcomplete
      cases h
      rw [if_pos hcomplete]
      rfl
    · rename_i hcomplete
      obtain ⟨a₁, ha₁, h⟩ := Sunk.attempt_eq_ok h
      simp only [if_neg hcomplete, ha₁, List.flatten_cons, ToolCallAssembler.run_append, ← applyEvent_tools ha₁]
      exact ih h

/-- The steps of events begin those of more events. -/
theorem eventsToolSteps_append (xs ys : List SseEvent) :
    a.eventsToolSteps codec xs <+: a.eventsToolSteps codec (xs ++ ys) := by
  induction xs generalizing a with
  | nil => exact List.nil_prefix
  | cons event xs ih =>
    rw [List.cons_append, eventsToolSteps, eventsToolSteps]
    split
    · exact List.prefix_refl _
    · split
      · exact (List.prefix_append_right_inj [_]).2 ih
      · exact List.prefix_refl _

end TurnAssembly

end Aifluxon
