import Aifluxon.Providers.StreamedText

/-!
# The tool calls of a turn

* `ToolCallAssembler.Filled` : a place without a call is empty;
* `finished_observed` : the calls of a turn are those that were observed, in their order;
* `applyTurnContinuation_toolCalls`, `applyToTurn_toolCalls` : what is done to a turn leaves its calls.
-/

namespace Aifluxon

/-! ## Observed calls -/

namespace PendingToolCall

/-- A call that a delta went to is observed. -/
@[simp] theorem applyDelta_observed (metadata snapshot : Bool) (delta : Value) (call : PendingToolCall) :
    (call.applyDelta metadata snapshot delta).observed = true := by
  have hextra (call : PendingToolCall) : (applyExtra delta call).observed = call.observed := by
    unfold applyExtra
    split <;> rfl
  have hid (replace : Bool) (call : PendingToolCall) : (applyId replace delta call).observed = call.observed := by
    unfold applyId
    split <;> rfl
  have hfunction (call : PendingToolCall) :
      (applyFunction metadata snapshot delta call).observed = call.observed := by
    unfold applyFunction
    split <;> rfl
  change (applyFunction metadata snapshot delta _).observed = true
  rw [hfunction, hid, hextra]

end PendingToolCall

namespace ToolCallAssembler

variable {codec : WireCodec} {a b : ToolCallAssembler}

/-- A place without a call is empty. -/
def Filled (a : ToolCallAssembler) : Prop := ∀ call ∈ a.calls, call.observed = false → call = .default

/-- The calls that were observed. -/
def observedCalls (a : ToolCallAssembler) : List PendingToolCall := a.calls.filter PendingToolCall.observed

theorem length_padTo (calls : List PendingToolCall) (index : Nat) : index < (padTo calls index).length := by
  rw [padTo, List.length_append, List.length_replicate]
  omega

/-- What `validate` says of a call that was observed. -/
theorem validCalls_observed {ids : List String} {calls : List PendingToolCall} (h : validCalls codec ids calls = true) :
    ∀ call ∈ calls, call.observed = true → trim call.id ≠ "" ∧ trim call.name ≠ "" := by
  induction calls generalizing ids with
  | nil => simp
  | cons call calls ih =>
    intro x hx hobserved
    rw [validCalls] at h
    split at h
    · rename_i hcall
      rcases List.mem_cons.1 hx with rfl | hx
      · exact absurd hobserved hcall
      · exact ih h x hx hobserved
    · split at h
      · cases h
      rename_i hvalid
      simp only [not_or] at hvalid
      rcases List.mem_cons.1 hx with rfl | hx
      · exact ⟨hvalid.1, hvalid.2.1⟩
      · exact ih h x hx hobserved

theorem validate_observed (h : a.validate codec = .ok ()) :
    ∀ call ∈ a.calls, call.observed = true → trim call.id ≠ "" ∧ trim call.name ≠ "" := by
  unfold validate at h
  split at h
  · rename_i hvalid
    exact validCalls_observed hvalid
  · cases h

theorem finishCall_name (call : PendingToolCall) : (finishCall codec call).name = call.name := rfl

/-- **The calls of a turn are those that were observed.** -/
theorem finished_observed (ha : a.Filled) (h : a.validate codec = .ok ()) :
    ChatCompletionsTurnAssembler.finishedToolCalls codec a = a.observedCalls.map (finishCall codec) := by
  have hkept : a.calls.filter ((fun call => decide (trim call.name ≠ "")) ∘ finishCall codec) = a.observedCalls := by
    refine List.filter_congr fun call hcall => ?_
    rw [Function.comp_apply, finishCall_name]
    cases hobserved : call.observed with
    | true => simpa using (validate_observed h call hcall hobserved).2
    | false =>
      rw [ha call hcall hobserved]
      rfl
  rw [ChatCompletionsTurnAssembler.finishedToolCalls, finish, List.filter_map, hkept]

/-- The identifier on the wire is the identifier without the blanks around it. -/
theorem finishCall_wireCallId {call : PendingToolCall} (h : trim call.id ≠ "") :
    (finishCall codec call).wireCallId = trim call.id := by
  simp [finishCall, h, ToolCall.wireCallId, ToolCall.wireId, Option.filter_some]

end ToolCallAssembler

/-! ## The calls of a turn -/

theorem applyTurnContinuation_toolCalls (promised : String → Bool) (family : ApiFamily) (toolsEnabled : Bool)
    (turn : ModelTurn) : (applyTurnContinuation promised family toolsEnabled turn).toolCalls = turn.toolCalls := by
  unfold applyTurnContinuation
  split
  · rfl
  split
  · rfl
  split
  · rfl
  split <;> rfl

theorem applyToTurn_toolCalls (family : ApiFamily) (turn : ModelTurn) :
    (family.applyToTurn turn).toolCalls = turn.toolCalls := by
  unfold ApiFamily.applyToTurn applyThinkTagsToTurn applySummaryToTurn
  split
  · rfl
  · simp only
    split <;> rfl
  · rfl

theorem identified_mem {calls : List ToolCall} {ids : List String} (h : List.Forall₂ IdentifiedCall calls ids) :
    ∀ call ∈ calls, ∃ id, IdentifiedCall call id := by
  induction h with
  | nil => simp
  | cons hcall _ ih =>
    intro call hmem
    rcases List.mem_cons.1 hmem with rfl | hmem
    · exact ⟨_, hcall⟩
    · exact ih call hmem

end Aifluxon
