import Aifluxon.Providers.ToolIdentity
import Aifluxon.Providers.ToolPairs

/-!
# The messages of a provider's turn

What of a turn of the provider goes into the next request.

* `SavedTurn` : the opaque value of a turn replays reasoning and searches only;
* `ProviderTurn`, `nextTurn_providerTurn` : every turn of the provider has such a value, and identified calls;
* `ProviderTurn.message`, `ProviderTurn.batch` : its messages are paired.
-/

namespace Aifluxon

open Mark (Paired)

/-! ## Saved turns -/

/-- The items that an opaque value replays beside the text and the calls of its turn. -/
def savedItems (opaqueValue : Value) : Option (List Value) :=
  ((nonemptyArray (opaqueValue.get "response_items")).or (nonemptyArray (opaqueValue.get "responses_replay_items"))).or
    (nonemptyArray (opaqueValue.get "responses_reasoning_items"))

/-- An opaque value that replays no whole turn, and no item but those that are kept. -/
structure SavedTurn (opaqueValue : Value) : Prop where
  isObject : opaqueValue.isObject = true
  partly : opaqueValue.get "responses_turn_items" = none
  items : ∀ items, savedItems opaqueValue = some items → ∀ item ∈ items, KeptItem item

/-- Under other keys an entry does not matter. -/
theorem SavedTurn.insert {entries : List (String × Value)} (h : SavedTurn (.object entries)) {key : String}
    (hkey : key ∉ ["responses_turn_items", "response_items", "responses_replay_items", "responses_reasoning_items"])
    (value : Value) : SavedTurn (.object (insertEntry key value entries)) := by
  simp only [List.mem_cons, List.not_mem_nil, or_false, not_or] at hkey
  have hget (k : String) (hk : k ≠ key) :
      (Value.object (insertEntry key value entries)).get k = (Value.object entries).get k :=
    lookup_insertEntry_ne hk value entries
  refine ⟨rfl, (hget _ (Ne.symm hkey.1)).trans h.partly, fun items hitems => h.items items ?_⟩
  rw [← hitems, savedItems, savedItems, hget _ (Ne.symm hkey.2.1), hget _ (Ne.symm hkey.2.2.1),
    hget _ (Ne.symm hkey.2.2.2)]

theorem SavedTurn.withEntry {entries : List (String × Value)} (h : SavedTurn (.object entries)) {key : String}
    (hkey : key ∉ ["responses_turn_items", "response_items", "responses_replay_items", "responses_reasoning_items"])
    (value : Option Value) : SavedTurn (.object (ChatCompletionsTurnAssembler.withEntry key value entries)) := by
  cases value with
  | none => exact h
  | some value => exact h.insert hkey value

theorem chat_savedTurn (a : ChatCompletionsTurnAssembler) : SavedTurn (.object a.opaqueEntries) := by
  have hbase : SavedTurn (.object [("finish_reason", jsonOption a.finishReason),
      ("protocol", .string "chat_completions")]) := by
    refine ⟨rfl, by simp [Value.get, List.lookup_cons], fun items hitems => ?_⟩
    simp [savedItems, Value.get, List.lookup_cons, nonemptyArray] at hitems
  exact ((hbase.withEntry (by decide) _).withEntry (by decide) _).withEntry (by decide) _

theorem responses_savedTurn {s : ResponsesTurnState} (h : s.KeepsItems) : SavedTurn s.opaqueValue := by
  have hentries : s.opaqueValue.get "response_items" = some (.array s.replay.items) ∧
      s.opaqueValue.get "responses_turn_items" = none ∧ s.opaqueValue.get "responses_replay_items" = none ∧
      s.opaqueValue.get "responses_reasoning_items" = none := by
    simp only [ResponsesTurnState.opaqueValue, Value.get]
    simp [List.lookup_cons]
  obtain ⟨hkept, hwhole, hreplay, hreasoning⟩ := hentries
  refine ⟨rfl, hwhole, fun items hitems item hitem => ?_⟩
  rw [savedItems, hkept, hreplay, hreasoning] at hitems
  have hitems : nonemptyArray (some (.array s.replay.items)) = some items := by
    simpa only [nonemptyArray, Option.bind_none, Option.filter_none, Option.or_none] using hitems
  obtain ⟨hitems, -⟩ := Option.filter_eq_some_iff.1 hitems
  cases hitems
  exact h item hitem

/-- The opaque value of a turn that a response closes with. -/
theorem TurnAssembly.close_savedTurn {codec : WireCodec} {a : TurnAssembly} {turn : ModelTurn} {calls : List SinkEvent}
    (ha : a.responses.state.KeepsItems) (h : a.close codec = (.ok turn, calls)) :
    SavedTurn turn.opaqueValue ∧ (turn.toolCalls ≠ [] → turn.terminal = .toolCalls) := by
  rw [close_eq] at h
  simp only [Prod.mk.injEq] at h
  obtain ⟨hturn, -⟩ := h
  obtain ⟨finished, hfinished, hvalid⟩ := except_bind_ok hturn
  rw [validated_ok hvalid]
  cases hmode : a.mode with
  | chatCompletions =>
    simp only [TurnAssembly.finished, hmode] at hfinished
    rw [(ChatCompletionsTurnAssembler.finishChecked_ok_iff.1 hfinished).2.2.2]
    exact ⟨chat_savedTurn _, fun hcalls => if_pos (.inl hcalls)⟩
  | responses =>
    simp only [TurnAssembly.finished, hmode] at hfinished
    rw [(ResponsesTurnState.finishChecked_ok_iff.1 hfinished).2.2]
    exact ⟨responses_savedTurn ha, fun hcalls => if_neg hcalls⟩

/-! ## Turns of the provider -/

/-- What the next request relies on in a turn. -/
structure ProviderTurn (turn : ModelTurn) : Prop where
  saved : SavedTurn turn.opaqueValue
  terminal : turn.toolCalls ≠ [] ↔ turn.terminal = .toolCalls
  identified : ∀ call ∈ turn.toolCalls, call.wireId = some call.wireCallId

theorem IdentifiedCall.wireId {call : ToolCall} {id : String} (h : IdentifiedCall call id) :
    call.wireId = some call.wireCallId := by
  have hid : call.wireId = some (trim id) := by
    rw [ToolCall.wireId, h.providerCallId, Option.map_some, Option.filter_some, if_pos (by simpa using h.id)]
  rw [ToolCall.wireCallId, hid, Option.getD_some]

/-- A summary leaves the turn but for its text, or goes into the opaque value. -/
theorem applySummary_cases (turn : ModelTurn) : ∃ text, applySummaryToTurn turn = { turn with text } ∨
    ∃ summary, applySummaryToTurn turn = { turn with
      opaqueValue := match turn.opaqueValue with
        | .object entries => .object (insertEntry "hidden_context" (.string summary) entries)
        | _ => .object [("hidden_context", .string summary)]
      terminal := if trim text = "" ∧ turn.toolCalls = [] then .continue .summaryOnly else turn.terminal
      text } := by
  unfold applySummaryToTurn
  generalize (SummaryFilter.new true).pushDelta turn.text.toList = pushed
  obtain ⟨filter, delta⟩ := pushed
  dsimp only
  generalize filter.finish = finished
  obtain ⟨filter, tail⟩ := finished
  dsimp only
  split
  · exact ⟨_, .inl rfl⟩
  · exact ⟨_, .inr ⟨_, rfl⟩⟩

theorem applyToTurn_saved {turn : ModelTurn} (family : ApiFamily)
    (h : SavedTurn turn.opaqueValue ∧ (turn.toolCalls ≠ [] → turn.terminal = .toolCalls)) :
    SavedTurn (family.applyToTurn turn).opaqueValue ∧
      ((family.applyToTurn turn).toolCalls ≠ [] → (family.applyToTurn turn).terminal = .toolCalls) := by
  cases family with
  | qwen =>
    rw [ApiFamily.applyToTurn]
    obtain ⟨text, heq | ⟨summary, heq⟩⟩ := applySummary_cases turn
    · rw [heq]
      exact h
    · rw [heq]
      refine ⟨?_, fun hcalls => ?_⟩
      · cases hvalue : turn.opaqueValue with
        | object entries => exact (hvalue ▸ h.1).insert (by decide) _
        | _ => exact absurd h.1.isObject (by simp [hvalue, Value.isObject])
      · dsimp only at hcalls ⊢
        rw [if_neg fun hnil => hcalls hnil.2]
        exact h.2 hcalls
  | kimi =>
    obtain ⟨text, reasoning, heq⟩ : ∃ text reasoning, applyThinkTagsToTurn turn = { turn with text, reasoning } :=
      ⟨_, _, rfl⟩
    rw [ApiFamily.applyToTurn, heq]
    exact h
  | _ => exact h

theorem applyTurnContinuation_saved {turn : ModelTurn} {promised : String → Bool} {family : ApiFamily}
    {toolsEnabled : Bool} (h : SavedTurn turn.opaqueValue ∧ (turn.toolCalls ≠ [] → turn.terminal = .toolCalls)) :
    SavedTurn (applyTurnContinuation promised family toolsEnabled turn).opaqueValue ∧
      ((applyTurnContinuation promised family toolsEnabled turn).toolCalls ≠ [] →
        (applyTurnContinuation promised family toolsEnabled turn).terminal = .toolCalls) := by
  unfold applyTurnContinuation
  split
  · exact h
  rename_i hnone
  have hcalls : turn.toolCalls = [] := by_contra fun hne => hnone (.inl hne)
  split
  · exact h
  split
  · exact ⟨h.1, fun hne => absurd hcalls hne⟩
  split
  · exact ⟨h.1, fun hne => absurd hcalls hne⟩
  · exact h

/-- **Every turn of the provider** replays no call, and gives its calls their identifiers. -/
theorem nextTurn_providerTurn {c : ProviderCalls} {config : ProviderConfig} {request : ModelTurnRequest}
    {replies : Nat → AttemptReplies} {turn : ModelTurn} (h : (nextTurn c config request replies).1 = .ok turn) :
    ProviderTurn turn := by
  obtain ⟨response, calls, -, hreturned, -⟩ := nextTurn_returned h
  obtain ⟨ids, hids, -⟩ := hreturned.valid.identified
  obtain ⟨family, toolsEnabled, hfamily, hturn⟩ := hreturned.made
  obtain ⟨decoded, hdecoded, rfl⟩ := familyTurn_decoded hfamily
  have hdecode := decodeResponse_ok hdecoded
  rw [hdecode] at hdecoded
  obtain ⟨values, -, hrun⟩ := values_of_ok hdecoded
  rw [hrun] at hdecoded
  obtain ⟨a, ha, hclose⟩ := Sunk.attempt_eq_ok hdecoded
  have hkeeps : a.responses.state.KeepsItems := by
    refine (TurnAssembly.applyValues_grows (Prod.ext ha rfl)).items fun item hitem => ?_
    cases hitem
  have hsaved := TurnAssembly.close_savedTurn hkeeps (Prod.ext hclose rfl)
  obtain ⟨hvalue, hcalls⟩ := hturn ▸ applyTurnContinuation_saved (applyToTurn_saved config.family hsaved)
  refine ⟨hvalue, ⟨hcalls, hreturned.valid.toolCalls⟩, fun call hcall => ?_⟩
  obtain ⟨id, hid⟩ := identified_mem hids call hcall
  exact hid.wireId

/-! ## Their messages -/

section Messages
variable {codec : WireCodec} {turn : ModelTurn}

theorem assistantMessage_state (h : SavedTurn turn.opaqueValue) :
    (assistantMessage turn).providerState = some turn.opaqueValue := by
  cases hvalue : turn.opaqueValue with
  | object entries => simp [assistantMessage, hvalue, notNull, Value.isNull]
  | _ => exact absurd h.isObject (by simp [hvalue, Value.isObject])

theorem itemMark_kept {item : Value} (h : KeptItem item) : itemMark item = .other := by
  rcases h with h | h <;>
    · rw [itemMark, show item.getStr "type" = _ from h]
      rfl

theorem kept_of_partial {item : Value} (h : isPartialReplayItem item = true) : KeptItem item := by
  unfold isPartialReplayItem at h
  split at h
  · exact .inl ‹_›
  · exact .inr ‹_›
  · cases h

/-- The items that the message of a turn replays are none of its calls. -/
theorem SavedTurn.replay (h : SavedTurn turn.opaqueValue) :
    (replayItemsFromMessage codec (assistantMessage turn)).2 = false ∧
      Paired (replayMarks codec (assistantMessage turn)) := by
  have hstate := assistantMessage_state h
  have hwhole : (nonemptyArray (assistantMessage turn).providerState).or
      (nonemptyArray ((assistantMessage turn).stateField "responses_turn_items")) = none := by
    have harray : turn.opaqueValue.asArray = none := by
      cases hvalue : turn.opaqueValue with
      | array items => exact absurd h.isObject (by simp [hvalue, Value.isObject])
      | _ => rfl
    rw [Message.stateField, hstate, Option.bind_some, h.partly, nonemptyArray, Option.bind_some, harray]
    rfl
  have hkept {items : List Value} (hitems : ∀ item ∈ items, KeptItem item) : Paired (items.map itemMark) := by
    refine Mark.paired_of_others fun mark hmark => ?_
    obtain ⟨item, hitem, rfl⟩ := List.mem_map.1 hmark
    exact itemMark_kept (hitems item hitem)
  rw [replayMarks, replayItemsFromMessage, hwhole]
  simp only [Message.stateField, hstate, Option.bind_some]
  split
  · rename_i items hitems
    exact ⟨rfl, hkept (h.items items hitems)⟩
  · refine ⟨rfl, hkept fun item hitem => ?_⟩
    cases houtput : nonemptyArray (turn.opaqueValue.get "terminal_output") with
    | none =>
      rw [houtput] at hitem
      cases hitem
    | some output =>
      rw [houtput] at hitem
      exact kept_of_partial (List.mem_filter.1 hitem).2

/-- The message of a turn without calls. -/
theorem ProviderTurn.message (h : ProviderTurn turn) (hcalls : turn.toolCalls = []) :
    PairedMessages codec [assistantMessage turn] :=
  .plain nofun hcalls h.saved.replay.2 .nil

/-- The message of a call's result answers the call. -/
theorem toolMessage_answers {serde : Serde} {calls : List ToolCall} {call : ToolCall} {result : ToolResult}
    (h : call.wireId = some call.wireCallId) : Answers calls call (toolMessage serde call result) := by
  refine ⟨rfl, rfl, .inl ?_⟩
  obtain ⟨hmap, hne⟩ := Option.filter_eq_some_iff.1 h
  obtain ⟨id, -, hid⟩ := Option.map_eq_some_iff.1 hmap
  simp only [Message.namedCallId, Message.stateField, toolMessage, h, Option.map_some, Option.bind_some, Value.get,
    List.lookup_cons, beq_self_eq_true, Value.asStr]
  rw [← hid, trim_trim, hid, Option.filter_some, if_pos hne]

/-- **The messages of a batch**: the turn, and a result for each of its calls. -/
theorem ProviderTurn.batch (h : ProviderTurn turn) (hcalls : turn.toolCalls ≠ []) {messages : List Message}
    (hanswers : List.Forall₂ (fun call m => ∃ serde result, m = toolMessage serde call result) turn.toolCalls messages) :
    PairedMessages codec (assistantMessage turn :: messages) := by
  have hpaired : List.Forall₂ (Answers turn.toolCalls) turn.toolCalls messages := by
    refine List.forall₂_iff_get.2 ⟨hanswers.length_eq, fun i hi hi' => ?_⟩
    obtain ⟨serde, result, hm⟩ := hanswers.get hi hi'
    rw [hm]
    exact toolMessage_answers (h.identified _ (List.get_mem ..))
  rw [← List.append_nil messages]
  exact .batch rfl hcalls h.saved.replay.2 h.saved.replay.1 hpaired .nil

/-- A message that the loop or the provider writes for the model alone. -/
theorem system_message {message : Message} (hrole : message.role = .system) (hcalls : message.toolCalls = [])
    (hstate : message.providerState = none) : PairedMessages codec [message] := by
  refine .plain (by simp [hrole]) hcalls ?_ .nil
  simp [replayMarks, replayItemsFromMessage, Message.stateField, hstate, nonemptyArray]
  exact .nil

end Messages

end Aifluxon
