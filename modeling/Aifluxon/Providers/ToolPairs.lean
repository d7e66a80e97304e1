import Aifluxon.Lib.Pairing
import Aifluxon.Providers.Bodies

/-!
# Tool calls and their outputs in a body

* `chatMarks`, `responsesMarks` : the calls and the outputs in a body, in their order;
* `Answers` : a tool message answers a call of a batch;
* `PairedMessages` : every message with tool calls is followed by the answers to them;
* `PairedMessages.chat`, `PairedMessages.responses` : such a history has paired bodies.
-/

namespace Aifluxon

open Mark (Paired)

/-! ## Marks -/

/-- The marks of a message of a Chat Completions body: the message itself, and its calls. -/
def messageMarks (wire : Value) : List (Mark String) :=
  (if wire.getStr "role" = some "tool" then .output ((wire.getStr "tool_call_id").getD "") else .other) ::
    (((wire.get "tool_calls").bind Value.asArray).getD []).map fun call => .call ((call.getStr "id").getD "")

def chatMarks (body : Value) : List (Mark String) :=
  (((body.get "messages").bind Value.asArray).getD []).flatMap messageMarks

/-- The mark of an item of a Responses body. -/
def itemMark (item : Value) : Mark String :=
  match item.getStr "type" with
  | some "function_call" | some "custom_tool_call" => .call ((item.getStr "call_id").getD "")
  | some "function_call_output" | some "custom_tool_call_output" => .output ((item.getStr "call_id").getD "")
  | _ => .other

def responsesMarks (body : Value) : List (Mark String) :=
  (((body.get "input").bind Value.asArray).getD []).map itemMark

section Marks
variable {codec : WireCodec}

theorem roleName_tool (role : MessageRole) : roleName role = "tool" ↔ role = .tool := by
  cases role <;> decide

theorem lookup_optionalEntry (key k : String) (value : Option Value) (entries : List (String × Value)) :
    (optionalEntry key value ++ entries).lookup k = if k = key then value.or (entries.lookup k) else entries.lookup k := by
  cases value with
  | none => simp [optionalEntry]
  | some value =>
    by_cases h : k = key
    · simp [optionalEntry, h]
    · have hbeq : (k == key) = false := beq_false_of_ne h
      simp [optionalEntry, List.lookup_cons, h, hbeq]

theorem lookup_optionalEntry_last (key k : String) (value : Option Value) :
    (optionalEntry key value).lookup k = if k = key then value else none := by
  simpa using lookup_optionalEntry key k value []

theorem toolCallToWire_id (message : Message) (call : ToolCall) :
    (toolCallToWire codec message call).getStr "id" = some call.wireCallId := by
  simp [toolCallToWire, Value.getStr, Value.get, lookup_optionalEntry, List.lookup_cons, Value.asStr]

theorem messageMarks_wire (message : Message) : messageMarks (messageToWire codec message) =
    (if message.role = .tool then .output ((toolMessageCallId message).getD "") else .other) ::
      message.toolCalls.map fun call => .call call.wireCallId := by
  have hrole : (messageToWire codec message).getStr "role" = some (roleName message.role) := by
    simp [messageToWire, Value.getStr, Value.get, lookup_optionalEntry, List.lookup_cons, Value.asStr]
  have hid : message.role = .tool →
      (messageToWire codec message).getStr "tool_call_id" = toolMessageCallId message := by
    intro htool
    cases hid : toolMessageCallId message <;>
      simp [messageToWire, Value.getStr, Value.get, List.lookup_cons, lookup_optionalEntry, lookup_optionalEntry_last,
        htool, hid, Value.asStr]
  have hcalls : (((messageToWire codec message).get "tool_calls").bind Value.asArray).getD [] =
      message.toolCalls.map (toolCallToWire codec message) := by
    by_cases hnil : message.toolCalls = [] <;>
      simp [messageToWire, Value.get, List.lookup_cons, lookup_optionalEntry, lookup_optionalEntry_last, hnil, Value.asArray]
  rw [messageMarks, hrole, hcalls, List.map_map]
  simp only [Option.some.injEq, roleName_tool, Function.comp_def, toolCallToWire_id, Option.getD_some]
  congr 1
  split
  · rw [hid ‹_›]
  · rfl

end Marks

/-! ## Paired histories -/

/-- A tool message answers a call of a batch: it was given its identifier on the wire, or it has none and the
identifier of the call stands for it. -/
structure Answers (calls : List ToolCall) (call : ToolCall) (message : Message) : Prop where
  role : message.role = .tool
  toolCalls : message.toolCalls = []
  callId : message.namedCallId = some call.wireCallId ∨
    message.namedCallId = none ∧ message.toolCallId = some call.id ∧
      ∀ c ∈ calls, c.id = call.id → c.wireCallId = hyphenated call.id.uuid

/-- The marks of the items that a message replays. -/
def replayMarks (codec : WireCodec) (message : Message) : List (Mark String) :=
  (replayItemsFromMessage codec message).1.map itemMark

/-- Every message with tool calls is followed by the answers to them, and no other tool message is there. -/
inductive PairedMessages (codec : WireCodec) : List Message → Prop where
  | nil : PairedMessages codec []
  | plain {message : Message} {messages : List Message} (hrole : message.role ≠ .tool)
      (hcalls : message.toolCalls = []) (hreplay : Paired (replayMarks codec message))
      (h : PairedMessages codec messages) : PairedMessages codec (message :: messages)
  | batch {message : Message} {answers messages : List Message} (hrole : message.role = .assistant)
      (hcalls : message.toolCalls ≠ []) (hreplay : Paired (replayMarks codec message))
      (hwhole : (replayItemsFromMessage codec message).2 = false)
      (hanswers : List.Forall₂ (Answers message.toolCalls) message.toolCalls answers)
      (h : PairedMessages codec messages) : PairedMessages codec (message :: (answers ++ messages))

section Paired
variable {codec : WireCodec} {messages messages' : List Message} {callIds : CallIds}

theorem PairedMessages.append (h : PairedMessages codec messages) (h' : PairedMessages codec messages') :
    PairedMessages codec (messages ++ messages') := by
  induction h with
  | nil => exact h'
  | plain hrole hcalls hreplay _ ih => exact .plain hrole hcalls hreplay ih
  | batch hrole hcalls hreplay hwhole hanswers _ ih =>
    rw [List.cons_append, List.append_assoc]
    exact .batch hrole hcalls hreplay hwhole hanswers ih

theorem PairedMessages.after_system {message : Message} (h : PairedMessages codec (message :: messages))
    (hrole : message.role = .system) : PairedMessages codec messages := by
  cases h with
  | plain _ _ _ h => exact h
  | batch hassistant =>
    rw [hrole] at hassistant
    cases hassistant

/-! ### Chat Completions -/

/-- The outputs of the answers to a batch. -/
theorem answers_chat {batch calls : List ToolCall} {answers : List Message}
    (h : List.Forall₂ (Answers batch) calls answers) (hmem : ∀ call ∈ calls, call ∈ batch) :
    answers.flatMap (fun m => messageMarks (messageToWire codec m)) =
      calls.map fun call => .output call.wireCallId := by
  induction h with
  | nil => rfl
  | @cons call answer calls answers hanswer _ ih =>
    have hid : toolMessageCallId answer = some call.wireCallId := by
      rcases hanswer.callId with hnamed | ⟨hnone, hcall, hwire⟩
      · rw [toolMessageCallId, hnamed, Option.some_or]
      · rw [toolMessageCallId, hnone, hcall, hwire call (hmem call (List.mem_cons_self ..)) rfl]
        rfl
    rw [List.flatMap_cons, messageMarks_wire, if_pos hanswer.role, hanswer.toolCalls, hid,
      ih fun c hc => hmem c (List.mem_cons_of_mem _ hc)]
    rfl

/-- **The calls of a Chat Completions body are paired.** -/
theorem PairedMessages.chat (h : PairedMessages codec messages) :
    Paired (messages.flatMap fun m => messageMarks (messageToWire codec m)) := by
  induction h with
  | nil => exact .nil
  | @plain message messages hrole hcalls _ _ ih =>
    rw [List.flatMap_cons, messageMarks_wire, if_neg hrole, hcalls]
    exact .other ih
  | @batch message answers messages hrole hcalls _ _ hanswers _ ih =>
    have hbatch : Paired ((message.toolCalls.map fun call => Mark.call call.wireCallId) ++
        (message.toolCalls.map fun call => Mark.output call.wireCallId) ++
        messages.flatMap fun m => messageMarks (messageToWire codec m)) := by
      have hids : message.toolCalls.map ToolCall.wireCallId ≠ [] := by simpa using hcalls
      simpa [Function.comp_def] using Paired.batch hids ih
    rw [List.flatMap_cons, List.flatMap_append, messageMarks_wire, if_neg (by simp [hrole]),
      answers_chat hanswers fun _ => id, ← List.append_assoc, List.cons_append]
    exact .other hbatch

/-! ### Responses -/

/-- The calls of a batch have their identifiers on the wire, those of calls with their identifier. -/
theorem recordToolCalls_lookup (calls : List ToolCall) (callIds : CallIds) (id : ToolInvocationId) :
    (∃ c ∈ calls, c.id = id ∧ (recordToolCalls calls callIds).lookup id = some c.wireCallId) ∨
      (∀ c ∈ calls, c.id ≠ id) ∧ (recordToolCalls calls callIds).lookup id = callIds.lookup id := by
  induction calls generalizing callIds with
  | nil => exact .inr ⟨by simp, rfl⟩
  | cons call calls ih =>
    rcases ih (callIds.insert call.id call.wireCallId) with ⟨c, hc, hid, hlookup⟩ | ⟨hnone, hlookup⟩
    · exact .inl ⟨c, List.mem_cons_of_mem _ hc, hid, hlookup⟩
    · change (recordToolCalls (call :: calls) callIds).lookup id = _ at hlookup
      rw [HashMap.lookup_insert_ite] at hlookup
      split at hlookup
      · exact .inl ⟨call, List.mem_cons_self .., Eq.symm ‹_›, hlookup⟩
      · refine .inr ⟨fun c hc => ?_, hlookup⟩
        rcases List.mem_cons.1 hc with rfl | hc
        · exact Ne.symm ‹_›
        · exact hnone c hc

/-- An answer resolves to its call, once the calls of its batch are recorded. -/
theorem Answers.resolve {batch : List ToolCall} {call : ToolCall} {answer : Message} (h : Answers batch call answer)
    (hmem : call ∈ batch) (callIds : CallIds) :
    resolveFunctionCallId answer (recordToolCalls batch callIds) = call.wireCallId := by
  rcases h.callId with hnamed | ⟨hnone, hcall, hwire⟩
  · rw [resolveFunctionCallId, hnamed]
    rfl
  · rw [resolveFunctionCallId, hnone, hcall, Option.none_or, Option.bind_some]
    rcases recordToolCalls_lookup batch callIds call.id with ⟨c, hc, hid, hlookup⟩ | ⟨habsent, -⟩
    · rw [hlookup, hwire c hc hid, hwire call hmem rfl]
      rfl
    · exact absurd rfl (habsent call hmem)

theorem itemMark_output (callId : String) (output : Value) :
    itemMark (functionCallOutput callId output) = .output callId := by
  simp [itemMark, functionCallOutput, Value.getStr, Value.get, List.lookup_cons, Value.asStr]

theorem itemMark_call (call : ToolCall) : itemMark (functionCallItem codec call) = .call call.wireCallId := by
  simp [itemMark, functionCallItem, Value.getStr, Value.get, List.lookup_cons, Value.asStr]

theorem itemMark_spoken (message : Message) (replayItems : List Value) :
    ∀ mark ∈ (spokenItems message replayItems).map itemMark, mark = .other := by
  intro mark hmark
  obtain ⟨item, hitem, rfl⟩ := List.mem_map.1 hmark
  rcases List.mem_append.1 hitem with hitem | hitem
  · split at hitem
    · obtain ⟨reasoning, -, rfl⟩ := List.mem_map.1 hitem
      simp [itemMark, reasoningItem, Value.getStr, Value.get, List.lookup_cons, Value.asStr]
    · cases hitem
  · split at hitem
    · rw [List.mem_singleton.1 hitem]
      simp [itemMark, Value.getStr, Value.get, List.lookup_cons]
    · cases hitem

theorem answers_responses {batch calls : List ToolCall} {answers : List Message}
    (h : List.Forall₂ (Answers batch) calls answers) (hmem : ∀ call ∈ calls, call ∈ batch) (rest : List Message) :
    (responsesItems codec (recordToolCalls batch callIds) (answers ++ rest)).map itemMark =
      (calls.map fun call => Mark.output call.wireCallId) ++
        (responsesItems codec (recordToolCalls batch callIds) rest).map itemMark := by
  induction h with
  | nil => rfl
  | @cons call answer calls answers hanswer _ ih =>
    rw [List.cons_append, responsesItems, messageToResponsesItems, if_pos hanswer.role]
    simp only [List.map_append, List.map_cons, List.map_nil, functionCallOutputItem, itemMark_output,
      hanswer.resolve (hmem call (List.mem_cons_self ..)), ih fun c hc => hmem c (List.mem_cons_of_mem _ hc)]
    rfl

/-- The items of a message that is not a tool message. -/
theorem responsesItems_message {message : Message} (hrole : message.role ≠ .tool) :
    (responsesItems codec callIds (message :: messages)).map itemMark =
      if (replayItemsFromMessage codec message).2 then
        replayMarks codec message ++ (responsesItems codec
          (recordFunctionCallIds codec (replayItemsFromMessage codec message).1 callIds) messages).map itemMark
      else
        replayMarks codec message ++
          ((spokenItems message (replayItemsFromMessage codec message).1).map itemMark ++
            ((message.toolCalls.map fun call => Mark.call call.wireCallId) ++ (responsesItems codec
              (recordToolCalls message.toolCalls
                (recordFunctionCallIds codec (replayItemsFromMessage codec message).1 callIds)) messages).map itemMark)) := by
  rw [responsesItems, messageToResponsesItems, if_neg hrole]
  simp only
  split
  · rw [List.map_append]
    rfl
  · simp only [List.map_append, List.append_assoc, List.map_map, Function.comp_def, itemMark_call, replayMarks]

/-- **The calls of a Responses body are paired.** -/
theorem PairedMessages.responses (h : PairedMessages codec messages) (callIds : CallIds) :
    Paired ((responsesItems codec callIds messages).map itemMark) := by
  induction h generalizing callIds with
  | nil => exact .nil
  | @plain message messages hrole hcalls hreplay _ ih =>
    rw [responsesItems_message hrole]
    split
    · exact hreplay.append (ih _)
    · rw [hcalls]
      exact hreplay.append ((Mark.paired_of_others (itemMark_spoken message _)).append (ih _))
  | @batch message answers messages hrole hcalls hreplay hwhole hanswers _ ih =>
    rw [responsesItems_message (by simp [hrole]), if_neg (by simp [hwhole]), answers_responses hanswers fun _ => id]
    refine hreplay.append ((Mark.paired_of_others (itemMark_spoken message _)).append ?_)
    have hids : message.toolCalls.map ToolCall.wireCallId ≠ [] := by simpa using hcalls
    simpa [Function.comp_def] using Paired.batch hids (ih _)

/-- The rest of a history after its instructions. -/
theorem PairedMessages.rest (h : PairedMessages codec messages) :
    PairedMessages codec (leadingInstructions messages).2 := by
  induction messages with
  | nil => exact h
  | cons message messages ih =>
    rw [leadingInstructions]
    split
    · rename_i hinstruction
      split at hinstruction
      · exact ih (h.after_system ‹_›)
      · cases hinstruction
    · exact h

/-! ### Bodies -/

theorem chatMarks_body (request : ModelTurnRequest) : chatMarks (buildChatCompletionsBody codec request) =
    request.messages.flatMap fun m => messageMarks (messageToWire codec m) := by
  simp [chatMarks, buildChatCompletionsBody, Value.get, Value.asArray, List.flatMap_map]

theorem responsesMarks_body (request : ModelTurnRequest) : responsesMarks (buildResponsesBody codec request) =
    (responsesItems codec ∅ (leadingInstructions request.messages).2).map itemMark := by
  simp [responsesMarks, buildResponsesBody, Value.get, Value.asArray]

/-- **Both bodies of a paired history are paired.** -/
theorem PairedMessages.bodies {request : ModelTurnRequest} (h : PairedMessages codec request.messages) :
    Paired (chatMarks (buildChatCompletionsBody codec request)) ∧
      Paired (responsesMarks (buildResponsesBody codec request)) := by
  rw [chatMarks_body, responsesMarks_body]
  exact ⟨h.chat, h.rest.responses ∅⟩

end Paired

end Aifluxon
