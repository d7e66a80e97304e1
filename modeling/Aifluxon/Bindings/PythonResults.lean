import Aifluxon.Api.RunResults
import Aifluxon.Bindings.EventPayloads

/-!
# The result of a run in Python

`_pump_events` and `_assistant_text` of `agent.py`, on the payloads that leave Rust.

* `pyAssistantText`, `PyLocals`, `pumpPayloads` : the loop of the pump, without its queue;
* `pumpPayloads_eq` : on the payloads of a log it does what the pump does on its events;
* `PyResultOf` : a result of Python against the one of Rust;
* `python_result_eq` : both come to the same result of a log.
-/

namespace Aifluxon

/-! ## The pump on payloads -/

/-- The texts of the parts of a message. -/
def pyPartTexts (py : PyBuiltins) (parts : List Value) : List String :=
  parts.filterMap fun part => match part with
    | .object _ => if pyTrue (pyGet "text" part) then some (py.toStr (pyGet "text" part)) else none
    | .string text => some text
    | _ => none

/-- `_assistant_text`. -/
def pyAssistantText (py : PyBuiltins) (output : List Value) : Except PyError String :=
  match output.reverse.find? fun message => message.isObject && decide (message.get "role" = some (.string "assistant")) with
  | some message => (py.toList (pyOr (pyGet "content" message) (.array []))).map fun parts =>
      String.join (pyPartTexts py parts)
  | none => .ok ""

/-- The local variables of `_pump_events`, on JSON. -/
structure PyLocals where
  output : List Value
  usage : Value
  text : String
  state : String
  failure : Option String

/-- What Python returns of a run. -/
structure PyRunResult where
  runId : String
  sessionId : Option String
  state : String
  text : String
  output : List Value
  usage : Value

namespace PyLocals

def new : PyLocals := ⟨[], .null, "", "running", none⟩

def note (py : PyBuiltins) (locals : PyLocals) : PyEvent → Except PyError PyLocals
  | .completed _ _ output =>
    (pyAssistantText py output).map fun text => { locals with output, text, state := "completed" }
  | .failed _ _ message => .ok { locals with failure := some message, state := "failed" }
  | .cancelled _ _ => .ok { locals with state := "cancelled" }
  | .usageUpdated _ _ usage => .ok { locals with usage }
  | _ => .ok locals

/-- What the future is set to; an empty message is false. -/
def outcome (locals : PyLocals) (runId : String) (sessionId : Option String) : Except PyError PyRunResult :=
  if locals.state = "cancelled" then .error ⟨"CancelledError", "The run was cancelled.", "Cancelled"⟩
  else if locals.state = "failed" then
    let message := locals.failure.getD ""
    .error ⟨"FailedError", if message = "" then "The run failed." else message, "Failed"⟩
  else .ok ⟨runId, sessionId, locals.state, locals.text, locals.output, locals.usage⟩

end PyLocals

/-- The loop over what `next_event` gives; an exception ends it. -/
def pumpPayloads (py : PyBuiltins) (locals : PyLocals) : List Value → Except PyError PyLocals
  | [] => .ok locals
  | payload :: payloads => do
    let event ← eventFromPayload py payload
    let locals ← locals.note py event
    if event.isTerminal then return locals else pumpPayloads py locals payloads

/-! ## The pump on events -/

/-- The variables on JSON, when those on events are given. -/
def PumpLocals.toPy (locals : PumpLocals) : PyLocals :=
  ⟨locals.output.map messageToJson, locals.usage.getD .null, locals.text, locals.state, locals.failure⟩

theorem get_role (message : Message) : (messageToJson message).get "role" = some message.role.toJson := by
  rw [Message.get_messageToJson]
  cases hrole : message.role <;> simp [Message.toJson, Value.get, hrole, MessageRole.toJson, Value.canonical]

theorem get_content (message : Message) :
    (messageToJson message).get "content" = some (.array (message.content.map ContentPart.toJson)) := by
  rw [Message.get_messageToJson, ← canonical_array_map fun part _ => part.toJson_sorted]
  rfl

/-- The text of a part that is empty is left out, and nothing is missing without it. -/
theorem join_pyPartTexts (py : PyBuiltins) (content : List ContentPart) :
    String.join (pyPartTexts py (content.map ContentPart.toJson)) = String.join (content.map partText) := by
  induction content with
  | nil => rfl
  | cons part content ih =>
    rw [pyPartTexts] at ih ⊢
    rw [List.map_cons, List.map_cons, String.join_cons, List.filterMap_cons, ← ih]
    cases part with
    | image image => exact (String.empty_append).symm
    | text text =>
      have hget : pyGet "text" (ContentPart.text text).toJson = .string text := rfl
      by_cases htext : text = ""
      · subst htext
        exact (String.empty_append).symm
      · have htrue : pyTrue (.string text) = true := decide_eq_true htext
        simp only [ContentPart.toJson] at hget ⊢
        simp only [hget, htrue, if_true, String.join_cons]
        rfl

/-- **The text of an output is the same on JSON.** -/
theorem pyAssistantText_eq (py : PyBuiltins) (output : List Message) :
    pyAssistantText py (output.map messageToJson) = .ok (assistantText output) := by
  have hfind (messages : List Message) : (messages.map messageToJson).find? (fun message =>
      message.isObject && decide (message.get "role" = some (.string "assistant"))) =
      (messages.find? fun message => message.role = .assistant).map messageToJson := by
    rw [List.find?_map]
    congr 2
    funext message
    have hobject : (messageToJson message).isObject = true := by
      unfold messageToJson Message.toJson Value.canonical
      rfl
    simp only [Function.comp_apply, hobject, Bool.true_and, get_role]
    cases message.role <;> simp [MessageRole.toJson]
  rw [pyAssistantText, ← List.map_reverse, hfind, assistantText]
  cases output.reverse.find? fun message => decide (message.role = .assistant) with
  | none => rfl
  | some message =>
    simp only [Option.map_some, pyGet, get_content, Option.getD_some, toList_pyOr, Except.map, join_pyPartTexts]

theorem note_toPy (py : PyBuiltins) (locals : PumpLocals) (envelope : RunEventEnvelope) :
    locals.toPy.note py envelope.toPy = .ok (locals.note envelope.event).toPy := by
  obtain ⟨sequence, runId, event⟩ := envelope
  cases event with
  | completed output =>
    simp only [RunEventEnvelope.toPy, PyLocals.note, pyAssistantText_eq, Except.map]
    rfl
  | _ => rfl

/-- **The pump does on payloads what it does on events.** -/
theorem pumpPayloads_eq (py : PyBuiltins) {events : List RunEventEnvelope} (h : Closing events)
    (locals : PumpLocals) : pumpPayloads py locals.toPy (events.map envelopeToJson) =
      .ok (events.foldl (fun locals envelope => locals.note envelope.event) locals).toPy := by
  induction h generalizing locals with
  | @last event hterminal =>
    rw [List.map_singleton, pumpPayloads, eventFromPayload_toPy]
    show (locals.toPy.note py event.toPy >>= _) = _
    rw [note_toPy]
    show (if event.toPy.isTerminal then _ else _) = _
    rw [isTerminal_toPy, if_pos hterminal]
    rfl
  | @more event events hterminal _ ih =>
    rw [List.map_cons, pumpPayloads, eventFromPayload_toPy]
    show (locals.toPy.note py event.toPy >>= _) = _
    rw [note_toPy]
    show (if event.toPy.isTerminal then _ else _) = _
    rw [isTerminal_toPy, if_neg (by rw [hterminal]; decide), ih]
    rfl

/-! ## Both results -/

/-- The result of Rust as Python gives it; an empty message of a failure is replaced. -/
def pythonResult : Except AifluxonError Api.RunResult → Except PyError PyRunResult
  | .ok result => .ok ⟨hyphenated result.runId.uuid, result.sessionId.map fun id => hyphenated id.uuid,
      runStateName result.state, result.text, result.output.map messageToJson, result.usage.getD .null⟩
  | .error error => .error (match error.kind with
    | .cancelled => ⟨"CancelledError", error.message, "Cancelled"⟩
    | _ => ⟨"FailedError", if error.message = "" then "The run failed." else error.message, "Failed"⟩)

/-- The variables of the two loops. -/
structure SameLocals (p : PumpLocals) (r : Api.ResultLocals) : Prop where
  output : p.output = r.output
  usage : p.usage = r.usage
  text : p.text = Api.assistantText r.output
  failure : p.failure = r.failure
  state : p.state = match r.state with
    | none => "running"
    | some state => runStateName state
  ended : ∀ state, r.state = some state → state.isTerminal = true

theorem assistantText_api (output : List Message) : Api.assistantText output = assistantText output := by
  have hjoin (take : ContentPart → Option String) (htext : ∀ text, take (.text text) = some text)
      (himage : ∀ image, take (.image image) = none) (content : List ContentPart) :
      String.join (content.filterMap take) = String.join (content.map partText) := by
    induction content with
    | nil => rfl
    | cons part content ih =>
      rw [List.map_cons, String.join_cons, ← ih]
      cases part with
      | text text =>
        rw [List.filterMap_cons_some (htext text)]
        exact String.join_cons
      | image image =>
        rw [List.filterMap_cons_none (himage image)]
        exact String.empty_append.symm
  unfold Api.assistantText assistantText
  cases output.reverse.find? fun message => decide (message.role = .assistant) with
  | none => rfl
  | some message => exact hjoin _ (fun _ => rfl) (fun _ => rfl) message.content

theorem SameLocals.note {p : PumpLocals} {r : Api.ResultLocals} (h : SameLocals p r) (event : RunEvent) :
    SameLocals (p.note event) (r.note event) := by
  cases event with
  | completed output =>
    refine ⟨rfl, h.usage, (assistantText_api output).symm, h.failure, rfl, fun state hstate => ?_⟩
    obtain rfl := Option.some.inj hstate
    rfl
  | failed message =>
    refine ⟨h.output, h.usage, h.text, rfl, rfl, fun state hstate => ?_⟩
    obtain rfl := Option.some.inj hstate
    rfl
  | cancelled =>
    refine ⟨h.output, h.usage, h.text, h.failure, rfl, fun state hstate => ?_⟩
    obtain rfl := Option.some.inj hstate
    rfl
  | usageUpdated usage => exact ⟨h.output, rfl, h.text, h.failure, h.state, h.ended⟩
  | _ => exact h

theorem sameLocals_of_log (events : List RunEventEnvelope) :
    SameLocals (events.foldl (fun locals envelope => locals.note envelope.event) .new)
      (Api.ResultLocals.new.collect events) := by
  induction events using List.reverseRecOn with
  | nil => exact ⟨rfl, rfl, rfl, rfl, rfl, fun state hstate => absurd hstate.symm (Option.some_ne_none state)⟩
  | append_singleton events envelope ih =>
    rw [List.foldl_append, Api.ResultLocals.collect_append]
    exact ih.note envelope.event

/-- The log of a run that has ended closes with its terminal event. -/
theorem closing_of_wellFormed {r : RunRecord} (hw : r.WellFormed) (hterminal : r.state.isTerminal = true) :
    Closing r.events := by
  have hseal := hw.state
  rw [if_pos hterminal] at hseal
  obtain ⟨last, hlast, hfinal⟩ := Option.bind_eq_some_iff.1 hseal
  obtain ⟨init, hinit⟩ := List.getLast?_eq_some_iff.1 hlast
  have hopen : ∀ e ∈ init, isTerminalEvent e = false := by
    intro e he
    have hnone : e.event.terminalState = none := hw.log.sealedLast init last hinit e he
    rw [isTerminalEvent_eq, hnone]
    rfl
  have hend : isTerminalEvent last = true := by
    have hsome : last.event.terminalState = some r.state := hfinal
    rw [isTerminalEvent_eq, hsome]
    rfl
  rw [hinit]
  clear hinit
  induction init with
  | nil => exact .last hend
  | cons e init ih =>
    rw [List.forall_mem_cons] at hopen
    exact .more hopen.1 (ih hopen.2)

/-- The terminal event leaves the state of its run. -/
theorem collect_state {events : List RunEventEnvelope} {last : RunEventEnvelope} {state : RunState}
    (hlast : events.getLast? = some last) (hstate : last.event.terminalState = some state) :
    (Api.ResultLocals.new.collect events).state = some state := by
  obtain ⟨init, rfl⟩ := List.getLast?_eq_some_iff.1 hlast
  obtain ⟨sequence, runId, event⟩ := last
  rw [Api.ResultLocals.collect_append]
  cases event with
  | completed output => exact hstate
  | failed message => exact hstate
  | cancelled => exact hstate
  | _ => cases hstate

/-- What the two loops return at the end. -/
theorem SameLocals.outcome {p : PumpLocals} {r : Api.ResultLocals} (h : SameLocals p r) (context : RunContext)
    {state : RunState} (hstate : r.state = some state) :
    p.toPy.outcome (hyphenated context.runId.uuid) (context.sessionId.map fun id => hyphenated id.uuid) =
      pythonResult (r.finish context) := by
  have hp := h.state
  have hended := h.ended state hstate
  rw [hstate] at hp
  simp only [PumpLocals.toPy, PyLocals.outcome, hp, h.output, h.text, h.usage, h.failure, Api.ResultLocals.finish,
    hstate, Option.getD_some]
  cases state with
  | running | awaitingOperation => cases hended
  | completed => rfl
  | failed =>
    cases hfailure : r.failure with
    | none => rfl
    | some message => rfl
  | cancelled => rfl

/-- **Python and Rust come to the same result of a run.** -/
theorem python_result_eq (py : PyBuiltins) {context : RunContext} {r : RunRecord} (hw : r.WellFormed)
    {result : Except AifluxonError Api.RunResult} (hresult : Api.ResultOf context r 0 result) :
    ((pumpPayloads py .new (r.events.map envelopeToJson)).bind fun locals => locals.outcome
      (hyphenated context.runId.uuid) (context.sessionId.map fun id => hyphenated id.uuid)) = pythonResult result := by
  obtain ⟨hterminal, houtcome, -⟩ := hresult
  obtain ⟨last, hlast, hfinal, hresult⟩ := houtcome (List.length_pos_of_ne_nil hw.log.ne_nil)
  rw [List.drop_zero, Api.finish_collect hlast (Option.isSome_iff_exists.2 ⟨_, hfinal⟩)] at hresult
  obtain rfl := Option.some.inj hresult
  have hpump : pumpPayloads py .new (r.events.map envelopeToJson) = _ :=
    pumpPayloads_eq py (closing_of_wellFormed hw hterminal) .new
  have hsame := sameLocals_of_log r.events
  rw [hpump]
  exact hsame.outcome context (collect_state hlast hfinal)

/-- A run that has failed without a message. -/
def silentFailure : RunRecord := ((RunRecord.new ⟨⟨1⟩, none, none⟩ .unlimited).finish (.failed "")).2

theorem silentFailure_wellFormed : silentFailure.WellFormed :=
  (RecordMove.finished (.failed "") rfl).wellFormed (RunRecord.new_wellFormed ⟨⟨1⟩, none, none⟩ .unlimited)

/-- Built-in functions for values that do not come. -/
def quietBuiltins : PyBuiltins := ⟨fun _ => "", fun _ => .ok 0, fun _ => .ok []⟩

/-- Rust has an empty message, and Python one of its own. -/
theorem python_result_eq_silent : ((pumpPayloads quietBuiltins .new (silentFailure.events.map envelopeToJson)).bind
    fun locals => locals.outcome (hyphenated ⟨1⟩) none) = .error ⟨"FailedError", "The run failed.", "Failed"⟩ :=
  @python_result_eq quietBuiltins ⟨⟨1⟩, none, none⟩ silentFailure silentFailure_wellFormed (.error ⟨.failed, ""⟩)
    ⟨rfl, fun _ => ⟨_, rfl, rfl, rfl⟩, fun hlate => absurd hlate (by decide)⟩

end Aifluxon
