import Aifluxon.Providers.ToolEntries

/-!
# The tool calls of a turn and those of its response

* `responseCalls` : the calls that the entries of a response are of;
* `LawfulCalls` : what the dispatcher and the provider rely on;
* `lawful_calls_iff` : a turn has it exactly when the identifiers differ in more than the blanks around them, and no entry
  takes the place of another call.
-/

namespace Aifluxon

/-- The entries of a response, each with the place where it belongs. -/
def ProviderConfig.entries (c : ProviderCalls) (config : ProviderConfig) (response : WireResponse) :
    List (Nat × ToolEntry) :=
  let decoder := config.decoder response.contentType
  match bodyValues c.codec decoder response.bytes with
  | none => []
  | some values => responseEntries c.codec decoder values

/-- The tool calls that stand in a response. -/
def responseCalls (c : ProviderCalls) (config : ProviderConfig) (response : WireResponse) : List PendingToolCall :=
  (entryCalls (config.entries c response)).map entriesCall

/-- What the dispatcher and the provider rely on. -/
structure LawfulCalls (codec : WireCodec) (observed : List PendingToolCall) (calls : List ToolCall) : Prop where
  name : ∀ call ∈ calls, trim call.name ≠ ""
  arguments : ∀ call ∈ calls, call.arguments.isObject = true
  wireCallId : ∀ call ∈ calls, call.wireCallId ≠ ""
  distinct : (calls.map ToolCall.wireCallId).Nodup
  complete : calls = observed.map (ToolCallAssembler.finishCall codec)

section
variable {c : ProviderCalls} {config : ProviderConfig} {response : WireResponse} {turn : ModelTurn}

theorem decoded_toolCalls (h : (decodeResponse c config response).1 = .ok turn) : ∃ a : ToolCallAssembler,
    Reflects (config.entries c response) a ∧
      turn.toolCalls = a.observedCalls.map (ToolCallAssembler.finishCall c.codec) ∧
        ∀ call ∈ a.observedCalls, trim call.id ≠ "" := by
  have hdecode := decodeResponse_ok h
  rw [hdecode] at h
  obtain ⟨values, hvalues, hrun⟩ := values_of_ok h
  rw [hrun] at h
  obtain ⟨a, ha, hclose⟩ := Sunk.attempt_eq_ok h
  have hreflects := reflects_response ha
  obtain ⟨htools, hvalidate⟩ := TurnAssembly.close_toolCalls (Prod.ext hclose rfl)
  refine ⟨a.tools, ?_, ?_, fun call hcall => ?_⟩
  · rw [ProviderConfig.entries, hvalues]
    exact hreflects
  · rw [htools, ToolCallAssembler.finished_observed hreflects.filled hvalidate]
  · obtain ⟨hmem, hobserved⟩ := List.mem_filter.1 hcall
    exact (ToolCallAssembler.validate_observed hvalidate call hmem hobserved).1

/-- **The tool calls of a turn are lawful exactly when their identifiers differ in more than blanks**, and no entry of the
response takes the place of another call. -/
theorem lawful_calls_iff {request : ModelTurnRequest} {replies : Nat → AttemptReplies}
    (h : (nextTurn c config request replies).1 = .ok turn) : ∃ response,
      turnResponse c config request replies = some response ∧
      (LawfulCalls c.codec (responseCalls c config response) turn.toolCalls ↔
        ((responseCalls c config response).map fun call => trim call.id).Nodup ∧
          Undisplaced (config.entries c response)) := by
  obtain ⟨response, calls, hresponse, hreturned, -⟩ := nextTurn_returned h
  obtain ⟨family, toolsEnabled, hfamily, rfl⟩ := hreturned.made
  obtain ⟨ids, hids, -⟩ := hreturned.valid.identified
  refine ⟨response, hresponse, ?_⟩
  rw [applyTurnContinuation_toolCalls] at hids ⊢
  obtain ⟨decoded, hdecoded, rfl⟩ := familyTurn_decoded hfamily
  rw [applyToTurn_toolCalls] at hids ⊢
  obtain ⟨a, hreflects, htools, hblank⟩ := decoded_toolCalls hdecoded
  have hwire : decoded.toolCalls.map ToolCall.wireCallId = a.observedCalls.map fun call => trim call.id := by
    rw [htools, List.map_map]
    refine List.map_congr_left fun call hcall => ?_
    rw [Function.comp_apply, ToolCallAssembler.finishCall_wireCallId (hblank call hcall)]
  constructor
  · intro hlawful
    have hlength := congrArg List.length hlawful.complete
    rw [htools, List.length_map, List.length_map, responseCalls, List.length_map] at hlength
    have hplaces := hreflects.undisplaced hlength.ge
    rw [responseCalls, hreflects.entryCalls_observed hplaces, ← hwire]
    exact ⟨hlawful.distinct, hplaces⟩
  · rintro ⟨hdistinct, hplaces⟩
    rw [responseCalls, hreflects.entryCalls_observed hplaces] at hdistinct ⊢
    have hidentified : ∀ call ∈ decoded.toolCalls, ∃ id, IdentifiedCall call id := identified_mem hids
    refine ⟨fun call hcall => ?_, fun call hcall => ?_, fun call hcall => ?_, hwire ▸ hdistinct, htools⟩
    · obtain ⟨id, hid⟩ := hidentified call hcall
      exact hid.name
    · obtain ⟨id, hid⟩ := hidentified call hcall
      exact hid.arguments
    · rw [htools] at hcall
      obtain ⟨pending, hpending, rfl⟩ := List.mem_map.1 hcall
      rw [ToolCallAssembler.finishCall_wireCallId (hblank pending hpending)]
      exact hblank pending hpending

end

/-! Responses with two tool calls, which may both have an index. -/

def callValue (index : Option Nat) (id : String) : Value :=
  .object ([("function", .object [("arguments", .string "{}"), ("name", .string "f")]), ("id", .string id)] ++
    (index.map fun index => ("index", Value.number (.int index))).toList)

def callText (index : Option Nat) (id : String) : List Char :=
  "\x7b\"id\":\"".toList ++ id.toList ++ "\",".toList ++
    ((index.map fun index => "\"index\":".toList ++ (toString index).toList ++ [',']).getD []) ++
      "\"function\":\x7b\"name\":\"f\",\"arguments\":\"\x7b\x7d\"\x7d\x7d".toList

def twoCallsValue (index : Option Nat) (first second : String) : Value :=
  .object [("choices", .array [.object [("finish_reason", .string "tool_calls"),
    ("message", .object [("tool_calls", .array [callValue index first, callValue index second])])]])]

def twoCallsText (index : Option Nat) (first second : String) : List Char :=
  "\x7b\"choices\":[\x7b\"message\":\x7b".toList ++ "\"tool_calls\":[".toList ++
    callText index first ++ [','] ++ callText index second ++
    "]\x7d,\"finish_reason\":\"tool_calls\"\x7d]\x7d".toList

/-- The identifiers of the calls are those of their keys. -/
def callIds : List (String × Uuid) :=
  [("a", 0xd720e32d47655177b65b42dd7f6e6445), ("a ", 0xeb750b32ef8452cd9906c5dc985414d0),
    ("b", 0x8b58a5a75d3658ee8fa41bd2be8f0998)]

def twoCalls (index : Option Nat) (first second : String) : ProviderCalls where
  codec := tableCodec [(twoCallsText index first second, twoCallsValue index first second), ("{}".toList, .object [])]
    callIds
  sanitize message _ := message
  promised _ := false

def twoCallsReplies (index : Option Nat) (first second : String) : Nat → AttemptReplies :=
  served (some "application/json") (asciiBytes (twoCallsText index first second))

/-- The answer of the provider to a response with two tool calls. -/
def twoCallsTurn (index : Option Nat) (first second : String) : Except ProviderError ModelTurn :=
  (nextTurn (twoCalls index first second) (chatConfig .openAi) plainRequest (twoCallsReplies index first second)).1

/-- Two identifiers that are one on the wire, and two calls of a message with one index, of which the second takes the
place of the first. -/
theorem unlawful_calls :
    (twoCallsTurn none "a" "a ").toOption.map (fun turn => turn.toolCalls.map ToolCall.wireCallId) = some ["a", "a"] ∧
      (twoCallsTurn (some 0) "a" "b").toOption.map (fun turn => turn.toolCalls.map ToolCall.wireCallId) =
        some ["b"] := by decide +kernel

theorem lawful_calls_iff_ab : ∃ turn observed, twoCallsTurn none "a" "b" = .ok turn ∧
    LawfulCalls (twoCalls none "a" "b").codec observed turn.toolCalls := by
  have hok : (twoCallsTurn none "a" "b").toOption.isSome = true := by decide +kernel
  have hdistinct : (turnResponse (twoCalls none "a" "b") (chatConfig .openAi) plainRequest
      (twoCallsReplies none "a" "b")).map (fun response =>
        decide (((responseCalls (twoCalls none "a" "b") (chatConfig .openAi) response).map fun call =>
          trim call.id).Nodup ∧ Undisplaced ((chatConfig .openAi).entries (twoCalls none "a" "b") response))) =
            some true := by decide +kernel
  cases hturn : twoCallsTurn none "a" "b" with
  | error e =>
    rw [hturn] at hok
    cases hok
  | ok turn =>
    obtain ⟨response, hresponse, hlawful⟩ := lawful_calls_iff hturn
    rw [hresponse, Option.map_some] at hdistinct
    exact ⟨turn, _, rfl, hlawful.2 (of_decide_eq_true (Option.some.inj hdistinct))⟩

end Aifluxon
