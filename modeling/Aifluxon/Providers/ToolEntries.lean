import Aifluxon.Providers.ToolRuns

/-!
# The tool calls that stand in a response

A value has entries of tool calls, each a whole call or a piece of one. The entries alone say where they belong: by an
index, under the Gemini contract by an identifier, or else by their place among those of their value.

* `ToolEntry`, `toolEntries` : the entries of the steps of values;
* `ToolEntry.place`, `placed` : where each of them belongs;
* `Reflects`, `Reflects.run` : the assembler has at each place what belongs there;
* `ToolEntry.startsAnother`, `entryCalls` : the calls that the entries are of;
* `Undisplaced`, `undisplaced_iff` : no entry takes the place of another call, and then the assembler has all of them.
-/

namespace Aifluxon

/-! ## Entries -/

/-- A tool call in a value, or a piece of one: whether the message is complete, and what is known of the contract there. -/
structure ToolEntry where
  message : Nat
  delta : Value
  position : Nat
  complete : Bool
  metadata : Bool
  gemini : Bool

/-- The steps of values, each with the number of its value. -/
def numberedSteps (messages : List (List ToolStep)) : List (Nat × ToolStep) :=
  messages.zipIdx.flatMap fun message => message.1.map fun step => (message.2, step)

theorem numberedSteps_snd (messages : List (List ToolStep)) : (numberedSteps messages).map Prod.snd = messages.flatten := by
  have hfrom (n : Nat) : ((messages.zipIdx n).flatMap fun message => message.1.map fun step => (message.2, step)).map
      Prod.snd = messages.flatten := by
    induction messages generalizing n with
    | nil => rfl
    | cons message messages ih =>
      rw [List.zipIdx_cons, List.flatMap_cons, List.map_append, ih, List.map_map, List.flatten_cons]
      congr 1
      exact List.map_id _
  exact hfrom 0

/-- The entries of steps. The Gemini contract that is found on the way holds for those after it. -/
def toolEntries (metadata gemini : Bool) : List (Nat × ToolStep) → List ToolEntry
  | [] => []
  | (message, .delta delta position complete) :: steps =>
    ⟨message, delta, position, complete, metadata, gemini⟩ :: toolEntries metadata gemini steps
  | (message, .item position item) :: steps =>
    ⟨message, ResponsesTurnState.functionCallDelta position item, position, true, metadata, gemini⟩ ::
      toolEntries metadata gemini steps
  | (_, .gemini) :: steps => toolEntries true true steps

/-- What entries make of a call. -/
def entriesCall (entries : List ToolEntry) : PendingToolCall :=
  entries.foldl (fun call entry => call.applyDelta entry.metadata entry.complete entry.delta) .default

/-- The identifier that entries give a call. -/
def identifier (entries : List ToolEntry) : String :=
  entries.foldl (fun id entry =>
    PendingToolCall.putSome (entry.complete || entry.metadata) id (entry.delta.getStr "id")) ""

/-- The parts of an extension that entries have. -/
def extraParts (entries : List ToolEntry) : List Value := entries.filterMap fun entry => deltaExtra entry.delta

theorem entriesCall_append (entries : List ToolEntry) (entry : ToolEntry) : entriesCall (entries ++ [entry]) =
    (entriesCall entries).applyDelta entry.metadata entry.complete entry.delta := List.foldl_append

theorem identifier_append (entries : List ToolEntry) (entry : ToolEntry) : identifier (entries ++ [entry]) =
    PendingToolCall.putSome (entry.complete || entry.metadata) (identifier entries) (entry.delta.getStr "id") :=
  List.foldl_append

theorem entriesCall_id (entries : List ToolEntry) : (entriesCall entries).id = identifier entries := by
  induction entries using List.reverseRecOn with
  | nil => rfl
  | append_singleton entries entry ih =>
    rw [entriesCall_append, identifier_append, PendingToolCall.applyDelta_nested, ← ih]
    rfl

theorem entriesCall_extraContent (entries : List ToolEntry) :
    (entriesCall entries).extraContent = ((extraParts entries).map some).foldl addExtra none := by
  induction entries using List.reverseRecOn with
  | nil => rfl
  | append_singleton entries entry ih =>
    rw [entriesCall_append, PendingToolCall.applyDelta_nested, extraParts, List.filterMap_append, List.map_append,
      List.foldl_append, ← extraParts, ← ih]
    show addExtra (entriesCall entries).extraContent (deltaExtra entry.delta) = _
    rw [List.filterMap_cons]
    cases deltaExtra entry.delta <;> rfl

theorem entriesCall_observed (entries : List ToolEntry) : (entriesCall entries).observed = true ↔ entries ≠ [] := by
  cases entries using List.reverseRecOn with
  | nil => simp [entriesCall, PendingToolCall.default]
  | append_singleton entries entry => simp [entriesCall_append]

/-! ## Places -/

/-- How many places there are: all up to the last one that an entry went to. -/
def places (entries : List (Nat × ToolEntry)) : Nat := entries.foldl (fun n entry => max n (entry.1 + 1)) 0

/-- The entries of a place. -/
def entriesAt (entries : List (Nat × ToolEntry)) (place : Nat) : List ToolEntry :=
  (entries.filter fun entry => entry.1 = place).map Prod.snd

/-- Where an entry belongs that comes after others: to the place of its index; under the Gemini contract to the first call
that has its identifier, or to a new one; else to the call of its position, or to a new one. -/
def ToolEntry.place (before : List (Nat × ToolEntry)) (entry : ToolEntry) : Nat :=
  match deltaIndex entry.delta with
  | some index => index
  | none => match (entry.delta.getStr "id").filter fun id => entry.gemini ∧ id ≠ "" with
    | some id =>
      ((List.range (places before)).findIdx? fun place => identifier (entriesAt before place) = id).getD (places before)
    | none => min entry.position (places before)

/-- Entries after others, each with the place where it belongs. -/
def placedAfter (before : List (Nat × ToolEntry)) : List ToolEntry → List (Nat × ToolEntry)
  | [] => before
  | entry :: entries => placedAfter (before ++ [(entry.place before, entry)]) entries

def placed (entries : List ToolEntry) : List (Nat × ToolEntry) := placedAfter [] entries

@[simp] theorem places_append (entries : List (Nat × ToolEntry)) (entry : Nat × ToolEntry) :
    places (entries ++ [entry]) = max (places entries) (entry.1 + 1) := List.foldl_append

theorem entriesAt_append (entries : List (Nat × ToolEntry)) (entry : Nat × ToolEntry) (place : Nat) :
    entriesAt (entries ++ [entry]) place =
      if entry.1 = place then entriesAt entries place ++ [entry.2] else entriesAt entries place := by
  rw [entriesAt, List.filter_append, List.map_append]
  by_cases h : entry.1 = place
  · rw [if_pos h, List.filter_cons_of_pos (by simpa using h)]
    rfl
  · rw [if_neg h, List.filter_cons_of_neg (by simpa using h), List.filter_nil, List.map_nil, List.append_nil]
    rfl

theorem lt_places {entries : List (Nat × ToolEntry)} {entry : Nat × ToolEntry} (h : entry ∈ entries) :
    entry.1 < places entries := by
  induction entries using List.reverseRecOn with
  | nil => cases h
  | append_singleton entries last ih =>
    rw [places_append]
    rcases List.mem_append.1 h with h | h
    · have hlt := ih h
      omega
    · rw [List.mem_singleton.1 h]
      omega

/-! ## The assembler -/

/-- The assembler has at each place what belongs there. -/
structure Reflects (entries : List (Nat × ToolEntry)) (a : ToolCallAssembler) : Prop where
  callAt : ∀ place, a.callAt place = entriesCall (entriesAt entries place)
  length : a.calls.length = places entries

namespace ToolCallAssembler

variable {a : ToolCallAssembler} {entries : List (Nat × ToolEntry)}

theorem calls_eq (a : ToolCallAssembler) : a.calls = (List.range a.calls.length).map a.callAt := by
  refine List.ext_getElem (by simp) fun i hi hi' => ?_
  rw [List.getElem_map, List.getElem_range, callAt, List.getElem?_eq_getElem hi, Option.getD_some]

end ToolCallAssembler

namespace Reflects

variable {entries : List (Nat × ToolEntry)} {a : ToolCallAssembler} {entry : ToolEntry}

theorem nil {a : ToolCallAssembler} (h : a.calls = []) : Reflects [] a where
  callAt place := by
    rw [ToolCallAssembler.callAt, h]
    rfl
  length := by
    rw [h]
    rfl

/-- The assembler takes an entry to where it belongs. -/
theorem place (h : Reflects entries a) (hgemini : entry.gemini = a.geminiContract) :
    a.index entry.delta entry.position = entry.place entries := by
  unfold ToolEntry.place
  cases hindex : deltaIndex entry.delta with
  | some index => rw [ToolCallAssembler.index_of_some hindex]
  | none =>
    rw [deltaIndex] at hindex
    have hstreamed : streamedToolCallIndex entry.delta entry.position (places entries) =
        min entry.position (places entries) := by
      simp only [streamedToolCallIndex, hindex]
      split <;> omega
    have hfind (id : String) : (a.calls.findIdx? fun call => decide (call.id = id)) =
        (List.range (places entries)).findIdx? fun place => decide (identifier (entriesAt entries place) = id) := by
      rw [a.calls_eq, List.findIdx?_map, h.length]
      congr 1
      funext place
      rw [Function.comp_apply, h.callAt, entriesCall_id]
    simp only [ToolCallAssembler.index, hindex, and_true, hgemini, h.length, hstreamed, hfind]
    by_cases hcontract : a.geminiContract = true
    · cases hid : (entry.delta.getStr "id").filter fun id => id ≠ "" with
      | none => simp only [hcontract, true_and, if_true, hid]
      | some id => simp only [hcontract, true_and, if_true, hid]
    · have hnone : (entry.delta.getStr "id").filter (fun _ => false) = none := by
        cases entry.delta.getStr "id" <;> rfl
      simp only [hcontract, false_and, decide_false, Bool.false_eq_true, if_false, hnone]

/-- An entry goes to the call of its place. -/
theorem delta (h : Reflects entries a) (hgemini : entry.gemini = a.geminiContract)
    (hmetadata : entry.metadata = a.metadataSnapshots) :
    Reflects (entries ++ [(entry.place entries, entry)])
      (a.applyChatDelta entry.delta entry.position entry.complete) where
  callAt place := by
    rw [ToolCallAssembler.applyChatDelta_callAt, h.place hgemini, entriesAt_append, h.callAt]
    split
    · rw [entriesCall_append, hmetadata]
    · rfl
  length := by
    rw [ToolCallAssembler.applyChatDelta_length, h.place hgemini, h.length, places_append]

/-- **The assembler after steps** has at each place what belongs there. -/
theorem run (h : Reflects entries a) (steps : List (Nat × ToolStep)) :
    Reflects (placedAfter entries (toolEntries a.metadataSnapshots a.geminiContract steps)) (a.run (steps.map Prod.snd)) := by
  induction steps generalizing entries a with
  | nil => exact h
  | cons step steps ih =>
    obtain ⟨message, step⟩ := step
    cases step with
    | delta delta position complete =>
      exact ih (@Reflects.delta entries a ⟨message, delta, position, complete, a.metadataSnapshots, a.geminiContract⟩ h rfl rfl)
    | item position item =>
      exact ih (@Reflects.delta entries a ⟨message, _, position, true, a.metadataSnapshots, a.geminiContract⟩ h rfl rfl)
    | gemini => exact ih (a := a.useGeminiContract) ⟨h.callAt, h.length⟩

end Reflects

/-! ## The calls of the entries -/

/-- The identifier that is known of a call: a blank one that replaces it tells nothing. -/
def knownId (call : List ToolEntry) : String :=
  call.foldl (fun known entry => match entry.delta.getStr "id" with
    | none => known
    | some id =>
      if entry.complete || entry.metadata then if trim id = "" then known else id
      else known ++ id) ""

/-- An entry is of another call than those before it at its place: if the complete message that it stands in has one of
them too, or if it replaces the identifier by another one. -/
def ToolEntry.startsAnother (call : List ToolEntry) (entry : ToolEntry) : Bool :=
  (entry.complete && call.any fun other => other.message = entry.message) ||
    ((entry.complete || entry.metadata) && trim (knownId call) ≠ "" &&
      (entry.delta.getStr "id").any fun id => trim id ≠ "" && trim id ≠ trim (knownId call))

/-- The calls of the entries of a place, the first of which has some of its entries already. -/
def splitCalls (call : List ToolEntry) : List ToolEntry → List (List ToolEntry)
  | [] => [call]
  | entry :: entries =>
    if entry.startsAnother call then call :: splitCalls [entry] entries else splitCalls (call ++ [entry]) entries

def callsOf : List ToolEntry → List (List ToolEntry)
  | [] => []
  | entry :: entries => splitCalls [entry] entries

/-- The calls of all entries, by their places. -/
def entryCalls (entries : List (Nat × ToolEntry)) : List (List ToolEntry) :=
  (List.range (places entries)).flatMap fun place => callsOf (entriesAt entries place)

/-- No entry is of another call than those before it. -/
def OneCall (call : List ToolEntry) : List ToolEntry → Prop
  | [] => True
  | entry :: entries => entry.startsAnother call = false ∧ OneCall (call ++ [entry]) entries

instance decidableOneCall : ∀ (call entries : List ToolEntry), Decidable (OneCall call entries)
  | _, [] => inferInstanceAs (Decidable True)
  | call, entry :: entries =>
    have := decidableOneCall (call ++ [entry]) entries
    inferInstanceAs (Decidable (entry.startsAnother call = false ∧ OneCall (call ++ [entry]) entries))

/-- **No entry takes the place of another call.** -/
def Undisplaced (entries : List (Nat × ToolEntry)) : Prop :=
  ∀ place < places entries, OneCall [] (entriesAt entries place)

instance (entries : List (Nat × ToolEntry)) : Decidable (Undisplaced entries) := Nat.decidableBallLT _ _

theorem startsAnother_nil (entry : ToolEntry) : entry.startsAnother [] = false := by
  simp [ToolEntry.startsAnother, knownId, show trim "" = "" from rfl]

theorem splitCalls_of_oneCall {call entries : List ToolEntry} (h : OneCall call entries) :
    splitCalls call entries = [call ++ entries] := by
  induction entries generalizing call with
  | nil => rw [splitCalls, List.append_nil]
  | cons entry entries ih =>
    rw [splitCalls, h.1, if_neg Bool.false_ne_true, ih h.2, List.append_assoc]
    rfl

theorem splitCalls_length (call entries : List ToolEntry) :
    1 ≤ (splitCalls call entries).length ∧ ((splitCalls call entries).length = 1 → OneCall call entries) := by
  induction entries generalizing call with
  | nil => exact ⟨Nat.le_refl _, fun _ => trivial⟩
  | cons entry entries ih =>
    rw [splitCalls]
    cases hanother : entry.startsAnother call with
    | true =>
      have hpos := (ih [entry]).1
      rw [if_pos rfl, List.length_cons]
      exact ⟨by omega, fun h => by omega⟩
    | false =>
      rw [if_neg Bool.false_ne_true]
      exact ⟨(ih _).1, fun h => ⟨hanother, (ih _).2 h⟩⟩

theorem callsOf_of_oneCall {entries : List ToolEntry} (h : OneCall [] entries) :
    callsOf entries = if entries = [] then [] else [entries] := by
  cases entries with
  | nil => rfl
  | cons entry entries => exact splitCalls_of_oneCall h.2

/-- A place with an entry has a call, and if it has one alone no entry is of another. -/
theorem callsOf_length (entries : List ToolEntry) : (if entries = [] then 0 else 1) ≤ (callsOf entries).length ∧
    ((callsOf entries).length ≤ (if entries = [] then 0 else 1) → OneCall [] entries) := by
  cases entries with
  | nil => exact ⟨Nat.le_refl _, fun _ => trivial⟩
  | cons entry entries =>
    obtain ⟨hpos, hone⟩ := splitCalls_length [entry] entries
    refine ⟨hpos, fun h => ⟨startsAnother_nil entry, hone ?_⟩⟩
    exact Nat.le_antisymm h hpos

/-! ## The assembler has all calls -/

namespace ToolCallAssembler

variable {a : ToolCallAssembler}

/-- The calls that were observed, by their places. -/
def observedPlaces (a : ToolCallAssembler) : List Nat :=
  (List.range a.calls.length).filter fun place => (a.callAt place).observed

theorem observedCalls_eq (a : ToolCallAssembler) : a.observedCalls = a.observedPlaces.map a.callAt := by
  rw [observedPlaces, observedCalls]
  conv_lhs => rw [a.calls_eq]
  exact List.filter_map

end ToolCallAssembler

namespace Reflects

variable {entries : List (Nat × ToolEntry)} {a : ToolCallAssembler}

/-- A place without an entry is empty. -/
theorem filled (h : Reflects entries a) : a.Filled := by
  intro call hcall hobserved
  rw [a.calls_eq] at hcall
  obtain ⟨place, -, rfl⟩ := List.mem_map.1 hcall
  rw [h.callAt] at hobserved ⊢
  have hempty : entriesAt entries place = [] := by
    by_contra hne
    rw [(entriesCall_observed _).2 hne] at hobserved
    cases hobserved
  rw [hempty]
  rfl

/-- The places with an entry are those of the calls that were observed. -/
theorem observedPlaces (h : Reflects entries a) :
    a.observedPlaces = (List.range (places entries)).filter fun place => decide (entriesAt entries place ≠ []) := by
  rw [ToolCallAssembler.observedPlaces, h.length]
  apply List.filter_congr
  intro place _
  rw [Bool.eq_iff_iff, h.callAt, entriesCall_observed, decide_eq_true_iff]

/-- **The assembler has all calls** where no entry takes the place of another: at each place one. -/
theorem entryCalls_eq (h : Reflects entries a) (hplaces : Undisplaced entries) :
    entryCalls entries = a.observedPlaces.map (entriesAt entries) := by
  have hcalls (ps : List Nat) (hps : ∀ place ∈ ps, place < places entries) :
      (ps.flatMap fun place => callsOf (entriesAt entries place)) =
        (ps.filter fun place => decide (entriesAt entries place ≠ [])).map (entriesAt entries) := by
    induction ps with
    | nil => rfl
    | cons place ps ih =>
      rw [List.forall_mem_cons] at hps
      rw [List.flatMap_cons, ih hps.2, callsOf_of_oneCall (hplaces place hps.1)]
      by_cases hempty : entriesAt entries place = []
      · rw [if_pos hempty, List.filter_cons_of_neg (by simp [hempty])]
        rfl
      · rw [if_neg hempty, List.filter_cons_of_pos (by simp [hempty])]
        rfl
  rw [h.observedPlaces]
  exact hcalls _ fun place hplace => List.mem_range.1 hplace

theorem entryCalls_observed (h : Reflects entries a) (hplaces : Undisplaced entries) :
    (entryCalls entries).map entriesCall = a.observedCalls := by
  rw [h.entryCalls_eq hplaces, a.observedCalls_eq, List.map_map]
  apply List.map_congr_left
  intro place _
  rw [Function.comp_apply, h.callAt]

/-- **If it has as many as there are**, no entry takes the place of another. -/
theorem undisplaced (h : Reflects entries a) (hlength : (entryCalls entries).length ≤ a.observedCalls.length) :
    Undisplaced entries := by
  have hcount (ps : List Nat) : (ps.filter fun place => decide (entriesAt entries place ≠ [])).length ≤
        (ps.flatMap fun place => callsOf (entriesAt entries place)).length ∧
      ((ps.flatMap fun place => callsOf (entriesAt entries place)).length ≤
        (ps.filter fun place => decide (entriesAt entries place ≠ [])).length →
          ∀ place ∈ ps, OneCall [] (entriesAt entries place)) := by
    induction ps with
    | nil => exact ⟨Nat.le_refl _, fun _ place hplace => absurd hplace List.not_mem_nil⟩
    | cons place ps ih =>
      obtain ⟨hmore, hone⟩ := callsOf_length (entriesAt entries place)
      have hfirst : ((place :: ps).filter fun place => decide (entriesAt entries place ≠ [])).length =
          (if entriesAt entries place = [] then 0 else 1) +
            (ps.filter fun place => decide (entriesAt entries place ≠ [])).length := by
        by_cases hempty : entriesAt entries place = []
        · rw [if_pos hempty, List.filter_cons_of_neg (by simp [hempty]), Nat.zero_add]
        · rw [if_neg hempty, List.filter_cons_of_pos (by simp [hempty]), List.length_cons, Nat.add_comm]
      rw [hfirst, List.flatMap_cons, List.length_append]
      refine ⟨by omega, fun hle => ?_⟩
      rw [List.forall_mem_cons]
      exact ⟨hone (by omega), ih.2 (by omega)⟩
  rw [a.observedCalls_eq, List.length_map, h.observedPlaces] at hlength
  intro place hplace
  exact (hcount _).2 hlength place (List.mem_range.2 hplace)

end Reflects

/-! ## The entries of a response -/

/-- The steps of the values of the Responses API: of those that are not repetitions, by the last sequence number before and
the keys of the events without one. -/
def newSteps (codec : WireCodec) : Option Nat → List String → List Value → List (List ToolStep)
  | _, _, [] => []
  | last, seen, value :: values =>
    if looksLikeResponsesStreamValue value then
      match (value.get "sequence_number").bind Value.asU64 with
      | some sequence =>
        (if last = some sequence then [] else responsesToolSteps value) :: newSteps codec (some sequence) seen values
      | none => match eventKey codec value with
        | some key =>
          if key ∈ seen then [] :: newSteps codec last seen values
          else responsesToolSteps value :: newSteps codec last (key :: seen) values
        | none => responsesToolSteps value :: newSteps codec last seen values
    else [] :: newSteps codec last seen values

/-- The steps of the values of a response, after some of them. -/
def valuesToolSteps (codec : WireCodec) (mode : OpenAiApiMode) (last : Option Nat) (seen : List String)
    (values : List Value) : List (List ToolStep) :=
  match mode with
  | .chatCompletions => values.map chatToolSteps
  | .responses => newSteps codec last seen values

/-- The entries of the values of a response, each with the place where it belongs. -/
def responseEntries (codec : WireCodec) (config : DecoderConfig) (values : List Value) : List (Nat × ToolEntry) :=
  placed (toolEntries config.start.tools.metadataSnapshots config.start.tools.geminiContract
    (numberedSteps (valuesToolSteps codec config.mode none [] values)))

namespace ResponsesTurnState

variable {codec : WireCodec} {s s' : ResponsesTurnState} {allow : Bool} {value : Value} {calls : List SinkEvent}

/-- **A value that is taken** does its steps if it is new, and is remembered. -/
theorem applyValue_newSteps (h : s.applyValue codec allow value = (.ok s', calls)) (values : List Value) :
    ∃ steps, s'.tools = s.tools.run steps ∧ newSteps codec s.lastSequenceNumber s.seenEventKeys (value :: values) =
      steps :: newSteps codec s'.lastSequenceNumber s'.seenEventKeys values := by
  rcases applyValue_cases h with ⟨hlooks, rfl, -⟩ | ⟨hlooks, hrepeated, -⟩ | ⟨s₁, calls', hlooks, hnew, htyped, -⟩
  · exact ⟨[], rfl, by rw [newSteps, hlooks, if_neg Bool.false_ne_true]⟩
  · refine ⟨[], ?_, ?_⟩
    · obtain ⟨lastSequenceNumber, seenEventKeys, rfl⟩ := acceptEvent_frame hrepeated
      rfl
    · unfold acceptEvent at hrepeated
      rw [newSteps, if_pos hlooks]
      cases hsequence : (value.get "sequence_number").bind Value.asU64 with
      | some sequence =>
        simp only [hsequence] at hrepeated ⊢
        cases hlast : s.lastSequenceNumber with
        | some previous =>
          simp only [hlast] at hrepeated
          split at hrepeated
          · rename_i heq
            cases hrepeated
            rw [heq, if_pos rfl, hlast]
          · split at hrepeated <;> cases hrepeated
        | none =>
          simp only [hlast] at hrepeated
          cases hrepeated
      | none =>
        simp only [hsequence] at hrepeated ⊢
        cases hkey : eventKey codec value with
        | some key =>
          simp only [hkey] at hrepeated ⊢
          split at hrepeated <;> cases hrepeated
          rename_i hseen
          rw [if_pos hseen]
        | none =>
          simp only [hkey] at hrepeated
          cases hrepeated
  · have hkept : s₁.tools = s.tools := by
      obtain ⟨lastSequenceNumber, seenEventKeys, rfl⟩ := acceptEvent_frame hnew
      rfl
    obtain ⟨usage, endTurn, incompleteReason, hheeded⟩ := heeded_frame (s := s₁) value
    have hmemory := (applyTyped_changes htyped).memory
    have htools := applyTyped_tools htyped
    rw [hheeded] at hmemory htools
    obtain ⟨hlastKept, hseenKept⟩ := Prod.mk.inj hmemory
    refine ⟨responsesToolSteps value, hkept ▸ htools, ?_⟩
    unfold acceptEvent at hnew
    rw [newSteps, if_pos hlooks, hlastKept, hseenKept]
    cases hsequence : (value.get "sequence_number").bind Value.asU64 with
    | some sequence =>
      simp only [hsequence] at hnew ⊢
      cases hlast : s.lastSequenceNumber with
      | some previous =>
        simp only [hlast] at hnew
        split at hnew
        · cases hnew
        · rename_i hne
          split at hnew <;> cases hnew
          rw [if_neg (by simpa using Ne.symm hne)]
      | none =>
        simp only [hlast] at hnew
        cases hnew
        rfl
    | none =>
      simp only [hsequence] at hnew ⊢
      cases hkey : eventKey codec value with
      | some key =>
        simp only [hkey] at hnew ⊢
        split at hnew <;> cases hnew
        rename_i hunseen
        rw [if_neg hunseen]
      | none =>
        simp only [hkey] at hnew ⊢
        cases hnew
        rfl

end ResponsesTurnState

namespace TurnAssembly

variable {codec : WireCodec} {a a' : TurnAssembly} {values : List Value}

/-- **What the values of a response do to its tool calls.** -/
theorem applyValues_tools (h : (a.applyValues codec values).1 = .ok a') :
    a'.tools = a.tools.run (valuesToolSteps codec a.mode a.responses.state.lastSequenceNumber
      a.responses.state.seenEventKeys values).flatten := by
  induction values generalizing a with
  | nil =>
    cases h
    cases hmode : a'.mode <;> rfl
  | cons value values ih =>
    obtain ⟨a₁, ha₁, h⟩ := Sunk.attempt_eq_ok h
    have hrest := ih h
    rw [(applyValue_frame ha₁).1] at hrest
    unfold applyValue at ha₁
    cases hmode : a.mode with
    | chatCompletions =>
      simp only [hmode, Sunk.ok, Sunk.andThen, valuesToolSteps] at ha₁ hrest ⊢
      cases ha₁
      rw [hrest, List.map_cons, List.flatten_cons, ToolCallAssembler.run_append]
      simp only [tools, hmode, ChatCompletionsTurnAssembler.applyValue_tools]
    | responses =>
      simp only [hmode, valuesToolSteps] at ha₁ hrest ⊢
      obtain ⟨responses, hresponses, ha₁⟩ := Sunk.attempt_eq_ok ha₁
      cases ha₁
      rw [ResponsesTurnAssembler.applyValue] at hresponses
      obtain ⟨state, hstate, hresponses⟩ := Sunk.attempt_eq_ok hresponses
      cases hresponses
      obtain ⟨steps, htools, hsteps⟩ := ResponsesTurnState.applyValue_newSteps (Prod.ext hstate rfl) values
      rw [hrest, hsteps, List.flatten_cons, ToolCallAssembler.run_append]
      simp only [tools, hmode, htools]

end TurnAssembly

/-- **The assembler after the values of a response** has at each place what belongs there. -/
theorem reflects_response {codec : WireCodec} {config : DecoderConfig} {values : List Value} {a : TurnAssembly}
    (h : (config.start.applyValues codec values).1 = .ok a) : Reflects (responseEntries codec config values) a.tools := by
  have hstart : config.start.tools.calls = [] := by
    obtain ⟨mode, allow, ⟨deepseek, gemini⟩, contentType⟩ := config
    cases mode <;> cases deepseek <;> cases gemini <;> rfl
  have hrun := (Reflects.nil hstart).run (numberedSteps (valuesToolSteps codec config.mode none [] values))
  rw [numberedSteps_snd] at hrun
  rw [TurnAssembly.applyValues_tools h]
  exact hrun

end Aifluxon
