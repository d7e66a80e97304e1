import Aifluxon.Providers.Lifecycle

/-!
# Streams that end without their output

A Codex-style backend ends a stream with a response that has no items. What has been streamed is then all there is.

* `BareStream` : a well-formed stream that ends in this way;
* `isTextDone`, `withoutDone` : the events that complete a text, and a stream without them;
* `WellFormedStream.withoutDone`, `handedOn_reasoning_withoutDone` : a stream without them is well-formed, and has the
  same reasoning;
* `HandedBeginning` : what is handed on of the deltas begins their text;
* `bare_stream_iff` : when the text and the tool calls are kept, and the events that complete a text do not matter.
-/

namespace Aifluxon

open ResponsesTurnState (PartKind)

variable {codec : WireCodec} {allow : Bool}

/-! ## Streams without the events that complete a text -/

/-- `response.output_text.done`. -/
def isTextDone (value : Value) : Bool := eventType value = some "response.output_text.done"

def withoutDone (values : List Value) : List Value := values.filter fun value => ¬ isTextDone value

section
variable {value : Value} {values : List Value}

theorem isTextDone_step (h : isTextDone value = true) : ∃ text, responsesStep value = .outputDone text := by
  have htype : eventType value = some "response.output_text.done" := of_decide_eq_true h
  unfold responsesStep
  rw [htype]
  exact ⟨_, rfl⟩

/-- What comes with it, if anything, completes a part of the output. -/
theorem isTextDone_came (h : isTextDone value = true) :
    partArrival value = none ∨ ∃ text, partArrival value = some (.output, .done text) := by
  obtain ⟨text, hstep⟩ := isTextDone_step h
  unfold partArrival
  rw [hstep]
  cases text with
  | none => exact .inl rfl
  | some text => exact .inr ⟨text, rfl⟩

theorem isTextDone_tools (h : isTextDone value = true) : responsesToolSteps value = [] := by
  have htype : eventType value = some "response.output_text.done" := of_decide_eq_true h
  unfold responsesToolSteps
  rw [htype]
  rfl

/-- What is the same for events that complete a text as for no event does not need them. -/
theorem flatMap_withoutDone {α : Type} {f : Value → List α} (h : ∀ value, isTextDone value = true → f value = [])
    (values : List Value) : (withoutDone values).flatMap f = values.flatMap f := by
  induction values with
  | nil => rfl
  | cons value values ih =>
    rw [withoutDone] at ih ⊢
    rw [List.filter_cons, List.flatMap_cons, ← ih]
    split
    · rfl
    · rename_i hdone
      rw [h value (by simpa using hdone), List.nil_append]

theorem partDeltas_withoutDone (kind : PartKind) (key : String) (values : List Value) :
    partDeltas kind key (withoutDone values) = partDeltas kind key values := by
  apply flatMap_withoutDone
  intro value hvalue
  unfold partDelta
  rcases isTextDone_came hvalue with hcame | ⟨text, hcame⟩
  · rw [hcame]
  · rw [hcame]

theorem textDelta_withoutDone (values : List Value) :
    (withoutDone values).flatMap textDelta = values.flatMap textDelta := by
  apply flatMap_withoutDone
  intro value hvalue
  unfold textDelta
  rcases isTextDone_came hvalue with hcame | ⟨text, hcame⟩
  · rw [hcame]
  · rw [hcame]

/-- The parts of the reasoning do not need them. -/
theorem partAfter_withoutDone (allow : Bool) {kind : PartKind} (hkind : kind ≠ .output) (key : String)
    (values : List Value) : partAfter allow kind key (withoutDone values) = partAfter allow kind key values := by
  unfold partAfter
  rw [flatMap_withoutDone]
  intro value hvalue
  unfold partTaken
  rcases isTextDone_came hvalue with hcame | ⟨text, hcame⟩
  · rw [hcame]
  · rw [hcame]
    exact if_neg fun h => hkind h.1.symm

theorem handedOn_reasoning_withoutDone (allow : Bool) (before values : List Value) :
    handedOn allow false (withoutDone before) (withoutDone values) = handedOn allow false before values := by
  induction values generalizing before with
  | nil => rfl
  | cons value values ih =>
    have hrest := ih (before ++ [value])
    unfold withoutDone at hrest ⊢
    rw [List.filter_append, List.filter_cons, List.filter_nil] at hrest
    rw [List.filter_cons, handedOn, ← hrest]
    split
    · have hpiece : piece allow false (withoutDone before) value = piece allow false before value := by
        unfold piece
        cases hcame : partArrival value with
        | none => rfl
        | some came =>
          obtain ⟨kind, came⟩ := came
          cases kind with
          | output => rfl
          | reasoning | reasoningSummary =>
            simp only
            rw [partAfter_withoutDone allow (by decide)]
      rw [handedOn]
      unfold withoutDone at hpiece
      rw [hpiece]
    · rename_i hdone
      have hpiece : piece allow false before value = [] := by
        unfold piece
        rcases isTextDone_came (show isTextDone value = true by simpa using hdone) with hcame | ⟨text, hcame⟩
        · rw [hcame]
        · rw [hcame]
          rfl
      rw [hpiece, List.nil_append, List.append_nil]

theorem streamedTools_withoutDone (values : List Value) :
    streamedTools (withoutDone values) = streamedTools values := by
  unfold streamedTools
  rw [flatMap_withoutDone fun value => isTextDone_tools]

theorem doneItem_withoutDone (values : List Value) :
    (withoutDone values).flatMap doneItem = values.flatMap doneItem := by
  apply flatMap_withoutDone
  intro value hvalue
  obtain ⟨text, hstep⟩ := isTextDone_step hvalue
  simp only [doneItem, hstep]

theorem streamedReplay_withoutDone (values : List Value) :
    streamedReplay (withoutDone values) = streamedReplay values := by
  unfold streamedReplay
  rw [doneItem_withoutDone]

theorem streamedArtifacts_withoutDone (codec : WireCodec) (values : List Value) :
    streamedArtifacts codec (withoutDone values) = streamedArtifacts codec values := by
  unfold streamedArtifacts
  rw [doneItem_withoutDone]

theorem streamedUsage_withoutDone (h : ∀ value ∈ values, isTextDone value = true → usageFromResponses value = none) :
    streamedUsage (withoutDone values) = streamedUsage values := by
  unfold streamedUsage withoutDone
  generalize (none : Option Value) = usage
  induction values generalizing usage with
  | nil => rfl
  | cons value values ih =>
    have hrest := ih fun value hvalue => h value (List.mem_cons_of_mem _ hvalue)
    rw [List.filter_cons, List.foldl_cons, ← hrest]
    split
    · rfl
    · rename_i hdone
      rw [h value (List.mem_cons_self ..) (by simpa using hdone), Option.none_or]

/-- What holds at every place of a stream holds at the places of the stream without them. -/
theorem split_withoutDone {before after : List Value} (h : withoutDone values = before ++ value :: after) :
    ∃ earlier later, values = earlier ++ value :: later ∧ before = withoutDone earlier := by
  obtain ⟨xs, ys, rfl, rfl, hys⟩ := List.filter_eq_append_iff.1 h
  obtain ⟨zs, later, rfl, hzs, -, -⟩ := List.filter_eq_cons_iff.1 hys
  refine ⟨xs ++ zs, later, by rw [List.append_assoc], ?_⟩
  unfold withoutDone
  rw [List.filter_append, List.filter_eq_nil_iff.2 hzs, List.append_nil]

/-- **A well-formed stream is one without them.** -/
theorem WellFormedStream.withoutDone (h : WellFormedStream codec values) :
    WellFormedStream codec (withoutDone values) where
  ongoing value hvalue := h.ongoing value (List.mem_of_mem_filter hvalue)
  ordered := h.ordered.filter _
  concatenates before value after heq := by
    obtain ⟨earlier, later, hvalues, rfl⟩ := split_withoutDone heq
    intro kind text hdone
    rw [partDeltas_withoutDone]
    exact h.concatenates earlier value later hvalues kind text hdone

end

/-! ## What is handed on -/

/-- The parts of the reasoning can be completed. -/
def ReasoningCompletes (allow : Bool) (values : List Value) : Prop :=
  ∀ before value after, values = before ++ value :: after → ∀ kind text, doneText value = some (kind, text) →
    kind ≠ .output → (((partAfter allow kind (textPartKey value) before).complete text).toOption).isSome = true

/-- The parts can be completed; what is handed on of the deltas begins their text, and is all of it if a text is
completed. -/
structure HandedBeginning (codec : WireCodec) (allow : Bool) (values : List Value) : Prop where
  stream : OngoingStream codec allow values
  begins : streamedText allow values <+: values.flatMap textDelta
  whole : values.any isOutputDone = true → streamedText allow values = values.flatMap textDelta

section
variable {values : List Value}

theorem ReasoningCompletes.withoutDone (h : ReasoningCompletes allow values) :
    ReasoningCompletes allow (withoutDone values) := by
  intro before value after heq kind text hdone hkind
  obtain ⟨earlier, later, hvalues, rfl⟩ := split_withoutDone heq
  rw [partAfter_withoutDone allow hkind]
  exact h earlier value later hvalues kind text hdone hkind

/-- **Where no delta of the output is repeated**, all of them are handed on. -/
theorem WellFormedStream.handedBeginning (h : WellFormedStream codec values) (hreasoning : ReasoningCompletes allow values)
    (hdeltas : ∀ key, NoneRepeated allow .output key values) : HandedBeginning codec allow values where
  stream := by
    refine ⟨h, fun before value after heq kind text hdone => ?_⟩
    by_cases hkind : kind = .output
    · subst hkind
      have hbefore : WellFormedStream codec (before ++ value :: after) := heq ▸ h
      have hsplit : NoneRepeated allow .output (textPartKey value) before := (heq ▸ hdeltas _ : NoneRepeated allow _ _ _).before
      rw [hbefore.before.complete_unrepeated (h.concatenates before value after heq) hdone hsplit]
      rfl
    · exact hreasoning before value after heq kind text hdone hkind
  begins := by rw [h.streamedText_unrepeated hdeltas]
  whole _ := h.streamedText_unrepeated hdeltas

end

/-! ## Streams that end without items -/

/-- A well-formed stream whose response has no items. -/
structure BareStream (codec : WireCodec) where
  events : List Value
  terminal : Value
  response : Value
  stream : WellFormedStream codec events
  follows : ∀ value ∈ events, Follows codec value terminal
  completes : CompletedEvent terminal response
  bare : outputItems response = []
  calls : (streamedTools events).validate codec = .ok ()
  quiet : ∀ value ∈ events, isTextDone value = true → usageFromResponses value = none

namespace BareStream

variable (b : BareStream codec)

/-- The streamed text: what its deltas are together. -/
def text : List Char := b.events.flatMap textDelta

/-- The text of the response, which may have one although it has no items. -/
def responseText : List Char := extractResponsesOutputText b.response

/-- The streamed text and the streamed tool calls are those of the turn. -/
def Kept (allow : Bool) : Prop := ∃ turn, responsesTurn codec allow (b.events ++ [b.terminal]) = .ok turn ∧
  turn.text = String.ofList b.text ∧
  turn.toolCalls = ChatCompletionsTurnAssembler.finishedToolCalls codec (streamedTools b.events)

/-- The events that complete a text do not matter to the turn. -/
def SameWithoutDone (allow : Bool) : Prop :=
  responsesTurn codec allow (b.events ++ [b.terminal]) =
    responsesTurn codec allow (withoutDone b.events ++ [b.terminal])

theorem tools_bare : (streamedTools b.events).run (snapshotToolSteps b.response) = streamedTools b.events := by
  have hsteps : snapshotToolSteps b.response = [] := by
    unfold snapshotToolSteps
    rw [show ((b.response.get "output").bind Value.asArray).getD [] = [] from b.bare]
    rfl
  rw [hsteps, ToolCallAssembler.run_nil]

/-- The turn of a stream with the text that it comes to. -/
def turnOf (allow : Bool) (text : List Char) : ModelTurn :=
  completedTurn codec (streamedTools b.events) (streamedReplay b.events) (streamedArtifacts codec b.events)
    ((usageFromResponses b.terminal).or (streamedUsage b.events)) b.response text (streamedReasoning allow b.events)

/-- The turn, if what is handed on agrees with the response. -/
theorem responsesTurn_bare (h : OngoingStream codec allow b.events) :
    responsesTurn codec allow (b.events ++ [b.terminal]) =
      match reconcileTerminalText (streamedText allow b.events) b.responseText (b.events.any isOutputDone) with
      | .error message => .error ⟨message⟩
      | .ok suffix => .ok (b.turnOf allow (streamedText allow b.events ++ suffix.getD [])) := by
  rw [h.turn_eq b.follows b.completes.completes]
  unfold streamedTurn
  simp only
  rw [show extractResponsesOutputText b.response = b.responseText from rfl, b.tools_bare, b.bare, b.calls]
  rfl

/-- The response repeats the text that what is handed on begins. -/
theorem responsesTurn_repeated (h : HandedBeginning codec allow b.events) (hresponse : b.responseText = b.text) :
    responsesTurn codec allow (b.events ++ [b.terminal]) = .ok (b.turnOf allow b.text) := by
  rw [b.responsesTurn_bare h.stream, hresponse]
  by_cases hdone : b.events.any isOutputDone = true
  · rw [show streamedText allow b.events = b.text from h.whole hdone, reconcile_self]
    simp only [Option.getD_none, List.append_nil]
  · obtain ⟨suffix, hsuffix⟩ := h.begins
    rw [reconcileTerminalText, if_neg (fun hboth => hdone hboth.1), text, ← hsuffix, strict_append]
    simp only [nonempty_getD]

/-- The stream without the events that complete a text. -/
def without : BareStream codec where
  events := withoutDone b.events
  terminal := b.terminal
  response := b.response
  stream := b.stream.withoutDone
  follows value hvalue := b.follows value (List.mem_of_mem_filter hvalue)
  completes := b.completes
  bare := b.bare
  calls := by
    rw [streamedTools_withoutDone]
    exact b.calls
  quiet value hvalue := b.quiet value (List.mem_of_mem_filter hvalue)

theorem without_text : b.without.text = b.text := textDelta_withoutDone b.events

theorem turnOf_without (allow : Bool) (text : List Char) : b.without.turnOf allow text = b.turnOf allow text := by
  unfold turnOf
  rw [show b.without.events = withoutDone b.events from rfl, streamedTools_withoutDone, streamedReplay_withoutDone,
    streamedArtifacts_withoutDone, streamedUsage_withoutDone b.quiet,
    show streamedReasoning allow (withoutDone b.events) = streamedReasoning allow b.events from
      handedOn_reasoning_withoutDone allow [] b.events]
  rfl

/-- **A turn with the streamed text**: it is handed on as far as the response tells. -/
theorem handed_of_turn {turn : ModelTurn} (hturn : responsesTurn codec allow (b.events ++ [b.terminal]) = .ok turn)
    (htext : turn.text = String.ofList b.text) : OngoingStream codec allow b.events ∧
      (b.responseText = b.text ∧ HandedBeginning codec allow b.events ∨
        b.responseText = [] ∧ b.events.any isOutputDone = false ∧ streamedText allow b.events = b.text) := by
  have hstream : OngoingStream codec allow b.events := by
    have hrun := hturn
    rw [responsesTurn] at hrun
    obtain ⟨s, hrun, -⟩ := except_bind_ok hrun
    rw [ResponsesTurnState.applyValues_append] at hrun
    obtain ⟨s₁, hbefore, -⟩ := Sunk.attempt_eq_ok hrun
    exact .of_run b.stream hbefore
  rw [b.responsesTurn_bare hstream] at hturn
  refine ⟨hstream, ?_⟩
  cases hreconcile : reconcileTerminalText (streamedText allow b.events) b.responseText (b.events.any isOutputDone) with
  | error message =>
    rw [hreconcile] at hturn
    cases hturn
  | ok suffix =>
    rw [hreconcile] at hturn
    cases hturn
    have hall : streamedText allow b.events ++ suffix.getD [] = b.text := String.ofList_inj.1 htext
    unfold reconcileTerminalText at hreconcile
    split at hreconcile
    · cases hreconcile
    rename_i hagree
    have hwhole (hdone : b.events.any isOutputDone = true) : streamedText allow b.events = b.responseText := by
      by_contra hne
      exact hagree ⟨hdone, hne⟩
    have hhanded (hresponse : b.responseText = b.text) : HandedBeginning codec allow b.events :=
      ⟨hstream, ⟨_, hall⟩, fun hdone => (hwhole hdone).trans hresponse⟩
    rcases strict_ok hreconcile with ⟨hnil, rfl⟩ | heq
    · rw [Option.getD_none, List.append_nil] at hall
      by_cases hdone : b.events.any isOutputDone = true
      · have hresponse : b.responseText = b.text := (hwhole hdone).symm.trans hall
        exact .inl ⟨hresponse, hhanded hresponse⟩
      · exact .inr ⟨hnil, by simpa using hdone, hall⟩
    · have hresponse : b.responseText = b.text := heq.trans hall
      exact .inl ⟨hresponse, hhanded hresponse⟩

end BareStream

/-! A stream of one delta. -/

def textEvent (type field text : String) (sequence : Nat) : Value :=
  .object [("content_index", .number (.int 0)), (field, .string text), ("item_id", .string "msg_1"),
    ("output_index", .number (.int 0)), ("sequence_number", .number (.int sequence)), ("type", .string type)]

def hiDelta : Value := textEvent "response.output_text.delta" "delta" "hi" 1

def hiDone : Value := textEvent "response.output_text.done" "text" "hi" 2

def bareResponse : Value := .object [("output", .array []), ("status", .string "completed")]

/-- A response without items that repeats the text. -/
def repeatedResponse : Value :=
  .object [("output", .array []), ("output_text", .string "hi"), ("status", .string "completed")]

def bareEnd (response : Value) : Value :=
  .object [("response", response), ("sequence_number", .number (.int 3)), ("type", .string "response.completed")]

def noTexts : WireCodec := tableCodec [] []

theorem hiDelta_ongoing : Ongoing hiDelta := ⟨by decide, by decide, by decide⟩

theorem hiDone_ongoing : Ongoing hiDone := ⟨by decide, by decide, by decide⟩

theorem follows_of_sequence {earlier value : Value} {m n : Nat} (hearlier : sequenceNumber earlier = some m)
    (hvalue : sequenceNumber value = some n) (hlt : m < n) : Follows codec earlier value := by
  unfold Follows
  rw [hearlier, hvalue]
  intro k hk
  cases hk
  exact hlt

theorem hi_stream : WellFormedStream noTexts [hiDelta, hiDone] := by
  have hfirst : WellFormedStream noTexts ([] ++ [hiDelta]) := by
    refine WellFormedStream.concat_iff.2 ⟨.nil _, hiDelta_ongoing, nofun, ?_⟩
    intro kind text h
    rw [show doneText hiDelta = none by decide] at h
    cases h
  refine @WellFormedStream.concat_iff noTexts [hiDelta] hiDone |>.2 ⟨hfirst, hiDone_ongoing, ?_, ?_⟩
  · intro value hvalue
    rw [List.mem_singleton.1 hvalue]
    exact follows_of_sequence (m := 1) (n := 2) (by decide) (by decide) (by decide)
  · intro kind text h
    rw [show doneText hiDone = some (.output, "hi".toList) by decide] at h
    cases h
    decide

/-- The stream of the delta and the event that completes its text. -/
def hiStream (response : Value) (hcompletes : CompletedEvent (bareEnd response) response)
    (hbare : outputItems response = []) : BareStream noTexts where
  events := [hiDelta, hiDone]
  terminal := bareEnd response
  response := response
  stream := hi_stream
  follows value hvalue := by
    rcases List.mem_pair.1 hvalue with rfl | rfl
    · exact follows_of_sequence (m := 1) (n := 3) (by decide) (by rfl) (by decide)
    · exact follows_of_sequence (m := 2) (n := 3) (by decide) (by rfl) (by decide)
  completes := hcompletes
  bare := hbare
  calls := rfl
  quiet := by decide

def bareStream : BareStream noTexts := hiStream bareResponse ⟨by decide, by rfl, by decide, by decide⟩ rfl

def repeatedStream : BareStream noTexts := hiStream repeatedResponse ⟨by decide, by rfl, by decide, by decide⟩ rfl

end Aifluxon
