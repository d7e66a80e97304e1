import Aifluxon.Providers.Redelivery
import Aifluxon.Providers.ToolRuns

/-!
# The events of a Responses stream before its end

* `ResponsesStep`, `responsesStep`, `applyTyped_step` : what an event does by its type, as data;
* `Follows`, `Remembers`, `acceptEvent_follows` : an event that comes in its order is new;
* `Ongoing` : an event that says nothing of the end;
* `partAfter`, `handedOn`, `streamedTools` : what events come to, read off the events;
* `WellFormedStream` : the events come in their order, and what completes a part says what its deltas are together;
* `WellFormedStream.streamedText_unrepeated`, `unrepeated_of_text` : no delta is taken as a snapshot exactly when the
  text is what the deltas are together;
* `After`, `OngoingStream`, `OngoingStream.run` : the state after events whose parts can be completed.
-/

namespace Aifluxon

open ResponsesTurnState (PartKind)

/-! ## What an event does -/

/-- What an event does by its type. -/
inductive ResponsesStep where
  | keep
  | push (kind : PartKind) (delta : List Char)
  | complete (kind : PartKind) (text : List Char)
  | outputDone (text : Option (List Char))
  | call (index : Nat) (item : Value)
  | arguments (index : Nat) (arguments : String) (snapshot : Bool)
  | item (index : Nat) (item : Value)
  | snapshot (response : Value)

def responsesStep (value : Value) : ResponsesStep :=
  let delta := (value.getStr "delta").map String.toList
  let push (kind : PartKind) : ResponsesStep := (delta.map (.push kind)).getD .keep
  let complete (kind : PartKind) : ResponsesStep :=
    ((value.getStr "text").map fun text => .complete kind text.toList).getD .keep
  let placed (step : Nat → Value → ResponsesStep) : ResponsesStep :=
    match outputIndex value, value.get "item" with
    | some index, some item => step index item
    | _, _ => .keep
  match eventType value with
  | some "response.reasoning_summary_part.added" =>
    let text := (((value.pointer ["part", "text"]).bind Value.asStr).getD "").toList
    if text = [] then .keep else .push .reasoningSummary text
  | some "response.reasoning_summary_text.delta" => push .reasoningSummary
  | some "response.reasoning_summary_text.done" => complete .reasoningSummary
  | some "response.reasoning_text.delta" => push .reasoning
  | some "response.reasoning_text.done" => complete .reasoning
  | some "response.output_text.delta" | some "response.refusal.delta" => push .output
  | some "response.output_text.done" | some "response.refusal.done" =>
    .outputDone ((((value.get "text").or (value.get "refusal")).bind Value.asStr).map String.toList)
  | some "response.output_item.added" => placed .call
  | some "response.function_call_arguments.delta" => match outputIndex value, value.getStr "delta" with
    | some index, some delta => .arguments index delta false
    | _, _ => .keep
  | some "response.function_call_arguments.done" => match outputIndex value, value.getStr "arguments" with
    | some index, some arguments => .arguments index arguments true
    | _, _ => .keep
  | some "response.output_item.done" => placed .item
  | _ => ((terminalSnapshot value).map .snapshot).getD .keep

namespace ResponsesTurnState

variable {codec : WireCodec} {allow : Bool} {s s' : ResponsesTurnState} {value : Value} {before : List Value}

def applyStep (codec : WireCodec) (s : ResponsesTurnState) (allow : Bool) (value : Value) :
    ResponsesStep → Sunk (Except ProviderError ResponsesTurnState)
  | .keep => (.ok s, [])
  | .push kind delta => (s.pushPart kind allow value delta).ok
  | .complete kind text => s.completePart kind value text
  | .outputDone none => (.ok { s with sawOutputDone := true }, [])
  | .outputDone (some text) => { s with sawOutputDone := true }.completePart .output value text
  | .call index item => (.ok (s.applyFunctionCallItem index item false), [])
  | .arguments index arguments snapshot => (.ok (s.applyArguments index arguments snapshot), [])
  | .item index item => (.ok (s.applyItem codec index item), [])
  | .snapshot response => s.applyTerminalSnapshot codec response

/-- **An event does its step.** -/
theorem applyTyped_step (s : ResponsesTurnState) (value : Value) :
    s.applyTyped codec allow value = s.applyStep codec allow value (responsesStep value) := by
  unfold applyTyped responsesStep outputIndex
  simp only
  generalize eventType value = type
  split
  · split <;> rfl
  · cases value.getStr "delta" <;> rfl
  · cases value.getStr "text" <;> rfl
  · cases value.getStr "delta" <;> rfl
  · cases value.getStr "text" <;> rfl
  · cases value.getStr "delta" <;> rfl
  · cases value.getStr "delta" <;> rfl
  · cases ((value.get "text").or (value.get "refusal")).bind Value.asStr <;> rfl
  · cases ((value.get "text").or (value.get "refusal")).bind Value.asStr <;> rfl
  · cases (value.get "output_index").bind Value.asU64 <;> cases value.get "item" <;> rfl
  · cases (value.get "output_index").bind Value.asU64 <;> cases value.getStr "delta" <;> rfl
  · cases (value.get "output_index").bind Value.asU64 <;> cases value.getStr "arguments" <;> rfl
  · cases (value.get "output_index").bind Value.asU64 <;> cases value.get "item" <;> rfl
  · try simp only
    cases terminalSnapshot value <;> rfl

/-- Without a snapshot there is no step of one. -/
theorem responsesStep_ne_snapshot (h : terminalSnapshot value = none) (response : Value) :
    responsesStep value ≠ .snapshot response := by
  unfold responsesStep
  rw [h]
  simp only
  split
  · split <;> nofun
  · cases value.getStr "delta" <;> nofun
  · cases value.getStr "text" <;> nofun
  · cases value.getStr "delta" <;> nofun
  · cases value.getStr "text" <;> nofun
  · cases value.getStr "delta" <;> nofun
  · cases value.getStr "delta" <;> nofun
  · nofun
  · nofun
  · split <;> nofun
  · split <;> nofun
  · split <;> nofun
  · split <;> nofun
  · nofun

/-- Only `outputDone` completes a part of the output. -/
theorem responsesStep_ne_complete (text : List Char) : responsesStep value ≠ .complete .output text := by
  unfold responsesStep
  simp only
  split
  · split <;> nofun
  · cases value.getStr "delta" <;> nofun
  · cases value.getStr "text" <;> nofun
  · cases value.getStr "delta" <;> nofun
  · cases value.getStr "text" <;> nofun
  · cases value.getStr "delta" <;> nofun
  · cases value.getStr "delta" <;> nofun
  · nofun
  · nofun
  · split <;> nofun
  · split <;> nofun
  · split <;> nofun
  · split <;> nofun
  · cases terminalSnapshot value <;> nofun

end ResponsesTurnState

/-! ## The order of the events -/

/-- An event that can come after another one: its sequence number is higher, or its key is another one. -/
def Follows (codec : WireCodec) (earlier value : Value) : Prop :=
  match sequenceNumber value with
  | some n => ∀ m, sequenceNumber earlier = some m → m < n
  | none => sequenceNumber earlier = none → ∀ key, eventKey codec value = some key →
    eventKey codec earlier ≠ some key

namespace ResponsesTurnState

variable {codec : WireCodec} {allow : Bool} {s s' : ResponsesTurnState} {value : Value} {before : List Value}

/-- What is remembered comes from events before. -/
structure Remembers (codec : WireCodec) (before : List Value) (s : ResponsesTurnState) : Prop where
  last : ∀ n, s.lastSequenceNumber = some n → ∃ v ∈ before, sequenceNumber v = some n
  keys : ∀ key ∈ s.seenEventKeys, ∃ v ∈ before, sequenceNumber v = none ∧ eventKey codec v = some key

/-- **An event that comes in its order is new.** -/
theorem acceptEvent_follows (h : Remembers codec before s) (hvalue : ∀ v ∈ before, Follows codec v value) :
    ∃ lastSequenceNumber seenEventKeys,
      s.acceptEvent codec value = .ok (true, { s with lastSequenceNumber, seenEventKeys }) ∧
        Remembers codec (before ++ [value]) { s with lastSequenceNumber, seenEventKeys } := by
  have hold {n : Nat} (hn : s.lastSequenceNumber = some n) : ∃ v ∈ before ++ [value], sequenceNumber v = some n := by
    obtain ⟨v, hv, hseq⟩ := h.last n hn
    exact ⟨v, List.mem_append_left _ hv, hseq⟩
  have hkeys {key : String} (hkey : key ∈ s.seenEventKeys) :
      ∃ v ∈ before ++ [value], sequenceNumber v = none ∧ eventKey codec v = some key := by
    obtain ⟨v, hv, hseq⟩ := h.keys key hkey
    exact ⟨v, List.mem_append_left _ hv, hseq⟩
  unfold acceptEvent
  rw [show (value.get "sequence_number").bind Value.asU64 = sequenceNumber value from rfl]
  cases hsequence : sequenceNumber value with
  | some n =>
    have hself : ∀ m, some n = some m → ∃ v ∈ before ++ [value], sequenceNumber v = some m := by
      intro m hm
      exact ⟨value, by simp, by rw [hsequence, hm]⟩
    refine ⟨some n, s.seenEventKeys, ?_, hself, fun key hkey => hkeys hkey⟩
    cases hlast : s.lastSequenceNumber with
    | none => rfl
    | some previous =>
      obtain ⟨v, hv, hprevious⟩ := h.last previous hlast
      have hlt : previous < n := by
        have hfollows := hvalue v hv
        unfold Follows at hfollows
        rw [hsequence] at hfollows
        exact hfollows previous hprevious
      simp only
      rw [if_neg (by omega), if_neg (by omega)]
  | none =>
    cases hkey : eventKey codec value with
    | none => exact ⟨s.lastSequenceNumber, s.seenEventKeys, rfl, fun n hn => hold hn, fun key hkey => hkeys hkey⟩
    | some key =>
      have hnew : key ∉ s.seenEventKeys := by
        intro hmem
        obtain ⟨v, hv, hseq, hsame⟩ := h.keys key hmem
        have hfollows := hvalue v hv
        unfold Follows at hfollows
        rw [hsequence] at hfollows
        exact hfollows hseq key hkey hsame
      refine ⟨s.lastSequenceNumber, key :: s.seenEventKeys, ?_, fun n hn => hold hn, ?_⟩
      · simp only
        rw [if_neg hnew]
      · intro other hother
        rcases List.mem_cons.1 hother with rfl | hother
        · exact ⟨value, by simp, hsequence, hkey⟩
        · exact hkeys hother

end ResponsesTurnState

/-! ## What events come to -/

/-- An event of a stream that says nothing of its end. -/
structure Ongoing (value : Value) : Prop where
  event : isResponsesEvent value = true
  status : terminalStatus value = none
  output : terminalSnapshot value = none

/-- What comes to a part: a delta, or the text that completes it. -/
inductive PartText where
  | delta (text : List Char)
  | done (text : List Char)

/-- The kind of the part that an event is about, and what comes to it. -/
def partArrival (value : Value) : Option (PartKind × PartText) :=
  match responsesStep value with
  | .push kind delta => some (kind, .delta delta)
  | .complete kind text => some (kind, .done text)
  | .outputDone text => text.map fun text => (.output, .done text)
  | _ => none

/-- The delta of a part. -/
def partDelta (kind : PartKind) (key : String) (value : Value) : List (List Char) :=
  match partArrival value with
  | some (kind', .delta delta) => if kind' = kind ∧ textPartKey value = key then [delta] else []
  | _ => []

def partDeltas (kind : PartKind) (key : String) (values : List Value) : List (List Char) :=
  values.flatMap (partDelta kind key)

/-- What an event adds to the text, as it has come. -/
def textDelta (value : Value) : List Char :=
  match partArrival value with
  | some (.output, .delta delta) => delta
  | _ => []

/-- The text with which an event completes a part. -/
def doneText (value : Value) : Option (PartKind × List Char) :=
  match partArrival value with
  | some (kind, .done text) => some (kind, text)
  | _ => none

/-- A text takes what comes to its part. -/
def TextDeltaReconciler.take (allow : Bool) (r : TextDeltaReconciler) : PartText →
    TextDeltaReconciler × Option (List Char)
  | .delta delta => r.pushCompatible delta false allow
  | .done text => match r.complete text with
    | .ok result => result
    | .error _ => (r, none)

/-- What comes to a part by an event. -/
def partTaken (kind : PartKind) (key : String) (value : Value) : List PartText :=
  match partArrival value with
  | some (kind', came) => if kind' = kind ∧ textPartKey value = key then [came] else []
  | none => []

/-- A part after what has come to it. -/
def TextDeltaReconciler.takeAll (allow : Bool) (r : TextDeltaReconciler) (texts : List PartText) : TextDeltaReconciler :=
  texts.foldl (fun r came => (r.take allow came).1) r

def partAfter (allow : Bool) (kind : PartKind) (key : String) (values : List Value) : TextDeltaReconciler :=
  .takeAll allow .default (values.flatMap (partTaken kind key))

/-- What comes to the output parts is text; the rest is reasoning. -/
def isText (kind : PartKind) : Bool := kind = .output

/-- What an event adds to the text, or to the reasoning. -/
def piece (allow text : Bool) (before : List Value) (value : Value) : List Char :=
  match partArrival value with
  | some (kind, came) =>
    if isText kind = text then ((partAfter allow kind (textPartKey value) before).take allow came).2.getD [] else []
  | none => []

/-- What events add to the text, or to the reasoning, after others. -/
def handedOn (allow text : Bool) : List Value → List Value → List Char
  | _, [] => []
  | before, value :: values => piece allow text before value ++ handedOn allow text (before ++ [value]) values

def streamedText (allow : Bool) (values : List Value) : List Char := handedOn allow true [] values

def streamedReasoning (allow : Bool) (values : List Value) : List Char := handedOn allow false [] values

def streamedTools (values : List Value) : ToolCallAssembler :=
  ToolCallAssembler.default.run (values.flatMap responsesToolSteps)

/-- The items that are done. -/
def doneItem (value : Value) : List Value :=
  match responsesStep value with
  | .item _ item => [item]
  | _ => []

/-- An item that is kept for the next request. -/
def ReplayState.keep (replay : ReplayState) (item : Value) : ReplayState :=
  if eventType item = some "reasoning" ∨ eventType item = some "web_search_call" then replay.upsert item else replay

def streamedReplay (values : List Value) : ReplayState := (values.flatMap doneItem).foldl ReplayState.keep ⟨[]⟩

def streamedArtifacts (codec : WireCodec) (values : List Value) : GeneratedArtifactState :=
  (values.flatMap doneItem).foldl (GeneratedArtifactState.capture codec) ⟨[], []⟩

def streamedUsage (values : List Value) : Option Value :=
  values.foldl (fun usage value => (usageFromResponses value).or usage) none

/-- An event that completes a part of the output. -/
def isOutputDone (value : Value) : Bool :=
  match responsesStep value with
  | .outputDone _ => true
  | _ => false

/-- An event that completes a part says what its deltas are together. -/
def DoneConcatenates (before : List Value) (value : Value) : Prop :=
  ∀ kind text, doneText value = some (kind, text) → text = (partDeltas kind (textPartKey value) before).flatten

/-- A part can be completed: what has been handed on of it begins its text. -/
def Completable (allow : Bool) (before : List Value) (value : Value) : Prop :=
  ∀ kind text, doneText value = some (kind, text) →
    (((partAfter allow kind (textPartKey value) before).complete text).toOption).isSome = true

theorem handedOn_append (allow text : Bool) (before xs ys : List Value) : handedOn allow text before (xs ++ ys) =
    handedOn allow text before xs ++ handedOn allow text (before ++ xs) ys := by
  induction xs generalizing before with
  | nil => simp [handedOn]
  | cons x xs ih => simp [handedOn, ih]

/-! ### One more event -/

section
variable (allow : Bool) (values : List Value) (value : Value)

theorem handedOn_concat (text : Bool) : handedOn allow text [] (values ++ [value]) =
    handedOn allow text [] values ++ piece allow text values value := by
  rw [handedOn_append]
  simp [handedOn]

theorem streamedTools_concat : streamedTools (values ++ [value]) =
    (streamedTools values).run (responsesToolSteps value) := by simp [streamedTools]

theorem streamedReplay_concat : streamedReplay (values ++ [value]) =
    (doneItem value).foldl ReplayState.keep (streamedReplay values) := by simp [streamedReplay]

theorem streamedArtifacts_concat (codec : WireCodec) : streamedArtifacts codec (values ++ [value]) =
    (doneItem value).foldl (GeneratedArtifactState.capture codec) (streamedArtifacts codec values) := by
  simp [streamedArtifacts]

theorem streamedUsage_concat : streamedUsage (values ++ [value]) =
    (usageFromResponses value).or (streamedUsage values) := by simp [streamedUsage]

theorem partAfter_concat (kind : PartKind) (key : String) : partAfter allow kind key (values ++ [value]) =
    .takeAll allow (partAfter allow kind key values) (partTaken kind key value) := by
  simp [partAfter, TextDeltaReconciler.takeAll]

theorem partDeltas_concat (kind : PartKind) (key : String) : partDeltas kind key (values ++ [value]) =
    partDeltas kind key values ++ partDelta kind key value := by simp [partDeltas]

end

/-! ### Deltas that are added as they are -/

/-- The text is completed that has been handed on already. -/
theorem complete_self (r : TextDeltaReconciler) : r.complete r.emitted = .ok (r, none) := by
  rw [TextDeltaReconciler.complete, strict_self]

/-- The deltas of the parts of a kind: none begins with all of its part so far, if that is looked for. -/
def NoneRepeated (allow : Bool) (kind : PartKind) (key : String) (values : List Value) : Prop :=
  allow = true → TextDeltaReconciler.unrepeated [] (partDeltas kind key values) = true

theorem unrepeated_append (before : List Char) (xs ys : List (List Char)) :
    TextDeltaReconciler.unrepeated before (xs ++ ys) =
      (TextDeltaReconciler.unrepeated before xs && TextDeltaReconciler.unrepeated (before ++ xs.flatten) ys) := by
  induction xs generalizing before with
  | nil => simp [TextDeltaReconciler.unrepeated]
  | cons x xs ih =>
    simp only [List.cons_append, TextDeltaReconciler.unrepeated, ih, List.flatten_cons, Bool.and_assoc,
      List.append_assoc]

section
variable {allow : Bool} {kind : PartKind} {key : String} {values : List Value} {value : Value}

theorem NoneRepeated.before {after : List Value} (h : NoneRepeated allow kind key (values ++ after)) :
    NoneRepeated allow kind key values := by
  intro hallow
  have hall := h hallow
  rw [partDeltas, List.flatMap_append, unrepeated_append, Bool.and_eq_true] at hall
  exact hall.1

/-- The last delta does not begin with all of its part. -/
theorem NoneRepeated.last (h : NoneRepeated allow kind key (values ++ [value])) {delta : List Char}
    (hdelta : partDelta kind key value = [delta]) :
    (allow && TextDeltaReconciler.looksCumulative ⟨(partDeltas kind key values).flatten, false⟩ delta) = false := by
  cases hallow : allow with
  | false => rfl
  | true =>
    have hall := h hallow
    rw [partDeltas_concat, unrepeated_append, hdelta, Bool.and_eq_true] at hall
    have hlast := hall.2
    simp only [TextDeltaReconciler.unrepeated, List.nil_append, Bool.and_true] at hlast
    rw [Bool.true_and, TextDeltaReconciler.looksCumulative, decide_eq_false_iff_not]
    exact of_decide_eq_true hlast

end

/-- What holds at every place of a list, one longer. -/
theorem forall_split_concat {α : Type} {p : List α → α → Prop} {xs : List α} {x : α} :
    (∀ before y after, xs ++ [x] = before ++ y :: after → p before y) ↔
      (∀ before y after, xs = before ++ y :: after → p before y) ∧ p xs x := by
  constructor
  · intro h
    refine ⟨fun before y after heq => h before y (after ++ [x]) ?_, h xs x [] rfl⟩
    rw [heq, List.append_assoc, List.cons_append]
  · rintro ⟨h, hlast⟩ before y after heq
    cases after using List.reverseRecOn with
    | nil =>
      obtain ⟨rfl, hx⟩ := List.append_inj' heq rfl
      obtain rfl := List.singleton_inj.1 hx
      exact hlast
    | append_singleton after z _ =>
      rw [← List.cons_append, ← List.append_assoc] at heq
      exact h before y after (List.append_inj' heq rfl).1

/-- The events of a well-formed stream before its end: they come in their order, and what completes a part says what its
deltas are together. -/
structure WellFormedStream (codec : WireCodec) (values : List Value) : Prop where
  ongoing : ∀ value ∈ values, Ongoing value
  ordered : values.Pairwise (Follows codec)
  concatenates : ∀ before value after, values = before ++ value :: after → DoneConcatenates before value

namespace WellFormedStream

variable {codec : WireCodec} {allow : Bool} {values : List Value} {value : Value}

theorem nil (codec : WireCodec) : WellFormedStream codec [] := ⟨nofun, .nil, fun before value after h => by simp at h⟩

theorem concat_iff : WellFormedStream codec (values ++ [value]) ↔ WellFormedStream codec values ∧ Ongoing value ∧
    (∀ v ∈ values, Follows codec v value) ∧ DoneConcatenates values value := by
  constructor
  · intro h
    have hordered := List.pairwise_append.1 h.ordered
    obtain ⟨hbefore, hlast⟩ := forall_split_concat.1 h.concatenates
    exact ⟨⟨fun v hv => h.ongoing v (List.mem_append_left _ hv), hordered.1, hbefore⟩, h.ongoing value (by simp),
      fun v hv => hordered.2.2 v hv value (by simp), hlast⟩
  · rintro ⟨h, hvalue, hfollows, hdone⟩
    refine ⟨fun v hv => ?_, ?_, forall_split_concat.2 ⟨h.concatenates, hdone⟩⟩
    · rcases List.mem_append.1 hv with hv | hv
      · exact h.ongoing v hv
      · rw [List.mem_singleton.1 hv]
        exact hvalue
    · refine List.pairwise_append.2 ⟨h.ordered, List.pairwise_singleton _ _, fun v hv w hw => ?_⟩
      rw [List.mem_singleton.1 hw]
      exact hfollows v hv

theorem before {after : List Value} (h : WellFormedStream codec (values ++ after)) : WellFormedStream codec values where
  ongoing v hv := h.ongoing v (List.mem_append_left _ hv)
  ordered := (List.pairwise_append.1 h.ordered).1
  concatenates xs v ys heq := h.concatenates xs v (ys ++ after) (by rw [heq, List.append_assoc, List.cons_append])

/-- **A part whose deltas are not repeated** is what they are together. -/
theorem partAfter_unrepeated (h : WellFormedStream codec values) {kind : PartKind} {key : String}
    (hdeltas : NoneRepeated allow kind key values) :
    partAfter allow kind key values = ⟨(partDeltas kind key values).flatten, false⟩ := by
  induction values using List.reverseRecOn with
  | nil => rfl
  | append_singleton values value ih =>
    obtain ⟨hvalues, -, -, hdone⟩ := concat_iff.1 h
    rw [partAfter_concat, ih hvalues hdeltas.before, partDeltas_concat, List.flatten_append]
    cases hcame : partArrival value with
    | none => simp [partTaken, partDelta, hcame, TextDeltaReconciler.takeAll]
    | some came =>
      obtain ⟨kind', came⟩ := came
      by_cases hpart : kind' = kind ∧ textPartKey value = key
      · obtain ⟨rfl, rfl⟩ := hpart
        have htaken : partTaken kind' (textPartKey value) value = [came] := by simp [partTaken, hcame]
        rw [htaken, TextDeltaReconciler.takeAll, List.foldl_cons, List.foldl_nil]
        cases came with
        | delta delta =>
          have hdelta : partDelta kind' (textPartKey value) value = [delta] := by simp [partDelta, hcame]
          rw [hdelta, List.flatten_singleton, TextDeltaReconciler.take,
            TextDeltaReconciler.pushCompatible_incremental _ rfl (hdeltas.last hdelta)]
        | done text =>
          have hdelta : partDelta kind' (textPartKey value) value = [] := by simp [partDelta, hcame]
          have htext := hdone kind' text (by simp only [doneText, hcame])
          rw [hdelta, List.flatten_nil, List.append_nil, htext, TextDeltaReconciler.take,
            complete_self ⟨(partDeltas kind' (textPartKey value) values).flatten, false⟩]
      · have hdelta : partDelta kind key value = [] := by
          cases came <;> simp [partDelta, hcame, hpart]
        have htaken : partTaken kind key value = [] := by simp [partTaken, hcame, hpart]
        rw [hdelta, htaken, List.flatten_nil, List.append_nil]
        rfl

/-- Such a part can be completed. -/
theorem complete_unrepeated (h : WellFormedStream codec values) (hdone : DoneConcatenates values value) {kind : PartKind}
    {text : List Char} (hcame : doneText value = some (kind, text))
    (hdeltas : NoneRepeated allow kind (textPartKey value) values) :
    (partAfter allow kind (textPartKey value) values).complete text =
      .ok (partAfter allow kind (textPartKey value) values, none) := by
  rw [h.partAfter_unrepeated hdeltas, hdone kind text hcame,
    complete_self ⟨(partDeltas kind (textPartKey value) values).flatten, false⟩]

/-- What an event adds to the text is its delta, if none is repeated. -/
theorem piece_unrepeated (h : WellFormedStream codec (values ++ [value]))
    (hdeltas : ∀ key, NoneRepeated allow .output key (values ++ [value])) :
    piece allow true values value = textDelta value := by
  obtain ⟨hvalues, -, -, hdone⟩ := concat_iff.1 h
  unfold piece textDelta
  cases hcame : partArrival value with
  | none => rfl
  | some came =>
    obtain ⟨kind, came⟩ := came
    cases kind with
    | reasoning | reasoningSummary => cases came <;> rfl
    | output =>
      have hunrepeated := (hdeltas (textPartKey value)).before
      simp only [isText, decide_true, if_true]
      cases came with
      | delta delta =>
        have hdelta : partDelta .output (textPartKey value) value = [delta] := by simp [partDelta, hcame]
        rw [TextDeltaReconciler.take, hvalues.partAfter_unrepeated hunrepeated,
          TextDeltaReconciler.pushCompatible_incremental _ rfl ((hdeltas _).last hdelta), nonempty_getD]
      | done text =>
        rw [TextDeltaReconciler.take,
          hvalues.complete_unrepeated hdone (by simp only [doneText, hcame]) hunrepeated]
        rfl

/-- **The text is what its deltas are together**, if none is repeated. -/
theorem streamedText_unrepeated (h : WellFormedStream codec values)
    (hdeltas : ∀ key, NoneRepeated allow .output key values) : streamedText allow values = values.flatMap textDelta := by
  induction values using List.reverseRecOn with
  | nil => rfl
  | append_singleton values value ih =>
    have hlast := h.piece_unrepeated hdeltas
    have hbefore := ih (concat_iff.1 h).1 fun key => (hdeltas key).before
    unfold streamedText at hbefore ⊢
    rw [handedOn_concat, hbefore, hlast, List.flatMap_append, List.flatMap_singleton]

end WellFormedStream

/-! ### Deltas that are lost -/

theorem take_length (allow : Bool) (r : TextDeltaReconciler) (delta : List Char) :
    (((r.take allow (.delta delta)).2).getD []).length ≤ delta.length := by
  have hlen := r.pushCompatible_length delta false allow
  rw [TextDeltaReconciler.pushCompatible_emitted, List.length_append] at hlen
  rw [TextDeltaReconciler.take]
  omega

section
variable {allow : Bool} {values : List Value} {value : Value}

/-- What completes a part of the output is an event that does so. -/
theorem isOutputDone_of_came {text : List Char} (h : partArrival value = some (.output, .done text)) :
    isOutputDone value = true := by
  unfold partArrival at h
  unfold isOutputDone
  cases hstep : responsesStep value with
  | complete kind text' =>
    rw [hstep] at h
    cases h
    exact absurd hstep (ResponsesTurnState.responsesStep_ne_complete text)
  | outputDone text' => rfl
  | _ =>
    rw [hstep] at h
    cases h

theorem partDelta_eq {kind : PartKind} {key : String} {delta : List Char} {rest : List (List Char)}
    (h : partDelta kind key value = delta :: rest) :
    partArrival value = some (kind, .delta delta) ∧ textPartKey value = key ∧ rest = [] := by
  unfold partDelta at h
  split at h
  · rename_i kind' delta' hcame
    split at h
    · rename_i hpart
      obtain ⟨rfl, rfl⟩ := hpart
      cases h
      exact ⟨hcame, rfl, rfl⟩
    · cases h
  · cases h

/-- Without an event that completes a text, an event adds no more than its delta. -/
theorem piece_length (allow : Bool) (values : List Value) (hdone : isOutputDone value = false) :
    (piece allow true values value).length ≤ (textDelta value).length := by
  unfold piece textDelta
  cases hcame : partArrival value with
  | none => exact Nat.zero_le _
  | some came =>
    obtain ⟨kind, came⟩ := came
    cases kind with
    | reasoning | reasoningSummary => exact Nat.zero_le _
    | output =>
      cases came with
      | delta delta => exact take_length allow _ delta
      | done text =>
        rw [isOutputDone_of_came hcame] at hdone
        cases hdone

/-- **The text is what its deltas are together only if none is repeated**, where nothing completes a text. -/
theorem unrepeated_of_text {codec : WireCodec} (h : WellFormedStream codec values)
    (hdone : ∀ value ∈ values, isOutputDone value = false)
    (htext : streamedText allow values = values.flatMap textDelta) (key : String) : NoneRepeated allow .output key values := by
  have hlength (before events : List Value) (hevents : ∀ value ∈ events, isOutputDone value = false) :
      (handedOn allow true before events).length ≤ (events.flatMap textDelta).length := by
    induction events generalizing before with
    | nil => exact Nat.le_refl _
    | cons event events ih =>
      rw [List.forall_mem_cons] at hevents
      have hfirst := piece_length allow before hevents.1
      have hrest := ih (before ++ [event]) hevents.2
      rw [handedOn, List.flatMap_cons, List.length_append, List.length_append]
      omega
  induction values using List.reverseRecOn generalizing key with
  | nil => exact fun _ => rfl
  | append_singleton values value ih =>
    obtain ⟨hvalues, -, -, -⟩ := WellFormedStream.concat_iff.1 h
    have hbefore : ∀ value ∈ values, isOutputDone value = false := fun v hv => hdone v (List.mem_append_left _ hv)
    have hle := hlength [] values hbefore
    have hlast := piece_length allow values (hdone value (by simp))
    unfold streamedText at htext ih
    rw [handedOn_concat, List.flatMap_append, List.flatMap_singleton] at htext
    have hsum := congrArg List.length htext
    rw [List.length_append, List.length_append] at hsum
    -- neither the events before nor the last one have lost anything
    obtain ⟨htext, hpiece⟩ := List.append_inj htext (by omega)
    have hunrepeated (key : String) : NoneRepeated allow .output key values := ih hvalues hbefore htext key
    intro hallow
    rw [partDeltas_concat, unrepeated_append, hunrepeated key hallow, Bool.true_and, List.nil_append]
    cases hdelta : partDelta .output key value with
    | nil => rfl
    | cons delta rest =>
      obtain ⟨hcame, rfl, rfl⟩ := partDelta_eq hdelta
      have hkept := @TextDeltaReconciler.pushCompatible_repeated
        ⟨(partDeltas .output (textPartKey value) values).flatten, false⟩ delta
      simp only [piece, textDelta, hcame, isText, decide_true, if_true, TextDeltaReconciler.take, hallow,
        @WellFormedStream.partAfter_unrepeated _ true _ hvalues _ _ (hallow ▸ hunrepeated _)] at hpiece
      simp only [TextDeltaReconciler.unrepeated, Bool.and_true, decide_eq_true_eq]
      rintro ⟨hne, hprefix⟩
      have hlost := hkept hne (List.isPrefixOf_iff_prefix.1 hprefix)
      rw [TextDeltaReconciler.pushCompatible_emitted, hpiece] at hlost
      exact hne (List.append_left_eq_self.1 hlost)

end

/-! ## The state after events -/

namespace ResponsesTurnState

variable {codec : WireCodec} {allow : Bool} {s s' s₁ : ResponsesTurnState} {value : Value} {values : List Value}

theorem part_setPart (s : ResponsesTurnState) (kind kind' : PartKind) (key key' : String) (part : TextDeltaReconciler) :
    (s.setPart kind key part).part kind' key' = if kind = kind' ∧ key = key' then part else s.part kind' key' := by
  unfold ResponsesTurnState.part
  have hinsert (m : HashMap String TextDeltaReconciler) : ((m.insert key part).lookup key').getD .default =
      if key = key' then part else (m.lookup key').getD .default := by
    rw [HashMap.lookup_insert_ite]
    by_cases hkey : key = key'
    · rw [if_pos hkey, if_pos hkey.symm]
      rfl
    · rw [if_neg hkey, if_neg (Ne.symm hkey)]
  cases kind <;> cases kind' <;>
    simp only [setPart, parts, hinsert, true_and, false_and, reduceCtorEq, if_false]

theorem part_emit (s : ResponsesTurnState) (kind kind' : PartKind) (key : String) (delta : Option (List Char)) :
    (s.emit kind delta).1.part kind' key = s.part kind' key := by
  cases kind <;> cases kind' <;> rfl

/-- What a step of an event before the end changes. -/
structure Stepped (codec : WireCodec) (allow : Bool) (values : List Value) (value : Value) (s s' : ResponsesTurnState) :
    Prop where
  parts : ∀ kind key, s'.part kind key = .takeAll allow (s.part kind key) (partTaken kind key value)
  text : s'.text = s.text ++ piece allow true values value
  reasoning : s'.reasoning = s.reasoning ++ piece allow false values value
  replay : s'.replay = (doneItem value).foldl ReplayState.keep s.replay
  artifacts : s'.artifacts = (doneItem value).foldl (GeneratedArtifactState.capture codec) s.artifacts
  done : s'.sawOutputDone = (s.sawOutputDone || isOutputDone value)
  frame : ∃ reasoningParts reasoningSummaryParts outputParts tools replay artifacts sawOutputDone text reasoning,
    s' = { s with
      reasoningParts, reasoningSummaryParts, outputParts, tools, replay, artifacts, sawOutputDone, text, reasoning }

/-- A step that adds nothing to the text and does no item. -/
theorem Stepped.quiet {reasoningParts reasoningSummaryParts outputParts : HashMap String TextDeltaReconciler}
    {tools : ToolCallAssembler} {sawOutputDone : Bool} (hnone : partArrival value = none) (hitem : doneItem value = [])
    (hparts : ∀ kind key, part { s with reasoningParts, reasoningSummaryParts, outputParts } kind key = s.part kind key)
    (hdone : sawOutputDone = (s.sawOutputDone || isOutputDone value)) : Stepped codec allow values value s { s with
      reasoningParts, reasoningSummaryParts, outputParts, tools, sawOutputDone } where
  parts kind key := by
    simp only [partTaken, hnone]
    exact hparts kind key
  text := by simp only [piece, hnone, List.append_nil]
  reasoning := by simp only [piece, hnone, List.append_nil]
  replay := by
    rw [hitem]
    rfl
  artifacts := by
    rw [hitem]
    rfl
  done := hdone
  frame := ⟨_, _, _, _, _, _, _, _, _, rfl⟩

/-- **A part takes what comes to it.** -/
theorem take_stepped {kind : PartKind} {came : PartText} (sawOutputDone : Bool)
    (hparts : ∀ kind key, s.part kind key = partAfter allow kind key values) (hcame : partArrival value = some (kind, came))
    (hitem : doneItem value = []) (hdone : sawOutputDone = (s.sawOutputDone || isOutputDone value)) :
    Stepped codec allow values value s (({ s with sawOutputDone }.setPart kind (textPartKey value)
      ((s.part kind (textPartKey value)).take allow came).1).emit kind
        ((s.part kind (textPartKey value)).take allow came).2).1 where
  parts kind' key := by
    simp only [part_emit, part_setPart, partTaken, hcame]
    split
    · rename_i h
      obtain ⟨rfl, rfl⟩ := h
      rfl
    · cases kind' <;> rfl
  text := by
    simp only [piece, hcame, ← hparts]
    cases kind <;> simp [emit, isText, setPart]
  reasoning := by
    simp only [piece, hcame, ← hparts]
    cases kind <;> simp [emit, isText, setPart]
  replay := by
    rw [hitem]
    cases kind <;> rfl
  artifacts := by
    rw [hitem]
    cases kind <;> rfl
  done := by
    rw [← hdone]
    cases kind <;> rfl
  frame := by cases kind <;> exact ⟨_, _, _, _, _, _, _, _, _, rfl⟩

/-- A part is completed as it takes its text. -/
theorem completePart_take (s : ResponsesTurnState) (allow : Bool) (kind : PartKind) (value : Value) {text : List Char}
    (h : ((s.part kind (textPartKey value)).complete text).toOption.isSome = true) :
    s.completePart kind value text = ((s.setPart kind (textPartKey value)
      ((s.part kind (textPartKey value)).take allow (.done text)).1).emit kind
        ((s.part kind (textPartKey value)).take allow (.done text)).2).ok := by
  unfold completePart TextDeltaReconciler.take
  simp only
  cases hcomplete : (s.part kind (textPartKey value)).complete text with
  | error message =>
    rw [hcomplete] at h
    cases h
  | ok result => rfl

theorem applyItem_items (s : ResponsesTurnState) (index : Nat) (item : Value) :
    (s.applyItem codec index item).replay = s.replay.keep item ∧
      (s.applyItem codec index item).artifacts = s.artifacts.capture codec item := by
  unfold applyItem upsertItem applyFunctionCallItem ReplayState.keep
  constructor <;> split <;> split <;> rfl

theorem item_stepped {index : Nat} {item : Value} (hstep : responsesStep value = .item index item) :
    Stepped codec allow values value s (s.applyItem codec index item) := by
  have hfields := @applyItem_items codec s index item
  obtain ⟨tools, replay, artifacts, hitem⟩ := @applyItem_frame codec s index item
  have hnone : partArrival value = none := by simp only [partArrival, hstep]
  have hpiece (text : Bool) : piece allow text values value = [] := by simp only [piece, hnone]
  refine ⟨fun kind key => ?_, ?_, ?_, ?_, ?_, ?_, ?_⟩
  · simp only [hitem, partTaken, hnone]
    cases kind <;> rfl
  · rw [hitem, hpiece, List.append_nil]
  · rw [hitem, hpiece, List.append_nil]
  · simp only [doneItem, hstep]
    exact hfields.1
  · simp only [doneItem, hstep]
    exact hfields.2
  · rw [hitem]
    simp only [isOutputDone, hstep, Bool.or_false]
  · exact ⟨_, _, _, _, _, _, _, _, _, hitem⟩

/-- **What a step of an event before the end changes.** -/
theorem applyStep_stepped (hparts : ∀ kind key, s.part kind key = partAfter allow kind key values)
    (hdone : Completable allow values value) (hsnapshot : terminalSnapshot value = none) :
    ∃ s' calls, s.applyStep codec allow value (responsesStep value) = (.ok s', calls) ∧
      Stepped codec allow values value s s' := by
  have hpart (kind : PartKind) (key : String) : part { s with } kind key = s.part kind key := rfl
  have hcan {kind : PartKind} {text : List Char} (h : partArrival value = some (kind, .done text)) :
      ((s.part kind (textPartKey value)).complete text).toOption.isSome = true := by
    rw [hparts]
    exact hdone kind text (by simp only [doneText, h])
  cases hstep : responsesStep value with
  | keep => refine ⟨s, [], rfl, .quiet ?_ ?_ hpart ?_⟩ <;> simp [partArrival, doneItem, isOutputDone, hstep]
  | push kind delta =>
    have hcame : partArrival value = some (kind, .delta delta) := by simp only [partArrival, hstep]
    exact ⟨_, _, rfl, take_stepped s.sawOutputDone hparts hcame (by simp only [doneItem, hstep])
      (by simp only [isOutputDone, hstep, Bool.or_false])⟩
  | complete kind text =>
    have hcame : partArrival value = some (kind, .done text) := by simp only [partArrival, hstep]
    exact ⟨_, _, s.completePart_take allow kind value (hcan hcame), take_stepped s.sawOutputDone
      hparts hcame (by simp only [doneItem, hstep]) (by simp only [isOutputDone, hstep, Bool.or_false])⟩
  | outputDone text =>
    cases text with
    | none =>
      refine ⟨{ s with sawOutputDone := true }, [], rfl, .quiet ?_ ?_ hpart ?_⟩ <;>
        simp [partArrival, doneItem, isOutputDone, hstep]
    | some text =>
      have hcame : partArrival value = some (.output, .done text) := by simp only [partArrival, hstep, Option.map_some]
      exact ⟨_, _, completePart_take { s with sawOutputDone := true } allow .output value (hcan hcame),
        take_stepped true hparts hcame (by simp only [doneItem, hstep])
          (by simp only [isOutputDone, hstep, Bool.or_true])⟩
  | call index item =>
    obtain ⟨tools, htools⟩ := applyFunctionCallItem_frame (s := s) index item false
    refine ⟨{ s with tools }, [], by rw [applyStep, htools], .quiet ?_ ?_ hpart ?_⟩ <;>
      simp [partArrival, doneItem, isOutputDone, hstep]
  | arguments index arguments snapshot =>
    refine ⟨_, [], rfl, .quiet ?_ ?_ hpart ?_⟩ <;> simp [partArrival, doneItem, isOutputDone, hstep]
  | item index item => exact ⟨_, _, rfl, item_stepped hstep⟩
  | snapshot response => exact absurd hstep (responsesStep_ne_snapshot hsnapshot response)

/-- A step that does not fail completes what it is to complete. -/
theorem applyStep_completable {calls : List SinkEvent}
    (hparts : ∀ kind key, s.part kind key = partAfter allow kind key values)
    (h : s.applyStep codec allow value (responsesStep value) = (.ok s', calls)) : Completable allow values value := by
  have hcan {s : ResponsesTurnState} {kind : PartKind} {text : List Char}
      (h : s.completePart kind value text = (.ok s', calls)) :
      ((s.part kind (textPartKey value)).complete text).toOption.isSome = true := by
    unfold completePart at h
    simp only at h
    cases hcomplete : (s.part kind (textPartKey value)).complete text with
    | error message =>
      rw [hcomplete] at h
      cases h
    | ok result => rfl
  intro kind text hdone
  rw [← hparts]
  cases hstep : responsesStep value with
  | complete kind' text' =>
    rw [hstep] at h
    simp only [doneText, partArrival, hstep] at hdone
    cases hdone
    exact hcan h
  | outputDone text' =>
    cases text' with
    | none => simp [doneText, partArrival, hstep] at hdone
    | some text' =>
      rw [hstep] at h
      simp only [doneText, partArrival, hstep, Option.map_some] at hdone
      cases hdone
      exact @hcan { s with sawOutputDone := true } _ _ h
  | _ => simp [doneText, partArrival, hstep] at hdone

/-- An event before the end reports its usage, and does its step. -/
theorem applyValue_ongoing (hvalue : Ongoing value) (haccept : s.acceptEvent codec value = .ok (true, s₁))
    (hterminal : s₁.terminal = none) : s.applyValue codec allow value =
      (s₁.applyUsage (usageFromResponses value)).ok.attempt fun s =>
        s.applyStep codec allow value (responsesStep value) := by
  have hstatus : s₁.applyStatus (terminalStatus value) = s₁ := by
    rw [hvalue.status]
    rfl
  have hquiet : s₁.applyTerminal value = s₁ := by rw [applyTerminal, if_pos hterminal]
  have hfine : isFailure value = false := by
    have hnone := hvalue.status
    by_contra hfailure
    simp only [isFailure, Bool.not_eq_false, Bool.or_eq_true, decide_eq_true_eq] at hfailure
    unfold terminalStatus at hnone
    split at hnone
    · cases hnone
    · cases hnone
    · cases hnone
    · rcases hfailure with (htype | htype) | htype <;>
        · rw [htype] at hnone
          cases hnone
  unfold applyValue
  simp only [looksLike_of_event hvalue.event, not_true_eq_false, if_false, haccept, hstatus, hquiet, hfine,
    applyTyped_step]
  rfl

/-- The state after events that say nothing of the end. -/
structure After (codec : WireCodec) (allow : Bool) (values : List Value) (s : ResponsesTurnState) : Prop where
  remembers : Remembers codec values s
  parts : ∀ kind key, s.part kind key = partAfter allow kind key values
  tools : s.tools = streamedTools values
  replay : s.replay = streamedReplay values
  artifacts : s.artifacts = streamedArtifacts codec values
  usage : s.usage = streamedUsage values
  terminal : s.terminal = none
  incompleteReason : s.incompleteReason = none
  endTurn : s.endTurn = none
  done : s.sawOutputDone = values.any isOutputDone
  terminalOutputItems : s.terminalOutputItems = []
  text : s.text = streamedText allow values
  reasoning : s.reasoning = streamedReasoning allow values

theorem After.new (codec : WireCodec) (allow : Bool) : After codec allow [] .new where
  remembers := ⟨nofun, nofun⟩
  parts kind key := by cases kind <;> rfl
  tools := rfl
  replay := rfl
  artifacts := rfl
  usage := rfl
  terminal := rfl
  incompleteReason := rfl
  endTurn := rfl
  done := rfl
  terminalOutputItems := rfl
  text := rfl
  reasoning := rfl

/-- **One more event.** -/
theorem After.step (h : After codec allow values s) (hvalue : Ongoing value)
    (hfollows : ∀ v ∈ values, Follows codec v value) (hdone : Completable allow values value) :
    ∃ s' calls, s.applyValue codec allow value = (.ok s', calls) ∧ After codec allow (values ++ [value]) s' := by
  obtain ⟨last, keys, haccept, hremembers⟩ := acceptEvent_follows h.remembers hfollows
  have husage : ∃ calls, applyUsage { s with lastSequenceNumber := last, seenEventKeys := keys }
      (usageFromResponses value) = ({ s with
        lastSequenceNumber := last
        seenEventKeys := keys
        usage := (usageFromResponses value).or s.usage }, calls) := by
    cases usageFromResponses value with
    | none => exact ⟨_, rfl⟩
    | some usage => exact ⟨_, rfl⟩
  obtain ⟨calls, husage⟩ := husage
  obtain ⟨s', calls', hstep, hstepped⟩ := @applyStep_stepped codec _ { s with
    lastSequenceNumber := last
    seenEventKeys := keys
    usage := (usageFromResponses value).or s.usage } _ _ h.parts hdone hvalue.output
  refine ⟨s', calls ++ calls', ?_, ?_⟩
  · rw [applyValue_ongoing hvalue haccept h.terminal, husage, Sunk.ok, Sunk.attempt_ok, hstep]
  have htools := applyTyped_tools ((applyTyped_step _ _).trans hstep)
  obtain ⟨_, _, _, tools, _, _, _, _, _, hframe⟩ := hstepped.frame
  have hlast : s'.lastSequenceNumber = last := by rw [hframe]
  have hseen : s'.seenEventKeys = keys := by rw [hframe]
  exact {
    remembers := ⟨hlast ▸ hremembers.last, hseen ▸ hremembers.keys⟩
    parts := fun kind key => by
      rw [hstepped.parts, partAfter_concat, ← h.parts]
      rfl
    tools := by rw [htools, streamedTools_concat, ← h.tools]
    replay := by rw [hstepped.replay, streamedReplay_concat, ← h.replay]
    artifacts := by rw [hstepped.artifacts, streamedArtifacts_concat, ← h.artifacts]
    usage := by rw [hframe, streamedUsage_concat, ← h.usage]
    terminal := by rw [hframe, h.terminal]
    incompleteReason := by rw [hframe, h.incompleteReason]
    endTurn := by rw [hframe, h.endTurn]
    done := by rw [hstepped.done, h.done, List.any_append, List.any_cons, List.any_nil, Bool.or_false]
    terminalOutputItems := by rw [hframe, h.terminalOutputItems]
    text := by
      rw [hstepped.text, h.text]
      exact (handedOn_concat allow values value true).symm
    reasoning := by
      rw [hstepped.reasoning, h.reasoning]
      exact (handedOn_concat allow values value false).symm }

/-- Values, one after the other. -/
def applyValues (codec : WireCodec) (allow : Bool) (s : ResponsesTurnState) :
    List Value → Sunk (Except ProviderError ResponsesTurnState)
  | [] => (.ok s, [])
  | value :: values => (s.applyValue codec allow value).attempt fun s => applyValues codec allow s values

theorem applyValues_append (s : ResponsesTurnState) (xs ys : List Value) : s.applyValues codec allow (xs ++ ys) =
    (s.applyValues codec allow xs).attempt fun s => s.applyValues codec allow ys := by
  induction xs generalizing s with
  | nil => simp only [List.nil_append, applyValues, Sunk.attempt_pure]
  | cons value xs ih => simp only [List.cons_append, applyValues, Sunk.attempt_assoc, ih]

end ResponsesTurnState

/-! ## Streams of events -/

/-- A well-formed stream whose parts can be completed. -/
structure OngoingStream (codec : WireCodec) (allow : Bool) (values : List Value) : Prop extends
    WellFormedStream codec values where
  completable : ∀ before value after, values = before ++ value :: after → Completable allow before value

namespace OngoingStream

variable {codec : WireCodec} {allow : Bool} {values : List Value} {value : Value}

theorem nil (codec : WireCodec) (allow : Bool) : OngoingStream codec allow [] :=
  ⟨.nil codec, fun before value after h => by simp at h⟩

/-- A part that is completed has no delta that is repeated. -/
theorem of_unrepeated (h : WellFormedStream codec values) (hdeltas : ∀ value ∈ values, ∀ kind text,
    doneText value = some (kind, text) → NoneRepeated allow kind (textPartKey value) values) :
    OngoingStream codec allow values := by
  refine ⟨h, fun before value after heq kind text hdone => ?_⟩
  have hsplit := hdeltas value (by simp [heq]) kind text hdone
  rw [heq] at hsplit
  rw [heq] at h
  have hlast : DoneConcatenates before value := h.concatenates before value after rfl
  rw [h.before.complete_unrepeated hlast hdone hsplit.before]
  rfl

theorem concat_iff : OngoingStream codec allow (values ++ [value]) ↔ OngoingStream codec allow values ∧ Ongoing value ∧
    (∀ v ∈ values, Follows codec v value) ∧ DoneConcatenates values value ∧ Completable allow values value := by
  constructor
  · intro h
    obtain ⟨hvalues, hvalue, hfollows, hdone⟩ := WellFormedStream.concat_iff.1 h.toWellFormedStream
    obtain ⟨hbefore, hlast⟩ := forall_split_concat.1 h.completable
    exact ⟨⟨hvalues, hbefore⟩, hvalue, hfollows, hdone, hlast⟩
  · rintro ⟨h, hvalue, hfollows, hdone, hcan⟩
    exact ⟨WellFormedStream.concat_iff.2 ⟨h.toWellFormedStream, hvalue, hfollows, hdone⟩,
      forall_split_concat.2 ⟨h.completable, hcan⟩⟩

/-- **A run of events.** -/
theorem run (h : OngoingStream codec allow values) : ∃ s calls,
    ResponsesTurnState.new.applyValues codec allow values = (.ok s, calls) ∧ s.After codec allow values := by
  induction values using List.reverseRecOn with
  | nil => exact ⟨_, _, rfl, .new codec allow⟩
  | append_singleton values value ih =>
    obtain ⟨hvalues, hvalue, hfollows, -, hcan⟩ := concat_iff.1 h
    obtain ⟨s, calls, hrun, hafter⟩ := ih hvalues
    obtain ⟨s', calls', hstep, hafter'⟩ := hafter.step hvalue hfollows hcan
    refine ⟨s', calls ++ (calls' ++ []), ?_, hafter'⟩
    rw [ResponsesTurnState.applyValues_append, hrun, Sunk.attempt_ok, ResponsesTurnState.applyValues, hstep,
      Sunk.attempt_ok]
    rfl

/-- **A run that does not fail** has completed what was to be completed. -/
theorem of_run (h : WellFormedStream codec values) {s : ResponsesTurnState}
    (hrun : (ResponsesTurnState.new.applyValues codec allow values).1 = .ok s) : OngoingStream codec allow values := by
  induction values using List.reverseRecOn generalizing s with
  | nil => exact .nil codec allow
  | append_singleton values value ih =>
    obtain ⟨hvalues, hvalue, hfollows, hdone⟩ := WellFormedStream.concat_iff.1 h
    rw [ResponsesTurnState.applyValues_append] at hrun
    obtain ⟨s₁, hbefore, hlast⟩ := Sunk.attempt_eq_ok hrun
    have hongoing := ih hvalues hbefore
    obtain ⟨s₂, calls, hsame, hafter⟩ := hongoing.run
    rw [hsame] at hbefore
    cases hbefore
    refine concat_iff.2 ⟨hongoing, hvalue, hfollows, hdone, ?_⟩
    obtain ⟨s', hstep, -⟩ := Sunk.attempt_eq_ok hlast
    obtain ⟨last, keys, haccept, -⟩ := ResponsesTurnState.acceptEvent_follows hafter.remembers hfollows
    rw [ResponsesTurnState.applyValue_ongoing hvalue haccept hafter.terminal] at hstep
    obtain ⟨s₃, husage, hstep⟩ := Sunk.attempt_eq_ok hstep
    have hparts : ∀ kind key, s₃.part kind key = partAfter allow kind key values := by
      intro kind key
      rw [← hafter.parts]
      cases husage
      cases usageFromResponses value <;> cases kind <;> rfl
    exact ResponsesTurnState.applyStep_completable hparts (Prod.ext hstep rfl)

end OngoingStream

/-! ## The end of a stream -/

theorem reconcile_self (text : List Char) (done : Bool) : reconcileTerminalText text text done = .ok none := by
  rw [reconcileTerminalText, if_neg fun h => h.2 rfl, strict_self]

theorem reconcile_nil (text : List Char) : reconcileTerminalText text [] false = .ok none := by
  rw [reconcileTerminalText, if_neg (by simp), strictCompleteTextSuffix, if_pos (.inl rfl)]

/-- The items of a response. -/
def outputItems (response : Value) : List Value := ((response.get "output").bind Value.asArray).getD []

/-- A value after which a response has completed. -/
structure Completes (value response : Value) : Prop where
  looks : looksLikeResponsesStreamValue value = true
  fine : ResponsesTurnState.isFailure value = false
  status : terminalStatus value = some .completed
  carries : responseOf value = response
  step : responsesStep value = .snapshot response

/-- The event `response.completed` with its response. -/
structure CompletedEvent (value response : Value) : Prop where
  type : eventType value = some "response.completed"
  carries : value.get "response" = some response
  status : terminalStatus value = some .completed
  output : (value.get "output").bind Value.asArray = none

theorem CompletedEvent.completes {value response : Value} (h : CompletedEvent value response) :
    Completes value response where
  looks := by
    refine ResponsesTurnState.looksLike_of_event ?_
    rw [isResponsesEvent, h.type]
    rfl
  fine := by
    rw [ResponsesTurnState.isFailure, h.type]
    rfl
  status := h.status
  carries := by rw [responseOf, h.carries, Option.getD_some]
  step := by
    unfold responsesStep terminalSnapshot
    rw [h.type, h.output, h.carries]
    rfl

/-- The turn of a response that has completed, of the parts that it is made of. -/
def completedTurn (codec : WireCodec) (tools : ToolCallAssembler) (replay : ReplayState)
    (artifacts : GeneratedArtifactState) (usage : Option Value) (response : Value)
    (text reasoning : List Char) : ModelTurn :=
  ResponsesTurnState.turn codec { ResponsesTurnState.new with
    tools, replay, artifacts, usage, text, reasoning
    endTurn := (response.get "end_turn").bind Value.asBool
    terminalOutputItems := outputItems response }

/-- What events and the end of their stream come to. -/
def streamedTurn (codec : WireCodec) (allow : Bool) (values : List Value) (value response : Value) :
    Except ProviderError ModelTurn :=
  let tools := (streamedTools values).run (snapshotToolSteps response)
  match reconcileTerminalText (streamedText allow values) (extractResponsesOutputText response)
    (values.any isOutputDone) with
  | .error message => .error ⟨message⟩
  | .ok suffix => (tools.validate codec).map fun _ =>
    completedTurn codec tools ((outputItems response).foldl ReplayState.keep (streamedReplay values))
      ((outputItems response).foldl (GeneratedArtifactState.capture codec) (streamedArtifacts codec values))
      ((usageFromResponses value).or (streamedUsage values)) response
      (streamedText allow values ++ suffix.getD []) (streamedReasoning allow values)

namespace ResponsesTurnState

variable {codec : WireCodec} {allow : Bool} {s : ResponsesTurnState} {value response : Value} {values : List Value}

theorem mergeSnapshotItems_items (s : ResponsesTurnState) (response : Value) :
    (s.mergeSnapshotItems codec response).replay = (outputItems response).foldl ReplayState.keep s.replay ∧
      (s.mergeSnapshotItems codec response).artifacts =
        (outputItems response).foldl (GeneratedArtifactState.capture codec) s.artifacts := by
  rw [mergeSnapshotItems]
  change (List.foldl _ s (outputItems response).zipIdx).replay = _ ∧
    (List.foldl _ s (outputItems response).zipIdx).artifacts = _
  generalize outputItems response = items
  generalize 0 = first
  induction items generalizing s first with
  | nil => exact ⟨rfl, rfl⟩
  | cons item items ih =>
    have hfields := @applyItem_items codec s first item
    rw [List.zipIdx_cons, List.foldl_cons, List.foldl_cons, List.foldl_cons, ← hfields.1, ← hfields.2]
    exact ih (s.applyItem codec first item) (first + 1)

/-- A response that has completed is its turn, if its calls allow it. -/
theorem finishChecked_completed (h : s.terminal = some .completed) :
    s.finishChecked codec = (s.tools.validate codec).map fun _ => s.turn codec := by
  unfold finishChecked finish
  simp only [h, if_true]
  cases s.tools.validate codec <;> rfl

/-- **The end of a stream**: the text is reconciled with the response, and its items are merged. -/
theorem After.completed (h : After codec allow values s) (hfollows : ∀ v ∈ values, Follows codec v value)
    (hvalue : Completes value response) :
    (s.applyValue codec allow value).1.bind (finishChecked codec) =
      streamedTurn codec allow values value response := by
  unfold streamedTurn
  obtain ⟨last, keys, haccept, -⟩ := acceptEvent_follows h.remembers hfollows
  have hheeded : ∃ calls, ((applyStatus { s with lastSequenceNumber := last, seenEventKeys := keys }
      (terminalStatus value)).applyTerminal value).applyUsage (usageFromResponses value) = ({ s with
        lastSequenceNumber := last
        seenEventKeys := keys
        terminal := some .completed
        endTurn := (response.get "end_turn").bind Value.asBool
        usage := (usageFromResponses value).or s.usage }, calls) := by
    rw [hvalue.status, applyTerminal, if_neg nofun, hvalue.carries]
    simp only [applyStatus, h.endTurn, Option.or_none, Option.some_or]
    cases usageFromResponses value with
    | none => exact ⟨_, rfl⟩
    | some usage => exact ⟨_, rfl⟩
  obtain ⟨calls, hheeded⟩ := hheeded
  unfold applyValue
  simp only [hvalue.looks, not_true_eq_false, if_false, haccept, hvalue.fine, Bool.false_eq_true, hheeded, Sunk.ok,
    Sunk.attempt_ok, applyTyped_step, hvalue.step, applyStep, applyTerminalSnapshot]
  rw [← h.text, ← h.done]
  cases hreconcile : reconcileTerminalText s.text (extractResponsesOutputText response) s.sawOutputDone with
  | error message => rfl
  | ok suffix =>
    let closed : ResponsesTurnState := { s with
      lastSequenceNumber := last
      seenEventKeys := keys
      terminal := some .completed
      endTurn := (response.get "end_turn").bind Value.asBool
      usage := (usageFromResponses value).or s.usage
      terminalOutputItems := ((response.get "output").bind Value.asArray).getD s.terminalOutputItems
      text := s.text ++ suffix.getD [] }
    obtain ⟨tools, replay, artifacts, hmerged⟩ := @mergeSnapshotItems_frame codec closed response
    have htools := @mergeSnapshotItems_tools codec closed response
    have hitems := @mergeSnapshotItems_items codec closed response
    rw [hmerged] at htools hitems
    obtain ⟨hreplay, hartifacts⟩ := hitems
    simp only [closed, h.tools, h.replay, h.artifacts] at htools hreplay hartifacts
    change finishChecked codec (closed.mergeSnapshotItems codec response) = Except.map _ _
    rw [hmerged, finishChecked_completed (by rfl)]
    simp only [closed, htools, hreplay, hartifacts, h.text, h.reasoning, h.usage, h.incompleteReason,
      h.terminalOutputItems, turn, opaqueValue, completedTurn, outputItems]
    rfl

end ResponsesTurnState

/-- The values of a response, one after the other, and its end. -/
def responsesTurn (codec : WireCodec) (allow : Bool) (values : List Value) : Except ProviderError ModelTurn :=
  (ResponsesTurnState.new.applyValues codec allow values).1.bind (ResponsesTurnState.finishChecked codec)

/-- **The turn of a well-formed stream.** -/
theorem OngoingStream.turn_eq {codec : WireCodec} {allow : Bool} {values : List Value} {value response : Value}
    (h : OngoingStream codec allow values) (hfollows : ∀ v ∈ values, Follows codec v value)
    (hvalue : Completes value response) :
    responsesTurn codec allow (values ++ [value]) = streamedTurn codec allow values value response := by
  obtain ⟨s, calls, hrun, hafter⟩ := h.run
  rw [← hafter.completed hfollows hvalue, responsesTurn, ResponsesTurnState.applyValues_append, hrun, Sunk.attempt_ok]
  unfold ResponsesTurnState.applyValues ResponsesTurnState.applyValues
  obtain ⟨x, calls'⟩ := s.applyValue codec allow value
  cases x <;> rfl

end Aifluxon
