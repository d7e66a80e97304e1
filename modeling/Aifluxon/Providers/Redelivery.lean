import Aifluxon.Providers.Verdicts

/-!
# Events that are delivered again

* `Redelivered` : a list in which elements come again right after themselves;
* `sequenceOf` : the sequence number of an event;
* `Sequenced` : an event of the Responses API that has a sequence number;
* `ResponsesTurnState.applyValue_sequence`, `_again`, `_late` : a value, by its sequence number;
* `TurnAssembly.applyEvents_redelivered` : a run of events, with and without redeliveries;
* `TurnAssembly.applyEvents_newest` : after a run, the last sequence number is the greatest;
* `redelivery` : a response does not depend on redeliveries, and an event that comes late makes it fail.
-/

namespace Aifluxon

/-! ## Lists -/

/-- A list in which elements come again right after themselves. -/
inductive Redelivered {α : Type} : List α → List α → Prop
  | nil : Redelivered [] []
  | cons (x : α) (again : Nat) {xs ys : List α} (h : Redelivered xs ys) :
    Redelivered (x :: xs) (x :: (List.replicate again x ++ ys))

/-! ## Events -/

def sequenceNumber (value : Value) : Option Nat := (value.get "sequence_number").bind Value.asU64

def sequenceOf (codec : WireCodec) (event : SseEvent) : Option Nat := (carried codec event).bind sequenceNumber

/-- A value of type `error` or `response.*`. -/
def isResponsesEvent (value : Value) : Bool :=
  (eventType value).any fun type => type = "error" ∨ "response.".toList.isPrefixOf type.toList

/-- An event of the Responses API, with its sequence number. -/
def Sequenced (codec : WireCodec) (event : SseEvent) : Prop :=
  ∀ value ∈ carried codec event, isResponsesEvent value = true ∧ (sequenceNumber value).isSome = true

instance (codec : WireCodec) (event : SseEvent) : Decidable (Sequenced codec event) :=
  inferInstanceAs (Decidable (∀ value ∈ carried codec event, _))

/-- An event after which a stream is complete. -/
def isTerminal (codec : WireCodec) (event : SseEvent) : Bool := event.isDone || (carried codec event).any endsStream

/-! ## A value by its sequence number -/

namespace ResponsesTurnState

variable {codec : WireCodec} {s s' : ResponsesTurnState} {calls : List SinkEvent} {value : Value} {allow : Bool} {n : Nat}

theorem looksLike_of_event (h : isResponsesEvent value = true) : looksLikeResponsesStreamValue value = true := by
  unfold looksLikeResponsesStreamValue
  rw [show (eventType value).any _ = true from h, Bool.true_or, Bool.true_or]

theorem applyTyped_sequence (h : s.applyTyped codec allow value = (.ok s', calls)) :
    s'.lastSequenceNumber = s.lastSequenceNumber := congrArg Prod.fst (applyTyped_changes h).memory

/-- **A value that is taken** has a sequence number that is not lower, and it becomes the last one. -/
theorem applyValue_sequence (hevent : isResponsesEvent value = true) (hn : sequenceNumber value = some n)
    (h : s.applyValue codec allow value = (.ok s', calls)) :
    s'.lastSequenceNumber = some n ∧ ∀ m, s.lastSequenceNumber = some m → m ≤ n := by
  have haccept {new : Bool} {s₁ : ResponsesTurnState} (h : s.acceptEvent codec value = .ok (new, s₁)) :
      s₁.lastSequenceNumber = some n ∧ ∀ m, s.lastSequenceNumber = some m → m ≤ n := by
    unfold acceptEvent at h
    rw [show (value.get "sequence_number").bind Value.asU64 = some n from hn] at h
    cases hlast : s.lastSequenceNumber with
    | none =>
      simp only [hlast] at h
      cases h
      exact ⟨rfl, fun m hm => by cases hm⟩
    | some previous =>
      simp only [hlast] at h
      split at h
      · rename_i heq
        cases h
        subst heq
        exact ⟨hlast, fun m hm => by cases hm; omega⟩
      · split at h
        · cases h
        · cases h
          exact ⟨rfl, fun m hm => by cases hm; omega⟩
  rcases applyValue_cases h with ⟨hlooks, -, -⟩ | ⟨-, hdropped, -⟩ | ⟨s₁, calls', -, hnew, htyped, -⟩
  · rw [looksLike_of_event hevent] at hlooks
    cases hlooks
  · exact haccept hdropped
  · obtain ⟨hlast, hle⟩ := haccept hnew
    obtain ⟨usage, endTurn, incompleteReason, hheeded⟩ := heeded_frame (s := s₁) value
    rw [applyTyped_sequence htyped, hheeded]
    exact ⟨hlast, hle⟩

/-- **A value that comes again** changes nothing, and calls nothing. -/
theorem applyValue_again (hevent : isResponsesEvent value = true) (hn : sequenceNumber value = some n)
    (hlast : s.lastSequenceNumber = some n) : s.applyValue codec allow value = (.ok s, []) := by
  unfold applyValue acceptEvent
  rw [show (value.get "sequence_number").bind Value.asU64 = some n from hn]
  simp only [looksLike_of_event hevent, hlast, not_true_eq_false, if_false, if_true]

/-- **A value that comes late** is an error. -/
theorem applyValue_late {last : Nat} (hevent : isResponsesEvent value = true) (hn : sequenceNumber value = some n)
    (hlast : s.lastSequenceNumber = some last) (hlate : n < last) :
    ∃ e, s.applyValue codec allow value = (.error e, []) := by
  unfold applyValue acceptEvent
  rw [show (value.get "sequence_number").bind Value.asU64 = some n from hn]
  simp only [looksLike_of_event hevent, hlast, not_true_eq_false, if_false, if_neg (show n ≠ last by omega), if_pos hlate]
  exact ⟨_, rfl⟩

end ResponsesTurnState

/-! ## An event by its sequence number -/

namespace TurnAssembly

variable {codec : WireCodec} {a a' : TurnAssembly} {event : SseEvent} {calls : List SinkEvent} {value : Value} {n : Nat}

/-- The last sequence number of the Responses API. -/
def lastSequence (a : TurnAssembly) : Option Nat := a.responses.state.lastSequenceNumber

theorem applyEventValue_responses {name : Option String} (hmode : a.mode = .responses)
    (hfine : ¬ (value.hasError ∨ name = some "error")) : a.applyEventValue codec name value =
      (a.responses.state.applyValue codec a.responses.allowCumulativeDelta value).attempt fun state =>
        (.ok { a with responses := ⟨a.responses.allowCumulativeDelta, state⟩, complete := endsStream value }, []) := by
  rw [applyEventValue, if_neg hfine, applyValue]
  simp only [hmode, ResponsesTurnAssembler.applyValue, Sunk.attempt_assoc, Sunk.attempt_pure]

theorem applyEvent_cases (hmode : a.mode = .responses) (h : a.applyEvent codec event = (.ok a', calls)) :
    (event.isDone = true ∧ a' = { a with complete := true } ∧ calls = []) ∨
    (event.isDone = false ∧ carried codec event = none ∧ a' = a ∧ calls = []) ∨
    ∃ value state, carried codec event = some value ∧ ¬ (value.hasError ∨ event.event = some "error") ∧
      a.responses.state.applyValue codec a.responses.allowCumulativeDelta value = (.ok state, calls) ∧
      a' = { a with responses := ⟨a.responses.allowCumulativeDelta, state⟩, complete := endsStream value } := by
  cases hcarried : carried codec event with
  | none =>
    unfold applyEvent at h
    unfold carried at hcarried
    split at h
    · rename_i hdone
      cases h
      exact .inl ⟨hdone, rfl, rfl⟩
    rename_i hdone
    split at h
    · cases h
      exact .inr (.inl ⟨by simpa using hdone, rfl, rfl, rfl⟩)
    rename_i hblank
    rw [if_neg (not_or.2 ⟨hdone, hblank⟩)] at hcarried
    rw [hcarried] at h
    cases h
  | some value =>
    rw [applyEvent_carried hcarried] at h
    by_cases hfine : value.hasError ∨ event.event = some "error"
    · rw [applyEventValue, if_pos hfine] at h
      cases h
    rw [applyEventValue_responses hmode hfine] at h
    cases happly : a.responses.state.applyValue codec a.responses.allowCumulativeDelta value with
    | mk x called =>
      rw [happly] at h
      cases x with
      | error e => cases h
      | ok state =>
        rw [Sunk.attempt_ok] at h
        cases h
        exact .inr (.inr ⟨value, state, rfl, hfine, by rwa [List.append_nil], rfl⟩)

theorem applyEvent_frame (ha : a.complete = false) (hmode : a.mode = .responses)
    (h : a.applyEvent codec event = (.ok a', calls)) : a'.mode = .responses ∧ a'.complete = isTerminal codec event := by
  rcases applyEvent_cases hmode h with ⟨hdone, rfl, -⟩ | ⟨hdone, hcarried, rfl, -⟩ | ⟨value, state, hcarried, -, -, rfl⟩
  · exact ⟨hmode, by rw [isTerminal, hdone, Bool.true_or]⟩
  · exact ⟨hmode, by rw [isTerminal, hdone, hcarried, ha]; rfl⟩
  · refine ⟨hmode, ?_⟩
    have hdone : event.isDone = false := by
      by_contra hdone
      rw [carried, if_pos (.inl (by simpa using hdone))] at hcarried
      cases hcarried
    rw [isTerminal, hdone, hcarried, Option.any_some, Bool.false_or]

/-- **An event that comes again** changes nothing, and calls nothing. -/
theorem applyEvent_again (ha : a.complete = false) (hmode : a.mode = .responses) (hevent : Sequenced codec event)
    (h : a.applyEvent codec event = (.ok a', calls)) (ha' : a'.complete = false) :
    a'.applyEvent codec event = (.ok a', []) := by
  rcases applyEvent_cases hmode h with ⟨-, rfl, -⟩ | ⟨hdone, hcarried, rfl, rfl⟩ |
    ⟨value, state, hcarried, hfine, happly, rfl⟩
  · cases ha'
  · exact h
  · obtain ⟨htype, hsome⟩ := hevent value hcarried
    obtain ⟨n, hn⟩ := Option.isSome_iff_exists.1 hsome
    obtain ⟨hlast, -⟩ := ResponsesTurnState.applyValue_sequence htype hn happly
    rw [applyEvent_carried hcarried, applyEventValue_responses (by exact hmode) hfine]
    simp only [ResponsesTurnState.applyValue_again htype hn hlast, Sunk.attempt_pure]

/-! ## Runs of events -/

theorem applyEvents_open (ha : a.complete = false) (events : List SseEvent) : a.applyEvents codec (event :: events) =
    (a.applyEvent codec event).attempt fun a => a.applyEvents codec events := by
  rw [applyEvents, if_neg (by rw [ha]; decide)]

theorem applyEvents_replicate (h : a.applyEvent codec event = (.ok a, [])) (again : Nat) (events : List SseEvent) :
    a.applyEvents codec (List.replicate again event ++ events) = a.applyEvents codec events := by
  induction again with
  | zero => rfl
  | succ again ih =>
    cases ha : a.complete with
    | true => rw [applyEvents_complete ha, applyEvents_complete ha]
    | false =>
      rw [List.replicate_succ, List.cons_append, applyEvents_open ha, h, Sunk.attempt_pure]
      exact ih

/-- **A run of events does not depend on redeliveries.** -/
theorem applyEvents_redelivered {events events' : List SseEvent} (h : Redelivered events events')
    (ha : a.complete = false) (hmode : a.mode = .responses) (hevents : ∀ event ∈ events, Sequenced codec event) :
    a.applyEvents codec events' = a.applyEvents codec events := by
  induction h generalizing a with
  | nil => rfl
  | cons event again _ ih =>
    rw [applyEvents_open ha, applyEvents_open ha]
    cases hfirst : a.applyEvent codec event with
    | mk x called =>
      cases x with
      | error e => rfl
      | ok a₁ =>
        rw [Sunk.attempt_ok, Sunk.attempt_ok]
        cases ha₁ : a₁.complete with
        | true => rw [applyEvents_complete ha₁, applyEvents_complete ha₁]
        | false =>
          have hagain := applyEvent_again ha hmode (hevents event (List.mem_cons_self ..)) hfirst ha₁
          rw [applyEvents_replicate hagain, ih ha₁ (applyEvent_frame ha hmode hfirst).1
            fun event hevent => hevents event (List.mem_cons_of_mem _ hevent)]

theorem applyEvent_newest (hmode : a.mode = .responses) (hevent : Sequenced codec event)
    (h : a.applyEvent codec event = (.ok a', calls)) {m : Nat}
    (hm : a.lastSequence = some m ∨ sequenceOf codec event = some m) : ∃ last, a'.lastSequence = some last ∧ m ≤ last := by
  have hsame (hcarried : carried codec event = none) (hlast : a'.lastSequence = a.lastSequence) :
      ∃ last, a'.lastSequence = some last ∧ m ≤ last := by
    rcases hm with hm | hm
    · exact ⟨m, hlast.trans hm, Nat.le_refl m⟩
    · rw [sequenceOf, hcarried] at hm
      cases hm
  rcases applyEvent_cases hmode h with ⟨hdone, rfl, -⟩ | ⟨-, hcarried, rfl, -⟩ | ⟨value, state, hcarried, -, happly, rfl⟩
  · exact hsame (if_pos (.inl hdone)) rfl
  · exact hsame hcarried rfl
  · obtain ⟨htype, hsome⟩ := hevent value hcarried
    obtain ⟨n, hn⟩ := Option.isSome_iff_exists.1 hsome
    obtain ⟨hlast, hle⟩ := ResponsesTurnState.applyValue_sequence htype hn happly
    refine ⟨n, hlast, ?_⟩
    rcases hm with hm | hm
    · exact hle m hm
    · rw [sequenceOf, hcarried, Option.bind_some, hn, Option.some.injEq] at hm
      omega

/-- **After a run of events** that are not terminal, the last sequence number is the greatest. -/
theorem applyEvents_newest {events : List SseEvent} (ha : a.complete = false) (hmode : a.mode = .responses)
    (hevents : ∀ event ∈ events, Sequenced codec event) (hopen : ∀ event ∈ events, isTerminal codec event = false)
    (h : a.applyEvents codec events = (.ok a', calls)) : a'.complete = false ∧ a'.mode = .responses ∧
      ∀ m, (a.lastSequence = some m ∨ ∃ event ∈ events, sequenceOf codec event = some m) →
        ∃ last, a'.lastSequence = some last ∧ m ≤ last := by
  induction events generalizing a calls with
  | nil =>
    cases h
    refine ⟨ha, hmode, fun m hm => ?_⟩
    rcases hm with hm | ⟨event, hmem, -⟩
    · exact ⟨m, hm, Nat.le_refl m⟩
    · cases hmem
  | cons event events ih =>
    rw [applyEvents_open ha] at h
    cases hfirst : a.applyEvent codec event with
    | mk x called =>
      rw [hfirst] at h
      cases x with
      | error e => cases h
      | ok a₁ =>
        rw [Sunk.attempt_ok, Prod.mk.injEq] at h
        obtain ⟨hmode₁, hcomplete₁⟩ := applyEvent_frame ha hmode hfirst
        rw [hopen event (List.mem_cons_self ..)] at hcomplete₁
        obtain ⟨ha', hmode', hnewest⟩ := ih hcomplete₁ hmode₁ (fun event hevent => hevents event (List.mem_cons_of_mem _ hevent))
          (fun event hevent => hopen event (List.mem_cons_of_mem _ hevent)) (Prod.ext h.1 rfl)
        have hstep {m : Nat} (hm : a.lastSequence = some m ∨ sequenceOf codec event = some m) :
            ∃ last, a'.lastSequence = some last ∧ m ≤ last := by
          obtain ⟨last, hlast, hle⟩ := applyEvent_newest hmode (hevents event (List.mem_cons_self ..)) hfirst hm
          obtain ⟨last', hlast', hle'⟩ := hnewest last (.inl hlast)
          exact ⟨last', hlast', hle.trans hle'⟩
        refine ⟨ha', hmode', fun m hm => ?_⟩
        rcases hm with hm | ⟨event', hmem, hm⟩
        · exact hstep (.inl hm)
        · rcases List.mem_cons.1 hmem with rfl | hmem
          · exact hstep (.inr hm)
          · exact hnewest m (.inr ⟨event', hmem, hm⟩)

theorem applyEvents_late {before after : List SseEvent} {earlier late : SseEvent} {m : Nat} (ha : a.complete = false)
    (hmode : a.mode = .responses) (hevents : ∀ event ∈ before ++ late :: after, Sequenced codec event)
    (hopen : ∀ event ∈ before, isTerminal codec event = false) (hearlier : earlier ∈ before)
    (hm : sequenceOf codec earlier = some m) (hn : sequenceOf codec late = some n) (hlate : n < m) :
    ∃ e, (a.applyEvents codec (before ++ late :: after)).1 = .error e := by
  rw [applyEvents_append]
  cases hrun : a.applyEvents codec before with
  | mk x called =>
    cases x with
    | error e => exact ⟨e, rfl⟩
    | ok a₁ =>
      obtain ⟨ha₁, hmode₁, hnewest⟩ := applyEvents_newest ha hmode
        (fun event hevent => hevents event (List.mem_append_left _ hevent)) hopen hrun
      obtain ⟨last, hlast, hle⟩ := hnewest m (.inr ⟨earlier, hearlier, hm⟩)
      obtain ⟨value, hcarried, hvalue⟩ := Option.bind_eq_some_iff.1 hn
      obtain ⟨htype, -⟩ := hevents late (List.mem_append_right _ (List.mem_cons_self ..)) value hcarried
      rw [Sunk.attempt_ok, applyEvents_open ha₁, applyEvent_carried hcarried]
      by_cases hfine : value.hasError ∨ late.event = some "error"
      · rw [applyEventValue, if_pos hfine]
        exact ⟨_, rfl⟩
      · obtain ⟨e, he⟩ : ∃ e, a₁.responses.state.applyValue codec a₁.responses.allowCumulativeDelta value = (.error e, []) :=
          ResponsesTurnState.applyValue_late htype hvalue hlast (by omega)
        rw [applyEventValue_responses hmode₁ hfine, he]
        exact ⟨e, rfl⟩

end TurnAssembly

/-! ## Responses -/

/-- **A stream of sequenced events** decodes to the same turn or error, with the same calls of the sink, when events are
delivered again right after themselves; and it fails if an event before the end comes after one of a greater number. -/
theorem redelivery {codec : WireCodec} {config : DecoderConfig} {chunks : List (List UInt8)}
    (hmode : config.mode = .responses) (hsse : detectSse config.contentType chunks.flatten = some true)
    (hevents : ∀ event ∈ eventsOf chunks.flatten, Sequenced codec event) :
    (∀ chunks', detectSse config.contentType chunks'.flatten = some true →
      Redelivered (eventsOf chunks.flatten) (eventsOf chunks'.flatten) →
      decodeChunks codec config chunks' = decodeChunks codec config chunks) ∧
    ∀ before late after, eventsOf chunks.flatten = before ++ late :: after →
      (∀ event ∈ before, isTerminal codec event = false) →
      ∀ m n, (∃ event ∈ before, sequenceOf codec event = some m) → sequenceOf codec late = some n → n < m →
        ∃ e, (decodeChunks codec config chunks).1 = .error e := by
  constructor
  · intro chunks' hsse' hagain
    rw [decode_chunks, decode_chunks, decode_events hsse', decode_events hsse,
      TurnAssembly.applyEvents_redelivered hagain rfl hmode hevents]
  · rintro before late after hsplit hopen m n ⟨earlier, hearlier, hm⟩ hn hlate
    rw [hsplit] at hevents
    obtain ⟨e, he⟩ := TurnAssembly.applyEvents_late (a := config.start) rfl hmode hevents hopen hearlier hm hn hlate
    rw [decode_chunks, decode_events hsse, hsplit]
    generalize hrun : config.start.applyEvents codec (before ++ late :: after) = run at he
    obtain ⟨x, called⟩ := run
    cases he
    exact ⟨e, rfl⟩

/-! Streams of three events. -/

def numberedValue (sequence : Nat) (type : String) (rest : List (String × Value)) : Value :=
  .object (rest ++ [("sequence_number", .number (.int sequence)), ("type", .string type)])

def numberedText (sequence : Nat) (type : String) : List Char :=
  "\x7b\"type\":\"".toList ++ type.toList ++ "\",\"sequence_number\":".toList ++ (toString sequence).toList ++ "\x7d".toList

/-- An event that is numbered, of a type. -/
def numbered (event : Nat × String) : SseEvent := ⟨none, numberedText event.1 event.2, none, none⟩

def numberedCodec : WireCodec :=
  tableCodec [
    (numberedText 1 "response.created", numberedValue 1 "response.created" []),
    (numberedText 2 "response.output_text.delta", numberedValue 2 "response.output_text.delta" [("delta", .string "b")]),
    (numberedText 3 "response.output_text.delta", numberedValue 3 "response.output_text.delta" [("delta", .string "a")]),
    (numberedText 4 "response.completed", numberedValue 4 "response.completed" [("response", .object [])])] []

def numberedBody (events : List (Nat × String)) : List UInt8 :=
  events.flatMap fun event => dataEvent (numberedText event.1 event.2)

theorem redelivery_again_and_late :
    decodeChunks numberedCodec plainResponses
        [numberedBody [(1, "response.created"), (3, "response.output_text.delta")],
          numberedBody [(3, "response.output_text.delta"), (4, "response.completed"), (4, "response.completed")]] =
      decodeChunks numberedCodec plainResponses
        [numberedBody [(1, "response.created"), (3, "response.output_text.delta"), (4, "response.completed")]] ∧
    ∃ e, (decodeChunks numberedCodec plainResponses [numberedBody [(1, "response.created"),
      (3, "response.output_text.delta"), (2, "response.output_text.delta"), (4, "response.completed")]]).1 = .error e := by
  constructor
  · refine (redelivery rfl (by decide) (by decide +kernel)).1 _ (by decide) ?_
    rw [show eventsOf _ = [numbered (1, "response.created"), numbered (3, "response.output_text.delta"),
        numbered (4, "response.completed")] by decide +kernel,
      show eventsOf _ = [numbered (1, "response.created"), numbered (3, "response.output_text.delta"),
        numbered (3, "response.output_text.delta"), numbered (4, "response.completed"),
        numbered (4, "response.completed")] by decide +kernel]
    exact .cons _ 0 (.cons _ 1 (.cons _ 1 .nil))
  · exact (redelivery rfl (by decide) (by decide +kernel)).2
      [numbered (1, "response.created"), numbered (3, "response.output_text.delta")]
      (numbered (2, "response.output_text.delta")) [numbered (4, "response.completed")] (by decide +kernel)
      (by decide +kernel) 3 2 (by decide +kernel) (by decide +kernel) (by decide)

end Aifluxon
