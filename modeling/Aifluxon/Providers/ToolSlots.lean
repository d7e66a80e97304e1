import Aifluxon.Providers.Cumulative
import Aifluxon.Providers.Sizes
import Aifluxon.Providers.ToolEntries

/-!
# The places of the tool calls

An entry that has an index goes to the place of its index, and the places before it are filled; an entry without an index
opens at most one.

* `ToolEntry.opens`, `opened` : the entries without an index that open a place;
* `Fits`, `fits_of_places`, `places_of_fits` : every index is low enough for the places that are opened after it, exactly
  when the places are few;
* `bodyToolSteps` : the steps of a body;
* `LiveStreamDecoder.Pushed`, `.Fed` : the decoders that are reached by pushing a body, and what they hold;
* `tool_slots_iff` : when there are never more places than the body has bytes.
-/

namespace Aifluxon

/-! ## Indices -/

section
variable {before : List (Nat × ToolEntry)} {entry : ToolEntry} {n : Nat}

/-- An entry without an index that opens a place. -/
def ToolEntry.opens (before : List (Nat × ToolEntry)) (entry : ToolEntry) : Bool :=
  deltaIndex entry.delta = none ∧ entry.place before = places before

/-- How many places entries without an index open. -/
def opened (before : List (Nat × ToolEntry)) : List ToolEntry → Nat
  | [] => 0
  | entry :: entries =>
    (if entry.opens before then 1 else 0) + opened (before ++ [(entry.place before, entry)]) entries

/-- Every index, with the places that are opened after it, is below `n`. -/
def Fits (n : Nat) (before : List (Nat × ToolEntry)) : List ToolEntry → Prop
  | [] => True
  | entry :: entries =>
    (∀ i ∈ deltaIndex entry.delta, i + opened (before ++ [(entry.place before, entry)]) entries < n) ∧
      Fits n (before ++ [(entry.place before, entry)]) entries

instance decidableFits (n : Nat) : ∀ (before : List (Nat × ToolEntry)) (entries : List ToolEntry),
    Decidable (Fits n before entries)
  | _, [] => inferInstanceAs (Decidable True)
  | before, entry :: entries =>
    have := decidableFits n (before ++ [(entry.place before, entry)]) entries
    inferInstanceAs (Decidable ((∀ i ∈ deltaIndex entry.delta,
      i + opened (before ++ [(entry.place before, entry)]) entries < n) ∧ _))

theorem place_indexed {i : Nat} (h : deltaIndex entry.delta = some i) : entry.place before = i := by
  rw [ToolEntry.place, h]

theorem place_le (h : deltaIndex entry.delta = none) : entry.place before ≤ places before := by
  rw [ToolEntry.place, h]
  simp only
  split
  · rename_i id _
    cases hfind : (List.range (places before)).findIdx? fun place => decide (identifier (entriesAt before place) = id) with
    | none => exact Nat.le_refl _
    | some i =>
      obtain ⟨hi, -⟩ := List.findIdx?_eq_some_iff_findIdx_eq.1 hfind
      rw [List.length_range] at hi
      exact hi.le
  · exact Nat.min_le_right _ _

/-- An entry without an index opens a place, or none. -/
theorem places_unindexed (h : deltaIndex entry.delta = none) :
    places (before ++ [(entry.place before, entry)]) = places before + if entry.opens before then 1 else 0 := by
  have hle : entry.place before ≤ places before := place_le h
  rw [places_append]
  by_cases hopens : entry.opens before = true
  · obtain ⟨-, hplace⟩ := of_decide_eq_true hopens
    rw [if_pos hopens, hplace]
    omega
  · have hne : entry.place before ≠ places before := fun heq => hopens (decide_eq_true ⟨h, heq⟩)
    rw [if_neg hopens]
    omega

/-- What has an index opens no place without one. -/
theorem opens_indexed {i : Nat} (h : deltaIndex entry.delta = some i) : entry.opens before = false := by
  rw [ToolEntry.opens, h]
  simp

theorem places_ge (entries : List ToolEntry) :
    places before + opened before entries ≤ places (placedAfter before entries) := by
  induction entries generalizing before with
  | nil => exact Nat.le_refl _
  | cons entry entries ih =>
    have hlater := @ih (before ++ [(entry.place before, entry)])
    rw [opened, placedAfter]
    cases hindex : deltaIndex entry.delta with
    | some i =>
      rw [places_append] at hlater
      rw [opens_indexed hindex, if_neg Bool.false_ne_true]
      omega
    | none =>
      rw [places_unindexed hindex] at hlater
      omega

/-- **Where the places are few, the indices are low.** -/
theorem fits_of_places {entries : List ToolEntry} (h : places (placedAfter before entries) ≤ n) :
    Fits n before entries := by
  induction entries generalizing before with
  | nil => exact trivial
  | cons entry entries ih =>
    refine ⟨fun i hi => ?_, ih h⟩
    have hge := @places_ge (before ++ [(entry.place before, entry)]) entries
    rw [placedAfter] at h
    rw [places_append, place_indexed hi] at hge
    rw [place_indexed hi] at h ⊢
    omega

/-- **Where the indices are low, the places are few.** -/
theorem places_of_fits {entries : List ToolEntry} (hfits : Fits n before entries)
    (hn : places before + opened before entries ≤ n) : places (placedAfter before entries) ≤ n := by
  induction entries generalizing before with
  | nil => exact hn
  | cons entry entries ih =>
    obtain ⟨hindices, hrest⟩ := hfits
    apply ih hrest
    rw [opened] at hn
    cases hindex : deltaIndex entry.delta with
    | some i =>
      have hlow := hindices i hindex
      rw [places_append]
      rw [place_indexed hindex] at hlow hn ⊢
      omega
    | none =>
      rw [places_unindexed hindex]
      omega

theorem opened_le (entries : List ToolEntry) : opened before entries ≤ entries.length := by
  induction entries generalizing before with
  | nil => exact Nat.le_refl _
  | cons entry entries ih =>
    have hlater := @ih (before ++ [(entry.place before, entry)])
    rw [opened, List.length_cons]
    split <;> omega

end

namespace ToolCallAssembler

variable {a : ToolCallAssembler}

theorem step_length_mono (step : ToolStep) : a.calls.length ≤ (a.step step).calls.length := by
  cases step with
  | delta delta fallbackPosition snapshot =>
    show _ ≤ (a.applyChatDelta delta fallbackPosition snapshot).calls.length
    rw [applyChatDelta_length]
    omega
  | item position item =>
    show _ ≤ (a.applyChatDelta _ position true).calls.length
    rw [applyChatDelta_length]
    omega
  | gemini => exact Nat.le_refl _

theorem run_length_mono (steps : List ToolStep) : a.calls.length ≤ (a.run steps).calls.length := by
  induction steps generalizing a with
  | nil => exact Nat.le_refl _
  | cons step steps ih => exact (a.step_length_mono step).trans ih

end ToolCallAssembler

/-! ## The steps of a value -/

/-- A step that has an entry. -/
def ToolStep.isEntry : ToolStep → Bool
  | .delta _ _ _ | .item _ _ => true
  | .gemini => false

theorem toolEntries_length (metadata gemini : Bool) (steps : List (Nat × ToolStep)) :
    (toolEntries metadata gemini steps).length = (steps.map Prod.snd).countP ToolStep.isEntry := by
  induction steps generalizing metadata gemini with
  | nil => rfl
  | cons step steps ih =>
    obtain ⟨message, step⟩ := step
    rw [List.map_cons, List.countP_cons]
    cases step with
    | delta | item =>
      rw [toolEntries, List.length_cons, ih]
      rfl
    | gemini =>
      rw [toolEntries, ih]
      rfl

theorem chatPiece_toolCalls_le (value : Value) : value.chatPiece.toolCalls.length ≤ value.size := by
  unfold Value.chatPiece
  cases hchoice : value.choice with
  | none => exact Nat.zero_le _
  | some choice =>
    obtain ⟨choices, hchoices, hhead⟩ := Option.bind_eq_some_iff.1 hchoice
    obtain ⟨items, hitems, harray⟩ := Option.bind_eq_some_iff.1 hchoices
    have hsize : choice.size ≤ value.size :=
      (Value.size_asArray_le harray (List.mem_of_head? hhead)).trans (Value.size_get_le hitems)
    simp only
    cases hdelta : choiceDelta choice with
    | none => exact Nat.zero_le _
    | some r =>
      obtain ⟨delta, snapshot⟩ := r
      have hle : delta.size ≤ choice.size := by
        unfold choiceDelta at hdelta
        split at hdelta
        · rename_i hget
          cases hdelta
          exact Value.size_get_le hget
        · obtain ⟨message, hget, heq⟩ := Option.map_eq_some_iff.1 hdelta
          cases heq
          exact Value.size_get_le hget
      exact (Value.length_field_le delta "tool_calls").trans (hle.trans hsize)

/-- A value of Chat Completions has no more entries than it has values in it. -/
theorem chatToolSteps_count (value : Value) : (chatToolSteps value).countP ToolStep.isEntry ≤ value.size := by
  have hgemini (found : Bool) : (if found then [ToolStep.gemini] else []).countP ToolStep.isEntry = 0 := by
    cases found <;> rfl
  have hcalls : (value.chatPiece.toolCalls.zipIdx.map fun call =>
      ToolStep.delta call.1 call.2 value.chatPiece.snapshot).countP ToolStep.isEntry ≤ value.size := by
    refine List.countP_le_length.trans ?_
    rw [List.length_map, List.length_zipIdx]
    exact chatPiece_toolCalls_le value
  simp only [chatToolSteps, List.countP_append, hgemini, Nat.zero_add]
  exact hcalls

theorem terminalSnapshot_size {value response : Value} (h : terminalSnapshot value = some response) :
    response.size ≤ value.size := by
  unfold terminalSnapshot at h
  split at h
  · cases h
    exact Nat.le_refl _
  · split at h
    · exact Value.size_get_le h
    · exact Value.size_get_le h
    · exact Value.size_get_le h
    · cases h

theorem functionCallStep_length (item : Value) (step : ToolStep) : (functionCallStep item step).length ≤ 1 := by
  unfold functionCallStep
  split <;> simp

theorem snapshotToolSteps_length (response : Value) : (snapshotToolSteps response).length ≤ response.size := by
  have hitems (items : List (Value × Nat)) :
      (items.flatMap fun item => functionCallStep item.1 (.item item.2 item.1)).length ≤ items.length := by
    induction items with
    | nil => exact Nat.le_refl _
    | cons item items ih =>
      have hone := functionCallStep_length item.1 (.item item.2 item.1)
      rw [List.flatMap_cons, List.length_append, List.length_cons]
      omega
  refine (hitems _).trans ?_
  rw [List.length_zipIdx]
  exact Value.length_field_le response "output"

/-- An event of the Responses API has no more entries than it has values in it. -/
theorem responsesToolSteps_length (value : Value) : (responsesToolSteps value).length ≤ value.size := by
  have hpos := value.size_pos
  have hone (item : Value) (step : ToolStep) : (functionCallStep item step).length ≤ value.size :=
    (functionCallStep_length item step).trans hpos
  unfold responsesToolSteps
  split
  iterate 9 exact Nat.zero_le _
  · split
    · exact hone _ _
    · exact Nat.zero_le _
  · split
    · exact hpos
    · exact Nat.zero_le _
  · split
    · exact hpos
    · exact Nat.zero_le _
  · split
    · exact hone _ _
    · exact Nat.zero_le _
  · split
    · rename_i hsnapshot
      exact (snapshotToolSteps_length _).trans (terminalSnapshot_size hsnapshot)
    · exact Nat.zero_le _

/-! ## The steps of events -/

namespace TurnAssembly

variable {codec : WireCodec} {a : TurnAssembly} {n : Nat}

/-- The data of an event has at least as many characters as there are values in it. -/
theorem carried_size (hcodec : JsonSizes codec) {event : SseEvent} {value : Value} (h : carried codec event = some value) :
    value.size ≤ event.data.length := by
  unfold carried at h
  split at h
  · cases h
  · exact hcodec.text h

/-- **A value has no more entries than it has values in it.** -/
theorem toolSteps_count (a : TurnAssembly) (value : Value) :
    (a.toolSteps codec value).countP ToolStep.isEntry ≤ value.size := by
  unfold toolSteps
  split
  · exact chatToolSteps_count value
  · split
    · exact List.countP_le_length.trans (responsesToolSteps_length value)
    · exact Nat.zero_le _

theorem eventToolSteps_count (hcodec : JsonSizes codec) (event : SseEvent) :
    (a.eventToolSteps codec event).countP ToolStep.isEntry ≤ event.data.length := by
  unfold eventToolSteps
  cases hcarried : carried codec event with
  | none => exact Nat.zero_le _
  | some value => exact (a.toolSteps_count value).trans (carried_size hcodec hcarried)

theorem eventsToolSteps_count (hcodec : JsonSizes codec) (events : List SseEvent) :
    (a.eventsToolSteps codec events).flatten.countP ToolStep.isEntry ≤ dataLength events := by
  induction events generalizing a with
  | nil => exact Nat.zero_le _
  | cons event events ih =>
    have hevent := a.eventToolSteps_count hcodec event
    rw [eventsToolSteps]
    split
    · exact Nat.zero_le _
    · split
      · rename_i a' _
        have hrest := ih (a := a')
        rw [List.flatten_cons, List.countP_append]
        simp only [dataLength, List.map_cons, List.sum_cons] at hrest ⊢
        omega
      · exact Nat.zero_le _

end TurnAssembly

/-! ## The steps of a body -/

/-- The steps of a body: those of each of its events, or of the value that it is, if that is no error. -/
def bodyToolSteps (codec : WireCodec) (config : DecoderConfig) (body : List UInt8) : List (List ToolStep) :=
  if detectSse config.contentType body = some true then config.start.eventsToolSteps codec (eventsOf body)
  else match codec.fromSlice body with
    | none => []
    | some value =>
      if value.hasError then []
      else match (config.start.applyValue codec value).1 with
        | .ok _ => [config.start.toolSteps codec value]
        | .error _ => []

/-- The entries of a body. -/
def bodyEntries (codec : WireCodec) (config : DecoderConfig) (body : List UInt8) : List ToolEntry :=
  toolEntries config.start.tools.metadataSnapshots config.start.tools.geminiContract
    (numberedSteps (bodyToolSteps codec config body))

section
variable {codec : WireCodec} {config : DecoderConfig} {body : List UInt8}

/-- A body has no more entries than it has bytes. -/
theorem bodyEntries_length (hcodec : JsonSizes codec) : (bodyEntries codec config body).length ≤ body.length := by
  rw [bodyEntries, toolEntries_length, numberedSteps_snd]
  unfold bodyToolSteps
  split
  · exact (TurnAssembly.eventsToolSteps_count hcodec _).trans (eventsOf_length body)
  split
  · exact Nat.zero_le _
  rename_i value hvalue
  split
  · exact Nat.zero_le _
  split
  · rw [List.flatten_cons, List.flatten_nil, List.append_nil]
    exact (config.start.toolSteps_count value).trans (hcodec.bytes hvalue)
  · exact Nat.zero_le _

theorem start_calls (config : DecoderConfig) : config.start.tools.calls = [] := by
  obtain ⟨mode, allow, ⟨deepseek, gemini⟩, contentType⟩ := config
  cases mode <;> cases deepseek <;> cases gemini <;> rfl

/-- **The places of the steps of a body** are those of its entries. -/
theorem run_bodyToolSteps : (config.start.tools.run (bodyToolSteps codec config body).flatten).calls.length =
    places (placed (bodyEntries codec config body)) := by
  have hrun := (Reflects.nil (start_calls config)).run (numberedSteps (bodyToolSteps codec config body))
  rw [numberedSteps_snd] at hrun
  exact hrun.length

end

/-! ## The decoders of a body -/

namespace LiveStreamDecoder

/-- The decoders that are reached by pushing a body, in any pieces. -/
inductive Pushed (codec : WireCodec) (config : DecoderConfig) : List UInt8 → LiveStreamDecoder → Prop
  | start : Pushed codec config []
    (.new config.mode config.allowCumulativeDelta config.contract config.contentType)
  | push {bytes : List UInt8} {d d' : LiveStreamDecoder} (h : Pushed codec config bytes d) (chunk : List UInt8)
    (hpush : (d.push codec chunk).1 = .ok d') : Pushed codec config (bytes ++ chunk) d'

/-- What a decoder holds of the bytes that it was fed. -/
structure Fed (codec : WireCodec) (config : DecoderConfig) (bytes : List UInt8) (d : LiveStreamDecoder) : Prop where
  contentType : d.contentType = config.contentType
  undecided : d.sse = none → d.head = bytes ∧ d.parser = .new ∧ d.assembly = config.start ∧
    (bytes = [] ∨ detectSse config.contentType bytes = none)
  raw : d.sse = some false → d.assembly = config.start ∧ detectSse config.contentType bytes = some false
  events : d.sse = some true → detectSse config.contentType bytes = some true ∧
    d.parser = (IncrementalSseParser.new.push bytes).1 ∧
    (config.start.applyEvents codec (eventsOf bytes)).1 = .ok d.assembly

variable {codec : WireCodec} {config : DecoderConfig} {bytes chunk : List UInt8} {d d' : LiveStreamDecoder}

/-- A piece of a stream of events: its events are applied after those before. -/
theorem pushSse_fed {d : LiveStreamDecoder} (bytes chunk : List UInt8)
    (hsse : detectSse config.contentType (bytes ++ chunk) = some true)
    (htype : d.contentType = config.contentType) (hd : d.sse = some true)
    (hparser : d.parser = (IncrementalSseParser.new.push bytes).1)
    (hassembly : (config.start.applyEvents codec (eventsOf bytes)).1 = .ok d.assembly)
    (hpush : (d.pushSse codec chunk).1 = .ok d') : Fed codec config (bytes ++ chunk) d' := by
  obtain ⟨assembly, hevents, h⟩ := Sunk.attempt_eq_ok hpush
  cases h
  have hsplit := IncrementalSseParser.push_splits .new bytes chunk
  refine ⟨htype, ?_, ?_, fun _ => ⟨hsse, ?_, ?_⟩⟩
  · intro h
    rw [show _ = d.sse from rfl, hd] at h
    cases h
  · intro h
    rw [show _ = d.sse from rfl, hd] at h
    cases h
  · rw [hsplit, ← hparser]
    rfl
  · rw [eventsOf, hsplit, TurnAssembly.applyEvents_append]
    rw [eventsOf] at hassembly
    generalize config.start.applyEvents codec (IncrementalSseParser.new.push bytes).2 = x at hassembly
    obtain ⟨result, calls⟩ := x
    cases hassembly
    rw [Sunk.attempt_ok, ← hparser]
    exact hevents

/-- **A piece that is pushed.** -/
theorem Fed.push (h : Fed codec config bytes d) (hpush : (d.push codec chunk).1 = .ok d') :
    Fed codec config (bytes ++ chunk) d' := by
  unfold LiveStreamDecoder.push at hpush
  split at hpush
  · rename_i hsse
    obtain ⟨hassembly, hdetect⟩ := h.raw hsse
    cases hpush
    refine ⟨h.contentType, ?_, fun _ => ⟨hassembly, detectSse_mono hdetect chunk⟩, ?_⟩
    · intro hnone
      rw [show _ = d.sse from rfl, hsse] at hnone
      cases hnone
    · intro htrue
      rw [show _ = d.sse from rfl, hsse] at htrue
      cases htrue
  · rename_i hsse
    obtain ⟨hdetect, hparser, hassembly⟩ := h.events hsse
    exact pushSse_fed bytes chunk (detectSse_mono hdetect chunk) h.contentType hsse hparser hassembly hpush
  · rename_i hsse
    obtain ⟨hhead, hparser, hassembly, -⟩ := h.undecided hsse
    simp only [hhead, h.contentType] at hpush
    split at hpush
    · rename_i hdetect
      cases hpush
      refine ⟨rfl, fun _ => ⟨rfl, hparser, hassembly, .inr hdetect⟩, ?_, ?_⟩
      · intro hfalse
        rw [show _ = d.sse from rfl, hsse] at hfalse
        cases hfalse
      · intro htrue
        rw [show _ = d.sse from rfl, hsse] at htrue
        cases htrue
    · rename_i hdetect
      cases hpush
      refine ⟨rfl, ?_, fun _ => ⟨hassembly, hdetect⟩, ?_⟩
      · intro h
        cases h
      · intro h
        cases h
    · rename_i hdetect
      have hone : Fed codec config ([] ++ (bytes ++ chunk)) d' := by
        apply pushSse_fed (d := ⟨config.contentType, d.parser, [], d.raw, some true, d.assembly⟩) [] (bytes ++ chunk)
          hdetect rfl rfl hparser
        · rw [hassembly]
          rfl
        · exact hpush
      exact hone

theorem Pushed.fed (h : Pushed codec config bytes d) : Fed codec config bytes d := by
  induction h with
  | start => exact ⟨rfl, fun _ => ⟨rfl, rfl, rfl, .inl rfl⟩, (by intro h; cases h), (by intro h; cases h)⟩
  | push h chunk hpush ih => exact ih.push hpush

/-- The tool calls of the decoders of a body: of those that are reached by pushing it or a beginning of it, and after the
value that a body is which is no stream, if that is no error. -/
inductive Holds (codec : WireCodec) (config : DecoderConfig) (body : List UInt8) : ToolCallAssembler → Prop
  | pushed {bytes : List UInt8} {d : LiveStreamDecoder} (h : Pushed codec config bytes d) (hbytes : bytes <+: body) :
    Holds codec config body d.assembly.tools
  | whole {d : LiveStreamDecoder} {value : Value} {a : TurnAssembly} (h : Pushed codec config body d)
    (hsse : d.sse ≠ some true) (hvalue : codec.fromSlice body = some value) (hfine : value.hasError = false)
    (happly : (d.assembly.applyValue codec value).1 = .ok a) : Holds codec config body a.tools

/-- A stream that is pushed in one piece. -/
theorem holds_events {body : List UInt8} {a : TurnAssembly} (hsse : detectSse config.contentType body = some true)
    (h : (config.start.applyEvents codec (eventsOf body)).1 = .ok a) : Holds codec config body a.tools := by
  have hpush : ∃ d', ((LiveStreamDecoder.new config.mode config.allowCumulativeDelta config.contract
      config.contentType).push codec body).1 = .ok d' ∧ d'.assembly = a := by
    simp only [LiveStreamDecoder.push, LiveStreamDecoder.new, List.nil_append, hsse, pushSse]
    generalize hx : config.start.applyEvents codec (eventsOf body) = x at h
    obtain ⟨result, calls⟩ := x
    cases h
    rw [DecoderConfig.start, eventsOf] at hx
    rw [hx]
    exact ⟨_, rfl, rfl⟩
  obtain ⟨d', hd', rfl⟩ := hpush
  exact .pushed (.push .start body hd') (List.prefix_refl _)

/-- **What the decoders of a body hold** are the tool calls after some of its steps. -/
theorem Holds.steps (hcodec : JsonSizes codec) {body : List UInt8} {tools : ToolCallAssembler}
    (h : Holds codec config body tools) :
    ∃ steps, steps <+: (bodyToolSteps codec config body).flatten ∧ tools = config.start.tools.run steps := by
  cases h with
  | @pushed bytes d h hbytes =>
    have hfed := h.fed
    cases hsse : d.sse with
    | none => exact ⟨[], List.nil_prefix, by rw [(hfed.undecided hsse).2.2.1]; rfl⟩
    | some sse =>
      cases sse with
      | false => exact ⟨[], List.nil_prefix, by rw [(hfed.raw hsse).1]; rfl⟩
      | true =>
        obtain ⟨hdetect, -, hassembly⟩ := hfed.events hsse
        obtain ⟨more, rfl⟩ := hbytes
        obtain ⟨events, hevents⟩ := eventsOf_append bytes more
        refine ⟨_, ?_, TurnAssembly.applyEvents_tools hassembly⟩
        rw [bodyToolSteps, if_pos (detectSse_mono hdetect more), ← hevents]
        obtain ⟨later, hlater⟩ := @TurnAssembly.eventsToolSteps_append codec config.start (eventsOf bytes) events
        exact ⟨later.flatten, by rw [← hlater, List.flatten_append]⟩
  | @whole d value a h hsse hvalue hfine happly =>
    have hfed := h.fed
    have hstart : d.assembly = config.start ∧ detectSse config.contentType body ≠ some true := by
      cases hd : d.sse with
      | none =>
        obtain ⟨-, -, hassembly, hempty | hnone⟩ := hfed.undecided hd
        · have hsize := hcodec.bytes hvalue
          have hpos := value.size_pos
          rw [hempty, List.length_nil] at hsize
          omega
        · exact ⟨hassembly, by rw [hnone]; decide⟩
      | some sse =>
        cases sse with
        | false =>
          obtain ⟨hassembly, hdetect⟩ := hfed.raw hd
          exact ⟨hassembly, by rw [hdetect]; decide⟩
        | true => exact absurd hd hsse
    rw [hstart.1] at happly
    refine ⟨_, List.prefix_refl _, ?_⟩
    have hsteps : bodyToolSteps codec config body = [config.start.toolSteps codec value] := by
      simp only [bodyToolSteps, if_neg hstart.2, hvalue, hfine, Bool.false_eq_true, if_false, happly]
    rw [hsteps, List.flatten_cons, List.flatten_nil, List.append_nil]
    exact TurnAssembly.applyValue_tools happly

end LiveStreamDecoder

/-- **The tool calls of a body never have more places than it has bytes** exactly when every index in it is low: with the
places that entries without an index open after it, it is below the number of bytes. Then no decoder of the body holds
more. -/
theorem tool_slots_iff {codec : WireCodec} (hcodec : JsonSizes codec) (config : DecoderConfig) (body : List UInt8) :
    ((∀ steps, steps <+: (bodyToolSteps codec config body).flatten →
        (config.start.tools.run steps).calls.length ≤ body.length) ↔
      Fits body.length [] (bodyEntries codec config body)) ∧
    (Fits body.length [] (bodyEntries codec config body) →
      ∀ tools, LiveStreamDecoder.Holds codec config body tools → tools.calls.length ≤ body.length) := by
  have hplaces := @run_bodyToolSteps codec config body
  have hrun (hfits : Fits body.length [] (bodyEntries codec config body)) (steps : List ToolStep)
      (hsteps : steps <+: (bodyToolSteps codec config body).flatten) :
      (config.start.tools.run steps).calls.length ≤ body.length := by
    obtain ⟨more, hmore⟩ := hsteps
    have hopened := (@opened_le [] (bodyEntries codec config body)).trans (bodyEntries_length hcodec)
    have hall : places (placed (bodyEntries codec config body)) ≤ body.length :=
      places_of_fits hfits (by rwa [show places [] = 0 from rfl, Nat.zero_add])
    have hmono := (config.start.tools.run steps).run_length_mono more
    rw [← ToolCallAssembler.run_append, hmore, hplaces] at hmono
    exact hmono.trans hall
  refine ⟨⟨fun h => fits_of_places ?_, hrun⟩, fun hfits tools htools => ?_⟩
  · have hall := h _ (List.prefix_refl _)
    rw [hplaces] at hall
    exact hall
  · obtain ⟨steps, hsteps, rfl⟩ := htools.steps hcodec
    exact hrun hfits steps hsteps

/-! A stream of one delta with an index. -/

def indexValue (index : Nat) : Value :=
  .object [("choices", .array [.object [("delta", .object [("tool_calls", .array [
    .object [("index", .number (.int index))]])])]])]

def indexText (index : Nat) : List Char :=
  "\x7b\"choices\":[\x7b\"delta\":\x7b\"tool_calls\":[\x7b\"index\":".toList ++ (toString index).toList ++
    "\x7d]\x7d\x7d]\x7d".toList

def indexBody (index : Nat) : List UInt8 := dataEvent (indexText index)

def indexCodec (index : Nat) : WireCodec := tableCodec [(indexText index, indexValue index)] []

/-- One delta fills more places than the body has bytes. -/
theorem index_fills_places : ∃ tools,
    LiveStreamDecoder.Holds (indexCodec 1000000) (customDecoder eventStream) (indexBody 1000000) tools ∧
      (indexBody 1000000).length < tools.calls.length := by
  have hevents : eventsOf (indexBody 1000000) = [⟨none, indexText 1000000, none, none⟩] := by decide +kernel
  have hcarried : carried (indexCodec 1000000) ⟨none, indexText 1000000, none, none⟩ = some (indexValue 1000000) := by
    decide +kernel
  have happly : ((customDecoder eventStream).start.applyEvents (indexCodec 1000000) (eventsOf (indexBody 1000000))).1 =
      .ok { (customDecoder eventStream).start with
        chat := ((customDecoder eventStream).start.chat.applyValue (indexValue 1000000)).1 } := by
    rw [hevents]
    simp only [TurnAssembly.applyEvents, DecoderConfig.start, Bool.false_eq_true, if_false]
    rw [TurnAssembly.applyEvent_carried hcarried]
    rfl
  have hplaces : ((customDecoder eventStream).start.chat.applyValue (indexValue 1000000)).1.tools.calls.length = 1000001 := by
    rw [ChatCompletionsTurnAssembler.applyValue_tools,
      show chatToolSteps (indexValue 1000000) = [.delta (.object [("index", .number (.int 1000000))]) 0 false] from rfl,
      ToolCallAssembler.run_cons, ToolCallAssembler.run_nil]
    show (ToolCallAssembler.applyChatDelta _ _ 0 false).calls.length = 1000001
    rw [ToolCallAssembler.applyChatDelta_length, ToolCallAssembler.index_of_some (i := 1000000) (by decide)]
    decide
  refine ⟨_, LiveStreamDecoder.holds_events (by decide) happly, ?_⟩
  show _ < ((customDecoder eventStream).start.chat.applyValue (indexValue 1000000)).1.tools.calls.length
  rw [hplaces]
  decide +kernel

/-- A low index fills fewer. -/
theorem tool_slots_iff_index :
    Fits (indexBody 7).length [] (bodyEntries (indexCodec 7) (customDecoder eventStream) (indexBody 7)) ∧
      ∀ tools, LiveStreamDecoder.Holds (indexCodec 7) (customDecoder eventStream) (indexBody 7) tools →
        tools.calls.length ≤ (indexBody 7).length := by
  have hfits : Fits (indexBody 7).length [] (bodyEntries (indexCodec 7) (customDecoder eventStream) (indexBody 7)) := by
    decide +kernel
  exact ⟨hfits, (tool_slots_iff (tableCodec_sizes (by decide) []) (customDecoder eventStream) (indexBody 7)).2 hfits⟩

end Aifluxon
