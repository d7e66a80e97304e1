import Aifluxon.Providers.Lifecycle
import Aifluxon.Providers.ToolSlots

/-!
# A response as a stream and as one value

The same response comes as a stream of its items, or as one JSON value. The stream does every item as it comes, and all
of them again at its end.

* `ReplayState.keep_all`, `keep_again` : items with distinct identifiers are kept once;
* `GeneratedArtifactState.capture_again` : so are the images;
* `ItemCalls`, `ItemCalls.unique`, `ItemCalls.snapshot` : the tool calls of items;
* `ItemEvents`, `ItemStream` : the stream of a list of items;
* `ItemStream.calls`, `ItemStream.items_text` : what it comes to;
* `same_response` : the two turns are the same but for the reasoning, where no delta begins with its part so far;
* `snapshot_delta_lost` : else the stream can fail.
-/

namespace Aifluxon

open ResponsesTurnState (PartKind)

variable {codec : WireCodec} {allow : Bool}

/-! ## Items that are done again -/

/-- Items that have identifiers, no two the same. -/
def DistinctItems (items : List Value) : Prop :=
  (∀ item ∈ items, (itemId item).isSome = true) ∧ (items.map itemId).Nodup

theorem DistinctItems.init {items : List Value} {item : Value} (h : DistinctItems (items ++ [item])) :
    DistinctItems items ∧ (itemId item).isSome = true ∧ ∀ x ∈ items, itemId x ≠ itemId item := by
  obtain ⟨hsome, hnodup⟩ := h
  rw [List.map_append, List.nodup_append] at hnodup
  refine ⟨⟨fun x hx => hsome x (List.mem_append_left _ hx), hnodup.1⟩, hsome item (by simp), fun x hx => ?_⟩
  exact hnodup.2.2 _ (List.mem_map_of_mem hx) _ (by simp)

/-- An item of the kinds that are kept. -/
def isKept (item : Value) : Bool := eventType item = some "reasoning" ∨ eventType item = some "web_search_call"

/-- The key of a kept item says its identifier. -/
theorem replayItemKey_inj {x y : Value} (hx : isKept x = true) (hy : isKept y = true) {key : String}
    (hkx : replayItemKey x = some key) (hky : replayItemKey y = some key) : itemId x = itemId y := by
  have hread {item : Value} {type : String} (htype : eventType item = some type)
      (hkey : replayItemKey item = some key) :
      ∃ id, itemId item = some id ∧ type.toList ++ (':' :: id.toList) = key.toList := by
    rw [replayItemKey, htype] at hkey
    cases hid : itemId item with
    | none =>
      rw [hid] at hkey
      cases hkey
    | some id =>
      rw [hid] at hkey
      cases hkey
      refine ⟨id, rfl, ?_⟩
      simp
  have hsame {type : String} (hx : eventType x = some type) (hy : eventType y = some type) : itemId x = itemId y := by
    obtain ⟨idx, hidx, htx⟩ := hread hx hkx
    obtain ⟨idy, hidy, hty⟩ := hread hy hky
    have hid := List.append_cancel_left (htx.trans hty.symm)
    rw [hidx, hidy, String.toList_inj.1 (List.cons.inj hid).2]
  have hother {type type' : String} (hx : eventType x = some type) (hy : eventType y = some type')
      (hne : ∀ s t : List Char, type.toList ++ s ≠ type'.toList ++ t) : itemId x = itemId y := by
    obtain ⟨idx, hidx, htx⟩ := hread hx hkx
    obtain ⟨idy, hidy, hty⟩ := hread hy hky
    exact absurd (htx.trans hty.symm) (hne _ _)
  rcases of_decide_eq_true hx with hx | hx <;> rcases of_decide_eq_true hy with hy | hy
  · exact hsame hx hy
  · exact hother hx hy (by intro s t; simp)
  · exact hother hx hy (by intro s t; simp)
  · exact hsame hx hy

/-! ### Kept items -/

namespace ReplayState

variable {replay : ReplayState} {items : List Value} {item : Value}

theorem upsertBy_new {p : Value → Bool} (h : ∀ x ∈ items, p x = false) (item : Value) :
    upsertBy p item items = items ++ [item] := by
  induction items with
  | nil => rfl
  | cons x items ih =>
    rw [upsertBy, if_neg (by simp [h x (List.mem_cons_self ..)]), ih fun y hy => h y (List.mem_cons_of_mem _ hy)]
    rfl

/-- An item that is there comes to its own place. -/
theorem upsertBy_mem {p : Value → Bool} (hmem : item ∈ items) (hp : ∀ x ∈ items, p x = true → x = item)
    (hitem : p item = true) : upsertBy p item items = items := by
  induction items with
  | nil => cases hmem
  | cons x items ih =>
    rw [upsertBy]
    split
    · rename_i hx
      rw [hp x (List.mem_cons_self ..) hx]
    · rename_i hx
      rcases List.mem_cons.1 hmem with rfl | hmem
      · exact absurd hitem hx
      · rw [ih hmem fun y hy => hp y (List.mem_cons_of_mem _ hy)]

theorem keep_of_not (h : isKept item = false) : replay.keep item = replay := by
  rw [keep, if_neg (of_decide_eq_false h)]

/-- A kept item with an identifier has a key. -/
theorem replayItemKey_kept (hkept : isKept item = true) (hid : (itemId item).isSome = true) :
    ∃ key, replayItemKey item = some key := by
  obtain ⟨id, hid⟩ := Option.isSome_iff_exists.1 hid
  unfold replayItemKey
  rw [hid]
  rcases of_decide_eq_true hkept with htype | htype <;> rw [htype] <;> exact ⟨_, rfl⟩

/-- **Items with distinct identifiers are kept in their order.** -/
theorem keep_all (h : DistinctItems items) : items.foldl keep ⟨[]⟩ = ⟨items.filter isKept⟩ := by
  induction items using List.reverseRecOn with
  | nil => rfl
  | append_singleton items item ih =>
    obtain ⟨hitems, hid, hnew⟩ := h.init
    rw [List.foldl_append, ih hitems, List.foldl_cons, List.foldl_nil, List.filter_append]
    by_cases hkept : isKept item = true
    · obtain ⟨key, hkey⟩ := replayItemKey_kept hkept hid
      rw [keep, if_pos (of_decide_eq_true hkept), upsert, hkey]
      simp only
      rw [upsertBy_new, List.filter_cons_of_pos hkept, List.filter_nil]
      intro x hx
      obtain ⟨hx, hkeptx⟩ := List.mem_filter.1 hx
      rw [decide_eq_false_iff_not]
      intro hkeyx
      exact hnew x hx (replayItemKey_inj hkeptx hkept hkeyx hkey)
    · have hnot : isKept item = false := by simpa using hkept
      rw [keep_of_not hnot, List.filter_cons_of_neg hkept, List.filter_nil, List.append_nil]

/-- **Items that are done again change nothing.** -/
theorem keep_again (h : DistinctItems items) :
    items.foldl keep (items.foldl keep ⟨[]⟩) = items.foldl keep ⟨[]⟩ := by
  rw [keep_all h]
  have hitem {item : Value} (hmem : item ∈ items) : keep ⟨items.filter isKept⟩ item = ⟨items.filter isKept⟩ := by
    by_cases hkept : isKept item = true
    · obtain ⟨key, hkey⟩ := replayItemKey_kept hkept (h.1 item hmem)
      rw [keep, if_pos (of_decide_eq_true hkept), upsert, hkey]
      simp only
      rw [upsertBy_mem (List.mem_filter.2 ⟨hmem, hkept⟩) _ (decide_eq_true hkey)]
      intro x hx hkeyx
      obtain ⟨hx, hkeptx⟩ := List.mem_filter.1 hx
      exact List.inj_on_of_nodup_map h.2 hx hmem (replayItemKey_inj hkeptx hkept (of_decide_eq_true hkeyx) hkey)
    · exact keep_of_not (by simpa using hkept)
  have hagain (xs : List Value) (hxs : ∀ x ∈ xs, x ∈ items) :
      xs.foldl keep ⟨items.filter isKept⟩ = ⟨items.filter isKept⟩ := by
    induction xs with
    | nil => rfl
    | cons x xs ih =>
      rw [List.foldl_cons, hitem (hxs x (List.mem_cons_self ..)), ih fun y hy => hxs y (List.mem_cons_of_mem _ hy)]
  exact hagain items fun x hx => hx

end ReplayState

/-! ### Images -/

namespace GeneratedArtifactState

variable {artifacts : GeneratedArtifactState} {item : Value}

/-- There is no image of an item that is not there. -/
def Captured (codec : WireCodec) (artifacts : GeneratedArtifactState) (item : Value) : Prop :=
  ∀ image, generatedArtifact item = some image → image.key codec ∈ artifacts.seen

theorem capture_captured (h : Captured codec artifacts item) : artifacts.capture codec item = artifacts := by
  unfold capture
  split
  · rfl
  · rename_i image himage
    rw [if_pos (h image himage)]

theorem captured_capture (artifacts : GeneratedArtifactState) (item : Value) :
    Captured codec (artifacts.capture codec item) item := by
  intro image himage
  rw [capture, himage]
  simp only
  split
  · assumption
  · exact List.mem_cons_self ..

theorem Captured.mono (h : Captured codec artifacts item) (other : Value) :
    Captured codec (artifacts.capture codec other) item := by
  intro image himage
  have hseen := h image himage
  unfold capture
  split
  · exact hseen
  · split
    · exact hseen
    · exact List.mem_cons_of_mem _ hseen

theorem captured_foldl (items : List Value) (artifacts : GeneratedArtifactState) :
    ∀ item, item ∈ items ∨ Captured codec artifacts item →
      Captured codec (items.foldl (capture codec) artifacts) item := by
  induction items generalizing artifacts with
  | nil =>
    intro item h
    exact h.resolve_left List.not_mem_nil
  | cons x items ih =>
    intro item h
    apply ih
    rcases h with hmem | h
    · rcases List.mem_cons.1 hmem with rfl | hmem
      · exact .inr (captured_capture artifacts item)
      · exact .inl hmem
    · exact .inr (h.mono x)

/-- **Images that come again change nothing.** -/
theorem capture_again (items : List Value) (artifacts : GeneratedArtifactState) :
    items.foldl (capture codec) (items.foldl (capture codec) artifacts) = items.foldl (capture codec) artifacts := by
  have hall : ∀ item ∈ items, Captured codec (items.foldl (capture codec) artifacts) item :=
    fun item hmem => captured_foldl items artifacts item (.inl hmem)
  generalize items.foldl (capture codec) artifacts = captured at hall
  induction items with
  | nil => rfl
  | cons x items ih =>
    rw [List.foldl_cons, capture_captured (hall x (List.mem_cons_self ..))]
    exact ih fun item hmem => hall item (List.mem_cons_of_mem _ hmem)

end GeneratedArtifactState

/-! ### Tool calls -/

def isFunctionCall (item : Value) : Bool := eventType item = some "function_call"

/-- The pending call of a function call that is done. -/
def callOf (item : Value) : PendingToolCall :=
  ⟨true, (item.getStr "call_id").getD "", (item.getStr "name").getD "", (item.getStr "arguments").getD "", none⟩

/-- The calls go up to the last function call. -/
def callPlaces (items : List Value) : Nat := (items.rdropWhile fun item => ¬ isFunctionCall item).length

/-- The tool calls of items: each function call at its place. -/
structure ItemCalls (items : List Value) (a : ToolCallAssembler) : Prop where
  metadata : a.metadataSnapshots = false
  gemini : a.geminiContract = false
  callAt : ∀ i, a.callAt i = ((items[i]?.filter isFunctionCall).map callOf).getD .default
  length : a.calls.length = callPlaces items

section
variable {items : List Value} {item : Value} {a b : ToolCallAssembler}

theorem callPlaces_call (h : isFunctionCall item = true) : callPlaces (items ++ [item]) = items.length + 1 := by
  rw [callPlaces, List.rdropWhile_concat_neg _ _ _ (by simpa using h), List.length_append, List.length_singleton]

theorem callPlaces_other (h : isFunctionCall item = false) : callPlaces (items ++ [item]) = callPlaces items := by
  rw [callPlaces, List.rdropWhile_concat_pos _ _ _ (by simpa using h), callPlaces]

theorem callPlaces_le (items : List Value) : callPlaces items ≤ items.length := (List.rdropWhile_prefix _ _).length_le

/-- **There is one such assembler.** -/
theorem ItemCalls.unique (h : ItemCalls items a) (h' : ItemCalls items b) : a = b := by
  obtain ⟨calls, metadata, gemini⟩ := a
  obtain ⟨calls', metadata', gemini'⟩ := b
  obtain ⟨rfl, rfl, hat, hlength⟩ := h
  obtain ⟨rfl, rfl, hat', hlength'⟩ := h'
  have hcalls : calls = calls' := by
    apply List.ext_getElem (hlength.trans hlength'.symm)
    intro i hi hi'
    have hsame := (hat i).trans (hat' i).symm
    simp only [ToolCallAssembler.callAt, List.getElem?_eq_getElem hi, List.getElem?_eq_getElem hi',
      Option.getD_some] at hsame
    exact hsame
  rw [hcalls]

theorem ItemCalls.nil : ItemCalls [] .default := ⟨rfl, rfl, fun _ => rfl, rfl⟩

/-- A function call that is done replaces what has come of it. -/
theorem applyDelta_done {call : PendingToolCall} (h : call.extraContent = none) (index : Nat) (item : Value) :
    call.applyDelta false true (ResponsesTurnState.functionCallDelta index item) = callOf item := by
  obtain ⟨observed, id, name, arguments, extraContent⟩ := call
  cases h
  rfl

theorem deltaIndex_call {index : Nat} (h : (index : Int) ≤ u64Max) (item : Value) :
    deltaIndex (ResponsesTurnState.functionCallDelta index item) = some index := by
  rw [deltaIndex_written rfl, if_pos h]

theorem ItemCalls.default_after (h : ItemCalls items a) {i : Nat} (hi : items.length ≤ i) : a.callAt i = .default := by
  rw [h.callAt, List.getElem?_eq_none hi]
  rfl

/-- What has come of the item after others. -/
structure Pending (items : List Value) (a b : ToolCallAssembler) : Prop where
  metadata : b.metadataSnapshots = false
  gemini : b.geminiContract = false
  others : ∀ i, i ≠ items.length → b.callAt i = a.callAt i
  own : (b.callAt items.length).extraContent = none
  length : b.calls.length ≤ items.length + 1

theorem ItemCalls.pending (h : ItemCalls items a) : Pending items a a where
  metadata := h.metadata
  gemini := h.gemini
  others i _ := rfl
  own := by
    rw [h.default_after le_rfl]
    rfl
  length := by
    have hle := callPlaces_le items
    rw [h.length]
    omega

/-- A delta of the item that brings no extra content. -/
theorem Pending.delta (h : Pending items a b) {delta : Value} (hindex : deltaIndex delta = some items.length)
    (hextra : delta.get "extra_content" = none) (position : Nat) (snapshot : Bool) :
    Pending items a (b.applyChatDelta delta position snapshot) where
  metadata := h.metadata
  gemini := h.gemini
  others i hi := by
    rw [ToolCallAssembler.applyChatDelta_callAt, ToolCallAssembler.index_of_some hindex, if_neg (Ne.symm hi)]
    exact h.others i hi
  own := by
    rw [ToolCallAssembler.applyChatDelta_callAt, ToolCallAssembler.index_of_some hindex, if_pos rfl]
    have hown := h.own
    generalize b.callAt items.length = call at hown ⊢
    unfold PendingToolCall.applyDelta PendingToolCall.applyFlat PendingToolCall.applyFunction PendingToolCall.applyId
      PendingToolCall.applyExtra
    rw [hextra]
    simp only [Option.filter_none]
    split <;> split <;> exact hown
  length := by
    have hle := h.length
    rw [ToolCallAssembler.applyChatDelta_length, ToolCallAssembler.index_of_some hindex]
    omega

/-- **A function call that is done.** -/
theorem Pending.done (h : ItemCalls items a) (hpending : Pending items a b) (hitem : isFunctionCall item = true)
    (hindex : (items.length : Int) ≤ u64Max) (position : Nat) : ItemCalls (items ++ [item])
      (b.applyChatDelta (ResponsesTurnState.functionCallDelta items.length item) position true) where
  metadata := hpending.metadata
  gemini := hpending.gemini
  callAt i := by
    rw [ToolCallAssembler.applyChatDelta_callAt, ToolCallAssembler.index_of_some (deltaIndex_call hindex item),
      hpending.metadata]
    by_cases hi : items.length = i
    · subst hi
      rw [if_pos rfl, applyDelta_done hpending.own, List.getElem?_concat_length, Option.filter_some, if_pos hitem]
      rfl
    · rw [if_neg hi, hpending.others i (Ne.symm hi), h.callAt]
      rcases Nat.lt_or_gt_of_ne hi with hlt | hlt
      · rw [List.getElem?_eq_none (by omega), List.getElem?_eq_none (by simp; omega)]
      · rw [List.getElem?_append_left hlt]
  length := by
    have hle := hpending.length
    rw [ToolCallAssembler.applyChatDelta_length, ToolCallAssembler.index_of_some (deltaIndex_call hindex item),
      callPlaces_call hitem]
    omega

/-- An item that is no function call. -/
theorem ItemCalls.other (h : ItemCalls items a) (hitem : isFunctionCall item = false) :
    ItemCalls (items ++ [item]) a where
  metadata := h.metadata
  gemini := h.gemini
  callAt i := by
    rw [h.callAt]
    rcases Nat.lt_trichotomy i items.length with hlt | rfl | hlt
    · rw [List.getElem?_append_left hlt]
    · rw [List.getElem?_eq_none le_rfl, List.getElem?_concat_length, Option.filter_some, if_neg (by simp [hitem])]
      rfl
    · rw [List.getElem?_eq_none (by omega), List.getElem?_eq_none (by simp; omega)]
  length := by rw [h.length, callPlaces_other hitem]

/-- The steps of a snapshot of items. -/
def itemSteps (items : List Value) : List ToolStep :=
  items.zipIdx.flatMap fun item => functionCallStep item.1 (.item item.2 item.1)

/-- A snapshot of items makes their calls. -/
theorem ItemCalls.snapshot (hindex : ∀ i < items.length, (i : Int) ≤ u64Max) :
    ItemCalls items (ToolCallAssembler.default.run (itemSteps items)) := by
  induction items using List.reverseRecOn with
  | nil => exact .nil
  | append_singleton items item ih =>
    have hitems := ih fun i hi => hindex i (by rw [List.length_append]; omega)
    have hsteps : itemSteps (items ++ [item]) = itemSteps items ++ functionCallStep item (.item items.length item) := by
      simp [itemSteps, List.zipIdx_append]
    rw [hsteps, ToolCallAssembler.run_append]
    by_cases hitem : isFunctionCall item = true
    · rw [functionCallStep, if_pos (of_decide_eq_true hitem)]
      exact Pending.done hitems hitems.pending hitem (hindex _ (by simp)) items.length
    · rw [functionCallStep, if_neg (by simpa [isFunctionCall] using hitem)]
      exact hitems.other (by simpa using hitem)

/-- A function call that is done again changes nothing. -/
theorem ItemCalls.again (h : ItemCalls items a) {i : Nat} (hi : items[i]? = some item)
    (hitem : isFunctionCall item = true) (hindex : (i : Int) ≤ u64Max) :
    a.applyChatDelta (ResponsesTurnState.functionCallDelta i item) i true = a := by
  have hat : a.callAt i = callOf item := by
    rw [h.callAt, hi, Option.filter_some, if_pos hitem]
    rfl
  have hlt : i < a.calls.length := by
    by_contra hge
    rw [ToolCallAssembler.callAt, List.getElem?_eq_none (by omega)] at hat
    cases hat
  refine @ItemCalls.unique items _ _ ⟨h.metadata, h.gemini, fun j => ?_, ?_⟩ h
  · rw [ToolCallAssembler.applyChatDelta_callAt, ToolCallAssembler.index_of_some (deltaIndex_call hindex item),
      ← h.callAt, h.metadata]
    split
    · rename_i hij
      subst hij
      rw [hat]
      rfl
    · rfl
  · rw [ToolCallAssembler.applyChatDelta_length, ToolCallAssembler.index_of_some (deltaIndex_call hindex item),
      ← h.length]
    omega

/-- **So does a snapshot of the items.** -/
theorem ItemCalls.snapshot_again (h : ItemCalls items a) (hindex : ∀ i < items.length, (i : Int) ≤ u64Max) :
    a.run (itemSteps items) = a := by
  have hrun (pairs : List (Value × Nat)) (hpairs : ∀ pair ∈ pairs, items[pair.2]? = some pair.1) :
      a.run (pairs.flatMap fun item => functionCallStep item.1 (.item item.2 item.1)) = a := by
    induction pairs with
    | nil => rfl
    | cons pair pairs ih =>
      have hpair := hpairs pair (List.mem_cons_self ..)
      rw [List.flatMap_cons, ToolCallAssembler.run_append]
      have hstep : a.run (functionCallStep pair.1 (.item pair.2 pair.1)) = a := by
        rw [functionCallStep]
        split
        · rename_i htype
          obtain ⟨hlt, -⟩ := List.getElem?_eq_some_iff.1 hpair
          exact h.again hpair (decide_eq_true htype) (hindex _ hlt)
        · rfl
      rw [hstep]
      exact ih fun pair hmem => hpairs pair (List.mem_cons_of_mem _ hmem)
  apply hrun
  intro pair hmem
  exact List.mem_zipIdx_iff_getElem?.1 hmem

end

/-! ## The stream of a list of items -/

/-- What a step does to the tool calls. -/
def ResponsesStep.toolSteps : ResponsesStep → List ToolStep
  | .call index begun => functionCallStep begun (.delta (ResponsesTurnState.functionCallDelta index begun) index false)
  | .arguments index written replaced =>
    [.delta (ResponsesTurnState.argumentsDelta index written) index replaced]
  | .item index done => functionCallStep done (.delta (ResponsesTurnState.functionCallDelta index done) index true)
  | .snapshot response => snapshotToolSteps response
  | .keep | .push _ _ | .complete _ _ | .outputDone _ => []

theorem responsesToolSteps_step (value : Value) : responsesToolSteps value = (responsesStep value).toolSteps := by
  unfold responsesToolSteps responsesStep
  generalize eventType value = type
  split
  · try simp only
    split <;> rfl
  · cases value.getStr "delta" <;> rfl
  · cases value.getStr "text" <;> rfl
  · cases value.getStr "delta" <;> rfl
  · cases value.getStr "text" <;> rfl
  · cases value.getStr "delta" <;> rfl
  · cases value.getStr "delta" <;> rfl
  · rfl
  · rfl
  · cases outputIndex value <;> cases value.get "item" <;> rfl
  · cases outputIndex value <;> cases value.getStr "delta" <;> rfl
  · cases outputIndex value <;> cases value.getStr "arguments" <;> rfl
  · cases outputIndex value <;> cases value.get "item" <;> rfl
  · try simp only
    cases terminalSnapshot value <;> rfl

/-- An event of the item at a place, before the item is done. -/
def OfItem (index : Nat) (item value : Value) : Prop :=
  match responsesStep value with
  | .call i begun => i = index ∧ (isFunctionCall begun = true → isFunctionCall item = true)
  | .arguments i _ _ => i = index ∧ isFunctionCall item = true
  | .item _ _ | .snapshot _ => False
  | .keep | .push _ _ | .complete _ _ | .outputDone _ => True

/-- The events of a stream of items, one after the other: an item comes in any pieces, which are its text together, and
is done. -/
inductive ItemStream : List Value → List Value → Prop
  | start (events : List Value) (h : ∀ value ∈ events, responsesStep value = .keep) : ItemStream [] events
  | item {items events own : List Value} {item done : Value} (h : ItemStream items events)
    (hown : ∀ value ∈ own, OfItem items.length item value)
    (htext : own.flatMap textDelta = messageItemText item)
    (hdone : responsesStep done = .item items.length item) :
    ItemStream (items ++ [item]) (events ++ (own ++ [done]))

section
variable {items events own : List Value} {item value : Value} {a b : ToolCallAssembler}

/-- The place of an item that is done can be written down. -/
theorem item_index {index : Nat} (h : responsesStep value = .item index item) : (index : Int) ≤ u64Max := by
  have hread : outputIndex value = some index := by
    unfold responsesStep at h
    simp only at h
    split at h
    · split at h <;> cases h
    · cases hx : value.getStr "delta" <;> rw [hx] at h <;> cases h
    · cases hx : value.getStr "text" <;> rw [hx] at h <;> cases h
    · cases hx : value.getStr "delta" <;> rw [hx] at h <;> cases h
    · cases hx : value.getStr "text" <;> rw [hx] at h <;> cases h
    · cases hx : value.getStr "delta" <;> rw [hx] at h <;> cases h
    · cases hx : value.getStr "delta" <;> rw [hx] at h <;> cases h
    · cases h
    · cases h
    · split at h <;> cases h
    · split at h <;> cases h
    · split at h <;> cases h
    · split at h
      · rename_i hindex _
        cases h
        exact hindex
      · cases h
    · cases hx : terminalSnapshot value <;> rw [hx] at h <;> cases h
  exact outputIndex_le hread

/-- An event of the item leaves the others. -/
theorem Pending.event (h : Pending items a b) (hvalue : OfItem items.length item value)
    (hindex : (items.length : Int) ≤ u64Max) : Pending items a (b.run (responsesToolSteps value)) ∧
      (isFunctionCall item = false → b.run (responsesToolSteps value) = b) := by
  have hdelta {delta : Value} (hget : delta.get "index" = some (.number (.int items.length))) :
      deltaIndex delta = some items.length := by rw [deltaIndex_written hget, if_pos hindex]
  rw [responsesToolSteps_step]
  unfold OfItem at hvalue
  cases hstep : responsesStep value with
  | call i begun =>
    rw [hstep] at hvalue
    obtain ⟨rfl, hcall⟩ := hvalue
    rw [ResponsesStep.toolSteps, functionCallStep]
    split
    · rename_i htype
      refine ⟨h.delta (hdelta rfl) rfl _ _, fun hnot => ?_⟩
      rw [hcall (decide_eq_true htype)] at hnot
      cases hnot
    · exact ⟨h, fun _ => rfl⟩
  | arguments i arguments snapshot =>
    rw [hstep] at hvalue
    obtain ⟨rfl, hcall⟩ := hvalue
    refine ⟨h.delta (hdelta rfl) rfl _ _, fun hnot => ?_⟩
    rw [hcall] at hnot
    cases hnot
  | item i done =>
    rw [hstep] at hvalue
    exact hvalue.elim
  | snapshot response =>
    rw [hstep] at hvalue
    exact hvalue.elim
  | keep | push kind delta | complete kind text | outputDone text => exact ⟨h, fun _ => rfl⟩

theorem Pending.run (h : Pending items a b) (hown : ∀ value ∈ own, OfItem items.length item value)
    (hindex : (items.length : Int) ≤ u64Max) : Pending items a (b.run (own.flatMap responsesToolSteps)) ∧
      (isFunctionCall item = false → b.run (own.flatMap responsesToolSteps) = b) := by
  induction own generalizing b with
  | nil => exact ⟨h, fun _ => rfl⟩
  | cons value own ih =>
    obtain ⟨hpending, hsame⟩ := h.event (hown value (List.mem_cons_self ..)) hindex
    obtain ⟨hrest, hrestSame⟩ := ih hpending fun value hmem => hown value (List.mem_cons_of_mem _ hmem)
    rw [List.flatMap_cons, ToolCallAssembler.run_append]
    exact ⟨hrest, fun hnot => (hrestSame hnot).trans (hsame hnot)⟩

/-- **The tool calls of a stream of items.** -/
theorem ItemStream.calls (h : ItemStream items events) :
    ItemCalls items (streamedTools events) ∧ ∀ i < items.length, (i : Int) ≤ u64Max := by
  induction h with
  | start events hkeep =>
    have hnone : events.flatMap responsesToolSteps = [] := by
      rw [List.flatMap_eq_nil_iff]
      intro value hvalue
      rw [responsesToolSteps_step, hkeep value hvalue]
      rfl
    refine ⟨?_, nofun⟩
    rw [streamedTools, hnone]
    exact .nil
  | item h hown htext hdone ih =>
    rename_i items events own item done
    obtain ⟨hitems, hbound⟩ := ih
    have hindex := item_index hdone
    obtain ⟨hpending, hsame⟩ := hitems.pending.run hown hindex
    refine ⟨?_, fun i hi => ?_⟩
    · have hsplit : streamedTools (events ++ (own ++ [done])) =
          ((streamedTools events).run (own.flatMap responsesToolSteps)).run (responsesToolSteps done) := by
        simp [streamedTools]
      rw [hsplit, responsesToolSteps_step done, hdone, ResponsesStep.toolSteps, functionCallStep]
      by_cases hitem : isFunctionCall item = true
      · rw [if_pos (of_decide_eq_true hitem)]
        exact Pending.done hitems hpending hitem hindex items.length
      · rw [if_neg (by simpa [isFunctionCall] using hitem), hsame (by simpa using hitem)]
        exact hitems.other (by simpa using hitem)
    · rw [List.length_append, List.length_singleton] at hi
      rcases Nat.lt_succ_iff_lt_or_eq.1 hi with hlt | rfl
      · exact hbound i hlt
      · exact hindex

/-- **The items and the text of a stream of items.** -/
theorem ItemStream.items_text (h : ItemStream items events) : events.flatMap doneItem = items ∧
    events.flatMap textDelta = items.flatMap messageItemText := by
  induction h with
  | start events hkeep =>
    refine ⟨List.flatMap_eq_nil_iff.2 ?_, List.flatMap_eq_nil_iff.2 ?_⟩ <;> intro value hvalue
    · rw [doneItem, hkeep value hvalue]
    · rw [textDelta, partArrival, hkeep value hvalue]
  | item h hown htext hdone ih =>
    rename_i items events own item done
    obtain ⟨hitems, hstreamed⟩ := ih
    have hnone : own.flatMap doneItem = [] := by
      rw [List.flatMap_eq_nil_iff]
      intro value hvalue
      have hof := hown value hvalue
      unfold OfItem at hof
      unfold doneItem
      cases hstep : responsesStep value with
      | item i done =>
        rw [hstep] at hof
        exact hof.elim
      | _ => rfl
    have hlast : textDelta done = [] := by rw [textDelta, partArrival, hdone]
    constructor
    · rw [List.flatMap_append, List.flatMap_append, hitems, hnone, List.flatMap_singleton, doneItem, hdone,
        List.nil_append]
    · rw [List.flatMap_append, List.flatMap_append, hstreamed, htext, List.flatMap_singleton, hlast, List.append_nil,
        List.flatMap_append, List.flatMap_singleton]

end

/-! ## The two turns -/

/-- A response that has completed, as one JSON value. Its usage is null or an object with entries. -/
structure CompletedResponse (items : List Value) (response : Value) : Prop where
  object : response.getStr "object" = some "response"
  status : response.getStr "status" = some "completed"
  output : (response.get "output").bind Value.asArray = some items
  outputText : response.get "output_text" = none
  type : response.get "type" = none
  single : response.get "response" = none
  fine : response.hasError = false
  usage : response.getSome "usage" = response.ownUsage

section
variable {items events : List Value} {value response : Value}

theorem CompletedResponse.completes (h : CompletedResponse items response) : Completes response response := by
  have htype : eventType response = none := by rw [eventType, Value.getStr, h.type, Option.bind_none]
  have hself : responseOf response = response := by rw [responseOf, h.single, Option.getD_none]
  refine ⟨?_, ?_, ?_, hself, ?_⟩
  · simp [looksLikeResponsesStreamValue, h.output]
  · simp [ResponsesTurnState.isFailure, htype]
  · unfold terminalStatus
    rw [hself, h.status, htype, h.object]
    rfl
  · unfold responsesStep terminalSnapshot
    rw [htype, h.output]
    rfl

theorem CompletedResponse.items_eq (h : CompletedResponse items response) : outputItems response = items := by
  rw [outputItems, h.output, Option.getD_some]

theorem CompletedResponse.text (h : CompletedResponse items response) :
    extractResponsesOutputText response = items.flatMap messageItemText := by
  unfold extractResponsesOutputText
  rw [Value.getStr, h.outputText, Option.bind_none, h.output]
  rfl

theorem CompletedResponse.steps (h : CompletedResponse items response) :
    snapshotToolSteps response = itemSteps items := by
  rw [snapshotToolSteps, h.output, Option.getD_some, itemSteps]

/-- The usage of the event is that of its response, which reports it as one value too. -/
theorem CompletedResponse.usage_eq (h : CompletedResponse items response) (hevent : CompletedEvent value response)
    (hfound : usageValue value = usageValue response) : usageFromResponses value = usageFromResponses response := by
  unfold usageFromResponses
  rw [hevent.carries, h.single, Option.bind_some, Option.bind_none, Option.none_or, hfound]
  cases husage : response.getSome "usage" with
  | none => rw [Option.none_or]
  | some usage =>
    have hown : response.ownUsage = some usage := by rw [← h.usage, husage]
    have hfirst : usageValue response = some usage := by
      unfold usageValue
      cases response with
      | object entries => rw [Value.findUsage, hown, Option.some_or]
      | _ => cases hown
    rw [Option.some_or, hfirst]

/-- A part of the output, or one that an event completes. -/
def IsWatched (events : List Value) (kind : PartKind) (key : String) : Prop :=
  kind = .output ∨ ∃ value ∈ events, ∃ text, doneText value = some (kind, text) ∧ textPartKey value = key

/-- A stream of the items of a response that ends with the response. Where cumulative deltas are looked for, no delta
begins with all of its part so far. -/
structure StreamedResponse (codec : WireCodec) (allow : Bool) (items events : List Value) (value response : Value) :
    Prop where
  lifecycle : ItemStream items events
  ordered : WellFormedStream codec events
  unrepeated : ∀ kind key, IsWatched events kind key → NoneRepeated allow kind key events
  follows : ∀ v ∈ events, Follows codec v value
  distinct : DistinctItems items
  completed : CompletedResponse items response
  ends : CompletedEvent value response
  found : usageValue value = usageValue response
  quiet : usageFromResponses response = none → streamedUsage events = none

/-- **The turns of a response as a stream and as one value** differ at most in their reasoning. -/
theorem StreamedResponse.turns (h : StreamedResponse codec allow items events value response) (allow' : Bool) :
    ∃ reasoning, responsesTurn codec allow (events ++ [value]) =
      (responsesTurn codec allow' [response]).map fun turn => { turn with reasoning } := by
  obtain ⟨hcalls, hbound⟩ := h.lifecycle.calls
  obtain ⟨hitems, hdeltas⟩ := h.lifecycle.items_text
  have hongoing : OngoingStream codec allow events := .of_unrepeated h.ordered fun value hmem kind text hdone =>
    h.unrepeated kind _ (.inr ⟨value, hmem, text, hdone, rfl⟩)
  have htext : streamedText allow events = items.flatMap messageItemText := by
    rw [h.ordered.streamedText_unrepeated fun key => h.unrepeated .output key (.inl rfl), hdeltas]
  have hstreamed := hongoing.turn_eq h.follows h.ends.completes
  have hbuffered := (OngoingStream.nil codec allow').turn_eq nofun h.completed.completes
  have hwhole := h.completed.text
  have htools : (streamedTools events).run (itemSteps items) = streamedTools events := hcalls.snapshot_again hbound
  have htools' : (streamedTools []).run (itemSteps items) = streamedTools events :=
    (ItemCalls.snapshot hbound).unique hcalls
  have hreplay : streamedReplay events = items.foldl ReplayState.keep ⟨[]⟩ := by rw [streamedReplay, hitems]
  have hartifacts : streamedArtifacts codec events = items.foldl (GeneratedArtifactState.capture codec) ⟨[], []⟩ := by
    rw [streamedArtifacts, hitems]
  have husage : (usageFromResponses value).or (streamedUsage events) = (usageFromResponses response).or none := by
    rw [h.completed.usage_eq h.ends h.found]
    cases hfound : usageFromResponses response with
    | none => rw [h.quiet hfound]
    | some usage => rfl
  have hsuffix : reconcileTerminalText (streamedText allow' []) (items.flatMap messageItemText) false =
      .ok (nonempty (items.flatMap messageItemText)) := by
    have happend := strict_append [] (items.flatMap messageItemText)
    rw [List.nil_append] at happend
    rw [reconcileTerminalText, if_neg (by simp)]
    exact happend
  refine ⟨String.ofList (streamedReasoning allow events), ?_⟩
  rw [List.nil_append] at hbuffered
  rw [hstreamed, hbuffered]
  unfold streamedTurn
  simp only [hwhole, htext, reconcile_self, h.completed.steps, h.completed.items_eq, htools, htools', hreplay,
    hartifacts, ReplayState.keep_again h.distinct, GeneratedArtifactState.capture_again, husage, List.any_nil, hsuffix]
  cases (streamedTools events).validate codec with
  | error e => rfl
  | ok _ =>
    simp only [Except.map, Except.ok.injEq, Option.getD_none, nonempty_getD, List.append_nil]
    rfl

end

/-! ## The two bodies -/

/-- A body that is one JSON value. -/
structure BufferedValue (codec : WireCodec) (contentType : Option String) (bytes : List UInt8) (value : Value) :
    Prop where
  json : detectSse contentType bytes ≠ some true
  filled : bytes ≠ []
  parsed : codec.fromSlice bytes = some value

section
variable {config : DecoderConfig} {values : List Value} {value response : Value} {bytes : List UInt8}

/-- Values go to the assembler of Responses. -/
theorem TurnAssembly.applyValues_responses {a : TurnAssembly} (hmode : a.mode = .responses) (values : List Value) :
    a.applyValues codec values =
      (a.responses.state.applyValues codec a.responses.allowCumulativeDelta values).attempt fun state =>
        (.ok { a with responses := ⟨a.responses.allowCumulativeDelta, state⟩ }, []) := by
  induction values generalizing a with
  | nil =>
    rw [applyValues, ResponsesTurnState.applyValues, Sunk.attempt_pure]
  | cons value values ih =>
    have hvalue : a.applyValue codec value =
        (a.responses.state.applyValue codec a.responses.allowCumulativeDelta value).attempt fun state =>
          (.ok { a with responses := ⟨a.responses.allowCumulativeDelta, state⟩ }, []) := by
      simp only [applyValue, hmode, ResponsesTurnAssembler.applyValue, Sunk.attempt_assoc, Sunk.attempt_pure]
    rw [applyValues, hvalue, ResponsesTurnState.applyValues, Sunk.attempt_assoc, Sunk.attempt_assoc]
    apply Sunk.attempt_congr
    intro state _
    rw [Sunk.attempt_pure, ih (by exact hmode)]

/-- The values of a response, and its end. -/
theorem applyValues_close (hmode : config.mode = .responses) (values : List Value) :
    ((config.start.applyValues codec values).attempt fun a => a.close codec).1 =
      (responsesTurn codec config.allowCumulativeDelta values).bind validated := by
  have hrun : config.start.applyValues codec values = _ := TurnAssembly.applyValues_responses hmode values
  rw [hrun, Sunk.attempt_assoc, responsesTurn]
  change (((ResponsesTurnState.new.applyValues codec config.allowCumulativeDelta values)).attempt _).1 = _
  obtain ⟨x, calls⟩ := ResponsesTurnState.new.applyValues codec config.allowCumulativeDelta values
  cases x with
  | error e => rfl
  | ok state =>
    rw [Sunk.attempt_ok, Sunk.attempt_pure, TurnAssembly.close_eq, TurnAssembly.finished]
    simp only [DecoderConfig.start, hmode]
    rfl

theorem BufferedValue.decoded (h : BufferedValue codec config.contentType bytes value)
    (hmode : config.mode = .responses) (hfine : value.hasError = false) :
    (decode codec config bytes).1 = (responsesTurn codec config.allowCumulativeDelta [value]).bind validated := by
  rw [decode_body h.json, TurnAssembly.finishRaw, if_neg h.filled, h.parsed, ← applyValues_close hmode]
  simp only [hfine, Bool.false_eq_true, if_false, TurnAssembly.applyValues, Sunk.attempt_assoc, Sunk.attempt_pure]

/-- The reasoning does not matter to whether a turn is valid. -/
theorem validated_reasoning (turn : ModelTurn) (reasoning : String) :
    validated { turn with reasoning } = (validated turn).map fun turn => { turn with reasoning } := by
  have hvalid : validateTurn { turn with reasoning } = validateTurn turn := rfl
  unfold validated
  rw [hvalid]
  simp only
  split
  · rfl
  · cases validateTurn turn <;> rfl

end

/-! A response of one message. -/

def textItem (text : String) : Value :=
  .object [("content", .array [.object [("text", .string text), ("type", .string "output_text")]]),
    ("id", .string "msg_1"), ("type", .string "message")]

def textItemText (text : String) : List Char :=
  "\x7b\"content\":[\x7b\"text\":\"".toList ++ text.toList ++
    "\",\"type\":\"output_text\"\x7d],\"id\":\"msg_1\",\"type\":\"message\"\x7d".toList

def textPiece (delta : String) : Value :=
  .object [("delta", .string delta), ("item_id", .string "msg_1"), ("type", .string "response.output_text.delta")]

def textPieceText (delta : String) : List Char :=
  "\x7b\"delta\":\"".toList ++ delta.toList ++
    "\",\"item_id\":\"msg_1\",\"type\":\"response.output_text.delta\"\x7d".toList

def textItemDone (text : String) : Value :=
  .object [("item", textItem text), ("output_index", .number (.int 0)), ("type", .string "response.output_item.done")]

def textItemDoneText (text : String) : List Char :=
  "\x7b\"item\":".toList ++ textItemText text ++
    ",\"output_index\":0,\"type\":\"response.output_item.done\"\x7d".toList

def textResponse (text : String) : Value :=
  .object [("object", .string "response"), ("output", .array [textItem text]), ("status", .string "completed")]

def textResponseText (text : String) : List Char :=
  "\x7b\"object\":\"response\",\"output\":[".toList ++ textItemText text ++ "],\"status\":\"completed\"\x7d".toList

def textCompleted (text : String) : Value :=
  .object [("response", textResponse text), ("type", .string "response.completed")]

def textCompletedText (text : String) : List Char :=
  "\x7b\"response\":".toList ++ textResponseText text ++ ",\"type\":\"response.completed\"\x7d".toList

def textEvents (deltas : List String) (text : String) : List Value := deltas.map textPiece ++ [textItemDone text]

def textCodec (deltas : List String) (text : String) : WireCodec :=
  tableCodec (deltas.map (fun delta => (textPieceText delta, textPiece delta)) ++
    [(textItemDoneText text, textItemDone text), (textCompletedText text, textCompleted text),
      (textResponseText text, textResponse text)]) []

def textBody (deltas : List String) (text : String) : List UInt8 :=
  deltas.flatMap (fun delta => dataEvent (textPieceText delta)) ++ dataEvent (textItemDoneText text) ++
    dataEvent (textCompletedText text)

/-- An event without a number and a key can come after any other. -/
theorem follows_unnumbered {earlier value : Value} (hsequence : sequenceNumber value = none)
    (hkey : eventKey codec value = none) : Follows codec earlier value := by
  unfold Follows
  rw [hsequence, hkey]
  exact fun _ _ h => by cases h

theorem streamedUsage_none {values : List Value} (h : ∀ value ∈ values, usageFromResponses value = none) :
    streamedUsage values = none := by
  induction values using List.reverseRecOn with
  | nil => rfl
  | append_singleton values value ih =>
    rw [streamedUsage_concat, h value (by simp), ih fun v hv => h v (List.mem_append_left _ hv), Option.none_or]

section
variable {deltas : List String} {text : String} {value : Value}

theorem textEvents_cases (h : value ∈ textEvents deltas text) : (∃ delta ∈ deltas, value = textPiece delta) ∨
    value = textItemDone text := by
  rcases List.mem_append.1 h with h | h
  · obtain ⟨delta, hdelta, rfl⟩ := List.mem_map.1 h
    exact .inl ⟨delta, hdelta, rfl⟩
  · exact .inr (List.mem_singleton.1 h)

theorem textEvents_ongoing (h : value ∈ textEvents deltas text) : Ongoing value ∧ sequenceNumber value = none ∧
    eventKey codec value = none ∧ doneText value = none := by
  rcases textEvents_cases h with ⟨delta, -, rfl⟩ | rfl
  · exact ⟨⟨by rfl, by rfl, by rfl⟩, by rfl, by rfl, by rfl⟩
  · exact ⟨⟨by rfl, by rfl, by rfl⟩, by rfl, by rfl, by rfl⟩

/-- Pieces that are a text together make up the message of the text. -/
theorem textEvents_item (htext : deltas.flatMap String.toList = text.toList) :
    ItemStream [textItem text] (textEvents deltas text) := by
  have hown : ∀ value ∈ deltas.map textPiece, OfItem 0 (textItem text) value := by
    intro value hvalue
    obtain ⟨delta, -, rfl⟩ := List.mem_map.1 hvalue
    exact trivial
  refine .item (.start [] nofun) hown ?_ rfl
  have hpieces : (deltas.map textPiece).flatMap textDelta = deltas.flatMap String.toList := by
    rw [List.flatMap_map]
    rfl
  rw [hpieces, htext]
  exact (List.append_nil _).symm

theorem textEvents_deltas (kind : PartKind) (key : String) :
    partDeltas kind key (textEvents deltas text) = [] ∨
      partDeltas kind key (textEvents deltas text) = deltas.map String.toList := by
  have hlast : partDelta kind key (textItemDone text) = [] := rfl
  rw [textEvents, partDeltas, List.flatMap_append, List.flatMap_singleton, hlast, List.append_nil]
  by_cases hpart : PartKind.output = kind ∧ textPartKey (textPiece "") = key
  · right
    induction deltas with
    | nil => rfl
    | cons delta deltas ih =>
      rw [List.map_cons, List.map_cons, List.flatMap_cons, ih]
      have hdelta : partDelta kind key (textPiece delta) = [delta.toList] := if_pos hpart
      rw [hdelta, List.singleton_append]
  · left
    rw [List.flatMap_map, List.flatMap_eq_nil_iff]
    intro delta _
    exact if_neg hpart

/-- Pieces that make up a message, of which none begins with all before it. -/
theorem textStreamed (htext : deltas.flatMap String.toList = text.toList)
    (hdeltas : allow = true → TextDeltaReconciler.unrepeated [] (deltas.map String.toList) = true) :
    StreamedResponse codec allow [textItem text] (textEvents deltas text) (textCompleted text) (textResponse text) where
  lifecycle := textEvents_item htext
  ordered := by
    refine ⟨fun value hvalue => (@textEvents_ongoing codec _ _ _ hvalue).1, ?_, fun before value after heq => ?_⟩
    · apply List.pairwise_of_forall_mem_list
      intro earlier _ value hvalue
      obtain ⟨-, hsequence, hkey, -⟩ := @textEvents_ongoing codec _ _ _ hvalue
      exact follows_unnumbered hsequence hkey
    · intro kind text' hdone
      have hmem : value ∈ textEvents deltas text := by simp [heq]
      rw [(@textEvents_ongoing codec _ _ _ hmem).2.2.2] at hdone
      cases hdone
  unrepeated kind key _ hallow := by
    rcases @textEvents_deltas deltas text kind key with hnone | hall
    · rw [hnone]
      rfl
    · rw [hall]
      exact hdeltas hallow
  follows value _ := follows_unnumbered (by rfl) (by rfl)
  distinct := by
    refine ⟨fun item hitem => ?_, List.nodup_singleton _⟩
    rw [List.mem_singleton.1 hitem]
    rfl
  completed := ⟨by rfl, by rfl, by rfl, by rfl, by rfl, by rfl, by rfl, by rfl⟩
  ends := ⟨by rfl, by rfl, by rfl, by rfl⟩
  found := by rfl
  quiet _ := by
    apply streamedUsage_none
    intro value hvalue
    rcases textEvents_cases hvalue with ⟨delta, -, rfl⟩ | rfl
    · rfl
    · rfl

end
end Aifluxon
