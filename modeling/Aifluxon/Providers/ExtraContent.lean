import Aifluxon.Core.Encoding
import Aifluxon.Providers.ToolEntries
import Aifluxon.Providers.ToolPairs

/-!
# Extensions that go back to the provider

A signature of Gemini comes as an extension of a tool call or of a message, in parts. It goes back as it has come, on
the call that it came with.

* `deepMerge`, `lookup_mergeEntries` : parts of an extension put over each other;
* `ToolEntry.Native`, `Named.run` : entries that name their call by its identifier;
* `lookup_extraContent` : what is stored of a call is found by its identifier;
* `deepMerge_mark` : the mark of a thought is left out;
* `ExtraReplayed`, `extra_content_replayed_iff` : what goes back, and when.
-/

namespace Aifluxon

/-! ## A merge -/

/-- Parts of an extension, put over each other in their order. -/
def deepMerge (parts : List Value) : Value := parts.foldl mergeExtraContent (.object [])

/-- What is left of parts: nothing where there are none. -/
def mergedExtra (parts : List Value) : Option Value := if parts = [] then none else some (deepMerge parts)

/-- **A merge, key by key**: an object is merged into what is there, all else replaces it. -/
theorem lookup_mergeEntries {target source : List (String × Value)} (h : (source.map Prod.fst).Nodup) (key : String) :
    (mergeEntries target source).lookup key = match source.lookup key with
      | none => target.lookup key
      | some value => some (if value.isObject then mergeExtraContent ((target.lookup key).getD (.object [])) value
        else value) := by
  induction source generalizing target with
  | nil => rfl
  | cons entry source ih =>
    obtain ⟨k, value⟩ := entry
    rw [List.map_cons, List.nodup_cons] at h
    rw [mergeEntries, ih h.2]
    by_cases hkey : key = k
    · subst hkey
      have hnone : source.lookup key = none := by
        rw [List.lookup_eq_none_iff]
        intro entry hentry
        rw [bne_iff_ne]
        rintro rfl
        exact h.1 (List.mem_map.2 ⟨entry, hentry, rfl⟩)
      rw [hnone, List.lookup_cons_self]
      exact lookup_insertEntry_self _ _ _
    · rw [lookup_insertEntry_ne hkey, List.lookup_cons, beq_false_of_ne hkey]

theorem mergeExtraContent_isObject {into source : Value} (h : source.isObject = true) :
    (mergeExtraContent into source).isObject = true := by
  cases source with
  | object entries => cases into <;> rfl
  | _ => cases h

theorem deepMerge_isObject {parts : List Value} (h : ∀ part ∈ parts, part.isObject = true) :
    (deepMerge parts).isObject = true := by
  have hfrom (merged : Value) (hmerged : merged.isObject = true) :
      (parts.foldl mergeExtraContent merged).isObject = true := by
    induction parts generalizing merged with
    | nil => exact hmerged
    | cons part parts ih =>
      rw [List.forall_mem_cons] at h
      exact ih h.2 _ (mergeExtraContent_isObject h.1)
  exact hfrom _ rfl

/-- Parts that come one after the other. -/
theorem foldl_addExtra (parts : List Value) : (parts.map some).foldl addExtra none = mergedExtra parts := by
  have hfrom (merged : Value) (parts : List Value) :
      (parts.map some).foldl addExtra (some merged) = some (parts.foldl mergeExtraContent merged) := by
    induction parts generalizing merged with
    | nil => rfl
    | cons part parts ih => exact ih _
  cases parts with
  | nil => rfl
  | cons part parts => exact hfrom _ parts

/-! ## Entries that name their call -/

/-- An entry as the API of Gemini sends it: without an index, with the identifier of its call. -/
structure ToolEntry.Native (entry : ToolEntry) : Prop where
  gemini : entry.gemini = true
  metadata : entry.metadata = true
  index : deltaIndex entry.delta = none
  named : ∃ id, entry.delta.getStr "id" = some id ∧ id ≠ ""

/-- The identifiers of the places are different, and an entry has that of its place. -/
structure Named (entries : List (Nat × ToolEntry)) : Prop where
  distinct : ∀ i < places entries, ∀ j < places entries,
    identifier (entriesAt entries i) = identifier (entriesAt entries j) → i = j
  own : ∀ entry ∈ entries, entry.2.delta.getStr "id" = some (identifier (entriesAt entries entry.1))

namespace Named

theorem nil : Named [] := ⟨fun i hi => absurd hi (Nat.not_lt_zero i), fun _ h => absurd h List.not_mem_nil⟩

variable {entries : List (Nat × ToolEntry)} {entry : ToolEntry} {id : String}

theorem place (hnative : entry.Native) (hid : entry.delta.getStr "id" = some id) : entry.place entries =
    ((List.range (places entries)).findIdx? fun place => decide (identifier (entriesAt entries place) = id)).getD
      (places entries) := by
  obtain ⟨id', hid', hne⟩ := hnative.named
  obtain rfl := Option.some.inj (hid'.symm.trans hid)
  rw [ToolEntry.place, hnative.index, hid, hnative.gemini]
  simp [Option.filter_some, hne]

/-- The place that an entry goes to has its identifier, or is new and no other place has it. -/
theorem place_cases (hnative : entry.Native) (hid : entry.delta.getStr "id" = some id) :
    (entry.place entries < places entries ∧ identifier (entriesAt entries (entry.place entries)) = id) ∨
      (entry.place entries = places entries ∧ ∀ i < places entries, identifier (entriesAt entries i) ≠ id) := by
  rw [place hnative hid]
  cases hfind : (List.range (places entries)).findIdx? fun place => decide (identifier (entriesAt entries place) = id) with
  | none =>
    refine .inr ⟨rfl, fun i hi heq => ?_⟩
    rw [List.findIdx?_eq_none_iff] at hfind
    exact of_decide_eq_false (hfind i (List.mem_range.2 hi)) heq
  | some i =>
    obtain ⟨hi, hfound, -⟩ := List.findIdx?_eq_some_iff_getElem.1 hfind
    rw [List.getElem_range, decide_eq_true_iff] at hfound
    rw [List.length_range] at hi
    exact .inl ⟨hi, hfound⟩

/-- **One more entry.** -/
theorem step (h : Named entries) (hnative : entry.Native) : Named (entries ++ [(entry.place entries, entry)]) := by
  obtain ⟨id, hid, -⟩ := hnative.named
  have hself : identifier (entriesAt (entries ++ [(entry.place entries, entry)]) (entry.place entries)) = id := by
    rw [entriesAt_append, if_pos rfl, identifier_append, hid, hnative.metadata, Bool.or_true]
    rfl
  have hframe (i : Nat) (hi : i < places entries) :
      identifier (entriesAt (entries ++ [(entry.place entries, entry)]) i) = identifier (entriesAt entries i) := by
    rw [entriesAt_append]
    by_cases heq : entry.place entries = i
    · -- the place that is found has the identifier already
      rcases @place_cases entries entry id hnative hid with ⟨-, hfound⟩ | ⟨hlast, -⟩
      · rw [if_pos heq, ← heq, hfound, identifier_append, hid, hnative.metadata, Bool.or_true]
        rfl
      · omega
    · rw [if_neg heq]
  constructor
  · intro i hi j hj heq
    rw [places_append] at hi hj
    rcases @place_cases entries entry id hnative hid with ⟨hinside, -⟩ | ⟨hlast, hnew⟩
    · rw [hframe i (by omega), hframe j (by omega)] at heq
      exact h.distinct i (by omega) j (by omega) heq
    · rcases Nat.lt_or_ge i (places entries) with hi' | hi'
      · rcases Nat.lt_or_ge j (places entries) with hj' | hj'
        · rw [hframe i hi', hframe j hj'] at heq
          exact h.distinct i hi' j hj' heq
        · obtain rfl : j = entry.place entries := by omega
          rw [hframe i hi', hself] at heq
          exact absurd heq (hnew i hi')
      · obtain rfl : i = entry.place entries := by omega
        rcases Nat.lt_or_ge j (places entries) with hj' | hj'
        · rw [hframe j hj', hself] at heq
          exact absurd heq.symm (hnew j hj')
        · omega
  · intro other hother
    rcases List.mem_append.1 hother with hother | hother
    · rw [hframe _ (lt_places hother)]
      exact h.own other hother
    · obtain rfl := List.mem_singleton.1 hother
      rw [hself]
      exact hid

theorem run (h : Named entries) {more : List ToolEntry} (hnative : ∀ entry ∈ more, entry.Native) :
    Named (placedAfter entries more) := by
  induction more generalizing entries with
  | nil => exact h
  | cons entry more ih =>
    rw [List.forall_mem_cons] at hnative
    exact ih (h.step hnative.1) hnative.2

/-- **The entries of a place are those that name its call.** -/
theorem entriesAt_eq (h : Named entries) {place : Nat} (hplace : place < places entries) :
    entriesAt entries place = (entries.map Prod.snd).filter fun entry =>
      entry.delta.getStr "id" = some (identifier (entriesAt entries place)) := by
  conv_lhs => rw [entriesAt]
  rw [List.filter_map]
  congr 1
  apply List.filter_congr
  intro entry hentry
  rw [Function.comp_apply, decide_eq_decide, h.own entry hentry, Option.some.injEq]
  constructor
  · rintro rfl
    rfl
  · intro heq
    exact h.distinct _ (lt_places hentry) _ hplace heq

end Named

theorem placedAfter_entries (before : List (Nat × ToolEntry)) (entries : List ToolEntry) :
    (placedAfter before entries).map Prod.snd = before.map Prod.snd ++ entries := by
  induction entries generalizing before with
  | nil => rw [placedAfter, List.append_nil]
  | cons entry entries ih => rw [placedAfter, ih, List.map_append, List.append_assoc]; rfl

theorem extraParts_isObject (entries : List ToolEntry) : ∀ part ∈ extraParts entries, part.isObject = true := by
  intro part hpart
  obtain ⟨entry, -, hextra⟩ := List.mem_filterMap.1 hpart
  exact (Option.filter_eq_some_iff.1 hextra).2

/-! ## What is stored -/

namespace ToolCallAssembler

variable {codec : WireCodec} {a : ToolCallAssembler}

/-- Calls that were observed have different identifiers. -/
theorem validCalls_distinct {ids : List String} {calls : List PendingToolCall}
    (h : validCalls codec ids calls = true) :
    ((calls.filter PendingToolCall.observed).map PendingToolCall.id).Nodup ∧
      ∀ call ∈ calls.filter PendingToolCall.observed, call.id ∉ ids := by
  induction calls generalizing ids with
  | nil => exact ⟨.nil, nofun⟩
  | cons call calls ih =>
    rw [validCalls] at h
    by_cases hobserved : call.observed = true
    · rw [if_neg (not_not.2 hobserved)] at h
      split at h
      · cases h
      rename_i hvalid
      simp only [not_or] at hvalid
      obtain ⟨hnodup, hnew⟩ := ih h
      rw [List.filter_cons_of_pos hobserved, List.map_cons, List.nodup_cons]
      refine ⟨⟨fun hmem => ?_, hnodup⟩, fun other hother => ?_⟩
      · obtain ⟨other, hother, hid⟩ := List.mem_map.1 hmem
        exact hnew other hother (hid ▸ List.mem_cons_self ..)
      · rcases List.mem_cons.1 hother with rfl | hother
        · exact hvalid.2.2.1
        · exact fun hmem => hnew other hother (List.mem_cons_of_mem _ hmem)
    · rw [if_pos hobserved] at h
      rw [List.filter_cons_of_neg hobserved]
      exact ih h

/-- The step of `extra_content_by_call_id`. -/
def withExtra (metadata : List (String × Value)) (call : PendingToolCall) : List (String × Value) :=
  if call.id = "" then metadata
  else match call.extraContent with
    | none => metadata
    | some extra => insertEntry call.id extra metadata

theorem lookup_withExtras {call : PendingToolCall} {calls : List PendingToolCall} (hid : call.id ≠ "")
    (honly : ∀ other ∈ calls, other.id = call.id → other = call) {metadata : List (String × Value)}
    (hmetadata : metadata.lookup call.id = none ∨ metadata.lookup call.id = call.extraContent)
    (hcall : call ∈ calls ∨ metadata.lookup call.id = call.extraContent) :
    (calls.foldl withExtra metadata).lookup call.id = call.extraContent := by
  induction calls generalizing metadata with
  | nil => exact hcall.resolve_left (List.not_mem_nil)
  | cons other calls ih =>
    rw [List.forall_mem_cons] at honly
    rw [List.foldl_cons]
    by_cases heq : other.id = call.id
    · obtain rfl := honly.1 heq
      have hstored : (withExtra metadata other).lookup other.id = other.extraContent := by
        rw [withExtra, if_neg hid]
        cases hextra : other.extraContent with
        | none =>
          rw [hextra, or_self] at hmetadata
          exact hmetadata
        | some extra => exact lookup_insertEntry_self _ _ _
      exact ih honly.2 (.inr hstored) (.inr hstored)
    · have hsame : (withExtra metadata other).lookup call.id = metadata.lookup call.id := by
        unfold withExtra
        split
        · rfl
        split
        · rfl
        · exact lookup_insertEntry_ne (Ne.symm heq) _ _
      rw [List.mem_cons, or_assoc] at hcall
      refine ih honly.2 (by rwa [hsame]) (hsame ▸ hcall.resolve_left fun h => heq (h ▸ rfl))

/-- **The extension of a call is stored under its identifier.** -/
theorem lookup_extraContent (ha : a.Filled) (h : a.validate codec = .ok ()) {call : PendingToolCall}
    (hcall : call ∈ a.observedCalls) : a.extraContentByCallId.get call.id = call.extraContent := by
  obtain ⟨hmem, hobserved⟩ := List.mem_filter.1 hcall
  have hid : call.id ≠ "" := by
    intro hempty
    apply (validate_observed h call hmem hobserved).1
    rw [hempty]
    rfl
  have hnodup : (a.observedCalls.map PendingToolCall.id).Nodup := by
    unfold validate at h
    split at h
    · rename_i hvalid
      exact (validCalls_distinct hvalid).1
    · cases h
  refine lookup_withExtras hid (fun other hother heq => ?_) (.inl rfl) (.inl hmem)
  cases hother' : other.observed with
  | true => exact List.inj_on_of_nodup_map hnodup (List.mem_filter.2 ⟨hother, hother'⟩) hcall heq
  | false =>
    rw [ha other hother hother'] at heq
    exact absurd heq.symm hid

theorem finishCall_providerCallId {call : PendingToolCall} (h : trim call.id ≠ "") :
    (finishCall codec call).providerCallId = some call.id := by
  simp [finishCall, h]

end ToolCallAssembler

/-! ## The extension of a message -/

/-- The parts of the extension of a message. -/
def messageParts (values : List Value) : List Value := values.filterMap fun value => value.chatPiece.extra

namespace ChatCompletionsTurnAssembler

variable (a : ChatCompletionsTurnAssembler)

theorem applyUsage_extraContent (usage : Option Value) : (a.applyUsage usage).1.extraContent = a.extraContent := by
  cases usage <;> rfl

theorem applyExtra_extraContent (extra : Option Value) : (a.applyExtra extra).extraContent =
    (extra.toList.map replayExtra).foldl mergeExtraContent a.extraContent := by
  cases extra with
  | none => rfl
  | some extra =>
    simp only [applyExtra]
    split <;> rfl

theorem applyReasoning_extraContent (reasoning : Option (List Char)) (snapshot : Bool) :
    (a.applyReasoning reasoning snapshot).1.extraContent = a.extraContent := by
  cases reasoning <;> rfl

theorem applyContent_extraContent (content : Option (List Char)) (thought : Option Bool) (snapshot : Bool) :
    (a.applyContent content thought snapshot).1.extraContent = a.extraContent := by
  unfold applyContent
  split
  · rfl
  · split <;> rfl

theorem applyToolCalls_extraContent (calls : List Value) (snapshot : Bool) :
    (a.applyToolCalls calls snapshot).extraContent = a.extraContent := by
  simp only [applyToolCalls]
  split <;> rfl

theorem applyValue_extraContent (value : Value) : (a.applyValue value).1.extraContent =
    (value.chatPiece.extra.toList.map replayExtra).foldl mergeExtraContent a.extraContent := by
  rw [applyValue_piece, applyPiece]
  simp only [applyToolCalls_extraContent, applyContent_extraContent, applyReasoning_extraContent,
    applyExtra_extraContent, applyFinishReason, applyUsage_extraContent]

/-- **What values leave of the extension of the message.** -/
theorem applyValues_extraContent (values : List Value) : (a.applyValues values).1.extraContent =
    ((messageParts values).map replayExtra).foldl mergeExtraContent a.extraContent := by
  induction values generalizing a with
  | nil => rfl
  | cons value values ih =>
    simp only [applyValues, Sunk.andThen, ih, applyValue_extraContent, messageParts, List.filterMap_cons]
    cases value.chatPiece.extra <;> rfl

theorem flushContent_kept : a.flushContent.1.tools = a.tools ∧ a.flushContent.1.extraContent = a.extraContent := by
  unfold flushContent
  split
  · exact ⟨rfl, rfl⟩
  · exact ⟨rfl, rfl⟩

theorem lookup_withEntry_self (key : String) (value : Option Value) (entries : List (String × Value)) :
    (withEntry key value entries).lookup key = value.or (entries.lookup key) := by
  cases value with
  | none => rfl
  | some value => exact lookup_insertEntry_self _ _ _

theorem opaqueEntries_extra : (Value.object a.opaqueEntries).get "extra_content" = filledObject a.extraContent := by
  rw [opaqueEntries, Value.get, lookup_withEntry_self, lookup_withEntry_ne (by decide), lookup_withEntry_ne (by decide)]
  exact Option.or_none

theorem opaqueEntries_toolExtra : (Value.object a.opaqueEntries).get "tool_call_extra_content" =
    filledObject a.tools.extraContentByCallId := by
  rw [opaqueEntries, Value.get, lookup_withEntry_ne (by decide), lookup_withEntry_self, lookup_withEntry_ne (by decide)]
  exact Option.or_none

end ChatCompletionsTurnAssembler

/-! ## Without the mark of a thought -/

/-- The mark of a thought. -/
def thoughtMark (extra : Value) : Option Value := (extra.get "google").bind (Value.get "thought")

/-- An extension whose keys, and those of Google's, are different. -/
structure DistinctKeys (extra : Value) : Prop where
  entries : ∀ entries, extra = .object entries → (entries.map Prod.fst).Nodup
  google : ∀ entries, extra.get "google" = some (.object entries) → (entries.map Prod.fst).Nodup

/-- A part without a mark leaves none. -/
theorem thoughtMark_merge {into source : Value} (hkeys : DistinctKeys source) (hsource : thoughtMark source = none)
    (hinto : thoughtMark into = none) : thoughtMark (mergeExtraContent into source) = none := by
  cases source with
  | object source =>
    cases into with
    | object target =>
      rw [mergeExtraContent, thoughtMark, Value.get, lookup_mergeEntries (hkeys.entries source rfl)]
      rw [thoughtMark, Value.get] at hsource hinto
      cases hgoogle : source.lookup "google" with
      | none => exact hinto
      | some google =>
        cases google with
        | object entries =>
          rw [hgoogle] at hsource
          have hentries : entries.lookup "thought" = none := hsource
          have hdistinct := hkeys.google entries (by rw [Value.get, hgoogle])
          cases hold : target.lookup "google" with
          | none =>
            simp only [Value.isObject, if_true, Option.getD_none, mergeExtraContent, Option.bind_some, Value.get]
            rw [lookup_mergeEntries hdistinct, hentries]
            rfl
          | some old =>
            cases old with
            | object old =>
              rw [hold] at hinto
              simp only [Value.isObject, if_true, Option.getD_some, mergeExtraContent, Option.bind_some, Value.get]
              rw [lookup_mergeEntries hdistinct, hentries]
              exact hinto
            | _ => exact hentries
        | _ => rfl
    | _ => exact hsource
  | _ => rfl

/-- **What is sent back is without the mark.** -/
theorem replayExtra_mark (extra : Value) : thoughtMark (replayExtra extra) = none := by
  cases extra with
  | object entries =>
    simp only [replayExtra]
    split
    · rename_i google hgoogle
      split
      · rw [thoughtMark, Value.get, lookup_filter_key, if_pos rfl]
        rfl
      · rename_i kept hkept hne
        rw [thoughtMark, Value.get, lookup_insertEntry_self, Option.bind_some, Value.get]
        exact (lookup_filter_key "thought" "thought" google).trans (if_pos rfl)
    · rename_i hgoogle
      rw [thoughtMark, Value.get]
      cases hfound : entries.lookup "google" with
      | none => rfl
      | some google => cases google with
        | object google => exact absurd hfound (hgoogle google)
        | _ => rfl
  | _ => rfl

theorem distinctKeys_of_sorted {extra : Value} (h : extra.Sorted) : DistinctKeys extra := by
  have hnodup {entries : List (String × Value)} (hsorted : (Value.object entries).Sorted) :
      (entries.map Prod.fst).Nodup := List.pairwise_map.2 (hsorted.1.imp fun hlt => hlt.ne)
  refine ⟨fun entries heq => hnodup (heq ▸ h), fun google hgoogle => ?_⟩
  cases extra with
  | object entries =>
    obtain ⟨before, after, heq, -⟩ := List.lookup_eq_some_iff.1 hgoogle
    exact hnodup (Value.sortedEntries_iff.1 h.2 ("google", .object google) (heq ▸ by simp))
  | _ => cases hgoogle

theorem replayExtra_distinct {extra : Value} (h : extra.Sorted) : DistinctKeys (replayExtra extra) := by
  apply distinctKeys_of_sorted
  cases extra with
  | object entries =>
    have hvalues := Value.sortedEntries_iff.1 h.2
    have hfilter (p : String × Value → Bool) {entries : List (String × Value)}
        (hentries : (Value.object entries).Sorted) : (Value.object (entries.filter p)).Sorted :=
      ⟨hentries.1.filter p, Value.sortedEntries_iff.2 fun e he =>
        Value.sortedEntries_iff.1 hentries.2 e (List.mem_filter.1 he).1⟩
    simp only [replayExtra]
    split
    · rename_i google hgoogle
      obtain ⟨before, after, heq, -⟩ := List.lookup_eq_some_iff.1 hgoogle
      have hsorted : (Value.object google).Sorted := hvalues ("google", .object google) (heq ▸ by simp)
      split
      · exact hfilter _ h
      · refine ⟨Value.pairwise_insertEntry h.1, Value.sortedEntries_iff.2 fun e he => ?_⟩
        rcases mem_insertEntry he with rfl | he
        · exact hfilter _ hsorted
        · exact hvalues e he
    · exact h
  | _ => exact h

/-- **What is replayed of parts is without the mark of a thought.** -/
theorem deepMerge_mark {parts : List Value} (h : ∀ part ∈ parts, part.Sorted) :
    thoughtMark (deepMerge (parts.map replayExtra)) = none := by
  have hfrom (merged : Value) (hmerged : thoughtMark merged = none) :
      thoughtMark ((parts.map replayExtra).foldl mergeExtraContent merged) = none := by
    induction parts generalizing merged with
    | nil => exact hmerged
    | cons part parts ih =>
      rw [List.forall_mem_cons] at h
      exact ih h.2 _ (thoughtMark_merge (replayExtra_distinct h.1) (replayExtra_mark part) hmerged)
  exact hfrom _ rfl

/-! ## What goes back -/

/-- An object, or nothing, and what is under a key of it. -/
theorem filledObject_get {value : Value} (h : value.isObject = true) (key : String) :
    (ChatCompletionsTurnAssembler.filledObject value).bind (Value.get key) = value.get key := by
  cases value with
  | object entries => cases entries <;> rfl
  | _ => cases h

theorem filledObject_isObject (value : Value) :
    (ChatCompletionsTurnAssembler.filledObject value).filter Value.isObject =
      ChatCompletionsTurnAssembler.filledObject value := by
  cases value with
  | object entries => cases entries <;> rfl
  | _ => rfl

/-- The tool calls of a message of a body. -/
def wireCalls (wire : Value) : List Value := ((wire.get "tool_calls").bind Value.asArray).getD []

/-- What is stored of the extension of a call. -/
def ModelTurn.storedExtra (turn : ModelTurn) (id : String) : Option Value :=
  (turn.opaqueValue.get "tool_call_extra_content").bind (Value.get id)

/-- What becomes of the extension of a call of a response: all the parts that came with its entries are stored together,
and go back on it. Entries that name their call are those of its identifier. -/
structure CallReplayed (entries : List (Nat × ToolEntry)) (turn : ModelTurn) (observed : List ToolEntry)
    (call : ToolCall) (wire : Value) : Prop where
  id : call.wireCallId = identifier observed
  providerId : call.providerCallId = some call.wireCallId
  wireId : wire.getStr "id" = some call.wireCallId
  stored : turn.storedExtra call.wireCallId = mergedExtra (extraParts observed)
  replayed : wire.get "extra_content" = mergedExtra (extraParts observed)
  named : (∀ entry ∈ entries, entry.2.Native) →
    observed = (entries.map Prod.snd).filter fun entry => entry.delta.getStr "id" = some call.wireCallId

/-- What becomes of the extensions of a turn, on the message of a body: those of the message, and those of each of the
calls that stand in the response. -/
structure ExtraReplayed (entries : List (Nat × ToolEntry)) (parts : List Value) (turn : ModelTurn) (wire : Value) : Prop where
  stored : turn.opaqueValue.get "extra_content" =
    ChatCompletionsTurnAssembler.filledObject (deepMerge (parts.map replayExtra))
  replayed : wire.get "extra_content" =
    ChatCompletionsTurnAssembler.filledObject (deepMerge (parts.map replayExtra))
  unmarked : (∀ part ∈ parts, part.Sorted) → (wire.get "extra_content").bind thoughtMark = none
  count : (wireCalls wire).length = turn.toolCalls.length
  calls : List.Forall₂ (fun observed call => CallReplayed entries turn observed call.1 call.2) (entryCalls entries)
    (turn.toolCalls.zip (wireCalls wire))

section
variable {codec : WireCodec}

theorem toolCallToWire_extra (message : Message) (call : ToolCall) :
    (toolCallToWire codec message call).get "extra_content" =
      ((message.stateField "tool_call_extra_content").bind (Value.get call.wireCallId)).filter Value.isObject := by
  simp [toolCallToWire, Value.get, lookup_optionalEntry, List.lookup_cons]

theorem messageToWire_extra {message : Message} (hrole : message.role = .assistant) :
    (messageToWire codec message).get "extra_content" =
      (message.stateField "extra_content").filter Value.isObject := by
  simp [messageToWire, Value.get, lookup_optionalEntry, lookup_optionalEntry_last, List.lookup_cons, hrole]

theorem wireCalls_messageToWire (message : Message) :
    wireCalls (messageToWire codec message) = message.toolCalls.map (toolCallToWire codec message) := by
  by_cases hcalls : message.toolCalls = []
  · simp [wireCalls, messageToWire, Value.get, List.lookup_cons, lookup_optionalEntry, lookup_optionalEntry_last,
      hcalls]
  · simp [wireCalls, messageToWire, Value.get, List.lookup_cons, lookup_optionalEntry, lookup_optionalEntry_last,
      hcalls, Value.asArray]

theorem buildChatCompletionsBody_messages (request : ModelTurnRequest) :
    ((buildChatCompletionsBody codec request).get "messages").bind Value.asArray =
      some (request.messages.map (messageToWire codec)) := rfl

/-- The turn of a body, and the assembler that it is made of. -/
theorem decoded_chat {config : DecoderConfig} {bytes : List UInt8} {turn : ModelTurn}
    (hmode : config.mode = .chatCompletions) (hturn : (decode codec config bytes).1 = .ok turn) :
    ∃ values, bodyValues codec config bytes = some values ∧ ∃ a : ChatCompletionsTurnAssembler,
      Reflects (responseEntries codec config values) a.tools ∧
        a.extraContent = deepMerge ((messageParts values).map replayExtra) ∧ a.tools.validate codec = .ok () ∧
          turn = a.turn codec := by
  obtain ⟨values, hvalues, hdecode⟩ := values_of_ok hturn
  have hrun : config.start.applyValues codec values = _ := TurnAssembly.applyValues_chat hmode values
  rw [hdecode, hrun, Sunk.attempt_ok, TurnAssembly.close_eq] at hturn
  obtain ⟨finished, hfinished, hvalid⟩ := except_bind_ok hturn
  simp only [TurnAssembly.finished, DecoderConfig.start, hmode] at hfinished
  obtain ⟨-, hvalidate, -, rfl⟩ := ChatCompletionsTurnAssembler.finishChecked_ok_iff.1 hfinished
  have hkept := ((config.start.chat.applyValues values).1).flushContent_kept
  refine ⟨values, hvalues, _, ?_, hkept.2.trans ?_, hvalidate, ?_⟩
  · have hreflects := reflects_response (congrArg Prod.fst hrun)
    simp only [TurnAssembly.tools, DecoderConfig.start, hmode] at hreflects
    rw [hkept.1]
    exact hreflects
  · rw [config.start.chat.applyValues_extraContent values]
    obtain ⟨mode, allow, ⟨deepseek, gemini⟩, contentType⟩ := config
    cases deepseek <;> cases gemini <;> rfl
  · rw [validated_ok hvalid, ChatCompletionsTurnAssembler.finish, ChatCompletionsTurnAssembler.flushContent_again]
    rfl

/-- **What goes back of the turn of an assembler.** -/
theorem extraReplayed_turn {raw : List ToolEntry} {parts : List Value} {a : ChatCompletionsTurnAssembler}
    (hreflects : Reflects (placed raw) a.tools) (hplaces : Undisplaced (placed raw))
    (hextra : a.extraContent = deepMerge (parts.map replayExtra)) (hvalidate : a.tools.validate codec = .ok ())
    (hids : ∀ call ∈ (a.turn codec).toolCalls, ∀ id, call.providerCallId = some id → trim id = id) :
    ExtraReplayed (placed raw) parts (a.turn codec) (messageToWire codec (assistantMessage (a.turn codec))) := by
  have hfield (key : String) : (assistantMessage (a.turn codec)).stateField key =
      (Value.object a.opaqueEntries).get key := rfl
  have hcalls : (a.turn codec).toolCalls = a.tools.observedPlaces.map fun place =>
      ToolCallAssembler.finishCall codec (a.tools.callAt place) := by
    rw [ChatCompletionsTurnAssembler.turn, ToolCallAssembler.finished_observed hreflects.filled hvalidate,
      ToolCallAssembler.observedCalls_eq, List.map_map]
    rfl
  have hmessage : (messageToWire codec (assistantMessage (a.turn codec))).get "extra_content" =
      ChatCompletionsTurnAssembler.filledObject (deepMerge (parts.map replayExtra)) := by
    rw [messageToWire_extra rfl, hfield, a.opaqueEntries_extra, filledObject_isObject, hextra]
  refine ⟨a.opaqueEntries_extra.trans (hextra ▸ rfl), hmessage, fun hsorted => ?_, ?_, ?_⟩
  · rw [hmessage]
    have hmark := deepMerge_mark hsorted
    cases hmerged : deepMerge (parts.map replayExtra) with
    | object entries =>
      rw [hmerged] at hmark
      cases entries with
      | nil => rfl
      | cons entry entries => exact hmark
    | _ => rfl
  · rw [wireCalls_messageToWire, List.length_map]
    rfl
  · have hzip : (a.turn codec).toolCalls.zip (wireCalls (messageToWire codec (assistantMessage (a.turn codec)))) =
        a.tools.observedPlaces.map fun place => (ToolCallAssembler.finishCall codec (a.tools.callAt place),
          toolCallToWire codec (assistantMessage (a.turn codec))
            (ToolCallAssembler.finishCall codec (a.tools.callAt place))) := by
      rw [wireCalls_messageToWire]
      show (a.turn codec).toolCalls.zip ((a.turn codec).toolCalls.map _) = _
      rw [hcalls, List.map_map, List.zip_map']
      rfl
    rw [hreflects.entryCalls_eq hplaces, hzip, List.forall₂_map_left_iff, List.forall₂_map_right_iff, List.forall₂_same]
    intro place hplace
    have hobserved : a.tools.callAt place ∈ a.tools.observedCalls := by
      rw [ToolCallAssembler.observedCalls_eq]
      exact List.mem_map_of_mem hplace
    have hblank := (ToolCallAssembler.validate_observed hvalidate _ (List.mem_filter.1 hobserved).1
      (List.mem_filter.1 hobserved).2).1
    have hprovider : (ToolCallAssembler.finishCall codec (a.tools.callAt place)).providerCallId =
        some (a.tools.callAt place).id := ToolCallAssembler.finishCall_providerCallId hblank
    have hid : (ToolCallAssembler.finishCall codec (a.tools.callAt place)).wireCallId = (a.tools.callAt place).id := by
      rw [ToolCallAssembler.finishCall_wireCallId hblank]
      exact hids _ (hcalls ▸ List.mem_map_of_mem hplace) _ hprovider
    have hidentifier : (a.tools.callAt place).id = identifier (entriesAt (placed raw) place) := by
      rw [hreflects.callAt, entriesCall_id]
    have hpart : (a.tools.callAt place).extraContent = mergedExtra (extraParts (entriesAt (placed raw) place)) := by
      rw [hreflects.callAt, entriesCall_extraContent, foldl_addExtra]
    have hstored : (a.turn codec).storedExtra (a.tools.callAt place).id =
        mergedExtra (extraParts (entriesAt (placed raw) place)) := by
      rw [← hpart, ← ToolCallAssembler.lookup_extraContent hreflects.filled hvalidate hobserved,
        ← filledObject_get rfl, ← a.opaqueEntries_toolExtra]
      rfl
    refine ⟨hid.trans hidentifier, hid ▸ hprovider, toolCallToWire_id _ _, hid ▸ hstored, ?_, fun hnative => ?_⟩
    · have hobject : (mergedExtra (extraParts (entriesAt (placed raw) place))).filter Value.isObject =
          mergedExtra (extraParts (entriesAt (placed raw) place)) := by
        unfold mergedExtra
        split
        · rfl
        · rw [Option.filter_some, if_pos (deepMerge_isObject (extraParts_isObject _))]
      rw [toolCallToWire_extra, hid, ← hobject, ← hstored]
      rfl
    · have hraw : (placed raw).map Prod.snd = raw := placedAfter_entries [] raw
      have hnamed : Named (placed raw) := by
        apply Named.nil.run
        intro entry hentry
        rw [← hraw] at hentry
        obtain ⟨visit, hvisit, rfl⟩ := List.mem_map.1 hentry
        exact hnative visit hvisit
      have hinside := List.mem_range.1 (List.mem_filter.1 hplace).1
      rw [hreflects.length] at hinside
      rw [hid, hidentifier]
      exact hnamed.entriesAt_eq hinside

end

/-! A signature that comes in two parts, and another call's; and two calls of a message with one index. -/

def signature (key value : String) : Value := .object [("google", .object [(key, .string value)])]

def signatureText (key value : String) : List Char :=
  "\x7b\"google\":\x7b\"".toList ++ key.toList ++ "\":\"".toList ++ value.toList ++ "\"\x7d\x7d".toList

def signedCall (index : Option Nat) (id key value : String) : Value :=
  .object ([("extra_content", signature key value),
    ("function", .object [("arguments", .string "\x7b\x7d"), ("name", .string "f")]), ("id", .string id)] ++
      (index.map fun index => ("index", Value.number (.int index))).toList)

def signedCallText (index : Option Nat) (id key value : String) : List Char :=
  "\x7b\"extra_content\":".toList ++ signatureText key value ++
    ",\"function\":\x7b\"arguments\":\"\x7b\x7d\",\"name\":\"f\"\x7d,\"id\":\"".toList ++ id.toList ++
    "\"".toList ++ ((index.map fun index => ",\"index\":".toList ++ (toString index).toList).getD []) ++ "\x7d".toList

def callsValue (key : String) (reason : Value) (calls : List Value) : Value :=
  .object [("choices", .array [.object [(key, .object [("tool_calls", .array calls)]),
    ("finish_reason", reason)]])]

def callsText (key : String) (reason calls : List Char) : List Char :=
  "\x7b\"choices\":[\x7b\"".toList ++ key.toList ++ "\":\x7b\"tool_calls\":[".toList ++ calls ++
    "]\x7d,\"finish_reason\":".toList ++ reason ++ "\x7d]\x7d".toList

def firstSigned : Value :=
  callsValue "delta" .null [signedCall none "a" "thought_signature" "s", signedCall none "b" "note" "t"]

def firstSignedText : List Char := callsText "delta" "null".toList
  (signedCallText none "a" "thought_signature" "s" ++ ",".toList ++ signedCallText none "b" "note" "t")

def laterSigned : Value := callsValue "delta" (.string "tool_calls")
  [.object [("extra_content", signature "note" "u"), ("id", .string "a")]]

def laterSignedText : List Char := callsText "delta" "\"tool_calls\"".toList
  ("\x7b\"extra_content\":".toList ++ signatureText "note" "u" ++ ",\"id\":\"a\"\x7d".toList)

/-- A message whose calls have one index. -/
def sharedSigned : Value := callsValue "message" (.string "tool_calls")
  [signedCall (some 0) "a" "thought_signature" "s", signedCall (some 0) "b" "note" "t"]

def sharedSignedText : List Char := callsText "message" "\"tool_calls\"".toList
  (signedCallText (some 0) "a" "thought_signature" "s" ++ ",".toList ++ signedCallText (some 0) "b" "note" "t")

def signedCodec : WireCodec :=
  tableCodec [(firstSignedText, firstSigned), (laterSignedText, laterSigned), (sharedSignedText, sharedSigned),
    ("\x7b\x7d".toList, .object [])] []

def signedDecoder (contentType : Option String) : DecoderConfig := ⟨.chatCompletions, false, ⟨false, true⟩, contentType⟩

def signedBody : List UInt8 := dataEvent firstSignedText ++ dataEvent laterSignedText ++ doneEvent

end Aifluxon
