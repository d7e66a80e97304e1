import Aifluxon.Providers.ToolIdentity

/-!
# Assistant messages of Chat Completions

* `ChatMessage` : a message, with its tool calls;
* `ChatPiece`, `Value.chatPiece`, `applyValue_piece` : what the assembler reads of a value is all that it does;
* `ChatMessage.Whole`, `.Streamed` : the message in one value, and its fragments in many;
* `ChatMessage.Whole.calls`, `.Streamed.calls` : in both forms the assembler has the tool calls of the message.
-/

namespace Aifluxon

/-! ## Messages -/

structure ChatCall where
  id : String
  name : String
  arguments : String
  extra : Option Value
  deriving DecidableEq

/-- An assistant message; its tool calls have distinct identifiers. -/
structure ChatMessage where
  reasoning : List Char
  content : List Char
  calls : List ChatCall
  usage : Option Value
  finishReason : Option String
  extra : Option Value
  distinct : (calls.map ChatCall.id).Nodup

/-- The tool call as the assembler has it when all of it has come. -/
def ChatCall.pending (call : ChatCall) : PendingToolCall := ⟨true, call.id, call.name, call.arguments, call.extra⟩

/-- An extension of Google, which announces the Gemini contract. -/
def announces (extra : Value) : Bool := (extra.get "google").isSome

/-! ## What is read of a value -/

/-- All that the assembler reads of a value. -/
structure ChatPiece where
  usage : Option Value
  finishReason : Option String
  snapshot : Bool
  extra : Option Value
  reasoning : Option (List Char)
  content : Option (List Char)
  thought : Option Bool
  toolCalls : List Value

def Value.chatPiece (value : Value) : ChatPiece :=
  match value.choice with
  | none => ⟨usageValue value, none, false, none, none, none, none, []⟩
  | some choice => match choiceDelta choice with
    | none => ⟨usageValue value, choiceFinishReason choice, false, none, none, none, none, []⟩
    | some (delta, snapshot) =>
      ⟨usageValue value, choiceFinishReason choice, snapshot, deltaExtra delta, deltaReasoning delta,
        deltaContent delta, deltaThought delta, deltaToolCalls delta⟩

namespace ChatPiece

/-- The reasoning and the content of a piece, empty where there is none. -/
def reasoningText (p : ChatPiece) : List Char := p.reasoning.getD []

def contentText (p : ChatPiece) : List Char := p.content.getD []

end ChatPiece

namespace ChatCompletionsTurnAssembler

variable (a : ChatCompletionsTurnAssembler)

/-- What a piece does, in the order of `apply_value`. -/
def applyPiece (p : ChatPiece) : ChatCompletionsTurnAssembler :=
  let a := ((a.applyUsage p.usage).1.applyFinishReason p.finishReason).applyExtra p.extra
  let a := (a.applyReasoning p.reasoning p.snapshot).1
  let a := (a.applyContent p.content p.thought p.snapshot).1
  a.applyToolCalls p.toolCalls p.snapshot

/-- **What is read of a value is all that it does.** -/
theorem applyValue_piece (value : Value) : (a.applyValue value).1 = a.applyPiece value.chatPiece := by
  simp only [applyValue, Sunk.andThen, Value.chatPiece]
  cases value.choice with
  | none => rfl
  | some choice =>
    simp only
    cases choiceDelta choice with
    | none => rfl
    | some r => rfl

theorem applyValues_pieces (values : List Value) :
    (a.applyValues values).1 = (values.map Value.chatPiece).foldl applyPiece a := by
  induction values generalizing a with
  | nil => rfl
  | cons value values ih =>
    rw [List.map_cons, List.foldl_cons, ← applyValue_piece]
    exact ih _

end ChatCompletionsTurnAssembler

/-! ## Deltas of tool calls -/

def deltaIndex (delta : Value) : Option Nat := (delta.get "index").bind Value.asU64

/-- An index that is written into a delta. -/
theorem deltaIndex_written {delta : Value} {index : Nat} (h : delta.get "index" = some (.number (.int index))) :
    deltaIndex delta = if (index : Int) ≤ u64Max then some index else none := by
  rw [deltaIndex, h, Option.bind_some, Value.asU64]
  by_cases hle : (index : Int) ≤ u64Max
  · rw [if_pos hle, if_pos ⟨Int.natCast_nonneg index, hle⟩, Int.toNat_natCast]
  · rw [if_neg hle, if_neg fun hboth => hle hboth.2]

def deltaName (delta : Value) : Option String := (delta.get "function").bind (Value.getStr "name")

def deltaArguments (delta : Value) : String :=
  ((delta.get "function").bind (Value.getStr "arguments")).getD ""

/-- A delta without a name or arguments beside its `function`. -/
def Unflat (delta : Value) : Prop := delta.getStr "name" = none ∧ delta.getStr "arguments" = none

/-- An extension put over the one that is there. -/
def addExtra (old extra : Option Value) : Option Value :=
  match extra with
  | none => old
  | some extra => some (mergeExtraContent (old.getD (.object [])) extra)

/-- The whole of a tool call, in one value that has no index or that of its place. -/
structure WholeCall (call : ChatCall) (position : Nat) (value : Value) : Prop where
  index : ∀ i, deltaIndex value = some i → i = position
  id : value.getStr "id" = some call.id
  name : deltaName value = some call.name
  arguments : deltaArguments value = call.arguments
  extra : addExtra none (deltaExtra value) = call.extra
  unflat : Unflat value

/-- The fragments of a tool call: the first one has the identifier and the name. -/
structure CallDeltas (call : ChatCall) (deltas : List Value) : Prop where
  head : ∃ first rest, deltas = first :: rest ∧ first.getStr "id" = some call.id ∧
    deltaName first = some call.name ∧ ∀ delta ∈ rest, delta.getStr "id" = none ∧ deltaName delta = none
  arguments : (deltas.map deltaArguments).foldl (· ++ ·) "" = call.arguments
  extra : (deltas.map deltaExtra).foldl addExtra none = call.extra
  unflat : ∀ delta ∈ deltas, Unflat delta

namespace PendingToolCall

variable {delta : Value} {call : PendingToolCall}

/-- A text that comes again, or not. -/
def putSome (replace : Bool) (old : String) (new : Option String) : String :=
  match new with
  | none => old
  | some new => put replace old new

/-- A delta, but for the name and the arguments beside its `function`, by what is read of it. -/
def nested (metadata snapshot : Bool) (delta : Value) (call : PendingToolCall) : PendingToolCall where
  observed := true
  id := putSome (snapshot || metadata) call.id (delta.getStr "id")
  name := putSome (snapshot || metadata) call.name (deltaName delta)
  arguments := putSome snapshot call.arguments ((delta.get "function").bind (Value.getStr "arguments"))
  extraContent := addExtra call.extraContent (deltaExtra delta)

theorem applyDelta_nested (metadata snapshot : Bool) :
    call.applyDelta metadata snapshot delta = (call.nested metadata snapshot delta).applyFlat snapshot delta := by
  have hextra (call : PendingToolCall) :
      applyExtra delta call = { call with extraContent := addExtra call.extraContent (deltaExtra delta) } := by
    unfold applyExtra addExtra deltaExtra
    cases (delta.get "extra_content").filter Value.isObject <;> rfl
  have hid (call : PendingToolCall) : applyId (snapshot || metadata) delta call =
      { call with id := putSome (snapshot || metadata) call.id (delta.getStr "id") } := by
    unfold applyId putSome
    cases delta.getStr "id" <;> rfl
  have hfunction (call : PendingToolCall) : applyFunction metadata snapshot delta call = { call with
      name := putSome (snapshot || metadata) call.name (deltaName delta)
      arguments := putSome snapshot call.arguments ((delta.get "function").bind (Value.getStr "arguments")) } := by
    unfold applyFunction putSome deltaName
    cases delta.get "function" <;> rfl
  rw [applyDelta, hfunction, hid, hextra]
  rfl

/-- A delta, by what is read of it. -/
theorem applyDelta_eq (metadata snapshot : Bool) (hflat : Unflat delta) :
    call.applyDelta metadata snapshot delta = call.nested metadata snapshot delta := by
  rw [applyDelta_nested]
  simp only [applyFlat, hflat.1, hflat.2]

/-- A delta with nothing to replace. -/
def add (call : PendingToolCall) (delta : Value) : PendingToolCall where
  observed := true
  id := call.id ++ (delta.getStr "id").getD ""
  name := call.name ++ (deltaName delta).getD ""
  arguments := call.arguments ++ deltaArguments delta
  extraContent := addExtra call.extraContent (deltaExtra delta)

theorem putSome_append (old : String) (new : Option String) : putSome false old new = old ++ new.getD "" := by
  cases new <;> simp [putSome, put]

theorem putSome_once {replace : Bool} {old : String} {new : Option String} (h : old = "" ∨ new = none) :
    putSome replace old new = old ++ new.getD "" := by
  rcases h with rfl | rfl
  · cases new <;> cases replace <;> simp [putSome, put]
  · simp [putSome]

/-- The identifier and the name come once, so that it does not matter if they replace or are added. -/
theorem applyDelta_add (metadata : Bool) (hflat : Unflat delta)
    (h : call = .default ∨ delta.getStr "id" = none ∧ deltaName delta = none) :
    call.applyDelta metadata false delta = call.add delta := by
  have hid : call.id = "" ∨ delta.getStr "id" = none := h.imp (by rintro rfl; rfl) And.left
  have hname : call.name = "" ∨ deltaName delta = none := h.imp (by rintro rfl; rfl) And.right
  rw [applyDelta_eq metadata false hflat, nested, putSome_once hid, putSome_once hname, putSome_append]
  rfl

/-- A snapshot of a call that is new. -/
theorem applyDelta_whole (metadata : Bool) {call : ChatCall} {position : Nat} (h : WholeCall call position delta) :
    PendingToolCall.default.applyDelta metadata true delta = call.pending := by
  have hput (new : Option String) : putSome true "" new = new.getD "" := by
    rw [putSome_once (.inl rfl), String.empty_append]
  have harguments := h.arguments
  rw [deltaArguments] at harguments
  rw [applyDelta_eq metadata true h.unflat]
  simp only [nested, default, Bool.true_or, hput, harguments, h.extra, h.id, h.name, Option.getD_some]
  rfl

/-- The call of its deltas. -/
def ofDeltas (deltas : List Value) : PendingToolCall := deltas.foldl add .default

theorem ofDeltas_append (deltas : List Value) (delta : Value) :
    ofDeltas (deltas ++ [delta]) = (ofDeltas deltas).add delta := by
  rw [ofDeltas, List.foldl_append]
  rfl

/-- **The fragments of a tool call make it up.** -/
theorem ofDeltas_call {call : ChatCall} {deltas : List Value} (h : CallDeltas call deltas) :
    ofDeltas deltas = call.pending := by
  obtain ⟨first, rest, rfl, hid, hname, hrest⟩ := h.head
  have hadd (rest : List Value) (pending : PendingToolCall)
      (hrest : ∀ delta ∈ rest, delta.getStr "id" = none ∧ deltaName delta = none) (hobserved : pending.observed = true) :
      rest.foldl add pending = { pending with
        arguments := (rest.map deltaArguments).foldl (· ++ ·) pending.arguments
        extraContent := (rest.map deltaExtra).foldl addExtra pending.extraContent } := by
    induction rest generalizing pending with
    | nil => rfl
    | cons delta rest ih =>
      obtain ⟨hid, hname⟩ := hrest delta (List.mem_cons_self ..)
      rw [List.foldl_cons, ih _ (fun d hd => hrest d (List.mem_cons_of_mem _ hd)) rfl]
      simp only [add, hid, hname, Option.getD_none, String.append_empty, List.map_cons, List.foldl_cons, hobserved]
  have harguments := h.arguments
  have hextra := h.extra
  rw [List.map_cons, List.foldl_cons] at harguments hextra
  rw [ofDeltas, List.foldl_cons, hadd rest _ hrest rfl]
  simp only [add, hid, hname, default, Option.getD_some, String.empty_append]
  rw [String.empty_append] at harguments
  rw [harguments, hextra]
  rfl

end PendingToolCall

namespace ToolCallAssembler

variable {a : ToolCallAssembler}

/-- The call of an index, empty where there is none yet. -/
def callAt (a : ToolCallAssembler) (i : Nat) : PendingToolCall := a.calls[i]?.getD .default

theorem padTo_getD (calls : List PendingToolCall) (index i : Nat) :
    (padTo calls index)[i]?.getD .default = calls[i]?.getD .default := by
  rw [padTo, List.getElem?_append]
  split
  · rfl
  · rename_i hi
    rw [List.getElem?_eq_none (Nat.le_of_not_lt hi), Option.getD_none, List.getElem?_replicate]
    split <;> rfl

/-- A delta goes to the call of its index. -/
theorem applyChatDelta_callAt (a : ToolCallAssembler) (delta : Value) (fallbackPosition : Nat) (snapshot : Bool) (i : Nat) :
    (a.applyChatDelta delta fallbackPosition snapshot).callAt i =
      if a.index delta fallbackPosition = i then (a.callAt i).applyDelta a.metadataSnapshots snapshot delta
      else a.callAt i := by
  have hpad := padTo_getD a.calls (a.index delta fallbackPosition) i
  simp only [callAt, applyChatDelta, List.getElem?_modify]
  split
  · rename_i hindex
    subst hindex
    have hlt := length_padTo a.calls (a.index delta fallbackPosition)
    rw [List.getElem?_eq_getElem hlt] at hpad ⊢
    rw [← hpad]
    rfl
  · rw [← hpad]
    cases (padTo a.calls (a.index delta fallbackPosition))[i]? <;> rfl

theorem index_of_some {delta : Value} {i : Nat} (h : deltaIndex delta = some i) (fallbackPosition : Nat) :
    a.index delta fallbackPosition = i := by
  rw [deltaIndex] at h
  simp only [index, streamedToolCallIndex, h, reduceCtorEq, and_false, if_false]

/-- The calls are as many as indices have come. -/
theorem applyChatDelta_length (a : ToolCallAssembler) (delta : Value) (fallbackPosition : Nat) (snapshot : Bool) :
    (a.applyChatDelta delta fallbackPosition snapshot).calls.length =
      max a.calls.length (a.index delta fallbackPosition + 1) := by
  simp only [applyChatDelta, List.length_modify, padTo, List.length_append, List.length_replicate]
  omega

end ToolCallAssembler

/-- Tool calls, each whole and in its place. -/
def WholeCalls (calls : List ChatCall) (position : Nat) (values : List Value) : Prop :=
  List.Forall₂ (fun call value => WholeCall call.1 call.2 value) (calls.zipIdx position) values

/-- The fragments of tool calls, each with the index of its call. -/
structure StreamedCalls (calls : List ChatCall) (deltas : List Value) : Prop where
  index : ∀ delta ∈ deltas, ∃ i < calls.length, deltaIndex delta = some i
  call : ∀ i (h : i < calls.length), CallDeltas calls[i] (deltas.filter fun delta => deltaIndex delta = some i)

namespace ToolCallAssembler

variable {a : ToolCallAssembler} {calls : List ChatCall} {before deltas after : List Value} {delta : Value}

/-- A whole call that is new comes after those that are there. -/
theorem index_whole {call : ChatCall} (hcalls : a.calls = calls.map ChatCall.pending)
    (h : WholeCall call calls.length delta) (hnew : call.id ∉ calls.map ChatCall.id) :
    a.index delta calls.length = calls.length := by
  have hlen : a.calls.length = calls.length := by rw [hcalls, List.length_map]
  cases hindex : deltaIndex delta with
  | some i => rw [index_of_some hindex, h.index i hindex]
  | none =>
    rw [deltaIndex] at hindex
    have hfind : a.calls.findIdx? (fun pending => pending.id = call.id) = none := by
      rw [hcalls, List.findIdx?_eq_none_iff]
      intro pending hpending
      obtain ⟨old, hold, rfl⟩ := List.mem_map.1 hpending
      rw [decide_eq_false_iff_not]
      rintro heq
      exact hnew (heq ▸ List.mem_map_of_mem hold)
    simp only [index, streamedToolCallIndex, hindex, h.id, hlen, Nat.lt_irrefl, if_false, Option.filter_some]
    by_cases hid : call.id = ""
    · simp [hid]
    · simp [hid, hfind]

theorem modify_last {α : Type} (xs : List α) (x : α) (f : α → α) : (xs ++ [x]).modify xs.length f = xs ++ [f x] := by
  induction xs with
  | nil => rfl
  | cons y xs ih => rw [List.cons_append, List.length_cons, List.modify_succ_cons, ih, List.cons_append]

theorem applyChatDelta_whole {call : ChatCall} (hcalls : a.calls = calls.map ChatCall.pending)
    (h : WholeCall call calls.length delta) (hnew : call.id ∉ calls.map ChatCall.id) :
    (a.applyChatDelta delta calls.length true).calls = (calls ++ [call]).map ChatCall.pending := by
  have hlen : a.calls.length = calls.length := by rw [hcalls, List.length_map]
  simp only [applyChatDelta, index_whole hcalls h hnew, padTo, hlen, Nat.add_sub_cancel_left, List.replicate_one]
  rw [← hlen, modify_last, hcalls, PendingToolCall.applyDelta_whole _ h, List.map_append]
  rfl

/-- **A snapshot of tool calls.** -/
theorem foldl_whole (hcalls : a.calls = calls.map ChatCall.pending) {new : List ChatCall} {values : List Value}
    (h : WholeCalls new calls.length values) (hdistinct : ((calls ++ new).map ChatCall.id).Nodup) :
    ((values.zipIdx calls.length).foldl (fun tools call => tools.applyChatDelta call.1 call.2 true) a).calls =
      (calls ++ new).map ChatCall.pending := by
  induction new generalizing a calls values with
  | nil =>
    cases h
    rw [List.append_nil]
    exact hcalls
  | cons call new ih =>
    cases h with
    | cons hcall hrest =>
      rename_i value values
      have hnew : call.id ∉ calls.map ChatCall.id := by
        rw [List.map_append, List.map_cons, List.nodup_append] at hdistinct
        exact fun hmem => hdistinct.2.2 _ hmem _ (List.mem_cons_self ..) rfl
      have hfirst := applyChatDelta_whole hcalls hcall hnew
      have hlen : (calls ++ [call]).length = calls.length + 1 := by simp
      rw [← hlen] at hrest
      have hlater := ih hfirst hrest (by rwa [List.append_assoc])
      rw [hlen, List.append_assoc] at hlater
      exact hlater

/-- The calls after some of the deltas. -/
structure Built (calls : List ChatCall) (before : List Value) (a : ToolCallAssembler) : Prop where
  callAt : ∀ i, a.callAt i = .ofDeltas (before.filter fun delta => deltaIndex delta = some i)
  length : a.calls.length ≤ calls.length

theorem Built.step (h : StreamedCalls calls (before ++ delta :: after)) (hbuilt : Built calls before a)
    (fallbackPosition : Nat) : Built calls (before ++ [delta]) (a.applyChatDelta delta fallbackPosition false) := by
  obtain ⟨i, hi, hindex⟩ := h.index delta (List.mem_append_right _ (List.mem_cons_self ..))
  refine ⟨fun j => ?_, ?_⟩
  · rw [applyChatDelta_callAt, index_of_some hindex, hbuilt.callAt, List.filter_append]
    by_cases hij : i = j
    · subst hij
      have hcall := h.call i hi
      rw [List.filter_append, List.filter_cons_of_pos (by simp [hindex])] at hcall
      have hone : [delta].filter (fun delta => deltaIndex delta = some i) = [delta] := by simp [hindex]
      have hunflat := hcall.unflat delta (List.mem_append_right _ (List.mem_cons_self ..))
      rw [if_pos rfl, hone, PendingToolCall.ofDeltas_append, PendingToolCall.applyDelta_add _ hunflat]
      obtain ⟨first, rest, heq, -, -, hrest⟩ := hcall.head
      cases hbefore : before.filter fun delta => deltaIndex delta = some i with
      | nil => exact .inl rfl
      | cons x xs =>
        rw [hbefore, List.cons_append, List.cons.injEq] at heq
        exact .inr (hrest delta (heq.2 ▸ List.mem_append_right _ (List.mem_cons_self ..)))
    · have hnone : [delta].filter (fun delta => deltaIndex delta = some j) = [] := by simp [hindex, hij]
      rw [if_neg hij, hnone, List.append_nil]
  · rw [applyChatDelta_length, index_of_some hindex]
    exact max_le hbuilt.length hi

theorem Built.run (h : StreamedCalls calls (before ++ deltas ++ after)) (hbuilt : Built calls before a)
    (position : Nat) : Built calls (before ++ deltas)
      ((deltas.zipIdx position).foldl (fun tools call => tools.applyChatDelta call.1 call.2 false) a) := by
  induction deltas generalizing before a position with
  | nil =>
    rw [List.append_nil]
    exact hbuilt
  | cons delta deltas ih =>
    rw [List.append_assoc, List.cons_append] at h
    have hstep := hbuilt.step h position
    have hrest := ih (by simpa using h) hstep (position + 1)
    rw [List.append_assoc] at hrest
    exact hrest

/-- **All fragments have come.** -/
theorem Built.all (h : StreamedCalls calls deltas) (hbuilt : Built calls deltas a) :
    a.calls = calls.map ChatCall.pending := by
  have hat (i : Nat) (hi : i < calls.length) : a.calls[i]? = some calls[i].pending := by
    have hcall := hbuilt.callAt i
    rw [PendingToolCall.ofDeltas_call (h.call i hi), ToolCallAssembler.callAt] at hcall
    cases hget : a.calls[i]? with
    | none =>
      rw [hget] at hcall
      cases hcall
    | some pending =>
      rw [hget] at hcall
      rw [← hcall]
      rfl
  refine List.ext_getElem? fun i => ?_
  rcases Nat.lt_or_ge i calls.length with hi | hi
  · rw [hat i hi, List.getElem?_map, List.getElem?_eq_getElem hi, Option.map_some]
  · rw [List.getElem?_eq_none (hbuilt.length.trans hi), List.getElem?_map, List.getElem?_eq_none hi, Option.map_none]

end ToolCallAssembler

end Aifluxon
