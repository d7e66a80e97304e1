import Aifluxon.Providers.ToolRuns

/-!
# Tool calls in fragments

* `SentCall` : a tool call whose arguments are the text of a JSON object;
* `Fragments` : the deltas of a call, which make up its fields;
* `PendingToolCall.ofFragments` : the deltas of one call;
* `ToolCallAssembler.run_callAt` : among the deltas of other calls;
* `ToolCallAssembler.finish_fragments` : the calls, in the order of their indices.
-/

namespace Aifluxon

variable {codec : WireCodec}

/-! ## Calls and their fragments -/

/-- A tool call with its arguments, the text of a JSON object. -/
structure SentCall (codec : WireCodec) where
  id : String
  name : String
  arguments : String
  value : Value
  parsed : codec.fromStr arguments.toList = some value
  object : value.isObject = true

/-- The call as it is finished. A blank identifier counts as a missing one. -/
def SentCall.finished (call : SentCall codec) : ToolCall where
  id := codec.stableKey (if trim call.id = "" then call.name ++ ":" ++ call.arguments else call.id)
  name := call.name
  arguments := call.value
  providerCallId := if trim call.id = "" then none else some call.id

/-- The parts of the fields in a delta, nested in its `function` or beside it. -/
def idText (delta : Value) : String := (delta.getStr "id").getD ""

def nestedName (delta : Value) : String := (deltaName delta).getD ""

def flatName (delta : Value) : String := (delta.getStr "name").getD ""

def flatArguments (delta : Value) : String := (delta.getStr "arguments").getD ""

def nameText (delta : Value) : String := nestedName delta ++ flatName delta

def argumentsText (delta : Value) : String := deltaArguments delta ++ flatArguments delta

/-- A part of the name beside the `function` comes only where there is no name yet, and a part of the arguments only in
a delta without a `function`. -/
def Placed (name : String) : List Value → Prop
  | [] => True
  | delta :: deltas =>
    (flatName delta = "" ∨ name = "" ∧ nestedName delta = "") ∧
      (flatArguments delta = "" ∨ delta.get "function" = none) ∧ Placed (name ++ nameText delta) deltas

instance decidablePlaced : ∀ (name : String) (deltas : List Value), Decidable (Placed name deltas)
  | _, [] => inferInstanceAs (Decidable True)
  | name, delta :: deltas =>
    have := decidablePlaced (name ++ nameText delta) deltas
    inferInstanceAs (Decidable (_ ∧ _ ∧ Placed (name ++ nameText delta) deltas))

/-- The deltas of a call: their parts make up its fields. -/
structure Fragments (call : SentCall codec) (deltas : List Value) : Prop where
  nonempty : deltas ≠ []
  id : String.join (deltas.map idText) = call.id
  name : String.join (deltas.map nameText) = call.name
  arguments : String.join (deltas.map argumentsText) = call.arguments
  placed : Placed "" deltas

/-! ## One call -/

namespace PendingToolCall

variable {delta : Value} {call : PendingToolCall}

theorem applyFlat_added : call.applyFlat false delta = { call with
    name := if call.name = "" then flatName delta else call.name
    arguments := call.arguments ++ if delta.get "function" = none then flatArguments delta else "" } := by
  unfold applyFlat flatName flatArguments
  congr 1
  · cases delta.getStr "name" with
    | none =>
      simp only [Option.getD_none]
      split
      · assumption
      · rfl
    | some name => simp only [Option.getD_some, Bool.false_eq_true, if_false]
  · cases delta.getStr "arguments" with
    | none => simp only [Option.getD_none, ite_self, String.append_empty]
    | some arguments =>
      simp only [Option.getD_some, Bool.false_eq_true, if_false]
      split
      · rfl
      · rw [String.append_empty]

theorem applyDelta_placed (hname : flatName delta = "" ∨ call.name = "" ∧ nestedName delta = "")
    (harguments : flatArguments delta = "" ∨ delta.get "function" = none) :
    call.applyDelta false false delta =
      { observed := true
        id := call.id ++ idText delta
        name := call.name ++ nameText delta
        arguments := call.arguments ++ argumentsText delta
        extraContent := addExtra call.extraContent (deltaExtra delta) } := by
  have hplace : (if call.name ++ nestedName delta = "" then flatName delta else call.name ++ nestedName delta) =
      call.name ++ nameText delta := by
    rw [nameText, ← String.append_assoc]
    rcases hname with hflat | ⟨hempty, hnested⟩
    · rw [hflat, String.append_empty]
      split
      · rename_i heq
        exact heq.symm
      · rfl
    · rw [hempty, hnested, String.append_empty, if_pos rfl, String.empty_append]
  have hflat : (if delta.get "function" = none then flatArguments delta else "") = flatArguments delta := by
    rcases harguments with hempty | hnone
    · rw [hempty, ite_self]
    · rw [if_pos hnone]
  rw [applyDelta_nested, applyFlat_added, hflat]
  simp only [nested, Bool.or_self, putSome_append]
  rw [← hplace, argumentsText, ← String.append_assoc]
  rfl

/-- The call of its deltas. -/
def ofFragments (call : PendingToolCall) (deltas : List Value) : PendingToolCall :=
  deltas.foldl (fun call delta => call.applyDelta false false delta) call

theorem ofFragments_observed {deltas : List Value} (h : deltas ≠ []) : (call.ofFragments deltas).observed = true := by
  obtain ⟨deltas, delta, rfl⟩ := (List.eq_nil_or_concat deltas).resolve_left h
  rw [ofFragments, List.concat_eq_append, List.foldl_append]
  exact applyDelta_observed ..

/-- **The deltas of one call add their parts to it.** -/
theorem ofFragments_fields {deltas : List Value} (h : Placed call.name deltas) :
    (call.ofFragments deltas).id = call.id ++ String.join (deltas.map idText) ∧
      (call.ofFragments deltas).name = call.name ++ String.join (deltas.map nameText) ∧
      (call.ofFragments deltas).arguments = call.arguments ++ String.join (deltas.map argumentsText) := by
  induction deltas generalizing call with
  | nil => simp [ofFragments]
  | cons delta deltas ih =>
    obtain ⟨hname, harguments, hrest⟩ := h
    have hdelta := applyDelta_placed hname harguments
    obtain ⟨hid, hname, harguments⟩ := @ih (call.applyDelta false false delta) (by rw [hdelta]; exact hrest)
    rw [hdelta] at hid hname harguments
    have hcons : call.ofFragments (delta :: deltas) = (call.applyDelta false false delta).ofFragments deltas := rfl
    simp only [hcons, hdelta, hid, hname, harguments, List.map_cons, String.join_cons, String.append_assoc, and_self]

theorem finishCall_fragments {call : SentCall codec} {deltas : List Value} (h : Fragments call deltas) :
    ToolCallAssembler.finishCall codec (PendingToolCall.default.ofFragments deltas) = call.finished := by
  obtain ⟨hid, hname, harguments⟩ := @ofFragments_fields .default deltas h.placed
  rw [show PendingToolCall.default.id = "" from rfl, String.empty_append, h.id] at hid
  rw [show PendingToolCall.default.name = "" from rfl, String.empty_append, h.name] at hname
  rw [show PendingToolCall.default.arguments = "" from rfl, String.empty_append, h.arguments] at harguments
  simp only [ToolCallAssembler.finishCall, SentCall.finished, hid, hname, harguments, call.parsed, Option.getD_some]
  split <;> rfl

end PendingToolCall

/-! ## The calls of a response -/

/-- Deltas with their places in their events, as they are fed. -/
def fragmentSteps (deltas : List (Value × Nat)) : List ToolStep := deltas.map fun delta => .delta delta.1 delta.2 false

/-- The deltas of one index, in their order. -/
def deltasOf (deltas : List (Value × Nat)) (i : Nat) : List Value :=
  (deltas.map Prod.fst).filter fun delta => deltaIndex delta = some i

/-- Deltas of tool calls in any order that keeps that of each call: every one has the index of its call. -/
structure Interleaved (calls : List (SentCall codec)) (deltas : List (Value × Nat)) : Prop where
  index : ∀ delta ∈ deltas, ∃ i < calls.length, deltaIndex delta.1 = some i
  call : ∀ i (h : i < calls.length), Fragments calls[i] (deltasOf deltas i)

namespace ToolCallAssembler

variable {a : ToolCallAssembler} {deltas : List (Value × Nat)} {n : Nat}

/-- **A call among others** is made of the deltas of its index. -/
theorem run_callAt (hindex : ∀ delta ∈ deltas, ∃ i < n, deltaIndex delta.1 = some i)
    (hmetadata : a.metadataSnapshots = false) (i : Nat) :
    (a.run (fragmentSteps deltas)).callAt i = (a.callAt i).ofFragments (deltasOf deltas i) := by
  induction deltas generalizing a with
  | nil => rfl
  | cons delta deltas ih =>
    obtain ⟨j, -, hj⟩ := hindex delta (List.mem_cons_self ..)
    have hlater := ih (a := a.applyChatDelta delta.1 delta.2 false)
      (fun delta hmem => hindex delta (List.mem_cons_of_mem _ hmem)) hmetadata
    change ((a.applyChatDelta delta.1 delta.2 false).run (fragmentSteps deltas)).callAt i = _
    rw [hlater, applyChatDelta_callAt, index_of_some hj, hmetadata, deltasOf, deltasOf, List.map_cons, List.filter_cons]
    by_cases hij : j = i
    · rw [if_pos hij, if_pos (by simp [hj, hij])]
      rfl
    · rw [if_neg hij, if_neg (by simp [hj, hij])]

theorem run_length_le (hindex : ∀ delta ∈ deltas, ∃ i < n, deltaIndex delta.1 = some i) (ha : a.calls.length ≤ n) :
    (a.run (fragmentSteps deltas)).calls.length ≤ n := by
  induction deltas generalizing a with
  | nil => exact ha
  | cons delta deltas ih =>
    obtain ⟨j, hlt, hj⟩ := hindex delta (List.mem_cons_self ..)
    apply ih fun delta hmem => hindex delta (List.mem_cons_of_mem _ hmem)
    show (a.applyChatDelta delta.1 delta.2 false).calls.length ≤ n
    rw [applyChatDelta_length, index_of_some hj]
    omega

/-- **Fragments of tool calls in any order** make up the calls, in the order of their indices. -/
theorem finish_fragments {calls : List (SentCall codec)} {deltas : List (Value × Nat)} (h : Interleaved calls deltas) :
    (ToolCallAssembler.default.run (fragmentSteps deltas)).finish codec = calls.map SentCall.finished := by
  have hlength := run_length_le (a := .default) h.index (Nat.zero_le calls.length)
  have hat (i : Nat) (hi : i < calls.length) : ∃ pending,
      (ToolCallAssembler.default.run (fragmentSteps deltas)).calls[i]? = some pending ∧
        finishCall codec pending = calls[i].finished := by
    have hcall := run_callAt (a := .default) h.index rfl i
    rw [callAt, show ToolCallAssembler.default.callAt i = .default from rfl] at hcall
    cases hget : (ToolCallAssembler.default.run (fragmentSteps deltas)).calls[i]? with
    | none =>
      have hobserved := @PendingToolCall.ofFragments_observed .default _ (h.call i hi).nonempty
      rw [hget, Option.getD_none] at hcall
      rw [← hcall] at hobserved
      cases hobserved
    | some pending =>
      rw [hget, Option.getD_some] at hcall
      exact ⟨pending, rfl, hcall ▸ PendingToolCall.finishCall_fragments (h.call i hi)⟩
  rw [finish]
  refine List.ext_getElem? fun i => ?_
  rw [List.getElem?_map, List.getElem?_map]
  rcases Nat.lt_or_ge i calls.length with hi | hi
  · obtain ⟨pending, hget, hfinish⟩ := hat i hi
    rw [hget, Option.map_some, hfinish, List.getElem?_eq_getElem hi, Option.map_some]
  · rw [List.getElem?_eq_none (hlength.trans hi), List.getElem?_eq_none hi, Option.map_none, Option.map_none]

end ToolCallAssembler

/-! Fragments of two calls. -/

def fragment (index : Nat) (entries : List (String × Value)) : Value × Nat :=
  (.object (entries ++ [("index", .number (.int index))]), 0)

/-- The parts of a fragment, nested in its `function`. -/
def nestedParts (name arguments : String) : String × Value :=
  ("function", .object [("arguments", .string arguments), ("name", .string name)])

def emptyObject : WireCodec := tableCodec [("\x7b\x7d".toList, .object [])] [("a", 1), ("call_b", 2)]

def emptyCall (id name : String) : SentCall emptyObject := ⟨id, name, "\x7b\x7d", .object [], by decide, rfl⟩

/-- A second part of the name beside the `function` is lost, as are arguments beside it, and a blank identifier. -/
theorem flat_parts_lost :
    ((ToolCallAssembler.default.run (fragmentSteps [
      fragment 0 [("id", .string "a"), ("name", .string "she"), ("arguments", .string "\x7b\x7d")],
      fragment 0 [("name", .string "ll")]])).finish emptyObject).map ToolCall.name = ["she"] ∧
    ((ToolCallAssembler.default.run (fragmentSteps [
      fragment 0 [("id", .string "a"), nestedParts "shell" "", ("arguments", .string "\x7b\x7d")]])).finish emptyObject).map
        ToolCall.arguments = [.string ""] ∧
    ((ToolCallAssembler.default.run (fragmentSteps [
      fragment 0 [("id", .string " "), nestedParts "shell" "\x7b\x7d"]])).finish emptyObject).map
        ToolCall.providerCallId = [none] := by
  decide +kernel

theorem finish_fragments_two_calls :
    (ToolCallAssembler.default.run (fragmentSteps [
      fragment 1 [("id", .string "call_")], fragment 0 [("id", .string "a"), nestedParts "she" ""],
      fragment 1 [("id", .string "b"), ("name", .string "read"), ("arguments", .string "\x7b")],
      fragment 0 [nestedParts "ll" "\x7b\x7d"], fragment 1 [nestedParts "_file" "\x7d"]])).finish emptyObject =
    [emptyCall "a" "shell", emptyCall "call_b" "read_file"].map SentCall.finished := by
  refine ToolCallAssembler.finish_fragments ⟨by decide, fun i hi => ?_⟩
  have hlt : i < 2 := hi
  obtain rfl | rfl : i = 0 ∨ i = 1 := by omega
  · show Fragments (emptyCall "a" "shell") _
    exact ⟨by decide, by decide, by decide, by decide, by decide⟩
  · show Fragments (emptyCall "call_b" "read_file") _
    exact ⟨by decide, by decide, by decide, by decide, by decide⟩

end Aifluxon
