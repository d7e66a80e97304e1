import Aifluxon.Core.Run
import Aifluxon.Core.Uuid
import Mathlib.Data.String.Basic

/-!
# The JSON encoding of messages

What `derive(Serialize)` prints of the types of `message.rs`, and what `derive(Deserialize)` reads.

* `Value.Sorted`, `Value.Integral`, `Value.depth` : a value of the program, whole numbers, nesting;
* `Value.canonical` : a value as it is read, its objects being sorted maps (`sorted_canonical`,
  `depth_canonical`);
* `Message.toJson`, `Message.fromJson`, and those of the parts of a message;
* `Message.fromJson_toJson`, `Message.reread_eq` : a message is read back, unless its provider state is
  `Some(null)`.
-/

namespace Aifluxon

/-! ## Values -/

/-- Nested arrays and objects that the parser enters: its `remaining_depth` starts at 128 and must not
come down to 0. -/
def recursionLimit : Nat := 127

namespace Value

mutual

/-- The keys of every object are sorted, as those of a `BTreeMap` are. -/
def Sorted : Value → Prop
  | .array items => SortedItems items
  | .object entries => entries.Pairwise (fun a b => a.1 < b.1) ∧ SortedEntries entries
  | .null | .bool _ | .number _ | .string _ => True

def SortedItems : List Value → Prop
  | [] => True
  | x :: xs => x.Sorted ∧ SortedItems xs

def SortedEntries : List (String × Value) → Prop
  | [] => True
  | (_, x) :: xs => x.Sorted ∧ SortedEntries xs

end

mutual

/-- Every number is an integer that an `i64` or a `u64` holds. -/
def Integral : Value → Prop
  | .array items => IntegralItems items
  | .object entries => IntegralEntries entries
  | .number (.int n) => -2 ^ 63 ≤ n ∧ n < 2 ^ 64
  | .number (.float _) => False
  | .null | .bool _ | .string _ => True

def IntegralItems : List Value → Prop
  | [] => True
  | x :: xs => x.Integral ∧ IntegralItems xs

def IntegralEntries : List (String × Value) → Prop
  | [] => True
  | (_, x) :: xs => x.Integral ∧ IntegralEntries xs

end

mutual

/-- How deep arrays and objects are nested. -/
def depth : Value → Nat
  | .array items => depthItems items + 1
  | .object entries => depthEntries entries + 1
  | .null | .bool _ | .number _ | .string _ => 0

def depthItems : List Value → Nat
  | [] => 0
  | x :: xs => max x.depth (depthItems xs)

def depthEntries : List (String × Value) → Nat
  | [] => 0
  | (_, x) :: xs => max x.depth (depthEntries xs)

end

mutual

/-- What is read of a value: every object becomes a map, in which the last entry of a key stands. -/
def canonical : Value → Value
  | .array items => .array (canonicalItems items)
  | .object entries => .object (canonicalEntries [] entries)
  | .null => .null
  | .bool b => .bool b
  | .number n => .number n
  | .string s => .string s

def canonicalItems : List Value → List Value
  | [] => []
  | x :: xs => x.canonical :: canonicalItems xs

def canonicalEntries (map : List (String × Value)) : List (String × Value) → List (String × Value)
  | [] => map
  | (key, x) :: xs => canonicalEntries (insertEntry key x.canonical map) xs

end

/-- A key past all others goes to the end. -/
theorem insertEntry_last {key : String} {value : Value} {map : List (String × Value)}
    (h : ∀ e ∈ map, e.1 < key) : insertEntry key value map = map ++ [(key, value)] := by
  induction map with
  | nil => rfl
  | cons e map ih =>
    have he := h e (List.mem_cons_self ..)
    rw [insertEntry, if_neg he.ne, if_neg he.not_gt, ih fun x hx => h x (List.mem_cons_of_mem _ hx)]
    rfl

/-- A key goes where the order has it. -/
theorem pairwise_insertEntry {key : String} {value : Value} {map : List (String × Value)}
    (h : map.Pairwise fun a b => a.1 < b.1) : (insertEntry key value map).Pairwise fun a b => a.1 < b.1 := by
  induction map with
  | nil => exact List.pairwise_singleton _ _
  | cons e map ih =>
    obtain ⟨hfirst, hrest⟩ := List.pairwise_cons.1 h
    rw [insertEntry]
    split
    · rename_i heq
      exact List.pairwise_cons.2 ⟨fun b hb => by rw [← heq]; exact hfirst b hb, hrest⟩
    rename_i hne
    split
    · rename_i hlt
      refine List.pairwise_cons.2 ⟨fun b hb => ?_, h⟩
      rcases List.mem_cons.1 hb with rfl | hb
      · exact hlt
      · exact hlt.trans (hfirst b hb)
    · rename_i hlt
      refine List.pairwise_cons.2 ⟨fun b hb => ?_, ih hrest⟩
      rcases mem_insertEntry hb with rfl | hb
      · exact lt_of_le_of_ne (not_lt.1 hlt) hne
      · exact hfirst b hb

theorem sortedEntries_iff {entries : List (String × Value)} : SortedEntries entries ↔ ∀ e ∈ entries, e.2.Sorted := by
  induction entries with
  | nil => simp [SortedEntries]
  | cons e entries ih => rw [SortedEntries, ih, List.forall_mem_cons]

theorem integralEntries_iff {entries : List (String × Value)} :
    IntegralEntries entries ↔ ∀ e ∈ entries, e.2.Integral := by
  induction entries with
  | nil => simp [IntegralEntries]
  | cons e entries ih => rw [IntegralEntries, ih, List.forall_mem_cons]

theorem depthEntries_le {entries : List (String × Value)} {n : Nat} :
    depthEntries entries ≤ n ↔ ∀ e ∈ entries, e.2.depth ≤ n := by
  induction entries with
  | nil => simp [depthEntries]
  | cons e entries ih => rw [depthEntries, max_le_iff, ih, List.forall_mem_cons]

mutual

/-- A sorted value is read as it is. -/
theorem canonical_eq : ∀ {v : Value}, v.Sorted → v.canonical = v
  | .null, _ | .bool _, _ | .number _, _ | .string _, _ => rfl
  | .array items, h => by
    rw [canonical, canonicalItems_eq h]
  | .object entries, h => by
    obtain ⟨hkeys, hvalues⟩ := h
    rw [canonical, canonicalEntries_eq hvalues hkeys (by simp)]
    rfl

theorem canonicalItems_eq : ∀ {items : List Value}, SortedItems items → canonicalItems items = items
  | [], _ => rfl
  | x :: xs, h => by
    rw [canonicalItems, canonical_eq h.1, canonicalItems_eq h.2]

theorem canonicalEntries_eq : ∀ {map entries : List (String × Value)}, SortedEntries entries →
    entries.Pairwise (fun a b => a.1 < b.1) → (∀ a ∈ map, ∀ b ∈ entries, a.1 < b.1) →
    canonicalEntries map entries = map ++ entries
  | map, [], _, _, _ => by simp [canonicalEntries]
  | map, (key, x) :: xs, hvalues, hkeys, hmap => by
    obtain ⟨hkey, hrest⟩ := List.pairwise_cons.1 hkeys
    have hlast : insertEntry key x map = map ++ [(key, x)] :=
      insertEntry_last fun a ha => hmap a ha (key, x) (List.mem_cons_self ..)
    rw [canonicalEntries, canonical_eq hvalues.1, hlast, canonicalEntries_eq hvalues.2 hrest,
      List.append_assoc]
    · rfl
    · intro a ha b hb
      rcases List.mem_append.1 ha with ha | ha
      · exact hmap a ha b (List.mem_cons_of_mem _ hb)
      · rw [List.mem_singleton.1 ha]
        exact hkey b hb

end

mutual

/-- What is read is sorted. -/
theorem sorted_canonical : ∀ v : Value, v.canonical.Sorted
  | .null | .bool _ | .number _ | .string _ => trivial
  | .array items => by
    rw [canonical]
    exact sortedItems_canonical items
  | .object entries => by
    rw [canonical]
    exact sortedEntries_canonical [] entries .nil (sortedEntries_iff.1 trivial)

theorem sortedItems_canonical : ∀ items : List Value, SortedItems (canonicalItems items)
  | [] => trivial
  | x :: xs => ⟨sorted_canonical x, sortedItems_canonical xs⟩

theorem sortedEntries_canonical : ∀ map entries : List (String × Value), map.Pairwise (fun a b => a.1 < b.1) →
    (∀ e ∈ map, e.2.Sorted) → (Value.object (canonicalEntries map entries)).Sorted
  | _, [], hkeys, hvalues => ⟨hkeys, sortedEntries_iff.2 hvalues⟩
  | map, (key, x) :: xs, hkeys, hvalues => by
    rw [canonicalEntries]
    refine sortedEntries_canonical _ xs (pairwise_insertEntry hkeys) fun e he => ?_
    rcases mem_insertEntry he with rfl | he
    · exact sorted_canonical x
    · exact hvalues e he

end

mutual

/-- What is read is no deeper. -/
theorem depth_canonical : ∀ v : Value, v.canonical.depth ≤ v.depth
  | .null | .bool _ | .number _ | .string _ => le_refl _
  | .array items => by
    rw [canonical, depth, depth]
    exact Nat.succ_le_succ (depthItems_canonical items)
  | .object entries => by
    rw [canonical, depth, depth]
    exact Nat.succ_le_succ (depthEntries_canonical [] entries _ (fun _ he => absurd he List.not_mem_nil) (le_refl _))

theorem depthItems_canonical : ∀ items : List Value, depthItems (canonicalItems items) ≤ depthItems items
  | [] => le_refl _
  | x :: xs => max_le_max (depth_canonical x) (depthItems_canonical xs)

theorem depthEntries_canonical : ∀ (map entries : List (String × Value)) (n : Nat), (∀ e ∈ map, e.2.depth ≤ n) →
    depthEntries entries ≤ n → depthEntries (canonicalEntries map entries) ≤ n
  | _, [], _, hmap, _ => depthEntries_le.2 hmap
  | map, (key, x) :: xs, n, hmap, hdepth => by
    obtain ⟨hx, hxs⟩ := max_le_iff.1 hdepth
    rw [canonicalEntries]
    refine depthEntries_canonical _ xs n (fun e he => ?_) hxs
    rcases mem_insertEntry he with rfl | he
    · exact (depth_canonical x).trans hx
    · exact hmap e he

end

/-! ## Fields -/

/-- The entry of an object under a key. A struct does not read an object that has a key twice. -/
def field (key : String) : Value → Option (Option Value)
  | .object entries => match entries.filter fun e => e.1 = key with
    | [] => some none
    | [e] => some (some e.2)
    | _ => none
  | _ => none

variable {α : Type}

/-- A field without a default. -/
def requiredField (key : String) (read : Value → Option α) (v : Value) : Option α :=
  match v.field key with
  | some (some x) => read x
  | _ => none

/-- A field of an `Option` type: it may be missing or `null`. -/
def optionalField (key : String) (read : Value → Option α) (v : Value) : Option (Option α) :=
  match v.field key with
  | some none | some (some .null) => some none
  | some (some x) => (read x).map some
  | none => none

def readString : Value → Option String
  | .string s => some s
  | _ => none

/-- A value of type `Value`. -/
def readValue (v : Value) : Option Value := some v.canonical

def readUuid : Value → Option Uuid
  | .string s => parseUuid s
  | _ => none

/-- An unsigned integer of at most `bound`. -/
def readNat (bound : Nat) : Value → Option Nat
  | .number (.int n) => if 0 ≤ n ∧ n.toNat ≤ bound then some n.toNat else none
  | _ => none

def readList (read : Value → Option α) : Value → Option (List α)
  | .array items => items.mapM read
  | _ => none

/-- `None` is printed as `null`. -/
def ofOption (write : α → Value) : Option α → Value
  | some a => write a
  | none => .null

def ofUuid (u : Uuid) : Value := .string (hyphenated u)

def ofNat (n : Nat) : Value := .number (.int n)

@[simp] theorem readUuid_ofUuid (u : Uuid) : readUuid (ofUuid u) = some u := parseUuid_hyphenated u

@[simp] theorem readString_string (s : String) : readString (.string s) = some s := rfl

theorem readNat_ofNat {n bound : Nat} (h : n ≤ bound) : readNat bound (ofNat n) = some n := by
  simp [readNat, ofNat, h]

theorem readValue_eq {v : Value} (h : v.Sorted) : readValue v = some v := by
  rw [readValue, canonical_eq h]

theorem readList_map {read : Value → Option α} {write : α → Value} {f : α → α} {l : List α}
    (h : ∀ a ∈ l, read (write a) = some (f a)) : readList read (.array (l.map write)) = some (l.map f) := by
  rw [readList]
  induction l with
  | nil => rfl
  | cons a l ih =>
    rw [List.map_cons, List.mapM_cons, h a (List.mem_cons_self ..),
      ih fun b hb => h b (List.mem_cons_of_mem _ hb)]
    rfl

end Value

open Value

/-! ## Messages -/

namespace MessageRole

def toJson : MessageRole → Value
  | .system => .string "system"
  | .user => .string "user"
  | .assistant => .string "assistant"
  | .tool => .string "tool"

def fromJson : Value → Option MessageRole
  | .string s =>
    if s = "system" then some .system
    else if s = "user" then some .user
    else if s = "assistant" then some .assistant
    else if s = "tool" then some .tool
    else none
  | _ => none

@[simp] theorem fromJson_toJson (role : MessageRole) : fromJson role.toJson = some role := by
  cases role <;> simp [toJson, fromJson]

end MessageRole

namespace ImageContent

def toJson (image : ImageContent) : Value :=
  .object [("artifact", .string image.artifact.reference), ("mime_type", .string image.mimeType)]

def fromJson (v : Value) : Option ImageContent := do
  let reference ← v.requiredField "artifact" readString
  let mimeType ← v.requiredField "mime_type" readString
  return ⟨⟨reference⟩, mimeType⟩

@[simp] theorem fromJson_toJson (image : ImageContent) : fromJson image.toJson = some image := by
  simp [toJson, fromJson, requiredField, field]

end ImageContent

namespace ContentPart

/-- A variant with data is an object with the name of the variant as its only key. -/
def toJson : ContentPart → Value
  | .text s => .object [("text", .string s)]
  | .image content => .object [("image", content.toJson)]

def fromJson : Value → Option ContentPart
  | .object [(variant, v)] =>
    if variant = "text" then (readString v).map .text
    else if variant = "image" then (ImageContent.fromJson v).map .image
    else none
  | _ => none

@[simp] theorem fromJson_toJson (part : ContentPart) : fromJson part.toJson = some part := by
  cases part <;> simp [toJson, fromJson]

end ContentPart

namespace ToolCall

/-- `provider_call_id` is left out when there is none. -/
def toJson (call : ToolCall) : Value :=
  .object ([("id", ofUuid call.id.uuid), ("name", .string call.name), ("arguments", call.arguments)] ++
    (call.providerCallId.map fun id => ("provider_call_id", Value.string id)).toList)

def fromJson (v : Value) : Option ToolCall := do
  let id ← v.requiredField "id" readUuid
  let name ← v.requiredField "name" readString
  let arguments ← v.requiredField "arguments" readValue
  let providerCallId ← v.optionalField "provider_call_id" readString
  return ⟨⟨id⟩, name, arguments, providerCallId⟩

theorem fromJson_toJson {call : ToolCall} (h : call.arguments.Sorted) : fromJson call.toJson = some call := by
  obtain ⟨id, name, arguments, providerCallId⟩ := call
  cases providerCallId <;> simp [toJson, fromJson, requiredField, optionalField, field, readValue_eq h]

end ToolCall

namespace Message

def toJson (message : Message) : Value :=
  .object [("role", message.role.toJson), ("content", .array (message.content.map ContentPart.toJson)),
    ("tool_calls", .array (message.toolCalls.map ToolCall.toJson)),
    ("tool_call_id", ofOption (fun id => ofUuid id.uuid) message.toolCallId),
    ("provider_state", ofOption id message.providerState)]

def fromJson (v : Value) : Option Message := do
  let role ← v.requiredField "role" MessageRole.fromJson
  let content ← v.requiredField "content" (readList ContentPart.fromJson)
  let toolCalls ← v.requiredField "tool_calls" (readList ToolCall.fromJson)
  let toolCallId ← v.optionalField "tool_call_id" readUuid
  let providerState ← v.optionalField "provider_state" readValue
  return ⟨role, content, toolCalls, toolCallId.map ToolInvocationId.mk, providerState⟩

/-- The values in a message are values of the program. -/
structure Sorted (message : Message) : Prop where
  arguments : ∀ call ∈ message.toolCalls, call.arguments.Sorted
  providerState : ∀ state, message.providerState = some state → state.Sorted

/-- A message as it is read back: a provider state that is `null` is none. -/
def reread (message : Message) : Message :=
  { message with providerState := message.providerState.filter fun state => ¬ state.isNull }

theorem reread_eq {message : Message} : message.reread = message ↔ message.providerState ≠ some .null := by
  obtain ⟨role, content, toolCalls, toolCallId, _ | state⟩ := message
  · simp [reread]
  · cases state <;> simp [reread, isNull, Option.filter]

/-- **What is read of a printed message.** -/
theorem fromJson_toJson {message : Message} (h : message.Sorted) :
    fromJson message.toJson = some message.reread := by
  obtain ⟨role, content, toolCalls, toolCallId, providerState⟩ := message
  have hcontent : readList ContentPart.fromJson (.array (content.map ContentPart.toJson)) = some content :=
    (readList_map fun part _ => part.fromJson_toJson).trans (congrArg some (List.map_id content))
  have hcalls : readList ToolCall.fromJson (.array (toolCalls.map ToolCall.toJson)) = some toolCalls :=
    (readList_map fun call hcall => ToolCall.fromJson_toJson (h.arguments call hcall)).trans
      (congrArg some (List.map_id toolCalls))
  have hid : optionalField "tool_call_id" readUuid
      (toJson ⟨role, content, toolCalls, toolCallId, providerState⟩) =
      some (toolCallId.map ToolInvocationId.uuid) := by
    cases toolCallId <;> simp [toJson, optionalField, field, ofOption, ofUuid, readUuid, parseUuid_hyphenated]
  have hstate : optionalField "provider_state" readValue
      (toJson ⟨role, content, toolCalls, toolCallId, providerState⟩) =
      some (providerState.filter fun state => ¬ state.isNull) := by
    cases providerState with
    | none => simp [toJson, optionalField, field, ofOption]
    | some state =>
      have hread := readValue_eq (h.providerState state rfl)
      cases state <;> simp [toJson, optionalField, field, ofOption, isNull, Option.filter, hread]
  rw [fromJson, hid, hstate]
  simp [toJson, requiredField, field, hcontent, hcalls, reread, Option.map_map, Function.comp_def]

end Message

end Aifluxon
