import Aifluxon.Providers.Decoding
import Mathlib.Algebra.Order.BigOperators.Group.List
import Mathlib.Algebra.Order.Group.Nat
import Mathlib.Algebra.GroupWithZero.Nat

/-!
# How much a body holds

* `Value.size` : the values in a value, of which its text has at least as many characters;
* `JsonSizes` : what a codec keeps of it;
* `decodeUtf8_length`, `parseEventBlock_length`, `blocks_length` : bytes, characters, and the data of events;
* `eventsOf_length` : the data of the events of a body is not longer than the body.
-/

namespace Aifluxon

/-! ## Values -/

namespace Value

mutual

/-- A value and the values in it. -/
def size : Value → Nat
  | .null | .bool _ | .number _ | .string _ => 1
  | .array items => 1 + sizeItems items
  | .object entries => 1 + sizeEntries entries

def sizeItems : List Value → Nat
  | [] => 0
  | x :: xs => size x + sizeItems xs

def sizeEntries : List (String × Value) → Nat
  | [] => 0
  | (_, x) :: xs => size x + sizeEntries xs

end

theorem size_pos (value : Value) : 0 < value.size := by
  cases value with
  | null | bool | number | string => exact Nat.one_pos
  | array items | object entries => rw [size]; omega

theorem length_le_sizeItems (items : List Value) : items.length ≤ sizeItems items := by
  induction items with
  | nil => exact Nat.le_refl 0
  | cons x xs ih =>
    have hx := x.size_pos
    rw [List.length_cons, sizeItems]
    omega

theorem size_le_sizeItems {items : List Value} {x : Value} (h : x ∈ items) : x.size ≤ sizeItems items := by
  induction items with
  | nil => cases h
  | cons y ys ih =>
    rw [sizeItems]
    rcases List.mem_cons.1 h with rfl | h
    · omega
    · have hle := ih h
      omega

theorem size_lookup_le {entries : List (String × Value)} {key : String} {x : Value} (h : entries.lookup key = some x) :
    x.size ≤ sizeEntries entries := by
  induction entries with
  | nil => cases h
  | cons e es ih =>
    obtain ⟨k, y⟩ := e
    rw [List.lookup_cons] at h
    rw [sizeEntries]
    split at h
    · cases h
      omega
    · have hle := ih h
      omega

theorem size_get_le {value x : Value} {key : String} (h : value.get key = some x) : x.size ≤ value.size := by
  cases value with
  | object entries =>
    have hlookup : entries.lookup key = some x := h
    have hle := size_lookup_le hlookup
    rw [size]
    omega
  | null | bool | number | string | array => cases h

/-- The items of an array are at most as many as the values in it. -/
theorem length_asArray_le {value : Value} {items : List Value} (h : value.asArray = some items) :
    items.length ≤ value.size := by
  cases value with
  | array =>
    cases h
    have hle := length_le_sizeItems items
    rw [size]
    omega
  | null | bool | number | string | object => cases h

theorem size_asArray_le {value x : Value} {items : List Value} (h : value.asArray = some items) (hx : x ∈ items) :
    x.size ≤ value.size := by
  cases value with
  | array =>
    cases h
    have hle := size_le_sizeItems hx
    rw [size]
    omega
  | null | bool | number | string | object => cases h

/-- The items of a field, if it is an array. -/
theorem length_field_le (value : Value) (key : String) :
    (((value.get key).bind asArray).getD []).length ≤ value.size := by
  cases hitems : (value.get key).bind asArray with
  | none => exact Nat.zero_le _
  | some items =>
    obtain ⟨x, hget, harray⟩ := Option.bind_eq_some_iff.1 hitems
    exact (length_asArray_le harray).trans (size_get_le hget)

end Value

/-- A text of JSON has at least as many characters as there are values in it. -/
structure JsonSizes (codec : WireCodec) : Prop where
  text : ∀ {text value}, codec.fromStr text = some value → value.size ≤ text.length
  bytes : ∀ {bytes value}, codec.fromSlice bytes = some value → value.size ≤ bytes.length

/-- A table of texts, each with as many characters as there are values in its value. -/
theorem tableCodec_sizes {texts : List (List Char × Value)} (h : ∀ e ∈ texts, e.2.size ≤ e.1.length)
    (ids : List (String × Uuid)) : JsonSizes (tableCodec texts ids) := by
  have hlookup {text : List Char} {value : Value} (hvalue : texts.lookup text = some value) :
      value.size ≤ text.length := by
    induction texts with
    | nil => cases hvalue
    | cons e es ih =>
      rw [List.lookup_cons] at hvalue
      split at hvalue
      · rename_i heq
        cases hvalue
        rw [eq_of_beq heq]
        exact h e (List.mem_cons_self ..)
      · exact ih (fun e he => h e (List.mem_cons_of_mem _ he)) hvalue
  refine ⟨hlookup, fun {bytes value} hvalue => ?_⟩
  have hle := hlookup hvalue
  have hsuffix := (List.rdropWhile_prefix isJsonBlank bytes).length_le
  rw [asciiText, List.length_map] at hle
  omega

/-! ## Characters -/

/-- Every character has a byte. -/
theorem decodeUtf8_length (bytes : List UInt8) : (decodeUtf8 bytes).2.length ≤ bytes.length := by
  induction hn : bytes.length using Nat.strongRecOn generalizing bytes with
  | _ n ih =>
    cases bytes with
    | nil => exact Nat.zero_le _
    | cons lead bytes =>
      have hrest := utf8Next_rest lead bytes
      rw [List.length_cons] at hn
      rw [decodeUtf8_cons]
      split
      · rename_i c rest hnext
        rw [hnext] at hrest
        have hlater := ih rest.length (lt_of_le_of_lt hrest (by omega)) rest rfl
        rw [List.length_cons]
        exact (Nat.succ_le_succ (hlater.trans hrest)).trans_eq hn
      · rename_i rest hnext
        rw [hnext] at hrest
        have hlater := ih rest.length (lt_of_le_of_lt hrest (by omega)) rest rfl
        rw [List.length_cons]
        exact (Nat.succ_le_succ (hlater.trans hrest)).trans_eq hn
      · exact Nat.zero_le _

/-! ## Events -/

/-- The lines of a text are not longer than the text. -/
theorem splitOn_length (text : List Char) : ((text.splitOn '\n').map List.length).sum ≤ text.length := by
  induction text with
  | nil => simp
  | cons c text ih =>
    rw [List.splitOn_cons_eq_if_modifyHead, List.length_cons]
    split
    · simp only [List.map_cons, List.length_nil, List.sum_cons]
      omega
    · cases hsplit : text.splitOn '\n' with
      | nil => exact absurd hsplit (List.splitOn_ne_nil _ _)
      | cons line lines =>
        rw [hsplit] at ih
        simp only [List.map_cons, List.sum_cons, List.modifyHead_cons, List.length_cons] at ih ⊢
        omega

/-- The field and the value of a line are parts of it. -/
theorem splitField_length (line : List Char) : (splitField line).1.length + (splitField line).2.length ≤ line.length := by
  have hsplit := List.takeWhile_append_dropWhile (p := (· ≠ ':')) (l := line)
  have hlen := congrArg List.length hsplit
  rw [List.length_append] at hlen
  unfold splitField
  split
  · simp
  · rename_i c value hrest
    rw [hrest, List.length_cons] at hlen
    have htail := List.length_tail (l := value)
    split
    · simp only at hlen ⊢
      omega
    · simp only at hlen ⊢
      omega

/-- A line adds to the data less than it has itself. -/
theorem parseLine_length (state : SseEvent × Bool) (rawLine : List Char) :
    (parseLine state rawLine).1.data.length ≤ state.1.data.length + rawLine.length := by
  have hline : (stripCarriageReturn rawLine).length ≤ rawLine.length := by
    unfold stripCarriageReturn
    split
    · rw [List.length_dropLast]
      omega
    · exact Nat.le_refl _
  have hfield := splitField_length (stripCarriageReturn rawLine)
  simp only [parseLine]
  split
  · omega
  · split
    · rename_i hdata
      rw [hdata, show ['d', 'a', 't', 'a'].length = 4 from rfl] at hfield
      rw [List.length_append]
      split
      · rw [List.length_nil]
        omega
      · rw [List.length_append, List.length_singleton]
        omega
    · split
      · exact Nat.le_add_right _ _
      · split
        · exact Nat.le_add_right _ _
        · split <;> exact Nat.le_add_right _ _

theorem parseLines_length (lines : List (List Char)) (state : SseEvent × Bool) :
    (lines.foldl parseLine state).1.data.length ≤ state.1.data.length + (lines.map List.length).sum := by
  induction lines generalizing state with
  | nil => exact Nat.le_refl _
  | cons line lines ih =>
    have hline := parseLine_length state line
    have hlines := ih (parseLine state line)
    rw [List.foldl_cons, List.map_cons, List.sum_cons]
    omega

/-- The data of an event is not longer than its block. -/
theorem parseEventBlock_length {block : List Char} {event : SseEvent} (h : parseEventBlock block = some event) :
    event.data.length ≤ block.length := by
  simp only [parseEventBlock] at h
  split at h
  · cases h
    have hlines := parseLines_length ((block.dropWhile (· = '\uFEFF')).splitOn '\n') (SseEvent.default, false)
    have hsplit := splitOn_length (block.dropWhile (· = '\uFEFF'))
    have hdrop := (List.dropWhile_suffix (p := fun c => decide (c = '\uFEFF')) (l := block)).length_le
    rw [show SseEvent.default.data.length = 0 from rfl] at hlines
    omega
  · cases h

/-- How much data events have. -/
def dataLength (events : List SseEvent) : Nat := (events.map fun event => event.data.length).sum

/-- The data of the events of a text is not longer than the text. -/
theorem blocks_length (text : List Char) : dataLength (blocks text).2 ≤ text.length := by
  induction hn : text.length using Nat.strongRecOn generalizing text with
  | _ n ih =>
    cases hnext : nextEventBoundary text with
    | none =>
      rw [blocks_none hnext]
      exact Nat.zero_le _
    | some boundary =>
      obtain ⟨hlt, heq⟩ := blocks_some hnext
      obtain ⟨block, rest, rfl, rfl, -, -⟩ := nextEventBoundary_some hnext
      have hdrop : dropBytes (byteLen block) (block ++ rest) = rest :=
        (dropBytes_append block rest 0).trans (dropBytes_zero rest)
      have htake : takeBytes (byteLen block) (block ++ rest) = block := by
        simpa using takeBytes_append block rest 0
      rw [hdrop] at hlt
      rw [heq, hdrop, htake]
      have hrest := ih rest.length (hn ▸ hlt) rest rfl
      have hevent : dataLength (parseEventBlock block).toList ≤ block.length := by
        cases hparse : parseEventBlock block with
        | none => exact Nat.zero_le _
        | some event =>
          have hle := parseEventBlock_length hparse
          simpa [dataLength] using hle
      rw [List.length_append] at hn
      simp only [dataLength, List.map_append, List.sum_append] at hrest hevent ⊢
      omega

/-- **The data of the events of a body** is not longer than the body. -/
theorem eventsOf_length (bytes : List UInt8) : dataLength (eventsOf bytes) ≤ bytes.length := by
  have htext := blocks_length (decodeUtf8 bytes).2
  have hbytes := decodeUtf8_length bytes
  rw [eventsOf, IncrementalSseParser.push]
  simp only [IncrementalSseParser.drain_eq]
  exact htext.trans hbytes

end Aifluxon
