import Aifluxon.Runtime.Coordinator

/-!
# What the providers read and send

* `Value.asU64`, `.asBool`, `.getStr`, `.pointer` : the parts of a JSON value;
* `findUsageValue` : the first `usage` object in a value;
* `WireCodec` : the parts of `serde_json`, `uuid` and `std::hash` that the providers call;
* `Sunk` : a result with the calls of the sink that were made on the way to it;
* `textOf`, `reasoningOf` : the text that calls of the sink carry.
-/

namespace Aifluxon

/-! ## Values -/

namespace Value

def asU64 : Value → Option Nat
  | .number (.int n) => if 0 ≤ n ∧ n ≤ u64Max then some n.toNat else none
  | _ => none

def asBool : Value → Option Bool
  | .bool b => some b
  | _ => none

/-- `value.get(key).and_then(Value::as_str)`. -/
def getStr (key : String) (value : Value) : Option String := (value.get key).bind asStr

/-- `value.pointer` on a path of keys. -/
def pointer (path : List String) (value : Value) : Option Value :=
  path.foldl (fun v key => v.bind (get key)) (some value)

/-- `value.get(key)`, unless it is null. -/
def getSome (key : String) (value : Value) : Option Value := (value.get key).filter fun v => ¬ v.isNull

/-- `!value.get(key).is_some_and(|v| !v.is_null())` fails. -/
def hasError (value : Value) : Bool := (value.getSome "error").isSome

/-- The `usage` of a value, if it is an object with entries. -/
def ownUsage (value : Value) : Option Value :=
  (value.get "usage").filter fun
    | .object (_ :: _) => true
    | _ => false

mutual

/-- The first `usage` object of a value, the value's own one first. -/
def findUsage : Value → Option Value
  | .object entries => ((Value.object entries).ownUsage).or (findUsageEntries entries)
  | .array items => findUsageItems items
  | .null | .bool _ | .number _ | .string _ => none

def findUsageItems : List Value → Option Value
  | [] => none
  | x :: xs => (findUsage x).or (findUsageItems xs)

def findUsageEntries : List (String × Value) → Option Value
  | [] => none
  | (key, x) :: xs =>
    if key = "raw_usage" ∨ key = "rawUsage" then findUsageEntries xs
    else (findUsage x).or (findUsageEntries xs)

end

end Value

/-- `find_usage_value`. -/
def usageValue (value : Value) : Option Value := value.findUsage

/-- A text as a JSON string. -/
def jsonText (text : List Char) : Value := .string (String.ofList text)

/-- An optional text as a JSON value. -/
def jsonOption : Option String → Value
  | some text => .string text
  | none => .null

/-- `serde_json::from_str`, `from_slice` and `to_string`, `ToolInvocationId::from_stable_key`, and the
digits of the hash of a text. -/
structure WireCodec where
  fromStr : List Char → Option Value
  fromSlice : List UInt8 → Option Value
  display : Value → String
  stableKey : String → ToolInvocationId
  hashHex : String → String

/-! ## The sink -/

/-- A result, and the calls of the sink before it. -/
abbrev Sunk (α : Type) := α × List SinkEvent

namespace Sunk

variable {α β : Type}

/-- The next step of a computation that calls the sink. -/
def andThen (x : Sunk α) (next : α → Sunk β) : Sunk β := ((next x.1).1, x.2 ++ (next x.1).2)

/-- The next step of a computation that may fail: an error ends it. -/
def attempt (x : Sunk (Except ProviderError α)) (next : α → Sunk (Except ProviderError β)) :
    Sunk (Except ProviderError β) :=
  match x with
  | (.error e, calls) => (.error e, calls)
  | (.ok a, calls) => ((next a).1, calls ++ (next a).2)

/-- A step that cannot fail. -/
def ok (x : Sunk α) : Sunk (Except ProviderError α) := (.ok x.1, x.2)

@[simp] theorem attempt_error (e : ProviderError) (calls : List SinkEvent)
    (next : α → Sunk (Except ProviderError β)) : attempt (.error e, calls) next = (.error e, calls) := rfl

@[simp] theorem attempt_ok (a : α) (calls : List SinkEvent) (next : α → Sunk (Except ProviderError β)) :
    attempt (.ok a, calls) next = ((next a).1, calls ++ (next a).2) := rfl

/-- A step that calls nothing. -/
@[simp] theorem attempt_pure (a : α) (next : α → Sunk (Except ProviderError β)) :
    attempt (.ok a, []) next = next a := by
  rw [attempt_ok, List.nil_append]

/-- One step after the other. -/
theorem attempt_assoc {γ : Type} (x : Sunk (Except ProviderError α)) (f : α → Sunk (Except ProviderError β))
    (g : β → Sunk (Except ProviderError γ)) : (x.attempt f).attempt g = x.attempt fun a => (f a).attempt g := by
  obtain ⟨e | a, calls⟩ := x
  · rfl
  · simp only [attempt_ok]
    rcases f a with ⟨e | b, calls'⟩
    · rfl
    · simp only [attempt_ok, List.append_assoc]

theorem attempt_congr {x : Sunk (Except ProviderError α)} {f g : α → Sunk (Except ProviderError β)}
    (h : ∀ a, x.1 = .ok a → f a = g a) : x.attempt f = x.attempt g := by
  obtain ⟨e | a, calls⟩ := x
  · rfl
  · simp only [attempt_ok, h a rfl]

/-- What came before a result. -/
theorem attempt_eq_ok {x : Sunk (Except ProviderError α)} {f : α → Sunk (Except ProviderError β)} {b : β}
    (h : (x.attempt f).1 = .ok b) : ∃ a, x.1 = .ok a ∧ (f a).1 = .ok b := by
  obtain ⟨e | a, calls⟩ := x
  · cases h
  · exact ⟨a, rfl, h⟩

end Sunk

/-- The text of the deltas among calls of the sink. -/
def textOf (calls : List SinkEvent) : List Char :=
  calls.flatMap fun
    | .textDelta delta => delta.toList
    | _ => []

/-- The reasoning of the deltas among calls of the sink. -/
def reasoningOf (calls : List SinkEvent) : List Char :=
  calls.flatMap fun
    | .reasoningDelta delta => delta.toList
    | _ => []

@[simp] theorem textOf_nil : textOf [] = [] := rfl

@[simp] theorem reasoningOf_nil : reasoningOf [] = [] := rfl

@[simp] theorem textOf_append (xs ys : List SinkEvent) : textOf (xs ++ ys) = textOf xs ++ textOf ys := by
  simp [textOf]

@[simp] theorem reasoningOf_append (xs ys : List SinkEvent) :
    reasoningOf (xs ++ ys) = reasoningOf xs ++ reasoningOf ys := by
  simp [reasoningOf]

/-- `sink.on_text_delta` of a delta that is there. -/
def textCall (delta : Option (List Char)) : List SinkEvent :=
  delta.toList.map fun delta => .textDelta (String.ofList delta)

/-- `sink.on_reasoning_delta` of a delta that is there. -/
def reasoningCall (delta : Option (List Char)) : List SinkEvent :=
  delta.toList.map fun delta => .reasoningDelta (String.ofList delta)

@[simp] theorem textOf_textCall (delta : Option (List Char)) : textOf (textCall delta) = delta.getD [] := by
  cases delta <;> simp [textOf, textCall]

@[simp] theorem textOf_reasoningCall (delta : Option (List Char)) : textOf (reasoningCall delta) = [] := by
  cases delta <;> simp [textOf, reasoningCall]

@[simp] theorem reasoningOf_reasoningCall (delta : Option (List Char)) :
    reasoningOf (reasoningCall delta) = delta.getD [] := by
  cases delta <;> simp [reasoningOf, reasoningCall]

@[simp] theorem reasoningOf_textCall (delta : Option (List Char)) : reasoningOf (textCall delta) = [] := by
  cases delta <;> simp [reasoningOf, textCall]

@[simp] theorem textOf_usage (usage : Value) : textOf [.usage usage] = [] := rfl

@[simp] theorem reasoningOf_usage (usage : Value) : reasoningOf [.usage usage] = [] := rfl

end Aifluxon
