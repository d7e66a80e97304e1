import Mathlib.Algebra.Group.Int.Defs
import Aifluxon.Core.Json

/-!
# JSON Schema

The keywords of JSON Schema that the program writes: `type`, `items`, `properties`, `required` and
`additionalProperties`.

* `Number.value` : numbers of JSON are the same when their values are;
* `schemaAccepts` : whether a schema accepts a value;
* `IsSchema` : the schemas of these keywords.
-/

namespace Aifluxon

/-! ## Numbers -/

/-- The value of a double; there is none for an infinity, nor for what is no number. -/
def floatValue (bits : BitVec 64) : Option Rat :=
  let sign : Int := if bits.msb then -1 else 1
  let exponent : Nat := bits.toNat / 2 ^ 52 % 2 ^ 11
  let mantissa : Nat := bits.toNat % 2 ^ 52
  if exponent = 2047 then none
  else if exponent = 0 then some (mkRat (sign * mantissa) (2 ^ 1074))
  else if exponent < 1075 then some (mkRat (sign * (2 ^ 52 + mantissa)) (2 ^ (1075 - exponent)))
  else some ((sign * (2 ^ 52 + mantissa) * 2 ^ (exponent - 1075) : Int) : Rat)

def Number.value : Number → Option Rat
  | .int n => some n
  | .float bits => floatValue bits

/-- A whole number, however it is written. -/
def Number.isWhole (x : Number) : Bool := x.value.any fun value => value.den = 1

theorem Number.isWhole_iff {x : Number} : x.isWhole ↔ ∃ n : Int, x.value = some (n : Rat) := by
  unfold Number.isWhole
  rw [Option.any_eq_true]
  constructor
  · intro ⟨value, hvalue, hden⟩
    exact ⟨value.num, hvalue.trans (congrArg some (Rat.ext rfl (of_decide_eq_true hden)))⟩
  · intro ⟨n, hvalue⟩
    exact ⟨n, hvalue, decide_eq_true (Rat.den_intCast n)⟩

/-! ## Schemas -/

/-- The `type` keyword. -/
def hasType (name : String) : Value → Bool
  | .null => name = "null"
  | .bool _ => name = "boolean"
  | .number x => name = "number" || (name = "integer" && x.isWhole)
  | .string _ => name = "string"
  | .array _ => name = "array"
  | .object _ => name = "object"

/-- The names under `properties`. -/
def propertyNames (keywords : List (String × Value)) : List String :=
  match keywords.lookup "properties" with
  | some (.object properties) => properties.map (·.1)
  | _ => []

mutual

def schemaAccepts : Value → Value → Bool
  | .bool b, _ => b
  | .object keywords, value => keywordsAccept (propertyNames keywords) keywords value
  | _, _ => false

/-- Each keyword by itself; `additionalProperties` leaves out the names under `properties`. -/
def keywordsAccept (names : List String) : List (String × Value) → Value → Bool
  | [], _ => true
  | (key, s) :: keywords, value =>
    (match key, s, value with
      | "type", .string name, value => hasType name value
      | "items", s, .array items => items.all fun item => schemaAccepts s item
      | "additionalProperties", s, .object entries => entries.all fun e => names.contains e.1 || schemaAccepts s e.2
      | "properties", .object properties, .object entries => propertiesAccept properties entries
      | "required", .array required, .object entries =>
        required.all fun name => entries.any fun e => Value.string e.1 = name
      | _, _, _ => true) && keywordsAccept names keywords value

def propertiesAccept : List (String × Value) → List (String × Value) → Bool
  | [], _ => true
  | (name, s) :: properties, entries =>
    (entries.lookup name).all (fun value => schemaAccepts s value) && propertiesAccept properties entries

end

example : schemaAccepts (.object [("items", .object [("type", .string "integer")]), ("type", .string "array")])
    (.array [.number (.int 1), .number (.float 0x4000000000000000)]) = true := by decide

/-- The keywords with values of their form; the names under `required` are distinct. -/
def KeywordForm (key : String) (s : Value) : Prop :=
  key = "type" ∧ (∃ name ∈ ["array", "boolean", "integer", "null", "number", "object", "string"], s = .string name) ∨
    key = "items" ∨ key = "additionalProperties" ∨ key = "properties" ∧ (∃ properties, s = .object properties) ∨
    key = "required" ∧ ∃ names : List String, names.Nodup ∧ s = .array (names.map .string)

/-- A schema of these keywords. -/
inductive IsSchema : Value → Prop where
  | bool (b : Bool) : IsSchema (.bool b)
  | object {keywords : List (String × Value)} (form : ∀ e ∈ keywords, KeywordForm e.1 e.2)
      (items : ∀ s, ("items", s) ∈ keywords → IsSchema s)
      (additional : ∀ s, ("additionalProperties", s) ∈ keywords → IsSchema s)
      (properties : ∀ ps, ("properties", .object ps) ∈ keywords → ∀ e ∈ ps, IsSchema e.2) : IsSchema (.object keywords)

theorem isSchema_type {name : String}
    (h : name ∈ ["array", "boolean", "integer", "null", "number", "object", "string"]) :
    IsSchema (.object [("type", .string name)]) := by
  refine .object (fun e he => ?_) (fun s hs => ?_) (fun s hs => ?_) (fun ps hps => ?_)
  · rw [List.mem_singleton.1 he]
    exact .inl ⟨rfl, name, h, rfl⟩
  · simp at hs
  · simp at hs
  · simp at hps

theorem isSchema_array {s : Value} (h : IsSchema s) : IsSchema (.object [("items", s), ("type", .string "array")]) := by
  refine .object (fun e he => ?_) (fun s' hs => ?_) (fun s' hs => ?_) (fun ps hps => ?_)
  · rcases List.mem_pair.1 he with rfl | rfl
    · exact .inr (.inl rfl)
    · exact .inl ⟨rfl, "array", by decide, rfl⟩
  · simp at hs
    rw [hs]
    exact h
  · simp at hs
  · simp at hps

theorem isSchema_dict {s : Value} (h : IsSchema s) :
    IsSchema (.object [("additionalProperties", s), ("type", .string "object")]) := by
  refine .object (fun e he => ?_) (fun s' hs => ?_) (fun s' hs => ?_) (fun ps hps => ?_)
  · rcases List.mem_pair.1 he with rfl | rfl
    · exact .inr (.inr (.inl rfl))
    · exact .inl ⟨rfl, "object", by decide, rfl⟩
  · simp at hs
  · simp at hs
    rw [hs]
    exact h
  · simp at hps

/-! ## What the keywords say -/

theorem schemaAccepts_type (name : String) (value : Value) :
    schemaAccepts (.object [("type", .string name)]) value = hasType name value := by
  simp [schemaAccepts, keywordsAccept]

theorem schemaAccepts_array (s value : Value) :
    schemaAccepts (.object [("items", s), ("type", .string "array")]) value ↔
      ∃ items, value = .array items ∧ ∀ item ∈ items, schemaAccepts s item := by
  cases value with
  | array items => simp [schemaAccepts, keywordsAccept, hasType]
  | _ => simp [schemaAccepts, keywordsAccept, hasType]

theorem schemaAccepts_dict (s value : Value) :
    schemaAccepts (.object [("additionalProperties", s), ("type", .string "object")]) value ↔
      ∃ entries, value = .object entries ∧ ∀ e ∈ entries, schemaAccepts s e.2 := by
  have hnames : propertyNames [("additionalProperties", s), ("type", .string "object")] = [] := rfl
  cases value with
  | object entries => simp [schemaAccepts, keywordsAccept, hnames, hasType]
  | _ => simp [schemaAccepts, keywordsAccept, hasType]

theorem propertiesAccept_iff {properties entries : List (String × Value)} : propertiesAccept properties entries ↔
    ∀ e ∈ properties, ∀ value, entries.lookup e.1 = some value → schemaAccepts e.2 value := by
  induction properties with
  | nil => exact ⟨fun _ => nofun, fun _ => rfl⟩
  | cons e properties ih =>
    obtain ⟨name, s⟩ := e
    rw [propertiesAccept, Bool.and_eq_true, ih, List.forall_mem_cons]
    refine and_congr ?_ Iff.rfl
    rcases entries.lookup name with _ | value
    · exact ⟨fun _ => nofun, fun _ => rfl⟩
    · simp

end Aifluxon
