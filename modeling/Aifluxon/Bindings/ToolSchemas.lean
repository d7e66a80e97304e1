import Aifluxon.Core.Schema
import Aifluxon.Runtime.Tools

/-!
# The schemas of Python tools

`schema_from_callable` and `annotation_to_schema` of `tools.py`, and what `validate_tool_arguments` makes of them.

* `Annotation`, `annotationToSchema`, `schemaFromCallable` : from the signature of a function to its schema;
* `ParameterType` : the annotations that are supported, and the schema of each; `annotationToSchema_annotation`;
* `ParameterType.Encodes`, `NullPlace` : the values that are encoded, and those with a null where `T | None` stands;
* `schema_accepts_iff` : a schema accepts what is encoded without such a null;
* `validate_signature`, `parameter_schema_iff` : so do the arguments of a call.
-/

namespace Aifluxon

/-! ## Annotations -/

/-- An annotation by its origin and its arguments; those that no branch tells apart have their text. -/
inductive Annotation where
  | str
  | int
  | float
  | bool
  | noneType
  | simple (text : String)
  | list (args : List Annotation)
  | dict (args : List Annotation)
  | union (args : List Annotation)
  | generic (text : String)

namespace Annotation

def isNoneType : Annotation → Bool
  | .noneType => true
  | _ => false

def isStr : Annotation → Bool
  | .str => true
  | _ => false

/-- `T | None`: a union stays flat, and has `None` once. -/
def orNone : Annotation → Annotation
  | .union args => .union (if args.any isNoneType then args else args ++ [.noneType])
  | annotation => .union [ annotation, .noneType]

end Annotation

section Schemas
-- `repr` of an annotation, the name of the tool and that of the parameter
variable (repr : Annotation → String) (toolName field : String)

def typeSchema (name : String) : Value := .object [("type", .string name)]

/-- `TypeError`. -/
def unsupportedType ( annotation : Annotation) : Except String Value :=
  .error ("Tool `" ++ toolName ++ "` parameter `" ++ field ++ "` uses unsupported type `" ++ repr annotation ++ "`.")

def simpleSchema : Annotation → Except String Value
  | .str => .ok (typeSchema "string")
  | .int => .ok (typeSchema "integer")
  | .float => .ok (typeSchema "number")
  | .bool => .ok (typeSchema "boolean")
  | annotation => unsupportedType repr toolName field annotation

mutual

def annotationToSchema : Annotation → Except String Value
  | .list args => match argumentSchemas args with
    | [items] => items.map fun items => .object [("items", items), ("type", .string "array")]
    | _ => .error ("Tool `" ++ toolName ++ "` parameter `" ++ field ++ "` list annotation is unsupported.")
  | .dict args => match args.map Annotation.isStr, argumentSchemas args with
    | [true, _], [_, values] => values.map fun values =>
      .object [("additionalProperties", values), ("type", .string "object")]
    | _, _ => .error ("Tool `" ++ toolName ++ "` parameter `" ++ field ++ "` only supports dict[str, T].")
  | .union args =>
    if args.any Annotation.isNoneType then
      match presentSchemas args with
      | [schema] => schema
      | _ => .error ("Tool `" ++ toolName ++ "` parameter `" ++ field ++ "` Union is unsupported.")
    else unsupportedType repr toolName field (.union args)
  | .generic text => unsupportedType repr toolName field (.generic text)
  | annotation => simpleSchema repr toolName field annotation

def argumentSchemas : List Annotation → List (Except String Value)
  | [] => []
  | annotation :: args => annotationToSchema annotation :: argumentSchemas args

/-- Of the members of a union that are not `None`. -/
def presentSchemas : List Annotation → List (Except String Value)
  | [] => []
  | annotation :: args =>
    if annotation.isNoneType then presentSchemas args else annotationToSchema annotation :: presentSchemas args

end

end Schemas

/-- A parameter as `inspect.signature` gives it. -/
structure ToolParameter where
  name : String
  variadic : Bool
  annotation : Option Annotation
  hasDefault : Bool

/-- A parameter is added to the properties, and to the required names if it has no default. -/
def addParameter (repr : Annotation → String) (toolName : String)
    (s : List (String × Value) × List String) (parameter : ToolParameter) :
    Except String (List (String × Value) × List String) :=
  if parameter.variadic then
    .error ("Tool `" ++ toolName ++ "` cannot use *args/**kwargs; annotate explicit parameters.")
  else match parameter.annotation with
    | none =>
      .error ("Tool `" ++ toolName ++ "` parameter `" ++ parameter.name ++ "` requires a type annotation.")
    | some annotation => (annotationToSchema repr toolName parameter.name annotation).map fun schema =>
      (insertEntry parameter.name schema s.1, if parameter.hasDefault then s.2 else s.2 ++ [parameter.name])

def signatureSchema (properties : List (String × Value)) (required : List String) : Value :=
  .object (("properties", .object properties) ::
    (if required = [] then [] else [("required", .array (required.map .string))]) ++ [("type", .string "object")])

def schemaFromCallable (repr : Annotation → String) (toolName : String) (parameters : List ToolParameter) :
    Except String Value :=
  (parameters.foldlM (addParameter repr toolName) ([], [])).map fun s => signatureSchema s.1 s.2

/-! ## The supported annotations -/

inductive ParameterType where
  | str
  | int
  | float
  | bool
  | list (item : ParameterType)
  | dict (value : ParameterType)
  | optional (type : ParameterType)
  deriving DecidableEq

namespace ParameterType

def annotation : ParameterType → Annotation
  | .str => .str
  | .int => .int
  | .float => .float
  | .bool => .bool
  | .list item => .list [ item.annotation]
  | .dict value => .dict [.str, value.annotation]
  | .optional type => type.annotation.orNone

def schema : ParameterType → Value
  | .str => typeSchema "string"
  | .int => typeSchema "integer"
  | .float => typeSchema "number"
  | .bool => typeSchema "boolean"
  | .list item => .object [("items", item.schema), ("type", .string "array")]
  | .dict value => .object [("additionalProperties", value.schema), ("type", .string "object")]
  | .optional type => type.schema

/-- The JSON of a value of the annotation. Numbers are their values: a whole number is an `int`, however it is written,
and each number is a `float`. -/
def Encodes : ParameterType → Value → Prop
  | .str, value => ∃ text, value = .string text
  | .int, value => ∃ (x : Number) (n : Int), value = .number x ∧ x.value = some (n : Rat)
  | .float, value => ∃ x, value = .number x
  | .bool, value => ∃ b, value = .bool b
  | .list item, value => ∃ items, value = .array items ∧ ∀ v ∈ items, item.Encodes v
  | .dict type, value => ∃ entries, value = .object entries ∧ ∀ e ∈ entries, type.Encodes e.2
  | .optional type, value => value = .null ∨ type.Encodes value

/-- A null stands where the annotation has `T | None`. -/
def NullPlace : ParameterType → Value → Prop
  | .list item, .array items => ∃ v ∈ items, item.NullPlace v
  | .dict type, .object entries => ∃ e ∈ entries, type.NullPlace e.2
  | .optional type, value => value = .null ∨ type.NullPlace value
  | _, _ => False

theorem isSchema (type : ParameterType) : IsSchema type.schema := by
  induction type with
  | str | int | float | bool => exact isSchema_type (by decide)
  | list item ih => exact isSchema_array ih
  | dict value ih => exact isSchema_dict ih
  | optional type ih => exact ih

theorem annotation_ne_noneType (type : ParameterType) : type.annotation.isNoneType = false := by
  cases type with
  | optional type =>
    unfold annotation
    rcases type.annotation <;> rfl
  | _ => rfl

/-- The schema of a supported annotation. -/
theorem annotationToSchema_annotation (repr : Annotation → String) (toolName field : String) (type : ParameterType) :
    annotationToSchema repr toolName field type.annotation = .ok type.schema := by
  induction type with
  | str | int | float | bool => rfl
  | list item ih =>
    unfold annotation annotationToSchema argumentSchemas argumentSchemas
    rw [ih]
    rfl
  | dict value ih =>
    unfold annotation annotationToSchema argumentSchemas argumentSchemas argumentSchemas
    rw [ih]
    rfl
  | optional type ih =>
    have hne := annotation_ne_noneType type
    unfold annotation schema
    generalize type.annotation = a at ih hne ⊢
    cases a with
    | noneType => exact nomatch hne
    | union args =>
      -- a union with a schema has `None` already
      have hany : args.any Annotation.isNoneType = true := by
        by_contra hnot
        unfold annotationToSchema at ih
        rw [if_neg hnot] at ih
        exact nomatch ih
      unfold Annotation.orNone
      dsimp only
      rw [if_pos hany]
      exact ih
    | _ => exact ih

/-- A value that is encoded as null stands where `T | None` does. -/
theorem nullPlace_null {type : ParameterType} (h : type.Encodes .null) : type.NullPlace .null := by
  cases type with
  | optional type => exact .inl rfl
  | _ => simp [Encodes] at h

/-- **A schema accepts what its annotation encodes without a null.** -/
theorem schema_accepts_iff (type : ParameterType) : ∀ value : Value,
    schemaAccepts type.schema value ↔ type.Encodes value ∧ ¬ type.NullPlace value := by
  induction type with
  | str | float | bool =>
    intro value
    unfold schema typeSchema
    rw [schemaAccepts_type]
    cases value <;> simp [hasType, Encodes, NullPlace]
  | int =>
    intro value
    unfold schema typeSchema
    rw [schemaAccepts_type]
    cases value with
    | number x => simp [hasType, Encodes, NullPlace, Number.isWhole_iff]
    | _ => simp [hasType, Encodes, NullPlace]
  | list item ih =>
    intro value
    unfold schema
    rw [schemaAccepts_array]
    cases value with
    | array items => simp [Encodes, NullPlace, ih, forall_and]
    | _ => simp [Encodes]
  | dict type ih =>
    intro value
    unfold schema
    rw [schemaAccepts_dict]
    cases value with
    | object entries => simp [Encodes, NullPlace, ih, forall_and]
    | _ => simp [Encodes]
  | optional type ih =>
    intro value
    unfold schema Encodes NullPlace
    rw [ih]
    constructor
    · rintro ⟨hencodes, hplace⟩
      refine ⟨.inr hencodes, fun h => h.elim (fun hnull => hplace ?_) hplace⟩
      rw [hnull] at hencodes ⊢
      exact nullPlace_null hencodes
    · rintro ⟨hencodes, hplace⟩
      rw [not_or] at hplace
      exact ⟨hencodes.resolve_left hplace.1, hplace.2⟩

end ParameterType

/-! ## The arguments of a call -/

/-- The crate follows JSON Schema for these keywords. -/
def JsonSchema.Follows (schema : JsonSchema) : Prop :=
  ∀ s, IsSchema s → ∃ validate, schema.validatorFor s = some validate ∧
    ∀ value, validate value = none ↔ schemaAccepts s value

/-- A parameter with a supported annotation. -/
structure SupportedParameter where
  name : String
  type : ParameterType
  hasDefault : Bool
  deriving DecidableEq

def SupportedParameter.toolParameter (p : SupportedParameter) : ToolParameter where
  name := p.name
  variadic := false
  annotation := some p.type.annotation
  hasDefault := p.hasDefault

section Signature
variable {parameters : List SupportedParameter} {entries : List (String × Value)}

def addProperty (properties : List (String × Value)) (p : SupportedParameter) : List (String × Value) :=
  insertEntry p.name p.type.schema properties

def requiredNames (parameters : List SupportedParameter) : List String :=
  (parameters.filter fun p => !p.hasDefault).map (·.name)

theorem foldlM_addParameter (repr : Annotation → String) (toolName : String) (parameters : List SupportedParameter) :
    ∀ (properties : List (String × Value)) (required : List String),
    (parameters.map (·.toolParameter)).foldlM (addParameter repr toolName) (properties, required) =
      .ok (parameters.foldl addProperty properties, required ++ requiredNames parameters) := by
  induction parameters with
  | nil =>
    intro properties required
    show Except.ok (properties, required) = .ok (properties, required ++ [])
    rw [List.append_nil]
  | cons p parameters ih =>
    intro properties required
    have hadd : addParameter repr toolName (properties, required) p.toolParameter =
        .ok (addProperty properties p, if p.hasDefault then required else required ++ [p.name]) := by
      unfold addParameter SupportedParameter.toolParameter
      dsimp only
      rw [if_neg (by decide), ParameterType.annotationToSchema_annotation]
      rfl
    rw [List.map_cons, List.foldlM_cons, hadd]
    show (parameters.map _).foldlM _ _ = _
    rw [ih]
    rcases hdefault : p.hasDefault with _ | _
    · simp [requiredNames, hdefault]
    · simp [requiredNames, hdefault]

theorem schemaFromCallable_supported (repr : Annotation → String) (toolName : String)
    (parameters : List SupportedParameter) :
    schemaFromCallable repr toolName (parameters.map (·.toolParameter)) =
      .ok (signatureSchema (parameters.foldl addProperty []) (requiredNames parameters)) := by
  unfold schemaFromCallable
  rw [foldlM_addParameter, List.nil_append]
  rfl

theorem lookup_properties (hnames : (parameters.map (·.name)).Nodup) : ∀ properties : List (String × Value),
    (∀ p ∈ parameters, (parameters.foldl addProperty properties).lookup p.name = some p.type.schema) ∧
    ∀ name ∉ parameters.map (·.name),
      (parameters.foldl addProperty properties).lookup name = properties.lookup name := by
  induction parameters with
  | nil => exact fun properties => ⟨nofun, fun _ _ => rfl⟩
  | cons q parameters ih =>
    intro properties
    rw [List.map_cons, List.nodup_cons] at hnames
    obtain ⟨hin, hout⟩ := ih hnames.2 (addProperty properties q)
    constructor
    · refine List.forall_mem_cons.2 ⟨?_, hin⟩
      exact (hout q.name hnames.1).trans (lookup_insertEntry_self _ _ _)
    · intro name hname
      rw [List.map_cons, List.mem_cons, not_or] at hname
      exact (hout name hname.2).trans (lookup_insertEntry_ne hname.1 _ _)

theorem mem_properties {e : String × Value} : ∀ {properties : List (String × Value)},
    e ∈ parameters.foldl addProperty properties → e ∈ properties ∨ ∃ p ∈ parameters, e = (p.name, p.type.schema) := by
  induction parameters with
  | nil => exact fun h => .inl h
  | cons p parameters ih =>
    intro properties he
    rcases ih he with he | ⟨q, hq, he⟩
    · rcases mem_insertEntry he with he | he
      · exact .inr ⟨p, List.mem_cons_self, he⟩
      · exact .inl he
    · exact .inr ⟨q, List.mem_cons_of_mem p hq, he⟩

/-- The schema of a signature, as `validate_tool_arguments` compiles it. -/
theorem relaxed_signatureSchema (properties : List (String × Value)) (required : List String) :
    relaxed (signatureSchema properties required) = .object (("additionalProperties", .bool true) ::
      ("properties", .object properties) ::
        (if required = [] then [] else [("required", .array (required.map .string))]) ++
          [("type", .string "object")]) := by
  have hlt : "additionalProperties" < "properties" := by decide
  by_cases hnil : required = []
  · simp [relaxed, signatureSchema, hnil, insertEntry, entryOrInsert, hlt, List.lookup_cons]
  · simp [relaxed, signatureSchema, hnil, insertEntry, entryOrInsert, hlt, List.lookup_cons]

theorem relaxed_accepts (properties : List (String × Value)) (required : List String) :
    schemaAccepts (relaxed (signatureSchema properties required)) (.object entries) ↔
      (∀ name ∈ required, ∃ e ∈ entries, e.1 = name) ∧ propertiesAccept properties entries := by
  rw [relaxed_signatureSchema]
  by_cases hnil : required = []
  · simp [hnil, schemaAccepts, keywordsAccept, hasType]
  · simp [hnil, schemaAccepts, keywordsAccept, hasType, and_comm]

theorem isSchema_relaxed {properties : List (String × Value)} {required : List String} (hrequired : required.Nodup)
    (hproperties : ∀ e ∈ properties, IsSchema e.2) : IsSchema (relaxed (signatureSchema properties required)) := by
  rw [relaxed_signatureSchema]
  have hmem {e : String × Value} (he : e ∈ ("additionalProperties", Value.bool true) ::
      ("properties", Value.object properties) ::
        (if required = [] then [] else [("required", Value.array (required.map .string))]) ++
          [("type", Value.string "object")]) :
      e = ("additionalProperties", .bool true) ∨ e = ("properties", .object properties) ∨
        e = ("required", .array (required.map .string)) ∨ e = ("type", .string "object") := by
    simp only [List.cons_append, List.mem_cons, List.mem_append, List.not_mem_nil, or_false] at he
    rcases he with he | he | he | he
    · exact .inl he
    · exact .inr (.inl he)
    · split at he
      · exact nomatch he
      · exact .inr (.inr (.inl (List.mem_singleton.1 he)))
    · exact .inr (.inr (.inr he))
  refine .object (fun e he => ?_) (fun s hs => ?_) (fun s hs => ?_) (fun ps hps => ?_)
  · rcases hmem he with rfl | rfl | rfl | rfl
    · exact .inr (.inr (.inl rfl))
    · exact .inr (.inr (.inr (.inl ⟨rfl, _, rfl⟩)))
    · exact .inr (.inr (.inr (.inr ⟨rfl, _, hrequired, rfl⟩)))
    · exact .inl ⟨rfl, "object", by decide, rfl⟩
  · have h := hmem hs
    simp at h
  · have h := hmem hs
    simp at h
    rw [h]
    exact .bool true
  · have h := hmem hps
    simp at h
    rw [h]
    exact hproperties

/-- **A call is accepted** when each required argument is given, and each argument that is given is accepted by the
schema of its parameter. -/
theorem validate_signature {codec : Codec} (hschema : codec.schema.Follows)
    (hnames : (parameters.map (·.name)).Nodup) (entries : List (String × Value)) :
    validateToolArguments codec (signatureSchema (parameters.foldl addProperty []) (requiredNames parameters))
      (.object entries) = .ok () ↔
      (∀ p ∈ parameters, p.hasDefault = false → ∃ e ∈ entries, e.1 = p.name) ∧
      ∀ p ∈ parameters, ∀ value, entries.lookup p.name = some value → schemaAccepts p.type.schema value := by
  have hlookup := (lookup_properties hnames []).1
  have hmem {e : String × Value} (he : e ∈ parameters.foldl addProperty []) :
      ∃ p ∈ parameters, e = (p.name, p.type.schema) := (mem_properties he).resolve_left nofun
  have hrequired : (requiredNames parameters).Nodup := hnames.sublist (List.filter_sublist.map _)
  have hproperties : ∀ e ∈ parameters.foldl addProperty [], IsSchema e.2 := by
    intro e he
    obtain ⟨p, -, rfl⟩ := hmem he
    exact p.type.isSchema
  obtain ⟨validate, hvalidator, hvalidate⟩ := hschema _ (isSchema_relaxed hrequired hproperties)
  have hok : validateToolArguments codec (signatureSchema (parameters.foldl addProperty []) (requiredNames parameters))
      (.object entries) = .ok () ↔ validate (.object entries) = none := by
    unfold validateToolArguments
    rw [if_neg fun hnot => hnot rfl, hvalidator]
    dsimp only
    rcases validate (.object entries) with _ | error
    · exact ⟨fun _ => rfl, fun _ => rfl⟩
    · exact ⟨nofun, nofun⟩
  rw [hok, hvalidate, relaxed_accepts, propertiesAccept_iff]
  refine and_congr ?_ ?_
  · simp only [requiredNames, List.mem_map, List.mem_filter, Bool.not_eq_true']
    exact ⟨fun h p hp hdefault => h p.name ⟨p, ⟨hp, hdefault⟩, rfl⟩, fun h name ⟨p, hp, hname⟩ => hname ▸ h p hp.1 hp.2⟩
  · constructor
    · intro h p hp
      obtain ⟨before, after, hsplit, -⟩ := List.lookup_eq_some_iff.1 (hlookup p hp)
      have hin : (p.name, p.type.schema) ∈ parameters.foldl addProperty [] := by
        rw [hsplit]
        exact List.mem_append_right before List.mem_cons_self
      exact h _ hin
    · intro h e he
      obtain ⟨p, hp, rfl⟩ := hmem he
      exact h p hp

/-- **The schema of a parameter is exact but for null**: among other arguments that are accepted, a value is accepted as
the annotation encodes it, unless it is encoded with a null where the annotation has `T | None`. -/
theorem parameter_schema_iff {codec : Codec} (hschema : codec.schema.Follows) (repr : Annotation → String)
    (toolName : String) (hnames : (parameters.map (·.name)).Nodup) {p : SupportedParameter} (hp : p ∈ parameters)
    {value : Value} (hvalue : entries.lookup p.name = some value)
    (hgiven : ∀ q ∈ parameters, q.hasDefault = false → ∃ e ∈ entries, e.1 = q.name)
    (hothers : ∀ q ∈ parameters, q ≠ p → ∀ v, entries.lookup q.name = some v → schemaAccepts q.type.schema v) :
    ∃ inputSchema, schemaFromCallable repr toolName (parameters.map (·.toolParameter)) = .ok inputSchema ∧
      ((validateToolArguments codec inputSchema (.object entries) = .ok () ↔ p.type.Encodes value) ↔
        ¬ (p.type.Encodes value ∧ p.type.NullPlace value)) := by
  refine ⟨_, schemaFromCallable_supported repr toolName parameters, ?_⟩
  have haccepted : validateToolArguments codec
      (signatureSchema (parameters.foldl addProperty []) (requiredNames parameters)) (.object entries) = .ok () ↔
        p.type.Encodes value ∧ ¬ p.type.NullPlace value := by
    rw [validate_signature hschema hnames, ← ParameterType.schema_accepts_iff]
    constructor
    · intro h
      exact h.2 p hp value hvalue
    · intro h
      refine ⟨hgiven, fun q hq v hv => ?_⟩
      by_cases hqp : q = p
      · rw [hqp] at hv ⊢
        rw [hvalue] at hv
        rw [← Option.some.inj hv]
        exact h
      · exact hothers q hq hqp v hv
  rw [haccepted]
  tauto

end Signature

/-- A crate that follows JSON Schema. -/
def followingCodec : Codec where
  serde := ⟨fun _ => .error "unsupported", fun _ => none, fun _ => ""⟩
  schema := ⟨fun s => some fun value => if schemaAccepts s value then none else some ⟨"", .type, "type mismatch"⟩⟩

theorem followingCodec_follows : followingCodec.schema.Follows := by
  refine fun s _ => ⟨_, rfl, fun value => ?_⟩
  show (if schemaAccepts s value then none else some (SchemaError.mk "" .type "type mismatch")) = none ↔ _
  split
  · rename_i haccepts
    exact ⟨fun _ => haccepts, fun _ => rfl⟩
  · rename_i haccepts
    exact ⟨nofun, fun h => absurd h haccepts⟩

/-- `def search(limits: list[int | None], query: str = "")`. -/
def searchParameters : List SupportedParameter := [⟨"limits", .list (.optional .int), false⟩, ⟨"query", .str, true⟩]

theorem search_limits : ∃ inputSchema,
    schemaFromCallable (fun _ => "") "search" (searchParameters.map (·.toolParameter)) = .ok inputSchema ∧
      ((validateToolArguments followingCodec inputSchema
          (.object [("limits", .array [.number (.int 3)]), ("query", .string "a")]) = .ok () ↔
        (ParameterType.list (.optional .int)).Encodes (.array [.number (.int 3)])) ↔
        ¬ ((ParameterType.list (.optional .int)).Encodes (.array [.number (.int 3)]) ∧
          (ParameterType.list (.optional .int)).NullPlace (.array [.number (.int 3)]))) := by
  refine @parameter_schema_iff searchParameters [("limits", .array [.number (.int 3)]), ("query", .string "a")]
    followingCodec followingCodec_follows (fun _ => "") "search" (by decide) ⟨"limits", .list (.optional .int), false⟩
    (by decide) (.array [.number (.int 3)]) rfl ?_ ?_
  · intro q hq hdefault
    rcases List.mem_pair.1 hq with rfl | rfl
    · exact ⟨_, List.mem_cons_self, rfl⟩
    · exact nomatch hdefault
  · intro q hq hne v hv
    rcases List.mem_pair.1 hq with rfl | rfl
    · exact absurd rfl hne
    · rw [← Option.some.inj hv]
      rfl

/-- `limit: int | None` does not take `None`. -/
theorem optional_refuses_null : ¬ ∀ (codec : Codec), codec.schema.Follows → ∀ (type : ParameterType) (value : Value),
    ∃ inputSchema, schemaFromCallable (fun _ => "") "search"
        ([SupportedParameter.mk "limit" type false].map (·.toolParameter)) = .ok inputSchema ∧
      (validateToolArguments codec inputSchema (.object [("limit", value)]) = .ok () ↔ type.Encodes value) := by
  intro hclaim
  obtain ⟨inputSchema, hschema, hiff⟩ := hclaim followingCodec followingCodec_follows (.optional .int) .null
  rw [schemaFromCallable_supported] at hschema
  rw [← Except.ok.inj hschema] at hiff
  have haccepted := (@validate_signature [⟨"limit", .optional .int, false⟩] followingCodec followingCodec_follows
    (by decide) _).1 (hiff.2 (.inl rfl))
  exact absurd (haccepted.2 _ List.mem_cons_self .null rfl) (by decide)

end Aifluxon
