import Aifluxon.Core.Encoding
import Aifluxon.Runtime.State

/-!
# Records in files

How the records of `state.rs` and the envelope of `json_store.rs` stand in the files of a store.

* `JsonText` : the printer and the parser of `serde_json`; `FileCodec` : the text of one type of records;
* `SessionEnvelope.codec`, `ProviderStateRecord.codec` : the two that the stores use;
* `SessionRecord.Faithful`, `SessionEnvelope.readsBack` : which session records are read back.
-/

namespace Aifluxon

open Value

/-! ## Texts -/

/-- `to_vec_pretty` on what is serialized, and `from_slice` up to the deserialization of a type. A
text that is not JSON, or that nests too deep, is not parsed. -/
structure JsonText where
  Text : Type
  toVecPretty : Value → Text
  fromSlice : Text → Option Value

/-- What `serde_json` promises of values without floats. -/
structure JsonText.Lawful (json : JsonText) : Prop where
  fromSlice_toVecPretty : ∀ v : Value, v.Integral → v.depth ≤ recursionLimit →
    json.fromSlice (json.toVecPretty v) = some v

/-- Texts that are the values they write. -/
def JsonText.values : JsonText where
  Text := Value
  toVecPretty v := v
  fromSlice v := if v.depth ≤ recursionLimit then some v else none

theorem JsonText.values_lawful : JsonText.values.Lawful where
  fromSlice_toVecPretty _ _ hdepth := if_pos hdepth

/-- What a store prints into a file, and reads of one. -/
structure FileCodec (α : Type) where
  Text : Type
  toVec : α → Text
  fromSlice : Text → Option α

def FileCodec.ReadsBack {α : Type} (codec : FileCodec α) (a : α) : Prop :=
  codec.fromSlice (codec.toVec a) = some a

def JsonText.codec {α : Type} (json : JsonText) (toJson : α → Value) (fromJson : Value → Option α) :
    FileCodec α where
  Text := json.Text
  toVec a := json.toVecPretty (toJson a)
  fromSlice text := (json.fromSlice text).bind fromJson

/-- What is read of a printed value is what is read of its JSON, when that is not too deep. -/
theorem JsonText.Lawful.fromSlice_toVec {α : Type} {json : JsonText} (h : json.Lawful) {toJson : α → Value}
    {fromJson : Value → Option α} {a : α} (hint : (toJson a).Integral)
    (hdepth : (toJson a).depth ≤ recursionLimit) : (json.codec toJson fromJson).fromSlice
      ((json.codec toJson fromJson).toVec a) = fromJson (toJson a) := by
  show (json.fromSlice (json.toVecPretty (toJson a))).bind fromJson = fromJson (toJson a)
  rw [h.fromSlice_toVecPretty _ hint hdepth]
  rfl

/-! ## Session records -/

namespace SessionRecord

def toJson (record : SessionRecord) : Value :=
  .object [("id", ofUuid record.id.uuid), ("revision", ofNat record.revision),
    ("created_at", ofNat record.createdAt), ("updated_at", ofNat record.updatedAt),
    ("messages", .array (record.messages.map Message.toJson)), ("metadata", .object record.metadata)]

/-- A map, as it is read. -/
def readMap : Value → Option (List (String × Value))
  | .object entries => some (canonicalEntries [] entries)
  | _ => none

def fromJson (v : Value) : Option SessionRecord := do
  let id ← v.requiredField "id" readUuid
  let revision ← v.requiredField "revision" (readNat u64Max)
  let createdAt ← v.requiredField "created_at" (readNat u64Max)
  let updatedAt ← v.requiredField "updated_at" (readNat u64Max)
  let messages ← v.requiredField "messages" (readList Message.fromJson)
  let metadata ← match v.field "metadata" with
    | some (some x) => readMap x
    | some none => some []
    | none => none
  return ⟨⟨id⟩, revision, createdAt, updatedAt, messages, metadata⟩

/-- The counters are `u64`, and the values in the record are values of the program. -/
structure Typed (record : SessionRecord) : Prop where
  revision : record.revision ≤ u64Max
  createdAt : record.createdAt ≤ u64Max
  updatedAt : record.updatedAt ≤ u64Max
  messages : ∀ message ∈ record.messages, message.Sorted
  metadata : (Value.object record.metadata).Sorted

/-- The record with its messages as they are read. -/
def reread (record : SessionRecord) : SessionRecord :=
  { record with messages := record.messages.map Message.reread }

/-- **What is read of a printed record.** -/
theorem fromJson_toJson {record : SessionRecord} (h : record.Typed) :
    fromJson record.toJson = some record.reread := by
  have hmessages : readList Message.fromJson (.array (record.messages.map Message.toJson)) =
      some (record.messages.map Message.reread) :=
    readList_map fun message hm => Message.fromJson_toJson (h.messages message hm)
  have hmetadata : canonicalEntries [] record.metadata = record.metadata :=
    canonicalEntries_eq h.metadata.2 h.metadata.1 fun _ ha => absurd ha List.not_mem_nil
  simp [fromJson, toJson, requiredField, field, readMap, readNat_ofNat h.revision,
    readNat_ofNat h.createdAt, readNat_ofNat h.updatedAt, hmessages, hmetadata, reread]

end SessionRecord

def schemaVersion : Nat := 1

structure SessionEnvelope where
  schemaVersion : Nat
  record : SessionRecord
  deriving DecidableEq

namespace SessionEnvelope

def toJson (envelope : SessionEnvelope) : Value :=
  .object [("schema_version", ofNat envelope.schemaVersion), ("record", envelope.record.toJson)]

def fromJson (v : Value) : Option SessionEnvelope := do
  let schemaVersion ← v.requiredField "schema_version" (readNat u32Max)
  let record ← v.requiredField "record" SessionRecord.fromJson
  return ⟨schemaVersion, record⟩

def codec (json : JsonText) : FileCodec SessionEnvelope := json.codec toJson fromJson

end SessionEnvelope

namespace SessionRecord

/-- The envelope that a save writes. -/
def envelope (record : SessionRecord) : SessionEnvelope := ⟨schemaVersion, record⟩

/-- Numbers are integers. -/
def Integral (record : SessionRecord) : Prop := record.toJson.Integral

/-- No provider state of a message is `Some(null)`, and the file of the record nests at most
`recursionLimit` deep. -/
structure Faithful (record : SessionRecord) : Prop where
  providerState : ∀ message ∈ record.messages, message.providerState ≠ some .null
  depth : record.envelope.toJson.depth ≤ recursionLimit

/-- What is read of the file of a record. -/
theorem fromSlice_envelope {json : JsonText} (hjson : json.Lawful) {record : SessionRecord}
    (ht : record.Typed) (hi : record.Integral) (hdepth : record.envelope.toJson.depth ≤ recursionLimit) :
    (SessionEnvelope.codec json).fromSlice ((SessionEnvelope.codec json).toVec record.envelope) =
      some record.reread.envelope := by
  have hint : record.envelope.toJson.Integral :=
    ⟨by simp [ofNat, Value.Integral, envelope, schemaVersion], hi, trivial⟩
  refine (hjson.fromSlice_toVec hint hdepth).trans ?_
  simp [SessionEnvelope.fromJson, SessionEnvelope.toJson, requiredField, field, fromJson_toJson ht,
    envelope, readNat_ofNat (show schemaVersion ≤ u32Max by decide)]

/-- A faithful record is read back from its file. -/
theorem Faithful.readsBack {json : JsonText} (hjson : json.Lawful) {record : SessionRecord}
    (h : record.Faithful) (ht : record.Typed) (hi : record.Integral) :
    (SessionEnvelope.codec json).ReadsBack record.envelope := by
  have hmessages : record.messages.map Message.reread = record.messages :=
    (List.map_congr_left fun message hm => Message.reread_eq.2 (h.providerState message hm)).trans
      (List.map_id _)
  have hread : record.reread = record := by rw [reread, hmessages]
  rw [FileCodec.ReadsBack, fromSlice_envelope hjson ht hi h.depth, hread]

theorem integral_ofNat {n : Nat} (h : n ≤ u64Max) : (ofNat n).Integral := by
  rw [ofNat, Value.Integral]
  rw [u64Max] at h
  omega

section New
variable (id : SessionId) {now : TimestampMillis}

theorem typed_new (hnow : now ≤ u64Max) : (new id now).Typed where
  revision := Nat.zero_le _
  createdAt := hnow
  updatedAt := hnow
  messages := nofun
  metadata := ⟨.nil, trivial⟩

theorem integral_new (hnow : now ≤ u64Max) : (new id now).Integral :=
  ⟨trivial, integral_ofNat (Nat.zero_le _), integral_ofNat hnow, integral_ofNat hnow, trivial, trivial, trivial⟩

theorem faithful_new : (new id now).Faithful where
  providerState := nofun
  depth := show (3 : Nat) ≤ recursionLimit by decide

end New

section Advance
variable {record : SessionRecord} {now : TimestampMillis}

theorem Typed.advance (h : record.Typed) (hnow : now ≤ u64Max) :
    (SessionStore.advance record now).Typed where
  revision := Nat.min_le_right _ _
  createdAt := h.createdAt
  updatedAt := hnow
  messages := h.messages
  metadata := h.metadata

theorem Integral.advance (h : record.Integral) (hnow : now ≤ u64Max) :
    (SessionStore.advance record now).Integral := by
  obtain ⟨hid, hrevision, hcreated, hupdated, hrest⟩ := h
  exact ⟨hid, integral_ofNat (Nat.min_le_right _ _), hcreated, integral_ofNat hnow, hrest⟩

theorem Faithful.advance (h : record.Faithful) : (SessionStore.advance record now).Faithful :=
  ⟨h.providerState, h.depth⟩

end Advance

end SessionRecord

/-! ## Provider states -/

namespace ProviderStateRecord

def toJson (record : ProviderStateRecord) : Value :=
  .object [("session_id", ofUuid record.sessionId.uuid), ("provider_id", .string record.providerId.id),
    ("state", record.state)]

def fromJson (v : Value) : Option ProviderStateRecord := do
  let sessionId ← v.requiredField "session_id" readUuid
  let providerId ← v.requiredField "provider_id" readString
  let state ← v.requiredField "state" readValue
  return ⟨⟨sessionId⟩, ⟨providerId⟩, state⟩

def codec (json : JsonText) : FileCodec ProviderStateRecord := json.codec toJson fromJson

/-- A record is read back, when its state is without floats and not too deep. -/
theorem readsBack {json : JsonText} (hjson : json.Lawful) {record : ProviderStateRecord}
    (hsorted : record.state.Sorted) (hint : record.state.Integral)
    (hdepth : record.state.depth < recursionLimit) : (codec json).ReadsBack record := by
  have hinteger : record.toJson.Integral := ⟨trivial, trivial, hint, trivial⟩
  have hlimit : record.toJson.depth ≤ recursionLimit := by
    simp [toJson, depth, depthEntries, ofUuid]
    omega
  refine (hjson.fromSlice_toVec hinteger hlimit).trans ?_
  simp [fromJson, toJson, requiredField, field, readValue_eq hsorted]

end ProviderStateRecord

end Aifluxon
