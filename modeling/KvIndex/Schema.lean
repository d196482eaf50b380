import Mathlib.Data.List.Sort
import KvIndex.Base

/-! Runtime schemas and the compiled row layout of `model/schema.cc`, with the FNV
fingerprint that identifies a layout. -/
namespace KvIndex

open Base

abbrev FieldId := UInt32

/-- `enum class FieldType : std::uint8_t`. A byte that names no enumerator is still a
value of the type after a `static_cast`. -/
inductive FieldType
  | kInt8 | kInt32 | kInt64 | kUInt64 | kBool | kString
  | unnamed (raw : UInt8) (h : raw = 0 ∨ 6 < raw)
  deriving DecidableEq

/-- `enum class FieldEncoding : std::uint8_t`. -/
inductive FieldEncoding
  | kFixed | kArena | kDictionary | kListDictionary | kElementDictionary
  | unnamed (raw : UInt8) (h : raw = 0 ∨ 5 < raw)
  deriving DecidableEq

namespace FieldType

def raw : FieldType → UInt8
  | kInt8 => 1 | kInt32 => 2 | kInt64 => 3 | kUInt64 => 4 | kBool => 5 | kString => 6
  | unnamed raw _ => raw

/-- `static_cast<FieldType>`. -/
def ofRaw (raw : UInt8) : FieldType :=
  if h : raw = 0 ∨ 6 < raw then unnamed raw h
  else if raw = 1 then kInt8 else if raw = 2 then kInt32 else if raw = 3 then kInt64
  else if raw = 4 then kUInt64 else if raw = 5 then kBool else kString

theorem ofRaw_raw (type : FieldType) : ofRaw type.raw = type := by
  cases type with
  | unnamed raw h => simp [FieldType.raw,ofRaw,h]
  | _ => decide

end FieldType

namespace FieldEncoding

def raw : FieldEncoding → UInt8
  | kFixed => 1 | kArena => 2 | kDictionary => 3 | kListDictionary => 4
  | kElementDictionary => 5
  | unnamed raw _ => raw

/-- `static_cast<FieldEncoding>`. -/
def ofRaw (raw : UInt8) : FieldEncoding :=
  if h : raw = 0 ∨ 5 < raw then unnamed raw h
  else if raw = 1 then kFixed else if raw = 2 then kArena else if raw = 3 then kDictionary
  else if raw = 4 then kListDictionary else kElementDictionary

theorem ofRaw_raw (encoding : FieldEncoding) : ofRaw encoding.raw = encoding := by
  cases encoding with
  | unnamed raw h => simp [FieldEncoding.raw,ofRaw,h]
  | _ => decide

end FieldEncoding

/-- The alternatives of `FieldDefaultValue`, in the order of the variant. -/
inductive FieldDefaultValue
  | monostate
  | int8 (v : Int8) | int32 (v : Int32) | int64 (v : Int64) | uint64 (v : UInt64)
  | bool (v : Bool) | string (v : Bytes)
  | int8s (v : List Int8) | int32s (v : List Int32) | int64s (v : List Int64)
  | uint64s (v : List UInt64) | bools (v : List Bool) | strings (v : List Bytes)
  deriving DecidableEq

structure FieldSpec where
  fieldId : FieldId := 0
  name : Bytes := []
  type : FieldType := .kInt64
  isList : Bool := false
  nullable : Bool := true
  encoding : FieldEncoding := .kFixed
  defaultValue : FieldDefaultValue := .monostate
  deleted : Bool := false
  deriving DecidableEq

structure FieldLayout where
  fieldId : FieldId := 0
  name : Bytes := []
  type : FieldType := .kInt64
  isList : Bool := false
  nullable : Bool := true
  encoding : FieldEncoding := .kFixed
  defaultValue : FieldDefaultValue := .monostate
  presenceBitIndex : ℕ := 0
  slotOffset : ℕ := 0
  valueWidth : ℕ := 0
  usesRef : Bool := false
  deriving DecidableEq

def FieldSpec.hasDefault (field : FieldSpec) : Bool := field.defaultValue != .monostate

def FieldLayout.hasDefault (field : FieldLayout) : Bool := field.defaultValue != .monostate

structure RuntimeSchema where
  version : UInt64 := 0
  activeFields : List FieldSpec := []
  deletedFields : List FieldSpec := []

structure CompiledRowLayout where
  schemaVersion : UInt64 := 0
  layoutFingerprint : UInt64 := 0
  presenceBitmapBytes : ℕ := 0
  fixedAreaOffset : ℕ := 0
  refAreaOffset : ℕ := 0
  rowSlotSize : ℕ := 0
  fields : List FieldLayout := []
  deriving DecidableEq

namespace Schema

def kValueRef16Size : ℕ := 16
def kFnvOffsetBasis : UInt64 := 14695981039346656037
def kFnvPrime : UInt64 := 1099511628211

def isRefField (field : FieldSpec) : Bool := field.isList || field.type == .kString

def fieldTypeSize : FieldType → ℕ
  | .kInt8 | .kBool => 1
  | .kInt32 => 4
  | .kInt64 | .kUInt64 => 8
  | .kString => kValueRef16Size
  | .unnamed _ _ => 0

def fieldTypeAlignment : FieldType → ℕ
  | .kInt8 | .kBool => 1
  | .kInt32 => 4
  | .kInt64 | .kUInt64 | .kString => 8
  | .unnamed _ _ => 1

/-- `FingerprintByte` over a run of bytes. -/
def fingerprint (hash : UInt64) (bytes : Bytes) : UInt64 :=
  bytes.foldl (fun hash byte => (hash ^^^ byte.toUInt64)*kFnvPrime) hash

def fingerprintUInt64 (value : UInt64) : Bytes := toBytes value

def fingerprintBool (value : Bool) : Bytes := [if value then 1 else 0]

def fingerprintString (value : Bytes) : Bytes :=
  fingerprintUInt64 (UInt64.ofNat value.length)++value

def fingerprintVector {T : Type} (element : T → Bytes) (values : List T) : Bytes :=
  fingerprintUInt64 (UInt64.ofNat values.length)++values.flatMap element

/-- The bytes a default value feeds to the fingerprint: the index of its alternative,
then the value; a signed integer is widened with its sign. -/
def fingerprintDefault : FieldDefaultValue → Bytes
  | .monostate => fingerprintUInt64 0
  | .int8 v => fingerprintUInt64 1++fingerprintUInt64 v.toInt64.toUInt64
  | .int32 v => fingerprintUInt64 2++fingerprintUInt64 v.toInt64.toUInt64
  | .int64 v => fingerprintUInt64 3++fingerprintUInt64 v.toUInt64
  | .uint64 v => fingerprintUInt64 4++fingerprintUInt64 v
  | .bool v => fingerprintUInt64 5++fingerprintBool v
  | .string v => fingerprintUInt64 6++fingerprintString v
  | .int8s v => fingerprintUInt64 7++fingerprintVector (fun x => fingerprintUInt64 x.toInt64.toUInt64) v
  | .int32s v => fingerprintUInt64 8++fingerprintVector (fun x => fingerprintUInt64 x.toInt64.toUInt64) v
  | .int64s v => fingerprintUInt64 9++fingerprintVector (fun x => fingerprintUInt64 x.toUInt64) v
  | .uint64s v => fingerprintUInt64 10++fingerprintVector fingerprintUInt64 v
  | .bools v => fingerprintUInt64 11++fingerprintVector fingerprintBool v
  | .strings v => fingerprintUInt64 12++fingerprintVector fingerprintString v

def fingerprintField (field : FieldLayout) : Bytes :=
  fingerprintUInt64 field.fieldId.toUInt64++fingerprintString field.name++
    fingerprintUInt64 field.type.raw.toUInt64++fingerprintBool field.isList++
    fingerprintBool field.nullable++fingerprintUInt64 field.encoding.raw.toUInt64++
    fingerprintDefault field.defaultValue++
    fingerprintUInt64 (UInt64.ofNat field.presenceBitIndex)++
    fingerprintUInt64 (UInt64.ofNat field.slotOffset)++
    fingerprintUInt64 (UInt64.ofNat field.valueWidth)++fingerprintBool field.usesRef

def kFingerprintDomain : Bytes :=
  [107,118,95,105,110,100,101,120,95,114,111,119,95,108,97,121,111,117,116,95,118,49]

/-- The bytes `BuildFingerprint` feeds to FNV-1a. -/
def fingerprintPreimage (layout : CompiledRowLayout) : Bytes :=
  fingerprintString kFingerprintDomain++
    fingerprintUInt64 layout.schemaVersion++
    fingerprintUInt64 (UInt64.ofNat layout.presenceBitmapBytes)++
    fingerprintUInt64 (UInt64.ofNat layout.fixedAreaOffset)++
    fingerprintUInt64 (UInt64.ofNat layout.refAreaOffset)++
    fingerprintUInt64 (UInt64.ofNat layout.rowSlotSize)++
    fingerprintUInt64 (UInt64.ofNat layout.fields.length)++layout.fields.flatMap fingerprintField

def buildFingerprint (layout : CompiledRowLayout) : UInt64 :=
  fingerprint kFnvOffsetBasis (fingerprintPreimage layout)

def defaultMatchesField (field : FieldSpec) : Bool :=
  match field.isList, field.type, field.defaultValue with
  | _, _, .monostate => true
  | true, .kInt8, .int8s _ => true
  | true, .kInt32, .int32s _ => true
  | true, .kInt64, .int64s _ => true
  | true, .kUInt64, .uint64s _ => true
  | true, .kBool, .bools _ => true
  | true, .kString, .strings _ => true
  -- A list of an unnamed type leaves the first switch and fails the second one too.
  | false, .kInt8, .int8 _ => true
  | false, .kInt32, .int32 _ => true
  | false, .kInt64, .int64 _ => true
  | false, .kUInt64, .uint64 _ => true
  | false, .kBool, .bool _ => true
  | false, .kString, .string _ => true
  | _, _, _ => false

def checkFixedEncoding (field : FieldSpec) : StatusOr Unit :=
  failIf (field.encoding != .kFixed)
    (.invalidArgument "fixed scalar field has invalid encoding")

def checkScalarEncoding (field : FieldSpec) : StatusOr Unit :=
  if field.type = .kString then
    match field.encoding with
    | .kArena | .kDictionary => .ok ()
    | .kFixed | .kListDictionary | .kElementDictionary =>
      .error (.invalidArgument "string field has invalid encoding")
    | .unnamed _ _ => checkFixedEncoding field
  else checkFixedEncoding field

def validateEncodingPolicy (field : FieldSpec) : StatusOr Unit := do
  failIf field.name.isEmpty (.invalidArgument "field name must not be empty")
  failIf field.deleted (.invalidArgument "new fields must not be marked deleted")
  failIf (!defaultMatchesField field)
    (.invalidArgument "field default does not match field type")
  if field.isList then
    match field.encoding with
    | .kArena | .kListDictionary => .ok ()
    | .kElementDictionary =>
      if field.type = .kString then .ok ()
      else .error (.invalidArgument "element dictionary lists are only supported for strings")
    | .kFixed | .kDictionary => .error (.invalidArgument "list field has invalid encoding")
    | .unnamed _ _ => checkScalarEncoding field
  else checkScalarEncoding field

end Schema

namespace RuntimeSchema

open Schema

def findField (schema : RuntimeSchema) (fieldId : FieldId) : Option FieldSpec :=
  schema.activeFields.find? fun field => field.fieldId == fieldId

def findDeletedField (schema : RuntimeSchema) (fieldId : FieldId) : Option FieldSpec :=
  schema.deletedFields.find? fun field => field.fieldId == fieldId

def addField (schema : RuntimeSchema) (field : FieldSpec) : StatusOr RuntimeSchema := do
  failIf ((schema.findField field.fieldId).isSome || (schema.findDeletedField field.fieldId).isSome)
    (.failedPrecondition "field id already exists in schema history")
  validateEncodingPolicy field
  return { schema with activeFields := schema.activeFields++[field] }

def deleteField (schema : RuntimeSchema) (fieldId : FieldId) : StatusOr RuntimeSchema :=
  match schema.findField fieldId with
  | none => .error (.notFound "field id is not active")
  | some field => .ok { schema with
      deletedFields := schema.deletedFields++[{ field with deleted := true }]
      activeFields := schema.activeFields.eraseP fun field => field.fieldId == fieldId }

end RuntimeSchema

namespace CompiledRowLayout

open Schema

def newField (field : FieldSpec) (i : ℕ) : FieldLayout where
  fieldId := field.fieldId
  name := field.name
  type := field.type
  isList := field.isList
  nullable := field.nullable
  encoding := field.encoding
  defaultValue := field.defaultValue
  presenceBitIndex := i
  valueWidth := if isRefField field then kValueRef16Size else fieldTypeSize field.type
  usesRef := isRefField field

/-- The pass that places the fixed fields; it returns the cursor after them. -/
def placeFixed (cursor : ℕ) : List FieldLayout → ℕ×List FieldLayout
  | [] => (cursor,[])
  | field::fields =>
    if field.usesRef then
      let (last,rest) := placeFixed cursor fields
      (last,field::rest)
    else
      let offset := alignUp cursor (fieldTypeAlignment field.type)
      let (last,rest) := placeFixed (offset+field.valueWidth) fields
      (last,{ field with slotOffset := offset }::rest)

def placeRefs (cursor : ℕ) : List FieldLayout → ℕ×List FieldLayout
  | [] => (cursor,[])
  | field::fields =>
    if field.usesRef then
      let (last,rest) := placeRefs (cursor+kValueRef16Size) fields
      (last,{ field with slotOffset := cursor }::rest)
    else
      let (last,rest) := placeRefs cursor fields
      (last,field::rest)

/-- `CompiledRowLayout::Compile`, which never fails. The ids of a schema are distinct,
so every sort by id gives the same list. -/
def compile (schema : RuntimeSchema) : CompiledRowLayout :=
  let activeFields := schema.activeFields.insertionSort fun lhs rhs => lhs.fieldId ≤ rhs.fieldId
  let presenceBitmapBytes := alignUp ((activeFields.length+7)/8) 8
  let newFields := activeFields.mapIdx fun i field => newField field i
  let (fixedCursor,placedFields) := placeFixed presenceBitmapBytes newFields
  let refAreaOffset := alignUp fixedCursor 8
  let (refCursor,fields) := placeRefs refAreaOffset placedFields
  let layout : CompiledRowLayout := {
    schemaVersion := schema.version,presenceBitmapBytes,fixedAreaOffset := presenceBitmapBytes
    refAreaOffset,rowSlotSize := alignUp refCursor 8,fields }
  { layout with layoutFingerprint := buildFingerprint layout }

def findField (layout : CompiledRowLayout) (fieldId : FieldId) : Option FieldLayout :=
  layout.fields.find? fun field => field.fieldId == fieldId

end CompiledRowLayout
end KvIndex
