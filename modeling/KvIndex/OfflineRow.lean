import KvIndex.RowReaders
import KvIndex.SchemaText

/-! The row encoder of the offline builder (`tools/offline/src/offline_artifact_builder.cc`). It
has its own little-endian and value-ref code beside that of the online encoder. -/
namespace KvIndex
namespace Offline

open Base

/-- The unsigned value whose bytes `AppendLittleEndian` takes, and their number. -/
class AppendedType (T : Type) where
  width : ℕ
  unsigned : T → ℕ

instance {T : Type} [LittleEndianInteger T] : AppendedType T :=
  ⟨size T,LittleEndianInteger.toUnsigned⟩

instance : AppendedType Bool := ⟨1,fun value => if value then 1 else 0⟩

/-- The byte `(value >> (i*8)) & 0xff`. -/
def byteAt (value i : ℕ) : UInt8 := UInt8.ofNat ((value >>> (i*8)) &&& 0xff)

def appendLittleEndian {T : Type} [AppendedType T] (bytes : Bytes) (value : T) : Bytes :=
  bytes++(List.range (AppendedType.width T)).map (byteAt (AppendedType.unsigned value))

/-- `WriteLittleEndianAt` for a value of `width` bytes; it writes in place. -/
def writeLittleEndianAt (bytes : Bytes) (offset width value : ℕ) : Bytes :=
  (List.range width).foldl (fun bytes i => bytes.set (offset+i) (byteAt value i)) bytes

def writeValueRefBytes (bytes : Bytes) (offset : ℕ) (refOffset : UInt64)
    (byteLength elementCountOrFlags : UInt32) : Bytes :=
  let bytes := writeLittleEndianAt bytes offset 8 refOffset.toNat
  let bytes := writeLittleEndianAt bytes (offset+8) 4 byteLength.toNat
  writeLittleEndianAt bytes (offset+8+4) 4 elementCountOrFlags.toNat

def writeScalarListArena {T : Type} [AppendedType T] (field : FieldLayout) (values : List T)
    (encoded : EncodedRow) : StatusOr EncodedRow := do
  let offset := encoded.arena.length
  let arena := values.foldl appendLittleEndian encoded.arena
  let byteLength64 := arena.length-offset
  failIf (byteLength64 > uint32Max || values.length > uint32Max)
    (.invalidArgument "list value is too large")
  Model.writeValueRefField field {
    offset := UInt64.ofNat offset,byteLength := UInt32.ofNat byteLength64
    elementCountOrFlags := UInt32.ofNat values.length } { encoded with arena }

/-- One round of the loop of `WriteStringListArena`. -/
def writeStringElement (refOffset : ℕ) (arena : Bytes) (element : ℕ×Bytes) : StatusOr Bytes := do
  failIf (element.2.length > uint32Max) (.invalidArgument "string list element is too large")
  return writeValueRefBytes (arena++element.2) (refOffset+element.1*16)
    (UInt64.ofNat arena.length) (UInt32.ofNat element.2.length) 0

def writeStringListArena (field : FieldLayout) (values : List Bytes) (encoded : EncodedRow) :
    StatusOr EncodedRow := do
  failIf (values.length > uint32Max) (.invalidArgument "string list is too large")
  let refOffset := encoded.arena.length
  let refBytes := values.length*16
  let arena ← (values.mapIdx Prod.mk).foldlM (writeStringElement refOffset)
    (encoded.arena++List.replicate refBytes 0)
  failIf (refBytes > uint32Max) (.invalidArgument "string list ref payload is too large")
  Model.writeValueRefField field {
    offset := UInt64.ofNat refOffset,byteLength := UInt32.ofNat refBytes
    elementCountOrFlags := UInt32.ofNat values.length } { encoded with arena }

/-- `std::get` for another alternative; the source throws here and has no status. -/
def badVariantAccess : StatusOr EncodedRow := .error (.internal "bad variant access")

def writeScalarFieldValue (field : FieldLayout) (value : FieldValue) (encoded : EncodedRow) :
    StatusOr EncodedRow :=
  match field.type, value with
  | .kInt8, .int8 v => Model.writeScalarField field v encoded
  | .kInt32, .int32 v => Model.writeScalarField field v encoded
  | .kInt64, .int64 v => Model.writeScalarField field v encoded
  | .kUInt64, .uint64 v => Model.writeScalarField field v encoded
  | .kBool, .bool v => Model.writeScalarField field v encoded
  | .kString, .string v =>
    if field.encoding = .kArena then Model.writeArenaStringField field v encoded
    else if field.encoding = .kDictionary then do
      failIf (encoded.stringDictionary.length > uint32Max)
        (.invalidArgument "string dictionary is too large")
      Model.writeDictionaryStringField field (UInt32.ofNat encoded.stringDictionary.length)
        { encoded with stringDictionary := encoded.stringDictionary++[v] }
    else .error (.invalidArgument "unsupported scalar field encoding")
  | .unnamed _ _, _ => .error (.invalidArgument "unsupported scalar field encoding")
  | _, _ => badVariantAccess

def unsupportedListEncoding : StatusOr EncodedRow :=
  .error (.invalidArgument "unsupported list field encoding")

def writeArenaListValue (field : FieldLayout) (value : FieldValue) (encoded : EncodedRow) :
    StatusOr EncodedRow :=
  match field.type, value with
  | .kInt8, .int8s v => writeScalarListArena field v encoded
  | .kInt32, .int32s v => writeScalarListArena field v encoded
  | .kInt64, .int64s v => writeScalarListArena field v encoded
  | .kUInt64, .uint64s v => writeScalarListArena field v encoded
  | .kBool, .bools v => writeScalarListArena field v encoded
  | .kString, .strings v => writeStringListArena field v encoded
  | .unnamed _ _, _ => unsupportedListEncoding
  | _, _ => badVariantAccess

/-- The bytes and the number of the elements that `std::visit` finds in a value. -/
def listBytes : FieldValue → Bytes×ℕ
  | .int8s v => (v.foldl appendLittleEndian [],v.length)
  | .int32s v => (v.foldl appendLittleEndian [],v.length)
  | .int64s v => (v.foldl appendLittleEndian [],v.length)
  | .uint64s v => (v.foldl appendLittleEndian [],v.length)
  | .bools v => (v.foldl appendLittleEndian [],v.length)
  | _ => ([],0)

def writeListDictionaryStrings (field : FieldLayout) (values : List Bytes) (encoded : EncodedRow) :
    StatusOr EncodedRow := do
  failIf (encoded.stringListDictionary.length > uint32Max || values.length > uint32Max)
    (.invalidArgument "string-list dictionary is too large")
  Model.writeListDictionaryField field (UInt32.ofNat encoded.stringListDictionary.length)
    (UInt32.ofNat values.length)
    { encoded with stringListDictionary := encoded.stringListDictionary++[values] }

def writeListDictionaryScalars (field : FieldLayout) (value : FieldValue) (encoded : EncodedRow) :
    StatusOr EncodedRow := do
  let (bytes,elementCount) := listBytes value
  failIf (encoded.scalarListDictionary.length > uint32Max)
    (.invalidArgument "scalar-list dictionary is too large")
  Model.writeListDictionaryField field (UInt32.ofNat encoded.scalarListDictionary.length)
    (UInt32.ofNat elementCount)
    { encoded with scalarListDictionary := encoded.scalarListDictionary++[bytes] }

/-- The element dictionary behind the strings of a list, and their ids. -/
def addElements (dictionary : List Bytes) (ids : List UInt32) : List Bytes →
    StatusOr (List Bytes×List UInt32)
  | [] => .ok (dictionary,ids)
  | value::values => do
    failIf (dictionary.length > uint32Max) (.invalidArgument "element dictionary is too large")
    addElements (dictionary++[value]) (ids++[UInt32.ofNat dictionary.length]) values

def writeElementDictionaryStrings (field : FieldLayout) (values : List Bytes)
    (encoded : EncodedRow) : StatusOr EncodedRow := do
  failIf (values.length > uint32Max) (.invalidArgument "element dictionary list is too large")
  let (stringElementDictionary,ids) ← addElements encoded.stringElementDictionary [] values
  Model.writeElementDictionaryStringListField field ids { encoded with stringElementDictionary }

def writeListFieldValue (field : FieldLayout) (value : FieldValue) (encoded : EncodedRow) :
    StatusOr EncodedRow :=
  if field.encoding = .kArena then writeArenaListValue field value encoded
  else if field.encoding = .kListDictionary then
    if field.type = .kString then
      match value with
      | .strings values => writeListDictionaryStrings field values encoded
      | _ => badVariantAccess
    else writeListDictionaryScalars field value encoded
  else if field.encoding = .kElementDictionary ∧ field.type = .kString then
    match value with
    | .strings values => writeElementDictionaryStrings field values encoded
    | _ => badVariantAccess
  else unsupportedListEncoding

def writeFieldValue (field : FieldLayout) (value : FieldValue) (encoded : EncodedRow) :
    StatusOr EncodedRow :=
  if field.isList then writeListFieldValue field value encoded
  else writeScalarFieldValue field value encoded

/-- One round of the field loop of `EncodeRow`; a field whose value is null counts as absent. -/
def encodeLayoutField (values : FieldId → Option FieldValue) (encoded : EncodedRow)
    (field : FieldLayout) : StatusOr EncodedRow :=
  match (values field.fieldId).filter (· != .monostate) with
  | none => do
    failIf (!field.nullable && !field.hasDefault)
      (.invalidArgument ("required field is absent: "++display field.name))
    return encoded
  | some value => writeFieldValue field value encoded

/-- `EncodeRow`; the values are those of a map by field id. -/
def encodeRow (layout : CompiledRowLayout) (values : FieldId → Option FieldValue) :
    StatusOr EncodedRow :=
  layout.fields.foldlM (encodeLayoutField values) (Model.createEncodedRow layout)

end Offline
end KvIndex
