import KvIndex.ByteReader
import KvIndex.RowStorage

/-! The Kafka upsert payload of `ingest/update_applier.cc`: a complete-row binary frame
is decoded into typed fields, and these are encoded for each layout they go to. -/
namespace KvIndex
namespace Ingest

open Base

abbrev PayloadReader := ByteReader Status

def kMagic : Bytes := [75,86,73,85]
def kWireVersion : UInt16 := 1

inductive WireKind
  | kNull | kInt8 | kInt32 | kInt64 | kUInt64 | kBool | kString
  | kInt8List | kInt32List | kInt64List | kUInt64List | kBoolList | kStringList
  deriving DecidableEq

def WireKind.ofByte (byte : UInt8) : Option WireKind :=
  match byte.toNat with
  | 0 => some kNull
  | 1 => some kInt8
  | 2 => some kInt32
  | 3 => some kInt64
  | 4 => some kUInt64
  | 5 => some kBool
  | 6 => some kString
  | 17 => some kInt8List
  | 18 => some kInt32List
  | 19 => some kInt64List
  | 20 => some kUInt64List
  | 21 => some kBoolList
  | 22 => some kStringList
  | _ => none

/-- The variant of a decoded value has the alternatives of a default value. -/
abbrev DecodedValue := FieldDefaultValue

structure DecodedField where
  fieldId : FieldId
  value : DecodedValue
  deriving DecidableEq

abbrev DecodedPayload := List DecodedField

/-- `ByteReader::ReadInteger`. -/
def readInteger (T : Type) [LittleEndianInteger T] : PayloadReader T := fun bytes cursor => do
  failIf (bytes.length-cursor < size T) (.invalidArgument "payload is truncated")
  let value ← readLittleEndian T bytes cursor
  return (value,cursor+size T)

def readBytes (count : ℕ) : PayloadReader Bytes := do
  ByteReader.failWhen (fun bytes cursor => bytes.length-cursor < count)
    (.invalidArgument "payload field is truncated")
  ByteReader.take count

/-- Fails with `message` unless exactly `count` bytes remain. -/
def expectRemaining (count : ℕ) (message : String) : PayloadReader Unit :=
  ByteReader.failWhen (fun bytes cursor => bytes.length-cursor != count) (.invalidArgument message)

def readExactInteger (T : Type) [LittleEndianInteger T] (bytes : Bytes) : StatusOr T := do
  failIf (bytes.length != size T) (.invalidArgument "payload scalar byte length is invalid")
  readLittleEndian T bytes 0

def readBool (bytes : Bytes) : StatusOr Bool := do
  let value ← readExactInteger UInt8 bytes
  failIf (value > 1) (.invalidArgument "payload bool value is invalid")
  return value != 0

def readAll {α : Type} (reader : PayloadReader α) (bytes : Bytes) : StatusOr α := do
  let (value,_) ← reader bytes 0
  return value

def readScalarList (T : Type) [LittleEndianInteger T] : PayloadReader (List T) := do
  let count ← readInteger UInt32
  expectRemaining (count.toNat*size T) "payload list byte length is invalid"
  ByteReader.many count.toNat (readInteger T)

def readBoolElement : PayloadReader Bool := do
  let raw ← readInteger UInt8
  ByteReader.lift (failIf (raw > 1) (.invalidArgument "payload bool-list value is invalid"))
  return raw != 0

def readBoolList : PayloadReader (List Bool) := do
  let count ← readInteger UInt32
  expectRemaining count.toNat "payload bool-list byte length is invalid"
  ByteReader.many count.toNat readBoolElement

def readStringElement : PayloadReader Bytes := do
  let length ← readInteger UInt32
  readBytes length.toNat

def readStringList : PayloadReader (List Bytes) := do
  let count ← readInteger UInt32
  let values ← ByteReader.many count.toNat readStringElement
  expectRemaining 0 "payload string-list has trailing bytes"
  return values

def decodeValue (kind : Option WireKind) (bytes : Bytes) : StatusOr DecodedValue :=
  match kind with
  | none => .error (.invalidArgument "payload field kind is unsupported")
  | some .kNull => do
    failIf (!bytes.isEmpty) (.invalidArgument "payload null field must be empty")
    return .monostate
  | some .kInt8 => (readExactInteger Int8 bytes).map .int8
  | some .kInt32 => (readExactInteger Int32 bytes).map .int32
  | some .kInt64 => (readExactInteger Int64 bytes).map .int64
  | some .kUInt64 => (readExactInteger UInt64 bytes).map .uint64
  | some .kBool => (readBool bytes).map .bool
  | some .kString => .ok (.string bytes)
  | some .kInt8List => (readAll (readScalarList Int8) bytes).map .int8s
  | some .kInt32List => (readAll (readScalarList Int32) bytes).map .int32s
  | some .kInt64List => (readAll (readScalarList Int64) bytes).map .int64s
  | some .kUInt64List => (readAll (readScalarList UInt64) bytes).map .uint64s
  | some .kBoolList => (readAll readBoolList bytes).map .bools
  | some .kStringList => (readAll readStringList bytes).map .strings

/-- One round of the field loop of `DecodePayload`. -/
def readField (fields : DecodedPayload) : PayloadReader DecodedPayload := do
  let fieldId ← readInteger UInt32
  ByteReader.lift (failIf (fields.any fun field => field.fieldId == fieldId)
    (.invalidArgument "payload contains duplicate field id"))
  let kindByte ← readInteger UInt8
  let byteLength ← readInteger UInt32
  let fieldBytes ← readBytes byteLength.toNat
  let value ← ByteReader.lift (decodeValue (WireKind.ofByte kindByte) fieldBytes)
  return fields++[⟨fieldId,value⟩]

def readFrame : PayloadReader DecodedPayload := do
  let version ← readInteger UInt16
  ByteReader.lift (failIf (version != kWireVersion)
    (.invalidArgument "payload version is unsupported"))
  let flags ← readInteger UInt16
  ByteReader.lift (failIf (flags != 0) (.invalidArgument "payload flags are unsupported"))
  let fieldCount ← readInteger UInt32
  let fields ← ByteReader.iterate fieldCount.toNat readField []
  expectRemaining 0 "payload has trailing bytes"
  return fields

def decodePayload (bytes : Bytes) : StatusOr DecodedPayload := do
  failIf (bytes.length < 12 || bytes.take 4 != kMagic)
    (.invalidArgument "payload magic is invalid")
  readAll readFrame (bytes.drop 4)

/-- One element of `WriteArenaStringListField`: the string goes to the end of the arena
and its ref to the table of refs. -/
def writeStringListElement (refsOffset : ℕ) (arena : Bytes) (element : ℕ×Bytes) :
    StatusOr Bytes := do
  failIf (element.2.length > uint32Max) (.invalidArgument "string-list element is too large")
  writeValueRef16 {
    offset := UInt64.ofNat arena.length,byteLength := UInt32.ofNat element.2.length
    elementCountOrFlags := 0 } (arena++element.2) (refsOffset+element.1*16)

def writeArenaStringListField (field : FieldLayout) (values : List Bytes) (encoded : EncodedRow) :
    StatusOr EncodedRow := do
  failIf (!field.isList || field.type != .kString || field.encoding != .kArena)
    (.invalidArgument "arena string-list writer does not match field")
  failIf (values.length > uint32Max) (.invalidArgument "string-list value count is too large")
  let refsOffset := encoded.arena.length
  let refsBytes := values.length*16
  failIf (refsBytes > uint32Max) (.invalidArgument "string-list ref bytes are too large")
  let arena ← (values.mapIdx Prod.mk).foldlM (writeStringListElement refsOffset)
    (encoded.arena++List.replicate refsBytes 0)
  Model.writeValueRefField field {
    offset := UInt64.ofNat refsOffset,byteLength := UInt32.ofNat refsBytes
    elementCountOrFlags := UInt32.ofNat values.length } { encoded with arena }

def encodeBoolListBytes (values : List Bool) : StatusOr Bytes := do
  failIf (values.length > uint32Max) (.invalidArgument "bool-list value count is too large")
  return values.map fun value => if value then 1 else 0

def writeArenaBoolListField (field : FieldLayout) (values : List Bool) (encoded : EncodedRow) :
    StatusOr EncodedRow := do
  failIf (!field.isList || field.type != .kBool || field.encoding != .kArena)
    (.invalidArgument "arena bool-list writer does not match field")
  let payload ← encodeBoolListBytes values
  Model.writeArenaBytes field payload (UInt32.ofNat values.length) encoded

/-- A value of the wrong alternative fails with the message of its type. -/
def typeMismatch (message : String) : StatusOr EncodedRow := .error (.invalidArgument message)

def writeStringFieldValue (field : FieldLayout) (value : Bytes) (encoded : EncodedRow) :
    StatusOr EncodedRow :=
  if field.encoding = .kArena then Model.writeArenaStringField field value encoded
  else if field.encoding = .kDictionary then do
    failIf (encoded.stringDictionary.length > uint32Max)
      (.invalidArgument "string dictionary is too large")
    Model.writeDictionaryStringField field (UInt32.ofNat encoded.stringDictionary.length)
      { encoded with stringDictionary := encoded.stringDictionary++[value] }
  else .error (.invalidArgument "payload string field encoding unsupported")

def writeScalarFieldValue (field : FieldLayout) (value : DecodedValue) (encoded : EncodedRow) :
    StatusOr EncodedRow := do
  failIf field.isList (.invalidArgument "payload field shape does not match layout")
  match field.type, value with
  | .kInt8, .int8 v => Model.writeScalarField field v encoded
  | .kInt8, _ => typeMismatch "payload int8 field type mismatch"
  | .kInt32, .int32 v => Model.writeScalarField field v encoded
  | .kInt32, _ => typeMismatch "payload int32 field type mismatch"
  | .kInt64, .int64 v => Model.writeScalarField field v encoded
  | .kInt64, _ => typeMismatch "payload int64 field type mismatch"
  | .kUInt64, .uint64 v => Model.writeScalarField field v encoded
  | .kUInt64, _ => typeMismatch "payload uint64 field type mismatch"
  | .kBool, .bool v => Model.writeScalarField field v encoded
  | .kBool, _ => typeMismatch "payload bool field type mismatch"
  | .kString, .string v => writeStringFieldValue field v encoded
  | .kString, _ => typeMismatch "payload string field type mismatch"
  | .unnamed _ _, _ => typeMismatch "payload scalar field type unsupported"

def encodingUnsupported : StatusOr EncodedRow :=
  .error (.invalidArgument "payload list field encoding unsupported")

/-- The entry of a list in a dictionary of lists, and the ref to it. -/
def writeDictionaryEntry (field : FieldLayout) (message : String) (count dictionarySize : ℕ)
    (encoded : EncodedRow) : StatusOr EncodedRow := do
  failIf (count > uint32Max || dictionarySize > uint32Max) (.invalidArgument message)
  Model.writeListDictionaryField field (UInt32.ofNat dictionarySize) (UInt32.ofNat count) encoded

def writeListDictionaryBytes (field : FieldLayout) (message : String) (count : ℕ) (payload : Bytes)
    (encoded : EncodedRow) : StatusOr EncodedRow :=
  writeDictionaryEntry field message count encoded.scalarListDictionary.length
    { encoded with scalarListDictionary := encoded.scalarListDictionary++[payload] }

def writeScalarListValue {T : Type} [Model.FieldCppType T] (field : FieldLayout) (values : List T)
    (encoded : EncodedRow) : StatusOr EncodedRow :=
  if field.encoding = .kArena then Model.writeArenaListField field values encoded
  else if field.encoding = .kListDictionary then
    writeListDictionaryBytes field "scalar-list dictionary entry is too large" values.length
      (Model.encodeScalarList values) encoded
  else encodingUnsupported

def writeBoolListValue (field : FieldLayout) (values : List Bool) (encoded : EncodedRow) :
    StatusOr EncodedRow :=
  if field.encoding = .kArena then writeArenaBoolListField field values encoded
  else if field.encoding = .kListDictionary then do
    let payload ← encodeBoolListBytes values
    writeListDictionaryBytes field "scalar-list dictionary is too large" values.length payload encoded
  else encodingUnsupported

/-- The element dictionary after the strings of a list, and the ids they got. -/
def internStrings (dictionary : List Bytes) : List Bytes → StatusOr (List Bytes×List UInt32)
  | [] => .ok (dictionary,[])
  | value::values => do
    failIf (dictionary.length > uint32Max)
      (.invalidArgument "string element dictionary is too large")
    let (last,ids) ← internStrings (dictionary++[value]) values
    return (last,UInt32.ofNat dictionary.length::ids)

def writeStringListValue (field : FieldLayout) (values : List Bytes) (encoded : EncodedRow) :
    StatusOr EncodedRow :=
  if field.encoding = .kArena then writeArenaStringListField field values encoded
  else if field.encoding = .kListDictionary then
    writeDictionaryEntry field "string-list dictionary entry is too large" values.length
      encoded.stringListDictionary.length
      { encoded with stringListDictionary := encoded.stringListDictionary++[values] }
  else if field.encoding = .kElementDictionary then do
    let (stringElementDictionary,ids) ← internStrings encoded.stringElementDictionary values
    Model.writeElementDictionaryStringListField field ids { encoded with stringElementDictionary }
  else encodingUnsupported

def writeListFieldValue (field : FieldLayout) (value : DecodedValue) (encoded : EncodedRow) :
    StatusOr EncodedRow := do
  failIf (!field.isList) (.invalidArgument "payload field shape does not match layout")
  match field.type, value with
  | .kInt8, .int8s v => writeScalarListValue field v encoded
  | .kInt8, _ => typeMismatch "payload int8-list field type mismatch"
  | .kInt32, .int32s v => writeScalarListValue field v encoded
  | .kInt32, _ => typeMismatch "payload int32-list field type mismatch"
  | .kInt64, .int64s v => writeScalarListValue field v encoded
  | .kInt64, _ => typeMismatch "payload int64-list field type mismatch"
  | .kUInt64, .uint64s v => writeScalarListValue field v encoded
  | .kUInt64, _ => typeMismatch "payload uint64-list field type mismatch"
  | .kBool, .bools v => writeBoolListValue field v encoded
  | .kBool, _ => typeMismatch "payload bool-list field type mismatch"
  | .kString, .strings v => writeStringListValue field v encoded
  | .kString, _ => typeMismatch "payload string-list field type mismatch"
  | .unnamed _ _, _ => encodingUnsupported

/-- One round of the field loop of `EncodeForLayout`; a field that the layout does not
have is skipped. -/
def encodeField (layout : CompiledRowLayout) (encoded : EncodedRow) (decoded : DecodedField) :
    StatusOr EncodedRow :=
  match layout.findField decoded.fieldId with
  | none => .ok encoded
  | some field => do
    failIf (decoded.value == .monostate)
      (.invalidArgument "payload explicit null field is unsupported")
    if field.isList then writeListFieldValue field decoded.value encoded
    else writeScalarFieldValue field decoded.value encoded

def encodeForLayout (payload : DecodedPayload) (layout : Option CompiledRowLayout) :
    StatusOr EncodedRow :=
  match layout with
  | none => .error (.failedPrecondition "target layout is null")
  | some layout => do
    let encoded ← payload.foldlM (encodeField layout) (Model.createEncodedRow layout)
    let _ ← Model.materializeRow layout encoded
    return encoded

end Ingest
end KvIndex
