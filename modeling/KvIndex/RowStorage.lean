import KvIndex.Schema

/-! Encoded rows and their writers, from `model/row_storage.cc`. A row that a lookup
hands out is a layout with an encoded row that `MaterializeRow` accepted. -/
namespace KvIndex

open Base

structure EncodedRow where
  schemaVersion : UInt64 := 0
  layoutFingerprint : UInt64 := 0
  rowSlot : Bytes := []
  arena : Bytes := []
  stringDictionary : List Bytes := []
  scalarListDictionary : List Bytes := []
  stringListDictionary : List (List Bytes) := []
  stringElementDictionary : List Bytes := []
  deriving DecidableEq

structure Row where
  layout : CompiledRowLayout
  encoded : EncodedRow
  deriving DecidableEq

namespace Model

def fieldPresent (field : FieldLayout) (row : EncodedRow) : Bool :=
  let byteIndex := field.presenceBitIndex/8
  let bitIndex := field.presenceBitIndex%8
  if byteIndex ≥ row.rowSlot.length then false
  else (row.rowSlot.getD byteIndex 0) &&& (1 <<< UInt8.ofNat bitIndex) != 0

def createEncodedRow (layout : CompiledRowLayout) : EncodedRow where
  schemaVersion := layout.schemaVersion
  layoutFingerprint := layout.layoutFingerprint
  rowSlot := List.replicate layout.rowSlotSize 0

def setFieldPresent (field : FieldLayout) (encoded : EncodedRow) : StatusOr EncodedRow := do
  let byteIndex := field.presenceBitIndex/8
  let bitIndex := field.presenceBitIndex%8
  failIf (byteIndex ≥ encoded.rowSlot.length)
    (.invalidArgument "presence bit is out of row-slot bounds")
  let byte := encoded.rowSlot.getD byteIndex 0 ||| (1 <<< UInt8.ofNat bitIndex)
  return { encoded with rowSlot := encoded.rowSlot.set byteIndex byte }

def writeValueRefField (field : FieldLayout) (ref : ValueRef16) (encoded : EncodedRow) :
    StatusOr EncodedRow := do
  failIf (!field.usesRef) (.invalidArgument "field does not use a value ref")
  let rowSlot ← writeValueRef16 ref encoded.rowSlot field.slotOffset
  setFieldPresent field { encoded with rowSlot }

/-- `FieldTypeFor<T>`, and the little-endian bytes of a value of the type. -/
class FieldCppType (T : Type) where
  fieldType : FieldType
  bytes : T → Bytes

instance : FieldCppType Int8 := ⟨.kInt8,toBytes⟩
instance : FieldCppType Int32 := ⟨.kInt32,toBytes⟩
instance : FieldCppType Int64 := ⟨.kInt64,toBytes⟩
instance : FieldCppType UInt64 := ⟨.kUInt64,toBytes⟩
instance : FieldCppType Bool := ⟨.kBool,fun value => [if value then 1 else 0]⟩

def writeScalarField {T : Type} [FieldCppType T] (field : FieldLayout) (value : T)
    (encoded : EncodedRow) : StatusOr EncodedRow := do
  failIf (field.isList || field.usesRef || field.type != FieldCppType.fieldType T)
    (.invalidArgument "scalar field writer does not match field")
  failIf (field.slotOffset > encoded.rowSlot.length ||
      encoded.rowSlot.length-field.slotOffset < field.valueWidth)
    (.invalidArgument "scalar field offset is out of row-slot bounds")
  let rowSlot ← writeBytesAt encoded.rowSlot (field.slotOffset,FieldCppType.bytes value)
  setFieldPresent field { encoded with rowSlot }

def encodeScalarList {T : Type} [FieldCppType T] (values : List T) : Bytes :=
  values.flatMap FieldCppType.bytes

/-- The ref of `bytes` once they stand at the end of the arena. -/
def writeArenaBytes (field : FieldLayout) (bytes : Bytes) (elementCount : UInt32)
    (encoded : EncodedRow) : StatusOr EncodedRow :=
  writeValueRefField field {
    offset := UInt64.ofNat encoded.arena.length,byteLength := UInt32.ofNat bytes.length
    elementCountOrFlags := elementCount } { encoded with arena := encoded.arena++bytes }

def writeArenaListField {T : Type} [FieldCppType T] (field : FieldLayout) (values : List T)
    (encoded : EncodedRow) : StatusOr EncodedRow := do
  failIf (!field.isList || field.encoding != .kArena || field.type != FieldCppType.fieldType T)
    (.invalidArgument "arena list writer does not match field")
  failIf (encoded.arena.length > uint64Max) (.invalidArgument "arena offset is too large")
  writeArenaBytes field (encodeScalarList values) (UInt32.ofNat values.length) encoded

def writeArenaStringField (field : FieldLayout) (value : Bytes) (encoded : EncodedRow) :
    StatusOr EncodedRow := do
  failIf (field.isList || field.type != .kString || field.encoding != .kArena)
    (.invalidArgument "arena string writer does not match field")
  failIf (value.length > uint32Max) (.invalidArgument "string value is too large")
  writeArenaBytes field value 0 encoded

def writeDictionaryStringField (field : FieldLayout) (dictionaryId : UInt32)
    (encoded : EncodedRow) : StatusOr EncodedRow := do
  failIf (field.isList || field.type != .kString || field.encoding != .kDictionary)
    (.invalidArgument "dictionary string writer does not match field")
  writeValueRefField field {
    offset := dictionaryId.toUInt64,byteLength := 0,elementCountOrFlags := 0 } encoded

def writeListDictionaryField (field : FieldLayout) (dictionaryId elementCount : UInt32)
    (encoded : EncodedRow) : StatusOr EncodedRow := do
  failIf (!field.isList || field.encoding != .kListDictionary)
    (.invalidArgument "list dictionary writer does not match field")
  writeValueRefField field {
    offset := dictionaryId.toUInt64,byteLength := 0,elementCountOrFlags := elementCount } encoded

def writeElementDictionaryStringListField (field : FieldLayout) (dictionaryIds : List UInt32)
    (encoded : EncodedRow) : StatusOr EncodedRow := do
  failIf (!field.isList || field.type != .kString || field.encoding != .kElementDictionary)
    (.invalidArgument "element dictionary string-list writer does not match field")
  failIf (dictionaryIds.length > uint32Max)
    (.invalidArgument "string-list dictionary id count is too large")
  writeArenaBytes field (dictionaryIds.flatMap toBytes) (UInt32.ofNat dictionaryIds.length) encoded

def requiredFieldAbsent (encoded : EncodedRow) (field : FieldLayout) : Bool :=
  !field.nullable && !field.hasDefault && !fieldPresent field encoded

/-- `MaterializeRow` for a layout that is not null. -/
def materializeRow (layout : CompiledRowLayout) (encoded : EncodedRow) : StatusOr Row := do
  failIf (encoded.schemaVersion != layout.schemaVersion ||
      encoded.layoutFingerprint != layout.layoutFingerprint)
    (.failedPrecondition "encoded row metadata does not match layout")
  failIf (encoded.rowSlot.length < layout.rowSlotSize)
    (.invalidArgument "encoded row slot is shorter than layout")
  failIf (layout.fields.any (requiredFieldAbsent encoded))
    (.failedPrecondition "required field is absent in encoded row")
  return { layout,encoded }

/-- `MaterializeRow` for a layout pointer. -/
def materializeRow? (layout : Option CompiledRowLayout) (encoded : EncodedRow) : StatusOr Row :=
  match layout with
  | none => .error (.invalidArgument "compiled row layout must not be null")
  | some layout => materializeRow layout encoded

/-- A materialised row is the layout with the encoded row it was made of. -/
theorem materializeRow_eq_ok {layout : CompiledRowLayout} {encoded : EncodedRow} {row : Row}
    (h : materializeRow layout encoded = .ok row) : row = ⟨layout,encoded⟩ := by
  simp only [materializeRow,bind_eq_ok,failIf_eq_ok,exists_const,pure_eq_ok,Except.ok.injEq] at h
  exact h.2.2.2.symm

end Model
end KvIndex
