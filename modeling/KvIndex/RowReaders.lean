import KvIndex.RowLayout
import KvIndex.RowStorage

/-! The readers of `model/row_storage.cc`. A read resolves the field in the layout of the row;
a field that is present is decoded from the slot, the arena and the dictionaries, and an
absent one answers with its default. -/
namespace KvIndex

open Base LittleEndian Schema

/-- The alternatives of `Row::ScalarValue` and of `Row::ListValue` are those of a default. -/
abbrev FieldValue := FieldDefaultValue

def FieldDefaultValue.elementCount : FieldDefaultValue → ℕ
  | .int8s v => v.length
  | .int32s v => v.length
  | .int64s v => v.length
  | .uint64s v => v.length
  | .bools v => v.length
  | .strings v => v.length
  | _ => 0

/-- `Row::AccessorMetadata`. -/
structure AccessorMetadata where
  schemaVersion : UInt64
  layoutFingerprint : UInt64
  fieldId : FieldId
  isList : Bool
  physicalType : FieldType
  encoding : FieldEncoding
  offset : ℕ
  presenceBitIndex : ℕ
  deriving DecidableEq

namespace Model

def hasBytes (size offset byteCount : ℕ) : Bool := offset ≤ size && size-offset ≥ byteCount

def validateAccessor (accessor : Option AccessorMetadata) (field : FieldLayout) (row : EncodedRow)
    (layout : CompiledRowLayout) (expectedType : FieldType) (expectedList : Bool) :
    StatusOr Unit :=
  match accessor with
  | none => .ok ()
  | some accessor =>
    failIf (accessor.schemaVersion != row.schemaVersion ||
        accessor.schemaVersion != layout.schemaVersion ||
        accessor.layoutFingerprint != row.layoutFingerprint ||
        accessor.layoutFingerprint != layout.layoutFingerprint ||
        accessor.fieldId != field.fieldId || accessor.isList != expectedList ||
        accessor.physicalType != expectedType || accessor.encoding != field.encoding ||
        accessor.offset != field.slotOffset ||
        accessor.presenceBitIndex != field.presenceBitIndex)
      (.failedPrecondition "field accessor does not match this row layout")

/-- The accessor was made for another layout than the row's. -/
def foreignAccessor (accessor : Option AccessorMetadata) (row : EncodedRow)
    (layout : CompiledRowLayout) : Bool :=
  match accessor with
  | none => false
  | some accessor => accessor.schemaVersion != row.schemaVersion ||
      accessor.schemaVersion != layout.schemaVersion ||
      accessor.layoutFingerprint != row.layoutFingerprint ||
      accessor.layoutFingerprint != layout.layoutFingerprint

/-- `ResolveField` for a row with a backing. -/
def resolveField (layout : CompiledRowLayout) (row : EncodedRow) (fieldId : FieldId)
    (expectedType : FieldType) (expectedList : Bool) (accessor : Option AccessorMetadata) :
    StatusOr FieldLayout := do
  failIf (row.schemaVersion != layout.schemaVersion ||
      row.layoutFingerprint != layout.layoutFingerprint)
    (.failedPrecondition "row backing does not match compiled layout")
  failIf (foreignAccessor accessor row layout)
    (.failedPrecondition "field accessor does not match this row layout")
  match layout.findField fieldId with
  | none =>
    failIf accessor.isSome (.failedPrecondition "field accessor does not match this row layout")
    .error (.notFound "field is not active in row layout")
  | some field =>
    failIf (field.isList != expectedList)
      (.invalidArgument "field scalar/list shape does not match read")
    failIf (field.type != expectedType)
      (.invalidArgument "field physical type does not match read")
    validateAccessor accessor field row layout expectedType expectedList
    return field

/-- A row made for a layout. -/
def Matches (layout : CompiledRowLayout) (row : EncodedRow) : Prop :=
  row.schemaVersion = layout.schemaVersion ∧ row.layoutFingerprint = layout.layoutFingerprint

/-- A field that resolves is the field of the id, with the shape and the type of the read. -/
theorem resolveField_eq_ok {layout : CompiledRowLayout} {row : EncodedRow} {fieldId : FieldId}
    {expectedType : FieldType} {expectedList : Bool} {accessor : Option AccessorMetadata}
    {field : FieldLayout} :
    resolveField layout row fieldId expectedType expectedList accessor = .ok field ↔
      Matches layout row ∧ foreignAccessor accessor row layout = false ∧
      layout.findField fieldId = some field ∧ field.isList = expectedList ∧
      field.type = expectedType ∧
      validateAccessor accessor field row layout expectedType expectedList = .ok () := by
  simp only [resolveField,bind_eq_ok,failIf_eq_ok,exists_const,Bool.or_eq_false_iff,
    bne_eq_false_iff_eq,Matches]
  cases layout.findField fieldId with
  | none => simp [bind_eq_ok]
  | some other =>
    simp only [bind_eq_ok,failIf_eq_ok,exists_const,bne_eq_false_iff_eq,pure_eq_ok,
      Except.ok.injEq,Option.some.injEq]
    constructor
    · rintro ⟨hmatches,hforeign,hlist,htype,_,haccessor,rfl⟩
      exact ⟨hmatches,hforeign,rfl,hlist,htype,haccessor⟩
    · rintro ⟨hmatches,hforeign,rfl,hlist,htype,haccessor⟩
      exact ⟨hmatches,hforeign,hlist,htype,(),haccessor,rfl⟩

theorem resolveField_of_found {layout : CompiledRowLayout} {row : EncodedRow} {field : FieldLayout}
    (hrow : Matches layout row) (hfield : layout.findField field.fieldId = some field) :
    resolveField layout row field.fieldId field.type field.isList none = .ok field :=
  resolveField_eq_ok.mpr ⟨hrow,rfl,hfield,rfl,rfl,rfl⟩

def readRef (field : FieldLayout) (row : EncodedRow) : StatusOr ValueRef16 := do
  failIf (!hasBytes row.rowSlot.length field.slotOffset 16)
    (.invalidArgument "value ref is out of row-slot bounds")
  decodeValueRef16 row.rowSlot field.slotOffset

def validateRefBounds (ref : ValueRef16) (payloadSize : ℕ) : StatusOr Unit := do
  failIf (ref.offset.toNat > payloadSize)
    (.invalidArgument "value ref offset is out of bounds")
  failIf (payloadSize-ref.offset.toNat < ref.byteLength.toNat)
    (.invalidArgument "value ref length is out of bounds")

theorem validateRefBounds_eq_ok {ref : ValueRef16} {payloadSize : ℕ} {u : Unit} :
    validateRefBounds ref payloadSize = .ok u ↔
      ref.offset.toNat+ref.byteLength.toNat ≤ payloadSize := by
  simp only [validateRefBounds,bind_eq_ok,failIf_eq_ok,exists_const,decide_eq_false_iff_not]
  omega

def refBytes (ref : ValueRef16) (payload : Bytes) : Bytes :=
  slice payload ref.offset.toNat ref.byteLength.toNat

/-- `std::get` of an alternative that the variant does not hold throws; no reader returns
this status itself. -/
def badVariantAccess : Status := .internal "std::bad_variant_access"

/-- The answer for an absent field, with the messages of its shape. -/
def absentValue (field : FieldLayout) (missing noDefault : String)
    (default : StatusOr FieldValue) : StatusOr FieldValue :=
  if field.hasDefault then default
  else if field.nullable then .error (.notFound noDefault)
  else .error (.failedPrecondition missing)

def defaultScalarValue (field : FieldLayout) : StatusOr FieldValue :=
  absentValue field "required field is missing" "field is absent and has no default" <|
    match field.type, field.defaultValue with
    | .kInt8, .int8 v => .ok (.int8 v)
    | .kInt32, .int32 v => .ok (.int32 v)
    | .kInt64, .int64 v => .ok (.int64 v)
    | .kUInt64, .uint64 v => .ok (.uint64 v)
    | .kBool, .bool v => .ok (.bool v)
    | .kString, .string v => .ok (.string v)
    | .unnamed _ _, _ => .error (.invalidArgument "unsupported scalar default type")
    | _, _ => .error badVariantAccess

def defaultListValue (field : FieldLayout) : StatusOr FieldValue :=
  absentValue field "required list field is missing" "list field is absent and has no default" <|
    match field.type, field.defaultValue with
    | .kInt8, .int8s v => .ok (.int8s v)
    | .kInt32, .int32s v => .ok (.int32s v)
    | .kInt64, .int64s v => .ok (.int64s v)
    | .kUInt64, .uint64s v => .ok (.uint64s v)
    | .kBool, .bools v => .ok (.bools v)
    | .kString, .strings v => .ok (.strings v)
    | .unnamed _ _, _ => .error (.invalidArgument "unsupported list default type")
    | _, _ => .error badVariantAccess

def readBoolAt (message : String) (bytes : Bytes) (offset : ℕ) : StatusOr Bool := do
  let value ← readLittleEndian UInt8 bytes offset
  failIf (value > 1) (.invalidArgument message)
  return value != 0

/-- `DecodeScalarListBytes` for the elements of one width. -/
def decodeScalarListBytes {T : Type} (width : ℕ) (element : Bytes → ℕ → StatusOr T)
    (bytes : Bytes) (elementCount : UInt32) : StatusOr (List T) := do
  failIf (bytes.length != elementCount.toNat*width)
    (.invalidArgument "list byte length does not match element count")
  (List.range elementCount.toNat).mapM fun i => element bytes (i*width)

theorem decodeScalarListBytes_eq_ok {T : Type} {width : ℕ} {element : Bytes → ℕ → StatusOr T}
    {bytes : Bytes} {elementCount : UInt32} {values : List T} :
    decodeScalarListBytes width element bytes elementCount = .ok values ↔
      bytes.length = elementCount.toNat*width ∧
      List.Forall₂ (fun i value => element bytes (i*width) = .ok value)
        (List.range elementCount.toNat) values := by
  simp only [decodeScalarListBytes,bind_eq_ok,failIf_eq_ok,exists_const,bne_eq_false_iff_eq,
    mapM_eq_ok]

theorem decodeScalarListBytes_count {T : Type} {width : ℕ} {element : Bytes → ℕ → StatusOr T}
    {bytes : Bytes} {elementCount : UInt32} {values : List T}
    (h : decodeScalarListBytes width element bytes elementCount = .ok values) :
    bytes.length = values.length*width ∧ values.length = elementCount.toNat := by
  obtain ⟨hlength,hvalues⟩ := decodeScalarListBytes_eq_ok.mp h
  have hcount := hvalues.length_eq
  rw [List.length_range] at hcount
  exact ⟨by rw [hlength,hcount],hcount.symm⟩

def decodeScalarListByType (type : FieldType) (bytes : Bytes) (elementCount : UInt32) :
    StatusOr FieldValue :=
  match type with
  | .kInt8 => (decodeScalarListBytes (fieldTypeSize .kInt8) (readLittleEndian Int8)
      bytes elementCount).map .int8s
  | .kInt32 => (decodeScalarListBytes (fieldTypeSize .kInt32) (readLittleEndian Int32)
      bytes elementCount).map .int32s
  | .kInt64 => (decodeScalarListBytes (fieldTypeSize .kInt64) (readLittleEndian Int64)
      bytes elementCount).map .int64s
  | .kUInt64 => (decodeScalarListBytes (fieldTypeSize .kUInt64) (readLittleEndian UInt64)
      bytes elementCount).map .uint64s
  | .kBool => (decodeScalarListBytes (fieldTypeSize .kBool)
      (readBoolAt "encoded bool list value is invalid") bytes elementCount).map .bools
  | .kString => .error (.invalidArgument "string list is not a scalar byte list")
  | .unnamed _ _ => .error (.invalidArgument "unsupported scalar list type")

theorem decodeScalarListByType_count {type : FieldType} {bytes : Bytes} {elementCount : UInt32}
    {values : FieldValue} (h : decodeScalarListByType type bytes elementCount = .ok values) :
    bytes.length = values.elementCount*fieldTypeSize type ∧
      values.elementCount = elementCount.toNat := by
  cases type with
  | kString => cases h
  | unnamed raw hraw => cases h
  | _ =>
    obtain ⟨list,hlist,rfl⟩ := map_eq_ok.mp h
    exact decodeScalarListBytes_count hlist

/-- The string that the ref at a position of the arena stands for. -/
def readArenaString (arena : Bytes) (offset : ℕ) : StatusOr Bytes := do
  let ref ← decodeValueRef16 arena offset
  validateRefBounds ref arena.length
  return refBytes ref arena

/-- Where the loop of `DecodeArenaStringList` finds the refs of the elements. The source
multiplies the index by `16U`, a product of 32 bits. -/
def elementRefOffsets (ref : ValueRef16) : List ℕ :=
  (List.range ref.elementCountOrFlags.toNat).map fun i => ref.offset.toNat+i*16%2^32

def decodeArenaStringList (ref : ValueRef16) (row : EncodedRow) : StatusOr (List Bytes) := do
  failIf (ref.byteLength.toNat != ref.elementCountOrFlags.toNat*16)
    (.invalidArgument "string list ref payload has invalid length")
  validateRefBounds ref row.arena.length
  (elementRefOffsets ref).mapM (readArenaString row.arena)

/-- Where the loop over an element-dictionary list finds the ids. -/
def elementIdOffsets (ref : ValueRef16) : List ℕ :=
  (List.range ref.elementCountOrFlags.toNat).map fun i => ref.offset.toNat+i*size UInt32

/-- The string that the id at a position of the arena stands for. -/
def readDictionaryElement (row : EncodedRow) (offset : ℕ) : StatusOr Bytes := do
  let dictionaryId ← readLittleEndian UInt32 row.arena offset
  failIf (dictionaryId.toNat ≥ row.stringElementDictionary.length)
    (.invalidArgument "element dictionary string id is out of bounds")
  return row.stringElementDictionary.getD dictionaryId.toNat []

def readStringRef (encoding : FieldEncoding) (ref : ValueRef16) (row : EncodedRow) :
    StatusOr FieldValue :=
  if encoding = .kArena then do
    validateRefBounds ref row.arena.length
    return .string (refBytes ref row.arena)
  else if encoding = .kDictionary then do
    failIf (ref.offset.toNat ≥ row.stringDictionary.length)
      (.invalidArgument "string dictionary id is out of bounds")
    return .string (row.stringDictionary.getD ref.offset.toNat [])
  else .error (.invalidArgument "string field has unsupported encoding")

/-- `ReadScalarValue` for a field that is present. -/
def readScalarField (field : FieldLayout) (row : EncodedRow) : StatusOr FieldValue :=
  if field.type = .kString then do
    let ref ← readRef field row
    readStringRef field.encoding ref row
  else do
    failIf (!hasBytes row.rowSlot.length field.slotOffset field.valueWidth)
      (.invalidArgument "scalar field is out of row-slot bounds")
    match field.type with
    | .kInt8 => (readLittleEndian Int8 row.rowSlot field.slotOffset).map .int8
    | .kInt32 => (readLittleEndian Int32 row.rowSlot field.slotOffset).map .int32
    | .kInt64 => (readLittleEndian Int64 row.rowSlot field.slotOffset).map .int64
    | .kUInt64 => (readLittleEndian UInt64 row.rowSlot field.slotOffset).map .uint64
    | .kBool => (readBoolAt "encoded bool value is invalid" row.rowSlot field.slotOffset).map .bool
    | .kString | .unnamed _ _ => .error (.invalidArgument "unsupported scalar field type")

def readListRef (type : FieldType) (encoding : FieldEncoding) (ref : ValueRef16)
    (row : EncodedRow) : StatusOr FieldValue :=
  if encoding = .kArena then do
    validateRefBounds ref row.arena.length
    if type = .kString then (decodeArenaStringList ref row).map .strings
    else decodeScalarListByType type (refBytes ref row.arena) ref.elementCountOrFlags
  else if encoding = .kListDictionary then
    if type = .kString then do
      failIf (ref.offset.toNat ≥ row.stringListDictionary.length)
        (.invalidArgument "string-list dictionary id is out of bounds")
      let values := row.stringListDictionary.getD ref.offset.toNat []
      failIf (values.length != ref.elementCountOrFlags.toNat)
        (.invalidArgument "string-list dictionary count does not match ref")
      return .strings values
    else do
      failIf (ref.offset.toNat ≥ row.scalarListDictionary.length)
        (.invalidArgument "scalar-list dictionary id is out of bounds")
      decodeScalarListByType type (row.scalarListDictionary.getD ref.offset.toNat [])
        ref.elementCountOrFlags
  else if encoding = .kElementDictionary then do
    failIf (type != .kString)
      (.invalidArgument "element dictionary lists are only supported for strings")
    validateRefBounds ref row.arena.length
    -- The source casts the product of the count to 32 bits before it compares.
    failIf (ref.byteLength != UInt32.ofNat (ref.elementCountOrFlags.toNat*size UInt32))
      (.invalidArgument "element dictionary ref length does not match element count")
    ((elementIdOffsets ref).mapM (readDictionaryElement row)).map .strings
  else .error (.invalidArgument "list field has unsupported encoding")

/-- `ReadListValue` for a field that is present. -/
def readListField (field : FieldLayout) (row : EncodedRow) : StatusOr FieldValue := do
  let ref ← readRef field row
  readListRef field.type field.encoding ref row

end Model

namespace Row

open Model

def has (row : Row) (fieldId : FieldId) : Bool :=
  match row.layout.findField fieldId with
  | none => false
  | some field => fieldPresent field row.encoded

def readScalarValue (row : Row) (fieldId : FieldId) (expectedType : FieldType)
    (accessor : Option AccessorMetadata) : StatusOr FieldValue := do
  let field ← resolveField row.layout row.encoded fieldId expectedType false accessor
  if fieldPresent field row.encoded then readScalarField field row.encoded
  else defaultScalarValue field

def readListValue (row : Row) (fieldId : FieldId) (expectedType : FieldType)
    (accessor : Option AccessorMetadata) : StatusOr FieldValue := do
  let field ← resolveField row.layout row.encoded fieldId expectedType true accessor
  if fieldPresent field row.encoded then readListField field row.encoded
  else defaultListValue field

theorem readScalarValue_of_found {row : Row} {field : FieldLayout}
    (hrow : Matches row.layout row.encoded)
    (hfield : row.layout.findField field.fieldId = some field) (hlist : field.isList = false) :
    row.readScalarValue field.fieldId field.type none =
      if fieldPresent field row.encoded then readScalarField field row.encoded
      else defaultScalarValue field := by
  have hresolve := resolveField_of_found hrow hfield
  rw [hlist] at hresolve
  rw [readScalarValue,hresolve,ok_bind]

theorem readListValue_of_found {row : Row} {field : FieldLayout}
    (hrow : Matches row.layout row.encoded)
    (hfield : row.layout.findField field.fieldId = some field) (hlist : field.isList = true) :
    row.readListValue field.fieldId field.type none =
      if fieldPresent field row.encoded then readListField field row.encoded
      else defaultListValue field := by
  have hresolve := resolveField_of_found hrow hfield
  rw [hlist] at hresolve
  rw [readListValue,hresolve,ok_bind]

end Row
end KvIndex
