import KvIndex.ArtifactAccess
import KvIndex.RowRoundTrip

/-! The row readers once more, with every access that the source makes without a check of its own
written as a checked one: the bytes of the arena, the entries of the dictionaries, the
alternative of a default, and the 32-bit product of an element index. -/
namespace KvIndex
namespace Model
namespace Access

open LittleEndian Schema CompiledRowLayout
open Base hiding readLittleEndian decodeValueRef16
open Artifact.Access (Fault Checked access returns access_inside returns_bind returns_pure
  map_returns bind_eq_returns returns_ne_outOfRange readLittleEndian readLittleEndian_eq)

def elementAt {α : Type} (values : List α) (index : ℕ) : Checked α :=
  match values[index]? with
  | some value => .ok value
  | none => .error .outOfRange

def product32 (lhs rhs : ℕ) : Checked ℕ :=
  if lhs*rhs < 2^32 then .ok (lhs*rhs) else .error .outOfRange

/-- `std::get` of a default, which may not ask for another alternative. -/
def alternative (value : StatusOr FieldValue) : Checked FieldValue :=
  match value with
  | .ok value => .ok value
  | .error status => if status = badVariantAccess then .error .outOfRange else .error (.status status)

def fieldPresent (field : FieldLayout) (row : EncodedRow) : Checked Bool :=
  let byteIndex := field.presenceBitIndex/8
  let bitIndex := field.presenceBitIndex%8
  if byteIndex ≥ row.rowSlot.length then return false
  else do
    let byte ← elementAt row.rowSlot byteIndex
    return byte &&& (1 <<< UInt8.ofNat bitIndex) != 0

def decodeValueRef16 (bytes : Bytes) (offset : ℕ) : Checked ValueRef16 := do
  returns (checkSpanBounds bytes.length offset 16)
  let refOffset ← readLittleEndian UInt64 bytes offset
  let byteLength ← readLittleEndian UInt32 bytes (offset+8)
  let elementCountOrFlags ← readLittleEndian UInt32 bytes (offset+12)
  return { offset := refOffset,byteLength,elementCountOrFlags }

def readRef (field : FieldLayout) (row : EncodedRow) : Checked ValueRef16 := do
  returns (failIf (!hasBytes row.rowSlot.length field.slotOffset 16)
    (.invalidArgument "value ref is out of row-slot bounds"))
  decodeValueRef16 row.rowSlot field.slotOffset

def readBoolAt (message : String) (bytes : Bytes) (offset : ℕ) : Checked Bool := do
  let value ← readLittleEndian UInt8 bytes offset
  returns (failIf (value > 1) (.invalidArgument message))
  return value != 0

def decodeScalarListBytes {T : Type} (width : ℕ) (element : Bytes → ℕ → Checked T)
    (bytes : Bytes) (elementCount : UInt32) : Checked (List T) := do
  returns (failIf (bytes.length != elementCount.toNat*width)
    (.invalidArgument "list byte length does not match element count"))
  (List.range elementCount.toNat).mapM fun i => element bytes (i*width)

def decodeScalarListByType (type : FieldType) (bytes : Bytes) (elementCount : UInt32) :
    Checked FieldValue :=
  match type with
  | .kInt8 => (decodeScalarListBytes (fieldTypeSize .kInt8) (readLittleEndian Int8)
      bytes elementCount).map .int8s
  | .kInt32 => (decodeScalarListBytes (fieldTypeSize .kInt32) (readLittleEndian Int32)
      bytes elementCount).map .int32s
  | .kInt64 => (decodeScalarListBytes (fieldTypeSize .kInt64) (readLittleEndian Int64)
      bytes elementCount).map .int64s
  | .kUInt64 => (decodeScalarListBytes (fieldTypeSize .kUInt64) (readLittleEndian UInt64)
      bytes elementCount).map .uint64s
  | .kBool => (decodeScalarListBytes (fieldTypeSize .kBool)
      (readBoolAt "encoded bool list value is invalid") bytes elementCount).map .bools
  | .kString => returns (.error (.invalidArgument "string list is not a scalar byte list"))
  | .unnamed _ _ => returns (.error (.invalidArgument "unsupported scalar list type"))

def readArenaString (arena : Bytes) (offset : ℕ) : Checked Bytes := do
  let ref ← decodeValueRef16 arena offset
  returns (validateRefBounds ref arena.length)
  access arena ref.offset.toNat ref.byteLength.toNat

def decodeArenaStringList (ref : ValueRef16) (row : EncodedRow) : Checked (List Bytes) := do
  returns (failIf (ref.byteLength.toNat != ref.elementCountOrFlags.toNat*16)
    (.invalidArgument "string list ref payload has invalid length"))
  returns (validateRefBounds ref row.arena.length)
  (List.range ref.elementCountOrFlags.toNat).mapM fun i => do
    let elementOffset ← product32 i 16
    readArenaString row.arena (ref.offset.toNat+elementOffset)

def readDictionaryElement (row : EncodedRow) (offset : ℕ) : Checked Bytes := do
  let dictionaryId ← readLittleEndian UInt32 row.arena offset
  returns (failIf (dictionaryId.toNat ≥ row.stringElementDictionary.length)
    (.invalidArgument "element dictionary string id is out of bounds"))
  elementAt row.stringElementDictionary dictionaryId.toNat

def readStringRef (encoding : FieldEncoding) (ref : ValueRef16) (row : EncodedRow) :
    Checked FieldValue :=
  if encoding = .kArena then do
    returns (validateRefBounds ref row.arena.length)
    let value ← access row.arena ref.offset.toNat ref.byteLength.toNat
    return .string value
  else if encoding = .kDictionary then do
    returns (failIf (ref.offset.toNat ≥ row.stringDictionary.length)
      (.invalidArgument "string dictionary id is out of bounds"))
    let value ← elementAt row.stringDictionary ref.offset.toNat
    return .string value
  else returns (.error (.invalidArgument "string field has unsupported encoding"))

def readScalarField (field : FieldLayout) (row : EncodedRow) : Checked FieldValue :=
  if field.type = .kString then do
    let ref ← readRef field row
    readStringRef field.encoding ref row
  else do
    returns (failIf (!hasBytes row.rowSlot.length field.slotOffset field.valueWidth)
      (.invalidArgument "scalar field is out of row-slot bounds"))
    match field.type with
    | .kInt8 => (readLittleEndian Int8 row.rowSlot field.slotOffset).map .int8
    | .kInt32 => (readLittleEndian Int32 row.rowSlot field.slotOffset).map .int32
    | .kInt64 => (readLittleEndian Int64 row.rowSlot field.slotOffset).map .int64
    | .kUInt64 => (readLittleEndian UInt64 row.rowSlot field.slotOffset).map .uint64
    | .kBool => (readBoolAt "encoded bool value is invalid" row.rowSlot field.slotOffset).map .bool
    | .kString | .unnamed _ _ =>
      returns (.error (.invalidArgument "unsupported scalar field type"))

def readListRef (type : FieldType) (encoding : FieldEncoding) (ref : ValueRef16)
    (row : EncodedRow) : Checked FieldValue :=
  if encoding = .kArena then do
    returns (validateRefBounds ref row.arena.length)
    -- The span of the payload is made before the type is looked at.
    let payload ← access row.arena ref.offset.toNat ref.byteLength.toNat
    if type = .kString then (decodeArenaStringList ref row).map .strings
    else decodeScalarListByType type payload ref.elementCountOrFlags
  else if encoding = .kListDictionary then
    if type = .kString then do
      returns (failIf (ref.offset.toNat ≥ row.stringListDictionary.length)
        (.invalidArgument "string-list dictionary id is out of bounds"))
      let values ← elementAt row.stringListDictionary ref.offset.toNat
      returns (failIf (values.length != ref.elementCountOrFlags.toNat)
        (.invalidArgument "string-list dictionary count does not match ref"))
      return .strings values
    else do
      returns (failIf (ref.offset.toNat ≥ row.scalarListDictionary.length)
        (.invalidArgument "scalar-list dictionary id is out of bounds"))
      let payload ← elementAt row.scalarListDictionary ref.offset.toNat
      decodeScalarListByType type payload ref.elementCountOrFlags
  else if encoding = .kElementDictionary then do
    returns (failIf (type != .kString)
      (.invalidArgument "element dictionary lists are only supported for strings"))
    returns (validateRefBounds ref row.arena.length)
    returns (failIf (ref.byteLength != UInt32.ofNat (ref.elementCountOrFlags.toNat*size UInt32))
      (.invalidArgument "element dictionary ref length does not match element count"))
    ((elementIdOffsets ref).mapM (readDictionaryElement row)).map .strings
  else returns (.error (.invalidArgument "list field has unsupported encoding"))

def readListField (field : FieldLayout) (row : EncodedRow) : Checked FieldValue := do
  let ref ← readRef field row
  readListRef field.type field.encoding ref row

/-- `Row::ReadScalarValue`. -/
def readScalarValue (row : Row) (fieldId : FieldId) (expectedType : FieldType)
    (accessor : Option AccessorMetadata) : Checked FieldValue := do
  let field ← returns (resolveField row.layout row.encoded fieldId expectedType false accessor)
  let present ← fieldPresent field row.encoded
  if present then readScalarField field row.encoded
  else alternative (defaultScalarValue field)

/-- `Row::ReadListValue`. -/
def readListValue (row : Row) (fieldId : FieldId) (expectedType : FieldType)
    (accessor : Option AccessorMetadata) : Checked FieldValue := do
  let field ← returns (resolveField row.layout row.encoded fieldId expectedType true accessor)
  let present ← fieldPresent field row.encoded
  if present then readListField field row.encoded
  else alternative (defaultListValue field)

theorem elementAt_eq {α : Type} {values : List α} {index : ℕ} (h : index < values.length)
    (fallback : α) : elementAt values index = .ok (values.getD index fallback) := by
  rw [elementAt,List.getElem?_eq_getElem h,List.getD_eq_getElem _ _ h]

theorem mapM_returns {α β : Type} {f : α → Checked β} {g : α → StatusOr β} {as : List α}
    (h : ∀ a ∈ as, f a = returns (g a)) : as.mapM f = returns (as.mapM g) := by
  induction as with
  | nil => rfl
  | cons a as ih =>
    rw [List.mapM_cons,List.mapM_cons,returns_bind,h a List.mem_cons_self,
      ih fun other hother => h other (List.mem_cons_of_mem a hother)]
    congr 1
    funext b
    rw [returns_bind]
    rfl

theorem fieldPresent_eq (field : FieldLayout) (row : EncodedRow) :
    fieldPresent field row = returns (.ok (Model.fieldPresent field row)) := by
  rw [fieldPresent,Model.fieldPresent]
  by_cases hbyte : field.presenceBitIndex/8 ≥ row.rowSlot.length
  · simp only [hbyte,if_true]
    rfl
  · simp only [hbyte,if_false]
    rw [elementAt_eq (by omega) 0]
    rfl

theorem decodeValueRef16_eq (bytes : Bytes) (offset : ℕ) :
    decodeValueRef16 bytes offset = returns (Base.decodeValueRef16 bytes offset) := by
  simp only [decodeValueRef16,Base.decodeValueRef16,returns_bind,returns_pure,readLittleEndian_eq]

theorem readRef_eq (field : FieldLayout) (row : EncodedRow) :
    readRef field row = returns (Model.readRef field row) := by
  simp only [readRef,Model.readRef,returns_bind,decodeValueRef16_eq]

theorem readBoolAt_eq (message : String) (bytes : Bytes) (offset : ℕ) :
    readBoolAt message bytes offset = returns (Model.readBoolAt message bytes offset) := by
  simp only [readBoolAt,Model.readBoolAt,returns_bind,returns_pure,readLittleEndian_eq]

theorem decodeScalarListBytes_eq {T : Type} {width : ℕ} {element : Bytes → ℕ → Checked T}
    {element' : Bytes → ℕ → StatusOr T} (h : ∀ bytes i, element bytes i = returns (element' bytes i))
    (bytes : Bytes) (elementCount : UInt32) :
    decodeScalarListBytes width element bytes elementCount =
      returns (Model.decodeScalarListBytes width element' bytes elementCount) := by
  rw [decodeScalarListBytes,Model.decodeScalarListBytes,returns_bind]
  simp only [mapM_returns fun i _ => h bytes (i*width)]

theorem decodeScalarListByType_eq (type : FieldType) (bytes : Bytes) (elementCount : UInt32) :
    decodeScalarListByType type bytes elementCount =
      returns (Model.decodeScalarListByType type bytes elementCount) := by
  cases type with
  | kString => rfl
  | unnamed raw hraw => rfl
  | kBool =>
    simp only [decodeScalarListByType,Model.decodeScalarListByType,
      decodeScalarListBytes_eq (readBoolAt_eq _),map_returns]
  | _ =>
    simp only [decodeScalarListByType,Model.decodeScalarListByType,
      decodeScalarListBytes_eq (readLittleEndian_eq _),map_returns]

/-- A ref that the bounds check has passed is read inside of its bytes. -/
theorem access_ref {ref : ValueRef16} {bytes : Bytes}
    (h : validateRefBounds ref bytes.length = .ok ()) :
    access bytes ref.offset.toNat ref.byteLength.toNat = .ok (refBytes ref bytes) :=
  access_inside (validateRefBounds_eq_ok.mp h)

theorem readArenaString_eq (arena : Bytes) (offset : ℕ) :
    readArenaString arena offset = returns (Model.readArenaString arena offset) := by
  rw [readArenaString,Model.readArenaString,decodeValueRef16_eq]
  refine bind_eq_returns fun ref _ => bind_eq_returns fun _ hbounds => ?_
  exact access_ref hbounds

/-- The check of the length keeps the products of the element refs within 32 bits. -/
theorem decodeArenaStringList_eq (ref : ValueRef16) (row : EncodedRow) :
    decodeArenaStringList ref row = returns (Model.decodeArenaStringList ref row) := by
  rw [decodeArenaStringList,Model.decodeArenaStringList]
  refine bind_eq_returns fun _ hlength => bind_eq_returns fun _ _ => ?_
  rw [failIf_eq_ok,bne_eq_false_iff_eq] at hlength
  have hwidth := ref.byteLength.toNat_lt
  rw [elementRefOffsets,List.mapM_map]
  refine mapM_returns fun i hi => ?_
  have hsmall : i*16 < 2^32 := by
    have hlt := List.mem_range.mp hi
    omega
  rw [product32,if_pos hsmall,Artifact.Access.ok_bind,readArenaString_eq,Function.comp_apply,
    Nat.mod_eq_of_lt hsmall]

theorem readDictionaryElement_eq (row : EncodedRow) (offset : ℕ) :
    readDictionaryElement row offset = returns (Model.readDictionaryElement row offset) := by
  rw [readDictionaryElement,Model.readDictionaryElement,readLittleEndian_eq]
  refine bind_eq_returns fun dictionaryId _ => bind_eq_returns fun _ hinside => ?_
  rw [failIf_eq_ok,decide_eq_false_iff_not] at hinside
  exact elementAt_eq (by omega) []

theorem readStringRef_eq (encoding : FieldEncoding) (ref : ValueRef16) (row : EncodedRow) :
    readStringRef encoding ref row = returns (Model.readStringRef encoding ref row) := by
  rw [readStringRef,Model.readStringRef]
  split_ifs
  · refine bind_eq_returns fun _ hbounds => ?_
    rw [access_ref hbounds]
    rfl
  · refine bind_eq_returns fun _ hinside => ?_
    rw [failIf_eq_ok,decide_eq_false_iff_not] at hinside
    rw [elementAt_eq (by omega) []]
    rfl
  · rfl

theorem readScalarField_eq (field : FieldLayout) (row : EncodedRow) :
    readScalarField field row = returns (Model.readScalarField field row) := by
  rw [readScalarField,Model.readScalarField]
  split_ifs
  · rw [readRef_eq]
    exact bind_eq_returns fun ref _ => readStringRef_eq _ _ _
  · refine bind_eq_returns fun _ _ => ?_
    cases field.type with
    | kString => rfl
    | unnamed raw hraw => rfl
    | kBool => simp only [readBoolAt_eq,map_returns]
    | _ => simp only [readLittleEndian_eq,map_returns]

theorem readListRef_eq (type : FieldType) (encoding : FieldEncoding) (ref : ValueRef16)
    (row : EncodedRow) :
    readListRef type encoding ref row = returns (Model.readListRef type encoding ref row) := by
  rw [readListRef,Model.readListRef]
  by_cases harena : encoding = .kArena
  · rw [if_pos harena,if_pos harena]
    refine bind_eq_returns fun _ hbounds => ?_
    rw [access_ref hbounds,Artifact.Access.ok_bind]
    by_cases htype : type = .kString
    · rw [if_pos htype,if_pos htype,decodeArenaStringList_eq,map_returns]
    · rw [if_neg htype,if_neg htype,decodeScalarListByType_eq]
  rw [if_neg harena,if_neg harena]
  by_cases hlist : encoding = .kListDictionary
  · rw [if_pos hlist,if_pos hlist]
    by_cases htype : type = .kString
    · rw [if_pos htype,if_pos htype]
      refine bind_eq_returns fun _ hinside => ?_
      rw [failIf_eq_ok,decide_eq_false_iff_not] at hinside
      rw [elementAt_eq (by omega) [],Artifact.Access.ok_bind]
      exact bind_eq_returns fun _ _ => rfl
    · rw [if_neg htype,if_neg htype]
      refine bind_eq_returns fun _ hinside => ?_
      rw [failIf_eq_ok,decide_eq_false_iff_not] at hinside
      rw [elementAt_eq (by omega) [],Artifact.Access.ok_bind,decodeScalarListByType_eq]
  rw [if_neg hlist,if_neg hlist]
  by_cases helement : encoding = .kElementDictionary
  · rw [if_pos helement,if_pos helement]
    refine bind_eq_returns fun _ _ => bind_eq_returns fun _ _ => bind_eq_returns fun _ _ => ?_
    rw [mapM_returns fun offset _ => readDictionaryElement_eq row offset,map_returns]
  · rw [if_neg helement,if_neg helement]

theorem readListField_eq (field : FieldLayout) (row : EncodedRow) :
    readListField field row = returns (Model.readListField field row) := by
  rw [readListField,Model.readListField,readRef_eq]
  exact bind_eq_returns fun ref _ => readListRef_eq _ _ _ _

/-- No reader but a wrong `std::get` ends with its exception, and no field of a compiled layout
has a default of another alternative. -/
theorem alternative_eq {value : StatusOr FieldValue} (h : value ≠ .error badVariantAccess) :
    alternative value = returns value := by
  cases value with
  | ok value => rfl
  | error status =>
    rw [alternative,if_neg]
    · rfl
    · rintro rfl
      exact h rfl

theorem absentValue_ne (field : FieldLayout) (missing noDefault : String)
    {default : StatusOr FieldValue} (h : field.hasDefault = true → ∃ value, default = .ok value) :
    absentValue field missing noDefault default ≠ .error badVariantAccess := by
  rw [absentValue]
  split_ifs with hdefault
  · obtain ⟨value,rfl⟩ := h hdefault
    rintro ⟨⟩
  · simp [badVariantAccess,Status.notFound,Status.internal]
  · simp [badVariantAccess,Status.failedPrecondition,Status.internal]

theorem findField_typed {schema : RuntimeSchema} (h : schema.Reachable) {fieldId : FieldId}
    {field : FieldLayout} (hfound : (compile schema).findField fieldId = some field) :
    defaultMatchesField field.spec = true :=
  default_typed h (List.mem_of_find?_eq_some hfound)

theorem defaultScalarValue_ne {field : FieldLayout} (hmatches : defaultMatchesField field.spec = true)
    (hlist : field.isList = false) : defaultScalarValue field ≠ .error badVariantAccess := by
  rw [defaultScalarValue]
  refine absentValue_ne field _ _ fun hdefault => ⟨field.defaultValue,?_⟩
  have hvalue := defaultScalarValue_eq hmatches hlist hdefault
  rwa [defaultScalarValue,absentValue,if_pos hdefault] at hvalue

theorem defaultListValue_ne {field : FieldLayout} (hmatches : defaultMatchesField field.spec = true)
    (hlist : field.isList = true) : defaultListValue field ≠ .error badVariantAccess := by
  rw [defaultListValue]
  refine absentValue_ne field _ _ fun hdefault => ⟨field.defaultValue,?_⟩
  have hvalue := defaultListValue_eq hmatches hlist hdefault
  rwa [defaultListValue,absentValue,if_pos hdefault] at hvalue

section Reads

variable {schema : RuntimeSchema} {encoded : EncodedRow}

theorem readScalarValue_eq (h : schema.Reachable) (fieldId : FieldId) (expectedType : FieldType)
    (accessor : Option AccessorMetadata) :
    readScalarValue ⟨compile schema,encoded⟩ fieldId expectedType accessor =
      returns ((Row.mk (compile schema) encoded).readScalarValue fieldId expectedType accessor) := by
  rw [readScalarValue,Row.readScalarValue]
  refine bind_eq_returns fun field hfield => ?_
  obtain ⟨_,_,hfound,hlist,_⟩ := resolveField_eq_ok.mp hfield
  rw [fieldPresent_eq,returns,Artifact.Access.ok_bind]
  split_ifs
  · exact readScalarField_eq field encoded
  · exact alternative_eq (defaultScalarValue_ne (findField_typed h hfound) hlist)

theorem readListValue_eq (h : schema.Reachable) (fieldId : FieldId) (expectedType : FieldType)
    (accessor : Option AccessorMetadata) :
    readListValue ⟨compile schema,encoded⟩ fieldId expectedType accessor =
      returns ((Row.mk (compile schema) encoded).readListValue fieldId expectedType accessor) := by
  rw [readListValue,Row.readListValue]
  refine bind_eq_returns fun field hfield => ?_
  obtain ⟨_,_,hfound,hlist,_⟩ := resolveField_eq_ok.mp hfield
  rw [fieldPresent_eq,returns,Artifact.Access.ok_bind]
  split_ifs
  · exact readListField_eq field encoded
  · exact alternative_eq (defaultListValue_ne (findField_typed h hfound) hlist)

end Reads

/-- Reading a stored row is safe: whatever bytes and dictionaries the row has, a read of any
field returns a value or a status and makes no access outside of its container. -/
theorem stored_reads_safe {schema : RuntimeSchema} (h : schema.Reachable) {encoded : EncodedRow}
    {row : Row} (hrow : materializeRow (compile schema) encoded = .ok row) (fieldId : FieldId)
    (expectedType : FieldType) (accessor : Option AccessorMetadata) :
    readScalarValue row fieldId expectedType accessor =
        returns (row.readScalarValue fieldId expectedType accessor) ∧
      readScalarValue row fieldId expectedType accessor ≠ .error .outOfRange ∧
      readListValue row fieldId expectedType accessor =
        returns (row.readListValue fieldId expectedType accessor) ∧
      readListValue row fieldId expectedType accessor ≠ .error .outOfRange := by
  cases materializeRow_eq_ok hrow
  rw [readScalarValue_eq h,readListValue_eq h]
  exact ⟨rfl,returns_ne_outOfRange _,rfl,returns_ne_outOfRange _⟩

def stringLayout : CompiledRowLayout := compile (Artifact.fieldSchema Artifact.plainField)

def hostileRow : EncodedRow :=
  { createEncodedRow stringLayout with
    rowSlot := List.replicate stringLayout.rowSlotSize 255,arena := [1,2,3] }

theorem stored_reads_safe_sample :
    readScalarValue ⟨stringLayout,hostileRow⟩ 7 .kString none =
      .error (.status (.invalidArgument "value ref offset is out of bounds")) := by
  have hrow : materializeRow stringLayout hostileRow = .ok ⟨stringLayout,hostileRow⟩ := by
    decide +kernel
  have hread : (Row.mk stringLayout hostileRow).readScalarValue 7 .kString none =
      .error (.invalidArgument "value ref offset is out of bounds") := by
    decide +kernel
  have hsafe := stored_reads_safe (Artifact.fieldSchema_reachable (by decide)) hrow 7 .kString none
  rw [hsafe.1,hread]
  rfl

end Access
end Model
end KvIndex
