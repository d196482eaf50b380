import KvIndex.RowFrame

/-! What the field writers store. A writer that succeeds leaves a frame and a field that reads
back as the value it was given. -/
namespace KvIndex

open Base LittleEndian Schema CompiledRowLayout

namespace Model

/-- Elements of one width behind each other are decoded one by one. -/
theorem decodeScalarListBytes_flatMap {T : Type} {width : ℕ} {element : Bytes → ℕ → StatusOr T}
    {encode : T → Bytes} (hwidth : ∀ v, (encode v).length = width)
    (hread : ∀ pre v post, element (pre++(encode v++post)) pre.length = .ok v) (values : List T)
    {count : UInt32} (hcount : count.toNat = values.length) :
    decodeScalarListBytes width element (values.flatMap encode) count = .ok values := by
  refine decodeScalarListBytes_eq_ok.mpr ⟨by rw [flatMap_length fun v _ => hwidth v,hcount],?_⟩
  rw [hcount]
  refine List.forall₂_iff_get.mpr ⟨List.length_range,?_⟩
  intro i _ hi
  obtain ⟨pre,post,hsplit,hpre⟩ := flatMap_split hwidth values hi
  simp only [List.get_eq_getElem,List.getElem_range]
  rw [hsplit,← hpre]
  exact hread pre values[i] post

/-- A type whose values are stored in the slot, and in lists byte by byte. -/
class StoredType (T : Type) [FieldCppType T] where
  scalar : T → FieldValue
  list : List T → FieldValue
  width : ∀ v : T, (FieldCppType.bytes v).length = fieldTypeSize (FieldCppType.fieldType T)
  notString : FieldCppType.fieldType T ≠ .kString
  pos : 0 < fieldTypeSize (FieldCppType.fieldType T)
  count : ∀ values, (list values).elementCount = values.length
  readScalar : ∀ {field : FieldLayout} {row : EncodedRow} (v : T),
    field.type = FieldCppType.fieldType T →
    field.valueWidth = fieldTypeSize (FieldCppType.fieldType T) →
    field.slotOffset+field.valueWidth ≤ row.rowSlot.length →
    slice row.rowSlot field.slotOffset field.valueWidth = FieldCppType.bytes v →
    readScalarField field row = .ok (scalar v)
  readList : ∀ (values : List T) {count : UInt32}, count.toNat = values.length →
    decodeScalarListByType (FieldCppType.fieldType T) (encodeScalarList values) count =
      .ok (list values)

theorem hasBytes_of_le {size offset byteCount : ℕ} (h : offset+byteCount ≤ size) :
    hasBytes size offset byteCount = true := by
  simp only [hasBytes,Bool.and_eq_true,decide_eq_true_eq]
  omega

theorem decodeIntegers {T : Type} [LittleEndianInteger T] (values : List T) {count : UInt32}
    (hcount : count.toNat = values.length) :
    decodeScalarListBytes (size T) (readLittleEndian T) (values.flatMap toBytes) count =
      .ok values :=
  decodeScalarListBytes_flatMap toBytes_length (fun pre v post => readLittleEndian_middle v pre post)
    values hcount

instance : StoredType Int8 where
  scalar := .int8
  list := .int8s
  width := toBytes_length
  notString := by decide
  pos := by decide
  count _ := rfl
  readScalar v htype hwidth hinside hslice := by
    rw [readScalarField,htype,hasBytes_of_le hinside]
    rw [hwidth] at hinside hslice
    exact congrArg (Except.map FieldDefaultValue.int8) (readLittleEndian_of_slice hinside hslice)
  readList values count hcount :=
    congrArg (Except.map FieldDefaultValue.int8s) (decodeIntegers values hcount)

instance : StoredType Int32 where
  scalar := .int32
  list := .int32s
  width := toBytes_length
  notString := by decide
  pos := by decide
  count _ := rfl
  readScalar v htype hwidth hinside hslice := by
    rw [readScalarField,htype,hasBytes_of_le hinside]
    rw [hwidth] at hinside hslice
    exact congrArg (Except.map FieldDefaultValue.int32) (readLittleEndian_of_slice hinside hslice)
  readList values count hcount :=
    congrArg (Except.map FieldDefaultValue.int32s) (decodeIntegers values hcount)

instance : StoredType Int64 where
  scalar := .int64
  list := .int64s
  width := toBytes_length
  notString := by decide
  pos := by decide
  count _ := rfl
  readScalar v htype hwidth hinside hslice := by
    rw [readScalarField,htype,hasBytes_of_le hinside]
    rw [hwidth] at hinside hslice
    exact congrArg (Except.map FieldDefaultValue.int64) (readLittleEndian_of_slice hinside hslice)
  readList values count hcount :=
    congrArg (Except.map FieldDefaultValue.int64s) (decodeIntegers values hcount)

instance : StoredType UInt64 where
  scalar := .uint64
  list := .uint64s
  width := toBytes_length
  notString := by decide
  pos := by decide
  count _ := rfl
  readScalar v htype hwidth hinside hslice := by
    rw [readScalarField,htype,hasBytes_of_le hinside]
    rw [hwidth] at hinside hslice
    exact congrArg (Except.map FieldDefaultValue.uint64) (readLittleEndian_of_slice hinside hslice)
  readList values count hcount :=
    congrArg (Except.map FieldDefaultValue.uint64s) (decodeIntegers values hcount)

theorem readBoolAt_of_slice {message : String} {bytes : Bytes} {offset : ℕ} {v : Bool}
    (hinside : offset+1 ≤ bytes.length) (hslice : slice bytes offset 1 = FieldCppType.bytes v) :
    readBoolAt message bytes offset = .ok v := by
  have hread : readLittleEndian UInt8 bytes offset = .ok (if v then 1 else 0) := by
    refine readLittleEndian_of_slice hinside (hslice.trans ?_)
    cases v with
    | false => rfl
    | true => rfl
  rw [readBoolAt,hread,ok_bind]
  cases v with
  | false => rfl
  | true => rfl

instance : StoredType Bool where
  scalar := .bool
  list := .bools
  width _ := rfl
  notString := by decide
  pos := by decide
  count _ := rfl
  readScalar v htype hwidth hinside hslice := by
    rw [readScalarField,htype,hasBytes_of_le hinside]
    rw [hwidth] at hinside hslice
    exact congrArg (Except.map FieldDefaultValue.bool) (readBoolAt_of_slice hinside hslice)
  readList values count hcount := by
    have hdecode : decodeScalarListBytes 1 (readBoolAt "encoded bool list value is invalid")
        (values.flatMap FieldCppType.bytes) count = .ok values := by
      have hwidth : ∀ v : Bool, (FieldCppType.bytes v).length = 1 := fun _ => rfl
      refine decodeScalarListBytes_flatMap hwidth (fun pre v post => ?_) values hcount
      refine readBoolAt_of_slice ?_ (slice_middle pre (FieldCppType.bytes v) post)
      rw [List.length_append,List.length_append]
      show pre.length+1 ≤ pre.length+(1+post.length)
      omega
    exact congrArg (Except.map FieldDefaultValue.bools) hdecode

def readRefValue (field : FieldLayout) (ref : ValueRef16) (row : EncodedRow) :
    StatusOr FieldValue :=
  if field.isList then readListRef field.type field.encoding ref row
  else readStringRef field.encoding ref row

theorem readPresent_of_usesRef {field : FieldLayout} (hshaped : Shaped field)
    (husesRef : field.usesRef = true) (row : EncodedRow) :
    readPresent field row = (do
      let ref ← readRef field row
      readRefValue field ref row) := by
  simp only [readPresent,readRefValue]
  cases hlist : field.isList with
  | true => rfl
  | false =>
    rw [hshaped.usesRef,hlist,Bool.false_or,beq_iff_eq] at husesRef
    rw [if_neg Bool.false_ne_true,readScalarField,if_pos husesRef]
    rfl

theorem readPresent_of_ref {field : FieldLayout} {ref : ValueRef16} {row : EncodedRow}
    (hshaped : Shaped field) (husesRef : field.usesRef = true)
    (href : readRef field row = .ok ref) : readPresent field row = readRefValue field ref row := by
  rw [readPresent_of_usesRef hshaped husesRef,href,ok_bind]

theorem readRefValue_congr {field : FieldLayout} {ref : ValueRef16} {row row' : EncodedRow}
    (h : SameData row row') : readRefValue field ref row' = readRefValue field ref row := by
  have helement : readDictionaryElement row' = readDictionaryElement row := by
    funext offset
    simp only [readDictionaryElement,h.arena,h.stringElementDictionary]
  simp only [readRefValue,readListRef,readStringRef,decodeArenaStringList,helement,h.arena,
    h.stringDictionary,h.scalarListDictionary,h.stringListDictionary]

/-- A field is read from its own window and the containers of the row. -/
theorem readPresent_congr {field : FieldLayout} {row row' : EncodedRow} (hshaped : Shaped field)
    (hlength : row'.rowSlot.length = row.rowSlot.length)
    (hslot : slice row'.rowSlot field.slotOffset field.valueWidth =
      slice row.rowSlot field.slotOffset field.valueWidth) (hdata : SameData row row') :
    readPresent field row' = readPresent field row := by
  cases husesRef : field.usesRef with
  | true =>
    have hwidth := hshaped.width
    rw [husesRef,if_pos rfl,kValueRef16Size] at hwidth
    rw [hwidth] at hslot
    simp only [readPresent_of_usesRef hshaped husesRef,readRef_congr hlength hslot,
      readRefValue_congr hdata]
  | false =>
    have hlist : field.isList = false := by
      have huses := hshaped.usesRef
      rw [husesRef] at huses
      exact (Bool.or_eq_false_iff.mp huses.symm).1
    rw [readPresent,readPresent,hlist,if_neg Bool.false_ne_true,if_neg Bool.false_ne_true]
    exact readScalarField_congr hshaped husesRef hlength hslot

/-- A field of a well-formed layout, and a row with a slot for it. -/
structure Target (layout : CompiledRowLayout) (field : FieldLayout) (row : EncodedRow) : Prop where
  formed : Formed layout
  mem : field ∈ layout.fields
  size : layout.rowSlotSize ≤ row.rowSlot.length

/-- A row whose containers grew while its slot stayed. -/
structure Extended (row mid : EncodedRow) : Prop where
  schemaVersion : mid.schemaVersion = row.schemaVersion
  layoutFingerprint : mid.layoutFingerprint = row.layoutFingerprint
  rowSlot : mid.rowSlot = row.rowSlot
  grown : Grown row mid

section Writers

variable {layout : CompiledRowLayout} {field : FieldLayout} {row mid row' : EncodedRow}

theorem Grown.refl (row : EncodedRow) : Grown row row :=
  ⟨List.prefix_rfl,List.prefix_rfl,List.prefix_rfl,List.prefix_rfl,List.prefix_rfl⟩

theorem Extended.refl (row : EncodedRow) : Extended row row := ⟨rfl,rfl,rfl,Grown.refl row⟩

theorem Extended.arena (row : EncodedRow) (bytes : Bytes) :
    Extended row { row with arena := row.arena++bytes } :=
  ⟨rfl,rfl,rfl,List.prefix_append _ _,List.prefix_rfl,List.prefix_rfl,List.prefix_rfl,
    List.prefix_rfl⟩

theorem Extended.target (h : Extended row mid) (ht : Target layout field row) :
    Target layout field mid := ⟨ht.formed,ht.mem,by rw [h.rowSlot]; exact ht.size⟩

theorem Target.inside (ht : Target layout field row) :
    field.slotOffset+field.valueWidth ≤ row.rowSlot.length :=
  (ht.formed.inside field ht.mem).trans ht.size

theorem Target.refWidth (ht : Target layout field row) (husesRef : field.usesRef = true) :
    field.valueWidth = 16 := by
  rw [(ht.formed.shaped field ht.mem).width,husesRef,if_pos rfl,kValueRef16Size]

theorem SlotWritten.frame {bytes : Bytes} (h : SlotWritten layout field bytes mid row')
    (he : Extended row mid) : Frame layout field row row' := by
  have hdata := h.data
  refine ⟨hdata.schemaVersion.trans he.schemaVersion,
    hdata.layoutFingerprint.trans he.layoutFingerprint,?_,?_,?_,?_⟩
  · rw [h.length,he.rowSlot]
  · intro other hother hne
    rw [h.slots other hother hne,he.rowSlot]
  · intro other hother hne
    rw [h.bits other hother hne]
    simp only [fieldPresent,he.rowSlot]
  · refine ⟨?_,?_,?_,?_,?_⟩
    · rw [hdata.arena]
      exact he.grown.arena
    · rw [hdata.stringDictionary]
      exact he.grown.stringDictionary
    · rw [hdata.scalarListDictionary]
      exact he.grown.scalarListDictionary
    · rw [hdata.stringListDictionary]
      exact he.grown.stringListDictionary
    · rw [hdata.stringElementDictionary]
      exact he.grown.stringElementDictionary

theorem writeValueRefField_spec (ht : Target layout field mid) (husesRef : field.usesRef = true)
    (ref : ValueRef16) :
    ∃ row', writeValueRefField field ref mid = .ok row' ∧
      SlotWritten layout field (valueRefBytes ref) mid row' ∧ readRef field row' = .ok ref := by
  have hwidth := ht.refWidth husesRef
  have hinside := ht.inside
  rw [hwidth] at hinside
  have hbytes : (valueRefBytes ref).length = field.valueWidth := by
    rw [valueRefBytes_length,hwidth]
  obtain ⟨row',hset,hwritten⟩ := slotWritten ht.formed ht.mem ht.size hbytes
  refine ⟨row',?_,hwritten,?_⟩
  · rw [writeValueRefField,husesRef,Bool.not_true,failIf_false,ok_bind,
      writeValueRef16_of_le ref hinside,ok_bind,hset]
  · have hslot := hwritten.written
    rw [hwidth] at hslot
    rw [← hwritten.length] at hinside
    rw [readRef,hasBytes_of_le hinside,Bool.not_true,failIf_false,ok_bind,
      decodeValueRef16_of_le hinside,hslot,refOfBytes_valueRefBytes]

/-- A ref field is written once the value stands where the ref leads. -/
theorem written_ref (ht : Target layout field row) (husesRef : field.usesRef = true)
    (he : Extended row mid) {ref : ValueRef16} {value : FieldValue}
    (hread : readRefValue field ref mid = .ok value) :
    ∃ row', writeValueRefField field ref mid = .ok row' ∧ SameData mid row' ∧
      Written layout field value row row' := by
  obtain ⟨row',hwrite,hwritten,href⟩ := writeValueRefField_spec (he.target ht) husesRef ref
  refine ⟨row',hwrite,hwritten.data,hwritten.frame he,hwritten.present,?_⟩
  rw [readPresent_of_ref (ht.formed.shaped field ht.mem) husesRef href,
    readRefValue_congr hwritten.data,hread]

theorem Target.usesRef_list (ht : Target layout field row) (hlist : field.isList = true) :
    field.usesRef = true := by
  rw [(ht.formed.shaped field ht.mem).usesRef,hlist,Bool.true_or]

theorem Target.usesRef_string (ht : Target layout field row) (htype : field.type = .kString) :
    field.usesRef = true := by
  rw [(ht.formed.shaped field ht.mem).usesRef,htype,beq_self_eq_true,Bool.or_true]

theorem writeScalarField_spec {T : Type} [FieldCppType T] [StoredType T]
    (ht : Target layout field row) (hlist : field.isList = false)
    (htype : field.type = FieldCppType.fieldType T) (v : T) :
    ∃ row', writeScalarField field v row = .ok row' ∧ SameData row row' ∧
      Written layout field (StoredType.scalar v) row row' := by
  have hshaped := ht.formed.shaped field ht.mem
  have husesRef : field.usesRef = false := by
    rw [hshaped.usesRef,hlist,Bool.false_or,htype]
    exact beq_false_of_ne StoredType.notString
  have hwidth : field.valueWidth = fieldTypeSize (FieldCppType.fieldType T) := by
    rw [hshaped.width,husesRef,if_neg Bool.false_ne_true,htype]
  have hbytes : (FieldCppType.bytes v).length = field.valueWidth := by
    rw [hwidth]
    exact StoredType.width v
  have hinside := ht.inside
  obtain ⟨row',hset,hwritten⟩ := slotWritten ht.formed ht.mem ht.size hbytes
  have hslot := hwritten.written
  have hinside' : field.slotOffset+field.valueWidth ≤ row'.rowSlot.length := by
    rw [hwritten.length]
    exact hinside
  have hread := StoredType.readScalar v htype hwidth hinside' hslot
  refine ⟨row',?_,hwritten.data,hwritten.frame (Extended.refl row),hwritten.present,?_⟩
  · have hplace : (decide (field.slotOffset > row.rowSlot.length) ||
        decide (row.rowSlot.length-field.slotOffset < field.valueWidth)) = false := by
      simp only [Bool.or_eq_false_iff,decide_eq_false_iff_not]
      omega
    have hspan : checkSpanBounds row.rowSlot.length field.slotOffset
        (FieldCppType.bytes v).length = .ok () :=
      checkSpanBounds_eq_ok.mpr (by rw [hbytes]; exact hinside)
    rw [writeScalarField,hlist,husesRef,htype,bne_self_eq_false,Bool.or_self,Bool.or_self,
      failIf_false,ok_bind,hplace,failIf_false,ok_bind,writeBytesAt,hspan,ok_bind]
    exact hset
  · rw [readPresent,hlist,if_neg Bool.false_ne_true]
    exact hread

def arenaRef (row : EncodedRow) (bytes : Bytes) (count : UInt32) : ValueRef16 where
  offset := UInt64.ofNat row.arena.length
  byteLength := UInt32.ofNat bytes.length
  elementCountOrFlags := count

theorem arenaRef_valid (harena : row.arena.length ≤ uint64Max) (bytes : Bytes) (count : UInt32) :
    validateRefBounds (arenaRef row bytes count) (row.arena++bytes).length = .ok () := by
  refine validateRefBounds_eq_ok.mpr ?_
  have hmod := Nat.mod_le bytes.length (2^32)
  rw [arenaRef,Artifact.uint64_toNat harena,UInt32.toNat_ofNat',List.length_append]
  exact Nat.add_le_add_left hmod _

theorem arenaRef_bytes (harena : row.arena.length ≤ uint64Max) {bytes : Bytes}
    (hbytes : bytes.length ≤ uint32Max) (count : UInt32) :
    refBytes (arenaRef row bytes count) (row.arena++bytes) = bytes := by
  rw [refBytes,arenaRef,Artifact.uint64_toNat harena,Artifact.uint32_toNat hbytes]
  simpa only [List.append_nil] using slice_middle row.arena bytes []

/-- Bytes are put at the end of the arena, with a ref from the field. -/
theorem writeArenaBytes_spec (ht : Target layout field row) (husesRef : field.usesRef = true)
    {bytes : Bytes} {count : UInt32} {value : FieldValue}
    (hread : readRefValue field (arenaRef row bytes count)
      { row with arena := row.arena++bytes } = .ok value) :
    ∃ row', writeArenaBytes field bytes count row = .ok row' ∧
      SameData { row with arena := row.arena++bytes } row' ∧
      Written layout field value row row' :=
  written_ref ht husesRef (Extended.arena row bytes) hread

theorem writeArenaStringField_spec (ht : Target layout field row) (hlist : field.isList = false)
    (htype : field.type = .kString) (hencoding : field.encoding = .kArena)
    (harena : row.arena.length ≤ uint64Max) {value : Bytes} (hvalue : value.length ≤ uint32Max) :
    ∃ row', writeArenaStringField field value row = .ok row' ∧
      SameData { row with arena := row.arena++value } row' ∧
      Written layout field (.string value) row row' := by
  have hread : readRefValue field (arenaRef row value 0) { row with arena := row.arena++value } =
      .ok (.string value) := by
    rw [readRefValue,hlist,if_neg Bool.false_ne_true,readStringRef,if_pos hencoding,
      arenaRef_valid harena,ok_bind,arenaRef_bytes harena hvalue]
    rfl
  obtain ⟨row',hwrite,hdata,hwritten⟩ := writeArenaBytes_spec ht (ht.usesRef_string htype) hread
  refine ⟨row',?_,hdata,hwritten⟩
  rw [writeArenaStringField,hlist,htype,hencoding,bne_self_eq_false,bne_self_eq_false,Bool.or_self,
    Bool.or_self,failIf_false,ok_bind,decide_eq_false (Nat.not_lt.mpr hvalue),failIf_false,ok_bind,
    hwrite]

/-- A list of scalars at the end of the arena is decoded from its own bytes. -/
theorem readListRef_arenaBytes {type : FieldType} (hstring : type ≠ .kString)
    (harena : row.arena.length ≤ uint64Max) {bytes : Bytes} (hlength : bytes.length ≤ uint32Max)
    (count : UInt32) :
    readListRef type .kArena (arenaRef row bytes count) { row with arena := row.arena++bytes } =
      decodeScalarListByType type bytes count := by
  rw [readListRef,if_pos rfl,arenaRef_valid harena,ok_bind,if_neg hstring,
    arenaRef_bytes harena hlength]
  rfl

theorem encodeScalarList_length {T : Type} [FieldCppType T] [StoredType T] (values : List T) :
    (encodeScalarList values).length = values.length*fieldTypeSize (FieldCppType.fieldType T) :=
  flatMap_length fun v _ => StoredType.width v

theorem length_le_encodeScalarList {T : Type} [FieldCppType T] [StoredType T] (values : List T) :
    values.length ≤ (encodeScalarList values).length := by
  rw [encodeScalarList_length]
  exact Nat.le_mul_of_pos_right _ (StoredType.pos (T := T))

/-- The check of `WriteArenaListField` and the write behind it. -/
theorem writeArenaListField_eq {T : Type} [FieldCppType T] {values : List T}
    (hlist : field.isList = true) (hencoding : field.encoding = .kArena)
    (htype : field.type = FieldCppType.fieldType T) (harena : row.arena.length ≤ uint64Max) :
    writeArenaListField field values row =
      writeArenaBytes field (encodeScalarList values) (UInt32.ofNat values.length) row := by
  rw [writeArenaListField,hlist,htype,hencoding,bne_self_eq_false,bne_self_eq_false,Bool.not_true,
    Bool.or_self,Bool.or_self,failIf_false,ok_bind,decide_eq_false (Nat.not_lt.mpr harena),
    failIf_false,ok_bind]

theorem writeArenaListField_matches {T : Type} [FieldCppType T] {values : List T}
    (h : writeArenaListField field values row = .ok row') :
    field.encoding = .kArena ∧ field.type = FieldCppType.fieldType T := by
  simp only [writeArenaListField,bind_eq_ok,failIf_eq_ok,exists_const,Bool.or_eq_false_iff,
    bne_eq_false_iff_eq] at h
  exact ⟨h.1.1.2,h.1.2⟩

theorem writeDictionaryStringField_spec (ht : Target layout field row) (he : Extended row mid)
    (hlist : field.isList = false) (htype : field.type = .kString)
    (hencoding : field.encoding = .kDictionary) {id : UInt32}
    (hid : id.toNat < mid.stringDictionary.length) :
    ∃ row', writeDictionaryStringField field id mid = .ok row' ∧ SameData mid row' ∧
      Written layout field (.string (mid.stringDictionary.getD id.toNat [])) row row' := by
  have hread : readRefValue field ⟨id.toUInt64,0,0⟩ mid =
      .ok (.string (mid.stringDictionary.getD id.toNat [])) := by
    rw [readRefValue,hlist,if_neg Bool.false_ne_true,readStringRef,hencoding,
      if_neg (by decide),if_pos rfl,UInt32.toNat_toUInt64,decide_eq_false (Nat.not_le.mpr hid),
      failIf_false,ok_bind]
    rfl
  obtain ⟨row',hwrite,hdata,hwritten⟩ := written_ref ht (ht.usesRef_string htype) he hread
  refine ⟨row',?_,hdata,hwritten⟩
  rw [writeDictionaryStringField,hlist,htype,hencoding,bne_self_eq_false,bne_self_eq_false,
    Bool.or_self,Bool.or_self,failIf_false,ok_bind,hwrite]

/-- An id and a count that fit the entry of a dictionary of lists. -/
theorem writeListDictionaryField_spec (ht : Target layout field row) (he : Extended row mid)
    (hlist : field.isList = true) (hencoding : field.encoding = .kListDictionary)
    {id count : UInt32} {value : FieldValue}
    (hread : readListRef field.type .kListDictionary ⟨id.toUInt64,0,count⟩ mid = .ok value) :
    ∃ row', writeListDictionaryField field id count mid = .ok row' ∧ SameData mid row' ∧
      Written layout field value row row' := by
  have hread' : readRefValue field ⟨id.toUInt64,0,count⟩ mid = .ok value := by
    rw [readRefValue,hlist,if_pos rfl,hencoding,hread]
  obtain ⟨row',hwrite,hdata,hwritten⟩ := written_ref ht (ht.usesRef_list hlist) he hread'
  refine ⟨row',?_,hdata,hwritten⟩
  rw [writeListDictionaryField,hlist,hencoding,bne_self_eq_false,Bool.not_true,Bool.or_self,
    failIf_false,ok_bind,hwrite]

theorem readListRef_stringEntry {id count : UInt32} {values : List Bytes}
    (hentry : row.stringListDictionary[id.toNat]? = some values)
    (hcount : count.toNat = values.length) :
    readListRef .kString .kListDictionary ⟨id.toUInt64,0,count⟩ row = .ok (.strings values) := by
  have hid := (List.getElem?_eq_some_iff.mp hentry).1
  have hget : row.stringListDictionary.getD id.toNat [] = values := by
    rw [List.getD_eq_getElem?_getD,hentry,Option.getD_some]
  simp only [readListRef,reduceCtorEq,if_false,if_true,UInt32.toNat_toUInt64,hget,hcount]
  rw [decide_eq_false (Nat.not_le.mpr hid),failIf_false,ok_bind,bne_self_eq_false,failIf_false,
    ok_bind]
  rfl

/-- An entry of the dictionary of scalar lists is decoded from its bytes. -/
theorem readListRef_scalarEntry {type : FieldType} (hstring : type ≠ .kString) {id : UInt32}
    {bytes : Bytes} (hentry : row.scalarListDictionary[id.toNat]? = some bytes) (count : UInt32) :
    readListRef type .kListDictionary ⟨id.toUInt64,0,count⟩ row =
      decodeScalarListByType type bytes count := by
  have hid := (List.getElem?_eq_some_iff.mp hentry).1
  have hget : row.scalarListDictionary.getD id.toNat [] = bytes := by
    rw [List.getD_eq_getElem?_getD,hentry,Option.getD_some]
  simp only [readListRef,reduceCtorEq,if_false,if_true,if_neg hstring,UInt32.toNat_toUInt64,hget]
  rw [decide_eq_false (Nat.not_le.mpr hid),failIf_false,ok_bind]

/-- The ids of a list, whatever their number, name its strings. The length of the ref may wrap,
and the read compares it with a product that wraps alike. -/
theorem readListRef_elements (harena : row.arena.length ≤ uint64Max) {ids : List UInt32}
    (hcount : ids.length ≤ uint32Max)
    (hids : ∀ id ∈ ids, id.toNat < row.stringElementDictionary.length) :
    readListRef .kString .kElementDictionary
      (arenaRef row (ids.flatMap toBytes) (UInt32.ofNat ids.length))
      { row with arena := row.arena++ids.flatMap toBytes } =
      .ok (.strings (ids.map fun id => row.stringElementDictionary.getD id.toNat [])) := by
  have hlength : (ids.flatMap toBytes).length = ids.length*size UInt32 :=
    flatMap_length fun id _ => toBytes_length id
  have hbytes : UInt32.ofNat (ids.flatMap toBytes).length =
      UInt32.ofNat ((UInt32.ofNat ids.length).toNat*size UInt32) := by
    rw [hlength,Artifact.uint32_toNat hcount]
  have helements : (elementIdOffsets (arenaRef row (ids.flatMap toBytes) (UInt32.ofNat ids.length))).mapM
      (readDictionaryElement { row with arena := row.arena++ids.flatMap toBytes }) =
      .ok (ids.map fun id => row.stringElementDictionary.getD id.toNat []) := by
    refine mapM_eq_ok.mpr (List.forall₂_iff_get.mpr ⟨?_,?_⟩)
    · rw [elementIdOffsets,arenaRef,Artifact.uint32_toNat hcount,List.length_map,List.length_range,
        List.length_map]
    · intro i _ hi
      rw [List.length_map] at hi
      obtain ⟨pre,post,hsplit,hpre⟩ := flatMap_split (fun id : UInt32 => toBytes_length id) ids hi
      have hread : readLittleEndian UInt32 (row.arena++ids.flatMap toBytes)
          (row.arena.length+i*size UInt32) = .ok ids[i] := by
        rw [hsplit,← hpre,← List.length_append,← List.append_assoc]
        exact readLittleEndian_middle ids[i] _ post
      have hid := hids ids[i] (List.getElem_mem hi)
      simp only [List.get_eq_getElem,elementIdOffsets,arenaRef,List.getElem_map,List.getElem_range,
        Artifact.uint64_toNat harena,readDictionaryElement,hread,ok_bind]
      rw [decide_eq_false (Nat.not_le.mpr hid),failIf_false,ok_bind]
      rfl
  rw [readListRef,if_neg (by decide),if_neg (by decide),if_pos rfl,bne_self_eq_false,failIf_false,
    ok_bind,arenaRef_valid harena,ok_bind,helements]
  simp only [arenaRef,hbytes,bne_self_eq_false,failIf_false,ok_bind]
  rfl

theorem writeElementDictionaryStringListField_spec (ht : Target layout field row)
    (he : Extended row mid) (hlist : field.isList = true) (htype : field.type = .kString)
    (hencoding : field.encoding = .kElementDictionary) (harena : mid.arena.length ≤ uint64Max)
    {ids : List UInt32} (hcount : ids.length ≤ uint32Max)
    (hids : ∀ id ∈ ids, id.toNat < mid.stringElementDictionary.length) :
    ∃ row', writeElementDictionaryStringListField field ids mid = .ok row' ∧
      SameData { mid with arena := mid.arena++ids.flatMap toBytes } row' ∧
      Written layout field
        (.strings (ids.map fun id => mid.stringElementDictionary.getD id.toNat [])) row row' := by
  have he' : Extended row { mid with arena := mid.arena++ids.flatMap toBytes } :=
    ⟨he.schemaVersion,he.layoutFingerprint,he.rowSlot,
      he.grown.arena.trans (List.prefix_append _ _),he.grown.stringDictionary,
      he.grown.scalarListDictionary,he.grown.stringListDictionary,
      he.grown.stringElementDictionary⟩
  have hread : readRefValue field (arenaRef mid (ids.flatMap toBytes) (UInt32.ofNat ids.length))
      { mid with arena := mid.arena++ids.flatMap toBytes } =
      .ok (.strings (ids.map fun id => mid.stringElementDictionary.getD id.toNat [])) := by
    rw [readRefValue,hlist,if_pos rfl,htype,hencoding]
    exact readListRef_elements harena hcount hids
  obtain ⟨row',hwrite,hdata,hwritten⟩ := written_ref ht (ht.usesRef_list hlist) he' hread
  refine ⟨row',?_,hdata,hwritten⟩
  rw [writeElementDictionaryStringListField,hlist,htype,hencoding,bne_self_eq_false,
    bne_self_eq_false,Bool.not_true,Bool.or_self,Bool.or_self,failIf_false,ok_bind,
    decide_eq_false (Nat.not_lt.mpr hcount),failIf_false,ok_bind]
  exact hwrite

end Writers

end Model

/-- `Row::ScalarValue`. -/
inductive ScalarValue
  | int8 (v : Int8) | int32 (v : Int32) | int64 (v : Int64) | uint64 (v : UInt64) | bool (v : Bool)
  | string (v : Bytes)
  deriving DecidableEq

namespace ScalarValue

def value : ScalarValue → FieldValue
  | .int8 v => .int8 v
  | .int32 v => .int32 v
  | .int64 v => .int64 v
  | .uint64 v => .uint64 v
  | .bool v => .bool v
  | .string v => .string v

def type : ScalarValue → FieldType
  | .int8 _ => .kInt8
  | .int32 _ => .kInt32
  | .int64 _ => .kInt64
  | .uint64 _ => .kUInt64
  | .bool _ => .kBool
  | .string _ => .kString

end ScalarValue

/-- `Row::ListValue`. -/
inductive ListValue
  | int8s (v : List Int8) | int32s (v : List Int32) | int64s (v : List Int64)
  | uint64s (v : List UInt64) | bools (v : List Bool) | strings (v : List Bytes)
  deriving DecidableEq

namespace ListValue

def value : ListValue → FieldValue
  | .int8s v => .int8s v
  | .int32s v => .int32s v
  | .int64s v => .int64s v
  | .uint64s v => .uint64s v
  | .bools v => .bools v
  | .strings v => .strings v

def type : ListValue → FieldType
  | .int8s _ => .kInt8
  | .int32s _ => .kInt32
  | .int64s _ => .kInt64
  | .uint64s _ => .kUInt64
  | .bools _ => .kBool
  | .strings _ => .kString

def length (list : ListValue) : ℕ := list.value.elementCount

def bytes : ListValue → Bytes
  | .int8s v => Model.encodeScalarList v
  | .int32s v => Model.encodeScalarList v
  | .int64s v => Model.encodeScalarList v
  | .uint64s v => Model.encodeScalarList v
  | .bools v => Model.encodeScalarList v
  | .strings _ => []

theorem bytes_length {list : ListValue} (hstring : list.type ≠ .kString) :
    list.bytes.length = list.length*fieldTypeSize list.type := by
  cases list with
  | strings v => exact absurd rfl hstring
  | _ => exact Model.encodeScalarList_length _

theorem length_le_bytes {list : ListValue} (hstring : list.type ≠ .kString) :
    list.length ≤ list.bytes.length := by
  cases list with
  | strings v => exact absurd rfl hstring
  | _ => exact Model.length_le_encodeScalarList _

theorem decode {list : ListValue} (hstring : list.type ≠ .kString) {count : UInt32}
    (hcount : count.toNat = list.length) :
    Model.decodeScalarListByType list.type list.bytes count = .ok list.value := by
  cases list with
  | strings v => exact absurd rfl hstring
  | _ => exact Model.StoredType.readList _ hcount

end ListValue
end KvIndex
