import KvIndex.RowWrites

/-! The list writers of the model, on any row of a compiled layout. A list that goes to the
arena with `2^32` bytes or more is written with a shortened length and count, and only such a
list does not read back. The other fields read as before, but for those whose refs lead out of
the arena and are reached by the new bytes. -/
namespace KvIndex

open Base LittleEndian Schema CompiledRowLayout

namespace Model

/-- `WriteArenaListField<T>` for the element type of the list. -/
def writeArenaList (field : FieldLayout) (list : ListValue) (encoded : EncodedRow) :
    StatusOr EncodedRow :=
  match list with
  | .int8s v => writeArenaListField field v encoded
  | .int32s v => writeArenaListField field v encoded
  | .int64s v => writeArenaListField field v encoded
  | .uint64s v => writeArenaListField field v encoded
  | .bools v => writeArenaListField field v encoded
  | .strings _ => do
    failIf (!field.isList || field.encoding != .kArena || field.type != .kString)
      (.invalidArgument "arena list writer does not match field")
    .error (.invalidArgument "arena list<string> builder is not implemented")

inductive ListWrite
  | arena (list : ListValue)
  | elementDictionary (dictionaryIds : List UInt32)
  | listDictionary (dictionaryId elementCount : UInt32)

def ListWrite.run (field : FieldLayout) (encoded : EncodedRow) : ListWrite → StatusOr EncodedRow
  | .arena list => writeArenaList field list encoded
  | .elementDictionary ids => writeElementDictionaryStringListField field ids encoded
  | .listDictionary id count => writeListDictionaryField field id count encoded

/-- The list that a call writes: ids name strings of the element dictionary, and an id with a
count names an entry of the dictionary of lists. -/
inductive ListWrite.Writes (field : FieldLayout) (row : EncodedRow) : ListWrite → ListValue → Prop
  | arena (list : ListValue) : Writes field row (.arena list) list
  | elementDictionary (ids : List UInt32)
      (hids : ∀ id ∈ ids, id.toNat < row.stringElementDictionary.length) :
      Writes field row (.elementDictionary ids)
        (.strings (ids.map fun id => row.stringElementDictionary.getD id.toNat []))
  | stringEntry (id count : UInt32) (values : List Bytes) (htype : field.type = .kString)
      (hentry : row.stringListDictionary[id.toNat]? = some values)
      (hcount : count.toNat = values.length) :
      Writes field row (.listDictionary id count) (.strings values)
  | scalarEntry (id count : UInt32) (list : ListValue) (htype : field.type = list.type)
      (hstring : list.type ≠ .kString)
      (hentry : row.scalarListDictionary[id.toNat]? = some list.bytes)
      (hcount : count.toNat = list.length) :
      Writes field row (.listDictionary id count) list

/-- A list of scalars of `2^32` bytes or more on its way to the arena. -/
def ListWrite.Truncated (field : FieldLayout) : ListWrite → Prop
  | .arena list => field.encoding = .kArena ∧ field.type = list.type ∧ list.type ≠ .kString ∧
      2^32 ≤ list.length*fieldTypeSize list.type
  | _ => False

def ListWrite.appended : ListWrite → Bytes
  | .arena list => list.bytes
  | .elementDictionary ids => ids.flatMap toBytes
  | .listDictionary _ _ => []

/-- The failures of a read for a ref that leads out of the arena. -/
inductive OutOfArena : Status → Prop
  | refOffset : OutOfArena (.invalidArgument "value ref offset is out of bounds")
  | refLength : OutOfArena (.invalidArgument "value ref length is out of bounds")
  | access : OutOfArena (.invalidArgument "little-endian fixed-width access is out of bounds")

/-- A present field whose ref leads out of the arena, to where `bytes` would stand behind it. -/
structure ReachedBy (bytes : Bytes) (row : EncodedRow) (other : FieldLayout) : Prop where
  present : fieldPresent other row = true
  outside : ∃ status, readPresent other row = .error status ∧ OutOfArena status
  reached : readPresent other { row with arena := row.arena++bytes } ≠ readPresent other row

/-- The list is read from the new row, and every other id as from the old one. -/
structure ReadsBack (layout : CompiledRowLayout) (field : FieldLayout) (list : ListValue)
    (row row' : EncodedRow) : Prop where
  list : (⟨layout,row'⟩ : Row).readListValue field.fieldId field.type none = .ok list.value
  has : ∀ fieldId ≠ field.fieldId, (⟨layout,row'⟩ : Row).has fieldId = (⟨layout,row⟩ : Row).has fieldId
  scalars : ∀ fieldId ≠ field.fieldId, ∀ expectedType accessor,
    (⟨layout,row'⟩ : Row).readScalarValue fieldId expectedType accessor =
      (⟨layout,row⟩ : Row).readScalarValue fieldId expectedType accessor
  lists : ∀ fieldId ≠ field.fieldId, ∀ expectedType accessor,
    (⟨layout,row'⟩ : Row).readListValue fieldId expectedType accessor =
      (⟨layout,row⟩ : Row).readListValue fieldId expectedType accessor

/-- What every call leaves: `bytes` behind the arena, and the field present. -/
structure ListWritten (layout : CompiledRowLayout) (field : FieldLayout) (bytes : Bytes)
    (row row' : EncodedRow) : Prop extends Frame layout field row row' where
  data : SameData { row with arena := row.arena++bytes } row'
  present : fieldPresent field row' = true

theorem Outside.outOfArena {row row' : EncodedRow} {status : Status} {bytes : Bytes}
    (h : Outside row row' status) (hdata : SameData { row with arena := row.arena++bytes } row') :
    OutOfArena status := by
  cases h with
  | refOffset => exact .refOffset
  | refLength => exact .refLength
  | access => exact .access
  | stringId hne => exact absurd hdata.stringDictionary hne
  | scalarListId hne => exact absurd hdata.scalarListDictionary hne
  | stringListId hne => exact absurd hdata.stringListDictionary hne
  | elementId hne => exact absurd hdata.stringElementDictionary hne

/-- Only a call that puts bytes behind the arena reaches a field. -/
theorem ReachedBy.ne_nil {bytes : Bytes} {row : EncodedRow} {other : FieldLayout}
    (h : ReachedBy bytes row other) : bytes ≠ [] := by
  rintro rfl
  refine h.reached ?_
  rw [List.append_nil]

section Others

variable {layout : CompiledRowLayout} {field other : FieldLayout} {bytes : Bytes}
  {row row' : EncodedRow}

theorem ListWritten.readOther (h : ListWritten layout field bytes row row')
    (hformed : Formed layout) (hother : other ∈ layout.fields) (hne : other ≠ field) :
    readPresent other row' =
      readPresent other { row with arena := row.arena++bytes } :=
  readPresent_congr (hformed.shaped other hother) h.length (h.slots other hother hne) h.data

theorem ListWritten.readOther_of_unreached (h : ListWritten layout field bytes row row')
    (hformed : Formed layout) (hother : other ∈ layout.fields) (hne : other ≠ field)
    (hpresent : fieldPresent other row = true) (hreached : ¬ ReachedBy bytes row other) :
    readPresent other row' = readPresent other row := by
  rcases h.toFrame.readPresent hformed hother hne with hsame | ⟨status,herror,houtside⟩
  · exact hsame
  · rw [h.readOther hformed hother hne]
    by_contra hchanged
    exact hreached ⟨hpresent,⟨status,herror,houtside.outOfArena h.data⟩,hchanged⟩

/-- The reads of the other ids are as before if and only if none of their fields is reached. -/
theorem ListWritten.others_iff (h : ListWritten layout field bytes row row')
    (hformed : Formed layout) (hrow : Matches layout row) :
    (∀ fieldId ≠ field.fieldId, ∀ expectedType accessor,
      (⟨layout,row'⟩ : Row).readScalarValue fieldId expectedType accessor =
          (⟨layout,row⟩ : Row).readScalarValue fieldId expectedType accessor ∧
        (⟨layout,row'⟩ : Row).readListValue fieldId expectedType accessor =
          (⟨layout,row⟩ : Row).readListValue fieldId expectedType accessor) ↔
      ∀ fieldId ≠ field.fieldId, ∀ other, layout.findField fieldId = some other →
        ¬ ReachedBy bytes row other := by
  constructor
  · intro hsame fieldId hne other hfound hreached
    obtain ⟨hmem,hother⟩ := other_of_findField hne hfound
    obtain ⟨hscalar,hlist⟩ := hsame fieldId hne other.type none
    have hid := (mem_of_findField hfound).2
    rw [← hid] at hfound hscalar hlist
    have hrow' : Matches layout row' :=
      ⟨h.schemaVersion.trans hrow.1,h.layoutFingerprint.trans hrow.2⟩
    have hpresent' := h.bits other hmem hother
    rw [hreached.present] at hpresent'
    refine hreached.reached ?_
    rw [← h.readOther hformed hmem hother,readPresent,readPresent]
    cases hkind : other.isList with
    | false =>
      have hnew := @Row.readScalarValue_of_found ⟨layout,row'⟩ other hrow' hfound hkind
      have hold := @Row.readScalarValue_of_found ⟨layout,row⟩ other hrow hfound hkind
      rw [if_pos hpresent'] at hnew
      rw [if_pos hreached.present] at hold
      exact (hnew.symm.trans hscalar).trans hold
    | true =>
      have hnew := @Row.readListValue_of_found ⟨layout,row'⟩ other hrow' hfound hkind
      have hold := @Row.readListValue_of_found ⟨layout,row⟩ other hrow hfound hkind
      rw [if_pos hpresent'] at hnew
      rw [if_pos hreached.present] at hold
      exact (hnew.symm.trans hlist).trans hold
  · intro hreached fieldId hne
    refine h.read hne fun other hfound hpresent => ?_
    obtain ⟨hmem,hother⟩ := other_of_findField hne hfound
    exact h.readOther_of_unreached hformed hmem hother hpresent (hreached fieldId hne other hfound)

end Others

section Lists

variable {layout : CompiledRowLayout} {field : FieldLayout} {row row' : EncodedRow}

theorem SameData.append_nil (h : SameData row row') :
    SameData { row with arena := row.arena++[] } row' := by
  rw [List.append_nil]
  exact h

theorem Written.listWritten {value : FieldValue} {bytes : Bytes}
    (h : Written layout field value row row')
    (hdata : SameData { row with arena := row.arena++bytes } row') :
    ListWritten layout field bytes row row' := ⟨h.toFrame,hdata,h.present⟩

/-- The field itself reads back if its present value is the list. -/
theorem ListWritten.list_iff {bytes : Bytes} {list : ListValue}
    (h : ListWritten layout field bytes row row')
    (hfield : layout.findField field.fieldId = some field) (hlist : field.isList = true)
    (hrow : Matches layout row) :
    (⟨layout,row'⟩ : Row).readListValue field.fieldId field.type none = .ok list.value ↔
      readPresent field row' = .ok list.value := by
  have hrow' : Matches layout row' :=
    ⟨h.schemaVersion.trans hrow.1,h.layoutFingerprint.trans hrow.2⟩
  have hread := @Row.readListValue_of_found ⟨layout,row'⟩ field hrow' hfield hlist
  rw [if_pos h.present] at hread
  rw [hread,readPresent,hlist,if_pos rfl]

theorem writeListDictionaryField_matches {id count : UInt32}
    (h : writeListDictionaryField field id count row = .ok row') :
    field.encoding = .kListDictionary := by
  simp only [writeListDictionaryField,bind_eq_ok,failIf_eq_ok,exists_const,Bool.or_eq_false_iff,
    bne_eq_false_iff_eq] at h
  exact h.1.2

theorem writeArenaList_eq {list : ListValue} (hlist : field.isList = true)
    (hencoding : field.encoding = .kArena) (htype : field.type = list.type)
    (hstring : list.type ≠ .kString) (harena : row.arena.length ≤ uint64Max) :
    writeArenaList field list row =
      writeArenaBytes field list.bytes (UInt32.ofNat list.length) row := by
  cases list with
  | strings v => exact absurd rfl hstring
  | _ => exact writeArenaListField_eq hlist hencoding htype harena

/-- The arena writer takes a list of scalars of the type of an arena field only. -/
theorem writeArenaList_matches {list : ListValue} (h : writeArenaList field list row = .ok row') :
    field.encoding = .kArena ∧ field.type = list.type ∧ list.type ≠ .kString := by
  cases list with
  | strings v =>
    simp only [writeArenaList,bind_eq_ok,reduceCtorEq,and_false,exists_const] at h
  | _ =>
    obtain ⟨hencoding,htype⟩ := writeArenaListField_matches h
    exact ⟨hencoding,htype,by simp [ListValue.type]⟩

/-- A list whose bytes have a 32-bit length is written as a whole. -/
theorem arena_written (ht : Target layout field row) (hlist : field.isList = true)
    {list : ListValue} (hencoding : field.encoding = .kArena) (htype : field.type = list.type)
    (hstring : list.type ≠ .kString) (harena : row.arena.length ≤ uint64Max)
    (hbytes : list.bytes.length ≤ uint32Max) :
    ∃ row', writeArenaList field list row = .ok row' ∧
      SameData { row with arena := row.arena++list.bytes } row' ∧
      Written layout field list.value row row' := by
  have hcount := Artifact.uint32_toNat ((ListValue.length_le_bytes hstring).trans hbytes)
  have hread : readRefValue field (arenaRef row list.bytes (UInt32.ofNat list.length))
      { row with arena := row.arena++list.bytes } = .ok list.value := by
    rw [readRefValue,hlist,if_pos rfl,hencoding,htype,
      readListRef_arenaBytes hstring harena hbytes,ListValue.decode hstring hcount]
  obtain ⟨row',hwrite,hdata,hwritten⟩ := writeArenaBytes_spec ht (ht.usesRef_list hlist) hread
  refine ⟨row',?_,hdata,hwritten⟩
  rw [writeArenaList_eq hlist hencoding htype hstring harena,hwrite]

/-- A longer list is written with the low 32 bits of its length, and its own value never comes
back. -/
theorem arena_truncated (ht : Target layout field row) (hlist : field.isList = true)
    {list : ListValue} (hencoding : field.encoding = .kArena) (htype : field.type = list.type)
    (hstring : list.type ≠ .kString) (harena : row.arena.length ≤ uint64Max)
    (hbytes : 2^32 ≤ list.bytes.length) :
    ∃ row', writeArenaList field list row = .ok row' ∧
      ListWritten layout field list.bytes row row' ∧
      readPresent field row' = decodeScalarListByType list.type
        (refBytes (arenaRef row list.bytes (UInt32.ofNat list.length)) (row.arena++list.bytes))
        (UInt32.ofNat list.length) ∧
      readPresent field row' ≠ .ok list.value := by
  have he := Extended.arena row list.bytes
  obtain ⟨row',hwrite,hwritten,href⟩ := writeValueRefField_spec (he.target ht)
    (ht.usesRef_list hlist) (arenaRef row list.bytes (UInt32.ofNat list.length))
  have hread : readPresent field row' = decodeScalarListByType list.type
      (refBytes (arenaRef row list.bytes (UInt32.ofNat list.length)) (row.arena++list.bytes))
      (UInt32.ofNat list.length) := by
    rw [readPresent_of_ref (ht.formed.shaped field ht.mem) (ht.usesRef_list hlist) href,
      readRefValue_congr hwritten.data,readRefValue,hlist,if_pos rfl,hencoding,htype,readListRef,
      if_pos rfl,arenaRef_valid harena,ok_bind,if_neg hstring]
    rfl
  refine ⟨row',?_,⟨hwritten.frame he,hwritten.data,hwritten.present⟩,hread,?_⟩
  · rw [writeArenaList_eq hlist hencoding htype hstring harena]
    exact hwrite
  · intro hvalue
    rw [hread] at hvalue
    have hlength := (decodeScalarListByType_count hvalue).1
    rw [refBytes,slice_length] at hlength
    have hexact : list.bytes.length = list.value.elementCount*fieldTypeSize list.type :=
      ListValue.bytes_length hstring
    have hshort := (arenaRef row list.bytes (UInt32.ofNat list.length)).byteLength.toNat_lt
    omega

/-- Every call that a writer takes, and when the field then holds the list. -/
theorem ListWrite.run_spec (ht : Target layout field row) (hlist : field.isList = true)
    (harena : row.arena.length ≤ uint64Max) {write : ListWrite} {list : ListValue}
    (hwrites : write.Writes field row list) (hrun : write.run field row = .ok row') :
    ListWritten layout field write.appended row row' ∧
      (readPresent field row' = .ok list.value ↔ ¬ write.Truncated field) := by
  cases hwrites with
  | arena list =>
    obtain ⟨hencoding,htype,hstring⟩ := writeArenaList_matches hrun
    have hbytes := ListValue.bytes_length hstring
    by_cases hlong : 2^32 ≤ list.bytes.length
    · obtain ⟨made,hmade,hwritten,-,hne⟩ :=
        arena_truncated ht hlist hencoding htype hstring harena hlong
      obtain rfl : made = row' := Except.ok.inj (hmade.symm.trans hrun)
      rw [hbytes] at hlong
      exact ⟨hwritten,iff_of_false hne fun hshort => hshort ⟨hencoding,htype,hstring,hlong⟩⟩
    · obtain ⟨made,hmade,hdata,hwritten⟩ := arena_written ht hlist hencoding htype hstring harena
        (by rw [uint32Max]; omega)
      obtain rfl : made = row' := Except.ok.inj (hmade.symm.trans hrun)
      rw [hbytes] at hlong
      exact ⟨hwritten.listWritten hdata,iff_of_true hwritten.reads fun htruncated =>
        hlong htruncated.2.2.2⟩
  | elementDictionary ids hids =>
    have hchecks := hrun
    simp only [ListWrite.run,writeElementDictionaryStringListField,bind_eq_ok,failIf_eq_ok,
      exists_const,Bool.or_eq_false_iff,bne_eq_false_iff_eq,decide_eq_false_iff_not,
      Nat.not_lt] at hchecks
    obtain ⟨⟨⟨-,htype⟩,hencoding⟩,hcount,-⟩ := hchecks
    obtain ⟨made,hmade,hdata,hwritten⟩ := writeElementDictionaryStringListField_spec ht
      (Extended.refl row) hlist htype hencoding harena hcount hids
    obtain rfl : made = row' := Except.ok.inj (hmade.symm.trans hrun)
    exact ⟨hwritten.listWritten hdata,iff_of_true hwritten.reads id⟩
  | stringEntry id count values htype hentry hcount =>
    have hread := readListRef_stringEntry hentry hcount
    rw [← htype] at hread
    obtain ⟨made,hmade,hdata,hwritten⟩ := writeListDictionaryField_spec ht (Extended.refl row) hlist
      (writeListDictionaryField_matches hrun) hread
    obtain rfl : made = row' := Except.ok.inj (hmade.symm.trans hrun)
    exact ⟨hwritten.listWritten hdata.append_nil,iff_of_true hwritten.reads fun h => h⟩
  | scalarEntry id count list htype hstring hentry hcount =>
    have hread : readListRef field.type .kListDictionary ⟨id.toUInt64,0,count⟩ row =
        .ok list.value := by
      rw [htype,readListRef_scalarEntry hstring hentry,ListValue.decode hstring hcount]
    obtain ⟨made,hmade,hdata,hwritten⟩ := writeListDictionaryField_spec ht (Extended.refl row) hlist
      (writeListDictionaryField_matches hrun) hread
    obtain rfl : made = row' := Except.ok.inj (hmade.symm.trans hrun)
    exact ⟨hwritten.listWritten hdata.append_nil,iff_of_true hwritten.reads fun h => h⟩

end Lists

def weightsSpec : FieldSpec where
  fieldId := 1
  name := [119]
  type := .kInt8
  isList := true
  encoding := .kArena

def weightsSchema : RuntimeSchema := { version := 1,activeFields := [weightsSpec] }

def weightsField : FieldLayout where
  fieldId := 1
  name := [119]
  type := .kInt8
  isList := true
  encoding := .kArena
  slotOffset := 8
  valueWidth := 16
  usesRef := true

def weightsRow : EncodedRow := createEncodedRow (compile weightsSchema)

theorem weights_findField : (compile weightsSchema).findField 1 = some weightsField := by decide

def scoresSpec : FieldSpec where
  fieldId := 2
  name := [115]
  type := .kInt8
  isList := true
  encoding := .kArena

def scoresSchema : RuntimeSchema := { version := 1,activeFields := [weightsSpec,scoresSpec] }

def scoresField : FieldLayout where
  fieldId := 2
  name := [115]
  type := .kInt8
  isList := true
  encoding := .kArena
  slotOffset := 24
  valueWidth := 16
  usesRef := true
  presenceBitIndex := 1

/-- The weights are absent, and the scores are the byte at the front of the arena. -/
def scoresRow : EncodedRow where
  schemaVersion := (compile scoresSchema).schemaVersion
  layoutFingerprint := (compile scoresSchema).layoutFingerprint
  rowSlot := [2,0,0,0,0,0,0,0]++List.replicate 16 0++valueRefBytes ⟨0,1,1⟩
  arena := [9]

def staleRow : EncodedRow := { scoresRow with arena := [] }

theorem scores_fields : (compile scoresSchema).fields = [weightsField,scoresField] := by
  decide +kernel

theorem scores_findField {fieldId : FieldId} {other : FieldLayout} (hne : fieldId ≠ 1)
    (h : (compile scoresSchema).findField fieldId = some other) : other = scoresField := by
  obtain ⟨hmem,hid⟩ := mem_of_findField h
  rw [scores_fields,List.mem_cons,List.mem_singleton] at hmem
  rcases hmem with rfl | rfl
  · exact absurd hid.symm hne
  · rfl

theorem weights_written {row : EncodedRow} (hsize : row.rowSlot.length = 40)
    (harena : row.arena.length ≤ uint64Max) :
    ∃ row', (ListWrite.arena (.int8s [3,4])).run weightsField row = .ok row' := by
  have ht : Target (compile scoresSchema) weightsField row :=
    ⟨compile_formed scoresSchema,by rw [scores_fields]; exact List.mem_cons_self,
      by rw [hsize]; decide +kernel⟩
  obtain ⟨row',hrun,-⟩ := @arena_written _ _ _ ht rfl (.int8s [3,4]) rfl rfl (by decide) harena
    (by decide)
  exact ⟨row',hrun⟩

/-- A list of `2^32` bytes is written with the length and the count zero. -/
theorem longList_read {values : List Int8} (hvalues : values.length = 2^32) :
    ∃ row', (ListWrite.arena (.int8s values)).run weightsField weightsRow = .ok row' ∧
      (⟨compile weightsSchema,row'⟩ : Row).readListValue 1 .kInt8 none = .ok (.int8s []) := by
  have ht : Target (compile weightsSchema) weightsField weightsRow :=
    ⟨compile_formed weightsSchema,(mem_of_findField weights_findField).1,by decide⟩
  have hlength : (ListValue.int8s values).bytes.length = 2^32 := by
    rw [ListValue.bytes_length (by simp [ListValue.type])]
    show values.length*1 = 2^32
    rw [hvalues,Nat.mul_one]
  obtain ⟨row',hwrite,hwritten,hread,-⟩ := @arena_truncated _ _ _ ht rfl (.int8s values) rfl
    rfl (by simp [ListValue.type]) (by decide) (le_of_eq hlength.symm)
  have hfound := @Row.readListValue_of_found ⟨compile weightsSchema,row'⟩ weightsField
    ⟨hwritten.schemaVersion,hwritten.layoutFingerprint⟩ weights_findField rfl
  have hempty : refBytes (arenaRef weightsRow (ListValue.int8s values).bytes
      (UInt32.ofNat (ListValue.int8s values).length))
      (weightsRow.arena++(ListValue.int8s values).bytes) = [] := by
    rw [refBytes,arenaRef,hlength]
    rfl
  have hcount : UInt32.ofNat (ListValue.int8s values).length = 0 := by
    show UInt32.ofNat values.length = 0
    rw [hvalues]
    rfl
  refine ⟨row',hwrite,hfound.trans ?_⟩
  rw [if_pos hwritten.present]
  rw [hempty,hcount] at hread
  exact hread

end Model
end KvIndex
