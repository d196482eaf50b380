import KvIndex.FieldWrites

/-! The row that `EncodeForLayout` makes of a decoded payload. -/
namespace KvIndex
namespace Ingest

open Base LittleEndian Schema CompiledRowLayout Model

/-- The strings of a list behind a table of refs: every ref of the table leads to its string,
and outside of the table the arena only grows. -/
theorem stringElements_spec {refsOffset : ℕ} {elements : List (ℕ×Bytes)} {arena : Bytes}
    (htable : ∀ e ∈ elements, refsOffset+e.1*16+16 ≤ arena.length)
    (hlengths : ∀ e ∈ elements, e.2.length ≤ uint32Max) :
    ∃ arena', elements.foldlM (writeStringListElement refsOffset) arena = .ok arena' ∧
      arena'.length = arena.length+(elements.map fun e => e.2.length).sum ∧
      (∀ p < arena.length, (∀ e ∈ elements, p < refsOffset+e.1*16 ∨ refsOffset+e.1*16+16 ≤ p) →
        arena'[p]? = arena[p]?) ∧
      (elements.Pairwise (fun e f => e.1 ≠ f.1) → arena'.length ≤ uint64Max →
        ∀ e ∈ elements, readArenaString arena' (refsOffset+e.1*16) = .ok e.2) := by
  induction elements generalizing arena with
  | nil => exact ⟨arena,rfl,by simp,fun _ _ _ => rfl,by simp⟩
  | cons e elements ih =>
    have hwindow := htable e List.mem_cons_self
    have hlength := hlengths e List.mem_cons_self
    let ref : ValueRef16 := ⟨UInt64.ofNat arena.length,UInt32.ofNat e.2.length,0⟩
    have hinside : refsOffset+e.1*16+16 ≤ (arena++e.2).length := by
      rw [List.length_append]
      omega
    let middle := splice (arena++e.2) (refsOffset+e.1*16) (valueRefBytes ref)
    have hstep : writeStringListElement refsOffset arena e = .ok middle := by
      rw [writeStringListElement,decide_eq_false (Nat.not_lt.mpr hlength),failIf_false,ok_bind,
        writeValueRef16_of_le _ hinside]
    have hspliced : refsOffset+e.1*16+(valueRefBytes ref).length ≤ (arena++e.2).length := by
      rw [valueRefBytes_length]
      exact hinside
    have hmiddle : middle.length = arena.length+e.2.length := by
      rw [splice_length _ _ _ hspliced,List.length_append]
    obtain ⟨arena',hrest,hsize,hkept,hread⟩ := @ih middle
      (fun f hf => by
        have hf := htable f (List.mem_cons_of_mem e hf)
        omega)
      (fun f hf => hlengths f (List.mem_cons_of_mem e hf))
    refine ⟨arena',by rw [List.foldlM_cons,hstep,ok_bind,hrest],?_,?_,?_⟩
    · rw [hsize,hmiddle,List.map_cons,List.sum_cons]
      omega
    · intro p hp hout
      have hfirst := hout e List.mem_cons_self
      rw [hkept p (by omega) fun f hf => hout f (List.mem_cons_of_mem e hf),
        splice_getElem?_outside _ _ _ p hspliced (by rw [valueRefBytes_length]; exact hfirst),
        List.getElem?_append_left hp]
    · intro hdistinct hbound f hf
      obtain ⟨hnew,hdistinct⟩ := List.pairwise_cons.mp hdistinct
      rcases List.mem_cons.mp hf with rfl | hf
      · -- The later refs are at other places of the table, the later strings behind this one.
        have hwindowKept : slice arena' (refsOffset+f.1*16) 16 = valueRefBytes ref := by
          have hsame : slice arena' (refsOffset+f.1*16) 16 = slice middle (refsOffset+f.1*16) 16 := by
            refine slice_congr fun i hi => hkept _ (by omega) fun g hg => ?_
            have hne := hnew g hg
            omega
          have hwritten := slice_splice_same (arena++f.2) (refsOffset+f.1*16) (valueRefBytes ref)
            hspliced
          rw [valueRefBytes_length] at hwritten
          exact hsame.trans hwritten
        have hstringKept : slice arena' arena.length f.2.length = f.2 := by
          have hsame : slice arena' arena.length f.2.length = slice (arena++f.2) arena.length
              f.2.length := by
            refine slice_congr fun i hi => ?_
            rw [hkept _ (by omega) fun g hg => by
                have hg := htable g (List.mem_cons_of_mem f hg)
                omega,
              splice_getElem?_outside _ _ _ _ hspliced (by rw [valueRefBytes_length]; omega)]
          rw [hsame]
          simpa only [List.append_nil] using slice_middle arena f.2 []
        have hoffset : ref.offset.toNat = arena.length := Artifact.uint64_toNat (by omega)
        have hcount : ref.byteLength.toNat = f.2.length := Artifact.uint32_toNat hlength
        have hvalid : validateRefBounds ref arena'.length = .ok () :=
          validateRefBounds_eq_ok.mpr (by rw [hoffset,hcount]; omega)
        rw [readArenaString,decodeValueRef16_of_le (by omega),hwindowKept,refOfBytes_valueRefBytes,
          ok_bind,hvalid,ok_bind,refBytes,hoffset,hcount,hstringKept]
        rfl
      · exact hread hdistinct hbound f hf

/-- The write of one decoded value, as the loop of `EncodeForLayout` does it. -/
def writeFieldValue (field : FieldLayout) (value : DecodedValue) (encoded : EncodedRow) :
    StatusOr EncodedRow :=
  if field.isList then writeListFieldValue field value encoded
  else writeScalarFieldValue field value encoded

section Values

variable {layout : CompiledRowLayout} {field : FieldLayout} {row row' : EncodedRow}

theorem map_mapIdx_snd {α : Type} (values : List α) : (values.mapIdx Prod.mk).map Prod.snd = values := by
  refine List.ext_getElem? fun i => ?_
  rw [List.getElem?_map,List.getElem?_mapIdx,Option.map_map]
  cases values[i]? with
  | none => rfl
  | some v => rfl

/-- The arena of a list of strings: the table of refs, then the strings. -/
theorem writeStringList_spec {values : List Bytes} (hlengths : ∀ v ∈ values, v.length ≤ uint32Max) :
    ∃ arena, (values.mapIdx Prod.mk).foldlM (writeStringListElement row.arena.length)
        (row.arena++List.replicate (values.length*16) 0) = .ok arena ∧
      arena.length = row.arena.length+(values.length*16+(values.map List.length).sum) ∧
      row.arena <+: arena ∧
      (arena.length ≤ uint64Max → ∀ i (hi : i < values.length),
        readArenaString arena (row.arena.length+i*16) = .ok values[i]) := by
  have hmem : ∀ e ∈ values.mapIdx Prod.mk, ∃ hi : e.1 < values.length, e.2 = values[e.1] := by
    intro e he
    obtain ⟨i,hi,rfl⟩ := List.mem_mapIdx.mp he
    exact ⟨hi,rfl⟩
  have hlength : (row.arena++List.replicate (values.length*16) (0 : UInt8)).length =
      row.arena.length+values.length*16 := by
    rw [List.length_append,List.length_replicate]
  obtain ⟨arena,hfold,hsize,hkept,hread⟩ := @stringElements_spec row.arena.length (values.mapIdx Prod.mk)
    (row.arena++List.replicate (values.length*16) 0)
    (fun e he => by
      obtain ⟨hi,-⟩ := hmem e he
      rw [hlength]
      omega)
    (fun e he => by
      obtain ⟨hi,hvalue⟩ := hmem e he
      rw [hvalue]
      exact hlengths _ (List.getElem_mem hi))
  refine ⟨arena,hfold,?_,?_,?_⟩
  · have hstrings : (values.mapIdx Prod.mk).map (fun e => e.2.length) = values.map List.length := by
      conv_rhs => rw [← map_mapIdx_snd values,List.map_map]
      rfl
    rw [hsize,hlength,hstrings,Nat.add_assoc]
  · refine List.prefix_iff_getElem?.mpr fun p hp => ?_
    rw [hkept p (by rw [hlength]; omega) (fun e he => Or.inl (by omega)),
      List.getElem?_append_left hp,List.getElem?_eq_getElem hp]
  · intro hbound i hi
    have hpairwise : (values.mapIdx Prod.mk).Pairwise fun e f => e.1 ≠ f.1 := by
      refine List.pairwise_iff_getElem.mpr fun i j hi hj hlt => ?_
      rw [List.getElem_mapIdx,List.getElem_mapIdx]
      exact Nat.ne_of_lt hlt
    exact hread hpairwise hbound (i,values[i]) (List.mem_mapIdx.mpr ⟨i,hi,rfl⟩)

theorem readListRef_strings {values : List Bytes} {arena : Bytes}
    (hcount : values.length*16 ≤ uint32Max) (hoffset : row.arena.length ≤ uint64Max)
    (htable : row.arena.length+values.length*16 ≤ arena.length)
    (hread : ∀ i (hi : i < values.length),
      readArenaString arena (row.arena.length+i*16) = .ok values[i]) :
    readListRef .kString .kArena ⟨UInt64.ofNat row.arena.length,UInt32.ofNat (values.length*16),
      UInt32.ofNat values.length⟩ { row with arena } = .ok (.strings values) := by
  have hlength : values.length ≤ uint32Max := by omega
  have hvalid : validateRefBounds ⟨UInt64.ofNat row.arena.length,UInt32.ofNat (values.length*16),
      UInt32.ofNat values.length⟩ arena.length = .ok () := by
    refine validateRefBounds_eq_ok.mpr ?_
    rw [Artifact.uint64_toNat hoffset,Artifact.uint32_toNat hcount]
    exact htable
  have hvalues : (elementRefOffsets ⟨UInt64.ofNat row.arena.length,UInt32.ofNat (values.length*16),
      UInt32.ofNat values.length⟩).mapM (readArenaString arena) = .ok values := by
    refine mapM_eq_ok.mpr (List.forall₂_iff_get.mpr ⟨?_,?_⟩)
    · rw [elementRefOffsets,Artifact.uint32_toNat hlength,List.length_map,List.length_range]
    · intro i _ hi
      have hsmall : i*16%2^32 = i*16 := by
        rw [uint32Max] at hcount
        exact Nat.mod_eq_of_lt (by omega)
      simp only [List.get_eq_getElem,elementRefOffsets,List.getElem_map,List.getElem_range,hsmall,
        Artifact.uint64_toNat hoffset]
      exact hread i hi
  simp only [readListRef,decodeArenaStringList,if_true,hvalid,ok_bind,hvalues,
    Artifact.uint32_toNat hcount,Artifact.uint32_toNat hlength,bne_self_eq_false,failIf_false]
  rfl

theorem encodeBoolListBytes_eq {values : List Bool} (h : values.length ≤ uint32Max) :
    encodeBoolListBytes values = .ok (encodeScalarList values) := by
  rw [encodeBoolListBytes,decide_eq_false (Nat.not_lt.mpr h),failIf_false,ok_bind,encodeScalarList,
    List.map_eq_flatMap]
  rfl

/-- The arena with the bytes of a list of scalars at its end. -/
def ArenaWrite (field : FieldLayout) (bytes : Bytes) (count : ℕ) (row row' : EncodedRow) : Prop :=
  field.encoding = .kArena ∧ writeArenaBytes field bytes (UInt32.ofNat count) row = .ok row'

/-- The bytes of a list of scalars as a new entry of the dictionary. -/
def EntryWrite (field : FieldLayout) (bytes : Bytes) (count : ℕ) (row row' : EncodedRow) : Prop :=
  field.encoding = .kListDictionary ∧ row.scalarListDictionary.length ≤ uint32Max ∧
    writeListDictionaryField field (UInt32.ofNat row.scalarListDictionary.length)
      (UInt32.ofNat count)
      { row with scalarListDictionary := row.scalarListDictionary++[bytes] } = .ok row'

theorem writeListDictionaryBytes_eq_ok {message : String} {count : ℕ} {bytes : Bytes}
    (hcount : count ≤ uint32Max) (hencoding : field.encoding = .kListDictionary) :
    writeListDictionaryBytes field message count bytes row = .ok row' ↔
      EntryWrite field bytes count row row' := by
  simp only [writeListDictionaryBytes,writeDictionaryEntry,bind_eq_ok,failIf_eq_ok,exists_const,
    Bool.or_eq_false_iff,decide_eq_false_iff_not,Nat.not_lt,EntryWrite]
  constructor
  · rintro ⟨⟨-,hdictionary⟩,hwrite⟩
    exact ⟨hencoding,hdictionary,hwrite⟩
  · rintro ⟨-,hdictionary,hwrite⟩
    exact ⟨⟨hcount,hdictionary⟩,hwrite⟩

theorem writeScalarListValue_eq_ok {T : Type} [FieldCppType T] {values : List T}
    (hcount : values.length ≤ uint32Max) (hlist : field.isList = true)
    (htype : field.type = FieldCppType.fieldType T) (harena : row.arena.length ≤ uint64Max) :
    writeScalarListValue field values row = .ok row' ↔
      ArenaWrite field (encodeScalarList values) values.length row row' ∨
        EntryWrite field (encodeScalarList values) values.length row row' := by
  rw [writeScalarListValue]
  by_cases hencoding : field.encoding = .kArena
  · rw [if_pos hencoding,writeArenaListField_eq hlist hencoding htype harena]
    simp [ArenaWrite,EntryWrite,hencoding]
  · rw [if_neg hencoding]
    by_cases hentry : field.encoding = .kListDictionary
    · rw [if_pos hentry,writeListDictionaryBytes_eq_ok hcount hentry]
      simp [ArenaWrite,hencoding]
    · rw [if_neg hentry]
      simp [ArenaWrite,EntryWrite,hencoding,hentry,encodingUnsupported]

theorem writeBoolListValue_eq_ok {values : List Bool} (hcount : values.length ≤ uint32Max)
    (hlist : field.isList = true) (htype : field.type = .kBool) :
    writeBoolListValue field values row = .ok row' ↔
      ArenaWrite field (encodeScalarList values) values.length row row' ∨
        EntryWrite field (encodeScalarList values) values.length row row' := by
  rw [writeBoolListValue]
  by_cases hencoding : field.encoding = .kArena
  · rw [if_pos hencoding,writeArenaBoolListField,hlist,htype,hencoding,bne_self_eq_false,
      bne_self_eq_false,Bool.not_true,Bool.or_self,Bool.or_self,failIf_false,ok_bind,
      encodeBoolListBytes_eq hcount,ok_bind]
    simp [ArenaWrite,EntryWrite,hencoding]
  · rw [if_neg hencoding]
    by_cases hentry : field.encoding = .kListDictionary
    · rw [if_pos hentry,encodeBoolListBytes_eq hcount,ok_bind,
        writeListDictionaryBytes_eq_ok hcount hentry]
      simp [ArenaWrite,hencoding]
    · rw [if_neg hentry]
      simp [ArenaWrite,EntryWrite,hencoding,hentry,encodingUnsupported]

theorem writeListFieldValue_scalars {list : ListValue} (hstring : list.type ≠ .kString)
    (hcount : list.length ≤ uint32Max) (hlist : field.isList = true)
    (htype : field.type = list.type) (harena : row.arena.length ≤ uint64Max) :
    writeListFieldValue field list.value row = .ok row' ↔
      ArenaWrite field list.bytes list.length row row' ∨
        EntryWrite field list.bytes list.length row row' := by
  cases list with
  | strings v => exact absurd rfl hstring
  | bools v =>
    unfold writeListFieldValue
    rw [hlist,htype,Bool.not_true,failIf_false,ok_bind]
    exact writeBoolListValue_eq_ok hcount hlist htype
  | _ =>
    unfold writeListFieldValue
    rw [hlist,htype,Bool.not_true,failIf_false,ok_bind]
    exact writeScalarListValue_eq_ok hcount hlist htype harena

/-- The ids of the strings of a list are those behind the old entries. -/
theorem internStrings_eq_ok {dictionary last values : List Bytes} {ids : List UInt32} :
    internStrings dictionary values = .ok (last,ids) ↔
      (values = [] ∨ dictionary.length+values.length ≤ 2^32) ∧ last = dictionary++values ∧
        ids = (List.range values.length).map fun i => UInt32.ofNat (dictionary.length+i) := by
  induction values generalizing dictionary last ids with
  | nil => simp [internStrings,eq_comm]
  | cons value values ih =>
    have hrange : (List.range (value::values).length).map (fun i =>
        UInt32.ofNat (dictionary.length+i)) = UInt32.ofNat dictionary.length::
        (List.range values.length).map fun i => UInt32.ofNat ((dictionary++[value]).length+i) := by
      rw [List.length_cons,List.range_succ_eq_map,List.map_cons,List.map_map,Nat.add_zero]
      congr 1
      refine List.map_congr_left fun i _ => ?_
      show UInt32.ofNat (dictionary.length+(i+1)) = _
      rw [List.length_append,List.length_singleton,Nat.add_assoc,Nat.add_comm 1 i]
    simp only [internStrings,bind_eq_ok,failIf_eq_ok,exists_const,decide_eq_false_iff_not,
      Nat.not_lt,Prod.exists,ih,pure_eq_ok,Except.ok.injEq,Prod.mk.injEq,hrange]
    constructor
    · rintro ⟨hroom,_,_,⟨hrest,rfl,rfl⟩,rfl,rfl⟩
      refine ⟨Or.inr ?_,by rw [List.append_assoc]; rfl,rfl⟩
      rw [uint32Max] at hroom
      rcases hrest with rfl | hrest
      · rw [List.length_singleton]
        omega
      · rw [List.length_append,List.length_singleton] at hrest
        rw [List.length_cons]
        omega
    · rintro ⟨hroom,rfl,rfl⟩
      rcases hroom with hnil | hroom
      · cases hnil
      · rw [List.length_cons] at hroom
        rw [uint32Max]
        refine ⟨by omega,_,_,⟨Or.inr ?_,rfl,rfl⟩,by rw [List.append_assoc]; rfl,rfl⟩
        rw [List.length_append,List.length_singleton]
        omega

theorem interned_strings {dictionary values : List Bytes}
    (hroom : values = [] ∨ dictionary.length+values.length ≤ 2^32) :
    (∀ id ∈ (List.range values.length).map (fun i => UInt32.ofNat (dictionary.length+i)),
      id.toNat < (dictionary++values).length) ∧
    ((List.range values.length).map fun i => UInt32.ofNat (dictionary.length+i)).map
      (fun id => (dictionary++values).getD id.toNat []) = values := by
  have hid : ∀ i < values.length, (UInt32.ofNat (dictionary.length+i)).toNat =
      dictionary.length+i := by
    intro i hi
    rcases hroom with rfl | hroom
    · cases hi
    · exact Artifact.uint32_toNat (by rw [uint32Max]; omega)
  constructor
  · intro id hmem
    obtain ⟨i,hi,rfl⟩ := List.mem_map.mp hmem
    rw [List.mem_range] at hi
    rw [hid i hi,List.length_append]
    omega
  · refine List.ext_getElem (by simp) fun i hi hi' => ?_
    simp only [List.getElem_map,List.getElem_range]
    rw [hid i hi',List.getD_eq_getElem?_getD,List.getElem?_append_right (by omega),
      Nat.add_sub_cancel_left,List.getElem?_eq_getElem hi',Option.getD_some]

theorem typed_of_writeListFieldValue {value : DecodedValue}
    (h : writeListFieldValue field value row = .ok row') :
    ∃ list : ListValue, field.type = list.type ∧ value = list.value := by
  unfold writeListFieldValue at h
  obtain ⟨_,-,h⟩ := bind_eq_ok.mp h
  split at h
  · exact ⟨.int8s _,‹_›,rfl⟩
  · cases h
  · exact ⟨.int32s _,‹_›,rfl⟩
  · cases h
  · exact ⟨.int64s _,‹_›,rfl⟩
  · cases h
  · exact ⟨.uint64s _,‹_›,rfl⟩
  · cases h
  · exact ⟨.bools _,‹_›,rfl⟩
  · cases h
  · exact ⟨.strings _,‹_›,rfl⟩
  · cases h
  · cases h

theorem typed_of_writeScalarFieldValue {value : DecodedValue}
    (h : writeScalarFieldValue field value row = .ok row') :
    ∃ scalar : ScalarValue, field.type = scalar.type ∧ value = scalar.value := by
  unfold writeScalarFieldValue at h
  obtain ⟨_,-,h⟩ := bind_eq_ok.mp h
  split at h
  · exact ⟨.int8 _,‹_›,rfl⟩
  · cases h
  · exact ⟨.int32 _,‹_›,rfl⟩
  · cases h
  · exact ⟨.int64 _,‹_›,rfl⟩
  · cases h
  · exact ⟨.uint64 _,‹_›,rfl⟩
  · cases h
  · exact ⟨.bool _,‹_›,rfl⟩
  · cases h
  · exact ⟨.string _,‹_›,rfl⟩
  · cases h
  · cases h

theorem typed_of_writeFieldValue {value : DecodedValue}
    (h : writeFieldValue field value row = .ok row') : Typed field value := by
  rw [writeFieldValue] at h
  rw [Typed]
  by_cases hlist : field.isList = true
  · rw [if_pos hlist] at h ⊢
    exact typed_of_writeListFieldValue h
  · rw [if_neg hlist] at h ⊢
    exact typed_of_writeScalarFieldValue h

theorem writeFieldValue_fixed {scalar : ScalarValue} (ht : Target layout field row)
    (hlist : field.isList = false) (htype : field.type = scalar.type)
    (hstring : scalar.type ≠ .kString) :
    ∃ row', writeFieldValue field scalar.value row = .ok row' ∧ SameData row row' ∧
      Written layout field scalar.value row row' := by
  cases scalar with
  | string v => exact absurd rfl hstring
  | _ =>
    unfold writeFieldValue writeScalarFieldValue
    rw [hlist,htype,if_neg Bool.false_ne_true,failIf_false,ok_bind]
    exact writeScalarField_spec ht hlist htype _

theorem writeFieldValue_string {value : Bytes} (hlist : field.isList = false)
    (htype : field.type = .kString) :
    writeFieldValue field (.string value) row = .ok row' ↔
      field.encoding = .kArena ∧ writeArenaStringField field value row = .ok row' ∨
      field.encoding = .kDictionary ∧ row.stringDictionary.length ≤ uint32Max ∧
        writeDictionaryStringField field (UInt32.ofNat row.stringDictionary.length)
          { row with stringDictionary := row.stringDictionary++[value] } = .ok row' := by
  unfold writeFieldValue writeScalarFieldValue
  rw [hlist,htype,if_neg Bool.false_ne_true,failIf_false,ok_bind]
  simp only [writeStringFieldValue]
  by_cases hencoding : field.encoding = .kArena
  · simp [hencoding]
  · by_cases hentry : field.encoding = .kDictionary
    · simp [hentry,bind_eq_ok]
    · simp [hencoding,hentry]

def stringsRef (row : EncodedRow) (values : List Bytes) : ValueRef16 where
  offset := UInt64.ofNat row.arena.length
  byteLength := UInt32.ofNat (values.length*16)
  elementCountOrFlags := UInt32.ofNat values.length

theorem writeFieldValue_strings {values : List Bytes} (hcount : values.length ≤ uint32Max)
    (hlist : field.isList = true) (htype : field.type = .kString) :
    writeFieldValue field (.strings values) row = .ok row' ↔
      (field.encoding = .kArena ∧ values.length*16 ≤ uint32Max ∧
        ∃ arena, (values.mapIdx Prod.mk).foldlM (writeStringListElement row.arena.length)
            (row.arena++List.replicate (values.length*16) 0) = .ok arena ∧
          writeValueRefField field (stringsRef row values) { row with arena } = .ok row') ∨
      (field.encoding = .kListDictionary ∧ row.stringListDictionary.length ≤ uint32Max ∧
        writeListDictionaryField field (UInt32.ofNat row.stringListDictionary.length)
          (UInt32.ofNat values.length)
          { row with stringListDictionary := row.stringListDictionary++[values] } = .ok row') ∨
      (field.encoding = .kElementDictionary ∧
        (values = [] ∨ row.stringElementDictionary.length+values.length ≤ 2^32) ∧
        writeElementDictionaryStringListField field
          ((List.range values.length).map fun i =>
            UInt32.ofNat (row.stringElementDictionary.length+i))
          { row with
            stringElementDictionary := row.stringElementDictionary++values } = .ok row') := by
  unfold writeFieldValue writeListFieldValue
  rw [hlist,htype,if_pos rfl,Bool.not_true,failIf_false,ok_bind]
  simp only [writeStringListValue]
  by_cases hencoding : field.encoding = .kArena
  · simp [hencoding,writeArenaStringListField,hlist,htype,bind_eq_ok,hcount,stringsRef]
  · by_cases hentry : field.encoding = .kListDictionary
    · simp [hentry,writeDictionaryEntry,bind_eq_ok,hcount]
    · by_cases helement : field.encoding = .kElementDictionary
      · simp only [helement,bind_eq_ok,Prod.exists,internStrings_eq_ok,reduceCtorEq,if_true,if_false,
          false_and,false_or,true_and]
        constructor
        · rintro ⟨last,ids,⟨hroom,rfl,rfl⟩,hwrite⟩
          exact ⟨hroom,hwrite⟩
        · rintro ⟨hroom,hwrite⟩
          exact ⟨_,_,⟨hroom,rfl,rfl⟩,hwrite⟩
      · simp [hencoding,hentry,helement,encodingUnsupported]

theorem FieldFits.string {id : FieldId} {value : Bytes} (h : FieldFits ⟨id,.string value⟩) :
    value.length ≤ uint32Max := Nat.le_of_lt_succ h.length

theorem FieldFits.strings {id : FieldId} {values : List Bytes}
    (h : FieldFits ⟨id,.strings values⟩) :
    values.length ≤ uint32Max ∧ ∀ v ∈ values, v.length ≤ uint32Max :=
  ⟨Nat.le_of_lt_succ h.fits.1,fun v hv => Nat.le_of_lt_succ (h.fits.2 v hv)⟩

theorem FieldFits.scalars {id : FieldId} {list : ListValue} (h : FieldFits ⟨id,list.value⟩)
    (hstring : list.type ≠ .kString) : list.bytes.length ≤ uint32Max := by
  have hwire : wireValue list.value = toBytes (UInt32.ofNat list.length)++list.bytes := by
    cases list with
    | strings v => exact absurd rfl hstring
    | _ => rfl
  have hlength := h.length
  rw [hwire,List.length_append] at hlength
  exact Nat.le_of_lt_succ (lt_of_le_of_lt (Nat.le_add_left _ _) hlength)

theorem stored_fixed {scalar : ScalarValue} (ht : Target layout field row)
    (hlist : field.isList = false) (htype : field.type = scalar.type)
    (hstring : scalar.type ≠ .kString) :
    ∃ row', writeFieldValue field scalar.value row = .ok row' ∧
      Stored layout field scalar.value row row' := by
  obtain ⟨row',hwrite,hdata,hwritten⟩ := writeFieldValue_fixed ht hlist htype hstring
  rw [← htype] at hstring
  refine ⟨row',hwrite,hwritten.stored hdata ?_ ?_⟩
  · intro d
    cases d with
    | _ => simp [newEntries,hlist,hstring]
  · simp [arenaBytes,hlist,hstring]

theorem stored_string {value : Bytes} (ht : Target layout field row)
    (hvalue : value.length ≤ uint32Max) (hlist : field.isList = false)
    (htype : field.type = .kString) (harena : row.arena.length ≤ uint64Max)
    (hsupported : Supported field (.string value)) (hroom : Room row field (.string value)) :
    ∃ row', writeFieldValue field (.string value) row = .ok row' ∧
      Stored layout field (.string value) row row' := by
  rw [Supported,hlist,if_neg Bool.false_ne_true] at hsupported
  rcases hsupported htype with hencoding | hencoding
  · obtain ⟨row',hwrite,hdata,hwritten⟩ := writeArenaStringField_spec ht hlist htype hencoding
      harena hvalue
    refine ⟨row',(writeFieldValue_string hlist htype).mpr (Or.inl ⟨hencoding,hwrite⟩),
      hwritten.stored hdata ?_ ?_⟩
    · intro d
      cases d with
      | _ => simp [newEntries,hlist,hencoding,dictionarySize]
    · simp [arenaBytes,hlist,htype,hencoding,FieldDefaultValue.textLength]
  · have hsize : row.stringDictionary.length ≤ uint32Max := by
      have hnew := hroom .strings
      simp only [newEntries,hlist,htype,hencoding,and_self,if_true,dictionarySize] at hnew
      rw [uint32Max]
      omega
    have he : Extended row { row with stringDictionary := row.stringDictionary++[value] } :=
      ⟨rfl,rfl,rfl,List.prefix_rfl,List.prefix_append _ _,List.prefix_rfl,List.prefix_rfl,
        List.prefix_rfl⟩
    have hid := Artifact.uint32_toNat hsize
    obtain ⟨row',hwrite,hdata,hwritten⟩ := @writeDictionaryStringField_spec _ _ _ _ ht he hlist
      htype hencoding (UInt32.ofNat row.stringDictionary.length) (by
        rw [hid,List.length_append,List.length_singleton]
        omega)
    rw [hid] at hwritten
    simp only [List.getD_eq_getElem?_getD,List.getElem?_concat_length,Option.getD_some] at hwritten
    refine ⟨row',(writeFieldValue_string hlist htype).mpr
      (Or.inr ⟨hencoding,hsize,hwrite⟩),hwritten.stored hdata ?_ ?_⟩
    · intro d
      cases d with
      | _ => simp [newEntries,hlist,htype,hencoding,dictionarySize]
    · simp [arenaBytes,hlist,htype,hencoding]

theorem stored_scalars {list : ListValue} (ht : Target layout field row)
    (hbytes : list.bytes.length ≤ uint32Max) (hlist : field.isList = true)
    (htype : field.type = list.type) (hstring : list.type ≠ .kString)
    (harena : row.arena.length ≤ uint64Max) (hsupported : Supported field list.value)
    (hroom : Room row field list.value) :
    ∃ row', writeFieldValue field list.value row = .ok row' ∧
      Stored layout field list.value row row' := by
  have hcount : list.length ≤ uint32Max := (ListValue.length_le_bytes hstring).trans hbytes
  have hid := Artifact.uint32_toNat hcount
  have hfield : field.type ≠ .kString := by
    rw [htype]
    exact hstring
  have hwrites {row' : EncodedRow} := @writeListFieldValue_scalars field row row' list hstring
    hcount hlist htype harena
  rw [Supported,if_pos hlist,if_neg hfield] at hsupported
  rw [writeFieldValue,if_pos hlist]
  rcases hsupported with hencoding | hencoding
  · have hread : readRefValue field (arenaRef row list.bytes (UInt32.ofNat list.length))
        { row with arena := row.arena++list.bytes } = .ok list.value := by
      rw [readRefValue,if_pos hlist,hencoding,htype,
        readListRef_arenaBytes hstring harena hbytes,ListValue.decode hstring hid]
    obtain ⟨row',hwrite,hdata,hwritten⟩ := writeArenaBytes_spec ht (ht.usesRef_list hlist) hread
    refine ⟨row',hwrites.mpr (Or.inl ⟨hencoding,hwrite⟩),hwritten.stored hdata ?_ ?_⟩
    · intro d
      cases d with
      | _ => simp [newEntries,hencoding,dictionarySize]
    · rw [arenaBytes,if_pos hencoding,if_neg hfield,if_pos hlist,htype,← ListValue.length,
        ← ListValue.bytes_length hstring]
      exact List.length_append
  · have hsize : row.scalarListDictionary.length ≤ uint32Max := by
      have hnew := hroom .scalarLists
      simp only [newEntries,hlist,ne_eq,hfield,not_false_eq_true,hencoding,and_self,if_true,
        dictionarySize] at hnew
      rw [uint32Max]
      omega
    have he : Extended row
        { row with scalarListDictionary := row.scalarListDictionary++[list.bytes] } :=
      ⟨rfl,rfl,rfl,List.prefix_rfl,List.prefix_rfl,List.prefix_append _ _,List.prefix_rfl,
        List.prefix_rfl⟩
    have hentry : (row.scalarListDictionary++[list.bytes])[(UInt32.ofNat
        row.scalarListDictionary.length).toNat]? = some list.bytes := by
      rw [Artifact.uint32_toNat hsize,List.getElem?_concat_length]
    have hread : readListRef field.type .kListDictionary
        ⟨(UInt32.ofNat row.scalarListDictionary.length).toUInt64,0,UInt32.ofNat list.length⟩
        { row with scalarListDictionary := row.scalarListDictionary++[list.bytes] } =
        .ok list.value := by
      rw [htype,readListRef_scalarEntry hstring hentry,ListValue.decode hstring hid]
    obtain ⟨row',hwrite,hdata,hwritten⟩ := writeListDictionaryField_spec ht he hlist hencoding hread
    refine ⟨row',hwrites.mpr (Or.inr ⟨hencoding,hsize,hwrite⟩),hwritten.stored hdata ?_ ?_⟩
    · intro d
      cases d with
      | _ => simp [newEntries,hlist,hfield,hencoding,dictionarySize]
    · simp [arenaBytes,hfield,hencoding]

theorem stored_strings {values : List Bytes} (ht : Target layout field row)
    (hcount : values.length ≤ uint32Max) (hlengths : ∀ v ∈ values, v.length ≤ uint32Max)
    (hlist : field.isList = true) (htype : field.type = .kString)
    (harena : row.arena.length+arenaBytes field (.strings values) ≤ uint64Max)
    (hsupported : Supported field (.strings values)) (hroom : Room row field (.strings values)) :
    ∃ row', writeFieldValue field (.strings values) row = .ok row' ∧
      Stored layout field (.strings values) row row' := by
  have hwrites {row' : EncodedRow} := @writeFieldValue_strings field row row' values hcount
    hlist htype
  rw [Supported,if_pos hlist,if_pos htype] at hsupported
  rcases hsupported with ⟨hencoding,hrefs⟩ | hencoding | hencoding
  · obtain ⟨arena,hfold,hsize,hgrown,hread⟩ := @writeStringList_spec row _ hlengths
    have hbytes : arenaBytes field (.strings values) =
        values.length*16+(values.map List.length).sum := by
      simp [arenaBytes,hlist,htype,hencoding,FieldDefaultValue.textLength,
        FieldDefaultValue.elementCount]
    rw [hbytes] at harena
    have he : Extended row { row with arena } :=
      ⟨rfl,rfl,rfl,hgrown,List.prefix_rfl,List.prefix_rfl,List.prefix_rfl,List.prefix_rfl⟩
    have hstrings := @readListRef_strings row _ _ hrefs (by omega) (by omega)
      (hread (by omega))
    have hvalue : readRefValue field (stringsRef row values) { row with arena } =
        .ok (.strings values) := by
      rw [readRefValue,if_pos hlist,htype,hencoding]
      exact hstrings
    obtain ⟨row',hwrite,hdata,hwritten⟩ := written_ref ht (ht.usesRef_list hlist) he hvalue
    refine ⟨row',hwrites.mpr (Or.inl ⟨hencoding,hrefs,arena,hfold,hwrite⟩),
      hwritten.stored hdata ?_ ?_⟩
    · intro d
      cases d with
      | _ => simp [newEntries,hencoding,dictionarySize]
    · rw [hbytes]
      exact hsize
  · have hsize : row.stringListDictionary.length ≤ uint32Max := by
      have hnew := hroom .stringLists
      simp only [newEntries,hlist,htype,hencoding,and_self,if_true,dictionarySize] at hnew
      rw [uint32Max]
      omega
    have he : Extended row
        { row with stringListDictionary := row.stringListDictionary++[values] } :=
      ⟨rfl,rfl,rfl,List.prefix_rfl,List.prefix_rfl,List.prefix_rfl,List.prefix_append _ _,
        List.prefix_rfl⟩
    have hentry : (row.stringListDictionary++[values])[(UInt32.ofNat
        row.stringListDictionary.length).toNat]? = some values := by
      rw [Artifact.uint32_toNat hsize,List.getElem?_concat_length]
    have hread := @readListRef_stringEntry
      { row with stringListDictionary := row.stringListDictionary++[values] } _ _ _ hentry
      (Artifact.uint32_toNat hcount)
    rw [← htype] at hread
    obtain ⟨row',hwrite,hdata,hwritten⟩ := writeListDictionaryField_spec ht he hlist hencoding hread
    refine ⟨row',hwrites.mpr (Or.inr (Or.inl ⟨hencoding,hsize,hwrite⟩)),
      hwritten.stored hdata ?_ ?_⟩
    · intro d
      cases d with
      | _ => simp [newEntries,hlist,htype,hencoding,dictionarySize]
    · simp [arenaBytes,hencoding]
  · have hfree : values = [] ∨ row.stringElementDictionary.length+values.length ≤ 2^32 := by
      have hnew := hroom .elements
      simp only [newEntries,hlist,htype,hencoding,and_self,if_true,dictionarySize,
        FieldDefaultValue.elementCount,List.length_eq_zero_iff] at hnew
      exact hnew
    have he : Extended row
        { row with stringElementDictionary := row.stringElementDictionary++values } :=
      ⟨rfl,rfl,rfl,List.prefix_rfl,List.prefix_rfl,List.prefix_rfl,List.prefix_rfl,
        List.prefix_append _ _⟩
    obtain ⟨hids,hstrings⟩ := interned_strings hfree
    have hbytes : arenaBytes field (.strings values) = values.length*size UInt32 := by
      simp [arenaBytes,hlist,htype,hencoding,FieldDefaultValue.elementCount]
    obtain ⟨row',hwrite,hdata,hwritten⟩ := writeElementDictionaryStringListField_spec ht he hlist
      htype hencoding (show row.arena.length ≤ uint64Max by omega)
      (by rw [List.length_map,List.length_range]; exact hcount) hids
    rw [hstrings] at hwritten
    refine ⟨row',hwrites.mpr (Or.inr (Or.inr ⟨hencoding,hfree,hwrite⟩)),
      hwritten.stored hdata ?_ ?_⟩
    · intro d
      cases d with
      | _ => simp [newEntries,hlist,htype,hencoding,dictionarySize,FieldDefaultValue.elementCount]
    · rw [hbytes,List.length_append,flatMap_length fun id _ => toBytes_length id,List.length_map,
        List.length_range]

/-- A value of the type of the field is stored where the encoding takes it and the dictionaries
have room. -/
theorem writeFieldValue_stored {value : DecodedValue} (ht : Target layout field row)
    (hfits : FieldFits ⟨field.fieldId,value⟩)
    (harena : row.arena.length+arenaBytes field value ≤ uint64Max) (htyped : Typed field value)
    (hsupported : Supported field value) (hroom : Room row field value) :
    ∃ row', writeFieldValue field value row = .ok row' ∧ Stored layout field value row row' := by
  have hstart : row.arena.length ≤ uint64Max := by omega
  rw [Typed] at htyped
  cases hlist : field.isList with
  | true =>
    rw [if_pos hlist] at htyped
    obtain ⟨list,htype,rfl⟩ := htyped
    by_cases hstring : list.type = .kString
    · cases list with
      | strings values =>
        obtain ⟨hcount,hlengths⟩ := hfits.strings
        exact stored_strings ht hcount hlengths hlist htype harena hsupported hroom
      | _ => cases hstring
    · exact stored_scalars ht (hfits.scalars hstring) hlist htype hstring hstart hsupported hroom
  | false =>
    rw [if_neg (by rw [hlist]; decide)] at htyped
    obtain ⟨scalar,htype,rfl⟩ := htyped
    by_cases hstring : scalar.type = .kString
    · cases scalar with
      | string value =>
        exact stored_string ht hfits.string hlist htype hstart hsupported hroom
      | _ => cases hstring
    · exact stored_fixed ht hlist htype hstring

/-- What a write that succeeds has checked, and the arena it leaves. -/
structure CheckedWrite (field : FieldLayout) (value : DecodedValue) (row row' : EncodedRow) :
    Prop where
  supported : Supported field value
  room : Room row field value
  arena : row'.arena.length = row.arena.length+arenaBytes field value

theorem setFieldPresent_data (h : setFieldPresent field row = .ok row') : SameData row row' := by
  obtain ⟨_,-,h⟩ := bind_eq_ok.mp h
  rw [pure_eq_ok,Except.ok.injEq] at h
  rw [← h]
  exact ⟨rfl,rfl,rfl,rfl,rfl,rfl,rfl⟩

theorem writeValueRefField_data {ref : ValueRef16} (h : writeValueRefField field ref row = .ok row') :
    SameData row row' := by
  obtain ⟨_,-,h⟩ := bind_eq_ok.mp h
  obtain ⟨_,-,h⟩ := bind_eq_ok.mp h
  obtain ⟨h₁,h₂,h₃,h₄,h₅,h₆,h₇⟩ := setFieldPresent_data h
  exact ⟨h₁,h₂,h₃,h₄,h₅,h₆,h₇⟩

theorem checked_string {value : Bytes} (hlist : field.isList = false) (htype : field.type = .kString)
    (h : writeFieldValue field (.string value) row = .ok row') :
    CheckedWrite field (.string value) row row' := by
  rcases (writeFieldValue_string hlist htype).mp h with
    ⟨hencoding,hwrite⟩ | ⟨hencoding,hsize,hwrite⟩
  · obtain ⟨_,-,hwrite⟩ := bind_eq_ok.mp hwrite
    obtain ⟨_,-,hwrite⟩ := bind_eq_ok.mp hwrite
    refine ⟨by simp [Supported,hlist,hencoding],?_,?_⟩
    · intro d
      cases d with
      | _ => simp [newEntries,hencoding]
    · rw [(writeValueRefField_data hwrite).arena]
      simp [arenaBytes,hlist,htype,hencoding,FieldDefaultValue.textLength]
  · obtain ⟨_,-,hwrite⟩ := bind_eq_ok.mp hwrite
    refine ⟨by simp [Supported,hlist,hencoding],?_,?_⟩
    · rw [uint32Max] at hsize
      intro d
      cases d with
      | strings =>
        simp only [newEntries,hlist,htype,hencoding,and_self,if_true,dictionarySize]
        omega
      | _ => simp [newEntries,hencoding]
    · rw [(writeValueRefField_data hwrite).arena]
      simp [arenaBytes,hlist,hencoding]

theorem checked_scalars {list : ListValue} (hbytes : list.bytes.length ≤ uint32Max)
    (hlist : field.isList = true) (htype : field.type = list.type)
    (hstring : list.type ≠ .kString) (harena : row.arena.length ≤ uint64Max)
    (h : writeFieldValue field list.value row = .ok row') :
    CheckedWrite field list.value row row' := by
  have hcount := (ListValue.length_le_bytes hstring).trans hbytes
  have hfield : field.type ≠ .kString := by
    rw [htype]
    exact hstring
  rw [writeFieldValue,if_pos hlist] at h
  rcases (writeListFieldValue_scalars hstring hcount hlist htype harena).mp h with
    ⟨hencoding,hwrite⟩ | ⟨hencoding,hsize,hwrite⟩
  · refine ⟨by simp [Supported,hlist,hfield,hencoding],?_,?_⟩
    · intro d
      cases d with
      | _ => simp [newEntries,hencoding]
    · rw [(writeValueRefField_data hwrite).arena,arenaBytes,if_pos hencoding,if_neg hfield,
        if_pos hlist,htype,← ListValue.length,← ListValue.bytes_length hstring]
      exact List.length_append
  · obtain ⟨_,-,hwrite⟩ := bind_eq_ok.mp hwrite
    refine ⟨by simp [Supported,hlist,hfield,hencoding],?_,?_⟩
    · rw [uint32Max] at hsize
      intro d
      cases d with
      | scalarLists =>
        simp only [newEntries,hlist,hfield,ne_eq,not_false_eq_true,hencoding,and_self,if_true,
          dictionarySize]
        omega
      | _ => simp [newEntries,hencoding,hfield]
    · rw [(writeValueRefField_data hwrite).arena]
      simp [arenaBytes,hfield,hencoding]

theorem checked_strings {values : List Bytes} (hcount : values.length ≤ uint32Max)
    (hlengths : ∀ v ∈ values, v.length ≤ uint32Max) (hlist : field.isList = true)
    (htype : field.type = .kString) (h : writeFieldValue field (.strings values) row = .ok row') :
    CheckedWrite field (.strings values) row row' := by
  rcases (writeFieldValue_strings hcount hlist htype).mp h with
    ⟨hencoding,hrefs,arena,hfold,hwrite⟩ | ⟨hencoding,hsize,hwrite⟩ | ⟨hencoding,hfree,hwrite⟩
  · obtain ⟨arena',hfold',hlength,-⟩ := @writeStringList_spec row _ hlengths
    rw [hfold,Except.ok.injEq] at hfold'
    refine ⟨by simp [Supported,hlist,htype,hencoding,FieldDefaultValue.elementCount,hrefs],?_,?_⟩
    · intro d
      cases d with
      | _ => simp [newEntries,hencoding]
    · rw [(writeValueRefField_data hwrite).arena]
      show arena.length = _
      rw [hfold',hlength]
      simp [arenaBytes,hlist,htype,hencoding,FieldDefaultValue.textLength,
        FieldDefaultValue.elementCount]
  · obtain ⟨_,-,hwrite⟩ := bind_eq_ok.mp hwrite
    refine ⟨by simp [Supported,hlist,htype,hencoding],?_,?_⟩
    · rw [uint32Max] at hsize
      intro d
      cases d with
      | stringLists =>
        simp only [newEntries,hlist,htype,hencoding,and_self,if_true,dictionarySize]
        omega
      | _ => simp [newEntries,hencoding,htype]
    · rw [(writeValueRefField_data hwrite).arena]
      simp [arenaBytes,hencoding]
  · obtain ⟨_,-,hwrite⟩ := bind_eq_ok.mp hwrite
    obtain ⟨_,-,hwrite⟩ := bind_eq_ok.mp hwrite
    refine ⟨by simp [Supported,hlist,htype,hencoding],?_,?_⟩
    · intro d
      cases d with
      | elements =>
        simp only [newEntries,hlist,htype,hencoding,and_self,if_true,dictionarySize]
        exact hfree.imp (fun hnil => by rw [hnil]; rfl) id
      | _ => simp [newEntries,hencoding]
    · rw [(writeValueRefField_data hwrite).arena,List.length_append,
        flatMap_length fun id _ => toBytes_length id,List.length_map,List.length_range]
      simp [arenaBytes,hlist,htype,hencoding,FieldDefaultValue.elementCount]

theorem writeFieldValue_checked {value : DecodedValue} (ht : Target layout field row)
    (hfits : FieldFits ⟨field.fieldId,value⟩) (harena : row.arena.length ≤ uint64Max)
    (h : writeFieldValue field value row = .ok row') : CheckedWrite field value row row' := by
  have htyped := typed_of_writeFieldValue h
  rw [Typed] at htyped
  cases hlist : field.isList with
  | true =>
    rw [if_pos hlist] at htyped
    obtain ⟨list,htype,rfl⟩ := htyped
    by_cases hstring : list.type = .kString
    · cases list with
      | strings values =>
        obtain ⟨hcount,hlengths⟩ := hfits.strings
        exact checked_strings hcount hlengths hlist htype h
      | _ => cases hstring
    · exact checked_scalars (hfits.scalars hstring) hlist htype hstring harena h
  | false =>
    rw [if_neg (by rw [hlist]; decide)] at htyped
    obtain ⟨scalar,htype,rfl⟩ := htyped
    by_cases hstring : scalar.type = .kString
    · cases scalar with
      | string value => exact checked_string hlist htype h
      | _ => cases hstring
    · obtain ⟨made,hmade,hstored⟩ := stored_fixed ht hlist htype hstring
      rw [h,Except.ok.injEq] at hmade
      subst hmade
      have hfield : field.type ≠ .kString := by
        rw [htype]
        exact hstring
      refine ⟨by simp [Supported,hlist,hfield],?_,hstored.arena⟩
      intro d
      cases d with
      | _ => simp [newEntries,hlist,hfield]

/-- A step that leaves at least `n` bytes in the arena. -/
def ArenaKept (n : ℕ) (made : StatusOr EncodedRow) : Prop :=
  ∀ row', made = .ok row' → n ≤ row'.arena.length

section ArenaKept

variable {n : ℕ}

theorem ArenaKept.error (status : Status) : ArenaKept n (.error status) := by
  intro row' h
  cases h

theorem ArenaKept.bind {S : Type} {first : StatusOr S} {f : S → StatusOr EncodedRow}
    (h : ∀ a, first = .ok a → ArenaKept n (f a)) : ArenaKept n (first >>= f) := by
  intro row' hmade
  obtain ⟨a,ha,hmade⟩ := bind_eq_ok.mp hmade
  exact h a ha row' hmade

theorem setFieldPresent_arenaKept (h : n ≤ row.arena.length) :
    ArenaKept n (setFieldPresent field row) := by
  refine ArenaKept.bind fun _ _ row' hmade => ?_
  rw [pure_eq_ok,Except.ok.injEq] at hmade
  rw [← hmade]
  exact h

theorem writeValueRefField_arenaKept {ref : ValueRef16} (h : n ≤ row.arena.length) :
    ArenaKept n (writeValueRefField field ref row) :=
  ArenaKept.bind fun _ _ => ArenaKept.bind fun _ _ => setFieldPresent_arenaKept h

theorem writeArenaBytes_arenaKept {bytes : Bytes} {count : UInt32} (h : n ≤ row.arena.length) :
    ArenaKept n (writeArenaBytes field bytes count row) := by
  refine writeValueRefField_arenaKept ?_
  rw [List.length_append]
  omega

theorem writeScalarField_arenaKept {T : Type} [FieldCppType T] {v : T} (h : n ≤ row.arena.length) :
    ArenaKept n (writeScalarField field v row) :=
  ArenaKept.bind fun _ _ => ArenaKept.bind fun _ _ => ArenaKept.bind fun _ _ =>
    setFieldPresent_arenaKept h

theorem writeListDictionaryField_arenaKept {id count : UInt32} (h : n ≤ row.arena.length) :
    ArenaKept n (writeListDictionaryField field id count row) :=
  ArenaKept.bind fun _ _ => writeValueRefField_arenaKept h

theorem writeListDictionaryBytes_arenaKept {message : String} {count : ℕ} {bytes : Bytes}
    (h : n ≤ row.arena.length) :
    ArenaKept n (writeListDictionaryBytes field message count bytes row) :=
  ArenaKept.bind fun _ _ => writeListDictionaryField_arenaKept h

theorem writeScalarListValue_arenaKept {T : Type} [FieldCppType T] {values : List T}
    (h : n ≤ row.arena.length) : ArenaKept n (writeScalarListValue field values row) := by
  rw [writeScalarListValue]
  split
  · exact ArenaKept.bind fun _ _ => ArenaKept.bind fun _ _ => writeArenaBytes_arenaKept h
  · split
    · exact writeListDictionaryBytes_arenaKept h
    · exact ArenaKept.error _

theorem writeBoolListValue_arenaKept {values : List Bool} (h : n ≤ row.arena.length) :
    ArenaKept n (writeBoolListValue field values row) := by
  rw [writeBoolListValue]
  split
  · exact ArenaKept.bind fun _ _ => ArenaKept.bind fun _ _ => writeArenaBytes_arenaKept h
  · split
    · exact ArenaKept.bind fun _ _ => writeListDictionaryBytes_arenaKept h
    · exact ArenaKept.error _

theorem writeStringListElement_length {refsOffset : ℕ} {arena arena' : Bytes} {e : ℕ×Bytes}
    (h : writeStringListElement refsOffset arena e = .ok arena') : arena.length ≤ arena'.length := by
  obtain ⟨_,-,h⟩ := bind_eq_ok.mp h
  have hinside : refsOffset+e.1*16+16 ≤ (arena++e.2).length := by
    obtain ⟨_,hcheck,-⟩ := bind_eq_ok.mp h
    exact checkSpanBounds_eq_ok.mp hcheck
  rw [writeValueRef16_of_le _ hinside,Except.ok.injEq] at h
  rw [← h,splice_length _ _ _ (by rw [valueRefBytes_length]; exact hinside),List.length_append]
  exact Nat.le_add_right _ _

theorem writeStringListElements_length {refsOffset : ℕ} {elements : List (ℕ×Bytes)}
    {arena arena' : Bytes}
    (h : elements.foldlM (writeStringListElement refsOffset) arena = .ok arena') :
    arena.length ≤ arena'.length := by
  induction elements generalizing arena with
  | nil =>
    cases h
    exact le_rfl
  | cons e elements ih =>
    rw [List.foldlM_cons] at h
    obtain ⟨middle,hmiddle,h⟩ := bind_eq_ok.mp h
    exact (writeStringListElement_length hmiddle).trans (ih h)

theorem writeStringListValue_arenaKept {values : List Bytes} (h : n ≤ row.arena.length) :
    ArenaKept n (writeStringListValue field values row) := by
  rw [writeStringListValue]
  split
  · refine ArenaKept.bind fun _ _ => ArenaKept.bind fun _ _ => ArenaKept.bind fun _ _ =>
      ArenaKept.bind fun arena harena => writeValueRefField_arenaKept ?_
    have hlength := writeStringListElements_length harena
    rw [List.length_append] at hlength
    exact h.trans ((Nat.le_add_right _ _).trans hlength)
  · split
    · exact ArenaKept.bind fun _ _ => writeListDictionaryField_arenaKept h
    · split
      · exact ArenaKept.bind fun _ _ => ArenaKept.bind fun _ _ => ArenaKept.bind fun _ _ =>
          writeArenaBytes_arenaKept h
      · exact ArenaKept.error _

theorem writeStringFieldValue_arenaKept {value : Bytes} (h : n ≤ row.arena.length) :
    ArenaKept n (writeStringFieldValue field value row) := by
  rw [writeStringFieldValue]
  split
  · exact ArenaKept.bind fun _ _ => ArenaKept.bind fun _ _ => writeArenaBytes_arenaKept h
  · split
    · exact ArenaKept.bind fun _ _ => ArenaKept.bind fun _ _ => writeValueRefField_arenaKept h
    · exact ArenaKept.error _

theorem writeFieldValue_arenaKept {value : DecodedValue} (h : n ≤ row.arena.length) :
    ArenaKept n (writeFieldValue field value row) := by
  unfold writeFieldValue writeListFieldValue writeScalarFieldValue
  split
  · refine ArenaKept.bind fun _ _ => ?_
    split
    all_goals first
      | exact writeScalarListValue_arenaKept h
      | exact writeBoolListValue_arenaKept h
      | exact writeStringListValue_arenaKept h
      | exact ArenaKept.error _
  · refine ArenaKept.bind fun _ _ => ?_
    split
    all_goals first
      | exact writeScalarField_arenaKept h
      | exact writeStringFieldValue_arenaKept h
      | exact ArenaKept.error _

end ArenaKept

/-- A write that succeeds and leaves an arena of 64-bit size stores the value. -/
theorem stored_of_writeFieldValue {value : DecodedValue} (ht : Target layout field row)
    (hfits : FieldFits ⟨field.fieldId,value⟩) (harena : row'.arena.length ≤ uint64Max)
    (h : writeFieldValue field value row = .ok row') : Stored layout field value row row' := by
  have hstart := writeFieldValue_arenaKept (Nat.le_refl row.arena.length) row' h
  have hchecked := writeFieldValue_checked ht hfits (hstart.trans harena) h
  obtain ⟨made,hmade,hstored⟩ := writeFieldValue_stored ht hfits
    (by rw [← hchecked.arena]; exact harena) (typed_of_writeFieldValue h) hchecked.supported
    hchecked.room
  rw [h,Except.ok.injEq] at hmade
  rw [hmade]
  exact hstored

/-- The writes that the fields of a payload stand for; the layout does not know the others. -/
def placed (layout : CompiledRowLayout) (payload : DecodedPayload) :
    List (FieldLayout×DecodedValue) :=
  payload.filterMap fun decoded =>
    (layout.findField decoded.fieldId).map fun field => (field,decoded.value)

theorem encodeField_unknown {decoded : DecodedField} (h : layout.findField decoded.fieldId = none) :
    encodeField layout row decoded = .ok row := by
  rw [encodeField,h]

theorem encodeField_known {decoded : DecodedField}
    (h : layout.findField decoded.fieldId = some field) :
    encodeField layout row decoded = .ok row' ↔
      decoded.value ≠ .monostate ∧ writeFieldValue field decoded.value row = .ok row' := by
  rw [encodeField,h]
  simp only [bind_eq_ok,failIf_eq_ok,exists_const,beq_eq_false_iff_ne,writeFieldValue]

theorem encodeFields_arena {payload : DecodedPayload}
    (h : payload.foldlM (encodeField layout) row = .ok row') :
    row.arena.length ≤ row'.arena.length := by
  induction payload generalizing row with
  | nil =>
    cases h
    exact le_rfl
  | cons decoded payload ih =>
    rw [List.foldlM_cons] at h
    obtain ⟨mid,hmid,h⟩ := bind_eq_ok.mp h
    refine le_trans ?_ (ih h)
    cases hfield : layout.findField decoded.fieldId with
    | none =>
      rw [encodeField_unknown hfield,Except.ok.injEq] at hmid
      rw [hmid]
    | some field =>
      exact writeFieldValue_arenaKept le_rfl mid ((encodeField_known hfield).mp hmid).2

/-- The field loop of `EncodeForLayout` stores the known fields of the payload. -/
theorem encodeFields_stored (hformed : Formed layout) {payload : DecodedPayload}
    (hfits : ∀ decoded ∈ payload, FieldFits decoded)
    (hsize : layout.rowSlotSize ≤ row.rowSlot.length)
    (h : payload.foldlM (encodeField layout) row = .ok row')
    (harena : row'.arena.length ≤ uint64Max) : StoredAll layout (placed layout payload) row row' := by
  induction payload generalizing row with
  | nil =>
    cases h
    exact .nil _
  | cons decoded payload ih =>
    rw [List.foldlM_cons] at h
    obtain ⟨mid,hmid,h⟩ := bind_eq_ok.mp h
    have hrest := fun other hother => hfits other (List.mem_cons_of_mem decoded hother)
    cases hfield : layout.findField decoded.fieldId with
    | none =>
      rw [encodeField_unknown hfield,Except.ok.injEq] at hmid
      subst hmid
      rw [placed,List.filterMap_cons,hfield]
      exact ih hrest hsize h
    | some field =>
      have hwrite := ((encodeField_known hfield).mp hmid).2
      obtain ⟨hmem,hid⟩ := mem_of_findField hfield
      have hfirst : FieldFits ⟨field.fieldId,decoded.value⟩ := by
        rw [hid]
        exact hfits decoded List.mem_cons_self
      have hstored := stored_of_writeFieldValue ⟨hformed,hmem,hsize⟩ hfirst
        ((encodeFields_arena h).trans harena) hwrite
      rw [placed,List.filterMap_cons,hfield]
      exact .cons hstored (ih hrest (by rw [hstored.length]; exact hsize) h)

end Values

end Ingest
end KvIndex
