import KvIndex.OfflineRow
import KvIndex.RowRoundTrip

/-! The offline and the online row encoder. Each writer of one leaves the row that the writer of
the other leaves, so the two loops differ in their order only. -/
namespace KvIndex
namespace Offline

open Base LittleEndian Schema CompiledRowLayout Model Ingest

theorem byteAt_zero (n : ℕ) : byteAt n 0 = UInt8.ofNat (n%256) := by
  rw [byteAt,Nat.zero_mul,Nat.shiftRight_zero]
  exact congrArg UInt8.ofNat (Nat.and_two_pow_sub_one_eq_mod n 8)

theorem byteAt_succ (n i : ℕ) : byteAt n (i+1) = byteAt (n/256) i := by
  have hshift : n >>> ((i+1)*8) = (n/256) >>> (i*8) := by
    rw [Nat.add_mul,Nat.add_comm,Nat.shiftRight_add,Nat.one_mul,Nat.shiftRight_eq_div_pow n 8]
  rw [byteAt,hshift,byteAt]

theorem map_byteAt (width n : ℕ) : (List.range width).map (byteAt n) = digits width n := by
  induction width generalizing n with
  | zero => rfl
  | succ width ih =>
    rw [List.range_succ_eq_map,List.map_cons,List.map_map,byteAt_zero,digits,← ih (n/256)]
    congr 1
    exact List.map_congr_left fun i _ => byteAt_succ n i

theorem appendLittleEndian_integer {T : Type} [LittleEndianInteger T] (bytes : Bytes) (value : T) :
    appendLittleEndian bytes value = bytes++toBytes value :=
  congrArg (bytes++·) (map_byteAt _ _)

theorem appendLittleEndian_bool (bytes : Bytes) (value : Bool) :
    appendLittleEndian bytes value = bytes++FieldCppType.bytes value := by
  cases value
  all_goals rfl

theorem foldl_appendLittleEndian {T : Type} [AppendedType T] [FieldCppType T]
    (happend : ∀ bytes (value : T), appendLittleEndian bytes value = bytes++FieldCppType.bytes value)
    (bytes : Bytes) (values : List T) :
    values.foldl appendLittleEndian bytes = bytes++encodeScalarList values := by
  induction values generalizing bytes with
  | nil => exact (List.append_nil bytes).symm
  | cons value values ih =>
    rw [List.foldl_cons,ih,happend,List.append_assoc]
    rfl

theorem writeLittleEndianAt_eq {bytes : Bytes} {offset : ℕ} (width n : ℕ)
    (h : offset+width ≤ bytes.length) :
    writeLittleEndianAt bytes offset width n = splice bytes offset (digits width n) := by
  rw [← map_byteAt]
  induction width with
  | zero =>
    rw [splice]
    exact (List.take_append_drop offset bytes).symm
  | succ width ih =>
    have hbefore : offset+((List.range width).map (byteAt n)).length ≤ bytes.length := by
      rw [List.length_map,List.length_range]
      omega
    have hinside : offset+width < (splice bytes offset ((List.range width).map (byteAt n))).length := by
      rw [splice_length _ _ _ hbefore]
      omega
    have hstep : writeLittleEndianAt bytes offset (width+1) n =
        (writeLittleEndianAt bytes offset width n).set (offset+width) (byteAt n width) := by
      rw [writeLittleEndianAt,List.range_succ,List.foldl_append]
      rfl
    have hjoin := splice_splice_append bytes offset ((List.range width).map (byteAt n))
      [byteAt n width] (by
        rw [List.length_map,List.length_range,List.length_singleton]
        exact h)
    rw [List.length_map,List.length_range] at hjoin
    rw [hstep,ih (by omega),set_eq_splice hinside,hjoin,List.range_succ,List.map_append]
    rfl

theorem writeValueRefBytes_eq {bytes : Bytes} {offset : ℕ} (ref : ValueRef16)
    (h : offset+16 ≤ bytes.length) :
    writeValueRef16 ref bytes offset =
      .ok (writeValueRefBytes bytes offset ref.offset ref.byteLength ref.elementCountOrFlags) := by
  have hfirst : writeLittleEndianAt bytes offset 8 ref.offset.toNat =
      splice bytes offset (digits 8 ref.offset.toNat) := writeLittleEndianAt_eq 8 _ (by omega)
  have hfirstLength : (splice bytes offset (digits 8 ref.offset.toNat)).length = bytes.length :=
    splice_length _ _ _ (by rw [digits_length]; omega)
  have hsecond : writeLittleEndianAt (splice bytes offset (digits 8 ref.offset.toNat)) (offset+8) 4
      ref.byteLength.toNat = splice (splice bytes offset (digits 8 ref.offset.toNat)) (offset+8)
        (digits 4 ref.byteLength.toNat) := writeLittleEndianAt_eq 4 _ (by omega)
  have hsecondLength : (splice (splice bytes offset (digits 8 ref.offset.toNat)) (offset+8)
      (digits 4 ref.byteLength.toNat)).length = bytes.length := by
    rw [splice_length _ _ _ (by rw [digits_length]; omega),hfirstLength]
  rw [writeValueRefBytes,hfirst,hsecond,writeLittleEndianAt_eq _ _ (by omega),writeValueRef16,
    (checkSpanBounds_eq_ok (u := ())).mpr h,ok_bind,
    writeLittleEndian_of_le ref.offset (show offset+8 ≤ bytes.length by omega),ok_bind]
  have hsecondWrite := writeLittleEndian_of_le ref.byteLength
    (show offset+8+4 ≤ (splice bytes offset (digits 8 ref.offset.toNat)).length by omega)
  have hthirdWrite := writeLittleEndian_of_le ref.elementCountOrFlags
    (show offset+8+4+4 ≤ (splice (splice bytes offset (digits 8 ref.offset.toNat)) (offset+8)
      (digits 4 ref.byteLength.toNat)).length by omega)
  exact (congrArg (· >>= _) hsecondWrite).trans hthirdWrite

section Values

variable {layout : CompiledRowLayout} {field : FieldLayout} {row row' : EncodedRow}

theorem writeScalarListArena_eq {T : Type} [AppendedType T] [FieldCppType T]
    (happend : ∀ bytes (value : T), appendLittleEndian bytes value = bytes++FieldCppType.bytes value)
    {values : List T} (hbytes : (encodeScalarList values).length ≤ uint32Max)
    (hcount : values.length ≤ uint32Max) :
    writeScalarListArena field values row =
      writeArenaBytes field (encodeScalarList values) (UInt32.ofNat values.length) row := by
  have harena := foldl_appendLittleEndian happend row.arena values
  have hlength : (row.arena++encodeScalarList values).length-row.arena.length =
      (encodeScalarList values).length := by
    rw [List.length_append,Nat.add_sub_cancel_left]
  simp only [writeScalarListArena,harena,hlength,decide_eq_false (Nat.not_lt.mpr hbytes),
    decide_eq_false (Nat.not_lt.mpr hcount),Bool.or_self,failIf_false,ok_bind]
  rfl

theorem writeArenaListValue_scalars {list : ListValue} (hstring : list.type ≠ .kString)
    (hbytes : list.bytes.length ≤ uint32Max) (htype : field.type = list.type) :
    writeArenaListValue field list.value row =
      writeArenaBytes field list.bytes (UInt32.ofNat list.length) row := by
  have hcount := (ListValue.length_le_bytes hstring).trans hbytes
  cases list with
  | strings v => exact absurd rfl hstring
  | bools v =>
    unfold writeArenaListValue
    rw [htype]
    exact writeScalarListArena_eq appendLittleEndian_bool hbytes hcount
  | _ =>
    unfold writeArenaListValue
    rw [htype]
    exact writeScalarListArena_eq appendLittleEndian_integer hbytes hcount

theorem listBytes_scalars {list : ListValue} (hstring : list.type ≠ .kString) :
    listBytes list.value = (list.bytes,list.length) := by
  cases list with
  | strings v => exact absurd rfl hstring
  | bools v => exact Prod.ext (foldl_appendLittleEndian appendLittleEndian_bool [] v) rfl
  | _ => exact Prod.ext (foldl_appendLittleEndian appendLittleEndian_integer [] _) rfl

theorem writeFieldValue_scalars {list : ListValue} (hstring : list.type ≠ .kString)
    (hbytes : list.bytes.length ≤ uint32Max) (hlist : field.isList = true)
    (htype : field.type = list.type) :
    writeFieldValue field list.value row = .ok row' ↔
      ArenaWrite field list.bytes list.length row row' ∨
        EntryWrite field list.bytes list.length row row' := by
  have hfield : field.type ≠ .kString := by
    rw [htype]
    exact hstring
  rw [writeFieldValue,if_pos hlist]
  unfold writeListFieldValue
  by_cases hencoding : field.encoding = .kArena
  · rw [if_pos hencoding,writeArenaListValue_scalars hstring hbytes htype]
    simp [ArenaWrite,EntryWrite,hencoding]
  · rw [if_neg hencoding]
    by_cases hentry : field.encoding = .kListDictionary
    · rw [if_pos hentry,if_neg hfield,writeListDictionaryScalars,listBytes_scalars hstring]
      simp [ArenaWrite,EntryWrite,hentry,bind_eq_ok]
    · rw [if_neg hentry,if_neg fun h => hfield h.2]
      simp [ArenaWrite,EntryWrite,hencoding,hentry,unsupportedListEncoding]

theorem writeStringElement_eq_ok {refOffset : ℕ} {arena arena' : Bytes} {element : ℕ×Bytes}
    (h : refOffset+element.1*16+16 ≤ arena.length) :
    writeStringElement refOffset arena element = .ok arena' ↔
      writeStringListElement refOffset arena element = .ok arena' := by
  have hinside : refOffset+element.1*16+16 ≤ (arena++element.2).length := by
    rw [List.length_append]
    omega
  rw [writeStringElement,writeStringListElement,writeValueRefBytes_eq _ hinside]
  simp only [bind_eq_ok,failIf_eq_ok,pure_eq_ok]

theorem foldlM_writeStringElement {refOffset : ℕ} {elements : List (ℕ×Bytes)} {arena arena' : Bytes}
    (h : ∀ element ∈ elements, refOffset+element.1*16+16 ≤ arena.length) :
    elements.foldlM (writeStringElement refOffset) arena = .ok arena' ↔
      elements.foldlM (writeStringListElement refOffset) arena = .ok arena' := by
  induction elements generalizing arena with
  | nil => exact Iff.rfl
  | cons element elements ih =>
    simp only [List.foldlM_cons,bind_eq_ok,
      writeStringElement_eq_ok (h element List.mem_cons_self)]
    refine exists_congr fun middle => and_congr_right fun hmiddle => ih fun other hother => ?_
    exact (h other (List.mem_cons_of_mem element hother)).trans
      (writeStringListElement_length hmiddle)

theorem addElements_eq_ok {dictionary last values : List Bytes} {before ids : List UInt32} :
    addElements dictionary before values = .ok (last,ids) ↔
      ∃ new, internStrings dictionary values = .ok (last,new) ∧ ids = before++new := by
  induction values generalizing dictionary before with
  | nil => simp [addElements,internStrings,eq_comm]
  | cons value values ih =>
    simp only [addElements,internStrings,bind_eq_ok,failIf_eq_ok,exists_const,ih,Prod.exists,
      pure_eq_ok,Except.ok.injEq,Prod.mk.injEq]
    constructor
    · rintro ⟨hroom,new,hnew,rfl⟩
      exact ⟨_,⟨hroom,_,new,hnew,rfl,rfl⟩,by rw [List.append_assoc]; rfl⟩
    · rintro ⟨_,⟨hroom,_,new,hnew,rfl,rfl⟩,rfl⟩
      exact ⟨hroom,new,hnew,by rw [List.append_assoc]; rfl⟩

theorem writeFieldValue_strings {values : List Bytes} (hcount : values.length ≤ uint32Max)
    (hlist : field.isList = true) (htype : field.type = .kString) :
    writeFieldValue field (.strings values) row = .ok row' ↔
      Ingest.writeFieldValue field (.strings values) row = .ok row' := by
  rw [Ingest.writeFieldValue_strings hcount hlist htype,writeFieldValue,if_pos hlist]
  unfold writeListFieldValue
  by_cases hencoding : field.encoding = .kArena
  · have hinside : ∀ element ∈ values.mapIdx Prod.mk, row.arena.length+element.1*16+16 ≤
        (row.arena++List.replicate (values.length*16) 0).length := by
      intro element helement
      obtain ⟨i,hi,rfl⟩ := List.mem_mapIdx.mp helement
      rw [List.length_append,List.length_replicate]
      dsimp only
      omega
    have hfold {arena : Bytes} := @foldlM_writeStringElement _ _ _ arena hinside
    rw [if_pos hencoding]
    unfold writeArenaListValue
    simp only [htype,hencoding,writeStringListArena,bind_eq_ok,failIf_eq_ok,exists_const,hfold,
      decide_eq_false_iff_not,Nat.not_lt,hcount,true_and,reduceCtorEq,false_and,or_false]
    constructor
    · rintro ⟨arena,harena,hrefs,hwrite⟩
      exact ⟨hrefs,arena,harena,hwrite⟩
    · rintro ⟨hrefs,arena,harena,hwrite⟩
      exact ⟨arena,harena,hrefs,hwrite⟩
  · rw [if_neg hencoding]
    by_cases hentry : field.encoding = .kListDictionary
    · rw [if_pos hentry,if_pos htype]
      simp [hentry,writeListDictionaryStrings,bind_eq_ok,hcount]
    · rw [if_neg hentry]
      by_cases helement : field.encoding = .kElementDictionary
      · rw [if_pos ⟨helement,htype⟩]
        simp only [writeElementDictionaryStrings,helement,bind_eq_ok,failIf_eq_ok,exists_const,
          decide_eq_false_iff_not,Nat.not_lt,hcount,true_and,Prod.exists,addElements_eq_ok,
          List.nil_append,internStrings_eq_ok,reduceCtorEq,false_and,false_or]
        constructor
        · rintro ⟨last,ids,⟨_,⟨hroom,rfl,rfl⟩,rfl⟩,hwrite⟩
          exact ⟨hroom,hwrite⟩
        · rintro ⟨hroom,hwrite⟩
          exact ⟨_,_,⟨_,⟨hroom,rfl,rfl⟩,rfl⟩,hwrite⟩
      · rw [if_neg fun h => helement h.1]
        simp [hencoding,hentry,helement,unsupportedListEncoding]

theorem writeFieldValue_string {value : Bytes} (hlist : field.isList = false)
    (htype : field.type = .kString) :
    writeFieldValue field (.string value) row = .ok row' ↔
      Ingest.writeFieldValue field (.string value) row = .ok row' := by
  rw [Ingest.writeFieldValue_string hlist htype]
  unfold writeFieldValue writeScalarFieldValue
  rw [hlist,htype,if_neg Bool.false_ne_true]
  by_cases hencoding : field.encoding = .kArena
  · simp [hencoding]
  · by_cases hentry : field.encoding = .kDictionary
    · simp [hentry,bind_eq_ok]
    · simp [hencoding,hentry]

theorem writeFieldValue_fixed {scalar : ScalarValue} (hlist : field.isList = false)
    (htype : field.type = scalar.type) (hstring : scalar.type ≠ .kString) :
    writeFieldValue field scalar.value row = Ingest.writeFieldValue field scalar.value row := by
  cases scalar with
  | string v => exact absurd rfl hstring
  | _ =>
    unfold writeFieldValue writeScalarFieldValue Ingest.writeFieldValue Ingest.writeScalarFieldValue
    rw [hlist,htype,if_neg Bool.false_ne_true,if_neg Bool.false_ne_true,failIf_false,ok_bind]
    rfl

/-- The two encoders write a value of the type of the field to the same bytes, or both refuse
it. -/
theorem writeFieldValue_eq_ok {value : FieldValue} (hfits : FieldFits ⟨field.fieldId,value⟩)
    (htyped : Typed field value) (harena : row.arena.length ≤ uint64Max) :
    writeFieldValue field value row = .ok row' ↔
      Ingest.writeFieldValue field value row = .ok row' := by
  rw [Typed] at htyped
  cases hlist : field.isList with
  | true =>
    rw [if_pos hlist] at htyped
    obtain ⟨list,htype,rfl⟩ := htyped
    by_cases hstring : list.type = .kString
    · cases list with
      | strings values => exact writeFieldValue_strings hfits.strings.1 hlist htype
      | _ => cases hstring
    · have hbytes := hfits.scalars hstring
      rw [writeFieldValue_scalars hstring hbytes hlist htype,Ingest.writeFieldValue,if_pos hlist,
        writeListFieldValue_scalars hstring ((ListValue.length_le_bytes hstring).trans hbytes) hlist
          htype harena]
  | false =>
    rw [if_neg (by rw [hlist]; decide)] at htyped
    obtain ⟨scalar,htype,rfl⟩ := htyped
    by_cases hstring : scalar.type = .kString
    · cases scalar with
      | string value => exact writeFieldValue_string hlist htype
      | _ => cases hstring
    · rw [writeFieldValue_fixed hlist htype hstring]

end Values

section Rows

variable {layout : CompiledRowLayout} {row row' : EncodedRow}
  {writes : List (FieldLayout×FieldValue)}

/-- Values for fields of the layout, each of the type of its field and with the lengths that a
payload can carry. -/
def Fitting (layout : CompiledRowLayout) (writes : List (FieldLayout×FieldValue)) : Prop :=
  ∀ w ∈ writes, w.1 ∈ layout.fields ∧ Typed w.1 w.2 ∧ FieldFits ⟨w.1.fieldId,w.2⟩

def totalEntries (writes : List (FieldLayout×FieldValue)) (d : Dictionary) : ℕ :=
  (writes.map fun w => newEntries w.1 w.2 d).sum

def totalArena (writes : List (FieldLayout×FieldValue)) : ℕ :=
  (writes.map fun w => arenaBytes w.1 w.2).sum

/-- The encodings take the values, and the dictionaries have room for all of them. -/
def Storable (row : EncodedRow) (writes : List (FieldLayout×FieldValue)) : Prop :=
  (∀ w ∈ writes, Supported w.1 w.2) ∧
    ∀ d, totalEntries writes d = 0 ∨ dictionarySize row d+totalEntries writes d ≤ 2^32

/-- The fields one after the other, by the writer of the online encoder. -/
def writeFields (writes : List (FieldLayout×FieldValue)) (row : EncodedRow) : StatusOr EncodedRow :=
  writes.foldlM (fun row w => Ingest.writeFieldValue w.1 w.2 row) row

theorem Fitting.tail {w : FieldLayout×FieldValue} (h : Fitting layout (w::writes)) :
    Fitting layout writes :=
  fun other hother => h other (List.mem_cons_of_mem w hother)

theorem totalArena_cons (w : FieldLayout×FieldValue) :
    totalArena (w::writes) = arenaBytes w.1 w.2+totalArena writes := rfl

theorem totalEntries_cons (w : FieldLayout×FieldValue) (d : Dictionary) :
    totalEntries (w::writes) d = newEntries w.1 w.2 d+totalEntries writes d := rfl

/-- One write of a list: it stores its value, and the rest has what is left. -/
theorem stored_first (hformed : Formed layout) {w : FieldLayout×FieldValue}
    (hfitting : Fitting layout (w::writes)) (hsize : layout.rowSlotSize ≤ row.rowSlot.length)
    (harena : row.arena.length+totalArena (w::writes) ≤ uint64Max) {mid : EncodedRow}
    (h : Ingest.writeFieldValue w.1 w.2 row = .ok mid) :
    Supported w.1 w.2 ∧ Room row w.1 w.2 ∧ Stored layout w.1 w.2 row mid ∧
      mid.arena.length+totalArena writes ≤ uint64Max := by
  obtain ⟨hmem,-,hfits⟩ := hfitting w List.mem_cons_self
  rw [totalArena_cons] at harena
  have hchecked := writeFieldValue_checked ⟨hformed,hmem,hsize⟩ hfits (by omega) h
  have hlength := hchecked.arena
  refine ⟨hchecked.supported,hchecked.room,?_,by omega⟩
  exact stored_of_writeFieldValue ⟨hformed,hmem,hsize⟩ hfits (by omega) h

/-- A sequence of writes goes through iff the values can be stored, in whatever order. -/
theorem writeFields_succeeds (hformed : Formed layout) (hfitting : Fitting layout writes)
    (hsize : layout.rowSlotSize ≤ row.rowSlot.length)
    (harena : row.arena.length+totalArena writes ≤ uint64Max) :
    (∃ row', writeFields writes row = .ok row') ↔ Storable row writes := by
  induction writes generalizing row with
  | nil =>
    constructor
    · exact fun _ => ⟨fun w hw => absurd hw List.not_mem_nil,fun d => Or.inl rfl⟩
    · exact fun _ => ⟨row,rfl⟩
  | cons w writes ih =>
    obtain ⟨hmem,htyped,hfits⟩ := hfitting w List.mem_cons_self
    have hsplit : (∃ row', writeFields (w::writes) row = .ok row') ↔
        ∃ mid, Ingest.writeFieldValue w.1 w.2 row = .ok mid ∧
          ∃ row', writeFields writes mid = .ok row' := by
      simp only [writeFields,List.foldlM_cons,bind_eq_ok]
      exact exists_comm.trans (exists_congr fun mid => exists_and_left)
    rw [hsplit]
    constructor
    · rintro ⟨mid,hwrite,hrest⟩
      obtain ⟨hsupported,hroom,hstored,hleft⟩ := stored_first hformed hfitting hsize harena hwrite
      obtain ⟨hothers,htotal⟩ := (ih hfitting.tail (by rw [hstored.length]; exact hsize) hleft).mp
        hrest
      refine ⟨fun other hother => ?_,fun d => ?_⟩
      · rcases List.mem_cons.mp hother with rfl | hother
        · exact hsupported
        · exact hothers other hother
      · have hfirst := hroom d
        have hlater := htotal d
        rw [hstored.sizes d] at hlater
        rw [totalEntries_cons]
        omega
    · rintro ⟨hsupported,htotal⟩
      have hroom : Room row w.1 w.2 := by
        intro d
        have hall := htotal d
        rw [totalEntries_cons] at hall
        omega
      rw [totalArena_cons] at harena
      obtain ⟨mid,hwrite,hstored⟩ := writeFieldValue_stored ⟨hformed,hmem,hsize⟩ hfits (by omega)
        htyped (hsupported w List.mem_cons_self) hroom
      refine ⟨mid,hwrite,(ih hfitting.tail (by rw [hstored.length]; exact hsize) (by
        rw [hstored.arena]
        omega)).mpr ⟨fun other hother => hsupported other (List.mem_cons_of_mem w hother),
          fun d => ?_⟩⟩
      have hall := htotal d
      rw [totalEntries_cons] at hall
      rw [hstored.sizes d]
      omega

theorem writeFields_stored (hformed : Formed layout) (hfitting : Fitting layout writes)
    (hsize : layout.rowSlotSize ≤ row.rowSlot.length)
    (harena : row.arena.length+totalArena writes ≤ uint64Max)
    (h : writeFields writes row = .ok row') : StoredAll layout writes row row' := by
  induction writes generalizing row with
  | nil =>
    cases h
    exact .nil _
  | cons w writes ih =>
    rw [writeFields,List.foldlM_cons] at h
    obtain ⟨mid,hwrite,h⟩ := bind_eq_ok.mp h
    obtain ⟨-,-,hstored,hleft⟩ := stored_first hformed hfitting hsize harena hwrite
    exact .cons hstored (ih hfitting.tail (by rw [hstored.length]; exact hsize) hleft h)

theorem foldlM_writeFieldValue (hformed : Formed layout) (hfitting : Fitting layout writes)
    (hsize : layout.rowSlotSize ≤ row.rowSlot.length)
    (harena : row.arena.length+totalArena writes ≤ uint64Max) :
    writes.foldlM (fun row w => writeFieldValue w.1 w.2 row) row = .ok row' ↔
      writeFields writes row = .ok row' := by
  induction writes generalizing row with
  | nil => exact Iff.rfl
  | cons w writes ih =>
    obtain ⟨-,htyped,hfits⟩ := hfitting w List.mem_cons_self
    have hstart : row.arena.length ≤ uint64Max := by omega
    simp only [writeFields,List.foldlM_cons,bind_eq_ok,writeFieldValue_eq_ok hfits htyped hstart]
    refine exists_congr fun mid => and_congr_right fun hwrite => ?_
    obtain ⟨-,-,hstored,hleft⟩ := stored_first hformed hfitting hsize harena hwrite
    exact ih hfitting.tail (by rw [hstored.length]; exact hsize) hleft

theorem Storable.perm {writes' : List (FieldLayout×FieldValue)} (h : writes.Perm writes') :
    Storable row writes ↔ Storable row writes' := by
  have htotal : ∀ d, totalEntries writes d = totalEntries writes' d :=
    fun d => (h.map _).sum_eq
  simp only [Storable,htotal,h.mem_iff]

/-- The values of an assignment, by the fields of the layout. -/
def assigned (layout : CompiledRowLayout) (values : FieldId → Option FieldValue) :
    List (FieldLayout×FieldValue) :=
  layout.fields.filterMap fun field =>
    ((values field.fieldId).filter (· != .monostate)).map (Prod.mk field)

/-- Every field that is not written is optional. -/
def Complete (layout : CompiledRowLayout) (writes : List (FieldLayout×FieldValue)) : Prop :=
  ∀ field ∈ layout.fields, field ∉ writes.map Prod.fst →
    field.nullable = true ∨ field.hasDefault = true

/-- The field loop of `EncodeRow`: the writes in layout order, and no required field left out. -/
theorem foldlM_encodeLayoutField {values : FieldId → Option FieldValue}
    (fields : List FieldLayout) :
    fields.foldlM (encodeLayoutField values) row = .ok row' ↔
      (∀ field ∈ fields, (values field.fieldId).filter (· != .monostate) = none →
        field.nullable = true ∨ field.hasDefault = true) ∧
      (fields.filterMap fun field =>
        ((values field.fieldId).filter (· != .monostate)).map (Prod.mk field)).foldlM
          (fun row w => writeFieldValue w.1 w.2 row) row = .ok row' := by
  induction fields generalizing row with
  | nil => simp
  | cons field fields ih =>
    rw [List.foldlM_cons,List.forall_mem_cons,List.filterMap_cons]
    cases hvalue : (values field.fieldId).filter (· != .monostate) with
    | none =>
      have hoptional : (!field.nullable && !field.hasDefault) = false ↔
          field.nullable = true ∨ field.hasDefault = true := by
        cases field.nullable
        all_goals simp
      simp only [encodeLayoutField,hvalue,bind_eq_ok,failIf_eq_ok,pure_eq_ok,Except.ok.injEq,
        hoptional,Option.map_none,ih,forall_const]
      constructor
      · rintro ⟨_,⟨_,hfield,rfl⟩,hrest,hwrites⟩
        exact ⟨⟨hfield,hrest⟩,hwrites⟩
      · rintro ⟨⟨hfield,hrest⟩,hwrites⟩
        exact ⟨row,⟨(),hfield,rfl⟩,hrest,hwrites⟩
    | some value =>
      simp only [encodeLayoutField,hvalue,Option.map_some,List.foldlM_cons,bind_eq_ok,ih]
      constructor
      · rintro ⟨mid,hwrite,hrest,hwrites⟩
        exact ⟨⟨fun hnone => absurd hnone (Option.some_ne_none value),hrest⟩,mid,hwrite,hwrites⟩
      · rintro ⟨⟨-,hrest⟩,mid,hwrite,hwrites⟩
        exact ⟨mid,hwrite,hrest,hwrites⟩

theorem mem_assigned {values : FieldId → Option FieldValue} {field : FieldLayout}
    {value : FieldValue} :
    (field,value) ∈ assigned layout values ↔
      field ∈ layout.fields ∧ values field.fieldId = some value ∧ value ≠ .monostate := by
  simp only [assigned,List.mem_filterMap,Option.map_eq_some_iff,Prod.mk.injEq,
    Option.filter_eq_some_iff,bne_iff_ne]
  constructor
  · rintro ⟨_,hfield,_,hvalue,rfl,rfl⟩
    exact ⟨hfield,hvalue⟩
  · rintro ⟨hfield,hvalue⟩
    exact ⟨field,hfield,value,hvalue,rfl,rfl⟩

theorem assigned_fst {values : FieldId → Option FieldValue} :
    (assigned layout values).map Prod.fst =
      layout.fields.filter fun field =>
        ((values field.fieldId).filter (· != .monostate)).isSome := by
  rw [assigned,List.map_filterMap]
  induction layout.fields with
  | nil => rfl
  | cons field fields ih =>
    rw [List.filterMap_cons,List.filter_cons,ih]
    cases (values field.fieldId).filter (· != .monostate) with
    | none => rfl
    | some value => rfl

theorem complete_assigned {values : FieldId → Option FieldValue} :
    Complete layout (assigned layout values) ↔
      ∀ field ∈ layout.fields, (values field.fieldId).filter (· != .monostate) = none →
        field.nullable = true ∨ field.hasDefault = true := by
  refine forall₂_congr fun field hfield => ?_
  rw [assigned_fst,List.mem_filter,Option.isSome_iff_ne_none,not_and,not_ne_iff]
  exact imp_congr_left ⟨fun h => h hfield,fun h _ => h⟩

/-- The field loop of `EncodeForLayout`: the writes in the order of the payload. -/
theorem foldlM_encodeField {payload : DecodedPayload}
    (hvalues : ∀ decoded ∈ payload, decoded.value ≠ .monostate) :
    payload.foldlM (encodeField layout) row = .ok row' ↔
      writeFields (placed layout payload) row = .ok row' := by
  induction payload generalizing row with
  | nil => exact Iff.rfl
  | cons decoded payload ih =>
    have hrest := fun other hother => hvalues other (List.mem_cons_of_mem decoded hother)
    have hvalue := hvalues decoded List.mem_cons_self
    rw [List.foldlM_cons,placed,List.filterMap_cons,bind_eq_ok]
    cases hfound : layout.findField decoded.fieldId with
    | none =>
      simp only [encodeField_unknown hfound,Except.ok.injEq,exists_eq_left']
      exact ih hrest
    | some field =>
      simp only [encodeField_known hfound,hvalue,ne_eq,not_false_eq_true,true_and,Option.map_some,
        writeFields,List.foldlM_cons,bind_eq_ok]
      exact exists_congr fun mid => and_congr_right fun _ => ih hrest

section Stored

variable (hstored : StoredAll layout writes (createEncodedRow layout) row) (hformed : Formed layout)
  (hmem : ∀ w ∈ writes, w.1 ∈ layout.fields) (hdistinct : (writes.map Prod.fst).Nodup)

include hstored hformed

theorem fieldPresent_other {field : FieldLayout} (hfield : field ∈ layout.fields)
    (habsent : field ∉ writes.map Prod.fst) : fieldPresent field row = false := by
  have hother : ∀ w ∈ writes, field ≠ w.1 := by
    rintro w hw rfl
    exact habsent (List.mem_map_of_mem hw)
  rw [(hstored.other hformed hfield hother).1,fieldPresent_create]

include hmem hdistinct

theorem materializeRow_succeeds :
    (∃ made, materializeRow layout row = .ok made) ↔ Complete layout writes := by
  obtain ⟨hversion,hfingerprint,hlength⟩ := hstored.kept
  have hsize : ¬row.rowSlot.length < layout.rowSlotSize := by
    rw [hlength,createEncodedRow,List.length_replicate]
    exact lt_irrefl _
  constructor
  · rintro ⟨made,hmade⟩ field hfield habsent
    exact (materializeRow_checks hmade).2.2 field hfield
      (fieldPresent_other hstored hformed hfield habsent)
  · intro hcomplete
    have hrequired : layout.fields.any (requiredFieldAbsent row) = false := by
      rw [List.any_eq_false]
      intro field hfield habsent
      simp only [requiredFieldAbsent,Bool.and_eq_true,Bool.not_eq_true'] at habsent
      obtain ⟨⟨hnullable,hdefault⟩,hpresent⟩ := habsent
      have hwritten : field ∈ writes.map Prod.fst := by
        by_contra hmissing
        have hoptional := hcomplete field hfield hmissing
        rw [hnullable,hdefault] at hoptional
        simp at hoptional
      obtain ⟨w,hw,rfl⟩ := List.mem_map.mp hwritten
      rw [(hstored.reads hformed hmem hdistinct hw).1] at hpresent
      cases hpresent
    refine ⟨⟨layout,row⟩,?_⟩
    rw [materializeRow,hversion,hfingerprint,createEncodedRow,bne_self_eq_false,bne_self_eq_false,
      Bool.or_self,failIf_false,ok_bind,decide_eq_false hsize,failIf_false,ok_bind,hrequired,
      failIf_false,ok_bind,pure_eq_ok]

end Stored

end Rows

section Agreement

variable {schema : RuntimeSchema} {payload : DecodedPayload} {values : FieldId → Option FieldValue}

/-- An assignment of values to fields of a layout, as a payload and as a map. -/
structure Assignment (layout : CompiledRowLayout) (payload : DecodedPayload)
    (values : FieldId → Option FieldValue) : Prop where
  distinct : (payload.map DecodedField.fieldId).Nodup
  same : ∀ fieldId value, values fieldId = some value ↔ ⟨fieldId,value⟩ ∈ payload
  typed : ∀ decoded ∈ payload, ∃ field, layout.findField decoded.fieldId = some field ∧
    Typed field decoded.value
  fits : ∀ decoded ∈ payload, FieldFits decoded

theorem typed_ne_monostate {field : FieldLayout} {value : FieldValue} (h : Typed field value) :
    value ≠ .monostate := by
  rintro rfl
  rw [Typed] at h
  split_ifs at h
  · obtain ⟨list,-,hvalue⟩ := h
    cases list
    all_goals cases hvalue
  · obtain ⟨scalar,-,hvalue⟩ := h
    cases scalar
    all_goals cases hvalue

/-- The two encoders write the same values, in the orders of the layout and of the payload. -/
theorem Assignment.perm (hr : schema.Reachable) (h : Assignment (compile schema) payload values) :
    (assigned (compile schema) values).Perm (placed (compile schema) payload) := by
  have hfields : (compile schema).fields.Nodup := by
    have hids : ((compile schema).fields.map FieldLayout.fieldId).Nodup :=
      List.pairwise_map.mpr ((compile_increasing hr.accepted).imp fun hlt => UInt32.ne_of_lt hlt)
    exact hids.of_map
  have hassigned : (assigned (compile schema) values).Nodup := by
    refine List.Nodup.of_map Prod.fst ?_
    rw [assigned_fst]
    exact hfields.filter _
  have hplaced : (placed (compile schema) payload).Nodup :=
    List.Nodup.of_map Prod.fst (placed_nodup h.distinct)
  refine (List.perm_ext_iff_of_nodup hassigned hplaced).mpr fun w => ?_
  obtain ⟨field,value⟩ := w
  rw [mem_assigned,mem_placed]
  constructor
  · rintro ⟨hfield,hvalue,-⟩
    exact ⟨⟨field.fieldId,value⟩,(h.same _ _).mp hvalue,findField_of_mem hr hfield,rfl⟩
  · rintro ⟨decoded,hdecoded,hfound,rfl⟩
    obtain ⟨hfield,hid⟩ := mem_of_findField hfound
    obtain ⟨other,hother,htyped⟩ := h.typed decoded hdecoded
    refine ⟨hfield,?_,typed_ne_monostate htyped⟩
    rw [hid]
    exact (h.same _ _).mpr hdecoded

theorem Assignment.fitting (h : Assignment (compile schema) payload values) :
    Fitting (compile schema) (placed (compile schema) payload) := by
  intro w hw
  obtain ⟨decoded,hdecoded,hfound,hvalue⟩ := mem_placed.mp (show (w.1,w.2) ∈ _ from hw)
  obtain ⟨hfield,hid⟩ := mem_of_findField hfound
  obtain ⟨field,hother,htyped⟩ := h.typed decoded hdecoded
  rw [hfound,Option.some.injEq] at hother
  rw [← hvalue,hid,hother]
  exact ⟨hother ▸ hfield,htyped,h.fits decoded hdecoded⟩

theorem Fitting.perm {layout : CompiledRowLayout} {writes writes' : List (FieldLayout×FieldValue)}
    (h : Fitting layout writes) (hperm : writes'.Perm writes) : Fitting layout writes' :=
  fun w hw => h w (hperm.mem_iff.mp hw)

theorem Complete.perm {layout : CompiledRowLayout} {writes writes' : List (FieldLayout×FieldValue)}
    (h : writes.Perm writes') : Complete layout writes ↔ Complete layout writes' := by
  simp only [Complete,(h.map Prod.fst).mem_iff]

theorem totalArena_perm {writes writes' : List (FieldLayout×FieldValue)} (h : writes.Perm writes') :
    totalArena writes = totalArena writes' := (h.map _).sum_eq

section Created

variable {layout : CompiledRowLayout} {writes : List (FieldLayout×FieldValue)} {row : EncodedRow}

theorem create_size (layout : CompiledRowLayout) :
    layout.rowSlotSize ≤ (createEncodedRow layout).rowSlot.length := by
  rw [createEncodedRow,List.length_replicate]

theorem create_arena (layout : CompiledRowLayout) (h : totalArena writes ≤ uint64Max) :
    (createEncodedRow layout).arena.length+totalArena writes ≤ uint64Max := by
  rw [createEncodedRow,List.length_nil,Nat.zero_add]
  exact h

/-- When `EncodeRow` makes a row. -/
theorem encodeRow_eq_ok (hformed : Formed layout)
    (hfitting : Fitting layout (assigned layout values))
    (harena : totalArena (assigned layout values) ≤ uint64Max) :
    encodeRow layout values = .ok row ↔ Complete layout (assigned layout values) ∧
      writeFields (assigned layout values) (createEncodedRow layout) = .ok row := by
  rw [encodeRow,foldlM_encodeLayoutField,complete_assigned]
  exact and_congr_right fun _ => foldlM_writeFieldValue hformed hfitting (create_size layout)
    (create_arena layout harena)

/-- When `EncodeForLayout` makes a row. -/
theorem encodeForLayout_eq_ok (hformed : Formed layout) (hpayload : Assignment layout payload values)
    (hfitting : Fitting layout (placed layout payload))
    (harena : totalArena (placed layout payload) ≤ uint64Max) :
    encodeForLayout payload (some layout) = .ok row ↔ Complete layout (placed layout payload) ∧
      writeFields (placed layout payload) (createEncodedRow layout) = .ok row := by
  have hvalues : ∀ decoded ∈ payload, decoded.value ≠ .monostate := by
    intro decoded hdecoded
    obtain ⟨field,-,htyped⟩ := hpayload.typed decoded hdecoded
    exact typed_ne_monostate htyped
  rw [Ingest.encodeForLayout_eq_ok,foldlM_encodeField hvalues,and_comm]
  refine and_congr_left fun hwrites => ?_
  have hstored := writeFields_stored hformed hfitting (create_size layout)
    (create_arena layout harena) hwrites
  exact materializeRow_succeeds hstored hformed (fun w hw => (hfitting w hw).1)
    (placed_nodup hpayload.distinct)

end Created

theorem written_reads (hr : schema.Reachable) {writes : List (FieldLayout×FieldValue)}
    {row : EncodedRow} (hfitting : Fitting (compile schema) writes)
    (hdistinct : (writes.map Prod.fst).Nodup) (harena : totalArena writes ≤ uint64Max)
    (hcomplete : Complete (compile schema) writes)
    (hwrites : writeFields writes (createEncodedRow (compile schema)) = .ok row) :
    (∀ w ∈ writes, (Row.mk (compile schema) row).readField w.1 = .ok w.2) ∧
    ∀ field ∈ (compile schema).fields, field ∉ writes.map Prod.fst →
      (Row.mk (compile schema) row).readField field = absentRead field := by
  have hformed := compile_formed schema
  have hmem : ∀ w ∈ writes, w.1 ∈ (compile schema).fields := fun w hw => (hfitting w hw).1
  have hstored := writeFields_stored hformed hfitting (create_size _) (create_arena _ harena) hwrites
  obtain ⟨made,hmade⟩ := (materializeRow_succeeds hstored hformed hmem hdistinct).mpr hcomplete
  obtain ⟨hreads,habsent⟩ := stored_reads hr hstored hmem hdistinct (materializeRow_checks hmade).2.2
  exact ⟨fun w hw => (hreads w hw).2,fun field hfield hnone => (habsent field hfield hnone).2⟩

/-- The offline and the online encoder make rows of the same assignments, and a field reads the
same from the two rows. The values have room in the address space. -/
theorem encoders_agree (hr : schema.Reachable) (h : Assignment (compile schema) payload values)
    (harena : totalArena (placed (compile schema) payload) ≤ uint64Max) :
    ((∃ row, encodeRow (compile schema) values = .ok row) ↔
      ∃ row, encodeForLayout payload (some (compile schema)) = .ok row) ∧
    ∀ offline online, encodeRow (compile schema) values = .ok offline →
      encodeForLayout payload (some (compile schema)) = .ok online →
      ∀ field ∈ (compile schema).fields,
        (Row.mk (compile schema) offline).readField field =
          (Row.mk (compile schema) online).readField field := by
  have hformed := compile_formed schema
  have hperm := h.perm hr
  have hplaced := h.fitting
  have hassigned := hplaced.perm hperm
  have harena' : totalArena (assigned (compile schema) values) ≤ uint64Max := by
    rw [totalArena_perm hperm]
    exact harena
  have hoffline {row : EncodedRow} := @encodeRow_eq_ok values _ row hformed hassigned harena'
  have honline {row : EncodedRow} := @encodeForLayout_eq_ok payload values _ row hformed h hplaced harena
  have hsize := create_size (compile schema)
  refine ⟨?_,?_⟩
  · simp only [hoffline,honline,exists_and_left]
    rw [writeFields_succeeds hformed hassigned hsize (create_arena _ harena'),
      writeFields_succeeds hformed hplaced hsize (create_arena _ harena),Storable.perm hperm,
      Complete.perm hperm]
  · intro offline online hmade hmade' field hfield
    obtain ⟨hcomplete,hwrites⟩ := hoffline.mp hmade
    obtain ⟨hcomplete',hwrites'⟩ := honline.mp hmade'
    have hdistinct := @placed_nodup (compile schema) payload h.distinct
    have hdistinct' : ((assigned (compile schema) values).map Prod.fst).Nodup :=
      (hperm.map Prod.fst).nodup_iff.mpr hdistinct
    obtain ⟨hreads,habsent⟩ := written_reads hr hassigned hdistinct' harena' hcomplete hwrites
    obtain ⟨hreads',habsent'⟩ := written_reads hr hplaced hdistinct harena hcomplete' hwrites'
    by_cases hwritten : field ∈ (assigned (compile schema) values).map Prod.fst
    · obtain ⟨w,hw,rfl⟩ := List.mem_map.mp hwritten
      rw [hreads w hw,hreads' w (hperm.mem_iff.mp hw)]
    · have hmissing : field ∉ (placed (compile schema) payload).map Prod.fst :=
        fun hmem => hwritten ((hperm.map Prod.fst).mem_iff.mpr hmem)
      rw [habsent field hfield hwritten,habsent' field hfield hmissing]

def pairName : FieldSpec := { fieldId := 7,name := [110],type := .kString,encoding := .kArena }

def pairList : FieldSpec :=
  { fieldId := 8,name := [108],type := .kInt32,isList := true,encoding := .kArena }

def pairSchema : RuntimeSchema := { version := 1,activeFields := [pairName,pairList] }

def pairPayload : DecodedPayload := [⟨7,.string [104]⟩,⟨8,.int32s [1,2]⟩]

def pairValues (fieldId : FieldId) : Option FieldValue :=
  if fieldId = 7 then some (.string [104]) else if fieldId = 8 then some (.int32s [1,2]) else none

theorem pair_assignment {payload : DecodedPayload} (hperm : payload.Perm pairPayload) :
    Assignment (compile pairSchema) payload pairValues := by
  refine ⟨?_,?_,?_,?_⟩
  · rw [(hperm.map DecodedField.fieldId).nodup_iff]
    decide
  · intro fieldId value
    rw [hperm.mem_iff,pairValues,pairPayload]
    by_cases hname : fieldId = 7
    · subst hname
      simp [eq_comm]
    · by_cases hlist : fieldId = 8
      · subst hlist
        simp [eq_comm]
      · simp [hname,hlist]
  · intro decoded hdecoded
    rw [hperm.mem_iff,pairPayload,List.mem_cons,List.mem_singleton] at hdecoded
    rcases hdecoded with rfl | rfl
    · exact ⟨_,rfl,.string [104],rfl,rfl⟩
    · exact ⟨_,rfl,.int32s [1,2],rfl,rfl⟩
  · intro decoded hdecoded
    rw [hperm.mem_iff,pairPayload,List.mem_cons,List.mem_singleton] at hdecoded
    rcases hdecoded with rfl | rfl
    · exact ⟨by decide,trivial⟩
    · exact ⟨by decide,show 2 < 2^32 by decide⟩

theorem pairSchema_reachable : pairSchema.Reachable := by
  have hname : RuntimeSchema.addField { version := 1 } pairName =
      .ok { version := 1,activeFields := [pairName] } := by
    rw [RuntimeSchema.addField,show validateEncodingPolicy pairName = .ok () by decide]
    rfl
  have hlist : RuntimeSchema.addField { version := 1,activeFields := [pairName] } pairList =
      .ok pairSchema := by
    rw [RuntimeSchema.addField,show validateEncodingPolicy pairList = .ok () by decide]
    rfl
  exact .addField (.addField (.create 1) hname) hlist

theorem pairValues_encoded : ∃ row, encodeRow (compile pairSchema) pairValues = .ok row := by
  have hok : (encodeRow (compile pairSchema) pairValues).isOk = true := by decide +kernel
  cases hrow : encodeRow (compile pairSchema) pairValues with
  | error status =>
    rw [hrow] at hok
    cases hok
  | ok row => exact ⟨row,rfl⟩

/-- Both orders of the payload make the row that the offline encoder makes. -/
theorem encoders_agree_sample : ∃ offline, encodeRow (compile pairSchema) pairValues = .ok offline ∧
    ∀ payload ∈ [pairPayload,pairPayload.reverse], ∃ online,
      encodeForLayout payload (some (compile pairSchema)) = .ok online ∧
      ∀ field ∈ (compile pairSchema).fields,
        (Row.mk (compile pairSchema) offline).readField field =
          (Row.mk (compile pairSchema) online).readField field := by
  obtain ⟨offline,hoffline⟩ := pairValues_encoded
  refine ⟨offline,hoffline,?_⟩
  intro payload hmem
  have hperm : payload.Perm pairPayload := by
    rw [List.mem_cons,List.mem_singleton] at hmem
    rcases hmem with rfl | rfl
    · exact List.Perm.refl _
    · exact List.reverse_perm _
  have hassignment := pair_assignment hperm
  have harena : totalArena (placed (compile pairSchema) payload) ≤ uint64Max := by
    rw [List.mem_cons,List.mem_singleton] at hmem
    rcases hmem with rfl | rfl
    · decide +kernel
    · decide +kernel
  obtain ⟨hboth,hreads⟩ := encoders_agree pairSchema_reachable hassignment harena
  obtain ⟨online,honline⟩ := hboth.mp ⟨offline,hoffline⟩
  exact ⟨online,honline,hreads offline online hoffline honline⟩

end Agreement

end Offline
end KvIndex
