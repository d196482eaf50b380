import KvIndex.RowReaders

/-! What a write to one field leaves of a row. The slot window and the presence bit of every
other field stay, the arena and the dictionaries grow at their ends, and a read of another
field answers as before unless it failed for a ref that led out of the row. -/
namespace KvIndex

open Base LittleEndian Schema CompiledRowLayout

namespace Model

theorem shiftBit_toBitVec {i : ℕ} (hi : i < 8) :
    ((1 : UInt8) <<< UInt8.ofNat i).toBitVec = BitVec.twoPow 8 i := by
  have hshift : (UInt8.ofNat i).toBitVec%8 = BitVec.ofNat 8 i := by
    apply BitVec.eq_of_toNat_eq
    simp
    omega
  rw [UInt8.toBitVec_shiftLeft,BitVec.twoPow_eq,hshift]
  simp [Nat.mod_eq_of_lt (show i < 256 by omega)]

theorem testBit_eq (b : UInt8) {i : ℕ} (hi : i < 8) :
    (b &&& (1 <<< UInt8.ofNat i) != 0) = b.toBitVec.getLsbD i := by
  have hzero : b &&& (1 <<< UInt8.ofNat i) = 0 ↔ b.toBitVec.getLsbD i = false := by
    rw [← UInt8.toBitVec_inj,UInt8.toBitVec_and,shiftBit_toBitVec hi,BitVec.and_twoPow]
    cases b.toBitVec.getLsbD i with
    | false => simp
    | true =>
      rw [if_pos rfl]
      refine iff_of_false ?_ (by simp)
      intro h
      have hbit := congrArg (fun x => x.getLsbD i) h
      simp [hi] at hbit
  rw [bne,Bool.eq_iff_iff]
  simp [hzero]

theorem getLsbD_setBit (b : UInt8) {i j : ℕ} (hi : i < 8) :
    (b ||| (1 <<< UInt8.ofNat i)).toBitVec.getLsbD j = (b.toBitVec.getLsbD j || decide (i = j)) := by
  rw [UInt8.toBitVec_or,shiftBit_toBitVec hi,BitVec.getLsbD_or,BitVec.getLsbD_twoPow]
  simp [hi]

/-- Two rows that agree but for their slots. -/
structure SameData (row row' : EncodedRow) : Prop where
  schemaVersion : row'.schemaVersion = row.schemaVersion
  layoutFingerprint : row'.layoutFingerprint = row.layoutFingerprint
  arena : row'.arena = row.arena
  stringDictionary : row'.stringDictionary = row.stringDictionary
  scalarListDictionary : row'.scalarListDictionary = row.scalarListDictionary
  stringListDictionary : row'.stringListDictionary = row.stringListDictionary
  stringElementDictionary : row'.stringElementDictionary = row.stringElementDictionary

theorem setFieldPresent_spec {field : FieldLayout} {row : EncodedRow}
    (h : field.presenceBitIndex/8 < row.rowSlot.length) :
    ∃ row', setFieldPresent field row = .ok row' ∧ SameData row row' ∧
      row'.rowSlot.length = row.rowSlot.length ∧
      (∀ i, i ≠ field.presenceBitIndex/8 → row'.rowSlot[i]? = row.rowSlot[i]?) ∧
      ∀ other : FieldLayout, fieldPresent other row' =
        (fieldPresent other row || decide (field.presenceBitIndex = other.presenceBitIndex)) := by
  have hfail : failIf (field.presenceBitIndex/8 ≥ row.rowSlot.length)
      (.invalidArgument "presence bit is out of row-slot bounds") = .ok () := by
    simpa using h
  have hset : setFieldPresent field row = .ok { row with
      rowSlot := row.rowSlot.set (field.presenceBitIndex/8)
        (row.rowSlot.getD (field.presenceBitIndex/8) 0 |||
          (1 <<< UInt8.ofNat (field.presenceBitIndex%8))) } := by
    rw [setFieldPresent,hfail,ok_bind]
    rfl
  refine ⟨_,hset,⟨rfl,rfl,rfl,rfl,rfl,rfl,rfl⟩,List.length_set,?_,?_⟩
  · intro i hi
    exact List.getElem?_set_ne (Ne.symm hi)
  · intro other
    simp only [fieldPresent,List.length_set]
    by_cases hother : other.presenceBitIndex/8 ≥ row.rowSlot.length
    · have hne : field.presenceBitIndex ≠ other.presenceBitIndex := by
        intro heq
        rw [← heq] at hother
        omega
      rw [if_pos hother,if_pos hother,decide_eq_false hne,Bool.or_false]
    · have hbit : other.presenceBitIndex%8 < 8 := Nat.mod_lt _ (by decide)
      have hbit' : field.presenceBitIndex%8 < 8 := Nat.mod_lt _ (by decide)
      rw [if_neg hother,if_neg hother,testBit_eq _ hbit,testBit_eq _ hbit]
      by_cases hbyte : other.presenceBitIndex/8 = field.presenceBitIndex/8
      · rw [hbyte,List.getD_eq_getElem?_getD,List.getElem?_set_self h,Option.getD_some,
          getLsbD_setBit _ hbit']
        congr 1
        apply decide_eq_decide.mpr
        omega
      · have hne : field.presenceBitIndex ≠ other.presenceBitIndex := by
          intro heq
          rw [heq] at hbyte
          exact hbyte rfl
        rw [List.getD_eq_getElem?_getD,List.getElem?_set_ne (Ne.symm hbyte),
          List.getD_eq_getElem?_getD,decide_eq_false hne,Bool.or_false]

/-- The slot after `bytes` were written to the window of `field` and its bit was set. -/
structure SlotWritten (layout : CompiledRowLayout) (field : FieldLayout) (bytes : Bytes)
    (row row' : EncodedRow) : Prop where
  data : SameData row row'
  length : row'.rowSlot.length = row.rowSlot.length
  written : slice row'.rowSlot field.slotOffset field.valueWidth = bytes
  slots : ∀ other ∈ layout.fields, other ≠ field →
    slice row'.rowSlot other.slotOffset other.valueWidth =
      slice row.rowSlot other.slotOffset other.valueWidth
  present : fieldPresent field row' = true
  bits : ∀ other ∈ layout.fields, other ≠ field → fieldPresent other row' = fieldPresent other row

section Layout

variable {layout : CompiledRowLayout} {field other : FieldLayout} {row : EncodedRow}

theorem bit_inside (hformed : Formed layout) (hfield : field ∈ layout.fields) :
    field.presenceBitIndex/8 < layout.presenceBitmapBytes := by
  obtain ⟨i,hi⟩ := List.mem_iff_getElem?.mp hfield
  have hlt := (List.getElem?_eq_some_iff.mp hi).1
  have hbit := hformed.bit i field hi
  have hbitmap := hformed.bitmap
  omega

theorem bit_ne (hformed : Formed layout) (hfield : field ∈ layout.fields)
    (hother : other ∈ layout.fields) (hne : other ≠ field) :
    field.presenceBitIndex ≠ other.presenceBitIndex := by
  intro heq
  obtain ⟨i,hi⟩ := List.mem_iff_getElem?.mp hfield
  obtain ⟨j,hj⟩ := List.mem_iff_getElem?.mp hother
  rw [hformed.bit i field hi,hformed.bit j other hj] at heq
  rw [heq,hj,Option.some.injEq] at hi
  exact hne hi

theorem apart_of_ne (hformed : Formed layout) (hfield : field ∈ layout.fields)
    (hother : other ∈ layout.fields) (hne : other ≠ field) : FieldLayout.Apart other field := by
  have hsymm : Std.Symm FieldLayout.Apart := ⟨fun _ _ h => h.symm⟩
  exact hformed.apart.forall hother hfield hne

theorem slotWritten (hformed : Formed layout) (hfield : field ∈ layout.fields)
    (hsize : layout.rowSlotSize ≤ row.rowSlot.length) {bytes : Bytes}
    (hbytes : bytes.length = field.valueWidth) :
    ∃ row', setFieldPresent field { row with
        rowSlot := splice row.rowSlot field.slotOffset bytes } = .ok row' ∧
      SlotWritten layout field bytes row row' := by
  have hend := hformed.inside field hfield
  rw [FieldLayout.slotEnd] at hend
  have hinside : field.slotOffset+bytes.length ≤ row.rowSlot.length := by omega
  have hlength := splice_length row.rowSlot field.slotOffset bytes hinside
  have hbitmap := hformed.bitmapInside
  have hbit := bit_inside hformed hfield
  obtain ⟨row',hset,hdata,hrowLength,hkept,hbits⟩ := @setFieldPresent_spec field
    { row with rowSlot := splice row.rowSlot field.slotOffset bytes }
    (show field.presenceBitIndex/8 < _ by rw [hlength]; omega)
  -- The presence byte of the field lies in the bitmap, in front of every window.
  have hslot : ∀ other ∈ layout.fields,
      slice row'.rowSlot other.slotOffset other.valueWidth =
        slice (splice row.rowSlot field.slotOffset bytes) other.slotOffset other.valueWidth := by
    intro other hother
    have hbehind := hformed.behind other hother
    exact slice_congr fun i _ => hkept _ (by omega)
  refine ⟨row',hset,⟨hdata.1,hdata.2,hdata.3,hdata.4,hdata.5,hdata.6,hdata.7⟩,
    hrowLength.trans hlength,?_,?_,?_,?_⟩
  · rw [hslot field hfield,← hbytes]
    exact slice_splice_same row.rowSlot field.slotOffset bytes hinside
  · intro other hother hne
    have hapart := apart_of_ne hformed hfield hother hne
    rw [FieldLayout.Apart,FieldLayout.slotEnd,FieldLayout.slotEnd] at hapart
    rw [hslot other hother]
    exact slice_splice_disjoint row.rowSlot field.slotOffset bytes _ _ hinside (by omega)
  · rw [hbits field,decide_eq_true rfl,Bool.or_true]
  · intro other hother hne
    rw [hbits other,decide_eq_false (bit_ne hformed hfield hother hne),Bool.or_false]
    have hbehind := hformed.behind field hfield
    have hbyte := bit_inside hformed hother
    have hsame := splice_getElem?_outside row.rowSlot field.slotOffset bytes
      (other.presenceBitIndex/8) hinside (by omega)
    rw [fieldPresent,fieldPresent,List.getD_eq_getElem?_getD,hsame,hlength,
      List.getD_eq_getElem?_getD]

end Layout

/-- Every container of the row may have grown at its end. -/
structure Grown (row row' : EncodedRow) : Prop where
  arena : row.arena <+: row'.arena
  stringDictionary : row.stringDictionary <+: row'.stringDictionary
  scalarListDictionary : row.scalarListDictionary <+: row'.scalarListDictionary
  stringListDictionary : row.stringListDictionary <+: row'.stringListDictionary
  stringElementDictionary : row.stringElementDictionary <+: row'.stringElementDictionary

/-- The failures that more bytes or more entries can cure. -/
inductive Outside (row row' : EncodedRow) : Status → Prop
  | refOffset : Outside row row' (.invalidArgument "value ref offset is out of bounds")
  | refLength : Outside row row' (.invalidArgument "value ref length is out of bounds")
  | access : Outside row row'
      (.invalidArgument "little-endian fixed-width access is out of bounds")
  | stringId (h : row'.stringDictionary ≠ row.stringDictionary) : Outside row row'
      (.invalidArgument "string dictionary id is out of bounds")
  | scalarListId (h : row'.scalarListDictionary ≠ row.scalarListDictionary) : Outside row row'
      (.invalidArgument "scalar-list dictionary id is out of bounds")
  | stringListId (h : row'.stringListDictionary ≠ row.stringListDictionary) : Outside row row'
      (.invalidArgument "string-list dictionary id is out of bounds")
  | elementId (h : row'.stringElementDictionary ≠ row.stringElementDictionary) : Outside row row'
      (.invalidArgument "element dictionary string id is out of bounds")

/-- The second result is the first one, unless the first one failed for a lack of data. -/
def Kept {T : Type} (row row' : EncodedRow) (first second : StatusOr T) : Prop :=
  second = first ∨ ∃ status, first = .error status ∧ Outside row row' status

section Kept

variable {row row' : EncodedRow} {S T : Type}

theorem Kept.rfl {first : StatusOr T} : Kept row row' first first := Or.inl (Eq.refl first)

theorem Kept.of_eq {first second : StatusOr T} (h : second = first) : Kept row row' first second :=
  Or.inl h

theorem Kept.error {status : Status} {second : StatusOr T} (h : Outside row row' status) :
    Kept row row' (.error status) second := Or.inr ⟨status,Eq.refl _,h⟩

theorem Kept.ok {first second : StatusOr T} {value : T} (h : Kept row row' first second)
    (hfirst : first = .ok value) : second = .ok value := by
  rcases h with h | ⟨status,herror,-⟩
  · rw [h,hfirst]
  · rw [hfirst] at herror
    cases herror

theorem Kept.bind {first second : StatusOr S} {f g : S → StatusOr T}
    (h : Kept row row' first second) (hf : ∀ a, first = .ok a → Kept row row' (f a) (g a)) :
    Kept row row' (first >>= f) (second >>= g) := by
  rcases h with rfl | ⟨status,rfl,houtside⟩
  · cases second with
    | error status => exact Kept.rfl
    | ok a => exact hf a (Eq.refl _)
  · exact Kept.error houtside

theorem Kept.map {first second : StatusOr S} (f : S → T) (h : Kept row row' first second) :
    Kept row row' (first.map f) (second.map f) := by
  rcases h with rfl | ⟨status,rfl,houtside⟩
  · exact Kept.rfl
  · exact Kept.error houtside

theorem Kept.mapM {f g : S → StatusOr T} (h : ∀ a, Kept row row' (f a) (g a)) (as : List S) :
    Kept row row' (as.mapM f) (as.mapM g) := by
  induction as with
  | nil => exact Kept.rfl
  | cons a as ih =>
    rw [List.mapM_cons,List.mapM_cons]
    exact (h a).bind fun b _ => ih.bind fun bs _ => Kept.rfl

theorem Kept.failIf {bad bad' : Bool} {status : Status} (hgood : bad = false → bad' = false)
    (hbad : bad = true → bad' = true ∨ Outside row row' status) :
    Kept row row' (failIf bad status) (failIf bad' status) := by
  cases bad with
  | false =>
    rw [hgood (Eq.refl _)]
    exact Kept.rfl
  | true =>
    rcases hbad (Eq.refl _) with h | h
    · rw [h]
      exact Kept.rfl
    · exact Kept.error h

end Kept

theorem slice_of_isPrefix {bytes bytes' : Bytes} {offset width : ℕ} (h : bytes <+: bytes')
    (hinside : offset+width ≤ bytes.length) : slice bytes' offset width = slice bytes offset width := by
  obtain ⟨more,rfl⟩ := h
  exact slice_append_left hinside

theorem getD_of_isPrefix {T : Type} {entries entries' : List T} {id : ℕ} {none : T}
    (h : entries <+: entries') (hid : id < entries.length) :
    entries'.getD id none = entries.getD id none := by
  obtain ⟨more,rfl⟩ := h
  rw [List.getD_eq_getElem?_getD,List.getElem?_append_left hid,List.getD_eq_getElem?_getD]

section Grown

variable {row row' : EncodedRow}

theorem validateRefBounds_kept {bytes bytes' : Bytes} (h : bytes <+: bytes') (ref : ValueRef16) :
    Kept row row' (validateRefBounds ref bytes.length) (validateRefBounds ref bytes'.length) := by
  have hle := h.length_le
  refine Kept.bind (Kept.failIf ?_ fun _ => Or.inr .refOffset) fun _ _ =>
    Kept.failIf ?_ fun _ => Or.inr .refLength
  · simp only [decide_eq_false_iff_not]
    omega
  · simp only [decide_eq_false_iff_not]
    omega

theorem readLittleEndian_kept {T : Type} [LittleEndianInteger T] {bytes bytes' : Bytes}
    (h : bytes <+: bytes') (offset : ℕ) :
    Kept row row' (readLittleEndian T bytes offset) (readLittleEndian T bytes' offset) := by
  have hle := h.length_le
  by_cases hinside : offset+size T ≤ bytes.length
  · apply Kept.of_eq
    rw [readLittleEndian_of_le hinside,readLittleEndian_of_le (hinside.trans hle),
      slice_of_isPrefix h hinside]
  · have hfail : checkSpanBounds bytes.length offset (size T) =
        .error (.invalidArgument "little-endian fixed-width access is out of bounds") := by
      have hbad : (bytes.length < offset || bytes.length-offset < size T) = true := by
        simp only [Bool.or_eq_true,decide_eq_true_eq]
        omega
      rw [checkSpanBounds,hbad]
      rfl
    rw [readLittleEndian,hfail]
    exact Kept.error .access

theorem decodeValueRef16_kept {bytes bytes' : Bytes} (h : bytes <+: bytes') (offset : ℕ) :
    Kept row row' (decodeValueRef16 bytes offset) (decodeValueRef16 bytes' offset) := by
  have hle := h.length_le
  by_cases hinside : offset+16 ≤ bytes.length
  · apply Kept.of_eq
    rw [decodeValueRef16_of_le hinside,decodeValueRef16_of_le (hinside.trans hle),
      slice_of_isPrefix h hinside]
  · have hfail : checkSpanBounds bytes.length offset 16 =
        .error (.invalidArgument "little-endian fixed-width access is out of bounds") := by
      have hbad : (bytes.length < offset || bytes.length-offset < 16) = true := by
        simp only [Bool.or_eq_true,decide_eq_true_eq]
        omega
      rw [checkSpanBounds,hbad]
      rfl
    rw [decodeValueRef16,hfail]
    exact Kept.error .access

theorem refBytes_of_isPrefix {bytes bytes' : Bytes} {ref : ValueRef16} {u : Unit} (h : bytes <+: bytes')
    (hvalid : validateRefBounds ref bytes.length = .ok u) :
    refBytes ref bytes' = refBytes ref bytes :=
  slice_of_isPrefix h (validateRefBounds_eq_ok.mp hvalid)

theorem readArenaString_kept {bytes bytes' : Bytes} (h : bytes <+: bytes') (offset : ℕ) :
    Kept row row' (readArenaString bytes offset) (readArenaString bytes' offset) := by
  refine (decodeValueRef16_kept h offset).bind fun ref _ => ?_
  refine (validateRefBounds_kept h ref).bind fun _ hvalid => ?_
  rw [refBytes_of_isPrefix h hvalid]
  exact Kept.rfl

theorem decodeArenaStringList_kept (h : Grown row row') (ref : ValueRef16) :
    Kept row row' (decodeArenaStringList ref row) (decodeArenaStringList ref row') :=
  Kept.rfl.bind fun _ _ => (validateRefBounds_kept h.arena ref).bind fun _ _ =>
    Kept.mapM (readArenaString_kept h.arena) _

/-- An id that was in its dictionary stays, and its entry with it. -/
theorem dictionaryCheck_kept {T U : Type} {entries entries' : List T} {status : Status} {id : ℕ}
    {none : T} (f : T → StatusOr U) (h : entries <+: entries')
    (hgrown : entries' ≠ entries → Outside row row' status) :
    Kept row row' (failIf (id ≥ entries.length) status >>= fun _ => f (entries.getD id none))
      (failIf (id ≥ entries'.length) status >>= fun _ => f (entries'.getD id none)) := by
  have hle := h.length_le
  refine Kept.bind (Kept.failIf ?_ ?_) fun _ hid => ?_
  · simp only [decide_eq_false_iff_not]
    omega
  · intro hbad
    by_cases hsame : entries' = entries
    · rw [hsame]
      exact Or.inl hbad
    · exact Or.inr (hgrown hsame)
  · rw [failIf_eq_ok,decide_eq_false_iff_not,Nat.not_le] at hid
    rw [getD_of_isPrefix h hid]
    exact Kept.rfl

theorem readDictionaryElement_kept (h : Grown row row') (offset : ℕ) :
    Kept row row' (readDictionaryElement row offset) (readDictionaryElement row' offset) :=
  (readLittleEndian_kept h.arena offset).bind fun _ _ =>
    dictionaryCheck_kept (fun value => .ok value) h.stringElementDictionary .elementId

theorem readStringRef_kept (h : Grown row row') (encoding : FieldEncoding) (ref : ValueRef16) :
    Kept row row' (readStringRef encoding ref row) (readStringRef encoding ref row') := by
  rw [readStringRef,readStringRef]
  split
  · refine (validateRefBounds_kept h.arena ref).bind fun _ hvalid => ?_
    rw [refBytes_of_isPrefix h.arena hvalid]
    exact Kept.rfl
  · split
    · exact dictionaryCheck_kept (fun value => .ok (FieldDefaultValue.string value))
        h.stringDictionary .stringId
    · exact Kept.rfl

theorem readListRef_kept (h : Grown row row') (type : FieldType) (encoding : FieldEncoding)
    (ref : ValueRef16) :
    Kept row row' (readListRef type encoding ref row) (readListRef type encoding ref row') := by
  rw [readListRef,readListRef]
  split
  · refine (validateRefBounds_kept h.arena ref).bind fun _ hvalid => ?_
    split
    · exact (decodeArenaStringList_kept h ref).map _
    · rw [refBytes_of_isPrefix h.arena hvalid]
      exact Kept.rfl
  · split
    · split
      · exact dictionaryCheck_kept (fun values => do
          failIf (values.length != ref.elementCountOrFlags.toNat)
            (.invalidArgument "string-list dictionary count does not match ref")
          return FieldDefaultValue.strings values) h.stringListDictionary .stringListId
      · exact dictionaryCheck_kept (fun bytes =>
          decodeScalarListByType type bytes ref.elementCountOrFlags)
          h.scalarListDictionary .scalarListId
    · split
      · refine Kept.rfl.bind fun _ _ => (validateRefBounds_kept h.arena ref).bind fun _ _ =>
          Kept.rfl.bind fun _ _ => ?_
        exact (Kept.mapM (readDictionaryElement_kept h) _).map _
      · exact Kept.rfl

end Grown

def readPresent (field : FieldLayout) (row : EncodedRow) : StatusOr FieldValue :=
  if field.isList then readListField field row else readScalarField field row

/-- What a write to `field` leaves of a row of `layout`. -/
structure Frame (layout : CompiledRowLayout) (field : FieldLayout) (row row' : EncodedRow) :
    Prop where
  schemaVersion : row'.schemaVersion = row.schemaVersion
  layoutFingerprint : row'.layoutFingerprint = row.layoutFingerprint
  length : row'.rowSlot.length = row.rowSlot.length
  slots : ∀ other ∈ layout.fields, other ≠ field →
    slice row'.rowSlot other.slotOffset other.valueWidth =
      slice row.rowSlot other.slotOffset other.valueWidth
  bits : ∀ other ∈ layout.fields, other ≠ field → fieldPresent other row' = fieldPresent other row
  grown : Grown row row'

/-- A write of `value` to `field`. -/
structure Written (layout : CompiledRowLayout) (field : FieldLayout) (value : FieldValue)
    (row row' : EncodedRow) : Prop extends Frame layout field row row' where
  present : fieldPresent field row' = true
  reads : readPresent field row' = .ok value

section Reads

variable {layout : CompiledRowLayout} {field other : FieldLayout} {row row' : EncodedRow}

theorem readRef_congr (hlength : row'.rowSlot.length = row.rowSlot.length)
    (hslot : slice row'.rowSlot field.slotOffset 16 = slice row.rowSlot field.slotOffset 16) :
    readRef field row' = readRef field row := by
  by_cases hinside : field.slotOffset+16 ≤ row.rowSlot.length
  · rw [readRef,readRef,hlength,decodeValueRef16_of_le (hlength.symm ▸ hinside),
      decodeValueRef16_of_le hinside,hslot]
  · have hbad : (!hasBytes row.rowSlot.length field.slotOffset 16) = true := by
      simp only [hasBytes,Bool.not_eq_true',Bool.and_eq_false_iff,decide_eq_false_iff_not]
      omega
    rw [readRef,readRef,hlength,hbad]
    rfl

theorem readLittleEndian_congr {T : Type} [LittleEndianInteger T] {bytes bytes' : Bytes} {offset : ℕ}
    (hlength : bytes'.length = bytes.length)
    (hslice : slice bytes' offset (size T) = slice bytes offset (size T)) :
    readLittleEndian T bytes' offset = readLittleEndian T bytes offset := by
  rw [readLittleEndian,readLittleEndian,hlength,hslice]

theorem readScalarField_congr (hshaped : Shaped field) (husesRef : field.usesRef = false)
    (hlength : row'.rowSlot.length = row.rowSlot.length)
    (hslot : slice row'.rowSlot field.slotOffset field.valueWidth =
      slice row.rowSlot field.slotOffset field.valueWidth) :
    readScalarField field row' = readScalarField field row := by
  have hwidth := hshaped.width
  rw [husesRef,if_neg Bool.false_ne_true] at hwidth
  rw [hshaped.usesRef,Bool.or_eq_false_iff,beq_eq_false_iff_ne] at husesRef
  rw [readScalarField,readScalarField,hlength,if_neg husesRef.2,if_neg husesRef.2]
  congr 1
  funext _
  cases hfield : field.type with
  | kString => exact absurd hfield husesRef.2
  | unnamed raw hraw => rfl
  | kBool =>
    rw [hfield] at hwidth
    rw [hwidth] at hslot
    simp only [readBoolAt]
    rw [readLittleEndian_congr hlength hslot]
  | _ =>
    rw [hfield] at hwidth
    rw [hwidth] at hslot
    simp only []
    rw [readLittleEndian_congr hlength hslot]

theorem readScalarField_kept (hshaped : Shaped field)
    (hlength : row'.rowSlot.length = row.rowSlot.length)
    (hslot : slice row'.rowSlot field.slotOffset field.valueWidth =
      slice row.rowSlot field.slotOffset field.valueWidth) (hgrown : Grown row row')
    (hlist : field.isList = false) :
    Kept row row' (readScalarField field row) (readScalarField field row') := by
  by_cases htype : field.type = .kString
  · have hwidth := hshaped.width
    rw [hshaped.usesRef,htype,beq_self_eq_true,Bool.or_true,if_pos rfl,kValueRef16Size] at hwidth
    rw [hwidth] at hslot
    rw [readScalarField,readScalarField,if_pos htype,if_pos htype,readRef_congr hlength hslot]
    exact Kept.rfl.bind fun ref _ => readStringRef_kept hgrown _ ref
  · refine Kept.of_eq (readScalarField_congr hshaped ?_ hlength hslot)
    rw [hshaped.usesRef,hlist,Bool.false_or]
    exact beq_false_of_ne htype

theorem readPresent_kept (hshaped : Shaped field)
    (hlength : row'.rowSlot.length = row.rowSlot.length)
    (hslot : slice row'.rowSlot field.slotOffset field.valueWidth =
      slice row.rowSlot field.slotOffset field.valueWidth) (hgrown : Grown row row') :
    Kept row row' (readPresent field row) (readPresent field row') := by
  rw [readPresent,readPresent]
  cases hlist : field.isList with
  | false => exact readScalarField_kept hshaped hlength hslot hgrown hlist
  | true =>
    have hwidth := hshaped.width
    rw [hshaped.usesRef,hlist,Bool.true_or,if_pos rfl,kValueRef16Size] at hwidth
    rw [hwidth] at hslot
    rw [if_pos rfl,if_pos rfl,readListField,readListField,readRef_congr hlength hslot]
    exact Kept.rfl.bind fun ref _ => readListRef_kept hgrown _ _ ref

theorem Frame.readPresent (h : Frame layout field row row') (hformed : Formed layout)
    (hother : other ∈ layout.fields) (hne : other ≠ field) :
    Kept row row' (readPresent other row) (readPresent other row') :=
  readPresent_kept (hformed.shaped other hother) h.length (h.slots other hother hne) h.grown

theorem Frame.resolveField (h : Frame layout field row row') (fieldId : FieldId)
    (expectedType : FieldType) (expectedList : Bool) (accessor : Option AccessorMetadata) :
    resolveField layout row' fieldId expectedType expectedList accessor =
      resolveField layout row fieldId expectedType expectedList accessor := by
  simp only [Model.resolveField,foreignAccessor,validateAccessor,h.schemaVersion,
    h.layoutFingerprint]

theorem mem_of_findField {fieldId : FieldId} (h : layout.findField fieldId = some field) :
    field ∈ layout.fields ∧ field.fieldId = fieldId :=
  ⟨List.mem_of_find?_eq_some h,by simpa using List.find?_some h⟩

theorem other_of_findField {fieldId : FieldId} (hne : fieldId ≠ field.fieldId)
    (hfound : layout.findField fieldId = some other) : other ∈ layout.fields ∧ other ≠ field := by
  obtain ⟨hmem,hid⟩ := mem_of_findField hfound
  refine ⟨hmem,?_⟩
  rintro rfl
  exact hne hid.symm

theorem Frame.has (h : Frame layout field row row') {fieldId : FieldId}
    (hne : fieldId ≠ field.fieldId) :
    (⟨layout,row'⟩ : Row).has fieldId = (⟨layout,row⟩ : Row).has fieldId := by
  simp only [Row.has]
  cases hfound : layout.findField fieldId with
  | none => rfl
  | some other =>
    obtain ⟨hmem,hother⟩ := other_of_findField hne hfound
    exact h.bits other hmem hother

theorem bind_congr_ok {S T : Type} {first : StatusOr S} {f g : S → StatusOr T}
    (h : ∀ a, first = .ok a → f a = g a) : (first >>= f) = (first >>= g) := by
  cases first with
  | error status => rfl
  | ok a => exact h a rfl

/-- The reads of another id, whatever type and accessor they ask for, are those of its field. -/
theorem Frame.read (h : Frame layout field row row') {fieldId : FieldId}
    (hne : fieldId ≠ field.fieldId)
    (hsame : ∀ other, layout.findField fieldId = some other → fieldPresent other row = true →
      Model.readPresent other row' = Model.readPresent other row)
    (expectedType : FieldType) (accessor : Option AccessorMetadata) :
    (⟨layout,row'⟩ : Row).readScalarValue fieldId expectedType accessor =
        (⟨layout,row⟩ : Row).readScalarValue fieldId expectedType accessor ∧
      (⟨layout,row'⟩ : Row).readListValue fieldId expectedType accessor =
        (⟨layout,row⟩ : Row).readListValue fieldId expectedType accessor := by
  constructor
  · simp only [Row.readScalarValue,h.resolveField]
    refine bind_congr_ok fun other hresolved => ?_
    obtain ⟨-,-,hfound,hlist,-⟩ := resolveField_eq_ok.mp hresolved
    obtain ⟨hmem,hother⟩ := other_of_findField hne hfound
    have hread := hsame other hfound
    rw [Model.readPresent,Model.readPresent,hlist] at hread
    rw [h.bits other hmem hother]
    split_ifs with hpresent
    · exact hread hpresent
    · rfl
  · simp only [Row.readListValue,h.resolveField]
    refine bind_congr_ok fun other hresolved => ?_
    obtain ⟨-,-,hfound,hlist,-⟩ := resolveField_eq_ok.mp hresolved
    obtain ⟨hmem,hother⟩ := other_of_findField hne hfound
    have hread := hsame other hfound
    rw [Model.readPresent,Model.readPresent,hlist] at hread
    rw [h.bits other hmem hother]
    split_ifs with hpresent
    · exact hread hpresent
    · rfl

end Reads

end Model
end KvIndex
