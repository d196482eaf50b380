import Mathlib.Data.UInt
import KvIndex.RowReaders

/-! What a list read takes from the arena. The length check of an element-dictionary list
compares modulo `2^32`, those of the other lists compare sizes. -/
namespace KvIndex

open Base LittleEndian Schema

namespace Model

/-- The width of an element of a list as it stands in the arena. -/
def storedWidth (field : FieldLayout) : ℕ :=
  if field.encoding = .kElementDictionary then size UInt32 else fieldTypeSize field.type

def elementOffsets (field : FieldLayout) (ref : ValueRef16) : List ℕ :=
  if field.encoding = .kElementDictionary then elementIdOffsets ref
  else if field.type = .kString then elementRefOffsets ref
  else (List.range ref.elementCountOrFlags.toNat).map fun i =>
    ref.offset.toNat+i*fieldTypeSize field.type

/-- The window that `ref` declares has the bytes of `count` elements, lies in the arena, and
every element is read inside. -/
structure ReadsInside (field : FieldLayout) (row : EncodedRow) (ref : ValueRef16) (count : ℕ) :
    Prop where
  length : ref.byteLength.toNat = count*storedWidth field
  window : ref.offset.toNat+ref.byteLength.toNat ≤ row.arena.length
  elements : ∀ offset ∈ elementOffsets field ref, ref.offset.toNat ≤ offset ∧
    offset+storedWidth field ≤ ref.offset.toNat+ref.byteLength.toNat

/-- A window of element ids whose size is `2^32` or more, with the length the ids have modulo
`2^32`. All ids stand in the arena, and they name strings. -/
structure Wrapped (field : FieldLayout) (row : EncodedRow) (ref : ValueRef16) : Prop where
  encoding : field.encoding = .kElementDictionary
  string : field.type = .kString
  count : 2^30 ≤ ref.elementCountOrFlags.toNat
  length : ref.byteLength.toNat = ref.elementCountOrFlags.toNat*size UInt32%2^32
  arena : ref.offset.toNat+ref.elementCountOrFlags.toNat*size UInt32 ≤ row.arena.length
  ids : ∀ offset ∈ elementIdOffsets ref, (ofBytes UInt32 (slice row.arena offset (size UInt32))).toNat <
    row.stringElementDictionary.length

theorem decodeArenaStringList_count {ref : ValueRef16} {row : EncodedRow} {values : List Bytes}
    (h : decodeArenaStringList ref row = .ok values) :
    ref.byteLength.toNat = values.length*kValueRef16Size ∧
      values.length = ref.elementCountOrFlags.toNat := by
  simp only [decodeArenaStringList,bind_eq_ok,failIf_eq_ok,exists_const,bne_eq_false_iff_eq,
    mapM_eq_ok] at h
  obtain ⟨hlength,-,-,hvalues⟩ := h
  have hcount := hvalues.length_eq
  rw [elementRefOffsets,List.length_map,List.length_range] at hcount
  exact ⟨by rw [hlength,hcount,kValueRef16Size],hcount.symm⟩

/-- An element of a window that holds `count` elements lies inside. -/
theorem element_inside {i count width length : ℕ} (hi : i < count) (hlength : length = count*width) :
    i*width+width ≤ length := by
  have h := Nat.mul_le_mul_right width (show i+1 ≤ count from hi)
  rw [Nat.add_mul,Nat.one_mul] at h
  omega

theorem readsInside_scalars {field : FieldLayout} {row : EncodedRow} {ref : ValueRef16} {count : ℕ}
    (hencoding : field.encoding = .kArena) (htype : field.type ≠ .kString)
    (hlength : ref.byteLength.toNat = count*fieldTypeSize field.type)
    (hcount : count = ref.elementCountOrFlags.toNat)
    (hwindow : ref.offset.toNat+ref.byteLength.toNat ≤ row.arena.length) :
    ReadsInside field row ref count := by
  have hne : field.encoding ≠ .kElementDictionary := by
    rw [hencoding]
    decide
  refine ⟨by rw [storedWidth,if_neg hne,hlength],hwindow,?_⟩
  intro offset hoffset
  rw [elementOffsets,if_neg hne,if_neg htype] at hoffset
  obtain ⟨i,hi,rfl⟩ := List.mem_map.mp hoffset
  rw [List.mem_range,← hcount] at hi
  have hinside := element_inside hi hlength
  rw [storedWidth,if_neg hne]
  omega

/-- The products of a string list stay below `2^32`, as they are compared with the length. -/
theorem readsInside_strings {field : FieldLayout} {row : EncodedRow} {ref : ValueRef16} {count : ℕ}
    (hencoding : field.encoding = .kArena) (htype : field.type = .kString)
    (hlength : ref.byteLength.toNat = count*kValueRef16Size)
    (hcount : count = ref.elementCountOrFlags.toNat)
    (hwindow : ref.offset.toNat+ref.byteLength.toNat ≤ row.arena.length) :
    ReadsInside field row ref count := by
  have hne : field.encoding ≠ .kElementDictionary := by
    rw [hencoding]
    decide
  have hwidth : storedWidth field = kValueRef16Size := by
    rw [storedWidth,if_neg hne,htype]
    rfl
  refine ⟨by rw [hwidth,hlength],hwindow,?_⟩
  intro offset hoffset
  rw [elementOffsets,if_neg hne,if_pos htype] at hoffset
  obtain ⟨i,hi,rfl⟩ := List.mem_map.mp hoffset
  rw [List.mem_range,← hcount] at hi
  have hinside := element_inside hi hlength
  have hbound := ref.byteLength.toNat_lt
  rw [hwidth]
  rw [kValueRef16Size] at hinside ⊢
  rw [Nat.mod_eq_of_lt (by omega)]
  omega

/-- An element-dictionary list is read inside its window unless the window wrapped. -/
theorem readsInside_ids_iff {field : FieldLayout} {row : EncodedRow} {ref : ValueRef16}
    (hencoding : field.encoding = .kElementDictionary)
    (hlength : ref.byteLength = UInt32.ofNat (ref.elementCountOrFlags.toNat*size UInt32))
    (hwindow : ref.offset.toNat+ref.byteLength.toNat ≤ row.arena.length) :
    ReadsInside field row ref ref.elementCountOrFlags.toNat ↔
      ref.elementCountOrFlags.toNat < 2^30 := by
  have hnat : ref.byteLength.toNat = ref.elementCountOrFlags.toNat*4%2^32 := by
    rw [hlength,UInt32.toNat_ofNat']
    rfl
  have hwidth : storedWidth field = 4 := by
    rw [storedWidth,if_pos hencoding]
    rfl
  constructor
  · intro h
    have hexact := h.length
    have hbound := ref.byteLength.toNat_lt
    rw [hwidth] at hexact
    omega
  · intro hcount
    have hexact : ref.byteLength.toNat = ref.elementCountOrFlags.toNat*4 := by
      rw [hnat]
      exact Nat.mod_eq_of_lt (by omega)
    refine ⟨by rw [hwidth,hexact],hwindow,?_⟩
    intro offset hoffset
    rw [elementOffsets,if_pos hencoding] at hoffset
    obtain ⟨i,hi,rfl⟩ := List.mem_map.mp hoffset
    have hinside := element_inside (List.mem_range.mp hi) hexact
    rw [hwidth]
    show _ ≤ ref.offset.toNat+i*4 ∧ ref.offset.toNat+i*4+4 ≤ _
    omega

theorem readDictionaryElement_eq_ok {row : EncodedRow} {offset : ℕ} {value : Bytes} :
    readDictionaryElement row offset = .ok value ↔
      offset+size UInt32 ≤ row.arena.length ∧
      (ofBytes UInt32 (slice row.arena offset (size UInt32))).toNat <
        row.stringElementDictionary.length ∧
      row.stringElementDictionary.getD
        (ofBytes UInt32 (slice row.arena offset (size UInt32))).toNat [] = value := by
  simp only [readDictionaryElement,bind_eq_ok,readLittleEndian_eq_ok,failIf_eq_ok,exists_const,
    decide_eq_false_iff_not,pure_eq_ok,Except.ok.injEq]
  constructor
  · rintro ⟨id,⟨hinside,rfl⟩,hid,rfl⟩
    exact ⟨hinside,by omega,rfl⟩
  · rintro ⟨hinside,hid,rfl⟩
    exact ⟨_,⟨hinside,rfl⟩,by omega,rfl⟩

theorem readListRef_ids {type : FieldType} {ref : ValueRef16} {row : EncodedRow}
    {values : FieldValue} (h : readListRef type .kElementDictionary ref row = .ok values) :
    type = .kString ∧ ref.offset.toNat+ref.byteLength.toNat ≤ row.arena.length ∧
      ref.byteLength = UInt32.ofNat (ref.elementCountOrFlags.toNat*size UInt32) ∧
      ∃ strings, values = .strings strings ∧
        List.Forall₂ (fun offset value => readDictionaryElement row offset = .ok value)
          (elementIdOffsets ref) strings := by
  simp only [readListRef,reduceCtorEq,if_false,if_true,bind_eq_ok,failIf_eq_ok,exists_const,
    bne_eq_false_iff_eq,validateRefBounds_eq_ok,map_eq_ok,mapM_eq_ok] at h
  obtain ⟨htype,hwindow,hlength,strings,hstrings,rfl⟩ := h
  exact ⟨htype,hwindow,hlength,strings,rfl,hstrings⟩

theorem readListRef_arena {field : FieldLayout} {ref : ValueRef16} {row : EncodedRow}
    {values : FieldValue} (hencoding : field.encoding = .kArena)
    (h : readListRef field.type .kArena ref row = .ok values) :
    ReadsInside field row ref values.elementCount := by
  simp only [readListRef,if_true,bind_eq_ok,validateRefBounds_eq_ok] at h
  obtain ⟨_,hwindow,h⟩ := h
  by_cases htype : field.type = .kString
  · rw [if_pos htype] at h
    obtain ⟨strings,hstrings,rfl⟩ := map_eq_ok.mp h
    obtain ⟨hlength,hcount⟩ := decodeArenaStringList_count hstrings
    exact readsInside_strings hencoding htype hlength hcount hwindow
  · rw [if_neg htype] at h
    obtain ⟨hlength,hcount⟩ := decodeScalarListByType_count h
    have hbytes : (refBytes ref row.arena).length = ref.byteLength.toNat := by
      rw [refBytes,slice_length]
      omega
    exact readsInside_scalars hencoding htype (by rw [← hbytes,hlength]) hcount hwindow

theorem Wrapped.read {field : FieldLayout} {row : EncodedRow} {ref : ValueRef16}
    (h : Wrapped field row ref) :
    ∃ values, readListRef field.type field.encoding ref row = .ok values ∧
      values.elementCount = ref.elementCountOrFlags.toNat := by
  let values := (elementIdOffsets ref).map fun offset => row.stringElementDictionary.getD
    (ofBytes UInt32 (slice row.arena offset (size UInt32))).toNat []
  have hlength : ref.byteLength = UInt32.ofNat (ref.elementCountOrFlags.toNat*size UInt32) := by
    apply UInt32.toNat_inj.mp
    rw [UInt32.toNat_ofNat']
    exact h.length
  have hwindow : ref.offset.toNat+ref.byteLength.toNat ≤ row.arena.length := by
    have hmod := Nat.mod_le (ref.elementCountOrFlags.toNat*size UInt32) (2^32)
    rw [← h.length] at hmod
    exact (Nat.add_le_add_left hmod _).trans h.arena
  have hvalues : List.Forall₂ (fun offset value => readDictionaryElement row offset = .ok value)
      (elementIdOffsets ref) values := by
    refine List.forall₂_map_right_iff.mpr (List.forall₂_same.mpr ?_)
    intro offset hoffset
    refine readDictionaryElement_eq_ok.mpr ⟨?_,h.ids offset hoffset,rfl⟩
    obtain ⟨i,hi,rfl⟩ := List.mem_map.mp hoffset
    have hinside := element_inside (List.mem_range.mp hi) (Eq.refl (_*size UInt32))
    have harena := h.arena
    omega
  refine ⟨.strings values,?_,?_⟩
  · simp only [readListRef,h.encoding,h.string,reduceCtorEq,if_false,if_true,bind_eq_ok,
      failIf_eq_ok,exists_const,bne_self_eq_false,true_and,validateRefBounds_eq_ok,map_eq_ok,
      mapM_eq_ok,bne_eq_false_iff_eq]
    exact ⟨hwindow,hlength,values,hvalues,rfl⟩
  · show values.length = _
    simp [values,elementIdOffsets]

/-- An element-dictionary list whose window wrapped. -/
def HasWrapped (row : Row) (field : FieldLayout) : Prop :=
  Matches row.layout row.encoded ∧
    ∃ ref, readRef field row.encoded = .ok ref ∧ Wrapped field row.encoded ref

/-- Every read of the list that succeeds stays in the window of its ref. -/
def StaysInside (row : Row) (field : FieldLayout) : Prop :=
  ∀ expectedType accessor values,
    row.readListValue field.fieldId expectedType accessor = .ok values →
    ∃ ref, readRef field row.encoded = .ok ref ∧
      ReadsInside field row.encoded ref values.elementCount

/-- A present list with its elements in the arena is read inside its window if and only if
the window did not wrap. -/
theorem listRead_inside_iff {row : Row} {field : FieldLayout}
    (hfield : row.layout.findField field.fieldId = some field) (hlist : field.isList = true)
    (hpresent : fieldPresent field row.encoded = true)
    (hencoding : field.encoding = .kArena ∨ field.encoding = .kElementDictionary) :
    StaysInside row field ↔ ¬ HasWrapped row field := by
  have hread (expectedType : FieldType) (accessor : Option AccessorMetadata)
      (values : FieldValue)
      (h : row.readListValue field.fieldId expectedType accessor = .ok values) :
      Matches row.layout row.encoded ∧ ∃ ref, readRef field row.encoded = .ok ref ∧
        readListRef field.type field.encoding ref row.encoded = .ok values := by
    obtain ⟨other,hother,h⟩ := bind_eq_ok.mp h
    obtain ⟨hrow,-,hfound,-⟩ := resolveField_eq_ok.mp hother
    rw [hfield,Option.some.injEq] at hfound
    subst hfound
    rw [if_pos hpresent] at h
    exact ⟨hrow,bind_eq_ok.mp h⟩
  constructor
  · rintro hinside ⟨hrow,ref,href,hwrapped⟩
    obtain ⟨values,hvalues,hcount⟩ := hwrapped.read
    have h : row.readListValue field.fieldId field.type none = .ok values := by
      rw [Row.readListValue_of_found hrow hfield hlist,if_pos hpresent,readListField,href,ok_bind,
        hvalues]
    obtain ⟨ref',href',hreads⟩ := hinside _ _ _ h
    rw [href,Except.ok.injEq] at href'
    subst href'
    obtain ⟨-,hwindow,hlength,-⟩ := readListRef_ids (hwrapped.encoding ▸ hvalues)
    rw [hcount] at hreads
    have hsmall := (readsInside_ids_iff hwrapped.encoding hlength hwindow).mp hreads
    have hlarge := hwrapped.count
    omega
  · intro hwrapped expectedType accessor values h
    obtain ⟨hrow,ref,href,hvalues⟩ := hread expectedType accessor values h
    refine ⟨ref,href,?_⟩
    rcases hencoding with hencoding | hencoding
    · rw [hencoding] at hvalues
      exact readListRef_arena hencoding hvalues
    · rw [hencoding] at hvalues
      obtain ⟨hstring,hwindow,hlength,strings,rfl,hstrings⟩ := readListRef_ids hvalues
      have hcount := hstrings.length_eq
      rw [elementIdOffsets,List.length_map,List.length_range] at hcount
      have hids : ∀ offset ∈ elementIdOffsets ref, ∃ value,
          readDictionaryElement row.encoded offset = .ok value := by
        intro offset hoffset
        exact exists_of_forall₂ hstrings hoffset
      have hreads := readsInside_ids_iff hencoding hlength hwindow
      rw [hcount] at hreads
      refine hreads.mpr ?_
      by_contra hlarge
      refine hwrapped ⟨hrow,ref,href,hencoding,hstring,by omega,?_,?_,?_⟩
      · rw [hlength,UInt32.toNat_ofNat']
      · have hlast : ref.offset.toNat+(ref.elementCountOrFlags.toNat-1)*size UInt32 ∈
            elementIdOffsets ref :=
          List.mem_map.mpr ⟨_,List.mem_range.mpr (by omega),rfl⟩
        obtain ⟨value,hvalue⟩ := hids _ hlast
        have hend := (readDictionaryElement_eq_ok.mp hvalue).1
        have hsplit : (ref.elementCountOrFlags.toNat-1)*size UInt32+size UInt32 =
            ref.elementCountOrFlags.toNat*size UInt32 := by
          rw [← Nat.succ_mul]
          congr 1
          omega
        omega
      · intro offset hoffset
        obtain ⟨value,hvalue⟩ := hids offset hoffset
        exact (readDictionaryElement_eq_ok.mp hvalue).2.1

/-- A layout with one list of strings over the element dictionary. -/
def tagsSpec : FieldSpec where
  fieldId := 1
  name := [116]
  type := .kString
  isList := true
  encoding := .kElementDictionary

def tagsLayout : CompiledRowLayout :=
  CompiledRowLayout.compile { version := 1,activeFields := [tagsSpec] }

def tagsField : FieldLayout where
  fieldId := 1
  name := [116]
  type := .kString
  isList := true
  encoding := .kElementDictionary
  slotOffset := 8
  valueWidth := 16
  usesRef := true

theorem tagsLayout_findField : tagsLayout.findField 1 = some tagsField := by decide

/-- A row of the layout with a list of `count` elements at the start of the arena. -/
def tagsRow (byteLength count arena : Bytes) : Row where
  layout := tagsLayout
  encoded := {
    schemaVersion := 1
    layoutFingerprint := tagsLayout.layoutFingerprint
    rowSlot := [1,0,0,0,0,0,0,0]++(List.replicate 8 0++(byteLength++count))
    arena
    stringElementDictionary := [[97],[98]] }

theorem listRead_inside_iff_sample :
    fieldPresent tagsField (tagsRow [8,0,0,0] [2,0,0,0] [1,0,0,0,0,0,0,0]).encoded = true ∧
    (tagsRow [8,0,0,0] [2,0,0,0] [1,0,0,0,0,0,0,0]).readListValue 1 .kString none =
      .ok (.strings [[98],[97]]) ∧
    (StaysInside (tagsRow [8,0,0,0] [2,0,0,0] [1,0,0,0,0,0,0,0]) tagsField ↔
      ¬ HasWrapped (tagsRow [8,0,0,0] [2,0,0,0] [1,0,0,0,0,0,0,0]) tagsField) :=
  ⟨by decide,by decide +kernel,
    listRead_inside_iff tagsLayout_findField rfl (by decide) (Or.inr rfl)⟩

theorem tagsRow_slot (byteLength count arena : Bytes) :
    readRef tagsField (tagsRow byteLength count arena).encoded =
      readRef tagsField (tagsRow byteLength count []).encoded ∧
    fieldPresent tagsField (tagsRow byteLength count arena).encoded =
      fieldPresent tagsField (tagsRow byteLength count []).encoded := ⟨rfl,rfl⟩

/-- With `2^32` bytes in the arena, a ref of `2^30` elements and no bytes is read. -/
theorem emptyWindow_wrapped {arena : Bytes} (harena : arena.length = 2^32)
    (hzero : ∀ byte ∈ arena, byte = 0) :
    Wrapped tagsField (tagsRow [0,0,0,0] [0,0,0,64] arena).encoded ⟨0,0,2^30⟩ := by
  refine ⟨rfl,rfl,by decide,by decide,?_,?_⟩
  · show 0+2^30*4 ≤ arena.length
    omega
  · intro offset hoffset
    have hslice : slice arena offset (size UInt32) = List.replicate 4 0 := by
      obtain ⟨i,hi,rfl⟩ := List.mem_map.mp hoffset
      have hinside : i < 2^30 := List.mem_range.mp hi
      refine List.eq_replicate_iff.mpr ⟨?_,?_⟩
      · rw [slice_length]
        show min 4 (arena.length-(0+i*4)) = 4
        omega
      · intro byte hbyte
        exact hzero byte (List.mem_of_mem_drop (List.mem_of_mem_take hbyte))
    show (ofBytes UInt32 (slice arena offset (size UInt32))).toNat < 2
    rw [hslice]
    decide

/-- A row with a window of no bytes whose read returns `2^30` elements. -/
theorem emptyWindow_read :
    ∃ row : Row, ∃ values, row.layout = tagsLayout ∧ fieldPresent tagsField row.encoded = true ∧
      readRef tagsField row.encoded = .ok ⟨0,0,2^30⟩ ∧
      row.readListValue 1 .kString none = .ok values ∧ values.elementCount = 2^30 ∧
      ¬ StaysInside row tagsField := by
  have hwrapped := emptyWindow_wrapped (List.length_replicate (n := 2^32) (a := (0 : UInt8)))
    (fun byte hbyte => List.eq_of_mem_replicate hbyte)
  generalize List.replicate (2^32) (0 : UInt8) = arena at hwrapped
  obtain ⟨hslot,hbit⟩ := tagsRow_slot [0,0,0,0] [0,0,0,64] arena
  have hpresent : fieldPresent tagsField (tagsRow [0,0,0,0] [0,0,0,64] arena).encoded = true := by
    rw [hbit]
    decide
  have href : readRef tagsField (tagsRow [0,0,0,0] [0,0,0,64] arena).encoded =
      .ok ⟨0,0,2^30⟩ := by
    rw [hslot]
    decide
  have hrow : Matches tagsLayout (tagsRow [0,0,0,0] [0,0,0,64] arena).encoded := ⟨rfl,rfl⟩
  obtain ⟨values,hvalues,hcount⟩ := hwrapped.read
  have hread : (tagsRow [0,0,0,0] [0,0,0,64] arena).readListValue 1 .kString none = .ok values := by
    have hfound := @Row.readListValue_of_found (tagsRow [0,0,0,0] [0,0,0,64] arena) tagsField hrow
      tagsLayout_findField rfl
    rw [if_pos hpresent,readListField,href,ok_bind,hvalues] at hfound
    exact hfound
  refine ⟨tagsRow [0,0,0,0] [0,0,0,64] arena,values,rfl,hpresent,href,hread,hcount,?_⟩
  intro hinside
  obtain ⟨ref,href',hreads⟩ := hinside _ _ _ hread
  rw [href,Except.ok.injEq] at href'
  subst href'
  have hlength := hreads.length
  rw [hcount] at hlength
  revert hlength
  decide

end Model
end KvIndex
