import KvIndex.LayoutHistory
import KvIndex.PayloadRow

/-! Decoded payloads through a row: what is read from the row that `EncodeForLayout` makes. -/
namespace KvIndex

open Base LittleEndian Schema CompiledRowLayout Model

/-- The read of a field with the type and the shape it has in the layout. -/
def Row.readField (row : Row) (field : FieldLayout) : StatusOr FieldValue :=
  if field.isList then row.readListValue field.fieldId field.type none
  else row.readScalarValue field.fieldId field.type none

def absentRead (field : FieldLayout) : StatusOr FieldValue :=
  if field.hasDefault then .ok field.defaultValue
  else if field.isList then .error (.notFound "list field is absent and has no default")
  else .error (.notFound "field is absent and has no default")

namespace CompiledRowLayout

theorem findField_of_mem {schema : RuntimeSchema} (h : schema.Reachable) {field : FieldLayout}
    (hfield : field ∈ (compile schema).fields) :
    (compile schema).findField field.fieldId = some field := by
  have hdistinct : FirstWins.Distinct FieldLayout.fieldId (compile schema).fields :=
    List.pairwise_map.mpr ((compile_increasing h.accepted).imp fun hlt => UInt32.ne_of_lt hlt)
  have hfound := FirstWins.find_of_mem hdistinct hfield
  rw [FirstWins.find] at hfound
  rw [findField,← hfound]
  rfl

theorem default_typed {schema : RuntimeSchema} (h : schema.Reachable) {field : FieldLayout}
    (hfield : field ∈ (compile schema).fields) : defaultMatchesField field.spec = true := by
  have hspec : field.spec ∈ (compile schema).fields.map FieldLayout.spec :=
    List.mem_map.mpr ⟨field,hfield,rfl⟩
  rw [compile_specs fun other hother => not_deleted_of_valid (h.accepted.valid other hother)] at hspec
  have hvalid := h.accepted.valid _ (mem_sortedFields.mp hspec)
  simp only [validateEncodingPolicy,bind_eq_ok,failIf_eq_ok,exists_const,Bool.not_eq_eq_eq_not,
    Bool.not_false] at hvalid
  exact hvalid.2.2.1

end CompiledRowLayout

section Absent

variable {field : FieldLayout}

theorem defaultListValue_eq (hmatches : defaultMatchesField field.spec = true)
    (hlist : field.isList = true) (hdefault : field.hasDefault = true) :
    defaultListValue field = .ok field.defaultValue := by
  rw [defaultListValue,absentValue,if_pos hdefault]
  unfold defaultMatchesField at hmatches
  simp only [FieldLayout.spec,hlist] at hmatches
  split at hmatches
  · rename_i hvalue
    simp [FieldLayout.hasDefault,hvalue] at hdefault
  all_goals simp_all

theorem defaultScalarValue_eq (hmatches : defaultMatchesField field.spec = true)
    (hlist : field.isList = false) (hdefault : field.hasDefault = true) :
    defaultScalarValue field = .ok field.defaultValue := by
  rw [defaultScalarValue,absentValue,if_pos hdefault]
  unfold defaultMatchesField at hmatches
  simp only [FieldLayout.spec,hlist] at hmatches
  split at hmatches
  · rename_i hvalue
    simp [FieldLayout.hasDefault,hvalue] at hdefault
  all_goals simp_all

/-- An optional field that is absent reads as its default, or is not found. -/
theorem defaultValue_eq (hmatches : defaultMatchesField field.spec = true)
    (hoptional : field.nullable = true ∨ field.hasDefault = true) :
    (if field.isList then defaultListValue field else defaultScalarValue field) =
      absentRead field := by
  rw [absentRead]
  by_cases hdefault : field.hasDefault = true
  · rw [if_pos hdefault]
    by_cases hlist : field.isList = true
    · rw [if_pos hlist,defaultListValue_eq hmatches hlist hdefault]
    · rw [if_neg hlist,defaultScalarValue_eq hmatches (by simpa using hlist) hdefault]
  · have hnullable : field.nullable = true := hoptional.resolve_right hdefault
    rw [if_neg hdefault,defaultListValue,defaultScalarValue,absentValue,absentValue,if_neg hdefault,
      if_neg hdefault,if_pos hnullable,if_pos hnullable]

end Absent

section Read

variable {layout : CompiledRowLayout} {field : FieldLayout} {encoded : EncodedRow}

/-- The read of an active field: the stored value, or the default of an absent field. -/
theorem readField_eq (hmatches : Matches layout encoded)
    (hfound : layout.findField field.fieldId = some field) :
    (Row.mk layout encoded).readField field =
      if fieldPresent field encoded then readPresent field encoded
      else if field.isList then defaultListValue field else defaultScalarValue field := by
  rw [Row.readField,readPresent]
  by_cases hlist : field.isList = true
  · rw [if_pos hlist,if_pos hlist,if_pos hlist]
    exact @Row.readListValue_of_found ⟨layout,encoded⟩ _ hmatches hfound hlist
  · rw [if_neg hlist,if_neg hlist,if_neg hlist]
    exact @Row.readScalarValue_of_found ⟨layout,encoded⟩ _ hmatches hfound
      (by simpa using hlist)

theorem has_eq (hfound : layout.findField field.fieldId = some field) :
    (Row.mk layout encoded).has field.fieldId = fieldPresent field encoded := by
  rw [Row.has,hfound]

theorem fieldPresent_create (layout : CompiledRowLayout) (field : FieldLayout) :
    fieldPresent field (createEncodedRow layout) = false := by
  have hzero : ∀ i, (createEncodedRow layout).rowSlot.getD i 0 = 0 := by
    intro i
    rw [createEncodedRow,List.getD_eq_getElem?_getD,List.getElem?_replicate]
    by_cases hi : i < layout.rowSlotSize
    · rw [if_pos hi,Option.getD_some]
    · rw [if_neg hi,Option.getD_none]
  rw [fieldPresent,hzero,UInt8.zero_and]
  exact ite_self false

/-- What `MaterializeRow` checks. -/
theorem materializeRow_checks {row : Row} (h : materializeRow layout encoded = .ok row) :
    Matches layout encoded ∧ layout.rowSlotSize ≤ encoded.rowSlot.length ∧
      ∀ field ∈ layout.fields, fieldPresent field encoded = false →
        field.nullable = true ∨ field.hasDefault = true := by
  simp only [materializeRow,bind_eq_ok,failIf_eq_ok,exists_const,Bool.or_eq_false_iff,
    bne_eq_false_iff_eq,decide_eq_false_iff_not,Nat.not_lt,List.any_eq_false] at h
  obtain ⟨hmatches,hsize,hrequired,-⟩ := h
  refine ⟨hmatches,hsize,fun field hfield habsent => ?_⟩
  have hoptional := hrequired field hfield
  rw [requiredFieldAbsent,habsent] at hoptional
  cases hnullable : field.nullable with
  | true => exact Or.inl rfl
  | false =>
    rw [hnullable] at hoptional
    exact Or.inr (by simpa using hoptional)

end Read

namespace Ingest

section Payload

variable {layout : CompiledRowLayout} {payload : DecodedPayload} {encoded : EncodedRow}

theorem mem_placed {field : FieldLayout} {value : DecodedValue} :
    (field,value) ∈ placed layout payload ↔
      ∃ decoded ∈ payload, layout.findField decoded.fieldId = some field ∧ decoded.value = value := by
  simp only [placed,List.mem_filterMap,Option.map_eq_some_iff,Prod.mk.injEq]
  constructor
  · rintro ⟨decoded,hdecoded,_,hfound,rfl,rfl⟩
    exact ⟨decoded,hdecoded,hfound,rfl⟩
  · rintro ⟨decoded,hdecoded,hfound,rfl⟩
    exact ⟨decoded,hdecoded,field,hfound,rfl,rfl⟩

/-- Distinct ids of the payload are distinct fields of the layout. -/
theorem placed_nodup (h : (payload.map DecodedField.fieldId).Nodup) :
    ((placed layout payload).map Prod.fst).Nodup := by
  have hplaced : (placed layout payload).map Prod.fst =
      (payload.map DecodedField.fieldId).filterMap layout.findField := by
    rw [placed,List.map_filterMap,List.filterMap_map]
    refine List.filterMap_congr fun decoded _ => ?_
    simp only [Option.map_map,Function.comp_def,Option.map_id']
  rw [hplaced]
  refine List.Nodup.filterMap ?_ h
  intro id other field hid hother
  rw [← (mem_of_findField hid).2,(mem_of_findField hother).2]

theorem encodeForLayout_eq_ok :
    encodeForLayout payload (some layout) = .ok encoded ↔
      payload.foldlM (encodeField layout) (createEncodedRow layout) = .ok encoded ∧
        ∃ row, materializeRow layout encoded = .ok row := by
  simp only [encodeForLayout,bind_eq_ok,pure_eq_ok,Except.ok.injEq]
  constructor
  · rintro ⟨made,hmade,row,hrow,rfl⟩
    exact ⟨hmade,row,hrow⟩
  · rintro ⟨hmade,row,hrow⟩
    exact ⟨encoded,hmade,row,hrow,rfl⟩

def knownFields (layout : CompiledRowLayout) (payload : DecodedPayload) : DecodedPayload :=
  payload.filter fun decoded => (layout.findField decoded.fieldId).isSome

theorem foldlM_knownFields (row : EncodedRow) :
    (knownFields layout payload).foldlM (encodeField layout) row =
      payload.foldlM (encodeField layout) row := by
  induction payload generalizing row with
  | nil => rfl
  | cons decoded payload ih =>
    rw [knownFields,List.filter_cons,List.foldlM_cons]
    cases hfound : layout.findField decoded.fieldId with
    | none =>
      rw [encodeField_unknown hfound,ok_bind]
      exact ih row
    | some field =>
      simp only [Option.isSome_some,if_true,List.foldlM_cons]
      refine congrArg _ (funext fun mid => ?_)
      exact ih mid

theorem encodeForLayout_knownFields :
    encodeForLayout (knownFields layout payload) (some layout) =
      encodeForLayout payload (some layout) := by
  rw [encodeForLayout,encodeForLayout,foldlM_knownFields]

theorem matches_of_stored {writes : List (FieldLayout×FieldValue)}
    (h : StoredAll layout writes (createEncodedRow layout) encoded) : Matches layout encoded := by
  obtain ⟨hversion,hfingerprint,-⟩ := h.kept
  rw [Matches,hversion,hfingerprint]
  exact ⟨rfl,rfl⟩

/-- The fields that are stored in a fresh row are read back, and the others are absent. -/
theorem stored_reads {schema : RuntimeSchema} (hr : schema.Reachable)
    {writes : List (FieldLayout×FieldValue)}
    (hstored : StoredAll (compile schema) writes (createEncodedRow (compile schema)) encoded)
    (hmem : ∀ w ∈ writes, w.1 ∈ (compile schema).fields) (hdistinct : (writes.map Prod.fst).Nodup)
    (hoptional : ∀ field ∈ (compile schema).fields, fieldPresent field encoded = false →
      field.nullable = true ∨ field.hasDefault = true) :
    (∀ w ∈ writes, (Row.mk (compile schema) encoded).has w.1.fieldId = true ∧
      (Row.mk (compile schema) encoded).readField w.1 = .ok w.2) ∧
    ∀ field ∈ (compile schema).fields, field ∉ writes.map Prod.fst →
      (Row.mk (compile schema) encoded).has field.fieldId = false ∧
      (Row.mk (compile schema) encoded).readField field = absentRead field := by
  have hformed := compile_formed schema
  have hmatches := matches_of_stored hstored
  constructor
  · intro w hw
    obtain ⟨hpresent,hread⟩ := hstored.reads hformed hmem hdistinct hw
    have hfound := findField_of_mem hr (hmem w hw)
    rw [has_eq hfound,readField_eq hmatches hfound,if_pos hpresent]
    exact ⟨hpresent,hread⟩
  · intro field hfield habsent
    have hfound := findField_of_mem hr hfield
    have hother : ∀ w ∈ writes, field ≠ w.1 := by
      rintro w hw rfl
      exact habsent (List.mem_map_of_mem hw)
    have hbit := (hstored.other hformed hfield hother).1
    rw [fieldPresent_create] at hbit
    rw [has_eq hfound,readField_eq hmatches hfound,hbit,if_neg Bool.false_ne_true]
    exact ⟨rfl,defaultValue_eq (default_typed hr hfield) (hoptional field hfield hbit)⟩

theorem encoded_reads {schema : RuntimeSchema} (hr : schema.Reachable)
    (hfits : ∀ decoded ∈ payload, FieldFits decoded)
    (hdistinct : (payload.map DecodedField.fieldId).Nodup)
    (hencode : encodeForLayout payload (some (compile schema)) = .ok encoded)
    (hsize : encoded.arena.length ≤ uint64Max) :
    (∀ decoded ∈ payload, ∀ field, (compile schema).findField decoded.fieldId = some field →
      (Row.mk (compile schema) encoded).has decoded.fieldId = true ∧
      (Row.mk (compile schema) encoded).readField field = .ok decoded.value) ∧
    ∀ field ∈ (compile schema).fields, (∀ decoded ∈ payload, decoded.fieldId ≠ field.fieldId) →
      (Row.mk (compile schema) encoded).has field.fieldId = false ∧
      (Row.mk (compile schema) encoded).readField field = absentRead field := by
  obtain ⟨hfold,row,hrow⟩ := encodeForLayout_eq_ok.mp hencode
  have hstored := encodeFields_stored (compile_formed schema) hfits (by simp [createEncodedRow])
    hfold hsize
  have hmem : ∀ w ∈ placed (compile schema) payload, w.1 ∈ (compile schema).fields := by
    intro w hw
    obtain ⟨decoded,-,hfound,-⟩ := mem_placed.mp hw
    exact (mem_of_findField hfound).1
  obtain ⟨hreads,habsent⟩ := stored_reads hr hstored hmem (placed_nodup hdistinct)
    (materializeRow_checks hrow).2.2
  constructor
  · intro decoded hdecoded field hfound
    rw [← (mem_of_findField hfound).2]
    exact hreads (field,decoded.value) (mem_placed.mpr ⟨decoded,hdecoded,hfound,rfl⟩)
  · intro field hfield hother
    refine habsent field hfield fun hmap => ?_
    obtain ⟨w,hw,rfl⟩ := List.mem_map.mp hmap
    obtain ⟨decoded,hdecoded,hplaced,-⟩ := mem_placed.mp hw
    exact hother decoded hdecoded (mem_of_findField hplaced).2.symm

/-- A decoded payload survives the row: its fields are read back, the other fields of the layout
are absent, and the fields that the layout does not know leave no trace. -/
theorem payload_reads {schema : RuntimeSchema} (hr : schema.Reachable) {bytes : Bytes}
    (hdecode : decodePayload bytes = .ok payload)
    (hencode : encodeForLayout payload (some (compile schema)) = .ok encoded)
    (hsize : encoded.arena.length ≤ uint64Max) :
    (∀ decoded ∈ payload, ∀ field, (compile schema).findField decoded.fieldId = some field →
      (Row.mk (compile schema) encoded).has decoded.fieldId = true ∧
      (Row.mk (compile schema) encoded).readField field = .ok decoded.value) ∧
    (∀ field ∈ (compile schema).fields, (∀ decoded ∈ payload, decoded.fieldId ≠ field.fieldId) →
      (Row.mk (compile schema) encoded).has field.fieldId = false ∧
      (Row.mk (compile schema) encoded).readField field = absentRead field) ∧
    encodeForLayout (knownFields (compile schema) payload) (some (compile schema)) =
      .ok encoded := by
  obtain ⟨-,hencodable⟩ := decodePayload_eq_ok.mp hdecode
  obtain ⟨hreads,habsent⟩ := encoded_reads hr
    (fun decoded hdecoded => ⟨hencodable.length decoded hdecoded,hencodable.fits decoded hdecoded⟩)
    hencodable.distinct hencode hsize
  exact ⟨hreads,habsent,encodeForLayout_knownFields.trans hencode⟩

end Payload

def nameSchema : RuntimeSchema := Artifact.fieldSchema Artifact.plainField

/-- A known string and a field that the layout does not have. -/
def samplePayload : DecodedPayload := [⟨7,.string [104]⟩,⟨9,.bool true⟩]

def sampleEncoded : EncodedRow where
  schemaVersion := (compile nameSchema).schemaVersion
  layoutFingerprint := (compile nameSchema).layoutFingerprint
  rowSlot := [1,0,0,0,0,0,0,0,0,0,0,0,0,0,0,0,1,0,0,0,0,0,0,0]
  arena := [104]

theorem payload_reads_sample :
    (∀ decoded ∈ samplePayload, ∀ field,
      (compile nameSchema).findField decoded.fieldId = some field →
      (Row.mk (compile nameSchema) sampleEncoded).has decoded.fieldId = true ∧
      (Row.mk (compile nameSchema) sampleEncoded).readField field =
        .ok decoded.value) ∧
    (∀ field ∈ (compile nameSchema).fields,
      (∀ decoded ∈ samplePayload, decoded.fieldId ≠ field.fieldId) →
      (Row.mk (compile nameSchema) sampleEncoded).has field.fieldId = false ∧
      (Row.mk (compile nameSchema) sampleEncoded).readField field =
        absentRead field) ∧
    encodeForLayout (knownFields (compile nameSchema) samplePayload)
      (some (compile nameSchema)) = .ok sampleEncoded := by
  have hdecode : decodePayload (wirePayload samplePayload) = .ok samplePayload := by decide +kernel
  have hencode : encodeForLayout samplePayload (some (compile nameSchema)) = .ok sampleEncoded := by
    decide +kernel
  exact payload_reads (Artifact.fieldSchema_reachable (by decide)) hdecode hencode (by decide)

end Ingest
end KvIndex
