import KvIndex.RowLayout

/-! The layouts that edit histories lead to. The ids of a schema are used once, whatever calls
were made and rejected, and a layout depends on the set of active fields alone. -/
namespace KvIndex

open Base Schema

namespace RuntimeSchema

inductive Edit
  | addField (field : FieldSpec)
  | deleteField (fieldId : FieldId)

def callEdit (schema : RuntimeSchema) : Edit → StatusOr RuntimeSchema
  | .addField field => schema.addField field
  | .deleteField fieldId => schema.deleteField fieldId

/-- The schema after a call; a rejected call leaves it as it was. -/
def edit (schema : RuntimeSchema) (call : Edit) : RuntimeSchema :=
  match schema.callEdit call with
  | .ok edited => edited
  | .error _ => schema

def edited (version : UInt64) (calls : List Edit) : RuntimeSchema := calls.foldl edit { version }

def fieldIds (schema : RuntimeSchema) : List FieldId :=
  schema.activeFields.map FieldSpec.fieldId++schema.deletedFields.map FieldSpec.fieldId

section Calls

variable {schema schema' : RuntimeSchema} {field : FieldSpec} {fieldId : FieldId}

theorem findDeletedField_eq_none : schema.findDeletedField fieldId = none ↔
    ∀ field ∈ schema.deletedFields, field.fieldId ≠ fieldId := by
  simp [findDeletedField]

theorem addField_eq_ok : schema.addField field = .ok schema' ↔
    field.fieldId ∉ schema.fieldIds ∧ validateEncodingPolicy field = .ok () ∧
      schema' = { schema with activeFields := schema.activeFields++[field] } := by
  have hnew : field.fieldId ∉ schema.fieldIds ↔ schema.findField field.fieldId = none ∧
      schema.findDeletedField field.fieldId = none := by
    rw [findField_eq_none,findDeletedField_eq_none]
    simp [fieldIds]
  simp only [addField,bind_eq_ok,failIf_eq_ok,exists_const,Bool.or_eq_false_iff,
    Option.isSome_eq_false_iff,Option.isNone_iff_eq_none,pure_eq_ok,Except.ok.injEq,hnew]
  constructor
  · rintro ⟨hnone,_,hvalid,rfl⟩
    exact ⟨hnone,hvalid,rfl⟩
  · rintro ⟨hnone,hvalid,rfl⟩
    exact ⟨hnone,(),hvalid,rfl⟩

theorem fieldIds_deleteField (h : schema.deleteField fieldId = .ok schema') :
    schema'.fieldIds.Perm schema.fieldIds := by
  rw [deleteField] at h
  cases hfound : schema.findField fieldId with
  | none =>
    rw [hfound] at h
    cases h
  | some field =>
    rw [hfound,Except.ok.injEq] at h
    obtain ⟨hid,before,after,hactive,hbefore⟩ := List.find?_eq_some_iff_append.mp hfound
    have herase : schema.activeFields.eraseP (fun field => field.fieldId == fieldId) =
        before++after := by
      rw [hactive,List.eraseP_append_right _ (by simpa using hbefore),
        List.eraseP_cons_of_pos (p := fun field : FieldSpec => field.fieldId == fieldId) hid]
    have hmoved : schema'.fieldIds = before.map FieldSpec.fieldId++after.map FieldSpec.fieldId++
        (schema.deletedFields.map FieldSpec.fieldId++[field.fieldId]) := by
      rw [← h]
      simp only [fieldIds,herase,List.map_append,List.map_cons,List.map_nil]
    rw [hmoved,fieldIds,hactive,List.map_append,List.map_cons,← List.append_assoc]
    refine (List.perm_append_singleton _ _).trans ?_
    rw [List.append_assoc,List.append_assoc,List.cons_append]
    exact List.perm_middle.symm

theorem deletedFields_deleteField (h : schema.deleteField fieldId = .ok schema') :
    schema.deletedFields <+: schema'.deletedFields := by
  rw [deleteField] at h
  cases hfound : schema.findField fieldId with
  | none =>
    rw [hfound] at h
    cases h
  | some field =>
    rw [hfound,Except.ok.injEq] at h
    rw [← h]
    exact List.prefix_append _ _

theorem edit_of_error {call : Edit} {status : Status} (h : schema.callEdit call = .error status) :
    schema.edit call = schema := by
  rw [edit,h]

theorem edit_of_ok {call : Edit} (h : schema.callEdit call = .ok schema') :
    schema.edit call = schema' := by
  rw [edit,h]

theorem edit_keeps (call : Edit) (h : schema.fieldIds.Nodup) :
    (schema.edit call).fieldIds.Nodup ∧ schema.deletedFields <+: (schema.edit call).deletedFields ∧
      (schema.edit call).version = schema.version := by
  cases hcall : schema.callEdit call with
  | error status =>
    rw [edit_of_error hcall]
    exact ⟨h,List.prefix_rfl,rfl⟩
  | ok edited =>
    rw [edit_of_ok hcall]
    cases call with
    | addField field =>
      obtain ⟨hnew,-,rfl⟩ := addField_eq_ok.mp hcall
      refine ⟨?_,List.prefix_rfl,rfl⟩
      have hids : ({ schema with activeFields := schema.activeFields++[field] } :
          RuntimeSchema).fieldIds.Perm (field.fieldId::schema.fieldIds) := by
        simp only [fieldIds,List.map_append,List.map_cons,List.map_nil,List.append_assoc,
          List.singleton_append]
        exact List.perm_middle
      exact hids.nodup_iff.mpr (List.nodup_cons.mpr ⟨hnew,h⟩)
    | deleteField fieldId =>
      refine ⟨(fieldIds_deleteField hcall).nodup_iff.mpr h,deletedFields_deleteField hcall,?_⟩
      rw [callEdit,deleteField] at hcall
      cases hfound : schema.findField fieldId with
      | none =>
        rw [hfound] at hcall
        cases hcall
      | some field =>
        rw [hfound,Except.ok.injEq] at hcall
        rw [← hcall]

theorem edits_keep (calls : List Edit) (h : schema.fieldIds.Nodup) :
    (calls.foldl edit schema).fieldIds.Nodup ∧
      schema.deletedFields <+: (calls.foldl edit schema).deletedFields ∧
      (calls.foldl edit schema).version = schema.version := by
  induction calls generalizing schema with
  | nil => exact ⟨h,List.prefix_rfl,rfl⟩
  | cons call calls ih =>
    obtain ⟨hids,hdeleted,hversion⟩ := edit_keeps call h
    obtain ⟨hlast,hkept,hsame⟩ := ih hids
    exact ⟨hlast,hdeleted.trans hkept,hsame.trans hversion⟩

theorem Reachable.edit (h : schema.Reachable) (call : Edit) : (schema.edit call).Reachable := by
  cases hcall : schema.callEdit call with
  | error status =>
    rw [edit_of_error hcall]
    exact h
  | ok edited =>
    rw [edit_of_ok hcall]
    cases call with
    | addField field => exact .addField h hcall
    | deleteField fieldId => exact .deleteField h hcall

theorem Reachable.edits (h : schema.Reachable) (calls : List Edit) :
    (calls.foldl RuntimeSchema.edit schema).Reachable := by
  induction calls generalizing schema with
  | nil => exact h
  | cons call calls ih => exact ih (h.edit call)

end Calls

theorem edited_reachable (version : UInt64) (calls : List Edit) : (edited version calls).Reachable :=
  (Reachable.create version).edits calls

theorem edited_keeps (version : UInt64) (calls : List Edit) :
    (edited version calls).fieldIds.Nodup ∧ (edited version calls).version = version := by
  obtain ⟨hids,-,hversion⟩ := @edits_keep { version } calls List.nodup_nil
  exact ⟨hids,hversion⟩

theorem addField_deleted {version : UInt64} {calls later : List Edit} {field : FieldSpec}
    (h : field.fieldId ∈ (edited version calls).deletedFields.map FieldSpec.fieldId) :
    (edited version (calls++later)).addField field =
      .error (.failedPrecondition "field id already exists in schema history") := by
  have hkept : (edited version calls).deletedFields <+:
      (edited version (calls++later)).deletedFields := by
    rw [edited,edited,List.foldl_append]
    exact (edits_keep later (edited_keeps version calls).1).2.1
  obtain ⟨deleted,hmem,hid⟩ := List.mem_map.mp h
  have hfound : ((edited version (calls++later)).findDeletedField field.fieldId).isSome = true := by
    rw [findDeletedField,List.find?_isSome]
    exact ⟨deleted,hkept.subset hmem,beq_iff_eq.mpr hid⟩
  rw [addField,hfound,Bool.or_true]
  rfl

end RuntimeSchema

theorem alignUp_mod {value alignment : ℕ} (h : 0 < alignment) :
    alignUp value alignment%alignment = 0 := by
  rw [alignUp,if_neg (Nat.ne_of_gt h)]
  by_cases hzero : value%alignment = 0
  · simp [hzero]
  · have hlt := Nat.mod_lt value h
    have hsum : value+(alignment-value%alignment) = alignment*(value/alignment+1) := by
      have hdiv := Nat.div_add_mod value alignment
      rw [Nat.mul_add,Nat.mul_one]
      omega
    simp only [hzero,if_false,hsum,Nat.mul_mod_right]

theorem fieldTypeAlignment_pos (type : FieldType) : 0 < fieldTypeAlignment type := by
  cases type with
  | _ => simp [fieldTypeAlignment]

namespace FieldLayout

def alignment (field : FieldLayout) : ℕ :=
  if field.usesRef then 8 else fieldTypeAlignment field.type

/-- The field of the schema that a layout field was made of. -/
def spec (field : FieldLayout) : FieldSpec where
  fieldId := field.fieldId
  name := field.name
  type := field.type
  isList := field.isList
  nullable := field.nullable
  encoding := field.encoding
  defaultValue := field.defaultValue

end FieldLayout

namespace CompiledRowLayout

open FieldLayout RuntimeSchema

/-- What `Compile` promises of a layout for some active fields. -/
structure Canonical (layout : CompiledRowLayout) (active : List FieldSpec) : Prop where
  fields : (layout.fields.map FieldLayout.spec).Perm active
  increasing : layout.fields.Pairwise fun a b => a.fieldId < b.fieldId
  bits : layout.fields.Pairwise fun a b => a.presenceBitIndex ≠ b.presenceBitIndex
  bitInside : ∀ field ∈ layout.fields, field.presenceBitIndex < 8*layout.presenceBitmapBytes
  apart : layout.fields.Pairwise Apart
  behind : ∀ field ∈ layout.fields, layout.presenceBitmapBytes ≤ field.slotOffset
  aligned : ∀ field ∈ layout.fields, field.slotOffset%field.alignment = 0
  inside : ∀ field ∈ layout.fields, field.slotEnd ≤ layout.rowSlotSize
  whole : layout.rowSlotSize%8 = 0

theorem placeFixed_aligned {cursor : ℕ} {fields : List FieldLayout} {field : FieldLayout}
    (h : field ∈ (placeFixed cursor fields).2) (hfixed : field.usesRef = false) :
    field.slotOffset%fieldTypeAlignment field.type = 0 := by
  induction fields generalizing cursor with
  | nil => cases h
  | cons first fields ih =>
    rw [placeFixed] at h
    cases hfirst : first.usesRef with
    | true =>
      simp only [hfirst,if_true,List.mem_cons] at h
      rcases h with rfl | h
      · rw [hfirst] at hfixed
        cases hfixed
      · exact ih h
    | false =>
      simp only [hfirst,Bool.false_eq_true,if_false,List.mem_cons] at h
      rcases h with rfl | h
      · exact alignUp_mod (fieldTypeAlignment_pos first.type)
      · exact ih h

theorem placeRefs_aligned {cursor : ℕ} {fields : List FieldLayout} {field : FieldLayout}
    (h : field ∈ (placeRefs cursor fields).2) (href : field.usesRef = true) (hcursor : cursor%8 = 0) :
    field.slotOffset%8 = 0 := by
  induction fields generalizing cursor with
  | nil => cases h
  | cons first fields ih =>
    rw [placeRefs] at h
    cases hfirst : first.usesRef with
    | true =>
      simp only [hfirst,if_true,List.mem_cons] at h
      rcases h with rfl | h
      · exact hcursor
      · exact ih h (by rw [kValueRef16Size]; omega)
    | false =>
      simp only [hfirst,Bool.false_eq_true,if_false,List.mem_cons] at h
      rcases h with rfl | h
      · rw [hfirst] at href
        cases href
      · exact ih h hcursor

theorem compile_aligned {schema : RuntimeSchema} {field : FieldLayout}
    (h : field ∈ (compile schema).fields) : field.slotOffset%field.alignment = 0 := by
  rw [(compile_eq_refPass schema).1,refPass] at h
  rw [alignment]
  by_cases href : field.usesRef = true
  · rw [if_pos href]
    exact placeRefs_aligned h href (alignUp_mod (by decide))
  · rw [if_neg href]
    rw [Bool.not_eq_true] at href
    rcases mem_placeRefs h with ⟨-,hmem⟩ | ⟨hused,-⟩
    · exact placeFixed_aligned hmem href
    · rw [hused] at href
      cases href

/-- The fields of the layout are the active ones in the order of their ids. -/
theorem compile_specs {schema : RuntimeSchema}
    (h : ∀ field ∈ schema.activeFields, field.deleted = false) :
    (compile schema).fields.map FieldLayout.spec = sortedFields schema := by
  have hspec : (compile schema).fields.map FieldLayout.spec =
      ((compile schema).fields.map unplaced).map FieldLayout.spec := by
    rw [List.map_map]
    rfl
  rw [hspec,compile_unplaced]
  refine List.ext_getElem? fun i => ?_
  rw [List.getElem?_map,List.getElem?_mapIdx,Option.map_map]
  cases hfield : (sortedFields schema)[i]? with
  | none => rfl
  | some field =>
    have hactive := h field (mem_sortedFields.mp (List.mem_of_getElem? hfield))
    have hsame : (newField field i).spec = field := by
      cases field
      cases hactive
      rfl
    exact congrArg some hsame

theorem sortedFields_increasing {schema : RuntimeSchema}
    (h : FirstWins.Distinct FieldSpec.fieldId schema.activeFields) :
    (sortedFields schema).Pairwise fun a b => a.fieldId < b.fieldId := by
  have hsorted := List.pairwise_insertionSort (fun lhs rhs : FieldSpec => lhs.fieldId ≤ rhs.fieldId)
    schema.activeFields
  have hdistinct : ((sortedFields schema).map FieldSpec.fieldId).Nodup :=
    ((List.perm_insertionSort _ _).map FieldSpec.fieldId).nodup_iff.mpr h
  exact hsorted.imp₂ (fun _ _ hle hne => UInt32.lt_of_le_of_ne hle hne) (List.pairwise_map.mp hdistinct)

theorem compile_increasing {schema : RuntimeSchema} (h : Accepted schema.activeFields) :
    (compile schema).fields.Pairwise fun a b => a.fieldId < b.fieldId := by
  have hspecs := compile_specs fun field hfield => not_deleted_of_valid (h.valid field hfield)
  have hsorted := sortedFields_increasing h.distinct
  rw [← hspecs,List.pairwise_map] at hsorted
  exact hsorted

theorem compile_canonical {schema : RuntimeSchema} (h : Accepted schema.activeFields) :
    Canonical (compile schema) schema.activeFields := by
  have hformed := compile_formed schema
  have hspecs := compile_specs fun field hfield => not_deleted_of_valid (h.valid field hfield)
  refine ⟨?_,compile_increasing h,?_,?_,hformed.apart,hformed.behind,fun field => compile_aligned,
    hformed.inside,?_⟩
  · rw [hspecs]
    exact List.perm_insertionSort _ _
  · refine List.pairwise_iff_getElem.mpr fun i j hi hj hlt => ?_
    rw [hformed.bit i _ (List.getElem?_eq_getElem hi),hformed.bit j _ (List.getElem?_eq_getElem hj)]
    exact Nat.ne_of_lt hlt
  · intro field hfield
    obtain ⟨i,hi⟩ := List.mem_iff_getElem?.mp hfield
    have hlt := (List.getElem?_eq_some_iff.mp hi).1
    have hbitmap := hformed.bitmap
    rw [hformed.bit i field hi]
    omega
  · rw [(compile_eq_refPass schema).2.2]
    exact alignUp_mod (by decide)

theorem compile_of_same_fields {schema other : RuntimeSchema}
    (hversion : schema.version = other.version)
    (hschema : FirstWins.Distinct FieldSpec.fieldId schema.activeFields)
    (hother : FirstWins.Distinct FieldSpec.fieldId other.activeFields)
    (hfields : ∀ field, field ∈ schema.activeFields ↔ field ∈ other.activeFields) :
    compile schema = compile other := by
  have hperm : schema.activeFields.Perm other.activeFields :=
    (List.perm_ext_iff_of_nodup hschema.of_map hother.of_map).mpr hfields
  refine compile_congr hversion ?_
  have hsorted : (sortedFields schema).Perm (sortedFields other) :=
    (List.perm_insertionSort _ _).trans (hperm.trans (List.perm_insertionSort _ _).symm)
  refine hsorted.eq_of_pairwise ?_ (sortedFields_increasing hschema) (sortedFields_increasing hother)
  intro a b _ _ hab hba
  exact absurd hba (UInt32.lt_asymm hab)

/-- The layout of every edit history: ids are never used twice, the layout is well formed, and
it depends on the version and the set of active fields alone. -/
theorem edited_layout (version : UInt64) (calls : List Edit) :
    (edited version calls).fieldIds.Nodup ∧
    (∀ (later : List Edit) (field : FieldSpec),
      field.fieldId ∈ (edited version calls).deletedFields.map FieldSpec.fieldId →
      (edited version (calls++later)).addField field =
        .error (.failedPrecondition "field id already exists in schema history")) ∧
    Canonical (compile (edited version calls)) (edited version calls).activeFields ∧
    ∀ others : List Edit, (∀ field, field ∈ (edited version calls).activeFields ↔
        field ∈ (edited version others).activeFields) →
      compile (edited version calls) = compile (edited version others) := by
  have haccepted := (edited_reachable version calls).accepted
  refine ⟨(edited_keeps version calls).1,fun later field => addField_deleted,
    compile_canonical haccepted,?_⟩
  intro others hsame
  have hversion := (edited_keeps version calls).2.trans (edited_keeps version others).2.symm
  exact compile_of_same_fields hversion haccepted.distinct
    (edited_reachable version others).accepted.distinct hsame

end CompiledRowLayout
end KvIndex
