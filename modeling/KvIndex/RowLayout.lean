import KvIndex.SchemaCodec

/-! The geometry of a compiled layout. `Compile` changes nothing of a field but its place, and
gives every field a presence bit and a slot window of its own. -/
namespace KvIndex

open Base Schema

namespace FieldLayout

def slotEnd (field : FieldLayout) : ℕ := field.slotOffset+field.valueWidth

def unplaced (field : FieldLayout) : FieldLayout := { field with slotOffset := 0 }

/-- Two slot windows without a common byte. -/
def Apart (a b : FieldLayout) : Prop := a.slotEnd ≤ b.slotOffset ∨ b.slotEnd ≤ a.slotOffset

theorem Apart.symm {a b : FieldLayout} (h : Apart a b) : Apart b a := Or.symm h

end FieldLayout

namespace CompiledRowLayout

open FieldLayout

theorem placeFixed_unplaced (cursor : ℕ) (fields : List FieldLayout) :
    (placeFixed cursor fields).2.map unplaced = fields.map unplaced := by
  induction fields generalizing cursor with
  | nil => rfl
  | cons field fields ih =>
    rw [placeFixed]
    cases href : field.usesRef with
    | true => simp [ih,unplaced,href]
    | false => simp [ih,unplaced,href]

theorem placeRefs_unplaced (cursor : ℕ) (fields : List FieldLayout) :
    (placeRefs cursor fields).2.map unplaced = fields.map unplaced := by
  induction fields generalizing cursor with
  | nil => rfl
  | cons field fields ih =>
    rw [placeRefs]
    cases href : field.usesRef with
    | true => simp [ih,unplaced,href]
    | false => simp [ih,unplaced,href]

/-- The first pass leaves the ref fields alone and puts the others behind the cursor. -/
theorem mem_placeFixed {cursor : ℕ} {fields : List FieldLayout} {field : FieldLayout}
    (h : field ∈ (placeFixed cursor fields).2) :
    field.usesRef = true ∧ field ∈ fields ∨
      field.usesRef = false ∧ cursor ≤ field.slotOffset ∧
        field.slotEnd ≤ (placeFixed cursor fields).1 := by
  induction fields generalizing cursor with
  | nil => cases h
  | cons first fields ih =>
    rw [placeFixed] at h ⊢
    cases hfirst : first.usesRef with
    | true =>
      simp only [hfirst,if_true,List.mem_cons] at h ⊢
      rcases h with rfl | h
      · exact Or.inl ⟨hfirst,Or.inl rfl⟩
      · rcases ih h with ⟨href,hmem⟩ | hplaced
        · exact Or.inl ⟨href,Or.inr hmem⟩
        · exact Or.inr hplaced
    | false =>
      have halign := le_alignUp cursor (fieldTypeAlignment first.type)
      simp only [hfirst,Bool.false_eq_true,if_false,List.mem_cons] at h ⊢
      rcases h with rfl | h
      · exact Or.inr ⟨rfl,halign,le_placeFixed _ _⟩
      · rcases ih h with ⟨href,hmem⟩ | ⟨hfixed,hlow,hhigh⟩
        · exact Or.inl ⟨href,Or.inr hmem⟩
        · exact Or.inr ⟨hfixed,by omega,hhigh⟩

theorem placeFixed_ordered (cursor : ℕ) (fields : List FieldLayout) :
    (placeFixed cursor fields).2.Pairwise fun a b =>
      a.usesRef = false → b.usesRef = false → a.slotEnd ≤ b.slotOffset := by
  induction fields generalizing cursor with
  | nil => exact List.Pairwise.nil
  | cons first fields ih =>
    rw [placeFixed]
    cases hfirst : first.usesRef with
    | true =>
      refine List.pairwise_cons.mpr ⟨?_,ih cursor⟩
      intro _ _ hfixed
      rw [hfirst] at hfixed
      cases hfixed
    | false =>
      refine List.pairwise_cons.mpr ⟨?_,ih _⟩
      intro other hother _ hfixed
      rcases mem_placeFixed hother with ⟨href,-⟩ | ⟨-,hlow,-⟩
      · rw [href] at hfixed
        cases hfixed
      · exact hlow

/-- The second pass puts the ref fields behind its cursor and leaves the others alone. -/
theorem mem_placeRefs {cursor : ℕ} {fields : List FieldLayout} {field : FieldLayout}
    (h : field ∈ (placeRefs cursor fields).2) :
    field.usesRef = false ∧ field ∈ fields ∨
      field.usesRef = true ∧ cursor ≤ field.slotOffset ∧
        field.slotOffset+kValueRef16Size ≤ (placeRefs cursor fields).1 := by
  induction fields generalizing cursor with
  | nil => cases h
  | cons first fields ih =>
    rw [placeRefs] at h ⊢
    cases hfirst : first.usesRef with
    | true =>
      simp only [hfirst,if_true,List.mem_cons] at h ⊢
      rcases h with rfl | h
      · exact Or.inr ⟨rfl,le_rfl,le_placeRefs _ _⟩
      · rcases ih h with ⟨hfixed,hmem⟩ | ⟨href,hlow,hhigh⟩
        · exact Or.inl ⟨hfixed,Or.inr hmem⟩
        · exact Or.inr ⟨href,by omega,hhigh⟩
    | false =>
      simp only [hfirst,Bool.false_eq_true,if_false,List.mem_cons] at h ⊢
      rcases h with rfl | h
      · exact Or.inl ⟨hfirst,Or.inl rfl⟩
      · rcases ih h with ⟨hfixed,hmem⟩ | hplaced
        · exact Or.inl ⟨hfixed,Or.inr hmem⟩
        · exact Or.inr hplaced

/-- With the fixed fields in order in front of its cursor, the second pass leaves no two
windows with a common byte. -/
theorem placeRefs_apart {cursor : ℕ} {fields : List FieldLayout}
    (hwidth : ∀ field ∈ fields, field.usesRef = true → field.valueWidth = kValueRef16Size)
    (hfixed : ∀ field ∈ fields, field.usesRef = false → field.slotEnd ≤ cursor)
    (hordered : fields.Pairwise fun a b =>
      a.usesRef = false → b.usesRef = false → a.slotEnd ≤ b.slotOffset) :
    (placeRefs cursor fields).2.Pairwise Apart := by
  induction fields generalizing cursor with
  | nil => exact List.Pairwise.nil
  | cons first fields ih =>
    obtain ⟨hfirstOrdered,hrest⟩ := List.pairwise_cons.mp hordered
    have hwidth' := fun field hmem => hwidth field (List.mem_cons_of_mem _ hmem)
    have hfixed' := fun field hmem => hfixed field (List.mem_cons_of_mem first hmem)
    rw [placeRefs]
    cases hfirst : first.usesRef with
    | true =>
      have hlater : ∀ field ∈ fields, field.usesRef = false → field.slotEnd ≤
          cursor+kValueRef16Size :=
        fun field hmem hf => (hfixed' field hmem hf).trans (Nat.le_add_right _ _)
      refine List.pairwise_cons.mpr ⟨?_,ih hwidth' hlater hrest⟩
      intro other hother
      have hfirstWidth := hwidth first List.mem_cons_self hfirst
      rcases mem_placeRefs hother with ⟨hother,hmem⟩ | ⟨-,hlow,-⟩
      · exact Or.inr (hfixed' other hmem hother)
      · refine Or.inl ?_
        show cursor+first.valueWidth ≤ other.slotOffset
        omega
    | false =>
      refine List.pairwise_cons.mpr ⟨?_,ih hwidth' hfixed' hrest⟩
      intro other hother
      rcases mem_placeRefs hother with ⟨hother,hmem⟩ | ⟨-,hlow,-⟩
      · exact Or.inl (hfirstOrdered other hmem hfirst hother)
      · exact Or.inl ((hfixed first List.mem_cons_self hfirst).trans hlow)

def bitmapBytes (schema : RuntimeSchema) : ℕ := alignUp (((sortedFields schema).length+7)/8) 8

def fixedPass (schema : RuntimeSchema) : ℕ×List FieldLayout :=
  placeFixed (bitmapBytes schema) ((sortedFields schema).mapIdx fun i field => newField field i)

def refPass (schema : RuntimeSchema) : ℕ×List FieldLayout :=
  placeRefs (alignUp (fixedPass schema).1 8) (fixedPass schema).2

theorem compile_eq_refPass (schema : RuntimeSchema) :
    (compile schema).fields = (refPass schema).2 ∧
    (compile schema).presenceBitmapBytes = bitmapBytes schema ∧
    (compile schema).rowSlotSize = alignUp (refPass schema).1 8 := ⟨rfl,rfl,rfl⟩

/-- `Compile` places the fields and changes nothing else of them. -/
theorem compile_unplaced (schema : RuntimeSchema) :
    (compile schema).fields.map unplaced =
      (sortedFields schema).mapIdx fun i field => newField field i := by
  rw [(compile_eq_refPass schema).1,refPass,placeRefs_unplaced,fixedPass,placeFixed_unplaced]
  refine List.ext_getElem? fun i => ?_
  simp only [List.getElem?_map,List.getElem?_mapIdx,Option.map_map]
  rfl

theorem compile_getElem? {schema : RuntimeSchema} {i : ℕ} {field : FieldLayout}
    (h : (compile schema).fields[i]? = some field) :
    ∃ spec, (sortedFields schema)[i]? = some spec ∧ field.unplaced = newField spec i := by
  have hplaced := congrArg (fun fields => fields[i]?) (compile_unplaced schema)
  simp only [List.getElem?_map,List.getElem?_mapIdx,h,Option.map_some] at hplaced
  obtain ⟨spec,hspec,heq⟩ := Option.map_eq_some_iff.mp hplaced.symm
  exact ⟨spec,hspec,heq.symm⟩

theorem mem_compile {schema : RuntimeSchema} {field : FieldLayout}
    (h : field ∈ (compile schema).fields) :
    ∃ spec i, spec ∈ schema.activeFields ∧ field.unplaced = newField spec i := by
  obtain ⟨i,hi⟩ := List.mem_iff_getElem?.mp h
  obtain ⟨spec,hspec,heq⟩ := compile_getElem? hi
  exact ⟨spec,i,mem_sortedFields.mp (List.mem_of_getElem? hspec),heq⟩

theorem exists_compile_field {schema : RuntimeSchema} {spec : FieldSpec}
    (h : spec ∈ schema.activeFields) :
    ∃ field ∈ (compile schema).fields, ∃ i, field.unplaced = newField spec i := by
  obtain ⟨i,hi,hspec⟩ := List.mem_iff_getElem.mp (mem_sortedFields.mpr h)
  have hmem : newField spec i ∈ (sortedFields schema).mapIdx fun i field => newField field i :=
    List.mem_mapIdx.mpr ⟨i,hi,by rw [hspec]⟩
  rw [← compile_unplaced] at hmem
  obtain ⟨field,hfield,heq⟩ := List.mem_map.mp hmem
  exact ⟨field,hfield,i,heq⟩

/-- A field as `Compile` shapes it: its kind decides over the ref, and the ref or the type over
the width. -/
structure Shaped (field : FieldLayout) : Prop where
  usesRef : field.usesRef = (field.isList || field.type == .kString)
  width : field.valueWidth = if field.usesRef then kValueRef16Size else fieldTypeSize field.type

theorem compile_shaped {schema : RuntimeSchema} {field : FieldLayout}
    (h : field ∈ (compile schema).fields) : Shaped field := by
  obtain ⟨spec,i,-,heq⟩ := mem_compile h
  have husesRef : field.usesRef = isRefField spec := congrArg FieldLayout.usesRef heq
  have htype : field.type = spec.type := congrArg FieldLayout.type heq
  have hlist : field.isList = spec.isList := congrArg FieldLayout.isList heq
  have hwidth : field.valueWidth = if isRefField spec then kValueRef16Size
    else fieldTypeSize spec.type := congrArg FieldLayout.valueWidth heq
  exact ⟨by rw [husesRef,isRefField,hlist,htype],by rw [hwidth,husesRef,htype]⟩

/-- The presence bits and the slot windows of a layout. -/
structure Formed (layout : CompiledRowLayout) : Prop where
  shaped : ∀ field ∈ layout.fields, Shaped field
  bit : ∀ (i : ℕ) (field : FieldLayout), layout.fields[i]? = some field → field.presenceBitIndex = i
  bitmap : layout.fields.length ≤ 8*layout.presenceBitmapBytes
  behind : ∀ field ∈ layout.fields, layout.presenceBitmapBytes ≤ field.slotOffset
  inside : ∀ field ∈ layout.fields, field.slotEnd ≤ layout.rowSlotSize
  bitmapInside : layout.presenceBitmapBytes ≤ layout.rowSlotSize
  apart : layout.fields.Pairwise Apart

theorem fixedPass_shaped {schema : RuntimeSchema} {field : FieldLayout}
    (h : field ∈ (fixedPass schema).2) (href : field.usesRef = true) :
    field.valueWidth = kValueRef16Size := by
  rcases mem_placeFixed h with ⟨-,hmem⟩ | ⟨hfixed,-⟩
  · obtain ⟨i,spec,-,rfl⟩ := List.mem_mapIdx.mp hmem
    exact if_pos href
  · rw [href] at hfixed
    cases hfixed

theorem compile_formed (schema : RuntimeSchema) : Formed (compile schema) := by
  obtain ⟨hfields,hbitmap,hsize⟩ := compile_eq_refPass schema
  have hlow := le_placeFixed (bitmapBytes schema)
    ((sortedFields schema).mapIdx fun i field => newField field i)
  have hmiddle := le_alignUp (fixedPass schema).1 8
  have hhigh := le_placeRefs (alignUp (fixedPass schema).1 8) (fixedPass schema).2
  have hlast := le_alignUp (refPass schema).1 8
  rw [← fixedPass] at hlow
  rw [← refPass] at hhigh
  have hplaced : ∀ field ∈ (compile schema).fields,
      bitmapBytes schema ≤ field.slotOffset ∧ field.slotEnd ≤ (refPass schema).1 := by
    intro field hfield
    have hwidth := (compile_shaped hfield).width
    rw [hfields] at hfield
    rcases mem_placeRefs hfield with ⟨hfixed,hmem⟩ | ⟨href,hoffset,hend⟩
    · rcases mem_placeFixed hmem with ⟨href,-⟩ | ⟨-,hoffset,hend⟩
      · rw [href] at hfixed
        cases hfixed
      · rw [← fixedPass] at hend
        exact ⟨hoffset,by omega⟩
    · rw [← refPass] at hend
      rw [href,if_pos rfl] at hwidth
      rw [slotEnd,hwidth]
      exact ⟨by omega,hend⟩
  refine ⟨fun field hfield => compile_shaped hfield,?_,?_,?_,?_,?_,?_⟩
  · intro i field hi
    obtain ⟨spec,-,heq⟩ := compile_getElem? hi
    exact congrArg FieldLayout.presenceBitIndex heq
  · have hlength := congrArg List.length (compile_unplaced schema)
    have hround := le_alignUp (((sortedFields schema).length+7)/8) 8
    rw [← bitmapBytes,← hbitmap] at hround
    rw [List.length_map,List.length_mapIdx] at hlength
    omega
  · intro field hfield
    rw [hbitmap]
    exact (hplaced field hfield).1
  · intro field hfield
    rw [hsize]
    exact (hplaced field hfield).2.trans hlast
  · rw [hbitmap,hsize]
    omega
  · rw [hfields]
    refine placeRefs_apart (fun field hfield href => fixedPass_shaped hfield href) ?_
      (placeFixed_ordered _ _)
    intro field hfield hfixed
    rcases mem_placeFixed hfield with ⟨href,-⟩ | ⟨-,-,hend⟩
    · rw [href] at hfixed
      cases hfixed
    · exact hend.trans hmiddle

end CompiledRowLayout
end KvIndex
