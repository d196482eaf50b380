import KvIndex.EncoderAgreement
import KvIndex.OfflineBuild

/-! The rows of a table. Reading a table is reading its rows one by one; a row that was encoded
reads back as the cells it was made of. -/
namespace KvIndex
namespace Offline

open Base Schema CompiledRowLayout Model Artifact

section Cells

variable {field : FieldLayout} {column : List ArrowArray} {rowIndex : ℕ} {value : FieldValue}

theorem readScalarValue_typed {array : FlatArray} {index : ℕ} (hlist : field.isList = false)
    (h : readScalarValue field array index = .ok value) : Typed field value := by
  rw [Typed,if_neg (by rw [hlist]; decide)]
  unfold readScalarValue at h
  split at h
  · rename_i htype
    obtain ⟨v,-,rfl⟩ := map_eq_ok.mp h
    exact ⟨.int8 v,htype,rfl⟩
  · rename_i htype
    obtain ⟨v,-,rfl⟩ := map_eq_ok.mp h
    exact ⟨.int32 v,htype,rfl⟩
  · rename_i htype
    obtain ⟨v,-,rfl⟩ := map_eq_ok.mp h
    exact ⟨.int64 v,htype,rfl⟩
  · rename_i htype
    obtain ⟨v,-,rfl⟩ := map_eq_ok.mp h
    exact ⟨.uint64 v,htype,rfl⟩
  · rename_i htype
    obtain ⟨v,-,rfl⟩ := map_eq_ok.mp h
    exact ⟨.bool v,htype,rfl⟩
  · rename_i htype
    obtain ⟨v,-,rfl⟩ := map_eq_ok.mp h
    exact ⟨.string v,htype,rfl⟩
  · cases h

theorem readListValuesByType_typed {values : FlatArray} {start count : ℕ}
    (hlist : field.isList = true) (h : readListValuesByType field values start count = .ok value) :
    Typed field value := by
  rw [Typed,if_pos hlist]
  unfold readListValuesByType at h
  split at h
  · rename_i htype
    obtain ⟨v,-,rfl⟩ := map_eq_ok.mp h
    exact ⟨.int8s v,htype,rfl⟩
  · rename_i htype
    obtain ⟨v,-,rfl⟩ := map_eq_ok.mp h
    exact ⟨.int32s v,htype,rfl⟩
  · rename_i htype
    obtain ⟨v,-,rfl⟩ := map_eq_ok.mp h
    exact ⟨.int64s v,htype,rfl⟩
  · rename_i htype
    obtain ⟨v,-,rfl⟩ := map_eq_ok.mp h
    exact ⟨.uint64s v,htype,rfl⟩
  · rename_i htype
    obtain ⟨v,-,rfl⟩ := map_eq_ok.mp h
    exact ⟨.bools v,htype,rfl⟩
  · rename_i htype
    obtain ⟨v,-,rfl⟩ := map_eq_ok.mp h
    exact ⟨.strings v,htype,rfl⟩
  · cases h

/-- A cell reads as null in an optional field, or as a value of the type of the field. -/
theorem readFieldValue_typed (h : readFieldValue field column rowIndex = .ok value) :
    value = .monostate ∧ field.nullable = true ∨ Typed field value := by
  simp only [readFieldValue,bind_eq_ok,Prod.exists] at h
  obtain ⟨array,index,-,h⟩ := h
  split_ifs at h with hnull hlist
  · simp only [bind_eq_ok,failIf_eq_ok,exists_const,Bool.not_eq_eq_eq_not,Bool.not_false,
      pure_eq_ok,Except.ok.injEq] at h
    exact Or.inl ⟨h.2.symm,h.1⟩
  · refine Or.inr ?_
    cases array with
    | flat array => cases h
    | list array => exact readListValuesByType_typed hlist h
    | largeList array => exact readListValuesByType_typed hlist h
  · exact Or.inr (readScalarValue_typed (by simpa using hlist) h)

end Cells

section Columns

variable {table : ArrowTable} {config : ParsedSchemaConfig} {layout : CompiledRowLayout}
  {columns : TableColumns}

theorem foldlM_resolveFieldColumn {fields : List FieldLayout}
    {before after : List (FieldId×List ArrowArray)} :
    fields.foldlM (resolveFieldColumn table) before = .ok after ↔
      (∀ field ∈ fields, table.getColumnByName field.name = none →
        field.nullable = true ∨ field.hasDefault = true) ∧
      after = before++fields.filterMap fun field =>
        (table.getColumnByName field.name).map (Prod.mk field.fieldId) := by
  induction fields generalizing before with
  | nil =>
    simp only [List.foldlM_nil,pure_eq_ok,Except.ok.injEq,List.filterMap_nil,List.append_nil]
    exact ⟨fun h => ⟨fun _ hmem => absurd hmem List.not_mem_nil,h.symm⟩,fun h => h.2.symm⟩
  | cons field fields ih =>
    rw [List.foldlM_cons,List.forall_mem_cons,List.filterMap_cons,bind_eq_ok]
    cases hcolumn : table.getColumnByName field.name with
    | none =>
      have hoptional : (!field.nullable && !field.hasDefault) = false ↔
          field.nullable = true ∨ field.hasDefault = true := by
        cases field.nullable
        all_goals simp
      simp only [resolveFieldColumn,hcolumn,bind_eq_ok,failIf_eq_ok,pure_eq_ok,Except.ok.injEq,
        hoptional,Option.map_none,forall_const]
      constructor
      · rintro ⟨_,⟨_,hfield,rfl⟩,hrest⟩
        obtain ⟨hothers,hafter⟩ := ih.mp hrest
        exact ⟨⟨hfield,hothers⟩,hafter⟩
      · rintro ⟨⟨hfield,hothers⟩,hafter⟩
        exact ⟨before,⟨(),hfield,rfl⟩,ih.mpr ⟨hothers,hafter⟩⟩
    | some column =>
      simp only [resolveFieldColumn,hcolumn,pure_eq_ok,Except.ok.injEq,exists_eq_left',
        Option.map_some]
      rw [ih,List.append_assoc,List.singleton_append]
      simp

/-- The cell of a field in a row: nothing where the table has no column for the field. -/
def cellIn (column : Option (List ArrowArray)) (rowIndex : ℕ) (field : FieldLayout) :
    StatusOr (Option FieldValue) :=
  match column with
  | none => .ok none
  | some column => (readFieldValue field column rowIndex).map some

def tableCell (table : ArrowTable) (rowIndex : ℕ) (field : FieldLayout) :
    StatusOr (Option FieldValue) :=
  cellIn (table.getColumnByName field.name) rowIndex field

theorem emplaced_filterMap {α : Type} {fields : List FieldLayout} {g : FieldLayout → Option α}
    (hdistinct : (fields.map FieldLayout.fieldId).Nodup) {field : FieldLayout}
    (hfield : field ∈ fields) :
    emplaced (fields.filterMap fun field => (g field).map (Prod.mk field.fieldId)) field.fieldId =
      g field := by
  induction fields with
  | nil => cases hfield
  | cons first fields ih =>
    obtain ⟨hfirst,hrest⟩ := List.nodup_cons.mp hdistinct
    have hother : ∀ {other}, other ∈ fields → other.fieldId ≠ first.fieldId :=
      fun hmem hid => hfirst (hid ▸ List.mem_map_of_mem hmem)
    rw [List.filterMap_cons]
    rcases List.mem_cons.mp hfield with rfl | hfield
    · cases hvalue : g field with
      | some value => simp [emplaced,FirstWins.find_cons]
      | none =>
        rw [emplaced,Option.map_none,FirstWins.find_eq_none.mpr]
        · rfl
        · intro entry hentry
          obtain ⟨other,hmem,hother'⟩ := List.mem_filterMap.mp hentry
          obtain ⟨value,-,rfl⟩ := Option.map_eq_some_iff.mp hother'
          exact hother hmem
    · cases hvalue : g first with
      | none => exact ih hrest hfield
      | some value =>
        have hne : first.fieldId ≠ field.fieldId := (hother hfield).symm
        rw [emplaced,Option.map_some,FirstWins.find_cons,if_neg hne]
        exact ih hrest hfield

def cellOf (read : FieldLayout → StatusOr (Option FieldValue)) (field : FieldLayout) :
    Option FieldValue :=
  (read field).toOption.join

theorem cellOf_eq {read : FieldLayout → StatusOr (Option FieldValue)} {field : FieldLayout}
    {cell : Option FieldValue} (h : read field = .ok cell) : cellOf read field = cell := by
  rw [cellOf,h]
  rfl

theorem foldlM_readRowField {fields : List FieldLayout} {rowIndex : ℕ}
    {before after : List (FieldId×FieldValue)}
    {read : FieldLayout → StatusOr (Option FieldValue)}
    (hread : ∀ field ∈ fields,
      cellIn (emplaced columns.fields field.fieldId) rowIndex field = read field) :
    fields.foldlM (readRowField columns rowIndex) before = .ok after ↔
      (∀ field ∈ fields, ∃ cell, read field = .ok cell) ∧
        after = before++fields.filterMap fun field =>
          (cellOf read field).map (Prod.mk field.fieldId) := by
  induction fields generalizing before with
  | nil =>
    simp only [List.foldlM_nil,pure_eq_ok,Except.ok.injEq,List.filterMap_nil,List.append_nil]
    exact ⟨fun h => ⟨fun _ hmem => absurd hmem List.not_mem_nil,h.symm⟩,fun h => h.2.symm⟩
  | cons field fields ih =>
    obtain ⟨hfirst,hrest⟩ := List.forall_mem_cons.mp hread
    rw [List.foldlM_cons,List.forall_mem_cons,List.filterMap_cons,bind_eq_ok]
    cases hcolumn : emplaced columns.fields field.fieldId with
    | none =>
      rw [hcolumn] at hfirst
      rw [cellOf_eq hfirst.symm,← hfirst]
      simp only [readRowField,hcolumn,Except.ok.injEq,exists_eq_left',ih hrest,Option.map_none]
      exact and_congr_left fun _ => ⟨fun h => ⟨⟨none,rfl⟩,h⟩,And.right⟩
    | some column =>
      rw [hcolumn] at hfirst
      simp only [readRowField,hcolumn,bind_eq_ok,pure_eq_ok,Except.ok.injEq]
      constructor
      · rintro ⟨_,⟨value,hvalue,rfl⟩,hfold⟩
        have hcell : read field = .ok (some value) := by
          rw [← hfirst,cellIn,hvalue]
          rfl
        obtain ⟨hcells,hafter⟩ := (ih hrest).mp hfold
        rw [cellOf_eq hcell,hafter,List.append_assoc]
        exact ⟨⟨⟨_,hcell⟩,hcells⟩,rfl⟩
      · rintro ⟨⟨⟨cell,hcell⟩,hcells⟩,hafter⟩
        rw [← hfirst,cellIn,map_eq_ok] at hcell
        obtain ⟨value,hvalue,-⟩ := hcell
        have hcell : read field = .ok (some value) := by
          rw [← hfirst,cellIn,hvalue]
          rfl
        refine ⟨_,⟨value,hvalue,rfl⟩,(ih hrest).mpr ⟨hcells,?_⟩⟩
        rw [hafter,cellOf_eq hcell,List.append_assoc]
        rfl

section Distinct

variable (hdistinct : (layout.fields.map FieldLayout.fieldId).Nodup)

include hdistinct

theorem resolveTableColumns_eq_ok (h : resolveTableColumns table config layout = .ok columns) :
    table.getColumnByName config.primaryKeyName = some columns.primaryKey ∧
      (∀ field ∈ layout.fields, table.getColumnByName field.name = none →
        field.nullable = true ∨ field.hasDefault = true) ∧
      ∀ field ∈ layout.fields,
        emplaced columns.fields field.fieldId = table.getColumnByName field.name := by
  rw [resolveTableColumns] at h
  split at h
  · cases h
  · rename_i hkey
    simp only [bind_eq_ok,pure_eq_ok,Except.ok.injEq] at h
    obtain ⟨fields,hfields,rfl⟩ := h
    obtain ⟨hrequired,rfl⟩ := foldlM_resolveFieldColumn.mp hfields
    refine ⟨hkey,hrequired,fun field hfield => ?_⟩
    rw [List.nil_append]
    exact emplaced_filterMap hdistinct hfield

theorem readRowValues_eq_ok (h : resolveTableColumns table config layout = .ok columns)
    {rowIndex : ℕ} {values : List (FieldId×FieldValue)}
    (hvalues : readRowValues layout columns rowIndex = .ok values) :
    ∀ field ∈ layout.fields,
      tableCell table rowIndex field = .ok (emplaced values field.fieldId) := by
  obtain ⟨-,-,hcolumns⟩ := resolveTableColumns_eq_ok hdistinct h
  have hread : ∀ field ∈ layout.fields, cellIn (emplaced columns.fields field.fieldId) rowIndex field =
      tableCell table rowIndex field := by
    intro field hfield
    rw [hcolumns field hfield]
    rfl
  obtain ⟨hcells,rfl⟩ := (foldlM_readRowField hread).mp hvalues
  intro field hfield
  obtain ⟨cell,hcell⟩ := hcells field hfield
  rw [hcell,List.nil_append,emplaced_filterMap hdistinct hfield,cellOf_eq hcell]

end Distinct

end Columns

def rowWrites (layout : CompiledRowLayout) (table : ArrowTable) (rowIndex : ℕ) :
    List (FieldLayout×FieldValue) :=
  layout.fields.filterMap fun field =>
    ((cellOf (tableCell table rowIndex) field).filter (· != .monostate)).map (Prod.mk field)

/-- The cells of a row have lengths that the format can carry. -/
structure RowFits (layout : CompiledRowLayout) (table : ArrowTable) (rowIndex : ℕ) : Prop where
  fits : ∀ w ∈ rowWrites layout table rowIndex, Ingest.FieldFits ⟨w.1.fieldId,w.2⟩
  arena : totalArena (rowWrites layout table rowIndex) ≤ uint64Max

def cellRead (field : FieldLayout) (cell : Option FieldValue) : StatusOr FieldValue :=
  match cell.filter (· != .monostate) with
  | none => absentRead field
  | some value => .ok value

section Encoded

variable {schema : RuntimeSchema} {table : ArrowTable} {config : ParsedSchemaConfig}
  {columns : TableColumns} {rowIndex : ℕ} {values : List (FieldId×FieldValue)}
  {encoded : EncodedRow}

theorem fieldIds_nodup (hr : schema.Reachable) :
    ((compile schema).fields.map FieldLayout.fieldId).Nodup :=
  List.pairwise_map.mpr ((compile_increasing hr.accepted).imp fun hlt => UInt32.ne_of_lt hlt)

theorem tableCell_typed {field : FieldLayout} {value : FieldValue}
    (h : tableCell table rowIndex field = .ok (some value)) (hvalue : value ≠ .monostate) :
    Typed field value := by
  rw [tableCell] at h
  cases hcolumn : table.getColumnByName field.name with
  | none =>
    rw [hcolumn] at h
    cases h
  | some column =>
    rw [hcolumn] at h
    obtain ⟨read,hread,hsome⟩ := map_eq_ok.mp h
    cases hsome
    exact (readFieldValue_typed hread).resolve_left fun hnull => hvalue hnull.1

variable (hr : schema.Reachable)
  (hcolumns : resolveTableColumns table config (compile schema) = .ok columns)
  (hvalues : readRowValues (compile schema) columns rowIndex = .ok values)

include hr hcolumns hvalues

theorem assigned_eq_rowWrites :
    assigned (compile schema) (emplaced values) = rowWrites (compile schema) table rowIndex := by
  have hcells := readRowValues_eq_ok (fieldIds_nodup hr) hcolumns hvalues
  refine List.filterMap_congr fun field hfield => ?_
  rw [cellOf_eq (hcells field hfield)]

theorem rowWrites_fitting (hfits : RowFits (compile schema) table rowIndex) :
    Fitting (compile schema) (rowWrites (compile schema) table rowIndex) := by
  have hcells := readRowValues_eq_ok (fieldIds_nodup hr) hcolumns hvalues
  intro w hw
  refine ⟨?_,?_,hfits.fits w hw⟩
  · rw [← assigned_eq_rowWrites hr hcolumns hvalues] at hw
    exact (mem_assigned.mp hw).1
  · rw [← assigned_eq_rowWrites hr hcolumns hvalues] at hw
    obtain ⟨hfield,hvalue,hne⟩ := mem_assigned.mp hw
    have hcell := hcells w.1 hfield
    rw [hvalue] at hcell
    exact tableCell_typed hcell hne

variable (hfits : RowFits (compile schema) table rowIndex)
  (hencode : encodeRow (compile schema) (emplaced values) = .ok encoded)

include hfits hencode

/-- A row that was encoded has the shape of the layout and reads as its cells. -/
theorem encodeRow_reads : Fits (compile schema) encoded ∧
    (∃ made, materializeRow (compile schema) encoded = .ok made) ∧
    ∀ field ∈ (compile schema).fields, ∃ cell, tableCell table rowIndex field = .ok cell ∧
      (Row.mk (compile schema) encoded).readField field = cellRead field cell := by
  have hcells := readRowValues_eq_ok (fieldIds_nodup hr) hcolumns hvalues
  have hfitting := rowWrites_fitting hr hcolumns hvalues hfits
  have harena := hfits.arena
  rw [← assigned_eq_rowWrites hr hcolumns hvalues] at hfitting harena
  have hformed := compile_formed schema
  obtain ⟨hcomplete,hwrites⟩ := (encodeRow_eq_ok hformed hfitting harena).mp hencode
  have hmem : ∀ w ∈ assigned (compile schema) (emplaced values), w.1 ∈ (compile schema).fields :=
    fun w hw => (hfitting w hw).1
  have hdistinct : ((assigned (compile schema) (emplaced values)).map Prod.fst).Nodup := by
    rw [assigned_fst]
    exact (List.Nodup.of_map _ (fieldIds_nodup hr)).filter _
  have hstored := writeFields_stored hformed hfitting (create_size _) (create_arena _ harena) hwrites
  have hmatches := Ingest.matches_of_stored hstored
  refine ⟨⟨hmatches.1,hmatches.2,?_⟩,
    (materializeRow_succeeds hstored hformed hmem hdistinct).mpr hcomplete,?_⟩
  · rw [hstored.kept.2.2,createEncodedRow,List.length_replicate]
  intro field hfield
  obtain ⟨hreads,habsent⟩ := written_reads hr hfitting hdistinct harena hcomplete hwrites
  refine ⟨_,hcells field hfield,?_⟩
  rw [cellRead]
  cases hcell : (emplaced values field.fieldId).filter (· != .monostate) with
  | none =>
    refine habsent field hfield fun hmap => ?_
    obtain ⟨w,hw,rfl⟩ := List.mem_map.mp hmap
    obtain ⟨-,hvalue,hne⟩ := mem_assigned.mp (show (w.1,w.2) ∈ _ from hw)
    rw [hvalue,Option.filter_some,if_pos (bne_iff_ne.mpr hne)] at hcell
    cases hcell
  | some value =>
    obtain ⟨hvalue,hne⟩ := Option.filter_eq_some_iff.mp hcell
    have hassigned : (field,value) ∈ assigned (compile schema) (emplaced values) :=
      mem_assigned.mpr ⟨hfield,hvalue,by simpa using hne⟩
    exact hreads (field,value) hassigned

end Encoded

end Offline
end KvIndex
