import KvIndex.BuildRows

/-! What a table says. A reader of the offline builder sees the cells of a column and whether a row
has one, and not how the column is cut into chunks, where the elements of a list lie in its values,
or which kind of strings and lists the file has. -/
namespace KvIndex
namespace Offline

open Base

/-- A part of an array; both kinds of strings are the same to a reader. -/
def FlatArray.window (array : FlatArray) (start count : ℕ) : FlatArray :=
  match array with
  | .int8 values => .int8 ((values.drop start).take count)
  | .int32 values => .int32 ((values.drop start).take count)
  | .int64 values => .int64 ((values.drop start).take count)
  | .uint64 values => .uint64 ((values.drop start).take count)
  | .bool values => .bool ((values.drop start).take count)
  | .string values => .string ((values.drop start).take count)
  | .largeString values => .string ((values.drop start).take count)
  | .other valid => .other ((valid.drop start).take count)

/-- What stands in a row of a column: one value, or the elements of a list with their number. -/
inductive ArrowCell
  | null
  | flat (value : FlatArray)
  | list (count : ℕ) (elements : FlatArray)
  deriving DecidableEq

def ListArray.cellAt (array : ListArray) (index : ℕ) : ArrowCell :=
  let (start,count) := valueAt array.slots index
  .list count (array.values.window start count)

def ArrowArray.cellAt (array : ArrowArray) (index : ℕ) : ArrowCell :=
  if array.isNull index then .null
  else
    match array with
    | .flat array => .flat (array.window index 1)
    | .list array => array.cellAt index
    | .largeList array => array.cellAt index

def columnCells (column : List ArrowArray) : List ArrowCell :=
  column.flatMap fun chunk => (List.range chunk.length).map chunk.cellAt

/-- The tables have the same rows. -/
structure ArrowTable.Alike (table table' : ArrowTable) : Prop where
  numRows : table.numRows = table'.numRows
  columns : ∀ name, (table.getColumnByName name).map columnCells =
    (table'.getColumnByName name).map columnCells

section Window

variable {T : Type} {array : FlatArray} {start count index : ℕ}

theorem getElem?_window (values : List T) (h : index < count) :
    ((values.drop start).take count)[index]? = values[start+index]? := by
  rw [List.getElem?_take_of_lt h,List.getElem?_drop]

theorem valueAt_window [Inhabited T] (values : List (Option T)) (h : index < count) :
    valueAt ((values.drop start).take count) index = valueAt values (start+index) := by
  rw [valueAt,valueAt,List.getD_eq_getElem?_getD,List.getD_eq_getElem?_getD,
    getElem?_window values h]

theorem valid_window : (array.window start count).valid = (array.valid.drop start).take count := by
  cases array <;> simp only [FlatArray.window,FlatArray.valid,List.map_take,List.map_drop]

theorem isNull_window (h : index < count) :
    (array.window start count).isNull index = array.isNull (start+index) := by
  rw [FlatArray.isNull,FlatArray.isNull,valid_window,List.getD_eq_getElem?_getD,
    List.getD_eq_getElem?_getD,getElem?_window _ h]

/-- The windows of arrays of the element type are the windows of their values. -/
def Windowed (T : Type) [ArrowElement T] : Prop :=
  ∀ (array : FlatArray) (start count : ℕ),
    (ArrowElement.values (array.window start count) : Option (List (Option T))) =
      (ArrowElement.values array).map fun values => (values.drop start).take count

theorem windowed_int8 : Windowed Int8 := fun array _ _ => by cases array <;> rfl
theorem windowed_int32 : Windowed Int32 := fun array _ _ => by cases array <;> rfl
theorem windowed_int64 : Windowed Int64 := fun array _ _ => by cases array <;> rfl
theorem windowed_uint64 : Windowed UInt64 := fun array _ _ => by cases array <;> rfl
theorem windowed_bool : Windowed Bool := fun array _ _ => by cases array <;> rfl
theorem windowed_bytes : Windowed Bytes := fun array _ _ => by cases array <;> rfl

theorem checkedArray_window [ArrowElement T] (hT : Windowed T) (name : Bytes) :
    checkedArray T (array.window start count) name =
      (checkedArray T array name).map fun values => (values.drop start).take count := by
  rw [checkedArray,checkedArray,hT array start count]
  cases (ArrowElement.values array : Option (List (Option T))) with
  | none => rfl
  | some values => rfl

theorem readValue_window [ArrowElement T] [Inhabited T] (hT : Windowed T) (name : Bytes)
    (h : index < count) :
    readValue T (array.window start count) index name = readValue T array (start+index) name := by
  rw [readValue,readValue,checkedArray_window hT]
  cases checkedArray T array name with
  | error status => rfl
  | ok values => exact congrArg Except.ok (valueAt_window values h)

theorem readScalarValue_window (field : FieldLayout) (h : index < count) :
    readScalarValue field (array.window start count) index =
      readScalarValue field array (start+index) := by
  rw [readScalarValue,readScalarValue,readValue_window windowed_int8 _ h,
    readValue_window windowed_int32 _ h,readValue_window windowed_int64 _ h,
    readValue_window windowed_uint64 _ h,readValue_window windowed_bool _ h,
    readValue_window windowed_bytes _ h]

theorem mapM_congr_mem {α β : Type} {f g : α → StatusOr β} {as : List α}
    (h : ∀ a ∈ as, f a = g a) : as.mapM f = as.mapM g := by
  induction as with
  | nil => rfl
  | cons a as ih =>
    rw [List.mapM_cons,List.mapM_cons,h a List.mem_cons_self,
      ih fun b hb => h b (List.mem_cons_of_mem _ hb)]

theorem checkElement_window (h : index < count) :
    checkElement (array.window start count) index = checkElement array (start+index) := by
  rw [checkElement,checkElement,isNull_window h]

theorem readIntegerList_window [ArrowElement T] [Inhabited T] (hT : Windowed T) (name : Bytes) :
    readIntegerList T (array.window start count) 0 count name =
      readIntegerList T array start count name := by
  rw [readIntegerList,readIntegerList,checkedArray_window hT]
  cases checkedArray T array name with
  | error status => rfl
  | ok values =>
    refine mapM_congr_mem fun i hi => ?_
    have hlt := List.mem_range.mp hi
    rw [Nat.zero_add,checkElement_window hlt,valueAt_window values hlt]

theorem readStringList_window (name : Bytes) :
    readStringList (array.window start count) 0 count name =
      readStringList array start count name := by
  refine mapM_congr_mem fun i hi => ?_
  have hlt := List.mem_range.mp hi
  rw [Nat.zero_add,checkElement_window hlt,readValue_window windowed_bytes _ hlt]

theorem readListValuesByType_window (field : FieldLayout) :
    readListValuesByType field (array.window start count) 0 count =
      readListValuesByType field array start count := by
  rw [readListValuesByType,readListValuesByType,readIntegerList_window windowed_int8,
    readIntegerList_window windowed_int32,readIntegerList_window windowed_int64,
    readIntegerList_window windowed_uint64,readIntegerList_window windowed_bool,
    readStringList_window]

end Window

/-- What `ReadFieldValue` makes of a cell. -/
def readFieldCell (field : FieldLayout) : ArrowCell → StatusOr FieldValue
  | .null => do
    failIf (!field.nullable)
      (.invalidArgument ("required field contains null: "++display field.name))
    return .monostate
  | .flat value =>
    if field.isList then .error
      (.invalidArgument ("parquet column has wrong list type for field "++display field.name))
    else readScalarValue field value 0
  | .list count elements =>
    if field.isList then readListValuesByType field elements 0 count
    else readScalarValue field (.other []) 0

/-- What `ReadPrimaryKey` makes of a cell. -/
def readPrimaryKeyCell (name : Bytes) : ArrowCell → StatusOr UInt64
  | .null => .error (.invalidArgument ("primary key column contains null: "++display name))
  | .flat (.uint64 values) => return valueAt values 0
  | .flat (.int64 values) => do
    failIf (valueAt values 0 < 0)
      (.invalidArgument "primary key column contains negative value")
    return (valueAt values 0).toUInt64
  | _ => .error (.invalidArgument "primary key column must be uint64 or int64")

def cellOrError : Option ArrowCell → StatusOr ArrowCell
  | none => .error (.invalidArgument "row index is out of parquet column bounds")
  | some cell => .ok cell

section Cells

variable {array : ArrowArray} {index rowIndex : ℕ} {column : List ArrowArray}

theorem length_cells (chunk : ArrowArray) :
    ((List.range chunk.length).map chunk.cellAt).length = chunk.length := by
  rw [List.length_map,List.length_range]

theorem locateFrom_cell (column : List ArrowArray) {offset : ℕ} (h : offset ≤ rowIndex) :
    (locateFrom offset column rowIndex).map (fun place => place.1.cellAt place.2) =
      cellOrError (columnCells column)[rowIndex-offset]? := by
  induction column generalizing offset with
  | nil => rfl
  | cons chunk chunks ih =>
    rw [locateFrom,columnCells,List.flatMap_cons,← columnCells]
    by_cases hin : rowIndex < offset+chunk.length
    · have hlt : rowIndex-offset < chunk.length := by omega
      rw [if_pos hin,List.getElem?_append_left (by rw [length_cells]; exact hlt),List.getElem?_map,
        List.getElem?_range hlt]
      rfl
    · have hge : offset+chunk.length ≤ rowIndex := by omega
      have hsub : rowIndex-offset-chunk.length = rowIndex-(offset+chunk.length) := by omega
      rw [if_neg hin,ih hge,List.getElem?_append_right (by rw [length_cells]; omega),length_cells,
        hsub]

theorem locateArray_bind {β : Type} {read : ArrowArray×ℕ → StatusOr β}
    {readCell : ArrowCell → StatusOr β}
    (h : ∀ place, read place = readCell (place.1.cellAt place.2)) :
    (locateArray column rowIndex >>= read) =
      cellOrError (columnCells column)[rowIndex]? >>= readCell := by
  have hcell := locateFrom_cell column (Nat.zero_le rowIndex)
  rw [Nat.sub_zero] at hcell
  rw [← hcell,locateArray]
  cases locateFrom 0 column rowIndex with
  | error status => rfl
  | ok place => exact h place

theorem readScalarValue_list (field : FieldLayout) (valid : List Bool) :
    readScalarValue field (.other valid) index = readScalarValue field (.other []) 0 := by
  rw [readScalarValue,readScalarValue]
  cases field.type <;> rfl

theorem readFieldValue_eq (field : FieldLayout) (column : List ArrowArray) (rowIndex : ℕ) :
    readFieldValue field column rowIndex =
      cellOrError (columnCells column)[rowIndex]? >>= readFieldCell field := by
  refine locateArray_bind fun ⟨array,index⟩ => ?_
  show (if array.isNull index then _ else _) = readFieldCell field (array.cellAt index)
  rw [ArrowArray.cellAt.eq_def]
  by_cases hnull : array.isNull index = true
  · rw [if_pos hnull,if_pos hnull]
    rfl
  · rw [if_neg hnull,if_neg hnull]
    cases array with
    | flat values =>
      show (if field.isList then _ else _) = (if field.isList then _ else _)
      rw [readScalarValue_window field Nat.zero_lt_one]
      rfl
    | list lists =>
      show (if field.isList then _ else _) = (if field.isList then _ else _)
      rw [readListValuesByType_window,← readScalarValue_list field]
      rfl
    | largeList lists =>
      show (if field.isList then _ else _) = (if field.isList then _ else _)
      rw [readListValuesByType_window,← readScalarValue_list field]
      rfl

theorem readPrimaryKey_eq (column : List ArrowArray) (rowIndex : ℕ) (name : Bytes) :
    readPrimaryKey column rowIndex name =
      cellOrError (columnCells column)[rowIndex]? >>= readPrimaryKeyCell name := by
  refine locateArray_bind fun ⟨array,index⟩ => ?_
  show (failIf (array.isNull index) _ >>= _) = readPrimaryKeyCell name (array.cellAt index)
  rw [ArrowArray.cellAt.eq_def]
  by_cases hnull : array.isNull index = true
  · rw [if_pos hnull,hnull]
    rfl
  · rw [if_neg hnull,eq_false_of_ne_true hnull]
    cases array with
    | flat values =>
      cases values with
      | uint64 values =>
        exact congrArg Except.ok (valueAt_window values Nat.zero_lt_one).symm
      | int64 values =>
        show _ = (failIf (valueAt ((values.drop index).take 1) 0 < 0) _ >>= _)
        rw [valueAt_window values Nat.zero_lt_one]
        rfl
      | _ => rfl
    | list lists => rfl
    | largeList lists => rfl

end Cells

def TableColumns.cells (columns : TableColumns) :
    List ArrowCell×List (FieldId×List ArrowCell) :=
  (columnCells columns.primaryKey,columns.fields.map (Prod.map id columnCells))

section Tables

variable {table table' : ArrowTable} {columns columns' : TableColumns}
  {config : ParsedSchemaConfig} {layout : CompiledRowLayout}

theorem emplaced_map {α β : Type} (f : α → β) (entries : List (FieldId×α)) (fieldId : FieldId) :
    emplaced (entries.map (Prod.map id f)) fieldId = (emplaced entries fieldId).map f := by
  rw [emplaced,emplaced,FirstWins.find_map (Prod.map id f) (fun _ => rfl),Option.map_map,
    Option.map_map]
  rfl

/-- Two lookups that show the same find nothing, or find what shows the same. -/
theorem lookups_cases {α β : Type} {f : α → β} {x y : Option α} (h : x.map f = y.map f) :
    (x = none ∧ y = none) ∨ ∃ a b, x = some a ∧ y = some b ∧ f a = f b := by
  cases x with
  | none => exact Or.inl ⟨rfl,Option.map_eq_none_iff.mp h.symm⟩
  | some a =>
    obtain ⟨b,hb,heq⟩ := Option.map_eq_some_iff.mp h.symm
    exact Or.inr ⟨a,b,rfl,hb,heq.symm⟩

/-- Two results that show the same have one status, or values that show the same. -/
theorem results_cases {α β : Type} {f : α → β} {x y : StatusOr α} (h : x.map f = y.map f) :
    (∃ status, x = .error status ∧ y = .error status) ∨
      ∃ a b, x = .ok a ∧ y = .ok b ∧ f a = f b := by
  cases x with
  | error status =>
    cases y with
    | error status' => exact Or.inl ⟨status,rfl,congrArg Except.error (Except.error.inj h).symm⟩
    | ok b => cases h
  | ok a =>
    cases y with
    | error status' => cases h
    | ok b => exact Or.inr ⟨a,b,rfl,rfl,Except.ok.inj h⟩

theorem readRowField_congr (h : columns.cells = columns'.cells) (rowIndex : ℕ)
    (values : List (FieldId×FieldValue)) (field : FieldLayout) :
    readRowField columns rowIndex values field = readRowField columns' rowIndex values field := by
  have hcolumn : (emplaced columns.fields field.fieldId).map columnCells =
      (emplaced columns'.fields field.fieldId).map columnCells := by
    rw [← emplaced_map,← emplaced_map]
    exact congrArg (emplaced ·.2 field.fieldId) h
  rw [readRowField,readRowField]
  rcases lookups_cases hcolumn with ⟨hc,hc'⟩ | ⟨column,column',hc,hc',hcells⟩
  · rw [hc,hc']
  · simp only [hc,hc',readFieldValue_eq,hcells]

theorem readRow_congr (h : columns.cells = columns'.cells) :
    readRow config layout columns = readRow config layout columns' := by
  have hkey : columnCells columns.primaryKey = columnCells columns'.primaryKey :=
    congrArg Prod.fst h
  have hfields : ∀ rowIndex, readRowField columns rowIndex = readRowField columns' rowIndex := by
    intro rowIndex
    funext values field
    exact readRowField_congr h rowIndex values field
  funext state rowIndex
  rw [readRow,readRow,readPrimaryKey_eq,readPrimaryKey_eq,hkey,readRowValues,readRowValues,
    hfields rowIndex]

theorem resolveFieldColumns_alike (h : table.Alike table') (fields : List FieldLayout)
    {entries entries' : List (FieldId×List ArrowArray)}
    (hentries : entries.map (Prod.map id columnCells) = entries'.map (Prod.map id columnCells)) :
    (fields.foldlM (resolveFieldColumn table) entries).map (List.map (Prod.map id columnCells)) =
      (fields.foldlM (resolveFieldColumn table') entries').map
        (List.map (Prod.map id columnCells)) := by
  induction fields generalizing entries entries' with
  | nil => exact congrArg Except.ok hentries
  | cons field fields ih =>
    rw [List.foldlM_cons,List.foldlM_cons,resolveFieldColumn,resolveFieldColumn]
    rcases lookups_cases (h.columns field.name) with ⟨hc,hc'⟩ | ⟨column,column',hc,hc',hcells⟩
    · rw [hc,hc']
      cases hfail : !field.nullable && !field.hasDefault with
      | true => rfl
      | false => exact ih hentries
    · rw [hc,hc']
      refine ih ?_
      rw [List.map_append,List.map_append,hentries]
      exact congrArg (fun cells => _++[(field.fieldId,cells)]) hcells

theorem resolveTableColumns_alike (config : ParsedSchemaConfig) (layout : CompiledRowLayout)
    (h : table.Alike table') :
    (resolveTableColumns table config layout).map TableColumns.cells =
      (resolveTableColumns table' config layout).map TableColumns.cells := by
  rw [resolveTableColumns,resolveTableColumns]
  rcases lookups_cases (h.columns config.primaryKeyName) with
    ⟨hc,hc'⟩ | ⟨column,column',hc,hc',hcells⟩
  · rw [hc,hc']
  · rw [hc,hc']
    have hfields := resolveFieldColumns_alike h layout.fields (List.map_nil.trans List.map_nil.symm)
    dsimp only
    rcases results_cases hfields with ⟨status,hf,hf'⟩ | ⟨fields,fields',hf,hf',heq⟩
    · rw [hf,hf']
      rfl
    · rw [hf,hf']
      exact congrArg Except.ok (Prod.ext hcells heq)

theorem readTableIntoSpec_alike (h : table.Alike table') (state : BuildState) :
    readTableIntoSpec config layout state table = readTableIntoSpec config layout state table' := by
  rw [readTableIntoSpec,readTableIntoSpec,h.numRows]
  rcases results_cases (resolveTableColumns_alike config layout h) with
    ⟨status,hc,hc'⟩ | ⟨columns,columns',hc,hc',hcells⟩
  · rw [hc,hc']
  · rw [hc,hc',ok_bind,ok_bind,readRow_congr hcells]

end Tables

end Offline
end KvIndex
