import KvIndex.FirstWins
import KvIndex.OfflineRow

/-! The tables of the offline builder (`tools/offline/src/offline_artifact_builder.cc`) and the
readers of their cells. An Arrow array is its values, with none where it is null, and a column is
the list of its chunks. -/
namespace KvIndex
namespace Offline

open Base

/-- An array without nesting. The builder reads the first seven types; of the arrays of all other
types it sees the nulls only. -/
inductive FlatArray
  | int8 (values : List (Option Int8))
  | int32 (values : List (Option Int32))
  | int64 (values : List (Option Int64))
  | uint64 (values : List (Option UInt64))
  | bool (values : List (Option Bool))
  | string (values : List (Option Bytes))
  | largeString (values : List (Option Bytes))
  | other (valid : List Bool)
  deriving DecidableEq

def FlatArray.valid : FlatArray → List Bool
  | .int8 values => values.map Option.isSome
  | .int32 values => values.map Option.isSome
  | .int64 values => values.map Option.isSome
  | .uint64 values => values.map Option.isSome
  | .bool values => values.map Option.isSome
  | .string values => values.map Option.isSome
  | .largeString values => values.map Option.isSome
  | .other valid => valid

def FlatArray.length (array : FlatArray) : ℕ := array.valid.length

def FlatArray.isNull (array : FlatArray) (index : ℕ) : Bool := !array.valid.getD index false

/-- A list array: `value_offset` and `value_length` of each list, inside the values. -/
structure ListArray where
  values : FlatArray
  slots : List (Option (ℕ×ℕ))
  inside : ∀ start count, some (start,count) ∈ slots → start+count ≤ values.length

/-- The element types of a list that are lists themselves are other types. -/
inductive ArrowArray
  | flat (array : FlatArray)
  | list (array : ListArray)
  | largeList (array : ListArray)

namespace ArrowArray

def asFlat : ArrowArray → FlatArray
  | flat array => array
  | list array => .other (array.slots.map Option.isSome)
  | largeList array => .other (array.slots.map Option.isSome)

def length (array : ArrowArray) : ℕ := array.asFlat.length

def isNull (array : ArrowArray) (index : ℕ) : Bool := array.asFlat.isNull index

end ArrowArray

/-- The values of an array whose type is that of the elements `T`. -/
class ArrowElement (T : Type) where
  values : FlatArray → Option (List (Option T))

instance : ArrowElement Int8 := ⟨fun array => match array with
  | .int8 values => some values
  | _ => none⟩

instance : ArrowElement Int32 := ⟨fun array => match array with
  | .int32 values => some values
  | _ => none⟩

instance : ArrowElement Int64 := ⟨fun array => match array with
  | .int64 values => some values
  | _ => none⟩

instance : ArrowElement UInt64 := ⟨fun array => match array with
  | .uint64 values => some values
  | _ => none⟩

instance : ArrowElement Bool := ⟨fun array => match array with
  | .bool values => some values
  | _ => none⟩

/-- Both kinds of string arrays have these elements. -/
instance : ArrowElement Bytes := ⟨fun array => match array with
  | .string values => some values
  | .largeString values => some values
  | _ => none⟩

/-- `Value` and `GetString`; what stands at a null is never asked for. -/
def valueAt {T : Type} [Inhabited T] (values : List (Option T)) (index : ℕ) : T :=
  (values.getD index none).getD default

def checkedArray (T : Type) [ArrowElement T] (array : FlatArray) (fieldName : Bytes) :
    StatusOr (List (Option T)) :=
  match ArrowElement.values array with
  | none =>
    .error (.invalidArgument ("parquet column has wrong type for field "++display fieldName))
  | some values => .ok values

/-- `LocateArray`, behind the chunks of `offset` rows. -/
def locateFrom (offset : ℕ) (column : List ArrowArray) (rowIndex : ℕ) :
    StatusOr (ArrowArray×ℕ) :=
  match column with
  | [] => .error (.invalidArgument "row index is out of parquet column bounds")
  | chunk::chunks =>
    if rowIndex < offset+chunk.length then .ok (chunk,rowIndex-offset)
    else locateFrom (offset+chunk.length) chunks rowIndex

def locateArray (column : List ArrowArray) (rowIndex : ℕ) : StatusOr (ArrowArray×ℕ) :=
  locateFrom 0 column rowIndex

def readPrimaryKey (column : List ArrowArray) (rowIndex : ℕ) (name : Bytes) : StatusOr UInt64 := do
  let (array,index) ← locateArray column rowIndex
  failIf (array.isNull index)
    (.invalidArgument ("primary key column contains null: "++display name))
  match array with
  | .flat (.uint64 values) => return valueAt values index
  | .flat (.int64 values) =>
    failIf (valueAt values index < 0)
      (.invalidArgument "primary key column contains negative value")
    return (valueAt values index).toUInt64
  | _ => .error (.invalidArgument "primary key column must be uint64 or int64")

/-- `ReadIntegerValue`, whose bounds are those of the type it reads, and its siblings for bools and
strings. -/
def readValue (T : Type) [ArrowElement T] [Inhabited T] (array : FlatArray) (index : ℕ)
    (fieldName : Bytes) : StatusOr T :=
  (checkedArray T array fieldName).map (valueAt · index)

def readScalarValue (field : FieldLayout) (array : FlatArray) (index : ℕ) : StatusOr FieldValue :=
  match field.type with
  | .kInt8 => (readValue Int8 array index field.name).map .int8
  | .kInt32 => (readValue Int32 array index field.name).map .int32
  | .kInt64 => (readValue Int64 array index field.name).map .int64
  | .kUInt64 => (readValue UInt64 array index field.name).map .uint64
  | .kBool => (readValue Bool array index field.name).map .bool
  | .kString => (readValue Bytes array index field.name).map .string
  | .unnamed _ _ => .error (.invalidArgument "unsupported scalar field type")

def checkElement (values : FlatArray) (index : ℕ) : StatusOr Unit :=
  failIf (values.isNull index) (.invalidArgument "list field contains null element")

/-- `ReadIntegerList`, and the list of bools; the type is checked before the elements. -/
def readIntegerList (T : Type) [ArrowElement T] [Inhabited T] (values : FlatArray)
    (start count : ℕ) (fieldName : Bytes) : StatusOr (List T) := do
  let typed ← checkedArray T values fieldName
  (List.range count).mapM fun i => do
    checkElement values (start+i)
    return valueAt typed (start+i)

/-- The list of strings; the type is checked at each element, so that a list without elements has
none. -/
def readStringList (values : FlatArray) (start count : ℕ) (fieldName : Bytes) :
    StatusOr (List Bytes) :=
  (List.range count).mapM fun i => do
    checkElement values (start+i)
    readValue Bytes values (start+i) fieldName

def readListValuesByType (field : FieldLayout) (values : FlatArray) (start count : ℕ) :
    StatusOr FieldValue :=
  match field.type with
  | .kInt8 => (readIntegerList Int8 values start count field.name).map .int8s
  | .kInt32 => (readIntegerList Int32 values start count field.name).map .int32s
  | .kInt64 => (readIntegerList Int64 values start count field.name).map .int64s
  | .kUInt64 => (readIntegerList UInt64 values start count field.name).map .uint64s
  | .kBool => (readIntegerList Bool values start count field.name).map .bools
  | .kString => (readStringList values start count field.name).map .strings
  | .unnamed _ _ => .error (.invalidArgument "unsupported list field type")

def readListSlot (field : FieldLayout) (array : ListArray) (index : ℕ) : StatusOr FieldValue :=
  let (start,count) := valueAt array.slots index
  readListValuesByType field array.values start count

def readListValue (field : FieldLayout) (array : ArrowArray) (index : ℕ) : StatusOr FieldValue :=
  match array with
  | .list array => readListSlot field array index
  | .largeList array => readListSlot field array index
  | .flat _ => .error
      (.invalidArgument ("parquet column has wrong list type for field "++display field.name))

def readFieldValue (field : FieldLayout) (column : List ArrowArray) (rowIndex : ℕ) :
    StatusOr FieldValue := do
  let (array,index) ← locateArray column rowIndex
  if array.isNull index then
    failIf (!field.nullable)
      (.invalidArgument ("required field contains null: "++display field.name))
    return .monostate
  else if field.isList then readListValue field array index
  else readScalarValue field array.asFlat index

/-- `arrow::Table`; all columns have the rows of the table. -/
structure ArrowTable where
  numRows : ℕ
  columns : List (Bytes×List ArrowArray)
  rows : ∀ column ∈ columns, (column.2.map ArrowArray.length).sum = numRows

/-- `GetColumnByName`, which finds no column when two have the name. -/
def ArrowTable.getColumnByName (table : ArrowTable) (name : Bytes) : Option (List ArrowArray) :=
  match table.columns.filter (·.1 = name) with
  | [column] => some column.2
  | _ => none

/-- The entry of a key in a map that `emplace` filled. -/
def emplaced {α : Type} (entries : List (FieldId×α)) (fieldId : FieldId) : Option α :=
  (FirstWins.find Prod.fst entries fieldId).map Prod.snd

structure TableColumns where
  primaryKey : List ArrowArray
  fields : List (FieldId×List ArrowArray)

/-- One round of the field loop of `ResolveTableColumns`. -/
def resolveFieldColumn (table : ArrowTable) (columns : List (FieldId×List ArrowArray))
    (field : FieldLayout) : StatusOr (List (FieldId×List ArrowArray)) :=
  match table.getColumnByName field.name with
  | none => do
    failIf (!field.nullable && !field.hasDefault)
      (.invalidArgument ("parquet table is missing required field: "++display field.name))
    return columns
  | some column => return columns++[(field.fieldId,column)]

def resolveTableColumns (table : ArrowTable) (config : ParsedSchemaConfig)
    (layout : CompiledRowLayout) : StatusOr TableColumns :=
  match table.getColumnByName config.primaryKeyName with
  | none => .error (.invalidArgument "parquet table is missing primary key column")
  | some primaryKey => do
    let fields ← layout.fields.foldlM (resolveFieldColumn table) []
    return { primaryKey,fields }

def readRowField (columns : TableColumns) (rowIndex : ℕ) (values : List (FieldId×FieldValue))
    (field : FieldLayout) : StatusOr (List (FieldId×FieldValue)) :=
  match emplaced columns.fields field.fieldId with
  | none => .ok values
  | some column => do
    let value ← readFieldValue field column rowIndex
    return values++[(field.fieldId,value)]

def readRowValues (layout : CompiledRowLayout) (columns : TableColumns) (rowIndex : ℕ) :
    StatusOr (List (FieldId×FieldValue)) :=
  layout.fields.foldlM (readRowField columns rowIndex) []

end Offline
end KvIndex
