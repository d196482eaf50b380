import KvIndex.RowRoundTrip

/-! The typed reads of `row.h`. A `FieldAccessor` is made once for a layout and kept by the caller;
the row that it is used on may have any other layout. A read by an accessor agrees with the read
by its field id, or it throws. -/
namespace KvIndex

open Base Schema Model

def FieldDefaultValue.scalarType : FieldValue → Option FieldType
  | .int8 _ => some .kInt8
  | .int32 _ => some .kInt32
  | .int64 _ => some .kInt64
  | .uint64 _ => some .kUInt64
  | .bool _ => some .kBool
  | .string _ => some .kString
  | _ => none

def FieldDefaultValue.listType : FieldValue → Option FieldType
  | .int8s _ => some .kInt8
  | .int32s _ => some .kInt32
  | .int64s _ => some .kInt64
  | .uint64s _ => some .kUInt64
  | .bools _ => some .kBool
  | .strings _ => some .kString
  | _ => none

/-- `FieldTypeTraits<T>`, with the alternatives that `std::get_if` looks for. -/
class FieldTypeTraits (T : Type) where
  kType : FieldType
  scalar : T → FieldValue
  list : List T → FieldValue
  getScalar : FieldValue → Option T
  getList : FieldValue → Option (List T)
  getScalar_scalar : ∀ typed, getScalar (scalar typed) = some typed := by
    intro typed
    rfl
  getList_list : ∀ typed, getList (list typed) = some typed := by
    intro typed
    rfl
  exists_scalar : ∀ value, value.scalarType = some kType → ∃ typed, value = scalar typed := by
    intro value h
    cases value <;> first | exact ⟨_,rfl⟩ | cases h
  exists_list : ∀ value, value.listType = some kType → ∃ typed, value = list typed := by
    intro value h
    cases value <;> first | exact ⟨_,rfl⟩ | cases h

instance : FieldTypeTraits Int8 where
  kType := .kInt8
  scalar := .int8
  list := .int8s
  getScalar | .int8 v => some v | _ => none
  getList | .int8s v => some v | _ => none

instance : FieldTypeTraits Int32 where
  kType := .kInt32
  scalar := .int32
  list := .int32s
  getScalar | .int32 v => some v | _ => none
  getList | .int32s v => some v | _ => none

instance : FieldTypeTraits Int64 where
  kType := .kInt64
  scalar := .int64
  list := .int64s
  getScalar | .int64 v => some v | _ => none
  getList | .int64s v => some v | _ => none

instance : FieldTypeTraits UInt64 where
  kType := .kUInt64
  scalar := .uint64
  list := .uint64s
  getScalar | .uint64 v => some v | _ => none
  getList | .uint64s v => some v | _ => none

instance : FieldTypeTraits Bool where
  kType := .kBool
  scalar := .bool
  list := .bools
  getScalar | .bool v => some v | _ => none
  getList | .bools v => some v | _ => none

instance : FieldTypeTraits Bytes where
  kType := .kString
  scalar := .string
  list := .strings
  getScalar | .string v => some v | _ => none
  getList | .strings v => some v | _ => none

/-- `FieldTypeFor`. -/
def fieldTypeFor (T : Type) [FieldTypeTraits T] : FieldType := FieldTypeTraits.kType T

/-- `FieldAccessor<T>`; its members are public, so a caller may hold any values. -/
structure FieldAccessor (T : Type) [FieldTypeTraits T] where
  schemaVersion : UInt64 := 0
  layoutFingerprint : UInt64 := 0
  fieldId : FieldId := 0
  isList : Bool := false
  physicalType : FieldType := fieldTypeFor T
  nullable : Bool := true
  hasDefault : Bool := false
  encoding : FieldEncoding := .kFixed
  offset : ℕ := 0
  presenceBitIndex : ℕ := 0

section Accessors

variable (T : Type) [FieldTypeTraits T]

/-- What `MakeFieldAccessor` and `MakeListFieldAccessor` share. -/
def accessorFor (layout : CompiledRowLayout) (fieldId : FieldId) (isList : Bool)
    (wrongShape wrongType : String) : StatusOr (FieldAccessor T) :=
  match layout.findField fieldId with
  | none => .error (.notFound "field is not active in layout")
  | some field => do
    failIf (field.isList != isList) (.invalidArgument wrongShape)
    failIf (field.type != fieldTypeFor T) (.invalidArgument wrongType)
    return {
      schemaVersion := layout.schemaVersion
      layoutFingerprint := layout.layoutFingerprint
      fieldId := field.fieldId
      isList
      physicalType := field.type
      nullable := field.nullable
      hasDefault := field.hasDefault
      encoding := field.encoding
      offset := field.slotOffset
      presenceBitIndex := field.presenceBitIndex }

def makeFieldAccessor (layout : CompiledRowLayout) (fieldId : FieldId) :
    StatusOr (FieldAccessor T) :=
  accessorFor T layout fieldId false "field is a list, not a scalar"
    "field scalar type does not match accessor"

def makeListFieldAccessor (layout : CompiledRowLayout) (fieldId : FieldId) :
    StatusOr (FieldAccessor T) :=
  accessorFor T layout fieldId true "field is a scalar, not a list"
    "field list element type does not match accessor"

end Accessors

variable {T : Type} [FieldTypeTraits T]

def FieldAccessor.metadata (accessor : FieldAccessor T) : AccessorMetadata where
  schemaVersion := accessor.schemaVersion
  layoutFingerprint := accessor.layoutFingerprint
  fieldId := accessor.fieldId
  isList := accessor.isList
  physicalType := accessor.physicalType
  encoding := accessor.encoding
  offset := accessor.offset
  presenceBitIndex := accessor.presenceBitIndex

namespace Row

/-- `ThrowStatus`; an exception is the text that it carries. -/
def throwStatus {α : Type} (status : Status) : Except String α :=
  .error (if status.message.isEmpty then "row access failed" else status.message)

/-- What `Get` and `GetList` make of a decoded value. -/
def typedAnswer {V W : Type} (getIf : FieldValue → Option V) (unexpected : String) (present : V → W)
    (absent : W) (value : StatusOr FieldValue) : Except String W :=
  match value with
  | .error status => if status.code = .kNotFound then .ok absent else throwStatus status
  | .ok value =>
    match getIf value with
    | none => .error unexpected
    | some typed => .ok (present typed)

def scalarAnswer (T : Type) [FieldTypeTraits T] : StatusOr FieldValue → Except String (Option T) :=
  typedAnswer FieldTypeTraits.getScalar "row decoder returned an unexpected scalar type" some none

def listAnswer (T : Type) [FieldTypeTraits T] : StatusOr FieldValue → Except String (List T) :=
  typedAnswer FieldTypeTraits.getList "row decoder returned an unexpected list type" id []

/-- `Get` of a field id. -/
def get (T : Type) [FieldTypeTraits T] (row : Row) (fieldId : FieldId) : Except String (Option T) :=
  scalarAnswer T (row.readScalarValue fieldId (fieldTypeFor T) none)

/-- `Get` of an accessor. -/
def getBy (row : Row) (accessor : FieldAccessor T) : Except String (Option T) :=
  scalarAnswer T
    (row.readScalarValue accessor.fieldId (fieldTypeFor T) (some accessor.metadata))

/-- `GetList` of a field id. -/
def getList (T : Type) [FieldTypeTraits T] (row : Row) (fieldId : FieldId) :
    Except String (List T) :=
  listAnswer T (row.readListValue fieldId (fieldTypeFor T) none)

/-- `GetList` of an accessor. -/
def getListBy (row : Row) (accessor : FieldAccessor T) : Except String (List T) :=
  listAnswer T (row.readListValue accessor.fieldId (fieldTypeFor T) (some accessor.metadata))

end Row

section Decoders

variable {field : FieldLayout} {row : EncodedRow} {value : FieldValue}

theorem absentValue_eq_ok {missing noDefault : String} {default : StatusOr FieldValue}
    (h : absentValue field missing noDefault default = .ok value) : default = .ok value := by
  rw [absentValue] at h
  split_ifs at h with hdefault hnullable
  exact h

theorem scalarType_of_default (h : defaultScalarValue field = .ok value) :
    value.scalarType = some field.type := by
  have hdefault := absentValue_eq_ok h
  cases htype : field.type <;> cases hvalue : field.defaultValue <;> rw [htype,hvalue] at hdefault <;>
    cases hdefault <;> rfl

theorem listType_of_default (h : defaultListValue field = .ok value) :
    value.listType = some field.type := by
  have hdefault := absentValue_eq_ok h
  cases htype : field.type <;> cases hvalue : field.defaultValue <;> rw [htype,hvalue] at hdefault <;>
    cases hdefault <;> rfl

theorem scalarType_of_string {encoding : FieldEncoding} {ref : ValueRef16}
    (h : readStringRef encoding ref row = .ok value) : value.scalarType = some .kString := by
  rw [readStringRef] at h
  split_ifs at h
  · obtain ⟨_,-,hvalue⟩ := bind_eq_ok.mp h
    cases hvalue
    rfl
  · obtain ⟨_,-,hvalue⟩ := bind_eq_ok.mp h
    cases hvalue
    rfl

theorem scalarType_of_read (h : readScalarField field row = .ok value) :
    value.scalarType = some field.type := by
  rw [readScalarField] at h
  split_ifs at h with hstring
  · obtain ⟨ref,-,href⟩ := bind_eq_ok.mp h
    rw [scalarType_of_string href,hstring]
  · obtain ⟨_,-,hread⟩ := bind_eq_ok.mp h
    split at hread <;> first | cases hread | skip
    all_goals
      obtain ⟨typed,-,rfl⟩ := map_eq_ok.mp hread
      simp only [*,FieldDefaultValue.scalarType]

theorem listType_of_scalars {type : FieldType} {bytes : Bytes} {elementCount : UInt32}
    (h : decodeScalarListByType type bytes elementCount = .ok value) :
    value.listType = some type := by
  cases type with
  | kString => cases h
  | unnamed raw hraw => cases h
  | _ =>
    obtain ⟨typed,-,rfl⟩ := map_eq_ok.mp h
    rfl

theorem listType_of_ref {type : FieldType} {encoding : FieldEncoding} {ref : ValueRef16}
    (h : readListRef type encoding ref row = .ok value) : value.listType = some type := by
  by_cases hstring : type = .kString
  · subst hstring
    simp only [readListRef,if_true] at h
    split_ifs at h
    · obtain ⟨_,-,hread⟩ := bind_eq_ok.mp h
      obtain ⟨typed,-,rfl⟩ := map_eq_ok.mp hread
      rfl
    · simp only [bind_eq_ok,failIf_eq_ok,exists_const,pure_eq_ok,Except.ok.injEq] at h
      obtain ⟨-,-,rfl⟩ := h
      rfl
    · simp only [bind_eq_ok,failIf_eq_ok,exists_const] at h
      obtain ⟨-,-,-,-,hread⟩ := h
      obtain ⟨typed,-,rfl⟩ := map_eq_ok.mp hread
      rfl
  · simp only [readListRef,if_neg hstring] at h
    split_ifs at h
    · obtain ⟨_,-,hread⟩ := bind_eq_ok.mp h
      exact listType_of_scalars hread
    · obtain ⟨_,-,hread⟩ := bind_eq_ok.mp h
      exact listType_of_scalars hread
    · obtain ⟨_,hfail,-⟩ := bind_eq_ok.mp h
      rw [failIf_eq_ok,bne_eq_false_iff_eq] at hfail
      exact absurd hfail hstring

end Decoders

theorem failedPrecondition_code (message : String) :
    (Status.failedPrecondition message).code ≠ .kNotFound := nofun

theorem invalidArgument_code (message : String) :
    (Status.invalidArgument message).code ≠ .kNotFound := nofun

/-- No error of the computation is `kNotFound`. -/
def NeverMissing {α : Type} (x : StatusOr α) : Prop :=
  ∀ status, x = .error status → status.code ≠ .kNotFound

namespace NeverMissing

variable {α β : Type} {x : StatusOr α}

theorem ok (a : α) : NeverMissing (.ok a) := fun _ h => nomatch h

theorem invalidArgument (message : String) :
    NeverMissing (.error (.invalidArgument message) : StatusOr α) := by
  rintro status ⟨⟩
  exact invalidArgument_code message

theorem bind {f : α → StatusOr β} (hx : NeverMissing x) (hf : ∀ a, NeverMissing (f a)) :
    NeverMissing (x >>= f) := by
  intro status h
  cases x with
  | error other =>
    cases h
    exact hx status rfl
  | ok a => exact hf a status h

theorem map {f : α → β} (hx : NeverMissing x) : NeverMissing (x.map f) := by
  intro status h
  cases x with
  | error other =>
    cases h
    exact hx status rfl
  | ok a => cases h

theorem failIf (bad : Bool) (message : String) :
    NeverMissing (KvIndex.failIf bad (.invalidArgument message)) := by
  cases bad with
  | true => exact invalidArgument message
  | false => exact ok ()

theorem mapM {f : α → StatusOr β} (hf : ∀ a, NeverMissing (f a)) (as : List α) :
    NeverMissing (as.mapM f) := by
  induction as with
  | nil => exact ok []
  | cons a as ih =>
    rw [List.mapM_cons]
    exact (hf a).bind fun b => ih.bind fun bs => ok _

theorem ite {p : Prop} [Decidable p] {y : StatusOr α} (hx : NeverMissing x) (hy : NeverMissing y) :
    NeverMissing (if p then x else y) := by
  split_ifs
  · exact hx
  · exact hy

theorem readLittleEndian (T : Type) [LittleEndianInteger T] (bytes : Bytes) (offset : ℕ) :
    NeverMissing (Base.readLittleEndian T bytes offset) :=
  (failIf _ _).bind fun _ => ok _

theorem decodeValueRef16 (bytes : Bytes) (offset : ℕ) :
    NeverMissing (Base.decodeValueRef16 bytes offset) :=
  (failIf _ _).bind fun _ => (readLittleEndian UInt64 _ _).bind fun _ =>
    (readLittleEndian UInt32 _ _).bind fun _ => (readLittleEndian UInt32 _ _).bind fun _ => ok _

theorem readRef (field : FieldLayout) (row : EncodedRow) : NeverMissing (Model.readRef field row) :=
  (failIf _ _).bind fun _ => decodeValueRef16 _ _

theorem validateRefBounds (ref : ValueRef16) (payloadSize : ℕ) :
    NeverMissing (Model.validateRefBounds ref payloadSize) :=
  (failIf _ _).bind fun _ => failIf _ _

theorem readBoolAt (message : String) (bytes : Bytes) (offset : ℕ) :
    NeverMissing (Model.readBoolAt message bytes offset) :=
  (readLittleEndian UInt8 _ _).bind fun _ => (failIf _ _).bind fun _ => ok _

theorem decodeScalarListByType (type : FieldType) (bytes : Bytes) (elementCount : UInt32) :
    NeverMissing (Model.decodeScalarListByType type bytes elementCount) := by
  have hlist {T : Type} (width : ℕ) (element : Bytes → ℕ → StatusOr T)
      (h : ∀ bytes offset, NeverMissing (element bytes offset)) :
      NeverMissing (decodeScalarListBytes width element bytes elementCount) :=
    (failIf _ _).bind fun _ => mapM (fun _ => h _ _) _
  cases type with
  | kInt8 => exact (hlist _ _ (readLittleEndian Int8)).map
  | kInt32 => exact (hlist _ _ (readLittleEndian Int32)).map
  | kInt64 => exact (hlist _ _ (readLittleEndian Int64)).map
  | kUInt64 => exact (hlist _ _ (readLittleEndian UInt64)).map
  | kBool => exact (hlist _ _ (readBoolAt _)).map
  | kString => exact invalidArgument _
  | unnamed raw h => exact invalidArgument _

theorem readScalarField (field : FieldLayout) (row : EncodedRow) :
    NeverMissing (Model.readScalarField field row) := by
  refine ite ((readRef _ _).bind fun ref => ?_) ((failIf _ _).bind fun _ => ?_)
  · exact ite ((validateRefBounds _ _).bind fun _ => ok _)
      (ite ((failIf _ _).bind fun _ => ok _) (invalidArgument _))
  · cases field.type with
    | kInt8 => exact (readLittleEndian Int8 _ _).map
    | kInt32 => exact (readLittleEndian Int32 _ _).map
    | kInt64 => exact (readLittleEndian Int64 _ _).map
    | kUInt64 => exact (readLittleEndian UInt64 _ _).map
    | kBool => exact (readBoolAt _ _ _).map
    | kString => exact invalidArgument _
    | unnamed raw h => exact invalidArgument _

theorem readListField (field : FieldLayout) (row : EncodedRow) :
    NeverMissing (Model.readListField field row) := by
  have hstring (offset : ℕ) : NeverMissing (readArenaString row.arena offset) :=
    (decodeValueRef16 _ _).bind fun _ => (validateRefBounds _ _).bind fun _ => ok _
  have helement (offset : ℕ) : NeverMissing (readDictionaryElement row offset) :=
    (readLittleEndian UInt32 _ _).bind fun _ => (failIf _ _).bind fun _ => ok _
  refine (readRef _ _).bind fun ref => ite ?_ (ite ?_ (ite ?_ (invalidArgument _)))
  · refine (validateRefBounds _ _).bind fun _ => ite ?_ (decodeScalarListByType _ _ _)
    exact NeverMissing.map ((failIf _ _).bind fun _ => (validateRefBounds _ _).bind fun _ =>
      mapM hstring _)
  · exact ite ((failIf _ _).bind fun _ => (failIf _ _).bind fun _ => ok _)
      ((failIf _ _).bind fun _ => decodeScalarListByType _ _ _)
  · exact (failIf _ _).bind fun _ => (validateRefBounds _ _).bind fun _ =>
      (failIf _ _).bind fun _ => (mapM helement _).map

end NeverMissing

/-- Nothing is stored for the field and no default stands in: the id is not active in the layout of
the row, or the field is absent and has no default. -/
def Row.Missing (row : Row) (fieldId : FieldId) (type : FieldType) (isList : Bool) : Prop :=
  row.layout.findField fieldId = none ∨
    ∃ field, row.layout.findField fieldId = some field ∧ field.isList = isList ∧ field.type = type ∧
      fieldPresent field row.encoded = false ∧ field.hasDefault = false

section Missing

variable {row : Row} {fieldId : FieldId} {type : FieldType} {isList : Bool}

/-- The computation ends with `kNotFound`. -/
def EndsMissing {α : Type} (x : StatusOr α) : Prop :=
  ∃ status, x = .error status ∧ status.code = .kNotFound

theorem NeverMissing.not_ends {α : Type} {x : StatusOr α} (h : NeverMissing x) : ¬EndsMissing x := by
  rintro ⟨status,herror,hcode⟩
  exact h status herror hcode

theorem absentValue_missing {field : FieldLayout} {missing noDefault : String}
    {default : StatusOr FieldValue} (h : NeverMissing default) :
    EndsMissing (absentValue field missing noDefault default) ↔
      field.hasDefault = false ∧ field.nullable = true := by
  rw [absentValue]
  split_ifs with hdefault hnullable
  · simp only [hdefault,Bool.true_eq_false,false_and,iff_false]
    exact h.not_ends
  · simp only [hnullable,and_true,Bool.eq_false_iff.mpr hdefault,iff_true]
    exact ⟨_,rfl,rfl⟩
  · refine ⟨?_,fun h => absurd h.2 hnullable⟩
    rintro ⟨status,⟨⟩,hcode⟩
    cases hcode

theorem defaultScalarValue_missing (field : FieldLayout) :
    EndsMissing (defaultScalarValue field) ↔ field.hasDefault = false ∧ field.nullable = true := by
  refine absentValue_missing ?_
  intro status h
  cases htype : field.type <;> cases hvalue : field.defaultValue <;> rw [htype,hvalue] at h <;>
    cases h <;> exact nofun

theorem defaultListValue_missing (field : FieldLayout) :
    EndsMissing (defaultListValue field) ↔ field.hasDefault = false ∧ field.nullable = true := by
  refine absentValue_missing ?_
  intro status h
  cases htype : field.type <;> cases hvalue : field.defaultValue <;> rw [htype,hvalue] at h <;>
    cases h <;> exact nofun

def checkShape (type : FieldType) (isList : Bool) (field : FieldLayout) : StatusOr FieldLayout :=
  if field.isList = isList then
    if field.type = type then .ok field
    else .error (.invalidArgument "field physical type does not match read")
  else .error (.invalidArgument "field scalar/list shape does not match read")

theorem resolveField_none {layout : CompiledRowLayout} {encoded : EncodedRow}
    (hrow : Matches layout encoded) (fieldId : FieldId) (type : FieldType) (isList : Bool) :
    resolveField layout encoded fieldId type isList none =
      match layout.findField fieldId with
      | none => .error (.notFound "field is not active in row layout")
      | some field => checkShape type isList field := by
  rw [resolveField,hrow.1,hrow.2]
  simp only [bne_self_eq_false,Bool.or_self,foreignAccessor,failIf_false,ok_bind,Option.isSome_none,
    validateAccessor]
  cases layout.findField fieldId with
  | none => rfl
  | some field =>
    simp only [checkShape]
    by_cases hlist : field.isList = isList
    · by_cases htype : field.type = type
      · simp only [hlist,htype,bne_self_eq_false,failIf_false,ok_bind,if_true]
        rfl
      · simp only [hlist,htype,bne_self_eq_false,failIf_false,ok_bind,if_true,if_false]
        rw [bne_iff_ne.mpr htype]
        rfl
    · rw [if_neg hlist,bne_iff_ne.mpr hlist]
      rfl

/-- A missing field is one that is not active or absent without a default: `MaterializeRow` has seen
to it that no required field is absent. -/
theorem read_missing {layout : CompiledRowLayout} {encoded : EncodedRow}
    (h : materializeRow layout encoded = .ok row) {present absent : FieldLayout → StatusOr FieldValue}
    (hpresent : ∀ field, NeverMissing (present field))
    (habsent : ∀ field, EndsMissing (absent field) ↔
      field.hasDefault = false ∧ field.nullable = true) :
    EndsMissing (resolveField row.layout row.encoded fieldId type isList none >>= fun field =>
        if fieldPresent field row.encoded then present field else absent field) ↔
      row.Missing fieldId type isList := by
  obtain ⟨hrow,-,hrequired⟩ := materializeRow_checks h
  obtain rfl := materializeRow_eq_ok h
  rw [resolveField_none hrow,Row.Missing]
  cases hfound : layout.findField fieldId with
  | none => exact ⟨fun _ => Or.inl rfl,fun _ => ⟨_,rfl,rfl⟩⟩
  | some field =>
    have hmem : field ∈ layout.fields := List.mem_of_find?_eq_some hfound
    simp only [Option.some.injEq,reduceCtorEq,false_or,exists_eq_left',checkShape]
    split_ifs with hlist htype
    · rw [ok_bind]
      by_cases hset : fieldPresent field encoded = true
      · rw [if_pos hset]
        refine ⟨fun hends => absurd hends (hpresent field).not_ends,fun hmissing => ?_⟩
        rw [hset] at hmissing
        exact absurd hmissing.2.2.1 Bool.true_eq_false_eq_False
      · rw [Bool.not_eq_true] at hset
        rw [hset,if_neg Bool.false_ne_true]
        refine (habsent field).trans ⟨fun hends => ⟨hlist,htype,rfl,hends.1⟩,fun hmissing => ?_⟩
        refine ⟨hmissing.2.2.2,(hrequired field hmem hset).resolve_right ?_⟩
        rw [hmissing.2.2.2]
        exact Bool.false_ne_true
    · exact ⟨fun hends => absurd hends (NeverMissing.invalidArgument _).not_ends,
        fun hmissing => absurd hmissing.2.1 htype⟩
    · exact ⟨fun hends => absurd hends (NeverMissing.invalidArgument _).not_ends,
        fun hmissing => absurd hmissing.1 hlist⟩

theorem readScalarValue_missing {layout : CompiledRowLayout} {encoded : EncodedRow}
    (h : materializeRow layout encoded = .ok row) :
    EndsMissing (row.readScalarValue fieldId type none) ↔ row.Missing fieldId type false :=
  read_missing h (fun field => NeverMissing.readScalarField field _) defaultScalarValue_missing

theorem readListValue_missing {layout : CompiledRowLayout} {encoded : EncodedRow}
    (h : materializeRow layout encoded = .ok row) :
    EndsMissing (row.readListValue fieldId type none) ↔ row.Missing fieldId type true :=
  read_missing h (fun field => NeverMissing.readListField field _) defaultListValue_missing

theorem readScalarValue_typed {accessor : Option AccessorMetadata} {value : FieldValue}
    (h : row.readScalarValue fieldId type accessor = .ok value) : value.scalarType = some type := by
  obtain ⟨field,hresolve,hread⟩ := bind_eq_ok.mp h
  obtain ⟨-,-,-,-,rfl,-⟩ := resolveField_eq_ok.mp hresolve
  split_ifs at hread
  · exact scalarType_of_read hread
  · exact scalarType_of_default hread

theorem readListValue_typed {accessor : Option AccessorMetadata} {value : FieldValue}
    (h : row.readListValue fieldId type accessor = .ok value) : value.listType = some type := by
  obtain ⟨field,hresolve,hread⟩ := bind_eq_ok.mp h
  obtain ⟨-,-,-,-,rfl,-⟩ := resolveField_eq_ok.mp hresolve
  split_ifs at hread
  · obtain ⟨ref,-,href⟩ := bind_eq_ok.mp hread
    exact listType_of_ref href
  · exact listType_of_default hread

end Missing

/-- What is answered without a throw: a decoded value, or what stands for a missing one. -/
theorem Row.typedAnswer_eq_ok {V W : Type} {getIf : FieldValue → Option V} {unexpected : String}
    {present : V → W} {absent answer : W} {inject : V → FieldValue} {value : StatusOr FieldValue}
    (hget : ∀ typed, getIf (inject typed) = some typed)
    (htyped : ∀ decoded, value = .ok decoded → ∃ typed, decoded = inject typed) :
    typedAnswer getIf unexpected present absent value = .ok answer ↔
      EndsMissing value ∧ answer = absent ∨
        ∃ typed, value = .ok (inject typed) ∧ answer = present typed := by
  cases value with
  | error status =>
    rw [typedAnswer]
    split_ifs with hcode
    · constructor
      · rintro ⟨⟩
        exact Or.inl ⟨⟨status,rfl,hcode⟩,rfl⟩
      · rintro (⟨-,rfl⟩ | ⟨typed,⟨⟩,-⟩)
        rfl
    · constructor
      · rintro ⟨⟩
      · rintro (⟨⟨other,⟨⟩,hother⟩,-⟩ | ⟨typed,⟨⟩,-⟩)
        exact absurd hother hcode
  | ok decoded =>
    obtain ⟨typed,rfl⟩ := htyped decoded rfl
    simp only [typedAnswer,hget]
    constructor
    · rintro ⟨⟩
      exact Or.inr ⟨typed,rfl,rfl⟩
    · rintro (⟨⟨other,⟨⟩,-⟩,-⟩ | ⟨other,hother,rfl⟩)
      have hsame := congrArg getIf (Except.ok.inj hother)
      rw [hget,hget,Option.some.injEq] at hsame
      rw [hsame]

/-- The accessor is one that the layout hands out for its field, but for the members that no read
looks at. -/
def FieldAccessor.HandedBy (accessor : FieldAccessor T) (layout : CompiledRowLayout) (isList : Bool) :
    Prop :=
  ∃ made : FieldAccessor T,
    (if isList then makeListFieldAccessor T layout accessor.fieldId
      else makeFieldAccessor T layout accessor.fieldId) = .ok made ∧
    accessor.metadata = made.metadata

/-- The texts that a read throws for an accessor that is not. -/
def accessorRefusals : List String :=
  ["field accessor does not match this row layout","field scalar/list shape does not match read",
    "field physical type does not match read"]

section Accessors

variable {layout : CompiledRowLayout} {encoded : EncodedRow} {accessor : FieldAccessor T}
  {isList : Bool}

def handedMetadata (layout : CompiledRowLayout) (field : FieldLayout) : AccessorMetadata where
  schemaVersion := layout.schemaVersion
  layoutFingerprint := layout.layoutFingerprint
  fieldId := field.fieldId
  isList := field.isList
  physicalType := field.type
  encoding := field.encoding
  offset := field.slotOffset
  presenceBitIndex := field.presenceBitIndex

theorem exists_accessorFor {metadata : AccessorMetadata} {fieldId : FieldId}
    {wrongShape wrongType : String} :
    (∃ made, accessorFor T layout fieldId isList wrongShape wrongType = .ok made ∧
        metadata = made.metadata) ↔
      ∃ field, layout.findField fieldId = some field ∧ field.isList = isList ∧
        field.type = fieldTypeFor T ∧ metadata = handedMetadata layout field := by
  rw [accessorFor]
  cases layout.findField fieldId with
  | none => simp
  | some field =>
    simp only [bind_eq_ok,failIf_eq_ok,exists_const,bne_eq_false_iff_eq,pure_eq_ok,Except.ok.injEq,
      Option.some.injEq,exists_eq_left']
    constructor
    · rintro ⟨made,⟨rfl,htype,rfl⟩,rfl⟩
      exact ⟨rfl,htype,rfl⟩
    · rintro ⟨rfl,htype,rfl⟩
      exact ⟨_,⟨rfl,htype,rfl⟩,rfl⟩

theorem handedBy_iff : accessor.HandedBy layout isList ↔
    ∃ field, layout.findField accessor.fieldId = some field ∧ field.isList = isList ∧
      field.type = fieldTypeFor T ∧ accessor.metadata = handedMetadata layout field := by
  cases isList with
  | true => exact exists_accessorFor
  | false => exact exists_accessorFor

/-- All the members are compared, the version and the fingerprint with the row and the layout. -/
theorem validateAccessor_eq_ok (hrow : Matches layout encoded) {metadata : AccessorMetadata}
    {field : FieldLayout} :
    validateAccessor (some metadata) field encoded layout field.type field.isList = .ok () ↔
      metadata = handedMetadata layout field := by
  obtain ⟨schemaVersion,layoutFingerprint,fieldId,list,physicalType,encoding,offset,bit⟩ := metadata
  simp only [validateAccessor,hrow.1,hrow.2,failIf_eq_ok,Bool.or_eq_false_iff,bne_eq_false_iff_eq,
    handedMetadata,AccessorMetadata.mk.injEq]
  tauto

theorem not_foreign (hrow : Matches layout encoded) (field : FieldLayout) :
    foreignAccessor (some (handedMetadata layout field)) encoded layout = false := by
  simp only [foreignAccessor,handedMetadata,hrow.1,hrow.2,bne_self_eq_false,Bool.or_self]

theorem resolveField_handed (hrow : Matches layout encoded) (h : accessor.HandedBy layout isList) :
    resolveField layout encoded accessor.fieldId (fieldTypeFor T) isList (some accessor.metadata) =
      resolveField layout encoded accessor.fieldId (fieldTypeFor T) isList none := by
  obtain ⟨field,hfound,rfl,htype,hmetadata⟩ := handedBy_iff.mp h
  have hchecked := (validateAccessor_eq_ok hrow).mpr hmetadata
  rw [← htype]
  have haccessor := resolveField_eq_ok.mpr ⟨hrow,by rw [hmetadata,not_foreign hrow],hfound,rfl,rfl,
    hchecked⟩
  have hid : resolveField layout encoded accessor.fieldId field.type field.isList none = .ok field :=
    resolveField_eq_ok.mpr ⟨hrow,rfl,hfound,rfl,rfl,rfl⟩
  rw [haccessor,hid]

theorem resolveField_refused (hrow : Matches layout encoded) (h : ¬accessor.HandedBy layout isList) :
    ∃ status : Status, status.message ∈ accessorRefusals ∧ status.code ≠ .kNotFound ∧
      resolveField layout encoded accessor.fieldId (fieldTypeFor T) isList (some accessor.metadata) =
        .error status := by
  simp only [resolveField,hrow.1,hrow.2,bne_self_eq_false,Bool.or_self,failIf_false,ok_bind]
  cases hforeign : foreignAccessor (some accessor.metadata) encoded layout with
  | true => exact ⟨_,List.mem_cons_self,failedPrecondition_code _,rfl⟩
  | false =>
    rw [failIf_false,ok_bind]
    cases hfound : layout.findField accessor.fieldId with
    | none => exact ⟨_,List.mem_cons_self,failedPrecondition_code _,rfl⟩
    | some field =>
      by_cases hlist : field.isList = isList
      · by_cases htype : field.type = fieldTypeFor T
        · rw [← hlist,← htype]
          cases hchecked : validateAccessor (some accessor.metadata) field encoded layout field.type
              field.isList with
          | ok _ =>
            have hmetadata := (validateAccessor_eq_ok hrow).mp hchecked
            exact absurd (handedBy_iff.mpr ⟨field,hfound,hlist,htype,hmetadata⟩) h
          | error status =>
            have hstatus :
                status = .failedPrecondition "field accessor does not match this row layout" := by
              rw [validateAccessor,failIf] at hchecked
              split_ifs at hchecked
              exact (Except.error.inj hchecked).symm
            subst hstatus
            refine ⟨_,List.mem_cons_self,failedPrecondition_code _,?_⟩
            simp only [bne_self_eq_false,failIf_false,ok_bind,hchecked]
            rfl
        · refine ⟨.invalidArgument "field physical type does not match read",?_,
            invalidArgument_code _,?_⟩
          · exact List.mem_cons_of_mem _ (List.mem_cons_of_mem _ List.mem_cons_self)
          · simp only [hlist,bne_self_eq_false,failIf_false,ok_bind,bne_iff_ne.mpr htype]
            rfl
      · refine ⟨.invalidArgument "field scalar/list shape does not match read",?_,
          invalidArgument_code _,?_⟩
        · exact List.mem_cons_of_mem _ List.mem_cons_self
        · simp only [bne_iff_ne.mpr hlist]
          rfl

end Accessors

/-- A read by an accessor agrees with the read by its field id if the accessor is one that the
layout hands out, and throws if it is not. -/
def ReadsAgree {W : Type} (handed : Prop) (byAccessor byId : Except String W) : Prop :=
  (handed → byAccessor = byId) ∧
    (¬handed → ∃ message ∈ accessorRefusals, byAccessor = .error message)

section TypedReads

variable {layout : CompiledRowLayout} {encoded : EncodedRow} {row : Row}

theorem typedAnswer_refused {V W : Type} {getIf : FieldValue → Option V} {unexpected : String}
    {present : V → W} {absent : W} {status : Status} (hmessage : status.message ∈ accessorRefusals)
    (hcode : status.code ≠ .kNotFound) :
    ∃ message ∈ accessorRefusals,
      Row.typedAnswer getIf unexpected present absent (.error status) = .error message := by
  refine ⟨status.message,hmessage,?_⟩
  have hnonempty : status.message.isEmpty = false := by
    simp only [accessorRefusals,List.mem_cons,List.not_mem_nil,or_false] at hmessage
    rcases hmessage with h | h | h <;> rw [h] <;> decide
  rw [Row.typedAnswer,if_neg hcode,Row.throwStatus,hnonempty,if_neg Bool.false_ne_true]

theorem get_agrees (hrow : Matches row.layout row.encoded) (accessor : FieldAccessor T) :
    ReadsAgree (accessor.HandedBy row.layout false) (row.getBy accessor)
      (row.get T accessor.fieldId) := by
  refine ⟨fun hhanded => ?_,fun hforeign => ?_⟩
  · rw [Row.getBy,Row.readScalarValue,resolveField_handed hrow hhanded]
    rfl
  · obtain ⟨status,hmessage,hcode,hresolve⟩ := resolveField_refused hrow hforeign
    rw [Row.getBy,Row.readScalarValue,hresolve]
    exact typedAnswer_refused hmessage hcode

theorem getList_agrees (hrow : Matches row.layout row.encoded) (accessor : FieldAccessor T) :
    ReadsAgree (accessor.HandedBy row.layout true) (row.getListBy accessor)
      (row.getList T accessor.fieldId) := by
  refine ⟨fun hhanded => ?_,fun hforeign => ?_⟩
  · rw [Row.getListBy,Row.readListValue,resolveField_handed hrow hhanded]
    rfl
  · obtain ⟨status,hmessage,hcode,hresolve⟩ := resolveField_refused hrow hforeign
    rw [Row.getListBy,Row.readListValue,hresolve]
    exact typedAnswer_refused hmessage hcode

/-- The typed reads of a materialised row, whatever its bytes hold. What `Get` and `GetList` answer is
the value that the decoder found, which always has the type of the read, or what stands for a
missing field, and no field is missing but one that is not active or absent without a default. A
read by an accessor, wherever it comes from, is the read by its field id or throws. -/
theorem typed_reads (T : Type) [FieldTypeTraits T] (h : materializeRow layout encoded = .ok row) :
    (∀ fieldId answer, row.get T fieldId = .ok answer ↔
      row.Missing fieldId (fieldTypeFor T) false ∧ answer = none ∨
        ∃ typed, row.readScalarValue fieldId (fieldTypeFor T) none =
          .ok (FieldTypeTraits.scalar typed) ∧ answer = some typed) ∧
    (∀ fieldId answer, row.getList T fieldId = .ok answer ↔
      row.Missing fieldId (fieldTypeFor T) true ∧ answer = [] ∨
        ∃ typed, row.readListValue fieldId (fieldTypeFor T) none =
          .ok (FieldTypeTraits.list typed) ∧ answer = typed) ∧
    ∀ accessor : FieldAccessor T,
      ReadsAgree (accessor.HandedBy layout false) (row.getBy accessor)
        (row.get T accessor.fieldId) ∧
      ReadsAgree (accessor.HandedBy layout true) (row.getListBy accessor)
        (row.getList T accessor.fieldId) := by
  refine ⟨fun fieldId answer => ?_,fun fieldId answer => ?_,fun accessor => ?_⟩
  · rw [← readScalarValue_missing h]
    exact Row.typedAnswer_eq_ok FieldTypeTraits.getScalar_scalar fun decoded hread =>
      FieldTypeTraits.exists_scalar decoded (readScalarValue_typed hread)
  · rw [← readListValue_missing h]
    exact Row.typedAnswer_eq_ok FieldTypeTraits.getList_list fun decoded hread =>
      FieldTypeTraits.exists_list decoded (readListValue_typed hread)
  · have hrow := (materializeRow_checks h).1
    obtain rfl := materializeRow_eq_ok h
    exact ⟨@get_agrees T _ ⟨layout,encoded⟩ hrow accessor,
      @getList_agrees T _ ⟨layout,encoded⟩ hrow accessor⟩

end TypedReads

def scoreLayout (version : UInt64) : CompiledRowLayout :=
  CompiledRowLayout.compile { version,activeFields := [{ fieldId := 1,name := [115],type := .kInt32 }] }

def scoreRow : EncodedRow :=
  { createEncodedRow (scoreLayout 2) with rowSlot := [1,0,0,0,0,0,0,0,77,0,0,0,0,0,0,0] }

def staleAccessor : FieldAccessor Int32 where
  schemaVersion := 1
  layoutFingerprint := (scoreLayout 1).layoutFingerprint
  fieldId := 1
  offset := 8

theorem typed_reads_sample :
    (Row.mk (scoreLayout 2) scoreRow).get Int32 1 = .ok (some 77) ∧
      ∃ message ∈ accessorRefusals,
        (Row.mk (scoreLayout 2) scoreRow).getBy staleAccessor = .error message := by
  have hrow : materializeRow (scoreLayout 2) scoreRow = .ok ⟨scoreLayout 2,scoreRow⟩ := by
    decide +kernel
  have hread : (Row.mk (scoreLayout 2) scoreRow).readScalarValue 1 .kInt32 none = .ok (.int32 77) := by
    decide +kernel
  obtain ⟨hget,-,hagrees⟩ := typed_reads Int32 hrow
  refine ⟨(hget 1 (some 77)).mpr (Or.inr ⟨77,hread,rfl⟩),(hagrees staleAccessor).1.2 ?_⟩
  intro hhanded
  obtain ⟨field,-,-,-,hmetadata⟩ := handedBy_iff.mp hhanded
  have hversion : (1 : UInt64) = 2 := congrArg AccessorMetadata.schemaVersion hmetadata
  exact absurd hversion (by decide)

end KvIndex
