import KvIndex.LayoutHistory
import KvIndex.PrefixCode

/-! The bytes under a layout fingerprint. No separator stands between the words that
`BuildFingerprint` hashes, and yet they spell one layout only: two compiled layouts share a
fingerprint where FNV-1a collides, and nowhere else. -/
namespace KvIndex

open Base Schema

/-- A size that a `std::size_t` holds. -/
def SizeFits (size : ℕ) : Prop := size ≤ uint64Max

instance (size : ℕ) : Decidable (SizeFits size) := inferInstanceAs (Decidable (size ≤ uint64Max))

def FieldDefaultValue.index : FieldDefaultValue → ℕ
  | .monostate => 0
  | .int8 _ => 1 | .int32 _ => 2 | .int64 _ => 3 | .uint64 _ => 4
  | .bool _ => 5 | .string _ => 6
  | .int8s _ => 7 | .int32s _ => 8 | .int64s _ => 9
  | .uint64s _ => 10 | .bools _ => 11 | .strings _ => 12

/-- The strings and vectors of a default value have sizes. -/
def FieldDefaultValue.Fits : FieldDefaultValue → Prop
  | .string v => SizeFits v.length
  | .int8s v => SizeFits v.length
  | .int32s v => SizeFits v.length
  | .int64s v => SizeFits v.length
  | .uint64s v => SizeFits v.length
  | .bools v => SizeFits v.length
  | .strings v => SizeFits v.length ∧ ∀ s ∈ v, SizeFits s.length
  | _ => True

instance (v : FieldDefaultValue) : Decidable v.Fits := by
  cases v <;> unfold FieldDefaultValue.Fits <;> infer_instance

/-- The name and the default value of a field have sizes. -/
structure FieldLayout.Fits (field : FieldLayout) : Prop where
  name : SizeFits field.name.length
  defaultValue : field.defaultValue.Fits

instance (field : FieldLayout) : Decidable field.Fits :=
  decidable_of_iff (SizeFits field.name.length ∧ field.defaultValue.Fits)
    ⟨fun h => ⟨h.1,h.2⟩,fun h => ⟨h.name,h.defaultValue⟩⟩

/-- The members of the field that are sizes themselves. -/
structure FieldLayout.Placed (field : FieldLayout) : Prop where
  presenceBitIndex : SizeFits field.presenceBitIndex
  slotOffset : SizeFits field.slotOffset
  valueWidth : SizeFits field.valueWidth

/-- The containers of a layout have sizes. -/
structure CompiledRowLayout.Fits (layout : CompiledRowLayout) : Prop where
  count : SizeFits layout.fields.length
  fields : ∀ field ∈ layout.fields, field.Fits

instance (layout : CompiledRowLayout) : Decidable layout.Fits :=
  decidable_of_iff (SizeFits layout.fields.length ∧ ∀ field ∈ layout.fields, field.Fits)
    ⟨fun h => ⟨h.1,h.2⟩,fun h => ⟨h.count,h.fields⟩⟩

namespace Schema

theorem fingerprintUInt64_code : PrefixCode (fun _ => True) fingerprintUInt64 := by
  refine PrefixCode.of_width toBytes_length ?_
  intro a b _ _ h
  rw [← ofBytes_toBytes a,← ofBytes_toBytes b]
  exact congrArg (ofBytes UInt64) h

theorem widened_code {T : Type} {widen : T → UInt64} (h : Function.Injective widen) :
    PrefixCode (fun _ => True) fun v => fingerprintUInt64 (widen v) :=
  fingerprintUInt64_code.comap (fun _ _ => trivial) fun _ _ _ _ heq => h heq

theorem fingerprintSize_code : PrefixCode SizeFits fun n => fingerprintUInt64 (UInt64.ofNat n) := by
  refine fingerprintUInt64_code.comap (fun _ _ => trivial) ?_
  intro m n hm hn h
  have hnat := congrArg UInt64.toNat h
  rwa [Artifact.uint64_toNat hm,Artifact.uint64_toNat hn] at hnat

theorem fingerprintBool_code : PrefixCode (fun _ => True) fingerprintBool := by
  refine PrefixCode.of_width (show ∀ v, (fingerprintBool v).length = 1 from fun _ => rfl) ?_
  intro a b _ _ h
  cases a <;> cases b <;> first | rfl | cases h

theorem fingerprintVector_code {T : Type} {Valid : T → Prop} {element : T → Bytes}
    (h : PrefixCode Valid element) :
    PrefixCode (fun values : List T => SizeFits values.length ∧ ∀ v ∈ values, Valid v)
      (fingerprintVector element) :=
  fingerprintSize_code.counted h

theorem fingerprintString_code :
    PrefixCode (fun value : Bytes => SizeFits value.length) fingerprintString := by
  have hbyte : PrefixCode (fun _ => True) fun b : UInt8 => [b] :=
    PrefixCode.of_width (fun _ => List.length_singleton) fun _ _ _ _ h => List.singleton_inj.mp h
  have hcode := fingerprintSize_code.counted hbyte
  simp only [List.flatMap_singleton',implies_true,and_true] at hcode
  exact hcode

theorem alternative_code {T : Type} {Valid : T → Prop} {element : T → Bytes}
    (make : T → FieldDefaultValue) (h : PrefixCode Valid element) {v w : T} (hv : Valid v)
    (hw : Valid w) {index s t : Bytes} (heq : (index++element v)++s = (index++element w)++t) :
    make v = make w ∧ s = t := by
  rw [List.append_assoc,List.append_assoc] at heq
  obtain ⟨hvalue,hrest⟩ := h hv hw (List.append_cancel_left heq)
  exact ⟨congrArg make hvalue,hrest⟩

theorem fingerprintDefault_index (v : FieldDefaultValue) :
    ∃ body, fingerprintDefault v = fingerprintUInt64 (UInt64.ofNat v.index)++body := by
  cases v with
  | monostate => exact ⟨[],(List.append_nil _).symm⟩
  | _ => exact ⟨_,rfl⟩

theorem index_lt (v : FieldDefaultValue) : v.index < 13 := by
  cases v with
  | _ => simp [FieldDefaultValue.index]

theorem toUInt64_injective : Function.Injective Int64.toUInt64 := by
  intro v w h
  simpa using congrArg UInt64.toInt64 h

theorem int8_widened : Function.Injective fun v : Int8 => v.toInt64.toUInt64 := by
  intro v w h
  have hint := congrArg Int64.toInt (toUInt64_injective h)
  rwa [Int8.toInt_toInt64,Int8.toInt_toInt64,Int8.toInt_inj] at hint

theorem int32_widened : Function.Injective fun v : Int32 => v.toInt64.toUInt64 := by
  intro v w h
  have hint := congrArg Int64.toInt (toUInt64_injective h)
  rwa [Int32.toInt_toInt64,Int32.toInt_toInt64,Int32.toInt_inj] at hint

/-- The index of the alternative comes first, and behind it the word of the value alone. -/
theorem fingerprintDefault_code : PrefixCode FieldDefaultValue.Fits fingerprintDefault := by
  intro a b ha hb s t h
  have hindex : a.index = b.index := by
    obtain ⟨body,hbody⟩ := fingerprintDefault_index a
    obtain ⟨body',hbody'⟩ := fingerprintDefault_index b
    rw [hbody,hbody',List.append_assoc,List.append_assoc] at h
    have hsmall : ∀ v : FieldDefaultValue, SizeFits v.index := fun v =>
      (index_lt v).le.trans (by decide)
    exact (fingerprintSize_code (hsmall a) (hsmall b) h).1
  have hvector : ∀ {T : Type} {element : T → Bytes}, PrefixCode (fun _ => True) element →
      PrefixCode (fun values : List T => SizeFits values.length) (fingerprintVector element) :=
    fun helement => (fingerprintVector_code helement).mono fun _ hsize => ⟨hsize,fun _ _ => trivial⟩
  cases a with
  | monostate =>
    cases b with
    | monostate => exact ⟨rfl,List.append_cancel_left h⟩
    | _ => cases hindex
  | int8 v =>
    cases b with
    | int8 w => exact alternative_code .int8 (widened_code int8_widened) trivial trivial h
    | _ => cases hindex
  | int32 v =>
    cases b with
    | int32 w => exact alternative_code .int32 (widened_code int32_widened) trivial trivial h
    | _ => cases hindex
  | int64 v =>
    cases b with
    | int64 w => exact alternative_code .int64 (widened_code toUInt64_injective) trivial trivial h
    | _ => cases hindex
  | uint64 v =>
    cases b with
    | uint64 w => exact alternative_code .uint64 fingerprintUInt64_code trivial trivial h
    | _ => cases hindex
  | bool v =>
    cases b with
    | bool w => exact alternative_code .bool fingerprintBool_code trivial trivial h
    | _ => cases hindex
  | string v =>
    cases b with
    | string w => exact alternative_code .string fingerprintString_code ha hb h
    | _ => cases hindex
  | int8s v =>
    cases b with
    | int8s w => exact alternative_code .int8s (hvector (widened_code int8_widened)) ha hb h
    | _ => cases hindex
  | int32s v =>
    cases b with
    | int32s w => exact alternative_code .int32s (hvector (widened_code int32_widened)) ha hb h
    | _ => cases hindex
  | int64s v =>
    cases b with
    | int64s w => exact alternative_code .int64s (hvector (widened_code toUInt64_injective)) ha hb h
    | _ => cases hindex
  | uint64s v =>
    cases b with
    | uint64s w => exact alternative_code .uint64s (hvector fingerprintUInt64_code) ha hb h
    | _ => cases hindex
  | bools v =>
    cases b with
    | bools w => exact alternative_code .bools (hvector fingerprintBool_code) ha hb h
    | _ => cases hindex
  | strings v =>
    cases b with
    | strings w => exact alternative_code .strings (fingerprintVector_code fingerprintString_code) ha hb h
    | _ => cases hindex

theorem fieldType_widened : Function.Injective fun type : FieldType => type.raw.toUInt64 := by
  intro type type' h
  rw [← FieldType.ofRaw_raw type,← FieldType.ofRaw_raw type',UInt8.toUInt64_inj.mp h]

theorem fieldEncoding_widened :
    Function.Injective fun encoding : FieldEncoding => encoding.raw.toUInt64 := by
  intro encoding encoding' h
  rw [← FieldEncoding.ofRaw_raw encoding,← FieldEncoding.ofRaw_raw encoding',
    UInt8.toUInt64_inj.mp h]

theorem fingerprintField_code :
    PrefixCode (fun field : FieldLayout => field.Fits ∧ field.Placed) fingerprintField := by
  intro a b ⟨ha,hplaced⟩ ⟨hb,hplaced'⟩ s t h
  simp only [fingerprintField,List.append_assoc] at h
  obtain ⟨hfieldId,h⟩ := widened_code (fun _ _ => UInt32.toUInt64_inj.mp) trivial trivial h
  obtain ⟨hname,h⟩ := fingerprintString_code ha.name hb.name h
  obtain ⟨htype,h⟩ := widened_code fieldType_widened trivial trivial h
  obtain ⟨hisList,h⟩ := fingerprintBool_code trivial trivial h
  obtain ⟨hnullable,h⟩ := fingerprintBool_code trivial trivial h
  obtain ⟨hencoding,h⟩ := widened_code fieldEncoding_widened trivial trivial h
  obtain ⟨hdefault,h⟩ := fingerprintDefault_code ha.defaultValue hb.defaultValue h
  obtain ⟨hbit,h⟩ := fingerprintSize_code hplaced.presenceBitIndex hplaced'.presenceBitIndex h
  obtain ⟨hoffset,h⟩ := fingerprintSize_code hplaced.slotOffset hplaced'.slotOffset h
  obtain ⟨hwidth,h⟩ := fingerprintSize_code hplaced.valueWidth hplaced'.valueWidth h
  obtain ⟨husesRef,h⟩ := fingerprintBool_code trivial trivial h
  refine ⟨?_,h⟩
  cases a
  cases b
  simp only at hfieldId hname htype hisList hnullable hencoding hdefault hbit hoffset hwidth husesRef
  simp only [hfieldId,hname,htype,hisList,hnullable,hencoding,hdefault,hbit,hoffset,hwidth,husesRef]

end Schema

namespace FieldLayout

def wrapped (field : FieldLayout) : FieldLayout := { field with
  presenceBitIndex := field.presenceBitIndex%2^64
  slotOffset := field.slotOffset%2^64
  valueWidth := field.valueWidth%2^64 }

theorem wrapped_placed (field : FieldLayout) : field.wrapped.Placed := by
  have hmod : ∀ n : ℕ, SizeFits (n%2^64) := by
    intro n
    rw [SizeFits,uint64Max]
    omega
  exact ⟨hmod _,hmod _,hmod _⟩

theorem fingerprintField_wrapped (field : FieldLayout) :
    fingerprintField field.wrapped = fingerprintField field := by
  simp only [fingerprintField,wrapped,UInt64.ofNat_mod_size]

end FieldLayout

namespace CompiledRowLayout

open FieldLayout RuntimeSchema

/-- Equal bytes come from equal versions and equal fields of the schema. -/
theorem specs_of_preimage {a b : CompiledRowLayout} (ha : a.Fits) (hb : b.Fits)
    (h : fingerprintPreimage a = fingerprintPreimage b) :
    a.schemaVersion = b.schemaVersion ∧
      a.fields.map FieldLayout.spec = b.fields.map FieldLayout.spec := by
  simp only [fingerprintPreimage,List.append_assoc] at h
  obtain ⟨hversion,h⟩ := fingerprintUInt64_code trivial trivial (List.append_cancel_left h)
  obtain ⟨-,h⟩ := fingerprintUInt64_code trivial trivial h
  obtain ⟨-,h⟩ := fingerprintUInt64_code trivial trivial h
  obtain ⟨-,h⟩ := fingerprintUInt64_code trivial trivial h
  obtain ⟨-,h⟩ := fingerprintUInt64_code trivial trivial h
  obtain ⟨hlength,h⟩ := fingerprintSize_code ha.count hb.count h
  have hwrapped : ∀ layout : CompiledRowLayout, layout.fields.flatMap fingerprintField =
      (layout.fields.map wrapped).flatMap fingerprintField := by
    intro layout
    rw [List.flatMap_map]
    exact List.flatMap_congr fun field _ => (fingerprintField_wrapped field).symm
  have hvalid : ∀ layout : CompiledRowLayout, layout.Fits →
      ∀ field ∈ layout.fields.map wrapped, field.Fits ∧ field.Placed := by
    intro layout hlayout field hfield
    obtain ⟨field,hmem,rfl⟩ := List.mem_map.mp hfield
    have hfits := hlayout.fields field hmem
    exact ⟨⟨hfits.name,hfits.defaultValue⟩,wrapped_placed field⟩
  rw [hwrapped,hwrapped,← List.append_nil (List.flatMap _ (a.fields.map wrapped)),
    ← List.append_nil (List.flatMap _ (b.fields.map wrapped))] at h
  have hfields := (fingerprintField_code.flatMap (by simpa using hlength) (hvalid a ha)
    (hvalid b hb) h).1
  have hspecs := congrArg (List.map FieldLayout.spec) hfields
  rw [List.map_map,List.map_map] at hspecs
  exact ⟨hversion,hspecs⟩

/-- A layout field without its offset is computed from the field of the schema. -/
theorem compile_unplaced_specs (schema : RuntimeSchema) :
    (compile schema).fields.map unplaced =
      ((compile schema).fields.map FieldLayout.spec).mapIdx fun i field => newField field i := by
  refine List.ext_getElem? fun i => ?_
  rw [List.getElem?_mapIdx,List.getElem?_map,List.getElem?_map]
  cases hfield : (compile schema).fields[i]? with
  | none => rfl
  | some field =>
    obtain ⟨spec,-,hunplaced⟩ := compile_getElem? hfield
    have hspec : field.unplaced.spec = (newField spec i).spec := congrArg FieldLayout.spec hunplaced
    have hkept : field.spec = field.unplaced.spec := rfl
    rw [Option.map_some,Option.map_some,Option.map_some,hkept,hspec,hunplaced]
    rfl

/-- The offsets and the sizes of a layout follow from its version and its fields. -/
theorem compile_eq_of_specs {schema other : RuntimeSchema} (hversion : schema.version = other.version)
    (hspecs : (compile schema).fields.map FieldLayout.spec =
      (compile other).fields.map FieldLayout.spec) : compile schema = compile other := by
  have hnew : (sortedFields schema).mapIdx (fun i field => newField field i) =
      (sortedFields other).mapIdx fun i field => newField field i := by
    rw [← compile_unplaced,← compile_unplaced,compile_unplaced_specs,compile_unplaced_specs,hspecs]
  have hlength := congrArg List.length hnew
  rw [List.length_mapIdx,List.length_mapIdx] at hlength
  simp only [sortedFields] at hnew hlength
  simp only [compile,hversion,hnew,hlength]

theorem compile_layoutFingerprint (schema : RuntimeSchema) : (compile schema).layoutFingerprint =
    fingerprint kFnvOffsetBasis (fingerprintPreimage (compile schema)) := by
  simp only [compile,buildFingerprint,fingerprintPreimage]

/-- The bytes that are hashed tell the layout: a fingerprint that two layouts share is a collision
of the hash. -/
theorem fingerprintPreimage_injective {schema other : RuntimeSchema} (h : (compile schema).Fits)
    (h' : (compile other).Fits) :
    (fingerprintPreimage (compile schema) = fingerprintPreimage (compile other) →
      compile schema = compile other) ∧
    (compile schema ≠ compile other →
      (compile schema).layoutFingerprint = (compile other).layoutFingerprint →
      fingerprintPreimage (compile schema) ≠ fingerprintPreimage (compile other) ∧
        fingerprint kFnvOffsetBasis (fingerprintPreimage (compile schema)) =
          fingerprint kFnvOffsetBasis (fingerprintPreimage (compile other))) := by
  have hinjective : fingerprintPreimage (compile schema) = fingerprintPreimage (compile other) →
      compile schema = compile other := by
    intro heq
    obtain ⟨hversion,hspecs⟩ := specs_of_preimage h h' heq
    exact compile_eq_of_specs hversion hspecs
  rw [compile_layoutFingerprint,compile_layoutFingerprint]
  exact ⟨hinjective,fun hne hshared => ⟨fun heq => hne (hinjective heq),hshared⟩⟩

/-- A letter that moves from the default value of a field to its name. -/
theorem fingerprintPreimage_injective_sample :
    fingerprintPreimage (compile { activeFields := [{
      fieldId := 1,name := [97],type := .kString,encoding := .kArena
      defaultValue := .string [98] }] }) ≠
    fingerprintPreimage (compile { activeFields := [{
      fieldId := 1,name := [97,98],type := .kString,encoding := .kArena
      defaultValue := .string [] }] }) :=
  mt (fingerprintPreimage_injective (by decide) (by decide)).1 (by decide +kernel)

end CompiledRowLayout
end KvIndex
