import KvIndex.RowLayout

/-! Which accepted schema sections are well typed. The parser casts the type byte of a field and
never looks whether it names a type; the encoding policy rejects a bad encoding for every
type, so the type bytes alone decide. -/
namespace KvIndex

open Base Schema ByteReader

/-- The encodings that a type and a shape admit. -/
def FieldEncoding.Admitted (type : FieldType) (isList : Bool) : FieldEncoding → Prop
  | .kFixed => isList = false ∧ type ≠ .kString
  | .kArena => isList = true ∨ type = .kString
  | .kDictionary => isList = false ∧ type = .kString
  | .kListDictionary => isList = true
  | .kElementDictionary => isList = true ∧ type = .kString
  | .unnamed _ _ => False

def FieldType.Named (type : FieldType) : Prop :=
  type = .kInt8 ∨ type = .kInt32 ∨ type = .kInt64 ∨ type = .kUInt64 ∨ type = .kBool ∨ type = .kString

def FieldEncoding.Named (encoding : FieldEncoding) : Prop :=
  encoding = .kFixed ∨ encoding = .kArena ∨ encoding = .kDictionary ∨ encoding = .kListDictionary ∨
    encoding = .kElementDictionary

namespace CompiledRowLayout

open FieldLayout

structure WellTyped (layout : CompiledRowLayout) : Prop where
  type : ∀ field ∈ layout.fields, field.type.Named
  encoding : ∀ field ∈ layout.fields, field.encoding.Named
  admitted : ∀ field ∈ layout.fields, field.encoding.Admitted field.type field.isList
  width : ∀ field ∈ layout.fields, 0 < field.valueWidth ∧ field.valueWidth =
    if field.isList = true ∨ field.type = .kString then 16 else fieldTypeSize field.type
  apart : layout.fields.Pairwise Apart

end CompiledRowLayout

theorem FieldType.ofRaw_named {raw : UInt8} : (FieldType.ofRaw raw).Named ↔ 1 ≤ raw ∧ raw ≤ 6 := by
  rw [FieldType.ofRaw]
  split_ifs with h h1 h2 h3 h4 h5
  · simp only [Named,reduceCtorEq,or_self,false_iff]
    rintro ⟨hlow,hhigh⟩
    rcases h with rfl | h
    · exact absurd hlow (by decide)
    · exact absurd hhigh (UInt8.not_le.mpr h)
  · simp [Named,h1]
  · simp [Named,h2]
  · simp [Named,h3]
  · simp [Named,h4]
  · simp [Named,h5]
  · rw [not_or,UInt8.not_lt] at h
    have hlow : 1 ≤ raw := by
      rw [UInt8.le_iff_toNat_le]
      have hpos : raw.toNat ≠ 0 := fun hzero => h.1 (UInt8.toNat_inj.mp hzero)
      show 1 ≤ raw.toNat
      omega
    simp [Named,hlow,h.2]

theorem fieldTypeSize_pos {type : FieldType} (h : type.Named) : 0 < fieldTypeSize type := by
  rcases h with rfl | rfl | rfl | rfl | rfl | rfl <;> decide

theorem checkScalarEncoding_eq_ok {field : FieldSpec} {u : Unit} :
    checkScalarEncoding field = .ok u ↔
      field.type = .kString ∧ (field.encoding = .kArena ∨ field.encoding = .kDictionary) ∨
        field.type ≠ .kString ∧ field.encoding = .kFixed := by
  rw [checkScalarEncoding]
  by_cases hstring : field.type = .kString
  · cases hencoding : field.encoding <;> simp [hstring,hencoding,checkFixedEncoding]
  · simp [hstring,checkFixedEncoding]

theorem admitted_of_valid {field : FieldSpec} (h : validateEncodingPolicy field = .ok ()) :
    field.encoding.Admitted field.type field.isList := by
  simp only [validateEncodingPolicy,bind_eq_ok,failIf_eq_ok,exists_const] at h
  obtain ⟨-,-,-,h⟩ := h
  cases hlist : field.isList with
  | false =>
    rw [hlist] at h
    rcases checkScalarEncoding_eq_ok.mp h with ⟨hstring,harena | hdictionary⟩ | ⟨hscalar,hfixed⟩
    · simp [harena,hstring,FieldEncoding.Admitted]
    · simp [hdictionary,hstring,FieldEncoding.Admitted]
    · simp [hfixed,hscalar,FieldEncoding.Admitted]
  | true =>
    -- An encoding without a name leaves the switch and fails the checks behind it.
    cases hencoding : field.encoding with
    | unnamed raw hraw =>
      simp only [hlist,hencoding,if_true] at h
      have hscalar := checkScalarEncoding_eq_ok.mp h
      simp [hencoding] at hscalar
    | kElementDictionary =>
      simp only [hlist,hencoding,if_true] at h
      refine ⟨rfl,?_⟩
      by_contra hstring
      simp [hstring] at h
    | kArena => exact Or.inl rfl
    | kListDictionary => rfl
    | kFixed => simp [hlist,hencoding] at h
    | kDictionary => simp [hlist,hencoding] at h

theorem named_of_admitted {encoding : FieldEncoding} {type : FieldType} {isList : Bool}
    (h : encoding.Admitted type isList) : encoding.Named := by
  cases encoding with
  | unnamed raw hraw => exact h.elim
  | _ => simp [FieldEncoding.Named]

namespace CompiledRowLayout

theorem compile_wellTyped_iff {schema : RuntimeSchema}
    (hvalid : ∀ field ∈ schema.activeFields, validateEncodingPolicy field = .ok ()) :
    (compile schema).WellTyped ↔ ∀ field ∈ schema.activeFields, field.type.Named := by
  have hadmitted : ∀ field ∈ (compile schema).fields,
      field.encoding.Admitted field.type field.isList := by
    intro field hfield
    obtain ⟨spec,i,hspec,heq⟩ := mem_compile hfield
    have hencoding : field.encoding = spec.encoding := congrArg FieldLayout.encoding heq
    have htype : field.type = spec.type := congrArg FieldLayout.type heq
    have hlist : field.isList = spec.isList := congrArg FieldLayout.isList heq
    rw [hencoding,htype,hlist]
    exact admitted_of_valid (hvalid spec hspec)
  constructor
  · intro h spec hspec
    obtain ⟨field,hfield,i,heq⟩ := exists_compile_field hspec
    have htype : field.type = spec.type := congrArg FieldLayout.type heq
    rw [← htype]
    exact h.type field hfield
  · intro h
    have htype : ∀ field ∈ (compile schema).fields, field.type.Named := by
      intro field hfield
      obtain ⟨spec,i,hspec,heq⟩ := mem_compile hfield
      have htype : field.type = spec.type := congrArg FieldLayout.type heq
      rw [htype]
      exact h spec hspec
    refine ⟨htype,fun field hfield => named_of_admitted (hadmitted field hfield),hadmitted,?_,
      (compile_formed schema).apart⟩
    intro field hfield
    obtain ⟨husesRef,hwidth⟩ := compile_shaped hfield
    have hpos := fieldTypeSize_pos (htype field hfield)
    have hbranch : field.usesRef = true ↔ field.isList = true ∨ field.type = .kString := by
      rw [husesRef,Bool.or_eq_true,beq_iff_eq]
    by_cases href : field.usesRef = true
    · rw [if_pos href] at hwidth
      rw [hwidth,if_pos (hbranch.mp href)]
      exact ⟨by decide,rfl⟩
    · rw [if_neg href] at hwidth
      rw [hwidth,if_neg fun h => href (hbranch.mpr h)]
      exact ⟨hpos,rfl⟩

end CompiledRowLayout

namespace Artifact

open ArtifactSection CompiledRowLayout

/-- The type byte of a field entry, and the cursor behind the entry. -/
def readTypeByte : Reader UInt8 := do
  let _ ← readInt UInt32
  let entry ← ByteReader.take 4
  let _ ← readArtifactString
  return entry.getD 0 0

/-- The type bytes of a schema section, one for each field entry. -/
def schemaTypeBytes (payload : Bytes) : StatusOr (List UInt8) :=
  ((do
    let _ ← readInt UInt64
    let fieldCount ← readInt UInt32
    many fieldCount.toNat readTypeByte : Reader (List UInt8)) payload 0).map Prod.fst

/-- The fields that the entries with these type bytes have added. -/
structure Added (schema schema' : RuntimeSchema) (raws : List UInt8) : Prop where
  fields : ∃ added, schema'.activeFields = schema.activeFields++added ∧
    added.map FieldSpec.type = raws.map FieldType.ofRaw ∧
    ∀ field ∈ added, validateEncodingPolicy field = .ok ()

theorem readSchemaField_added {schema schema' : RuntimeSchema} {bytes : Bytes} {cursor next : ℕ}
    (h : readSchemaField schema bytes cursor = .ok (schema',next)) :
    ∃ raw, readTypeByte bytes cursor = .ok (raw,next) ∧ Added schema schema' [raw] := by
  simp only [readSchemaField,bind_returns,lift_returns] at h
  obtain ⟨fieldId,_,hid,_,_,hroom,entry,_,hentry,name,_,hname,hadd,rfl⟩ := h
  rw [(failWhen_returns.mp hroom).2] at hentry
  refine ⟨entry.getD 0 0,?_,?_⟩
  · simp only [readTypeByte,bind_returns,pure_returns]
    exact ⟨fieldId,_,hid,entry,_,hentry,name,_,hname,rfl,rfl⟩
  · simp only [RuntimeSchema.addField,bind_eq_ok,failIf_eq_ok,exists_const,pure_eq_ok,
      Except.ok.injEq] at hadd
    obtain ⟨-,_,hvalid,rfl⟩ := hadd
    refine ⟨_,rfl,rfl,?_⟩
    intro field hfield
    rw [List.mem_singleton.mp hfield]
    exact hvalid

theorem iterate_readSchemaField_added {n : ℕ} {schema schema' : RuntimeSchema} {bytes : Bytes}
    {cursor next : ℕ} (h : iterate n readSchemaField schema bytes cursor = .ok (schema',next)) :
    ∃ raws, many n readTypeByte bytes cursor = .ok (raws,next) ∧ Added schema schema' raws := by
  induction n generalizing schema cursor with
  | zero =>
    obtain ⟨rfl,rfl⟩ := pure_returns.mp h
    exact ⟨[],rfl,[],by simp,rfl,by simp⟩
  | succ n ih =>
    obtain ⟨middle,cursor',hfirst,hrest⟩ := bind_returns.mp h
    obtain ⟨raw,hraw,first,hadded,htype,hvalid⟩ := readSchemaField_added hfirst
    obtain ⟨raws,hraws,rest,hadded',htypes,hvalid'⟩ := ih hrest
    refine ⟨raw::raws,?_,first++rest,?_,?_,?_⟩
    · simp only [many,bind_returns,pure_returns]
      exact ⟨raw,cursor',hraw,raws,next,hraws,rfl,rfl⟩
    · rw [hadded',hadded,List.append_assoc]
    · rw [List.map_append,htype,htypes]
      rfl
    · intro field hfield
      rcases List.mem_append.mp hfield with hfield | hfield
      · exact hvalid field hfield
      · exact hvalid' field hfield

/-- An accepted schema section is well typed exactly when all its type bytes are. -/
theorem parseSchemaSection_wellTyped {payload : Bytes} {schemaVersion layoutFingerprint : UInt64}
    {layout : CompiledRowLayout}
    (h : parseSchemaSection payload schemaVersion layoutFingerprint = .ok layout) :
    ∃ raws, schemaTypeBytes payload = .ok raws ∧
      (layout.WellTyped ↔ ∀ raw ∈ raws, 1 ≤ raw ∧ raw ≤ 6) := by
  simp only [parseSchemaSection,bind_eq_ok,failIf_eq_ok,exists_const,pure_eq_ok,
    Except.ok.injEq] at h
  obtain ⟨⟨schema,next⟩,hread,-,-,rfl⟩ := h
  simp only [readSchema,bind_returns,lift_returns] at hread
  obtain ⟨version,_,hversion,_,_,⟨-,rfl⟩,fieldCount,_,hcount,hloop⟩ := hread
  obtain ⟨raws,hraws,added,hfields,htypes,hvalid⟩ := iterate_readSchemaField_added hloop
  rw [List.nil_append] at hfields
  rw [← hfields] at htypes hvalid
  refine ⟨raws,?_,?_⟩
  · have hall : ((do
        let _ ← readInt UInt64
        let fieldCount ← readInt UInt32
        many fieldCount.toNat readTypeByte : Reader (List UInt8)) payload 0) = .ok (raws,next) := by
      simp only [bind_returns]
      exact ⟨version,_,hversion,fieldCount,_,hcount,hraws⟩
    rw [schemaTypeBytes,hall]
    rfl
  · rw [compile_wellTyped_iff hvalid]
    have hmap : (∀ field ∈ schema.activeFields, field.type.Named) ↔
        ∀ type ∈ schema.activeFields.map FieldSpec.type, type.Named := by simp
    rw [hmap,htypes]
    simp only [List.mem_map,forall_exists_index,and_imp,forall_apply_eq_imp_iff₂,
      FieldType.ofRaw_named]

/-- The layout of an accepted file is well typed exactly when every field entry of its schema
section has a type byte from 1 to 6. -/
theorem accepted_schema_wellTyped_iff {sort : List ArtifactSection → List ArtifactSection}
    {bytes : Bytes} {options : ArtifactValidationOptions} {parsed : ParsedArtifact}
    (hparse : parseArtifactWith sort bytes options = .ok parsed) :
    ∃ schemaSection raws,
      findSection parsed.sections .kSchemaMetadata kArtifactGlobalShardId = some schemaSection ∧
      schemaTypeBytes (sectionBytes bytes schemaSection) = .ok raws ∧
      (parsed.layout.WellTyped ↔ ∀ raw ∈ raws, 1 ≤ raw ∧ raw ≤ 6) := by
  obtain ⟨header,sections,layout,progress,h,-,rfl⟩ := parseArtifactWith_eq_ok.mp hparse
  obtain ⟨schemaSection,hfind,hlayout⟩ := h.schema_read
  obtain ⟨raws,hraws,hiff⟩ := parseSchemaSection_wellTyped hlayout
  exact ⟨schemaSection,raws,hfind,hraws,hiff⟩

/-- A file with a schema section of one field and no other section. -/
def schemaFile (field : FieldSpec) : Bytes :=
  let layout := compile (fieldSchema field)
  let artifact := addSection { file := emptyFile 1 } .kSchemaMetadata kArtifactGlobalShardId
    ((serializeSchema layout).toOption.getD [])
  ((headerFields {} layout 1++(artifact.sections.mapIdx entryFields).flatten).foldlM writeBytesAt
    artifact.file).toOption.getD []

def optionalProgress : ArtifactValidationOptions := { sourceProgressPolicy := .kOptional }

/-- A field whose type byte is 7, one past the last enumerator. -/
def untypedField : FieldSpec := { fieldId := 1,name := [118],type := .unnamed 7 (by decide) }

/-- A file with a type byte of 7 is accepted, with a field that has no width. -/
theorem untyped_schema_accepted :
    ∃ parsed, parseArtifact (schemaFile untypedField) optionalProgress = .ok parsed ∧
      parsed.layout.fields.map FieldLayout.valueWidth = [0] ∧ ¬parsed.layout.WellTyped := by
  have hwidths : (parseArtifact (schemaFile untypedField) optionalProgress).toOption.map
      (fun parsed => parsed.layout.fields.map FieldLayout.valueWidth) = some [0] := by
    decide +kernel
  cases hparse : parseArtifact (schemaFile untypedField) optionalProgress with
  | error status =>
    rw [hparse] at hwidths
    cases hwidths
  | ok parsed =>
    rw [hparse,Except.toOption,Option.map_some,Option.some.injEq] at hwidths
    refine ⟨parsed,rfl,hwidths,?_⟩
    intro h
    have hmem : 0 ∈ parsed.layout.fields.map FieldLayout.valueWidth := by simp [hwidths]
    obtain ⟨field,hfield,hzero⟩ := List.mem_map.mp hmem
    have hpos := (h.width field hfield).1
    omega

theorem accepted_schema_wellTyped_sample :
    ∃ parsed, parseArtifactWith sortSections (schemaFile { fieldId := 1,name := [118] })
      optionalProgress = .ok parsed ∧ parsed.layout.WellTyped := by
  have hraws : (parseArtifactWith sortSections (schemaFile { fieldId := 1,name := [118] })
      optionalProgress).toOption.map (fun parsed =>
        (findSection parsed.sections .kSchemaMetadata kArtifactGlobalShardId).map fun entry =>
          (schemaTypeBytes (sectionBytes (schemaFile { fieldId := 1,name := [118] })
            entry)).toOption) = some (some (some [3])) := by
    decide +kernel
  generalize schemaFile { fieldId := 1,name := [118] } = bytes at hraws ⊢
  cases hparse : parseArtifactWith sortSections bytes optionalProgress with
  | error status =>
    rw [hparse] at hraws
    cases hraws
  | ok parsed =>
    obtain ⟨schemaSection,raws,hfind,hread,hiff⟩ := accepted_schema_wellTyped_iff hparse
    refine ⟨parsed,rfl,hiff.mpr ?_⟩
    simp only [hparse,hfind,hread,Except.toOption,Option.map_some,Option.some.injEq] at hraws
    rw [hraws]
    decide +kernel

end Artifact
end KvIndex
