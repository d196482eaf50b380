import KvIndex.ArtifactCodec

/-! The schema section. It carries every attribute of a field but its default, while the
fingerprint of a layout covers the defaults too. -/
namespace KvIndex

open Base LittleEndian Schema

/-- The schemas that calls of `AddField` and `DeleteField` lead to. -/
inductive RuntimeSchema.Reachable : RuntimeSchema → Prop
  | create (version : UInt64) : Reachable { version }
  | addField {schema schema' : RuntimeSchema} {field : FieldSpec} (h : Reachable schema)
      (ha : schema.addField field = .ok schema') : Reachable schema'
  | deleteField {schema schema' : RuntimeSchema} {fieldId : FieldId} (h : Reachable schema)
      (hd : schema.deleteField fieldId = .ok schema') : Reachable schema'

/-- The active fields have distinct ids, and each of them was accepted. -/
structure RuntimeSchema.Accepted (fields : List FieldSpec) : Prop where
  distinct : FirstWins.Distinct FieldSpec.fieldId fields
  valid : ∀ field ∈ fields, validateEncodingPolicy field = .ok ()

theorem RuntimeSchema.findField_eq_none {schema : RuntimeSchema} {fieldId : FieldId} :
    schema.findField fieldId = none ↔ ∀ field ∈ schema.activeFields, field.fieldId ≠ fieldId := by
  simp [findField]

theorem RuntimeSchema.Reachable.accepted {schema : RuntimeSchema} (h : schema.Reachable) :
    Accepted schema.activeFields := by
  induction h with
  | create version => exact ⟨List.nodup_nil,by simp⟩
  | @addField schema schema' field _ ha ih =>
    simp only [RuntimeSchema.addField,bind_eq_ok,failIf_eq_ok,exists_const,Bool.or_eq_false_iff,
      Option.isSome_eq_false_iff,Option.isNone_iff_eq_none,pure_eq_ok,Except.ok.injEq] at ha
    obtain ⟨⟨hnew,-⟩,_,hvalid,rfl⟩ := ha
    refine ⟨?_,?_⟩
    · rw [FirstWins.Distinct,List.map_append,List.nodup_append]
      refine ⟨ih.distinct,by simp,?_⟩
      intro a ha b hb
      obtain ⟨other,hother,rfl⟩ := List.mem_map.mp ha
      rw [List.map_singleton,List.mem_singleton] at hb
      rw [hb]
      exact findField_eq_none.mp hnew other hother
    · intro other hother
      rcases List.mem_append.mp hother with hother | hother
      · exact ih.valid other hother
      · rw [List.mem_singleton.mp hother]
        exact hvalid
  | @deleteField schema schema' fieldId _ hd ih =>
    rw [RuntimeSchema.deleteField] at hd
    cases hf : schema.findField fieldId with
    | none =>
      rw [hf] at hd
      cases hd
    | some field =>
      rw [hf] at hd
      simp only [Except.ok.injEq] at hd
      subst hd
      refine ⟨?_,?_⟩
      · exact ih.distinct.sublist (List.eraseP_sublist.map _)
      · intro other hother
        exact ih.valid other (List.eraseP_subset hother)

def FieldSpec.withoutDefault (field : FieldSpec) : FieldSpec :=
  { field with defaultValue := .monostate }

/-- The attributes of a field that the schema section holds. -/
def FieldLayout.sectionSpec (field : FieldLayout) : FieldSpec where
  fieldId := field.fieldId
  name := field.name
  type := field.type
  isList := field.isList
  nullable := field.nullable
  encoding := field.encoding

theorem validateEncodingPolicy_withoutDefault {field : FieldSpec}
    (h : validateEncodingPolicy field = .ok ()) :
    validateEncodingPolicy field.withoutDefault = .ok () := by
  simp only [validateEncodingPolicy,bind_eq_ok,failIf_eq_ok,exists_const] at h ⊢
  obtain ⟨hname,hdeleted,_,hrest⟩ := h
  exact ⟨hname,hdeleted,by simp [defaultMatchesField,FieldSpec.withoutDefault],hrest⟩

theorem not_deleted_of_valid {field : FieldSpec} (h : validateEncodingPolicy field = .ok ()) :
    field.deleted = false := by
  simp only [validateEncodingPolicy,bind_eq_ok,failIf_eq_ok,exists_const] at h
  exact h.2.1

namespace CompiledRowLayout

theorem placeFixed_sectionSpec (cursor : ℕ) (fields : List FieldLayout) :
    (placeFixed cursor fields).2.map FieldLayout.sectionSpec =
      fields.map FieldLayout.sectionSpec ∧
    (placeFixed cursor fields).2.map (·.defaultValue) = fields.map (·.defaultValue) := by
  induction fields generalizing cursor with
  | nil => exact ⟨rfl,rfl⟩
  | cons field fields ih =>
    rw [placeFixed]
    cases field.usesRef with
    | true =>
      obtain ⟨hspec,hdefault⟩ := ih cursor
      simp [hspec,hdefault]
    | false =>
      obtain ⟨hspec,hdefault⟩ :=
        ih (alignUp cursor (fieldTypeAlignment field.type)+field.valueWidth)
      simp [hspec,hdefault,FieldLayout.sectionSpec]

theorem placeRefs_sectionSpec (cursor : ℕ) (fields : List FieldLayout) :
    (placeRefs cursor fields).2.map FieldLayout.sectionSpec =
      fields.map FieldLayout.sectionSpec ∧
    (placeRefs cursor fields).2.map (·.defaultValue) = fields.map (·.defaultValue) := by
  induction fields generalizing cursor with
  | nil => exact ⟨rfl,rfl⟩
  | cons field fields ih =>
    rw [placeRefs]
    cases field.usesRef with
    | true =>
      obtain ⟨hspec,hdefault⟩ := ih (cursor+kValueRef16Size)
      simp [hspec,hdefault,FieldLayout.sectionSpec]
    | false =>
      obtain ⟨hspec,hdefault⟩ := ih cursor
      simp [hspec,hdefault]

/-- The active fields of a schema in the order of their ids. -/
def sortedFields (schema : RuntimeSchema) : List FieldSpec :=
  schema.activeFields.insertionSort fun lhs rhs => lhs.fieldId ≤ rhs.fieldId

theorem compile_fields (schema : RuntimeSchema) :
    (compile schema).fields.map FieldLayout.sectionSpec =
      (sortedFields schema).map fun field => { field.withoutDefault with deleted := false } := by
  have hnew : ((sortedFields schema).mapIdx fun i field => newField field i).map
      FieldLayout.sectionSpec =
        (sortedFields schema).map fun field => { field.withoutDefault with deleted := false } := by
    refine List.ext_getElem? fun i => ?_
    simp only [List.getElem?_map,List.getElem?_mapIdx,Option.map_map]
    rfl
  have hrefs := fun cursor placed => (placeRefs_sectionSpec cursor placed).1
  have hfixed := fun cursor placed => (placeFixed_sectionSpec cursor placed).1
  exact (hrefs _ _).trans ((hfixed _ _).trans hnew)

theorem compile_defaults (schema : RuntimeSchema) :
    (compile schema).fields.map (·.defaultValue) =
      (sortedFields schema).map (·.defaultValue) := by
  have hnew : ((sortedFields schema).mapIdx fun i field => newField field i).map
      (·.defaultValue) = (sortedFields schema).map (·.defaultValue) := by
    refine List.ext_getElem? fun i => ?_
    simp only [List.getElem?_map,List.getElem?_mapIdx,Option.map_map]
    rfl
  have hrefs := fun cursor placed => (placeRefs_sectionSpec cursor placed).2
  have hfixed := fun cursor placed => (placeFixed_sectionSpec cursor placed).2
  exact (hrefs _ _).trans ((hfixed _ _).trans hnew)

theorem mem_sortedFields {schema : RuntimeSchema} {field : FieldSpec} :
    field ∈ sortedFields schema ↔ field ∈ schema.activeFields :=
  (List.perm_insertionSort _ _).mem_iff

/-- A layout depends on nothing but the version and the fields in the order of their ids. -/
theorem compile_congr {schema schema' : RuntimeSchema} (hversion : schema.version = schema'.version)
    (hfields : sortedFields schema = sortedFields schema') : compile schema = compile schema' := by
  simp only [sortedFields] at hfields
  simp only [compile,hversion,hfields]

/-- What the schema section says of a compiled layout is again a list of accepted fields. -/
theorem compile_accepted {schema : RuntimeSchema}
    (h : RuntimeSchema.Accepted schema.activeFields) :
    RuntimeSchema.Accepted ((compile schema).fields.map FieldLayout.sectionSpec) := by
  rw [compile_fields]
  refine ⟨?_,?_⟩
  · have hperm := List.perm_insertionSort (fun lhs rhs => lhs.fieldId ≤ rhs.fieldId)
      schema.activeFields
    rw [FirstWins.Distinct,List.map_map]
    exact (hperm.map FieldSpec.fieldId).nodup_iff.mpr h.distinct
  · intro field hfield
    obtain ⟨source,hsource,rfl⟩ := List.mem_map.mp hfield
    have hvalid := h.valid source (mem_sortedFields.mp hsource)
    have hrest := validateEncodingPolicy_withoutDefault hvalid
    rw [FieldSpec.withoutDefault,not_deleted_of_valid hvalid] at hrest
    exact hrest

theorem le_alignUp (value alignment : ℕ) : value ≤ alignUp value alignment := by
  rw [alignUp]
  split_ifs
  · exact le_rfl
  · dsimp only
    split_ifs
    · exact le_rfl
    · exact Nat.le_add_right _ _

theorem le_placeFixed (cursor : ℕ) (fields : List FieldLayout) :
    cursor ≤ (placeFixed cursor fields).1 := by
  induction fields generalizing cursor with
  | nil => exact le_rfl
  | cons field fields ih =>
    rw [placeFixed]
    cases field.usesRef with
    | true => exact ih cursor
    | false =>
      refine (le_alignUp cursor (fieldTypeAlignment field.type)).trans ?_
      exact (Nat.le_add_right _ field.valueWidth).trans (ih _)

theorem le_placeRefs (cursor : ℕ) (fields : List FieldLayout) :
    cursor ≤ (placeRefs cursor fields).1 := by
  induction fields generalizing cursor with
  | nil => exact le_rfl
  | cons field fields ih =>
    rw [placeRefs]
    cases field.usesRef with
    | true => exact (Nat.le_add_right _ kValueRef16Size).trans (ih _)
    | false => exact ih cursor

theorem compile_rowSlotSize_pos {schema : RuntimeSchema} (h : schema.activeFields ≠ []) :
    0 < (compile schema).rowSlotSize := by
  have hlength : (sortedFields schema).length = schema.activeFields.length :=
    (List.perm_insertionSort _ _).length_eq
  have hfields : 0 < schema.activeFields.length := List.length_pos_iff.mpr h
  have hbitmap : 0 < ((sortedFields schema).length+7)/8 := by
    rw [hlength]
    omega
  let bitmap := alignUp (((sortedFields schema).length+7)/8) 8
  let placed := placeFixed bitmap ((sortedFields schema).mapIdx fun i field => newField field i)
  have hsize : (compile schema).rowSlotSize =
      alignUp (placeRefs (alignUp placed.1 8) placed.2).1 8 := rfl
  rw [hsize]
  calc 0 < ((sortedFields schema).length+7)/8 := hbitmap
    _ ≤ bitmap := le_alignUp _ 8
    _ ≤ placed.1 := le_placeFixed _ _
    _ ≤ alignUp placed.1 8 := le_alignUp _ 8
    _ ≤ (placeRefs (alignUp placed.1 8) placed.2).1 := le_placeRefs _ _
    _ ≤ alignUp (placeRefs (alignUp placed.1 8) placed.2).1 8 := le_alignUp _ 8

end CompiledRowLayout

namespace Artifact

open ByteReader CompiledRowLayout

theorem serializeField_reads {field : FieldLayout} {enc : Bytes} {schema schema' : RuntimeSchema}
    (h : serializeField field = .ok enc) (ha : schema.addField field.sectionSpec = .ok schema') :
    Reads (readSchemaField schema) enc schema' := by
  simp only [serializeField,bind_eq_ok,pure_eq_ok,Except.ok.injEq] at h
  obtain ⟨name,hname,rfl⟩ := h
  refine (readInt_reads field.fieldId).bind ?_
  refine Reads.failWhen_bind ?_ ?_
  · refine (Reads.take [field.type.raw,if field.isList then 1 else 0,
      if field.nullable then 1 else 0,field.encoding.raw]).bind ?_
    refine (appendString_reads hname).bind_nil (Reads.lift ?_)
    rw [← ha]
    congr 1
    have hbit : ∀ b : Bool, ((if b then 1 else 0 : UInt8) != 0) = b := by decide
    simp [FieldLayout.sectionSpec,FieldType.ofRaw_raw,FieldEncoding.ofRaw_raw,hbit]
  · intro bytes cursor hle
    simp only [List.length_append,List.length_cons,List.length_nil] at hle
    simp only [decide_eq_false_iff_not]
    omega

/-- The schema that the field loop of `ParseSchemaSection` builds. -/
def sectionSchema (version : UInt64) (fields : List FieldLayout) : RuntimeSchema where
  version := version
  activeFields := fields.map FieldLayout.sectionSpec

def withField (schema : RuntimeSchema) (field : FieldLayout) : RuntimeSchema :=
  { schema with activeFields := schema.activeFields++[field.sectionSpec] }

theorem sectionSchema_snoc (version : UInt64) (done : List FieldLayout) (field : FieldLayout) :
    sectionSchema version (done++[field]) = withField (sectionSchema version done) field := by
  simp [sectionSchema,withField]

theorem foldl_withField (version : UInt64) (fields : List FieldLayout) :
    fields.foldl withField { version } = sectionSchema version fields := by
  induction fields using List.reverseRecOn with
  | nil => rfl
  | append_singleton fields field ih =>
    rw [List.foldl_append,ih,sectionSchema_snoc,List.foldl_cons,List.foldl_nil]

theorem addField_sectionSchema {version : UInt64} {done rest : List FieldLayout}
    {field : FieldLayout}
    (h : RuntimeSchema.Accepted ((done++field::rest).map FieldLayout.sectionSpec)) :
    (sectionSchema version done).addField field.sectionSpec =
      .ok (sectionSchema version (done++[field])) := by
  have hnew : (sectionSchema version done).findField field.sectionSpec.fieldId = none := by
    rw [RuntimeSchema.findField_eq_none]
    intro other hother
    have hdistinct := h.distinct
    rw [List.map_append,FirstWins.Distinct,List.map_append,List.nodup_append] at hdistinct
    exact hdistinct.2.2 _ (List.mem_map_of_mem hother) _ (by simp)
  have hvalid := h.valid field.sectionSpec (List.mem_map_of_mem (by simp))
  rw [RuntimeSchema.addField,hnew,hvalid]
  simp [sectionSchema,RuntimeSchema.findDeletedField]

/-- The parser reads back every attribute of the fields but their defaults. -/
theorem serializeSchema_reads {layout : CompiledRowLayout} {bytes : Bytes}
    (hfields : RuntimeSchema.Accepted (layout.fields.map FieldLayout.sectionSpec))
    (h : serializeSchema layout = .ok bytes) :
    Reads (readSchema layout.schemaVersion) bytes
      (sectionSchema layout.schemaVersion layout.fields) := by
  simp only [serializeSchema,bind_eq_ok,pure_eq_ok,Except.ok.injEq] at h
  obtain ⟨enc,henc,rfl⟩ := h
  obtain ⟨parts,hparts,hn,rfl⟩ := appendCounted_eq_ok henc
  refine (readInt_reads layout.schemaVersion).bind ?_
  have hcheck : failIf (layout.schemaVersion != layout.schemaVersion)
      (.failedPrecondition "schema section version mismatch") = .ok () := by simp
  refine (Reads.lift hcheck).bind ?_
  refine (readInt_reads (UInt32.ofNat layout.fields.length)).bind ?_
  rw [hn]
  rw [← foldl_withField]
  refine Reads.iterate withField _ hparts ?_
  intro done field rest enc hsplit hserialized
  rw [foldl_withField]
  refine serializeField_reads hserialized ?_
  rw [hsplit] at hfields
  rw [addField_sectionSchema hfields,sectionSchema_snoc]

/-- What the parser compiles from the section of a layout without defaults. -/
theorem compile_sectionSchema {schema : RuntimeSchema} (hr : schema.Reachable)
    (hnone : ∀ field ∈ schema.activeFields, field.defaultValue = .monostate) :
    compile (sectionSchema (compile schema).schemaVersion (compile schema).fields) =
      compile schema := by
  have hspec : (compile schema).fields.map FieldLayout.sectionSpec = sortedFields schema := by
    rw [compile_fields]
    nth_rewrite 2 [← List.map_id (sortedFields schema)]
    refine List.map_congr_left ?_
    intro field hfield
    have hactive := mem_sortedFields.mp hfield
    have hdeleted := not_deleted_of_valid (hr.accepted.valid field hactive)
    rw [FieldSpec.withoutDefault,← hnone field hactive,← hdeleted]
    rfl
  refine compile_congr rfl ?_
  rw [sortedFields,sectionSchema,hspec]
  exact List.Pairwise.insertionSort_eq (List.pairwise_insertionSort _ _)

/-- The schema that the parser reads from the section of a compiled layout. -/
theorem readSchema_serialized {schema : RuntimeSchema} (hr : schema.Reachable) {bytes : Bytes}
    (hs : serializeSchema (compile schema) = .ok bytes) :
    readSchema (compile schema).schemaVersion bytes 0 =
      .ok (sectionSchema (compile schema).schemaVersion (compile schema).fields,bytes.length) := by
  have hread := serializeSchema_reads (compile_accepted hr.accepted) hs [] []
  simpa only [List.append_nil,List.nil_append,List.length_nil,Nat.zero_add] using hread

theorem parseSchemaSection_serialized {schema : RuntimeSchema} (hr : schema.Reachable)
    (hnone : ∀ field ∈ schema.activeFields, field.defaultValue = .monostate) {bytes : Bytes}
    (hs : serializeSchema (compile schema) = .ok bytes) :
    parseSchemaSection bytes (compile schema).schemaVersion (compile schema).layoutFingerprint =
      .ok (compile schema) := by
  simp [parseSchemaSection,readSchema_serialized hr hs,compile_sectionSchema hr hnone]

/-- A schema section holds a layout exactly when none of its fields has a default: the
section has no place for the defaults, which the fingerprint covers. -/
theorem schemaSection_roundTrip_iff {schema : RuntimeSchema} (hr : schema.Reachable) {bytes : Bytes}
    (hs : serializeSchema (compile schema) = .ok bytes) :
    parseSchemaSection bytes (compile schema).schemaVersion (compile schema).layoutFingerprint =
      .ok (compile schema) ↔
        ∀ field ∈ schema.activeFields, field.defaultValue = .monostate := by
  constructor
  · intro hparse field hfield
    simp only [parseSchemaSection,readSchema_serialized hr hs,ok_bind,bind_eq_ok,failIf_eq_ok,
      exists_const,pure_eq_ok,Except.ok.injEq] at hparse
    have hdefaults := compile_defaults
      (sectionSchema (compile schema).schemaVersion (compile schema).fields)
    rw [hparse.2.2,compile_defaults schema] at hdefaults
    have hmem : field.defaultValue ∈ (sortedFields schema).map (·.defaultValue) :=
      List.mem_map_of_mem (mem_sortedFields.mpr hfield)
    rw [hdefaults] at hmem
    obtain ⟨parsed,hparsed,hvalue⟩ := List.mem_map.mp hmem
    obtain ⟨source,-,rfl⟩ := List.mem_map.mp (mem_sortedFields.mp hparsed)
    exact hvalue.symm
  · intro hnone
    exact parseSchemaSection_serialized hr hnone hs

def fieldSchema (field : FieldSpec) : RuntimeSchema where
  version := 1
  activeFields := [field]

theorem fieldSchema_reachable {field : FieldSpec} (h : validateEncodingPolicy field = .ok ()) :
    (fieldSchema field).Reachable := by
  refine @RuntimeSchema.Reachable.addField { version := 1 } _ field (.create 1) ?_
  rw [RuntimeSchema.addField,h]
  rfl

/-- A string field without a default, and an integer field with one. -/
def plainField : FieldSpec := { fieldId := 7,name := [97],type := .kString,encoding := .kArena }

def defaultedField : FieldSpec := { fieldId := 7,name := [97],defaultValue := .int64 5 }

theorem schemaSection_roundTrip_sample :
    (fieldSchema plainField).Reachable ∧
    ∃ bytes, serializeSchema (compile (fieldSchema plainField)) = .ok bytes ∧
      parseSchemaSection bytes (compile (fieldSchema plainField)).schemaVersion
        (compile (fieldSchema plainField)).layoutFingerprint =
          .ok (compile (fieldSchema plainField)) := by
  have hr : (fieldSchema plainField).Reachable := fieldSchema_reachable (by decide)
  exact ⟨hr,_,rfl,(schemaSection_roundTrip_iff hr rfl).mpr (by simp [fieldSchema,plainField])⟩

/-- The parser compiles a layout without the default, and rejects the section for its
fingerprint. -/
theorem schemaSection_rejects_default :
    (fieldSchema defaultedField).Reachable ∧
    ∃ bytes, serializeSchema (compile (fieldSchema defaultedField)) = .ok bytes ∧
      parseSchemaSection bytes (compile (fieldSchema defaultedField)).schemaVersion
        (compile (fieldSchema defaultedField)).layoutFingerprint =
          .error (.failedPrecondition "schema layout fingerprint mismatch") := by
  have hr : (fieldSchema defaultedField).Reachable := fieldSchema_reachable (by decide)
  exact ⟨hr,_,rfl,by decide +kernel⟩

end Artifact
end KvIndex
