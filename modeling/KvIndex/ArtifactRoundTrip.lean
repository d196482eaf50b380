import KvIndex.RealtimeTable
import KvIndex.RowArena
import KvIndex.WrittenArtifact

/-! Write, parse and read. Parsing a written artifact gives back what its spec says, and the
mapped snapshot of each shard answers every lookup as the snapshot that was built. -/
namespace KvIndex
namespace Artifact

open Base LittleEndian CompiledRowLayout

/-- The expectations of a reader that an artifact of the spec meets. -/
structure Matches (spec : ArtifactBuildSpec) (options : ArtifactValidationOptions) : Prop where
  shardCount : options.expectedShardCount = 0 ∨ options.expectedShardCount = spec.shardCount
  hashVersion : options.expectedHashVersion = 0 ∨ options.expectedHashVersion = spec.hashVersion
  hashSeed : options.expectedHashSeed = spec.hashSeed
  progress : spec.includeSourceProgressSection = true ∨ options.sourceProgressPolicy = .kOptional

theorem Matches.expected {spec : ArtifactBuildSpec} {options : ArtifactValidationOptions}
    (h : Matches spec options) (selected : List ArtifactShardBuildSpec)
    (layout : CompiledRowLayout) :
    checkExpectations (writtenHeader spec selected layout) options = .ok () := by
  have hshards : (options.expectedShardCount != 0 &&
      options.expectedShardCount != spec.shardCount) = false := by
    rcases h.shardCount with hzero | heq
    · simp [hzero]
    · simp [heq]
  have hversion : (options.expectedHashVersion != 0 &&
      options.expectedHashVersion != spec.hashVersion) = false := by
    rcases h.hashVersion with hzero | heq
    · simp [hzero]
    · simp [heq]
  simp [checkExpectations,writtenHeader,hshards,hversion,h.hashSeed]

def ArtifactBuildSpec.storedProgress (spec : ArtifactBuildSpec) : List ArtifactSourceProgress :=
  if spec.includeSourceProgressSection then spec.sourceProgress else []

/-- What the spec of a readable artifact looks like. -/
structure Readable (spec : ArtifactBuildSpec) (schema : RuntimeSchema) : Prop where
  layout : spec.layout = some (compile schema)
  reachable : schema.Reachable
  fields : schema.activeFields ≠ []
  noDefaults : ∀ field ∈ schema.activeFields, field.defaultValue = .monostate
  progress : ValidProgress spec.sourceProgress

def partCount (spec : ArtifactBuildSpec) (selected : List ArtifactShardBuildSpec) : ℕ :=
  1+(if spec.includeSourceProgressSection then 1 else 0)+selected.length*7

namespace Written

variable {spec : ArtifactBuildSpec} {selected : List ArtifactShardBuildSpec}
  {layout : CompiledRowLayout} {parts : List SectionPart} {bytes : Bytes}

theorem parts_length (h : Written spec selected layout parts bytes)
    (hn : partCount spec selected < 2^26-2) : parts.length < 2^26-2 := by
  rw [h.sectionCount,sectionCountOf,← partCount,UInt32.toNat_ofNat',Nat.mod_eq_of_lt (by omega)]
  exact hn

theorem schema_part (h : Written spec selected layout parts bytes) :
    ∃ schema, serializeSchema layout = .ok schema ∧
      ⟨.kSchemaMetadata,kArtifactGlobalShardId,schema⟩ ∈ parts := by
  obtain ⟨schema,progress,partss,hschema,-,-,rfl⟩ := h.parts_eq
  exact ⟨schema,hschema,List.mem_cons_self⟩

theorem progress_read (h : Written spec selected layout parts bytes) (hn : parts.length < 2^26-2)
    (hsize : bytes.length ≤ uint64Max) (hvalid : ValidProgress spec.sourceProgress)
    {options : ArtifactValidationOptions} (hmatch : Matches spec options) :
    readProgress bytes (sectionsOf parts) options.sourceProgressPolicy = .ok spec.storedProgress := by
  rw [readProgress,ArtifactBuildSpec.storedProgress]
  have hparts := h.parts_eq
  obtain ⟨schema,progress,partss,-,hprogress,hpartss,hparts⟩ := hparts
  rcases progressParts_eq_ok hprogress with ⟨hinclude,rfl⟩ | ⟨payload,hinclude,hserialized,rfl⟩
  · have hnone : findSection (sectionsOf parts) .kSourceProgress kArtifactGlobalShardId = none := by
      refine h.findSection_eq_none hn hsize ?_
      intro part hpart hkey
      rw [hparts] at hpart
      rcases List.mem_cons.mp hpart with rfl | hpart
      · exact ArtifactSectionType.noConfusion (Prod.mk.inj hkey).1
      · have hmem : part.key ∈ partss.flatten.map SectionPart.key := List.mem_map_of_mem hpart
        rw [flatten_keys hpartss] at hmem
        obtain ⟨shardId,-,hmem⟩ := List.mem_flatMap.mp hmem
        obtain ⟨type,htype,hkey'⟩ := List.mem_map.mp hmem
        rw [hkey] at hkey'
        exact (shardTypes_not_global type htype).2 (Prod.mk.inj hkey').1
    have hoptional := hmatch.progress.resolve_left (by rw [hinclude]; simp)
    simp [hnone,hoptional,hinclude]
  · have hmem : (⟨.kSourceProgress,kArtifactGlobalShardId,payload⟩ : SectionPart) ∈ parts := by
      rw [hparts]
      simp
    obtain ⟨entry,hfind,hplaced⟩ := h.findSection_eq hn hsize hmem
    simp only [hfind,hinclude,if_true,hplaced.payload]
    exact parseSourceProgressSection_serialized hvalid hserialized

/-- A written artifact is accepted, and its parse is what the spec says. -/
theorem described {schema : RuntimeSchema}
    (h : Written spec selected (compile schema) parts bytes) (hn : parts.length < 2^26-2)
    (hsize : bytes.length ≤ uint64Max) (hr : Readable spec schema)
    {options : ArtifactValidationOptions} (hmatch : Matches spec options) :
    Described bytes options (writtenHeader spec selected (compile schema)) (sectionsOf parts)
      (compile schema) spec.storedProgress where
  header_read := h.header hn
  expected := hmatch.expected selected (compile schema)
  directory := by
    rw [h.length_eq hn,h.directoryEnd_eq]
    exact Nat.le_add_right _ _
  sections_read := h.sections_read hn hsize
  checksums := h.checksums hn hsize
  schema_read := by
    obtain ⟨payload,hserialized,hmem⟩ := h.schema_part
    obtain ⟨entry,hfind,hplaced⟩ := h.findSection_eq hn hsize hmem
    refine ⟨entry,hfind,?_⟩
    have hparse := parseSchemaSection_serialized hr.reachable hr.noDefaults hserialized
    rw [hplaced.payload,writtenHeader_schemaVersion,writtenHeader_layoutFingerprint]
    exact hparse
  progress_read := h.progress_read hn hsize hr.progress hmatch

def parsed (spec : ArtifactBuildSpec) (selected : List ArtifactShardBuildSpec)
    (layout : CompiledRowLayout) (parts : List SectionPart) (bytes : Bytes) : ParsedArtifact :=
  parsedArtifact bytes (writtenHeader spec selected layout) (sectionsOf parts) layout
    spec.storedProgress

/-- The directory of the file passes the overlap check in the order that a sort leaves. -/
def InOrder (spec : ArtifactBuildSpec) (selected : List ArtifactShardBuildSpec)
    (layout : CompiledRowLayout) (parts : List SectionPart)
    (sort : List ArtifactSection → List ArtifactSection) : Prop :=
  checkOverlap (directoryEnd (writtenHeader spec selected layout)) (sort (sectionsOf parts)) = .ok ()

theorem parseWith_eq {schema : RuntimeSchema}
    (h : Written spec selected (compile schema) parts bytes) (hn : parts.length < 2^26-2)
    (hsize : bytes.length ≤ uint64Max) (hr : Readable spec schema)
    {sort : List ArtifactSection → List ArtifactSection}
    (hsort : InOrder spec selected (compile schema) parts sort)
    {options : ArtifactValidationOptions} (hmatch : Matches spec options) :
    parseArtifactWith sort bytes options =
      .ok (parsed spec selected (compile schema) parts bytes) :=
  parseArtifactWith_eq_ok.mpr ⟨_,_,_,_,h.described hn hsize hr hmatch,hsort,rfl⟩

theorem parse_eq {schema : RuntimeSchema} (h : Written spec selected (compile schema) parts bytes)
    (hn : parts.length < 2^26-2) (hsize : bytes.length ≤ uint64Max) (hr : Readable spec schema)
    {options : ArtifactValidationOptions} (hmatch : Matches spec options) :
    parseArtifact bytes options = .ok (parsed spec selected (compile schema) parts bytes) :=
  h.parseWith_eq hn hsize hr (h.overlap hn hsize) hmatch

theorem artifactId_eq (h : Written spec selected layout parts bytes) (hn : parts.length < 2^26-2) :
    (parsed spec selected layout parts bytes).artifactId = spec.artifactId := by
  have hid : (UInt32.ofNat spec.artifactId.length).toNat = spec.artifactId.length := by
    have hlen := h.artifactId
    rw [kArtifactIdCapacity] at hlen
    exact uint32_toNat (by rw [uint32Max]; omega)
  have hfield : (kArtifactIdOffset,spec.artifactId) ∈ containerFields spec selected layout parts :=
    List.mem_append_left _ (by simp [headerFields])
  have hslice := h.slice_field hn hfield
  show slice bytes kArtifactIdOffset (UInt32.ofNat spec.artifactId.length).toNat = spec.artifactId
  rw [hid]
  exact hslice

/-- The payload of a part of the file, as `RequireSection` returns it. -/
theorem requireSection_eq (h : Written spec selected layout parts bytes)
    (hn : parts.length < 2^26-2) (hsize : bytes.length ≤ uint64Max) {part : SectionPart}
    (hpart : part ∈ parts) :
    requireSection (parsed spec selected layout parts bytes) part.type part.shardId =
      .ok part.payload := by
  obtain ⟨entry,hfind,hplaced⟩ := h.findSection_eq hn hsize hpart
  have hsections : (parsed spec selected layout parts bytes).sections = sectionsOf parts := rfl
  have hbytes : (parsed spec selected layout parts bytes).bytes = bytes := rfl
  rw [requireSection,hsections,hfind,hbytes]
  exact congrArg Except.ok hplaced.payload

theorem shard_parts (h : Written spec selected layout parts bytes) {shard : ArtifactShardBuildSpec}
    (hshard : shard ∈ selected) :
    ∃ backing rowArena, buildShardSnapshot spec shard = .ok backing ∧
      serializeRowPayloads backing.rowPayloads = .ok rowArena ∧
      ⟨.kFrozenPrimaryKeyIndex,shard.shardId,backing.frozenIndexBytes⟩ ∈ parts ∧
      ⟨.kRowSlots,shard.shardId,backing.rowSlotBytes⟩ ∈ parts ∧
      ⟨.kRowArena,shard.shardId,rowArena⟩ ∈ parts ∧
      ∀ type ∈ poolTypes, ⟨type,shard.shardId,[0]⟩ ∈ parts := by
  obtain ⟨schema,progress,partss,-,-,hpartss,rfl⟩ := h.parts_eq
  obtain ⟨shardParts',hmem,hparts⟩ := exists_of_mem_right hpartss.flip hshard
  have hin : ∀ part ∈ shardParts', part ∈
      (⟨.kSchemaMetadata,kArtifactGlobalShardId,schema⟩::(progress++partss.flatten) :
        List SectionPart) := by
    intro part hpart
    exact List.mem_cons_of_mem _ (List.mem_append_right _ (List.mem_flatten.mpr ⟨_,hmem,hpart⟩))
  simp only [shardParts,bind_eq_ok,pure_eq_ok,Except.ok.injEq] at hparts
  obtain ⟨backing,hbacking,rowArena,harena,rfl⟩ := hparts
  refine ⟨backing,rowArena,hbacking,harena,hin _ (by simp),hin _ (by simp),hin _ (by simp),?_⟩
  intro type htype
  exact hin _ (List.mem_append_right _ (List.mem_map_of_mem htype))

theorem sealSnapshot_eq_ok {builder : SnapshotBuilder} {backing : OwnedSnapshotBacking}
    (h : builder.sealSnapshot = .ok backing) :
    backing.layout = builder.layout ∧ backing.rowSlotBytes = builder.rowSlotBytes ∧
      backing.rowPayloads = builder.rowPayloads ∧
      ∃ options, FrozenIndex.buildFrozenPrimaryKeyIndex builder.indexEntries options =
        .ok backing.frozenIndexBytes := by
  rw [SnapshotBuilder.sealSnapshot] at h
  cases hlayout : builder.layout with
  | none =>
    rw [hlayout] at h
    cases h
  | some layout =>
    simp only [hlayout,bind_eq_ok,pure_eq_ok,Except.ok.injEq] at h
    obtain ⟨indexBytes,hbuild,rfl⟩ := h
    exact ⟨rfl,rfl,rfl,_,hbuild⟩

/-- The row slots and the payloads of a shard are those of its rows. -/
theorem shard_holds {shard : ArtifactShardBuildSpec} {backing : OwnedSnapshotBacking}
    (hlayout : spec.layout = some layout) (hpos : 0 < layout.rowSlotSize)
    (hbuild : buildShardSnapshot spec shard = .ok backing) :
    ∃ builder : SnapshotBuilder, builder.Holds layout shard.rows ∧
      builder.sealSnapshot = .ok backing := by
  simp only [buildShardSnapshot,hlayout,bind_eq_ok] at hbuild
  obtain ⟨builder,hrows,hseal⟩ := hbuild
  have hholds := (SnapshotBuilder.holds_nil layout _).addRows hpos hrows
  rw [List.nil_append] at hholds
  exact ⟨builder,hholds,hseal⟩

theorem loadShard_eq {schema : RuntimeSchema}
    (h : Written spec selected (compile schema) parts bytes) (hn : parts.length < 2^26-2)
    (hsize : bytes.length ≤ uint64Max) (hr : Readable spec schema)
    (options : MmapSnapshotLoadOptions)
    (hsort : InOrder spec selected (compile schema) parts options.sectionSort.run)
    (hmatch : Matches spec {
      expectedShardCount := options.expectedShardCount
      expectedHashSeed := options.expectedHashSeed
      expectedHashVersion := options.expectedHashVersion
      sourceProgressPolicy := options.sourceProgressPolicy })
    {shard : ArtifactShardBuildSpec} (hshard : shard ∈ selected) :
    ∃ backing owned, buildShardSnapshot spec shard = .ok owned ∧
      MmapSnapshotBacking.loadShard bytes shard.shardId options = .ok backing ∧
      backing.artifact = parsed spec selected (compile schema) parts bytes ∧
      backing.frozenIndexBytes = owned.frozenIndexBytes ∧
      backing.rowSlotBytes = owned.rowSlotBytes ∧
      serializeRowPayloads owned.rowPayloads = .ok backing.rowPayloadBytes := by
  obtain ⟨owned,rowArena,hbuild,harena,hindex,hslots,hpayloads,hpools⟩ := h.shard_parts hshard
  obtain ⟨hids,-⟩ := checkSelection_eq_ok h.selection
  have hpos := compile_rowSlotSize_pos hr.fields
  obtain ⟨builder,hholds,hseal⟩ := shard_holds hr.layout hpos hbuild
  obtain ⟨-,hslotsEq,hpayloadsEq,-⟩ := sealSnapshot_eq_ok hseal
  have hrequire : ∀ type payload, ⟨type,shard.shardId,payload⟩ ∈ parts →
      requireSection (parsed spec selected (compile schema) parts bytes) type shard.shardId =
        .ok payload := fun type payload hmem => h.requireSection_eq hn hsize hmem
  have hnonempty : bytes.isEmpty = false := by
    rw [List.isEmpty_eq_false_iff,← List.length_pos_iff,h.length_eq hn,entryStart,
      kArtifactHeaderSize]
    omega
  have hrange : decide (shard.shardId ≥
      (parsed spec selected (compile schema) parts bytes).shardCount) = false := by
    rw [decide_eq_false_iff_not,ge_iff_le,UInt32.not_le]
    exact (hids shard hshard).1
  have hlayout : (parsed spec selected (compile schema) parts bytes).layout = compile schema := rfl
  have haligned : ((compile schema).rowSlotSize == 0 ||
      owned.rowSlotBytes.length%(compile schema).rowSlotSize != 0) = false := by
    rw [hslotsEq,hholds.slots,Nat.mul_mod_left]
    simp only [bne_self_eq_false,Bool.or_false,beq_eq_false_iff_ne]
    omega
  have hcount : owned.rowSlotBytes.length/(compile schema).rowSlotSize =
      owned.rowPayloads.length := by
    rw [hslotsEq,hpayloadsEq,hholds.slots,hholds.payloads,List.length_map,Nat.mul_div_cancel _ hpos]
  obtain ⟨hrows,hempty⟩ := rows_of_serialized harena
  have hvalidate := hrows.validate hempty
  have hprewarm : ∃ sections, (shardSectionTypes.mapM fun type =>
      requireSection (parsed spec selected (compile schema) parts bytes) type shard.shardId) =
        .ok sections := by
    simp only [shardSectionTypes,List.mapM_cons,List.mapM_nil,hrequire _ _ hindex,
      hrequire _ _ hslots,hrequire _ _ hpayloads,
      hrequire _ _ (hpools .kStringPools (by decide)),
      hrequire _ _ (hpools .kScalarListPools (by decide)),
      hrequire _ _ (hpools .kStringListPools (by decide)),
      hrequire _ _ (hpools .kStringElementPools (by decide)),ok_bind,pure_eq_ok]
    exact ⟨_,rfl⟩
  obtain ⟨sections,hprewarm⟩ := hprewarm
  refine ⟨{ artifact := parsed spec selected (compile schema) parts bytes,shardId := shard.shardId
            frozenIndexBytes := owned.frozenIndexBytes,rowSlotBytes := owned.rowSlotBytes
            rowPayloadBytes := rowArena,prewarmSections := sections },owned,hbuild,?_,rfl,rfl,rfl,
    harena⟩
  simp only [MmapSnapshotBacking.loadShard,hnonempty,failIf_false,ok_bind,
    h.parseWith_eq hn hsize hr hsort hmatch,hrange,hrequire _ _ hindex,hrequire _ _ hslots,
    hrequire _ _ hpayloads,hlayout,haligned,hcount,hvalidate,hprewarm,pure_eq_ok]

end Written

theorem StoredAt_mmap {builder : SnapshotBuilder} {layout : CompiledRowLayout}
    {encoded : EncodedRow} {offset : ℕ} (hat : builder.StoredAt layout encoded offset)
    (hpos : 0 < layout.rowSlotSize) {backing : MmapSnapshotBacking}
    (hlayout : backing.artifact.layout = layout)
    (hslots : backing.rowSlotBytes = builder.rowSlotBytes)
    (hpayloads : serializeRowPayloads builder.rowPayloads = .ok backing.rowPayloadBytes) :
    backing.encodedRowAt (UInt64.ofNat offset) = .ok (storedRow layout encoded) := by
  have hfit := hat.fit
  have h1 : (layout.rowSlotSize == 0) = false := by
    rw [beq_eq_false_iff_ne]
    omega
  have h2 : decide (offset > builder.rowSlotBytes.length) = false := by
    rw [decide_eq_false_iff_not]
    omega
  have h3 : decide (builder.rowSlotBytes.length-offset < layout.rowSlotSize) = false := by
    rw [decide_eq_false_iff_not]
    omega
  have h4 : (offset%layout.rowSlotSize != 0) = false := by simp [hat.aligned]
  have hpayload := (rows_of_serialized hpayloads).1.readPayloadAt_eq hat.payload
  simp only [MmapSnapshotBacking.encodedRowAt,hlayout,hslots,hat.toNat,h1,h2,h3,h4,failIf_false,
    ok_bind,hpayload,hat.slot,pure_eq_ok]
  rfl

def ArtifactValidationOptions.loadOptions (options : ArtifactValidationOptions) :
    MmapSnapshotLoadOptions where
  expectedShardCount := options.expectedShardCount
  expectedHashSeed := options.expectedHashSeed
  expectedHashVersion := options.expectedHashVersion
  sourceProgressPolicy := options.sourceProgressPolicy

/-- The mapped snapshot of a shard answers as the snapshot that was built from its rows. -/
theorem Written.mapped_get {spec : ArtifactBuildSpec} {selected : List ArtifactShardBuildSpec}
    {schema : RuntimeSchema} {parts : List SectionPart} {bytes : Bytes}
    (h : Written spec selected (compile schema) parts bytes) (hn : parts.length < 2^26-2)
    (hsize : bytes.length ≤ uint64Max) (hr : Readable spec schema)
    {options : ArtifactValidationOptions} (hmatch : Matches spec options) (sort : SectionSort)
    (hsort : InOrder spec selected (compile schema) parts sort.run)
    {shard : ArtifactShardBuildSpec} (hshard : shard ∈ selected) :
    ∃ mapped owned, MmapSnapshotBacking.loadShard bytes shard.shardId
        { options.loadOptions with sectionSort := sort } = .ok mapped ∧
      buildShardSnapshot spec shard = .ok owned ∧
      (∀ key, (FullSnapshotView.mk (some (.mmap mapped))).get key =
        answer (some (compile schema))
          ((FirstWins.find SnapshotRow.primaryKey shard.rows key).map fun row =>
            storedRow (compile schema) row.encoded)) ∧
      ∀ key, (FullSnapshotView.mk (some (.mmap mapped))).get key =
        (FullSnapshotView.mk (some (.owned owned))).get key := by
  obtain ⟨mapped,owned,hbuild,hload,hartifact,hindex,hslots,hpayloads⟩ :=
    h.loadShard_eq hn hsize hr { options.loadOptions with sectionSort := sort } hsort hmatch hshard
  have hpos := compile_rowSlotSize_pos hr.fields
  obtain ⟨builder,hholds,hseal⟩ := shard_holds hr.layout hpos hbuild
  obtain ⟨-,hslotsEq,hpayloadsEq,buildOptions,hbuildIndex⟩ := sealSnapshot_eq_ok hseal
  have hmapped : ∀ key, snapshotGet (some (.mmap mapped)) key =
      answer (some (compile schema))
        ((FirstWins.find SnapshotRow.primaryKey shard.rows key).map fun row =>
          storedRow (compile schema) row.encoded) := by
    intro key
    have hbuilt : FrozenIndex.buildFrozenPrimaryKeyIndex builder.indexEntries buildOptions =
        .ok (SnapshotBacking.mmap mapped).frozenIndexBytes := by
      rw [hbuildIndex,← hindex]
      rfl
    have hlayout : mapped.artifact.layout = compile schema := by
      rw [hartifact]
      rfl
    refine hholds.snapshotGet hbuilt (congrArg some hlayout) ?_ key
    intro row _ offset hat
    refine StoredAt_mmap hat hpos hlayout (hslots.trans hslotsEq) ?_
    rw [← hpayloadsEq]
    exact hpayloads
  obtain ⟨-,howned⟩ := hholds.sealSnapshot (fun _ _ => hpos) hseal
  refine ⟨mapped,owned,hload,hbuild,hmapped,?_⟩
  intro key
  exact (hmapped key).trans (howned key).symm

theorem writeArtifact_eq_ok {spec : ArtifactBuildSpec} {bytes : Bytes}
    (h : writeArtifact spec = .ok bytes) :
    spec.shards.length = spec.shardCount.toNat ∧
      writeArtifactWithShards spec spec.shards = .ok bytes := by
  simpa only [writeArtifact,bind_eq_ok,failIf_eq_ok,exists_const,bne_eq_false_iff_eq] using h

theorem writeArtifact_written {spec : ArtifactBuildSpec} {schema : RuntimeSchema} {bytes : Bytes}
    (hr : Readable spec schema) (hn : partCount spec spec.shards < 2^26-2)
    (h : writeArtifact spec = .ok bytes) :
    ∃ parts, Written spec spec.shards (compile schema) parts bytes ∧ parts.length < 2^26-2 := by
  obtain ⟨-,hwrite⟩ := writeArtifact_eq_ok h
  obtain ⟨layout,parts,hwritten⟩ := writeArtifactWithShards_written hwrite
  have hlayout : layout = compile schema := by
    have hsame := hwritten.layout_eq
    rw [hr.layout,Option.some.injEq] at hsame
    exact hsame.symm
  subst hlayout
  exact ⟨parts,hwritten,hwritten.parts_length hn⟩

/-- A file that `WriteArtifact` wrote parses to what its spec says, and every shard of it
answers every lookup as the snapshot built from the rows of the shard. -/
theorem writeArtifact_roundTrip {spec : ArtifactBuildSpec} {schema : RuntimeSchema} {bytes : Bytes}
    (hr : Readable spec schema) (hn : partCount spec spec.shards < 2^26-2)
    (h : writeArtifact spec = .ok bytes) (hsize : bytes.length ≤ uint64Max)
    (options : ArtifactValidationOptions) (hmatch : Matches spec options) :
    ∃ parsed, parseArtifact bytes options = .ok parsed ∧
      parsed.artifactId = spec.artifactId ∧ parsed.shardCount = spec.shardCount ∧
      parsed.hashSeed = spec.hashSeed ∧ parsed.hashVersion = spec.hashVersion ∧
      spec.layout = some parsed.layout ∧ parsed.sourceProgress = spec.storedProgress ∧
      ∀ shard ∈ spec.shards, ∃ mapped owned,
        MmapSnapshotBacking.loadShard bytes shard.shardId options.loadOptions = .ok mapped ∧
        buildShardSnapshot spec shard = .ok owned ∧
        ∀ key, (FullSnapshotView.mk (some (.mmap mapped))).get key =
          (FullSnapshotView.mk (some (.owned owned))).get key := by
  obtain ⟨parts,hwritten,hlength⟩ := writeArtifact_written hr hn h
  refine ⟨_,hwritten.parse_eq hlength hsize hr hmatch,hwritten.artifactId_eq hlength,rfl,rfl,rfl,
    hr.layout,rfl,?_⟩
  intro shard hshard
  obtain ⟨mapped,owned,hload,hbuild,-,hget⟩ :=
    hwritten.mapped_get hlength hsize hr hmatch .stable (hwritten.overlap hlength hsize) hshard
  exact ⟨mapped,owned,hload,hbuild,hget⟩

open RealtimeDeltaAtomicTable (sampleLayout sampleCall)

/-- One shard with one row, and a source that was read up to offset 5 of 8. -/
def sampleSpec : ArtifactBuildSpec where
  artifactId := [97]
  layout := some sampleLayout
  sourceProgress := [⟨[116],0,5,8⟩]
  shards := [{ rows := [⟨7,(sampleCall 7 5).encoded⟩] }]

def sampleFile : Bytes := (writeArtifact sampleSpec).toOption.getD []

theorem sampleSpec_composable : Composable sampleSpec sampleLayout sampleSpec.shards :=
  ⟨rfl,by decide,by decide,by decide,rfl,by decide⟩

theorem sampleFile_eq : sampleFile =
    (composeArtifact sampleSpec sampleLayout sampleSpec.shards).toOption.getD [] := by
  rw [sampleFile,sampleSpec_composable.writeArtifact_eq rfl]

/-- The fourth of nine sections is the row slots; the file is evaluated here once for all. -/
theorem sampleFile_evaluated : (writeArtifact sampleSpec).map (fun bytes => (bytes.length,
    (readHeader bytes).toOption.map fun header => (header.shardCount,header.sectionCount.toNat),
    (readSections bytes 1 9 0 []).toOption.bind fun sections => sections[3]?.map fun entry =>
      (entry.offset.toNat,entry.length.toNat),bytes[1126]?)) =
    .ok (1178,some (1,9),some (1126,16),some 1) := by
  rw [sampleSpec_composable.writeArtifact_eq rfl]
  decide +kernel

theorem sampleFile_written : writeArtifact sampleSpec = .ok sampleFile := by
  have hevaluated := sampleFile_evaluated
  rw [sampleFile]
  cases hwrite : writeArtifact sampleSpec with
  | error status =>
    rw [hwrite] at hevaluated
    cases hevaluated
  | ok bytes => rfl

theorem sampleFile_facts : sampleFile.length = 1178 ∧
    (readHeader sampleFile).toOption.map (fun header => (header.shardCount,
      header.sectionCount.toNat)) = some (1,9) ∧
    ((readSections sampleFile 1 9 0 []).toOption.bind fun sections => sections[3]?.map fun entry =>
      (entry.offset.toNat,entry.length.toNat)) = some (1126,16) ∧ sampleFile[1126]? = some 1 := by
  have hevaluated := sampleFile_evaluated
  rw [sampleFile_written,Except.map] at hevaluated
  generalize sampleFile = bytes at hevaluated
  simpa only [Except.ok.injEq,Prod.mk.injEq] using hevaluated

theorem sampleFile_size : sampleFile.length ≤ uint64Max := by
  rw [sampleFile_facts.1]
  decide

theorem sampleSpec_readable : Readable sampleSpec (fieldSchema { fieldId := 1,name := [118] }) where
  layout := rfl
  reachable := fieldSchema_reachable rfl
  fields := by simp [fieldSchema]
  noDefaults := by simp [fieldSchema]
  progress := ⟨by decide,by decide⟩

theorem writeArtifact_roundTrip_sample :
    ∃ parsed, parseArtifact sampleFile {} = .ok parsed ∧ parsed.artifactId = [97] ∧
      ∃ mapped owned, MmapSnapshotBacking.loadShard sampleFile 0 {} = .ok mapped ∧
        ∀ key, (FullSnapshotView.mk (some (.mmap mapped))).get key =
          (FullSnapshotView.mk (some (.owned owned))).get key := by
  obtain ⟨parsed,hparse,hid,-,-,-,-,-,hshards⟩ := writeArtifact_roundTrip sampleSpec_readable
    (by decide) sampleFile_written sampleFile_size {} ⟨Or.inl rfl,Or.inl rfl,rfl,Or.inl rfl⟩
  obtain ⟨mapped,owned,hload,-,hget⟩ := hshards _ List.mem_cons_self
  exact ⟨parsed,hparse,hid,mapped,owned,hload,hget⟩

theorem sampleFile_parses : ∃ parsed, parseArtifact sampleFile {} = .ok parsed := by
  obtain ⟨parts,hwritten,hlength⟩ :=
    writeArtifact_written sampleSpec_readable (by decide) sampleFile_written
  exact ⟨_,hwritten.parse_eq hlength sampleFile_size sampleSpec_readable
    ⟨Or.inl rfl,Or.inl rfl,rfl,Or.inl rfl⟩⟩

end Artifact
end KvIndex
