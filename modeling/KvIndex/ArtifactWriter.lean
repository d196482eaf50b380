import KvIndex.SnapshotRows

/-! The artifact writer (`artifact/artifact_writer.cc`): the file starts as an empty
header and directory, the sections are appended, and the header and the directory are
written over it at the end. -/
namespace KvIndex
namespace Artifact

open Base LittleEndian

/-- The rows of `ArtifactRow` have the fields of a snapshot row. -/
structure ArtifactShardBuildSpec where
  shardId : UInt32 := 0
  rows : List SnapshotRow := []

/-- The entries of `ArtifactSourceProgressBuildSpec` have the fields of the parsed ones. -/
structure ArtifactBuildSpec where
  artifactId : Bytes := []
  shardCount : UInt32 := 1
  hashSeed : UInt64 := 0
  hashVersion : UInt32 := 1
  layout : Option CompiledRowLayout := none
  includeSourceProgressSection : Bool := true
  sourceProgress : List ArtifactSourceProgress := []
  shards : List ArtifactShardBuildSpec := []

/-- The bytes that `AppendString` appends. -/
def appendString (value : Bytes) : StatusOr Bytes := do
  failIf (value.length > uint32Max) (.invalidArgument "artifact string is too large")
  return toBytes (UInt32.ofNat value.length)++value

def appendCounted {α : Type} (append : α → StatusOr Bytes) (message : String) (values : List α) :
    StatusOr Bytes := do
  failIf (values.length > uint32Max) (.invalidArgument message)
  let parts ← values.mapM append
  return toBytes (UInt32.ofNat values.length)++parts.flatten

def serializeField (field : FieldLayout) : StatusOr Bytes := do
  let name ← appendString field.name
  return toBytes field.fieldId++([field.type.raw,if field.isList then 1 else 0,
    if field.nullable then 1 else 0,field.encoding.raw]++name)

def serializeSchema (layout : CompiledRowLayout) : StatusOr Bytes := do
  let fields ← appendCounted serializeField "artifact has too many fields" layout.fields
  return toBytes layout.schemaVersion++fields

def serializeSourceProgressEntry (entry : ArtifactSourceProgress) : StatusOr Bytes := do
  let topic ← appendString entry.topic
  return topic++(toBytes entry.partition++(toBytes entry.checkpointNextOffset++
    toBytes entry.highWatermark))

def serializeSourceProgress (progress : List ArtifactSourceProgress) : StatusOr Bytes :=
  appendCounted serializeSourceProgressEntry "too many source progress entries" progress

def appendBlob (blob : Bytes) : StatusOr Bytes := do
  failIf (blob.length > uint64Max) (.invalidArgument "blob is too large")
  return toBytes (UInt64.ofNat blob.length)++blob

def appendStringList (values : List Bytes) : StatusOr Bytes :=
  appendCounted appendString "string list is too large" values

def serializeRowPayload (payload : OwnedSnapshotRowPayload) : StatusOr Bytes := do
  let arena ← appendBlob payload.arena
  let strings ← appendStringList payload.stringDictionary
  let scalarLists ← appendCounted appendBlob "scalar list dictionary is too large"
    payload.scalarListDictionary
  let stringLists ← appendCounted appendStringList "string list dictionary is too large"
    payload.stringListDictionary
  let stringElements ← appendStringList payload.stringElementDictionary
  return arena++(strings++(scalarLists++(stringLists++stringElements)))

def serializeRowPayloads (payloads : List OwnedSnapshotRowPayload) : StatusOr Bytes := do
  failIf (payloads.length > uint64Max) (.invalidArgument "too many payloads")
  let parts ← payloads.mapM serializeRowPayload
  return toBytes (UInt64.ofNat payloads.length)++parts.flatten

/-- The file so far, with the sections that were added to it. -/
structure ArtifactFile where
  file : Bytes
  sections : List ArtifactSection := []

def addSection (artifact : ArtifactFile) (type : ArtifactSectionType) (shardId : UInt32)
    (payload : Bytes) : ArtifactFile where
  file := artifact.file++payload
  sections := artifact.sections++[{
    type,shardId,offset := UInt64.ofNat artifact.file.length
    length := UInt64.ofNat payload.length,checksum := fnv1a64 payload }]

def buildShardSnapshot (spec : ArtifactBuildSpec) (shard : ArtifactShardBuildSpec) :
    StatusOr OwnedSnapshotBacking := do
  let builder : SnapshotBuilder := {
    layout := spec.layout,options := { hashSeed := spec.hashSeed,hashVersion := spec.hashVersion } }
  let builder ← shard.rows.foldlM (fun builder row => builder.addRow row.primaryKey row.encoded)
    builder
  builder.sealSnapshot

def poolTypes : List ArtifactSectionType :=
  [.kStringPools,.kScalarListPools,.kStringListPools,.kStringElementPools]

def addShard (spec : ArtifactBuildSpec) (artifact : ArtifactFile) (shard : ArtifactShardBuildSpec) :
    StatusOr ArtifactFile := do
  let backing ← buildShardSnapshot spec shard
  let artifact := addSection artifact .kFrozenPrimaryKeyIndex shard.shardId backing.frozenIndexBytes
  let artifact := addSection artifact .kRowSlots shard.shardId backing.rowSlotBytes
  let rowArena ← serializeRowPayloads backing.rowPayloads
  let artifact := addSection artifact .kRowArena shard.shardId rowArena
  return poolTypes.foldl (fun artifact type => addSection artifact type shard.shardId [0]) artifact

/-- The check of the shard selection, with the shards seen so far. -/
def checkSelection (shardCount : UInt32) : List UInt32 → List ArtifactShardBuildSpec → StatusOr Unit
  | _, [] => .ok ()
  | seen, shard::shards => do
    failIf (shard.shardId ≥ shardCount) (.invalidArgument "artifact shard id is out of range")
    failIf (seen.contains shard.shardId) (.invalidArgument "duplicate artifact shard spec")
    checkSelection shardCount (shard.shardId::seen) shards

/-- The number of sections, as the 32-bit number that the header holds. -/
def sectionCountOf (spec : ArtifactBuildSpec) (selected : List ArtifactShardBuildSpec) : UInt32 :=
  UInt32.ofNat (1+(if spec.includeSourceProgressSection then 1 else 0)+selected.length*7)

/-- The file before its sections; its size is computed in 32 bits. -/
def emptyFile (sectionCount : UInt32) : Bytes :=
  List.replicate ((kArtifactHeaderSize+sectionCount.toNat*kArtifactSectionEntrySize)%2^32) 0

/-- The header fields with their offsets, in the order they are written. -/
def headerFields (spec : ArtifactBuildSpec) (layout : CompiledRowLayout) (sectionCount : UInt32) :
    List (ℕ×Bytes) :=
  [(kMagicOffset,toBytes kArtifactMagic),(kVersionOffset,toBytes kArtifactFormatVersion),
    (kHeaderSizeOffset,toBytes (UInt32.ofNat kArtifactHeaderSize)),
    (kEntrySizeOffset,toBytes (UInt32.ofNat kArtifactSectionEntrySize)),
    (kSectionCountOffset,toBytes sectionCount),(kChecksumAlgorithmOffset,toBytes kFnv1a64),
    (kShardCountOffset,toBytes spec.shardCount),(kHashSeedOffset,toBytes spec.hashSeed),
    (kHashVersionOffset,toBytes spec.hashVersion),
    (kSchemaVersionOffset,toBytes layout.schemaVersion),
    (kLayoutFingerprintOffset,toBytes layout.layoutFingerprint),
    (kArtifactIdLengthOffset,toBytes (UInt32.ofNat spec.artifactId.length)),
    (kArtifactIdOffset,spec.artifactId)]

/-- The fields of directory entry `i`. -/
def entryFields (i : ℕ) (entry : ArtifactSection) : List (ℕ×Bytes) :=
  let offset := kArtifactHeaderSize+i*kArtifactSectionEntrySize
  [(offset+kEntryTypeOffset,toBytes entry.type.raw),(offset+kEntryShardIdOffset,toBytes entry.shardId),
    (offset+kEntryFileOffsetOffset,toBytes entry.offset),
    (offset+kEntryLengthOffset,toBytes entry.length),
    (offset+kEntryChecksumOffset,toBytes entry.checksum)]

/-- The sections of the file: schema, source progress and the selected shards. -/
def addSections (spec : ArtifactBuildSpec) (layout : CompiledRowLayout)
    (selected : List ArtifactShardBuildSpec) (artifact : ArtifactFile) : StatusOr ArtifactFile := do
  let schema ← serializeSchema layout
  let artifact := addSection artifact .kSchemaMetadata kArtifactGlobalShardId schema
  let artifact ←
    if spec.includeSourceProgressSection then
      (serializeSourceProgress spec.sourceProgress).map fun progress =>
        addSection artifact .kSourceProgress kArtifactGlobalShardId progress
    else .ok artifact
  selected.foldlM (addShard spec) artifact

/-- `WriteArtifactWithShards`, up to the write of the file. -/
def writeArtifactWithShards (spec : ArtifactBuildSpec) (selected : List ArtifactShardBuildSpec) :
    StatusOr Bytes :=
  match spec.layout with
  | none => .error (.invalidArgument "artifact layout is required")
  | some layout => do
    failIf (spec.artifactId.length > kArtifactIdCapacity)
      (.invalidArgument "artifact id is too long")
    failIf (spec.shardCount == 0) (.invalidArgument "artifact shard count must be non-zero")
    failIf selected.isEmpty (.invalidArgument "artifact shard selection is empty")
    checkSelection spec.shardCount [] selected
    let sectionCount := sectionCountOf spec selected
    let artifact ← addSections spec layout selected { file := emptyFile sectionCount }
    failIf (artifact.sections.length != sectionCount.toNat)
      (.internal "artifact section count mismatch")
    let file ← (headerFields spec layout sectionCount).foldlM writeBytesAt artifact.file
    (artifact.sections.mapIdx entryFields).flatten.foldlM writeBytesAt file

def writeArtifact (spec : ArtifactBuildSpec) : StatusOr Bytes := do
  failIf (spec.shards.length != spec.shardCount.toNat)
    (.invalidArgument "artifact shard specs are incomplete")
  writeArtifactWithShards spec spec.shards

def writeArtifactShard (spec : ArtifactBuildSpec) (shardId : UInt32) : StatusOr Bytes :=
  match spec.shards.find? fun shard => shard.shardId == shardId with
  | none => .error (.invalidArgument "requested artifact shard spec is missing")
  | some shard => writeArtifactWithShards spec [shard]

end Artifact
end KvIndex
