import KvIndex.ArtifactFormat
import KvIndex.FrozenIndex
import KvIndex.RowStorage

/-! Immutable row snapshots: the owned and the mapped backing, the enumeration of
their rows, the view that looks a key up, and the builder (`store/snapshot.cc`,
`store/snapshot_builder.cc` and `artifact/mmap_snapshot_backing.cc`). -/
namespace KvIndex

open Base LittleEndian

structure OwnedSnapshotRowPayload where
  arena : Bytes := []
  stringDictionary : List Bytes := []
  scalarListDictionary : List Bytes := []
  stringListDictionary : List (List Bytes) := []
  stringElementDictionary : List Bytes := []
  deriving DecidableEq

structure SnapshotRow where
  primaryKey : UInt64
  encoded : EncodedRow
  deriving DecidableEq

structure OwnedSnapshotBacking where
  layout : Option CompiledRowLayout
  frozenIndexBytes : Bytes
  rowSlotBytes : Bytes
  rowPayloads : List OwnedSnapshotRowPayload
  deriving DecidableEq

def encodedRowOf (layout : CompiledRowLayout) (rowSlot : Bytes) (payload : OwnedSnapshotRowPayload) :
    EncodedRow where
  schemaVersion := layout.schemaVersion
  layoutFingerprint := layout.layoutFingerprint
  rowSlot := rowSlot
  arena := payload.arena
  stringDictionary := payload.stringDictionary
  scalarListDictionary := payload.scalarListDictionary
  stringListDictionary := payload.stringListDictionary
  stringElementDictionary := payload.stringElementDictionary

def OwnedSnapshotBacking.encodedRowAt (backing : OwnedSnapshotBacking) (rowOffset : UInt64) :
    StatusOr EncodedRow :=
  match backing.layout with
  | none => .error (.failedPrecondition "snapshot backing has no row layout")
  | some layout => do
    let rowSlotSize := layout.rowSlotSize
    failIf (rowSlotSize == 0) (.invalidArgument "snapshot row slot size is zero")
    failIf (rowOffset.toNat > backing.rowSlotBytes.length)
      (.invalidArgument "snapshot row offset is out of bounds")
    let offset := rowOffset.toNat
    failIf (backing.rowSlotBytes.length-offset < rowSlotSize)
      (.invalidArgument "snapshot row slot is truncated")
    failIf (offset%rowSlotSize != 0)
      (.invalidArgument "snapshot row offset is not slot aligned")
    match backing.rowPayloads[offset/rowSlotSize]? with
    | none => .error (.invalidArgument "snapshot row payload is missing")
    | some payload =>
      return encodedRowOf layout (slice backing.rowSlotBytes offset rowSlotSize) payload

namespace Artifact

def readMmapString : Reader Bytes := readString "mmap row string is truncated"

def readBlob : Reader Bytes := do
  let length ← readInt UInt64
  ByteReader.failWhen (fun bytes cursor =>
    cursor > bytes.length || bytes.length-cursor < length.toNat)
    (.invalidArgument "mmap row blob is truncated")
  ByteReader.take length.toNat

def readStringList : Reader (List Bytes) := do
  let count ← readInt UInt32
  ByteReader.many count.toNat readMmapString

def readPayload : Reader OwnedSnapshotRowPayload := do
  let arena ← readBlob
  let stringDictionary ← readStringList
  let scalarListCount ← readInt UInt32
  let scalarListDictionary ← ByteReader.many scalarListCount.toNat readBlob
  let stringListCount ← readInt UInt32
  let stringListDictionary ← ByteReader.many stringListCount.toNat readStringList
  let stringElementDictionary ← readStringList
  return {
    arena,stringDictionary,scalarListDictionary,stringListDictionary,stringElementDictionary }

/-- The row loop of `ReadPayloadAt`: it stops at the wanted row. -/
def scanPayloads (wantedIndex : ℕ) : ℕ → ℕ → Reader OwnedSnapshotRowPayload
  | 0, _ => ByteReader.fail (.internal "mmap row payload scan missed requested row")
  | remaining+1, rowIndex => do
    let payload ← readPayload
    if rowIndex = wantedIndex then return payload
    scanPayloads wantedIndex remaining (rowIndex+1)

def readPayloadAt (bytes : Bytes) (wantedIndex : ℕ) : StatusOr OwnedSnapshotRowPayload := do
  let rowCount ← readLittleEndian UInt64 bytes 0
  failIf (wantedIndex ≥ rowCount.toNat)
    (.invalidArgument "mmap row payload index is out of bounds")
  let (payload,_) ← scanPayloads wantedIndex rowCount.toNat 0 bytes 8
  return payload

def validatePayloadRowCount (bytes : Bytes) (expectedRowCount : ℕ) : StatusOr Unit := do
  let rowCount ← readLittleEndian UInt64 bytes 0
  failIf (rowCount.toNat != expectedRowCount)
    (.failedPrecondition "mmap row payload count mismatch")
  failIf (expectedRowCount == 0 && bytes.length != 8)
    (.invalidArgument "empty mmap payload section has trailing data")
  if expectedRowCount > 0 then
    let _ ← readPayloadAt bytes (expectedRowCount-1)
    return ()

/-- `sectionSort` is no member of the source: it stands for the `std::sort` of the parser. -/
structure MmapSnapshotLoadOptions where
  expectedShardCount : UInt32 := 0
  expectedHashSeed : UInt64 := 0
  expectedHashVersion : UInt32 := 0
  sourceProgressPolicy : ArtifactSourceProgressPolicy := .kRequired
  sectionSort : SectionSort := .stable

structure MmapSnapshotBacking where
  artifact : ParsedArtifact
  shardId : UInt32
  frozenIndexBytes : Bytes
  rowSlotBytes : Bytes
  rowPayloadBytes : Bytes
  prewarmSections : List Bytes
  deriving DecidableEq

def shardSectionTypes : List ArtifactSectionType :=
  [.kFrozenPrimaryKeyIndex,.kRowSlots,.kRowArena,.kStringPools,.kScalarListPools,
    .kStringListPools,.kStringElementPools]

def requireSection (artifact : ParsedArtifact) (type : ArtifactSectionType) (shardId : UInt32) :
    StatusOr Bytes :=
  match findSection artifact.sections type shardId with
  | none => .error (.invalidArgument "required shard artifact section missing")
  | some entry => .ok (sectionBytes artifact.bytes entry)

/-- `LoadShard` on the bytes of the artifact file, once they are mapped. -/
def MmapSnapshotBacking.loadShard (bytes : Bytes) (shardId : UInt32)
    (options : MmapSnapshotLoadOptions) : StatusOr MmapSnapshotBacking := do
  failIf bytes.isEmpty (.invalidArgument "artifact file is empty")
  let artifact ← parseArtifactWith options.sectionSort.run bytes {
    expectedShardCount := options.expectedShardCount
    expectedHashSeed := options.expectedHashSeed
    expectedHashVersion := options.expectedHashVersion
    sourceProgressPolicy := options.sourceProgressPolicy }
  failIf (shardId ≥ artifact.shardCount) (.invalidArgument "requested shard id is out of range")
  let index ← requireSection artifact .kFrozenPrimaryKeyIndex shardId
  let rowSlots ← requireSection artifact .kRowSlots shardId
  let rowPayloads ← requireSection artifact .kRowArena shardId
  let rowSlotSize := artifact.layout.rowSlotSize
  failIf (rowSlotSize == 0 || rowSlots.length%rowSlotSize != 0)
    (.invalidArgument "mmap row slot section is misaligned")
  validatePayloadRowCount rowPayloads (rowSlots.length/rowSlotSize)
  let prewarmSections ← shardSectionTypes.mapM fun type => requireSection artifact type shardId
  return {
    artifact,shardId,frozenIndexBytes := index,rowSlotBytes := rowSlots
    rowPayloadBytes := rowPayloads,prewarmSections }

def MmapSnapshotBacking.encodedRowAt (backing : MmapSnapshotBacking) (rowOffset : UInt64) :
    StatusOr EncodedRow := do
  let layout := backing.artifact.layout
  let rowSlotSize := layout.rowSlotSize
  failIf (rowSlotSize == 0) (.invalidArgument "mmap row slot size is zero")
  failIf (rowOffset.toNat > backing.rowSlotBytes.length)
    (.invalidArgument "mmap row offset is out of bounds")
  let offset := rowOffset.toNat
  failIf (backing.rowSlotBytes.length-offset < rowSlotSize)
    (.invalidArgument "mmap row slot is truncated")
  failIf (offset%rowSlotSize != 0) (.invalidArgument "mmap row offset is not slot aligned")
  let payload ← readPayloadAt backing.rowPayloadBytes (offset/rowSlotSize)
  return encodedRowOf layout (slice backing.rowSlotBytes offset rowSlotSize) payload

end Artifact

/-- The two implementations of `SnapshotBacking`. -/
inductive SnapshotBacking
  | owned (backing : OwnedSnapshotBacking)
  | mmap (backing : Artifact.MmapSnapshotBacking)
  deriving DecidableEq

namespace SnapshotBacking

def layout : SnapshotBacking → Option CompiledRowLayout
  | owned backing => backing.layout
  | mmap backing => some backing.artifact.layout

def frozenIndexBytes : SnapshotBacking → Bytes
  | owned backing => backing.frozenIndexBytes
  | mmap backing => backing.frozenIndexBytes

def encodedRowAt : SnapshotBacking → UInt64 → StatusOr EncodedRow
  | owned backing => backing.encodedRowAt
  | mmap backing => backing.encodedRowAt

end SnapshotBacking

def enumerateSnapshotRows (backing : SnapshotBacking) : StatusOr (List SnapshotRow) := do
  let index ← FrozenPrimaryKeyIndexView.validate backing.frozenIndexBytes
  let entries ← index.entries
  entries.mapM fun entry => do
    let encoded ← backing.encodedRowAt entry.rowOffset
    return { primaryKey := entry.primaryKey,encoded }

/-- `ImmutableRowSnapshotView::Get`; the index is validated when the view is made. -/
def snapshotGet (backing : Option SnapshotBacking) (primaryKey : UInt64) :
    StatusOr (Option Row) :=
  match backing with
  | none => .error (.failedPrecondition "snapshot view has no backing")
  | some backing => do
    let index ← FrozenPrimaryKeyIndexView.validate backing.frozenIndexBytes
    match ← index.lookup primaryKey with
    | none => return none
    | some rowOffset =>
      let encoded ← backing.encodedRowAt rowOffset
      let row ← Model.materializeRow? backing.layout encoded
      return some row

structure FullSnapshotView where
  backing : Option SnapshotBacking
  deriving DecidableEq

structure CompactDeltaSnapshot where
  backing : Option OwnedSnapshotBacking
  deriving DecidableEq

def FullSnapshotView.get (view : FullSnapshotView) (primaryKey : UInt64) : StatusOr (Option Row) :=
  snapshotGet view.backing primaryKey

def CompactDeltaSnapshot.get (view : CompactDeltaSnapshot) (primaryKey : UInt64) :
    StatusOr (Option Row) :=
  snapshotGet (view.backing.map .owned) primaryKey

structure SnapshotBuildOptions where
  hashSeed : UInt64 := 0
  hashVersion : UInt32 := 1

structure SnapshotBuilder where
  layout : Option CompiledRowLayout
  options : SnapshotBuildOptions := {}
  rowSlotBytes : Bytes := []
  rowPayloads : List OwnedSnapshotRowPayload := []
  primaryKeys : List UInt64 := []
  indexEntries : List FrozenPrimaryKeyIndexEntry := []

namespace SnapshotBuilder

/-- The builder after `AddRow`; a rejected call leaves it as it was. -/
def addRow (builder : SnapshotBuilder) (primaryKey : UInt64) (encoded : EncodedRow) :
    StatusOr SnapshotBuilder :=
  match builder.layout with
  | none => .error (.failedPrecondition "snapshot builder has no row layout")
  | some layout => do
    failIf (encoded.schemaVersion != layout.schemaVersion ||
        encoded.layoutFingerprint != layout.layoutFingerprint)
      (.failedPrecondition "encoded row metadata does not match snapshot layout")
    failIf (encoded.rowSlot.length < layout.rowSlotSize)
      (.invalidArgument "encoded row slot is shorter than snapshot layout")
    failIf (builder.primaryKeys.contains primaryKey)
      (.invalidArgument "duplicate primary key in snapshot build")
    failIf (builder.rowSlotBytes.length > uint64Max)
      (.invalidArgument "snapshot row arena is too large")
    let rowOffset := UInt64.ofNat builder.rowSlotBytes.length
    return { builder with
      rowSlotBytes := builder.rowSlotBytes++encoded.rowSlot.take layout.rowSlotSize
      rowPayloads := builder.rowPayloads++[{
        arena := encoded.arena,stringDictionary := encoded.stringDictionary
        scalarListDictionary := encoded.scalarListDictionary
        stringListDictionary := encoded.stringListDictionary
        stringElementDictionary := encoded.stringElementDictionary }]
      primaryKeys := builder.primaryKeys++[primaryKey]
      indexEntries := builder.indexEntries++[{ primaryKey,rowOffset }] }

def sealSnapshot (builder : SnapshotBuilder) : StatusOr OwnedSnapshotBacking :=
  match builder.layout with
  | none => .error (.failedPrecondition "snapshot builder has no row layout")
  | some layout => do
    let indexBytes ← FrozenIndex.buildFrozenPrimaryKeyIndex builder.indexEntries {
      hashSeed := builder.options.hashSeed,hashVersion := builder.options.hashVersion }
    return {
      layout := some layout,frozenIndexBytes := indexBytes,rowSlotBytes := builder.rowSlotBytes
      rowPayloads := builder.rowPayloads }

end SnapshotBuilder
end KvIndex
