import KvIndex.ByteReader
import KvIndex.Schema

/-! The artifact container of `artifact/artifact_format.cc`: a fixed header, a
directory of checksummed sections, the schema section and the source progress. -/
namespace KvIndex
namespace Artifact

open Base LittleEndian

def kArtifactMagic : UInt64 := 0x3149564b54524146
def kArtifactFormatVersion : UInt32 := 1
def kArtifactHeaderSize : ℕ := 128
def kArtifactSectionEntrySize : ℕ := 64
def kArtifactGlobalShardId : UInt32 := 0xffffffff

def kMagicOffset : ℕ := 0
def kVersionOffset : ℕ := 8
def kHeaderSizeOffset : ℕ := 12
def kEntrySizeOffset : ℕ := 16
def kSectionCountOffset : ℕ := 20
def kChecksumAlgorithmOffset : ℕ := 24
def kShardCountOffset : ℕ := 28
def kHashSeedOffset : ℕ := 32
def kHashVersionOffset : ℕ := 40
def kSchemaVersionOffset : ℕ := 48
def kLayoutFingerprintOffset : ℕ := 56
def kArtifactIdLengthOffset : ℕ := 64
def kArtifactIdOffset : ℕ := 68
def kArtifactIdCapacity : ℕ := 60
def kEntryTypeOffset : ℕ := 0
def kEntryShardIdOffset : ℕ := 4
def kEntryFileOffsetOffset : ℕ := 8
def kEntryLengthOffset : ℕ := 16
def kEntryChecksumOffset : ℕ := 24

/-- `ArtifactChecksumAlgorithm::kFnv1a64`. -/
def kFnv1a64 : UInt32 := 1

inductive ArtifactSectionType
  | kSchemaMetadata | kSourceProgress | kFrozenPrimaryKeyIndex | kRowSlots | kRowArena
  | kStringPools | kScalarListPools | kStringListPools | kStringElementPools
  deriving DecidableEq

namespace ArtifactSectionType

def raw : ArtifactSectionType → UInt32
  | kSchemaMetadata => 1 | kSourceProgress => 2 | kFrozenPrimaryKeyIndex => 100
  | kRowSlots => 101 | kRowArena => 102 | kStringPools => 103 | kScalarListPools => 104
  | kStringListPools => 105 | kStringElementPools => 106

end ArtifactSectionType

def decodeSectionType (value : UInt32) : StatusOr ArtifactSectionType :=
  if value = 1 then .ok .kSchemaMetadata
  else if value = 2 then .ok .kSourceProgress
  else if value = 100 then .ok .kFrozenPrimaryKeyIndex
  else if value = 101 then .ok .kRowSlots
  else if value = 102 then .ok .kRowArena
  else if value = 103 then .ok .kStringPools
  else if value = 104 then .ok .kScalarListPools
  else if value = 105 then .ok .kStringListPools
  else if value = 106 then .ok .kStringElementPools
  else .error (.invalidArgument "unsupported artifact section type")

theorem decodeSectionType_raw (type : ArtifactSectionType) :
    decodeSectionType type.raw = .ok type := by
  cases type <;> rfl

inductive ArtifactSourceProgressPolicy
  | kRequired | kOptional
  deriving DecidableEq

structure ArtifactValidationOptions where
  expectedShardCount : UInt32 := 0
  expectedHashSeed : UInt64 := 0
  expectedHashVersion : UInt32 := 0
  sourceProgressPolicy : ArtifactSourceProgressPolicy := .kRequired

structure ArtifactSection where
  type : ArtifactSectionType
  shardId : UInt32
  offset : UInt64
  length : UInt64
  checksum : UInt64
  deriving DecidableEq

structure ArtifactSourceProgress where
  topic : Bytes := []
  partition : Int32 := -1
  checkpointNextOffset : Int64 := -1
  highWatermark : Int64 := -1
  deriving DecidableEq

structure ParsedArtifact where
  artifactId : Bytes
  shardCount : UInt32
  hashSeed : UInt64
  hashVersion : UInt32
  schemaVersion : UInt64
  layoutFingerprint : UInt64
  layout : CompiledRowLayout
  sourceProgress : List ArtifactSourceProgress
  sections : List ArtifactSection
  bytes : Bytes
  deriving DecidableEq

def findSection (sections : List ArtifactSection) (type : ArtifactSectionType) (shardId : UInt32) :
    Option ArtifactSection :=
  sections.find? fun entry => entry.type = type ∧ entry.shardId = shardId

def sectionBytes (bytes : Bytes) (entry : ArtifactSection) : Bytes :=
  slice bytes entry.offset.toNat entry.length.toNat

def fnv1a64 (bytes : Bytes) : UInt64 := Schema.fingerprint Schema.kFnvOffsetBasis bytes

def checkBounds (bytes : Bytes) (offset length : UInt64) : StatusOr Unit :=
  failIf (offset.toNat > bytes.length || bytes.length-offset.toNat < length.toNat)
    (.invalidArgument "artifact section is out of bounds")

abbrev Reader := ByteReader Status

/-- `ReadLittleEndian` at the cursor, which moves behind the integer. -/
def readInt (T : Type) [LittleEndianInteger T] : Reader T := fun bytes cursor =>
  (readLittleEndian T bytes cursor).map fun value => (value,cursor+size T)

/-- `ReadString`, with the message of the file it stands in. -/
def readString (message : String) : Reader Bytes := do
  let length ← readInt UInt32
  ByteReader.failWhen (fun bytes cursor =>
    cursor > bytes.length || bytes.length-cursor < length.toNat) (.invalidArgument message)
  ByteReader.take length.toNat

def readArtifactString : Reader Bytes := readString "artifact string is truncated"

/-- One round of the field loop of `ParseSchemaSection`. -/
def readSchemaField (schema : RuntimeSchema) : Reader RuntimeSchema := do
  let fieldId ← readInt UInt32
  ByteReader.failWhen (fun bytes cursor => cursor+4 > bytes.length)
    (.invalidArgument "schema field entry is truncated")
  let entry ← ByteReader.take 4
  let name ← readArtifactString
  ByteReader.lift (schema.addField {
    fieldId,name,type := FieldType.ofRaw (entry.getD 0 0),isList := entry.getD 1 0 != 0
    nullable := entry.getD 2 0 != 0,encoding := FieldEncoding.ofRaw (entry.getD 3 0) })

def readSchema (expectedSchemaVersion : UInt64) : Reader RuntimeSchema := do
  let schemaVersion ← readInt UInt64
  ByteReader.lift (failIf (schemaVersion != expectedSchemaVersion)
    (.failedPrecondition "schema section version mismatch"))
  let fieldCount ← readInt UInt32
  ByteReader.iterate fieldCount.toNat readSchemaField { version := schemaVersion }

def parseSchemaSection (bytes : Bytes) (expectedSchemaVersion expectedLayoutFingerprint : UInt64) :
    StatusOr CompiledRowLayout := do
  let (schema,offset) ← readSchema expectedSchemaVersion bytes 0
  failIf (offset != bytes.length) (.invalidArgument "schema section has trailing bytes")
  let layout := CompiledRowLayout.compile schema
  failIf (layout.layoutFingerprint != expectedLayoutFingerprint)
    (.failedPrecondition "schema layout fingerprint mismatch")
  return layout

/-- One round of the entry loop of `ParseSourceProgressSection`. -/
def readSourceProgressEntry (progress : List ArtifactSourceProgress) :
    Reader (List ArtifactSourceProgress) := do
  let topic ← readArtifactString
  let partition ← readInt Int32
  let checkpoint ← readInt Int64
  let highWatermark ← readInt Int64
  ByteReader.lift (failIf
    (topic.isEmpty || partition < 0 || checkpoint < 0 || highWatermark < checkpoint)
    (.invalidArgument "invalid source progress entry"))
  ByteReader.lift (failIf
    (progress.any fun entry => entry.topic = topic ∧ entry.partition = partition)
    (.invalidArgument "duplicate source progress entry"))
  return progress++[{
    topic,partition,checkpointNextOffset := checkpoint,highWatermark }]

def readSourceProgress : Reader (List ArtifactSourceProgress) := do
  let count ← readInt UInt32
  ByteReader.iterate count.toNat readSourceProgressEntry []

def parseSourceProgressSection (bytes : Bytes) : StatusOr (List ArtifactSourceProgress) := do
  let (progress,offset) ← readSourceProgress bytes 0
  failIf (offset != bytes.length) (.invalidArgument "source progress section has trailing bytes")
  return progress

/-- A header field whose read failure is reported with the caller's message. -/
def readOr (T : Type) [LittleEndianInteger T] (message : String) (bytes : Bytes) (offset : ℕ) :
    StatusOr T :=
  match readLittleEndian T bytes offset with
  | .ok value => .ok value
  | .error _ => .error (.invalidArgument message)

def entryOffset (i : ℕ) : ℕ := (kArtifactHeaderSize+i*kArtifactSectionEntrySize)%2^32

def readSectionEntry (bytes : Bytes) (shardCount : UInt32) (i : ℕ) (seen : List (UInt32×UInt32)) :
    StatusOr ArtifactSection := do
  let truncated := "artifact section entry is truncated"
  let typeValue ← readOr UInt32 truncated bytes (entryOffset i+kEntryTypeOffset)
  let shardId ← readOr UInt32 truncated bytes (entryOffset i+kEntryShardIdOffset)
  let offset ← readOr UInt64 truncated bytes (entryOffset i+kEntryFileOffsetOffset)
  let length ← readOr UInt64 truncated bytes (entryOffset i+kEntryLengthOffset)
  let checksum ← readOr UInt64 truncated bytes (entryOffset i+kEntryChecksumOffset)
  let type ← decodeSectionType typeValue
  failIf (shardId != kArtifactGlobalShardId && shardId ≥ shardCount)
    (.invalidArgument "artifact section shard id is invalid")
  failIf (seen.contains (typeValue,shardId)) (.invalidArgument "duplicate artifact section")
  checkBounds bytes offset length
  return { type,shardId,offset,length,checksum }

/-- The directory loop of `ParseArtifact`, from entry `i` on. -/
def readSections (bytes : Bytes) (shardCount : UInt32) :
    ℕ → ℕ → List (UInt32×UInt32) → StatusOr (List ArtifactSection)
  | 0, _, _ => .ok []
  | remaining+1, i, seen => do
    let entry ← readSectionEntry bytes shardCount i seen
    let rest ← readSections bytes shardCount remaining (i+1) ((entry.type.raw,entry.shardId)::seen)
    return entry::rest

def checkOverlap : ℕ → List ArtifactSection → StatusOr Unit
  | _, [] => .ok ()
  | previousEnd, entry::sections => do
    failIf (entry.offset.toNat < previousEnd) (.invalidArgument "artifact sections overlap")
    checkOverlap ((entry.offset.toNat+entry.length.toNat)%2^64) sections

def checkChecksums (bytes : Bytes) (sections : List ArtifactSection) : StatusOr Unit :=
  failIf (sections.any fun entry => fnv1a64 (sectionBytes bytes entry) != entry.checksum)
    (.failedPrecondition "artifact section checksum mismatch")

/-- The header fields that `ParseArtifact` reads before it looks at the directory. -/
structure ArtifactHeader where
  sectionCount : UInt32
  shardCount : UInt32
  hashSeed : UInt64
  hashVersion : UInt32
  schemaVersion : UInt64
  layoutFingerprint : UInt64
  artifactIdLength : UInt32

def readHeader (bytes : Bytes) : StatusOr ArtifactHeader := do
  failIf (bytes.length < kArtifactHeaderSize) (.invalidArgument "artifact header is truncated")
  let magic ← readLittleEndian UInt64 bytes kMagicOffset
  failIf (magic != kArtifactMagic) (.invalidArgument "artifact magic mismatch")
  let version ← readLittleEndian UInt32 bytes kVersionOffset
  failIf (version != kArtifactFormatVersion)
    (.invalidArgument "unsupported artifact format version")
  let headerSize ← readOr UInt32 "artifact header metadata is truncated" bytes kHeaderSizeOffset
  let entrySize ← readOr UInt32 "artifact header metadata is truncated" bytes kEntrySizeOffset
  failIf (headerSize.toNat != kArtifactHeaderSize || entrySize.toNat != kArtifactSectionEntrySize)
    (.invalidArgument "unsupported artifact header layout")
  let truncated := "artifact fixed header is truncated"
  let sectionCount ← readOr UInt32 truncated bytes kSectionCountOffset
  let checksumAlgorithm ← readOr UInt32 truncated bytes kChecksumAlgorithmOffset
  let shardCount ← readOr UInt32 truncated bytes kShardCountOffset
  let hashSeed ← readOr UInt64 truncated bytes kHashSeedOffset
  let hashVersion ← readOr UInt32 truncated bytes kHashVersionOffset
  let schemaVersion ← readOr UInt64 truncated bytes kSchemaVersionOffset
  let layoutFingerprint ← readOr UInt64 truncated bytes kLayoutFingerprintOffset
  let artifactIdLength ← readOr UInt32 truncated bytes kArtifactIdLengthOffset
  failIf (checksumAlgorithm != kFnv1a64)
    (.invalidArgument "unsupported artifact checksum algorithm")
  failIf (artifactIdLength.toNat > kArtifactIdCapacity ||
      kArtifactIdOffset+artifactIdLength.toNat > kArtifactHeaderSize)
    (.invalidArgument "artifact id is out of bounds")
  return {
    sectionCount,shardCount,hashSeed,hashVersion,schemaVersion,layoutFingerprint
    artifactIdLength }

def checkExpectations (header : ArtifactHeader) (options : ArtifactValidationOptions) :
    StatusOr Unit := do
  failIf (options.expectedShardCount != 0 && options.expectedShardCount != header.shardCount)
    (.failedPrecondition "artifact shard count mismatch")
  failIf (options.expectedHashVersion != 0 && options.expectedHashVersion != header.hashVersion)
    (.failedPrecondition "artifact hash version mismatch")
  failIf (options.expectedHashSeed != header.hashSeed)
    (.failedPrecondition "artifact hash seed mismatch")

/-- The source progress of an artifact with these sections, under a policy. -/
def readProgress (bytes : Bytes) (sections : List ArtifactSection)
    (policy : ArtifactSourceProgressPolicy) : StatusOr (List ArtifactSourceProgress) :=
  match findSection sections .kSourceProgress kArtifactGlobalShardId with
  | none =>
    if policy = .kOptional then .ok []
    else .error (.invalidArgument "artifact source progress section missing")
  | some progressSection => parseSourceProgressSection (sectionBytes bytes progressSection)

/-- `ParseArtifact`, given the order that `std::sort` puts the sections in. -/
def parseArtifactWith (sort : List ArtifactSection → List ArtifactSection) (bytes : Bytes)
    (options : ArtifactValidationOptions) : StatusOr ParsedArtifact := do
  let header ← readHeader bytes
  checkExpectations header options
  let directoryBytes := header.sectionCount.toNat*kArtifactSectionEntrySize
  failIf (directoryBytes > uint64Max-kArtifactHeaderSize ||
      kArtifactHeaderSize+directoryBytes > bytes.length)
    (.invalidArgument "artifact section directory is truncated")
  let sections ← readSections bytes header.shardCount header.sectionCount.toNat 0 []
  checkOverlap (kArtifactHeaderSize+directoryBytes) (sort sections)
  checkChecksums bytes sections
  match findSection sections .kSchemaMetadata kArtifactGlobalShardId with
  | none => .error (.invalidArgument "artifact schema section is missing")
  | some schemaSection =>
    let layout ← parseSchemaSection (sectionBytes bytes schemaSection) header.schemaVersion
      header.layoutFingerprint
    let sourceProgress ← readProgress bytes sections options.sourceProgressPolicy
    return {
      artifactId := slice bytes kArtifactIdOffset header.artifactIdLength.toNat
      shardCount := header.shardCount,hashSeed := header.hashSeed
      hashVersion := header.hashVersion,schemaVersion := header.schemaVersion
      layoutFingerprint := header.layoutFingerprint,layout,sourceProgress,sections,bytes }

/-- The order by offset that keeps the directory order of equal offsets. -/
def sortSections (sections : List ArtifactSection) : List ArtifactSection :=
  sections.insertionSort fun lhs rhs => lhs.offset ≤ rhs.offset

def parseArtifact (bytes : Bytes) (options : ArtifactValidationOptions) : StatusOr ParsedArtifact :=
  parseArtifactWith sortSections bytes options

/-- The orders that `std::sort` may put the sections in. -/
structure OffsetOrder (sort : List ArtifactSection → List ArtifactSection) : Prop where
  perm : ∀ sections, (sort sections).Perm sections
  ordered : ∀ sections, (sort sections).Pairwise fun lhs rhs => lhs.offset ≤ rhs.offset

theorem sortSections_offsetOrder : OffsetOrder sortSections where
  perm sections := List.perm_insertionSort _ sections
  ordered sections := List.pairwise_insertionSort (fun lhs rhs => lhs.offset ≤ rhs.offset) sections

/-- What `std::sort` of the standard library that the parser is built with does to sections. -/
structure SectionSort where
  run : List ArtifactSection → List ArtifactSection
  order : OffsetOrder run

def SectionSort.stable : SectionSort where
  run := sortSections
  order := sortSections_offsetOrder

end Artifact
end KvIndex
