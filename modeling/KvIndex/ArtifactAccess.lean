import KvIndex.ArtifactRoundTrip

/-! `ParseArtifact` once more, with every access to the byte string written as a checked one.
The run with checked accesses never leaves the string, and returns what the parser returns. -/
namespace KvIndex
namespace Artifact
namespace Access

open Base LittleEndian

/-- How a run ends early: at an access outside of the byte string, or with a status. -/
inductive Fault
  | outOfRange
  | status (status : Status)

abbrev Checked := Except Fault

def access (bytes : Bytes) (offset count : ℕ) : Checked Bytes :=
  if offset+count ≤ bytes.length then .ok (slice bytes offset count) else .error .outOfRange

def returns {α : Type} : StatusOr α → Checked α
  | .ok a => .ok a
  | .error status => .error (.status status)

def readLittleEndian (T : Type) [LittleEndianInteger T] (bytes : Bytes) (offset : ℕ) :
    Checked T := do
  returns (checkSpanBounds bytes.length offset (size T))
  let word ← access bytes offset (size T)
  return ofBytes T word

def readOr (T : Type) [LittleEndianInteger T] (message : String) (bytes : Bytes) (offset : ℕ) :
    Checked T :=
  match readLittleEndian T bytes offset with
  | .ok value => .ok value
  | .error .outOfRange => .error .outOfRange
  | .error (.status _) => .error (.status (.invalidArgument message))

def readInt (T : Type) [LittleEndianInteger T] : ByteReader Fault T := fun bytes cursor =>
  (readLittleEndian T bytes cursor).map fun value => (value,cursor+size T)

def take (count : ℕ) : ByteReader Fault Bytes := fun bytes cursor =>
  (access bytes cursor count).map fun word => (word,cursor+count)

def readArtifactString : ByteReader Fault Bytes := do
  let length ← readInt UInt32
  ByteReader.failWhen (fun bytes cursor =>
    cursor > bytes.length || bytes.length-cursor < length.toNat)
    (.status (.invalidArgument "artifact string is truncated"))
  take length.toNat

def readSchemaField (schema : RuntimeSchema) : ByteReader Fault RuntimeSchema := do
  let fieldId ← readInt UInt32
  ByteReader.failWhen (fun bytes cursor => cursor+4 > bytes.length)
    (.status (.invalidArgument "schema field entry is truncated"))
  let entry ← take 4
  let name ← readArtifactString
  ByteReader.lift (returns (schema.addField {
    fieldId,name,type := FieldType.ofRaw (entry.getD 0 0),isList := entry.getD 1 0 != 0
    nullable := entry.getD 2 0 != 0,encoding := FieldEncoding.ofRaw (entry.getD 3 0) }))

def readSchema (expectedSchemaVersion : UInt64) : ByteReader Fault RuntimeSchema := do
  let schemaVersion ← readInt UInt64
  ByteReader.lift (returns (failIf (schemaVersion != expectedSchemaVersion)
    (.failedPrecondition "schema section version mismatch")))
  let fieldCount ← readInt UInt32
  ByteReader.iterate fieldCount.toNat readSchemaField { version := schemaVersion }

def parseSchemaSection (bytes : Bytes) (expectedSchemaVersion expectedLayoutFingerprint : UInt64) :
    Checked CompiledRowLayout := do
  let (schema,offset) ← readSchema expectedSchemaVersion bytes 0
  returns (failIf (offset != bytes.length) (.invalidArgument "schema section has trailing bytes"))
  let layout := CompiledRowLayout.compile schema
  returns (failIf (layout.layoutFingerprint != expectedLayoutFingerprint)
    (.failedPrecondition "schema layout fingerprint mismatch"))
  return layout

def readSourceProgressEntry (progress : List ArtifactSourceProgress) :
    ByteReader Fault (List ArtifactSourceProgress) := do
  let topic ← readArtifactString
  let partition ← readInt Int32
  let checkpoint ← readInt Int64
  let highWatermark ← readInt Int64
  ByteReader.lift (returns (failIf
    (topic.isEmpty || partition < 0 || checkpoint < 0 || highWatermark < checkpoint)
    (.invalidArgument "invalid source progress entry")))
  ByteReader.lift (returns (failIf
    (progress.any fun entry => entry.topic = topic ∧ entry.partition = partition)
    (.invalidArgument "duplicate source progress entry")))
  return progress++[{
    topic,partition,checkpointNextOffset := checkpoint,highWatermark }]

def readSourceProgress : ByteReader Fault (List ArtifactSourceProgress) := do
  let count ← readInt UInt32
  ByteReader.iterate count.toNat readSourceProgressEntry []

def parseSourceProgressSection (bytes : Bytes) : Checked (List ArtifactSourceProgress) := do
  let (progress,offset) ← readSourceProgress bytes 0
  returns (failIf (offset != bytes.length)
    (.invalidArgument "source progress section has trailing bytes"))
  return progress

def readSectionEntry (bytes : Bytes) (shardCount : UInt32) (i : ℕ) (seen : List (UInt32×UInt32)) :
    Checked ArtifactSection := do
  let truncated := "artifact section entry is truncated"
  let typeValue ← readOr UInt32 truncated bytes (entryOffset i+kEntryTypeOffset)
  let shardId ← readOr UInt32 truncated bytes (entryOffset i+kEntryShardIdOffset)
  let offset ← readOr UInt64 truncated bytes (entryOffset i+kEntryFileOffsetOffset)
  let length ← readOr UInt64 truncated bytes (entryOffset i+kEntryLengthOffset)
  let checksum ← readOr UInt64 truncated bytes (entryOffset i+kEntryChecksumOffset)
  let type ← returns (decodeSectionType typeValue)
  returns (failIf (shardId != kArtifactGlobalShardId && shardId ≥ shardCount)
    (.invalidArgument "artifact section shard id is invalid"))
  returns (failIf (seen.contains (typeValue,shardId))
    (.invalidArgument "duplicate artifact section"))
  returns (checkBounds bytes offset length)
  return { type,shardId,offset,length,checksum }

def readSections (bytes : Bytes) (shardCount : UInt32) :
    ℕ → ℕ → List (UInt32×UInt32) → Checked (List ArtifactSection)
  | 0, _, _ => .ok []
  | remaining+1, i, seen => do
    let entry ← readSectionEntry bytes shardCount i seen
    let rest ← readSections bytes shardCount remaining (i+1) ((entry.type.raw,entry.shardId)::seen)
    return entry::rest

/-- The span of a section, which the caller reads to its end. -/
def sectionBytes (bytes : Bytes) (entry : ArtifactSection) : Checked Bytes :=
  access bytes entry.offset.toNat entry.length.toNat

def checkChecksums (bytes : Bytes) : List ArtifactSection → Checked Unit
  | [] => .ok ()
  | entry::sections => do
    let payload ← sectionBytes bytes entry
    returns (failIf (fnv1a64 payload != entry.checksum)
      (.failedPrecondition "artifact section checksum mismatch"))
    checkChecksums bytes sections

def readHeader (bytes : Bytes) : Checked ArtifactHeader := do
  returns (failIf (bytes.length < kArtifactHeaderSize)
    (.invalidArgument "artifact header is truncated"))
  let magic ← readLittleEndian UInt64 bytes kMagicOffset
  returns (failIf (magic != kArtifactMagic) (.invalidArgument "artifact magic mismatch"))
  let version ← readLittleEndian UInt32 bytes kVersionOffset
  returns (failIf (version != kArtifactFormatVersion)
    (.invalidArgument "unsupported artifact format version"))
  let headerSize ← readOr UInt32 "artifact header metadata is truncated" bytes kHeaderSizeOffset
  let entrySize ← readOr UInt32 "artifact header metadata is truncated" bytes kEntrySizeOffset
  returns (failIf
    (headerSize.toNat != kArtifactHeaderSize || entrySize.toNat != kArtifactSectionEntrySize)
    (.invalidArgument "unsupported artifact header layout"))
  let truncated := "artifact fixed header is truncated"
  let sectionCount ← readOr UInt32 truncated bytes kSectionCountOffset
  let checksumAlgorithm ← readOr UInt32 truncated bytes kChecksumAlgorithmOffset
  let shardCount ← readOr UInt32 truncated bytes kShardCountOffset
  let hashSeed ← readOr UInt64 truncated bytes kHashSeedOffset
  let hashVersion ← readOr UInt32 truncated bytes kHashVersionOffset
  let schemaVersion ← readOr UInt64 truncated bytes kSchemaVersionOffset
  let layoutFingerprint ← readOr UInt64 truncated bytes kLayoutFingerprintOffset
  let artifactIdLength ← readOr UInt32 truncated bytes kArtifactIdLengthOffset
  returns (failIf (checksumAlgorithm != kFnv1a64)
    (.invalidArgument "unsupported artifact checksum algorithm"))
  returns (failIf (artifactIdLength.toNat > kArtifactIdCapacity ||
      kArtifactIdOffset+artifactIdLength.toNat > kArtifactHeaderSize)
    (.invalidArgument "artifact id is out of bounds"))
  return {
    sectionCount,shardCount,hashSeed,hashVersion,schemaVersion,layoutFingerprint
    artifactIdLength }

def readProgress (bytes : Bytes) (sections : List ArtifactSection)
    (policy : ArtifactSourceProgressPolicy) : Checked (List ArtifactSourceProgress) :=
  match findSection sections .kSourceProgress kArtifactGlobalShardId with
  | none =>
    if policy = .kOptional then .ok []
    else .error (.status (.invalidArgument "artifact source progress section missing"))
  | some progressSection => do
    let payload ← sectionBytes bytes progressSection
    parseSourceProgressSection payload

def parseArtifactWith (sort : List ArtifactSection → List ArtifactSection) (bytes : Bytes)
    (options : ArtifactValidationOptions) : Checked ParsedArtifact := do
  let header ← readHeader bytes
  returns (checkExpectations header options)
  let directoryBytes := header.sectionCount.toNat*kArtifactSectionEntrySize
  returns (failIf (directoryBytes > uint64Max-kArtifactHeaderSize ||
      kArtifactHeaderSize+directoryBytes > bytes.length)
    (.invalidArgument "artifact section directory is truncated"))
  let sections ← readSections bytes header.shardCount header.sectionCount.toNat 0 []
  returns (checkOverlap (kArtifactHeaderSize+directoryBytes) (sort sections))
  checkChecksums bytes sections
  let artifactId ← access bytes kArtifactIdOffset header.artifactIdLength.toNat
  match findSection sections .kSchemaMetadata kArtifactGlobalShardId with
  | none => .error (.status (.invalidArgument "artifact schema section is missing"))
  | some schemaSection =>
    let payload ← sectionBytes bytes schemaSection
    let layout ← parseSchemaSection payload header.schemaVersion header.layoutFingerprint
    let sourceProgress ← readProgress bytes sections options.sourceProgressPolicy
    return {
      artifactId,shardCount := header.shardCount,hashSeed := header.hashSeed
      hashVersion := header.hashVersion,schemaVersion := header.schemaVersion
      layoutFingerprint := header.layoutFingerprint,layout,sourceProgress,sections,bytes }

theorem returns_bind {α β : Type} (x : StatusOr α) (f : α → StatusOr β) :
    returns (x >>= f) = returns x >>= fun a => returns (f a) := by
  cases x with
  | error status => rfl
  | ok a => rfl

theorem ok_bind {α β : Type} (a : α) (f : α → Checked β) :
    ((Except.ok a : Checked α) >>= f) = f a := rfl

/-- A continuation may rely on what the first computation has returned. -/
theorem bind_eq_returns {α β : Type} {x : StatusOr α} {f : α → Checked β} {g : α → StatusOr β}
    (h : ∀ a, x = .ok a → f a = returns (g a)) : (returns x >>= f) = returns (x >>= g) := by
  cases x with
  | error status => rfl
  | ok a => exact h a rfl

theorem returns_pure {α : Type} (a : α) : returns (pure a) = pure a := rfl

theorem map_returns {α β : Type} (f : α → β) (x : StatusOr α) :
    (returns x).map f = returns (x.map f) := by
  cases x with
  | error status => rfl
  | ok a => rfl

theorem returns_ne_outOfRange {α : Type} (x : StatusOr α) : returns x ≠ .error .outOfRange := by
  cases x with
  | error status => simp [returns]
  | ok a => simp [returns]

theorem access_inside {bytes : Bytes} {offset count : ℕ} (h : offset+count ≤ bytes.length) :
    access bytes offset count = .ok (slice bytes offset count) := if_pos h

theorem readLittleEndian_eq (T : Type) [LittleEndianInteger T] (bytes : Bytes) (offset : ℕ) :
    readLittleEndian T bytes offset = returns (Base.readLittleEndian T bytes offset) := by
  by_cases h : offset+size T ≤ bytes.length
  · have hcheck := (checkSpanBounds_eq_ok (u := ())).mpr h
    rw [readLittleEndian,Base.readLittleEndian,hcheck,access_inside h]
    rfl
  · rw [readLittleEndian,Base.readLittleEndian]
    cases hcheck : checkSpanBounds bytes.length offset (size T) with
    | error status => rfl
    | ok u => exact absurd (checkSpanBounds_eq_ok.mp hcheck) h

theorem readOr_eq (T : Type) [LittleEndianInteger T] (message : String) (bytes : Bytes)
    (offset : ℕ) :
    readOr T message bytes offset = returns (Artifact.readOr T message bytes offset) := by
  rw [readOr,Artifact.readOr,readLittleEndian_eq]
  cases Base.readLittleEndian T bytes offset with
  | error status => rfl
  | ok value => rfl

/-- A reader with checked accesses and the reader it follows. -/
def Follows {α : Type} (p : ByteReader Fault α) (q : Reader α) : Prop :=
  ∀ bytes cursor, p bytes cursor = returns (q bytes cursor)

theorem Follows.pure {α : Type} (a : α) : Follows (Pure.pure a) (Pure.pure a) :=
  fun _ _ => rfl

theorem follows_bind_at {α β : Type} {p : ByteReader Fault α} {q : Reader α}
    {f : α → ByteReader Fault β} {g : α → Reader β} {bytes : Bytes} {cursor : ℕ}
    (hp : p bytes cursor = returns (q bytes cursor)) (hf : ∀ a, Follows (f a) (g a)) :
    (p >>= f) bytes cursor = returns ((q >>= g) bytes cursor) := by
  simp only [Bind.bind,hp]
  cases q bytes cursor with
  | error status => rfl
  | ok result => exact hf result.1 bytes result.2

theorem Follows.bind {α β : Type} {p : ByteReader Fault α} {q : Reader α}
    {f : α → ByteReader Fault β} {g : α → Reader β} (hp : Follows p q)
    (hf : ∀ a, Follows (f a) (g a)) : Follows (p >>= f) (q >>= g) :=
  fun bytes cursor => follows_bind_at (hp bytes cursor) hf

theorem Follows.lift {α : Type} (x : StatusOr α) :
    Follows (ByteReader.lift (returns x)) (ByteReader.lift x) := by
  intro bytes cursor
  cases x with
  | error status => rfl
  | ok a => rfl

theorem Follows.guarded {β : Type} {bad : Bytes → ℕ → Bool} {status : Status}
    {p : ByteReader Fault β} {q : Reader β}
    (h : ∀ bytes cursor, bad bytes cursor = false → p bytes cursor = returns (q bytes cursor)) :
    Follows (ByteReader.failWhen bad (.status status) >>= fun _ => p)
      (ByteReader.failWhen bad status >>= fun _ => q) := by
  intro bytes cursor
  simp only [Bind.bind,ByteReader.failWhen]
  cases hcheck : bad bytes cursor with
  | true => rfl
  | false => exact h bytes cursor hcheck

theorem take_inside {bytes : Bytes} {cursor count : ℕ} (h : cursor+count ≤ bytes.length) :
    take count bytes cursor = returns (ByteReader.take count bytes cursor) := by
  rw [take,access_inside h]
  rfl

theorem Follows.iterate {σ : Type} {body : σ → ByteReader Fault σ} {body' : σ → Reader σ}
    (h : ∀ s, Follows (body s) (body' s)) (n : ℕ) (s : σ) :
    Follows (ByteReader.iterate n body s) (ByteReader.iterate n body' s) := by
  induction n generalizing s with
  | zero => exact Follows.pure s
  | succ n ih => exact (h s).bind ih

theorem readInt_follows (T : Type) [LittleEndianInteger T] :
    Follows (readInt T) (Artifact.readInt T) := by
  intro bytes cursor
  rw [readInt,Artifact.readInt,readLittleEndian_eq]
  cases Base.readLittleEndian T bytes cursor with
  | error status => rfl
  | ok value => rfl

theorem readArtifactString_follows : Follows readArtifactString Artifact.readArtifactString := by
  refine (readInt_follows UInt32).bind fun length => Follows.guarded ?_
  intro bytes cursor hcheck
  simp only [Bool.or_eq_false_iff,decide_eq_false_iff_not] at hcheck
  exact take_inside (by omega)

theorem readSchemaField_follows (schema : RuntimeSchema) :
    Follows (readSchemaField schema) (Artifact.readSchemaField schema) := by
  refine (readInt_follows UInt32).bind fun fieldId => Follows.guarded ?_
  intro bytes cursor hcheck
  simp only [decide_eq_false_iff_not] at hcheck
  refine follows_bind_at (take_inside (by omega)) fun entry => ?_
  exact readArtifactString_follows.bind fun name => Follows.lift _

theorem readSchema_follows (expectedSchemaVersion : UInt64) :
    Follows (readSchema expectedSchemaVersion) (Artifact.readSchema expectedSchemaVersion) := by
  refine (readInt_follows UInt64).bind fun schemaVersion => (Follows.lift _).bind fun _ => ?_
  exact (readInt_follows UInt32).bind fun fieldCount => Follows.iterate readSchemaField_follows _ _

theorem readSourceProgressEntry_follows (progress : List ArtifactSourceProgress) :
    Follows (readSourceProgressEntry progress) (Artifact.readSourceProgressEntry progress) := by
  refine readArtifactString_follows.bind fun topic => ?_
  refine (readInt_follows Int32).bind fun partition => ?_
  refine (readInt_follows Int64).bind fun checkpoint => ?_
  refine (readInt_follows Int64).bind fun highWatermark => ?_
  exact (Follows.lift _).bind fun _ => (Follows.lift _).bind fun _ => Follows.pure _

theorem readSourceProgress_follows : Follows readSourceProgress Artifact.readSourceProgress :=
  (readInt_follows UInt32).bind fun _ => Follows.iterate readSourceProgressEntry_follows _ _

theorem parseSchemaSection_eq (bytes : Bytes) (schemaVersion layoutFingerprint : UInt64) :
    parseSchemaSection bytes schemaVersion layoutFingerprint =
      returns (Artifact.parseSchemaSection bytes schemaVersion layoutFingerprint) := by
  rw [parseSchemaSection,readSchema_follows schemaVersion bytes 0]
  simp only [Artifact.parseSchemaSection,returns_bind,returns_pure]

theorem parseSourceProgressSection_eq (bytes : Bytes) :
    parseSourceProgressSection bytes = returns (Artifact.parseSourceProgressSection bytes) := by
  rw [parseSourceProgressSection,readSourceProgress_follows bytes 0]
  simp only [Artifact.parseSourceProgressSection,returns_bind,returns_pure]

theorem readSectionEntry_eq (bytes : Bytes) (shardCount : UInt32) (i : ℕ)
    (seen : List (UInt32×UInt32)) :
    readSectionEntry bytes shardCount i seen =
      returns (Artifact.readSectionEntry bytes shardCount i seen) := by
  simp only [readSectionEntry,Artifact.readSectionEntry,returns_bind,returns_pure,readOr_eq]

theorem readSections_eq (bytes : Bytes) (shardCount : UInt32) (n i : ℕ)
    (seen : List (UInt32×UInt32)) :
    readSections bytes shardCount n i seen =
      returns (Artifact.readSections bytes shardCount n i seen) := by
  induction n generalizing i seen with
  | zero => rfl
  | succ n ih =>
    simp only [readSections,Artifact.readSections,returns_bind,returns_pure,readSectionEntry_eq,ih]

theorem readHeader_eq (bytes : Bytes) : readHeader bytes = returns (Artifact.readHeader bytes) := by
  simp only [readHeader,Artifact.readHeader,returns_bind,returns_pure,readLittleEndian_eq,readOr_eq]

theorem sectionBytes_inside {bytes : Bytes} {entry : ArtifactSection}
    (h : entry.fileEnd ≤ bytes.length) :
    sectionBytes bytes entry = .ok (Artifact.sectionBytes bytes entry) := access_inside h

theorem checkChecksums_eq {bytes : Bytes} {sections : List ArtifactSection}
    (h : ∀ entry ∈ sections, entry.fileEnd ≤ bytes.length) :
    checkChecksums bytes sections = returns (Artifact.checkChecksums bytes sections) := by
  induction sections with
  | nil => rfl
  | cons entry sections ih =>
    have ih := ih fun other hother => h other (List.mem_cons_of_mem _ hother)
    rw [checkChecksums,sectionBytes_inside (h entry List.mem_cons_self),ih]
    simp only [Artifact.checkChecksums,List.any_cons,ok_bind]
    cases fnv1a64 (Artifact.sectionBytes bytes entry) != entry.checksum with
    | true => rfl
    | false => rfl

theorem findSection_inside {bytes : Bytes} {sections : List ArtifactSection}
    (h : ∀ entry ∈ sections, entry.fileEnd ≤ bytes.length) {type : ArtifactSectionType}
    {shardId : UInt32} {entry : ArtifactSection}
    (hfind : findSection sections type shardId = some entry) : entry.fileEnd ≤ bytes.length :=
  h entry (List.mem_of_find?_eq_some hfind)

theorem readProgress_eq {bytes : Bytes} {sections : List ArtifactSection}
    (h : ∀ entry ∈ sections, entry.fileEnd ≤ bytes.length)
    (policy : ArtifactSourceProgressPolicy) :
    readProgress bytes sections policy = returns (Artifact.readProgress bytes sections policy) := by
  rw [readProgress,Artifact.readProgress]
  cases hfind : findSection sections .kSourceProgress kArtifactGlobalShardId with
  | none =>
    by_cases hpolicy : policy = .kOptional
    · simp [hpolicy,returns]
    · simp [hpolicy,returns]
  | some entry =>
    simp only [sectionBytes_inside (findSection_inside h hfind)]
    exact parseSourceProgressSection_eq _

theorem parseArtifactWith_eq (sort : List ArtifactSection → List ArtifactSection) (bytes : Bytes)
    (options : ArtifactValidationOptions) :
    parseArtifactWith sort bytes options =
      returns (Artifact.parseArtifactWith sort bytes options) := by
  rw [parseArtifactWith,readHeader_eq]
  refine bind_eq_returns fun header hheader => ?_
  refine bind_eq_returns fun _ _ => bind_eq_returns fun _ _ => ?_
  rw [readSections_eq]
  refine bind_eq_returns fun sections hsections => ?_
  have hinside : ∀ entry ∈ sections, entry.fileEnd ≤ bytes.length := by
    intro entry hentry
    obtain ⟨k,hk,rfl⟩ := List.mem_iff_getElem.mp hentry
    exact ((readSections_eq_ok.mp hsections).2.1 k hk).inside
  refine bind_eq_returns fun _ _ => ?_
  rw [checkChecksums_eq hinside]
  refine bind_eq_returns fun _ _ => ?_
  have hid : kArtifactIdOffset+header.artifactIdLength.toNat ≤ bytes.length := by
    have h := readHeader_eq_ok.mp hheader
    have hsize := h.size
    have hlength := h.artifactId
    rw [kArtifactHeaderSize] at hsize
    rw [kArtifactIdCapacity] at hlength
    rw [kArtifactIdOffset]
    omega
  rw [access_inside hid,ok_bind]
  cases hfind : findSection sections .kSchemaMetadata kArtifactGlobalShardId with
  | none => rfl
  | some schemaSection =>
    simp only [sectionBytes_inside (findSection_inside hinside hfind),ok_bind]
    rw [parseSchemaSection_eq]
    refine bind_eq_returns fun layout _ => ?_
    rw [readProgress_eq hinside]
    exact bind_eq_returns fun progress _ => rfl

/-- `ParseArtifact` stays inside its byte string, and what it accepts is sound. -/
theorem parseArtifact_inRange_and_sound {sort : List ArtifactSection → List ArtifactSection}
    (hsort : OffsetOrder sort) (bytes : Bytes) (hsize : bytes.length ≤ uint64Max)
    (options : ArtifactValidationOptions) :
    parseArtifactWith sort bytes options ≠ .error .outOfRange ∧
    parseArtifactWith sort bytes options =
      returns (Artifact.parseArtifactWith sort bytes options) ∧
    ∀ parsed, Artifact.parseArtifactWith sort bytes options = .ok parsed → Sound bytes parsed := by
  refine ⟨?_,parseArtifactWith_eq sort bytes options,?_⟩
  · rw [parseArtifactWith_eq]
    exact returns_ne_outOfRange _
  · intro parsed hparse
    exact parseArtifactWith_sound hsort hsize hparse

theorem parseArtifact_sound_sample :
    ∃ parsed, Artifact.parseArtifactWith sortSections sampleFile {} = .ok parsed ∧
      parseArtifactWith sortSections sampleFile {} = .ok parsed ∧ Sound sampleFile parsed := by
  obtain ⟨parsed,hparse⟩ := sampleFile_parses
  obtain ⟨-,hsame,hsound⟩ := parseArtifact_inRange_and_sound sortSections_offsetOrder sampleFile
    sampleFile_size {}
  refine ⟨parsed,hparse,?_,hsound parsed hparse⟩
  rw [hsame]
  exact congrArg returns hparse

end Access
end Artifact
end KvIndex
