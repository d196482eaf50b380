import KvIndex.Base
import KvIndex.Probing

/-! The frozen primary-key index of `store/frozen_primary_key_index.cc`: a byte
image with a header, one control byte for each slot and its mirror, the slot keys
and the slot row offsets. `Validate`, `Lookup`, `Entries` and the builder are
embedded on the bytes themselves. -/
namespace KvIndex

structure FrozenPrimaryKeyIndexEntry where
  primaryKey : UInt64
  rowOffset : UInt64
  deriving DecidableEq

structure FrozenPrimaryKeyIndexBuildOptions where
  hashSeed : UInt64 := 0
  hashVersion : UInt32 := 1
  groupWidth : ℕ := 16

structure FrozenPrimaryKeyIndexMetadata where
  rowCount : ℕ
  capacity : ℕ
  hashSeed : UInt64
  hashVersion : UInt32
  groupWidth : ℕ
  controlOffset : ℕ
  keyOffset : ℕ
  rowOffsetOffset : ℕ
  totalSize : ℕ
  deriving DecidableEq

structure FrozenPrimaryKeyIndexView where
  bytes : Bytes
  metadata : FrozenPrimaryKeyIndexMetadata

namespace FrozenIndex

open Base

def kMagic : UInt64 := 0x315844494b50564b
def kFormatVersion : UInt32 := 1
def kDefaultGroupWidth : ℕ := 16
def kMagicOffset : ℕ := 0
def kFormatVersionOffset : ℕ := 8
def kHeaderSizeOffset : ℕ := 12
def kRowCountOffset : ℕ := 16
def kCapacityOffset : ℕ := 24
def kHashSeedOffset : ℕ := 32
def kHashVersionOffset : ℕ := 40
def kGroupWidthOffset : ℕ := 44
def kControlOffsetOffset : ℕ := 48
def kKeyOffsetOffset : ℕ := 56
def kRowOffsetOffsetOffset : ℕ := 64
def kTotalSizeOffset : ℕ := 72
def kSerializedHeaderSize : ℕ := 80
def kEmptyControl : UInt8 := 0x80

def h2 (hash : UInt64) : UInt8 := ((hash >>> 57) &&& 0x7f).toUInt8

def hasBytes (size offset byteCount : ℕ) : Bool := offset ≤ size && byteCount ≤ size-offset

def checkedAdd (lhs rhs : ℕ) : StatusOr ℕ :=
  if lhs > uint64Max-rhs then
    .error (.invalidArgument "frozen primary-key index size overflows")
  else .ok (lhs+rhs)

def checkedMul (lhs rhs : ℕ) : StatusOr ℕ :=
  if lhs ≠ 0 ∧ rhs > uint64Max/lhs then
    .error (.invalidArgument "frozen primary-key index size overflows")
  else .ok (lhs*rhs)

/-- The doubling loop of `CalculateCapacity`. From 16 on, the overflow test ends it
within 64 rounds. -/
def growCapacity : ℕ → ℕ → ℕ → StatusOr ℕ
  | 0, capacity, _ => .ok capacity
  | fuel+1, capacity, minForLoad =>
    if capacity < minForLoad then
      if capacity > uint64Max/2 then
        .error (.invalidArgument "frozen index capacity is too large")
      else growCapacity fuel (capacity*2) minForLoad
    else .ok capacity

def calculateCapacity (rowCount groupWidth : ℕ) : StatusOr ℕ := do
  failIf (groupWidth == 0 || groupWidth != kDefaultGroupWidth)
    (.invalidArgument "unsupported frozen index group width")
  failIf (rowCount > (uint64Max-6)/8)
    (.invalidArgument "frozen index row count is too large")
  let minForLoad := (rowCount*8+6)/7
  growCapacity 64 groupWidth minForLoad

def writeHeader (bytes : Bytes) (metadata : FrozenPrimaryKeyIndexMetadata) : StatusOr Bytes := do
  let bytes ← writeLittleEndian kMagic bytes kMagicOffset
  let bytes ← writeLittleEndian kFormatVersion bytes kFormatVersionOffset
  let bytes ← writeLittleEndian (UInt32.ofNat kSerializedHeaderSize) bytes kHeaderSizeOffset
  let bytes ← writeLittleEndian (UInt64.ofNat metadata.rowCount) bytes kRowCountOffset
  let bytes ← writeLittleEndian (UInt64.ofNat metadata.capacity) bytes kCapacityOffset
  let bytes ← writeLittleEndian metadata.hashSeed bytes kHashSeedOffset
  let bytes ← writeLittleEndian metadata.hashVersion bytes kHashVersionOffset
  let bytes ← writeLittleEndian (UInt32.ofNat metadata.groupWidth) bytes kGroupWidthOffset
  let bytes ← writeLittleEndian (UInt64.ofNat metadata.controlOffset) bytes kControlOffsetOffset
  let bytes ← writeLittleEndian (UInt64.ofNat metadata.keyOffset) bytes kKeyOffsetOffset
  let bytes ←
    writeLittleEndian (UInt64.ofNat metadata.rowOffsetOffset) bytes kRowOffsetOffsetOffset
  writeLittleEndian (UInt64.ofNat metadata.totalSize) bytes kTotalSizeOffset

def readHeaderField (T : Type) [LittleEndianInteger T] (bytes : Bytes) (offset : ℕ) :
    StatusOr T :=
  match readLittleEndian T bytes offset with
  | .ok value => .ok value
  | .error status => .error (.invalidArgument status.message)

def readMetadata (bytes : Bytes) : StatusOr FrozenPrimaryKeyIndexMetadata := do
  failIf (bytes.length < kSerializedHeaderSize)
    (.invalidArgument "frozen primary-key index header is truncated")
  let magic ← readHeaderField UInt64 bytes kMagicOffset
  failIf (magic != kMagic) (.invalidArgument "frozen primary-key index magic is invalid")
  let formatVersion ← readHeaderField UInt32 bytes kFormatVersionOffset
  failIf (formatVersion != kFormatVersion)
    (.invalidArgument "frozen primary-key index version is unsupported")
  let headerSize ← readHeaderField UInt32 bytes kHeaderSizeOffset
  failIf (headerSize.toNat != kSerializedHeaderSize)
    (.invalidArgument "frozen primary-key index header size is invalid")
  let rowCount ← readHeaderField UInt64 bytes kRowCountOffset
  let capacity ← readHeaderField UInt64 bytes kCapacityOffset
  let hashSeed ← readHeaderField UInt64 bytes kHashSeedOffset
  let hashVersion ← readHeaderField UInt32 bytes kHashVersionOffset
  let groupWidth ← readHeaderField UInt32 bytes kGroupWidthOffset
  let controlOffset ← readHeaderField UInt64 bytes kControlOffsetOffset
  let keyOffset ← readHeaderField UInt64 bytes kKeyOffsetOffset
  let rowOffsetOffset ← readHeaderField UInt64 bytes kRowOffsetOffsetOffset
  let totalSize ← readHeaderField UInt64 bytes kTotalSizeOffset
  return {
    rowCount := rowCount.toNat,capacity := capacity.toNat,hashSeed,hashVersion
    groupWidth := groupWidth.toNat,controlOffset := controlOffset.toNat
    keyOffset := keyOffset.toNat,rowOffsetOffset := rowOffsetOffset.toNat
    totalSize := totalSize.toNat }

def validateMetadata (metadata : FrozenPrimaryKeyIndexMetadata) (byteSize : ℕ) :
    StatusOr Unit := do
  failIf (metadata.groupWidth != kDefaultGroupWidth)
    (.invalidArgument "frozen primary-key index group width is invalid")
  failIf (metadata.capacity == 0 || !isPowerOfTwo metadata.capacity)
    (.invalidArgument "frozen primary-key index capacity is invalid")
  failIf (metadata.capacity < metadata.groupWidth)
    (.invalidArgument "frozen primary-key index capacity is smaller than group width")
  failIf (metadata.rowCount > (metadata.capacity/8)*7)
    (.invalidArgument "frozen primary-key index capacity is too small for row count")
  let controlBytes ← checkedAdd metadata.capacity metadata.groupWidth
  let keyBytes ← checkedMul metadata.capacity 8
  let rowOffsetBytes ← checkedMul metadata.capacity 8
  let expectedKeyOffset ← checkedAdd metadata.controlOffset controlBytes
  let expectedRowOffset ← checkedAdd metadata.keyOffset keyBytes
  let expectedTotal ← checkedAdd metadata.rowOffsetOffset rowOffsetBytes
  failIf (metadata.controlOffset != kSerializedHeaderSize ||
      metadata.keyOffset != expectedKeyOffset ||
      metadata.rowOffsetOffset != expectedRowOffset ||
      metadata.totalSize != expectedTotal)
    (.invalidArgument "frozen primary-key index section offsets are invalid")
  failIf (metadata.totalSize != byteSize)
    (.invalidArgument "frozen primary-key index byte size is invalid")
  failIf (!hasBytes byteSize metadata.controlOffset controlBytes ||
      !hasBytes byteSize metadata.keyOffset keyBytes ||
      !hasBytes byteSize metadata.rowOffsetOffset rowOffsetBytes)
    (.invalidArgument "frozen primary-key index section is truncated")

def slotOffset (sectionOffset slot : ℕ) : ℕ := (sectionOffset+slot*8)%2^64

end FrozenIndex

namespace FrozenPrimaryKeyIndexView

open Base FrozenIndex

variable (view : FrozenPrimaryKeyIndexView)

/-- The control byte of a slot; the source indexes the span without a check. -/
def control (slot : ℕ) : UInt8 := view.bytes.getD (view.metadata.controlOffset+slot) 0

def mask : ℕ := view.metadata.capacity-1

def hash (primaryKey : UInt64) : UInt64 :=
  stableHash64 primaryKey view.metadata.hashSeed view.metadata.hashVersion

def readKey (slot : ℕ) : StatusOr UInt64 := do
  failIf (slot ≥ view.metadata.capacity)
    (.invalidArgument "frozen primary-key index key slot is invalid")
  readHeaderField UInt64 view.bytes (slotOffset view.metadata.keyOffset slot)

def readRowOffset (slot : ℕ) : StatusOr UInt64 := do
  failIf (slot ≥ view.metadata.capacity)
    (.invalidArgument "frozen primary-key index row-offset slot is invalid")
  readHeaderField UInt64 view.bytes (slotOffset view.metadata.rowOffsetOffset slot)

/-- The inner loop of `Validate`: every slot from the hash bucket to `slot` is taken. -/
def checkReachable (slot : ℕ) : ℕ → ℕ → StatusOr Unit
  | 0, _ => .ok ()
  | remaining+1, probe =>
    if probe = slot then .ok ()
    else if view.control probe = kEmptyControl then
      .error (.invalidArgument
        "frozen primary-key index key is unreachable from its hash bucket")
    else checkReachable slot remaining ((probe+1) &&& view.mask)

/-- The slot scan of `Validate`, from `slot` on, with the keys seen so far; it
returns the number of occupied slots. -/
def scanSlots : ℕ → ℕ → List UInt64 → ℕ → StatusOr ℕ
  | 0, _, _, occupiedCount => .ok occupiedCount
  | remaining+1, slot, seenKeys, occupiedCount =>
    let control := view.control slot
    if control = kEmptyControl then scanSlots remaining (slot+1) seenKeys occupiedCount
    else do
      failIf (control &&& kEmptyControl != 0)
        (.invalidArgument "frozen primary-key index control byte is invalid")
      let key ← view.readKey slot
      failIf (seenKeys.contains key)
        (.invalidArgument "frozen primary-key index contains duplicate primary keys")
      failIf (control != h2 (view.hash key))
        (.invalidArgument "frozen primary-key index control byte does not match key hash")
      view.checkReachable slot view.metadata.capacity ((view.hash key).toNat &&& view.mask)
      scanSlots remaining (slot+1) (key::seenKeys) (occupiedCount+1)

/-- `FrozenPrimaryKeyIndexView::Validate`. -/
def validate (bytes : Bytes) : StatusOr FrozenPrimaryKeyIndexView := do
  let metadata ← readMetadata bytes
  validateMetadata metadata bytes.length
  let view : FrozenPrimaryKeyIndexView := { bytes,metadata }
  failIf ((List.range metadata.groupWidth).any fun i =>
      view.control (metadata.capacity+i) != view.control i)
    (.invalidArgument "frozen primary-key index control bytes are not mirrored")
  let occupiedCount ← view.scanSlots metadata.capacity 0 [] 0
  failIf (occupiedCount != metadata.rowCount)
    (.invalidArgument "frozen primary-key index row count does not match occupied slots")
  return view

def lookupFrom (primaryKey : UInt64) : ℕ → ℕ → StatusOr (Option UInt64)
  | 0, _ => .error (.invalidArgument "frozen primary-key index lookup exhausted every slot")
  | remaining+1, slot =>
    let control := view.control slot
    if control = kEmptyControl then .ok none
    else if control = h2 (view.hash primaryKey) then do
      let key ← view.readKey slot
      if key = primaryKey then
        let rowOffset ← view.readRowOffset slot
        return some rowOffset
      else lookupFrom primaryKey remaining ((slot+1) &&& view.mask)
    else lookupFrom primaryKey remaining ((slot+1) &&& view.mask)

def lookup (primaryKey : UInt64) : StatusOr (Option UInt64) := do
  failIf (view.metadata.capacity == 0)
    (.invalidArgument "frozen primary-key index view is invalid")
  view.lookupFrom primaryKey view.metadata.capacity ((view.hash primaryKey).toNat &&& view.mask)

def entriesFrom : ℕ → ℕ → StatusOr (List FrozenPrimaryKeyIndexEntry)
  | 0, _ => .ok []
  | remaining+1, slot =>
    if view.control slot = kEmptyControl then entriesFrom remaining (slot+1)
    else do
      let primaryKey ← view.readKey slot
      let rowOffset ← view.readRowOffset slot
      let rest ← entriesFrom remaining (slot+1)
      return { primaryKey,rowOffset }::rest

def entries : StatusOr (List FrozenPrimaryKeyIndexEntry) := do
  failIf (view.metadata.capacity == 0)
    (.invalidArgument "frozen primary-key index view is invalid")
  view.entriesFrom view.metadata.capacity 0

end FrozenPrimaryKeyIndexView

namespace FrozenIndex

open Base LittleEndian

/-- Stands for a placement loop that finds no free slot and runs forever. -/
def probeLoopDiverges : Status := ⟨.kUnknown,"frozen index placement does not terminate"⟩

/-- The placement loop of the builder, from `slot` on; `none` when no slot is free. -/
def findEmptySlot (bytes : Bytes) (controlOffset mask : ℕ) : ℕ → ℕ → Option ℕ
  | 0, _ => none
  | remaining+1, slot =>
    if bytes.getD (controlOffset+slot) 0 = kEmptyControl then some slot
    else findEmptySlot bytes controlOffset mask remaining ((slot+1) &&& mask)

/-- Place one entry: its control byte, its key and its row offset. -/
def placeEntry (metadata : FrozenPrimaryKeyIndexMetadata) (bytes : Bytes)
    (entry : FrozenPrimaryKeyIndexEntry) : StatusOr Bytes := do
  let mask := metadata.capacity-1
  let hash := stableHash64 entry.primaryKey metadata.hashSeed metadata.hashVersion
  match findEmptySlot bytes metadata.controlOffset mask metadata.capacity (hash.toNat &&& mask) with
  | none => .error probeLoopDiverges
  | some slot =>
    let bytes := bytes.set (metadata.controlOffset+slot) (h2 hash)
    let bytes ← writeLittleEndian entry.primaryKey bytes (slotOffset metadata.keyOffset slot)
    writeLittleEndian entry.rowOffset bytes (slotOffset metadata.rowOffsetOffset slot)

/-- Copy the first `groupWidth` control bytes behind the last one. -/
def mirrorControl (metadata : FrozenPrimaryKeyIndexMetadata) (bytes : Bytes) : Bytes :=
  (List.range metadata.groupWidth).foldl (fun bytes i =>
    bytes.set (metadata.controlOffset+metadata.capacity+i)
      (bytes.getD (metadata.controlOffset+i) 0)) bytes

def checkDistinct (seenKeys : List UInt64) : List FrozenPrimaryKeyIndexEntry → StatusOr Unit
  | [] => .ok ()
  | entry::entries => do
    failIf (seenKeys.contains entry.primaryKey)
      (.invalidArgument "duplicate primary key in frozen index build")
    checkDistinct (entry.primaryKey::seenKeys) entries

def buildMetadata (rowCount : ℕ) (options : FrozenPrimaryKeyIndexBuildOptions) (capacity : ℕ) :
    StatusOr FrozenPrimaryKeyIndexMetadata := do
  let controlBytes ← checkedAdd capacity options.groupWidth
  let keyBytes ← checkedMul capacity 8
  let rowOffsetBytes ← checkedMul capacity 8
  let keyOffset ← checkedAdd kSerializedHeaderSize controlBytes
  let rowOffsetOffset ← checkedAdd keyOffset keyBytes
  let totalSize ← checkedAdd rowOffsetOffset rowOffsetBytes
  failIf (totalSize > uint64Max) (.invalidArgument "frozen primary-key index is too large")
  return {
    rowCount,capacity,hashSeed := options.hashSeed,hashVersion := options.hashVersion
    groupWidth := options.groupWidth,controlOffset := kSerializedHeaderSize
    keyOffset,rowOffsetOffset,totalSize }

def buildFrozenPrimaryKeyIndex (entries : List FrozenPrimaryKeyIndexEntry)
    (options : FrozenPrimaryKeyIndexBuildOptions) : StatusOr Bytes := do
  let capacity ← calculateCapacity entries.length options.groupWidth
  checkDistinct [] entries
  let metadata ← buildMetadata entries.length options capacity
  let bytes ← writeHeader (List.replicate metadata.totalSize 0) metadata
  let bytes := splice bytes metadata.controlOffset
    (List.replicate (metadata.capacity+metadata.groupWidth) kEmptyControl)
  let bytes ← entries.foldlM (placeEntry metadata) bytes
  return mirrorControl metadata bytes

end FrozenIndex
end KvIndex
