import KvIndex.FirstWins
import KvIndex.RowStorage

/-! The realtime delta of `store/realtime_delta.cc`: an open-addressed hash map from
keys to their newest row, and the log of all rows that were published. `Publish`
holds `rows_mutex_` from the log append to the end of the map update, so publishes
are one step each. A row ref is held by value: after it was built only its
`sealed_visible` mark changes, which the log alone reads. -/
namespace KvIndex

open Base

structure SourcePosition where
  partition : Int32 := -1
  offset : Int64 := -1
  deriving DecidableEq

inductive SourcePositionUpdateDecision
  | kStale | kIdempotent | kNewer
  deriving DecidableEq

def isValidSourcePosition (position : SourcePosition) : Bool :=
  position.partition ≥ 0 && position.offset ≥ 0

def classifySourcePositionUpdate (current candidate : SourcePosition) :
    StatusOr SourcePositionUpdateDecision := do
  failIf (!isValidSourcePosition current || !isValidSourcePosition candidate)
    (.invalidArgument "source position is invalid")
  failIf (current.partition != candidate.partition)
    (.failedPrecondition "same-key source positions are from different partitions")
  if candidate.offset < current.offset then return .kStale
  if candidate.offset = current.offset then return .kIdempotent
  return .kNewer

structure RealtimeRowRef where
  primaryKey : UInt64
  position : SourcePosition
  encoded : EncodedRow
  rowSlotBytes : UInt64
  payloadPoolBytes : UInt64
  deriving DecidableEq

structure RealtimeVisibleRow where
  primaryKey : UInt64
  position : SourcePosition
  encoded : EncodedRow
  deriving DecidableEq

structure RealtimeDeltaBoundary where
  rowCount : ℕ := 0
  deriving DecidableEq

namespace RealtimeAtomicHashMap

inductive SlotState
  | kEmpty | kReserved | kOccupied
  deriving DecidableEq

structure Slot where
  state : SlotState := .kEmpty
  primaryKey : UInt64 := 0
  latestRow : Option RealtimeRowRef := none
  deriving DecidableEq

end RealtimeAtomicHashMap

structure RealtimeAtomicHashMap where
  slots : List RealtimeAtomicHashMap.Slot
  hashSeed : UInt64
  hashVersion : UInt32
  uniqueKeyCount : ℕ := 0
  deriving DecidableEq

namespace RealtimeAtomicHashMap

def create (capacity hashSeed : UInt64) (hashVersion : UInt32) : RealtimeAtomicHashMap where
  slots := List.replicate capacity.toNat {}
  hashSeed := hashSeed
  hashVersion := hashVersion

variable (map : RealtimeAtomicHashMap)

def capacity : ℕ := map.slots.length

def slot (index : ℕ) : Slot := map.slots.getD index {}

/-- `ProbeIndex`; the sum of hash and probe wraps at 64 bits. -/
def probeIndex (primaryKey : UInt64) (probe : ℕ) : ℕ :=
  let hash := stableHash64 primaryKey map.hashSeed map.hashVersion
  let sum := (hash.toNat+probe)%2^64
  if isPowerOfTwo map.capacity then sum &&& (map.capacity-1) else sum%map.capacity

/-- `PublishExisting` at the slot `index`. -/
def publishExisting (index : ℕ) (rowRef : RealtimeRowRef) : StatusOr (Bool×RealtimeAtomicHashMap) :=
  match (map.slot index).latestRow with
  | none => .error (.internal "occupied realtime slot has no visible row")
  | some current => do
    let decision ← classifySourcePositionUpdate current.position rowRef.position
    if decision ≠ .kNewer then return (false,map)
    let slot := { map.slot index with latestRow := some rowRef }
    return (true,{ map with slots := map.slots.set index slot })

def publishFrom (primaryKey : UInt64) (rowRef : RealtimeRowRef) :
    ℕ → ℕ → StatusOr (Bool×RealtimeAtomicHashMap)
  | 0, _ => .error (.failedPrecondition "realtime hash map capacity exhausted")
  | remaining+1, probe =>
    let index := map.probeIndex primaryKey probe
    match (map.slot index).state with
    | .kReserved => .error (.unavailable "realtime hash map slot is reserved")
    | .kOccupied =>
      if (map.slot index).primaryKey = primaryKey then map.publishExisting index rowRef
      else publishFrom primaryKey rowRef remaining (probe+1)
    | .kEmpty =>
      let slot : Slot := { state := .kOccupied,primaryKey,latestRow := some rowRef }
      .ok (true,{ map with
        slots := map.slots.set index slot,uniqueKeyCount := map.uniqueKeyCount+1 })

/-- `PublishAndReport`: whether the row became visible, and the map after it. -/
def publishAndReport (primaryKey : UInt64) (rowRef : RealtimeRowRef) :
    StatusOr (Bool×RealtimeAtomicHashMap) := do
  failIf (rowRef.primaryKey != primaryKey)
    (.invalidArgument "realtime row ref primary key mismatch")
  failIf (!isValidSourcePosition rowRef.position) (.invalidArgument "source position is invalid")
  failIf (map.capacity == 0) (.failedPrecondition "realtime hash map capacity exhausted")
  map.publishFrom primaryKey rowRef map.capacity 0

def getFrom (primaryKey : UInt64) : ℕ → ℕ → StatusOr (Option RealtimeRowRef)
  | 0, _ => .ok none
  | remaining+1, probe =>
    let slot := map.slot (map.probeIndex primaryKey probe)
    if slot.state = .kReserved ∨ slot.state = .kEmpty then .ok none
    else if slot.primaryKey ≠ primaryKey then getFrom primaryKey remaining (probe+1)
    else
      match slot.latestRow with
      | none => .error (.internal "occupied realtime slot has no visible row")
      | some row => .ok (some row)

def get (primaryKey : UInt64) : StatusOr (Option RealtimeRowRef) :=
  if map.capacity = 0 then .ok none else map.getFrom primaryKey map.capacity 0

def reserveFrom (primaryKey : UInt64) : ℕ → ℕ → StatusOr RealtimeAtomicHashMap
  | 0, _ => .error (.failedPrecondition "realtime hash map capacity exhausted")
  | remaining+1, probe =>
    let index := map.probeIndex primaryKey probe
    match (map.slot index).state with
    | .kReserved => .error (.unavailable "realtime hash map slot is reserved")
    | .kOccupied =>
      if (map.slot index).primaryKey = primaryKey then
        .error (.failedPrecondition "realtime hash map slot is occupied")
      else reserveFrom primaryKey remaining (probe+1)
    | .kEmpty =>
      .ok { map with slots := map.slots.set index { map.slot index with state := .kReserved } }

def reserveSlotForTesting (primaryKey : UInt64) : StatusOr RealtimeAtomicHashMap := do
  failIf (map.capacity == 0) (.failedPrecondition "realtime hash map capacity exhausted")
  map.reserveFrom primaryKey map.capacity 0

end RealtimeAtomicHashMap

structure LoggedRow where
  ref : RealtimeRowRef
  sealedVisible : Bool := false
  deriving DecidableEq

structure RealtimeDeltaAtomicTable where
  layout : Option CompiledRowLayout
  map : RealtimeAtomicHashMap
  rows : List LoggedRow := []
  rowSlotBytes : UInt64 := 0
  payloadPoolBytes : UInt64 := 0
  deriving DecidableEq

namespace RealtimeDeltaAtomicTable

structure Options where
  layout : Option CompiledRowLayout := none
  capacity : UInt64 := 0
  hashSeed : UInt64 := 0
  hashVersion : UInt32 := 1

def create (options : Options) : RealtimeDeltaAtomicTable where
  layout := options.layout
  map := RealtimeAtomicHashMap.create options.capacity options.hashSeed options.hashVersion

def stringBytes (values : List Bytes) : ℕ := (values.map List.length).sum

def encodedPayloadPoolBytes (encoded : EncodedRow) : UInt64 :=
  UInt64.ofNat (encoded.arena.length+stringBytes encoded.stringDictionary+
    stringBytes encoded.scalarListDictionary+(encoded.stringListDictionary.map stringBytes).sum+
    stringBytes encoded.stringElementDictionary)

variable (table : RealtimeDeltaAtomicTable)

def buildRowRef (primaryKey : UInt64) (position : SourcePosition) (encoded : EncodedRow) :
    StatusOr RealtimeRowRef :=
  match table.layout with
  | none => .error (.failedPrecondition "realtime table has no row layout")
  | some layout => do
    failIf (!isValidSourcePosition position) (.invalidArgument "source position is invalid")
    failIf (encoded.schemaVersion != layout.schemaVersion ||
        encoded.layoutFingerprint != layout.layoutFingerprint)
      (.failedPrecondition "encoded row metadata does not match realtime layout")
    failIf (encoded.rowSlot.length != layout.rowSlotSize)
      (.invalidArgument "encoded row slot size does not match realtime layout")
    let _ ← Model.materializeRow layout encoded
    return {
      primaryKey,position,encoded,rowSlotBytes := UInt64.ofNat encoded.rowSlot.length
      payloadPoolBytes := encodedPayloadPoolBytes encoded }

/-- `Publish`: its status and the table after it. A row that the map refuses stays
in the log, without the visible mark. -/
def publish (primaryKey : UInt64) (position : SourcePosition) (encoded : EncodedRow) :
    StatusOr Unit×RealtimeDeltaAtomicTable :=
  match table.buildRowRef primaryKey position encoded with
  | .error status => (.error status,table)
  | .ok rowRef =>
    match table.map.publishAndReport primaryKey rowRef with
    | .error status => (.error status,{ table with rows := table.rows++[{ ref := rowRef }] })
    | .ok (visible,map) => (.ok (),{ table with
        map
        rows := table.rows++[{ ref := rowRef,sealedVisible := visible }]
        rowSlotBytes := table.rowSlotBytes+rowRef.rowSlotBytes
        payloadPoolBytes := table.payloadPoolBytes+rowRef.payloadPoolBytes })

def get (primaryKey : UInt64) : StatusOr (Option Row) :=
  match table.layout with
  | none => .error (.failedPrecondition "realtime table has no row layout")
  | some layout => do
    let rowRef ← table.map.get primaryKey
    return rowRef.map fun ref => { layout,encoded := ref.encoded }

def captureCompactionBoundary : RealtimeDeltaBoundary := { rowCount := table.rows.length }

/-- One step of the log scan: `latest` holds the newest sealed row of each key. -/
def scanRow (latest : List RealtimeRowRef) (row : LoggedRow) : StatusOr (List RealtimeRowRef) :=
  if !row.sealedVisible then .ok latest
  else
    match FirstWins.find RealtimeRowRef.primaryKey latest row.ref.primaryKey with
    | none => .ok (latest++[row.ref])
    | some current => do
      let decision ← classifySourcePositionUpdate current.position row.ref.position
      if decision = .kNewer then
        return FirstWins.replace RealtimeRowRef.primaryKey row.ref latest
      return latest

def visibleRow (ref : RealtimeRowRef) : RealtimeVisibleRow where
  primaryKey := ref.primaryKey
  position := ref.position
  encoded := ref.encoded

/-- `ScanVisibleRows`. The keys are distinct, so every sort by key gives the same list. -/
def scanVisibleRows (boundary : RealtimeDeltaBoundary) : StatusOr (List RealtimeVisibleRow) := do
  let limit := min boundary.rowCount table.rows.length
  let latest ← (table.rows.take limit).foldlM scanRow []
  return (latest.map visibleRow).insertionSort fun lhs rhs => lhs.primaryKey ≤ rhs.primaryKey

def reserveSlotForTesting (primaryKey : UInt64) : StatusOr RealtimeDeltaAtomicTable := do
  let map ← table.map.reserveSlotForTesting primaryKey
  return { table with map }

end RealtimeDeltaAtomicTable
end KvIndex
