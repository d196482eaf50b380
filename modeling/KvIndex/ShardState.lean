import KvIndex.RealtimeTable
import KvIndex.SnapshotRows

/-! The serving state of a shard (`runtime/shard_state.cc`): the realtime delta over
the compact delta over the full snapshot. A state holds its realtime table as it is
at one moment. -/
namespace KvIndex

inductive ForwardIndexMode
  | kRealtimeDelta | kFullSnapshotOnly | kFullSnapshotWithRealtimeDelta
  deriving DecidableEq

def forwardIndexModeUsesKafkaRealtime (mode : ForwardIndexMode) : Bool :=
  mode != .kFullSnapshotOnly

/-- The compacting mode and `kRealtimeDelta` are one enumerator. -/
def forwardIndexModeUsesCompactDelta (mode : ForwardIndexMode) : Bool := mode == .kRealtimeDelta

structure ShardState where
  shardId : UInt32
  generation : UInt64
  realtimeDelta : Option RealtimeDeltaAtomicTable := none
  compactDelta : Option CompactDeltaSnapshot := none
  fullSnapshot : Option FullSnapshotView := none
  deriving DecidableEq

def ifMiss (layer next : StatusOr (Option Row)) : StatusOr (Option Row) :=
  match layer with
  | .error status => .error status
  | .ok (some row) => .ok (some row)
  | .ok none => next

namespace ShardState

def realtimeGet (state : ShardState) (primaryKey : UInt64) : StatusOr (Option Row) :=
  match state.realtimeDelta with
  | none => .ok none
  | some table => table.get primaryKey

def compactGet (state : ShardState) (primaryKey : UInt64) : StatusOr (Option Row) :=
  match state.compactDelta with
  | none => .ok none
  | some compact => compact.get primaryKey

def fullGet (state : ShardState) (primaryKey : UInt64) : StatusOr (Option Row) :=
  match state.fullSnapshot with
  | none => .ok none
  | some full => full.get primaryKey

def get (state : ShardState) (primaryKey : UInt64) : StatusOr (Option Row) :=
  ifMiss (state.realtimeGet primaryKey)
    (ifMiss (state.compactGet primaryKey) (state.fullGet primaryKey))

def mGet (state : ShardState) (primaryKeys : List UInt64) : StatusOr (List (Option Row)) :=
  primaryKeys.mapM state.get

/-- The state when its realtime table has become `table`. -/
def withRealtime (state : ShardState) (table : RealtimeDeltaAtomicTable) : ShardState :=
  { state with realtimeDelta := some table }

end ShardState

@[simp] theorem ifMiss_none (next : StatusOr (Option Row)) : ifMiss (.ok none) next = next := rfl

theorem ifMiss_assoc (a b c : StatusOr (Option Row)) :
    ifMiss (ifMiss a b) c = ifMiss a (ifMiss b c) := by
  cases a with
  | error e => rfl
  | ok row =>
    cases row with
    | none => rfl
    | some row => rfl

/-- Two layers of rows under one layout answer as one list of rows, read first-wins. -/
theorem ifMiss_answer (layout : Option CompiledRowLayout) (upper lower : Option EncodedRow) :
    ifMiss (answer layout upper) (answer layout lower) = answer layout (upper.or lower) := by
  cases upper with
  | none => rfl
  | some encoded =>
    simp only [answer,Option.some_or]
    cases Model.materializeRow? layout encoded with
    | error e => rfl
    | ok row => rfl

theorem RealtimeDeltaAtomicTable.Sound.get_eq_answer {table : RealtimeDeltaAtomicTable}
    (hs : table.Sound) {layout : CompiledRowLayout} (hl : table.layout = some layout) (k : UInt64) :
    table.get k = answer (some layout) ((table.map.visible k).map (·.encoded)) := by
  rw [hs.get_eq hl]
  cases hv : table.map.visible k with
  | none => rfl
  | some row =>
    obtain ⟨layout',hl',hmat,_⟩ := hs.readable hv
    rw [hl,Option.some.injEq] at hl'
    subst hl'
    simp only [Option.map_some,answer,Model.materializeRow?,hmat,Except.map]

end KvIndex
