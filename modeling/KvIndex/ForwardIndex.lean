import KvIndex.AsyncLoad

/-! The shard directory (`runtime/shard_directory.cc`) and the forward index over it
(`api/forward_index.cc`): routing and reads, and the record that is kept of a load. -/
namespace KvIndex
namespace Rebuild

open Base Ingest

structure ShardDirectory (State : Type) where
  shards : List (Option State)
  deriving DecidableEq

namespace ShardDirectory

variable {State : Type}

def create (shardCount : UInt32) : ShardDirectory State := ⟨List.replicate shardCount.toNat none⟩

def publish (directory : ShardDirectory State) (shardId : UInt32) (state : Option State) :
    StatusOr Unit×ShardDirectory State :=
  if shardId.toNat ≥ directory.shards.length then
    (.error (.invalidArgument "shard id is out of range"),directory)
  else
    match state with
    | none => (.error (.invalidArgument "published shard state must not be null"),directory)
    | some state => (.ok (),⟨directory.shards.set shardId.toNat (some state)⟩)

def load (directory : ShardDirectory State) (shardId : UInt32) : StatusOr (Option State) :=
  match directory.shards[shardId.toNat]? with
  | none => .error (.invalidArgument "shard id is out of range")
  | some state => .ok state

theorem publish_length (directory : ShardDirectory State) (shardId : UInt32)
    (state : Option State) :
    (directory.publish shardId state).2.shards.length = directory.shards.length := by
  unfold publish
  split_ifs
  · rfl
  · cases state with
    | none => rfl
    | some state => exact List.length_set

end ShardDirectory

def PublishedShard.resolve (shard : PublishedShard) (tables : Tables) : ShardState where
  shardId := shard.shardId
  generation := shard.generation
  realtimeDelta := shard.realtimeDelta.map tables
  fullSnapshot := some shard.fullSnapshot

namespace ForwardIndex

def shardFor (options : ForwardIndexOptions) (primaryKey : UInt64) : UInt32 :=
  UInt32.ofNat ((stableHash64 primaryKey options.hashSeed options.hashVersion).toNat &&&
    (options.shardCount.toNat-1))

/-- `ForwardIndex::Get`; an error is thrown. -/
def get (options : ForwardIndexOptions) (directory : ShardDirectory PublishedShard) (tables : Tables)
    (primaryKey : UInt64) : StatusOr (Option Row) := do
  match ← directory.load (shardFor options primaryKey) with
  | none => return none
  | some shard => (shard.resolve tables).get primaryKey

/-- The record that `LoadAsync` makes for a load it starts. -/
def recordOf (request : LoadRequest) (id : LoadId) : LoadState where
  id := id
  code := .kRunning
  terminal := false
  artifactUri := request.artifactUri
  artifactId := request.artifactId

def cancelRecord (state : LoadState) : LoadState :=
  { state with
    code := .kCancelled,terminal := true,lastError := "load cancelled"
    message := "load cancelled" }

/-- The `store_state` callback of `LoadAsync`: a record that was cancelled stays so. -/
def storeRecord (record state : LoadState) : LoadState :=
  if record.code = .kCancelled ∧ record.terminal = true ∧ state.code ≠ .kCancelled then
    cancelRecord state
  else state

end ForwardIndex
end Rebuild
end KvIndex
