import KvIndex.Effects
import KvIndex.RealtimeOrder
import KvIndex.UpdatePayload

/-! `UpdateApplier` (`ingest/update_applier.cc`): a message is validated, decoded and
encoded for every target before the first target is published. Target tables are
referred to by number, so that two routes may share one. -/
namespace KvIndex
namespace Ingest

open Base RealtimeDeltaAtomicTable

structure KafkaPartition where
  topic : Bytes := []
  partition : Int32 := -1
  deriving DecidableEq

structure KafkaMessageMetadata where
  partition : KafkaPartition := {}
  offset : Int64 := -1
  deriving DecidableEq

structure KafkaUpsertMessage where
  metadata : KafkaMessageMetadata := {}
  primaryKey : UInt64 := 0
  payload : Bytes := []
  deriving DecidableEq

abbrev TableRef := ℕ

structure UpdateTargetRoute where
  shardCount : ℕ := 0
  hashSeed : UInt64 := 0
  hashVersion : UInt32 := 1
  layout : Option CompiledRowLayout := none
  realtimeShards : List (Option TableRef) := []

structure UpdateApplierOptions where
  logicalTopic : Bytes := []
  targets : List UpdateTargetRoute := []

def validateRoute (route : UpdateTargetRoute) : StatusOr Unit := do
  failIf route.layout.isNone (.failedPrecondition "update target route has no layout")
  failIf (route.shardCount == 0 || !isPowerOfTwo route.shardCount)
    (.invalidArgument "update target shard_count must be a non-zero power of two")
  failIf (route.realtimeShards.length != route.shardCount)
    (.invalidArgument "update target realtime shard count does not match shard_count")
  failIf (route.realtimeShards.any Option.isNone)
    (.failedPrecondition "update target route contains a null realtime shard")

def validateApplierOptions (options : UpdateApplierOptions) : StatusOr Unit := do
  failIf options.logicalTopic.isEmpty
    (.invalidArgument "update applier logical topic is empty")
  failIf options.targets.isEmpty (.failedPrecondition "update applier has no target routes")
  options.targets.forM validateRoute

def validateMessageMetadata (message : KafkaUpsertMessage) (logicalTopic : Bytes) :
    StatusOr Unit := do
  failIf message.metadata.partition.topic.isEmpty
    (.invalidArgument "kafka message topic is empty")
  failIf (message.metadata.partition.topic != logicalTopic)
    (.failedPrecondition "kafka message topic does not match coordinator logical topic")
  failIf (message.metadata.partition.partition < 0)
    (.invalidArgument "kafka message partition is invalid")
  failIf (message.metadata.offset < 0) (.invalidArgument "kafka message offset is invalid")

def shardFor (primaryKey : UInt64) (route : UpdateTargetRoute) : ℕ :=
  (stableHash64 primaryKey route.hashSeed route.hashVersion).toNat &&& (route.shardCount-1)

structure PreparedPublish where
  table : TableRef
  call : PublishCall
  deriving DecidableEq

def sourcePosition (message : KafkaUpsertMessage) : SourcePosition :=
  ⟨message.metadata.partition.partition,message.metadata.offset⟩

/-- The publish of a message for one route; the options were validated, so the shard
has a table. -/
def prepareRoute (message : KafkaUpsertMessage) (decoded : DecodedPayload)
    (route : UpdateTargetRoute) : StatusOr PreparedPublish := do
  let encoded ← encodeForLayout decoded route.layout
  match (route.realtimeShards.getD (shardFor message.primaryKey route) none) with
  | none => .error (.failedPrecondition "update target route contains a null realtime shard")
  | some table => return ⟨table,message.primaryKey,sourcePosition message,encoded⟩

/-- The part of `Apply` before the first publish. -/
def prepare (options : UpdateApplierOptions) (message : KafkaUpsertMessage) :
    StatusOr (List PreparedPublish) := do
  validateApplierOptions options
  validateMessageMetadata message options.logicalTopic
  let decoded ← decodePayload message.payload
  options.targets.mapM (prepareRoute message decoded)

abbrev Publishing := Prog fun _ : PreparedPublish => StatusOr Unit

def publishPrepared : List PreparedPublish → Publishing (StatusOr Unit)
  | [] => pure (.ok ())
  | publish::prepared => do
    match ← Prog.call publish with
    | .error status => pure (.error status)
    | .ok _ => publishPrepared prepared

def apply (options : UpdateApplierOptions) (message : KafkaUpsertMessage) :
    Publishing (StatusOr Unit) :=
  match prepare options message with
  | .error status => pure (.error status)
  | .ok prepared => publishPrepared prepared

def applyBatch (options : UpdateApplierOptions) :
    List KafkaUpsertMessage → Publishing (StatusOr Unit)
  | [] => pure (.ok ())
  | message::messages => do
    match ← apply options message with
    | .error status => pure (.error status)
    | .ok _ => applyBatch options messages

abbrev Tables := TableRef → RealtimeDeltaAtomicTable

def publishTo (publish : PreparedPublish) (tables : Tables) : StatusOr Unit×Tables :=
  let call := publish.call
  let (status,table) := (tables publish.table).publish call.primaryKey call.position call.encoded
  (status,Function.update tables publish.table table)

/-- An upsert of the key at an offset of partition 0 that sets field 1 of the sample layout. -/
def sampleMessage (k : UInt64) (offset : Int64) : KafkaUpsertMessage where
  metadata := ⟨⟨[116],0⟩,offset⟩
  primaryKey := k
  payload := kMagic++[1,0,0,0,1,0,0,0]++[1,0,0,0,3,8,0,0,0]++toBytes offset

def sampleApplier : UpdateApplierOptions where
  logicalTopic := [116]
  targets := [
    { shardCount := 1,layout := some sampleLayout,realtimeShards := [some 0] },
    { shardCount := 1,layout := some sampleLayout,realtimeShards := [some 1] }]

end Ingest
end KvIndex
