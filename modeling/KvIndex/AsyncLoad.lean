import KvIndex.KafkaConsumer
import KvIndex.ShardState

/-! External artifact loads (`rebuild/async_load.cc`): all shards are mapped, then all
are prewarmed, a Kafka mode catches up with its source, and only then the shards are
published one after the other. Callbacks, the file system and the catch-up runner are
operations of the environment. -/
namespace KvIndex
namespace Rebuild

open Base Ingest Artifact

abbrev LoadId := UInt64

structure KafkaConsumerConfig where
  bootstrapServers : Bytes := []
  groupId : Bytes := []
  topics : List Bytes := []
  deriving DecidableEq

/-- The options of a `ForwardIndex`, whose constructor rejects other shard counts. `sectionSort` is
no member of the source: it stands for the `std::sort` of the parser. -/
structure ForwardIndexOptions where
  mode : ForwardIndexMode := .kRealtimeDelta
  shardCount : UInt32 := 128
  hashSeed : UInt64 := 0
  hashVersion : UInt32 := 1
  kafkaConsumer : KafkaConsumerConfig := {}
  sectionSort : SectionSort := .stable
  shardCount_isPowerOfTwo : isPowerOfTwo shardCount.toNat = true := by decide

theorem shardCount_pos (options : ForwardIndexOptions) : 0 < options.shardCount.toNat := by
  obtain ⟨k,hk⟩ := isPowerOfTwo_iff.mp options.shardCount_isPowerOfTwo
  rw [hk]
  exact Nat.two_pow_pos k

theorem two_isPowerOfTwo : isPowerOfTwo (2 : UInt32).toNat = true := by decide

structure LoadRequest where
  artifactUri : Bytes := []
  artifactId : Bytes := []
  deriving DecidableEq

inductive LoadStateCode
  | kUnknown | kPending | kRunning | kSucceeded | kFailed | kCancelled
  deriving DecidableEq

structure ShardProgress where
  shardId : UInt32 := 0
  loaded : Bool := false
  prewarmed : Bool := false
  cutover : Bool := false
  deriving DecidableEq

structure LoadState where
  id : LoadId := 0
  code : LoadStateCode := .kUnknown
  terminal : Bool := true
  artifactUri : Bytes := []
  artifactId : Bytes := []
  totalShardCount : UInt32 := 0
  loadedShardCount : UInt32 := 0
  prewarmedShardCount : UInt32 := 0
  cutoverShardCount : UInt32 := 0
  sourceProgress : KafkaProgress := {}
  shards : List ShardProgress := []
  lastError : String := ""
  message : String := ""
  deriving DecidableEq

structure AsyncCatchUpRequest where
  loadId : LoadId := 0
  checkpoint : KafkaCheckpoint := {}
  safeProgress : KafkaProgress := {}
  hashSeed : UInt64 := 0
  hashVersion : UInt32 := 1
  layout : Option CompiledRowLayout := none
  realtimeShards : List TableRef := []
  deriving DecidableEq

/-- A shard state as a load publishes it: it shares its realtime table. -/
structure PublishedShard where
  shardId : UInt32
  generation : LoadId
  realtimeDelta : Option TableRef := none
  fullSnapshot : FullSnapshotView
  deriving DecidableEq

inductive LoadOp
  | storeState (state : LoadState)
  | isCancelled
  | mapShardFile (artifactUri : Bytes) (shardId : UInt32)
  | prewarm (shardId : UInt32)
  | createCatchUpRunner
  | start (request : AsyncCatchUpRequest)
  | captureSafeProgress
  | pollApplyCommitOnce
  | publishShard (shardId : UInt32) (state : PublishedShard)

abbrev LoadRes : LoadOp → Type
  | .storeState _ => Unit
  | .isCancelled => Bool
  | .mapShardFile _ _ => StatusOr Bytes
  | .prewarm _ => StatusOr Unit
  | .createCatchUpRunner => StatusOr Unit
  | .start _ => StatusOr Unit
  | .captureSafeProgress => StatusOr KafkaProgress
  | .pollApplyCommitOnce => StatusOr Unit
  | .publishShard _ _ => StatusOr Unit

abbrev Loading := Prog LoadRes

abbrev LoadEvent := Prog.Event LoadRes

/-- The status and the state that a load returns, or nothing while it still catches up. -/
abbrev LoadOutcome := Option (StatusOr Unit×LoadState)

abbrev LoadPart := ExceptT LoadOutcome Loading

def samePartition (lhs rhs : KafkaPartition) : Bool :=
  lhs.topic == rhs.topic && lhs.partition == rhs.partition

def sourcePartition (entry : ArtifactSourceProgress) : KafkaPartition :=
  ⟨entry.topic,entry.partition⟩

def buildCheckpoint (progress : List ArtifactSourceProgress) : KafkaCheckpoint where
  nextOffsets := progress.map fun entry => ⟨sourcePartition entry,entry.checkpointNextOffset⟩

def lagOf (highWatermark nextOffset : Int64) : Int64 := max 0 (highWatermark-nextOffset)

/-- `BuildSafeProgress`, and what `PopulateSourceProgress` writes. -/
def buildSafeProgress (progress : List ArtifactSourceProgress) : KafkaProgress where
  partitions := progress.map fun entry => {
    partition := sourcePartition entry,committedNextOffset := entry.checkpointNextOffset
    highWatermark := entry.highWatermark
    lag := lagOf entry.highWatermark entry.checkpointNextOffset }

def catchUpRequired (progress : KafkaProgress) : Bool :=
  progress.partitions.any fun entry => entry.committedNextOffset < entry.highWatermark

def findProgress (progress : KafkaProgress) (partition : KafkaPartition) :
    StatusOr KafkaPartitionProgress :=
  match progress.partitions.find? fun entry => samePartition entry.partition partition with
  | none => .error (.failedPrecondition "catch-up progress is missing a source partition")
  | some entry => .ok entry

def updateObservedEntry (observed : KafkaProgress) (target : KafkaPartitionProgress) :
    StatusOr KafkaPartitionProgress := do
  let entry ← findProgress observed target.partition
  let highWatermark := max target.highWatermark entry.highWatermark
  return {
    partition := target.partition,committedNextOffset := entry.committedNextOffset,highWatermark
    lag := lagOf highWatermark entry.committedNextOffset }

def updateObservedSafeProgress (target observed : KafkaProgress) : StatusOr KafkaProgress := do
  failIf target.partitions.isEmpty (.failedPrecondition "artifact source progress is empty")
  let partitions ← target.partitions.mapM (updateObservedEntry observed)
  return { partitions }

def markFailed (state : LoadState) (status : Status) : LoadState :=
  { state with
    code := .kFailed,terminal := true,lastError := status.message
    message := if status.message.isEmpty then "artifact load failed" else status.message }

def markCancelled (state : LoadState) : LoadState :=
  { state with
    code := .kCancelled,terminal := true,lastError := "load cancelled"
    message := "load cancelled" }

def perform (op : LoadOp) : LoadPart (LoadRes op) := ExceptT.lift (Prog.call op)

def storeState (state : LoadState) : LoadPart Unit := perform (.storeState state)

def isCancelled : LoadPart Bool := perform .isCancelled

def storeAndReturn {α : Type} (status : StatusOr Unit) (state : LoadState) : LoadPart α := do
  storeState state
  throw (some (status,state))

def failLoad {α : Type} (state : LoadState) (status : Status) : LoadPart α :=
  storeAndReturn (.error status) (markFailed state status)

def orFail {α : Type} (state : LoadState) : StatusOr α → LoadPart α
  | .error status => failLoad state status
  | .ok a => pure a

def checkCancelled (state : LoadState) : LoadPart Unit := do
  if ← isCancelled then
    storeAndReturn (.error (.cancelled "load cancelled")) (markCancelled state)

def loadOptions (options : ForwardIndexOptions) : MmapSnapshotLoadOptions where
  expectedShardCount := options.shardCount
  expectedHashSeed := options.hashSeed
  expectedHashVersion := options.hashVersion
  sourceProgressPolicy :=
    if forwardIndexModeUsesKafkaRealtime options.mode then .kRequired else .kOptional
  sectionSort := options.sectionSort

def setShard (state : LoadState) (shardId : ℕ) (f : ShardProgress → ShardProgress) : LoadState :=
  { state with shards := state.shards.modify shardId f }

def initShards (state : LoadState) (shardCount : UInt32) : LoadState :=
  { state with
    totalShardCount := shardCount
    shards := (List.range shardCount.toNat).map fun shardId => { shardId := UInt32.ofNat shardId } }

/-- The state after shard `shardId` has been loaded. -/
def noteLoaded (state : LoadState) (shardId : ℕ) (backing : MmapSnapshotBacking) : LoadState :=
  let state := if state.artifactId.isEmpty then
    { state with artifactId := backing.artifact.artifactId } else state
  let state := if shardId = 0 then
    { state with sourceProgress := buildSafeProgress backing.artifact.sourceProgress } else state
  let state := setShard state shardId fun shard => { shard with loaded := true }
  { state with loadedShardCount := state.loadedShardCount+1 }

def notePrewarmed (state : LoadState) (shardId : ℕ) : LoadState :=
  let state := setShard state shardId fun shard => { shard with prewarmed := true }
  { state with prewarmedShardCount := state.prewarmedShardCount+1 }

def noteCutover (state : LoadState) (shardId : ℕ) : LoadState :=
  let state := setShard state shardId fun shard => { shard with cutover := true }
  { state with cutoverShardCount := state.cutoverShardCount+1 }

def loadShards (request : LoadRequest) (options : ForwardIndexOptions) :
    List ℕ → LoadState → List MmapSnapshotBacking → LoadPart (LoadState×List MmapSnapshotBacking)
  | [], state, backings => return (state,backings)
  | shardId::shardIds, state, backings => do
    checkCancelled state
    let mapped ← perform (.mapShardFile request.artifactUri (UInt32.ofNat shardId))
    let bytes ← orFail state mapped
    let backing ← orFail state
      (MmapSnapshotBacking.loadShard bytes (UInt32.ofNat shardId) (loadOptions options))
    let state := noteLoaded state shardId backing
    storeState state
    loadShards request options shardIds state (backings++[backing])

def prewarmShards : List ℕ → LoadState → LoadPart LoadState
  | [], state => return state
  | shardId::shardIds, state => do
    checkCancelled state
    let status ← perform (.prewarm (UInt32.ofNat shardId))
    orFail state status
    let state := notePrewarmed state shardId
    storeState state
    prewarmShards shardIds state

/-- The shard states of a load, without realtime tables in the snapshot-only mode. -/
def shardStates (id : LoadId) (options : ForwardIndexOptions)
    (backings : List MmapSnapshotBacking) : List PublishedShard :=
  backings.mapIdx fun shardId backing => {
    shardId := UInt32.ofNat shardId,generation := id
    realtimeDelta := if forwardIndexModeUsesKafkaRealtime options.mode then some shardId else none
    fullSnapshot := ⟨some (.mmap backing)⟩ }

/-- The cutover loop, from shard `shardId` on. -/
def cutoverShards : ℕ → List PublishedShard → LoadState → LoadPart LoadState
  | _, [], state => return state
  | shardId, shard::shards, state => do
    checkCancelled state
    let status ← perform (.publishShard (UInt32.ofNat shardId) shard)
    orFail state status
    let state := noteCutover state shardId
    storeState state
    cutoverShards (shardId+1) shards state

/-- One capture of the runner's progress, taken into the state. -/
def observe (target : KafkaProgress) (state : LoadState) : LoadPart LoadState := do
  let captured ← perform .captureSafeProgress
  let observed ← orFail state captured
  let sourceProgress ← orFail state (updateObservedSafeProgress target observed)
  let state := { state with sourceProgress }
  storeState state
  return state

/-- The state and status with which a failed poll ends the load. -/
def failPoll {α : Type} (state : LoadState) (status : Status) : LoadPart α := do
  if status.code = .kCancelled then storeAndReturn (.error status) (markCancelled state)
  else if ← isCancelled then storeAndReturn (.error status) (markCancelled state)
  else failLoad state status

def catchUp : ℕ → LoadState → LoadPart LoadState
  | fuel, state =>
    if catchUpRequired state.sourceProgress then
      match fuel with
      | 0 => throw none
      | fuel+1 => do
        checkCancelled state
        let polled ← perform .pollApplyCommitOnce
        match polled with
        | .error status => failPoll state status
        | .ok _ =>
          let state ← observe state.sourceProgress state
          catchUp fuel state
    else return state

/-- The table that realtime shard `table` of a load starts as. -/
def createRealtimeShard (layout : CompiledRowLayout) (options : ForwardIndexOptions) :
    RealtimeDeltaAtomicTable :=
  RealtimeDeltaAtomicTable.create {
    layout := some layout,capacity := 1024,hashSeed := options.hashSeed
    hashVersion := options.hashVersion }

def catchUpRequest (id : LoadId) (options : ForwardIndexOptions) (artifact : ParsedArtifact) :
    AsyncCatchUpRequest where
  loadId := id
  checkpoint := buildCheckpoint artifact.sourceProgress
  safeProgress := buildSafeProgress artifact.sourceProgress
  hashSeed := options.hashSeed
  hashVersion := options.hashVersion
  layout := some artifact.layout
  realtimeShards := List.range options.shardCount.toNat

def runCatchUp (id : LoadId) (options : ForwardIndexOptions) (fuel : ℕ) (artifact : ParsedArtifact)
    (state : LoadState) : LoadPart LoadState := do
  let artifactProgress := buildSafeProgress artifact.sourceProgress
  orFail state (failIf artifactProgress.partitions.isEmpty
    (.failedPrecondition "artifact source progress is empty"))
  let runner ← perform .createCatchUpRunner
  orFail state runner
  let state := { state with message := "artifact catch-up running" }
  storeState state
  let started ← perform (.start (catchUpRequest id options artifact))
  orFail state started
  checkCancelled state
  let state ← observe artifactProgress state
  let state ← catchUp fuel state
  checkCancelled state
  return state

/-- The part between prewarm and cutover; there is a first shard in every index. -/
def catchUpPart (id : LoadId) (options : ForwardIndexOptions) (fuel : ℕ)
    (backings : List MmapSnapshotBacking) (state : LoadState) : LoadPart LoadState :=
  if forwardIndexModeUsesKafkaRealtime options.mode then
    match backings with
    | [] => pure state
    | backing::_ => runCatchUp id options fuel backing.artifact state
  else pure { state with sourceProgress := {} }

def initialState (request : LoadRequest) (id : LoadId) : LoadState where
  id := id
  code := .kRunning
  terminal := false
  artifactUri := request.artifactUri
  artifactId := request.artifactId

/-- `RunExternalArtifactLoad`; `hasPublish` says that there is a publish callback. -/
def loadArtifact (request : LoadRequest) (id : LoadId) (options : ForwardIndexOptions)
    (hasPublish : Bool) (fuel : ℕ) : LoadPart LoadOutcome := do
  let state := initialState request id
  storeState state
  orFail state (failIf request.artifactUri.isEmpty (.invalidArgument "artifact uri is empty"))
  orFail state (failIf (!hasPublish)
    (.failedPrecondition "artifact load has no publish callback"))
  checkCancelled state
  let shardIds := List.range options.shardCount.toNat
  let (state,backings) ← loadShards request options shardIds (initShards state options.shardCount) []
  let state ← prewarmShards shardIds state
  let state ← catchUpPart id options fuel backings state
  let state ← cutoverShards 0 (shardStates id options backings) state
  let state := { state with
    code := .kSucceeded,terminal := true,message := "artifact load succeeded" }
  storeAndReturn (.ok ()) state

def runExternalArtifactLoad (request : LoadRequest) (id : LoadId) (options : ForwardIndexOptions)
    (hasPublish : Bool) (fuel : ℕ) : Loading LoadOutcome := do
  match ← (loadArtifact request id options hasPublish fuel).run with
  | .error outcome => pure outcome
  | .ok outcome => pure outcome

end Rebuild
end KvIndex
