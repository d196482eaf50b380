import KvIndex.ArtifactPath
import KvIndex.LoadWorld

/-! A forward index over its lifetime (`api/forward_index.cc`). Calls, workers and the destructor
take turns; what needs the mutex is one step, or holds the mutex from its first step to its last. -/
namespace KvIndex
namespace Rebuild

open Base Ingest Artifact Offline LoadView ForwardIndex

def preflightLocalArtifactUri (files : FileSystem) (request : LoadRequest) : StatusOr Unit := do
  failIf request.artifactUri.isEmpty (.invalidArgument "artifact uri is empty")
  let schemed : Bool := ascii "://" <:+: request.artifactUri
  failIf (schemed && !(ascii "file://" <+: request.artifactUri : Bool))
    (.invalidArgument "artifact uri scheme is unsupported")
  let path := if schemed then request.artifactUri.drop (ascii "file://").length
    else request.artifactUri
  failIf path.isEmpty (.invalidArgument "artifact path is empty")
  match files.stat path with
  | .missing => .error (.notFound "artifact file does not exist")
  | .failed _ => .error (.notFound "artifact file does not exist")
  | .other => .error (.invalidArgument "artifact path is neither a regular file nor a directory")
  | .regular => return ()
  | .directory => return ()

def hasKafkaConsumerConfig (config : KafkaConsumerConfig) : Bool :=
  !config.bootstrapServers.isEmpty || !config.groupId.isEmpty || !config.topics.isEmpty

/-- A thread of `load_workers_`: the rest of its load, or nothing once it has ended, and the flag
that it shares with the index. -/
structure LoadThread where
  id : LoadId
  program : Option (Loading LoadOutcome)
  flag : Bool := false

/-- What the index is at. A call of `CancelLoad` holds the mutex from the record to the flag, the
destructor while it sets the flags of these threads; then it waits for the threads. -/
inductive IndexPhase
  | serving
  | cancelling (id : LoadId)
  | stopping (threads : List ℕ)
  | joining
  | destroyed
  deriving DecidableEq

def IndexPhase.unlocked : IndexPhase → Bool
  | .serving => true
  | .joining => true
  | _ => false

/-- The members of a `ForwardIndex`. The flags in `load_cancellations_` are those of the threads
with these numbers. -/
structure ForwardIndexState where
  directory : ShardDirectory PublishedShard
  nextLoadId : LoadId := 1
  loads : LoadId → Option LoadState := fun _ => none
  loadCancellations : LoadId → Option ℕ := fun _ => none
  loadWorkers : List LoadThread := []
  phase : IndexPhase := .serving

/-- The constructor; the options carry the check of the shard count. -/
def construct (options : ForwardIndexOptions) : Except String ForwardIndexState :=
  if !forwardIndexModeUsesKafkaRealtime options.mode && hasKafkaConsumerConfig options.kafkaConsumer then
    .error "full-snapshot-only mode does not accept Kafka consumer config"
  else .ok { directory := .create options.shardCount }

/-- `unordered_map::emplace`: an entry that is there stays. -/
def emplace {β : Type} (map : LoadId → Option β) (id : LoadId) (b : β) : LoadId → Option β :=
  if (map id).isSome then map else Function.update map id (some b)

/-- The record of a load whose artifact the preflight refuses. -/
def refusedRecord (request : LoadRequest) (id : LoadId) (status : Status) : LoadState where
  id := id
  code := .kFailed
  terminal := true
  artifactUri := request.artifactUri
  artifactId := request.artifactId
  lastError := status.message
  message := status.message

namespace ForwardIndexState

/-- `LoadAsync`, with the files that the preflight meets. -/
def loadAsync (index : ForwardIndexState) (options : ForwardIndexOptions) (files : FileSystem)
    (request : LoadRequest) (fuel : ℕ) : LoadId×ForwardIndexState :=
  let id := index.nextLoadId
  match preflightLocalArtifactUri files request with
  | .error status => (id,{ index with
      nextLoadId := id+1,loads := emplace index.loads id (refusedRecord request id status) })
  | .ok _ => (id,{ index with
      nextLoadId := id+1
      loads := emplace index.loads id (recordOf request id)
      loadCancellations := emplace index.loadCancellations id index.loadWorkers.length
      loadWorkers := index.loadWorkers++
        [{ id,program := some (runExternalArtifactLoad request id options true fuel) }] })

def getLoadState (index : ForwardIndexState) (id : LoadId) : LoadState :=
  match index.loads id with
  | none => { id,code := .kUnknown,terminal := true,message := "unknown load id" }
  | some state => state

/-- The `store_state` callback of a load. -/
def storeState (index : ForwardIndexState) (id : LoadId) (state : LoadState) : ForwardIndexState :=
  match index.loads id with
  | none => index
  | some record => { index with
      loads := Function.update index.loads id (some (storeRecord record state)) }

/-- `CancelLoad` up to the flag, or nothing where it returns false. -/
def markCancelled (index : ForwardIndexState) (id : LoadId) : Option ForwardIndexState :=
  match index.loads id with
  | none => none
  | some record =>
    if record.terminal then none
    else some { index with
      loads := Function.update index.loads id (some (cancelRecord record))
      phase := .cancelling id }

def setFlag (index : ForwardIndexState) (thread : ℕ) : ForwardIndexState :=
  { index with
    loadWorkers := index.loadWorkers.modify thread fun worker => { worker with flag := true } }

/-- The rest of `CancelLoad`. -/
def finishCancel (index : ForwardIndexState) (id : LoadId) : ForwardIndexState :=
  match index.loadCancellations id with
  | none => { index with phase := .serving }
  | some thread => { index.setFlag thread with phase := .serving }

def finishThread (index : ForwardIndexState) (thread : ℕ) (id : LoadId) : ForwardIndexState :=
  { index with
    loadCancellations := Function.update index.loadCancellations id none
    loadWorkers := index.loadWorkers.modify thread fun worker => { worker with program := none } }

end ForwardIndexState

inductive ForwardIndexLabel
  | loadAsync (files : FileSystem) (request : LoadRequest) (fuel : ℕ)
  | work (thread : ℕ) (event : LoadEvent)
  | finish (thread : ℕ)
  | cancelRefused (id : LoadId)
  | cancelMarks (id : LoadId)
  | cancelReturns (id : LoadId)
  | getLoadState (id : LoadId) (answer : LoadState)
  | destroy
  | stopFlag (thread : ℕ)
  | unlock
  | destroyed

/-- What an operation of a thread does to the index, with the answer it gets. The files and the
runner may answer anything. -/
def ThreadStep (index : ForwardIndexState) (thread : LoadThread) (event : LoadEvent)
    (index' : ForwardIndexState) : Prop :=
  match event with
  | ⟨.storeState state,_⟩ => index.phase.unlocked = true ∧ index' = index.storeState thread.id state
  | ⟨.isCancelled,answer⟩ => answer = thread.flag ∧ index' = index
  | ⟨.publishShard shardId shard,answer⟩ =>
    answer = (index.directory.publish shardId (some shard)).1 ∧
      index' = { index with directory := (index.directory.publish shardId (some shard)).2 }
  | _ => index' = index

/-- The calls wait for the mutex, and nobody calls an index that is being destroyed. -/
inductive ForwardIndexStep (options : ForwardIndexOptions) :
    ForwardIndexState → ForwardIndexLabel → ForwardIndexState → Prop
  | loadAsync {index : ForwardIndexState} (files : FileSystem) (request : LoadRequest) (fuel : ℕ)
      (hphase : index.phase = .serving) :
      ForwardIndexStep options index (.loadAsync files request fuel)
        (index.loadAsync options files request fuel).2
  | work {index index' : ForwardIndexState} {i : ℕ} {thread : LoadThread} {op : LoadOp}
      {next : LoadRes op → Loading LoadOutcome} {answer : LoadRes op}
      (hthread : index.loadWorkers[i]? = some thread)
      (hprogram : thread.program = some (.perform op next))
      (hstep : ThreadStep index thread ⟨op,answer⟩ index') :
      ForwardIndexStep options index (.work i ⟨op,answer⟩) { index' with
        loadWorkers := index'.loadWorkers.set i { thread with program := some (next answer) } }
  | finish {index : ForwardIndexState} {i : ℕ} {thread : LoadThread}
      {result : StatusOr Unit×LoadState} (hthread : index.loadWorkers[i]? = some thread)
      (hprogram : thread.program = some (.done (some result)))
      (hlock : index.phase.unlocked = true) :
      ForwardIndexStep options index (.finish i) (index.finishThread i thread.id)
  | cancelRefused {index : ForwardIndexState} {id : LoadId} (hphase : index.phase = .serving)
      (hmark : index.markCancelled id = none) :
      ForwardIndexStep options index (.cancelRefused id) index
  | cancelMarks {index index' : ForwardIndexState} {id : LoadId} (hphase : index.phase = .serving)
      (hmark : index.markCancelled id = some index') :
      ForwardIndexStep options index (.cancelMarks id) index'
  | cancelReturns {index : ForwardIndexState} {id : LoadId} (hphase : index.phase = .cancelling id) :
      ForwardIndexStep options index (.cancelReturns id) (index.finishCancel id)
  | getLoadState {index : ForwardIndexState} (id : LoadId) (hphase : index.phase = .serving) :
      ForwardIndexStep options index (.getLoadState id (index.getLoadState id)) index
  /-- The destructor goes through `load_cancellations_` in an order of its own. -/
  | destroy {index : ForwardIndexState} (threads : List ℕ) (hphase : index.phase = .serving)
      (hthreads : ∀ thread, thread ∈ threads ↔ ∃ id, index.loadCancellations id = some thread) :
      ForwardIndexStep options index .destroy { index with phase := .stopping threads }
  | stopFlag {index : ForwardIndexState} {thread : ℕ} {threads : List ℕ}
      (hphase : index.phase = .stopping (thread::threads)) :
      ForwardIndexStep options index (.stopFlag thread)
        { index.setFlag thread with phase := .stopping threads }
  | unlock {index : ForwardIndexState} (hphase : index.phase = .stopping []) :
      ForwardIndexStep options index .unlock { index with phase := .joining }
  | destroyed {index : ForwardIndexState} (hphase : index.phase = .joining)
      (hended : ∀ thread ∈ index.loadWorkers, thread.program = none) :
      ForwardIndexStep options index .destroyed { index with phase := .destroyed }

/-- A call of `LoadAsync` still has an id. -/
def HasIdLeft (index : ForwardIndexState) : ForwardIndexLabel → Prop
  | .loadAsync _ _ _ => index.nextLoadId.toNat+1 < 2^64
  | _ => True

/-- A step of an index whose ids have not run out. -/
def FreshStep (options : ForwardIndexOptions) (index : ForwardIndexState)
    (label : ForwardIndexLabel) (index' : ForwardIndexState) : Prop :=
  HasIdLeft index label ∧ ForwardIndexStep options index label index'

/-- The runs of an index from its construction on. -/
def IndexHistory (options : ForwardIndexOptions) (labels : List ForwardIndexLabel)
    (index : ForwardIndexState) : Prop :=
  ∃ start, construct options = .ok start ∧ Steps (FreshStep options) start labels index

end Rebuild
end KvIndex
