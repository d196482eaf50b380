import KvIndex.AsyncLoad

/-! What the events of a load say: the shards it loaded, prewarmed and published, the
progress it was told, and the states it stored. From these the rules say which
operation a load may do next. -/
namespace KvIndex
namespace Rebuild

open Base Ingest Artifact

def storedStates (events : List LoadEvent) : List LoadState :=
  events.filterMap fun event =>
    match event with
    | ⟨.storeState state,_⟩ => some state
    | _ => none

/-- The backings of the shards that loaded, in the order of loading. -/
def loadedBackings (options : ForwardIndexOptions) (events : List LoadEvent) :
    List MmapSnapshotBacking :=
  events.filterMap fun event =>
    match event with
    | ⟨.mapShardFile _ shardId,.ok bytes⟩ =>
      (MmapSnapshotBacking.loadShard bytes shardId (loadOptions options)).toOption
    | _ => none

def prewarmedShards (events : List LoadEvent) : List UInt32 :=
  events.filterMap fun event =>
    match event with
    | ⟨.prewarm shardId,.ok _⟩ => some shardId
    | _ => none

def startedRequests (events : List LoadEvent) : List AsyncCatchUpRequest :=
  events.filterMap fun event =>
    match event with
    | ⟨.start request,.ok _⟩ => some request
    | _ => none

/-- The progress that the catch-up runner has answered with. -/
def observedProgress (events : List LoadEvent) : List KafkaProgress :=
  events.filterMap fun event =>
    match event with
    | ⟨.captureSafeProgress,.ok progress⟩ => some progress
    | _ => none

def publishCalls (events : List LoadEvent) : List PublishedShard :=
  events.filterMap fun event =>
    match event with
    | ⟨.publishShard _ shard,_⟩ => some shard
    | _ => none

def publishedShards (events : List LoadEvent) : List PublishedShard :=
  events.filterMap fun event =>
    match event with
    | ⟨.publishShard _ shard,.ok _⟩ => some shard
    | _ => none

structure LoadView where
  backings : List MmapSnapshotBacking
  prewarmed : List UInt32
  starts : List AsyncCatchUpRequest
  observed : List KafkaProgress
  calls : List PublishedShard
  published : List PublishedShard
  finished : Bool

def view (options : ForwardIndexOptions) (events : List LoadEvent) : LoadView where
  backings := loadedBackings options events
  prewarmed := prewarmedShards events
  starts := startedRequests events
  observed := observedProgress events
  calls := publishCalls events
  published := publishedShards events
  finished := (storedStates events).any (·.terminal)

section View

variable {options : ForwardIndexOptions} {events : List LoadEvent}

theorem storedStates_append (before after : List LoadEvent) :
    storedStates (before++after) = storedStates before++storedStates after := List.filterMap_append

theorem loadedBackings_append (before after : List LoadEvent) :
    loadedBackings options (before++after) =
      loadedBackings options before++loadedBackings options after := List.filterMap_append

theorem startedRequests_append (before after : List LoadEvent) :
    startedRequests (before++after) = startedRequests before++startedRequests after :=
  List.filterMap_append

theorem observedProgress_append (before after : List LoadEvent) :
    observedProgress (before++after) = observedProgress before++observedProgress after :=
  List.filterMap_append

theorem publishCalls_append (before after : List LoadEvent) :
    publishCalls (before++after) = publishCalls before++publishCalls after := List.filterMap_append

theorem publishedShards_append (before after : List LoadEvent) :
    publishedShards (before++after) = publishedShards before++publishedShards after :=
  List.filterMap_append

theorem storedStates_silent {event : LoadEvent} (h : storedStates [event] = []) :
    storedStates (events++[event]) = storedStates events := by
  rw [storedStates_append,h,List.append_nil]

theorem startedRequests_silent {event : LoadEvent} (h : startedRequests [event] = []) :
    startedRequests (events++[event]) = startedRequests events := by
  rw [startedRequests_append,h,List.append_nil]

theorem observedProgress_silent {event : LoadEvent} (h : observedProgress [event] = []) :
    observedProgress (events++[event]) = observedProgress events := by
  rw [observedProgress_append,h,List.append_nil]

theorem publishCalls_silent {event : LoadEvent} (h : publishCalls [event] = []) :
    publishCalls (events++[event]) = publishCalls events := by
  rw [publishCalls_append,h,List.append_nil]

theorem publishedShards_silent {event : LoadEvent} (h : publishedShards [event] = []) :
    publishedShards (events++[event]) = publishedShards events := by
  rw [publishedShards_append,h,List.append_nil]

def LoadView.append (v w : LoadView) : LoadView where
  backings := v.backings++w.backings
  prewarmed := v.prewarmed++w.prewarmed
  starts := v.starts++w.starts
  observed := v.observed++w.observed
  calls := v.calls++w.calls
  published := v.published++w.published
  finished := v.finished || w.finished

theorem view_append (before after : List LoadEvent) :
    view options (before++after) = (view options before).append (view options after) := by
  simp only [view,LoadView.append,loadedBackings,prewarmedShards,startedRequests,observedProgress,
    publishCalls,publishedShards,storedStates,List.filterMap_append,List.any_append]

theorem view_silent {event : LoadEvent} (h : view options [event] = view options []) :
    view options (events++[event]) = view options events := by
  rw [view_append,h,← view_append,List.append_nil]

variable (options events)

theorem view_storeState (state : LoadState) :
    view options (events++[⟨.storeState state,()⟩]) =
      { view options events with
        finished := (view options events).finished || state.terminal } := by
  rw [view_append]
  show (view options events).append ⟨[],[],[],[],[],[],state.terminal || false⟩ = _
  simp [LoadView.append]

@[simp] theorem view_isCancelled (answer : Bool) :
    view options (events++[⟨.isCancelled,answer⟩]) = view options events := view_silent rfl

theorem view_mapShardFile (uri : Bytes) {bytes : Bytes} {shardId : UInt32} {backing : MmapSnapshotBacking}
    (h : MmapSnapshotBacking.loadShard bytes shardId (loadOptions options) = .ok backing) :
    view options (events++[⟨.mapShardFile uri shardId,.ok bytes⟩]) =
      { view options events with backings := (view options events).backings++[backing] } := by
  have hone : loadedBackings options [⟨.mapShardFile uri shardId,.ok bytes⟩] = [backing] := by
    simp [loadedBackings,h,Except.toOption]
  rw [view_append]
  show (view options events).append
    ⟨loadedBackings options [⟨.mapShardFile uri shardId,.ok bytes⟩],[],[],[],[],[],false⟩ = _
  simp [LoadView.append,hone]

theorem view_mapShardFile_error {uri bytes : Bytes} {shardId : UInt32} {status : Status}
    (h : MmapSnapshotBacking.loadShard bytes shardId (loadOptions options) = .error status) :
    view options (events++[⟨.mapShardFile uri shardId,.ok bytes⟩]) = view options events := by
  have hnone : loadedBackings options [⟨.mapShardFile uri shardId,.ok bytes⟩] = [] := by
    simp [loadedBackings,h,Except.toOption]
  refine view_silent ?_
  show LoadView.mk (loadedBackings options [⟨.mapShardFile uri shardId,.ok bytes⟩])
    [] [] [] [] [] false = _
  rw [hnone]
  rfl

@[simp] theorem view_mapShardFile_missing (uri : Bytes) (shardId : UInt32) (status : Status) :
    view options (events++[⟨.mapShardFile uri shardId,.error status⟩]) = view options events :=
  view_silent rfl

@[simp] theorem view_prewarm (shardId : UInt32) :
    view options (events++[⟨.prewarm shardId,.ok ()⟩]) =
      { view options events with prewarmed := (view options events).prewarmed++[shardId] } := by
  rw [view_append]
  show (view options events).append ⟨[],[shardId],[],[],[],[],false⟩ = _
  simp [LoadView.append]

@[simp] theorem view_prewarm_error (shardId : UInt32) (status : Status) :
    view options (events++[⟨.prewarm shardId,.error status⟩]) = view options events :=
  view_silent rfl

@[simp] theorem view_createCatchUpRunner (answer : StatusOr Unit) :
    view options (events++[⟨.createCatchUpRunner,answer⟩]) = view options events := view_silent rfl

@[simp] theorem view_start (request : AsyncCatchUpRequest) :
    view options (events++[⟨.start request,.ok ()⟩]) =
      { view options events with starts := (view options events).starts++[request] } := by
  rw [view_append]
  show (view options events).append ⟨[],[],[request],[],[],[],false⟩ = _
  simp [LoadView.append]

@[simp] theorem view_start_error (request : AsyncCatchUpRequest) (status : Status) :
    view options (events++[⟨.start request,.error status⟩]) = view options events := view_silent rfl

@[simp] theorem view_capture (progress : KafkaProgress) :
    view options (events++[⟨.captureSafeProgress,.ok progress⟩]) =
      { view options events with observed := (view options events).observed++[progress] } := by
  rw [view_append]
  show (view options events).append ⟨[],[],[],[progress],[],[],false⟩ = _
  simp [LoadView.append]

@[simp] theorem view_capture_error (status : Status) :
    view options (events++[⟨.captureSafeProgress,.error status⟩]) = view options events :=
  view_silent rfl

@[simp] theorem view_poll (answer : StatusOr Unit) :
    view options (events++[⟨.pollApplyCommitOnce,answer⟩]) = view options events := view_silent rfl

@[simp] theorem view_publish (shardId : UInt32) (shard : PublishedShard) :
    view options (events++[⟨.publishShard shardId shard,.ok ()⟩]) =
      { view options events with
        calls := (view options events).calls++[shard]
        published := (view options events).published++[shard] } := by
  rw [view_append]
  show (view options events).append ⟨[],[],[],[],[shard],[shard],false⟩ = _
  simp [LoadView.append]

@[simp] theorem view_publish_error (shardId : UInt32) (shard : PublishedShard) (status : Status) :
    view options (events++[⟨.publishShard shardId shard,.error status⟩]) =
      { view options events with calls := (view options events).calls++[shard] } := by
  rw [view_append]
  show (view options events).append ⟨[],[],[],[],[shard],[],false⟩ = _
  simp [LoadView.append]

end View

/-- The ids of the first `n` shards. -/
def shardIds (n : ℕ) : List UInt32 := (List.range n).map UInt32.ofNat

/-- The counts of a state agree with its flags and are in order. -/
structure Truthful (state : LoadState) : Prop where
  cutover_le : state.cutoverShardCount ≤ state.prewarmedShardCount
  prewarmed_le : state.prewarmedShardCount ≤ state.loadedShardCount
  loaded_le : state.loadedShardCount ≤ state.totalShardCount
  loaded : state.loadedShardCount.toNat = state.shards.countP (·.loaded)
  prewarmed : state.prewarmedShardCount.toNat = state.shards.countP (·.prewarmed)
  cutover : state.cutoverShardCount.toNat = state.shards.countP (·.cutover)

/-- Every observation so far has an entry for every source partition of the artifact. -/
def NothingMissing (artifact : ParsedArtifact) (observed : List KafkaProgress) : Prop :=
  ∀ progress ∈ observed, ∀ entry ∈ artifact.sourceProgress,
    ∃ seen, findProgress progress (sourcePartition entry) = .ok seen

/-- The last observed committed offset of every source partition has reached the
watermark of the artifact and every observed one. -/
def CaughtUp (artifact : ParsedArtifact) (observed : List KafkaProgress) : Prop :=
  ∀ entry ∈ artifact.sourceProgress, ∃ last final, observed.getLast? = some last ∧
    findProgress last (sourcePartition entry) = .ok final ∧
    entry.highWatermark ≤ final.committedNextOffset ∧
    ∀ progress ∈ observed, ∀ seen, findProgress progress (sourcePartition entry) = .ok seen →
      seen.highWatermark ≤ final.committedNextOffset

namespace LoadView

def Complete (v : LoadView) : Prop :=
  ∀ backing ∈ v.backings.head?, NothingMissing backing.artifact v.observed

/-- A runner catches up from the progress of the first shard's artifact. -/
def CatchingUp (v : LoadView) (id : LoadId) (options : ForwardIndexOptions) : Prop :=
  ∃ backing, v.backings.head? = some backing ∧
    v.starts = [catchUpRequest id options backing.artifact]

/-- A shard is published after all shards have been loaded and prewarmed, behind the
shards with smaller ids, and in a Kafka mode after the catch-up. -/
structure MayPublish (v : LoadView) (id : LoadId) (options : ForwardIndexOptions)
    (shardId : UInt32) (shard : PublishedShard) : Prop where
  loaded : v.backings.map (·.shardId) = shardIds options.shardCount.toNat
  prewarmed : v.prewarmed = shardIds options.shardCount.toNat
  shard : (shardStates id options v.backings)[shardId.toNat]? = some shard
  calls : v.calls = (shardStates id options v.backings).take shardId.toNat
  published : v.published = v.calls
  complete : v.Complete
  caughtUp : forwardIndexModeUsesKafkaRealtime options.mode = true →
    v.CatchingUp id options ∧ ∀ backing ∈ v.backings.head?, CaughtUp backing.artifact v.observed

/-- A state may be stored when it tells the truth. -/
structure MayStore (v : LoadView) (options : ForwardIndexOptions) (state : LoadState) : Prop where
  truthful : Truthful state
  cutover : state.cutoverShardCount.toNat = v.published.length
  succeeded : state.code = .kSucceeded → v.published.length = options.shardCount.toNat
  terminal : state.terminal = true ↔ state.code ≠ .kRunning

end LoadView

def loadRules (id : LoadId) (options : ForwardIndexOptions) : Prog.Rules LoadRes where
  allowed history op :=
    (view options history).finished = false ∧
    match op with
    | .storeState state => (view options history).MayStore options state
    | .start request => (view options history).starts = [] ∧ (view options history).calls = [] ∧
        ∃ backing, (view options history).backings.head? = some backing ∧
          request = catchUpRequest id options backing.artifact
    | .captureSafeProgress | .pollApplyCommitOnce =>
      (view options history).calls = [] ∧ (view options history).Complete ∧
        (view options history).CatchingUp id options
    | .publishShard shardId shard =>
      history.getLast? = some ⟨.isCancelled,false⟩ ∧
        (view options history).MayPublish id options shardId shard
    | _ => True

end Rebuild
end KvIndex
