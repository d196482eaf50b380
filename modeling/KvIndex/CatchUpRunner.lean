import KvIndex.LoadRun
import KvIndex.Transition
import KvIndex.UpdateCoordinator

/-! `ProductionCatchUpRunner` (`rebuild/async_load.cc`) over librdkafka and the realtime tables of
its load. Librdkafka keeps a fetch position for each partition, which a seek sets, and the broker
keeps what the group has committed; the two know nothing of each other. -/
namespace KvIndex
namespace Rebuild

open Base Ingest

/-- The runner; the coordinator, which has the applier, is there from the start on. -/
structure ProductionCatchUpRunner where
  request : AsyncCatchUpRequest := {}
  coordinator : Option UpdateCoordinator := none

namespace ProductionCatchUpRunner

def rebuildRoute (request : AsyncCatchUpRequest) : UpdateTargetRoute where
  shardCount := request.realtimeShards.length
  hashSeed := request.hashSeed
  hashVersion := request.hashVersion
  layout := request.layout
  realtimeShards := request.realtimeShards.map some

/-- The coordinator of a start; the topic is that of the first partition. -/
def coordinatorOf (request : AsyncCatchUpRequest) : UpdateCoordinator :=
  let logicalTopic := (request.safeProgress.partitions.head?.map (·.partition.topic)).getD []
  { applier := { logicalTopic,targets := [rebuildRoute request] }
    logicalTopic
    pollOptions := { timeoutMs := 100,maxMessages := 128 } }

def start (runner : ProductionCatchUpRunner) (request : AsyncCatchUpRequest) :
    Ingesting (StatusOr Unit×ProductionCatchUpRunner) :=
  let runner := { runner with request }
  if request.safeProgress.partitions.isEmpty then
    pure (.error (.failedPrecondition "catch-up safe progress is empty"),runner)
  else do
    match ← KafkaUpdateConsumer.seek request.checkpoint with
    | .error status => pure (.error status,runner)
    | .ok _ => pure (.ok (),{ runner with coordinator := some (coordinatorOf request) })

def captureSafeProgress (runner : ProductionCatchUpRunner) : Ingesting (StatusOr KafkaProgress) :=
  match runner.coordinator with
  | none => pure (.error (.failedPrecondition "catch-up runner has not started"))
  | some _ => KafkaUpdateConsumer.progress

/-- One round; `cancelled` is what the flag of the load says. -/
def pollApplyCommitOnce (runner : ProductionCatchUpRunner) (cancelled : Bool) :
    Ingesting (StatusOr Unit) :=
  match runner.coordinator with
  | none => pure (.error (.failedPrecondition "catch-up runner has not started"))
  | some coordinator =>
    if cancelled then pure (.error (.cancelled "catch-up cancelled"))
    else Ingest.pollApplyCommitOnce coordinator

end ProductionCatchUpRunner

/-- The broker and the client. The log has every message that is ever appended; a negative
committed offset stands for none. -/
structure Broker where
  log : KafkaPartition → Int64 → Option (Bytes×Bytes)
  fetch : KafkaPartition → ℤ
  committed : KafkaPartition → Int64

def logMessage (partition : KafkaPartition) (offset : Int64) (entry : Bytes×Bytes) : RawMessage where
  topic := some partition.topic
  partition := partition.partition
  offset := offset
  key := entry.1
  payload := entry.2

namespace Broker

variable (broker : Broker)

/-- The message is the first one of its partition from the fetch position on. -/
structure Next (partition : KafkaPartition) (offset : Int64) (entry : Bytes×Bytes) : Prop where
  fetched : broker.fetch partition ≤ offset.toInt
  logged : broker.log partition offset = some entry
  first : ∀ skipped : Int64, broker.fetch partition ≤ skipped.toInt →
    skipped.toInt < offset.toInt → broker.log partition skipped = none

def deliver (partition : KafkaPartition) (offset : Int64) : Broker :=
  { broker with fetch := Function.update broker.fetch partition (offset.toInt+1) }

def positionOf (checkpoint : KafkaCheckpoint) (partition : KafkaPartition) : Option Int64 :=
  (checkpoint.nextOffsets.find? (·.partition = partition)).map (·.offset)

def seek (checkpoint : KafkaCheckpoint) : Broker :=
  { broker with fetch := fun partition =>
      match positionOf checkpoint partition with
      | some offset => offset.toInt
      | none => broker.fetch partition }

def commit (checkpoint : KafkaCheckpoint) : Broker :=
  { broker with committed := fun partition =>
      match positionOf checkpoint partition with
      | some offset => offset
      | none => broker.committed partition }

end Broker

structure IngestWorld where
  broker : Broker
  tables : Tables

/-- What an operation of ingestion does, with the answer it gets. Watermarks and the assignment may
be anything, and calls may fail. -/
def IngestStep (world : IngestWorld) (event : IngestEvent) (world' : IngestWorld) : Prop :=
  match event with
  | ⟨.publish publish,answer⟩ => answer = (publishTo publish world.tables).1 ∧
      world' = { world with tables := (publishTo publish world.tables).2 }
  | ⟨.consumerPoll _,some raw⟩ =>
    if raw.err = .noError then
      ∃ partition offset entry, world.broker.Next partition offset entry ∧
        raw = logMessage partition offset entry ∧
        world' = { world with broker := world.broker.deliver partition offset }
    else world' = world
  | ⟨.seekPartitions checkpoint,.ok _⟩ => world' = { world with broker := world.broker.seek checkpoint }
  | ⟨.seekPartitions _,.error _⟩ =>
    -- a seek that fails may have moved some partitions
    ∃ fetch, world' = { world with broker := { world.broker with fetch } }
  | ⟨.committed _,.ok offsets⟩ => world' = world ∧
      ∀ offset ∈ offsets, offset.err = none → offset.offset = world.broker.committed offset.partition
  | ⟨.commit checkpoint,.ok _⟩ => world' = { world with broker := world.broker.commit checkpoint }
  | ⟨.commit checkpoint,.error _⟩ =>
    -- a commit that fails may have been stored for some partitions
    ∃ committed, world' = { world with broker := { world.broker with committed } } ∧
      ∀ partition, committed partition = world.broker.committed partition ∨
        some (committed partition) = Broker.positionOf checkpoint partition
  | _ => world' = world

def freshTables (request : AsyncCatchUpRequest) : Tables := fun _ =>
  RealtimeDeltaAtomicTable.create {
    layout := request.layout,capacity := 1024,hashSeed := request.hashSeed
    hashVersion := request.hashVersion }

structure RunnerWorld where
  runner : ProductionCatchUpRunner := {}
  ingest : IngestWorld

/-- What an event of a load does to the runner and through it; the other events do nothing. -/
def RunnerStep (world : RunnerWorld) (event : LoadEvent) (world' : RunnerWorld) : Prop :=
  match event with
  | ⟨.start request,answer⟩ => ∃ events,
      Prog.Emits (world.runner.start request) events (some (answer,world'.runner)) ∧
      Steps IngestStep { world.ingest with tables := freshTables request } events world'.ingest
  | ⟨.captureSafeProgress,answer⟩ => world'.runner = world.runner ∧ ∃ events,
      Prog.Emits world.runner.captureSafeProgress events (some answer) ∧
      Steps IngestStep world.ingest events world'.ingest
  | ⟨.pollApplyCommitOnce,answer⟩ => world'.runner = world.runner ∧ ∃ cancelled events,
      Prog.Emits (world.runner.pollApplyCommitOnce cancelled) events (some answer) ∧
      Steps IngestStep world.ingest events world'.ingest
  | _ => world' = world

end Rebuild
end KvIndex
