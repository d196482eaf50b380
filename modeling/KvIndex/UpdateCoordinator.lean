import KvIndex.FirstWins
import KvIndex.KafkaConsumer

/-! `UpdateCoordinator` (`ingest/update_coordinator.cc`): one call polls a batch, applies
all of it and commits behind its last offsets. A run is a sequence of such calls on one
consumer. -/
namespace KvIndex
namespace Ingest

open Base

structure UpdateCoordinator where
  applier : UpdateApplierOptions
  logicalTopic : Bytes := []
  pollOptions : PollOptions := {}

def validateCoordinatorOptions (coordinator : UpdateCoordinator) : StatusOr Unit := do
  failIf coordinator.logicalTopic.isEmpty
    (.invalidArgument "update coordinator logical topic is empty")
  failIf (coordinator.pollOptions.timeoutMs < 0)
    (.invalidArgument "poll timeout must not be negative")
  failIf (coordinator.pollOptions.maxMessages == 0)
    (.invalidArgument "poll max_messages must be positive")

def validateBatchMessage (logicalTopic : Bytes) (message : KafkaUpsertMessage) :
    StatusOr Unit := do
  failIf message.metadata.partition.topic.isEmpty
    (.invalidArgument "kafka message topic is empty")
  failIf (message.metadata.partition.topic != logicalTopic)
    (.failedPrecondition "coordinator stream contains multiple logical topics")
  failIf (message.metadata.partition.partition < 0)
    (.invalidArgument "kafka message partition is invalid")
  failIf (message.metadata.offset < 0) (.invalidArgument "kafka message offset is invalid")

def validateBatchTopicAndPositions (messages : List KafkaUpsertMessage) (logicalTopic : Bytes) :
    StatusOr Unit :=
  messages.forM (validateBatchMessage logicalTopic)

/-- One round of `BuildCommitCheckpoint`: the greatest offset of each partition so far. -/
def raiseMaxOffset (maxOffsets : List KafkaPosition) (message : KafkaUpsertMessage) :
    StatusOr (List KafkaPosition) := do
  failIf (message.metadata.offset == Int64.maxValue)
    (.invalidArgument "kafka message offset cannot advance")
  let position : KafkaPosition := ⟨message.metadata.partition,message.metadata.offset⟩
  match FirstWins.find KafkaPosition.partition maxOffsets message.metadata.partition with
  | none => return maxOffsets++[position]
  | some current =>
    if position.offset > current.offset then
      return FirstWins.replace KafkaPosition.partition position maxOffsets
    return maxOffsets

/-- The order of `std::pair<std::string, std::int32_t>`. -/
def partitionLe (lhs rhs : KafkaPosition) : Prop :=
  lhs.partition.topic < rhs.partition.topic ∨
    (lhs.partition.topic = rhs.partition.topic ∧ lhs.partition.partition ≤ rhs.partition.partition)

instance : DecidableRel partitionLe :=
  fun lhs rhs => inferInstanceAs (Decidable (lhs.partition.topic < rhs.partition.topic ∨
    (lhs.partition.topic = rhs.partition.topic ∧ lhs.partition.partition ≤ rhs.partition.partition)))

def buildCommitCheckpoint (messages : List KafkaUpsertMessage) : StatusOr KafkaCheckpoint := do
  let maxOffsets ← messages.foldlM raiseMaxOffset []
  return { nextOffsets := (maxOffsets.insertionSort partitionLe).map fun position =>
    { position with offset := position.offset+1 } }

def publishRow (publish : PreparedPublish) : Ingesting (StatusOr Unit) :=
  Prog.call (IngestOp.publish publish)

/-- The checks of a batch that is not empty, and the checkpoint behind it. -/
def checkBatch (coordinator : UpdateCoordinator) (batch : List KafkaUpsertMessage) :
    StatusOr KafkaCheckpoint := do
  validateBatchTopicAndPositions batch coordinator.logicalTopic
  buildCommitCheckpoint batch

def pollApplyCommitOnce (coordinator : UpdateCoordinator) : Ingesting (StatusOr Unit) :=
  match validateCoordinatorOptions coordinator with
  | .error status => pure (.error status)
  | .ok _ => do
    match ← KafkaUpdateConsumer.poll coordinator.pollOptions with
    | .error status => pure (.error status)
    | .ok batch =>
      if batch.isEmpty then pure (.ok ())
      else
        match checkBatch coordinator batch with
        | .error status => pure (.error status)
        | .ok checkpoint =>
          match ← (applyBatch coordinator.applier batch).interp publishRow with
          | .error status => pure (.error status)
          | .ok _ => KafkaUpdateConsumer.commit checkpoint

def delivered (events : List IngestEvent) : List RawMessage :=
  events.filterMap fun event =>
    match event with
    | ⟨.consumerPoll _,some raw⟩ => if raw.err = .noError then some raw else none
    | _ => none

def published (events : List IngestEvent) : List PreparedPublish :=
  events.filterMap fun event =>
    match event with
    | ⟨.publish publish,.ok _⟩ => some publish
    | _ => none

def commits (events : List IngestEvent) : List KafkaCheckpoint :=
  events.filterMap fun event =>
    match event with
    | ⟨.commit checkpoint,.ok _⟩ => some checkpoint
    | _ => none

/-- The message was published to every target. -/
def Applied (applier : UpdateApplierOptions) (events : List IngestEvent) (raw : RawMessage) : Prop :=
  ∃ message prepared, convertMessage raw = .ok message ∧ prepare applier message = .ok prepared ∧
    ∀ publish ∈ prepared, publish ∈ published events

instance (applier : UpdateApplierOptions) (events : List IngestEvent) (raw : RawMessage) :
    Decidable (Applied applier events raw) :=
  match hc : convertMessage raw with
  | .error status => isFalse fun ⟨_,_,hconv,_⟩ => by
    rw [hc] at hconv
    cases hconv
  | .ok message =>
    match hp : prepare applier message with
    | .error status => isFalse fun ⟨_,_,hconv,hprep,_⟩ => by
      rw [hc,Except.ok.injEq] at hconv
      subst hconv
      rw [hp] at hprep
      cases hprep
    | .ok prepared => decidable_of_iff (∀ publish ∈ prepared, publish ∈ published events)
      ⟨fun h => ⟨message,prepared,hc,hp,h⟩,fun ⟨_,_,hconv,hprep,h⟩ => by
        rw [hc,Except.ok.injEq] at hconv
        subst hconv
        rw [hp,Except.ok.injEq] at hprep
        rwa [hprep]⟩

def RawMessage.On (raw : RawMessage) (partition : KafkaPartition) : Prop :=
  raw.topic = some partition.topic ∧ raw.partition = partition.partition

instance (raw : RawMessage) (partition : KafkaPartition) : Decidable (raw.On partition) :=
  inferInstanceAs (Decidable (_ ∧ _))

@[simp] theorem delivered_append (before after : List IngestEvent) :
    delivered (before++after) = delivered before++delivered after := List.filterMap_append

@[simp] theorem published_append (before after : List IngestEvent) :
    published (before++after) = published before++published after := List.filterMap_append

theorem Applied.mono {applier : UpdateApplierOptions} {before after : List IngestEvent}
    {raw : RawMessage} (h : ∀ publish ∈ published before, publish ∈ published after)
    (ha : Applied applier before raw) : Applied applier after raw := by
  obtain ⟨message,prepared,hconv,hprep,hall⟩ := ha
  exact ⟨message,prepared,hconv,hprep,fun publish hp => h publish (hall publish hp)⟩

end Ingest
end KvIndex
