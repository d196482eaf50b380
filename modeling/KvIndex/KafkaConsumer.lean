import KvIndex.UpdateApplier

/-! `KafkaUpdateConsumer` (`ingest/kafka_update_consumer.cc`) over librdkafka. The calls
into the library are operations of the environment; a call that fails answers with the
text of the error. -/
namespace KvIndex
namespace Ingest

open Base

structure KafkaPosition where
  partition : KafkaPartition := {}
  offset : Int64 := -1
  deriving DecidableEq

structure KafkaCheckpoint where
  nextOffsets : List KafkaPosition := []
  deriving DecidableEq

structure KafkaPartitionProgress where
  partition : KafkaPartition := {}
  committedNextOffset : Int64 := -1
  highWatermark : Int64 := -1
  lag : Int64 := -1
  deriving DecidableEq

structure KafkaProgress where
  partitions : List KafkaPartitionProgress := []
  deriving DecidableEq

structure PollOptions where
  timeoutMs : Int32 := 100
  maxMessages : ℕ := 1
  deriving DecidableEq

/-- The error code of an `rd_kafka_message_t`. -/
inductive RawError
  | noError
  | partitionEof
  | failed (text : String)
  deriving DecidableEq

/-- An `rd_kafka_message_t`; the topic is missing when its handle is null. -/
structure RawMessage where
  err : RawError := .noError
  topic : Option Bytes := none
  partition : Int32 := 0
  offset : Int64 := 0
  key : Bytes := []
  payload : Bytes := []
  deriving DecidableEq

/-- A partition of `rd_kafka_committed`; a negative offset stands for none. -/
structure CommittedOffset where
  partition : KafkaPartition
  offset : Int64
  err : Option String := none
  deriving DecidableEq

/-- What ingestion does to the world: librdkafka calls and publishes to tables. -/
inductive IngestOp
  | consumerPoll (timeoutMs : Int32)
  | seekPartitions (checkpoint : KafkaCheckpoint)
  | assignment
  | committed (partitions : List KafkaPartition)
  | queryWatermarkOffsets (partition : KafkaPartition)
  | commit (checkpoint : KafkaCheckpoint)
  | publish (publish : PreparedPublish)
  deriving DecidableEq

abbrev IngestRes : IngestOp → Type
  | .consumerPoll _ => Option RawMessage
  | .seekPartitions _ => Except String Unit
  | .assignment => Except String (List KafkaPartition)
  | .committed _ => Except String (List CommittedOffset)
  | .queryWatermarkOffsets _ => Except String (Int64×Int64)
  | .commit _ => Except String Unit
  | .publish _ => StatusOr Unit

abbrev Ingesting := Prog IngestRes

abbrev IngestEvent := Prog.Event IngestRes

def rdKafkaConsumerPoll (timeoutMs : Int32) : Ingesting (Option RawMessage) :=
  Prog.call (IngestOp.consumerPoll timeoutMs)

def rdKafkaSeekPartitions (checkpoint : KafkaCheckpoint) : Ingesting (Except String Unit) :=
  Prog.call (IngestOp.seekPartitions checkpoint)

def rdKafkaAssignment : Ingesting (Except String (List KafkaPartition)) :=
  Prog.call IngestOp.assignment

def rdKafkaCommitted (partitions : List KafkaPartition) :
    Ingesting (Except String (List CommittedOffset)) :=
  Prog.call (IngestOp.committed partitions)

def rdKafkaQueryWatermarkOffsets (partition : KafkaPartition) :
    Ingesting (Except String (Int64×Int64)) :=
  Prog.call (IngestOp.queryWatermarkOffsets partition)

def rdKafkaCommit (checkpoint : KafkaCheckpoint) : Ingesting (Except String Unit) :=
  Prog.call (IngestOp.commit checkpoint)

def validatePollOptions (options : PollOptions) : StatusOr Unit := do
  failIf (options.timeoutMs < 0) (.invalidArgument "poll timeout must not be negative")
  failIf (options.maxMessages == 0) (.invalidArgument "poll max_messages must be positive")

def validatePartition (partition : KafkaPartition) : StatusOr Unit := do
  failIf partition.topic.isEmpty (.invalidArgument "kafka partition topic must not be empty")
  failIf (partition.partition < 0) (.invalidArgument "kafka partition id must not be negative")

def validateMessage (message : KafkaUpsertMessage) : StatusOr Unit := do
  validatePartition message.metadata.partition
  failIf (message.metadata.offset < 0)
    (.invalidArgument "kafka message offset must not be negative")

/-- The loop of `ValidateCheckpoint`, with the partitions seen so far. -/
def validatePositions (seen : List KafkaPartition) : List KafkaPosition → StatusOr Unit
  | [] => .ok ()
  | position::positions => do
    validatePartition position.partition
    failIf (position.offset < 0)
      (.invalidArgument "kafka checkpoint offset must not be negative")
    failIf (seen.contains position.partition)
      (.invalidArgument "kafka checkpoint contains duplicate topic partition")
    validatePositions (position.partition::seen) positions

def validateCheckpoint (checkpoint : KafkaCheckpoint) : StatusOr Unit := do
  failIf checkpoint.nextOffsets.isEmpty (.invalidArgument "kafka checkpoint must not be empty")
  validatePositions [] checkpoint.nextOffsets

/-- The loop of `ValidateProgress`. -/
def validateProgressEntries (seen : List KafkaPartition) :
    List KafkaPartitionProgress → StatusOr Unit
  | [] => .ok ()
  | entry::entries => do
    validatePartition entry.partition
    failIf (entry.committedNextOffset < 0 || entry.highWatermark < 0 || entry.lag < 0)
      (.invalidArgument "kafka progress offsets and lag must not be negative")
    failIf (seen.contains entry.partition)
      (.invalidArgument "kafka progress contains duplicate topic partition")
    validateProgressEntries (entry.partition::seen) entries

def validateProgress (progress : KafkaProgress) : StatusOr Unit :=
  validateProgressEntries [] progress.partitions

/-- `ParsePrimaryKey`; `std::from_chars` must take the whole key and stay in range. -/
def parsePrimaryKey (key : Bytes) : StatusOr UInt64 := do
  failIf key.isEmpty (.invalidArgument "kafka upsert key is empty")
  failIf (!key.all isDigit || decimalValue key > uint64Max)
    (.invalidArgument "kafka upsert key must be an unsigned decimal primary key")
  return UInt64.ofNat (decimalValue key)

def convertMessage (message : RawMessage) : StatusOr KafkaUpsertMessage :=
  match message.topic with
  | none => .error (.invalidArgument "kafka message has no topic")
  | some topic => do
    failIf (message.partition < 0 || message.offset < 0)
      (.invalidArgument "kafka message position is invalid")
    let primaryKey ← parsePrimaryKey message.key
    return {
      metadata := { partition := ⟨topic,message.partition⟩,offset := message.offset }
      primaryKey,payload := message.payload }

namespace LibrdkafkaUpdateConsumerClient

/-- The loop of `Poll`, with the messages polled so far. -/
def pollMessages (timeoutMs : Int32) : ℕ → List KafkaUpsertMessage →
    Ingesting (StatusOr (List KafkaUpsertMessage))
  | 0, messages => pure (.ok messages)
  | remaining+1, messages => do
    match ← rdKafkaConsumerPoll (if messages.isEmpty then timeoutMs else 0) with
    | none => pure (.ok messages)
    | some raw =>
      match raw.err with
      | .partitionEof => pollMessages timeoutMs remaining messages
      | .failed text => pure (.error (.unavailable ("kafka poll failed: "++text)))
      | .noError =>
        match convertMessage raw with
        | .error status => pure (.error status)
        | .ok message => pollMessages timeoutMs remaining (messages++[message])

def poll (options : PollOptions) : Ingesting (StatusOr (List KafkaUpsertMessage)) :=
  pollMessages options.timeoutMs options.maxMessages []

def seek (checkpoint : KafkaCheckpoint) : Ingesting (StatusOr Unit) := do
  match ← rdKafkaSeekPartitions checkpoint with
  | .error text => pure (.error (.unavailable ("kafka seek failed: "++text)))
  | .ok _ => pure (.ok ())

def partitionProgress (partition : KafkaPartition) (offset high : Int64) :
    KafkaPartitionProgress :=
  let committed := if offset ≥ 0 then offset else 0
  { partition,committedNextOffset := committed,highWatermark := high
    lag := if high ≥ committed then high-committed else 0 }

/-- The partition loop of `Progress`. -/
def readProgress : List CommittedOffset → List KafkaPartitionProgress →
    Ingesting (StatusOr KafkaProgress)
  | [], entries => pure (.ok ⟨entries⟩)
  | committed::rest, entries => do
    match committed.err with
    | some text => pure (.error (.unavailable ("kafka partition progress failed: "++text)))
    | none =>
      match ← rdKafkaQueryWatermarkOffsets committed.partition with
      | .error text => pure (.error (.unavailable ("kafka watermark query failed: "++text)))
      | .ok (_,high) =>
        readProgress rest (entries++[partitionProgress committed.partition committed.offset high])

def progress : Ingesting (StatusOr KafkaProgress) := do
  match ← rdKafkaAssignment with
  | .error text => pure (.error (.unavailable ("kafka assignment failed: "++text)))
  | .ok partitions =>
    if partitions.isEmpty then pure (.ok {})
    else
      match ← rdKafkaCommitted partitions with
      | .error text => pure (.error (.unavailable ("kafka committed offsets failed: "++text)))
      | .ok committed => readProgress committed []

def commit (checkpoint : KafkaCheckpoint) : Ingesting (StatusOr Unit) := do
  match ← rdKafkaCommit checkpoint with
  | .error text => pure (.error (.unavailable ("kafka commit failed: "++text)))
  | .ok _ => pure (.ok ())

end LibrdkafkaUpdateConsumerClient

namespace KafkaUpdateConsumer

open LibrdkafkaUpdateConsumerClient

def checked {α : Type} (check : α → StatusOr Unit) (value : StatusOr α) : StatusOr α := do
  let a ← value
  check a
  return a

def poll (options : PollOptions) : Ingesting (StatusOr (List KafkaUpsertMessage)) :=
  match validatePollOptions options with
  | .error status => pure (.error status)
  | .ok _ => do
    let batch ← LibrdkafkaUpdateConsumerClient.poll options
    pure (checked (fun messages => messages.forM validateMessage) batch)

def seek (checkpoint : KafkaCheckpoint) : Ingesting (StatusOr Unit) :=
  match validateCheckpoint checkpoint with
  | .error status => pure (.error status)
  | .ok _ => LibrdkafkaUpdateConsumerClient.seek checkpoint

def progress : Ingesting (StatusOr KafkaProgress) := do
  let progress ← LibrdkafkaUpdateConsumerClient.progress
  pure (checked validateProgress progress)

def commit (checkpoint : KafkaCheckpoint) : Ingesting (StatusOr Unit) :=
  match validateCheckpoint checkpoint with
  | .error status => pure (.error status)
  | .ok _ => LibrdkafkaUpdateConsumerClient.commit checkpoint

end KafkaUpdateConsumer
end Ingest
end KvIndex
