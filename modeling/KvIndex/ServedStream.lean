import KvIndex.ForwardIndex
import KvIndex.StreamedTables

/-! What a shard answers at its cutover. For each key it is an update of the stream that is as new
as anything the consumer has passed for that key, or the row of the artifact where the consumer
has passed no update of the key. -/
namespace KvIndex
namespace Rebuild

open Base Ingest Artifact RealtimeDeltaAtomicTable

section Layout

theorem publishTo_layout (publish : PreparedPublish) (tables : Tables) (ref : TableRef) :
    ((publishTo publish tables).2 ref).layout = (tables ref).layout := by
  by_cases href : ref = publish.table
  · subst href
    rw [publishTo_self,publish_layout]
  · rw [publishTo_of_ne href]

theorem layout_ingested {world world' : IngestWorld} {events : List IngestEvent}
    (h : Steps IngestStep world events world') (ref : TableRef) :
    (world'.tables ref).layout = (world.tables ref).layout := by
  induction h with
  | nil => rfl
  | @snoc events mid world' event _ hstep ih =>
    obtain ⟨op,answer⟩ := event
    by_cases hop : ∃ publish, op = .publish publish
    · obtain ⟨publish,rfl⟩ := hop
      obtain ⟨-,rfl⟩ := hstep
      exact (publishTo_layout publish mid.tables ref).trans ih
    · rw [tables_of_step hstep fun publish heq => hop ⟨publish,heq⟩]
      exact ih

variable {request : LoadRequest} {id : LoadId} {options : ForwardIndexOptions} {hasPublish : Bool}
  {fuel : ℕ} {history : List LoadEvent} {out : Option LoadOutcome} {start world : RunnerWorld}

/-- From the start of the runner on, the tables have the layout that it was started with. -/
theorem layout_run (hsteps : Steps RunnerStep start history world)
    (hrun : LoadRun request id options hasPublish fuel history out) {asked : AsyncCatchUpRequest}
    (hstarts : startedRequests history = [asked]) (ref : TableRef) :
    (world.ingest.tables ref).layout = asked.layout := by
  induction hsteps generalizing out with
  | nil => cases hstarts
  | @snoc history mid world event _ hstep ih =>
    have hallowed := hrun.allowed (show history++[event] = history++event::[] from rfl)
    obtain ⟨op,answer⟩ := event
    cases op with
    | start other =>
      have hnone : startedRequests history = [] := hallowed.2.1
      obtain ⟨events,-,hingested⟩ := hstep
      cases answer with
      | error status =>
        rw [startedRequests_silent rfl,hnone] at hstarts
        cases hstarts
      | ok _ =>
        rw [startedRequests_start,hnone,List.nil_append,List.singleton_inj] at hstarts
        subst hstarts
        exact layout_ingested hingested ref
    | captureSafeProgress =>
      obtain ⟨-,events,-,hingested⟩ := hstep
      rw [startedRequests_silent (by cases answer <;> rfl)] at hstarts
      exact (layout_ingested hingested ref).trans (ih hrun.before hstarts)
    | pollApplyCommitOnce =>
      obtain ⟨-,cancelled,events,-,hingested⟩ := hstep
      rw [startedRequests_silent (by cases answer <;> rfl)] at hstarts
      exact (layout_ingested hingested ref).trans (ih hrun.before hstarts)
    | _ =>
      obtain rfl := hstep
      rw [startedRequests_silent rfl] at hstarts
      exact ih hrun.before hstarts

end Layout

/-- The consumer has passed a message that updates the key in the table. -/
def PassedUpdate (applier : UpdateApplierOptions) (artifact : ParsedArtifact)
    (broker : Broker) (ref : TableRef) (k : UInt64) (publish : PreparedPublish) : Prop :=
  publish.table = ref ∧ publish.call.primaryKey = k ∧
  ∃ entry ∈ artifact.sourceProgress, ∃ (offset : Int64) (stored : Bytes×Bytes),
    ∃ message prepared, broker.log (sourcePartition entry) offset = some stored ∧
      entry.checkpointNextOffset ≤ offset ∧ offset.toInt < broker.fetch (sourcePartition entry) ∧
      convertMessage (logMessage (sourcePartition entry) offset stored) = .ok message ∧
      prepare applier message = .ok prepared ∧ publish ∈ prepared

/-- A key is answered from the stream, by a row that is as new as anything passed for the key, or
from the artifact, when nothing was passed for it. -/
inductive ServedBy (applier : UpdateApplierOptions) (artifact : ParsedArtifact)
    (world : IngestWorld) (ref : TableRef) (shard : PublishedShard) (k : UInt64) : Prop
  | stream (shown : PublishCall) (hkey : shown.primaryKey = k)
    (hlog : FromLog applier world.broker.log ⟨ref,shown⟩)
    (hget : (shard.resolve world.tables).get k = .ok (some ⟨artifact.layout,shown.encoded⟩))
    (hnewest : ∀ publish, PassedUpdate applier artifact world.broker ref k publish →
      shown.position.partition = publish.call.position.partition ∧
        sourceOffset publish.call ≤ sourceOffset shown)
  | artifact (hget : (shard.resolve world.tables).get k = shard.fullSnapshot.get k)
    (hnone : ∀ publish, ¬PassedUpdate applier artifact world.broker ref k publish)

end Rebuild
end KvIndex
