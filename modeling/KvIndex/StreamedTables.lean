import KvIndex.CatchUpLoad

/-! What realtime tables say of the stream. Whatever happens to the calls of a coordinator, its
tables hold nothing but updates that are in the log, and no older ones than a call that returned
`Ok` was delivered. -/
namespace KvIndex
namespace Rebuild

open Base Ingest Artifact RealtimeDeltaAtomicTable

/-- The publish is one that one of the messages is prepared into. -/
def PreparedFrom (applier : UpdateApplierOptions) (raws : List RawMessage)
    (publish : PreparedPublish) : Prop :=
  ∃ raw ∈ raws, ∃ message prepared, convertMessage raw = .ok message ∧
    prepare applier message = .ok prepared ∧ publish ∈ prepared

def deliveredRules (applier : UpdateApplierOptions) : Prog.Rules IngestRes where
  allowed history op :=
    match op with
    | .publish publish => PreparedFrom applier (delivered history) publish
    | _ => True

/-- The program was delivered nothing. -/
def DeliversNothing {α : Type} (history after : List IngestEvent) (_ : α) : Prop :=
  delivered after = delivered history

section Calls

variable {applier : UpdateApplierOptions}

theorem publishPrepared_delivered {history : List IngestEvent} (prepared : List PreparedPublish)
    (h : ∀ publish ∈ prepared, PreparedFrom applier (delivered history) publish) :
    Prog.Safe (deliveredRules applier) (DeliversNothing history) history
      ((publishPrepared prepared).interp publishRow) := by
  induction prepared generalizing history with
  | nil => exact rfl
  | cons publish prepared ih =>
    refine Prog.Safe.call_bind (h publish List.mem_cons_self) fun answer _ => ?_
    cases answer with
    | error status => exact delivered_publish
    | ok _ =>
      have hrest : ∀ other ∈ prepared,
          PreparedFrom applier (delivered (history++[⟨.publish publish,.ok ()⟩])) other := by
        intro other hother
        rw [delivered_publish]
        exact h other (List.mem_cons_of_mem _ hother)
      exact Prog.Safe.mono (fun after _ hafter => hafter.trans delivered_publish) (ih hrest)

theorem applyBatch_delivered {history : List IngestEvent} (messages : List KafkaUpsertMessage)
    (h : ∀ message ∈ messages, ∃ raw ∈ delivered history, convertMessage raw = .ok message) :
    Prog.Safe (deliveredRules applier) (DeliversNothing history) history
      ((applyBatch applier messages).interp publishRow) := by
  induction messages generalizing history with
  | nil => exact rfl
  | cons message messages ih =>
    rw [applyBatch,Prog.interp_bind]
    refine Prog.Safe.bind ?_
    cases hprepare : prepare applier message with
    | error status =>
      simp only [apply,hprepare]
      exact rfl
    | ok prepared =>
      simp only [apply,hprepare]
      obtain ⟨raw,hraw,hconvert⟩ := h message List.mem_cons_self
      refine Prog.Safe.mono ?_ (publishPrepared_delivered prepared fun publish hpublish =>
        ⟨raw,hraw,message,prepared,hconvert,hprepare,hpublish⟩)
      intro mid result hmid
      cases result with
      | error status => exact hmid
      | ok _ =>
        refine Prog.Safe.mono (fun after _ hafter => hafter.trans hmid) (ih ?_)
        intro other hother
        rw [show delivered mid = delivered history from hmid]
        exact h other (List.mem_cons_of_mem _ hother)

/-- A call of the coordinator, however it ends, publishes what it was delivered. -/
theorem pollApplyCommitOnce_delivered (coordinator : UpdateCoordinator) :
    Prog.Safe (deliveredRules coordinator.applier) (fun _ _ => True) []
      (pollApplyCommitOnce coordinator) := by
  rw [pollApplyCommitOnce]
  cases validateCoordinatorOptions coordinator with
  | error status => trivial
  | ok _ =>
    refine Prog.Safe.bind (Prog.Safe.mono ?_ (poll_safe (fun _ _ => trivial) coordinator.pollOptions))
    intro history result hconverted
    cases result with
    | error status => trivial
    | ok batch =>
      by_cases hempty : batch.isEmpty = true
      · simp only [hempty,if_true]
        trivial
      · simp only [hempty]
        cases checkBatch coordinator batch with
        | error status => trivial
        | ok checkpoint =>
          refine Prog.Safe.bind (Prog.Safe.mono ?_ (applyBatch_delivered batch
            fun message hmessage => (hconverted batch rfl).raw hmessage))
          intro after applied _
          cases applied with
          | error status => trivial
          | ok _ =>
            exact Prog.Safe.mono (fun _ _ _ => trivial)
              (commit_safe trivial (fun _ => True) trivial fun _ => trivial)

end Calls

/-- The publish is one that a message of the log is prepared into. -/
def FromLog (applier : UpdateApplierOptions) (log : KafkaPartition → Int64 → Option (Bytes×Bytes))
    (publish : PreparedPublish) : Prop :=
  ∃ partition offset entry message prepared, log partition offset = some entry ∧
    convertMessage (logMessage partition offset entry) = .ok message ∧
    prepare applier message = .ok prepared ∧ publish ∈ prepared

/-- Every row that a table shows is an update of the log, made for that key and that table. -/
def FollowsLog (applier : UpdateApplierOptions) (world : IngestWorld) : Prop :=
  ∀ ref k call, (world.tables ref).latest k = some call →
    call.primaryKey = k ∧ FromLog applier world.broker.log ⟨ref,call⟩

section World

variable {applier : UpdateApplierOptions} {world mid world' : IngestWorld} {events : List IngestEvent}

theorem delivered_logged (h : Steps IngestStep world events world') :
    ∀ raw ∈ delivered events, ∃ partition offset entry,
      world.broker.log partition offset = some entry ∧ raw = logMessage partition offset entry := by
  induction h with
  | nil => exact fun _ hraw => absurd hraw List.not_mem_nil
  | @snoc events mid world' event hrun hstep ih =>
    intro raw hraw
    obtain ⟨op,answer⟩ := event
    cases op with
    | consumerPoll timeoutMs =>
      cases answer with
      | none =>
        rw [delivered_poll_none] at hraw
        exact ih raw hraw
      | some next =>
        by_cases hnext : next.err = .noError
        · simp only [IngestStep,if_pos hnext] at hstep
          obtain ⟨partition,offset,entry,hlogged,rfl,-⟩ := hstep
          rw [delivered_poll hnext,List.mem_append] at hraw
          rcases hraw with hraw | hraw
          · exact ih raw hraw
          · rw [List.mem_singleton.mp hraw]
            refine ⟨partition,offset,entry,?_,rfl⟩
            rw [← (ingested_run hrun).log]
            exact hlogged.logged
        · rw [delivered_poll_error hnext] at hraw
          exact ih raw hraw
    | _ =>
      rw [delivered_snoc_of_ne (by simp)] at hraw
      exact ih raw hraw

/-- What a table shows after a publish it showed before, or it is the publish. -/
theorem latest_publishTo {tables : Tables} (hs : SoundTables tables) {publish : PreparedPublish}
    {ref : TableRef} {k : UInt64} {call : PublishCall}
    (h : ((publishTo publish tables).2 ref).latest k = some call) :
    (tables ref).latest k = some call ∨
      ref = publish.table ∧ k = publish.call.primaryKey ∧ call = publish.call := by
  cases hanswer : (publishTo publish tables).1 with
  | error status =>
    rw [latest,(publishTo_failed hanswer ref).2] at h
    exact Or.inl h
  | ok _ =>
    by_cases href : ref = publish.table
    · subst href
      rw [publishTo_self,(hs _).publish_latest hanswer] at h
      by_cases hk : k = publish.call.primaryKey
      · subst hk
        rw [LastWriter.write_self] at h
        split_ifs at h
        · exact Or.inr ⟨rfl,rfl,(Option.some.inj h).symm⟩
        · exact Or.inl h
      · rw [LastWriter.write_of_ne _ hk] at h
        exact Or.inl h
    · rw [publishTo_of_ne href] at h
      exact Or.inl h

theorem tables_of_step {op : IngestOp} {answer : IngestRes op}
    (hstep : IngestStep mid ⟨op,answer⟩ world') (hop : ∀ publish, op ≠ .publish publish) :
    world'.tables = mid.tables := by
  cases op with
  | publish publish => exact absurd rfl (hop publish)
  | consumerPoll timeoutMs =>
    cases answer with
    | none => rw [show world' = mid from hstep]
    | some raw =>
      by_cases hraw : raw.err = .noError
      · simp only [IngestStep,if_pos hraw] at hstep
        obtain ⟨partition,offset,entry,-,-,rfl⟩ := hstep
        rfl
      · simp only [IngestStep,if_neg hraw] at hstep
        rw [hstep]
  | seekPartitions checkpoint =>
    cases answer with
    | ok _ => rw [show world' = _ from hstep]
    | error text =>
      obtain ⟨fetch,rfl⟩ := hstep
      rfl
  | commit checkpoint =>
    cases answer with
    | ok _ => rw [show world' = _ from hstep]
    | error text =>
      obtain ⟨committed,rfl,-⟩ := hstep
      rfl
  | committed partitions =>
    cases answer with
    | ok offsets => rw [show world' = mid from hstep.1]
    | error text => rw [show world' = mid from hstep]
  | assignment => rw [show world' = mid from hstep]
  | queryWatermarkOffsets partition => rw [show world' = mid from hstep]

theorem FollowsLog.run (h : FollowsLog applier world) (hs : SoundTables world.tables)
    (hrun : Steps IngestStep world events world')
    (hallowed : ∀ before publish answer after, events = before++⟨.publish publish,answer⟩::after →
      PreparedFrom applier (delivered before) publish) : FollowsLog applier world' := by
  induction hrun with
  | nil => exact h
  | @snoc events mid world' event hrun hstep ih =>
    have hmid : FollowsLog applier mid := by
      refine ih fun before publish answer after hevents => ?_
      refine hallowed before publish answer (after++[event]) ?_
      rw [hevents,List.append_assoc,List.cons_append]
    have hbefore := ingested_run hrun
    have hafter := ingested_run (hrun.snoc hstep)
    intro ref k call hcall
    rw [hafter.log,← hbefore.log]
    obtain ⟨op,answer⟩ := event
    by_cases hop : ∃ publish, op = .publish publish
    · obtain ⟨publish,rfl⟩ := hop
      obtain ⟨-,rfl⟩ := hstep
      rcases latest_publishTo (hbefore.sound hs) hcall with hold | ⟨rfl,rfl,rfl⟩
      · exact hmid ref k call hold
      · -- the message was delivered, so it is in the log
        obtain ⟨raw,hraw,message,prepared,hconvert,hprepare,hmem⟩ :=
          hallowed events publish answer [] rfl
        obtain ⟨partition,offset,entry,hlogged,rfl⟩ := delivered_logged hrun raw hraw
        rw [hbefore.log]
        exact ⟨rfl,partition,offset,entry,message,prepared,hlogged,hconvert,hprepare,hmem⟩
    · rw [tables_of_step hstep fun publish heq => hop ⟨publish,heq⟩] at hcall
      exact hmid ref k call hcall

end World

/-- A call of the coordinator: its events, and its result if it was not cut off. -/
abbrev IngestCall := List IngestEvent×Option (StatusOr Unit)

def CallStep (coordinator : UpdateCoordinator) (world : IngestWorld) (call : IngestCall)
    (world' : IngestWorld) : Prop :=
  Prog.Emits (Ingest.pollApplyCommitOnce coordinator) call.1 call.2 ∧
    Steps IngestStep world call.1 world'

/-- What calls have done to the tables, seen from their end. -/
structure Mirrors (applier : UpdateApplierOptions)
    (log : KafkaPartition → Int64 → Option (Bytes×Bytes)) (calls : List IngestCall)
    (world : IngestWorld) : Prop where
  log : world.broker.log = log
  sound : SoundTables world.tables
  follows : FollowsLog applier world
  taken : ∀ call ∈ calls, call.2 = some (.ok ()) → ∀ raw ∈ delivered call.1,
    InTables applier world.tables raw

section Mirrors

variable {coordinator : UpdateCoordinator} {world world' : IngestWorld} {calls : List IngestCall}
  {log : KafkaPartition → Int64 → Option (Bytes×Bytes)} {applier : UpdateApplierOptions}

theorem FollowsLog.call {call : IngestCall} (h : FollowsLog coordinator.applier world)
    (hs : SoundTables world.tables) (hstep : CallStep coordinator world call world') :
    FollowsLog coordinator.applier world' := by
  obtain ⟨hemits,hrun⟩ := hstep
  obtain ⟨hallowed,-⟩ :=
    (pollApplyCommitOnce_delivered coordinator).emits hemits (fun _ _ _ _ => trivial)
  exact h.run hs hrun fun before publish answer after hevents =>
    hallowed before ⟨.publish publish,answer⟩ after hevents

theorem Mirrors.step {call : IngestCall} (h : Mirrors coordinator.applier log calls world)
    (hstep : CallStep coordinator world call world') :
    Mirrors coordinator.applier log (calls++[call]) world' := by
  have hrun := ingested_run hstep.2
  refine ⟨hrun.log.trans h.log,hrun.sound h.sound,h.follows.call h.sound hstep,?_⟩
  intro other hother hok raw hraw
  rcases List.mem_append.mp hother with hother | hother
  · exact (h.taken other hother hok raw hraw).run h.sound hrun
  · obtain rfl := List.mem_singleton.mp hother
    obtain ⟨hemits,-⟩ := hstep
    rw [hok] at hemits
    exact inTables_of_applied ((round_emits hemits).2.1 rfl raw hraw) h.sound hrun

theorem Mirrors.run (hruns : Steps (CallStep coordinator) world calls world')
    (hs : SoundTables world.tables) (h : FollowsLog coordinator.applier world) :
    Mirrors coordinator.applier world.broker.log calls world' :=
  hruns.invariant (Mirrors coordinator.applier world.broker.log)
    ⟨rfl,hs,h,fun _ hcall => absurd hcall List.not_mem_nil⟩ fun _ _ _ _ hbefore hstep =>
      hbefore.step hstep

theorem Mirrors.get (h : Mirrors applier log calls world) {ref : TableRef}
    {layout : CompiledRowLayout} (hlayout : (world.tables ref).layout = some layout) {k : UInt64}
    {row : Row} (hget : (world.tables ref).get k = .ok (some row)) :
    ∃ call, call.primaryKey = k ∧ FromLog applier log ⟨ref,call⟩ ∧ row = ⟨layout,call.encoded⟩ := by
  rw [(h.sound ref).get_eq_latest hlayout,Except.ok.injEq] at hget
  obtain ⟨call,hcall,rfl⟩ := Option.map_eq_some_iff.mp hget
  obtain ⟨hkey,hlog⟩ := h.follows ref k call hcall
  rw [h.log] at hlog
  exact ⟨call,hkey,hlog,rfl⟩

end Mirrors

/-- The table of the publish answers an update of the log for its key that is of the same partition
and no older. -/
def AnsweredBy (applier : UpdateApplierOptions)
    (log : KafkaPartition → Int64 → Option (Bytes×Bytes)) (tables : Tables)
    (publish : PreparedPublish) : Prop :=
  ∃ shown, shown.primaryKey = publish.call.primaryKey ∧ FromLog applier log ⟨publish.table,shown⟩ ∧
    shown.position.partition = publish.call.position.partition ∧
    sourceOffset publish.call ≤ sourceOffset shown ∧
    ∀ layout, (tables publish.table).layout = some layout →
      (tables publish.table).get publish.call.primaryKey = .ok (some ⟨layout,shown.encoded⟩)

theorem Mirrors.answered {applier : UpdateApplierOptions} {calls : List IngestCall}
    {log : KafkaPartition → Int64 → Option (Bytes×Bytes)} {world : IngestWorld}
    (h : Mirrors applier log calls world) {publish : PreparedPublish}
    (habsorbs : AbsorbsIn world.tables publish) : AnsweredBy applier log world.tables publish := by
  obtain ⟨shown,hshown,hpartition,hoffset⟩ := habsorbs.held
  obtain ⟨hkey,hlog⟩ := h.follows _ _ _ hshown
  rw [h.log] at hlog
  refine ⟨shown,hkey,hlog,hpartition,hoffset,?_⟩
  intro layout hlayout
  rw [(h.sound _).get_eq_latest hlayout,hshown]
  rfl

/-- The tables of a coordinator say what the stream says. After any calls, however each of them
ended, a row that a table answers for a key is the one that a message of the log has for that key
and that table; and for every message that a call was delivered that returned `Ok`, the tables
of all its targets answer an update of the log for its key that is at least as new. -/
theorem tables_follow_log {coordinator : UpdateCoordinator} {world world' : IngestWorld}
    {calls : List IngestCall} (hruns : Steps (CallStep coordinator) world calls world')
    (hs : SoundTables world.tables) (h : FollowsLog coordinator.applier world) :
    (∀ ref layout, (world'.tables ref).layout = some layout → ∀ k row,
      (world'.tables ref).get k = .ok (some row) → ∃ call : PublishCall, call.primaryKey = k ∧
        FromLog coordinator.applier world.broker.log ⟨ref,call⟩ ∧ row = ⟨layout,call.encoded⟩) ∧
    ∀ call ∈ calls, call.2 = some (.ok ()) → ∀ raw ∈ delivered call.1, ∃ message prepared,
      convertMessage raw = .ok message ∧ prepare coordinator.applier message = .ok prepared ∧
      ∀ publish ∈ prepared,
        AnsweredBy coordinator.applier world.broker.log world'.tables publish := by
  have hmirrors := Mirrors.run hruns hs h
  refine ⟨fun ref layout hlayout k row hget => hmirrors.get hlayout hget,?_⟩
  intro call hcall hok raw hraw
  obtain ⟨message,prepared,hconvert,hprepare,hall⟩ := hmirrors.taken call hcall hok raw hraw
  exact ⟨message,prepared,hconvert,hprepare,fun publish hpublish =>
    hmirrors.answered (hall publish hpublish)⟩

/-- The tables of the sample are empty, and its client fetches from offset 5. -/
def streamedWorld : IngestWorld where
  broker := { log := sampleLog,fetch := fun _ => 5,committed := fun _ => -1001 }
  tables := fun _ => sampleTable 4

def streamedAfter : IngestWorld :=
  ((Ingest.pollApplyCommitOnce sampleCoordinator).run IngestWorld.respond streamedWorld).2

def streamedEvents : List IngestEvent :=
  (Ingest.pollApplyCommitOnce sampleCoordinator).trace IngestWorld.respond streamedWorld

theorem tables_follow_log_sample : ∃ message prepared,
    convertMessage (logMessage samplePartition 5 ([55],(sampleMessage 7 5).payload)) = .ok message ∧
    prepare sampleApplier message = .ok prepared ∧
    ∀ publish ∈ prepared, AnsweredBy sampleApplier sampleLog streamedAfter.tables publish := by
  have hcall : CallStep sampleCoordinator streamedWorld (streamedEvents,
      some ((Ingest.pollApplyCommitOnce sampleCoordinator).run IngestWorld.respond streamedWorld).1)
      streamedAfter :=
    ⟨Prog.trace_emits _ _ _,Prog.steps_run ingestWorld_respond_step _ _⟩
  have hok : ((Ingest.pollApplyCommitOnce sampleCoordinator).run IngestWorld.respond
      streamedWorld).1 = .ok () := by decide +kernel
  have hdelivered : logMessage samplePartition 5 ([55],(sampleMessage 7 5).payload) ∈
      delivered streamedEvents := by decide +kernel
  have hempty : FollowsLog sampleCoordinator.applier streamedWorld := by
    intro ref k call h
    rw [show (streamedWorld.tables ref).latest k = none from latest_create _ k] at h
    cases h
  obtain ⟨-,htaken⟩ := tables_follow_log (Steps.nil.snoc hcall) (fun ref => sound_create _) hempty
  exact htaken _ List.mem_cons_self (congrArg some hok) _ hdelivered

structure RunnerFollows (log : KafkaPartition → Int64 → Option (Bytes×Bytes)) (world : RunnerWorld) :
    Prop where
  log : world.ingest.broker.log = log
  follows : ∀ coordinator, world.runner.coordinator = some coordinator →
    SoundTables world.ingest.tables ∧ FollowsLog coordinator.applier world.ingest

section Runner

variable {world world' : RunnerWorld} {log : KafkaPartition → Int64 → Option (Bytes×Bytes)}
  {history : List LoadEvent}

theorem RunnerFollows.start (h : RunnerFollows log world) {request : AsyncCatchUpRequest}
    {answer : StatusOr Unit} (hstep : RunnerStep world ⟨.start request,answer⟩ world') :
    RunnerFollows log world' := by
  obtain ⟨events,hemits,hrun⟩ := hstep
  have hall := ingested_run hrun
  have hs : SoundTables (freshTables request) := fun ref => sound_create _
  refine ⟨hall.log.trans h.log,fun coordinator _ => ⟨hall.sound hs,?_⟩⟩
  have hempty : FollowsLog coordinator.applier { world.ingest with tables := freshTables request } := by
    intro ref k call hcall
    rw [show ((freshTables request) ref).latest k = none from latest_create _ k] at hcall
    cases hcall
  refine hempty.run hs hrun ?_
  intro before publish sent after hevents
  have hseek : events = [] ∨ ∃ op, events = [op] ∧ ∀ publish, op.1 ≠ .publish publish := by
    rcases start_emits hemits with ⟨-,hevents | ⟨text,hevents⟩⟩ | ⟨-,-,hevents,-⟩
    · exact Or.inl hevents
    · exact Or.inr ⟨_,hevents,fun publish heq => by cases heq⟩
    · exact Or.inr ⟨_,hevents,fun publish heq => by cases heq⟩
  rcases hseek with hnil | ⟨op,hop,hne⟩
  · rw [hnil] at hevents
    cases before <;> cases hevents
  · rw [hop] at hevents
    have hmem : (⟨.publish publish,sent⟩ : IngestEvent) ∈ [op] := by
      rw [hevents]
      exact List.mem_append_right _ List.mem_cons_self
    have hsame := List.mem_singleton.mp hmem
    exact absurd (congrArg Sigma.fst hsame).symm (hne publish)

theorem RunnerFollows.step (h : RunnerFollows log world) {event : LoadEvent}
    (hstep : RunnerStep world event world') : RunnerFollows log world' := by
  obtain ⟨op,answer⟩ := event
  cases op with
  | start request => exact h.start hstep
  | captureSafeProgress =>
    obtain ⟨hrunner,events,hemits,hrun⟩ := hstep
    obtain ⟨hsame,-⟩ := capture_run hemits hrun
    refine ⟨by rw [hsame,h.log],fun coordinator hcoordinator => ?_⟩
    rw [hrunner] at hcoordinator
    rw [hsame]
    exact h.follows coordinator hcoordinator
  | pollApplyCommitOnce =>
    obtain ⟨hrunner,cancelled,events,hemits,hrun⟩ := hstep
    refine ⟨(ingested_run hrun).log.trans h.log,fun coordinator hcoordinator => ?_⟩
    rw [hrunner] at hcoordinator
    obtain ⟨hs,hfollows⟩ := h.follows coordinator hcoordinator
    rw [ProductionCatchUpRunner.pollApplyCommitOnce,hcoordinator] at hemits
    refine ⟨(ingested_run hrun).sound hs,?_⟩
    cases cancelled with
    | true =>
      cases hemits
      rw [show world'.ingest = world.ingest from hrun.of_nil]
      exact hfollows
    | false =>
      have hstep' : CallStep coordinator world.ingest (events,some answer) world'.ingest := ⟨hemits,hrun⟩
      exact hfollows.call hs hstep'
  | _ =>
    obtain rfl := hstep
    exact h

theorem RunnerFollows.run (hsteps : Steps RunnerStep world history world')
    (hfresh : world.runner.coordinator = none) :
    RunnerFollows world.ingest.broker.log world' := by
  refine hsteps.invariant (fun _ => RunnerFollows world.ingest.broker.log) ⟨rfl,?_⟩
    fun _ _ _ _ hbefore hstep => hbefore.step hstep
  intro coordinator hcoordinator
  rw [hfresh] at hcoordinator
  cases hcoordinator

/-- What the consumer has passed since the artifact is in the tables. -/
theorem Replays.passed {initial : KafkaPartition → Int64} {id : LoadId}
    {options : ForwardIndexOptions} {artifact : ParsedArtifact} {observed : List KafkaProgress}
    (h : Replays initial (catchUpRequest id options artifact) observed world)
    {entry : ArtifactSourceProgress} (hentry : entry ∈ artifact.sourceProgress) {offset : Int64}
    {stored : Bytes×Bytes}
    (hlogged : world.ingest.broker.log (sourcePartition entry) offset = some stored)
    (hlow : entry.checkpointNextOffset ≤ offset)
    (hhigh : offset.toInt < world.ingest.broker.fetch (sourcePartition entry)) :
    InTables (ProductionCatchUpRunner.coordinatorOf (catchUpRequest id options artifact)).applier
      world.ingest.tables (logMessage (sourcePartition entry) offset stored) := by
  have hposition : (⟨sourcePartition entry,entry.checkpointNextOffset⟩ : KafkaPosition) ∈
      (catchUpRequest id options artifact).checkpoint.nextOffsets :=
    List.mem_map.mpr ⟨entry,hentry,rfl⟩
  exact (h.replaying _ hposition).applied offset stored hlogged (Int64.le_iff_toInt_le.mp hlow) hhigh

end Runner

/-- The realtime tables of a load say what its artifact's partitions say between the checkpoints
and the fetch positions, and nothing that is not in the log. -/
structure MirrorsStream (id : LoadId) (options : ForwardIndexOptions) (artifact : ParsedArtifact)
    (world : RunnerWorld) : Prop where
  answers : ∀ ref layout, (world.ingest.tables ref).layout = some layout → ∀ k row,
    (world.ingest.tables ref).get k = .ok (some row) → ∃ call : PublishCall, call.primaryKey = k ∧
      FromLog (ProductionCatchUpRunner.coordinatorOf (catchUpRequest id options artifact)).applier
        world.ingest.broker.log ⟨ref,call⟩ ∧ row = ⟨layout,call.encoded⟩
  complete : ∀ entry ∈ artifact.sourceProgress, ∀ (offset : Int64) stored,
    world.ingest.broker.log (sourcePartition entry) offset = some stored →
    entry.checkpointNextOffset ≤ offset →
    offset.toInt < world.ingest.broker.fetch (sourcePartition entry) →
    ∃ message prepared,
      convertMessage (logMessage (sourcePartition entry) offset stored) = .ok message ∧
      prepare (ProductionCatchUpRunner.coordinatorOf (catchUpRequest id options artifact)).applier
        message = .ok prepared ∧
      ∀ publish ∈ prepared,
        AnsweredBy (ProductionCatchUpRunner.coordinatorOf (catchUpRequest id options artifact)).applier
          world.ingest.broker.log world.ingest.tables publish

end Rebuild
end KvIndex
