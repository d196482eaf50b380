import KvIndex.CatchUpReplay

/-! A load with its runner. Behind a round that fails a load only tells so, and what the group had
committed before the load decides whether its cutover waits for the replay. -/
namespace KvIndex
namespace Rebuild

open Base Ingest Artifact

def RoundsSucceed (history : List LoadEvent) : Prop :=
  ∀ status, (⟨.pollApplyCommitOnce,.error status⟩ : LoadEvent) ∉ history

def steadyRules : Prog.Rules LoadRes where
  allowed history op :=
    match op with
    | .storeState _ | .isCancelled => True
    | _ => RoundsSucceed history

/-- The part ends behind successful rounds, if the load does not return from it. -/
def Steady {α : Type} (history : List LoadEvent) (part : LoadPart α) : Prop :=
  Prog.SafeOr steadyRules (fun _ _ => True) (fun after _ => RoundsSucceed after) history part

section Steady

variable {history : List LoadEvent} {α β : Type} {state : LoadState}

theorem Steady.bind {part : LoadPart α} {next : α → LoadPart β} (h : Steady history part)
    (hnext : ∀ after a, RoundsSucceed after → Steady after (next a)) :
    Steady history (part >>= next) :=
  Prog.SafeOr.bind (Prog.SafeOr.mono hnext h)

theorem Steady.pure (h : RoundsSucceed history) (a : α) :
    Steady history (pure a : LoadPart α) := Prog.SafeOr.pure h

theorem RoundsSucceed.snoc (h : RoundsSucceed history) {event : LoadEvent}
    (hevent : ∀ status, event ≠ ⟨.pollApplyCommitOnce,.error status⟩) :
    RoundsSucceed (history++[event]) := by
  intro status hmem
  rcases List.mem_append.mp hmem with hmem | hmem
  · exact h status hmem
  · exact hevent status (List.mem_singleton.mp hmem).symm

theorem perform_steady (h : RoundsSucceed history) {op : LoadOp} (hop : op ≠ .pollApplyCommitOnce) :
    Steady history (perform op) := by
  refine Prog.SafeOr.call ?_ fun answer _ => h.snoc ?_
  · cases op with
    | storeState state => trivial
    | isCancelled => trivial
    | _ => exact h
  · intro status heq
    exact hop (congrArg Sigma.fst heq)

theorem storeAndReturn_steady (status : StatusOr Unit) (state : LoadState) :
    Steady history (storeAndReturn status state : LoadPart α) :=
  Prog.SafeOr.bind (Prog.SafeOr.call trivial fun _ _ => Prog.SafeOr.throw trivial)

theorem orFail_steady (h : RoundsSucceed history) (result : StatusOr α) :
    Steady history (orFail state result) := by
  cases result with
  | error status => exact storeAndReturn_steady _ _
  | ok a => exact Steady.pure h a

theorem checkCancelled_steady (h : RoundsSucceed history) : Steady history (checkCancelled state) := by
  refine Steady.bind (perform_steady h (by simp)) fun after cancelled hafter => ?_
  cases cancelled with
  | true => exact storeAndReturn_steady _ _
  | false => exact Steady.pure hafter ()

theorem storeState_steady (h : RoundsSucceed history) : Steady history (storeState state) :=
  perform_steady h (by simp)

theorem loadShards_steady (request : LoadRequest) (options : ForwardIndexOptions) (shardIds : List ℕ)
    (h : RoundsSucceed history) (backings : List MmapSnapshotBacking) :
    Steady history (loadShards request options shardIds state backings) := by
  induction shardIds generalizing history state backings with
  | nil => exact Steady.pure h _
  | cons shardId shardIds ih =>
    refine Steady.bind (checkCancelled_steady h) fun _ _ h => ?_
    refine Steady.bind (perform_steady h (by simp)) fun _ _ h => ?_
    refine Steady.bind (orFail_steady h _) fun _ _ h => ?_
    refine Steady.bind (orFail_steady h _) fun _ _ h => ?_
    exact Steady.bind (storeState_steady h) fun _ _ h => ih h _

theorem prewarmShards_steady (shardIds : List ℕ) (h : RoundsSucceed history) :
    Steady history (prewarmShards shardIds state) := by
  induction shardIds generalizing history state with
  | nil => exact Steady.pure h _
  | cons shardId shardIds ih =>
    refine Steady.bind (checkCancelled_steady h) fun _ _ h => ?_
    refine Steady.bind (perform_steady h (by simp)) fun _ _ h => ?_
    refine Steady.bind (orFail_steady h _) fun _ _ h => ?_
    exact Steady.bind (storeState_steady h) fun _ _ h => ih h

theorem cutoverShards_steady (shardId : ℕ) (shards : List PublishedShard) (h : RoundsSucceed history) :
    Steady history (cutoverShards shardId shards state) := by
  induction shards generalizing history state shardId with
  | nil => exact Steady.pure h _
  | cons shard shards ih =>
    refine Steady.bind (checkCancelled_steady h) fun _ _ h => ?_
    refine Steady.bind (perform_steady h (by simp)) fun _ _ h => ?_
    refine Steady.bind (orFail_steady h _) fun _ _ h => ?_
    exact Steady.bind (storeState_steady h) fun _ _ h => ih _ h

theorem observe_steady (target : KafkaProgress) (h : RoundsSucceed history) :
    Steady history (observe target state) := by
  refine Steady.bind (perform_steady h (by simp)) fun _ _ h => ?_
  refine Steady.bind (orFail_steady h _) fun _ _ h => ?_
  refine Steady.bind (orFail_steady h _) fun _ _ h => ?_
  exact Steady.bind (storeState_steady h) fun _ _ h => Steady.pure h _

theorem failPoll_steady (status : Status) : Steady history (failPoll state status : LoadPart α) := by
  rw [failPoll]
  by_cases hcode : status.code = .kCancelled
  · rw [if_pos hcode]
    exact storeAndReturn_steady _ _
  · rw [if_neg hcode]
    refine Prog.SafeOr.bind (Prog.SafeOr.call trivial fun cancelled _ => ?_)
    cases cancelled with
    | true => exact storeAndReturn_steady _ _
    | false => exact storeAndReturn_steady _ _

theorem catchUp_steady (fuel : ℕ) (h : RoundsSucceed history) :
    Steady history (catchUp fuel state) := by
  induction fuel generalizing history state with
  | zero =>
    rw [catchUp]
    cases catchUpRequired state.sourceProgress with
    | true => exact Prog.SafeOr.throw trivial
    | false => exact Steady.pure h _
  | succ fuel ih =>
    rw [catchUp]
    cases catchUpRequired state.sourceProgress with
    | false => exact Steady.pure h _
    | true =>
      refine Steady.bind (checkCancelled_steady h) fun before _ h => ?_
      refine Prog.SafeOr.bind (Prog.SafeOr.call h fun polled _ => ?_)
      cases polled with
      | error status => exact failPoll_steady status
      | ok _ =>
        have hok : RoundsSucceed (before++[⟨.pollApplyCommitOnce,.ok ()⟩]) := by
          refine h.snoc fun status heq => ?_
          cases heq
        exact Steady.bind (observe_steady _ hok) fun _ _ h => ih h

theorem catchUpPart_steady (id : LoadId) (options : ForwardIndexOptions) (fuel : ℕ)
    (backings : List MmapSnapshotBacking) (h : RoundsSucceed history) :
    Steady history (catchUpPart id options fuel backings state) := by
  unfold catchUpPart
  by_cases hmode : forwardIndexModeUsesKafkaRealtime options.mode = true
  · rw [if_pos hmode]
    cases backings with
    | nil => exact Steady.pure h _
    | cons backing rest =>
      refine Steady.bind (orFail_steady h _) fun _ _ h => ?_
      refine Steady.bind (perform_steady h (by simp)) fun _ _ h => ?_
      refine Steady.bind (orFail_steady h _) fun _ _ h => ?_
      refine Steady.bind (storeState_steady h) fun _ _ h => ?_
      refine Steady.bind (perform_steady h (by simp)) fun _ _ h => ?_
      refine Steady.bind (orFail_steady h _) fun _ _ h => ?_
      refine Steady.bind (checkCancelled_steady h) fun _ _ h => ?_
      refine Steady.bind (observe_steady _ h) fun _ _ h => ?_
      refine Steady.bind (catchUp_steady fuel h) fun _ _ h => ?_
      exact Steady.bind (checkCancelled_steady h) fun _ _ h => Steady.pure h _
  · rw [if_neg hmode]
    exact Steady.pure h _

theorem loadArtifact_steady (request : LoadRequest) (id : LoadId) (options : ForwardIndexOptions)
    (hasPublish : Bool) (fuel : ℕ) :
    Steady [] (loadArtifact request id options hasPublish fuel) := by
  have hnil : RoundsSucceed [] := fun status hmem => absurd hmem List.not_mem_nil
  refine Steady.bind (storeState_steady hnil) fun _ _ h => ?_
  refine Steady.bind (orFail_steady h _) fun _ _ h => ?_
  refine Steady.bind (orFail_steady h _) fun _ _ h => ?_
  refine Steady.bind (checkCancelled_steady h) fun _ _ h => ?_
  refine Steady.bind (loadShards_steady request options _ h []) fun _ _ h => ?_
  refine Steady.bind (prewarmShards_steady _ h) fun _ _ h => ?_
  refine Steady.bind (catchUpPart_steady id options fuel _ h) fun _ _ h => ?_
  refine Steady.bind (cutoverShards_steady 0 _ h) fun _ _ h => ?_
  exact storeAndReturn_steady _ _

theorem LoadRun.steady {request : LoadRequest} {id : LoadId} {options : ForwardIndexOptions}
    {hasPublish : Bool} {fuel : ℕ} {before after : List LoadEvent} {event : LoadEvent}
    {out : Option LoadOutcome}
    (h : LoadRun request id options hasPublish fuel (before++event::after) out) :
    steadyRules.allowed before event.1 := by
  have hsafe : Prog.Safe steadyRules (fun _ _ => True) []
      (runExternalArtifactLoad request id options hasPublish fuel) := by
    refine Prog.Safe.bind (Prog.Safe.mono ?_ (loadArtifact_steady request id options hasPublish fuel))
    intro history result _
    cases result with
    | error outcome => trivial
    | ok outcome => trivial
  exact (hsafe.emits h (fun _ _ _ _ => trivial)).1 before event after rfl

end Steady

/-- Everything since the checkpoint and below a reported offset is in the tables, unless the offset
is what the group had committed before the load. -/
def Covered (applier : UpdateApplierOptions) (initial checkpoint : Int64) (partition : KafkaPartition)
    (world : IngestWorld) (reported : Int64) : Prop :=
  reported = reportedOffset initial ∨
    ∀ (offset : Int64) message, world.broker.log partition offset = some message →
      checkpoint.toInt ≤ offset.toInt → offset.toInt < reported.toInt →
      InTables applier world.tables (logMessage partition offset message)

/-- What holds of a runner that has been started with the request. -/
structure Replays (initial : KafkaPartition → Int64) (request : AsyncCatchUpRequest)
    (observed : List KafkaProgress) (world : RunnerWorld) : Prop where
  coordinator : world.runner.coordinator = some (ProductionCatchUpRunner.coordinatorOf request)
  replaying : ∀ position ∈ request.checkpoint.nextOffsets,
    Replaying (ProductionCatchUpRunner.coordinatorOf request).applier (initial position.partition)
      position.offset position.partition world.ingest
  covered : ∀ position ∈ request.checkpoint.nextOffsets, ∀ progress ∈ observed,
    ∀ entry ∈ progress.partitions, entry.partition = position.partition →
      Covered (ProductionCatchUpRunner.coordinatorOf request).applier (initial position.partition)
        position.offset position.partition world.ingest entry.committedNextOffset

/-- What holds along a load: nothing is committed before the start, and from then on it replays. -/
structure RunnerInv (initial : KafkaPartition → Int64) (history : List LoadEvent)
    (world : RunnerWorld) : Prop where
  waiting : startedRequests history = [] → world.ingest.broker.committed = initial ∧
    observedProgress history = []
  started : ∀ request, startedRequests history = [request] →
    Replays initial request (observedProgress history) world

section Runner

variable {initial : KafkaPartition → Int64} {history : List LoadEvent} {world world' : RunnerWorld}
  {request : AsyncCatchUpRequest}

theorem Replaying.covered {applier : UpdateApplierOptions} {first checkpoint : Int64}
    {partition : KafkaPartition} {ingest : IngestWorld}
    (h : Replaying applier first checkpoint partition ingest) :
    Covered applier first checkpoint partition ingest
      (reportedOffset (ingest.broker.committed partition)) := by
  rcases h.committed with hsame | hle
  · left
    rw [hsame]
  · right
    intro offset message hlogged hlow hhigh
    by_cases hpos : ingest.broker.committed partition ≥ 0
    · rw [reportedOffset,if_pos hpos] at hhigh
      exact h.applied offset message hlogged hlow (by omega)
    · rw [reportedOffset,if_neg hpos,Int64.toInt_zero] at hhigh
      have hnonneg := h.nonneg
      omega

theorem Covered.run {applier : UpdateApplierOptions} {first checkpoint reported : Int64}
    {partition : KafkaPartition} {ingest ingest' : IngestWorld} {events : List IngestEvent}
    (h : Covered applier first checkpoint partition ingest reported)
    (hs : SoundTables ingest.tables) (hrun : Ingested ingest ingest' events) :
    Covered applier first checkpoint partition ingest' reported := by
  rcases h with hsame | hall
  · exact Or.inl hsame
  · right
    intro offset message hlogged hlow hhigh
    rw [hrun.log] at hlogged
    exact (hall offset message hlogged hlow hhigh).run hs hrun

theorem startedRequests_start (request : AsyncCatchUpRequest) :
    startedRequests (history++[⟨.start request,.ok ()⟩]) = startedRequests history++[request] :=
  startedRequests_append _ _

theorem RunnerInv.other (h : RunnerInv initial history world) {event : LoadEvent}
    (hstarts : startedRequests [event] = []) (hobserved : observedProgress [event] = []) :
    RunnerInv initial (history++[event]) world := by
  refine ⟨?_,?_⟩
  · rw [startedRequests_silent hstarts,observedProgress_silent hobserved]
    exact h.waiting
  · rw [startedRequests_silent hstarts,observedProgress_silent hobserved]
    exact h.started

theorem RunnerInv.start (h : RunnerInv initial history world) {answer : StatusOr Unit}
    (hnone : startedRequests history = [])
    (hstep : RunnerStep world ⟨.start request,answer⟩ world') :
    RunnerInv initial (history++[⟨.start request,answer⟩]) world' := by
  obtain ⟨events,hemits,hrun⟩ := hstep
  obtain ⟨hinitial,hquiet⟩ := h.waiting hnone
  have hobserved : observedProgress (history++[⟨.start request,answer⟩]) = [] :=
    (observedProgress_silent rfl).trans hquiet
  have hall := ingested_run hrun
  rcases start_emits hemits with ⟨⟨status,rfl⟩,hevents⟩ | ⟨rfl,hvalid,rfl,hcoordinator⟩
  · have hstarts : startedRequests (history++[⟨.start request,.error status⟩]) = [] :=
      (startedRequests_silent rfl).trans hnone
    refine ⟨fun _ => ⟨?_,hobserved⟩,?_⟩
    · funext partition
      rcases hall.committed partition with hsame | ⟨checkpoint,sent,hmem,-⟩
      · rw [hsame,← hinitial]
      · -- a start that fails has at most tried to seek
        rcases hevents with rfl | ⟨text,rfl⟩
        · cases hmem
        · cases List.mem_singleton.mp hmem
    · intro other hother
      rw [hstarts] at hother
      cases hother
  · refine ⟨?_,?_⟩
    · intro hstarts
      rw [startedRequests_start] at hstarts
      simp at hstarts
    · intro other hother
      rw [startedRequests_start,hnone,List.nil_append,List.singleton_inj] at hother
      subst hother
      refine ⟨hcoordinator,?_,?_⟩
      · intro position hmem
        rw [← hinitial]
        exact Replaying.start hvalid hmem hrun
      · rw [hobserved]
        exact fun _ _ _ hp => absurd hp List.not_mem_nil

theorem Replays.capture {observed : List KafkaProgress} (h : Replays initial request observed world)
    {answer : StatusOr KafkaProgress} (hstep : RunnerStep world ⟨.captureSafeProgress,answer⟩ world') :
    world' = world ∧ ∀ progress, answer = .ok progress →
      Replays initial request (observed++[progress]) world' := by
  obtain ⟨hrunner,events,hemits,hrun⟩ := hstep
  obtain ⟨hsame,hreports⟩ := capture_run hemits hrun
  obtain ⟨runner',ingest'⟩ := world'
  obtain rfl : runner' = world.runner := hrunner
  obtain rfl : ingest' = world.ingest := hsame
  refine ⟨rfl,?_⟩
  intro progress hanswer
  refine ⟨h.coordinator,h.replaying,?_⟩
  intro position hmem seen hseen entry hentry hpartition
  rcases List.mem_append.mp hseen with hseen | hseen
  · exact h.covered position hmem seen hseen entry hentry hpartition
  · rw [List.mem_singleton.mp hseen] at hentry
    rw [hreports progress hanswer entry hentry,hpartition]
    exact (h.replaying position hmem).covered

theorem Replays.round {observed : List KafkaProgress} (h : Replays initial request observed world)
    (hstep : RunnerStep world ⟨.pollApplyCommitOnce,.ok ()⟩ world') :
    Replays initial request observed world' := by
  obtain ⟨hrunner,cancelled,events,hemits,hrun⟩ := hstep
  rw [ProductionCatchUpRunner.pollApplyCommitOnce,h.coordinator] at hemits
  cases cancelled with
  | true => cases hemits
  | false =>
    have hall := ingested_run hrun
    refine ⟨by rw [hrunner,h.coordinator],?_,?_⟩
    · intro position hmem
      exact (h.replaying position hmem).round hemits hrun
    · intro position hmem progress hprogress entry hentry hpartition
      exact (h.covered position hmem progress hprogress entry hentry hpartition).run
        (h.replaying position hmem).sound hall

end Runner

section Run

variable {request : LoadRequest} {id : LoadId} {options : ForwardIndexOptions} {hasPublish : Bool}
  {fuel : ℕ} {history : List LoadEvent} {out : Option LoadOutcome} {start world : RunnerWorld}

theorem RoundsSucceed.before {before after : List LoadEvent} (h : RoundsSucceed (before++after)) :
    RoundsSucceed before := fun status hmem => h status (List.mem_append_left _ hmem)

theorem runnerInv_run (hsteps : Steps RunnerStep start history world)
    (hrun : LoadRun request id options hasPublish fuel history out) (hrounds : RoundsSucceed history) :
    RunnerInv start.ingest.broker.committed history world := by
  induction hsteps generalizing out with
  | nil => exact ⟨fun _ => ⟨rfl,rfl⟩,fun other hother => by cases hother⟩
  | @snoc history mid world event _ hstep ih =>
    have hinv := ih hrun.before hrounds.before
    have hallowed := hrun.allowed (show history++[event] = history++event::[] from rfl)
    obtain ⟨op,answer⟩ := event
    cases op with
    | start asked => exact hinv.start hallowed.2.1 hstep
    | captureSafeProgress =>
      obtain ⟨-,-,-,backing,-,hstarts⟩ := hallowed
      obtain ⟨rfl,hreplays⟩ := (hinv.started _ hstarts).capture hstep
      cases answer with
      | error status => exact hinv.other rfl rfl
      | ok progress =>
        have hstarts' : startedRequests (history++[⟨.captureSafeProgress,.ok progress⟩]) =
            [catchUpRequest id options backing.artifact] :=
          (startedRequests_silent rfl).trans hstarts
        refine ⟨fun hnone => ?_,fun other hother => ?_⟩
        · rw [hstarts'] at hnone
          cases hnone
        · rw [hstarts',List.singleton_inj] at hother
          subst hother
          have hobserved : observedProgress (history++[⟨.captureSafeProgress,.ok progress⟩]) =
              observedProgress history++[progress] := observedProgress_append _ _
          rw [hobserved]
          exact hreplays progress rfl
    | pollApplyCommitOnce =>
      obtain ⟨-,-,-,backing,-,hstarts⟩ := hallowed
      cases answer with
      | error status =>
        exact absurd (List.mem_append_right _ (List.mem_singleton.mpr rfl)) (hrounds status)
      | ok _ =>
        have hstarts' : startedRequests (history++[⟨.pollApplyCommitOnce,.ok ()⟩]) =
            [catchUpRequest id options backing.artifact] :=
          (startedRequests_silent rfl).trans hstarts
        refine ⟨fun hnone => ?_,fun other hother => ?_⟩
        · rw [hstarts'] at hnone
          cases hnone
        · rw [hstarts',List.singleton_inj] at hother
          subst hother
          have hobserved : observedProgress (history++[⟨.pollApplyCommitOnce,.ok ()⟩]) =
              observedProgress history := observedProgress_silent rfl
          rw [hobserved]
          exact (hinv.started _ hstarts).round hstep
    | _ =>
      obtain rfl := hstep
      exact hinv.other rfl rfl

def gatedWatermark (entry : ArtifactSourceProgress) (observed : List KafkaProgress) : Int64 :=
  observed.foldl (fun highWatermark progress =>
    match findProgress progress (sourcePartition entry) with
    | .ok seen => max highWatermark seen.highWatermark
    | .error _ => highWatermark) entry.highWatermark

theorem gatedWatermark_le {entry : ArtifactSourceProgress} {observed : List KafkaProgress}
    {bound : Int64} (hentry : entry.highWatermark ≤ bound)
    (hseen : ∀ progress ∈ observed, ∀ seen,
      findProgress progress (sourcePartition entry) = .ok seen → seen.highWatermark ≤ bound) :
    gatedWatermark entry observed ≤ bound := by
  rw [gatedWatermark]
  generalize entry.highWatermark = highWatermark at hentry
  induction observed generalizing highWatermark with
  | nil => exact hentry
  | cons progress observed ih =>
    rw [List.foldl_cons]
    refine ih (fun other ho => hseen other (List.mem_cons_of_mem _ ho)) _ ?_
    cases hfind : findProgress progress (sourcePartition entry) with
    | error status => exact hentry
    | ok seen =>
      have hbound := hseen progress List.mem_cons_self seen hfind
      show (if highWatermark ≤ seen.highWatermark then seen.highWatermark else highWatermark) ≤ bound
      by_cases hle : highWatermark ≤ seen.highWatermark
      · rw [if_pos hle]
        exact hbound
      · rw [if_neg hle]
        exact hentry

theorem findProgress_eq_ok {progress : KafkaProgress} {partition : KafkaPartition}
    {entry : KafkaPartitionProgress} (h : findProgress progress partition = .ok entry) :
    entry ∈ progress.partitions ∧ entry.partition = partition := by
  rw [findProgress] at h
  cases hfind : progress.partitions.find? fun entry => samePartition entry.partition partition with
  | none =>
    rw [hfind] at h
    cases h
  | some found =>
    rw [hfind,Except.ok.injEq] at h
    subst h
    have hsame := List.find?_some hfind
    simp only [samePartition,Bool.and_eq_true,beq_iff_eq] at hsame
    refine ⟨List.mem_of_find?_eq_some hfind,?_⟩
    obtain ⟨⟨topic,id⟩,_,_,_⟩ := found
    obtain ⟨topic',id'⟩ := partition
    exact congrArg₂ KafkaPartition.mk hsame.1 hsame.2

/-- Everything between the checkpoint of the artifact and the watermark of the cutover is in the
tables of the load. -/
def CutOverFrom (id : LoadId) (options : ForwardIndexOptions) (artifact : ParsedArtifact)
    (observed : List KafkaProgress) (world : RunnerWorld) : Prop :=
  ∀ entry ∈ artifact.sourceProgress, ∀ offset message,
    world.ingest.broker.log (sourcePartition entry) offset = some message →
    entry.checkpointNextOffset ≤ offset → offset < gatedWatermark entry observed →
    InTables
      (ProductionCatchUpRunner.coordinatorOf (catchUpRequest id options artifact)).applier
      world.ingest.tables (logMessage (sourcePartition entry) offset message)

/-- The group has not committed past the artifact: not past its checkpoint, or not up to its
watermark. -/
def GroupBehind (committed : KafkaPartition → Int64) (artifact : ParsedArtifact) : Prop :=
  ∀ entry ∈ artifact.sourceProgress,
    reportedOffset (committed (sourcePartition entry)) ≤ entry.checkpointNextOffset ∨
      reportedOffset (committed (sourcePartition entry)) < entry.highWatermark

/-- A cutover publishes a full replay, if the group had not committed past the artifact when the
load began. During the load nobody else commits for the group. -/
theorem cutover_publishes_replay (request : LoadRequest) (id : LoadId) (options : ForwardIndexOptions)
    (hasPublish : Bool) (fuel : ℕ) (hmode : forwardIndexModeUsesKafkaRealtime options.mode = true)
    (before after : List LoadEvent) (shardId : UInt32) (shard : PublishedShard)
    (answer : StatusOr Unit) (out : Option LoadOutcome)
    (hrun : LoadRun request id options hasPublish fuel
      (before++⟨.publishShard shardId shard,answer⟩::after) out)
    (start world : RunnerWorld) (hsteps : Steps RunnerStep start before world)
    (hbehind : ∀ backing ∈ (loadedBackings options before).head?,
      GroupBehind start.ingest.broker.committed backing.artifact) :
    ∃ backing, (loadedBackings options before).head? = some backing ∧
      CutOverFrom id options backing.artifact (observedProgress before) world := by
  have hmay := hrun.mayPublish rfl
  have hinv := runnerInv_run hsteps hrun.before hrun.steady
  obtain ⟨⟨backing,hbacking,hstarts⟩,hcaught⟩ := hmay.caughtUp hmode
  refine ⟨backing,hbacking,?_⟩
  have hreplays := hinv.started _ hstarts
  intro entry hentry offset message hlogged hlow hhigh
  obtain ⟨last,final,hlast,hfinal,hwatermark,hwatermarks⟩ := hcaught backing hbacking entry hentry
  obtain ⟨hmem,hpartition⟩ := findProgress_eq_ok hfinal
  have hgated : gatedWatermark entry (observedProgress before) ≤ final.committedNextOffset :=
    gatedWatermark_le hwatermark hwatermarks
  have hposition : (⟨sourcePartition entry,entry.checkpointNextOffset⟩ : KafkaPosition) ∈
      (catchUpRequest id options backing.artifact).checkpoint.nextOffsets :=
    List.mem_map.mpr ⟨entry,hentry,rfl⟩
  have hlow' := Int64.le_iff_toInt_le.mp hlow
  have hhigh' := Int64.lt_iff_toInt_lt.mp (Int64.lt_of_lt_of_le hhigh hgated)
  rcases hreplays.covered _ hposition last (List.mem_of_getLast? hlast) final hmem hpartition with
    hinitial | hall
  · -- the gate saw what the group had committed before the load
    rcases hbehind backing hbacking entry hentry with hle | hlt
    · rw [← hinitial] at hle
      have hle' := Int64.le_iff_toInt_le.mp hle
      omega
    · rw [← hinitial] at hlt
      have hlt' := Int64.lt_iff_toInt_lt.mp hlt
      have hle' := Int64.le_iff_toInt_le.mp hwatermark
      omega
  · exact hall offset message hlogged hlow' hhigh'

end Run

def samplePartition : KafkaPartition := ⟨[116],0⟩

def sampleLog (partition : KafkaPartition) (offset : Int64) : Option (Bytes×Bytes) :=
  if partition = samplePartition ∧ 5 ≤ offset ∧ offset < 8 then
    some ([55],(sampleMessage 7 offset).payload) else none

/-- The client and the broker answer every call; the log has no gaps. -/
def IngestWorld.respond : (op : IngestOp) → IngestWorld → IngestRes op×IngestWorld
  | .consumerPoll _,world =>
    let offset := Int64.ofInt (world.broker.fetch samplePartition)
    match world.broker.log samplePartition offset with
    | none => (none,world)
    | some entry =>
      if offset.toInt = world.broker.fetch samplePartition then
        (some (logMessage samplePartition offset entry),
          { world with broker := world.broker.deliver samplePartition offset })
      else (none,world)
  | .seekPartitions checkpoint,world => (.ok (),{ world with broker := world.broker.seek checkpoint })
  | .assignment,world => (.ok [samplePartition],world)
  | .committed partitions,world =>
    (.ok (partitions.map fun partition => ⟨partition,world.broker.committed partition,none⟩),world)
  | .queryWatermarkOffsets _,world => (.ok (0,8),world)
  | .commit checkpoint,world => (.ok (),{ world with broker := world.broker.commit checkpoint })
  | .publish publish,world =>
    ((publishTo publish world.tables).1,
      { world with tables := (publishTo publish world.tables).2 })

theorem ingestWorld_respond_step (op : IngestOp) (world : IngestWorld) :
    IngestStep world ⟨op,(world.respond op).1⟩ (world.respond op).2 := by
  cases op with
  | consumerPoll timeoutMs =>
    simp only [IngestWorld.respond]
    cases hlogged : world.broker.log samplePartition
        (Int64.ofInt (world.broker.fetch samplePartition)) with
    | none => rfl
    | some entry =>
      by_cases hoffset : (Int64.ofInt (world.broker.fetch samplePartition)).toInt =
          world.broker.fetch samplePartition
      · simp only [if_pos hoffset]
        refine ⟨samplePartition,_,entry,⟨hoffset.ge,hlogged,?_⟩,rfl,rfl⟩
        intro skipped hlow hhigh
        omega
      · simp only [if_neg hoffset]
        rfl
  | committed partitions =>
    refine ⟨rfl,?_⟩
    intro offset hmem _
    obtain ⟨partition,-,rfl⟩ := List.mem_map.mp hmem
    rfl
  | publish publish => exact ⟨rfl,rfl⟩
  | _ => rfl

/-- The runner works on that broker; the rest of the load goes well. -/
def RunnerWorld.respond : (op : LoadOp) → RunnerWorld → LoadRes op×RunnerWorld
  | .start request,world =>
    let ((answer,runner),ingest) := (world.runner.start request).run IngestWorld.respond
      { world.ingest with tables := freshTables request }
    (answer,⟨runner,ingest⟩)
  | .captureSafeProgress,world =>
    let (answer,ingest) := world.runner.captureSafeProgress.run IngestWorld.respond world.ingest
    (answer,{ world with ingest })
  | .pollApplyCommitOnce,world =>
    let (answer,ingest) := (world.runner.pollApplyCommitOnce false).run IngestWorld.respond world.ingest
    (answer,{ world with ingest })
  | .storeState state,world => (sampleAnswer (.storeState state),world)
  | .isCancelled,world => (sampleAnswer .isCancelled,world)
  | .mapShardFile uri shardId,world => (sampleAnswer (.mapShardFile uri shardId),world)
  | .prewarm shardId,world => (sampleAnswer (.prewarm shardId),world)
  | .createCatchUpRunner,world => (sampleAnswer .createCatchUpRunner,world)
  | .publishShard shardId shard,world => (sampleAnswer (.publishShard shardId shard),world)

theorem runnerWorld_respond_step (op : LoadOp) (world : RunnerWorld) :
    RunnerStep world ⟨op,(world.respond op).1⟩ (world.respond op).2 := by
  cases op with
  | start request =>
    exact ⟨_,Prog.trace_emits _ _ _,Prog.steps_run ingestWorld_respond_step _ _⟩
  | captureSafeProgress =>
    exact ⟨rfl,_,Prog.trace_emits _ _ _,Prog.steps_run ingestWorld_respond_step _ _⟩
  | pollApplyCommitOnce =>
    exact ⟨rfl,false,_,Prog.trace_emits _ _ _,Prog.steps_run ingestWorld_respond_step _ _⟩
  | _ => rfl

def sampleGroup (committed : Int64) : RunnerWorld where
  ingest := {
    broker := { log := sampleLog,fetch := fun _ => 0,committed := fun _ => committed }
    tables := fun _ => RealtimeDeltaAtomicTable.sampleTable 4 }

def sampleLoadProgram : Loading LoadOutcome :=
  runExternalArtifactLoad sampleRequest 1 sampleIndex true 1

def groupEvents (committed : Int64) : List LoadEvent :=
  sampleLoadProgram.trace RunnerWorld.respond (sampleGroup committed)

def isPublish : LoadEvent → Bool
  | ⟨.publishShard _ _,_⟩ => true
  | _ => false

theorem groupEvents_split {committed : Int64} {n : ℕ}
    (h : (groupEvents committed)[n]?.any isPublish = true) :
    ∃ shardId shard answer after out, LoadRun sampleRequest 1 sampleIndex true 1
      ((groupEvents committed).take n++⟨.publishShard shardId shard,answer⟩::after) out ∧
    Steps RunnerStep (sampleGroup committed) ((groupEvents committed).take n)
      (sampleLoadProgram.runFor RunnerWorld.respond n (sampleGroup committed)) := by
  cases hevent : (groupEvents committed)[n]? with
  | none =>
    rw [hevent] at h
    cases h
  | some event =>
    rw [hevent] at h
    obtain ⟨op,answer⟩ := event
    cases op with
    | publishShard shardId shard =>
      obtain ⟨hlt,hget⟩ := List.getElem?_eq_some_iff.mp hevent
      have hsplit : groupEvents committed = (groupEvents committed).take n++
          ⟨.publishShard shardId shard,answer⟩::(groupEvents committed).drop (n+1) := by
        rw [← hget,← List.drop_eq_getElem_cons hlt,List.take_append_drop]
      have hrun : LoadRun sampleRequest 1 sampleIndex true 1 (groupEvents committed) _ :=
        Prog.trace_emits _ _ _
      rw [hsplit] at hrun
      exact ⟨shardId,shard,answer,_,_,hrun,Prog.steps_take runnerWorld_respond_step _ _ _⟩
    | _ => cases h

def sampleProgress : ArtifactSourceProgress := ⟨[116],0,5,8⟩

theorem sampleGroup_skips :
    (∀ backing ∈ (loadedBackings sampleIndex ((groupEvents 8).take 16)).head?,
      sampleProgress ∈ backing.artifact.sourceProgress ∧
      gatedWatermark sampleProgress (observedProgress ((groupEvents 8).take 16)) = 8 ∧
      ((convertMessage (logMessage (sourcePartition sampleProgress) 5
        ([55],(sampleMessage 7 5).payload)) >>= prepare
        (ProductionCatchUpRunner.coordinatorOf (catchUpRequest 1 sampleIndex backing.artifact)).applier).map
          (List.map fun publish => (publish.table,publish.call.primaryKey))) = .ok [(0,7)]) ∧
    (groupEvents 8)[16]?.any isPublish = true ∧
    (sampleLoadProgram.runFor RunnerWorld.respond 16 (sampleGroup 8)).ingest.broker.log
      (sourcePartition sampleProgress) 5 = some ([55],(sampleMessage 7 5).payload) ∧
    ((sampleLoadProgram.runFor RunnerWorld.respond 16 (sampleGroup 8)).ingest.tables 0).latest 7 =
      none := by
  unfold groupEvents RunnerWorld.respond sampleAnswer
  rw [sampleFile_eq]
  decide +kernel

/-- A group that is already at offset 8 lets the cutover pass before anything is replayed. -/
theorem cutover_skips_replay :
    ¬∀ (request : LoadRequest) (id : LoadId) (options : ForwardIndexOptions) (hasPublish : Bool)
      (fuel : ℕ), forwardIndexModeUsesKafkaRealtime options.mode = true →
      ∀ (before after : List LoadEvent) (shardId : UInt32) (shard : PublishedShard)
        (answer : StatusOr Unit) (out : Option LoadOutcome),
      LoadRun request id options hasPublish fuel
        (before++⟨.publishShard shardId shard,answer⟩::after) out →
      ∀ start world : RunnerWorld, Steps RunnerStep start before world →
      ∃ backing, (loadedBackings options before).head? = some backing ∧
        CutOverFrom id options backing.artifact (observedProgress before) world := by
  intro h
  obtain ⟨hartifact,hpublish,hlog,hlatest⟩ := sampleGroup_skips
  obtain ⟨shardId,shard,answer,after,out,hrun,hsteps⟩ := groupEvents_split hpublish
  obtain ⟨backing,hbacking,hcaught⟩ := h sampleRequest 1 sampleIndex true 1 rfl _ after shardId shard
    answer out hrun _ _ hsteps
  obtain ⟨hentry,hgated,hprepared⟩ := hartifact backing hbacking
  obtain ⟨message,prepared,hconvert,hprepare,hall⟩ := hcaught sampleProgress hentry 5 _ hlog
    (by decide) (by rw [hgated]; decide)
  rw [hconvert,ok_bind,hprepare,Except.map,Except.ok.injEq] at hprepared
  obtain ⟨publish,rest,rfl,hpublished,-⟩ := List.map_eq_cons_iff.mp hprepared
  rw [Prod.mk.injEq] at hpublished
  obtain ⟨current,hheld,-⟩ := (hall publish List.mem_cons_self).held
  rw [hpublished.1,hpublished.2,hlatest] at hheld
  cases hheld

/-- A group that has committed nothing is replayed from the checkpoint on. -/
theorem sampleGroup_replays :
    (groupEvents (-1001))[20]?.any isPublish = true ∧
    (∀ backing ∈ (loadedBackings sampleIndex ((groupEvents (-1001)).take 20)).head?,
      backing.artifact.sourceProgress = [sampleProgress]) ∧
    (((sampleLoadProgram.runFor RunnerWorld.respond 20 (sampleGroup (-1001))).ingest.tables
      0).latest 7).isSome = true := by
  unfold groupEvents RunnerWorld.respond sampleAnswer
  rw [sampleFile_eq]
  decide +kernel

theorem cutover_publishes_replay_sample :
    ∃ backing, (loadedBackings sampleIndex ((groupEvents (-1001)).take 20)).head? = some backing ∧
      CutOverFrom 1 sampleIndex backing.artifact (observedProgress ((groupEvents (-1001)).take 20))
        (sampleLoadProgram.runFor RunnerWorld.respond 20 (sampleGroup (-1001))) := by
  obtain ⟨hpublish,hprogress,-⟩ := sampleGroup_replays
  obtain ⟨shardId,shard,answer,after,out,hrun,hsteps⟩ := groupEvents_split hpublish
  refine cutover_publishes_replay sampleRequest 1 sampleIndex true 1 rfl _ after shardId shard answer
    out hrun _ _ hsteps ?_
  intro backing hbacking entry hentry
  rw [hprogress backing hbacking,List.mem_singleton] at hentry
  rw [hentry]
  left
  decide

end Rebuild
end KvIndex
