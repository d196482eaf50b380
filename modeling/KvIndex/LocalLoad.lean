import KvIndex.ArtifactPath
import KvIndex.LoadedRows
import KvIndex.ProgramRuns

/-! Loads of a local artifact without realtime tables. A load maps files of its own artifact only;
where every shard has a file that can be loaded, the pages can be prewarmed and nobody cancels,
the load ends as succeeded. -/
namespace KvIndex
namespace Rebuild

open Base Ingest Artifact LoadView ForwardIndex

/-- What a load asks for: the files of its artifact, and a runner for progress that there is. -/
def AsksFor (artifactUri : Bytes) : LoadOp → Prop
  | .mapShardFile uri _ => uri = artifactUri
  | .start request => request.safeProgress.partitions ≠ []
  | _ => True

section AsksFor

variable {α : Type} {uri : Bytes} {request : LoadRequest} {options : ForwardIndexOptions}

theorem storeAndReturn_only (status : StatusOr Unit) (state : LoadState) :
    Prog.Only (AsksFor uri) (storeAndReturn status state : LoadPart α) :=
  Prog.Only.bind (Prog.Only.call trivial) fun _ => Prog.Only.throw _

theorem orFail_only (state : LoadState) (result : StatusOr α) :
    Prog.Only (AsksFor uri) (orFail state result) := by
  cases result with
  | error status => exact storeAndReturn_only _ _
  | ok a => exact Prog.Only.pure a

theorem checkCancelled_only (state : LoadState) :
    Prog.Only (AsksFor uri) (checkCancelled state) := by
  refine Prog.Only.bind (Prog.Only.call trivial) fun answer => ?_
  cases answer with
  | false => exact Prog.Only.pure _
  | true => exact storeAndReturn_only _ _

theorem loadShards_only (shardIds : List ℕ) (state : LoadState)
    (backings : List MmapSnapshotBacking) :
    Prog.Only (AsksFor request.artifactUri)
      (loadShards request options shardIds state backings) := by
  induction shardIds generalizing state backings with
  | nil => exact Prog.Only.pure _
  | cons shardId shardIds ih =>
    refine Prog.Only.bind (checkCancelled_only _) fun _ => ?_
    refine Prog.Only.bind (Prog.Only.call rfl) fun mapped => ?_
    refine Prog.Only.bind (orFail_only _ _) fun bytes => ?_
    refine Prog.Only.bind (orFail_only _ _) fun backing => ?_
    exact Prog.Only.bind (Prog.Only.call trivial) fun _ => ih _ _

theorem prewarmShards_only (shardIds : List ℕ) (state : LoadState) :
    Prog.Only (AsksFor uri) (prewarmShards shardIds state) := by
  induction shardIds generalizing state with
  | nil => exact Prog.Only.pure _
  | cons shardId shardIds ih =>
    refine Prog.Only.bind (checkCancelled_only _) fun _ => ?_
    refine Prog.Only.bind (Prog.Only.call trivial) fun status => ?_
    refine Prog.Only.bind (orFail_only _ _) fun _ => ?_
    exact Prog.Only.bind (Prog.Only.call trivial) fun _ => ih _

theorem cutoverShards_only (shardId : ℕ) (shards : List PublishedShard) (state : LoadState) :
    Prog.Only (AsksFor uri) (cutoverShards shardId shards state) := by
  induction shards generalizing shardId state with
  | nil => exact Prog.Only.pure _
  | cons shard shards ih =>
    refine Prog.Only.bind (checkCancelled_only _) fun _ => ?_
    refine Prog.Only.bind (Prog.Only.call trivial) fun status => ?_
    refine Prog.Only.bind (orFail_only _ _) fun _ => ?_
    exact Prog.Only.bind (Prog.Only.call trivial) fun _ => ih _ _

theorem observe_only (target : KafkaProgress) (state : LoadState) :
    Prog.Only (AsksFor uri) (observe target state) := by
  refine Prog.Only.bind (Prog.Only.call trivial) fun captured => ?_
  refine Prog.Only.bind (orFail_only _ _) fun observed => ?_
  refine Prog.Only.bind (orFail_only _ _) fun progress => ?_
  exact Prog.Only.bind (Prog.Only.call trivial) fun _ => Prog.Only.pure _

theorem catchUp_only (fuel : ℕ) (state : LoadState) :
    Prog.Only (AsksFor uri) (catchUp fuel state) := by
  induction fuel generalizing state with
  | zero =>
    rw [catchUp]
    split
    · exact Prog.Only.throw _
    · exact Prog.Only.pure _
  | succ fuel ih =>
    rw [catchUp]
    split
    · refine Prog.Only.bind (checkCancelled_only _) fun _ => ?_
      refine Prog.Only.bind (Prog.Only.call trivial) fun polled => ?_
      cases polled with
      | ok _ => exact Prog.Only.bind (observe_only _ _) fun state => ih state
      | error status =>
        show Prog.Only _ (failPoll state status)
        unfold failPoll
        split
        · exact storeAndReturn_only _ _
        · refine Prog.Only.bind (Prog.Only.call trivial) fun answer => ?_
          cases answer with
          | false => exact storeAndReturn_only _ _
          | true => exact storeAndReturn_only _ _
    · exact Prog.Only.pure _

theorem catchUpPart_only (id : LoadId) (fuel : ℕ) (backings : List MmapSnapshotBacking)
    (state : LoadState) : Prog.Only (AsksFor uri) (catchUpPart id options fuel backings state) := by
  unfold catchUpPart
  split
  · cases backings with
    | nil => exact Prog.Only.pure _
    | cons backing backings =>
      have hprogress : ∀ history, Prog.SafeOr (Prog.onlyRules LoadRes (AsksFor uri))
          (fun _ _ => True)
          (fun _ _ => (buildSafeProgress backing.artifact.sourceProgress).partitions ≠ []) history
          (orFail state (failIf (buildSafeProgress backing.artifact.sourceProgress).partitions.isEmpty
            (.failedPrecondition "artifact source progress is empty"))) := by
        intro history
        cases hempty : (buildSafeProgress backing.artifact.sourceProgress).partitions.isEmpty with
        | true => exact Prog.SafeOr.bind (Prog.SafeOr.call trivial fun _ _ => Prog.SafeOr.throw trivial)
        | false => exact Prog.SafeOr.pure (List.isEmpty_eq_false_iff.mp hempty)
      refine Prog.Only.bindIf hprogress fun _ hsome => ?_
      refine Prog.Only.bind (Prog.Only.call trivial) fun runner => ?_
      refine Prog.Only.bind (orFail_only _ _) fun _ => ?_
      refine Prog.Only.bind (Prog.Only.call trivial) fun _ => ?_
      refine Prog.Only.bind (Prog.Only.call hsome) fun started => ?_
      refine Prog.Only.bind (orFail_only _ _) fun _ => ?_
      refine Prog.Only.bind (checkCancelled_only _) fun _ => ?_
      refine Prog.Only.bind (observe_only _ _) fun state => ?_
      refine Prog.Only.bind (catchUp_only _ _) fun state => ?_
      exact Prog.Only.bind (checkCancelled_only _) fun _ => Prog.Only.pure _
  · exact Prog.Only.pure _

theorem loadArtifact_only (request : LoadRequest) (id : LoadId) (options : ForwardIndexOptions)
    (hasPublish : Bool) (fuel : ℕ) :
    Prog.Only (AsksFor request.artifactUri) (loadArtifact request id options hasPublish fuel) := by
  refine Prog.Only.bind (Prog.Only.call trivial) fun _ => ?_
  refine Prog.Only.bind (orFail_only _ _) fun _ => ?_
  refine Prog.Only.bind (orFail_only _ _) fun _ => ?_
  refine Prog.Only.bind (checkCancelled_only _) fun _ => ?_
  refine Prog.Only.bind (loadShards_only _ _ _) fun loaded => ?_
  refine Prog.Only.bind (prewarmShards_only _ _) fun _ => ?_
  refine Prog.Only.bind (catchUpPart_only _ _ _ _) fun _ => ?_
  refine Prog.Only.bind (cutoverShards_only _ _ _) fun _ => ?_
  exact storeAndReturn_only _ _

theorem LoadRun.asksFor {id : LoadId} {hasPublish : Bool} {fuel : ℕ} {events : List LoadEvent}
    {out : Option LoadOutcome} (h : LoadRun request id options hasPublish fuel events out) :
    ∀ event ∈ events, AsksFor request.artifactUri event.1 := by
  have honly := loadArtifact_only request id options hasPublish fuel
  rcases Prog.Emits.bind_cases h with hrunning | ⟨first,result,second,hfirst,hsecond,rfl⟩
  · exact honly.emits hrunning
  · have hnone : second = [] := by
      cases result with
      | error outcome => cases hsecond <;> rfl
      | ok outcome => cases hsecond <;> rfl
    rw [hnone,List.append_nil]
    exact honly.emits hfirst

/-- The files of a load that publishes are those of the shards, in their order. -/
theorem LoadRun.loadedBackings_shardId {id : LoadId} {hasPublish : Bool} {fuel : ℕ}
    {events : List LoadEvent} {out : Option LoadOutcome}
    (h : LoadRun request id options hasPublish fuel events out) {shard : PublishedShard}
    (hshard : shard ∈ publishCalls events) {i : ℕ} (hi : i < options.shardCount.toNat)
    {backing : MmapSnapshotBacking} (hb : (loadedBackings options events)[i]? = some backing) :
    backing.shardId = UInt32.ofNat i := by
  obtain ⟨before,shardId,answer,after,rfl⟩ := mem_publishCalls hshard
  have hloaded : (loadedBackings options before).map (·.shardId) =
      shardIds options.shardCount.toNat := (h.mayPublish rfl).loaded
  have hlength := congrArg List.length hloaded
  rw [List.length_map,shardIds,List.length_map,List.length_range] at hlength
  rw [loadedBackings_append,List.getElem?_append_left (hlength ▸ hi)] at hb
  have hget := congrArg (·[i]?) hloaded
  simp only [List.getElem?_map,hb,Option.map_some,shardIds,List.getElem?_range hi,
    Option.some.injEq] at hget
  exact hget

/-- In a Kafka mode nothing is published of an artifact without source progress. -/
theorem LoadRun.publishCalls_eq_nil_of_noProgress {id : LoadId} {hasPublish : Bool} {fuel : ℕ}
    {events : List LoadEvent} {out : Option LoadOutcome}
    (h : LoadRun request id options hasPublish fuel events out)
    (hmode : forwardIndexModeUsesKafkaRealtime options.mode = true)
    (hprogress : ∀ backing ∈ loadedBackings options events, backing.shardId = 0 →
      backing.artifact.sourceProgress = []) : publishCalls events = [] := by
  by_contra hne
  obtain ⟨shard,hshard⟩ := List.exists_mem_of_ne_nil _ hne
  have hid : ∀ backing, (loadedBackings options events)[0]? = some backing →
      backing.shardId = UInt32.ofNat 0 :=
    fun _ hfirst => h.loadedBackings_shardId hshard (shardCount_pos options) hfirst
  obtain ⟨before,shardId,answer,after,rfl⟩ := mem_publishCalls hshard
  obtain ⟨⟨backing,hbacking,hstarts⟩,-⟩ := (h.mayPublish rfl).caughtUp hmode
  have hfirst : (loadedBackings options (before++⟨.publishShard shardId shard,answer⟩::after))[0]? =
      some backing := by
    have hhead : (loadedBackings options before).head? = some backing := hbacking
    rw [loadedBackings_append,← List.head?_eq_getElem?,List.head?_append,hhead]
    rfl
  have hempty := hprogress backing (List.mem_of_getElem? hfirst) (hid backing hfirst)
  have hstart : catchUpRequest id options backing.artifact ∈ startedRequests before := by
    rw [show startedRequests before = _ from hstarts]
    exact List.mem_singleton.mpr rfl
  obtain ⟨first,second,rfl⟩ := mem_startedRequests hstart
  have hasks : (catchUpRequest id options backing.artifact).safeProgress.partitions ≠ [] :=
    h.asksFor ⟨.start _,.ok ()⟩ (by simp)
  refine hasks ?_
  rw [catchUpRequest,hempty]
  rfl

end AsksFor

/-- The environment of a load when these are the files and nothing fails. -/
def undisturbed (files : FileSystem) (options : ForwardIndexOptions) : Prog.Rules LoadRes where
  allowed _ op :=
    match op with
    | .storeState state => state.code ≠ .kCancelled
    | .publishShard shardId _ => shardId.toNat < options.shardCount.toNat
    | _ => True
  possible _ op :=
    match op with
    | .isCancelled => fun answer => answer = false
    | .mapShardFile uri shardId => fun answer => answer = mapShardFile files uri shardId
    | .prewarm _ => fun answer => answer = .ok ()
    | .publishShard _ _ => fun answer => answer = .ok ()
    | _ => fun _ => True

/-- The file of every shard can be loaded. -/
def ShardFilesLoad (files : FileSystem) (options : ForwardIndexOptions) (artifactUri : Bytes) : Prop :=
  ∀ shardId < options.shardCount.toNat, ∃ bytes backing,
    mapShardFile files artifactUri (UInt32.ofNat shardId) = .ok bytes ∧
      MmapSnapshotBacking.loadShard bytes (UInt32.ofNat shardId) (loadOptions options) = .ok backing

/-- The load has returned, and its last state says that it succeeded. -/
def HasSucceeded (history : List LoadEvent) (outcome : LoadOutcome) : Prop :=
  ∃ state, outcome = some (.ok (),state) ∧ state.code = .kSucceeded ∧
    (storedStates history).getLast? = some state

section Undisturbed

variable {files : FileSystem} {options : ForwardIndexOptions} {request : LoadRequest} {id : LoadId}
  {fuel : ℕ} {history : List LoadEvent} {state : LoadState} {α : Type}
  {exit : List LoadEvent → LoadOutcome → Prop}

theorem perform_undisturbed {op : LoadOp} {post : List LoadEvent → LoadRes op → Prop}
    (ho : (undisturbed files options).allowed history op)
    (h : ∀ answer, (undisturbed files options).possible history op answer →
      post (history++[⟨op,answer⟩]) answer) :
    Prog.SafeOr (undisturbed files options) exit post history (perform op) := Prog.SafeOr.call ho h

theorem checkCancelled_undisturbed :
    Prog.SafeOr (undisturbed files options) exit (fun _ _ => True) history
      (checkCancelled state) := by
  refine Prog.SafeOr.bind (perform_undisturbed trivial ?_)
  rintro _ rfl
  exact Prog.SafeOr.pure trivial

theorem storeState_undisturbed (hcode : state.code = .kRunning) :
    Prog.SafeOr (undisturbed files options) exit (fun _ _ => True) history (storeState state) := by
  refine perform_undisturbed ?_ fun _ _ => trivial
  show state.code ≠ .kCancelled
  rw [hcode]
  decide

theorem orFail_undisturbed {a : α} :
    Prog.SafeOr (undisturbed files options) exit (fun _ result => result = a) history
      (orFail state (.ok a)) := Prog.SafeOr.pure rfl

theorem loadShards_undisturbed {shardIds : List ℕ} {backings : List MmapSnapshotBacking}
    (hfiles : ∀ shardId ∈ shardIds, ∃ bytes backing,
      mapShardFile files request.artifactUri (UInt32.ofNat shardId) = .ok bytes ∧
        MmapSnapshotBacking.loadShard bytes (UInt32.ofNat shardId) (loadOptions options) = .ok backing)
    (hcode : state.code = .kRunning) :
    Prog.SafeOr (undisturbed files options) exit
      (fun _ loaded => loaded.1.code = .kRunning ∧
        loaded.2.length = backings.length+shardIds.length) history
      (loadShards request options shardIds state backings) := by
  induction shardIds generalizing state backings history with
  | nil => exact Prog.SafeOr.pure ⟨hcode,rfl⟩
  | cons shardId shardIds ih =>
    obtain ⟨⟨bytes,backing,hmapped,hloaded⟩,hrest⟩ := List.forall_mem_cons.mp hfiles
    refine Prog.SafeOr.bind (Prog.SafeOr.mono ?_ checkCancelled_undisturbed)
    intro history1 _ _
    refine Prog.SafeOr.bind (perform_undisturbed trivial ?_)
    intro mapped hanswer
    rw [show mapped = .ok bytes from hanswer.trans hmapped]
    refine Prog.SafeOr.bind (Prog.SafeOr.mono ?_ orFail_undisturbed)
    rintro history2 _ rfl
    rw [hloaded]
    refine Prog.SafeOr.bind (Prog.SafeOr.mono ?_ orFail_undisturbed)
    rintro history3 backing rfl
    have hnext := (noteLoaded_code state shardId backing).1.trans hcode
    refine Prog.SafeOr.bind (Prog.SafeOr.mono ?_ (storeState_undisturbed hnext))
    intro history4 _ _
    refine Prog.SafeOr.mono ?_ (ih hrest hnext)
    rintro history5 loaded ⟨hrunning,hlength⟩
    refine ⟨hrunning,hlength.trans ?_⟩
    rw [List.length_append,List.length_singleton,List.length_cons]
    omega

theorem prewarmShards_undisturbed {shardIds : List ℕ} (hcode : state.code = .kRunning) :
    Prog.SafeOr (undisturbed files options) exit (fun _ state => state.code = .kRunning) history
      (prewarmShards shardIds state) := by
  induction shardIds generalizing state history with
  | nil => exact Prog.SafeOr.pure hcode
  | cons shardId shardIds ih =>
    refine Prog.SafeOr.bind (Prog.SafeOr.mono ?_ checkCancelled_undisturbed)
    intro history1 _ _
    refine Prog.SafeOr.bind (perform_undisturbed trivial ?_)
    rintro _ rfl
    refine Prog.SafeOr.bind (Prog.SafeOr.mono ?_ orFail_undisturbed)
    intro history2 _ _
    refine Prog.SafeOr.bind (Prog.SafeOr.mono ?_ (storeState_undisturbed ?_))
    · intro history3 _ _
      exact ih hcode
    · exact hcode

theorem cutoverShards_undisturbed {shardId : ℕ} {shards : List PublishedShard}
    (hshards : shardId+shards.length ≤ options.shardCount.toNat) (hcode : state.code = .kRunning) :
    Prog.SafeOr (undisturbed files options) exit (fun _ state => state.code = .kRunning) history
      (cutoverShards shardId shards state) := by
  induction shards generalizing shardId state history with
  | nil => exact Prog.SafeOr.pure hcode
  | cons shard shards ih =>
    rw [List.length_cons] at hshards
    have hlt := options.shardCount.toNat_lt
    refine Prog.SafeOr.bind (Prog.SafeOr.mono ?_ checkCancelled_undisturbed)
    intro history1 _ _
    refine Prog.SafeOr.bind (perform_undisturbed ?_ ?_)
    · show (UInt32.ofNat shardId).toNat < _
      rw [toNat_ofNat (by omega)]
      omega
    rintro _ rfl
    refine Prog.SafeOr.bind (Prog.SafeOr.mono ?_ orFail_undisturbed)
    intro history2 _ _
    refine Prog.SafeOr.bind (Prog.SafeOr.mono ?_ (storeState_undisturbed ?_))
    · intro history3 _ _
      exact ih (by omega) hcode
    · exact hcode

theorem loadArtifact_undisturbed (huri : request.artifactUri ≠ [])
    (hmode : options.mode = .kFullSnapshotOnly)
    (hfiles : ShardFilesLoad files options request.artifactUri) :
    Prog.SafeOr (undisturbed files options) HasSucceeded HasSucceeded history
      (loadArtifact request id options true fuel) := by
  have huri : request.artifactUri.isEmpty = false := List.isEmpty_eq_false_iff.mpr huri
  refine Prog.SafeOr.bind (Prog.SafeOr.mono ?_ (storeState_undisturbed rfl))
  intro history1 _ _
  rw [huri]
  refine Prog.SafeOr.bind (Prog.SafeOr.mono ?_ orFail_undisturbed)
  intro history2 _ _
  refine Prog.SafeOr.bind (Prog.SafeOr.mono ?_ orFail_undisturbed)
  intro history3 _ _
  refine Prog.SafeOr.bind (Prog.SafeOr.mono ?_ checkCancelled_undisturbed)
  intro history4 _ _
  refine Prog.SafeOr.bind (Prog.SafeOr.mono ?_ (loadShards_undisturbed ?_ rfl))
  · rintro history5 ⟨state,backings⟩ ⟨hrunning,hlength⟩
    refine Prog.SafeOr.bind (Prog.SafeOr.mono ?_ (prewarmShards_undisturbed hrunning))
    intro history6 state hrunning
    unfold catchUpPart
    rw [hmode]
    refine Prog.SafeOr.bind (Prog.SafeOr.pure ?_)
    refine Prog.SafeOr.bind (Prog.SafeOr.mono ?_ (cutoverShards_undisturbed ?_ ?_))
    · intro history7 state _
      refine Prog.SafeOr.bind (perform_undisturbed ?_ fun _ _ => ?_)
      · show LoadStateCode.kSucceeded ≠ .kCancelled
        decide
      · exact Prog.SafeOr.throw ⟨_,rfl,rfl,storedStates_getLast _⟩
    · rw [shardStates_length,hlength,List.length_range]
      exact (Nat.zero_add _).trans (Nat.zero_add _) |>.le
    · exact hrunning
  · intro shardId hshardId
    exact hfiles shardId (List.mem_range.mp hshardId)

end Undisturbed

/-- Nobody cancels, the files are these, and the pages can be prewarmed. -/
structure Undisturbed (files : FileSystem) (labels : List LoadLabel) : Prop where
  quiet : LoadLabel.cancelMarks ∉ labels
  files : ∀ uri shardId answer, ⟨.mapShardFile uri shardId,answer⟩ ∈ workerEvents labels →
    answer = mapShardFile files uri shardId
  prewarmed : ∀ shardId answer, ⟨.prewarm shardId,answer⟩ ∈ workerEvents labels → answer = .ok ()

theorem Undisturbed.of_snoc {files : FileSystem} {labels : List LoadLabel} {label : LoadLabel}
    (h : Undisturbed files (labels++[label])) : Undisturbed files labels := by
  have hevents : workerEvents (labels++[label]) = workerEvents labels++workerEvents [label] :=
    List.filterMap_append
  refine ⟨fun hmem => h.quiet (List.mem_append_left _ hmem),?_,?_⟩
  · intro uri shardId answer hmem
    exact h.files uri shardId answer (hevents ▸ List.mem_append_left _ hmem)
  · intro shardId answer hmem
    exact h.prewarmed shardId answer (hevents ▸ List.mem_append_left _ hmem)

/-- What holds of a load while nothing disturbs it. -/
structure Alive (files : FileSystem) (options : ForwardIndexOptions) (labels : List LoadLabel)
    (world : LoadWorld) : Prop where
  flag : world.flag = false
  cancelling : world.cancelling = false
  record : world.record.code ≠ .kCancelled
  last : ∀ state, (storedStates (workerEvents labels)).getLast? = some state → world.record = state
  directory : world.directory.shards.length = options.shardCount.toNat
  worker : ∀ p, world.worker = some p →
    Prog.Safe (undisturbed files options) HasSucceeded (workerEvents labels) p
  ended : world.worker = none → world.record.code = .kSucceeded

section World

variable {files : FileSystem} {request : LoadRequest} {id : LoadId} {options : ForwardIndexOptions}
  {directory : ShardDirectory PublishedShard} {fuel : ℕ} {labels : List LoadLabel} {world : LoadWorld}

theorem Alive.done (h : Alive files options labels world) {outcome : LoadOutcome}
    (hworker : world.worker = some (.done outcome)) : world.record.code = .kSucceeded := by
  obtain ⟨state,-,hcode,hlast⟩ := h.worker _ hworker
  rw [h.last state hlast]
  exact hcode

theorem Alive.work (h : Alive files options labels world) {op : LoadOp}
    {next : LoadRes op → Loading LoadOutcome} {answer : LoadRes op} {world' : LoadWorld}
    (hworker : world.worker = some (.perform op next))
    (hstep : WorkerStep world ⟨op,answer⟩ world')
    (hlabels : Undisturbed files (labels++[.work ⟨op,answer⟩])) :
    Alive files options (labels++[.work ⟨op,answer⟩])
      { world' with worker := some (next answer) } := by
  obtain ⟨hallowed,hnext⟩ := h.worker _ hworker
  obtain ⟨hcancelling,hflag,-⟩ := hstep.frame
  rw [h.cancelling] at hcancelling
  rw [h.flag] at hflag
  have hnew : ⟨op,answer⟩ ∈ workerEvents (labels++[.work ⟨op,answer⟩]) := by simp
  have hsame := @storedStates_silent (workerEvents labels) ⟨op,answer⟩
  have hworker' : ∀ p, some (next answer) = some p →
      (undisturbed files options).possible (workerEvents labels) op answer →
      Prog.Safe (undisturbed files options) HasSucceeded
        (workerEvents (labels++[.work ⟨op,answer⟩])) p := by
    rintro p hp hpossible
    cases hp
    rw [workerEvents_work]
    exact hnext answer hpossible
  have hended : some (next answer) = none → world'.record.code = .kSucceeded := by
    intro hnone
    cases hnone
  cases op with
  | storeState state =>
    obtain ⟨-,rfl⟩ := hstep
    have hrecord : storeRecord world.record state = state := by
      rw [storeRecord,if_neg fun hcancelled => h.record hcancelled.1]
    refine ⟨hflag,hcancelling,?_,?_,h.directory,fun p hp => hworker' p hp trivial,hended⟩
    · show (storeRecord world.record state).code ≠ _
      rw [hrecord]
      exact hallowed
    · intro last hlast
      rw [workerEvents_work,storedStates_getLast,Option.some.injEq] at hlast
      exact hrecord.trans hlast
  | publishShard shardId shard =>
    obtain ⟨hanswer,rfl⟩ := hstep
    have hlt : shardId.toNat < options.shardCount.toNat := hallowed
    have hpublish : world.directory.publish shardId (some shard) =
        (.ok (),⟨world.directory.shards.set shardId.toNat (some shard)⟩) := by
      rw [ShardDirectory.publish,if_neg (by rw [h.directory]; omega)]
    rw [hpublish] at hanswer
    refine ⟨hflag,hcancelling,h.record,?_,?_,fun p hp => hworker' p hp hanswer,hended⟩
    · rw [workerEvents_work,hsame rfl]
      exact h.last
    · show (world.directory.publish shardId (some shard)).2.shards.length = _
      rw [hpublish]
      exact List.length_set.trans h.directory
  | isCancelled =>
    obtain ⟨hanswer,rfl⟩ := hstep
    refine ⟨hflag,hcancelling,h.record,?_,h.directory,
      fun p hp => hworker' p hp (hanswer.trans h.flag),hended⟩
    rw [workerEvents_work,hsame rfl]
    exact h.last
  | mapShardFile uri shardId =>
    obtain rfl := hstep.quiet rfl rfl
    refine ⟨hflag,hcancelling,h.record,?_,h.directory,
      fun p hp => hworker' p hp (hlabels.files uri shardId answer hnew),hended⟩
    rw [workerEvents_work,hsame rfl]
    exact h.last
  | prewarm shardId =>
    obtain rfl := hstep.quiet rfl rfl
    refine ⟨hflag,hcancelling,h.record,?_,h.directory,
      fun p hp => hworker' p hp (hlabels.prewarmed shardId answer hnew),hended⟩
    rw [workerEvents_work,hsame rfl]
    exact h.last
  | _ =>
    obtain rfl := hstep.quiet rfl rfl
    refine ⟨hflag,hcancelling,h.record,?_,h.directory,fun p hp => hworker' p hp trivial,hended⟩
    rw [workerEvents_work,hsame rfl]
    exact h.last

theorem LoadHistory.alive (h : LoadHistory request id options directory fuel labels world)
    (hdirectory : directory.shards.length = options.shardCount.toNat)
    (huri : request.artifactUri ≠ []) (hmode : options.mode = .kFullSnapshotOnly)
    (hfiles : ShardFilesLoad files options request.artifactUri)
    (hlabels : Undisturbed files labels) : Alive files options labels world := by
  have hinv := Steps.invariant (fun labels world =>
    Undisturbed files labels → Alive files options labels world) h ?_ ?_
  · exact hinv hlabels
  · intro _
    refine ⟨rfl,rfl,?_,(fun state hlast => by cases hlast),hdirectory,?_,(fun hnone => by cases hnone)⟩
    · show LoadStateCode.kRunning ≠ .kCancelled
      decide
    · rintro p hp
      cases hp
      refine Prog.Safe.bind (Prog.Safe.mono ?_ (loadArtifact_undisturbed huri hmode hfiles))
      intro history result hresult
      cases result with
      | error outcome => exact hresult
      | ok outcome => exact hresult
  · intro labels world label world' ih hstep hlabels
    have halive := ih hlabels.of_snoc
    have hquiet := @workerEvents_quiet labels label
    cases hstep with
    | work hworker hstep => exact halive.work hworker hstep hlabels
    | finish hworker _ =>
      refine ⟨halive.flag,halive.cancelling,halive.record,?_,halive.directory,
        (fun p hp => by cases hp),
        fun _ => halive.done hworker⟩
      rw [hquiet rfl]
      exact halive.last
    | cancelMarks => exact absurd (List.mem_append_right _ (List.mem_singleton.mpr rfl)) hlabels.quiet
    | cancelReturns hlock =>
      rw [halive.cancelling] at hlock
      cases hlock
    | cancelRefused _ _ =>
      refine ⟨halive.flag,halive.cancelling,halive.record,?_,halive.directory,?_,halive.ended⟩
      · rw [hquiet rfl]
        exact halive.last
      · rw [hquiet rfl]
        exact halive.worker
    | getLoadState _ =>
      refine ⟨halive.flag,halive.cancelling,halive.record,?_,halive.directory,?_,halive.ended⟩
      · rw [hquiet rfl]
        exact halive.last
      · rw [hquiet rfl]
        exact halive.worker

end World

end Rebuild
end KvIndex
