import KvIndex.ForwardIndex
import KvIndex.LoadRun
import KvIndex.Transition

/-! A load in its index: the worker, the record of the load behind a mutex, the
cancellation flag and the directory, with calls of `CancelLoad` and `GetLoadState` at
any time. `CancelLoad` writes the record and then the flag, and holds the mutex between. -/
namespace KvIndex
namespace Rebuild

open Base Ingest Artifact LoadView ForwardIndex

structure LoadWorld where
  record : LoadState
  flag : Bool := false
  registered : Bool := true
  cancelling : Bool := false
  directory : ShardDirectory PublishedShard
  worker : Option (Loading LoadOutcome)

inductive LoadLabel
  | work (event : LoadEvent)
  | finish
  | cancelRefused
  | cancelMarks
  | cancelReturns
  | getLoadState (answer : LoadState)

/-- What an operation of the worker does to the world, with the answer it gets. The
files and the runner may answer anything. -/
def WorkerStep (world : LoadWorld) (event : LoadEvent) (world' : LoadWorld) : Prop :=
  match event with
  | ⟨.storeState state,_⟩ => world.cancelling = false ∧
      world' = { world with record := storeRecord world.record state }
  | ⟨.isCancelled,answer⟩ => answer = world.flag ∧ world' = world
  | ⟨.publishShard shardId shard,answer⟩ =>
    answer = (world.directory.publish shardId (some shard)).1 ∧
      world' = { world with directory := (world.directory.publish shardId (some shard)).2 }
  | _ => world' = world

/-- Where nothing is stored and nothing published, nothing changes. -/
theorem WorkerStep.quiet {world world' : LoadWorld} {event : LoadEvent}
    (h : WorkerStep world event world') (hstored : storedStates [event] = [])
    (hcalls : publishCalls [event] = []) : world' = world := by
  obtain ⟨op,answer⟩ := event
  cases op with
  | storeState state => cases hstored
  | publishShard shardId shard => cases hcalls
  | isCancelled => exact h.2
  | _ => exact h

theorem WorkerStep.frame {world world' : LoadWorld} {event : LoadEvent}
    (h : WorkerStep world event world') :
    world'.cancelling = world.cancelling ∧ world'.flag = world.flag ∧
      world'.registered = world.registered := by
  obtain ⟨op,answer⟩ := event
  cases op with
  | storeState state =>
    obtain ⟨-,rfl⟩ := h
    exact ⟨rfl,rfl,rfl⟩
  | publishShard shardId shard =>
    obtain ⟨-,rfl⟩ := h
    exact ⟨rfl,rfl,rfl⟩
  | _ =>
    obtain rfl := h.quiet rfl rfl
    exact ⟨rfl,rfl,rfl⟩

/-- The world answers a call of the worker; the files and the runner answer as given. -/
def respond (answer : (op : LoadOp) → LoadRes op) :
    (op : LoadOp) → LoadWorld → LoadRes op×LoadWorld
  | .storeState state, world => ((),{ world with record := storeRecord world.record state })
  | .isCancelled, world => (world.flag,world)
  | .publishShard shardId shard, world => ((world.directory.publish shardId (some shard)).1,
      { world with directory := (world.directory.publish shardId (some shard)).2 })
  | .mapShardFile uri shardId, world => (answer (.mapShardFile uri shardId),world)
  | .prewarm shardId, world => (answer (.prewarm shardId),world)
  | .createCatchUpRunner, world => (answer .createCatchUpRunner,world)
  | .start request, world => (answer (.start request),world)
  | .captureSafeProgress, world => (answer .captureSafeProgress,world)
  | .pollApplyCommitOnce, world => (answer .pollApplyCommitOnce,world)

theorem respond_step (answer : (op : LoadOp) → LoadRes op) (op : LoadOp) {world : LoadWorld}
    (h : world.cancelling = false) (worker : Option (Loading LoadOutcome)) :
    WorkerStep { world with worker } ⟨op,(respond answer op world).1⟩
      { (respond answer op world).2 with worker } := by
  cases op with
  | storeState state => exact ⟨h,rfl⟩
  | isCancelled => exact ⟨rfl,rfl⟩
  | publishShard shardId shard => exact ⟨rfl,rfl⟩
  | _ => exact rfl

theorem respond_cancelling (answer : (op : LoadOp) → LoadRes op) (op : LoadOp) (world : LoadWorld) :
    (respond answer op world).2.cancelling = world.cancelling := by
  cases op <;> rfl

inductive LoadStep : LoadWorld → LoadLabel → LoadWorld → Prop
  | work {world world' : LoadWorld} {op : LoadOp} {next : LoadRes op → Loading LoadOutcome}
      {answer : LoadRes op} (hworker : world.worker = some (.perform op next))
      (hstep : WorkerStep world ⟨op,answer⟩ world') :
      LoadStep world (.work ⟨op,answer⟩) { world' with worker := some (next answer) }
  /-- The worker erases its flag from the index and ends. -/
  | finish {world : LoadWorld} {result : StatusOr Unit×LoadState}
      (hworker : world.worker = some (.done (some result))) (hlock : world.cancelling = false) :
      LoadStep world .finish { world with worker := none,registered := false }
  | cancelRefused {world : LoadWorld} (hlock : world.cancelling = false)
      (hterminal : world.record.terminal = true) : LoadStep world .cancelRefused world
  | cancelMarks {world : LoadWorld} (hlock : world.cancelling = false)
      (hterminal : world.record.terminal = false) :
      LoadStep world .cancelMarks
        { world with record := cancelRecord world.record,cancelling := true }
  | cancelReturns {world : LoadWorld} (hlock : world.cancelling = true) :
      LoadStep world .cancelReturns
        { world with flag := world.flag || world.registered,cancelling := false }
  | getLoadState {world : LoadWorld} (hlock : world.cancelling = false) :
      LoadStep world (.getLoadState world.record) world

theorem worker_steps (answer : (op : LoadOp) → LoadRes op) (p : Loading LoadOutcome)
    (world : LoadWorld) (h : world.cancelling = false) :
    ∃ world', Steps LoadStep { world with worker := some p }
        ((p.trace (respond answer) world).map .work) world' ∧
      world'.worker = some (.done (p.run (respond answer) world).1) ∧
      world'.cancelling = false := by
  induction p generalizing world with
  | done outcome => exact ⟨_,Steps.nil,rfl,h⟩
  | perform op next ih =>
    have hstep := respond_step answer op h (some (.perform op next))
    have hnext := (respond_cancelling answer op world).trans h
    obtain ⟨world',hrest,hworker,hlock⟩ :=
      ih (respond answer op world).1 (respond answer op world).2 hnext
    exact ⟨world',Steps.head (LoadStep.work rfl hstep) hrest,hworker,hlock⟩

/-- The world when `LoadAsync` has started the worker. -/
def startLoad (request : LoadRequest) (id : LoadId) (options : ForwardIndexOptions)
    (directory : ShardDirectory PublishedShard) (fuel : ℕ) : LoadWorld where
  record := recordOf request id
  directory := directory
  worker := some (runExternalArtifactLoad request id options true fuel)

def workerEvents (labels : List LoadLabel) : List LoadEvent :=
  labels.filterMap fun label =>
    match label with
    | .work event => some event
    | _ => none

@[simp] theorem workerEvents_work (labels : List LoadLabel) (event : LoadEvent) :
    workerEvents (labels++[.work event]) = workerEvents labels++[event] := List.filterMap_append

theorem workerEvents_quiet {labels : List LoadLabel} {label : LoadLabel}
    (h : workerEvents [label] = []) : workerEvents (labels++[label]) = workerEvents labels := by
  rw [workerEvents,List.filterMap_append,← workerEvents,← workerEvents,h,List.append_nil]

/-- The directory after these shards have been published to it. -/
def publishAll (directory : ShardDirectory PublishedShard) (shards : List PublishedShard) : ShardDirectory PublishedShard :=
  shards.foldl (fun directory shard => (directory.publish shard.shardId (some shard)).2) directory

/-- What holds of the record while the worker has stored these states. -/
structure RecordInv (history : List LoadEvent) (options : ForwardIndexOptions) (record : LoadState) :
    Prop where
  truthful : Truthful record
  cutover : record.cutoverShardCount =
    ((storedStates history).getLast?.map (·.cutoverShardCount)).getD 0
  finished : (view options history).finished = true → record.terminal = true
  running : (view options history).finished = false → record.terminal = false ∨
    record.code = .kCancelled
  terminal : record.terminal = true ↔ record.code ≠ .kRunning
  succeeded : record.code = .kSucceeded →
    (publishedShards history).length = options.shardCount.toNat

structure WorldInv (id : LoadId) (options : ForwardIndexOptions) (start : ShardDirectory PublishedShard)
    (labels : List LoadLabel) (world : LoadWorld) : Prop where
  record : RecordInv (workerEvents labels) options world.record
  worker : ∀ p, world.worker = some p →
    Prog.Safe (loadRules id options) (Ends options) (workerEvents labels) p
  ended : world.worker = none → ∃ status state, Ended options (workerEvents labels) status state
  registered : world.worker ≠ none → world.registered = true
  cancelling : world.cancelling = true → world.worker ≠ none ∧ world.record.terminal = true ∧
    world.record.code = .kCancelled
  directory : world.directory = publishAll start (publishedShards (workerEvents labels))

theorem Truthful.cancelRecord {state : LoadState} (h : Truthful state) :
    Truthful (cancelRecord state) :=
  ⟨h.cutover_le,h.prewarmed_le,h.loaded_le,h.loaded,h.prewarmed,h.cutover⟩

/-- A record is either the stored state or the stored state as cancelled. -/
theorem storeRecord_cases (record state : LoadState) :
    (record.code = .kCancelled ∧ record.terminal = true ∧
      storeRecord record state = cancelRecord state) ∨
    (storeRecord record state = state ∧
      (record.terminal = true → record.code = .kCancelled → state.code = .kCancelled)) := by
  rw [storeRecord]
  by_cases h : record.code = .kCancelled ∧ record.terminal = true ∧ state.code ≠ .kCancelled
  · rw [if_pos h]
    exact Or.inl ⟨h.1,h.2.1,rfl⟩
  · rw [if_neg h]
    refine Or.inr ⟨rfl,fun hterm hcode => ?_⟩
    by_contra hne
    exact h ⟨hcode,hterm,hne⟩

section Record

variable {options : ForwardIndexOptions} {history : List LoadEvent} {record : LoadState}

theorem RecordInv.store (record : LoadState) {state : LoadState}
    (hfin : (view options history).finished = false) (hs : (view options history).MayStore options state) :
    RecordInv (history++[⟨.storeState state,()⟩]) options (storeRecord record state) := by
  have hview := view_storeState options history state
  have hpub : (publishedShards (history++[⟨.storeState state,()⟩])) = publishedShards history :=
    congrArg LoadView.published hview
  have hlast : (storedStates (history++[⟨.storeState state,()⟩])).getLast? = some state :=
    storedStates_getLast state
  rcases storeRecord_cases record state with ⟨hcode,hterm,heq⟩ | ⟨heq,hkeep⟩
  · rw [heq]
    refine ⟨hs.truthful.cancelRecord,?_,fun _ => rfl,fun _ => Or.inr rfl,by simp [cancelRecord],?_⟩
    · rw [hlast]
      rfl
    · intro hc
      cases hc
  · rw [heq]
    refine ⟨hs.truthful,?_,?_,?_,hs.terminal,?_⟩
    · rw [hlast]
      rfl
    · intro hnew
      rwa [hview,hfin,Bool.false_or] at hnew
    · intro hnew
      rw [hview,hfin,Bool.false_or] at hnew
      exact Or.inl hnew
    · intro hc
      rw [hpub]
      exact hs.succeeded hc

theorem RecordInv.other (h : RecordInv history options record) {event : LoadEvent}
    (hfin : (view options history).finished = false)
    (hstored : storedStates (history++[event]) = storedStates history) :
    RecordInv (history++[event]) options record := by
  have hfin' : (view options (history++[event])).finished = false := by
    show (storedStates (history++[event])).any _ = false
    rw [hstored]
    exact hfin
  refine ⟨h.truthful,by rw [hstored]; exact h.cutover,?_,fun _ => h.running hfin,h.terminal,?_⟩
  · intro hc
    rw [hfin'] at hc
    cases hc
  · intro hc
    have hterm := h.terminal.mpr (by simp [hc])
    rcases h.running hfin with hr | hr
    · rw [hterm] at hr
      cases hr
    · rw [hc] at hr
      cases hr

end Record

theorem mayPublish_shardId {v : LoadView} {id : LoadId} {options : ForwardIndexOptions}
    {shardId : UInt32} {shard : PublishedShard} (h : v.MayPublish id options shardId shard) :
    shard.shardId = shardId := by
  have hs := h.shard
  rw [shardStates,List.getElem?_mapIdx,Option.map_eq_some_iff] at hs
  obtain ⟨_,_,rfl⟩ := hs
  exact UInt32.ofNat_toNat

theorem publishAll_snoc (directory : ShardDirectory PublishedShard) (shards : List PublishedShard)
    (shard : PublishedShard) :
    publishAll directory (shards++[shard]) =
      ((publishAll directory shards).publish shard.shardId (some shard)).2 := by
  simp [publishAll]

theorem publish_error {directory : ShardDirectory PublishedShard} {shardId : UInt32} {shard : PublishedShard}
    {status : Status} (h : (directory.publish shardId (some shard)).1 = .error status) :
    (directory.publish shardId (some shard)).2 = directory := by
  rw [ShardDirectory.publish] at h ⊢
  split_ifs at h ⊢
  rfl

/-- A publish extends the shards of the load that the directory holds. -/
theorem publishAll_publish {start directory : ShardDirectory PublishedShard} {events : List LoadEvent}
    {shardId : UInt32} {shard : PublishedShard} {answer : StatusOr Unit}
    (hdirectory : directory = publishAll start (publishedShards events))
    (hid : shard.shardId = shardId)
    (hanswer : answer = (directory.publish shardId (some shard)).1) :
    (directory.publish shardId (some shard)).2 =
      publishAll start (publishedShards (events++[⟨.publishShard shardId shard,answer⟩])) := by
  cases answer with
  | ok _ =>
    have hpub : publishedShards (events++[⟨.publishShard shardId shard,.ok ()⟩]) =
        publishedShards events++[shard] := publishedShards_append _ _
    rw [hpub,publishAll_snoc,← hdirectory,hid]
  | error status =>
    have hpub : publishedShards (events++[⟨.publishShard shardId shard,.error status⟩]) =
        publishedShards events := publishedShards_silent rfl
    rw [hpub,← hdirectory]
    exact publish_error hanswer.symm

section World

variable {id : LoadId} {options : ForwardIndexOptions} {start : ShardDirectory PublishedShard}
  {labels : List LoadLabel} {world world' : LoadWorld}

theorem WorldInv.outside (h : WorldInv id options start labels world) {label : LoadLabel}
    (hlabel : workerEvents (labels++[label]) = workerEvents labels)
    (hrecord : RecordInv (workerEvents labels) options world'.record)
    (hworker : world'.worker = world.worker) (hreg : world'.registered = world.registered)
    (hcan : world'.cancelling = true → world'.worker ≠ none ∧ world'.record.terminal = true ∧
      world'.record.code = .kCancelled)
    (hdir : world'.directory = world.directory) :
    WorldInv id options start (labels++[label]) world' := by
  refine ⟨hlabel ▸ hrecord,?_,?_,?_,hcan,?_⟩
  · rw [hworker,hlabel]
    exact h.worker
  · rw [hworker,hlabel]
    exact h.ended
  · rw [hworker,hreg]
    exact h.registered
  · rw [hdir,hlabel]
    exact h.directory

theorem WorldInv.work (h : WorldInv id options start labels world) {op : LoadOp}
    {next : LoadRes op → Loading LoadOutcome} {answer : LoadRes op}
    (hworker : world.worker = some (.perform op next))
    (hstep : WorkerStep world ⟨op,answer⟩ world') :
    WorldInv id options start (labels++[.work ⟨op,answer⟩])
      { world' with worker := some (next answer) } := by
  obtain ⟨hallowed,hsafe⟩ := h.worker _ hworker
  have hfin := hallowed.1
  have hnext := hsafe answer trivial
  have hreg := h.registered (by simp [hworker])
  have hparts : RecordInv (workerEvents labels++[⟨op,answer⟩]) options world'.record ∧
      world'.registered = true ∧
      (world'.cancelling = true → world'.record.terminal = true ∧
        world'.record.code = .kCancelled) ∧
      world'.directory = publishAll start (publishedShards (workerEvents labels++[⟨op,answer⟩])) := by
    have hsame := @publishedShards_silent (workerEvents labels) ⟨op,answer⟩
    cases op with
    | storeState state =>
      obtain ⟨hlock,rfl⟩ := hstep
      refine ⟨RecordInv.store _ hfin hallowed.2,hreg,?_,?_⟩
      · intro hc
        rw [hlock] at hc
        cases hc
      · rw [hsame rfl]
        exact h.directory
    | publishShard shardId shard =>
      obtain ⟨hanswer,rfl⟩ := hstep
      refine ⟨h.record.other hfin (storedStates_silent rfl),hreg,
        fun hc => (h.cancelling hc).2,?_⟩
      exact publishAll_publish h.directory (mayPublish_shardId hallowed.2.2) hanswer
    | _ =>
      obtain rfl := hstep.quiet rfl rfl
      refine ⟨h.record.other hfin (storedStates_silent rfl),hreg,
        fun hc => (h.cancelling hc).2,?_⟩
      rw [hsame rfl]
      exact h.directory
  obtain ⟨hrecord,hreg',hcan,hdir⟩ := hparts
  refine ⟨?_,?_,?_,fun _ => hreg',?_,?_⟩
  · rw [workerEvents_work]
    exact hrecord
  · intro p hp
    rw [workerEvents_work]
    obtain rfl := Option.some.inj hp
    exact hnext
  · intro hp
    cases hp
  · intro hc
    exact ⟨by simp,hcan hc⟩
  · rw [workerEvents_work]
    exact hdir

theorem RecordInv.cancel {history : List LoadEvent} {record : LoadState}
    (h : RecordInv history options record) : RecordInv history options (cancelRecord record) := by
  refine ⟨h.truthful.cancelRecord,h.cutover,fun _ => rfl,fun _ => Or.inr rfl,by simp [cancelRecord],?_⟩
  intro hc
  cases hc

theorem WorldInv.step (h : WorldInv id options start labels world) {label : LoadLabel}
    (hs : LoadStep world label world') : WorldInv id options start (labels++[label]) world' := by
  cases hs with
  | work hworker hstep => exact h.work hworker hstep
  | @finish result hworker hlock =>
    obtain ⟨status,state⟩ := result
    have hends : Ended options (workerEvents labels) status state := h.worker _ hworker
    have hsame : workerEvents (labels++[.finish]) = workerEvents labels := workerEvents_quiet rfl
    refine ⟨?_,?_,?_,?_,?_,?_⟩
    · rw [hsame]
      exact h.record
    · intro p hp
      cases hp
    · intro _
      rw [hsame]
      exact ⟨status,state,hends⟩
    · intro hp
      exact absurd rfl hp
    · intro hc
      rw [hlock] at hc
      cases hc
    · rw [hsame]
      exact h.directory
  | cancelRefused hlock hterm =>
    exact h.outside (workerEvents_quiet rfl) h.record rfl rfl h.cancelling rfl
  | cancelMarks hlock hterm =>
    refine h.outside (workerEvents_quiet rfl) h.record.cancel rfl rfl ?_ rfl
    -- a worker that has ended has left a terminal record
    intro _
    refine ⟨fun hnone => ?_,rfl,rfl⟩
    obtain ⟨status,state,hended⟩ := h.ended hnone
    have hfin : (view options (workerEvents labels)).finished = true :=
      List.any_eq_true.mpr ⟨state,List.mem_of_getLast? hended.stored,hended.terminal⟩
    rw [h.record.finished hfin] at hterm
    cases hterm
  | cancelReturns hlock =>
    refine h.outside (workerEvents_quiet rfl) h.record rfl rfl ?_ rfl
    intro hc
    cases hc
  | getLoadState hlock =>
    exact h.outside (workerEvents_quiet rfl) h.record rfl rfl h.cancelling rfl

end World

/-- The runs of a load that `LoadAsync` has started. -/
def LoadHistory (request : LoadRequest) (id : LoadId) (options : ForwardIndexOptions)
    (directory : ShardDirectory PublishedShard) (fuel : ℕ) (labels : List LoadLabel) (world : LoadWorld) : Prop :=
  Steps LoadStep (startLoad request id options directory fuel) labels world

section History

variable {request : LoadRequest} {id : LoadId} {options : ForwardIndexOptions}
  {directory : ShardDirectory PublishedShard} {fuel : ℕ} {labels : List LoadLabel} {world : LoadWorld}

theorem worldInv_start :
    WorldInv id options directory [] (startLoad request id options directory fuel) := by
  have htruthful : Truthful (recordOf request id) :=
    ⟨UInt32.le_refl _,UInt32.le_refl _,UInt32.le_refl _,rfl,rfl,rfl⟩
  refine ⟨⟨htruthful,rfl,?_,fun _ => Or.inl rfl,?_,?_⟩,?_,?_,fun _ => rfl,?_,rfl⟩
  · intro hc
    cases hc
  · simp [startLoad,recordOf]
  · intro hc
    cases hc
  · intro p hp
    obtain rfl := Option.some.inj hp
    exact runExternalArtifactLoad_safe request id options true fuel
  · intro hp
    cases hp
  · intro hc
    cases hc

theorem LoadHistory.inv (h : LoadHistory request id options directory fuel labels world) :
    WorldInv id options directory labels world :=
  Steps.invariant _ h worldInv_start fun _ _ _ _ hinv hstep => hinv.step hstep

theorem LoadHistory.loadRun (h : LoadHistory request id options directory fuel labels world) :
    LoadRun request id options true fuel (workerEvents labels) none := by
  have hinv : LoadRun request id options true fuel (workerEvents labels) none ∧
      ∀ p, world.worker = some p → Prog.Leaves
        (runExternalArtifactLoad request id options true fuel) (workerEvents labels) p := by
    refine Steps.invariant (fun labels world =>
      LoadRun request id options true fuel (workerEvents labels) none ∧
        ∀ p, world.worker = some p → Prog.Leaves
          (runExternalArtifactLoad request id options true fuel) (workerEvents labels) p) h ?_ ?_
    · refine ⟨Prog.Emits.running _,?_⟩
      intro p hp
      obtain rfl := Option.some.inj hp
      exact Prog.Leaves.nil _
    · rintro labels world label world' ⟨hrun,hleaves⟩ hstep
      have hquiet := @workerEvents_quiet labels label
      cases hstep with
      | @work world' op next answer hworker _ =>
        rw [workerEvents_work]
        have hsnoc := (hleaves _ hworker).snoc answer
        refine ⟨hsnoc.emits,?_⟩
        intro p hp
        obtain rfl := Option.some.inj hp
        exact hsnoc
      | finish _ _ =>
        rw [hquiet rfl]
        refine ⟨hrun,?_⟩
        intro p hp
        cases hp
      | _ =>
        rw [hquiet rfl]
        exact ⟨hrun,hleaves⟩
  exact hinv.1

theorem WorldInv.sticky {start : ShardDirectory PublishedShard} {world' : LoadWorld}
    (h : WorldInv id options start labels world) {label : LoadLabel}
    (hs : LoadStep world label world') (hterm : world.record.terminal = true) :
    world'.record.terminal = true ∧ world'.record.code = world.record.code := by
  cases hs with
  | @work world' op next answer hworker hstep =>
    have hfin := (h.worker _ hworker).1.1
    cases op with
    | storeState state =>
      obtain ⟨-,rfl⟩ := hstep
      have hcode : world.record.code = .kCancelled := by
        refine (h.record.running hfin).resolve_left ?_
        simp [hterm]
      rcases storeRecord_cases world.record state with ⟨-,-,heq⟩ | ⟨heq,hkeep⟩
      · rw [heq,hcode]
        exact ⟨rfl,rfl⟩
      · have hmay : (view options (workerEvents labels)).MayStore options state :=
          (h.worker _ hworker).1.2
        have hstate := hkeep hterm hcode
        rw [heq,hcode]
        exact ⟨hmay.terminal.mpr (by simp [hstate]),hstate⟩
    | publishShard shardId shard =>
      obtain ⟨-,rfl⟩ := hstep
      exact ⟨hterm,rfl⟩
    | _ =>
      obtain rfl := hstep.quiet rfl rfl
      exact ⟨hterm,rfl⟩
  | cancelMarks hlock hrunning =>
    rw [hterm] at hrunning
    cases hrunning
  | _ => exact ⟨hterm,rfl⟩

theorem LoadHistory.sticky {before after : List LoadLabel} {mid : LoadWorld}
    (h : LoadHistory request id options directory fuel before mid)
    (hafter : Steps LoadStep mid after world) (hterm : mid.record.terminal = true) :
    world.record.terminal = true ∧ world.record.code = mid.record.code := by
  have hinv := Steps.invariant (fun after world =>
    WorldInv id options directory (before++after) world ∧ world.record.terminal = true ∧
      world.record.code = mid.record.code) hafter
    ⟨by rw [List.append_nil]; exact h.inv,hterm,rfl⟩ ?_
  · exact hinv.2
  · rintro labels world label world' ⟨hw,ht,hc⟩ hstep
    obtain ⟨ht',hc'⟩ := hw.sticky hstep ht
    rw [← List.append_assoc]
    exact ⟨hw.step hstep,ht',hc'.trans hc⟩

/-- A record that is terminal while no cancellation is under way is never cancelled. -/
theorem not_cancelReturns_of_terminal {before after : List LoadLabel} {mid : LoadWorld}
    (h : LoadHistory request id options directory fuel before mid)
    (hafter : Steps LoadStep mid after world) (hterm : mid.record.terminal = true)
    (hlock : mid.cancelling = false) : LoadLabel.cancelReturns ∉ after := by
  have hinv := Steps.invariant (fun after world =>
    WorldInv id options directory (before++after) world ∧ world.record.terminal = true ∧
      world.cancelling = false ∧ LoadLabel.cancelReturns ∉ after) hafter
    ⟨by rw [List.append_nil]; exact h.inv,hterm,hlock,List.not_mem_nil⟩ ?_
  · exact hinv.2.2.2
  · rintro labels world label world' ⟨hw,ht,hl,hnot⟩ hstep
    have ht' := (hw.sticky hstep ht).1
    have hw' := hw.step hstep
    rw [List.append_assoc] at hw'
    cases hstep with
    | @work world' op next answer hworker hstep =>
      exact ⟨hw',ht',hstep.frame.1.trans hl,by simpa using hnot⟩
    | cancelMarks _ hrunning =>
      rw [ht] at hrunning
      cases hrunning
    | cancelReturns hcancelling =>
      rw [hl] at hcancelling
      cases hcancelling
    | _ => exact ⟨hw',ht',hl,by simpa using hnot⟩

/-- What has happened since the flag was set: the worker publishes no shard after it has
asked for the flag. -/
structure SinceFlag (history : List LoadEvent) (after : List LoadLabel) (world : LoadWorld) : Prop where
  flag : world.flag = true
  calls : (publishCalls (workerEvents after)).length ≤ 1
  last : (publishCalls (workerEvents after)).length = 1 →
    history.getLast? ≠ some ⟨.isCancelled,false⟩

theorem SinceFlag.outside {history : List LoadEvent} {after : List LoadLabel} {world' : LoadWorld}
    (h : SinceFlag history after world) {label : LoadLabel} (hlabel : workerEvents [label] = [])
    (hflag : world'.flag = true) : SinceFlag history (after++[label]) world' := by
  refine ⟨hflag,?_,?_⟩
  · rw [workerEvents_quiet hlabel]
    exact h.calls
  · rw [workerEvents_quiet hlabel]
    exact h.last

theorem SinceFlag.work {start : ShardDirectory PublishedShard} {before after : List LoadLabel}
    {world' : LoadWorld} (hinv : WorldInv id options start (before++after) world)
    (h : SinceFlag (workerEvents (before++after)) after world) {op : LoadOp}
    {next : LoadRes op → Loading LoadOutcome} {answer : LoadRes op}
    (hworker : world.worker = some (.perform op next))
    (hstep : WorkerStep world ⟨op,answer⟩ world') :
    SinceFlag (workerEvents (before++after)++[⟨op,answer⟩]) (after++[.work ⟨op,answer⟩])
      { world' with worker := some (next answer) } := by
  have hflag : world'.flag = true := hstep.frame.2.1.trans h.flag
  have hsame := @publishCalls_silent (workerEvents after) ⟨op,answer⟩
  rw [← workerEvents_work] at hsame
  cases op with
  | publishShard shardId shard =>
    have hlast := (hinv.worker _ hworker).1.2.1
    have hzero : (publishCalls (workerEvents after)).length = 0 := by
      have h1 := h.calls
      have h2 : (publishCalls (workerEvents after)).length ≠ 1 := fun hone => h.last hone hlast
      omega
    have hcalls : publishCalls (workerEvents (after++[.work ⟨.publishShard shardId shard,answer⟩])) =
        publishCalls (workerEvents after)++[shard] := by
      rw [workerEvents_work]
      exact publishCalls_append _ _
    refine ⟨hflag,by rw [hcalls,List.length_append,hzero]; rfl,?_⟩
    intro _
    simp
  | isCancelled =>
    obtain ⟨hanswer,rfl⟩ := hstep
    rw [h.flag] at hanswer
    subst hanswer
    refine ⟨hflag,by rw [hsame rfl]; exact h.calls,?_⟩
    intro _
    simp
  | _ =>
    refine ⟨hflag,by rw [hsame rfl]; exact h.calls,?_⟩
    intro _
    simp

theorem LoadHistory.sinceFlag {before after : List LoadLabel} {mid : LoadWorld}
    (h : LoadHistory request id options directory fuel before mid)
    (hafter : Steps LoadStep mid after world) (hflag : mid.flag = true) :
    SinceFlag (workerEvents (before++after)) after world := by
  have hinv := Steps.invariant (fun after world =>
    WorldInv id options directory (before++after) world ∧
      SinceFlag (workerEvents (before++after)) after world) hafter
    ⟨by rw [List.append_nil]; exact h.inv,hflag,Nat.zero_le _,nofun⟩ ?_
  · exact hinv.2
  · rintro labels world label world' ⟨hw,hsince⟩ hstep
    refine ⟨by rw [← List.append_assoc]; exact hw.step hstep,?_⟩
    rw [← List.append_assoc]
    have hquiet := @workerEvents_quiet (before++labels) label
    cases hstep with
    | work hworker hstep =>
      rw [workerEvents_work]
      exact hsince.work hw hworker hstep
    | cancelReturns _ =>
      rw [hquiet rfl]
      exact hsince.outside rfl (by simp [hsince.flag])
    | _ =>
      rw [hquiet rfl]
      exact hsince.outside rfl hsince.flag

/-- When a call of `CancelLoad` returns true, the record is cancelled and the flag is set. -/
theorem LoadHistory.cancelled
    (h : LoadHistory request id options directory fuel (labels++[.cancelReturns]) world) :
    world.record.terminal = true ∧ world.record.code = .kCancelled ∧ world.flag = true ∧
      world.cancelling = false := by
  obtain ⟨first,hfirst,hstep⟩ := Steps.last h
  cases hstep with
  | cancelReturns hlock =>
    have hinv := LoadHistory.inv hfirst
    obtain ⟨hworker,hterm,hcode⟩ := hinv.cancelling hlock
    exact ⟨hterm,hcode,by simp [hinv.registered hworker],rfl⟩

/-- Terminal records keep their code; a cancelled load publishes at most one more shard
and is not cancelled again. -/
theorem terminal_records_are_sticky (request : LoadRequest) (id : LoadId)
    (options : ForwardIndexOptions) (directory : ShardDirectory PublishedShard) (fuel : ℕ)
    (before after : List LoadLabel) (mid world : LoadWorld)
    (h : LoadHistory request id options directory fuel before mid)
    (hafter : Steps LoadStep mid after world) :
    (mid.record.terminal = true →
      world.record.terminal = true ∧ world.record.code = mid.record.code) ∧
    (before.getLast? = some .cancelReturns →
      world.record.terminal = true ∧ world.record.code = .kCancelled ∧
      (publishCalls (workerEvents after)).length ≤ 1 ∧ LoadLabel.cancelReturns ∉ after) := by
  refine ⟨h.sticky hafter,?_⟩
  intro hlast
  obtain ⟨labels,rfl⟩ := List.getLast?_eq_some_iff.mp hlast
  obtain ⟨hterm,hcode,hflag,hlock⟩ := h.cancelled
  obtain ⟨hterm',hcode'⟩ := h.sticky hafter hterm
  exact ⟨hterm',hcode'.trans hcode,(h.sinceFlag hafter hflag).calls,
    not_cancelReturns_of_terminal h hafter hterm hlock⟩

def sampleLoadStart : LoadWorld := startLoad sampleRequest 1 sampleIndex (.create 1) 1

/-- The sample load is cancelled before its worker has done anything. -/
theorem terminal_records_sample :
    ∃ mid after world, LoadHistory sampleRequest 1 sampleIndex (.create 1) 1
        [.cancelMarks,.cancelReturns] mid ∧ Steps LoadStep mid after world ∧
      (∃ outcome, world.worker = some (.done outcome)) ∧ world.record.code = .kCancelled ∧
        (publishCalls (workerEvents after)).length ≤ 1 := by
  let marked : LoadWorld := { sampleLoadStart with
    record := cancelRecord sampleLoadStart.record,cancelling := true }
  let mid : LoadWorld := { marked with flag := true,cancelling := false }
  have hmarks : LoadStep sampleLoadStart .cancelMarks marked := .cancelMarks rfl rfl
  have hreturns : LoadStep marked .cancelReturns mid := .cancelReturns rfl
  have hbefore : LoadHistory sampleRequest 1 sampleIndex (.create 1) 1
      [.cancelMarks,.cancelReturns] mid := Steps.head hmarks (Steps.head hreturns Steps.nil)
  obtain ⟨world,hafter,hworker,-⟩ := worker_steps sampleAnswer
    (runExternalArtifactLoad sampleRequest 1 sampleIndex true 1) mid rfl
  obtain ⟨-,hcode,hcalls,-⟩ := (terminal_records_are_sticky sampleRequest 1 sampleIndex (.create 1) 1
    _ _ mid world hbefore hafter).2 rfl
  exact ⟨mid,_,world,hbefore,hafter,⟨_,hworker⟩,hcode,hcalls⟩

theorem publishedShards_succeeded {state : LoadState}
    (h : LoadHistory request id options directory fuel labels world)
    (hs : state ∈ storedStates (workerEvents labels)) (hc : state.code = .kSucceeded) :
    (publishedShards (workerEvents labels)).length = options.shardCount.toNat := by
  obtain ⟨before,after,hevents⟩ := mem_storedStates hs
  have hrun := h.loadRun
  have hmay : (view options before).MayStore options state := (hrun.allowed hevents).2
  obtain ⟨k,hk,hids,hpre⟩ := hrun.publishCalls_ids
  have hle : (publishedShards (workerEvents labels)).length ≤ options.shardCount.toNat := by
    have h1 := hpre.length_le
    have h2 := congrArg List.length hids
    rw [List.length_map,shardIds,List.length_map,List.length_range] at h2
    omega
  have hge : (publishedShards before).length ≤ (publishedShards (workerEvents labels)).length := by
    rw [hevents,publishedShards_append,List.length_append]
    exact Nat.le_add_right _ _
  have := hmay.succeeded hc
  exact le_antisymm hle (this.symm.le.trans hge)

/-- A load publishes after it has loaded and prewarmed everything, shard by shard, and its
record tells the truth about it. -/
theorem load_is_twoPhase_and_truthful (request : LoadRequest) (id : LoadId)
    (options : ForwardIndexOptions) (directory : ShardDirectory PublishedShard) (fuel : ℕ)
    (labels : List LoadLabel) (world : LoadWorld)
    (h : LoadHistory request id options directory fuel labels world) :
    (∀ state ∈ world.record::storedStates (workerEvents labels), Truthful state ∧
      (state.code = .kSucceeded → (publishedShards (workerEvents labels)).map (·.shardId) =
        shardIds options.shardCount.toNat)) ∧
    (∀ before shardId shard answer after,
      workerEvents labels = before++⟨.publishShard shardId shard,answer⟩::after →
        (loadedBackings options before).map (·.shardId) = shardIds options.shardCount.toNat ∧
        prewarmedShards before = shardIds options.shardCount.toNat) ∧
    (publishCalls (workerEvents labels)).map (·.shardId) <+: shardIds options.shardCount.toNat ∧
    (world.worker = none → world.record.cutoverShardCount.toNat =
      (publishedShards (workerEvents labels)).length) ∧
    (publishedShards (workerEvents labels) = [] → world.directory = directory) := by
  have hinv := h.inv
  have hrun := h.loadRun
  obtain ⟨k,hk,hids,hpre⟩ := hrun.publishCalls_ids
  have hall : (publishedShards (workerEvents labels)).length = options.shardCount.toNat →
      (publishedShards (workerEvents labels)).map (·.shardId) =
        shardIds options.shardCount.toNat := by
    intro hlen
    have hmap := hpre.map (·.shardId)
    rw [hids] at hmap
    have hk' : k = options.shardCount.toNat := by
      have := hmap.length_le
      rw [List.length_map,shardIds,List.length_map,List.length_range] at this
      omega
    rw [hk'] at hmap
    exact hmap.eq_of_length (by rw [List.length_map,hlen,shardIds,List.length_map,List.length_range])
  refine ⟨?_,?_,?_,?_,?_⟩
  · intro state hs
    rcases List.mem_cons.mp hs with rfl | hs
    · exact ⟨hinv.record.truthful,fun hc => hall (hinv.record.succeeded hc)⟩
    · obtain ⟨before,after,hevents⟩ := mem_storedStates hs
      exact ⟨(hrun.allowed hevents).2.truthful,fun hc => hall (publishedShards_succeeded h hs hc)⟩
  · intro before shardId shard answer after hevents
    have hmay := hrun.mayPublish hevents
    exact ⟨hmay.loaded,hmay.prewarmed⟩
  · rw [hids,← shardIds_take hk]
    exact List.take_prefix _ _
  · intro hnone
    obtain ⟨status,state,hended⟩ := hinv.ended hnone
    rw [hinv.record.cutover,hended.stored]
    exact hended.cutover
  · intro hnil
    rw [hinv.directory,hnil]
    rfl

end History

def sampleLabels : List LoadLabel :=
  ((runExternalArtifactLoad sampleRequest 1 sampleIndex true 1).trace (respond sampleAnswer)
    sampleLoadStart).map .work

theorem sampleLabels_published :
    (publishedShards (workerEvents sampleLabels)).length = 1 ∧
      ((runExternalArtifactLoad sampleRequest 1 sampleIndex true 1).run (respond sampleAnswer)
        sampleLoadStart).1.isSome = true := by
  unfold sampleLabels sampleAnswer
  rw [sampleFile_eq]
  decide +kernel

theorem load_is_twoPhase_sample :
    ∃ world, LoadHistory sampleRequest 1 sampleIndex (.create 1) 1 (sampleLabels++[.finish]) world ∧
      world.worker = none ∧ world.record.cutoverShardCount.toNat = 1 := by
  obtain ⟨hpublished,hsome⟩ := sampleLabels_published
  obtain ⟨world,hsteps,hworker,hlock⟩ := worker_steps sampleAnswer
    (runExternalArtifactLoad sampleRequest 1 sampleIndex true 1) sampleLoadStart rfl
  obtain ⟨result,hresult⟩ := Option.isSome_iff_exists.mp hsome
  rw [hresult] at hworker
  have hrun : LoadHistory sampleRequest 1 sampleIndex (.create 1) 1 (sampleLabels++[.finish])
      { world with worker := none,registered := false } :=
    Steps.snoc hsteps (LoadStep.finish hworker hlock)
  obtain ⟨-,-,-,hcutover,-⟩ := load_is_twoPhase_and_truthful sampleRequest 1 sampleIndex (.create 1)
    1 _ _ hrun
  have hevents : workerEvents (sampleLabels++[.finish]) = workerEvents sampleLabels :=
    workerEvents_quiet rfl
  refine ⟨_,hrun,rfl,?_⟩
  rw [hcutover rfl,hevents,hpublished]

end Rebuild
end KvIndex
