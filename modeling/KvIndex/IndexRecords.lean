import KvIndex.LoadsApart
import KvIndex.ProgramRuns

/-! The records of an index (`api/forward_index.cc`). A record names the load that it was made
for, tells the truth about it at every moment, and once terminal says the same for ever. -/
namespace KvIndex
namespace Rebuild

open Base Ingest Artifact LoadView ForwardIndex

/-- The state is one of this load. -/
structure Names (request : LoadRequest) (id : LoadId) (state : LoadState) : Prop where
  id : state.id = id
  artifactUri : state.artifactUri = request.artifactUri
  known : state.code ≠ .kUnknown

/-- A load stores states of its own only. -/
def StoresNamed (request : LoadRequest) (id : LoadId) : LoadOp → Prop
  | .storeState state => Names request id state
  | _ => True

/-- The part stores states of this load only, and what it gives is as stated. -/
def Naming {α : Type} (request : LoadRequest) (id : LoadId) (post : α → Prop) (part : LoadPart α) :
    Prop :=
  ∀ history, Prog.SafeOr (Prog.onlyRules LoadRes (StoresNamed request id)) (fun _ _ => True)
    (fun _ a => post a) history part

section Naming

variable {α β : Type} {request : LoadRequest} {id : LoadId} {options : ForwardIndexOptions}
  {state : LoadState} {post : α → Prop}

theorem Naming.bind {post' : β → Prop} {part : LoadPart α} {rest : α → LoadPart β}
    (h : Naming request id post part) (hrest : ∀ a, post a → Naming request id post' (rest a)) :
    Naming request id post' (part >>= rest) :=
  fun history => Prog.SafeOr.bind (Prog.SafeOr.mono (fun history a ha => hrest a ha history) (h history))

theorem naming_pure {a : α} (h : post a) : Naming request id post (pure a) :=
  fun _ => Prog.SafeOr.pure h

theorem naming_perform {op : LoadOp} (h : StoresNamed request id op) :
    Naming request id (fun _ => True) (perform op) :=
  fun _ => Prog.SafeOr.call h fun _ _ => trivial

theorem Names.cancelled (h : Names request id state) : Names request id (markCancelled state) :=
  ⟨h.id,h.artifactUri,nofun⟩

theorem Names.failed (h : Names request id state) (status : Status) :
    Names request id (markFailed state status) := ⟨h.id,h.artifactUri,nofun⟩

theorem Names.loaded (h : Names request id state) (shardId : ℕ) (backing : MmapSnapshotBacking) :
    Names request id (noteLoaded state shardId backing) := by
  unfold noteLoaded setShard
  split_ifs
  all_goals exact ⟨h.id,h.artifactUri,h.known⟩

theorem naming_storeAndReturn {status : StatusOr Unit} (h : Names request id state) :
    Naming request id post (storeAndReturn status state) :=
  Naming.bind (naming_perform h) fun _ _ _ => Prog.SafeOr.throw trivial

theorem naming_orFail {result : StatusOr α} (h : Names request id state) :
    Naming request id (fun _ => True) (orFail state result) := by
  cases result with
  | error status => exact naming_storeAndReturn (h.failed status)
  | ok a => exact naming_pure trivial

theorem naming_checkCancelled (h : Names request id state) :
    Naming request id (fun _ => True) (checkCancelled state) := by
  refine Naming.bind (naming_perform trivial) fun answer _ => ?_
  cases answer with
  | false => exact naming_pure trivial
  | true => exact naming_storeAndReturn h.cancelled

theorem naming_loadShards {shardIds : List ℕ} {backings : List MmapSnapshotBacking}
    (h : Names request id state) :
    Naming request id (fun loaded => Names request id loaded.1)
      (loadShards request options shardIds state backings) := by
  induction shardIds generalizing state backings with
  | nil => exact naming_pure h
  | cons shardId shardIds ih =>
    refine Naming.bind (naming_checkCancelled h) fun _ _ => ?_
    refine Naming.bind (naming_perform trivial) fun mapped _ => ?_
    refine Naming.bind (naming_orFail h) fun bytes _ => ?_
    refine Naming.bind (naming_orFail h) fun backing _ => ?_
    have hnext := h.loaded shardId backing
    exact Naming.bind (naming_perform hnext) fun _ _ => ih hnext

theorem naming_prewarmShards {shardIds : List ℕ} (h : Names request id state) :
    Naming request id (Names request id) (prewarmShards shardIds state) := by
  induction shardIds generalizing state with
  | nil => exact naming_pure h
  | cons shardId shardIds ih =>
    refine Naming.bind (naming_checkCancelled h) fun _ _ => ?_
    refine Naming.bind (naming_perform trivial) fun status _ => ?_
    refine Naming.bind (naming_orFail h) fun _ _ => ?_
    have hnext : Names request id (notePrewarmed state shardId) := ⟨h.id,h.artifactUri,h.known⟩
    exact Naming.bind (naming_perform hnext) fun _ _ => ih hnext

theorem naming_cutoverShards {shardId : ℕ} {shards : List PublishedShard}
    (h : Names request id state) :
    Naming request id (Names request id) (cutoverShards shardId shards state) := by
  induction shards generalizing shardId state with
  | nil => exact naming_pure h
  | cons shard shards ih =>
    refine Naming.bind (naming_checkCancelled h) fun _ _ => ?_
    refine Naming.bind (naming_perform trivial) fun status _ => ?_
    refine Naming.bind (naming_orFail h) fun _ _ => ?_
    have hnext : Names request id (noteCutover state shardId) := ⟨h.id,h.artifactUri,h.known⟩
    exact Naming.bind (naming_perform hnext) fun _ _ => ih hnext

theorem naming_observe {target : KafkaProgress} (h : Names request id state) :
    Naming request id (Names request id) (observe target state) := by
  refine Naming.bind (naming_perform trivial) fun captured _ => ?_
  refine Naming.bind (naming_orFail h) fun observed _ => ?_
  refine Naming.bind (naming_orFail h) fun sourceProgress _ => ?_
  have hnext : Names request id { state with sourceProgress } := ⟨h.id,h.artifactUri,h.known⟩
  exact Naming.bind (naming_perform hnext) fun _ _ => naming_pure hnext

theorem naming_catchUp {fuel : ℕ} (h : Names request id state) :
    Naming request id (Names request id) (catchUp fuel state) := by
  induction fuel generalizing state with
  | zero =>
    rw [catchUp]
    split
    · exact fun _ => Prog.SafeOr.throw trivial
    · exact naming_pure h
  | succ fuel ih =>
    rw [catchUp]
    split
    · refine Naming.bind (naming_checkCancelled h) fun _ _ => ?_
      refine Naming.bind (naming_perform trivial) fun polled _ => ?_
      cases polled with
      | ok _ => exact Naming.bind (naming_observe h) fun state hnext => ih hnext
      | error status =>
        show Naming request id _ (failPoll state status)
        unfold failPoll
        split
        · exact naming_storeAndReturn h.cancelled
        · refine Naming.bind (naming_perform trivial) fun answer _ => ?_
          cases answer with
          | false => exact naming_storeAndReturn (h.failed status)
          | true => exact naming_storeAndReturn h.cancelled
    · exact naming_pure h

theorem naming_catchUpPart {fuel : ℕ} {backings : List MmapSnapshotBacking}
    (h : Names request id state) :
    Naming request id (Names request id) (catchUpPart id options fuel backings state) := by
  unfold catchUpPart
  split
  · cases backings with
    | nil => exact naming_pure h
    | cons backing backings =>
      have hmessage : Names request id { state with message := "artifact catch-up running" } :=
        ⟨h.id,h.artifactUri,h.known⟩
      refine Naming.bind (naming_orFail h) fun _ _ => ?_
      refine Naming.bind (naming_perform trivial) fun runner _ => ?_
      refine Naming.bind (naming_orFail h) fun _ _ => ?_
      refine Naming.bind (naming_perform hmessage) fun _ _ => ?_
      refine Naming.bind (naming_perform trivial) fun started _ => ?_
      refine Naming.bind (naming_orFail hmessage) fun _ _ => ?_
      refine Naming.bind (naming_checkCancelled hmessage) fun _ _ => ?_
      refine Naming.bind (naming_observe hmessage) fun state hobserved => ?_
      refine Naming.bind (naming_catchUp hobserved) fun state hcaught => ?_
      exact Naming.bind (naming_checkCancelled hcaught) fun _ _ => naming_pure hcaught
  · exact naming_pure ⟨h.id,h.artifactUri,h.known⟩

theorem naming_loadArtifact (request : LoadRequest) (id : LoadId) (options : ForwardIndexOptions)
    (hasPublish : Bool) (fuel : ℕ) :
    Naming request id (fun _ => True) (loadArtifact request id options hasPublish fuel) := by
  have hinitial : Names request id (initialState request id) := ⟨rfl,rfl,nofun⟩
  refine Naming.bind (naming_perform hinitial) fun _ _ => ?_
  refine Naming.bind (naming_orFail hinitial) fun _ _ => ?_
  refine Naming.bind (naming_orFail hinitial) fun _ _ => ?_
  refine Naming.bind (naming_checkCancelled hinitial) fun _ _ => ?_
  have hshards : Names request id (initShards (initialState request id) options.shardCount) :=
    ⟨rfl,rfl,nofun⟩
  refine Naming.bind (naming_loadShards hshards) fun loaded hloaded => ?_
  refine Naming.bind (naming_prewarmShards hloaded) fun state hprewarmed => ?_
  refine Naming.bind (naming_catchUpPart hprewarmed) fun state hcaught => ?_
  refine Naming.bind (naming_cutoverShards hcaught) fun state hcutover => ?_
  exact naming_storeAndReturn ⟨hcutover.id,hcutover.artifactUri,nofun⟩

theorem LoadRun.names {hasPublish : Bool} {fuel : ℕ} {events : List LoadEvent}
    {out : Option LoadOutcome} (h : LoadRun request id options hasPublish fuel events out) :
    ∀ event ∈ events, StoresNamed request id event.1 := by
  have hnaming := naming_loadArtifact request id options hasPublish fuel
  have hsafe : Prog.Safe (Prog.onlyRules LoadRes (StoresNamed request id)) (fun _ _ => True) []
      (runExternalArtifactLoad request id options hasPublish fuel) := by
    refine Prog.Safe.bind (Prog.Safe.mono ?_ (hnaming []))
    intro history result _
    cases result with
    | error outcome => trivial
    | ok outcome => trivial
  intro event hevent
  obtain ⟨before,after,rfl⟩ := List.append_of_mem hevent
  exact (hsafe.emits h (fun _ _ _ _ => trivial)).1 before event after rfl

end Naming
/-- What holds of a load of this request and id whose index may be destroyed. -/
structure Own (request : LoadRequest) (id : LoadId) (options : ForwardIndexOptions)
    (directory : ShardDirectory PublishedShard) (fuel : ℕ) (labels : List LoadLabel) (world : LoadWorld) : Prop where
  inv : WorldInv id options directory labels world
  run : LoadRun request id options true fuel (workerEvents labels) none
  leaves : ∀ p, world.worker = some p → Prog.Leaves
    (runExternalArtifactLoad request id options true fuel) (workerEvents labels) p
  names : Names request id world.record

section Own

variable {request : LoadRequest} {id : LoadId} {options : ForwardIndexOptions}
  {directory : ShardDirectory PublishedShard} {fuel : ℕ} {labels : List LoadLabel} {world world' : LoadWorld}

theorem own_start : Own request id options directory fuel []
    (startLoad request id options directory fuel) := by
  refine ⟨worldInv_start,Prog.Emits.running _,?_,rfl,rfl,nofun⟩
  intro p hp
  obtain rfl := Option.some.inj hp
  exact Prog.Leaves.nil _

theorem Names.store {record state : LoadState} (h : Names request id state) :
    Names request id (storeRecord record state) := by
  rcases storeRecord_cases record state with ⟨-,-,heq⟩ | ⟨heq,-⟩
  · rw [heq]
    exact ⟨h.id,h.artifactUri,nofun⟩
  · rw [heq]
    exact h

theorem Own.step (h : Own request id options directory fuel labels world) {label : LoadLabel}
    (hstep : LoadStep world label world') :
    Own request id options directory fuel (labels++[label]) world' := by
  have hinv := h.inv.step hstep
  have hquiet := @workerEvents_quiet labels label
  cases hstep with
  | @work world' op next answer hworker hstep =>
    have hleaves := (h.leaves _ hworker).snoc answer
    have hrun : LoadRun request id options true fuel (workerEvents labels++[⟨op,answer⟩]) none :=
      hleaves.emits
    rw [← workerEvents_work] at hleaves hrun
    refine ⟨hinv,hrun,?_,?_⟩
    · intro p hp
      obtain rfl := Option.some.inj hp
      exact hleaves
    · have hnames : StoresNamed request id op := by
        refine hrun.names ⟨op,answer⟩ ?_
        rw [workerEvents_work]
        exact List.mem_append_right _ List.mem_cons_self
      show Names request id world'.record
      cases op with
      | storeState state =>
        obtain ⟨-,rfl⟩ := hstep
        exact Names.store hnames
      | publishShard shardId shard =>
        obtain ⟨-,rfl⟩ := hstep
        exact h.names
      | _ =>
        obtain rfl := hstep.quiet rfl rfl
        exact h.names
  | finish hworker hlock => exact ⟨hinv,by rw [hquiet rfl]; exact h.run,nofun,h.names⟩
  | cancelMarks hlock hterminal =>
    exact ⟨hinv,by rw [hquiet rfl]; exact h.run,by rw [hquiet rfl]; exact h.leaves,h.names.id,
      h.names.artifactUri,nofun⟩
  | _ =>
    exact ⟨hinv,by rw [hquiet rfl]; exact h.run,by rw [hquiet rfl]; exact h.leaves,h.names⟩

theorem Own.stoppable (h : Own request id options directory fuel labels world)
    {label : Option LoadLabel} (hstep : StoppableStep world label world') :
    Own request id options directory fuel (labels++[label].reduceOption) world' := by
  cases hstep with
  | load hload => exact h.step hload
  | stop =>
    rw [List.reduceOption_cons_of_none,List.reduceOption_nil,List.append_nil]
    exact ⟨⟨h.inv.record,h.inv.worker,h.inv.ended,h.inv.registered,h.inv.cancelling,
      h.inv.directory⟩,h.run,h.leaves,h.names⟩

theorem stoppable_own {labels : List (Option LoadLabel)}
    (h : Steps StoppableStep (startLoad request id options directory fuel) labels world) :
    Own request id options directory fuel labels.reduceOption world := by
  refine Steps.invariant (fun labels world =>
    Own request id options directory fuel (List.reduceOption labels) world) h own_start ?_
  intro labels world label world' hown hstep
  rw [List.reduceOption_append]
  exact hown.stoppable hstep

/-- A terminal record keeps its code, and all it says unless it was cancelled. -/
theorem Own.terminal (h : Own request id options directory fuel labels world)
    {label : Option LoadLabel} (hstep : StoppableStep world label world')
    (hterminal : world.record.terminal = true) :
    world'.record.terminal = true ∧ world'.record.code = world.record.code ∧
      (world.record.code ≠ .kCancelled → world'.record = world.record) := by
  cases hstep with
  | stop => exact ⟨hterminal,rfl,fun _ => rfl⟩
  | load hload =>
    obtain ⟨hterminal',hcode⟩ := h.inv.sticky hload hterminal
    refine ⟨hterminal',hcode,fun hnot => ?_⟩
    cases hload with
    | @work world' op next answer hworker hstep =>
      -- a thread that still stores has a record that is running or cancelled
      have hfin := (h.inv.worker _ hworker).1.1
      cases op with
      | storeState state =>
        rcases h.inv.record.running hfin with hrunning | hcancelled
        · rw [hterminal] at hrunning
          cases hrunning
        · exact absurd hcancelled hnot
      | publishShard shardId shard =>
        obtain ⟨-,rfl⟩ := hstep
        rfl
      | _ =>
        obtain rfl := hstep.quiet rfl rfl
        rfl
    | cancelMarks hlock hrunning =>
      rw [hterminal] at hrunning
      cases hrunning
    | _ => rfl

theorem Own.succeeded (h : Own request id options directory fuel labels world)
    (hcode : world.record.code = .kSucceeded) {shardId : UInt32}
    (hid : shardId.toNat < options.shardCount.toNat) :
    ∃ shard, ⟨.publishShard shardId shard,.ok ()⟩ ∈ workerEvents labels ∧
      shard.generation = id := by
  have hall := h.inv.record.succeeded hcode
  have hlength : (ShardDirectory.create options.shardCount : ShardDirectory PublishedShard).shards.length =
      options.shardCount.toNat := List.length_replicate
  obtain ⟨shard,hshard,hcall,-⟩ := h.run.directory_all hall hlength hid
  have hgeneration := (h.run.publishCalls_getElem hcall).2.1
  have hsame : shard.shardId = shardId := by
    obtain ⟨k,-,hids,-⟩ := h.run.publishCalls_ids
    have hget := congrArg (·[shardId.toNat]?) hids
    simp only [List.getElem?_map,hcall,Option.map_some,shardIds] at hget
    obtain ⟨i,hi,heq⟩ := Option.map_eq_some_iff.mp hget.symm
    obtain ⟨hlt,hrange⟩ := List.getElem?_eq_some_iff.mp hi
    rw [List.getElem_range] at hrange
    rw [← heq,← hrange,UInt32.ofNat_toNat]
  obtain ⟨⟨op,answer⟩,hevent,heq⟩ := List.mem_filterMap.mp (List.mem_of_getElem? hshard)
  cases op with
  | publishShard published other =>
    cases answer with
    | error status => cases heq
    | ok _ =>
      obtain rfl := Option.some.inj heq
      obtain ⟨before,after,hevents⟩ := List.append_of_mem hevent
      have hpublished := mayPublish_shardId (h.run.mayPublish hevents)
      rw [hsame] at hpublished
      subst hpublished
      exact ⟨_,hevent,hgeneration⟩
  | _ => cases heq

end Own
/-- What a later record of a load keeps of an earlier one. -/
structure Final (earlier later : LoadState) : Prop where
  artifactUri : later.artifactUri = earlier.artifactUri
  terminal : earlier.terminal = true → later.terminal = true ∧ later.code = earlier.code ∧
    (earlier.code ≠ .kCancelled → later = earlier)

theorem Final.refl (record : LoadState) : Final record record :=
  ⟨rfl,fun h => ⟨h,rfl,fun _ => rfl⟩⟩

theorem Final.trans {first second third : LoadState} (h : Final first second)
    (h' : Final second third) : Final first third := by
  refine ⟨h'.artifactUri.trans h.artifactUri,fun hterminal => ?_⟩
  obtain ⟨hsecond,hcode,hsame⟩ := h.terminal hterminal
  obtain ⟨hthird,hcode',hsame'⟩ := h'.terminal hsecond
  refine ⟨hthird,hcode'.trans hcode,fun hnot => ?_⟩
  exact (hsame' (hcode ▸ hnot)).trans (hsame hnot)

/-- What a record says is so: its counts, and that a load that succeeded has published every
shard as its own generation. -/
structure SoundRecord (options : ForwardIndexOptions) (history : List ForwardIndexLabel) (id : LoadId)
    (record : LoadState) : Prop where
  ofLoad : record.id = id
  known : record.code ≠ .kUnknown
  truthful : Truthful record
  terminal : record.terminal = true ↔ record.code ≠ .kRunning
  succeeded : record.code = .kSucceeded → ∀ shardId : UInt32,
    shardId.toNat < options.shardCount.toNat → ∃ thread shard,
      .work thread ⟨.publishShard shardId shard,.ok ()⟩ ∈ history ∧ shard.generation = id

/-- The record of a load that the preflight refused, which no thread has. -/
structure Refused (index : ForwardIndexState) (id : LoadId) (record : LoadState) : Prop where
  stored : index.loads id = some record
  refused : ∃ request status, record = refusedRecord request id status
  threads : ∀ entry ∈ roster index, entry.1 ≠ id

/-- The record of a load that runs or has run, with the load alone. -/
structure Accepted (options : ForwardIndexOptions) (history : List ForwardIndexLabel)
    (index : ForwardIndexState) (request : LoadRequest) (id : LoadId) (fuel i : ℕ)
    (labels : List (Option LoadLabel)) (world : LoadWorld) : Prop where
  steps : Steps StoppableStep (startLoad request id options (.create options.shardCount) fuel)
    labels world
  apart : Apart i id index world
  events : ∀ event ∈ workerEvents labels.reduceOption, ForwardIndexLabel.work i event ∈ history

/-- The record under an id, with where it comes from. -/
inductive RecordOf (options : ForwardIndexOptions) (history : List ForwardIndexLabel)
    (index : ForwardIndexState) (id : LoadId) : LoadState → Prop
  | refused {record : LoadState} (h : Refused index id record) :
      RecordOf options history index id record
  | accepted {request : LoadRequest} {fuel i : ℕ} {labels : List (Option LoadLabel)}
      {world : LoadWorld} (h : Accepted options history index request id fuel i labels world) :
      RecordOf options history index id world.record

section Records

variable {options : ForwardIndexOptions} {history : List ForwardIndexLabel}
  {index index' : ForwardIndexState} {id : LoadId} {record : LoadState} {label : ForwardIndexLabel}

theorem RecordOf.stored (h : RecordOf options history index id record) :
    index.loads id = some record := by
  cases h with
  | refused h => exact h.stored
  | accepted h => exact h.apart.record

theorem RecordOf.sound (h : RecordOf options history index id record) :
    SoundRecord options history id record := by
  cases h with
  | refused h =>
    obtain ⟨request,status,rfl⟩ := h.refused
    refine ⟨rfl,nofun,⟨UInt32.le_refl _,UInt32.le_refl _,UInt32.le_refl _,rfl,rfl,rfl⟩,
      ⟨fun _ => nofun,fun _ => rfl⟩,nofun⟩
  | accepted h =>
    have hown := stoppable_own h.steps
    refine ⟨hown.names.id,hown.names.known,hown.inv.record.truthful,hown.inv.record.terminal,?_⟩
    intro hcode shardId hid
    obtain ⟨shard,hevent,hgeneration⟩ := hown.succeeded hcode hid
    exact ⟨_,shard,h.events _ hevent,hgeneration⟩

/-- A load that was refused has nobody who would touch its record. -/
theorem Refused.step (h : Refused index id record) (hkept : IndexKept options index)
    (hstep : FreshStep options index label index') : Refused index' id record := by
  have hnext : id ≠ index.nextLoadId := by
    rintro rfl
    have hnone := hkept.loads_next
    rw [h.stored] at hnone
    cases hnone
  have hemplace : ∀ other, emplace index.loads index.nextLoadId other id = index.loads id := by
    intro other
    rw [emplace_of_none hkept.loads_next,Function.update_of_ne hnext]
  obtain ⟨-,hstep⟩ := hstep
  cases hstep with
  | loadAsync files request fuel hphase =>
    rcases loadAsync_cases index options files request fuel with ⟨status,-,heq⟩ | ⟨-,heq⟩
    · rw [heq]
      exact ⟨(hemplace _).trans h.stored,h.refused,h.threads⟩
    · rw [heq]
      refine ⟨(hemplace _).trans h.stored,h.refused,fun entry hentry => ?_⟩
      rw [roster,List.map_append] at hentry
      rcases List.mem_append.mp hentry with hentry | hentry
      · exact h.threads entry hentry
      · obtain rfl := List.mem_singleton.mp hentry
        exact hnext.symm
  | @work index' i thread op next answer hthread hprogram hstep =>
    have hkeeps := hstep.keeps
    have hne : id ≠ thread.id := (h.threads _ (mem_roster hthread)).symm
    refine ⟨(hkeeps.others id hne).trans h.stored,h.refused,?_⟩
    show ∀ entry ∈ (index'.loadWorkers.set i _).map _, _
    rw [hkeeps.loadWorkers,roster_set hthread hprogram]
    exact h.threads
  | @finish i thread result hthread hprogram hlock =>
    refine ⟨h.stored,h.refused,fun entry hentry => ?_⟩
    rw [roster_finishThread hthread] at hentry
    rcases List.mem_or_eq_of_mem_set hentry with hentry | rfl
    · exact h.threads entry hentry
    · show thread.id ≠ id
      exact h.threads _ (mem_roster hthread)
  | cancelMarks hphase hmark =>
    rename_i other
    obtain ⟨marked,hmarked,hrunning,rfl⟩ := markCancelled_some hmark
    have hne : id ≠ other := by
      rintro rfl
      obtain rfl := Option.some.inj (h.stored.symm.trans hmarked)
      obtain ⟨request,status,rfl⟩ := h.refused
      cases hrunning
    exact ⟨(Function.update_of_ne hne _ _).trans h.stored,h.refused,h.threads⟩
  | cancelReturns hphase =>
    rename_i other
    obtain ⟨-,-,hloads,-,hroster,-⟩ := finishCancel_frame index other
    exact ⟨by rw [hloads]; exact h.stored,h.refused,by rw [hroster]; exact h.threads⟩
  | stopFlag hphase =>
    refine ⟨h.stored,h.refused,?_⟩
    intro entry hentry
    exact h.threads entry (roster_setFlag _ ▸ hentry)
  | cancelRefused hphase hmark => exact h
  | getLoadState other hphase => exact h
  | destroy threads hphase hthreads => exact ⟨h.stored,h.refused,h.threads⟩
  | unlock hphase => exact ⟨h.stored,h.refused,h.threads⟩
  | destroyed hphase hended => exact ⟨h.stored,h.refused,h.threads⟩

/-- A label that the load sees as an operation is an operation of its thread. -/
theorem seenBy_work {i : ℕ} {event : LoadEvent} (h : seenBy i id label = some (some (.work event))) :
    label = .work i event := by
  cases label with
  | work thread other =>
    simp only [seenBy] at h
    split at h
    · simp_all
    · cases h
  | loadAsync files request fuel => cases h
  | destroy => cases h
  | unlock => cases h
  | destroyed => cases h
  | _ =>
    simp only [seenBy] at h
    split at h
    · cases h
    · cases h

theorem Accepted.step {request : LoadRequest} {fuel i : ℕ} {labels : List (Option LoadLabel)}
    {world : LoadWorld} (h : Accepted options history index request id fuel i labels world)
    (hkept : IndexKept options index) (hstep : FreshStep options index label index') :
    ∃ labels' world', Accepted options (history++[label]) index' request id fuel i labels' world' ∧
      Final world.record world'.record := by
  have hold : ∀ event ∈ workerEvents labels.reduceOption,
      ForwardIndexLabel.work i event ∈ history++[label] :=
    fun event hevent => List.mem_append_left _ (h.events event hevent)
  have hfollows := h.apart.step hkept hstep
  have hseen := @seenBy_work id label i
  cases hlabel : seenBy i id label with
  | none =>
    rw [hlabel] at hfollows
    exact ⟨labels,world,⟨h.steps,hfollows,hold⟩,Final.refl _⟩
  | some seen =>
    rw [hlabel] at hfollows hseen
    obtain ⟨world',hother,hapart⟩ := hfollows
    have hown := stoppable_own h.steps
    have hown' := stoppable_own (h.steps.snoc hother)
    refine ⟨labels++[seen],world',⟨h.steps.snoc hother,hapart,?_⟩,?_,hown.terminal hother⟩
    · intro event hevent
      rw [List.reduceOption_append,workerEvents,List.filterMap_append,← workerEvents,
        ← workerEvents] at hevent
      rcases List.mem_append.mp hevent with hevent | hevent
      · exact hold event hevent
      · cases seen with
        | none => cases hevent
        | some load =>
          cases load with
          | work other =>
            obtain rfl := List.mem_singleton.mp hevent
            rw [hseen rfl]
            exact List.mem_append_right _ List.mem_cons_self
          | _ => cases hevent
    · exact hown'.names.artifactUri.trans hown.names.artifactUri.symm

theorem RecordOf.step (h : RecordOf options history index id record)
    (hkept : IndexKept options index) (hstep : FreshStep options index label index') :
    ∃ record', RecordOf options (history++[label]) index' id record' ∧ Final record record' := by
  cases h with
  | refused h => exact ⟨record,.refused (h.step hkept hstep),Final.refl _⟩
  | accepted h =>
    obtain ⟨labels',world',h',hfinal⟩ := h.step hkept hstep
    exact ⟨world'.record,.accepted h',hfinal⟩

/-- The record that a call of `LoadAsync` makes. -/
theorem recordOf_loadAsync (history : List ForwardIndexLabel) (hkept : IndexKept options index)
    (files : FileSystem) (request : LoadRequest) (fuel : ℕ) (hphase : index.phase = .serving) :
    ∃ record, RecordOf options history (index.loadAsync options files request fuel).2
        index.nextLoadId record ∧ record.artifactUri = request.artifactUri := by
  rcases loadAsync_cases index options files request fuel with ⟨status,-,heq⟩ | ⟨haccepted,-⟩
  · rw [heq]
    refine ⟨refusedRecord request index.nextLoadId status,.refused ⟨?_,⟨request,status,rfl⟩,?_⟩,rfl⟩
    · show emplace index.loads index.nextLoadId _ _ = _
      rw [emplace_of_none hkept.loads_next,Function.update_self]
    · intro entry hentry hsame
      have hlt := hkept.threads entry hentry
      rw [hsame] at hlt
      omega
  · exact ⟨_,.accepted ⟨Steps.nil,Apart.start hkept hphase fuel haccepted,nofun⟩,rfl⟩

/-- A record that was not there before is that of a call of `LoadAsync`. -/
theorem loads_new (hkept : IndexKept options index) (hstep : FreshStep options index label index')
    (hnone : index.loads id = none) (hsome : index'.loads id = some record) :
    id = index.nextLoadId ∧ index.phase = .serving ∧ ∃ files request fuel,
      index' = (index.loadAsync options files request fuel).2 := by
  have hold : (index'.loads id).isSome = (index.loads id).isSome → False := by
    intro hsame
    rw [hnone,hsome] at hsame
    cases hsame
  obtain ⟨-,hstep⟩ := hstep
  cases hstep with
  | loadAsync files request fuel hphase =>
    refine ⟨?_,hphase,files,request,fuel,rfl⟩
    by_contra hne
    have hemplace : ∀ other, emplace index.loads index.nextLoadId other id = index.loads id := by
      intro other
      rw [emplace_of_none hkept.loads_next,Function.update_of_ne hne]
    rcases loadAsync_cases index options files request fuel with ⟨status,-,heq⟩ | ⟨-,heq⟩
    · rw [heq] at hold
      exact hold (congrArg Option.isSome (hemplace _))
    · rw [heq] at hold
      exact hold (congrArg Option.isSome (hemplace _))
  | work hthread hprogram hstep => exact (hold (hstep.keeps.loads id)).elim
  | cancelMarks hphase hmark =>
    obtain ⟨marked,hmarked,-,rfl⟩ := markCancelled_some hmark
    exact (hold (isSome_update (by rw [hmarked]; rfl) id)).elim
  | cancelReturns hphase =>
    rename_i other
    obtain ⟨-,-,hloads,-,-,-⟩ := finishCancel_frame index other
    exact (hold (by rw [hloads])).elim
  | _ => exact (hold rfl).elim

theorem IndexHistory.recordOf {labels : List ForwardIndexLabel} (h : IndexHistory options labels index)
    (hrecord : index.loads id = some record) : RecordOf options labels index id record := by
  have hinv : IndexKept options index ∧ ∀ id record, index.loads id = some record →
      RecordOf options labels index id record := by
    obtain ⟨start,hstart,hsteps⟩ := h
    have hkept : IndexKept options start := IndexHistory.kept ⟨start,hstart,Steps.nil⟩
    refine Steps.invariant (fun labels index => IndexKept options index ∧ ∀ id record,
      index.loads id = some record → RecordOf options labels index id record) hsteps ⟨hkept,?_⟩ ?_
    · intro id record hsome
      rw [construct_eq hstart] at hsome
      cases hsome
    · rintro labels index label index' ⟨hkept,hall⟩ hstep
      refine ⟨hkept.step hstep,?_⟩
      intro id record hsome
      cases hold : index.loads id with
      | none =>
        obtain ⟨rfl,hphase,files,request,fuel,rfl⟩ := loads_new hkept hstep hold hsome
        obtain ⟨record',hrecord',-⟩ := recordOf_loadAsync (labels++[label]) hkept files request
          fuel hphase
        obtain rfl := Option.some.inj (hrecord'.stored.symm.trans hsome)
        exact hrecord'
      | some old =>
        obtain ⟨record',hrecord',-⟩ := (hall id old hold).step hkept hstep
        obtain rfl := Option.some.inj (hrecord'.stored.symm.trans hsome)
        exact hrecord'
  exact hinv.2 id record hrecord

/-- Later records are as sound, and keep what an earlier one settled. -/
theorem RecordOf.later {after : List ForwardIndexLabel} (h : RecordOf options history index id record)
    (hkept : IndexKept options index) (hafter : Steps (FreshStep options) index after index') :
    ∃ record', RecordOf options (history++after) index' id record' ∧ Final record record' := by
  have hinv : IndexKept options index' ∧ ∃ record',
      RecordOf options (history++after) index' id record' ∧ Final record record' := by
    refine Steps.invariant (fun after index' => IndexKept options index' ∧ ∃ record',
      RecordOf options (history++after) index' id record' ∧ Final record record') hafter
      ⟨hkept,record,by rw [List.append_nil]; exact h,Final.refl _⟩ ?_
    rintro labels index label index' ⟨hkept,record',hrecord,hfinal⟩ hstep
    obtain ⟨record'',hrecord',hfinal'⟩ := hrecord.step hkept hstep
    rw [List.append_assoc] at hrecord'
    exact ⟨hkept.step hstep,record'',hrecord',hfinal.trans hfinal'⟩
  exact hinv.2

theorem getLoadState_eq (h : index.loads id = some record) : index.getLoadState id = record := by
  rw [ForwardIndexState.getLoadState,h]

/-- Whatever happens on an index, an id that was given out has a sound record from then on, which
names the artifact of its call and is final once it is terminal; the other ids are unknown. -/
theorem load_records_are_final (options : ForwardIndexOptions)
    (before after : List ForwardIndexLabel) (mid index : ForwardIndexState) (id : LoadId)
    (h : IndexHistory options before mid) (hafter : Steps (FreshStep options) mid after index) :
    ((mid.getLoadState id).code = .kUnknown ↔
      ¬(0 < id.toNat ∧ id.toNat < mid.nextLoadId.toNat)) ∧
    (0 < id.toNat ∧ id.toNat < mid.nextLoadId.toNat →
      SoundRecord options (before++after) id (index.getLoadState id) ∧
        Final (mid.getLoadState id) (index.getLoadState id)) ∧
    ∀ files request fuel more, after = .loadAsync files request fuel::more →
      SoundRecord options (before++after) mid.nextLoadId (index.getLoadState mid.nextLoadId) ∧
        (index.getLoadState mid.nextLoadId).artifactUri = request.artifactUri := by
  have hkept := h.kept
  have hrecords : ∀ {record}, mid.loads id = some record →
      RecordOf options before mid id record := h.recordOf
  refine ⟨?_,?_,?_⟩
  · rw [← hkept.loads id]
    cases hstored : mid.loads id with
    | none =>
      have hunknown : (mid.getLoadState id).code = .kUnknown := by
        rw [ForwardIndexState.getLoadState,hstored]
      simp [hunknown]
    | some record =>
      rw [getLoadState_eq hstored]
      simp [(hrecords hstored).sound.known]
  · intro hissued
    obtain ⟨record,hstored⟩ := Option.isSome_iff_exists.mp ((hkept.loads id).mpr hissued)
    obtain ⟨record',hrecord',hfinal⟩ := (hrecords hstored).later hkept hafter
    rw [getLoadState_eq hstored,getLoadState_eq hrecord'.stored]
    exact ⟨hrecord'.sound,hfinal⟩
  · rintro files request fuel more rfl
    obtain ⟨started,hstart,hmore⟩ := hafter.of_cons
    have hstarted := hkept.step hstart
    obtain ⟨-,hcall⟩ := hstart
    cases hcall with
    | loadAsync _ _ _ hphase =>
      obtain ⟨record,hrecord,huri⟩ := recordOf_loadAsync
        (before++[.loadAsync files request fuel]) hkept files request fuel hphase
      obtain ⟨record',hrecord',hfinal⟩ := hrecord.later hstarted hmore
      rw [List.append_assoc,List.singleton_append] at hrecord'
      rw [getLoadState_eq hrecord'.stored]
      exact ⟨hrecord'.sound,hfinal.artifactUri.trans huri⟩

end Records
/-- The sample load starts and is cancelled. -/
theorem load_records_are_final_sample :
    ∃ after index, Steps (FreshStep sampleIndex) sampleConstructed after index ∧ after.length = 3 ∧
      SoundRecord sampleIndex after 1 (index.getLoadState 1) ∧
      (index.getLoadState 1).artifactUri = [117] := by
  have hcancelled := cancel_steps sampleIndex sampleStarted 1 (recordOf sampleRequest 1) rfl rfl rfl
  generalize ForwardIndexState.finishCancel _ 1 = index at hcancelled
  have hafter := Steps.head sampleStarted_step hcancelled
  obtain ⟨-,-,hstarted⟩ := load_records_are_final sampleIndex [] _ sampleConstructed index 1
    sampleConstructed_history hafter
  obtain ⟨hsound,huri⟩ := hstarted _ _ _ _ rfl
  exact ⟨_,index,hafter,rfl,hsound,huri⟩

end Rebuild
end KvIndex
