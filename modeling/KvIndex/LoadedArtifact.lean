import KvIndex.LoadWorld

/-! The artifact behind a load. Each shard file is mapped, parsed and accepted on its own,
while the realtime tables and the catch-up take everything from the file of the first shard. -/
namespace KvIndex
namespace Rebuild

open Base Ingest Artifact LoadView

/-- Two parsed files belong to one artifact. -/
structure SameArtifact (a b : ParsedArtifact) : Prop where
  artifactId : a.artifactId = b.artifactId
  schemaVersion : a.schemaVersion = b.schemaVersion
  layoutFingerprint : a.layoutFingerprint = b.layoutFingerprint
  layout : a.layout = b.layout
  sourceProgress : a.sourceProgress = b.sourceProgress

theorem loadShard_parses {bytes : Bytes} {shardId : UInt32} {options : MmapSnapshotLoadOptions}
    {backing : MmapSnapshotBacking}
    (h : MmapSnapshotBacking.loadShard bytes shardId options = .ok backing) :
    parseArtifactWith options.sectionSort.run bytes {
      expectedShardCount := options.expectedShardCount
      expectedHashSeed := options.expectedHashSeed
      expectedHashVersion := options.expectedHashVersion
      sourceProgressPolicy := options.sourceProgressPolicy } = .ok backing.artifact := by
  simp only [MmapSnapshotBacking.loadShard,bind_eq_ok,failIf_eq_ok,exists_const,pure_eq_ok,
    Except.ok.injEq] at h
  obtain ⟨-,artifact,hparse,-,_,-,_,-,_,-,-,_,-,_,-,rfl⟩ := h
  exact hparse

theorem sameArtifact_of_sameFile {bytes : Bytes} {shardId shardId' : UInt32}
    {options : MmapSnapshotLoadOptions} {backing backing' : MmapSnapshotBacking}
    (h : MmapSnapshotBacking.loadShard bytes shardId options = .ok backing)
    (h' : MmapSnapshotBacking.loadShard bytes shardId' options = .ok backing') :
    SameArtifact backing.artifact backing'.artifact := by
  have hsame : backing.artifact = backing'.artifact :=
    Except.ok.inj ((loadShard_parses h).symm.trans (loadShard_parses h'))
  rw [hsame]
  exact ⟨rfl,rfl,rfl,rfl,rfl⟩

section Run

variable {request : LoadRequest} {id : LoadId} {options : ForwardIndexOptions} {hasPublish : Bool}
  {fuel : ℕ} {events : List LoadEvent} {out : Option LoadOutcome}

theorem mem_loadedBackings {backing : MmapSnapshotBacking}
    (h : backing ∈ loadedBackings options events) :
    ∃ uri shardId bytes, ⟨.mapShardFile uri shardId,.ok bytes⟩ ∈ events ∧
      MmapSnapshotBacking.loadShard bytes shardId (loadOptions options) = .ok backing := by
  obtain ⟨⟨op,answer⟩,hmem,heq⟩ := List.mem_filterMap.mp h
  cases op with
  | mapShardFile uri shardId =>
    cases answer with
    | error status => simp at heq
    | ok bytes =>
      refine ⟨uri,shardId,bytes,hmem,?_⟩
      cases hload : MmapSnapshotBacking.loadShard bytes shardId (loadOptions options) with
      | error status => simp [hload,Except.toOption] at heq
      | ok loaded =>
        simp only [hload,Except.toOption,Option.some.injEq] at heq
        rw [heq]
  | _ => simp at heq

/-- The files accepted for the shards of the index belong to one artifact. -/
def FilesAgree (options : ForwardIndexOptions) (events : List LoadEvent) : Prop :=
  ∀ i < options.shardCount.toNat, ∀ j < options.shardCount.toNat,
    ∀ a ∈ (loadedBackings options events)[i]?, ∀ b ∈ (loadedBackings options events)[j]?,
      SameArtifact a.artifact b.artifact

/-- A load that maps one unchanged file for all of its shards has files that agree. -/
theorem FilesAgree.of_oneFile {bytes : Bytes}
    (h : ∀ uri shardId contents, ⟨.mapShardFile uri shardId,.ok contents⟩ ∈ events →
      contents = bytes) : FilesAgree options events := by
  intro i _ j _ a ha b hb
  obtain ⟨uri,shardId,contents,hevent,hload⟩ := mem_loadedBackings (List.mem_of_getElem? ha)
  obtain ⟨uri',shardId',contents',hevent',hload'⟩ := mem_loadedBackings (List.mem_of_getElem? hb)
  rw [h uri shardId contents hevent] at hload
  rw [h uri' shardId' contents' hevent'] at hload'
  exact sameArtifact_of_sameFile hload hload'

/-- The catch-up of the load starts where `artifact` ends, and fills the realtime table of the
shard with rows of its layout. -/
structure CaughtUpFrom (options : ForwardIndexOptions) (events : List LoadEvent)
    (shard : PublishedShard) (artifact : ParsedArtifact) : Prop where
  started : ∃ started table, startedRequests events = [started] ∧
    started.checkpoint = buildCheckpoint artifact.sourceProgress ∧
    started.safeProgress = buildSafeProgress artifact.sourceProgress ∧
    started.layout = some artifact.layout ∧
    shard.realtimeDelta = some table ∧ table ∈ started.realtimeShards ∧
    ∀ layout, started.layout = some layout →
      (createRealtimeShard layout options).layout = some artifact.layout

/-- All published shards come from one artifact, which is the one of the catch-up. -/
def OneArtifact (options : ForwardIndexOptions) (events : List LoadEvent) : Prop :=
  ∀ shard ∈ publishCalls events, ∃ backing, shard.fullSnapshot = ⟨some (.mmap backing)⟩ ∧
    (∀ other ∈ publishCalls events, ∃ backing', other.fullSnapshot = ⟨some (.mmap backing')⟩ ∧
      SameArtifact backing'.artifact backing.artifact) ∧
    (forwardIndexModeUsesKafkaRealtime options.mode = true →
      CaughtUpFrom options events shard backing.artifact)

theorem shardStates_isPrefix (backings more : List MmapSnapshotBacking) :
    shardStates id options backings <+: shardStates id options (backings++more) := by
  rw [shardStates,shardStates,List.mapIdx_append]
  exact List.prefix_append _ _

theorem LoadRun.publishCalls_isPrefix (h : LoadRun request id options hasPublish fuel events out) :
    publishCalls events <+: shardStates id options (loadedBackings options events) := by
  induction events using List.reverseRecOn generalizing out with
  | nil => exact List.nil_prefix
  | append_singleton events event ih =>
    have hold : publishCalls events <+:
        shardStates id options (loadedBackings options (events++[event])) := by
      rw [loadedBackings_append]
      exact (ih h.before).trans (shardStates_isPrefix _ _)
    have hsame := @publishCalls_silent events event
    obtain ⟨op,answer⟩ := event
    cases op with
    | publishShard shardId shard =>
      have hmay := h.mayPublish rfl
      have hcalls : publishCalls events =
          (shardStates id options (loadedBackings options events)).take shardId.toNat := hmay.calls
      have hshard : (shardStates id options (loadedBackings options events))[shardId.toNat]? =
          some shard := hmay.shard
      have hnew : publishCalls (events++[⟨.publishShard shardId shard,answer⟩]) =
          (shardStates id options (loadedBackings options events)).take (shardId.toNat+1) := by
        rw [List.take_add_one,hshard,← hcalls]
        exact publishCalls_append _ _
      rw [hnew,loadedBackings_append]
      exact (List.take_prefix _ _).trans (shardStates_isPrefix _ _)
    | _ =>
      rw [hsame rfl]
      exact hold

theorem LoadRun.publishCalls_length (h : LoadRun request id options hasPublish fuel events out) :
    (publishCalls events).length ≤ options.shardCount.toNat := by
  obtain ⟨k,hk,hids,-⟩ := h.publishCalls_ids
  have hlen := congrArg List.length hids
  simp only [List.length_map,shardIds,List.length_range] at hlen
  omega

theorem LoadRun.publishCalls_getElem (h : LoadRun request id options hasPublish fuel events out)
    {i : ℕ} {shard : PublishedShard} (hs : (publishCalls events)[i]? = some shard) :
    i < options.shardCount.toNat ∧ shard.generation = id ∧ ∃ backing,
      (loadedBackings options events)[i]? = some backing ∧
      shard.fullSnapshot = ⟨some (.mmap backing)⟩ ∧
      shard.realtimeDelta =
        if forwardIndexModeUsesKafkaRealtime options.mode then some i else none := by
  obtain ⟨hi,hget⟩ := List.getElem?_eq_some_iff.mp hs
  have hstate := List.prefix_iff_getElem?.mp h.publishCalls_isPrefix i hi
  rw [hget,shardStates,List.getElem?_mapIdx,Option.map_eq_some_iff] at hstate
  obtain ⟨backing,hbacking,rfl⟩ := hstate
  exact ⟨hi.trans_le h.publishCalls_length,rfl,backing,hbacking,rfl,rfl⟩

theorem mem_startedRequests {started : AsyncCatchUpRequest} (h : started ∈ startedRequests events) :
    ∃ before after, events = before++⟨.start started,.ok ()⟩::after := by
  obtain ⟨⟨op,answer⟩,hmem,heq⟩ := List.mem_filterMap.mp h
  cases op with
  | start other =>
    cases answer with
    | error status => simp at heq
    | ok _ =>
      simp only [Option.some.injEq] at heq
      rw [heq] at hmem
      exact List.append_of_mem hmem
  | _ => simp at heq

theorem LoadRun.startedRequests_behind {before after : List LoadEvent} {shardId : UInt32}
    {shard : PublishedShard} {answer : StatusOr Unit}
    (h : LoadRun request id options hasPublish fuel
      (before++⟨.publishShard shardId shard,answer⟩::after) out) :
    startedRequests after = [] := by
  by_contra hne
  obtain ⟨started,hmem⟩ := List.exists_mem_of_ne_nil _ hne
  obtain ⟨mid,rest,hafter⟩ := mem_startedRequests hmem
  have hsplit : before++⟨.publishShard shardId shard,answer⟩::after =
      (before++⟨.publishShard shardId shard,answer⟩::mid)++⟨.start started,.ok ()⟩::rest := by
    simp [hafter]
  have hcalls : publishCalls (before++⟨.publishShard shardId shard,answer⟩::mid) = [] :=
    (h.allowed hsplit).2.2.1
  rw [publishCalls_append] at hcalls
  exact List.cons_ne_nil _ _ (List.append_eq_nil_iff.mp hcalls).2

/-- A load that publishes has caught up from the file of its first shard. -/
theorem LoadRun.startedRequests_eq (h : LoadRun request id options hasPublish fuel events out)
    (hmode : forwardIndexModeUsesKafkaRealtime options.mode = true)
    (hne : publishCalls events ≠ []) :
    ∃ first, (loadedBackings options events)[0]? = some first ∧
      startedRequests events = [catchUpRequest id options first.artifact] := by
  obtain ⟨shard,hmem⟩ := List.exists_mem_of_ne_nil _ hne
  obtain ⟨before,shardId,answer,after,hevents⟩ := mem_publishCalls hmem
  have hmay := h.mayPublish hevents
  obtain ⟨first,hfirst,hstarts⟩ := (hmay.caughtUp hmode).1
  have hhead : (loadedBackings options (before++⟨.publishShard shardId shard,answer⟩::after)).head? =
      (loadedBackings options before).head? :=
    loadedBackings_head _ (MayPublish.backings_ne_nil hmay)
  refine ⟨first,?_,?_⟩
  · rw [hevents,← List.head?_eq_getElem?,hhead]
    exact hfirst
  · have hafter : startedRequests after = [] := by
      rw [hevents] at h
      exact h.startedRequests_behind
    have hbefore : startedRequests before = [catchUpRequest id options first.artifact] := hstarts
    have hcall : startedRequests (⟨.publishShard shardId shard,answer⟩::after) =
        startedRequests after := rfl
    rw [hevents,startedRequests_append,hbefore,hcall,hafter]
    rfl

theorem LoadRun.oneArtifact (h : LoadRun request id options hasPublish fuel events out)
    (hagree : FilesAgree options events) : OneArtifact options events := by
  intro shard hmem
  obtain ⟨i,hi⟩ := List.mem_iff_getElem?.mp hmem
  obtain ⟨hlt,-,backing,hbacking,hsnapshot,htable⟩ := h.publishCalls_getElem hi
  refine ⟨backing,hsnapshot,?_,?_⟩
  · intro other hother
    obtain ⟨j,hj⟩ := List.mem_iff_getElem?.mp hother
    obtain ⟨hlt',-,backing',hbacking',hsnapshot',-⟩ := h.publishCalls_getElem hj
    exact ⟨backing',hsnapshot',hagree j hlt' i hlt backing' hbacking' backing hbacking⟩
  · intro hmode
    obtain ⟨first,hfirst,hstarted⟩ := h.startedRequests_eq hmode (List.ne_nil_of_mem hmem)
    have hsame := hagree 0 (shardCount_pos options) i hlt first hfirst backing hbacking
    rw [if_pos hmode] at htable
    refine ⟨_,i,hstarted,?_,?_,?_,htable,?_,?_⟩
    · rw [catchUpRequest,hsame.sourceProgress]
    · rw [catchUpRequest,hsame.sourceProgress]
    · rw [catchUpRequest,hsame.layout]
    · exact List.mem_range.mpr hlt
    · intro layout hlayout
      rw [catchUpRequest,hsame.layout] at hlayout
      exact hlayout.symm

/-- When all shards are out, nothing but agreeing files makes them one artifact. -/
theorem LoadRun.filesAgree (h : LoadRun request id options hasPublish fuel events out)
    (hall : (publishCalls events).length = options.shardCount.toNat)
    (hone : OneArtifact options events) : FilesAgree options events := by
  intro i hi j hj a ha b hb
  have hcall : ∀ k < options.shardCount.toNat, ∀ backing ∈ (loadedBackings options events)[k]?,
      ∃ shard ∈ publishCalls events, shard.fullSnapshot = ⟨some (.mmap backing)⟩ := by
    intro k hk backing hbacking
    rw [← hall] at hk
    have hget := List.getElem?_eq_getElem hk
    obtain ⟨-,-,other,hother,hsnapshot,-⟩ := h.publishCalls_getElem hget
    rw [Option.mem_def.mp hbacking,Option.some.injEq] at hother
    subst hother
    exact ⟨_,List.getElem_mem hk,hsnapshot⟩
  obtain ⟨shard,hmem,hsnapshot⟩ := hcall i hi a ha
  obtain ⟨other,hmem',hsnapshot'⟩ := hcall j hj b hb
  obtain ⟨backing',hb',hsame,-⟩ := hone other hmem'
  obtain ⟨backing,ha',hagree⟩ := hsame shard hmem
  rw [hsnapshot',FullSnapshotView.mk.injEq,Option.some.injEq,SnapshotBacking.mmap.injEq] at hb'
  rw [hsnapshot,FullSnapshotView.mk.injEq,Option.some.injEq,SnapshotBacking.mmap.injEq] at ha'
  rwa [← ha',← hb'] at hagree

/-- A load serves one artifact when the files of its shards belong to one, and if it has
published all its shards, only then. -/
theorem load_serves_oneArtifact_iff (request : LoadRequest) (id : LoadId)
    (options : ForwardIndexOptions) (hasPublish : Bool) (fuel : ℕ) (events : List LoadEvent)
    (out : Option LoadOutcome) (h : LoadRun request id options hasPublish fuel events out) :
    (FilesAgree options events → OneArtifact options events) ∧
      ((publishCalls events).length = options.shardCount.toNat →
        (OneArtifact options events ↔ FilesAgree options events)) :=
  ⟨h.oneArtifact,fun hall => ⟨h.filesAgree hall,h.oneArtifact⟩⟩

end Run

/-- The build `artifactId` of a two shard index, read up to offset `checkpoint`. -/
def buildSpec (artifactId : Bytes) (checkpoint : Int64) : ArtifactBuildSpec :=
  { sampleSpec with artifactId,shardCount := 2,sourceProgress := [⟨[116],0,checkpoint,8⟩] }

def shardFile (artifactId : Bytes) (checkpoint : Int64) (shardId : UInt32) : Bytes :=
  (writeArtifactWithShards (buildSpec artifactId checkpoint)
    (sampleSpec.shards.map fun shard => { shard with shardId })).toOption.getD []

open RealtimeDeltaAtomicTable (sampleLayout)

theorem shardFile_eq {artifactId : Bytes} (hid : artifactId.length ≤ kArtifactIdCapacity)
    (checkpoint : Int64) {shardId : UInt32} (hshard : shardId < 2) :
    shardFile artifactId checkpoint shardId =
      (composeArtifact (buildSpec artifactId checkpoint) sampleLayout
        (sampleSpec.shards.map fun shard => { shard with shardId })).toOption.getD [] := by
  have hselection : checkSelection 2 [] (sampleSpec.shards.map fun shard => { shard with shardId }) =
      .ok () := by
    have hin : decide (shardId ≥ 2) = false := by
      rw [decide_eq_false_iff_not,ge_iff_le,UInt32.not_le]
      exact hshard
    rw [sampleSpec,List.map_singleton,checkSelection,hin]
    rfl
  have hcomposable : Composable (buildSpec artifactId checkpoint) sampleLayout
      (sampleSpec.shards.map fun shard => { shard with shardId }) :=
    ⟨rfl,hid,show (2 : UInt32) ≠ 0 by decide,List.cons_ne_nil _ _,hselection,
      show (UInt32.ofNat 9).toNat < 2^26-2 by decide⟩
  rw [shardFile,hcomposable.written_eq]

def twoShardIndex : ForwardIndexOptions :=
  { shardCount := 2,shardCount_isPowerOfTwo := two_isPowerOfTwo }

def pairAnswer : (op : LoadOp) → LoadRes op
  | .mapShardFile _ shardId =>
    if shardId = 0 then .ok (shardFile [97] 5 0) else .ok (shardFile [97] 5 1)
  | op => sampleAnswer op

def pairEvents : List LoadEvent :=
  (runExternalArtifactLoad sampleRequest 1 twoShardIndex true 1).trace
    (fun op (_ : Unit) => (pairAnswer op,())) ()

theorem pairEvents_loaded : (publishCalls pairEvents).length = 2 ∧
    ∀ a ∈ loadedBackings twoShardIndex pairEvents, ∀ b ∈ loadedBackings twoShardIndex pairEvents,
      a.artifact.artifactId = b.artifact.artifactId ∧
        a.artifact.schemaVersion = b.artifact.schemaVersion ∧
        a.artifact.layoutFingerprint = b.artifact.layoutFingerprint ∧
        a.artifact.layout = b.artifact.layout ∧
        a.artifact.sourceProgress = b.artifact.sourceProgress := by
  unfold pairEvents pairAnswer
  rw [shardFile_eq (by decide) 5 (by decide),shardFile_eq (by decide) 5 (by decide)]
  decide +kernel

theorem load_serves_oneArtifact_sample :
    (publishCalls pairEvents).length = 2 ∧ OneArtifact twoShardIndex pairEvents := by
  obtain ⟨hpublished,hsame⟩ := pairEvents_loaded
  refine ⟨hpublished,(load_serves_oneArtifact_iff sampleRequest 1 twoShardIndex true 1
    pairEvents _ (Prog.trace_emits _ _ _)).1 ?_⟩
  intro i _ j _ a ha b hb
  obtain ⟨hid,hversion,hfingerprint,hlayout,hprogress⟩ :=
    hsame a (List.mem_of_getElem? ha) b (List.mem_of_getElem? hb)
  exact ⟨hid,hversion,hfingerprint,hlayout,hprogress⟩

/-- The directory has the first shard of a new build, and behind it a shard that an older
build has left. -/
def leftoverAnswer : (op : LoadOp) → LoadRes op
  | .mapShardFile _ shardId =>
    if shardId = 0 then .ok (shardFile [97] 5 0) else .ok (shardFile [98] 3 1)
  | op => sampleAnswer op

def leftoverEvents : List LoadEvent :=
  (runExternalArtifactLoad sampleRequest 1 twoShardIndex true 1).trace
    (fun op (_ : Unit) => (leftoverAnswer op,())) ()

def mappedArtifactId (shard : PublishedShard) : Option Bytes :=
  match shard.fullSnapshot.backing with
  | some (.mmap backing) => some backing.artifact.artifactId
  | _ => none

theorem leftoverEvents_published :
    (publishCalls leftoverEvents).map mappedArtifactId = [some [97],some [98]] := by
  unfold leftoverEvents leftoverAnswer
  rw [shardFile_eq (by decide) 5 (by decide),shardFile_eq (by decide) 3 (by decide)]
  decide +kernel

theorem OneArtifact.mappedArtifactId_eq {options : ForwardIndexOptions} {events : List LoadEvent}
    (h : OneArtifact options events) {a b : Option Bytes}
    (ha : a ∈ (publishCalls events).map mappedArtifactId)
    (hb : b ∈ (publishCalls events).map mappedArtifactId) : a = b := by
  obtain ⟨shard,hshard,rfl⟩ := List.mem_map.mp ha
  obtain ⟨other,hother,rfl⟩ := List.mem_map.mp hb
  obtain ⟨backing,hbacking,hsame,-⟩ := h shard hshard
  obtain ⟨backing',hbacking',hagree⟩ := hsame other hother
  rw [mappedArtifactId,mappedArtifactId,hbacking,hbacking']
  exact congrArg some hagree.artifactId.symm

/-- The shards of one load can come from two artifacts. -/
theorem leftoverShard_is_served :
    LoadRun sampleRequest 1 twoShardIndex true 1 leftoverEvents
      (some ((runExternalArtifactLoad sampleRequest 1 twoShardIndex true 1).run
        (fun op (_ : Unit) => (leftoverAnswer op,())) ()).1) ∧
      ¬OneArtifact twoShardIndex leftoverEvents := by
  refine ⟨Prog.trace_emits _ _ _,?_⟩
  intro hone
  have hsame : some ([97] : Bytes) = some [98] := by
    refine hone.mappedArtifactId_eq ?_ ?_
    · rw [leftoverEvents_published]
      exact List.mem_cons_self
    · rw [leftoverEvents_published]
      exact List.mem_cons_of_mem _ List.mem_cons_self
  exact absurd hsame (by decide)

end Rebuild
end KvIndex
