import KvIndex.LocalLoad
import KvIndex.RoutedRows
import KvIndex.ServedTables

/-! From the tables to the index. Where the file system shows the files that a build wrote, an
index with the settings of the build loads them, and then answers every key as the tables do. -/
namespace KvIndex
namespace Offline

open Base Schema CompiledRowLayout Model Artifact Prog Rebuild

/-- The file system shows the files of a build behind the uri. -/
structure Shows (files : FileSystem) (artifactUri : Bytes) (options : BuildArtifactOptions)
    (events : List BuildEvent) : Prop where
  path : resolveLocalPath artifactUri = .ok options.outputPath
  directory : files.stat options.outputPath = .directory
  regular : ∀ file ∈ filesWritten events, files.stat file.1 = .regular
  contents : ∀ file ∈ filesWritten events, files.contents file.1 = .bytes file.2
  size : ∀ file ∈ filesWritten events, file.2.length ≤ uint64Max

/-- The file system as a build leaves it, with nothing else in it. -/
def writtenFiles (options : BuildArtifactOptions) (events : List BuildEvent) : FileSystem where
  stat path :=
    if path = options.outputPath then .directory
    else if (FirstWins.find Prod.fst (filesWritten events) path).isSome then .regular
    else .missing
  contents path :=
    match FirstWins.find Prod.fst (filesWritten events) path with
    | none => .missing
    | some file => .bytes file.2

/-- The index has the settings of the build. -/
structure SettingsOf (index : ForwardIndexOptions) (result : BuildArtifactResult) : Prop where
  shardCount : index.shardCount = result.shardCount
  hashSeed : index.hashSeed = result.hashSeed
  hashVersion : index.hashVersion = result.hashVersion

def readerOf (index : ForwardIndexOptions) : ArtifactValidationOptions where
  expectedShardCount := index.shardCount
  expectedHashSeed := index.hashSeed
  expectedHashVersion := index.hashVersion
  sourceProgressPolicy := .kOptional

theorem loadOptions_eq {index : ForwardIndexOptions} (hmode : index.mode = .kFullSnapshotOnly) :
    loadOptions index =
      { (readerOf index).loadOptions with sectionSort := index.sectionSort } := by
  rw [loadOptions,hmode]
  rfl

theorem mem_zip_of_mapM {α β γ : Type} {f : α → StatusOr β} {g : α → γ} {as : List α} {bs : List β}
    (h : as.mapM f = .ok bs) {a : α} (ha : a ∈ as) :
    ∃ b, f a = .ok b ∧ (g a,b) ∈ (as.map g).zip bs := by
  have hall := mapM_eq_ok.mp h
  clear h
  induction hall with
  | nil => cases ha
  | @cons first b as bs hfirst _ ih =>
    rcases List.mem_cons.mp ha with rfl | ha
    · exact ⟨b,hfirst,List.mem_cons_self⟩
    · obtain ⟨b',hb',hmem⟩ := ih ha
      exact ⟨b',hb',List.mem_cons_of_mem _ hmem⟩

section Index

variable {options : BuildArtifactOptions} {events : List BuildEvent} {tables : List ArrowTable}
  {config : ParsedSchemaConfig} {state : BuildState} {settings : BuildSettings}
  {schema : RuntimeSchema} {rows : List (List SnapshotRow)} {files : FileSystem}
  {artifactUri : Bytes} {index : ForwardIndexOptions}

theorem Shows.mapShardFile_eq (h : Shows files artifactUri options events) {shardId : UInt32}
    {bytes : Bytes} (hfile : (shardFilePath options shardId,bytes) ∈ filesWritten events)
    (hbytes : bytes ≠ []) : mapShardFile files artifactUri shardId = .ok bytes := by
  have hregular := h.regular _ hfile
  have hcontents := h.contents _ hfile
  rw [shardFilePath] at hregular hcontents
  rw [mapShardFile,resolveArtifactFilePath,h.path]
  simp only [ok_bind,h.directory,hregular,pure_eq_ok]
  rw [mapFile,hcontents]
  cases bytes with
  | nil => exact absurd rfl hbytes
  | cons first rest => rfl

theorem parseArtifactWith_ne_nil {sort : List ArtifactSection → List ArtifactSection}
    {bytes : Bytes} {reader : ArtifactValidationOptions} {artifact : ParsedArtifact}
    (h : parseArtifactWith sort bytes reader = .ok artifact) : bytes ≠ [] := by
  rintro rfl
  cases h

theorem Inputs.matches (h : Inputs options tables config state settings schema rows)
    (hsettings : SettingsOf index state.result) : Matches state.spec (readerOf index) := by
  obtain ⟨hcount,hseed,hversion,-⟩ := h.settings_eq
  refine ⟨Or.inr ?_,Or.inr ?_,?_,Or.inr rfl⟩
  · rw [h.spec.shardCount]
    exact hsettings.shardCount.trans hcount
  · rw [h.spec.hashVersion]
    exact hsettings.hashVersion.trans hversion
  · rw [h.spec.hashSeed]
    exact hsettings.hashSeed.trans hseed

theorem Inputs.shardFor_eq (h : Inputs options tables config state settings schema rows)
    (hsettings : SettingsOf index state.result) (key : UInt64) :
    (ForwardIndex.shardFor index key).toNat = shardOf state.spec key := by
  rw [shardFor_toNat,hsettings.shardCount,hsettings.hashSeed,hsettings.hashVersion,← h.keyShard_eq]
  rfl

theorem shard_files (hshown : Shows files artifactUri options events)
    (h : Inputs options tables config state settings schema rows) {contents : List Bytes}
    (hcontents : (List.range state.result.shardCount.toNat).mapM (fun shardId =>
      writeArtifactShard state.spec (UInt32.ofNat shardId)) = .ok contents)
    (hwritten : ∀ file ∈ shardFiles options (List.range state.result.shardCount.toNat) contents,
      file ∈ filesWritten events)
    (hsettings : SettingsOf index state.result) {shardId : ℕ}
    (hshardId : shardId < index.shardCount.toNat) {sort : SectionSort}
    (hsort : sort = .stable ∨ 0 ∉ state.result.rowsPerShard) :
    ∃ bytes mapped, mapShardFile files artifactUri (UInt32.ofNat shardId) = .ok bytes ∧
      MmapSnapshotBacking.loadShard bytes (UInt32.ofNat shardId)
        { (readerOf index).loadOptions with sectionSort := sort } = .ok mapped ∧
      ∀ key, shardOf state.spec key = shardId → snapshotGet (some (.mmap mapped)) key =
        answer (some (compile schema))
          ((FirstWins.find SnapshotRow.primaryKey rows.flatten key).map fun row =>
            storedRow (compile schema) row.encoded) := by
  obtain ⟨hcount,-,-,-⟩ := h.settings_eq
  rw [hsettings.shardCount] at hshardId
  obtain ⟨bytes,hbytes,hfile⟩ := mem_zip_of_mapM (g := fun shardId =>
    shardFilePath options (UInt32.ofNat shardId)) hcontents (List.mem_range.mpr hshardId)
  have hmem := hwritten _ hfile
  have hrows : sort = .stable ∨ BuildState.rowsIn state.spec rows.flatten shardId ≠ [] := by
    refine hsort.imp_right fun hcounts hnil => hcounts ?_
    rw [h.rowsPerShard]
    exact List.mem_map.mpr ⟨shardId,List.mem_range.mpr (hcount ▸ hshardId),by rw [hnil]; rfl⟩
  obtain ⟨mapped,hload,hget⟩ := h.file_get (hcount ▸ hshardId) hbytes (hshown.size _ hmem)
    (h.matches hsettings) hrows
  exact ⟨bytes,mapped,
    hshown.mapShardFile_eq hmem (parseArtifactWith_ne_nil (loadShard_parses hload)),hload,hget⟩

end Index

theorem joinPath_ne {directory name : Bytes} (h : name ≠ []) : joinPath directory name ≠ directory := by
  intro heq
  have hlength := congrArg List.length heq
  have hname := List.length_pos_of_ne_nil h
  rw [joinPath] at hlength
  split at hlength
  · rw [List.length_append] at hlength
    omega
  · rw [List.length_append,List.length_append] at hlength
    omega

theorem shows_writtenFiles {options : BuildArtifactOptions} {depth : ℕ} {events : List BuildEvent}
    {result : BuildArtifactResult} {artifactUri : Bytes}
    (h : Gives (buildArtifactDirectory options depth) events result)
    (hpath : resolveLocalPath artifactUri = .ok options.outputPath)
    (hsize : ∀ file ∈ filesWritten events, file.2.length ≤ uint64Max) :
    Shows (writtenFiles options events) artifactUri options events := by
  have hfind : ∀ file ∈ filesWritten events,
      FirstWins.find Prod.fst (filesWritten events) file.1 = some file :=
    fun file hfile => FirstWins.find_of_mem (writtenPaths_nodup h) hfile
  refine ⟨hpath,if_pos rfl,?_,?_,hsize⟩
  · intro file hfile
    have hname : file.1 ≠ options.outputPath := by
      have hmem := List.mem_map_of_mem (f := Prod.fst) hfile
      rw [writtenPaths_eq h] at hmem
      rcases List.mem_cons.mp hmem with hschema | hshard
      · rw [hschema]
        exact joinPath_ne (by decide)
      · obtain ⟨shardId,-,hshard⟩ := List.mem_map.mp hshard
        rw [← hshard]
        refine joinPath_ne ?_
        rw [shardFileName]
        exact List.append_ne_nil_of_left_ne_nil (by decide) _
    show (if _ then _ else _) = _
    rw [if_neg hname,hfind file hfile]
    rfl
  · intro file hfile
    show (match FirstWins.find Prod.fst (filesWritten events) file.1 with
      | none => FileContents.missing
      | some file => .bytes file.2) = _
    rw [hfind file hfile]

theorem parseArtifactWith_unique {sort sort' : List ArtifactSection → List ArtifactSection}
    {bytes : Bytes} {reader reader' : ArtifactValidationOptions}
    {artifact artifact' : ParsedArtifact} (h : parseArtifactWith sort bytes reader = .ok artifact)
    (h' : parseArtifactWith sort' bytes reader' = .ok artifact') : artifact = artifact' := by
  obtain ⟨header,sections,layout,progress,hdescribed,-,rfl⟩ := parseArtifactWith_eq_ok.mp h
  obtain ⟨header',sections',layout',progress',hdescribed',-,rfl⟩ := parseArtifactWith_eq_ok.mp h'
  obtain rfl : header = header' :=
    Except.ok.inj (hdescribed.header_read.symm.trans hdescribed'.header_read)
  obtain rfl : sections = sections' :=
    Except.ok.inj (hdescribed.sections_read.symm.trans hdescribed'.sections_read)
  obtain ⟨schemaSection,hfind,hlayout⟩ := hdescribed.schema_read
  obtain ⟨schemaSection',hfind',hlayout'⟩ := hdescribed'.schema_read
  obtain rfl : schemaSection = schemaSection' := Option.some.inj (hfind.symm.trans hfind')
  obtain rfl : layout = layout' := Except.ok.inj (hlayout.symm.trans hlayout')
  have hread := hdescribed.progress_read
  have hread' := hdescribed'.progress_read
  obtain rfl : progress = progress' := by
    rw [readProgress] at hread hread'
    cases hsection : findSection sections .kSourceProgress kArtifactGlobalShardId with
    | none =>
      simp only [hsection] at hread hread'
      split_ifs at hread hread'
      exact (Except.ok.inj hread).symm.trans (Except.ok.inj hread')
    | some progressSection =>
      simp only [hsection] at hread hread'
      exact Except.ok.inj (hread.symm.trans hread')
  rfl

/-- Two readers that accept the file of a shard get the same snapshot from it. -/
theorem loadShard_unique {bytes : Bytes} {shardId : UInt32}
    {reader reader' : MmapSnapshotLoadOptions} {backing backing' : MmapSnapshotBacking}
    (h : MmapSnapshotBacking.loadShard bytes shardId reader = .ok backing)
    (h' : MmapSnapshotBacking.loadShard bytes shardId reader' = .ok backing') :
    backing = backing' := by
  have hsame := parseArtifactWith_unique (loadShard_parses h) (loadShard_parses h')
  simp only [MmapSnapshotBacking.loadShard,bind_eq_ok,failIf_eq_ok,exists_const,pure_eq_ok,
    Except.ok.injEq] at h h'
  obtain ⟨-,artifact,-,-,entries,hentries,slots,hslots,payloads,hpayloads,-,_,-,sections,hsections,
    rfl⟩ := h
  obtain ⟨-,artifact',-,-,entries',hentries',slots',hslots',payloads',hpayloads',-,_,-,sections',
    hsections',rfl⟩ := h'
  obtain rfl : artifact = artifact' := hsame
  obtain rfl := Except.ok.inj (hentries.symm.trans hentries')
  obtain rfl := Except.ok.inj (hslots.symm.trans hslots')
  obtain rfl := Except.ok.inj (hpayloads.symm.trans hpayloads')
  obtain rfl := Except.ok.inj (hsections.symm.trans hsections')
  rfl

section Loads

variable {options : BuildArtifactOptions} {depth : ℕ} {events : List BuildEvent}
  {result : BuildArtifactResult} {files : FileSystem} {request : LoadRequest} {id : LoadId}
  {index : ForwardIndexOptions} {directory : ShardDirectory PublishedShard} {fuel : ℕ} {labels : List LoadLabel}
  {world : LoadWorld}

/-- A load of the files of a build can only fail where something disturbs it. -/
theorem alive_of_build (hbuild : Gives (buildArtifactDirectory options depth) events result)
    (hshown : Shows files request.artifactUri options events)
    (hsettings : SettingsOf index result) (hmode : index.mode = .kFullSnapshotOnly)
    (hsort : index.sectionSort = .stable ∨ 0 ∉ result.rowsPerShard)
    (hdirectory : directory.shards.length = index.shardCount.toNat)
    (h : LoadHistory request id index directory fuel labels world)
    (hlabels : Undisturbed files labels) : Alive files index labels world := by
  obtain ⟨text,config,state,settings,schema,rows,contents,-,-,hinputs,rfl,-,hcontents,hwritten⟩ :=
    buildArtifactDirectory_gives hbuild
  have huri : request.artifactUri ≠ [] := by
    intro hnil
    have hpath := hshown.path
    rw [hnil] at hpath
    cases hpath
  refine h.alive hdirectory huri hmode ?_ hlabels
  intro shardId hshardId
  obtain ⟨bytes,mapped,hmap,hload,-⟩ := shard_files hshown hinputs hcontents
    (fun file hfile => hwritten ▸ List.mem_cons_of_mem _ hfile) hsettings hshardId hsort
  rw [← loadOptions_eq hmode] at hload
  exact ⟨bytes,mapped,hmap,hload⟩

end Loads

/-- Two indexes for the sample build, of which only the second one is without realtime tables. -/
def realtimePair : ForwardIndexOptions := { shardCount := 2 }

def snapshotPair : ForwardIndexOptions :=
  { mode := .kFullSnapshotOnly,shardCount := 2
    shardCount_isPowerOfTwo := realtimePair.shardCount_isPowerOfTwo }

def builtRequest : LoadRequest := { artifactUri := [111] }

def builtFiles : FileSystem := writtenFiles sampleOptions sampleBuildEvents

def builtAnswer : (op : LoadOp) → LoadRes op
  | .mapShardFile uri shardId => mapShardFile builtFiles uri shardId
  | op => sampleAnswer op

def builtStart (index : ForwardIndexOptions) : LoadWorld :=
  startLoad builtRequest 1 index (.create 2) 1

def builtEvents (index : ForwardIndexOptions) : List LoadEvent :=
  (runExternalArtifactLoad builtRequest 1 index true 1).trace (respond builtAnswer) (builtStart index)

def builtWorld (index : ForwardIndexOptions) : LoadWorld :=
  let result := (runExternalArtifactLoad builtRequest 1 index true 1).run (respond builtAnswer)
    (builtStart index)
  { result.2 with worker := some (.done result.1) }

theorem builtWorld_history (index : ForwardIndexOptions) :
    LoadHistory builtRequest 1 index (.create 2) 1 ((builtEvents index).map .work)
      (builtWorld index) :=
  worker_run builtAnswer _ (builtStart index) rfl

theorem builtFiles_shown : Shows builtFiles builtRequest.artifactUri sampleOptions sampleBuildEvents := by
  refine shows_writtenFiles sampleBuild_gives rfl ?_
  intro file hfile
  have hlength : file.2.length ∈ [214,1153,1153] :=
    sampleBuild_evaluated.2 ▸ List.mem_map_of_mem hfile
  have hsize : ∀ size ∈ [214,1153,1153], size ≤ uint64Max := by decide
  exact hsize _ hlength

theorem snapshotPair_settings : SettingsOf snapshotPair sampleResult := by
  obtain ⟨hcount,hseed,hversion,-⟩ := sampleResult_settings
  exact ⟨hcount.symm,hseed.symm,hversion.symm⟩

theorem builtEvents_undisturbed (index : ForwardIndexOptions) :
    Undisturbed builtFiles ((builtEvents index).map .work) := by
  have hall : ∀ event ∈ builtEvents index, match event with
      | ⟨.mapShardFile uri shardId,answer⟩ => answer = mapShardFile builtFiles uri shardId
      | ⟨.prewarm _,answer⟩ => answer = .ok ()
      | _ => True := by
    refine trace_forall ?_ _ (builtStart index)
    intro op world
    cases op with
    | mapShardFile uri shardId => exact rfl
    | prewarm shardId => exact rfl
    | _ => trivial
  refine ⟨by simp,?_,?_⟩
  · intro uri shardId answer hmem
    rw [workerEvents_map_work] at hmem
    exact hall _ hmem
  · intro shardId answer hmem
    rw [workerEvents_map_work] at hmem
    exact hall _ hmem

theorem builtWorld_alive : Alive builtFiles snapshotPair ((builtEvents snapshotPair).map .work)
    (builtWorld snapshotPair) :=
  alive_of_build sampleBuild_gives builtFiles_shown snapshotPair_settings rfl (Or.inl rfl) rfl
    (builtWorld_history snapshotPair) (builtEvents_undisturbed snapshotPair)

/-- The answers of the file system are those that a load got. -/
def FilesAnswer (files : FileSystem) (labels : List LoadLabel) : Prop :=
  ∀ uri shardId answer, ⟨.mapShardFile uri shardId,answer⟩ ∈ workerEvents labels →
    answer = mapShardFile files uri shardId

theorem sampleBuild_reads : (∀ path text, ⟨.readSchema path,some text⟩ ∈ sampleBuildEvents →
      text = sampleText) ∧ ∀ table ∈ tablesRead sampleBuildEvents, table = sampleTable := by
  have hall : ∀ event ∈ sampleBuildEvents, match event with
      | ⟨.readSchema _,answer⟩ => answer = some sampleText
      | ⟨.readParquet _,answer⟩ => answer = .table sampleTable
      | _ => True := by
    refine trace_forall ?_ _ ()
    intro op world
    cases op with
    | readSchema path => exact rfl
    | readParquet path => exact rfl
    | _ => trivial
  constructor
  · intro path text hmem
    exact Option.some.inj (hall _ hmem)
  · intro table hmem
    obtain ⟨⟨path,read⟩,hfile,rfl⟩ := List.mem_map.mp hmem
    obtain ⟨⟨op,answer⟩,hevent,hread⟩ := List.mem_filterMap.mp hfile
    cases op with
    | readParquet path =>
      rw [show answer = .table sampleTable from hall _ hevent] at hread
      cases hread
      rfl
    | _ => cases hread

theorem sampleRows_evaluated : (do
      let config ← parseSchemaFile sampleText
      let schema ← buildRuntimeSchema config 2
      return (List.range 2).map fun rowIndex =>
        let writes := rowWrites (compile schema) sampleTable rowIndex
        (writes.map Prod.snd,totalArena writes)) = .ok [([.uint64 5],0),([],0)] := by
  decide +kernel

theorem sampleTables_fit {config : ParsedSchemaConfig} {schema : RuntimeSchema}
    (hparse : parseSchemaFile sampleText = .ok config)
    (hbuild : buildRuntimeSchema config 2 = .ok schema) :
    TablesFit (compile schema) (tablesRead sampleBuildEvents) := by
  have hevaluated := sampleRows_evaluated
  rw [hparse,ok_bind,hbuild,ok_bind,pure_eq_ok,Except.ok.injEq] at hevaluated
  have hlength : (Ingest.wireValue (.uint64 5)).length < 2^32 := by decide
  intro table htable rowIndex hindex
  obtain rfl := sampleBuild_reads.2 table htable
  have hrow := List.mem_map_of_mem
    (f := fun rowIndex => ((rowWrites (compile schema) sampleTable rowIndex).map Prod.snd,
      totalArena (rowWrites (compile schema) sampleTable rowIndex)))
    (List.mem_range.mpr hindex)
  rw [show (List.range sampleTable.numRows).map _ = _ from hevaluated,List.mem_cons,
    List.mem_singleton] at hrow
  have hvalues : ∀ w ∈ rowWrites (compile schema) sampleTable rowIndex, w.2 = .uint64 5 := by
    intro w hw
    have hvalue := List.mem_map_of_mem (f := Prod.snd) hw
    rcases hrow with hfirst | hsecond
    · rw [(Prod.mk.inj hfirst).1] at hvalue
      exact List.mem_singleton.mp hvalue
    · rw [(Prod.mk.inj hsecond).1] at hvalue
      cases hvalue
  refine ⟨?_,?_⟩
  · intro w hw
    rw [hvalues w hw]
    exact ⟨hlength,trivial⟩
  · rcases hrow with hfirst | hsecond
    · exact (Prod.mk.inj hfirst).2.le.trans (Nat.zero_le _)
    · exact (Prod.mk.inj hsecond).2.le.trans (Nat.zero_le _)

/-- A load of the files of a build ends as succeeded, unless it is cancelled or its pages cannot
be prewarmed. A shard without rows ties two offsets, and there the parser must keep their order. -/
theorem built_index_loads (options : BuildArtifactOptions) (depth : ℕ) (events : List BuildEvent)
    (result : BuildArtifactResult) (files : FileSystem) (request : LoadRequest) (id : LoadId)
    (index : ForwardIndexOptions) (directory : ShardDirectory PublishedShard) (fuel : ℕ)
    (labels : List LoadLabel) (world : LoadWorld)
    (hbuild : Gives (buildArtifactDirectory options depth) events result)
    (hshown : Shows files request.artifactUri options events)
    (hsettings : SettingsOf index result) (hmode : index.mode = .kFullSnapshotOnly)
    (hsort : index.sectionSort = .stable ∨ 0 ∉ result.rowsPerShard)
    (hdirectory : directory.shards.length = index.shardCount.toNat)
    (h : LoadHistory request id index directory fuel labels world)
    (hlabels : Undisturbed files labels)
    (hdone : world.worker = none ∨ ∃ outcome, world.worker = some (.done outcome)) :
    world.record.code = .kSucceeded := by
  have halive := alive_of_build hbuild hshown hsettings hmode hsort hdirectory h hlabels
  rcases hdone with hdone | ⟨outcome,hdone⟩
  · exact halive.ended hdone
  · exact halive.done hdone

theorem built_index_loads_sample : (builtWorld snapshotPair).record.code = .kSucceeded :=
  built_index_loads sampleOptions 1 sampleBuildEvents sampleResult builtFiles builtRequest 1
    snapshotPair (.create 2) 1 _ _ sampleBuild_gives builtFiles_shown snapshotPair_settings rfl
    (Or.inl rfl) rfl (builtWorld_history snapshotPair) (builtEvents_undisturbed snapshotPair)
    (Or.inr ⟨_,rfl⟩)

/-- An index with realtime tables never publishes what a build wrote, since a build knows of no
source. -/
theorem realtime_index_never_publishes_build (options : BuildArtifactOptions) (depth : ℕ)
    (events : List BuildEvent) (result : BuildArtifactResult) (files : FileSystem)
    (request : LoadRequest) (id : LoadId) (index : ForwardIndexOptions)
    (directory : ShardDirectory PublishedShard) (fuel : ℕ) (labels : List LoadLabel) (world : LoadWorld)
    (hbuild : Gives (buildArtifactDirectory options depth) events result)
    (hshown : Shows files request.artifactUri options events)
    (hmode : forwardIndexModeUsesKafkaRealtime index.mode = true)
    (h : LoadHistory request id index directory fuel labels world)
    (hanswer : FilesAnswer files labels) :
    publishCalls (workerEvents labels) = [] ∧ world.directory = directory ∧
      world.record.code ≠ .kSucceeded := by
  obtain ⟨text,config,state,settings,schema,rows,contents,-,-,hinputs,rfl,-,hcontents,hwritten⟩ :=
    buildArtifactDirectory_gives hbuild
  have hcalls : publishCalls (workerEvents labels) = [] := by
    refine h.loadRun.publishCalls_eq_nil_of_noProgress hmode ?_
    intro backing hbacking hid
    obtain ⟨uri,shardId,bytes,hevent,hload⟩ := mem_loadedBackings hbacking
    rw [loadShard_shardId hload] at hid
    obtain ⟨hcount,-,-,-⟩ := hinputs.settings_eq
    have hpos : 0 < state.result.shardCount.toNat := hcount ▸ hinputs.shardCount_pos
    obtain ⟨written,hwrite,hfile⟩ := mem_zip_of_mapM (g := fun shardId =>
      shardFilePath options (UInt32.ofNat shardId)) hcontents (List.mem_range.mpr hpos)
    have hmem : (shardFilePath options (UInt32.ofNat 0),written) ∈ filesWritten events :=
      hwritten ▸ List.mem_cons_of_mem _ hfile
    obtain ⟨parts,hparts,hlength⟩ := hinputs.written (hcount ▸ hpos) hwrite
    have hmatch : Matches state.spec {
        expectedHashSeed := state.spec.hashSeed,sourceProgressPolicy := .kOptional } :=
      ⟨Or.inl rfl,Or.inl rfl,rfl,Or.inr rfl⟩
    have hparse := hparts.parse_eq hlength (hshown.size _ hmem) hinputs.readable hmatch
    have hmap := hshown.mapShardFile_eq hmem (parseArtifactWith_ne_nil hparse)
    have hsame := hanswer uri shardId _ hevent
    rw [hid,show uri = request.artifactUri from h.loadRun.asksFor _ hevent] at hsame
    rw [show written = bytes from Except.ok.inj (hmap.symm.trans hsame.symm)] at hparse
    rw [parseArtifactWith_unique (loadShard_parses hload) hparse]
    show state.spec.storedProgress = []
    rw [ArtifactBuildSpec.storedProgress,hinputs.spec.progress]
    exact ite_self _
  obtain ⟨-,-,-,hpublished⟩ := h.loadRun.publishCalls_ids
  rw [hcalls,List.prefix_nil] at hpublished
  refine ⟨hcalls,?_,?_⟩
  · rw [h.inv.directory,hpublished]
    rfl
  · intro hsucceeded
    have hlength := h.inv.record.succeeded hsucceeded
    have hpos := shardCount_pos index
    rw [hpublished,List.length_nil] at hlength
    omega

theorem realtime_index_never_publishes_sample :
    (builtWorld realtimePair).directory = .create 2 ∧
      (builtWorld realtimePair).record.code ≠ .kSucceeded :=
  (realtime_index_never_publishes_build sampleOptions 1 sampleBuildEvents sampleResult builtFiles
    builtRequest 1 realtimePair (.create 2) 1 _ _ sampleBuild_gives builtFiles_shown rfl
    (builtWorld_history realtimePair) (builtEvents_undisturbed realtimePair).files).2

end Offline
end KvIndex
