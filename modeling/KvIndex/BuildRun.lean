import KvIndex.BuildRows
import KvIndex.ProgramRuns

/-! Runs of the offline build. A build that succeeds has read the tables it found and written the
schema file and one file for each shard; whatever happens, it writes nothing before all rows of all
tables are in their shards. -/
namespace KvIndex
namespace Offline

open Base Schema CompiledRowLayout Model Artifact Prog

def filesRead (events : List BuildEvent) : List (Bytes×ArrowTable) :=
  events.filterMap fun event =>
    match event with
    | ⟨.readParquet path,.table table⟩ => some (path,table)
    | _ => none

def tablesRead (events : List BuildEvent) : List ArrowTable := (filesRead events).map Prod.snd

def filesWritten (events : List BuildEvent) : List (Bytes×Bytes) :=
  events.filterMap fun event =>
    match event with
    | ⟨.writeFile path contents,.written⟩ => some (path,contents)
    | _ => none

theorem filesRead_append (before after : List BuildEvent) :
    filesRead (before++after) = filesRead before++filesRead after := List.filterMap_append

theorem filesWritten_append (before after : List BuildEvent) :
    filesWritten (before++after) = filesWritten before++filesWritten after := List.filterMap_append

/-- An operation that looks at paths. -/
def LooksAtPath : BuildOp → Prop
  | .stat _ => True
  | .openDirectory _ => True
  | _ => False

/-- An operation that leaves the file system as it is. -/
def ReadsOnly : BuildOp → Prop
  | .makeDirectory _ => False
  | .writeFile _ _ => False
  | _ => True

/-- An operation of the second half of a build. -/
def WritesOrLooks : BuildOp → Prop
  | .readParquet _ => False
  | _ => True

section Quiet

variable {events : List BuildEvent}

theorem filesWritten_readsOnly (h : ∀ event ∈ events, ReadsOnly event.1) :
    filesWritten events = [] := by
  rw [filesWritten,List.filterMap_eq_nil_iff]
  rintro ⟨op,answer⟩ hevent
  have hop := h _ hevent
  cases op with
  | makeDirectory path => exact hop.elim
  | writeFile path contents => exact hop.elim
  | _ => rfl

theorem filesRead_writesOrLooks (h : ∀ event ∈ events, WritesOrLooks event.1) :
    filesRead events = [] := by
  rw [filesRead,List.filterMap_eq_nil_iff]
  rintro ⟨op,answer⟩ hevent
  have hop := h _ hevent
  cases op with
  | readParquet path => exact hop.elim
  | _ => rfl

theorem readsOnly_of_looksAtPath {op : BuildOp} (h : LooksAtPath op) : ReadsOnly op := by
  cases op with
  | stat path => trivial
  | openDirectory path => trivial
  | _ => exact h.elim

theorem writesOrLooks_of_looksAtPath {op : BuildOp} (h : LooksAtPath op) : WritesOrLooks op := by
  cases op with
  | stat path => trivial
  | openDirectory path => trivial
  | _ => exact h.elim

end Quiet

section Parts

variable {α : Type} {events : List BuildEvent}

theorem gives_perform {op : BuildOp} {answer : BuildRes op} :
    Gives (perform op) events answer ↔ events = [⟨op,answer⟩] := gives_call

theorem gives_orReturn {x : StatusOr α} {a : α} :
    Gives (orReturn x) events a ↔ events = [] ∧ x = .ok a := by
  cases x with
  | error status => exact ⟨fun h => absurd h gives_throw,fun h => by cases h.2⟩
  | ok b => exact gives_pure.trans (and_congr_right fun _ => ⟨fun h => h ▸ rfl,Except.ok.inj⟩)

theorem readSchemaFile_gives {path : Bytes} {config : ParsedSchemaConfig}
    (h : Gives (readSchemaFile path) events config) :
    ∃ text, events = [⟨.readSchema path,some text⟩] ∧ parseSchemaFile text = .ok config := by
  obtain ⟨_,answer,_,hfirst,hrest,rfl⟩ := gives_bind.mp h
  rw [gives_perform] at hfirst
  subst hfirst
  cases answer with
  | none => exact absurd hrest gives_throw
  | some text =>
    obtain ⟨rfl,hparse⟩ := gives_orReturn.mp hrest
    exact ⟨text,rfl,hparse⟩

theorem readParquetFile_gives {path : Bytes} {table : ArrowTable}
    (h : Gives (readParquetFile path) events table) :
    events = [⟨.readParquet path,.table table⟩] := by
  obtain ⟨_,answer,_,hfirst,hrest,rfl⟩ := gives_bind.mp h
  rw [gives_perform] at hfirst
  subst hfirst
  cases answer with
  | table read =>
    obtain ⟨rfl,rfl⟩ := gives_pure.mp hrest
    rfl
  | _ => exact absurd hrest gives_throw

variable {config : ParsedSchemaConfig} {layout : CompiledRowLayout} {state state' : BuildState}

theorem foldlM_readParquetFileIntoSpec {paths : List Bytes}
    (h : Gives (paths.foldlM (readParquetFileIntoSpec config layout) state) events state') :
    (filesRead events).map Prod.fst = paths ∧
      (tablesRead events).foldlM (readTableIntoSpec config layout) state = .ok state' := by
  induction paths generalizing state events with
  | nil =>
    obtain ⟨rfl,rfl⟩ := gives_pure.mp h
    exact ⟨rfl,rfl⟩
  | cons path paths ih =>
    obtain ⟨_,mid,rest,hfirst,hrest,rfl⟩ := gives_foldlM_cons.mp h
    obtain ⟨_,table,_,hread,hspec,rfl⟩ := gives_bind.mp hfirst
    obtain ⟨rfl,htable⟩ := gives_orReturn.mp hspec
    obtain ⟨hpaths,htables⟩ := ih hrest
    rw [readParquetFile_gives hread,List.append_nil,tablesRead,filesRead_append]
    refine ⟨congrArg (List.cons path) hpaths,?_⟩
    show ((table::tablesRead rest).foldlM _ state) = _
    rw [List.foldlM_cons,htable,ok_bind]
    exact htables

end Parts

section Only

variable {α : Type} {allowed : BuildOp → Prop}

theorem only_orReturn (x : StatusOr α) : Only allowed (orReturn x) := by
  cases x with
  | error status => exact Only.throw _
  | ok a => exact Only.pure a

theorem collectParquetFilesRecursive_only (depth : ℕ) (path : Bytes) (files : List Bytes) :
    Only LooksAtPath (collectParquetFilesRecursive depth path files) := by
  induction depth generalizing path files with
  | zero => exact Only.throw _
  | succ depth ih =>
    refine Only.bind (Only.call trivial) fun answer => ?_
    cases answer with
    | regular => exact Only.pure _
    | directory =>
      refine Only.bind (Only.call trivial) fun listing => ?_
      cases listing with
      | error error => exact Only.throw _
      | ok names => exact Only.foldlM (fun files child => ih child files) _ _
    | _ => exact Only.throw _

theorem readSchemaFile_only (h : ∀ path, allowed (.readSchema path)) (path : Bytes) :
    Only allowed (readSchemaFile path) := by
  refine Only.bind (Only.call (h path)) fun answer => ?_
  cases answer with
  | none => exact Only.throw _
  | some text => exact only_orReturn _

theorem collectParquetFiles_only (depth : ℕ) (path : Bytes) :
    Only LooksAtPath (collectParquetFiles depth path) :=
  Only.bind (collectParquetFilesRecursive_only depth path []) fun _ =>
    Only.bind (only_orReturn _) fun _ => Only.pure _

theorem readParquetFileIntoSpec_only (config : ParsedSchemaConfig) (layout : CompiledRowLayout)
    (state : BuildState) (path : Bytes) :
    Only ReadsOnly (readParquetFileIntoSpec config layout state path) := by
  refine Only.bind ?_ fun _ => only_orReturn _
  refine Only.bind (Only.call trivial) fun answer => ?_
  cases answer with
  | table table => exact Only.pure _
  | _ => exact Only.throw _

theorem readInputs_only (options : BuildArtifactOptions) (depth : ℕ) :
    Only ReadsOnly (readInputs options depth) := by
  refine Only.bind (only_orReturn _) fun _ => ?_
  refine Only.bind (readSchemaFile_only (fun _ => trivial) _) fun config => ?_
  refine Only.bind (only_orReturn _) fun settings => ?_
  refine Only.bind (only_orReturn _) fun schema => ?_
  refine Only.bind ((collectParquetFiles_only _ _).mono fun _ => readsOnly_of_looksAtPath)
    fun files => ?_
  refine Only.bind (Only.foldlM (readParquetFileIntoSpec_only config _) _ _) fun state => ?_
  exact Only.pure _

/-- An operation of `MakeDirs`. -/
def MakesDirectory : BuildOp → Prop
  | .makeDirectory _ => True
  | .stat _ => True
  | _ => False

theorem makeDirs_only (path : Bytes) : Only MakesDirectory (makeDirs path) := by
  have hrequire : ∀ path, Only MakesDirectory (requireDirectory path) := by
    intro path
    refine Only.bind (Only.call trivial) fun answer => ?_
    cases answer with
    | directory => exact Only.pure _
    | _ => exact Only.throw _
  refine Only.bind (only_orReturn _) fun _ => ?_
  refine Only.bind (Only.foldlM (fun current part => ?_) _ _) fun _ => Only.pure _
  rw [makeDirsPart]
  by_cases hpart : part.isEmpty = true
  · rw [if_pos hpart]
    exact Only.pure _
  · rw [if_neg hpart]
    refine Only.bind (Only.call trivial) fun answer => ?_
    cases answer with
    | failed error => exact Only.throw _
    | made => exact hrequire _
    | alreadyThere => exact hrequire _

theorem writesOrLooks_of_makesDirectory {op : BuildOp} (h : MakesDirectory op) :
    WritesOrLooks op := by
  cases op with
  | makeDirectory path => trivial
  | stat path => trivial
  | _ => exact h.elim

theorem writeOutput_only (path contents : Bytes) (openFailed writeFailed : String) :
    Only WritesOrLooks (writeOutput path contents openFailed writeFailed) := by
  refine Only.bind (Only.call trivial) fun answer => ?_
  cases answer with
  | written => exact Only.pure _
  | _ => exact Only.throw _

theorem writeOutputs_only (options : BuildArtifactOptions) (config : ParsedSchemaConfig)
    (state : BuildState) : Only WritesOrLooks (writeOutputs options config state) := by
  refine Only.bind ((makeDirs_only _).mono fun _ => writesOrLooks_of_makesDirectory) fun _ => ?_
  refine Only.bind (writeOutput_only _ _ _ _) fun _ => ?_
  refine Only.bind (Only.forM (fun shardId => ?_) _) fun _ => Only.pure _
  exact Only.bind (only_orReturn _) fun contents => writeOutput_only _ _ _ _

end Only

section Halves

variable {options : BuildArtifactOptions} {events : List BuildEvent}

/-- What a build has read when it starts to write. -/
structure Inputs (options : BuildArtifactOptions) (tables : List ArrowTable)
    (config : ParsedSchemaConfig) (state : BuildState) (settings : BuildSettings)
    (schema : RuntimeSchema) (rows : List (List SnapshotRow)) : Prop where
  checked : checkOptions options = .ok ()
  parsed : ∃ text, parseSchemaFile text = .ok config
  chosen : buildSettings options config = .ok settings
  built : buildRuntimeSchema config settings.schemaVersion = .ok schema
  read : tables.mapM (tableRows config (compile schema)) = .ok rows
  filled : ∃ files, state = (emptyBuild options settings (compile schema) files).pushRows rows.flatten
  distinct : FirstWins.Distinct SnapshotRow.primaryKey rows.flatten

/-- The first half of a run: the schema file is read, the Parquet files are collected, and the
table of each of them is read. -/
structure InputsRead (options : BuildArtifactOptions) (depth : ℕ) (events : List BuildEvent)
    (config : ParsedSchemaConfig) (state : BuildState) : Prop where
  gives : Gives (readInputs options depth) events (config,state)
  schemaRead : ∃ text, ⟨.readSchema options.schemaPath,some text⟩ ∈ events ∧
    parseSchemaFile text = .ok config
  collected : ∃ looked, looked <:+: events ∧
    Gives (collectParquetFiles depth options.inputPath) looked state.result.parquetFiles
  filesRead : state.result.parquetFiles = (filesRead events).map Prod.fst
  inputs : ∃ settings schema rows,
    Inputs options (tablesRead events) config state settings schema rows

theorem readInputs_gives {depth : ℕ} {config : ParsedSchemaConfig} {state : BuildState}
    (h : Gives (readInputs options depth) events (config,state)) :
    InputsRead options depth events config state := by
  have hgives := h
  obtain ⟨_,_,_,hoptions,h1,rfl⟩ := gives_bind.mp h
  obtain ⟨rfl,hchecked⟩ := gives_orReturn.mp hoptions
  obtain ⟨_,config',_,htext,h2,rfl⟩ := gives_bind.mp h1
  obtain ⟨text,rfl,hparse⟩ := readSchemaFile_gives htext
  obtain ⟨_,settings,_,hchosen,h3,rfl⟩ := gives_bind.mp h2
  obtain ⟨rfl,hsettings⟩ := gives_orReturn.mp hchosen
  obtain ⟨_,schema,_,hbuilt,h4,rfl⟩ := gives_bind.mp h3
  obtain ⟨rfl,hschema⟩ := gives_orReturn.mp hbuilt
  obtain ⟨collected,files,_,hfiles,h5,rfl⟩ := gives_bind.mp h4
  obtain ⟨_,state',_,htables,h6,rfl⟩ := gives_bind.mp h5
  obtain ⟨rfl,heq⟩ := gives_pure.mp h6
  cases heq
  have hlooked : filesRead collected = [] := filesRead_writesOrLooks fun event hevent =>
    writesOrLooks_of_looksAtPath ((collectParquetFiles_only _ _).emits hfiles event hevent)
  obtain ⟨hpaths,hread⟩ := foldlM_readParquetFileIntoSpec htables
  obtain ⟨rows,hrows,rfl,hnodup⟩ := (foldlM_readTableIntoSpec List.nodup_nil).mp hread
  rw [BuildState.pushRows_seen,emptyBuild,List.append_nil,List.nodup_reverse] at hnodup
  have hparquet : ((emptyBuild options settings (compile schema) files).pushRows
      rows.flatten).result.parquetFiles = files := by
    rw [BuildState.pushRows_result]
    rfl
  refine ⟨hgives,⟨text,List.mem_cons_self,hparse⟩,⟨collected,?_,hparquet.symm ▸ hfiles⟩,?_,
    settings,schema,rows,hchecked,⟨text,hparse⟩,hsettings,hschema,?_,⟨files,rfl⟩,hnodup⟩
  · simp only [List.nil_append,List.append_nil]
    exact (List.prefix_append collected _).isInfix.trans (List.suffix_cons _ _).isInfix
  · rw [hparquet,← hpaths]
    simp only [filesRead_append,hlooked,List.append_nil,List.nil_append]
    rfl
  · simp only [tablesRead,filesRead_append,hlooked,List.append_nil,List.nil_append]
    exact hrows

theorem writeOutput_gives {path contents : Bytes} {openFailed writeFailed : String} {u : Unit}
    (h : Gives (writeOutput path contents openFailed writeFailed) events u) :
    events = [⟨.writeFile path contents,.written⟩] := by
  obtain ⟨_,answer,_,hfirst,hrest,rfl⟩ := gives_bind.mp h
  rw [gives_perform] at hfirst
  subst hfirst
  cases answer with
  | written =>
    obtain ⟨rfl,-⟩ := gives_pure.mp hrest
    rfl
  | _ => exact absurd hrest gives_throw

def shardFiles (options : BuildArtifactOptions) (shardIds : List ℕ) (contents : List Bytes) :
    List (Bytes×Bytes) :=
  (shardIds.map fun shardId => shardFilePath options (UInt32.ofNat shardId)).zip contents

theorem forM_writeShard {spec : ArtifactBuildSpec} {shardIds : List ℕ} {u : Unit}
    (h : Gives (shardIds.forM fun shardId => writeShard options spec (UInt32.ofNat shardId))
      events u) :
    ∃ contents, shardIds.mapM (fun shardId => writeArtifactShard spec (UInt32.ofNat shardId)) =
        .ok contents ∧
      filesWritten events = shardFiles options shardIds contents ∧ filesRead events = [] := by
  induction shardIds generalizing events with
  | nil =>
    obtain ⟨rfl,-⟩ := gives_pure.mp h
    exact ⟨[],rfl,rfl,rfl⟩
  | cons shardId shardIds ih =>
    obtain ⟨_,rest,hfirst,hrest,rfl⟩ := gives_forM_cons.mp h
    obtain ⟨_,bytes,_,hcontents,hwrite,rfl⟩ := gives_bind.mp hfirst
    obtain ⟨rfl,hbytes⟩ := gives_orReturn.mp hcontents
    obtain ⟨contents,hothers,hfiles,htables⟩ := ih hrest
    rw [writeOutput_gives hwrite,List.nil_append,filesWritten_append,filesRead_append,hfiles,htables]
    refine ⟨bytes::contents,?_,rfl,rfl⟩
    rw [List.mapM_cons,hbytes,ok_bind,hothers]
    rfl

theorem writeOutputs_gives {config : ParsedSchemaConfig} {state : BuildState}
    {result : BuildArtifactResult} (h : Gives (writeOutputs options config state) events result) :
    result = state.result ∧ filesRead events = [] ∧
      ∃ contents, (List.range result.shardCount.toNat).mapM (fun shardId =>
          writeArtifactShard state.spec (UInt32.ofNat shardId)) = .ok contents ∧
        filesWritten events = (schemaFilePath options,writeSchemaFile config result.schemaVersion
          result.shardCount result.hashSeed result.hashVersion)::
            shardFiles options (List.range result.shardCount.toNat) contents := by
  obtain ⟨made,_,_,hdirs,h1,rfl⟩ := gives_bind.mp h
  obtain ⟨_,_,_,hschema,h2,rfl⟩ := gives_bind.mp h1
  obtain ⟨written,_,_,hshards,h3,rfl⟩ := gives_bind.mp h2
  obtain ⟨rfl,rfl⟩ := gives_pure.mp h3
  obtain ⟨contents,hcontents,hfiles,htables⟩ := forM_writeShard hshards
  have honly := (makeDirs_only _).emits hdirs
  have hmade : filesRead made = [] := filesRead_writesOrLooks fun event hevent =>
    writesOrLooks_of_makesDirectory (honly event hevent)
  have hnone : filesWritten made = [] := by
    rw [filesWritten,List.filterMap_eq_nil_iff]
    rintro ⟨op,answer⟩ hevent
    have hop := honly _ hevent
    cases op with
    | writeFile path contents => exact hop.elim
    | _ => rfl
  rw [writeOutput_gives hschema]
  refine ⟨rfl,?_,contents,hcontents,?_⟩
  · rw [filesRead_append,filesRead_append,filesRead_append,hmade,htables]
    rfl
  · rw [filesWritten_append,filesWritten_append,filesWritten_append,hnone,hfiles]
    exact congrArg (List.cons _) (List.append_nil _)

theorem Inputs.spec {tables : List ArrowTable} {config : ParsedSchemaConfig} {state : BuildState}
    {settings : BuildSettings} {schema : RuntimeSchema} {rows : List (List SnapshotRow)}
    (h : Inputs options tables config state settings schema rows) :
    BuildState.SameSettings (emptyBuild options settings (compile schema) []).spec state.spec := by
  obtain ⟨files,rfl⟩ := h.filled
  exact BuildState.pushRows_settings (emptyBuild options settings (compile schema) files) _

end Halves

/-- A build leaves the file system as it is until all rows of all tables are in their shards, and
then it reads no more tables; this holds of every run, wherever it stops. -/
theorem nothing_written_before_inputs (options : BuildArtifactOptions) (depth : ℕ)
    (events : List BuildEvent) (out : Option (Except (Option Status) BuildArtifactResult))
    (h : Emits (buildArtifactDirectory options depth).run events out) :
    (∀ event ∈ events, ReadsOnly event.1) ∨
      ∃ first second config state, events = first++second ∧
        (∀ event ∈ first, ReadsOnly event.1) ∧ InputsRead options depth first config state ∧
        (∀ event ∈ second, WritesOrLooks event.1) ∧
        Emits (writeOutputs options config state).run second out := by
  rcases Emits.bindOr_cases h with ⟨out',hfirst⟩ | ⟨first,⟨config,state⟩,second,hfirst,hsecond,rfl⟩
  · exact Or.inl ((readInputs_only options depth).emits hfirst)
  · exact Or.inr ⟨first,second,config,state,rfl,(readInputs_only options depth).emits hfirst,
      readInputs_gives hfirst,(writeOutputs_only options config state).emits hsecond,hsecond⟩

/-- A schema with one optional field, and a table with a row for each of two shards. -/
def sampleText : Bytes := ascii
  "schema_version: 1\nprimary_key:\n  name: k\n  type: uint64\nfields:\n  - field_id: 1\n    name: v\n    type: uint64\n    is_list: false\n    nullable: true\n    encoding: fixed\n"

def sampleTable : ArrowTable where
  numRows := 2
  columns := [([107],[.flat (.uint64 [some 7,some 5])]),([118],[.flat (.uint64 [some 5,none])])]
  rows := by decide

def sampleOptions : BuildArtifactOptions where
  schemaPath := [115]
  inputPath := ascii "t.parquet"
  outputPath := [111]
  artifactId := [97]
  shardCount := some 2

def sampleBuildAnswer : (op : BuildOp) → Unit → BuildRes op×Unit
  | .readSchema _, world => (some sampleText,world)
  | .stat path, world => (if path = [111] then .directory else .regular,world)
  | .openDirectory _, world => (.ok [],world)
  | .readParquet _, world => (.table sampleTable,world)
  | .makeDirectory _, world => (.made,world)
  | .writeFile _ _, world => (.written,world)

def sampleBuildEvents : List BuildEvent :=
  (buildArtifactDirectory sampleOptions 1).run.trace sampleBuildAnswer ()

def sampleBuild : Except (Option Status) BuildArtifactResult :=
  ((buildArtifactDirectory sampleOptions 1).run.run sampleBuildAnswer ()).1

theorem nothing_written_sample :
    ∃ first second config state, sampleBuildEvents = first++second ∧
      (∀ event ∈ first, ReadsOnly event.1) ∧ InputsRead sampleOptions 1 first config state ∧
      filesWritten second ≠ [] := by
  have hwritten : filesWritten sampleBuildEvents ≠ [] := by decide +kernel
  rcases nothing_written_before_inputs sampleOptions 1 sampleBuildEvents _
    (trace_emits sampleBuildAnswer _ ()) with hreads | ⟨first,second,config,state,heq,hfirst,hread,-,-⟩
  · exact absurd (filesWritten_readsOnly hreads) hwritten
  · rw [heq,filesWritten_append,filesWritten_readsOnly hfirst] at hwritten
    exact ⟨first,second,config,state,heq,hfirst,hread,hwritten⟩

end Offline
end KvIndex
