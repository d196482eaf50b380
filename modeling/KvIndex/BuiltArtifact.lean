import KvIndex.ArtifactRoundTrip
import KvIndex.BuildRun

/-! What a successful build has put on disk. Its result counts the rows of the tables, its files
have names of their own, and the file of a shard holds the rows whose keys go there. -/
namespace KvIndex
namespace Offline

open Base Schema CompiledRowLayout Model Artifact Prog

def tableKey (config : ParsedSchemaConfig) (table : ArrowTable) (rowIndex : ℕ) : StatusOr UInt64 :=
  match table.getColumnByName config.primaryKeyName with
  | none => .error (.invalidArgument "parquet table is missing primary key column")
  | some column => readPrimaryKey column rowIndex config.primaryKeyName

def tableKeys (config : ParsedSchemaConfig) (table : ArrowTable) : StatusOr (List UInt64) :=
  (List.range table.numRows).mapM (tableKey config table)

/-- A row of one of the tables has the key. -/
def HasKey (config : ParsedSchemaConfig) (tables : List ArrowTable) (table : ArrowTable)
    (rowIndex : ℕ) (key : UInt64) : Prop :=
  table ∈ tables ∧ rowIndex < table.numRows ∧ tableKey config table rowIndex = .ok key

theorem mapM_map_eq_ok {α β γ : Type} {f : α → StatusOr β} {g : α → StatusOr γ} {k : β → γ}
    (hfg : ∀ a b, f a = .ok b → g a = .ok (k b)) {as : List α} {bs : List β}
    (h : as.mapM f = .ok bs) : as.mapM g = .ok (bs.map k) := by
  rw [mapM_eq_ok,List.forall₂_map_right_iff]
  exact (mapM_eq_ok.mp h).imp fun a b hab => hfg a b hab

section Rows

variable {config : ParsedSchemaConfig} {layout : CompiledRowLayout} {table : ArrowTable}

theorem tableRow_eq_ok {columns : TableColumns} {rowIndex : ℕ} {row : SnapshotRow} :
    tableRow config layout columns rowIndex = .ok row ↔
      readPrimaryKey columns.primaryKey rowIndex config.primaryKeyName = .ok row.primaryKey ∧
      ∃ values, readRowValues layout columns rowIndex = .ok values ∧
        encodeRow layout (emplaced values) = .ok row.encoded := by
  simp only [tableRow,bind_eq_ok,pure_eq_ok,Except.ok.injEq]
  constructor
  · rintro ⟨key,hkey,values,hvalues,encoded,hencoded,rfl⟩
    exact ⟨hkey,values,hvalues,hencoded⟩
  · rintro ⟨hkey,values,hvalues,hencoded⟩
    exact ⟨_,hkey,values,hvalues,_,hencoded,rfl⟩

variable (hdistinct : (layout.fields.map FieldLayout.fieldId).Nodup)

include hdistinct

theorem tableRows_keys {rows : List SnapshotRow} (h : tableRows config layout table = .ok rows) :
    tableKeys config table = .ok (rows.map SnapshotRow.primaryKey) := by
  obtain ⟨columns,hcolumns,hrows⟩ := bind_eq_ok.mp h
  obtain ⟨hcolumn,-,-⟩ := resolveTableColumns_eq_ok hdistinct hcolumns
  refine mapM_map_eq_ok ?_ hrows
  intro rowIndex row hrow
  rw [tableKey,hcolumn]
  exact (tableRow_eq_ok.mp hrow).1

end Rows

theorem buildRuntimeSchema_eq_ok {config : ParsedSchemaConfig} {version : UInt64}
    {schema : RuntimeSchema} (h : buildRuntimeSchema config version = .ok schema) :
    schema.Reachable ∧ schema.activeFields = config.fields ∧ schema.version = version := by
  have hfold : ∀ (fields : List FieldSpec) (start schema : RuntimeSchema), start.Reachable →
      fields.foldlM RuntimeSchema.addField start = .ok schema →
      schema.Reachable ∧ schema.activeFields = start.activeFields++fields ∧
        schema.version = start.version := by
    intro fields
    induction fields with
    | nil =>
      rintro start _ hstart ⟨⟩
      exact ⟨hstart,(List.append_nil _).symm,rfl⟩
    | cons field fields ih =>
      intro start schema hstart hrun
      rw [List.foldlM_cons] at hrun
      obtain ⟨next,hadd,hrest⟩ := bind_eq_ok.mp hrun
      obtain ⟨hreachable,hfields,hversion⟩ := ih next schema (.addField hstart hadd) hrest
      simp only [RuntimeSchema.addField,bind_eq_ok,failIf_eq_ok,exists_const,pure_eq_ok,
        Except.ok.injEq] at hadd
      obtain ⟨-,_,-,rfl⟩ := hadd
      exact ⟨hreachable,by rw [hfields,List.append_assoc]; rfl,hversion⟩
  exact hfold config.fields { version } schema (.create version) h

section Built

variable {options : BuildArtifactOptions} {tables : List ArrowTable} {config : ParsedSchemaConfig}
  {state : BuildState} {settings : BuildSettings} {schema : RuntimeSchema}
  {rows : List (List SnapshotRow)}

theorem Inputs.readable (h : Inputs options tables config state settings schema rows) :
    Artifact.Readable state.spec schema := by
  obtain ⟨text,hparse⟩ := h.parsed
  obtain ⟨-,hspecs,hne⟩ := parseSchemaFile_spec hparse
  obtain ⟨hreachable,hfields,-⟩ := buildRuntimeSchema_eq_ok h.built
  refine ⟨h.spec.layout,hreachable,?_,?_,?_⟩
  · rw [hfields]
    exact hne
  · intro field hfield
    rw [hfields] at hfield
    exact (hspecs field hfield).noDefault
  · rw [h.spec.progress]
    exact ⟨fun entry hentry => absurd hentry List.not_mem_nil,List.nodup_nil⟩

theorem Inputs.shardOf_eq (h : Inputs options tables config state settings schema rows)
    (key : UInt64) : shardOf state.spec key =
      (stableHash64 key settings.hashSeed settings.hashVersion).toNat &&&
        (settings.shardCount.toNat-1) := by
  rw [h.spec.shardOf]
  rfl

theorem Inputs.shardCount_pos (h : Inputs options tables config state settings schema rows) :
    0 < settings.shardCount.toNat := by
  have hchosen := h.chosen
  simp only [buildSettings,bind_eq_ok,failIf_eq_ok,exists_const,Bool.not_eq_eq_eq_not,
    Bool.not_false,pure_eq_ok,Except.ok.injEq] at hchosen
  obtain ⟨hpower,-,-,rfl⟩ := hchosen
  obtain ⟨k,hk⟩ := isPowerOfTwo_iff.mp hpower
  show 0 < (options.shardCount.getD (config.shardCount.getD 128)).toNat
  rw [hk]
  exact Nat.two_pow_pos k

theorem Inputs.shardOf_lt (h : Inputs options tables config state settings schema rows)
    (key : UInt64) : shardOf state.spec key < settings.shardCount.toNat := by
  have hpos := h.shardCount_pos
  have hle : (stableHash64 key settings.hashSeed settings.hashVersion).toNat &&&
      (settings.shardCount.toNat-1) ≤ settings.shardCount.toNat-1 := Nat.and_le_right
  rw [h.shardOf_eq]
  omega

/-- Shard `i` of the spec has the rows whose keys go there. -/
theorem Inputs.shard (h : Inputs options tables config state settings schema rows) {i : ℕ}
    (hi : i < settings.shardCount.toNat) :
    state.spec.shards[i]? = some { shardId := UInt32.ofNat i
                                   rows := BuildState.rowsIn state.spec rows.flatten i } := by
  obtain ⟨files,rfl⟩ := h.filled
  rw [BuildState.pushRows_shards,BuildState.rowsIn_congr (BuildState.pushRows_settings _ _)]
  have hstart : (emptyBuild options settings (compile schema) files).spec.shards[i]? =
      some { shardId := UInt32.ofNat i } := by
    rw [emptyBuild,List.getElem?_map,List.getElem?_range hi]
    rfl
  rw [hstart]
  rfl

theorem Inputs.shard_of_mem (h : Inputs options tables config state settings schema rows)
    {shard : ArtifactShardBuildSpec} (hshard : shard ∈ state.spec.shards) :
    ∃ i < settings.shardCount.toNat, shard = { shardId := UInt32.ofNat i
                                               rows := BuildState.rowsIn state.spec rows.flatten i } := by
  obtain ⟨i,hi⟩ := List.mem_iff_getElem?.mp hshard
  have hlt : i < settings.shardCount.toNat := by
    by_contra hge
    obtain ⟨files,rfl⟩ := h.filled
    rw [BuildState.pushRows_shards,Option.map_eq_some_iff] at hi
    obtain ⟨start,hstart,-⟩ := hi
    rw [emptyBuild,List.getElem?_map,Option.map_eq_some_iff] at hstart
    obtain ⟨j,hj,-⟩ := hstart
    rw [List.getElem?_eq_none (by rw [List.length_range]; omega)] at hj
    cases hj
  rw [h.shard hlt,Option.some.injEq] at hi
  exact ⟨i,hlt,hi.symm⟩

theorem Inputs.writeArtifactShard_eq_ok (h : Inputs options tables config state settings schema rows)
    {i : ℕ} (hi : i < settings.shardCount.toNat) {bytes : Bytes}
    (hwrite : writeArtifactShard state.spec (UInt32.ofNat i) = .ok bytes) :
    writeArtifactWithShards state.spec [{ shardId := UInt32.ofNat i
                                          rows := BuildState.rowsIn state.spec rows.flatten i }] =
      .ok bytes := by
  rw [writeArtifactShard] at hwrite
  split at hwrite
  · cases hwrite
  · rename_i shard hfind
    obtain ⟨j,hj,rfl⟩ := h.shard_of_mem (List.mem_of_find?_eq_some hfind)
    have hid : UInt32.ofNat j = UInt32.ofNat i := by simpa using List.find?_some hfind
    have hlt := settings.shardCount.toNat_lt
    have hsame : j = i := by
      rw [← UInt32.toNat_ofNat_of_lt' (show j < 2^32 by omega),hid,
        UInt32.toNat_ofNat_of_lt' (show i < 2^32 by omega)]
    rw [← hsame]
    exact hwrite

theorem Inputs.keys (h : Inputs options tables config state settings schema rows) :
    tables.mapM (tableKeys config) = .ok (rows.map fun rows => rows.map SnapshotRow.primaryKey) := by
  obtain ⟨hreachable,-,-⟩ := buildRuntimeSchema_eq_ok h.built
  refine mapM_map_eq_ok ?_ h.read
  intro table rows hrows
  exact tableRows_keys (fieldIds_nodup hreachable) hrows

theorem Inputs.settings_eq (h : Inputs options tables config state settings schema rows) :
    state.result.shardCount = settings.shardCount ∧ state.result.hashSeed = settings.hashSeed ∧
      state.result.hashVersion = settings.hashVersion ∧
      state.result.schemaVersion = settings.schemaVersion := by
  obtain ⟨files,rfl⟩ := h.filled
  rw [BuildState.pushRows_result]
  exact ⟨rfl,rfl,rfl,rfl⟩

def keyShard (result : BuildArtifactResult) (key : UInt64) : ℕ :=
  (stableHash64 key result.hashSeed result.hashVersion).toNat &&& (result.shardCount.toNat-1)

theorem Inputs.keyShard_eq (h : Inputs options tables config state settings schema rows)
    (key : UInt64) : keyShard state.result key = shardOf state.spec key := by
  obtain ⟨hcount,hseed,hversion,-⟩ := h.settings_eq
  rw [keyShard,hcount,hseed,hversion,h.shardOf_eq]

theorem Inputs.rowCount (h : Inputs options tables config state settings schema rows) :
    state.result.rowCount = rows.flatten.length := by
  obtain ⟨files,rfl⟩ := h.filled
  rw [BuildState.pushRows_result]
  exact Nat.zero_add _

theorem Inputs.rowsPerShard (h : Inputs options tables config state settings schema rows) :
    state.result.rowsPerShard = (List.range settings.shardCount.toNat).map fun shardId =>
      (BuildState.rowsIn state.spec rows.flatten shardId).length := by
  obtain ⟨files,rfl⟩ := h.filled
  apply List.ext_getElem?
  intro i
  simp only [BuildState.pushRows_rowsPerShard,
    BuildState.rowsIn_congr (BuildState.pushRows_settings _ rows.flatten)]
  rcases Nat.lt_or_ge i settings.shardCount.toNat with hi | hi
  · rw [List.getElem?_map,List.getElem?_range hi]
    simp [emptyBuild,hi]
  · simp [emptyBuild,hi]

theorem sum_countP {α : Type} (home : α → ℕ) (n : ℕ) {l : List α} (h : ∀ a ∈ l, home a < n) :
    ((List.range n).map fun i => l.countP fun a => home a = i).sum = l.length := by
  induction l with
  | nil => simp
  | cons a l ih =>
    obtain ⟨ha,hl⟩ := List.forall_mem_cons.mp h
    have hone : ((List.range n).map fun i => if home a = i then 1 else 0).sum = 1 := by
      have hfin := Finset.sum_ite_eq (Finset.range n) (home a) fun _ => 1
      rw [if_pos (Finset.mem_range.mpr ha)] at hfin
      exact hfin
    simp only [List.countP_cons,decide_eq_true_eq]
    rw [List.sum_map_add,ih hl,hone]
    rfl

end Built

theorem outputPaths_nodup (options : BuildArtifactOptions) {n : ℕ} (hn : n ≤ 2^32) :
    (schemaFilePath options::(List.range n).map fun shardId =>
      shardFilePath options (UInt32.ofNat shardId)).Nodup := by
  refine List.nodup_cons.mpr ⟨?_,?_⟩
  · intro hmem
    obtain ⟨shardId,-,hpath⟩ := List.mem_map.mp hmem
    have hname := joinPath_injective options.outputPath hpath
    have hlast := congrArg List.getLast? hname
    rw [shardFileName,List.getLast?_append,List.getLast?_append] at hlast
    cases hlast
  · refine List.Nodup.map_on ?_ List.nodup_range
    intro i hi j hj hpath
    have hi := List.mem_range.mp hi
    have hj := List.mem_range.mp hj
    have hid := shardFileName_injective (joinPath_injective options.outputPath hpath)
    rw [← UInt32.toNat_ofNat_of_lt' (show i < 2^32 by omega),hid,
      UInt32.toNat_ofNat_of_lt' (show j < 2^32 by omega)]

theorem buildArtifactDirectory_gives {options : BuildArtifactOptions} {depth : ℕ}
    {events : List BuildEvent} {result : BuildArtifactResult}
    (h : Gives (buildArtifactDirectory options depth) events result) :
    ∃ text config state settings schema rows contents,
      ⟨.readSchema options.schemaPath,some text⟩ ∈ events ∧ parseSchemaFile text = .ok config ∧
      Inputs options (tablesRead events) config state settings schema rows ∧
      result = state.result ∧ result.parquetFiles = (filesRead events).map Prod.fst ∧
      (List.range result.shardCount.toNat).mapM (fun shardId =>
        writeArtifactShard state.spec (UInt32.ofNat shardId)) = .ok contents ∧
      filesWritten events = (schemaFilePath options,writeSchemaFile config result.schemaVersion
        result.shardCount result.hashSeed result.hashVersion)::
          shardFiles options (List.range result.shardCount.toNat) contents := by
  obtain ⟨first,⟨config,state⟩,second,hread,hwrite,rfl⟩ := gives_bind.mp h
  have hfirst := readInputs_gives hread
  obtain ⟨settings,schema,rows,hinputs⟩ := hfirst.inputs
  obtain ⟨text,htext,hparse⟩ := hfirst.schemaRead
  obtain ⟨rfl,hnone,contents,hcontents,hwritten⟩ := writeOutputs_gives hwrite
  have hquiet : filesWritten first = [] :=
    filesWritten_readsOnly ((readInputs_only options depth).emits hread)
  have hreads : filesRead (first++second) = filesRead first := by
    rw [filesRead_append,hnone,List.append_nil]
  refine ⟨text,config,state,settings,schema,rows,contents,List.mem_append_left _ htext,hparse,?_,rfl,
    ?_,hcontents,?_⟩
  · rw [tablesRead,hreads]
    exact hinputs
  · rw [hreads]
    exact hfirst.filesRead
  · rw [filesWritten_append,hquiet,List.nil_append,hwritten]

theorem writtenPaths_eq {options : BuildArtifactOptions} {depth : ℕ} {events : List BuildEvent}
    {result : BuildArtifactResult} (h : Gives (buildArtifactDirectory options depth) events result) :
    (filesWritten events).map Prod.fst = schemaFilePath options::
      (List.range result.shardCount.toNat).map fun shardId =>
        shardFilePath options (UInt32.ofNat shardId) := by
  obtain ⟨_,_,_,_,_,_,contents,-,-,-,-,-,hcontents,hwritten⟩ := buildArtifactDirectory_gives h
  have hlength := (mapM_eq_ok.mp hcontents).length_eq
  rw [hwritten,List.map_cons,shardFiles,List.map_fst_zip (by rw [List.length_map,hlength])]

theorem writtenPaths_nodup {options : BuildArtifactOptions} {depth : ℕ} {events : List BuildEvent}
    {result : BuildArtifactResult} (h : Gives (buildArtifactDirectory options depth) events result) :
    ((filesWritten events).map Prod.fst).Nodup := by
  rw [writtenPaths_eq h]
  exact outputPaths_nodup options (result.shardCount.toNat_lt).le

/-- What a build reports. It has read a schema file and the tables of `parquetFiles`, no key stands
twice in them, its counts are those of their keys, and it has written the schema file and the
files of all shards, each once. -/
theorem buildArtifactDirectory_reports (options : BuildArtifactOptions) (depth : ℕ)
    (events : List BuildEvent) (result : BuildArtifactResult)
    (h : Gives (buildArtifactDirectory options depth) events result) :
    ∃ text config keys, ⟨.readSchema options.schemaPath,some text⟩ ∈ events ∧
      parseSchemaFile text = .ok config ∧
      result.parquetFiles = (filesRead events).map Prod.fst ∧
      (tablesRead events).mapM (tableKeys config) = .ok keys ∧ keys.flatten.Nodup ∧
      result.rowCount = keys.flatten.length ∧
      result.rowsPerShard = ((List.range result.shardCount.toNat).map fun shardId =>
        keys.flatten.countP fun key => keyShard result key = shardId) ∧
      result.rowsPerShard.sum = result.rowCount ∧
      (filesWritten events).map Prod.fst = (schemaFilePath options::
        (List.range result.shardCount.toNat).map fun shardId =>
          shardFilePath options (UInt32.ofNat shardId)) ∧
      ((filesWritten events).map Prod.fst).Nodup := by
  obtain ⟨text,config,state,settings,schema,rows,contents,htext,hparse,hinputs,rfl,hfiles,-,-⟩ :=
    buildArtifactDirectory_gives h
  obtain ⟨hcount,-,-,-⟩ := hinputs.settings_eq
  have hkeys : (rows.map fun rows => rows.map SnapshotRow.primaryKey).flatten =
      rows.flatten.map SnapshotRow.primaryKey := List.map_flatten.symm
  have hshards : state.result.rowsPerShard =
      (List.range state.result.shardCount.toNat).map fun shardId =>
        (rows.flatten.map SnapshotRow.primaryKey).countP fun key =>
          keyShard state.result key = shardId := by
    rw [hinputs.rowsPerShard,hcount]
    refine List.map_congr_left fun shardId _ => ?_
    rw [BuildState.rowsIn,← List.countP_eq_length_filter,List.countP_map]
    simp only [Function.comp_def,hinputs.keyShard_eq]
  refine ⟨text,config,rows.map fun rows => rows.map SnapshotRow.primaryKey,htext,hparse,hfiles,
    hinputs.keys,?_,?_,?_,?_,writtenPaths_eq h,writtenPaths_nodup h⟩
  · rw [hkeys]
    exact hinputs.distinct
  · rw [hkeys,List.length_map]
    exact hinputs.rowCount
  · rw [hkeys]
    exact hshards
  · rw [hshards,hinputs.rowCount,sum_countP,List.length_map]
    intro key hkey
    rw [hinputs.keyShard_eq,hcount]
    exact hinputs.shardOf_lt key

def sampleResult : BuildArtifactResult := sampleBuild.toOption.getD {}

theorem sampleBuild_evaluated :
    sampleBuild.toOption.map (fun result => (result.shardCount,result.hashSeed,result.hashVersion,
        result.schemaVersion)) = some (2,0,1,2) ∧
      (filesWritten sampleBuildEvents).map (fun file => file.2.length) = [214,1153,1153] := by
  decide +kernel

theorem sampleBuild_gives :
    Gives (buildArtifactDirectory sampleOptions 1) sampleBuildEvents sampleResult := by
  have hevaluated := sampleBuild_evaluated.1
  have hemits := trace_emits sampleBuildAnswer (buildArtifactDirectory sampleOptions 1).run ()
  have hresult : sampleBuild = .ok sampleResult := by
    rw [sampleResult]
    cases hbuild : sampleBuild with
    | error status =>
      rw [hbuild] at hevaluated
      cases hevaluated
    | ok result => rfl
  rw [← sampleBuild,hresult] at hemits
  exact hemits

theorem sampleResult_settings : sampleResult.shardCount = 2 ∧ sampleResult.hashSeed = 0 ∧
    sampleResult.hashVersion = 1 ∧ sampleResult.schemaVersion = 2 := by
  obtain ⟨result,hsome,hresult⟩ := Option.map_eq_some_iff.mp sampleBuild_evaluated.1
  have hsample : sampleResult = result := by
    rw [sampleResult,hsome]
    rfl
  rw [hsample]
  simpa only [Prod.mk.injEq] using hresult

theorem buildArtifactDirectory_reports_sample :
    sampleResult.rowsPerShard.sum = sampleResult.rowCount ∧
      ((filesWritten sampleBuildEvents).map Prod.fst).Nodup := by
  obtain ⟨-,-,-,-,-,-,-,-,-,-,hsum,-,hnodup⟩ :=
    buildArtifactDirectory_reports sampleOptions 1 sampleBuildEvents sampleResult sampleBuild_gives
  exact ⟨hsum,hnodup⟩

end Offline
end KvIndex
