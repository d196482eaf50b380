import KvIndex.TableRows

/-! The rows that a build collects. The loops over tables and rows put every row into the shard of
its key, and stop at the first key that comes back. -/
namespace KvIndex
namespace Offline

open Base Schema CompiledRowLayout Model Artifact

def tableRow (config : ParsedSchemaConfig) (layout : CompiledRowLayout) (columns : TableColumns)
    (rowIndex : ℕ) : StatusOr SnapshotRow := do
  let primaryKey ← readPrimaryKey columns.primaryKey rowIndex config.primaryKeyName
  let values ← readRowValues layout columns rowIndex
  let encoded ← encodeRow layout (emplaced values)
  return { primaryKey,encoded }

def tableRows (config : ParsedSchemaConfig) (layout : CompiledRowLayout) (table : ArrowTable) :
    StatusOr (List SnapshotRow) := do
  let columns ← resolveTableColumns table config layout
  (List.range table.numRows).mapM (tableRow config layout columns)

namespace BuildState

def routeRow (state : BuildState) (row : SnapshotRow) : BuildState :=
  state.pushRow (shardOf state.spec row.primaryKey) row

def pushRows (state : BuildState) (rows : List SnapshotRow) : BuildState :=
  rows.foldl routeRow state

theorem pushRows_append (state : BuildState) (rows rows' : List SnapshotRow) :
    state.pushRows (rows++rows') = (state.pushRows rows).pushRows rows' :=
  List.foldl_append

theorem pushRows_seen (state : BuildState) (rows : List SnapshotRow) :
    (state.pushRows rows).seen = (rows.map SnapshotRow.primaryKey).reverse++state.seen := by
  induction rows generalizing state with
  | nil => rfl
  | cons row rows ih =>
    rw [pushRows,List.foldl_cons,← pushRows,ih,List.map_cons,List.reverse_cons,List.append_assoc]
    rfl

theorem nodup_of_pushRows {state : BuildState} {rows : List SnapshotRow}
    (h : (state.pushRows rows).seen.Nodup) : state.seen.Nodup := by
  rw [pushRows_seen] at h
  exact h.of_append_right

end BuildState

section Rows

variable {config : ParsedSchemaConfig} {layout : CompiledRowLayout} {columns : TableColumns}
  {state state' : BuildState}

theorem readRow_eq_ok {rowIndex : ℕ} :
    readRow config layout columns state rowIndex = .ok state' ↔
      ∃ row, tableRow config layout columns rowIndex = .ok row ∧
        row.primaryKey ∉ state.seen ∧ state' = state.routeRow row := by
  simp only [readRow,tableRow,bind_eq_ok,failIf_eq_ok,exists_const,pure_eq_ok,Except.ok.injEq,
    List.contains_eq_mem,decide_eq_false_iff_not]
  constructor
  · rintro ⟨key,hkey,hnew,values,hvalues,encoded,hencoded,rfl⟩
    exact ⟨⟨key,encoded⟩,⟨key,hkey,values,hvalues,encoded,hencoded,rfl⟩,hnew,rfl⟩
  · rintro ⟨_,⟨key,hkey,values,hvalues,encoded,hencoded,rfl⟩,hnew,rfl⟩
    exact ⟨key,hkey,hnew,values,hvalues,encoded,hencoded,rfl⟩

/-- The row loop: it collects the rows, as long as no key comes back. -/
theorem foldlM_readRow {indices : List ℕ} (hseen : state.seen.Nodup) :
    indices.foldlM (readRow config layout columns) state = .ok state' ↔
      ∃ rows, indices.mapM (tableRow config layout columns) = .ok rows ∧
        state' = state.pushRows rows ∧ state'.seen.Nodup := by
  induction indices generalizing state with
  | nil =>
    simp only [List.foldlM_nil,List.mapM_nil,pure_eq_ok,Except.ok.injEq]
    constructor
    · rintro rfl
      exact ⟨[],rfl,rfl,hseen⟩
    · rintro ⟨_,rfl,rfl,-⟩
      rfl
  | cons index indices ih =>
    simp only [List.foldlM_cons,List.mapM_cons,bind_eq_ok,readRow_eq_ok,pure_eq_ok,Except.ok.injEq]
    constructor
    · rintro ⟨_,⟨row,hrow,hnew,rfl⟩,hrest⟩
      have hnext : (state.routeRow row).seen.Nodup := List.nodup_cons.mpr ⟨hnew,hseen⟩
      obtain ⟨rows,hrows,rfl,hnodup⟩ := (ih hnext).mp hrest
      exact ⟨row::rows,⟨row,hrow,rows,hrows,rfl⟩,rfl,hnodup⟩
    · rintro ⟨_,⟨row,hrow,rows,hrows,rfl⟩,rfl,hnodup⟩
      have hnext : (state.routeRow row).seen.Nodup := BuildState.nodup_of_pushRows hnodup
      exact ⟨_,⟨row,hrow,(List.nodup_cons.mp hnext).1,rfl⟩,
        (ih hnext).mpr ⟨rows,hrows,rfl,hnodup⟩⟩

theorem readTableIntoSpec_eq_ok {table : ArrowTable} (hseen : state.seen.Nodup) :
    readTableIntoSpec config layout state table = .ok state' ↔
      ∃ rows, tableRows config layout table = .ok rows ∧
        state' = state.pushRows rows ∧ state'.seen.Nodup := by
  simp only [readTableIntoSpec,tableRows,bind_eq_ok,foldlM_readRow hseen]
  constructor
  · rintro ⟨columns,hcolumns,rows,hrows,hstate⟩
    exact ⟨rows,⟨columns,hcolumns,hrows⟩,hstate⟩
  · rintro ⟨rows,⟨columns,hcolumns,hrows⟩,hstate⟩
    exact ⟨columns,hcolumns,rows,hrows,hstate⟩

theorem foldlM_readTableIntoSpec {tables : List ArrowTable} (hseen : state.seen.Nodup) :
    tables.foldlM (readTableIntoSpec config layout) state = .ok state' ↔
      ∃ rows, tables.mapM (tableRows config layout) = .ok rows ∧
        state' = state.pushRows rows.flatten ∧ state'.seen.Nodup := by
  induction tables generalizing state with
  | nil =>
    simp only [List.foldlM_nil,List.mapM_nil,pure_eq_ok,Except.ok.injEq]
    constructor
    · rintro rfl
      exact ⟨[],rfl,rfl,hseen⟩
    · rintro ⟨_,rfl,rfl,-⟩
      rfl
  | cons table tables ih =>
    simp only [List.foldlM_cons,List.mapM_cons,bind_eq_ok,readTableIntoSpec_eq_ok hseen,pure_eq_ok,
      Except.ok.injEq]
    constructor
    · rintro ⟨_,⟨rows,hrows,rfl,hnext⟩,hrest⟩
      obtain ⟨others,hothers,rfl,hnodup⟩ := (ih hnext).mp hrest
      refine ⟨rows::others,⟨rows,hrows,others,hothers,rfl⟩,?_,hnodup⟩
      rw [List.flatten_cons,BuildState.pushRows_append]
    · rintro ⟨_,⟨rows,hrows,others,hothers,rfl⟩,rfl,hnodup⟩
      rw [List.flatten_cons,BuildState.pushRows_append] at hnodup
      have hnext := BuildState.nodup_of_pushRows hnodup
      refine ⟨_,⟨rows,hrows,rfl,hnext⟩,(ih hnext).mpr ⟨others,hothers,?_⟩⟩
      rw [List.flatten_cons,BuildState.pushRows_append]
      exact ⟨rfl,hnodup⟩

end Rows

namespace BuildState

def rowsIn (spec : ArtifactBuildSpec) (rows : List SnapshotRow) (shardId : ℕ) :
    List SnapshotRow :=
  rows.filter fun row => shardOf spec row.primaryKey = shardId

/-- Two specs that differ in their shards at most. -/
structure SameSettings (spec spec' : ArtifactBuildSpec) : Prop where
  artifactId : spec'.artifactId = spec.artifactId
  shardCount : spec'.shardCount = spec.shardCount
  hashSeed : spec'.hashSeed = spec.hashSeed
  hashVersion : spec'.hashVersion = spec.hashVersion
  layout : spec'.layout = spec.layout
  hasProgress : spec'.includeSourceProgressSection = spec.includeSourceProgressSection
  progress : spec'.sourceProgress = spec.sourceProgress

theorem SameSettings.trans {spec spec' spec'' : ArtifactBuildSpec} (h : SameSettings spec spec')
    (h' : SameSettings spec' spec'') : SameSettings spec spec'' where
  artifactId := h'.artifactId.trans h.artifactId
  shardCount := h'.shardCount.trans h.shardCount
  hashSeed := h'.hashSeed.trans h.hashSeed
  hashVersion := h'.hashVersion.trans h.hashVersion
  layout := h'.layout.trans h.layout
  hasProgress := h'.hasProgress.trans h.hasProgress
  progress := h'.progress.trans h.progress

theorem SameSettings.shardOf {spec spec' : ArtifactBuildSpec} (h : SameSettings spec spec')
    (key : UInt64) : shardOf spec' key = shardOf spec key := by
  rw [Offline.shardOf,Offline.shardOf,h.shardCount,h.hashSeed,h.hashVersion]

theorem pushRow_settings (state : BuildState) (shardId : ℕ) (row : SnapshotRow) :
    SameSettings state.spec (state.pushRow shardId row).spec :=
  ⟨rfl,rfl,rfl,rfl,rfl,rfl,rfl⟩

theorem pushRows_settings (state : BuildState) (rows : List SnapshotRow) :
    SameSettings state.spec (state.pushRows rows).spec := by
  induction rows generalizing state with
  | nil => exact ⟨rfl,rfl,rfl,rfl,rfl,rfl,rfl⟩
  | cons row rows ih => exact (pushRow_settings state _ row).trans (ih (state.routeRow row))

theorem rowsIn_congr {spec spec' : ArtifactBuildSpec} (h : SameSettings spec spec')
    (rows : List SnapshotRow) (shardId : ℕ) : rowsIn spec' rows shardId = rowsIn spec rows shardId := by
  simp only [rowsIn,h.shardOf]

theorem rowsIn_cons (spec : ArtifactBuildSpec) (row : SnapshotRow) (rows : List SnapshotRow)
    (shardId : ℕ) : rowsIn spec (row::rows) shardId =
      (if shardOf spec row.primaryKey = shardId then [row] else [])++rowsIn spec rows shardId := by
  rw [rowsIn,List.filter_cons]
  by_cases hshard : shardOf spec row.primaryKey = shardId
  · simp [hshard,rowsIn]
  · simp [hshard,rowsIn]

theorem pushRow_shards (state : BuildState) (i : ℕ) (row : SnapshotRow) (shardId : ℕ) :
    (state.pushRow i row).spec.shards[shardId]? = state.spec.shards[shardId]?.map fun shard =>
      { shard with rows := shard.rows++if i = shardId then [row] else [] } := by
  simp only [pushRow,List.getElem?_modify,Option.map_eq_map]
  congr 1
  funext shard
  by_cases hshard : i = shardId
  · simp [hshard]
  · simp [hshard]

theorem pushRow_rowsPerShard (state : BuildState) (i : ℕ) (row : SnapshotRow) (shardId : ℕ) :
    (state.pushRow i row).result.rowsPerShard[shardId]? =
      state.result.rowsPerShard[shardId]?.map (·+(if i = shardId then [row] else []).length) := by
  simp only [pushRow,List.getElem?_modify,Option.map_eq_map]
  congr 1
  funext count
  by_cases hshard : i = shardId
  · simp [hshard]
  · simp [hshard]

theorem pushRows_shards (state : BuildState) (rows : List SnapshotRow) (shardId : ℕ) :
    (state.pushRows rows).spec.shards[shardId]? =
      state.spec.shards[shardId]?.map fun shard =>
        { shard with rows := shard.rows++rowsIn state.spec rows shardId } := by
  induction rows generalizing state with
  | nil => simp [pushRows,rowsIn]
  | cons row rows ih =>
    have hrest := rowsIn_congr (pushRow_settings state (shardOf state.spec row.primaryKey) row) rows
      shardId
    rw [pushRows,List.foldl_cons,← pushRows,ih,routeRow,hrest,rowsIn_cons,pushRow_shards,
      Option.map_map]
    simp only [Function.comp_def,List.append_assoc]

theorem pushRows_rowsPerShard (state : BuildState) (rows : List SnapshotRow) (shardId : ℕ) :
    (state.pushRows rows).result.rowsPerShard[shardId]? =
      state.result.rowsPerShard[shardId]?.map
        (·+(rowsIn state.spec rows shardId).length) := by
  induction rows generalizing state with
  | nil => simp [pushRows,rowsIn]
  | cons row rows ih =>
    have hrest := rowsIn_congr (pushRow_settings state (shardOf state.spec row.primaryKey) row) rows
      shardId
    rw [pushRows,List.foldl_cons,← pushRows,ih,routeRow,hrest,rowsIn_cons,pushRow_rowsPerShard,
      Option.map_map]
    simp only [Function.comp_def,List.length_append,Nat.add_assoc]

theorem pushRow_result (state : BuildState) (i : ℕ) (row : SnapshotRow) :
    (state.pushRow i row).result = { state.result with
      rowCount := state.result.rowCount+1
      rowsPerShard := (state.pushRow i row).result.rowsPerShard } := rfl

theorem pushRows_result (state : BuildState) (rows : List SnapshotRow) :
    (state.pushRows rows).result = { state.result with
      rowCount := state.result.rowCount+rows.length
      rowsPerShard := (state.pushRows rows).result.rowsPerShard } := by
  induction rows generalizing state with
  | nil => rfl
  | cons row rows ih =>
    have hnext := ih (state.routeRow row)
    have hfirst := pushRow_result state (shardOf state.spec row.primaryKey) row
    rw [← routeRow] at hfirst
    rw [hfirst] at hnext
    rw [List.length_cons,Nat.add_comm rows.length,← Nat.add_assoc]
    exact hnext

end BuildState

end Offline
end KvIndex
