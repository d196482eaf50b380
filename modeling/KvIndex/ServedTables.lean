import KvIndex.BuiltArtifact
import KvIndex.SectionOrder

/-! The rows of a built artifact. The mapped file of a shard answers the keys of the shard as the
tables do: a key that stands in a row reads as the cells of the row, and no other key is found. -/
namespace KvIndex
namespace Offline

open Base Schema CompiledRowLayout Model Artifact

structure ReadsAs (layout : CompiledRowLayout) (table : ArrowTable) (rowIndex : ℕ) (row : Row) :
    Prop where
  sameLayout : row.layout = layout
  fields : ∀ field ∈ layout.fields, ∃ cell, tableCell table rowIndex field = .ok cell ∧
    row.readField field = cellRead field cell

/-- These lookups answer as the tables. -/
structure ServesTables (config : ParsedSchemaConfig) (layout : CompiledRowLayout)
    (tables : List ArrowTable) (get : UInt64 → StatusOr (Option Row)) : Prop where
  found : ∀ table rowIndex key, HasKey config tables table rowIndex key →
    ∃ row, get key = .ok (some row) ∧ ReadsAs layout table rowIndex row
  missing : ∀ key, (∀ table rowIndex, ¬HasKey config tables table rowIndex key) → get key = .ok none

/-- The cells of the tables have lengths that the format can carry. -/
def TablesFit (layout : CompiledRowLayout) (tables : List ArrowTable) : Prop :=
  ∀ table ∈ tables, ∀ rowIndex < table.numRows, RowFits layout table rowIndex

section Rows

variable {config : ParsedSchemaConfig} {schema : RuntimeSchema} {tables : List ArrowTable}
  {table : ArrowTable} {rowIndex : ℕ}

theorem tableRows_spec (hr : schema.Reachable) {rows : List SnapshotRow}
    (h : tableRows config (compile schema) table = .ok rows) :
    List.Forall₂ (fun rowIndex row => tableKey config table rowIndex = .ok row.primaryKey ∧
      (RowFits (compile schema) table rowIndex → Fits (compile schema) row.encoded ∧
        ∃ made, materializeRow (compile schema) row.encoded = .ok made ∧
          ReadsAs (compile schema) table rowIndex made)) (List.range table.numRows) rows := by
  obtain ⟨columns,hcolumns,hrows⟩ := bind_eq_ok.mp h
  obtain ⟨hcolumn,-,-⟩ := resolveTableColumns_eq_ok (fieldIds_nodup hr) hcolumns
  refine (mapM_eq_ok.mp hrows).imp fun rowIndex row hrow => ?_
  obtain ⟨hkey,values,hvalues,hencode⟩ := tableRow_eq_ok.mp hrow
  refine ⟨?_,fun hfits => ?_⟩
  · rw [tableKey,hcolumn]
    exact hkey
  · obtain ⟨hfit,⟨made,hmade⟩,hreads⟩ := encodeRow_reads hr hcolumns hvalues hfits hencode
    have heq := materializeRow_eq_ok hmade
    subst heq
    exact ⟨hfit,_,hmade,rfl,hreads⟩

variable {rows : List (List SnapshotRow)}

theorem row_of_hasKey (hr : schema.Reachable)
    (hread : tables.mapM (tableRows config (compile schema)) = .ok rows) {key : UInt64}
    (h : HasKey config tables table rowIndex key) :
    ∃ row ∈ rows.flatten, row.primaryKey = key ∧
      (RowFits (compile schema) table rowIndex → Fits (compile schema) row.encoded ∧
        ∃ made, materializeRow (compile schema) row.encoded = .ok made ∧
          ReadsAs (compile schema) table rowIndex made) := by
  obtain ⟨htable,hindex,hkey⟩ := h
  obtain ⟨found,hfound,hrows⟩ := exists_of_mem_right (mapM_eq_ok.mp hread).flip htable
  obtain ⟨row,hrow,hrowKey,hspec⟩ :=
    exists_of_mem_right (tableRows_spec hr hrows).flip (List.mem_range.mpr hindex)
  rw [hkey,Except.ok.injEq] at hrowKey
  exact ⟨row,List.mem_flatten.mpr ⟨found,hfound,hrow⟩,hrowKey.symm,hspec⟩

theorem hasKey_of_row (hr : schema.Reachable)
    (hread : tables.mapM (tableRows config (compile schema)) = .ok rows) {row : SnapshotRow}
    (h : row ∈ rows.flatten) :
    ∃ table rowIndex, HasKey config tables table rowIndex row.primaryKey := by
  obtain ⟨found,hfound,hrow⟩ := List.mem_flatten.mp h
  obtain ⟨table,htable,hrows⟩ := exists_of_mem_right (mapM_eq_ok.mp hread) hfound
  obtain ⟨rowIndex,hindex,hkey,-⟩ := exists_of_mem_right (tableRows_spec hr hrows) hrow
  exact ⟨table,rowIndex,htable,List.mem_range.mp hindex,hkey⟩

end Rows

section Built

variable {options : BuildArtifactOptions} {tables : List ArrowTable} {config : ParsedSchemaConfig}
  {state : BuildState} {settings : BuildSettings} {schema : RuntimeSchema}
  {rows : List (List SnapshotRow)}

theorem find_rowsIn (spec : ArtifactBuildSpec) (rows : List SnapshotRow) (key : UInt64) :
    FirstWins.find SnapshotRow.primaryKey (BuildState.rowsIn spec rows (shardOf spec key)) key =
      FirstWins.find SnapshotRow.primaryKey rows key := by
  induction rows with
  | nil => rfl
  | cons row rows ih =>
    rw [BuildState.rowsIn_cons,FirstWins.find_append,ih,FirstWins.find_cons]
    by_cases hkey : row.primaryKey = key
    · rw [hkey,if_pos rfl,if_pos rfl,FirstWins.find_cons,if_pos hkey]
      rfl
    · rw [if_neg hkey]
      split
      · rw [FirstWins.find_cons,if_neg hkey]
        rfl
      · rfl

theorem Inputs.servesTables (h : Inputs options tables config state settings schema rows)
    (hfits : TablesFit (compile schema) tables) :
    ServesTables config (compile schema) tables fun key =>
      answer (some (compile schema))
        ((FirstWins.find SnapshotRow.primaryKey rows.flatten key).map fun row =>
          storedRow (compile schema) row.encoded) := by
  obtain ⟨hreachable,-,-⟩ := buildRuntimeSchema_eq_ok h.built
  constructor
  · intro table rowIndex key hkey
    obtain ⟨row,hrow,rfl,hspec⟩ := row_of_hasKey hreachable h.read hkey
    obtain ⟨hfit,made,hmade,hreads⟩ := hspec (hfits table hkey.1 rowIndex hkey.2.1)
    refine ⟨made,?_,hreads⟩
    rw [FirstWins.find_of_mem h.distinct hrow,Option.map_some,storedRow_of_fits hfit]
    show (materializeRow (compile schema) row.encoded).map some = _
    rw [hmade]
    rfl
  · intro key hnone
    have hfind : FirstWins.find SnapshotRow.primaryKey rows.flatten key = none := by
      refine FirstWins.find_eq_none.mpr ?_
      rintro row hrow rfl
      obtain ⟨table,rowIndex,hkey⟩ := hasKey_of_row hreachable h.read hrow
      exact hnone table rowIndex hkey
    rw [hfind]
    rfl

theorem Inputs.written (h : Inputs options tables config state settings schema rows) {i : ℕ}
    (hi : i < settings.shardCount.toNat) {bytes : Bytes}
    (hwrite : writeArtifactShard state.spec (UInt32.ofNat i) = .ok bytes) :
    ∃ parts, Written state.spec [{ shardId := UInt32.ofNat i
                                   rows := BuildState.rowsIn state.spec rows.flatten i }]
        (compile schema) parts bytes ∧ parts.length < 2^26-2 := by
  obtain ⟨layout,parts,hwritten⟩ :=
    writeArtifactWithShards_written (h.writeArtifactShard_eq_ok hi hwrite)
  have hlayout : layout = compile schema := by
    have hsame := hwritten.layout_eq
    rw [h.readable.layout,Option.some.injEq] at hsame
    exact hsame.symm
  subst hlayout
  refine ⟨parts,hwritten,hwritten.parts_length ?_⟩
  rw [partCount,List.length_singleton]
  split <;> omega

/-- The file of a shard can be mapped where the parser keeps the order of equal offsets or the
shard has a row, and answers with the rows of the shard. -/
theorem Inputs.file_get (h : Inputs options tables config state settings schema rows) {i : ℕ}
    (hi : i < settings.shardCount.toNat) {bytes : Bytes}
    (hwrite : writeArtifactShard state.spec (UInt32.ofNat i) = .ok bytes)
    (hsize : bytes.length ≤ uint64Max) {reader : ArtifactValidationOptions}
    (hmatch : Matches state.spec reader) {sort : SectionSort}
    (hsort : sort = .stable ∨ BuildState.rowsIn state.spec rows.flatten i ≠ []) :
    ∃ mapped, MmapSnapshotBacking.loadShard bytes (UInt32.ofNat i)
        { reader.loadOptions with sectionSort := sort } = .ok mapped ∧
      ∀ key, shardOf state.spec key = i → snapshotGet (some (.mmap mapped)) key =
        answer (some (compile schema))
          ((FirstWins.find SnapshotRow.primaryKey rows.flatten key).map fun row =>
            storedRow (compile schema) row.encoded) := by
  obtain ⟨parts,hwritten,hparts⟩ := h.written hi hwrite
  have horder := hwritten.inOrder hparts hsize (compile_rowSlotSize_pos h.readable.fields)
    (hsort.imp_right fun hrows shard hshard => by rwa [List.mem_singleton.mp hshard])
  obtain ⟨mapped,-,hload,-,hget,-⟩ := hwritten.mapped_get hparts hsize h.readable hmatch sort horder
    List.mem_cons_self
  refine ⟨mapped,hload,?_⟩
  rintro key rfl
  have hkey := hget key
  rw [find_rowsIn] at hkey
  exact hkey

end Built

end Offline
end KvIndex
