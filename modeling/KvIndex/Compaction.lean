import KvIndex.ShardState

/-! Delta compaction (`rebuild/compaction.cc`): the rows that a boundary saw in the
realtime delta and the rows of the compact delta become a new compact delta. -/
namespace KvIndex
namespace Rebuild

open RealtimeDeltaAtomicTable (sampleLayout sampleTable sampleCall sampleTable_reachable)

structure CompactionBuildRequest where
  state : ShardState
  boundary : RealtimeDeltaBoundary
  buildOptions : SnapshotBuildOptions := {}
  mode : ForwardIndexMode := .kRealtimeDelta

structure FinishDeltaCompactionRequest where
  previous : ShardState
  successorGeneration : UInt64 := 0
  successorRealtime : Option RealtimeDeltaAtomicTable
  compactBacking : Option OwnedSnapshotBacking
  mode : ForwardIndexMode := .kRealtimeDelta

/-- `ResolveLayout`; the layout pointer of a backing may be null. -/
def resolveLayout (state : ShardState) : StatusOr (Option CompiledRowLayout) :=
  match state.realtimeDelta.bind (·.layout) with
  | some layout => .ok (some layout)
  | none =>
    match state.compactDelta.bind (·.backing) with
    | some backing => .ok backing.layout
    | none =>
      match state.fullSnapshot.bind (·.backing) with
      | some backing => .ok backing.layout
      | none => .error (.failedPrecondition "compaction state has no row layout")

/-- `AddRowIfNew`, with the builder and the keys seen so far. -/
def addRowIfNew (sink : SnapshotBuilder×List UInt64) (row : SnapshotRow) :
    StatusOr (SnapshotBuilder×List UInt64) :=
  if row.primaryKey ∈ sink.2 then .ok sink
  else do
    let builder ← sink.1.addRow row.primaryKey row.encoded
    return (builder,row.primaryKey::sink.2)

def scannedRow (row : RealtimeVisibleRow) : SnapshotRow := ⟨row.primaryKey,row.encoded⟩

def scanRealtimeRows (state : ShardState) (boundary : RealtimeDeltaBoundary) :
    StatusOr (List SnapshotRow) :=
  match state.realtimeDelta with
  | none => .ok []
  | some table => do
    let rows ← table.scanVisibleRows boundary
    return rows.map scannedRow

def compactRows (state : ShardState) : StatusOr (List SnapshotRow) :=
  match state.compactDelta with
  | none => .ok []
  | some compact =>
    match compact.backing with
    | none => .error (.failedPrecondition "compact delta has no backing")
    | some backing => enumerateSnapshotRows (.owned backing)

def buildCompactedDeltaSnapshot (request : CompactionBuildRequest) :
    StatusOr OwnedSnapshotBacking := do
  failIf (!forwardIndexModeUsesCompactDelta request.mode)
    (.failedPrecondition "delta compaction is disabled for forward index mode")
  let layout ← resolveLayout request.state
  let builder : SnapshotBuilder := { layout,options := request.buildOptions }
  let realtimeRows ← scanRealtimeRows request.state request.boundary
  let sink ← realtimeRows.foldlM addRowIfNew (builder,[])
  let rows ← compactRows request.state
  let sink ← rows.foldlM addRowIfNew sink
  sink.1.sealSnapshot

def finishDeltaCompaction (request : FinishDeltaCompactionRequest) : StatusOr ShardState := do
  failIf (!forwardIndexModeUsesCompactDelta request.mode)
    (.failedPrecondition "delta compaction is disabled for forward index mode")
  failIf request.compactBacking.isNone (.invalidArgument "compaction compact backing is null")
  return {
    shardId := request.previous.shardId,generation := request.successorGeneration
    realtimeDelta := request.successorRealtime
    compactDelta := some { backing := request.compactBacking }
    fullSnapshot := request.previous.fullSnapshot }

/-- Adding rows first-wins: the builder holds the rows that came first for their key. -/
theorem addRowsIfNew {layout : CompiledRowLayout} {builder : SnapshotBuilder}
    {seen : List UInt64} {held rows : List SnapshotRow}
    (hpos : ∀ row ∈ rows, 0 < layout.rowSlotSize) (hb : builder.Holds layout held)
    {sink : SnapshotBuilder×List UInt64}
    (h : rows.foldlM addRowIfNew (builder,seen) = .ok sink) :
    sink.1.Holds layout (held++FirstWins.keepNew SnapshotRow.primaryKey seen rows) ∧
      ∀ k, k ∈ sink.2 ↔ k ∈ seen ∨ k ∈ rows.map SnapshotRow.primaryKey := by
  induction rows generalizing builder seen held with
  | nil =>
    cases h
    exact ⟨by simpa [FirstWins.keepNew] using hb,fun k => by simp⟩
  | cons row rows ih =>
    have hrest : ∀ row ∈ rows, 0 < layout.rowSlotSize :=
      fun row hrow => hpos row (List.mem_cons_of_mem _ hrow)
    rw [List.foldlM_cons] at h
    by_cases hseen : row.primaryKey ∈ seen
    · have hstep : addRowIfNew (builder,seen) row = .ok (builder,seen) := by
        rw [addRowIfNew,if_pos hseen]
      rw [hstep,ok_bind] at h
      obtain ⟨hh,hs⟩ := ih hrest hb h
      refine ⟨by rw [FirstWins.keepNew,if_pos hseen]; exact hh,?_⟩
      intro k
      rw [hs,List.map_cons,List.mem_cons]
      constructor
      · rintro (hk | hk)
        · exact Or.inl hk
        · exact Or.inr (Or.inr hk)
      · rintro (hk | rfl | hk)
        · exact Or.inl hk
        · exact Or.inl hseen
        · exact Or.inr hk
    · rw [addRowIfNew,if_neg hseen,bind_eq_ok] at h
      obtain ⟨next,hstep,hnext⟩ := h
      simp only [bind_eq_ok,pure_eq_ok,Except.ok.injEq] at hstep
      obtain ⟨added,hadd,rfl⟩ := hstep
      obtain ⟨hh,hs⟩ := ih hrest (hb.addRow (hpos row List.mem_cons_self) hadd).1 hnext
      refine ⟨?_,?_⟩
      · rw [FirstWins.keepNew,if_neg hseen]
        rwa [List.append_assoc,List.singleton_append] at hh
      · intro k
        rw [hs,List.mem_cons,List.map_cons,List.mem_cons]
        tauto

/-- A snapshot built from two layers of rows answers as the layers, one over the other. -/
theorem mergedGet {layout : CompiledRowLayout} {options : SnapshotBuildOptions}
    {upper lower : List SnapshotRow}
    (hupper : ∀ row ∈ upper, 0 < layout.rowSlotSize ∧ Fits layout row.encoded)
    (hlower : ∀ row ∈ lower, 0 < layout.rowSlotSize ∧ Fits layout row.encoded)
    {sink₁ sink₂ : SnapshotBuilder×List UInt64} {backing : OwnedSnapshotBacking}
    (h₁ : upper.foldlM addRowIfNew ({ layout := some layout,options },[]) = .ok sink₁)
    (h₂ : lower.foldlM addRowIfNew sink₁ = .ok sink₂)
    (hseal : sink₂.1.sealSnapshot = .ok backing) :
    backing.layout = some layout ∧ ∀ k, snapshotGet (some (.owned backing)) k =
      ifMiss (answer (some layout) ((FirstWins.find SnapshotRow.primaryKey upper k).map (·.encoded)))
        (answer (some layout) ((FirstWins.find SnapshotRow.primaryKey lower k).map (·.encoded))) := by
  obtain ⟨hb₁,hseen⟩ := addRowsIfNew (fun row hrow => (hupper row hrow).1)
    (SnapshotBuilder.holds_nil layout options) h₁
  rw [List.nil_append] at hb₁
  have h₂' : lower.foldlM addRowIfNew (sink₁.1,sink₁.2) = .ok sink₂ := h₂
  obtain ⟨hb₂,_⟩ := addRowsIfNew (fun row hrow => (hlower row hrow).1) hb₁ h₂'
  have hmerged : ∀ row ∈ FirstWins.keepNew SnapshotRow.primaryKey [] upper++
      FirstWins.keepNew SnapshotRow.primaryKey sink₁.2 lower, 0 < layout.rowSlotSize := by
    intro row hrow
    rcases List.mem_append.mp hrow with hu | hl
    · exact (hupper row (FirstWins.mem_of_mem_keepNew hu).1).1
    · exact (hlower row (FirstWins.mem_of_mem_keepNew hl).1).1
  obtain ⟨hlayout,hget⟩ := hb₂.sealSnapshot hmerged hseal
  refine ⟨hlayout,?_⟩
  intro k
  rw [hget,FirstWins.find_merge (by simpa using hseen),ifMiss_answer]
  cases hu : FirstWins.find SnapshotRow.primaryKey upper k with
  | some row =>
    have hfit := (hupper row (FirstWins.find_mem hu)).2
    simp only [Option.some_or,Option.map_some,storedRow_of_fits hfit]
  | none =>
    cases hlw : FirstWins.find SnapshotRow.primaryKey lower k with
    | some row =>
      have hfit := (hlower row (FirstWins.find_mem hlw)).2
      simp only [Option.none_or,Option.map_some,Option.map_none,storedRow_of_fits hfit]
    | none => rfl

/-- A compact delta under the layout answers with the rows that it enumerates. -/
theorem compactRows_get {state : ShardState} {layout : CompiledRowLayout}
    (hlayout : ∀ compact, state.compactDelta = some compact →
      ∃ backing, compact.backing = some backing ∧ backing.layout = some layout)
    {rows : List SnapshotRow} (h : compactRows state = .ok rows) :
    (∀ row ∈ rows, 0 < layout.rowSlotSize ∧ Fits layout row.encoded) ∧ ∀ k, state.compactGet k =
      answer (some layout) ((FirstWins.find SnapshotRow.primaryKey rows k).map (·.encoded)) := by
  rw [compactRows] at h
  cases hc : state.compactDelta with
  | none =>
    rw [hc] at h
    cases h
    refine ⟨by simp,fun k => ?_⟩
    rw [ShardState.compactGet,hc]
    rfl
  | some compact =>
    obtain ⟨backing,hbacking,hl⟩ := hlayout compact hc
    rw [hc] at h
    simp only [hbacking] at h
    obtain ⟨_,_,hget⟩ := snapshotGet_of_enumerate h
    have hbl : SnapshotBacking.layout (.owned backing) = some layout := hl
    refine ⟨enumerate_fits hbl h,fun k => ?_⟩
    rw [ShardState.compactGet,hc]
    simp only [CompactDeltaSnapshot.get,hbacking,Option.map_some,hget k,hbl]

/-- The scanned rows of a table are the ones it answers with at the boundary. -/
theorem scanned_get {table : RealtimeDeltaAtomicTable} (hs : table.Sound)
    {layout : CompiledRowLayout} (hl : table.layout = some layout)
    {visible : List RealtimeVisibleRow}
    (h : table.scanVisibleRows table.captureCompactionBoundary = .ok visible) :
    (∀ row ∈ visible.map scannedRow, Fits layout row.encoded) ∧ ∀ k, table.get k =
      answer (some layout)
        ((FirstWins.find SnapshotRow.primaryKey (visible.map scannedRow) k).map (·.encoded)) := by
  obtain ⟨rows,hrows,hd,hfind⟩ := hs.scanVisibleRows_eq
  rw [h,Except.ok.injEq] at hrows
  subst hrows
  refine ⟨?_,fun k => ?_⟩
  · intro row hrow
    obtain ⟨v,hv,rfl⟩ := List.mem_map.mp hrow
    have hk := FirstWins.find_of_mem hd hv
    rw [hfind,Option.map_eq_some_iff] at hk
    obtain ⟨ref,hvis,rfl⟩ := hk
    obtain ⟨layout',hl',hmat,hsize⟩ := hs.readable hvis
    rw [hl,Option.some.injEq] at hl'
    subst hl'
    simp only [Model.materializeRow,bind_eq_ok,failIf_eq_ok,exists_const,Bool.or_eq_false_iff,
      bne_eq_false_iff_eq] at hmat
    exact ⟨hmat.1.1,hmat.1.2,hsize⟩
  · have hmap : FirstWins.find SnapshotRow.primaryKey (visible.map scannedRow) k =
        (FirstWins.find RealtimeVisibleRow.primaryKey visible k).map scannedRow :=
      FirstWins.find_map scannedRow (fun _ => rfl) visible k
    rw [hmap,hfind,hs.get_eq_answer hl]
    cases table.map.visible k with
    | none => rfl
    | some ref => rfl

/-- A serving state whose layers share one compiled layout. -/
structure SharesLayout (state : ShardState) (table : RealtimeDeltaAtomicTable)
    (layout : CompiledRowLayout) : Prop where
  slot : 0 < layout.rowSlotSize
  realtime : state.realtimeDelta = some table
  reachable : table.Reachable
  realtimeLayout : table.layout = some layout
  compact : ∀ compact, state.compactDelta = some compact →
    ∃ backing, compact.backing = some backing ∧ backing.layout = some layout
  full : ∀ full, state.fullSnapshot = some full →
    ∃ backing, full.backing = some backing ∧ backing.layout = some layout

theorem buildCompactedDeltaSnapshot_publishAll (state : ShardState)
    (table : RealtimeDeltaAtomicTable) (calls : List RealtimeDeltaAtomicTable.PublishCall)
    (options : SnapshotBuildOptions) (mode : ForwardIndexMode) :
    buildCompactedDeltaSnapshot ⟨state.withRealtime (table.publishAll calls),
      table.captureCompactionBoundary,options,mode⟩ =
    buildCompactedDeltaSnapshot ⟨state.withRealtime table,
      table.captureCompactionBoundary,options,mode⟩ := by
  have hlayout : resolveLayout (state.withRealtime (table.publishAll calls)) =
      resolveLayout (state.withRealtime table) := by
    simp only [resolveLayout,ShardState.withRealtime,Option.bind_some,
      RealtimeDeltaAtomicTable.publishAll_layout]
  have hscan : scanRealtimeRows (state.withRealtime (table.publishAll calls))
        table.captureCompactionBoundary =
      scanRealtimeRows (state.withRealtime table) table.captureCompactionBoundary := by
    simp only [scanRealtimeRows,ShardState.withRealtime,
      RealtimeDeltaAtomicTable.scanVisibleRows_publishAll]
  have hcompact : compactRows (state.withRealtime (table.publishAll calls)) =
      compactRows (state.withRealtime table) := rfl
  simp only [buildCompactedDeltaSnapshot,hlayout,hscan,hcompact]

/-- The compacted snapshot has the layout, and answers as the realtime delta at the
boundary over the compact delta. -/
theorem buildCompactedDeltaSnapshot_get {state : ShardState} {table : RealtimeDeltaAtomicTable}
    {layout : CompiledRowLayout} (hshare : SharesLayout state table layout)
    {options : SnapshotBuildOptions} {mode : ForwardIndexMode} {backing : OwnedSnapshotBacking}
    (h : buildCompactedDeltaSnapshot ⟨state,table.captureCompactionBoundary,options,mode⟩ =
      .ok backing) :
    backing.layout = some layout ∧ ∀ k, snapshotGet (some (.owned backing)) k =
      ifMiss (state.realtimeGet k) (state.compactGet k) := by
  have hresolve : resolveLayout state = .ok (some layout) := by
    simp only [resolveLayout,hshare.realtime,Option.bind_some,hshare.realtimeLayout]
  simp only [buildCompactedDeltaSnapshot,hresolve,scanRealtimeRows,hshare.realtime,bind_eq_ok,
    failIf_eq_ok,exists_const,ok_bind,pure_eq_ok,Except.ok.injEq] at h
  obtain ⟨_,realtimeRows,⟨visible,hscan,rfl⟩,sink₁,h₁,rows,hrows,sink₂,h₂,hseal⟩ := h
  obtain ⟨hfitsR,hgetR⟩ := scanned_get hshare.reachable.sound hshare.realtimeLayout hscan
  obtain ⟨hfitsC,hgetC⟩ := compactRows_get hshare.compact hrows
  obtain ⟨hlayout,hget⟩ := mergedGet (fun row hrow => ⟨hshare.slot,hfitsR row hrow⟩) hfitsC h₁ h₂
    hseal
  refine ⟨hlayout,fun k => ?_⟩
  rw [hget,← hgetC,← hgetR,ShardState.realtimeGet,hshare.realtime]

theorem SharesLayout.withRealtime_eq {state : ShardState} {table : RealtimeDeltaAtomicTable}
    {layout : CompiledRowLayout} (hshare : SharesLayout state table layout) :
    state.withRealtime table = state := by
  obtain ⟨shardId,generation,realtime,compact,full⟩ := state
  have hrt := hshare.realtime
  simp only at hrt
  rw [ShardState.withRealtime,hrt]

theorem SharesLayout.withTable {state : ShardState} {table table' : RealtimeDeltaAtomicTable}
    {layout : CompiledRowLayout} (hs : SharesLayout state table layout) (hr : table'.Reachable)
    (hl : table'.layout = some layout) : SharesLayout (state.withRealtime table') table' layout :=
  ⟨hs.slot,rfl,hr,hl,hs.compact,hs.full⟩

/-- The state after a cutover: the successor table over what the old state answered at
the boundary, under the same layout. -/
theorem SharesLayout.cutover {state : ShardState} {table : RealtimeDeltaAtomicTable}
    {layout : CompiledRowLayout} (hshare : SharesLayout state table layout)
    {calls later : List RealtimeDeltaAtomicTable.PublishCall} {options : SnapshotBuildOptions}
    {mode mode' : ForwardIndexMode} {generation : UInt64} {successor : RealtimeDeltaAtomicTable}
    {backing : OwnedSnapshotBacking} {next : ShardState}
    (hbuild : buildCompactedDeltaSnapshot ⟨state.withRealtime (table.publishAll calls),
      table.captureCompactionBoundary,options,mode⟩ = .ok backing)
    (hfinish : finishDeltaCompaction ⟨state.withRealtime (table.publishAll later),generation,
      some successor,some backing,mode'⟩ = .ok next) :
    buildCompactedDeltaSnapshot ⟨state,table.captureCompactionBoundary,options,mode⟩ =
        .ok backing ∧
      next = ⟨state.shardId,generation,some successor,some ⟨some backing⟩,state.fullSnapshot⟩ ∧
      backing.layout = some layout ∧
      ∀ k, ifMiss (next.compactGet k) (next.fullGet k) = state.get k := by
  rw [buildCompactedDeltaSnapshot_publishAll,hshare.withRealtime_eq] at hbuild
  simp only [finishDeltaCompaction,bind_eq_ok,failIf_eq_ok,exists_const,pure_eq_ok,
    Except.ok.injEq] at hfinish
  obtain ⟨_,_,rfl⟩ := hfinish
  obtain ⟨hlayout,hget⟩ := buildCompactedDeltaSnapshot_get hshare hbuild
  refine ⟨hbuild,rfl,hlayout,fun k => ?_⟩
  show ifMiss (snapshotGet (some (.owned backing)) k) (state.fullGet k) = _
  rw [hget,ifMiss_assoc]
  rfl

/-- Delta compaction preserves lookups: the successor table answers first, and behind
it every key answers as it did when the boundary was captured. -/
theorem deltaCompaction_preserves_get {state : ShardState} {table : RealtimeDeltaAtomicTable}
    {layout : CompiledRowLayout} (hshare : SharesLayout state table layout)
    (calls later : List RealtimeDeltaAtomicTable.PublishCall) (options : SnapshotBuildOptions)
    (mode mode' : ForwardIndexMode) (generation : UInt64) (successor : RealtimeDeltaAtomicTable)
    (hsuccessor : successor.Reachable) {backing : OwnedSnapshotBacking} {next : ShardState}
    (hbuild : buildCompactedDeltaSnapshot ⟨state.withRealtime (table.publishAll calls),
      table.captureCompactionBoundary,options,mode⟩ = .ok backing)
    (hfinish : finishDeltaCompaction ⟨state.withRealtime (table.publishAll later),generation,
      some successor,some backing,mode'⟩ = .ok next) :
    buildCompactedDeltaSnapshot ⟨state,table.captureCompactionBoundary,options,mode⟩ =
        .ok backing ∧
      ∀ k, (∀ row, successor.get k = .ok (some row) → next.get k = .ok (some row)) ∧
        (successor.get k = .ok none → next.get k = state.get k) ∧
        (successor.layout.isSome → ∃ answer, successor.get k = .ok answer) := by
  obtain ⟨hsame,hnext,_,hbehind⟩ := hshare.cutover hbuild hfinish
  have hrealtime : ∀ k, next.realtimeGet k = successor.get k := by
    intro k
    rw [hnext]
    rfl
  refine ⟨hsame,fun k => ⟨?_,?_,?_⟩⟩
  · intro row hrow
    rw [ShardState.get,hrealtime,hrow]
    rfl
  · intro hmiss
    rw [ShardState.get,hrealtime,hmiss,hbehind]
    rfl
  · intro hlayout
    obtain ⟨layout',hl⟩ := Option.isSome_iff_exists.mp hlayout
    exact ⟨_,hsuccessor.sound.get_eq hl k⟩

def sampleState (calls : List RealtimeDeltaAtomicTable.PublishCall) : ShardState where
  shardId := 0
  generation := 1
  realtimeDelta := some ((sampleTable 4).publishAll calls)

theorem sampleState_shares (calls : List RealtimeDeltaAtomicTable.PublishCall) :
    SharesLayout (sampleState calls) ((sampleTable 4).publishAll calls) sampleLayout where
  slot := by decide +kernel
  realtime := rfl
  reachable := (sampleTable_reachable 4).publishAll calls
  realtimeLayout := RealtimeDeltaAtomicTable.publishAll_layout _ calls
  compact := by
    intro compact h
    cases h
  full := by
    intro full h
    cases h

/-- A snapshot of the sample layout with one empty row for each key. -/
def sampleSnapshot (keys : List UInt64) : OwnedSnapshotBacking :=
  let sealed := do
    let builder ← keys.foldlM
      (fun builder k => SnapshotBuilder.addRow builder k (Model.createEncodedRow sampleLayout))
      { layout := some sampleLayout }
    builder.sealSnapshot
  sealed.toOption.getD ⟨some sampleLayout,[],[],[]⟩

/-- The sample state over a compact layer with key 6 and a full snapshot with the keys 6 and 8. -/
def layeredState (calls : List RealtimeDeltaAtomicTable.PublishCall) : ShardState :=
  { sampleState calls with
    compactDelta := some ⟨some (sampleSnapshot [6])⟩
    fullSnapshot := some ⟨some (.owned (sampleSnapshot [6,8]))⟩ }

theorem layeredState_shares (calls : List RealtimeDeltaAtomicTable.PublishCall) :
    SharesLayout (layeredState calls) ((sampleTable 4).publishAll calls) sampleLayout where
  slot := by decide +kernel
  realtime := rfl
  reachable := (sampleTable_reachable 4).publishAll calls
  realtimeLayout := RealtimeDeltaAtomicTable.publishAll_layout _ calls
  compact := by
    intro compact h
    obtain rfl := Option.some.inj h
    exact ⟨_,rfl,by decide +kernel⟩
  full := by
    intro full h
    obtain rfl := Option.some.inj h
    exact ⟨_,rfl,by decide +kernel⟩

/-- Key 7 is published before the boundary and key 8 behind it; key 9 goes to the
successor table. -/
theorem deltaCompaction_preserves_get_sample : ∃ backing next,
    buildCompactedDeltaSnapshot ⟨(layeredState [sampleCall 7 0]).withRealtime
      (((sampleTable 4).publishAll [sampleCall 7 0]).publishAll [sampleCall 8 1]),
      ((sampleTable 4).publishAll [sampleCall 7 0]).captureCompactionBoundary,{},.kRealtimeDelta⟩ =
      .ok backing ∧
    finishDeltaCompaction ⟨(layeredState [sampleCall 7 0]).withRealtime
      (((sampleTable 4).publishAll [sampleCall 7 0]).publishAll [sampleCall 8 1]),2,
      some ((sampleTable 4).publishAll [sampleCall 9 2]),some backing,
      .kRealtimeDelta⟩ = .ok next ∧
    next.get 6 = (layeredState [sampleCall 7 0]).get 6 ∧
    next.get 7 = (layeredState [sampleCall 7 0]).get 7 ∧
    next.get 8 = (layeredState [sampleCall 7 0]).get 8 := by
  cases hbuild : buildCompactedDeltaSnapshot ⟨(layeredState [sampleCall 7 0]).withRealtime
      (((sampleTable 4).publishAll [sampleCall 7 0]).publishAll [sampleCall 8 1]),
      ((sampleTable 4).publishAll [sampleCall 7 0]).captureCompactionBoundary,{},
      .kRealtimeDelta⟩ with
  | error status =>
    have hok : (buildCompactedDeltaSnapshot ⟨(layeredState [sampleCall 7 0]).withRealtime
      (((sampleTable 4).publishAll [sampleCall 7 0]).publishAll [sampleCall 8 1]),
      ((sampleTable 4).publishAll [sampleCall 7 0]).captureCompactionBoundary,{},
      .kRealtimeDelta⟩).isOk = true := by
      decide +kernel
    rw [hbuild] at hok
    cases hok
  | ok backing =>
    obtain ⟨_,hget⟩ := deltaCompaction_preserves_get (layeredState_shares [sampleCall 7 0])
      [sampleCall 8 1] [sampleCall 8 1] {} .kRealtimeDelta .kRealtimeDelta 2
      ((sampleTable 4).publishAll [sampleCall 9 2])
      ((sampleTable_reachable 4).publishAll _) hbuild rfl
    refine ⟨backing,_,rfl,rfl,(hget 6).2.1 ?_,(hget 7).2.1 ?_,(hget 8).2.1 ?_⟩
    · decide +kernel
    · decide +kernel
    · decide +kernel

end Rebuild
end KvIndex
