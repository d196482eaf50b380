import KvIndex.Compaction

/-! Full rebase (`rebuild/full_rebase.cc`): the compact delta and the full snapshot
become a new full snapshot, behind a realtime delta that starts empty. -/
namespace KvIndex
namespace Rebuild

open RealtimeDeltaAtomicTable (sampleLayout sampleTable sampleCall sampleTable_reachable)

structure FullRebaseBuildRequest where
  state : ShardState
  externalAsyncLoadActive : Bool := false
  buildOptions : SnapshotBuildOptions := {}
  mode : ForwardIndexMode := .kRealtimeDelta

structure FinishFullRebaseRequest where
  previous : ShardState
  successorGeneration : UInt64 := 0
  rebaseRealtime : Option RealtimeDeltaAtomicTable
  fullBacking : Option OwnedSnapshotBacking
  mode : ForwardIndexMode := .kRealtimeDelta

def checkSameLayout (lhs rhs : SnapshotBacking) : StatusOr Unit :=
  match lhs.layout, rhs.layout with
  | some lhsLayout, some rhsLayout => do
    failIf (lhsLayout.schemaVersion != rhsLayout.schemaVersion ||
        lhsLayout.layoutFingerprint != rhsLayout.layoutFingerprint ||
        lhsLayout.rowSlotSize != rhsLayout.rowSlotSize)
      (.failedPrecondition "compact and full snapshots have different row layouts")
    let lhsIndex ← FrozenPrimaryKeyIndexView.validate lhs.frozenIndexBytes
    let rhsIndex ← FrozenPrimaryKeyIndexView.validate rhs.frozenIndexBytes
    failIf (lhsIndex.metadata.hashSeed != rhsIndex.metadata.hashSeed ||
        lhsIndex.metadata.hashVersion != rhsIndex.metadata.hashVersion ||
        lhsIndex.metadata.groupWidth != rhsIndex.metadata.groupWidth)
      (.failedPrecondition "compact and full snapshots have different hash settings")
  | _, _ => .error (.failedPrecondition "rebase snapshot has no row layout")

/-- The checks that the compact delta of a state goes through before its rows are read. -/
def checkCompactDelta (state : ShardState) (fullBacking : SnapshotBacking) : StatusOr Unit :=
  match state.compactDelta with
  | none => .ok ()
  | some compact =>
    match compact.backing with
    | none => .error (.failedPrecondition "compact delta has no backing")
    | some backing => checkSameLayout (.owned backing) fullBacking

def ensurePreviousRealtimeIsEmpty (previous : ShardState) : StatusOr Unit :=
  match previous.realtimeDelta with
  | none => .ok ()
  | some realtime => do
    let visibleRows ← realtime.scanVisibleRows realtime.captureCompactionBoundary
    failIf (!visibleRows.isEmpty)
      (.failedPrecondition "full rebase cutover requires previous realtime delta to be empty")

def buildRebasedFullSnapshot (request : FullRebaseBuildRequest) : StatusOr OwnedSnapshotBacking := do
  failIf (!forwardIndexModeUsesCompactDelta request.mode)
    (.failedPrecondition "internal full rebase is disabled for forward index mode")
  failIf request.externalAsyncLoadActive
    (.failedPrecondition "external async load is active; internal full rebase is deferred")
  match request.state.fullSnapshot.bind (·.backing) with
  | none => .error (.failedPrecondition "full rebase requires a full snapshot")
  | some fullBacking =>
    checkCompactDelta request.state fullBacking
    let builder : SnapshotBuilder := { layout := fullBacking.layout,options := request.buildOptions }
    let rows ← compactRows request.state
    let sink ← rows.foldlM addRowIfNew (builder,[])
    let fullRows ← enumerateSnapshotRows fullBacking
    let sink ← fullRows.foldlM addRowIfNew sink
    sink.1.sealSnapshot

def finishFullRebase (request : FinishFullRebaseRequest) : StatusOr ShardState := do
  failIf (!forwardIndexModeUsesCompactDelta request.mode)
    (.failedPrecondition "internal full rebase is disabled for forward index mode")
  failIf request.fullBacking.isNone (.invalidArgument "rebased full backing is null")
  ensurePreviousRealtimeIsEmpty request.previous
  return {
    shardId := request.previous.shardId,generation := request.successorGeneration
    realtimeDelta := request.rebaseRealtime
    fullSnapshot := some { backing := request.fullBacking.map .owned } }

/-- A state for a rebase: its realtime table can answer, and the layouts of its two
snapshots are equal when their versions and fingerprints are. -/
structure Rebasable (state : ShardState) : Prop where
  realtime : ∀ table, state.realtimeDelta = some table → table.Reachable ∧ table.layout.isSome
  layouts : ∀ compact full compactLayout fullLayout,
    state.compactDelta.bind (·.backing) = some compact →
    state.fullSnapshot.bind (·.backing) = some full →
    compact.layout = some compactLayout → full.layout = some fullLayout →
    compactLayout.schemaVersion = fullLayout.schemaVersion →
    compactLayout.layoutFingerprint = fullLayout.layoutFingerprint → compactLayout = fullLayout

theorem checkSameLayout_eq_ok {lhs rhs : SnapshotBacking} {u : Unit}
    (h : checkSameLayout lhs rhs = .ok u) :
    ∃ lhsLayout rhsLayout, lhs.layout = some lhsLayout ∧ rhs.layout = some rhsLayout ∧
      lhsLayout.schemaVersion = rhsLayout.schemaVersion ∧
      lhsLayout.layoutFingerprint = rhsLayout.layoutFingerprint := by
  rw [checkSameLayout] at h
  cases hl : lhs.layout with
  | none =>
    rw [hl] at h
    cases h
  | some lhsLayout =>
    cases hr : rhs.layout with
    | none =>
      rw [hl,hr] at h
      cases h
    | some rhsLayout =>
      rw [hl,hr] at h
      simp only [bind_eq_ok,failIf_eq_ok,exists_const,Bool.or_eq_false_iff,
        bne_eq_false_iff_eq] at h
      exact ⟨lhsLayout,rhsLayout,rfl,rfl,h.1.1.1,h.1.1.2⟩

/-- A compact delta that passed the checks has the layout of the full snapshot. -/
theorem Rebasable.compact_layout {state : ShardState} (hs : Rebasable state)
    {full : SnapshotBacking} (hfull : state.fullSnapshot.bind (·.backing) = some full)
    {layout : CompiledRowLayout} (hl : full.layout = some layout) {u : Unit}
    (h : checkCompactDelta state full = .ok u) :
    ∀ compact, state.compactDelta = some compact →
      ∃ backing, compact.backing = some backing ∧ backing.layout = some layout := by
  intro compact hc
  rw [checkCompactDelta,hc] at h
  cases hb : compact.backing with
  | none =>
    simp only [hb] at h
    cases h
  | some backing =>
    simp only [hb] at h
    obtain ⟨compactLayout,fullLayout,hcl,hfl,hversion,hfingerprint⟩ := checkSameLayout_eq_ok h
    have heq := hs.layouts backing full compactLayout fullLayout (by rw [hc]; exact hb) hfull hcl hfl
      hversion hfingerprint
    rw [hl,Option.some.injEq] at hfl
    exact ⟨backing,rfl,by rw [hfl,← heq]; exact hcl⟩

theorem fullRows_get {state : ShardState} {full : SnapshotBacking}
    (hfull : state.fullSnapshot.bind (·.backing) = some full) {rows : List SnapshotRow}
    (h : enumerateSnapshotRows full = .ok rows) (k : UInt64) :
    state.fullGet k =
      answer full.layout ((FirstWins.find SnapshotRow.primaryKey rows k).map (·.encoded)) := by
  obtain ⟨_,_,hget⟩ := snapshotGet_of_enumerate h
  obtain ⟨view,hview,hbacking⟩ := Option.bind_eq_some_iff.mp hfull
  rw [ShardState.fullGet,hview]
  simp only [FullSnapshotView.get,hbacking,hget k]

theorem addRowIfNew_layout {sink sink' : SnapshotBuilder×List UInt64} {row : SnapshotRow}
    (h : addRowIfNew sink row = .ok sink') : sink'.1.layout = sink.1.layout := by
  rw [addRowIfNew] at h
  split_ifs at h
  · cases h
    rfl
  · simp only [bind_eq_ok,pure_eq_ok,Except.ok.injEq] at h
    obtain ⟨builder,hadd,rfl⟩ := h
    rw [SnapshotBuilder.addRow] at hadd
    cases hl : sink.1.layout with
    | none =>
      rw [hl] at hadd
      cases hadd
    | some layout =>
      rw [hl] at hadd
      simp only [bind_eq_ok,failIf_eq_ok,exists_const,pure_eq_ok,Except.ok.injEq] at hadd
      obtain ⟨_,_,_,_,rfl⟩ := hadd
      rfl

theorem addRowsIfNew_layout {sink sink' : SnapshotBuilder×List UInt64} {rows : List SnapshotRow}
    (h : rows.foldlM addRowIfNew sink = .ok sink') : sink'.1.layout = sink.1.layout := by
  induction rows generalizing sink with
  | nil =>
    cases h
    rfl
  | cons row rows ih =>
    rw [List.foldlM_cons,bind_eq_ok] at h
    obtain ⟨mid,hstep,hrest⟩ := h
    rw [ih hrest,addRowIfNew_layout hstep]

/-- The rebased snapshot answers as the compact delta over the full snapshot. -/
theorem Rebasable.buildRebasedFullSnapshot_get {state : ShardState} (hs : Rebasable state)
    {active : Bool} {options : SnapshotBuildOptions} {mode : ForwardIndexMode}
    {backing : OwnedSnapshotBacking}
    (h : buildRebasedFullSnapshot ⟨state,active,options,mode⟩ = .ok backing) (k : UInt64) :
    snapshotGet (some (.owned backing)) k = ifMiss (state.compactGet k) (state.fullGet k) := by
  simp only [buildRebasedFullSnapshot,bind_eq_ok,failIf_eq_ok,exists_const] at h
  obtain ⟨_,_,h⟩ := h
  cases hfull : state.fullSnapshot.bind (·.backing) with
  | none =>
    simp only [hfull] at h
    cases h
  | some full =>
    simp only [hfull,bind_eq_ok] at h
    obtain ⟨_,hcheck,rows,hrows,sink₁,h₁,fullRows,hfullRows,sink₂,h₂,hseal⟩ := h
    cases hl : full.layout with
    | none =>
      rw [hl] at h₁
      have hnone : sink₂.1.layout = none := by
        rw [addRowsIfNew_layout h₂,addRowsIfNew_layout h₁]
      simp only [SnapshotBuilder.sealSnapshot,hnone] at hseal
      cases hseal
    | some layout =>
      rw [hl] at h₁
      obtain ⟨hfitsC,hgetC⟩ := compactRows_get (hs.compact_layout hfull hl hcheck) hrows
      obtain ⟨_,hget⟩ := mergedGet hfitsC (enumerate_fits hl hfullRows) h₁ h₂ hseal
      rw [hget,← hgetC,fullRows_get hfull hfullRows,hl]

theorem realtimeGet_of_empty {state : ShardState}
    (hs : ∀ table, state.realtimeDelta = some table → table.Reachable ∧ table.layout.isSome)
    {u : Unit} (h : ensurePreviousRealtimeIsEmpty state = .ok u) (k : UInt64) :
    state.realtimeGet k = .ok none := by
  rw [ensurePreviousRealtimeIsEmpty] at h
  rw [ShardState.realtimeGet]
  cases hr : state.realtimeDelta with
  | none => rfl
  | some table =>
    obtain ⟨hreach,hlayout⟩ := hs table hr
    obtain ⟨layout,hl⟩ := Option.isSome_iff_exists.mp hlayout
    rw [hr] at h
    simp only [bind_eq_ok,failIf_eq_ok,Bool.not_eq_false'] at h
    obtain ⟨visible,hscan,hempty⟩ := h
    obtain ⟨_,hget⟩ := scanned_get hreach.sound hl hscan
    rw [List.isEmpty_iff] at hempty
    subst hempty
    exact hget k

/-- A full rebase preserves lookups: the rebase table answers first, and behind it
every key answers as in the previous state. -/
theorem fullRebase_preserves_get {state : ShardState} (hs : Rebasable state) (active : Bool)
    (options : SnapshotBuildOptions) (mode mode' : ForwardIndexMode) (generation : UInt64)
    (rebase : RealtimeDeltaAtomicTable) (hrebase : rebase.Reachable)
    {backing : OwnedSnapshotBacking} {next : ShardState}
    (hbuild : buildRebasedFullSnapshot ⟨state,active,options,mode⟩ = .ok backing)
    (hfinish : finishFullRebase ⟨state,generation,some rebase,some backing,mode'⟩ = .ok next) :
    next.compactDelta = none ∧
      ∀ k, (∀ row, rebase.get k = .ok (some row) → next.get k = .ok (some row)) ∧
        (rebase.get k = .ok none → next.get k = state.get k) ∧
        (rebase.layout.isSome → ∃ answer, rebase.get k = .ok answer) := by
  simp only [finishFullRebase,bind_eq_ok,failIf_eq_ok,exists_const,pure_eq_ok,
    Except.ok.injEq] at hfinish
  obtain ⟨_,_,_,hempty,rfl⟩ := hfinish
  refine ⟨rfl,fun k => ?_⟩
  have hnext : ShardState.get ⟨state.shardId,generation,some rebase,none,
      some ⟨some (.owned backing)⟩⟩ k = ifMiss (rebase.get k) (state.get k) := by
    have hfull := hs.buildRebasedFullSnapshot_get hbuild k
    show ifMiss (rebase.get k) (snapshotGet (some (.owned backing)) k) = _
    rw [hfull,ShardState.get,realtimeGet_of_empty hs.realtime hempty,ifMiss_none]
  refine ⟨?_,?_,?_⟩
  · intro row hrow
    show ShardState.get ⟨state.shardId,generation,some rebase,none,
      some ⟨some (.owned backing)⟩⟩ k = _
    rw [hnext,hrow]
    rfl
  · intro hmiss
    show ShardState.get ⟨state.shardId,generation,some rebase,none,
      some ⟨some (.owned backing)⟩⟩ k = _
    rw [hnext,hmiss]
    rfl
  · intro hlayout
    obtain ⟨layout,hl⟩ := Option.isSome_iff_exists.mp hlayout
    exact ⟨_,hrebase.sound.get_eq hl k⟩

def sampleFullState : ShardState where
  shardId := 0
  generation := 1
  realtimeDelta := some (sampleTable 4)
  compactDelta := some ⟨some (sampleSnapshot [7])⟩
  fullSnapshot := some ⟨some (.owned (sampleSnapshot [7,8]))⟩

theorem sampleFullState_rebasable : Rebasable sampleFullState where
  realtime := by
    intro table h
    cases h
    exact ⟨sampleTable_reachable 4,rfl⟩
  layouts := by
    intro compact full compactLayout fullLayout hc hf hcl hfl _ _
    have hcompact : (sampleSnapshot [7]).layout = some sampleLayout := by decide +kernel
    have hfull : (sampleSnapshot [7,8]).layout = some sampleLayout := by decide +kernel
    simp only [sampleFullState,Option.bind_some,Option.some.injEq] at hc hf
    rw [← hc,hcompact,Option.some.injEq] at hcl
    rw [← hf,SnapshotBacking.layout,hfull,Option.some.injEq] at hfl
    rw [← hcl,hfl]

theorem fullRebase_preserves_get_sample : ∃ backing next,
    buildRebasedFullSnapshot ⟨sampleFullState,false,{},.kRealtimeDelta⟩ = .ok backing ∧
    finishFullRebase ⟨sampleFullState,2,some ((sampleTable 4).publishAll [sampleCall 9 0]),some backing,
      .kRealtimeDelta⟩ = .ok next ∧
    next.get 7 = sampleFullState.get 7 ∧ next.get 8 = sampleFullState.get 8 := by
  cases hbuild : buildRebasedFullSnapshot ⟨sampleFullState,false,{},.kRealtimeDelta⟩ with
  | error status =>
    have hok : (buildRebasedFullSnapshot ⟨sampleFullState,false,{},.kRealtimeDelta⟩).isOk = true := by
      decide +kernel
    rw [hbuild] at hok
    cases hok
  | ok backing =>
    have hempty : ensurePreviousRealtimeIsEmpty sampleFullState = .ok () := by decide +kernel
    have hfinish : finishFullRebase ⟨sampleFullState,2,some ((sampleTable 4).publishAll [sampleCall 9 0]),
        some backing,.kRealtimeDelta⟩ = .ok ⟨0,2,some ((sampleTable 4).publishAll [sampleCall 9 0]),none,
          some ⟨some (.owned backing)⟩⟩ := by
      simp only [finishFullRebase,hempty,ok_bind]
      rfl
    obtain ⟨_,hget⟩ := fullRebase_preserves_get sampleFullState_rebasable false {} .kRealtimeDelta
      .kRealtimeDelta 2 ((sampleTable 4).publishAll [sampleCall 9 0])
      ((sampleTable_reachable 4).publishAll _) hbuild hfinish
    refine ⟨backing,_,rfl,hfinish,(hget 7).2.1 ?_,(hget 8).2.1 ?_⟩
    · decide +kernel
    · decide +kernel

end Rebuild
end KvIndex
