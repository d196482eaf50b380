import KvIndex.Compaction
import KvIndex.RealtimeOrder

/-! Runs of one shard through publishes and delta compaction cutovers. From the
capture of a boundary to the cutover every publish is written to the serving table
and to its successor. A snapshot keeps no source positions, so the run remembers
which publish the row of a compacted key came from. -/
namespace KvIndex
namespace Rebuild

open RealtimeDeltaAtomicTable (PublishCall sourceOffset sampleTable sampleCall sampleLayout
  sampleTable_reachable)

/-- A compaction under way: the serving table when its boundary was captured, and the
successor table. -/
structure DoubleWrite where
  captured : RealtimeDeltaAtomicTable
  successor : RealtimeDeltaAtomicTable

structure CompactionRun where
  layers : ShardState
  table : RealtimeDeltaAtomicTable
  window : Option DoubleWrite := none
  compacted : UInt64 → Option PublishCall := fun _ => none

inductive CompactionEvent
  | publish (call : PublishCall)
  | capture (capacity hashSeed : UInt64) (hashVersion : UInt32)
  | cutover (options : SnapshotBuildOptions) (generation : UInt64)

namespace CompactionRun

def serving (run : CompactionRun) : ShardState := run.layers.withRealtime run.table

/-- A publish to the serving table and, while a compaction is under way, to the successor. -/
def publish (run : CompactionRun) (call : PublishCall) : Option CompactionRun :=
  match run.table.publish call.primaryKey call.position call.encoded with
  | (.error _,_) => none
  | (.ok _,table) =>
    match run.window with
    | none => some { run with table }
    | some window =>
      match window.successor.publish call.primaryKey call.position call.encoded with
      | (.error _,_) => none
      | (.ok _,successor) => some { run with table,window := some { window with successor } }

def cutover (run : CompactionRun) (options : SnapshotBuildOptions) (generation : UInt64) :
    Option CompactionRun :=
  match run.window with
  | none => none
  | some window =>
    match buildCompactedDeltaSnapshot ⟨run.serving,window.captured.captureCompactionBoundary,options,
      .kRealtimeDelta⟩ with
    | .error _ => none
    | .ok backing =>
      match finishDeltaCompaction ⟨run.serving,generation,some window.successor,some backing,
        .kRealtimeDelta⟩ with
      | .error _ => none
      | .ok next => some {
          layers := next,table := window.successor
          compacted := fun k => (window.captured.latest k).or (run.compacted k) }

/-- One successful event. A capture while a compaction is under way starts it over. -/
def step (run : CompactionRun) : CompactionEvent → Option CompactionRun
  | .publish call => run.publish call
  | .capture capacity hashSeed hashVersion => some { run with window := some {
      captured := run.table
      successor := .create { layout := run.table.layout,capacity,hashSeed,hashVersion } } }
  | .cutover options generation => run.cutover options generation

def runs (run : CompactionRun) (events : List CompactionEvent) : Option CompactionRun :=
  events.foldlM step run

def served (run : CompactionRun) (k : UInt64) : Option PublishCall :=
  (run.table.latest k).or (run.compacted k)

/-- The source offset of the row that a lookup returns; `⊥` for a row that was not
published in the run. -/
def servedOffset (run : CompactionRun) (k : UInt64) : WithBot ℤ :=
  LastWriter.position sourceOffset run.served k

/-- A publish that is older than the served row of its key must find the key in every
table that it is written to. -/
def Safe (run : CompactionRun) : CompactionEvent → Prop
  | .publish call => (∀ c ∈ run.served call.primaryKey, sourceOffset c ≤ sourceOffset call) ∨
      ((run.table.latest call.primaryKey).isSome ∧
        ∀ window ∈ run.window, (window.successor.latest call.primaryKey).isSome)
  | _ => True

instance (run : CompactionRun) (event : CompactionEvent) : Decidable (run.Safe event) :=
  match event with
  | .publish _ => inferInstanceAs (Decidable (_ ∨ _))
  | .capture _ _ _ => isTrue trivial
  | .cutover _ _ => isTrue trivial

def SafeRun (run : CompactionRun) : List CompactionEvent → Prop
  | [] => True
  | event::events => run.Safe event ∧
      match run.step event with
      | none => True
      | some run' => SafeRun run' events

instance decidableSafeRun (run : CompactionRun) :
    (events : List CompactionEvent) → Decidable (run.SafeRun events)
  | [] => isTrue trivial
  | event::events =>
    match h : run.step event with
    | none => decidable_of_iff (run.Safe event) (by simp [SafeRun,h])
    | some run' =>
      have := decidableSafeRun run' events
      decidable_of_iff (run.Safe event ∧ run'.SafeRun events) (by simp [SafeRun,h])

theorem publish_eq_some {run run' : CompactionRun} {call : PublishCall}
    (h : run.publish call = some run') :
    (run.table.publish call.primaryKey call.position call.encoded).1 = .ok () ∧
      ((run.window = none ∧ run' = { run with
          table := (run.table.publish call.primaryKey call.position call.encoded).2 }) ∨
        ∃ w, run.window = some w ∧
          (w.successor.publish call.primaryKey call.position call.encoded).1 = .ok () ∧
          run' = { run with
            table := (run.table.publish call.primaryKey call.position call.encoded).2
            window := some { w with successor :=
              (w.successor.publish call.primaryKey call.position call.encoded).2 } }) := by
  rw [CompactionRun.publish] at h
  cases hp : run.table.publish call.primaryKey call.position call.encoded with
  | mk status table =>
    cases status with
    | error status =>
      rw [hp] at h
      cases h
    | ok u =>
      rw [hp] at h
      cases hw : run.window with
      | none =>
        simp only [hw,Option.some.injEq] at h
        exact ⟨rfl,Or.inl ⟨rfl,h.symm⟩⟩
      | some w =>
        cases hs : w.successor.publish call.primaryKey call.position call.encoded with
        | mk status successor =>
          cases status with
          | error status =>
            simp only [hw,hs] at h
            cases h
          | ok u' =>
            simp only [hw,hs,Option.some.injEq] at h
            exact ⟨rfl,Or.inr ⟨w,rfl,by rw [hs],by rw [hs]; exact h.symm⟩⟩

theorem cutover_eq_some {run run' : CompactionRun} {options : SnapshotBuildOptions}
    {generation : UInt64} (h : run.cutover options generation = some run') :
    ∃ w backing next, run.window = some w ∧
      buildCompactedDeltaSnapshot ⟨run.serving,w.captured.captureCompactionBoundary,options,
        .kRealtimeDelta⟩ = .ok backing ∧
      finishDeltaCompaction ⟨run.serving,generation,some w.successor,some backing,
        .kRealtimeDelta⟩ = .ok next ∧
      run' = {
        layers := next,table := w.successor
        compacted := fun k => (w.captured.latest k).or (run.compacted k) } := by
  rw [CompactionRun.cutover] at h
  cases hw : run.window with
  | none =>
    rw [hw] at h
    cases h
  | some w =>
    simp only [hw] at h
    cases hb : buildCompactedDeltaSnapshot ⟨run.serving,w.captured.captureCompactionBoundary,options,
        .kRealtimeDelta⟩ with
    | error status =>
      simp only [hb] at h
      cases h
    | ok backing =>
      simp only [hb] at h
      cases hf : finishDeltaCompaction ⟨run.serving,generation,some w.successor,some backing,
          .kRealtimeDelta⟩ with
      | error status =>
        simp only [hf] at h
        cases h
      | ok next =>
        simp only [hf,Option.some.injEq] at h
        exact ⟨w,backing,next,rfl,hb,hf,h.symm⟩

/-- What a lookup of a key returns when its row came from the publish `call`, over what
the snapshots of the first state answer. -/
def rowOf (layout : CompiledRowLayout) (base : UInt64 → StatusOr (Option Row)) (k : UInt64) :
    Option PublishCall → StatusOr (Option Row)
  | some call => .ok (some ⟨layout,call.encoded⟩)
  | none => base k

/-- The layers share a layout, the compacted rows are the ones the run remembers, and the
tables of an open window have seen the publishes since the capture. -/
structure Wf (run : CompactionRun) (layout : CompiledRowLayout)
    (base : UInt64 → StatusOr (Option Row)) : Prop where
  shares : SharesLayout run.serving run.table layout
  snapshots : ∀ k, ifMiss (run.layers.compactGet k) (run.layers.fullGet k) =
    rowOf layout base k (run.compacted k)
  window : ∀ w, run.window = some w → w.captured.Reachable ∧ w.captured.layout = some layout ∧
    w.successor.Reachable ∧ w.successor.layout = some layout ∧
    ∃ calls, run.table = w.captured.publishAll calls

/-- A table of the layout over snapshots answers for the publish that it shows. -/
theorem tableGet_rowOf {table : RealtimeDeltaAtomicTable} {layout : CompiledRowLayout}
    (hs : table.Sound) (hl : table.layout = some layout) {base : UInt64 → StatusOr (Option Row)}
    {k : UInt64} {behind : Option PublishCall} :
    ifMiss (table.get k) (rowOf layout base k behind) =
      rowOf layout base k ((table.latest k).or behind) := by
  rw [hs.get_eq_latest hl]
  cases table.latest k with
  | none => rfl
  | some call => rfl

theorem Wf.get_eq {run : CompactionRun} {layout : CompiledRowLayout}
    {base : UInt64 → StatusOr (Option Row)} (hw : run.Wf layout base) (k : UInt64) :
    run.serving.get k = rowOf layout base k (run.served k) := by
  show ifMiss (run.table.get k) (ifMiss (run.layers.compactGet k) (run.layers.fullGet k)) = _
  rw [hw.snapshots,tableGet_rowOf hw.shares.reachable.sound hw.shares.realtimeLayout,served]

theorem Wf.publish {run run' : CompactionRun} {layout : CompiledRowLayout}
    {base : UInt64 → StatusOr (Option Row)} (hw : run.Wf layout base) {call : PublishCall}
    (h : run.publish call = some run') : run'.Wf layout base := by
  have hshare := hw.shares.withTable
    (hw.shares.reachable.publish call.primaryKey call.position call.encoded)
    ((RealtimeDeltaAtomicTable.publish_layout _ _ _ _).trans hw.shares.realtimeLayout)
  obtain ⟨_,⟨hnone,rfl⟩ | ⟨w,hsome,_,rfl⟩⟩ := publish_eq_some h
  · refine ⟨hshare,hw.snapshots,fun w hw' => ?_⟩
    simp only [hnone,reduceCtorEq] at hw'
  · refine ⟨hshare,hw.snapshots,fun w' hw' => ?_⟩
    simp only [Option.some.injEq] at hw'
    subst hw'
    obtain ⟨hc,hcl,hsr,hsl,calls,htable⟩ := hw.window w hsome
    refine ⟨hc,hcl,hsr.publish _ _ _,(RealtimeDeltaAtomicTable.publish_layout _ _ _ _).trans hsl,
      calls++[call],?_⟩
    rw [htable]
    exact RealtimeDeltaAtomicTable.publishAll_snoc _ _ _

theorem Wf.cutover {run run' : CompactionRun} {layout : CompiledRowLayout}
    {base : UInt64 → StatusOr (Option Row)} (hw : run.Wf layout base)
    {options : SnapshotBuildOptions} {generation : UInt64}
    (h : run.cutover options generation = some run') : run'.Wf layout base := by
  obtain ⟨w,backing,next,hsome,hbuild,hfinish,rfl⟩ := cutover_eq_some h
  obtain ⟨hc,hcl,hsr,hsl,calls,htable⟩ := hw.window w hsome
  have hat := hw.shares.withTable hc hcl
  have hserving : run.serving =
      (run.serving.withRealtime w.captured).withRealtime (w.captured.publishAll calls) := by
    rw [← htable]
    rfl
  rw [hserving] at hbuild hfinish
  obtain ⟨_,rfl,hlayout,hbehind⟩ := hat.cutover hbuild hfinish
  refine ⟨⟨hw.shares.slot,rfl,hsr,hsl,?_,hw.shares.full⟩,?_,?_⟩
  · intro compact hcompact
    cases hcompact
    exact ⟨backing,rfl,hlayout⟩
  · intro k
    rw [hbehind]
    show ifMiss (w.captured.get k) (ifMiss (run.layers.compactGet k) (run.layers.fullGet k)) = _
    rw [hw.snapshots,tableGet_rowOf hc.sound hcl]
  · intro w' hw'
    cases hw'

theorem Wf.step {run run' : CompactionRun} {layout : CompiledRowLayout}
    {base : UInt64 → StatusOr (Option Row)} (hw : run.Wf layout base) {event : CompactionEvent}
    (h : run.step event = some run') : run'.Wf layout base := by
  cases event with
  | publish call => exact hw.publish h
  | cutover options generation => exact hw.cutover h
  | capture capacity hashSeed hashVersion =>
    cases h
    refine ⟨hw.shares,hw.snapshots,fun w hsome => ?_⟩
    cases hsome
    exact ⟨hw.shares.reachable,hw.shares.realtimeLayout,.create _,hw.shares.realtimeLayout,[],rfl⟩

/-- In an open window the successor table is up to date for every key that it holds, and
a key that it does not hold has not been published since the capture. -/
def Ordered (run : CompactionRun) : Prop :=
  ∀ w, run.window = some w → ∀ k,
    (¬(w.successor.latest k).isSome → run.table.latest k = w.captured.latest k) ∧
    ((w.successor.latest k).isSome → (run.table.latest k).isSome ∧
      run.servedOffset k ≤ LastWriter.position sourceOffset w.successor.latest k)

theorem servedOffset_of_held {run : CompactionRun} {k : UInt64} (h : (run.table.latest k).isSome) :
    run.servedOffset k = LastWriter.position sourceOffset run.table.latest k := by
  obtain ⟨c,hc⟩ := Option.isSome_iff_exists.mp h
  rw [servedOffset,LastWriter.position,LastWriter.position,served,hc]
  rfl

theorem position_of_absent {state : UInt64 → Option PublishCall} {k : UInt64}
    (h : ¬(state k).isSome) : LastWriter.position sourceOffset state k = ⊥ := by
  rw [LastWriter.position,Option.not_isSome_iff_eq_none.mp h]

theorem servedOffset_le {run : CompactionRun} {k : UInt64} {call : PublishCall}
    (h : ∀ c ∈ run.served k, sourceOffset c ≤ sourceOffset call) :
    run.servedOffset k ≤ sourceOffset call := by
  rw [servedOffset,LastWriter.position]
  cases hs : run.served k with
  | none => exact bot_le
  | some c => exact WithBot.coe_le_coe.mpr (h c hs)

/-- A safe publish raises the served offset of its key, and touches no other key. -/
theorem publish_served {run run' : CompactionRun} {call : PublishCall}
    (hsafe : run.Safe (.publish call))
    (htable : run'.table.latest =
      LastWriter.write PublishCall.primaryKey sourceOffset run.table.latest call)
    (hcompacted : run'.compacted = run.compacted) (k : UInt64) :
    run'.servedOffset k =
      if k = call.primaryKey then max (run.servedOffset k) (sourceOffset call)
      else run.servedOffset k := by
  split_ifs with hk
  · subst hk
    have hheld : (run'.table.latest call.primaryKey).isSome := by
      rw [htable]
      exact LastWriter.write_isSome _ _
    rw [servedOffset_of_held hheld,htable,LastWriter.position_write_self]
    by_cases h : (run.table.latest call.primaryKey).isSome
    · rw [servedOffset_of_held h]
    · have hle : run.servedOffset call.primaryKey ≤ sourceOffset call := by
        rcases hsafe with hsafe | hsafe
        · exact servedOffset_le hsafe
        · exact absurd hsafe.1 h
      rw [position_of_absent h,max_eq_right hle,max_eq_right bot_le]
  · rw [servedOffset,servedOffset,LastWriter.position,LastWriter.position,served,served,htable,
      LastWriter.write_of_ne _ hk,hcompacted]

theorem Wf.publish_ordered {run run' : CompactionRun} {layout : CompiledRowLayout}
    {base : UInt64 → StatusOr (Option Row)} (hw : run.Wf layout base) (ho : run.Ordered)
    {call : PublishCall} (hsafe : run.Safe (.publish call)) (h : run.publish call = some run') :
    run'.Ordered ∧ ∀ k, run.servedOffset k ≤ run'.servedOffset k := by
  obtain ⟨hok,hcases⟩ := publish_eq_some h
  have hlatest := hw.shares.reachable.sound.publish_latest hok
  have hserved : ∀ k, run'.servedOffset k =
      if k = call.primaryKey then max (run.servedOffset k) (sourceOffset call)
      else run.servedOffset k := by
    obtain ⟨_,rfl⟩ | ⟨w,_,_,rfl⟩ := hcases
    · exact publish_served hsafe hlatest rfl
    · exact publish_served hsafe hlatest rfl
  refine ⟨?_,?_⟩
  · obtain ⟨hnone,rfl⟩ | ⟨w,hsome,hok',rfl⟩ := hcases
    · intro w hw'
      simp only [hnone,reduceCtorEq] at hw'
    · intro w' hw'
      cases hw'
      intro k
      have hold := ho w hsome k
      obtain ⟨_,_,hsr,_⟩ := hw.window w hsome
      simp only [hsr.sound.publish_latest hok',hserved,hlatest]
      by_cases hk : k = call.primaryKey
      · subst hk
        refine ⟨fun hno => absurd (LastWriter.write_isSome _ _) hno,fun _ => ?_⟩
        refine ⟨LastWriter.write_isSome _ _,?_⟩
        rw [if_pos rfl,LastWriter.position_write_self]
        by_cases hheld : (w.successor.latest call.primaryKey).isSome
        · exact max_le_max (hold.2 hheld).2 le_rfl
        · -- A key new to the successor is published at or above the served offset.
          have hle : run.servedOffset call.primaryKey ≤ sourceOffset call := by
            rcases hsafe with hsafe | hsafe
            · exact servedOffset_le hsafe
            · exact absurd (hsafe.2 w hsome) hheld
          exact max_le (hle.trans (le_max_right _ _)) (le_max_right _ _)
      · simp only [LastWriter.position,LastWriter.write_of_ne _ hk,if_neg hk]
        exact hold
  · intro k
    rw [hserved]
    split_ifs
    · exact le_max_left _ _
    · exact le_rfl

theorem cutover_ordered {run run' : CompactionRun} (ho : run.Ordered)
    {options : SnapshotBuildOptions} {generation : UInt64}
    (h : run.cutover options generation = some run') :
    run'.Ordered ∧ ∀ k, run.servedOffset k ≤ run'.servedOffset k := by
  obtain ⟨w,backing,next,hsome,_,_,hrun⟩ := cutover_eq_some h
  have hwindow : run'.window = none := by rw [hrun]
  have htable : run'.table = w.successor := by rw [hrun]
  have hcompacted : ∀ k, run'.compacted k = (w.captured.latest k).or (run.compacted k) := by
    intro k
    rw [hrun]
  refine ⟨?_,?_⟩
  · intro w' hw'
    rw [hwindow] at hw'
    cases hw'
  · intro k
    obtain ⟨habsent,hheld⟩ := ho w hsome k
    by_cases hs : (w.successor.latest k).isSome
    · rw [← htable] at hs hheld
      rw [servedOffset_of_held hs]
      exact (hheld hs).2
    · have hnone := Option.not_isSome_iff_eq_none.mp hs
      have hsame : run'.served k = run.served k := by
        rw [served,served,htable,hcompacted,habsent hs,hnone,Option.none_or]
      rw [servedOffset,servedOffset,LastWriter.position,LastWriter.position,hsame]

theorem Wf.step_ordered {run run' : CompactionRun} {layout : CompiledRowLayout}
    {base : UInt64 → StatusOr (Option Row)} (hw : run.Wf layout base) (ho : run.Ordered)
    {event : CompactionEvent} (hsafe : run.Safe event) (h : run.step event = some run') :
    run'.Ordered ∧ ∀ k, run.servedOffset k ≤ run'.servedOffset k := by
  cases event with
  | publish call => exact hw.publish_ordered ho hsafe h
  | cutover options generation => exact cutover_ordered ho h
  | capture capacity hashSeed hashVersion =>
    cases h
    refine ⟨fun w hsome k => ?_,fun k => le_rfl⟩
    cases hsome
    refine ⟨fun _ => rfl,fun hheld => ?_⟩
    rw [RealtimeDeltaAtomicTable.latest_create] at hheld
    cases hheld

/-- A safe run keeps its invariants and never lowers the offset of a served row. -/
theorem Wf.runs_ordered {run run' : CompactionRun} {layout : CompiledRowLayout}
    {base : UInt64 → StatusOr (Option Row)} (hw : run.Wf layout base) (ho : run.Ordered)
    {events : List CompactionEvent} (hsafe : run.SafeRun events)
    (h : run.runs events = some run') :
    run'.Wf layout base ∧ run'.Ordered ∧ ∀ k, run.servedOffset k ≤ run'.servedOffset k := by
  induction events generalizing run with
  | nil =>
    cases h
    exact ⟨hw,ho,fun k => le_rfl⟩
  | cons event events ih =>
    rw [runs,List.foldlM_cons] at h
    cases hstep : run.step event with
    | none =>
      rw [hstep] at h
      cases h
    | some mid =>
      rw [hstep] at h
      simp only [SafeRun,hstep] at hsafe
      obtain ⟨ho',hle⟩ := hw.step_ordered ho hsafe.1 hstep
      obtain ⟨hw'',ho'',hle'⟩ := ih (hw.step hstep) ho' hsafe.2 h
      exact ⟨hw'',ho'',fun k => (hle k).trans (hle' k)⟩

theorem safeRun_append {run mid : CompactionRun} {before after : List CompactionEvent}
    (h : run.SafeRun (before++after)) (hrun : run.runs before = some mid) :
    run.SafeRun before ∧ mid.SafeRun after := by
  induction before generalizing run with
  | nil =>
    cases hrun
    exact ⟨trivial,h⟩
  | cons event events ih =>
    rw [runs,List.foldlM_cons] at hrun
    cases hstep : run.step event with
    | none =>
      rw [hstep] at hrun
      cases hrun
    | some next =>
      rw [hstep] at hrun
      simp only [List.cons_append,SafeRun,hstep] at h ⊢
      obtain ⟨hb,ha⟩ := ih h.2 hrun
      exact ⟨⟨h.1,hb⟩,ha⟩

/-- The run that starts in a serving state, before its first event. -/
def start (state : ShardState) (table : RealtimeDeltaAtomicTable) : CompactionRun :=
  { layers := state,table }

theorem wf_start {state : ShardState} {table : RealtimeDeltaAtomicTable}
    {layout : CompiledRowLayout} (hshare : SharesLayout state table layout) :
    (start state table).Wf layout fun k => ifMiss (state.compactGet k) (state.fullGet k) := by
  refine ⟨hshare.withTable hshare.reachable hshare.realtimeLayout,fun k => rfl,fun w hw => ?_⟩
  cases hw

end CompactionRun

/-- Along every run in which a late replay finds its key in the tables it is written to,
the offset of the row that a key is served with never decreases. -/
theorem compactionRun_never_rolls_back {state : ShardState} {table : RealtimeDeltaAtomicTable}
    {layout : CompiledRowLayout} (hshare : SharesLayout state table layout)
    {before after : List CompactionEvent} {run run' : CompactionRun}
    (hbefore : (CompactionRun.start state table).runs before = some run)
    (hafter : run.runs after = some run')
    (hsafe : (CompactionRun.start state table).SafeRun (before++after)) (k : UInt64) :
    run.servedOffset k ≤ run'.servedOffset k ∧
      run.serving.get k = CompactionRun.rowOf layout
        (fun k => ifMiss (state.compactGet k) (state.fullGet k)) k (run.served k) ∧
      run'.serving.get k = CompactionRun.rowOf layout
        (fun k => ifMiss (state.compactGet k) (state.fullGet k)) k (run'.served k) := by
  obtain ⟨hsafe₁,hsafe₂⟩ := CompactionRun.safeRun_append hsafe hbefore
  have ho : (CompactionRun.start state table).Ordered := fun w hw => by cases hw
  obtain ⟨hw₁,ho₁,_⟩ := (CompactionRun.wf_start hshare).runs_ordered ho hsafe₁ hbefore
  obtain ⟨hw₂,_,hle⟩ := hw₁.runs_ordered ho₁ hsafe₂ hafter
  exact ⟨hle k,hw₁.get_eq k,hw₂.get_eq k⟩

def sampleStart : CompactionRun := .start (sampleState []) (sampleTable 4)

/-- A replay inside one window is harmless: the tables hold the key. -/
def sampleWindow : List CompactionEvent :=
  [.publish (sampleCall 7 3),.capture 4 0 1,.publish (sampleCall 7 5)]

theorem compactionRun_never_rolls_back_sample : ∃ run run', sampleStart.runs sampleWindow = some run ∧
    run.runs [.publish (sampleCall 7 3),.cutover {} 2] = some run' ∧
    run.servedOffset 7 ≤ run'.servedOffset 7 := by
  have h₁ : (sampleStart.runs sampleWindow).isSome := by decide +kernel
  have h₂ : ((sampleStart.runs sampleWindow).bind
      (·.runs [.publish (sampleCall 7 3),.cutover {} 2])).isSome := by decide +kernel
  obtain ⟨run,hrun⟩ := Option.isSome_iff_exists.mp h₁
  rw [hrun,Option.bind_some] at h₂
  obtain ⟨run',hrun'⟩ := Option.isSome_iff_exists.mp h₂
  have hsafe : sampleStart.SafeRun (sampleWindow++[.publish (sampleCall 7 3),.cutover {} 2]) := by
    decide +kernel
  exact ⟨run,run',hrun,hrun',
    (compactionRun_never_rolls_back (sampleState_shares []) hrun hrun' hsafe 7).1⟩

/-- After the cutover the successor table does not hold the key, so the replay of its
first publish shadows the newer compacted row. -/
theorem lateReplay_rolls_back : ∃ run run',
    sampleStart.runs [.publish (sampleCall 7 3),.publish (sampleCall 7 5),.capture 4 0 1,
      .cutover {} 2] = some run ∧
    run.runs [.publish (sampleCall 7 3)] = some run' ∧
    run.serving.get 7 = .ok (some ⟨sampleLayout,(sampleCall 7 5).encoded⟩) ∧
    run'.serving.get 7 = .ok (some ⟨sampleLayout,(sampleCall 7 3).encoded⟩) ∧
    (run.served 7).map sourceOffset = some 5 ∧ (run'.served 7).map sourceOffset = some 3 ∧
    ¬run.servedOffset 7 ≤ run'.servedOffset 7 := by
  have hcheck : ((sampleStart.runs [.publish (sampleCall 7 3),.publish (sampleCall 7 5),
      .capture 4 0 1,.cutover {} 2]).bind fun run =>
      (run.runs [.publish (sampleCall 7 3)]).map fun run' => decide (
        run.serving.get 7 = .ok (some ⟨sampleLayout,(sampleCall 7 5).encoded⟩) ∧
        run'.serving.get 7 = .ok (some ⟨sampleLayout,(sampleCall 7 3).encoded⟩) ∧
        (run.served 7).map sourceOffset = some 5 ∧
        (run'.served 7).map sourceOffset = some 3)) = some true := by
    decide +kernel
  obtain ⟨run,hrun,hrest⟩ := Option.bind_eq_some_iff.mp hcheck
  obtain ⟨run',hrun',hdecide⟩ := Option.map_eq_some_iff.mp hrest
  obtain ⟨hget,hget',hfive,hthree⟩ := of_decide_eq_true hdecide
  refine ⟨run,run',hrun,hrun',hget,hget',hfive,hthree,?_⟩
  obtain ⟨c,hc,hco⟩ := Option.map_eq_some_iff.mp hfive
  obtain ⟨c',hc',hco'⟩ := Option.map_eq_some_iff.mp hthree
  simp only [CompactionRun.servedOffset,LastWriter.position,hc,hc',hco,hco']
  decide

end Rebuild
end KvIndex
