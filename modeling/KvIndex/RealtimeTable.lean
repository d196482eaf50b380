import KvIndex.RealtimeMap

/-! Histories of a realtime table. Every table reached by publishes is `Sound`: its
map answers for the newest row of each key, and a scan of its log finds the same
rows. A boundary stays valid under later publishes, which only append to the log. -/
namespace KvIndex
namespace RealtimeDeltaAtomicTable

open RealtimeAtomicHashMap (supersedes)

/-- The log and the map hold the same rows, and every visible row is one that a
lookup can hand out. -/
structure Sound (table : RealtimeDeltaAtomicTable) : Prop where
  map : table.map.Sound
  log : ∃ latest, table.rows.foldlM scanRow [] = .ok latest ∧
    FirstWins.Distinct RealtimeRowRef.primaryKey latest ∧
    ∀ k, FirstWins.find RealtimeRowRef.primaryKey latest k = table.map.visible k
  readable : ∀ {k row}, table.map.visible k = some row → ∃ layout, table.layout = some layout ∧
    Model.materializeRow layout row.encoded = .ok ⟨layout,row.encoded⟩ ∧
    row.encoded.rowSlot.length = layout.rowSlotSize

variable {table : RealtimeDeltaAtomicTable}

theorem buildRowRef_eq_ok {k : UInt64} {position : SourcePosition} {encoded : EncodedRow}
    {rowRef : RealtimeRowRef} (h : table.buildRowRef k position encoded = .ok rowRef) :
    rowRef.primaryKey = k ∧ rowRef.position = position ∧ rowRef.encoded = encoded ∧
      isValidSourcePosition position = true ∧
      ∃ layout, table.layout = some layout ∧
        Model.materializeRow layout encoded = .ok ⟨layout,encoded⟩ ∧
        encoded.rowSlot.length = layout.rowSlotSize := by
  rw [buildRowRef] at h
  cases hl : table.layout with
  | none =>
    rw [hl] at h
    cases h
  | some layout =>
    rw [hl] at h
    simp only [bind_eq_ok,failIf_eq_ok,exists_const,pure_eq_ok,Except.ok.injEq] at h
    obtain ⟨hvalid,_,hsize,row,hrow,rfl⟩ := h
    have hmat := Model.materializeRow_eq_ok hrow
    subst hmat
    refine ⟨rfl,rfl,rfl,by simpa using hvalid,layout,rfl,hrow,by simpa using hsize⟩

theorem publish_cases (table : RealtimeDeltaAtomicTable) (k : UInt64) (position : SourcePosition)
    (encoded : EncodedRow) :
    (∃ status, table.buildRowRef k position encoded = .error status ∧
      table.publish k position encoded = (.error status,table)) ∨
    (∃ status rowRef, table.buildRowRef k position encoded = .ok rowRef ∧
      table.map.publishAndReport k rowRef = .error status ∧
      table.publish k position encoded =
        (.error status,{ table with rows := table.rows++[{ ref := rowRef }] })) ∨
    (∃ rowRef visible map, table.buildRowRef k position encoded = .ok rowRef ∧
      table.map.publishAndReport k rowRef = .ok (visible,map) ∧
      table.publish k position encoded = (.ok (),{ table with
        map
        rows := table.rows++[{ ref := rowRef,sealedVisible := visible }]
        rowSlotBytes := table.rowSlotBytes+rowRef.rowSlotBytes
        payloadPoolBytes := table.payloadPoolBytes+rowRef.payloadPoolBytes })) := by
  cases hb : table.buildRowRef k position encoded with
  | error status => exact Or.inl ⟨status,rfl,by rw [publish,hb]⟩
  | ok rowRef =>
    cases hp : table.map.publishAndReport k rowRef with
    | error status => exact Or.inr (Or.inl ⟨status,rowRef,rfl,hp,by simp only [publish,hb,hp]⟩)
    | ok result =>
      obtain ⟨visible,map⟩ := result
      exact Or.inr (Or.inr ⟨rowRef,visible,map,rfl,hp,by simp only [publish,hb,hp]⟩)

theorem scanRow_unsealed (latest : List RealtimeRowRef) (rowRef : RealtimeRowRef) :
    scanRow latest { ref := rowRef } = .ok latest := rfl

theorem scanRow_sealed {latest : List RealtimeRowRef} {visible : UInt64 → Option RealtimeRowRef}
    (hd : FirstWins.Distinct RealtimeRowRef.primaryKey latest)
    (hfind : ∀ k, FirstWins.find RealtimeRowRef.primaryKey latest k = visible k)
    {rowRef : RealtimeRowRef} (hnew : supersedes (visible rowRef.primaryKey) rowRef = .ok true) :
    ∃ latest', scanRow latest { ref := rowRef,sealedVisible := true } = .ok latest' ∧
      FirstWins.Distinct RealtimeRowRef.primaryKey latest' ∧
      ∀ k, FirstWins.find RealtimeRowRef.primaryKey latest' k =
        Function.update visible rowRef.primaryKey (some rowRef) k := by
  cases hcur : visible rowRef.primaryKey with
  | none =>
    have hnone : FirstWins.find RealtimeRowRef.primaryKey latest rowRef.primaryKey = none := by
      rw [hfind,hcur]
    refine ⟨latest++[rowRef],by simp [scanRow,hnone],?_,?_⟩
    · rw [FirstWins.Distinct,List.map_append,List.nodup_append]
      refine ⟨hd,by simp,?_⟩
      intro a ha b hb
      obtain ⟨x,hx,rfl⟩ := List.mem_map.mp ha
      simp only [List.map_cons,List.map_nil,List.mem_singleton] at hb
      subst hb
      exact FirstWins.find_eq_none.mp hnone x hx
    · intro k
      rw [FirstWins.find_append,FirstWins.find_cons,Function.update_apply]
      by_cases hk : k = rowRef.primaryKey
      · subst hk
        simp [hnone]
      · have hk' : rowRef.primaryKey ≠ k := fun h => hk h.symm
        simp [hfind,hk,hk']
  | some current =>
    have hsome : FirstWins.find RealtimeRowRef.primaryKey latest rowRef.primaryKey = some current := by
      rw [hfind,hcur]
    rw [hcur] at hnew
    simp only [supersedes,bind_eq_ok,pure_eq_ok,Except.ok.injEq,beq_iff_eq] at hnew
    obtain ⟨decision,hdec,rfl⟩ := hnew
    refine ⟨FirstWins.replace RealtimeRowRef.primaryKey rowRef latest,?_,
      FirstWins.distinct_replace hd,?_⟩
    · simp [scanRow,hsome,hdec]
    · intro k
      rw [FirstWins.find_replace,Function.update_apply,hfind]
      by_cases hk : k = rowRef.primaryKey
      · simp [hk,hcur]
      · simp [hk]

theorem scan_append {rows : List LoggedRow} {row : LoggedRow} {latest latest' : List RealtimeRowRef}
    (hrows : rows.foldlM scanRow [] = .ok latest) (hrow : scanRow latest row = .ok latest') :
    (rows++[row]).foldlM scanRow [] = .ok latest' := by
  rw [List.foldlM_append,hrows,ok_bind,List.foldlM_cons,hrow,ok_bind]
  rfl

/-- Publishing keeps the table sound, whether it succeeds or fails. -/
theorem Sound.publish (hs : table.Sound) (k : UInt64) (position : SourcePosition)
    (encoded : EncodedRow) : (table.publish k position encoded).2.Sound := by
  obtain ⟨latest,hscan,hd,hfind⟩ := hs.log
  rcases publish_cases table k position encoded with
    ⟨status,_,hp⟩ | ⟨status,rowRef,_,_,hp⟩ | ⟨rowRef,changed,map,hb,hm,hp⟩
  · rw [hp]
    exact hs
  · rw [hp]
    exact ⟨hs.map,⟨latest,scan_append hscan (scanRow_unsealed _ _),hd,hfind⟩,hs.readable⟩
  · rw [hp]
    obtain ⟨hkey,_,henc,_,layout,hlayout,hmat,hsize⟩ := buildRowRef_eq_ok hb
    obtain ⟨hnew,hsound,_,hvis⟩ := hs.map.publishAndReport_ok hm
    cases changed with
    | false =>
      simp only [Bool.false_eq_true,if_false] at hvis
      subst hvis
      exact ⟨hs.map,⟨latest,scan_append hscan (scanRow_unsealed _ _),hd,hfind⟩,hs.readable⟩
    | true =>
      simp only [if_true] at hvis
      rw [← hkey] at hnew hvis
      obtain ⟨latest',hstep,hd',hfind'⟩ := scanRow_sealed hd hfind hnew
      refine ⟨hsound,⟨latest',scan_append hscan hstep,hd',fun k' => by rw [hfind',hvis]⟩,?_⟩
      intro k' row hrow
      rw [hvis,Function.update_apply] at hrow
      split_ifs at hrow with hk'
      · cases hrow
        exact ⟨layout,hlayout,henc ▸ hmat,henc ▸ hsize⟩
      · exact hs.readable hrow

theorem sound_create (options : Options) : (create options).Sound := by
  have hmap := RealtimeAtomicHashMap.sound_create options.capacity options.hashSeed
    options.hashVersion
  have hvis : ∀ k, (create options).map.visible k = none := RealtimeAtomicHashMap.create_visible
  refine ⟨hmap,⟨[],rfl,List.nodup_nil,fun k => ?_⟩,?_⟩
  · rw [hvis]
    rfl
  · intro k row hrow
    rw [hvis] at hrow
    cases hrow

theorem publish_layout (table : RealtimeDeltaAtomicTable) (k : UInt64) (position : SourcePosition)
    (encoded : EncodedRow) : (table.publish k position encoded).2.layout = table.layout := by
  rcases publish_cases table k position encoded with
    ⟨status,_,hp⟩ | ⟨status,rowRef,_,_,hp⟩ | ⟨rowRef,changed,map,_,_,hp⟩
  · rw [hp]
  · rw [hp]
  · rw [hp]

/-- A publish appends at most one row to the log and changes none. -/
theorem publish_rows (table : RealtimeDeltaAtomicTable) (k : UInt64) (position : SourcePosition)
    (encoded : EncodedRow) :
    ∃ more, (table.publish k position encoded).2.rows = table.rows++more := by
  rcases publish_cases table k position encoded with
    ⟨status,_,hp⟩ | ⟨status,rowRef,_,_,hp⟩ | ⟨rowRef,changed,map,_,_,hp⟩
  · exact ⟨[],by rw [hp,List.append_nil]⟩
  · exact ⟨_,by rw [hp]⟩
  · exact ⟨_,by rw [hp]⟩

structure PublishCall where
  primaryKey : UInt64
  position : SourcePosition
  encoded : EncodedRow
  deriving DecidableEq

/-- The table after a sequence of publishes, successful or not. -/
def publishAll (table : RealtimeDeltaAtomicTable) (calls : List PublishCall) :
    RealtimeDeltaAtomicTable :=
  calls.foldl (fun table call =>
    (table.publish call.primaryKey call.position call.encoded).2) table

theorem publishAll_snoc (table : RealtimeDeltaAtomicTable) (calls : List PublishCall)
    (call : PublishCall) :
    ((table.publishAll calls).publish call.primaryKey call.position call.encoded).2 =
      table.publishAll (calls++[call]) := by
  rw [publishAll,publishAll,List.foldl_append]
  rfl

theorem publishAll_layout (table : RealtimeDeltaAtomicTable) (calls : List PublishCall) :
    (table.publishAll calls).layout = table.layout := by
  induction calls generalizing table with
  | nil => rfl
  | cons call calls ih =>
    rw [publishAll,List.foldl_cons,← publishAll,ih,publish_layout]

theorem publishAll_rows (table : RealtimeDeltaAtomicTable) (calls : List PublishCall) :
    ∃ more, (table.publishAll calls).rows = table.rows++more := by
  induction calls generalizing table with
  | nil => exact ⟨[],(List.append_nil _).symm⟩
  | cons call calls ih =>
    obtain ⟨more,hmore⟩ := publish_rows table call.primaryKey call.position call.encoded
    obtain ⟨rest,hrest⟩ := ih (table.publish call.primaryKey call.position call.encoded).2
    refine ⟨more++rest,?_⟩
    rw [publishAll,List.foldl_cons,← publishAll,hrest,hmore,List.append_assoc]

theorem Sound.publishAll (hs : table.Sound) (calls : List PublishCall) :
    (table.publishAll calls).Sound := by
  induction calls generalizing table with
  | nil => exact hs
  | cons call calls ih => exact ih (hs.publish call.primaryKey call.position call.encoded)

/-- The tables that publishes and the reservation of slots lead to. -/
inductive Reachable : RealtimeDeltaAtomicTable → Prop
  | create (options : Options) : Reachable (create options)
  | publish {table : RealtimeDeltaAtomicTable} (k : UInt64) (position : SourcePosition)
      (encoded : EncodedRow) : Reachable table → Reachable (table.publish k position encoded).2
  | reserveSlotForTesting {table table' : RealtimeDeltaAtomicTable} (k : UInt64) :
      Reachable table → table.reserveSlotForTesting k = .ok table' → Reachable table'

theorem reserveFrom_eq_ok {map map' : RealtimeAtomicHashMap} {k : UInt64} {remaining probe : ℕ}
    (hcap : map.capacity ≠ 0) (h : map.reserveFrom k remaining probe = .ok map') :
    ∃ index, index < map.capacity ∧ (map.slot index).state = .kEmpty ∧
      map' = map.store index { map.slot index with state := .kReserved } map.uniqueKeyCount := by
  induction remaining generalizing probe with
  | zero =>
    rw [RealtimeAtomicHashMap.reserveFrom] at h
    cases h
  | succ remaining ih =>
    rw [RealtimeAtomicHashMap.reserveFrom] at h
    cases hstate : (map.slot (map.probeIndex k probe)).state with
    | kReserved =>
      simp only [hstate] at h
      cases h
    | kOccupied =>
      simp only [hstate] at h
      split_ifs at h
      exact ih h
    | kEmpty =>
      simp only [hstate,Except.ok.injEq] at h
      exact ⟨_,RealtimeAtomicHashMap.probeIndex_lt hcap k probe,hstate,h.symm⟩

theorem Sound.reserveSlotForTesting (hs : table.Sound) {table' : RealtimeDeltaAtomicTable}
    {k : UInt64} (h : table.reserveSlotForTesting k = .ok table') : table'.Sound := by
  simp only [RealtimeDeltaAtomicTable.reserveSlotForTesting,
    RealtimeAtomicHashMap.reserveSlotForTesting,bind_eq_ok,failIf_eq_ok,exists_const,pure_eq_ok,
    Except.ok.injEq] at h
  obtain ⟨map',⟨hcap,hmap⟩,rfl⟩ := h
  simp only [beq_eq_false_iff_ne] at hcap
  obtain ⟨index,hindex,hempty,rfl⟩ := reserveFrom_eq_ok hcap hmap
  have hslot := RealtimeAtomicHashMap.store_slot hindex
    { table.map.slot index with state := .kReserved } table.map.uniqueKeyCount
  have hnone : table.map.occ index = none := by
    rw [RealtimeAtomicHashMap.occ_eq_none,hempty]
    decide
  have hocc : (table.map.store index { table.map.slot index with state := .kReserved }
      table.map.uniqueKeyCount).occ = table.map.occ := by
    funext i
    by_cases hi : i = index
    · rw [hi,hnone,RealtimeAtomicHashMap.occ_eq_none,hslot,if_pos rfl]
      simp
    · simp only [RealtimeAtomicHashMap.occ,hslot,if_neg hi]
  have hrow : ∀ {i : ℕ} {k' : UInt64}, table.map.occ i = some k' →
      (table.map.store index { table.map.slot index with state := .kReserved }
        table.map.uniqueKeyCount).slot i = table.map.slot i := by
    intro i k' hk'
    have hne : i ≠ index := by
      rintro rfl
      rw [hnone] at hk'
      cases hk'
    rw [hslot,if_neg hne]
  have hsound : (table.map.store index { table.map.slot index with state := .kReserved }
      table.map.uniqueKeyCount).Sound := by
    constructor
    · rw [hocc,RealtimeAtomicHashMap.store_probeIndex,RealtimeAtomicHashMap.store_capacity]
      exact hs.map.placed
    · intro i k' hk'
      rw [hocc] at hk'
      rw [hrow hk']
      exact hs.map.row hk'
  have hvis : (table.map.store index { table.map.slot index with state := .kReserved }
      table.map.uniqueKeyCount).visible = table.map.visible := by
    funext k'
    by_cases hex : ∃ i, table.map.occ i = some k'
    · obtain ⟨i,hi⟩ := hex
      rw [hs.map.visible_of_occ hi,hsound.visible_of_occ (by rw [hocc,hi]),hrow hi]
    · push Not at hex
      rw [RealtimeAtomicHashMap.visible_of_absent hex,RealtimeAtomicHashMap.visible_of_absent]
      rw [hocc]
      exact hex
  refine ⟨hsound,?_,?_⟩
  · obtain ⟨latest,hscan,hd,hfind⟩ := hs.log
    exact ⟨latest,hscan,hd,fun k' => by rw [hfind,hvis]⟩
  · intro k' row hr
    rw [hvis] at hr
    exact hs.readable hr

theorem Reachable.sound (h : Reachable table) : table.Sound := by
  induction h with
  | create options => exact sound_create options
  | publish k position encoded _ ih => exact ih.publish k position encoded
  | reserveSlotForTesting k _ hr ih => exact ih.reserveSlotForTesting hr

theorem Reachable.publishAll (h : Reachable table) (calls : List PublishCall) :
    Reachable (table.publishAll calls) := by
  induction calls generalizing table with
  | nil => exact h
  | cons call calls ih => exact ih (h.publish call.primaryKey call.position call.encoded)

/-- `Get` hands out the newest row of the key. -/
theorem Sound.get_eq (hs : table.Sound) {layout : CompiledRowLayout}
    (hl : table.layout = some layout) (k : UInt64) :
    table.get k = .ok ((table.map.visible k).map fun ref => ⟨layout,ref.encoded⟩) := by
  simp only [RealtimeDeltaAtomicTable.get,hl,hs.map.get_eq,ok_bind,pure_eq_ok]

/-- A boundary means the same to a scan after any number of later publishes. -/
theorem scanVisibleRows_publishAll (table : RealtimeDeltaAtomicTable) (calls : List PublishCall) :
    (table.publishAll calls).scanVisibleRows table.captureCompactionBoundary =
      table.scanVisibleRows table.captureCompactionBoundary := by
  obtain ⟨more,hmore⟩ := publishAll_rows table calls
  have hle : table.rows.length ≤ (table.publishAll calls).rows.length := by
    rw [hmore,List.length_append]
    omega
  have htake : (table.publishAll calls).rows.take table.rows.length = table.rows := by
    rw [hmore,List.take_left]
  simp only [scanVisibleRows,captureCompactionBoundary,Nat.min_eq_left hle,htake,Nat.min_self,
    List.take_length]

/-- The scan at a boundary finds the rows that were visible when it was captured. -/
theorem Sound.scanVisibleRows_eq (hs : table.Sound) :
    ∃ rows, table.scanVisibleRows table.captureCompactionBoundary = .ok rows ∧
      FirstWins.Distinct RealtimeVisibleRow.primaryKey rows ∧
      ∀ k, FirstWins.find RealtimeVisibleRow.primaryKey rows k =
        (table.map.visible k).map visibleRow := by
  obtain ⟨latest,hscan,hd,hfind⟩ := hs.log
  have hperm := List.perm_insertionSort
    (fun lhs rhs : RealtimeVisibleRow => lhs.primaryKey ≤ rhs.primaryKey) (latest.map visibleRow)
  have hdmap : FirstWins.Distinct RealtimeVisibleRow.primaryKey (latest.map visibleRow) := by
    have hkeys : (latest.map visibleRow).map RealtimeVisibleRow.primaryKey =
        latest.map RealtimeRowRef.primaryKey := by
      rw [List.map_map]
      rfl
    rw [FirstWins.Distinct,hkeys]
    exact hd
  refine ⟨_,?_,(hperm.map _).nodup_iff.mpr hdmap,?_⟩
  · simp only [scanVisibleRows,captureCompactionBoundary,Nat.min_self,List.take_length,hscan,
      ok_bind,pure_eq_ok]
  · intro k
    have hmap : FirstWins.find RealtimeVisibleRow.primaryKey (latest.map visibleRow) k =
        (FirstWins.find RealtimeRowRef.primaryKey latest k).map visibleRow :=
      FirstWins.find_map visibleRow (fun _ => rfl) latest k
    rw [← FirstWins.find_perm hperm.symm hdmap,hmap,hfind]

def sampleLayout : CompiledRowLayout := .compile {
  version := 1,activeFields := [{ fieldId := 1,name := [118] }] }

def sampleOptions (capacity : UInt64) : Options := { layout := some sampleLayout,capacity }

def sampleTable (capacity : UInt64) : RealtimeDeltaAtomicTable := create (sampleOptions capacity)

/-- A publish from partition 0 of a row whose field holds the offset. -/
def sampleCall (k : UInt64) (offset : Int64) : PublishCall where
  primaryKey := k
  position := ⟨0,offset⟩
  encoded := { Model.createEncodedRow sampleLayout with
    rowSlot := [1,0,0,0,0,0,0,0]++Base.toBytes offset }

theorem sampleTable_reachable (capacity : UInt64) : (sampleTable capacity).Reachable :=
  Reachable.create _

end RealtimeDeltaAtomicTable
end KvIndex
