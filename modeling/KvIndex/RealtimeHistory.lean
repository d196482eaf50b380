import KvIndex.RealtimeOrder
import KvIndex.Transition

/-! What the log and the map of a realtime table say about its history: a scan at a captured
boundary is the map as it was then, and a publish that fails is seen by no reader, although a
row that the map refused stays in the log. -/
namespace KvIndex
namespace RealtimeDeltaAtomicTable

variable {table : RealtimeDeltaAtomicTable}

/-- A publish that a history makes and that returns `Ok`. -/
def Published (options : Options) (history : List PublishCall) (call : PublishCall) : Prop :=
  ∃ earlier later, history = earlier++call::later ∧
    (((create options).publishAll earlier).publish call.primaryKey call.position
      call.encoded).1 = .ok ()

theorem published_snoc {options : Options} {history : List PublishCall} {call next : PublishCall} :
    Published options (history++[next]) call ↔ Published options history call ∨
      call = next ∧ (((create options).publishAll history).publish next.primaryKey next.position
        next.encoded).1 = .ok () :=
  exists_split_snoc (P := fun earlier call => (((create options).publishAll earlier).publish
    call.primaryKey call.position call.encoded).1 = .ok ())

theorem publish_map_of_error {k : UInt64} {position : SourcePosition} {encoded : EncodedRow}
    {status : Status} (h : (table.publish k position encoded).1 = .error status) :
    (table.publish k position encoded).2.map = table.map := by
  rcases publish_cases table k position encoded with
    ⟨_,_,hp⟩ | ⟨_,_,_,_,hp⟩ | ⟨_,_,_,_,_,hp⟩
  · rw [hp]
  · rw [hp]
  · rw [hp] at h
    cases h

/-- What a table shows was published, and no other published row of the key is newer. -/
theorem latest_published (options : Options) (history : List PublishCall) (k : UInt64) :
    LastWriter.Answers PublishCall.primaryKey sourceOffset {c | Published options history c} k
      (((create options).publishAll history).latest k) := by
  induction history using List.reverseRecOn generalizing k with
  | nil =>
    rw [publishAll,List.foldl_nil,latest_create]
    rintro call ⟨earlier,later,hsplit,_⟩
    simp at hsplit
  | append_singleton history next ih =>
    have hs := (sound_create options).publishAll history
    rw [← publishAll_snoc]
    cases hresult : (((create options).publishAll history).publish next.primaryKey next.position
        next.encoded).1 with
    | ok _ =>
      have hset : {c | Published options (history++[next]) c} =
          insert next {c | Published options history c} := by
        ext c
        simp only [Set.mem_ofPred_eq,Set.mem_insert_iff,published_snoc,hresult,and_true]
        exact or_comm
      rw [hset,hs.publish_latest hresult]
      exact LastWriter.Answers.write ih next k
    | error status =>
      have hset : {c | Published options (history++[next]) c} =
          {c | Published options history c} := by
        ext c
        simp [published_snoc,hresult]
      rw [hset,latest,publish_map_of_error hresult]
      exact ih k

def callOfVisible (row : RealtimeVisibleRow) : PublishCall := ⟨row.primaryKey,row.position,row.encoded⟩

theorem scanVisibleRows_sorted {boundary : RealtimeDeltaBoundary} {rows : List RealtimeVisibleRow}
    (h : table.scanVisibleRows boundary = .ok rows)
    (hd : FirstWins.Distinct RealtimeVisibleRow.primaryKey rows) :
    rows.Pairwise fun lhs rhs => lhs.primaryKey < rhs.primaryKey := by
  simp only [scanVisibleRows,bind_eq_ok,pure_eq_ok,Except.ok.injEq] at h
  obtain ⟨latest,_,rfl⟩ := h
  have hle : ((latest.map visibleRow).insertionSort fun lhs rhs =>
      lhs.primaryKey ≤ rhs.primaryKey).Pairwise fun lhs rhs => lhs.primaryKey ≤ rhs.primaryKey := by
    have htotal : Std.Total fun lhs rhs : RealtimeVisibleRow => lhs.primaryKey ≤ rhs.primaryKey :=
      ⟨fun lhs rhs => UInt64.le_total _ _⟩
    have htrans : IsTrans RealtimeVisibleRow fun lhs rhs => lhs.primaryKey ≤ rhs.primaryKey :=
      ⟨fun _ _ _ => UInt64.le_trans⟩
    exact List.pairwise_insertionSort _ _
  have hne := List.pairwise_map.mp hd
  exact (hle.and hne).imp fun h => UInt64.lt_of_le_of_ne h.1 h.2

/-- The scan at a captured boundary, after any later publishes, is the map at the capture: it
holds one row for each key that `Get` found, the newest published one, in key order. -/
theorem boundary_scan (options : Options) (before after : List PublishCall) :
    ∃ rows,
      (((create options).publishAll before).publishAll after).scanVisibleRows
        ((create options).publishAll before).captureCompactionBoundary = .ok rows ∧
      (rows.Pairwise fun lhs rhs => lhs.primaryKey < rhs.primaryKey) ∧
      (∀ k row, ((create options).publishAll before).get k = .ok (some row) ↔
        ∃ visible ∈ rows, visible.primaryKey = k ∧ options.layout = some row.layout ∧
          visible.encoded = row.encoded) ∧
      ∀ visible ∈ rows,
        (∃ ref, ((create options).publishAll before).map.get visible.primaryKey = .ok (some ref) ∧
          ref.position = visible.position ∧ ref.encoded = visible.encoded) ∧
        LastWriter.IsLatest PublishCall.primaryKey sourceOffset
          {c | Published options before c} visible.primaryKey (callOfVisible visible) := by
  have hs := (sound_create options).publishAll before
  have hlayout := publishAll_layout (create options) before
  obtain ⟨rows,hscan,hd,hfind⟩ := hs.scanVisibleRows_eq
  have hmem : ∀ visible, visible ∈ rows ↔
      ∃ ref, ((create options).publishAll before).map.visible visible.primaryKey = some ref ∧
        visibleRow ref = visible := by
    intro visible
    have hkey := FirstWins.find_eq_some hd (k := visible.primaryKey) (a := visible)
    rw [hfind,Option.map_eq_some_iff] at hkey
    rw [hkey]
    simp
  refine ⟨rows,?_,scanVisibleRows_sorted hscan hd,?_,?_⟩
  · rw [scanVisibleRows_publishAll]
    exact hscan
  · intro k row
    cases hl : options.layout with
    | none =>
      have hnone : ((create options).publishAll before).layout = none := hlayout.trans hl
      simp [RealtimeDeltaAtomicTable.get,hnone]
    | some layout =>
      rw [hs.get_eq (hlayout.trans hl),Except.ok.injEq,Option.map_eq_some_iff]
      constructor
      · rintro ⟨ref,href,rfl⟩
        obtain ⟨hkey,_⟩ := hs.map.visible_row href
        refine ⟨visibleRow ref,(hmem _).mpr ⟨ref,?_,rfl⟩,hkey,rfl,rfl⟩
        rw [visibleRow,hkey]
        exact href
      · rintro ⟨visible,hvisible,rfl,hlayout',hencoded⟩
        obtain ⟨ref,href,rfl⟩ := (hmem visible).mp hvisible
        refine ⟨ref,href,?_⟩
        cases hlayout'
        cases row
        rw [Row.mk.injEq]
        exact ⟨rfl,hencoded⟩
  · intro visible hvisible
    obtain ⟨ref,href,rfl⟩ := (hmem visible).mp hvisible
    refine ⟨⟨ref,?_,rfl,rfl⟩,?_⟩
    · rw [hs.map.get_eq,href]
    · have hanswer := latest_published options before (visibleRow ref).primaryKey
      rw [latest,href] at hanswer
      exact hanswer

/-- The integer part of `stats()`: the load factor is `uniqueVisibleKeys` over `hashCapacity`. -/
structure RealtimeDeltaStats where
  hashCapacity : ℕ
  uniqueVisibleKeys : ℕ
  publishedRowCount : ℕ
  rowSlotBytes : UInt64
  payloadPoolBytes : UInt64
  deriving DecidableEq

def stats (table : RealtimeDeltaAtomicTable) : RealtimeDeltaStats where
  hashCapacity := table.map.capacity
  uniqueVisibleKeys := table.map.uniqueKeyCount
  publishedRowCount := table.rows.length
  rowSlotBytes := table.rowSlotBytes
  payloadPoolBytes := table.payloadPoolBytes

/-- The rows that a failed publish leaves in the log: one, if the table took it. -/
def leftovers (table : RealtimeDeltaAtomicTable) (call : PublishCall) : ℕ :=
  if table.Accepts call then 1 else 0

/-- A failed publish leaves everything but the log alone, to which it adds unsealed rows. -/
theorem publish_of_error {call : PublishCall} {status : Status}
    (h : (table.publish call.primaryKey call.position call.encoded).1 = .error status) :
    ∃ more : List LoggedRow, more.length = table.leftovers call ∧
      (∀ row ∈ more, row.sealedVisible = false) ∧
      (table.publish call.primaryKey call.position call.encoded).2 =
        { table with rows := table.rows++more } := by
  rcases publish_cases table call.primaryKey call.position call.encoded with
    ⟨_,hb,hp⟩ | ⟨_,rowRef,hb,_,hp⟩ | ⟨_,_,_,_,_,hp⟩
  · refine ⟨[],?_,by simp,by rw [hp,List.append_nil]⟩
    rw [leftovers,if_neg]
    · rfl
    · rw [Accepts,hb]
      exact Bool.false_ne_true
  · refine ⟨[{ ref := rowRef }],?_,by simp,by rw [hp]⟩
    rw [leftovers,if_pos]
    · rfl
    · rw [Accepts,hb]
      rfl
  · rw [hp] at h
    cases h

theorem scan_unsealed {more : List LoggedRow} (h : ∀ row ∈ more, row.sealedVisible = false)
    (latest : List RealtimeRowRef) : more.foldlM scanRow latest = .ok latest := by
  induction more with
  | nil => rfl
  | cons row more ih =>
    have hrow : scanRow latest row = .ok latest := by
      rw [scanRow,h row List.mem_cons_self]
      rfl
    rw [List.foldlM_cons,hrow,ok_bind]
    exact ih fun row hrow => h row (List.mem_cons_of_mem _ hrow)

/-- A scan passes over unsealed rows, wherever its boundary lies among them. -/
theorem scanVisibleRows_append (table : RealtimeDeltaAtomicTable) {more : List LoggedRow}
    (h : ∀ row ∈ more, row.sealedVisible = false) (boundary : RealtimeDeltaBoundary) :
    scanVisibleRows { table with rows := table.rows++more } boundary =
      table.scanVisibleRows boundary := by
  have htake : ((table.rows++more).take (min boundary.rowCount (table.rows++more).length)).foldlM
      scanRow [] = (table.rows.take (min boundary.rowCount table.rows.length)).foldlM scanRow [] := by
    have hkeptRows : table.rows.take (min boundary.rowCount (table.rows++more).length) =
        table.rows.take (min boundary.rowCount table.rows.length) := by
      rw [List.take_eq_take_iff,List.length_append]
      omega
    rw [List.take_append,List.foldlM_append,hkeptRows]
    cases (table.rows.take (min boundary.rowCount table.rows.length)).foldlM scanRow [] with
    | error status => rfl
    | ok latest =>
      rw [ok_bind]
      exact scan_unsealed (fun row hrow => h row (List.mem_of_mem_take hrow)) latest
  simp only [scanVisibleRows,htake]

/-- A failed publish is seen by no reader; the log keeps a row that the map refused. -/
theorem failed_publish (table : RealtimeDeltaAtomicTable) (call : PublishCall) {status : Status}
    (h : (table.publish call.primaryKey call.position call.encoded).1 = .error status) :
    let next := (table.publish call.primaryKey call.position call.encoded).2
    (∀ k, next.get k = table.get k) ∧
    (∀ boundary, next.scanVisibleRows boundary = table.scanVisibleRows boundary) ∧
    next.scanVisibleRows next.captureCompactionBoundary =
      table.scanVisibleRows table.captureCompactionBoundary ∧
    next.captureCompactionBoundary.rowCount =
      table.captureCompactionBoundary.rowCount+table.leftovers call ∧
    next.stats = { table.stats with
      publishedRowCount := table.stats.publishedRowCount+table.leftovers call } := by
  obtain ⟨more,hlength,hunsealed,hnext⟩ := publish_of_error h
  have hscan := scanVisibleRows_append table hunsealed
  have hcount : (table.rows++more).length = table.rows.length+table.leftovers call := by
    rw [List.length_append,hlength]
  rw [hnext]
  refine ⟨fun k => rfl,hscan,?_,hcount,?_⟩
  · rw [hscan]
    have hmin : min (table.rows++more).length table.rows.length =
        min table.rows.length table.rows.length := by
      rw [hcount]
      omega
    simp only [scanVisibleRows,captureCompactionBoundary,hmin]
  · simp only [stats,hcount]

def fullTable : RealtimeDeltaAtomicTable := (sampleTable 1).publishAll [sampleCall 7 0]

theorem failed_publish_sample :
    ((fullTable.publish 8 ⟨0,0⟩ (sampleCall 8 0).encoded).2.stats).publishedRowCount = 2 := by
  have hstatus : (fullTable.publish 8 ⟨0,0⟩ (sampleCall 8 0).encoded).1 =
      .error (.failedPrecondition "realtime hash map capacity exhausted") := by
    decide +kernel
  obtain ⟨_,_,_,_,hstats⟩ := failed_publish fullTable (sampleCall 8 0) hstatus
  rw [show (fullTable.publish 8 ⟨0,0⟩ (sampleCall 8 0).encoded).2.stats = _ from hstats]
  decide +kernel

/-- The map has no slot for the second key, but its row stays in the log. -/
theorem refused_row_logged : fullTable.Reachable ∧
    (∃ status, (fullTable.publish 8 ⟨0,0⟩ (sampleCall 8 0).encoded).1 = .error status) ∧
    (fullTable.publish 8 ⟨0,0⟩ (sampleCall 8 0).encoded).2.stats ≠ fullTable.stats ∧
    (fullTable.publish 8 ⟨0,0⟩ (sampleCall 8 0).encoded).2.captureCompactionBoundary ≠
      fullTable.captureCompactionBoundary := by
  refine ⟨(sampleTable_reachable 1).publishAll _,
    ⟨.failedPrecondition "realtime hash map capacity exhausted",?_⟩,?_,?_⟩
  · decide +kernel
  · decide +kernel
  · decide +kernel

end RealtimeDeltaAtomicTable
end KvIndex
