import KvIndex.FrozenBuild
import KvIndex.Snapshot

/-! What a snapshot answers, in terms of its rows. For every backing with a valid
index, looking a key up materialises the row that the enumeration lists for it; for
a backing that the builder sealed, the rows are the ones that were added. -/
namespace KvIndex

open Base LittleEndian

/-- What a lookup returns when `row` is the stored row of the key. -/
def answer (layout : Option CompiledRowLayout) (row : Option EncodedRow) : StatusOr (Option Row) :=
  match row with
  | none => .ok none
  | some encoded => (Model.materializeRow? layout encoded).map some

/-- An encoded row carries the metadata of a layout, and its slot has the right size. -/
structure Fits (layout : CompiledRowLayout) (encoded : EncodedRow) : Prop where
  version : encoded.schemaVersion = layout.schemaVersion
  fingerprint : encoded.layoutFingerprint = layout.layoutFingerprint
  slot : encoded.rowSlot.length = layout.rowSlotSize

theorem encodedRowOf_fits (layout : CompiledRowLayout) {bytes : Bytes} {offset : ℕ}
    (h : offset+layout.rowSlotSize ≤ bytes.length) (payload : OwnedSnapshotRowPayload) :
    Fits layout (encodedRowOf layout (slice bytes offset layout.rowSlotSize) payload) := by
  refine ⟨rfl,rfl,?_⟩
  simp only [encodedRowOf,slice_length]
  omega

/-- Every row a backing hands out fits the layout of the backing. -/
theorem SnapshotBacking.encodedRowAt_fits {backing : SnapshotBacking} {rowOffset : UInt64}
    {encoded : EncodedRow} (h : backing.encodedRowAt rowOffset = .ok encoded) :
    ∃ layout, backing.layout = some layout ∧ 0 < layout.rowSlotSize ∧ Fits layout encoded := by
  cases backing with
  | owned backing =>
    simp only [encodedRowAt,OwnedSnapshotBacking.encodedRowAt] at h
    cases hl : backing.layout with
    | none =>
      rw [hl] at h
      cases h
    | some layout =>
      rw [hl] at h
      simp only [bind_eq_ok,failIf_eq_ok,exists_const,beq_eq_false_iff_ne,decide_eq_false_iff_not,
        gt_iff_lt,Nat.not_lt] at h
      obtain ⟨hzero,hle,hfit,_,hrow⟩ := h
      cases hp : backing.rowPayloads[rowOffset.toNat/layout.rowSlotSize]? with
      | none =>
        rw [hp] at hrow
        cases hrow
      | some payload =>
        rw [hp] at hrow
        simp only [pure_eq_ok,Except.ok.injEq] at hrow
        subst hrow
        exact ⟨layout,hl,by omega,encodedRowOf_fits layout (by omega) payload⟩
  | mmap backing =>
    simp only [encodedRowAt,Artifact.MmapSnapshotBacking.encodedRowAt,bind_eq_ok,failIf_eq_ok,
      exists_const,beq_eq_false_iff_ne,decide_eq_false_iff_not,gt_iff_lt,Nat.not_lt,pure_eq_ok,
      Except.ok.injEq] at h
    obtain ⟨hzero,hle,hfit,_,payload,_,rfl⟩ := h
    exact ⟨_,rfl,by omega,encodedRowOf_fits _ (by omega) payload⟩

/-- The rows of a successful enumeration, next to their index entries. -/
theorem mapM_encodedRowAt {backing : SnapshotBacking} {entries : List FrozenPrimaryKeyIndexEntry}
    {rows : List SnapshotRow}
    (h : (entries.mapM fun entry => do
      let encoded ← backing.encodedRowAt entry.rowOffset
      return ({ primaryKey := entry.primaryKey,encoded } : SnapshotRow)) = .ok rows) :
    rows.map SnapshotRow.primaryKey = entries.map FrozenPrimaryKeyIndexEntry.primaryKey ∧
      ∀ k, match FirstWins.find FrozenPrimaryKeyIndexEntry.primaryKey entries k with
        | none => FirstWins.find SnapshotRow.primaryKey rows k = none
        | some entry => ∃ encoded, backing.encodedRowAt entry.rowOffset = .ok encoded ∧
          FirstWins.find SnapshotRow.primaryKey rows k = some ⟨entry.primaryKey,encoded⟩ := by
  induction entries generalizing rows with
  | nil =>
    simp only [List.mapM_nil,pure_eq_ok,Except.ok.injEq] at h
    subst h
    exact ⟨rfl,fun k => rfl⟩
  | cons entry entries ih =>
    simp only [List.mapM_cons,bind_eq_ok,pure_eq_ok,Except.ok.injEq] at h
    obtain ⟨row,⟨encoded,henc,rfl⟩,rest,hrest,rfl⟩ := h
    obtain ⟨hkeys,hfind⟩ := ih hrest
    refine ⟨by rw [List.map_cons,List.map_cons,hkeys],?_⟩
    intro k
    rw [FirstWins.find_cons,FirstWins.find_cons]
    by_cases hk : entry.primaryKey = k
    · rw [if_pos hk,if_pos hk]
      exact ⟨encoded,henc,rfl⟩
    · rw [if_neg hk,if_neg hk]
      exact hfind k

/-- A lookup answers with the row that the enumeration lists for the key. -/
theorem snapshotGet_of_enumerate {backing : SnapshotBacking} {rows : List SnapshotRow}
    (h : enumerateSnapshotRows backing = .ok rows) :
    FirstWins.Distinct SnapshotRow.primaryKey rows ∧
      (∀ row ∈ rows, ∃ layout, backing.layout = some layout ∧ 0 < layout.rowSlotSize ∧
        Fits layout row.encoded) ∧
      ∀ k, snapshotGet (some backing) k =
        answer backing.layout ((FirstWins.find SnapshotRow.primaryKey rows k).map (·.encoded)) := by
  simp only [enumerateSnapshotRows,bind_eq_ok] at h
  obtain ⟨index,hindex,entries,hentries,hrows⟩ := h
  obtain ⟨_,_,hw,_⟩ := FrozenPrimaryKeyIndexView.validate_eq_ok.mp hindex
  obtain ⟨hd,hlookup⟩ := hw.lookup_eq_find hentries
  obtain ⟨hkeys,hfind⟩ := mapM_encodedRowAt hrows
  have hdr : FirstWins.Distinct SnapshotRow.primaryKey rows := by
    rw [FirstWins.Distinct,hkeys]
    exact hd
  refine ⟨hdr,?_,?_⟩
  · intro row hrow
    have hk := FirstWins.find_of_mem hdr hrow
    have hmatch := hfind row.primaryKey
    cases hf : FirstWins.find FrozenPrimaryKeyIndexEntry.primaryKey entries row.primaryKey with
    | none =>
      rw [hf] at hmatch
      simp only [hk,reduceCtorEq] at hmatch
    | some entry =>
      rw [hf] at hmatch
      obtain ⟨encoded,henc,hsome⟩ := hmatch
      rw [hk,Option.some.injEq] at hsome
      rw [hsome]
      exact SnapshotBacking.encodedRowAt_fits henc
  · intro k
    have hmatch := hfind k
    simp only [snapshotGet,hindex,ok_bind,hlookup]
    cases hf : FirstWins.find FrozenPrimaryKeyIndexEntry.primaryKey entries k with
    | none =>
      rw [hf] at hmatch
      simp only at hmatch
      rw [hmatch]
      rfl
    | some entry =>
      rw [hf] at hmatch
      obtain ⟨encoded,henc,hsome⟩ := hmatch
      rw [hsome]
      simp only [Option.map_some,henc,ok_bind,answer]
      cases Model.materializeRow? backing.layout encoded with
      | error e => rfl
      | ok row => rfl

/-- The rows that an enumeration lists need a slot size, so a layout without one has none. -/
theorem enumerate_fits {backing : SnapshotBacking} {layout : CompiledRowLayout}
    (hl : backing.layout = some layout) {rows : List SnapshotRow}
    (h : enumerateSnapshotRows backing = .ok rows) :
    ∀ row ∈ rows, 0 < layout.rowSlotSize ∧ Fits layout row.encoded := by
  intro row hrow
  obtain ⟨_,hfits,_⟩ := snapshotGet_of_enumerate h
  obtain ⟨layout',hl',hpos,hfit⟩ := hfits row hrow
  rw [hl,Option.some.injEq] at hl'
  subst hl'
  exact ⟨hpos,hfit⟩

def payloadOf (encoded : EncodedRow) : OwnedSnapshotRowPayload where
  arena := encoded.arena
  stringDictionary := encoded.stringDictionary
  scalarListDictionary := encoded.scalarListDictionary
  stringListDictionary := encoded.stringListDictionary
  stringElementDictionary := encoded.stringElementDictionary

/-- The row as the builder stores it: bytes behind the slot of the layout are cut off. -/
def storedRow (layout : CompiledRowLayout) (encoded : EncodedRow) : EncodedRow :=
  encodedRowOf layout (encoded.rowSlot.take layout.rowSlotSize) (payloadOf encoded)

theorem storedRow_of_fits {layout : CompiledRowLayout} {encoded : EncodedRow}
    (h : Fits layout encoded) : storedRow layout encoded = encoded := by
  have htake : encoded.rowSlot.take layout.rowSlotSize = encoded.rowSlot := by
    rw [← h.slot,List.take_length]
  obtain ⟨version,fingerprint,rowSlot,arena,strings,scalars,lists,elements⟩ := encoded
  simp only [storedRow,encodedRowOf,payloadOf,htake,← h.version,← h.fingerprint]

namespace SnapshotBuilder

/-- Where the builder keeps the row of a key: the slot and the payload at one offset. -/
structure StoredAt (builder : SnapshotBuilder) (layout : CompiledRowLayout) (encoded : EncodedRow)
    (offset : ℕ) : Prop where
  bound : offset ≤ uint64Max
  fit : offset+layout.rowSlotSize ≤ builder.rowSlotBytes.length
  aligned : offset%layout.rowSlotSize = 0
  slot : slice builder.rowSlotBytes offset layout.rowSlotSize =
    encoded.rowSlot.take layout.rowSlotSize
  payload : builder.rowPayloads[offset/layout.rowSlotSize]? = some (payloadOf encoded)

structure Holds (builder : SnapshotBuilder) (layout : CompiledRowLayout) (rows : List SnapshotRow) :
    Prop where
  layout_eq : builder.layout = some layout
  keys : builder.primaryKeys = rows.map SnapshotRow.primaryKey
  slots : builder.rowSlotBytes.length = rows.length*layout.rowSlotSize
  payloads : builder.rowPayloads = rows.map fun row => payloadOf row.encoded
  entries : ∀ k, match FirstWins.find SnapshotRow.primaryKey rows k with
    | none => FirstWins.find FrozenPrimaryKeyIndexEntry.primaryKey builder.indexEntries k = none
    | some row => ∃ offset, builder.StoredAt layout row.encoded offset ∧
      FirstWins.find FrozenPrimaryKeyIndexEntry.primaryKey builder.indexEntries k =
        some ⟨k,UInt64.ofNat offset⟩

theorem holds_nil (layout : CompiledRowLayout) (options : SnapshotBuildOptions) :
    Holds { layout := some layout,options } layout [] :=
  ⟨rfl,rfl,by simp,rfl,fun _ => rfl⟩

/-- An accepted row joins the rows of the builder, under a new key. -/
theorem Holds.addRow {builder builder' : SnapshotBuilder} {layout : CompiledRowLayout}
    {rows : List SnapshotRow} (hb : builder.Holds layout rows) (hpos : 0 < layout.rowSlotSize)
    {k : UInt64} {encoded : EncodedRow} (h : builder.addRow k encoded = .ok builder') :
    builder'.Holds layout (rows++[⟨k,encoded⟩]) ∧ builder'.options = builder.options := by
  simp only [SnapshotBuilder.addRow,hb.layout_eq,bind_eq_ok,failIf_eq_ok,exists_const,pure_eq_ok,
    Except.ok.injEq] at h
  obtain ⟨_,hslot,hnew,hbound,rfl⟩ := h
  simp only [decide_eq_false_iff_not,Nat.not_lt,gt_iff_lt] at hslot hbound
  have hk : k ∉ rows.map SnapshotRow.primaryKey := by simpa [hb.keys] using hnew
  have htake : (encoded.rowSlot.take layout.rowSlotSize).length = layout.rowSlotSize := by
    rw [List.length_take]
    omega
  have hslots := hb.slots
  refine ⟨⟨rfl,by simp [hb.keys],?_,by simp [hb.payloads,payloadOf],?_⟩,rfl⟩
  · simp only [List.length_append,htake,List.length_singleton,hslots,Nat.add_mul,Nat.one_mul]
  intro k'
  have hold := hb.entries k'
  rw [FirstWins.find_append]
  cases hf : FirstWins.find SnapshotRow.primaryKey rows k' with
  | some row =>
    rw [hf] at hold
    obtain ⟨offset,hat,hentry⟩ := hold
    refine ⟨offset,⟨hat.bound,?_,hat.aligned,?_,?_⟩,?_⟩
    · have hfit := hat.fit
      simp only [List.length_append]
      omega
    · rw [slice_append_left hat.fit,hat.slot]
    · have hlt : offset/layout.rowSlotSize < builder.rowPayloads.length :=
        (List.getElem?_eq_some_iff.mp hat.payload).1
      rw [List.getElem?_append_left hlt,hat.payload]
    · rw [FirstWins.find_append,hentry]
      rfl
  | none =>
    rw [hf] at hold
    simp only at hold
    rw [Option.none_or,FirstWins.find_cons]
    by_cases hkk : k = k'
    · subst hkk
      have hoff : builder.rowSlotBytes.length/layout.rowSlotSize = builder.rowPayloads.length := by
        rw [hslots,hb.payloads,List.length_map,Nat.mul_div_cancel _ hpos]
      simp only [if_true]
      refine ⟨builder.rowSlotBytes.length,⟨hbound,?_,?_,?_,?_⟩,?_⟩
      · simp only [List.length_append]
        omega
      · rw [hslots,Nat.mul_mod_left]
      · have hmid := slice_middle builder.rowSlotBytes (encoded.rowSlot.take layout.rowSlotSize) []
        rwa [List.append_nil,htake] at hmid
      · rw [hoff,List.getElem?_append_right le_rfl,Nat.sub_self]
        rfl
      · rw [FirstWins.find_append,hold,Option.none_or,FirstWins.find_cons,if_pos rfl]
    · simp only [hkk,if_false,FirstWins.find_nil]
      rw [FirstWins.find_append,hold,Option.none_or,FirstWins.find_cons,if_neg hkk]
      rfl

/-- Rows that a builder accepted one after the other are the rows it holds. -/
theorem Holds.addRows {builder builder' : SnapshotBuilder} {layout : CompiledRowLayout}
    {done rows : List SnapshotRow} (hb : builder.Holds layout done) (hpos : 0 < layout.rowSlotSize)
    (h : rows.foldlM (fun builder row => builder.addRow row.primaryKey row.encoded) builder =
      .ok builder') :
    builder'.Holds layout (done++rows) := by
  induction rows generalizing builder done with
  | nil =>
    cases h
    rw [List.append_nil]
    exact hb
  | cons row rows ih =>
    simp only [List.foldlM_cons,bind_eq_ok] at h
    obtain ⟨middle,hrow,hrest⟩ := h
    have hnext := ih (hb.addRow hpos hrow).1 hrest
    rw [List.append_assoc] at hnext
    exact hnext

theorem StoredAt.toNat {builder : SnapshotBuilder} {layout : CompiledRowLayout}
    {encoded : EncodedRow} {offset : ℕ} (hat : builder.StoredAt layout encoded offset) :
    (UInt64.ofNat offset).toNat = offset := by
  have hmax := hat.bound
  simp only [uint64Max] at hmax
  rw [UInt64.toNat_ofNat']
  exact Nat.mod_eq_of_lt (by omega)

theorem StoredAt.owned {builder : SnapshotBuilder} {layout : CompiledRowLayout}
    {encoded : EncodedRow} {offset : ℕ} (hat : builder.StoredAt layout encoded offset)
    (hpos : 0 < layout.rowSlotSize) {backing : OwnedSnapshotBacking}
    (hlayout : backing.layout = some layout) (hslots : backing.rowSlotBytes = builder.rowSlotBytes)
    (hpayloads : backing.rowPayloads = builder.rowPayloads) :
    backing.encodedRowAt (UInt64.ofNat offset) = .ok (storedRow layout encoded) := by
  have hfit := hat.fit
  have h1 : (layout.rowSlotSize == 0) = false := by
    rw [beq_eq_false_iff_ne]
    omega
  have h2 : decide (offset > builder.rowSlotBytes.length) = false := by
    rw [decide_eq_false_iff_not]
    omega
  have h3 : decide (builder.rowSlotBytes.length-offset < layout.rowSlotSize) = false := by
    rw [decide_eq_false_iff_not]
    omega
  have h4 : (offset%layout.rowSlotSize != 0) = false := by simp [hat.aligned]
  simp only [OwnedSnapshotBacking.encodedRowAt,hlayout,hslots,hpayloads,hat.toNat,h1,h2,h3,h4,
    failIf_false,ok_bind,hat.payload,hat.slot,pure_eq_ok]
  rfl

/-- A view over the index of the builder answers with the row that was added for the key, when
its backing finds every stored row. -/
theorem Holds.snapshotGet {builder : SnapshotBuilder} {layout : CompiledRowLayout}
    {rows : List SnapshotRow} (hb : builder.Holds layout rows) {backing : SnapshotBacking}
    {options : FrozenPrimaryKeyIndexBuildOptions}
    (hbuild : FrozenIndex.buildFrozenPrimaryKeyIndex builder.indexEntries options =
      .ok backing.frozenIndexBytes)
    (hlayout : backing.layout = some layout)
    (hrow : ∀ row ∈ rows, ∀ offset, builder.StoredAt layout row.encoded offset →
      backing.encodedRowAt (UInt64.ofNat offset) = .ok (storedRow layout row.encoded)) (k : UInt64) :
    KvIndex.snapshotGet (some backing) k =
      answer (some layout) ((FirstWins.find SnapshotRow.primaryKey rows k).map fun row =>
        storedRow layout row.encoded) := by
  obtain ⟨view,hview,_,_,_,hlookup⟩ := FrozenIndex.buildFrozenPrimaryKeyIndex_spec hbuild
  have hentry := hb.entries k
  simp only [KvIndex.snapshotGet,hview,ok_bind,hlookup]
  cases hf : FirstWins.find SnapshotRow.primaryKey rows k with
  | none =>
    rw [hf] at hentry
    simp only at hentry
    rw [hentry]
    rfl
  | some row =>
    rw [hf] at hentry
    obtain ⟨offset,hat,hfound⟩ := hentry
    have hstored := hrow row (FirstWins.find_mem hf) offset hat
    rw [hfound]
    simp only [Option.map_some,hstored,ok_bind,answer,hlayout]
    cases Model.materializeRow? (some layout) (storedRow layout row.encoded) with
    | error e => rfl
    | ok row => rfl

/-- A lookup in the sealed snapshot answers with the row that was added for the key. -/
theorem Holds.sealSnapshot {builder : SnapshotBuilder} {layout : CompiledRowLayout}
    {rows : List SnapshotRow} (hb : builder.Holds layout rows)
    (hpos : ∀ row ∈ rows, 0 < layout.rowSlotSize)
    {backing : OwnedSnapshotBacking} (h : builder.sealSnapshot = .ok backing) :
    backing.layout = some layout ∧ ∀ k, KvIndex.snapshotGet (some (.owned backing)) k =
      answer (some layout) ((FirstWins.find SnapshotRow.primaryKey rows k).map fun row =>
        storedRow layout row.encoded) := by
  simp only [SnapshotBuilder.sealSnapshot,hb.layout_eq,bind_eq_ok,pure_eq_ok,Except.ok.injEq] at h
  obtain ⟨indexBytes,hbuild,rfl⟩ := h
  refine ⟨rfl,fun k => hb.snapshotGet hbuild rfl ?_ k⟩
  intro row hrow offset hat
  rw [SnapshotBacking.encodedRowAt]
  exact hat.owned (hpos row hrow) rfl rfl rfl

end SnapshotBuilder
end KvIndex
