import KvIndex.FrozenMap
import KvIndex.SnapshotRows

/-! Building a snapshot from rows some of which are rejected (`store/snapshot_builder.cc`):
the sealed snapshot holds the accepted rows, each at its own offset, and no others. -/
namespace KvIndex

open Base

namespace SnapshotBuilder

/-- A builder after some calls of `AddRow`, with the rows that it accepted. -/
structure Added where
  builder : SnapshotBuilder
  accepted : List SnapshotRow

def start (layout : CompiledRowLayout) (options : SnapshotBuildOptions) : Added where
  builder := { layout := some layout,options }
  accepted := []

/-- One call of `AddRow`, whatever it returns. -/
def Added.call (added : Added) (row : SnapshotRow) : Added :=
  match added.builder.addRow row.primaryKey row.encoded with
  | .ok builder => ⟨builder,added.accepted++[row]⟩
  | .error _ => added

def addCalls (layout : CompiledRowLayout) (options : SnapshotBuildOptions)
    (calls : List SnapshotRow) : Added :=
  calls.foldl Added.call (start layout options)

theorem addCalls_snoc (layout : CompiledRowLayout) (options : SnapshotBuildOptions)
    (calls : List SnapshotRow) (row : SnapshotRow) :
    addCalls layout options (calls++[row]) = (addCalls layout options calls).call row := by
  rw [addCalls,List.foldl_append]
  rfl

/-- The accepted rows alone make the builder that all calls make. -/
structure Replays (layout : CompiledRowLayout) (options : SnapshotBuildOptions)
    (calls : List SnapshotRow) (added : Added) : Prop where
  replay : added.accepted.foldlM (fun builder row => builder.addRow row.primaryKey row.encoded)
    (start layout options).builder = .ok added.builder
  sublist : added.accepted.Sublist calls
  options_eq : added.builder.options = options
  holds : added.builder.Holds layout added.accepted
  distinct : FirstWins.Distinct SnapshotRow.primaryKey added.accepted
  indexed : added.builder.indexEntries.map FrozenPrimaryKeyIndexEntry.primaryKey =
    added.accepted.map SnapshotRow.primaryKey

variable {layout : CompiledRowLayout} {options : SnapshotBuildOptions} {calls : List SnapshotRow}

theorem addRow_indexed {builder builder' : SnapshotBuilder} {k : UInt64} {encoded : EncodedRow}
    (h : builder.addRow k encoded = .ok builder') :
    k ∉ builder.primaryKeys ∧
      builder'.indexEntries.map FrozenPrimaryKeyIndexEntry.primaryKey =
        builder.indexEntries.map FrozenPrimaryKeyIndexEntry.primaryKey++[k] := by
  cases hl : builder.layout with
  | none =>
    simp only [addRow,hl] at h
    cases h
  | some layout =>
    simp only [addRow,hl,bind_eq_ok,failIf_eq_ok,exists_const,pure_eq_ok,Except.ok.injEq] at h
    obtain ⟨-,-,hnew,-,rfl⟩ := h
    exact ⟨by simpa using hnew,by simp⟩

theorem Replays.call (hpos : 0 < layout.rowSlotSize) {added : Added}
    (h : Replays layout options calls added) (row : SnapshotRow) :
    Replays layout options (calls++[row]) (added.call row) := by
  rw [Added.call]
  cases hadd : added.builder.addRow row.primaryKey row.encoded with
  | error status =>
    exact ⟨h.replay,h.sublist.trans (List.sublist_append_left _ _),h.options_eq,h.holds,h.distinct,
      h.indexed⟩
  | ok builder =>
    obtain ⟨hholds,hoptions⟩ := h.holds.addRow hpos hadd
    obtain ⟨hnew,hindexed⟩ := addRow_indexed hadd
    rw [h.holds.keys] at hnew
    refine ⟨?_,h.sublist.append (List.Sublist.refl _),hoptions.trans h.options_eq,hholds,?_,?_⟩
    · rw [List.foldlM_append,h.replay,ok_bind,List.foldlM_cons,hadd,ok_bind]
      rfl
    · rw [FirstWins.Distinct,List.map_append,List.nodup_append]
      refine ⟨h.distinct,List.nodup_singleton _,?_⟩
      intro k hk k' hk'
      rw [List.map_cons,List.map_nil,List.mem_singleton] at hk'
      rintro rfl
      exact hnew (hk' ▸ hk)
    · rw [hindexed,h.indexed,List.map_append]
      rfl

theorem addCalls_replays (hpos : 0 < layout.rowSlotSize) (options : SnapshotBuildOptions)
    (calls : List SnapshotRow) :
    Replays layout options calls (addCalls layout options calls) := by
  induction calls using List.reverseRecOn with
  | nil => exact ⟨rfl,List.Sublist.refl _,rfl,holds_nil layout options,List.nodup_nil,rfl⟩
  | append_singleton calls row ih =>
    rw [addCalls_snoc]
    exact ih.call hpos row

end SnapshotBuilder

/-- The row that a sealed snapshot stores for an accepted one. -/
def sealedRow (layout : CompiledRowLayout) (row : SnapshotRow) : SnapshotRow :=
  ⟨row.primaryKey,storedRow layout row.encoded⟩

namespace SnapshotBuilder

variable {layout : CompiledRowLayout} {builder : SnapshotBuilder} {rows : List SnapshotRow}

/-- The snapshot that a builder seals, with the view over its index. -/
structure Sealed (builder : SnapshotBuilder) (layout : CompiledRowLayout)
    (backing : OwnedSnapshotBacking) (view : FrozenPrimaryKeyIndexView) : Prop where
  layout_eq : backing.layout = some layout
  slots : backing.rowSlotBytes = builder.rowSlotBytes
  payloads : backing.rowPayloads = builder.rowPayloads
  view_eq : FrozenPrimaryKeyIndexView.validate backing.frozenIndexBytes = .ok view
  lookup : ∀ k, view.lookup k = .ok ((FirstWins.find FrozenPrimaryKeyIndexEntry.primaryKey
    builder.indexEntries k).map FrozenPrimaryKeyIndexEntry.rowOffset)

theorem Holds.sealed (hb : builder.Holds layout rows) {backing : OwnedSnapshotBacking}
    (h : builder.sealSnapshot = .ok backing) : ∃ view, builder.Sealed layout backing view := by
  simp only [SnapshotBuilder.sealSnapshot,hb.layout_eq,bind_eq_ok,pure_eq_ok,Except.ok.injEq] at h
  obtain ⟨indexBytes,hbuild,rfl⟩ := h
  obtain ⟨view,hview,_,_,_,hlookup⟩ := FrozenIndex.buildFrozenPrimaryKeyIndex_spec hbuild
  exact ⟨view,rfl,rfl,rfl,hview,hlookup⟩

theorem Sealed.found {backing : OwnedSnapshotBacking} {view : FrozenPrimaryKeyIndexView}
    (hs : builder.Sealed layout backing view) (hb : builder.Holds layout rows)
    (hpos : 0 < layout.rowSlotSize) {k : UInt64} {row : SnapshotRow}
    (hrow : FirstWins.find SnapshotRow.primaryKey rows k = some row) :
    ∃ offset, view.lookup k = .ok (some offset) ∧
      backing.encodedRowAt offset = .ok (storedRow layout row.encoded) := by
  have hentry := hb.entries k
  rw [hrow] at hentry
  obtain ⟨offset,hat,hfound⟩ := hentry
  refine ⟨UInt64.ofNat offset,?_,hat.owned hpos hs.layout_eq hs.slots hs.payloads⟩
  rw [hs.lookup,hfound]
  rfl

theorem Sealed.missed {backing : OwnedSnapshotBacking} {view : FrozenPrimaryKeyIndexView}
    (hs : builder.Sealed layout backing view) (hb : builder.Holds layout rows) {k : UInt64}
    (hrow : FirstWins.find SnapshotRow.primaryKey rows k = none) : view.lookup k = .ok none := by
  have hentry := hb.entries k
  rw [hrow] at hentry
  simp only at hentry
  rw [hs.lookup,hentry]
  rfl

theorem Sealed.enumerate {backing : OwnedSnapshotBacking} {view : FrozenPrimaryKeyIndexView}
    (hs : builder.Sealed layout backing view) (hb : builder.Holds layout rows)
    (hpos : 0 < layout.rowSlotSize) (hd : FirstWins.Distinct SnapshotRow.primaryKey rows) :
    ∃ listed, enumerateSnapshotRows (.owned backing) = .ok listed ∧
      listed.Perm (rows.map (sealedRow layout)) := by
  obtain ⟨_,_,hw,_⟩ := FrozenPrimaryKeyIndexView.validate_eq_ok.mp hs.view_eq
  obtain ⟨hstored,hsame⟩ := hw.lookup_eq_find hw.entries
  generalize hentries : (List.range view.metadata.capacity).filterMap view.entryAt = entries at *
  -- An entry of the index is the entry of one row.
  have hrowOf : ∀ {k entry}, FirstWins.find FrozenPrimaryKeyIndexEntry.primaryKey entries k =
      some entry → ∃ row, FirstWins.find SnapshotRow.primaryKey rows k = some row ∧
        backing.encodedRowAt entry.rowOffset = .ok (storedRow layout row.encoded) := by
    intro k entry hentry
    have hlookup := hsame k
    rw [hentry,Option.map_some] at hlookup
    cases hrow : FirstWins.find SnapshotRow.primaryKey rows k with
    | none => cases hlookup.symm.trans (hs.missed hb hrow)
    | some row =>
      obtain ⟨offset,hoffset,hencoded⟩ := hs.found hb hpos hrow
      cases hlookup.symm.trans hoffset
      exact ⟨row,rfl,hencoded⟩
  have hread : ∀ entry ∈ entries, ∃ row : SnapshotRow, (do
      let encoded ← (SnapshotBacking.owned backing).encodedRowAt entry.rowOffset
      return ({ primaryKey := entry.primaryKey,encoded } : SnapshotRow)) = Except.ok row := by
    intro entry hentry
    obtain ⟨row,_,hencoded⟩ := hrowOf (FirstWins.find_of_mem hstored hentry)
    refine ⟨⟨entry.primaryKey,storedRow layout row.encoded⟩,?_⟩
    simp only [SnapshotBacking.encodedRowAt,hencoded,ok_bind,pure_eq_ok]
  obtain ⟨listed,hlisted⟩ := mapM_ok hread
  refine ⟨listed,?_,?_⟩
  · simp only [enumerateSnapshotRows,SnapshotBacking.frozenIndexBytes,hs.view_eq,ok_bind,hw.entries,
      hentries]
    exact hlisted
  obtain ⟨hkeys,hfind⟩ := mapM_encodedRowAt hlisted
  have hkeyed : (rows.map (sealedRow layout)).map SnapshotRow.primaryKey =
      rows.map SnapshotRow.primaryKey := by
    rw [List.map_map]
    rfl
  refine @FirstWins.perm_of_find _ _ _ SnapshotRow.primaryKey _ _ ?_ ?_ fun k => ?_
  · rw [FirstWins.Distinct,hkeys]
    exact hstored
  · rw [FirstWins.Distinct,hkeyed]
    exact hd
  · have hmap : FirstWins.find SnapshotRow.primaryKey (rows.map (sealedRow layout)) k =
        (FirstWins.find SnapshotRow.primaryKey rows k).map (sealedRow layout) :=
      FirstWins.find_map (sealedRow layout) (fun _ => rfl) rows k
    have hmatch := hfind k
    rw [hmap]
    cases hentry : FirstWins.find FrozenPrimaryKeyIndexEntry.primaryKey entries k with
    | none =>
      rw [hentry] at hmatch
      simp only at hmatch
      cases hrow : FirstWins.find SnapshotRow.primaryKey rows k with
      | none => exact hmatch
      | some row =>
        obtain ⟨offset,hoffset,_⟩ := hs.found hb hpos hrow
        have hlookup := hsame k
        rw [hentry] at hlookup
        cases hlookup.symm.trans hoffset
    | some entry =>
      rw [hentry] at hmatch
      obtain ⟨encoded,hencoded,hlistedRow⟩ := hmatch
      obtain ⟨row,hrow,hstoredRow⟩ := hrowOf hentry
      cases hencoded.symm.trans hstoredRow
      rw [hlistedRow,hrow,Option.map_some,sealedRow,FirstWins.find_key hentry,
        FirstWins.find_key hrow]

theorem sealSnapshot_succeeds (hlayout : builder.layout = some layout)
    (hd : (builder.indexEntries.map FrozenPrimaryKeyIndexEntry.primaryKey).Nodup) :
    (∃ backing, builder.sealSnapshot = .ok backing) ↔
      builder.indexEntries.length ≤ FrozenIndex.maxRowCount := by
  have hbuild := @FrozenIndex.buildFrozenPrimaryKeyIndex_succeeds builder.indexEntries
    { hashSeed := builder.options.hashSeed,hashVersion := builder.options.hashVersion } rfl
  rw [← and_iff_right hd (b := builder.indexEntries.length ≤ _),← FirstWins.Distinct,← hbuild]
  simp only [SnapshotBuilder.sealSnapshot,hlayout,bind_eq_ok,pure_eq_ok,Except.ok.injEq]
  constructor
  · rintro ⟨backing,bytes,hbytes,rfl⟩
    exact ⟨bytes,hbytes⟩
  · rintro ⟨bytes,hbytes⟩
    exact ⟨_,bytes,hbytes,rfl⟩

/-- Calls of `AddRow`, rejected ones among them, and then `Seal`: the snapshot holds exactly the
accepted rows, and rejected calls change nothing. -/
theorem build_round_trip {layout : CompiledRowLayout} (hpos : 0 < layout.rowSlotSize)
    (options : SnapshotBuildOptions) (calls : List SnapshotRow) :
    let added := addCalls layout options calls
    added.accepted.Sublist calls ∧
    added.accepted.foldlM (fun builder row => builder.addRow row.primaryKey row.encoded)
      (start layout options).builder = .ok added.builder ∧
    ((∃ backing, added.builder.sealSnapshot = .ok backing) ↔
      added.accepted.length ≤ FrozenIndex.maxRowCount) ∧
    ∀ backing, added.builder.sealSnapshot = .ok backing →
      ∃ view, FrozenPrimaryKeyIndexView.validate backing.frozenIndexBytes = .ok view ∧
        (∀ row ∈ added.accepted, ∃ offset, view.lookup row.primaryKey = .ok (some offset) ∧
          backing.encodedRowAt offset = .ok (storedRow layout row.encoded) ∧
          KvIndex.snapshotGet (some (.owned backing)) row.primaryKey =
            (Model.materializeRow layout (storedRow layout row.encoded)).map some) ∧
        (∀ k, (∀ row ∈ added.accepted, row.primaryKey ≠ k) → view.lookup k = .ok none ∧
          KvIndex.snapshotGet (some (.owned backing)) k = .ok none) ∧
        ∃ listed, enumerateSnapshotRows (.owned backing) = .ok listed ∧
          listed.Perm (added.accepted.map (sealedRow layout)) := by
  intro added
  have h : Replays layout options calls added := addCalls_replays hpos options calls
  refine ⟨h.sublist,h.replay,?_,?_⟩
  · have hcount : added.builder.indexEntries.length = added.accepted.length := by
      rw [← List.length_map FrozenPrimaryKeyIndexEntry.primaryKey,h.indexed,List.length_map]
    rw [← hcount]
    exact sealSnapshot_succeeds h.holds.layout_eq (h.indexed ▸ h.distinct)
  · intro backing hbacking
    obtain ⟨view,hs⟩ := h.holds.sealed hbacking
    obtain ⟨_,hget⟩ := h.holds.sealSnapshot (fun _ _ => hpos) hbacking
    refine ⟨view,hs.view_eq,?_,?_,hs.enumerate h.holds hpos h.distinct⟩
    · intro row hrow
      have hfind := FirstWins.find_of_mem h.distinct hrow
      obtain ⟨offset,hoffset,hencoded⟩ := hs.found h.holds hpos hfind
      refine ⟨offset,hoffset,hencoded,?_⟩
      rw [hget,hfind]
      rfl
    · intro k hk
      have hfind := FirstWins.find_eq_none.mpr hk
      refine ⟨hs.missed h.holds hfind,?_⟩
      rw [hget,hfind]
      rfl

/-- A layout with one nullable 64-bit field and slots of 16 bytes. -/
def oneFieldLayout : CompiledRowLayout := .compile {
  version := 1,activeFields := [{ fieldId := 1,name := [118] }] }

def oneFieldRow (primaryKey : UInt64) (slot : Bytes) : SnapshotRow where
  primaryKey := primaryKey
  encoded := { Model.createEncodedRow oneFieldLayout with rowSlot := slot }

/-- Of four calls one brings a short slot and one a key twice; an oversized slot is cut. -/
theorem build_round_trip_sample :
    let calls := [oneFieldRow 7 (List.replicate 16 1),oneFieldRow 8 (List.replicate 15 2),
      oneFieldRow 7 (List.replicate 16 3),oneFieldRow 9 (List.replicate 20 4)]
    (addCalls oneFieldLayout {} calls).accepted =
        [oneFieldRow 7 (List.replicate 16 1),oneFieldRow 9 (List.replicate 20 4)] ∧
      ∃ backing, (addCalls oneFieldLayout {} calls).builder.sealSnapshot = .ok backing ∧
        ∃ listed, enumerateSnapshotRows (.owned backing) = .ok listed ∧
          listed.Perm [oneFieldRow 7 (List.replicate 16 1),oneFieldRow 9 (List.replicate 16 4)] := by
  intro calls
  have haccepted : (addCalls oneFieldLayout {} calls).accepted =
      [oneFieldRow 7 (List.replicate 16 1),oneFieldRow 9 (List.replicate 20 4)] := by
    decide +kernel
  obtain ⟨_,_,hseals,hsealed⟩ := @build_round_trip oneFieldLayout (by decide +kernel) {} calls
  have hcount : (addCalls oneFieldLayout {} calls).accepted.length ≤ FrozenIndex.maxRowCount := by
    rw [haccepted]
    decide
  obtain ⟨backing,hbacking⟩ := hseals.mpr hcount
  obtain ⟨_,_,_,_,listed,hlisted,hperm⟩ := hsealed backing hbacking
  refine ⟨haccepted,backing,hbacking,listed,hlisted,?_⟩
  rw [haccepted] at hperm
  exact hperm

end SnapshotBuilder
end KvIndex
