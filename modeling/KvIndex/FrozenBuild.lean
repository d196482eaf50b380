import KvIndex.FrozenLookup

/-! The bytes that `BuildFrozenPrimaryKeyIndex` returns pass `Validate`, and the view
on them is the map of the entries. The placement loop keeps `Built`, which says
which entries the slots hold so far. -/
namespace KvIndex
namespace FrozenIndex

open Base LittleEndian FrozenPrimaryKeyIndexView

theorem growCapacity_spec {fuel capacity minForLoad n : ℕ}
    (hfuel : uint64Max < capacity*2^fuel) (hc : ∃ k, capacity = 2^k) (hmin : minForLoad ≤ uint64Max)
    (h : growCapacity fuel capacity minForLoad = .ok n) :
    minForLoad ≤ n ∧ capacity ≤ n ∧ ∃ k, n = 2^k := by
  induction fuel generalizing capacity with
  | zero =>
    rw [growCapacity,Except.ok.injEq] at h
    subst h
    rw [pow_zero,Nat.mul_one] at hfuel
    exact ⟨by omega,le_rfl,hc⟩
  | succ fuel ih =>
    rw [growCapacity] at h
    split_ifs at h with h1 h2
    · obtain ⟨k,rfl⟩ := hc
      have hrest := ih (by rw [pow_succ'] at hfuel; rwa [Nat.mul_assoc]) ⟨k+1,by rw [pow_succ]⟩ h
      exact ⟨hrest.1,by omega,hrest.2.2⟩
    · rw [Except.ok.injEq] at h
      subst h
      exact ⟨by omega,le_rfl,hc⟩

theorem calculateCapacity_spec {rowCount groupWidth capacity : ℕ}
    (h : calculateCapacity rowCount groupWidth = .ok capacity) :
    groupWidth = kDefaultGroupWidth ∧ kDefaultGroupWidth ≤ capacity ∧
      isPowerOfTwo capacity = true ∧ rowCount ≤ capacity/8*7 := by
  simp only [calculateCapacity,bind_eq_ok,failIf_eq_ok,exists_const] at h
  obtain ⟨hw,hcount,hgrow⟩ := h
  simp only [Bool.or_eq_false_iff,bne_eq_false_iff_eq,decide_eq_false_iff_not,gt_iff_lt,
    Nat.not_lt] at hw hcount
  obtain ⟨_,rfl⟩ := hw
  have hmax : uint64Max = 18446744073709551615 := by norm_num [uint64Max]
  obtain ⟨hload,hwide,k,hk⟩ := growCapacity_spec
    (by rw [hmax]; norm_num [kDefaultGroupWidth]) ⟨4,rfl⟩ (by omega) hgrow
  refine ⟨rfl,hwide,isPowerOfTwo_iff.mpr ⟨k,hk⟩,?_⟩
  have h8 : capacity%8 = 0 := by
    have h3 : 3 ≤ k := by
      by_contra hlt
      have hle : (2 : ℕ)^k ≤ 2^2 := Nat.pow_le_pow_right (by omega) (by omega)
      rw [← hk] at hle
      have h16 : 16 ≤ capacity := hwide
      omega
    obtain ⟨j,rfl⟩ : ∃ j, k = j+3 := ⟨k-3,by omega⟩
    rw [hk,pow_add]
    norm_num
  omega

theorem checkDistinct_spec {seenKeys : List UInt64} {entries : List FrozenPrimaryKeyIndexEntry}
    {u : Unit} (h : checkDistinct seenKeys entries = .ok u) :
    FirstWins.Distinct FrozenPrimaryKeyIndexEntry.primaryKey entries ∧
      ∀ entry ∈ entries, entry.primaryKey ∉ seenKeys := by
  induction entries generalizing seenKeys with
  | nil => exact ⟨List.nodup_nil,by simp⟩
  | cons entry entries ih =>
    simp only [checkDistinct,bind_eq_ok,failIf_eq_ok,exists_const] at h
    obtain ⟨hnew,hrest⟩ := h
    obtain ⟨hd,hseen⟩ := ih hrest
    refine ⟨List.nodup_cons.mpr ⟨?_,hd⟩,?_⟩
    · intro hmem
      obtain ⟨other,hother,hkey⟩ := List.mem_map.mp hmem
      exact hseen other hother (hkey ▸ List.mem_cons_self)
    · intro other hother
      rcases List.mem_cons.mp hother with rfl | hother
      · simpa using hnew
      · exact fun hin => hseen other hother (List.mem_cons_of_mem _ hin)

/-- The metadata the builder computes, for bytes of the total size it asks for. -/
theorem buildMetadata_spec {rowCount capacity : ℕ} {options : FrozenPrimaryKeyIndexBuildOptions}
    {metadata : FrozenPrimaryKeyIndexMetadata} (hw : options.groupWidth = kDefaultGroupWidth)
    (hwide : kDefaultGroupWidth ≤ capacity) (hpow : isPowerOfTwo capacity = true)
    (h : buildMetadata rowCount options capacity = .ok metadata) :
    metadata.rowCount = rowCount ∧ metadata.capacity = capacity ∧
      metadata.hashSeed = options.hashSeed ∧ metadata.hashVersion = options.hashVersion ∧
      ∀ bytes : Bytes, bytes.length = metadata.totalSize → Layout ⟨bytes,metadata⟩ := by
  simp only [buildMetadata,bind_eq_ok,failIf_eq_ok,exists_const,checkedAdd_eq_ok,checkedMul_eq_ok,
    pure_eq_ok,Except.ok.injEq] at h
  obtain ⟨_,⟨_,rfl⟩,_,⟨_,rfl⟩,_,⟨_,rfl⟩,_,⟨_,rfl⟩,_,⟨_,rfl⟩,_,⟨_,rfl⟩,hbound,rfl⟩ := h
  refine ⟨rfl,rfl,rfl,rfl,?_⟩
  intro bytes hlen
  simp only [decide_eq_false_iff_not,gt_iff_lt,Nat.not_lt] at hbound
  exact ⟨hpow,hw,hwide,rfl,by simp only [hw],rfl,rfl,hlen,hbound⟩

/-- The header fields with their offsets, in the order they are written. -/
def headerFields (metadata : FrozenPrimaryKeyIndexMetadata) : List (ℕ×Bytes) :=
  [(kMagicOffset,toBytes kMagic),(kFormatVersionOffset,toBytes kFormatVersion),
    (kHeaderSizeOffset,toBytes (UInt32.ofNat kSerializedHeaderSize)),
    (kRowCountOffset,toBytes (UInt64.ofNat metadata.rowCount)),
    (kCapacityOffset,toBytes (UInt64.ofNat metadata.capacity)),
    (kHashSeedOffset,toBytes metadata.hashSeed),(kHashVersionOffset,toBytes metadata.hashVersion),
    (kGroupWidthOffset,toBytes (UInt32.ofNat metadata.groupWidth)),
    (kControlOffsetOffset,toBytes (UInt64.ofNat metadata.controlOffset)),
    (kKeyOffsetOffset,toBytes (UInt64.ofNat metadata.keyOffset)),
    (kRowOffsetOffsetOffset,toBytes (UInt64.ofNat metadata.rowOffsetOffset)),
    (kTotalSizeOffset,toBytes (UInt64.ofNat metadata.totalSize))]

theorem headerFields_bound (metadata : FrozenPrimaryKeyIndexMetadata) :
    ∀ field ∈ headerFields metadata, field.1+field.2.length ≤ kSerializedHeaderSize := by
  simp [headerFields,size,kSerializedHeaderSize,kMagicOffset,kFormatVersionOffset,
    kHeaderSizeOffset,kRowCountOffset,kCapacityOffset,kHashSeedOffset,kHashVersionOffset,
    kGroupWidthOffset,kControlOffsetOffset,kKeyOffsetOffset,kRowOffsetOffsetOffset,
    kTotalSizeOffset]

theorem headerFields_pairwise (metadata : FrozenPrimaryKeyIndexMetadata) :
    (headerFields metadata).Pairwise fun v w => v.1+v.2.length ≤ w.1 := by
  simp [headerFields,size,kMagicOffset,kFormatVersionOffset,
    kHeaderSizeOffset,kRowCountOffset,kCapacityOffset,kHashSeedOffset,kHashVersionOffset,
    kGroupWidthOffset,kControlOffsetOffset,kKeyOffsetOffset,kRowOffsetOffsetOffset,
    kTotalSizeOffset]

theorem writeHeader_eq {bytes : Bytes} (metadata : FrozenPrimaryKeyIndexMetadata)
    (h : kSerializedHeaderSize ≤ bytes.length) :
    writeHeader bytes metadata = .ok (spliceAll bytes (headerFields metadata)) := by
  rw [← foldlM_writeBytesAt fun field hf => (headerFields_bound metadata field hf).trans h]
  simp only [writeHeader,headerFields,writeLittleEndian_eq,List.foldlM_cons,List.foldlM_nil,
    bind_pure]

/-- The header of the metadata stands at the start of the bytes. -/
def HasHeader (metadata : FrozenPrimaryKeyIndexMetadata) (bytes : Bytes) : Prop :=
  ∀ field ∈ headerFields metadata, slice bytes field.1 field.2.length = field.2

theorem HasHeader.congr {metadata : FrozenPrimaryKeyIndexMetadata} {bytes bytes' : Bytes}
    (h : HasHeader metadata bytes) (hsame : ∀ i < kSerializedHeaderSize, bytes'[i]? = bytes[i]?) :
    HasHeader metadata bytes' := by
  intro field hf
  have hb := headerFields_bound metadata field hf
  rw [slice_congr fun i hi => hsame (field.1+i) (by omega),h field hf]

theorem HasHeader.readMetadata {metadata : FrozenPrimaryKeyIndexMetadata} {bytes : Bytes}
    (h : HasHeader metadata bytes) (hlen : kSerializedHeaderSize ≤ bytes.length)
    (hcount : metadata.rowCount ≤ uint64Max) (hl : Layout ⟨bytes,metadata⟩) :
    readMetadata bytes = .ok metadata := by
  have hread : ∀ {T : Type} [LittleEndianInteger T] {offset : ℕ} {v : T},
      (offset,toBytes v) ∈ headerFields metadata → readHeaderField T bytes offset = .ok v := by
    intro T _ offset v hmem
    have hslice := h _ hmem
    have hb := headerFields_bound metadata _ hmem
    simp only [toBytes_length] at hslice hb
    rw [readHeaderField,readLittleEndian_of_slice (hb.trans hlen) hslice]
  have hbound := hl.bound
  have hkey := hl.key
  have hrow := hl.row
  have htotal := hl.total
  have hcontrol := hl.control
  have hwidth := hl.width
  simp only [kSerializedHeaderSize,kDefaultGroupWidth] at hbound hkey hrow htotal hcontrol hwidth
  have hmax : uint64Max = 18446744073709551615 := by norm_num [uint64Max]
  have h64 : ∀ n ≤ uint64Max, (UInt64.ofNat n).toNat = n := by
    intro n hn
    rw [UInt64.toNat_ofNat']
    exact Nat.mod_eq_of_lt (by omega)
  have h32 : ∀ n ≤ 80, (UInt32.ofNat n).toNat = n := by
    intro n hn
    rw [UInt32.toNat_ofNat']
    exact Nat.mod_eq_of_lt (by omega)
  have hshort : decide (bytes.length < kSerializedHeaderSize) = false := by simpa using hlen
  have hsize : ((UInt32.ofNat kSerializedHeaderSize).toNat != kSerializedHeaderSize) = false := by
    rw [h32 _ (by simp [kSerializedHeaderSize])]
    simp
  rw [FrozenIndex.readMetadata,hshort,failIf_false,ok_bind,
    hread (v := kMagic) (by simp [headerFields]),ok_bind,bne_self_eq_false,failIf_false,ok_bind,
    hread (v := kFormatVersion) (by simp [headerFields]),ok_bind,bne_self_eq_false,failIf_false,
    ok_bind,hread (v := UInt32.ofNat kSerializedHeaderSize) (by simp [headerFields]),ok_bind,hsize,
    failIf_false,ok_bind,hread (v := UInt64.ofNat metadata.rowCount) (by simp [headerFields]),
    ok_bind,hread (v := UInt64.ofNat metadata.capacity) (by simp [headerFields]),
    ok_bind,hread (v := metadata.hashSeed) (by simp [headerFields]),
    ok_bind,hread (v := metadata.hashVersion) (by simp [headerFields]),
    ok_bind,hread (v := UInt32.ofNat metadata.groupWidth) (by simp [headerFields]),
    ok_bind,hread (v := UInt64.ofNat metadata.controlOffset) (by simp [headerFields]),
    ok_bind,hread (v := UInt64.ofNat metadata.keyOffset) (by simp [headerFields]),
    ok_bind,hread (v := UInt64.ofNat metadata.rowOffsetOffset) (by simp [headerFields]),
    ok_bind,hread (v := UInt64.ofNat metadata.totalSize) (by simp [headerFields]),ok_bind,pure_eq_ok]
  congr 1
  rw [h64 _ hcount,h64 metadata.capacity (by omega),h32 metadata.groupWidth (by omega),
    h64 metadata.controlOffset (by omega),h64 metadata.keyOffset (by omega),
    h64 metadata.rowOffsetOffset (by omega),h64 metadata.totalSize (by omega)]

section Placement

variable {metadata : FrozenPrimaryKeyIndexMetadata} {bytes : Bytes}

def slotFields (metadata : FrozenPrimaryKeyIndexMetadata) (entry : FrozenPrimaryKeyIndexEntry)
    (slot : ℕ) : List (ℕ×Bytes) :=
  [(metadata.controlOffset+slot,
      [h2 (stableHash64 entry.primaryKey metadata.hashSeed metadata.hashVersion)]),
    (metadata.keyOffset+slot*8,toBytes entry.primaryKey),
    (metadata.rowOffsetOffset+slot*8,toBytes entry.rowOffset)]

def place (metadata : FrozenPrimaryKeyIndexMetadata) (bytes : Bytes)
    (entry : FrozenPrimaryKeyIndexEntry) (slot : ℕ) : Bytes :=
  spliceAll bytes (slotFields metadata entry slot)

variable (hl : Layout ⟨bytes,metadata⟩) {slot : ℕ} (hs : slot < metadata.capacity)
  (entry : FrozenPrimaryKeyIndexEntry)

include hl hs

theorem slotFields_bound : ∀ field ∈ slotFields metadata entry slot,
    field.1+field.2.length ≤ bytes.length := by
  have hcontrol := hl.control
  have hkey := hl.key
  have hrow := hl.row
  have htotal := hl.total
  have hlen := hl.length
  simp only [kSerializedHeaderSize,kDefaultGroupWidth] at hcontrol hkey hrow htotal hlen
  have h8 : size UInt64 = 8 := rfl
  simp only [slotFields,List.mem_cons,List.not_mem_nil,or_false,forall_eq_or_imp,forall_eq,
    List.length_singleton,toBytes_length,h8]
  omega

theorem slotFields_pairwise :
    (slotFields metadata entry slot).Pairwise fun v w => v.1+v.2.length ≤ w.1 := by
  have hcontrol := hl.control
  have hkey := hl.key
  have hrow := hl.row
  simp only [kSerializedHeaderSize,kDefaultGroupWidth] at hcontrol hkey hrow
  have h8 : size UInt64 = 8 := rfl
  simp only [slotFields,List.pairwise_cons,List.mem_cons,List.not_mem_nil,or_false,
    forall_eq_or_imp,forall_eq,List.length_singleton,toBytes_length,h8,List.Pairwise.nil,and_true,
    false_implies,implies_true]
  omega

theorem placed_getElem? {i : ℕ} (h1 : i ≠ metadata.controlOffset+slot)
    (h2 : i < metadata.keyOffset+slot*8 ∨ metadata.keyOffset+slot*8+8 ≤ i)
    (h3 : i < metadata.rowOffsetOffset+slot*8 ∨ metadata.rowOffsetOffset+slot*8+8 ≤ i) :
    (place metadata bytes entry slot)[i]? = bytes[i]? := by
  have h8 : size UInt64 = 8 := rfl
  apply spliceAll_getElem?_outside (slotFields_bound hl hs entry)
  simp only [slotFields,List.mem_cons,List.not_mem_nil,or_false,forall_eq_or_imp,forall_eq,
    List.length_singleton,toBytes_length,h8]
  omega

theorem placed_layout : Layout ⟨place metadata bytes entry slot,metadata⟩ := by
  have hlen := spliceAll_length (slotFields_bound hl hs entry)
  exact ⟨hl.pow,hl.width,hl.wide,hl.control,hl.key,hl.row,hl.total,hlen.trans hl.length,hl.bound⟩

theorem placed_control (s : ℕ) (hs' : s < metadata.capacity+kDefaultGroupWidth) :
    FrozenPrimaryKeyIndexView.control ⟨place metadata bytes entry slot,metadata⟩ s =
      if s = slot then h2 (stableHash64 entry.primaryKey metadata.hashSeed metadata.hashVersion)
      else FrozenPrimaryKeyIndexView.control ⟨bytes,metadata⟩ s := by
  have hcontrol := hl.control
  have hkey := hl.key
  have hrow := hl.row
  simp only [kSerializedHeaderSize,kDefaultGroupWidth] at hcontrol hkey hrow hs'
  have hwin := slice_spliceAll (slotFields_bound hl hs entry) (slotFields_pairwise hl hs entry)
    (w := (metadata.controlOffset+slot,
      [h2 (stableHash64 entry.primaryKey metadata.hashSeed metadata.hashVersion)]))
    (by simp [slotFields])
  simp only [FrozenPrimaryKeyIndexView.control,List.getD_eq_getElem?_getD]
  by_cases h : s = slot
  · have hget := slice_getElem? (place metadata bytes entry slot) (metadata.controlOffset+slot) 1 0
      (by omega)
    rw [if_pos h,h]
    simp only [List.length_singleton] at hwin
    rw [place,hwin,Nat.add_zero] at hget
    rw [place,← hget]
    rfl
  · rw [if_neg h,placed_getElem? hl hs entry (by omega) (by omega) (by omega)]

theorem placed_keyAt (s : ℕ) (hs' : s < metadata.capacity) :
    FrozenPrimaryKeyIndexView.keyAt ⟨place metadata bytes entry slot,metadata⟩ s =
      if s = slot then entry.primaryKey else FrozenPrimaryKeyIndexView.keyAt ⟨bytes,metadata⟩ s := by
  have hcontrol := hl.control
  have hkey := hl.key
  have hrow := hl.row
  simp only [kSerializedHeaderSize,kDefaultGroupWidth] at hcontrol hkey hrow
  have hwin := slice_spliceAll (slotFields_bound hl hs entry) (slotFields_pairwise hl hs entry)
    (w := (metadata.keyOffset+slot*8,toBytes entry.primaryKey)) (by simp [slotFields])
  have h8 : size UInt64 = 8 := rfl
  simp only [FrozenPrimaryKeyIndexView.keyAt]
  by_cases h : s = slot
  · simp only [toBytes_length,h8] at hwin
    rw [if_pos h,h,place,hwin,ofBytes_toBytes]
  · rw [if_neg h,slice_congr]
    intro i hi
    exact placed_getElem? hl hs entry (by omega) (by omega) (by omega)

theorem placed_rowOffsetAt (s : ℕ) :
    FrozenPrimaryKeyIndexView.rowOffsetAt ⟨place metadata bytes entry slot,metadata⟩ s =
      if s = slot then entry.rowOffset
      else FrozenPrimaryKeyIndexView.rowOffsetAt ⟨bytes,metadata⟩ s := by
  have hcontrol := hl.control
  have hkey := hl.key
  have hrow := hl.row
  simp only [kSerializedHeaderSize,kDefaultGroupWidth] at hcontrol hkey hrow
  have hwin := slice_spliceAll (slotFields_bound hl hs entry) (slotFields_pairwise hl hs entry)
    (w := (metadata.rowOffsetOffset+slot*8,toBytes entry.rowOffset)) (by simp [slotFields])
  have h8 : size UInt64 = 8 := rfl
  simp only [FrozenPrimaryKeyIndexView.rowOffsetAt]
  by_cases h : s = slot
  · simp only [toBytes_length,h8] at hwin
    rw [if_pos h,h,place,hwin,ofBytes_toBytes]
  · rw [if_neg h,slice_congr]
    intro i hi
    exact placed_getElem? hl hs entry (by omega) (by omega) (by omega)

theorem placed_occ :
    FrozenPrimaryKeyIndexView.occ ⟨place metadata bytes entry slot,metadata⟩ =
      Function.update (FrozenPrimaryKeyIndexView.occ ⟨bytes,metadata⟩) slot
        (some entry.primaryKey) := by
  funext s
  by_cases hin : s < metadata.capacity
  · simp only [FrozenPrimaryKeyIndexView.occ,placed_control hl hs entry s (by omega),
      placed_keyAt hl hs entry s hin,hin,true_and,Function.update_apply]
    by_cases h : s = slot
    · simp [h,h2_ne_kEmptyControl]
    · simp [h]
  · have hne : s ≠ slot := by omega
    simp [FrozenPrimaryKeyIndexView.occ,hin,Function.update_of_ne hne]

theorem setControl_eq (b : UInt8) : writeBytesAt bytes (metadata.controlOffset+slot,[b]) =
    .ok (bytes.set (metadata.controlOffset+slot) b) := by
  have hcontrol := hl.control
  have hkey := hl.key
  have hrow := hl.row
  have htotal := hl.total
  have hlen := hl.length
  simp only [kSerializedHeaderSize,kDefaultGroupWidth] at hcontrol hkey hrow htotal hlen
  have hin : metadata.controlOffset+slot < bytes.length := by omega
  have hcheck : checkSpanBounds bytes.length (metadata.controlOffset+slot) 1 = .ok () :=
    checkSpanBounds_eq_ok.mpr hin
  rw [writeBytesAt]
  simp only [List.length_singleton,hcheck,ok_bind,pure_eq_ok,set_eq_splice hin]

theorem placeEntry_of_find
    (hfind : findEmptySlot bytes metadata.controlOffset (metadata.capacity-1) metadata.capacity
      ((stableHash64 entry.primaryKey metadata.hashSeed metadata.hashVersion).toNat &&&
        metadata.capacity-1) = some slot) :
    placeEntry metadata bytes entry = .ok (place metadata bytes entry slot) := by
  have hkeyslot : slotOffset metadata.keyOffset slot = metadata.keyOffset+slot*8 :=
    hl.slotOffset_key hs
  have hrowslot : slotOffset metadata.rowOffsetOffset slot = metadata.rowOffsetOffset+slot*8 :=
    hl.slotOffset_row hs
  rw [place,← foldlM_writeBytesAt (slotFields_bound hl hs entry),slotFields,List.foldlM_cons,
    setControl_eq hl hs,ok_bind,List.foldlM_cons,placeEntry]
  simp only [hfind,List.foldlM_cons,List.foldlM_nil,bind_pure,writeLittleEndian_eq,hkeyslot,
    hrowslot]

end Placement

theorem probe_bytes (metadata : FrozenPrimaryKeyIndexMetadata) (bytes bytes' : Bytes) :
    FrozenPrimaryKeyIndexView.probe ⟨bytes,metadata⟩ =
      FrozenPrimaryKeyIndexView.probe ⟨bytes',metadata⟩ := rfl

/-- The slots hold exactly the entries placed so far. -/
structure Built (metadata : FrozenPrimaryKeyIndexMetadata) (bytes : Bytes)
    (entries : List FrozenPrimaryKeyIndexEntry) : Prop where
  layout : Layout ⟨bytes,metadata⟩
  header : HasHeader metadata bytes
  control_key : ∀ slot < metadata.capacity,
    FrozenPrimaryKeyIndexView.control ⟨bytes,metadata⟩ slot ≠ kEmptyControl →
    FrozenPrimaryKeyIndexView.control ⟨bytes,metadata⟩ slot =
      h2 (stableHash64 (FrozenPrimaryKeyIndexView.keyAt ⟨bytes,metadata⟩ slot)
        metadata.hashSeed metadata.hashVersion)
  placed : Probing.Placed (FrozenPrimaryKeyIndexView.probe ⟨bytes,metadata⟩) metadata.capacity
    (FrozenPrimaryKeyIndexView.occ ⟨bytes,metadata⟩)
  load : Probing.load metadata.capacity (FrozenPrimaryKeyIndexView.occ ⟨bytes,metadata⟩) =
    entries.length
  sound : ∀ slot k, FrozenPrimaryKeyIndexView.occ ⟨bytes,metadata⟩ slot = some k →
    ⟨k,FrozenPrimaryKeyIndexView.rowOffsetAt ⟨bytes,metadata⟩ slot⟩ ∈ entries
  complete : ∀ entry ∈ entries, ∃ slot,
    FrozenPrimaryKeyIndexView.occ ⟨bytes,metadata⟩ slot = some entry.primaryKey ∧
    FrozenPrimaryKeyIndexView.rowOffsetAt ⟨bytes,metadata⟩ slot = entry.rowOffset

theorem findEmptySlot_walk {metadata : FrozenPrimaryKeyIndexMetadata} {bytes : Bytes}
    (hl : Layout ⟨bytes,metadata⟩) (k : UInt64) (n j remaining : ℕ) (hn : n < remaining)
    (hbusy : ∀ i < n, (FrozenPrimaryKeyIndexView.occ ⟨bytes,metadata⟩
      (FrozenPrimaryKeyIndexView.probe ⟨bytes,metadata⟩ k (j+i))).isSome)
    (hfree : FrozenPrimaryKeyIndexView.occ ⟨bytes,metadata⟩
      (FrozenPrimaryKeyIndexView.probe ⟨bytes,metadata⟩ k (j+n)) = none) :
    findEmptySlot bytes metadata.controlOffset (metadata.capacity-1) remaining
        (FrozenPrimaryKeyIndexView.probe ⟨bytes,metadata⟩ k j) =
      some (FrozenPrimaryKeyIndexView.probe ⟨bytes,metadata⟩ k (j+n)) := by
  induction n generalizing j remaining with
  | zero =>
    obtain ⟨r,rfl⟩ : ∃ r, remaining = r+1 := ⟨remaining-1,by omega⟩
    have hctl := (occ_eq_none (probe_lt hl k (j+0))).mp hfree
    rw [findEmptySlot]
    exact if_pos hctl
  | succ n ih =>
    obtain ⟨r,rfl⟩ : ∃ r, remaining = r+1 := ⟨remaining-1,by omega⟩
    have hctl := (hl.control_probe k j).mp (hbusy 0 (by omega))
    have hnext := hl.probe_succ k j
    rw [findEmptySlot,if_neg (show ¬bytes.getD _ 0 = kEmptyControl from hctl)]
    simp only [mask] at hnext
    rw [hnext,ih (j+1) r (by omega)]
    · congr 2
      omega
    · intro i hi
      have hb := hbusy (i+1) (by omega)
      rwa [show j+(i+1) = j+1+i by omega] at hb
    · rwa [show j+(n+1) = j+1+n by omega] at hfree

theorem Built.placeEntry {metadata : FrozenPrimaryKeyIndexMetadata} {bytes : Bytes}
    {entries : List FrozenPrimaryKeyIndexEntry} (hb : Built metadata bytes entries)
    (entry : FrozenPrimaryKeyIndexEntry) (hfresh : ∀ e ∈ entries, e.primaryKey ≠ entry.primaryKey)
    (hroom : entries.length < metadata.capacity) :
    ∃ bytes', FrozenIndex.placeEntry metadata bytes entry = .ok bytes' ∧
      Built metadata bytes' (entries++[entry]) := by
  have hl := hb.layout
  have habs : ∀ s, FrozenPrimaryKeyIndexView.occ ⟨bytes,metadata⟩ s ≠ some entry.primaryKey := by
    intro s hocc
    exact hfresh _ (hb.sound s _ hocc) rfl
  obtain ⟨s,hs,hfree⟩ := Probing.exists_free_of_load_lt (hb.load ▸ hroom)
  obtain ⟨j₀,hj₀,hjs₀⟩ := Probing.exists_probe_of_linear
    (h := (stableHash64 entry.primaryKey metadata.hashSeed metadata.hashVersion).toNat) hs
  have hfree₀ : FrozenPrimaryKeyIndexView.occ ⟨bytes,metadata⟩
      (FrozenPrimaryKeyIndexView.probe ⟨bytes,metadata⟩ entry.primaryKey j₀) = none := by
    have hprobe : FrozenPrimaryKeyIndexView.probe ⟨bytes,metadata⟩ entry.primaryKey j₀ = s := hjs₀
    rw [hprobe,hfree]
  obtain ⟨j,hj,hjfree,hbusy⟩ := Probing.exists_first_free
    (FrozenPrimaryKeyIndexView.probe ⟨bytes,metadata⟩) hj₀ hfree₀
  have hslot := probe_lt hl entry.primaryKey j
  have hfind := findEmptySlot_walk hl entry.primaryKey j 0 metadata.capacity hj
    (by simpa using hbusy) (by simpa using hjfree)
  have hhome := hl.probe_zero entry.primaryKey
  simp only [mask,FrozenPrimaryKeyIndexView.hash] at hhome
  rw [Nat.zero_add,← hhome] at hfind
  have hplace := placeEntry_of_find hl hslot entry hfind
  refine ⟨_,hplace,?_⟩
  have hocc := placed_occ hl hslot entry
  refine ⟨placed_layout hl hslot entry,?_,?_,?_,?_,?_,?_⟩
  · have hcontrol := hl.control
    have hkey := hl.key
    have hrow := hl.row
    simp only [kSerializedHeaderSize,kDefaultGroupWidth] at hcontrol hkey hrow
    apply hb.header.congr
    intro i hi
    simp only [kSerializedHeaderSize] at hi
    exact placed_getElem? hl hslot entry (by omega) (by omega) (by omega)
  · intro slot hlt
    rw [placed_control hl hslot entry slot (by omega),placed_keyAt hl hslot entry slot hlt]
    by_cases h : slot = FrozenPrimaryKeyIndexView.probe ⟨bytes,metadata⟩ entry.primaryKey j
    · simp [h]
    · simpa [h] using hb.control_key slot hlt
  · rw [hocc,probe_bytes metadata _ bytes]
    exact hb.placed.insert habs hj hbusy
  · rw [hocc,Probing.load_update _ hslot _ hjfree,hb.load,List.length_append,List.length_singleton]
  · intro slot k hk
    rw [hocc,Function.update_apply] at hk
    rw [placed_rowOffsetAt hl hslot entry slot,List.mem_append]
    split_ifs at hk with h
    · cases hk
      exact Or.inr (by simp [h])
    · rw [if_neg h]
      exact Or.inl (hb.sound slot k hk)
  · intro e he
    rcases List.mem_append.mp he with he | he
    · obtain ⟨slot,hk,hr⟩ := hb.complete e he
      have hne : slot ≠ FrozenPrimaryKeyIndexView.probe ⟨bytes,metadata⟩ entry.primaryKey j := by
        rintro rfl
        rw [hjfree] at hk
        cases hk
      refine ⟨slot,?_,?_⟩
      · rw [hocc,Function.update_of_ne hne,hk]
      · rw [placed_rowOffsetAt hl hslot entry slot,if_neg hne,hr]
    · rw [List.mem_singleton] at he
      subst he
      refine ⟨FrozenPrimaryKeyIndexView.probe ⟨bytes,metadata⟩ e.primaryKey j,?_,?_⟩
      · rw [hocc,Function.update_self]
      · rw [placed_rowOffsetAt hl hslot e,if_pos rfl]

theorem Built.placeEntries {metadata : FrozenPrimaryKeyIndexMetadata} {bytes : Bytes}
    {done todo : List FrozenPrimaryKeyIndexEntry} (hb : Built metadata bytes done)
    (hd : FirstWins.Distinct FrozenPrimaryKeyIndexEntry.primaryKey (done++todo))
    (hroom : (done++todo).length ≤ metadata.capacity) :
    ∃ bytes', todo.foldlM (FrozenIndex.placeEntry metadata) bytes = .ok bytes' ∧
      Built metadata bytes' (done++todo) := by
  induction todo generalizing done bytes with
  | nil => exact ⟨bytes,rfl,by simpa using hb⟩
  | cons entry todo ih =>
    have hfresh : ∀ e ∈ done, e.primaryKey ≠ entry.primaryKey := by
      intro e he
      rw [FirstWins.Distinct,List.map_append,List.nodup_append] at hd
      exact hd.2.2 _ (List.mem_map_of_mem he) _ (by simp)
    have hlt : done.length < metadata.capacity := by
      rw [List.length_append,List.length_cons] at hroom
      omega
    obtain ⟨bytes₁,hplace,hb₁⟩ := hb.placeEntry entry hfresh hlt
    have hassoc : done++[entry]++todo = done++entry::todo := by simp
    obtain ⟨bytes₂,hrest,hb₂⟩ := ih hb₁ (hassoc ▸ hd) (hassoc ▸ hroom)
    refine ⟨bytes₂,?_,hassoc ▸ hb₂⟩
    rw [List.foldlM_cons,hplace,ok_bind,hrest]

theorem mirror_length (controlOffset capacity : ℕ) (l : List ℕ) (bytes : Bytes) :
    (l.foldl (fun bytes i =>
      bytes.set (controlOffset+capacity+i) (bytes.getD (controlOffset+i) 0)) bytes).length =
      bytes.length := by
  induction l generalizing bytes with
  | nil => rfl
  | cons i l ih => rw [List.foldl_cons,ih,List.length_set]

theorem mirror_getElem? (controlOffset capacity n : ℕ) (bytes : Bytes) (hn : n ≤ capacity)
    (hlen : controlOffset+capacity+n ≤ bytes.length) (i : ℕ) :
    ((List.range n).foldl (fun bytes i =>
      bytes.set (controlOffset+capacity+i) (bytes.getD (controlOffset+i) 0)) bytes)[i]? =
      if controlOffset+capacity ≤ i ∧ i < controlOffset+capacity+n then bytes[i-capacity]?
      else bytes[i]? := by
  induction n generalizing i with
  | zero =>
    rw [if_neg (by omega)]
    rfl
  | succ n ih =>
    have hi := ih (by omega) (by omega) i
    have hsource := ih (by omega) (by omega) (controlOffset+n)
    rw [if_neg (by omega)] at hsource
    rw [List.range_succ,List.foldl_append,List.foldl_cons,List.foldl_nil,List.getElem?_set,
      List.getD_eq_getElem?_getD,hsource,mirror_length,hi]
    by_cases heq : controlOffset+capacity+n = i
    · have hback : i-capacity = controlOffset+n := by omega
      rw [if_pos heq,if_pos (by omega),if_pos (by omega),hback,
        List.getElem?_eq_getElem (by omega)]
      rfl
    · rw [if_neg heq]
      by_cases hin : controlOffset+capacity ≤ i ∧ i < controlOffset+capacity+n
      · rw [if_pos hin,if_pos (by omega)]
      · rw [if_neg hin,if_neg (by omega)]

/-- The mirror is written behind the control bytes and nowhere else. -/
theorem Built.mirrorControl {metadata : FrozenPrimaryKeyIndexMetadata} {bytes : Bytes}
    {entries : List FrozenPrimaryKeyIndexEntry} (hb : Built metadata bytes entries) :
    Built metadata (FrozenIndex.mirrorControl metadata bytes) entries ∧
      ∀ i < metadata.groupWidth,
        FrozenPrimaryKeyIndexView.control ⟨FrozenIndex.mirrorControl metadata bytes,metadata⟩
          (metadata.capacity+i) =
        FrozenPrimaryKeyIndexView.control ⟨FrozenIndex.mirrorControl metadata bytes,metadata⟩ i := by
  have hwide := hb.layout.wide
  have hwidth := hb.layout.width
  have hcontrol := hb.layout.control
  have hkey := hb.layout.key
  have hrow := hb.layout.row
  have htotal := hb.layout.total
  have hlen := hb.layout.length
  simp only [kSerializedHeaderSize,kDefaultGroupWidth] at hwide hwidth hcontrol hkey hrow htotal hlen
  have hget := mirror_getElem? metadata.controlOffset metadata.capacity metadata.groupWidth bytes
    (by omega) (by omega)
  rw [← FrozenIndex.mirrorControl] at hget
  have hlength : (FrozenIndex.mirrorControl metadata bytes).length = bytes.length :=
    mirror_length _ _ _ _
  generalize FrozenIndex.mirrorControl metadata bytes = bytes' at hget hlength ⊢
  have hsame : ∀ slot < metadata.capacity, FrozenPrimaryKeyIndexView.control ⟨bytes',metadata⟩ slot =
      FrozenPrimaryKeyIndexView.control ⟨bytes,metadata⟩ slot := by
    intro slot hslot
    simp only [FrozenPrimaryKeyIndexView.control,List.getD_eq_getElem?_getD]
    rw [hget,if_neg (by omega)]
  have hkeys : ∀ slot, FrozenPrimaryKeyIndexView.keyAt ⟨bytes',metadata⟩ slot =
      FrozenPrimaryKeyIndexView.keyAt ⟨bytes,metadata⟩ slot := by
    intro slot
    simp only [FrozenPrimaryKeyIndexView.keyAt]
    rw [slice_congr]
    intro i hi
    rw [hget,if_neg (by omega)]
  have hrows : ∀ slot, FrozenPrimaryKeyIndexView.rowOffsetAt ⟨bytes',metadata⟩ slot =
      FrozenPrimaryKeyIndexView.rowOffsetAt ⟨bytes,metadata⟩ slot := by
    intro slot
    simp only [FrozenPrimaryKeyIndexView.rowOffsetAt]
    rw [slice_congr]
    intro i hi
    rw [hget,if_neg (by omega)]
  have hocc : FrozenPrimaryKeyIndexView.occ ⟨bytes',metadata⟩ =
      FrozenPrimaryKeyIndexView.occ ⟨bytes,metadata⟩ := by
    funext slot
    by_cases hslot : slot < metadata.capacity
    · simp only [FrozenPrimaryKeyIndexView.occ,hsame slot hslot,hkeys]
    · simp only [FrozenPrimaryKeyIndexView.occ,hslot,false_and,if_false]
  constructor
  · have hl := hb.layout
    refine ⟨⟨hl.pow,hl.width,hl.wide,hl.control,hl.key,hl.row,hl.total,hlength.trans hl.length,
      hl.bound⟩,?_,?_,?_,?_,?_,?_⟩
    · apply hb.header.congr
      intro i hi
      simp only [kSerializedHeaderSize] at hi
      rw [hget,if_neg (by omega)]
    · intro slot hslot
      rw [hsame slot hslot,hkeys]
      exact hb.control_key slot hslot
    · rw [hocc,probe_bytes metadata _ bytes]
      exact hb.placed
    · rw [hocc,hb.load]
    · intro slot k hk
      rw [hocc] at hk
      rw [hrows]
      exact hb.sound slot k hk
    · intro entry hentry
      obtain ⟨slot,hk,hr⟩ := hb.complete entry hentry
      exact ⟨slot,by rw [hocc,hk],by rw [hrows,hr]⟩
  · intro i hi
    simp only [FrozenPrimaryKeyIndexView.control,List.getD_eq_getElem?_getD]
    have hback : metadata.controlOffset+(metadata.capacity+i)-metadata.capacity =
        metadata.controlOffset+i := by omega
    rw [hget,hget,if_pos (by omega),if_neg (by omega),hback]

theorem built_nil {metadata : FrozenPrimaryKeyIndexMetadata} {bytes : Bytes}
    (hl : Layout ⟨bytes,metadata⟩) (hheader : HasHeader metadata bytes) :
    Built metadata (splice bytes metadata.controlOffset
      (List.replicate (metadata.capacity+metadata.groupWidth) kEmptyControl)) [] := by
  have hwidth := hl.width
  have hcontrol := hl.control
  have hkey := hl.key
  have hrow := hl.row
  have htotal := hl.total
  have hlen := hl.length
  simp only [kSerializedHeaderSize,kDefaultGroupWidth] at hwidth hcontrol hkey hrow htotal hlen
  have hfit : metadata.controlOffset+
      (List.replicate (metadata.capacity+metadata.groupWidth) kEmptyControl).length ≤
      bytes.length := by
    rw [List.length_replicate]
    omega
  have hempty : ∀ slot < metadata.capacity, FrozenPrimaryKeyIndexView.control
      ⟨splice bytes metadata.controlOffset
        (List.replicate (metadata.capacity+metadata.groupWidth) kEmptyControl),metadata⟩ slot =
      kEmptyControl := by
    intro slot hslot
    simp only [FrozenPrimaryKeyIndexView.control,List.getD_eq_getElem?_getD]
    rw [splice_getElem?_inside _ _ _ _ hfit (by rw [List.length_replicate]; omega),
      List.getElem?_replicate,if_pos (by omega)]
    rfl
  have hsize := splice_length _ _ _ hfit
  have hhead : ∀ i < kSerializedHeaderSize, (splice bytes metadata.controlOffset
      (List.replicate (metadata.capacity+metadata.groupWidth) kEmptyControl))[i]? = bytes[i]? := by
    intro i hi
    simp only [kSerializedHeaderSize] at hi
    exact splice_getElem?_outside _ _ _ _ hfit (by omega)
  generalize splice bytes metadata.controlOffset
    (List.replicate (metadata.capacity+metadata.groupWidth) kEmptyControl) = bytes' at *
  have hocc : FrozenPrimaryKeyIndexView.occ ⟨bytes',metadata⟩ = fun _ => none := by
    funext slot
    by_cases hslot : slot < metadata.capacity
    · simp [FrozenPrimaryKeyIndexView.occ,hempty slot hslot]
    · simp [FrozenPrimaryKeyIndexView.occ,hslot]
  refine ⟨⟨hl.pow,hl.width,hl.wide,hl.control,hl.key,hl.row,hl.total,hsize.trans hl.length,
    hl.bound⟩,hheader.congr hhead,?_,?_,?_,?_,?_⟩
  · intro slot hslot hne
    exact absurd (hempty slot hslot) hne
  · rw [hocc]
    exact Probing.placed_empty
  · rw [hocc]
    simp [Probing.load]
  · intro slot k hk
    rw [hocc] at hk
    cases hk
  · intro entry hentry
    cases hentry

/-- With sizes that fit and distinct keys the header is written, every entry finds a slot, and
the index validates. -/
theorem built_of_distinct {entries : List FrozenPrimaryKeyIndexEntry}
    {options : FrozenPrimaryKeyIndexBuildOptions} {capacity : ℕ}
    {metadata : FrozenPrimaryKeyIndexMetadata}
    (hcap : calculateCapacity entries.length options.groupWidth = .ok capacity)
    (hd : FirstWins.Distinct FrozenPrimaryKeyIndexEntry.primaryKey entries)
    (hmeta : buildMetadata entries.length options capacity = .ok metadata) :
    ∃ header placed, writeHeader (List.replicate metadata.totalSize 0) metadata = .ok header ∧
      entries.foldlM (placeEntry metadata) (splice header metadata.controlOffset
        (List.replicate (metadata.capacity+metadata.groupWidth) kEmptyControl)) = .ok placed ∧
      Built metadata (mirrorControl metadata placed) entries ∧
      FrozenPrimaryKeyIndexView.validate (mirrorControl metadata placed) =
        .ok ⟨mirrorControl metadata placed,metadata⟩ := by
  obtain ⟨hwidth,hwide,hpow,hspare⟩ := calculateCapacity_spec hcap
  obtain ⟨hrows,hcapacity,hseed,hversion,hlayout⟩ := buildMetadata_spec hwidth hwide hpow hmeta
  have hl₀ := hlayout (List.replicate metadata.totalSize 0) (List.length_replicate)
  have hlen₀ : kSerializedHeaderSize ≤ (List.replicate metadata.totalSize (0 : UInt8)).length := by
    have h1 := hl₀.key
    have h2 := hl₀.row
    have h3 := hl₀.total
    simp only [kSerializedHeaderSize] at h1 h2 h3 ⊢
    rw [List.length_replicate]
    omega
  have hfit : ∀ field ∈ headerFields metadata, field.1+field.2.length ≤
      (List.replicate metadata.totalSize (0 : UInt8)).length :=
    fun field hf => (headerFields_bound metadata field hf).trans hlen₀
  have hheader := writeHeader_eq metadata hlen₀
  have hhas : HasHeader metadata
      (spliceAll (List.replicate metadata.totalSize 0) (headerFields metadata)) :=
    fun field hf => slice_spliceAll hfit (headerFields_pairwise metadata) hf
  have hlen₁ : (spliceAll (List.replicate metadata.totalSize 0) (headerFields metadata)).length =
      metadata.totalSize := by
    rw [spliceAll_length hfit,List.length_replicate]
  generalize spliceAll (List.replicate metadata.totalSize 0) (headerFields metadata) = header
    at hheader hhas hlen₁
  have hb₀ := built_nil (hlayout header hlen₁) hhas
  have hroom : ([]++entries).length ≤ metadata.capacity := by
    rw [List.nil_append,hcapacity]
    omega
  obtain ⟨placed,hplace,hb₁⟩ := hb₀.placeEntries (by simpa using hd) hroom
  obtain ⟨hb,hmirror⟩ := hb₁.mirrorControl
  rw [List.nil_append] at hb
  refine ⟨header,placed,hheader,hplace,hb,?_⟩
  generalize mirrorControl metadata placed = bytes at hb hmirror ⊢
  have hspare' : metadata.rowCount ≤ metadata.capacity/8*7 := by
    rw [hrows,hcapacity]
    exact hspare
  have hw : WellFormed ⟨bytes,metadata⟩ :=
    ⟨hb.layout,hb.control_key,hb.placed,hb.load.trans hrows.symm,hspare'⟩
  have hmax : metadata.rowCount ≤ uint64Max := by
    have h1 := hl₀.row
    have h2 := hl₀.total
    have h3 := hl₀.bound
    simp only at h1 h2 h3
    omega
  have hlen : kSerializedHeaderSize ≤ bytes.length := by
    have h1 := hb.layout.length
    simp only at h1
    rw [List.length_replicate] at hlen₀
    omega
  exact validate_eq_ok.mpr ⟨rfl,hb.header.readMetadata hlen hmax hb.layout,hw,hmirror⟩

/-- What the builder returns validates, and the view is the map of the entries. -/
theorem buildFrozenPrimaryKeyIndex_spec {entries : List FrozenPrimaryKeyIndexEntry}
    {options : FrozenPrimaryKeyIndexBuildOptions} {bytes : Bytes}
    (h : buildFrozenPrimaryKeyIndex entries options = .ok bytes) :
    ∃ view, FrozenPrimaryKeyIndexView.validate bytes = .ok view ∧
      view.metadata.hashSeed = options.hashSeed ∧ view.metadata.hashVersion = options.hashVersion ∧
      FirstWins.Distinct FrozenPrimaryKeyIndexEntry.primaryKey entries ∧
      ∀ k, view.lookup k = .ok ((FirstWins.find FrozenPrimaryKeyIndexEntry.primaryKey entries k).map
        FrozenPrimaryKeyIndexEntry.rowOffset) := by
  simp only [buildFrozenPrimaryKeyIndex,bind_eq_ok,pure_eq_ok,Except.ok.injEq] at h
  obtain ⟨capacity,hcap,_,hdistinct,metadata,hmeta,header,hheader,placed,hplace,rfl⟩ := h
  obtain ⟨hwidth,hwide,hpow,_⟩ := calculateCapacity_spec hcap
  obtain ⟨_,_,hseed,hversion,_⟩ := buildMetadata_spec hwidth hwide hpow hmeta
  obtain ⟨hd,_⟩ := checkDistinct_spec hdistinct
  obtain ⟨header',placed',hheader',hplace',hb,hvalidate⟩ := built_of_distinct hcap hd hmeta
  obtain rfl := Except.ok.inj (hheader.symm.trans hheader')
  obtain rfl := Except.ok.inj (hplace.symm.trans hplace')
  refine ⟨_,hvalidate,hseed,hversion,hd,?_⟩
  have hw := (validate_eq_ok.mp hvalidate).2.2.1
  intro k
  cases hf : FirstWins.find FrozenPrimaryKeyIndexEntry.primaryKey entries k with
  | none =>
    apply hw.lookup_of_absent
    intro slot hocc
    exact FirstWins.find_eq_none.mp hf _ (hb.sound slot k hocc) rfl
  | some entry =>
    obtain ⟨hin,rfl⟩ := (FirstWins.find_eq_some hd).mp hf
    obtain ⟨slot,hocc,hrow⟩ := hb.complete entry hin
    rw [hw.lookup_of_occ hocc,hrow]
    rfl

end FrozenIndex
end KvIndex
