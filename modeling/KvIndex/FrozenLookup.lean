import KvIndex.FirstWins
import KvIndex.FrozenIndex

/-! What `Validate` establishes about the bytes of a frozen index, and that `Lookup`
and `Entries` then agree. The slots are related to open addressing by `occ` and
`probe`; the scan of `Validate` is exact, so the same facts serve the builder. -/
namespace KvIndex
namespace FrozenPrimaryKeyIndexView

open Base LittleEndian FrozenIndex

theorem h2_lt (hash : UInt64) : h2 hash < 128 := by
  rw [UInt8.lt_iff_toNat_lt]
  have hle : (hash >>> 57 &&& 0x7f).toNat ≤ 127 := by
    rw [UInt64.toNat_and]
    exact Nat.and_le_right
  have hm : (h2 hash).toNat = (hash >>> 57 &&& 0x7f).toNat%2^8 := by
    rw [h2,UInt64.toNat_toUInt8]
  have h128 : (128 : UInt8).toNat = 128 := rfl
  rw [hm,h128]
  omega

theorem and_kEmptyControl_of_lt : ∀ {control : UInt8}, control < 128 →
    control &&& kEmptyControl = 0 := by
  have hall : ∀ b : BitVec 8, b < 128#8 → b &&& 128#8 = 0#8 := by decide
  intro control h
  have hb := hall control.toBitVec h
  exact UInt8.toBitVec_inj.mp hb

theorem h2_ne_kEmptyControl (hash : UInt64) : h2 hash ≠ kEmptyControl := by
  have h := h2_lt hash
  intro he
  rw [he] at h
  exact absurd h (by decide)

variable (view : FrozenPrimaryKeyIndexView)

def keyAt (slot : ℕ) : UInt64 := ofBytes UInt64 (slice view.bytes (view.metadata.keyOffset+slot*8) 8)

def rowOffsetAt (slot : ℕ) : UInt64 :=
  ofBytes UInt64 (slice view.bytes (view.metadata.rowOffsetOffset+slot*8) 8)

/-- The key a slot holds, when its control byte is not the empty one. -/
def occ (slot : ℕ) : Option UInt64 :=
  if slot < view.metadata.capacity ∧ view.control slot ≠ kEmptyControl then
    some (view.keyAt slot)
  else none

def probe (primaryKey : UInt64) (j : ℕ) : ℕ :=
  ((view.hash primaryKey).toNat+j)%view.metadata.capacity

/-- The sections lie behind each other and fill the bytes. -/
structure Layout : Prop where
  pow : isPowerOfTwo view.metadata.capacity = true
  width : view.metadata.groupWidth = kDefaultGroupWidth
  wide : kDefaultGroupWidth ≤ view.metadata.capacity
  control : view.metadata.controlOffset = kSerializedHeaderSize
  key : view.metadata.keyOffset =
    kSerializedHeaderSize+(view.metadata.capacity+kDefaultGroupWidth)
  row : view.metadata.rowOffsetOffset = view.metadata.keyOffset+view.metadata.capacity*8
  total : view.metadata.totalSize = view.metadata.rowOffsetOffset+view.metadata.capacity*8
  length : view.bytes.length = view.metadata.totalSize
  bound : view.metadata.totalSize ≤ uint64Max

/-- A laid-out index whose control bytes agree with its keys, whose keys can be
found, and whose row count leaves an empty slot. -/
structure WellFormed : Prop extends Layout view where
  control_key : ∀ slot < view.metadata.capacity, view.control slot ≠ kEmptyControl →
    view.control slot = h2 (view.hash (view.keyAt slot))
  placed : Probing.Placed view.probe view.metadata.capacity view.occ
  count : Probing.load view.metadata.capacity view.occ = view.metadata.rowCount
  spare : view.metadata.rowCount ≤ view.metadata.capacity/8*7

variable {view}

theorem Layout.capacity_pos (hl : view.Layout) : 0 < view.metadata.capacity := by
  have h := hl.wide
  simp only [kDefaultGroupWidth] at h
  omega

theorem Layout.and_mask (hl : view.Layout) (n : ℕ) :
    n &&& view.mask = n%view.metadata.capacity := and_mask_of_isPowerOfTwo hl.pow n

theorem Layout.slotOffset_key (hl : view.Layout) {slot : ℕ} (hs : slot < view.metadata.capacity) :
    slotOffset view.metadata.keyOffset slot = view.metadata.keyOffset+slot*8 := by
  have hr := hl.row
  have ht := hl.total
  have hb := hl.bound
  simp only [uint64Max] at hb
  rw [slotOffset,Nat.mod_eq_of_lt (by omega)]

theorem Layout.slotOffset_row (hl : view.Layout) {slot : ℕ} (hs : slot < view.metadata.capacity) :
    slotOffset view.metadata.rowOffsetOffset slot = view.metadata.rowOffsetOffset+slot*8 := by
  have hr := hl.row
  have ht := hl.total
  have hb := hl.bound
  simp only [uint64Max] at hb
  rw [slotOffset,Nat.mod_eq_of_lt (by omega)]

theorem readHeaderField_of_le {T : Type} [LittleEndianInteger T] {bytes : Bytes} {offset : ℕ}
    (h : offset+size T ≤ bytes.length) :
    readHeaderField T bytes offset = .ok (ofBytes T (slice bytes offset (size T))) := by
  rw [readHeaderField,readLittleEndian_of_le h]

theorem Layout.readKey (hl : view.Layout) {slot : ℕ} (hs : slot < view.metadata.capacity) :
    view.readKey slot = .ok (view.keyAt slot) := by
  have hr := hl.row
  have ht := hl.total
  have hlen := hl.length
  have hf : decide (slot ≥ view.metadata.capacity) = false := by simpa using hs
  have h8 : size UInt64 = 8 := rfl
  rw [FrozenPrimaryKeyIndexView.readKey,hf,hl.slotOffset_key hs,failIf_false,ok_bind,
    readHeaderField_of_le (by omega),h8,keyAt]

theorem Layout.readRowOffset (hl : view.Layout) {slot : ℕ} (hs : slot < view.metadata.capacity) :
    view.readRowOffset slot = .ok (view.rowOffsetAt slot) := by
  have hr := hl.row
  have ht := hl.total
  have hlen := hl.length
  have hf : decide (slot ≥ view.metadata.capacity) = false := by simpa using hs
  have h8 : size UInt64 = 8 := rfl
  rw [FrozenPrimaryKeyIndexView.readRowOffset,hf,hl.slotOffset_row hs,failIf_false,ok_bind,
    readHeaderField_of_le (by omega),h8,rowOffsetAt]

theorem occ_eq_some {slot : ℕ} {k : UInt64} : view.occ slot = some k ↔
    slot < view.metadata.capacity ∧ view.control slot ≠ kEmptyControl ∧ view.keyAt slot = k := by
  simp only [occ]
  split_ifs with h
  · simp [h]
  · simp only [false_iff]
    rintro ⟨h1,h2,_⟩
    exact h ⟨h1,h2⟩

theorem occ_eq_none {slot : ℕ} (hs : slot < view.metadata.capacity) :
    view.occ slot = none ↔ view.control slot = kEmptyControl := by
  simp [occ,hs]

theorem probe_lt (hl : view.Layout) (k : UInt64) (j : ℕ) : view.probe k j < view.metadata.capacity :=
  Nat.mod_lt _ hl.capacity_pos

theorem Layout.probe_zero (hl : view.Layout) (k : UInt64) :
    (view.hash k).toNat &&& view.mask = view.probe k 0 := by
  rw [hl.and_mask,probe,Nat.add_zero]

theorem Layout.probe_succ (hl : view.Layout) (k : UInt64) (j : ℕ) :
    (view.probe k j+1) &&& view.mask = view.probe k (j+1) := by
  rw [hl.and_mask,probe,probe,Nat.mod_add_mod,Nat.add_assoc]

theorem WellFormed.lookupFrom_skip (hw : view.WellFormed) {k : UInt64} {j : ℕ} (remaining : ℕ)
    {k' : UInt64} (hocc : view.occ (view.probe k j) = some k') (hne : k' ≠ k) :
    view.lookupFrom k (remaining+1) (view.probe k j) =
      view.lookupFrom k remaining (view.probe k (j+1)) := by
  obtain ⟨hs,hc,hk⟩ := occ_eq_some.mp hocc
  have hr := hw.readKey hs
  rw [lookupFrom]
  simp only [hc,if_false,hr,hw.probe_succ]
  split_ifs with h2eq
  · simp only [ok_bind,hk,hne,if_false]
  · rfl

theorem WellFormed.lookupFrom_walk (hw : view.WellFormed) {k : UInt64} (remaining : ℕ) (j : ℕ)
    (hother : ∀ i < j, ∃ k', view.occ (view.probe k i) = some k' ∧ k' ≠ k) :
    view.lookupFrom k (remaining+j) (view.probe k 0) =
      view.lookupFrom k remaining (view.probe k j) := by
  induction j generalizing remaining with
  | zero => rfl
  | succ j ih =>
    obtain ⟨k',hk',hne⟩ := hother j (by omega)
    have hrest := ih (remaining+1) (fun i hi => hother i (by omega))
    have hstep := hw.lookupFrom_skip remaining hk' hne
    rw [← hstep,← hrest]
    congr 1
    omega

theorem WellFormed.lookup_eq (hw : view.WellFormed) (k : UInt64) :
    view.lookup k = view.lookupFrom k view.metadata.capacity (view.probe k 0) := by
  have hf : (view.metadata.capacity == 0) = false := by
    have h := hw.capacity_pos
    simp only [beq_eq_false_iff_ne]
    omega
  rw [lookup,hf,hw.probe_zero,failIf_false,ok_bind]

theorem WellFormed.lookup_of_occ (hw : view.WellFormed) {slot : ℕ} {k : UInt64}
    (hocc : view.occ slot = some k) : view.lookup k = .ok (some (view.rowOffsetAt slot)) := by
  obtain ⟨j,hj,hjs,hother⟩ := hw.placed.first_hit hocc
  obtain ⟨hs,hc,hk⟩ := occ_eq_some.mp hocc
  have hwalk := hw.lookupFrom_walk (view.metadata.capacity-j) j hother
  have hcap : view.metadata.capacity-j+j = view.metadata.capacity := by omega
  rw [hcap] at hwalk
  rw [hw.lookup_eq,hwalk,hjs]
  obtain ⟨r,hr⟩ : ∃ r, view.metadata.capacity-j = r+1 := ⟨view.metadata.capacity-j-1,by omega⟩
  have hck := hw.control_key slot hs hc
  rw [hk] at hck
  have hread := hw.readKey hs
  have hrow := hw.readRowOffset hs
  rw [hr,lookupFrom]
  rw [if_neg hc,if_pos hck,hread,ok_bind,if_pos hk,hrow,ok_bind,pure_eq_ok]

/-- A key that no slot holds is a miss: the load bound leaves a slot where the search ends. -/
theorem WellFormed.lookup_of_absent (hw : view.WellFormed) {k : UInt64}
    (habs : ∀ slot, view.occ slot ≠ some k) : view.lookup k = .ok none := by
  have hpos := hw.capacity_pos
  have hload : Probing.load view.metadata.capacity view.occ < view.metadata.capacity := by
    have h1 := hw.count
    have h2 := hw.spare
    omega
  obtain ⟨s,hs,hfree⟩ := Probing.exists_free_of_load_lt hload
  obtain ⟨j₀,hj₀,hjs₀⟩ := Probing.exists_probe_of_linear (h := (view.hash k).toNat) hs
  have hfree₀ : view.occ (view.probe k j₀) = none := by rw [probe,hjs₀,hfree]
  obtain ⟨j,hj,hjfree,hbusy⟩ := Probing.exists_first_free view.probe hj₀ hfree₀
  have hother : ∀ i < j, ∃ k', view.occ (view.probe k i) = some k' ∧ k' ≠ k := by
    intro i hi
    obtain ⟨k',hk'⟩ := Option.isSome_iff_exists.mp (hbusy i hi)
    refine ⟨k',hk',?_⟩
    rintro rfl
    exact habs _ hk'
  have hwalk := hw.lookupFrom_walk (view.metadata.capacity-j) j hother
  have hcap : view.metadata.capacity-j+j = view.metadata.capacity := by omega
  rw [hcap] at hwalk
  have hctl := (occ_eq_none (probe_lt hw.toLayout k j)).mp hjfree
  rw [hw.lookup_eq,hwalk]
  obtain ⟨r,hr⟩ : ∃ r, view.metadata.capacity-j = r+1 := ⟨view.metadata.capacity-j-1,by omega⟩
  rw [hr,lookupFrom]
  simp only [hctl,if_true]

def entryAt (view : FrozenPrimaryKeyIndexView) (slot : ℕ) : Option FrozenPrimaryKeyIndexEntry :=
  (view.occ slot).map fun primaryKey => { primaryKey,rowOffset := view.rowOffsetAt slot }

theorem Layout.entriesFrom (hl : view.Layout) (remaining slot : ℕ)
    (h : slot+remaining = view.metadata.capacity) :
    view.entriesFrom remaining slot = .ok ((List.range' slot remaining).filterMap view.entryAt) := by
  induction remaining generalizing slot with
  | zero => rfl
  | succ remaining ih =>
    have hs : slot < view.metadata.capacity := by omega
    have hrest := ih (slot+1) (by omega)
    rw [FrozenPrimaryKeyIndexView.entriesFrom,hrest,List.range'_succ,List.filterMap_cons]
    by_cases hc : view.control slot = kEmptyControl
    · have hnone : view.entryAt slot = none := by simp [entryAt,(occ_eq_none hs).mpr hc]
      simp only [hc,if_true,hnone]
    · have hsome : view.entryAt slot =
          some { primaryKey := view.keyAt slot,rowOffset := view.rowOffsetAt slot } := by
        simp [entryAt,occ_eq_some.mpr ⟨hs,hc,rfl⟩]
      rw [if_neg hc,hl.readKey hs,ok_bind,hl.readRowOffset hs,ok_bind,ok_bind,pure_eq_ok,hsome]

theorem Layout.entries (hl : view.Layout) :
    view.entries = .ok ((List.range view.metadata.capacity).filterMap view.entryAt) := by
  have hf : (view.metadata.capacity == 0) = false := by
    have h := hl.capacity_pos
    simp only [beq_eq_false_iff_ne]
    omega
  rw [FrozenPrimaryKeyIndexView.entries,hf,failIf_false,ok_bind,
    hl.entriesFrom _ 0 (by omega),List.range_eq_range']

theorem Layout.control_probe (hl : view.Layout) (k : UInt64) (j : ℕ) :
    (view.occ (view.probe k j)).isSome ↔ view.control (view.probe k j) ≠ kEmptyControl := by
  rw [Option.isSome_iff_ne_none,Ne,occ_eq_none (probe_lt hl k j)]

/-- `checkReachable` accepts exactly the slots behind an unbroken run of taken ones. -/
theorem Layout.checkReachable_eq_ok (hl : view.Layout) {slot : ℕ} {k : UInt64} (remaining j : ℕ)
    (hin : ∃ i, i < remaining ∧ view.probe k (j+i) = slot) :
    view.checkReachable slot remaining (view.probe k j) = .ok () ↔
      ∃ i < remaining, view.probe k (j+i) = slot ∧
        ∀ l < i, (view.occ (view.probe k (j+l))).isSome := by
  induction remaining generalizing j with
  | zero =>
    obtain ⟨i,hi,_⟩ := hin
    omega
  | succ remaining ih =>
    rw [checkReachable]
    by_cases hslot : view.probe k j = slot
    · simp only [hslot,if_true,true_iff]
      exact ⟨0,by omega,hslot,by simp⟩
    · have hin' : ∃ i, i < remaining ∧ view.probe k (j+1+i) = slot := by
        obtain ⟨i,hi,his⟩ := hin
        obtain ⟨i,rfl⟩ : ∃ i', i = i'+1 := by
          cases i with
          | zero => exact absurd his hslot
          | succ i => exact ⟨i,rfl⟩
        exact ⟨i,by omega,by rw [← his]; congr 1; omega⟩
      by_cases hc : view.control (view.probe k j) = kEmptyControl
      · simp only [hslot,if_false,hc,if_true,reduceCtorEq,false_iff]
        rintro ⟨i,_,his,hbusy⟩
        have hi : 0 < i := by
          rcases Nat.eq_zero_or_pos i with rfl | hpos
          · exact absurd his hslot
          · exact hpos
        have hfirst := (hl.control_probe k j).mp (hbusy 0 hi)
        exact hfirst hc
      · rw [if_neg hslot,if_neg hc,hl.probe_succ,ih (j+1) hin']
        constructor
        · rintro ⟨i,hi,his,hbusy⟩
          refine ⟨i+1,by omega,by rw [← his]; congr 1; omega,?_⟩
          intro l hlt
          cases l with
          | zero => exact (hl.control_probe k j).mpr hc
          | succ l =>
            have hb := hbusy l (by omega)
            rwa [show j+1+l = j+(l+1) by omega] at hb
        · rintro ⟨i,hi,his,hbusy⟩
          cases i with
          | zero => exact absurd his hslot
          | succ i =>
            refine ⟨i,by omega,by rw [← his]; congr 1; omega,?_⟩
            intro l hlt
            have hb := hbusy (l+1) (by omega)
            rwa [show j+(l+1) = j+1+l by omega] at hb

/-- What the scan of `Validate` demands of an occupied slot. -/
structure SlotOk (view : FrozenPrimaryKeyIndexView) (slot : ℕ) : Prop where
  control : view.control slot = h2 (view.hash (view.keyAt slot))
  reach : ∃ j < view.metadata.capacity, view.probe (view.keyAt slot) j = slot ∧
    ∀ i < j, (view.occ (view.probe (view.keyAt slot) i)).isSome

theorem Layout.scanSlot (hl : view.Layout) {slot : ℕ} (hs : slot < view.metadata.capacity)
    (hc : view.control slot ≠ kEmptyControl) (remaining : ℕ) (seenKeys : List UInt64)
    (occupiedCount n : ℕ) :
    view.scanSlots (remaining+1) slot seenKeys occupiedCount = .ok n ↔
      (view.keyAt slot ∉ seenKeys ∧ view.SlotOk slot) ∧
      view.scanSlots remaining (slot+1) (view.keyAt slot::seenKeys) (occupiedCount+1) = .ok n := by
  have hin : ∃ i, i < view.metadata.capacity ∧ view.probe (view.keyAt slot) (0+i) = slot := by
    obtain ⟨i,hi,his⟩ :=
      Probing.exists_probe_of_linear (h := (view.hash (view.keyAt slot)).toNat) hs
    exact ⟨i,hi,by rw [probe,Nat.zero_add,his]⟩
  have hreach := hl.checkReachable_eq_ok view.metadata.capacity 0 hin
  simp only [Nat.zero_add] at hreach
  rw [scanSlots,if_neg hc,hl.readKey hs]
  simp only [ok_bind,hl.probe_zero,bind_eq_ok,failIf_eq_ok,exists_const]
  constructor
  · rintro ⟨_,hseen,hctl,u,hck,hrest⟩
    exact ⟨⟨by simpa using hseen,by simpa using hctl,hreach.mp hck⟩,hrest⟩
  · rintro ⟨⟨hseen,hok⟩,hrest⟩
    have hlow : (view.control slot &&& kEmptyControl != 0) = false := by
      rw [hok.control,and_kEmptyControl_of_lt (h2_lt _)]
      rfl
    exact ⟨hlow,by simpa using hseen,by simpa using hok.control,(),hreach.mpr hok.reach,hrest⟩

/-- The scan succeeds exactly when every slot ahead is sound and no key repeats. -/
theorem Layout.scanSlots_eq_ok (hl : view.Layout) (remaining slot : ℕ)
    (hend : slot+remaining = view.metadata.capacity) (seenKeys : List UInt64)
    (occupiedCount n : ℕ) :
    view.scanSlots remaining slot seenKeys occupiedCount = .ok n ↔
      (∀ s, slot ≤ s → ∀ k, view.occ s = some k → k ∉ seenKeys ∧ view.SlotOk s) ∧
      (∀ s t k, slot ≤ s → slot ≤ t → view.occ s = some k → view.occ t = some k → s = t) ∧
      n = occupiedCount+(List.range' slot remaining).countP fun s => (view.occ s).isSome := by
  induction remaining generalizing slot seenKeys occupiedCount with
  | zero =>
    have hnone : ∀ s, slot ≤ s → view.occ s = none := by
      intro s hs
      simp only [occ]
      rw [if_neg]
      omega
    rw [scanSlots]
    simp only [Except.ok.injEq,List.range'_zero,List.countP_nil,Nat.add_zero]
    constructor
    · rintro rfl
      exact ⟨fun s hs k hk => by simp [hnone s hs] at hk,
        fun s t k hs _ hk => by simp [hnone s hs] at hk,rfl⟩
    · rintro ⟨_,_,rfl⟩
      rfl
  | succ remaining ih =>
    have hs : slot < view.metadata.capacity := by omega
    rw [List.range'_succ,List.countP_cons]
    by_cases hc : view.control slot = kEmptyControl
    · have hnone := (occ_eq_none hs).mpr hc
      have hgt : ∀ {s k}, slot ≤ s → view.occ s = some k → slot+1 ≤ s := by
        intro s k hle hk
        rcases Nat.eq_or_lt_of_le hle with rfl | hlt
        · rw [hnone] at hk
          cases hk
        · exact hlt
      rw [scanSlots,if_pos hc,ih (slot+1) (by omega)]
      simp only [hnone,Option.isSome_none,Bool.false_eq_true,if_false,Nat.add_zero]
      constructor
      · rintro ⟨hok,huniq,hn⟩
        exact ⟨fun s hle k hk => hok s (hgt hle hk) k hk,
          fun s t k h1 h2 hs ht => huniq s t k (hgt h1 hs) (hgt h2 ht) hs ht,hn⟩
      · rintro ⟨hok,huniq,hn⟩
        exact ⟨fun s hle => hok s (by omega),fun s t k h1 h2 => huniq s t k (by omega) (by omega),hn⟩
    · have hsome : view.occ slot = some (view.keyAt slot) := occ_eq_some.mpr ⟨hs,hc,rfl⟩
      rw [hl.scanSlot hs hc,ih (slot+1) (by omega)]
      simp only [hsome,Option.isSome_some,if_true]
      constructor
      · rintro ⟨⟨hseen,hok⟩,hall,huniq,hn⟩
        refine ⟨?_,?_,by omega⟩
        · intro s hle k hk
          rcases Nat.eq_or_lt_of_le hle with rfl | hlt
          · rw [hsome,Option.some.injEq] at hk
            exact ⟨hk ▸ hseen,hok⟩
          · obtain ⟨hk1,hk2⟩ := hall s hlt k hk
            exact ⟨fun hmem => hk1 (List.mem_cons_of_mem _ hmem),hk2⟩
        · intro s t k h1 h2 hks hkt
          rcases Nat.eq_or_lt_of_le h1 with rfl | h1 <;> rcases Nat.eq_or_lt_of_le h2 with rfl | h2
          · rfl
          · rw [hsome,Option.some.injEq] at hks
            exact absurd (hks ▸ List.mem_cons_self) (hall t h2 k hkt).1
          · rw [hsome,Option.some.injEq] at hkt
            exact absurd (hkt ▸ List.mem_cons_self) (hall s h1 k hks).1
          · exact huniq s t k h1 h2 hks hkt
      · rintro ⟨hall,huniq,hn⟩
        refine ⟨hall slot le_rfl _ hsome,?_,?_,by omega⟩
        · intro s hle k hk
          obtain ⟨hk1,hk2⟩ := hall s (by omega) k hk
          refine ⟨?_,hk2⟩
          rw [List.mem_cons,not_or]
          refine ⟨?_,hk1⟩
          rintro rfl
          have heq := huniq s slot _ (by omega) le_rfl hk hsome
          omega
        · exact fun s t k h1 h2 => huniq s t k (by omega) (by omega)

theorem checkedAdd_eq_ok {lhs rhs n : ℕ} :
    checkedAdd lhs rhs = .ok n ↔ lhs ≤ uint64Max-rhs ∧ n = lhs+rhs := by
  rw [checkedAdd]
  split_ifs with h
  · simp only [false_iff]
    omega
  · simp only [Except.ok.injEq]
    omega

theorem checkedMul_eq_ok {lhs rhs n : ℕ} :
    checkedMul lhs rhs = .ok n ↔ lhs*rhs ≤ uint64Max ∧ n = lhs*rhs := by
  have hdiv : lhs ≠ 0 → (rhs > uint64Max/lhs ↔ uint64Max < lhs*rhs) := by
    intro hlhs
    rw [gt_iff_lt,Nat.div_lt_iff_lt_mul (by omega),Nat.mul_comm]
  rw [checkedMul]
  split_ifs with h
  · have hlt := (hdiv h.1).mp h.2
    simp only [false_iff]
    omega
  · have hle : lhs*rhs ≤ uint64Max := by
      rcases Nat.eq_zero_or_pos lhs with rfl | hpos
      · simp
      · by_contra hlt
        exact h ⟨by omega,(hdiv (by omega)).mpr (by omega)⟩
    simp only [Except.ok.injEq]
    omega

/-- The metadata checks accept exactly the laid-out byte strings with room to spare. -/
theorem validateMetadata_eq_ok {metadata : FrozenPrimaryKeyIndexMetadata} {bytes : Bytes} {u : Unit} :
    validateMetadata metadata bytes.length = .ok u ↔
      Layout ⟨bytes,metadata⟩ ∧ metadata.rowCount ≤ metadata.capacity/8*7 := by
  simp only [validateMetadata,bind_eq_ok,failIf_eq_ok,exists_const,checkedAdd_eq_ok,checkedMul_eq_ok]
  constructor
  · rintro ⟨hw,hpow,hwide,hspare,_,⟨hc,rfl⟩,_,⟨hk,rfl⟩,_,⟨_,rfl⟩,_,⟨hko,rfl⟩,_,⟨hro,rfl⟩,_,⟨hto,rfl⟩,
      hoff,hlen,_⟩
    simp only [bne_eq_false_iff_eq,Bool.or_eq_false_iff,Bool.not_eq_false',
      decide_eq_false_iff_not,Nat.not_lt,gt_iff_lt] at hw hpow hwide hspare hoff hlen
    obtain ⟨⟨⟨hco,hkey⟩,hrow⟩,htotal⟩ := hoff
    refine ⟨⟨hpow.2,hw,hw ▸ hwide,hco,?_,hrow,htotal,hlen.symm,?_⟩,hspare⟩
    · rw [hkey,hco,hw]
    · have hcap : 0 < metadata.rowOffsetOffset := by
        simp only [kSerializedHeaderSize] at hco
        omega
      show metadata.totalSize ≤ uint64Max
      omega
  · rintro ⟨hl,hspare⟩
    have hpow := hl.pow
    have hw := hl.width
    have hwide := hl.wide
    have hco := hl.control
    have hkey := hl.key
    have hrow := hl.row
    have htotal := hl.total
    have hlen := hl.length
    have hbound := hl.bound
    simp only [] at hpow hw hwide hco hkey hrow htotal hlen hbound
    simp only [kDefaultGroupWidth] at hwide hkey
    have hnum : metadata.groupWidth = 16 := hw
    refine ⟨by simp [hw],?_,?_,?_,_,⟨?_,rfl⟩,_,⟨?_,rfl⟩,_,⟨?_,rfl⟩,_,⟨?_,rfl⟩,_,⟨?_,rfl⟩,_,⟨?_,rfl⟩,
      ?_,?_,?_⟩
    · have hne : (metadata.capacity == 0) = false := by
        rw [beq_eq_false_iff_ne]
        omega
      simp [hne,hpow]
    · simpa [hnum] using hwide
    · simpa using hspare
    · omega
    · omega
    · omega
    · omega
    · omega
    · omega
    · rw [hco,hkey,hrow,htotal,hrow,hkey,hnum]
      simp
    · simp [hlen]
    · simp only [hasBytes,Bool.or_eq_false_iff,Bool.not_eq_false',Bool.and_eq_true,decide_eq_true_eq]
      omega

/-- `Validate` accepts exactly the bytes of well-formed, mirrored indexes. -/
theorem validate_eq_ok {bytes : Bytes} : validate bytes = .ok view ↔
    view.bytes = bytes ∧ readMetadata bytes = .ok view.metadata ∧ view.WellFormed ∧
      ∀ i < view.metadata.groupWidth,
        view.control (view.metadata.capacity+i) = view.control i := by
  obtain ⟨vbytes,metadata⟩ := view
  simp only [validate,bind_eq_ok,failIf_eq_ok,exists_const,pure_eq_ok,Except.ok.injEq,mk.injEq]
  constructor
  · rintro ⟨m,hm,_,hmeta,hmirror,n,hscan,hcount,rfl,rfl⟩
    obtain ⟨hl,hspare⟩ := validateMetadata_eq_ok.mp hmeta
    obtain ⟨hok,huniq,hn⟩ := (hl.scanSlots_eq_ok m.capacity 0 (by simp) [] 0 n).mp hscan
    simp only [bne_eq_false_iff_eq] at hcount
    refine ⟨rfl,hm,⟨hl,?_,⟨?_,?_⟩,?_,hspare⟩,?_⟩
    · intro slot hs hc
      have hocc := occ_eq_some.mpr ⟨hs,hc,rfl⟩
      exact (hok slot (by omega) _ hocc).2.control
    · intro s k hk
      have hkey := (occ_eq_some.mp hk).2.2
      subst hkey
      exact (hok s (by omega) _ hk).2.reach
    · exact fun hs ht => huniq _ _ _ (by omega) (by omega) hs ht
    · rw [Probing.load,List.range_eq_range',← hcount,hn,Nat.zero_add]
    · simpa using hmirror
  · rintro ⟨rfl,hm,hw,hmirror⟩
    have hmeta := (validateMetadata_eq_ok (u := ())).mpr ⟨hw.toLayout,hw.spare⟩
    refine ⟨metadata,hm,(),hmeta,by simpa using hmirror,metadata.rowCount,?_,by simp,rfl,rfl⟩
    rw [hw.scanSlots_eq_ok metadata.capacity 0 (by simp)]
    refine ⟨?_,?_,?_⟩
    · intro s _ k hk
      obtain ⟨hs,hc,rfl⟩ := occ_eq_some.mp hk
      exact ⟨by simp,hw.control_key s hs hc,hw.placed.reach hk⟩
    · exact fun s t k _ _ hs ht => hw.placed.unique hs ht
    · have hcount := hw.count
      rw [Probing.load,List.range_eq_range'] at hcount
      rw [hcount,Nat.zero_add]

theorem entryAt_eq_some {slot : ℕ} {entry : FrozenPrimaryKeyIndexEntry} :
    view.entryAt slot = some entry ↔
      view.occ slot = some entry.primaryKey ∧ view.rowOffsetAt slot = entry.rowOffset := by
  obtain ⟨primaryKey,rowOffset⟩ := entry
  simp [entryAt]

/-- The entries of a well-formed index: distinct keys, and the row offsets `Lookup` finds. -/
theorem WellFormed.lookup_eq_find (hw : view.WellFormed)
    {entries : List FrozenPrimaryKeyIndexEntry} (he : view.entries = .ok entries) :
    FirstWins.Distinct FrozenPrimaryKeyIndexEntry.primaryKey entries ∧
      ∀ k, view.lookup k = .ok ((FirstWins.find FrozenPrimaryKeyIndexEntry.primaryKey entries k).map
        FrozenPrimaryKeyIndexEntry.rowOffset) := by
  rw [hw.entries,Except.ok.injEq] at he
  subst he
  have hmem : ∀ {entry}, entry ∈ (List.range view.metadata.capacity).filterMap view.entryAt ↔
      ∃ slot, view.entryAt slot = some entry := by
    intro entry
    rw [List.mem_filterMap]
    constructor
    · rintro ⟨slot,_,h⟩
      exact ⟨slot,h⟩
    · rintro ⟨slot,h⟩
      have hs := (occ_eq_some.mp (entryAt_eq_some.mp h).1).1
      exact ⟨slot,List.mem_range.mpr hs,h⟩
  have hd : FirstWins.Distinct FrozenPrimaryKeyIndexEntry.primaryKey
      ((List.range view.metadata.capacity).filterMap view.entryAt) := by
    rw [FirstWins.Distinct,List.map_filterMap]
    refine List.Nodup.filterMap ?_ List.nodup_range
    intro s t k hs ht
    obtain ⟨es,hes,rfl⟩ := Option.map_eq_some_iff.mp hs
    obtain ⟨et,het,hk⟩ := Option.map_eq_some_iff.mp ht
    have hos := (entryAt_eq_some.mp hes).1
    have hot := (entryAt_eq_some.mp het).1
    rw [hk] at hot
    exact hw.placed.unique hos hot
  refine ⟨hd,?_⟩
  intro k
  cases hf : FirstWins.find FrozenPrimaryKeyIndexEntry.primaryKey
      ((List.range view.metadata.capacity).filterMap view.entryAt) k with
  | none =>
    apply hw.lookup_of_absent
    intro slot hocc
    have hentry : view.entryAt slot = some ⟨k,view.rowOffsetAt slot⟩ :=
      entryAt_eq_some.mpr ⟨hocc,rfl⟩
    exact FirstWins.find_eq_none.mp hf _ (hmem.mpr ⟨slot,hentry⟩) rfl
  | some entry =>
    obtain ⟨hin,rfl⟩ := (FirstWins.find_eq_some hd).mp hf
    obtain ⟨slot,hslot⟩ := hmem.mp hin
    obtain ⟨hocc,hrow⟩ := entryAt_eq_some.mp hslot
    rw [hw.lookup_of_occ hocc,hrow]
    rfl

end FrozenPrimaryKeyIndexView
end KvIndex
