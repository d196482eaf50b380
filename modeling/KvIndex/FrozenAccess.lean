import KvIndex.ArtifactAccess
import KvIndex.FrozenMap

/-! `Validate`, `Lookup` and `Entries` of the frozen index once more, with every access to the
bytes written as a checked one. No run leaves the bytes, whatever they hold, and an accepted
index is one map for enumeration and for point reads. -/
namespace KvIndex
namespace FrozenIndex
namespace Access

open Base LittleEndian
open Artifact.Access (Fault Checked access returns access_inside returns_bind returns_pure
  bind_eq_returns returns_ne_outOfRange)

def readHeaderField (T : Type) [LittleEndianInteger T] (bytes : Bytes) (offset : ℕ) :
    Checked T :=
  match Artifact.Access.readLittleEndian T bytes offset with
  | .ok value => .ok value
  | .error .outOfRange => .error .outOfRange
  | .error (.status status) => .error (.status (.invalidArgument status.message))

def readMetadata (bytes : Bytes) : Checked FrozenPrimaryKeyIndexMetadata := do
  returns (failIf (bytes.length < kSerializedHeaderSize)
    (.invalidArgument "frozen primary-key index header is truncated"))
  let magic ← readHeaderField UInt64 bytes kMagicOffset
  returns (failIf (magic != kMagic) (.invalidArgument "frozen primary-key index magic is invalid"))
  let formatVersion ← readHeaderField UInt32 bytes kFormatVersionOffset
  returns (failIf (formatVersion != kFormatVersion)
    (.invalidArgument "frozen primary-key index version is unsupported"))
  let headerSize ← readHeaderField UInt32 bytes kHeaderSizeOffset
  returns (failIf (headerSize.toNat != kSerializedHeaderSize)
    (.invalidArgument "frozen primary-key index header size is invalid"))
  let rowCount ← readHeaderField UInt64 bytes kRowCountOffset
  let capacity ← readHeaderField UInt64 bytes kCapacityOffset
  let hashSeed ← readHeaderField UInt64 bytes kHashSeedOffset
  let hashVersion ← readHeaderField UInt32 bytes kHashVersionOffset
  let groupWidth ← readHeaderField UInt32 bytes kGroupWidthOffset
  let controlOffset ← readHeaderField UInt64 bytes kControlOffsetOffset
  let keyOffset ← readHeaderField UInt64 bytes kKeyOffsetOffset
  let rowOffsetOffset ← readHeaderField UInt64 bytes kRowOffsetOffsetOffset
  let totalSize ← readHeaderField UInt64 bytes kTotalSizeOffset
  return {
    rowCount := rowCount.toNat,capacity := capacity.toNat,hashSeed,hashVersion
    groupWidth := groupWidth.toNat,controlOffset := controlOffset.toNat
    keyOffset := keyOffset.toNat,rowOffsetOffset := rowOffsetOffset.toNat
    totalSize := totalSize.toNat }

section View

variable (view : FrozenPrimaryKeyIndexView)

def control (slot : ℕ) : Checked UInt8 := do
  let byte ← access view.bytes (view.metadata.controlOffset+slot) 1
  return byte.getD 0 0

def readKey (slot : ℕ) : Checked UInt64 := do
  returns (failIf (slot ≥ view.metadata.capacity)
    (.invalidArgument "frozen primary-key index key slot is invalid"))
  readHeaderField UInt64 view.bytes (slotOffset view.metadata.keyOffset slot)

def readRowOffset (slot : ℕ) : Checked UInt64 := do
  returns (failIf (slot ≥ view.metadata.capacity)
    (.invalidArgument "frozen primary-key index row-offset slot is invalid"))
  readHeaderField UInt64 view.bytes (slotOffset view.metadata.rowOffsetOffset slot)

def checkMirror : ℕ → ℕ → Checked Unit
  | 0, _ => .ok ()
  | remaining+1, i => do
    let mirror ← control view (view.metadata.capacity+i)
    let original ← control view i
    returns (failIf (mirror != original)
      (.invalidArgument "frozen primary-key index control bytes are not mirrored"))
    checkMirror remaining (i+1)

/-- The source reads the control byte before it compares the slots. -/
def checkReachable (slot : ℕ) : ℕ → ℕ → Checked Unit
  | 0, _ => .ok ()
  | remaining+1, probe => do
    let probeControl ← control view probe
    if probe = slot then .ok ()
    else if probeControl = kEmptyControl then
      .error (.status (.invalidArgument
        "frozen primary-key index key is unreachable from its hash bucket"))
    else checkReachable slot remaining ((probe+1) &&& view.mask)

def scanSlots : ℕ → ℕ → List UInt64 → ℕ → Checked ℕ
  | 0, _, _, occupiedCount => .ok occupiedCount
  | remaining+1, slot, seenKeys, occupiedCount => do
    let control ← control view slot
    if control = kEmptyControl then scanSlots remaining (slot+1) seenKeys occupiedCount
    else do
      returns (failIf (control &&& kEmptyControl != 0)
        (.invalidArgument "frozen primary-key index control byte is invalid"))
      let key ← readKey view slot
      returns (failIf (seenKeys.contains key)
        (.invalidArgument "frozen primary-key index contains duplicate primary keys"))
      returns (failIf (control != h2 (view.hash key))
        (.invalidArgument "frozen primary-key index control byte does not match key hash"))
      checkReachable view slot view.metadata.capacity ((view.hash key).toNat &&& view.mask)
      scanSlots remaining (slot+1) (key::seenKeys) (occupiedCount+1)

def lookupFrom (primaryKey : UInt64) : ℕ → ℕ → Checked (Option UInt64)
  | 0, _ => .error (.status
      (.invalidArgument "frozen primary-key index lookup exhausted every slot"))
  | remaining+1, slot => do
    let control ← control view slot
    if control = kEmptyControl then .ok none
    else if control = h2 (view.hash primaryKey) then do
      let key ← readKey view slot
      if key = primaryKey then
        let rowOffset ← readRowOffset view slot
        return some rowOffset
      else lookupFrom primaryKey remaining ((slot+1) &&& view.mask)
    else lookupFrom primaryKey remaining ((slot+1) &&& view.mask)

def lookup (primaryKey : UInt64) : Checked (Option UInt64) := do
  returns (failIf (view.metadata.capacity == 0)
    (.invalidArgument "frozen primary-key index view is invalid"))
  lookupFrom view primaryKey view.metadata.capacity
    ((view.hash primaryKey).toNat &&& view.mask)

def entriesFrom : ℕ → ℕ → Checked (List FrozenPrimaryKeyIndexEntry)
  | 0, _ => .ok []
  | remaining+1, slot => do
    let control ← control view slot
    if control = kEmptyControl then entriesFrom remaining (slot+1)
    else do
      let primaryKey ← readKey view slot
      let rowOffset ← readRowOffset view slot
      let rest ← entriesFrom remaining (slot+1)
      return { primaryKey,rowOffset }::rest

def entries : Checked (List FrozenPrimaryKeyIndexEntry) := do
  returns (failIf (view.metadata.capacity == 0)
    (.invalidArgument "frozen primary-key index view is invalid"))
  entriesFrom view view.metadata.capacity 0

end View

def validate (bytes : Bytes) : Checked FrozenPrimaryKeyIndexView := do
  let metadata ← readMetadata bytes
  returns (validateMetadata metadata bytes.length)
  let view : FrozenPrimaryKeyIndexView := { bytes,metadata }
  checkMirror view metadata.groupWidth 0
  let occupiedCount ← scanSlots view metadata.capacity 0 [] 0
  returns (failIf (occupiedCount != metadata.rowCount)
    (.invalidArgument "frozen primary-key index row count does not match occupied slots"))
  return view

theorem readHeaderField_eq (T : Type) [LittleEndianInteger T] (bytes : Bytes) (offset : ℕ) :
    readHeaderField T bytes offset = returns (FrozenIndex.readHeaderField T bytes offset) := by
  rw [readHeaderField,FrozenIndex.readHeaderField,Artifact.Access.readLittleEndian_eq]
  cases Base.readLittleEndian T bytes offset with
  | error status => rfl
  | ok value => rfl

theorem readMetadata_eq (bytes : Bytes) :
    readMetadata bytes = returns (FrozenIndex.readMetadata bytes) := by
  simp only [readMetadata,FrozenIndex.readMetadata,returns_bind,returns_pure,readHeaderField_eq]

section View

variable {view : FrozenPrimaryKeyIndexView} (hl : view.Layout)

theorem readKey_eq (slot : ℕ) : readKey view slot = returns (view.readKey slot) := by
  simp only [readKey,FrozenPrimaryKeyIndexView.readKey,returns_bind,readHeaderField_eq]

theorem readRowOffset_eq (slot : ℕ) :
    readRowOffset view slot = returns (view.readRowOffset slot) := by
  simp only [readRowOffset,FrozenPrimaryKeyIndexView.readRowOffset,returns_bind,readHeaderField_eq]

include hl

theorem control_eq {slot : ℕ} (hs : slot < view.metadata.capacity+kDefaultGroupWidth) :
    control view slot = .ok (view.control slot) := by
  have hcontrol := hl.control
  have hkey := hl.key
  have hrow := hl.row
  have htotal := hl.total
  have hlen := hl.length
  have hin : view.metadata.controlOffset+slot+1 ≤ view.bytes.length := by omega
  rw [control,access_inside hin]
  simp only [FrozenPrimaryKeyIndexView.control,List.getD_eq_getElem?_getD,Artifact.Access.ok_bind]
  rw [slice_getElem? _ _ _ _ (by omega)]
  rfl

theorem mask_lt (n : ℕ) : n &&& view.mask < view.metadata.capacity := by
  rw [hl.and_mask]
  exact Nat.mod_lt _ hl.capacity_pos

theorem checkMirror_eq (remaining i : ℕ) (h : i+remaining = view.metadata.groupWidth) :
    checkMirror view remaining i = returns (failIf ((List.range' i remaining).any fun i =>
      view.control (view.metadata.capacity+i) != view.control i)
      (.invalidArgument "frozen primary-key index control bytes are not mirrored")) := by
  have hwidth := hl.width
  have hwide := hl.wide
  induction remaining generalizing i with
  | zero => rfl
  | succ remaining ih =>
    rw [checkMirror,control_eq hl (by omega),control_eq hl (by omega),ih (i+1) (by omega),
      List.range'_succ,List.any_cons,Artifact.Access.ok_bind,Artifact.Access.ok_bind]
    cases view.control (view.metadata.capacity+i) != view.control i with
    | true => rfl
    | false => rfl

theorem checkReachable_eq (slot remaining probe : ℕ) (h : probe < view.metadata.capacity) :
    checkReachable view slot remaining probe =
      returns (view.checkReachable slot remaining probe) := by
  induction remaining generalizing probe with
  | zero => rfl
  | succ remaining ih =>
    rw [checkReachable,FrozenPrimaryKeyIndexView.checkReachable,control_eq hl (by omega),
      Artifact.Access.ok_bind,ih _ (mask_lt hl _)]
    split_ifs
    · rfl
    · rfl
    · rfl

theorem scanSlots_eq (remaining slot : ℕ) (h : slot+remaining = view.metadata.capacity)
    (seenKeys : List UInt64) (occupiedCount : ℕ) :
    scanSlots view remaining slot seenKeys occupiedCount =
      returns (view.scanSlots remaining slot seenKeys occupiedCount) := by
  induction remaining generalizing slot seenKeys occupiedCount with
  | zero => rfl
  | succ remaining ih =>
    have hrest := ih (slot+1) (by omega)
    have hreach := fun key => checkReachable_eq hl slot view.metadata.capacity
      ((view.hash key).toNat &&& view.mask) (mask_lt hl _)
    rw [scanSlots,FrozenPrimaryKeyIndexView.scanSlots,control_eq hl (by omega),
      Artifact.Access.ok_bind]
    by_cases hc : view.control slot = kEmptyControl
    · simp only [hc,if_true,hrest]
    · simp only [hc,if_false,returns_bind,readKey_eq,hreach,hrest]

theorem lookupFrom_eq (primaryKey : UInt64) (remaining slot : ℕ)
    (h : slot < view.metadata.capacity) :
    lookupFrom view primaryKey remaining slot =
      returns (view.lookupFrom primaryKey remaining slot) := by
  induction remaining generalizing slot with
  | zero => rfl
  | succ remaining ih =>
    rw [lookupFrom,FrozenPrimaryKeyIndexView.lookupFrom,control_eq hl (by omega),
      Artifact.Access.ok_bind,ih _ (mask_lt hl _)]
    by_cases hc : view.control slot = kEmptyControl
    · simp only [hc,if_true]
      rfl
    · by_cases htag : view.control slot = h2 (view.hash primaryKey)
      · rw [if_neg hc,if_neg hc,if_pos htag,if_pos htag,readKey_eq,readRowOffset_eq]
        refine bind_eq_returns fun key _ => ?_
        by_cases hkey : key = primaryKey
        · simp only [hkey,if_true,returns_bind,returns_pure]
        · simp only [hkey,if_false]
      · rw [if_neg hc,if_neg hc,if_neg htag,if_neg htag]

theorem lookup_eq (primaryKey : UInt64) :
    lookup view primaryKey = returns (view.lookup primaryKey) := by
  rw [lookup,FrozenPrimaryKeyIndexView.lookup,returns_bind,
    lookupFrom_eq hl primaryKey _ _ (mask_lt hl _)]

theorem entriesFrom_eq (remaining slot : ℕ) (h : slot+remaining = view.metadata.capacity) :
    entriesFrom view remaining slot = returns (view.entriesFrom remaining slot) := by
  induction remaining generalizing slot with
  | zero => rfl
  | succ remaining ih =>
    rw [entriesFrom,FrozenPrimaryKeyIndexView.entriesFrom,control_eq hl (by omega),
      Artifact.Access.ok_bind,ih (slot+1) (by omega)]
    by_cases hc : view.control slot = kEmptyControl
    · simp only [hc,if_true]
    · simp only [hc,if_false,readKey_eq,readRowOffset_eq,returns_bind,returns_pure]

theorem entries_eq : entries view = returns view.entries := by
  rw [entries,FrozenPrimaryKeyIndexView.entries,returns_bind,entriesFrom_eq hl _ 0 (by omega)]

end View

/-- The metadata checks come before the first unchecked access, so no byte string can lead
`Validate` out of its bounds. -/
theorem validate_eq (bytes : Bytes) :
    validate bytes = returns (FrozenPrimaryKeyIndexView.validate bytes) := by
  rw [validate,readMetadata_eq]
  refine bind_eq_returns fun metadata hmetadata => bind_eq_returns fun _ hchecked => ?_
  have hl := (FrozenPrimaryKeyIndexView.validateMetadata_eq_ok.mp hchecked).1
  simp only [checkMirror_eq hl metadata.groupWidth 0 (by simp),
    scanSlots_eq hl metadata.capacity 0 (by simp),List.range_eq_range',returns_bind,returns_pure]

/-- A validated frozen index can be trusted wherever its bytes come from. -/
theorem frozenIndex_trustworthy (bytes : Bytes) :
    (validate bytes ≠ .error .outOfRange ∧
      validate bytes = returns (FrozenPrimaryKeyIndexView.validate bytes)) ∧
    ∀ view, FrozenPrimaryKeyIndexView.validate bytes = .ok view →
      FrozenIndex.readMetadata bytes = .ok view.metadata ∧
      (∀ k, ∃ found, lookup view k = .ok found ∧ view.lookup k = .ok found) ∧
      ∃ stored, entries view = .ok stored ∧ view.entries = .ok stored ∧
        (stored.map FrozenPrimaryKeyIndexEntry.primaryKey).Nodup ∧
        stored.length = view.metadata.rowCount ∧
        ∀ k r, view.lookup k = .ok (some r) ↔ ⟨k,r⟩ ∈ stored := by
  refine ⟨⟨?_,validate_eq bytes⟩,?_⟩
  · rw [validate_eq]
    exact returns_ne_outOfRange _
  intro view hview
  obtain ⟨rfl,hmetadata,hw,_⟩ :=
    FrozenPrimaryKeyIndexView.validate_eq_ok.mp hview
  obtain ⟨hd,hlookup⟩ := hw.lookup_eq_find hw.entries
  refine ⟨hmetadata,?_,_,?_,hw.entries,hd,?_,?_⟩
  · intro k
    refine ⟨_,?_,hlookup k⟩
    rw [lookup_eq hw.toLayout,hlookup]
    rfl
  · rw [entries_eq hw.toLayout,hw.entries]
    rfl
  · rw [← hw.count,Probing.load,List.length_filterMap_eq_countP]
    apply List.countP_congr
    intro slot _
    simp [FrozenPrimaryKeyIndexView.entryAt]
  · intro k r
    rw [hlookup,Except.ok.injEq]
    exact find_rowOffset hd ⟨k,r⟩

end Access
end FrozenIndex
end KvIndex
