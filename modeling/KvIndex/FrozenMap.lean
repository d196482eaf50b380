import KvIndex.FrozenBuild

/-! The frozen index as a finite map. The builder succeeds exactly on lists of distinct keys
whose sizes fit 64 bits, and `Lookup` and `Entries` of what it returns are the list it was
given. -/
namespace KvIndex
namespace FrozenIndex

open Base FrozenPrimaryKeyIndexView

/-- The number of rows up to which the sizes of an index fit 64 bits: at most seven eighths
of 2^59 slots of 17 bytes each. -/
def maxRowCount : ℕ := 7*2^56

theorem growCapacity_of_le {fuel j m minForLoad : ℕ} (hj : j ≤ m) (hm : m ≤ 63) (hfuel : m < j+fuel)
    (hmin : minForLoad ≤ 2^m) : ∃ n ≤ 2^m, growCapacity fuel (2^j) minForLoad = .ok n := by
  induction fuel generalizing j with
  | zero => omega
  | succ fuel ih =>
    rw [growCapacity]
    by_cases hload : 2^j < minForLoad
    · have hlt : j < m := by
        by_contra hge
        have hpow : 2^m ≤ 2^j := Nat.pow_le_pow_right (by omega) (by omega)
        omega
      have hsmall : ¬2^j > uint64Max/2 := by
        have hpow : 2^j ≤ 2^62 := Nat.pow_le_pow_right (by omega) (by omega)
        simp only [uint64Max]
        omega
      rw [if_pos hload,if_neg hsmall,← pow_succ]
      exact ih hlt (by omega)
    · rw [if_neg hload]
      exact ⟨2^j,Nat.pow_le_pow_right (by omega) hj,rfl⟩

/-- Up to the bound the builder computes a capacity and all its offsets. -/
theorem buildMetadata_of_le {rowCount : ℕ} (hcount : rowCount ≤ maxRowCount)
    {options : FrozenPrimaryKeyIndexBuildOptions} (hw : options.groupWidth = kDefaultGroupWidth) :
    ∃ capacity metadata, calculateCapacity rowCount options.groupWidth = .ok capacity ∧
      buildMetadata rowCount options capacity = .ok metadata := by
  simp only [maxRowCount] at hcount
  obtain ⟨capacity,hle,hgrow⟩ := @growCapacity_of_le 64 4 59
    ((rowCount*8+6)/7) (by omega) (by omega) (by omega) (by omega)
  have hcap : calculateCapacity rowCount options.groupWidth = .ok capacity := by
    have hwidth : (options.groupWidth == 0 || options.groupWidth != kDefaultGroupWidth) = false := by
      simp [hw,kDefaultGroupWidth]
    have hrows : decide (rowCount > (uint64Max-6)/8) = false := by
      rw [decide_eq_false_iff_not]
      simp only [uint64Max]
      omega
    rw [calculateCapacity,hwidth,hrows,failIf_false,ok_bind,failIf_false,ok_bind,hw]
    exact hgrow
  refine ⟨capacity,⟨rowCount,capacity,options.hashSeed,options.hashVersion,options.groupWidth,
    kSerializedHeaderSize,kSerializedHeaderSize+(capacity+options.groupWidth),
    kSerializedHeaderSize+(capacity+options.groupWidth)+capacity*8,
    kSerializedHeaderSize+(capacity+options.groupWidth)+capacity*8+capacity*8⟩,hcap,?_⟩
  simp only [buildMetadata,bind_eq_ok,failIf_eq_ok,exists_const,checkedAdd_eq_ok,checkedMul_eq_ok,
    pure_eq_ok,hw]
  simp only [uint64Max,kDefaultGroupWidth,kSerializedHeaderSize]
  exact ⟨_,⟨by omega,rfl⟩,_,⟨by omega,rfl⟩,_,⟨by omega,rfl⟩,_,⟨by omega,rfl⟩,_,⟨by omega,rfl⟩,_,
    ⟨by omega,rfl⟩,decide_eq_false (by omega),rfl⟩

theorem le_of_buildMetadata {rowCount capacity : ℕ} {options : FrozenPrimaryKeyIndexBuildOptions}
    {metadata : FrozenPrimaryKeyIndexMetadata}
    (hcap : calculateCapacity rowCount options.groupWidth = .ok capacity)
    (hmeta : buildMetadata rowCount options capacity = .ok metadata) : rowCount ≤ maxRowCount := by
  obtain ⟨hwidth,hwide,hpow,hspare⟩ := calculateCapacity_spec hcap
  obtain ⟨_,hcapacity,_,_,hlayout⟩ := buildMetadata_spec hwidth hwide hpow hmeta
  have hl := hlayout (List.replicate metadata.totalSize 0) List.length_replicate
  obtain ⟨k,rfl⟩ := isPowerOfTwo_iff.mp hpow
  have hk : k ≤ 59 := by
    by_contra hlt
    have hbig : 2^60 ≤ 2^k := Nat.pow_le_pow_right (by omega) (by omega)
    have h1 := hl.key
    have h2 := hl.row
    have h3 := hl.total
    have h4 := hl.bound
    simp only [uint64Max,hcapacity] at h1 h2 h3 h4
    omega
  have hle : 2^k ≤ 2^59 := Nat.pow_le_pow_right (by omega) hk
  simp only [maxRowCount]
  omega

theorem checkDistinct_of_distinct {seenKeys : List UInt64} {entries : List FrozenPrimaryKeyIndexEntry}
    (hd : FirstWins.Distinct FrozenPrimaryKeyIndexEntry.primaryKey entries)
    (hnew : ∀ entry ∈ entries, entry.primaryKey ∉ seenKeys) :
    checkDistinct seenKeys entries = .ok () := by
  induction entries generalizing seenKeys with
  | nil => rfl
  | cons entry entries ih =>
    obtain ⟨hfirst,hrest⟩ := List.nodup_cons.mp hd
    have hseen : seenKeys.contains entry.primaryKey = false := by
      simpa using hnew entry List.mem_cons_self
    rw [checkDistinct,hseen,failIf_false,ok_bind]
    apply ih hrest
    intro other hother hmem
    rcases List.mem_cons.mp hmem with heq | hmem
    · exact hfirst (heq ▸ List.mem_map_of_mem hother)
    · exact hnew other (List.mem_cons_of_mem _ hother) hmem

/-- The builder succeeds exactly on distinct keys whose sizes fit. -/
theorem buildFrozenPrimaryKeyIndex_succeeds {entries : List FrozenPrimaryKeyIndexEntry}
    {options : FrozenPrimaryKeyIndexBuildOptions} (hw : options.groupWidth = kDefaultGroupWidth) :
    (∃ bytes, buildFrozenPrimaryKeyIndex entries options = .ok bytes) ↔
      FirstWins.Distinct FrozenPrimaryKeyIndexEntry.primaryKey entries ∧
        entries.length ≤ maxRowCount := by
  constructor
  · rintro ⟨bytes,h⟩
    simp only [buildFrozenPrimaryKeyIndex,bind_eq_ok] at h
    obtain ⟨capacity,hcap,_,hdistinct,metadata,hmeta,_⟩ := h
    exact ⟨(checkDistinct_spec hdistinct).1,le_of_buildMetadata hcap hmeta⟩
  · rintro ⟨hd,hcount⟩
    obtain ⟨capacity,metadata,hcap,hmeta⟩ := buildMetadata_of_le hcount hw
    have hdistinct : checkDistinct [] entries = .ok () := checkDistinct_of_distinct hd (by simp)
    obtain ⟨header,placed,hheader,hplace,_⟩ := built_of_distinct hcap hd hmeta
    refine ⟨mirrorControl metadata placed,?_⟩
    rw [buildFrozenPrimaryKeyIndex,hcap,ok_bind,hdistinct,ok_bind,hmeta,ok_bind,hheader,ok_bind]
    simp only [hplace,ok_bind,pure_eq_ok]

/-- A computation whose failures all carry `kInvalidArgument`. -/
def FailsInvalid {α : Type} (x : StatusOr α) : Prop :=
  ∀ status, x = .error status → status.code = .kInvalidArgument

theorem failsInvalid_ok {α : Type} (a : α) : FailsInvalid (Except.ok a : StatusOr α) := by
  intro status h
  cases h

theorem failsInvalid_invalidArgument {α : Type} (message : String) :
    FailsInvalid (Except.error (.invalidArgument message) : StatusOr α) := by
  intro status h
  cases h
  rfl

theorem failsInvalid_failIf (bad : Bool) (message : String) :
    FailsInvalid (failIf bad (.invalidArgument message)) := by
  cases bad
  · exact failsInvalid_ok ()
  · exact failsInvalid_invalidArgument message

theorem FailsInvalid.bind {α β : Type} {x : StatusOr α} {f : α → StatusOr β} (hx : FailsInvalid x)
    (hf : ∀ a, x = .ok a → FailsInvalid (f a)) : FailsInvalid (x >>= f) := by
  cases x with
  | error status =>
    intro status' h
    cases h
    exact hx status rfl
  | ok a => exact hf a rfl

theorem failsInvalid_checkedAdd (lhs rhs : ℕ) : FailsInvalid (checkedAdd lhs rhs) := by
  rw [checkedAdd]
  split_ifs
  · exact failsInvalid_invalidArgument _
  · exact failsInvalid_ok _

theorem failsInvalid_checkedMul (lhs rhs : ℕ) : FailsInvalid (checkedMul lhs rhs) := by
  rw [checkedMul]
  split_ifs
  · exact failsInvalid_invalidArgument _
  · exact failsInvalid_ok _

theorem failsInvalid_growCapacity (fuel capacity minForLoad : ℕ) :
    FailsInvalid (growCapacity fuel capacity minForLoad) := by
  induction fuel generalizing capacity with
  | zero => exact failsInvalid_ok _
  | succ fuel ih =>
    rw [growCapacity]
    split_ifs
    · exact failsInvalid_invalidArgument _
    · exact ih _
    · exact failsInvalid_ok _

theorem failsInvalid_calculateCapacity (rowCount groupWidth : ℕ) :
    FailsInvalid (calculateCapacity rowCount groupWidth) := by
  apply (failsInvalid_failIf _ _).bind
  intro _ _
  apply (failsInvalid_failIf _ _).bind
  intro _ _
  exact failsInvalid_growCapacity _ _ _

theorem failsInvalid_checkDistinct (seenKeys : List UInt64)
    (entries : List FrozenPrimaryKeyIndexEntry) : FailsInvalid (checkDistinct seenKeys entries) := by
  induction entries generalizing seenKeys with
  | nil => exact failsInvalid_ok ()
  | cons entry entries ih =>
    apply (failsInvalid_failIf _ _).bind
    intro _ _
    exact ih _

theorem failsInvalid_buildMetadata (rowCount capacity : ℕ)
    (options : FrozenPrimaryKeyIndexBuildOptions) :
    FailsInvalid (buildMetadata rowCount options capacity) := by
  apply (failsInvalid_checkedAdd _ _).bind
  intro _ _
  apply (failsInvalid_checkedMul _ _).bind
  intro _ _
  apply (failsInvalid_checkedMul _ _).bind
  intro _ _
  apply (failsInvalid_checkedAdd _ _).bind
  intro _ _
  apply (failsInvalid_checkedAdd _ _).bind
  intro _ _
  apply (failsInvalid_checkedAdd _ _).bind
  intro _ _
  apply (failsInvalid_failIf _ _).bind
  intro _ _
  exact failsInvalid_ok _

/-- Once its checks have passed the builder succeeds: no run is stuck in the placement loop. -/
theorem buildFrozenPrimaryKeyIndex_terminates (entries : List FrozenPrimaryKeyIndexEntry)
    (options : FrozenPrimaryKeyIndexBuildOptions) :
    buildFrozenPrimaryKeyIndex entries options ≠ .error probeLoopDiverges := by
  have hfails : FailsInvalid (buildFrozenPrimaryKeyIndex entries options) := by
    apply (failsInvalid_calculateCapacity _ _).bind
    intro capacity hcap
    apply (failsInvalid_checkDistinct _ _).bind
    intro _ hdistinct
    apply (failsInvalid_buildMetadata _ _ _).bind
    intro metadata hmeta
    obtain ⟨header,placed,hheader,hplace,_⟩ :=
      built_of_distinct hcap (checkDistinct_spec hdistinct).1 hmeta
    simp only [hheader,hplace,ok_bind,pure_eq_ok]
    exact failsInvalid_ok _
  intro h
  have hcode := hfails _ h
  cases hcode

theorem find_rowOffset {l : List FrozenPrimaryKeyIndexEntry}
    (hd : FirstWins.Distinct FrozenPrimaryKeyIndexEntry.primaryKey l)
    (entry : FrozenPrimaryKeyIndexEntry) :
    (FirstWins.find FrozenPrimaryKeyIndexEntry.primaryKey l entry.primaryKey).map
      FrozenPrimaryKeyIndexEntry.rowOffset = some entry.rowOffset ↔ entry ∈ l := by
  rw [Option.map_eq_some_iff]
  constructor
  · rintro ⟨found,hfound,hrow⟩
    obtain ⟨hmem,hkey⟩ := (FirstWins.find_eq_some hd).mp hfound
    obtain ⟨primaryKey,rowOffset⟩ := entry
    obtain ⟨foundKey,foundRow⟩ := found
    cases hkey
    cases hrow
    exact hmem
  · intro hmem
    exact ⟨entry,FirstWins.find_of_mem hd hmem,rfl⟩

/-- The frozen index is an exact finite map: the builder succeeds exactly on distinct keys
whose sizes fit, its placement loop ends, and what it returns is accepted by `Validate` and
holds the given entries and no others. -/
theorem frozenIndex_exact (entries : List FrozenPrimaryKeyIndexEntry) (hashSeed : UInt64)
    (hashVersion : UInt32) :
    ((∃ bytes, buildFrozenPrimaryKeyIndex entries { hashSeed,hashVersion } = .ok bytes) ↔
      (entries.map FrozenPrimaryKeyIndexEntry.primaryKey).Nodup ∧ entries.length ≤ maxRowCount) ∧
    buildFrozenPrimaryKeyIndex entries { hashSeed,hashVersion } ≠ .error probeLoopDiverges ∧
    ∀ bytes, buildFrozenPrimaryKeyIndex entries { hashSeed,hashVersion } = .ok bytes →
      ∃ view, FrozenPrimaryKeyIndexView.validate bytes = .ok view ∧
        (∀ k r, view.lookup k = .ok (some r) ↔ ⟨k,r⟩ ∈ entries) ∧
        (∀ k, (∀ entry ∈ entries, entry.primaryKey ≠ k) → view.lookup k = .ok none) ∧
        ∃ stored, view.entries = .ok stored ∧ stored.Perm entries := by
  refine ⟨buildFrozenPrimaryKeyIndex_succeeds rfl,buildFrozenPrimaryKeyIndex_terminates _ _,?_⟩
  intro bytes h
  obtain ⟨view,hview,_,_,hd,hlookup⟩ := buildFrozenPrimaryKeyIndex_spec h
  have hfound : ∀ k r, view.lookup k = .ok (some r) ↔ ⟨k,r⟩ ∈ entries := by
    intro k r
    rw [hlookup,Except.ok.injEq]
    exact find_rowOffset hd ⟨k,r⟩
  refine ⟨view,hview,hfound,?_,?_⟩
  · intro k hk
    rw [hlookup,FirstWins.find_eq_none.mpr hk]
    rfl
  · have hw := (validate_eq_ok.mp hview).2.2.1
    obtain ⟨hstored,hsame⟩ := hw.lookup_eq_find hw.entries
    refine ⟨_,hw.entries,(List.perm_ext_iff_of_nodup hstored.of_map hd.of_map).mpr ?_⟩
    intro entry
    rw [← hfound,hsame,Except.ok.injEq]
    exact (find_rowOffset hstored entry).symm

end FrozenIndex
end KvIndex
