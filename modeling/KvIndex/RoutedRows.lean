import KvIndex.LoadedRows

/-! Where a row is and where it is looked for. The builder of an artifact places a row by the
hash settings of the header, and the index routes its key by the settings of its own options. -/
namespace KvIndex
namespace Artifact

open Base

/-- The shard in which the builder of an artifact with hash version `version` places a key. -/
def homeShard (artifact : ParsedArtifact) (version : UInt32) (key : UInt64) : ℕ :=
  (stableHash64 key artifact.hashSeed version).toNat &&& (artifact.shardCount.toNat-1)

/-- What `ParseArtifact` compares; a zero count or version is compared with nothing. -/
theorem parseArtifactWith_expected {sort : List ArtifactSection → List ArtifactSection}
    {bytes : Bytes} {options : ArtifactValidationOptions} {artifact : ParsedArtifact}
    (h : parseArtifactWith sort bytes options = .ok artifact) :
    (options.expectedShardCount ≠ 0 → artifact.shardCount = options.expectedShardCount) ∧
      (options.expectedHashVersion ≠ 0 → artifact.hashVersion = options.expectedHashVersion) ∧
      artifact.hashSeed = options.expectedHashSeed := by
  obtain ⟨header,sections,layout,progress,hdescribed,-,rfl⟩ := parseArtifactWith_eq_ok.mp h
  have hexpected := hdescribed.expected
  simp only [checkExpectations,bind_eq_ok,failIf_eq_ok,exists_const,Bool.and_eq_false_iff,
    bne_eq_false_iff_eq] at hexpected
  obtain ⟨hcount,hversion,hseed⟩ := hexpected
  refine ⟨?_,?_,hseed.symm⟩
  · intro hne
    exact (hcount.resolve_left hne).symm
  · intro hne
    exact (hversion.resolve_left hne).symm

theorem Intact.get_of_mem {backing : MmapSnapshotBacking} (hm : Mapped backing)
    (hi : Intact backing) {rows : List SnapshotRow}
    (hrows : enumerateSnapshotRows (.mmap backing) = .ok rows) {row : SnapshotRow}
    (hrow : row ∈ rows) :
    snapshotGet (some (.mmap backing)) row.primaryKey =
      .ok (some ⟨backing.artifact.layout,row.encoded⟩) := by
  obtain ⟨hdistinct,-,hget⟩ := snapshotGet_of_enumerate hrows
  obtain ⟨answered,hanswered⟩ := hm.get_total_iff.mpr hi row.primaryKey
  have hfind := (FirstWins.find_eq_some hdistinct).mpr ⟨hrow,rfl⟩
  rw [hget,hfind] at hanswered ⊢
  show (Model.materializeRow backing.artifact.layout row.encoded).map some = _
  cases hmaterialized : Model.materializeRow backing.artifact.layout row.encoded with
  | error status =>
    have herror : (Model.materializeRow backing.artifact.layout row.encoded).map some =
      .ok answered := hanswered
    rw [hmaterialized] at herror
    cases herror
  | ok made =>
    rw [Model.materializeRow_eq_ok hmaterialized]
    rfl

theorem Intact.enumerate {backing : MmapSnapshotBacking} (hm : Mapped backing)
    (hi : Intact backing) : ∃ rows, enumerateSnapshotRows (.mmap backing) = .ok rows := by
  obtain ⟨index,entries,hindex,hentries,hrows⟩ := hi
  have hread : ∀ entry ∈ entries, ∃ row : SnapshotRow, (do
      let encoded ← (SnapshotBacking.mmap backing).encodedRowAt entry.rowOffset
      return ({ primaryKey := entry.primaryKey,encoded } : SnapshotRow)) = Except.ok row := by
    intro entry hentry
    obtain ⟨encoded,-,hencoded,-⟩ := (hm.rowIntact_iff _).mp (hrows entry hentry)
    refine ⟨⟨entry.primaryKey,encoded⟩,?_⟩
    simp only [SnapshotBacking.encodedRowAt,hencoded,ok_bind,pure_eq_ok]
  obtain ⟨rows,hmap⟩ := mapM_ok hread
  refine ⟨rows,?_⟩
  simp only [enumerateSnapshotRows,SnapshotBacking.frozenIndexBytes,hindex,ok_bind,hentries]
  exact hmap

end Artifact

namespace Rebuild

open Base Ingest Artifact LoadView ForwardIndex CompiledRowLayout

section Routing

variable {request : LoadRequest} {id : LoadId} {options : ForwardIndexOptions}
  {directory : ShardDirectory PublishedShard} {fuel : ℕ} {labels : List LoadLabel} {world : LoadWorld}
  {version : UInt32}

/-- `row` stands in the file of shard `i`. -/
def Stands (options : ForwardIndexOptions) (events : List LoadEvent) (i : ℕ)
    (backing : MmapSnapshotBacking) (row : SnapshotRow) : Prop :=
  i < options.shardCount.toNat ∧ (loadedBackings options events)[i]? = some backing ∧
    ∃ rows, enumerateSnapshotRows (.mmap backing) = .ok rows ∧ row ∈ rows

/-- The files are a well-formed artifact of hash version `version`, with every row in the
shard where the builder places it. -/
structure WellPlaced (version : UInt32) (options : ForwardIndexOptions) (events : List LoadEvent) :
    Prop where
  intact : FilesIntact options events
  header : ∀ i < options.shardCount.toNat, ∀ backing ∈ (loadedBackings options events)[i]?,
    backing.artifact.hashVersion = version
  placed : ∀ i backing row, Stands options events i backing row →
    i = homeShard backing.artifact version row.primaryKey

/-- Every row of the artifact is found under its key. -/
def RowsServed (options : ForwardIndexOptions) (events : List LoadEvent)
    (directory : ShardDirectory PublishedShard) : Prop :=
  ∀ i backing row, Stands options events i backing row → ∀ tables,
    ForwardIndex.get options directory tables row.primaryKey =
      .ok (some ⟨backing.artifact.layout,row.encoded⟩)

/-- Every key of the artifact has the same shard under the hash version of the index. -/
def SameRoutes (version : UInt32) (options : ForwardIndexOptions) (events : List LoadEvent) : Prop :=
  ∀ i backing row, Stands options events i backing row →
    homeShard backing.artifact options.hashVersion row.primaryKey =
      homeShard backing.artifact version row.primaryKey

theorem loadedBackings_header {events : List LoadEvent} {i : ℕ} {backing : MmapSnapshotBacking}
    (hb : (loadedBackings options events)[i]? = some backing) :
    backing.artifact.shardCount = options.shardCount ∧
      backing.artifact.hashSeed = options.hashSeed ∧
      (options.hashVersion ≠ 0 → backing.artifact.hashVersion = options.hashVersion) := by
  obtain ⟨uri,shardId,bytes,-,hload⟩ := mem_loadedBackings (List.mem_of_getElem? hb)
  obtain ⟨hcount,hversion,hseed⟩ := parseArtifactWith_expected (loadShard_parses hload)
  refine ⟨hcount ?_,hseed,hversion⟩
  intro hzero
  have hpos := shardCount_pos options
  have hzero : options.shardCount.toNat = 0 := congrArg UInt32.toNat hzero
  omega

/-- The index looks for a key where a builder with its own hash version places it. -/
theorem shardFor_eq_homeShard {events : List LoadEvent} {i : ℕ} {backing : MmapSnapshotBacking}
    (hb : (loadedBackings options events)[i]? = some backing) (key : UInt64) :
    (ForwardIndex.shardFor options key).toNat =
      homeShard backing.artifact options.hashVersion key := by
  obtain ⟨hcount,hseed,-⟩ := loadedBackings_header hb
  rw [homeShard,hcount,hseed,shardFor_toNat]

/-- Without realtime tables the file of the routed shard answers. -/
theorem LoadHistory.snapshot_get (h : LoadHistory request id options directory fuel labels world)
    (hdirectory : directory.shards.length = options.shardCount.toNat)
    (hsucceeded : world.record.code = .kSucceeded) (hmode : options.mode = .kFullSnapshotOnly)
    (key : UInt64) :
    ∃ backing, (loadedBackings options (workerEvents labels))[(ForwardIndex.shardFor options key).toNat]? =
        some backing ∧
      ∀ tables, ForwardIndex.get options world.directory tables key =
        snapshotGet (some (.mmap backing)) key := by
  obtain ⟨backing,hbacking,hget⟩ := h.get_eq hdirectory hsucceeded key
  refine ⟨backing,hbacking,?_⟩
  intro tables
  rw [hget,hmode]
  rfl

theorem homeShard_congr {events : List LoadEvent} {i j : ℕ} {a b : MmapSnapshotBacking}
    (ha : (loadedBackings options events)[i]? = some a)
    (hb : (loadedBackings options events)[j]? = some b) (version : UInt32) (key : UInt64) :
    homeShard a.artifact version key = homeShard b.artifact version key := by
  obtain ⟨hcount,hseed,-⟩ := loadedBackings_header ha
  obtain ⟨hcount',hseed',-⟩ := loadedBackings_header hb
  rw [homeShard,homeShard,hcount,hseed,hcount',hseed']

theorem WellPlaced.sameRoutes {events : List LoadEvent} (hplaced : WellPlaced version options events)
    (hversion : options.hashVersion ≠ 0) : SameRoutes version options events := by
  intro i backing row hstands
  have hheader := hplaced.header i hstands.1 backing hstands.2.1
  rw [← (loadedBackings_header hstands.2.1).2.2 hversion,hheader]

theorem WellPlaced.found {events : List LoadEvent} (hplaced : WellPlaced version options events)
    {i : ℕ} (hi : i < options.shardCount.toNat) {backing : MmapSnapshotBacking}
    (hb : (loadedBackings options events)[i]? = some backing) {key : UInt64} {row : Row}
    (hget : snapshotGet (some (.mmap backing)) key = .ok (some row)) :
    i = homeShard backing.artifact version key := by
  obtain ⟨rows,hrows⟩ := (hplaced.intact i hi backing hb).enumerate (loadedBackings_mapped hb)
  obtain ⟨hdistinct,-,hanswer⟩ := snapshotGet_of_enumerate hrows
  rw [hanswer] at hget
  cases hfind : FirstWins.find SnapshotRow.primaryKey rows key with
  | none =>
    rw [hfind] at hget
    cases hget
  | some found =>
    obtain ⟨hmem,hkey⟩ := (FirstWins.find_eq_some hdistinct).mp hfind
    have hhome := hplaced.placed i backing found ⟨hi,hb,rows,hrows,hmem⟩
    rwa [hkey] at hhome

/-- No row is lost by routing exactly when the index compares hash versions, or all keys have
the same shard under both of them. -/
theorem routed_rows_are_served_iff (request : LoadRequest) (id : LoadId)
    (options : ForwardIndexOptions) (directory : ShardDirectory PublishedShard) (fuel : ℕ)
    (labels : List LoadLabel) (world : LoadWorld) (version : UInt32)
    (hdirectory : directory.shards.length = options.shardCount.toNat)
    (hmode : options.mode = .kFullSnapshotOnly)
    (h : LoadHistory request id options directory fuel labels world)
    (hsucceeded : world.record.code = .kSucceeded)
    (hplaced : WellPlaced version options (workerEvents labels)) :
    RowsServed options (workerEvents labels) world.directory ↔
      options.hashVersion ≠ 0 ∨ SameRoutes version options (workerEvents labels) := by
  constructor
  · intro hserved
    refine Or.inr ?_
    intro i backing row hstands
    obtain ⟨routed,hrouted,hget⟩ := h.snapshot_get hdirectory hsucceeded hmode row.primaryKey
    have hfound := hserved i backing row hstands fun _ => createRealtimeShard backing.artifact.layout options
    rw [hget] at hfound
    have hhome := hplaced.found (shardFor_lt options row.primaryKey) hrouted hfound
    rw [← shardFor_eq_homeShard hstands.2.1,hhome]
    exact homeShard_congr hrouted hstands.2.1 version row.primaryKey
  · intro hcondition i backing row hstands tables
    have hroutes : SameRoutes version options (workerEvents labels) :=
      hcondition.elim hplaced.sameRoutes fun hroutes => hroutes
    obtain ⟨hi,hbacking,rows,hrows,hrow⟩ := hstands
    have hroute : (ForwardIndex.shardFor options row.primaryKey).toNat = i := by
      rw [shardFor_eq_homeShard hbacking,hroutes i backing row ⟨hi,hbacking,rows,hrows,hrow⟩,
        ← hplaced.placed i backing row ⟨hi,hbacking,rows,hrows,hrow⟩]
    obtain ⟨routed,hrouted,hget⟩ := h.snapshot_get hdirectory hsucceeded hmode row.primaryKey
    rw [hroute,hbacking,Option.some.injEq] at hrouted
    subst hrouted
    rw [hget]
    exact (hplaced.intact i hi backing hbacking).get_of_mem (loadedBackings_mapped hbacking) hrows hrow

/-- Whether the files are a well-formed, well placed artifact. -/
def checkPlaced (version : UInt32) (options : ForwardIndexOptions) (events : List LoadEvent) : Bool :=
  (loadedBackings options events).zipIdx.all fun file =>
    decide (Intact file.1) && file.1.artifact.hashVersion == version &&
      match enumerateSnapshotRows (.mmap file.1) with
      | .error _ => true
      | .ok rows => rows.all fun row => file.2 == homeShard file.1.artifact version row.primaryKey

theorem wellPlaced_of_check {events : List LoadEvent}
    (h : checkPlaced version options events = true) : WellPlaced version options events := by
  have hfile : ∀ i backing, (loadedBackings options events)[i]? = some backing →
      (Intact backing ∧ backing.artifact.hashVersion = version) ∧
        ∀ rows, enumerateSnapshotRows (.mmap backing) = .ok rows → ∀ row ∈ rows,
          i = homeShard backing.artifact version row.primaryKey := by
    intro i backing hb
    have hmem : (backing,i) ∈ (loadedBackings options events).zipIdx := by
      rw [List.mem_zipIdx_iff_getElem?]
      exact hb
    have hcheck := List.all_eq_true.mp h _ hmem
    simp only [Bool.and_eq_true,decide_eq_true_eq,beq_iff_eq] at hcheck
    refine ⟨hcheck.1,?_⟩
    intro rows hrows row hrow
    have hplaced := hcheck.2
    simp only [hrows,List.all_eq_true,beq_iff_eq] at hplaced
    exact hplaced row hrow
  refine ⟨?_,?_,?_⟩
  · intro i _ backing hb
    exact (hfile i backing hb).1.1
  · intro i _ backing hb
    exact (hfile i backing hb).1.2
  · rintro i backing row ⟨_,hb,rows,hrows,hrow⟩
    exact (hfile i backing hb).2 rows hrows row hrow

end Routing

/-- Two shards, with a key in each that hash version 1 places there. -/
def placedSpec : ArtifactBuildSpec :=
  { sampleSpec with
    shardCount := 2
    shards := [
      { shardId := 0,rows := [⟨7,(RealtimeDeltaAtomicTable.sampleCall 7 5).encoded⟩] },
      { shardId := 1,rows := [⟨0,(RealtimeDeltaAtomicTable.sampleCall 0 5).encoded⟩] }] }

def placedFile : Bytes := (writeArtifact placedSpec).toOption.getD []

open RealtimeDeltaAtomicTable (sampleLayout)

theorem placedFile_eq : placedFile =
    (composeArtifact placedSpec sampleLayout placedSpec.shards).toOption.getD [] := by
  have hcomposable : Composable placedSpec sampleLayout placedSpec.shards :=
    ⟨rfl,by decide,by decide,by decide,rfl,by decide⟩
  rw [placedFile,hcomposable.writeArtifact_eq rfl]

def versionedIndex : ForwardIndexOptions :=
  { mode := .kFullSnapshotOnly,shardCount := 2,hashVersion := 1
    shardCount_isPowerOfTwo := two_isPowerOfTwo }

theorem placedFile_served : (fileWorld versionedIndex placedFile).record.code = .kSucceeded ∧
    checkPlaced 1 versionedIndex (fileEvents versionedIndex placedFile) = true := by
  rw [placedFile_eq]
  decide +kernel

theorem routed_rows_are_served_sample :
    (fileWorld versionedIndex placedFile).record.code = .kSucceeded ∧
      RowsServed versionedIndex (fileEvents versionedIndex placedFile)
        (fileWorld versionedIndex placedFile).directory := by
  obtain ⟨hsucceeded,hplaced⟩ := placedFile_served
  have hserved := routed_rows_are_served_iff sampleRequest 1 versionedIndex (.create 2) 1 _ _ 1
    (by simp [ShardDirectory.create,versionedIndex]) rfl (fileWorld_history versionedIndex placedFile)
    hsucceeded
  rw [workerEvents_map_work] at hserved
  exact ⟨hsucceeded,(hserved (wellPlaced_of_check hplaced)).mpr (Or.inl (by decide))⟩

def unversionedIndex : ForwardIndexOptions :=
  { mode := .kFullSnapshotOnly,shardCount := 2,hashVersion := 0
    shardCount_isPowerOfTwo := two_isPowerOfTwo }

def firstKeys (options : ForwardIndexOptions) (events : List LoadEvent) : Option (List UInt64) :=
  (loadedBackings options events)[0]?.bind fun backing =>
    (enumerateSnapshotRows (.mmap backing)).toOption.map (·.map (·.primaryKey))

theorem placedFile_loads :
    (fileWorld unversionedIndex placedFile).record.code = .kSucceeded ∧
      checkPlaced 1 unversionedIndex (fileEvents unversionedIndex placedFile) = true ∧
      firstKeys unversionedIndex (fileEvents unversionedIndex placedFile) = some [7] ∧
      ForwardIndex.get unversionedIndex (fileWorld unversionedIndex placedFile).directory
        (fun _ => createRealtimeShard (compile requiredSchema) unversionedIndex) 7 = .ok none := by
  rw [placedFile_eq]
  decide +kernel

/-- The key that stands in the first shard is looked for in the second one, and missed. -/
theorem placedRow_is_missed :
    LoadHistory sampleRequest 1 unversionedIndex (.create 2) 1
        ((fileEvents unversionedIndex placedFile).map .work)
        (fileWorld unversionedIndex placedFile) ∧
      (fileWorld unversionedIndex placedFile).record.code = .kSucceeded ∧
      WellPlaced 1 unversionedIndex (fileEvents unversionedIndex placedFile) ∧
      ¬RowsServed unversionedIndex (fileEvents unversionedIndex placedFile)
        (fileWorld unversionedIndex placedFile).directory := by
  obtain ⟨hsucceeded,hplaced,hkeys,hmiss⟩ := placedFile_loads
  refine ⟨fileWorld_history unversionedIndex placedFile,hsucceeded,wellPlaced_of_check hplaced,?_⟩
  intro hserved
  obtain ⟨backing,hbacking,hrows⟩ := Option.bind_eq_some_iff.mp hkeys
  cases henumerate : enumerateSnapshotRows (.mmap backing) with
  | error status =>
    rw [henumerate] at hrows
    cases hrows
  | ok rows =>
    rw [henumerate] at hrows
    have hmap : rows.map (·.primaryKey) = [7] := Option.some.inj hrows
    obtain ⟨row,rfl,hkey⟩ := List.map_eq_singleton_iff.mp hmap
    have hfound := hserved 0 backing row ⟨by decide,hbacking,[row],henumerate,List.mem_cons_self⟩
      fun _ => createRealtimeShard (compile requiredSchema) unversionedIndex
    rw [hkey,hmiss] at hfound
    cases hfound

end Rebuild
end KvIndex
