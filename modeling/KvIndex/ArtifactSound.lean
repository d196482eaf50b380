import KvIndex.ArtifactFormat

/-! What `ParseArtifact` accepts. The overlap check looks at sorted neighbours; together
with the bounds of the sections this makes any two sections lie apart. Sections without
bytes share their offset with the next one, and there the order of the sort matters. -/
namespace KvIndex
namespace Artifact

open Base LittleEndian

namespace ArtifactSection

def fileEnd (entry : ArtifactSection) : ℕ := entry.offset.toNat+entry.length.toNat

theorem offset_le_fileEnd (entry : ArtifactSection) : entry.offset.toNat ≤ entry.fileEnd :=
  Nat.le_add_right _ _

def Apart (a b : ArtifactSection) : Prop :=
  a.fileEnd ≤ b.offset.toNat ∨ b.fileEnd ≤ a.offset.toNat

theorem Apart.symm {a b : ArtifactSection} (h : Apart a b) : Apart b a := Or.symm h

/-- A section without bytes at the offset of a section with bytes. -/
def Tie (a b : ArtifactSection) : Prop := a.offset = b.offset ∧ a.length = 0 ∧ b.length ≠ 0

end ArtifactSection

open ArtifactSection

theorem checkOverlap_eq_ok {sections : List ArtifactSection} {previousEnd : ℕ}
    (hend : ∀ entry ∈ sections, entry.fileEnd < 2^64) :
    checkOverlap previousEnd sections = .ok () ↔
      (∀ entry ∈ sections, previousEnd ≤ entry.offset.toNat) ∧
        sections.Pairwise fun a b => a.fileEnd ≤ b.offset.toNat := by
  induction sections generalizing previousEnd with
  | nil => simp [checkOverlap]
  | cons entry sections ih =>
    have hmod : (entry.offset.toNat+entry.length.toNat)%2^64 = entry.fileEnd :=
      Nat.mod_eq_of_lt (hend entry List.mem_cons_self)
    have ih := @ih entry.fileEnd fun other hother => hend other (List.mem_cons_of_mem _ hother)
    simp only [checkOverlap,bind_eq_ok,failIf_eq_ok,exists_const,decide_eq_false_iff_not,Nat.not_lt,
      hmod,ih,List.pairwise_cons,List.mem_cons,forall_eq_or_imp]
    constructor
    · rintro ⟨hfirst,hbehind,hrest⟩
      refine ⟨⟨hfirst,?_⟩,hbehind,hrest⟩
      intro other hother
      have hle := entry.offset_le_fileEnd
      have hnext := hbehind other hother
      omega
    · rintro ⟨⟨hfirst,-⟩,hbehind,hrest⟩
      exact ⟨hfirst,hbehind,hrest⟩

/-- What the overlap check says of the sections, whatever their order was. -/
theorem apart_of_checkOverlap {sort : List ArtifactSection → List ArtifactSection}
    (hsort : OffsetOrder sort) {sections : List ArtifactSection} {previousEnd : ℕ}
    (hend : ∀ entry ∈ sections, entry.fileEnd < 2^64)
    (h : checkOverlap previousEnd (sort sections) = .ok ()) :
    (∀ entry ∈ sections, previousEnd ≤ entry.offset.toNat) ∧ sections.Pairwise Apart := by
  have hperm := hsort.perm sections
  rw [checkOverlap_eq_ok fun entry hentry => hend entry (hperm.mem_iff.mp hentry)] at h
  refine ⟨fun entry hentry => h.1 entry (hperm.mem_iff.mpr hentry),?_⟩
  have hapart : (sort sections).Pairwise Apart := h.2.imp fun hle => Or.inl hle
  exact (hperm.pairwise_iff fun h => h.symm).mp hapart

/-- Without ties, sections that lie apart pass the check in every order. -/
theorem checkOverlap_of_apart {sort : List ArtifactSection → List ArtifactSection}
    (hsort : OffsetOrder sort) {sections : List ArtifactSection} {previousEnd : ℕ}
    (hend : ∀ entry ∈ sections, entry.fileEnd < 2^64)
    (hbehind : ∀ entry ∈ sections, previousEnd ≤ entry.offset.toNat)
    (hapart : sections.Pairwise Apart)
    (htie : (sort sections).Pairwise fun a b => ¬Tie b a) :
    checkOverlap previousEnd (sort sections) = .ok () := by
  have hperm := hsort.perm sections
  rw [checkOverlap_eq_ok fun entry hentry => hend entry (hperm.mem_iff.mp hentry)]
  refine ⟨fun entry hentry => hbehind entry (hperm.mem_iff.mp hentry),?_⟩
  have hapart' := (hperm.pairwise_iff fun h => h.symm).mpr hapart
  refine ((hsort.ordered sections).and (hapart'.and htie)).imp ?_
  rintro a b ⟨horder,hab | hba,hnot⟩
  · exact hab
  · -- The later section ends where the earlier one starts, so it has no bytes there.
    have horder := UInt64.le_iff_toNat_le.mp horder
    rw [fileEnd] at hba
    have hoffset : b.offset = a.offset := UInt64.toNat_inj.mp (by omega)
    have hempty : b.length = 0 := UInt64.toNat_inj.mp (by
      rw [UInt64.toNat_zero]
      omega)
    have hlength : a.length = 0 := by
      by_contra hne
      exact hnot ⟨hoffset,hempty,hne⟩
    rw [fileEnd,hlength,UInt64.toNat_zero,hoffset]
    exact le_rfl

/-- The order by offset in which a rank decides between equal offsets. -/
def sortByRank (rank : ArtifactSection → ℕ) (sections : List ArtifactSection) :
    List ArtifactSection :=
  sections.insertionSort fun lhs rhs =>
    toLex (lhs.offset.toNat,rank lhs) ≤ toLex (rhs.offset.toNat,rank rhs)

theorem sortByRank_ordered (rank : ArtifactSection → ℕ) (sections : List ArtifactSection) :
    (sortByRank rank sections).Pairwise fun lhs rhs => lhs.offset.toNat < rhs.offset.toNat ∨
      lhs.offset.toNat = rhs.offset.toNat ∧ rank lhs ≤ rank rhs := by
  have hsorted := List.pairwise_insertionSort (fun lhs rhs : ArtifactSection =>
    toLex (lhs.offset.toNat,rank lhs) ≤ toLex (rhs.offset.toNat,rank rhs)) sections
  exact hsorted.imp fun h => Prod.Lex.toLex_le_toLex.mp h

theorem sortByRank_offsetOrder (rank : ArtifactSection → ℕ) : OffsetOrder (sortByRank rank) where
  perm sections := List.perm_insertionSort _ sections
  ordered sections := by
    refine (sortByRank_ordered rank sections).imp ?_
    intro a b h
    rw [UInt64.le_iff_toNat_le]
    omega

/-- The order that puts the empty sections first at their offset lets no tie through. -/
theorem emptyFirst_noTie (sections : List ArtifactSection) :
    (sortByRank (fun entry => entry.length.toNat) sections).Pairwise fun a b => ¬Tie b a := by
  refine (sortByRank_ordered _ sections).imp ?_
  rintro a b h ⟨hoffset,hempty,hne⟩
  rw [hoffset,hempty,UInt64.toNat_zero] at h
  have hlength : a.length = 0 := UInt64.toNat_inj.mp (by
    rw [UInt64.toNat_zero]
    omega)
  exact hne hlength

/-- The order that puts the empty sections last fails at every tie. -/
theorem emptyLast_fails {sections : List ArtifactSection} {previousEnd : ℕ}
    (hend : ∀ entry ∈ sections, entry.fileEnd < 2^64) {a b : ArtifactSection} (ha : a ∈ sections)
    (hb : b ∈ sections) (htie : Tie a b) :
    checkOverlap previousEnd
      (sortByRank (fun entry => if entry.length = 0 then 1 else 0) sections) ≠ .ok () := by
  intro hok
  have horder := sortByRank_offsetOrder fun entry => if entry.length = 0 then 1 else 0
  have hperm := horder.perm sections
  rw [checkOverlap_eq_ok fun entry hentry => hend entry (hperm.mem_iff.mp hentry)] at hok
  let untied (x y : ArtifactSection) : Prop := ¬Tie x y ∧ ¬Tie y x
  have hsymm : Std.Symm untied := { symm := fun x y h => h.symm }
  have huntied : (sortByRank (fun entry => if entry.length = 0 then 1 else 0) sections).Pairwise
      untied := by
    refine ((sortByRank_ordered _ sections).and hok.2).imp ?_
    rintro x y ⟨hrank,hle⟩
    refine ⟨?_,?_⟩
    · rintro ⟨hoffset,hempty,hne⟩
      rw [hoffset,if_pos hempty,if_neg hne] at hrank
      omega
    · rintro ⟨hoffset,hempty,hne⟩
      have hpos : x.length.toNat ≠ 0 := fun hzero => hne (UInt64.toNat_inj.mp hzero)
      rw [fileEnd,hoffset] at hle
      omega
  have hne : a ≠ b := by
    rintro rfl
    exact htie.2.2 htie.2.1
  exact (huntied.forall (hperm.mem_iff.mpr ha) (hperm.mem_iff.mpr hb) hne).1 htie

def directoryEnd (header : ArtifactHeader) : ℕ :=
  kArtifactHeaderSize+header.sectionCount.toNat*kArtifactSectionEntrySize

/-- Everything `ParseArtifact` checks of a file but the overlap of its sections, with what
it reads on the way. -/
structure Described (bytes : Bytes) (options : ArtifactValidationOptions) (header : ArtifactHeader)
    (sections : List ArtifactSection) (layout : CompiledRowLayout)
    (progress : List ArtifactSourceProgress) : Prop where
  header_read : readHeader bytes = .ok header
  expected : checkExpectations header options = .ok ()
  directory : directoryEnd header ≤ bytes.length
  sections_read : readSections bytes header.shardCount header.sectionCount.toNat 0 [] = .ok sections
  checksums : checkChecksums bytes sections = .ok ()
  schema_read : ∃ schemaSection,
    findSection sections .kSchemaMetadata kArtifactGlobalShardId = some schemaSection ∧
      parseSchemaSection (sectionBytes bytes schemaSection) header.schemaVersion
        header.layoutFingerprint = .ok layout
  progress_read : readProgress bytes sections options.sourceProgressPolicy = .ok progress

/-- The artifact that `ParseArtifact` returns. -/
def parsedArtifact (bytes : Bytes) (header : ArtifactHeader) (sections : List ArtifactSection)
    (layout : CompiledRowLayout) (progress : List ArtifactSourceProgress) : ParsedArtifact where
  artifactId := slice bytes kArtifactIdOffset header.artifactIdLength.toNat
  shardCount := header.shardCount
  hashSeed := header.hashSeed
  hashVersion := header.hashVersion
  schemaVersion := header.schemaVersion
  layoutFingerprint := header.layoutFingerprint
  layout := layout
  sourceProgress := progress
  sections := sections
  bytes := bytes

theorem directory_fits_iff (header : ArtifactHeader) (bytes : Bytes) :
    (decide (header.sectionCount.toNat*kArtifactSectionEntrySize > uint64Max-kArtifactHeaderSize) ||
      decide (kArtifactHeaderSize+header.sectionCount.toNat*kArtifactSectionEntrySize >
        bytes.length)) = false ↔ directoryEnd header ≤ bytes.length := by
  have hlt := header.sectionCount.toNat_lt
  rw [Bool.or_eq_false_iff,decide_eq_false_iff_not,decide_eq_false_iff_not,directoryEnd,
    kArtifactSectionEntrySize,kArtifactHeaderSize,uint64Max]
  omega

theorem parseArtifactWith_eq_ok {sort : List ArtifactSection → List ArtifactSection} {bytes : Bytes}
    {options : ArtifactValidationOptions} {parsed : ParsedArtifact} :
    parseArtifactWith sort bytes options = .ok parsed ↔
      ∃ header sections layout progress, Described bytes options header sections layout progress ∧
        checkOverlap (directoryEnd header) (sort sections) = .ok () ∧
          parsed = parsedArtifact bytes header sections layout progress := by
  constructor
  · intro h
    simp only [parseArtifactWith,bind_eq_ok,failIf_eq_ok,exists_const,directory_fits_iff] at h
    obtain ⟨header,hheader,_,hexpected,hdirectory,sections,hsections,_,hoverlap,_,hchecksums,h⟩ := h
    cases hfind : findSection sections .kSchemaMetadata kArtifactGlobalShardId with
    | none =>
      rw [hfind] at h
      cases h
    | some schemaSection =>
      simp only [hfind,bind_eq_ok,pure_eq_ok,Except.ok.injEq] at h
      obtain ⟨layout,hlayout,progress,hprogress,rfl⟩ := h
      exact ⟨header,sections,layout,progress,⟨hheader,hexpected,hdirectory,hsections,hchecksums,
        ⟨schemaSection,hfind,hlayout⟩,hprogress⟩,hoverlap,rfl⟩
  · rintro ⟨header,sections,layout,progress,h,hoverlap,rfl⟩
    obtain ⟨schemaSection,hfind,hlayout⟩ := h.schema_read
    have hdirectory := (directory_fits_iff header bytes).mpr h.directory
    rw [directoryEnd] at hoverlap
    simp only [parseArtifactWith,h.header_read,h.expected,hdirectory,h.sections_read,hoverlap,
      h.checksums,hfind,hlayout,h.progress_read,ok_bind,failIf_false,pure_eq_ok]
    rfl

theorem of_ite_eq_ok {α : Type} {c : Prop} [Decidable c] {a b : α} {rest : StatusOr α}
    (h : (if c then .ok a else rest) = .ok b) : c ∧ a = b ∨ rest = .ok b := by
  by_cases hc : c
  · rw [if_pos hc] at h
    exact Or.inl ⟨hc,Except.ok.inj h⟩
  · rw [if_neg hc] at h
    exact Or.inr h

theorem decodeSectionType_eq_ok {value : UInt32} {type : ArtifactSectionType} :
    decodeSectionType value = .ok type ↔ type.raw = value := by
  constructor
  · intro h
    rw [decodeSectionType] at h
    iterate 9
      rcases of_ite_eq_ok h with ⟨rfl,rfl⟩ | h
      · rfl
    cases h
  · rintro rfl
    exact decodeSectionType_raw type

/-- A directory entry that `ParseArtifact` takes over, with the position it is read at. -/
structure EntryAt (bytes : Bytes) (shardCount : UInt32) (position : ℕ) (entry : ArtifactSection) :
    Prop where
  type : readLittleEndian UInt32 bytes (position+kEntryTypeOffset) = .ok entry.type.raw
  shardId : readLittleEndian UInt32 bytes (position+kEntryShardIdOffset) = .ok entry.shardId
  offset : readLittleEndian UInt64 bytes (position+kEntryFileOffsetOffset) = .ok entry.offset
  length : readLittleEndian UInt64 bytes (position+kEntryLengthOffset) = .ok entry.length
  checksum : readLittleEndian UInt64 bytes (position+kEntryChecksumOffset) = .ok entry.checksum
  shard : entry.shardId = kArtifactGlobalShardId ∨ entry.shardId < shardCount
  inside : entry.fileEnd ≤ bytes.length

theorem readOr_eq_ok {T : Type} [LittleEndianInteger T] {message : String} {bytes : Bytes}
    {offset : ℕ} {v : T} :
    readOr T message bytes offset = .ok v ↔ readLittleEndian T bytes offset = .ok v := by
  rw [readOr]
  cases readLittleEndian T bytes offset with
  | error e => simp
  | ok w => simp

def sectionKey (entry : ArtifactSection) : UInt32×UInt32 := (entry.type.raw,entry.shardId)

theorem readSectionEntry_eq_ok {bytes : Bytes} {shardCount : UInt32} {i : ℕ}
    {seen : List (UInt32×UInt32)} {entry : ArtifactSection} :
    readSectionEntry bytes shardCount i seen = .ok entry ↔
      EntryAt bytes shardCount (entryOffset i) entry ∧ sectionKey entry ∉ seen := by
  simp only [readSectionEntry,bind_eq_ok,readOr_eq_ok,decodeSectionType_eq_ok,failIf_eq_ok,
    exists_const,checkBounds,pure_eq_ok,Except.ok.injEq]
  constructor
  · rintro ⟨_,htype,shardId,hshard,offset,hoffset,length,hlength,checksum,hchecksum,type,rfl,hvalid,
      hnew,hbounds,rfl⟩
    simp only [Bool.and_eq_false_iff,bne_eq_false_iff_eq,decide_eq_false_iff_not,ge_iff_le,
      UInt32.not_le] at hvalid
    simp only [Bool.or_eq_false_iff,decide_eq_false_iff_not] at hbounds
    refine ⟨⟨htype,hshard,hoffset,hlength,hchecksum,hvalid,?_⟩,by simpa [sectionKey] using hnew⟩
    show offset.toNat+length.toNat ≤ bytes.length
    omega
  · rintro ⟨h,hnew⟩
    have hinside := h.inside
    rw [fileEnd] at hinside
    refine ⟨_,h.type,_,h.shardId,_,h.offset,_,h.length,_,h.checksum,_,rfl,?_,?_,?_,rfl⟩
    · simpa only [Bool.and_eq_false_iff,bne_eq_false_iff_eq,decide_eq_false_iff_not,ge_iff_le,
        UInt32.not_le] using h.shard
    · simpa [sectionKey] using hnew
    · simp only [Bool.or_eq_false_iff,decide_eq_false_iff_not]
      omega

theorem readSections_eq_ok {bytes : Bytes} {shardCount : UInt32} {n i : ℕ}
    {seen : List (UInt32×UInt32)} {sections : List ArtifactSection} :
    readSections bytes shardCount n i seen = .ok sections ↔
      sections.length = n ∧
      (∀ k (h : k < sections.length), EntryAt bytes shardCount (entryOffset (i+k)) sections[k]) ∧
      (sections.map sectionKey).Nodup ∧ ∀ entry ∈ sections, sectionKey entry ∉ seen := by
  induction n generalizing i seen sections with
  | zero =>
    simp only [readSections,Except.ok.injEq,List.length_eq_zero_iff]
    constructor
    · rintro rfl
      simp
    · rintro ⟨rfl,-⟩
      rfl
  | succ n ih =>
    simp only [readSections,bind_eq_ok,readSectionEntry_eq_ok,ih,pure_eq_ok,Except.ok.injEq]
    constructor
    · rintro ⟨entry,⟨hentry,hnew⟩,rest,⟨hlen,hall,hnodup,hseen⟩,rfl⟩
      refine ⟨by rw [List.length_cons,hlen],?_,?_,?_⟩
      · intro k hk
        cases k with
        | zero => exact hentry
        | succ k =>
          have hnext := hall k (by simpa using hk)
          rw [Nat.add_right_comm,Nat.add_assoc] at hnext
          exact hnext
      · rw [List.map_cons,List.nodup_cons]
        refine ⟨?_,hnodup⟩
        intro hmem
        obtain ⟨other,hother,hkey⟩ := List.mem_map.mp hmem
        exact hseen other hother (by rw [hkey]; exact List.mem_cons_self)
      · intro other hother
        rcases List.mem_cons.mp hother with rfl | hother
        · exact hnew
        · exact fun hmem => hseen other hother (List.mem_cons_of_mem _ hmem)
    · rintro ⟨hlen,hall,hnodup,hseen⟩
      cases sections with
      | nil => cases hlen
      | cons entry rest =>
        rw [List.map_cons,List.nodup_cons] at hnodup
        refine ⟨entry,⟨hall 0 (by simp),hseen entry List.mem_cons_self⟩,rest,⟨?_,?_,hnodup.2,?_⟩,rfl⟩
        · simpa using hlen
        · intro k hk
          have hnext := hall (k+1) (by simpa using hk)
          rw [Nat.add_right_comm,Nat.add_assoc]
          exact hnext
        · intro other hother hmem
          rcases List.mem_cons.mp hmem with hkey | hmem
          · have hmap : sectionKey other ∈ rest.map sectionKey := List.mem_map_of_mem hother
            rw [hkey] at hmap
            exact hnodup.1 hmap
          · exact hseen other (List.mem_cons_of_mem _ hother) hmem

/-- What a source progress section must hold to be accepted. -/
structure ValidProgress (progress : List ArtifactSourceProgress) : Prop where
  valid : ∀ entry ∈ progress, entry.topic ≠ [] ∧ 0 ≤ entry.partition ∧
    0 ≤ entry.checkpointNextOffset ∧ entry.checkpointNextOffset ≤ entry.highWatermark
  unique : (progress.map fun entry => (entry.topic,entry.partition)).Nodup

theorem ValidProgress.nil : ValidProgress [] := ⟨by simp,by simp⟩

theorem readSourceProgressEntry_valid {progress progress' : List ArtifactSourceProgress}
    {bytes : Bytes} {cursor next : ℕ} (hp : ValidProgress progress)
    (h : readSourceProgressEntry progress bytes cursor = .ok (progress',next)) :
    ValidProgress progress' := by
  simp only [readSourceProgressEntry,ByteReader.bind_returns,ByteReader.lift_returns,
    ByteReader.pure_returns,failIf_eq_ok] at h
  obtain ⟨topic,_,-,partition,_,-,checkpoint,_,-,highWatermark,_,-,_,_,⟨hvalid,-⟩,_,_,⟨hnew,-⟩,rfl,
    -⟩ := h
  simp only [Bool.or_eq_false_iff,decide_eq_false_iff_not,Int32.not_lt,Int64.not_lt,
    List.isEmpty_eq_false_iff] at hvalid
  obtain ⟨⟨⟨htopic,hpartition⟩,hcheckpoint⟩,hwatermark⟩ := hvalid
  refine ⟨?_,?_⟩
  · intro entry hentry
    rcases List.mem_append.mp hentry with hentry | hentry
    · exact hp.valid entry hentry
    · rw [List.mem_singleton.mp hentry]
      exact ⟨htopic,hpartition,hcheckpoint,hwatermark⟩
  · rw [List.map_append,List.map_singleton,List.nodup_append]
    refine ⟨hp.unique,by simp,?_⟩
    intro key hkey other hother
    obtain ⟨entry,hentry,rfl⟩ := List.mem_map.mp hkey
    rw [List.mem_singleton.mp hother]
    simp only [List.any_eq_false,decide_eq_true_eq] at hnew
    intro heq
    exact hnew entry hentry (Prod.mk.inj heq)

theorem parseSourceProgressSection_valid {bytes : Bytes} {progress : List ArtifactSourceProgress}
    (h : parseSourceProgressSection bytes = .ok progress) : ValidProgress progress := by
  simp only [parseSourceProgressSection,bind_eq_ok,failIf_eq_ok,exists_const,pure_eq_ok,
    Except.ok.injEq] at h
  obtain ⟨⟨parsed,next⟩,hread,-,rfl⟩ := h
  obtain ⟨count,cursor,-,hloop⟩ := ByteReader.bind_returns.mp hread
  refine ByteReader.iterate_invariant ValidProgress ?_ ValidProgress.nil hloop
  intro s c s' c' hs hbody
  exact readSourceProgressEntry_valid hs hbody

theorem readProgress_valid {bytes : Bytes} {sections : List ArtifactSection}
    {policy : ArtifactSourceProgressPolicy} {progress : List ArtifactSourceProgress}
    (h : readProgress bytes sections policy = .ok progress) : ValidProgress progress := by
  rw [readProgress] at h
  cases hfind : findSection sections .kSourceProgress kArtifactGlobalShardId with
  | none =>
    rw [hfind] at h
    by_cases hpolicy : policy = .kOptional
    · simp only [hpolicy,if_true,Except.ok.injEq] at h
      rw [← h]
      exact ValidProgress.nil
    · simp [hpolicy] at h
  | some progressSection =>
    rw [hfind] at h
    exact parseSourceProgressSection_valid h

theorem addField_version {schema schema' : RuntimeSchema} {field : FieldSpec}
    (h : schema.addField field = .ok schema') : schema'.version = schema.version := by
  simp only [RuntimeSchema.addField,bind_eq_ok,pure_eq_ok,Except.ok.injEq] at h
  obtain ⟨_,-,_,-,rfl⟩ := h
  rfl

theorem readSchemaField_version {schema schema' : RuntimeSchema} {bytes : Bytes} {cursor next : ℕ}
    (h : readSchemaField schema bytes cursor = .ok (schema',next)) :
    schema'.version = schema.version := by
  simp only [readSchemaField,ByteReader.bind_returns,ByteReader.lift_returns] at h
  obtain ⟨_,_,-,_,_,-,_,_,-,_,_,-,hadd,-⟩ := h
  exact addField_version hadd

/-- The layout of an accepted schema section has the expected version and fingerprint. -/
theorem parseSchemaSection_layout {bytes : Bytes} {schemaVersion layoutFingerprint : UInt64}
    {layout : CompiledRowLayout}
    (h : parseSchemaSection bytes schemaVersion layoutFingerprint = .ok layout) :
    layout.schemaVersion = schemaVersion ∧ layout.layoutFingerprint = layoutFingerprint := by
  simp only [parseSchemaSection,bind_eq_ok,failIf_eq_ok,exists_const,pure_eq_ok,Except.ok.injEq,
    bne_eq_false_iff_eq] at h
  obtain ⟨⟨schema,next⟩,hread,-,hfingerprint,rfl⟩ := h
  refine ⟨?_,hfingerprint⟩
  simp only [readSchema,ByteReader.bind_returns,ByteReader.lift_returns,failIf_eq_ok,
    bne_eq_false_iff_eq] at hread
  obtain ⟨version,_,-,_,_,⟨hversion,-⟩,_,_,-,hloop⟩ := hread
  subst hversion
  refine ByteReader.iterate_invariant (fun schema => schema.version = version) ?_ rfl hloop
  intro s c s' c' hs hbody
  rw [readSchemaField_version hbody,hs]

/-- The header of a file, as `ParseArtifact` reads and accepts it. -/
structure HeaderAt (bytes : Bytes) (header : ArtifactHeader) : Prop where
  size : kArtifactHeaderSize ≤ bytes.length
  magic : readLittleEndian UInt64 bytes kMagicOffset = .ok kArtifactMagic
  version : readLittleEndian UInt32 bytes kVersionOffset = .ok kArtifactFormatVersion
  headerSize : readLittleEndian UInt32 bytes kHeaderSizeOffset =
    .ok (UInt32.ofNat kArtifactHeaderSize)
  entrySize : readLittleEndian UInt32 bytes kEntrySizeOffset =
    .ok (UInt32.ofNat kArtifactSectionEntrySize)
  sectionCount : readLittleEndian UInt32 bytes kSectionCountOffset = .ok header.sectionCount
  checksumAlgorithm : readLittleEndian UInt32 bytes kChecksumAlgorithmOffset = .ok kFnv1a64
  shardCount : readLittleEndian UInt32 bytes kShardCountOffset = .ok header.shardCount
  hashSeed : readLittleEndian UInt64 bytes kHashSeedOffset = .ok header.hashSeed
  hashVersion : readLittleEndian UInt32 bytes kHashVersionOffset = .ok header.hashVersion
  schemaVersion : readLittleEndian UInt64 bytes kSchemaVersionOffset = .ok header.schemaVersion
  layoutFingerprint : readLittleEndian UInt64 bytes kLayoutFingerprintOffset =
    .ok header.layoutFingerprint
  artifactIdLength : readLittleEndian UInt32 bytes kArtifactIdLengthOffset =
    .ok header.artifactIdLength
  artifactId : header.artifactIdLength.toNat ≤ kArtifactIdCapacity

theorem readHeader_eq_ok {bytes : Bytes} {header : ArtifactHeader} :
    readHeader bytes = .ok header ↔ HeaderAt bytes header := by
  have hcapacity : kArtifactIdOffset+kArtifactIdCapacity = kArtifactHeaderSize := rfl
  simp only [readHeader,bind_eq_ok,failIf_eq_ok,readOr_eq_ok,exists_const,pure_eq_ok,
    Except.ok.injEq,bne_eq_false_iff_eq,Bool.or_eq_false_iff,decide_eq_false_iff_not,Nat.not_lt,
    gt_iff_lt]
  constructor
  · rintro ⟨hsize,_,hmagic,rfl,_,hversion,rfl,headerSize,hheader,entrySize,hentry,⟨hheaderSize,
      hentrySize⟩,_,hcount,_,halgorithm,_,hshard,_,hseed,_,hhash,_,hschema,_,hfingerprint,_,hid,rfl,
      ⟨hidLength,-⟩,rfl⟩
    have hheaderSize' : headerSize = UInt32.ofNat kArtifactHeaderSize :=
      UInt32.toNat_inj.mp hheaderSize
    have hentrySize' : entrySize = UInt32.ofNat kArtifactSectionEntrySize :=
      UInt32.toNat_inj.mp hentrySize
    rw [hheaderSize'] at hheader
    rw [hentrySize'] at hentry
    exact ⟨hsize,hmagic,hversion,hheader,hentry,hcount,halgorithm,hshard,hseed,hhash,hschema,
      hfingerprint,hid,hidLength⟩
  · intro h
    refine ⟨h.size,_,h.magic,rfl,_,h.version,rfl,_,h.headerSize,_,h.entrySize,⟨by decide,by decide⟩,
      _,h.sectionCount,_,h.checksumAlgorithm,_,h.shardCount,_,h.hashSeed,_,h.hashVersion,_,
      h.schemaVersion,_,h.layoutFingerprint,_,h.artifactIdLength,rfl,⟨h.artifactId,?_⟩,rfl⟩
    have hid := h.artifactId
    omega

/-- A directory that reaches the end of the 32-bit range is rejected: there the entry is read
at the start of the file, where the magic number names no section type. -/
theorem sectionCount_small {bytes : Bytes} {options : ArtifactValidationOptions}
    {header : ArtifactHeader} {sections : List ArtifactSection} {layout : CompiledRowLayout}
    {progress : List ArtifactSourceProgress}
    (h : Described bytes options header sections layout progress) :
    sections.length ≤ 2^26-2 := by
  by_contra hlong
  have hmagic := (readHeader_eq_ok.mp h.header_read).magic
  obtain ⟨-,hentries,-⟩ := readSections_eq_ok.mp h.sections_read
  have htype := (hentries (2^26-2) (by omega)).type
  have hstart : entryOffset (0+(2^26-2))+kEntryTypeOffset = 0 := by decide
  rw [hstart] at htype
  obtain ⟨hsize,hmagic⟩ := readLittleEndian_eq_ok.mp hmagic
  obtain ⟨-,htype⟩ := readLittleEndian_eq_ok.mp htype
  have hword : slice bytes 0 8 = toBytes kArtifactMagic := by
    rw [← hmagic,toBytes_ofBytes]
    · rfl
    · rw [slice_length]
      exact Nat.min_eq_left (by omega)
  have hlow : slice (slice bytes 0 8) 0 4 = slice bytes 0 4 := slice_slice (by norm_num)
  have hraw : ofBytes UInt32 (slice (toBytes kArtifactMagic) 0 4) = sections[2^26-2].type.raw := by
    rw [← hword,hlow]
    exact htype
  generalize sections[2^26-2].type = type at hraw
  cases type <;> exact absurd hraw (by decide)

theorem entryOffset_eq {i : ℕ} (h : i < 2^26-2) :
    entryOffset i = kArtifactHeaderSize+kArtifactSectionEntrySize*i := by
  rw [entryOffset,kArtifactHeaderSize,kArtifactSectionEntrySize,Nat.mod_eq_of_lt (by omega),
    Nat.mul_comm]

/-- The structure of an accepted file. -/
structure Sound (bytes : Bytes) (parsed : ParsedArtifact) : Prop where
  shardCount : readLittleEndian UInt32 bytes kShardCountOffset = .ok parsed.shardCount
  sectionCount : readLittleEndian UInt32 bytes kSectionCountOffset =
    .ok (UInt32.ofNat parsed.sections.length)
  entries : ∀ i (h : i < parsed.sections.length),
    EntryAt bytes parsed.shardCount (kArtifactHeaderSize+kArtifactSectionEntrySize*i)
      parsed.sections[i]
  behind : ∀ entry ∈ parsed.sections,
    kArtifactHeaderSize+kArtifactSectionEntrySize*parsed.sections.length ≤ entry.offset.toNat
  apart : parsed.sections.Pairwise Apart
  checksums : ∀ entry ∈ parsed.sections, fnv1a64 (sectionBytes bytes entry) = entry.checksum
  keys : (parsed.sections.map fun entry => (entry.type,entry.shardId)).Nodup
  progress : ValidProgress parsed.sourceProgress
  schemaVersion : readLittleEndian UInt64 bytes kSchemaVersionOffset =
    .ok parsed.layout.schemaVersion
  layoutFingerprint : readLittleEndian UInt64 bytes kLayoutFingerprintOffset =
    .ok parsed.layout.layoutFingerprint

theorem Described.fileEnd_lt {bytes : Bytes} {options : ArtifactValidationOptions}
    {header : ArtifactHeader} {sections : List ArtifactSection} {layout : CompiledRowLayout}
    {progress : List ArtifactSourceProgress}
    (h : Described bytes options header sections layout progress)
    (hsize : bytes.length ≤ uint64Max) : ∀ entry ∈ sections, entry.fileEnd < 2^64 := by
  obtain ⟨-,hentries,-⟩ := readSections_eq_ok.mp h.sections_read
  intro entry hentry
  obtain ⟨k,hk,rfl⟩ := List.mem_iff_getElem.mp hentry
  have hinside := (hentries k hk).inside
  rw [uint64Max] at hsize
  omega

theorem parseArtifactWith_sound {sort : List ArtifactSection → List ArtifactSection}
    (hsort : OffsetOrder sort) {bytes : Bytes} (hsize : bytes.length ≤ uint64Max)
    {options : ArtifactValidationOptions} {parsed : ParsedArtifact}
    (hparse : parseArtifactWith sort bytes options = .ok parsed) : Sound bytes parsed := by
  obtain ⟨header,sections,layout,progress,h,hoverlap,rfl⟩ := parseArtifactWith_eq_ok.mp hparse
  have hheader := readHeader_eq_ok.mp h.header_read
  obtain ⟨hcount,hentries,hkeys,-⟩ := readSections_eq_ok.mp h.sections_read
  obtain ⟨hbehind,hapart⟩ := apart_of_checkOverlap hsort (h.fileEnd_lt hsize) hoverlap
  obtain ⟨schemaSection,-,hlayout⟩ := h.schema_read
  obtain ⟨hversion,hfingerprint⟩ := parseSchemaSection_layout hlayout
  refine ⟨hheader.shardCount,?_,?_,?_,hapart,?_,?_,readProgress_valid h.progress_read,?_,?_⟩
  · show _ = Except.ok (UInt32.ofNat sections.length)
    rw [hcount,UInt32.ofNat_toNat]
    exact hheader.sectionCount
  · intro i hi
    have hsmall := sectionCount_small h
    have hentry := hentries i hi
    rw [Nat.zero_add,entryOffset_eq (lt_of_lt_of_le hi hsmall)] at hentry
    exact hentry
  · intro entry hentry
    have hle := hbehind entry hentry
    rw [directoryEnd,← hcount,Nat.mul_comm] at hle
    exact hle
  · intro entry hentry
    have hchecksums := h.checksums
    simp only [checkChecksums,failIf_eq_ok,List.any_eq_false,bne_iff_ne,ne_eq,not_not] at hchecksums
    exact hchecksums entry hentry
  · refine List.Nodup.of_map (fun key => (key.1.raw,key.2)) ?_
    rw [List.map_map]
    exact hkeys
  · show _ = Except.ok layout.schemaVersion
    rw [hversion]
    exact hheader.schemaVersion
  · show _ = Except.ok layout.layoutFingerprint
    rw [hfingerprint]
    exact hheader.layoutFingerprint

end Artifact
end KvIndex
