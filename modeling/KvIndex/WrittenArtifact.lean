import KvIndex.SchemaCodec
import KvIndex.ArtifactSound

/-! A written artifact parses: the sections stand one behind the other after the
directory, and the header and the directory are the words that the parser reads. -/
namespace KvIndex
namespace Artifact

open Base LittleEndian

structure SectionPart where
  type : ArtifactSectionType
  shardId : UInt32
  payload : Bytes

def addParts (artifact : ArtifactFile) (parts : List SectionPart) : ArtifactFile :=
  parts.foldl (fun artifact part => addSection artifact part.type part.shardId part.payload) artifact

def SectionPart.placedAt (part : SectionPart) (offset : ℕ) : ArtifactSection where
  type := part.type
  shardId := part.shardId
  offset := UInt64.ofNat offset
  length := UInt64.ofNat part.payload.length
  checksum := fnv1a64 part.payload

/-- The directory of parts that stand one behind the other from an offset on. -/
def placed (offset : ℕ) : List SectionPart → List ArtifactSection
  | [] => []
  | part::parts => part.placedAt offset::placed (offset+part.payload.length) parts

def payloads (parts : List SectionPart) : Bytes := parts.flatMap SectionPart.payload

theorem addParts_eq (artifact : ArtifactFile) (parts : List SectionPart) :
    addParts artifact parts = {
      file := artifact.file++payloads parts
      sections := artifact.sections++placed artifact.file.length parts } := by
  induction parts generalizing artifact with
  | nil => simp [addParts,payloads,placed]
  | cons part parts ih =>
    rw [addParts,List.foldl_cons,← addParts,ih]
    simp [addSection,payloads,placed,SectionPart.placedAt]

theorem addParts_append (artifact : ArtifactFile) (parts parts' : List SectionPart) :
    addParts artifact (parts++parts') = addParts (addParts artifact parts) parts' := by
  simp [addParts]

def shardParts (spec : ArtifactBuildSpec) (shard : ArtifactShardBuildSpec) :
    StatusOr (List SectionPart) := do
  let backing ← buildShardSnapshot spec shard
  let rowArena ← serializeRowPayloads backing.rowPayloads
  return [⟨.kFrozenPrimaryKeyIndex,shard.shardId,backing.frozenIndexBytes⟩,
    ⟨.kRowSlots,shard.shardId,backing.rowSlotBytes⟩,⟨.kRowArena,shard.shardId,rowArena⟩]++
      poolTypes.map fun type => ⟨type,shard.shardId,[0]⟩

theorem addShard_eq_ok {spec : ArtifactBuildSpec} {artifact artifact' : ArtifactFile}
    {shard : ArtifactShardBuildSpec} (h : addShard spec artifact shard = .ok artifact') :
    ∃ parts, shardParts spec shard = .ok parts ∧ artifact' = addParts artifact parts := by
  simp only [addShard,bind_eq_ok,pure_eq_ok,Except.ok.injEq] at h
  obtain ⟨backing,hbacking,rowArena,harena,rfl⟩ := h
  simp only [shardParts,hbacking,harena,ok_bind,pure_eq_ok,Except.ok.injEq,exists_eq_left']
  rw [addParts_append]
  simp only [addParts,List.foldl_map,List.foldl_cons,List.foldl_nil]

theorem addShards_eq_ok {spec : ArtifactBuildSpec} {shards : List ArtifactShardBuildSpec}
    {artifact artifact' : ArtifactFile} (h : shards.foldlM (addShard spec) artifact = .ok artifact') :
    ∃ partss, List.Forall₂ (fun shard parts => shardParts spec shard = .ok parts) shards partss ∧
      artifact' = addParts artifact partss.flatten := by
  induction shards generalizing artifact with
  | nil =>
    cases h
    exact ⟨[],List.Forall₂.nil,rfl⟩
  | cons shard shards ih =>
    simp only [List.foldlM_cons,bind_eq_ok] at h
    obtain ⟨middle,hshard,hrest⟩ := h
    obtain ⟨parts,hparts,rfl⟩ := addShard_eq_ok hshard
    obtain ⟨partss,hpartss,rfl⟩ := ih hrest
    refine ⟨parts::partss,List.Forall₂.cons hparts hpartss,?_⟩
    rw [List.flatten_cons,addParts_append]

def progressParts (spec : ArtifactBuildSpec) : StatusOr (List SectionPart) :=
  if spec.includeSourceProgressSection then
    (serializeSourceProgress spec.sourceProgress).map fun progress =>
      [⟨.kSourceProgress,kArtifactGlobalShardId,progress⟩]
  else .ok []

theorem progressParts_eq_ok {spec : ArtifactBuildSpec} {parts : List SectionPart}
    (h : progressParts spec = .ok parts) :
    spec.includeSourceProgressSection = false ∧ parts = [] ∨
      ∃ payload, spec.includeSourceProgressSection = true ∧
        serializeSourceProgress spec.sourceProgress = .ok payload ∧
          parts = [⟨.kSourceProgress,kArtifactGlobalShardId,payload⟩] := by
  rw [progressParts] at h
  cases hinclude : spec.includeSourceProgressSection with
  | false =>
    simp only [hinclude,Bool.false_eq_true,if_false,Except.ok.injEq] at h
    exact Or.inl ⟨rfl,h.symm⟩
  | true =>
    simp only [hinclude,if_true] at h
    cases hserialized : serializeSourceProgress spec.sourceProgress with
    | error status =>
      rw [hserialized] at h
      cases h
    | ok payload =>
      rw [hserialized] at h
      cases h
      exact Or.inr ⟨payload,rfl,rfl,rfl⟩

theorem addSections_eq_ok {spec : ArtifactBuildSpec} {layout : CompiledRowLayout}
    {selected : List ArtifactShardBuildSpec} {artifact artifact' : ArtifactFile}
    (h : addSections spec layout selected artifact = .ok artifact') :
    ∃ schema progress partss, serializeSchema layout = .ok schema ∧
      progressParts spec = .ok progress ∧
      List.Forall₂ (fun shard parts => shardParts spec shard = .ok parts) selected partss ∧
      artifact' = addParts artifact
        (⟨.kSchemaMetadata,kArtifactGlobalShardId,schema⟩::(progress++partss.flatten)) := by
  simp only [addSections,bind_eq_ok] at h
  obtain ⟨schema,hschema,hrest⟩ := h
  cases hinclude : spec.includeSourceProgressSection with
  | true =>
    simp only [hinclude,if_true] at hrest
    cases hprogress : serializeSourceProgress spec.sourceProgress with
    | error status =>
      rw [hprogress] at hrest
      cases hrest
    | ok progress =>
      rw [hprogress] at hrest
      obtain ⟨partss,hpartss,rfl⟩ := addShards_eq_ok hrest
      refine ⟨schema,[⟨.kSourceProgress,kArtifactGlobalShardId,progress⟩],partss,hschema,?_,hpartss,
        rfl⟩
      rw [progressParts,if_pos hinclude,hprogress]
      rfl
  | false =>
    simp only [hinclude,Bool.false_eq_true,if_false] at hrest
    obtain ⟨partss,hpartss,rfl⟩ := addShards_eq_ok hrest
    exact ⟨schema,[],partss,hschema,by simp [progressParts,hinclude],hpartss,rfl⟩

theorem placed_length (offset : ℕ) (parts : List SectionPart) :
    (placed offset parts).length = parts.length := by
  induction parts generalizing offset with
  | nil => rfl
  | cons part parts ih => rw [placed,List.length_cons,ih,List.length_cons]

def SectionPart.key (part : SectionPart) : ArtifactSectionType×UInt32 := (part.type,part.shardId)

theorem placed_keys (offset : ℕ) (parts : List SectionPart) :
    (placed offset parts).map (fun entry => (entry.type,entry.shardId)) =
      parts.map SectionPart.key := by
  induction parts generalizing offset with
  | nil => rfl
  | cons part parts ih => simp [placed,ih,SectionPart.key,SectionPart.placedAt]

theorem placed_append (offset : ℕ) (parts parts' : List SectionPart) :
    placed offset (parts++parts') =
      placed offset parts++placed (offset+(payloads parts).length) parts' := by
  induction parts generalizing offset with
  | nil => rfl
  | cons part parts ih =>
    simp only [List.cons_append,placed,ih,payloads,List.flatMap_cons,List.length_append,
      Nat.add_assoc]

theorem payloads_cons (part : SectionPart) (parts : List SectionPart) :
    payloads (part::parts) = part.payload++payloads parts := rfl

theorem findSection_eq_find (sections : List ArtifactSection) (type : ArtifactSectionType)
    (shardId : UInt32) :
    findSection sections type shardId =
      FirstWins.find (fun entry => (entry.type,entry.shardId)) sections (type,shardId) := by
  simp only [findSection,FirstWins.find,Prod.mk.injEq]

theorem exists_of_mem_right {α β : Type} {R : α → β → Prop} {l : List α} {m : List β}
    (h : List.Forall₂ R l m) {b : β} (hb : b ∈ m) : ∃ a ∈ l, R a b := by
  induction h with
  | nil => cases hb
  | @cons a c l m hac _ ih =>
    rcases List.mem_cons.mp hb with rfl | hb
    · exact ⟨a,List.mem_cons_self,hac⟩
    · obtain ⟨a',ha',hr⟩ := ih hb
      exact ⟨a',List.mem_cons_of_mem _ ha',hr⟩

structure PlacedPart (bytes : Bytes) (start : ℕ) (part : SectionPart) (entry : ArtifactSection) :
    Prop where
  type : entry.type = part.type
  shardId : entry.shardId = part.shardId
  payload : sectionBytes bytes entry = part.payload
  checksum : entry.checksum = fnv1a64 part.payload
  length : entry.length.toNat = part.payload.length
  behind : start ≤ entry.offset.toNat
  inside : entry.fileEnd ≤ bytes.length

theorem PlacedPart.mono {bytes : Bytes} {start start' : ℕ} {part : SectionPart}
    {entry : ArtifactSection} (h : PlacedPart bytes start part entry) (hle : start' ≤ start) :
    PlacedPart bytes start' part entry :=
  { h with behind := hle.trans h.behind }

/-- The parts stand in the file where the directory says, one behind the other. -/
theorem placed_spec {bytes : Bytes} (hsize : bytes.length ≤ uint64Max) {parts : List SectionPart}
    {offset : ℕ} (hwhole : slice bytes offset (payloads parts).length = payloads parts)
    (hfit : offset+(payloads parts).length ≤ bytes.length) :
    List.Forall₂ (PlacedPart bytes offset) parts (placed offset parts) ∧
      (placed offset parts).Pairwise fun a b => a.fileEnd ≤ b.offset.toNat := by
  induction parts generalizing offset with
  | nil => exact ⟨List.Forall₂.nil,List.Pairwise.nil⟩
  | cons part parts ih =>
    rw [payloads_cons,List.length_append] at hfit hwhole
    have hoffset : (UInt64.ofNat offset).toNat = offset := uint64_toNat (by omega)
    have hlength : (UInt64.ofNat part.payload.length).toNat = part.payload.length :=
      uint64_toNat (by omega)
    have hfirst : slice bytes (offset+0) part.payload.length = part.payload := by
      rw [← slice_slice (show 0+part.payload.length ≤
        part.payload.length+(payloads parts).length by omega),hwhole]
      simp [slice]
    have hrest : slice bytes (offset+part.payload.length) (payloads parts).length =
        payloads parts := by
      rw [← slice_slice (le_refl (part.payload.length+(payloads parts).length)),hwhole]
      simp [slice]
    obtain ⟨hparts,hpairs⟩ := ih hrest (by omega)
    refine ⟨List.Forall₂.cons ⟨rfl,rfl,?_,rfl,hlength,?_,?_⟩ ?_,List.Pairwise.cons ?_ hpairs⟩
    · rw [sectionBytes,SectionPart.placedAt,hoffset,hlength]
      exact hfirst
    · exact hoffset.ge
    · rw [ArtifactSection.fileEnd,SectionPart.placedAt,hoffset,hlength]
      omega
    · exact hparts.imp fun _ _ h => h.mono (Nat.le_add_right _ _)
    · intro entry hentry
      obtain ⟨other,-,hother⟩ := exists_of_mem_right hparts hentry
      show (UInt64.ofNat offset).toNat+(UInt64.ofNat part.payload.length).toNat ≤ _
      rw [hoffset,hlength]
      exact hother.behind

/-- What a successful write has computed. -/
structure Written (spec : ArtifactBuildSpec) (selected : List ArtifactShardBuildSpec)
    (layout : CompiledRowLayout) (parts : List SectionPart) (bytes : Bytes) : Prop where
  layout_eq : spec.layout = some layout
  artifactId : spec.artifactId.length ≤ kArtifactIdCapacity
  shardCount : spec.shardCount ≠ 0
  nonempty : selected ≠ []
  selection : checkSelection spec.shardCount [] selected = .ok ()
  parts_eq : ∃ schema progress partss, serializeSchema layout = .ok schema ∧
    progressParts spec = .ok progress ∧
    List.Forall₂ (fun shard parts => shardParts spec shard = .ok parts) selected partss ∧
    parts = ⟨.kSchemaMetadata,kArtifactGlobalShardId,schema⟩::(progress++partss.flatten)
  sectionCount : parts.length = (sectionCountOf spec selected).toNat
  bytes_eq : (headerFields spec layout (sectionCountOf spec selected)++
    ((placed (emptyFile (sectionCountOf spec selected)).length parts).mapIdx entryFields).flatten
      ).foldlM writeBytesAt (emptyFile (sectionCountOf spec selected)++payloads parts) = .ok bytes

theorem writeArtifactWithShards_written {spec : ArtifactBuildSpec}
    {selected : List ArtifactShardBuildSpec} {bytes : Bytes}
    (h : writeArtifactWithShards spec selected = .ok bytes) :
    ∃ layout parts, Written spec selected layout parts bytes := by
  rw [writeArtifactWithShards] at h
  cases hlayout : spec.layout with
  | none =>
    rw [hlayout] at h
    cases h
  | some layout =>
    simp only [hlayout,bind_eq_ok,failIf_eq_ok,exists_const,decide_eq_false_iff_not,gt_iff_lt,
      Nat.not_lt,beq_eq_false_iff_ne,bne_eq_false_iff_eq,List.isEmpty_eq_false_iff] at h
    obtain ⟨hid,hshards,hnonempty,_,hselection,artifact,hsections,hcount,file,hheader,hentries⟩ := h
    obtain ⟨schema,progress,partss,hschema,hprogress,hpartss,rfl⟩ := addSections_eq_ok hsections
    rw [addParts_eq] at hcount hheader hentries
    simp only [List.nil_append] at hcount hentries
    rw [placed_length] at hcount
    refine ⟨layout,_,hlayout,hid,hshards,hnonempty,hselection,
      ⟨schema,progress,partss,hschema,hprogress,hpartss,rfl⟩,hcount,?_⟩
    rw [List.foldlM_append,hheader,ok_bind]
    exact hentries

theorem emptyFile_length {sectionCount : UInt32} (h : sectionCount.toNat < 2^26-2) :
    (emptyFile sectionCount).length =
      kArtifactHeaderSize+sectionCount.toNat*kArtifactSectionEntrySize := by
  rw [emptyFile,List.length_replicate,kArtifactHeaderSize,kArtifactSectionEntrySize]
  exact Nat.mod_eq_of_lt (by omega)

/-- One write ends before the other starts. -/
def Before (v w : ℕ×Bytes) : Prop := v.1+v.2.length ≤ w.1

theorem headerFields_before (spec : ArtifactBuildSpec) (layout : CompiledRowLayout)
    (sectionCount : UInt32) : (headerFields spec layout sectionCount).Pairwise Before := by
  simp [headerFields,Before,size,kMagicOffset,kVersionOffset,kHeaderSizeOffset,kEntrySizeOffset,
    kSectionCountOffset,kChecksumAlgorithmOffset,kShardCountOffset,kHashSeedOffset,
    kHashVersionOffset,kSchemaVersionOffset,kLayoutFingerprintOffset,kArtifactIdLengthOffset,
    kArtifactIdOffset]

theorem headerFields_inside {spec : ArtifactBuildSpec} {layout : CompiledRowLayout}
    {sectionCount : UInt32} (hid : spec.artifactId.length ≤ kArtifactIdCapacity) :
    ∀ w ∈ headerFields spec layout sectionCount, w.1+w.2.length ≤ kArtifactHeaderSize := by
  have hlast : 68+spec.artifactId.length ≤ 128 := by
    rw [kArtifactIdCapacity] at hid
    omega
  simp [headerFields,size,kMagicOffset,kVersionOffset,kHeaderSizeOffset,kEntrySizeOffset,
    kSectionCountOffset,kChecksumAlgorithmOffset,kShardCountOffset,kHashSeedOffset,
    kHashVersionOffset,kSchemaVersionOffset,kLayoutFingerprintOffset,kArtifactIdLengthOffset,
    kArtifactIdOffset,kArtifactHeaderSize,hlast]

def entryStart (i : ℕ) : ℕ := kArtifactHeaderSize+i*kArtifactSectionEntrySize

theorem entryStart_succ (i : ℕ) : entryStart (i+1) = entryStart i+64 := by
  rw [entryStart,entryStart,kArtifactSectionEntrySize,Nat.add_mul,Nat.one_mul,Nat.add_assoc]

theorem entryFields_eq (i : ℕ) (entry : ArtifactSection) :
    entryFields i entry = [(entryStart i,toBytes entry.type.raw),
      (entryStart i+4,toBytes entry.shardId),(entryStart i+8,toBytes entry.offset),
      (entryStart i+16,toBytes entry.length),(entryStart i+24,toBytes entry.checksum)] := rfl

theorem entryFields_before (i : ℕ) (entry : ArtifactSection) :
    (entryFields i entry).Pairwise Before := by
  simp [entryFields_eq,Before,size]

theorem entryFields_inside (i : ℕ) (entry : ArtifactSection) :
    ∀ w ∈ entryFields i entry, entryStart i ≤ w.1 ∧ w.1+w.2.length ≤ entryStart (i+1) := by
  simp [entryFields_eq,entryStart_succ,size]

def directoryFields (sections : List ArtifactSection) : List (ℕ×Bytes) :=
  (sections.mapIdx entryFields).flatten

theorem mem_directoryFields {sections : List ArtifactSection} {w : ℕ×Bytes} :
    w ∈ directoryFields sections ↔
      ∃ i, ∃ h : i < sections.length, w ∈ entryFields i sections[i] := by
  simp only [directoryFields,List.mem_flatten,List.mem_mapIdx]
  constructor
  · rintro ⟨_,⟨i,hi,rfl⟩,hw⟩
    exact ⟨i,hi,hw⟩
  · rintro ⟨i,hi,hw⟩
    exact ⟨_,⟨i,hi,rfl⟩,hw⟩

theorem entryStart_mono {i j : ℕ} (h : i ≤ j) : entryStart i ≤ entryStart j :=
  Nat.add_le_add_left (Nat.mul_le_mul_right _ h) _

theorem directoryFields_inside (sections : List ArtifactSection) :
    ∀ w ∈ directoryFields sections,
      kArtifactHeaderSize ≤ w.1 ∧ w.1+w.2.length ≤ entryStart sections.length := by
  intro w hw
  obtain ⟨i,hi,hw⟩ := mem_directoryFields.mp hw
  obtain ⟨hstart,hend⟩ := entryFields_inside i _ w hw
  exact ⟨(Nat.le_add_right _ _).trans hstart,hend.trans (entryStart_mono hi)⟩

theorem directoryFields_before (sections : List ArtifactSection) :
    (directoryFields sections).Pairwise Before := by
  rw [directoryFields,List.pairwise_flatten]
  refine ⟨?_,?_⟩
  · intro fields hfields
    obtain ⟨i,hi,rfl⟩ := List.mem_mapIdx.mp hfields
    exact entryFields_before i _
  · rw [List.pairwise_iff_getElem]
    intro i j hi hj hij v hv w hw
    rw [List.getElem_mapIdx] at hv hw
    have hv' := (entryFields_inside i _ v hv).2
    have hw' := (entryFields_inside j _ w hw).1
    exact hv'.trans ((entryStart_mono hij).trans hw')

/-- The words of the header and of a directory stand one behind the other. -/
theorem words_before {spec : ArtifactBuildSpec} {layout : CompiledRowLayout} {sectionCount : UInt32}
    (hid : spec.artifactId.length ≤ kArtifactIdCapacity) (sections : List ArtifactSection) :
    (headerFields spec layout sectionCount++directoryFields sections).Pairwise Before := by
  rw [List.pairwise_append]
  refine ⟨headerFields_before _ _ _,directoryFields_before _,?_⟩
  intro v hv w hw
  exact (headerFields_inside hid v hv).trans (directoryFields_inside _ w hw).1

theorem words_inside {spec : ArtifactBuildSpec} {layout : CompiledRowLayout} {sectionCount : UInt32}
    (hid : spec.artifactId.length ≤ kArtifactIdCapacity) (sections : List ArtifactSection) :
    ∀ w ∈ headerFields spec layout sectionCount++directoryFields sections,
      w.1+w.2.length ≤ entryStart sections.length := by
  intro w hw
  rcases List.mem_append.mp hw with hw | hw
  · exact (headerFields_inside hid w hw).trans (Nat.le_add_right _ _)
  · exact (directoryFields_inside _ w hw).2

theorem checkSelection_eq_ok {shardCount : UInt32} {seen : List UInt32}
    {shards : List ArtifactShardBuildSpec} (h : checkSelection shardCount seen shards = .ok ()) :
    (∀ shard ∈ shards, shard.shardId < shardCount ∧ shard.shardId ∉ seen) ∧
      (shards.map ArtifactShardBuildSpec.shardId).Nodup := by
  induction shards generalizing seen with
  | nil => simp
  | cons shard shards ih =>
    simp only [checkSelection,bind_eq_ok,failIf_eq_ok,exists_const,decide_eq_false_iff_not,
      ge_iff_le,UInt32.not_le,List.contains_eq_mem] at h
    obtain ⟨hlt,hnew,hrest⟩ := h
    obtain ⟨hall,hnodup⟩ := ih hrest
    refine ⟨?_,List.nodup_cons.mpr ⟨?_,hnodup⟩⟩
    · intro other hother
      rcases List.mem_cons.mp hother with rfl | hother
      · exact ⟨hlt,hnew⟩
      · exact ⟨(hall other hother).1,fun hmem => (hall other hother).2 (List.mem_cons_of_mem _ hmem)⟩
    · intro hmem
      obtain ⟨other,hother,hid⟩ := List.mem_map.mp hmem
      exact (hall other hother).2 (by rw [hid]; exact List.mem_cons_self)

theorem raw_injective : Function.Injective ArtifactSectionType.raw := by
  intro a b h
  have hb := decodeSectionType_raw b
  rw [← h,decodeSectionType_raw] at hb
  exact Except.ok.inj hb

def shardTypes : List ArtifactSectionType :=
  [.kFrozenPrimaryKeyIndex,.kRowSlots,.kRowArena]++poolTypes

theorem shardTypes_not_global :
    ∀ type ∈ shardTypes, type ≠ .kSchemaMetadata ∧ type ≠ .kSourceProgress := by
  decide

theorem shardParts_keys {spec : ArtifactBuildSpec} {shard : ArtifactShardBuildSpec}
    {parts : List SectionPart} (h : shardParts spec shard = .ok parts) :
    parts.map SectionPart.key = shardTypes.map fun type => (type,shard.shardId) := by
  simp only [shardParts,bind_eq_ok,pure_eq_ok,Except.ok.injEq] at h
  obtain ⟨backing,-,rowArena,-,rfl⟩ := h
  rfl

theorem flatten_keys {spec : ArtifactBuildSpec} {selected : List ArtifactShardBuildSpec}
    {partss : List (List SectionPart)}
    (h : List.Forall₂ (fun shard parts => shardParts spec shard = .ok parts) selected partss) :
    partss.flatten.map SectionPart.key =
      (selected.map ArtifactShardBuildSpec.shardId).flatMap fun shardId =>
        shardTypes.map fun type => (type,shardId) := by
  induction h with
  | nil => rfl
  | cons hshard _ ih =>
    rw [List.flatten_cons,List.map_append,shardParts_keys hshard,ih,List.map_cons,List.flatMap_cons]

theorem shard_keys_nodup {shardIds : List UInt32} (h : shardIds.Nodup) :
    (shardIds.flatMap fun shardId =>
      shardTypes.map fun type => (type,shardId)).Nodup := by
  rw [List.nodup_flatMap]
  refine ⟨?_,?_⟩
  · intro shardId _
    refine List.Nodup.map (fun a b hab => (Prod.mk.inj hab).1) ?_
    decide
  · refine h.imp ?_
    intro a b hab key hka hkb
    obtain ⟨_,-,rfl⟩ := List.mem_map.mp hka
    obtain ⟨_,-,hkey⟩ := List.mem_map.mp hkb
    exact hab (Prod.mk.inj hkey).2.symm

/-- The words of the header and the directory, from the first to the last. -/
def containerFields (spec : ArtifactBuildSpec) (selected : List ArtifactShardBuildSpec)
    (layout : CompiledRowLayout) (parts : List SectionPart) : List (ℕ×Bytes) :=
  headerFields spec layout (sectionCountOf spec selected)++
    directoryFields (placed (entryStart parts.length) parts)

def writtenHeader (spec : ArtifactBuildSpec) (selected : List ArtifactShardBuildSpec)
    (layout : CompiledRowLayout) : ArtifactHeader where
  sectionCount := sectionCountOf spec selected
  shardCount := spec.shardCount
  hashSeed := spec.hashSeed
  hashVersion := spec.hashVersion
  schemaVersion := layout.schemaVersion
  layoutFingerprint := layout.layoutFingerprint
  artifactIdLength := UInt32.ofNat spec.artifactId.length

theorem writtenHeader_schemaVersion (spec : ArtifactBuildSpec)
    (selected : List ArtifactShardBuildSpec) (layout : CompiledRowLayout) :
    (writtenHeader spec selected layout).schemaVersion = layout.schemaVersion := rfl

theorem writtenHeader_layoutFingerprint (spec : ArtifactBuildSpec)
    (selected : List ArtifactShardBuildSpec) (layout : CompiledRowLayout) :
    (writtenHeader spec selected layout).layoutFingerprint = layout.layoutFingerprint := rfl

namespace Written

variable {spec : ArtifactBuildSpec} {selected : List ArtifactShardBuildSpec}
  {layout : CompiledRowLayout} {parts : List SectionPart} {bytes : Bytes}

theorem containerFields_inside (h : Written spec selected layout parts bytes) :
    ∀ w ∈ containerFields spec selected layout parts, w.1+w.2.length ≤ entryStart parts.length := by
  intro w hw
  have hinside := words_inside h.artifactId _ w hw
  rw [placed_length] at hinside
  exact hinside

theorem containerFields_before (h : Written spec selected layout parts bytes) :
    (containerFields spec selected layout parts).Pairwise Before :=
  words_before h.artifactId _

theorem emptyFile_eq (h : Written spec selected layout parts bytes)
    (hn : parts.length < 2^26-2) :
    (emptyFile (sectionCountOf spec selected)).length = entryStart parts.length := by
  have hcount := h.sectionCount
  rw [hcount] at hn
  rw [emptyFile_length hn,entryStart,hcount]

theorem file_fits (h : Written spec selected layout parts bytes) (hn : parts.length < 2^26-2) :
    ∀ w ∈ containerFields spec selected layout parts,
      w.1+w.2.length ≤ (emptyFile (sectionCountOf spec selected)++payloads parts).length := by
  intro w hw
  rw [List.length_append,h.emptyFile_eq hn]
  exact (h.containerFields_inside w hw).trans (Nat.le_add_right _ _)

theorem bytes_spliceAll (h : Written spec selected layout parts bytes)
    (hn : parts.length < 2^26-2) :
    bytes = spliceAll (emptyFile (sectionCountOf spec selected)++payloads parts)
      (containerFields spec selected layout parts) := by
  have hbytes := h.bytes_eq
  rw [h.emptyFile_eq hn,← directoryFields,← containerFields,
    foldlM_writeBytesAt (h.file_fits hn)] at hbytes
  exact (Except.ok.inj hbytes).symm

theorem length_eq (h : Written spec selected layout parts bytes) (hn : parts.length < 2^26-2) :
    bytes.length = entryStart parts.length+(payloads parts).length := by
  rw [h.bytes_spliceAll hn,spliceAll_length (h.file_fits hn),List.length_append,h.emptyFile_eq hn]

/-- Every word of the header and the directory stands in the file. -/
theorem slice_field (h : Written spec selected layout parts bytes) (hn : parts.length < 2^26-2)
    {w : ℕ×Bytes} (hw : w ∈ containerFields spec selected layout parts) :
    slice bytes w.1 w.2.length = w.2 := by
  rw [h.bytes_spliceAll hn]
  exact slice_spliceAll (h.file_fits hn) h.containerFields_before hw

/-- The header and the directory leave the sections as they were appended. -/
theorem slice_payloads (h : Written spec selected layout parts bytes)
    (hn : parts.length < 2^26-2) :
    slice bytes (entryStart parts.length) (payloads parts).length = payloads parts := by
  have hfile : slice (emptyFile (sectionCountOf spec selected)++(payloads parts++[]))
      (emptyFile (sectionCountOf spec selected)).length (payloads parts).length = payloads parts :=
    slice_middle _ _ _
  rw [List.append_nil,h.emptyFile_eq hn] at hfile
  rw [h.bytes_spliceAll hn]
  refine Eq.trans (slice_congr ?_) hfile
  intro i _
  refine spliceAll_getElem?_outside (h.file_fits hn) ?_
  intro w hw
  exact Or.inr ((h.containerFields_inside w hw).trans (Nat.le_add_right _ _))

theorem read_field (h : Written spec selected layout parts bytes) (hn : parts.length < 2^26-2)
    {T : Type} [LittleEndianInteger T] {offset : ℕ} {v : T}
    (hw : (offset,toBytes v) ∈ containerFields spec selected layout parts) :
    readLittleEndian T bytes offset = .ok v := by
  have hinside := h.containerFields_inside _ hw
  have hslice := h.slice_field hn hw
  rw [toBytes_length] at hinside hslice
  refine readLittleEndian_of_slice ?_ hslice
  rw [h.length_eq hn]
  exact hinside.trans (Nat.le_add_right _ _)

theorem header (h : Written spec selected layout parts bytes) (hn : parts.length < 2^26-2) :
    readHeader bytes = .ok (writtenHeader spec selected layout) := by
  have hmem : ∀ w ∈ headerFields spec layout (sectionCountOf spec selected),
      w ∈ containerFields spec selected layout parts := fun w hw => List.mem_append_left _ hw
  have hid : (UInt32.ofNat spec.artifactId.length).toNat = spec.artifactId.length := by
    have hlen := h.artifactId
    rw [kArtifactIdCapacity] at hlen
    exact uint32_toNat (by rw [uint32Max]; omega)
  rw [readHeader_eq_ok]
  constructor
  case size =>
    rw [h.length_eq hn,entryStart,Nat.add_assoc]
    exact Nat.le_add_right _ _
  case artifactId => exact hid.le.trans h.artifactId
  all_goals exact h.read_field hn (hmem _ (by simp [headerFields,writtenHeader]))

theorem keys_nodup (h : Written spec selected layout parts bytes) :
    (parts.map SectionPart.key).Nodup := by
  obtain ⟨schema,progress,partss,-,hprogress,hpartss,rfl⟩ := h.parts_eq
  obtain ⟨-,hids⟩ := checkSelection_eq_ok h.selection
  have hshards := shard_keys_nodup hids
  rw [← flatten_keys hpartss] at hshards
  have hother : ∀ key ∈ partss.flatten.map SectionPart.key,
      key.1 ≠ .kSchemaMetadata ∧ key.1 ≠ .kSourceProgress := by
    intro key hkey
    rw [flatten_keys hpartss] at hkey
    obtain ⟨shardId,-,hkey⟩ := List.mem_flatMap.mp hkey
    obtain ⟨type,htype,rfl⟩ := List.mem_map.mp hkey
    exact shardTypes_not_global type htype
  rcases progressParts_eq_ok hprogress with ⟨-,rfl⟩ | ⟨payload,-,-,rfl⟩
  · rw [List.nil_append,List.map_cons,List.nodup_cons]
    exact ⟨fun hmem => (hother _ hmem).1 rfl,hshards⟩
  · rw [List.singleton_append,List.map_cons,List.map_cons,List.nodup_cons,List.nodup_cons]
    refine ⟨?_,fun hmem => (hother _ hmem).2 rfl,hshards⟩
    intro hmem
    rcases List.mem_cons.mp hmem with hkey | hmem
    · exact ArtifactSectionType.noConfusion (Prod.mk.inj hkey).1
    · exact (hother _ hmem).1 rfl

theorem shardIds_valid (h : Written spec selected layout parts bytes) :
    ∀ part ∈ parts, part.shardId = kArtifactGlobalShardId ∨ part.shardId < spec.shardCount := by
  obtain ⟨schema,progress,partss,-,hprogress,hpartss,rfl⟩ := h.parts_eq
  obtain ⟨hids,-⟩ := checkSelection_eq_ok h.selection
  intro part hpart
  rcases List.mem_cons.mp hpart with rfl | hpart
  · exact Or.inl rfl
  rcases List.mem_append.mp hpart with hpart | hpart
  · rcases progressParts_eq_ok hprogress with ⟨-,rfl⟩ | ⟨payload,-,-,rfl⟩
    · cases hpart
    · rw [List.mem_singleton.mp hpart]
      exact Or.inl rfl
  · have hkey : part.key ∈ partss.flatten.map SectionPart.key := List.mem_map_of_mem hpart
    rw [flatten_keys hpartss] at hkey
    obtain ⟨shardId,hshardId,hkey⟩ := List.mem_flatMap.mp hkey
    obtain ⟨shard,hshard,rfl⟩ := List.mem_map.mp hshardId
    obtain ⟨type,-,hkey⟩ := List.mem_map.mp hkey
    have hid : shard.shardId = part.shardId := (Prod.mk.inj hkey).2
    rw [← hid]
    exact Or.inr (hids shard hshard).1

def sectionsOf (parts : List SectionPart) : List ArtifactSection :=
  placed (entryStart parts.length) parts

theorem sections_spec (h : Written spec selected layout parts bytes) (hn : parts.length < 2^26-2)
    (hsize : bytes.length ≤ uint64Max) :
    List.Forall₂ (PlacedPart bytes (entryStart parts.length)) parts (sectionsOf parts) ∧
      (sectionsOf parts).Pairwise fun a b => a.fileEnd ≤ b.offset.toNat :=
  placed_spec hsize (h.slice_payloads hn) (h.length_eq hn).ge

theorem sections_read (h : Written spec selected layout parts bytes) (hn : parts.length < 2^26-2)
    (hsize : bytes.length ≤ uint64Max) :
    readSections bytes spec.shardCount (sectionCountOf spec selected).toNat 0 [] =
      .ok (sectionsOf parts) := by
  obtain ⟨hparts,-⟩ := h.sections_spec hn hsize
  have hlength : (sectionsOf parts).length = parts.length := placed_length _ _
  rw [readSections_eq_ok]
  refine ⟨hlength.trans h.sectionCount,?_,?_,by simp⟩
  · intro i hi
    have hsmall : i < 2^26-2 := by omega
    have hstart : entryOffset (0+i) = entryStart i := by
      rw [Nat.zero_add,entryOffset_eq hsmall,entryStart,Nat.mul_comm]
    obtain ⟨part,hpart,hplaced⟩ := exists_of_mem_right hparts (List.getElem_mem hi)
    have hfield : ∀ w ∈ entryFields i (sectionsOf parts)[i],
        w ∈ containerFields spec selected layout parts := by
      intro w hw
      exact List.mem_append_right _ (mem_directoryFields.mpr ⟨i,hi,hw⟩)
    rw [hstart]
    constructor
    case shard =>
      rw [hplaced.shardId]
      exact h.shardIds_valid part hpart
    case inside => exact hplaced.inside
    all_goals exact h.read_field hn (hfield _ (by
      simp [entryFields_eq,kEntryTypeOffset,kEntryShardIdOffset,kEntryFileOffsetOffset,
        kEntryLengthOffset,kEntryChecksumOffset]))
  · have hkeys := h.keys_nodup.map (f := fun key => (key.1.raw,key.2)) ?_
    · rw [← placed_keys (entryStart parts.length),List.map_map] at hkeys
      exact hkeys
    · rintro ⟨a,i⟩ ⟨b,j⟩ hab
      obtain ⟨htype,hid⟩ := Prod.mk.inj hab
      exact Prod.ext (raw_injective htype) hid

theorem checksums (h : Written spec selected layout parts bytes) (hn : parts.length < 2^26-2)
    (hsize : bytes.length ≤ uint64Max) : checkChecksums bytes (sectionsOf parts) = .ok () := by
  obtain ⟨hparts,-⟩ := h.sections_spec hn hsize
  rw [checkChecksums,failIf_eq_ok,List.any_eq_false]
  intro entry hentry
  obtain ⟨part,-,hplaced⟩ := exists_of_mem_right hparts hentry
  simp [hplaced.payload,hplaced.checksum]

theorem directoryEnd_eq (h : Written spec selected layout parts bytes) :
    directoryEnd (writtenHeader spec selected layout) = entryStart parts.length := by
  rw [directoryEnd,entryStart,h.sectionCount]
  rfl

theorem overlap (h : Written spec selected layout parts bytes) (hn : parts.length < 2^26-2)
    (hsize : bytes.length ≤ uint64Max) :
    checkOverlap (directoryEnd (writtenHeader spec selected layout))
      (sortSections (sectionsOf parts)) = .ok () := by
  obtain ⟨hparts,hpairs⟩ := h.sections_spec hn hsize
  have hsorted : sortSections (sectionsOf parts) = sectionsOf parts := by
    refine List.Pairwise.insertionSort_eq (hpairs.imp ?_)
    intro a b hab
    rw [UInt64.le_iff_toNat_le]
    exact a.offset_le_fileEnd.trans hab
  rw [hsorted,h.directoryEnd_eq,checkOverlap_eq_ok]
  · refine ⟨?_,hpairs⟩
    intro entry hentry
    obtain ⟨part,-,hplaced⟩ := exists_of_mem_right hparts hentry
    exact hplaced.behind
  · intro entry hentry
    obtain ⟨part,-,hplaced⟩ := exists_of_mem_right hparts hentry
    have hinside := hplaced.inside
    rw [uint64Max] at hsize
    omega

theorem findSection_eq (h : Written spec selected layout parts bytes) (hn : parts.length < 2^26-2)
    (hsize : bytes.length ≤ uint64Max) {part : SectionPart} (hpart : part ∈ parts) :
    ∃ entry, findSection (sectionsOf parts) part.type part.shardId = some entry ∧
      PlacedPart bytes (entryStart parts.length) part entry := by
  obtain ⟨hparts,-⟩ := h.sections_spec hn hsize
  have hkeys := h.keys_nodup
  rw [← placed_keys (entryStart parts.length)] at hkeys
  obtain ⟨entry,hentry,hplaced⟩ := exists_of_mem_right hparts.flip hpart
  refine ⟨entry,?_,hplaced⟩
  rw [findSection_eq_find,← hplaced.type,← hplaced.shardId]
  exact FirstWins.find_of_mem hkeys hentry

theorem findSection_eq_none (h : Written spec selected layout parts bytes)
    (hn : parts.length < 2^26-2) (hsize : bytes.length ≤ uint64Max) {type : ArtifactSectionType}
    {shardId : UInt32} (hnone : ∀ part ∈ parts, part.key ≠ (type,shardId)) :
    findSection (sectionsOf parts) type shardId = none := by
  obtain ⟨hparts,-⟩ := h.sections_spec hn hsize
  rw [findSection_eq_find,FirstWins.find_eq_none]
  intro entry hentry
  obtain ⟨part,hpart,hplaced⟩ := exists_of_mem_right hparts hentry
  rw [hplaced.type,hplaced.shardId]
  exact hnone part hpart

end Written

/-- The checks that the writer makes before it serializes anything, and a directory whose size
does not wrap around. -/
structure Composable (spec : ArtifactBuildSpec) (layout : CompiledRowLayout)
    (selected : List ArtifactShardBuildSpec) : Prop where
  layout_eq : spec.layout = some layout
  artifactId : spec.artifactId.length ≤ kArtifactIdCapacity
  shardCount : spec.shardCount ≠ 0
  nonempty : selected ≠ []
  selection : checkSelection spec.shardCount [] selected = .ok ()
  sectionCount : (sectionCountOf spec selected).toNat < 2^26-2

/-- The sections under their header and directory, which are put down in one pass. -/
def composeArtifact (spec : ArtifactBuildSpec) (layout : CompiledRowLayout)
    (selected : List ArtifactShardBuildSpec) : StatusOr Bytes := do
  let sectionCount := sectionCountOf spec selected
  let artifact ← addSections spec layout selected { file := emptyFile sectionCount }
  failIf (artifact.sections.length != sectionCount.toNat)
    (.internal "artifact section count mismatch")
  return overlay 0 artifact.file
    (headerFields spec layout sectionCount++directoryFields artifact.sections)

theorem addSections_fits {spec : ArtifactBuildSpec} {layout : CompiledRowLayout}
    {selected : List ArtifactShardBuildSpec} {artifact : ArtifactFile} {sectionCount : UInt32}
    (hn : sectionCount.toNat < 2^26-2)
    (h : addSections spec layout selected { file := emptyFile sectionCount } = .ok artifact)
    (hcount : artifact.sections.length = sectionCount.toNat) :
    entryStart artifact.sections.length ≤ artifact.file.length := by
  obtain ⟨schema,progress,partss,-,-,-,rfl⟩ := addSections_eq_ok h
  rw [hcount,addParts_eq,List.length_append,emptyFile_length hn]
  exact Nat.le_add_right _ _

theorem Composable.written_eq {spec : ArtifactBuildSpec} {layout : CompiledRowLayout}
    {selected : List ArtifactShardBuildSpec} (h : Composable spec layout selected) :
    writeArtifactWithShards spec selected = composeArtifact spec layout selected := by
  have hid := h.artifactId
  simp only [writeArtifactWithShards,h.layout_eq,composeArtifact,h.selection,gt_iff_lt,hid.not_gt,
    decide_false,beq_eq_false_iff_ne.mpr h.shardCount,List.isEmpty_eq_false_iff.mpr h.nonempty,
    failIf_false,ok_bind,pure_eq_ok]
  cases hsections : addSections spec layout selected
      { file := emptyFile (sectionCountOf spec selected) } with
  | error status => rfl
  | ok artifact =>
    rw [ok_bind,ok_bind]
    cases hcount : artifact.sections.length != (sectionCountOf spec selected).toNat with
    | true => rfl
    | false =>
      have hfits : ∀ w ∈ headerFields spec layout (sectionCountOf spec selected)++
          directoryFields artifact.sections, w.1+w.2.length ≤ artifact.file.length := by
        intro w hw
        exact (words_inside hid _ w hw).trans
          (addSections_fits h.sectionCount hsections (bne_eq_false_iff_eq.mp hcount))
      rw [failIf_false,ok_bind,ok_bind,← spliceAll_eq_overlay hfits (words_before hid _),
        ← foldlM_writeBytesAt hfits,List.foldlM_append]
      rfl

theorem Composable.writeArtifact_eq {spec : ArtifactBuildSpec} {layout : CompiledRowLayout}
    (h : Composable spec layout spec.shards) (hcount : spec.shards.length = spec.shardCount.toNat) :
    writeArtifact spec = composeArtifact spec layout spec.shards := by
  rw [writeArtifact,bne_eq_false_iff_eq.mpr hcount,failIf_false,ok_bind,h.written_eq]

end Artifact
end KvIndex
