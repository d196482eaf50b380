import KvIndex.ArtifactRoundTrip

/-! The overlap check runs over the order that `std::sort` leaves, and a sort is free in the
order of equal offsets. A section without bytes shares its offset with the next one, so there
the outcome of the parse depends on the sort. -/
namespace KvIndex
namespace Artifact

open Base LittleEndian ArtifactSection CompiledRowLayout
open RealtimeDeltaAtomicTable (sampleLayout)

def Accepted (sort : List ArtifactSection → List ArtifactSection) (bytes : Bytes)
    (options : ArtifactValidationOptions) : Prop :=
  ∃ parsed, parseArtifactWith sort bytes options = .ok parsed

/-- A file that passes every check that does not look at the order, and whose sections lie apart
behind the directory, but with a section without bytes at the offset of another one. -/
def TiedFile (bytes : Bytes) (options : ArtifactValidationOptions) : Prop :=
  ∃ header sections layout progress, Described bytes options header sections layout progress ∧
    (∀ entry ∈ sections, directoryEnd header ≤ entry.offset.toNat) ∧ sections.Pairwise Apart ∧
      ∃ a ∈ sections, ∃ b ∈ sections, Tie a b

theorem accepted_iff {sort : List ArtifactSection → List ArtifactSection} {bytes : Bytes}
    {options : ArtifactValidationOptions} :
    Accepted sort bytes options ↔
      ∃ header sections layout progress, Described bytes options header sections layout progress ∧
        checkOverlap (directoryEnd header) (sort sections) = .ok () := by
  constructor
  · rintro ⟨parsed,hparse⟩
    obtain ⟨header,sections,layout,progress,hdescribed,hoverlap,-⟩ :=
      parseArtifactWith_eq_ok.mp hparse
    exact ⟨header,sections,layout,progress,hdescribed,hoverlap⟩
  · rintro ⟨header,sections,layout,progress,hdescribed,hoverlap⟩
    exact ⟨_,parseArtifactWith_eq_ok.mpr ⟨_,_,_,_,hdescribed,hoverlap,rfl⟩⟩

theorem Described.sections_unique {bytes : Bytes} {options options' : ArtifactValidationOptions}
    {header header' : ArtifactHeader} {sections sections' : List ArtifactSection}
    {layout layout' : CompiledRowLayout} {progress progress' : List ArtifactSourceProgress}
    (h : Described bytes options header sections layout progress)
    (h' : Described bytes options' header' sections' layout' progress') :
    header = header' ∧ sections = sections' := by
  have hheader : header = header' := Except.ok.inj (h.header_read.symm.trans h'.header_read)
  subst hheader
  exact ⟨rfl,Except.ok.inj (h.sections_read.symm.trans h'.sections_read)⟩

theorem accepted_of_accepted {sort sort' : List ArtifactSection → List ArtifactSection}
    (hsort : OffsetOrder sort) (hsort' : OffsetOrder sort') {bytes : Bytes}
    (hsize : bytes.length ≤ uint64Max) {options : ArtifactValidationOptions}
    (htied : ¬TiedFile bytes options) (h : Accepted sort bytes options) :
    Accepted sort' bytes options := by
  obtain ⟨header,sections,layout,progress,hdescribed,hoverlap⟩ := accepted_iff.mp h
  have hend := hdescribed.fileEnd_lt hsize
  obtain ⟨hbehind,hapart⟩ := apart_of_checkOverlap hsort hend hoverlap
  refine accepted_iff.mpr ⟨header,sections,layout,progress,hdescribed,?_⟩
  refine checkOverlap_of_apart hsort' hend hbehind hapart ?_
  have hperm := hsort'.perm sections
  refine List.pairwise_of_forall_mem_list ?_
  intro a ha b hb htie
  exact htied ⟨header,sections,layout,progress,hdescribed,hbehind,hapart,b,hperm.mem_iff.mp hb,a,
    hperm.mem_iff.mp ha,htie⟩

/-- A tied file is accepted in one order and rejected in another one. -/
theorem tiedFile_depends {bytes : Bytes} (hsize : bytes.length ≤ uint64Max)
    {options : ArtifactValidationOptions} (h : TiedFile bytes options) :
    Accepted (sortByRank fun entry => entry.length.toNat) bytes options ∧
      ¬Accepted (sortByRank fun entry => if entry.length = 0 then 1 else 0) bytes options := by
  obtain ⟨header,sections,layout,progress,hdescribed,hbehind,hapart,a,ha,b,hb,htie⟩ := h
  have hend := hdescribed.fileEnd_lt hsize
  refine ⟨?_,?_⟩
  · refine accepted_iff.mpr ⟨header,sections,layout,progress,hdescribed,?_⟩
    exact checkOverlap_of_apart (sortByRank_offsetOrder _) hend hbehind hapart
      (emptyFirst_noTie sections)
  · intro haccepted
    obtain ⟨header',sections',layout',progress',hdescribed',hoverlap⟩ := accepted_iff.mp haccepted
    obtain ⟨rfl,rfl⟩ := hdescribed.sections_unique hdescribed'
    exact emptyLast_fails hend ha hb htie hoverlap

theorem addRows_slots {layout : CompiledRowLayout} {rows : List SnapshotRow}
    {builder builder' : SnapshotBuilder} (hlayout : builder.layout = some layout)
    (h : rows.foldlM (fun builder row => builder.addRow row.primaryKey row.encoded) builder =
      .ok builder') :
    builder'.rowSlotBytes.length =
      builder.rowSlotBytes.length+rows.length*layout.rowSlotSize := by
  induction rows generalizing builder with
  | nil =>
    cases h
    simp
  | cons row rows ih =>
    simp only [List.foldlM_cons,bind_eq_ok,SnapshotBuilder.addRow,hlayout,failIf_eq_ok,exists_const,
      pure_eq_ok,Except.ok.injEq] at h
    obtain ⟨middle,⟨-,hslot,-,-,rfl⟩,hrest⟩ := h
    simp only [decide_eq_false_iff_not,Nat.not_lt] at hslot
    rw [ih rfl hrest]
    simp only [List.length_append,List.length_take,List.length_cons,Nat.min_eq_left hslot,
      Nat.add_mul,Nat.one_mul]
    omega

theorem shard_slots {spec : ArtifactBuildSpec} {layout : CompiledRowLayout}
    {shard : ArtifactShardBuildSpec} {backing : OwnedSnapshotBacking}
    (hlayout : spec.layout = some layout) (h : buildShardSnapshot spec shard = .ok backing) :
    backing.rowSlotBytes.length = shard.rows.length*layout.rowSlotSize := by
  simp only [buildShardSnapshot,hlayout,bind_eq_ok] at h
  obtain ⟨builder,hrows,hseal⟩ := h
  obtain ⟨-,hslots,-⟩ := Written.sealSnapshot_eq_ok hseal
  have hlength := addRows_slots rfl hrows
  rw [List.length_nil,Nat.zero_add] at hlength
  rw [hslots,hlength]

theorem toBytes_append_ne_nil {T : Type} [LittleEndianInteger T] (hsize : size T ≠ 0) (v : T)
    (rest : Bytes) : toBytes v++rest ≠ [] := by
  intro hnil
  have hlength := congrArg List.length hnil
  rw [List.length_append,toBytes_length,List.length_nil] at hlength
  omega

theorem serializeRowPayloads_ne_nil {payloads : List OwnedSnapshotRowPayload} {enc : Bytes}
    (h : serializeRowPayloads payloads = .ok enc) : enc ≠ [] := by
  obtain ⟨parts,-,-,rfl⟩ := serializeRowPayloads_eq_ok h
  exact toBytes_append_ne_nil (by decide) _ _

theorem buildShardSnapshot_index_ne_nil {spec : ArtifactBuildSpec} {shard : ArtifactShardBuildSpec}
    {backing : OwnedSnapshotBacking} (h : buildShardSnapshot spec shard = .ok backing) :
    backing.frozenIndexBytes ≠ [] := by
  simp only [buildShardSnapshot,bind_eq_ok] at h
  obtain ⟨builder,-,hseal⟩ := h
  obtain ⟨-,-,-,options,hbuild⟩ := Written.sealSnapshot_eq_ok hseal
  obtain ⟨view,hview,-⟩ := FrozenIndex.buildFrozenPrimaryKeyIndex_spec hbuild
  intro hnil
  rw [hnil] at hview
  cases hview

namespace Written

variable {spec : ArtifactBuildSpec} {selected : List ArtifactShardBuildSpec}
  {layout : CompiledRowLayout} {parts : List SectionPart} {bytes : Bytes}

/-- Two parts that follow each other, the first of them empty, have a tie in the directory. -/
theorem tie_of_empty (h : Written spec selected layout parts bytes) (hn : parts.length < 2^26-2)
    (hsize : bytes.length ≤ uint64Max) {pre post : List SectionPart} {first second : SectionPart}
    (hparts : parts = pre++first::second::post) (hfirst : first.payload = [])
    (hsecond : second.payload ≠ []) :
    ∃ a ∈ sectionsOf parts, ∃ b ∈ sectionsOf parts, Tie a b := by
  have hplaced : sectionsOf parts = placed (entryStart parts.length) pre++
      placed (entryStart parts.length+(payloads pre).length) (first::second::post) := by
    rw [← placed_append,← hparts]
    rfl
  have ha : first.placedAt (entryStart parts.length+(payloads pre).length) ∈ sectionsOf parts := by
    rw [hplaced]
    exact List.mem_append_right _ List.mem_cons_self
  have hb : second.placedAt (entryStart parts.length+(payloads pre).length) ∈ sectionsOf parts := by
    rw [hplaced,placed,placed,hfirst]
    exact List.mem_append_right _ (List.mem_cons_of_mem _ List.mem_cons_self)
  refine ⟨_,ha,_,hb,rfl,by rw [SectionPart.placedAt,hfirst]; rfl,?_⟩
  intro hzero
  have hlength : second.payload.length ≤ uint64Max := by
    have hfit := h.length_eq hn
    have hsub : second.payload.length ≤ (payloads parts).length := by
      rw [hparts,payloads,List.flatMap_append,List.flatMap_cons,List.flatMap_cons]
      simp only [List.length_append]
      omega
    omega
  have hnat : (UInt64.ofNat second.payload.length).toNat = 0 := by
    rw [← UInt64.toNat_zero]
    exact congrArg UInt64.toNat hzero
  rw [uint64_toNat hlength] at hnat
  exact hsecond (List.length_eq_zero_iff.mp hnat)

theorem own_split (h : Written spec selected layout parts bytes) {shard : ArtifactShardBuildSpec}
    (hshard : shard ∈ selected) :
    ∃ own pre post, shardParts spec shard = .ok own ∧ parts = pre++(own++post) := by
  obtain ⟨schema,progress,partss,-,-,hpartss,rfl⟩ := h.parts_eq
  obtain ⟨own,hmem,hown⟩ := exists_of_mem_right hpartss.flip hshard
  obtain ⟨before,after,rfl⟩ := List.append_of_mem hmem
  refine ⟨own,⟨.kSchemaMetadata,kArtifactGlobalShardId,schema⟩::(progress++before.flatten),
    after.flatten,hown,?_⟩
  simp

theorem shard_split (h : Written spec selected layout parts bytes) {shard : ArtifactShardBuildSpec}
    (hshard : shard ∈ selected) :
    ∃ backing rowArena pre post, buildShardSnapshot spec shard = .ok backing ∧
      serializeRowPayloads backing.rowPayloads = .ok rowArena ∧
      parts = pre++⟨.kRowSlots,shard.shardId,backing.rowSlotBytes⟩::
        ⟨.kRowArena,shard.shardId,rowArena⟩::post := by
  obtain ⟨own,pre,post,hown,rfl⟩ := h.own_split hshard
  simp only [shardParts,bind_eq_ok,pure_eq_ok,Except.ok.injEq] at hown
  obtain ⟨backing,hbacking,rowArena,harena,rfl⟩ := hown
  refine ⟨backing,rowArena,pre++[⟨.kFrozenPrimaryKeyIndex,shard.shardId,backing.frozenIndexBytes⟩],
    (poolTypes.map fun type => ⟨type,shard.shardId,[0]⟩)++post,hbacking,harena,?_⟩
  simp

theorem part_ne_nil (h : Written spec selected layout parts bytes)
    (hslots : ∀ shard ∈ selected, ∀ backing, buildShardSnapshot spec shard = .ok backing →
      backing.rowSlotBytes ≠ []) : ∀ part ∈ parts, part.payload ≠ [] := by
  obtain ⟨schema,progress,partss,hschema,hprogress,hpartss,rfl⟩ := h.parts_eq
  intro part hpart
  rcases List.mem_cons.mp hpart with rfl | hpart
  · simp only [serializeSchema,bind_eq_ok,pure_eq_ok,Except.ok.injEq] at hschema
    obtain ⟨fields,-,rfl⟩ := hschema
    exact toBytes_append_ne_nil (by decide) _ _
  rcases List.mem_append.mp hpart with hpart | hpart
  · rcases progressParts_eq_ok hprogress with ⟨-,rfl⟩ | ⟨payload,-,hserialized,rfl⟩
    · cases hpart
    · obtain ⟨_,-,-,rfl⟩ := appendCounted_eq_ok hserialized
      rw [List.mem_singleton.mp hpart]
      exact toBytes_append_ne_nil (by decide) _ _
  · obtain ⟨own,hown,hpart⟩ := List.mem_flatten.mp hpart
    obtain ⟨shard,hshard,hparts⟩ := exists_of_mem_right hpartss hown
    simp only [shardParts,bind_eq_ok,pure_eq_ok,Except.ok.injEq] at hparts
    obtain ⟨backing,hbacking,rowArena,harena,rfl⟩ := hparts
    rcases List.mem_append.mp hpart with hpart | hpart
    · simp only [List.mem_cons,List.not_mem_nil,or_false] at hpart
      rcases hpart with rfl | rfl | rfl
      · exact buildShardSnapshot_index_ne_nil hbacking
      · exact hslots shard hshard backing hbacking
      · exact serializeRowPayloads_ne_nil harena
    · obtain ⟨type,-,rfl⟩ := List.mem_map.mp hpart
      simp

/-- A written file passes the overlap check in every order exactly when every shard of it has
row slots. -/
theorem overlap_every_order_iff (h : Written spec selected layout parts bytes)
    (hn : parts.length < 2^26-2) (hsize : bytes.length ≤ uint64Max) :
    (∀ sort, OffsetOrder sort → checkOverlap (directoryEnd (writtenHeader spec selected layout))
        (sort (sectionsOf parts)) = .ok ()) ↔
      layout.rowSlotSize ≠ 0 ∧ ∀ shard ∈ selected, shard.rows ≠ [] := by
  obtain ⟨hplaced,hpairs⟩ := h.sections_spec hn hsize
  have hend : ∀ entry ∈ sectionsOf parts, entry.fileEnd < 2^64 := by
    intro entry hentry
    obtain ⟨part,-,hpart⟩ := exists_of_mem_right hplaced hentry
    have hinside := hpart.inside
    rw [uint64Max] at hsize
    omega
  constructor
  · intro hall
    have hslots : ∀ shard ∈ selected, shard.rows.length*layout.rowSlotSize ≠ 0 := by
      intro shard hshard hzero
      obtain ⟨backing,rowArena,pre,post,hbacking,harena,hparts⟩ := h.shard_split hshard
      have hempty : backing.rowSlotBytes = [] := by
        rw [← List.length_eq_zero_iff,shard_slots h.layout_eq hbacking]
        exact hzero
      obtain ⟨a,ha,b,hb,htie⟩ := h.tie_of_empty hn hsize hparts hempty
        (serializeRowPayloads_ne_nil harena)
      exact emptyLast_fails hend ha hb htie (hall _ (sortByRank_offsetOrder _))
    refine ⟨?_,?_⟩
    · intro hzero
      obtain ⟨shard,hshard⟩ := List.exists_mem_of_ne_nil _ h.nonempty
      exact hslots shard hshard (by rw [hzero,Nat.mul_zero])
    · intro shard hshard hnil
      exact hslots shard hshard (by rw [hnil,List.length_nil,Nat.zero_mul])
  · rintro ⟨hsize',hrows⟩ sort hsort
    have hne : ∀ part ∈ parts, part.payload ≠ [] := by
      refine h.part_ne_nil ?_
      intro shard hshard backing hbacking hnil
      have hlength := shard_slots h.layout_eq hbacking
      rw [hnil,List.length_nil] at hlength
      rcases Nat.mul_eq_zero.mp hlength.symm with hzero | hzero
      · exact hrows shard hshard (List.length_eq_zero_iff.mp hzero)
      · exact hsize' hzero
    refine checkOverlap_of_apart hsort hend ?_ (hpairs.imp fun hle => Or.inl hle) ?_
    · intro entry hentry
      obtain ⟨part,-,hpart⟩ := exists_of_mem_right hplaced hentry
      rw [h.directoryEnd_eq]
      exact hpart.behind
    · refine List.pairwise_of_forall_mem_list ?_
      rintro a - b hb ⟨-,hempty,-⟩
      obtain ⟨part,hpart,hpb⟩ := exists_of_mem_right hplaced ((hsort.perm _).mem_iff.mp hb)
      have hlength := hpb.length
      rw [hempty,UInt64.toNat_zero] at hlength
      exact hne part hpart (List.length_eq_zero_iff.mp hlength.symm)

/-- A sort that keeps the order of equal offsets finds no overlap in a written file, and no sort
does where every shard has a row. -/
theorem inOrder (h : Written spec selected layout parts bytes) (hn : parts.length < 2^26-2)
    (hsize : bytes.length ≤ uint64Max) (hslot : 0 < layout.rowSlotSize) {sort : SectionSort}
    (hsort : sort = .stable ∨ ∀ shard ∈ selected, shard.rows ≠ []) :
    InOrder spec selected layout parts sort.run := by
  rcases hsort with rfl | hrows
  · exact h.overlap hn hsize
  · exact (h.overlap_every_order_iff hn hsize).mpr ⟨hslot.ne',hrows⟩ _ sort.order

theorem tiedFile {schema : RuntimeSchema} (h : Written spec selected (compile schema) parts bytes)
    (hn : parts.length < 2^26-2) (hsize : bytes.length ≤ uint64Max) (hr : Readable spec schema)
    {options : ArtifactValidationOptions} (hmatch : Matches spec options)
    {shard : ArtifactShardBuildSpec} (hshard : shard ∈ selected) (hrows : shard.rows = []) :
    TiedFile bytes options := by
  have hdescribed := h.described hn hsize hr hmatch
  obtain ⟨hbehind,hapart⟩ := apart_of_checkOverlap sortSections_offsetOrder
    (hdescribed.fileEnd_lt hsize) (h.overlap hn hsize)
  obtain ⟨backing,rowArena,pre,post,hbacking,harena,hparts⟩ := h.shard_split hshard
  have hempty : backing.rowSlotBytes = [] := by
    rw [← List.length_eq_zero_iff,shard_slots h.layout_eq hbacking,hrows,List.length_nil,
      Nat.zero_mul]
  have htie := h.tie_of_empty hn hsize hparts hempty (serializeRowPayloads_ne_nil harena)
  exact ⟨_,_,_,_,hdescribed,hbehind,hapart,htie⟩

end Written

/-- The sections that the directory lists pass the overlap check in this order. -/
def PassesOverlap (sort : List ArtifactSection → List ArtifactSection) (bytes : Bytes) : Prop :=
  ∃ header sections, readHeader bytes = .ok header ∧
    readSections bytes header.shardCount header.sectionCount.toNat 0 [] = .ok sections ∧
      checkOverlap (directoryEnd header) (sort sections) = .ok ()

theorem passesOverlap_every_order_iff {spec : ArtifactBuildSpec}
    {selected : List ArtifactShardBuildSpec} {bytes : Bytes}
    (h : writeArtifactWithShards spec selected = .ok bytes) (hsize : bytes.length ≤ uint64Max)
    (hn : partCount spec selected < 2^26-2) :
    (∀ sort, OffsetOrder sort → PassesOverlap sort bytes) ↔
      (∀ layout, spec.layout = some layout → layout.rowSlotSize ≠ 0) ∧
        ∀ shard ∈ selected, shard.rows ≠ [] := by
  obtain ⟨layout,parts,hwritten⟩ := writeArtifactWithShards_written h
  have hlength := hwritten.parts_length hn
  have hheader := hwritten.header hlength
  have hsections := hwritten.sections_read hlength hsize
  have hpasses : ∀ sort, PassesOverlap sort bytes ↔
      checkOverlap (directoryEnd (writtenHeader spec selected layout))
        (sort (Written.sectionsOf parts)) = .ok () := by
    intro sort
    constructor
    · rintro ⟨header,sections,hheader',hsections',hoverlap⟩
      have hsame : writtenHeader spec selected layout = header :=
        Except.ok.inj (hheader.symm.trans hheader')
      subst hsame
      have hsame : Written.sectionsOf parts = sections :=
        Except.ok.inj (hsections.symm.trans hsections')
      rw [hsame]
      exact hoverlap
    · intro hoverlap
      exact ⟨_,_,hheader,hsections,hoverlap⟩
  simp only [hpasses,hwritten.overlap_every_order_iff hlength hsize,hwritten.layout_eq,
    Option.some.injEq,forall_eq']

/-- The outcome of `ParseArtifact` is the same in every order of equal offsets exactly when the
file is not tied, and a written file passes the overlap check in every order exactly when its
rows have slots and each of its shards has a row. -/
theorem acceptance_independent_iff {bytes : Bytes} (hsize : bytes.length ≤ uint64Max) :
    (∀ options, (∀ sort sort', OffsetOrder sort → OffsetOrder sort' →
      (Accepted sort bytes options ↔ Accepted sort' bytes options)) ↔ ¬TiedFile bytes options) ∧
    ∀ spec selected, writeArtifactWithShards spec selected = .ok bytes →
      partCount spec selected < 2^26-2 →
      ((∀ sort, OffsetOrder sort → PassesOverlap sort bytes) ↔
        (∀ layout, spec.layout = some layout → layout.rowSlotSize ≠ 0) ∧
          ∀ shard ∈ selected, shard.rows ≠ []) := by
  refine ⟨?_,?_⟩
  · intro options
    constructor
    · intro hsame htied
      obtain ⟨haccepted,hrejected⟩ := tiedFile_depends hsize htied
      exact hrejected
        ((hsame _ _ (sortByRank_offsetOrder _) (sortByRank_offsetOrder _)).mp haccepted)
    · intro htied sort sort' hsort hsort'
      exact ⟨accepted_of_accepted hsort hsort' hsize htied,
        accepted_of_accepted hsort' hsort hsize htied⟩
  · intro spec selected hwrite hn
    exact passesOverlap_every_order_iff hwrite hsize hn

theorem acceptance_independent_sample : PassesOverlap sortSections sampleFile ∧
    PassesOverlap (sortByRank fun entry => if entry.length = 0 then 1 else 0) sampleFile := by
  have hwrite := (writeArtifact_eq_ok sampleFile_written).2
  have hpasses := ((acceptance_independent_iff sampleFile_size).2 sampleSpec sampleSpec.shards
    hwrite (by decide)).mpr ⟨?_,by decide⟩
  · exact ⟨hpasses _ sortSections_offsetOrder,hpasses _ (sortByRank_offsetOrder _)⟩
  · intro layout hlayout
    rw [sampleSpec_readable.layout,Option.some.injEq] at hlayout
    rw [← hlayout]
    exact (compile_rowSlotSize_pos sampleSpec_readable.fields).ne'

def emptyShardSpec : ArtifactBuildSpec := { sampleSpec with shards := [{}] }

theorem emptyShardSpec_readable :
    Readable emptyShardSpec (fieldSchema { fieldId := 1,name := [118] }) :=
  { sampleSpec_readable with }

/-- The file of a shard without rows is accepted when the sort keeps the order of the directory,
and rejected when it puts the row slots behind the row arena. -/
theorem emptyShard_depends_on_sort :
    ∃ bytes, writeArtifact emptyShardSpec = .ok bytes ∧ Accepted sortSections bytes {} ∧
      ∃ sort, OffsetOrder sort ∧ ¬Accepted sort bytes {} ∧ ¬PassesOverlap sort bytes := by
  have hcomposable : Composable emptyShardSpec sampleLayout emptyShardSpec.shards :=
    ⟨rfl,by decide,by decide,by decide,rfl,by decide⟩
  have hlength : (writeArtifact emptyShardSpec).map List.length = .ok 1138 := by
    rw [hcomposable.writeArtifact_eq rfl]
    decide +kernel
  cases hwrite : writeArtifact emptyShardSpec with
  | error status =>
    rw [hwrite] at hlength
    cases hlength
  | ok bytes =>
    rw [hwrite,Except.map] at hlength
    have hsize : bytes.length ≤ uint64Max := by
      rw [Except.ok.inj hlength]
      decide
    obtain ⟨parts,hwritten,hparts⟩ := writeArtifact_written emptyShardSpec_readable (by decide) hwrite
    have hmatch : Matches emptyShardSpec {} := ⟨Or.inl rfl,Or.inl rfl,rfl,Or.inl rfl⟩
    have htied := hwritten.tiedFile hparts hsize emptyShardSpec_readable hmatch List.mem_cons_self rfl
    obtain ⟨-,hrejected⟩ := tiedFile_depends hsize htied
    have hdescribed := hwritten.described hparts hsize emptyShardSpec_readable hmatch
    refine ⟨bytes,rfl,?_,_,sortByRank_offsetOrder _,hrejected,?_⟩
    · exact ⟨_,hwritten.parse_eq hparts hsize emptyShardSpec_readable hmatch⟩
    · rintro ⟨header,sections,hheader,hsections,hoverlap⟩
      have hsame := Except.ok.inj (hdescribed.header_read.symm.trans hheader)
      subst hsame
      have hsame := Except.ok.inj (hdescribed.sections_read.symm.trans hsections)
      rw [← hsame] at hoverlap
      exact hrejected (accepted_iff.mpr ⟨_,_,_,_,hdescribed,hoverlap⟩)

end Artifact
end KvIndex
