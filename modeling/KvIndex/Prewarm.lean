import KvIndex.SectionOrder

/-! `MmapSnapshotBacking::Prewarm` (`artifact/mmap_snapshot_backing.cc`): the addresses that it
reads, and the pages they stand in. A touch is made at every multiple of the page size from the
start of a section on, wherever the section starts. -/
namespace KvIndex
namespace Artifact

open Base LittleEndian

structure ByteSpan where
  data : ℕ
  size : ℕ
  deriving DecidableEq

/-- The loop of `TouchSectionPages` from an offset on; the step is not zero. -/
def touchFrom (bytes : ByteSpan) (step offset : ℕ) : List ℕ :=
  if offset < bytes.size ∧ 0 < step then (bytes.data+offset)::touchFrom bytes step (offset+step)
  else []
termination_by bytes.size-offset
decreasing_by omega

/-- `TouchSectionPages`, for what `sysconf` says the page size is. -/
def touchSectionPages (pageSize : ℤ) (bytes : ByteSpan) : List ℕ :=
  if bytes.size = 0 then []
  else touchFrom bytes (if 0 < pageSize then pageSize.toNat else 4096) 0

/-- What a call of `Prewarm` reads, and the members that it sets. -/
structure Prewarmed where
  touched : List ℕ := []
  prewarmTouchedPages : ℕ := 0
  prewarmed : Bool := false
  deriving DecidableEq

def prewarm (pageSize : ℤ) (prewarmSections : List ByteSpan) : Prewarmed :=
  let touched := prewarmSections.flatMap (touchSectionPages pageSize)
  { touched,prewarmTouchedPages := touched.length,prewarmed := true }

/-- `SectionBytes` as a span of the mapping. -/
def sectionSpan (mapping : ℕ) (artifact : ParsedArtifact) (type : ArtifactSectionType)
    (shardId : UInt32) : StatusOr ByteSpan :=
  match findSection artifact.sections type shardId with
  | none => .error (.invalidArgument "required shard artifact section missing")
  | some entry => .ok ⟨mapping+entry.offset.toNat,entry.length.toNat⟩

/-- `LoadShard` with the spans that it keeps for `Prewarm`, the file being mapped at an address. -/
def loadShardSpans (mapping : ℕ) (bytes : Bytes) (shardId : UInt32)
    (options : MmapSnapshotLoadOptions) : StatusOr (MmapSnapshotBacking×List ByteSpan) := do
  let backing ← MmapSnapshotBacking.loadShard bytes shardId options
  let spans ← shardSectionTypes.mapM fun type => sectionSpan mapping backing.artifact type shardId
  return (backing,spans)

section Pages

variable {step : ℕ}

theorem mem_touchFrom (hstep : 0 < step) {bytes : ByteSpan} {offset address : ℕ} :
    address ∈ touchFrom bytes step offset ↔
      ∃ k, address = bytes.data+(offset+k*step) ∧ offset+k*step < bytes.size := by
  induction offset using touchFrom.induct bytes step with
  | case1 offset h ih =>
    rw [touchFrom,if_pos h,List.mem_cons,ih]
    constructor
    · rintro (rfl | ⟨k,rfl,hk⟩)
      · exact ⟨0,by rw [Nat.zero_mul,Nat.add_zero],by rw [Nat.zero_mul]; exact h.1⟩
      · exact ⟨k+1,by rw [Nat.add_mul]; omega,by rw [Nat.add_mul]; omega⟩
    · rintro ⟨k,rfl,hk⟩
      cases k with
      | zero => exact Or.inl (by rw [Nat.zero_mul,Nat.add_zero])
      | succ k =>
        rw [Nat.add_mul,Nat.one_mul] at hk ⊢
        exact Or.inr ⟨k,by omega,by omega⟩
  | case2 offset h =>
    rw [touchFrom,if_neg h]
    constructor
    · intro hmem
      cases hmem
    · rintro ⟨k,-,hk⟩
      exact absurd ⟨by omega,hstep⟩ h

theorem mem_touchSectionPages {pageSize : ℤ} (hpage : 0 < pageSize) {bytes : ByteSpan}
    {address : ℕ} :
    address ∈ touchSectionPages pageSize bytes ↔
      ∃ k, address = bytes.data+k*pageSize.toNat ∧ k*pageSize.toNat < bytes.size := by
  have hstep : 0 < pageSize.toNat := by omega
  rw [touchSectionPages]
  split_ifs with hempty
  · simp [hempty]
  · rw [mem_touchFrom hstep]
    simp only [Nat.zero_add]

/-- A byte of a section shares its page with a touch of the section, or with the byte behind the
section. -/
theorem touched_or_behind {pageSize : ℤ} (hpage : 0 < pageSize) {bytes : ByteSpan} {x : ℕ}
    (hstart : bytes.data ≤ x) (hend : x < bytes.data+bytes.size) :
    (∃ address ∈ touchSectionPages pageSize bytes,
      address/pageSize.toNat = x/pageSize.toNat) ∨
    (bytes.data+bytes.size)/pageSize.toNat = x/pageSize.toNat := by
  have hstep : 0 < pageSize.toNat := by omega
  generalize hsize : pageSize.toNat = P at hstep
  -- The last touch at or below `x` is less than a page away.
  have hbelow : bytes.data+(x-bytes.data)/P*P ≤ x := by
    have := Nat.div_mul_le_self (x-bytes.data) P
    omega
  have habove : x < bytes.data+(x-bytes.data)/P*P+P := by
    have := Nat.lt_div_mul_add (a := x-bytes.data) hstep
    omega
  have htouch : ∀ k, k*P < bytes.size →
      bytes.data+k*P ∈ touchSectionPages pageSize bytes := by
    intro k hk
    exact (mem_touchSectionPages hpage).mpr ⟨k,by rw [hsize],by rw [hsize]; exact hk⟩
  generalize hk : (x-bytes.data)/P = k at hbelow habove
  by_cases hsame : (bytes.data+k*P)/P = x/P
  · exact Or.inl ⟨_,htouch k (by omega),hsame⟩
  · have hnext : (bytes.data+k*P+P)/P = (bytes.data+k*P)/P+1 := Nat.add_div_right _ hstep
    have hle : (bytes.data+k*P)/P ≤ x/P := Nat.div_le_div_right hbelow
    have hle' : x/P ≤ (bytes.data+k*P+P)/P := Nat.div_le_div_right habove.le
    have hpage' : (bytes.data+k*P+P)/P = x/P := by omega
    have hsucc : (k+1)*P = k*P+P := Nat.succ_mul k P
    by_cases hinside : (k+1)*P < bytes.size
    · refine Or.inl ⟨_,htouch (k+1) hinside,?_⟩
      rw [hsucc,← Nat.add_assoc]
      exact hpage'
    · have hlow : x/P ≤ (bytes.data+bytes.size)/P := Nat.div_le_div_right hend.le
      have hhigh : (bytes.data+bytes.size)/P ≤ (bytes.data+k*P+P)/P :=
        Nat.div_le_div_right (by omega)
      exact Or.inr (by omega)

/-- Spans that stand one behind the other from an address on. -/
def Abut : ℕ → List ByteSpan → Prop
  | _, [] => True
  | start, bytes::spans => bytes.data = start ∧ Abut (start+bytes.size) spans

/-- Where there is a byte behind an address, the address is touched. -/
theorem start_touched {pageSize : ℤ} (hpage : 0 < pageSize) {start : ℕ} {spans : List ByteSpan}
    (h : Abut start spans) (hbyte : ∃ bytes ∈ spans, bytes.size ≠ 0) :
    start ∈ spans.flatMap (touchSectionPages pageSize) := by
  induction spans generalizing start with
  | nil =>
    obtain ⟨bytes,hbytes,-⟩ := hbyte
    cases hbytes
  | cons bytes spans ih =>
    obtain ⟨hstart,hrest⟩ := h
    rw [List.flatMap_cons,List.mem_append]
    by_cases hsize : bytes.size = 0
    · rw [hsize,Nat.add_zero] at hrest
      refine Or.inr (ih hrest ?_)
      obtain ⟨other,hother,hne⟩ := hbyte
      rcases List.mem_cons.mp hother with rfl | hother
      · exact absurd hsize hne
      · exact ⟨other,hother,hne⟩
    · exact Or.inl ((mem_touchSectionPages hpage).mpr ⟨0,by omega,by omega⟩)

/-- Spans that abut, the last of them one byte long, are touched on every page. -/
theorem pages_touched {pageSize : ℤ} (hpage : 0 < pageSize) {start : ℕ} {spans : List ByteSpan}
    (h : Abut start spans) (hlast : ∀ bytes ∈ spans.getLast?, bytes.size = 1)
    {bytes : ByteSpan} (hbytes : bytes ∈ spans) {x : ℕ} (hstart : bytes.data ≤ x)
    (hend : x < bytes.data+bytes.size) :
    ∃ address ∈ spans.flatMap (touchSectionPages pageSize),
      address/pageSize.toNat = x/pageSize.toNat := by
  induction spans generalizing start with
  | nil => cases hbytes
  | cons first spans ih =>
    obtain ⟨hfirst,hrest⟩ := h
    rw [List.flatMap_cons]
    rcases List.mem_cons.mp hbytes with rfl | hbytes
    · rcases touched_or_behind hpage hstart hend with ⟨address,htouched,hsame⟩ | hbehind
      · exact ⟨address,List.mem_append_left _ htouched,hsame⟩
      · cases spans with
        | nil =>
          have hone : bytes.size = 1 := hlast bytes rfl
          refine ⟨x,List.mem_append_left _ ((mem_touchSectionPages hpage).mpr ⟨0,?_,?_⟩),rfl⟩
          · omega
          · omega
        | cons second spans =>
          -- The last section is not empty, so the page behind this one is touched at its start.
          have hnonempty : ∃ other ∈ second::spans, other.size ≠ 0 := by
            have hmem := List.getLast_mem (List.cons_ne_nil second spans)
            have hone := hlast _ (by
              rw [List.getLast?_cons_cons,List.getLast?_eq_some_getLast (List.cons_ne_nil _ _)]
              rfl)
            exact ⟨_,hmem,by rw [hone]; exact one_ne_zero⟩
          refine ⟨start+bytes.size,List.mem_append_right _ (start_touched hpage hrest hnonempty),?_⟩
          rw [← hfirst]
          exact hbehind
    · have hne : spans ≠ [] := List.ne_nil_of_mem hbytes
      obtain ⟨second,rest,rfl⟩ := List.exists_cons_of_ne_nil hne
      obtain ⟨address,htouched,hsame⟩ := ih hrest (by rwa [List.getLast?_cons_cons] at hlast) hbytes
      exact ⟨address,List.mem_append_right _ htouched,hsame⟩

end Pages

theorem inside_of_writeBytesAt {bytes bytes' : Bytes} {fields : List (ℕ×Bytes)}
    (h : fields.foldlM writeBytesAt bytes = .ok bytes') :
    ∀ field ∈ fields, field.1+field.2.length ≤ bytes.length := by
  induction fields generalizing bytes with
  | nil => exact fun field hfield => absurd hfield List.not_mem_nil
  | cons field fields ih =>
    rw [List.foldlM_cons] at h
    obtain ⟨middle,hstep,h⟩ := bind_eq_ok.mp h
    obtain ⟨_,hcheck,hstep⟩ := bind_eq_ok.mp hstep
    have hinside := checkSpanBounds_eq_ok.mp hcheck
    cases hstep
    intro other hother
    rcases List.mem_cons.mp hother with rfl | hother
    · exact hinside
    · have hrest := ih h other hother
      rw [splice_length _ _ _ hinside] at hrest
      exact hrest

namespace Written

variable {spec : ArtifactBuildSpec} {selected : List ArtifactShardBuildSpec}
  {layout : CompiledRowLayout} {parts : List SectionPart} {bytes : Bytes}

/-- The words of the header and the directory, wherever the sections start. -/
theorem read_word (h : Written spec selected layout parts bytes) {T : Type} [LittleEndianInteger T]
    {offset : ℕ} {v : T}
    (hw : (offset,toBytes v) ∈ headerFields spec layout (sectionCountOf spec selected)++
      directoryFields (placed (emptyFile (sectionCountOf spec selected)).length parts)) :
    readLittleEndian T bytes offset = .ok v := by
  have hbytes := h.bytes_eq
  have hinside := inside_of_writeBytesAt hbytes
  rw [foldlM_writeBytesAt hinside] at hbytes
  have hfits := hinside _ hw
  rw [toBytes_length] at hfits
  rw [← Except.ok.inj hbytes]
  refine readLittleEndian_of_slice ?_ ?_
  · rw [spliceAll_length hinside]
    exact hfits
  · have hslice := slice_spliceAll hinside (words_before h.artifactId _) hw
    rw [toBytes_length] at hslice
    exact hslice

/-- A written file that is accepted has a directory within 32 bits: from 2^26-2 sections on the
first section is written over by the directory. -/
theorem length_of_parses {sort : List ArtifactSection → List ArtifactSection}
    (h : Written spec selected layout parts bytes) (hsort : OffsetOrder sort)
    (hsize : bytes.length ≤ uint64Max) {options : ArtifactValidationOptions}
    {parsed : ParsedArtifact} (hparse : parseArtifactWith sort bytes options = .ok parsed) :
    parts.length < 2^26-2 := by
  obtain ⟨header,sections,layout',progress,hdescribed,-,hparsed⟩ := parseArtifactWith_eq_ok.mp hparse
  have hsound := parseArtifactWith_sound hsort hsize hparse
  have hsmall := sectionCount_small hdescribed
  have hsections : parsed.sections = sections := by
    rw [hparsed]
    rfl
  have hcount : sections.length = parts.length := by
    have hword := h.read_word (List.mem_append_left _ (show
      (kSectionCountOffset,toBytes (sectionCountOf spec selected)) ∈
        headerFields spec layout (sectionCountOf spec selected) by simp [headerFields]))
    have hread := hsound.sectionCount
    rw [hword,Except.ok.injEq,hsections] at hread
    have hnat := congrArg UInt32.toNat hread
    rw [← h.sectionCount,UInt32.toNat_ofNat',Nat.mod_eq_of_lt (by omega)] at hnat
    exact hnat.symm
  by_contra hlong
  have hexact : parts.length = 2^26-2 := by omega
  have hempty : (emptyFile (sectionCountOf spec selected)).length = 0 := by
    rw [emptyFile,List.length_replicate,← h.sectionCount,hexact]
    decide
  obtain ⟨part,rest,hparts⟩ := List.exists_cons_of_length_pos (show 0 < parts.length by omega)
  have hfirst : 0 < parsed.sections.length := by rw [hsections]; omega
  have hoffset := (hsound.entries 0 hfirst).offset
  have hbehind := hsound.behind _ (List.getElem_mem hfirst)
  -- The first section is placed where an empty file ends.
  have hfield : (entryStart 0+8,toBytes (UInt64.ofNat 0)) ∈
      directoryFields (placed (emptyFile (sectionCountOf spec selected)).length parts) := by
    refine mem_directoryFields.mpr ⟨0,by rw [placed_length]; omega,?_⟩
    simp only [hparts,placed,hempty,List.getElem_cons_zero,entryFields_eq,SectionPart.placedAt]
    simp
  have hword := h.read_word (List.mem_append_right _ hfield)
  have hzero : parsed.sections[0].offset = UInt64.ofNat 0 := by
    have hsame := hoffset.symm.trans hword
    exact Except.ok.inj hsame
  have hnull : (UInt64.ofNat 0).toNat = 0 := rfl
  rw [hzero,hnull,kArtifactHeaderSize] at hbehind
  omega

end Written

def spansFrom (start : ℕ) : List SectionPart → List ByteSpan
  | [] => []
  | part::parts => ⟨start,part.payload.length⟩::spansFrom (start+part.payload.length) parts

theorem abut_spansFrom (start : ℕ) (parts : List SectionPart) :
    Abut start (spansFrom start parts) := by
  induction parts generalizing start with
  | nil => exact trivial
  | cons part parts ih => exact ⟨rfl,ih _⟩

theorem mapM_sectionSpan {mapping : ℕ} {artifact : ParsedArtifact} {shardId : UInt32}
    (hkeys : (artifact.sections.map fun entry => (entry.type,entry.shardId)).Nodup)
    {own : List SectionPart} {offset : ℕ} (hshard : ∀ part ∈ own, part.shardId = shardId)
    (hplaced : ∀ entry ∈ placed offset own, entry ∈ artifact.sections)
    (hfit : offset+(payloads own).length ≤ uint64Max) :
    (own.map SectionPart.type).mapM (fun type => sectionSpan mapping artifact type shardId) =
      .ok (spansFrom (mapping+offset) own) := by
  induction own generalizing offset with
  | nil => rfl
  | cons part own ih =>
    rw [payloads_cons,List.length_append] at hfit
    have hfind : findSection artifact.sections part.type shardId = some (part.placedAt offset) := by
      rw [findSection_eq_find,← hshard part List.mem_cons_self]
      exact FirstWins.find_of_mem hkeys (hplaced _ List.mem_cons_self)
    have hfirst : sectionSpan mapping artifact part.type shardId =
        .ok ⟨mapping+offset,part.payload.length⟩ := by
      have hoffset : (UInt64.ofNat offset).toNat = offset := uint64_toNat (by omega)
      have hlength : (UInt64.ofNat part.payload.length).toNat = part.payload.length :=
        uint64_toNat (by omega)
      simp only [sectionSpan,hfind,SectionPart.placedAt,hoffset,hlength]
    have hrest := @ih (offset+part.payload.length)
      (fun other hother => hshard other (List.mem_cons_of_mem _ hother))
      (fun entry hentry => hplaced entry (List.mem_cons_of_mem _ hentry)) (by omega)
    rw [List.map_cons,List.mapM_cons,hfirst,ok_bind,hrest,ok_bind,spansFrom,Nat.add_assoc]
    rfl

theorem loadShard_eq_ok {bytes : Bytes} {shardId : UInt32} {options : MmapSnapshotLoadOptions}
    {backing : MmapSnapshotBacking}
    (h : MmapSnapshotBacking.loadShard bytes shardId options = .ok backing) :
    (∃ validation, parseArtifactWith options.sectionSort.run bytes validation =
        .ok backing.artifact) ∧
      (shardSectionTypes.mapM fun type => requireSection backing.artifact type shardId) =
        .ok backing.prewarmSections := by
  simp only [MmapSnapshotBacking.loadShard,bind_eq_ok,failIf_eq_ok,exists_const,pure_eq_ok,
    Except.ok.injEq] at h
  obtain ⟨-,artifact,hparse,-,_,-,_,-,_,-,-,_,-,sections,hsections,rfl⟩ := h
  exact ⟨⟨_,hparse⟩,hsections⟩

def spanBytes (mapping : ℕ) (bytes : Bytes) (span : ByteSpan) : Bytes :=
  slice bytes (span.data-mapping) span.size

theorem requireSection_eq_span (mapping : ℕ) (artifact : ParsedArtifact)
    (type : ArtifactSectionType) (shardId : UInt32) :
    requireSection artifact type shardId =
      (sectionSpan mapping artifact type shardId).map (spanBytes mapping artifact.bytes) := by
  rw [requireSection,sectionSpan]
  cases findSection artifact.sections type shardId with
  | none => rfl
  | some entry =>
    simp only [Except.map,spanBytes,Nat.add_sub_cancel_left]
    rfl

theorem mapM_requireSection (mapping : ℕ) (artifact : ParsedArtifact) (shardId : UInt32)
    (types : List ArtifactSectionType) :
    (types.mapM fun type => requireSection artifact type shardId) =
      (types.mapM fun type => sectionSpan mapping artifact type shardId).map
        (List.map (spanBytes mapping artifact.bytes)) := by
  induction types with
  | nil => rfl
  | cons type types ih =>
    rw [List.mapM_cons,List.mapM_cons,ih,requireSection_eq_span mapping]
    cases sectionSpan mapping artifact type shardId with
    | error status => rfl
    | ok span =>
      cases types.mapM fun type => sectionSpan mapping artifact type shardId with
      | error status => rfl
      | ok spans => rfl

theorem prewarmSections_eq {mapping : ℕ} {bytes : Bytes} {shardId : UInt32}
    {options : MmapSnapshotLoadOptions} {backing : MmapSnapshotBacking} {spans : List ByteSpan}
    (h : loadShardSpans mapping bytes shardId options = .ok (backing,spans)) :
    backing.prewarmSections = spans.map (spanBytes mapping bytes) := by
  simp only [loadShardSpans,bind_eq_ok,pure_eq_ok,Except.ok.injEq,Prod.mk.injEq] at h
  obtain ⟨loaded,hload,spans',hspans,rfl,rfl⟩ := h
  obtain ⟨⟨validation,hparse⟩,hsections⟩ := loadShard_eq_ok hload
  obtain ⟨header,sections,layout,progress,-,-,hparsed⟩ := parseArtifactWith_eq_ok.mp hparse
  have hbytes : loaded.artifact.bytes = bytes := by
    rw [hparsed]
    rfl
  rw [mapM_requireSection mapping,hspans,hbytes] at hsections
  exact (Except.ok.inj hsections).symm

namespace Written

variable {spec : ArtifactBuildSpec} {selected : List ArtifactShardBuildSpec}
  {layout : CompiledRowLayout} {parts : List SectionPart} {bytes : Bytes}

/-- The seven spans of a loaded shard abut, and the last of them is a pool of one byte. -/
theorem spans_abut (h : Written spec selected layout parts bytes) (hsize : bytes.length ≤ uint64Max)
    {shard : ArtifactShardBuildSpec} (hshard : shard ∈ selected)
    {options : MmapSnapshotLoadOptions} {mapping : ℕ} {backing : MmapSnapshotBacking}
    {spans : List ByteSpan}
    (hload : loadShardSpans mapping bytes shard.shardId options = .ok (backing,spans)) :
    spans.length = 7 ∧ ∃ start, Abut start spans ∧ ∀ span ∈ spans.getLast?, span.size = 1 := by
  simp only [loadShardSpans,bind_eq_ok,pure_eq_ok,Except.ok.injEq,Prod.mk.injEq] at hload
  obtain ⟨loaded,hbacking,spans',hspans,rfl,rfl⟩ := hload
  obtain ⟨⟨validation,hparse⟩,-⟩ := loadShard_eq_ok hbacking
  have hn := h.length_of_parses options.sectionSort.order hsize hparse
  have hsections : loaded.artifact.sections = sectionsOf parts := by
    obtain ⟨header,sections,layout',progress,hdescribed,-,hparsed⟩ :=
      parseArtifactWith_eq_ok.mp hparse
    have hheader : writtenHeader spec selected layout = header :=
      Except.ok.inj ((h.header hn).symm.trans hdescribed.header_read)
    subst hheader
    rw [hparsed]
    exact Except.ok.inj (hdescribed.sections_read.symm.trans (h.sections_read hn hsize))
  obtain ⟨own,pre,post,hown,hparts⟩ := h.own_split hshard
  have hkeys := h.keys_nodup
  rw [← placed_keys (entryStart parts.length)] at hkeys
  have hplaced : ∀ entry ∈ placed (entryStart parts.length+(payloads pre).length) own,
      entry ∈ loaded.artifact.sections := by
    intro entry hentry
    rw [hsections,sectionsOf]
    generalize entryStart parts.length = start at hentry ⊢
    rw [hparts,placed_append,placed_append]
    exact List.mem_append_right _ (List.mem_append_left _ hentry)
  have hfit : entryStart parts.length+(payloads pre).length+(payloads own).length ≤ uint64Max := by
    have hlength := h.length_eq hn
    have hpayloads : (payloads parts).length =
        (payloads pre).length+((payloads own).length+(payloads post).length) := by
      rw [hparts]
      simp only [payloads,List.flatMap_append,List.length_append]
    omega
  rw [← sectionsOf,← hsections] at hkeys
  have hids : ∀ part ∈ own, part.shardId = shard.shardId := by
    intro part hpart
    have hkey : part.key ∈ own.map SectionPart.key := List.mem_map_of_mem hpart
    rw [shardParts_keys hown] at hkey
    obtain ⟨_,-,hkey⟩ := List.mem_map.mp hkey
    exact (Prod.mk.inj hkey).2.symm
  have hread := @mapM_sectionSpan mapping _ _ hkeys _ _ hids hplaced hfit
  simp only [shardParts,bind_eq_ok,pure_eq_ok,Except.ok.injEq] at hown
  obtain ⟨owned,-,rowArena,-,rfl⟩ := hown
  have hsame := Except.ok.inj (hspans.symm.trans hread)
  rw [hsame]
  refine ⟨rfl,_,abut_spansFrom _ _,?_⟩
  intro span hspan
  cases hspan
  rfl

end Written

/-- A file that `WriteArtifact` or `WriteArtifactShard` wrote, with the shards that it holds. -/
inductive Produced (spec : ArtifactBuildSpec) : List ArtifactShardBuildSpec → Bytes → Prop
  | whole {bytes : Bytes} (h : writeArtifact spec = .ok bytes) : Produced spec spec.shards bytes
  | shard {shardId : UInt32} {shard : ArtifactShardBuildSpec} {bytes : Bytes}
      (hfind : (spec.shards.find? fun shard => shard.shardId == shardId) = some shard)
      (h : writeArtifactShard spec shardId = .ok bytes) : Produced spec [shard] bytes

theorem Produced.written {spec : ArtifactBuildSpec} {shards : List ArtifactShardBuildSpec}
    {bytes : Bytes} (h : Produced spec shards bytes) :
    ∃ layout parts, Written spec shards layout parts bytes := by
  cases h with
  | whole h => exact writeArtifactWithShards_written (writeArtifact_eq_ok h).2
  | shard hfind h =>
    rw [writeArtifactShard,hfind] at h
    exact writeArtifactWithShards_written h

theorem loadShardSpans_of_loadShard (mapping : ℕ) {bytes : Bytes} {shardId : UInt32}
    {options : MmapSnapshotLoadOptions} {backing : MmapSnapshotBacking}
    (h : MmapSnapshotBacking.loadShard bytes shardId options = .ok backing) :
    ∃ spans, loadShardSpans mapping bytes shardId options = .ok (backing,spans) := by
  obtain ⟨-,hsections⟩ := loadShard_eq_ok h
  rw [mapM_requireSection mapping] at hsections
  rw [loadShardSpans,h,ok_bind]
  cases hspans : shardSectionTypes.mapM fun type =>
      sectionSpan mapping backing.artifact type shardId with
  | error status =>
    rw [hspans] at hsections
    cases hsections
  | ok spans => exact ⟨spans,rfl⟩

/-- Prewarming a shard of a written file reads a byte on every page that one of its seven sections
reaches into, for every page size. -/
theorem prewarm_covers {spec : ArtifactBuildSpec} {shards : List ArtifactShardBuildSpec}
    {bytes : Bytes} (h : Produced spec shards bytes) (hsize : bytes.length ≤ uint64Max)
    {shard : ArtifactShardBuildSpec} (hshard : shard ∈ shards) {options : MmapSnapshotLoadOptions}
    {mapping : ℕ} {backing : MmapSnapshotBacking} {spans : List ByteSpan}
    (hload : loadShardSpans mapping bytes shard.shardId options = .ok (backing,spans))
    {pageSize : ℤ} (hpage : 0 < pageSize) :
    spans.length = 7 ∧ backing.prewarmSections = spans.map (spanBytes mapping bytes) ∧
      ∀ span ∈ spans, ∀ page,
        (∃ x, span.data ≤ x ∧ x < span.data+span.size ∧ x/pageSize.toNat = page) →
          ∃ address ∈ (prewarm pageSize spans).touched, address/pageSize.toNat = page := by
  obtain ⟨layout,parts,hwritten⟩ := h.written
  obtain ⟨hlength,start,habut,hlast⟩ := hwritten.spans_abut hsize hshard hload
  refine ⟨hlength,prewarmSections_eq hload,?_⟩
  rintro span hspan page ⟨x,hstart,hend,rfl⟩
  exact pages_touched hpage habut hlast hspan hstart hend

theorem prewarm_covers_sample :
    ∃ backing spans, loadShardSpans 65536 sampleFile 0 {} = .ok (backing,spans) ∧
      spans.length = 7 ∧ ∀ span ∈ spans, ∀ page,
        (∃ x, span.data ≤ x ∧ x < span.data+span.size ∧ x/16 = page) →
          ∃ address ∈ (prewarm 16 spans).touched, address/16 = page := by
  obtain ⟨parts,hwritten,hparts⟩ :=
    writeArtifact_written sampleSpec_readable (by decide) sampleFile_written
  have hmatch : Matches sampleSpec {} := ⟨Or.inl rfl,Or.inl rfl,rfl,Or.inl rfl⟩
  obtain ⟨backing,-,hload,-,-⟩ :=
    hwritten.mapped_get hparts sampleFile_size sampleSpec_readable hmatch .stable
      (hwritten.overlap hparts sampleFile_size) List.mem_cons_self
  obtain ⟨spans,hspans⟩ := loadShardSpans_of_loadShard 65536 hload
  obtain ⟨hlength,-,hcovered⟩ := prewarm_covers (Produced.whole sampleFile_written) sampleFile_size
    List.mem_cons_self hspans (show (0 : ℤ) < 16 by decide)
  exact ⟨backing,spans,hspans,hlength,hcovered⟩

end Artifact
end KvIndex
