import KvIndex.ArtifactRoundTrip

/-! A single changed byte in a section is caught by its checksum. The FNV-1a step is injective
in the running state and in the byte, so the sums of two sections that differ in one byte
differ; and no section reaches into the header or the directory that holds the sums. -/
namespace KvIndex
namespace Artifact

open Base LittleEndian Function ArtifactSection

section Fold

variable {σ α : Type*} {step : σ → α → σ}

theorem foldl_injective (hstate : ∀ a, Injective fun s => step s a) (l : List α) :
    Injective fun s => l.foldl step s := by
  induction l with
  | nil => exact injective_id
  | cons a l ih => exact ih.comp (hstate a)

/-- A fold whose step loses neither its state nor its input notices one changed element. -/
theorem foldl_set_ne (hstate : ∀ a, Injective fun s => step s a) (hinput : ∀ s, Injective (step s))
    {l : List α} {i : ℕ} (hi : i < l.length) {b : α} (hb : b ≠ l[i]) (s : σ) :
    (l.set i b).foldl step s ≠ l.foldl step s := by
  induction l generalizing s i with
  | nil => cases hi
  | cons a l ih =>
    cases i with
    | zero =>
      intro heq
      exact hb (hinput s (foldl_injective hstate l heq))
    | succ i => exact ih (by simpa using hi) (by simpa using hb) (step s a)

end Fold

/-- The FNV prime is odd, so multiplying by it can be undone modulo 2^64. -/
theorem mul_kFnvPrime_injective : Injective fun hash : UInt64 => hash*Schema.kFnvPrime := by
  have hinverse : Schema.kFnvPrime*0xce965057aff6957b = 1 := by decide
  have hundo : LeftInverse (fun hash : UInt64 => hash*0xce965057aff6957b)
      fun hash => hash*Schema.kFnvPrime := by
    intro hash
    show hash*Schema.kFnvPrime*0xce965057aff6957b = hash
    rw [UInt64.mul_assoc,hinverse,UInt64.mul_one]
  exact hundo.injective

theorem fnv1a64_set_ne {bytes : Bytes} {i : ℕ} (hi : i < bytes.length) {b : UInt8}
    (hb : b ≠ bytes[i]) : fnv1a64 (bytes.set i b) ≠ fnv1a64 bytes := by
  apply foldl_set_ne ?_ ?_ hi hb
  · intro byte hash hash' heq
    simpa using mul_kFnvPrime_injective heq
  · intro hash byte byte' heq
    have hxor := mul_kFnvPrime_injective heq
    rw [UInt64.xor_right_inj] at hxor
    exact UInt8.toUInt64_inj.mp hxor

theorem readLittleEndian_set (T : Type) [LittleEndianInteger T] {bytes : Bytes} {offset i : ℕ}
    (h : offset+size T ≤ i) (b : UInt8) :
    readLittleEndian T (bytes.set i b) offset = readLittleEndian T bytes offset := by
  have hslice : slice (bytes.set i b) offset (size T) = slice bytes offset (size T) := by
    apply slice_congr
    intro j hj
    rw [List.getElem?_set_ne (by omega)]
  rw [readLittleEndian,readLittleEndian,hslice,List.length_set]

theorem EntryAt.unique {bytes : Bytes} {shardCount shardCount' : UInt32} {position : ℕ}
    {entry entry' : ArtifactSection} (h : EntryAt bytes shardCount position entry)
    (h' : EntryAt bytes shardCount' position entry') : entry = entry' := by
  have hraw := Except.ok.inj (h.type.symm.trans h'.type)
  have htype : entry.type = entry'.type := by
    have hdecode := decodeSectionType_raw entry.type
    rw [hraw,decodeSectionType_raw,Except.ok.injEq] at hdecode
    exact hdecode.symm
  have hshard := Except.ok.inj (h.shardId.symm.trans h'.shardId)
  have hoffset := Except.ok.inj (h.offset.symm.trans h'.offset)
  have hlength := Except.ok.inj (h.length.symm.trans h'.length)
  have hchecksum := Except.ok.inj (h.checksum.symm.trans h'.checksum)
  obtain ⟨type,shardId,offset,length,checksum⟩ := entry
  obtain ⟨type',shardId',offset',length',checksum'⟩ := entry'
  simp only at htype hshard hoffset hlength hchecksum
  rw [htype,hshard,hoffset,hlength,hchecksum]

/-- An entry that ends in front of the changed byte is read as before. -/
theorem EntryAt.of_set {bytes : Bytes} {shardCount : UInt32} {position i : ℕ} {b : UInt8}
    {entry : ArtifactSection} (h : EntryAt (bytes.set i b) shardCount position entry)
    (hi : position+kArtifactSectionEntrySize ≤ i) : EntryAt bytes shardCount position entry := by
  obtain ⟨htype,hshardId,hoffset,hlength,hchecksum,hshard,hinside⟩ := h
  rw [kArtifactSectionEntrySize] at hi
  rw [readLittleEndian_set] at htype hshardId hoffset hlength hchecksum
  · rw [List.length_set] at hinside
    exact ⟨htype,hshardId,hoffset,hlength,hchecksum,hshard,hinside⟩
  all_goals
    simp only [size,kEntryTypeOffset,kEntryShardIdOffset,kEntryFileOffsetOffset,kEntryLengthOffset,
      kEntryChecksumOffset]
    omega

theorem parsed_sections_small {sort : List ArtifactSection → List ArtifactSection} {bytes : Bytes}
    {options : ArtifactValidationOptions} {parsed : ParsedArtifact}
    (hparse : parseArtifactWith sort bytes options = .ok parsed) :
    parsed.sections.length ≤ 2^26-2 := by
  obtain ⟨header,sections,layout,progress,h,-,rfl⟩ := parseArtifactWith_eq_ok.mp hparse
  exact sectionCount_small h

/-- A change behind the directory leaves the directory as it was. -/
theorem sections_of_set {sort sort' : List ArtifactSection → List ArtifactSection} {bytes : Bytes}
    {options options' : ArtifactValidationOptions} {parsed parsed' : ParsedArtifact} {i : ℕ}
    {b : UInt8} (hsort : OffsetOrder sort) (hsort' : OffsetOrder sort')
    (hsize : bytes.length ≤ uint64Max) (hparse : parseArtifactWith sort bytes options = .ok parsed)
    (hparse' : parseArtifactWith sort' (bytes.set i b) options' = .ok parsed')
    (hi : kArtifactHeaderSize+kArtifactSectionEntrySize*parsed.sections.length ≤ i) :
    parsed'.sections = parsed.sections := by
  have hs := parseArtifactWith_sound hsort hsize hparse
  have hs' := parseArtifactWith_sound hsort' (by rwa [List.length_set]) hparse'
  have hcount : parsed'.sections.length = parsed.sections.length := by
    have hsmall := parsed_sections_small hparse
    have hsmall' := parsed_sections_small hparse'
    have hread := hs'.sectionCount
    rw [readLittleEndian_set UInt32 (by
      simp only [kArtifactHeaderSize] at hi
      simp only [kSectionCountOffset,size]
      omega),hs.sectionCount,Except.ok.injEq] at hread
    have hnat := congrArg UInt32.toNat hread
    rw [UInt32.toNat_ofNat',UInt32.toNat_ofNat'] at hnat
    omega
  apply List.ext_getElem hcount
  intro k hk' hk
  refine ((hs'.entries k hk').of_set ?_).unique (hs.entries k hk)
  rw [kArtifactHeaderSize,kArtifactSectionEntrySize] at hi ⊢
  omega

theorem sectionBytes_set {bytes : Bytes} {entry : ArtifactSection} {i : ℕ}
    (hi : entry.offset.toNat ≤ i) (b : UInt8) :
    sectionBytes (bytes.set i b) entry =
      (sectionBytes bytes entry).set (i-entry.offset.toNat) b := by
  rw [sectionBytes,sectionBytes,slice,slice,List.drop_set,if_neg (by omega),List.take_set]

/-- Any change of one byte of a section makes the parser reject the file, whichever way the
sections of equal offsets are sorted in the two runs. -/
theorem corruption_detected (sort sort' : List ArtifactSection → List ArtifactSection)
    (hsort : OffsetOrder sort) (hsort' : OffsetOrder sort') (bytes : Bytes)
    (hsize : bytes.length ≤ uint64Max) (options : ArtifactValidationOptions)
    (parsed : ParsedArtifact) (hparse : parseArtifactWith sort bytes options = .ok parsed)
    (entry : ArtifactSection) (hentry : entry ∈ parsed.sections) (i : ℕ)
    (hi : entry.offset.toNat ≤ i) (hi' : i < entry.fileEnd) (b : UInt8) (hb : bytes[i]? ≠ some b) :
    ∃ status, parseArtifactWith sort' (bytes.set i b) options = .error status := by
  have hs := parseArtifactWith_sound hsort hsize hparse
  cases hparse' : parseArtifactWith sort' (bytes.set i b) options with
  | error status => exact ⟨status,rfl⟩
  | ok parsed' =>
    exfalso
    have hs' := parseArtifactWith_sound hsort' (by rwa [List.length_set]) hparse'
    have hsections := sections_of_set hsort hsort' hsize hparse hparse'
      ((hs.behind entry hentry).trans hi)
    have hsum := hs'.checksums entry (hsections ▸ hentry)
    rw [← hs.checksums entry hentry,sectionBytes_set hi] at hsum
    obtain ⟨k,hk,rfl⟩ := List.mem_iff_getElem.mp hentry
    have hinside := (hs.entries k hk).inside
    have hlen : i-parsed.sections[k].offset.toNat < (sectionBytes bytes parsed.sections[k]).length := by
      rw [sectionBytes,slice_length]
      simp only [fileEnd] at hi' hinside
      omega
    refine fnv1a64_set_ne hlen ?_ hsum
    intro heq
    have hget := slice_getElem? bytes parsed.sections[k].offset.toNat parsed.sections[k].length.toNat
      (i-parsed.sections[k].offset.toNat) (by simp only [fileEnd] at hi'; omega)
    rw [← sectionBytes,List.getElem?_eq_getElem hlen,← heq,Nat.add_sub_cancel' hi] at hget
    exact hb hget.symm

/-- The entry at a place of a directory whose size the header tells. -/
theorem entry_of_directory {bytes : Bytes} {header : ArtifactHeader} {sections : List ArtifactSection}
    {shardCount : UInt32} {n k : ℕ} {window : ℕ×ℕ} (hheader : readHeader bytes = .ok header)
    (hread : readSections bytes header.shardCount header.sectionCount.toNat 0 [] = .ok sections)
    (hcounts : (readHeader bytes).toOption.map (fun header => (header.shardCount,
      header.sectionCount.toNat)) = some (shardCount,n))
    (hwindow : ((readSections bytes shardCount n 0 []).toOption.bind fun sections =>
      sections[k]?.map fun entry => (entry.offset.toNat,entry.length.toNat)) = some window) :
    ∃ entry ∈ sections, entry.offset.toNat = window.1 ∧ entry.length.toNat = window.2 := by
  simp only [hheader,Except.toOption,Option.map_some,Option.some.injEq,Prod.mk.injEq] at hcounts
  rw [hcounts.1,hcounts.2] at hread
  simp only [hread,Except.toOption,Option.bind_some,Option.map_eq_some_iff] at hwindow
  obtain ⟨entry,hentry,rfl⟩ := hwindow
  exact ⟨entry,List.mem_of_getElem? hentry,rfl,rfl⟩

theorem sampleFile_rowSlots {parsed : ParsedArtifact}
    (hparse : parseArtifact sampleFile {} = .ok parsed) :
    ∃ entry ∈ parsed.sections, entry.offset.toNat = 1126 ∧ entry.length.toNat = 16 := by
  obtain ⟨header,sections,layout,progress,h,-,rfl⟩ := parseArtifactWith_eq_ok.mp hparse
  exact entry_of_directory h.header_read h.sections_read sampleFile_facts.2.1 sampleFile_facts.2.2.1

theorem sampleFile_byte : sampleFile[1126]? ≠ some 255 := by
  have hbyte := sampleFile_facts.2.2.2
  intro hsame
  exact absurd (Option.some.inj (hbyte.symm.trans hsame)) (by decide)

theorem corruption_detected_sample :
    ∃ status, parseArtifactWith sortSections (sampleFile.set 1126 255) {} = .error status := by
  obtain ⟨parsed,hparse⟩ := sampleFile_parses
  obtain ⟨entry,hentry,hoffset,hlength⟩ := sampleFile_rowSlots hparse
  refine corruption_detected sortSections sortSections sortSections_offsetOrder
    sortSections_offsetOrder sampleFile sampleFile_size {} parsed hparse entry hentry 1126 ?_ ?_ 255 ?_
  · omega
  · rw [fileEnd]
    omega
  · exact sampleFile_byte

end Artifact
end KvIndex
