import KvIndex.ArtifactCodec

/-! The row arena section. Its rows have no directory: a row is reached through all rows before
it. What was written reads back, and what is accepted is what the writer would write for its
rows, with whatever stands behind the last one. -/
namespace KvIndex
namespace Artifact

open Base LittleEndian ByteReader

theorem serializeRowPayload_reads {payload : OwnedSnapshotRowPayload} {enc : Bytes}
    (h : serializeRowPayload payload = .ok enc) : Reads readPayload enc payload := by
  simp only [serializeRowPayload,bind_eq_ok,pure_eq_ok,Except.ok.injEq] at h
  obtain ⟨arena,harena,strings,hstrings,scalarLists,hscalar,stringLists,hlists,elements,helements,
    rfl⟩ := h
  refine (appendBlob_reads harena).bind ((appendStringList_reads hstrings).bind ?_)
  refine Reads.assoc ((appendCounted_reads hscalar fun _ _ => appendBlob_reads).bind ?_)
  refine Reads.assoc ((appendCounted_reads hlists fun _ _ => appendStringList_reads).bind ?_)
  exact (appendStringList_reads helements).map _

theorem serializeRowPayloads_eq_ok {payloads : List OwnedSnapshotRowPayload} {enc : Bytes}
    (h : serializeRowPayloads payloads = .ok enc) :
    ∃ parts, List.Forall₂ (fun payload part => serializeRowPayload payload = .ok part) payloads
        parts ∧
      (UInt64.ofNat payloads.length).toNat = payloads.length ∧
      enc = toBytes (UInt64.ofNat payloads.length)++parts.flatten := by
  simp only [serializeRowPayloads,bind_eq_ok,failIf_eq_ok,exists_const,decide_eq_false_iff_not,
    gt_iff_lt,Nat.not_lt,pure_eq_ok,Except.ok.injEq] at h
  obtain ⟨hlen,parts,hparts,rfl⟩ := h
  exact ⟨parts,mapM_eq_ok.mp hparts,uint64_toNat hlen,rfl⟩

theorem serializeRowPayloads_ok {payloads : List OwnedSnapshotRowPayload} {parts : List Bytes}
    (h : List.Forall₂ (fun payload part => serializeRowPayload payload = .ok part) payloads parts)
    (hlength : payloads.length ≤ uint64Max) :
    serializeRowPayloads payloads =
      .ok (toBytes (UInt64.ofNat payloads.length)++parts.flatten) := by
  rw [serializeRowPayloads,decide_eq_false (Nat.not_lt.mpr hlength),failIf_false,ok_bind,
    mapM_eq_ok.mpr h]
  rfl

/-- The rows that stand behind the count, and the offset behind the last of them. -/
structure Rows (bytes : Bytes) (payloads : List OwnedSnapshotRowPayload) (last : ℕ) : Prop where
  count : ∃ rowCount, readLittleEndian UInt64 bytes 0 = .ok rowCount ∧
    rowCount.toNat = payloads.length
  rows : many payloads.length readPayload bytes 8 = .ok (payloads,last)

theorem scanPayloads_of_many {n wanted remaining start cursor last : ℕ} {bytes : Bytes}
    {payloads : List OwnedSnapshotRowPayload} {payload : OwnedSnapshotRowPayload}
    (h : many n readPayload bytes cursor = .ok (payloads,last)) (hn : n ≤ remaining)
    (hstart : start ≤ wanted) (hwanted : payloads[wanted-start]? = some payload) :
    ∃ next, scanPayloads wanted remaining start bytes cursor = .ok (payload,next) := by
  induction n generalizing remaining start cursor payloads with
  | zero =>
    obtain ⟨rfl,-⟩ := pure_returns.mp h
    cases hwanted
  | succ n ih =>
    obtain ⟨first,middle,hfirst,hrest⟩ := bind_returns.mp h
    obtain ⟨rest,_,hmany,hpure⟩ := bind_returns.mp hrest
    obtain ⟨rfl,rfl⟩ := pure_returns.mp hpure
    obtain ⟨remaining,rfl⟩ : ∃ left, remaining = left+1 := ⟨remaining-1,by omega⟩
    rw [scanPayloads,bind_of_ok hfirst]
    by_cases hhere : start = wanted
    · rw [if_pos hhere]
      rw [hhere,Nat.sub_self,List.getElem?_cons_zero,Option.some.injEq] at hwanted
      exact ⟨middle,by rw [hwanted]; rfl⟩
    · rw [if_neg hhere]
      have hlater : wanted-start = (wanted-(start+1))+1 := by omega
      rw [hlater,List.getElem?_cons_succ] at hwanted
      exact ih hmany (by omega) (by omega) hwanted

theorem many_of_scanPayloads {wanted remaining start cursor last : ℕ} {bytes : Bytes}
    {payload : OwnedSnapshotRowPayload} (hstart : start ≤ wanted)
    (h : scanPayloads wanted remaining start bytes cursor = .ok (payload,last)) :
    ∃ payloads, many (wanted-start+1) readPayload bytes cursor = .ok (payloads,last) := by
  induction remaining generalizing start cursor with
  | zero => cases h
  | succ remaining ih =>
    obtain ⟨first,middle,hfirst,hrest⟩ := bind_returns.mp h
    rw [many,bind_of_ok hfirst]
    by_cases hhere : start = wanted
    · rw [if_pos hhere] at hrest
      obtain ⟨rfl,rfl⟩ := pure_returns.mp hrest
      rw [hhere,Nat.sub_self]
      exact ⟨[payload],rfl⟩
    · rw [if_neg hhere] at hrest
      obtain ⟨payloads,hmany⟩ := ih (by omega) hrest
      have hlater : wanted-start = wanted-(start+1)+1 := by omega
      rw [hlater,bind_of_ok hmany]
      exact ⟨first::payloads,rfl⟩

namespace Rows

variable {bytes : Bytes} {payloads : List OwnedSnapshotRowPayload} {last : ℕ}

theorem readPayloadAt_eq (h : Rows bytes payloads last) {wanted : ℕ}
    {payload : OwnedSnapshotRowPayload} (hwanted : payloads[wanted]? = some payload) :
    readPayloadAt bytes wanted = .ok payload := by
  obtain ⟨rowCount,hread,hcount⟩ := h.count
  have hlt : wanted < payloads.length := (List.getElem?_eq_some_iff.mp hwanted).1
  have hin : decide (wanted ≥ payloads.length) = false := decide_eq_false (Nat.not_le.mpr hlt)
  obtain ⟨next,hscan⟩ := scanPayloads_of_many h.rows le_rfl (Nat.zero_le wanted) hwanted
  simp only [readPayloadAt,hread,ok_bind,hcount,hin,failIf_false,hscan,pure_eq_ok]

theorem validate (h : Rows bytes payloads last) (hempty : payloads = [] → bytes.length = 8) :
    validatePayloadRowCount bytes payloads.length = .ok () := by
  obtain ⟨rowCount,hread,hcount⟩ := h.count
  simp only [validatePayloadRowCount,hread,ok_bind,hcount,bne_self_eq_false,failIf_false]
  cases payloads with
  | nil => simp [hempty rfl,failIf]
  | cons first payloads =>
    have hlast : (first::payloads)[(first::payloads).length-1]? =
        some ((first::payloads).getLast (by simp)) := by
      rw [← List.getLast?_eq_getElem?,List.getLast?_eq_some_getLast (by simp)]
    have hzero : ((first::payloads).length == 0) = false := by simp
    simp only [hzero,Bool.false_and,failIf_false,ok_bind,h.readPayloadAt_eq hlast,pure_eq_ok,
      gt_iff_lt,List.length_pos_iff_ne_nil.mpr (List.cons_ne_nil first payloads),if_true]

end Rows

/-- What is accepted has the rows it claims, and nothing behind the count if it has none. -/
theorem rows_of_validate {bytes : Bytes} {n : ℕ} (h : validatePayloadRowCount bytes n = .ok ()) :
    ∃ payloads last, payloads.length = n ∧ Rows bytes payloads last ∧ (n = 0 → bytes.length = 8) := by
  simp only [validatePayloadRowCount,bind_eq_ok,failIf_eq_ok,exists_const,bne_eq_false_iff_eq,
    Bool.and_eq_false_iff,beq_eq_false_iff_ne] at h
  obtain ⟨rowCount,hread,hcount,htrailing,hlast⟩ := h
  have hempty : n = 0 → bytes.length = 8 := fun hn => htrailing.resolve_left fun hne => hne hn
  obtain ⟨payloads,last,hmany⟩ : ∃ payloads last, many n readPayload bytes 8 = .ok (payloads,last) := by
    by_cases hn : n = 0
    · exact ⟨[],8,by rw [hn]; rfl⟩
    · rw [if_pos (Nat.pos_of_ne_zero hn)] at hlast
      obtain ⟨payload,hpayload,-⟩ := bind_eq_ok.mp hlast
      simp only [readPayloadAt,hread,ok_bind,bind_eq_ok,failIf_eq_ok,exists_const] at hpayload
      obtain ⟨-,⟨_,last⟩,hscan,-⟩ := hpayload
      obtain ⟨payloads,hmany⟩ := many_of_scanPayloads (Nat.zero_le _) hscan
      rw [Nat.sub_zero,Nat.sub_add_cancel (Nat.pos_of_ne_zero hn)] at hmany
      exact ⟨payloads,last,hmany⟩
  have hlength := many_length hmany
  refine ⟨payloads,last,hlength,⟨⟨rowCount,hread,hcount.trans hlength.symm⟩,?_⟩,hempty⟩
  rw [hlength]
  exact hmany

theorem rows_of_serialized {payloads : List OwnedSnapshotRowPayload} {bytes : Bytes}
    (h : serializeRowPayloads payloads = .ok bytes) :
    Rows bytes payloads bytes.length ∧ (payloads = [] → bytes.length = 8) := by
  obtain ⟨parts,hparts,hn,rfl⟩ := serializeRowPayloads_eq_ok h
  have hcount := readLittleEndian_middle (UInt64.ofNat payloads.length) [] parts.flatten
  have hrows := Reads.many hparts (fun _ _ => serializeRowPayload_reads)
    (toBytes (UInt64.ofNat payloads.length)) []
  rw [List.append_nil,← List.length_append,toBytes_length] at hrows
  refine ⟨⟨⟨_,hcount,hn⟩,hrows⟩,?_⟩
  rintro rfl
  cases hparts
  rfl

theorem readInt_spelled {T : Type} [LittleEndianInteger T] {bytes : Bytes} {cursor next : ℕ} {v : T}
    (h : readInt T bytes cursor = .ok (v,next)) : Spelled bytes cursor next (toBytes v) := by
  obtain ⟨value,hread,hpair⟩ := map_eq_ok.mp h
  cases hpair
  obtain ⟨hroom,rfl⟩ := readLittleEndian_eq_ok.mp hread
  rw [toBytes_ofBytes _ (by rw [slice_length]; omega)]
  exact spelled_slice hroom

theorem take_spelled {status : Status} {count cursor next : ℕ} {bytes value : Bytes}
    (h : (failWhen (fun bytes cursor => cursor > bytes.length || bytes.length-cursor < count)
      status >>= fun _ => ByteReader.take count) bytes cursor = .ok (value,next)) :
    value.length = count ∧ Spelled bytes cursor next value := by
  obtain ⟨_,_,hcheck,htake⟩ := bind_returns.mp h
  obtain ⟨hroom,rfl⟩ := failWhen_returns.mp hcheck
  simp only [Bool.or_eq_false_iff,decide_eq_false_iff_not] at hroom
  cases htake
  exact ⟨by rw [slice_length]; omega,spelled_slice (by omega)⟩

theorem readString_spelled {message : String} {bytes value : Bytes} {cursor next : ℕ}
    (h : readString message bytes cursor = .ok (value,next)) :
    ∃ enc, appendString value = .ok enc ∧ Spelled bytes cursor next enc := by
  obtain ⟨length,middle,hlength,htake⟩ := bind_returns.mp h
  obtain ⟨hsize,hvalue⟩ := take_spelled htake
  have hmax : value.length ≤ uint32Max := by
    have hlt := length.toNat_lt
    rw [hsize,uint32Max]
    omega
  refine ⟨toBytes length++value,?_,(readInt_spelled hlength).append hvalue⟩
  rw [appendString,decide_eq_false (Nat.not_lt.mpr hmax),failIf_false,ok_bind,hsize,
    UInt32.ofNat_toNat]
  rfl

theorem readBlob_spelled {bytes blob : Bytes} {cursor next : ℕ}
    (h : readBlob bytes cursor = .ok (blob,next)) :
    ∃ enc, appendBlob blob = .ok enc ∧ Spelled bytes cursor next enc := by
  obtain ⟨length,middle,hlength,htake⟩ := bind_returns.mp h
  obtain ⟨hsize,hvalue⟩ := take_spelled htake
  have hmax : blob.length ≤ uint64Max := by
    have hlt := length.toNat_lt
    rw [hsize,uint64Max]
    omega
  refine ⟨toBytes length++blob,?_,(readInt_spelled hlength).append hvalue⟩
  rw [appendBlob,decide_eq_false (Nat.not_lt.mpr hmax),failIf_false,ok_bind,hsize,
    UInt64.ofNat_toNat]
  rfl

theorem readCounted_spelled {α : Type} {encode : α → StatusOr Bytes} (message : String)
    {reader : Reader α} {bytes : Bytes}
    (hread : ∀ cursor a next, reader bytes cursor = .ok (a,next) →
      ∃ enc, encode a = .ok enc ∧ Spelled bytes cursor next enc)
    {count : UInt32} {cursor middle next : ℕ} {values : List α}
    (hcount : readInt UInt32 bytes cursor = .ok (count,middle))
    (h : many count.toNat reader bytes middle = .ok (values,next)) :
    ∃ enc, appendCounted encode message values = .ok enc ∧ Spelled bytes cursor next enc := by
  have hhead := readInt_spelled hcount
  have hlength := many_length h
  obtain ⟨parts,hparts,hspelled⟩ := many_spells (fun cursor a next _ => hread cursor a next)
    hhead.inside h
  have hmax : values.length ≤ uint32Max := by
    have hlt := count.toNat_lt
    rw [hlength,uint32Max]
    omega
  refine ⟨toBytes count++parts.flatten,?_,hhead.append hspelled⟩
  rw [appendCounted,decide_eq_false (Nat.not_lt.mpr hmax),failIf_false,ok_bind,
    mapM_eq_ok.mpr hparts,hlength,UInt32.ofNat_toNat]
  rfl

theorem readStringList_spelled {bytes : Bytes} {cursor next : ℕ} {values : List Bytes}
    (h : readStringList bytes cursor = .ok (values,next)) :
    ∃ enc, appendStringList values = .ok enc ∧ Spelled bytes cursor next enc := by
  obtain ⟨count,middle,hcount,hmany⟩ := bind_returns.mp h
  exact readCounted_spelled _ (fun _ _ _ => readString_spelled) hcount hmany

theorem readPayload_spelled {bytes : Bytes} {cursor next : ℕ} {payload : OwnedSnapshotRowPayload}
    (h : readPayload bytes cursor = .ok (payload,next)) :
    ∃ enc, serializeRowPayload payload = .ok enc ∧ Spelled bytes cursor next enc := by
  simp only [readPayload,bind_returns,pure_returns] at h
  obtain ⟨arena,_,harena,strings,_,hstrings,_,_,hscalarCount,scalarLists,_,hscalarLists,_,_,hlistCount,
    stringLists,_,hstringLists,elements,_,helements,rfl,rfl⟩ := h
  obtain ⟨arenaEnc,harenaEnc,h1⟩ := readBlob_spelled harena
  obtain ⟨stringsEnc,hstringsEnc,h2⟩ := readStringList_spelled hstrings
  obtain ⟨scalarEnc,hscalarEnc,h3⟩ := readCounted_spelled "scalar list dictionary is too large"
    (fun _ _ _ => readBlob_spelled) hscalarCount hscalarLists
  obtain ⟨listsEnc,hlistsEnc,h4⟩ := readCounted_spelled "string list dictionary is too large"
    (fun _ _ _ => readStringList_spelled) hlistCount hstringLists
  obtain ⟨elementsEnc,helementsEnc,h5⟩ := readStringList_spelled helements
  refine ⟨_,?_,h1.append (h2.append (h3.append (h4.append h5)))⟩
  simp only [serializeRowPayload,harenaEnc,hstringsEnc,hscalarEnc,hlistsEnc,helementsEnc,ok_bind,
    pure_eq_ok]

theorem Rows.spelled {bytes : Bytes} {payloads : List OwnedSnapshotRowPayload} {last : ℕ}
    (h : Rows bytes payloads last) :
    ∃ enc, serializeRowPayloads payloads = .ok enc ∧ Spelled bytes 0 last enc := by
  obtain ⟨rowCount,hread,hcount⟩ := h.count
  have hhead : Spelled bytes 0 8 (toBytes rowCount) :=
    readInt_spelled (show readInt UInt64 bytes 0 = .ok (rowCount,8) by rw [readInt,hread]; rfl)
  obtain ⟨parts,hparts,hspelled⟩ := many_spells (fun _ _ _ _ => readPayload_spelled) hhead.inside h.rows
  have hmax : payloads.length ≤ uint64Max := by
    have hlt := rowCount.toNat_lt
    rw [← hcount,uint64Max]
    omega
  refine ⟨_,serializeRowPayloads_ok hparts hmax,?_⟩
  rw [← hcount,UInt64.ofNat_toNat]
  exact hhead.append hspelled

/-- The payloads that `ReadPayloadAt` returns, row by row. -/
def readPayloads (bytes : Bytes) (n : ℕ) : StatusOr (List OwnedSnapshotRowPayload) :=
  (List.range n).mapM (readPayloadAt bytes)

theorem Rows.readPayloads_eq {bytes : Bytes} {payloads : List OwnedSnapshotRowPayload} {last : ℕ}
    (h : Rows bytes payloads last) : readPayloads bytes payloads.length = .ok payloads := by
  rw [readPayloads,mapM_eq_ok,List.forall₂_iff_get]
  refine ⟨List.length_range,?_⟩
  intro i hi hi'
  rw [List.get_eq_getElem,List.getElem_range]
  exact h.readPayloadAt_eq (List.getElem?_eq_getElem hi')

/-- The end of what stands under a length of `width` bytes. -/
def lengthEnd (width : ℕ) (bytes : Bytes) (offset : ℕ) : ℕ :=
  offset+width+value (slice bytes offset width)

def countedEnd (elementEnd : ℕ → ℕ) (bytes : Bytes) (offset : ℕ) : ℕ :=
  elementEnd^[value (slice bytes offset 4)] (offset+4)

def stringListEnd (bytes : Bytes) (offset : ℕ) : ℕ := countedEnd (lengthEnd 4 bytes) bytes offset

def rowEnd (bytes : Bytes) (offset : ℕ) : ℕ :=
  let arenaEnd := lengthEnd 8 bytes offset
  let stringsEnd := stringListEnd bytes arenaEnd
  let scalarListsEnd := countedEnd (lengthEnd 8 bytes) bytes stringsEnd
  let stringListsEnd := countedEnd (stringListEnd bytes) bytes scalarListsEnd
  stringListEnd bytes stringListsEnd

/-- The end of `n` rows behind their count. -/
def rowsEnd (bytes : Bytes) (n : ℕ) : ℕ := (rowEnd bytes)^[n] 8

theorem many_end {α : Type} {p : Reader α} {stepEnd : ℕ → ℕ} {bytes : Bytes}
    (hp : ∀ cursor a next, p bytes cursor = .ok (a,next) → next = stepEnd cursor) {n cursor next : ℕ}
    {values : List α} (h : many n p bytes cursor = .ok (values,next)) : next = stepEnd^[n] cursor := by
  induction n generalizing cursor next values with
  | zero => exact (pure_returns.mp h).2
  | succ n ih =>
    obtain ⟨a,middle,hfirst,hrest⟩ := bind_returns.mp h
    obtain ⟨rest,last,hmany,hpure⟩ := bind_returns.mp hrest
    rw [(pure_returns.mp hpure).2,ih hmany,hp cursor a middle hfirst,Function.iterate_succ_apply]

theorem readInt_end {T : Type} [LittleEndianInteger T] {bytes : Bytes} {cursor next : ℕ} {v : T}
    (h : readInt T bytes cursor = .ok (v,next)) :
    next = cursor+size T ∧
      LittleEndianInteger.toUnsigned v = value (slice bytes cursor (size T)) := by
  obtain ⟨word,hread,hpair⟩ := map_eq_ok.mp h
  cases hpair
  obtain ⟨hroom,rfl⟩ := readLittleEndian_eq_ok.mp hread
  have hlt := value_lt (slice bytes cursor (size T))
  rw [slice_length,Nat.min_eq_left (by omega)] at hlt
  exact ⟨rfl,LittleEndianInteger.toUnsigned_ofUnsigned _ hlt⟩

theorem readString_end {message : String} {bytes value : Bytes} {cursor next : ℕ}
    (h : readString message bytes cursor = .ok (value,next)) : next = lengthEnd 4 bytes cursor := by
  obtain ⟨length,middle,hlength,htake⟩ := bind_returns.mp h
  obtain ⟨rfl,hvalue⟩ := readInt_end hlength
  obtain ⟨hsize,hspelled⟩ := take_spelled htake
  rw [hspelled.next_eq,hsize]
  exact congrArg (cursor+4+·) hvalue

theorem readBlob_end {bytes blob : Bytes} {cursor next : ℕ}
    (h : readBlob bytes cursor = .ok (blob,next)) : next = lengthEnd 8 bytes cursor := by
  obtain ⟨length,middle,hlength,htake⟩ := bind_returns.mp h
  obtain ⟨rfl,hvalue⟩ := readInt_end hlength
  obtain ⟨hsize,hspelled⟩ := take_spelled htake
  rw [hspelled.next_eq,hsize]
  exact congrArg (cursor+8+·) hvalue

theorem readCounted_end {α : Type} {reader : Reader α} {elementEnd : ℕ → ℕ} {bytes : Bytes}
    (hreader : ∀ cursor a next, reader bytes cursor = .ok (a,next) → next = elementEnd cursor)
    {count : UInt32} {cursor middle next : ℕ} {values : List α}
    (hcount : readInt UInt32 bytes cursor = .ok (count,middle))
    (h : many count.toNat reader bytes middle = .ok (values,next)) :
    next = countedEnd elementEnd bytes cursor := by
  obtain ⟨rfl,hvalue⟩ := readInt_end hcount
  have hvalue : count.toNat = value (slice bytes cursor 4) := hvalue
  rw [many_end hreader h,countedEnd,← hvalue]
  rfl

theorem readStringList_end {bytes : Bytes} {cursor next : ℕ} {values : List Bytes}
    (h : readStringList bytes cursor = .ok (values,next)) : next = stringListEnd bytes cursor := by
  obtain ⟨count,middle,hcount,hmany⟩ := bind_returns.mp h
  exact readCounted_end (fun _ _ _ => readString_end) hcount hmany

theorem readPayload_end {bytes : Bytes} {cursor next : ℕ} {payload : OwnedSnapshotRowPayload}
    (h : readPayload bytes cursor = .ok (payload,next)) : next = rowEnd bytes cursor := by
  simp only [readPayload,bind_returns,pure_returns] at h
  obtain ⟨arena,_,harena,strings,_,hstrings,_,_,hscalarCount,scalarLists,_,hscalarLists,_,_,hlistCount,
    stringLists,_,hstringLists,elements,_,helements,-,rfl⟩ := h
  obtain rfl := readBlob_end harena
  obtain rfl := readStringList_end hstrings
  obtain rfl := readCounted_end (fun _ _ _ => readBlob_end) hscalarCount hscalarLists
  obtain rfl := readCounted_end (fun _ _ _ => readStringList_end) hlistCount hstringLists
  exact readStringList_end helements

theorem Rows.last_eq {bytes : Bytes} {payloads : List OwnedSnapshotRowPayload} {last : ℕ}
    (h : Rows bytes payloads last) : last = rowsEnd bytes payloads.length :=
  many_end (fun _ _ _ => readPayload_end) h.rows

/-- An accepted section is what the writer writes for its rows iff nothing stands behind the last
row; only the section without rows is checked for that. -/
theorem rowArena_canonical_iff {bytes : Bytes} {n : ℕ}
    (h : validatePayloadRowCount bytes n = .ok ()) :
    (readPayloads bytes n >>= serializeRowPayloads) = .ok bytes ↔
      n = 0 ∨ rowsEnd bytes n = bytes.length := by
  obtain ⟨payloads,last,rfl,hrows,hempty⟩ := rows_of_validate h
  obtain ⟨enc,hserialized,hspelled⟩ := hrows.spelled
  have hlast := hrows.last_eq
  have hlength : last = enc.length := by rw [hspelled.next_eq,Nat.zero_add]
  rw [hrows.readPayloads_eq,ok_bind,hserialized,Except.ok.injEq]
  constructor
  · rintro rfl
    exact Or.inr (hlast.symm.trans hlength)
  · intro hend
    have hwhole : last = bytes.length := by
      rcases hend with hzero | hend
      · rw [hlast,hempty hzero,hzero]
        rfl
      · exact hlast.trans hend
    rw [hwhole] at hspelled
    exact hspelled.whole.symm

def samplePayloads : List OwnedSnapshotRowPayload := [
  { arena := [1,2],stringDictionary := [[104],[105]],scalarListDictionary := [[5]] },
  { arena := [3],stringListDictionary := [[[97],[98]],[]],stringElementDictionary := [[99]] }]

def sampleRowArena : Bytes := (serializeRowPayloads samplePayloads).toOption.getD []

theorem sampleRowArena_eq : serializeRowPayloads samplePayloads = .ok sampleRowArena := by
  decide +kernel

theorem rowArena_canonical_sample :
    (readPayloads sampleRowArena 2 >>= serializeRowPayloads) = .ok sampleRowArena :=
  (rowArena_canonical_iff (by decide +kernel)).mpr (Or.inr (by decide +kernel))

def emptyRowArena : Bytes := (serializeRowPayloads [{}]).toOption.getD []

/-- A byte behind the last row is not seen. -/
theorem trailing_byte_is_accepted :
    validatePayloadRowCount (emptyRowArena++[0]) 1 = .ok () ∧
      (readPayloads (emptyRowArena++[0]) 1 >>= serializeRowPayloads) ≠ .ok (emptyRowArena++[0]) := by
  decide

end Artifact
end KvIndex
