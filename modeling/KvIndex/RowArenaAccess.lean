import KvIndex.ArtifactAccess

/-! The row arena with checked accesses. `ReadPayloadAt` walks over lengths that the file may have
set to anything, and stays inside the section. -/
namespace KvIndex
namespace Artifact
namespace Access

open Base LittleEndian

def readMmapString : ByteReader Fault Bytes := do
  let length ← readInt UInt32
  ByteReader.failWhen (fun bytes cursor =>
    cursor > bytes.length || bytes.length-cursor < length.toNat)
    (.status (.invalidArgument "mmap row string is truncated"))
  take length.toNat

def readBlob : ByteReader Fault Bytes := do
  let length ← readInt UInt64
  ByteReader.failWhen (fun bytes cursor =>
    cursor > bytes.length || bytes.length-cursor < length.toNat)
    (.status (.invalidArgument "mmap row blob is truncated"))
  take length.toNat

def readStringList : ByteReader Fault (List Bytes) := do
  let count ← readInt UInt32
  ByteReader.many count.toNat readMmapString

def readPayload : ByteReader Fault OwnedSnapshotRowPayload := do
  let arena ← readBlob
  let stringDictionary ← readStringList
  let scalarListCount ← readInt UInt32
  let scalarListDictionary ← ByteReader.many scalarListCount.toNat readBlob
  let stringListCount ← readInt UInt32
  let stringListDictionary ← ByteReader.many stringListCount.toNat readStringList
  let stringElementDictionary ← readStringList
  return {
    arena,stringDictionary,scalarListDictionary,stringListDictionary,stringElementDictionary }

def scanPayloads (wantedIndex : ℕ) : ℕ → ℕ → ByteReader Fault OwnedSnapshotRowPayload
  | 0, _ => ByteReader.fail (.status (.internal "mmap row payload scan missed requested row"))
  | remaining+1, rowIndex => do
    let payload ← readPayload
    if rowIndex = wantedIndex then return payload
    scanPayloads wantedIndex remaining (rowIndex+1)

def readPayloadAt (bytes : Bytes) (wantedIndex : ℕ) : Checked OwnedSnapshotRowPayload := do
  let rowCount ← readLittleEndian UInt64 bytes 0
  returns (failIf (wantedIndex ≥ rowCount.toNat)
    (.invalidArgument "mmap row payload index is out of bounds"))
  let (payload,_) ← scanPayloads wantedIndex rowCount.toNat 0 bytes 8
  return payload

theorem Follows.many {α : Type} {p : ByteReader Fault α} {q : Reader α} (h : Follows p q) (n : ℕ) :
    Follows (ByteReader.many n p) (ByteReader.many n q) := by
  induction n with
  | zero => exact Follows.pure []
  | succ n ih => exact h.bind fun a => ih.bind fun as => Follows.pure _

theorem readMmapString_follows : Follows readMmapString Artifact.readMmapString := by
  refine (readInt_follows UInt32).bind fun length => Follows.guarded ?_
  intro bytes cursor hcheck
  simp only [Bool.or_eq_false_iff,decide_eq_false_iff_not] at hcheck
  exact take_inside (by omega)

theorem readBlob_follows : Follows readBlob Artifact.readBlob := by
  refine (readInt_follows UInt64).bind fun length => Follows.guarded ?_
  intro bytes cursor hcheck
  simp only [Bool.or_eq_false_iff,decide_eq_false_iff_not] at hcheck
  exact take_inside (by omega)

theorem readStringList_follows : Follows readStringList Artifact.readStringList :=
  (readInt_follows UInt32).bind fun _ => readMmapString_follows.many _

theorem readPayload_follows : Follows readPayload Artifact.readPayload := by
  refine readBlob_follows.bind fun arena => readStringList_follows.bind fun strings => ?_
  refine (readInt_follows UInt32).bind fun scalarCount => ?_
  refine (readBlob_follows.many _).bind fun scalarLists => ?_
  refine (readInt_follows UInt32).bind fun listCount => ?_
  refine (readStringList_follows.many _).bind fun stringLists => ?_
  exact readStringList_follows.bind fun elements => Follows.pure _

theorem scanPayloads_follows (wanted remaining rowIndex : ℕ) :
    Follows (scanPayloads wanted remaining rowIndex)
      (Artifact.scanPayloads wanted remaining rowIndex) := by
  induction remaining generalizing rowIndex with
  | zero => exact fun _ _ => rfl
  | succ remaining ih =>
    rw [scanPayloads,Artifact.scanPayloads]
    refine readPayload_follows.bind fun payload => ?_
    by_cases hhere : rowIndex = wanted
    · rw [if_pos hhere,if_pos hhere]
      exact Follows.pure payload
    · rw [if_neg hhere,if_neg hhere]
      exact ih _

theorem readPayloadAt_eq (bytes : Bytes) (wanted : ℕ) :
    readPayloadAt bytes wanted = returns (Artifact.readPayloadAt bytes wanted) := by
  rw [readPayloadAt,Artifact.readPayloadAt,readLittleEndian_eq]
  refine bind_eq_returns fun rowCount _ => bind_eq_returns fun _ _ => ?_
  rw [scanPayloads_follows]
  exact bind_eq_returns fun result _ => rfl

end Access

open Base

/-- What the writer serializes is accepted and read back row by row, and every row of an accepted
section is read without an access outside of the section. -/
theorem rowArena_codec :
    (∀ payloads bytes, serializeRowPayloads payloads = .ok bytes →
      validatePayloadRowCount bytes payloads.length = .ok () ∧
        ∀ i payload, payloads[i]? = some payload → readPayloadAt bytes i = .ok payload) ∧
    ∀ bytes n, 0 < n → validatePayloadRowCount bytes n = .ok () →
      ∀ i < n, ∃ payload, readPayloadAt bytes i = .ok payload ∧
        Access.readPayloadAt bytes i = .ok payload := by
  refine ⟨?_,?_⟩
  · intro payloads bytes h
    obtain ⟨hrows,hempty⟩ := rows_of_serialized h
    exact ⟨hrows.validate hempty,fun i payload => hrows.readPayloadAt_eq⟩
  · intro bytes n _ h i hi
    obtain ⟨payloads,last,rfl,hrows,-⟩ := rows_of_validate h
    have hread := hrows.readPayloadAt_eq (List.getElem?_eq_getElem hi)
    exact ⟨_,hread,by rw [Access.readPayloadAt_eq,hread]; rfl⟩

theorem rowArena_codec_sample :
    (∀ i payload, samplePayloads[i]? = some payload → readPayloadAt sampleRowArena i = .ok payload) ∧
      ∃ payload, readPayloadAt sampleRowArena 1 = .ok payload ∧
        Access.readPayloadAt sampleRowArena 1 = .ok payload := by
  obtain ⟨hvalid,hreads⟩ := rowArena_codec.1 samplePayloads sampleRowArena sampleRowArena_eq
  exact ⟨hreads,rowArena_codec.2 sampleRowArena 2 (by decide) hvalid 1 (by decide)⟩

end Artifact
end KvIndex
