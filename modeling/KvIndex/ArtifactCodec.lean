import KvIndex.ArtifactSound
import KvIndex.ArtifactWriter

/-! What the writer serializes, the parsers read back: strings, counted lists and the source
progress. -/
namespace KvIndex
namespace Artifact

open Base LittleEndian ByteReader

theorem readInt_reads {T : Type} [LittleEndianInteger T] (v : T) :
    Reads (readInt T) (toBytes v) v := by
  intro pre post
  rw [readInt,readLittleEndian_middle,toBytes_length]
  rfl

theorem uint32_toNat {n : ℕ} (h : n ≤ uint32Max) : (UInt32.ofNat n).toNat = n := by
  rw [uint32Max] at h
  rw [UInt32.toNat_ofNat']
  exact Nat.mod_eq_of_lt (by omega)

theorem uint64_toNat {n : ℕ} (h : n ≤ uint64Max) : (UInt64.ofNat n).toNat = n := by
  rw [uint64Max] at h
  rw [UInt64.toNat_ofNat']
  exact Nat.mod_eq_of_lt (by omega)

/-- The bytes of a length-prefixed string stand behind its length. -/
theorem take_reads {check : Bytes → ℕ → Bool} {status : Status} {value : Bytes}
    (hcheck : ∀ bytes cursor, cursor+value.length ≤ bytes.length → check bytes cursor = false) :
    Reads (failWhen check status >>= fun _ => ByteReader.take value.length) value value :=
  (Reads.take value).failWhen_bind hcheck

theorem appendString_reads {message : String} {value enc : Bytes}
    (h : appendString value = .ok enc) : Reads (readString message) enc value := by
  simp only [appendString,bind_eq_ok,failIf_eq_ok,exists_const,decide_eq_false_iff_not,gt_iff_lt,
    Nat.not_lt,pure_eq_ok,Except.ok.injEq] at h
  obtain ⟨hlen,rfl⟩ := h
  have hn := uint32_toNat hlen
  refine (readInt_reads (UInt32.ofNat value.length)).bind ?_
  rw [hn]
  refine take_reads ?_
  intro bytes cursor hle
  simp only [Bool.or_eq_false_iff,decide_eq_false_iff_not]
  omega

theorem appendBlob_reads {blob enc : Bytes} (h : appendBlob blob = .ok enc) :
    Reads readBlob enc blob := by
  simp only [appendBlob,bind_eq_ok,failIf_eq_ok,exists_const,decide_eq_false_iff_not,gt_iff_lt,
    Nat.not_lt,pure_eq_ok,Except.ok.injEq] at h
  obtain ⟨hlen,rfl⟩ := h
  have hn := uint64_toNat hlen
  refine (readInt_reads (UInt64.ofNat blob.length)).bind ?_
  rw [hn]
  refine take_reads ?_
  intro bytes cursor hle
  simp only [Bool.or_eq_false_iff,decide_eq_false_iff_not]
  omega

theorem appendCounted_eq_ok {α : Type} {encode : α → StatusOr Bytes} {message : String}
    {values : List α} {enc : Bytes} (h : appendCounted encode message values = .ok enc) :
    ∃ parts, List.Forall₂ (fun a part => encode a = .ok part) values parts ∧
      (UInt32.ofNat values.length).toNat = values.length ∧
      enc = toBytes (UInt32.ofNat values.length)++parts.flatten := by
  simp only [appendCounted,bind_eq_ok,failIf_eq_ok,exists_const,decide_eq_false_iff_not,gt_iff_lt,
    Nat.not_lt,pure_eq_ok,Except.ok.injEq] at h
  obtain ⟨hlen,parts,hparts,rfl⟩ := h
  exact ⟨parts,mapM_eq_ok.mp hparts,uint32_toNat hlen,rfl⟩

theorem appendCounted_reads {α : Type} {encode : α → StatusOr Bytes} {message : String}
    {reader : Reader α} {values : List α} {enc : Bytes}
    (h : appendCounted encode message values = .ok enc)
    (hread : ∀ a enc, encode a = .ok enc → Reads reader enc a) :
    Reads (readInt UInt32 >>= fun count => many count.toNat reader) enc values := by
  obtain ⟨parts,hparts,hn,rfl⟩ := appendCounted_eq_ok h
  refine (readInt_reads (UInt32.ofNat values.length)).bind ?_
  rw [hn]
  exact Reads.many hparts hread

theorem appendStringList_reads {values : List Bytes} {enc : Bytes}
    (h : appendStringList values = .ok enc) : Reads readStringList enc values :=
  appendCounted_reads h fun _ _ hs => appendString_reads hs

theorem serializeSourceProgressEntry_reads {done rest : List ArtifactSourceProgress}
    {entry : ArtifactSourceProgress} (hvalid : ValidProgress (done++entry::rest)) {enc : Bytes}
    (h : serializeSourceProgressEntry entry = .ok enc) :
    Reads (readSourceProgressEntry done) enc (done++[entry]) := by
  simp only [serializeSourceProgressEntry,bind_eq_ok,pure_eq_ok,Except.ok.injEq] at h
  obtain ⟨topic,htopic,rfl⟩ := h
  obtain ⟨hname,hpartition,hcheckpoint,hwatermark⟩ := hvalid.valid entry (by simp)
  have hok : failIf (entry.topic.isEmpty || decide (entry.partition < 0) ||
      decide (entry.checkpointNextOffset < 0) ||
      decide (entry.highWatermark < entry.checkpointNextOffset))
      (.invalidArgument "invalid source progress entry") = .ok () := by
    simp only [failIf_eq_ok,Bool.or_eq_false_iff,decide_eq_false_iff_not,Int32.not_lt,Int64.not_lt,
      List.isEmpty_eq_false_iff]
    exact ⟨⟨⟨hname,hpartition⟩,hcheckpoint⟩,hwatermark⟩
  have hnew : failIf (done.any fun other => other.topic = entry.topic ∧
      other.partition = entry.partition)
      (.invalidArgument "duplicate source progress entry") = .ok () := by
    have hunique := hvalid.unique
    rw [List.map_append,List.nodup_append] at hunique
    simp only [failIf_eq_ok,List.any_eq_false,decide_eq_true_eq]
    rintro other hother ⟨htopic,hpart⟩
    exact hunique.2.2 _ (List.mem_map_of_mem hother) (entry.topic,entry.partition) (by simp)
      (Prod.ext htopic hpart)
  refine (appendString_reads htopic).bind ((readInt_reads entry.partition).bind ?_)
  refine (readInt_reads entry.checkpointNextOffset).bind ?_
  refine (readInt_reads entry.highWatermark).bind_nil ?_
  exact (Reads.lift hok).bind ((Reads.lift hnew).bind (Reads.pure _))

theorem parseSourceProgressSection_serialized {progress : List ArtifactSourceProgress}
    (hvalid : ValidProgress progress) {bytes : Bytes}
    (h : serializeSourceProgress progress = .ok bytes) :
    parseSourceProgressSection bytes = .ok progress := by
  obtain ⟨parts,hparts,hn,rfl⟩ := appendCounted_eq_ok h
  have hfold : ∀ done : List ArtifactSourceProgress,
      done.foldl (fun seen entry => seen++[entry]) [] = done := by
    intro done
    induction done using List.reverseRecOn with
    | nil => rfl
    | append_singleton done entry ih => rw [List.foldl_append,ih,List.foldl_cons,List.foldl_nil]
  have hread : Reads readSourceProgress (toBytes (UInt32.ofNat progress.length)++parts.flatten)
      progress := by
    refine (readInt_reads (UInt32.ofNat progress.length)).bind ?_
    rw [hn]
    have hloop : Reads (iterate progress.length readSourceProgressEntry []) parts.flatten
        (progress.foldl (fun seen entry => seen++[entry]) []) := by
      refine Reads.iterate _ _ hparts ?_
      intro done entry rest enc hsplit henc
      rw [hsplit] at hvalid
      rw [hfold]
      exact serializeSourceProgressEntry_reads hvalid henc
    rw [hfold] at hloop
    exact hloop
  have hwhole := hread [] []
  simp only [List.append_nil,List.nil_append,List.length_nil,Nat.zero_add] at hwhole
  simp [parseSourceProgressSection,hwhole]

end Artifact
end KvIndex
