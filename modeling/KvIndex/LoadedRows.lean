import KvIndex.LoadedArtifact

/-! The rows behind a load. A file is accepted without a look at its index and at its row
slots: whether a key can be read shows only when it is asked for. -/
namespace KvIndex
namespace Artifact

open Base LittleEndian

/-- What an accepted file is known to have: whole row slots, and a payload for each. -/
structure Mapped (backing : MmapSnapshotBacking) : Prop where
  slotSize : 0 < backing.artifact.layout.rowSlotSize
  whole : backing.rowSlotBytes.length%backing.artifact.layout.rowSlotSize = 0
  payloads : ∀ i < backing.rowSlotBytes.length/backing.artifact.layout.rowSlotSize,
    ∃ payload, readPayloadAt backing.rowPayloadBytes i = .ok payload

theorem loadShard_mapped {bytes : Bytes} {shardId : UInt32} {options : MmapSnapshotLoadOptions}
    {backing : MmapSnapshotBacking}
    (h : MmapSnapshotBacking.loadShard bytes shardId options = .ok backing) : Mapped backing := by
  simp only [MmapSnapshotBacking.loadShard,bind_eq_ok,failIf_eq_ok,exists_const,pure_eq_ok,
    Except.ok.injEq] at h
  obtain ⟨-,artifact,-,-,index,-,rowSlots,-,rowPayloads,-,haligned,_,hpayloads,_,-,rfl⟩ := h
  simp only [Bool.or_eq_false_iff,beq_eq_false_iff_ne,bne_eq_false_iff_eq] at haligned
  refine ⟨Nat.pos_of_ne_zero haligned.1,haligned.2,?_⟩
  intro i hi
  obtain ⟨payloads,last,hlength,hrows,-⟩ := rows_of_validate hpayloads
  exact ⟨_,hrows.readPayloadAt_eq (List.getElem?_eq_getElem (hlength ▸ hi))⟩

def rowSlotAt (backing : MmapSnapshotBacking) (rowOffset : UInt64) : Bytes :=
  slice backing.rowSlotBytes rowOffset.toNat backing.artifact.layout.rowSlotSize

/-- An index entry points to a row slot, and the required fields are present in it. -/
structure RowIntact (backing : MmapSnapshotBacking) (rowOffset : UInt64) : Prop where
  bound : rowOffset.toNat+backing.artifact.layout.rowSlotSize ≤ backing.rowSlotBytes.length
  aligned : rowOffset.toNat%backing.artifact.layout.rowSlotSize = 0
  required : ∀ field ∈ backing.artifact.layout.fields,
    Model.requiredFieldAbsent { rowSlot := rowSlotAt backing rowOffset } field = false

/-- The index of the file is valid, and all its entries point to rows that can be read. -/
def Intact (backing : MmapSnapshotBacking) : Prop :=
  ∃ index entries, FrozenPrimaryKeyIndexView.validate backing.frozenIndexBytes = .ok index ∧
    index.entries = .ok entries ∧ ∀ entry ∈ entries, RowIntact backing entry.rowOffset

instance (backing : MmapSnapshotBacking) (rowOffset : UInt64) :
    Decidable (RowIntact backing rowOffset) :=
  decidable_of_iff
    (rowOffset.toNat+backing.artifact.layout.rowSlotSize ≤ backing.rowSlotBytes.length ∧
      rowOffset.toNat%backing.artifact.layout.rowSlotSize = 0 ∧
      ∀ field ∈ backing.artifact.layout.fields,
        Model.requiredFieldAbsent { rowSlot := rowSlotAt backing rowOffset } field = false)
    ⟨fun h => ⟨h.1,h.2.1,h.2.2⟩,fun h => ⟨h.bound,h.aligned,h.required⟩⟩

def indexEntries (backing : MmapSnapshotBacking) : StatusOr (List FrozenPrimaryKeyIndexEntry) := do
  let index ← FrozenPrimaryKeyIndexView.validate backing.frozenIndexBytes
  index.entries

theorem intact_iff (backing : MmapSnapshotBacking) :
    Intact backing ↔ ∃ entries, indexEntries backing = .ok entries ∧
      ∀ entry ∈ entries, RowIntact backing entry.rowOffset := by
  simp only [Intact,indexEntries,bind_eq_ok]
  constructor
  · rintro ⟨index,entries,hindex,hentries,hrows⟩
    exact ⟨entries,⟨index,hindex,hentries⟩,hrows⟩
  · rintro ⟨entries,⟨index,hindex,hentries⟩,hrows⟩
    exact ⟨index,entries,hindex,hentries,hrows⟩

def checkIntact (backing : MmapSnapshotBacking) : Bool :=
  match indexEntries backing with
  | .error _ => false
  | .ok entries => entries.all fun entry => RowIntact backing entry.rowOffset

instance (backing : MmapSnapshotBacking) : Decidable (Intact backing) :=
  decidable_of_iff (checkIntact backing = true) <| by
    rw [intact_iff,checkIntact]
    cases indexEntries backing with
    | error status => simp
    | ok entries => simp

theorem Mapped.encodedRowAt {backing : MmapSnapshotBacking} (hm : Mapped backing)
    (rowOffset : UInt64) :
    (∃ encoded, backing.encodedRowAt rowOffset = .ok encoded) ↔
      rowOffset.toNat+backing.artifact.layout.rowSlotSize ≤ backing.rowSlotBytes.length ∧
        rowOffset.toNat%backing.artifact.layout.rowSlotSize = 0 := by
  have hpos := hm.slotSize
  simp only [MmapSnapshotBacking.encodedRowAt,bind_eq_ok,failIf_eq_ok,exists_const,pure_eq_ok,
    decide_eq_false_iff_not,beq_eq_false_iff_ne,bne_eq_false_iff_eq,gt_iff_lt,Nat.not_lt,ne_eq]
  constructor
  · rintro ⟨_,-,hstart,hroom,haligned,-⟩
    exact ⟨by omega,haligned⟩
  · rintro ⟨hbound,haligned⟩
    have hindex : rowOffset.toNat/backing.artifact.layout.rowSlotSize <
        backing.rowSlotBytes.length/backing.artifact.layout.rowSlotSize := by
      rw [Nat.div_lt_iff_lt_mul hpos,Nat.div_mul_cancel (Nat.dvd_of_mod_eq_zero hm.whole)]
      omega
    obtain ⟨payload,hpayload⟩ := hm.payloads _ hindex
    exact ⟨_,by omega,by omega,by omega,haligned,payload,hpayload,rfl⟩

theorem encodedRowAt_eq {backing : MmapSnapshotBacking} {rowOffset : UInt64} {encoded : EncodedRow}
    (h : backing.encodedRowAt rowOffset = .ok encoded) :
    ∃ payload, encoded = encodedRowOf backing.artifact.layout (rowSlotAt backing rowOffset) payload := by
  simp only [MmapSnapshotBacking.encodedRowAt,bind_eq_ok,failIf_eq_ok,exists_const,pure_eq_ok,
    Except.ok.injEq] at h
  obtain ⟨-,-,-,-,payload,-,rfl⟩ := h
  exact ⟨payload,rfl⟩

/-- Only the slot of a row decides which of its required fields are absent. -/
theorem requiredFieldAbsent_encodedRowOf (layout : CompiledRowLayout) (rowSlot : Bytes)
    (payload : OwnedSnapshotRowPayload) (field : FieldLayout) :
    Model.requiredFieldAbsent (encodedRowOf layout rowSlot payload) field =
      Model.requiredFieldAbsent { rowSlot } field := rfl

theorem Mapped.rowIntact_iff {backing : MmapSnapshotBacking} (hm : Mapped backing)
    (rowOffset : UInt64) :
    RowIntact backing rowOffset ↔ ∃ encoded row, backing.encodedRowAt rowOffset = .ok encoded ∧
      Model.materializeRow backing.artifact.layout encoded = .ok row := by
  constructor
  · intro hrow
    obtain ⟨encoded,hencoded⟩ := (hm.encodedRowAt rowOffset).mpr ⟨hrow.bound,hrow.aligned⟩
    obtain ⟨payload,heq⟩ := encodedRowAt_eq hencoded
    refine ⟨encoded,⟨backing.artifact.layout,encoded⟩,hencoded,?_⟩
    have hlength : (rowSlotAt backing rowOffset).length = backing.artifact.layout.rowSlotSize := by
      have hbound := hrow.bound
      rw [rowSlotAt,slice_length]
      omega
    simp only [heq,Model.materializeRow,bind_eq_ok,failIf_eq_ok,exists_const,pure_eq_ok]
    refine ⟨by simp [encodedRowOf],by simp [encodedRowOf,hlength],?_,trivial⟩
    simp only [List.any_eq_false,requiredFieldAbsent_encodedRowOf]
    intro field hfield
    simp [hrow.required field hfield]
  · rintro ⟨encoded,row,hencoded,hrow⟩
    obtain ⟨hbound,haligned⟩ := (hm.encodedRowAt rowOffset).mp ⟨encoded,hencoded⟩
    obtain ⟨payload,rfl⟩ := encodedRowAt_eq hencoded
    refine ⟨hbound,haligned,?_⟩
    intro field hfield
    simp only [Model.materializeRow,bind_eq_ok,failIf_eq_ok,exists_const,List.any_eq_false] at hrow
    simpa [requiredFieldAbsent_encodedRowOf] using hrow.2.2.1 field hfield

/-- Every key of a shard can be asked for exactly when its file is intact. -/
theorem Mapped.get_total_iff {backing : MmapSnapshotBacking} (hm : Mapped backing) :
    (∀ key, ∃ row, snapshotGet (some (.mmap backing)) key = .ok row) ↔ Intact backing := by
  constructor
  · intro hall
    have hget := fun key => hall key
    simp only [snapshotGet,bind_eq_ok] at hget
    obtain ⟨_,index,hindex,-⟩ := hget 0
    have hwell := (FrozenPrimaryKeyIndexView.validate_eq_ok.mp hindex).2.2.1
    refine ⟨index,_,hindex,hwell.entries,?_⟩
    intro entry hentry
    obtain ⟨hdistinct,hlookup⟩ := hwell.lookup_eq_find hwell.entries
    have hfind := (FirstWins.find_eq_some hdistinct).mpr ⟨hentry,rfl⟩
    obtain ⟨row,other,hother,offset,hoffset,hrow⟩ := hget entry.primaryKey
    rw [hindex,Except.ok.injEq] at hother
    subst hother
    rw [hlookup,hfind,Option.map_some,Except.ok.injEq] at hoffset
    subst hoffset
    obtain ⟨encoded,hencoded,row',hmaterialized,-⟩ := by simpa only [bind_eq_ok] using hrow
    exact (hm.rowIntact_iff _).mpr ⟨encoded,row',hencoded,hmaterialized⟩
  · rintro ⟨index,entries,hindex,hentries,hrows⟩ key
    have hwell := (FrozenPrimaryKeyIndexView.validate_eq_ok.mp hindex).2.2.1
    obtain ⟨hdistinct,hlookup⟩ := hwell.lookup_eq_find hentries
    simp only [snapshotGet,SnapshotBacking.frozenIndexBytes,hindex,ok_bind,hlookup]
    cases hfind : FirstWins.find FrozenPrimaryKeyIndexEntry.primaryKey entries key with
    | none => exact ⟨none,rfl⟩
    | some entry =>
      obtain ⟨encoded,row,hencoded,hrow⟩ :=
        (hm.rowIntact_iff _).mp (hrows entry ((FirstWins.find_eq_some hdistinct).mp hfind).1)
      refine ⟨some row,?_⟩
      simp only [Option.map_some,SnapshotBacking.encodedRowAt,hencoded,ok_bind,SnapshotBacking.layout,
        Model.materializeRow?,hrow,pure_eq_ok]

end Artifact

namespace Rebuild

open Base Ingest Artifact LoadView ForwardIndex CompiledRowLayout

/-- Shards that come in the order of their ids fill the directory from its start. -/
theorem publishAll_shards {directory : ShardDirectory PublishedShard} {shards : List PublishedShard}
    (hids : shards.map (·.shardId) = shardIds shards.length)
    (hle : shards.length ≤ directory.shards.length) (hlt : shards.length ≤ 2^32) :
    (publishAll directory shards).shards = shards.map some++directory.shards.drop shards.length := by
  induction shards using List.reverseRecOn with
  | nil => rfl
  | append_singleton shards shard ih =>
    rw [List.length_append,List.length_singleton] at hids hle hlt
    rw [List.map_append,shardIds_succ] at hids
    obtain ⟨hids,hid⟩ := List.append_inj' hids rfl
    have hshards := ih hids (by omega) (by omega)
    have hid : shard.shardId.toNat = shards.length := by
      rw [List.map_singleton,List.cons.injEq] at hid
      rw [hid.1,toNat_ofNat (by omega)]
    have hin : ¬shard.shardId.toNat ≥ (publishAll directory shards).shards.length := by
      rw [hshards,hid,List.length_append,List.length_map,List.length_drop]
      omega
    rw [publishAll_snoc,ShardDirectory.publish,if_neg hin]
    show (publishAll directory shards).shards.set shard.shardId.toNat (some shard) = _
    rw [hshards,hid,List.drop_eq_getElem_cons (by omega),List.set_append_right _ _ (by simp),
      List.length_map,Nat.sub_self,List.set_cons_zero,List.map_append,List.append_assoc,
      List.length_append]
    rfl

section Served

variable {request : LoadRequest} {id : LoadId} {options : ForwardIndexOptions}
  {directory : ShardDirectory PublishedShard} {fuel : ℕ} {labels : List LoadLabel} {world : LoadWorld}

/-- When a load has published all its shards, they are what the directory holds. -/
theorem LoadRun.directory_all {events : List LoadEvent} {out : Option LoadOutcome}
    (h : LoadRun request id options true fuel events out)
    (hall : (publishedShards events).length = options.shardCount.toNat)
    (hdirectory : directory.shards.length = options.shardCount.toNat) {i : ℕ}
    (hi : i < options.shardCount.toNat) :
    ∃ shard, shard ∈ (publishedShards events)[i]? ∧ (publishCalls events)[i]? = some shard ∧
      (publishAll directory (publishedShards events)).load (UInt32.ofNat i) = .ok (some shard) := by
  obtain ⟨k,hk,hids,hpublished⟩ := h.publishCalls_ids
  have hsame : publishedShards events = publishCalls events :=
    hpublished.eq_of_length_le (h.publishCalls_length.trans hall.ge)
  rw [hsame] at hall
  have hcount : k = options.shardCount.toNat := by
    have hmap := congrArg List.length hids
    rw [List.length_map,hall,shardIds,List.length_map,List.length_range] at hmap
    exact hmap.symm
  rw [hcount,← hall] at hids
  obtain ⟨shard,hget⟩ : ∃ shard, (publishCalls events)[i]? = some shard :=
    ⟨_,List.getElem?_eq_getElem (hall ▸ hi)⟩
  refine ⟨shard,hsame ▸ hget,hget,?_⟩
  have hlt := options.shardCount.toNat_lt
  have hshards := publishAll_shards hids (hall.trans hdirectory.symm).le (by omega)
  have hid : (UInt32.ofNat i).toNat = i := toNat_ofNat (by omega)
  rw [ShardDirectory.load,hsame,hshards,hid,List.getElem?_append_left (by simpa [hall]),
    List.getElem?_map,hget]
  rfl

/-- Every shard of a load that has succeeded serves the file it was loaded from. -/
theorem LoadHistory.served (h : LoadHistory request id options directory fuel labels world)
    (hdirectory : directory.shards.length = options.shardCount.toNat)
    (hsucceeded : world.record.code = .kSucceeded) {i : ℕ} (hi : i < options.shardCount.toNat) :
    ∃ shard backing, (publishedShards (workerEvents labels))[i]? = some shard ∧
      (loadedBackings options (workerEvents labels))[i]? = some backing ∧
      shard.fullSnapshot = ⟨some (.mmap backing)⟩ ∧
      (shard.realtimeDelta =
        if forwardIndexModeUsesKafkaRealtime options.mode then some i else none) ∧
      world.directory.load (UInt32.ofNat i) = .ok (some shard) := by
  have hrun := h.loadRun
  obtain ⟨shard,hpublished,hcall,hload⟩ :=
    hrun.directory_all (h.inv.record.succeeded hsucceeded) hdirectory hi
  obtain ⟨-,-,backing,hbacking,hsnapshot,htable⟩ := hrun.publishCalls_getElem hcall
  exact ⟨shard,backing,hpublished,hbacking,hsnapshot,htable,h.inv.directory ▸ hload⟩

theorem shardFor_toNat (options : ForwardIndexOptions) (key : UInt64) :
    (shardFor options key).toNat =
      (stableHash64 key options.hashSeed options.hashVersion).toNat &&&
        (options.shardCount.toNat-1) := by
  have hpos := shardCount_pos options
  have hcount := options.shardCount.toNat_lt
  have hle : (stableHash64 key options.hashSeed options.hashVersion).toNat &&&
      (options.shardCount.toNat-1) ≤ options.shardCount.toNat-1 := Nat.and_le_right
  rw [ForwardIndex.shardFor,toNat_ofNat (by omega)]

theorem shardFor_lt (options : ForwardIndexOptions) (key : UInt64) :
    (shardFor options key).toNat < options.shardCount.toNat := by
  have hpos := shardCount_pos options
  have hle : (stableHash64 key options.hashSeed options.hashVersion).toNat &&&
      (options.shardCount.toNat-1) ≤ options.shardCount.toNat-1 := Nat.and_le_right
  rw [shardFor_toNat]
  omega

theorem resolve_get (shard : PublishedShard) (tables : Tables) (key : UInt64) :
    (shard.resolve tables).get key =
      ifMiss (match shard.realtimeDelta with
        | none => .ok none
        | some table => (tables table).get key) (shard.fullSnapshot.get key) := by
  cases hdelta : shard.realtimeDelta with
  | none => simp [PublishedShard.resolve,hdelta,ShardState.get,ShardState.realtimeGet,
      ShardState.compactGet,ShardState.fullGet]
  | some table => simp [PublishedShard.resolve,hdelta,ShardState.get,ShardState.realtimeGet,
      ShardState.compactGet,ShardState.fullGet]

/-- The realtime tables as loads make them and appliers fill them. -/
def ServingTables (options : ForwardIndexOptions) (tables : Tables) : Prop :=
  ∀ ref, ∃ layout calls, tables ref = (createRealtimeShard layout options).publishAll calls

theorem ServingTables.get {tables : Tables} (h : ServingTables options tables) (ref : TableRef)
    (key : UInt64) : ∃ row, (tables ref).get key = .ok row := by
  obtain ⟨layout,calls,htable⟩ := h ref
  have hsound : ((createRealtimeShard layout options).publishAll calls).Sound :=
    (RealtimeDeltaAtomicTable.sound_create _).publishAll calls
  rw [htable]
  exact ⟨_,hsound.get_eq (RealtimeDeltaAtomicTable.publishAll_layout _ calls) key⟩

theorem LoadHistory.get_eq (h : LoadHistory request id options directory fuel labels world)
    (hdirectory : directory.shards.length = options.shardCount.toNat)
    (hsucceeded : world.record.code = .kSucceeded) (key : UInt64) :
    ∃ backing, (loadedBackings options (workerEvents labels))[(shardFor options key).toNat]? =
        some backing ∧
      ∀ tables, ForwardIndex.get options world.directory tables key =
        ifMiss (if forwardIndexModeUsesKafkaRealtime options.mode then
            (tables (shardFor options key).toNat).get key
          else .ok none) (snapshotGet (some (.mmap backing)) key) := by
  obtain ⟨shard,backing,-,hbacking,hsnapshot,htable,hload⟩ :=
    h.served hdirectory hsucceeded (shardFor_lt options key)
  rw [UInt32.ofNat_toNat] at hload
  refine ⟨backing,hbacking,?_⟩
  intro tables
  rw [ForwardIndex.get,hload]
  show (shard.resolve tables).get key = _
  rw [resolve_get,hsnapshot,htable]
  cases forwardIndexModeUsesKafkaRealtime options.mode with
  | false => rfl
  | true => rfl

/-- The files of the shards of a load are intact. -/
def FilesIntact (options : ForwardIndexOptions) (events : List LoadEvent) : Prop :=
  ∀ i < options.shardCount.toNat, ∀ backing ∈ (loadedBackings options events)[i]?, Intact backing

/-- Every key can be asked for, in the snapshots of the load and in the index. -/
structure Readable (options : ForwardIndexOptions) (events : List LoadEvent)
    (directory : ShardDirectory PublishedShard) : Prop where
  snapshots : ∀ shard ∈ publishedShards events, ∀ key, ∃ row, shard.fullSnapshot.get key = .ok row
  index : ∀ tables, ServingTables options tables → ∀ key, ∃ row,
    ForwardIndex.get options directory tables key = .ok row

theorem loadedBackings_mapped {events : List LoadEvent} {i : ℕ} {backing : MmapSnapshotBacking}
    (hb : (loadedBackings options events)[i]? = some backing) : Mapped backing := by
  obtain ⟨uri,shardId,bytes,-,hload⟩ := mem_loadedBackings (List.mem_of_getElem? hb)
  exact loadShard_mapped hload

/-- Every key of a load that has succeeded can be read exactly when the files of its shards
are intact. -/
theorem succeeded_load_reads_iff (request : LoadRequest) (id : LoadId)
    (options : ForwardIndexOptions) (directory : ShardDirectory PublishedShard) (fuel : ℕ)
    (labels : List LoadLabel) (world : LoadWorld)
    (hdirectory : directory.shards.length = options.shardCount.toNat)
    (h : LoadHistory request id options directory fuel labels world)
    (hsucceeded : world.record.code = .kSucceeded) :
    Readable options (workerEvents labels) world.directory ↔
      FilesIntact options (workerEvents labels) := by
  constructor
  · intro hreadable i hi backing hb
    obtain ⟨shard,backing',hshard,hbacking,hsnapshot,-,-⟩ := h.served hdirectory hsucceeded hi
    rw [Option.mem_def,hbacking,Option.some.injEq] at hb
    subst hb
    refine (loadedBackings_mapped hbacking).get_total_iff.mp ?_
    intro key
    obtain ⟨row,hrow⟩ := hreadable.snapshots shard (List.mem_of_getElem? hshard) key
    rw [hsnapshot] at hrow
    exact ⟨row,hrow⟩
  · intro hintact
    have htotal : ∀ i < options.shardCount.toNat, ∀ backing,
        (loadedBackings options (workerEvents labels))[i]? = some backing →
        ∀ key, ∃ row, snapshotGet (some (.mmap backing)) key = .ok row := by
      intro i hi backing hb
      exact (loadedBackings_mapped hb).get_total_iff.mpr (hintact i hi backing hb)
    refine ⟨?_,?_⟩
    · intro shard hshard key
      obtain ⟨i,hget⟩ := List.mem_iff_getElem?.mp hshard
      have hi : i < options.shardCount.toNat := by
        rw [← h.inv.record.succeeded hsucceeded]
        exact (List.getElem?_eq_some_iff.mp hget).1
      obtain ⟨shard',backing,hget',hbacking,hsnapshot,-,-⟩ := h.served hdirectory hsucceeded hi
      rw [hget,Option.some.injEq] at hget'
      subst hget'
      rw [hsnapshot]
      exact htotal i hi backing hbacking key
    · intro tables htables key
      obtain ⟨backing,hbacking,hget⟩ := h.get_eq hdirectory hsucceeded key
      obtain ⟨row,hrow⟩ := htotal _ (shardFor_lt options key) backing hbacking key
      obtain ⟨fresh,hfresh⟩ := htables.get (ForwardIndex.shardFor options key).toNat key
      rw [hget,hrow]
      cases forwardIndexModeUsesKafkaRealtime options.mode with
      | false => exact ⟨row,rfl⟩
      | true =>
        rw [if_pos rfl,hfresh]
        cases fresh with
        | none => exact ⟨row,rfl⟩
        | some fresh => exact ⟨some fresh,rfl⟩

end Served

theorem worker_run (answer : (op : LoadOp) → LoadRes op) (p : Loading LoadOutcome)
    (world : LoadWorld) (h : world.cancelling = false) :
    Steps LoadStep { world with worker := some p } ((p.trace (respond answer) world).map .work)
      { (p.run (respond answer) world).2 with
        worker := some (.done (p.run (respond answer) world).1) } := by
  induction p generalizing world with
  | done outcome => exact Steps.nil
  | perform op next ih =>
    have hstep := respond_step answer op h (some (.perform op next))
    have hnext := (respond_cancelling answer op world).trans h
    exact Steps.head (LoadStep.work rfl hstep) (ih _ _ hnext)

def snapshotIndex : ForwardIndexOptions :=
  { mode := .kFullSnapshotOnly,shardCount := 1
    shardCount_isPowerOfTwo := sampleIndex.shardCount_isPowerOfTwo }

def fileStart (options : ForwardIndexOptions) : LoadWorld :=
  startLoad sampleRequest 1 options (.create options.shardCount) 1

def fileAnswer (file : Bytes) : (op : LoadOp) → LoadRes op
  | .mapShardFile _ _ => .ok file
  | op => sampleAnswer op

def fileEvents (options : ForwardIndexOptions) (file : Bytes) : List LoadEvent :=
  (runExternalArtifactLoad sampleRequest 1 options true 1).trace (respond (fileAnswer file))
    (fileStart options)

def fileWorld (options : ForwardIndexOptions) (file : Bytes) : LoadWorld :=
  let result := (runExternalArtifactLoad sampleRequest 1 options true 1).run
    (respond (fileAnswer file)) (fileStart options)
  { result.2 with worker := some (.done result.1) }

theorem fileWorld_history (options : ForwardIndexOptions) (file : Bytes) :
    LoadHistory sampleRequest 1 options (.create options.shardCount) 1
      ((fileEvents options file).map .work) (fileWorld options file) :=
  worker_run (fileAnswer file) _ (fileStart options) rfl

theorem workerEvents_map_work (events : List LoadEvent) :
    workerEvents (events.map .work) = events := by
  rw [workerEvents,List.filterMap_map]
  exact List.filterMap_some

theorem sampleFile_intact :
    (fileWorld snapshotIndex sampleFile).record.code = .kSucceeded ∧
      ∀ backing ∈ loadedBackings snapshotIndex (fileEvents snapshotIndex sampleFile),
        Intact backing := by
  rw [sampleFile_eq]
  decide +kernel

theorem succeeded_load_reads_sample :
    (fileWorld snapshotIndex sampleFile).record.code = .kSucceeded ∧
      Readable snapshotIndex (fileEvents snapshotIndex sampleFile)
        (fileWorld snapshotIndex sampleFile).directory := by
  obtain ⟨hsucceeded,hintact⟩ := sampleFile_intact
  have hreads := succeeded_load_reads_iff sampleRequest 1 snapshotIndex (.create 1) 1 _ _
    (by simp [ShardDirectory.create,snapshotIndex])
    (fileWorld_history snapshotIndex sampleFile) hsucceeded
  rw [workerEvents_map_work] at hreads
  refine ⟨hsucceeded,hreads.mpr ?_⟩
  intro i _ backing hb
  exact hintact backing (List.mem_of_getElem? hb)

/-- A layout whose field is required, and a file with a row that lacks it. -/
def requiredSchema : RuntimeSchema := fieldSchema { fieldId := 1,name := [118],nullable := false }

def hollowSpec : ArtifactBuildSpec :=
  { sampleSpec with
    layout := some (compile requiredSchema)
    shards := [{ rows := [⟨7,Model.createEncodedRow (compile requiredSchema)⟩] }] }

def hollowFile : Bytes := (writeArtifact hollowSpec).toOption.getD []

def isError (answer : StatusOr (Option Row)) : Bool :=
  match answer with
  | .error _ => true
  | .ok _ => false

theorem hollowFile_eq : hollowFile =
    (composeArtifact hollowSpec (compile requiredSchema) hollowSpec.shards).toOption.getD [] := by
  have hcomposable : Composable hollowSpec (compile requiredSchema) hollowSpec.shards :=
    ⟨rfl,by decide,by decide,by decide,rfl,by decide⟩
  rw [hollowFile,hcomposable.writeArtifact_eq rfl]

theorem hollowFile_loads :
    (fileWorld snapshotIndex hollowFile).record.code = .kSucceeded ∧
      isError (ForwardIndex.get snapshotIndex (fileWorld snapshotIndex hollowFile).directory
        (fun _ => createRealtimeShard (compile requiredSchema) snapshotIndex) 7) = true := by
  rw [hollowFile_eq]
  decide +kernel

/-- A load succeeds with a file whose only key cannot be read. -/
theorem hollowRow_is_unreadable :
    LoadHistory sampleRequest 1 snapshotIndex (.create 1) 1
        ((fileEvents snapshotIndex hollowFile).map .work) (fileWorld snapshotIndex hollowFile) ∧
      (fileWorld snapshotIndex hollowFile).record.code = .kSucceeded ∧
      ¬Readable snapshotIndex (fileEvents snapshotIndex hollowFile)
        (fileWorld snapshotIndex hollowFile).directory := by
  obtain ⟨hsucceeded,herror⟩ := hollowFile_loads
  refine ⟨fileWorld_history snapshotIndex hollowFile,hsucceeded,?_⟩
  intro hreadable
  have htables : ServingTables snapshotIndex
      fun _ => createRealtimeShard (compile requiredSchema) snapshotIndex :=
    fun _ => ⟨_,[],rfl⟩
  obtain ⟨row,hrow⟩ := hreadable.index _ htables 7
  rw [hrow] at herror
  cases herror

end Rebuild
end KvIndex
