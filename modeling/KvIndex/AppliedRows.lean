import KvIndex.MultiGet
import KvIndex.RowRoundTrip
import KvIndex.UpdateReplay

/-! From `Apply` to `Get`: what readers of an index see after a sequence of `Apply` calls on the
realtime tables of its shards. -/
namespace KvIndex
namespace Ingest

open Base Schema CompiledRowLayout RealtimeDeltaAtomicTable

/-- The tables after `Apply` calls, one after the other. -/
def applyAll (options : UpdateApplierOptions) (tables : Tables) (messages : List KafkaUpsertMessage) :
    Tables :=
  messages.foldl (fun tables message => ((apply options message).run publishTo tables).2) tables

/-- A message for which one of the calls returned `Ok`. -/
def AppliedAmong (options : UpdateApplierOptions) (tables : Tables) (messages : List KafkaUpsertMessage)
    (message : KafkaUpsertMessage) : Prop :=
  ∃ earlier later, messages = earlier++message::later ∧
    ((apply options message).run publishTo (applyAll options tables earlier)).1 = .ok ()

def messageOffset (message : KafkaUpsertMessage) : ℤ := message.metadata.offset.toInt

def tableOf (route : UpdateTargetRoute) (primaryKey : UInt64) : Option TableRef :=
  route.realtimeShards.getD (shardFor primaryKey route) none

/-- The publish of a message for a route. -/
def Makes (route : UpdateTargetRoute) (message : KafkaUpsertMessage) (call : PublishCall) : Prop :=
  ∃ payload encoded, decodePayload message.payload = .ok payload ∧
    encodeForLayout payload route.layout = .ok encoded ∧
      call = ⟨message.primaryKey,sourcePosition message,encoded⟩

def shown (route : UpdateTargetRoute) (tables : Tables) (primaryKey : UInt64) : Option PublishCall :=
  (tableOf route primaryKey).bind fun ref => (tables ref).latest primaryKey

def tableGet (route : UpdateTargetRoute) (tables : Tables) (primaryKey : UInt64) :
    StatusOr (Option Row) :=
  match tableOf route primaryKey with
  | none => .ok none
  | some ref => (tables ref).get primaryKey

theorem appliedAmong_snoc {options : UpdateApplierOptions} {tables : Tables}
    {messages : List KafkaUpsertMessage} {next message : KafkaUpsertMessage} :
    AppliedAmong options tables (messages++[next]) message ↔
      AppliedAmong options tables messages message ∨ message = next ∧
        ((apply options next).run publishTo (applyAll options tables messages)).1 = .ok () :=
  exists_split_snoc (P := fun earlier message =>
    ((apply options message).run publishTo (applyAll options tables earlier)).1 = .ok ())

section Route

variable {options : UpdateApplierOptions} {route : UpdateTargetRoute} {tables : Tables}

/-- With one target a message is prepared for the table of its key. -/
theorem prepare_single (htargets : options.targets = [route]) {message : KafkaUpsertMessage}
    {prepared : List PreparedPublish} (h : prepare options message = .ok prepared) :
    ∃ publish, prepared = [publish] ∧ tableOf route message.primaryKey = some publish.table ∧
      Makes route message publish.call := by
  simp only [prepare,htargets,List.mapM_cons,List.mapM_nil,bind_eq_ok,pure_eq_ok,
    Except.ok.injEq] at h
  obtain ⟨-,-,-,-,payload,hdecode,publish,hroute,_,rfl,rfl⟩ := h
  simp only [prepareRoute,bind_eq_ok] at hroute
  obtain ⟨encoded,hencode,hroute⟩ := hroute
  refine ⟨publish,rfl,?_⟩
  rw [tableOf]
  cases htable : route.realtimeShards.getD (shardFor message.primaryKey route) none with
  | none =>
    rw [htable] at hroute
    cases hroute
  | some ref =>
    rw [htable] at hroute
    cases hroute
    exact ⟨rfl,payload,encoded,hdecode,hencode,rfl⟩

theorem apply_run_single {message : KafkaUpsertMessage} {publish : PreparedPublish}
    (h : prepare options message = .ok [publish]) :
    (apply options message).run publishTo tables = publishTo publish tables := by
  simp only [apply,h,publishPrepared,Prog.call_bind,Prog.run]
  generalize publishTo publish tables = result
  obtain ⟨status,next⟩ := result
  cases status with
  | error status => rfl
  | ok _ => rfl

/-- What the tables of a route show after the messages `applied`. -/
structure Shows (route : UpdateTargetRoute) (tables : Tables) (applied : Set KafkaUpsertMessage) :
    Prop where
  sound : ∀ ref, some ref ∈ route.realtimeShards →
    (tables ref).Sound ∧ (tables ref).layout = route.layout
  held : ∃ last : UInt64 → Option KafkaUpsertMessage,
    (∀ k, LastWriter.Answers KafkaUpsertMessage.primaryKey messageOffset applied k
      (last k)) ∧ ∀ k, Option.Rel (Makes route) (last k) (shown route tables k)

theorem mem_of_tableOf {primaryKey : UInt64} {ref : TableRef}
    (h : tableOf route primaryKey = some ref) : some ref ∈ route.realtimeShards := by
  rw [tableOf,List.getD_eq_getElem?_getD] at h
  cases hget : route.realtimeShards[shardFor primaryKey route]? with
  | none =>
    rw [hget] at h
    cases h
  | some table =>
    rw [hget] at h
    cases h
    exact List.mem_of_getElem? hget

theorem shown_empty (hempty : ∀ ref, some ref ∈ route.realtimeShards →
    ∃ tableOptions, tableOptions.layout = route.layout ∧ tables ref = create tableOptions)
    (primaryKey : UInt64) : shown route tables primaryKey = none := by
  rw [shown]
  cases htable : tableOf route primaryKey with
  | none => rfl
  | some ref =>
    obtain ⟨tableOptions,-,hcreate⟩ := hempty ref (mem_of_tableOf htable)
    rw [Option.bind_some,hcreate,latest_create]

theorem Shows.empty (hempty : ∀ ref, some ref ∈ route.realtimeShards →
    ∃ tableOptions, tableOptions.layout = route.layout ∧ tables ref = create tableOptions) :
    Shows route tables ∅ where
  sound := by
    intro ref href
    obtain ⟨tableOptions,hlayout,htable⟩ := hempty ref href
    rw [htable]
    exact ⟨sound_create _,hlayout⟩
  held := by
    refine ⟨fun _ => none,fun k message hmessage => absurd hmessage (Set.notMem_empty _),?_⟩
    intro k
    rw [shown_empty hempty]
    exact Option.Rel.none

theorem shown_publishTo (hsound : ∀ ref, some ref ∈ route.realtimeShards → (tables ref).Sound)
    {publish : PreparedPublish} (htable : tableOf route publish.call.primaryKey = some publish.table)
    (hok : (publishTo publish tables).1 = .ok ()) :
    shown route (publishTo publish tables).2 =
      LastWriter.write PublishCall.primaryKey sourceOffset (shown route tables) publish.call := by
  have hs := hsound _ (mem_of_tableOf htable)
  funext k
  by_cases hk : k = publish.call.primaryKey
  · subst hk
    rw [LastWriter.write_self,shown,shown,htable,Option.bind_some,Option.bind_some,publishTo_self,
      hs.publish_latest hok,LastWriter.write_self]
  · rw [LastWriter.write_of_ne _ hk,shown,shown]
    cases hother : tableOf route k with
    | none => rfl
    | some ref =>
      rw [Option.bind_some,Option.bind_some]
      by_cases href : ref = publish.table
      · subst href
        rw [publishTo_self,hs.publish_latest hok,LastWriter.write_of_ne _ hk]
      · rw [publishTo_of_ne href]

theorem Shows.tableGet_eq {applied : Set KafkaUpsertMessage} (h : Shows route tables applied)
    {layout : CompiledRowLayout} (hlayout : route.layout = some layout) (primaryKey : UInt64) :
    tableGet route tables primaryKey =
      .ok ((shown route tables primaryKey).map fun call => ⟨layout,call.encoded⟩) := by
  rw [tableGet,shown]
  cases htable : tableOf route primaryKey with
  | none => rfl
  | some ref =>
    obtain ⟨hsound,htableLayout⟩ := h.sound ref (mem_of_tableOf htable)
    exact hsound.get_eq_latest (htableLayout.trans hlayout) primaryKey

theorem Makes.key_eq {message : KafkaUpsertMessage} {call : PublishCall}
    (h : Makes route message call) : message.primaryKey = call.primaryKey := by
  obtain ⟨payload,encoded,-,-,rfl⟩ := h
  rfl

theorem Makes.offset_eq {message : KafkaUpsertMessage} {call : PublishCall}
    (h : Makes route message call) : messageOffset message = sourceOffset call := by
  obtain ⟨payload,encoded,-,-,rfl⟩ := h
  rfl

theorem shown_of_error {publish : PreparedPublish} {status : Status}
    (h : (publishTo publish tables).1 = .error status) :
    shown route (publishTo publish tables).2 = shown route tables := by
  funext k
  rw [shown,shown]
  cases tableOf route k with
  | none => rfl
  | some ref =>
    rw [Option.bind_some,Option.bind_some,latest,latest,(publishTo_failed h ref).2]

theorem publishTo_sound {publish : PreparedPublish} {ref : TableRef} {layout : Option CompiledRowLayout}
    (h : (tables ref).Sound ∧ (tables ref).layout = layout) :
    ((publishTo publish tables).2 ref).Sound ∧ ((publishTo publish tables).2 ref).layout = layout := by
  by_cases href : ref = publish.table
  · subst href
    rw [publishTo_self]
    exact ⟨h.1.publish _ _ _,(publish_layout _ _ _ _).trans h.2⟩
  · rw [publishTo_of_ne href]
    exact h

/-- One call of `Apply`: the message joins what is shown exactly when `Ok` is returned. -/
theorem Shows.apply (htargets : options.targets = [route]) {applied : Set KafkaUpsertMessage}
    (h : Shows route tables applied) (message : KafkaUpsertMessage) :
    Shows route ((Ingest.apply options message).run publishTo tables).2 {m | m ∈ applied ∨
      m = message ∧ ((Ingest.apply options message).run publishTo tables).1 = .ok ()} := by
  cases hprepare : prepare options message with
  | error status =>
    have hrun : (Ingest.apply options message).run publishTo tables = (.error status,tables) := by
      simp only [Ingest.apply,hprepare,Prog.pure_eq,Prog.run]
    rw [hrun]
    simpa using h
  | ok prepared =>
    obtain ⟨publish,rfl,htable,hmakes⟩ := prepare_single htargets hprepare
    rw [apply_run_single hprepare]
    refine ⟨fun ref href => publishTo_sound (h.sound ref href),?_⟩
    obtain ⟨last,hanswers,hlast⟩ := h.held
    cases hstatus : (publishTo publish tables).1 with
    | error status =>
      rw [shown_of_error hstatus]
      exact ⟨last,by simpa using hanswers,hlast⟩
    | ok _ =>
      rw [hmakes.key_eq] at htable
      rw [shown_publishTo (fun ref href => (h.sound ref href).1) htable hstatus]
      refine ⟨LastWriter.write KafkaUpsertMessage.primaryKey messageOffset last message,?_,?_⟩
      · intro k
        have hset : {m | m ∈ applied ∨ m = message ∧ Except.ok () = (.ok () : StatusOr Unit)} =
            insert message applied := by
          ext m
          simp only [and_true,Set.mem_ofPred_eq,Set.mem_insert_iff,or_comm]
        rw [hset]
        exact LastWriter.Answers.write hanswers message k
      · exact LastWriter.write_rel (R := Makes route) (fun _ _ => Makes.key_eq)
          (fun _ _ => Makes.offset_eq) hlast hmakes

/-- After any sequence of calls the tables show the latest applied message of every key. -/
theorem Shows.applyAll (htargets : options.targets = [route]) (h : Shows route tables ∅)
    (messages : List KafkaUpsertMessage) :
    Shows route (Ingest.applyAll options tables messages)
      {m | AppliedAmong options tables messages m} := by
  induction messages using List.reverseRecOn with
  | nil =>
    have hset : {m | AppliedAmong options tables [] m} = ∅ := by
      ext m
      simp [AppliedAmong]
    rw [hset]
    exact h
  | append_singleton messages message ih =>
    have hset : {m | AppliedAmong options tables (messages++[message]) m} =
        {m | m ∈ {m | AppliedAmong options tables messages m} ∨ m = message ∧
          ((Ingest.apply options message).run publishTo
            (Ingest.applyAll options tables messages)).1 = .ok ()} := by
      ext m
      exact appliedAmong_snoc
    rw [hset,Ingest.applyAll,List.foldl_append]
    exact ih.apply htargets message

end Route

end Ingest

namespace Runtime

open Base Schema CompiledRowLayout Ingest RealtimeDeltaAtomicTable

/-- The index while these tables are the realtime layers of its shards. -/
def ForwardIndex.withTables (index : ForwardIndex) (realtimeShards : List (Option TableRef))
    (tables : Tables) : ForwardIndex where
  options := index.options
  directory := ⟨index.directory.shards.mapIdx fun shardId state => state.map fun shard =>
    { shard with realtimeDelta := (realtimeShards.getD shardId none).map tables }⟩
  directory_length := List.length_mapIdx.trans index.directory_length

/-- The route hashes and counts shards as the index does, and every shard is published. -/
structure Serves (index : ForwardIndex) (route : UpdateTargetRoute) : Prop where
  shardCount : route.shardCount = index.options.shardCount.toNat
  hashSeed : route.hashSeed = index.options.hashSeed
  hashVersion : route.hashVersion = index.options.hashVersion
  published : ∀ state ∈ index.directory.shards, state ≠ none

variable {index : ForwardIndex} {route : UpdateTargetRoute}

theorem Serves.shardFor_eq (h : Serves index route) (primaryKey : UInt64) :
    Ingest.shardFor primaryKey route = (index.shardFor primaryKey).toNat := by
  rw [Ingest.shardFor,h.shardCount,h.hashSeed,h.hashVersion,ForwardIndex.shardFor,
    Rebuild.shardFor_toNat]

/-- `Get` asks the table that the route has for the key, and then the lower layers. -/
theorem Serves.get_eq (h : Serves index route) (primaryKey : UInt64) :
    ∃ shard : ShardState, ∀ tables,
      (index.withTables route.realtimeShards tables).get primaryKey =
        orThrow (ifMiss (tableGet route tables primaryKey)
          (ifMiss (shard.compactGet primaryKey) (shard.fullGet primaryKey))) := by
  have hlt := index.shardFor_lt_count primaryKey
  have hlength := index.directory_length
  have hinside : (index.shardFor primaryKey).toNat < index.directory.shards.length := by omega
  obtain ⟨shard,hshard⟩ := Option.ne_none_iff_exists'.mp
    (h.published _ (List.getElem_mem hinside))
  refine ⟨shard,fun tables => ?_⟩
  have hstate : (index.withTables route.realtimeShards tables).directory.shards.getD
      (index.shardFor primaryKey).toNat none =
        some { shard with realtimeDelta := (tableOf route primaryKey).map tables } := by
    rw [tableOf,h.shardFor_eq,ForwardIndex.withTables,List.getD_eq_getElem?_getD,
      List.getElem?_mapIdx,List.getElem?_eq_getElem hinside,hshard]
    rfl
  rw [ForwardIndex.get_eq_answerOf rfl]
  change ForwardIndex.answerOf ((index.withTables route.realtimeShards tables).directory.shards.getD
    (index.shardFor primaryKey).toNat none) primaryKey = _
  rw [hstate]
  rw [tableGet]
  cases tableOf route primaryKey with
  | none => rfl
  | some ref => rfl

/-- The row of a message: it reads as the payload says, field by field. -/
structure ReadsAs (schema : RuntimeSchema) (payload : DecodedPayload) (row : Row) : Prop where
  layout : row.layout = compile schema
  carried : ∀ decoded ∈ payload, ∀ field,
    (compile schema).findField decoded.fieldId = some field →
      row.has decoded.fieldId = true ∧ row.readField field = .ok decoded.value
  absent : ∀ field ∈ (compile schema).fields,
    (∀ decoded ∈ payload, decoded.fieldId ≠ field.fieldId) →
      row.has field.fieldId = false ∧ row.readField field = absentRead field

/-- What `Get` answers after any sequence of `Apply` calls on empty realtime tables. -/
theorem applied_rows_served {options : UpdateApplierOptions} (htargets : options.targets = [route])
    (hserves : Serves index route) {schema : RuntimeSchema} (hr : schema.Reachable)
    (hlayout : route.layout = some (compile schema)) {tables : Tables}
    (hempty : ∀ ref, some ref ∈ route.realtimeShards →
      ∃ tableOptions, tableOptions.layout = route.layout ∧ tables ref = create tableOptions)
    (messages : List KafkaUpsertMessage)
    (hdistinct : ∀ a ∈ messages, ∀ b ∈ messages, a.primaryKey = b.primaryKey →
      a.metadata.offset = b.metadata.offset → a = b)
    (hmemory : ∀ message ∈ messages, ∀ payload encoded,
      decodePayload message.payload = .ok payload →
        encodeForLayout payload route.layout = .ok encoded → encoded.arena.length ≤ uint64Max) :
    (∀ message, AppliedAmong options tables messages message → ∃ latest payload row,
      LastWriter.IsLatest KafkaUpsertMessage.primaryKey messageOffset
        {m | AppliedAmong options tables messages m} message.primaryKey latest ∧
      (∀ other, LastWriter.IsLatest KafkaUpsertMessage.primaryKey messageOffset
        {m | AppliedAmong options tables messages m} message.primaryKey other → other = latest) ∧
      decodePayload latest.payload = .ok payload ∧
      (index.withTables route.realtimeShards (applyAll options tables messages)).get
        message.primaryKey = .ok (some row) ∧ ReadsAs schema payload row) ∧
    ∀ key, (∀ message, AppliedAmong options tables messages message → message.primaryKey ≠ key) →
      (index.withTables route.realtimeShards (applyAll options tables messages)).get key =
        (index.withTables route.realtimeShards tables).get key := by
  have hshows := (Shows.empty hempty).applyAll htargets messages
  obtain ⟨last,hanswers,hlast⟩ := hshows.held
  have hmem : ∀ m, AppliedAmong options tables messages m → m ∈ messages := by
    rintro m ⟨earlier,later,rfl,-⟩
    simp
  constructor
  · intro message happlied
    have hanswer := hanswers message.primaryKey
    have hrel := hlast message.primaryKey
    cases hlatest : last message.primaryKey with
    | none =>
      rw [hlatest] at hanswer
      exact absurd rfl (hanswer message happlied)
    | some latest =>
      rw [hlatest] at hanswer hrel
      obtain ⟨call,hmakes,hcall⟩ := LastWriter.exists_of_rel_some hrel
      obtain ⟨payload,encoded,hdecode,hencode,rfl⟩ := hmakes
      obtain ⟨shard,hget⟩ := hserves.get_eq message.primaryKey
      have hsize := hmemory latest (hmem latest hanswer.mem) payload encoded hdecode hencode
      rw [hlayout] at hencode
      obtain ⟨hcarried,habsent,-⟩ := payload_reads hr hdecode hencode hsize
      refine ⟨latest,payload,⟨compile schema,encoded⟩,hanswer,?_,hdecode,?_,rfl,hcarried,habsent⟩
      · intro other hother
        have hoffset : messageOffset other = messageOffset latest :=
          le_antisymm (hanswer.le other hother.mem hother.key_eq)
            (hother.le latest hanswer.mem hanswer.key_eq)
        exact hdistinct other (hmem other hother.mem) latest (hmem latest hanswer.mem)
          (hother.key_eq.trans hanswer.key_eq.symm) (Int64.toInt_inj.mp hoffset)
      · rw [hget,hshows.tableGet_eq hlayout,hcall]
        rfl
  · intro key hnone
    obtain ⟨shard,hget⟩ := hserves.get_eq key
    have hafter : shown route (applyAll options tables messages) key = none := by
      have hanswer := hanswers key
      have hrel := hlast key
      cases hlatest : last key with
      | none =>
        rw [hlatest] at hrel
        exact LastWriter.eq_none_of_rel hrel
      | some latest =>
        rw [hlatest] at hanswer
        exact absurd hanswer.key_eq (hnone latest hanswer.mem)
    rw [hget,hget,hshows.tableGet_eq hlayout,hafter,(Shows.empty hempty).tableGet_eq hlayout,
      shown_empty hempty]

def singleRoute : UpdateTargetRoute where
  shardCount := 1
  layout := some sampleLayout
  realtimeShards := [some 0]

def singleApplier : UpdateApplierOptions where
  logicalTopic := [116]
  targets := [singleRoute]

def singleIndex : ForwardIndex :=
  (ForwardIndex.create Rebuild.sampleIndex).publish 0 (some { shardId := 0,generation := 1 })

/-- The older of two updates of a key comes last, and the newer one is read. -/
theorem applied_rows_served_sample :
    ∃ payload row, decodePayload (sampleMessage 7 5).payload = .ok payload ∧
      (singleIndex.withTables singleRoute.realtimeShards (applyAll singleApplier (fun _ => sampleTable 2)
        [sampleMessage 7 5,sampleMessage 7 3])).get 7 = .ok (some row) ∧
      ReadsAs (Artifact.fieldSchema { fieldId := 1,name := [118] }) payload row := by
  have htargets : singleApplier.targets = [singleRoute] := rfl
  have hserves : Serves singleIndex singleRoute := ⟨rfl,rfl,rfl,by decide⟩
  have hempty : ∀ ref, some ref ∈ singleRoute.realtimeShards → ∃ tableOptions : Options,
      tableOptions.layout = singleRoute.layout ∧ sampleTable 2 = create tableOptions :=
    fun _ _ => ⟨sampleOptions 2,rfl,rfl⟩
  have hmemory : ∀ message ∈ [sampleMessage 7 5,sampleMessage 7 3], ∀ payload encoded,
      decodePayload message.payload = .ok payload →
        encodeForLayout payload singleRoute.layout = .ok encoded →
          encoded.arena.length ≤ uint64Max := by
    have harena : ∀ message ∈ [sampleMessage 7 5,sampleMessage 7 3],
        ((decodePayload message.payload).bind fun payload =>
          encodeForLayout payload singleRoute.layout).map (fun encoded => encoded.arena.length) =
          .ok 0 := by
      decide +kernel
    intro message hmessage payload encoded hdecode hencode
    have hzero := harena message hmessage
    rw [hdecode,Except.bind,hencode,Except.map,Except.ok.injEq] at hzero
    rw [hzero]
    exact Nat.zero_le _
  have happlied : AppliedAmong singleApplier (fun _ => sampleTable 2)
      [sampleMessage 7 5,sampleMessage 7 3] (sampleMessage 7 5) :=
    ⟨[],[sampleMessage 7 3],rfl,by decide +kernel⟩
  obtain ⟨hserved,-⟩ := applied_rows_served htargets hserves
    (Artifact.fieldSchema_reachable rfl) rfl hempty [sampleMessage 7 5,sampleMessage 7 3]
    (by decide +kernel) hmemory
  obtain ⟨latest,payload,row,-,hunique,hdecode,hget,hreads⟩ := hserved _ happlied
  have hlatest : sampleMessage 7 5 = latest := by
    refine hunique _ ⟨happlied,rfl,?_⟩
    rintro other ⟨earlier,later,hsplit,-⟩ -
    have hmem : other ∈ [sampleMessage 7 5,sampleMessage 7 3] := by
      rw [hsplit]
      simp
    rcases List.mem_cons.mp hmem with rfl | hmem
    · exact le_rfl
    · rw [List.mem_singleton.mp hmem]
      decide
  rw [← hlatest] at hdecode
  exact ⟨payload,row,hdecode,hget,hreads⟩

end Runtime
end KvIndex
