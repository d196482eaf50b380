import KvIndex.CatchUpRunner
import KvIndex.CoordinatorRun
import KvIndex.UpdateReplay

/-! What a catch-up has replayed. A round that succeeds has applied all that it fetched, so below
the fetch position everything since the checkpoint is in the tables, and what a round commits is
not ahead of the fetch position. Only what the group had committed before the load can be ahead. -/
namespace KvIndex
namespace Rebuild

open Base Ingest RealtimeDeltaAtomicTable

/-- Events that leave the fetch positions to the deliveries. -/
def NoSeek (events : List IngestEvent) : Prop :=
  ∀ checkpoint answer, ⟨.seekPartitions checkpoint,answer⟩ ∉ events

theorem NoSeek.before {before after : List IngestEvent} (h : NoSeek (before++after)) : NoSeek before :=
  fun checkpoint answer hmem => h checkpoint answer (List.mem_append_left _ hmem)

/-- The messages between the fetch positions of two moments are those delivered between them. -/
structure Delivers (broker broker' : Broker) (events : List IngestEvent) : Prop where
  log : broker'.log = broker.log
  le : ∀ partition, broker.fetch partition ≤ broker'.fetch partition
  all : ∀ partition (offset : Int64) entry, broker.log partition offset = some entry →
    broker.fetch partition ≤ offset.toInt → offset.toInt < broker'.fetch partition →
    logMessage partition offset entry ∈ delivered events
  bound : ∀ raw ∈ delivered events, ∀ partition, raw.On partition →
    raw.offset.toInt < broker'.fetch partition

theorem delivered_snoc_of_ne {events : List IngestEvent} {op : IngestOp} {answer : IngestRes op}
    (h : ∀ timeoutMs, op ≠ .consumerPoll timeoutMs) :
    delivered (events++[⟨op,answer⟩]) = delivered events := by
  rw [delivered_append]
  cases op with
  | consumerPoll timeoutMs => exact absurd rfl (h timeoutMs)
  | _ => exact List.append_nil _

theorem published_snoc_of_ne {events : List IngestEvent} {op : IngestOp} {answer : IngestRes op}
    (h : ∀ publish, op ≠ .publish publish) :
    published (events++[⟨op,answer⟩]) = published events := by
  rw [published_append]
  cases op with
  | publish publish => exact absurd rfl (h publish)
  | _ => exact List.append_nil _

/-- An event that delivers nothing and leaves the log and the fetch positions. -/
theorem Delivers.same {broker broker' broker'' : Broker} {events : List IngestEvent}
    (h : Delivers broker broker' events) {event : IngestEvent} (hlog : broker''.log = broker'.log)
    (hfetch : broker''.fetch = broker'.fetch)
    (hdelivered : delivered (events++[event]) = delivered events) :
    Delivers broker broker'' (events++[event]) := by
  refine ⟨hlog.trans h.log,?_,?_,?_⟩
  · rw [hfetch]
    exact h.le
  · rw [hfetch,hdelivered]
    exact h.all
  · rw [hfetch,hdelivered]
    exact h.bound

theorem logMessage_on {partition other : KafkaPartition} {offset : Int64} {entry : Bytes×Bytes}
    (h : (logMessage partition offset entry).On other) : other = partition := by
  obtain ⟨htopic,hpartition⟩ := h
  obtain ⟨topic,id⟩ := other
  have htopic' : topic = partition.topic := (Option.some.inj htopic).symm
  have hid : id = partition.partition := hpartition.symm
  rw [htopic',hid]

theorem Delivers.deliver {broker broker' : Broker} {events : List IngestEvent}
    (h : Delivers broker broker' events) {partition : KafkaPartition} {offset : Int64}
    {entry : Bytes×Bytes} (hnext : broker'.Next partition offset entry) (timeoutMs : Int32) :
    Delivers broker (broker'.deliver partition offset)
      (events++[⟨.consumerPoll timeoutMs,some (logMessage partition offset entry)⟩]) := by
  have hdelivered : delivered (events++[⟨.consumerPoll timeoutMs,some
      (logMessage partition offset entry)⟩]) = delivered events++[logMessage partition offset entry] :=
    delivered_poll rfl
  have hself : (broker'.deliver partition offset).fetch partition = offset.toInt+1 :=
    Function.update_self _ _ _
  have hother : ∀ other, other ≠ partition →
      (broker'.deliver partition offset).fetch other = broker'.fetch other :=
    fun other hne => Function.update_of_ne hne _ _
  have hle : ∀ other, broker'.fetch other ≤ (broker'.deliver partition offset).fetch other := by
    intro other
    by_cases hsame : other = partition
    · rw [hsame,hself]
      have hfetched := hnext.fetched
      omega
    · rw [hother other hsame]
  refine ⟨h.log,fun other => (h.le other).trans (hle other),?_,?_⟩
  · intro other at' entry' hlogged hlow hhigh
    rw [hdelivered,List.mem_append]
    by_cases hbefore : at'.toInt < broker'.fetch other
    · exact Or.inl (h.all other at' entry' hlogged hlow hbefore)
    · by_cases hsame : other = partition
      · subst hsame
        rw [hself] at hhigh
        rw [← h.log] at hlogged
        by_cases hlast : at'.toInt < offset.toInt
        · -- nothing was skipped
          rw [hnext.first at' (by omega) hlast] at hlogged
          cases hlogged
        · have heq : at' = offset := Int64.toInt_inj.mp (by omega)
          rw [heq,hnext.logged,Option.some.injEq] at hlogged
          rw [heq,← hlogged]
          exact Or.inr (List.mem_singleton.mpr rfl)
      · rw [hother other hsame] at hhigh
        exact absurd hhigh hbefore
  · intro raw hraw other hon
    rw [hdelivered,List.mem_append] at hraw
    rcases hraw with hraw | hraw
    · exact (h.bound raw hraw other hon).trans_le (hle other)
    · rw [List.mem_singleton.mp hraw] at hon ⊢
      rw [logMessage_on hon,hself]
      exact Int.lt_add_one_of_le (le_refl _)

theorem positionOf_eq_some {checkpoint : KafkaCheckpoint} {partition : KafkaPartition} {offset : Int64}
    (h : Broker.positionOf checkpoint partition = some offset) :
    ∃ position ∈ checkpoint.nextOffsets, position.partition = partition ∧ position.offset = offset := by
  obtain ⟨position,hfind,rfl⟩ := Option.map_eq_some_iff.mp h
  exact ⟨position,List.mem_of_find?_eq_some hfind,by simpa using List.find?_some hfind,rfl⟩

/-- What a commit event can leave as committed. -/
def CommittedBy (events : List IngestEvent) (partition : KafkaPartition) (offset : Int64) : Prop :=
  ∃ checkpoint answer, ⟨.commit checkpoint,answer⟩ ∈ events ∧
    Broker.positionOf checkpoint partition = some offset

theorem CommittedBy.snoc {events : List IngestEvent} {partition : KafkaPartition} {offset : Int64}
    (h : CommittedBy events partition offset) (event : IngestEvent) :
    CommittedBy (events++[event]) partition offset := by
  obtain ⟨checkpoint,answer,hmem,hposition⟩ := h
  exact ⟨checkpoint,answer,List.mem_append_left _ hmem,hposition⟩

/-- What a run of ingestion has done, seen from its end. -/
structure Ingested (world world' : IngestWorld) (events : List IngestEvent) : Prop where
  delivers : NoSeek events → Delivers world.broker world'.broker events
  log : world'.broker.log = world.broker.log
  committed : ∀ partition, world'.broker.committed partition = world.broker.committed partition ∨
    CommittedBy events partition (world'.broker.committed partition)
  sound : SoundTables world.tables → SoundTables world'.tables
  kept : SoundTables world.tables → ∀ publish, AbsorbsIn world.tables publish →
    AbsorbsIn world'.tables publish
  absorbed : SoundTables world.tables → ∀ publish ∈ published events,
    AbsorbsIn world'.tables publish

section Ingest

variable {world mid world' : IngestWorld} {events : List IngestEvent} {event : IngestEvent}

theorem Ingested.refl (world : IngestWorld) : Ingested world world [] where
  delivers _ := ⟨rfl,fun _ => le_refl _,fun _ _ _ _ hlow hhigh => absurd hhigh (not_lt.mpr hlow),
    fun _ hraw => absurd hraw List.not_mem_nil⟩
  log := rfl
  committed _ := Or.inl rfl
  sound h := h
  kept _ _ h := h
  absorbed _ _ h := absurd h List.not_mem_nil

theorem Ingested.call (h : Ingested world mid events) (htables : world'.tables = mid.tables)
    (hpublished : published (events++[event]) = published events)
    (hlog : world'.broker.log = mid.broker.log)
    (hcommitted : ∀ partition, world'.broker.committed partition = mid.broker.committed partition ∨
      CommittedBy (events++[event]) partition (world'.broker.committed partition))
    (hdelivers : NoSeek (events++[event]) → Delivers world.broker mid.broker events →
      Delivers world.broker world'.broker (events++[event])) :
    Ingested world world' (events++[event]) where
  delivers hno := hdelivers hno (h.delivers hno.before)
  log := hlog.trans h.log
  committed partition := by
    rcases hcommitted partition with hsame | hnew
    · rw [hsame]
      exact (h.committed partition).imp id fun hold => hold.snoc event
    · exact Or.inr hnew
  sound hs := htables ▸ h.sound hs
  kept hs publish ha := htables ▸ h.kept hs publish ha
  absorbed hs publish hp := by
    rw [hpublished] at hp
    exact htables ▸ h.absorbed hs publish hp

theorem Ingested.idle (h : Ingested world mid events)
    (hpublished : published (events++[event]) = published events)
    (hdelivered : delivered (events++[event]) = delivered events) :
    Ingested world mid (events++[event]) :=
  h.call rfl hpublished rfl (fun _ => Or.inl rfl) fun _ hd => hd.same rfl rfl hdelivered

theorem Ingested.publish (h : Ingested world mid events) (publish : PreparedPublish) :
    Ingested world { mid with tables := (publishTo publish mid.tables).2 }
      (events++[⟨.publish publish,(publishTo publish mid.tables).1⟩]) := by
  have hkept : SoundTables world.tables → ∀ other, AbsorbsIn mid.tables other →
      AbsorbsIn (publishTo publish mid.tables).2 other :=
    fun hs other ha => ha.publishTo (h.sound hs) publish
  refine ⟨?_,h.log,?_,fun hs => (h.sound hs).publishTo publish,?_,?_⟩
  · exact fun hno => (h.delivers hno.before).same rfl rfl delivered_publish
  · exact fun partition => (h.committed partition).imp id fun hold => hold.snoc _
  · exact fun hs other ha => hkept hs other (h.kept hs other ha)
  · intro hs other hother
    rw [published_append,List.mem_append] at hother
    rcases hother with hother | hother
    · exact hkept hs other (h.absorbed hs other hother)
    · cases hanswer : (publishTo publish mid.tables).1 with
      | error status =>
        rw [hanswer] at hother
        cases hother
      | ok _ =>
        rw [hanswer] at hother
        rw [List.mem_singleton.mp hother]
        show ((publishTo publish mid.tables).2 publish.table).Absorbs publish.call
        rw [publishTo_self]
        exact (h.sound hs _).absorbs_publish hanswer

theorem Ingested.step (h : Ingested world mid events) (hstep : IngestStep mid event world') :
    Ingested world world' (events++[event]) := by
  obtain ⟨op,answer⟩ := event
  cases op with
  | publish publish =>
    obtain ⟨rfl,rfl⟩ := hstep
    exact h.publish publish
  | consumerPoll timeoutMs =>
    have hpublished : published (events++[⟨.consumerPoll timeoutMs,answer⟩]) = published events :=
      published_snoc_of_ne (by simp)
    cases answer with
    | none =>
      obtain rfl := hstep
      exact h.idle hpublished delivered_poll_none
    | some raw =>
      by_cases hraw : raw.err = .noError
      · simp only [IngestStep,if_pos hraw] at hstep
        obtain ⟨partition,offset,entry,hnext,rfl,rfl⟩ := hstep
        exact h.call rfl hpublished rfl (fun _ => Or.inl rfl) fun _ hd => hd.deliver hnext timeoutMs
      · simp only [IngestStep,if_neg hraw] at hstep
        obtain rfl := hstep
        exact h.idle hpublished (delivered_poll_error hraw)
  | seekPartitions checkpoint =>
    have hpublished : published (events++[⟨.seekPartitions checkpoint,answer⟩]) = published events :=
      published_snoc_of_ne (by simp)
    have hseek : ¬NoSeek (events++[⟨.seekPartitions checkpoint,answer⟩]) :=
      fun hno => hno checkpoint answer (List.mem_append_right _ (List.mem_singleton.mpr rfl))
    cases answer with
    | ok _ =>
      obtain rfl := hstep
      exact h.call rfl hpublished rfl (fun _ => Or.inl rfl) fun hno => absurd hno hseek
    | error text =>
      obtain ⟨fetch,rfl⟩ := hstep
      exact h.call rfl hpublished rfl (fun _ => Or.inl rfl) fun hno => absurd hno hseek
  | commit checkpoint =>
    have hpublished : published (events++[⟨.commit checkpoint,answer⟩]) = published events :=
      published_snoc_of_ne (by simp)
    have hdelivered : delivered (events++[⟨.commit checkpoint,answer⟩]) = delivered events :=
      delivered_snoc_of_ne (by simp)
    have hmem : ⟨.commit checkpoint,answer⟩ ∈ events++[⟨.commit checkpoint,answer⟩] :=
      List.mem_append_right _ (List.mem_singleton.mpr rfl)
    cases answer with
    | ok _ =>
      obtain rfl := hstep
      refine h.call rfl hpublished rfl ?_ fun _ hd => hd.same rfl rfl hdelivered
      intro partition
      simp only [Broker.commit]
      cases hposition : Broker.positionOf checkpoint partition with
      | none => exact Or.inl rfl
      | some offset => exact Or.inr ⟨checkpoint,_,hmem,hposition⟩
    | error text =>
      obtain ⟨committed,rfl,hcommitted⟩ := hstep
      refine h.call rfl hpublished rfl ?_ fun _ hd => hd.same rfl rfl hdelivered
      intro partition
      exact (hcommitted partition).imp id fun hnew => ⟨checkpoint,_,hmem,hnew.symm⟩
  | committed partitions =>
    have hpublished : published (events++[⟨.committed partitions,answer⟩]) = published events :=
      published_snoc_of_ne (by simp)
    cases answer with
    | ok offsets =>
      obtain ⟨rfl,-⟩ := hstep
      exact h.idle hpublished (delivered_snoc_of_ne (by simp))
    | error text =>
      obtain rfl := hstep
      exact h.idle hpublished (delivered_snoc_of_ne (by simp))
  | assignment =>
    obtain rfl := hstep
    exact h.idle (published_snoc_of_ne (by simp)) (delivered_snoc_of_ne (by simp))
  | queryWatermarkOffsets partition =>
    obtain rfl := hstep
    exact h.idle (published_snoc_of_ne (by simp)) (delivered_snoc_of_ne (by simp))

theorem ingested_run (h : Steps IngestStep world events world') : Ingested world world' events :=
  h.invariant (fun events world' => Ingested world world' events) (Ingested.refl world)
    fun _ _ _ _ hbefore hstep => hbefore.step hstep

end Ingest

/-- A round polls, publishes and commits behind what it has applied; it does not seek. -/
def roundRules (applier : UpdateApplierOptions) : Prog.Rules IngestRes where
  allowed history op :=
    match op with
    | .commit checkpoint => MayCommit applier history checkpoint
    | .seekPartitions _ => False
    | _ => True

/-- The message has reached every table that it goes to. -/
def InTables (applier : UpdateApplierOptions) (tables : Tables) (raw : RawMessage) : Prop :=
  ∃ message prepared, convertMessage raw = .ok message ∧ prepare applier message = .ok prepared ∧
    ∀ publish ∈ prepared, AbsorbsIn tables publish

/-- Below the fetch position everything since the checkpoint is in the tables, and nothing ahead of
it is committed that was not committed before. -/
structure Replaying (applier : UpdateApplierOptions) (initial checkpoint : Int64)
    (partition : KafkaPartition) (world : IngestWorld) : Prop where
  nonneg : 0 ≤ checkpoint.toInt
  sound : SoundTables world.tables
  applied : ∀ (offset : Int64) entry, world.broker.log partition offset = some entry →
    checkpoint.toInt ≤ offset.toInt → offset.toInt < world.broker.fetch partition →
    InTables applier world.tables (logMessage partition offset entry)
  committed : world.broker.committed partition = initial ∨
    (world.broker.committed partition).toInt ≤ world.broker.fetch partition

section Round

variable {world world' : IngestWorld} {events : List IngestEvent} {coordinator : UpdateCoordinator}
  {applier : UpdateApplierOptions} {partition : KafkaPartition} {initial checkpoint : Int64}

theorem InTables.run {raw : RawMessage} (h : InTables applier world.tables raw)
    (hs : SoundTables world.tables) (hrun : Ingested world world' events) :
    InTables applier world'.tables raw := by
  obtain ⟨message,prepared,hconvert,hprepare,hall⟩ := h
  exact ⟨message,prepared,hconvert,hprepare,fun publish hp => hrun.kept hs publish (hall publish hp)⟩

theorem inTables_of_applied {raw : RawMessage} (h : Applied applier events raw)
    (hs : SoundTables world.tables) (hrun : Ingested world world' events) :
    InTables applier world'.tables raw := by
  obtain ⟨message,prepared,hconvert,hprepare,hall⟩ := h
  exact ⟨message,prepared,hconvert,hprepare,fun publish hp =>
    hrun.absorbed hs publish (hall publish hp)⟩

theorem round_emits {result : StatusOr Unit}
    (h : Prog.Emits (Ingest.pollApplyCommitOnce coordinator) events (some result)) :
    NoSeek events ∧ CallPost coordinator.applier events result ∧
      ∀ before committed answer after, events = before++⟨.commit committed,answer⟩::after →
        MayCommit coordinator.applier before committed := by
  obtain ⟨hallowed,hpost⟩ := (pollApplyCommitOnce_safe (roundRules coordinator.applier) coordinator
    (fun _ _ => trivial) (fun _ _ => trivial) (fun _ _ hmay => hmay)).emits h (fun _ _ _ _ => trivial)
  refine ⟨?_,hpost result rfl,?_⟩
  · intro checkpoint answer hmem
    obtain ⟨before,after,hevents⟩ := List.append_of_mem hmem
    exact hallowed before _ after hevents
  · intro before committed answer after hevents
    exact hallowed before _ after hevents

theorem Replaying.round (h : Replaying coordinator.applier initial checkpoint partition world)
    (hemits : Prog.Emits (Ingest.pollApplyCommitOnce coordinator) events (some (.ok ())))
    (hrun : Steps IngestStep world events world') :
    Replaying coordinator.applier initial checkpoint partition world' := by
  obtain ⟨hseek,hpost,hcommit⟩ := round_emits hemits
  have hall := ingested_run hrun
  have hdelivers := hall.delivers hseek
  refine ⟨h.nonneg,hall.sound h.sound,?_,?_⟩
  · intro offset entry hlogged hlow hhigh
    rw [hall.log] at hlogged
    by_cases hbefore : offset.toInt < world.broker.fetch partition
    · exact (h.applied offset entry hlogged hlow hbefore).run h.sound hall
    · have hmem := hdelivers.all partition offset entry hlogged (by omega) hhigh
      exact inTables_of_applied (hpost rfl _ hmem) h.sound hall
  · rcases hall.committed partition with hsame | ⟨committed,answer,hmem,hposition⟩
    · rw [hsame]
      have hle := hdelivers.le partition
      exact h.committed.imp id fun hold => hold.trans hle
    · right
      obtain ⟨before,after,hevents⟩ := List.append_of_mem hmem
      obtain ⟨position,hpositions,hpartition,hoffset⟩ := positionOf_eq_some hposition
      -- the committed offset stands behind a message that the round was delivered
      obtain ⟨raw,hraw,hon,hnext⟩ := (hcommit before committed answer after hevents).last position
        hpositions
      rw [hpartition] at hon
      have hraw' : raw ∈ delivered events := by
        rw [hevents,delivered_append]
        exact List.mem_append_left _ hraw
      have hbound := hdelivers.bound raw hraw' partition hon
      rw [← hoffset]
      omega

end Round

section Start

variable {world world' : IngestWorld} {events : List IngestEvent} {request : AsyncCatchUpRequest}
  {runner runner' : ProductionCatchUpRunner} {answer : StatusOr Unit}

theorem seek_emits {checkpoint : KafkaCheckpoint} {result : StatusOr Unit}
    (h : Prog.Emits (KafkaUpdateConsumer.seek checkpoint) events (some result)) :
    (∃ status, result = .error status) ∧
        (events = [] ∨ ∃ text, events = [⟨.seekPartitions checkpoint,.error text⟩]) ∨
      result = .ok () ∧ validateCheckpoint checkpoint = .ok () ∧
        events = [⟨.seekPartitions checkpoint,.ok ()⟩] := by
  rw [KafkaUpdateConsumer.seek] at h
  cases hvalid : validateCheckpoint checkpoint with
  | error status =>
    rw [hvalid] at h
    cases h
    exact Or.inl ⟨⟨status,rfl⟩,Or.inl rfl⟩
  | ok _ =>
    rw [hvalid] at h
    cases h with
    | @perform _ _ sought _ _ h =>
      cases sought with
      | error text =>
        cases h
        exact Or.inl ⟨⟨_,rfl⟩,Or.inr ⟨text,rfl⟩⟩
      | ok _ =>
        cases h
        exact Or.inr ⟨rfl,rfl,rfl⟩

/-- A start that succeeds has sought to the checkpoint; none commits. -/
theorem start_emits (h : Prog.Emits (runner.start request) events (some (answer,runner'))) :
    (∃ status, answer = .error status) ∧
        (events = [] ∨ ∃ text, events = [⟨.seekPartitions request.checkpoint,.error text⟩]) ∨
      answer = .ok () ∧ validateCheckpoint request.checkpoint = .ok () ∧
        events = [⟨.seekPartitions request.checkpoint,.ok ()⟩] ∧
        runner'.coordinator = some (ProductionCatchUpRunner.coordinatorOf request) := by
  rw [ProductionCatchUpRunner.start] at h
  by_cases hempty : request.safeProgress.partitions.isEmpty = true
  · rw [if_pos hempty] at h
    cases h
    exact Or.inl ⟨⟨_,rfl⟩,Or.inl rfl⟩
  · rw [if_neg hempty] at h
    obtain ⟨first,result,second,hseek,hrest,rfl⟩ := h.of_bind
    rcases seek_emits hseek with ⟨⟨status,rfl⟩,hevents⟩ | ⟨rfl,hvalid,rfl⟩
    · cases hrest
      rw [List.append_nil]
      exact Or.inl ⟨⟨status,rfl⟩,hevents⟩
    · cases hrest
      exact Or.inr ⟨rfl,hvalid,rfl,rfl⟩

theorem validatePositions_eq_ok {seen : List KafkaPartition} {positions : List KafkaPosition}
    (h : validatePositions seen positions = .ok ()) :
    (positions.map (·.partition)).Nodup ∧
      ∀ position ∈ positions, position.partition ∉ seen ∧ 0 ≤ position.offset.toInt := by
  induction positions generalizing seen with
  | nil => exact ⟨List.nodup_nil,fun _ hp => absurd hp List.not_mem_nil⟩
  | cons position positions ih =>
    simp only [validatePositions,bind_eq_ok,failIf_eq_ok,exists_const] at h
    obtain ⟨-,-,hoffset,hseen,hrest⟩ := h
    obtain ⟨hnodup,hall⟩ := ih hrest
    have hfresh : position.partition ∉ seen := by simpa using hseen
    have hnonneg : 0 ≤ position.offset.toInt := by
      rw [decide_eq_false_iff_not,Int64.not_lt] at hoffset
      exact Int64.le_iff_toInt_le.mp hoffset
    refine ⟨?_,?_⟩
    · rw [List.map_cons,List.nodup_cons]
      refine ⟨?_,hnodup⟩
      intro hmem
      obtain ⟨other,hother,hsame⟩ := List.mem_map.mp hmem
      exact (hall other hother).1 (by rw [hsame]; exact List.mem_cons_self)
    · intro other hother
      rcases List.mem_cons.mp hother with rfl | hother
      · exact ⟨hfresh,hnonneg⟩
      · exact ⟨fun hmem => (hall other hother).1 (List.mem_cons_of_mem _ hmem),(hall other hother).2⟩

theorem positionOf_of_valid {checkpoint : KafkaCheckpoint}
    (h : validateCheckpoint checkpoint = .ok ()) {position : KafkaPosition}
    (hmem : position ∈ checkpoint.nextOffsets) :
    Broker.positionOf checkpoint position.partition = some position.offset ∧
      0 ≤ position.offset.toInt := by
  simp only [validateCheckpoint,bind_eq_ok,failIf_eq_ok,exists_const] at h
  obtain ⟨hnodup,hall⟩ := validatePositions_eq_ok h.2
  have hsame := FirstWins.find_of_mem hnodup hmem
  refine ⟨?_,(hall position hmem).2⟩
  rw [Broker.positionOf]
  exact (congrArg (Option.map (·.offset)) hsame).trans rfl

/-- A start that succeeds begins the replay of every partition of the checkpoint. -/
theorem Replaying.start {applier : UpdateApplierOptions} {position : KafkaPosition}
    (hvalid : validateCheckpoint request.checkpoint = .ok ())
    (hmem : position ∈ request.checkpoint.nextOffsets)
    (hrun : Steps IngestStep { world with tables := freshTables request }
      [⟨.seekPartitions request.checkpoint,.ok ()⟩] world') :
    Replaying applier (world.broker.committed position.partition) position.offset position.partition
      world' := by
  obtain rfl : world' = _ := hrun.of_single
  obtain ⟨hposition,hnonneg⟩ := positionOf_of_valid hvalid hmem
  refine ⟨hnonneg,fun _ => sound_create _,?_,Or.inl rfl⟩
  intro offset entry _ hlow hhigh
  simp only [Broker.seek,hposition] at hhigh
  omega

end Start

def reportRules : Prog.Rules IngestRes where
  allowed _ op :=
    match op with
    | .assignment | .committed _ | .queryWatermarkOffsets _ => True
    | _ => False

/-- The offset that a report gives for what the group has committed. -/
def reportedOffset (committed : Int64) : Int64 := if committed ≥ 0 then committed else 0

/-- The entry has an offset that the group had committed. -/
def ReportedIn (history : List IngestEvent) (entry : KafkaPartitionProgress) : Prop :=
  ∃ partitions offsets, (⟨.committed partitions,.ok offsets⟩ : IngestEvent) ∈ history ∧
    ∃ offset ∈ offsets, offset.err = none ∧ offset.partition = entry.partition ∧
      entry.committedNextOffset = reportedOffset offset.offset

/-- All entries of a report do. -/
def ReportPost (history : List IngestEvent) (result : StatusOr KafkaProgress) : Prop :=
  ∀ progress, result = .ok progress → ∀ entry ∈ progress.partitions, ReportedIn history entry

section Report

variable {world world' : IngestWorld} {events : List IngestEvent}

theorem ReportedIn.snoc {history : List IngestEvent} {entry : KafkaPartitionProgress}
    (h : ReportedIn history entry) (event : IngestEvent) : ReportedIn (history++[event]) entry := by
  obtain ⟨partitions,offsets,hmem,hoffset⟩ := h
  exact ⟨partitions,offsets,List.mem_append_left _ hmem,hoffset⟩

theorem readProgress_safe {partitions : List KafkaPartition} {all : List CommittedOffset}
    {history : List IngestEvent} (hall : ⟨.committed partitions,.ok all⟩ ∈ history)
    (offsets : List CommittedOffset) (hsub : ∀ offset ∈ offsets, offset ∈ all)
    {entries : List KafkaPartitionProgress} (h : ∀ entry ∈ entries, ReportedIn history entry) :
    Prog.Safe reportRules ReportPost history
      (LibrdkafkaUpdateConsumerClient.readProgress offsets entries) := by
  induction offsets generalizing history entries with
  | nil =>
    intro progress hp
    cases hp
    exact h
  | cons offset offsets ih =>
    rw [LibrdkafkaUpdateConsumerClient.readProgress]
    cases herr : offset.err with
    | some text =>
      intro progress hp
      cases hp
    | none =>
      refine Prog.Safe.call_bind trivial fun answer _ => ?_
      cases answer with
      | error text =>
        intro progress hp
        cases hp
      | ok watermarks =>
        refine ih (List.mem_append_left _ hall) (fun o ho => hsub o (List.mem_cons_of_mem _ ho)) ?_
        intro entry hentry
        rcases List.mem_append.mp hentry with hentry | hentry
        · exact (h entry hentry).snoc _
        · rw [List.mem_singleton.mp hentry]
          exact ⟨partitions,all,List.mem_append_left _ hall,offset,hsub offset List.mem_cons_self,herr,
            rfl,rfl⟩

theorem progress_safe : Prog.Safe reportRules ReportPost [] KafkaUpdateConsumer.progress := by
  have hclient : Prog.Safe reportRules ReportPost [] LibrdkafkaUpdateConsumerClient.progress := by
    refine Prog.Safe.call_bind trivial fun assigned _ => ?_
    cases assigned with
    | error text =>
      intro progress hp
      cases hp
    | ok partitions =>
      by_cases hempty : partitions.isEmpty = true
      · simp only [hempty,if_true]
        intro progress hp
        cases hp
        exact fun entry hentry => absurd hentry List.not_mem_nil
      · simp only [hempty]
        refine Prog.Safe.call_bind trivial fun committed _ => ?_
        cases committed with
        | error text =>
          intro progress hp
          cases hp
        | ok offsets =>
          exact readProgress_safe (List.mem_append_right _ (List.mem_singleton.mpr rfl)) offsets
            (fun _ ho => ho) fun entry hentry => absurd hentry List.not_mem_nil
  refine Prog.Safe.bind (Prog.Safe.mono ?_ hclient)
  intro history result h progress hp
  simp only [KafkaUpdateConsumer.checked,bind_eq_ok,pure_eq_ok,Except.ok.injEq] at hp
  obtain ⟨reported,hok,-,-,rfl⟩ := hp
  exact h reported hok

theorem captureSafeProgress_safe (runner : ProductionCatchUpRunner) :
    Prog.Safe reportRules ReportPost [] runner.captureSafeProgress := by
  rw [ProductionCatchUpRunner.captureSafeProgress]
  cases runner.coordinator with
  | none =>
    intro progress hp
    cases hp
  | some coordinator => exact progress_safe

theorem report_run (h : Steps IngestStep world events world')
    (hreads : ∀ event ∈ events, reportRules.allowed [] event.1) :
    world' = world ∧ ∀ partitions offsets, (⟨.committed partitions,.ok offsets⟩ : IngestEvent) ∈ events →
      ∀ offset ∈ offsets, offset.err = none →
        offset.offset = world.broker.committed offset.partition := by
  induction h with
  | nil => exact ⟨rfl,fun _ _ hmem => absurd hmem List.not_mem_nil⟩
  | @snoc events mid world' event hrun hstep ih =>
    obtain ⟨rfl,hagree⟩ := ih fun other ho => hreads other (List.mem_append_left _ ho)
    have hevent := hreads event (List.mem_append_right _ (List.mem_singleton.mpr rfl))
    obtain ⟨op,answer⟩ := event
    cases op with
    | committed asked =>
      cases answer with
      | ok read =>
        obtain ⟨rfl,hread⟩ := hstep
        refine ⟨rfl,?_⟩
        intro partitions offsets hmem
        rcases List.mem_append.mp hmem with hmem | hmem
        · exact hagree partitions offsets hmem
        · cases List.mem_singleton.mp hmem
          exact hread
      | error text =>
        obtain rfl := hstep
        refine ⟨rfl,fun partitions offsets hmem => hagree partitions offsets ?_⟩
        simpa using hmem
    | assignment =>
      obtain rfl := hstep
      refine ⟨rfl,fun partitions offsets hmem => hagree partitions offsets ?_⟩
      simpa using hmem
    | queryWatermarkOffsets asked =>
      obtain rfl := hstep
      refine ⟨rfl,fun partitions offsets hmem => hagree partitions offsets ?_⟩
      simpa using hmem
    | _ => exact absurd hevent id

/-- A report of the runner changes nothing, and says what the group has committed. -/
theorem capture_run {runner : ProductionCatchUpRunner} {answer : StatusOr KafkaProgress}
    (hemits : Prog.Emits runner.captureSafeProgress events (some answer))
    (hrun : Steps IngestStep world events world') :
    world' = world ∧ ∀ progress, answer = .ok progress → ∀ entry ∈ progress.partitions,
      entry.committedNextOffset = reportedOffset (world.broker.committed entry.partition) := by
  obtain ⟨hallowed,hpost⟩ := (captureSafeProgress_safe runner).emits hemits (fun _ _ _ _ => trivial)
  have hreads : ∀ event ∈ events, reportRules.allowed [] event.1 := by
    intro event hmem
    obtain ⟨before,after,hevents⟩ := List.append_of_mem hmem
    exact hallowed before event after hevents
  obtain ⟨rfl,hagree⟩ := report_run hrun hreads
  refine ⟨rfl,?_⟩
  intro progress hanswer entry hentry
  obtain ⟨partitions,offsets,hmem,offset,hoffset,herr,hpartition,hcommitted⟩ :=
    hpost answer rfl progress hanswer entry hentry
  rw [hcommitted,hagree partitions offsets hmem offset hoffset herr,hpartition]

end Report

end Rebuild
end KvIndex
