import KvIndex.CoordinatorRun

/-! One step of the coordinator with any consumer. What the consumer answers to a poll and to a
commit and what the tables answer to a publish is left open; the step over librdkafka is one
case of it. -/
namespace KvIndex

namespace Prog

variable {Op Op' Op'' : Type} {Res : Op → Type} {Res' : Op' → Type} {Res'' : Op'' → Type} {α : Type}

theorem bind_done (p : Prog Res α) : (p >>= Prog.done) = p := by
  induction p with
  | done a => rfl
  | perform o next ih =>
    rw [perform_bind]
    congr 1
    funext r
    exact ih r

theorem interp_call (f : (o : Op) → Prog Res' (Res o)) (o : Op) : (call o).interp f = f o :=
  bind_done (f o)

theorem interp_interp (f : (o : Op) → Prog Res' (Res o)) (g : (o : Op') → Prog Res'' (Res' o))
    (p : Prog Res α) : (p.interp f).interp g = p.interp fun o => (f o).interp g := by
  induction p with
  | done a => rfl
  | perform o next ih =>
    rw [interp,interp,interp_bind]
    congr 1
    funext r
    exact ih r

end Prog

namespace Ingest

open Base

/-- What a step does: calls of the consumer, and publishes of the applier. -/
inductive StepOp
  | poll (options : PollOptions)
  | publish (publish : PreparedPublish)
  | commit (checkpoint : KafkaCheckpoint)

abbrev StepRes : StepOp → Type
  | .poll _ => StatusOr (List KafkaUpsertMessage)
  | .publish _ => StatusOr Unit
  | .commit _ => StatusOr Unit

abbrev Stepping := Prog StepRes

abbrev StepEvent := Prog.Event StepRes

def publishStep (publish : PreparedPublish) : Stepping (StatusOr Unit) :=
  Prog.call (StepOp.publish publish)

/-- `PollApplyCommitOnce` over the interface of the consumer. -/
def coordinatorStep (coordinator : UpdateCoordinator) : Stepping (StatusOr Unit) :=
  match validateCoordinatorOptions coordinator with
  | .error status => pure (.error status)
  | .ok _ => do
    match ← Prog.call (StepOp.poll coordinator.pollOptions) with
    | .error status => pure (.error status)
    | .ok batch =>
      if batch.isEmpty then pure (.ok ())
      else
        match checkBatch coordinator batch with
        | .error status => pure (.error status)
        | .ok checkpoint =>
          match ← (applyBatch coordinator.applier batch).interp publishStep with
          | .error status => pure (.error status)
          | .ok _ => Prog.call (StepOp.commit checkpoint)

def consumerCall : (op : StepOp) → Ingesting (StepRes op)
  | .poll options => KafkaUpdateConsumer.poll options
  | .publish publish => publishRow publish
  | .commit checkpoint => KafkaUpdateConsumer.commit checkpoint

/-- The coordinator over librdkafka is the step with this consumer. -/
theorem pollApplyCommitOnce_eq_step (coordinator : UpdateCoordinator) :
    pollApplyCommitOnce coordinator = (coordinatorStep coordinator).interp consumerCall := by
  have hpublish : (fun publish => (publishStep publish).interp consumerCall) = publishRow := by
    funext publish
    exact Prog.interp_call consumerCall (StepOp.publish publish)
  rw [pollApplyCommitOnce,coordinatorStep]
  cases validateCoordinatorOptions coordinator with
  | error status => rfl
  | ok _ =>
    simp only [Prog.interp_bind,Prog.interp_call]
    refine congrArg _ (funext fun polled => ?_)
    cases polled with
    | error status => rfl
    | ok batch =>
      by_cases hempty : batch.isEmpty = true
      · simp only [hempty,if_true]
        rfl
      · simp only [hempty]
        cases checkBatch coordinator batch with
        | error status => rfl
        | ok checkpoint =>
          simp only [Bool.false_eq_true,if_false,Prog.interp_bind,Prog.interp_interp,hpublish]
          refine congrArg _ (funext fun applied => ?_)
          cases applied with
          | error status => rfl
          | ok _ => exact (Prog.interp_call consumerCall (StepOp.commit checkpoint)).symm

/-- The checkpoints that a step asked the consumer to commit. -/
def commitCalls (events : List StepEvent) : List KafkaCheckpoint :=
  events.filterMap fun event =>
    match event with
    | ⟨.commit checkpoint,_⟩ => some checkpoint
    | _ => none

def stepEvents (coordinator : UpdateCoordinator) (batch : List KafkaUpsertMessage)
    (done : List PreparedPublish) : List StepEvent :=
  ⟨.poll coordinator.pollOptions,.ok batch⟩::done.map fun publish => ⟨.publish publish,.ok ()⟩

/-- The step polled this batch, found it valid and published all of it to every target, and did
nothing else. -/
structure StepApplied (coordinator : UpdateCoordinator) (batch : List KafkaUpsertMessage)
    (checkpoint : KafkaCheckpoint) (history : List StepEvent) : Prop where
  options : validateCoordinatorOptions coordinator = .ok ()
  nonempty : batch ≠ []
  checked : checkBatch coordinator batch = .ok checkpoint
  published : ∃ prepared, batch.mapM (prepare coordinator.applier) = .ok prepared ∧
    history = stepEvents coordinator batch prepared.flatten

/-- One entry for each partition of the batch, behind the greatest offset of the partition. -/
structure CommitOf (checkpoint : KafkaCheckpoint) (batch : List KafkaUpsertMessage) : Prop where
  distinct : (checkpoint.nextOffsets.map KafkaPosition.partition).Nodup
  partitions : ∀ partition, partition ∈ checkpoint.nextOffsets.map KafkaPosition.partition ↔
    ∃ message ∈ batch, message.metadata.partition = partition
  next : ∀ position ∈ checkpoint.nextOffsets, ∃ message ∈ batch,
    message.metadata.partition = position.partition ∧
    position.offset.toInt = message.metadata.offset.toInt+1 ∧
    ∀ other ∈ batch, other.metadata.partition = position.partition →
      other.metadata.offset.toInt ≤ message.metadata.offset.toInt

/-- A call of the step failed, or a check did. -/
def StepFailed (coordinator : UpdateCoordinator) (events : List StepEvent) : Prop :=
  (∃ status, validateCoordinatorOptions coordinator = .error status) ∨
  (∃ options status, (⟨.poll options,.error status⟩ : StepEvent) ∈ events) ∨
  (∃ options batch status, (⟨.poll options,.ok batch⟩ : StepEvent) ∈ events ∧ batch ≠ [] ∧
    checkBatch coordinator batch = .error status) ∨
  (∃ options batch message status, (⟨.poll options,.ok batch⟩ : StepEvent) ∈ events ∧
    message ∈ batch ∧ prepare coordinator.applier message = .error status) ∨
  ∃ publish status, (⟨.publish publish,.error status⟩ : StepEvent) ∈ events

section Checkpoint

variable {batch : List KafkaUpsertMessage} {checkpoint : KafkaCheckpoint}

theorem buildCommitCheckpoint_distinct (h : buildCommitCheckpoint batch = .ok checkpoint) :
    (checkpoint.nextOffsets.map KafkaPosition.partition).Nodup := by
  simp only [buildCommitCheckpoint,bind_eq_ok,pure_eq_ok,Except.ok.injEq] at h
  obtain ⟨maxOffsets,hfold,rfl⟩ := h
  have hempty : MaxOffsets [] [] := ⟨List.nodup_nil,by simp,by simp⟩
  have hdistinct := (hempty.foldlM hfold).distinct
  rw [List.map_map]
  exact ((List.perm_insertionSort partitionLe maxOffsets).map KafkaPosition.partition).nodup_iff.mpr
    hdistinct

theorem buildCommitCheckpoint_commitOf (h : buildCommitCheckpoint batch = .ok checkpoint) :
    CommitOf checkpoint batch := by
  have hspec := buildCommitCheckpoint_spec h
  have hdistinct := buildCommitCheckpoint_distinct h
  refine ⟨hdistinct,?_,?_⟩
  · intro partition
    rw [List.mem_map]
    constructor
    · rintro ⟨position,hposition,rfl⟩
      obtain ⟨message,hmessage,hpartition,-⟩ := hspec.last position hposition
      exact ⟨message,hmessage,hpartition⟩
    · rintro ⟨message,hmessage,rfl⟩
      obtain ⟨position,hposition,hpartition,-⟩ := hspec.covers message hmessage
      exact ⟨position,hposition,hpartition⟩
  · intro position hposition
    obtain ⟨message,hmessage,hpartition,hoffset⟩ := hspec.last position hposition
    refine ⟨message,hmessage,hpartition,hoffset,fun other hother hsame => ?_⟩
    obtain ⟨entry,hentry,hentryPartition,hlt⟩ := hspec.covers other hother
    have hfound := FirstWins.find_of_mem hdistinct hentry
    have hfound' := FirstWins.find_of_mem hdistinct hposition
    rw [hentryPartition,hsame,hfound',Option.some.injEq] at hfound
    rw [← hfound] at hlt
    omega

theorem validatePositions_of_distinct {seen : List KafkaPartition} {positions : List KafkaPosition}
    (hvalid : ∀ position ∈ positions, validatePartition position.partition = .ok () ∧
      0 ≤ position.offset.toInt ∧ position.partition ∉ seen)
    (hdistinct : (positions.map KafkaPosition.partition).Nodup) :
    validatePositions seen positions = .ok () := by
  induction positions generalizing seen with
  | nil => rfl
  | cons position positions ih =>
    obtain ⟨hnew,hdistinct⟩ := List.nodup_cons.mp hdistinct
    obtain ⟨hpartition,hoffset,hseen⟩ := hvalid position List.mem_cons_self
    have hnonneg : decide (position.offset < 0) = false := by
      rw [decide_eq_false_iff_not,Int64.not_lt]
      exact Int64.le_iff_toInt_le.mpr hoffset
    have hfresh : seen.contains position.partition = false := by simpa using hseen
    rw [validatePositions,hpartition,ok_bind,hnonneg,failIf_false,ok_bind,hfresh,failIf_false,ok_bind]
    refine ih (fun other hother => ?_) hdistinct
    obtain ⟨hother₁,hother₂,hother₃⟩ := hvalid other (List.mem_cons_of_mem _ hother)
    refine ⟨hother₁,hother₂,fun hmem => ?_⟩
    rcases List.mem_cons.mp hmem with hsame | hmem
    · exact hnew (List.mem_map.mpr ⟨other,hother,hsame⟩)
    · exact hother₃ hmem

theorem validateBatch_message {logicalTopic : Bytes} {message : KafkaUpsertMessage}
    (h : validateBatchMessage logicalTopic message = .ok ()) :
    validatePartition message.metadata.partition = .ok () ∧ 0 ≤ message.metadata.offset.toInt := by
  simp only [validateBatchMessage,bind_eq_ok,failIf_eq_ok,exists_const,decide_eq_false_iff_not,
    Int64.not_lt] at h
  obtain ⟨htopic,-,hpartition,hoffset⟩ := h
  refine ⟨?_,Int64.le_iff_toInt_le.mp hoffset⟩
  rw [validatePartition,htopic,failIf_false,ok_bind,decide_eq_false hpartition,
    failIf_false]

theorem forM_ok {α : Type} {f : α → StatusOr Unit} {as : List α} (h : as.forM f = .ok ()) :
    ∀ a ∈ as, f a = .ok () := by
  induction as with
  | nil => exact fun a ha => absurd ha List.not_mem_nil
  | cons first as ih =>
    obtain ⟨_,hfirst,hrest⟩ := bind_eq_ok.mp h
    intro a ha
    rcases List.mem_cons.mp ha with rfl | ha
    · exact hfirst
    · exact ih hrest a ha

theorem validateCheckpoint_of_checked {coordinator : UpdateCoordinator} (hbatch : batch ≠ [])
    (h : checkBatch coordinator batch = .ok checkpoint) : validateCheckpoint checkpoint = .ok () := by
  obtain ⟨_,hchecked,hbuild⟩ := bind_eq_ok.mp h
  have hcommit := buildCommitCheckpoint_commitOf hbuild
  have hnonempty : checkpoint.nextOffsets.isEmpty = false := by
    obtain ⟨message,rest,rfl⟩ := List.exists_cons_of_ne_nil hbatch
    obtain ⟨position,hposition,-⟩ := List.mem_map.mp
      ((hcommit.partitions message.metadata.partition).mpr ⟨message,List.mem_cons_self,rfl⟩)
    rw [List.isEmpty_eq_false_iff]
    exact List.ne_nil_of_mem hposition
  rw [validateCheckpoint,hnonempty,failIf_false,ok_bind]
  refine validatePositions_of_distinct (fun position hposition => ?_) hcommit.distinct
  obtain ⟨message,hmessage,hpartition,hoffset,-⟩ := hcommit.next position hposition
  obtain ⟨hvalid,hnonneg⟩ := validateBatch_message (forM_ok hchecked message hmessage)
  rw [hpartition] at hvalid
  exact ⟨hvalid,by omega,List.not_mem_nil⟩

end Checkpoint

section Step

variable {coordinator : UpdateCoordinator} {batch : List KafkaUpsertMessage}

@[simp] theorem commitCalls_append (before after : List StepEvent) :
    commitCalls (before++after) = commitCalls before++commitCalls after := List.filterMap_append

theorem commitCalls_stepEvents (done : List PreparedPublish) :
    commitCalls (stepEvents coordinator batch done) = [] := by
  refine List.filterMap_eq_nil_iff.mpr fun event hevent => ?_
  rcases List.mem_cons.mp hevent with rfl | hevent
  · rfl
  · obtain ⟨publish,-,rfl⟩ := List.mem_map.mp hevent
    rfl

theorem commitCalls_commit (before : List StepEvent) (checkpoint : KafkaCheckpoint)
    (answer : StatusOr Unit) :
    commitCalls (before++[⟨.commit checkpoint,answer⟩]) = commitCalls before++[checkpoint] := by
  rw [commitCalls_append]
  rfl

theorem stepEvents_publish (done : List PreparedPublish) (publish : PreparedPublish) :
    stepEvents coordinator batch done++[⟨.publish publish,.ok ()⟩] =
      stepEvents coordinator batch (done++[publish]) := by
  simp [stepEvents]

/-- Publishes follow the poll, and a commit follows the publishes of the whole batch. -/
def stepRules (coordinator : UpdateCoordinator) : Prog.Rules StepRes where
  allowed history op :=
    match op with
    | .poll _ => history = []
    | .publish _ => ∃ batch done, history = stepEvents coordinator batch done
    | .commit checkpoint => ∃ batch, StepApplied coordinator batch checkpoint history

/-- The program has committed nothing; if it succeeded, it has published these. -/
def PublishedStep (coordinator : UpdateCoordinator) (batch : List KafkaUpsertMessage)
    (done : List PreparedPublish) (after : List StepEvent) (result : StatusOr Unit) : Prop :=
  commitCalls after = [] ∧ (result = .ok () → after = stepEvents coordinator batch done)

theorem publishPrepared_step (prepared done : List PreparedPublish) :
    Prog.Safe (stepRules coordinator) (PublishedStep coordinator batch (done++prepared))
      (stepEvents coordinator batch done) ((publishPrepared prepared).interp publishStep) := by
  induction prepared generalizing done with
  | nil =>
    rw [List.append_nil]
    exact ⟨commitCalls_stepEvents done,fun _ => rfl⟩
  | cons publish prepared ih =>
    refine Prog.Safe.call_bind ⟨batch,done,rfl⟩ fun answer _ => ?_
    cases answer with
    | error status =>
      refine ⟨?_,fun h => by cases h⟩
      rw [commitCalls_append,commitCalls_stepEvents]
      rfl
    | ok _ =>
      have hrest := ih (done++[publish])
      rw [List.append_assoc,List.singleton_append] at hrest
      rw [stepEvents_publish]
      exact hrest

theorem applyBatch_step (messages : List KafkaUpsertMessage) (done : List PreparedPublish) :
    Prog.Safe (stepRules coordinator) (fun after result => commitCalls after = [] ∧
        (result = .ok () → ∃ prepared, messages.mapM (prepare coordinator.applier) = .ok prepared ∧
          after = stepEvents coordinator batch (done++prepared.flatten)))
      (stepEvents coordinator batch done)
      ((applyBatch coordinator.applier messages).interp publishStep) := by
  induction messages generalizing done with
  | nil => exact ⟨commitCalls_stepEvents done,fun _ => ⟨[],rfl,by simp⟩⟩
  | cons message messages ih =>
    rw [applyBatch,Prog.interp_bind]
    refine Prog.Safe.bind ?_
    cases hprepare : prepare coordinator.applier message with
    | error status =>
      simp only [apply,hprepare]
      exact ⟨commitCalls_stepEvents done,fun h => by cases h⟩
    | ok prepared =>
      simp only [apply,hprepare]
      refine Prog.Safe.mono ?_ (publishPrepared_step prepared done)
      rintro mid result ⟨hnone,hall⟩
      cases result with
      | error status => exact ⟨hnone,fun h => by cases h⟩
      | ok _ =>
        rw [hall rfl]
        refine Prog.Safe.mono ?_ (ih (done++prepared))
        rintro after result ⟨hnone,hall⟩
        refine ⟨hnone,fun hok => ?_⟩
        obtain ⟨rest,hrest,rfl⟩ := hall hok
        refine ⟨prepared::rest,?_,by rw [List.flatten_cons,List.append_assoc]⟩
        rw [List.mapM_cons,hprepare,ok_bind,hrest,ok_bind]
        rfl

/-- How a step ends: without a commit it succeeds only for an empty batch, and with a commit it
answers what the commit did. -/
def StepPost (coordinator : UpdateCoordinator) (history : List StepEvent) (result : StatusOr Unit) :
    Prop :=
  (commitCalls history = [] ∧
      (result = .ok () → validateCoordinatorOptions coordinator = .ok () ∧
        history = [⟨.poll coordinator.pollOptions,.ok []⟩])) ∨
    ∃ before checkpoint, history = before++[⟨.commit checkpoint,result⟩]

theorem coordinatorStep_safe :
    Prog.Safe (stepRules coordinator) (StepPost coordinator) [] (coordinatorStep coordinator) := by
  rw [coordinatorStep]
  cases hoptions : validateCoordinatorOptions coordinator with
  | error status => exact Or.inl ⟨rfl,fun h => by cases h⟩
  | ok _ =>
    refine Prog.Safe.call_bind rfl fun polled _ => ?_
    cases polled with
    | error status => exact Or.inl ⟨rfl,fun h => by cases h⟩
    | ok batch =>
      cases batch with
      | nil => exact Or.inl ⟨rfl,fun _ => ⟨hoptions,rfl⟩⟩
      | cons message batch =>
        simp only [List.isEmpty_cons,Bool.false_eq_true,if_false]
        cases hcheck : checkBatch coordinator (message::batch) with
        | error status => exact Or.inl ⟨rfl,fun h => by cases h⟩
        | ok checkpoint =>
          refine Prog.Safe.bind (Prog.Safe.mono ?_ (applyBatch_step (message::batch) []))
          rintro after applied ⟨hnone,hall⟩
          cases applied with
          | error status => exact Or.inl ⟨hnone,fun h => by cases h⟩
          | ok _ =>
            obtain ⟨prepared,hprepared,hafter⟩ := hall rfl
            have happlied : StepApplied coordinator (message::batch) checkpoint after :=
              ⟨hoptions,List.cons_ne_nil _ _,hcheck,prepared,hprepared,hafter⟩
            exact ⟨⟨_,happlied⟩,fun answer _ => Or.inr ⟨after,checkpoint,rfl⟩⟩

theorem StepApplied.not_failed {checkpoint : KafkaCheckpoint} {before : List StepEvent}
    {answer : StatusOr Unit} (h : StepApplied coordinator batch checkpoint before) :
    ¬StepFailed coordinator (before++[⟨.commit checkpoint,answer⟩]) := by
  obtain ⟨prepared,hprepared,rfl⟩ := h.published
  have hevent : ∀ event ∈ stepEvents coordinator batch prepared.flatten++
      [(⟨.commit checkpoint,answer⟩ : StepEvent)],
      event = ⟨.poll coordinator.pollOptions,.ok batch⟩ ∨
      (∃ publish, event = ⟨.publish publish,.ok ()⟩) ∨ event = ⟨.commit checkpoint,answer⟩ := by
    intro event hevent
    rcases List.mem_append.mp hevent with hevent | hevent
    · rcases List.mem_cons.mp hevent with hevent | hevent
      · exact Or.inl hevent
      · obtain ⟨publish,-,rfl⟩ := List.mem_map.mp hevent
        exact Or.inr (Or.inl ⟨publish,rfl⟩)
    · exact Or.inr (Or.inr (List.mem_singleton.mp hevent))
  have hpolled : ∀ options other,
      (⟨.poll options,.ok other⟩ : StepEvent) ∈ stepEvents coordinator batch prepared.flatten++
        [(⟨.commit checkpoint,answer⟩ : StepEvent)] → other = batch := by
    intro options other hmem
    rcases hevent _ hmem with hpoll | ⟨publish,hpublish⟩ | hcommit
    · cases hpoll
      rfl
    · cases hpublish
    · cases hcommit
  rintro (⟨status,hfail⟩ | ⟨options,status,hmem⟩ | ⟨options,other,status,hmem,-,hfail⟩ |
    ⟨options,other,message,status,hmem,hmessage,hfail⟩ | ⟨publish,status,hmem⟩)
  · rw [h.options] at hfail
    cases hfail
  · rcases hevent _ hmem with hpoll | ⟨publish,hpublish⟩ | hcommit
    · cases hpoll
    · cases hpublish
    · cases hcommit
  · rw [hpolled options other hmem,h.checked] at hfail
    cases hfail
  · rw [hpolled options other hmem] at hmessage
    obtain ⟨publishes,hok⟩ := mapM_ok_of_mem hprepared hmessage
    rw [hok] at hfail
    cases hfail
  · rcases hevent _ hmem with hpoll | ⟨other,hpublish⟩ | hcommit
    · cases hpoll
    · cases hpublish
    · cases hcommit

theorem not_failed_empty (h : validateCoordinatorOptions coordinator = .ok ()) :
    ¬StepFailed coordinator [⟨.poll coordinator.pollOptions,.ok []⟩] := by
  rintro (⟨status,hfail⟩ | ⟨options,status,hmem⟩ | ⟨options,other,status,hmem,hnonempty,-⟩ |
    ⟨options,other,message,status,hmem,hmessage,-⟩ | ⟨publish,status,hmem⟩)
  · rw [h] at hfail
    cases hfail
  · cases List.mem_singleton.mp hmem
  · cases List.mem_singleton.mp hmem
    exact hnonempty rfl
  · cases List.mem_singleton.mp hmem
    cases hmessage
  · cases List.mem_singleton.mp hmem

theorem coordinatorStep_allowed {events : List StepEvent} {out : Option (StatusOr Unit)}
    (h : Prog.Emits (coordinatorStep coordinator) events out) :
    ∀ before event after, events = before++event::after →
      (stepRules coordinator).allowed before event.1 :=
  (coordinatorStep_safe.emits h fun _ _ _ _ => trivial).1

theorem commit_last {events before after : List StepEvent} {checkpoint : KafkaCheckpoint}
    {answer : StatusOr Unit} {out : Option (StatusOr Unit)}
    (h : Prog.Emits (coordinatorStep coordinator) events out)
    (hevents : events = before++⟨.commit checkpoint,answer⟩::after) :
    (∃ batch, StepApplied coordinator batch checkpoint before) ∧ after = [] := by
  refine ⟨coordinatorStep_allowed h before _ after hevents,?_⟩
  cases after with
  | nil => rfl
  | cons next after =>
    have hnext := coordinatorStep_allowed h (before++[⟨.commit checkpoint,answer⟩]) next after
      (by rw [hevents,List.append_assoc,List.singleton_append])
    have hcommitted : ∀ batch done, before++[⟨.commit checkpoint,answer⟩] ≠
        stepEvents coordinator batch done := by
      intro batch done heq
      have hnone : commitCalls (stepEvents coordinator batch done) = [] :=
        commitCalls_stepEvents done
      rw [← heq,commitCalls_commit] at hnone
      exact List.cons_ne_nil _ _ (List.append_eq_nil_iff.mp hnone).2
    obtain ⟨op,answer'⟩ := next
    cases op with
    | poll options => exact absurd hnext (by simp [stepRules])
    | publish publish =>
      obtain ⟨batch,done,heq⟩ := hnext
      exact absurd heq (hcommitted batch done)
    | commit other =>
      obtain ⟨batch,happlied⟩ := hnext
      obtain ⟨prepared,-,heq⟩ := happlied.published
      exact absurd heq (hcommitted batch _)

theorem exists_commit {events : List StepEvent} (h : commitCalls events ≠ []) :
    ∃ before checkpoint answer after, events = before++⟨.commit checkpoint,answer⟩::after := by
  obtain ⟨checkpoint,hmem⟩ := List.exists_mem_of_ne_nil _ h
  obtain ⟨⟨op,answer⟩,hevent,heq⟩ := List.mem_filterMap.mp hmem
  obtain ⟨before,after,rfl⟩ := List.append_of_mem hevent
  cases op with
  | commit other => exact ⟨before,other,answer,after,rfl⟩
  | _ => cases heq

/-- A step that commits has run to the end of its batch and done nothing else. -/
theorem committed_step {events : List StepEvent} {out : Option (StatusOr Unit)}
    (h : Prog.Emits (coordinatorStep coordinator) events out) (hcommit : commitCalls events ≠ []) :
    ∃ before batch checkpoint answer, events = before++[⟨.commit checkpoint,answer⟩] ∧
      StepApplied coordinator batch checkpoint before ∧ commitCalls events = [checkpoint] := by
  obtain ⟨before,checkpoint,answer,after,rfl⟩ := exists_commit hcommit
  obtain ⟨⟨batch,happlied⟩,rfl⟩ := commit_last h rfl
  refine ⟨before,batch,checkpoint,answer,rfl,happlied,?_⟩
  obtain ⟨prepared,-,rfl⟩ := happlied.published
  rw [commitCalls_commit,commitCalls_stepEvents,List.nil_append]

/-- Whatever the consumer and the tables answer, a step commits at most once and exactly behind
what it has applied, and a failure leads to no commit and an error. -/
theorem coordinatorStep_commits (coordinator : UpdateCoordinator) (events : List StepEvent)
    (out : Option (StatusOr Unit)) (h : Prog.Emits (coordinatorStep coordinator) events out) :
    (commitCalls events).length ≤ 1 ∧
    (∀ before checkpoint answer after, events = before++⟨.commit checkpoint,answer⟩::after →
      (∃ batch, StepApplied coordinator batch checkpoint before ∧ CommitOf checkpoint batch) ∧
      validateCheckpoint checkpoint = .ok () ∧ ∀ result, out = some result → result = answer) ∧
    (StepFailed coordinator events →
      commitCalls events = [] ∧ ∀ result, out = some result → ∃ status, result = .error status) ∧
    (out = some (.ok ()) → events = [⟨.poll coordinator.pollOptions,.ok []⟩] ∨
      ∃ checkpoint, commitCalls events = [checkpoint]) := by
  have hpost := (coordinatorStep_safe.emits h fun _ _ _ _ => trivial).2
  simp only [List.nil_append] at hpost
  refine ⟨?_,?_,?_,?_⟩
  · by_cases hcommit : commitCalls events = []
    · rw [hcommit]
      exact Nat.zero_le 1
    · obtain ⟨_,_,checkpoint,_,_,_,hone⟩ := committed_step h hcommit
      rw [hone]
      exact le_rfl
  · rintro before checkpoint answer after hevents
    obtain ⟨⟨batch,happlied⟩,rfl⟩ := commit_last h hevents
    obtain ⟨_,_,hbuild⟩ := bind_eq_ok.mp happlied.checked
    refine ⟨⟨batch,happlied,buildCommitCheckpoint_commitOf hbuild⟩,
      validateCheckpoint_of_checked happlied.nonempty happlied.checked,fun result hout => ?_⟩
    rcases hpost result hout with ⟨hnone,-⟩ | ⟨other,otherCheckpoint,hlast⟩
    · rw [hevents,commitCalls_commit] at hnone
      exact absurd (List.append_eq_nil_iff.mp hnone).2 (List.cons_ne_nil _ _)
    · rw [hevents] at hlast
      have hsame := (List.append_inj_right' hlast rfl)
      cases hsame
      rfl
  · intro hfailed
    have hnone : commitCalls events = [] := by
      by_contra hcommit
      obtain ⟨before,batch,checkpoint,answer,rfl,happlied,-⟩ := committed_step h hcommit
      exact happlied.not_failed hfailed
    refine ⟨hnone,fun result hout => ?_⟩
    cases result with
    | error status => exact ⟨status,rfl⟩
    | ok _ =>
      rcases hpost _ hout with ⟨-,hempty⟩ | ⟨before,checkpoint,rfl⟩
      · obtain ⟨hoptions,rfl⟩ := hempty rfl
        exact absurd hfailed (not_failed_empty hoptions)
      · rw [commitCalls_commit] at hnone
        exact absurd (List.append_eq_nil_iff.mp hnone).2 (List.cons_ne_nil _ _)
  · intro hout
    rcases hpost _ hout with ⟨-,hempty⟩ | ⟨before,checkpoint,rfl⟩
    · exact Or.inl (hempty rfl).2
    · have hcommit : commitCalls (before++[⟨.commit checkpoint,.ok ()⟩]) ≠ [] := by
        rw [commitCalls_commit]
        simp
      obtain ⟨_,_,made,_,_,_,hone⟩ := committed_step h hcommit
      exact Or.inr ⟨made,hone⟩

end Step

/-- A consumer with this batch, and tables that take every row. -/
def sampleAnswers (batch : List KafkaUpsertMessage) : (op : StepOp) → Unit → StepRes op×Unit
  | .poll _,_ => (.ok batch,())
  | .publish _,_ => (.ok (),())
  | .commit _,_ => (.ok (),())

def sampleStep : List StepEvent :=
  (coordinatorStep sampleCoordinator).trace
    (sampleAnswers [sampleMessage 7 4,sampleMessage 8 1]) ()

theorem coordinatorStep_commits_sample :
    commitCalls sampleStep = [⟨[⟨⟨[116],0⟩,5⟩]⟩] ∧ (commitCalls sampleStep).length ≤ 1 :=
  ⟨by decide +kernel,
    (coordinatorStep_commits sampleCoordinator sampleStep _ (Prog.trace_emits _ _ _)).1⟩

end Ingest
end KvIndex
