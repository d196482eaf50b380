import KvIndex.LoadWorld
import KvIndex.PromptRuns

/-! How long a load goes on once it has been cancelled. It asks for its flag between any two
shards and in every round of the catch-up, so that only a few operations are left, whatever
the number of shards and however far the source is ahead. -/
namespace KvIndex
namespace Rebuild

open Base Ingest Artifact LoadView ForwardIndex Prog

/-- Answers to a load whose flag is set. -/
def ToldToStop : (op : LoadOp) → LoadRes op → Prop
  | .isCancelled, answer => answer = true
  | _, _ => True

/-- The part performs at most `n` operations once it is told to stop, `left` of them behind it. -/
def StopsIn {α : Type} (most left n : ℕ) (part : LoadPart α) : Prop :=
  PromptOr ToldToStop most (fun _ => left) n part

section StopsIn

variable {α β : Type} {most left mid n : ℕ} {state : LoadState}

theorem StopsIn.bind {part : LoadPart α} {rest : α → LoadPart β} (h : StopsIn most mid n part)
    (hrest : ∀ a, StopsIn most left mid (rest a)) : StopsIn most left n (part >>= rest) :=
  PromptOr.bind h hrest

theorem perform_stops {op : LoadOp} (hmost : n+1 ≤ most) :
    StopsIn most n (n+1) (perform op) :=
  PromptOr.call (fun _ _ => le_rfl) (fun _ => Nat.le_of_succ_le hmost) hmost

theorem storeAndReturn_stops {status : StatusOr Unit} (hmost : n+1 ≤ most) :
    StopsIn most left (n+1) (storeAndReturn status state : LoadPart α) :=
  (perform_stops hmost).bind fun _ => PromptOr.throw (Nat.le_of_succ_le hmost)

theorem orFail_stops {result : StatusOr α} (hmost : n+1 ≤ most) :
    StopsIn most (n+1) (n+1) (orFail state result) := by
  cases result with
  | error status => exact storeAndReturn_stops hmost
  | ok a => exact PromptOr.pure le_rfl hmost

/-- A load that goes on has not been told to stop, and may have anything left to do. -/
theorem checkCancelled_stops (hn : n ≤ most) (hmost : 2 ≤ most) :
    StopsIn most n 2 (checkCancelled state) := by
  have hask : PromptOr ToldToStop most (fun answer => if answer then 1 else n) 2 isCancelled := by
    refine PromptOr.call ?_ ?_ hmost
    · rintro answer rfl
      exact le_rfl
    · intro answer
      cases answer with
      | false => exact hn
      | true => exact Nat.le_of_succ_le hmost
  refine PromptOr.bind hask fun answer => ?_
  cases answer with
  | false => exact PromptOr.pure le_rfl hn
  | true => exact storeAndReturn_stops (Nat.le_of_succ_le hmost)

theorem loadShards_stops {request : LoadRequest} {options : ForwardIndexOptions} (hleft : 2 ≤ left)
    (hmost : left+2 ≤ most) (shardIds : List ℕ) (state : LoadState)
    (backings : List MmapSnapshotBacking) :
    StopsIn most left left (loadShards request options shardIds state backings) := by
  induction shardIds generalizing state backings with
  | nil => exact PromptOr.pure le_rfl (by omega)
  | cons shardId shardIds ih =>
    have hcheck : StopsIn most (left+2) 2 (checkCancelled state) :=
      checkCancelled_stops hmost (by omega)
    refine (hcheck.mono hleft (by omega) : StopsIn most (left+2) left _).bind fun _ => ?_
    refine (perform_stops hmost).bind fun mapped => ?_
    refine (orFail_stops (by omega)).bind fun bytes => ?_
    refine (orFail_stops (by omega)).bind fun backing => ?_
    exact (perform_stops (by omega)).bind fun _ => ih _ _

theorem prewarmShards_stops (hleft : 2 ≤ left) (hmost : left+2 ≤ most) (shardIds : List ℕ)
    (state : LoadState) : StopsIn most left left (prewarmShards shardIds state) := by
  induction shardIds generalizing state with
  | nil => exact PromptOr.pure le_rfl (by omega)
  | cons shardId shardIds ih =>
    have hcheck : StopsIn most (left+2) 2 (checkCancelled state) :=
      checkCancelled_stops hmost (by omega)
    refine (hcheck.mono hleft (by omega) : StopsIn most (left+2) left _).bind fun _ => ?_
    refine (perform_stops hmost).bind fun status => ?_
    refine (orFail_stops (by omega)).bind fun _ => ?_
    exact (perform_stops (by omega)).bind fun _ => ih _

theorem cutoverShards_stops (hmost : 4 ≤ most) (shardId : ℕ) (shards : List PublishedShard)
    (state : LoadState) : StopsIn most 2 2 (cutoverShards shardId shards state) := by
  induction shards generalizing shardId state with
  | nil => exact PromptOr.pure le_rfl (by omega)
  | cons shard shards ih =>
    refine (checkCancelled_stops hmost (by omega)).bind fun _ => ?_
    refine (perform_stops hmost).bind fun status => ?_
    refine (orFail_stops (by omega)).bind fun _ => ?_
    exact (perform_stops (by omega)).bind fun _ => ih _ _

theorem observe_stops {target : KafkaProgress} (hmost : 4 ≤ most) :
    StopsIn most 2 4 (observe target state) := by
  refine (perform_stops hmost).bind fun captured => ?_
  refine (orFail_stops (by omega)).bind fun observed => ?_
  refine (orFail_stops (by omega)).bind fun progress => ?_
  exact (perform_stops (by omega)).bind fun _ => PromptOr.pure le_rfl (by omega)

theorem failPoll_stops {status : Status} (hmost : 4 ≤ most) :
    StopsIn most left 4 (failPoll state status : LoadPart α) := by
  unfold failPoll
  split
  · exact storeAndReturn_stops hmost
  · refine (perform_stops hmost).bind fun answer => ?_
    cases answer with
    | false => exact storeAndReturn_stops (by omega)
    | true => exact storeAndReturn_stops (by omega)

theorem catchUp_stops (hmost : 5 ≤ most) (fuel : ℕ) (state : LoadState) :
    StopsIn most 2 2 (catchUp fuel state) := by
  induction fuel generalizing state with
  | zero =>
    rw [catchUp]
    split
    · exact PromptOr.throw (by omega)
    · exact PromptOr.pure le_rfl (by omega)
  | succ fuel ih =>
    rw [catchUp]
    split
    · refine (checkCancelled_stops hmost (by omega)).bind fun _ => ?_
      refine (perform_stops hmost).bind fun polled => ?_
      cases polled with
      | ok _ => exact (observe_stops (by omega)).bind fun state => ih state
      | error status => exact failPoll_stops (by omega)
    · exact PromptOr.pure le_rfl (by omega)

theorem runCatchUp_stops {id : LoadId} {options : ForwardIndexOptions} {artifact : ParsedArtifact}
    (hmost : 5 ≤ most) (fuel : ℕ) :
    StopsIn most 2 5 (runCatchUp id options fuel artifact state) := by
  refine (orFail_stops hmost).bind fun _ => ?_
  refine (perform_stops hmost).bind fun runner => ?_
  refine (orFail_stops (by omega)).bind fun _ => ?_
  refine (perform_stops (by omega)).bind fun _ => ?_
  refine (perform_stops (by omega)).bind fun started => ?_
  refine (orFail_stops (by omega)).bind fun _ => ?_
  refine (checkCancelled_stops (n := 4) (by omega) (by omega)).bind fun _ => ?_
  refine (observe_stops (by omega)).bind fun state => ?_
  refine (catchUp_stops hmost fuel state).bind fun state => ?_
  refine (checkCancelled_stops (n := 2) (by omega) (by omega)).bind fun _ => ?_
  exact PromptOr.pure le_rfl (by omega)

end StopsIn

/-- The operations that a load may still perform once its flag is set. In a Kafka mode the longest
way is from the last prewarm on: it ends that, makes its runner and starts it. -/
def stopLatency (mode : ForwardIndexMode) : ℕ :=
  if forwardIndexModeUsesKafkaRealtime mode then 7 else 4

section Latency

variable {request : LoadRequest} {id : LoadId} {options : ForwardIndexOptions}
  {directory : ShardDirectory PublishedShard} {fuel : ℕ}

theorem catchUpPart_stops (backings : List MmapSnapshotBacking) (state : LoadState) :
    StopsIn (stopLatency options.mode) 2 (stopLatency options.mode-2)
      (catchUpPart id options fuel backings state) := by
  unfold catchUpPart stopLatency
  split
  · cases backings with
    | nil => exact PromptOr.pure (by omega) (by omega)
    | cons backing backings => exact runCatchUp_stops (by omega) fuel
  · exact PromptOr.pure le_rfl (by omega)

theorem four_le_stopLatency (mode : ForwardIndexMode) : 4 ≤ stopLatency mode := by
  unfold stopLatency
  split <;> omega

theorem loadArtifact_stops (hasPublish : Bool) :
    StopsIn (stopLatency options.mode) 0 3
      (loadArtifact request id options hasPublish fuel) := by
  have hmost := four_le_stopLatency options.mode
  refine (perform_stops (by omega)).bind fun _ => ?_
  refine (orFail_stops (by omega)).bind fun _ => ?_
  refine (orFail_stops (by omega)).bind fun _ => ?_
  refine (checkCancelled_stops (n := stopLatency options.mode-2) (by omega) (by omega)).bind
    fun _ => ?_
  refine (loadShards_stops (by omega) (by omega) _ _ _).bind fun loaded => ?_
  refine (prewarmShards_stops (by omega) (by omega) _ _).bind fun state => ?_
  refine (catchUpPart_stops loaded.2 state).bind fun state => ?_
  refine (cutoverShards_stops hmost _ _ _).bind fun state => ?_
  exact storeAndReturn_stops (by omega)

theorem runExternalArtifactLoad_stops (hasPublish : Bool) :
    Prompt ToldToStop (stopLatency options.mode) (fun _ => 0) 3
      (runExternalArtifactLoad request id options hasPublish fuel) := by
  refine Prompt.bind (loadArtifact_stops hasPublish) fun result => ?_
  cases result with
  | error outcome => exact ⟨le_rfl,Nat.zero_le _⟩
  | ok outcome => exact ⟨le_rfl,Nat.zero_le _⟩

end Latency

section World

variable {mid world : LoadWorld} {after : List LoadLabel}

theorem workerEvents_leaves (h : Steps LoadStep mid after world) {p : Loading LoadOutcome}
    (hp : mid.worker = some p) :
    ∃ q, Leaves p (workerEvents after) q ∧ (world.worker = some q ∨ world.worker = none) := by
  refine Steps.invariant (fun after world => ∃ q, Leaves p (workerEvents after) q ∧
    (world.worker = some q ∨ world.worker = none)) h ⟨p,Leaves.nil p,Or.inl hp⟩ ?_
  rintro labels world label world' ⟨q,hleaves,hworker⟩ hstep
  have hquiet := @workerEvents_quiet labels label
  cases hstep with
  | @work world' op next answer hperform _ =>
    rw [hperform] at hworker
    rcases hworker with hworker | hworker
    · obtain rfl := Option.some.inj hworker
      rw [workerEvents_work]
      exact ⟨next answer,hleaves.snoc answer,Or.inl rfl⟩
    · cases hworker
  | finish _ _ =>
    rw [hquiet rfl]
    exact ⟨q,hleaves,Or.inr rfl⟩
  | _ =>
    rw [hquiet rfl]
    exact ⟨q,hleaves,hworker⟩

theorem workerEvents_ended (h : Steps LoadStep mid after world) (hnone : mid.worker = none) :
    workerEvents after = [] ∧ world.worker = none := by
  refine Steps.invariant (fun after world => workerEvents after = [] ∧ world.worker = none) h
    ⟨rfl,hnone⟩ ?_
  rintro labels world label world' ⟨hevents,hworker⟩ hstep
  have hquiet := @workerEvents_quiet labels label
  cases hstep with
  | work hperform _ =>
    rw [hworker] at hperform
    cases hperform
  | finish hdone _ =>
    rw [hworker] at hdone
    cases hdone
  | _ =>
    rw [hquiet rfl]
    exact ⟨hevents,hworker⟩

/-- A flag that is set stays so, and the worker is told so whenever it asks. -/
theorem toldToStop_of_flag (h : Steps LoadStep mid after world) (hflag : mid.flag = true) :
    world.flag = true ∧ ∀ event ∈ workerEvents after, ToldToStop event.1 event.2 := by
  refine Steps.invariant (fun after world => world.flag = true ∧
    ∀ event ∈ workerEvents after, ToldToStop event.1 event.2) h ⟨hflag,nofun⟩ ?_
  rintro labels world label world' ⟨hworld,htold⟩ hstep
  have hquiet := @workerEvents_quiet labels label
  cases hstep with
  | @work world' op next answer _ hstep =>
    refine ⟨hstep.frame.2.1.trans hworld,?_⟩
    rw [workerEvents_work]
    refine List.forall_mem_append.mpr ⟨htold,List.forall_mem_singleton.mpr ?_⟩
    cases op with
    | isCancelled => exact hstep.1.trans hworld
    | _ => trivial
  | cancelReturns _ =>
    rw [hquiet rfl]
    exact ⟨by simp [hworld],htold⟩
  | _ =>
    rw [hquiet rfl]
    exact ⟨hworld,htold⟩

/-- From whatever moment its flag is set, a load performs at most `stopLatency` operations more,
and has ended when it has performed them. An outcome `none` is the bound on the rounds run out;
what is said holds for every bound, and so for the loop without one. -/
theorem cancelled_load_ends_soon (request : LoadRequest) (id : LoadId)
    (options : ForwardIndexOptions) (directory : ShardDirectory PublishedShard) (fuel : ℕ)
    (before after : List LoadLabel) (mid world : LoadWorld)
    (h : LoadHistory request id options directory fuel before mid)
    (hafter : Steps LoadStep mid after world) (hflag : mid.flag = true) :
    (workerEvents after).length ≤ stopLatency options.mode ∧
      ((workerEvents after).length = stopLatency options.mode →
        world.worker = none ∨ ∃ outcome, world.worker = some (.done outcome)) := by
  cases hmid : mid.worker with
  | none =>
    obtain ⟨hevents,hnone⟩ := workerEvents_ended hafter hmid
    rw [hevents]
    exact ⟨Nat.zero_le _,fun _ => Or.inl hnone⟩
  | some p =>
    obtain ⟨start,hstart,hworker⟩ := workerEvents_leaves h rfl
    rw [hmid] at hworker
    have hp : start = p := by
      rcases hworker with hworker | hworker
      · exact (Option.some.inj hworker).symm
      · cases hworker
    subst hp
    have hprompt := (runExternalArtifactLoad_stops true).leaves hstart
    obtain ⟨q,hleaves,hended⟩ := workerEvents_leaves hafter hmid
    obtain ⟨hlength,hleft⟩ := hprompt.stops hleaves (toldToStop_of_flag hafter hflag).2
    refine ⟨hlength,fun heq => ?_⟩
    rw [heq,Nat.sub_self] at hleft
    cases q with
    | done outcome => exact hended.symm.imp_right fun hworker => ⟨outcome,hworker⟩
    | perform op next => exact hleft.elim

/-- The sample load is cancelled before its worker has done anything. -/
theorem cancelled_load_ends_soon_sample :
    ∃ mid after world, LoadHistory sampleRequest 1 sampleIndex (.create 1) 1
        [.cancelMarks,.cancelReturns] mid ∧ Steps LoadStep mid after world ∧
      (∃ outcome, world.worker = some (.done outcome)) ∧ (workerEvents after).length ≤ 7 := by
  let marked : LoadWorld := { sampleLoadStart with
    record := cancelRecord sampleLoadStart.record,cancelling := true }
  let mid : LoadWorld := { marked with flag := true,cancelling := false }
  have hmarks : LoadStep sampleLoadStart .cancelMarks marked := .cancelMarks rfl rfl
  have hreturns : LoadStep marked .cancelReturns mid := .cancelReturns rfl
  have hbefore : LoadHistory sampleRequest 1 sampleIndex (.create 1) 1
      [.cancelMarks,.cancelReturns] mid := Steps.head hmarks (Steps.head hreturns Steps.nil)
  obtain ⟨world,hafter,hworker,-⟩ := worker_steps sampleAnswer
    (runExternalArtifactLoad sampleRequest 1 sampleIndex true 1) mid rfl
  obtain ⟨hlength,-⟩ := cancelled_load_ends_soon sampleRequest 1 sampleIndex (.create 1) 1
    _ _ mid world hbefore hafter rfl
  exact ⟨mid,_,world,hbefore,hafter,⟨_,hworker⟩,hlength⟩

end World
end Rebuild
end KvIndex
