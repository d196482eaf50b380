import KvIndex.IndexKept
import KvIndex.Projection
import Mathlib.Data.List.ReduceOption

/-! The loads of one index do not meet. Each has an id, a record, a flag and a thread of its own,
and what the others do is nothing to it: its part of any run of the index is a run of that load
alone. -/
namespace KvIndex
namespace Rebuild

open Base Ingest Artifact LoadView ForwardIndex

/-- A step of a load whose index may be destroyed: the destructor sets the flag and leaves the
record as it is. -/
inductive StoppableStep : LoadWorld → Option LoadLabel → LoadWorld → Prop
  | load {world world' : LoadWorld} {label : LoadLabel} (h : LoadStep world label world') :
      StoppableStep world (some label) world'
  | stop (world : LoadWorld) : StoppableStep world none { world with flag := true }

/-- What the load of this thread and id sees of a step of the index. -/
def seenBy (i : ℕ) (id : LoadId) : ForwardIndexLabel → Option (Option LoadLabel)
  | .work thread event => if thread = i then some (some (.work event)) else none
  | .finish thread => if thread = i then some (some .finish) else none
  | .cancelRefused other => if other = id then some (some .cancelRefused) else none
  | .cancelMarks other => if other = id then some (some .cancelMarks) else none
  | .cancelReturns other => if other = id then some (some .cancelReturns) else none
  | .getLoadState other answer => if other = id then some (some (.getLoadState answer)) else none
  | .stopFlag thread => if thread = i then some none else none
  | _ => none

/-- A load in the index, and the same load alone. Of the directory only the size matters to it. -/
structure Apart (i : ℕ) (id : LoadId) (index : ForwardIndexState) (world : LoadWorld) : Prop where
  thread : index.loadWorkers[i]? = some ⟨id,world.worker,world.flag⟩
  record : index.loads id = some world.record
  registered : world.registered = world.worker.isSome
  cancelling : world.cancelling = true ↔ index.phase = .cancelling id
  length : world.directory.shards.length = index.directory.shards.length

section Apart

variable {options : ForwardIndexOptions} {index index' : ForwardIndexState} {i : ℕ} {id : LoadId}
  {world : LoadWorld}

theorem Apart.roster (h : Apart i id index world) :
    (roster index)[i]? = some (id,world.worker.isSome) := roster_getElem h.thread

theorem Apart.not_cancelling (h : Apart i id index world) (hphase : index.phase.unlocked = true) :
    world.cancelling = false := by
  cases hc : world.cancelling with
  | false => rfl
  | true =>
    rw [h.cancelling.mp hc] at hphase
    cases hphase

theorem Apart.frame (h : Apart i id index world)
    (hthread : index'.loadWorkers[i]? = index.loadWorkers[i]?)
    (hrecord : index'.loads id = index.loads id)
    (hphase : index'.phase = .cancelling id ↔ index.phase = .cancelling id)
    (hlength : index'.directory.shards.length = index.directory.shards.length) :
    Apart i id index' world :=
  ⟨hthread.trans h.thread,hrecord.trans h.record,h.registered,h.cancelling.trans hphase.symm,
    h.length.trans hlength.symm⟩

theorem Apart.other (h : Apart i id index world) (hkept : IndexKept options index) {j : ℕ}
    {thread : LoadThread} (hj : index.loadWorkers[j]? = some thread) (hne : j ≠ i) :
    thread.id ≠ id := by
  intro heq
  have hentry := roster_getElem hj
  rw [heq] at hentry
  exact hne (hkept.same hentry h.roster)

/-- The flag that is registered under the id of the load is its own, while it runs. -/
theorem Apart.cancellation (h : Apart i id index world) (hkept : IndexKept options index) :
    index.loadCancellations id = if world.registered then some i else none := by
  have hroster := h.roster
  rw [h.registered]
  cases hrunning : world.worker.isSome with
  | true =>
    rw [hrunning] at hroster
    exact (hkept.registered id i).mpr hroster
  | false =>
    rw [hrunning] at hroster
    cases hcancellation : index.loadCancellations id with
    | none => rfl
    | some j =>
      have hj := (hkept.registered id j).mp hcancellation
      obtain rfl := hkept.same hj hroster
      rw [hroster] at hj
      cases hj

theorem modify_getElem_self {α : Type} {l : List α} {a : α} (f : α → α) (h : l[i]? = some a) :
    (l.modify i f)[i]? = some (f a) := by
  rw [List.getElem?_modify_eq,h]
  rfl

theorem Apart.stop (h : Apart i id index world) (hphase : index'.phase = .cancelling id ↔
    index.phase = .cancelling id) (heq : index'.loadWorkers = (index.setFlag i).loadWorkers)
    (hloads : index'.loads = index.loads) (hdirectory : index'.directory = index.directory) :
    Apart i id index' { world with flag := true } := by
  refine ⟨?_,by rw [hloads]; exact h.record,h.registered,h.cancelling.trans hphase.symm,?_⟩
  · rw [heq]
    exact modify_getElem_self _ h.thread
  · rw [hdirectory]
    exact h.length

theorem publish_answer {directory directory' : ShardDirectory PublishedShard}
    (hlength : directory.shards.length = directory'.shards.length) (shardId : UInt32)
    (shard : PublishedShard) :
    (directory.publish shardId (some shard)).1 = (directory'.publish shardId (some shard)).1 := by
  rw [ShardDirectory.publish,ShardDirectory.publish,hlength]
  split_ifs
  · rfl
  · rfl

/-- The own operation of a load: the index answers as the load's own world does. -/
theorem Apart.work (h : Apart i id index world) {op : LoadOp} {answer : LoadRes op}
    (hstep : ThreadStep index ⟨id,world.worker,world.flag⟩ ⟨op,answer⟩ index') :
    ∃ world', WorkerStep world ⟨op,answer⟩ world' ∧ world'.flag = world.flag ∧
      world'.registered = world.registered ∧ world'.cancelling = world.cancelling ∧
      index'.loads id = some world'.record ∧
      world'.directory.shards.length = index'.directory.shards.length := by
  cases op with
  | storeState state =>
    obtain ⟨hlock,rfl⟩ := hstep
    refine ⟨{ world with record := storeRecord world.record state },
      ⟨h.not_cancelling hlock,rfl⟩,rfl,rfl,rfl,?_,?_⟩
    · rw [ForwardIndexState.storeState,h.record]
      exact Function.update_self _ _ _
    · rw [ForwardIndexState.storeState,h.record]
      exact h.length
  | publishShard shardId shard =>
    obtain ⟨hanswer,rfl⟩ := hstep
    refine ⟨{ world with directory := (world.directory.publish shardId (some shard)).2 },
      ⟨hanswer.trans (publish_answer h.length.symm _ _),rfl⟩,rfl,rfl,rfl,h.record,?_⟩
    show (world.directory.publish shardId (some shard)).2.shards.length =
      (index.directory.publish shardId (some shard)).2.shards.length
    rw [ShardDirectory.publish_length,ShardDirectory.publish_length]
    exact h.length
  | isCancelled =>
    obtain ⟨hanswer,rfl⟩ := hstep
    exact ⟨world,⟨hanswer,rfl⟩,rfl,rfl,rfl,h.record,h.length⟩
  | _ =>
    obtain rfl := hstep
    exact ⟨world,rfl,rfl,rfl,rfl,h.record,h.length⟩

theorem loads_emplace_other (h : Apart i id index world) (hkept : IndexKept options index)
    (record : LoadState) :
    emplace index.loads index.nextLoadId record id = index.loads id := by
  have hne : id ≠ index.nextLoadId := by
    intro heq
    have hnone := hkept.loads_next
    rw [← heq,h.record] at hnone
    cases hnone
  rw [emplace_of_none hkept.loads_next,Function.update_of_ne hne]

theorem Apart.loadAsync (h : Apart i id index world) (hkept : IndexKept options index)
    (files : FileSystem) (request : LoadRequest) (fuel : ℕ) :
    Apart i id (index.loadAsync options files request fuel).2 world := by
  have hlt := (List.getElem?_eq_some_iff.mp h.thread).1
  rcases loadAsync_cases index options files request fuel with ⟨status,-,heq⟩ | ⟨-,heq⟩
  · rw [heq]
    exact h.frame rfl (loads_emplace_other h hkept _) Iff.rfl rfl
  · rw [heq]
    exact h.frame (List.getElem?_append_left hlt) (loads_emplace_other h hkept _) Iff.rfl rfl

theorem Apart.step (h : Apart i id index world) (hkept : IndexKept options index)
    {label : ForwardIndexLabel} (hstep : FreshStep options index label index') :
    Steps.Follows StoppableStep (Apart i id) index' world (seenBy i id label) := by
  obtain ⟨-,hstep⟩ := hstep
  cases hstep with
  | loadAsync files request fuel hphase => exact h.loadAsync hkept files request fuel
  | @work index' j thread op next answer hthread hprogram hstep =>
    have hkeeps := hstep.keeps
    by_cases hj : j = i
    · subst hj
      rw [seenBy,if_pos rfl]
      obtain rfl := Option.some.inj (hthread.symm.trans h.thread)
      obtain ⟨world',hwork,hflag,hregistered,hcancelling,hrecord,hlength⟩ := h.work hstep
      refine ⟨_,StoppableStep.load (LoadStep.work hprogram hwork),?_,hrecord,?_,?_,hlength⟩
      · show (index'.loadWorkers.set j _)[j]? = _
        rw [hkeeps.loadWorkers,hflag]
        exact List.getElem?_set_self (List.getElem?_eq_some_iff.mp hthread).1
      · have hrunning := h.registered
        rw [show world.worker = some _ from hprogram] at hrunning
        exact hregistered.trans hrunning
      · show world'.cancelling = true ↔ index'.phase = _
        rw [hcancelling,hkeeps.phase]
        exact h.cancelling
    · rw [seenBy,if_neg hj]
      refine h.frame ?_ (hkeeps.others id (h.other hkept hthread hj).symm) ?_ hkeeps.length
      · show (index'.loadWorkers.set j _)[i]? = _
        rw [hkeeps.loadWorkers,List.getElem?_set_ne hj]
      · show index'.phase = _ ↔ _
        rw [hkeeps.phase]
  | @finish j thread result hthread hprogram hlock =>
    by_cases hj : j = i
    · subst hj
      rw [seenBy,if_pos rfl]
      obtain rfl := Option.some.inj (hthread.symm.trans h.thread)
      refine ⟨_,StoppableStep.load (LoadStep.finish hprogram (h.not_cancelling hlock)),
        modify_getElem_self _ h.thread,h.record,rfl,h.cancelling,h.length⟩
    · rw [seenBy,if_neg hj]
      refine h.frame ?_ rfl Iff.rfl rfl
      exact List.getElem?_modify_ne _ _ hj
  | cancelRefused hphase hmark =>
    rename_i other
    by_cases hother : other = id
    · subst hother
      rw [seenBy,if_pos rfl]
      have hlock := h.not_cancelling (by rw [hphase]; rfl)
      rw [ForwardIndexState.markCancelled,h.record] at hmark
      have hterminal : world.record.terminal = true := by
        by_contra hnot
        simp [hnot] at hmark
      exact ⟨world,StoppableStep.load (LoadStep.cancelRefused hlock hterminal),h⟩
    · rw [seenBy,if_neg hother]
      exact h
  | cancelMarks hphase hmark =>
    rename_i other
    obtain ⟨record,hrecord,hterminal,rfl⟩ := markCancelled_some hmark
    have hlock := h.not_cancelling (by rw [hphase]; rfl)
    by_cases hother : other = id
    · subst hother
      rw [seenBy,if_pos rfl]
      obtain rfl := Option.some.inj (hrecord.symm.trans h.record)
      refine ⟨_,StoppableStep.load (LoadStep.cancelMarks hlock hterminal),h.thread,?_,h.registered,
        ?_,h.length⟩
      · exact Function.update_self _ _ _
      · exact ⟨fun _ => rfl,fun _ => rfl⟩
    · rw [seenBy,if_neg hother]
      refine h.frame rfl (Function.update_of_ne (Ne.symm hother) _ _) ?_ rfl
      rw [hphase]
      simp only [reduceCtorEq,IndexPhase.cancelling.injEq,hother]
  | cancelReturns hphase =>
    rename_i other
    obtain ⟨hdirectory,-,hloads,-,-,hserving⟩ := finishCancel_frame index other
    by_cases hother : other = id
    · subst hother
      rw [seenBy,if_pos rfl]
      refine ⟨_,StoppableStep.load (LoadStep.cancelReturns (h.cancelling.mpr hphase)),?_,
        by rw [hloads]; exact h.record,h.registered,?_,by rw [hdirectory]; exact h.length⟩
      · rw [ForwardIndexState.finishCancel,h.cancellation hkept]
        cases hregistered : world.registered with
        | true =>
          show (index.loadWorkers.modify i _)[i]? = _
          rw [modify_getElem_self _ h.thread,Bool.or_true]
        | false =>
          show index.loadWorkers[i]? = _
          rw [h.thread,Bool.or_false]
      · rw [hserving]
        simp only [reduceCtorEq]
    · rw [seenBy,if_neg hother]
      refine h.frame ?_ (by rw [hloads]) ?_ (by rw [hdirectory])
      · rw [ForwardIndexState.finishCancel]
        cases hcancellation : index.loadCancellations other with
        | none => rfl
        | some j =>
          have hj := (hkept.registered other j).mp hcancellation
          have hne : j ≠ i := by
            rintro rfl
            rw [h.roster] at hj
            exact hother (congrArg Prod.fst (Option.some.inj hj)).symm
          exact List.getElem?_modify_ne _ _ hne
      · rw [hserving,hphase]
        simp only [reduceCtorEq,IndexPhase.cancelling.injEq,hother]
  | getLoadState other hphase =>
    by_cases hother : other = id
    · subst hother
      rw [seenBy,if_pos rfl]
      have hanswer : index.getLoadState other = world.record := by
        rw [ForwardIndexState.getLoadState,h.record]
      rw [hanswer]
      exact ⟨world,StoppableStep.load (LoadStep.getLoadState
        (h.not_cancelling (by rw [hphase]; rfl))),h⟩
    · rw [seenBy,if_neg hother]
      exact h
  | destroy threads hphase hthreads =>
    refine h.frame rfl rfl ?_ rfl
    rw [hphase]
    simp only [reduceCtorEq]
  | @stopFlag j threads hphase =>
    have hsame : (IndexPhase.stopping threads = .cancelling id) ↔ index.phase = .cancelling id := by
      rw [hphase]
      simp only [reduceCtorEq]
    by_cases hj : j = i
    · subst hj
      rw [seenBy,if_pos rfl]
      exact ⟨_,StoppableStep.stop world,h.stop hsame rfl rfl rfl⟩
    · rw [seenBy,if_neg hj]
      refine h.frame ?_ rfl hsame rfl
      exact List.getElem?_modify_ne _ _ hj
  | unlock hphase =>
    refine h.frame rfl rfl ?_ rfl
    rw [hphase]
    simp only [reduceCtorEq]
  | destroyed hphase hended =>
    refine h.frame rfl rfl ?_ rfl
    rw [hphase]
    simp only [reduceCtorEq]

theorem Apart.steps (h : Apart i id index world) (hkept : IndexKept options index)
    {labels : List ForwardIndexLabel} (hsteps : Steps (FreshStep options) index labels index') :
    ∃ world', Steps StoppableStep world (labels.filterMap (seenBy i id)) world' ∧
      Apart i id index' world' := by
  obtain ⟨world',hsteps',-,hapart⟩ := Steps.project StoppableStep (seenBy i id)
    (fun index world => IndexKept options index ∧ Apart i id index world) hsteps ⟨hkept,h⟩
    fun index label index' world hrel hstep => by
      have hkept' := hrel.1.step hstep
      have hfollows := hrel.2.step hrel.1 hstep
      cases hseen : seenBy i id label with
      | none =>
        rw [hseen] at hfollows
        exact ⟨hkept',hfollows⟩
      | some other =>
        rw [hseen] at hfollows
        obtain ⟨world',hother,hapart'⟩ := hfollows
        exact ⟨world',hother,hkept',hapart'⟩
  exact ⟨world',hsteps',hapart⟩

theorem Apart.start (hkept : IndexKept options index) (hphase : index.phase = .serving)
    {files : FileSystem} {request : LoadRequest} (fuel : ℕ)
    (haccepted : preflightLocalArtifactUri files request = .ok ()) :
    Apart index.loadWorkers.length index.nextLoadId (index.loadAsync options files request fuel).2
      (startLoad request index.nextLoadId options (.create options.shardCount) fuel) := by
  rcases loadAsync_cases index options files request fuel with ⟨status,herror,-⟩ | ⟨-,heq⟩
  · rw [haccepted] at herror
    cases herror
  · rw [heq]
    refine ⟨?_,?_,rfl,?_,?_⟩
    · show (index.loadWorkers++[_])[_]? = _
      rw [List.getElem?_append_right le_rfl,Nat.sub_self]
      rfl
    · show emplace index.loads index.nextLoadId _ _ = _
      rw [emplace_of_none hkept.loads_next,Function.update_self]
      rfl
    · show false = true ↔ index.phase = _
      rw [hphase]
      exact ⟨nofun,nofun⟩
    · show (List.replicate options.shardCount.toNat _).length = index.directory.shards.length
      rw [List.length_replicate,hkept.length]

end Apart

theorem stoppable_loadSteps {start world : LoadWorld} {labels : List (Option LoadLabel)}
    (h : Steps StoppableStep start labels world) (hnone : none ∉ labels) :
    Steps LoadStep start labels.reduceOption world := by
  induction h with
  | nil => exact Steps.nil
  | @snoc labels world world' label _ hlast ih =>
    rw [List.mem_append,not_or] at hnone
    rw [List.reduceOption_append]
    cases hlast with
    | load hstep => exact (ih hnone.1).snoc hstep
    | stop => exact absurd List.mem_cons_self hnone.2

/-- What the load of this thread and id sees of these steps of the index. -/
def seenLabels (i : ℕ) (id : LoadId) (labels : List ForwardIndexLabel) : List LoadLabel :=
  (labels.filterMap (seenBy i id)).reduceOption

theorem not_stopFlag {options : ForwardIndexOptions} {start index : ForwardIndexState}
    {labels : List ForwardIndexLabel} (h : Steps (FreshStep options) start labels index)
    (hstart : ∀ threads, start.phase ≠ .stopping threads) (hdestroy : .destroy ∉ labels) :
    ∀ thread, .stopFlag thread ∉ labels := by
  have hboth : .destroy ∉ labels → (∀ threads, index.phase ≠ .stopping threads) ∧
      ∀ thread, .stopFlag thread ∉ labels := by
    refine Steps.invariant (fun labels index => .destroy ∉ labels →
      (∀ threads, index.phase ≠ .stopping threads) ∧ ∀ thread, .stopFlag thread ∉ labels) h
      (fun _ => ⟨hstart,fun _ => List.not_mem_nil⟩) ?_
    intro labels index label index' hinv hstep hnot
    rw [List.mem_append,not_or] at hnot
    obtain ⟨hphase,hlabels⟩ := hinv hnot.1
    have hsnoc : (∀ thread, label ≠ .stopFlag thread) →
        ∀ thread, .stopFlag thread ∉ labels++[label] := by
      intro hne thread hmem
      rcases List.mem_append.mp hmem with hmem | hmem
      · exact hlabels thread hmem
      · exact hne thread (List.mem_singleton.mp hmem).symm
    obtain ⟨-,hstep⟩ := hstep
    cases hstep with
    | loadAsync files request fuel hserving =>
      refine ⟨?_,hsnoc (fun _ => nofun)⟩
      rcases loadAsync_cases index options files request fuel with ⟨status,-,heq⟩ | ⟨-,heq⟩
      · rw [heq]
        exact hphase
      · rw [heq]
        exact hphase
    | work hthread hprogram hstep =>
      refine ⟨?_,hsnoc (fun _ => nofun)⟩
      intro threads
      show _ ≠ _
      rw [hstep.keeps.phase]
      exact hphase threads
    | cancelMarks hserving hmark =>
      obtain ⟨record,-,-,rfl⟩ := markCancelled_some hmark
      exact ⟨fun _ => nofun,hsnoc (fun _ => nofun)⟩
    | cancelReturns hcancelling =>
      refine ⟨fun threads => ?_,hsnoc (fun _ => nofun)⟩
      rw [(finishCancel_frame index _).2.2.2.2.2]
      exact nofun
    | destroy threads hserving hthreads => exact absurd List.mem_cons_self hnot.2
    | stopFlag hstopping => exact absurd hstopping (hphase _)
    | unlock hstopping => exact absurd hstopping (hphase _)
    | destroyed hjoining hended => exact ⟨fun _ => nofun,hsnoc (fun _ => nofun)⟩
    | finish _ _ _ => exact ⟨hphase,hsnoc (fun _ => nofun)⟩
    | cancelRefused _ _ => exact ⟨hphase,hsnoc (fun _ => nofun)⟩
    | getLoadState _ _ => exact ⟨hphase,hsnoc (fun _ => nofun)⟩
  exact (hboth hdestroy).2

/-- Whatever the other loads, the calls and the cancellations do, the part of a load in the run of
an index is a run of that load alone, into an index of its own. -/
theorem loads_do_not_interfere (options : ForwardIndexOptions)
    (before after : List ForwardIndexLabel) (mid started index : ForwardIndexState)
    (files : FileSystem) (request : LoadRequest) (fuel : ℕ) (h : IndexHistory options before mid)
    (hstart : FreshStep options mid (.loadAsync files request fuel) started)
    (haccepted : preflightLocalArtifactUri files request = .ok ())
    (hafter : Steps (FreshStep options) started after index) (hdestroy : .destroy ∉ after) :
    ∃ world, LoadHistory request mid.nextLoadId options (.create options.shardCount) fuel
        (seenLabels mid.loadWorkers.length mid.nextLoadId after) world ∧
      index.loads mid.nextLoadId = some world.record ∧
      index.loadWorkers[mid.loadWorkers.length]? =
        some ⟨mid.nextLoadId,world.worker,world.flag⟩ := by
  have hkept := h.kept
  have hstarted := hkept.step hstart
  obtain ⟨-,hstart⟩ := hstart
  cases hstart with
  | loadAsync _ _ _ hserving =>
    have hapart := Apart.start hkept hserving fuel haccepted
    obtain ⟨world,hsteps,hindex⟩ := hapart.steps hstarted hafter
    have hphase : ∀ threads, (mid.loadAsync options files request fuel).2.phase ≠
        .stopping threads := by
      intro threads
      rcases loadAsync_cases mid options files request fuel with ⟨status,-,heq⟩ | ⟨-,heq⟩
      · rw [heq,hserving]
        exact nofun
      · rw [heq,hserving]
        exact nofun
    have hstop := not_stopFlag hafter hphase hdestroy
    refine ⟨world,stoppable_loadSteps hsteps ?_,hindex.record,hindex.thread⟩
    intro hnone
    obtain ⟨label,hlabel,hseen⟩ := List.mem_filterMap.mp hnone
    cases label with
    | stopFlag thread => exact hstop thread hlabel
    | _ => simp [seenBy] at hseen

/-- A call of `CancelLoad` for a load that runs. -/
theorem cancel_steps (options : ForwardIndexOptions) (index : ForwardIndexState) (id : LoadId)
    (record : LoadState) (hserving : index.phase = .serving) (hrecord : index.loads id = some record)
    (hrunning : record.terminal = false) :
    Steps (FreshStep options) index [.cancelMarks id,.cancelReturns id]
      (ForwardIndexState.finishCancel { index with
        loads := Function.update index.loads id (some (cancelRecord record))
        phase := .cancelling id } id) := by
  have hmarks : FreshStep options index (.cancelMarks id) { index with
      loads := Function.update index.loads id (some (cancelRecord record))
      phase := .cancelling id } := by
    refine ⟨trivial,ForwardIndexStep.cancelMarks hserving ?_⟩
    rw [ForwardIndexState.markCancelled,hrecord]
    simp [hrunning]
  exact Steps.head hmarks (Steps.head ⟨trivial,ForwardIndexStep.cancelReturns rfl⟩ Steps.nil)

def sampleFiles : FileSystem where
  stat := fun _ => .regular
  contents := fun _ => .missing

def sampleConstructed : ForwardIndexState := { directory := .create sampleIndex.shardCount }

def sampleStarted : ForwardIndexState :=
  (sampleConstructed.loadAsync sampleIndex sampleFiles sampleRequest 1).2

theorem sampleRequest_accepted : preflightLocalArtifactUri sampleFiles sampleRequest = .ok () := by
  decide

theorem sampleConstructed_history : IndexHistory sampleIndex [] sampleConstructed :=
  ⟨sampleConstructed,rfl,Steps.nil⟩

theorem sampleStarted_step : FreshStep sampleIndex sampleConstructed
    (.loadAsync sampleFiles sampleRequest 1) sampleStarted :=
  ⟨by show 1+1 < 2^64; decide,ForwardIndexStep.loadAsync sampleFiles sampleRequest 1 rfl⟩

/-- A second load starts and is cancelled, and then the first one is. -/
theorem loads_do_not_interfere_sample :
    ∃ after index world, Steps (FreshStep sampleIndex) sampleStarted after index ∧
      after.length = 5 ∧
      LoadHistory sampleRequest 1 sampleIndex (.create 1) 1 [.cancelMarks,.cancelReturns] world ∧
      index.loads 1 = some world.record := by
  let both : ForwardIndexState :=
    (sampleStarted.loadAsync sampleIndex sampleFiles sampleRequest 1).2
  have hboth : FreshStep sampleIndex sampleStarted (.loadAsync sampleFiles sampleRequest 1) both :=
    ⟨by show 2+1 < 2^64; decide,ForwardIndexStep.loadAsync sampleFiles sampleRequest 1 rfl⟩
  have hsecond := cancel_steps sampleIndex both 2 (recordOf sampleRequest 2) rfl rfl rfl
  generalize hmid : ForwardIndexState.finishCancel _ 2 = mid at hsecond
  have hfirst := cancel_steps sampleIndex mid 1 (recordOf sampleRequest 1) (by rw [← hmid]; rfl)
    (by rw [← hmid]; rfl) rfl
  generalize ForwardIndexState.finishCancel _ 1 = index at hfirst
  have hafter := Steps.head hboth (hsecond.append hfirst)
  obtain ⟨world,hhistory,hrecord,-⟩ := loads_do_not_interfere sampleIndex [] _ sampleConstructed
    sampleStarted index sampleFiles sampleRequest 1 sampleConstructed_history sampleStarted_step
    sampleRequest_accepted hafter (by simp)
  exact ⟨_,index,world,hafter,rfl,hhistory,hrecord⟩

end Rebuild
end KvIndex
