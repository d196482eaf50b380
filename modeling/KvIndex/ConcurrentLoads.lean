import KvIndex.LoadedRows

/-! Loads of one index that run at the same time. Every `LoadAsync` starts a worker of its
own; the workers take turns in any order and share the directory, which keeps whatever is
published last. -/
namespace KvIndex
namespace Rebuild

open Base Ingest Artifact LoadView ForwardIndex

/-- A worker, with what it has done so far and the program that is left. -/
structure LoadWorker (options : ForwardIndexOptions) where
  id : LoadId
  request : LoadRequest
  fuel : ℕ
  events : List LoadEvent
  program : Loading LoadOutcome
  leaves : Prog.Leaves (runExternalArtifactLoad request id options true fuel) events program

namespace LoadWorker

variable {options : ForwardIndexOptions}

def start (options : ForwardIndexOptions) (request : LoadRequest) (id : LoadId) (fuel : ℕ) :
    LoadWorker options where
  id := id
  request := request
  fuel := fuel
  events := []
  program := runExternalArtifactLoad request id options true fuel
  leaves := .nil _

def advance (worker : LoadWorker options) {op : LoadOp} {next : LoadRes op → Loading LoadOutcome}
    (h : worker.program = .perform op next) (answer : LoadRes op) : LoadWorker options :=
  { worker with
    events := worker.events++[⟨op,answer⟩]
    program := next answer
    leaves := (h ▸ worker.leaves).snoc answer }

/-- The load has returned. -/
def Finished (worker : LoadWorker options) : Prop := ∃ result, worker.program = .done (some result)

/-- The load has returned that it succeeded. -/
def Succeeded (worker : LoadWorker options) : Prop :=
  ∃ state, worker.program = .done (some (.ok (),state))

theorem run (worker : LoadWorker options) :
    LoadRun worker.request worker.id options true worker.fuel worker.events none :=
  worker.leaves.emits

end LoadWorker

structure IndexWorld (options : ForwardIndexOptions) where
  nextLoadId : LoadId := 1
  directory : ShardDirectory PublishedShard := .create options.shardCount
  workers : List (LoadWorker options) := []

inductive IndexLabel
  | loadAsync (request : LoadRequest) (fuel : ℕ)
  | loadRefused
  | work (worker : ℕ) (event : LoadEvent)

/-- What an operation of a worker does to the directory. The files, the runner and the
cancellation may answer anything. -/
def DirectoryStep (directory : ShardDirectory PublishedShard) (event : LoadEvent) (directory' : ShardDirectory PublishedShard) :
    Prop :=
  match event with
  | ⟨.publishShard shardId shard,answer⟩ =>
    answer = (directory.publish shardId (some shard)).1 ∧
      directory' = (directory.publish shardId (some shard)).2
  | _ => directory' = directory

inductive IndexStep {options : ForwardIndexOptions} :
    IndexWorld options → IndexLabel → IndexWorld options → Prop
  | loadAsync (world : IndexWorld options) (request : LoadRequest) (fuel : ℕ) :
      IndexStep world (.loadAsync request fuel) { world with
        nextLoadId := world.nextLoadId+1
        workers := world.workers++[.start options request world.nextLoadId fuel] }
  /-- The preflight of the artifact fails: the call has an id and no worker. -/
  | loadRefused (world : IndexWorld options) :
      IndexStep world .loadRefused { world with nextLoadId := world.nextLoadId+1 }
  | work {world : IndexWorld options} {i : ℕ} {worker : LoadWorker options} {op : LoadOp}
      {next : LoadRes op → Loading LoadOutcome} {answer : LoadRes op} {directory : ShardDirectory PublishedShard}
      (hworker : world.workers[i]? = some worker) (hprogram : worker.program = .perform op next)
      (hdirectory : DirectoryStep world.directory ⟨op,answer⟩ directory) :
      IndexStep world (.work i ⟨op,answer⟩) { world with
        directory := directory
        workers := world.workers.set i (worker.advance hprogram answer) }

/-- A load may start: all earlier ones have returned, and there is an id left. -/
def MayLoad {options : ForwardIndexOptions} (world : IndexWorld options) : IndexLabel → Prop
  | .loadAsync _ _ => (∀ worker ∈ world.workers, worker.Finished) ∧ world.nextLoadId.toNat+1 < 2^64
  | .loadRefused => world.nextLoadId.toNat+1 < 2^64
  | .work _ _ => True

/-- A step of an index whose loads do not overlap. -/
def LoneStep {options : ForwardIndexOptions} (world : IndexWorld options) (label : IndexLabel)
    (world' : IndexWorld options) : Prop := MayLoad world label ∧ IndexStep world label world'

def generationOf (directory : ShardDirectory PublishedShard) (shardId : UInt32) : Option LoadId :=
  match directory.load shardId with
  | .error _ => none
  | .ok shard => shard.map (·.generation)

section Directory

variable {directory directory' : ShardDirectory PublishedShard}

theorem generationOf_publish (directory : ShardDirectory PublishedShard) (shardId other : UInt32)
    (shard : PublishedShard) :
    generationOf (directory.publish shardId (some shard)).2 other = generationOf directory other ∨
      (other = shardId ∧ generationOf (directory.publish shardId (some shard)).2 other =
        some shard.generation) := by
  rw [ShardDirectory.publish]
  by_cases hrange : shardId.toNat ≥ directory.shards.length
  · rw [if_pos hrange]
    exact Or.inl rfl
  · rw [if_neg hrange]
    by_cases hsame : other = shardId
    · subst hsame
      refine Or.inr ⟨rfl,?_⟩
      have hget : (directory.shards.set other.toNat (some shard))[other.toNat]? =
          some (some shard) := List.getElem?_set_self (Nat.lt_of_not_le hrange)
      simp only [generationOf,ShardDirectory.load,hget]
      rfl
    · refine Or.inl ?_
      have hne : shardId.toNat ≠ other.toNat := fun h => hsame (UInt32.toNat_inj.mp h).symm
      simp only [generationOf,ShardDirectory.load,List.getElem?_set_ne hne]

end Directory

namespace LoadWorker

variable {options : ForwardIndexOptions} {worker : LoadWorker options} {op : LoadOp}
  {next : LoadRes op → Loading LoadOutcome}

theorem not_finished (hprogram : worker.program = .perform op next) : ¬worker.Finished := by
  rintro ⟨result,hdone⟩
  rw [hprogram] at hdone
  cases hdone

theorem publish_generation {shardId : UInt32} {shard : PublishedShard}
    {next : LoadRes (.publishShard shardId shard) → Loading LoadOutcome}
    (hprogram : worker.program = .perform (.publishShard shardId shard) next) :
    shard.generation = worker.id ∧ shard.shardId = shardId := by
  have hrun := (worker.advance hprogram (.ok ())).run
  have hmay : (view options worker.events).MayPublish worker.id options shardId shard :=
    hrun.mayPublish rfl
  refine ⟨?_,mayPublish_shardId hmay⟩
  have hshard := hmay.shard
  rw [shardStates,List.getElem?_mapIdx,Option.map_eq_some_iff] at hshard
  obtain ⟨_,-,rfl⟩ := hshard
  rfl

/-- A load that succeeded has published all its shards, under its own id. -/
theorem Succeeded.generations (h : worker.Succeeded) {directory : ShardDirectory PublishedShard}
    (hdirectory : directory.shards.length = options.shardCount.toNat) {shardId : UInt32}
    (hid : shardId.toNat < options.shardCount.toNat) :
    generationOf (publishAll directory (publishedShards worker.events)) shardId =
      some worker.id := by
  obtain ⟨state,hdone⟩ := h
  have hrun : LoadRun worker.request worker.id options true worker.fuel worker.events
      (some (some (.ok (),state))) := Prog.Leaves.ends (hdone ▸ worker.leaves)
  have hended : Ended options worker.events (.ok ()) state := hrun.ends rfl
  have hall : (publishedShards worker.events).length = options.shardCount.toNat :=
    (hended.succeeded rfl).2
  obtain ⟨shard,-,hcall,hload⟩ := hrun.directory_all hall hdirectory hid
  rw [UInt32.ofNat_toNat] at hload
  rw [generationOf,hload,← (hrun.publishCalls_getElem hcall).2.1]
  rfl

end LoadWorker

/-- What holds when the load of `last` was the last to start. -/
structure LastLoad {options : ForwardIndexOptions} (world : IndexWorld options)
    (earlier : List (LoadWorker options)) (last : LoadWorker options) : Prop where
  workers : world.workers = earlier++[last]
  earlier : ∀ worker ∈ earlier, worker.Finished ∧ worker.id < last.id
  current : last.id < world.nextLoadId
  generations : ∀ shardId generation, generationOf world.directory shardId = some generation →
    generation ≤ last.id
  served : ∃ start : ShardDirectory PublishedShard, start.shards.length = options.shardCount.toNat ∧
    world.directory = publishAll start (publishedShards last.events)

/-- There has been no load yet, or one was the last to start. -/
def IndexInv {options : ForwardIndexOptions} (world : IndexWorld options) : Prop :=
  (world.workers = [] ∧ world.directory = .create options.shardCount) ∨
    ∃ earlier last, LastLoad world earlier last

section Inv

variable {options : ForwardIndexOptions} {world world' : IndexWorld options}
  {earlier : List (LoadWorker options)} {last : LoadWorker options}

theorem generationOf_create (shardCount shardId : UInt32) :
    generationOf (.create shardCount) shardId = none := by
  simp only [generationOf,ShardDirectory.load,ShardDirectory.create,List.getElem?_replicate]
  by_cases h : shardId.toNat < shardCount.toNat
  · rw [if_pos h]
    rfl
  · rw [if_neg h]

theorem lt_add_one_of_toNat {id : LoadId} (h : id.toNat+1 < 2^64) : id < id+1 := by
  rw [UInt64.lt_iff_toNat_lt,UInt64.toNat_add,UInt64.toNat_one,Nat.mod_eq_of_lt h]
  exact Nat.lt_succ_self _

theorem publishAll_length (directory : ShardDirectory PublishedShard) (shards : List PublishedShard) :
    (publishAll directory shards).shards.length = directory.shards.length := by
  induction shards using List.reverseRecOn with
  | nil => rfl
  | append_singleton shards shard ih => rw [publishAll_snoc,ShardDirectory.publish_length,ih]

theorem LastLoad.at_work (h : LastLoad world earlier last) {i : ℕ} {worker : LoadWorker options}
    (hworker : world.workers[i]? = some worker) (hbusy : ¬worker.Finished) :
    i = earlier.length ∧ worker = last := by
  rw [h.workers] at hworker
  by_cases hi : i < earlier.length
  · rw [List.getElem?_append_left hi] at hworker
    exact absurd (h.earlier worker (List.mem_of_getElem? hworker)).1 hbusy
  · rw [List.getElem?_append_right (by omega)] at hworker
    obtain ⟨hlt,hget⟩ := List.getElem?_eq_some_iff.mp hworker
    rw [List.length_singleton] at hlt
    have hsub : i-earlier.length = 0 := by omega
    simp only [hsub,List.getElem_cons_zero] at hget
    exact ⟨by omega,hget.symm⟩

theorem LastLoad.loadAsync (h : LastLoad world earlier last)
    (hmay : (∀ worker ∈ world.workers, worker.Finished) ∧ world.nextLoadId.toNat+1 < 2^64)
    (request : LoadRequest) (fuel : ℕ) :
    LastLoad { world with
        nextLoadId := world.nextLoadId+1
        workers := world.workers++[.start options request world.nextLoadId fuel] }
      (earlier++[last]) (.start options request world.nextLoadId fuel) := by
  obtain ⟨start,hlength,hdirectory⟩ := h.served
  refine ⟨by rw [h.workers],?_,lt_add_one_of_toNat hmay.2,?_,world.directory,?_,rfl⟩
  · intro worker hworker
    refine ⟨hmay.1 worker (h.workers ▸ hworker),?_⟩
    show worker.id < world.nextLoadId
    rcases List.mem_append.mp hworker with hworker | hworker
    · exact UInt64.lt_trans (h.earlier worker hworker).2 h.current
    · rw [List.mem_singleton.mp hworker]
      exact h.current
  · intro shardId generation hgeneration
    exact UInt64.le_of_lt (UInt64.lt_of_le_of_lt (h.generations shardId generation hgeneration) h.current)
  · rw [hdirectory,publishAll_length,hlength]

theorem LastLoad.loadRefused (h : LastLoad world earlier last)
    (hmay : world.nextLoadId.toNat+1 < 2^64) :
    LastLoad { world with nextLoadId := world.nextLoadId+1 } earlier last :=
  ⟨h.workers,h.earlier,UInt64.lt_trans h.current (lt_add_one_of_toNat hmay),h.generations,h.served⟩

theorem DirectoryStep.generationOf {worker : LoadWorker options} {op : LoadOp}
    {next : LoadRes op → Loading LoadOutcome} (hprogram : worker.program = .perform op next)
    {answer : LoadRes op} {directory directory' : ShardDirectory PublishedShard}
    (h : DirectoryStep directory ⟨op,answer⟩ directory') (shardId : UInt32) :
    generationOf directory' shardId = generationOf directory shardId ∨
      generationOf directory' shardId = some worker.id := by
  cases op with
  | publishShard published shard =>
    obtain ⟨-,rfl⟩ := h
    rcases generationOf_publish directory published shardId shard with hsame | ⟨-,hnew⟩
    · exact Or.inl hsame
    · rw [LoadWorker.publish_generation hprogram |>.1] at hnew
      exact Or.inr hnew
  | _ =>
    obtain rfl := h
    exact Or.inl rfl

theorem DirectoryStep.publishAll {worker : LoadWorker options} {op : LoadOp}
    {next : LoadRes op → Loading LoadOutcome} (hprogram : worker.program = .perform op next)
    {answer : LoadRes op} {directory directory' start : ShardDirectory PublishedShard}
    (h : DirectoryStep directory ⟨op,answer⟩ directory')
    (hdirectory : directory = publishAll start (publishedShards worker.events)) :
    directory' = publishAll start (publishedShards (worker.events++[⟨op,answer⟩])) := by
  have hsame := @publishedShards_silent worker.events ⟨op,answer⟩
  cases op with
  | publishShard published shard =>
    obtain ⟨hanswer,rfl⟩ := h
    exact publishAll_publish hdirectory (LoadWorker.publish_generation hprogram).2 hanswer
  | _ =>
    obtain rfl := h
    rw [hsame rfl]
    exact hdirectory

theorem LastLoad.work (h : LastLoad world earlier last) {op : LoadOp}
    {next : LoadRes op → Loading LoadOutcome} (hprogram : last.program = .perform op next)
    {answer : LoadRes op} {directory : ShardDirectory PublishedShard}
    (hdirectory : DirectoryStep world.directory ⟨op,answer⟩ directory) :
    LastLoad { world with
        directory := directory
        workers := world.workers.set earlier.length (last.advance hprogram answer) }
      earlier (last.advance hprogram answer) := by
  obtain ⟨start,hlength,hstart⟩ := h.served
  refine ⟨by simp [h.workers],h.earlier,h.current,?_,start,hlength,
    hdirectory.publishAll hprogram hstart⟩
  intro shardId generation hgeneration
  rcases hdirectory.generationOf hprogram shardId with hsame | hnew
  · exact h.generations shardId generation (hsame ▸ hgeneration)
  · obtain rfl := Option.some.inj (hnew.symm.trans hgeneration)
    exact UInt64.le_refl _

theorem IndexInv.step (h : IndexInv world) {label : IndexLabel} (hstep : LoneStep world label world') :
    IndexInv world' ∧ ∀ shardId generation, generationOf world.directory shardId = some generation →
      ∃ later, generationOf world'.directory shardId = some later ∧ generation ≤ later := by
  obtain ⟨hmay,hstep⟩ := hstep
  have hsame : ∀ shardId generation, generationOf world.directory shardId = some generation →
      ∃ later, generationOf world.directory shardId = some later ∧ generation ≤ later :=
    fun _ generation hgeneration => ⟨generation,hgeneration,UInt64.le_refl _⟩
  cases hstep with
  | loadAsync request fuel =>
    refine ⟨Or.inr ?_,hsame⟩
    rcases h with ⟨hworkers,hdirectory⟩ | ⟨earlier,last,hlast⟩
    · refine ⟨[],_,by rw [hworkers],?_,lt_add_one_of_toNat hmay.2,?_,world.directory,?_,rfl⟩
      · intro worker hworker
        cases hworker
      · intro shardId generation hgeneration
        rw [hdirectory,generationOf_create] at hgeneration
        cases hgeneration
      · rw [hdirectory,ShardDirectory.create,List.length_replicate]
    · exact ⟨_,_,hlast.loadAsync hmay request fuel⟩
  | loadRefused =>
    refine ⟨?_,hsame⟩
    rcases h with hnone | ⟨earlier,last,hlast⟩
    · exact Or.inl hnone
    · exact Or.inr ⟨earlier,last,hlast.loadRefused hmay⟩
  | @work i worker op next answer directory hworker hprogram hdirectory =>
    rcases h with ⟨hworkers,-⟩ | ⟨earlier,last,hlast⟩
    · rw [hworkers] at hworker
      cases hworker
    · obtain ⟨rfl,rfl⟩ := hlast.at_work hworker (LoadWorker.not_finished hprogram)
      refine ⟨Or.inr ⟨earlier,_,hlast.work hprogram hdirectory⟩,?_⟩
      intro shardId generation hgeneration
      rcases hdirectory.generationOf hprogram shardId with heq | hnew
      · exact ⟨generation,heq.trans hgeneration,UInt64.le_refl _⟩
      · exact ⟨worker.id,hnew,hlast.generations shardId generation hgeneration⟩

theorem indexInv_run {labels : List IndexLabel} (h : Steps LoneStep ({} : IndexWorld options) labels world) :
    IndexInv world :=
  Steps.invariant (fun _ => IndexInv) h (Or.inl ⟨rfl,rfl⟩)
    fun _ _ _ _ hinv hstep => (hinv.step hstep).1

/-- While loads do not overlap, the generation of a shard never goes back, and a last load
that succeeded is what all shards serve. -/
theorem generations_never_go_back (options : ForwardIndexOptions) (before after : List IndexLabel)
    (mid world : IndexWorld options) (hbefore : Steps LoneStep ({} : IndexWorld options) before mid)
    (hafter : Steps LoneStep mid after world) :
    (∀ shardId generation, generationOf mid.directory shardId = some generation →
      ∃ later, generationOf world.directory shardId = some later ∧ generation ≤ later) ∧
    ∀ worker ∈ world.workers, (∀ other ∈ world.workers, other.id ≤ worker.id) →
      worker.Succeeded → ∀ shardId : UInt32, shardId.toNat < options.shardCount.toNat →
        generationOf world.directory shardId = some worker.id := by
  refine ⟨?_,?_⟩
  · -- the invariant and the order travel along the second part of the run
    have hboth : IndexInv world ∧ ∀ shardId generation,
        generationOf mid.directory shardId = some generation →
          ∃ later, generationOf world.directory shardId = some later ∧ generation ≤ later := by
      refine Steps.invariant (fun _ world => IndexInv world ∧ ∀ shardId generation,
        generationOf mid.directory shardId = some generation →
          ∃ later, generationOf world.directory shardId = some later ∧ generation ≤ later)
        hafter ⟨indexInv_run hbefore,?_⟩ ?_
      · intro _ generation hgeneration
        exact ⟨generation,hgeneration,UInt64.le_refl _⟩
      · rintro _ _ _ _ ⟨hinv,horder⟩ hstep
        obtain ⟨hinv',hnext⟩ := hinv.step hstep
        refine ⟨hinv',?_⟩
        intro shardId generation hgeneration
        obtain ⟨later,hlater,hle⟩ := horder shardId generation hgeneration
        obtain ⟨latest,hlatest,hle'⟩ := hnext shardId later hlater
        exact ⟨latest,hlatest,UInt64.le_trans hle hle'⟩
    exact hboth.2
  · intro worker hworker hgreatest hsucceeded shardId hid
    rcases indexInv_run (hbefore.append hafter) with ⟨hnone,-⟩ | ⟨earlier,last,hlast⟩
    · rw [hnone] at hworker
      cases hworker
    · have hlastMem : last ∈ world.workers := by
        rw [hlast.workers]
        exact List.mem_append_right _ List.mem_cons_self
      obtain ⟨start,hlength,hdirectory⟩ := hlast.served
      rw [hlast.workers] at hworker
      rcases List.mem_append.mp hworker with hearlier | hsame
      · have hlt := (hlast.earlier worker hearlier).2
        exact absurd (hgreatest last hlastMem) (UInt64.not_le.mpr hlt)
      · obtain rfl := List.mem_singleton.mp hsame
        rw [hdirectory]
        exact hsucceeded.generations hlength hid

end Inv

/-- The directory answers a worker; the files, the runner and the cancellation answer as given. -/
def answerWorker (answer : (op : LoadOp) → LoadRes op) :
    (op : LoadOp) → ShardDirectory PublishedShard → LoadRes op×ShardDirectory PublishedShard
  | .publishShard shardId shard, directory => directory.publish shardId (some shard)
  | op, directory => (answer op,directory)

theorem answerWorker_step (answer : (op : LoadOp) → LoadRes op) (op : LoadOp)
    (directory : ShardDirectory PublishedShard) :
    DirectoryStep directory ⟨op,(answerWorker answer op directory).1⟩
      (answerWorker answer op directory).2 := by
  cases op with
  | publishShard shardId shard => exact ⟨rfl,rfl⟩
  | _ => exact rfl

theorem worker_alone {options : ForwardIndexOptions} (answer : (op : LoadOp) → LoadRes op)
    (p : Loading LoadOutcome) (world : IndexWorld options) {i : ℕ} {worker : LoadWorker options}
    (hworker : world.workers[i]? = some worker) (hp : worker.program = p) :
    ∃ labels world' worker', Steps LoneStep world labels world' ∧
      world'.nextLoadId = world.nextLoadId ∧
      world'.directory = (p.run (answerWorker answer) world.directory).2 ∧
      world'.workers = world.workers.set i worker' ∧ worker'.id = worker.id ∧
      worker'.program = .done (p.run (answerWorker answer) world.directory).1 := by
  induction p generalizing world worker with
  | done outcome =>
    refine ⟨[],world,worker,Steps.nil,rfl,rfl,?_,rfl,hp⟩
    obtain ⟨hlt,rfl⟩ := List.getElem?_eq_some_iff.mp hworker
    exact (List.set_getElem_self hlt).symm
  | perform op next ih =>
    let answered := answerWorker answer op world.directory
    let stepped : IndexWorld options := { world with
      directory := answered.2,workers := world.workers.set i (worker.advance hp answered.1) }
    have hstep : LoneStep world (.work i ⟨op,answered.1⟩) stepped :=
      ⟨trivial,IndexStep.work hworker hp (answerWorker_step answer op world.directory)⟩
    have hlt := (List.getElem?_eq_some_iff.mp hworker).1
    have hadvanced : stepped.workers[i]? = some (worker.advance hp answered.1) :=
      List.getElem?_set_self hlt
    obtain ⟨labels,world',worker',hsteps,hnext,hdirectory,hworkers,hid,hprogram⟩ :=
      ih answered.1 stepped hadvanced rfl
    refine ⟨_,world',worker',Steps.head hstep hsteps,hnext,hdirectory,?_,hid,hprogram⟩
    rw [hworkers,List.set_set]

/-- The load with an id, of the sample file into an index with one shard. -/
def sampleLoad (id : LoadId) : Loading LoadOutcome :=
  runExternalArtifactLoad sampleRequest id snapshotIndex true 1

/-- What the load returns and leaves in the directory when it runs alone. -/
def loadedAlone (id : LoadId) (directory : ShardDirectory PublishedShard) : LoadOutcome×ShardDirectory PublishedShard :=
  (sampleLoad id).run (answerWorker (fileAnswer sampleFile)) directory

def isSuccess : LoadOutcome → Bool
  | some (.ok _,_) => true
  | _ => false

theorem LoadWorker.succeeded_of_isSuccess {options : ForwardIndexOptions}
    {worker : LoadWorker options} {outcome : LoadOutcome}
    (hprogram : worker.program = .done outcome) (h : isSuccess outcome = true) :
    worker.Succeeded := by
  rcases outcome with _ | ⟨_ | _,state⟩
  · cases h
  · cases h
  · exact ⟨state,hprogram⟩

theorem loadedAlone_inTurn : isSuccess (loadedAlone 1 (.create 1)).1 = true ∧
    isSuccess (loadedAlone 2 (loadedAlone 1 (.create 1)).2).1 = true := by
  unfold loadedAlone
  rw [sampleFile_eq]
  decide +kernel

/-- Two loads, the second one called when the first one is through. -/
theorem generations_never_go_back_sample :
    ∃ (before after : List IndexLabel) (mid world : IndexWorld snapshotIndex),
      Steps LoneStep ({} : IndexWorld snapshotIndex) before mid ∧ Steps LoneStep mid after world ∧
      generationOf mid.directory 0 = some 1 ∧ generationOf world.directory 0 = some 2 := by
  let started : IndexWorld snapshotIndex :=
    { nextLoadId := 2,workers := [.start snapshotIndex sampleRequest 1 1] }
  have hstart : LoneStep ({} : IndexWorld snapshotIndex) (.loadAsync sampleRequest 1) started := by
    refine ⟨⟨?_,by decide⟩,IndexStep.loadAsync {} sampleRequest 1⟩
    intro worker hworker
    cases hworker
  have hbegun : Steps LoneStep ({} : IndexWorld snapshotIndex) [.loadAsync sampleRequest 1] started :=
    Steps.head hstart Steps.nil
  obtain ⟨labels,mid,worker,hfirst,hnext,hdirectory,hworkers,hid,hprogram⟩ :=
    worker_alone (fileAnswer sampleFile) (sampleLoad 1) started (i := 0) rfl rfl
  have hnext : mid.nextLoadId = 2 := hnext
  have hworkers : mid.workers = [worker] := hworkers
  have hsucceeded := LoadWorker.succeeded_of_isSuccess hprogram loadedAlone_inTurn.1
  -- The first load has returned, so that the second one may start.
  let again : IndexWorld snapshotIndex := { mid with
    nextLoadId := mid.nextLoadId+1
    workers := mid.workers++[.start snapshotIndex sampleRequest mid.nextLoadId 1] }
  have hagain : LoneStep mid (.loadAsync sampleRequest 1) again := by
    refine ⟨⟨?_,by rw [hnext]; decide⟩,IndexStep.loadAsync mid sampleRequest 1⟩
    intro other hother
    rw [hworkers,List.mem_singleton] at hother
    subst hother
    obtain ⟨state,hdone⟩ := hsucceeded
    exact ⟨_,hdone⟩
  have hagainWorkers : again.workers = [worker,.start snapshotIndex sampleRequest 2 1] := by
    show mid.workers++[_] = _
    rw [hworkers,hnext]
    rfl
  have hwaiting : again.workers[1]? = some (.start snapshotIndex sampleRequest 2 1) := by
    rw [hagainWorkers]
    rfl
  obtain ⟨labels',world,worker',hsecond,-,-,hworkers',hid',hprogram'⟩ :=
    worker_alone (fileAnswer sampleFile) (sampleLoad 2) again hwaiting rfl
  rw [hagainWorkers] at hworkers'
  have hworkers' : world.workers = [worker,worker'] := hworkers'
  have hid' : worker'.id = 2 := hid'
  have hsucceeded' : worker'.Succeeded := by
    rw [show again.directory = (loadedAlone 1 (.create 1)).2 from hdirectory] at hprogram'
    exact LoadWorker.succeeded_of_isSuccess hprogram' loadedAlone_inTurn.2
  have hall := Steps.head hagain hsecond
  refine ⟨_,_,mid,world,hbegun.append hfirst,hall,?_,?_⟩
  · rw [(generations_never_go_back snapshotIndex _ labels started mid hbegun hfirst).2 worker ?_ ?_
      hsucceeded 0 (by decide),hid]
    · rfl
    · rw [hworkers]
      exact List.mem_cons_self
    · intro other hother
      rw [hworkers] at hother
      rw [List.mem_singleton.mp hother]
      exact UInt64.le_refl _
  · rw [(generations_never_go_back snapshotIndex _ _ mid world (hbegun.append hfirst) hall).2 worker'
      ?_ ?_ hsucceeded' 0 (by decide),hid']
    · rw [hworkers']
      exact List.mem_cons_of_mem _ List.mem_cons_self
    · intro other hother
      rw [hworkers',List.mem_cons,List.mem_singleton] at hother
      rcases hother with rfl | rfl
      · rw [hid,hid']
        decide
      · exact UInt64.le_refl _

theorem loadedAlone_twice :
    isSuccess (loadedAlone 2 (.create 1)).1 = true ∧
      generationOf (loadedAlone 2 (.create 1)).2 0 = some 2 ∧
      isSuccess (loadedAlone 1 (loadedAlone 2 (.create 1)).2).1 = true ∧
      generationOf (loadedAlone 1 (loadedAlone 2 (.create 1)).2).2 0 = some 1 := by
  unfold loadedAlone
  rw [sampleFile_eq]
  decide +kernel

/-- The first of two loads publishes when the second one is through: the shard goes back from
generation 2 to 1, and keeps it. -/
theorem overlapping_loads_go_back :
    ∃ (before after : List IndexLabel) (mid world : IndexWorld snapshotIndex),
      Steps IndexStep ({} : IndexWorld snapshotIndex) before mid ∧ Steps IndexStep mid after world ∧
      generationOf mid.directory 0 = some 2 ∧ generationOf world.directory 0 = some 1 ∧
      (∀ worker ∈ world.workers, worker.Finished) ∧
      ∃ worker ∈ world.workers, worker.id = 2 ∧ worker.Succeeded := by
  let started : IndexWorld snapshotIndex :=
    { nextLoadId := 3
      workers := [.start snapshotIndex sampleRequest 1 1,.start snapshotIndex sampleRequest 2 1] }
  have hstart : Steps IndexStep ({} : IndexWorld snapshotIndex)
      [.loadAsync sampleRequest 1,.loadAsync sampleRequest 1] started :=
    Steps.snoc (Steps.snoc Steps.nil (IndexStep.loadAsync {} sampleRequest 1))
      (IndexStep.loadAsync _ sampleRequest 1)
  obtain ⟨second,mid,worker,hsecond,-,hdirectory,hworkers,hid,hprogram⟩ :=
    worker_alone (fileAnswer sampleFile) (sampleLoad 2) started (i := 1) rfl rfl
  have hworkers : mid.workers = [.start snapshotIndex sampleRequest 1 1,worker] := hworkers
  have hwaiting : mid.workers[0]? = some (.start snapshotIndex sampleRequest 1 1) := by
    rw [hworkers]
    rfl
  obtain ⟨first,world,worker',hfirst,-,hdirectory',hworkers',-,hprogram'⟩ :=
    worker_alone (fileAnswer sampleFile) (sampleLoad 1) mid hwaiting rfl
  have hdirectory : mid.directory = (loadedAlone 2 (.create 1)).2 := hdirectory
  have hfinal : world.directory = (loadedAlone 1 mid.directory).2 := hdirectory'
  rw [hworkers] at hworkers'
  have hworkers' : world.workers = [worker',worker] := hworkers'
  obtain ⟨hsuccess,hgeneration,hsuccess',hgeneration'⟩ := loadedAlone_twice
  have hsucceeded := LoadWorker.succeeded_of_isSuccess hprogram hsuccess
  have hsucceeded' : worker'.Succeeded := by
    rw [hdirectory] at hprogram'
    exact LoadWorker.succeeded_of_isSuccess hprogram' hsuccess'
  have hlone : ∀ (s : IndexWorld snapshotIndex) label s', LoneStep s label s' → IndexStep s label s' :=
    fun _ _ _ h => h.2
  refine ⟨_,first,mid,world,hstart.append (hsecond.mono hlone),hfirst.mono hlone,?_,?_,?_,worker,?_,
    hid,hsucceeded⟩
  · rw [hdirectory]
    exact hgeneration
  · rw [hfinal,hdirectory]
    exact hgeneration'
  · intro other hother
    rw [hworkers',List.mem_cons,List.mem_singleton] at hother
    rcases hother with rfl | rfl
    · obtain ⟨state,hdone⟩ := hsucceeded'
      exact ⟨_,hdone⟩
    · obtain ⟨state,hdone⟩ := hsucceeded
      exact ⟨_,hdone⟩
  · rw [hworkers']
    exact List.mem_cons_of_mem _ List.mem_cons_self

end Rebuild
end KvIndex
