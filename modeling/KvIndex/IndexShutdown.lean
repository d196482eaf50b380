import KvIndex.CancelLatency
import KvIndex.IndexRecords

/-! The destructor of an index (`api/forward_index.cc`). It sets every flag that is registered and
waits for the threads; each of them has only a few operations left, so that the wait ends. -/
namespace KvIndex
namespace Rebuild

open Base Ingest Artifact LoadView ForwardIndex Prog

def IndexPhase.closing : IndexPhase → Bool
  | .serving => false
  | .cancelling _ => false
  | _ => true

/-- The threads whose flags the destructor has still to set. -/
def IndexPhase.waiting : IndexPhase → List ℕ
  | .stopping threads => threads
  | _ => []

/-- The program may go on for a while only, once its flag is set. -/
def Stoppable (options : ForwardIndexOptions) (p : Loading LoadOutcome) : Prop :=
  Prompt ToldToStop (stopLatency options.mode) (fun _ => 0) (stopLatency options.mode) p

/-- Every thread can be stopped, and the destructor reaches all that run. -/
structure Closing (options : ForwardIndexOptions) (index : ForwardIndexState) : Prop where
  stoppable : ∀ thread ∈ index.loadWorkers, ∀ p, thread.program = some p → Stoppable options p
  flagged : index.phase.closing = true → ∀ i thread, index.loadWorkers[i]? = some thread →
    thread.program.isSome = true → thread.flag = true ∨ i ∈ index.phase.waiting
  ended : index.phase = .destroyed → ∀ thread ∈ index.loadWorkers, thread.program = none

section Closing

variable {options : ForwardIndexOptions} {index index' : ForwardIndexState}

theorem Closing.open_frame (h : Closing options index) (hphase : index'.phase.closing = false)
    (hworkers : index'.loadWorkers = index.loadWorkers) : Closing options index' := by
  refine ⟨?_,?_,?_⟩
  · rw [hworkers]
    exact h.stoppable
  · intro hclosing
    rw [hphase] at hclosing
    cases hclosing
  · intro hdestroyed
    rw [hdestroyed] at hphase
    cases hphase

theorem modify_getElem {α : Type} {l : List α} {f : α → α} {i j : ℕ} {a : α}
    (h : (l.modify i f)[j]? = some a) : ∃ old, l[j]? = some old ∧ a = if i = j then f old else old := by
  rw [List.getElem?_modify,Option.map_eq_map,Option.map_eq_some_iff] at h
  obtain ⟨old,hold,heq⟩ := h
  exact ⟨old,hold,heq.symm⟩

theorem stoppable_setFlag (h : Closing options index) (i : ℕ) :
    ∀ thread ∈ (index.setFlag i).loadWorkers, ∀ p, thread.program = some p →
      Stoppable options p := by
  intro thread hthread p hp
  obtain ⟨j,hj⟩ := List.mem_iff_getElem?.mp hthread
  obtain ⟨old,hold,rfl⟩ := modify_getElem hj
  refine h.stoppable old (List.mem_of_getElem? hold) p ?_
  rw [← hp]
  split <;> rfl

theorem Closing.work (h : Closing options index) {i : ℕ} {thread : LoadThread} {op : LoadOp}
    {next : LoadRes op → Loading LoadOutcome} (answer : LoadRes op)
    (hthread : index.loadWorkers[i]? = some thread)
    (hprogram : thread.program = some (.perform op next)) (hphase : index'.phase = index.phase)
    (hworkers : index'.loadWorkers =
      index.loadWorkers.set i { thread with program := some (next answer) }) :
    Closing options index' := by
  have hmem := List.mem_of_getElem? hthread
  refine ⟨?_,?_,?_⟩
  · intro other hother p hp
    rw [hworkers] at hother
    rcases List.mem_or_eq_of_mem_set hother with hother | rfl
    · exact h.stoppable other hother p hp
    · obtain rfl := Option.some.inj hp
      exact (h.stoppable thread hmem _ hprogram).leaves (Leaves.perform (Leaves.nil _))
  · intro hclosing j other hother hrunning
    rw [hphase] at hclosing ⊢
    rw [hworkers] at hother
    by_cases hij : i = j
    · subst hij
      rw [List.getElem?_set_self (List.getElem?_eq_some_iff.mp hthread).1] at hother
      obtain rfl := Option.some.inj hother
      exact h.flagged hclosing i thread hthread (by rw [hprogram]; rfl)
    · rw [List.getElem?_set_ne hij] at hother
      exact h.flagged hclosing j other hother hrunning
  · intro hdestroyed
    have hnone := h.ended (hphase ▸ hdestroyed) thread hmem
    rw [hprogram] at hnone
    cases hnone

theorem Closing.finish (h : Closing options index) {i : ℕ} (id : LoadId) :
    Closing options (index.finishThread i id) := by
  have hold : ∀ (j : ℕ) (thread : LoadThread), (index.finishThread i id).loadWorkers[j]? = some thread →
      thread.program.isSome = true → index.loadWorkers[j]? = some thread := by
    intro j thread hthread hrunning
    obtain ⟨old,hold,rfl⟩ := modify_getElem hthread
    by_cases hij : i = j
    · rw [if_pos hij] at hrunning
      cases hrunning
    · rw [if_neg hij]
      exact hold
  refine ⟨?_,?_,?_⟩
  · intro thread hthread p hp
    obtain ⟨j,hj⟩ := List.mem_iff_getElem?.mp hthread
    exact h.stoppable thread (List.mem_of_getElem? (hold j thread hj (by rw [hp]; rfl))) p hp
  · intro hclosing j thread hthread hrunning
    exact h.flagged hclosing j thread (hold j thread hthread hrunning) hrunning
  · intro hdestroyed thread hthread
    obtain ⟨j,hj⟩ := List.mem_iff_getElem?.mp hthread
    by_contra hrunning
    have hsome := Option.isSome_iff_ne_none.mpr hrunning
    have hnone := h.ended hdestroyed thread (List.mem_of_getElem? (hold j thread hj hsome))
    exact hrunning hnone

theorem Closing.step (h : Closing options index) (hkept : IndexKept options index)
    {label : ForwardIndexLabel} (hstep : FreshStep options index label index') :
    Closing options index' := by
  obtain ⟨-,hstep⟩ := hstep
  cases hstep with
  | loadAsync files request fuel hphase =>
    rcases loadAsync_cases index options files request fuel with ⟨status,-,heq⟩ | ⟨-,heq⟩
    · rw [heq]
      exact h.open_frame (by rw [hphase]; rfl) rfl
    · rw [heq]
      refine ⟨?_,?_,?_⟩
      · intro thread hthread p hp
        rcases List.mem_append.mp hthread with hthread | hthread
        · exact h.stoppable thread hthread p hp
        · obtain rfl := List.mem_singleton.mp hthread
          obtain rfl := Option.some.inj hp
          exact (runExternalArtifactLoad_stops true).leaves (Leaves.nil _)
      · intro hclosing
        rw [hphase] at hclosing
        cases hclosing
      · intro hdestroyed
        rw [hphase] at hdestroyed
        cases hdestroyed
  | @work index' i thread op next answer hthread hprogram hstep =>
    have hkeeps := hstep.keeps
    refine h.work answer hthread hprogram hkeeps.phase ?_
    show index'.loadWorkers.set i _ = _
    rw [hkeeps.loadWorkers]
  | finish hthread hprogram hlock => exact h.finish _
  | cancelRefused hphase hmark => exact h
  | cancelMarks hphase hmark =>
    obtain ⟨record,-,-,rfl⟩ := markCancelled_some hmark
    exact h.open_frame rfl rfl
  | cancelReturns hphase =>
    rename_i id
    have hserving := (finishCancel_frame index id).2.2.2.2.2
    refine ⟨?_,?_,?_⟩
    · rw [ForwardIndexState.finishCancel]
      cases index.loadCancellations id with
      | none => exact h.stoppable
      | some i => exact stoppable_setFlag h i
    · intro hclosing
      rw [hserving] at hclosing
      cases hclosing
    · intro hdestroyed
      rw [hserving] at hdestroyed
      cases hdestroyed
  | getLoadState id hphase => exact h
  | destroy threads hphase hthreads =>
    refine ⟨h.stoppable,?_,fun hdestroyed => by cases hdestroyed⟩
    intro _ i thread hthread hrunning
    have hentry := roster_getElem hthread
    rw [hrunning] at hentry
    exact Or.inr ((hthreads i).mpr ⟨thread.id,(hkept.registered thread.id i).mpr hentry⟩)
  | @stopFlag i threads hphase =>
    refine ⟨stoppable_setFlag h i,?_,fun hdestroyed => by cases hdestroyed⟩
    intro _ j thread hthread hrunning
    obtain ⟨old,hold,rfl⟩ := modify_getElem hthread
    by_cases hij : i = j
    · rw [if_pos hij]
      exact Or.inl rfl
    · rw [if_neg hij] at hrunning ⊢
      refine (h.flagged (by rw [hphase]; rfl) j old hold hrunning).imp_right ?_
      intro hwaiting
      rw [hphase] at hwaiting
      exact (List.mem_cons.mp hwaiting).resolve_left (Ne.symm hij)
  | unlock hphase =>
    refine ⟨h.stoppable,?_,fun hdestroyed => by cases hdestroyed⟩
    intro _ i thread hthread hrunning
    have hflagged := h.flagged (by rw [hphase]; rfl) i thread hthread hrunning
    rw [hphase] at hflagged
    exact hflagged
  | destroyed hphase hended =>
    refine ⟨h.stoppable,?_,fun _ => hended⟩
    intro _ i thread hthread hrunning
    rw [hended thread (List.mem_of_getElem? hthread)] at hrunning
    cases hrunning

theorem IndexHistory.closing {labels : List ForwardIndexLabel} (h : IndexHistory options labels index) :
    Closing options index := by
  obtain ⟨start,hstart,hsteps⟩ := h
  have hkept : IndexKept options start := IndexHistory.kept ⟨start,hstart,Steps.nil⟩
  have hclosing : Closing options start := by
    rw [construct_eq hstart]
    exact ⟨nofun,nofun,nofun⟩
  have hboth := Steps.invariant (fun _ index => IndexKept options index ∧ Closing options index)
    hsteps ⟨hkept,hclosing⟩ fun _ _ _ _ hinv hstep =>
      ⟨hinv.1.step hstep,hinv.2.step hinv.1 hstep⟩
  exact hboth.2

/-- The operations that every thread has left, its last step included. -/
def Budgeted (options : ForwardIndexOptions) (index : ForwardIndexState) (budgets : List ℕ) : Prop :=
  ∀ (i : ℕ) (thread : LoadThread) (p : Loading LoadOutcome), index.loadWorkers[i]? = some thread →
    thread.program = some p → thread.flag = true ∧ ∃ n, budgets[i]? = some (n+1) ∧
      Prompt ToldToStop (stopLatency options.mode) (fun _ => 0) n p

def IndexPhase.returns : IndexPhase → ℕ
  | .joining => 1
  | _ => 0

theorem sum_set_pred {l : List ℕ} {i n : ℕ} (h : l[i]? = some (n+1)) : (l.set i n).sum+1 = l.sum := by
  induction l generalizing i with
  | nil => cases h
  | cons a l ih =>
    cases i with
    | zero =>
      obtain rfl := Option.some.inj h
      rw [List.set_cons_zero,List.sum_cons,List.sum_cons]
      omega
    | succ i =>
      rw [List.set_cons_succ,List.sum_cons,List.sum_cons,← ih h]
      omega

theorem Budgeted.work {budgets : List ℕ} (h : Budgeted options index budgets) {i : ℕ}
    {thread : LoadThread} {op : LoadOp} {next : LoadRes op → Loading LoadOutcome}
    {answer : LoadRes op} (hthread : index.loadWorkers[i]? = some thread)
    (hprogram : thread.program = some (.perform op next))
    (hstep : ThreadStep index thread ⟨op,answer⟩ index') :
    ∃ budgets', Budgeted options { index' with
        loadWorkers := index'.loadWorkers.set i { thread with program := some (next answer) } }
      budgets' ∧ budgets'.sum+1 = budgets.sum := by
  obtain ⟨hflag,n,hbudget,hprompt⟩ := h i thread _ hthread hprogram
  cases n with
  | zero => exact hprompt.elim
  | succ n =>
    have htold : ToldToStop op answer := by
      cases op with
      | isCancelled => exact hstep.1.trans hflag
      | _ => trivial
    refine ⟨budgets.set i (n+1),?_,sum_set_pred hbudget⟩
    intro j other p hother hp
    rw [hstep.keeps.loadWorkers] at hother
    by_cases hij : i = j
    · subst hij
      rw [List.getElem?_set_self (List.getElem?_eq_some_iff.mp hthread).1] at hother
      obtain rfl := Option.some.inj hother
      obtain rfl := Option.some.inj hp
      refine ⟨hflag,n,?_,(hprompt.2 answer).1 htold⟩
      exact List.getElem?_set_self (List.getElem?_eq_some_iff.mp hbudget).1
    · rw [List.getElem?_set_ne hij] at hother
      rw [List.getElem?_set_ne hij]
      exact h j other p hother hp

theorem Budgeted.finish {budgets : List ℕ} (h : Budgeted options index budgets) {i : ℕ}
    {thread : LoadThread} {outcome : LoadOutcome} (hthread : index.loadWorkers[i]? = some thread)
    (hprogram : thread.program = some (.done outcome)) (id : LoadId) :
    ∃ budgets', Budgeted options (index.finishThread i id) budgets' ∧
      budgets'.sum+1 ≤ budgets.sum := by
  obtain ⟨-,n,hbudget,-⟩ := h i thread _ hthread hprogram
  refine ⟨budgets.set i n,?_,(sum_set_pred hbudget).le⟩
  intro j other p hother hp
  obtain ⟨old,hold,rfl⟩ := modify_getElem hother
  by_cases hij : i = j
  · rw [if_pos hij] at hp
    cases hp
  · rw [if_neg hij] at hp ⊢
    rw [List.getElem?_set_ne hij]
    exact h j old p hold hp

/-- While the destructor waits, every step is one less that is left. -/
theorem Budgeted.step {budgets : List ℕ} (h : Budgeted options index budgets)
    (hphase : index.phase = .joining ∨ index.phase = .destroyed) {label : ForwardIndexLabel}
    (hstep : FreshStep options index label index') :
    (index'.phase = .joining ∨ index'.phase = .destroyed) ∧ ∃ budgets',
      Budgeted options index' budgets' ∧
        budgets'.sum+index'.phase.returns+1 ≤ budgets.sum+index.phase.returns := by
  obtain ⟨-,hstep⟩ := hstep
  have hnot : ∀ {phase : IndexPhase} {P : Prop}, index.phase = phase → phase ≠ .joining →
      phase ≠ .destroyed → P := by
    rintro phase P rfl hjoining hdestroyed
    exact (hphase.elim hjoining hdestroyed).elim
  cases hstep with
  | @work index' i thread op next answer hthread hprogram hstep =>
    obtain ⟨budgets',hbudgets,hsum⟩ := h.work hthread hprogram hstep
    have hsame := hstep.keeps.phase
    refine ⟨?_,budgets',hbudgets,?_⟩
    · show index'.phase = _ ∨ index'.phase = _
      rw [hsame]
      exact hphase
    · show budgets'.sum+index'.phase.returns+1 ≤ _
      rw [hsame]
      omega
  | finish hthread hprogram hlock =>
    obtain ⟨budgets',hbudgets,hsum⟩ := h.finish hthread hprogram _
    refine ⟨hphase,budgets',hbudgets,?_⟩
    show budgets'.sum+index.phase.returns+1 ≤ _
    omega
  | destroyed hjoining hended =>
    refine ⟨Or.inr rfl,budgets,h,?_⟩
    rw [hjoining]
    exact le_rfl
  | loadAsync files request fuel hserving => exact hnot hserving nofun nofun
  | cancelRefused hserving hmark => exact hnot hserving nofun nofun
  | cancelMarks hserving hmark => exact hnot hserving nofun nofun
  | cancelReturns hcancelling => exact hnot hcancelling nofun nofun
  | getLoadState id hserving => exact hnot hserving nofun nofun
  | destroy threads hserving hthreads => exact hnot hserving nofun nofun
  | stopFlag hstopping => exact hnot hstopping nofun nofun
  | unlock hstopping => exact hnot hstopping nofun nofun

theorem Budgeted.steps {budgets : List ℕ} (h : Budgeted options index budgets)
    (hphase : index.phase = .joining ∨ index.phase = .destroyed) {labels : List ForwardIndexLabel}
    (hsteps : Steps (FreshStep options) index labels index') :
    labels.length ≤ budgets.sum+index.phase.returns := by
  have hinv : (index'.phase = .joining ∨ index'.phase = .destroyed) ∧ ∃ budgets',
      Budgeted options index' budgets' ∧
        labels.length+(budgets'.sum+index'.phase.returns) ≤ budgets.sum+index.phase.returns := by
    refine Steps.invariant (fun labels index' =>
      (index'.phase = .joining ∨ index'.phase = .destroyed) ∧ ∃ budgets',
        Budgeted options index' budgets' ∧
          labels.length+(budgets'.sum+index'.phase.returns) ≤ budgets.sum+index.phase.returns)
      hsteps ⟨hphase,budgets,h,by simp⟩ ?_
    rintro labels s label s' ⟨hs,budgets',hbudgets,hsum⟩ hstep
    obtain ⟨hs',budgets'',hbudgets',hsum'⟩ := hbudgets.step hs hstep
    refine ⟨hs',budgets'',hbudgets',?_⟩
    rw [List.length_append,List.length_singleton]
    omega
  obtain ⟨-,budgets',-,hsum⟩ := hinv
  omega

theorem sum_map_countP {α : Type} (p : α → Bool) (c : ℕ) (l : List α) :
    (l.map fun a => if p a then c else 0).sum = l.countP p*c := by
  induction l with
  | nil => exact (Nat.zero_mul c).symm
  | cons a l ih =>
    rw [List.map_cons,List.sum_cons,ih,List.countP_cons]
    split
    · rw [Nat.add_mul,Nat.one_mul,Nat.add_comm]
    · rw [Nat.zero_add,Nat.add_zero]

/-- When the destructor waits, every thread that runs has its flag set and a full budget. -/
theorem Closing.budgeted (h : Closing options index) (hjoining : index.phase = .joining) :
    Budgeted options index (index.loadWorkers.map fun thread =>
      if thread.program.isSome then stopLatency options.mode+1 else 0) := by
  intro i thread p hthread hp
  have hrunning : thread.program.isSome = true := by
    rw [hp]
    rfl
  have hflag := h.flagged (by rw [hjoining]; rfl) i thread hthread hrunning
  rw [hjoining] at hflag
  refine ⟨hflag.resolve_right List.not_mem_nil,stopLatency options.mode,?_,?_⟩
  · rw [List.getElem?_map,hthread,Option.map_some,if_pos hrunning]
  · exact h.stoppable thread (List.mem_of_getElem? hthread) p hp

/-- Where nobody holds the mutex, every operation of a thread gets an answer. -/
theorem threadStep_exists (hlock : index.phase.unlocked = true) (thread : LoadThread) (op : LoadOp) :
    ∃ answer index', ThreadStep index thread ⟨op,answer⟩ index' := by
  cases op with
  | storeState state => exact ⟨(),_,hlock,rfl⟩
  | isCancelled => exact ⟨thread.flag,_,rfl,rfl⟩
  | publishShard shardId shard => exact ⟨_,_,rfl,rfl⟩
  | mapShardFile uri shardId => exact ⟨.error (.unavailable ""),index,rfl⟩
  | prewarm shardId => exact ⟨.ok (),index,rfl⟩
  | createCatchUpRunner => exact ⟨.ok (),index,rfl⟩
  | start request => exact ⟨.ok (),index,rfl⟩
  | captureSafeProgress => exact ⟨.ok {},index,rfl⟩
  | pollApplyCommitOnce => exact ⟨.ok (),index,rfl⟩

/-- The destructor is never stuck: a thread goes on or ends, or all have ended. -/
theorem joining_progress (hjoining : index.phase = .joining)
    (hfuel : ∀ thread ∈ index.loadWorkers, thread.program ≠ some (.done none)) :
    ∃ label index', FreshStep options index label index' := by
  have hlock : index.phase.unlocked = true := by
    rw [hjoining]
    rfl
  by_cases hended : ∀ thread ∈ index.loadWorkers, thread.program = none
  · exact ⟨.destroyed,_,trivial,ForwardIndexStep.destroyed hjoining hended⟩
  · obtain ⟨thread,hrest⟩ := not_forall.mp hended
    obtain ⟨hthread,hrunning⟩ := Classical.not_imp.mp hrest
    obtain ⟨i,hi⟩ := List.mem_iff_getElem?.mp hthread
    obtain ⟨p,hp⟩ := Option.ne_none_iff_exists'.mp hrunning
    cases p with
    | perform op next =>
      obtain ⟨answer,index',hstep⟩ := threadStep_exists hlock thread op
      exact ⟨.work i ⟨op,answer⟩,_,trivial,ForwardIndexStep.work hi hp hstep⟩
    | done outcome =>
      cases outcome with
      | none => exact absurd hp (hfuel thread hthread)
      | some result => exact ⟨.finish i,_,trivial,ForwardIndexStep.finish hi hp hlock⟩

theorem RecordOf.terminal_of_ended {history : List ForwardIndexLabel} {id : LoadId}
    {record : LoadState} (h : RecordOf options history index id record)
    (hended : ∀ thread ∈ index.loadWorkers, thread.program = none) : record.terminal = true := by
  cases h with
  | refused h =>
    obtain ⟨request,status,rfl⟩ := h.refused
    rfl
  | @accepted request fuel i labels world h =>
    have hown := stoppable_own h.steps
    have hnone : world.worker = none := hended _ (List.mem_of_getElem? h.apart.thread)
    obtain ⟨status,state,hend⟩ := hown.inv.ended hnone
    refine hown.inv.record.finished (List.any_eq_true.mpr ⟨state,?_,hend.terminal⟩)
    exact List.mem_of_getLast? hend.stored

/-- When all flags are set, the destructor has to wait for a bounded number of steps only, it can
always go on, and when it returns no flag is left registered and every record is terminal. An
outcome `none` of a thread is the bound on its rounds run out. -/
theorem destructor_returns_soon (options : ForwardIndexOptions)
    (before after : List ForwardIndexLabel) (mid index : ForwardIndexState)
    (h : IndexHistory options before mid) (hjoining : mid.phase = .joining)
    (hafter : Steps (FreshStep options) mid after index) :
    after.length ≤ mid.loadWorkers.countP (fun thread => thread.program.isSome)*
        (stopLatency options.mode+1)+1 ∧
    (index.phase = .joining →
      (∀ thread ∈ index.loadWorkers, thread.program ≠ some (.done none)) →
        ∃ label index', FreshStep options index label index') ∧
    (index.phase = .destroyed → (∀ id, index.loadCancellations id = none) ∧
      ∀ id record, index.loads id = some record → record.terminal = true) := by
  have hhistory : IndexHistory options (before++after) index := by
    obtain ⟨start,hstart,hsteps⟩ := h
    exact ⟨start,hstart,hsteps.append hafter⟩
  refine ⟨?_,joining_progress,?_⟩
  · have hlength := (h.closing.budgeted hjoining).steps (Or.inl hjoining) hafter
    rw [sum_map_countP,hjoining] at hlength
    exact hlength
  · intro hdestroyed
    have hended := hhistory.closing.ended hdestroyed
    refine ⟨fun id => ?_,fun id record hrecord => (hhistory.recordOf hrecord).terminal_of_ended hended⟩
    cases hregistered : index.loadCancellations id with
    | none => rfl
    | some i =>
      have hentry := (hhistory.kept.registered id i).mp hregistered
      rw [roster,List.getElem?_map,Option.map_eq_some_iff] at hentry
      obtain ⟨thread,hthread,heq⟩ := hentry
      rw [hended thread (List.mem_of_getElem? hthread)] at heq
      cases heq

end Closing
theorem thread_runs (options : ForwardIndexOptions) (p : Loading LoadOutcome)
    (index : ForwardIndexState) {i : ℕ} {thread : LoadThread} (hlock : index.phase.unlocked = true)
    (hthread : index.loadWorkers[i]? = some thread) (hprogram : thread.program = some p) :
    ∃ labels index' outcome, Steps (FreshStep options) index labels index' ∧
      index'.loadWorkers[i]? = some { thread with program := some (.done outcome) } := by
  induction p generalizing index thread with
  | done outcome =>
    refine ⟨[],index,outcome,Steps.nil,?_⟩
    rw [hthread,← hprogram]
  | perform op next ih =>
    obtain ⟨answer,index',hstep⟩ := threadStep_exists hlock thread op
    have hkeeps := hstep.keeps
    have hfirst : FreshStep options index (.work i ⟨op,answer⟩) { index' with
        loadWorkers := index'.loadWorkers.set i { thread with program := some (next answer) } } :=
      ⟨trivial,ForwardIndexStep.work hthread hprogram hstep⟩
    have hset : (index'.loadWorkers.set i { thread with program := some (next answer) })[i]? =
        some { thread with program := some (next answer) } := by
      rw [hkeeps.loadWorkers]
      exact List.getElem?_set_self (List.getElem?_eq_some_iff.mp hthread).1
    obtain ⟨labels,last,outcome,hrest,hdone⟩ := ih answer
      { index' with
        loadWorkers := index'.loadWorkers.set i { thread with program := some (next answer) } }
      (by rw [hkeeps.phase]; exact hlock) hset rfl
    exact ⟨_,last,outcome,Steps.head hfirst hrest,hdone⟩

/-- The destructor of the index in which the sample load has just started. -/
theorem sampleStarted_joining :
    ∃ mid, IndexHistory sampleIndex
        [.loadAsync sampleFiles sampleRequest 1,.destroy,.stopFlag 0,.unlock] mid ∧
      mid.phase = .joining ∧ mid.loadWorkers = (sampleStarted.setFlag 0).loadWorkers := by
  have hstarted : IndexHistory sampleIndex [.loadAsync sampleFiles sampleRequest 1] sampleStarted :=
    ⟨sampleConstructed,rfl,Steps.head sampleStarted_step Steps.nil⟩
  have hdestroy : FreshStep sampleIndex sampleStarted .destroy
      { sampleStarted with phase := .stopping [0] } := by
    refine ⟨trivial,ForwardIndexStep.destroy [0] rfl ?_⟩
    intro thread
    simp only [hstarted.kept.registered,List.mem_singleton]
    have hroster : roster sampleStarted = [(1,true)] := rfl
    rw [hroster]
    cases thread with
    | zero => simp
    | succ thread => simp
  have hstop : FreshStep sampleIndex { sampleStarted with phase := .stopping [0] } (.stopFlag 0)
      { sampleStarted.setFlag 0 with phase := .stopping [] } := ⟨trivial,.stopFlag rfl⟩
  have hunlock : FreshStep sampleIndex { sampleStarted.setFlag 0 with phase := .stopping [] } .unlock
      { sampleStarted.setFlag 0 with phase := .joining } := ⟨trivial,.unlock rfl⟩
  exact ⟨_,⟨sampleConstructed,rfl,Steps.head sampleStarted_step (Steps.head hdestroy
    (Steps.head hstop (Steps.head hunlock Steps.nil)))⟩,rfl,rfl⟩

/-- The thread of the sample load runs to its end while the destructor waits for it. -/
theorem destructor_returns_soon_sample :
    ∃ mid after index outcome, Steps (FreshStep sampleIndex) mid after index ∧
      mid.phase = .joining ∧ index.loadWorkers[0]? = some ⟨1,some (.done outcome),true⟩ ∧
      after.length ≤ 9 := by
  obtain ⟨mid,hhistory,hjoining,hworkers⟩ := sampleStarted_joining
  have hthread : mid.loadWorkers = [⟨1,
      some (runExternalArtifactLoad sampleRequest 1 sampleIndex true 1),true⟩] := hworkers
  have hlock : mid.phase.unlocked = true := by
    rw [hjoining]
    rfl
  have hfirst : mid.loadWorkers[0]? = some ⟨1,
      some (runExternalArtifactLoad sampleRequest 1 sampleIndex true 1),true⟩ := by
    rw [hthread]
    rfl
  obtain ⟨after,index,outcome,hafter,hdone⟩ := thread_runs sampleIndex _ mid hlock hfirst rfl
  obtain ⟨hlength,-,-⟩ := destructor_returns_soon sampleIndex _ after mid index hhistory hjoining
    hafter
  rw [hthread] at hlength
  exact ⟨mid,after,index,outcome,hafter,hjoining,hdone,hlength⟩

end Rebuild
end KvIndex
