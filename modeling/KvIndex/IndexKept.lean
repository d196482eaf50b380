import KvIndex.ConcurrentLoads
import KvIndex.IndexLifetime

/-! What every step of an index keeps (`api/forward_index.cc`): ids are given out once and in
order, every id has a record, and exactly the flags of the running threads are registered. -/
namespace KvIndex
namespace Rebuild

open Base Ingest Artifact LoadView ForwardIndex

def roster (index : ForwardIndexState) : List (LoadId×Bool) :=
  index.loadWorkers.map fun thread => (thread.id,thread.program.isSome)

/-- Ids are given out once and in order; the flags of the threads that run, and only these, are
registered under their ids. -/
structure IndexKept (options : ForwardIndexOptions) (index : ForwardIndexState) : Prop where
  length : index.directory.shards.length = options.shardCount.toNat
  next_pos : 0 < index.nextLoadId.toNat
  ids : ((roster index).map Prod.fst).Nodup
  threads : ∀ entry ∈ roster index, entry.1.toNat < index.nextLoadId.toNat
  loads : ∀ id, (index.loads id).isSome = true ↔ 0 < id.toNat ∧ id.toNat < index.nextLoadId.toNat
  registered : ∀ id i, index.loadCancellations id = some i ↔ (roster index)[i]? = some (id,true)

section Roster

variable {index : ForwardIndexState}

theorem roster_getElem {i : ℕ} {thread : LoadThread} (h : index.loadWorkers[i]? = some thread) :
    (roster index)[i]? = some (thread.id,thread.program.isSome) := by
  rw [roster,List.getElem?_map,h]
  rfl

theorem mem_roster {i : ℕ} {thread : LoadThread} (h : index.loadWorkers[i]? = some thread) :
    (thread.id,thread.program.isSome) ∈ roster index := List.mem_of_getElem? (roster_getElem h)

theorem map_modify_of_eq {α β : Type} {f : α → β} {g : α → α} (h : ∀ a, f (g a) = f a) (l : List α)
    (i : ℕ) : (l.modify i g).map f = l.map f := by
  apply List.ext_getElem?
  intro j
  rw [List.getElem?_map,List.getElem?_map,List.getElem?_modify]
  cases l[j]? with
  | none => rfl
  | some a =>
    by_cases hij : i = j
    · simp [hij,h]
    · simp [hij]

theorem roster_setFlag (i : ℕ) : roster (index.setFlag i) = roster index :=
  map_modify_of_eq (f := fun thread : LoadThread => (thread.id,thread.program.isSome))
    (g := fun thread => { thread with flag := true }) (fun _ => rfl) index.loadWorkers i

theorem roster_set {i : ℕ} {thread : LoadThread} {p p' : Loading LoadOutcome}
    (hthread : index.loadWorkers[i]? = some thread) (hprogram : thread.program = some p) :
    (index.loadWorkers.set i { thread with program := some p' }).map
      (fun thread => (thread.id,thread.program.isSome)) = roster index := by
  have hentry : (roster index)[i]? = some (thread.id,true) := by
    rw [roster_getElem hthread,hprogram]
    rfl
  rw [List.map_set,← roster]
  show (roster index).set i (thread.id,true) = roster index
  obtain ⟨hlt,heq⟩ := List.getElem?_eq_some_iff.mp hentry
  rw [← heq]
  exact List.set_getElem_self hlt

theorem roster_finishThread {i : ℕ} {thread : LoadThread}
    (hthread : index.loadWorkers[i]? = some thread) (id : LoadId) :
    roster (index.finishThread i id) = (roster index).set i (thread.id,false) := by
  apply List.ext_getElem?
  intro j
  rw [roster,ForwardIndexState.finishThread,List.getElem?_map,List.getElem?_modify,
    List.getElem?_set]
  by_cases hij : i = j
  · subst hij
    have hlt := (List.getElem?_eq_some_iff.mp (roster_getElem hthread)).1
    simp [hthread,hlt]
  · simp [hij,roster]

end Roster

section Kept

variable {options : ForwardIndexOptions} {index index' : ForwardIndexState}

theorem IndexKept.frame (h : IndexKept options index)
    (hlength : index'.directory.shards.length = index.directory.shards.length)
    (hnext : index'.nextLoadId = index.nextLoadId) (hroster : roster index' = roster index)
    (hloads : ∀ id, (index'.loads id).isSome = (index.loads id).isSome)
    (hcancellations : index'.loadCancellations = index.loadCancellations) :
    IndexKept options index' := by
  refine ⟨hlength.trans h.length,?_,?_,?_,?_,?_⟩
  · rw [hnext]
    exact h.next_pos
  · rw [hroster]
    exact h.ids
  · rw [hroster,hnext]
    exact h.threads
  · intro id
    rw [hloads,hnext]
    exact h.loads id
  · rw [hroster,hcancellations]
    exact h.registered

theorem isSome_update {β : Type} {map : LoadId → Option β} {id : LoadId} {b : β}
    (h : (map id).isSome = true) (other : LoadId) :
    (Function.update map id (some b) other).isSome = (map other).isSome := by
  by_cases hsame : other = id
  · rw [hsame,Function.update_self,h]
    rfl
  · rw [Function.update_of_ne hsame]

theorem IndexKept.loads_next (h : IndexKept options index) : index.loads index.nextLoadId = none := by
  have hnot : ¬(index.loads index.nextLoadId).isSome = true := by
    rw [h.loads]
    omega
  simpa using hnot

theorem IndexKept.cancellations_next (h : IndexKept options index) :
    index.loadCancellations index.nextLoadId = none := by
  cases hsome : index.loadCancellations index.nextLoadId with
  | none => rfl
  | some i =>
    have hmem := List.mem_of_getElem? ((h.registered _ _).mp hsome)
    have hlt : index.nextLoadId.toNat < index.nextLoadId.toNat := h.threads _ hmem
    omega

theorem emplace_of_none {β : Type} {map : LoadId → Option β} {id : LoadId} (h : map id = none)
    (b : β) : emplace map id b = Function.update map id (some b) := by
  rw [emplace,h]
  rfl

theorem toNat_add_one {id : LoadId} (h : id.toNat+1 < 2^64) : (id+1).toNat = id.toNat+1 := by
  rw [UInt64.toNat_add,UInt64.toNat_one,Nat.mod_eq_of_lt h]

/-- A call of `LoadAsync` adds the record of its id. -/
theorem IndexKept.loads_emplace (h : IndexKept options index)
    (hleft : index.nextLoadId.toNat+1 < 2^64) (record : LoadState) (id : LoadId) :
    (emplace index.loads index.nextLoadId record id).isSome = true ↔
      0 < id.toNat ∧ id.toNat < (index.nextLoadId+1).toNat := by
  rw [emplace_of_none h.loads_next,toNat_add_one hleft]
  have hpos := h.next_pos
  by_cases hsame : id = index.nextLoadId
  · rw [hsame,Function.update_self]
    simp only [Option.isSome_some,true_iff]
    omega
  · rw [Function.update_of_ne hsame,h.loads]
    have hne : id.toNat ≠ index.nextLoadId.toNat := fun heq => hsame (UInt64.toNat_inj.mp heq)
    omega

theorem IndexKept.refused (h : IndexKept options index)
    (hleft : index.nextLoadId.toNat+1 < 2^64) (record : LoadState) :
    IndexKept options { index with
      nextLoadId := index.nextLoadId+1
      loads := emplace index.loads index.nextLoadId record } := by
  refine ⟨h.length,?_,h.ids,?_,h.loads_emplace hleft record,h.registered⟩
  · show 0 < (index.nextLoadId+1).toNat
    rw [toNat_add_one hleft]
    exact Nat.succ_pos _
  · intro entry hentry
    show entry.1.toNat < (index.nextLoadId+1).toNat
    rw [toNat_add_one hleft]
    exact Nat.lt_succ_of_lt (h.threads entry hentry)

theorem IndexKept.started (h : IndexKept options index)
    (hleft : index.nextLoadId.toNat+1 < 2^64) (record : LoadState) (p : Loading LoadOutcome) :
    IndexKept options { index with
      nextLoadId := index.nextLoadId+1
      loads := emplace index.loads index.nextLoadId record
      loadCancellations := emplace index.loadCancellations index.nextLoadId index.loadWorkers.length
      loadWorkers := index.loadWorkers++[{ id := index.nextLoadId,program := some p }] } := by
  have hroster : (index.loadWorkers++
      [({ id := index.nextLoadId,program := some p } : LoadThread)]).map
      (fun thread => (thread.id,thread.program.isSome)) =
        roster index++[(index.nextLoadId,true)] := List.map_append
  have hlength : (roster index).length = index.loadWorkers.length := List.length_map _
  refine ⟨h.length,?_,?_,?_,h.loads_emplace hleft record,?_⟩
  · show 0 < (index.nextLoadId+1).toNat
    rw [toNat_add_one hleft]
    exact Nat.succ_pos _
  · rw [roster,hroster,List.map_append,List.nodup_append]
    refine ⟨h.ids,List.nodup_singleton _,?_⟩
    intro id hid other hother
    obtain ⟨entry,hentry,rfl⟩ := List.mem_map.mp hid
    obtain rfl : other = index.nextLoadId := by simpa using hother
    intro heq
    exact absurd (h.threads entry hentry) (by rw [heq]; omega)
  · intro entry hentry
    show entry.1.toNat < (index.nextLoadId+1).toNat
    rw [toNat_add_one hleft]
    rw [roster,hroster,List.mem_append,List.mem_singleton] at hentry
    rcases hentry with hentry | rfl
    · exact Nat.lt_succ_of_lt (h.threads entry hentry)
    · exact Nat.lt_succ_self _
  · intro id i
    show emplace index.loadCancellations index.nextLoadId index.loadWorkers.length id = some i ↔ _
    rw [roster,hroster,emplace_of_none h.cancellations_next,← hlength]
    by_cases hsame : id = index.nextLoadId
    · subst hsame
      rw [Function.update_self,Option.some_inj]
      constructor
      · rintro rfl
        rw [List.getElem?_append_right le_rfl,Nat.sub_self]
        rfl
      · intro hget
        by_contra hne
        by_cases hi : i < (roster index).length
        · rw [List.getElem?_append_left hi] at hget
          have hlt : index.nextLoadId.toNat < index.nextLoadId.toNat :=
            h.threads _ (List.mem_of_getElem? hget)
          omega
        · rw [List.getElem?_append_right (by omega)] at hget
          have hsub : i-(roster index).length ≠ 0 := by omega
          rw [List.getElem?_eq_none (by rw [List.length_singleton]; omega)] at hget
          cases hget
    · rw [Function.update_of_ne hsame,h.registered]
      by_cases hi : i < (roster index).length
      · rw [List.getElem?_append_left hi]
      · rw [List.getElem?_append_right (by omega),List.getElem?_eq_none (by omega)]
        refine ⟨nofun,fun hget => ?_⟩
        have hmem := List.mem_singleton.mp (List.mem_of_getElem? hget)
        exact absurd (congrArg Prod.fst hmem) hsame

theorem IndexKept.same (h : IndexKept options index) {i j : ℕ} {id : LoadId} {running running' : Bool}
    (hi : (roster index)[i]? = some (id,running)) (hj : (roster index)[j]? = some (id,running')) :
    i = j := by
  have hlt : i < ((roster index).map Prod.fst).length := by
    rw [List.length_map]
    exact (List.getElem?_eq_some_iff.mp hi).1
  refine (List.getElem?_inj hlt h.ids).mp ?_
  rw [List.getElem?_map,List.getElem?_map,hi,hj]
  rfl

theorem IndexKept.finish (h : IndexKept options index) {i : ℕ} {thread : LoadThread}
    (hthread : index.loadWorkers[i]? = some thread) (hrunning : thread.program.isSome = true) :
    IndexKept options (index.finishThread i thread.id) := by
  have hentry := roster_getElem hthread
  rw [hrunning] at hentry
  obtain ⟨hlt,hget⟩ := List.getElem?_eq_some_iff.mp hentry
  have hroster := roster_finishThread hthread thread.id
  refine ⟨h.length,h.next_pos,?_,?_,h.loads,?_⟩
  · rw [hroster,List.map_set]
    have hsame : ((roster index).map Prod.fst).set i thread.id = (roster index).map Prod.fst := by
      have hlt' : i < ((roster index).map Prod.fst).length := by rwa [List.length_map]
      have hid : ((roster index).map Prod.fst)[i] = thread.id := by rw [List.getElem_map,hget]
      rw [← hid]
      exact List.set_getElem_self hlt'
    rw [hsame]
    exact h.ids
  · intro entry hentry'
    rw [hroster] at hentry'
    rcases List.mem_or_eq_of_mem_set hentry' with hmem | rfl
    · exact h.threads entry hmem
    · exact h.threads (thread.id,true) (List.mem_of_getElem? hentry)
  · intro id j
    show Function.update index.loadCancellations thread.id none id = some j ↔ _
    rw [hroster,List.getElem?_set]
    by_cases hid : id = thread.id
    · subst hid
      rw [Function.update_self]
      refine ⟨nofun,fun hj => ?_⟩
      by_cases hij : i = j
      · simp [hij] at hj
      · rw [if_neg hij] at hj
        exact absurd (h.same hentry hj) hij
    · rw [Function.update_of_ne hid,h.registered]
      by_cases hij : i = j
      · subst hij
        rw [if_pos rfl,if_pos hlt,hentry]
        simp [Ne.symm hid]
      · rw [if_neg hij]

/-- What an operation of the thread of `id` leaves as it is. -/
structure KeepsIndex (id : LoadId) (index index' : ForwardIndexState) : Prop where
  length : index'.directory.shards.length = index.directory.shards.length
  nextLoadId : index'.nextLoadId = index.nextLoadId
  loadWorkers : index'.loadWorkers = index.loadWorkers
  loads : ∀ other, (index'.loads other).isSome = (index.loads other).isSome
  loadCancellations : index'.loadCancellations = index.loadCancellations
  phase : index'.phase = index.phase
  others : ∀ other, other ≠ id → index'.loads other = index.loads other

theorem KeepsIndex.refl (id : LoadId) (index : ForwardIndexState) : KeepsIndex id index index :=
  ⟨rfl,rfl,rfl,fun _ => rfl,rfl,rfl,fun _ _ => rfl⟩

theorem ThreadStep.keeps {thread : LoadThread} {event : LoadEvent}
    (h : ThreadStep index thread event index') : KeepsIndex thread.id index index' := by
  obtain ⟨op,answer⟩ := event
  cases op with
  | storeState state =>
    obtain ⟨-,rfl⟩ := h
    rw [ForwardIndexState.storeState]
    cases hrecord : index.loads thread.id with
    | none => exact KeepsIndex.refl _ _
    | some record =>
      refine ⟨rfl,rfl,rfl,isSome_update (by rw [hrecord]; rfl),rfl,rfl,?_⟩
      exact fun id hid => Function.update_of_ne hid _ _
  | publishShard shardId shard =>
    obtain ⟨-,rfl⟩ := h
    exact ⟨ShardDirectory.publish_length _ _ _,rfl,rfl,fun _ => rfl,rfl,rfl,fun _ _ => rfl⟩
  | isCancelled =>
    obtain ⟨-,rfl⟩ := h
    exact KeepsIndex.refl _ _
  | _ =>
    obtain rfl := h
    exact KeepsIndex.refl _ _

theorem markCancelled_some {id : LoadId} (h : index.markCancelled id = some index') :
    ∃ record, index.loads id = some record ∧ record.terminal = false ∧
      index' = { index with
        loads := Function.update index.loads id (some (cancelRecord record))
        phase := .cancelling id } := by
  rw [ForwardIndexState.markCancelled] at h
  cases hrecord : index.loads id with
  | none =>
    rw [hrecord] at h
    cases h
  | some record =>
    rw [hrecord] at h
    cases hterminal : record.terminal with
    | true => simp [hterminal] at h
    | false =>
      simp only [hterminal,Bool.false_eq_true,if_false,Option.some_inj] at h
      exact ⟨record,rfl,hterminal,h.symm⟩

theorem finishCancel_frame (index : ForwardIndexState) (id : LoadId) :
    (index.finishCancel id).directory = index.directory ∧
      (index.finishCancel id).nextLoadId = index.nextLoadId ∧
      (index.finishCancel id).loads = index.loads ∧
      (index.finishCancel id).loadCancellations = index.loadCancellations ∧
      roster (index.finishCancel id) = roster index ∧
      (index.finishCancel id).phase = .serving := by
  rw [ForwardIndexState.finishCancel]
  cases index.loadCancellations id with
  | none => exact ⟨rfl,rfl,rfl,rfl,rfl,rfl⟩
  | some thread => exact ⟨rfl,rfl,rfl,rfl,roster_setFlag thread,rfl⟩

theorem loadAsync_cases (index : ForwardIndexState) (options : ForwardIndexOptions)
    (files : FileSystem) (request : LoadRequest) (fuel : ℕ) :
    (∃ status, preflightLocalArtifactUri files request = .error status ∧
      (index.loadAsync options files request fuel).2 = { index with
        nextLoadId := index.nextLoadId+1
        loads := emplace index.loads index.nextLoadId
          (refusedRecord request index.nextLoadId status) }) ∨
    (preflightLocalArtifactUri files request = .ok () ∧
      (index.loadAsync options files request fuel).2 = { index with
        nextLoadId := index.nextLoadId+1
        loads := emplace index.loads index.nextLoadId (recordOf request index.nextLoadId)
        loadCancellations := emplace index.loadCancellations index.nextLoadId index.loadWorkers.length
        loadWorkers := index.loadWorkers++[{
          id := index.nextLoadId
          program := some (runExternalArtifactLoad request index.nextLoadId options true fuel) }] }) := by
  rw [ForwardIndexState.loadAsync]
  cases preflightLocalArtifactUri files request with
  | error status => exact Or.inl ⟨status,rfl,rfl⟩
  | ok _ => exact Or.inr ⟨rfl,rfl⟩

theorem IndexKept.step (h : IndexKept options index) {label : ForwardIndexLabel}
    (hstep : FreshStep options index label index') : IndexKept options index' := by
  obtain ⟨hleft,hstep⟩ := hstep
  cases hstep with
  | loadAsync files request fuel hphase =>
    rcases loadAsync_cases index options files request fuel with ⟨status,-,heq⟩ | ⟨-,heq⟩
    · rw [heq]
      exact h.refused hleft _
    · rw [heq]
      exact h.started hleft _ _
  | @work index' i thread op next answer hthread hprogram hstep =>
    have hkeeps := hstep.keeps
    refine h.frame hkeeps.length hkeeps.nextLoadId ?_ hkeeps.loads hkeeps.loadCancellations
    show (index'.loadWorkers.set i _).map _ = roster index
    rw [hkeeps.loadWorkers]
    exact roster_set hthread hprogram
  | finish hthread hprogram hlock => exact h.finish hthread (by rw [hprogram]; rfl)
  | cancelRefused hphase hmark => exact h
  | cancelMarks hphase hmark =>
    obtain ⟨record,hrecord,-,rfl⟩ := markCancelled_some hmark
    exact h.frame rfl rfl rfl (isSome_update (by rw [hrecord]; rfl)) rfl
  | cancelReturns hphase =>
    rename_i id
    obtain ⟨hdirectory,hnext,hloads,hcancellations,hroster,-⟩ := finishCancel_frame index id
    exact h.frame (by rw [hdirectory]) hnext hroster (fun _ => by rw [hloads]) hcancellations
  | getLoadState id hphase => exact h
  | destroy threads hphase hthreads => exact h.frame rfl rfl rfl (fun _ => rfl) rfl
  | stopFlag hphase => exact h.frame rfl rfl (roster_setFlag _) (fun _ => rfl) rfl
  | unlock hphase => exact h.frame rfl rfl rfl (fun _ => rfl) rfl
  | destroyed hphase hended => exact h.frame rfl rfl rfl (fun _ => rfl) rfl

theorem construct_eq {start : ForwardIndexState} (h : construct options = .ok start) :
    start = { directory := .create options.shardCount } := by
  rw [construct] at h
  split at h
  · cases h
  · exact (Except.ok.inj h).symm

theorem IndexHistory.kept {labels : List ForwardIndexLabel} (h : IndexHistory options labels index) :
    IndexKept options index := by
  obtain ⟨start,hstart,hsteps⟩ := h
  obtain rfl := construct_eq hstart
  refine Steps.invariant (fun _ => IndexKept options) hsteps ?_ fun _ _ _ _ hkept hstep =>
    hkept.step hstep
  have hempty : roster { directory := .create options.shardCount } = [] := rfl
  refine ⟨by rw [ShardDirectory.create,List.length_replicate],Nat.one_pos,?_,?_,?_,?_⟩
  · rw [hempty]
    exact List.nodup_nil
  · rw [hempty]
    exact fun entry hentry => absurd hentry List.not_mem_nil
  · intro id
    show (none : Option LoadState).isSome = true ↔ 0 < id.toNat ∧ id.toNat < 1
    simp only [Option.isSome_none,Bool.false_eq_true,false_iff]
    omega
  · intro id i
    rw [hempty]
    constructor
    · intro h
      cases h
    · intro h
      cases h

end Kept

end Rebuild
end KvIndex
