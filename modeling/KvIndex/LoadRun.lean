import KvIndex.ArtifactRoundTrip
import KvIndex.LoadRules

/-! Every load keeps the rules, whatever the files hold, the runner answers and whenever
it is cancelled. The stage of a load is how many shards it has loaded, prewarmed and
cut over; its state and its events both follow from it. -/
namespace KvIndex
namespace Rebuild

open Base Ingest Artifact LoadView

/-- The entry of shard `i` when the first `l` shards have been loaded, the first `p`
prewarmed and the first `c` cut over. -/
def progressEntry (l p c i : ℕ) : ShardProgress where
  shardId := UInt32.ofNat i
  loaded := i < l
  prewarmed := i < p
  cutover := i < c

/-- The state counts its `n` shards as the stage says. -/
structure Counts (n l p c : ℕ) (state : LoadState) : Prop where
  entries : state.shards = (List.range n).map (progressEntry l p c)
  total : state.totalShardCount = UInt32.ofNat n
  loaded : state.loadedShardCount = UInt32.ofNat l
  prewarmed : state.prewarmedShardCount = UInt32.ofNat p
  cutover : state.cutoverShardCount = UInt32.ofNat c
  cutover_le : c ≤ p
  prewarmed_le : p ≤ l
  loaded_le : l ≤ n
  total_lt : n < 2^32

theorem countP_range_lt {n k : ℕ} (h : k ≤ n) :
    (List.range n).countP (fun i => decide (i < k)) = k := by
  obtain ⟨m,rfl⟩ := Nat.exists_eq_add_of_le h
  have hbelow : (List.range k).countP (fun i => decide (i < k)) = k := by
    rw [List.countP_eq_length.mpr,List.length_range]
    intro i hi
    simpa using hi
  have habove : ((List.range m).map (k+·)).countP (fun i => decide (i < k)) = 0 := by
    rw [List.countP_eq_zero]
    intro i hi
    obtain ⟨j,_,rfl⟩ := List.mem_map.mp hi
    simp
  rw [List.range_add,List.countP_append,hbelow,habove,Nat.add_zero]

theorem countP_progressEntry {n l p c k : ℕ} {f : ShardProgress → Bool}
    (hf : ∀ i, f (progressEntry l p c i) = decide (i < k)) (h : k ≤ n) :
    ((List.range n).map (progressEntry l p c)).countP f = k := by
  rw [List.countP_map]
  refine Eq.trans ?_ (countP_range_lt h)
  congr 1
  funext i
  exact hf i

theorem toNat_ofNat {k : ℕ} (h : k < 2^32) : (UInt32.ofNat k).toNat = k :=
  UInt32.toNat_ofNat_of_lt' h

namespace Counts

variable {n l p c : ℕ} {state : LoadState}

theorem lt (h : Counts n l p c state) : l < 2^32 ∧ p < 2^32 ∧ c < 2^32 := by
  have h1 := h.cutover_le
  have h2 := h.prewarmed_le
  have h3 := h.loaded_le
  have h4 := h.total_lt
  omega

theorem truthful (h : Counts n l p c state) : Truthful state := by
  obtain ⟨hl,hp,hc⟩ := h.lt
  have hpn := h.prewarmed_le.trans h.loaded_le
  refine ⟨?_,?_,?_,?_,?_,?_⟩
  · rw [h.cutover,h.prewarmed,UInt32.le_iff_toNat_le,toNat_ofNat hc,toNat_ofNat hp]
    exact h.cutover_le
  · rw [h.prewarmed,h.loaded,UInt32.le_iff_toNat_le,toNat_ofNat hp,toNat_ofNat hl]
    exact h.prewarmed_le
  · rw [h.loaded,h.total,UInt32.le_iff_toNat_le,toNat_ofNat hl,toNat_ofNat h.total_lt]
    exact h.loaded_le
  · rw [h.loaded,h.entries,toNat_ofNat hl,countP_progressEntry (fun _ => rfl) h.loaded_le]
  · rw [h.prewarmed,h.entries,toNat_ofNat hp,countP_progressEntry (fun _ => rfl) hpn]
  · rw [h.cutover,h.entries,toNat_ofNat hc,
      countP_progressEntry (fun _ => rfl) (h.cutover_le.trans hpn)]

theorem cutover_toNat (h : Counts n l p c state) : state.cutoverShardCount.toNat = c := by
  rw [h.cutover,toNat_ofNat h.lt.2.2]

theorem congr (h : Counts n l p c state) {state' : LoadState}
    (hs : state'.shards = state.shards) (ht : state'.totalShardCount = state.totalShardCount)
    (hl : state'.loadedShardCount = state.loadedShardCount)
    (hp : state'.prewarmedShardCount = state.prewarmedShardCount)
    (hc : state'.cutoverShardCount = state.cutoverShardCount) : Counts n l p c state' :=
  ⟨hs.trans h.entries,ht.trans h.total,hl.trans h.loaded,hp.trans h.prewarmed,
    hc.trans h.cutover,h.cutover_le,h.prewarmed_le,h.loaded_le,h.total_lt⟩

end Counts

/-- The entries after shard `k` got a flag. -/
theorem modify_progressEntry {n l p c l' p' c' k : ℕ} {f : ShardProgress → ShardProgress}
    (hat : f (progressEntry l p c k) = progressEntry l' p' c' k)
    (hother : ∀ i ≠ k, (i < l ↔ i < l') ∧ (i < p ↔ i < p') ∧ (i < c ↔ i < c')) :
    ((List.range n).map (progressEntry l p c)).modify k f =
      (List.range n).map (progressEntry l' p' c') := by
  refine List.ext_getElem? fun i => ?_
  rw [List.getElem?_modify]
  by_cases hi : i < n
  · simp only [List.getElem?_map,List.getElem?_range hi,Option.map_some,Option.map_eq_map]
    by_cases hk : k = i
    · subst hk
      rw [if_pos rfl,hat]
    · obtain ⟨h1,h2,h3⟩ := hother i (Ne.symm hk)
      rw [if_neg hk]
      simp only [progressEntry,h1,h2,h3]
  · simp [hi]

theorem Counts.noteLoaded {n l p c : ℕ} {state : LoadState} (h : Counts n l p c state)
    (hlt : l < n) (backing : MmapSnapshotBacking) :
    Counts n (l+1) p c (noteLoaded state l backing) := by
  have hp := h.prewarmed_le
  have hc := h.cutover_le
  have hentries : (state.shards.modify l fun shard => { shard with loaded := true }) =
      (List.range n).map (progressEntry (l+1) p c) := by
    rw [h.entries]
    refine modify_progressEntry ?_ ?_
    · simp [progressEntry]
    · intro i hi
      omega
  have hcount : state.loadedShardCount+1 = UInt32.ofNat (l+1) := by
    rw [h.loaded,UInt32.ofNat_add]
    rfl
  have hrest : Counts n (l+1) p c { state with
      shards := state.shards.modify l fun shard => { shard with loaded := true }
      loadedShardCount := state.loadedShardCount+1 } :=
    ⟨hentries,h.total,hcount,h.prewarmed,h.cutover,hc,by omega,hlt,h.total_lt⟩
  refine hrest.congr ?_ ?_ ?_ ?_ ?_
  all_goals
    simp only [Rebuild.noteLoaded,setShard]
    split_ifs <;> rfl

theorem Counts.notePrewarmed {n l p c : ℕ} {state : LoadState} (h : Counts n l p c state)
    (hlt : p < l) : Counts n l (p+1) c (notePrewarmed state p) := by
  have hc := h.cutover_le
  refine ⟨?_,h.total,h.loaded,?_,h.cutover,by omega,hlt,h.loaded_le,h.total_lt⟩
  · show state.shards.modify p (fun shard => { shard with prewarmed := true }) = _
    rw [h.entries]
    refine modify_progressEntry ?_ ?_
    · simp [progressEntry]
    · intro i hi
      omega
  · show state.prewarmedShardCount+1 = UInt32.ofNat (p+1)
    rw [h.prewarmed,UInt32.ofNat_add]
    rfl

theorem Counts.noteCutover {n l p c : ℕ} {state : LoadState} (h : Counts n l p c state)
    (hlt : c < p) : Counts n l p (c+1) (noteCutover state c) := by
  refine ⟨?_,h.total,h.loaded,h.prewarmed,?_,hlt,h.prewarmed_le,h.loaded_le,h.total_lt⟩
  · show state.shards.modify c (fun shard => { shard with cutover := true }) = _
    rw [h.entries]
    refine modify_progressEntry ?_ ?_
    · simp [progressEntry]
    · intro i hi
      omega
  · show state.cutoverShardCount+1 = UInt32.ofNat (c+1)
    rw [h.cutover,UInt32.ofNat_add]
    rfl

/-- The state may be stored, with any code. -/
structure Storable (v : LoadView) (state : LoadState) : Prop where
  counts : ∃ n l p c, Counts n l p c state ∧ v.published.length = c
  unfinished : v.finished = false

/-- What a load has done when it returns. -/
structure Ended (options : ForwardIndexOptions) (history : List LoadEvent) (status : StatusOr Unit)
    (state : LoadState) : Prop where
  stored : (storedStates history).getLast? = some state
  cutover : state.cutoverShardCount.toNat = (view options history).published.length
  succeeded : status = .ok () → state.code = .kSucceeded ∧
    (view options history).published.length = options.shardCount.toNat
  terminal : state.terminal = true
  failed : (view options history).Complete ∨ (status ≠ .ok () ∧ state.code = .kFailed)

/-- A load that has not returned is still catching up. -/
def Ends (options : ForwardIndexOptions) (history : List LoadEvent) : LoadOutcome → Prop
  | none => (view options history).Complete
  | some (status,state) => Ended options history status state

section Safe

variable {id : LoadId} {options : ForwardIndexOptions} {history : List LoadEvent} {α : Type}
  {state : LoadState}

theorem Storable.mayStore (h : Storable (view options history) state)
    (hcode : state.code = .kSucceeded →
      (view options history).published.length = options.shardCount.toNat)
    (hterm : state.terminal = true ↔ state.code ≠ .kRunning) :
    (loadRules id options).allowed history (.storeState state) := by
  obtain ⟨n,l,p,c,hcounts,hlen⟩ := h.counts
  exact ⟨h.unfinished,hcounts.truthful,by rw [hcounts.cutover_toNat,hlen],hcode,hterm⟩

theorem storedStates_getLast (state : LoadState) :
    (storedStates (history++[⟨.storeState state,()⟩])).getLast? = some state := by
  rw [storedStates_append]
  exact List.getLast?_concat

theorem complete_storeState {state : LoadState} (h : (view options history).Complete) :
    (view options (history++[⟨.storeState state,()⟩])).Complete := by
  rw [view_storeState]
  exact h

theorem storeAndReturn_safe {status : StatusOr Unit} {post : List LoadEvent → α → Prop}
    (h : Storable (view options history) state) (hterm : state.terminal = true)
    (hcode : state.code ≠ .kRunning)
    (hall : state.code = .kSucceeded →
      (view options history).published.length = options.shardCount.toNat)
    (hok : status = .ok () → state.code = .kSucceeded)
    (hfailed : (view options history).Complete ∨ (status ≠ .ok () ∧ state.code = .kFailed)) :
    Prog.SafeOr (loadRules id options) (Ends options) post history
      (storeAndReturn status state) := by
  refine Prog.SafeOr.bind (Prog.SafeOr.call (h.mayStore hall (by simp [hterm,hcode])) ?_)
  intro _ _
  refine Prog.SafeOr.throw ⟨storedStates_getLast state,?_,?_,hterm,hfailed.imp_left complete_storeState⟩
  · obtain ⟨n,l,p,c,hcounts,hlen⟩ := h.counts
    rw [view_storeState,hcounts.cutover_toNat]
    exact hlen.symm
  · intro hs
    rw [view_storeState]
    exact ⟨hok hs,hall (hok hs)⟩

theorem failLoad_safe {status : Status} {post : List LoadEvent → α → Prop}
    (h : Storable (view options history) state) :
    Prog.SafeOr (loadRules id options) (Ends options) post history (failLoad state status) := by
  obtain ⟨n,l,p,c,hcounts,hlen⟩ := h.counts
  refine storeAndReturn_safe ⟨⟨n,l,p,c,hcounts.congr rfl rfl rfl rfl rfl,hlen⟩,h.unfinished⟩ rfl
    (by simp [markFailed]) (by simp [markFailed]) ?_ (Or.inr ⟨?_,rfl⟩)
  · intro hs
    cases hs
  · intro hs
    cases hs

theorem cancelLoad_safe {status : Status} {post : List LoadEvent → α → Prop}
    (h : Storable (view options history) state) (hc : (view options history).Complete) :
    Prog.SafeOr (loadRules id options) (Ends options) post history
      (storeAndReturn (.error status) (markCancelled state)) := by
  obtain ⟨n,l,p,c,hcounts,hlen⟩ := h.counts
  refine storeAndReturn_safe ⟨⟨n,l,p,c,hcounts.congr rfl rfl rfl rfl rfl,hlen⟩,h.unfinished⟩ rfl
    (by simp [markCancelled]) (by simp [markCancelled]) ?_ (Or.inl hc)
  intro hs
  cases hs

theorem orFail_safe {result : StatusOr α} (h : Storable (view options history) state) :
    Prog.SafeOr (loadRules id options) (Ends options)
      (fun after a => after = history ∧ result = .ok a) history (orFail state result) := by
  cases result with
  | error status => exact failLoad_safe h
  | ok a => exact Prog.SafeOr.pure ⟨rfl,rfl⟩

/-- The state of a load that runs. -/
structure Running (v : LoadView) (state : LoadState) : Prop extends Storable v state where
  code : state.code = .kRunning
  terminal : state.terminal = false
  complete : v.Complete

theorem storeState_safe (h : Running (view options history) state) :
    Prog.SafeOr (loadRules id options) (Ends options)
      (fun after _ => view options after = view options history) history (storeState state) := by
  refine Prog.SafeOr.call (h.mayStore (by simp [h.code]) (by simp [h.terminal,h.code])) ?_
  intro _ _
  rw [view_storeState,h.terminal,Bool.or_false]

theorem checkCancelled_safe (h : Running (view options history) state) :
    Prog.SafeOr (loadRules id options) (Ends options)
      (fun after _ => view options after = view options history ∧
        after.getLast? = some ⟨.isCancelled,false⟩) history (checkCancelled state) := by
  refine Prog.SafeOr.bind (Prog.SafeOr.call ⟨h.unfinished,trivial⟩ ?_)
  intro cancelled _
  cases cancelled with
  | false =>
    refine Prog.SafeOr.pure ⟨view_isCancelled _ _ _,?_⟩
    simp
  | true =>
    have h' : Running (view options (history++[⟨.isCancelled,true⟩])) state := by
      rwa [view_isCancelled]
    exact cancelLoad_safe h'.toStorable h'.complete

end Safe

/-- The stage of a load that runs: `n` shards, of which `l` have been loaded, `p`
prewarmed and `c` published. -/
structure Stage (id : LoadId) (options : ForwardIndexOptions) (v : LoadView) (n l p c : ℕ)
    (state : LoadState) : Prop where
  counts : Counts n l p c state
  code : state.code = .kRunning
  terminal : state.terminal = false
  unfinished : v.finished = false
  complete : v.Complete
  loaded : v.backings.map (·.shardId) = shardIds l
  prewarmed : v.prewarmed = shardIds p
  calls : v.calls = v.published
  published : v.published = (shardStates id options v.backings).take c

/-- Nothing has been observed yet. -/
structure Quiet (v : LoadView) : Prop where
  starts : v.starts = []
  observed : v.observed = []

theorem Quiet.complete {v : LoadView} (h : Quiet v) : v.Complete := by
  intro backing _ progress hp
  rw [h.observed] at hp
  cases hp

section Stage

variable {id : LoadId} {options : ForwardIndexOptions} {v : LoadView} {n l p c : ℕ}
  {state : LoadState}

theorem shardStates_length (backings : List MmapSnapshotBacking) :
    (shardStates id options backings).length = backings.length := by
  simp [shardStates]

theorem Stage.backings_length (h : Stage id options v n l p c state) : v.backings.length = l := by
  have := congrArg List.length h.loaded
  simpa [shardIds] using this

theorem Stage.running (h : Stage id options v n l p c state) : Running v state := by
  refine ⟨⟨⟨n,l,p,c,h.counts,?_⟩,h.unfinished⟩,h.code,h.terminal,h.complete⟩
  have h1 := h.counts.cutover_le
  have h2 := h.counts.prewarmed_le
  rw [h.published,List.length_take,shardStates_length,h.backings_length]
  omega

theorem Stage.congr (h : Stage id options v n l p c state) {state' : LoadState}
    (hcounts : Counts n l p c state') (hcode : state'.code = state.code)
    (hterm : state'.terminal = state.terminal) : Stage id options v n l p c state' :=
  ⟨hcounts,hcode.trans h.code,hterm.trans h.terminal,h.unfinished,h.complete,h.loaded,h.prewarmed,
    h.calls,h.published⟩

theorem shardIds_succ (k : ℕ) : shardIds (k+1) = shardIds k++[UInt32.ofNat k] := by
  simp [shardIds,List.range_succ]

theorem loadShard_shardId {bytes : Bytes} {shardId : UInt32} {loadOptions : MmapSnapshotLoadOptions}
    {backing : MmapSnapshotBacking}
    (h : MmapSnapshotBacking.loadShard bytes shardId loadOptions = .ok backing) :
    backing.shardId = shardId := by
  simp only [MmapSnapshotBacking.loadShard,bind_eq_ok,pure_eq_ok,Except.ok.injEq] at h
  obtain ⟨_,_,_,_,_,_,_,_,_,_,_,_,_,_,_,_,_,_,rfl⟩ := h
  rfl

theorem noteLoaded_code (state : LoadState) (shardId : ℕ) (backing : MmapSnapshotBacking) :
    (noteLoaded state shardId backing).code = state.code ∧
      (noteLoaded state shardId backing).terminal = state.terminal := by
  simp only [noteLoaded,setShard]
  split_ifs <;> exact ⟨rfl,rfl⟩

theorem Stage.load (h : Stage id options v n l 0 0 state) (hq : Quiet v) (hlt : l < n)
    {backing : MmapSnapshotBacking} (hb : backing.shardId = UInt32.ofNat l) :
    Stage id options { v with backings := v.backings++[backing] } n (l+1) 0 0
      (noteLoaded state l backing) := by
  obtain ⟨hcode,hterm⟩ := noteLoaded_code state l backing
  have hq' : Quiet { v with backings := v.backings++[backing] } := ⟨hq.starts,hq.observed⟩
  refine ⟨h.counts.noteLoaded hlt backing,hcode.trans h.code,hterm.trans h.terminal,h.unfinished,
    hq'.complete,?_,h.prewarmed,h.calls,?_⟩
  · rw [List.map_append,h.loaded,List.map_singleton,hb,shardIds_succ]
  · rw [h.published,List.take_zero,List.take_zero]

theorem loadShards_safe (request : LoadRequest) (m : ℕ) {history : List LoadEvent}
    (h : Stage id options (view options history) n l 0 0 state) (hq : Quiet (view options history))
    (hm : l+m = n) :
    Prog.SafeOr (loadRules id options) (Ends options)
      (fun after result => Stage id options (view options after) n n 0 0 result.1 ∧
        Quiet (view options after) ∧ result.2 = (view options after).backings) history
      (loadShards request options (List.range' l m) state (view options history).backings) := by
  induction m generalizing l state history with
  | zero =>
    obtain rfl : l = n := hm
    exact Prog.SafeOr.pure ⟨h,hq,rfl⟩
  | succ m ih =>
    rw [List.range'_succ]
    refine Prog.SafeOr.bind (Prog.SafeOr.mono ?_ (checkCancelled_safe h.running))
    rintro history1 _ ⟨hview1,-⟩
    rw [← hview1] at h hq ⊢
    refine Prog.SafeOr.bind (Prog.SafeOr.call ⟨h.unfinished,trivial⟩ ?_)
    intro mapped _
    cases mapped with
    | error status =>
      refine Prog.SafeOr.bind (failLoad_safe ?_)
      rw [view_mapShardFile_missing]
      exact h.running.toStorable
    | ok bytes =>
      refine Prog.SafeOr.bind (Prog.SafeOr.pure ?_)
      cases hload : MmapSnapshotBacking.loadShard bytes (UInt32.ofNat l) (loadOptions options) with
      | error status =>
        refine Prog.SafeOr.bind (failLoad_safe ?_)
        rw [view_mapShardFile_error options history1 hload]
        exact h.running.toStorable
      | ok backing =>
        have hview2 := view_mapShardFile options history1 request.artifactUri hload
        have h2 := h.load hq (by omega) (loadShard_shardId hload)
        rw [← hview2] at h2
        refine Prog.SafeOr.bind (Prog.SafeOr.pure ?_)
        refine Prog.SafeOr.bind (Prog.SafeOr.mono ?_ (storeState_safe h2.running))
        intro history3 _ hview3
        rw [← hview3] at h2 hview2
        have hq3 : Quiet (view options history3) := by
          rw [hview2]
          exact ⟨hq.starts,hq.observed⟩
        have hback : (view options history1).backings++[backing] =
            (view options history3).backings := by
          rw [hview2]
        rw [hback]
        exact ih h2 hq3 (by omega)

theorem Stage.prewarm (h : Stage id options v n l p 0 state) (hlt : p < l) :
    Stage id options { v with prewarmed := v.prewarmed++[UInt32.ofNat p] } n l (p+1) 0
      (notePrewarmed state p) := by
  refine ⟨h.counts.notePrewarmed hlt,h.code,h.terminal,h.unfinished,h.complete,h.loaded,?_,h.calls,
    h.published⟩
  rw [h.prewarmed,shardIds_succ]

theorem prewarmShards_safe (m : ℕ) {history : List LoadEvent}
    (h : Stage id options (view options history) n n p 0 state) (hq : Quiet (view options history))
    (hm : p+m = n) :
    Prog.SafeOr (loadRules id options) (Ends options)
      (fun after result => Stage id options (view options after) n n n 0 result ∧
        Quiet (view options after) ∧ (view options after).backings = (view options history).backings)
      history (prewarmShards (List.range' p m) state) := by
  induction m generalizing p state history with
  | zero =>
    obtain rfl : p = n := hm
    exact Prog.SafeOr.pure ⟨h,hq,rfl⟩
  | succ m ih =>
    rw [List.range'_succ]
    refine Prog.SafeOr.bind (Prog.SafeOr.mono ?_ (checkCancelled_safe h.running))
    rintro history1 _ ⟨hview1,-⟩
    rw [← hview1] at h hq ⊢
    refine Prog.SafeOr.bind (Prog.SafeOr.call ⟨h.unfinished,trivial⟩ ?_)
    intro answer _
    cases answer with
    | error status =>
      refine Prog.SafeOr.bind (failLoad_safe ?_)
      rw [view_prewarm_error]
      exact h.running.toStorable
    | ok _ =>
      refine Prog.SafeOr.bind (Prog.SafeOr.pure ?_)
      have hview2 := view_prewarm options history1 (UInt32.ofNat p)
      have h2 := h.prewarm (by omega)
      rw [← hview2] at h2
      refine Prog.SafeOr.bind (Prog.SafeOr.mono ?_ (storeState_safe h2.running))
      intro history3 _ hview3
      rw [← hview3] at h2 hview2
      have hq3 : Quiet (view options history3) := by
        rw [hview2]
        exact ⟨hq.starts,hq.observed⟩
      have hback : (view options history1).backings = (view options history3).backings := by
        rw [hview2]
      rw [hback]
      exact ih h2 hq3 (by omega)

/-- The load has caught up, where it has to. -/
def Ready (id : LoadId) (options : ForwardIndexOptions) (v : LoadView) : Prop :=
  forwardIndexModeUsesKafkaRealtime options.mode = true →
    v.CatchingUp id options ∧ ∀ backing ∈ v.backings.head?, CaughtUp backing.artifact v.observed

theorem Stage.mayPublish (h : Stage id options v n n n c state) (hready : Ready id options v)
    (hn : n = options.shardCount.toNat) {shard : PublishedShard}
    (hs : (shardStates id options v.backings)[c]? = some shard) :
    v.MayPublish id options (UInt32.ofNat c) shard := by
  have hc : (UInt32.ofNat c).toNat = c := toNat_ofNat h.counts.lt.2.2
  refine ⟨hn ▸ h.loaded,hn ▸ h.prewarmed,?_,?_,h.calls.symm,h.complete,hready⟩
  · rw [hc]
    exact hs
  · rw [hc,h.calls]
    exact h.published

theorem Stage.publish (h : Stage id options v n n n c state) (hlt : c < n) {shard : PublishedShard}
    (hs : (shardStates id options v.backings)[c]? = some shard) :
    Stage id options { v with calls := v.calls++[shard],published := v.published++[shard] }
      n n n (c+1) (noteCutover state c) := by
  refine ⟨h.counts.noteCutover hlt,h.code,h.terminal,h.unfinished,h.complete,h.loaded,h.prewarmed,
    ?_,?_⟩
  · rw [h.calls]
  · show v.published++[shard] = _
    rw [h.published,List.take_add_one,hs]
    rfl

theorem cutoverShards_safe (hn : n = options.shardCount.toNat) (shards : List PublishedShard)
    {history : List LoadEvent} (h : Stage id options (view options history) n n n c state)
    (hready : Ready id options (view options history))
    (hshards : shards = (shardStates id options (view options history).backings).drop c) :
    Prog.SafeOr (loadRules id options) (Ends options)
      (fun after result => Stage id options (view options after) n n n n result) history
      (cutoverShards c shards state) := by
  induction shards generalizing c state history with
  | nil =>
    have hle := List.drop_eq_nil_iff.mp hshards.symm
    rw [shardStates_length,h.backings_length] at hle
    obtain rfl : c = n := le_antisymm h.counts.cutover_le hle
    exact Prog.SafeOr.pure h
  | cons shard shards ih =>
    have hs : (shardStates id options (view options history).backings)[c]? = some shard := by
      have hhead := congrArg List.head? hshards
      rw [List.head?_drop] at hhead
      exact hhead.symm
    have hlt : c < n := by
      have := (List.getElem?_eq_some_iff.mp hs).1
      rwa [shardStates_length,h.backings_length] at this
    have htail : shards = (shardStates id options (view options history).backings).drop (c+1) := by
      rw [← List.tail_drop,← hshards,List.tail_cons]
    refine Prog.SafeOr.bind (Prog.SafeOr.mono ?_ (checkCancelled_safe h.running))
    rintro history1 _ ⟨hview1,hlast⟩
    rw [← hview1] at h hready hs htail
    have hmay := h.mayPublish hready hn hs
    refine Prog.SafeOr.bind (Prog.SafeOr.call ⟨h.unfinished,hlast,hmay⟩ ?_)
    intro answer _
    cases answer with
    | error status =>
      refine Prog.SafeOr.bind (failLoad_safe ?_)
      rw [view_publish_error]
      exact ⟨h.running.counts,h.unfinished⟩
    | ok _ =>
      refine Prog.SafeOr.bind (Prog.SafeOr.pure ?_)
      have hview2 := view_publish options history1 (UInt32.ofNat c) shard
      have h2 := h.publish hlt hs
      rw [← hview2] at h2
      refine Prog.SafeOr.bind (Prog.SafeOr.mono ?_ (storeState_safe h2.running))
      intro history3 _ hview3
      rw [← hview3] at h2 hview2
      refine ih h2 ?_ ?_
      · rw [hview2]
        exact hready
      · rw [hview2]
        exact htail

theorem int64_le_max (a b : Int64) : a ≤ max a b ∧ b ≤ max a b := by
  show a ≤ (if a ≤ b then b else a) ∧ b ≤ (if a ≤ b then b else a)
  by_cases h : a ≤ b
  · simp [h]
  · rw [if_neg h]
    exact ⟨Int64.le_refl a,Int64.le_of_lt (Int64.not_le.mp h)⟩

/-- A tracked partition keeps the greatest watermark seen and the last committed offset. -/
structure Tracks (observed : List KafkaProgress) (entry : ArtifactSourceProgress)
    (tracked : KafkaPartitionProgress) : Prop where
  partition : tracked.partition = sourcePartition entry
  artifact_le : entry.highWatermark ≤ tracked.highWatermark
  observed_le : ∀ progress ∈ observed, ∃ seen,
    findProgress progress (sourcePartition entry) = .ok seen ∧
      seen.highWatermark ≤ tracked.highWatermark
  committed : ∀ last ∈ observed.getLast?, ∃ final,
    findProgress last (sourcePartition entry) = .ok final ∧
      final.committedNextOffset = tracked.committedNextOffset

/-- The tracked progress of all source partitions. -/
def TracksAll (observed : List KafkaProgress) (artifact : ParsedArtifact)
    (progress : KafkaProgress) : Prop :=
  List.Forall₂ (Tracks observed) artifact.sourceProgress progress.partitions

theorem tracksAll_buildSafeProgress (artifact : ParsedArtifact) :
    TracksAll [] artifact (buildSafeProgress artifact.sourceProgress) := by
  rw [TracksAll,buildSafeProgress,List.forall₂_map_right_iff]
  refine List.forall₂_same.mpr fun entry _ => ?_
  exact ⟨rfl,Int64.le_refl _,by simp,by simp⟩

theorem Tracks.update {observed : List KafkaProgress} {entry : ArtifactSourceProgress}
    {tracked updated : KafkaPartitionProgress} (h : Tracks observed entry tracked)
    {progress : KafkaProgress} (hu : updateObservedEntry progress tracked = .ok updated) :
    Tracks (observed++[progress]) entry updated := by
  simp only [updateObservedEntry,bind_eq_ok,pure_eq_ok,Except.ok.injEq] at hu
  obtain ⟨seen,hseen,rfl⟩ := hu
  rw [h.partition] at hseen
  obtain ⟨hold,hnew⟩ := int64_le_max tracked.highWatermark seen.highWatermark
  refine ⟨h.partition,Int64.le_trans h.artifact_le hold,?_,?_⟩
  · intro other hother
    rcases List.mem_append.mp hother with hother | hother
    · obtain ⟨e,he,hle⟩ := h.observed_le other hother
      exact ⟨e,he,Int64.le_trans hle hold⟩
    · rw [List.mem_singleton.mp hother]
      exact ⟨seen,hseen,hnew⟩
  · intro last hlast
    rw [List.getLast?_concat,Option.mem_some_iff] at hlast
    subst hlast
    exact ⟨seen,hseen,rfl⟩

theorem forall₂_update {observed : List KafkaProgress} {entries : List ArtifactSourceProgress}
    {tracked updated : List KafkaPartitionProgress} {progress : KafkaProgress}
    (h : List.Forall₂ (Tracks observed) entries tracked)
    (hu : tracked.mapM (updateObservedEntry progress) = .ok updated) :
    List.Forall₂ (Tracks (observed++[progress])) entries updated := by
  induction h generalizing updated with
  | nil =>
    cases hu
    exact List.Forall₂.nil
  | cons hfirst _ ih =>
    simp only [List.mapM_cons,bind_eq_ok,pure_eq_ok,Except.ok.injEq] at hu
    obtain ⟨first,hf,rest,hrest,rfl⟩ := hu
    exact List.Forall₂.cons (hfirst.update hf) (ih hrest)

theorem TracksAll.update {observed : List KafkaProgress} {artifact : ParsedArtifact}
    {target updated progress : KafkaProgress} (h : TracksAll observed artifact target)
    (hu : updateObservedSafeProgress target progress = .ok updated) :
    TracksAll (observed++[progress]) artifact updated := by
  simp only [updateObservedSafeProgress,bind_eq_ok,pure_eq_ok,Except.ok.injEq] at hu
  obtain ⟨_,_,partitions,hm,rfl⟩ := hu
  exact forall₂_update h hm

theorem TracksAll.tracked {observed : List KafkaProgress} {artifact : ParsedArtifact}
    {progress : KafkaProgress} (h : TracksAll observed artifact progress)
    {entry : ArtifactSourceProgress} (he : entry ∈ artifact.sourceProgress) :
    ∃ tracked ∈ progress.partitions, Tracks observed entry tracked := by
  obtain ⟨i,hi⟩ := List.mem_iff_getElem?.mp he
  obtain ⟨hlen,hall⟩ := List.forall₂_iff_get.mp h
  obtain ⟨hlt,heq⟩ := List.getElem?_eq_some_iff.mp hi
  have htracks := hall i hlt (hlen ▸ hlt)
  rw [List.get_eq_getElem,heq] at htracks
  exact ⟨_,List.get_mem _ _,htracks⟩

theorem TracksAll.nothingMissing {observed : List KafkaProgress} {artifact : ParsedArtifact}
    {progress : KafkaProgress} (h : TracksAll observed artifact progress) :
    NothingMissing artifact observed := by
  intro other hother entry he
  obtain ⟨tracked,-,ht⟩ := h.tracked he
  obtain ⟨seen,hseen,-⟩ := ht.observed_le other hother
  exact ⟨seen,hseen⟩

theorem TracksAll.caughtUp {observed : List KafkaProgress} {artifact : ParsedArtifact}
    {progress : KafkaProgress} (h : TracksAll observed artifact progress)
    (hne : observed ≠ []) (hdone : catchUpRequired progress = false) :
    CaughtUp artifact observed := by
  intro entry he
  obtain ⟨tracked,hmem,ht⟩ := h.tracked he
  have hle : tracked.highWatermark ≤ tracked.committedNextOffset := by
    simp only [catchUpRequired,List.any_eq_false,decide_eq_true_eq] at hdone
    exact Int64.not_lt.mp (hdone tracked hmem)
  obtain ⟨last,hlast⟩ := List.getLast?_isSome.mpr hne |> Option.isSome_iff_exists.mp
  obtain ⟨final,hfinal,hcommitted⟩ := ht.committed last hlast
  refine ⟨last,final,hlast,hfinal,?_,?_⟩
  · rw [hcommitted]
    exact Int64.le_trans ht.artifact_le hle
  · intro other hother seen hseen
    obtain ⟨seen',hseen',hle'⟩ := ht.observed_le other hother
    rw [hseen,Except.ok.injEq] at hseen'
    subst hseen'
    rw [hcommitted]
    exact Int64.le_trans hle' hle

/-- A load that follows its runner, with the progress it tracks. -/
structure Following (id : LoadId) (options : ForwardIndexOptions) (v : LoadView) (n : ℕ)
    (backing : MmapSnapshotBacking) (rest : List MmapSnapshotBacking) (target : KafkaProgress)
    (state : LoadState) : Prop where
  stage : Stage id options v n n n 0 state
  backings : v.backings = backing::rest
  starts : v.starts = [catchUpRequest id options backing.artifact]
  tracks : TracksAll v.observed backing.artifact target

variable {backing : MmapSnapshotBacking} {rest : List MmapSnapshotBacking} {target : KafkaProgress}
  {history : List LoadEvent}

theorem Following.calls_nil (h : Following id options v n backing rest target state) : v.calls = [] := by
  rw [h.stage.calls,h.stage.published,List.take_zero]

theorem Following.catchingUp (h : Following id options v n backing rest target state) :
    v.CatchingUp id options := ⟨backing,by rw [h.backings,List.head?_cons],h.starts⟩

theorem Following.mayAsk
    (h : Following id options (view options history) n backing rest target state) :
    (loadRules id options).allowed history .captureSafeProgress ∧
      (loadRules id options).allowed history .pollApplyCommitOnce :=
  ⟨⟨h.stage.unfinished,h.calls_nil,h.stage.complete,h.catchingUp⟩,
    ⟨h.stage.unfinished,h.calls_nil,h.stage.complete,h.catchingUp⟩⟩

theorem Following.observe (h : Following id options v n backing rest target state)
    {progress updated : KafkaProgress}
    (hu : updateObservedSafeProgress target progress = .ok updated) :
    Following id options { v with observed := v.observed++[progress] } n backing rest updated
      { state with sourceProgress := updated } := by
  have htracks := h.tracks.update hu
  have hs := h.stage
  refine ⟨⟨hs.counts.congr rfl rfl rfl rfl rfl,hs.code,hs.terminal,hs.unfinished,?_,hs.loaded,
    hs.prewarmed,hs.calls,hs.published⟩,h.backings,h.starts,htracks⟩
  intro other hother
  simp only [h.backings,List.head?_cons,Option.mem_some_iff] at hother
  rw [← hother]
  exact htracks.nothingMissing

/-- One observation; a partition that is missing in it ends the load. -/
theorem observe_safe (h : Following id options (view options history) n backing rest target state) :
    Prog.SafeOr (loadRules id options) (Ends options)
      (fun after result =>
        Following id options (view options after) n backing rest result.sourceProgress result ∧
          (view options after).observed ≠ []) history (observe target state) := by
  refine Prog.SafeOr.bind (Prog.SafeOr.call h.mayAsk.1 ?_)
  intro captured _
  cases captured with
  | error status =>
    refine Prog.SafeOr.bind (failLoad_safe ?_)
    rw [view_capture_error]
    exact h.stage.running.toStorable
  | ok progress =>
    refine Prog.SafeOr.bind (Prog.SafeOr.pure ?_)
    have hview1 := view_capture options history progress
    cases hu : updateObservedSafeProgress target progress with
    | error status =>
      refine Prog.SafeOr.bind (failLoad_safe ?_)
      rw [hview1]
      exact ⟨h.stage.running.counts,h.stage.unfinished⟩
    | ok updated =>
      refine Prog.SafeOr.bind (Prog.SafeOr.pure ?_)
      have h1 := h.observe hu
      rw [← hview1] at h1
      refine Prog.SafeOr.bind (Prog.SafeOr.mono ?_ (storeState_safe h1.stage.running))
      intro history2 _ hview2
      rw [← hview2] at h1 hview1
      refine Prog.SafeOr.pure ⟨h1,?_⟩
      rw [hview1]
      simp

theorem failPoll_safe {α : Type} {status : Status} {post : List LoadEvent → α → Prop}
    (h : Running (view options history) state) :
    Prog.SafeOr (loadRules id options) (Ends options) post history (failPoll state status) := by
  rw [failPoll]
  by_cases hc : status.code = .kCancelled
  · rw [if_pos hc]
    exact cancelLoad_safe h.toStorable h.complete
  · rw [if_neg hc]
    refine Prog.SafeOr.bind (Prog.SafeOr.call ⟨h.unfinished,trivial⟩ ?_)
    intro cancelled _
    have h' : Running (view options (history++[⟨.isCancelled,cancelled⟩])) state := by
      rwa [view_isCancelled]
    cases cancelled with
    | true => exact cancelLoad_safe h'.toStorable h'.complete
    | false => exact failLoad_safe h'.toStorable

theorem catchUp_safe (fuel : ℕ)
    (h : Following id options (view options history) n backing rest state.sourceProgress state)
    (hne : (view options history).observed ≠ []) :
    Prog.SafeOr (loadRules id options) (Ends options)
      (fun after result =>
        Following id options (view options after) n backing rest result.sourceProgress result ∧
          CaughtUp backing.artifact (view options after).observed) history (catchUp fuel state) := by
  induction fuel generalizing state history with
  | zero =>
    rw [catchUp]
    cases hreq : catchUpRequired state.sourceProgress with
    | true => exact Prog.SafeOr.throw h.stage.complete
    | false => exact Prog.SafeOr.pure ⟨h,h.tracks.caughtUp hne hreq⟩
  | succ fuel ih =>
    rw [catchUp]
    cases hreq : catchUpRequired state.sourceProgress with
    | false => exact Prog.SafeOr.pure ⟨h,h.tracks.caughtUp hne hreq⟩
    | true =>
      rw [if_pos rfl]
      refine Prog.SafeOr.bind (Prog.SafeOr.mono ?_ (checkCancelled_safe h.stage.running))
      rintro history1 _ ⟨hview1,-⟩
      rw [← hview1] at h
      refine Prog.SafeOr.bind (Prog.SafeOr.call h.mayAsk.2 ?_)
      intro polled _
      have h2 : Following id options
          (view options (history1++[⟨.pollApplyCommitOnce,polled⟩])) n backing rest
          state.sourceProgress state := by
        rwa [view_poll]
      cases polled with
      | error status => exact failPoll_safe h2.stage.running
      | ok _ =>
        refine Prog.SafeOr.bind (Prog.SafeOr.mono ?_ (observe_safe h2))
        rintro history3 state3 ⟨h3,hne3⟩
        exact ih h3 hne3

theorem Stage.start (h : Stage id options v n n n 0 state) (hq : Quiet v)
    (hb : v.backings = backing::rest) :
    Following id options
      { v with starts := v.starts++[catchUpRequest id options backing.artifact] } n backing rest
      (buildSafeProgress backing.artifact.sourceProgress) state := by
  refine ⟨⟨h.counts,h.code,h.terminal,h.unfinished,h.complete,h.loaded,h.prewarmed,h.calls,
    h.published⟩,hb,?_,?_⟩
  · rw [hq.starts,List.nil_append]
  · show TracksAll v.observed _ _
    rw [hq.observed]
    exact tracksAll_buildSafeProgress backing.artifact

theorem runCatchUp_safe (fuel : ℕ) (h : Stage id options (view options history) n n n 0 state)
    (hq : Quiet (view options history)) (hb : (view options history).backings = backing::rest) :
    Prog.SafeOr (loadRules id options) (Ends options)
      (fun after result => Stage id options (view options after) n n n 0 result ∧
        (view options after).backings = backing::rest ∧ Ready id options (view options after))
      history (runCatchUp id options fuel backing.artifact state) := by
  refine Prog.SafeOr.bind (Prog.SafeOr.mono ?_ (orFail_safe h.running.toStorable))
  rintro history _ ⟨rfl,-⟩
  refine Prog.SafeOr.bind (Prog.SafeOr.call ⟨h.unfinished,trivial⟩ ?_)
  intro runner _
  rw [← view_createCatchUpRunner options history runner] at h hq hb
  refine Prog.SafeOr.bind (Prog.SafeOr.mono ?_ (orFail_safe h.running.toStorable))
  rintro _ _ ⟨rfl,-⟩
  have h1 := h.congr (h.counts.congr rfl rfl rfl rfl rfl :
    Counts n n n 0 { state with message := "artifact catch-up running" }) rfl rfl
  refine Prog.SafeOr.bind (Prog.SafeOr.mono ?_ (storeState_safe h1.running))
  intro history2 _ hview2
  rw [← hview2] at h1 hq hb
  have hstart : (loadRules id options).allowed history2
      (.start (catchUpRequest id options backing.artifact)) :=
    ⟨h1.unfinished,hq.starts,by rw [h1.calls,h1.published,List.take_zero],backing,
      by rw [hb,List.head?_cons],rfl⟩
  refine Prog.SafeOr.bind (Prog.SafeOr.call hstart ?_)
  intro started _
  cases started with
  | error status =>
    refine Prog.SafeOr.bind (failLoad_safe ?_)
    rw [view_start_error]
    exact h1.running.toStorable
  | ok _ =>
    refine Prog.SafeOr.bind (Prog.SafeOr.pure ?_)
    have h3 := h1.start hq hb
    rw [← view_start] at h3
    refine Prog.SafeOr.bind (Prog.SafeOr.mono ?_ (checkCancelled_safe h3.stage.running))
    rintro history4 _ ⟨hview4,-⟩
    rw [← hview4] at h3
    refine Prog.SafeOr.bind (Prog.SafeOr.mono ?_ (observe_safe h3))
    rintro history5 state5 ⟨h5,hne⟩
    refine Prog.SafeOr.bind (Prog.SafeOr.mono ?_ (catchUp_safe fuel h5 hne))
    rintro history6 state6 ⟨h6,hcaught⟩
    refine Prog.SafeOr.bind (Prog.SafeOr.mono ?_ (checkCancelled_safe h6.stage.running))
    rintro history7 _ ⟨hview7,-⟩
    rw [← hview7] at h6 hcaught
    refine Prog.SafeOr.pure ⟨h6.stage,h6.backings,fun _ => ⟨h6.catchingUp,?_⟩⟩
    intro other hother
    simp only [h6.backings,List.head?_cons,Option.mem_some_iff] at hother
    rwa [← hother]

theorem Counts.initShards {state : LoadState} (h : Counts 0 0 0 0 state) (shardCount : UInt32) :
    Counts shardCount.toNat 0 0 0 (initShards state shardCount) := by
  refine ⟨?_,UInt32.ofNat_toNat.symm,h.loaded,h.prewarmed,h.cutover,le_rfl,le_rfl,Nat.zero_le _,
    shardCount.toNat_lt⟩
  simp [Rebuild.initShards,progressEntry]

theorem Stage.init (h : Stage id options v 0 0 0 0 state) :
    Stage id options v options.shardCount.toNat 0 0 0 (initShards state options.shardCount) :=
  ⟨h.counts.initShards _,h.code,h.terminal,h.unfinished,h.complete,h.loaded,h.prewarmed,h.calls,
    h.published⟩

theorem initialStage (id : LoadId) (options : ForwardIndexOptions) (request : LoadRequest) :
    Stage id options (view options []) 0 0 0 0 (initialState request id) ∧
      Quiet (view options []) := by
  have hq : Quiet (view options []) := ⟨rfl,rfl⟩
  exact ⟨⟨⟨rfl,rfl,rfl,rfl,rfl,le_rfl,le_rfl,le_rfl,by decide⟩,rfl,rfl,rfl,hq.complete,rfl,rfl,rfl,
    rfl⟩,hq⟩

theorem catchUpPart_safe (fuel : ℕ) (hn : 0 < n)
    (h : Stage id options (view options history) n n n 0 state) (hq : Quiet (view options history)) :
    Prog.SafeOr (loadRules id options) (Ends options)
      (fun after result => Stage id options (view options after) n n n 0 result ∧
        (view options after).backings = (view options history).backings ∧
        Ready id options (view options after)) history
      (catchUpPart id options fuel (view options history).backings state) := by
  unfold catchUpPart
  cases hmode : forwardIndexModeUsesKafkaRealtime options.mode with
  | false =>
    rw [if_neg (by simp)]
    refine Prog.SafeOr.pure ⟨h.congr (h.counts.congr rfl rfl rfl rfl rfl) rfl rfl,rfl,?_⟩
    intro hkafka
    rw [hmode] at hkafka
    cases hkafka
  | true =>
    rw [if_pos rfl]
    cases hb : (view options history).backings with
    | nil =>
      have hlen := h.backings_length
      rw [hb,List.length_nil] at hlen
      omega
    | cons backing rest => exact runCatchUp_safe fuel h hq hb

theorem loadArtifact_safe (request : LoadRequest) (hasPublish : Bool) (fuel : ℕ) :
    Prog.SafeOr (loadRules id options) (Ends options) (Ends options) []
      (loadArtifact request id options hasPublish fuel) := by
  obtain ⟨h,hq⟩ := initialStage id options request
  refine Prog.SafeOr.bind (Prog.SafeOr.mono ?_ (storeState_safe h.running))
  intro history _ hview
  rw [← hview] at h hq
  refine Prog.SafeOr.bind (Prog.SafeOr.mono ?_ (orFail_safe h.running.toStorable))
  rintro history _ ⟨rfl,-⟩
  refine Prog.SafeOr.bind (Prog.SafeOr.mono ?_ (orFail_safe h.running.toStorable))
  rintro history _ ⟨rfl,-⟩
  refine Prog.SafeOr.bind (Prog.SafeOr.mono ?_ (checkCancelled_safe h.running))
  rintro history1 _ ⟨hview1,-⟩
  rw [← hview1] at h hq
  have h1 := h.init
  have hnil : (view options history1).backings = [] := List.length_eq_zero_iff.mp h.backings_length
  have hload := loadShards_safe request options.shardCount.toNat h1 hq (Nat.zero_add _)
  rw [hnil,← List.range_eq_range'] at hload
  refine Prog.SafeOr.bind (Prog.SafeOr.mono ?_ hload)
  rintro history2 ⟨state2,backings⟩ ⟨h2,hq2,rfl⟩
  have hwarm := prewarmShards_safe options.shardCount.toNat h2 hq2 (Nat.zero_add _)
  rw [← List.range_eq_range'] at hwarm
  refine Prog.SafeOr.bind (Prog.SafeOr.mono ?_ hwarm)
  rintro history3 state3 ⟨h3,hq3,hback3⟩
  simp only [← hback3]
  refine Prog.SafeOr.bind (Prog.SafeOr.mono ?_ (catchUpPart_safe fuel
    (shardCount_pos options) h3 hq3))
  rintro history4 state4 ⟨h4,hback4,hready⟩
  rw [← hback4]
  refine Prog.SafeOr.bind (Prog.SafeOr.mono ?_
    (cutoverShards_safe rfl _ h4 hready List.drop_zero.symm))
  intro history5 state5 h5
  have hall : (view options history5).published.length = options.shardCount.toNat := by
    obtain ⟨n,l,p,c,hcounts,hlen⟩ := h5.running.counts
    rw [hlen,← hcounts.cutover_toNat,h5.counts.cutover_toNat]
  refine storeAndReturn_safe ?_ rfl (by simp) (fun _ => hall) (fun _ => rfl)
    (Or.inl h5.complete)
  exact ⟨⟨_,_,_,_,h5.counts.congr rfl rfl rfl rfl rfl,hall⟩,h5.unfinished⟩

end Stage

theorem runExternalArtifactLoad_safe (request : LoadRequest) (id : LoadId)
    (options : ForwardIndexOptions) (hasPublish : Bool) (fuel : ℕ) :
    Prog.Safe (loadRules id options) (Ends options) []
      (runExternalArtifactLoad request id options hasPublish fuel) := by
  refine Prog.Safe.bind (Prog.Safe.mono ?_ (loadArtifact_safe request hasPublish fuel))
  intro history result h
  cases result with
  | error outcome => exact h
  | ok outcome => exact h

/-- The events are those of a load, which has returned `out` or still runs. -/
def LoadRun (request : LoadRequest) (id : LoadId) (options : ForwardIndexOptions)
    (hasPublish : Bool) (fuel : ℕ) (events : List LoadEvent) (out : Option LoadOutcome) : Prop :=
  Prog.Emits (runExternalArtifactLoad request id options hasPublish fuel) events out

section Run

variable {request : LoadRequest} {id : LoadId} {options : ForwardIndexOptions} {hasPublish : Bool}
  {fuel : ℕ} {events : List LoadEvent} {out : Option LoadOutcome}

theorem LoadRun.allowed (h : LoadRun request id options hasPublish fuel events out)
    {before after : List LoadEvent} {event : LoadEvent} (he : events = before++event::after) :
    (loadRules id options).allowed before event.1 :=
  ((runExternalArtifactLoad_safe request id options hasPublish fuel).emits h
    (fun _ _ _ _ => trivial)).1 before event after he

theorem LoadRun.ends (h : LoadRun request id options hasPublish fuel events out)
    {outcome : LoadOutcome} (ho : out = some outcome) : Ends options events outcome :=
  ((runExternalArtifactLoad_safe request id options hasPublish fuel).emits h
    (fun _ _ _ _ => trivial)).2 outcome ho

theorem LoadRun.mayPublish (h : LoadRun request id options hasPublish fuel events out)
    {before after : List LoadEvent} {shardId : UInt32} {shard : PublishedShard}
    {answer : StatusOr Unit} (he : events = before++⟨.publishShard shardId shard,answer⟩::after) :
    (view options before).MayPublish id options shardId shard := (h.allowed he).2.2

theorem mem_observedProgress {progress : KafkaProgress} (h : progress ∈ observedProgress events) :
    ∃ before after, events = before++⟨.captureSafeProgress,.ok progress⟩::after := by
  obtain ⟨⟨op,answer⟩,hmem,heq⟩ := List.mem_filterMap.mp h
  cases op with
  | captureSafeProgress =>
    cases answer with
    | error status => simp at heq
    | ok other =>
      simp only [Option.some.injEq] at heq
      rw [heq] at hmem
      exact List.append_of_mem hmem
  | _ => simp at heq

theorem mem_publishCalls {shard : PublishedShard} (h : shard ∈ publishCalls events) :
    ∃ before shardId answer after, events = before++⟨.publishShard shardId shard,answer⟩::after := by
  obtain ⟨⟨op,answer⟩,hmem,heq⟩ := List.mem_filterMap.mp h
  cases op with
  | publishShard shardId other =>
    simp only [Option.some.injEq] at heq
    rw [heq] at hmem
    obtain ⟨before,after,he⟩ := List.append_of_mem hmem
    exact ⟨before,shardId,answer,after,he⟩
  | _ => simp at heq

theorem mem_storedStates {state : LoadState} (h : state ∈ storedStates events) :
    ∃ before after, events = before++⟨.storeState state,()⟩::after := by
  obtain ⟨⟨op,answer⟩,hmem,heq⟩ := List.mem_filterMap.mp h
  cases op with
  | storeState other =>
    simp only [Option.some.injEq] at heq
    rw [heq] at hmem
    exact List.append_of_mem hmem
  | _ => simp at heq

theorem shardIds_take {n k : ℕ} (h : k ≤ n) : (shardIds n).take k = shardIds k := by
  rw [shardIds,← List.map_take,List.take_range,min_eq_left h,shardIds]

theorem shardStates_shardId (backings : List MmapSnapshotBacking) :
    (shardStates id options backings).map (·.shardId) = shardIds backings.length := by
  refine List.ext_getElem? fun i => ?_
  by_cases hi : i < backings.length
  · simp [shardStates,shardIds,hi]
  · simp [shardStates,shardIds,hi]

/-- The shards come out in the order of their ids, and behind one that was refused
none comes. -/
theorem LoadRun.publishCalls_ids (h : LoadRun request id options hasPublish fuel events out) :
    ∃ k ≤ options.shardCount.toNat, (publishCalls events).map (·.shardId) = shardIds k ∧
      publishedShards events <+: publishCalls events := by
  induction events using List.reverseRecOn generalizing out with
  | nil => exact ⟨0,Nat.zero_le _,rfl,List.prefix_refl _⟩
  | append_singleton events event ih =>
    obtain ⟨k,hk,hcalls,hpub⟩ := ih h.before
    have hcallsSame := @publishCalls_silent events event
    have hpubSame := @publishedShards_silent events event
    obtain ⟨op,answer⟩ := event
    cases op with
    | publishShard shardId shard =>
      have hmay := h.mayPublish rfl
      have hlen : (loadedBackings options events).length = options.shardCount.toNat := by
        have := congrArg List.length hmay.loaded
        simpa [shardIds,view] using this
      have hlt : shardId.toNat < options.shardCount.toNat := by
        have := (List.getElem?_eq_some_iff.mp hmay.shard).1
        rwa [shardStates_length,show (view options events).backings.length = _ from hlen] at this
      have hshard : shard.shardId = UInt32.ofNat shardId.toNat := by
        have hs := hmay.shard
        rw [shardStates,List.getElem?_mapIdx,Option.map_eq_some_iff] at hs
        obtain ⟨_,_,rfl⟩ := hs
        rfl
      have hcalls' : publishCalls events =
          (shardStates id options (loadedBackings options events)).take shardId.toNat := hmay.calls
      have hsame : publishedShards events = publishCalls events := hmay.published
      have happ : publishCalls (events++[⟨.publishShard shardId shard,answer⟩]) =
          publishCalls events++[shard] := publishCalls_append _ _
      rw [happ]
      refine ⟨shardId.toNat+1,hlt,?_,?_⟩
      · rw [hcalls',List.map_append,List.map_take,shardStates_shardId,hlen,
          shardIds_take hlt.le,shardIds_succ,List.map_singleton,hshard]
      · have hcall : publishedShards [⟨.publishShard shardId shard,answer⟩] <+: [shard] := by
          cases answer with
          | ok _ => exact List.prefix_refl _
          | error status => exact List.nil_prefix
        rw [publishedShards_append,hsame]
        exact (List.prefix_append_right_inj _).mpr hcall
    | _ =>
      rw [hcallsSame rfl,hpubSame rfl]
      exact ⟨k,hk,hcalls,hpub⟩

theorem loadedBackings_head {before : List LoadEvent} (after : List LoadEvent)
    (hne : loadedBackings options before ≠ []) :
    (loadedBackings options (before++after)).head? = (loadedBackings options before).head? := by
  rw [loadedBackings_append]
  exact List.head?_append_of_ne_nil _ hne

theorem MayPublish.backings_ne_nil {v : LoadView} {shardId : UInt32} {shard : PublishedShard}
    (h : v.MayPublish id options shardId shard) : v.backings ≠ [] := by
  intro hnil
  have hlen := congrArg List.length h.loaded
  have hpos := shardCount_pos options
  rw [hnil] at hlen
  simp [shardIds] at hlen
  omega

/-- After a response in which a partition was missing, nothing is published. -/
theorem LoadRun.publishCalls_eq_nil (h : LoadRun request id options hasPublish fuel events out)
    {progress : KafkaProgress} (hp : progress ∈ observedProgress events)
    {backing : MmapSnapshotBacking} (hb : backing ∈ (loadedBackings options events).head?)
    {entry : ArtifactSourceProgress} (he : entry ∈ backing.artifact.sourceProgress)
    (hmissing : ∀ seen, findProgress progress (sourcePartition entry) ≠ .ok seen) :
    publishCalls events = [] := by
  by_contra hne
  obtain ⟨shard,hshard⟩ := List.exists_mem_of_ne_nil _ hne
  obtain ⟨before,shardId,answer,after,hevents⟩ := mem_publishCalls hshard
  have hmay := h.mayPublish hevents
  obtain ⟨before',after',hevents'⟩ := mem_observedProgress hp
  rw [hevents] at hevents'
  rcases List.append_eq_append_iff.mp hevents' with ⟨mid,hbefore,hafter⟩ | ⟨mid,hbefore,hafter⟩
  · -- the response comes behind the publish
    cases mid with
    | nil => simp at hafter
    | cons first mid =>
      rw [List.cons_append,List.cons.injEq] at hafter
      obtain ⟨rfl,-⟩ := hafter
      have hcalls : publishCalls before' = [] := (h.allowed (hevents.trans hevents')).2.1
      rw [hbefore] at hcalls
      rw [publishCalls_append] at hcalls
      exact List.cons_ne_nil _ _ (List.append_eq_nil_iff.mp hcalls).2
  · -- the publish comes behind the response
    have hhead := loadedBackings_head (⟨.publishShard shardId shard,answer⟩::after)
      (MayPublish.backings_ne_nil hmay)
    rw [← hevents] at hhead
    rw [hhead] at hb
    cases mid with
    | nil => simp at hafter
    | cons first mid =>
      rw [List.cons_append,List.cons.injEq] at hafter
      obtain ⟨rfl,-⟩ := hafter
      have hmem : progress ∈ observedProgress before := by
        rw [hbefore,observedProgress_append]
        exact List.mem_append_right _ List.mem_cons_self
      obtain ⟨seen,hseen⟩ := hmay.complete backing hb progress hmem entry he
      exact hmissing seen hseen

/-- Cutover waits for the greatest watermark ever observed, and a response in which a source
partition is missing ends the load. The artifact is that of the first shard's file. -/
theorem cutover_waits_for_greatestWatermark (request : LoadRequest) (id : LoadId)
    (options : ForwardIndexOptions) (hasPublish : Bool) (fuel : ℕ)
    (hmode : forwardIndexModeUsesKafkaRealtime options.mode = true) (events : List LoadEvent)
    (out : Option LoadOutcome) (h : LoadRun request id options hasPublish fuel events out) :
    (∀ before shardId shard answer after,
      events = before++⟨.publishShard shardId shard,answer⟩::after →
        (loadedBackings options before).map (·.shardId) = shardIds options.shardCount.toNat ∧
        prewarmedShards before = shardIds options.shardCount.toNat ∧
        ∀ backing ∈ (loadedBackings options before).head?,
          CaughtUp backing.artifact (observedProgress before)) ∧
    ∀ backing ∈ (loadedBackings options events).head?, ∀ progress ∈ observedProgress events,
      ∀ entry ∈ backing.artifact.sourceProgress,
        (∀ seen, findProgress progress (sourcePartition entry) ≠ .ok seen) →
          publishCalls events = [] ∧ ∀ outcome, out = some outcome →
            ∃ status state, outcome = some (.error status,state) ∧ state.code = .kFailed := by
  refine ⟨?_,?_⟩
  · intro before shardId shard answer after hevents
    have hmay := h.mayPublish hevents
    exact ⟨hmay.loaded,hmay.prewarmed,(hmay.caughtUp hmode).2⟩
  · intro backing hb progress hp entry he hmissing
    refine ⟨h.publishCalls_eq_nil hp hb he hmissing,?_⟩
    intro outcome ho
    have hincomplete : ¬(view options events).Complete := by
      intro hcomplete
      obtain ⟨seen,hseen⟩ := hcomplete backing hb progress hp entry he
      exact hmissing seen hseen
    have hends := h.ends ho
    match outcome,hends with
    | none,hends => exact absurd hends hincomplete
    | some (status,state),hends =>
      obtain ⟨hstatus,hcode⟩ := hends.failed.resolve_left hincomplete
      cases status with
      | ok _ => exact absurd rfl hstatus
      | error status => exact ⟨status,state,rfl,hcode⟩

end Run

def sampleIndex : ForwardIndexOptions := { shardCount := 1 }

def sampleRequest : LoadRequest := { artifactUri := [117] }

/-- The partition of the sample artifact, caught up with its source. -/
def caughtUpProgress : KafkaProgress where
  partitions := [{ partition := ⟨[116],0⟩,committedNextOffset := 8,highWatermark := 8 }]

def sampleAnswer : (op : LoadOp) → LoadRes op
  | .storeState _ => ()
  | .isCancelled => false
  | .mapShardFile _ _ => .ok sampleFile
  | .prewarm _ => .ok ()
  | .createCatchUpRunner => .ok ()
  | .start _ => .ok ()
  | .captureSafeProgress => .ok caughtUpProgress
  | .pollApplyCommitOnce => .ok ()
  | .publishShard _ _ => .ok ()

/-- The watermark is 9 before the first poll and falls back to 7 behind it. -/
def fallingProgress (polls : ℕ) : KafkaProgress where
  partitions := [{ partition := ⟨[116],0⟩
                   committedNextOffset := if polls = 0 then 6 else 9
                   highWatermark := if polls = 0 then 9 else 7 }]

def fallingAnswer : (op : LoadOp) → ℕ → LoadRes op×ℕ
  | .captureSafeProgress,polls => (.ok (fallingProgress polls),polls)
  | .pollApplyCommitOnce,polls => (.ok (),polls+1)
  | .storeState state,polls => (sampleAnswer (.storeState state),polls)
  | .isCancelled,polls => (sampleAnswer .isCancelled,polls)
  | .mapShardFile uri shardId,polls => (sampleAnswer (.mapShardFile uri shardId),polls)
  | .prewarm shardId,polls => (sampleAnswer (.prewarm shardId),polls)
  | .createCatchUpRunner,polls => (sampleAnswer .createCatchUpRunner,polls)
  | .start request,polls => (sampleAnswer (.start request),polls)
  | .publishShard shardId shard,polls => (sampleAnswer (.publishShard shardId shard),polls)

def fallingEvents : List LoadEvent :=
  (runExternalArtifactLoad sampleRequest 1 sampleIndex true 3).trace fallingAnswer 0

theorem fallingEvents_published : (publishCalls fallingEvents).length = 1 ∧
    observedProgress fallingEvents = [fallingProgress 0,fallingProgress 1] := by
  unfold fallingEvents fallingAnswer sampleAnswer
  rw [sampleFile_eq]
  decide +kernel

theorem cutover_waits_sample :
    observedProgress fallingEvents = [fallingProgress 0,fallingProgress 1] ∧
    ∃ before shardId shard answer after,
      fallingEvents = before++⟨.publishShard shardId shard,answer⟩::after ∧
      prewarmedShards before = shardIds 1 ∧
      ∀ backing ∈ (loadedBackings sampleIndex before).head?,
        CaughtUp backing.artifact (observedProgress before) := by
  obtain ⟨shard,hshard⟩ := List.exists_mem_of_length_pos
    (show 0 < (publishCalls fallingEvents).length by rw [fallingEvents_published.1]; decide)
  obtain ⟨before,shardId,answer,after,hevents⟩ := mem_publishCalls hshard
  obtain ⟨-,hprewarmed,hcaught⟩ := (cutover_waits_for_greatestWatermark sampleRequest 1 sampleIndex
    true 3 rfl fallingEvents _ (Prog.trace_emits _ _ _)).1 before shardId shard answer after hevents
  exact ⟨fallingEvents_published.2,before,shardId,shard,answer,after,hevents,hprewarmed,hcaught⟩

end Rebuild
end KvIndex
