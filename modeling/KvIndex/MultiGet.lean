import KvIndex.LoadedRows

/-! `ForwardIndex::MGet` over the shard directory (`api/forward_index.cc`,
`runtime/shard_directory.cc`). The keys are scattered to their shards, every shard is loaded
once, and the rows are gathered at the positions of their keys; publishes may come between
any two loads. -/
namespace KvIndex
namespace Runtime

open Base Rebuild

abbrev OrThrow := Except String

/-- The text of `ThrowStatus`. -/
def thrownText (status : Status) : String :=
  if status.message.isEmpty then "forward index read failed" else status.message

def orThrow {α : Type} : StatusOr α → OrThrow α
  | .ok a => .ok a
  | .error status => .error (thrownText status)

/-- The options of an index with the directory that its constructor sizes by them. -/
structure ForwardIndex where
  options : ForwardIndexOptions
  directory : ShardDirectory ShardState
  directory_length : directory.shards.length = options.shardCount.toNat

namespace ForwardIndex

def create (options : ForwardIndexOptions) : ForwardIndex where
  options := options
  directory := .create options.shardCount
  directory_length := List.length_replicate

def publish (index : ForwardIndex) (shardId : UInt32) (state : Option ShardState) : ForwardIndex where
  options := index.options
  directory := (index.directory.publish shardId state).2
  directory_length :=
    (index.directory.publish_length shardId state).trans index.directory_length

variable (index : ForwardIndex)

def shardFor (primaryKey : UInt64) : UInt32 := Rebuild.ForwardIndex.shardFor index.options primaryKey

def get (primaryKey : UInt64) : OrThrow (Option Row) := do
  match ← orThrow (index.directory.load (index.shardFor primaryKey)) with
  | none => return none
  | some shard => orThrow (shard.get primaryKey)

/-- `positions_by_shard`: the positions of the keys of every shard. -/
def positionsByShard (primaryKeys : List UInt64) : List (List ℕ) :=
  (List.range primaryKeys.length).foldl (fun positionsByShard i =>
      positionsByShard.modify (index.shardFor (primaryKeys.getD i 0)).toNat (·++[i]))
    (List.replicate index.options.shardCount.toNat [])

/-- `rows[positions[i]] = shard_rows[i]` for every `i`. -/
def gatherRows (rows : List (Option Row)) (positions : List ℕ) (shardRows : List (Option Row)) :
    List (Option Row) :=
  (positions.zip shardRows).foldl (fun rows entry => rows.set entry.1 entry.2) rows

/-- One turn of the shard loop of `MGet`, with the rows found so far. -/
def mGetShard (primaryKeys : List UInt64) (shardId : ℕ) (rows : List (Option Row)) :
    OrThrow (List (Option Row)) :=
  let positions := (index.positionsByShard primaryKeys).getD shardId []
  if positions.isEmpty then .ok rows
  else do
    match ← orThrow (index.directory.load (UInt32.ofNat shardId)) with
    | none => return rows
    | some shard =>
      let shardRows ← orThrow (shard.mGet (positions.map fun position => primaryKeys.getD position 0))
      if shardRows.length ≠ positions.length then
        throw "shard returned a row count that does not match request count"
      return gatherRows rows positions shardRows

def mGet (primaryKeys : List UInt64) : OrThrow (List (Option Row)) :=
  (List.range index.options.shardCount.toNat).foldlM
    (fun rows shardId => index.mGetShard primaryKeys shardId rows)
    (List.replicate primaryKeys.length none)

end ForwardIndex

/-- A publish of another thread, or the next turn of the shard loop. -/
inductive MGetEvent
  | publish (shardId : UInt32) (state : Option ShardState)
  | nextShard

/-- A running call: the index as it is now, the next shard of the loop, and the rows. -/
structure MGetCall where
  index : ForwardIndex
  shardId : ℕ
  rows : OrThrow (List (Option Row))

namespace MGetCall

def start (index : ForwardIndex) (primaryKeys : List UInt64) : MGetCall where
  index := index
  shardId := 0
  rows := .ok (List.replicate primaryKeys.length none)

def step (primaryKeys : List UInt64) (call : MGetCall) : MGetEvent → MGetCall
  | .publish shardId state => { call with index := call.index.publish shardId state }
  | .nextShard =>
    if call.shardId < call.index.options.shardCount.toNat then
      { call with
        shardId := call.shardId+1
        rows := call.rows >>= call.index.mGetShard primaryKeys call.shardId }
    else call

def run (index : ForwardIndex) (primaryKeys : List UInt64) (events : List MGetEvent) : MGetCall :=
  events.foldl (step primaryKeys) (start index primaryKeys)

/-- The loop is over and the call returns the rows. -/
def Returns (call : MGetCall) (rows : List (Option Row)) : Prop :=
  call.shardId = call.index.options.shardCount.toNat ∧ call.rows = .ok rows

theorem run_snoc (index : ForwardIndex) (primaryKeys : List UInt64) (events : List MGetEvent)
    (event : MGetEvent) :
    run index primaryKeys (events++[event]) = (run index primaryKeys events).step primaryKeys event := by
  rw [run,List.foldl_append]
  rfl

theorem run_options (index : ForwardIndex) (primaryKeys : List UInt64) (events : List MGetEvent) :
    (run index primaryKeys events).index.options = index.options := by
  induction events using List.reverseRecOn with
  | nil => rfl
  | append_singleton events event ih =>
    rw [run_snoc]
    cases event with
    | publish shardId state => exact ih
    | nextShard =>
      rw [step]
      split_ifs
      · exact ih
      · exact ih

end MGetCall

namespace ForwardIndex

variable {index : ForwardIndex} {primaryKeys : List UInt64} {shardId : ℕ}

theorem shardFor_lt_count (index : ForwardIndex) (primaryKey : UInt64) :
    (index.shardFor primaryKey).toNat < index.options.shardCount.toNat :=
  shardFor_lt index.options primaryKey

/-- The scatter loop after its first `n` turns. -/
theorem scatter_getElem? (hshard : shardId < index.options.shardCount.toNat) (n : ℕ) :
    ((List.range n).foldl (fun positionsByShard i =>
        positionsByShard.modify (index.shardFor (primaryKeys.getD i 0)).toNat (·++[i]))
      (List.replicate index.options.shardCount.toNat []))[shardId]? =
      some ((List.range n).filter fun i =>
        (index.shardFor (primaryKeys.getD i 0)).toNat == shardId) := by
  induction n with
  | zero => simp [hshard]
  | succ n ih =>
    rw [List.range_succ,List.foldl_append,List.filter_append,List.foldl_cons,List.foldl_nil,
      List.getElem?_modify,ih]
    by_cases h : (index.shardFor (primaryKeys.getD n 0)).toNat = shardId
    · have hfilter : [n].filter (fun i =>
          (index.shardFor (primaryKeys.getD i 0)).toNat == shardId) = [n] :=
        List.filter_cons_of_pos (beq_iff_eq.mpr h)
      rw [hfilter,Option.map_eq_map,Option.map_some,if_pos h]
    · have hfilter : [n].filter (fun i =>
          (index.shardFor (primaryKeys.getD i 0)).toNat == shardId) = [] :=
        List.filter_cons_of_neg (by rwa [beq_iff_eq])
      rw [hfilter,List.append_nil,Option.map_eq_map,Option.map_some,if_neg h]

theorem positionsByShard_getD (hshard : shardId < index.options.shardCount.toNat) :
    (index.positionsByShard primaryKeys).getD shardId [] =
      (List.range primaryKeys.length).filter fun i =>
        (index.shardFor (primaryKeys.getD i 0)).toNat == shardId := by
  rw [positionsByShard,List.getD_eq_getElem?_getD,scatter_getElem? hshard,Option.getD_some]

theorem mem_positionsByShard (hshard : shardId < index.options.shardCount.toNat) {i : ℕ} :
    i ∈ (index.positionsByShard primaryKeys).getD shardId [] ↔
      ∃ primaryKey, primaryKeys[i]? = some primaryKey ∧
        (index.shardFor primaryKey).toNat = shardId := by
  rw [positionsByShard_getD hshard,List.mem_filter,List.mem_range,beq_iff_eq]
  constructor
  · rintro ⟨hi,hrouted⟩
    rw [List.getD_eq_getElem _ _ hi] at hrouted
    exact ⟨primaryKeys[i],List.getElem?_eq_getElem hi,hrouted⟩
  · rintro ⟨primaryKey,hkey,hrouted⟩
    refine ⟨(List.getElem?_eq_some_iff.mp hkey).1,?_⟩
    rw [List.getD_eq_getElem?_getD,hkey]
    exact hrouted

theorem gatherRows_spec {P : ℕ → Option Row → Prop} {positions : List ℕ}
    {shardRows : List (Option Row)} (h : List.Forall₂ P positions shardRows)
    (hnodup : positions.Nodup) {rows : List (Option Row)} (hlt : ∀ i ∈ positions, i < rows.length) :
    (gatherRows rows positions shardRows).length = rows.length ∧
    (∀ i ∉ positions, (gatherRows rows positions shardRows)[i]? = rows[i]?) ∧
    ∀ i ∈ positions, ∃ row, (gatherRows rows positions shardRows)[i]? = some row ∧ P i row := by
  induction h generalizing rows with
  | nil => exact ⟨rfl,fun i _ => rfl,fun i hi => absurd hi List.not_mem_nil⟩
  | @cons position row positions shardRows hrow hrest ih =>
    obtain ⟨hfresh,hnodup⟩ := List.nodup_cons.mp hnodup
    have hlt' : ∀ i ∈ positions, i < (rows.set position row).length := fun i hi => by
      rw [List.length_set]
      exact hlt i (List.mem_cons_of_mem _ hi)
    obtain ⟨hlength,hkept,hset⟩ := ih hnodup hlt'
    have hunfold : gatherRows rows (position::positions) (row::shardRows) =
        gatherRows (rows.set position row) positions shardRows := rfl
    rw [hunfold]
    refine ⟨hlength.trans List.length_set,?_,?_⟩
    · intro i hi
      rw [List.mem_cons,not_or] at hi
      rw [hkept i hi.2,List.getElem?_set_ne (Ne.symm hi.1)]
    · intro i hi
      rcases List.mem_cons.mp hi with rfl | hi
      · refine ⟨row,?_,hrow⟩
        rw [hkept i hfresh,List.getElem?_set_self (hlt i List.mem_cons_self)]
      · exact hset i hi

theorem load_eq (hshard : shardId < index.options.shardCount.toNat) :
    index.directory.load (UInt32.ofNat shardId) =
      .ok (index.directory.shards.getD shardId none) := by
  have hcount := index.options.shardCount.toNat_lt
  have hid : (UInt32.ofNat shardId).toNat = shardId := toNat_ofNat (by omega)
  have hsome := List.getElem?_eq_getElem (index.directory_length ▸ hshard)
  rw [ShardDirectory.load,hid,List.getD_eq_getElem?_getD,hsome]
  rfl

def answerOf (state : Option ShardState) (primaryKey : UInt64) : OrThrow (Option Row) :=
  match state with
  | none => .ok none
  | some shard => orThrow (shard.get primaryKey)

theorem get_eq_answerOf {primaryKey : UInt64} (h : (index.shardFor primaryKey).toNat = shardId) :
    index.get primaryKey = answerOf (index.directory.shards.getD shardId none) primaryKey := by
  have hlt := index.shardFor_lt_count primaryKey
  have hid : index.shardFor primaryKey = UInt32.ofNat shardId := by
    rw [← h,UInt32.ofNat_toNat]
  rw [ForwardIndex.get,hid,load_eq (h ▸ hlt)]
  cases index.directory.shards.getD shardId none with
  | none => rfl
  | some shard => rfl

/-- A turn either gives every key of the shard what `Get` gives, or throws what it throws. -/
theorem mGetShard_cases (hshard : shardId < index.options.shardCount.toNat)
    {rows : List (Option Row)} (hlength : rows.length = primaryKeys.length)
    (hempty : ∀ (i : ℕ) primaryKey, primaryKeys[i]? = some primaryKey →
      (index.shardFor primaryKey).toNat = shardId → rows[i]? = some none) :
    (∃ next, index.mGetShard primaryKeys shardId rows = .ok next ∧ next.length = rows.length ∧
      (∀ (i : ℕ) primaryKey, primaryKeys[i]? = some primaryKey →
        (index.shardFor primaryKey).toNat ≠ shardId → next[i]? = rows[i]?) ∧
      ∀ (i : ℕ) primaryKey, primaryKeys[i]? = some primaryKey →
        (index.shardFor primaryKey).toNat = shardId →
        ∃ row, next[i]? = some row ∧ index.get primaryKey = .ok row) ∨
    ∃ text, index.mGetShard primaryKeys shardId rows = .error text ∧
      ∃ primaryKey ∈ primaryKeys, index.get primaryKey = .error text := by
  have hmem : ∀ i, i ∈ (index.positionsByShard primaryKeys).getD shardId [] ↔
      ∃ primaryKey, primaryKeys[i]? = some primaryKey ∧
        (index.shardFor primaryKey).toNat = shardId := fun _ => mem_positionsByShard hshard
  have hnodup : ((index.positionsByShard primaryKeys).getD shardId []).Nodup := by
    rw [positionsByShard_getD hshard]
    exact List.nodup_range.filter _
  rw [mGetShard,load_eq hshard]
  generalize hpositions : (index.positionsByShard primaryKeys).getD shardId [] = positions at *
  cases hnil : positions.isEmpty with
  | true =>
    -- No key of this shard was asked for.
    rw [List.isEmpty_iff.mp hnil] at hmem
    refine Or.inl ⟨rows,rfl,rfl,fun _ _ _ _ => rfl,fun i primaryKey hkey hrouted => ?_⟩
    exact absurd ((hmem i).mpr ⟨primaryKey,hkey,hrouted⟩) List.not_mem_nil
  | false =>
    cases hstate : index.directory.shards.getD shardId none with
    | none =>
      refine Or.inl ⟨rows,rfl,rfl,fun _ _ _ _ => rfl,fun i primaryKey hkey hrouted => ?_⟩
      refine ⟨none,hempty i primaryKey hkey hrouted,?_⟩
      rw [get_eq_answerOf hrouted,hstate]
      rfl
    | some shard =>
      have hget : ∀ {primaryKey}, (index.shardFor primaryKey).toNat = shardId →
          index.get primaryKey = orThrow (shard.get primaryKey) := fun hrouted => by
        rw [get_eq_answerOf hrouted,hstate]
        rfl
      have hkeyOf : ∀ {i : ℕ} {primaryKey}, primaryKeys[i]? = some primaryKey →
          primaryKeys.getD i 0 = primaryKey := fun hkey => by
        rw [List.getD_eq_getElem?_getD,hkey,Option.getD_some]
      rw [if_neg Bool.false_ne_true]
      cases hrows : shard.mGet (positions.map fun position => primaryKeys.getD position 0) with
      | error status =>
        obtain ⟨primaryKey,hprimaryKey,hfailed⟩ := mapM_error hrows
        obtain ⟨i,hi,rfl⟩ := List.mem_map.mp hprimaryKey
        obtain ⟨primaryKey,hkey,hrouted⟩ := (hmem i).mp hi
        rw [hkeyOf hkey] at hfailed
        refine Or.inr ⟨thrownText status,?_,primaryKey,List.mem_of_getElem? hkey,?_⟩
        · change (orThrow (shard.mGet _) >>= _) = _
          rw [hrows]
          rfl
        · rw [hget hrouted,hfailed]
          rfl
      | ok shardRows =>
        have hfound := mapM_eq_ok.mp hrows
        rw [List.forall₂_map_left_iff] at hfound
        have hcount : ¬shardRows.length ≠ positions.length := by
          rw [hfound.length_eq,ne_eq,not_not]
        obtain ⟨hlen,hkept,hset⟩ := gatherRows_spec hfound hnodup fun i hi => by
          obtain ⟨primaryKey,hkey,_⟩ := (hmem i).mp hi
          rw [hlength]
          exact (List.getElem?_eq_some_iff.mp hkey).1
        refine Or.inl ⟨gatherRows rows positions shardRows,?_,hlen,?_,?_⟩
        · change (orThrow (shard.mGet _) >>= _) = _
          rw [hrows]
          change (if shardRows.length ≠ positions.length then _ else _) = _
          rw [if_neg hcount]
          rfl
        · intro i primaryKey hkey hrouted
          refine hkept i fun hi => hrouted ?_
          obtain ⟨primaryKey',hkey',hrouted'⟩ := (hmem i).mp hi
          rw [hkey,Option.some.injEq] at hkey'
          rw [hkey',hrouted']
        · intro i primaryKey hkey hrouted
          obtain ⟨row,hrow,hshardGet⟩ := hset i ((hmem i).mpr ⟨primaryKey,hkey,hrouted⟩)
          rw [hkeyOf hkey] at hshardGet
          refine ⟨row,hrow,?_⟩
          rw [hget hrouted,hshardGet]
          rfl

end ForwardIndex

namespace MGetCall

variable {index : ForwardIndex} {primaryKeys : List UInt64}

/-- The call loads the shard when the index is `moment`. -/
def LoadsAt (index : ForwardIndex) (primaryKeys : List UInt64) (events : List MGetEvent)
    (shardId : ℕ) (moment : ForwardIndex) : Prop :=
  ∃ before after, events = before++.nextShard::after ∧
    (run index primaryKeys before).shardId = shardId ∧ (run index primaryKeys before).index = moment

theorem LoadsAt.snoc {events : List MGetEvent} {shardId : ℕ} {moment : ForwardIndex}
    (h : LoadsAt index primaryKeys events shardId moment) (event : MGetEvent) :
    LoadsAt index primaryKeys (events++[event]) shardId moment := by
  obtain ⟨before,after,rfl,hshard,hmoment⟩ := h
  exact ⟨before,after++[event],by simp,hshard,hmoment⟩

/-- Every key of the shard has at its positions what `Get` gives at the moment. -/
def AnsweredAt (primaryKeys : List UInt64) (rows : List (Option Row)) (shardId : ℕ)
    (moment : ForwardIndex) : Prop :=
  ∀ (i : ℕ) primaryKey, primaryKeys[i]? = some primaryKey →
    (moment.shardFor primaryKey).toNat = shardId →
    ∃ row, rows[i]? = some row ∧ moment.get primaryKey = .ok row

/-- The rows of a call that has passed the shards below `shardId`. -/
structure Collected (index : ForwardIndex) (primaryKeys : List UInt64) (events : List MGetEvent)
    (shardId : ℕ) (rows : List (Option Row)) : Prop where
  length : rows.length = primaryKeys.length
  ahead : ∀ (i : ℕ) primaryKey, primaryKeys[i]? = some primaryKey →
    shardId ≤ (index.shardFor primaryKey).toNat → rows[i]? = some none
  passed : ∀ s < shardId, ∃ moment, LoadsAt index primaryKeys events s moment ∧
    AnsweredAt primaryKeys rows s moment

/-- The call throws what a `Get` of one of its keys throws at a load. -/
def ThrewAt (index : ForwardIndex) (primaryKeys : List UInt64) (events : List MGetEvent)
    (text : String) : Prop :=
  ∃ shardId moment, LoadsAt index primaryKeys events shardId moment ∧
    ∃ primaryKey ∈ primaryKeys, moment.get primaryKey = .error text

theorem run_shardFor (events : List MGetEvent) (primaryKey : UInt64) :
    (run index primaryKeys events).index.shardFor primaryKey = index.shardFor primaryKey := by
  rw [ForwardIndex.shardFor,run_options,ForwardIndex.shardFor]

theorem LoadsAt.shardFor {events : List MGetEvent} {shardId : ℕ} {moment : ForwardIndex}
    (h : LoadsAt index primaryKeys events shardId moment) (primaryKey : UInt64) :
    moment.shardFor primaryKey = index.shardFor primaryKey := by
  obtain ⟨before,_,_,_,rfl⟩ := h
  exact run_shardFor before primaryKey

theorem run_collected (index : ForwardIndex) (primaryKeys : List UInt64) (events : List MGetEvent) :
    (run index primaryKeys events).shardId ≤ index.options.shardCount.toNat ∧
    (∀ rows, (run index primaryKeys events).rows = .ok rows →
      Collected index primaryKeys events (run index primaryKeys events).shardId rows) ∧
    ∀ text, (run index primaryKeys events).rows = .error text →
      ThrewAt index primaryKeys events text := by
  induction events using List.reverseRecOn with
  | nil =>
    refine ⟨Nat.zero_le _,?_,?_⟩
    · rintro rows ⟨rfl⟩
      refine ⟨List.length_replicate,?_,fun s hs => absurd hs (Nat.not_lt_zero s)⟩
      intro i primaryKey hkey _
      rw [List.getElem?_replicate,if_pos (List.getElem?_eq_some_iff.mp hkey).1]
    · rintro text ⟨⟩
  | append_singleton events event ih =>
    obtain ⟨hbound,hok,herror⟩ := ih
    -- Later events keep what the call has found.
    have hlater : ∀ {shardId rows}, Collected index primaryKeys events shardId rows →
        Collected index primaryKeys (events++[event]) shardId rows := fun h =>
      ⟨h.length,h.ahead,fun s hs => by
        obtain ⟨moment,hmoment,hanswered⟩ := h.passed s hs
        exact ⟨moment,hmoment.snoc event,hanswered⟩⟩
    have hthrew : ∀ {text}, ThrewAt index primaryKeys events text →
        ThrewAt index primaryKeys (events++[event]) text := fun h => by
      obtain ⟨shardId,moment,hmoment,hkey⟩ := h
      exact ⟨shardId,moment,hmoment.snoc event,hkey⟩
    rw [run_snoc]
    generalize hcall : run index primaryKeys events = call at *
    have hoptions : call.index.options = index.options := hcall ▸ run_options index primaryKeys events
    cases event with
    | publish shardId state =>
      exact ⟨hbound,fun rows hrows => hlater (hok rows hrows),
        fun text htext => hthrew (herror text htext)⟩
    | nextShard =>
      by_cases hdone : call.shardId < call.index.options.shardCount.toNat
      · rw [step,if_pos hdone]
        refine ⟨hoptions ▸ hdone,?_⟩
        have hload : LoadsAt index primaryKeys (events++[.nextShard]) call.shardId call.index :=
          ⟨events,[],rfl,by rw [hcall],by rw [hcall]⟩
        have hrouted : ∀ primaryKey, call.index.shardFor primaryKey = index.shardFor primaryKey :=
          hload.shardFor
        cases hrows : call.rows with
        | error text =>
          refine ⟨(fun rows h => nomatch h),?_⟩
          rintro text ⟨rfl⟩
          exact hthrew (herror text hrows)
        | ok rows =>
          have hcollected := hok rows hrows
          rcases ForwardIndex.mGetShard_cases hdone hcollected.length fun i primaryKey hkey hshard =>
              hcollected.ahead i primaryKey hkey (by rw [← hrouted,hshard]) with
            ⟨next,hnext,hlength,hkept,hset⟩ | ⟨text,htext,hkey⟩
          · refine ⟨?_,fun text h => nomatch hnext.symm.trans h⟩
            intro rows' h
            cases hnext.symm.trans h
            refine ⟨hlength.trans hcollected.length,?_,?_⟩
            · intro i primaryKey hkey (hahead : call.shardId+1 ≤ _)
              rw [hkept i primaryKey hkey (by rw [hrouted]; omega)]
              exact hcollected.ahead i primaryKey hkey (by omega)
            · intro s hs
              rcases Nat.lt_succ_iff_lt_or_eq.mp hs with hs | rfl
              · obtain ⟨moment,hmoment,hanswered⟩ := hcollected.passed s hs
                refine ⟨moment,hmoment.snoc _,fun i primaryKey hkey hshard => ?_⟩
                rw [hkept i primaryKey hkey (by rw [hrouted,← hmoment.shardFor]; omega)]
                exact hanswered i primaryKey hkey hshard
              · exact ⟨call.index,hload,hset⟩
          · refine ⟨(fun rows' h => nomatch htext.symm.trans h),?_⟩
            intro text' h
            cases htext.symm.trans h
            exact ⟨call.shardId,call.index,hload,hkey⟩
      · rw [step,if_neg hdone]
        exact ⟨hbound,fun rows hrows => hlater (hok rows hrows),
          fun text htext => hthrew (herror text htext)⟩

theorem run_nextShards {n : ℕ} (h : n ≤ index.options.shardCount.toNat) :
    run index primaryKeys (List.replicate n .nextShard) = ⟨index,n,
      (List.range n).foldlM (fun rows shardId => index.mGetShard primaryKeys shardId rows)
        (List.replicate primaryKeys.length none)⟩ := by
  induction n with
  | zero => rfl
  | succ n ih =>
    rw [List.replicate_succ',run_snoc,ih (by omega),step,if_pos (by simpa using h),
      List.range_succ,List.foldlM_append]
    congr 1
    simp only [List.foldlM_cons,List.foldlM_nil,bind_pure]

theorem run_quiet (index : ForwardIndex) (primaryKeys : List UInt64) :
    (run index primaryKeys (List.replicate index.options.shardCount.toNat .nextShard)).rows =
      index.mGet primaryKeys := by
  rw [run_nextShards le_rfl]
  rfl

theorem LoadsAt.quiet {n shardId : ℕ} {moment : ForwardIndex}
    (h : LoadsAt index primaryKeys (List.replicate n .nextShard) shardId moment) :
    moment = index := by
  obtain ⟨before,after,hsplit,-,rfl⟩ := h
  have hbefore : ∀ event ∈ before, event = .nextShard := fun event hevent =>
    List.eq_of_mem_replicate (hsplit ▸ List.mem_append_left _ hevent)
  clear hsplit
  induction before using List.reverseRecOn with
  | nil => rfl
  | append_singleton before event ih =>
    rw [run_snoc,hbefore event (by simp),step]
    split_ifs
    · exact ih fun event hevent => hbefore event (List.mem_append_left _ hevent)
    · exact ih fun event hevent => hbefore event (List.mem_append_left _ hevent)

end MGetCall

open MGetCall

/-- What `MGet` returns: among any publishes each shard's keys are answered from one moment of
the call, and without them every key has what `Get` gives it. -/
theorem mGet_consistent (index : ForwardIndex) (primaryKeys : List UInt64) :
    (∀ events rows, (run index primaryKeys events).Returns rows →
      rows.length = primaryKeys.length ∧
      ∀ shardId < index.options.shardCount.toNat, ∃ moment,
        LoadsAt index primaryKeys events shardId moment ∧
        AnsweredAt primaryKeys rows shardId moment) ∧
    (run index primaryKeys (List.replicate index.options.shardCount.toNat .nextShard)).rows =
      index.mGet primaryKeys ∧
    (∀ rows, index.mGet primaryKeys = .ok rows ↔
      List.Forall₂ (fun primaryKey row => index.get primaryKey = .ok row) primaryKeys rows) ∧
    ((∃ text, index.mGet primaryKeys = .error text) ↔
      ∃ primaryKey ∈ primaryKeys, ∃ text, index.get primaryKey = .error text) := by
  have hquiet := run_quiet index primaryKeys
  obtain ⟨_,hok,herror⟩ := run_collected index primaryKeys
    (List.replicate index.options.shardCount.toNat .nextShard)
  rw [hquiet,run_nextShards le_rfl] at hok
  rw [hquiet] at herror
  have hforall : ∀ rows, index.mGet primaryKeys = .ok rows →
      List.Forall₂ (fun primaryKey row => index.get primaryKey = .ok row) primaryKeys rows := by
    intro rows hrows
    have hcollected := hok rows hrows
    refine List.forall₂_iff_get.mpr ⟨hcollected.length.symm,fun i hkey hrow => ?_⟩
    obtain ⟨moment,hmoment,hanswered⟩ :=
      hcollected.passed _ (index.shardFor_lt_count primaryKeys[i])
    cases hmoment.quiet
    obtain ⟨row,hi,hget⟩ := hanswered i primaryKeys[i] (List.getElem?_eq_getElem hkey) rfl
    rw [List.getElem?_eq_getElem hrow,Option.some.injEq] at hi
    subst hi
    exact hget
  have hthrown : ∀ text, index.mGet primaryKeys = .error text →
      ∃ primaryKey ∈ primaryKeys, index.get primaryKey = .error text := by
    intro text htext
    obtain ⟨_,moment,hmoment,hkey⟩ := herror text htext
    cases hmoment.quiet
    exact hkey
  refine ⟨?_,hquiet,fun rows => ⟨hforall rows,?_⟩,?_,?_⟩
  · rintro events rows ⟨hdone,hrows⟩
    have hcollected := (run_collected index primaryKeys events).2.1 rows hrows
    rw [hdone,run_options] at hcollected
    exact ⟨hcollected.length,hcollected.passed⟩
  · intro hgets
    cases hrows : index.mGet primaryKeys with
    | ok rows' =>
      congr 1
      have hunique : Relator.RightUnique fun primaryKey row => index.get primaryKey = .ok row :=
        fun _ _ _ h h' => Except.ok.inj (h.symm.trans h')
      exact List.right_unique_forall₂' hunique (hforall rows' hrows) hgets
    | error text =>
      obtain ⟨primaryKey,hkey,htext⟩ := hthrown text hrows
      obtain ⟨row,hrow⟩ := exists_of_forall₂ hgets hkey
      cases htext.symm.trans hrow
  · rintro ⟨text,htext⟩
    obtain ⟨primaryKey,hkey,hget⟩ := hthrown text htext
    exact ⟨primaryKey,hkey,text,hget⟩
  · rintro ⟨primaryKey,hkey,text,htext⟩
    cases hrows : index.mGet primaryKeys with
    | error text' => exact ⟨text',rfl⟩
    | ok rows =>
      obtain ⟨row,hrow⟩ := exists_of_forall₂ (hforall rows hrows) hkey
      cases htext.symm.trans hrow

open RealtimeDeltaAtomicTable (sampleTable sampleCall sampleLayout)

def publishedState : ShardState :=
  { shardId := 1,generation := 5
    realtimeDelta := some ((sampleTable 4).publishAll [sampleCall 1 0]) }

def publishedRow : Row := ⟨sampleLayout,(sampleCall 1 0).encoded⟩

/-- An index of two shards, the second of which is published while four keys are read. -/
theorem mGet_consistent_sample :
    let index := ForwardIndex.create { shardCount := 2 }
    ∀ shardId < 2, ∃ moment,
      LoadsAt index [1,2,1,3] [.nextShard,.publish 1 (some publishedState),.nextShard] shardId
        moment ∧
      AnsweredAt [1,2,1,3] [some publishedRow,none,some publishedRow,none] shardId moment := by
  have hreturns : (run (ForwardIndex.create { shardCount := 2 }) [1,2,1,3]
      [.nextShard,.publish 1 (some publishedState),.nextShard]).Returns
        [some publishedRow,none,some publishedRow,none] := by
    constructor
    · decide +kernel
    · decide +kernel
  exact ((mGet_consistent _ _).1 _ _ hreturns).2

/-- The index after a load, with the realtime tables as they are now. -/
def ForwardIndex.ofLoaded (options : ForwardIndexOptions) (directory : ShardDirectory PublishedShard)
    (tables : Ingest.Tables) (h : directory.shards.length = options.shardCount.toNat) : ForwardIndex where
  options := options
  directory := ⟨directory.shards.map fun state => state.map (·.resolve tables)⟩
  directory_length := by rw [List.length_map,h]

theorem ForwardIndex.ofLoaded_get (options : ForwardIndexOptions)
    (directory : ShardDirectory PublishedShard) (tables : Ingest.Tables)
    (h : directory.shards.length = options.shardCount.toNat) (primaryKey : UInt64) :
    (ofLoaded options directory tables h).get primaryKey =
      orThrow (Rebuild.ForwardIndex.get options directory tables primaryKey) := by
  have hlt := shardFor_lt options primaryKey
  rw [get_eq_answerOf rfl,Rebuild.ForwardIndex.get,Rebuild.ShardDirectory.load]
  change answerOf ((directory.shards.map fun state => state.map (·.resolve tables)).getD
    (Rebuild.ForwardIndex.shardFor options primaryKey).toNat none) primaryKey = _
  have hsome := List.getElem?_eq_getElem (h ▸ hlt)
  rw [List.getD_eq_getElem?_getD,List.getElem?_map,hsome]
  cases directory.shards[(Rebuild.ForwardIndex.shardFor options primaryKey).toNat] with
  | none => rfl
  | some shard => rfl

end Runtime
end KvIndex
