import KvIndex.AtomicMap

/-! What holds of the realtime hash map whatever its calls do and in whatever order they do it.
A later map keeps the keys of the occupied slots and has their rows moved to greater offsets;
what a call knows of the map stays true in every later map, and a reserved slot belongs to the
one call that reserved it. -/
namespace KvIndex
namespace RealtimeAtomicHashMap

open Base

/-- A row is replaced by a newer one of its key and partition only. -/
structure RowLater (row row' : RealtimeRowRef) : Prop where
  key : row'.primaryKey = row.primaryKey
  partition : row'.position.partition = row.position.partition
  offset : row' = row ∨ row.position.offset < row'.position.offset

theorem RowLater.refl (row : RealtimeRowRef) : RowLater row row := ⟨rfl,rfl,Or.inl rfl⟩

theorem RowLater.trans {a b c : RealtimeRowRef} (h : RowLater a b) (h' : RowLater b c) :
    RowLater a c := by
  refine ⟨h'.key.trans h.key,h'.partition.trans h.partition,?_⟩
  rcases h'.offset with rfl | hlt'
  · exact h.offset
  · rcases h.offset with rfl | hlt
    · exact Or.inr hlt'
    · exact Or.inr (Int64.lt_trans hlt hlt')

theorem RowLater.offset_le {row row' : RealtimeRowRef} (h : RowLater row row') :
    row.position.offset ≤ row'.position.offset := by
  rcases h.offset with rfl | hlt
  · exact Int64.le_refl _
  · exact Int64.le_of_lt hlt

/-- What time does to the map. -/
structure Later (map map' : RealtimeAtomicHashMap) : Prop where
  capacity : map'.capacity = map.capacity
  hashSeed : map'.hashSeed = map.hashSeed
  hashVersion : map'.hashVersion = map.hashVersion
  occ : ∀ {index key}, map.occ index = some key → map'.occ index = some key
  row : ∀ {index key row}, map.occ index = some key → (map.slot index).latestRow = some row →
    ∃ row', (map'.slot index).latestRow = some row' ∧ RowLater row row'

/-- The first `n` probes for a key meet other keys. -/
def Passed (map : RealtimeAtomicHashMap) (key : UInt64) (n : ℕ) : Prop :=
  ∀ probe < n, ∃ other, map.occ (map.probeIndex key probe) = some other ∧ other ≠ key

/-- The slot is where a search for the key arrives past other keys. -/
def Reached (map : RealtimeAtomicHashMap) (key : UInt64) (index : ℕ) : Prop :=
  ∃ probe < map.capacity, map.probeIndex key probe = index ∧ map.Passed key probe

section Later

variable {map map' map'' : RealtimeAtomicHashMap} {key : UInt64} {index n : ℕ}

theorem Later.refl (map : RealtimeAtomicHashMap) : Later map map :=
  ⟨rfl,rfl,rfl,id,fun _ hrow => ⟨_,hrow,RowLater.refl _⟩⟩

theorem Later.trans (h : Later map map') (h' : Later map' map'') : Later map map'' := by
  refine ⟨h'.capacity.trans h.capacity,h'.hashSeed.trans h.hashSeed,
    h'.hashVersion.trans h.hashVersion,fun hocc => h'.occ (h.occ hocc),?_⟩
  intro index key row hocc hrow
  obtain ⟨row',hrow',hlater⟩ := h.row hocc hrow
  obtain ⟨row'',hrow'',hlater'⟩ := h'.row (h.occ hocc) hrow'
  exact ⟨row'',hrow'',hlater.trans hlater'⟩

theorem Later.probeIndex (h : Later map map') : map'.probeIndex = map.probeIndex := by
  funext key probe
  simp only [RealtimeAtomicHashMap.probeIndex,h.capacity,h.hashSeed,h.hashVersion]

theorem Later.passed (h : Later map map') (hp : map.Passed key n) : map'.Passed key n := by
  intro probe hprobe
  obtain ⟨other,hocc,hne⟩ := hp probe hprobe
  exact ⟨other,h.probeIndex ▸ h.occ hocc,hne⟩

theorem Later.reached (h : Later map map') (hr : map.Reached key index) :
    map'.Reached key index := by
  obtain ⟨probe,hlt,hindex,hpassed⟩ := hr
  exact ⟨probe,h.capacity ▸ hlt,h.probeIndex ▸ hindex,h.passed hpassed⟩

theorem Reached.lt (h : map.Reached key index) : index < map.capacity := by
  obtain ⟨probe,hlt,rfl,-⟩ := h
  exact probeIndex_lt (by omega) key probe

/-- A search for the key cannot have passed a slot that holds it. -/
theorem Passed.le {probe : ℕ} (h : map.Passed key n)
    (hocc : map.occ (map.probeIndex key probe) = some key) : n ≤ probe := by
  by_contra hlt
  obtain ⟨other,hother,hne⟩ := h probe (by omega)
  rw [hocc,Option.some.injEq] at hother
  exact hne hother.symm

theorem Reached.unique {other : ℕ} (h : map.Reached key index) (h' : map.Reached key other)
    (hocc : map.occ index = some key) (hocc' : map.occ other = some key) : index = other := by
  obtain ⟨probe,-,rfl,hpassed⟩ := h
  obtain ⟨probe',-,rfl,hpassed'⟩ := h'
  rw [le_antisymm (hpassed.le hocc') (hpassed'.le hocc)]

end Later

/-- Every occupied slot is where a search for its key arrives, and has a row of its key. -/
structure MapOk (map : RealtimeAtomicHashMap) : Prop where
  placed : ∀ {index key}, map.occ index = some key → map.Reached key index
  row : ∀ {index key}, map.occ index = some key → ∃ row, (map.slot index).latestRow = some row ∧
    row.primaryKey = key ∧ isValidSourcePosition row.position = true

/-- A publish of the row under the key passes the checks of its arguments. -/
structure Accepted (key : UInt64) (rowRef : RealtimeRowRef) : Prop where
  key : rowRef.primaryKey = key
  position : isValidSourcePosition rowRef.position = true

/-- The key has a row that is at least as new. -/
def Holds (map : RealtimeAtomicHashMap) (key : UInt64) (rowRef : RealtimeRowRef) : Prop :=
  ∃ index row, map.occ index = some key ∧ (map.slot index).latestRow = some row ∧
    row.position.partition = rowRef.position.partition ∧
    rowRef.position.offset ≤ row.position.offset

/-- A search for the key is at this probe. -/
structure Searching (map : RealtimeAtomicHashMap) (key : UInt64) (probe : UInt64) : Prop where
  bound : probe.toNat < map.capacity
  passed : map.Passed key probe.toNat

/-- The slot is reserved for the key. -/
structure Reserved (map : RealtimeAtomicHashMap) (key : UInt64) (index : ℕ) : Prop where
  reached : map.Reached key index
  state : (map.slot index).state = .kReserved

/-- What a publish knows where it stands. -/
def PublishOk (map : RealtimeAtomicHashMap) (key : UInt64) (rowRef : RealtimeRowRef) :
    PublishPc → Prop
  | .loadState probe | .casState probe => Accepted key rowRef ∧ map.Searching key probe
  | .readKey probe => Accepted key rowRef ∧ map.Searching key probe ∧
      (map.occ (map.slotOf key probe)).isSome
  | .writeKey index => Accepted key rowRef ∧ map.Reserved key index
  | .storeRow index => Accepted key rowRef ∧ map.Reserved key index ∧
      (map.slot index).primaryKey = key
  | .storeOccupied index => Accepted key rowRef ∧ map.Reserved key index ∧
      (map.slot index).primaryKey = key ∧ (map.slot index).latestRow = some rowRef
  | .addCount _ => map.Holds key rowRef
  | .loadRow index => Accepted key rowRef ∧ map.occ index = some key
  | .casRow index current => Accepted key rowRef ∧ map.occ index = some key ∧
      current.position.partition = rowRef.position.partition ∧
      current.position.offset < rowRef.position.offset
  | .returned (.ok _) => map.Holds key rowRef
  | .returned (.error _) => True

/-- What a lookup knows where it stands. -/
def GetOk (map : RealtimeAtomicHashMap) (key : UInt64) : GetPc → Prop
  | .loadState probe => map.Searching key probe
  | .readKey probe => map.Searching key probe ∧ (map.occ (map.slotOf key probe)).isSome
  | .loadRow index => map.occ index = some key
  | .returned (.ok none) => True
  | .returned (.ok (some row)) => row.primaryKey = key
  | .returned (.error _) => False

def CallOk (map : RealtimeAtomicHashMap) : Call → Prop
  | .publish key rowRef pc => map.PublishOk key rowRef pc
  | .get key pc => map.GetOk key pc

/-- The slot that a publish has reserved and not published yet. -/
def PublishPc.owns : PublishPc → Option ℕ
  | .writeKey index | .storeRow index | .storeOccupied index => some index
  | _ => none

def Call.owns : Call → Option ℕ
  | .publish _ _ pc => pc.owns
  | .get _ _ => none

/-- The publish has occupied a slot that is not counted yet. -/
def PublishPc.counting : PublishPc → Bool
  | .addCount _ => true
  | _ => false

def Call.counting : Call → Bool
  | .publish _ _ pc => pc.counting
  | .get _ _ => false

def occupiedCount (map : RealtimeAtomicHashMap) : ℕ :=
  map.slots.countP fun slot => slot.state = .kOccupied

section Stable

variable {map map' : RealtimeAtomicHashMap} {key : UInt64} {rowRef : RealtimeRowRef}

theorem Later.slotOf (h : Later map map') (key probe : UInt64) :
    map'.slotOf key probe = map.slotOf key probe := by
  rw [RealtimeAtomicHashMap.slotOf,RealtimeAtomicHashMap.slotOf,h.probeIndex]

theorem Later.holds (h : Later map map') (hh : map.Holds key rowRef) : map'.Holds key rowRef := by
  obtain ⟨index,row,hocc,hrow,hpartition,hoffset⟩ := hh
  obtain ⟨row',hrow',hlater⟩ := h.row hocc hrow
  exact ⟨index,row',h.occ hocc,hrow',hlater.partition.trans hpartition,
    Int64.le_trans hoffset hlater.offset_le⟩

theorem Later.searching (h : Later map map') {probe : UInt64} (hs : map.Searching key probe) :
    map'.Searching key probe := ⟨h.capacity ▸ hs.bound,h.passed hs.passed⟩

theorem Later.isSome (h : Later map map') {probe : UInt64}
    (hs : (map.occ (map.slotOf key probe)).isSome) : (map'.occ (map'.slotOf key probe)).isSome := by
  obtain ⟨other,hother⟩ := Option.isSome_iff_exists.mp hs
  rw [h.slotOf,h.occ hother]
  rfl

theorem Later.reserved (h : Later map map') {index : ℕ} (hr : map.Reserved key index)
    (hsame : map'.slot index = map.slot index) : map'.Reserved key index :=
  ⟨h.reached hr.reached,hsame ▸ hr.state⟩

/-- What a call knows stays true while its reserved slot is left alone. -/
theorem Later.publishOk (h : Later map map') {pc : PublishPc} (hok : map.PublishOk key rowRef pc)
    (hown : ∀ index, pc.owns = some index → map'.slot index = map.slot index) :
    map'.PublishOk key rowRef pc := by
  cases pc with
  | loadState probe => exact ⟨hok.1,h.searching hok.2⟩
  | casState probe => exact ⟨hok.1,h.searching hok.2⟩
  | readKey probe => exact ⟨hok.1,h.searching hok.2.1,h.isSome hok.2.2⟩
  | writeKey index => exact ⟨hok.1,h.reserved hok.2 (hown index rfl)⟩
  | storeRow index =>
    have hsame := hown index rfl
    exact ⟨hok.1,h.reserved hok.2.1 hsame,hsame ▸ hok.2.2⟩
  | storeOccupied index =>
    have hsame := hown index rfl
    exact ⟨hok.1,h.reserved hok.2.1 hsame,hsame ▸ hok.2.2.1,hsame ▸ hok.2.2.2⟩
  | addCount index => exact h.holds hok
  | loadRow index => exact ⟨hok.1,h.occ hok.2⟩
  | casRow index current => exact ⟨hok.1,h.occ hok.2.1,hok.2.2⟩
  | returned result =>
    cases result with
    | ok _ => exact h.holds hok
    | error _ => trivial

theorem Later.getOk (h : Later map map') {pc : GetPc} (hok : map.GetOk key pc) :
    map'.GetOk key pc := by
  cases pc with
  | loadState probe => exact h.searching hok
  | readKey probe => exact ⟨h.searching hok.1,h.isSome hok.2⟩
  | loadRow index => exact h.occ hok
  | returned result =>
    cases result with
    | ok row =>
      cases row with
      | none => trivial
      | some row => exact hok
    | error _ => exact hok

theorem Later.callOk (h : Later map map') {call : Call} (hok : map.CallOk call)
    (hown : ∀ index, call.owns = some index → map'.slot index = map.slot index) :
    map'.CallOk call := by
  cases call with
  | publish key rowRef pc => exact h.publishOk hok hown
  | get key pc => exact h.getOk hok

theorem PublishOk.reserved {pc : PublishPc} (hok : map.PublishOk key rowRef pc) {index : ℕ}
    (hown : pc.owns = some index) : map.Reserved key index := by
  cases pc with
  | writeKey i =>
    obtain rfl := Option.some.inj hown
    exact hok.2
  | storeRow i =>
    obtain rfl := Option.some.inj hown
    exact hok.2.1
  | storeOccupied i =>
    obtain rfl := Option.some.inj hown
    exact hok.2.1
  | _ => cases hown

end Stable

section Store

variable {map : RealtimeAtomicHashMap} {key : UInt64} {rowRef : RealtimeRowRef} {index : ℕ}
  {slot : Slot}

theorem occ_of_state (h : (map.slot index).state ≠ .kOccupied) : map.occ index = none :=
  occ_eq_none.mpr h

theorem later_store (hlt : index < map.capacity) (hocc : map.occ index = none) (slot : Slot) (n : ℕ) :
    Later map (map.store index slot n) := by
  have hne : ∀ {i key}, map.occ i = some key → i ≠ index := by
    rintro i key hi rfl
    rw [hocc] at hi
    cases hi
  refine ⟨store_capacity _ _ _,rfl,rfl,?_,?_⟩
  · intro i key hi
    rw [occ,store_slot hlt,if_neg (hne hi)]
    exact hi
  · intro i key row hi hrow
    refine ⟨row,?_,RowLater.refl row⟩
    rw [store_slot hlt,if_neg (hne hi),hrow]

/-- A write that occupies nothing leaves the occupied slots as they are. -/
theorem MapOk.store (h : MapOk map) (hlt : index < map.capacity) (hocc : map.occ index = none)
    (hslot : slot.state ≠ .kOccupied) (n : ℕ) : MapOk (map.store index slot n) := by
  have hold : ∀ {i key}, (map.store index slot n).occ i = some key →
      map.occ i = some key ∧ (map.store index slot n).slot i = map.slot i := by
    intro i key hi
    by_cases hsame : i = index
    · obtain ⟨hstate,-⟩ := occ_eq_some.mp hi
      rw [store_slot hlt,if_pos hsame] at hstate
      exact absurd hstate hslot
    · rw [occ,store_slot hlt,if_neg hsame] at hi
      exact ⟨hi,by rw [store_slot hlt,if_neg hsame]⟩
  refine ⟨?_,?_⟩
  · intro i key hi
    exact (later_store hlt hocc slot n).reached (h.placed (hold hi).1)
  · intro i key hi
    obtain ⟨hi,hsame⟩ := hold hi
    rw [hsame]
    exact h.row hi

theorem MapOk.occupy (h : MapOk map) (hr : map.Reserved key index) (slot : Slot)
    (hkey : slot.primaryKey = key) (hrow : slot.latestRow = some rowRef) (haccepted : Accepted key rowRef) (n : ℕ) :
    MapOk (map.store index slot n) := by
  have hlt := hr.reached.lt
  have hlater := later_store hlt (occ_of_state (by simp [hr.state])) slot n
  refine ⟨?_,?_⟩
  · intro i k hi
    by_cases hsame : i = index
    · obtain ⟨-,hk⟩ := occ_eq_some.mp hi
      rw [store_slot hlt,if_pos hsame,hkey] at hk
      rw [hsame,← hk]
      exact hlater.reached hr.reached
    · rw [occ,store_slot hlt,if_neg hsame] at hi
      exact hlater.reached (h.placed hi)
  · intro i k hi
    by_cases hsame : i = index
    · obtain ⟨-,hk⟩ := occ_eq_some.mp hi
      rw [store_slot hlt,if_pos hsame] at hk ⊢
      exact ⟨rowRef,hrow,haccepted.key.trans (hkey.symm.trans hk),haccepted.position⟩
    · rw [occ,store_slot hlt,if_neg hsame] at hi
      rw [store_slot hlt,if_neg hsame]
      exact h.row hi

theorem store_row_occ (hocc : map.occ index = some key) (row : Option RealtimeRowRef) (n : ℕ) :
    (map.store index { map.slot index with latestRow := row } n).occ = map.occ := by
  funext i
  rw [occ,occ,store_slot (occ_lt hocc)]
  by_cases hi : i = index
  · rw [if_pos hi,hi]
  · rw [if_neg hi]

theorem later_replace (hocc : map.occ index = some key) {current : RealtimeRowRef}
    (hcurrent : (map.slot index).latestRow = some current) (hrow : RowLater current rowRef) (n : ℕ) :
    Later map (map.store index { map.slot index with latestRow := some rowRef } n) := by
  refine ⟨store_capacity _ _ _,rfl,rfl,?_,?_⟩
  · intro i k hi
    rwa [store_row_occ hocc]
  · intro i k row hi hold
    rw [store_slot (occ_lt hocc)]
    by_cases hsame : i = index
    · rw [if_pos hsame]
      rw [hsame,hcurrent,Option.some.injEq] at hold
      exact ⟨rowRef,rfl,hold ▸ hrow⟩
    · rw [if_neg hsame]
      exact ⟨row,hold,RowLater.refl row⟩

theorem MapOk.replace (h : MapOk map) (hocc : map.occ index = some key) {current : RealtimeRowRef}
    (hcurrent : (map.slot index).latestRow = some current) (hrow : RowLater current rowRef)
    (haccepted : Accepted key rowRef) (n : ℕ) :
    MapOk (map.store index { map.slot index with latestRow := some rowRef } n) := by
  refine ⟨?_,?_⟩
  · intro i k hi
    rw [store_row_occ hocc] at hi
    exact (later_replace hocc hcurrent hrow n).reached (h.placed hi)
  · intro i k hi
    rw [store_row_occ hocc] at hi
    rw [store_slot (occ_lt hocc)]
    by_cases hsame : i = index
    · rw [if_pos hsame]
      rw [hsame,hocc,Option.some.injEq] at hi
      exact ⟨rowRef,rfl,haccepted.key.trans hi,haccepted.position⟩
    · rw [if_neg hsame]
      exact h.row hi

theorem countP_set_add {α : Type} {l : List α} {i : ℕ} (hlt : i < l.length) (a : α) (p : α → Bool) :
    (l.set i a).countP p+(p l[i]).toNat = l.countP p+(p a).toNat := by
  have hle : (p l[i]).toNat ≤ l.countP p := by
    cases hp : p l[i] with
    | false => exact Nat.zero_le _
    | true => exact List.countP_pos_iff.mpr ⟨_,List.getElem_mem hlt,hp⟩
  simp only [Bool.toNat,Bool.cond_eq_ite] at hle ⊢
  rw [List.countP_set hlt]
  omega

theorem occupiedCount_store (hlt : index < map.capacity) (slot : Slot) (n : ℕ) :
    (map.store index slot n).occupiedCount+(if (map.slot index).state = .kOccupied then 1 else 0) =
      map.occupiedCount+if slot.state = .kOccupied then 1 else 0 := by
  have hlt' : index < map.slots.length := hlt
  have hget : map.slot index = map.slots[index] := by
    rw [RealtimeAtomicHashMap.slot,List.getD_eq_getElem _ _ hlt']
  have hset := countP_set_add hlt' slot fun slot => slot.state = .kOccupied
  simpa only [occupiedCount,RealtimeAtomicHashMap.store,hget,Bool.toNat,Bool.cond_eq_ite,
    decide_eq_true_eq] using hset

end Store

/-- What an access of a publish does, to the map and to what it knows of it. -/
structure Moves (map : RealtimeAtomicHashMap) (key : UInt64) (rowRef : RealtimeRowRef)
    (pc pc' : PublishPc) (map' : RealtimeAtomicHashMap) : Prop where
  later : Later map map'
  mapOk : MapOk map'
  publishOk : map'.PublishOk key rowRef pc'
  frame : ∀ index, (map.slot index).state = .kReserved → pc.owns ≠ some index →
    map'.slot index = map.slot index
  owns : ∀ index, pc'.owns = some index → pc.owns = some index ∨ (map.slot index).state = .kEmpty
  count : map'.uniqueKeyCount+pc'.counting.toNat+map.occupiedCount =
    map.uniqueKeyCount+pc.counting.toNat+map'.occupiedCount

section Moves

variable {map : RealtimeAtomicHashMap} {key : UInt64} {rowRef : RealtimeRowRef}
  {pc pc' : PublishPc} {index : ℕ}

theorem moves_read (hm : MapOk map) (hok : map.PublishOk key rowRef pc') (howns : pc'.owns = none)
    (hcount : pc'.counting = pc.counting) : Moves map key rowRef pc pc' map := by
  refine ⟨Later.refl map,hm,hok,fun _ _ _ => rfl,?_,?_⟩
  · intro index hindex
    rw [howns] at hindex
    cases hindex
  · rw [hcount]

/-- A write to the slot that the publish owns or finds empty, which leaves it unoccupied. -/
theorem moves_reserved (hm : MapOk map) (hlt : index < map.capacity)
    (hmine : pc.owns = some index ∨ (map.slot index).state = .kEmpty)
    (hstate : (map.slot index).state ≠ .kOccupied) {slot : Slot} (hslot : slot.state ≠ .kOccupied)
    (hok : (map.store index slot map.uniqueKeyCount).PublishOk key rowRef pc')
    (howns : pc'.owns = some index) (hcount : pc'.counting = pc.counting) :
    Moves map key rowRef pc pc' (map.store index slot map.uniqueKeyCount) := by
  have hocc := occ_of_state hstate
  refine ⟨later_store hlt hocc slot _,hm.store hlt hocc hslot _,hok,?_,?_,?_⟩
  · intro i hi hother
    have hne : i ≠ index := by
      rintro rfl
      rcases hmine with hmine | hempty
      · exact hother hmine
      · rw [hempty] at hi
        cases hi
    rw [store_slot hlt,if_neg hne]
  · intro i hi
    rw [howns,Option.some.injEq] at hi
    subst hi
    exact hmine
  · have hsum := occupiedCount_store hlt slot map.uniqueKeyCount
    rw [if_neg hstate,if_neg hslot] at hsum
    show map.uniqueKeyCount+_+_ = _
    rw [hcount]
    omega

theorem publishLoop_ok (haccepted : Accepted key rowRef) {probe : UInt64}
    (hpassed : map.Passed key probe.toNat) :
    map.PublishOk key rowRef (map.publishLoop probe) ∧ (map.publishLoop probe).owns = none ∧
      (map.publishLoop probe).counting = false := by
  rw [publishLoop]
  by_cases hlt : probe.toNat < map.capacity
  · rw [if_pos hlt]
    exact ⟨⟨haccepted,hlt,hpassed⟩,rfl,rfl⟩
  · rw [if_neg hlt]
    exact ⟨trivial,rfl,rfl⟩

theorem Searching.next {probe : UInt64} (h : map.Searching key probe)
    (hcapacity : map.capacity < 2^64) (hsome : (map.occ (map.slotOf key probe)).isSome)
    (hne : (map.slot (map.slotOf key probe)).primaryKey ≠ key) :
    (probe+1).toNat = probe.toNat+1 ∧ map.Passed key (probe.toNat+1) := by
  have hbound := h.bound
  refine ⟨?_,?_⟩
  · rw [UInt64.toNat_add,UInt64.toNat_one,Nat.mod_eq_of_lt (by omega)]
  · intro q hq
    by_cases hlast : q = probe.toNat
    · obtain ⟨other,hother⟩ := Option.isSome_iff_exists.mp hsome
      rw [hlast]
      exact ⟨other,hother,(occ_eq_some.mp hother).2 ▸ hne⟩
    · exact h.passed q (by omega)

theorem classify_eq_ok {current candidate : SourcePosition} {decision : SourcePositionUpdateDecision}
    (h : classifySourcePositionUpdate current candidate = .ok decision) :
    current.partition = candidate.partition ∧
      (decision = .kNewer → current.offset < candidate.offset) ∧
      (decision ≠ .kNewer → candidate.offset ≤ current.offset) := by
  simp only [classifySourcePositionUpdate,bind_eq_ok,failIf_eq_ok,exists_const,
    bne_eq_false_iff_eq] at h
  obtain ⟨-,hpartition,hdecision⟩ := h
  refine ⟨hpartition,?_⟩
  by_cases hlt : candidate.offset < current.offset
  · rw [if_pos hlt,pure_eq_ok,Except.ok.injEq] at hdecision
    subst hdecision
    exact ⟨by simp,fun _ => Int64.le_of_lt hlt⟩
  · rw [if_neg hlt] at hdecision
    by_cases heq : candidate.offset = current.offset
    · rw [if_pos heq,pure_eq_ok,Except.ok.injEq] at hdecision
      subst hdecision
      exact ⟨by simp,fun _ => heq ▸ Int64.le_refl _⟩
    · rw [if_neg heq,pure_eq_ok,Except.ok.injEq] at hdecision
      subst hdecision
      have hle := Int64.not_lt.mp hlt
      exact ⟨fun _ => Int64.lt_of_le_of_ne hle (Ne.symm heq),by simp⟩

theorem decideRow_ok (haccepted : Accepted key rowRef) (hocc : map.occ index = some key)
    {current : RealtimeRowRef} (hcurrent : (map.slot index).latestRow = some current) :
    map.PublishOk key rowRef (decideRow index rowRef current) ∧
      (decideRow index rowRef current).owns = none ∧
      (decideRow index rowRef current).counting = false := by
  rw [decideRow]
  cases hclassify : classifySourcePositionUpdate current.position rowRef.position with
  | error status => exact ⟨trivial,rfl,rfl⟩
  | ok decision =>
    obtain ⟨hpartition,hnewer,hother⟩ := classify_eq_ok hclassify
    cases decision with
    | kNewer => exact ⟨⟨haccepted,hocc,hpartition,hnewer rfl⟩,rfl,rfl⟩
    | kStale => exact ⟨⟨index,current,hocc,hcurrent,hpartition,hother (by simp)⟩,rfl,rfl⟩
    | kIdempotent => exact ⟨⟨index,current,hocc,hcurrent,hpartition,hother (by simp)⟩,rfl,rfl⟩

theorem moves_loadState (hm : MapOk map) {probe : UInt64}
    (hok : map.PublishOk key rowRef (.loadState probe)) (spurious : Bool) :
    Moves map key rowRef (.loadState probe) (map.publishStep spurious key rowRef (.loadState probe)).1
      (map.publishStep spurious key rowRef (.loadState probe)).2 := by
  rw [publishStep]
  cases hstate : (map.slot (map.slotOf key probe)).state with
  | kReserved => exact moves_read hm trivial rfl rfl
  | kEmpty => exact moves_read hm hok rfl rfl
  | kOccupied =>
    refine moves_read hm ⟨hok.1,hok.2,?_⟩ rfl rfl
    rw [occ_eq_some.mpr ⟨hstate,rfl⟩]
    rfl

theorem moves_readKey (hm : MapOk map) (hcapacity : map.capacity < 2^64) {probe : UInt64}
    (hok : map.PublishOk key rowRef (.readKey probe)) (spurious : Bool) :
    Moves map key rowRef (.readKey probe) (map.publishStep spurious key rowRef (.readKey probe)).1
      (map.publishStep spurious key rowRef (.readKey probe)).2 := by
  obtain ⟨haccepted,hsearching,hsome⟩ := hok
  rw [publishStep]
  by_cases hkey : (map.slot (map.slotOf key probe)).primaryKey = key
  · rw [if_pos hkey]
    obtain ⟨other,hother⟩ := Option.isSome_iff_exists.mp hsome
    exact moves_read hm ⟨haccepted,occ_eq_some.mpr ⟨(occ_eq_some.mp hother).1,hkey⟩⟩ rfl rfl
  · rw [if_neg hkey]
    obtain ⟨hnext,hpassed⟩ := hsearching.next hcapacity hsome hkey
    obtain ⟨hloop,howns,hcount⟩ := publishLoop_ok haccepted (hnext ▸ hpassed)
    exact moves_read hm hloop howns hcount

theorem moves_casState (hm : MapOk map) {probe : UInt64}
    (hok : map.PublishOk key rowRef (.casState probe)) (spurious : Bool) :
    Moves map key rowRef (.casState probe) (map.publishStep spurious key rowRef (.casState probe)).1
      (map.publishStep spurious key rowRef (.casState probe)).2 := by
  obtain ⟨haccepted,hsearching⟩ := hok
  rw [publishStep]
  by_cases hempty : (map.slot (map.slotOf key probe)).state = .kEmpty
  · simp only [if_pos hempty]
    have hreached : map.Reached key (map.slotOf key probe) :=
      ⟨probe.toNat,hsearching.bound,rfl,hsearching.passed⟩
    have hstate : (map.slot (map.slotOf key probe)).state ≠ .kOccupied := by simp [hempty]
    refine moves_reserved hm hreached.lt (Or.inr hempty) hstate (by simp) ⟨haccepted,?_,?_⟩ rfl rfl
    · exact (later_store hreached.lt (occ_of_state hstate) _ _).reached hreached
    · rw [store_slot hreached.lt,if_pos rfl]
  · simp only [if_neg hempty,UInt64.sub_add_cancel]
    obtain ⟨hloop,howns,hcount⟩ := publishLoop_ok haccepted hsearching.passed
    exact moves_read hm hloop howns hcount

theorem reserved_store (hr : map.Reserved key index) (slot : Slot) (hslot : slot.state = .kReserved)
    (n : ℕ) : (map.store index slot n).Reserved key index ∧
      (map.store index slot n).slot index = slot := by
  have hlt := hr.reached.lt
  have hsame : (map.store index slot n).slot index = slot := by
    rw [store_slot hlt,if_pos rfl]
  have hlater := later_store hlt (occ_of_state (by simp [hr.state])) slot n
  refine ⟨⟨hlater.reached hr.reached,?_⟩,hsame⟩
  rw [hsame]
  exact hslot

theorem moves_writeKey (hm : MapOk map) (hok : map.PublishOk key rowRef (.writeKey index)) :
    Moves map key rowRef (.writeKey index) (.storeRow index)
      (map.store index { map.slot index with primaryKey := key } map.uniqueKeyCount) := by
  obtain ⟨haccepted,hr⟩ := hok
  have hstate := hr.state
  obtain ⟨hr',hsame⟩ := reserved_store hr { map.slot index with primaryKey := key } hstate
    map.uniqueKeyCount
  exact moves_reserved hm hr.reached.lt (Or.inl rfl) (by simp [hstate]) (by simp [hstate])
    ⟨haccepted,hr',by rw [hsame]⟩ rfl rfl

theorem moves_storeRow (hm : MapOk map) (hok : map.PublishOk key rowRef (.storeRow index)) :
    Moves map key rowRef (.storeRow index) (.storeOccupied index)
      (map.store index { map.slot index with latestRow := some rowRef } map.uniqueKeyCount) := by
  obtain ⟨haccepted,hr,hkey⟩ := hok
  have hstate := hr.state
  obtain ⟨hr',hsame⟩ := reserved_store hr { map.slot index with latestRow := some rowRef } hstate
    map.uniqueKeyCount
  exact moves_reserved hm hr.reached.lt (Or.inl rfl) (by simp [hstate]) (by simp [hstate])
    ⟨haccepted,hr',by rw [hsame]; exact hkey,by rw [hsame]⟩ rfl rfl

theorem moves_storeOccupied (hm : MapOk map)
    (hok : map.PublishOk key rowRef (.storeOccupied index)) :
    Moves map key rowRef (.storeOccupied index) (.addCount index)
      (map.store index { map.slot index with state := .kOccupied } map.uniqueKeyCount) := by
  obtain ⟨haccepted,hr,hkey,hrow⟩ := hok
  have hlt := hr.reached.lt
  have hocc : map.occ index = none := occ_of_state (by simp [hr.state])
  have hslot : ∀ i, i ≠ index → (map.store index { map.slot index with state := .kOccupied }
      map.uniqueKeyCount).slot i = map.slot i := by
    intro i hi
    rw [store_slot hlt,if_neg hi]
  have hok' := hm.occupy hr { map.slot index with state := .kOccupied } hkey hrow haccepted
    map.uniqueKeyCount
  refine ⟨later_store hlt hocc _ _,hok',?_,?_,?_,?_⟩
  · refine ⟨index,rowRef,occ_eq_some.mpr ?_,?_,rfl,Int64.le_refl _⟩
    · rw [store_slot hlt,if_pos rfl]
      exact ⟨rfl,hkey⟩
    · rw [store_slot hlt,if_pos rfl]
      exact hrow
  · intro i _ hother
    refine hslot i ?_
    rintro rfl
    exact hother rfl
  · intro i hi
    cases hi
  · have hsum := occupiedCount_store hlt { map.slot index with state := .kOccupied } map.uniqueKeyCount
    rw [if_neg (by simp [hr.state]),if_pos rfl] at hsum
    show map.uniqueKeyCount+1+_ = map.uniqueKeyCount+0+_
    omega

theorem moves_addCount (hm : MapOk map) (hok : map.PublishOk key rowRef (.addCount index)) :
    Moves map key rowRef (.addCount index) (.returned (.ok true))
      { map with uniqueKeyCount := map.uniqueKeyCount+1 } := by
  have hlater : Later map { map with uniqueKeyCount := map.uniqueKeyCount+1 } :=
    ⟨rfl,rfl,rfl,id,fun _ hrow => ⟨_,hrow,RowLater.refl _⟩⟩
  refine ⟨hlater,⟨hm.placed,hm.row⟩,hlater.holds hok,fun _ _ _ => rfl,?_,?_⟩
  · intro i hi
    cases hi
  · show map.uniqueKeyCount+1+0+map.occupiedCount = map.uniqueKeyCount+1+map.occupiedCount
    omega

theorem moves_loadRow (hm : MapOk map) (hok : map.PublishOk key rowRef (.loadRow index))
    (spurious : Bool) :
    Moves map key rowRef (.loadRow index) (map.publishStep spurious key rowRef (.loadRow index)).1
      (map.publishStep spurious key rowRef (.loadRow index)).2 := by
  obtain ⟨haccepted,hocc⟩ := hok
  obtain ⟨current,hcurrent,-⟩ := hm.row hocc
  obtain ⟨hdecide,howns,hcount⟩ := decideRow_ok haccepted hocc hcurrent
  rw [publishStep,hcurrent]
  exact moves_read hm hdecide howns hcount

theorem moves_casRow (hm : MapOk map) {current : RealtimeRowRef}
    (hok : map.PublishOk key rowRef (.casRow index current)) (spurious : Bool) :
    Moves map key rowRef (.casRow index current)
      (map.publishStep spurious key rowRef (.casRow index current)).1
      (map.publishStep spurious key rowRef (.casRow index current)).2 := by
  obtain ⟨haccepted,hocc,hpartition,hoffset⟩ := hok
  rw [publishStep]
  by_cases hcas : (map.slot index).latestRow = some current ∧ spurious = false
  · simp only [if_pos hcas]
    have hcurrent := hcas.1
    have hlt := occ_lt hocc
    have hlater : RowLater current rowRef := by
      obtain ⟨row,hrow,hkey,-⟩ := hm.row hocc
      rw [hcurrent,Option.some.injEq] at hrow
      exact ⟨haccepted.key.trans (hrow ▸ hkey.symm),hpartition.symm,Or.inr hoffset⟩
    refine ⟨later_replace hocc hcurrent hlater _,hm.replace hocc hcurrent hlater haccepted _,?_,?_,?_,?_⟩
    · refine ⟨index,rowRef,?_,?_,rfl,Int64.le_refl _⟩
      · rw [store_row_occ hocc,hocc]
      · rw [store_slot hlt,if_pos rfl]
    · intro i hi _
      have hne : i ≠ index := by
        rintro rfl
        rw [(occ_eq_some.mp hocc).1] at hi
        cases hi
      rw [store_slot hlt,if_neg hne]
    · intro i hi
      cases hi
    · have hsum := occupiedCount_store hlt
        ⟨(map.slot index).state,(map.slot index).primaryKey,some rowRef⟩ map.uniqueKeyCount
      have hstate := (occ_eq_some.mp hocc).1
      rw [if_pos hstate] at hsum
      show map.uniqueKeyCount+0+_ = map.uniqueKeyCount+0+_
      omega
  · simp only [if_neg hcas]
    exact moves_read hm ⟨haccepted,hocc⟩ rfl rfl

theorem publishStep_moves (hm : MapOk map) (hcapacity : map.capacity < 2^64)
    (hok : map.PublishOk key rowRef pc) (spurious : Bool) :
    Moves map key rowRef pc (map.publishStep spurious key rowRef pc).1
      (map.publishStep spurious key rowRef pc).2 := by
  cases pc with
  | loadState probe => exact moves_loadState hm hok spurious
  | readKey probe => exact moves_readKey hm hcapacity hok spurious
  | casState probe => exact moves_casState hm hok spurious
  | writeKey index => exact moves_writeKey hm hok
  | storeRow index => exact moves_storeRow hm hok
  | storeOccupied index => exact moves_storeOccupied hm hok
  | addCount index => exact moves_addCount hm hok
  | loadRow index => exact moves_loadRow hm hok spurious
  | casRow index current => exact moves_casRow hm hok spurious
  | returned result =>
    refine moves_read hm hok ?_ rfl
    rfl

theorem startPublish_ok (map : RealtimeAtomicHashMap) (key : UInt64) (rowRef : RealtimeRowRef) :
    map.PublishOk key rowRef (map.startPublish key rowRef) ∧
      (map.startPublish key rowRef).owns = none ∧
      (map.startPublish key rowRef).counting = false := by
  rw [startPublish]
  by_cases hkey : rowRef.primaryKey = key
  · rw [if_neg (by simpa using hkey)]
    by_cases hvalid : isValidSourcePosition rowRef.position = true
    · rw [if_neg (by simp [hvalid])]
      by_cases hzero : map.capacity = 0
      · rw [if_pos (by simpa using hzero)]
        exact ⟨trivial,rfl,rfl⟩
      · rw [if_neg (by simpa using hzero)]
        exact publishLoop_ok ⟨hkey,hvalid⟩ (fun _ hq => absurd hq (by simp))
    · rw [if_pos (by simpa using hvalid)]
      exact ⟨trivial,rfl,rfl⟩
  · rw [if_pos (by simpa using hkey)]
    exact ⟨trivial,rfl,rfl⟩

end Moves

section Gets

variable {map : RealtimeAtomicHashMap} {key : UInt64}

theorem getLoop_ok {probe : UInt64} (hpassed : map.Passed key probe.toNat) :
    map.GetOk key (map.getLoop probe) := by
  rw [getLoop]
  by_cases hlt : probe.toNat < map.capacity
  · rw [if_pos hlt]
    exact ⟨hlt,hpassed⟩
  · rw [if_neg hlt]
    trivial

theorem getLoop_zero_ok (key : UInt64) : map.GetOk key (map.getLoop 0) :=
  getLoop_ok fun _ hq => absurd hq (by simp)

theorem getStep_ok (hm : MapOk map) (hcapacity : map.capacity < 2^64) {pc : GetPc}
    (hok : map.GetOk key pc) : map.GetOk key (map.getStep key pc) := by
  cases pc with
  | loadState probe =>
    rw [getStep]
    cases hstate : (map.slot (map.slotOf key probe)).state with
    | kReserved => trivial
    | kEmpty => trivial
    | kOccupied =>
      refine ⟨hok,?_⟩
      rw [occ_eq_some.mpr ⟨hstate,rfl⟩]
      rfl
  | readKey probe =>
    obtain ⟨hsearching,hsome⟩ := hok
    rw [getStep]
    by_cases hkey : (map.slot (map.slotOf key probe)).primaryKey = key
    · rw [if_pos hkey]
      obtain ⟨other,hother⟩ := Option.isSome_iff_exists.mp hsome
      exact occ_eq_some.mpr ⟨(occ_eq_some.mp hother).1,hkey⟩
    · rw [if_neg hkey]
      obtain ⟨hnext,hpassed⟩ := hsearching.next hcapacity hsome hkey
      exact getLoop_ok (hnext ▸ hpassed)
  | loadRow index =>
    obtain ⟨row,hrow,hkey,-⟩ := hm.row hok
    rw [getStep,hrow]
    exact hkey
  | returned result => exact hok

/-- Where a lookup of a key can stand when the key had the row before it began. -/
def Serves (rowRef : RealtimeRowRef) : GetPc → Prop
  | .returned (.ok (some row)) => row.position.partition = rowRef.position.partition ∧
      rowRef.position.offset ≤ row.position.offset
  | .returned _ => False
  | _ => True

variable {rowRef : RealtimeRowRef}

theorem Holds.ahead (hh : map.Holds key rowRef) (hm : MapOk map) {n : ℕ} (hpassed : map.Passed key n) :
    n < map.capacity ∧ (map.occ (map.probeIndex key n)).isSome := by
  obtain ⟨index,row,hocc,-⟩ := hh
  obtain ⟨probe,hlt,rfl,hothers⟩ := hm.placed hocc
  have hle := hpassed.le hocc
  refine ⟨by omega,?_⟩
  by_cases hlast : n = probe
  · rw [hlast,hocc]
    rfl
  · obtain ⟨other,hother,-⟩ := hothers n (by omega)
    rw [hother]
    rfl

theorem getLoop_serves (hh : map.Holds key rowRef) (hm : MapOk map) {probe : UInt64}
    (hpassed : map.Passed key probe.toNat) : Serves rowRef (map.getLoop probe) := by
  rw [getLoop,if_pos (hh.ahead hm hpassed).1]
  trivial

theorem getStep_serves (hh : map.Holds key rowRef) (hm : MapOk map) (hcapacity : map.capacity < 2^64)
    {pc : GetPc} (hok : map.GetOk key pc) (hserves : Serves rowRef pc) :
    Serves rowRef (map.getStep key pc) := by
  cases pc with
  | loadState probe =>
    obtain ⟨other,hother⟩ := Option.isSome_iff_exists.mp (hh.ahead hm hok.passed).2
    have hstate : (map.slot (map.slotOf key probe)).state = .kOccupied := (occ_eq_some.mp hother).1
    rw [getStep,hstate]
    trivial
  | readKey probe =>
    obtain ⟨hsearching,hsome⟩ := hok
    rw [getStep]
    by_cases hkey : (map.slot (map.slotOf key probe)).primaryKey = key
    · rw [if_pos hkey]
      trivial
    · rw [if_neg hkey]
      obtain ⟨hnext,hpassed⟩ := hsearching.next hcapacity hsome hkey
      exact getLoop_serves hh hm (hnext ▸ hpassed)
  | loadRow index =>
    obtain ⟨other,row,hocc,hrow,hpartition,hoffset⟩ := hh
    -- the lookup stands at the only slot of its key
    obtain rfl := (hm.placed hocc).unique (hm.placed hok) hocc hok
    rw [getStep,hrow]
    exact ⟨hpartition,hoffset⟩
  | returned result => exact hserves

end Gets

/-- What every interleaving keeps. -/
structure WorldOk (world : World) : Prop where
  capacity : world.map.capacity < 2^64
  mapOk : MapOk world.map
  calls : ∀ call ∈ world.calls, world.map.CallOk call
  apart : ∀ {i j index : ℕ} {call call' : Call}, world.calls[i]? = some call → world.calls[j]? = some call' →
    call.owns = some index → call'.owns = some index → i = j
  count : world.map.uniqueKeyCount+world.calls.countP Call.counting = world.map.occupiedCount

section Worlds

variable {world world' : World} {key : UInt64} {rowRef : RealtimeRowRef} {label : Label}

theorem WorldOk.begin (h : WorldOk world) {call : Call} (hok : world.map.CallOk call)
    (howns : call.owns = none) (hcount : call.counting = false) :
    WorldOk { world with calls := world.calls++[call] } := by
  refine ⟨h.capacity,h.mapOk,?_,?_,?_⟩
  · intro other hother
    rcases List.mem_append.mp hother with hother | hother
    · exact h.calls other hother
    · rw [List.mem_singleton.mp hother]
      exact hok
  · intro i j index a b ha hb hai hbj
    have hold : ∀ {k : ℕ} {c : Call}, (world.calls++[call])[k]? = some c → c.owns = some index →
        world.calls[k]? = some c := by
      intro k c hk hc
      by_cases hlt : k < world.calls.length
      · rwa [List.getElem?_append_left hlt] at hk
      · rw [List.getElem?_append_right (by omega)] at hk
        obtain rfl := List.mem_singleton.mp (List.mem_of_getElem? hk)
        rw [howns] at hc
        cases hc
    exact h.apart (hold ha hai) (hold hb hbj) hai hbj
  · show _+(world.calls++[call]).countP Call.counting = _
    rw [List.countP_append,List.countP_singleton,hcount]
    exact h.count

/-- The access of a publish leaves the other calls where they are. -/
theorem WorldOk.publishAccess (h : WorldOk world) {i : ℕ} {pc : PublishPc}
    (hcall : world.calls[i]? = some (.publish key rowRef pc)) (spurious : Bool) :
    Later world.map (world.map.publishStep spurious key rowRef pc).2 ∧ WorldOk {
      map := (world.map.publishStep spurious key rowRef pc).2
      calls := world.calls.set i
        (.publish key rowRef (world.map.publishStep spurious key rowRef pc).1) } := by
  have hlt : i < world.calls.length := (List.getElem?_eq_some_iff.mp hcall).1
  have hat : world.calls[i] = .publish key rowRef pc := (List.getElem?_eq_some_iff.mp hcall).2
  have hmine := h.calls _ (List.mem_of_getElem? hcall)
  have hmoves := publishStep_moves h.mapOk h.capacity hmine spurious
  generalize (world.map.publishStep spurious key rowRef pc).1 = pc' at hmoves ⊢
  generalize (world.map.publishStep spurious key rowRef pc).2 = map' at hmoves ⊢
  -- a slot of another call is not one that this access writes
  have hother : ∀ {j : ℕ} {call : Call} {index : ℕ}, j ≠ i → world.calls[j]? = some call →
      call.owns = some index → (world.map.slot index).state = .kReserved ∧ pc.owns ≠ some index := by
    intro j call index hne hj howns
    refine ⟨?_,fun hpc => hne (h.apart hj hcall howns hpc)⟩
    have hok := h.calls _ (List.mem_of_getElem? hj)
    cases call with
    | publish key' rowRef' pc'' => exact (PublishOk.reserved hok howns).state
    | get key' pc'' => cases howns
  refine ⟨hmoves.later,hmoves.later.capacity ▸ h.capacity,hmoves.mapOk,?_,?_,?_⟩
  · intro call hmem
    obtain ⟨j,hj⟩ := List.mem_iff_getElem?.mp hmem
    by_cases hji : j = i
    · rw [hji,List.getElem?_set_self hlt,Option.some.injEq] at hj
      rw [← hj]
      exact hmoves.publishOk
    · rw [List.getElem?_set_ne (Ne.symm hji)] at hj
      refine hmoves.later.callOk (h.calls _ (List.mem_of_getElem? hj)) ?_
      intro index howns
      obtain ⟨hreserved,hpc⟩ := hother hji hj howns
      exact hmoves.frame index hreserved hpc
  · -- a newly reserved slot was empty, and those of the other calls are reserved
    have hnew : ∀ {j index : ℕ} {call : Call}, pc'.owns = some index → j ≠ i →
        world.calls[j]? = some call → call.owns ≠ some index := by
      intro j index call hpc' hne hj howns
      obtain ⟨hreserved,hpc⟩ := hother hne hj howns
      rcases hmoves.owns index hpc' with hold | hempty
      · exact hpc hold
      · rw [hreserved] at hempty
        cases hempty
    intro j k index a b ha hb hown hown'
    by_cases hj : j = i
    · by_cases hk : k = i
      · rw [hj,hk]
      · rw [hj,List.getElem?_set_self hlt,Option.some.injEq] at ha
        rw [List.getElem?_set_ne (Ne.symm hk)] at hb
        rw [← ha] at hown
        exact absurd hown' (hnew hown hk hb)
    · rw [List.getElem?_set_ne (Ne.symm hj)] at ha
      by_cases hk : k = i
      · rw [hk,List.getElem?_set_self hlt,Option.some.injEq] at hb
        rw [← hb] at hown'
        exact absurd hown (hnew hown' hj ha)
      · rw [List.getElem?_set_ne (Ne.symm hk)] at hb
        exact h.apart ha hb hown hown'
  · have hset := countP_set_add hlt (Call.publish key rowRef pc') Call.counting
    rw [hat] at hset
    have hcount := h.count
    have hmoved := hmoves.count
    show map'.uniqueKeyCount+(world.calls.set i (.publish key rowRef pc')).countP Call.counting =
      map'.occupiedCount
    simp only [Call.counting] at hset
    omega

theorem WorldOk.getAccess (h : WorldOk world) {i : ℕ} {pc : GetPc}
    (hcall : world.calls[i]? = some (.get key pc)) : WorldOk { world with
      calls := world.calls.set i (.get key (world.map.getStep key pc)) } := by
  have hlt : i < world.calls.length := (List.getElem?_eq_some_iff.mp hcall).1
  have hat : world.calls[i] = .get key pc := (List.getElem?_eq_some_iff.mp hcall).2
  refine ⟨h.capacity,h.mapOk,?_,?_,?_⟩
  · intro call hmem
    rcases List.mem_or_eq_of_mem_set hmem with hmem | rfl
    · exact h.calls call hmem
    · exact getStep_ok h.mapOk h.capacity (h.calls _ (List.mem_of_getElem? hcall))
  · intro j k index a b ha hb hown hown'
    have hold : ∀ {j : ℕ} {call : Call}, (world.calls.set i
        (.get key (world.map.getStep key pc)))[j]? = some call → call.owns = some index →
        world.calls[j]? = some call := by
      intro j call hj howns
      by_cases hji : j = i
      · rw [hji,List.getElem?_set_self hlt,Option.some.injEq] at hj
        rw [← hj] at howns
        cases howns
      · rwa [List.getElem?_set_ne (Ne.symm hji)] at hj
    exact h.apart (hold ha hown) (hold hb hown') hown hown'
  · have hset := countP_set_add hlt (Call.get key (world.map.getStep key pc)) Call.counting
    rw [hat] at hset
    have hsame : (world.calls.set i (.get key (world.map.getStep key pc))).countP Call.counting =
      world.calls.countP Call.counting := hset
    show world.map.uniqueKeyCount+(world.calls.set i _).countP Call.counting = _
    rw [hsame]
    exact h.count

theorem WorldOk.step (h : WorldOk world) (hstep : Step world label world') :
    Later world.map world'.map ∧ WorldOk world' := by
  cases hstep with
  | publish key rowRef =>
    obtain ⟨hok,howns,hcount⟩ := startPublish_ok world.map key rowRef
    exact ⟨Later.refl _,h.begin hok howns hcount⟩
  | get key => exact ⟨Later.refl _,h.begin (getLoop_zero_ok key) rfl rfl⟩
  | publishAccess spurious hcall => exact h.publishAccess hcall spurious
  | getAccess spurious hcall => exact ⟨Later.refl _,h.getAccess hcall⟩

theorem worldOk_create (capacity hashSeed : UInt64) (hashVersion : UInt32) :
    WorldOk (World.create capacity hashSeed hashVersion) := by
  have hslots : (World.create capacity hashSeed hashVersion).map.slots =
      List.replicate capacity.toNat {} := rfl
  have hempty : ∀ index key, (World.create capacity hashSeed hashVersion).map.occ index ≠ some key := by
    intro index key hocc
    have hstate := (occ_eq_some.mp hocc).1
    rw [slot,hslots,List.getD_eq_getElem?_getD,List.getElem?_replicate] at hstate
    split_ifs at hstate
    · cases hstate
    · cases hstate
  refine ⟨?_,⟨fun hocc => absurd hocc (hempty _ _),fun hocc => absurd hocc (hempty _ _)⟩,
    by simp [World.create],by simp [World.create],?_⟩
  · rw [RealtimeAtomicHashMap.capacity,hslots,List.length_replicate]
    exact capacity.toNat_lt
  · rw [occupiedCount,hslots]
    simp [World.create,create,List.countP_replicate]

/-- A lookup that begins when the key has the row finds one that is at least as new. -/
def LateGets (n : ℕ) (key : UInt64) (rowRef : RealtimeRowRef) (world : World) : Prop :=
  ∀ i pc, n ≤ i → world.calls[i]? = some (.get key pc) → Serves rowRef pc

theorem LateGets.step {n : ℕ} (h : LateGets n key rowRef world) (hok : WorldOk world)
    (hh : world.map.Holds key rowRef) (hstep : Step world label world') :
    LateGets n key rowRef world' := by
  intro i pc hi hcall
  cases hstep with
  | publish key' rowRef' =>
    by_cases hlt : i < world.calls.length
    · exact h i pc hi (by rwa [List.getElem?_append_left hlt] at hcall)
    · rw [List.getElem?_append_right (by omega)] at hcall
      cases List.mem_singleton.mp (List.mem_of_getElem? hcall)
  | get key' =>
    by_cases hlt : i < world.calls.length
    · exact h i pc hi (by rwa [List.getElem?_append_left hlt] at hcall)
    · rw [List.getElem?_append_right (by omega)] at hcall
      cases List.mem_singleton.mp (List.mem_of_getElem? hcall)
      exact getLoop_serves hh hok.mapOk fun _ hq => absurd hq (by simp)
  | @publishAccess j key' rowRef' pc' spurious hj =>
    by_cases hij : i = j
    · rw [hij,List.getElem?_set_self (List.getElem?_eq_some_iff.mp hj).1] at hcall
      cases Option.some.inj hcall
    · rw [List.getElem?_set_ne (Ne.symm hij)] at hcall
      exact h i pc hi hcall
  | @getAccess j key' pc' spurious hj =>
    by_cases hij : i = j
    · rw [hij,List.getElem?_set_self (List.getElem?_eq_some_iff.mp hj).1] at hcall
      cases Option.some.inj hcall
      exact getStep_serves hh hok.mapOk hok.capacity (hok.calls _ (List.mem_of_getElem? hj))
        (h j pc' (hij ▸ hi) hj)
    · rw [List.getElem?_set_ne (Ne.symm hij)] at hcall
      exact h i pc hi hcall

end Worlds

section Runs

variable {mid world : World} {labels : List Label}

theorem WorldOk.run (h : WorldOk mid) (hrun : Steps Step mid labels world) :
    Later mid.map world.map ∧ WorldOk world := by
  refine hrun.invariant (fun _ world => Later mid.map world.map ∧ WorldOk world) ⟨Later.refl _,h⟩ ?_
  intro _ _ _ _ ⟨hlater,hok⟩ hstep
  obtain ⟨hlater',hok'⟩ := hok.step hstep
  exact ⟨hlater.trans hlater',hok'⟩

theorem lateGets_run (h : WorldOk mid) {key : UInt64} {rowRef : RealtimeRowRef}
    (hh : mid.map.Holds key rowRef) (hrun : Steps Step mid labels world) :
    LateGets mid.calls.length key rowRef world := by
  have hboth := hrun.invariant (fun _ world => (Later mid.map world.map ∧ WorldOk world) ∧
    LateGets mid.calls.length key rowRef world) ⟨⟨Later.refl _,h⟩,?_⟩ ?_
  · exact hboth.2
  · intro i pc hi hcall
    rw [List.getElem?_eq_none hi] at hcall
    cases hcall
  · intro _ _ _ _ ⟨⟨hlater,hok⟩,hlate⟩ hstep
    obtain ⟨hlater',hok'⟩ := hok.step hstep
    exact ⟨⟨hlater.trans hlater',hok'⟩,hlate.step hok (hlater.holds hh) hstep⟩

def World.quiet (world : World) : Bool := world.calls.all Call.done

theorem counting_of_quiet (h : world.quiet = true) : world.calls.countP Call.counting = 0 := by
  rw [List.countP_eq_zero]
  intro call hmem
  have hdone := List.all_eq_true.mp h call hmem
  cases call with
  | publish key rowRef pc =>
    cases pc with
    | returned result => simp [Call.counting,PublishPc.counting]
    | _ => cases hdone
  | get key pc => simp [Call.counting]

end Runs

/-- Between any two moments of any interleaving: a key has one slot; an occupied slot keeps its key
and has a row of it, which moves to greater offsets of its partition only; the counter counts
occupied slots; a lookup answers for its key, and one that begins after a publish of the key
returned finds a row at least as new. -/
theorem map_survives_interleaving {capacity hashSeed : UInt64} {hashVersion : UInt32}
    {before after : List Label} {mid world : World}
    (hbefore : Steps Step (World.create capacity hashSeed hashVersion) before mid)
    (hafter : Steps Step mid after world) :
    (∀ i j key, world.map.occ i = some key → world.map.occ j = some key → i = j) ∧
    (∀ index key, mid.map.occ index = some key → world.map.occ index = some key) ∧
    (∀ index key, world.map.occ index = some key →
      ∃ row, (world.map.slot index).latestRow = some row ∧ row.primaryKey = key) ∧
    (∀ index key row, mid.map.occ index = some key → (mid.map.slot index).latestRow = some row →
      ∃ row', (world.map.slot index).latestRow = some row' ∧
        row'.position.partition = row.position.partition ∧
        (row' = row ∨ row.position.offset < row'.position.offset)) ∧
    world.map.uniqueKeyCount ≤ world.map.occupiedCount ∧
    (world.quiet = true → world.map.uniqueKeyCount = world.map.occupiedCount) ∧
    (∀ key result, Call.get key (.returned result) ∈ world.calls →
      result = .ok none ∨ ∃ row, result = .ok (some row) ∧ row.primaryKey = key) ∧
    ∀ key rowRef report, Call.publish key rowRef (.returned (.ok report)) ∈ mid.calls →
      ∀ i result, mid.calls.length ≤ i → world.calls[i]? = some (.get key (.returned result)) →
        ∃ row, result = .ok (some row) ∧ rowRef.position.offset ≤ row.position.offset := by
  obtain ⟨-,hmid⟩ := (worldOk_create capacity hashSeed hashVersion).run hbefore
  obtain ⟨hlater,hok⟩ := hmid.run hafter
  have hcount := hok.count
  refine ⟨?_,fun index key => hlater.occ,?_,?_,by omega,?_,?_,?_⟩
  · intro i j key hi hj
    exact (hok.mapOk.placed hi).unique (hok.mapOk.placed hj) hi hj
  · intro index key hocc
    obtain ⟨row,hrow,hkey,-⟩ := hok.mapOk.row hocc
    exact ⟨row,hrow,hkey⟩
  · intro index key row hocc hrow
    obtain ⟨row',hrow',hrowLater⟩ := hlater.row hocc hrow
    exact ⟨row',hrow',hrowLater.partition,hrowLater.offset⟩
  · intro hquiet
    rw [counting_of_quiet hquiet] at hcount
    exact hcount
  · intro key result hmem
    have hanswer := hok.calls _ hmem
    cases result with
    | error status => exact absurd hanswer id
    | ok row =>
      cases row with
      | none => exact Or.inl rfl
      | some row => exact Or.inr ⟨row,rfl,hanswer⟩
  · intro key rowRef report hmem i result hi hcall
    have hserves := lateGets_run hmid (hmid.calls _ hmem) hafter i _ hi hcall
    cases result with
    | error status => exact absurd hserves id
    | ok row =>
      cases row with
      | none => exact absurd hserves id
      | some row => exact ⟨row,rfl,hserves.2⟩

def sampleRow (offset : Int64) : RealtimeRowRef where
  primaryKey := 7
  position := { partition := 0,offset }
  encoded := {}
  rowSlotBytes := 0
  payloadPoolBytes := 0

/-- Two publishes of one key race for an empty slot. The loser finds it occupied and replaces the
row, before the winner has counted the slot. -/
def sampleRace : List Label :=
  [.publish 7 (sampleRow 1),.publish 7 (sampleRow 2),.access 0 false,.access 1 false,.access 0 false,
    .access 1 false,.access 0 false,.access 0 false,.access 0 false,.access 1 false,.access 1 false,
    .access 1 false,.access 1 false]

def sampleLookup : List Label :=
  [.get 7,.access 2 false,.access 2 false,.access 0 false,.access 2 false]

def sampleSlot : Slot where
  state := .kOccupied
  primaryKey := 7
  latestRow := some (sampleRow 2)

def sampleMid : World where
  map := { slots := [sampleSlot],hashSeed := 0,hashVersion := 1,uniqueKeyCount := 0 }
  calls := [.publish 7 (sampleRow 1) (.addCount 0),.publish 7 (sampleRow 2) (.returned (.ok true))]

def sampleEnd : World where
  map := { sampleMid.map with uniqueKeyCount := 1 }
  calls := [.publish 7 (sampleRow 1) (.returned (.ok true)),
    .publish 7 (sampleRow 2) (.returned (.ok true)),.get 7 (.returned (.ok (some (sampleRow 2))))]

theorem map_survives_interleaving_race :
    (World.create 1 0 1).follow sampleRace = some sampleMid ∧
      sampleMid.follow sampleLookup = some sampleEnd ∧
      sampleMid.map.uniqueKeyCount < sampleMid.map.occupiedCount ∧
      sampleEnd.map.uniqueKeyCount = sampleEnd.map.occupiedCount ∧
      ∃ row, (sampleEnd.map.slot 0).latestRow = some row ∧ row.primaryKey = 7 := by
  have hrace : (World.create 1 0 1).follow sampleRace = some sampleMid := by decide +kernel
  have hlookup : sampleMid.follow sampleLookup = some sampleEnd := by decide +kernel
  obtain ⟨-,-,hrow,-,-,hcount,-⟩ :=
    map_survives_interleaving (steps_of_follow hrace) (steps_of_follow hlookup)
  exact ⟨hrace,hlookup,by decide,hcount (by decide),hrow 0 7 (by decide)⟩

end RealtimeAtomicHashMap
end KvIndex
