import Mathlib.Data.List.GetD
import KvIndex.Probing
import KvIndex.RealtimeDelta

/-! The realtime hash map as a map from keys to rows. `Sound` is what every
sequence of publishes keeps; under it `Get` reads the abstract map `visible` and
`PublishAndReport` updates it at one key. -/
namespace KvIndex
namespace RealtimeAtomicHashMap

open Base

variable (map : RealtimeAtomicHashMap)

def occ (index : ℕ) : Option UInt64 :=
  if (map.slot index).state = .kOccupied then some (map.slot index).primaryKey else none

/-- Keys sit where a probe finds them, and every occupied slot has a row of its key
from a valid position. -/
structure Sound : Prop where
  placed : Probing.Placed map.probeIndex map.capacity map.occ
  row : ∀ {index : ℕ} {k : UInt64}, map.occ index = some k →
    ∃ row, (map.slot index).latestRow = some row ∧ row.primaryKey = k ∧
      isValidSourcePosition row.position = true

def visible (k : UInt64) : Option RealtimeRowRef :=
  (map.slots.find? fun slot => slot.state = .kOccupied ∧ slot.primaryKey = k).bind (·.latestRow)

variable {map}

theorem occ_eq_some {index : ℕ} {k : UInt64} : map.occ index = some k ↔
    (map.slot index).state = .kOccupied ∧ (map.slot index).primaryKey = k := by
  by_cases h : (map.slot index).state = .kOccupied
  · simp [occ,h]
  · simp [occ,h]

theorem occ_eq_none {index : ℕ} : map.occ index = none ↔ (map.slot index).state ≠ .kOccupied := by
  by_cases h : (map.slot index).state = .kOccupied
  · simp [occ,h]
  · simp [occ,h]

theorem occ_lt {index : ℕ} {k : UInt64} (h : map.occ index = some k) : index < map.capacity := by
  by_contra hge
  have hdef : map.slot index = {} := by
    simp only [slot,capacity] at hge ⊢
    rw [List.getD_eq_default _ _ (by omega)]
  have hstate := (occ_eq_some.mp h).1
  rw [hdef] at hstate
  cases hstate

theorem probeIndex_lt (h : map.capacity ≠ 0) (k : UInt64) (probe : ℕ) :
    map.probeIndex k probe < map.capacity := by
  simp only [probeIndex]
  split_ifs with hp
  · rw [and_mask_of_isPowerOfTwo hp]
    exact Nat.mod_lt _ (by omega)
  · exact Nat.mod_lt _ (by omega)

theorem Sound.visible_of_occ (hs : map.Sound) {index : ℕ} {k : UInt64}
    (hocc : map.occ index = some k) : map.visible k = (map.slot index).latestRow := by
  have hlt := occ_lt hocc
  simp only [capacity] at hlt
  obtain ⟨hstate,hkey⟩ := occ_eq_some.mp hocc
  have hget : map.slot index = map.slots[index] := by
    rw [slot,List.getD_eq_getElem _ _ hlt]
  have hex : ∃ found, map.slots.find? (fun slot => slot.state = .kOccupied ∧ slot.primaryKey = k) =
      some found := by
    cases hf : map.slots.find? (fun slot => slot.state = .kOccupied ∧ slot.primaryKey = k) with
    | some found => exact ⟨found,rfl⟩
    | none =>
      rw [List.find?_eq_none] at hf
      have hno := hf _ (List.getElem_mem hlt)
      rw [← hget] at hno
      simp [hstate,hkey] at hno
  obtain ⟨found,hf⟩ := hex
  obtain ⟨i,hi,hfi⟩ := List.getElem_of_mem (List.mem_of_find?_eq_some hf)
  have hfs : found.state = .kOccupied ∧ found.primaryKey = k := by simpa using List.find?_some hf
  have hocci : map.occ i = some k := by
    apply occ_eq_some.mpr
    rw [slot,List.getD_eq_getElem _ _ hi,hfi]
    exact hfs
  have hsame := hs.placed.unique hocci hocc
  subst hsame
  rw [visible,hf,hget,hfi]
  rfl

theorem visible_of_absent {k : UInt64} (h : ∀ index, map.occ index ≠ some k) :
    map.visible k = none := by
  have hf : map.slots.find? (fun slot => slot.state = .kOccupied ∧ slot.primaryKey = k) = none := by
    rw [List.find?_eq_none]
    intro found hmem
    obtain ⟨i,hi,hfi⟩ := List.getElem_of_mem hmem
    have hno := h i
    intro hyes
    apply hno
    apply occ_eq_some.mpr
    rw [slot,List.getD_eq_getElem _ _ hi,hfi]
    simpa using hyes
  rw [visible,hf]
  rfl

theorem Sound.occ_of_visible (hs : map.Sound) {k : UInt64} {row : RealtimeRowRef}
    (h : map.visible k = some row) :
    ∃ index, map.occ index = some k ∧ (map.slot index).latestRow = some row := by
  by_contra hno
  push Not at hno
  by_cases hocc : ∃ index, map.occ index = some k
  · obtain ⟨index,hindex⟩ := hocc
    have hvis := hs.visible_of_occ hindex
    exact hno index hindex (hvis ▸ h)
  · push Not at hocc
    rw [visible_of_absent hocc] at h
    cases h

theorem Sound.visible_row (hs : map.Sound) {k : UInt64} {row : RealtimeRowRef}
    (h : map.visible k = some row) :
    row.primaryKey = k ∧ isValidSourcePosition row.position = true := by
  obtain ⟨index,hocc,hrow⟩ := hs.occ_of_visible h
  obtain ⟨row',hrow',hkey,hvalid⟩ := hs.row hocc
  rw [hrow,Option.some.injEq] at hrow'
  subst hrow'
  exact ⟨hkey,hvalid⟩

theorem Sound.occ_of_visible_none (hs : map.Sound) {k : UInt64} (h : map.visible k = none)
    (index : ℕ) : map.occ index ≠ some k := by
  intro hocc
  obtain ⟨row,hrow,_⟩ := hs.row hocc
  rw [hs.visible_of_occ hocc,hrow] at h
  cases h

/-- A slot that stops no probe for `k`: it holds another key. -/
theorem getFrom_skip {k k' : UInt64} {probe : ℕ} (remaining : ℕ)
    (hocc : map.occ (map.probeIndex k probe) = some k') (hne : k' ≠ k) :
    map.getFrom k (remaining+1) probe = map.getFrom k remaining (probe+1) := by
  obtain ⟨hstate,hkey⟩ := occ_eq_some.mp hocc
  rw [getFrom]
  simp [hstate,hkey,hne]

theorem getFrom_walk {k : UInt64} (remaining j : ℕ)
    (hother : ∀ i < j, ∃ k', map.occ (map.probeIndex k i) = some k' ∧ k' ≠ k) :
    map.getFrom k (remaining+j) 0 = map.getFrom k remaining j := by
  induction j generalizing remaining with
  | zero => rfl
  | succ j ih =>
    obtain ⟨k',hk',hne⟩ := hother j (by omega)
    have hrest := ih (remaining+1) (fun i hi => hother i (by omega))
    rw [← getFrom_skip remaining hk' hne,← hrest]
    congr 1
    omega

theorem getFrom_absent {k : UInt64} (h : ∀ index, map.occ index ≠ some k) (remaining probe : ℕ) :
    map.getFrom k remaining probe = .ok none := by
  induction remaining generalizing probe with
  | zero => rfl
  | succ remaining ih =>
    rw [getFrom]
    by_cases hstop : (map.slot (map.probeIndex k probe)).state = .kReserved ∨
        (map.slot (map.probeIndex k probe)).state = .kEmpty
    · simp only [hstop,if_true]
    · have hstate : (map.slot (map.probeIndex k probe)).state = .kOccupied := by
        cases hst : (map.slot (map.probeIndex k probe)).state with
        | kOccupied => rfl
        | kEmpty => exact absurd (Or.inr hst) hstop
        | kReserved => exact absurd (Or.inl hst) hstop
      have hne : (map.slot (map.probeIndex k probe)).primaryKey ≠ k := by
        intro hkey
        exact h _ (occ_eq_some.mpr ⟨hstate,hkey⟩)
      simp only [hstop,if_false,hne,ne_eq,not_false_iff,if_true]
      exact ih (probe+1)

/-- `Get` reads the abstract map. -/
theorem Sound.get_eq (hs : map.Sound) (k : UInt64) : map.get k = .ok (map.visible k) := by
  rw [get]
  by_cases hocc : ∃ index, map.occ index = some k
  · obtain ⟨index,hindex⟩ := hocc
    obtain ⟨j,hj,hji,hother⟩ := hs.placed.first_hit hindex
    obtain ⟨row,hrow,_,_⟩ := hs.row hindex
    obtain ⟨hstate,hkey⟩ := occ_eq_some.mp hindex
    have hwalk := getFrom_walk (map.capacity-j) j hother
    have hcap : map.capacity-j+j = map.capacity := by omega
    rw [hcap] at hwalk
    obtain ⟨r,hr⟩ : ∃ r, map.capacity-j = r+1 := ⟨map.capacity-j-1,by omega⟩
    rw [if_neg (by omega),hwalk,hr,getFrom,hs.visible_of_occ hindex]
    simp [hji,hstate,hkey,hrow]
  · push Not at hocc
    rw [visible_of_absent hocc]
    split_ifs
    · rfl
    · exact getFrom_absent hocc _ _

/-- The map after `slot` was stored at `index`. -/
def store (map : RealtimeAtomicHashMap) (index : ℕ) (slot : Slot) (uniqueKeyCount : ℕ) :
    RealtimeAtomicHashMap :=
  { map with slots := map.slots.set index slot,uniqueKeyCount }

@[simp] theorem store_capacity (index : ℕ) (slot : Slot) (n : ℕ) :
    (map.store index slot n).capacity = map.capacity := by simp [store,capacity]

@[simp] theorem store_probeIndex (index : ℕ) (slot : Slot) (n : ℕ) :
    (map.store index slot n).probeIndex = map.probeIndex := by
  funext k probe
  simp only [probeIndex,store_capacity]
  rfl

theorem store_slot {index : ℕ} (h : index < map.capacity) (slot : Slot) (n i : ℕ) :
    (map.store index slot n).slot i = if i = index then slot else map.slot i := by
  simp only [capacity] at h
  simp only [RealtimeAtomicHashMap.slot,store,List.getD_eq_getElem?_getD,List.getElem?_set]
  by_cases hi : index = i
  · subst hi
    simp [h]
  · have hi' : i ≠ index := fun hc => hi hc.symm
    simp [hi,hi']

theorem store_occ {index : ℕ} (h : index < map.capacity) (k : UInt64) (row : RealtimeRowRef)
    (n : ℕ) : (map.store index ⟨.kOccupied,k,some row⟩ n).occ =
      Function.update map.occ index (some k) := by
  funext i
  simp only [occ,store_slot h,Function.update_apply]
  by_cases hi : i = index
  · simp [hi]
  · simp [hi]

/-- What storing a row at an occupied or first free slot of its key does to the map. -/
theorem Sound.store (hs : map.Sound) {index : ℕ} {k : UInt64} {row : RealtimeRowRef} (n : ℕ)
    (hindex : index < map.capacity) (hkey : row.primaryKey = k)
    (hvalid : isValidSourcePosition row.position = true)
    (hplace : map.occ index = some k ∨ ((∀ i, map.occ i ≠ some k) ∧ map.occ index = none ∧
      ∃ j < map.capacity, map.probeIndex k j = index ∧
        ∀ i < j, (map.occ (map.probeIndex k i)).isSome)) :
    (map.store index ⟨.kOccupied,k,some row⟩ n).Sound ∧
      (map.store index ⟨.kOccupied,k,some row⟩ n).visible =
        Function.update map.visible k (some row) := by
  have hocc := store_occ hindex k row n
  have hslot := store_slot hindex ⟨.kOccupied,k,some row⟩ n
  have hsound : (map.store index ⟨.kOccupied,k,some row⟩ n).Sound := by
    constructor
    · rw [hocc,store_probeIndex,store_capacity]
      rcases hplace with hat | ⟨habs,_,j,hj,hji,hbusy⟩
      · rw [← hat,Function.update_eq_self]
        exact hs.placed
      · rw [← hji]
        exact hs.placed.insert habs hj hbusy
    · intro i k' hk'
      rw [hocc,Function.update_apply] at hk'
      rw [hslot]
      split_ifs at hk' with hi
      · cases hk'
        exact ⟨row,by simp [hi],hkey,hvalid⟩
      · rw [if_neg hi]
        exact hs.row hk'
  refine ⟨hsound,?_⟩
  funext k'
  by_cases hk : k' = k
  · subst hk
    have hat : (map.store index ⟨.kOccupied,k',some row⟩ n).occ index = some k' := by
      rw [hocc,Function.update_self]
    rw [hsound.visible_of_occ hat,hslot,if_pos rfl,Function.update_self]
  · rw [Function.update_of_ne hk]
    by_cases hex : ∃ i, map.occ i = some k'
    · obtain ⟨i,hi⟩ := hex
      have hne : i ≠ index := by
        rintro rfl
        rcases hplace with hat | ⟨_,hfree,_⟩
        · rw [hat,Option.some.injEq] at hi
          exact hk hi.symm
        · rw [hfree] at hi
          cases hi
      have hi' : (map.store index ⟨.kOccupied,k,some row⟩ n).occ i = some k' := by
        rw [hocc,Function.update_of_ne hne,hi]
      rw [hsound.visible_of_occ hi',hslot,if_neg hne,hs.visible_of_occ hi]
    · push Not at hex
      rw [visible_of_absent hex]
      apply visible_of_absent
      intro i hi
      rw [hocc,Function.update_apply] at hi
      split_ifs at hi with h1
      · cases hi
        exact hk rfl
      · exact hex i hi

theorem publishFrom_skip {k k' : UInt64} {rowRef : RealtimeRowRef} {probe : ℕ} (remaining : ℕ)
    (hocc : map.occ (map.probeIndex k probe) = some k') (hne : k' ≠ k) :
    map.publishFrom k rowRef (remaining+1) probe = map.publishFrom k rowRef remaining (probe+1) := by
  obtain ⟨hstate,hkey⟩ := occ_eq_some.mp hocc
  rw [publishFrom]
  simp [hstate,hkey,hne]

theorem publishFrom_walk {k : UInt64} (rowRef : RealtimeRowRef) (remaining j : ℕ)
    (hother : ∀ i < j, ∃ k', map.occ (map.probeIndex k i) = some k' ∧ k' ≠ k) :
    map.publishFrom k rowRef (remaining+j) 0 = map.publishFrom k rowRef remaining j := by
  induction j generalizing remaining with
  | zero => rfl
  | succ j ih =>
    obtain ⟨k',hk',hne⟩ := hother j (by omega)
    have hrest := ih (remaining+1) (fun i hi => hother i (by omega))
    rw [← publishFrom_skip remaining hk' hne,← hrest]
    congr 1
    omega

/-- A publish of a key that the map does not hold takes the first empty slot or fails. -/
theorem publishFrom_absent {k : UInt64} {rowRef : RealtimeRowRef}
    (habs : ∀ index, map.occ index ≠ some k) {remaining probe : ℕ}
    {changed : Bool} {map' : RealtimeAtomicHashMap}
    (h : map.publishFrom k rowRef remaining probe = .ok (changed,map')) :
    ∃ j, probe ≤ j ∧ j < probe+remaining ∧ map.occ (map.probeIndex k j) = none ∧
      (∀ i, probe ≤ i → i < j → (map.occ (map.probeIndex k i)).isSome) ∧ changed = true ∧
      map' = map.store (map.probeIndex k j) ⟨.kOccupied,k,some rowRef⟩ (map.uniqueKeyCount+1) := by
  induction remaining generalizing probe with
  | zero =>
    rw [publishFrom] at h
    cases h
  | succ remaining ih =>
    rw [publishFrom] at h
    cases hstate : (map.slot (map.probeIndex k probe)).state with
    | kReserved =>
      simp only [hstate] at h
      cases h
    | kOccupied =>
      have hne : (map.slot (map.probeIndex k probe)).primaryKey ≠ k := by
        intro hkey
        exact habs _ (occ_eq_some.mpr ⟨hstate,hkey⟩)
      simp only [hstate,hne,if_false] at h
      obtain ⟨j,hle,hlt,hfree,hbusy,hc,hm⟩ := ih h
      refine ⟨j,by omega,by omega,hfree,?_,hc,hm⟩
      intro i hi hij
      rcases Nat.eq_or_lt_of_le hi with rfl | hi
      · rw [occ_eq_some.mpr ⟨hstate,rfl⟩]
        rfl
      · exact hbusy i hi hij
    | kEmpty =>
      simp only [hstate,Except.ok.injEq,Prod.mk.injEq] at h
      have hfree : map.occ (map.probeIndex k probe) = none := by
        rw [occ_eq_none,hstate]
        decide
      exact ⟨probe,le_rfl,by omega,hfree,fun i hi hij => by omega,h.1.symm,h.2.symm⟩

def supersedes (current : Option RealtimeRowRef) (rowRef : RealtimeRowRef) : StatusOr Bool :=
  match current with
  | none => .ok true
  | some current => do
    let decision ← classifySourcePositionUpdate current.position rowRef.position
    return decision == .kNewer

theorem publishExisting_eq (index : ℕ) {current rowRef : RealtimeRowRef} {k : UInt64}
    (hocc : map.occ index = some k) (hrow : (map.slot index).latestRow = some current) :
    map.publishExisting index rowRef = do
      let newer ← supersedes (some current) rowRef
      return (newer,if newer then map.store index ⟨.kOccupied,k,some rowRef⟩ map.uniqueKeyCount
        else map) := by
  obtain ⟨hstate,hkey⟩ := occ_eq_some.mp hocc
  simp only [publishExisting,hrow,supersedes,hstate,hkey]
  cases classifySourcePositionUpdate current.position rowRef.position with
  | error e => rfl
  | ok decision =>
    cases decision with
    | kStale => rfl
    | kIdempotent => rfl
    | kNewer => rfl

/-- A publish of a key that the map holds compares the positions, and nothing else. -/
theorem Sound.publishAndReport_held (hs : map.Sound) {k : UInt64} {rowRef current : RealtimeRowRef}
    (hkey : rowRef.primaryKey = k) (hvalid : isValidSourcePosition rowRef.position = true)
    (hvis : map.visible k = some current) :
    ∃ index, index < map.capacity ∧ map.occ index = some k ∧
      map.publishAndReport k rowRef = do
        let newer ← supersedes (some current) rowRef
        return (newer,if newer then map.store index ⟨.kOccupied,k,some rowRef⟩ map.uniqueKeyCount
          else map) := by
  obtain ⟨index,hocc,hrow⟩ := hs.occ_of_visible hvis
  obtain ⟨j,hj,hji,hother⟩ := hs.placed.first_hit hocc
  obtain ⟨hstate,hk⟩ := occ_eq_some.mp hocc
  refine ⟨index,occ_lt hocc,hocc,?_⟩
  have hwalk := publishFrom_walk rowRef (map.capacity-j) j hother
  have hcap : map.capacity-j+j = map.capacity := by omega
  have hcap0 : (map.capacity == 0) = false := by
    rw [beq_eq_false_iff_ne]
    omega
  rw [hcap] at hwalk
  obtain ⟨r,hr⟩ : ∃ r, map.capacity-j = r+1 := ⟨map.capacity-j-1,by omega⟩
  rw [publishAndReport,hkey,bne_self_eq_false,failIf_false,ok_bind,hvalid,Bool.not_true,
    failIf_false,ok_bind,hcap0,failIf_false,ok_bind,hwalk,hr,publishFrom]
  simp only [hji,hstate,hk,if_true]
  exact publishExisting_eq index hocc hrow

/-- Every successful publish: the reported flag and the abstract map after it. -/
theorem Sound.publishAndReport_ok (hs : map.Sound) {k : UInt64} {rowRef : RealtimeRowRef}
    {changed : Bool} {map' : RealtimeAtomicHashMap}
    (h : map.publishAndReport k rowRef = .ok (changed,map')) :
    supersedes (map.visible k) rowRef = .ok changed ∧ map'.Sound ∧
      map'.capacity = map.capacity ∧
      (if changed then map'.visible = Function.update map.visible k (some rowRef)
        else map' = map) := by
  have hchecks := h
  simp only [publishAndReport,bind_eq_ok,failIf_eq_ok,exists_const] at hchecks
  obtain ⟨hkey,hvalid,hcap,hfrom⟩ := hchecks
  simp only [bne_eq_false_iff_eq,Bool.not_eq_false',beq_eq_false_iff_ne] at hkey hvalid hcap
  cases hvis : map.visible k with
  | some current =>
    obtain ⟨index,hindex,hocc,hpub⟩ := hs.publishAndReport_held hkey hvalid hvis
    rw [hpub] at h
    simp only [bind_eq_ok,pure_eq_ok,Except.ok.injEq,Prod.mk.injEq] at h
    obtain ⟨newer,hnewer,rfl,rfl⟩ := h
    refine ⟨hnewer,?_⟩
    cases newer with
    | false => exact ⟨hs,rfl,rfl⟩
    | true =>
      obtain ⟨hsound,hv⟩ := hs.store map.uniqueKeyCount hindex hkey hvalid (Or.inl hocc)
      exact ⟨hsound,store_capacity _ _ _,hv⟩
  | none =>
    have habs := hs.occ_of_visible_none hvis
    obtain ⟨j,_,hj,hfree,hbusy,rfl,rfl⟩ := publishFrom_absent habs hfrom
    obtain ⟨hsound,hv⟩ := hs.store (map.uniqueKeyCount+1) (probeIndex_lt hcap k j) hkey hvalid
      (Or.inr ⟨habs,hfree,j,by omega,rfl,fun i hi => hbusy i (by omega) hi⟩)
    exact ⟨rfl,hsound,store_capacity _ _ _,hv⟩

section Created

variable {capacity hashSeed : UInt64} {hashVersion : UInt32}

theorem create_slot (index : ℕ) : (create capacity hashSeed hashVersion).slot index = {} := by
  simp only [slot,create,List.getD_eq_getElem?_getD,List.getElem?_replicate]
  split_ifs <;> rfl

theorem create_occ (index : ℕ) : (create capacity hashSeed hashVersion).occ index = none := by
  rw [occ_eq_none,create_slot]
  decide

theorem create_visible (k : UInt64) : (create capacity hashSeed hashVersion).visible k = none := by
  refine visible_of_absent fun index => ?_
  rw [create_occ]
  exact (Option.some_ne_none k).symm

end Created

theorem sound_create (capacity hashSeed : UInt64) (hashVersion : UInt32) :
    (create capacity hashSeed hashVersion).Sound := by
  have hocc : (create capacity hashSeed hashVersion).occ = fun _ => none := funext create_occ
  constructor
  · rw [hocc]
    exact Probing.placed_empty
  · intro i k hk
    rw [hocc] at hk
    cases hk

end RealtimeAtomicHashMap
end KvIndex
