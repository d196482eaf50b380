import KvIndex.RealtimeOrder
import KvIndex.StableHash

/-! Which slots the probes of the realtime map reach. The sum of hash and probe wraps at 64 bits,
so a capacity that does not divide 2^64 makes the probes of some keys come back to slots that they
have seen and leave others out. -/
namespace KvIndex
namespace RealtimeAtomicHashMap

open Base

def applyCall (map : RealtimeAtomicHashMap) (call : UInt64×RealtimeRowRef) :
    RealtimeAtomicHashMap :=
  match map.publishAndReport call.1 call.2 with
  | .ok (_,published) => published
  | .error _ => map

def applyCalls (map : RealtimeAtomicHashMap) (calls : List (UInt64×RealtimeRowRef)) :
    RealtimeAtomicHashMap := calls.foldl applyCall map

/-- Every slot is on the probe sequence of every key once, a map with an unused slot takes every
new key, and every published key is found. -/
structure UsesAllSlots (capacity hashSeed : UInt64) (hashVersion : UInt32) : Prop where
  covers : ∀ primaryKey, ∀ index < capacity.toNat, ∃! probe, probe < capacity.toNat ∧
    (create capacity hashSeed hashVersion).probeIndex primaryKey probe = index
  admits : ∀ (calls : List (UInt64×RealtimeRowRef)) (rowRef : RealtimeRowRef),
    ((create capacity hashSeed hashVersion).applyCalls calls).uniqueKeyCount < capacity.toNat →
    isValidSourcePosition rowRef.position = true →
    ((create capacity hashSeed hashVersion).applyCalls calls).get rowRef.primaryKey = .ok none →
    ∃ map, ((create capacity hashSeed hashVersion).applyCalls calls).publishAndReport
      rowRef.primaryKey rowRef = .ok (true,map)
  keeps : ∀ (before after : List (UInt64×RealtimeRowRef)) (call : UInt64×RealtimeRowRef),
    (((create capacity hashSeed hashVersion).applyCalls before).publishAndReport
      call.1 call.2).isOk = true →
    ∃ row, ((create capacity hashSeed hashVersion).applyCalls (before++call::after)).get call.1 =
      .ok (some row)

variable {map : RealtimeAtomicHashMap}

/-- What a publish keeps of the map. -/
structure Preserved (map next : RealtimeAtomicHashMap) : Prop where
  sound : next.Sound
  capacity : next.capacity = map.capacity
  probeIndex : next.probeIndex = map.probeIndex
  unreserved : (∀ index, (map.slot index).state ≠ .kReserved) →
    ∀ index, (next.slot index).state ≠ .kReserved
  counted : map.uniqueKeyCount = Probing.load map.capacity map.occ →
    next.uniqueKeyCount = Probing.load next.capacity next.occ
  visible : ∀ k, (map.visible k).isSome → (next.visible k).isSome

theorem Preserved.refl (hs : map.Sound) : Preserved map map :=
  ⟨hs,rfl,rfl,fun h => h,fun h => h,fun _ h => h⟩

theorem Preserved.trans {next last : RealtimeAtomicHashMap} (h : Preserved map next)
    (h' : Preserved next last) : Preserved map last where
  sound := h'.sound
  capacity := h'.capacity.trans h.capacity
  probeIndex := h'.probeIndex.trans h.probeIndex
  unreserved := fun hnone => h'.unreserved (h.unreserved hnone)
  counted := fun hcount => h'.counted (h.counted hcount)
  visible := fun k hk => h'.visible k (h.visible k hk)

theorem store_unreserved {index : ℕ} (hindex : index < map.capacity) (k : UInt64)
    (row : RealtimeRowRef) (n : ℕ) (h : ∀ i, (map.slot i).state ≠ .kReserved) (i : ℕ) :
    ((map.store index ⟨.kOccupied,k,some row⟩ n).slot i).state ≠ .kReserved := by
  rw [store_slot hindex]
  by_cases hi : i = index
  · rw [if_pos hi]
    exact SlotState.noConfusion
  · rw [if_neg hi]
    exact h i

theorem visible_update {visible : UInt64 → Option RealtimeRowRef} {k k' : UInt64}
    {row : RealtimeRowRef} (h : (visible k').isSome) :
    (Function.update visible k (some row) k').isSome := by
  rw [Function.update_apply]
  by_cases hk : k' = k
  · rw [if_pos hk]
    rfl
  · rw [if_neg hk]
    exact h

/-- Every successful publish keeps the map, and its key is visible behind it. -/
theorem Sound.publish_preserved (hs : map.Sound) {k : UInt64} {rowRef : RealtimeRowRef}
    {changed : Bool} {next : RealtimeAtomicHashMap}
    (h : map.publishAndReport k rowRef = .ok (changed,next)) :
    Preserved map next ∧ (next.visible k).isSome := by
  have hchecks := h
  simp only [publishAndReport,bind_eq_ok,failIf_eq_ok,exists_const,bne_eq_false_iff_eq,
    Bool.not_eq_false',beq_eq_false_iff_ne] at hchecks
  obtain ⟨hkey,hvalid,hcap,hfrom⟩ := hchecks
  cases hvis : map.visible k with
  | some current =>
    obtain ⟨index,hindex,hocc,hpub⟩ := hs.publishAndReport_held hkey hvalid hvis
    rw [hpub] at h
    simp only [bind_eq_ok,pure_eq_ok,Except.ok.injEq,Prod.mk.injEq] at h
    obtain ⟨newer,-,rfl,rfl⟩ := h
    cases newer with
    | false => exact ⟨Preserved.refl hs,by simp [hvis]⟩
    | true =>
      obtain ⟨hsound,hv⟩ := hs.store map.uniqueKeyCount hindex hkey hvalid (Or.inl hocc)
      simp only [if_true]
      refine ⟨⟨hsound,store_capacity _ _ _,store_probeIndex _ _ _,
        store_unreserved hindex k rowRef _,?_,?_⟩,by rw [hv,Function.update_self]; rfl⟩
      · intro hcount
        rw [store_capacity,store_occ hindex,← hocc,Function.update_eq_self]
        exact hcount
      · intro k' hk'
        rw [hv]
        exact visible_update hk'
  | none =>
    have habs := hs.occ_of_visible_none hvis
    obtain ⟨j,_,hj,hfree,hbusy,rfl,rfl⟩ := publishFrom_absent habs hfrom
    have hindex := probeIndex_lt hcap k j
    obtain ⟨hsound,hv⟩ := hs.store (map.uniqueKeyCount+1) hindex hkey hvalid
      (Or.inr ⟨habs,hfree,j,by omega,rfl,fun i hi => hbusy i (by omega) hi⟩)
    refine ⟨⟨hsound,store_capacity _ _ _,store_probeIndex _ _ _,
      store_unreserved hindex k rowRef _,?_,?_⟩,by rw [hv,Function.update_self]; rfl⟩
    · intro hcount
      rw [store_capacity,store_occ hindex,Probing.load_update _ hindex k hfree,← hcount]
      rfl
    · intro k' hk'
      rw [hv]
      exact visible_update hk'

theorem Sound.applyCall (hs : map.Sound) (call : UInt64×RealtimeRowRef) :
    Preserved map (map.applyCall call) := by
  rw [RealtimeAtomicHashMap.applyCall]
  cases h : map.publishAndReport call.1 call.2 with
  | error status => exact Preserved.refl hs
  | ok result => exact (hs.publish_preserved h).1

theorem Sound.applyCalls (hs : map.Sound) (calls : List (UInt64×RealtimeRowRef)) :
    Preserved map (map.applyCalls calls) := by
  induction calls generalizing map with
  | nil => exact Preserved.refl hs
  | cons call calls ih => exact (hs.applyCall call).trans (ih (hs.applyCall call).sound)

theorem applyCalls_append (map : RealtimeAtomicHashMap) (before after : List (UInt64×RealtimeRowRef)) :
    map.applyCalls (before++after) = (map.applyCalls before).applyCalls after :=
  List.foldl_append

section Created

variable {capacity hashSeed : UInt64} {hashVersion : UInt32}

theorem create_capacity : (create capacity hashSeed hashVersion).capacity = capacity.toNat :=
  List.length_replicate

theorem create_counted : (create capacity hashSeed hashVersion).uniqueKeyCount =
    Probing.load (create capacity hashSeed hashVersion).capacity
      (create capacity hashSeed hashVersion).occ := by
  have hload : Probing.load (create capacity hashSeed hashVersion).capacity
      (create capacity hashSeed hashVersion).occ = 0 := by
    rw [Probing.load,List.countP_eq_zero]
    intro index _
    rw [create_occ]
    decide
  rw [hload]
  rfl

/-- Every published key is found, whatever was published before and after. -/
theorem published_found (before after : List (UInt64×RealtimeRowRef))
    (call : UInt64×RealtimeRowRef)
    (h : (((create capacity hashSeed hashVersion).applyCalls before).publishAndReport
      call.1 call.2).isOk = true) :
    ∃ row, ((create capacity hashSeed hashVersion).applyCalls (before++call::after)).get call.1 =
      .ok (some row) := by
  have hs := ((sound_create capacity hashSeed hashVersion).applyCalls before).sound
  cases hpub : ((create capacity hashSeed hashVersion).applyCalls before).publishAndReport
      call.1 call.2 with
  | error status =>
    rw [hpub] at h
    cases h
  | ok result =>
    obtain ⟨hpreserved,hvisible⟩ := hs.publish_preserved hpub
    have hafter := hpreserved.sound.applyCalls after
    have hlast : (create capacity hashSeed hashVersion).applyCalls (before++call::after) =
        result.2.applyCalls after := by
      rw [applyCalls_append]
      show (applyCall _ call).applyCalls after = _
      rw [applyCall,hpub]
    rw [hlast,hafter.sound.get_eq]
    obtain ⟨row,hrow⟩ := Option.isSome_iff_exists.mp (hafter.visible _ hvisible)
    exact ⟨row,by rw [hrow]⟩

/-- With a power of two, probing is linear and reaches every slot once. -/
theorem covers_of_isPowerOfTwo (h : isPowerOfTwo capacity.toNat = true) (primaryKey : UInt64)
    {index : ℕ} (hindex : index < capacity.toNat) : ∃! probe, probe < capacity.toNat ∧
      (create capacity hashSeed hashVersion).probeIndex primaryKey probe = index := by
  have hopen : (create capacity hashSeed hashVersion).Open := open_create h
  have hprobe : ∀ probe, (create capacity hashSeed hashVersion).probeIndex primaryKey probe =
      ((stableHash64 primaryKey hashSeed hashVersion).toNat+probe)%capacity.toNat := by
    intro probe
    rw [hopen.probeIndex_eq,create_capacity]
    rfl
  obtain ⟨probe,hlt,heq⟩ := Probing.exists_probe_of_linear
    (h := (stableHash64 primaryKey hashSeed hashVersion).toNat) hindex
  refine ⟨probe,⟨hlt,by rw [hprobe,heq]⟩,?_⟩
  rintro other ⟨hother,hsame⟩
  rw [hprobe,← heq] at hsame
  exact Nat.ModEq.eq_of_lt_of_lt (Nat.ModEq.add_left_cancel' _ hsame) hother hlt

theorem admits_of_isPowerOfTwo (h : isPowerOfTwo capacity.toNat = true)
    (calls : List (UInt64×RealtimeRowRef)) {rowRef : RealtimeRowRef}
    (hroom : ((create capacity hashSeed hashVersion).applyCalls calls).uniqueKeyCount <
      capacity.toNat)
    (hvalid : isValidSourcePosition rowRef.position = true)
    (hnew : ((create capacity hashSeed hashVersion).applyCalls calls).get rowRef.primaryKey =
      .ok none) :
    ∃ map, ((create capacity hashSeed hashVersion).applyCalls calls).publishAndReport
      rowRef.primaryKey rowRef = .ok (true,map) := by
  have hpreserved := (sound_create capacity hashSeed hashVersion).applyCalls calls
  have hcreated : (create capacity hashSeed hashVersion).Open := open_create h
  have hopen : ((create capacity hashSeed hashVersion).applyCalls calls).Open := by
    refine ⟨?_,?_,hpreserved.unreserved hcreated.unreserved⟩
    · rw [hpreserved.capacity]
      exact hcreated.capacity
    · rw [hpreserved.capacity]
      exact hcreated.bound
  rw [hpreserved.sound.get_eq,Except.ok.injEq] at hnew
  rw [hpreserved.counted create_counted] at hroom
  obtain ⟨index,-,hpub⟩ := hopen.publishAndReport_absent rfl hvalid
    (hpreserved.sound.occ_of_visible_none hnew) (by
      rw [hpreserved.capacity,create_capacity] at hroom ⊢
      exact hroom)
  exact ⟨_,hpub⟩

def rowOf (primaryKey : UInt64) : RealtimeRowRef := ⟨primaryKey,⟨0,0⟩,{},0,0⟩

theorem probeIndex_of_not_power (hpower : isPowerOfTwo capacity.toNat = false) (primaryKey : UInt64)
    (probe : ℕ) : (create capacity hashSeed hashVersion).probeIndex primaryKey probe =
      ((stableHash64 primaryKey hashSeed hashVersion).toNat+probe)%2^64%capacity.toNat := by
  rw [probeIndex,create_capacity,if_neg (by rw [hpower]; decide)]
  rfl

/-- Keys that hash to their own slot fill the map from its start. -/
theorem fill_slots (hpower : isPowerOfTwo capacity.toNat = false) {keyOf : ℕ → UInt64}
    (hkey : ∀ i < capacity.toNat, (stableHash64 (keyOf i) hashSeed hashVersion).toNat = i) {n : ℕ}
    (hn : n ≤ capacity.toNat) :
    (∀ i < n, ((create capacity hashSeed hashVersion).applyCalls
      ((List.range n).map fun i => (keyOf i,rowOf (keyOf i)))).occ i = some (keyOf i)) ∧
    (∀ i, n ≤ i → ((create capacity hashSeed hashVersion).applyCalls
      ((List.range n).map fun i => (keyOf i,rowOf (keyOf i)))).occ i = none) ∧
    ((create capacity hashSeed hashVersion).applyCalls
      ((List.range n).map fun i => (keyOf i,rowOf (keyOf i)))).uniqueKeyCount = n := by
  induction n with
  | zero =>
    exact ⟨fun i hi => absurd hi (Nat.not_lt_zero i),fun i _ => create_occ i,rfl⟩
  | succ n ih =>
    obtain ⟨hfull,hfree,hcount⟩ := ih (by omega)
    have hpreserved := (sound_create capacity hashSeed hashVersion).applyCalls
      ((List.range n).map fun i => (keyOf i,rowOf (keyOf i)))
    rw [List.range_succ,List.map_append,applyCalls_append]
    generalize (create capacity hashSeed hashVersion).applyCalls
      ((List.range n).map fun i => (keyOf i,rowOf (keyOf i))) = filled at *
    have hcapacity : filled.capacity = capacity.toNat := hpreserved.capacity.trans create_capacity
    have hindex : n < filled.capacity := by omega
    have hhome : filled.probeIndex (keyOf n) 0 = n := by
      rw [hpreserved.probeIndex,probeIndex_of_not_power hpower,hkey n (by omega),Nat.add_zero,
        Nat.mod_eq_of_lt (lt_trans (show n < capacity.toNat by omega) capacity.toNat_lt),
        Nat.mod_eq_of_lt (by omega)]
    have hempty : (filled.slot n).state = .kEmpty := by
      have hfreeSlot := occ_eq_none.mp (hfree n le_rfl)
      have hunreserved := hpreserved.unreserved (fun i => by rw [create_slot]; decide) n
      cases hstate : (filled.slot n).state with
      | kEmpty => rfl
      | kReserved => exact absurd hstate hunreserved
      | kOccupied => exact absurd hstate hfreeSlot
    have hstep : filled.applyCall (keyOf n,rowOf (keyOf n)) =
        filled.store n ⟨.kOccupied,keyOf n,some (rowOf (keyOf n))⟩ (filled.uniqueKeyCount+1) := by
      have hcap0 : (filled.capacity == 0) = false := by
        rw [beq_eq_false_iff_ne]
        omega
      obtain ⟨rest,hrest⟩ : ∃ rest, filled.capacity = rest+1 := ⟨filled.capacity-1,by omega⟩
      have hpub : filled.publishAndReport (keyOf n) (rowOf (keyOf n)) =
          .ok (true,filled.store n ⟨.kOccupied,keyOf n,some (rowOf (keyOf n))⟩
            (filled.uniqueKeyCount+1)) := by
        have hvalid : isValidSourcePosition (rowOf (keyOf n)).position = true := rfl
        have hsame : ((rowOf (keyOf n)).primaryKey != keyOf n) = false := bne_self_eq_false _
        rw [publishAndReport,hsame,failIf_false,ok_bind,hvalid,Bool.not_true,failIf_false,ok_bind,
          hcap0,failIf_false,ok_bind,hrest,publishFrom]
        simp only [hhome,hempty]
        rfl
      rw [applyCall,hpub]
    show (∀ i < n+1, (filled.applyCall (keyOf n,rowOf (keyOf n))).occ i = _) ∧
      (∀ i, n+1 ≤ i → (filled.applyCall (keyOf n,rowOf (keyOf n))).occ i = none) ∧
      (filled.applyCall (keyOf n,rowOf (keyOf n))).uniqueKeyCount = n+1
    rw [hstep,store_occ hindex]
    refine ⟨fun i hi => ?_,fun i hi => ?_,congrArg (·+1) hcount⟩
    · by_cases hlast : i = n
      · rw [hlast,Function.update_self]
      · rw [Function.update_of_ne hlast]
        exact hfull i (by omega)
    · rw [Function.update_of_ne (by omega)]
      exact hfree i (by omega)

/-- The last hash value: its first probe is short of the last slot, and the others start over
from slot 0, so no probe sees the last slot. -/
theorem probeIndex_wrap (hpower : isPowerOfTwo capacity.toNat = false) {primaryKey : UInt64}
    (hhash : (stableHash64 primaryKey hashSeed hashVersion).toNat = 2^64-1) {probe : ℕ}
    (hprobe : probe < capacity.toNat) :
    (create capacity hashSeed hashVersion).probeIndex primaryKey probe+1 < capacity.toNat := by
  have hlt := capacity.toNat_lt
  rw [probeIndex_of_not_power hpower,hhash]
  cases probe with
  | zero =>
    have hmod := Nat.mod_lt (2^64-1) (show 0 < capacity.toNat by omega)
    have hsum : (2^64-1+0)%2^64 = 2^64-1 := rfl
    rw [hsum]
    by_contra hlast
    -- A remainder of capacity-1 would make the capacity a divisor of 2^64.
    have hdvd : capacity.toNat ∣ 2^64 := by
      refine Nat.dvd_of_mod_eq_zero ?_
      have hsplit := Nat.div_add_mod (2^64-1) capacity.toNat
      have hsum : (2 : ℕ)^64 = capacity.toNat*((2^64-1)/capacity.toNat+1) := by
        rw [Nat.mul_add,Nat.mul_one]
        omega
      rw [hsum,Nat.mul_mod_right]
    obtain ⟨e,-,he⟩ := (Nat.dvd_prime_pow Nat.prime_two).mp hdvd
    rw [isPowerOfTwo_iff.mpr ⟨e,he⟩] at hpower
    cases hpower
  | succ probe =>
    have hsum : 2^64-1+(probe+1) = 2^64+probe := by omega
    rw [hsum,Nat.add_mod_left,Nat.mod_eq_of_lt (show probe < 2^64 by omega),
      Nat.mod_eq_of_lt (by omega)]
    exact hprobe

theorem exhausted_early (hashSeed : UInt64) (hashVersion : UInt32) (hcapacity : capacity ≠ 0)
    (hpower : isPowerOfTwo capacity.toNat = false) :
    ∃ (calls : List (UInt64×RealtimeRowRef)) (rowRef : RealtimeRowRef),
      ((create capacity hashSeed hashVersion).applyCalls calls).uniqueKeyCount+1 =
        capacity.toNat ∧
      isValidSourcePosition rowRef.position = true ∧
      ((create capacity hashSeed hashVersion).applyCalls calls).get rowRef.primaryKey = .ok none ∧
      ((create capacity hashSeed hashVersion).applyCalls calls).publishAndReport
        rowRef.primaryKey rowRef =
          .error (.failedPrecondition "realtime hash map capacity exhausted") := by
  have hpos : 0 < capacity.toNat := by
    rw [Nat.pos_iff_ne_zero]
    exact fun hzero => hcapacity (UInt64.toNat_inj.mp hzero)
  have hlt := capacity.toNat_lt
  choose hashed hhashed using stableHash64_surjective hashSeed hashVersion
  have hkey : ∀ i < capacity.toNat,
      (stableHash64 (hashed (UInt64.ofNat i)) hashSeed hashVersion).toNat = i := by
    intro i hi
    have heq : stableHash64 (hashed (UInt64.ofNat i)) hashSeed hashVersion = UInt64.ofNat i :=
      hhashed _
    rw [heq]
    exact UInt64.toNat_ofNat_of_lt' (hi.trans hlt)
  have hlast : (stableHash64 (hashed (UInt64.ofNat (2^64-1))) hashSeed hashVersion).toNat =
      2^64-1 := by
    have heq : stableHash64 (hashed (UInt64.ofNat (2^64-1))) hashSeed hashVersion =
        UInt64.ofNat (2^64-1) := hhashed _
    rw [heq]
    decide
  obtain ⟨hfull,hfree,hcount⟩ := fill_slots hpower hkey (Nat.sub_le capacity.toNat 1)
  have hpreserved := (sound_create capacity hashSeed hashVersion).applyCalls
    ((List.range (capacity.toNat-1)).map fun i =>
      (hashed (UInt64.ofNat i),rowOf (hashed (UInt64.ofNat i))))
  have hnew : ∀ i < capacity.toNat, hashed (UInt64.ofNat i) ≠ hashed (UInt64.ofNat (2^64-1)) := by
    intro i hi heq
    have hsame := hkey i hi
    rw [heq,hlast] at hsame
    omega
  refine ⟨(List.range (capacity.toNat-1)).map fun i =>
    (hashed (UInt64.ofNat i),rowOf (hashed (UInt64.ofNat i))),
    rowOf (hashed (UInt64.ofNat (2^64-1))),by rw [hcount]; omega,rfl,?_⟩
  generalize (create capacity hashSeed hashVersion).applyCalls
    ((List.range (capacity.toNat-1)).map fun i =>
      (hashed (UInt64.ofNat i),rowOf (hashed (UInt64.ofNat i)))) = filled at *
  have hfilled : filled.capacity = capacity.toNat := hpreserved.capacity.trans create_capacity
  constructor
  · rw [hpreserved.sound.get_eq,visible_of_absent]
    intro i hi
    have hbound : i < capacity.toNat := by
      rw [← hfilled]
      exact occ_lt hi
    by_cases hfirst : i < capacity.toNat-1
    · rw [hfull i hfirst,Option.some.injEq] at hi
      exact hnew i hbound hi
    · rw [hfree i (by omega)] at hi
      cases hi
  · have hwalk := publishFrom_walk (rowOf (hashed (UInt64.ofNat (2^64-1)))) 0 capacity.toNat (by
      intro probe hprobe
      have hslot := probeIndex_wrap hpower hlast hprobe
      rw [← hpreserved.probeIndex] at hslot
      exact ⟨_,hfull _ (by omega),hnew _ (by omega)⟩)
    have hcap0 : (filled.capacity == 0) = false := by
      rw [beq_eq_false_iff_ne]
      omega
    have hsame : ((rowOf (hashed (UInt64.ofNat (2^64-1)))).primaryKey !=
        hashed (UInt64.ofNat (2^64-1))) = false := bne_self_eq_false _
    have hvalid : isValidSourcePosition (rowOf (hashed (UInt64.ofNat (2^64-1)))).position = true :=
      rfl
    rw [Nat.zero_add] at hwalk
    show filled.publishAndReport (hashed (UInt64.ofNat (2^64-1))) _ = _
    rw [publishAndReport,hsame,failIf_false,ok_bind,hvalid,Bool.not_true,failIf_false,ok_bind,hcap0,
      failIf_false,ok_bind,hfilled,hwalk]
    rfl

end Created

/-- The map can use all its slots exactly when its capacity is a power of two. -/
theorem usesAllSlots_iff (capacity hashSeed : UInt64) (hashVersion : UInt32) (h : capacity ≠ 0) :
    UsesAllSlots capacity hashSeed hashVersion ↔ isPowerOfTwo capacity.toNat = true := by
  constructor
  · intro huses
    by_contra hpower
    rw [Bool.not_eq_true] at hpower
    obtain ⟨calls,rowRef,hcount,hvalid,hnew,hfails⟩ := exhausted_early hashSeed hashVersion h hpower
    obtain ⟨map,hmap⟩ := huses.admits calls rowRef (by omega) hvalid hnew
    rw [hfails] at hmap
    cases hmap
  · intro hpower
    exact ⟨fun primaryKey index => covers_of_isPowerOfTwo hpower primaryKey,
      fun calls rowRef => admits_of_isPowerOfTwo hpower calls,
      fun before after call => published_found before after call⟩

theorem usesAllSlots_sample :
    UsesAllSlots 4 0 1 ↔ isPowerOfTwo (4 : UInt64).toNat = true :=
  usesAllSlots_iff 4 0 1 (by decide)

def wrapKeys : UInt64×UInt64×UInt64 := (0xb72078fee6ec7e78,0x2edeb8bf8f90b42e,0xe78a744e1d78cc38)

/-- With three slots the third key fails although one slot is free. -/
theorem threeSlots_exhausted : ¬UsesAllSlots 3 0 1 := by
  intro huses
  have hfails : ((create 3 0 1).applyCalls [(wrapKeys.1,rowOf wrapKeys.1),
      (wrapKeys.2.1,rowOf wrapKeys.2.1)]).publishAndReport wrapKeys.2.2 (rowOf wrapKeys.2.2) =
        .error (.failedPrecondition "realtime hash map capacity exhausted") := by
    decide +kernel
  obtain ⟨map,hmap⟩ := huses.admits [(wrapKeys.1,rowOf wrapKeys.1),
    (wrapKeys.2.1,rowOf wrapKeys.2.1)] (rowOf wrapKeys.2.2) (by decide +kernel) (by decide)
    (by decide +kernel)
  have hsame := hfails.symm.trans hmap
  cases hsame

end RealtimeAtomicHashMap
end KvIndex
