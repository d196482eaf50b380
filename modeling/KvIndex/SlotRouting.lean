import KvIndex.ForwardIndex
import KvIndex.ProbeCoverage

/-! Routing and slot choice read the same low bits of one hash: every shard gets the same number
of keys, and these start their probes only at the slots that agree with the shard in the bits
both masks keep. -/
namespace KvIndex
namespace Rebuild

open Base Ingest
open RealtimeDeltaAtomicTable (sampleLayout)

/-- The probe start of a key in a realtime table that `CreateRealtimeShards` would create with
another capacity. -/
def realtimeHomeSlot (options : ForwardIndexOptions) (layout : CompiledRowLayout)
    (capacity primaryKey : UInt64) : ℕ :=
  (RealtimeDeltaAtomicTable.create {
    layout := some layout,capacity,hashSeed := options.hashSeed
    hashVersion := options.hashVersion }).map.probeIndex primaryKey 0

/-- The slot from which the builder of a frozen index places a key and `Lookup` looks for it. -/
def frozenHomeSlot (view : FrozenPrimaryKeyIndexView) (primaryKey : UInt64) : ℕ :=
  (view.hash primaryKey).toNat &&& view.mask

/-- A frozen index that hashes as the router does. -/
structure FrozenWith (options : ForwardIndexOptions) (capacity : UInt64)
    (view : FrozenPrimaryKeyIndexView) : Prop where
  capacity : view.metadata.capacity = capacity.toNat
  hashSeed : view.metadata.hashSeed = options.hashSeed
  hashVersion : view.metadata.hashVersion = options.hashVersion

def StartsAt (options : ForwardIndexOptions) (homeSlot : UInt64 → ℕ) (shard : UInt32) (slot : ℕ) :
    Prop :=
  ∃ primaryKey, ForwardIndex.shardFor options primaryKey = shard ∧ homeSlot primaryKey = slot

/-- A word with given remainders modulo two powers of two, one of which divides the other. -/
theorem exists_word_iff {n c s j : ℕ} (hn : isPowerOfTwo n = true) (hc : isPowerOfTwo c = true)
    (hs : s < n) (hj : j < c) (hn64 : n ≤ 2^64) (hc64 : c ≤ 2^64) :
    (∃ word : UInt64, word.toNat%n = s ∧ word.toNat%c = j) ↔ s ≡ j [MOD min n c] := by
  obtain ⟨a,rfl⟩ := isPowerOfTwo_iff.mp hn
  obtain ⟨b,rfl⟩ := isPowerOfTwo_iff.mp hc
  have hword : ∀ value < 2^64, (UInt64.ofNat value).toNat = value := fun value hvalue => by
    rw [UInt64.toNat_ofNat']
    exact Nat.mod_eq_of_lt hvalue
  rcases Nat.le_total a b with hab | hab
  · have hdvd : 2^a ∣ 2^b := Nat.pow_dvd_pow 2 hab
    rw [Nat.min_eq_left (Nat.le_of_dvd (Nat.two_pow_pos b) hdvd)]
    constructor
    · rintro ⟨word,rfl,rfl⟩
      exact (Nat.mod_modEq _ _).trans (Nat.mod_mod_of_dvd _ hdvd).symm
    · intro h
      refine ⟨UInt64.ofNat j,?_⟩
      have hrem : j%2^a = s := Eq.trans (Eq.symm h) (Nat.mod_eq_of_lt hs)
      rw [hword j (by omega)]
      exact ⟨hrem,Nat.mod_eq_of_lt hj⟩
  · have hdvd : 2^b ∣ 2^a := Nat.pow_dvd_pow 2 hab
    rw [Nat.min_eq_right (Nat.le_of_dvd (Nat.two_pow_pos a) hdvd)]
    constructor
    · rintro ⟨word,rfl,rfl⟩
      exact (Nat.mod_mod_of_dvd _ hdvd).trans (Nat.mod_mod _ _).symm
    · intro h
      refine ⟨UInt64.ofNat s,?_⟩
      have hrem : s%2^b = j := Eq.trans h (Nat.mod_eq_of_lt hj)
      rw [hword s (by omega)]
      exact ⟨Nat.mod_eq_of_lt hs,hrem⟩

variable {options : ForwardIndexOptions} {capacity : UInt64}

theorem shardFor_eq_iff {shard : UInt32} (primaryKey : UInt64) :
    ForwardIndex.shardFor options primaryKey = shard ↔
      (stableHash64 primaryKey options.hashSeed options.hashVersion).toNat%
        options.shardCount.toNat = shard.toNat := by
  have hlt := Nat.mod_lt (stableHash64 primaryKey options.hashSeed options.hashVersion).toNat
    (shardCount_pos options)
  have hbound := options.shardCount.toNat_lt
  rw [ForwardIndex.shardFor,and_mask_of_isPowerOfTwo options.shardCount_isPowerOfTwo,
    ← UInt32.toNat_inj,UInt32.toNat_ofNat',Nat.mod_eq_of_lt (by omega)]

/-- No two keys share a hash, and every shard has the same number of keys. -/
theorem routing_is_balanced :
    (∀ seed version, Function.Bijective fun primaryKey => stableHash64 primaryKey seed version) ∧
    ∀ (options : ForwardIndexOptions) (shard : UInt32), shard < options.shardCount →
      Nat.card {primaryKey // ForwardIndex.shardFor options primaryKey = shard} =
        2^64/options.shardCount.toNat := by
  refine ⟨stableHash64_bijective,?_⟩
  intro options shard hshard
  obtain ⟨e,he⟩ := isPowerOfTwo_iff.mp options.shardCount_isPowerOfTwo
  have hshard := UInt32.lt_iff_toNat_lt.mp hshard
  have he32 : e < 32 := by
    have hcount := options.shardCount.toNat_lt
    rw [he] at hcount
    exact (Nat.pow_lt_pow_iff_right (by decide)).mp hcount
  simp only [shardFor_eq_iff,he] at hshard ⊢
  rw [card_hash_remainder _ _ (by omega) hshard,Nat.pow_div (by omega) (by decide)]

theorem routing_is_balanced_sample :
    Nat.card {primaryKey // ForwardIndex.shardFor {} primaryKey = 5} = 2^57 :=
  (routing_is_balanced.2 {} 5 (by decide)).trans (by decide)

theorem startsAt_iff {homeSlot : UInt64 → ℕ} (hcapacity : isPowerOfTwo capacity.toNat = true)
    (hhome : ∀ primaryKey, homeSlot primaryKey =
      (stableHash64 primaryKey options.hashSeed options.hashVersion).toNat%capacity.toNat)
    {shard : UInt32} (hshard : shard < options.shardCount) {slot : ℕ}
    (hslot : slot < capacity.toNat) :
    StartsAt options homeSlot shard slot ↔
      shard.toNat ≡ slot [MOD min options.shardCount.toNat capacity.toNat] := by
  have hcount := options.shardCount.toNat_lt
  rw [← exists_word_iff options.shardCount_isPowerOfTwo hcapacity (UInt32.lt_iff_toNat_lt.mp hshard)
    hslot (by omega) (Nat.le_of_lt capacity.toNat_lt)]
  constructor
  · rintro ⟨primaryKey,hrouted,hstart⟩
    exact ⟨_,(shardFor_eq_iff primaryKey).mp hrouted,hhome primaryKey ▸ hstart⟩
  · rintro ⟨word,hrouted,hstart⟩
    obtain ⟨primaryKey,rfl⟩ := stableHash64_surjective options.hashSeed options.hashVersion word
    exact ⟨primaryKey,(shardFor_eq_iff primaryKey).mpr hrouted,(hhome primaryKey).trans hstart⟩

theorem realtimeHomeSlot_eq (hcapacity : isPowerOfTwo capacity.toNat = true)
    (layout : CompiledRowLayout) (primaryKey : UInt64) :
    realtimeHomeSlot options layout capacity primaryKey =
      (stableHash64 primaryKey options.hashSeed options.hashVersion).toNat%capacity.toNat := by
  have hopen := @RealtimeAtomicHashMap.open_create capacity options.hashSeed
    options.hashVersion hcapacity
  rw [realtimeHomeSlot,RealtimeDeltaAtomicTable.create,hopen.probeIndex_eq,
    RealtimeAtomicHashMap.create_capacity,Nat.add_zero]
  rfl

theorem FrozenWith.homeSlot_eq {view : FrozenPrimaryKeyIndexView}
    (h : FrozenWith options capacity view) (hcapacity : isPowerOfTwo capacity.toNat = true)
    (primaryKey : UInt64) :
    frozenHomeSlot view primaryKey =
      (stableHash64 primaryKey options.hashSeed options.hashVersion).toNat%capacity.toNat := by
  rw [frozenHomeSlot,FrozenPrimaryKeyIndexView.hash,FrozenPrimaryKeyIndexView.mask,h.capacity,
    h.hashSeed,h.hashVersion,and_mask_of_isPowerOfTwo hcapacity]

/-- A shard has a key that starts at a slot, in its realtime table and in a frozen index, iff
shard and slot agree modulo the smaller of shard count and capacity. -/
theorem home_slots (hcapacity : isPowerOfTwo capacity.toNat = true) (layout : CompiledRowLayout)
    {view : FrozenPrimaryKeyIndexView} (hview : FrozenWith options capacity view)
    {shard : UInt32} (hshard : shard < options.shardCount) {slot : ℕ}
    (hslot : slot < capacity.toNat) :
    (StartsAt options (realtimeHomeSlot options layout capacity) shard slot ↔
      shard.toNat ≡ slot [MOD min options.shardCount.toNat capacity.toNat]) ∧
    (StartsAt options (frozenHomeSlot view) shard slot ↔
      shard.toNat ≡ slot [MOD min options.shardCount.toNat capacity.toNat]) :=
  ⟨startsAt_iff hcapacity (realtimeHomeSlot_eq hcapacity layout) hshard hslot,
    startsAt_iff hcapacity (hview.homeSlot_eq hcapacity) hshard hslot⟩

def twoShards : ForwardIndexOptions :=
  { shardCount := 2,shardCount_isPowerOfTwo := two_isPowerOfTwo }

def twoSlots : FrozenPrimaryKeyIndexView where
  bytes := []
  metadata := {
    rowCount := 0,capacity := 2,hashSeed := 0,hashVersion := 1,groupWidth := 1
    controlOffset := 80,keyOffset := 83,rowOffsetOffset := 99,totalSize := 115 }

theorem twoSlots_with : FrozenWith twoShards 2 twoSlots := ⟨rfl,rfl,rfl⟩

theorem home_slots_sample :
    (StartsAt twoShards (realtimeHomeSlot twoShards sampleLayout 2) 1 1 ↔ 1 ≡ 1 [MOD min 2 2]) ∧
    (StartsAt twoShards (frozenHomeSlot twoSlots) 1 1 ↔ 1 ≡ 1 [MOD min 2 2]) :=
  home_slots (by decide) sampleLayout twoSlots_with (by decide) (by decide)

/-- Of two shards, shard 0 never starts at slot 1 of two slots. -/
theorem unused_slot :
    ¬StartsAt twoShards (realtimeHomeSlot twoShards sampleLayout 2) 0 1 ∧
    ¬StartsAt twoShards (frozenHomeSlot twoSlots) 0 1 := by
  rw [startsAt_iff (by decide) (realtimeHomeSlot_eq (by decide) sampleLayout) (by decide)
      (by decide),
    startsAt_iff (by decide) (twoSlots_with.homeSlot_eq (by decide)) (by decide) (by decide)]
  decide

end Rebuild
end KvIndex
