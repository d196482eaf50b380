import KvIndex.LastWriter
import KvIndex.RealtimeTable

/-! The realtime table as a last-writer-wins map. A publish that succeeds is a write
at its source offset, whatever slot it probed to; a table of power-of-two capacity
has room for every key until all its slots are taken. -/
namespace KvIndex

open Base

/-- What a comparison of two valid positions of one partition decides. -/
theorem classifySourcePositionUpdate_newer {current candidate : SourcePosition}
    {decision : SourcePositionUpdateDecision}
    (h : classifySourcePositionUpdate current candidate = .ok decision) :
    current.partition = candidate.partition ∧
      (decision = .kNewer ↔ current.offset.toInt < candidate.offset.toInt) := by
  simp only [classifySourcePositionUpdate,bind_eq_ok,failIf_eq_ok,exists_const,
    bne_eq_false_iff_eq] at h
  obtain ⟨_,hpart,h⟩ := h
  refine ⟨hpart,?_⟩
  split_ifs at h with hlt heq
  · cases h
    rw [Int64.lt_iff_toInt_lt] at hlt
    simp only [reduceCtorEq,false_iff,not_lt]
    omega
  · cases h
    simp [heq]
  · cases h
    rw [Int64.lt_iff_toInt_lt] at hlt
    have hne : candidate.offset.toInt ≠ current.offset.toInt := fun h => heq (Int64.toInt_inj.mp h)
    simp only [true_iff]
    omega

theorem classifySourcePositionUpdate_ok {current candidate : SourcePosition}
    (hcur : isValidSourcePosition current = true) (hcand : isValidSourcePosition candidate = true)
    (hpart : current.partition = candidate.partition) :
    ∃ decision, classifySourcePositionUpdate current candidate = .ok decision := by
  simp only [classifySourcePositionUpdate,hcur,hcand,Bool.not_true,Bool.or_self,failIf_false,
    ok_bind,hpart,bne_self_eq_false]
  split_ifs
  · exact ⟨_,rfl⟩
  · exact ⟨_,rfl⟩
  · exact ⟨_,rfl⟩

namespace RealtimeAtomicHashMap

variable {map : RealtimeAtomicHashMap}

/-- A map that can use all its slots. -/
structure Open (map : RealtimeAtomicHashMap) : Prop where
  capacity : isPowerOfTwo map.capacity = true
  bound : map.capacity < 2^64
  unreserved : ∀ index, (map.slot index).state ≠ .kReserved

theorem open_create {capacity hashSeed : UInt64} {hashVersion : UInt32}
    (h : isPowerOfTwo capacity.toNat = true) : (create capacity hashSeed hashVersion).Open := by
  refine ⟨?_,?_,?_⟩
  · simpa [RealtimeAtomicHashMap.capacity,create] using h
  · simpa [RealtimeAtomicHashMap.capacity,create] using capacity.toNat_lt
  · intro index
    rw [create_slot]
    decide

theorem Open.store (ho : map.Open) {index : ℕ} (h : index < map.capacity) (k : UInt64)
    (row : RealtimeRowRef) (n : ℕ) : (map.store index ⟨.kOccupied,k,some row⟩ n).Open := by
  refine ⟨by simpa using ho.capacity,by simpa using ho.bound,?_⟩
  intro i
  rw [store_slot h]
  split_ifs
  · exact SlotState.noConfusion
  · exact ho.unreserved i

/-- With a power-of-two capacity the wrap at 64 bits does not disturb linear probing. -/
theorem Open.probeIndex_eq (ho : map.Open) (k : UInt64) (probe : ℕ) :
    map.probeIndex k probe =
      ((stableHash64 k map.hashSeed map.hashVersion).toNat+probe)%map.capacity := by
  obtain ⟨e,he⟩ := isPowerOfTwo_iff.mp ho.capacity
  have hbound := ho.bound
  have hdvd : map.capacity ∣ 2^64 := by
    rw [he] at hbound ⊢
    exact Nat.pow_dvd_pow 2 (by
      have := (Nat.pow_lt_pow_iff_right (by norm_num : 1 < 2)).mp hbound
      omega)
  simp only [probeIndex,if_pos ho.capacity]
  rw [and_mask_of_isPowerOfTwo ho.capacity,Nat.mod_mod_of_dvd _ hdvd]

/-- A new key finds an empty slot while the map has fewer keys than slots. -/
theorem Open.publishAndReport_absent (ho : map.Open) {k : UInt64} {rowRef : RealtimeRowRef}
    (hkey : rowRef.primaryKey = k) (hvalid : isValidSourcePosition rowRef.position = true)
    (habs : ∀ index, map.occ index ≠ some k)
    (hroom : Probing.load map.capacity map.occ < map.capacity) :
    ∃ index < map.capacity, map.publishAndReport k rowRef =
      .ok (true,map.store index ⟨.kOccupied,k,some rowRef⟩ (map.uniqueKeyCount+1)) := by
  obtain ⟨s,hs,hfree⟩ := Probing.exists_free_of_load_lt hroom
  obtain ⟨j₀,hj₀,hjs₀⟩ := Probing.exists_probe_of_linear
    (h := (stableHash64 k map.hashSeed map.hashVersion).toNat) hs
  have hfree₀ : map.occ (map.probeIndex k j₀) = none := by
    rw [ho.probeIndex_eq,hjs₀,hfree]
  obtain ⟨j,hj,hjfree,hbusy⟩ := Probing.exists_first_free map.probeIndex hj₀ hfree₀
  have hcap : map.capacity ≠ 0 := by omega
  refine ⟨map.probeIndex k j,probeIndex_lt hcap k j,?_⟩
  have hwalk := publishFrom_walk rowRef (map.capacity-j) j (by
    intro i hi
    obtain ⟨k',hk'⟩ := Option.isSome_iff_exists.mp (hbusy i hi)
    exact ⟨k',hk',by
      rintro rfl
      exact habs _ hk'⟩)
  have hsum : map.capacity-j+j = map.capacity := by omega
  obtain ⟨r,hr⟩ : ∃ r, map.capacity-j = r+1 := ⟨map.capacity-j-1,by omega⟩
  have hempty : (map.slot (map.probeIndex k j)).state = .kEmpty := by
    have hne := occ_eq_none.mp hjfree
    have hnr := ho.unreserved (map.probeIndex k j)
    cases hstate : (map.slot (map.probeIndex k j)).state with
    | kEmpty => rfl
    | kReserved => exact absurd hstate hnr
    | kOccupied => exact absurd hstate hne
  have hcap0 : (map.capacity == 0) = false := by
    rw [beq_eq_false_iff_ne]
    exact hcap
  rw [hsum] at hwalk
  rw [publishAndReport,hkey,bne_self_eq_false,failIf_false,ok_bind,hvalid,Bool.not_true,
    failIf_false,ok_bind,hcap0,failIf_false,ok_bind,hwalk,hr,publishFrom]
  simp only [hempty]
  rfl

end RealtimeAtomicHashMap

namespace RealtimeDeltaAtomicTable

open RealtimeAtomicHashMap (supersedes)

variable {table : RealtimeDeltaAtomicTable}

def callOf (ref : RealtimeRowRef) : PublishCall := ⟨ref.primaryKey,ref.position,ref.encoded⟩

def latest (table : RealtimeDeltaAtomicTable) (k : UInt64) : Option PublishCall :=
  (table.map.visible k).map callOf

def sourceOffset (call : PublishCall) : ℤ := call.position.offset.toInt

/-- A publish whose position and row the table takes. -/
def Accepts (table : RealtimeDeltaAtomicTable) (call : PublishCall) : Prop :=
  (table.buildRowRef call.primaryKey call.position call.encoded).isOk = true

instance (call : PublishCall) : Decidable (table.Accepts call) := inferInstanceAs (Decidable (_ = _))

theorem Accepts.eq_ok {call : PublishCall} (h : table.Accepts call) :
    ∃ rowRef, table.buildRowRef call.primaryKey call.position call.encoded = .ok rowRef := by
  rw [Accepts] at h
  cases hb : table.buildRowRef call.primaryKey call.position call.encoded with
  | error status =>
    rw [hb] at h
    cases h
  | ok rowRef => exact ⟨rowRef,rfl⟩

theorem Accepts.congr {table' : RealtimeDeltaAtomicTable} (h : table'.layout = table.layout)
    {call : PublishCall} (ha : table.Accepts call) : table'.Accepts call := by
  rw [Accepts,buildRowRef,h]
  exact ha

theorem supersedes_iff {current : Option RealtimeRowRef} {rowRef : RealtimeRowRef} {newer : Bool}
    (h : supersedes current rowRef = .ok newer) :
    newer = true ↔ LastWriter.wins sourceOffset (current.map callOf) (callOf rowRef) := by
  cases current with
  | none =>
    cases h
    simp [LastWriter.wins]
  | some current =>
    simp only [supersedes,bind_eq_ok,pure_eq_ok,Except.ok.injEq] at h
    obtain ⟨decision,hdec,rfl⟩ := h
    rw [beq_iff_eq,(classifySourcePositionUpdate_newer hdec).2]
    simp [LastWriter.wins,sourceOffset,callOf]

theorem Sound.publish_latest (hs : table.Sound) {call : PublishCall}
    (h : (table.publish call.primaryKey call.position call.encoded).1 = .ok ()) :
    (table.publish call.primaryKey call.position call.encoded).2.latest =
      LastWriter.write PublishCall.primaryKey sourceOffset table.latest call := by
  rcases publish_cases table call.primaryKey call.position call.encoded with
    ⟨status,_,hp⟩ | ⟨status,rowRef,_,_,hp⟩ | ⟨rowRef,changed,map,hb,hm,hp⟩
  · rw [hp] at h
    cases h
  · rw [hp] at h
    cases h
  · rw [hp]
    obtain ⟨hkey,hpos,henc,_⟩ := buildRowRef_eq_ok hb
    have hcall : callOf rowRef = call := by rw [callOf,hkey,hpos,henc]
    obtain ⟨hnew,_,_,hvis⟩ := hs.map.publishAndReport_ok hm
    have hwins := supersedes_iff hnew
    rw [hcall,← latest] at hwins
    funext k
    rw [LastWriter.write]
    cases changed with
    | false =>
      simp only [Bool.false_eq_true,if_false] at hvis
      rw [if_neg (fun hw => Bool.false_ne_true (hwins.mpr hw)),latest,hvis]
      rfl
    | true =>
      simp only [if_true] at hvis
      rw [if_pos (hwins.mp rfl),latest,hvis,Function.update_apply,Function.update_apply]
      split_ifs
      · rw [Option.map_some,hcall]
      · rfl

/-- An accepted publish succeeds when its key has one partition and a slot. -/
theorem Sound.publish_ok (hs : table.Sound) (ho : table.map.Open) {call : PublishCall}
    (ha : table.Accepts call)
    (hpart : ∀ c, table.latest call.primaryKey = some c → c.position.partition = call.position.partition)
    (hroom : table.latest call.primaryKey = none →
      Probing.load table.map.capacity table.map.occ < table.map.capacity) :
    (table.publish call.primaryKey call.position call.encoded).1 = .ok () ∧
      (table.publish call.primaryKey call.position call.encoded).2.map.Open ∧
      (table.publish call.primaryKey call.position call.encoded).2.map.capacity =
        table.map.capacity := by
  obtain ⟨rowRef,hb⟩ := ha.eq_ok
  obtain ⟨hkey,hpos,_,hvalid,_⟩ := buildRowRef_eq_ok hb
  have hvalid' : isValidSourcePosition rowRef.position = true := by rw [hpos,hvalid]
  cases hv : table.map.visible call.primaryKey with
  | none =>
    obtain ⟨index,hindex,hpub⟩ := ho.publishAndReport_absent hkey hvalid'
      (hs.map.occ_of_visible_none hv) (hroom (by rw [latest,hv]; rfl))
    simp only [RealtimeDeltaAtomicTable.publish,hb,hpub]
    exact ⟨trivial,ho.store hindex _ _ _,RealtimeAtomicHashMap.store_capacity _ _ _⟩
  | some current =>
    obtain ⟨_,hcur⟩ := hs.map.visible_row hv
    obtain ⟨index,hindex,_,hpub⟩ := hs.map.publishAndReport_held hkey hvalid' hv
    have hpart' : current.position.partition = rowRef.position.partition := by
      rw [hpos]
      exact hpart (callOf current) (by rw [latest,hv]; rfl)
    obtain ⟨decision,hdec⟩ := classifySourcePositionUpdate_ok hcur hvalid' hpart'
    simp only [supersedes,hdec,ok_bind,pure_eq_ok] at hpub
    simp only [RealtimeDeltaAtomicTable.publish,hb,hpub]
    refine ⟨trivial,?_,?_⟩
    · split_ifs
      · exact ho.store hindex _ _ _
      · exact ho
    · split_ifs
      · exact RealtimeAtomicHashMap.store_capacity _ _ _
      · rfl

/-- The table after the publishes `done`: it shows the latest one of each key, and can
still use all its slots. -/
structure Follows (table : RealtimeDeltaAtomicTable) (options : Options) (done : List PublishCall) :
    Prop where
  sound : table.Sound
  free : table.map.Open
  layout_eq : table.layout = options.layout
  capacity_eq : table.map.capacity = options.capacity.toNat
  answers : ∀ k, LastWriter.Answers PublishCall.primaryKey sourceOffset {c | c ∈ done} k
    (table.latest k)

theorem latest_create (options : Options) (k : UInt64) : (create options).latest k = none :=
  congrArg (Option.map callOf) (RealtimeAtomicHashMap.create_visible k)

theorem follows_create {options : Options} (hcap : isPowerOfTwo options.capacity.toNat = true) :
    Follows (create options) options [] := by
  refine ⟨sound_create options,RealtimeAtomicHashMap.open_create hcap,rfl,?_,?_⟩
  · simp [create,RealtimeAtomicHashMap.create,RealtimeAtomicHashMap.capacity]
  · intro k
    rw [latest_create]
    intro v hv
    cases hv

/-- A set of publishes that a table of this capacity can take in every order. -/
structure Publishable (options : Options) (publishes : Finset PublishCall) : Prop where
  valid : ∀ c ∈ publishes, (create options).Accepts c
  keys : (publishes.image PublishCall.primaryKey).card ≤ options.capacity.toNat
  partitions : ∀ c ∈ publishes, ∀ d ∈ publishes, c.primaryKey = d.primaryKey →
    c.position.partition = d.position.partition
  rows : ∀ c ∈ publishes, ∀ d ∈ publishes, c.primaryKey = d.primaryKey →
    c.position = d.position → c.encoded = d.encoded

theorem Follows.room {options : Options} {publishes : Finset PublishCall}
    (hp : Publishable options publishes) {done : List PublishCall}
    (hf : Follows table options done) (hdone : ∀ c ∈ done, c ∈ publishes) {call : PublishCall}
    (hcall : call ∈ publishes) (hnone : table.latest call.primaryKey = none) :
    Probing.load table.map.capacity table.map.occ < table.map.capacity := by
  have hmem : call.primaryKey ∈ publishes.image PublishCall.primaryKey :=
    Finset.mem_image_of_mem _ hcall
  have hload := hf.sound.map.placed.load_le_card
    ((publishes.image PublishCall.primaryKey).erase call.primaryKey) (by
      intro s k hocc
      obtain ⟨row,hrow,_⟩ := hf.sound.map.row hocc
      have hlatest : table.latest k = some (callOf row) := by
        rw [latest,hf.sound.map.visible_of_occ hocc,hrow]
        rfl
      have hans := hf.answers k
      rw [hlatest] at hans
      rw [Finset.mem_erase]
      refine ⟨?_,?_⟩
      · rintro rfl
        rw [hnone] at hlatest
        cases hlatest
      · rw [← hans.key_eq]
        exact Finset.mem_image_of_mem _ (hdone _ hans.mem))
  rw [Finset.card_erase_of_mem hmem] at hload
  have hpos := Finset.card_pos.mpr ⟨_,hmem⟩
  have hkeys := hp.keys
  rw [hf.capacity_eq] at hload ⊢
  omega

/-- One more publish of the set succeeds, and the table follows it. -/
theorem Follows.publish {options : Options} {publishes : Finset PublishCall}
    (hp : Publishable options publishes) {done : List PublishCall}
    (hf : Follows table options done) (hdone : ∀ c ∈ done, c ∈ publishes) {call : PublishCall}
    (hcall : call ∈ publishes) :
    (table.publish call.primaryKey call.position call.encoded).1 = .ok () ∧
      Follows (table.publish call.primaryKey call.position call.encoded).2 options (done++[call]) := by
  have hpart : ∀ c, table.latest call.primaryKey = some c →
      c.position.partition = call.position.partition := by
    intro c hc
    have hans := hf.answers call.primaryKey
    rw [hc] at hans
    exact hp.partitions c (hdone c hans.mem) call hcall hans.key_eq
  obtain ⟨hok,hopen,hcap⟩ := hf.sound.publish_ok hf.free ((hp.valid call hcall).congr hf.layout_eq)
    hpart (hf.room hp hdone hcall)
  refine ⟨hok,hf.sound.publish _ _ _,hopen,(publish_layout _ _ _ _).trans hf.layout_eq,
    hcap.trans hf.capacity_eq,?_⟩
  intro k
  have hwrite := LastWriter.Answers.write hf.answers call k
  have hset : insert call {c | c ∈ done} = {c | c ∈ done++[call]} := by
    ext c
    simp only [Set.mem_insert_iff,Set.mem_ofPred_eq,List.mem_append,List.mem_singleton]
    tauto
  rw [hf.sound.publish_latest hok,← hset]
  exact hwrite

theorem Follows.publishAll {options : Options} {publishes : Finset PublishCall}
    (hp : Publishable options publishes) {done : List PublishCall}
    (hf : Follows table options done) (hdone : ∀ c ∈ done, c ∈ publishes)
    {order : List PublishCall} (horder : ∀ c ∈ order, c ∈ publishes) :
    Follows (table.publishAll order) options (done++order) := by
  induction order generalizing table done with
  | nil => simpa [RealtimeDeltaAtomicTable.publishAll] using hf
  | cons call order ih =>
    obtain ⟨_,hstep⟩ := hf.publish hp hdone (horder call List.mem_cons_self)
    have hdone' : ∀ c ∈ done++[call], c ∈ publishes := by
      intro c hc
      rcases List.mem_append.mp hc with hc | hc
      · exact hdone c hc
      · rw [List.mem_singleton.mp hc]
        exact horder call List.mem_cons_self
    have hrest := ih hstep hdone' (fun c hc => horder c (List.mem_cons_of_mem _ hc))
    rw [List.append_assoc,List.singleton_append] at hrest
    exact hrest

/-- What a table answers for a key, in terms of the latest publish. -/
theorem Sound.get_eq_latest (hs : table.Sound) {layout : CompiledRowLayout}
    (hl : table.layout = some layout) (k : UInt64) :
    table.get k = .ok ((table.latest k).map fun call => ⟨layout,call.encoded⟩) := by
  rw [hs.get_eq hl,latest,Option.map_map]
  rfl

/-- The realtime table is an order-independent, idempotent last-writer-wins map. -/
theorem publishAll_lastWriterWins {options : Options} {layout : CompiledRowLayout}
    (hlayout : options.layout = some layout)
    (hcap : isPowerOfTwo options.capacity.toNat = true) {publishes : Finset PublishCall}
    (hp : Publishable options publishes) {order : List PublishCall}
    (horder : order.toFinset = publishes) :
    (∀ before call after, order = before++call::after →
      (((create options).publishAll before).publish call.primaryKey call.position
        call.encoded).1 = .ok ()) ∧
    (∀ k, (∀ c ∈ publishes, c.primaryKey ≠ k) →
      ((create options).publishAll order).get k = .ok none) ∧
    (∀ c ∈ publishes, (∀ d ∈ publishes, d.primaryKey = c.primaryKey →
        d.position.offset.toInt ≤ c.position.offset.toInt) →
      ((create options).publishAll order).get c.primaryKey = .ok (some ⟨layout,c.encoded⟩)) ∧
    ∀ other : List PublishCall, other.toFinset = publishes → ∀ k,
      ((create options).publishAll other).get k = ((create options).publishAll order).get k := by
  have hmem : ∀ {l : List PublishCall}, l.toFinset = publishes → ∀ c, c ∈ l ↔ c ∈ publishes := by
    intro l hl c
    rw [← hl,List.mem_toFinset]
  have hfollows : ∀ {l : List PublishCall}, (∀ c ∈ l, c ∈ publishes) →
      Follows ((create options).publishAll l) options l := by
    intro l hl
    have h := (follows_create hcap).publishAll hp (by simp) hl
    rwa [List.nil_append] at h
  have hagree : ∀ c ∈ {c | c ∈ publishes}, ∀ d ∈ {c | c ∈ publishes},
      c.primaryKey = d.primaryKey → sourceOffset c = sourceOffset d → c.encoded = d.encoded := by
    intro c hc d hd hkey hoffset
    apply hp.rows c hc d hd hkey
    have hpart := hp.partitions c hc d hd hkey
    obtain ⟨_,⟨_,_⟩,_⟩ := c
    obtain ⟨_,⟨_,_⟩,_⟩ := d
    rw [SourcePosition.mk.injEq]
    exact ⟨hpart,Int64.toInt_inj.mp hoffset⟩
  have hanswers : ∀ {l : List PublishCall}, l.toFinset = publishes → ∀ k,
      LastWriter.Answers PublishCall.primaryKey sourceOffset {c | c ∈ publishes} k
        (((create options).publishAll l).latest k) := by
    intro l hl k
    have hset : {c | c ∈ l} = {c | c ∈ publishes} := by
      ext c
      exact hmem hl c
    rw [← hset]
    exact (hfollows fun c hc => (hmem hl c).mp hc).answers k
  have hget : ∀ (l : List PublishCall) k, ((create options).publishAll l).get k =
      .ok ((((create options).publishAll l).latest k).map fun call => ⟨layout,call.encoded⟩) := by
    intro l k
    exact ((sound_create options).publishAll l).get_eq_latest
      ((publishAll_layout _ l).trans hlayout) k
  refine ⟨?_,?_,?_,?_⟩
  · intro before call after heq
    have hall : ∀ c ∈ order, c ∈ publishes := fun c hc => (hmem horder c).mp hc
    rw [heq] at hall
    have hbefore : ∀ c ∈ before, c ∈ publishes := fun c hc => hall c (List.mem_append_left _ hc)
    exact ((hfollows hbefore).publish hp hbefore
      (hall call (List.mem_append_right _ List.mem_cons_self))).1
  · intro k hk
    have hans := hanswers horder k
    rw [hget]
    cases hlat : ((create options).publishAll order).latest k with
    | none => rfl
    | some c =>
      rw [hlat] at hans
      exact absurd hans.key_eq (hk c hans.mem)
  · intro c hc hmax
    have hlatest : LastWriter.Answers PublishCall.primaryKey sourceOffset {c | c ∈ publishes}
        c.primaryKey (some c) := ⟨hc,rfl,hmax⟩
    have heq := LastWriter.Answers.unique hagree (hanswers horder c.primaryKey) hlatest
    rw [hget,← Function.comp_def (Row.mk layout) PublishCall.encoded,← Option.map_map,heq]
    rfl
  · intro other hother k
    have heq := LastWriter.Answers.unique hagree (hanswers hother k) (hanswers horder k)
    rw [hget,hget,← Function.comp_def (Row.mk layout) PublishCall.encoded,← Option.map_map,
      ← Option.map_map,heq]

/-- Three publishes of two keys fill a table of two slots, in an order that brings a
newer row of a key first and repeats it last. -/
theorem publishAll_lastWriterWins_sample :
    ((sampleTable 2).publishAll
      [sampleCall 7 5,sampleCall 8 1,sampleCall 7 0,sampleCall 7 5]).get 7 =
        .ok (some ⟨sampleLayout,(sampleCall 7 5).encoded⟩) := by
  have hp : Publishable (sampleOptions 2) {sampleCall 7 0,sampleCall 7 5,sampleCall 8 1} := by
    refine ⟨?_,?_,?_,?_⟩
    · decide +kernel
    · decide +kernel
    · decide +kernel
    · decide +kernel
  have hlayout : (sampleOptions 2).layout = some sampleLayout := rfl
  have horder : [sampleCall 7 5,sampleCall 8 1,sampleCall 7 0,sampleCall 7 5].toFinset =
      {sampleCall 7 0,sampleCall 7 5,sampleCall 8 1} := by
    decide +kernel
  obtain ⟨_,_,hget,_⟩ := publishAll_lastWriterWins hlayout (by decide) hp horder
  exact hget (sampleCall 7 5) (by decide +kernel) (by decide +kernel)

end RealtimeDeltaAtomicTable
end KvIndex
