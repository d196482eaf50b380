import KvIndex.RealtimeMap
import KvIndex.Transition

/-! `PublishAndReport` and `Get` of `store/realtime_delta.cc`, one access of shared memory at a
time. A call is where it stands in its source: the access that it makes next, with the local
variables it needs there. Calls of any number take turns in any order. Rows are compared by
value; the row of a slot moves to greater offsets only, so no pointer comes back to it. -/
namespace KvIndex
namespace RealtimeAtomicHashMap

open Base

/-- Where a `PublishAndReport` stands. -/
inductive PublishPc
  | loadState (probe : UInt64)
  | readKey (probe : UInt64)
  | casState (probe : UInt64)
  | writeKey (index : ℕ)
  | storeRow (index : ℕ)
  | storeOccupied (index : ℕ)
  | addCount (index : ℕ)
  | loadRow (index : ℕ)
  | casRow (index : ℕ) (current : RealtimeRowRef)
  | returned (result : StatusOr Bool)
  deriving DecidableEq

/-- Where a `Get` stands. -/
inductive GetPc
  | loadState (probe : UInt64)
  | readKey (probe : UInt64)
  | loadRow (index : ℕ)
  | returned (result : StatusOr (Option RealtimeRowRef))
  deriving DecidableEq

variable (map : RealtimeAtomicHashMap)

def slotOf (primaryKey : UInt64) (probe : UInt64) : ℕ := map.probeIndex primaryKey probe.toNat

def publishLoop (probe : UInt64) : PublishPc :=
  if probe.toNat < map.capacity then .loadState probe
  else .returned (.error (.failedPrecondition "realtime hash map capacity exhausted"))

/-- The call up to its first access; the capacity never changes. -/
def startPublish (primaryKey : UInt64) (rowRef : RealtimeRowRef) : PublishPc :=
  if rowRef.primaryKey != primaryKey then
    .returned (.error (.invalidArgument "realtime row ref primary key mismatch"))
  else if !isValidSourcePosition rowRef.position then
    .returned (.error (.invalidArgument "source position is invalid"))
  else if map.capacity == 0 then
    .returned (.error (.failedPrecondition "realtime hash map capacity exhausted"))
  else map.publishLoop 0

/-- What `PublishExisting` does with the row it has loaded. -/
def decideRow (index : ℕ) (rowRef current : RealtimeRowRef) : PublishPc :=
  match classifySourcePositionUpdate current.position rowRef.position with
  | .error status => .returned (.error status)
  | .ok .kNewer => .casRow index current
  | .ok _ => .returned (.ok false)

/-- One access of a publish. A weak compare-exchange may also fail for no reason. -/
def publishStep (spurious : Bool) (primaryKey : UInt64) (rowRef : RealtimeRowRef) :
    PublishPc → PublishPc×RealtimeAtomicHashMap
  | .loadState probe =>
    match (map.slot (map.slotOf primaryKey probe)).state with
    | .kReserved => (.returned (.error (.unavailable "realtime hash map slot is reserved")),map)
    | .kOccupied => (.readKey probe,map)
    | .kEmpty => (.casState probe,map)
  | .readKey probe =>
    if (map.slot (map.slotOf primaryKey probe)).primaryKey = primaryKey then
      (.loadRow (map.slotOf primaryKey probe),map)
    else (map.publishLoop (probe+1),map)
  | .casState probe =>
    let index := map.slotOf primaryKey probe
    let slot := map.slot index
    if slot.state = .kEmpty then
      (.writeKey index,map.store index { slot with state := .kReserved } map.uniqueKeyCount)
    -- the loop decrements its probe, which may wrap, and increments it again
    else (map.publishLoop (probe-1+1),map)
  | .writeKey index =>
    (.storeRow index,map.store index { map.slot index with primaryKey } map.uniqueKeyCount)
  | .storeRow index =>
    (.storeOccupied index,
      map.store index { map.slot index with latestRow := some rowRef } map.uniqueKeyCount)
  | .storeOccupied index =>
    (.addCount index,map.store index { map.slot index with state := .kOccupied } map.uniqueKeyCount)
  | .addCount _ => (.returned (.ok true),{ map with uniqueKeyCount := map.uniqueKeyCount+1 })
  | .loadRow index =>
    match (map.slot index).latestRow with
    | none => (.returned (.error (.internal "occupied realtime slot has no visible row")),map)
    | some current => (decideRow index rowRef current,map)
  | .casRow index current =>
    let slot := map.slot index
    if slot.latestRow = some current ∧ spurious = false then
      (.returned (.ok true),map.store index { slot with latestRow := some rowRef } map.uniqueKeyCount)
    else (.loadRow index,map)
  | .returned result => (.returned result,map)

def getLoop (probe : UInt64) : GetPc :=
  if probe.toNat < map.capacity then .loadState probe else .returned (.ok none)

def getStep (primaryKey : UInt64) : GetPc → GetPc
  | .loadState probe =>
    match (map.slot (map.slotOf primaryKey probe)).state with
    | .kReserved | .kEmpty => .returned (.ok none)
    | .kOccupied => .readKey probe
  | .readKey probe =>
    if (map.slot (map.slotOf primaryKey probe)).primaryKey = primaryKey then
      .loadRow (map.slotOf primaryKey probe)
    else map.getLoop (probe+1)
  | .loadRow index =>
    match (map.slot index).latestRow with
    | none => .returned (.error (.internal "occupied realtime slot has no visible row"))
    | some row => .returned (.ok (some row))
  | .returned result => .returned result

inductive Call
  | publish (primaryKey : UInt64) (rowRef : RealtimeRowRef) (pc : PublishPc)
  | get (primaryKey : UInt64) (pc : GetPc)
  deriving DecidableEq

def Call.done : Call → Bool
  | .publish _ _ (.returned _) => true
  | .get _ (.returned _) => true
  | _ => false

structure World where
  map : RealtimeAtomicHashMap
  calls : List Call := []
  deriving DecidableEq

inductive Label
  | publish (primaryKey : UInt64) (rowRef : RealtimeRowRef)
  | get (primaryKey : UInt64)
  | access (call : ℕ) (spurious : Bool)

/-- A call begins, or one that has begun makes its next access. -/
inductive Step : World → Label → World → Prop
  | publish (world : World) (primaryKey : UInt64) (rowRef : RealtimeRowRef) :
      Step world (.publish primaryKey rowRef) { world with
        calls := world.calls++[.publish primaryKey rowRef (world.map.startPublish primaryKey rowRef)] }
  | get (world : World) (primaryKey : UInt64) :
      Step world (.get primaryKey) { world with
        calls := world.calls++[.get primaryKey (world.map.getLoop 0)] }
  | publishAccess {world : World} {i : ℕ} {primaryKey : UInt64} {rowRef : RealtimeRowRef}
      {pc : PublishPc} (spurious : Bool)
      (hcall : world.calls[i]? = some (.publish primaryKey rowRef pc)) :
      Step world (.access i spurious) {
        map := (world.map.publishStep spurious primaryKey rowRef pc).2
        calls := world.calls.set i
          (.publish primaryKey rowRef (world.map.publishStep spurious primaryKey rowRef pc).1) }
  | getAccess {world : World} {i : ℕ} {primaryKey : UInt64} {pc : GetPc} (spurious : Bool)
      (hcall : world.calls[i]? = some (.get primaryKey pc)) :
      Step world (.access i spurious) { world with
        calls := world.calls.set i (.get primaryKey (world.map.getStep primaryKey pc)) }

/-- The step as a function; there is none for a call that has not begun. -/
def World.next (world : World) : Label → Option World
  | .publish primaryKey rowRef => some { world with
      calls := world.calls++[.publish primaryKey rowRef (world.map.startPublish primaryKey rowRef)] }
  | .get primaryKey => some { world with
      calls := world.calls++[.get primaryKey (world.map.getLoop 0)] }
  | .access i spurious =>
    match world.calls[i]? with
    | none => none
    | some (.publish primaryKey rowRef pc) =>
      let (pc',map) := world.map.publishStep spurious primaryKey rowRef pc
      some { map,calls := world.calls.set i (.publish primaryKey rowRef pc') }
    | some (.get primaryKey pc) => some { world with
        calls := world.calls.set i (.get primaryKey (world.map.getStep primaryKey pc)) }

theorem step_iff {world world' : World} {label : Label} :
    Step world label world' ↔ world.next label = some world' := by
  constructor
  · rintro (⟨⟩ | ⟨⟩ | ⟨_,hcall⟩ | ⟨_,hcall⟩)
    · rfl
    · rfl
    · simp only [World.next,hcall]
    · simp only [World.next,hcall]
  · intro h
    cases label with
    | publish primaryKey rowRef =>
      obtain rfl := Option.some.inj h
      exact Step.publish world primaryKey rowRef
    | get primaryKey =>
      obtain rfl := Option.some.inj h
      exact Step.get world primaryKey
    | access i spurious =>
      rw [World.next] at h
      cases hcall : world.calls[i]? with
      | none =>
        rw [hcall] at h
        cases h
      | some call =>
        rw [hcall] at h
        cases call with
        | publish primaryKey rowRef pc =>
          obtain rfl := Option.some.inj h
          exact Step.publishAccess spurious hcall
        | get primaryKey pc =>
          obtain rfl := Option.some.inj h
          exact Step.getAccess spurious hcall

def World.follow (world : World) : List Label → Option World
  | [] => some world
  | label::labels => (world.next label).bind (·.follow labels)

theorem steps_of_follow {world world' : World} {labels : List Label}
    (h : world.follow labels = some world') : Steps Step world labels world' := by
  induction labels generalizing world with
  | nil =>
    obtain rfl := Option.some.inj h
    exact Steps.nil
  | cons label labels ih =>
    obtain ⟨first,hfirst,hrest⟩ := Option.bind_eq_some_iff.mp h
    exact Steps.head (step_iff.mpr hfirst) (ih hrest)

def World.create (capacity hashSeed : UInt64) (hashVersion : UInt32) : World where
  map := .create capacity hashSeed hashVersion

end RealtimeAtomicHashMap
end KvIndex
