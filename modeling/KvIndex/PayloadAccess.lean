import KvIndex.ArtifactAccess
import KvIndex.PayloadWire

/-! The payload decoder once more, with every access to the bytes written as a checked one and
with a `remaining` that may not wrap around. -/
namespace KvIndex
namespace Ingest
namespace Access

open Base LittleEndian
open Artifact.Access (Fault Checked access returns access_inside returns_bind returns_pure
  map_returns bind_eq_returns returns_ne_outOfRange)

/-- `ByteReader::remaining`, a difference of two sizes. -/
def remaining (bytes : Bytes) (cursor : ℕ) : Checked ℕ :=
  if cursor ≤ bytes.length then .ok (bytes.length-cursor) else .error .outOfRange

def readInteger (T : Type) [LittleEndianInteger T] : ByteReader Fault T := fun bytes cursor => do
  let room ← remaining bytes cursor
  returns (failIf (room < size T) (.invalidArgument "payload is truncated"))
  let value ← Artifact.Access.readLittleEndian T bytes cursor
  return (value,cursor+size T)

/-- `ReadUInt8` indexes the span itself. -/
def readUInt8 : ByteReader Fault UInt8 := fun bytes cursor => do
  let room ← remaining bytes cursor
  returns (failIf (room < 1) (.invalidArgument "payload is truncated"))
  let byte ← access bytes cursor 1
  return (byte.getD 0 0,cursor+1)

def readBytes (count : ℕ) : ByteReader Fault Bytes := fun bytes cursor => do
  let room ← remaining bytes cursor
  returns (failIf (room < count) (.invalidArgument "payload field is truncated"))
  let value ← access bytes cursor count
  return (value,cursor+count)

def expectRemaining (count : ℕ) (message : String) : ByteReader Fault Unit := fun bytes cursor => do
  let room ← remaining bytes cursor
  returns (failIf (room != count) (.invalidArgument message))
  return ((),cursor)

def readExactInteger (T : Type) [LittleEndianInteger T] (bytes : Bytes) : Checked T := do
  returns (failIf (bytes.length != size T)
    (.invalidArgument "payload scalar byte length is invalid"))
  Artifact.Access.readLittleEndian T bytes 0

def readBool (bytes : Bytes) : Checked Bool := do
  let value ← readExactInteger UInt8 bytes
  returns (failIf (value > 1) (.invalidArgument "payload bool value is invalid"))
  return value != 0

def readAll {α : Type} (reader : ByteReader Fault α) (bytes : Bytes) : Checked α := do
  let (value,_) ← reader bytes 0
  return value

def readScalarList (T : Type) [LittleEndianInteger T] : ByteReader Fault (List T) := do
  let count ← readInteger UInt32
  expectRemaining (count.toNat*size T) "payload list byte length is invalid"
  ByteReader.many count.toNat (readInteger T)

def readBoolElement : ByteReader Fault Bool := do
  let raw ← readUInt8
  ByteReader.lift (returns (failIf (raw > 1)
    (.invalidArgument "payload bool-list value is invalid")))
  return raw != 0

def readBoolList : ByteReader Fault (List Bool) := do
  let count ← readInteger UInt32
  expectRemaining count.toNat "payload bool-list byte length is invalid"
  ByteReader.many count.toNat readBoolElement

def readStringElement : ByteReader Fault Bytes := do
  let length ← readInteger UInt32
  readBytes length.toNat

def readStringList : ByteReader Fault (List Bytes) := do
  let count ← readInteger UInt32
  let values ← ByteReader.many count.toNat readStringElement
  expectRemaining 0 "payload string-list has trailing bytes"
  return values

def decodeValue (kind : Option WireKind) (bytes : Bytes) : Checked DecodedValue :=
  match kind with
  | none => .error (.status (.invalidArgument "payload field kind is unsupported"))
  | some .kNull => do
    returns (failIf (!bytes.isEmpty) (.invalidArgument "payload null field must be empty"))
    return .monostate
  | some .kInt8 => (readExactInteger Int8 bytes).map .int8
  | some .kInt32 => (readExactInteger Int32 bytes).map .int32
  | some .kInt64 => (readExactInteger Int64 bytes).map .int64
  | some .kUInt64 => (readExactInteger UInt64 bytes).map .uint64
  | some .kBool => (readBool bytes).map .bool
  | some .kString => .ok (.string bytes)
  | some .kInt8List => (readAll (readScalarList Int8) bytes).map .int8s
  | some .kInt32List => (readAll (readScalarList Int32) bytes).map .int32s
  | some .kInt64List => (readAll (readScalarList Int64) bytes).map .int64s
  | some .kUInt64List => (readAll (readScalarList UInt64) bytes).map .uint64s
  | some .kBoolList => (readAll readBoolList bytes).map .bools
  | some .kStringList => (readAll readStringList bytes).map .strings

def readField (fields : DecodedPayload) : ByteReader Fault DecodedPayload := do
  let fieldId ← readInteger UInt32
  ByteReader.lift (returns (failIf (fields.any fun field => field.fieldId == fieldId)
    (.invalidArgument "payload contains duplicate field id")))
  let kindByte ← readUInt8
  let byteLength ← readInteger UInt32
  let fieldBytes ← readBytes byteLength.toNat
  let value ← ByteReader.lift (decodeValue (WireKind.ofByte kindByte) fieldBytes)
  return fields++[⟨fieldId,value⟩]

def readFrame : ByteReader Fault DecodedPayload := do
  let version ← readInteger UInt16
  ByteReader.lift (returns (failIf (version != kWireVersion)
    (.invalidArgument "payload version is unsupported")))
  let flags ← readInteger UInt16
  ByteReader.lift (returns (failIf (flags != 0)
    (.invalidArgument "payload flags are unsupported")))
  let fieldCount ← readInteger UInt32
  let fields ← ByteReader.iterate fieldCount.toNat readField []
  expectRemaining 0 "payload has trailing bytes"
  return fields

/-- The magic is looked at only once there are twelve bytes. -/
def decodePayload (bytes : Bytes) : Checked DecodedPayload := do
  returns (failIf (bytes.length < 12) (.invalidArgument "payload magic is invalid"))
  let magic ← access bytes 0 4
  returns (failIf (magic != kMagic) (.invalidArgument "payload magic is invalid"))
  readAll readFrame (bytes.drop 4)

/-- A reader with checked accesses and the reader it follows, which leaves its cursor inside. -/
def Follows {α : Type} (p : ByteReader Fault α) (q : PayloadReader α) : Prop :=
  ∀ bytes cursor, cursor ≤ bytes.length → p bytes cursor = returns (q bytes cursor) ∧
    ∀ a next, q bytes cursor = .ok (a,next) → next ≤ bytes.length

theorem Follows.pure {α : Type} (a : α) : Follows (Pure.pure a) (Pure.pure a) := by
  intro bytes cursor hcursor
  refine ⟨rfl,?_⟩
  intro b next h
  rw [(ByteReader.pure_returns.mp h).2]
  exact hcursor

theorem Follows.bind {α β : Type} {p : ByteReader Fault α} {q : PayloadReader α}
    {f : α → ByteReader Fault β} {g : α → PayloadReader β} (hp : Follows p q)
    (hf : ∀ a, Follows (f a) (g a)) : Follows (p >>= f) (q >>= g) := by
  intro bytes cursor hcursor
  obtain ⟨hrun,hinside⟩ := hp bytes cursor hcursor
  simp only [Bind.bind,hrun]
  cases hq : q bytes cursor with
  | error status => exact ⟨rfl,fun _ _ h => by cases h⟩
  | ok result =>
    obtain ⟨a,middle⟩ := result
    exact hf a bytes middle (hinside a middle hq)

theorem Follows.lift {α : Type} {x : Checked α} {y : StatusOr α} (h : x = returns y) :
    Follows (ByteReader.lift x) (ByteReader.lift y) := by
  subst h
  intro bytes cursor hcursor
  refine ⟨?_,?_⟩
  · cases y with
    | error status => rfl
    | ok a => rfl
  · intro a next hok
    rw [(ByteReader.lift_returns.mp hok).2]
    exact hcursor

theorem Follows.many {α : Type} {p : ByteReader Fault α} {q : PayloadReader α} (h : Follows p q)
    (n : ℕ) : Follows (ByteReader.many n p) (ByteReader.many n q) := by
  induction n with
  | zero => exact Follows.pure []
  | succ n ih => exact h.bind fun a => ih.bind fun as => Follows.pure _

theorem Follows.iterate {σ : Type} {body : σ → ByteReader Fault σ} {body' : σ → PayloadReader σ}
    (h : ∀ s, Follows (body s) (body' s)) (n : ℕ) (s : σ) :
    Follows (ByteReader.iterate n body s) (ByteReader.iterate n body' s) := by
  induction n generalizing s with
  | zero => exact Follows.pure s
  | succ n ih => exact (h s).bind ih

theorem remaining_eq {bytes : Bytes} {cursor : ℕ} (h : cursor ≤ bytes.length) :
    remaining bytes cursor = .ok (bytes.length-cursor) := if_pos h

theorem readInteger_follows (T : Type) [LittleEndianInteger T] :
    Follows (readInteger T) (Ingest.readInteger T) := by
  intro bytes cursor hcursor
  refine ⟨?_,?_⟩
  · rw [readInteger,Ingest.readInteger,remaining_eq hcursor]
    simp only [Artifact.Access.ok_bind,Artifact.Access.readLittleEndian_eq,returns_bind,returns_pure]
  · intro v next h
    exact (readInteger_spelled h).inside

theorem readBytes_follows (count : ℕ) : Follows (readBytes count) (Ingest.readBytes count) := by
  intro bytes cursor hcursor
  refine ⟨?_,?_⟩
  · rw [readBytes,remaining_eq hcursor,Artifact.Access.ok_bind]
    by_cases hroom : bytes.length-cursor < count
    · have hfails : Ingest.readBytes count bytes cursor =
          .error (.invalidArgument "payload field is truncated") := by
        simp [Ingest.readBytes,Bind.bind,ByteReader.failWhen,hroom]
      rw [hfails,decide_eq_true hroom]
      rfl
    · have hreads := readBytes_eq_ok.mpr ⟨Nat.not_lt.mp hroom,rfl,rfl⟩
      rw [hreads,decide_eq_false hroom,access_inside (by omega)]
      rfl
  · intro value next h
    exact (readBytes_spelled hcursor h).2.inside

theorem expectRemaining_follows (count : ℕ) (message : String) :
    Follows (expectRemaining count message) (Ingest.expectRemaining count message) := by
  intro bytes cursor hcursor
  refine ⟨?_,?_⟩
  · rw [expectRemaining,Ingest.expectRemaining,remaining_eq hcursor,ByteReader.failWhen,
      Artifact.Access.ok_bind]
    cases bytes.length-cursor != count with
    | true => rfl
    | false => rfl
  · intro u next h
    rw [(expectRemaining_eq_ok.mp h).2]
    exact hcursor

theorem readUInt8_follows : Follows readUInt8 (Ingest.readInteger UInt8) := by
  intro bytes cursor hcursor
  refine ⟨?_,fun v next h => (readInteger_spelled h).inside⟩
  rw [readUInt8,Ingest.readInteger,remaining_eq hcursor,Artifact.Access.ok_bind]
  have hone : size UInt8 = 1 := rfl
  by_cases hroom : bytes.length-cursor < 1
  · rw [hone,decide_eq_true hroom]
    rfl
  · have hin : cursor < bytes.length := by omega
    have hbyte : slice bytes cursor 1 = [bytes[cursor]] := by
      rw [slice,List.drop_eq_getElem_cons hin]
      rfl
    rw [hone,decide_eq_false hroom,access_inside (by omega),
      readLittleEndian_of_le (by rw [hone]; omega),hone,hbyte]
    simp only [failIf_false,returns,Artifact.Access.ok_bind,ok_bind,pure_eq_ok]
    have hvalue : ofBytes UInt8 [bytes[cursor]] = bytes[cursor] := by
      have hword := ofBytes_toBytes bytes[cursor]
      have hdigits : toBytes bytes[cursor] = [bytes[cursor]] := by
        have hlt := bytes[cursor].toNat_lt
        simp [toBytes,digits,hone,LittleEndianInteger.toUnsigned]
      rwa [hdigits] at hword
    rw [hvalue]
    rfl

theorem readExactInteger_eq (T : Type) [LittleEndianInteger T] (bytes : Bytes) :
    readExactInteger T bytes = returns (Ingest.readExactInteger T bytes) := by
  simp only [readExactInteger,Ingest.readExactInteger,returns_bind,
    Artifact.Access.readLittleEndian_eq]

theorem readBool_eq (bytes : Bytes) : readBool bytes = returns (Ingest.readBool bytes) := by
  simp only [readBool,Ingest.readBool,returns_bind,returns_pure,readExactInteger_eq]

theorem Follows.readAll {α : Type} {p : ByteReader Fault α} {q : PayloadReader α} (h : Follows p q)
    (bytes : Bytes) : readAll p bytes = returns (Ingest.readAll q bytes) := by
  rw [Access.readAll,Ingest.readAll,(h bytes 0 (Nat.zero_le _)).1,returns_bind]
  rfl

theorem readScalarList_follows (T : Type) [LittleEndianInteger T] :
    Follows (readScalarList T) (Ingest.readScalarList T) :=
  (readInteger_follows UInt32).bind fun _ => (expectRemaining_follows _ _).bind fun _ =>
    (readInteger_follows T).many _

theorem readBoolElement_follows : Follows readBoolElement Ingest.readBoolElement :=
  readUInt8_follows.bind fun _ => (Follows.lift rfl).bind fun _ => Follows.pure _

theorem readBoolList_follows : Follows readBoolList Ingest.readBoolList :=
  (readInteger_follows UInt32).bind fun _ => (expectRemaining_follows _ _).bind fun _ =>
    readBoolElement_follows.many _

theorem readStringElement_follows : Follows readStringElement Ingest.readStringElement :=
  (readInteger_follows UInt32).bind fun _ => readBytes_follows _

theorem readStringList_follows : Follows readStringList Ingest.readStringList :=
  (readInteger_follows UInt32).bind fun _ => (readStringElement_follows.many _).bind fun _ =>
    (expectRemaining_follows _ _).bind fun _ => Follows.pure _

theorem decodeValue_eq (kind : Option WireKind) (bytes : Bytes) :
    decodeValue kind bytes = returns (Ingest.decodeValue kind bytes) := by
  cases kind with
  | none => rfl
  | some kind =>
    cases kind with
    | kNull => simp only [decodeValue,Ingest.decodeValue,returns_bind,returns_pure]
    | kString => rfl
    | _ => simp only [decodeValue,Ingest.decodeValue,readExactInteger_eq,readBool_eq,
        (readScalarList_follows _).readAll,readBoolList_follows.readAll,
        readStringList_follows.readAll,map_returns]

theorem readField_follows (fields : DecodedPayload) :
    Follows (readField fields) (Ingest.readField fields) := by
  refine (readInteger_follows UInt32).bind fun _ => (Follows.lift rfl).bind fun _ => ?_
  refine readUInt8_follows.bind fun _ => (readInteger_follows UInt32).bind fun _ => ?_
  refine (readBytes_follows _).bind fun _ => (Follows.lift (decodeValue_eq _ _)).bind fun _ => ?_
  exact Follows.pure _

theorem readFrame_follows : Follows readFrame Ingest.readFrame := by
  refine (readInteger_follows UInt16).bind fun _ => (Follows.lift rfl).bind fun _ => ?_
  refine (readInteger_follows UInt16).bind fun _ => (Follows.lift rfl).bind fun _ => ?_
  refine (readInteger_follows UInt32).bind fun _ => ?_
  refine (Follows.iterate readField_follows _ _).bind fun _ => ?_
  exact (expectRemaining_follows _ _).bind fun _ => Follows.pure _

theorem decodePayload_eq (bytes : Bytes) :
    decodePayload bytes = returns (Ingest.decodePayload bytes) := by
  rw [decodePayload,Ingest.decodePayload,returns_bind,readFrame_follows.readAll]
  by_cases hshort : bytes.length < 12
  · rw [decide_eq_true hshort]
    rfl
  · rw [decide_eq_false hshort,access_inside (by omega)]
    simp only [slice,List.drop_zero,failIf_false,returns,Artifact.Access.ok_bind,Bool.false_or]

/-- The payload decoder accepts exactly the frames of the reference encoder, reads back what was
encoded, and stays inside its bytes. -/
theorem decodePayload_canonical :
    (∀ payload, Encodable payload → Ingest.decodePayload (wirePayload payload) = .ok payload) ∧
    (∀ bytes payload, Ingest.decodePayload bytes = .ok payload →
      Encodable payload ∧ wirePayload payload = bytes) ∧
    (∀ bytes, (∀ payload, Encodable payload → wirePayload payload ≠ bytes) →
      ∃ status, Ingest.decodePayload bytes = .error status) ∧
    ∀ bytes, decodePayload bytes ≠ .error .outOfRange ∧
      decodePayload bytes = returns (Ingest.decodePayload bytes) := by
  refine ⟨?_,?_,?_,?_⟩
  · intro payload h
    exact decodePayload_eq_ok.mpr ⟨rfl,h⟩
  · intro bytes payload h
    obtain ⟨hbytes,hpayload⟩ := decodePayload_eq_ok.mp h
    exact ⟨hpayload,hbytes.symm⟩
  · intro bytes hnone
    cases hdecode : Ingest.decodePayload bytes with
    | error status => exact ⟨status,rfl⟩
    | ok payload =>
      obtain ⟨hbytes,hpayload⟩ := decodePayload_eq_ok.mp hdecode
      exact absurd hbytes.symm (hnone payload hpayload)
  · intro bytes
    refine ⟨?_,decodePayload_eq bytes⟩
    rw [decodePayload_eq]
    exact returns_ne_outOfRange _

end Access
end Ingest
end KvIndex
