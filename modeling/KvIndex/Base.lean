import Mathlib.Data.Nat.Digits.Defs
import KvIndex.LittleEndian

/-! Statuses, little-endian access to byte buffers, and the stable hash: the
primitives of `status.h`, `base/byte_io.h` and `base/hash.cc`. A `std::string` and
a byte vector are both a list of bytes; a size is a natural number, compared with
the 64-bit limits where the source compares it. -/
namespace KvIndex

abbrev Bytes := List UInt8

inductive StatusCode
  | kCancelled | kInvalidArgument | kNotFound | kFailedPrecondition | kInternal
  | kUnavailable | kUnknown
  deriving DecidableEq, Repr

/-- A status that is not OK. The OK status carries no message and is `Except.ok`. -/
structure Status where
  code : StatusCode
  message : String
  deriving DecidableEq, Repr

abbrev StatusOr := Except Status

namespace Status

def cancelled (message : String) : Status := ⟨.kCancelled,message⟩
def invalidArgument (message : String) : Status := ⟨.kInvalidArgument,message⟩
def notFound (message : String) : Status := ⟨.kNotFound,message⟩
def failedPrecondition (message : String) : Status := ⟨.kFailedPrecondition,message⟩
def internal (message : String) : Status := ⟨.kInternal,message⟩
def unavailable (message : String) : Status := ⟨.kUnavailable,message⟩

end Status

/-- `std::numeric_limits<std::uint64_t>::max()`. -/
def uint64Max : ℕ := 2^64-1

/-- `std::numeric_limits<std::uint32_t>::max()`. -/
def uint32Max : ℕ := 2^32-1

def isDigit (c : UInt8) : Bool := 48 ≤ c && c ≤ 57

def decimalValue (text : Bytes) : ℕ := Nat.ofDigits 10 (text.reverse.map fun c => c.toNat-48)

/-- A bound computation that succeeds has a first value and a continuation that succeeds. -/
theorem bind_eq_ok {α β : Type} {x : StatusOr α} {f : α → StatusOr β} {b : β} :
    (x >>= f) = .ok b ↔ ∃ a, x = .ok a ∧ f a = .ok b := by
  cases x with
  | error e => simp [bind,Except.bind]
  | ok a => simp [bind,Except.bind]

@[simp] theorem ok_bind {α β : Type} (a : α) (f : α → StatusOr β) :
    ((Except.ok a : StatusOr α) >>= f) = f a := rfl

@[simp] theorem error_bind {α β : Type} (e : Status) (f : α → StatusOr β) :
    ((Except.error e : StatusOr α) >>= f) = .error e := rfl

@[simp] theorem pure_eq_ok {α : Type} (a : α) : (pure a : StatusOr α) = .ok a := rfl

theorem map_eq_ok {α β : Type} {x : StatusOr α} {f : α → β} {b : β} :
    x.map f = .ok b ↔ ∃ a, x = .ok a ∧ f a = b := by
  cases x with
  | error status => simp [Except.map]
  | ok a => simp [Except.map]

/-- A `mapM` that succeeds, element by element. -/
theorem mapM_eq_ok {α β : Type} {f : α → StatusOr β} {as : List α} {bs : List β} :
    as.mapM f = .ok bs ↔ List.Forall₂ (fun a b => f a = .ok b) as bs := by
  induction as generalizing bs with
  | nil =>
    rw [List.mapM_nil,pure_eq_ok,Except.ok.injEq,List.forall₂_nil_left_iff,eq_comm]
  | cons a as ih =>
    simp only [List.mapM_cons,bind_eq_ok,pure_eq_ok,Except.ok.injEq,List.forall₂_cons_left_iff,ih]
    constructor
    · rintro ⟨b,hb,rest,hrest,rfl⟩
      exact ⟨b,rest,hb,hrest,rfl⟩
    · rintro ⟨b,rest,hb,hrest,rfl⟩
      exact ⟨b,hb,rest,hrest,rfl⟩

theorem exists_of_forall₂ {α β : Type} {P : α → β → Prop} {as : List α} {bs : List β}
    (h : List.Forall₂ P as bs) {a : α} (ha : a ∈ as) : ∃ b, P a b := by
  induction h with
  | nil => exact absurd ha List.not_mem_nil
  | cons hab _ ih =>
    rcases List.mem_cons.mp ha with rfl | ha
    · exact ⟨_,hab⟩
    · exact ih ha

theorem mapM_ok_of_mem {α β : Type} {f : α → StatusOr β} {as : List α} {bs : List β}
    (h : as.mapM f = .ok bs) {a : α} (ha : a ∈ as) : ∃ b, f a = .ok b :=
  exists_of_forall₂ (mapM_eq_ok.mp h) ha

theorem mapM_ok {α β : Type} {f : α → StatusOr β} {as : List α}
    (h : ∀ a ∈ as, ∃ b, f a = .ok b) : ∃ bs, as.mapM f = .ok bs := by
  induction as with
  | nil => exact ⟨[],rfl⟩
  | cons a as ih =>
    obtain ⟨b,hb⟩ := h a List.mem_cons_self
    obtain ⟨bs,hbs⟩ := ih fun other hother => h other (List.mem_cons_of_mem a hother)
    refine ⟨b::bs,?_⟩
    simp only [List.mapM_cons,hb,hbs,ok_bind,pure_eq_ok]

theorem mapM_error {α β : Type} {f : α → StatusOr β} {as : List α} {status : Status}
    (h : as.mapM f = .error status) : ∃ a ∈ as, f a = .error status := by
  induction as with
  | nil => cases h
  | cons a as ih =>
    rw [List.mapM_cons] at h
    cases ha : f a with
    | error status' =>
      rw [ha,error_bind] at h
      cases h
      exact ⟨a,List.mem_cons_self,ha⟩
    | ok b =>
      rw [ha,ok_bind] at h
      cases has : as.mapM f with
      | error status' =>
        rw [has,error_bind] at h
        obtain ⟨a',ha',hfa'⟩ := ih (has.trans h)
        exact ⟨a',List.mem_cons_of_mem _ ha',hfa'⟩
      | ok bs =>
        rw [has,ok_bind] at h
        cases h

theorem flatMap_length {α : Type} {encode : α → Bytes} {width : ℕ} {values : List α}
    (h : ∀ a ∈ values, (encode a).length = width) :
    (values.flatMap encode).length = values.length*width := by
  induction values with
  | nil => simp
  | cons a values ih =>
    rw [List.flatMap_cons,List.length_append,h a List.mem_cons_self,
      ih fun b hb => h b (List.mem_cons_of_mem a hb),List.length_cons,Nat.succ_mul,Nat.add_comm]

/-- The encodings of equal width in front of an element and behind it. -/
theorem flatMap_split {α : Type} {encode : α → Bytes} {width : ℕ}
    (hwidth : ∀ a, (encode a).length = width) (values : List α) {i : ℕ} (hi : i < values.length) :
    ∃ pre post, values.flatMap encode = pre++(encode values[i]++post) ∧ pre.length = i*width := by
  refine ⟨(values.take i).flatMap encode,(values.drop (i+1)).flatMap encode,?_,?_⟩
  · rw [← List.flatMap_cons,List.cons_getElem_drop_succ,← List.flatMap_append,
      List.take_append_drop]
  · rw [flatMap_length fun a _ => hwidth a,List.length_take,Nat.min_eq_left (le_of_lt hi)]

/-- An early `return` of an error status, as `if (bad) return status;`. -/
def failIf (bad : Bool) (status : Status) : StatusOr Unit :=
  if bad then .error status else .ok ()

@[simp] theorem failIf_eq_ok {bad : Bool} {status : Status} {u : Unit} :
    failIf bad status = .ok u ↔ bad = false := by cases bad <;> simp [failIf]

@[simp] theorem failIf_false (status : Status) : failIf false status = .ok () := rfl

namespace Base

open LittleEndian

def alignUp (value alignment : ℕ) : ℕ :=
  if alignment = 0 then value
  else
    let remainder := value%alignment
    if remainder = 0 then value else value+(alignment-remainder)

/-- The fixed-width integer types of `base::LittleEndianInteger`, each with its
`bit_cast` to and from the unsigned type of the same size. -/
class LittleEndianInteger (T : Type) where
  size : ℕ
  toUnsigned : T → ℕ
  ofUnsigned : ℕ → T
  toUnsigned_lt : ∀ v, toUnsigned v < 256^size
  ofUnsigned_toUnsigned : ∀ v, ofUnsigned (toUnsigned v) = v
  toUnsigned_ofUnsigned : ∀ n < 256^size, toUnsigned (ofUnsigned n) = n

instance : LittleEndianInteger UInt8 where
  size := 1
  toUnsigned := UInt8.toNat
  ofUnsigned := UInt8.ofNat
  toUnsigned_lt := UInt8.toNat_lt
  ofUnsigned_toUnsigned v := by simp
  toUnsigned_ofUnsigned n hn := by
    rw [UInt8.toNat_ofNat']
    exact Nat.mod_eq_of_lt hn

instance : LittleEndianInteger UInt16 where
  size := 2
  toUnsigned := UInt16.toNat
  ofUnsigned := UInt16.ofNat
  toUnsigned_lt := UInt16.toNat_lt
  ofUnsigned_toUnsigned v := by simp
  toUnsigned_ofUnsigned n hn := by
    rw [UInt16.toNat_ofNat']
    exact Nat.mod_eq_of_lt hn

instance : LittleEndianInteger UInt32 where
  size := 4
  toUnsigned := UInt32.toNat
  ofUnsigned := UInt32.ofNat
  toUnsigned_lt := UInt32.toNat_lt
  ofUnsigned_toUnsigned v := by simp
  toUnsigned_ofUnsigned n hn := by
    rw [UInt32.toNat_ofNat']
    exact Nat.mod_eq_of_lt hn

instance : LittleEndianInteger UInt64 where
  size := 8
  toUnsigned := UInt64.toNat
  ofUnsigned := UInt64.ofNat
  toUnsigned_lt := UInt64.toNat_lt
  ofUnsigned_toUnsigned v := by simp
  toUnsigned_ofUnsigned n hn := by
    rw [UInt64.toNat_ofNat']
    exact Nat.mod_eq_of_lt hn

instance : LittleEndianInteger Int8 where
  size := 1
  toUnsigned v := v.toUInt8.toNat
  ofUnsigned n := (UInt8.ofNat n).toInt8
  toUnsigned_lt v := v.toUInt8.toNat_lt
  ofUnsigned_toUnsigned v := by simp
  toUnsigned_ofUnsigned n hn := by
    rw [UInt8.toUInt8_toInt8,UInt8.toNat_ofNat']
    exact Nat.mod_eq_of_lt hn

instance : LittleEndianInteger Int32 where
  size := 4
  toUnsigned v := v.toUInt32.toNat
  ofUnsigned n := (UInt32.ofNat n).toInt32
  toUnsigned_lt v := v.toUInt32.toNat_lt
  ofUnsigned_toUnsigned v := by simp
  toUnsigned_ofUnsigned n hn := by
    rw [UInt32.toUInt32_toInt32,UInt32.toNat_ofNat']
    exact Nat.mod_eq_of_lt hn

instance : LittleEndianInteger Int64 where
  size := 8
  toUnsigned v := v.toUInt64.toNat
  ofUnsigned n := (UInt64.ofNat n).toInt64
  toUnsigned_lt v := v.toUInt64.toNat_lt
  ofUnsigned_toUnsigned v := by simp
  toUnsigned_ofUnsigned n hn := by
    rw [UInt64.toUInt64_toInt64,UInt64.toNat_ofNat']
    exact Nat.mod_eq_of_lt hn

export LittleEndianInteger (size)

variable {T : Type} [LittleEndianInteger T]

/-- The bytes of a fixed-width integer, as `WriteLittleEndian` lays them out. -/
def toBytes (v : T) : Bytes := digits (size T) (LittleEndianInteger.toUnsigned v)

/-- The fixed-width integer a byte window spells, as `ReadLittleEndian` sums it up. -/
def ofBytes (T : Type) [LittleEndianInteger T] (bs : Bytes) : T :=
  LittleEndianInteger.ofUnsigned (value bs)

@[simp] theorem toBytes_length (v : T) : (toBytes v).length = size T := by simp [toBytes]

@[simp] theorem ofBytes_toBytes (v : T) : ofBytes T (toBytes v) = v := by
  rw [ofBytes,toBytes,value_digits,Nat.mod_eq_of_lt (LittleEndianInteger.toUnsigned_lt v),
    LittleEndianInteger.ofUnsigned_toUnsigned]

theorem toBytes_ofBytes (bs : Bytes) (h : bs.length = size T) : toBytes (ofBytes T bs) = bs := by
  have hlt := value_lt bs
  rw [h] at hlt
  rw [toBytes,ofBytes,LittleEndianInteger.toUnsigned_ofUnsigned _ hlt,← h,digits_value]

def checkSpanBounds (size offset byteCount : ℕ) : StatusOr Unit :=
  failIf (size < offset || size-offset < byteCount)
    (.invalidArgument "little-endian fixed-width access is out of bounds")

theorem checkSpanBounds_eq_ok {size offset byteCount : ℕ} {u : Unit} :
    checkSpanBounds size offset byteCount = .ok u ↔ offset+byteCount ≤ size := by
  simp [checkSpanBounds]
  omega

def readLittleEndian (T : Type) [LittleEndianInteger T] (bytes : Bytes) (offset : ℕ) :
    StatusOr T := do
  checkSpanBounds bytes.length offset (size T)
  return ofBytes T (slice bytes offset (size T))

def writeLittleEndian (v : T) (bytes : Bytes) (offset : ℕ) : StatusOr Bytes := do
  checkSpanBounds bytes.length offset (size T)
  return splice bytes offset (toBytes v)

theorem readLittleEndian_eq_ok {bytes : Bytes} {offset : ℕ} {v : T} :
    readLittleEndian T bytes offset = .ok v ↔
      offset+size T ≤ bytes.length ∧ ofBytes T (slice bytes offset (size T)) = v := by
  simp only [readLittleEndian,bind_eq_ok,checkSpanBounds_eq_ok]
  constructor
  · rintro ⟨_,h,hv⟩
    exact ⟨h,by cases hv; rfl⟩
  · rintro ⟨h,rfl⟩
    exact ⟨(),h,rfl⟩

theorem readLittleEndian_of_le {bytes : Bytes} {offset : ℕ} (h : offset+size T ≤ bytes.length) :
    readLittleEndian T bytes offset = .ok (ofBytes T (slice bytes offset (size T))) :=
  readLittleEndian_eq_ok.mpr ⟨h,rfl⟩

theorem writeLittleEndian_of_le (v : T) {bytes : Bytes} {offset : ℕ}
    (h : offset+size T ≤ bytes.length) :
    writeLittleEndian v bytes offset = .ok (splice bytes offset (toBytes v)) := by
  simp only [writeLittleEndian]
  rw [(checkSpanBounds_eq_ok (u := ())).mpr h]
  rfl

/-- A write of the bytes `field.2` at the offset `field.1`. -/
def writeBytesAt (bytes : Bytes) (field : ℕ×Bytes) : StatusOr Bytes := do
  checkSpanBounds bytes.length field.1 field.2.length
  return splice bytes field.1 field.2

theorem writeLittleEndian_eq (v : T) (bytes : Bytes) (offset : ℕ) :
    writeLittleEndian v bytes offset = writeBytesAt bytes (offset,toBytes v) := by
  simp [writeLittleEndian,writeBytesAt]

/-- A sequence of writes that all fit overwrites all its windows. -/
theorem foldlM_writeBytesAt {bytes : Bytes} {fields : List (ℕ×Bytes)}
    (h : ∀ field ∈ fields, field.1+field.2.length ≤ bytes.length) :
    fields.foldlM writeBytesAt bytes = .ok (spliceAll bytes fields) := by
  induction fields generalizing bytes with
  | nil => rfl
  | cons field fields ih =>
    have hfield := h field List.mem_cons_self
    have hcheck := (checkSpanBounds_eq_ok (u := ())).mpr hfield
    have hstep : writeBytesAt bytes field = .ok (splice bytes field.1 field.2) := by
      rw [writeBytesAt,hcheck,ok_bind,pure_eq_ok]
    rw [List.foldlM_cons,hstep,ok_bind,spliceAll,List.foldl_cons,← spliceAll]
    apply ih
    intro other hother
    rw [splice_length bytes field.1 field.2 hfield]
    exact h other (List.mem_cons_of_mem _ hother)

theorem readLittleEndian_of_slice {bytes : Bytes} {offset : ℕ} {v : T}
    (hlen : offset+size T ≤ bytes.length) (h : slice bytes offset (size T) = toBytes v) :
    readLittleEndian T bytes offset = .ok v := by
  rw [readLittleEndian_of_le hlen,h,ofBytes_toBytes]

theorem readLittleEndian_middle (v : T) (pre post : Bytes) :
    readLittleEndian T (pre++(toBytes v++post)) pre.length = .ok v := by
  have hm : slice (pre++(toBytes v++post)) pre.length (size T) = toBytes v := by
    simpa only [toBytes_length] using slice_middle pre (toBytes v) post
  rw [readLittleEndian_eq_ok]
  exact ⟨by simp,by rw [hm,ofBytes_toBytes]⟩

structure ValueRef16 where
  offset : UInt64
  byteLength : UInt32
  elementCountOrFlags : UInt32
  deriving DecidableEq

def writeValueRef16 (ref : ValueRef16) (bytes : Bytes) (offset : ℕ) : StatusOr Bytes := do
  checkSpanBounds bytes.length offset 16
  let bytes ← writeLittleEndian ref.offset bytes offset
  let bytes ← writeLittleEndian ref.byteLength bytes (offset+8)
  writeLittleEndian ref.elementCountOrFlags bytes (offset+12)

def decodeValueRef16 (bytes : Bytes) (offset : ℕ) : StatusOr ValueRef16 := do
  checkSpanBounds bytes.length offset 16
  let refOffset ← readLittleEndian UInt64 bytes offset
  let byteLength ← readLittleEndian UInt32 bytes (offset+8)
  let elementCountOrFlags ← readLittleEndian UInt32 bytes (offset+12)
  return { offset := refOffset,byteLength,elementCountOrFlags }

def valueRefBytes (ref : ValueRef16) : Bytes :=
  toBytes ref.offset++(toBytes ref.byteLength++toBytes ref.elementCountOrFlags)

def refOfBytes (bytes : Bytes) : ValueRef16 where
  offset := ofBytes UInt64 (slice bytes 0 8)
  byteLength := ofBytes UInt32 (slice bytes 8 4)
  elementCountOrFlags := ofBytes UInt32 (slice bytes 12 4)

@[simp] theorem valueRefBytes_length (ref : ValueRef16) : (valueRefBytes ref).length = 16 := by
  rw [valueRefBytes,List.length_append,List.length_append,toBytes_length,toBytes_length,
    toBytes_length]
  rfl

@[simp] theorem refOfBytes_valueRefBytes (ref : ValueRef16) :
    refOfBytes (valueRefBytes ref) = ref := by
  have hoffset : slice (valueRefBytes ref) 0 8 = toBytes ref.offset :=
    slice_middle [] (toBytes ref.offset) _
  have hlength : slice (valueRefBytes ref) 8 4 = toBytes ref.byteLength :=
    slice_middle (toBytes ref.offset) (toBytes ref.byteLength) _
  have hcount : slice (valueRefBytes ref) 12 4 = toBytes ref.elementCountOrFlags := by
    have hmiddle := slice_middle (toBytes ref.offset++toBytes ref.byteLength)
      (toBytes ref.elementCountOrFlags) []
    rw [List.append_nil,List.append_assoc] at hmiddle
    exact hmiddle
  rw [refOfBytes,hoffset,hlength,hcount,ofBytes_toBytes,ofBytes_toBytes,ofBytes_toBytes]

theorem writeValueRef16_of_le (ref : ValueRef16) {bytes : Bytes} {offset : ℕ}
    (h : offset+16 ≤ bytes.length) :
    writeValueRef16 ref bytes offset = .ok (splice bytes offset (valueRefBytes ref)) := by
  have hfirst : offset+(toBytes ref.offset).length ≤ bytes.length := by
    rw [toBytes_length]
    exact (show offset+8 ≤ offset+16 by omega).trans h
  have hfirstLength := splice_length bytes offset (toBytes ref.offset) hfirst
  have hsecond : offset+(toBytes ref.offset++toBytes ref.byteLength).length ≤ bytes.length := by
    rw [List.length_append,toBytes_length,toBytes_length]
    exact (show offset+(8+4) ≤ offset+16 by omega).trans h
  have hsecondLength := splice_length bytes offset (toBytes ref.offset++toBytes ref.byteLength)
    hsecond
  have hjoin : splice (splice bytes offset (toBytes ref.offset)) (offset+8)
      (toBytes ref.byteLength) = splice bytes offset (toBytes ref.offset++toBytes ref.byteLength) :=
    splice_splice_append bytes offset (toBytes ref.offset) (toBytes ref.byteLength)
      (by rw [toBytes_length,toBytes_length]; exact (show offset+8+4 ≤ offset+16 by omega).trans h)
  have hjoin' : splice (splice bytes offset (toBytes ref.offset++toBytes ref.byteLength)) (offset+12)
      (toBytes ref.elementCountOrFlags) = splice bytes offset (valueRefBytes ref) := by
    rw [valueRefBytes,← List.append_assoc]
    exact splice_splice_append bytes offset (toBytes ref.offset++toBytes ref.byteLength)
      (toBytes ref.elementCountOrFlags)
      (by rw [List.length_append,toBytes_length,toBytes_length,toBytes_length]; exact h)
  rw [writeValueRef16,(checkSpanBounds_eq_ok (u := ())).mpr h,ok_bind,
    writeLittleEndian_of_le _ (by exact (show offset+8 ≤ offset+16 by omega).trans h),ok_bind,
    writeLittleEndian_of_le _ (by
      rw [hfirstLength]
      exact (show offset+8+4 ≤ offset+16 by omega).trans h),ok_bind,hjoin,
    writeLittleEndian_of_le _ (by
      rw [hsecondLength]
      exact (show offset+12+4 ≤ offset+16 by omega).trans h),hjoin']

theorem decodeValueRef16_of_le {bytes : Bytes} {offset : ℕ} (h : offset+16 ≤ bytes.length) :
    decodeValueRef16 bytes offset = .ok (refOfBytes (slice bytes offset 16)) := by
  rw [decodeValueRef16,(checkSpanBounds_eq_ok (u := ())).mpr h,ok_bind,
    readLittleEndian_of_le (by exact (show offset+8 ≤ offset+16 by omega).trans h),ok_bind,
    readLittleEndian_of_le (by exact (show offset+8+4 ≤ offset+16 by omega).trans h),ok_bind,
    readLittleEndian_of_le (by exact (show offset+12+4 ≤ offset+16 by omega).trans h),ok_bind,
    refOfBytes,slice_slice (by decide),slice_slice (by decide),slice_slice (by decide)]
  rfl

def splitMix64 (value : UInt64) : UInt64 :=
  let value := value+0x9e3779b97f4a7c15
  let value := (value ^^^ (value >>> 30))*0xbf58476d1ce4e5b9
  let value := (value ^^^ (value >>> 27))*0x94d049bb133111eb
  value ^^^ (value >>> 31)

def stableHash64 (primaryKey seed : UInt64) (version : UInt32) : UInt64 :=
  let versionMix := version.toUInt64*0xd6e8feb86659fd93
  splitMix64 (primaryKey ^^^ seed ^^^ versionMix)

def isPowerOfTwo (value : ℕ) : Bool := value != 0 && (value &&& (value-1)) == 0

theorem isPowerOfTwo_iff {value : ℕ} : isPowerOfTwo value = true ↔ ∃ k, value = 2^k := by
  simpa [isPowerOfTwo,Nat.isPowerOfTwo] using
    Nat.ne_zero_and_sub_one_eq_zero_iff_isPowerOfTwo (n := value)

theorem and_mask_of_isPowerOfTwo {capacity : ℕ} (h : isPowerOfTwo capacity = true) (n : ℕ) :
    n &&& (capacity-1) = n%capacity := by
  obtain ⟨k,rfl⟩ := isPowerOfTwo_iff.mp h
  exact Nat.and_two_pow_sub_one_eq_mod n k

end Base
end KvIndex
