import KvIndex.UpdatePayload

/-! The reference encoder of the payload frame. `DecodePayload` reads back what it writes, and
accepts nothing else: the bytes of an accepted frame are the encoding of its fields. -/
namespace KvIndex
namespace Ingest

open Base LittleEndian ByteReader

namespace WireKind

def byte : WireKind → UInt8
  | kNull => 0 | kInt8 => 1 | kInt32 => 2 | kInt64 => 3 | kUInt64 => 4 | kBool => 5 | kString => 6
  | kInt8List => 17 | kInt32List => 18 | kInt64List => 19 | kUInt64List => 20 | kBoolList => 21
  | kStringList => 22

theorem ofByte_byte (kind : WireKind) : ofByte kind.byte = some kind := by
  cases kind <;> rfl

theorem byte_of_ofByte {raw : UInt8} {kind : WireKind} (h : ofByte raw = some kind) :
    raw = kind.byte := by
  have hbytes : ∀ b : Fin 256, ∀ kind, ofByte (UInt8.ofNat b.val) = some kind →
      UInt8.ofNat b.val = kind.byte := by
    decide +kernel
  have hraw := hbytes ⟨raw.toNat,raw.toNat_lt⟩ kind
  simpa using hraw (by simpa using h)

end WireKind

/-- The kind of a value; the source keeps it beside the value and never reads it. -/
def valueKind : DecodedValue → WireKind
  | .monostate => .kNull
  | .int8 _ => .kInt8
  | .int32 _ => .kInt32
  | .int64 _ => .kInt64
  | .uint64 _ => .kUInt64
  | .bool _ => .kBool
  | .string _ => .kString
  | .int8s _ => .kInt8List
  | .int32s _ => .kInt32List
  | .int64s _ => .kInt64List
  | .uint64s _ => .kUInt64List
  | .bools _ => .kBoolList
  | .strings _ => .kStringList

def wireBool (value : Bool) : Bytes := [if value then 1 else 0]

def wireString (value : Bytes) : Bytes := toBytes (UInt32.ofNat value.length)++value

def wireList {α : Type} (element : α → Bytes) (values : List α) : Bytes :=
  toBytes (UInt32.ofNat values.length)++values.flatMap element

/-- The bytes of a field, as the format comment of the source lays them out. -/
def wireValue : DecodedValue → Bytes
  | .monostate => []
  | .int8 v => toBytes v
  | .int32 v => toBytes v
  | .int64 v => toBytes v
  | .uint64 v => toBytes v
  | .bool v => wireBool v
  | .string v => v
  | .int8s vs => wireList toBytes vs
  | .int32s vs => wireList toBytes vs
  | .int64s vs => wireList toBytes vs
  | .uint64s vs => wireList toBytes vs
  | .bools vs => wireList wireBool vs
  | .strings vs => wireList wireString vs

def wireField (field : DecodedField) : Bytes :=
  toBytes field.fieldId++(toBytes (valueKind field.value).byte++
    (toBytes (UInt32.ofNat (wireValue field.value).length)++wireValue field.value))

/-- The reference encoder: magic, version, flags, field count and fields. -/
def wirePayload (payload : DecodedPayload) : Bytes :=
  kMagic++(toBytes kWireVersion++(toBytes (0 : UInt16)++
    (toBytes (UInt32.ofNat payload.length)++payload.flatMap wireField)))

/-- The counts and lengths of a value fit 32 bits. -/
def ValueFits : DecodedValue → Prop
  | .int8s vs => vs.length < 2^32
  | .int32s vs => vs.length < 2^32
  | .int64s vs => vs.length < 2^32
  | .uint64s vs => vs.length < 2^32
  | .bools vs => vs.length < 2^32
  | .strings vs => vs.length < 2^32 ∧ ∀ v ∈ vs, v.length < 2^32
  | _ => True

/-- What a payload must be to have a frame: distinct field ids, and all counts and lengths
below 2^32. -/
structure Encodable (payload : DecodedPayload) : Prop where
  distinct : (payload.map DecodedField.fieldId).Nodup
  count : payload.length < 2^32
  length : ∀ field ∈ payload, (wireValue field.value).length < 2^32
  fits : ∀ field ∈ payload, ValueFits field.value

theorem readInteger_eq_ok {T : Type} [LittleEndianInteger T] {bytes : Bytes} {cursor next : ℕ}
    {v : T} : readInteger T bytes cursor = .ok (v,next) ↔
      cursor+size T ≤ bytes.length ∧ next = cursor+size T ∧
        ofBytes T (slice bytes cursor (size T)) = v := by
  simp only [readInteger,bind_eq_ok,failIf_eq_ok,exists_const,readLittleEndian_eq_ok,pure_eq_ok,
    Except.ok.injEq,Prod.mk.injEq,decide_eq_false_iff_not]
  constructor
  · rintro ⟨_,value,⟨hroom,rfl⟩,rfl,rfl⟩
    exact ⟨hroom,rfl,rfl⟩
  · rintro ⟨hroom,rfl,rfl⟩
    exact ⟨by omega,_,⟨hroom,rfl⟩,rfl,rfl⟩

theorem readInteger_reads {T : Type} [LittleEndianInteger T] (v : T) :
    Reads (readInteger T) (toBytes v) v := by
  intro pre post
  rw [readInteger_eq_ok,toBytes_length]
  refine ⟨by simp,rfl,?_⟩
  have hmiddle := slice_middle pre (toBytes v) post
  rw [toBytes_length] at hmiddle
  rw [hmiddle,ofBytes_toBytes]

theorem readInteger_spelled {T : Type} [LittleEndianInteger T] {bytes : Bytes} {cursor next : ℕ}
    {v : T} (h : readInteger T bytes cursor = .ok (v,next)) :
    Spelled bytes cursor next (toBytes v) := by
  obtain ⟨hroom,rfl,rfl⟩ := readInteger_eq_ok.mp h
  rw [toBytes_ofBytes _ (by rw [slice_length]; omega)]
  exact spelled_slice hroom

theorem readBytes_eq_ok {count : ℕ} {bytes value : Bytes} {cursor next : ℕ} :
    readBytes count bytes cursor = .ok (value,next) ↔
      count ≤ bytes.length-cursor ∧ value = slice bytes cursor count ∧ next = cursor+count := by
  simp only [readBytes,bind_returns,failWhen_returns,ByteReader.take,Except.ok.injEq,Prod.mk.injEq,
    decide_eq_false_iff_not,Nat.not_lt]
  constructor
  · rintro ⟨_,_,⟨hroom,rfl⟩,rfl,rfl⟩
    exact ⟨hroom,rfl,rfl⟩
  · rintro ⟨hroom,rfl,rfl⟩
    exact ⟨(),cursor,⟨hroom,rfl⟩,rfl,rfl⟩

theorem readBytes_reads (value : Bytes) : Reads (readBytes value.length) value value := by
  intro pre post
  rw [readBytes_eq_ok,slice_middle]
  exact ⟨by simp only [List.length_append]; omega,rfl,rfl⟩

theorem readBytes_spelled {count : ℕ} {bytes value : Bytes} {cursor next : ℕ}
    (hcursor : cursor ≤ bytes.length) (h : readBytes count bytes cursor = .ok (value,next)) :
    value.length = count ∧ Spelled bytes cursor next value := by
  obtain ⟨hroom,rfl,rfl⟩ := readBytes_eq_ok.mp h
  exact ⟨by rw [slice_length]; omega,spelled_slice (by omega)⟩

theorem expectRemaining_eq_ok {count : ℕ} {message : String} {bytes : Bytes} {cursor next : ℕ}
    {u : Unit} : expectRemaining count message bytes cursor = .ok (u,next) ↔
      bytes.length-cursor = count ∧ next = cursor := by
  rw [expectRemaining,failWhen_returns,bne_eq_false_iff_eq]

theorem readExactInteger_eq_ok {T : Type} [LittleEndianInteger T] {bytes : Bytes} {v : T} :
    readExactInteger T bytes = .ok v ↔ bytes = toBytes v := by
  simp only [readExactInteger,bind_eq_ok,failIf_eq_ok,exists_const,bne_eq_false_iff_eq,
    readLittleEndian_eq_ok]
  constructor
  · rintro ⟨hlength,-,rfl⟩
    rw [toBytes_ofBytes _ (by rw [slice_length]; omega),← hlength,slice,List.drop_zero,
      List.take_length]
  · rintro rfl
    have hwhole : slice (toBytes v) 0 (size T) = toBytes v := by
      rw [slice,List.drop_zero,List.take_of_length_le (by rw [toBytes_length])]
    exact ⟨toBytes_length v,by rw [toBytes_length]; omega,by rw [hwhole,ofBytes_toBytes]⟩

theorem bool_of_byte {raw : UInt8} (h : ¬raw > 1) : toBytes raw = wireBool (raw != 0) := by
  have hraw : raw = 0 ∨ raw = 1 := by
    rw [gt_iff_lt,UInt8.not_lt,UInt8.le_iff_toNat_le] at h
    have hone : (1 : UInt8).toNat = 1 := rfl
    rw [hone] at h
    rcases Nat.le_one_iff_eq_zero_or_eq_one.mp h with hzero | hone
    · exact Or.inl (UInt8.toNat_inj.mp hzero)
    · exact Or.inr (UInt8.toNat_inj.mp hone)
  rcases hraw with rfl | rfl <;> decide

theorem byte_of_bool (v : Bool) :
    wireBool v = toBytes (if v then 1 else 0 : UInt8) ∧ ¬(if v then 1 else 0 : UInt8) > 1 ∧
      ((if v then 1 else 0 : UInt8) != 0) = v := by
  cases v <;> decide

theorem readBool_eq_ok {bytes : Bytes} {v : Bool} : readBool bytes = .ok v ↔ bytes = wireBool v := by
  simp only [readBool,bind_eq_ok,failIf_eq_ok,exists_const,pure_eq_ok,Except.ok.injEq,
    readExactInteger_eq_ok,decide_eq_false_iff_not]
  constructor
  · rintro ⟨raw,rfl,hraw,rfl⟩
    exact bool_of_byte hraw
  · rintro rfl
    obtain ⟨hbytes,hraw,hvalue⟩ := byte_of_bool v
    exact ⟨_,hbytes,hraw,hvalue⟩

theorem readBoolElement_reads (v : Bool) : Reads readBoolElement (wireBool v) v := by
  obtain ⟨hbytes,hraw,hvalue⟩ := byte_of_bool v
  rw [hbytes]
  refine (readInteger_reads _).bind_nil ?_
  have hcheck : failIf ((if v then 1 else 0 : UInt8) > 1)
      (.invalidArgument "payload bool-list value is invalid") = .ok () := by
    rw [decide_eq_false hraw,failIf_false]
  refine (Reads.lift hcheck).bind_nil ?_
  rw [hvalue]
  exact Reads.pure v

theorem readBoolElement_spelled {bytes : Bytes} {cursor next : ℕ} {v : Bool}
    (h : readBoolElement bytes cursor = .ok (v,next)) : Spelled bytes cursor next (wireBool v) := by
  simp only [readBoolElement,bind_returns,lift_returns,pure_returns,failIf_eq_ok,
    decide_eq_false_iff_not] at h
  obtain ⟨raw,_,hread,_,_,⟨hraw,rfl⟩,rfl,rfl⟩ := h
  rw [← bool_of_byte hraw]
  exact readInteger_spelled hread

theorem ofNat_toNat_of_lt {n : ℕ} (h : n < 2^32) : (UInt32.ofNat n).toNat = n := by
  rw [UInt32.toNat_ofNat',Nat.mod_eq_of_lt h]

theorem readStringElement_reads {v : Bytes} (h : v.length < 2^32) :
    Reads readStringElement (wireString v) v := by
  refine (readInteger_reads _).bind ?_
  rw [ofNat_toNat_of_lt h]
  exact readBytes_reads v

theorem readStringElement_spelled {bytes : Bytes} {cursor next : ℕ} {v : Bytes}
    (h : readStringElement bytes cursor = .ok (v,next)) :
    v.length < 2^32 ∧ Spelled bytes cursor next (wireString v) := by
  obtain ⟨length,middle,hlength,hvalue⟩ := bind_returns.mp h
  have hfirst := readInteger_spelled hlength
  obtain ⟨hcount,hsecond⟩ := readBytes_spelled hfirst.inside hvalue
  have hlt := length.toNat_lt
  refine ⟨by omega,?_⟩
  rw [wireString,hcount,UInt32.ofNat_toNat]
  exact hfirst.append hsecond

section Lists

variable {α : Type} {p : PayloadReader α} {enc : α → Bytes} {Good : α → Prop}

/-- The values behind a count, read to the end of the bytes. -/
def readCounted (p : PayloadReader α) : PayloadReader (List α) := do
  let count ← readInteger UInt32
  many count.toNat p

theorem readCounted_eq_ok (hreads : ∀ a, Good a → Reads p (enc a) a)
    (hspelled : ∀ (bytes : Bytes) (cursor : ℕ) (a : α) (next : ℕ), cursor ≤ bytes.length →
      p bytes cursor = .ok (a,next) → Good a ∧ Spelled bytes cursor next (enc a))
    {bytes : Bytes} {values : List α} :
    readCounted p bytes 0 = .ok (values,bytes.length) ↔
      bytes = wireList enc values ∧ values.length < 2^32 ∧ ∀ a ∈ values, Good a := by
  constructor
  · intro h
    obtain ⟨count,middle,hcount,hvalues⟩ := bind_returns.mp h
    have hfirst := readInteger_spelled hcount
    obtain ⟨hlength,hgood,hsecond⟩ := many_spelled (hspelled bytes) hfirst.inside hvalues
    have hlt := count.toNat_lt
    refine ⟨?_,by omega,hgood⟩
    rw [wireList,hlength,UInt32.ofNat_toNat]
    exact (hfirst.append hsecond).whole
  · rintro ⟨rfl,hlt,hgood⟩
    refine Reads.whole ((readInteger_reads _).bind ?_)
    rw [ofNat_toNat_of_lt hlt]
    exact Reads.many_map fun a ha => hreads a (hgood a ha)

/-- For elements of one width the length check in front of the loop stands for one behind it. -/
theorem checkedList_eq_ok {w : ℕ} {message : String} (hwidth : ∀ a, Good a → (enc a).length = w)
    (hspelled : ∀ (bytes : Bytes) (cursor : ℕ) (a : α) (next : ℕ), cursor ≤ bytes.length →
      p bytes cursor = .ok (a,next) → Good a ∧ Spelled bytes cursor next (enc a))
    {bytes : Bytes} {values : List α} :
    readAll (do
      let count ← readInteger UInt32
      expectRemaining (count.toNat*w) message
      many count.toNat p) bytes = .ok values ↔
      readCounted p bytes 0 = .ok (values,bytes.length) := by
  simp only [readAll,bind_eq_ok,pure_eq_ok,Except.ok.injEq,readCounted,bind_returns,
    expectRemaining_eq_ok,Prod.exists]
  have hend : ∀ {count : UInt32} {middle next : ℕ}, middle ≤ bytes.length →
      many count.toNat p bytes middle = .ok (values,next) →
      next = middle+count.toNat*w ∧ next ≤ bytes.length := by
    intro count middle next hmiddle h
    obtain ⟨hlength,hgood,hs⟩ := many_spelled (hspelled bytes) hmiddle h
    have hflat := flatMap_length fun a ha => hwidth a (hgood a ha)
    rw [hlength] at hflat
    exact ⟨by rw [hs.next_eq,hflat],hs.inside⟩
  constructor
  · rintro ⟨values,next,⟨count,middle,hcount,_,_,⟨hremaining,hsame⟩,hvalues⟩,rfl⟩
    rw [hsame] at hvalues
    have hmiddle := (readInteger_spelled hcount).inside
    obtain ⟨hnext,hinside⟩ := hend hmiddle hvalues
    have hlast : next = bytes.length := by omega
    exact ⟨count,middle,hcount,hlast ▸ hvalues⟩
  · rintro ⟨count,middle,hcount,hvalues⟩
    have hmiddle := (readInteger_spelled hcount).inside
    obtain ⟨hnext,-⟩ := hend hmiddle hvalues
    exact ⟨values,bytes.length,⟨count,middle,hcount,(),middle,⟨by omega,rfl⟩,hvalues⟩,rfl⟩

end Lists

theorem readScalarList_eq_ok {T : Type} [LittleEndianInteger T] {bytes : Bytes} {values : List T} :
    readAll (readScalarList T) bytes = .ok values ↔
      bytes = wireList toBytes values ∧ values.length < 2^32 := by
  have hspelled : ∀ (bytes : Bytes) (cursor : ℕ) (v : T) (next : ℕ), cursor ≤ bytes.length →
      readInteger T bytes cursor = .ok (v,next) → True ∧ Spelled bytes cursor next (toBytes v) :=
    fun _ _ _ _ _ h => ⟨trivial,readInteger_spelled h⟩
  rw [readScalarList,checkedList_eq_ok (fun v _ => toBytes_length v) hspelled,
    readCounted_eq_ok (fun v _ => readInteger_reads v) hspelled]
  simp

theorem readBoolList_eq_ok {bytes : Bytes} {values : List Bool} :
    readAll readBoolList bytes = .ok values ↔
      bytes = wireList wireBool values ∧ values.length < 2^32 := by
  have hspelled : ∀ (bytes : Bytes) (cursor : ℕ) (v : Bool) (next : ℕ), cursor ≤ bytes.length →
      readBoolElement bytes cursor = .ok (v,next) →
      True ∧ Spelled bytes cursor next (wireBool v) :=
    fun _ _ _ _ _ h => ⟨trivial,readBoolElement_spelled h⟩
  have hchecked := @checkedList_eq_ok _ _ _ _ 1 "payload bool-list byte length is invalid"
    (fun _ _ => rfl) hspelled bytes values
  simp only [Nat.mul_one] at hchecked
  rw [readBoolList,hchecked,readCounted_eq_ok (fun v _ => readBoolElement_reads v) hspelled]
  simp

theorem readStringList_eq_ok {bytes : Bytes} {values : List Bytes} :
    readAll readStringList bytes = .ok values ↔
      bytes = wireList wireString values ∧ values.length < 2^32 ∧ ∀ v ∈ values, v.length < 2^32 := by
  have hspelled : ∀ (bytes : Bytes) (cursor : ℕ) (v : Bytes) (next : ℕ), cursor ≤ bytes.length →
      readStringElement bytes cursor = .ok (v,next) →
      v.length < 2^32 ∧ Spelled bytes cursor next (wireString v) :=
    fun _ _ _ _ _ h => readStringElement_spelled h
  rw [← readCounted_eq_ok (fun v hv => readStringElement_reads hv) hspelled]
  simp only [readAll,readStringList,bind_eq_ok,pure_eq_ok,Except.ok.injEq,readCounted,bind_returns,
    expectRemaining_eq_ok,pure_returns,Prod.exists]
  constructor
  · rintro ⟨_,_,⟨count,middle,hcount,values,last,hvalues,_,_,⟨hremaining,-⟩,rfl,-⟩,rfl⟩
    have hmiddle := (readInteger_spelled hcount).inside
    have hinside := (many_spelled (hspelled bytes) hmiddle hvalues).2.2.inside
    have hlast : last = bytes.length := by omega
    exact ⟨count,middle,hcount,hlast ▸ hvalues⟩
  · rintro ⟨count,middle,hcount,hvalues⟩
    exact ⟨values,bytes.length,⟨count,middle,hcount,values,_,hvalues,(),_,⟨by omega,rfl⟩,rfl,rfl⟩,rfl⟩

/-- A value is decoded under its own kind, from its own bytes only. -/
theorem decodeValue_eq_ok {kind : Option WireKind} {bytes : Bytes} {value : DecodedValue} :
    decodeValue kind bytes = .ok value ↔
      kind = some (valueKind value) ∧ bytes = wireValue value ∧ ValueFits value := by
  cases kind with
  | none => simp [decodeValue]
  | some kind =>
    cases kind with
    | kNull =>
      cases value <;> simp [decodeValue,valueKind,wireValue,ValueFits,bind_eq_ok]
    | kString => cases value <;> simp [decodeValue,valueKind,wireValue,ValueFits,eq_comm]
    | _ =>
      cases value <;> simp [decodeValue,map_eq_ok,valueKind,wireValue,ValueFits,
        readExactInteger_eq_ok,readBool_eq_ok,readScalarList_eq_ok,readBoolList_eq_ok,
        readStringList_eq_ok]

/-- What a frame demands of one field. -/
structure FieldFits (field : DecodedField) : Prop where
  length : (wireValue field.value).length < 2^32
  fits : ValueFits field.value

theorem readField_reads {fields : DecodedPayload} {field : DecodedField} (hfits : FieldFits field)
    (hnew : ∀ other ∈ fields, other.fieldId ≠ field.fieldId) :
    Reads (readField fields) (wireField field) (fields++[field]) := by
  have hcheck : failIf (fields.any fun other => other.fieldId == field.fieldId)
      (.invalidArgument "payload contains duplicate field id") = .ok () := by
    rw [failIf_eq_ok,List.any_eq_false]
    intro other hother
    simpa using hnew other hother
  have hvalue : decodeValue (WireKind.ofByte (valueKind field.value).byte)
      (wireValue field.value) = .ok field.value :=
    decodeValue_eq_ok.mpr ⟨WireKind.ofByte_byte _,rfl,hfits.fits⟩
  refine (readInteger_reads field.fieldId).bind ?_
  refine (Reads.lift hcheck).bind ?_
  refine (readInteger_reads (valueKind field.value).byte).bind ?_
  refine (readInteger_reads (UInt32.ofNat (wireValue field.value).length)).bind ?_
  rw [ofNat_toNat_of_lt hfits.length]
  refine (readBytes_reads (wireValue field.value)).bind_nil ?_
  exact (Reads.lift hvalue).map fun value => fields++[⟨field.fieldId,value⟩]

theorem readField_spelled {fields fields' : DecodedPayload} {bytes : Bytes} {cursor next : ℕ}
    (h : readField fields bytes cursor = .ok (fields',next)) :
    ∃ field, fields' = fields++[field] ∧ FieldFits field ∧
      (∀ other ∈ fields, other.fieldId ≠ field.fieldId) ∧
      Spelled bytes cursor next (wireField field) := by
  simp only [readField,bind_returns,lift_returns,pure_returns,failIf_eq_ok,List.any_eq_false,
    decodeValue_eq_ok] at h
  obtain ⟨fieldId,_,hid,_,_,⟨hnew,rfl⟩,kindByte,_,hkind,byteLength,_,hlength,fieldBytes,_,hbytes,
    value,_,⟨⟨hbyte,rfl,hfits⟩,rfl⟩,rfl,rfl⟩ := h
  have hfirst := readInteger_spelled hid
  have hsecond := readInteger_spelled hkind
  have hthird := readInteger_spelled hlength
  obtain ⟨hcount,hfourth⟩ := readBytes_spelled hthird.inside hbytes
  have hlt := byteLength.toNat_lt
  refine ⟨⟨fieldId,value⟩,rfl,⟨by rw [hcount]; exact hlt,hfits⟩,by simpa using hnew,?_⟩
  rw [wireField,hcount,UInt32.ofNat_toNat,← WireKind.byte_of_ofByte hbyte]
  exact hfirst.append (hsecond.append (hthird.append hfourth))

theorem readFields_reads {payload : DecodedPayload} (h : Encodable payload) :
    Reads (iterate payload.length readField []) (payload.flatMap wireField) payload := by
  have hparts : List.Forall₂ (fun field enc => enc = wireField field) payload
      (payload.map wireField) := by
    rw [List.forall₂_map_right_iff]
    exact List.forall₂_same.mpr fun _ _ => rfl
  have hfold : ∀ fields : DecodedPayload, fields.foldl (fun done field => done++[field]) [] =
      fields := by
    intro fields
    induction fields using List.reverseRecOn with
    | nil => rfl
    | append_singleton fields field ih =>
      rw [List.foldl_append,ih,List.foldl_cons,List.foldl_nil]
  have hloop : Reads (iterate payload.length readField []) (payload.map wireField).flatten
      (payload.foldl (fun done field => done++[field]) []) := Reads.iterate _ [] hparts (by
    rintro done field rest enc hsplit rfl
    have hmem : field ∈ payload := by rw [hsplit]; simp
    rw [hfold]
    refine readField_reads ⟨h.length field hmem,h.fits field hmem⟩ ?_
    intro other hother
    have hdistinct := h.distinct
    rw [hsplit,List.map_append,List.nodup_append] at hdistinct
    exact hdistinct.2.2 _ (List.mem_map_of_mem hother) _ (by simp))
  rwa [hfold,← List.flatMap_def] at hloop

theorem readFields_spelled {n : ℕ} {fields fields' : DecodedPayload} {bytes : Bytes}
    {cursor next : ℕ} (hcursor : cursor ≤ bytes.length)
    (hdistinct : (fields.map DecodedField.fieldId).Nodup)
    (h : iterate n readField fields bytes cursor = .ok (fields',next)) :
    ∃ added, fields' = fields++added ∧ added.length = n ∧ (∀ field ∈ added, FieldFits field) ∧
      (fields'.map DecodedField.fieldId).Nodup ∧
      Spelled bytes cursor next (added.flatMap wireField) := by
  induction n generalizing fields cursor with
  | zero =>
    obtain ⟨rfl,rfl⟩ := pure_returns.mp h
    exact ⟨[],by simp,rfl,by simp,hdistinct,Spelled.nil hcursor⟩
  | succ n ih =>
    obtain ⟨fields₁,middle,hfirst,hrest⟩ := bind_returns.mp h
    obtain ⟨field,rfl,hfits,hnew,hspelled⟩ := readField_spelled hfirst
    have hdistinct₁ : ((fields++[field]).map DecodedField.fieldId).Nodup := by
      rw [List.map_append,List.nodup_append]
      refine ⟨hdistinct,by simp,?_⟩
      intro id hid other hother
      obtain ⟨old,hold,rfl⟩ := List.mem_map.mp hid
      rw [List.map_singleton,List.mem_singleton] at hother
      rw [hother]
      exact hnew old hold
    obtain ⟨added,rfl,hlength,hall,hnodup,htail⟩ := ih hspelled.inside hdistinct₁ hrest
    refine ⟨field::added,by simp,by rw [List.length_cons,hlength],?_,hnodup,hspelled.append htail⟩
    intro other hother
    rcases List.mem_cons.mp hother with rfl | hother
    · exact hfits
    · exact hall other hother

def wireFrame (payload : DecodedPayload) : Bytes :=
  toBytes kWireVersion++(toBytes (0 : UInt16)++
    (toBytes (UInt32.ofNat payload.length)++payload.flatMap wireField))

theorem readFrame_eq_ok {bytes : Bytes} {payload : DecodedPayload} :
    readAll readFrame bytes = .ok payload ↔ bytes = wireFrame payload ∧ Encodable payload := by
  simp only [readAll,readFrame,bind_eq_ok,pure_eq_ok,Except.ok.injEq,bind_returns,lift_returns,
    pure_returns,expectRemaining_eq_ok,failIf_eq_ok,bne_eq_false_iff_eq,Prod.exists]
  constructor
  · rintro ⟨_,_,⟨_,_,hversion,_,_,⟨rfl,rfl⟩,_,_,hflags,_,_,⟨rfl,rfl⟩,count,_,hcount,fields,last,
      hfields,_,_,⟨hremaining,-⟩,rfl,-⟩,rfl⟩
    have hfirst := readInteger_spelled hversion
    have hsecond := readInteger_spelled hflags
    have hthird := readInteger_spelled hcount
    obtain ⟨added,hadded,hlength,hall,hnodup,hfourth⟩ :=
      readFields_spelled hthird.inside (by simp) hfields
    rw [List.nil_append] at hadded
    subst hadded
    have hinside := hfourth.inside
    have hlast : last = bytes.length := by omega
    have hlt := count.toNat_lt
    have hall' := hfirst.append (hsecond.append (hthird.append hfourth))
    refine ⟨?_,hnodup,by omega,fun field hf => (hall field hf).length,
      fun field hf => (hall field hf).fits⟩
    rw [wireFrame,hlength,UInt32.ofNat_toNat]
    exact (hlast ▸ hall').whole
  · rintro ⟨rfl,h⟩
    have hfields := readFields_reads h
    rw [← ofNat_toNat_of_lt h.count] at hfields
    have hversion : failIf (kWireVersion != kWireVersion)
        (.invalidArgument "payload version is unsupported") = .ok () := by simp
    have hflags : failIf ((0 : UInt16) != 0)
        (.invalidArgument "payload flags are unsupported") = .ok () := rfl
    have hread := ((readInteger_reads kWireVersion).bind
      (f := fun version => ByteReader.lift (failIf (version != kWireVersion)
        (.invalidArgument "payload version is unsupported")) >>= fun _ =>
          readInteger UInt16 >>= fun flags => ByteReader.lift (failIf (flags != 0)
            (.invalidArgument "payload flags are unsupported")) >>= fun _ =>
              readInteger UInt32 >>= fun count => iterate count.toNat readField [])
      ((Reads.lift hversion).bind ((readInteger_reads (0 : UInt16)).bind ((Reads.lift hflags).bind
        ((readInteger_reads (UInt32.ofNat payload.length)).bind hfields))))).whole
    simp only [bind_returns,lift_returns,failIf_eq_ok,bne_eq_false_iff_eq,List.nil_append] at hread
    obtain ⟨version,_,hversion,_,_,hchecked,flags,_,hflags,_,_,hchecked',count,_,hcount,hfields⟩ :=
      hread
    exact ⟨payload,_,⟨version,_,hversion,(),_,hchecked,flags,_,hflags,(),_,hchecked',count,_,hcount,
      payload,_,hfields,(),_,⟨Nat.sub_self _,rfl⟩,rfl,rfl⟩,rfl⟩

/-- The decoder accepts exactly the encodings of encodable payloads. -/
theorem decodePayload_eq_ok {bytes : Bytes} {payload : DecodedPayload} :
    decodePayload bytes = .ok payload ↔ bytes = wirePayload payload ∧ Encodable payload := by
  simp only [decodePayload,bind_eq_ok,failIf_eq_ok,exists_const,readFrame_eq_ok,
    Bool.or_eq_false_iff,decide_eq_false_iff_not,bne_eq_false_iff_eq]
  constructor
  · rintro ⟨⟨-,hmagic⟩,hframe,h⟩
    refine ⟨?_,h⟩
    rw [← List.take_append_drop 4 bytes,hmagic,hframe]
    rfl
  · rintro ⟨rfl,h⟩
    have hlength : kMagic.length = 4 := rfl
    have hdrop : (wirePayload payload).drop 4 = wireFrame payload := List.drop_left' hlength
    have htake : (wirePayload payload).take 4 = kMagic := List.take_left' hlength
    refine ⟨⟨?_,htake⟩,hdrop,h⟩
    have h2 : size UInt16 = 2 := rfl
    have h4 : size UInt32 = 4 := rfl
    simp only [wirePayload,List.length_append,hlength,toBytes_length,h2,h4]
    omega

end Ingest
end KvIndex
