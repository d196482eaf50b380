import KvIndex.Base

/-! `StableHash64` permutes the 64-bit keys: every step of the mixer can be undone, so every
hash value is the hash of one key, and remainders of hashes are hit equally often. -/
namespace KvIndex
namespace Base

theorem eq_zero_of_shift_eq {x : UInt64} {s : ℕ} (hs : 0 < s) (hs64 : s < 64)
    (h : x = x >>> UInt64.ofNat s) : x = 0 := by
  have hnat : x.toNat = x.toNat/2^s := by
    have hshift := congrArg UInt64.toNat h
    rw [UInt64.toNat_shiftRight,UInt64.toNat_ofNat',Nat.shiftRight_eq_div_pow,
      Nat.mod_eq_of_lt (a := s) (b := 2^64) (by omega),Nat.mod_eq_of_lt hs64] at hshift
    exact hshift
  by_contra hne
  have hpos : 0 < x.toNat := by
    rw [Nat.pos_iff_ne_zero]
    exact fun hzero => hne (UInt64.toNat_inj.mp hzero)
  have hlt := Nat.div_lt_self hpos (Nat.one_lt_two_pow (Nat.ne_of_gt hs))
  omega

theorem xorShift_injective {s : ℕ} (hs : 0 < s) (hs64 : s < 64) :
    Function.Injective fun x : UInt64 => x ^^^ (x >>> UInt64.ofNat s) := by
  intro x y h
  have hdiff : x ^^^ y = (x ^^^ y) >>> UInt64.ofNat s := by
    rw [UInt64.shiftRight_xor]
    have hxor := congrArg (fun w => w ^^^ (y ^^^ (x >>> UInt64.ofNat s))) h
    simp only at hxor
    calc x ^^^ y = (x ^^^ (x >>> UInt64.ofNat s)) ^^^ (y ^^^ (x >>> UInt64.ofNat s)) := by
          rw [UInt64.xor_assoc,UInt64.xor_comm y,← UInt64.xor_assoc (x >>> _),UInt64.xor_self,
            UInt64.zero_xor]
      _ = (y ^^^ (y >>> UInt64.ofNat s)) ^^^ (y ^^^ (x >>> UInt64.ofNat s)) := hxor
      _ = (x >>> UInt64.ofNat s) ^^^ (y >>> UInt64.ofNat s) := by
          rw [UInt64.xor_comm y (y >>> _),UInt64.xor_assoc,← UInt64.xor_assoc y,UInt64.xor_self,
            UInt64.zero_xor,UInt64.xor_comm]
  exact UInt64.xor_eq_zero_iff.mp (eq_zero_of_shift_eq hs hs64 hdiff)

theorem mul_injective (multiplier inverse : UInt64) (h : multiplier*inverse = 1) :
    Function.Injective fun x : UInt64 => x*multiplier := by
  intro x y hxy
  have hmul := congrArg (fun w => w*inverse) hxy
  simpa only [UInt64.mul_assoc,h,UInt64.mul_one] using hmul

theorem splitMix64_injective : Function.Injective splitMix64 := by
  have hfirst := mul_injective 0xbf58476d1ce4e5b9 0x96de1b173f119089 (by decide)
  have hsecond := mul_injective 0x94d049bb133111eb 0x319642b2d24d8ec3 (by decide)
  intro x y h
  have hthird := xorShift_injective (s := 31) (by decide) (by decide) h
  have hsum := xorShift_injective (s := 30) (by decide) (by decide)
    (hfirst (xorShift_injective (s := 27) (by decide) (by decide) (hsecond hthird)))
  exact (UInt64.add_left_inj _).mp hsum

theorem stableHash64_injective (seed : UInt64) (version : UInt32) :
    Function.Injective fun primaryKey => stableHash64 primaryKey seed version := by
  intro x y h
  have hmixed := splitMix64_injective h
  rw [UInt64.xor_left_inj,UInt64.xor_left_inj] at hmixed
  exact hmixed

theorem stableHash64_surjective (seed : UInt64) (version : UInt32) :
    Function.Surjective fun primaryKey => stableHash64 primaryKey seed version := by
  have hfinite : Finite UInt64 := Finite.of_injective UInt64.toFin fun _ _ h => UInt64.toFin_inj.mp h
  exact Finite.injective_iff_surjective.mp (stableHash64_injective seed version)

theorem stableHash64_bijective (seed : UInt64) (version : UInt32) :
    Function.Bijective fun primaryKey => stableHash64 primaryKey seed version :=
  ⟨stableHash64_injective seed version,stableHash64_surjective seed version⟩

/-- The words with a given remainder differ in their high bits, which are free. -/
def highBits {k r : ℕ} (hk : k ≤ 64) (hr : r < 2^k) :
    {word : UInt64 // word.toNat%2^k = r} ≃ Fin (2^(64-k)) where
  toFun word := ⟨word.1.toNat/2^k,by
    rw [Nat.div_lt_iff_lt_mul (Nat.two_pow_pos k),← pow_add,Nat.sub_add_cancel hk]
    exact word.1.toNat_lt⟩
  invFun high := ⟨UInt64.ofNat (2^k*high.1+r),by
    rw [UInt64.toNat_ofNat',Nat.mod_mod_of_dvd _ (Nat.pow_dvd_pow 2 hk),Nat.mul_add_mod,
      Nat.mod_eq_of_lt hr]⟩
  left_inv word := by
    obtain ⟨word,rfl⟩ := word
    simp only [Nat.div_add_mod,UInt64.ofNat_toNat]
  right_inv high := by
    have hword : 2^k*high.1+r < 2^64 := by
      have hpow : 2^k*2^(64-k) = 2^64 := by rw [← pow_add,Nat.add_sub_cancel' hk]
      have hle : 2^k*(high.1+1) ≤ 2^k*2^(64-k) := Nat.mul_le_mul_left _ high.2
      rw [Nat.mul_add,Nat.mul_one,hpow] at hle
      omega
    ext
    simp only [UInt64.toNat_ofNat',Nat.mod_eq_of_lt hword]
    rw [Nat.mul_add_div (Nat.two_pow_pos k),Nat.div_eq_of_lt hr,Nat.add_zero]

theorem card_hash_remainder (seed : UInt64) (version : UInt32) {k r : ℕ} (hk : k ≤ 64)
    (hr : r < 2^k) :
    Nat.card {primaryKey // (stableHash64 primaryKey seed version).toNat%2^k = r} = 2^(64-k) := by
  have hkeys := (Equiv.ofBijective _ (stableHash64_bijective seed version)).subtypeEquiv
    (p := fun primaryKey => (stableHash64 primaryKey seed version).toNat%2^k = r)
    (q := fun word => word.toNat%2^k = r) fun _ => Iff.rfl
  rw [Nat.card_congr (hkeys.trans (highBits hk hr)),Nat.card_fin]

end Base
end KvIndex
