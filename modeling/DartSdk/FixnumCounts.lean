import DartSdk.FixnumArithmetic

/-! The zero counts of a limb reduce to a count of ones, after the highest one has been copied to
all lower positions or the lowest one has been isolated. -/
namespace DartSdk.Fixnum
open TruncatedArithmetic Bool

section Smear

/-- Every bit of `y` collects the `d` bits of `x` from its position on. -/
def Smeared (x d y : ℕ) : Prop := ∀ j, y.testBit j = true ↔ ∃ e < d, x.testBit (j+e) = true

lemma Smeared.refl (x : ℕ) : Smeared x 1 x := fun j =>
  ⟨fun h => ⟨0,by norm_num,h⟩,fun ⟨e,he,h⟩ => by rwa [Nat.lt_one_iff.1 he] at h⟩

lemma Smeared.double {x d y : ℕ} (h : Smeared x d y) : Smeared x (d+d) (y ||| y >>> d) := by
  intro j
  rw [Nat.testBit_or,or_eq_true,Nat.testBit_shiftRight,h j,h (d+j)]
  constructor
  · rintro (⟨e,he,hx⟩ | ⟨e,he,hx⟩)
    · exact ⟨e,by omega,hx⟩
    · exact ⟨d+e,by omega,by rwa [show j+(d+e) = d+j+e by omega]⟩
  · rintro ⟨e,he,hx⟩
    rcases lt_or_ge e d with hd | hd
    · exact Or.inl ⟨e,hd,hx⟩
    · exact Or.inr ⟨e-d,by omega,by rwa [show d+j+(e-d) = j+e by omega]⟩

/-- When all bits have been collected, the ones are those below the bit length. -/
lemma Smeared.eq_of_lt {x d y : ℕ} (h : Smeared x d y) (hx : x < 2^d) : y = 2^x.size-1 := by
  refine Nat.eq_of_testBit_eq fun j => ?_
  rw [Nat.testBit_two_pow_sub_one,Bool.eq_iff_iff,h j,decide_eq_true_iff,Nat.lt_size]
  constructor
  · rintro ⟨e, -,he⟩
    exact (Nat.pow_le_pow_right (by norm_num) (by omega)).trans (Nat.ge_two_pow_of_testBit he)
  · intro hj
    obtain ⟨i,hi,hbit⟩ := Nat.exists_ge_and_testBit_of_ge_two_pow hj
    have hid : i < d := by
      by_contra hge
      rw [Nat.testBit_lt_two_pow (hx.trans_le (Nat.pow_le_pow_right (by norm_num) (not_lt.1 hge)))] at hbit
      exact absurd hbit (by norm_num)
    exact ⟨i-j,by omega,by rwa [Nat.add_sub_cancel' hi]⟩

end Smear

section Int32
variable (t : Host)

lemma or_shr_cast {y : ℕ} (hy : y < 2^32) (d : ℕ) :
    t.or y (t.shr y d) = ((y ||| y >>> d : ℕ) : ℤ) ∧ y ||| y >>> d < 2^32 := by
  have hle : y >>> d ≤ y := Nat.shiftRight_le y d
  have hor : y ||| y >>> d < 2^32 := Nat.or_lt_two_pow hy (by omega)
  have hshr : t.shr y d = ((y >>> d : ℕ) : ℤ) :=
    t.wrap_eq (x := ((y >>> d : ℕ) : ℤ)) (by positivity) (by exact_mod_cast hle.trans_lt hy)
  refine ⟨?_,hor⟩
  rw [hshr]
  exact t.wrap_eq (x := ((y ||| y >>> d : ℕ) : ℤ)) (by positivity) (by exact_mod_cast hor)

lemma bitCount_not : ∀ s : ℕ, s < 23 → bitCount t (t.not (2^s-1)) = 32-s := by
  cases t <;> decide +kernel

lemma numberOfLeadingZeros32_nat {x : ℕ} (hx : x < 2^22) :
    numberOfLeadingZeros32 t x = 32-x.size := by
  obtain ⟨h1,hb1⟩ := or_shr_cast t (show x < 2^32 by omega) 1
  obtain ⟨h2,hb2⟩ := or_shr_cast t hb1 2
  obtain ⟨h3,hb3⟩ := or_shr_cast t hb2 4
  obtain ⟨h4,hb4⟩ := or_shr_cast t hb3 8
  obtain ⟨h5,hb5⟩ := or_shr_cast t hb4 16
  have hsmear := (Smeared.refl x).double.double.double.double.double.eq_of_lt (by omega)
  have hsize : x.size ≤ 22 := Nat.size_le.2 hx
  dsimp only [numberOfLeadingZeros32]
  rw [h1,h2,h3,h4,h5,hsmear,Nat.cast_sub Nat.one_le_two_pow]
  exact_mod_cast bitCount_not t x.size (by omega)

lemma numberOfLeadingZeros32_eq {x : ℤ} (h0 : 0 ≤ x) (hx : x < 2^22) :
    numberOfLeadingZeros32 t x = 32-x.toNat.size := by
  obtain ⟨n,rfl⟩ := Int.eq_ofNat_of_zero_le h0
  exact numberOfLeadingZeros32_nat t (by exact_mod_cast hx)

lemma bitCount_mask : ∀ s : ℕ, s < 23 → bitCount t (2^s-1) = s := by
  cases t <;> decide +kernel

lemma land_neg (q k : ℕ) : Int.land ((2^k*(2*q+1) : ℕ) : ℤ) (-((2^k*(2*q+1) : ℕ) : ℤ)) = 2^k := by
  have hpos := Nat.two_pow_pos k
  have hx : 2^k*(2*q+1) = 2^(k+1)*q+2^k := by ring
  have hneg : -((2^(k+1)*q+2^k : ℕ) : ℤ) = Int.negSucc (2^(k+1)*q+(2^k-1)) := by
    rw [Int.negSucc_eq]
    omega
  have hdiff : (2^(k+1)*q+2^k).ldiff (2^(k+1)*q+(2^k-1)) = 2^k := by
    refine Nat.eq_of_testBit_eq fun i => ?_
    rw [Nat.testBit_ldiff,Nat.testBit_two_pow_mul_add _ (by rw [pow_succ]; omega),
      Nat.testBit_two_pow_mul_add _ (by rw [pow_succ]; omega),Nat.testBit_two_pow,
      Nat.testBit_two_pow_sub_one]
    split_ifs with hi
    · by_cases hk : k = i
      · simp [hk]
      · simp [hk]
    · have hk : k ≠ i := by omega
      simp [hk]
  rw [hx,hneg]
  calc Int.land ((2^(k+1)*q+2^k : ℕ) : ℤ) (Int.negSucc (2^(k+1)*q+(2^k-1)))
      = (((2^(k+1)*q+2^k).ldiff (2^(k+1)*q+(2^k-1)) : ℕ) : ℤ) := rfl
    _ = 2^k := by rw [hdiff]; norm_num

lemma numberOfTrailingZeros32_zero : numberOfTrailingZeros32 t 0 = 32 := by
  cases t <;> decide +kernel

lemma numberOfTrailingZeros32_nat {q k : ℕ} (hlt : 2^k*(2*q+1) < 2^22) :
    numberOfTrailingZeros32 t ((2^k*(2*q+1) : ℕ) : ℤ) = k := by
  have hk : k < 22 := by
    refine (Nat.pow_lt_pow_iff_right (by norm_num)).1 (lt_of_le_of_lt ?_ hlt)
    exact Nat.le_mul_of_pos_right _ (by omega)
  have hpow : (2 : ℤ)^k < 2^32 := pow_lt_pow_right₀ (by norm_num) (by omega)
  rw [numberOfTrailingZeros32,Host.and,land_neg,t.wrap_eq (by positivity) hpow]
  exact bitCount_mask t k (by omega)

lemma numberOfTrailingZeros32_eq {x : ℤ} (h0 : 0 ≤ x) (hx : x < 2^22) (hne : x ≠ 0) :
    ∃ k < 22, numberOfTrailingZeros32 t x = (k : ℕ) ∧ x.testBit k = true ∧
      ∀ j < k, x.testBit j = false := by
  obtain ⟨n,rfl⟩ := Int.eq_ofNat_of_zero_le h0
  obtain ⟨k,m,⟨q,rfl⟩,rfl⟩ := Nat.exists_eq_two_pow_mul_odd (show n ≠ 0 by omega)
  have hlt : 2^k*(2*q+1) < 2^22 := by exact_mod_cast hx
  have hbit : ∀ j, (2^k*(2*q+1)).testBit j = (decide (k ≤ j) && (2*q+1).testBit (j-k)) :=
    fun j => Nat.testBit_two_pow_mul ..
  have hone : (2^k*(2*q+1)).testBit k = true := by
    rw [hbit,Nat.sub_self,Nat.testBit_zero]
    simp
  refine ⟨k,?_,numberOfTrailingZeros32_nat t hlt,hone,fun j hj => ?_⟩
  · by_contra hge
    rw [Nat.testBit_lt_two_pow (hlt.trans_le (Nat.pow_le_pow_right (by norm_num) (not_lt.1 hge)))] at hone
    exact absurd hone (by norm_num)
  · exact (hbit j).trans (by rw [decide_eq_false (not_le.2 hj),Bool.false_and])

end Int32

namespace Int64
variable (t : Host) {a : Int64}

lemma size_add_mul {x y k : ℕ} (hx : x < 2^k) (hy : y ≠ 0) : (x+y*2^k).size = k+y.size := by
  have hpos : 0 < y.size := Nat.size_pos.2 (Nat.pos_of_ne_zero hy)
  refine le_antisymm (Nat.size_le.2 ?_) ?_
  · have hlt := Nat.lt_size_self y
    calc x+y*2^k < (y+1)*2^k := by rw [add_mul]; omega
      _ ≤ 2^y.size*2^k := Nat.mul_le_mul_right _ hlt
      _ = 2^(k+y.size) := by rw [← pow_add,Nat.add_comm]
  · have hle : 2^(y.size-1) ≤ y := Nat.lt_size.1 (by omega)
    have hlt : k+(y.size-1) < (x+y*2^k).size := by
      refine Nat.lt_size.2 ?_
      calc 2^(k+(y.size-1)) = 2^(y.size-1)*2^k := by rw [pow_add,Nat.mul_comm]
        _ ≤ y*2^k := Nat.mul_le_mul_right _ hle
        _ ≤ x+y*2^k := Nat.le_add_left ..
    omega

lemma size_value (ha : a.Canonical) : a.value.toNat.size =
    if a.h ≠ 0 then 44+a.h.toNat.size else if a.m ≠ 0 then 22+a.m.toNat.size else a.l.toNat.size := by
  obtain ⟨ha1,ha2,ha3,ha4,ha5,ha6⟩ := ha
  have hvalue : a.value.toNat = (a.l.toNat+a.m.toNat*2^22)+a.h.toNat*2^44 := by
    unfold value
    omega
  rw [hvalue]
  split_ifs with hh hm
  · exact size_add_mul (by omega) (by omega)
  · rw [not_not.1 hh,Int.toNat_zero,Nat.zero_mul,Nat.add_zero]
    exact size_add_mul (by omega) (by omega)
  · rw [not_not.1 hh,not_not.1 hm]
    rfl

lemma clz_toNat (v : BitVec 64) : v.clz.toNat = 64-v.toNat.size := by
  by_cases hv : v = 0#64
  · subst hv
    rfl
  · have hupper : v.toNat.size ≤ 64-v.clz.toNat := Nat.size_le.2 BitVec.toNat_lt_two_pow_sub_clz
    have hlower : 64-1-v.clz.toNat < v.toNat.size :=
      Nat.lt_size.2 (BitVec.two_pow_sub_clz_le_toNat_of_ne_zero (by norm_num) hv)
    omega

lemma bitLength_eq (ha : a.Canonical) : bitLength t a = Fixnum.bitLength a.bits.toInt := by
  obtain ⟨hl,hm,hh⟩ := flip_limbs t ha
  have hc := (magnitude_canonical ha).1
  have hsize := size_value hc
  have hlimb : ∀ x : ℤ, 0 ≤ x → Fixnum.bitLength x = x.toNat.size := fun x hx => if_neg hx.not_gt
  have hspec : Fixnum.bitLength a.bits.toInt = a.magnitude.value.toNat.size := by
    have h0 := hc.value_nonneg
    rw [magnitude_value ha]
    split_ifs with h
    · exact hlimb _ h0
    · rw [Fixnum.bitLength,if_pos (by omega)]
      congr 2
      ring
  rw [hspec,hsize,bitLength]
  cases hzero : a.isZero with
  | true =>
    have hlimbs : (a.h = 0 ∧ a.m = 0) ∧ a.l = 0 := by simpa [isZero] using hzero
    have hmag : a.magnitude = a := if_pos (by rw [hlimbs.1.1]; norm_num)
    rw [hmag,hlimbs.1.1,hlimbs.1.2,hlimbs.2]
    rfl
  | false =>
    rw [if_neg Bool.false_ne_true]
    simp only [isNegative,and_kSignBitMask]
    rw [hl,hm,hh,hlimb _ hc.l_nonneg,hlimb _ hc.m_nonneg,hlimb _ hc.h_nonneg]
    rfl

lemma numberOfLeadingZeros_eq (ha : a.Canonical) : numberOfLeadingZeros t a = a.bits.clz.toNat := by
  have hsize := size_value ha
  have hnat : a.bits.toNat = a.value.toNat := by
    have := ha.toNat_bits
    omega
  obtain ⟨ha1,ha2,ha3,ha4,ha5,ha6⟩ := ha
  have hzero : ∀ x : ℤ, 0 ≤ x → (x.toNat.size = 0 ↔ x = 0) := fun x hx => by
    rw [Nat.size_eq_zero]
    omega
  have hl : a.l.toNat.size ≤ 22 := Nat.size_le.2 (by omega)
  have hm : a.m.toNat.size ≤ 22 := Nat.size_le.2 (by omega)
  have hh : a.h.toNat.size ≤ 20 := Nat.size_le.2 (by omega)
  have hm0 := hzero a.m ha3
  have hh0 := hzero a.h ha5
  have hk : kBits = 22 := rfl
  have hk2 : kBits2 = 20 := rfl
  rw [clz_toNat,hnat,hsize,numberOfLeadingZeros,numberOfLeadingZeros32_eq t ha1 ha2,
    numberOfLeadingZeros32_eq t ha3 ha4,numberOfLeadingZeros32_eq t ha5 (by omega)]
  dsimp only
  split_ifs <;> omega

lemma ctz_eq {v : BitVec 64} {k : ℕ} (hk : v.getLsbD k = true) (hlow : ∀ j < k, v.getLsbD j = false) :
    v.ctz.toNat = k := by
  have hne : v ≠ 0#64 := by
    rintro rfl
    rw [BitVec.getLsbD_zero] at hk
    exact false_ne_true hk
  have hctz := BitVec.getLsbD_true_ctz_of_ne_zero hne
  rcases lt_trichotomy v.ctz.toNat k with hlt | heq | hgt
  · rw [hlow _ hlt] at hctz
    exact absurd hctz false_ne_true
  · exact heq
  · rw [BitVec.getLsbD_false_of_lt_ctz hgt] at hk
    exact absurd hk false_ne_true

lemma ctz_zero : (0#64).ctz.toNat = 64 := by decide +kernel

lemma numberOfTrailingZeros_eq (ha : a.Canonical) : numberOfTrailingZeros t a = a.bits.ctz.toNat := by
  have hbits := fun i => @getLsbD_bits a ha i
  dsimp only [numberOfTrailingZeros]
  by_cases hl : a.l = 0
  · rw [hl] at hbits
    rw [hl,numberOfTrailingZeros32_zero,if_neg (lt_irrefl _)]
    by_cases hm : a.m = 0
    · rw [hm] at hbits
      rw [hm,numberOfTrailingZeros32_zero,if_neg (lt_irrefl _)]
      by_cases hh : a.h = 0
      · have hzero : a.bits = 0#64 := by
          rw [bits,value,hl,hm,hh]
          rfl
        rw [hh,numberOfTrailingZeros32_zero,if_neg (lt_irrefl _),hzero,ctz_zero]
        rfl
      · obtain ⟨k,hk22,hcount,hone,hlow⟩ :=
          numberOfTrailingZeros32_eq t ha.h_nonneg (ha.h_lt.trans (by norm_num)) hh
        have hk20 : k < 20 := by
          by_contra hge
          rw [ha.testBit_h (not_lt.1 hge)] at hone
          exact false_ne_true hone
        have hctz : a.bits.ctz.toNat = 44+k := by
          refine ctz_eq ((getLsbD_h ha hk20).trans hone) fun j hj => ?_
          rw [hbits j (by omega),testBit_zero,testBit_zero]
          grind
        rw [hcount,if_pos (by omega),hctz]
        rfl
    · obtain ⟨k,hk22,hcount,hone,hlow⟩ := numberOfTrailingZeros32_eq t ha.m_nonneg ha.m_lt hm
      have hctz : a.bits.ctz.toNat = 22+k := by
        refine ctz_eq ((getLsbD_m ha hk22).trans hone) fun j hj => ?_
        rw [hbits j (by omega),testBit_zero]
        grind
      rw [hcount,if_pos (by omega),hctz]
      rfl
  · obtain ⟨k,hk22,hcount,hone,hlow⟩ := numberOfTrailingZeros32_eq t ha.l_nonneg ha.l_lt hl
    have hctz : a.bits.ctz.toNat = k := by
      refine ctz_eq ((getLsbD_l ha hk22).trans hone) fun j hj => ?_
      rw [getLsbD_l ha (by omega),hlow j hj]
    rw [hcount,if_pos (by omega),hctz]

end Int64

end DartSdk.Fixnum
