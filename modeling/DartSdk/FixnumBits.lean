import DartSdk.Fixnum
import DartSdk.TruncatedArithmetic

/-! The low 32 bits of the result of a host operator do not depend on the host, and the bits of an
`Int64` are those of its limbs. -/
namespace DartSdk.Fixnum
open TruncatedArithmetic Int

variable {x y : ℤ}

namespace Host
variable (t : Host) {i : ℕ}

lemma testBit_wrap (x : ℤ) (hi : i < 32) : (t.wrap x).testBit i = x.testBit i := by
  cases t with
  | exact => rfl
  | js => exact testBit_emod x hi

lemma testBit_and (x y : ℤ) (hi : i < 32) :
    (t.and x y).testBit i = (x.testBit i && y.testBit i) := by
  rw [and,testBit_wrap t _ hi,testBit_land]

lemma testBit_or (x y : ℤ) (hi : i < 32) : (t.or x y).testBit i = (x.testBit i || y.testBit i) := by
  rw [or,testBit_wrap t _ hi,testBit_lor]

lemma testBit_xor (x y : ℤ) (hi : i < 32) :
    (t.xor x y).testBit i = (x.testBit i ^^ y.testBit i) := by
  rw [xor,testBit_wrap t _ hi,testBit_lxor]

lemma testBit_not (x : ℤ) (hi : i < 32) : (t.not x).testBit i = !x.testBit i := by
  rw [not,testBit_wrap t _ hi,testBit_lnot]

lemma testBit_shl (x : ℤ) (n : ℕ) (hi : i < 32) :
    (t.shl x n).testBit i = (decide (n ≤ i) && x.testBit (i-n)) := by
  rw [shl,testBit_wrap t _ hi,testBit_shiftLeft]

lemma testBit_shr (x : ℤ) (n : ℕ) (hi : i < 32) : (t.shr x n).testBit i = x.testBit (n+i) := by
  rw [shr,testBit_wrap t _ hi,testBit_shiftRight]

lemma wrap_eq (h0 : 0 ≤ x) (hx : x < 2^32) : t.wrap x = x := by
  cases t with
  | exact => rfl
  | js => exact emod_eq_of_lt h0 hx

lemma and_mask (x : ℤ) {k : ℕ} (hk : k ≤ 32) : t.and x (2^k-1) = x%2^k := by
  have hpos : (0 : ℤ) < 2^k := by positivity
  have hle : (2 : ℤ)^k ≤ 2^32 := pow_le_pow_right₀ (by norm_num) hk
  rw [and,land_two_pow_sub_one]
  exact wrap_eq t (emod_nonneg x hpos.ne') ((emod_lt_of_pos x hpos).trans_le hle)

lemma mask_and (x : ℤ) {k : ℕ} (hk : k ≤ 32) : t.and (2^k-1) x = x%2^k := by
  rw [← and_mask t x hk,and,and,land_comm]

lemma shr_eq (h0 : 0 ≤ x) (n : ℕ) (hx : x/2^n < 2^32) : t.shr x n = x/2^n := by
  have hpos : (0 : ℤ) < 2^n := by positivity
  rw [shr,shiftRight_eq_div_pow,Nat.cast_pow,Nat.cast_ofNat]
  exact wrap_eq t (ediv_nonneg h0 hpos.le) hx

lemma shl_eq (h0 : 0 ≤ x) (n : ℕ) (hx : x*2^n < 2^32) : t.shl x n = x*2^n := by
  rw [shl,shiftLeft_eq]
  exact wrap_eq t (by positivity) hx

lemma and_bounds (hx : 0 ≤ x) {k : ℕ} (hlt : x < 2^k) (hk : k ≤ 32) :
    0 ≤ t.and x y ∧ t.and x y < 2^k := by
  have hle : (2 : ℤ)^k ≤ 2^32 := pow_le_pow_right₀ (by norm_num) hk
  obtain ⟨m,rfl⟩ := eq_ofNat_of_zero_le hx
  obtain ⟨q,hq,hqm⟩ : ∃ q : ℕ, land m y = q ∧ q ≤ m := by
    cases y with
    | ofNat n => exact ⟨m &&& n,rfl,Nat.and_le_left⟩
    | negSucc n =>
      refine ⟨m.ldiff n,rfl,Nat.le_of_testBit fun i hi => ?_⟩
      rw [Nat.testBit_ldiff] at hi
      exact (Bool.and_eq_true_iff.1 hi).1
  have hqk : (q : ℤ) < 2^k := lt_of_le_of_lt (by exact_mod_cast hqm) hlt
  rw [and,hq,wrap_eq t (by positivity) (hqk.trans_le hle)]
  exact ⟨by positivity,hqk⟩

lemma or_bounds (hx0 : 0 ≤ x) (hy0 : 0 ≤ y) {k : ℕ} (hx : x < 2^k) (hy : y < 2^k)
    (hk : k ≤ 32) : 0 ≤ t.or x y ∧ t.or x y < 2^k := by
  have hle : (2 : ℤ)^k ≤ 2^32 := pow_le_pow_right₀ (by norm_num) hk
  obtain ⟨m,rfl⟩ := eq_ofNat_of_zero_le hx0
  obtain ⟨n,rfl⟩ := eq_ofNat_of_zero_le hy0
  have hor : m ||| n < 2^k := Nat.or_lt_two_pow (by exact_mod_cast hx) (by exact_mod_cast hy)
  have hcast : ((m ||| n : ℕ) : ℤ) < 2^k := by exact_mod_cast hor
  have heq : t.or m n = ((m ||| n : ℕ) : ℤ) :=
    wrap_eq t (x := ((m ||| n : ℕ) : ℤ)) (by positivity) (hcast.trans_le hle)
  rw [heq]
  exact ⟨by positivity,hcast⟩

lemma and_two_pow (x : ℤ) {k : ℕ} (hk : k < 32) :
    t.and x (2^k) = if x.testBit k then 2^k else 0 := by
  have hlt : (2 : ℤ)^k < 2^32 := pow_lt_pow_right₀ (by norm_num) hk
  rw [and,land_two_pow]
  split_ifs
  · exact wrap_eq t (by positivity) hlt
  · exact wrap_eq t le_rfl (by norm_num)

lemma not_emod (x : ℤ) {k : ℕ} (hk : k ≤ 32) : t.not x%2^k = (-x-1)%2^k := by
  have hnot : lnot x = -x-1 := by
    cases x with
    | ofNat m => exact (negSucc_eq m).trans (by rw [ofNat_eq_natCast]; ring)
    | negSucc m => exact (show (m : ℤ) = -negSucc m-1 by rw [negSucc_eq]; ring)
  rw [not,hnot]
  cases t with
  | exact => rfl
  | js => exact emod_emod_of_dvd _ (pow_dvd_pow 2 hk)

lemma and_shr_one (x : ℤ) (n : ℕ) : t.and (t.shr x n) 1 = x/2^n%2 := by
  have h := and_mask t (t.shr x n) (show 1 ≤ 32 by norm_num)
  rw [show (2^1-1 : ℤ) = 1 by norm_num,pow_one] at h
  rw [h,shr,shiftRight_eq_div_pow,Nat.cast_pow,Nat.cast_ofNat]
  cases t with
  | exact => rfl
  | js => exact emod_emod_of_dvd _ (by norm_num)

end Host

namespace Int64

/-- Limbs of 22, 22 and 20 bits. -/
structure Canonical (a : Int64) : Prop where
  l_nonneg : 0 ≤ a.l
  l_lt : a.l < 2^22
  m_nonneg : 0 ≤ a.m
  m_lt : a.m < 2^22
  h_nonneg : 0 ≤ a.h
  h_lt : a.h < 2^20

def value (a : Int64) : ℤ := a.l+a.m*2^22+a.h*2^44

/-- The 64-bit vector that the limbs stand for. -/
def bits (a : Int64) : BitVec 64 := BitVec.ofInt 64 a.value

lemma masked_eq (t : Host) (a0 a1 a2 : ℤ) : masked t a0 a1 a2 = ⟨a0%2^22,a1%2^22,a2%2^20⟩ := by
  rw [masked,show kMask = 2^22-1 by decide,show kMask2 = 2^20-1 by decide,
    t.mask_and a0 (by omega),t.mask_and a1 (by omega),t.mask_and a2 (by omega)]

lemma masked_canonical (t : Host) (a0 a1 a2 : ℤ) : (masked t a0 a1 a2).Canonical := by
  rw [masked_eq]
  constructor <;> dsimp only <;> omega

lemma Canonical.value_nonneg {a : Int64} (ha : a.Canonical) : 0 ≤ a.value := by
  obtain ⟨h1,h2,h3,h4,h5,h6⟩ := ha
  unfold value
  omega

lemma Canonical.value_lt {a : Int64} (ha : a.Canonical) : a.value < 2^64 := by
  obtain ⟨h1,h2,h3,h4,h5,h6⟩ := ha
  unfold value
  omega

lemma Canonical.toNat_bits {a : Int64} (ha : a.Canonical) : (a.bits.toNat : ℤ) = a.value := by
  have h0 := ha.value_nonneg
  have h1 := ha.value_lt
  rw [bits,BitVec.toNat_ofInt]
  omega

lemma ofInt_congr (h : x%2^64 = y%2^64) : BitVec.ofInt 64 x = BitVec.ofInt 64 y := by
  refine BitVec.eq_of_toNat_eq ?_
  rw [BitVec.toNat_ofInt,BitVec.toNat_ofInt]
  omega

/-- A canonical value that stands for `v`. -/
structure Denotes (a : Int64) (v : BitVec 64) : Prop where
  canonical : a.Canonical
  bits_eq : a.bits = v

@[grind =]
lemma getLsbD_bits {a : Int64} (ha : a.Canonical) {i : ℕ} (hi : i < 64) : a.bits.getLsbD i =
    if i < 22 then a.l.testBit i else if i < 44 then a.m.testBit (i-22) else a.h.testBit (i-44) := by
  obtain ⟨hl0,hl,hm0,hm,hh0,hh⟩ := ha
  obtain ⟨l,hl'⟩ := eq_ofNat_of_zero_le hl0
  obtain ⟨m,hm'⟩ := eq_ofNat_of_zero_le hm0
  obtain ⟨h,hh'⟩ := eq_ofNat_of_zero_le hh0
  have hll : l < 2^22 := by omega
  have hml : m < 2^22 := by omega
  have hval : a.bits.toNat = 2^22*(2^22*h+m)+l := by
    have := Canonical.toNat_bits ⟨hl0,hl,hm0,hm,hh0,hh⟩
    unfold value at this
    omega
  rw [BitVec.getLsbD,hval,Nat.testBit_two_pow_mul_add _ hll,hl',hm',hh']
  split_ifs with h1 h2
  · rfl
  · rw [Nat.testBit_two_pow_mul_add _ hml,if_pos (by omega)]
    rfl
  · rw [Nat.testBit_two_pow_mul_add _ hml,if_neg (by omega),Nat.sub_sub]
    rfl

lemma Canonical.denotes {a : Int64} (ha : a.Canonical) {v : BitVec 64}
    (hl : ∀ i < 22, a.l.testBit i = v.getLsbD i) (hm : ∀ i < 22, a.m.testBit i = v.getLsbD (22+i))
    (hh : ∀ i < 20, a.h.testBit i = v.getLsbD (44+i)) : a.Denotes v := by
  refine ⟨ha,BitVec.eq_of_getLsbD_eq fun i hi => ?_⟩
  rw [getLsbD_bits ha hi]
  split_ifs with h1 h2
  · exact hl i h1
  · rw [hm (i-22) (by omega),Nat.add_sub_cancel' (by omega)]
  · rw [hh (i-44) (by omega),Nat.add_sub_cancel' (by omega)]

/-- Masked limbs are compared on the bits that the masks keep. -/
lemma masked_denotes (t : Host) {a0 a1 a2 : ℤ} {v : BitVec 64}
    (h0 : ∀ i < 22, a0.testBit i = v.getLsbD i) (h1 : ∀ i < 22, a1.testBit i = v.getLsbD (22+i))
    (h2 : ∀ i < 20, a2.testBit i = v.getLsbD (44+i)) : (masked t a0 a1 a2).Denotes v := by
  apply (masked_canonical t a0 a1 a2).denotes <;> intro i hi
  · rw [masked_eq,testBit_emod a0 hi,h0 i hi]
  · rw [masked_eq,testBit_emod a1 hi,h1 i hi]
  · rw [masked_eq,testBit_emod a2 hi,h2 i hi]

section Limbs
variable {a : Int64} (ha : a.Canonical) {i : ℕ}
include ha

@[grind =]
lemma Canonical.testBit_l (hi : 22 ≤ i) : a.l.testBit i = false := testBit_eq_false ha.l_nonneg ha.l_lt hi

@[grind =]
lemma Canonical.testBit_m (hi : 22 ≤ i) : a.m.testBit i = false := testBit_eq_false ha.m_nonneg ha.m_lt hi

@[grind =]
lemma Canonical.testBit_h (hi : 20 ≤ i) : a.h.testBit i = false := testBit_eq_false ha.h_nonneg ha.h_lt hi

lemma Canonical.msb_bits : a.bits.msb = a.h.testBit 19 := by
  rw [BitVec.msb_eq_getLsbD_last,getLsbD_bits ha (by norm_num)]
  rfl

end Limbs

end Int64

end DartSdk.Fixnum
