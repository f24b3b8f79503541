import DartSdk.FixnumBits

/-! Each bit of the result of a bitwise operator, a shift or a truncation is a bit of an operand,
the sign bit or zero. -/
namespace DartSdk.Fixnum
open TruncatedArithmetic BitVec Host

namespace Int64
variable (t : Host) {a b : Int64} {i : ℕ}

section Limbs
variable (ha : a.Canonical)
include ha

lemma getLsbD_l (hi : i < 22) : a.bits.getLsbD i = a.l.testBit i := by
  rw [getLsbD_bits ha (by omega),if_pos hi]

lemma getLsbD_m (hi : i < 22) : a.bits.getLsbD (22+i) = a.m.testBit i := by
  rw [getLsbD_bits ha (by omega),if_neg (by omega),if_pos (by omega),Nat.add_sub_cancel_left]

lemma getLsbD_h (hi : i < 20) : a.bits.getLsbD (44+i) = a.h.testBit i := by
  rw [getLsbD_bits ha (by omega),if_neg (by omega),if_neg (by omega),Nat.add_sub_cancel_left]

end Limbs

variable (ha : a.Canonical)
include ha

lemma and_denotes (hb : b.Canonical) : (and t a b).Denotes (a.bits &&& b.bits) := by
  have hl := t.and_bounds (y := b.l) ha.l_nonneg ha.l_lt (by omega)
  have hm := t.and_bounds (y := b.m) ha.m_nonneg ha.m_lt (by omega)
  have hh := t.and_bounds (y := b.h) ha.h_nonneg ha.h_lt (by omega)
  have hc : (and t a b).Canonical := ⟨hl.1,hl.2,hm.1,hm.2,hh.1,hh.2⟩
  apply hc.denotes <;> intro i hi
  · rw [getLsbD_and,getLsbD_l ha hi,getLsbD_l hb hi]
    exact t.testBit_and _ _ (by omega)
  · rw [getLsbD_and,getLsbD_m ha hi,getLsbD_m hb hi]
    exact t.testBit_and _ _ (by omega)
  · rw [getLsbD_and,getLsbD_h ha hi,getLsbD_h hb hi]
    exact t.testBit_and _ _ (by omega)

lemma or_denotes (hb : b.Canonical) : (or t a b).Denotes (a.bits ||| b.bits) := by
  have hl := t.or_bounds ha.l_nonneg hb.l_nonneg ha.l_lt hb.l_lt (by omega)
  have hm := t.or_bounds ha.m_nonneg hb.m_nonneg ha.m_lt hb.m_lt (by omega)
  have hh := t.or_bounds ha.h_nonneg hb.h_nonneg ha.h_lt hb.h_lt (by omega)
  have hc : (or t a b).Canonical := ⟨hl.1,hl.2,hm.1,hm.2,hh.1,hh.2⟩
  apply hc.denotes <;> intro i hi
  · rw [getLsbD_or,getLsbD_l ha hi,getLsbD_l hb hi]
    exact t.testBit_or _ _ (by omega)
  · rw [getLsbD_or,getLsbD_m ha hi,getLsbD_m hb hi]
    exact t.testBit_or _ _ (by omega)
  · rw [getLsbD_or,getLsbD_h ha hi,getLsbD_h hb hi]
    exact t.testBit_or _ _ (by omega)

lemma xor_denotes (hb : b.Canonical) : (xor t a b).Denotes (a.bits ^^^ b.bits) := by
  apply masked_denotes <;> intro i hi
  · rw [getLsbD_xor,getLsbD_l ha hi,getLsbD_l hb hi,t.testBit_xor _ _ (by omega)]
  · rw [getLsbD_xor,getLsbD_m ha hi,getLsbD_m hb hi,t.testBit_xor _ _ (by omega)]
  · rw [getLsbD_xor,getLsbD_h ha hi,getLsbD_h hb hi,t.testBit_xor _ _ (by omega)]

lemma not_denotes : (not t a).Denotes (~~~a.bits) := by
  apply masked_denotes <;> intro i hi
  · rw [getLsbD_not,getLsbD_l ha hi,t.testBit_not _ (by omega),decide_eq_true (by omega),
      Bool.true_and]
  · rw [getLsbD_not,getLsbD_m ha hi,t.testBit_not _ (by omega),decide_eq_true (by omega),
      Bool.true_and]
  · rw [getLsbD_not,getLsbD_h ha hi,t.testBit_not _ (by omega),decide_eq_true (by omega),
      Bool.true_and]

omit ha

lemma testBit_kMask (i : ℕ) : kMask.testBit i = decide (i < 22) := testBit_two_pow_sub_one 22 i

lemma testBit_kMask2 (i : ℕ) : kMask2.testBit i = decide (i < 20) := testBit_two_pow_sub_one 20 i

lemma and_kSignBitMask (a : Int64) : (t.and a.h kSignBitMask != 0) = a.h.testBit 19 := by
  have h := t.and_two_pow a.h (show 19 < 32 by norm_num)
  rw [show kSignBitMask = 2^19 by rfl,h]
  cases a.h.testBit 19 <;> rfl

section Shifts
variable (ha : a.Canonical) (n : ℕ)
include ha

lemma shiftLeftBy_denotes : (shiftLeftBy t a n).Denotes (a.bits <<< n) := by
  unfold shiftLeftBy kBits kBits01
  split_ifs with h1 h2
  all_goals
    apply masked_denotes
    all_goals
      intro i hi
      simp (disch := omega) only [testBit_or,testBit_shl,testBit_shr,testBit_zero]
      grind

lemma shiftRightUnsignedBy_denotes : (shiftRightUnsignedBy t a n).Denotes (a.bits >>> n) := by
  have ha2 : t.and kMask2 a.h = a.h := by
    rw [show kMask2 = 2^20-1 by rfl,t.mask_and a.h (by omega)]
    exact Int.emod_eq_of_lt ha.h_nonneg ha.h_lt
  unfold shiftRightUnsignedBy kBits kBits01
  rw [ha2]
  split_ifs with h1 h2
  all_goals
    apply masked_denotes
    all_goals
      intro i hi
      simp (disch := omega) only [testBit_or,testBit_shl,testBit_shr,testBit_zero]
      grind

/-- The high limb with two more copies of the sign bit. -/
lemma testBit_signExtended {x : ℤ}
    (hx : x = if a.h.testBit 19 && decide (kMask > kMask2) then a.h+(kMask-kMask2) else a.h) :
    0 ≤ x ∧ ∀ i, x.testBit i = if i < 20 then a.h.testBit i else decide (i < 22) && a.h.testBit 19 := by
  have h0 := ha.h_nonneg
  rw [show decide (kMask > kMask2) = true from rfl,Bool.and_true,
    show kMask-kMask2 = 3*2^20 from rfl] at hx
  cases hneg : a.h.testBit 19 with
  | false =>
    rw [hneg,if_neg Bool.false_ne_true] at hx
    refine ⟨hx ▸ h0,fun i => ?_⟩
    rw [hx,Bool.and_false]
    split_ifs with hi
    · rfl
    · exact ha.testBit_h (by omega)
  | true =>
    rw [hneg,if_pos rfl] at hx
    have hor := lor_shiftLeft (show (0 : ℤ) ≤ 3 by norm_num) h0 20 ha.h_lt
    rw [Int.add_comm (3*2^20),← hx] at hor
    refine ⟨by omega,fun i => ?_⟩
    rw [← hor,Int.testBit_lor,testBit_shiftLeft,show (3 : ℤ) = 2^2-1 by norm_num,
      testBit_two_pow_sub_one,Bool.and_true]
    split_ifs with hi
    · simp [by omega]
    · rw [ha.testBit_h (by omega),Bool.or_false,decide_eq_true (by omega),Bool.true_and]
      exact decide_eq_decide.2 (by omega)

omit ha in
lemma shiftRightHelper_eq {x : ℤ} (hx : 0 ≤ x) : shiftRightHelper t x n = t.shr x n := if_pos hx

lemma shiftRightBy_denotes : (shiftRightBy t a n).Denotes (a.bits.sshiftRight n) := by
  have hmsb := ha.msb_bits
  simp only [shiftRightBy,kBits,kBits01,and_kSignBitMask]
  generalize ha2 : (if a.h.testBit 19 && decide (kMask > kMask2) then a.h+(kMask-kMask2) else a.h) = a2
  obtain ⟨h0,hext⟩ := testBit_signExtended ha ha2.symm
  simp only [shiftRightHelper_eq t _ h0,shiftRightHelper_eq t _ ha.m_nonneg,
    shiftRightHelper_eq t _ ha.l_nonneg]
  clear ha2
  cases hneg : a.h.testBit 19
  all_goals
    rw [hneg] at hmsb hext
    simp only [if_true,Bool.false_eq_true,if_false,Bool.and_false,Bool.and_true] at hext ⊢
    split_ifs with h1 h2
    all_goals
      apply masked_denotes
      all_goals
        intro i hi
        simp (disch := omega) only [testBit_or,testBit_and,testBit_not,
          testBit_shl,testBit_shr,testBit_zero,testBit_kMask,testBit_kMask2,hext,getLsbD_sshiftRight]
        split_ifs <;> grind

end Shifts

/-- A count that is not negative is reduced modulo 64. -/
lemma withCount_denotes {shift : Int64 → ℕ → Int64} {v : ℕ → BitVec 64}
    (h : ∀ n, (shift a n).Denotes (v n)) {n : ℤ} (hn : 0 ≤ n) :
    ∃ r, withCount t shift a n = some r ∧ r.Denotes (v (n.toNat%64)) := by
  have hmask : t.and n 63 = n%2^6 := t.and_mask n (show 6 ≤ 32 by norm_num)
  have hcount : (t.and n 63).toNat = n.toNat%64 := by omega
  exact ⟨_,if_neg hn.not_gt,hcount ▸ h _⟩

section Truncation

variable (x : ℤ)

section
variable {w : ℕ} (hw : w < 32)
include hw

lemma Host.shl_one : t.shl 1 w = 2^w := by
  have hlt : (1 : ℤ)*2^w < 2^32 := by
    rw [one_mul]
    exact pow_lt_pow_right₀ (by norm_num) hw
  rw [t.shl_eq (by norm_num) w hlt,one_mul]

lemma Host.toUnsigned_eq : t.toUnsigned x w = x%2^w := by
  rw [Host.toUnsigned,shl_one t hw,t.and_mask x hw.le]

lemma Host.toSigned_eq : t.toSigned x (w+1) = x%2^w-if x.testBit w then 2^w else 0 := by
  rw [Host.toSigned,Nat.add_sub_cancel,shl_one t hw,t.and_mask x hw.le,t.and_two_pow x hw]

lemma Host.testBit_toSigned (i : ℕ) :
    (t.toSigned x (w+1)).testBit i = if i < w then x.testBit i else x.testBit w := by
  have hnonneg : 0 ≤ x%2^w := Int.emod_nonneg x (by positivity)
  have hlt : x%2^w < 2^w := Int.emod_lt_of_pos x (by positivity)
  rw [toSigned_eq t x hw]
  cases hsign : x.testBit w with
  | false =>
    rw [if_neg Bool.false_ne_true,Int.sub_zero,testBit_emod_two_pow]
    by_cases hi : i < w <;> simp
  | true =>
    rw [if_pos rfl,testBit_sub_two_pow hnonneg hlt,testBit_emod_two_pow]
    by_cases hi : i < w
    · simp [hi]
    · simp [not_lt.1 hi]

lemma Host.toSigned_neg_iff : t.toSigned x (w+1) < 0 ↔ x.testBit w = true := by
  have hnonneg : 0 ≤ x%2^w := Int.emod_nonneg x (by positivity)
  have hlt : x%2^w < 2^w := Int.emod_lt_of_pos x (by positivity)
  rw [toSigned_eq t x hw]
  cases x.testBit w with
  | false => simpa using hnonneg
  | true => simpa using hlt

end

lemma getLsbD_signExtend_setWidth (v : BitVec 64) {w : ℕ} (hw : 0 < w) (hi : i < 64) :
    ((v.setWidth w).signExtend 64).getLsbD i = if i < w then v.getLsbD i else v.getLsbD (w-1) := by
  rw [getLsbD_signExtend,msb_eq_getLsbD_last,getLsbD_setWidth,
    getLsbD_setWidth,decide_eq_true hi,decide_eq_true (show w-1 < w by omega),Bool.true_and,
    Bool.true_and]
  split_ifs with h
  · rw [decide_eq_true h,Bool.true_and]
  · rfl

variable (ha : a.Canonical) {width : ℤ}
include ha

lemma toUnsigned_denotes (h0 : 0 ≤ width) (h64 : width ≤ 64) : ∃ r, toUnsigned t a width = some r ∧
      r.Denotes ((a.bits.setWidth width.toNat).setWidth 64) := by
  rw [toUnsigned,kBits,kBits01,if_neg (by omega)]
  split_ifs with h1 h2
  all_goals
    rw [Host.toUnsigned_eq t _ (by omega)]
    refine ⟨_,rfl,masked_denotes t (fun i hi => ?_) (fun i hi => ?_) (fun i hi => ?_)⟩
    all_goals
      simp only [testBit_emod_two_pow,testBit_zero,getLsbD_setWidth]
      grind

lemma toSigned_denotes (h0 : 1 ≤ width) (h64 : width ≤ 64) : ∃ r, toSigned t a width = some r ∧
      r.Denotes ((a.bits.setWidth width.toNat).signExtend 64) := by
  have hspec := fun i => @getLsbD_signExtend_setWidth i a.bits width.toNat (by omega)
  rw [toSigned,kBits,kBits01,if_neg (by omega)]
  split_ifs with h1 h2
  · obtain ⟨w,hw⟩ : ∃ w, width.toNat-44 = w+1 := ⟨width.toNat-45,by omega⟩
    rw [hw]
    refine ⟨_,rfl,masked_denotes t (fun i hi => ?_) (fun i hi => ?_) (fun i hi => ?_)⟩
    all_goals
      simp (disch := omega) only [Host.testBit_toSigned,hspec]
      grind
  · obtain ⟨w,hw⟩ : ∃ w, width.toNat-22 = w+1 := ⟨width.toNat-23,by omega⟩
    simp only [hw,Host.toSigned_neg_iff t a.m (show w < 32 by omega)]
    refine ⟨_,rfl,?_⟩
    split_ifs with hsign
    all_goals
      apply masked_denotes
      all_goals
        intro i hi
        simp (disch := omega) only [Host.testBit_toSigned,testBit_kMask2,testBit_zero,hspec]
        grind
  · obtain ⟨w,hw⟩ : ∃ w, width.toNat = w+1 := ⟨width.toNat-1,by omega⟩
    simp only [hw,Host.toSigned_neg_iff t a.l (show w < 32 by omega)]
    rw [hw] at hspec
    refine ⟨_,rfl,?_⟩
    split_ifs with hsign
    all_goals
      apply masked_denotes
      all_goals
        intro i hi
        simp (disch := omega) only [Host.testBit_toSigned,testBit_kMask,testBit_kMask2,testBit_zero]
        grind

end Truncation

end Int64

end DartSdk.Fixnum
