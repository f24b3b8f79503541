import DartSdk.FixnumBitwise

/-! Addition and subtraction propagate a carry through the limbs. Multiplication cuts the factors
into chunks of 13 bits, so that no partial product needs more than 32 bits. -/
namespace DartSdk.Fixnum
open TruncatedArithmetic

namespace Int64
variable (t : Host) {a b : Int64}

/-- Masked limbs stand for their sum modulo `2 ^ 64` if the carries have been added. -/
lemma masked_carry {s0 s1 s2 x : ℤ} (h : (s0%2^22+s1%2^22*2^22+s2%2^20*2^44)%2^64 = x%2^64) :
    (masked t s0 s1 s2).Denotes (BitVec.ofInt 64 x) := by
  refine ⟨masked_canonical ..,ofInt_congr ?_⟩
  rw [masked_eq]
  exact h

lemma shr_kBits {x : ℤ} (h0 : 0 ≤ x) (hx : x < 2^32) : t.shr x kBits = x/2^22 :=
  t.shr_eq h0 22 (by omega)

variable (ha : a.Canonical)
include ha

lemma add_denotes (hb : b.Canonical) : (add t a b).Denotes (a.bits+b.bits) := by
  obtain ⟨ha1,ha2,ha3,ha4,ha5,ha6⟩ := ha
  obtain ⟨hb1,hb2,hb3,hb4,hb5,hb6⟩ := hb
  dsimp only [add]
  rw [bits,bits,← BitVec.ofInt_add,shr_kBits t (by omega) (by omega),shr_kBits t (by omega) (by omega)]
  refine masked_carry t ?_
  unfold value
  omega

lemma subLimbs_denotes (hb : b.Canonical) :
    (subLimbs t a.l a.m a.h b.l b.m b.h).Denotes (a.bits-b.bits) := by
  obtain ⟨ha1,ha2,ha3,ha4,ha5,ha6⟩ := ha
  obtain ⟨hb1,hb2,hb3,hb4,hb5,hb6⟩ := hb
  dsimp only [subLimbs]
  rw [t.and_shr_one,t.and_shr_one,bits,bits,BitVec.sub_eq_add_neg,← BitVec.ofInt_neg,
    ← BitVec.ofInt_add,show kBits = 22 from rfl]
  refine masked_carry t ?_
  unfold value
  have hborrow0 : (a.l-b.l)/2^22 = 0 ∨ (a.l-b.l)/2^22 = -1 := by omega
  rcases hborrow0 with h0 | h0
  · rw [h0]
    have hborrow1 : (a.m-b.m-0%2)/2^22 = 0 ∨ (a.m-b.m-0%2)/2^22 = -1 := by omega
    rcases hborrow1 with h1 | h1 <;> rw [h1] <;> omega
  · rw [h0]
    have hborrow1 : (a.m-b.m - -1%2)/2^22 = 0 ∨ (a.m-b.m - -1%2)/2^22 = -1 := by omega
    rcases hborrow1 with h1 | h1 <;> rw [h1] <;> omega

lemma sub_denotes (hb : b.Canonical) : (sub t a b).Denotes (a.bits-b.bits) :=
  subLimbs_denotes t ha hb

lemma neg_denotes : (neg t a).Denotes (-a.bits) := by
  have hzero : Canonical ⟨0,0,0⟩ := by constructor <;> norm_num
  have h := subLimbs_denotes t hzero ha
  rwa [show bits ⟨0,0,0⟩ = 0#64 from rfl,BitVec.zero_sub] at h

omit ha

section Product

lemma or_shl {x y : ℤ} (hx : 0 ≤ x) (hy : 0 ≤ y) {k : ℕ} (hlt : y < 2^k)
    (hbound : x*2^k+y < 2^32) : t.or y (t.shl x k) = x*2^k+y := by
  have hpos : (0 : ℤ) ≤ x*2^k := by positivity
  rw [t.shl_eq hx k (by omega),← Int.shiftLeft_eq,Host.or,lor_comm,lor_shiftLeft hx hy k hlt,
    Int.shiftLeft_eq,t.wrap_eq (by omega) hbound]

lemma chunk0_eq (a : Int64) : chunk0 t a = a.l%2^13 := t.and_mask a.l (show 13 ≤ 32 by norm_num)

variable (ha : a.Canonical)
include ha

lemma chunk1_eq : chunk1 t a = a.m%2^4*2^9+a.l/2^13 := by
  have hl0 := ha.l_nonneg
  have hl := ha.l_lt
  have hand : t.and a.m 0xf = a.m%2^4 := t.and_mask a.m (show 4 ≤ 32 by norm_num)
  rw [chunk1,hand,t.shr_eq hl0 13 (by omega)]
  exact or_shl t (by omega) (by omega) (by omega) (by omega)

lemma chunk2_eq : chunk2 t a = a.m/2^4%2^13 := by
  have hm := ha.m_lt
  rw [chunk2,t.shr_eq ha.m_nonneg 4 (by omega)]
  exact t.and_mask _ (show 13 ≤ 32 by norm_num)

lemma chunk3_eq : chunk3 t a = a.h%2^8*2^5+a.m/2^17 := by
  have hm0 := ha.m_nonneg
  have hm := ha.m_lt
  have hand : t.and a.h 0xff = a.h%2^8 := t.and_mask a.h (show 8 ≤ 32 by norm_num)
  rw [chunk3,hand,t.shr_eq hm0 17 (by omega)]
  exact or_shl t (by omega) (by omega) (by omega) (by omega)

lemma chunk4_eq : chunk4 t a = a.h/2^8 := by
  have hh0 := ha.h_nonneg
  have hh := ha.h_lt
  have hbound := t.and_bounds (y := 0xfff00) hh0 hh (by omega)
  have hmask : ∀ i < 20, (0xfff00 : ℤ).testBit i = decide (8 ≤ i) := by decide
  -- The mask clears only bits that the shift drops.
  refine eq_of_testBit_eq (n := 12) ?_ ?_ (by omega) (by omega) fun i hi => ?_
  · rw [chunk4,t.shr_eq hbound.1 8 (by omega)]
    omega
  · rw [chunk4,t.shr_eq hbound.1 8 (by omega)]
    omega
  · rw [chunk4,t.testBit_shr _ _ (by omega),t.testBit_and _ _ (by omega),hmask _ (by omega),
      decide_eq_true (by omega),Bool.and_true,← testBit_shiftRight,Int.shiftRight_eq_div_pow]
    rfl

lemma chunks_value : a.value = chunk0 t a+chunk1 t a*2^13+chunk2 t a*2^26 +
    chunk3 t a*2^39+chunk4 t a*2^52 := by
  rw [chunk0_eq,chunk1_eq t ha,chunk2_eq t ha,chunk3_eq t ha,chunk4_eq t ha,value]
  omega

lemma chunks_bounds : (0 ≤ chunk0 t a ∧ chunk0 t a < 2^13) ∧ (0 ≤ chunk1 t a ∧ chunk1 t a < 2^13) ∧
    (0 ≤ chunk2 t a ∧ chunk2 t a < 2^13) ∧ (0 ≤ chunk3 t a ∧ chunk3 t a < 2^13) ∧
    0 ≤ chunk4 t a ∧ chunk4 t a < 2^13 := by
  obtain ⟨ha1,ha2,ha3,ha4,ha5,ha6⟩ := id ha
  rw [chunk0_eq,chunk1_eq t ha,chunk2_eq t ha,chunk3_eq t ha,chunk4_eq t ha]
  omega

omit ha in
lemma assemble_denotes (p0 p1 p2 p3 p4 : ℤ) (h0 : 0 ≤ p0 ∧ p0 < 2^29) (h1 : 0 ≤ p1 ∧ p1 < 2^29)
    (h2 : 0 ≤ p2 ∧ p2 < 2^29) (h3 : 0 ≤ p3 ∧ p3 < 2^29) :
    (assemble t p0 p1 p2 p3 p4).Denotes (BitVec.ofInt 64 (p0+p1*2^13+p2*2^26+p3*2^39+p4*2^52)) := by
  have hc00 : t.and p0 0x3fffff = p0%2^22 := t.and_mask p0 (show 22 ≤ 32 by norm_num)
  have hc01 : t.and p1 0x1ff = p1%2^9 := t.and_mask p1 (show 9 ≤ 32 by norm_num)
  have hc12 : t.and p2 0x3ffff = p2%2^18 := t.and_mask p2 (show 18 ≤ 32 by norm_num)
  have hc13 : t.and p3 0x1f = p3%2^5 := t.and_mask p3 (show 5 ≤ 32 by norm_num)
  have hc24 : t.and p4 0xfff = p4%2^12 := t.and_mask p4 (show 12 ≤ 32 by norm_num)
  dsimp only [assemble]
  rw [hc00,hc01,hc12,hc13,hc24,t.shl_eq (by omega) 13 (by omega),t.shl_eq (by omega) 4 (by omega),
    t.shl_eq (by omega) 17 (by omega),t.shl_eq (by omega) 8 (by omega),t.shr_eq h0.1 22 (by omega),
    t.shr_eq h1.1 9 (by omega),t.shr_eq h2.1 18 (by omega),t.shr_eq h3.1 5 (by omega),
    shr_kBits t (by omega) (by omega),shr_kBits t (by omega) (by omega)]
  refine masked_carry t ?_
  omega

omit ha in
lemma product_if (x y : ℤ) : (if y ≠ 0 then x*y else 0) = x*y := by
  split_ifs with h
  · rfl
  · rw [not_not.1 h,mul_zero]

omit ha in
lemma chunk_product {x y : ℤ} (hx : 0 ≤ x ∧ x < 2^13) (hy : 0 ≤ y ∧ y < 2^13) :
    0 ≤ x*y ∧ x*y < 2^26 := by
  refine ⟨mul_nonneg hx.1 hy.1,?_⟩
  calc x*y < 2^13*2^13 := mul_lt_mul'' hx.2 hy.2 hx.1 hy.1
    _ = 2^26 := by norm_num

omit ha in
lemma product_emod (a0 a1 a2 a3 a4 b0 b1 b2 b3 b4 : ℤ) :
    (a0*b0+(a1*b0+a0*b1)*2^13+(a2*b0+a1*b1+a0*b2)*2^26 +
        (a3*b0+a2*b1+a1*b2+a0*b3)*2^39 +
        (a4*b0+a3*b1+a2*b2+a1*b3+a0*b4)*2^52)%2^64 =
      ((a0+a1*2^13+a2*2^26+a3*2^39+a4*2^52) *
        (b0+b1*2^13+b2*2^26+b3*2^39+b4*2^52))%2^64 := by
  refine Int.modEq_iff_dvd.2 ⟨2*(a4*b1+a3*b2+a2*b3+a1*b4) +
    (a4*b2+a3*b3+a2*b4)*2^14+(a4*b3+a3*b4)*2^27+a4*b4*2^40,?_⟩
  ring

lemma mul_denotes (hb : b.Canonical) : (mul t a b).Denotes (a.bits*b.bits) := by
  obtain ⟨ha0,ha1,ha2,ha3,ha4⟩ := chunks_bounds t ha
  obtain ⟨hb0,hb1,hb2,hb3,hb4⟩ := chunks_bounds t hb
  have h00 := chunk_product ha0 hb0
  have h01 := chunk_product ha0 hb1
  have h02 := chunk_product ha0 hb2
  have h03 := chunk_product ha0 hb3
  have h10 := chunk_product ha1 hb0
  have h11 := chunk_product ha1 hb1
  have h12 := chunk_product ha1 hb2
  have h20 := chunk_product ha2 hb0
  have h21 := chunk_product ha2 hb1
  have h30 := chunk_product ha3 hb0
  dsimp only [mul]
  simp only [product_if]
  obtain ⟨hc,hbits⟩ := assemble_denotes t (chunk0 t a*chunk0 t b)
    (chunk1 t a*chunk0 t b+chunk0 t a*chunk1 t b)
    (chunk2 t a*chunk0 t b+chunk1 t a*chunk1 t b+chunk0 t a*chunk2 t b)
    (chunk3 t a*chunk0 t b+chunk2 t a*chunk1 t b+chunk1 t a*chunk2 t b+chunk0 t a*chunk3 t b)
    (chunk4 t a*chunk0 t b+chunk3 t a*chunk1 t b+chunk2 t a*chunk2 t b+chunk1 t a*chunk3 t b +
      chunk0 t a*chunk4 t b) (by omega) (by omega) (by omega) (by omega)
  refine ⟨hc,hbits.trans ?_⟩
  rw [bits,bits,← BitVec.ofInt_mul,chunks_value t ha,chunks_value t hb]
  exact ofInt_congr (product_emod ..)

end Product

variable (ha : a.Canonical)
include ha

lemma Canonical.toInt_bits : a.bits.toInt = if a.h < 2^19 then a.value else a.value-2^64 := by
  obtain ⟨ha1,ha2,ha3,ha4,ha5,ha6⟩ := id ha
  have hnat := ha.toNat_bits
  have hvalue : a.value = a.l+a.m*2^22+a.h*2^44 := rfl
  rw [BitVec.toInt_eq_toNat_cond]
  split_ifs <;> push_cast <;> omega

lemma Canonical.bits_injective (hb : b.Canonical) (h : a.bits = b.bits) : a = b := by
  have hvalue : a.value = b.value := by rw [← ha.toNat_bits,← hb.toNat_bits,h]
  obtain ⟨ha1,ha2,ha3,ha4,ha5,ha6⟩ := ha
  obtain ⟨hb1,hb2,hb3,hb4,hb5,hb6⟩ := hb
  unfold value at hvalue
  ext <;> omega

lemma equals_iff (hb : b.Canonical) : equals a b = true ↔ a.bits = b.bits := by
  have heq : equals a b = true ↔ a = b := by
    rw [Int64.ext_iff]
    simp [equals,and_assoc]
  rw [heq]
  exact ⟨fun h => by rw [h],ha.bits_injective hb⟩

lemma compareTo_eq (hb : b.Canonical) : compareTo t a b =
    if a.bits.toInt < b.bits.toInt then -1 else if a.bits.toInt = b.bits.toInt then 0 else 1 := by
  rw [ha.toInt_bits,hb.toInt_bits]
  obtain ⟨ha1,ha2,ha3,ha4,ha5,ha6⟩ := ha
  obtain ⟨hb1,hb2,hb3,hb4,hb5,hb6⟩ := hb
  dsimp only [compareTo]
  rw [t.shr_eq ha5 (kBits2-1) (show a.h/2^19 < 2^32 by omega),
    t.shr_eq hb5 (kBits2-1) (show b.h/2^19 < 2^32 by omega),show kBits2-1 = 19 from rfl]
  unfold value
  rcases lt_or_ge a.h (2^19) with ha7 | ha7
  · rw [if_pos ha7]
    rcases lt_or_ge b.h (2^19) with hb7 | hb7
    · rw [if_pos hb7]
      split_ifs <;> omega
    · rw [if_neg hb7.not_gt]
      split_ifs <;> omega
  · rw [if_neg ha7.not_gt]
    rcases lt_or_ge b.h (2^19) with hb7 | hb7
    · rw [if_pos hb7]
      split_ifs <;> omega
    · rw [if_neg hb7.not_gt]
      split_ifs <;> omega

omit ha in
lemma flip_eq {x : ℤ} {k : ℕ} (hk : k ≤ 32) (h0 : 0 ≤ x) (hx : x < 2^k) :
    t.and (2^k-1) (t.not x) = 2^k-1-x := by
  rw [t.mask_and _ hk,t.not_emod x hk,← Int.add_emod_right,Int.emod_eq_of_lt (by omega) (by omega)]
  ring

lemma Canonical.testBit_sign : a.h.testBit 19 = !decide (a.h < 2^19) := by
  obtain ⟨n,hn⟩ := Int.eq_ofNat_of_zero_le ha.h_nonneg
  have hlt := ha.h_lt
  rw [hn] at hlt ⊢
  change n.testBit 19 = _
  rw [Nat.testBit_eq_decide_div_mod_eq,← decide_not]
  exact decide_eq_decide.2 (by omega)

/-- The limbs of `a`, or of its complement if it is negative. -/
def magnitude (a : Int64) : Int64 :=
  if a.h < 2^19 then a else ⟨2^22-1-a.l,2^22-1-a.m,2^20-1-a.h⟩

lemma magnitude_canonical : a.magnitude.Canonical ∧ a.magnitude.h < 2^19 := by
  obtain ⟨ha1,ha2,ha3,ha4,ha5,ha6⟩ := ha
  unfold magnitude
  split_ifs with h
  · exact ⟨⟨ha1,ha2,ha3,ha4,ha5,ha6⟩,h⟩
  · exact ⟨by constructor <;> dsimp only <;> omega,by dsimp only; omega⟩

lemma magnitude_value :
    a.bits.toInt = if a.h < 2^19 then a.magnitude.value else -a.magnitude.value-1 := by
  rw [ha.toInt_bits,magnitude]
  split_ifs with h
  · rfl
  · unfold value
    ring

lemma flip_limbs : (if a.h.testBit 19 then t.and kMask (t.not a.l) else a.l) = a.magnitude.l ∧
    (if a.h.testBit 19 then t.and kMask (t.not a.m) else a.m) = a.magnitude.m ∧
    (if a.h.testBit 19 then t.and kMask2 (t.not a.h) else a.h) = a.magnitude.h := by
  have hl := flip_eq t (by norm_num) ha.l_nonneg ha.l_lt
  have hm := flip_eq t (by norm_num) ha.m_nonneg ha.m_lt
  have hh := flip_eq t (by norm_num) ha.h_nonneg ha.h_lt
  rw [ha.testBit_sign,magnitude,show kMask = 2^22-1 from rfl,show kMask2 = 2^20-1 from rfl,
    hl,hm,hh]
  by_cases h : a.h < 2^19
  · rw [decide_eq_true h,if_pos h]
    exact ⟨rfl,rfl,rfl⟩
  · rw [decide_eq_false h,if_neg h]
    exact ⟨rfl,rfl,rfl⟩

lemma lor_limbs :
    Host.exact.or (Host.exact.or (Host.exact.shl a.h kBits01) (Host.exact.shl a.m kBits)) a.l = a.value := by
  have hm := ha.m_nonneg
  have hm' := ha.m_lt
  have hh := ha.h_nonneg
  change Int.lor (Int.lor (a.h <<< (44 : ℕ)) (a.m <<< (22 : ℕ))) a.l = a.value
  have hmid : a.m <<< (22 : ℕ) = a.m*2^22 := Int.shiftLeft_eq ..
  have hjoin : a.h*(2 : ℤ)^44+a.m*(2 : ℤ)^22 = (a.h*2^22+a.m) <<< (22 : ℕ) := by
    rw [Int.shiftLeft_eq]
    ring
  rw [hmid,lor_shiftLeft hh (by omega) 44 (by omega),hjoin,
    lor_shiftLeft (by omega) ha.l_nonneg 22 ha.l_lt,value]
  ring

lemma toInt_eq : toInt t a = a.bits.toInt := by
  obtain ⟨hl,hm,hh⟩ := flip_limbs t ha
  have hc := (magnitude_canonical ha).1
  dsimp only [toInt]
  simp only [and_kSignBitMask]
  rw [hl,hm,hh,magnitude_value ha,ha.testBit_sign]
  cases t with
  | exact =>
    rw [lor_limbs hc]
    by_cases h : a.h < 2^19
    · rw [decide_eq_true h,if_pos h]
      rfl
    · rw [decide_eq_false h,if_neg h]
      rfl
  | js =>
    by_cases h : a.h < 2^19
    · rw [decide_eq_true h,if_pos h]
      rfl
    · rw [decide_eq_false h,if_neg h]
      change -(a.magnitude.l+1+a.magnitude.m*2^22+a.magnitude.h*2^44) = _
      rw [value]
      ring

end Int64

end DartSdk.Fixnum
