import DartSdk.FixnumDivision

/-! The division operators of `Int32` in `pkg/fixnum/lib/src/int32.dart`, which narrow their results
to 32 bits. -/
namespace DartSdk.Fixnum
open TruncatedArithmetic Int Int

variable (t : Host) {x y : ℤ}

/-- The value `(i & 0x7fffffff) - (i & 0x80000000)` of the constructor. -/
def narrow (i : ℤ) : ℤ := t.and i 0x7fffffff-t.and i 0x80000000

lemma narrow_eq (x : ℤ) : narrow t x = if x%2^32 < 2^31 then x%2^32 else x%2^32-2^32 := by
  have hsign : x.testBit 31 = !decide (x%2^32 < 2^31) := by
    obtain ⟨n,hn⟩ := eq_ofNat_of_zero_le (emod_nonneg x (by norm_num : (2^32 : ℤ) ≠ 0))
    rw [← testBit_emod x (by norm_num : 31 < 32),hn]
    change n.testBit 31 = _
    rw [Nat.testBit_eq_decide_div_mod_eq,← decide_not]
    exact decide_eq_decide.2 (by omega)
  rw [narrow,show (0x7fffffff : ℤ) = 2^31-1 by norm_num,show (0x80000000 : ℤ) = 2^31 by norm_num,
    t.and_mask x (by norm_num),t.and_two_pow x (by norm_num),hsign]
  by_cases h : x%2^32 < 2^31 <;> simp only [h,decide_true,decide_false,Bool.not_true,Bool.not_false,
    if_true,if_false,Bool.false_eq_true] <;> omega

lemma narrow_emod (x : ℤ) : narrow t x%2^32 = x%2^32 := by
  rw [narrow_eq]
  split_ifs <;> omega

lemma narrow_eq_iff (h : x%2^32 = y%2^32) : narrow t x = y ↔ -2^31 ≤ y ∧ y < 2^31 := by
  rw [narrow_eq]
  split_ifs <;> omega

/-- `_i`, kept in its range. -/
structure Int32 where
  i : ℤ
  lower : -2^31 ≤ i
  upper : i < 2^31

namespace Int32

def new (i : ℤ) : Int32 where
  i := narrow t i
  lower := by rw [narrow_eq]; split_ifs <;> omega
  upper := by rw [narrow_eq]; split_ifs <;> omega

end Int32

namespace Int64

/-- The limbs of a value that is not negative; dart2js divides where the VM shifts. -/
def limbs (value : ℤ) : ℤ × ℤ × ℤ :=
  if t.haveBigInts then
    (t.and kMask value,t.and kMask (t.shr value kBits),t.and kMask2 (t.shr value kBits01))
  else
    let v2 := value/17592186044416
    let value := value-v2*17592186044416
    let v1 := value/4194304
    (value-v1*4194304,v1,v2)

lemma limbs_emod (v : ℤ) : (limbs t v).1%2^22 = v%2^22 ∧ (limbs t v).2.1%2^22 = v/2^22%2^22 ∧
    (limbs t v).2.2%2^20 = v/2^44%2^20 := by
  have hmask : kMask = 2^22-1 := by decide
  have hmask2 : kMask2 = 2^20-1 := by decide
  unfold limbs
  rw [hmask,hmask2,t.mask_and v (by omega),t.mask_and _ (by omega),t.mask_and _ (by omega)]
  cases t with
  | exact => simp [Host.haveBigInts,Host.shr,Host.wrap,kBits,kBits01,shiftRight_eq_div_pow]
  | js =>
    simp only [Host.haveBigInts,Bool.false_eq_true,if_false]
    omega

/-- The constructor from an `int`. -/
def new (value : ℤ) : Int64 :=
  if value < 0 then
    let (v0,v1,v2) := limbs t (-value-1)
    masked t (t.not v0) (t.not v1) (t.not v2)
  else
    let (v0,v1,v2) := limbs t value
    masked t v0 v1 v2

lemma new_denotes (x : ℤ) : (new t x).Denotes (BitVec.ofInt 64 x) := by
  have hc : (new t x).Canonical := by
    unfold new
    split_ifs <;> exact masked_canonical t ..
  refine ⟨hc,ofInt_congr ?_⟩
  unfold new
  split_ifs with hx
  · obtain ⟨h0,h1,h2⟩ := limbs_emod t (-x-1)
    have hflip (y : ℤ) : (-y-1)%2^22 = 2^22-1-y%2^22 ∧ (-y-1)%2^20 = 2^20-1-y%2^20 := by omega
    simp only [masked_eq,t.not_emod _ (by norm_num : 22 ≤ 32),t.not_emod _ (by norm_num : 20 ≤ 32),
      value,hflip,h0,h1,h2]
    omega
  · obtain ⟨h0,h1,h2⟩ := limbs_emod t x
    simp only [masked_eq,value,h0,h1,h2]
    omega

lemma mul_value {a b : Int64} (ha : a.Canonical) (hb : b.Canonical) :
    (mul t a b).Canonical ∧ (mul t a b).value = a.value*b.value%2^64 := by
  have h := mul_denotes t ha hb
  refine ⟨h.canonical,?_⟩
  rw [← h.canonical.toNat_bits,h.bits_eq,BitVec.toNat_mul,natCast_emod,Nat.cast_mul,
    ha.toNat_bits,hb.toNat_bits]
  norm_num

lemma signed_modEq (a : Int64) : a.signed ≡ a.value [ZMOD 2^32] := by
  rw [signed,Int.ModEq]
  split_ifs <;> omega

/-- The low 32 bits. -/
def toInt32 (a : Int64) : Int32 := .new t (t.or (t.shl (t.and a.m 0x3ff) kBits) a.l)

lemma toInt32_i {a : Int64} (ha : a.Canonical) : (a.toInt32 t).i = narrow t a.value := by
  obtain ⟨hl,hl',hm,hm',-,-⟩ := ha
  have hmask : t.and a.m 0x3ff = a.m%2^10 := t.and_mask a.m (by norm_num : 10 ≤ 32)
  have hor : t.or (t.shl (a.m%2^10) kBits) a.l = a.m%2^10*2^22+a.l := by
    rw [Host.or,lor_comm]
    exact or_shl t (by omega) hl hl' (show a.m%2^10*2^22+a.l < 2^32 by omega)
  have hlow : (a.m%2^10*2^22+a.l)%2^32 = a.value%2^32 := by
    rw [value]
    omega
  change narrow t _ = _
  rw [hmask,hor,narrow_eq,narrow_eq,hlow]

lemma toInt32_eq_iff {a : Int64} (ha : a.Canonical) (h : a.value%2^32 = y%2^32) :
    (a.toInt32 t).i = y ↔ -2^31 ≤ y ∧ y < 2^31 := by
  rw [toInt32_i t ha,narrow_eq_iff t h]

end Int64

namespace Int32

variable (a : Int32) (b : Int64) (fuel : ℕ) (estimate : ℤ) (n : ℤ)

def toInt64 : Int64 := .new t a.i

def modInt64 : Except DivisionError Int32 := do
  return (← Int64.divide t fuel estimate (a.toInt64 t) b .mod).toInt32 t

def divInt64 : Except DivisionError Int32 := do
  return (← Int64.divide t fuel estimate (a.toInt64 t) b .div).toInt32 t

def remainderInt64 : Except DivisionError Int32 := do
  let q ← Int64.divide t fuel estimate (a.toInt64 t) b .div
  return (Int64.sub t (a.toInt64 t) (Int64.mul t q b)).toInt32 t

/-- `%` by an `int` that is not zero. -/
def modInt : Int32 := new t (a.i%n)

def divInt : Int32 := new t (a.i.tdiv n)

def mulInt : Int32 := (Int64.mul t (a.toInt64 t) (.new t n)).toInt32 t

def remainderInt : Int32 := new t (a.i-((a.divInt t n).mulInt t n).i)

variable {a b fuel estimate n}

lemma toInt64_signed : (a.toInt64 t).Canonical ∧ (a.toInt64 t).signed = a.i := by
  have h := Int64.new_denotes t a.i
  have hlower := a.lower
  have hupper := a.upper
  exact ⟨h.canonical,h.canonical.signed_eq_of_emod h.value_eq (by omega)⟩

/-- The Euclidean modulus is not bounded by a negative left operand. -/
lemma emod_lt_iff (hn : n ≠ 0) : a.i%n < 2^31 ↔ 0 ≤ a.i ∨ |n|+a.i < 2^31 := by
  have hlower := a.lower
  have hupper := a.upper
  have hlt := emod_lt_abs a.i hn
  rcases le_or_gt 0 a.i with hpos | hneg
  · have habs := natAbs_tmod a.i n
    rw [tmod_eq_emod_of_nonneg hpos] at habs
    have hle := Nat.mod_le a.i.natAbs n.natAbs
    omega
  rcases le_or_gt |n| (2^31) with hsmall | hlarge
  · omega
  · have heq : a.i%n = |n|+a.i := by
      rw [← emod_abs,← add_emod_left,emod_eq_of_lt (by omega) (by omega)]
    omega

lemma tdiv_bounds (h : ¬ (a.i = -2^31 ∧ n = -1)) : -2^31 ≤ a.i.tdiv n ∧ a.i.tdiv n < 2^31 := by
  have hlower := a.lower
  have hupper := a.upper
  have habs : (a.i.tdiv n).natAbs = a.i.natAbs/n.natAbs := natAbs_tdiv a.i n
  rcases (by omega : n = 1 ∨ n = -1 ∨ n = 0 ∨ 2 ≤ n.natAbs) with rfl | rfl | rfl | hn
  · rw [Int.tdiv_one]
    omega
  · rw [Int.tdiv_neg,Int.tdiv_one]
    omega
  · rw [Int.tdiv_zero]
    omega
  · have hhalf : a.i.natAbs/n.natAbs ≤ a.i.natAbs/2 := Nat.div_le_div_left hn (by norm_num)
    omega

lemma tmod_bounds : -2^31 ≤ a.i.tmod n ∧ a.i.tmod n < 2^31 := by
  have hlower := a.lower
  have hupper := a.upper
  have habs := natAbs_tmod a.i n
  have hle := Nat.mod_le a.i.natAbs n.natAbs
  rcases le_or_gt 0 a.i with hpos | hneg
  · have hsign := tmod_nonneg n hpos
    omega
  · have hsign := tmod_nonneg n (by omega : 0 ≤ -a.i)
    rw [neg_tmod] at hsign
    omega

lemma sub_tdiv_mul (a : ℤ) : a-a.tdiv n*n = a.tmod n := by
  have := tdiv_mul_add_tmod a n
  omega

lemma remainderInt_i (h : ¬ (a.i = -2^31 ∧ n = -1)) : (a.remainderInt t n).i = a.i.tmod n := by
  have hq := Int64.new_denotes t (a.divInt t n).i
  have hn := Int64.new_denotes t n
  have hquotient : (a.divInt t n).i = a.i.tdiv n := (narrow_eq_iff t rfl).2 (tdiv_bounds h)
  have hproduct : ((a.divInt t n).mulInt t n).i%2^32 = a.i.tdiv n*n%2^32 := by
    obtain ⟨hc,hv⟩ := Int64.mul_value t hq.canonical hn.canonical
    rw [mulInt,toInt64,Int64.toInt32_i t hc,narrow_emod,hv,hq.value_eq,hn.value_eq,hquotient,
      ← mul_emod,emod_emod_of_dvd _ (by norm_num)]
  refine (narrow_eq_iff t ?_).2 tmod_bounds
  rw [sub_emod,hproduct,← sub_emod,sub_tdiv_mul]

def minusSeven : Int32 := ⟨-7,by norm_num,by norm_num⟩

end Int32

end DartSdk.Fixnum
