import Mathlib

/-! Ring operations, left shifts and bitwise operations determine the low bits of their result from
the low bits of their operands. Single bits of shifted and masked integers. -/
namespace DartSdk.TruncatedArithmetic
open Nat

variable {n : ℕ} (x : ℤ)

lemma testBit_toNat_emod (n i : ℕ) : (x%2^n).toNat.testBit i = (decide (i < n) && x.testBit i) := by
  cases x with
  | ofNat m =>
    have h : (Int.ofNat m%2^n).toNat = m%2^n := by
      rw [Int.ofNat_eq_natCast]
      exact_mod_cast Int.toNat_natCast (m%2^n)
    rw [h,testBit_mod_two_pow]
    rfl
  | negSucc m =>
    have hlt : m%2^n < 2^n := mod_lt m (by positivity)
    have h : (Int.negSucc m%2^n).toNat = 2^n-(m%2^n+1) := by
      rw [Int.negSucc_emod m (by positivity)]
      have : (m : ℤ)%2^n = ((m%2^n : ℕ) : ℤ) := by norm_cast
      have hp : ((2^n : ℕ) : ℤ) = 2^n := by norm_cast
      omega
    rw [h,testBit_two_pow_sub_succ hlt,testBit_mod_two_pow]
    change (decide (i < n) && !(decide (i < n) && m.testBit i)) = (decide (i < n) && !m.testBit i)
    cases decide (i < n) <;> simp

/-- Two integers agree on the low bits if they agree on each of them. -/
lemma emod_two_pow_congr {x y : ℤ} (h : ∀ i < n, x.testBit i = y.testBit i) : x%2^n = y%2^n := by
  have hnat : (x%2^n).toNat = (y%2^n).toNat := by
    refine eq_of_testBit_eq fun i => ?_
    rw [testBit_toNat_emod,testBit_toNat_emod]
    by_cases hi : i < n
    · rw [h i hi]
    · simp [hi]
  have hx := Int.emod_nonneg x (by positivity : (2 : ℤ)^n ≠ 0)
  omega

lemma testBit_emod {i : ℕ} (x : ℤ) (hi : i < n) : (x%2^n).testBit i = x.testBit i := by
  have hx := Int.emod_nonneg x (by positivity : (2 : ℤ)^n ≠ 0)
  have h := testBit_toNat_emod x n i
  rw [decide_eq_true hi,Bool.true_and] at h
  rw [← h]
  conv_lhs => rw [← Int.toNat_of_nonneg hx]
  rfl

lemma land_emod (x y : ℤ) (n : ℕ) : Int.land (x%2^n) (y%2^n)%2^n = Int.land x y%2^n :=
  emod_two_pow_congr fun i hi => by
    rw [Int.testBit_land,Int.testBit_land,testBit_emod x hi,testBit_emod y hi]

lemma lor_emod (x y : ℤ) (n : ℕ) : Int.lor (x%2^n) (y%2^n)%2^n = Int.lor x y%2^n :=
  emod_two_pow_congr fun i hi => by
    rw [Int.testBit_lor,Int.testBit_lor,testBit_emod x hi,testBit_emod y hi]

lemma xor_emod (x y : ℤ) (n : ℕ) : Int.xor (x%2^n) (y%2^n)%2^n = Int.xor x y%2^n :=
  emod_two_pow_congr fun i hi => by
    rw [Int.testBit_lxor,Int.testBit_lxor,testBit_emod x hi,testBit_emod y hi]

lemma shiftLeft_emod (k n : ℕ) : (x%2^n) <<< k%2^n = x <<< k%2^n := by
  rw [Int.shiftLeft_eq,Int.shiftLeft_eq]
  exact (Int.mod_modEq x (2^n)).mul_right (2^k)

lemma lnot_emod (n : ℕ) : (-(x%2^n)-1)%2^n = (-x-1)%2^n :=
  (Int.mod_modEq x (2^n)).neg.sub_right 1

variable (k i : ℕ)

lemma testBit_zero : (0 : ℤ).testBit i = false := zero_testBit i

lemma testBit_shiftRight : (x >>> k).testBit i = x.testBit (k+i) := by
  cases x with
  | ofNat m => exact Nat.testBit_shiftRight m
  | negSucc m => exact congrArg not (Nat.testBit_shiftRight m)

lemma testBit_shiftLeft : (x <<< k).testBit i = (decide (k ≤ i) && x.testBit (i-k)) := by
  cases x with
  | ofNat m =>
    rw [Int.shiftLeft_eq,Int.ofNat_eq_natCast,← Nat.cast_ofNat,← Nat.cast_pow,← Nat.cast_mul,
      ← Nat.shiftLeft_eq]
    exact Nat.testBit_shiftLeft m
  | negSucc m =>
    have hneg : Int.negSucc m <<< k = Int.negSucc (2^k*m+(2^k-1)) := by
      have hpos : 1 ≤ 2^k := Nat.one_le_two_pow
      rw [Int.shiftLeft_eq,Int.negSucc_eq,Int.negSucc_eq,Nat.cast_add,Nat.cast_sub hpos]
      push_cast
      ring
    rw [hneg]
    change (!(2^k*m+(2^k-1)).testBit i) = (decide (k ≤ i) && !m.testBit (i-k))
    rw [Nat.testBit_two_pow_mul_add _ (by have := Nat.two_pow_pos k; omega),Nat.testBit_two_pow_sub_one]
    by_cases hi : i < k
    · simp [hi]
    · simp [not_lt.1 hi]

lemma testBit_eq_false {x : ℤ} (h0 : 0 ≤ x) (hx : x < 2^n) {i : ℕ} (hi : n ≤ i) :
    x.testBit i = false := by
  obtain ⟨m,rfl⟩ := Int.eq_ofNat_of_zero_le h0
  have hm : m < 2^n := by exact_mod_cast hx
  exact Nat.testBit_lt_two_pow (hm.trans_le (Nat.pow_le_pow_right (by norm_num) hi))

lemma land_comm (x y : ℤ) : Int.land x y = Int.land y x := by
  cases x with
  | ofNat m =>
    cases y with
    | ofNat n => exact congrArg Int.ofNat (Nat.and_comm m n)
    | negSucc n => rfl
  | negSucc m =>
    cases y with
    | ofNat n => rfl
    | negSucc n => exact congrArg Int.negSucc (Nat.or_comm m n)

lemma lor_comm (x y : ℤ) : Int.lor x y = Int.lor y x := by
  cases x with
  | ofNat m =>
    cases y with
    | ofNat n => exact congrArg Int.ofNat (Nat.or_comm m n)
    | negSucc n => rfl
  | negSucc m =>
    cases y with
    | ofNat n => rfl
    | negSucc n => exact congrArg Int.negSucc (Nat.and_comm m n)

lemma land_two_pow_sub_one : Int.land x (2^k-1) = x%2^k := by
  have hcast : (2^k-1 : ℤ) = ((2^k-1 : ℕ) : ℤ) := by
    rw [Nat.cast_sub Nat.one_le_two_pow]
    norm_num
  obtain ⟨q,hq⟩ : ∃ q : ℕ, Int.land x ((2^k-1 : ℕ) : ℤ) = q := by
    cases x with
    | ofNat m => exact ⟨m &&& (2^k-1),rfl⟩
    | negSucc m => exact ⟨(2^k-1).ldiff m,rfl⟩
  have hbits : q = (x%2^k).toNat := by
    refine eq_of_testBit_eq fun i => ?_
    have h := Int.testBit_land x ((2^k-1 : ℕ) : ℤ) i
    rw [hq] at h
    rw [testBit_toNat_emod]
    change q.testBit i = (x.testBit i && (2^k-1).testBit i) at h
    rw [h,testBit_two_pow_sub_one,Bool.and_comm]
  rw [hcast,hq,hbits,Int.toNat_of_nonneg (Int.emod_nonneg _ (by positivity))]

lemma testBit_two_pow_sub_one : (2^k-1 : ℤ).testBit i = decide (i < k) := by
  have hcast : (2^k-1 : ℤ) = ((2^k-1 : ℕ) : ℤ) := by
    rw [Nat.cast_sub Nat.one_le_two_pow]
    norm_num
  rw [hcast]
  exact Nat.testBit_two_pow_sub_one k i

lemma testBit_emod_two_pow (n i : ℕ) : (x%2^n).testBit i = (decide (i < n) && x.testBit i) := by
  rcases lt_or_ge i n with hi | hi
  · rw [testBit_emod x hi,decide_eq_true hi,Bool.true_and]
  · rw [decide_eq_false (not_lt.2 hi),Bool.false_and]
    exact testBit_eq_false (Int.emod_nonneg x (by positivity)) (Int.emod_lt_of_pos x (by positivity)) hi

/-- A number with a sign bit above its low bits. -/
lemma testBit_sub_two_pow {x : ℤ} (h0 : 0 ≤ x) (hx : x < 2^n) (i : ℕ) :
    (x-2^n).testBit i = (decide (n ≤ i) || x.testBit i) := by
  obtain ⟨m,rfl⟩ := Int.eq_ofNat_of_zero_le h0
  have hm : m < 2^n := by exact_mod_cast hx
  have hneg : (m : ℤ)-2^n = Int.negSucc (2^n-(m+1)) := by
    rw [Int.negSucc_eq,cast_sub (succ_le_of_lt hm)]
    push_cast
    ring
  rw [hneg]
  change (!(2^n-(m+1)).testBit i) = (decide (n ≤ i) || m.testBit i)
  rw [testBit_two_pow_sub_succ hm]
  rcases lt_or_ge i n with hi | hi
  · simp [hi]
  · simp [hi]

lemma land_two_pow : Int.land x (2^k) = if x.testBit k then 2^k else 0 := by
  obtain ⟨q,hq⟩ : ∃ q : ℕ, Int.land x ((2^k : ℕ) : ℤ) = q := by
    cases x with
    | ofNat m => exact ⟨m &&& 2^k,rfl⟩
    | negSucc m => exact ⟨(2^k).ldiff m,rfl⟩
  have hbits : q = if x.testBit k then 2^k else 0 := by
    refine eq_of_testBit_eq fun i => ?_
    have h := Int.testBit_land x ((2^k : ℕ) : ℤ) i
    rw [hq] at h
    change q.testBit i = (x.testBit i && (2^k).testBit i) at h
    rw [h,testBit_two_pow]
    by_cases hi : k = i
    · subst hi
      cases x.testBit k <;> simp
    · cases x.testBit k <;> simp [hi]
  rw [show (2^k : ℤ) = ((2^k : ℕ) : ℤ) by norm_num,hq,hbits]
  split_ifs <;> rfl

lemma lor_shiftLeft {x y : ℤ} (hx : 0 ≤ x) (hy : 0 ≤ y) (k : ℕ) (hlt : y < 2^k) :
    Int.lor (x <<< k) y = x*2^k+y := by
  obtain ⟨m,rfl⟩ := Int.eq_ofNat_of_zero_le hx
  obtain ⟨p,rfl⟩ := Int.eq_ofNat_of_zero_le hy
  have hp : p < 2^k := by exact_mod_cast hlt
  have h := shiftLeft_add_eq_or_of_lt hp m
  rw [shiftLeft_eq] at h
  rw [Int.shiftLeft_eq,← cast_ofNat,← cast_pow,← cast_mul,← cast_add,h]
  rfl

lemma eq_of_testBit_eq {x y : ℤ} (hx0 : 0 ≤ x) (hx : x < 2^n) (hy0 : 0 ≤ y) (hy : y < 2^n)
    (h : ∀ i < n, x.testBit i = y.testBit i) : x = y := by
  have hmod := emod_two_pow_congr h
  rwa [Int.emod_eq_of_lt hx0 hx,Int.emod_eq_of_lt hy0 hy] at hmod

end DartSdk.TruncatedArithmetic
