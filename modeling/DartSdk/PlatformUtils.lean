import Mathlib

/-! The functions of `platform/utils.h` and `utils.cc` on `int64_t`, with wrapping arithmetic. -/
namespace DartSdk.Utils
open Nat

def kMinInt64 : ℤ := -2^63

def kMaxInt64 : ℤ := 2^63-1

def IsInt64 (x : ℤ) : Prop := kMinInt64 ≤ x ∧ x ≤ kMaxInt64

instance (x : ℤ) : Decidable (IsInt64 x) := inferInstanceAs (Decidable (_ ∧ _))

/-- The `int64_t` with the same low 64 bits. -/
def wrap64 (x : ℤ) : ℤ := (x+2^63)%2^64-2^63

/-- `Abs`; the negation of `kMinInt64` wraps around. -/
def abs (x : ℤ) : ℤ := if x < 0 then wrap64 (-x) else x

def willAddOverflow (a b : ℤ) : Bool :=
  (b > 0 && a > kMaxInt64-b) || (b < 0 && a < kMinInt64-b)

def willSubOverflow (a b : ℤ) : Bool :=
  (b > 0 && a < kMinInt64+b) || (b < 0 && a > kMaxInt64+b)

/-- `IsInt`: an `n`-bit two's complement representation can hold `value`. -/
def isInt (n : ℕ) (value : ℤ) : Bool := -2^(n-1) ≤ value && value < 2^(n-1)

/-- One halving step of `HighestBit`: the upper bits of `x`, if there are any. -/
def highestBitStep (k : ℕ) (s : ℕ × ℕ) : ℕ × ℕ :=
  if s.1 >>> k ≠ 0 then (s.1 >>> k,s.2+k) else s

/-- `HighestBit` for a positive number. -/
def highestBit (x : ℕ) : ℕ :=
  let s := [32,16,8,4,2].foldl (fun s k => highestBitStep k s) (x,0)
  if s.1 > 1 then s.2+1 else s.2

/-- The value with flipped bits if it is negative, as `value ^= value >> 63`. -/
def magnitude (value : ℤ) : ℕ := (if value < 0 then -value-1 else value).toNat

def bitLength (value : ℤ) : ℕ :=
  if magnitude value = 0 then 0 else highestBit (magnitude value)+1

/-- The word sizes that the virtual machine is built for. -/
inductive Arch
  | bits32
  | bits64

def kBitsPerWord : Arch → ℕ
  | .bits32 => 32
  | .bits64 => 64

/-- `RoundDown`, where `-n` is the complement of `n - 1`. -/
def roundDown (x n : ℕ) : Option ℕ :=
  if n &&& (n-1) = 0 ∧ n ≠ 0 then some (x.ldiff (n-1)) else none

def roundUp (x n : ℕ) : Option ℕ := roundDown (x+n-1) n

def kMaxInt32 : ℕ := 0x7FFFFFFF

def kIntptrMax (a : Arch) : ℕ := 2^(kBitsPerWord a-1)-1

def isDecimalDigit (c : Char) : Bool := '0' ≤ c && c ≤ '9'

/-- `HexDigitToInt`, of upper and lower case digits. -/
def hexDigitToInt (c : Char) : Option ℕ :=
  if isDecimalDigit c then some (c.toNat - '0'.toNat)
  else if 'A' ≤ c ∧ c ≤ 'F' then some (10+(c.toNat - 'A'.toNat))
  else if 'a' ≤ c ∧ c ≤ 'f' then some (10+(c.toNat - 'a'.toNat))
  else none

def intToHexDigit (i : ℕ) : Char :=
  if i < 10 then Char.ofNat ('0'.toNat+i) else Char.ofNat ('A'.toNat+(i-10))

lemma wrap64_of_isInt64 {x : ℤ} (h : IsInt64 x) : wrap64 x = x := by
  unfold IsInt64 kMinInt64 kMaxInt64 at h
  unfold wrap64
  omega

lemma abs_eq {x : ℤ} (h : IsInt64 x) (hne : x ≠ kMinInt64) : abs x = |x| := by
  unfold abs
  split_ifs with hneg
  · rw [abs_of_neg hneg,wrap64_of_isInt64]
    unfold IsInt64 kMinInt64 kMaxInt64 at *
    omega
  · rw [abs_of_nonneg (by omega)]

lemma willAddOverflow_eq_false {a b : ℤ} (ha : IsInt64 a) :
    willAddOverflow a b = false ↔ IsInt64 (a+b) := by
  unfold willAddOverflow
  unfold IsInt64 kMinInt64 kMaxInt64 at *
  simp only [Bool.or_eq_false_iff,Bool.and_eq_false_iff,decide_eq_false_iff_not]
  omega

/-- The state of `HighestBit` for `x`: `r` bits are counted and fewer than `m` are left. -/
structure Halved (x m : ℕ) (s : ℕ × ℕ) : Prop where
  left : s.1 = x >>> s.2
  lt : s.1 < 2^m
  ne : s.1 ≠ 0

lemma Halved.step {x k : ℕ} {s : ℕ × ℕ} (h : Halved x (2*k) s) :
    Halved x k (highestBitStep k s) := by
  unfold highestBitStep
  split_ifs with hk
  · refine ⟨by rw [h.left,shiftRight_add],?_,hk⟩
    rw [shiftRight_eq_div_pow,div_lt_iff_lt_mul (by positivity),← pow_add,← two_mul]
    exact h.lt
  · refine ⟨h.left,?_,h.ne⟩
    rw [not_not,Nat.shiftRight_eq_div_pow,Nat.div_eq_zero_iff] at hk
    exact hk.resolve_left (by positivity)

lemma highestBit_eq_log2 {x : ℕ} (h0 : x ≠ 0) (hx : x < 2^64) : highestBit x = x.log2 := by
  have h2 : Halved x 2 ([32,16,8,4,2].foldl (fun s k => highestBitStep k s) (x,0)) :=
    Halved.step (Halved.step (Halved.step (Halved.step (Halved.step ⟨rfl,hx,h0⟩))))
  unfold highestBit
  generalize [32,16,8,4,2].foldl (fun s k => highestBitStep k s) (x,0) = s at h2
  obtain ⟨hs,hlt,hne⟩ := h2
  rw [Nat.shiftRight_eq_div_pow] at hs
  have hdiv := Nat.div_add_mod x (2^s.2)
  symm
  dsimp only
  split_ifs with h1
  · rw [Nat.log2_eq_iff h0,pow_succ,pow_succ]
    rcases (by omega : s.1 = 2 ∨ s.1 = 3) with h | h <;> rw [← hs,h] at hdiv <;> omega
  · rw [Nat.log2_eq_iff h0,pow_succ]
    rw [← hs,(by omega : s.1 = 1)] at hdiv
    omega

lemma magnitude_lt_iff {x : ℤ} {b : ℕ} : magnitude x < 2^b ↔ -2^b ≤ x ∧ x < 2^b := by
  rw [← cast_lt (α := ℤ)]
  unfold magnitude
  push_cast
  split_ifs <;> omega

lemma bitLength_le_iff {x : ℤ} (hx : IsInt64 x) {b : ℕ} : bitLength x ≤ b ↔ -2^b ≤ x ∧ x < 2^b := by
  rw [← magnitude_lt_iff]
  unfold bitLength
  split_ifs with h0
  · simp [h0]
  · have hlt : magnitude x < 2^64 := by
      rw [magnitude_lt_iff]
      unfold IsInt64 kMinInt64 kMaxInt64 at hx
      omega
    rw [highestBit_eq_log2 h0 hlt,succ_le_iff,log2_lt h0]

lemma bitLength_le {x : ℤ} (hx : IsInt64 x) : bitLength x ≤ 63 := by
  rw [bitLength_le_iff hx]
  unfold IsInt64 kMinInt64 kMaxInt64 at hx
  omega

variable (x e : ℕ)

lemma ldiff_two_pow_sub_one : x.ldiff (2^e-1) = x/2^e*2^e := by
  refine eq_of_testBit_eq fun i => ?_
  rw [testBit_ldiff,testBit_two_pow_sub_one,← shiftLeft_eq,testBit_shiftLeft,testBit_div_two_pow]
  rcases lt_or_ge i e with h | h
  · simp [h]
  · simp [h]

lemma roundUp_eq : roundUp x (2^e) = some ((x+2^e-1)/2^e*2^e) := by
  have hpow : 2^e &&& (2^e-1) = 0 := by
    rw [Nat.and_two_pow_sub_one_eq_mod,Nat.mod_self]
  rw [roundUp,roundDown,if_pos ⟨hpow,(Nat.two_pow_pos e).ne'⟩,ldiff_two_pow_sub_one]

lemma roundUp_spec : ∃ y, roundUp x (2^e) = some y ∧ x ≤ y := by
  refine ⟨_,roundUp_eq x e,?_⟩
  have h := Nat.div_add_mod' (x+2^e-1) (2^e)
  omega

lemma hexDigitToInt_intToHexDigit : ∀ i < 16, hexDigitToInt (intToHexDigit i) = some i := by
  decide

lemma isDecimalDigit_intToHexDigit : ∀ i < 10, isDecimalDigit (intToHexDigit i) = true := by
  decide

lemma isDecimalDigit_iff (c : Char) :
    isDecimalDigit c = true ↔ '0'.toNat ≤ c.toNat ∧ c.toNat ≤ '9'.toNat := by
  rw [isDecimalDigit,Bool.and_eq_true,decide_eq_true_iff,decide_eq_true_iff]
  rfl

lemma hexDigitToInt_lt {c : Char} {i : ℕ} (h : hexDigitToInt c = some i) : i < 16 := by
  have hle : ∀ x y : Char, x ≤ y ↔ x.toNat ≤ y.toNat := fun _ _ => Iff.rfl
  unfold hexDigitToInt at h
  simp only [isDecimalDigit_iff,hle,Char.reduceToNat] at h
  split_ifs at h <;> simp only [Option.some.injEq] at h <;> omega

section Bitwise
variable {x y : ℤ} {b : ℕ}

lemma ldiff_lt_two_pow {m : ℕ} (h : m < 2^b) (n : ℕ) : m.ldiff n < 2^b := by
  refine Nat.lt_pow_two_of_testBit _ fun i hi => ?_
  rw [Nat.testBit_ldiff,Nat.testBit_lt_two_pow (h.trans_le (Nat.pow_le_pow_right (by omega) hi)),
    Bool.false_and]

@[simp] lemma magnitude_ofNat (n : ℕ) : magnitude (Int.ofNat n) = n := by
  unfold magnitude
  rw [if_neg (Int.not_lt.2 (Int.natCast_nonneg n) : ¬ Int.ofNat n < 0)]
  rfl

@[simp] lemma magnitude_negSucc (n : ℕ) : magnitude (Int.negSucc n) = n := by
  unfold magnitude
  rw [if_pos (Int.negSucc_lt_zero n)]
  omega

variable (hx : magnitude x < 2^b) (hy : magnitude y < 2^b)
include hx hy

lemma magnitude_land_lt : magnitude (Int.land x y) < 2^b := by
  cases x <;> cases y <;> simp only [magnitude_ofNat,magnitude_negSucc] at hx hy
  · exact and_lt_two_pow _ hy
  · exact ldiff_lt_two_pow hx _
  · exact ldiff_lt_two_pow hy _
  · exact (magnitude_negSucc _).trans_lt (or_lt_two_pow hx hy)

lemma magnitude_lor_lt : magnitude (Int.lor x y) < 2^b := by
  cases x <;> cases y <;> simp only [magnitude_ofNat,magnitude_negSucc] at hx hy
  · exact or_lt_two_pow hx hy
  · exact (magnitude_negSucc _).trans_lt (ldiff_lt_two_pow hy _)
  · exact (magnitude_negSucc _).trans_lt (ldiff_lt_two_pow hx _)
  · exact (magnitude_negSucc _).trans_lt (and_lt_two_pow _ hy)

lemma magnitude_xor_lt : magnitude (Int.xor x y) < 2^b := by
  cases x <;> cases y <;> simp only [magnitude_ofNat,magnitude_negSucc] at hx hy
  · exact xor_lt_two_pow hx hy
  · exact (magnitude_negSucc _).trans_lt (xor_lt_two_pow hx hy)
  · exact (magnitude_negSucc _).trans_lt (xor_lt_two_pow hx hy)
  · exact xor_lt_two_pow hx hy

end Bitwise

end DartSdk.Utils
