import DartSdk.IntegersExact

/-! The number of bits of the value and the shift count bound the result. For a `Mint` this test is
also made before a right shift, where it does not bound the count. -/
namespace DartSdk.Integers

open Utils Iteration Nat Uint32List

section Machine
variable {w : ℕ} {x : ℤ} {n b : ℕ}

lemma shiftLeft_eq (hn : n < w) (h : isInt w (x*2^n)) : shiftLeft w x n = some (x*2^n) := by
  unfold shiftLeft
  rw [if_pos (by omega),Int.toNat_natCast,wrap_eq (by omega) h]

lemma shiftRight_eq (hn : n < w) : shiftRight w x n = some (x/2^n) := by
  unfold shiftRight
  rw [if_pos (by omega),Int.toNat_natCast,Int.shiftRight_eq_div_pow]
  norm_cast

variable (h : -2^b ≤ x ∧ x < 2^b)
include h

lemma mul_two_pow_bounds (n : ℕ) : -2^(b+n) ≤ x*2^n ∧ x*2^n < 2^(b+n) := by
  have hpos : (0 : ℤ) < 2^n := by positivity
  rw [pow_add]
  exact ⟨by nlinarith [h.1],by nlinarith [h.2]⟩

lemma ediv_bounds (n : ℕ) : -2^b ≤ x/2^n ∧ x/2^n < 2^b := by
  have hpos : (0 : ℤ) < 2^n := by positivity
  rw [Int.le_ediv_iff_mul_le hpos,Int.ediv_lt_iff_lt_mul hpos]
  constructor <;> nlinarith

lemma bounds_mono {c : ℕ} (hc : b ≤ c) : -2^c ≤ x ∧ x < 2^c := by
  have hle : (2 : ℤ)^b ≤ 2^c := pow_le_pow_right₀ (by norm_num) hc
  omega

lemma ediv_two_pow_of_le (hn : b ≤ n) : x/2^n = if x < 0 then -1 else 0 := by
  have hle : (2 : ℤ)^b ≤ 2^n := pow_le_pow_right₀ (by norm_num) hn
  split_ifs with hneg
  · rw [Int.ediv_eq_iff_of_pos (by positivity)]
    constructor <;> linarith
  · exact Int.ediv_eq_zero_of_lt (by omega) (by omega)

end Machine

/-- The three digits of `v` times a power of two that is less than a digit. -/
lemma three_digits {v : ℕ} (hv : v < 2^64) {s : ℕ} (hs : s < 32) :
    v*2^s%2^64%2^32+v/2^(32-s)%2^32*2^32 +
      (if s = 0 then 0 else v/2^(64-s)%2^32)*(2^32*2^32) = v*2^s := by
  have hlt : v*2^s < 2^64*2^32 :=
    Nat.mul_lt_mul'' hv (Nat.pow_lt_pow_right (by norm_num) hs)
  have h1 : v/2^(32-s) = v*2^s/2^32 := by
    rw [← Nat.mul_div_mul_right v (2^(32-s)) (Nat.two_pow_pos s),← pow_add,
      Nat.sub_add_cancel hs.le]
  have h2 : (if s = 0 then 0 else v/2^(64-s)%2^32) = v*2^s/2^64 := by
    split_ifs with h0
    · rw [h0,pow_zero,Nat.mul_one,Nat.div_eq_of_lt hv]
    · rw [← Nat.mul_div_mul_right v (2^(64-s)) (Nat.two_pow_pos s),← pow_add,
        Nat.sub_add_cancel (by omega)]
      omega
  rw [h1,h2]
  omega

lemma write_mod_spec (xs : Uint32List) {i : ℕ} (v : ℕ) (h : i < xs.length) :
    ∃ ys, xs.write i v = some ys ∧ ys.length = xs.length ∧ ys.digit i = v%2^32 ∧
      ∀ k, k ≠ i → ys.digit k = xs.digit k := by
  obtain ⟨ys,hys,hlen,hdig,hother⟩ := write_spec h
  exact ⟨ys,hys,hlen,by exact_mod_cast hdig,hother⟩

lemma highBits_spec (v : ℕ) {s : ℕ} (hs : s < 32) :
    ∃ d, highBits v s = some d ∧ d%2^32 = if s = 0 then 0 else v/2^(64-s)%2^32 := by
  unfold highBits shiftRightUnsigned
  split_ifs with h0 h64
  · exact ⟨0,rfl,rfl⟩
  · exact ⟨_,rfl,rfl⟩
  · omega

lemma newFromShiftedInt64_spec {value : ℤ} (hv : IsInt64 value) (shift : ℕ) :
    ∃ b, newFromShiftedInt64 value shift = some b ∧ b.toInt = value*2^shift := by
  have hs : shift%32 < 32 := mod_lt _ (by norm_num)
  set ds := shift/32 with hds
  set bs := shift%32 with hbs
  have habs : ((if decide (value < 0) = true then -value else value)%2^64).toNat =
      value.natAbs := by
    unfold IsInt64 kMinInt64 kMaxInt64 at hv
    split_ifs with h <;> simp only [decide_eq_true_eq] at h <;> omega
  have hlt : value.natAbs < 2^64 := by
    unfold IsInt64 kMinInt64 kMaxInt64 at hv
    omega
  obtain ⟨r₀,hr₀,h₀⟩ := forUp_fill (f := fun d i => d.write i 0)
    (o := Uint32List.new (3+ds+1)) (fun _ => 0) (fun _ => by norm_num) (zero_le ds) le_rfl
    (by rw [length_new]; omega) fun _ _ _ _ _ => rfl
  have hl₀ := h₀.length
  rw [length_new] at hl₀
  obtain ⟨d₂,hd₂,hm₂⟩ := highBits_spec value.natAbs hs
  obtain ⟨r₁,hr₁,hl₁,hv₁,ho₁⟩ := write_mod_spec r₀ (value.natAbs*2^bs%2^64)
    (by omega : 0+ds < r₀.length)
  obtain ⟨r₂,hr₂,hl₂,hv₂,ho₂⟩ := write_mod_spec r₁ (value.natAbs/2^(32-bs))
    (by omega : 1+ds < r₁.length)
  obtain ⟨r₃,hr₃,hl₃,hv₃,ho₃⟩ := write_mod_spec r₂ d₂ (by omega : 2+ds < r₂.length)
  obtain ⟨b,hb, -,hbv⟩ := Bigint.new_spec (decide (value < 0)) (3+ds) r₃ (by omega)
  have hval : r₃.value (3+ds) = value.natAbs*2^shift := by
    have hlow : r₃.value ds = 0 := Positional.value_eq_zero fun k hk => by
      rw [ho₃ k (by omega),ho₂ k (by omega),ho₁ k (by omega),h₀.inside (by omega)]
    have h0 : r₃.digit ds = value.natAbs*2^bs%2^64%2^32 := by
      rw [ho₃ ds (by omega),ho₂ ds (by omega),← hv₁,zero_add]
    have h1 : r₃.digit (ds+1) = value.natAbs/2^(32-bs)%2^32 := by
      rw [ho₃ _ (by omega),← hv₂,add_comm]
    have h2 : r₃.digit (ds+2) = if bs = 0 then 0 else value.natAbs/2^(64-bs)%2^32 := by
      rw [← hm₂,← hv₃,add_comm]
    have hpow : 2^shift = 2^bs*digitBase^ds := by
      rw [← pow_mul,← pow_add,add_comm,div_add_mod]
    rw [add_comm,value_succ,value_succ,value_succ,hlow,h0,h1,h2,pow_succ,pow_succ]
    conv_rhs => rw [hpow,← mul_assoc,← three_digits hlt hs]
    ring_nf
  refine ⟨b,?_,?_⟩
  · unfold newFromShiftedInt64
    simp only [habs,← hds,← hbs,hr₀,some_bind,shiftLeftUnsigned,
      shiftRightUnsigned,if_pos (by omega : bs < 64),if_pos (by omega : 32-bs < 64),hr₁,hr₂,
      hd₂,hr₃,hb]
  · rw [hbv,hval,Bigint.withSign]
    push_cast
    split_ifs with h <;> simp only [decide_eq_true_eq] at h
    · rw [abs_of_neg h]
      ring
    · rw [abs_of_nonneg (by omega)]

section Shifts
variable {a : Arch} (value : ℤ)

def ShiftKind.exact (n : ℕ) : ShiftKind → ℤ
  | .shl => value*2^n
  | .shr => value/2^n

lemma checkedSmi_spec {result : ℤ} (h : SmiIsValid a result) :
    ∃ z : Integer a, checkedSmi result = some z ∧ z.toInt = result :=
  ⟨.smi result h,dif_pos h,rfl⟩

lemma smiIsValid_iff {x : ℤ} : SmiIsValid a x ↔ -2^kSmiBits a ≤ x ∧ x < 2^kSmiBits a := by
  unfold SmiIsValid
  omega

lemma kSmiBits_lt (a : Arch) : kSmiBits a < kBitsPerWord a ∧ kBitsPerWord a ≤ 64 := by
  cases a <;> decide

lemma shiftOp_spec (kind : ShiftKind) {left : ℤ} (valid : SmiIsValid a left) (n : ℕ) :
    ∃ z, shiftOp left valid n kind = some z ∧ z.toInt = kind.exact left n := by
  have hbits := smiIsValid_iff.mp valid
  obtain ⟨hlt,hle⟩ := kSmiBits_lt a
  cases kind with
  | shl =>
    unfold shiftOp ShiftKind.exact
    have hcnt := (bitLength_le_iff valid.isInt64).mp le_rfl
    have hmul := mul_two_pow_bounds hcnt n
    by_cases h0 : left = 0 ∨ (n : ℤ) = 0
    · refine ⟨_,if_pos h0,?_⟩
      rcases h0 with h0 | h0
      · simp [Integer.toInt,h0]
      · obtain rfl : n = 0 := by omega
        simp [Integer.toInt]
    simp only [if_neg h0]
    by_cases hsmi : ((bitLength left : ℕ) : ℤ)+n > kSmiBits a
    · rw [if_pos hsmi]
      by_cases hmint : ((bitLength left : ℕ) : ℤ)+n > kMintBits
      · obtain ⟨b,hb,hbv⟩ := newFromShiftedInt64_spec valid.isInt64 n
        exact ⟨.bigint b,by rw [if_pos hmint,Int.toNat_natCast,hb]; rfl,hbv⟩
      · have hk : kMintBits = 63 := rfl
        have hfit : IsInt64 (left*2^n) := by
          have h := bounds_mono hmul (by omega : bitLength left+n ≤ 63)
          unfold IsInt64 kMinInt64 kMaxInt64
          omega
        have hshift := shiftLeft_eq
          (by omega) (isInt_sixtyFour.mpr hfit)
        exact ⟨new a (left*2^n),by rw [if_neg hmint,hshift]; rfl,(new_spec hfit).1⟩
    · rw [if_neg hsmi]
      have hfit : SmiIsValid a (left*2^n) :=
        smiIsValid_iff.mpr (bounds_mono hmul (by omega))
      rw [shiftLeft_eq (by omega) hfit.isInt]
      exact checkedSmi_spec hfit
  | shr =>
    unfold shiftOp ShiftKind.exact
    have hvalid : SmiIsValid a (left/2^n) := smiIsValid_iff.mpr (ediv_bounds hbits n)
    by_cases hn : (n : ℤ) ≥ kBitsPerWord a
    · have hclamp : left/2^(kBitsPerWord a-1) = left/2^n := by
        rw [ediv_two_pow_of_le hbits (by omega),ediv_two_pow_of_le hbits (by omega)]
      have hcount : (kBitsPerWord a : ℤ)-1 = ((kBitsPerWord a-1 : ℕ) : ℤ) := by omega
      simp only [if_pos hn,hcount]
      rw [shiftRight_eq (by omega),hclamp]
      exact checkedSmi_spec hvalid
    · simp only [if_neg hn]
      rw [shiftRight_eq (by omega)]
      exact checkedSmi_spec hvalid

/-- A native shift returns the exact result or `null`. -/
def ShiftExact (kind : ShiftKind) (value : Integer a) (n : ℕ) : Prop :=
  (∃ z, shiftOperationHelper kind value n = some (.value z) ∧ z.toInt = kind.exact value.toInt n) ∨
    shiftOperationHelper kind value n = some .null

lemma highestBit_le {value : ℤ} (h : IsInt64 value) : highestBit value.natAbs ≤ 63 := by
  unfold IsInt64 kMinInt64 kMaxInt64 at h
  by_cases h0 : value.natAbs = 0
  · rw [h0]
    decide
  · rw [highestBit_eq_log2 h0 (by omega),← Nat.lt_succ_iff,Nat.log2_lt h0]
    omega

lemma mint_shl (valid : IsInt64 value) (n : ℕ) :
    ShiftExact .shl (.mint value valid : Integer a) n := by
  unfold ShiftExact shiftOperationHelper ShiftKind.exact
  simp only [if_neg (by omega : ¬ (n : ℤ) < 0)]
  have hk : kMintBits = 63 := rfl
  by_cases hfit : ((highestBit value.natAbs : ℕ) : ℤ)+n < kMintBits
  · have hmag := natAbs_lt_highestBit valid
    have hbounds : -2^(highestBit value.natAbs+1) ≤ value ∧
        value < 2^(highestBit value.natAbs+1) := by
      zify at hmag
      exact ⟨(abs_lt.mp hmag).1.le,(abs_lt.mp hmag).2⟩
    have hprod : IsInt64 (value*2^n) := by
      have h := bounds_mono (mul_two_pow_bounds hbounds n)
        (by omega : highestBit value.natAbs+1+n ≤ 63)
      unfold IsInt64 kMinInt64 kMaxInt64
      omega
    refine Or.inl ⟨new a (value*2^n),?_,(new_spec hprod).1⟩
    rw [if_pos hfit,shiftLeft_eq (by omega) (isInt_sixtyFour.mpr hprod),Option.map_some]
  · exact Or.inr (if_neg hfit)

lemma mint_shr (valid : IsInt64 value) (n : ℕ) :
    ShiftExact .shr (.mint value valid : Integer a) n ↔ n < 64 := by
  unfold ShiftExact shiftOperationHelper ShiftKind.exact
  simp only [if_neg (by omega : ¬ (n : ℤ) < 0),neg_neg]
  by_cases hn : n < 64
  · refine iff_of_true ?_ hn
    by_cases htest : ((highestBit value.natAbs : ℕ) : ℤ) + -(n : ℤ) < kMintBits
    · have hquot : IsInt64 (value/2^n) := by
        unfold IsInt64 kMinInt64 kMaxInt64 at *
        have h := ediv_bounds ⟨valid.1,by omega⟩ n
        omega
      refine Or.inl ⟨new a (value/2^n),?_,(new_spec hquot).1⟩
      rw [if_pos htest,shiftRight_eq hn,Option.map_some]
    · exact Or.inr (if_neg htest)
  · have hcount := highestBit_le valid
    have hnone : shiftRight 64 value n = none := if_neg (by omega)
    rw [if_pos (by omega),hnone]
    simp [hn]

end Shifts

/-- Native shifts are exact or deferred and their machine shifts have a count below the width,
unless a `Mint` is shifted right by 64 or more. -/
theorem shift_exact_iff {a : Arch} (kind : ShiftKind) (value : Integer a) (n : ℕ)
    (hv : value.isBigint = false) :
    ShiftExact kind value n ↔ ¬ (value.isMint = true ∧ kind = .shr ∧ 64 ≤ n) := by
  cases value with
  | bigint value => simp [Integer.isBigint] at hv
  | smi value valid =>
    obtain ⟨z,hz,hzv⟩ := shiftOp_spec kind valid n
    refine iff_of_true (Or.inl ⟨z,?_,hzv⟩) (by simp [Integer.isMint])
    simp [shiftOperationHelper,if_neg (by omega : ¬ (n : ℤ) < 0),hz,Option.map_some]
  | mint value valid =>
    cases kind with
    | shl => exact iff_of_true (mint_shl value valid n) (by simp)
    | shr =>
      rw [mint_shr]
      simp [Integer.isMint]

theorem shift_exact_mint : ShiftExact .shr (.mint (-2^62-1) (by decide) : Integer .bits64) 63 :=
  (shift_exact_iff .shr (.mint (-2^62-1) (by decide)) 63 rfl).mpr (by simp)

/-- Shifting a `Mint` right by 64 executes a machine shift by 64. -/
theorem shift_mint_by_width :
    shiftOperationHelper .shr (.mint (2^62) (by decide) : Integer .bits64) 64 = none ∧
      ¬ ShiftExact .shr (.mint (2^62) (by decide) : Integer .bits64) 64 :=
  ⟨rfl,fun h => absurd ((mint_shr _ _ _).mp h) (by decide)⟩

end DartSdk.Integers
