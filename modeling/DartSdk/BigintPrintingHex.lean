import DartSdk.BigintPrinting

/-! Hexadecimal text is written from its end on. Its length is computed as an `int32_t`, and the
writer runs out of memory if it does not fit. -/
namespace DartSdk.Bigint

open Iteration Utils Numeral List Nat CharBuffer

section Digits
variable {digits : Uint32List}

lemma land_fifteen (n : ℕ) : n &&& 0xF = n%16 := and_two_pow_sub_one_eq_mod n 4

lemma shiftRight_hexDigit (n : ℕ) : n >>> kBitsPerHexDigit = n/16 := shiftRight_eq_div_pow n 4

lemma pushHexDigits_eq (n digit : ℕ) (b : CharBuffer) : pushHexDigits n digit b =
    ((fixed 16 n digit).map intToHexDigit).foldlM pushFront b := by
  induction n generalizing digit b with
  | zero => rfl
  | succ n ih =>
    rw [pushHexDigits,fixed,map_cons,foldlM_cons,land_fifteen,shiftRight_hexDigit]
    exact congrArg _ (funext fun b => ih (digit/16) b)

lemma countHexDigits_eq {fuel digit : ℕ} (h : digit < 16^fuel) :
    countHexDigits fuel digit = some (Nat.digits 16 digit).length := by
  induction fuel generalizing digit with
  | zero => rw [Nat.lt_one_iff.mp h]; rfl
  | succ fuel ih =>
    obtain _ | digit := digit
    · rfl
    · have hdiv : (digit+1)/16 < 16^fuel := Nat.div_lt_of_lt_mul (by rwa [← pow_succ'])
      rw [countHexDigits,shiftRight_hexDigit,ih hdiv,
        Nat.digits_def' (by norm_num) (Nat.succ_pos digit)]
      rfl

lemma pushTopHexDigits_eq {fuel digit : ℕ} (h : digit < 16^fuel) (b : CharBuffer) :
    pushTopHexDigits fuel digit b =
      ((Nat.digits 16 digit).map intToHexDigit).foldlM pushFront b := by
  induction fuel generalizing digit b with
  | zero => rw [Nat.lt_one_iff.mp h]; rfl
  | succ fuel ih =>
    obtain _ | digit := digit
    · rfl
    · have hdiv : (digit+1)/16 < 16^fuel := Nat.div_lt_of_lt_mul (by rwa [← pow_succ'])
      rw [pushTopHexDigits,shiftRight_hexDigit,land_fifteen,
        Nat.digits_def' (by norm_num) (Nat.succ_pos digit),map_cons,foldlM_cons]
      exact congrArg _ (funext fun b => ih hdiv b)

def lowHexDigits (digits : Uint32List) (n : ℕ) : List ℕ :=
  (List.range n).flatMap fun i => fixed 16 kHexDigitsPerDigit (digits.digit i)

lemma lowHexDigits_succ (n : ℕ) : lowHexDigits digits (n+1) =
    lowHexDigits digits n ++ fixed 16 kHexDigitsPerDigit (digits.digit n) := by
  simp [lowHexDigits,range_succ]

lemma lowHexDigits_spec (digits : Uint32List) (n : ℕ) :
    (lowHexDigits digits n).length = 8*n ∧ (∀ d ∈ lowHexDigits digits n, d < 16) ∧
      ofDigits 16 (lowHexDigits digits n) = digits.value n := by
  induction n with
  | zero => exact ⟨rfl,fun d hd => absurd hd not_mem_nil,rfl⟩
  | succ n ih =>
    obtain ⟨hlen,hlt,hval⟩ := ih
    have hdigit : digits.digit n < 16^kHexDigitsPerDigit := digits.digit_lt n
    rw [lowHexDigits_succ]
    refine ⟨?_,forall_mem_append.mpr ⟨hlt,fixed_lt (by norm_num) _ _⟩,?_⟩
    · rw [length_append,hlen,length_fixed]
      rfl
    · rw [ofDigits_append,hval,hlen,ofDigits_fixed hdigit,Uint32List.value_succ,mul_comm,pow_mul]
      rfl

lemma pushLowDigits_eq {n : ℕ} (h : n ≤ digits.length) (b : CharBuffer) :
    forUp 0 n b (pushLowDigit digits) =
      ((lowHexDigits digits n).map intToHexDigit).foldlM pushFront b := by
  induction n with
  | zero => rfl
  | succ n ih =>
    have hstep : ∀ t, pushLowDigit digits t (0+n) =
        ((fixed 16 kHexDigitsPerDigit (digits.digit n)).map intToHexDigit).foldlM
          pushFront t := by
      intro t
      rw [zero_add,pushLowDigit,Uint32List.read_eq (by omega),some_bind,
        Int.toNat_natCast,pushHexDigits_eq]
    have hprev := ih (by omega)
    rw [forUp,Nat.sub_zero] at hprev ⊢
    rw [range_succ,foldlM_append,hprev,lowHexDigits_succ,map_append,foldlM_append]
    exact congrArg _ (funext fun t => by rw [foldlM_cons,hstep]; simp)

lemma digits_magnitude {x : Bigint} (h : 0 < x.used) :
    lowHexDigits x.digits (x.used-1) ++ Nat.digits 16 (x.digits.digit (x.used-1)) =
      Nat.digits 16 x.magnitude := by
  obtain ⟨hlen,hlt,hval⟩ := lowHexDigits_spec x.digits (x.used-1)
  have htop := x.clamped h
  have hne : Nat.digits 16 _ ≠ [] := Nat.digits_ne_nil_iff_ne_zero.mpr htop
  have hmag : Nat.ofDigits 16 (lowHexDigits x.digits (x.used-1) ++
      Nat.digits 16 (x.digits.digit (x.used-1))) = x.magnitude := by
    rw [Nat.ofDigits_append,hval,hlen,Nat.ofDigits_digits,pow_mul,magnitude,
      (by omega : x.used = x.used-1+1),Uint32List.value_succ,Nat.mul_comm]
    rfl
  rw [← hmag,Nat.digits_ofDigits 16 (by norm_num)]
  · exact forall_mem_append.mpr ⟨hlt,fun d hd => digits_lt_base (by norm_num) hd⟩
  · intro hcat
    rw [getLast_append_of_ne_nil hcat hne]
    exact getLast_digit_ne_zero 16 htop

end Digits

section Text
variable (a : Arch) (x : Bigint)

/-- The characters of the hexadecimal text with its terminator, from the last one on. -/
def hexChars : List Char := '\x00' :: (hexText x.toInt).reverse

/-- The length that memory is requested for. -/
def hexSize : ℤ := (BitVec.ofNat 32 (hexChars x).length).toInt

lemma hexChars_eq (h : 0 < x.used) : hexChars x =
    '\x00' :: (lowHexDigits x.digits (x.used-1)).map intToHexDigit ++
      (Nat.digits 16 (x.digits.digit (x.used-1))).map intToHexDigit ++ ['x', '0'] ++ sign x.neg := by
  have hne : x.magnitude ≠ 0 := fun hz => h.ne' ((used_eq_zero_iff x).mpr hz)
  rw [hexChars,hexText_toInt,numeral,Numeral.digits,if_neg hne,reverse_append,
    reverse_cons,reverse_cons,← map_reverse,reverse_reverse,reverse_sign,
    ← digits_magnitude h]
  simp

lemma pushFrontSign_eq (neg : Bool) (b : CharBuffer) :
    pushFrontSign neg b = (sign neg).foldlM pushFront b := by
  cases neg with
  | false => rfl
  | true => simp [pushFrontSign,sign]

lemma toHexCString_eq (h : 0 < x.used) (hmax : x.used ≤ (kIntptrMax a-4)/kHexDigitsPerDigit) :
    toHexCString a x = (do
      let chars ← allocate a (hexSize x)
      let b ← (hexChars x).foldlM pushFront ⟨chars,(hexSize x).toNat⟩
      if b.pos = 0 then some (cString b.chars) else none) := by
  have hused := x.used_le_length
  have htop : x.digits.digit (x.used-1) < 16^kHexDigitsPerDigit := x.digits.digit_lt _
  have hlength : (if x.neg = true then 1 else 0)+2+((x.used-1)*kHexDigitsPerDigit +
      (Nat.digits 16 (x.digits.digit (x.used-1))).length)+1 = (hexChars x).length := by
    have hlow := (lowHexDigits_spec x.digits (x.used-1)).1
    have hk : kHexDigitsPerDigit = 8 := rfl
    rw [hexChars_eq x h,← length_sign,hk]
    simp only [length_append,length_cons,length_nil,length_map]
    omega
  unfold toHexCString
  rw [if_neg h.ne',if_neg (not_lt.mpr hmax),Uint32List.read_eq (by omega)]
  simp only [some_bind,Int.toNat_natCast,countHexDigits_eq htop,hlength,
    pushLowDigits_eq (by omega : x.used-1 ≤ x.digits.length),pushTopHexDigits_eq htop,
    pushFrontSign_eq]
  rw [← hexSize,hexChars_eq x h]
  simp [foldlM_append,foldlM_cons,Option.bind_eq_bind,Option.bind_assoc,Option.pure_def]

/-- The integers whose hexadecimal text has a length that fits into an `int32_t` and into a zone. -/
def HexFits : Prop :=
  (hexText x.toInt).length+1 < 2^31 ∧ (hexText x.toInt).length+1+8 ≤ kIntptrMax a

variable {a} {x}

lemma length_hexChars : (hexChars x).length = (hexText x.toInt).length+1 := by
  rw [hexChars,length_cons,length_reverse]

lemma hexSize_of_lt (h : (hexText x.toInt).length+1 < 2^31) :
    hexSize x = ((hexText x.toInt).length+1 : ℕ) := by
  rw [hexSize,length_hexChars,BitVec.toInt_eq_toNat_cond,BitVec.toNat_ofNat]
  omega

lemma hexSize_lt (h : ¬ (hexText x.toInt).length+1 < 2^31) :
    hexSize x < ((hexText x.toInt).length+1 : ℕ) := by
  rw [hexSize,length_hexChars,BitVec.toInt_eq_toNat_cond,BitVec.toNat_ofNat]
  split_ifs <;> omega

lemma zero_not_mem_hexText : '\x00' ∉ hexText x.toInt := by
  rw [hexText,mem_append,mem_cons,mem_cons]
  have hsign := zero_not_mem_sign (decide (x.toInt < 0))
  have hnumeral : '\x00' ∉ numeral 16 x.toInt.natAbs := zero_not_mem_numeral (by norm_num)
  rintro (h | h | h | h)
  · exact hsign h
  · exact absurd h (by decide)
  · exact absurd h (by decide)
  · exact hnumeral h

lemma HexFits.kMaxUsed (h : HexFits a x) (hused : 0 < x.used) :
    x.used ≤ (kIntptrMax a-4)/kHexDigitsPerDigit := by
  have hlow := (lowHexDigits_spec x.digits (x.used-1)).1
  have hlength := length_hexChars (x := x)
  rw [hexChars_eq x hused] at hlength
  simp only [length_append,length_cons,length_map] at hlength
  have htop : 0 < (Nat.digits 16 (x.digits.digit (x.used-1))).length :=
    length_pos_iff.mpr (Nat.digits_ne_nil_iff_ne_zero.mpr (x.clamped hused))
  have hk : kHexDigitsPerDigit = 8 := rfl
  have h8 := h.2
  rw [hk]
  omega

lemma toHexCString_spec (h : HexFits a x) : toHexCString a x = some (hexText x.toInt) := by
  rcases Nat.eq_zero_or_pos x.used with hzero | hpos
  · rw [toHexCString,if_pos hzero,hexText_toInt,(used_eq_zero_iff x).mp hzero,x.zero_nonneg hzero]
    rfl
  have hsize := hexSize_of_lt h.1
  have halloc := allocate_eq a (by have := h.2; omega :
    (((hexText x.toInt).length+1 : ℕ) : ℤ) ≤ kIntptrMax a-8)
  set n := (hexText x.toInt).length+1 with hn
  have hle : n ≤ (n+7)/8*8 := by omega
  have hsplit : replicate ((n+7)/8*8) '\x00' =
      replicate n '\x00' ++ replicate ((n+7)/8*8-n) '\x00' := by
    rw [replicate_append_replicate,Nat.add_sub_cancel' hle]
  have hrun := foldlM_pushFront (hexChars x) (replicate n '\x00')
    (replicate ((n+7)/8*8-n) '\x00')
  rw [length_replicate,length_hexChars,← hn,if_pos le_rfl,Nat.sub_self,take_zero,
    nil_append,← hsplit] at hrun
  rw [toHexCString_eq a x hpos (h.kMaxUsed hpos),hsize,halloc,some_bind,
    Int.toNat_natCast,hrun,some_bind,if_pos rfl,hexChars,reverse_cons,
    reverse_reverse,append_assoc,singleton_append,
    cString_eq zero_not_mem_hexText]

lemma foldlM_pushFront_short {n k : ℕ} {cs : List Char} (hle : n ≤ k) (h : n < cs.length) :
    cs.foldlM pushFront ⟨replicate k '\x00',n⟩ = none := by
  have hsplit : replicate k '\x00' = replicate n '\x00' ++ replicate (k-n) '\x00' := by
    rw [replicate_append_replicate,Nat.add_sub_cancel' hle]
  have hrun := foldlM_pushFront cs (replicate n '\x00') (replicate (k-n) '\x00')
  rwa [length_replicate,if_neg (not_le.mpr h),← hsplit] at hrun

lemma toHexCString_overflow (h : ¬ HexFits a x) : toHexCString a x = none := by
  rcases Nat.eq_zero_or_pos x.used with hzero | hpos
  · refine absurd ⟨?_,?_⟩ h <;>
      rw [hexText_toInt,(used_eq_zero_iff x).mp hzero,x.zero_nonneg hzero]
    · decide
    · cases a <;> decide
  by_cases hmax : x.used ≤ (kIntptrMax a-4)/kHexDigitsPerDigit
  · rw [toHexCString_eq a x hpos hmax]
    by_cases hfail : hexSize x < 0 ∨ hexSize x > kIntptrMax a-8
    · rw [allocate,if_pos hfail]
      rfl
    · obtain ⟨n,hn⟩ := Int.eq_ofNat_of_zero_le (not_lt.mp (not_or.mp hfail).1)
      have hlt : n < (hexChars x).length := by
        rw [length_hexChars]
        by_cases h31 : (hexText x.toInt).length+1 < 2^31
        · -- The length fits into an `int32_t`, so it is too large for the zone.
          have hsize := hexSize_of_lt h31
          refine absurd ⟨h31,?_⟩ h
          omega
        · have hsize := hexSize_lt h31
          omega
      rw [hn] at hfail ⊢
      rw [allocate_eq a (by omega),some_bind,Int.toNat_natCast,
        foldlM_pushFront_short (by omega) hlt]
      rfl
  · rw [toHexCString,if_neg hpos.ne',if_pos (not_le.mp hmax)]

end Text

end DartSdk.Bigint
