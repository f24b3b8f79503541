import DartSdk.BigintDivision

/-! Division is exact. An estimated quotient digit is never too small, and the digit above the
remainder shows when it is too large. -/
namespace DartSdk.Bigint

open Iteration Utils Nat Uint32List

lemma nbits_eq {x : ℕ} (h0 : x ≠ 0) (hx : x < 2^32) : nbits x = x.log2+1 := by
  have hstep : ∀ (k : ℕ) (s : ℕ × ℕ), highestBitStep k (s.1,s.2+1) =
      ((highestBitStep k s).1,(highestBitStep k s).2+1) := by
    intro k s
    unfold highestBitStep
    split_ifs
    · simp [add_right_comm]
    · rfl
  have hfold : [16,8,4,2].foldl (fun s k => highestBitStep k s) (x,0+1) =
      (([16,8,4,2].foldl (fun s k => highestBitStep k s) (x,0)).1,
        ([16,8,4,2].foldl (fun s k => highestBitStep k s) (x,0)).2+1) := by
    simp [List.foldl_cons,List.foldl_nil,hstep 16 (x,0),hstep]
  have hfirst : highestBitStep 32 (x,0) = (x,0) := by
    unfold highestBitStep
    rw [if_neg]
    rw [not_not,shiftRight_eq_div_pow]
    exact div_eq_of_lt hx
  have hlog := highestBit_eq_log2 h0 (hx.trans (by norm_num))
  unfold highestBit at hlog
  rw [List.foldl_cons,hfirst] at hlog
  unfold nbits
  rw [hfold,← hlog]
  generalize [16,8,4,2].foldl (fun s k => highestBitStep k s) (x,0) = s
  simp only
  split_ifs <;> omega

lemma digit_eq_div (xs : Uint32List) (i : ℕ) : xs.digit i = xs.value (i+1)/digitBase^i := by
  rw [value_succ,add_mul_div_right _ _ (by positivity),div_eq_of_lt (xs.value_lt i),zero_add]

lemma top_le_value (xs : Uint32List) {n : ℕ} (hn : 0 < n) :
    xs.digit (n-1)*digitBase^(n-1) ≤ xs.value n := by
  obtain ⟨n,rfl⟩ := exists_fuel n
  rw [value_succ,Nat.add_sub_cancel]
  exact Nat.le_add_left _ _

lemma cloneDigits_spec {digits : Uint32List} {lo hi length : ℕ} (hhi : hi ≤ digits.length)
    (hlen : hi-lo ≤ length) : ∃ r, cloneDigits digits lo hi length = some r ∧ r.length =
      length+length%2 ∧ ∀ k < hi-lo, r.digit k = digits.digit (lo+k) := by
  obtain ⟨r,hr,h⟩ := forUp_fill (f := fun r i => do r.write i (← digits.read (lo+i)))
    (o := Uint32List.new (length+length%2)) (fun k => digits.digit (lo+k)) (fun _ => digit_lt _ _)
    (zero_le (hi-lo)) le_rfl (by rw [length_new]; omega) fun i r _ hi' _ => by
      rw [read_eq (by omega)]
      rfl
  exact ⟨r,hr,h.length.trans (length_new _),fun k hk => h.inside ⟨zero_le k,hk⟩⟩

lemma cloneDigits_value {digits : Uint32List} {lo hi : ℕ} {r : Uint32List}
    (h : ∀ k < hi-lo, r.digit k = digits.digit (lo+k)) :
    r.value (hi-lo) = digits.slice lo (hi-lo) :=
  Positional.value_congr fun k hk => h k hk

/-- The estimate is at least every digit whose multiple of the top digit of the divisor is covered
by the two top digits of the dividend. -/
lemma estQuotientDigit_spec {args digits : Uint32List} {i : ℕ} (hargs : 3 ≤ args.length)
    (hi : 1 ≤ i) (hlen : i < digits.length) (hyt : 2 ≤ args.digit 1) : ∃ args',
      estQuotientDigit args digits i = some args' ∧ args'.length = args.length ∧ args'.digit 1 =
      args.digit 1 ∧ ∀ q < 2^32, q*args.digit 1 ≤
      digits.digit i*2^32+digits.digit (i-1) → q ≤ args'.digit 2 := by
  have hd := digits.digit_lt i
  have hd' := digits.digit_lt (i-1)
  have hput : ∀ v < 2^32, ∃ args', args.write 2 ((v : ℕ) : ℤ) = some args' ∧
      args'.length = args.length ∧ args'.digit 1 = args.digit 1 ∧ args'.digit 2 = v := by
    intro v hv
    obtain ⟨args',h,hl,hdig,hother⟩ := write_digit_spec args (i := 2)
      (by omega) hv
    exact ⟨args',h,hl,hother 1 (by omega),hdig⟩
  have hmask : ((digitBase : ℤ)-1) = ((2^32-1 : ℕ) : ℤ) := by norm_num
  obtain ⟨am,ham,hlm,htm,hdm⟩ := hput (2^32-1) (by norm_num)
  unfold estQuotientDigit
  rw [read_eq hlen,read_eq (by omega),hmask]
  simp only [some_bind]
  by_cases heq : (digits.digit i : ℤ) = args.digit 1
  · refine ⟨am,by rw [if_pos heq,ham],hlm,htm,fun q hq _ => ?_⟩
    rw [hdm]
    omega
  · have hhalf : ((args.digit 1 : ℕ) : ℤ) >>> (1 : ℕ) = ((args.digit 1/2 : ℕ) : ℤ) :=
      shiftRight_natCast _ 1
    have hshl : shl64 (digits.digit i) 31 = some ((digits.digit i : ℤ) <<< (31 : ℕ)) := by
      refine int64_eq ?_
      rw [Int.shiftLeft_eq]
      exact isInt64_of_abs_lt (by omega) (by omega)
    have hlor : Int.lor ((digits.digit i : ℤ) <<< (31 : ℕ))
        (((digits.digit (i-1) : ℕ) : ℤ) >>> (1 : ℕ)) =
        ((digits.digit i*2^31+digits.digit (i-1)/2 : ℕ) : ℤ) := by
      rw [shiftRight_natCast,pow_one,lor_shiftLeft (by omega)]
    rw [if_neg heq,if_neg (by rw [hhalf]; omega),hshl,some_bind,
      read_eq (by omega),some_bind,hlor,hhalf,← Int.ofNat_tdiv]
    -- Chopping off the lowest bit of both operands does not make the quotient smaller.
    have hest : ∀ q, q*args.digit 1 ≤ digits.digit i*2^32+digits.digit (i-1) →
        q ≤ (digits.digit i*2^31+digits.digit (i-1)/2)/(args.digit 1/2) := by
      intro q hq
      rw [le_div_iff_mul_le (by omega)]
      have h1 : q*(args.digit 1/2)*2 ≤ q*args.digit 1 := by
        rw [mul_assoc]
        exact mul_le_mul_left _ (div_mul_le_self _ _)
      omega
    generalize (digits.digit i*2^31+digits.digit (i-1)/2)/(args.digit 1/2) = e at hest
    by_cases hbig : ((2^32-1 : ℕ) : ℤ) < (e : ℤ)
    · refine ⟨am,by rw [if_pos hbig,ham],hlm,htm,fun q hq _ => ?_⟩
      rw [hdm]
      omega
    · obtain ⟨ae,hae,hle,hte,hde⟩ := hput e (by omega)
      exact ⟨ae,by rw [if_neg hbig,hae],hle,hte,fun q _ h => by rw [hde]; exact hest q h⟩

/-- Subtraction of a number that is covered by the first `N` digits leaves the digits above
unchanged. -/
lemma absSub_low {t o : Uint32List} {N used tUsed : ℕ} (htN : tUsed ≤ N) (hN : N ≤ used)
    (ht : tUsed ≤ t.length) (hr : used ≤ o.length) (hval : t.value tUsed ≤ o.value N) :
    ∃ r, absSub .result used t tUsed o = some r ∧ r.length = o.length ∧
      r.value N = o.value N-t.value tUsed ∧ ∀ k, N ≤ k → r.digit k = o.digit k := by
  obtain ⟨r,hr',hlen,hsub,hrest⟩ := absSub_spec (x := .result) (htN.trans hN) hr ht hr
    (hval.trans (Positional.value_mono hN))
  have hsub : r.value used = o.value used-t.value tUsed := hsub
  obtain ⟨m,rfl⟩ := Nat.exists_eq_add_of_le hN
  have hlt := r.value_lt N
  have hlt₀ := o.value_lt N
  rw [value_add,value_add] at hsub
  have heq : r.value N+digitBase^N*r.slice N m =
      (o.value N-t.value tUsed)+digitBase^N*o.slice N m := by omega
  have hlow : r.value N = o.value N-t.value tUsed := by
    have h := congrArg (·%digitBase^N) heq
    have hlt' : o.value N-t.value tUsed < digitBase^N := by omega
    simpa [mod_eq_of_lt hlt,mod_eq_of_lt hlt'] using h
  refine ⟨r,hr',hlen,hlow,fun k hk => ?_⟩
  by_cases hkm : k < N+m
  · have hslice : r.slice N m = o.slice N m := by
      rw [hlow] at heq
      exact Nat.eq_of_mul_eq_mul_left (by positivity) (Nat.add_left_cancel heq)
    have h := Positional.value_injective (fun k _ => r.digit_lt (N+k))
      (fun k _ => o.digit_lt (N+k)) hslice (k-N) (by omega)
    rwa [Nat.add_sub_cancel' hk] at h
  · exact hrest k (by omega)

section QuotientDigit
variable {L Y P v e : ℕ}

/-- With `e` times the divisor subtracted and `e` written above the remainder, the digit above the
remainder is below `e` exactly if `e` is too large. -/
lemma div_lt_iff_too_large (hY : 0 < Y) (hP : 0 < P) (h : v+e*Y = L+e*P) : v/P < e ↔ L/Y < e := by
  rw [div_lt_iff_lt_mul hP,div_lt_iff_lt_mul hY]
  omega

lemma take_back (hYP : Y ≤ P) (he : 0 < e) (h : v+e*Y = L+e*P) :
    P-Y ≤ v ∧ v-(P-Y)+(e-1)*Y = L+(e-1)*P := by
  obtain ⟨p,rfl⟩ := exists_fuel e
  have hle : p*Y ≤ p*P := mul_le_mul_left p hYP
  rw [Nat.add_mul,Nat.add_mul,Nat.one_mul,Nat.one_mul] at h
  rw [Nat.add_sub_cancel]
  omega

end QuotientDigit

section Loop
variable {ny t : Uint32List} {i W tUsed Y L : ℕ}

lemma correct_spec (hY : 0 < Y) (hYP : Y ≤ digitBase^i) (htN : tUsed ≤ i+1) (hW : i+1 ≤ W)
    (ht : tUsed ≤ t.length) (htv : t.value tUsed = digitBase^i-Y) (fuel : ℕ) :
    ∀ {a r : Uint32List} {e : ℕ}, 3 ≤ a.length → a.digit 2 = e+1 → L/Y ≤ e → e < fuel → W ≤
      r.length → r.value (i+1)+e*Y = L+e*digitBase^i → ∃ args' r', correct i W t tUsed fuel (a,r) =
      some (args',r') ∧ args'.length = a.length ∧ args'.digit 1 = a.digit 1 ∧ r'.length = r.length ∧
      r'.value (i+1)+L/Y*Y = L+L/Y*digitBase^i ∧ ∀ k, i+1 ≤ k → r'.digit k = r.digit k := by
  induction fuel with
  | zero =>
    intro args r e _ _ _ hf
    omega
  | succ fuel ih =>
    intro args r e hargs he hq hf hr hsum
    have helt := args.digit_lt 2
    obtain ⟨args₁,ha₁,hl₁,hd₁,ho₁⟩ := write_digit_spec args (i := 2) (v := e)
      (by omega) (by omega)
    have hdec : ((args.digit 2 : ℕ) : ℤ)-1 = (e : ℤ) := by omega
    have htoo := div_lt_iff_too_large hY (by positivity) hsum
    rw [← digit_eq_div] at htoo
    rw [correct,read_eq (by omega)]
    simp only [some_bind,hdec,ha₁,read_eq (by omega : i < r.length),cast_lt]
    by_cases hlt : r.digit i < e
    · obtain ⟨hle,hsum'⟩ := take_back hYP (by omega) hsum
      obtain ⟨r₁,hr₁,hlen₁,hval₁,hrest₁⟩ := absSub_low htN hW ht hr (by rw [htv]; exact hle)
      obtain ⟨args',r',hc,hla,hta,hlr,hv,hrest⟩ := ih (a := args₁) (r := r₁) (e := e-1)
        (by omega) (by omega) (by omega) (by omega) (by omega) (by rw [hval₁,htv]; exact hsum')
      refine ⟨args',r',?_,by omega,?_,by omega,hv,fun k hk => ?_⟩
      · rw [if_pos hlt,hr₁,some_bind,hc]
      · rw [hta,ho₁ 1 (by omega)]
      · rw [hrest k hk,hrest₁ k hk]
    · have heq : L/Y = e := by omega
      exact ⟨args₁,r,by rw [if_neg hlt]; rfl,hl₁,ho₁ 1 (by omega),rfl,by rw [heq]; exact hsum,
        fun _ _ => rfl⟩

end Loop

/-- The divisor of the division loop: its number, its top digit, and its negation. -/
structure Divisor (Y yUsed yt : ℕ) (ny : Uint32List) : Prop where
  pos : 1 ≤ yUsed
  lt : Y < digitBase^yUsed
  top : yt*digitBase^(yUsed-1) ≤ Y
  normalized : 2^31 ≤ yt
  length : yUsed ≤ ny.length
  negated : ny.value yUsed = digitBase^yUsed-Y

/-- The division loop before quotient digit `j - 1`: the dividend `R` is the remainder in the lower
digits plus the quotient in the upper digits times the shifted divisor. -/
structure Dividing (R Y yUsed yt W tLen rLen : ℕ) (j : ℕ) (s : Division) : Prop where
  args_length : 3 ≤ s.args.length
  args_top : s.args.digit 1 = yt
  t_length : s.t.length = tLen
  r_length : s.r.length = rLen
  lt : s.r.value (j+yUsed) < Y*digitBase^j
  sum : s.r.value (j+yUsed)+Y*digitBase^j*s.r.slice (j+yUsed) (W-(j+yUsed)) = R

namespace Divisor

variable {Y yUsed yt : ℕ} {ny : Uint32List}

section
variable (h : Divisor Y yUsed yt ny)
include h

lemma value_pos : 0 < Y := by
  have h1 := h.top
  have h2 := h.normalized
  have h3 : 1*1 ≤ yt*digitBase^(yUsed-1) :=
    Nat.mul_le_mul (by omega) (Nat.one_le_pow _ _ (by norm_num))
  omega

lemma estimate {args r : Uint32List} {j : ℕ}
    (hargs : 3 ≤ args.length) (htop : args.digit 1 = yt) (hr : j+yUsed < r.length)
    (hlt : r.value (j+yUsed+1) < Y*digitBase^(j+1)) :
    ∃ args', estQuotientDigit args r (j+yUsed) = some args' ∧ args'.length = args.length ∧
      args'.digit 1 = yt ∧ r.value (j+yUsed+1)/(Y*digitBase^j) ≤ args'.digit 2 := by
  have hpos := h.pos
  have hnorm := h.normalized
  have hYpos : 0 < Y*digitBase^j := mul_pos h.value_pos (by positivity)
  obtain ⟨args',ha,hl,ht,hest⟩ := estQuotientDigit_spec hargs (by omega) hr
    (by omega)
  refine ⟨args',ha,hl,by rw [ht,htop],hest _ ?_ ?_⟩
  · rw [div_lt_iff_lt_mul hYpos]
    calc r.value (j+yUsed+1) < Y*digitBase^(j+1) := hlt
      _ = 2^32*(Y*digitBase^j) := by rw [pow_succ]; ring
  · -- Both sides are compared after multiplication with the weight of the second digit.
    obtain ⟨i,hi⟩ : ∃ i, j+yUsed = i+1 := ⟨j+yUsed-1,by omega⟩
    rw [htop,hi,Nat.add_sub_cancel]
    have hweight : yt*digitBase^i ≤ Y*digitBase^j := by
      calc yt*digitBase^i = yt*digitBase^(yUsed-1)*digitBase^j := by
            rw [(by omega : i = yUsed-1+j),pow_add]
            ring
        _ ≤ Y*digitBase^j := Nat.mul_le_mul_right _ h.top
    have hlow := r.value_lt i
    set L := r.value (i+1+1) with hL
    have hq : L/(Y*digitBase^j)*yt*digitBase^i ≤ L := by
      rw [mul_assoc]
      exact (mul_le_mul_left _ hweight).trans (div_mul_le_self _ _)
    have hexp : L = r.value i+(r.digit (i+1)*2^32+r.digit i)*digitBase^i := by
      rw [hL,value_succ,value_succ,pow_succ]
      ring
    have hmul : L/(Y*digitBase^j)*yt*digitBase^i <
        (r.digit (i+1)*2^32+r.digit i+1)*digitBase^i := by
      rw [add_mul _ 1,one_mul]
      omega
    exact Nat.lt_succ_iff.mp (Nat.lt_of_mul_lt_mul_right hmul)

/-- One iteration replaces the dividend digits `L` by the quotient digit above the remainder. -/
lemma divideStep_spec {W j : ℕ} {s : Division} (hargs : 3 ≤ s.args.length)
    (htop : s.args.digit 1 = yt) (ht : j+yUsed+(j+yUsed)%2 ≤ s.t.length) (hW : j+yUsed+1 ≤ W)
    (hr : W ≤ s.r.length) (hlt : s.r.value (j+yUsed+1) < Y*digitBase^(j+1)) : ∃ s',
      divideStep ny yUsed W s j = some s' ∧ 3 ≤ s'.args.length ∧ s'.args.digit 1 = yt ∧
      s'.t.length = s.t.length ∧ s'.r.length = s.r.length ∧ s'.r.digit (j+yUsed) =
      s.r.value (j+yUsed+1)/(Y*digitBase^j) ∧ s'.r.value (j+yUsed) =
      s.r.value (j+yUsed+1)%(Y*digitBase^j) ∧ ∀ k, j+yUsed+1 ≤ k → s'.r.digit k = s.r.digit k := by
  obtain ⟨args,ha,hla,hta,hest⟩ := h.estimate (j := j) hargs htop (by omega) hlt
  have hYpos : 0 < Y*digitBase^j := mul_pos h.value_pos (by positivity)
  have hYP : Y*digitBase^j ≤ digitBase^(j+yUsed) := by
    rw [add_comm,pow_add]
    exact mul_le_mul_right _ h.lt.le
  have hneg : ny.value yUsed*digitBase^j = digitBase^(j+yUsed)-Y*digitBase^j := by
    rw [h.negated,Nat.sub_mul,Nat.add_comm,pow_add]
  -- It is enough to find a final array with `q` written above the remainder.
  suffices hfinal : ∃ s', divideStep ny yUsed W s j = some s' ∧ s'.args.length = args.length ∧
      s'.args.digit 1 = yt ∧ s'.t.length = s.t.length ∧ s'.r.length = s.r.length ∧
      s'.r.value (j+yUsed+1) +
        s.r.value (j+yUsed+1)/(Y*digitBase^j)*(Y*digitBase^j) =
        s.r.value (j+yUsed+1) +
          s.r.value (j+yUsed+1)/(Y*digitBase^j)*digitBase^(j+yUsed) ∧
      ∀ k, j+yUsed+1 ≤ k → s'.r.digit k = s.r.digit k by
    obtain ⟨s',hs',hl',ht',htl',hrl',hval,hrest⟩ := hfinal
    have hdm := div_add_mod' (s.r.value (j+yUsed+1)) (Y*digitBase^j)
    have hmod := mod_lt (s.r.value (j+yUsed+1)) hYpos
    have heq : s'.r.value (j+yUsed+1) = s.r.value (j+yUsed+1)%(Y*digitBase^j) +
        s.r.value (j+yUsed+1)/(Y*digitBase^j)*digitBase^(j+yUsed) := by omega
    have hdig : s'.r.digit (j+yUsed) = s.r.value (j+yUsed+1)/(Y*digitBase^j) := by
      rw [digit_eq_div,heq,add_mul_div_right _ _ (by positivity),div_eq_of_lt (by omega),zero_add]
    refine ⟨s',hs',by omega,ht',htl',hrl',hdig,?_,hrest⟩
    rw [value_succ,hdig] at heq
    omega
  set L := s.r.value (j+yUsed+1) with hL
  set Z := Y*digitBase^j with hZ
  set e := args.digit 2 with he
  have helt : e < 2^32 := args.digit_lt 2
  have hfit : L+e*(digitBase^(j+yUsed)-Z) < digitBase^(j+yUsed+1) := by
    have h1 : L < (e+1)*Z :=
      (div_lt_iff_lt_mul hYpos).mp (lt_succ_of_le hest)
    have h2 : (e+1)*digitBase^(j+yUsed) ≤ digitBase^(j+yUsed+1) := by
      rw [pow_succ,mul_comm (digitBase^(j+yUsed))]
      exact mul_le_mul_right _ helt
    have h3 : e*Z ≤ e*digitBase^(j+yUsed) := Nat.mul_le_mul_left _ hYP
    rw [Nat.mul_sub]
    rw [Nat.add_mul,Nat.one_mul] at h1 h2
    omega
  obtain ⟨r₁,hr₁,hlen₁,hval₁,hrest₁⟩ := mulAdd_spec (x := args) (m := ny) (o := s.r) (p := 2)
    (i := 0) (j := j) (n := yUsed) (N := j+yUsed+1) (by omega) (by have := h.length; omega)
    (by omega) (by omega)
    (by rw [slice_zero_left,Nat.mul_assoc,hneg]; exact hfit)
  rw [slice_zero_left,mul_assoc,hneg,← he] at hval₁
  have hsum₁ : r₁.value (j+yUsed+1)+e*Z = L+e*digitBase^(j+yUsed) := by
    have h3 : e*Z ≤ e*digitBase^(j+yUsed) := Nat.mul_le_mul_left _ hYP
    rw [hval₁,Nat.mul_sub]
    omega
  have htoo := div_lt_iff_too_large hYpos (by positivity : 0 < digitBase^(j+yUsed)) hsum₁
  rw [← digit_eq_div] at htoo
  unfold divideStep
  simp only [ha,hr₁,some_bind,read_eq (by omega : 2 < args.length),
    read_eq (by omega : j+yUsed < r₁.length),cast_lt]
  rw [← he]
  by_cases hbig : r₁.digit (j+yUsed) < e
  · have hpos := h.pos
    obtain ⟨t,hdl,htl, -,htv⟩ := dlShiftDigits_spec (x := .array ny) (o := s.t)
      (n := j) (by omega) h.length (by omega)
    have htv : t.value (yUsed+j) = digitBase^(j+yUsed)-Z := htv.trans hneg
    obtain ⟨hle,hsum₂⟩ := take_back hYP (by omega) hsum₁
    obtain ⟨r₂,hr₂,hlen₂,hval₂,hrest₂⟩ := absSub_low (t := t) (o := r₁)
      (by omega : yUsed+j ≤ j+yUsed+1) hW (by omega) (by omega) (by rw [htv]; exact hle)
    obtain ⟨args',r₃,hc,hla',hta',hlr',hv',hrest'⟩ := correct_spec (L := L) hYpos hYP
      (by omega) hW (by omega) htv (e+1)
      (a := args) (r := r₂) (e := e-1) (by omega) (by omega) (by omega) (by omega) (by omega)
      (by rw [hval₂,htv]; exact hsum₂)
    refine ⟨⟨args',t,r₃⟩,?_,by omega,by rw [hta',hta],htl,by simp only; omega,hv',fun k hk => ?_⟩
    · simp only [if_pos hbig,hdl,some_bind,hr₂,Int.toNat_natCast,hc]
      rfl
    · rw [hrest' k hk,hrest₂ k hk,hrest₁ k hk]
  · have heq : L/Z = e := by omega
    refine ⟨⟨args,s.t,r₁⟩,by rw [if_neg hbig]; rfl,rfl,hta,rfl,hlen₁,?_,hrest₁⟩
    rw [heq]
    exact hsum₁

lemma dividing_step {R W tLen rLen j : ℕ} {s : Division}
    (ht : j+1+yUsed ≤ tLen) (hW : j+1+yUsed ≤ W) (hr : W ≤ rLen)
    (hs : Dividing R Y yUsed yt W tLen rLen (j+1) s) :
    ∃ s', divideStep ny yUsed W s j = some s' ∧ Dividing R Y yUsed yt W tLen rLen j s' := by
  obtain ⟨hargs,htop,htl,hrl,hlt,hsum⟩ := hs
  have hi : j+1+yUsed = j+yUsed+1 := by omega
  rw [hi] at hlt hsum
  have hYpos : 0 < Y*digitBase^j := mul_pos h.value_pos (by positivity)
  obtain ⟨s',hs',hargs',htop',htl',hrl',hdig,hlow,hrest⟩ := h.divideStep_spec (W := W) hargs
    htop (by omega) (by omega) (by omega) hlt
  refine ⟨s',hs',hargs',htop',htl'.trans htl,hrl'.trans hrl,?_,?_⟩
  · rw [hlow]
    exact mod_lt _ hYpos
  · have hslice : s'.r.slice (j+yUsed+1) (W-(j+yUsed+1)) =
        s.r.slice (j+yUsed+1) (W-(j+yUsed+1)) :=
      Positional.value_congr fun k _ => hrest _ (by omega)
    have hdm := mod_add_div (s.r.value (j+yUsed+1)) (Y*digitBase^j)
    rw [(by omega : W-(j+yUsed) = W-(j+yUsed+1)+1),slice_succ_left,hslice,hdig,hlow,← hsum]
    conv_rhs => rw [← hdm]
    rw [pow_succ]
    ring

/-- The explicit first step writes the quotient digit above the dividend if the dividend has an even
number of digits, and only makes room otherwise. -/
lemma firstStep_spec {t r : Uint32List} {rUsed j : ℕ} (hj : j+yUsed = rUsed+rUsed%2)
    (ht : j+yUsed ≤ t.length) (hr : rUsed+2 ≤ r.length) (htv : t.value (j+yUsed) = Y*digitBase^j)
    (htop : t.digit (j+yUsed-1) ≠ 0) : ∃ r', firstStep r rUsed t (j+yUsed) = some r' ∧ r'.length =
      r.length ∧ r'.value (j+yUsed) < Y*digitBase^j ∧
      r'.value (j+yUsed)+Y*digitBase^j * r'.slice (j+yUsed) (rUsed+1-(j+yUsed)) =
      r.value rUsed := by
  have hpos := h.pos
  have hnorm := h.normalized
  obtain ⟨c,hc,hneg, -⟩ := compareDigits_spec (x := r) (a := t)
    (by omega : rUsed ≤ List.length r) ht (by omega) fun _ => htop
  rw [htv] at hneg
  have hlt := r.value_lt rUsed
  unfold firstStep
  rw [hc]
  simp only [some_bind]
  by_cases hle : 0 ≤ c
  · have hge : Y*digitBase^j ≤ r.value rUsed := by omega
    have hhalf : digitBase^(j+yUsed) ≤ 2*(Y*digitBase^j) := by
      calc digitBase^(j+yUsed) = 2*2^31*digitBase^(yUsed-1)*digitBase^j := by
            rw [(by omega : j+yUsed = 1+(yUsed-1)+j),pow_add,pow_add]
            norm_num
        _ ≤ 2*(Y*digitBase^j) := by
            rw [mul_assoc 2,mul_assoc 2]
            exact mul_le_mul_left _
              (mul_le_mul_right _ ((mul_le_mul_right _ hnorm).trans h.top))
    -- A dividend with an odd number of digits is shorter than the shifted divisor.
    have heven : j+yUsed = rUsed := by
      by_contra hodd
      have h1 : digitBase^(j+yUsed) = 2^32*digitBase^rUsed := by
        rw [(by omega : j+yUsed = rUsed+1),pow_succ]
        ring
      omega
    rw [heven] at hhalf htv ht ⊢
    obtain ⟨r₁,hr₁,hl₁,hd₁,ho₁⟩ := write_digit_spec r (i := rUsed) (v := 1)
      (by omega) (by norm_num)
    have hlow₁ : r₁.value rUsed = r.value rUsed :=
      Positional.value_congr fun k hk => ho₁ k (by omega)
    have hval₁ : r₁.value (rUsed+1) = r.value rUsed+digitBase^rUsed := by
      rw [value_succ,hd₁,hlow₁,one_mul]
    obtain ⟨r₂,hr₂,hl₂,hval₂, -⟩ := absSub_spec (x := .result)
      (by omega : rUsed ≤ rUsed+1) (by change _ ≤ r₁.length; omega) ht (by omega)
      (by change _ ≤ r₁.value _; omega)
    have hval₂ : r₂.value (rUsed+1) = r.value rUsed-Y*digitBase^j+1*digitBase^rUsed := by
      rw [hval₂,htv]
      change r₁.value _-_ = _
      omega
    have hdig : r₂.digit rUsed = 1 := by
      rw [digit_eq_div,hval₂,add_mul_div_right _ _ (by positivity),div_eq_of_lt (by omega)]
    have hlow : r₂.value rUsed = r.value rUsed-Y*digitBase^j := by
      rw [value_succ,hdig] at hval₂
      omega
    refine ⟨r₂,?_,by omega,by omega,?_⟩
    · rw [cast_one] at hr₁
      rw [if_pos hle,hr₁,some_bind,hr₂]
    · rw [hlow,Nat.add_sub_cancel_left,slice_succ_left,hdig]
      simp only [slice,Positional.value_zero]
      omega
  · obtain ⟨r₁,hr₁,hl₁,hd₁,ho₁⟩ := write_digit_spec r (i := rUsed) (v := 0)
      (by omega) (by norm_num)
    have hlow₁ : r₁.value rUsed = r.value rUsed :=
      Positional.value_congr fun k hk => ho₁ k (by omega)
    have hval₁ : r₁.value (j+yUsed) = r.value rUsed := by
      rcases mod_two_eq_zero_or_one rUsed with h0 | h1
      · rw [hj,h0,add_zero,hlow₁]
      · rw [hj,h1,value_succ,hd₁,hlow₁,zero_mul,add_zero]
    have hslice : r₁.slice (j+yUsed) (rUsed+1-(j+yUsed)) = 0 := by
      rcases Nat.mod_two_eq_zero_or_one rUsed with h0 | h1
      · rw [hj,h0,Nat.add_zero,Nat.add_sub_cancel_left,slice_succ_left,hd₁]
        simp [slice]
      · rw [hj,h1,Nat.sub_self]
        simp [slice]
    refine ⟨r₁,by rw [if_neg hle]; exact hr₁,hl₁,by omega,?_⟩
    rw [hslice,hval₁,Nat.mul_zero,Nat.add_zero]

lemma divideDigits_spec {y args t r : Uint32List} {rUsed : ℕ} (hy : yUsed ≤ y.length)
    (hyv : y.value yUsed = Y) (hyt : y.digit (yUsed-1) = yt) (hargs : 3 ≤ args.length)
    (htop : args.digit 1 = yt) (hle : yUsed ≤ rUsed+rUsed%2) (ht : rUsed+rUsed%2 ≤ t.length)
    (hr : rUsed+2 ≤ r.length) : ∃ r', divideDigits y yUsed ny args t r rUsed = some (rUsed+1,r') ∧
      r'.length = r.length ∧ r'.value yUsed = r.value rUsed%Y ∧ r'.slice yUsed (rUsed+1-yUsed) =
      r.value rUsed/Y := by
  have hpos := h.pos
  have hnorm := h.normalized
  obtain ⟨j,hj⟩ : ∃ j, j+yUsed = rUsed+rUsed%2 :=
    ⟨rUsed+rUsed%2-yUsed,Nat.sub_add_cancel hle⟩
  obtain ⟨t₁,ht₁,htl,htd,htv⟩ := dlShiftDigits_spec (x := .array y) (o := t)
    (n := j) (by omega) hy (by omega)
  have htd : ∀ k < yUsed, t₁.digit (k+j) = y.digit k := htd
  have htv : t₁.value (yUsed+j) = Y*digitBase^j := by rw [← hyv]; exact htv
  rw [Nat.add_comm yUsed j] at ht₁ htv
  obtain ⟨r₁,hr₁,hl₁,hlt,hsum⟩ := h.firstStep_spec hj (by omega) hr htv
    (by rw [(by omega : j+yUsed-1 = yUsed-1+j),htd _ (by omega),hyt]; omega)
  obtain ⟨r₂,hr₂,hl₂, -,ho₂⟩ := write_digit_spec r₁ (i := rUsed+1) (v := 0)
    (by omega) (by norm_num)
  have hlow : r₂.value (j+yUsed) = r₁.value (j+yUsed) :=
    Positional.value_congr fun k hk => ho₂ k (by omega)
  have hhigh : r₂.slice (j+yUsed) (rUsed+1-(j+yUsed)) =
      r₁.slice (j+yUsed) (rUsed+1-(j+yUsed)) :=
    Positional.value_congr fun k hk => ho₂ _ (by omega)
  obtain ⟨s,hs,hinv⟩ := forDown_total
    (s := ⟨args,t₁,r₂⟩)
    (Dividing (r.value rUsed) Y yUsed yt (rUsed+1) t₁.length r₂.length)
    ⟨hargs,htop,rfl,rfl,by rw [hlow]; exact hlt,by rw [hlow,hhigh]; exact hsum⟩
    fun i hi u hu => h.dividing_step (by omega) (by omega) (by omega) hu
  have hmod := hinv.lt
  have hdiv := hinv.sum
  rw [zero_add,pow_zero,mul_one] at hmod hdiv
  refine ⟨s.r,?_,by rw [hinv.r_length]; omega,?_,?_⟩
  · unfold divideDigits
    simp only [if_neg (by omega : ¬ rUsed+rUsed%2 < yUsed),
      (by omega : rUsed+rUsed%2-yUsed = j),ht₁,some_bind,hr₁]
    rw [cast_zero] at hr₂
    rw [hr₂,some_bind,hs]
    rfl
  · rw [← hdiv,add_mul_mod_self_left,mod_eq_of_lt hmod]
  · rw [← hdiv,add_mul_div_left _ _ h.value_pos,div_eq_of_lt hmod,zero_add]

end

end Divisor

section Normalization
variable {digits : Uint32List} {used : ℕ}

lemma normShift_spec (hpos : 0 < used) (htop : digits.digit (used-1) ≠ 0) :
    normShift used (digits.digit (used-1))/32 = used%2 ∧ 2^31*digitBase^(used+used%2-1) ≤
      digits.value used*2^normShift used (digits.digit (used-1)) ∧
      digits.value used*2^normShift used (digits.digit (used-1)) < digitBase^(used+used%2) := by
  obtain ⟨n,rfl⟩ := exists_fuel used
  have hlow := digits.value_lt n
  have hd := digits.digit_lt n
  rw [Nat.add_sub_cancel] at htop ⊢
  rw [value_succ]
  have hbits := nbits_eq htop hd
  have hlog : (digits.digit n).log2 < 32 := (Nat.log2_lt htop).mpr hd
  have hge := Nat.log2_self_le htop
  have hlt := Nat.lt_log2_self (n := digits.digit n)
  have hnsh : normShift (n+1) (digits.digit n) =
      31-(digits.digit n).log2+32*((n+1)%2) := by
    unfold normShift
    rw [hbits]
    split_ifs <;> omega
  generalize digits.digit n = d at *
  have hpow : 2^normShift (n+1) d = 2^(31-d.log2)*digitBase^((n+1)%2) := by
    rw [hnsh,pow_add,pow_mul]
  have htoplow : 2^31 ≤ d*2^(31-d.log2) := by
    calc 2^31 = 2^d.log2*2^(31-d.log2) := by
          rw [← pow_add,(by omega : d.log2+(31-d.log2) = 31)]
      _ ≤ d*2^(31-d.log2) := mul_le_mul_right _ hge
  have htophigh : (d+1)*2^(31-d.log2) ≤ 2^32 := by
    calc (d+1)*2^(31-d.log2) ≤ 2^(d.log2+1)*2^(31-d.log2) :=
          mul_le_mul_right _ hlt
      _ = 2^32 := by rw [← pow_add,(by omega : d.log2+1+(31-d.log2) = 32)]
  refine ⟨by omega,?_,?_⟩
  · calc 2^31*digitBase^(n+1+(n+1)%2-1)
        ≤ d*2^(31-d.log2)*digitBase^(n+1+(n+1)%2-1) :=
          mul_le_mul_right _ htoplow
      _ = d*digitBase^n*2^normShift (n+1) d := by
          rw [hpow,(by omega : n+1+(n+1)%2-1 = n+(n+1)%2),pow_add]
          ring
      _ ≤ (digits.value n+d*digitBase^n)*2^normShift (n+1) d :=
          mul_le_mul_right _ (le_add_left _ _)
  · calc (digits.value n+d*digitBase^n)*2^normShift (n+1) d
        < (d+1)*digitBase^n*2^normShift (n+1) d := by
          refine mul_lt_mul_of_pos_right ?_ (by positivity)
          rw [add_mul,one_mul]
          omega
      _ = (d+1)*2^(31-d.log2)*digitBase^(n+(n+1)%2) := by
          rw [hpow,pow_add]
          ring
      _ ≤ 2^32*digitBase^(n+(n+1)%2) := mul_le_mul_right _ htophigh
      _ = digitBase^(n+1+(n+1)%2) := by
          rw [(by omega : n+1+(n+1)%2 = n+(n+1)%2+1),pow_succ]
          ring

lemma normalizeDivisor_spec (hpos : 0 < used) (hlen : used ≤ digits.length)
    (htop : digits.digit (used-1) ≠ 0) : ∃ y,
      normalizeDivisor digits used (normShift used (digits.digit (used-1))) =
      some (used+used%2,y) ∧ used+used%2 ≤ y.length ∧ y.value (used+used%2) =
      digits.value used*2^normShift used (digits.digit (used-1)) ∧ 2^31 ≤
      y.digit (used+used%2-1) := by
  obtain ⟨hdiv,hge,hlt⟩ := normShift_spec hpos htop
  generalize normShift used (digits.digit (used-1)) = nsh at *
  suffices hval : ∃ y, normalizeDivisor digits used nsh = some (used+used%2,y) ∧
      used+used%2 ≤ y.length ∧ y.value (used+used%2) = digits.value used*2^nsh by
    obtain ⟨y,hy,hl,hv⟩ := hval
    refine ⟨y,hy,hl,hv,?_⟩
    rw [digit_eq_div,Nat.sub_add_cancel (by omega),hv,Nat.le_div_iff_mul_le (by positivity)]
    exact hge
  unfold normalizeDivisor
  by_cases hnsh : 0 < nsh
  · obtain ⟨yUsed,y,hy,hl,hv,hused⟩ := lShiftDigits_spec (x := .array digits) (n := nsh)
      (o := Uint32List.new (used+5)) hpos hlen (by rw [length_new]; omega)
    rw [length_new] at hl
    rw [hdiv] at hused
    -- One more digit would make the number too large.
    have hE : yUsed = used+used%2 := by
      rcases hused with h | ⟨h,hne⟩
      · exact h
      · exfalso
        have hbig : digitBase^(yUsed-1) ≤ y.value yUsed :=
          (Nat.le_mul_of_pos_left _ (Nat.pos_of_ne_zero hne)).trans (top_le_value y (by omega))
        rw [hv,(by omega : yUsed-1 = used+used%2)] at hbig
        exact absurd hlt (Nat.not_lt.mpr hbig)
    subst hE
    exact ⟨y,by rw [if_pos hnsh,hy],by omega,hv⟩
  · obtain rfl : nsh = 0 := by omega
    have hE : used+used%2 = used := by omega
    exact ⟨digits,by rw [if_neg hnsh,hE],by omega,by rw [hE,pow_zero,mul_one]⟩

lemma normalizeDividend_spec {nsh : ℕ} (hpos : 0 < used) (hlen : used ≤ digits.length)
    (hnsh : nsh/32 ≤ 1) : ∃ rUsed r, normalizeDividend digits used nsh = some (rUsed,r) ∧ rUsed+2 ≤
      r.length ∧ used+nsh/32 ≤ rUsed ∧ r.value rUsed = digits.value used*2^nsh := by
  unfold normalizeDividend
  by_cases h0 : 0 < nsh
  · obtain ⟨rUsed,r,hr,hl,hv,hused⟩ := lShiftDigits_spec (x := .array digits) (n := nsh)
      (o := Uint32List.new (used+5)) hpos hlen (by rw [length_new]; omega)
    rw [length_new] at hl
    exact ⟨rUsed,r,by rw [if_pos h0,hr],by omega,by omega,hv⟩
  · obtain rfl : nsh = 0 := by omega
    obtain ⟨r,hr,hl,hd⟩ := cloneDigits_spec hlen (by omega : used-0 ≤ used+2)
    refine ⟨used,r,by rw [if_neg h0,hr]; rfl,by omega,by omega,?_⟩
    rw [pow_zero,mul_one]
    exact Positional.value_congr fun k hk => by rw [hd k hk,zero_add]

lemma quotientArgs_spec (hused : 2 ≤ used) (hlen : used ≤ digits.length) :
    ∃ args, quotientArgs digits used = some args ∧ args.length = 4 ∧
      args.digit 1 = digits.digit (used-1) := by
  obtain ⟨a,ha,hla, -, -⟩ := write_digit_spec (Uint32List.new 4) (i := 0)
    (by rw [length_new]; omega) (digits.digit_lt (used-2))
  rw [length_new] at hla
  obtain ⟨b,hb,hlb,hdb, -⟩ := write_digit_spec a (i := 1) (by omega)
    (digits.digit_lt (used-1))
  refine ⟨b,?_,by omega,hdb⟩
  unfold quotientArgs
  rw [if_neg (by omega),read_eq (by omega),read_eq (by omega)]
  simp [some_bind,ha,hb]

lemma negateDigits_spec (hlen : used ≤ digits.length) (hpos : 0 < digits.value used) :
    ∃ ny, negateDigits digits used = some ny ∧ ny.length = used+2 ∧
      ny.value used = digitBase^used-digits.value used := by
  have hlt := digits.value_lt used
  obtain ⟨a,ha,hla,hda,hoa⟩ := write_digit_spec (Uint32List.new (used+2))
    (i := used) (v := 1) (by rw [length_new]; omega) (by norm_num)
  rw [length_new] at hla
  have hva : a.value (used+1) = digitBase^used := by
    have hzero : a.value used = 0 := Positional.value_eq_zero fun k hk => by
      rw [hoa k (by omega),digit_new]
    rw [value_succ,hda,hzero,zero_add,one_mul]
  obtain ⟨ny,hny,hln,hvn, -⟩ := absSub_spec (x := .result)
    (by omega : used ≤ used+1) (by change _ ≤ a.length; omega) hlen (by omega)
    (by change _ ≤ a.value _; omega)
  have hvn : ny.value (used+1) = digitBase^used-digits.value used := by
    rw [hvn]
    change a.value _-_ = _
    rw [hva]
  have htop : ny.digit used = 0 := by
    rw [digit_eq_div,hvn]
    exact div_eq_of_lt (by omega)
  refine ⟨ny,?_,by omega,?_⟩
  · unfold negateDigits
    rw [cast_one] at ha
    rw [ha,some_bind,hny]
  · rw [← hvn,value_succ,htop,zero_mul,add_zero]

end Normalization

/-- The digits left by `_divRem` for the quotient and remainder of `m` by `n`. -/
structure QuoRem.Correct (m n : ℕ) (q : QuoRem) : Prop where
  rem_le : q.remUsed ≤ q.used
  used_le : q.used ≤ q.digits.length
  rem : q.digits.value q.remUsed = m%n*2^q.nsh
  quo : q.digits.slice q.remUsed (q.used-q.remUsed) = m/n

lemma divRemDigits_spec {x a : Uint32List} {used aUsed : ℕ} (hpos : 0 < aUsed)
    (hle : aUsed ≤ used) (hx : used ≤ x.length) (ha : aUsed ≤ a.length)
    (htop : a.digit (aUsed-1) ≠ 0) :
    ∃ q, divRemDigits x used a aUsed = some q ∧ q.Correct (x.value used) (a.value aUsed) := by
  obtain ⟨hdiv, -,hlt⟩ := normShift_spec hpos htop
  obtain ⟨y,hy,hyl,hyv,hyt⟩ := normalizeDivisor_spec hpos ha htop
  obtain ⟨rUsed,r,hr,hrl,hru,hrv⟩ := normalizeDividend_spec (by omega) hx
    (by omega : normShift aUsed (a.digit (aUsed-1))/32 ≤ 1)
  obtain ⟨args,hargs,hal,hat⟩ := quotientArgs_spec (by omega) hyl
  have hapos : 0 < a.value aUsed :=
    (mul_pos (pos_of_ne_zero htop) (by positivity)).trans_le (top_le_value a hpos)
  obtain ⟨ny,hny,hnl,hnv⟩ := negateDigits_spec hyl (by rw [hyv]; positivity)
  have hD : Divisor (y.value (aUsed+aUsed%2)) (aUsed+aUsed%2)
      (y.digit (aUsed+aUsed%2-1)) ny :=
    ⟨by omega,y.value_lt _,top_le_value y (by omega),hyt,by omega,hnv⟩
  obtain ⟨r',hr',hl',hmod,hquo⟩ := hD.divideDigits_spec
    hyl rfl rfl (by omega) hat (by omega)
    (by rw [length_new]) hrl
  rw [hyv,hrv,Nat.mul_mod_mul_right] at hmod
  rw [hyv,hrv,Nat.mul_div_mul_right _ _ (by positivity)] at hquo
  refine ⟨⟨r',rUsed+1,aUsed+aUsed%2,_⟩,?_,by simp only; omega,by simp only; omega,hmod,hquo⟩
  unfold divRemDigits
  simp only [if_neg (by omega : ¬ aUsed = 0),read_eq (by omega : aUsed-1 < a.length),
    some_bind,Int.toNat_natCast,hy,hr,hargs,hny,hr']
  rfl

lemma negateIf_spec {x : Bigint} {m : ℕ} (hx : x.toInt = m) (neg : Bool) :
    ∃ r, (if neg ∧ 0 < x.used then x.negate else some x) = some r ∧ r.toInt = withSign neg m := by
  by_cases h : neg = true ∧ 0 < x.used
  · obtain ⟨r,hr,hv⟩ := x.negate_spec
    exact ⟨r,by rw [if_pos h,hr],by rw [hv,hx,h.1]; rfl⟩
  · refine ⟨x,if_neg h,?_⟩
    cases neg with
    | false => exact hx
    | true =>
      have h0 : x.used = 0 := by simpa using h
      have hm : x.toInt = 0 := by rw [toInt,x.used_eq_zero_iff.mp h0,withSign_zero]
      obtain rfl : m = 0 := by omega
      rw [hm,withSign_zero]

section Result
variable {m n : ℕ} {q : QuoRem}

lemma quotient_spec (h : q.Correct m n) (neg : Bool) :
    ∃ r, quotient q neg = some r ∧ r.toInt = withSign neg (m/n) := by
  obtain ⟨d,hd,hl,hdig⟩ := cloneDigits_spec h.used_le (le_refl (q.used-q.remUsed))
  have hval : d.value (q.used-q.remUsed) = m/n := (cloneDigits_value hdig).trans h.quo
  obtain ⟨quo,hquo, -,hv⟩ := new_spec false (q.used-q.remUsed) d hl.ge
  rw [hval] at hv
  obtain ⟨r,hr,hrv⟩ := negateIf_spec hv neg
  refine ⟨r,?_,hrv⟩
  unfold quotient
  simp [hd,some_bind,hquo,hr]

lemma remainder_spec (h : q.Correct m n) (neg : Bool) :
    ∃ r, remainder q neg = some r ∧ r.toInt = withSign neg (m%n) := by
  have hle := h.rem_le
  obtain ⟨d,hd,hl,hdig⟩ := cloneDigits_spec (hle.trans h.used_le)
    (sub_le q.remUsed 0)
  have hval : d.value q.remUsed = m%n*2^q.nsh := by
    rw [← h.rem]
    exact Positional.value_congr fun k hk => by rw [hdig k hk,zero_add]
  obtain ⟨rem,hrem, -,hv⟩ := new_spec false q.remUsed d hl.ge
  rw [hval] at hv
  have hshift : ∃ r, rem.denormalize q.nsh = some r ∧ r.toInt = ((m%n : ℕ) : ℤ) := by
    unfold denormalize
    by_cases hnsh : 0 < q.nsh
    · obtain ⟨r,hr,hrv⟩ := rem.rShift_spec q.nsh
      refine ⟨r,by rw [if_pos hnsh,hr],?_⟩
      rw [hrv,hv]
      change ((m%n*2^q.nsh : ℕ) : ℤ)/((2^q.nsh : ℕ) : ℤ) = _
      rw [← Int.natCast_ediv,Nat.mul_div_cancel _ (by positivity)]
    · refine ⟨rem,if_neg hnsh,?_⟩
      rw [hv,(by omega : q.nsh = 0),pow_zero,Nat.mul_one]
      rfl
  obtain ⟨r₁,hr₁,hv₁⟩ := hshift
  obtain ⟨r,hr,hrv⟩ := negateIf_spec hv₁ neg
  refine ⟨r,?_,hrv⟩
  unfold remainder
  simp only [hd,some_bind,hrem,hr₁,hr]

end Result

lemma tdiv_toInt (x a : Bigint) :
    x.toInt.tdiv a.toInt = withSign (x.neg != a.neg) (x.magnitude/a.magnitude) := by
  unfold toInt withSign
  cases x.neg <;> cases a.neg <;> simp

lemma tmod_toInt (x a : Bigint) :
    x.toInt-a.toInt*x.toInt.tdiv a.toInt = withSign x.neg (x.magnitude%a.magnitude) := by
  rw [← Int.tmod_def]
  unfold toInt withSign
  cases x.neg <;> cases a.neg <;> simp [Int.tmod_eq_emod_of_nonneg]

end DartSdk.Bigint
