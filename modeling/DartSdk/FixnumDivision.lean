import DartSdk.FixnumArithmetic

/-! Model of `_divide` and `_divideHelper`. Small divisors are divided limb by limb. For the others
a quotient is estimated in floating point and corrected in steps of one; the estimate is a
parameter, and the products of its limbs are exact. Division is exact for every estimate: the loop
keeps `A = Q * B + R`, and each round moves the signed remainder towards `[0, B)`. -/
namespace DartSdk.Fixnum

/-- The constants `_RETURN_DIV`, `_RETURN_REM` and `_RETURN_MOD`. -/
inductive Returned
  | div
  | rem
  | mod

inductive DivisionError
  | integerDivisionByZeroException
  | outOfFuel

namespace Int64
variable (t : Host)

def abs (a : Int64) : Int64 := if a.isNegative t then neg t a else a

/-- The divisors that fit into the 8 bits that a limb leaves of a small integer. -/
def isSmall (b : Int64) : Bool := b.h == 0 && b.m == 0 && decide (b.l < 2^(30-kBits))

/-- Quotient and remainder by a small divisor. -/
def divideSmall (a b : Int64) : Int64 × Int64 :=
  let q2 := a.h/b.l
  let carry := a.h-q2*b.l
  let d1 := a.m+t.shl carry kBits
  let q1 := d1/b.l
  let carry := d1-q1*b.l
  let d0 := a.l+t.shl carry kBits
  let q0 := d0/b.l
  let r0 := d0-q0*b.l
  (⟨q0,q1,q2⟩,⟨r0,0,0⟩)

/-- The limbs of the estimate `qd`, and `A - Q * B`. -/
def divideEstimated (qd : ℤ) (a b : Int64) : Int64 × Int64 :=
  let q2 := qd/2^44
  let qd := qd-2^44*q2
  let q1 := qd/2^22
  let q0 := qd-2^22*q1
  let p0 := q0*b.l
  let p0carry := p0/2^22
  let p0 := p0-p0carry*2^22
  let p1 := q1*b.l+q0*b.m+p0carry
  let p1carry := p1/2^22
  let p1 := p1-p1carry*2^22
  let p2 := q2*b.l+q1*b.m+q0*b.h+p1carry
  (⟨q0,q1,q2⟩,subLimbs t a.l a.m a.h p0 p1 p2)

/-- The condition of the loop, `R < 0 || R >= B`. -/
def outside (r b : Int64) : Prop :=
  r.h ≥ kSignBitMask ∨ r.h > b.h ∨ (r.h = b.h ∧ (r.m > b.m ∨ (r.m = b.m ∧ r.l ≥ b.l)))

instance (r b : Int64) : Decidable (outside r b) := inferInstanceAs (Decidable (_ ∨ _ ∨ _ ∧ _))

/-- The body of the loop, where the multiplier `m` is the direction. -/
def correct (b q r : Int64) : Int64 × Int64 :=
  let m : ℤ := if t.and r.h kSignBitMask = 0 then 1 else -1
  let d0 := r.l-m*b.l
  let d1 := r.m-m*(b.m+t.and (t.shr d0 kBits) 1)
  let d2 := r.h-m*(b.h+t.and (t.shr d1 kBits) 1)
  let e0 := q.l+m
  let e1 := q.m+m*t.and (t.shr e0 kBits) 1
  let e2 := q.h+m*t.and (t.shr e1 kBits) 1
  (masked t e0 e1 e2,masked t d0 d1 d2)

/-- The loop, of less rounds than the first argument says. -/
def correctLoop (b : Int64) : ℕ → Int64 × Int64 → Except DivisionError (Int64 × Int64)
  | 0, _ => .error .outOfFuel
  | fuel+1, (q,r) => if outside r b then correctLoop b fuel (correct t b q r) else .ok (q,r)

/-- The result that is asked for, from the quotient and the remainder of the magnitudes. -/
def divideResult (q r : Int64) (aNeg : Bool) (b : Int64) (bNeg : Bool) : Returned → Int64
  | .div => if aNeg != bNeg then neg t q else masked t q.l q.m q.h
  | .rem => if aNeg then neg t r else masked t r.l r.m r.h
  | .mod =>
    if aNeg then
      if r.l = 0 ∧ r.m = 0 ∧ r.h = 0 then ⟨0,0,0⟩ else subLimbs t b.l b.m b.h r.l r.m r.h
    else masked t r.l r.m r.h

variable (fuel : ℕ) (estimate : ℤ)

def divideHelper (a : Int64) (aNeg : Bool) (b : Int64) (bNeg : Bool) (what : Returned) :
    Except DivisionError Int64 := do
  let (q,r) ←
    if b.isSmall then .ok (divideSmall t a b)
    else correctLoop t b fuel (divideEstimated t estimate a b)
  return divideResult t q r aNeg b bNeg what

def divide (a b : Int64) (what : Returned) : Except DivisionError Int64 :=
  if b.isZero then .error .integerDivisionByZeroException
  else if a.isZero then .ok ⟨0,0,0⟩
  else divideHelper t fuel estimate (a.abs t) (a.isNegative t) (b.abs t) (b.isNegative t) what

end Int64

open Int
namespace Int64
variable (t : Host) {a b q r : Int64}

/-- The limbs as a signed number. -/
def signed (a : Int64) : ℤ := if a.h < 2^19 then a.value else a.value-2^64

section
variable (ha : a.Canonical)
include ha

lemma Canonical.signed_eq : a.bits.toInt = a.signed := ha.toInt_bits

lemma Canonical.isNegative_eq : a.isNegative t = !decide (a.h < 2^19) := by
  rw [isNegative,and_kSignBitMask,ha.testBit_sign]

lemma Canonical.sign_iff : t.and a.h kSignBitMask = 0 ↔ a.h < 2^19 := by
  have h : (t.and a.h kSignBitMask != 0) = !decide (a.h < 2^19) := ha.isNegative_eq t
  by_cases hlt : a.h < 2^19
  · rw [decide_eq_true hlt] at h
    exact iff_of_true (by simpa using h) hlt
  · rw [decide_eq_false hlt] at h
    exact iff_of_false (by simpa using h) hlt

lemma Canonical.h_lt_iff : a.h < 2^19 ↔ a.value < 2^63 := by
  obtain ⟨h1,h2,h3,h4,h5,h6⟩ := ha
  unfold value
  omega

lemma Canonical.signed_eq_of_emod {x : ℤ} (h : a.value = x%2^64)
    (hx : -2^63 ≤ x ∧ x < 2^63) : a.signed = x := by
  have hsign := ha.h_lt_iff
  unfold signed
  split_ifs with hlt
  · omega
  · omega

lemma Canonical.signed_bounds : -2^63 ≤ a.signed ∧ a.signed < 2^63 := by
  have h0 := ha.value_nonneg
  have h1 := ha.value_lt
  have hlt := ha.h_lt_iff
  unfold signed
  split_ifs with hs
  · exact ⟨by omega,hlt.1 hs⟩
  · exact ⟨by omega,by omega⟩

end

lemma Denotes.value_eq {x : ℤ} (h : a.Denotes (BitVec.ofInt 64 x)) : a.value = x%2^64 := by
  rw [← h.canonical.toNat_bits,h.bits_eq,BitVec.toNat_ofInt]
  omega

lemma neg_value (ha : a.Canonical) : (neg t a).Canonical ∧ (neg t a).value = -a.value%2^64 := by
  have h := neg_denotes t ha
  rw [bits,← BitVec.ofInt_neg] at h
  exact ⟨h.canonical,h.value_eq⟩

lemma subLimbs_value (ha : a.Canonical) (hb : b.Canonical) :
    (subLimbs t a.l a.m a.h b.l b.m b.h).Canonical ∧
      (subLimbs t a.l a.m a.h b.l b.m b.h).value = (a.value-b.value)%2^64 := by
  have h := subLimbs_denotes t ha hb
  rw [bits,bits,BitVec.sub_eq_add_neg,← BitVec.ofInt_neg,← BitVec.ofInt_add,← sub_eq_add_neg] at h
  exact ⟨h.canonical,h.value_eq⟩

lemma abs_value (ha : a.Canonical) :
    (abs t a).Canonical ∧ (abs t a).value = |a.signed| ∧ (abs t a).value ≤ 2^63 := by
  have hsign := ha.h_lt_iff
  have h0 := ha.value_nonneg
  have h1 := ha.value_lt
  rw [abs,ha.isNegative_eq]
  by_cases hlt : a.h < 2^19
  · have hvalue := hsign.1 hlt
    rw [signed,if_pos hlt,abs_of_nonneg h0,decide_eq_true hlt]
    exact ⟨ha,rfl,hvalue.le⟩
  · obtain ⟨hc,hneg⟩ := neg_value t ha
    rw [signed,if_neg hlt,abs_of_nonpos (by omega),decide_eq_false hlt]
    refine ⟨hc,?_⟩
    change (neg t a).value = _ ∧ (neg t a).value ≤ _
    omega

lemma limb_division (x carry : ℤ) {d k : ℤ} (hd : 0 < d) (hx : 0 ≤ x ∧ x < k)
    (hcarry : 0 ≤ carry ∧ carry < d) : 0 ≤ (x+carry*k)/d ∧ (x+carry*k)/d < k ∧ 0 ≤
      (x+carry*k)-(x+carry*k)/d*d ∧ (x+carry*k)-(x+carry*k)/d*d < d := by
  have hnonneg : 0 ≤ carry*k := mul_nonneg hcarry.1 (by omega)
  have hmod : (x+carry*k)-(x+carry*k)/d*d = (x+carry*k)%d := by
    rw [Int.emod_def,mul_comm d]
  refine ⟨Int.ediv_nonneg (by omega) hd.le,Int.ediv_lt_of_lt_mul hd ?_,?_,?_⟩
  · calc x+carry*k < k+carry*k := by omega
      _ = (carry+1)*k := by ring
      _ ≤ d*k := mul_le_mul_of_nonneg_right (by omega) (by omega)
      _ = k*d := mul_comm d k
  · rw [hmod]
    exact Int.emod_nonneg _ hd.ne'
  · rw [hmod]
    exact Int.emod_lt_of_pos _ hd

lemma quotient_unique {A B Q R : ℤ} (h : A = Q*B+R) (h0 : 0 ≤ R) (hlt : R < B) :
    Q = A/B ∧ R = A%B := by
  have hB : B ≠ 0 := by omega
  rw [h,add_comm,add_mul_ediv_right _ _ hB,add_mul_emod_self_right,
    ediv_eq_zero_of_lt h0 hlt,emod_eq_of_lt h0 hlt]
  exact ⟨(zero_add Q).symm,rfl⟩

lemma divideSmall_value (ha : a.Canonical) (hpos : 0 < b.value) (hsmall : b.isSmall = true) :
    (divideSmall t a b).1.Canonical ∧ (divideSmall t a b).2.Canonical ∧
      (divideSmall t a b).1.value = a.value/b.value ∧ (divideSmall t a b).2.value =
      a.value%b.value := by
  obtain ⟨ha1,ha2,ha3,ha4,ha5,ha6⟩ := ha
  simp only [isSmall,Bool.and_eq_true,beq_iff_eq,decide_eq_true_eq] at hsmall
  obtain ⟨⟨hh,hm⟩,hl⟩ := hsmall
  change b.l < 2^8 at hl
  have hvalue : b.value = b.l := by
    unfold value
    omega
  have hdef : a.value = a.l+a.m*2^22+a.h*2^44 := rfl
  rw [hvalue] at hpos ⊢
  obtain ⟨h20,h21,h22,h23⟩ := limb_division a.h 0 hpos ⟨ha5,ha6⟩ ⟨le_rfl,hpos⟩
  rw [zero_mul,add_zero] at h20 h21 h22 h23
  have hshl {c : ℤ} (h0 : 0 ≤ c) (hc : c < b.l) : t.shl c kBits = c*2^22 :=
    t.shl_eq h0 22 (by omega)
  dsimp only [divideSmall]
  rw [hshl h22 h23]
  generalize a.h/b.l = q2 at *
  obtain ⟨h10,h11,h12,h13⟩ := limb_division a.m (a.h-q2*b.l) hpos ⟨ha3,ha4⟩
    ⟨h22,h23⟩
  rw [hshl h12 h13]
  generalize (a.m+(a.h-q2*b.l)*2^22)/b.l = q1 at *
  obtain ⟨h00,h01,h02,h03⟩ := limb_division a.l (a.m+(a.h-q2*b.l)*2^22-q1*b.l)
    hpos ⟨ha1,ha2⟩ ⟨h12,h13⟩
  generalize hq0 : (a.l+(a.m+(a.h-q2*b.l)*2^22-q1*b.l)*2^22)/b.l = q0 at *
  generalize hr0 : a.l+(a.m+(a.h-q2*b.l)*2^22-q1*b.l)*2^22-q0*b.l = r0 at *
  obtain ⟨hq,hr⟩ := quotient_unique (A := a.value)
    (Q := q0+q1*2^22+q2*2^44) (by rw [hdef,← hr0]; ring) h02 h03
  refine ⟨⟨h00,h01,h10,h11,h20,h21⟩,⟨h02,by dsimp only; omega,by simp,by simp,by simp,by simp⟩,hq,?_⟩
  rw [← hr,value]
  ring

lemma carry_columns (z0 z1 z2 z3 z4 : ℤ) (h0 : 0 ≤ z0) (h1 : 0 ≤ z1) (h2 : 0 ≤ z2) (h3 : 0 ≤ z3)
    (h4 : 0 ≤ z4) (hlt : z0+z1*2^22+z2*2^44+z3*2^66+z4*2^88 < 2^64) : let p1 := z1+z0/2^22
    let p : Int64 := ⟨z0-z0/2^22*2^22,p1-p1/2^22*2^22,z2+p1/2^22⟩
    p.Canonical ∧ p.value = z0+z1*2^22+z2*2^44+z3*2^66+z4*2^88 := by
  intro p1 p
  refine ⟨⟨?_,?_,?_,?_,?_,?_⟩,?_⟩
  all_goals
    dsimp only [p,value]
    omega

/-- The invariant of the loop: the remainder belongs to the quotient. -/
structure Divides (A : ℤ) (b q r : Int64) : Prop where
  q_canonical : q.Canonical
  r_canonical : r.Canonical
  eq : A = q.value*b.value+r.signed

lemma divideEstimated_divides (ha : a.Canonical) (hb : b.Canonical) (hlarge : 0 < b.value)
    (hmax : a.value ≤ 2^63) {qd : ℤ} (h0 : 0 ≤ qd) (hqd : |a.value-qd*b.value| < 2^63) :
    Divides a.value b (divideEstimated t qd a b).1 (divideEstimated t qd a b).2 := by
  obtain ⟨hb1,hb2,hb3,hb4,hb5,hb6⟩ := id hb
  obtain ⟨hlow,hhigh⟩ := abs_lt.1 hqd
  have hprod : qd*b.value < 2^64 := by omega
  have hqlt : qd < 2^64 := by
    calc qd = qd*1 := (mul_one qd).symm
      _ ≤ qd*b.value := mul_le_mul_of_nonneg_left hlarge h0
      _ < 2^64 := hprod
  dsimp only [divideEstimated]
  -- The limbs of the estimate.
  obtain ⟨q2,hq2⟩ : ∃ q2, q2 = qd/2^44 := ⟨_,rfl⟩
  obtain ⟨q1,hq1⟩ : ∃ q1, q1 = (qd-2^44*q2)/2^22 := ⟨_,rfl⟩
  obtain ⟨q0,hq0⟩ : ∃ q0, q0 = qd-2^44*q2-2^22*q1 := ⟨_,rfl⟩
  rw [← hq2,← hq1,← hq0]
  have hq : Canonical ⟨q0,q1,q2⟩ := by
    constructor <;> dsimp only <;> omega
  have hvalue : value ⟨q0,q1,q2⟩ = qd := by
    rw [value,hq0]
    ring
  obtain ⟨hq01,hq02,hq11,hq12,hq21,hq22⟩ := id hq
  have hcolumns : q0*b.l+(q1*b.l+q0*b.m)*2^22 +
      (q2*b.l+q1*b.m+q0*b.h)*2^44+(q2*b.m+q1*b.h)*2^66 +
      q2*b.h*2^88 = qd*b.value := by
    rw [← hvalue,value,value]
    ring
  obtain ⟨hp,hpvalue⟩ := carry_columns (q0*b.l) (q1*b.l+q0*b.m)
    (q2*b.l+q1*b.m+q0*b.h) (q2*b.m+q1*b.h) (q2*b.h) (by positivity)
    (by positivity) (by positivity) (by positivity) (by positivity) (by rwa [hcolumns])
  rw [hcolumns] at hpvalue
  obtain ⟨hr,hrvalue⟩ := subLimbs_value t ha hp
  rw [hpvalue] at hrvalue
  refine ⟨hq,hr,?_⟩
  have hsigned := hr.signed_eq_of_emod hrvalue (by omega)
  rw [hvalue,hsigned]
  ring

/-- The direction of a round. -/
def direction (r : Int64) : ℤ := if r.h < 2^19 then 1 else -1

lemma direction_eq (r : Int64) : direction r = 1 ∨ direction r = -1 := by
  unfold direction
  split_ifs <;> simp

lemma direction_mul_bit {m c : ℤ} (hm : m = 1 ∨ m = -1) (hc : c = 0 ∨ c = m) : m*(c%2) = c := by
  rcases hm with rfl | rfl <;> rcases hc with rfl | rfl <;> rfl

lemma masked_value (s0 x1 x2 : ℤ) : (masked t s0 (x1+s0/2^22) (x2+(x1+s0/2^22)/2^22)).value =
      (s0+x1*2^22+x2*2^44)%2^64 := by
  rw [masked_eq,value]
  dsimp only
  omega

lemma Canonical.direction_eq_ite (hr : r.Canonical) (t : Host) :
    (if t.and r.h kSignBitMask = 0 then 1 else -1 : ℤ) = direction r := by
  simp [direction,hr.sign_iff t]

lemma correct_remainder (hb : b.Canonical) (hr : r.Canonical) :
    (correct t b q r).2.value = (r.value-direction r*b.value)%2^64 := by
  obtain ⟨hb1,hb2,hb3,hb4,hb5,hb6⟩ := hb
  obtain ⟨hr1,hr2,hr3,hr4,hr5,hr6⟩ := id hr
  have hm := direction_eq r
  dsimp only [correct]
  rw [hr.direction_eq_ite t,t.and_shr_one,t.and_shr_one,show kBits = 22 from rfl]
  generalize direction r = m at *
  have hborrow {c : ℤ} (x y : ℤ) (hc : c = 0 ∨ c = -m) : x-m*(y+c%2) = x-m*y+c := by
    have hbit := direction_mul_bit (by omega) hc
    linarith
  have h0 : (r.l-m*b.l)/2^22 = 0 ∨ (r.l-m*b.l)/2^22 = -m := by
    rcases hm with rfl | rfl <;> omega
  have h1 : (r.m-m*b.m+(r.l-m*b.l)/2^22)/2^22 = 0 ∨
      (r.m-m*b.m+(r.l-m*b.l)/2^22)/2^22 = -m := by
    rcases hm with rfl | rfl <;> omega
  rw [hborrow _ _ h0,hborrow _ _ h1,masked_value,value,value]
  congr 1
  ring

lemma correct_quotient (hq : q.Canonical) (hr : r.Canonical) :
    (correct t b q r).1.value = (q.value+direction r)%2^64 := by
  obtain ⟨hq1,hq2,hq3,hq4,hq5,hq6⟩ := hq
  have hm := direction_eq r
  dsimp only [correct]
  rw [hr.direction_eq_ite t,t.and_shr_one,t.and_shr_one,show kBits = 22 from rfl]
  generalize direction r = m at *
  have h0 : (q.l+m)/2^22 = 0 ∨ (q.l+m)/2^22 = m := by
    rcases hm with rfl | rfl <;> omega
  have h1 : (q.m+(q.l+m)/2^22)/2^22 = 0 ∨ (q.m+(q.l+m)/2^22)/2^22 = m := by
    rcases hm with rfl | rfl <;> omega
  rw [direction_mul_bit hm h0,direction_mul_bit hm h1,masked_value,value]
  congr 1
  ring

lemma Canonical.signed_nonneg_iff (hr : r.Canonical) : 0 ≤ r.signed ↔ r.h < 2^19 := by
  have h0 := hr.value_nonneg
  have h1 := hr.value_lt
  unfold signed
  split_ifs with h
  · exact iff_of_true h0 h
  · exact iff_of_false (by omega) h

lemma outside_iff (hb : b.Canonical) (hr : r.Canonical) :
    outside r b ↔ r.signed < 0 ∨ b.value ≤ r.signed := by
  have hsign := hr.signed_nonneg_iff
  obtain ⟨hb1,hb2,hb3,hb4,hb5,hb6⟩ := hb
  obtain ⟨hr1,hr2,hr3,hr4,hr5,hr6⟩ := hr
  unfold outside kSignBitMask
  by_cases h : r.h < 2^19
  · have hnonneg := hsign.2 h
    rw [signed,if_pos h] at hnonneg ⊢
    unfold value at *
    omega
  · exact iff_of_true (.inl (by omega)) (.inl (by omega))

lemma Divides.correct {A : ℤ} (h : Divides A b q r) (hb : b.Canonical) (hpos : 0 < b.value)
    (hmax : b.value ≤ 2^63) (hA : 0 ≤ A) (hA' : A ≤ 2^63) :
    Divides A b (correct t b q r).1 (correct t b q r).2 ∧
      (correct t b q r).2.signed = r.signed-direction r*b.value := by
  have hq0 := h.q_canonical.value_nonneg
  have hq1 := h.q_canonical.value_lt
  have hrest := correct_remainder t (q := q) hb h.r_canonical
  have hquot := correct_quotient t (b := b) h.q_canonical h.r_canonical
  have hqc : (Int64.correct t b q r).1.Canonical := masked_canonical ..
  have hrc : (Int64.correct t b q r).2.Canonical := masked_canonical ..
  have hsign := h.r_canonical.signed_nonneg_iff
  have hbound := h.r_canonical.signed_bounds
  have hmod : (r.value-direction r*b.value)%2^64 =
      (r.signed-direction r*b.value)%2^64 := by
    unfold signed
    split_ifs <;> omega
  have heq := h.eq
  have hle : q.value ≤ q.value*b.value := le_mul_of_one_le_right hq0 hpos
  rw [hmod] at hrest
  by_cases hs : r.h < 2^19
  · have hdir : direction r = 1 := if_pos hs
    have hnonneg := hsign.2 hs
    rw [hdir,one_mul] at hrest ⊢
    rw [hdir] at hquot
    have hsigned := hrc.signed_eq_of_emod hrest (by omega)
    have hvalue : (Int64.correct t b q r).1.value = q.value+1 := by omega
    refine ⟨⟨hqc,hrc,?_⟩,hsigned⟩
    rw [hvalue,hsigned,heq]
    ring
  · have hdir : direction r = -1 := if_neg hs
    have hqpos : 0 < q.value := by
      refine lt_of_le_of_ne hq0 fun hzero => ?_
      rw [← hzero,zero_mul] at heq
      omega
    rw [hdir,neg_one_mul,sub_neg_eq_add] at hrest ⊢
    rw [hdir] at hquot
    have hsigned := hrc.signed_eq_of_emod hrest (by omega)
    have hvalue : (Int64.correct t b q r).1.value = q.value-1 := by omega
    refine ⟨⟨hqc,hrc,?_⟩,hsigned⟩
    rw [hvalue,hsigned,heq]
    ring

lemma correctLoop_spec {A : ℤ} (hb : b.Canonical) (hpos : 0 < b.value) (hmax : b.value ≤ 2^63)
    (hA : 0 ≤ A) (hA' : A ≤ 2^63) (fuel : ℕ) (h : Divides A b q r)
    (habove : r.signed < fuel*b.value) (hbelow : r.signed < 0 → -r.signed ≤ (fuel-1)*b.value) :
    ∃ q' r', correctLoop t b fuel (q,r) = .ok (q',r') ∧ Divides A b q' r' ∧ 0 ≤ r'.signed ∧
      r'.signed < b.value := by
  induction fuel generalizing q r with
  | zero =>
    have hneg : r.signed < 0 := by simpa using habove
    have hle := hbelow hneg
    rw [Nat.cast_zero,zero_sub,neg_one_mul] at hle
    omega
  | succ fuel ih =>
    have hrange := outside_iff hb h.r_canonical
    push_cast [add_mul,add_sub_cancel_right] at habove hbelow
    rw [one_mul] at habove
    by_cases hout : outside r b
    · obtain ⟨hnext,hsigned⟩ := h.correct t hb hpos hmax hA hA'
      have hsign := h.r_canonical.signed_nonneg_iff
      have hmoved := hrange.1 hout
      have hcases : (direction r = 1 ∧ b.value ≤ r.signed) ∨ (direction r = -1 ∧ r.signed < 0) := by
        by_cases hs : r.h < 2^19
        · have hnonneg := hsign.2 hs
          exact .inl ⟨if_pos hs,by omega⟩
        · exact .inr ⟨if_neg hs,by omega⟩
      rw [correctLoop,if_pos hout]
      generalize correct t b q r = x at hnext hsigned ⊢
      obtain ⟨q',r'⟩ := x
      dsimp only at hnext hsigned
      rcases hcases with ⟨hdir,hge⟩ | ⟨hdir,hneg⟩
      · rw [hdir,one_mul] at hsigned
        exact ih hnext (hsigned.trans_lt (by omega)) fun hlt => absurd hlt (by omega)
      · have hle := hbelow hneg
        have hfuel : b.value ≤ fuel*b.value := by
          refine le_mul_of_one_le_left hpos.le ?_
          by_contra hzero
          rw [show (fuel : ℤ) = 0 by omega,zero_mul] at hle
          omega
        rw [hdir,neg_one_mul,sub_neg_eq_add] at hsigned
        refine ih hnext (hsigned.trans_lt (by omega)) fun _ => ?_
        rw [sub_mul,one_mul]
        omega
    · rw [correctLoop,if_neg hout]
      have hin := mt hrange.2 hout
      exact ⟨q,r,rfl,h,by omega,by omega⟩

lemma masked_self (ha : a.Canonical) : masked t a.l a.m a.h = a := by
  obtain ⟨h1,h2,h3,h4,h5,h6⟩ := ha
  rw [masked_eq,emod_eq_of_lt h1 h2,emod_eq_of_lt h3 h4,emod_eq_of_lt h5 h6]

lemma tdiv_eq_abs (x y : ℤ) :
    x.tdiv y = if (decide (x < 0) != decide (y < 0)) then -(|x| / |y|) else |x| / |y| := by
  rcases lt_or_ge x 0 with hx | hx <;> rcases lt_or_ge y 0 with hy | hy
  · rw [abs_of_neg hx,abs_of_neg hy,decide_eq_true hx,decide_eq_true hy,
      ← Int.tdiv_eq_ediv_of_nonneg (by omega),Int.neg_tdiv_neg]
    rfl
  · rw [abs_of_neg hx,abs_of_nonneg hy,decide_eq_true hx,decide_eq_false hy.not_gt,
      ← Int.tdiv_eq_ediv_of_nonneg (by omega),Int.neg_tdiv,neg_neg]
    rfl
  · rw [abs_of_nonneg hx,abs_of_neg hy,decide_eq_false hx.not_gt,decide_eq_true hy,
      ← Int.tdiv_eq_ediv_of_nonneg hx,Int.tdiv_neg,neg_neg]
    rfl
  · rw [abs_of_nonneg hx,abs_of_nonneg hy,decide_eq_false hx.not_gt,decide_eq_false hy.not_gt,
      Int.tdiv_eq_ediv_of_nonneg hx]
    rfl

lemma tmod_eq_abs (x y : ℤ) : x.tmod y = if x < 0 then -(|x| % |y|) else |x| % |y| := by
  have habs (z : ℤ) : z % |y| = z%y := emod_abs z y
  rw [habs]
  split_ifs with hx
  · rw [abs_of_neg hx,← tmod_eq_emod_of_nonneg (by omega),neg_tmod,neg_neg]
  · rw [abs_of_nonneg (not_lt.1 hx),tmod_eq_emod_of_nonneg (not_lt.1 hx)]

lemma emod_eq_abs {x y : ℤ} (hx : x < 0) (hy : y ≠ 0) :
    x%y = if |x| % |y| = 0 then 0 else |y| - |x| % |y| := by
  have hpos : 0 < |y| := abs_pos.2 hy
  have h0 := emod_nonneg |x| hpos.ne'
  have h1 := emod_lt_of_pos |x| hpos
  have hdiv := emod_add_mul_ediv |x| |y|
  have habs : |x| = -x := abs_of_neg hx
  rw [← emod_abs x y]
  split_ifs with hzero
  · refine emod_eq_zero_of_dvd ((dvd_abs _ _).1 (dvd_of_emod_eq_zero hzero))
  · refine (quotient_unique (Q := -(|x| / |y|)-1) ?_ (by omega) (by omega)).2.symm
    calc x = -|x| := by omega
      _ = -(|x| % |y| + |y| * (|x| / |y|)) := by rw [hdiv]
      _ = _ := by ring

variable (ha : a.Canonical)
include ha

lemma divideResult_spec (hb : b.Canonical) (hne : b.signed ≠ 0)
    (hq : q.Canonical) (hr : r.Canonical) (hqv : q.value = |a.signed| / |b.signed|)
    (hrv : r.value = |a.signed| % |b.signed|) :
    let result := divideResult t q r (a.isNegative t) (b.abs t) (b.isNegative t)
    (result .div).Denotes (BitVec.ofInt 64 (a.signed.tdiv b.signed)) ∧
      ((result .rem).Canonical ∧ (result .rem).signed = a.signed.tmod b.signed) ∧
      (result .mod).Canonical ∧ (result .mod).signed = a.signed%b.signed := by
  intro result
  obtain ⟨hbc,hbv,hbm⟩ := abs_value t hb
  have hneg {c : Int64} (hc : c.Canonical) : c.isNegative t = decide (c.signed < 0) := by
    rw [hc.isNegative_eq,← decide_not]
    exact decide_eq_decide.2 (by rw [← hc.signed_nonneg_iff,not_le])
  have hpos : 0 < |b.signed| := abs_pos.2 hne
  have hr0 := hr.value_nonneg
  have hr1 : r.value < |b.signed| := hrv ▸ emod_lt_of_pos _ hpos
  have hself := masked_self t hr
  have hrs : r.signed = r.value := hr.signed_eq_of_emod (by omega) (by omega)
  refine ⟨?_,?_,?_⟩
  · dsimp only [result,divideResult]
    rw [hneg ha,hneg hb,tdiv_eq_abs,← hqv]
    split_ifs with h
    · have hminus := neg_denotes t hq
      rwa [bits,← BitVec.ofInt_neg] at hminus
    · rw [masked_self t hq]
      exact ⟨hq,rfl⟩
  · dsimp only [result,divideResult]
    rw [hneg ha,hself,tmod_eq_abs,← hrv]
    by_cases h : a.signed < 0
    · rw [decide_eq_true h,if_pos rfl,if_pos h]
      obtain ⟨hc,hv⟩ := neg_value t hr
      exact ⟨hc,hc.signed_eq_of_emod hv (by omega)⟩
    · rw [decide_eq_false h,if_neg (by simp),if_neg h]
      exact ⟨hr,hrs⟩
  · dsimp only [result,divideResult]
    rw [hneg ha,hself]
    by_cases h : a.signed < 0
    · rw [decide_eq_true h,if_pos rfl,emod_eq_abs h hne,← hrv]
      have hzero : (r.l = 0 ∧ r.m = 0 ∧ r.h = 0) ↔ r.value = 0 := by
        obtain ⟨h1,h2,h3,h4,h5,h6⟩ := hr
        unfold value
        omega
      simp only [hzero]
      split_ifs with hz
      · exact ⟨by constructor <;> norm_num,by simp [signed,value]⟩
      · obtain ⟨hc,hv⟩ := subLimbs_value t hbc hr
        rw [hbv] at hv
        exact ⟨hc,hc.signed_eq_of_emod hv (by omega)⟩
    · rw [decide_eq_false h,if_neg (by simp)]
      refine ⟨hr,hrs.trans ?_⟩
      rw [hrv,abs_of_nonneg (not_lt.1 h),emod_abs]

lemma divideHelper_spec (hb : b.Canonical) (hne : b.signed ≠ 0) {estimate : ℤ}
    (hestimate : 2^8 ≤ |b.signed| → 0 ≤ estimate ∧ |(|a.signed| - estimate * |b.signed|)| < 2^63)
    {fuel : ℕ} (hfuel : 2^63+1 ≤ fuel) : ∃ q r : Int64, q.Canonical ∧ r.Canonical ∧ q.value =
      |a.signed| / |b.signed| ∧ r.value = |a.signed| % |b.signed| ∧ ∀ aNeg bNeg what,
      divideHelper t fuel estimate (a.abs t) aNeg (b.abs t) bNeg what =
      .ok (divideResult t q r aNeg (b.abs t) bNeg what) := by
  obtain ⟨hac,hav,ham⟩ := abs_value t ha
  obtain ⟨hbc,hbv,hbm⟩ := abs_value t hb
  have hpos : 0 < |b.signed| := abs_pos.2 hne
  unfold divideHelper
  by_cases hsmall : (b.abs t).isSmall = true
  · obtain ⟨hq,hr,hqv,hrv⟩ := divideSmall_value t hac (hbv ▸ hpos) hsmall
    rw [hav,hbv] at hqv hrv
    refine ⟨_,_,hq,hr,hqv,hrv,fun _ _ _ => ?_⟩
    rw [if_pos hsmall]
    rfl
  · have hlarge : 2^8 ≤ |b.signed| := by
      obtain ⟨h1,h2,h3,h4,h5,h6⟩ := hbc
      by_contra hlt
      rw [← hbv,value] at hlt
      refine hsmall ?_
      have hh : (b.abs t).h = 0 := by omega
      have hm : (b.abs t).m = 0 := by omega
      have hl : (b.abs t).l < 2^(30-kBits) := show (b.abs t).l < 2^8 by omega
      rw [isSmall,hh,hm,decide_eq_true hl]
      rfl
    obtain ⟨h0,hclose⟩ := hestimate hlarge
    rw [← hav,← hbv] at hclose
    have hstart := divideEstimated_divides t hac hbc (hbv ▸ hpos) ham h0 hclose
    have hbound := hstart.r_canonical.signed_bounds
    have hrounds : (2 : ℤ)^63 ≤ (fuel-1)*(b.abs t).value := by
      refine le_trans ?_ (le_mul_of_one_le_right (by omega) (hbv ▸ hpos))
      omega
    have hmore : (fuel-1)*(b.abs t).value < fuel*(b.abs t).value :=
      mul_lt_mul_of_pos_right (by omega) (hbv ▸ hpos)
    obtain ⟨q,r,hloop,hdiv,hr0,hr1⟩ := correctLoop_spec t hbc (hbv ▸ hpos) hbm
      hac.value_nonneg ham fuel hstart (by omega) (fun _ => by omega)
    have hrv : r.value = r.signed := by
      rw [signed,if_pos (hdiv.r_canonical.signed_nonneg_iff.1 hr0)]
    obtain ⟨hq,hr⟩ := quotient_unique hdiv.eq hr0 hr1
    refine ⟨q,r,hdiv.q_canonical,hdiv.r_canonical,?_,?_,fun _ _ _ => ?_⟩
    · rw [hq,hav,hbv]
    · rw [hrv,hr,hav,hbv]
    · rw [if_neg hsmall,hloop]
      rfl

lemma isZero_iff : a.isZero = true ↔ a.signed = 0 := by
  have hvalue : a.value = a.l+a.m*2^22+a.h*2^44 := rfl
  obtain ⟨h1,h2,h3,h4,h5,h6⟩ := ha
  simp only [isZero,Bool.and_eq_true,beq_iff_eq]
  unfold signed
  split_ifs <;> omega

lemma divide_spec (hb : b.Canonical) (hne : b.signed ≠ 0) {estimate : ℤ}
    (hestimate : 2^8 ≤ |b.signed| → 0 ≤ estimate ∧ |(|a.signed| - estimate * |b.signed|)| < 2^63)
    {fuel : ℕ} (hfuel : 2^63+1 ≤ fuel) : ∃ result : Returned → Int64,
      (∀ what, divide t fuel estimate a b what = .ok (result what)) ∧
      (result .div).Denotes (BitVec.ofInt 64 (a.signed.tdiv b.signed)) ∧
      ((result .rem).Canonical ∧ (result .rem).signed = a.signed.tmod b.signed) ∧
      (result .mod).Canonical ∧ (result .mod).signed = a.signed%b.signed := by
  have hzero : ¬b.isZero = true := mt (isZero_iff hb).1 hne
  unfold divide
  simp only [if_neg hzero]
  by_cases haz : a.isZero = true
  · have hc : Canonical ⟨0,0,0⟩ := by constructor <;> norm_num
    refine ⟨fun _ => ⟨0,0,0⟩,fun _ => if_pos haz,?_⟩
    rw [(isZero_iff ha).1 haz,Int.zero_tdiv,Int.zero_tmod,Int.zero_emod]
    exact ⟨⟨hc,rfl⟩,⟨hc,rfl⟩,hc,rfl⟩
  · obtain ⟨q,r,hq,hr,hqv,hrv,hresult⟩ := divideHelper_spec t ha hb hne hestimate hfuel
    simp only [if_neg haz]
    exact ⟨_,fun _ => hresult ..,divideResult_spec t ha hb hne hq hr hqv hrv⟩

omit ha

/-- For every estimate whose remainder fits into 64 bits, `~/`, `remainder` and `%` end after
finitely many rounds with the truncated quotient modulo `2 ^ 64`, the remainder with the sign of
the dividend and the Euclidean modulus. -/
theorem divide_exact (ha : a.Canonical) (hb : b.Canonical) (hne : b.bits.toInt ≠ 0) (estimate : ℤ)
    (hestimate : 2^8 ≤ |b.bits.toInt| →
      0 ≤ estimate ∧ |(|a.bits.toInt| - estimate * |b.bits.toInt|)| < 2^63) :
    ∃ rounds, ∀ fuel ≥ rounds, ∃ q r m,
      (divide t fuel estimate a b .div = .ok q ∧
        q.Denotes (BitVec.ofInt 64 (a.bits.toInt.tdiv b.bits.toInt))) ∧
      (divide t fuel estimate a b .rem = .ok r ∧ r.Canonical ∧
        r.bits.toInt = a.bits.toInt.tmod b.bits.toInt) ∧
      (divide t fuel estimate a b .mod = .ok m ∧ m.Canonical ∧
        m.bits.toInt = a.bits.toInt%b.bits.toInt ∧ 0 ≤ m.bits.toInt ∧
        m.bits.toInt < |b.bits.toInt|) := by
  rw [ha.signed_eq,hb.signed_eq] at *
  refine ⟨2^63+1,fun fuel hfuel => ?_⟩
  obtain ⟨result,hresult,hdiv,⟨hremc,hrem⟩,hmodc,hmod⟩ := divide_spec t ha hb hne hestimate hfuel
  rw [← hremc.signed_eq] at hrem
  rw [← hmodc.signed_eq] at hmod
  refine ⟨_,_,_,⟨hresult _,hdiv⟩,⟨hresult _,hremc,hrem⟩,hresult _,hmodc,hmod,?_,?_⟩
  · rw [hmod]
    exact Int.emod_nonneg _ hne
  · rw [hmod]
    exact Int.emod_lt_abs _ hne

/-- With 32-bit operators and an estimate that is one too large, `MIN_VALUE` by `-1000`. -/
theorem divide_exact_min : ∃ rounds, ∀ fuel ≥ rounds, ∃ q r m,
      (divide .js fuel 9223372036854776 ⟨0,0,524288⟩ ⟨4193304,4194303,1048575⟩ .div = .ok q ∧
        q.Denotes 9223372036854775#64) ∧
      (divide .js fuel 9223372036854776 ⟨0,0,524288⟩ ⟨4193304,4194303,1048575⟩ .rem = .ok r ∧
        r.Canonical ∧ r.bits.toInt = -808) ∧
      (divide .js fuel 9223372036854776 ⟨0,0,524288⟩ ⟨4193304,4194303,1048575⟩ .mod = .ok m ∧
        m.Canonical ∧ m.bits.toInt = 192 ∧ 0 ≤ m.bits.toInt ∧ m.bits.toInt < 1000) :=
  have ha : Canonical ⟨0,0,524288⟩ := by constructor <;> norm_num
  have hb : Canonical ⟨4193304,4194303,1048575⟩ := by constructor <;> norm_num
  divide_exact .js ha hb (by decide) 9223372036854776 (fun _ => by decide)

end Int64

end DartSdk.Fixnum
