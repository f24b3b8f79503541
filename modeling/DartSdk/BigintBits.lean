import DartSdk.BigintShifts

/-! `_and`, `_andNot`, `_or`, `_xor` and `_not` compute on the two's complement of a negative
operand through `~(n - 1) == -n`. -/
namespace DartSdk.Bigint

open Iteration Utils Nat Uint32List

variable {x : Bigint} {m : ℕ}

/-- `r_digits[i] = digits[i] op a_digits[i]`. -/
def bitStep (op : ℤ → ℤ → ℤ) (digits aDigits r : Uint32List) (i : ℕ) : Option Uint32List := do
  r.write i (op (← digits.read i) (← aDigits.read i))

def absAndSetSign (x a : Bigint) (neg : Bool) : Option Bigint := do
  let rUsed := if x.used < a.used then x.used else a.used
  let r ← forUp 0 rUsed (Uint32List.new (rUsed+rUsed%2)) (bitStep Int.land x.digits a.digits)
  new neg rUsed r

/-- `d &~ e` on digits. -/
def andNotDigit (d e : ℤ) : ℤ := Int.land d (Int.lnot e)

def absAndNotSetSign (x a : Bigint) (neg : Bool) : Option Bigint := do
  let rUsed := x.used
  let m := if rUsed < a.used then rUsed else a.used
  let r ← forUp 0 m (Uint32List.new (rUsed+rUsed%2)) (bitStep andNotDigit x.digits a.digits)
  let r ← forUp m rUsed r (moveDown (.array x.digits) 0)
  new neg rUsed r

/-- `_absOrSetSign` and `_absXorSetSign`: the digits of the longer operand are copied. -/
def absMergeSetSign (op : ℤ → ℤ → ℤ) (x a : Bigint) (neg : Bool) : Option Bigint := do
  let rUsed := if a.used < x.used then x.used else a.used
  let l := if x.used < a.used then a else x
  let m := if x.used < a.used then x.used else a.used
  let r ← forUp 0 m (Uint32List.new (rUsed+rUsed%2)) (bitStep op x.digits a.digits)
  let r ← forUp m rUsed r (moveDown (.array l.digits) 0)
  new neg rUsed r

def absOrSetSign : Bigint → Bigint → Bool → Option Bigint := absMergeSetSign Int.lor

def absXorSetSign : Bigint → Bigint → Bool → Option Bigint := absMergeSetSign Int.xor

def and (x a : Bigint) : Option Bigint :=
  if x.neg = a.neg then
    if x.neg then do
      let t1 ← x.absSubSetSign one true
      let a1 ← a.absSubSetSign one true
      (← t1.absOrSetSign a1 true).absAddSetSign one true
    else x.absAndSetSign a false
  else do
    let p := if x.neg then a else x
    let n := if x.neg then x else a
    let n1 ← n.absSubSetSign one false
    p.absAndNotSetSign n1 false

def andNot (x a : Bigint) : Option Bigint :=
  if x.neg = a.neg then
    if x.neg then do
      let t1 ← x.absSubSetSign one true
      let a1 ← a.absSubSetSign one true
      a1.absAndNotSetSign t1 false
    else x.absAndNotSetSign a false
  else if x.neg then do
    let t1 ← x.absSubSetSign one true
    (← t1.absOrSetSign a true).absAddSetSign one true
  else do
    let a1 ← a.absSubSetSign one true
    x.absAndSetSign a1 false

def or (x a : Bigint) : Option Bigint :=
  if x.neg = a.neg then
    if x.neg then do
      let t1 ← x.absSubSetSign one true
      let a1 ← a.absSubSetSign one true
      (← t1.absAndSetSign a1 true).absAddSetSign one true
    else x.absOrSetSign a false
  else do
    let p := if x.neg then a else x
    let n := if x.neg then x else a
    let n1 ← n.absSubSetSign one true
    (← n1.absAndNotSetSign p true).absAddSetSign one true

def xor (x a : Bigint) : Option Bigint :=
  if x.neg = a.neg then
    if x.neg then do
      let t1 ← x.absSubSetSign one true
      let a1 ← a.absSubSetSign one true
      t1.absXorSetSign a1 false
    else x.absXorSetSign a false
  else do
    let p := if x.neg then a else x
    let n := if x.neg then x else a
    let n1 ← n.absSubSetSign one true
    (← p.absXorSetSign n1 true).absAddSetSign one true

def not (x : Bigint) : Option Bigint :=
  if x.neg then x.absSubSetSign one false else x.absAddSetSign one true

/-- The digit operation `op` acts on the bits of digits as `f`. -/
structure BitOp (op : ℤ → ℤ → ℤ) (g : ℕ → ℕ → ℕ) (f : Bool → Bool → Bool) : Prop where
  cast : ∀ m n : ℕ, op m n = g m n
  testBit : ∀ m n i, (g m n).testBit i = f (m.testBit i) (n.testBit i)
  zero : f false false = false

lemma bitOp_land : BitOp Int.land (· &&& ·) (· && ·) :=
  ⟨fun _ _ => rfl,testBit_and,rfl⟩

lemma bitOp_lor : BitOp Int.lor (· ||| ·) (· || ·) :=
  ⟨fun _ _ => rfl,testBit_or,rfl⟩

lemma bitOp_xor : BitOp Int.xor (· ^^^ ·) (fun a b => a ^^ b) :=
  ⟨fun _ _ => rfl,testBit_xor,rfl⟩

lemma bitOp_andNot : BitOp andNotDigit ldiff (fun a b => a && !b) :=
  ⟨fun _ _ => rfl,testBit_ldiff,rfl⟩

lemma ldiff_zero (m : ℕ) : ldiff m 0 = m :=
  eq_of_testBit_eq fun i => by simp

lemma zero_ldiff (n : ℕ) : ldiff 0 n = 0 :=
  eq_of_testBit_eq fun i => by simp

namespace BitOp

variable {op : ℤ → ℤ → ℤ} {g : ℕ → ℕ → ℕ} {f : Bool → Bool → Bool}

lemma lt (h : BitOp op g f) {n w : ℕ} (hm : m < 2^w) (hn : n < 2^w) : g m n < 2^w := by
  refine Nat.lt_pow_two_of_testBit _ fun i hi => ?_
  rw [h.testBit,Nat.testBit_lt_two_pow (hm.trans_le (Nat.pow_le_pow_right (by norm_num) hi)),
    Nat.testBit_lt_two_pow (hn.trans_le (Nat.pow_le_pow_right (by norm_num) hi)),h.zero]

lemma loop (h : BitOp op g f) {x a o : Uint32List} (hx : m ≤ x.length) (ha : m ≤ a.length)
    (hr : m ≤ o.length) : ∃ r, forUp 0 m o (bitStep op x a) = some r ∧
      Filled o (fun k => g (x.digit k) (a.digit k)) 0 m r :=
  forUp_fill _ (fun k => h.lt (x.digit_lt k) (a.digit_lt k)) (zero_le m) le_rfl hr
    fun i r _ hi _ => by simp [bitStep,read_eq (hi.trans_le hx),read_eq (hi.trans_le ha),h.cast]

lemma value_eq (h : BitOp op g f) {x a r : Uint32List} {n l : ℕ}
    (hdig : ∀ k < l, r.digit k = g (extend x m k) (extend a n k))
    (htop : ∀ k, l ≤ k → g (extend x m k) (extend a n k) = 0) :
    r.value l = g (x.value m) (a.value n) := by
  refine eq_of_testBit_eq fun i => ?_
  have hbit : ∀ (xs : Uint32List) (m : ℕ),
      (xs.value m).testBit i = (extend xs m (i/32)).testBit (i%32) := by
    intro xs m
    unfold Uint32List.value extend
    rw [Positional.testBit_value (by norm_num) fun k _ => xs.digit_lt k]
    by_cases hi : i/32 < m <;> simp [hi]
  rw [h.testBit,hbit x,hbit a,← h.testBit,hbit r]
  unfold extend at hdig htop ⊢
  by_cases hi : i/32 < l
  · rw [if_pos hi,hdig _ hi]
  · rw [if_neg hi,htop _ (by omega)]

end BitOp

lemma absAndSetSign_spec (x a : Bigint) (neg : Bool) :
    ∃ r, x.absAndSetSign a neg = some r ∧ r.toInt = withSign neg (x.magnitude &&& a.magnitude) := by
  have hx := x.used_le_length
  have ha := a.used_le_length
  unfold absAndSetSign
  generalize hl : (if x.used < a.used then x.used else a.used) = l
  have hlx : l ≤ x.used ∧ l ≤ a.used ∧ (l = x.used ∨ l = a.used) := by
    split_ifs at hl <;> omega
  obtain ⟨d,hd,h⟩ := bitOp_land.loop (x := x.digits) (a := a.digits) (m := l)
    (o := Uint32List.new (l+l%2)) (by omega) (by omega)
    (by rw [length_new]; omega)
  have hlen := h.length
  rw [length_new] at hlen
  obtain ⟨r,hr, -,hrv⟩ := new_spec neg l d hlen.ge
  refine ⟨r,by simp [hd,hr],?_⟩
  rw [hrv,bitOp_land.value_eq]
  · rfl
  · intro k hk
    rw [h.inside (by omega),extend,extend,if_pos (by omega),if_pos (by omega)]
  · intro k hk
    rcases hlx.2.2 with h | h
    · simp [extend,if_neg (by omega : ¬ k < x.used)]
    · simp [extend,if_neg (by omega : ¬ k < a.used)]

/-- A bit loop over the common digits followed by a copy of the remaining digits of `l`. -/
lemma BitOp.merge {op : ℤ → ℤ → ℤ} {g : ℕ → ℕ → ℕ} {f : Bool → Bool → Bool} (h : BitOp op g f)
    {x a l : Bigint} (neg : Bool) (hx : m ≤ x.used) (ha : m ≤ a.used) (hl : m ≤ l.used)
    (hrest : ∀ k, m ≤ k → k < l.used →
      g (extend x.digits x.used k) (extend a.digits a.used k) = l.digits.digit k)
    (htop : ∀ k, l.used ≤ k → g (extend x.digits x.used k) (extend a.digits a.used k) = 0) :
    ∃ r₁ d r, forUp 0 m (Uint32List.new (l.used+l.used%2)) (bitStep op x.digits a.digits) =
      some r₁ ∧ forUp m l.used r₁ (moveDown (.array l.digits) 0) = some d ∧
      new neg l.used d = some r ∧ r.toInt = withSign neg (g x.magnitude a.magnitude) := by
  obtain ⟨r₁,hr₁,h₁⟩ := h.loop (o := Uint32List.new (l.used+l.used%2))
    (hx.trans x.used_le_length) (ha.trans a.used_le_length) (by rw [length_new]; omega)
  have hlen₁ := h₁.length
  rw [length_new] at hlen₁
  obtain ⟨d,hd,h₂⟩ := moveDown_loop (x := .array l.digits) (o := r₁) hl (zero_le m)
    l.used_le_length (by omega)
  obtain ⟨r,hr, -,hrv⟩ := new_spec neg l.used d (by rw [h₂.length]; omega)
  refine ⟨r₁,d,r,hr₁,hd,hr,?_⟩
  rw [hrv,h.value_eq (fun k hk => ?_) htop]
  · rfl
  · by_cases hkm : k < m
    · rw [h₂.outside (by omega),h₁.inside (by omega),extend,extend,if_pos (by omega),if_pos (by omega)]
    · rw [h₂.inside (by omega),hrest k (by omega) hk]
      rfl

lemma absAndNotSetSign_spec (x a : Bigint) (neg : Bool) : ∃ r, x.absAndNotSetSign a neg = some r ∧
      r.toInt = withSign neg (ldiff x.magnitude a.magnitude) := by
  unfold absAndNotSetSign
  generalize hm : (if x.used < a.used then x.used else a.used) = m
  have hmx : m ≤ x.used ∧ m ≤ a.used ∧ (m = x.used ∨ m = a.used) := by
    split_ifs at hm <;> omega
  obtain ⟨r₁,d,r,hr₁,hd,hr,hrv⟩ := bitOp_andNot.merge neg hmx.1
    hmx.2.1 hmx.1
    (fun k hk hk' => by rw [extend,extend,if_pos hk',if_neg (by omega),ldiff_zero])
    (fun k hk => by rw [extend,if_neg (by omega),zero_ldiff])
  exact ⟨r,by simp [hm,hr₁,hd,hr,some_bind],hrv⟩

lemma absMergeSetSign_spec {op : ℤ → ℤ → ℤ} {g : ℕ → ℕ → ℕ} {f : Bool → Bool → Bool}
    (h : BitOp op g f) (hleft : ∀ m, g m 0 = m) (hright : ∀ n, g 0 n = n) (x a : Bigint)
    (neg : Bool) : ∃ r, absMergeSetSign op x a neg = some r ∧ r.toInt =
      withSign neg (g x.magnitude a.magnitude) := by
  unfold absMergeSetSign
  by_cases hlt : x.used < a.used
  · obtain ⟨r₁,d,r,hr₁,hd,hr,hrv⟩ := h.merge neg le_rfl hlt.le hlt.le
      (fun k hk hk' => by rw [extend,extend,if_neg (by omega),if_pos hk',hright])
      (fun k hk => by rw [extend,extend,if_neg (by omega),if_neg (by omega),hleft])
    refine ⟨r,?_,hrv⟩
    simp [if_pos hlt,if_neg (by omega : ¬ a.used < x.used),hr₁,hd,hr,some_bind]
  · obtain ⟨r₁,d,r,hr₁,hd,hr,hrv⟩ := h.merge neg (not_lt.1 hlt) le_rfl
      (not_lt.1 hlt) (fun k hk hk' => by rw [extend,extend,if_pos hk',if_neg (by omega),hleft])
      (fun k hk => by rw [extend,extend,if_neg (by omega),if_neg (by omega),hleft])
    have hmax : (if a.used < x.used then x.used else a.used) = x.used := by split_ifs <;> omega
    refine ⟨r,?_,hrv⟩
    simp [if_neg hlt,hmax,hr₁,hd,hr,some_bind]

lemma absOrSetSign_spec (x a : Bigint) (neg : Bool) :
    ∃ r, x.absOrSetSign a neg = some r ∧ r.toInt = withSign neg (x.magnitude ||| a.magnitude) :=
  absMergeSetSign_spec bitOp_lor or_zero zero_or x a neg

lemma absXorSetSign_spec (x a : Bigint) (neg : Bool) :
    ∃ r, x.absXorSetSign a neg = some r ∧ r.toInt = withSign neg (x.magnitude ^^^ a.magnitude) :=
  absMergeSetSign_spec bitOp_xor Nat.xor_zero Nat.zero_xor x a neg

lemma toInt_of_nonneg (h : x.neg = false) : x.toInt = Int.ofNat x.magnitude := by
  simp [toInt,withSign,h]

variable (h : x.neg = true)
include h

lemma magnitude_pos : 0 < x.magnitude := by
  have hneg := x.toInt_neg_iff.mpr h
  rw [toInt,withSign,if_pos h] at hneg
  omega

lemma toInt_of_neg : x.toInt = Int.negSucc (x.magnitude-1) := by
  have := magnitude_pos h
  rw [toInt,withSign,if_pos h,Int.negSucc_eq]
  omega

omit h in
lemma magnitude_of_toInt {neg : Bool} (h : x.toInt = withSign neg m) : x.magnitude = m := by
  rw [← x.natAbs_toInt,h]
  unfold withSign
  split_ifs <;> simp

lemma absSubOne_spec (neg : Bool) :
    ∃ r, x.absSubSetSign one neg = some r ∧ r.toInt = withSign neg (x.magnitude-1) := by
  have hpos : one.magnitude ≤ x.magnitude := by
    rw [magnitude_one]
    exact magnitude_pos h
  have hsub := absSubSetSign_spec hpos neg
  rwa [magnitude_one] at hsub

lemma absSubOne_bind (neg : Bool) {f : Bigint → Option Bigint}
    {z : ℤ} (hf : ∀ r, r.magnitude = x.magnitude-1 → ∃ r', f r = some r' ∧ r'.toInt = z) :
    ∃ r', (x.absSubSetSign one neg >>= f) = some r' ∧ r'.toInt = z := by
  obtain ⟨r,hr,hval⟩ := absSubOne_spec h neg
  rw [hr,some_bind]
  exact hf r (magnitude_of_toInt hval)

omit h

lemma absAddOne_spec {r : Bigint} (h : r.magnitude = m) :
    ∃ r', r.absAddSetSign one true = some r' ∧ r'.toInt = Int.negSucc m := by
  obtain ⟨r',hr',hval⟩ := absAddSetSign_spec r one true
  refine ⟨r',hr',?_⟩
  rw [hval,h,magnitude_one,withSign,if_pos rfl,Int.negSucc_eq]
  push_cast
  ring

lemma bind_absAddOne {o : Option Bigint} (h : ∃ r, o = some r ∧ r.toInt = withSign true m) :
    ∃ r, (o >>= fun r => r.absAddSetSign one true) = some r ∧ r.toInt = Int.negSucc m := by
  obtain ⟨r,rfl,hval⟩ := h
  exact absAddOne_spec (magnitude_of_toInt hval)

lemma and_spec (x a : Bigint) : ∃ r, x.and a = some r ∧ r.toInt = Int.land x.toInt a.toInt := by
  unfold and
  cases hx : x.neg <;> cases ha : a.neg
  · rw [toInt_of_nonneg hx,toInt_of_nonneg ha]
    exact absAndSetSign_spec x a false
  · rw [toInt_of_nonneg hx,toInt_of_neg ha]
    exact absSubOne_bind ha false fun n1 hn => hn ▸ absAndNotSetSign_spec x n1 false
  · rw [toInt_of_neg hx,toInt_of_nonneg ha]
    exact absSubOne_bind hx false fun n1 hn => hn ▸ absAndNotSetSign_spec a n1 false
  · rw [toInt_of_neg hx,toInt_of_neg ha]
    refine absSubOne_bind hx true fun t1 ht => absSubOne_bind ha true fun a1 hn => ?_
    exact bind_absAddOne (ht ▸ hn ▸ absOrSetSign_spec t1 a1 true)

lemma or_spec (x a : Bigint) : ∃ r, x.or a = some r ∧ r.toInt = Int.lor x.toInt a.toInt := by
  unfold or
  cases hx : x.neg <;> cases ha : a.neg
  · rw [toInt_of_nonneg hx,toInt_of_nonneg ha]
    exact absOrSetSign_spec x a false
  · rw [toInt_of_nonneg hx,toInt_of_neg ha]
    refine absSubOne_bind ha true fun n1 hn => ?_
    exact bind_absAddOne (hn ▸ absAndNotSetSign_spec n1 x true)
  · rw [toInt_of_neg hx,toInt_of_nonneg ha]
    refine absSubOne_bind hx true fun n1 hn => ?_
    exact bind_absAddOne (hn ▸ absAndNotSetSign_spec n1 a true)
  · rw [toInt_of_neg hx,toInt_of_neg ha]
    refine absSubOne_bind hx true fun t1 ht => absSubOne_bind ha true fun a1 hn => ?_
    exact bind_absAddOne (ht ▸ hn ▸ absAndSetSign_spec t1 a1 true)

lemma xor_spec (x a : Bigint) : ∃ r, x.xor a = some r ∧ r.toInt = Int.xor x.toInt a.toInt := by
  unfold xor
  cases hx : x.neg <;> cases ha : a.neg
  · rw [toInt_of_nonneg hx,toInt_of_nonneg ha]
    exact absXorSetSign_spec x a false
  · rw [toInt_of_nonneg hx,toInt_of_neg ha]
    refine absSubOne_bind ha true fun n1 hn => ?_
    exact bind_absAddOne (hn ▸ absXorSetSign_spec x n1 true)
  · rw [toInt_of_neg hx,toInt_of_nonneg ha]
    refine absSubOne_bind hx true fun n1 hn => ?_
    have hxor := absXorSetSign_spec a n1 true
    rw [hn,Nat.xor_comm] at hxor
    exact bind_absAddOne hxor
  · rw [toInt_of_neg hx,toInt_of_neg ha]
    refine absSubOne_bind hx true fun t1 ht => absSubOne_bind ha true fun a1 hn => ?_
    exact ht ▸ hn ▸ absXorSetSign_spec t1 a1 false

lemma andNot_spec (x a : Bigint) :
    ∃ r, x.andNot a = some r ∧ r.toInt = Int.ldiff x.toInt a.toInt := by
  unfold andNot
  cases hx : x.neg <;> cases ha : a.neg
  · rw [toInt_of_nonneg hx,toInt_of_nonneg ha]
    exact absAndNotSetSign_spec x a false
  · rw [toInt_of_nonneg hx,toInt_of_neg ha]
    exact absSubOne_bind ha true fun a1 hn => hn ▸ absAndSetSign_spec x a1 false
  · rw [toInt_of_neg hx,toInt_of_nonneg ha]
    refine absSubOne_bind hx true fun t1 ht => ?_
    exact bind_absAddOne (ht ▸ absOrSetSign_spec t1 a true)
  · rw [toInt_of_neg hx,toInt_of_neg ha]
    refine absSubOne_bind hx true fun t1 ht => absSubOne_bind ha true fun a1 hn => ?_
    exact ht ▸ hn ▸ absAndNotSetSign_spec a1 t1 false

lemma not_spec (x : Bigint) : ∃ r, x.not = some r ∧ r.toInt = Int.lnot x.toInt := by
  unfold not
  cases hx : x.neg
  · rw [toInt_of_nonneg hx]
    exact absAddOne_spec rfl
  · rw [toInt_of_neg hx]
    exact absSubOne_spec hx false

/-- The bit operations act on the bits of the infinite two's complement of their operands, and
shifts multiply by a power of two or divide by it, rounding down. -/
theorem bit_operations_exact (x y : Bigint) (n : ℕ) :
    (∃ r, x.and y = some r ∧ ∀ i, r.toInt.testBit i = (x.toInt.testBit i && y.toInt.testBit i)) ∧
    (∃ r, x.or y = some r ∧ ∀ i, r.toInt.testBit i = (x.toInt.testBit i || y.toInt.testBit i)) ∧
    (∃ r, x.xor y = some r ∧ ∀ i, r.toInt.testBit i = (x.toInt.testBit i ^^ y.toInt.testBit i)) ∧
    (∃ r, x.andNot y = some r ∧
      ∀ i, r.toInt.testBit i = (x.toInt.testBit i && !y.toInt.testBit i)) ∧
    (∃ r, x.not = some r ∧ ∀ i, r.toInt.testBit i = !x.toInt.testBit i) ∧
    (∃ r, x.lShift n = some r ∧ r.toInt = x.toInt*2^n) ∧
    ∃ r, x.rShift n = some r ∧ r.toInt = ⌊(x.toInt : ℚ)/2^n⌋ := by
  refine ⟨?_,?_,?_,?_,?_,lShift_spec x n,?_⟩
  · obtain ⟨r,hr,hval⟩ := and_spec x y
    exact ⟨r,hr,fun i => by rw [hval,Int.testBit_land]⟩
  · obtain ⟨r,hr,hval⟩ := or_spec x y
    exact ⟨r,hr,fun i => by rw [hval,Int.testBit_lor]⟩
  · obtain ⟨r,hr,hval⟩ := xor_spec x y
    exact ⟨r,hr,fun i => by rw [hval,Int.testBit_lxor]⟩
  · obtain ⟨r,hr,hval⟩ := andNot_spec x y
    exact ⟨r,hr,fun i => by rw [hval,Int.testBit_ldiff]⟩
  · obtain ⟨r,hr,hval⟩ := not_spec x
    exact ⟨r,hr,fun i => by rw [hval,Int.testBit_lnot]⟩
  · obtain ⟨r,hr,hval⟩ := rShift_spec x n
    refine ⟨r,hr,?_⟩
    rw [hval]
    have h := Rat.floor_intCast_div_natCast x.toInt (2^n)
    push_cast at h ⊢
    exact h.symm

end DartSdk.Bigint
