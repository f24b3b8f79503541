import DartSdk.Iteration
import DartSdk.PlatformUtils
import DartSdk.Positional

/-! A `_Bigint` of `lib/bigint.dart` is a sign, an array of 32-bit digits in little endian order and
the number of digits in use; `Bigint::New` of `vm/object.cc` clamps the digits. An access outside of
an array and a machine integer outside of the range of a `Mint` are failed runs. -/
namespace DartSdk

open Utils List Nat Positional Iteration

variable {xs : Uint32List}

/-- A `Uint32List`, the array type of digits. -/
abbrev Uint32List := List UInt32

abbrev digitBase : ℕ := 2^32

namespace Uint32List

/-- `new Uint32List(length)`. -/
def new (length : ℕ) : Uint32List := List.replicate length 0

section
variable (xs : Uint32List)

def read (i : ℕ) : Option ℤ := xs[i]?.map fun d => (d.toNat : ℤ)

/-- An element keeps the low 32 bits of the stored integer. -/
def write (i : ℕ) (v : ℤ) : Option Uint32List :=
  if i < xs.length then some (xs.set i (UInt32.ofInt v)) else none

/-- The element at `i`, zero outside of the array. -/
def digit (i : ℕ) : ℕ := (xs.getD i 0).toNat

/-- The number formed by the first `n` digits. -/
def value (n : ℕ) : ℕ := Positional.value digitBase xs.digit n

/-- The number formed by `n` digits from `i` on. -/
def slice (i n : ℕ) : ℕ := Positional.value digitBase (fun k => xs.digit (i+k)) n

lemma digit_lt (i : ℕ) : xs.digit i < 2^32 := UInt32.toNat_lt _

lemma value_lt (n : ℕ) : xs.value n < digitBase^n :=
  Positional.value_lt fun k _ => xs.digit_lt k

lemma value_succ (n : ℕ) : xs.value (n+1) = xs.value n+xs.digit n*digitBase^n := rfl

lemma slice_succ (i n : ℕ) : xs.slice i (n+1) = xs.slice i n+xs.digit (i+n)*digitBase^n := rfl

lemma slice_succ_left (i n : ℕ) : xs.slice i (n+1) = xs.digit i+digitBase*xs.slice (i+1) n := by
  have h := value_add digitBase (fun k => xs.digit (i+k)) 1 n
  rw [add_comm] at h
  simpa [slice,add_assoc] using h

@[simp] lemma slice_zero_left (n : ℕ) : xs.slice 0 n = xs.value n :=
  value_congr fun k _ => by rw [zero_add]

lemma value_add (m n : ℕ) : xs.value (m+n) = xs.value m+digitBase^m*xs.slice m n :=
  Positional.value_add digitBase xs.digit m n

end

@[simp] lemma length_new (n : ℕ) : (new n).length = n := length_replicate

@[simp] lemma digit_new (n i : ℕ) : (new n).digit i = 0 := by
  unfold digit new
  rw [getD_eq_getElem?_getD,getElem?_replicate]
  split_ifs <;> rfl

lemma value_new (n m : ℕ) : (new n).value m = 0 :=
  value_eq_zero fun k _ => digit_new n k

lemma read_eq {i : ℕ} (h : i < xs.length) : xs.read i = some (xs.digit i : ℤ) := by
  simp [read,digit,getElem?_eq_getElem h]

lemma write_eq {i : ℕ} {v : ℤ} (h : i < xs.length) :
    xs.write i v = some (xs.set i (UInt32.ofInt v)) := if_pos h

lemma digit_set {i : ℕ} (h : i < xs.length) (v : ℤ) (k : ℕ) :
    digit (xs.set i (UInt32.ofInt v)) k = if k = i then (v%2^32).toNat else xs.digit k := by
  unfold digit
  rw [getD_eq_getElem?_getD,getD_eq_getElem?_getD,getElem?_set]
  by_cases hk : i = k
  · subst hk
    have hlt : (v%2^32).toNat < 2^32 := by omega
    simp only [if_pos h]
    exact mod_eq_of_lt hlt
  · rw [if_neg hk,if_neg (Ne.symm hk)]

lemma write_spec {i : ℕ} {v : ℤ} (h : i < xs.length) : ∃ ys, xs.write i v = some ys ∧ ys.length =
      xs.length ∧ (ys.digit i : ℤ) = v%digitBase ∧ ∀ k, k ≠ i → ys.digit k = xs.digit k := by
  refine ⟨_,write_eq h,length_set,?_,fun k hk => by rw [digit_set h,if_neg hk]⟩
  rw [digit_set h,if_pos rfl,Int.toNat_of_nonneg (Int.emod_nonneg v (by norm_num))]
  norm_num

lemma write_digit_spec (xs : Uint32List) {i v : ℕ} (h : i < xs.length) (hv : v < 2^32) :
    ∃ ys, xs.write i v = some ys ∧ ys.length = xs.length ∧ ys.digit i = v ∧
      ∀ k, k ≠ i → ys.digit k = xs.digit k := by
  obtain ⟨ys,hys,hlen,hdig,hother⟩ := write_spec h
  refine ⟨ys,hys,hlen,?_,hother⟩
  rw [Int.emod_eq_of_lt (by omega) (by exact_mod_cast hv)] at hdig
  exact_mod_cast hdig

/-- A loop has written `v k` to the digits `lo ≤ k < hi`; the others are those of `o`. -/
structure Filled (o : Uint32List) (v : ℕ → ℕ) (lo hi : ℕ) (r : Uint32List) : Prop where
  length : r.length = o.length
  digit : ∀ k, r.digit k = if lo ≤ k ∧ k < hi then v k else o.digit k

section Filled
variable {o r : Uint32List} {v : ℕ → ℕ} {f : Uint32List → ℕ → Option Uint32List} {lo hi n : ℕ}

lemma Filled.start (o : Uint32List) (v : ℕ → ℕ) (n : ℕ) : Filled o v n n o :=
  ⟨rfl,fun k => by rw [if_neg (by omega)]⟩

lemma Filled.inside (h : Filled o v lo hi r) {k : ℕ} (hk : lo ≤ k ∧ k < hi) :
    r.digit k = v k := by rw [h.digit,if_pos hk]

lemma Filled.outside (h : Filled o v lo hi r) {k : ℕ} (hk : k < lo ∨ hi ≤ k) :
    r.digit k = o.digit k := by rw [h.digit,if_neg (by omega)]

lemma Filled.up (h : Filled o v lo hi r) (hv : v hi < 2^32) (hle : lo ≤ hi) (hlen : hi < o.length) :
    ∃ r', r.write hi (v hi) = some r' ∧ Filled o v lo (hi+1) r' := by
  obtain ⟨r',hr',hlen',hdig,hother⟩ := write_digit_spec r (h.length ▸ hlen) hv
  exact ⟨r',hr',hlen'.trans h.length,by grind [h.digit]⟩

lemma Filled.down {i : ℕ} (h : Filled o v lo hi r) (hv : v i < 2^32) (hlo : lo = i+1) (hlt : i < hi)
    (hlen : i < o.length) : ∃ r', r.write i (v i) = some r' ∧ Filled o v i hi r' := by
  obtain ⟨r',hr',hlen',hdig,hother⟩ := write_digit_spec r (h.length ▸ hlen) hv
  exact ⟨r',hr',hlen'.trans h.length,by grind [h.digit]⟩

variable (v) (hv : ∀ k, v k < 2^32)
include hv

lemma forUp_fill (hle : lo ≤ hi) (hn : n ≤ lo) (hlen : hi-n ≤ o.length)
    (hf : ∀ i r, lo ≤ i → i < hi → Filled o v (lo-n) (i-n) r → f r i = r.write (i-n) (v (i-n))) :
    ∃ r, forUp lo hi o f = some r ∧ Filled o v (lo-n) (hi-n) r := by
  refine forUp_total (fun i => Filled o v (lo-n) (i-n)) hle (.start o v _) ?_
  intro i hlo hi r h
  rw [hf i r hlo hi h,Nat.sub_add_comm (hn.trans hlo)]
  exact h.up (hv _) (by omega) (by omega)

lemma forDown_fill (hlen : hi+n ≤ o.length)
    (hf : ∀ i r, i < hi → Filled o v (i+1+n) (hi+n) r → f r i = r.write (i+n) (v (i+n))) :
    ∃ r, forDown f hi o = some r ∧ Filled o v n (hi+n) r := by
  obtain ⟨r,hr,h⟩ := forDown_total (f := f) (fun i => Filled o v (i+n) (hi+n)) (.start o v _)
    fun i hi r h => by
      rw [hf i r hi h]
      exact h.down (hv _) (by omega) (by omega) (by omega)
  exact ⟨r,hr,by rwa [Nat.zero_add] at h⟩

end Filled

end Uint32List

/-- An integer computed from digits, which has to stay in the range of a `Mint`. -/
def int64 (x : ℤ) : Option ℤ := if IsInt64 x then some x else none

def add64 (x y : ℤ) : Option ℤ := int64 (x+y)

def sub64 (x y : ℤ) : Option ℤ := int64 (x-y)

def mul64 (x y : ℤ) : Option ℤ := int64 (x*y)

def shl64 (x : ℤ) (n : ℕ) : Option ℤ := int64 (x <<< n)

lemma int64_eq {x : ℤ} (h : IsInt64 x) : int64 x = some x := if_pos h

lemma int64_of_lt (x : ℤ) (h : -2^63 ≤ x ∧ x < 2^63) : int64 x = some x :=
  int64_eq ⟨h.1,by unfold kMaxInt64; omega⟩

lemma isInt64_of_abs_lt {x : ℤ} (hlo : -2^63 ≤ x) (hhi : x < 2^63) : IsInt64 x :=
  ⟨hlo,by unfold kMaxInt64; omega⟩

/-- A big integer: the digits above `used` are free for other purposes, apart from a leading zero
that makes the number of accessible digits even. -/
structure Bigint where
  neg : Bool
  used : ℕ
  digits : Uint32List
  paired : used+used%2 ≤ digits.length
  padded : used%2 = 1 → digits.digit used = 0
  clamped : 0 < used → digits.digit (used-1) ≠ 0
  zero_nonneg : used = 0 → neg = false

namespace Bigint

variable (x : Bigint)

/-- `abs(this)` as a number. -/
def magnitude : ℕ := x.digits.value x.used

def withSign (neg : Bool) (m : ℕ) : ℤ := if neg then -(m : ℤ) else m

/-- The represented integer. -/
def toInt : ℤ := withSign x.neg x.magnitude

/-- The loop of `Bigint::New` that drops leading zero digits. -/
def clamp (digits : Uint32List) : ℕ → ℕ
  | 0 => 0
  | used+1 => if digits.digit used = 0 then clamp digits used else used+1

lemma clamp_le (digits : Uint32List) (used : ℕ) : clamp digits used ≤ used := by
  induction used with
  | zero => exact le_rfl
  | succ used ih =>
    unfold clamp
    split_ifs
    · omega
    · exact le_rfl

lemma clamp_top {digits : Uint32List} {used : ℕ} (h : 0 < clamp digits used) :
    digits.digit (clamp digits used-1) ≠ 0 := by
  induction used with
  | zero => simp [clamp] at h
  | succ used ih =>
    unfold clamp at h ⊢
    split_ifs with hz
    · exact ih (by rwa [if_pos hz] at h)
    · simpa using hz

lemma value_clamp (digits : Uint32List) (used : ℕ) :
    digits.value (clamp digits used) = digits.value used := by
  induction used with
  | zero => rfl
  | succ used ih =>
    unfold clamp
    split_ifs with hz
    · rw [ih,Uint32List.value_succ,hz,zero_mul,add_zero]
    · rfl

def zero : Bigint where
  neg := false
  used := 0
  digits := []
  paired := by simp
  padded := by simp
  clamped := by simp
  zero_nonneg _ := rfl

def one : Bigint where
  neg := false
  used := 1
  digits := [1,0]
  paired := by decide
  padded := by decide
  clamped := by decide
  zero_nonneg := by decide

def minusOne : Bigint where
  neg := true
  used := 1
  digits := [1,0]
  paired := by decide
  padded := by decide
  clamped := by decide
  zero_nonneg := by decide

/-- The digits of a number with `used` digits, with the leading zero that follows an odd number
of digits. -/
def pad (digits : Uint32List) (used : ℕ) : Uint32List :=
  if used%2 = 1 then digits.set used 0 else digits

@[simp] lemma length_pad (digits : Uint32List) (used : ℕ) :
    (pad digits used).length = digits.length := by
  unfold pad
  split_ifs <;> simp

lemma digit_pad {digits : Uint32List} {used : ℕ} (k : ℕ) : (pad digits used).digit k = if used%2 =
      1 ∧ k = used then 0 else digits.digit k := by
  unfold pad Uint32List.digit
  rw [getD_eq_getElem?_getD,getD_eq_getElem?_getD]
  by_cases hodd : used%2 = 1
  · by_cases hk : k = used
    · subst hk
      rw [if_pos hodd,if_pos ⟨hodd,rfl⟩,getElem?_set,if_pos rfl]
      split_ifs <;> rfl
    · rw [if_pos hodd,if_neg (by tauto),getElem?_set,if_neg (Ne.symm hk)]
  · rw [if_neg hodd,if_neg (by tauto)]

/-- `Bigint::New`, with the assertion on the length of the array. -/
def new (neg : Bool) (used : ℕ) (digits : Uint32List) : Option Bigint :=
  if hlen : used+used%2 ≤ digits.length then
    if hpos : 0 < clamp digits used then
      some {
        neg := neg
        used := clamp digits used
        digits := pad digits (clamp digits used)
        paired := by
          have := clamp_le digits used
          rw [length_pad]
          omega
        padded := fun hodd => by rw [digit_pad,if_pos ⟨hodd,rfl⟩]
        clamped := fun _ => by
          rw [digit_pad,if_neg (by omega)]
          exact clamp_top hpos
        zero_nonneg := by omega }
    else some zero
  else none

lemma magnitude_lt : x.magnitude < digitBase^x.used := x.digits.value_lt x.used

lemma used_eq_zero_iff : x.used = 0 ↔ x.magnitude = 0 := by
  constructor
  · intro h
    rw [magnitude,h]
    rfl
  · intro h
    by_contra hne
    have htop := x.clamped (by omega)
    have hle := pow_le_value (b := digitBase)
      (by omega : x.used-1 < x.used) htop
    have hpos : 0 < digitBase^(x.used-1) := by positivity
    unfold magnitude Uint32List.value at h
    omega

lemma pow_le_magnitude {x : Bigint} (h : 0 < x.used) : digitBase^(x.used-1) ≤ x.magnitude :=
  pow_le_value (by omega) (x.clamped h)

@[simp] lemma magnitude_zero : zero.magnitude = 0 := rfl

@[simp] lemma toInt_zero : zero.toInt = 0 := rfl

@[simp] lemma magnitude_one : one.magnitude = 1 := by decide

@[simp] lemma toInt_one : one.toInt = 1 := by decide

@[simp] lemma toInt_minusOne : minusOne.toInt = -1 := by decide

@[simp] lemma withSign_zero (neg : Bool) : withSign neg 0 = 0 := by cases neg <;> rfl

@[simp] lemma natAbs_toInt : x.toInt.natAbs = x.magnitude := by
  unfold toInt withSign
  split_ifs <;> simp

lemma toInt_neg_iff : x.toInt < 0 ↔ x.neg = true := by
  have h := x.zero_nonneg
  rw [used_eq_zero_iff] at h
  unfold toInt withSign
  cases hn : x.neg with
  | false => simp
  | true =>
    have hne : x.magnitude ≠ 0 := fun hz => by simp [h hz] at hn
    simpa using pos_of_ne_zero hne

/-- `Bigint::Equals` of another big integer. -/
def equals (x y : Bigint) : Bool :=
  x.neg == y.neg && x.used == y.used &&
    (List.range x.used).all fun i => x.digits.digit i == y.digits.digit i

/-- An integer has one representation, so that it suffices to compare the signs and the digits. -/
theorem equals_exact (x y : Bigint) : x.equals y ↔ x.toInt = y.toInt := by
  have hused : ∀ {x y : Bigint}, x.magnitude = y.magnitude → x.used ≤ y.used := by
    intro x y h
    by_contra! hlt
    have hpow := (pow_le_magnitude (by omega : 0 < x.used)).trans_lt (h ▸ y.magnitude_lt)
    have := (Nat.pow_lt_pow_iff_right (by norm_num)).1 hpow
    omega
  simp only [equals,Bool.and_eq_true,beq_iff_eq,List.all_eq_true,List.mem_range]
  constructor
  · rintro ⟨⟨hneg,hused⟩,hdigits⟩
    rw [toInt,toInt,hneg,magnitude,magnitude,← hused]
    exact congrArg _ (value_congr hdigits)
  · intro h
    have hmag : x.magnitude = y.magnitude := by rw [← natAbs_toInt,h,natAbs_toInt]
    have hneg := y.toInt_neg_iff
    rw [← h,x.toInt_neg_iff] at hneg
    have heq := le_antisymm (hused hmag) (hused hmag.symm)
    refine ⟨⟨Bool.eq_iff_iff.2 hneg,heq⟩,value_injective (fun k _ => x.digits.digit_lt k)
      (fun k _ => y.digits.digit_lt k) (hmag.trans ?_)⟩
    rw [magnitude,← heq]
    rfl

/-- `Bigint::New` represents the number formed by the given digits. -/
lemma new_spec (neg : Bool) (used : ℕ) (digits : Uint32List)
    (hlen : used+used%2 ≤ digits.length) : ∃ r, new neg used digits = some r ∧ r.magnitude =
      digits.value used ∧ r.toInt = withSign neg (digits.value used) := by
  unfold new
  rw [dif_pos hlen]
  by_cases hpos : 0 < clamp digits used
  · rw [dif_pos hpos]
    have hmag : (pad digits (clamp digits used)).value (clamp digits used) = digits.value used := by
      rw [← value_clamp digits used]
      exact value_congr fun k hk => by rw [digit_pad,if_neg (by omega)]
    exact ⟨_,rfl,hmag,by unfold toInt magnitude; rw [hmag]⟩
  · rw [dif_neg hpos]
    have hz : digits.value used = 0 := by
      rw [← value_clamp,(by omega : clamp digits used = 0)]
      rfl
    exact ⟨zero,rfl,by simp [hz],by simp [hz]⟩

end Bigint

end DartSdk
