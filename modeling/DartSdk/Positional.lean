import Mathlib

/-! Numbers written with digits in a base `b`, least significant digit first. The digits are a
function, so that an array can be read from any position on. -/
namespace DartSdk.Positional
open Nat

variable {b : ℕ} {d e : ℕ → ℕ} {m n i : ℕ}

/-- The number with the digits `d 0, …, d (n - 1)`. -/
def value (b : ℕ) (d : ℕ → ℕ) : ℕ → ℕ
  | 0 => 0
  | n+1 => value b d n+d n*b^n

@[simp] lemma value_zero : value b d 0 = 0 := rfl

lemma value_succ : value b d (n+1) = value b d n+d n*b^n := rfl

@[simp] lemma value_one : value b d 1 = d 0 := by simp [value]

lemma value_congr (h : ∀ k < n, d k = e k) : value b d n = value b e n := by
  induction n with
  | zero => rfl
  | succ n ih => rw [value_succ,value_succ,ih fun k hk => h k (by omega),h n (by omega)]

lemma value_add (b : ℕ) (d : ℕ → ℕ) (m n : ℕ) :
    value b d (m+n) = value b d m+b^m*value b (fun k => d (m+k)) n := by
  induction n with
  | zero => rfl
  | succ n ih =>
    rw [← add_assoc,value_succ,ih,value_succ,pow_add]
    ring

lemma value_lt (h : ∀ k < n, d k < b) : value b d n < b^n := by
  induction n with
  | zero => simp
  | succ n ih =>
    have hlow := ih fun k hk => h k (by omega)
    have htop : (d n+1)*b^n ≤ b*b^n := mul_le_mul_right _ (h n (by omega))
    rw [value_succ,pow_succ,mul_comm (b^n)]
    rw [add_mul,one_mul] at htop
    omega

lemma value_mono (hmn : m ≤ n) : value b d m ≤ value b d n := by
  obtain ⟨r,rfl⟩ := Nat.exists_eq_add_of_le hmn
  rw [value_add]
  exact Nat.le_add_right _ _

lemma value_eq_of_zeros (hmn : m ≤ n) (h : ∀ k, m ≤ k → k < n → d k = 0) :
    value b d n = value b d m := by
  induction n, hmn using le_induction with
  | base => rfl
  | succ n hmn ih =>
    rw [value_succ,h n hmn (by omega),ih fun k hk hkn => h k hk (by omega)]
    simp

lemma value_eq_zero (h : ∀ k < n, d k = 0) : value b d n = 0 := by
  rw [value_eq_of_zeros (Nat.zero_le n) fun k _ hk => h k hk,value_zero]

variable (hd : ∀ k < n, d k < b)
include hd

lemma value_mod (hmn : m ≤ n) : value b d n%b^m = value b d m := by
  obtain ⟨r,rfl⟩ := Nat.exists_eq_add_of_le hmn
  rw [value_add,Nat.add_mul_mod_self_left]
  exact Nat.mod_eq_of_lt (value_lt fun k hk => hd k (by omega))

lemma value_div (hb : 0 < b) (hmn : m ≤ n) :
    value b d n/b^m = value b (fun k => d (m+k)) (n-m) := by
  obtain ⟨r,rfl⟩ := Nat.exists_eq_add_of_le hmn
  have hlow : value b d m < b^m := value_lt fun k hk => hd k (by omega)
  rw [value_add,Nat.add_mul_div_left _ _ (by positivity),Nat.div_eq_of_lt hlow,
    Nat.zero_add,Nat.add_sub_cancel_left]

lemma value_digit (hi : i < n) : value b d n/b^i%b = d i := by
  have hb : 0 < b := (Nat.zero_le _).trans_lt (hd i hi)
  have h := value_mod (m := 1) (n := n-i)
    (fun k hk => hd (i+k) (by omega)) (by omega)
  rwa [← value_div hd hb hi.le,pow_one,value_one] at h

lemma value_injective (he : ∀ k < n, e k < b)
    (h : value b d n = value b e n) : ∀ k < n, d k = e k := by
  intro k hk
  rw [← value_digit hd hk,h,value_digit he hk]

omit hd in
lemma pow_le_value (hi : i < n) (h : d i ≠ 0) : b^i ≤ value b d n := by
  obtain ⟨r,rfl⟩ := Nat.exists_eq_add_of_lt hi
  rw [Nat.add_assoc,Nat.add_comm r,← Nat.add_assoc,value_add,value_succ]
  have hdi : 1*b^i ≤ d i*b^i := Nat.mul_le_mul_right _ (Nat.pos_of_ne_zero h)
  omega

/-- The most significant digit in which two numbers differ decides their order. -/
lemma value_lt_value (hi : i < n) (hlt : d i < e i)
    (heq : ∀ k, i < k → k < n → d k = e k) : value b d n < value b e n := by
  obtain ⟨r,rfl⟩ := Nat.exists_eq_add_of_lt hi
  rw [Nat.add_assoc,Nat.add_comm r,← Nat.add_assoc,value_add b d (i+1) r,
    value_add b e (i+1) r,value_succ,value_succ,
    value_congr (d := fun k => d (i+1+k))
      fun k hk => heq _ (by omega) (by omega)]
  have hlow : value b d i < b^i := value_lt fun k hk => hd k (by omega)
  have htop : (d i+1)*b^i ≤ e i*b^i := Nat.mul_le_mul_right _ hlt
  rw [add_mul,one_mul] at htop
  omega

omit hd

/-- Digits of a number that is multiplied by a factor `s` of the base `c * s`: each digit moves its
upper part into the next one. -/
lemma value_mul_of_digits {c s : ℕ} (hb : b = c*s) (h0 : e 0 = d 0%c*s)
    (hsucc : ∀ k < n, e (k+1) = d k/c+d (k+1)%c*s) (htop : d n = 0) :
    value b e (n+1) = value b d n*s := by
  have hsum : ∀ m ≤ n, value b e (m+1)+d m/c*b^(m+1) = value b d (m+1)*s := by
    intro m
    induction m with
    | zero =>
      intro _
      have hdm := mod_add_div (d 0) c
      rw [value_one,value_one,h0,zero_add,pow_one,hb]
      conv_rhs => rw [← hdm]
      ring
    | succ m ih =>
      intro hm
      have hdm := mod_add_div (d (m+1)) c
      have hi := ih (by omega)
      rw [value_succ,value_succ (n := m+1),hsucc m (by omega),pow_succ b (m+1)]
      calc value b e (m+1)+(d m/c+d (m+1)%c*s)*b^(m+1) +
            d (m+1)/c*(b^(m+1)*b)
          = (value b e (m+1)+d m/c*b^(m+1)) +
            (d (m+1)%c+c*(d (m+1)/c))*b^(m+1)*s := by
              conv_lhs => rw [show b^(m+1)*b = b^(m+1)*(c*s) by rw [← hb]]
              ring
        _ = _ := by rw [hi,hdm]; ring
  have h := hsum n le_rfl
  rwa [htop,Nat.zero_div,Nat.zero_mul,Nat.add_zero,value_succ (d := d),htop,Nat.zero_mul,
    Nat.add_zero] at h

/-- Digits of a number that is divided by a factor `s` of the base `c * s`: each digit receives the
lower part of the next one. -/
lemma value_div_of_digits {c s : ℕ} (hb : b = c*s) (hs : 0 < s)
    (h : ∀ k < n, e k = d k/s+d (k+1)%s*c) (htop : d n = 0) : value b e n = value b d n/s := by
  have hsum : ∀ m ≤ n, value b e m*s+d 0%s = value b d m+d m%s*b^m := by
    intro m
    induction m with
    | zero => simp
    | succ m ih =>
      intro hm
      have hdm := div_add_mod (d m) s
      have hi := ih (by omega)
      rw [value_succ,value_succ,h m (by omega),pow_succ]
      calc (value b e m+(d m/s+d (m+1)%s*c)*b^m)*s+d 0%s
          = (value b e m*s+d 0%s)+s*(d m/s)*b^m +
            d (m+1)%s*(b^m*(c*s)) := by ring
        _ = value b d m+(s*(d m/s)+d m%s)*b^m +
            d (m+1)%s*(b^m*(c*s)) := by rw [hi]; ring
        _ = _ := by rw [hdm,← hb]
  have hn := hsum n le_rfl
  rw [htop,zero_mod,zero_mul,add_zero] at hn
  rw [← hn,add_comm,add_mul_div_right _ _ hs,div_eq_of_lt (mod_lt _ hs),zero_add]

lemma testBit_value {w : ℕ} (hw : 0 < w) (hd : ∀ k < n, d k < 2^w) :
    (value (2^w) d n).testBit i = (decide (i/w < n) && (d (i/w)).testBit (i%w)) := by
  by_cases hi : i/w < n
  · rw [decide_eq_true hi,Bool.true_and,← value_digit hd hi,testBit_mod_two_pow,
      decide_eq_true (mod_lt i hw),Bool.true_and,← pow_mul,testBit_div_two_pow]
    congr 1
    exact (mod_add_div i w).symm
  · have hle : n*w ≤ i := (le_div_iff_mul_le hw).mp (by omega)
    have hlt : value (2^w) d n < 2^i :=
      calc value (2^w) d n < (2^w)^n := value_lt hd
        _ = 2^(n*w) := by rw [← pow_mul,Nat.mul_comm]
        _ ≤ 2^i := Nat.pow_le_pow_right (by norm_num) hle
    rw [decide_eq_false hi,Bool.false_and,Nat.testBit_lt_two_pow hlt]

end DartSdk.Positional

/-! Lists of digits in a base, most significant digit first, with any number of leading zeros, and
the canonical numeral. -/
namespace DartSdk.Numeral
open List Nat

variable {b n k : ℕ} {ds es : List ℕ}

def number (b : ℕ) (ds : List ℕ) : ℕ := Nat.ofDigits b ds.reverse

/-- The digits of a number without leading zeros; zero has one digit. -/
def digits (b n : ℕ) : List ℕ := if n = 0 then [0] else (Nat.digits b n).reverse

@[simp] lemma number_nil : number b [] = 0 := rfl

lemma number_append : number b (ds ++ es) = number b ds*b^es.length+number b es := by
  rw [number,reverse_append,ofDigits_append,length_reverse,add_comm,mul_comm]
  rfl

lemma number_cons (d : ℕ) : number b (d :: ds) = d*b^ds.length+number b ds := by
  have h : number b ([d] ++ ds) = _ := number_append
  rwa [singleton_append,number,number,reverse_singleton,ofDigits_singleton] at h

@[simp] lemma number_zeros (k : ℕ) : number b (replicate k 0) = 0 := by
  induction k with
  | zero => rfl
  | succ k ih => rw [replicate_succ,number_cons,ih,zero_mul]

lemma number_reverse : number b ds.reverse = ofDigits b ds := by
  rw [number,reverse_reverse]

lemma number_lt (hb : 1 < b) (h : ∀ d ∈ ds, d < b) : number b ds < b^ds.length := by
  rw [number,← length_reverse]
  exact ofDigits_lt_base_pow_length hb fun d hd => h d (mem_reverse.mp hd)

lemma number_digits : number b (digits b n) = n := by
  unfold digits
  split_ifs with h
  · rw [h]
    rfl
  · rw [number_reverse,ofDigits_digits]

lemma digits_lt (hb : 1 < b) : ∀ d ∈ digits b n, d < b := by
  unfold digits
  split_ifs with h
  · intro d hd
    rw [mem_singleton.mp hd]
    omega
  · intro d hd
    exact digits_lt_base hb (mem_reverse.mp hd)

lemma digits_ne_nil : digits b n ≠ [] := by
  unfold digits
  split_ifs with h
  · exact cons_ne_nil 0 []
  · rw [Ne,reverse_eq_nil_iff,digits_eq_nil_iff_eq_zero]
    exact h

lemma length_digits_le (hb : 1 < b) (hk : 0 < k) (h : n < b^k) : (digits b n).length ≤ k := by
  unfold digits
  split_ifs with h0
  · exact hk
  · rw [length_reverse]
    exact (digits_length_le_iff hb n).mpr h

/-- The last `n` digits of a number, least significant one first. -/
def fixed (b : ℕ) : ℕ → ℕ → List ℕ
  | 0, _ => []
  | n+1, v => v%b :: fixed b n (v/b)

@[simp] lemma length_fixed (n v : ℕ) : (fixed b n v).length = n := by
  induction n generalizing v with
  | zero => rfl
  | succ n ih => rw [fixed,length_cons,ih]

lemma fixed_lt (hb : 0 < b) (n v : ℕ) : ∀ d ∈ fixed b n v, d < b := by
  induction n generalizing v with
  | zero => exact fun d hd => absurd hd not_mem_nil
  | succ n ih => exact forall_mem_cons.mpr ⟨mod_lt v hb,ih (v/b)⟩

lemma ofDigits_fixed {v : ℕ} (h : v < b^n) : ofDigits b (fixed b n v) = v := by
  induction n generalizing v with
  | zero => rw [lt_one_iff.mp h]; rfl
  | succ n ih =>
    rw [fixed,Nat.ofDigits_cons,ih (Nat.div_lt_of_lt_mul (by rwa [← pow_succ'])),Nat.mod_add_div]

end DartSdk.Numeral
