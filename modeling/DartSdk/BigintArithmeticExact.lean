import DartSdk.BigintArithmetic

/-! The ring operations are exact: each loop over digits is specified by the number that its digits
and its carry form. -/
namespace DartSdk.Bigint

open Iteration Utils Nat Option Uint32List

/-- A loop has written the digits below `i`, which form `total` together with the carry; the
digits from `i` on are those of `o`. -/
structure Carry (o : Uint32List) (i : ℕ) (total : ℤ) (s : ℤ × Uint32List) : Prop where
  length : s.2.length = o.length
  sum : (s.2.value i : ℤ)+s.1*digitBase^i = total
  rest : ∀ k, i ≤ k → s.2.digit k = o.digit k

namespace Carry

variable {o r : Uint32List} {i : ℕ} {total c : ℤ}

lemma start (o : Uint32List) (i : ℕ) : Carry o i (o.value i) (0,o) :=
  ⟨rfl,by simp,fun _ _ => rfl⟩

lemma congr {total' : ℤ} {s : ℤ × Uint32List} (h : Carry o i total s) (he : total = total') :
    Carry o i total' s := he ▸ h

/-- Writing the next digit `l` of `c + t` and keeping the rest of the sum as carry. -/
lemma step (h : Carry o i total (c,r)) (hi : i < o.length) {t l d : ℤ}
    (hl : l%2^32 = (c+t)%2^32) (hc : d = (c+t)/2^32) :
    ∃ r', r.write i l = some r' ∧ Carry o (i+1) (total+t*digitBase^i) (d,r') := by
  obtain ⟨hlen,hsum,hrest⟩ := h
  obtain ⟨r',hr',hlen',hdig,hother⟩ :=
    write_spec (show i < r.length from hlen ▸ hi)
  refine ⟨r',hr',hlen'.trans hlen,?_,fun k hk => ?_⟩
  · have hlow : r'.value i = r.value i :=
      Positional.value_congr fun k hk => hother k (by omega)
    have hdm := Int.emod_add_mul_ediv (c+t) (2^32)
    have hdig : (r'.digit i : ℤ) = l%2^32 := hdig
    rw [← hl,← hdig,← hc] at hdm
    rw [value_succ,hlow]
    push_cast at hdm ⊢
    rw [pow_succ]
    linear_combination hsum+(2^32)^i*hdm
  · rw [hother k (by omega),hrest k (by omega)]

lemma put (h : Carry o i total (c,r)) (hi : i < o.length) (t : ℤ) : ∃ s, putDigit (c+t) r i =
      some s ∧ Carry o (i+1) (total+t*digitBase^i) s ∧ s.1 = (c+t)/2^32 := by
  have hshift : (c+t) >>> (32 : ℕ) = (c+t)/2^32 := Int.shiftRight_eq_div_pow _ 32
  obtain ⟨r',hr',hcarry⟩ := h.step hi rfl hshift
  exact ⟨_,by simp [putDigit,hr'],hcarry,hshift⟩

lemma value_eq {s : ℤ × Uint32List} (h : Carry o i total s) (hc : s.1 = 0) {n : ℕ} (hn : i ≤ n) :
    (s.2.value n : ℤ) = total+(o.value n-o.value i) := by
  obtain ⟨m,rfl⟩ := Nat.exists_eq_add_of_le hn
  have hsum := h.sum
  rw [hc,zero_mul,add_zero] at hsum
  have hslice : s.2.slice i m = o.slice i m :=
    Positional.value_congr fun k _ => h.rest _ (by omega)
  rw [value_add,value_add,hslice]
  push_cast
  linarith

end Carry

lemma compareFrom_spec {x a : Uint32List} (n : ℕ) (hx : n ≤ x.length) (ha : n ≤ a.length) :
    ∃ r, compareFrom x a n = some r ∧ (r < 0 ↔ x.value n < a.value n) ∧
      (r = 0 ↔ x.value n = a.value n) := by
  induction n with
  | zero => exact ⟨0,rfl,by simp [value],by simp [value]⟩
  | succ n ih =>
    have hxd := x.digit_lt n
    have had := a.digit_lt n
    have hsub : sub64 (x.digit n) (a.digit n) = some ((x.digit n : ℤ)-a.digit n) :=
      int64_of_lt _ (by omega)
    simp only [compareFrom,read_eq (show n < x.length by omega),
      read_eq (show n < a.length by omega),hsub,some_bind]
    by_cases hz : (x.digit n : ℤ)-a.digit n = 0
    · obtain ⟨r,hr,hlt,heq⟩ := ih (by omega) (by omega)
      have hdig : x.digit n = a.digit n := by omega
      refine ⟨r,by rw [if_pos hz,hr],?_,?_⟩
      · rw [hlt,value_succ,value_succ,hdig]
        omega
      · rw [heq,value_succ,value_succ,hdig]
        omega
    · refine ⟨_,by rw [if_neg hz],?_⟩
      rcases lt_or_gt_of_ne (show x.digit n ≠ a.digit n by omega) with h | h
      · have := Positional.value_lt_value (b := digitBase) (n := n+1)
          (fun k _ => x.digit_lt k) (lt_succ_self n) h fun k _ _ => by omega
        unfold value
        omega
      · have := Positional.value_lt_value (b := digitBase) (n := n+1)
          (fun k _ => a.digit_lt k) (lt_succ_self n) h fun k _ _ => by omega
        unfold value
        omega

lemma value_lt_of_top {x a : Uint32List} {m n : ℕ} (hmn : m < n) (htop : a.digit (n-1) ≠ 0) :
    x.value m < a.value n :=
  calc x.value m < digitBase^m := x.value_lt m
    _ ≤ digitBase^(n-1) := Nat.pow_le_pow_right (by norm_num) (by omega)
    _ ≤ a.value n := Positional.pow_le_value (by omega) htop

/-- Numbers with different lengths are compared by length, so the longer one may not have a
leading zero. -/
lemma compareDigits_spec {x a : Uint32List} {used aUsed : ℕ} (hx : used ≤ x.length)
    (ha : aUsed ≤ a.length) (hxtop : aUsed < used → x.digit (used-1) ≠ 0)
    (hatop : used < aUsed → a.digit (aUsed-1) ≠ 0) : ∃ r, compareDigits x used a aUsed = some r ∧
      (r < 0 ↔ x.value used < a.value aUsed) ∧ (r = 0 ↔ x.value used = a.value aUsed) := by
  unfold compareDigits
  rcases lt_trichotomy used aUsed with h | h | h
  · have hlt : x.value used < a.value aUsed := value_lt_of_top h (hatop h)
    exact ⟨_,by rw [if_neg (by omega)],by omega,by omega⟩
  · subst h
    rw [if_pos rfl]
    exact compareFrom_spec used hx ha
  · have hlt : a.value aUsed < x.value used := value_lt_of_top h (hxtop h)
    exact ⟨_,by rw [if_neg (by omega)],by omega,by omega⟩

variable (x a : Bigint)

lemma used_le_length : x.used ≤ x.digits.length := by
  have := x.paired
  omega

lemma absCompare_spec : ∃ r, absCompare x a = some r ∧
      (r < 0 ↔ x.magnitude < a.magnitude) ∧ (r = 0 ↔ x.magnitude = a.magnitude) :=
  compareDigits_spec x.used_le_length a.used_le_length (fun h => x.clamped (by omega))
    fun h => a.clamped (by omega)

lemma compare_spec :
    ∃ r, compare x a = some r ∧ (r < 0 ↔ x.toInt < a.toInt) ∧ (r = 0 ↔ x.toInt = a.toInt) := by
  have hx := x.toInt_neg_iff
  have ha := a.toInt_neg_iff
  unfold compare
  by_cases hs : x.neg = a.neg
  · obtain ⟨r,hr,hlt,heq⟩ := absCompare_spec x a
    refine ⟨_,by rw [if_pos hs,hr,map_some],?_⟩
    unfold toInt withSign
    cases hn : x.neg <;> simp only [hn,← hs] <;> simp <;> omega
  · refine ⟨_,by rw [if_neg hs],?_⟩
    cases hxn : x.neg <;> cases han : a.neg <;> simp [hxn,han] at hs hx ha ⊢ <;> omega

lemma Source.digit_get (s : Source) {r o : Uint32List} {i : ℕ} (h : r.digit i = o.digit i) :
    (s.get r).digit i = (s.get o).digit i := by
  cases s with
  | array xs => rfl
  | result => exact h

lemma Source.length_get (s : Source) {r o : Uint32List} (h : r.length = o.length) :
    (s.get r).length = (s.get o).length := by
  cases s with
  | array xs => rfl
  | result => exact h

section Steps
variable {x : Source} {a o : Uint32List} {i : ℕ} {total : ℤ} {s : ℤ × Uint32List}

variable (h : Carry o i total s)
include h

lemma Carry.absAddStep {y : Uint32List} (hc : 0 ≤ s.1 ∧ s.1 ≤ 1) (hy : i < y.length)
    (ha : i < a.length) (hr : i < o.length) : ∃ s', absAddStep y a s i = some s' ∧
      Carry o (i+1) (total+(y.digit i+a.digit i)*digitBase^i) s' ∧ 0 ≤ s'.1 ∧ s'.1 ≤ 1 := by
  obtain ⟨c,r⟩ := s
  have hyd := y.digit_lt i
  have had := a.digit_lt i
  obtain ⟨s',hs',hcs,hs1⟩ := h.put hr ((y.digit i : ℤ)+a.digit i)
  have h1 : add64 (y.digit i) (a.digit i) = some ((y.digit i : ℤ)+a.digit i) :=
    int64_of_lt _ (by omega)
  have h2 : add64 c ((y.digit i : ℤ)+a.digit i) = some (c+(y.digit i+a.digit i)) :=
    int64_of_lt _ (by omega)
  refine ⟨s',?_,hcs,by omega⟩
  simp [Bigint.absAddStep,read_eq hy,read_eq ha,h1,h2,hs']

lemma Carry.absSubStep (hc : -1 ≤ s.1 ∧ s.1 ≤ 0) (hx : i < (x.get o).length)
    (ha : i < a.length) (hr : i < o.length) : ∃ s', absSubStep x a s i = some s' ∧
      Carry o (i+1) (total+((x.get o).digit i-a.digit i)*digitBase^i) s' ∧ -1 ≤ s'.1 ∧
      s'.1 ≤ 0 := by
  obtain ⟨c,r⟩ := s
  have hxd := (x.get o).digit_lt i
  have had := a.digit_lt i
  rw [← x.length_get h.length] at hx
  obtain ⟨s',hs',hcs,hs1⟩ := h.put hr (((x.get o).digit i : ℤ)-a.digit i)
  have h1 : sub64 ((x.get o).digit i) (a.digit i) = some (((x.get o).digit i : ℤ)-a.digit i) :=
    int64_of_lt _ (by omega)
  have h2 : add64 c (((x.get o).digit i : ℤ)-a.digit i) =
      some (c+((x.get o).digit i-a.digit i)) :=
    int64_of_lt _ (by omega)
  refine ⟨s',?_,hcs,by omega⟩
  simp [Bigint.absSubStep,read_eq hx,read_eq ha,x.digit_get (h.rest i le_rfl),h1,h2,hs']

/-- The carry of a sum stays `0` or `1`, that of a difference `0` or `-1`. -/
lemma Carry.carryStep {lo hi : ℤ} (hlo : -1 ≤ lo ∧ lo ≤ 0)
    (hhi : 0 ≤ hi ∧ hi ≤ 1) (hc : lo ≤ s.1 ∧ s.1 ≤ hi) (hx : i < (x.get o).length)
    (hr : i < o.length) : ∃ s', carryStep x s i = some s' ∧
      Carry o (i+1) (total+(x.get o).digit i*digitBase^i) s' ∧ lo ≤ s'.1 ∧ s'.1 ≤ hi := by
  obtain ⟨c,r⟩ := s
  have hxd := (x.get o).digit_lt i
  rw [← x.length_get h.length] at hx
  obtain ⟨s',hs',hcs,hs1⟩ := h.put hr ((x.get o).digit i : ℤ)
  have h1 : add64 c ((x.get o).digit i) = some (c+(x.get o).digit i) :=
    int64_of_lt _ (by omega)
  refine ⟨s',?_,hcs,by omega⟩
  simp [Bigint.carryStep,read_eq hx,x.digit_get (h.rest i le_rfl),h1,hs']

end Steps

lemma absAdd_spec {x a o : Uint32List} {used aUsed : ℕ} (hle : aUsed ≤ used) (hx : used ≤ x.length)
    (ha : aUsed ≤ a.length) (hr : used < o.length) : ∃ r, absAdd x used a aUsed o = some r ∧
      r.length = o.length ∧ r.value (used+1) = x.value used+a.value aUsed := by
  obtain ⟨s₁,hs₁,hc₁,h₁⟩ := forUp_total
    (fun i s => Carry o i (x.value i+a.value i) s ∧ 0 ≤ s.1 ∧ s.1 ≤ 1) (zero_le aUsed)
    ⟨Carry.start o 0,le_rfl,zero_le_one⟩ fun i _ hi s ⟨hc,h⟩ => by
      obtain ⟨s',hs',hc',h'⟩ := hc.absAddStep h (by omega : i < x.length)
        (by omega : i < a.length) (by omega)
      refine ⟨s',hs',hc'.congr ?_,h'⟩
      rw [value_succ,value_succ]
      push_cast
      ring
  obtain ⟨s₂,hs₂,hc₂,h₂⟩ := forUp_total
    (fun i s => Carry o i (x.value i+a.value aUsed) s ∧ 0 ≤ s.1 ∧ s.1 ≤ 1) hle
    ⟨hc₁,h₁⟩ fun i _ hi s ⟨hc,h⟩ => by
      obtain ⟨s',hs',hc',h'⟩ := hc.carryStep (x := .array x) (by norm_num) (by norm_num) h
        (hi.trans_le hx) (by omega)
      refine ⟨s',hs',hc'.congr ?_,h'⟩
      rw [value_succ]
      push_cast
      change _+(x.digit i : ℤ)*_ = _
      ring
  -- The last carry is the top digit of the sum.
  obtain ⟨c,r⟩ := s₂
  obtain ⟨r',hr',hc₃⟩ := hc₂.step hr (d := 0) (by rw [add_zero]) (by omega)
  refine ⟨r',by simp [absAdd,hs₁,hs₂,hr'],hc₃.length,?_⟩
  have hsum := hc₃.sum
  simp only [zero_mul] at hsum
  exact_mod_cast hsum

/-- Subtraction of a number that is not larger; the digits may be overwritten in place. -/
lemma absSub_spec {x : Source} {a o : Uint32List} {used aUsed : ℕ} (hle : aUsed ≤ used)
    (hx : used ≤ (x.get o).length) (ha : aUsed ≤ a.length) (hr : used ≤ o.length)
    (hval : a.value aUsed ≤ (x.get o).value used) : ∃ r, absSub x used a aUsed o = some r ∧
      r.length = o.length ∧ r.value used = (x.get o).value used-a.value aUsed ∧ ∀ k, used ≤ k →
      r.digit k = o.digit k := by
  obtain ⟨s₁,hs₁,hc₁,h₁⟩ := forUp_total
    (fun i s => Carry o i ((x.get o).value i-a.value i) s ∧ -1 ≤ s.1 ∧ s.1 ≤ 0)
    (zero_le aUsed) ⟨Carry.start o 0,by norm_num,le_rfl⟩ fun i _ hi s ⟨hc,h⟩ => by
      obtain ⟨s',hs',hc',h'⟩ := hc.absSubStep h (by omega : i < (x.get o).length)
        (by omega : i < a.length) (by omega)
      refine ⟨s',hs',hc'.congr ?_,h'⟩
      rw [value_succ,value_succ]
      push_cast
      ring
  obtain ⟨⟨c,r⟩,hs₂,hc₂,h₂⟩ := forUp_total
    (fun i s => Carry o i ((x.get o).value i-a.value aUsed) s ∧ -1 ≤ s.1 ∧ s.1 ≤ 0) hle
    ⟨hc₁,h₁⟩ fun i _ hi s ⟨hc,h⟩ => by
      obtain ⟨s',hs',hc',h'⟩ := hc.carryStep (by norm_num) (by norm_num) h
        (by omega : i < (x.get o).length) (by omega)
      refine ⟨s',hs',hc'.congr ?_,h'⟩
      rw [value_succ]
      push_cast
      ring
  refine ⟨r,by simp [absSub,hs₁,hs₂],hc₂.length,?_,hc₂.rest⟩
  -- A borrow out of the last digit would make the difference negative.
  have hsum := hc₂.sum
  have hlt := r.value_lt used
  simp only at hsum h₂
  rcases (by omega : c = -1 ∨ c = 0) with rfl | rfl
  · zify at hlt
    push_cast at hsum hlt
    omega
  · omega

variable (x a : Bigint)

lemma negate_spec : ∃ r, x.negate = some r ∧ r.toInt = -x.toInt := by
  unfold negate
  by_cases h0 : x.used = 0
  · refine ⟨x,if_pos h0,?_⟩
    have hz := x.used_eq_zero_iff.mp h0
    simp [toInt,hz]
  · obtain ⟨r,hr, -,hval⟩ := new_spec (!x.neg) _ _ x.paired
    refine ⟨r,by rw [if_neg h0,hr],?_⟩
    rw [hval]
    unfold toInt withSign magnitude
    cases x.neg <;> simp

lemma setSign_spec (neg : Bool) : ∃ r, (if x.neg = neg then some x else x.negate) =
      some r ∧ r.toInt = withSign neg x.magnitude := by
  split_ifs with hs
  · exact ⟨x,rfl,by rw [toInt,hs]⟩
  · obtain ⟨r,hr,hval⟩ := negate_spec x
    refine ⟨r,hr,?_⟩
    rw [hval]
    unfold toInt withSign
    cases hx : x.neg <;> cases neg <;> simp_all

lemma absAddLonger_spec {x a : Bigint} (h : a.used ≤ x.used) (neg : Bool) :
    ∃ r, absAddLonger x a neg = some r ∧ r.toInt = withSign neg (x.magnitude+a.magnitude) := by
  unfold absAddLonger
  by_cases hx : x.used = 0
  · have hxm := x.used_eq_zero_iff.mp hx
    have ham := a.used_eq_zero_iff.mp (by omega)
    exact ⟨zero,if_pos hx,by simp [hxm,ham]⟩
  · rw [if_neg hx]
    by_cases ha : a.used = 0
    · rw [if_pos ha,a.used_eq_zero_iff.mp ha]
      exact setSign_spec x neg
    · rw [if_neg ha]
      obtain ⟨d,hd,hlen,hval⟩ := absAdd_spec (o := Uint32List.new (x.used+1+(x.used+1)%2))
        h x.used_le_length a.used_le_length (by rw [length_new]; omega)
      rw [length_new] at hlen
      obtain ⟨r,hr, -,hrv⟩ := new_spec neg (x.used+1) d hlen.ge
      exact ⟨r,by simp [hd,hr],by rw [hrv,hval]; rfl⟩

lemma absAddSetSign_spec (neg : Bool) :
    ∃ r, absAddSetSign x a neg = some r ∧ r.toInt = withSign neg (x.magnitude+a.magnitude) := by
  unfold absAddSetSign
  split_ifs with h
  · rw [add_comm]
    exact absAddLonger_spec h.le neg
  · exact absAddLonger_spec (by omega) neg

lemma used_le_of_magnitude_le {x a : Bigint} (h : a.magnitude ≤ x.magnitude) : a.used ≤ x.used := by
  by_contra hlt
  have : x.magnitude < a.magnitude := value_lt_of_top (by omega) (a.clamped (by omega))
  omega

lemma absSubSetSign_spec {x a : Bigint} (h : a.magnitude ≤ x.magnitude) (neg : Bool) :
    ∃ r, absSubSetSign x a neg = some r ∧ r.toInt = withSign neg (x.magnitude-a.magnitude) := by
  have hused := used_le_of_magnitude_le h
  unfold absSubSetSign
  by_cases hx : x.used = 0
  · have hxm := x.used_eq_zero_iff.mp hx
    exact ⟨zero,if_pos hx,by simp [hxm]⟩
  · rw [if_neg hx]
    by_cases ha : a.used = 0
    · rw [if_pos ha,a.used_eq_zero_iff.mp ha]
      exact setSign_spec x neg
    · rw [if_neg ha]
      obtain ⟨d,hd,hlen,hval, -⟩ := absSub_spec (x := .array x.digits)
        (o := Uint32List.new (x.used+x.used%2)) hused x.used_le_length a.used_le_length
        (by rw [length_new]; omega) h
      rw [length_new] at hlen
      obtain ⟨r,hr, -,hrv⟩ := new_spec neg x.used d hlen.ge
      exact ⟨r,by simp [hd,hr],by rw [hrv,hval]; rfl⟩

lemma absDifference_spec : ∃ r, (absCompare x a >>= fun c =>
        if 0 ≤ c then absSubSetSign x a x.neg else absSubSetSign a x (!x.neg)) = some r ∧
      r.toInt = if x.neg then (a.magnitude : ℤ)-x.magnitude else x.magnitude-a.magnitude := by
  obtain ⟨c,hc,hlt, -⟩ := absCompare_spec x a
  rw [hc,some_bind]
  by_cases h0 : 0 ≤ c
  · obtain ⟨r,hr,hval⟩ := absSubSetSign_spec (show a.magnitude ≤ x.magnitude by omega) x.neg
    refine ⟨r,by rw [if_pos h0,hr],?_⟩
    rw [hval,withSign]
    split_ifs <;> omega
  · obtain ⟨r,hr,hval⟩ := absSubSetSign_spec (show x.magnitude ≤ a.magnitude by omega) (!x.neg)
    refine ⟨r,by rw [if_neg h0,hr],?_⟩
    rw [hval,withSign]
    cases x.neg <;> simp <;> omega

lemma add_spec : ∃ r, x.add a = some r ∧ r.toInt = x.toInt+a.toInt := by
  unfold add
  by_cases hs : x.neg = a.neg
  · obtain ⟨r,hr,hval⟩ := absAddSetSign_spec x a x.neg
    refine ⟨r,by rw [if_pos hs,hr],?_⟩
    rw [hval,toInt,toInt,← hs]
    unfold withSign
    cases x.neg <;> simp [add_comm]
  · obtain ⟨r,hr,hval⟩ := absDifference_spec x a
    refine ⟨r,by rw [if_neg hs,hr],?_⟩
    rw [hval,toInt,toInt,Bool.eq_not_of_ne (Ne.symm hs)]
    unfold withSign
    cases x.neg <;> simp <;> omega

lemma sub_spec : ∃ r, x.sub a = some r ∧ r.toInt = x.toInt-a.toInt := by
  unfold sub
  by_cases hs : x.neg = a.neg
  · obtain ⟨r,hr,hval⟩ := absDifference_spec x a
    refine ⟨r,by rw [if_neg (not_not.2 hs),hr],?_⟩
    rw [hval,toInt,toInt,← hs]
    unfold withSign
    cases x.neg <;> simp
    omega
  · obtain ⟨r,hr,hval⟩ := absAddSetSign_spec x a x.neg
    refine ⟨r,by rw [if_pos hs,hr],?_⟩
    rw [hval,toInt,toInt,Bool.eq_not_of_ne (Ne.symm hs)]
    unfold withSign
    cases x.neg <;> simp
    omega

lemma mul_bounds {x y a b : ℤ} (hx : 0 ≤ x ∧ x < a) (hy : 0 ≤ y ∧ y < b) : 0 ≤ x*y ∧ x*y ≤ a*b :=
  ⟨mul_nonneg hx.1 hy.1,mul_le_mul hx.2.le hy.2.le hy.1 (hx.1.trans hx.2.le)⟩

lemma mulAddDigit_spec {x m a c : ℤ} (hx : 0 ≤ x ∧ x < 2^33) (hm : 0 ≤ m ∧ m < 2^32)
    (ha : 0 ≤ a ∧ a < 2^32) (hc : 0 ≤ c ∧ c < 2^34) : ∃ l, mulAddDigit x m a c =
      some (l,(c+(x*m+a))/2^32) ∧ l%2^32 = (c+(x*m+a))%2^32 := by
  have hxl : 0 ≤ x%2^16 ∧ x%2^16 < 2^16 := by omega
  have hxh : 0 ≤ x/2^16 ∧ x/2^16 < 2^17 := by omega
  have hml : 0 ≤ m%2^16 ∧ m%2^16 < 2^16 := by omega
  have hmh : 0 ≤ m/2^16 ∧ m/2^16 < 2^16 := by omega
  have h1 := mul_bounds hxh hml
  have h2 := mul_bounds hmh hxl
  have h3 := mul_bounds hxl hml
  have h4 := mul_bounds hxh hmh
  have hprod : x*m = x%2^16*(m%2^16) +
      2^16*(x/2^16*(m%2^16)+m/2^16*(x%2^16)) +
      2^32*(x/2^16*(m/2^16)) := by
    have hxe := Int.emod_add_mul_ediv x (2^16)
    have hme := Int.emod_add_mul_ediv m (2^16)
    conv_lhs => rw [← hxe,← hme]
    ring
  unfold mulAddDigit add64 mul64 shl64
  simp only [Int.shiftRight_eq_div_pow,Int.shiftLeft_eq,cast_pow,cast_ofNat,hprod]
  generalize x/2^16*(m%2^16) = p1 at *
  generalize m/2^16*(x%2^16) = p2 at *
  generalize x%2^16*(m%2^16) = p3 at *
  generalize x/2^16*(m/2^16) = p4 at *
  clear hprod
  -- The products of half digits and all their sums are far below 2 ^ 63.
  simp (disch := omega) only [int64_of_lt,bind_eq_bind,bind_some]
  refine ⟨p3+(p1+p2)%2^16*2^16+a+c,?_,by omega⟩
  exact congrArg some (Prod.ext rfl (by omega))

lemma Carry.mulAddStep {o m : Uint32List} {x total : ℤ} {i j k : ℕ} {s : ℤ × Uint32List}
    (h : Carry o (j+k) total s) (hx : 0 ≤ x ∧ x < 2^33) (hc : 0 ≤ s.1 ∧ s.1 < 2^34)
    (hm : i+k < m.length) (hr : j+k < o.length) : ∃ s', mulAddStep x m i j s k = some s' ∧
      Carry o (j+k+1) (total+(x*m.digit (i+k)+o.digit (j+k))*digitBase^(j+k)) s' ∧ 0 ≤ s'.1 ∧ s'.1 <
      2^34 := by
  obtain ⟨c,r⟩ := s
  have hmd : (0 : ℤ) ≤ m.digit (i+k) ∧ (m.digit (i+k) : ℤ) < 2^32 :=
    ⟨by omega,by exact_mod_cast m.digit_lt (i+k)⟩
  have hrd : (0 : ℤ) ≤ o.digit (j+k) ∧ (o.digit (j+k) : ℤ) < 2^32 :=
    ⟨by omega,by exact_mod_cast o.digit_lt (j+k)⟩
  have hprod := mul_bounds hx hmd
  obtain ⟨l,hl,hmod⟩ := mulAddDigit_spec hx hmd hrd hc
  obtain ⟨r',hr',hcr⟩ := h.step hr hmod rfl
  refine ⟨_,?_,hcr,?_⟩
  · have hlen : j+k < r.length := h.length ▸ hr
    simp [Bigint.mulAddStep,read_eq hm,read_eq hlen,h.rest (j+k) le_rfl,hl,hr']
  · omega

lemma mulAddLoop_spec {o m : Uint32List} {x δ : ℤ} {i j n : ℕ} {s₀ : ℤ × Uint32List}
    (h : Carry o j (o.value j+δ) s₀) (hx : 0 ≤ x ∧ x < 2^33) (hc : 0 ≤ s₀.1 ∧ s₀.1 < 2^34)
    (hm : i+n ≤ m.length) (hr : j+n ≤ o.length) : ∃ s, forUp 0 n s₀ (mulAddStep x m i j) = some s ∧
      Carry o (j+n) (o.value (j+n)+(δ+x*m.slice i n*digitBase^j)) s ∧ 0 ≤ s.1 ∧ s.1 < 2^34 := by
  refine forUp_total (fun k s =>
    Carry o (j+k) (o.value (j+k)+(δ+x*m.slice i k*digitBase^j)) s ∧
      0 ≤ s.1 ∧ s.1 < 2^34) (zero_le n) ⟨h.congr (by simp [slice]),hc⟩ ?_
  rintro k - hk s ⟨hcs,hs⟩
  obtain ⟨s',hs',hc',h'⟩ := hcs.mulAddStep hx hs (by omega : i+k < m.length) (by omega)
  refine ⟨s',hs',hc'.congr ?_,h'⟩
  rw [← Nat.add_assoc,value_succ,slice_succ,pow_add]
  push_cast
  ring

lemma addCarry_spec {o : Uint32List} {N : ℕ} {δ : ℤ} (hN : N ≤ o.length)
    (hfit : (o.value N : ℤ)+δ < digitBase^N) (fuel : ℕ) : ∀ {p : ℕ} {c : ℤ} {r : Uint32List},
      Carry o p (o.value p+δ) (c,r) → 0 ≤ c → c < 2^34 → p ≤ N → N < p+fuel →
      ∃ r', addCarry fuel c r p = some r' ∧ r'.length = o.length ∧
        (r'.value N : ℤ) = o.value N+δ ∧ ∀ k, N ≤ k → r'.digit k = o.digit k := by
  induction fuel with
  | zero =>
    intro p c r _ _ _ hp hf
    omega
  | succ fuel ih =>
    intro p c r h h0 hlt hp hf
    by_cases hc : c = 0
    · refine ⟨r,by rw [addCarry,if_pos hc],h.length,?_,fun k hk => h.rest k (by omega)⟩
      have := h.value_eq hc hp
      linarith
    · -- A carry into digit `N` would not fit.
      have hpN : p < N := by
        by_contra hge
        obtain rfl : p = N := by omega
        have hsum := h.sum
        have hone : (1 : ℤ)*digitBase^p ≤ c*digitBase^p :=
          mul_le_mul_of_nonneg_right (by omega) (by positivity)
        linarith
      have hd := o.digit_lt p
      have hlen : p < r.length := by
        have := h.length
        simp only at this
        omega
      have hadd : add64 (o.digit p) c = some ((o.digit p : ℤ)+c) :=
        int64_of_lt _ (by omega)
      have hshift : ((o.digit p : ℤ)+c) >>> (32 : ℕ) = (c+o.digit p)/2^32 := by
        rw [add_comm]
        exact Int.shiftRight_eq_div_pow _ 32
      obtain ⟨r',hr',hcr⟩ := h.step (by omega)
        (by rw [add_comm]) hshift
      obtain ⟨r'',hr'',hspec⟩ := ih (hcr.congr (by
        rw [value_succ]
        push_cast
        ring)) (by omega) (by omega) hpN (by omega)
      refine ⟨r'',?_,hspec⟩
      rw [addCarry,if_neg hc]
      simp [read_eq hlen,h.rest p le_rfl,hadd,hr',hr'']

/-- `_mulAdd` adds a multiple of `m_digits` to the number formed by the first `N` digits, as long
as the result fits there. -/
lemma mulAdd_spec {x m o : Uint32List} {p i j n N : ℕ} (hxi : p < x.length) (hm : i+n ≤ m.length)
    (hj : j+n ≤ N) (hN : N ≤ o.length)
    (hfit : o.value N+x.digit p*m.slice i n*digitBase^j < digitBase^N) : ∃ r,
      mulAdd x p m i o j n = some r ∧ r.length = o.length ∧ r.value N =
      o.value N+x.digit p*m.slice i n*digitBase^j ∧ ∀ k, N ≤ k → r.digit k = o.digit k := by
  unfold mulAdd
  rw [read_eq hxi]
  simp only [bind_eq_bind,bind_some]
  by_cases hz : x.digit p = 0
  · exact ⟨o,by rw [if_pos (by exact_mod_cast hz)],rfl,by simp [hz],fun _ _ => rfl⟩
  · have hxd := x.digit_lt p
    have hstart : Carry o j (o.value j+0) (0,o) := (Carry.start o j).congr (by ring)
    obtain ⟨⟨c,r⟩,hs,hc,h0,hlt⟩ := mulAddLoop_spec (x := x.digit p) hstart
      ⟨by omega,by omega⟩ ⟨le_rfl,by norm_num⟩ hm (by omega)
    obtain ⟨r',hr',hlen,hval,hrest⟩ := addCarry_spec hN
      (by rw [zero_add]; exact_mod_cast hfit) (o.length+1) hc h0 hlt hj (by omega)
    refine ⟨r',?_,hlen,?_,hrest⟩
    · rw [if_neg (by exact_mod_cast hz),hs,bind_some,hr']
    · rw [zero_add] at hval
      exact_mod_cast hval

lemma mulLoop_spec {x a o : Uint32List} {used aUsed : ℕ} (hx : used ≤ x.length)
    (ha : aUsed ≤ a.length) (hr : used+aUsed ≤ o.length) (hzero : o.value (used+aUsed) = 0) :
    ∃ r, mulLoop x used a aUsed o = some r ∧ r.length = o.length ∧
      r.value (used+aUsed) = x.value used*a.value aUsed := by
  refine forUp_total (fun i (r : Uint32List) => r.length = o.length ∧
    r.value (used+aUsed) = x.value used*a.value i) (zero_le aUsed)
    ⟨rfl,by rw [hzero]; simp [value]⟩ ?_
  intro i _ hi r ⟨hlen,hval⟩
  have hstep : x.value used*a.value i+a.digit i*x.slice 0 used*digitBase^i =
      x.value used*a.value (i+1) := by
    rw [value_succ,slice_zero_left]
    ring
  have hlt : x.value used*a.value (i+1) < digitBase^(used+aUsed) := by
    rw [pow_add]
    refine Nat.mul_lt_mul'' (x.value_lt used) ((a.value_lt (i+1)).trans_le ?_)
    exact Nat.pow_le_pow_right (by norm_num) hi
  obtain ⟨r',hr',hlen',hval', -⟩ := mulAdd_spec (x := a) (m := x) (o := r) (p := i) (i := 0)
    (j := i) (n := used) (N := used+aUsed) (by omega) (by omega) (by omega) (by omega)
    (by rw [hval,hstep]; exact hlt)
  exact ⟨r',hr',hlen'.trans hlen,by rw [hval',hval,hstep]⟩

lemma sqrDigit_spec {x a : ℤ} (hx : 0 ≤ x ∧ x < 2^32) (ha : 0 ≤ a ∧ a < 2^32) :
    ∃ l, sqrDigit x a = some (l,(x*x+a)/2^32) ∧ l%2^32 = (x*x+a)%2^32 := by
  have hxl : 0 ≤ x%2^16 ∧ x%2^16 < 2^16 := by omega
  have hxh : 0 ≤ x/2^16 ∧ x/2^16 < 2^16 := by omega
  have h1 := mul_bounds hxh hxl
  have h2 := mul_bounds hxl hxl
  have h3 := mul_bounds hxh hxh
  have hprod : x*x = x%2^16*(x%2^16)+2^16*(2*(x/2^16*(x%2^16))) +
      2^32*(x/2^16*(x/2^16)) := by
    have hxe := Int.emod_add_mul_ediv x (2^16)
    conv_lhs => rw [← hxe]
    ring
  unfold sqrDigit add64 mul64 shl64
  simp only [Int.shiftRight_eq_div_pow,Int.shiftLeft_eq,cast_pow,cast_ofNat,hprod,bind_eq_bind]
  rw [int64_of_lt (2*(x/2^16)) (by omega),bind_some,mul_assoc 2]
  generalize x/2^16*(x%2^16) = p1 at *
  generalize x%2^16*(x%2^16) = p2 at *
  generalize x/2^16*(x/2^16) = p3 at *
  norm_num only at h1 h2 h3
  simp (disch := omega) only [int64_of_lt,bind_some]
  refine ⟨p2+2*p1%2^16*2^16+a,?_,by omega⟩
  exact congrArg some (Prod.ext rfl (by omega))

/-- What `_sqrAdd` adds for digit `i`: its square and twice its product with the higher digits. -/
def sqrTerm (x : Uint32List) (used i : ℕ) : ℕ :=
  x.digit i^2*digitBase^(2*i) +
    2*x.digit i*x.slice (i+1) (used-i-1)*digitBase^(2*i+1)

/-- The last two writes of `_sqrAdd` are exact if the digit above is zero and the sum stays below
twice the base. -/
lemma sqrAdd_top {o r : Uint32List} {p N : ℕ} {c : ℤ} {δ : ℕ}
    (h : Carry o p (o.value p+δ) (c,r)) (hc : 0 ≤ c) (hpN : p+2 ≤ N) (hN : N ≤ o.length)
    (hdig : o.digit (p+1) = 0) (hlt : c+o.digit p < 2*2^32) :
    ∃ r', (if (digitBase : ℤ) ≤ c+o.digit p then do
        let a ← r.write p (c+o.digit p-digitBase)
        a.write (p+1) 1
      else r.write p (c+o.digit p)) = some r' ∧ r'.length = o.length ∧
      r'.value N = o.value N+δ := by
  have hbase : (digitBase : ℤ) = 2^32 := by norm_num
  have htotal : (o.value p : ℤ)+δ+o.digit p*digitBase^p = o.value (p+1)+δ := by
    rw [value_succ]
    push_cast
    ring
  rw [hbase]
  split_ifs with hge
  · obtain ⟨r₁,hr₁,hc₁⟩ := h.step (by omega) (t := o.digit p) (l := c+o.digit p-2^32)
      (d := 1) (by omega) (by omega)
    obtain ⟨r₂,hr₂,hc₂⟩ := (hc₁.congr htotal).step (by omega) (t := o.digit (p+1)) (l := 1)
      (d := 0) (by simp [hdig]) (by simp [hdig])
    refine ⟨r₂,by rw [bind_eq_bind,hr₁,bind_some,hr₂],hc₂.length,?_⟩
    have hval := hc₂.value_eq rfl hpN
    rw [o.value_succ (p+1),hdig] at hval
    push_cast at hval
    zify
    linarith
  · obtain ⟨r₁,hr₁,hc₁⟩ := h.step (by omega) (t := o.digit p) (d := 0)
      rfl (by omega)
    refine ⟨r₁,hr₁,hc₁.length,?_⟩
    have hval := (hc₁.congr htotal).value_eq rfl (by omega : p+1 ≤ N)
    zify
    linarith

lemma sqrAdd_spec {x o : Uint32List} {used i : ℕ} (hi : i+1 < used) (hx : used ≤ x.length)
    (hr : 2*used ≤ o.length) (hbefore : o.value (2*used) < 2*digitBase^(i+used))
    (hafter : o.value (2*used)+sqrTerm x used i < 2*digitBase^(i+used+1)) : ∃ r, sqrAdd x i o used =
      some r ∧ r.length = o.length ∧ r.value (2*used) = o.value (2*used)+sqrTerm x used i := by
  unfold sqrAdd
  rw [read_eq (by omega)]
  simp only [bind_eq_bind,bind_some]
  by_cases hz : x.digit i = 0
  · exact ⟨o,by rw [if_pos (by exact_mod_cast hz)],rfl,by simp [sqrTerm,hz]⟩
  · have hxd := x.digit_lt i
    have hxi : (0 : ℤ) ≤ x.digit i ∧ (x.digit i : ℤ) < 2^32 := ⟨by omega,by omega⟩
    have hrd := o.digit_lt (2*i)
    have hri : (0 : ℤ) ≤ o.digit (2*i) ∧ (o.digit (2*i) : ℤ) < 2^32 := ⟨by omega,by omega⟩
    have hprod := mul_bounds hxi hxi
    obtain ⟨l,hl,hmod⟩ := sqrDigit_spec hxi hri
    obtain ⟨r₁,hr₁,hc₁⟩ := (Carry.start o (2*i)).step (by omega)
      (t := x.digit i*x.digit i+o.digit (2*i)) (l := l)
      (d := ((x.digit i : ℤ)*x.digit i+o.digit (2*i))/2^32)
      (by rw [zero_add,hmod]) (by rw [zero_add])
    have hshl : shl64 (x.digit i) 1 = some (2*x.digit i : ℤ) := by
      rw [shl64,Int.shiftLeft_eq,pow_one,mul_comm]
      exact int64_of_lt _ (by omega)
    obtain ⟨⟨c,r₂⟩,hs,hc₂,h0, -⟩ := mulAddLoop_spec (x := 2*x.digit i) (i := i+1)
      (n := used-i-1) (m := x) (δ := x.digit i^2*digitBase^(2*i))
      (hc₁.congr (by rw [value_succ]; push_cast; ring)) ⟨by omega,by omega⟩
      ⟨by simp only; omega,by simp only; omega⟩ (by omega) (by omega)
    have hpos : 2*i+1+(used-i-1) = i+used := by omega
    rw [hpos] at hc₂
    have hδ : (x.digit i : ℤ)^2*digitBase^(2*i) +
        2*x.digit i*x.slice (i+1) (used-i-1)*digitBase^(2*i+1) =
        (sqrTerm x used i : ℕ) := by
      unfold sqrTerm
      push_cast
      ring
    rw [hδ] at hc₂
    -- The digits above the window are still zero, so that a carry may be stored.
    have hdig : o.digit (i+used+1) = 0 := by
      by_contra hne
      have hle := Positional.pow_le_value (b := digitBase) (n := 2*used)
        (by omega : i+used+1 < 2*used) hne
      have htwo : 2*digitBase^(i+used) ≤ digitBase^(i+used+1) := by
        rw [pow_succ,mul_comm]
        exact mul_le_mul_left _ (by norm_num)
      unfold value at hbefore
      omega
    have hlt : c+o.digit (i+used) < 2*2^32 := by
      have hsum := hc₂.sum
      have hle : o.value (i+used+1) ≤ o.value (2*used) :=
        Positional.value_mono (by omega)
      rw [value_succ] at hle
      have hpow : (0 : ℤ) < digitBase^(i+used) := by positivity
      zify at hle hafter
      rw [pow_succ] at hafter
      have hmul : (c+o.digit (i+used))*(digitBase : ℤ)^(i+used) <
          2*2^32*(digitBase : ℤ)^(i+used) := by
        push_cast at *
        linarith
      exact lt_of_mul_lt_mul_right hmul hpow.le
    obtain ⟨r',hr',hlen,hval⟩ := sqrAdd_top hc₂ h0 (by omega) hr hdig
      hlt
    refine ⟨r',?_,hlen,hval⟩
    have hadd : add64 c (o.digit (i+used)) = some (c+o.digit (i+used)) :=
      int64_of_lt _ (by omega)
    have hlen₂ : i+used < r₂.length := by
      have := hc₂.length
      simp only at this
      omega
    rw [if_neg (by exact_mod_cast hz),read_eq (by omega)]
    simp only [bind_some,hl,hr₁,hshl,hs,read_eq hlen₂,hc₂.rest (i+used) le_rfl,hadd]
    exact hr'

/-- Before step `i` the digits contain the square of the operand without the square of its part
from digit `i` on. -/
lemma sqrLoop_spec {x o : Uint32List} {used : ℕ} (hpos : 0 < used) (hx : used ≤ x.length)
    (hr : 2*used ≤ o.length) (hzero : o.value (2*used) = 0) : ∃ r, sqrLoop x used o = some r ∧
      r.length = o.length ∧ r.value (2*used) = x.value used^2 := by
  have hsplit : ∀ i ≤ used, x.value used = x.value i+digitBase^i*x.slice i (used-i) := by
    intro i hi
    rw [← value_add,Nat.add_sub_cancel' hi]
  have htail : ∀ i < used, x.slice i (used-i) =
      x.digit i+digitBase*x.slice (i+1) (used-i-1) := by
    intro i hi
    rw [← slice_succ_left,Nat.sub_add_cancel (by omega)]
  have hbound : ∀ i ≤ used, ∀ v, v+(digitBase^i*x.slice i (used-i))^2 = x.value used^2 →
      v < 2*digitBase^(i+used) := by
    intro i hi v hv
    have hXi := x.value_lt i
    have hX := x.value_lt used
    rw [pow_add]
    rw [hsplit i hi] at hv hX
    generalize digitBase^i*x.slice i (used-i) = t at *
    have : v = x.value i*(x.value i+2*t) := by nlinarith
    rw [this]
    nlinarith
  obtain ⟨r₁,hr₁,hlen₁,hval₁⟩ := forUp_total (f := fun r i => sqrAdd x i r used) (s := o)
    (fun i (r : Uint32List) => r.length = o.length ∧
      r.value (2*used)+(digitBase^i*x.slice i (used-i))^2 = x.value used^2)
    (zero_le (used-1)) ⟨rfl,by simp [hzero]⟩ fun i _ hi r ⟨hlen,hval⟩ => by
      have hnext : r.value (2*used)+sqrTerm x used i +
          (digitBase^(i+1)*x.slice (i+1) (used-(i+1)))^2 = x.value used^2 := by
        rw [← hval,htail i (by omega),sqrTerm,← Nat.sub_sub]
        ring
      obtain ⟨r',hr',hlen',hval'⟩ := sqrAdd_spec (x := x) (o := r)
        (by omega : i+1 < used) hx (by omega) (hbound i (by omega) _ hval)
        (by simpa [Nat.add_right_comm] using hbound (i+1) (by omega) _ hnext)
      exact ⟨r',hr',hlen'.trans hlen,by rw [hval',hnext]⟩
  -- The last digit has no higher digits to be multiplied with.
  have hlast : x.slice (used-1) (used-(used-1)) = x.digit (used-1) := by
    rw [htail (used-1) (by omega),(by omega : used-(used-1)-1 = 0)]
    simp [slice]
  rw [hlast] at hval₁
  have hsum : r₁.value (2*used)+x.digit (used-1)*x.slice (used-1) 1 *
      digitBase^(2*(used-1)) = x.value used^2 := by
    rw [← hval₁,pow_mul']
    simp only [slice,Positional.value_one,add_zero]
    ring
  obtain ⟨r,hr',hlen,hval, -⟩ := mulAdd_spec (x := x) (m := x) (o := r₁) (p := used-1)
    (i := used-1) (j := 2*(used-1)) (n := 1) (N := 2*used) (by omega) (by omega) (by omega)
    (by omega) (by
      rw [hsum,pow_mul']
      exact Nat.pow_lt_pow_left (x.value_lt used) (by norm_num))
  refine ⟨r,?_,hlen.trans hlen₁,hval.trans hsum⟩
  rw [sqrLoop,hr₁,some_bind,if_pos (by omega),hr']

variable (x a : Bigint)

lemma mul_spec : ∃ r, x.mul a = some r ∧ r.toInt = x.toInt*a.toInt := by
  unfold mul
  by_cases h0 : x.used = 0 ∨ a.used = 0
  · refine ⟨zero,if_pos h0,?_⟩
    rw [used_eq_zero_iff,used_eq_zero_iff] at h0
    rcases h0 with h | h <;> simp [toInt,h]
  · obtain ⟨d,hd,hlen,hval⟩ := mulLoop_spec
      (o := Uint32List.new (x.used+a.used+(x.used+a.used)%2)) x.used_le_length
      a.used_le_length (by rw [length_new]; omega) (value_new _ _)
    rw [length_new] at hlen
    obtain ⟨r,hr, -,hrv⟩ := new_spec (x.neg != a.neg) (x.used+a.used) d
      hlen.ge
    refine ⟨r,by simp [if_neg h0,hd,hr],?_⟩
    rw [hrv,hval]
    unfold toInt withSign magnitude
    cases x.neg <;> cases a.neg <;> simp

lemma sqr_spec : ∃ r, x.sqr = some r ∧ r.toInt = x.toInt^2 := by
  unfold sqr
  by_cases h0 : x.used = 0
  · refine ⟨zero,if_pos h0,?_⟩
    simp [toInt,x.used_eq_zero_iff.mp h0]
  · obtain ⟨d,hd,hlen,hval⟩ := sqrLoop_spec (o := Uint32List.new (2*x.used))
      (by omega) x.used_le_length (by rw [length_new]) (value_new _ _)
    rw [length_new] at hlen
    obtain ⟨r,hr, -,hrv⟩ := new_spec false (2*x.used) d (by omega)
    refine ⟨r,by simp [if_neg h0,hd,hr],?_⟩
    rw [hrv,hval]
    unfold toInt withSign magnitude
    cases x.neg <;> simp

lemma lor_shiftLeft {a b n : ℕ} (h : b < 2^n) :
    Int.lor ((a : ℤ) <<< n) b = ((a*2^n+b : ℕ) : ℤ) := by
  have ha : (a : ℤ) <<< n = ((a <<< n : ℕ) : ℤ) := by
    rw [Int.shiftLeft_eq,shiftLeft_eq]
    norm_cast
  rw [ha]
  change ((a <<< n ||| b : ℕ) : ℤ) = _
  rw [← shiftLeft_add_eq_or_of_lt h,shiftLeft_eq]

lemma shl64_lor {d0 d1 : ℕ} (h0 : d0 < 2^32) (h1 : d1 < 2^31) :
    shl64 d1 32 = some ((d1 : ℤ) <<< (32 : ℕ)) ∧
      Int.lor ((d1 : ℤ) <<< (32 : ℕ)) d0 = ((d0+d1*2^32 : ℕ) : ℤ) := by
  refine ⟨int64_eq ?_,by rw [lor_shiftLeft h0,add_comm]⟩
  rw [Int.shiftLeft_eq]
  exact isInt64_of_abs_lt (by omega) (by omega)

lemma isInt64_iff {y : ℤ} : IsInt64 y ↔ -2^63 ≤ y ∧ y < 2^63 := by
  unfold IsInt64 kMinInt64 kMaxInt64
  omega

lemma toValidInt_of_used_eq_two {x : Bigint} (hu : x.used = 2) :
    x.toValidInt = some (if IsInt64 x.toInt then .int x.toInt else .bigint x) := by
  have hlen := x.used_le_length
  have h0 := x.digits.digit_lt 0
  have h1 := x.digits.digit_lt 1
  have hmag : x.magnitude = x.digits.digit 0+x.digits.digit 1*2^32 := by
    unfold magnitude
    rw [hu,value_succ,value_succ]
    simp [value,digitBase]
  have hval : x.toInt = withSign x.neg (x.digits.digit 0+x.digits.digit 1*2^32) := by
    rw [toInt,hmag]
  unfold toValidInt
  rw [if_neg (by omega),read_eq (by omega)]
  simp only [hu,read_eq (show 1 < x.digits.length by omega),some_bind,
    if_neg (show ¬ (2 = 1) by omega),if_neg (show ¬ 2 < 2 by omega)]
  generalize x.digits.digit 0 = d0 at *
  generalize x.digits.digit 1 = d1 at *
  cases hn : x.neg with
  | true =>
    simp only [hn,withSign,if_true] at hval ⊢
    by_cases hbig : (0x80000000 : ℤ) < d1
    · rw [if_pos hbig,if_neg (by rw [isInt64_iff,hval]; omega)]
      rfl
    rw [if_neg hbig]
    by_cases heq : (d1 : ℤ) = 0x80000000
    · rw [if_pos heq]
      by_cases hlow : (0 : ℤ) < d0
      · rw [if_pos hlow,if_neg (by rw [isInt64_iff,hval]; omega)]
        rfl
      · rw [if_neg hlow,if_pos (by rw [isInt64_iff,hval]; omega),hval]
        exact congrArg (some ∘ Compact.int) (by unfold kMinInt64; omega)
    · obtain ⟨hs,hor⟩ := shl64_lor h0 (by omega : d1 < 2^31)
      have hneg : sub64 0 ((d0+d1*2^32 : ℕ) : ℤ) = some (0-((d0+d1*2^32 : ℕ) : ℤ)) :=
        int64_of_lt _ (by omega)
      rw [if_neg heq,if_pos (by rw [isInt64_iff,hval]; omega),hs,some_bind,hor,hneg,hval,zero_sub]
      rfl
  | false =>
    simp only [hn,withSign,Bool.false_eq_true,if_false] at hval ⊢
    by_cases hbig : (0x80000000 : ℤ) ≤ d1
    · rw [if_pos hbig,if_neg (by rw [isInt64_iff,hval]; omega)]
      rfl
    · obtain ⟨hs,hor⟩ := shl64_lor h0 (by omega : d1 < 2^31)
      rw [if_neg hbig,if_pos (by rw [isInt64_iff,hval]; omega),hs,some_bind,hor,hval]
      rfl

lemma toValidInt_spec :
    x.toValidInt = some (if IsInt64 x.toInt then .int x.toInt else .bigint x) := by
  have hlen := x.used_le_length
  have h0 := x.digits.digit_lt 0
  rcases (by omega : x.used = 0 ∨ x.used = 1 ∨ x.used = 2 ∨ 2 < x.used) with hu | hu | hu | hu
  · have hz : x.toInt = 0 := by simp [toInt,x.used_eq_zero_iff.mp hu]
    rw [toValidInt,if_pos hu,hz,if_pos (by decide)]
  · have hval : x.toInt = if x.neg then -(x.digits.digit 0 : ℤ) else x.digits.digit 0 := by
      unfold toInt withSign magnitude
      rw [hu]
      simp [value]
    have hint : IsInt64 x.toInt := by
      rw [hval]
      exact isInt64_of_abs_lt (by split_ifs <;> omega) (by split_ifs <;> omega)
    rw [toValidInt,if_neg (by omega),read_eq (by omega),if_pos hint,hval]
    simp [hu]
  · exact toValidInt_of_used_eq_two hu
  · have hnot : ¬ IsInt64 x.toInt := by
      have hle : 2^64 ≤ x.magnitude :=
        calc 2^64 = digitBase^2 := by norm_num
          _ ≤ digitBase^(x.used-1) := Nat.pow_le_pow_right (by norm_num) (by omega)
          _ ≤ x.magnitude := pow_le_magnitude (by omega)
      rw [isInt64_iff]
      unfold toInt withSign
      split_ifs <;> omega
    rw [toValidInt,if_neg (by omega),read_eq (by omega),if_neg hnot]
    simp only [some_bind,if_neg (show ¬ x.used = 1 by omega),if_pos hu]
    rfl

/-- The computation succeeds with a big integer of value `v`, which `_toValidInt` turns into a
`Smi` or `Mint` exactly when `v` is in the range of a `Mint`. -/
def Computes (r : Option Bigint) (v : ℤ) : Prop :=
  ∃ b, r = some b ∧ b.toInt = v ∧
    b.toValidInt = some (if IsInt64 v then .int v else .bigint b)

lemma Computes.of_spec {r : Option Bigint} {v : ℤ} (h : ∃ b, r = some b ∧ b.toInt = v) :
    Computes r v := by
  obtain ⟨b,hb,rfl⟩ := h
  exact ⟨b,hb,rfl,b.toValidInt_spec⟩

/-- Addition, subtraction, multiplication, squaring and comparison of big integers are exact, and
no step on digits leaves the arrays or the range of a `Mint`. -/
theorem ring_operations_exact (x y : Bigint) :
    Computes (x.add y) (x.toInt+y.toInt) ∧ Computes (x.sub y) (x.toInt-y.toInt) ∧
    Computes (x.mul y) (x.toInt*y.toInt) ∧ Computes x.sqr (x.toInt^2) ∧
    ∃ c, x.compare y = some c ∧ (c < 0 ↔ x.toInt < y.toInt) ∧ (c = 0 ↔ x.toInt = y.toInt) ∧
      (0 < c ↔ y.toInt < x.toInt) := by
  refine ⟨.of_spec (add_spec x y),.of_spec (sub_spec x y),.of_spec (mul_spec x y),
    .of_spec (sqr_spec x),?_⟩
  obtain ⟨c,hc,hlt,heq⟩ := compare_spec x y
  exact ⟨c,hc,hlt,heq,by omega⟩

end DartSdk.Bigint
