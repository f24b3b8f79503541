import DartSdk.BigintArithmeticExact

/-! Shifts of big integers. The loops may overwrite the array that they read, in an order in which a
digit is read before. -/
namespace DartSdk.Bigint

open Iteration Utils Nat Uint32List

/-- `r_digits[i + n] = x_digits[i]`. -/
def moveUp (x : Source) (n : ℕ) (r : Uint32List) (i : ℕ) : Option Uint32List := do
  r.write (i+n) (← (x.get r).read i)

/-- `r_digits[i - n] = x_digits[i]` for `n ≤ i`. -/
def moveDown (x : Source) (n : ℕ) (r : Uint32List) (i : ℕ) : Option Uint32List := do
  r.write (i-n) (← (x.get r).read i)

def clearDigit (r : Uint32List) (i : ℕ) : Option Uint32List := r.write i 0

/-- A leading zero for an odd number of digits. -/
def clearOdd (r : Uint32List) (used : ℕ) : Option Uint32List :=
  if used%2 = 1 then r.write used 0 else some r

section
variable (x : Source) (xUsed n : ℕ)

/-- `_dlShiftDigits`, with the number of digits in the result. -/
def dlShiftDigits (r : Uint32List) : Option (ℕ × Uint32List) :=
  if xUsed = 0 then some (0,r)
  else
    match n, x with
    | 0, .result => some (xUsed,r)
    | _, _ => do
      let rUsed := xUsed+n
      let r ← forDown (moveUp x n) xUsed r
      let r ← forDown clearDigit n r
      let r ← clearOdd r rUsed
      return (rUsed,r)

def drShiftDigits (r : Uint32List) : Option (ℕ × Uint32List) :=
  if xUsed ≤ n then some (0,r)
  else do
    let rUsed := xUsed-n
    let r ← forUp n xUsed r (moveDown x n)
    let r ← clearOdd r rUsed
    return (rUsed,r)

/-- One digit of `_lsh`, where `c` contains the bits that come from the digit above. -/
def lshStep (ds bs : ℕ) (s : ℤ × Uint32List) (i : ℕ) : Option (ℤ × Uint32List) := do
  let cbs := 32-bs
  let d ← (x.get s.2).read i
  let r ← s.2.write (i+ds+1) (Int.lor (d >>> cbs) s.1)
  return (← shl64 (d%2^cbs) bs,r)

def lsh (r : Uint32List) : Option Uint32List := do
  let ds := n/32
  let bs := n%32
  let s ← forDown (lshStep x ds bs) xUsed (0,r)
  s.2.write ds s.1

def lShiftDigits (r : Uint32List) : Option (ℕ × Uint32List) :=
  let ds := n/32
  let bs := n%32
  if bs = 0 then dlShiftDigits x xUsed ds r
  else do
    let rUsed := xUsed+ds+1
    let r ← lsh x xUsed n r
    let r ← forDown clearDigit ds r
    if (← r.read (rUsed-1)) = 0 then return (rUsed-1,r)
    else return (rUsed,← clearOdd r rUsed)

/-- One digit of `_rsh`, where `c` contains the upper bits of the digit below. -/
def rshStep (ds bs : ℕ) (s : ℤ × Uint32List) (i : ℕ) : Option (ℤ × Uint32List) := do
  let cbs := 32-bs
  let d ← (x.get s.2).read (i+ds+1)
  let r ← s.2.write i (Int.lor (← shl64 (d%2^bs) cbs) s.1)
  return (d >>> bs,r)

/-- `_rsh`, for more than `n ~/ 32` digits. -/
def rsh (r : Uint32List) : Option Uint32List := do
  let ds := n/32
  let bs := n%32
  let c := (← (x.get r).read ds) >>> bs
  let last := xUsed-ds-1
  let s ← forUp 0 last (c,r) (rshStep x ds bs)
  s.2.write last s.1

def rShiftDigits (r : Uint32List) : Option (ℕ × Uint32List) :=
  let ds := n/32
  let bs := n%32
  if bs = 0 then drShiftDigits x xUsed ds r
  else if xUsed ≤ ds then some (0,r)
  else do
    let rUsed := xUsed-ds
    let r ← rsh x xUsed n r
    if (← r.read (rUsed-1)) = 0 then return (rUsed-1,r)
    else return (rUsed,← clearOdd r rUsed)

end

variable (x : Bigint) (n : ℕ)

def dlShift : Option Bigint :=
  if x.used = 0 then some zero
  else do
    let rUsed := x.used+n
    let r ← forDown (moveUp (.array x.digits) n) x.used (Uint32List.new (rUsed+rUsed%2))
    new x.neg rUsed r

/-- The loop that looks for a digit other than zero among `k` digits from `i` on. -/
def someDigit (digits : Uint32List) : ℕ → ℕ → Option Bool
  | 0, _ => some false
  | k+1, i => do
    if (← digits.read i) ≠ 0 then some true else someDigit digits k (i+1)

def drShift : Option Bigint :=
  if x.used = 0 then some zero
  else if x.used ≤ n then some (if x.neg then minusOne else zero)
  else do
    let rUsed := x.used-n
    let r ← forUp n x.used (Uint32List.new (rUsed+rUsed%2)) (moveDown (.array x.digits) n)
    let r ← new x.neg rUsed r
    -- Round down if any bit was shifted out.
    if x.neg then if ← someDigit x.digits n 0 then r.sub one else some r
    else some r

def lShift : Option Bigint :=
  let ds := n/32
  let bs := n%32
  if bs = 0 then x.dlShift ds
  else do
    let rUsed := x.used+ds+1
    let r ← lsh (.array x.digits) x.used n (Uint32List.new (rUsed+2+rUsed%2))
    new x.neg rUsed r

def rShift : Option Bigint :=
  let ds := n/32
  let bs := n%32
  if bs = 0 then x.drShift ds
  else if x.used ≤ ds then some (if x.neg then minusOne else zero)
  else do
    let rUsed := x.used-ds
    let r ← rsh (.array x.digits) x.used n (Uint32List.new (rUsed+rUsed%2))
    let r ← new x.neg rUsed r
    if x.neg then
      if (← x.digits.read ds)%2^bs ≠ 0 then r.sub one
      else if ← someDigit x.digits ds 0 then r.sub one else some r
    else some r

section Loops
variable {x : Source} {o : Uint32List} {xUsed n : ℕ}

lemma read_filled {r : Uint32List} {v : ℕ → ℕ} {lo hi k : ℕ} (h : Filled o v lo hi r)
    (hx : k < (x.get o).length) (hk : k < lo ∨ hi ≤ k) :
    (x.get r).read k = some (((x.get o).digit k : ℕ) : ℤ) := by
  rw [← x.length_get h.length] at hx
  rw [read_eq hx,x.digit_get (h.outside hk)]

lemma moveUp_loop (hx : xUsed ≤ (x.get o).length) (hr : xUsed+n ≤ o.length) :
    ∃ r, forDown (moveUp x n) xUsed o = some r ∧
      Filled o (fun k => (x.get o).digit (k-n)) n (xUsed+n) r :=
  forDown_fill _ (fun _ => digit_lt _ _) hr fun i r hi h => by
    simp [moveUp,read_filled h (hi.trans_le hx) (by omega)]

lemma moveDown_loop {lo : ℕ} (hlo : lo ≤ xUsed) (hn : n ≤ lo) (hx : xUsed ≤ (x.get o).length)
    (hr : xUsed-n ≤ o.length) : ∃ r, forUp lo xUsed o (moveDown x n) = some r ∧
      Filled o (fun k => (x.get o).digit (k+n)) (lo-n) (xUsed-n) r :=
  forUp_fill _ (fun _ => digit_lt _ _) hlo hn hr fun i r hi hi' h => by
    simp [moveDown,read_filled h (hi'.trans_le hx) (by omega),Nat.sub_add_cancel (hn.trans hi)]

lemma clearDigit_loop (hr : n ≤ o.length) :
    ∃ r, forDown clearDigit n o = some r ∧ Filled o (fun _ => 0) 0 n r :=
  forDown_fill _ (fun _ => by norm_num) hr fun _ _ _ _ => rfl

lemma clearOdd_spec (used : ℕ) (hr : used+used%2 ≤ o.length) :
    ∃ r, clearOdd o used = some r ∧ r.length = o.length ∧
      (∀ k, k ≠ used → r.digit k = o.digit k) ∧ (used%2 = 1 → r.digit used = 0) := by
  unfold clearOdd
  by_cases hodd : used%2 = 1
  · obtain ⟨r,hr',hlen,hdig,hother⟩ :=
      write_digit_spec o (i := used) (v := 0) (by omega) (by norm_num)
    exact ⟨r,by rw [if_pos hodd]; exact hr',hlen,hother,fun _ => hdig⟩
  · exact ⟨o,if_neg hodd,rfl,fun _ _ => rfl,fun h => absurd h hodd⟩

end Loops

lemma value_of_moved_up {x r : Uint32List} {used n : ℕ} (hlow : ∀ k < n, r.digit k = 0)
    (hmoved : ∀ k < used, r.digit (k+n) = x.digit k) :
    r.value (used+n) = x.value used*digitBase^n := by
  have hzero : r.value n = 0 := Positional.value_eq_zero hlow
  have hslice : r.slice n used = x.value used :=
    Positional.value_congr fun k hk => by rw [add_comm,hmoved k hk]
  rw [add_comm,value_add,hzero,hslice,zero_add,mul_comm]

lemma value_of_moved_down {xs r : Uint32List} {used n : ℕ} (hn : n ≤ used)
    (hmoved : ∀ k < used-n, r.digit k = xs.digit (k+n)) :
    r.value (used-n) = xs.value used/digitBase^n := by
  unfold value
  rw [Positional.value_div (fun k _ => xs.digit_lt k) (by norm_num) hn]
  exact Positional.value_congr fun k hk => by rw [hmoved k hk,add_comm]

lemma two_pow_eq_digits (n : ℕ) : 2^n = digitBase^(n/32)*2^(n%32) := by
  rw [← pow_mul,← pow_add,div_add_mod]

lemma two_pow_sub_mul {bs : ℕ} (h : bs < 32) : 2^(32-bs)*2^bs = 2^32 := by
  rw [← pow_add,Nat.sub_add_cancel h.le]

lemma shiftRight_natCast (d n : ℕ) : (d : ℤ) >>> n = ((d/2^n : ℕ) : ℤ) := by
  rw [Int.shiftRight_eq_div_pow]
  norm_cast

section Parts
variable {d u p q : ℕ}

/-- The upper part of the digit `d`, below the lower part of the digit `u`, forms a digit. -/
lemma parts_lt (hpq : 2^p*2^q = 2^32) (hd : d < 2^32) : d/2^p < 2^q ∧ d/2^p+u%2^p*2^q < 2^32 := by
  have hlow : d/2^p < 2^q := Nat.div_lt_of_lt_mul (by rw [hpq]; exact hd)
  have hu : (u%2^p+1)*2^q ≤ 2^32 := by
    rw [← hpq]
    exact Nat.mul_le_mul_right _ (Nat.mod_lt u (by positivity))
  rw [Nat.add_mul,Nat.one_mul] at hu
  omega

lemma lor_parts (h : d < 2^q) : Int.lor (d : ℤ) ((u*2^q : ℕ) : ℤ) = ((d+u*2^q : ℕ) : ℤ) := by
  change ((d ||| u*2^q : ℕ) : ℤ) = _
  rw [lor_comm,mul_comm,← two_pow_add_eq_or_of_lt h,add_comm]

lemma lor_parts' (h : d < 2^q) : Int.lor ((u*2^q : ℕ) : ℤ) (d : ℤ) = ((d+u*2^q : ℕ) : ℤ) := by
  rw [← lor_parts h]
  change ((_ ||| _ : ℕ) : ℤ) = ((_ ||| _ : ℕ) : ℤ)
  rw [lor_comm]

lemma shl64_part (hpq : 2^p*2^q = 2^32) : shl64 ((d : ℤ)%2^p) q = some ((d%2^p*2^q : ℕ) : ℤ) := by
  have hcast : ((d : ℤ)%2^p) <<< q = ((d%2^p*2^q : ℕ) : ℤ) := by
    rw [Int.shiftLeft_eq]
    norm_cast
  have hlt := (parts_lt (d := 0) (u := d) hpq (by norm_num)).2
  rw [Nat.zero_div,Nat.zero_add] at hlt
  rw [shl64,hcast]
  refine int64_eq (isInt64_of_abs_lt (by omega) ?_)
  exact_mod_cast hlt.trans (by norm_num)

end Parts

section BitLoops
variable {x : Source} {o : Uint32List} {xUsed n : ℕ} (xs : Uint32List)

/-- The digits of a number, extended by zeros. -/
def extend (used k : ℕ) : ℕ := if k < used then xs.digit k else 0

lemma extend_lt (used k : ℕ) : extend xs used k < 2^32 := by
  unfold extend
  split_ifs
  · exact xs.digit_lt k
  · norm_num

lemma value_extend (used : ℕ) : Positional.value digitBase (extend xs used) used = xs.value used :=
  Positional.value_congr fun _ hk => if_pos hk

lemma lsh_spec (hx : xUsed ≤ (x.get o).length) (hr : xUsed+n/32+1 ≤ o.length) :
    ∃ r, lsh x xUsed n o = some r ∧ r.length = o.length ∧
      r.slice (n/32) (xUsed+1) = (x.get o).value xUsed*2^(n%32) ∧
      ∀ k, k < n/32 ∨ xUsed+n/32+1 ≤ k → r.digit k = o.digit k := by
  have hbs := two_pow_sub_mul (mod_lt n (by norm_num))
  unfold lsh
  generalize n/32 = ds at hr ⊢
  generalize n%32 = bs at hbs ⊢
  set e := extend (x.get o) xUsed with he
  have helt : ∀ k, e k < 2^32 := extend_lt (x.get o) xUsed
  -- Digit `k` is the upper part of the digit below and the lower part of its own digit.
  set v : ℕ → ℕ := fun k => (if k = ds then 0 else e (k-ds-1)/2^(32-bs))+e (k-ds)%2^(32-bs)*2^bs
    with hv
  have hv0 : v ds = e 0%2^(32-bs)*2^bs := by simp [hv]
  have hvs : ∀ i, v (i+ds+1) = e i/2^(32-bs)+e (i+1)%2^(32-bs)*2^bs := fun i => by
    simp [hv,Nat.add_right_comm i ds 1]
  obtain ⟨⟨c,r⟩,hs,hc,hfill⟩ := forDown_total (f := lshStep x ds bs) (n := xUsed) (s := (0,o))
    (fun i s => s.1 = ((e i%2^(32-bs)*2^bs : ℕ) : ℤ) ∧ Filled o v (i+ds+1) (xUsed+ds+1) s.2)
    ⟨by simp [he,extend],.start o _ _⟩ <| by
      rintro i hi ⟨c,r⟩ ⟨rfl,hfill⟩
      have hread : (x.get r).read i = some ((e i : ℕ) : ℤ) := by
        rw [read_filled hfill (hi.trans_le hx) (by omega),he,extend,if_pos hi]
      obtain ⟨hlow,hsum⟩ := parts_lt (u := e (i+1)) hbs (helt i)
      obtain ⟨r',hr',hfill'⟩ := hfill.down (i := i+ds+1) (by rwa [hvs]) (by omega)
        (by omega) (by omega)
      rw [hvs] at hr'
      refine ⟨(_,r'),?_,rfl,hfill'⟩
      simp only [lshStep,hread,some_bind,shiftRight_natCast,lor_parts hlow,hr',shl64_part hbs]
      rfl
  subst hc
  have hlt := (parts_lt (d := 0) (u := e 0) hbs (by norm_num)).2
  rw [Nat.zero_div,Nat.zero_add,← hv0] at hlt
  obtain ⟨r',hr',hfill'⟩ := hfill.down hlt (by omega) (by omega) (by omega)
  refine ⟨r',by simp only [hs,some_bind,← hv0,hr'],hfill'.length,?_,fun _ => hfill'.outside⟩
  rw [← value_extend,← he]
  refine Positional.value_mul_of_digits hbs.symm ?_ (fun k hk => ?_) ?_
  · rw [add_zero,hfill'.inside (by omega),hv0]
  · rw [hfill'.inside (by omega),← hvs]
    congr 1
    omega
  · simp [he,extend]

lemma rsh_spec (hn : n/32 < xUsed) (hx : xUsed ≤ (x.get o).length) (hr : xUsed-n/32 ≤ o.length) :
    ∃ r, rsh x xUsed n o = some r ∧ r.length = o.length ∧ r.value (xUsed-n/32) =
      (x.get o).value xUsed/2^n ∧ ∀ k, xUsed-n/32 ≤ k → r.digit k = o.digit k := by
  have hcbs := two_pow_sub_mul (mod_lt n (by norm_num))
  rw [two_pow_eq_digits n]
  unfold rsh
  generalize n/32 = ds at hn hr ⊢
  generalize n%32 = bs at hcbs ⊢
  have hbs : 2^bs*2^(32-bs) = 2^32 := by rw [mul_comm,hcbs]
  set e : ℕ → ℕ := fun k => extend (x.get o) xUsed (ds+k) with he
  have helt : ∀ k, e k < 2^32 := fun k => extend_lt _ _ _
  have hein : ∀ k, ds+k < xUsed → (x.get o).digit (ds+k) = e k := fun k hk => by
    simp [he,extend,if_pos hk]
  have hend : e (xUsed-ds) = 0 := by
    simp only [he,extend]
    rw [if_neg (by omega)]
  have hv : ∀ i, e i/2^bs+e (i+1)%2^bs*2^(32-bs) < 2^32 := fun i => (parts_lt hbs (helt i)).2
  obtain ⟨⟨c,r⟩,hs,hc,hfill⟩ := forUp_total (f := rshStep x ds bs) (s := (((e 0/2^bs : ℕ) : ℤ),o))
    (fun i s => s.1 = ((e i/2^bs : ℕ) : ℤ) ∧
      Filled o (fun k => e k/2^bs+e (k+1)%2^bs*2^(32-bs)) 0 i s.2) (zero_le (xUsed-ds-1))
    ⟨rfl,.start o _ _⟩ <| by
      rintro i - hi ⟨c,r⟩ ⟨rfl,hfill⟩
      have hread : (x.get r).read (i+ds+1) = some ((e (i+1) : ℕ) : ℤ) := by
        rw [read_filled hfill (by omega) (by omega),← hein (i+1) (by omega),(by omega : i+ds+1 = ds+(i+1))]
      have hlow := (parts_lt (u := 0) hbs (helt i)).1
      obtain ⟨r',hr',hfill'⟩ := hfill.up (hv i) (zero_le i) (by omega)
      refine ⟨(_,r'),?_,rfl,hfill'⟩
      simp only [rshStep,hread,some_bind,shl64_part hbs,lor_parts' hlow,hr',shiftRight_natCast]
      rfl
  subst hc
  obtain ⟨r',hr',hfill'⟩ := hfill.up (hv _) (zero_le _) (by omega)
  rw [(by omega : xUsed-ds-1+1 = xUsed-ds)] at hr' hfill'
  have hread : (x.get o).read ds = some ((e 0 : ℕ) : ℤ) := by
    rw [read_eq (by omega),← hein 0 (by omega),add_zero]
  refine ⟨r',?_,hfill'.length,?_,fun k hk => hfill'.outside (by omega)⟩
  · simp only [hread,some_bind,shiftRight_natCast,hs]
    simpa [hend] using hr'
  · have hval : Positional.value digitBase e (xUsed-ds) =
        (x.get o).value xUsed/digitBase^ds := by
      unfold value
      rw [Positional.value_div (fun k _ => (x.get o).digit_lt k) (by norm_num) hn.le]
      exact Positional.value_congr fun k hk => (hein k (by omega)).symm
    rw [← Nat.div_div_eq_div_mul,← hval]
    exact Positional.value_div_of_digits hcbs.symm (by positivity)
      (fun k hk => hfill'.inside ⟨zero_le k,hk⟩) hend

end BitLoops

section Arrays
variable {x : Source} {o : Uint32List} {xUsed n : ℕ}

lemma dlShiftDigits_spec (hpos : 0 < xUsed) (hx : xUsed ≤ (x.get o).length)
    (hr : xUsed+n+(xUsed+n)%2 ≤ o.length) : ∃ r, dlShiftDigits x xUsed n o = some (xUsed+n,r) ∧
      r.length = o.length ∧ (∀ k < xUsed, r.digit (k+n) = (x.get o).digit k) ∧ r.value (xUsed+n) =
      (x.get o).value xUsed*digitBase^n := by
  have hcopy : ∃ r, (do
      let r ← forDown (moveUp x n) xUsed o
      let r ← forDown clearDigit n r
      let r ← clearOdd r (xUsed+n)
      return (xUsed+n,r)) = some (xUsed+n,r) ∧ r.length = o.length ∧
      (∀ k < xUsed, r.digit (k+n) = (x.get o).digit k) ∧ ∀ k < n, r.digit k = 0 := by
    obtain ⟨r₁,hr₁,h₁⟩ := moveUp_loop (n := n) hx (by omega)
    have hlen₁ := h₁.length
    obtain ⟨r₂,hr₂,h₂⟩ := clearDigit_loop (o := r₁) (n := n) (by omega)
    have hlen₂ := h₂.length
    obtain ⟨r₃,hr₃,hlen₃,hrest₃, -⟩ := clearOdd_spec (o := r₂) (xUsed+n) (by omega)
    refine ⟨r₃,by simp [hr₁,hr₂,hr₃],by omega,fun k hk => ?_,fun k hk => ?_⟩
    · rw [hrest₃ _ (by omega),h₂.outside (by omega),h₁.inside (by omega),Nat.add_sub_cancel]
    · rw [hrest₃ _ (by omega),h₂.inside (by omega)]
  unfold dlShiftDigits
  rw [if_neg (by omega)]
  split
  · exact ⟨o,rfl,rfl,fun k _ => rfl,by simp [Source.get]⟩
  · obtain ⟨r,hr',hlen,hmoved,hzero⟩ := hcopy
    exact ⟨r,hr',hlen,hmoved,value_of_moved_up hzero hmoved⟩

lemma dropZero_spec (used : ℕ) (hpos : 0 < used) (hr : used+used%2 ≤ o.length) : ∃ rUsed r, (do
      if (← o.read (used-1)) = 0 then return (used-1,o)
      else return (used,← clearOdd o used)) = some (rUsed,r) ∧ r.length = o.length ∧
      r.value rUsed = o.value used ∧
      (rUsed = used-1 ∨ rUsed = used ∧ r.digit (used-1) ≠ 0) := by
  rw [read_eq (by omega)]
  simp only [some_bind]
  by_cases hz : o.digit (used-1) = 0
  · refine ⟨used-1,o,by rw [if_pos (by exact_mod_cast hz)]; rfl,rfl,?_,Or.inl rfl⟩
    conv_rhs => rw [← Nat.sub_add_cancel hpos]
    rw [value_succ,hz,Nat.zero_mul,Nat.add_zero]
  · obtain ⟨r,hr',hlen,hrest, -⟩ := clearOdd_spec used hr
    refine ⟨used,r,by rw [if_neg (by exact_mod_cast hz),hr']; rfl,hlen,?_,Or.inr ⟨rfl,?_⟩⟩
    · exact Positional.value_congr fun k hk => hrest k (by omega)
    · rwa [hrest _ (by omega)]

/-- `_lShiftDigits` multiplies by a power of two; the result has at most one digit more than the
shift by whole digits adds, and then no leading zero. -/
lemma lShiftDigits_spec (hpos : 0 < xUsed) (hx : xUsed ≤ (x.get o).length)
    (hr : xUsed+n/32+3 ≤ o.length) : ∃ rUsed r, lShiftDigits x xUsed n o = some (rUsed,r) ∧
      r.length = o.length ∧ r.value rUsed = (x.get o).value xUsed*2^n ∧
      (rUsed = xUsed+n/32 ∨ rUsed = xUsed+n/32+1 ∧ r.digit (rUsed-1) ≠ 0) := by
  unfold lShiftDigits
  by_cases hbs : n%32 = 0
  · obtain ⟨r,hr',hlen, -,hval⟩ := dlShiftDigits_spec (n := n/32) hpos hx (by omega)
    refine ⟨_,r,by simp [if_pos hbs,hr'],hlen,?_,Or.inl rfl⟩
    rw [hval,two_pow_eq_digits n,hbs,pow_zero,mul_one]
  · obtain ⟨r₁,hr₁,hlen₁,hslice, -⟩ := lsh_spec (n := n) hx (by omega)
    obtain ⟨r₂,hr₂,h₂⟩ := clearDigit_loop (o := r₁) (n := n/32) (by omega)
    have hlen₂ := h₂.length
    obtain ⟨rUsed,r,hr',hlen,hval,htop⟩ := dropZero_spec (o := r₂)
      (xUsed+n/32+1) (by omega) (by omega)
    refine ⟨rUsed,r,?_,by omega,?_,?_⟩
    · simp only [if_neg hbs,hr₁,hr₂,some_bind]
      exact hr'
    · have hlow : r₂.value (n/32) = 0 :=
        Positional.value_eq_zero fun k hk => h₂.inside ⟨zero_le k,hk⟩
      have hsame : r₂.slice (n/32) (xUsed+1) = r₁.slice (n/32) (xUsed+1) :=
        Positional.value_congr fun k _ => h₂.outside (by omega)
      rw [hval,(by omega : xUsed+n/32+1 = n/32+(xUsed+1)),value_add,hlow,
        hsame,hslice,two_pow_eq_digits n]
      ring
    · rcases htop with h | ⟨h,htop⟩
      · exact Or.inl (by omega)
      · exact Or.inr ⟨h,by rwa [h]⟩

/-- `_rShiftDigits` divides by a power of two, also in place; the result has at most one leading
zero. -/
theorem rShiftDigits_exact (x : Source) (o : Uint32List) (xUsed n : ℕ)
    (hx : xUsed ≤ (x.get o).length) (hr : xUsed-n/32+(xUsed-n/32)%2 ≤ o.length) :
    ∃ rUsed r, rShiftDigits x xUsed n o = some (rUsed,r) ∧ r.length = o.length ∧
      r.value rUsed = (x.get o).value xUsed/2^n ∧ rUsed ≤ xUsed-n/32 ∧ xUsed-n/32 ≤ rUsed+1 := by
  unfold rShiftDigits drShiftDigits
  rcases le_or_gt xUsed (n/32) with hle | hlt
  · have hzero : (x.get o).value xUsed < 2^n :=
      (value_lt _ _).trans_le (by
        rw [← pow_mul]
        exact Nat.pow_le_pow_right (by norm_num) (by omega))
    exact ⟨0,o,by simp [hle],rfl,(Nat.div_eq_of_lt hzero).symm,by omega⟩
  · by_cases hbs : n%32 = 0
    · obtain ⟨r,hmove,h⟩ := moveDown_loop (o := o) hlt.le le_rfl hx (by omega)
      have hlen := h.length
      obtain ⟨r',hclear,hlen',hrest, -⟩ := clearOdd_spec (o := r) (xUsed-n/32) (by omega)
      refine ⟨xUsed-n/32,r',by simp [hbs,hlt.not_ge,hmove,hclear],hlen'.trans hlen,?_,by omega⟩
      rw [two_pow_eq_digits n,hbs,pow_zero,mul_one]
      exact value_of_moved_down hlt.le fun k hk => by rw [hrest k (by omega),h.inside (by omega)]
    · obtain ⟨r,hshift,hlen,hval, -⟩ := rsh_spec hlt hx (by omega)
      obtain ⟨rUsed,r',hdrop,hlen',hval',htop⟩ :=
        dropZero_spec (o := r) (xUsed-n/32) (by omega) (by omega)
      refine ⟨rUsed,r',?_,hlen'.trans hlen,hval'.trans hval,by omega⟩
      simpa [hbs,hlt.not_ge,hshift] using hdrop

theorem rShiftDigits_exact_five : ∃ rUsed r, rShiftDigits .result 1 1 [5,0] = some (rUsed,r) ∧
    r.value rUsed = 2 := by
  obtain ⟨rUsed,r,hr, -,hval, -⟩ := rShiftDigits_exact .result [5,0] 1 1 (by decide) (by decide)
  exact ⟨rUsed,r,hr,hval.trans (by decide)⟩

end Arrays

variable (x : Bigint)

lemma lShift_spec (n : ℕ) : ∃ r, x.lShift n = some r ∧ r.toInt = x.toInt*2^n := by
  have hsign : ∀ m : ℕ, withSign x.neg (m*2^n) = withSign x.neg m*2^n := by
    intro m
    unfold withSign
    cases x.neg <;> simp
  unfold lShift
  by_cases hbs : n%32 = 0
  · rw [if_pos hbs,dlShift]
    by_cases h0 : x.used = 0
    · exact ⟨zero,if_pos h0,by simp [toInt,x.used_eq_zero_iff.mp h0]⟩
    · obtain ⟨d,hd,h⟩ := moveUp_loop (x := .array x.digits) (n := n/32)
        (o := Uint32List.new (x.used+n/32+(x.used+n/32)%2)) x.used_le_length
        (by rw [length_new]; omega)
      have hlen := h.length
      rw [length_new] at hlen
      have hval : d.value (x.used+n/32) = x.magnitude*digitBase^(n/32) :=
        value_of_moved_up (fun k hk => by rw [h.outside (by omega),digit_new]) fun k hk => by
          rw [h.inside (by omega),Nat.add_sub_cancel]
          rfl
      obtain ⟨r,hr, -,hrv⟩ := new_spec x.neg (x.used+n/32) d hlen.ge
      refine ⟨r,by simp [if_neg h0,hd,hr],?_⟩
      rw [hrv,hval,toInt,← hsign,two_pow_eq_digits n,hbs,pow_zero,mul_one]
  · rw [if_neg hbs]
    obtain ⟨d,hd,hlen,hslice,hrest⟩ := lsh_spec (x := .array x.digits) (n := n)
      (o := Uint32List.new (x.used+n/32+1+2+(x.used+n/32+1)%2)) x.used_le_length
      (by rw [length_new]; omega)
    rw [length_new] at hlen
    obtain ⟨r,hr, -,hrv⟩ := new_spec x.neg (x.used+n/32+1) d (by omega)
    have hlow : d.value (n/32) = 0 := Positional.value_eq_zero
      fun k hk => by rw [hrest k (Or.inl hk),digit_new]
    refine ⟨r,by simp [hd,hr],?_⟩
    rw [hrv,toInt,← hsign,(by omega : x.used+n/32+1 = n/32+(x.used+1)),
      value_add,hlow,hslice,zero_add,two_pow_eq_digits n,magnitude]
    congr 1
    change _*(x.digits.value x.used*_) = _
    ring

lemma someDigit_spec {digits : Uint32List} (k : ℕ) : ∀ {i : ℕ}, i+k ≤ digits.length →
    someDigit digits k i = some (decide (digits.slice i k ≠ 0)) := by
  induction k with
  | zero =>
    intro i _
    simp [someDigit,slice]
  | succ k ih =>
    intro i hlen
    rw [someDigit,read_eq (by omega),some_bind,slice_succ_left,ih (by omega)]
    by_cases hz : digits.digit i = 0
    · simp [hz]
    · simp [hz]

/-- Truncated division of the magnitude rounds negative numbers up. -/
lemma withSign_ediv (neg : Bool) (m : ℕ) {b : ℕ} (hb : 0 < b) : withSign neg m/(b : ℤ) =
      withSign neg (m/b)-if neg = true ∧ m%b ≠ 0 then 1 else 0 := by
  unfold withSign
  cases neg with
  | false => simp
  | true =>
    have hdm := div_add_mod m b
    have hlt := mod_lt m hb
    simp only [if_true,true_and]
    split_ifs with hm
    · rw [Int.ediv_eq_iff_of_pos (by exact_mod_cast hb)]
      have hpos : 0 < m%b := by omega
      zify at hdm hlt hpos
      constructor <;> push_cast <;> nlinarith
    · rw [Int.ediv_eq_iff_of_pos (by exact_mod_cast hb)]
      have hz : m%b = 0 := by omega
      zify at hdm hz hb
      constructor <;> push_cast <;> nlinarith

/-- Rounding down after the magnitude was divided by `b`. -/
lemma roundDown_spec {x r : Bigint} {b : ℕ} (hb : 0 < b) {p : Prop} [Decidable p]
    (hlost : p ↔ x.magnitude%b ≠ 0) (hr : r.toInt = withSign x.neg (x.magnitude/b)) :
    ∃ r', (if x.neg = true then if p then r.sub one else some r else some r) = some r' ∧
      r'.toInt = x.toInt/b := by
  rw [toInt,withSign_ediv x.neg x.magnitude hb,← hr]
  by_cases hn : x.neg = true
  · rw [if_pos hn]
    by_cases hl : p
    · obtain ⟨r',hr',hval⟩ := sub_spec r one
      refine ⟨r',by rw [if_pos hl,hr'],?_⟩
      rw [hval,toInt_one,if_pos ⟨hn,hlost.mp hl⟩]
    · exact ⟨r,by rw [if_neg hl],by rw [if_neg (fun h => hl (hlost.mpr h.2)),sub_zero]⟩
  · exact ⟨r,by rw [if_neg hn],by rw [if_neg (fun h => hn h.1),sub_zero]⟩

lemma ediv_of_lt {x : Bigint} {b : ℕ} (h : x.magnitude < b) :
    (if x.neg then minusOne else zero : Bigint).toInt = x.toInt/b := by
  have hb : 0 < b := by omega
  rw [toInt.eq_1 x,withSign_ediv x.neg x.magnitude hb,div_eq_of_lt h,mod_eq_of_lt h]
  cases hn : x.neg with
  | false => simp
  | true =>
    have hz : x.magnitude ≠ 0 := fun hz => by
      have := x.zero_nonneg (x.used_eq_zero_iff.mpr hz)
      simp [hn] at this
    simp [hz]

lemma drShift_spec (n : ℕ) : ∃ r, x.drShift n = some r ∧ r.toInt = x.toInt/(digitBase^n : ℕ) := by
  unfold drShift
  by_cases h0 : x.used = 0
  · exact ⟨zero,if_pos h0,by simp [toInt,x.used_eq_zero_iff.mp h0]⟩
  rw [if_neg h0]
  by_cases hn : x.used ≤ n
  · refine ⟨_,if_pos hn,ediv_of_lt (x.magnitude_lt.trans_le ?_)⟩
    exact Nat.pow_le_pow_right (by norm_num) hn
  rw [if_neg hn]
  obtain ⟨d,hd,h⟩ := moveDown_loop (x := .array x.digits) (n := n)
    (o := Uint32List.new (x.used-n+(x.used-n)%2)) (by omega) le_rfl x.used_le_length
    (by rw [length_new]; omega)
  have hlen := h.length
  rw [length_new] at hlen
  have hval : d.value (x.used-n) = x.magnitude/digitBase^n :=
    value_of_moved_down (by omega) fun k hk => h.inside (by omega)
  obtain ⟨r,hr, -,hrv⟩ := new_spec x.neg (x.used-n) d hlen.ge
  have hmod : x.magnitude%digitBase^n = x.digits.value n :=
    Positional.value_mod (fun k _ => x.digits.digit_lt k) (by omega)
  obtain ⟨r',hr',hval'⟩ := roundDown_spec (b := digitBase^n) (by positivity)
    (p := x.digits.slice 0 n ≠ 0) (by rw [hmod,slice_zero_left])
    (by rw [hrv,hval])
  refine ⟨r',?_,hval'⟩
  have hlen' := x.used_le_length
  simp only [hd,hr,some_bind,someDigit_spec n (by omega : 0+n ≤ x.digits.length),decide_eq_true_eq]
  exact hr'

lemma rShift_spec (n : ℕ) : ∃ r, x.rShift n = some r ∧ r.toInt = x.toInt/(2^n : ℕ) := by
  unfold rShift
  by_cases hbs : n%32 = 0
  · rw [if_pos hbs,two_pow_eq_digits n,hbs,pow_zero,mul_one]
    exact drShift_spec x (n/32)
  rw [if_neg hbs]
  by_cases hn : x.used ≤ n/32
  · refine ⟨_,if_pos hn,ediv_of_lt (x.magnitude_lt.trans_le ?_)⟩
    rw [← pow_mul]
    exact Nat.pow_le_pow_right (by norm_num) (by omega)
  rw [if_neg hn]
  obtain ⟨d,hd,hlen,hval, -⟩ := rsh_spec (x := .array x.digits)
    (o := Uint32List.new (x.used-n/32+(x.used-n/32)%2)) (by omega : n/32 < x.used) x.used_le_length
    (by rw [length_new]; omega)
  rw [length_new] at hlen
  obtain ⟨r,hr, -,hrv⟩ := new_spec x.neg (x.used-n/32) d hlen.ge
  have hlen' := x.used_le_length
  -- The bits below `n` are the low bits of one digit and all digits below it.
  have hlow : x.magnitude%digitBase^(n/32) = x.digits.value (n/32) :=
    Positional.value_mod (fun k _ => x.digits.digit_lt k) (by omega)
  have hbits : x.magnitude/digitBase^(n/32)%2^(n%32) =
      x.digits.digit (n/32)%2^(n%32) := by
    rw [← Positional.value_digit (fun k _ => x.digits.digit_lt k) (by omega : n/32 < x.used)]
    exact (mod_mod_of_dvd _ (pow_dvd_pow 2 (mod_lt n (by norm_num)).le)).symm
  have hlost : (x.digits.digit (n/32)%2^(n%32) ≠ 0 ∨ x.digits.slice 0 (n/32) ≠ 0) ↔
      x.magnitude%2^n ≠ 0 := by
    rw [two_pow_eq_digits n,Nat.mod_mul,hlow,hbits,slice_zero_left,ne_eq,ne_eq,
      ne_eq,Nat.add_eq_zero_iff,Nat.mul_eq_zero]
    have hpos : digitBase^(n/32) ≠ 0 := by positivity
    tauto
  obtain ⟨r',hr',hval'⟩ := roundDown_spec (by positivity) hlost
    (by rw [hrv,hval]; rfl)
  refine ⟨r',?_,hval'⟩
  have hdig : ((x.digits.digit (n/32) : ℤ)%2^(n%32) = 0) ↔
      x.digits.digit (n/32)%2^(n%32) = 0 := by norm_cast
  simp only [hd,hr,some_bind,read_eq (by omega : n/32 < x.digits.length),
    someDigit_spec (n/32) (by omega : 0+n/32 ≤ x.digits.length),ne_eq,hdig]
  rw [← hr']
  by_cases h1 : x.digits.digit (n/32)%2^(n%32) = 0 <;> simp [h1]

end DartSdk.Bigint
