import DartSdk.BigintParsing

/-! Writing text is exact while its length fits. The groups of decimal characters may be longer than
the text, but not longer than the memory that the zone reserves. -/
namespace DartSdk.Bigint

open Iteration Utils Numeral List Nat Uint32List CharBuffer

/-- The canonical numeral of a number. -/
def numeral (base n : ℕ) : List Char := (Numeral.digits base n).map intToHexDigit

variable (neg : Bool)

def sign : List Char := if neg then ['-'] else []

/-- The canonical decimal and hexadecimal text of an integer. -/
def decText (i : ℤ) : List Char := sign (i < 0) ++ numeral 10 i.natAbs

def hexText (i : ℤ) : List Char := sign (i < 0) ++ '0' :: 'x' :: numeral 16 i.natAbs

variable (x : Bigint)

lemma decide_toInt_neg : decide (x.toInt < 0) = x.neg := by
  rw [Bool.eq_iff_iff,decide_eq_true_iff,toInt_neg_iff]

lemma decText_toInt : decText x.toInt = sign x.neg ++ numeral 10 x.magnitude := by
  rw [decText,decide_toInt_neg,natAbs_toInt]

lemma hexText_toInt : hexText x.toInt = sign x.neg ++ '0' :: 'x' :: numeral 16 x.magnitude := by
  rw [hexText,decide_toInt_neg,natAbs_toInt]

lemma length_sign : (sign neg).length = if neg then 1 else 0 := by
  cases neg <;> rfl

lemma reverse_sign : (sign neg).reverse = sign neg := by
  cases neg <;> rfl

section Buffer
variable {xs junk cs : List Char}

lemma push_eq (xs : List Char) (j c : Char) : (⟨xs ++ j :: junk,xs.length⟩ : CharBuffer).push c =
    some ⟨(xs ++ [c]) ++ junk,(xs ++ [c]).length⟩ := by
  simp [push]

lemma foldlM_push (h : cs.length ≤ junk.length) : cs.foldlM push ⟨xs ++ junk,xs.length⟩ =
      some ⟨(xs ++ cs) ++ junk.drop cs.length,(xs ++ cs).length⟩ := by
  induction cs generalizing xs junk with
  | nil => simp
  | cons c cs ih =>
    obtain _ | ⟨j,junk⟩ := junk
    · exact absurd h (by simp)
    · rw [foldlM_cons,push_eq,some_bind,ih (le_of_succ_le_succ h),append_assoc xs,singleton_append]
      rfl

lemma foldlM_push_none (h : junk.length < cs.length) :
    cs.foldlM push ⟨xs ++ junk,xs.length⟩ = none := by
  induction cs generalizing xs junk with
  | nil => simp at h
  | cons c cs ih =>
    cases junk with
    | nil => simp [push]
    | cons j junk =>
      rw [foldlM_cons,push_eq,some_bind]
      simpa using @ih (xs ++ [c]) junk (lt_of_succ_lt_succ h)

lemma pushFront_eq (j c : Char) : (⟨(junk ++ [j]) ++ xs,(junk ++ [j]).length⟩ : CharBuffer).pushFront c =
    some ⟨junk ++ c :: xs,junk.length⟩ := by
  simp [pushFront]

/-- Characters that are written from the end on; there is no space for more than `junk`. -/
lemma foldlM_pushFront (cs junk xs : List Char) : cs.foldlM pushFront ⟨junk ++ xs,junk.length⟩ =
    if cs.length ≤ junk.length then
      some ⟨junk.take (junk.length-cs.length) ++ (cs.reverse ++ xs),junk.length-cs.length⟩
    else none := by
  induction cs generalizing xs junk with
  | nil => simp
  | cons c cs ih =>
    rcases eq_nil_or_concat' junk with rfl | ⟨junk,j,rfl⟩
    · simp [pushFront]
    · rw [foldlM_cons,pushFront_eq,some_bind,ih]
      have hlen : (junk ++ [j]).length-(c :: cs).length = junk.length-cs.length := by simp
      have hle : (c :: cs).length ≤ (junk ++ [j]).length ↔ cs.length ≤ junk.length := by simp
      simp only [hlen,hle,take_append_of_le_length (sub_le _ _),reverse_cons,
        append_assoc,singleton_append]

lemma cString_eq (h : '\x00' ∉ xs) : cString (xs ++ '\x00' :: junk) = xs := by
  have hall : ∀ c ∈ xs, (decide (c ≠ '\x00')) = true := by
    intro c hc
    rw [decide_eq_true_iff]
    rintro rfl
    exact h hc
  rw [cString,takeWhile_append_of_pos hall]
  simp

lemma reverseChars_eq (pre mid post : List Char) {j fuel : ℕ} (hj : j+1 = pre.length+mid.length)
    (hfuel : mid.length < 2*fuel) :
    reverseChars fuel (pre ++ (mid ++ post)) pre.length j = some (pre ++ (mid.reverse ++ post)) := by
  induction fuel generalizing pre mid post j with
  | zero => omega
  | succ fuel ih =>
    rcases mid with _ | ⟨c,mid⟩
    · rw [reverseChars,if_neg (by simp at hj; omega)]
      rfl
    rcases eq_nil_or_concat' mid with rfl | ⟨mid,d,rfl⟩
    · rw [reverseChars,if_neg (by simp at hj; omega)]
      rfl
    · simp only [length_cons,length_append,length_nil] at hj hfuel
      have hi : (pre ++ (c :: (mid ++ [d]) ++ post))[pre.length]? = some c := by simp
      have hlast : j = (pre ++ c :: mid).length := by simp; omega
      have hsplit : pre ++ (c :: (mid ++ [d]) ++ post) = (pre ++ c :: mid) ++ d :: post := by simp
      have hget : (pre ++ (c :: (mid ++ [d]) ++ post))[j]? = some d := by
        rw [hsplit,hlast]
        simp
      have hset : ((pre ++ (c :: (mid ++ [d]) ++ post)).set pre.length d).set j c =
          (pre ++ [d]) ++ (mid ++ c :: post) := by
        have hfirst : (pre ++ (c :: (mid ++ [d]) ++ post)).set pre.length d =
            (pre ++ d :: mid) ++ d :: post := by simp
        rw [hfirst,(by rw [hlast]; simp : j = (pre ++ d :: mid).length)]
        simp
      have hnext : reverseChars fuel ((pre ++ [d]) ++ (mid ++ c :: post)) (pre ++ [d]).length (j-1) = _ :=
        ih _ _ _ (by simp; omega) (by omega)
      rw [reverseChars,if_pos (by omega),hi,hget]
      simp only [some_bind,hset]
      rw [length_append,length_singleton] at hnext
      rw [hnext]
      simp

end Buffer

section Dec
variable {rest : Uint32List} {used : ℕ}

lemma divideDigit_spec {remainder i : ℕ} (hi : i < rest.length) (hr : remainder < kDivisor) : ∃ r',
      divideDigit (remainder,rest) i = some ((remainder*digitBase+rest.digit i)%kDivisor,r') ∧
      r'.length = rest.length ∧ r'.digit i = (remainder*digitBase+rest.digit i)/kDivisor ∧ ∀ k,
      k ≠ i → r'.digit k = rest.digit k := by
  have hk : kDivisor = 100000000 := rfl
  have hd := rest.digit_lt i
  have hquot : (remainder*digitBase+rest.digit i)/kDivisor < 2^32 := by
    rw [hk] at hr ⊢
    unfold digitBase
    omega
  obtain ⟨r',hw,hlen,hdig,hother⟩ := rest.write_digit_spec hi hquot
  refine ⟨r',?_,hlen,hdig,hother⟩
  have hshift : remainder <<< kBitsPerDigit = remainder*digitBase := shiftLeft_eq _ _
  have hmod : (remainder*digitBase+rest.digit i) -
      (remainder*digitBase+rest.digit i)/kDivisor*kDivisor =
      (remainder*digitBase+rest.digit i)%kDivisor := mod_eq_sub_div_mul.symm
  have hlt : (remainder*digitBase+rest.digit i)%kDivisor < 2^32 :=
    (mod_lt _ (by norm_num [hk])).trans (by norm_num [hk])
  simp only [divideDigit,read_eq hi,some_bind,
    Int.toNat_natCast,hshift,mod_eq_of_lt hquot,hw,hmod,mod_eq_of_lt hlt]
  rfl

/-- The division of the digits from position `i` on. -/
structure Divided (o : Uint32List) (used i : ℕ) (s : ℕ × Uint32List) : Prop where
  length_eq : s.2.length = o.length
  remainder_lt : s.1 < kDivisor
  quotient_eq : s.2.slice i (used-i)*kDivisor+s.1 = o.slice i (used-i)
  rest_eq : ∀ k < i, s.2.digit k = o.digit k

lemma Divided.step {o : Uint32List} {i : ℕ} {s : ℕ × Uint32List} (h : Divided o used (i+1) s)
    (hi : i < used) (hused : used ≤ o.length) :
    ∃ t, divideDigit s i = some t ∧ Divided o used i t := by
  obtain ⟨remainder,r⟩ := s
  obtain ⟨hlength,hlt,hquot,hrest⟩ := h
  obtain ⟨r',hstep,hlength',hdig,hother⟩ :=
    divideDigit_spec (by simp only at hlength; omega : i < r.length) hlt
  refine ⟨_,hstep,hlength'.trans hlength,mod_lt _ (by norm_num [kDivisor]),?_,fun k hk => ?_⟩
  · have hslice : r'.slice (i+1) (used-(i+1)) = r.slice (i+1) (used-(i+1)) :=
      Positional.value_congr fun k _ => hother _ (by omega)
    have hdm := div_add_mod (remainder*digitBase+r.digit i) kDivisor
    rw [(by omega : used-i = used-(i+1)+1),slice_succ_left,
      slice_succ_left,← hquot,← hrest i (by omega),hdig,hslice]
    linear_combination hdm
  · rw [hother k (by omega)]
    exact hrest k (by omega)

lemma divideDigits_spec (h : used ≤ rest.length) : ∃ remainder r,
      forDown divideDigit used (0,rest) = some (remainder,r) ∧ r.length = rest.length ∧
      r.value used = rest.value used/kDivisor ∧ remainder = rest.value used%kDivisor := by
  obtain ⟨⟨remainder,r⟩,hloop,hdiv⟩ := forDown_total (s := (0,rest))
    (fun i s => Divided rest used i s)
    ⟨rfl,by norm_num [kDivisor],by simp [slice],fun _ _ => rfl⟩
    fun i hi s hs => hs.step hi h
  obtain ⟨hlength,hlt,hquot, -⟩ := hdiv
  simp only [Nat.sub_zero,slice_zero_left] at hlength hlt hquot
  have hdm := (Nat.div_mod_unique (by norm_num [kDivisor])).mpr
    ⟨(by linarith : remainder+kDivisor*r.value used = rest.value used),hlt⟩
  exact ⟨remainder,r,hloop,hlength,hdm.1.symm,hdm.2.symm⟩

lemma digitChar_eq {d : ℕ} (h : d < 10) : Char.ofNat ('0'.toNat+d) = intToHexDigit d :=
  (if_pos h).symm

lemma pushDecDigits_eq {n remainder : ℕ} (h : remainder < 10^n) (b : CharBuffer) :
    pushDecDigits n remainder b = ((fixed 10 n remainder).map intToHexDigit).foldlM push b := by
  induction n generalizing remainder b with
  | zero => rw [pushDecDigits,if_pos (lt_one_iff.mp h)]; rfl
  | succ n ih =>
    have hdiv : remainder/10 < 10^n := Nat.div_lt_of_lt_mul (by rwa [← pow_succ'])
    rw [pushDecDigits,fixed,map_cons,foldlM_cons,digitChar_eq (Nat.mod_lt _ (by norm_num))]
    exact congrArg _ (funext fun b => ih hdiv b)

lemma used_eq_zero_of_value (htop : 0 < used → rest.digit (used-1) ≠ 0)
    (h : rest.value used = 0) : used = 0 := by
  by_contra hne
  have hle : digitBase^(used-1) ≤ rest.value used :=
    Positional.pow_le_value (by omega) (htop (by omega))
  have hpos : 0 < digitBase^(used-1) := by positivity
  omega

lemma pushGroups_spec (xs : List Char) {junk : List Char} {fuel g : ℕ} (hused : used ≤ rest.length)
    (htop : 0 < used → rest.digit (used-1) ≠ 0) (hlt : rest.value used < kDivisor^g)
    (hfuel : g ≤ fuel) (hjunk : kDigits*g ≤ junk.length) :
    ∃ ds, (∀ d ∈ ds, d < 10) ∧ ofDigits 10 ds = rest.value used ∧ ds.length ≤ kDigits*g ∧
      pushGroups fuel rest used ⟨xs ++ junk,xs.length⟩ =
        some ⟨(xs ++ ds.map intToHexDigit) ++ junk.drop ds.length,
          (xs ++ ds.map intToHexDigit).length⟩ := by
  induction g generalizing fuel rest used xs junk with
  | zero =>
    have hzero := used_eq_zero_of_value htop (lt_one_iff.mp hlt)
    subst hzero
    refine ⟨[],by simp,rfl,zero_le _,?_⟩
    rw [pushGroups]
    simp
  | succ g ih =>
    obtain _ | used := used
    · refine ⟨[],by simp,rfl,zero_le _,?_⟩
      rw [pushGroups]
      simp
    obtain ⟨fuel,rfl⟩ := exists_fuel fuel
    obtain ⟨remainder,r,hloop,hlength,hquot,hrem⟩ := divideDigits_spec hused
    have hrem_lt : remainder < 10^kDigits := hrem ▸ mod_lt _ (by norm_num [kDivisor])
    have hgroup : ((fixed 10 kDigits remainder).map intToHexDigit).length ≤ junk.length := by
      rw [length_map,length_fixed]
      exact (Nat.le_mul_of_pos_right _ (Nat.succ_pos g)).trans hjunk
    have hclamp := clamp_le r (used+1)
    have hvalue : r.value (clamp r (used+1)) = rest.value (used+1)/kDivisor := by
      rw [value_clamp,hquot]
    obtain ⟨ds,hds,hval,hlen,hrun⟩ := @ih r (clamp r (used+1))
      (xs ++ (fixed 10 kDigits remainder).map intToHexDigit) (junk.drop kDigits) fuel (by omega)
      clamp_top
      (by rw [hvalue]; exact Nat.div_lt_of_lt_mul (by rwa [← pow_succ']))
      (by omega) (by rw [length_drop]; rw [Nat.mul_succ] at hjunk; omega)
    refine ⟨fixed 10 kDigits remainder ++ ds,?_,?_,?_,?_⟩
    · exact forall_mem_append.mpr ⟨fixed_lt (by norm_num) _ _,hds⟩
    · rw [Nat.ofDigits_append,ofDigits_fixed hrem_lt,length_fixed,hval,hvalue,hrem]
      exact mod_add_div _ kDivisor
    · rw [length_append,length_fixed,mul_succ]
      omega
    · rw [pushGroups,hloop]
      simp only [some_bind,pushDecDigits_eq hrem_lt]
      rw [foldlM_push hgroup,some_bind,length_map,length_fixed,hrun]
      simp

lemma pushGroups_none {fuel g : ℕ} {xs junk : List Char} (hused : used ≤ rest.length)
    (hle : kDivisor^g ≤ rest.value used) (hjunk : junk.length < kDigits*(g+1)) :
    pushGroups fuel rest used ⟨xs ++ junk,xs.length⟩ = none := by
  have hpos : 0 < kDivisor^g := Nat.pow_pos (by decide)
  induction fuel generalizing g rest used xs junk with
  | zero =>
    cases used with
    | zero => exact absurd (hpos.trans_le hle) (by simp [value])
    | succ used => rfl
  | succ fuel ih =>
    obtain _ | used := used
    · exact absurd (hpos.trans_le hle) (by simp [value])
    obtain ⟨remainder,r,hloop,hlength,hquot,hrem⟩ := divideDigits_spec hused
    have hrem_lt : remainder < 10^kDigits := hrem ▸ mod_lt _ (by norm_num [kDivisor])
    have hgroup : ((fixed 10 kDigits remainder).map intToHexDigit).length = kDigits := by
      rw [length_map,length_fixed]
    rw [pushGroups,hloop]
    simp only [some_bind,pushDecDigits_eq hrem_lt]
    by_cases hspace : junk.length < kDigits
    · rw [foldlM_push_none (hgroup ▸ hspace)]
      rfl
    · obtain ⟨g,rfl⟩ := exists_fuel g (pos_of_ne_zero fun h => hspace (by simpa [h] using hjunk))
      rw [foldlM_push (hgroup ▸ not_lt.1 hspace),some_bind,hgroup]
      apply ih
      · exact (clamp_le r (used+1)).trans (hlength ▸ hused)
      · rw [value_clamp,hquot,le_div_iff_mul_le (by decide),← pow_succ]
        exact hle
      · rw [length_drop]
        rw [mul_succ] at hjunk
        omega
      · exact Nat.pow_pos (by decide)

lemma intToHexDigit_eq_zero_iff : ∀ d < 16, intToHexDigit d = '0' ↔ d = 0 := by decide

lemma trimZeros_spec {ds : List ℕ} (junk : List Char) (hds : ∀ d ∈ ds, d < 10)
    (hpos : Nat.ofDigits 10 ds ≠ 0) : ∃ zeros, ds = Nat.digits 10 (Nat.ofDigits 10 ds) ++ zeros ∧
      trimZeros (ds.map intToHexDigit ++ junk) ds.length =
      (Nat.digits 10 (Nat.ofDigits 10 ds)).length := by
  induction ds using reverseRecOn generalizing junk with
  | nil => exact absurd rfl hpos
  | append_singleton es d ih =>
    obtain ⟨hes,hd⟩ := forall_mem_append.mp hds
    have hchar := intToHexDigit_eq_zero_iff d ((hd d mem_cons_self).trans (by norm_num))
    have hlast : ((es ++ [d]).map intToHexDigit ++ junk)[es.length]? = some (intToHexDigit d) := by
      simp
    by_cases hzero : d = 0
    · have hval : ofDigits 10 (es ++ [d]) = ofDigits 10 es := by
        rw [ofDigits_append,hzero,ofDigits_singleton,mul_zero,add_zero]
      rw [hval] at hpos ⊢
      obtain ⟨zeros,hzeros,htrim⟩ := ih (intToHexDigit d :: junk) hes hpos
      refine ⟨zeros ++ [d],by rw [← append_assoc,← hzeros],?_⟩
      obtain ⟨m,hm⟩ : ∃ m, es.length = m+1 := by
        refine exists_eq_succ_of_ne_zero fun hlen => hpos ?_
        rw [eq_nil_of_length_eq_zero hlen]
        rfl
      rw [hm] at hlast htrim
      rw [length_append,length_singleton,hm,trimZeros,if_pos (by rw [hlast,hchar.mpr hzero]),
        ← htrim]
      simp
    · have hdigits : Nat.digits 10 (Nat.ofDigits 10 (es ++ [d])) = es ++ [d] :=
        Nat.digits_ofDigits 10 (by norm_num) _ hds fun _ => by simpa using hzero
      refine ⟨[],by rw [hdigits,append_nil],?_⟩
      rw [hdigits,length_append,length_singleton]
      rcases hm : es.length with _ | m
      · rfl
      · rw [hm] at hlast
        rw [trimZeros,if_neg (by rw [hlast,Option.some_inj,hchar]; exact hzero)]

lemma two_pow_lt_ten_pow (n : ℕ) : 2^n < 10^(n*30103/100000+1) := by
  have hbase : 2^100000 ≤ 10^30103 := by decide +kernel
  refine lt_of_pow_lt_pow_left₀ 100000 (by positivity) ?_
  calc (2^n)^100000 = (2^100000)^n := by rw [← pow_mul,← pow_mul,Nat.mul_comm]
    _ ≤ (10^30103)^n := Nat.pow_le_pow_left hbase n
    _ = 10^(30103*n) := (pow_mul 10 30103 n).symm
    _ < 10^((n*30103/100000+1)*100000) := Nat.pow_lt_pow_right (by norm_num) (by omega)
    _ = _ := pow_mul 10 _ _

lemma digit_take {xs : Uint32List} {n k : ℕ} (h : k < n) : digit (xs.take n) k = xs.digit k := by
  simp [digit,h]

variable (x : Bigint)

/-- The number of decimal digits that memory is reserved for. -/
def decLen : ℕ := x.used*32*30103/100000+1

lemma magnitude_lt_ten_pow : x.magnitude < 10^x.decLen :=
  calc x.magnitude < digitBase^x.used := x.magnitude_lt
    _ = 2^(x.used*32) := by rw [← pow_mul,mul_comm]
    _ < _ := two_pow_lt_ten_pow (x.used*32)

lemma pushDec_spec {junk : List Char} {g : ℕ} (hlt : x.magnitude < kDivisor^g)
    (hg : 0 < x.used → g ≤ 2*x.used) (hjunk : kDigits*g ≤ junk.length) (hone : 0 < junk.length) :
    ∃ b rest, pushDec x ⟨junk,0⟩ = some b ∧ b.chars = (numeral 10 x.magnitude).reverse ++ rest ∧
      trimZeros b.chars b.pos = (numeral 10 x.magnitude).length ∧ b.chars.length = junk.length := by
  unfold pushDec
  by_cases hzero : x.used = 0
  · obtain ⟨j,junk,rfl⟩ := exists_cons_of_length_pos hone
    rw [if_pos hzero,(used_eq_zero_iff x).mp hzero]
    exact ⟨_,junk,push_eq [] j '0',rfl,rfl,rfl⟩
  have hlength : (x.digits.take x.used).length = x.used := by
    rw [length_take,min_eq_left x.used_le_length]
  have hvalue : value (x.digits.take x.used) x.used = x.magnitude :=
    Positional.value_congr fun k hk => digit_take hk
  have htop : 0 < x.used → digit (x.digits.take x.used) (x.used-1) ≠ 0 := by
    rw [digit_take (by omega)]
    exact x.clamped
  obtain ⟨ds,hds,hval,hlen,hrun⟩ := pushGroups_spec [] hlength.ge htop (hvalue ▸ hlt)
    (hg (pos_of_ne_zero hzero)) hjunk
  rw [hvalue] at hval
  have hne : ofDigits 10 ds ≠ 0 := by
    rw [hval,Ne,← used_eq_zero_iff]
    exact hzero
  obtain ⟨zeros,hzeros,htrim⟩ := trimZeros_spec (junk.drop ds.length) hds hne
  have hnumeral : (numeral 10 x.magnitude).reverse = (Nat.digits 10 x.magnitude).map intToHexDigit := by
    rw [numeral,Numeral.digits,if_neg (hval ▸ hne),← map_reverse,reverse_reverse]
  refine ⟨_,zeros.map intToHexDigit ++ junk.drop ds.length,by rw [if_neg hzero]; exact hrun,?_,?_,?_⟩
  · rw [hnumeral,← hval,← append_assoc,← map_append,← hzeros]
    rfl
  · have hlength : (numeral 10 x.magnitude).length = (Nat.digits 10 x.magnitude).length := by
      rw [← length_reverse,hnumeral,length_map]
    rw [hlength,← hval,← htrim]
    simp
  · simp
    omega

lemma magnitude_lt_groups : x.magnitude < kDivisor^((x.decLen+7)/8) := by
  rw [(by norm_num [kDivisor] : kDivisor = 10^8),← pow_mul]
  exact x.magnitude_lt_ten_pow.trans_le (Nat.pow_le_pow_right (by norm_num) (by omega))

lemma allocate_eq (a : Arch) {n : ℕ} (h : (n : ℤ) ≤ kIntptrMax a-8) :
    allocate a n = some (replicate ((n+7)/8*8) '\x00') := by
  have hround : roundUp n 8 = some ((n+7)/8*8) := roundUp_eq n 3
  rw [allocate,if_neg (by omega),Int.toNat_natCast,hround,Option.map_some]

lemma pushSign_eq (b : CharBuffer) : pushSign neg b = (sign neg).foldlM push b := by
  cases neg with
  | false => rfl
  | true => simp [pushSign,sign]

/-- The numbers of digits for which the length of the decimal text is computed without overflow. -/
def DecFits (a : Arch) (x : Bigint) : Prop :=
  x.used*32 ≤ kIntptrMax a ∧ x.used*32*30103 < 2^63

lemma zero_not_mem_numeral {b n : ℕ} (h : 1 < b ∧ b ≤ 16) : '\x00' ∉ numeral b n := by
  have hchar : ∀ d < 16, intToHexDigit d ≠ '\x00' := by decide
  rw [numeral,mem_map]
  rintro ⟨d,hd,he⟩
  exact hchar d ((digits_lt h.1 d hd).trans_le h.2) he

lemma zero_not_mem_sign : '\x00' ∉ sign neg := by
  cases neg <;> decide

lemma DecFits.kMaxUsed {x : Bigint} {a : Arch} (h : x.DecFits a) :
    x.used ≤ kIntptrMax a/kBitsPerDigit/kLog2Dividend*kLog2Divisor := by
  obtain ⟨h32,h63⟩ := h
  cases a <;> simp only [kIntptrMax,kBitsPerWord,kBitsPerDigit,kLog2Dividend,kLog2Divisor] at * <;>
    omega

lemma DecFits.allocate {x : Bigint} {a : Arch} (h : x.DecFits a) (neg : ℕ) (hneg : neg ≤ 1) :
    ((neg+x.decLen+1 : ℕ) : ℤ) ≤ kIntptrMax a-8 := by
  obtain ⟨h32,h63⟩ := h
  have hten : x.decLen = x.used*32*30103/100000+1 := rfl
  cases a <;> simp only [kIntptrMax,kBitsPerWord] at * <;> omega

lemma reverse_text {text rest : List Char} (neg : Bool) (hne : text ≠ [])
    (hrest : (sign neg).length+1 ≤ rest.length) (hzero : '\x00' ∉ text) : (do
      let b ← pushSign neg ⟨text.reverse ++ rest,text.length⟩
      let chars ← reverseChars b.pos b.chars 0 (b.pos-1)
      let b ← (⟨chars,b.pos⟩ : CharBuffer).push '\x00'
      return cString b.chars) = some (sign neg ++ text) := by
  have hpos := length_pos_iff.mpr hne
  have hsign : pushSign neg ⟨text.reverse ++ rest,text.length⟩ =
      some ⟨(text.reverse ++ sign neg) ++ rest.drop (sign neg).length,
        (text.reverse ++ sign neg).length⟩ := by
    rw [pushSign_eq,← length_reverse,foldlM_push (by omega)]
  obtain ⟨c,junk,hjunk⟩ := exists_cons_of_length_pos
    (by rw [length_drop]; omega : 0 < (rest.drop (sign neg).length).length)
  have hreverse : reverseChars (text.reverse ++ sign neg).length
      ((text.reverse ++ sign neg) ++ rest.drop (sign neg).length) 0
      ((text.reverse ++ sign neg).length-1) = some ((sign neg ++ text) ++ c :: junk) := by
    have h := reverseChars_eq [] (text.reverse ++ sign neg) (c :: junk)
      (by simp; omega : (text.reverse ++ sign neg).length-1+1 = _)
      (by simp; omega : _ < 2*(text.reverse ++ sign neg).length)
    rw [reverse_append,reverse_reverse,reverse_sign] at h
    rw [hjunk]
    exact h
  have hlen : (text.reverse ++ sign neg).length = (sign neg ++ text).length := by simp; omega
  simp only [hsign,some_bind,hreverse]
  rw [hlen,push_eq,some_bind,append_assoc,singleton_append,cString_eq]
  · rfl
  · rw [mem_append,not_or]
    exact ⟨zero_not_mem_sign neg,hzero⟩

/-- `ToDecCString` after the allocation of `chars`. -/
def storeDec (chars : List Char) : Option (List Char) := do
  let b ← pushDec x ⟨chars,0⟩
  let b ← pushSign x.neg ⟨b.chars,trimZeros b.chars b.pos⟩
  let chars ← reverseChars b.pos b.chars 0 (b.pos-1)
  let b ← (⟨chars,b.pos⟩ : CharBuffer).push '\x00'
  return cString b.chars

lemma storeDec_spec {chars : List Char} {g : ℕ} (hlt : x.magnitude < kDivisor^g)
    (hg : 0 < x.used → g ≤ 2*x.used) (hgroups : kDigits*g ≤ chars.length)
    (hlen : (sign x.neg).length+x.decLen+1 ≤ chars.length) :
    x.storeDec chars = some (decText x.toInt) := by
  obtain ⟨b,rest,hpush,hchars,htrim,hlength⟩ := pushDec_spec x hlt hg hgroups (by omega)
  have hdigits : (numeral 10 x.magnitude).length ≤ x.decLen := by
    rw [numeral,length_map]
    exact length_digits_le (by norm_num) (succ_pos _) x.magnitude_lt_ten_pow
  have hrest : (sign x.neg).length+1 ≤ rest.length := by
    rw [hchars,length_append,length_reverse] at hlength
    omega
  have hne : numeral 10 x.magnitude ≠ [] := by
    rw [numeral,Ne,map_eq_nil_iff]
    exact digits_ne_nil
  rw [decText_toInt,← reverse_text x.neg hne hrest (zero_not_mem_numeral (by norm_num))]
  simp only [storeDec,hpush,some_bind,htrim,← hchars]

lemma toDecCString_spec {a : Arch} (h : x.DecFits a) : toDecCString a x = some (decText x.toInt) := by
  have hlen : x.decLen = x.used*32*30103/100000+1 := rfl
  have hmul : mul64 ((x.used*kBitsPerDigit : ℕ) : ℤ) (kLog2Dividend : ℕ) =
      some ((x.used*32*30103 : ℕ) : ℤ) := by
    have hfits := h.2
    rw [mul64,← cast_mul]
    exact int64_eq (isInt64_of_abs_lt (by omega) (by exact_mod_cast hfits))
  have hsign : (sign x.neg).length ≤ 1 := by rw [length_sign]; split_ifs <;> omega
  have hneg : (if x.neg = true then 1 else 0) = (sign x.neg).length := (length_sign x.neg).symm
  have halloc := allocate_eq a (h.allocate _ hsign)
  have hstore : x.storeDec (replicate (((sign x.neg).length+x.decLen+1+7)/8*8) '\x00') =
      some (decText x.toInt) := by
    apply storeDec_spec x x.magnitude_lt_groups
    · omega
    · have hk : kDigits = 8 := rfl
      rw [length_replicate,hk]
      omega
    · rw [length_replicate]
      omega
  have hcond : ¬ (x.used > kIntptrMax a/kBitsPerDigit/kLog2Dividend*kLog2Divisor ∨
      x.used*kBitsPerDigit > kIntptrMax a) := not_or.mpr ⟨not_lt.mpr h.kMaxUsed,not_lt.mpr h.1⟩
  unfold toDecCString
  simp only [hcond,if_false]
  have hdec : ((x.used*32*30103 : ℕ) : ℤ).toNat/kLog2Divisor+1 = x.decLen := rfl
  simp only [hmul,some_bind,hdec,hneg,halloc]
  exact hstore

lemma toDecCString_overflow {a : Arch} (h : ¬ x.DecFits a) : toDecCString a x = none := by
  unfold toDecCString
  by_cases hcond : x.used > kIntptrMax a/kBitsPerDigit/kLog2Dividend*kLog2Divisor ∨
      x.used*kBitsPerDigit > kIntptrMax a
  · exact if_pos hcond
  · have hle : x.used*32 ≤ kIntptrMax a := not_lt.mp (not_or.mp hcond).2
    have hover : 2^63 ≤ x.used*32*30103 := not_lt.mp fun hlt => h ⟨hle,hlt⟩
    have hmul : mul64 ((x.used*kBitsPerDigit : ℕ) : ℤ) (kLog2Dividend : ℕ) = none := by
      rw [mul64,← cast_mul]
      refine if_neg fun hint => ?_
      have hmax : ((x.used*32*30103 : ℕ) : ℤ) ≤ 2^63-1 := hint.2
      omega
    simp only [hcond,hmul]
    rfl

/-- The length that `ToDecCString` requests from its allocator. -/
def decCStringLen : ℕ := (if x.neg then 1 else 0)+x.decLen+1

/-- In a buffer of the requested length every character is stored inside exactly if the groups of
eight digits of the magnitude fit. An allocator that rounds the length up hides the others. -/
theorem storeDec_inside_iff : (x.storeDec (replicate x.decCStringLen '\x00')).isSome = true ↔
    x.magnitude < 10^(8*(x.decCStringLen/8)) := by
  have hlen : x.decCStringLen = (sign x.neg).length+(x.used*32*30103/100000+1)+1 := by
    rw [length_sign]
    rfl
  have hsign : (sign x.neg).length ≤ 1 := by rw [length_sign]; split_ifs <;> omega
  have hk : kDigits = 8 := rfl
  rw [pow_mul,(by norm_num [kDivisor] : 10^8 = kDivisor)]
  constructor
  · contrapose!
    intro hle
    have hused : x.used ≠ 0 := fun h => by
      rw [(used_eq_zero_iff x).mp h] at hle
      exact absurd hle (not_le.2 (Nat.pow_pos (by decide)))
    have hvalue : value (x.digits.take x.used) x.used = x.magnitude :=
      Positional.value_congr fun k hk => digit_take hk
    have hnone : pushDec x ⟨replicate x.decCStringLen '\x00',0⟩ = none := by
      rw [pushDec,if_neg hused]
      apply @pushGroups_none _ _ _ (x.decCStringLen/8) [] (replicate x.decCStringLen '\x00')
      · rw [length_take,min_eq_left x.used_le_length]
      · rwa [hvalue]
      · rw [length_replicate,hk]
        omega
    rw [storeDec,hnone]
    simp
  · intro hlt
    rw [storeDec_spec x hlt]
    · rfl
    · omega
    · rw [length_replicate,hk]
      omega
    · rw [length_replicate,hlen]
      rfl

/-- A number with one digit whose decimal text needs two groups. -/
def tenToTheEighth : Bigint := { one with digits := [100000000,0], padded := by decide, clamped := by decide }

/-- The second group starts at 8 and ends at 15, in a buffer of 11 characters. -/
theorem storeDec_outside : tenToTheEighth.decCStringLen = 11 ∧
    tenToTheEighth.storeDec (replicate 11 '\x00') = none := by
  refine ⟨rfl,?_⟩
  have hnone : pushDec tenToTheEighth ⟨replicate 11 '\x00',0⟩ = none :=
    @pushGroups_none _ _ 2 1 [] (replicate 11 '\x00') (by decide) (by decide) (by decide)
  rw [storeDec,hnone]
  rfl

end Dec

end DartSdk.Bigint
