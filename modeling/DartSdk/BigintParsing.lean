import DartSdk.BigintArithmeticExact
import DartSdk.BigintConversion

/-! Reading text is exact while the digits fit. The decimal reader needs one more digit for each
group of characters, and its estimate of their number is too small for long texts. -/
namespace DartSdk.Bigint

open Iteration Utils Numeral List Nat Uint32List

/-- The characters of a text are the digits `ds`, where `digitOf` is the value of a character. -/
abbrev IsText (digitOf : Char → Option ℕ) (str : List Char) (ds : List ℕ) : Prop :=
  List.Forall₂ (fun c d => digitOf c = some d) str ds

/-- A text is a numeral of `n`. -/
def Denotes (digitOf : Char → Option ℕ) (base : ℕ) (str : List Char) (n : ℕ) : Prop :=
  ∃ ds, IsText digitOf str ds ∧ number base ds = n

def decDigitToInt (c : Char) : Option ℕ :=
  if isDecimalDigit c then some (c.toNat - '0'.toNat) else none

/-- The state after the hexadecimal digits `ds`, least significant one first. -/
structure HexReader.Holds (s : HexReader) (length : ℕ) (ds : List ℕ) : Prop where
  length_eq : s.digits.length = length
  position : 32*s.used+s.bitI = 4*ds.length
  bitI_le : s.bitI ≤ 32
  digit_lt : s.digit < 2^s.bitI
  value_eq : s.digits.value s.used+s.digit*2^(32*s.used) = Nat.ofDigits 16 ds

section Hex
variable {s : HexReader} {length : ℕ} {ds : List ℕ}

variable (h : s.Holds length ds)
include h

lemma HexReader.Holds.store (hused : s.used < length) : ∃ digits, s.digits.write s.used s.digit =
      some digits ∧ digits.length = length ∧ digits.value (s.used+1) = ofDigits 16 ds := by
  have hpow : digitBase^s.used = 2^(32*s.used) := (pow_mul 2 32 s.used).symm
  have hlt : s.digit < 2^32 :=
    h.digit_lt.trans_le (Nat.pow_le_pow_right (by norm_num) h.bitI_le)
  obtain ⟨digits,hw,hlen,hdig,hother⟩ :=
    s.digits.write_digit_spec (h.length_eq.symm ▸ hused) hlt
  refine ⟨digits,hw,hlen.trans h.length_eq,?_⟩
  have hlow : digits.value s.used = s.digits.value s.used :=
    Positional.value_congr fun k hk => hother k (by omega)
  rw [value_succ,hlow,hdig,hpow,h.value_eq]

lemma HexReader.Holds.extend (hbit : s.bitI < 32) {d : ℕ} (hd : d < 16) :
    (⟨s.digits,s.used,(s.digit+d <<< s.bitI)%2^32,s.bitI+4⟩ : HexReader).Holds length
      (ds ++ [d]) := by
  obtain ⟨hlength,hpos, -,hdig,hval⟩ := h
  have hlt : s.digit+d*2^s.bitI < 2^(s.bitI+4) := by
    have hle : d*2^s.bitI ≤ 15*2^s.bitI := mul_le_mul_right _ (by omega)
    rw [pow_add]
    omega
  have hle : 2^(s.bitI+4) ≤ 2^32 := Nat.pow_le_pow_right (by norm_num) (by omega)
  have hmod : (s.digit+d <<< s.bitI)%2^32 = s.digit+d*2^s.bitI := by
    rw [Nat.shiftLeft_eq,Nat.mod_eq_of_lt (by omega)]
  have hpow : 16^ds.length = 2^s.bitI*2^(32*s.used) := by
    rw [← pow_add,(by omega : s.bitI+32*s.used = 4*ds.length),pow_mul]
    rfl
  rw [hmod]
  refine ⟨hlength,?_,by change s.bitI+4 ≤ 32; omega,hlt,?_⟩
  · rw [length_append,length_singleton]
    change 32*s.used+(s.bitI+4) = _
    omega
  · rw [ofDigits_append,ofDigits_singleton,← hval,hpow]
    ring

lemma HexReader.step_spec (hbit : s.bitI < 32) {c : Char} {d : ℕ}
    (hc : hexDigitToInt c = some d) (hlen : ds.length < 8*length) :
    ∃ t, s.step c = some t ∧ t.Holds length (ds ++ [d]) ∧ t.bitI < 32 := by
  have hext := h.extend hbit (hexDigitToInt_lt hc)
  have hpos := h.position
  unfold HexReader.step
  simp only [hc,some_bind]
  by_cases hfull : s.bitI+kBitsPerHexDigit = kBitsPerDigit
  · obtain ⟨digits,hw,hl,hval⟩ := hext.store (by change s.used < length; omega)
    refine ⟨⟨digits,s.used+1,0,0⟩,by rw [if_pos hfull,hw]; rfl,⟨hl,?_,?_,?_,?_⟩,?_⟩
    · have hposition := hext.position
      have hfull' : s.bitI+4 = 32 := hfull
      simp only [hfull'] at hposition ⊢
      omega
    · norm_num
    · norm_num
    · rw [← hval]
      simp [zero_mul,add_zero]
    · norm_num
  · have hne : s.bitI+4 < 32 := lt_of_le_of_ne hext.bitI_le hfull
    exact ⟨_,if_neg hfull,hext,hne⟩

omit h

lemma foldlM_hexStep {cs : List Char} {es : List ℕ} (hcs : IsText hexDigitToInt cs es)
    (h : s.Holds length ds) (hbit : s.bitI < 32) (hlen : ds.length+es.length ≤ 8*length) :
    ∃ t, cs.foldlM HexReader.step s = some t ∧ t.Holds length (ds ++ es) ∧ t.bitI < 32 := by
  induction hcs generalizing s ds with
  | nil => exact ⟨s,rfl,by rwa [append_nil],hbit⟩
  | @cons c d cs es hc _ ih =>
    rw [length_cons] at hlen
    obtain ⟨t,ht,hold,hbit'⟩ := HexReader.step_spec h hbit hc (by omega)
    obtain ⟨u,hu,hold',hbit''⟩ := ih hold hbit' (by simp; omega)
    refine ⟨u,?_,by rwa [append_assoc] at hold',hbit''⟩
    rw [foldlM_cons,ht]
    exact hu

lemma newDigitsFromHexCString_spec {str : List Char} {n : ℕ} (h : Denotes hexDigitToInt 16 str n)
    (hne : str ≠ []) (hlen : str.length < kMaxInt32) : ∃ digits used, newDigitsFromHexCString str =
      some (digits,used) ∧ used+used%2 ≤ digits.length ∧ digits.value used = n := by
  obtain ⟨ds,hds,rfl⟩ := h
  have hlength := hds.length_eq
  have hpos := length_pos_iff.mpr hne
  have hstart : (⟨newDigits ((str.length+kHexDigitsPerDigit-1)/kHexDigitsPerDigit),0,0,0⟩ :
      HexReader).Holds ((str.length+7)/8+1) [] :=
    ⟨length_new _,rfl,by norm_num,by norm_num,rfl⟩
  obtain ⟨s,hs,hold,hbit⟩ := foldlM_hexStep (forall₂_reverse_iff.mpr hds) hstart
    (by norm_num) (by simp; omega)
  rw [nil_append] at hold
  have hposition := hold.position
  rw [length_reverse,← hlength] at hposition
  unfold newDigitsFromHexCString
  rw [if_neg (by omega)]
  simp only [hs,some_bind]
  by_cases hzero : s.bitI = 0
  · refine ⟨s.digits,s.used,by rw [if_neg (not_not.mpr hzero)]; rfl,?_,?_⟩
    · rw [hold.length_eq]
      omega
    · have hdigit := hold.digit_lt
      have hval := hold.value_eq
      rw [hzero,pow_zero,lt_one_iff] at hdigit
      rwa [hdigit,zero_mul,add_zero,← number_reverse,reverse_reverse] at hval
  · obtain ⟨digits,hw,hl,hval⟩ := hold.store (by omega)
    refine ⟨digits,s.used+1,by rw [if_pos hzero,hw]; rfl,by omega,?_⟩
    rw [hval,← number_reverse,reverse_reverse]

end Hex

section Dec

lemma decDigitToInt_lt {c : Char} {d : ℕ} (h : decDigitToInt c = some d) : d < 10 := by
  unfold decDigitToInt at h
  split_ifs at h with hc
  simp only [isDecimalDigit_iff,Char.reduceToNat] at hc
  simp only [Char.reduceToNat,Option.some_inj] at h
  omega

lemma isDecimalDigit_of {c : Char} {d : ℕ} (h : decDigitToInt c = some d) :
    isDecimalDigit c = true ∧ '0'.toNat+d = c.toNat := by
  unfold decDigitToInt at h
  split_ifs at h with hc
  rw [Option.some_inj] at h
  have hle := ((isDecimalDigit_iff c).mp hc).1
  exact ⟨hc,by omega⟩

lemma digits_of_isText {str : List Char} {ds : List ℕ} (h : IsText decDigitToInt str ds) :
    ∀ d ∈ ds, d < 10 := by
  induction h with
  | nil => exact fun d hd => absurd hd not_mem_nil
  | cons hc _ ih => exact forall_mem_cons.mpr ⟨decDigitToInt_lt hc,ih⟩

lemma readDecDigits_spec {str rest : List Char} {ds : List ℕ} {digit : ℕ}
    (h : IsText decDigitToInt str ds) (hlt : digit*10^ds.length+number 10 ds < 2^32) :
    readDecDigits str.length (str ++ rest) digit = some (digit*10^ds.length+number 10 ds,rest) := by
  induction h generalizing digit with
  | nil => simp [readDecDigits]
  | @cons c d str ds hc _ ih =>
    obtain ⟨hdec,hval⟩ := isDecimalDigit_of hc
    have hlength : (d :: ds).length = ds.length+1 := length_cons
    rw [number_cons,hlength,pow_succ] at hlt ⊢
    have hsum : digit*(10^ds.length*10)+(d*10^ds.length+number 10 ds) =
        (digit*10+d)*10^ds.length+number 10 ds := by ring
    have hle : digit*10+d ≤ (digit*10+d)*10^ds.length :=
      Nat.le_mul_of_pos_right _ (by positivity)
    have hnext : (digit*10+c.toNat - '0'.toNat)%2^32 = digit*10+d := by
      rw [← hval,Nat.mod_eq_of_lt (by omega)]
      omega
    rw [hsum] at hlt ⊢
    rw [length_cons,cons_append,readDecDigits,if_pos hdec,hnext,ih hlt]

lemma Carry.mulTenStep {o r : Uint32List} {i c digit : ℕ}
    (h : Carry o i (o.value i*kTenMultiplier+digit : ℕ) ((c : ℤ),r)) (hc : c < kTenMultiplier)
    (hi : i < o.length) : ∃ t, Bigint.mulTenStep (c,r) i = some t ∧
      Carry o (i+1) (o.value (i+1)*kTenMultiplier+digit : ℕ) ((t.1 : ℤ),t.2) ∧ t.1 <
      kTenMultiplier := by
  have hk : kTenMultiplier = 1000000000 := rfl
  have hd := o.digit_lt i
  have hri : i < r.length := h.length.symm ▸ hi
  have hdig : r.digit i = o.digit i := h.rest i le_rfl
  have hquot : (o.digit i*kTenMultiplier+c)/2^32 < kTenMultiplier := by
    rw [hk] at hc ⊢
    omega
  have hcarry : (o.digit i*kTenMultiplier+c) >>> kBitsPerDigit%2^32 =
      (o.digit i*kTenMultiplier+c)/2^32 := by
    rw [shiftRight_eq_div_pow]
    exact mod_eq_of_lt (hquot.trans (by decide))
  obtain ⟨r',hr',hnext⟩ := h.step hi
    (l := ((o.digit i*kTenMultiplier+c)%2^32 : ℕ))
   
    (by push_cast; rw [Int.emod_emod_of_dvd _ dvd_rfl,add_comm]) (by push_cast; rw [add_comm])
  refine ⟨((o.digit i*kTenMultiplier+c)/2^32,r'),?_,hnext.congr ?_,hquot⟩
  · simp only [Bigint.mulTenStep,read_eq hri,hdig,some_bind,Int.toNat_natCast,hr',hcarry]
    rfl
  · rw [value_succ]
    push_cast
    ring

lemma mulTen_spec {o : Uint32List} {used digit : ℕ} (hused : used ≤ o.length)
    (hdigit : digit < kTenMultiplier) : ∃ c r, forUp 0 used (digit,o) mulTenStep = some (c,r) ∧
      c < kTenMultiplier ∧ r.length = o.length ∧ r.value used+c*digitBase^used =
      o.value used*kTenMultiplier+digit := by
  obtain ⟨⟨c,r⟩,hloop,hcarry,hc⟩ := forUp_total (s := (digit,o))
    (fun i s => Carry o i (o.value i*kTenMultiplier+digit : ℕ) ((s.1 : ℤ),s.2) ∧
      s.1 < kTenMultiplier) (zero_le used) ⟨⟨rfl,by simp [value],fun _ _ => rfl⟩,hdigit⟩
    fun i _ hi s hs => hs.1.mulTenStep hs.2 (by omega)
  have hsum := hcarry.sum
  refine ⟨c,r,hloop,hc,hcarry.length,?_⟩
  simp only at hsum
  exact_mod_cast hsum

section Groups
variable {str rest : List Char} {ds : List ℕ} {digits : Uint32List} {used : ℕ}

lemma readDecDigits_group (rest : List Char) (h : IsText decDigitToInt str ds)
    (hlen : str.length = kDecDigitsPerIteration) :
    readDecDigits kDecDigitsPerIteration (str ++ rest) 0 = some (number 10 ds,rest) ∧
      number 10 ds < kTenMultiplier := by
  have hlt := number_lt (by norm_num) (digits_of_isText h)
  rw [← h.length_eq,hlen] at hlt
  change _ < 1000000000 at hlt
  have hread : readDecDigits str.length (str ++ rest) 0 = _ := readDecDigits_spec h (by omega)
  rw [zero_mul,zero_add,hlen] at hread
  exact ⟨hread,hlt⟩

lemma readGroup_spec (rest : List Char) (h : IsText decDigitToInt str ds)
    (hlen : str.length = kDecDigitsPerIteration) (hused : used < digits.length) :
    ∃ r, readGroup (str ++ rest) digits used = some (rest,r) ∧ r.length = digits.length ∧
      r.value (used+1) = digits.value used*kTenMultiplier+number 10 ds := by
  have hk : kTenMultiplier = 1000000000 := rfl
  obtain ⟨hread,hlt⟩ := readDecDigits_group rest h hlen
  obtain ⟨c,r,hloop,hc,hlength,hval⟩ := mulTen_spec hused.le hlt
  obtain ⟨r',hw,hlength',hdig,hother⟩ :=
    r.write_digit_spec (hlength.symm ▸ hused) (by omega : c < 2^32)
  refine ⟨r',?_,hlength'.trans hlength,?_⟩
  · simp only [readGroup,hread,some_bind,hloop,hw]
    rfl
  · have hlow : r'.value used = r.value used :=
      Positional.value_congr fun k hk => hother k (by omega)
    rw [value_succ,hlow,hdig,hval]

lemma readGroup_full (h : IsText decDigitToInt str ds) (hlen : str.length = kDecDigitsPerIteration) :
    readGroup (str ++ rest) digits digits.length = none := by
  obtain ⟨hread,hlt⟩ := readDecDigits_group rest h hlen
  obtain ⟨c,r,hloop, -,hlength, -⟩ := mulTen_spec (le_refl digits.length) hlt
  have hw : r.write digits.length (c : ℤ) = none := if_neg (by omega)
  simp [readGroup,hread,hloop,hw,Option.bind_eq_bind,Option.bind_some,Option.bind_none]

end Groups

/-- A text that consists of whole groups is read exactly if there is a digit for each group. -/
lemma readGroups_spec {str : List Char} {ds : List ℕ} {digits : Uint32List} {used fuel : ℕ} (k : ℕ)
    (h : IsText decDigitToInt str ds) (hlen : str.length = kDecDigitsPerIteration*k)
    (hused : used ≤ digits.length) (hfuel : k < fuel) :
    (used+k ≤ digits.length → ∃ r, readGroups fuel str digits used = some (r,used+k) ∧
      r.length = digits.length ∧
      r.value (used+k) = digits.value used*10^ds.length+number 10 ds) ∧
    (digits.length < used+k → readGroups fuel str digits used = none) := by
  have hten : kDecDigitsPerIteration = 9 := rfl
  induction k generalizing str ds digits used fuel with
  | zero =>
    obtain ⟨fuel,rfl⟩ := Nat.exists_eq_add_of_lt hfuel
    have hnil : str = [] := eq_nil_of_length_eq_zero hlen
    subst hnil
    cases h
    refine ⟨fun _ => ⟨digits,if_neg (by norm_num),rfl,by simp⟩,fun hlt => by omega⟩
  | succ k ih =>
    obtain ⟨fuel,rfl⟩ := exists_fuel fuel
    rw [hten] at hlen
    have htake : (str.take 9).length = kDecDigitsPerIteration := by
      rw [length_take,hten]
      omega
    have hdrop : (str.drop 9).length = kDecDigitsPerIteration*k := by
      rw [length_drop,hten]
      omega
    have hgroup := forall₂_take 9 h
    have hrest := forall₂_drop 9 h
    have hnumber : number 10 ds =
        number 10 (ds.take 9)*10^(ds.drop 9).length+number 10 (ds.drop 9) := by
      rw [← number_append,take_append_drop]
    have hpow : 10^ds.length = kTenMultiplier*10^(ds.drop 9).length := by
      rw [length_drop,← h.length_eq,hlen,(by norm_num [kTenMultiplier] :
        kTenMultiplier = 10^9),← pow_add,Nat.add_sub_cancel' (by omega)]
    rw [readGroups,if_pos (by omega),← take_append_drop 9 str]
    rcases Nat.lt_or_ge used digits.length with hlt | hge
    · obtain ⟨r,hr,hlength,hval⟩ := readGroup_spec (str.drop 9) hgroup htake hlt
      obtain ⟨hok,hfail⟩ := ih hrest hdrop (hlength.symm ▸ hlt : used+1 ≤ r.length)
        (by omega : k < fuel)
      simp only [hr,some_bind]
      refine ⟨fun hle => ?_,fun hlt => hfail (by omega)⟩
      obtain ⟨r',hr',hlength',hval'⟩ := hok (by omega)
      refine ⟨r',?_,hlength'.trans hlength,?_⟩
      · rw [hr',add_assoc,add_comm 1 k]
      · rw [add_comm k 1,← add_assoc,hval',hval,hnumber,hpow]
        ring
    · obtain rfl : used = digits.length := by omega
      rw [readGroup_full hgroup htake]
      exact ⟨fun hle => by omega,fun _ => rfl⟩

/-- The decimal reader needs one digit, and one for each group of characters. -/
lemma newDigitsFromDecCString_spec {str : List Char} {n : ℕ} (h : Denotes decDigitToInt 10 str n)
    (hne : str ≠ []) (hlen : str.length < kMaxInt32) :
    (str.length/kDecDigitsPerIteration < decLength str.length+1 →
      ∃ digits, newDigitsFromDecCString str =
          some (digits,str.length/kDecDigitsPerIteration+1) ∧
        digits.length = decLength str.length+1 ∧
        digits.value (str.length/kDecDigitsPerIteration+1) = n) ∧
    (decLength str.length+1 ≤ str.length/kDecDigitsPerIteration →
      newDigitsFromDecCString str = none) := by
  obtain ⟨ds,hds,rfl⟩ := h
  have hten : kDecDigitsPerIteration = 9 := rfl
  have hpos := length_pos_iff.mpr hne
  have hfirst := forall₂_take (str.length%9) hds
  have hrest := forall₂_drop (str.length%9) hds
  have htake : (str.take (str.length%9)).length = str.length%9 := by
    rw [length_take]
    omega
  have hdrop : (str.drop (str.length%9)).length =
      kDecDigitsPerIteration*(str.length/kDecDigitsPerIteration) := by
    rw [length_drop,hten]
    omega
  have hlt : number 10 (ds.take (str.length%9)) < 2^32 :=
    calc number 10 (ds.take (str.length%9)) < 10^(ds.take (str.length%9)).length :=
          number_lt (by norm_num) (digits_of_isText hfirst)
      _ ≤ 10^8 := Nat.pow_le_pow_right (by norm_num) (by rw [← hfirst.length_eq]; omega)
      _ < 2^32 := by norm_num
  have hread : readDecDigits (str.take (str.length%9)).length
      (str.take (str.length%9) ++ str.drop (str.length%9)) 0 = _ :=
    readDecDigits_spec hfirst (by rwa [Nat.zero_mul,Nat.zero_add])
  rw [htake,take_append_drop,Nat.zero_mul,Nat.zero_add] at hread
  have hnew : (newDigits (decLength str.length)).length = decLength str.length+1 :=
    length_new _
  obtain ⟨digits,hw,hlength,hdig, -⟩ := (newDigits (decLength str.length)).write_digit_spec
    (by omega : 0 < (newDigits (decLength str.length)).length) hlt
  rw [hnew] at hlength
  have hval : digits.value 1 = number 10 (ds.take (str.length%9)) := by
    rw [← hdig]
    exact Positional.value_one
  obtain ⟨hok,hfail⟩ := readGroups_spec (str.length/kDecDigitsPerIteration) hrest hdrop
    (by omega : 1 ≤ digits.length) (lt_succ_of_le (div_le_self str.length _))
  have heq : newDigitsFromDecCString str =
      readGroups (str.length+1) (str.drop (str.length%9)) digits 1 := by
    unfold newDigitsFromDecCString
    rw [if_neg (by omega)]
    simp [hten,hread,hw,some_bind]
  refine ⟨fun hle => ?_,fun hlt => by rw [heq,hfail (by omega)]⟩
  obtain ⟨r,hr,hrlength,hrval⟩ := hok (by omega)
  refine ⟨r,by rw [heq,hr,add_comm],hrlength.trans hlength,?_⟩
  rw [add_comm,hrval,hval,← number_append,take_append_drop]

end Dec

end DartSdk.Bigint
