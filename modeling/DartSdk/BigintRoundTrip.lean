import DartSdk.BigintPrintingHex

/-! Reading is the inverse of writing as long as the lengths and the estimate of the number of
digits fit. -/
namespace DartSdk.Bigint

open Iteration Utils Numeral List

lemma isText_map {digitOf : Char → Option ℕ} {b : ℕ}
    (h : ∀ d < b, digitOf (intToHexDigit d) = some d) {ds : List ℕ} (hds : ∀ d ∈ ds, d < b) :
    IsText digitOf (ds.map intToHexDigit) ds := by
  induction ds with
  | nil => exact List.Forall₂.nil
  | cons d ds ih =>
    rw [forall_mem_cons] at hds
    exact List.Forall₂.cons (h d hds.1) (ih hds.2)

lemma decDigitToInt_intToHexDigit : ∀ d < 10, decDigitToInt (intToHexDigit d) = some d := by
  decide

/-- Leading zeros do not change what a numeral denotes. -/
lemma denotes_numeral {digitOf : Char → Option ℕ} {b : ℕ} (hb : 1 < b)
    (h : ∀ d < b, digitOf (intToHexDigit d) = some d) (k n : ℕ) :
    Denotes digitOf b (replicate k '0' ++ numeral b n) n := by
  refine ⟨replicate k 0 ++ Numeral.digits b n,?_,?_⟩
  · have hzeros : replicate k '0' = (replicate k 0).map intToHexDigit := by
      rw [map_replicate]
      rfl
    rw [hzeros,numeral,← map_append]
    refine isText_map h (forall_mem_append.mpr ⟨fun d hd => ?_,digits_lt hb⟩)
    rw [eq_of_mem_replicate hd]
    omega
  · rw [number_append,number_zeros,Nat.zero_mul,Nat.zero_add,number_digits]

section Sign
variable {text : List Char}

lemma newFromCString_sign (neg : Bool) (h : text.head? ≠ some '-') :
    newFromCString (sign neg ++ text) =
      (newDigitsFromCString text).bind fun r => new neg r.2 r.1 := by
  cases neg with
  | false =>
    rw [sign,if_neg (by decide),nil_append]
    unfold newFromCString
    split
    · exact absurd rfl h
    · exact absurd rfl h
    · rfl
  | true =>
    rw [sign,if_pos rfl,singleton_append]
    unfold newFromCString
    split
    · rename_i heq
      rw [(cons.inj heq).2] at h
      exact absurd rfl h
    · rename_i heq
      rw [(cons.inj heq).2]
      rfl
    · rename_i hne
      exact absurd rfl (hne text)

lemma newDigitsFromCString_dec (h : ∀ c ∈ text, isDecimalDigit c = true) :
    newDigitsFromCString text = newDigitsFromDecCString text := by
  unfold newDigitsFromCString
  split
  · exact absurd (h 'x' (by simp)) (by decide)
  · exact absurd (h 'X' (by simp)) (by decide)
  · rfl

lemma isDecimalDigit_numeral {n : ℕ} : ∀ c ∈ numeral 10 n, isDecimalDigit c = true := by
  intro c hc
  obtain ⟨d,hd,rfl⟩ := mem_map.mp hc
  exact isDecimalDigit_intToHexDigit d (digits_lt (by norm_num) d hd)

lemma numeral_ne_nil {b n : ℕ} : numeral b n ≠ [] := by
  rw [numeral,Ne,map_eq_nil_iff]
  exact digits_ne_nil

lemma head_ne_minus (h : ∀ c ∈ text, isDecimalDigit c = true) : text.head? ≠ some '-' := by
  intro hhead
  exact absurd (h '-' (mem_of_mem_head? hhead)) (by decide)

end Sign

/-- The decimal reader has a digit for each group of characters. -/
def ReadFits (length : ℕ) : Prop :=
  length < kMaxInt32 ∧ length/kDecDigitsPerIteration < decLength length+1

/-- There is also a digit for the leading zero that follows an odd number of digits. -/
def NewFits (length : ℕ) : Prop :=
  length < kMaxInt32 ∧ length/kDecDigitsPerIteration+1 +
    (length/kDecDigitsPerIteration+1)%2 ≤ decLength length+1

section Exact
variable {str : List Char} {n : ℕ}

lemma newDigitsFromDecCString_overflow (h : Denotes decDigitToInt 10 str n) (hne : str ≠ [])
    (hfits : ¬ ReadFits str.length) : newDigitsFromDecCString str = none := by
  by_cases hlen : str.length < kMaxInt32
  · exact (newDigitsFromDecCString_spec h hne hlen).2 (not_lt.mp fun hlt => hfits ⟨hlen,hlt⟩)
  · rw [newDigitsFromDecCString,if_pos (.inr (not_lt.mp hlen))]

lemma newDigitsFromDecCString_iff (h : Denotes decDigitToInt 10 str n) (hne : str ≠ []) :
    (∃ digits used, newDigitsFromDecCString str = some (digits,used) ∧ used ≤ digits.length ∧
      digits.value used = n) ↔ ReadFits str.length := by
  constructor
  · rintro ⟨digits,used,hread, -⟩
    by_contra hfits
    rw [newDigitsFromDecCString_overflow h hne hfits] at hread
    cases hread
  · rintro ⟨hlen,hlt⟩
    obtain ⟨digits,hread,hlength,hvalue⟩ := (newDigitsFromDecCString_spec h hne hlen).1 hlt
    exact ⟨digits,_,hread,by omega,hvalue⟩

lemma newDigitsFromHexCString_iff (h : Denotes hexDigitToInt 16 str n) (hne : str ≠ []) :
    (∃ digits used, newDigitsFromHexCString str = some (digits,used) ∧ used ≤ digits.length ∧
      digits.value used = n) ↔ str.length < kMaxInt32 := by
  constructor
  · rintro ⟨digits,used,hread, -⟩
    by_contra hlen
    rw [newDigitsFromHexCString,if_pos (.inr (not_lt.mp hlen))] at hread
    cases hread
  · intro hlen
    obtain ⟨digits,used,hread,hlength,hvalue⟩ := newDigitsFromHexCString_spec h hne hlen
    exact ⟨digits,used,hread,by omega,hvalue⟩

lemma withSign_magnitude (x : Bigint) : withSign x.neg x.magnitude = x.toInt := rfl

lemma newFromCString_decText (x : Bigint) :
    (∃ y, newFromCString (decText x.toInt) = some y ∧ y.toInt = x.toInt) ↔
      NewFits (numeral 10 x.magnitude).length := by
  have hden : Denotes decDigitToInt 10 (numeral 10 x.magnitude) x.magnitude :=
    denotes_numeral (by norm_num) decDigitToInt_intToHexDigit 0 x.magnitude
  rw [decText_toInt,newFromCString_sign x.neg (head_ne_minus isDecimalDigit_numeral),
    newDigitsFromCString_dec isDecimalDigit_numeral]
  by_cases hfits : ReadFits (numeral 10 x.magnitude).length
  · obtain ⟨digits,hread,hlength,hvalue⟩ :=
      (newDigitsFromDecCString_spec hden numeral_ne_nil hfits.1).1 hfits.2
    rw [hread,Option.bind_some]
    constructor
    · rintro ⟨y,hnew, -⟩
      refine ⟨hfits.1,?_⟩
      by_contra hlen
      rw [new,dif_neg (by rw [hlength]; exact hlen)] at hnew
      cases hnew
    · rintro ⟨-,hle⟩
      obtain ⟨y,hy, -,hint⟩ := new_spec x.neg _ digits (by rw [hlength]; exact hle)
      exact ⟨y,hy,by rw [hint,hvalue,withSign_magnitude]⟩
  · constructor
    · rintro ⟨y,hnew, -⟩
      rw [newDigitsFromDecCString_overflow hden numeral_ne_nil hfits] at hnew
      cases hnew
    · rintro ⟨hlen,hle⟩
      exact absurd ⟨hlen,by omega⟩ hfits

lemma newFromCString_hexText {a : Arch} {x : Bigint} (h : HexFits a x) :
    ∃ y, newFromCString (hexText x.toInt) = some y ∧ y.toInt = x.toInt := by
  have hden : Denotes hexDigitToInt 16 (numeral 16 x.magnitude) x.magnitude :=
    denotes_numeral (by norm_num) hexDigitToInt_intToHexDigit 0 x.magnitude
  have hlen : (numeral 16 x.magnitude).length < kMaxInt32 := by
    have hlength := h.1
    rw [hexText_toInt,length_append,length_cons,length_cons] at hlength
    unfold kMaxInt32
    omega
  obtain ⟨digits,used,hread,hpaired,hvalue⟩ :=
    newDigitsFromHexCString_spec hden numeral_ne_nil hlen
  obtain ⟨y,hy, -,hint⟩ := new_spec x.neg used digits hpaired
  refine ⟨y,?_,by rw [hint,hvalue,withSign_magnitude]⟩
  rw [hexText_toInt,newFromCString_sign x.neg (by simp),newDigitsFromCString,hread,Option.bind_some,hy]

variable (a : Arch)

lemma toDecCString_iff (x : Bigint) : toDecCString a x = some (decText x.toInt) ↔ DecFits a x := by
  refine ⟨fun htext => ?_,toDecCString_spec x⟩
  by_contra h
  rw [toDecCString_overflow x h] at htext
  cases htext

lemma toHexCString_iff (x : Bigint) : toHexCString a x = some (hexText x.toInt) ↔ HexFits a x := by
  refine ⟨fun htext => ?_,toHexCString_spec⟩
  by_contra h
  rw [toHexCString_overflow h] at htext
  cases htext

lemma decText_round_trip (x : Bigint) :
    (∃ y, (toDecCString a x).bind newFromCString = some y ∧ y.toInt = x.toInt) ↔
      DecFits a x ∧ NewFits (numeral 10 x.magnitude).length := by
  rw [← newFromCString_decText]
  by_cases h : DecFits a x
  · rw [toDecCString_spec x h,Option.bind_some]
    exact (and_iff_right h).symm
  · rw [toDecCString_overflow x h]
    refine iff_of_false ?_ fun hand => h hand.1
    rintro ⟨y,hy, -⟩
    cases hy

lemma hexText_round_trip (x : Bigint) :
    (∃ y, (toHexCString a x).bind newFromCString = some y ∧ y.toInt = x.toInt) ↔ HexFits a x := by
  constructor
  · rintro ⟨y,hy, -⟩
    by_contra h
    rw [toHexCString_overflow h] at hy
    cases hy
  · intro h
    rw [toHexCString_spec h,Option.bind_some]
    exact newFromCString_hexText h

/-- Reading a numeral with any number of leading zeros gives its number, writing gives the canonical
text, and reading what was written gives the integer back, each exactly for the lengths that fit. -/
theorem conversion_exact_iff (a : Arch) :
    (∀ (str : List Char) (n : ℕ), str ≠ [] → Denotes hexDigitToInt 16 str n →
      ((∃ digits used, newDigitsFromHexCString str = some (digits,used) ∧ used ≤ digits.length ∧
        digits.value used = n) ↔ str.length < kMaxInt32)) ∧
    (∀ (str : List Char) (n : ℕ), str ≠ [] → Denotes decDigitToInt 10 str n →
      ((∃ digits used, newDigitsFromDecCString str = some (digits,used) ∧ used ≤ digits.length ∧
        digits.value used = n) ↔ ReadFits str.length)) ∧
    ∀ x : Bigint,
      (toDecCString a x = some (decText x.toInt) ↔ DecFits a x) ∧
      (toHexCString a x = some (hexText x.toInt) ↔ HexFits a x) ∧
      ((∃ y, (toDecCString a x).bind newFromCString = some y ∧ y.toInt = x.toInt) ↔
        DecFits a x ∧ NewFits (numeral 10 x.magnitude).length) ∧
      ((∃ y, (toHexCString a x).bind newFromCString = some y ∧ y.toInt = x.toInt) ↔ HexFits a x) :=
  ⟨fun _ _ hne h => newDigitsFromHexCString_iff h hne,
    fun _ _ hne h => newDigitsFromDecCString_iff h hne,
    fun x => ⟨toDecCString_iff a x,toHexCString_iff a x,decText_round_trip a x,hexText_round_trip a x⟩⟩

/-- A decimal text with 693 characters, for which the array has 77 digits and 78 are written. -/
theorem newDigitsFromDecCString_long :
    Denotes decDigitToInt 10 ('1' :: List.replicate 692 '0') (10^692) ∧
      newDigitsFromDecCString ('1' :: List.replicate 692 '0') = none := by
  have hlength : ('1' :: List.replicate 692 '0').length = 693 := by
    rw [List.length_cons,List.length_replicate]
  have hden : Denotes decDigitToInt 10 ('1' :: List.replicate 692 '0') (10^692) := by
    refine ⟨1 :: List.replicate 692 0,?_,?_⟩
    · have htext : '1' :: List.replicate 692 '0' = (1 :: List.replicate 692 0).map intToHexDigit := by
        rw [List.map_cons,List.map_replicate]
        rfl
      rw [htext]
      refine isText_map decDigitToInt_intToHexDigit (List.forall_mem_cons.mpr ⟨by norm_num,?_⟩)
      intro d hd
      rw [List.eq_of_mem_replicate hd]
      norm_num
    · rw [number_cons,number_zeros,List.length_replicate,Nat.one_mul,Nat.add_zero]
  refine ⟨hden,newDigitsFromDecCString_overflow hden (List.cons_ne_nil _ _) ?_⟩
  rw [hlength]
  rintro ⟨-,hlt⟩
  exact absurd hlt (by decide)

end Exact

end DartSdk.Bigint
