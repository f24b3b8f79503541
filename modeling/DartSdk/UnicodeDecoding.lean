import DartSdk.UnicodeExact
import DartSdk.Iteration

/-! Every array is the encoding of some characters followed by a rest at which no sequence can be
read. Each pass is an induction over these characters. -/
namespace DartSdk.Unicode

open Utils String List Nat Utf16

def utf16 (c : Char) : List UInt16 :=
  if c.toNat > Utf16.kMaxCodeUnit then
    [UInt16.ofNat (Utf16.kLeadSurrogateOffset+c.toNat >>> 10),
      UInt16.ofNat (0xDC00+(c.toNat &&& 0x3FF))]
  else [UInt16.ofNat c.toNat]

section CodeUnits

lemma toNat_unit_of_lt {x : ℕ} (h : x < 0x10000) : (UInt16.ofNat x).toNat = x := by
  rw [UInt16.toNat_ofNat',mod_eq_of_lt h]

lemma codePoints_cons {ch : UInt16} (units : List UInt16) (h : isLeadSurrogate ch.toNat = false) :
    codePoints (ch :: units) = ch.toNat :: codePoints units := by
  cases units with
  | nil => rfl
  | cons ch2 units => simp [codePoints,h,Bool.false_and,Bool.false_eq_true]

lemma codePoints_utf16 (cs : List Char) : codePoints (cs.flatMap utf16) = cs.map Char.toNat := by
  induction cs with
  | nil => rfl
  | cons c cs ih =>
    obtain ⟨hmax,hsur⟩ := Utf8.char_valid c
    rw [flatMap_cons,map_cons,← ih,utf16]
    by_cases hc : c.toNat > kMaxCodeUnit
    · have hoff : kLeadSurrogateOffset = 0xD7C0 := rfl
      have hlow : ∀ x : ℕ, x &&& 0x3FF = x%2^10 := fun x => and_two_pow_sub_one_eq_mod x 10
      have hk : kMaxCodeUnit = 0xFFFF := rfl
      have hhigh : c.toNat >>> 10 = c.toNat/2^10 := shiftRight_eq_div_pow _ _
      have hlead := toNat_unit_of_lt (by omega : 0xD7C0+c.toNat/2^10 < 0x10000)
      have htrail := toNat_unit_of_lt (by omega : 0xDC00+c.toNat%2^10 < 0x10000)
      have hpair : (isLeadSurrogate (0xD7C0+c.toNat/2^10) &&
          isTrailSurrogate (0xDC00+c.toNat%2^10)) = true := by
        rw [Bool.and_eq_true,isLeadSurrogate_iff (by omega),isTrailSurrogate_iff (by omega)]
        omega
      have hdecode : decode (0xD7C0+c.toNat/2^10) (0xDC00+c.toNat%2^10) =
          c.toNat := by
        rw [decode,hlow,hlow,shiftLeft_eq]
        omega
      rw [if_pos hc,hoff,hlow,hhigh,cons_append,singleton_append,codePoints,
        hlead,htrail,if_pos hpair,hdecode]
    · have hunit := toNat_unit_of_lt (lt_succ_of_le (not_lt.mp hc))
      have hlead : isLeadSurrogate (UInt16.ofNat c.toNat).toNat = false := by
        rw [hunit,Bool.eq_false_iff,Ne,isLeadSurrogate_iff (by omega)]
        omega
      rw [if_neg hc,singleton_append,codePoints_cons _ hlead,hunit]

end CodeUnits

namespace Utf8

section Encode
variable (c : Char)

lemma trailByte_eq (ch : ℕ) : trailByte ch = UInt8.ofNat (ch%0x40+0x80) := by
  have hlow : ∀ x < 2^8, (0x80 ||| x.ldiff (1 <<< 6))%2^8 = x%0x40+0x80 := by
    decide +kernel
  have hmod : (0x80 ||| ch.ldiff (1 <<< 6))%2^8 = (0x80 ||| (ch%2^8).ldiff (1 <<< 6))%2^8 := by
    refine eq_of_testBit_eq fun i => ?_
    simp only [testBit_mod_two_pow,testBit_lor,testBit_ldiff]
    by_cases h : i < 8 <;> simp [h]
  rw [← UInt8.toNat_inj,trailByte,UInt8.toNat_ofNat',hmod,hlow _ (mod_lt _ (by norm_num)),
    toNat_ofNat_of_lt (by omega)]
  omega

lemma encode_char : encode c.toNat = some (utf8EncodeChar c) := by
  have hor2 : ∀ x < 0x20, 0xC0 ||| x = x%0x20+0xC0 := by decide
  have hor3 : ∀ x < 0x10, 0xE0 ||| x = x%0x10+0xE0 := by decide
  have hor4 : ∀ x < 8, 0xF0 ||| x = x%8+0xF0 := by decide
  have h1 : kMaxOneByteChar = 0x7F := rfl
  have h2 : kMaxTwoByteChar = 0x7FF := rfl
  have h3 : kMaxThreeByteChar = 0xFFFF := rfl
  have h4 : kMaxFourByteChar = 0x10FFFF := rfl
  obtain ⟨h,he⟩ | ⟨h,he⟩ | ⟨h,he⟩ | ⟨h,he⟩ := encodeChar_cases c
  · rw [he,encode,if_pos (by omega)]
  · rw [he,encode,if_neg (by omega),if_pos (by omega)]
    simp [trailByte_eq,shiftRight_eq_div_pow,hor2 _ (by omega : c.toNat/64 < 0x20)]
  · rw [he,encode,if_neg (by omega),if_neg (by omega),if_pos (by omega)]
    simp [trailByte_eq,shiftRight_eq_div_pow,hor3 _ (by omega : c.toNat/4096 < 0x10)]
  · rw [he,encode,if_neg (by omega),if_neg (by omega),if_neg (by omega),if_pos (by omega)]
    simp [trailByte_eq,shiftRight_eq_div_pow,hor4 _ (by omega : c.toNat/262144 < 8)]

end Encode

section Count

variable (b : UInt8)

/-- The number of code units that a byte counts for. -/
def codeUnits : ℕ := (countStep (0,.latin1) b).1

variable (s : ℕ × Kind)

lemma countStep_fst (b : UInt8) : (countStep s b).1 = s.1+codeUnits b := by
  unfold codeUnits countStep
  split_ifs <;> rfl

variable (bytes : List UInt8)

lemma foldl_countStep_fst : (bytes.foldl countStep s).1 = s.1+(bytes.map codeUnits).sum := by
  induction bytes generalizing s with
  | nil => rfl
  | cons b bytes ih =>
    rw [foldl_cons,ih,countStep_fst,map_cons,sum_cons,add_assoc]

lemma codeUnitCount_fst : (codeUnitCount bytes).1 = (bytes.map codeUnits).sum := by
  rw [codeUnitCount,foldl_countStep_fst,zero_add]

lemma isSupplementarySequenceStart_iff :
    isSupplementarySequenceStart b = true ↔ 0xF0 ≤ b.toNat := by
  rw [isSupplementarySequenceStart,decide_eq_true_iff,ge_iff_le,UInt8.le_iff_toNat_le]
  rfl

lemma isLatin1SequenceStart_iff : isLatin1SequenceStart b = true ↔ b.toNat ≤ 0xC3 := by
  rw [isLatin1SequenceStart,decide_eq_true_iff,UInt8.le_iff_toNat_le]
  rfl

lemma codeUnits_eq : codeUnits b =
    if b.toNat < 0x80 then 1 else if b.toNat < 0xC0 then 0 else if b.toNat < 0xF0 then 1 else 2 := by
  simp only [codeUnits,countStep,isTrailByte_iff,isLatin1SequenceStart_iff,
    isSupplementarySequenceStart_iff]
  split_ifs <;> first | rfl | omega

lemma codeUnits_trail (x : ℕ) : codeUnits (UInt8.ofNat (x%0x40+0x80)) = 0 := by
  rw [codeUnits_eq,toNat_ofNat_of_lt (by omega),if_neg (by omega),if_pos (by omega)]

lemma codeUnits_lead {x : ℕ} (h : 0xC0 ≤ x ∧ x < 0xF0) : codeUnits (UInt8.ofNat x) = 1 := by
  rw [codeUnits_eq,toNat_ofNat_of_lt (by omega),if_neg (by omega),if_neg (by omega),
    if_pos (by omega)]

lemma sum_codeUnits_char (c : Char) :
    ((utf8EncodeChar c).map codeUnits).sum = (utf16 c).length := by
  have hk : kMaxCodeUnit = 0xFFFF := rfl
  obtain ⟨h,he⟩ | ⟨h,he⟩ | ⟨h,he⟩ | ⟨h,he⟩ := encodeChar_cases c <;>
    simp only [he,map_cons,codeUnits_trail,utf16]
  · rw [codeUnits_eq,toNat_ofNat_of_lt (by omega),if_pos (by omega),if_neg (by omega)]
    rfl
  · rw [codeUnits_lead (by omega),if_neg (by omega)]
    rfl
  · rw [codeUnits_lead (by omega),if_neg (by omega)]
    rfl
  · rw [codeUnits_eq,toNat_ofNat_of_lt (by omega),if_neg (by omega),if_neg (by omega),
      if_neg (by omega),if_pos (by omega)]
    rfl

lemma sum_codeUnits_chars (cs : List Char) :
    ((cs.flatMap utf8EncodeChar).map codeUnits).sum = (cs.flatMap utf16).length := by
  induction cs with
  | nil => rfl
  | cons c cs ih =>
    rw [List.flatMap_cons,List.flatMap_cons,List.map_append,List.sum_append,List.length_append,
      sum_codeUnits_char,ih]

lemma countStep_snd_of_ne {s : ℕ × Kind} (b : UInt8) (h : s.2 ≠ .latin1) :
    (countStep s b).2 ≠ .latin1 := by
  unfold countStep
  split_ifs <;> first | exact h | exact Kind.noConfusion

lemma foldl_countStep_snd_of_ne {s : ℕ × Kind} (h : s.2 ≠ .latin1) :
    (bytes.foldl countStep s).2 ≠ .latin1 := by
  induction bytes generalizing s with
  | nil => exact h
  | cons b bytes ih => exact ih (countStep_snd_of_ne b h)

lemma isTrailByte_le : isTrailByte b = true → isLatin1SequenceStart b = true := by
  rw [isTrailByte_iff,isLatin1SequenceStart_iff]
  omega

lemma countStep_snd_of_not_latin1 {b : UInt8} (h : isLatin1SequenceStart b ≠ true) :
    (countStep s b).2 ≠ .latin1 := by
  unfold countStep
  rw [if_neg (mt (isTrailByte_le b) h),if_neg h]
  split_ifs with hsup hkind
  · exact Kind.noConfusion
  · exact Kind.noConfusion
  · exact hkind

lemma latin1_le {bytes : List UInt8} {s : ℕ × Kind}
    (h : (bytes.foldl countStep s).2 = .latin1) : ∀ b ∈ bytes, isLatin1SequenceStart b = true := by
  induction bytes generalizing s with
  | nil => exact fun b hb => absurd hb not_mem_nil
  | cons b bytes ih =>
    refine forall_mem_cons.mpr ⟨?_,ih h⟩
    by_contra hb
    exact foldl_countStep_snd_of_ne bytes (countStep_snd_of_not_latin1 s hb) h

end Count

section Split
variable (a : Arch)

/-- No sequence can be read at the start of an array. -/
def Stuck : List UInt8 → Prop
  | [] => True
  | first :: rest => sequence a first rest = none

lemma exists_split (bytes : List UInt8) : ∃ (cs : List Char) (tail : List UInt8), bytes =
      cs.flatMap utf8EncodeChar ++ tail ∧ Stuck a tail := by
  induction hn : bytes.length using Nat.strong_induction_on generalizing bytes with
  | _ n ih =>
    cases bytes with
    | nil => exact ⟨[],[],rfl,trivial⟩
    | cons first rest =>
      cases hseq : sequence a first rest with
      | none => exact ⟨[],first :: rest,rfl,hseq⟩
      | some r =>
        obtain ⟨c,tail,he, -⟩ := sequence_inv a hseq
        have hpos := length_utf8EncodeChar c ▸ c.utf8Size_pos
        obtain ⟨cs,tail',rfl,hstuck⟩ := ih tail.length
          (by rw [← hn,he,List.length_append]; omega) tail rfl
        exact ⟨c :: cs,tail',by rw [he,List.flatMap_cons,List.append_assoc],hstuck⟩

variable {tail : List UInt8} (htail : Stuck a tail)
include htail

lemma isValidLoop_split (cs : List Char) {fuel : ℕ}
    (hfuel : (cs.flatMap utf8EncodeChar ++ tail).length ≤ fuel) :
    isValidLoop a fuel (cs.flatMap utf8EncodeChar ++ tail) = some tail.isEmpty := by
  induction cs generalizing fuel with
  | nil =>
    cases tail with
    | nil => cases fuel <;> rfl
    | cons first rest =>
      obtain ⟨fuel,rfl⟩ := exists_fuel fuel (Nat.zero_lt_of_lt hfuel)
      change sequence a first rest = none at htail
      simp [flatMap_nil,nil_append,isValidLoop,htail,isEmpty_cons]
  | cons c cs ih =>
    rw [List.flatMap_cons,List.append_assoc] at hfuel ⊢
    obtain ⟨first,rest,he,hseq⟩ :=
      sequence_encodeChar a c (cs.flatMap utf8EncodeChar ++ tail)
    have hpos := length_utf8EncodeChar c ▸ c.utf8Size_pos
    rw [List.length_append] at hfuel
    obtain ⟨fuel,rfl⟩ := exists_fuel fuel
    rw [he]
    simp only [isValidLoop,hseq]
    rw [← he,drop_left,ih (by omega)]

end Split

section Overwrite
variable {α : Type} {dst : List α} {j : ℕ}

/-- A destination after `xs` are written at index `j`. -/
def overwrite (dst : List α) (j : ℕ) (xs : List α) : List α :=
  dst.take j ++ xs ++ dst.drop (j+xs.length)

lemma overwrite_nil : overwrite dst j [] = dst := by
  simp [overwrite]

lemma write_eq (h : j < dst.length) (x : α) : write dst j x = some (overwrite dst j [x]) := by
  rw [write,if_pos h,overwrite,List.set_eq_take_append_cons_drop,if_pos h,List.append_assoc]
  rfl

lemma length_overwrite {xs : List α} (h : j+xs.length ≤ dst.length) :
    (overwrite dst j xs).length = dst.length := by
  simp only [overwrite,List.length_append,List.length_take,List.length_drop]
  omega

lemma overwrite_overwrite {xs ys : List α} (h : j+xs.length ≤ dst.length) :
    overwrite (overwrite dst j xs) (j+xs.length) ys = overwrite dst j (xs ++ ys) := by
  have hlen : (dst.take j ++ xs).length = j+xs.length := by
    rw [List.length_append,List.length_take,min_eq_left (by omega)]
  rw [overwrite,overwrite,List.take_left' hlen,overwrite,List.length_append,← add_assoc,
    ← List.drop_drop,List.drop_left' hlen,List.drop_drop,List.append_assoc (dst.take j)]

end Overwrite

section Decode
variable (a : Arch)

/-- The first byte of a character tells whether it needs two code units and whether it is one of
Latin-1. -/
lemma first_char {c : Char} {first : UInt8} {rest tail : List UInt8}
    (he : utf8EncodeChar c ++ tail = first :: rest) :
    (0xF0 ≤ first.toNat ↔ 0xFFFF < c.toNat) ∧ (first.toNat ≤ 0xC3 ↔ c.toNat ≤ 0xFF) := by
  obtain ⟨h,hc⟩ | ⟨h,hc⟩ | ⟨h,hc⟩ | ⟨h,hc⟩ := encodeChar_cases c <;>
    rw [hc,cons_append,cons.injEq] at he <;>
    rw [← he.1,toNat_ofNat_of_lt] <;> omega

lemma decode_char (c : Char) (tail : List UInt8) : ∃ first rest,
    utf8EncodeChar c ++ tail = first :: rest ∧
      decode a (first :: rest) = some ((c.toNat : ℤ),(utf8EncodeChar c).length) := by
  obtain ⟨first,rest,he,hseq⟩ := sequence_encodeChar a c tail
  refine ⟨first,rest,he,?_⟩
  simp [decode,hseq]

lemma encodeUTF16_char {c : Char} {j : ℕ} {dst : List UInt16} (hc : c.toNat > kMaxCodeUnit)
    (hj : j+1 < dst.length) : encodeUTF16 c.toNat j dst = some (overwrite dst j (utf16 c)) := by
  have h1 : j+[UInt16.ofNat (kLeadSurrogateOffset+c.toNat >>> 10)].length ≤ dst.length := by
    rw [List.length_singleton]
    omega
  rw [encodeUTF16,if_pos hc,write_eq (by omega),some_bind,
    write_eq (by rw [length_overwrite h1]; exact hj),utf16,if_pos hc]
  exact congrArg some (overwrite_overwrite h1)

lemma decodeToUTF16Loop_char {len fuel j : ℕ} {c : Char} {rest : List UInt8} {dst : List UInt16}
    (hj : j+(utf16 c).length ≤ len) (hlen : len ≤ dst.length) :
    decodeToUTF16Loop a len (fuel+1) (utf8EncodeChar c ++ rest) j dst =
      decodeToUTF16Loop a len fuel rest (j+(utf16 c).length) (overwrite dst j (utf16 c)) := by
  have hk : kMaxCodeUnit = 0xFFFF := rfl
  obtain ⟨first,tail,he,hdec⟩ := decode_char a c rest
  have hfirst := (isSupplementarySequenceStart_iff first).trans (first_char he).1
  have hdrop : (first :: tail).drop (utf8EncodeChar c).length = rest := by
    rw [← he,drop_left]
  have hneg : (c.toNat : ℤ) ≠ -1 := by omega
  rw [he,decodeToUTF16Loop]
  by_cases hc : c.toNat > kMaxCodeUnit
  · have hunits : (utf16 c).length = 2 := by rw [utf16,if_pos hc]; rfl
    rw [hunits] at hj ⊢
    rw [if_pos (by omega),hdec]
    simp only [some_bind,if_neg hneg,hfirst.mpr (hk ▸ hc),if_true,
      Int.toNat_natCast,encodeUTF16_char hc (by omega : j+1 < dst.length),hdrop]
  · have hunits : utf16 c = [UInt16.ofNat c.toNat] := by rw [utf16,if_neg hc]
    rw [hunits,List.length_singleton] at hj ⊢
    rw [if_pos (by omega),hdec]
    simp only [some_bind,if_neg hneg,mt hfirst.mp (hk ▸ hc),
      Bool.false_eq_true,if_false,Int.toNat_natCast,write_eq (by omega : j < dst.length),hdrop]

lemma decodeToLatin1Loop_char {len fuel j : ℕ} {c : Char} {rest dst : List UInt8}
    (hc : c.toNat ≤ 0xFF) (hj : j < len) (hlen : len ≤ dst.length) :
    decodeToLatin1Loop a len (fuel+1) (utf8EncodeChar c ++ rest) j dst =
      decodeToLatin1Loop a len fuel rest (j+1) (overwrite dst j [UInt8.ofNat c.toNat]) := by
  obtain ⟨first,tail,he,hdec⟩ := decode_char a c rest
  have hfirst := (isLatin1SequenceStart_iff first).trans (first_char he).2
  have hdrop : (first :: tail).drop (utf8EncodeChar c).length = rest := by
    rw [← he,drop_left]
  have hneg : (c.toNat : ℤ) ≠ -1 := by omega
  have hlatin1 : Utf.isLatin1 (c.toNat : ℤ) = true := by
    simp only [Utf.isLatin1,Bool.and_eq_true,decide_eq_true_iff]
    omega
  rw [he,decodeToLatin1Loop,if_pos hj]
  simp only [hfirst.mpr hc,if_true,hdec,some_bind,if_neg hneg,
    hlatin1,Int.toNat_natCast,write_eq (by omega : j < dst.length),hdrop]

variable {tail : List UInt8} (htail : Stuck a tail) {len : ℕ}
include htail

lemma decode_stuck {first : UInt8} {rest : List UInt8} (he : tail = first :: rest) :
    decode a (first :: rest) = some (-1,0) := by
  subst he
  change sequence a first rest = none at htail
  simp [decode,htail]

lemma decodeToUTF16Loop_stuck {fuel j : ℕ} {dst : List UInt16} (hj : j ≤ len)
    (hfuel : tail.length ≤ fuel) :
    decodeToUTF16Loop a len fuel tail j dst = some (tail.isEmpty,dst) := by
  cases tail with
  | nil => cases fuel <;> rfl
  | cons first rest =>
    obtain ⟨fuel,rfl⟩ := exists_fuel fuel (Nat.zero_lt_of_lt hfuel)
    rw [decodeToUTF16Loop,decode_stuck a htail rfl]
    by_cases h : j < len
    · rw [if_pos h]
      rfl
    · rw [if_neg h,(by omega : j = len),beq_self_eq_true]
      rfl

lemma decodeToLatin1Loop_stuck {fuel j : ℕ} {dst : List UInt8} (hj : j ≤ len)
    (hfuel : tail.length ≤ fuel) (hlatin1 : ∀ b ∈ tail, isLatin1SequenceStart b = true) :
    decodeToLatin1Loop a len fuel tail j dst = some (tail.isEmpty,dst) := by
  cases tail with
  | nil => cases fuel <;> rfl
  | cons first rest =>
    obtain ⟨fuel,rfl⟩ := exists_fuel fuel (Nat.zero_lt_of_lt hfuel)
    rw [decodeToLatin1Loop,decode_stuck a htail rfl]
    by_cases h : j < len
    · simp only [if_pos h,hlatin1 first mem_cons_self]
      rfl
    · rw [if_neg h,(by omega : j = len),beq_self_eq_true]
      rfl

lemma decodeToUTF16Loop_split (cs : List Char) {fuel j : ℕ} {dst : List UInt16}
    (hj : j+(cs.flatMap utf16).length ≤ len) (hlen : len ≤ dst.length)
    (hfuel : (cs.flatMap utf8EncodeChar ++ tail).length ≤ fuel) :
    decodeToUTF16Loop a len fuel (cs.flatMap utf8EncodeChar ++ tail) j dst =
      some (tail.isEmpty,overwrite dst j (cs.flatMap utf16)) := by
  induction cs generalizing fuel j dst with
  | nil => exact overwrite_nil ▸ decodeToUTF16Loop_stuck a htail hj hfuel
  | cons c cs ih =>
    have hpos := length_utf8EncodeChar c ▸ c.utf8Size_pos
    rw [List.flatMap_cons,List.append_assoc] at hfuel ⊢
    rw [List.flatMap_cons] at hj ⊢
    rw [List.length_append] at hfuel hj
    obtain ⟨fuel,rfl⟩ := exists_fuel fuel
    have hdst : j+(utf16 c).length ≤ dst.length := by omega
    rw [decodeToUTF16Loop_char a (by omega) hlen,
      ih (by omega) (by rw [length_overwrite hdst]; exact hlen) (by omega),
      overwrite_overwrite hdst]

lemma decodeToLatin1Loop_split (cs : List Char) {fuel j : ℕ} {dst : List UInt8}
    (hj : j+cs.length ≤ len) (hlen : len ≤ dst.length)
    (hfuel : (cs.flatMap utf8EncodeChar ++ tail).length ≤ fuel)
    (hlatin1 : ∀ b ∈ tail, isLatin1SequenceStart b = true) (hcs : ∀ c ∈ cs, c.toNat ≤ 0xFF) :
    decodeToLatin1Loop a len fuel (cs.flatMap utf8EncodeChar ++ tail) j dst =
      some (tail.isEmpty,overwrite dst j (cs.map fun c => UInt8.ofNat c.toNat)) := by
  induction cs generalizing fuel j dst with
  | nil => exact overwrite_nil ▸ decodeToLatin1Loop_stuck a htail hj hfuel hlatin1
  | cons c cs ih =>
    have hpos := length_utf8EncodeChar c ▸ c.utf8Size_pos
    rw [List.forall_mem_cons] at hcs
    rw [List.flatMap_cons,List.append_assoc] at hfuel ⊢
    rw [List.length_append] at hfuel
    rw [List.length_cons] at hj
    obtain ⟨fuel,rfl⟩ := exists_fuel fuel
    have hdst : j+[UInt8.ofNat c.toNat].length ≤ dst.length := by
      rw [List.length_singleton]
      omega
    rw [decodeToLatin1Loop_char a hcs.1 (by omega) hlen,
      ih (by omega) (by rw [length_overwrite hdst]; exact hlen) (by omega) hcs.2]
    exact congrArg (fun d => some (_,d)) (overwrite_overwrite hdst)

end Decode

end Utf8

section Exact
variable (a : Arch) (bytes : List UInt8)

open Utf8

/-- An array whose text is of Latin-1 consists of characters of Latin-1 with one code unit each. -/
lemma latin1_chars {cs : List Char} {tail : List UInt8}
    (h : (codeUnitCount (cs.flatMap utf8EncodeChar ++ tail)).2 = .latin1) :
    (∀ c ∈ cs, c.toNat ≤ 0xFF) ∧ ∀ b ∈ tail, isLatin1SequenceStart b = true := by
  have hle := latin1_le h
  rw [forall_mem_append] at hle
  refine ⟨fun c hc => ?_,hle.2⟩
  obtain ⟨first,rest,he, -⟩ := sequence_encodeChar .bits64 c []
  rw [append_nil] at he
  have hmem : first ∈ utf8EncodeChar c := he ▸ mem_cons_self
  have hfirst := hle.1 first (mem_flatMap.mpr ⟨c,hc,hmem⟩)
  rw [isLatin1SequenceStart_iff] at hfirst
  exact (first_char ((append_nil _).trans he)).2.mp hfirst

lemma map_toNat_latin1 {cs : List Char} (h : ∀ c ∈ cs, c.toNat ≤ 0xFF) :
    (cs.map fun c => UInt8.ofNat c.toNat).map UInt8.toNat = (cs.flatMap utf16).map UInt16.toNat := by
  induction cs with
  | nil => rfl
  | cons c cs ih =>
    rw [forall_mem_cons] at h
    have hk : kMaxCodeUnit = 0xFFFF := rfl
    rw [map_cons,map_cons,ih h.2,flatMap_cons,map_append,utf16,
      if_neg (by omega),toNat_ofNat_of_lt (by omega),map_singleton,
      toNat_unit_of_lt (by omega),singleton_append]

lemma mapM_encode_chars (cs : List Char) :
    (cs.map Char.toNat).mapM encode = some (cs.map utf8EncodeChar) := by
  induction cs with
  | nil => rfl
  | cons c cs ih =>
    rw [map_cons,mapM_cons,encode_char,ih]
    rfl

/-- Validating answers for every array, and accepts exactly the encodings of lists of characters.
With a destination of at least the counted length, decoding never fails to write, it answers as
validating does, and it overwrites the start of the destination with code units. If the array is valid
they are as many as counted, and their code points encode to the array. If the counted text is of
Latin-1, decoding to Latin-1 gives the same answer and the same code units. -/
theorem utf8_decoding_exact : ∃ valid : Bool, isValid a bytes = some valid ∧
    (valid = true ↔ ∃ cs : List Char, bytes = cs.flatMap utf8EncodeChar) ∧
    ∃ units : List UInt16, units.length ≤ (codeUnitCount bytes).1 ∧
      (∀ dst : List UInt16, (codeUnitCount bytes).1 ≤ dst.length →
        decodeToUTF16 a bytes dst (codeUnitCount bytes).1 =
          some (valid,units ++ dst.drop units.length)) ∧
      (valid = true → units.length = (codeUnitCount bytes).1 ∧
        ((Utf16.codePoints units).mapM encode).map List.flatten = some bytes) ∧
      ((codeUnitCount bytes).2 = .latin1 → ∃ latin1 : List UInt8,
        latin1.map UInt8.toNat = units.map UInt16.toNat ∧
        ∀ dst : List UInt8, (codeUnitCount bytes).1 ≤ dst.length →
          decodeToLatin1 a bytes dst (codeUnitCount bytes).1 =
            some (valid,latin1 ++ dst.drop latin1.length)) := by
  obtain ⟨cs,tail,rfl,htail⟩ := exists_split a bytes
  have hcount : (codeUnitCount (cs.flatMap utf8EncodeChar ++ tail)).1 =
      (cs.flatMap utf16).length+(tail.map codeUnits).sum := by
    rw [codeUnitCount_fst,List.map_append,List.sum_append,sum_codeUnits_chars]
  refine ⟨tail.isEmpty,isValidLoop_split a htail cs le_rfl,?_,cs.flatMap utf16,by omega,?_,?_,?_⟩
  · rw [List.isEmpty_iff]
    constructor
    · rintro rfl
      exact ⟨cs,List.append_nil _⟩
    · rintro ⟨cs',he⟩
      have hvalid := isValidLoop_split a htail cs le_rfl
      have hnil : Stuck a [] := trivial
      rw [he,← List.append_nil (cs'.flatMap _),isValidLoop_split a hnil cs' le_rfl,
        Option.some_inj] at hvalid
      exact List.isEmpty_iff.mp hvalid.symm
  · intro dst hdst
    have hj : 0+(cs.flatMap utf16).length ≤
        (codeUnitCount (cs.flatMap utf8EncodeChar ++ tail)).1 := by omega
    have hloop := decodeToUTF16Loop_split a htail cs hj hdst le_rfl
    rwa [overwrite,List.take_zero,List.nil_append,Nat.zero_add] at hloop
  · intro h
    rw [List.isEmpty_iff] at h
    subst h
    refine ⟨by rw [hcount]; rfl,?_⟩
    rw [codePoints_utf16,mapM_encode_chars,Option.map_some,List.append_nil,List.flatMap_def]
  · intro h
    obtain ⟨hcs,hlatin1⟩ := latin1_chars h
    have hmap := map_toNat_latin1 hcs
    have hlength := congrArg List.length hmap
    simp only [List.length_map] at hlength
    refine ⟨_,hmap,fun dst hdst => ?_⟩
    have hj : 0+cs.length ≤ (codeUnitCount (cs.flatMap utf8EncodeChar ++ tail)).1 := by omega
    have hloop := decodeToLatin1Loop_split a htail cs hj hdst le_rfl hlatin1 hcs
    rwa [overwrite,List.take_zero,List.nil_append,Nat.zero_add] at hloop

end Exact

end DartSdk.Unicode
