import DartSdk.Unicode

/-! Counting, validating and decoding agree on encoded characters, and a rest that does not start
with one makes validating and decoding fail. -/
namespace DartSdk.Unicode

open Utils String List Nat UInt8

section Masks

lemma and_high_mask {ch k : ℕ} (hch : ch < 2^32) (hk : k ≤ 32) :
    ch &&& (2^32-2^k) = ch/2^k*2^k := by
  have hmask : 2^32-2^k = (2^(32-k)-1) <<< k := by
    rw [Nat.shiftLeft_eq,Nat.sub_mul,← pow_add,Nat.sub_add_cancel hk,Nat.one_mul]
  refine Nat.eq_of_testBit_eq fun i => ?_
  rw [hmask,Nat.testBit_and,Nat.testBit_shiftLeft,Nat.testBit_two_pow_sub_one,
    ← Nat.shiftLeft_eq,Nat.testBit_shiftLeft,Nat.testBit_div_two_pow]
  rcases Nat.lt_or_ge i k with h | h
  · simp [Nat.not_le.mpr h]
  · rw [Nat.sub_add_cancel h]
    rcases Nat.lt_or_ge i 32 with h32 | h32
    · simp [h,(by omega : i-k < 32-k)]
    · have hbit : ch.testBit i = false :=
        Nat.testBit_lt_two_pow (hch.trans_le (Nat.pow_le_pow_right (by norm_num) h32))
      simp [hbit]

lemma isSurrogate_iff {ch : ℕ} (h : ch < 2^32) :
    Utf16.isSurrogate ch = true ↔ 0xD800 ≤ ch ∧ ch ≤ 0xDFFF := by
  unfold Utf16.isSurrogate
  rw [decide_eq_true_iff,(by norm_num : 0xFFFFF800 = 2^32-2^11),and_high_mask h (by norm_num)]
  omega

lemma isLeadSurrogate_iff {ch : ℕ} (h : ch < 2^32) :
    Utf16.isLeadSurrogate ch = true ↔ 0xD800 ≤ ch ∧ ch ≤ 0xDBFF := by
  unfold Utf16.isLeadSurrogate
  rw [decide_eq_true_iff,(by norm_num : 0xFFFFFC00 = 2^32-2^10),and_high_mask h (by norm_num)]
  omega

lemma isTrailSurrogate_iff {ch : ℕ} (h : ch < 2^32) :
    Utf16.isTrailSurrogate ch = true ↔ 0xDC00 ≤ ch ∧ ch ≤ 0xDFFF := by
  unfold Utf16.isTrailSurrogate
  rw [decide_eq_true_iff,(by norm_num : 0xFFFFFC00 = 2^32-2^10),and_high_mask h (by norm_num)]
  omega

/-- As a word of 32 bits, a large number is negative. -/
lemma isOutOfRange_iff (a : Arch) {ch : ℕ} (h : ch < 2^32) :
    Utf.isOutOfRange (BitVec.ofNat (kBitsPerWord a) ch).toInt = true ↔ 0x10FFFF < ch := by
  unfold Utf.isOutOfRange Utf.kMaxCodePoint
  rw [BitVec.toInt_eq_toNat_cond,BitVec.toNat_ofNat,Bool.or_eq_true,decide_eq_true_iff,
    decide_eq_true_iff]
  cases a <;> simp only [kBitsPerWord] <;> split_ifs <;> omega

end Masks

namespace Utf8

lemma isTrailByte_iff (b : UInt8) : isTrailByte b = true ↔ 0x80 ≤ b.toNat ∧ b.toNat < 0xC0 := by
  revert b
  decide +kernel

lemma kTrailBytes_eq (b : UInt8) : kTrailBytes.getD b.toNat 0 =
    if b.toNat < 0x80 then 1 else if b.toNat < 0xC0 then 0 else if b.toNat < 0xE0 then 2
    else if b.toNat < 0xF0 then 3 else if b.toNat < 0xF8 then 4 else if b.toNat < 0xFC then 5
    else if b.toNat < 0xFE then 6 else 0 := by
  revert b
  decide +kernel

section Sequence
variable (a : Arch) {first : UInt8} {rest : List UInt8} {n ch : ℕ} {isMalformed : Bool}

/-- What is required of the code point of a sequence of `n` bytes. -/
def Accepts (ch n : ℕ) : Prop :=
  ch ≤ 0x10FFFF ∧ kOverlongMinimum.getD n 0 ≤ ch ∧ ¬ (0xD800 ≤ ch ∧ ch ≤ 0xDFFF)

lemma sequence_ascii (hb : first.toNat < 0x80) : sequence a first rest = some (first.toNat,1) := by
  exact if_neg (by omega)

lemma sequence_truncated (hb : 0x80 ≤ first.toNat) (hn : kTrailBytes.getD first.toNat 0 = n)
    (hscan : scanTrail (n-1) first.toNat false rest = none) : sequence a first rest = none := by
  unfold sequence
  simp only [hb,if_true,hn,hscan]

lemma sequence_scanned (hb : 0x80 ≤ first.toNat) (hn : kTrailBytes.getD first.toNat 0 = n)
    (hscan : scanTrail (n-1) first.toNat false rest = some (ch,isMalformed)) {v : ℕ}
    (hv : (ch+2^32-kMagicBits.getD n 0)%2^32 = v) (r : ℕ × ℕ) : sequence a first rest =
      some r ↔ isMalformed = false ∧ 1 ≤ n ∧ Accepts v n ∧ r = (v,n) := by
  have hlt : v < 2^32 := hv ▸ mod_lt _ (by norm_num)
  have hmax : (max 1 n == n) = decide (1 ≤ n) := by
    rw [Bool.eq_iff_iff,beq_iff_eq,decide_eq_true_iff,max_eq_right_iff]
  have hcond : (!isMalformed && max 1 n == n &&
      !Utf.isOutOfRange (BitVec.ofNat (kBitsPerWord a) v).toInt &&
      !isNonShortestForm v (max 1 n) && !Utf16.isSurrogate v) = true ↔
      isMalformed = false ∧ 1 ≤ n ∧ Accepts v n := by
    rw [hmax]
    simp only [Bool.and_eq_true,Bool.not_eq_true',← Bool.not_eq_true,isOutOfRange_iff a hlt,
      isSurrogate_iff hlt,decide_eq_true_iff,isNonShortestForm,not_lt]
    constructor
    · rintro ⟨⟨⟨⟨hm,h1⟩,hr⟩,hmin⟩,hs⟩
      exact ⟨hm,h1,hr,max_eq_right h1 ▸ hmin,hs⟩
    · rintro ⟨hm,h1,hr,hmin,hs⟩
      exact ⟨⟨⟨⟨hm,h1⟩,hr⟩,(max_eq_right h1).symm ▸ hmin⟩,hs⟩
  unfold sequence
  simp only [hb,if_true,hn,hscan,hv]
  by_cases hok : isMalformed = false ∧ 1 ≤ n ∧ Accepts v n
  · rw [if_pos (hcond.mpr hok),max_eq_right hok.2.1]
    simp [hok,eq_comm]
  · rw [if_neg (mt hcond.mp hok)]
    simp only [reduceCtorEq,false_iff]
    exact fun h => hok ⟨h.1,h.2.1,h.2.2.1⟩

/-- A sequence whose trail bytes are well formed has the code point of its payload bits. -/
lemma sequence_payload {P : Prop} {v : ℕ} (hfirst : 0x80 ≤ first.toNat)
    (hn : kTrailBytes.getD first.toNat 0 = n)
    (hscan : scanTrail (n-1) first.toNat false rest = some (ch,isMalformed)) (hpos : 1 ≤ n)
    (hmal : isMalformed = false ↔ P) (hval : P → (ch+2^32-kMagicBits.getD n 0)%2^32 = v)
    (r : ℕ × ℕ) : sequence a first rest = some r ↔ P ∧ Accepts v n ∧ r = (v,n) := by
  rw [sequence_scanned a hfirst hn hscan rfl,hmal]
  constructor
  · rintro ⟨hP, -,hacc⟩
    rw [hval hP] at hacc
    exact ⟨hP,hacc⟩
  · rintro ⟨hP,hacc⟩
    rw [hval hP]
    exact ⟨hP,hpos,hacc⟩

variable {t u w : UInt8} {v : ℕ}

lemma sequence_two (hb : 0xC0 ≤ first.toNat ∧ first.toNat < 0xE0)
    (hv : v = (first.toNat-0xC0)*2^6+(t.toNat-0x80)) (r : ℕ × ℕ) :
    sequence a first (t :: rest) = some r ↔ isTrailByte t = true ∧ Accepts v 2 ∧ r = (v,2) := by
  have hn : kTrailBytes.getD first.toNat 0 = 2 := by
    rw [kTrailBytes_eq]
    split_ifs <;> omega
  refine sequence_payload a (by omega) hn rfl (by norm_num) ?_ ?_ r
  · simp
  · rw [isTrailByte_iff,shiftLeft_eq]
    change _ → (_+2^32-0x3080)%2^32 = _
    omega

lemma sequence_three (hb : 0xE0 ≤ first.toNat ∧ first.toNat < 0xF0)
    (hv : v = (first.toNat-0xE0)*2^12+(t.toNat-0x80)*2^6+(u.toNat-0x80))
    (r : ℕ × ℕ) : sequence a first (t :: u :: rest) = some r ↔
      (isTrailByte t = true ∧ isTrailByte u = true) ∧ Accepts v 3 ∧ r = (v,3) := by
  have hn : kTrailBytes.getD first.toNat 0 = 3 := by
    rw [kTrailBytes_eq]
    split_ifs <;> omega
  refine sequence_payload a (by omega) hn rfl (by norm_num) ?_ ?_ r
  · simp
  · rw [isTrailByte_iff,isTrailByte_iff,shiftLeft_eq,shiftLeft_eq]
    change _ → (_+2^32-0xE2080)%2^32 = _
    omega

lemma sequence_four (hb : 0xF0 ≤ first.toNat ∧ first.toNat < 0xF8)
    (hv : v = (first.toNat-0xF0)*2^18+(t.toNat-0x80)*2^12 + (u.toNat-0x80)*2^6+(w.toNat-0x80))
    (r : ℕ × ℕ) : sequence a first (t :: u :: w :: rest) = some r ↔
      (isTrailByte t = true ∧ isTrailByte u = true ∧ isTrailByte w = true) ∧ Accepts v 4 ∧ r =
      (v,4) := by
  have hn : kTrailBytes.getD first.toNat 0 = 4 := by
    rw [kTrailBytes_eq]
    split_ifs <;> omega
  refine sequence_payload a (by omega) hn rfl (by norm_num) ?_ ?_ r
  · simp [and_assoc]
  · rw [isTrailByte_iff,isTrailByte_iff,isTrailByte_iff,shiftLeft_eq,shiftLeft_eq,shiftLeft_eq]
    change _ → (_+2^32-0x3C82080)%2^32 = _
    omega

lemma scanTrail_short {left : ℕ} (h : rest.length < left) :
    scanTrail left ch isMalformed rest = none := by
  induction left generalizing rest ch isMalformed with
  | zero => omega
  | succ left ih =>
    cases rest with
    | nil => rfl
    | cons b rest => exact ih (lt_of_succ_lt_succ h)

lemma sequence_short (hb : 0x80 ≤ first.toNat)
    (hn : rest.length+1 < kTrailBytes.getD first.toNat 0) : sequence a first rest = none :=
  sequence_truncated a hb rfl (scanTrail_short (by omega))

/-- Bytes that start no sequence of up to four bytes start no valid sequence. -/
lemma sequence_other (hb : 0x80 ≤ first.toNat ∧ first.toNat < 0xC0 ∨ 0xF8 ≤ first.toNat) :
    sequence a first rest = none := by
  have hn : kTrailBytes.getD first.toNat 0 ∈ [0,5,6] := by
    rw [kTrailBytes_eq]
    split_ifs <;> first | decide | omega
  rcases hscan : scanTrail (kTrailBytes.getD first.toNat 0-1) first.toNat false rest with
    _ | ⟨ch,isMalformed⟩
  · exact sequence_truncated a (by omega) rfl hscan
  · refine Option.eq_none_iff_forall_ne_some.mpr fun r hr => ?_
    obtain ⟨-,h1,⟨hmax,hmin, -⟩, -⟩ :=
      (sequence_scanned a (by omega) rfl hscan rfl r).mp hr
    rw [mem_cons,mem_cons,mem_singleton] at hn
    rcases hn with hn | hn | hn <;> rw [hn] at h1 hmin hmax
    · omega
    · change 0xFFFFFFFF ≤ _ at hmin
      omega
    · change 0xFFFFFFFF ≤ _ at hmin
      omega

lemma toNat_ofNat_of_lt {x : ℕ} (h : x < 256) : (ofNat x).toNat = x := by
  rw [toNat_ofNat',mod_eq_of_lt h]

lemma char_valid (c : Char) : c.toNat ≤ 0x10FFFF ∧ ¬ (0xD800 ≤ c.toNat ∧ c.toNat ≤ 0xDFFF) := by
  have h := c.valid
  simp only [UInt32.isValidChar,Char.toNat_val] at h
  omega

lemma encodeChar_cases (c : Char) : c.toNat ≤ 0x7F ∧ utf8EncodeChar c = [ofNat c.toNat] ∨
    (0x7F < c.toNat ∧ c.toNat ≤ 0x7FF) ∧ utf8EncodeChar c =
      [ofNat (c.toNat/64%0x20+0xC0),ofNat (c.toNat%0x40+0x80)] ∨
    (0x7FF < c.toNat ∧ c.toNat ≤ 0xFFFF) ∧ utf8EncodeChar c =
      [ofNat (c.toNat/4096%0x10+0xE0),ofNat (c.toNat/64%0x40+0x80),
        ofNat (c.toNat%0x40+0x80)] ∨
    (0xFFFF < c.toNat ∧ c.toNat ≤ 0x10FFFF) ∧ utf8EncodeChar c =
      [ofNat (c.toNat/262144%8+0xF0),ofNat (c.toNat/4096%0x40+0x80),
        ofNat (c.toNat/64%0x40+0x80),ofNat (c.toNat%0x40+0x80)] := by
  have hmax := (char_valid c).1
  simp only [utf8EncodeChar,← Char.toNat_val]
  by_cases h1 : c.val.toNat ≤ 0x7F
  · exact .inl ⟨h1,if_pos h1⟩
  by_cases h2 : c.val.toNat ≤ 0x7FF
  · exact .inr (.inl ⟨⟨by omega,h2⟩,by rw [if_neg h1,if_pos h2]⟩)
  by_cases h3 : c.val.toNat ≤ 0xFFFF
  · exact .inr (.inr (.inl ⟨⟨by omega,h3⟩,by rw [if_neg h1,if_neg h2,if_pos h3]⟩))
  · exact .inr (.inr (.inr ⟨⟨by omega,hmax⟩,by rw [if_neg h1,if_neg h2,if_neg h3]⟩))

lemma sequence_encodeChar (c : Char) (tail : List UInt8) : ∃ first rest, utf8EncodeChar c ++ tail =
      first :: rest ∧ sequence a first rest = some (c.toNat,(utf8EncodeChar c).length) := by
  obtain ⟨hmax,hsur⟩ := char_valid c
  rcases encodeChar_cases c with ⟨h,he⟩ | ⟨h,he⟩ | ⟨h,he⟩ | ⟨h,he⟩ <;> rw [he] <;>
    generalize c.toNat = v at * <;> refine ⟨_,_,rfl,?_⟩
  · have hb := toNat_ofNat_of_lt (by omega : v < 256)
    rw [sequence_ascii a (by omega),hb]
    rfl
  · have hb := toNat_ofNat_of_lt (by omega : v/64%0x20+0xC0 < 256)
    have ht := toNat_ofNat_of_lt (by omega : v%0x40+0x80 < 256)
    refine (sequence_two a (v := v) (by omega) (by omega) _).mpr ?_
    rw [isTrailByte_iff]
    exact ⟨by omega,⟨hmax,(by omega : 0x80 ≤ v),hsur⟩,rfl⟩
  · have hb := toNat_ofNat_of_lt (by omega : v/4096%0x10+0xE0 < 256)
    have ht := toNat_ofNat_of_lt (by omega : v/64%0x40+0x80 < 256)
    have hu := toNat_ofNat_of_lt (by omega : v%0x40+0x80 < 256)
    refine (sequence_three a (v := v) (by omega) (by omega) _).mpr ?_
    rw [isTrailByte_iff,isTrailByte_iff]
    exact ⟨by omega,⟨hmax,(by omega : 0x800 ≤ v),hsur⟩,rfl⟩
  · have hb := toNat_ofNat_of_lt (by omega : v/262144%8+0xF0 < 256)
    have ht := toNat_ofNat_of_lt (by omega : v/4096%0x40+0x80 < 256)
    have hu := toNat_ofNat_of_lt (by omega : v/64%0x40+0x80 < 256)
    have hw := toNat_ofNat_of_lt (by omega : v%0x40+0x80 < 256)
    refine (sequence_four a (v := v) (by omega) (by omega) _).mpr ?_
    rw [isTrailByte_iff,isTrailByte_iff,isTrailByte_iff]
    exact ⟨by omega,⟨hmax,(by omega : 0x10000 ≤ v),hsur⟩,rfl⟩

lemma byte_eq {b : UInt8} {x : ℕ} (h : b.toNat = x) : b = UInt8.ofNat x := by
  rw [← h,UInt8.ofNat_toNat]

lemma encodeChar_one {c : Char} (hc : c.toNat = first.toNat) (hb : first.toNat < 0x80) :
    [first] = utf8EncodeChar c := by
  obtain ⟨-,he⟩ | ⟨hr, -⟩ | ⟨hr, -⟩ | ⟨hr, -⟩ := encodeChar_cases c
  · rw [he,hc,UInt8.ofNat_toNat]
  all_goals omega

lemma encodeChar_two {c : Char} (hb : 0xC0 ≤ first.toNat ∧ first.toNat < 0xE0)
    (ht : isTrailByte t = true) (hc : c.toNat = (first.toNat-0xC0)*2^6+(t.toNat-0x80))
    (hmin : 0x80 ≤ c.toNat) : [first,t] = utf8EncodeChar c := by
  rw [isTrailByte_iff] at ht
  obtain ⟨hr, -⟩ | ⟨-,he⟩ | ⟨hr, -⟩ | ⟨hr, -⟩ := encodeChar_cases c
  · omega
  · rw [he,cons.injEq,cons.injEq]
    exact ⟨byte_eq (by omega),byte_eq (by omega),rfl⟩
  all_goals omega

lemma encodeChar_three {c : Char} (hb : 0xE0 ≤ first.toNat ∧ first.toNat < 0xF0)
    (ht : isTrailByte t = true ∧ isTrailByte u = true)
    (hc : c.toNat = (first.toNat-0xE0)*2^12+(t.toNat-0x80)*2^6+(u.toNat-0x80))
    (hmin : 0x800 ≤ c.toNat) : [first,t,u] = utf8EncodeChar c := by
  rw [isTrailByte_iff,isTrailByte_iff] at ht
  obtain ⟨hr, -⟩ | ⟨hr, -⟩ | ⟨-,he⟩ | ⟨hr, -⟩ := encodeChar_cases c
  · omega
  · omega
  · rw [he,cons.injEq,cons.injEq,cons.injEq]
    exact ⟨byte_eq (by omega),byte_eq (by omega),byte_eq (by omega),rfl⟩
  · omega

lemma encodeChar_four {c : Char} (hb : 0xF0 ≤ first.toNat ∧ first.toNat < 0xF8)
    (ht : isTrailByte t = true ∧ isTrailByte u = true ∧ isTrailByte w = true)
    (hc : c.toNat = (first.toNat-0xF0)*2^18+(t.toNat-0x80)*2^12 + (u.toNat-0x80)*2^6+(w.toNat-0x80))
    (hmin : 0x10000 ≤ c.toNat) : [first,t,u,w] = utf8EncodeChar c := by
  rw [isTrailByte_iff,isTrailByte_iff,isTrailByte_iff] at ht
  obtain ⟨hr, -⟩ | ⟨hr, -⟩ | ⟨hr, -⟩ | ⟨-,he⟩ := encodeChar_cases c
  · omega
  · omega
  · omega
  · rw [he,cons.injEq,cons.injEq,cons.injEq,cons.injEq]
    exact ⟨byte_eq (by omega),byte_eq (by omega),byte_eq (by omega),byte_eq (by omega),rfl⟩

lemma exists_char {v : ℕ} (hmax : v ≤ 0x10FFFF) (hsur : ¬ (0xD800 ≤ v ∧ v ≤ 0xDFFF)) :
    ∃ c : Char, c.toNat = v := by
  have hvalid : v.isValidChar := by
    omega
  exact ⟨Char.ofNatAux v hvalid,by simp⟩

lemma sequence_inv {r : ℕ × ℕ} (h : sequence a first rest = some r) :
    ∃ (c : Char) (tail : List UInt8), first :: rest = utf8EncodeChar c ++ tail ∧
      r = (c.toNat,(utf8EncodeChar c).length) := by
  have hshort : ¬ (0x80 ≤ first.toNat ∧ rest.length+1 < kTrailBytes.getD first.toNat 0) := by
    rintro ⟨hb,hn⟩
    rw [sequence_short a hb hn] at h
    cases h
  rw [kTrailBytes_eq] at hshort
  by_cases h1 : first.toNat < 0x80
  · rw [sequence_ascii a h1,Option.some_inj] at h
    obtain ⟨c,hc⟩ := exists_char (by omega : first.toNat ≤ 0x10FFFF) (by omega)
    have he := encodeChar_one hc h1
    exact ⟨c,rest,by rw [← he]; rfl,by rw [← he,hc,← h]; rfl⟩
  by_cases hother : 0x80 ≤ first.toNat ∧ first.toNat < 0xC0 ∨ 0xF8 ≤ first.toNat
  · rw [sequence_other a hother] at h
    cases h
  by_cases h2 : first.toNat < 0xE0
  · obtain _ | ⟨t,rest⟩ := rest
    · simp only [length_nil] at hshort
      split_ifs at hshort <;> omega
    obtain ⟨ht,⟨hmax,hmin,hsur⟩,rfl⟩ := (sequence_two a (by omega) rfl r).mp h
    obtain ⟨c,hc⟩ := exists_char hmax hsur
    have he := encodeChar_two (by omega) ht hc (hc.symm ▸ hmin)
    exact ⟨c,rest,by rw [← he]; rfl,by rw [← he,hc]; rfl⟩
  by_cases h3 : first.toNat < 0xF0
  · obtain _ | ⟨t,_ | ⟨u,rest⟩⟩ := rest
    iterate 2
      · simp only [length_cons,length_nil] at hshort
        split_ifs at hshort <;> omega
    obtain ⟨ht,⟨hmax,hmin,hsur⟩,rfl⟩ := (sequence_three a (by omega) rfl r).mp h
    obtain ⟨c,hc⟩ := exists_char hmax hsur
    have he := encodeChar_three (by omega) ht hc (hc.symm ▸ hmin)
    exact ⟨c,rest,by rw [← he]; rfl,by rw [← he,hc]; rfl⟩
  · obtain _ | ⟨t,_ | ⟨u,_ | ⟨w,rest⟩⟩⟩ := rest
    iterate 3
      · simp only [length_cons,length_nil] at hshort
        split_ifs at hshort <;> omega
    obtain ⟨ht,⟨hmax,hmin,hsur⟩,rfl⟩ := (sequence_four a (by omega) rfl r).mp h
    obtain ⟨c,hc⟩ := exists_char hmax hsur
    have he := encodeChar_four (by omega) ht hc (hc.symm ▸ hmin)
    exact ⟨c,rest,by rw [← he]; rfl,by rw [← he,hc]; rfl⟩

end Sequence

end Utf8

end DartSdk.Unicode
