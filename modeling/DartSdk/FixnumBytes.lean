import DartSdk.FixnumBitwise

/-! `fromInts` and `fromBytes` put the low bits of their arguments side by side, `toBytes` cuts a
value into bytes. -/
namespace DartSdk.Fixnum
open TruncatedArithmetic List Host

lemma getLsbD_ofInt (w : ℕ) (x : ℤ) (i : ℕ) :
    (BitVec.ofInt w x).getLsbD i = (decide (i < w) && x.testBit i) := by
  rw [BitVec.getLsbD,BitVec.toNat_ofInt,Nat.cast_pow,Nat.cast_ofNat,testBit_toNat_emod]

namespace Int64
variable (t : Host) {a : Int64}

lemma and_byte (x : ℤ) : t.and x 0xff = x%2^8 := t.and_mask x (show 8 ≤ 32 by norm_num)

lemma and_word (x : ℤ) : t.and x 0xffffffff = x%2^32 := t.and_mask x le_rfl

variable (top bottom : ℤ)

lemma fromInts_eq : fromInts t top bottom =
    ⟨bottom%2^32%2^22,t.or (t.shl (top%2^32%2^12) 10) (t.shr (bottom%2^32) 22%2^10),
      t.shr (top%2^32) 12%2^20⟩ := by
  dsimp only [fromInts]
  rw [and_word,and_word,show kMask = 2^22-1 from rfl,show kMask2 = 2^20-1 from rfl,
    show (0xfff : ℤ) = 2^12-1 from rfl,show (0x3ff : ℤ) = 2^10-1 from rfl,
    t.mask_and _ (by omega),t.mask_and _ (by omega),t.mask_and _ (by omega),
    t.mask_and _ (by omega)]
  rfl

lemma fromInts_canonical : (fromInts t top bottom).Canonical := by
  have hshl := t.shl_eq (x := top%2^32%2^12) (by omega) 10 (by omega)
  have hor := t.or_bounds (x := top%2^32%2^12*2^10)
    (y := t.shr (bottom%2^32) 22%2^10) (k := 22)
    (by omega) (by omega) (by omega) (by omega) (by omega)
  rw [fromInts_eq,hshl]
  constructor <;> dsimp only <;> omega

lemma fromInts_denotes :
    (fromInts t top bottom).Denotes (BitVec.ofInt 32 top ++ BitVec.ofInt 32 bottom) := by
  refine (fromInts_canonical t top bottom).denotes (fun i hi => ?_) (fun i hi => ?_) (fun i hi => ?_)
  all_goals
    rw [BitVec.getLsbD_append,getLsbD_ofInt,getLsbD_ofInt,fromInts_eq]
    simp (disch := omega) only [testBit_or,testBit_shl,testBit_shr,testBit_emod_two_pow]
    grind

lemma testBit_join4 (b3 b2 b1 b0 : ℤ) {i : ℕ} (hi : i < 32) : (join4 t b3 b2 b1 b0).testBit i =
    if i < 8 then b0.testBit i else if i < 16 then b1.testBit (i-8)
    else if i < 24 then b2.testBit (i-16) else b3.testBit (i-24) := by
  dsimp only [join4]
  simp (disch := omega) only [and_byte,testBit_or,testBit_shl,testBit_emod_two_pow]
  grind

lemma fromBytes_none {bytes : List ℤ} (h : bytes.length < 8) : fromBytes t bytes = none := by
  rw [fromBytes,getElem?_eq_none (by omega)]
  rfl

/-- Byte `k` of the result is the low byte of the list's element `k`. -/
lemma fromBytes_denotes {bytes : List ℤ} (h : 8 ≤ bytes.length) : ∃ r, fromBytes t bytes = some r ∧
      r.Canonical ∧ ∀ k (hk : k < 8), r.bits.extractLsb' (8*k) 8 = BitVec.ofInt 8 bytes[k] := by
  have hget : ∀ k (hk : k < 8), bytes[k]? = some bytes[k] := fun k hk => getElem?_eq_getElem _
  have heq : fromBytes t bytes = some (fromInts t (join4 t bytes[7] bytes[6] bytes[5] bytes[4])
      (join4 t bytes[3] bytes[2] bytes[1] bytes[0])) := by
    unfold fromBytes
    rw [hget 0 (by norm_num),hget 1 (by norm_num),hget 2 (by norm_num),hget 3 (by norm_num),
      hget 4 (by norm_num),hget 5 (by norm_num),hget 6 (by norm_num),hget 7 (by norm_num)]
    rfl
  obtain ⟨hc,hbits⟩ := fromInts_denotes t (join4 t bytes[7] bytes[6] bytes[5] bytes[4])
    (join4 t bytes[3] bytes[2] bytes[1] bytes[0])
  refine ⟨_,heq,hc,fun k hk => BitVec.eq_of_getLsbD_eq fun i hi => ?_⟩
  rw [hbits,BitVec.getLsbD_extractLsb',BitVec.getLsbD_append,getLsbD_ofInt,getLsbD_ofInt,
    getLsbD_ofInt,decide_eq_true hi,Bool.true_and,Bool.true_and]
  interval_cases k
  all_goals
    simp (disch := omega) only [testBit_join4]
    grind

lemma eq_byte {v : BitVec 64} {k : ℕ} {x : ℤ} (h0 : 0 ≤ x) (hx : x < 2^8)
    (h : ∀ i < 8, x.testBit i = v.getLsbD (8*k+i)) : x = ((v.extractLsb' (8*k) 8).toNat : ℤ) := by
  have hlt := (v.extractLsb' (8*k) 8).isLt
  refine eq_of_testBit_eq h0 hx (by positivity) (by exact_mod_cast hlt) fun i hi => ?_
  have hbyte := BitVec.getLsbD_extractLsb' (8*k) 8 v i
  rw [decide_eq_true hi,Bool.true_and] at hbyte
  rw [h i hi,← hbyte]
  rfl

lemma and_bounds_right (x : ℤ) {m : ℤ} (h : 0 ≤ m ∧ m < 2^8) : 0 ≤ t.and x m ∧ t.and x m < 2^8 := by
  rw [Host.and,land_comm]
  exact t.and_bounds h.1 h.2 (by omega)

lemma toBytes_eq (ha : a.Canonical) :
    toBytes t a = (range 8).map fun k => ((a.bits.extractLsb' (8*k) 8).toNat : ℤ) := by
  have hff : ∀ i < 8, (0xff : ℤ).testBit i = true := by decide
  have hfc : ∀ i < 8, (0xfc : ℤ).testBit i = decide (2 ≤ i) := by decide
  have hf0 : ∀ i < 8, (0xf0 : ℤ).testBit i = decide (4 ≤ i) := by decide
  have h3f : ∀ i < 8, (0x3f : ℤ).testBit i = decide (i < 6) := by decide
  have hf : ∀ i < 8, (0xf : ℤ).testBit i = decide (i < 4) := by decide
  have hand := fun x => and_bounds_right t x (m := 0xff) (by norm_num)
  have hor : ∀ x y, 0 ≤ x ∧ x < 2^8 → 0 ≤ y ∧ y < 2^8 → 0 ≤ t.or x y ∧ t.or x y < 2^8 :=
    fun x y hx hy => t.or_bounds hx.1 hy.1 hx.2 hy.2 (by omega)
  have hbyte : ∀ (k : ℕ) (x : ℤ), 0 ≤ x ∧ x < 2^8 →
      (∀ i < 8, x.testBit i = a.bits.getLsbD (8*k+i)) →
      x = ((a.bits.extractLsb' (8*k) 8).toNat : ℤ) := fun k x hx h => eq_byte hx.1 hx.2 h
  have hor2 := hor _ _ (and_bounds_right t (t.shl a.m 6) (m := 0xfc) (by norm_num))
    (and_bounds_right t (t.shr a.l 16) (m := 0x3f) (by norm_num))
  have hor5 := hor _ _ (and_bounds_right t (t.shl a.h 4) (m := 0xf0) (by norm_num))
    (and_bounds_right t (t.shr a.m 18) (m := 0xf) (by norm_num))
  simp only [toBytes,range_eq_range',range',map_cons,map_nil,cons.injEq,and_true]
  refine ⟨hbyte 0 _ (hand _) fun i hi => ?_,hbyte 1 _ (hand _) fun i hi => ?_,
    hbyte 2 _ hor2 fun i hi => ?_,hbyte 3 _ (hand _) fun i hi => ?_,hbyte 4 _ (hand _) fun i hi => ?_,
    hbyte 5 _ hor5 fun i hi => ?_,hbyte 6 _ (hand _) fun i hi => ?_,hbyte 7 _ (hand _) fun i hi => ?_⟩
  all_goals
    simp (disch := omega) only [testBit_or,testBit_and,testBit_shl,testBit_shr,
      hff]
    grind

end Int64

end DartSdk.Fixnum
