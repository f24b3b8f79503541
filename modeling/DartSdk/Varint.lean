import Mathlib

/-! A byte up to 127 contributes seven bits, lowest bits first. A larger byte ends the sequence and
contributes its difference to a marker, which may be negative. -/
namespace DartSdk.Varint

/-- The sequence `l` of bytes encodes the integer `v`. -/
inductive Encodes (marker : ℕ) : ℤ → List UInt8 → Prop
  | last {b : UInt8} (hb : 127 < b.toNat) : Encodes marker (b.toNat-marker) [b]
  | more {b : UInt8} {v : ℤ} {l : List UInt8} (hb : b.toNat ≤ 127) (h : Encodes marker v l) :
    Encodes marker (b.toNat+v*2^7) (b :: l)

def endData (w marker : ℕ) (b : UInt8) : BitVec w := BitVec.ofNat w b.toNat-BitVec.ofNat w marker

/-- Collect the bits of a sequence in a word, from bit `s` on. -/
def decode (w marker : ℕ) : ℕ → BitVec w → List UInt8 → Option (BitVec w × List UInt8)
  | _, _, [] => none
  | s, r, b :: c =>
    if 127 < b.toNat then some (r ||| endData w marker b <<< s,c)
    else decode w marker (s+7) (r ||| BitVec.ofNat w b.toNat <<< s) c

variable {w marker : ℕ}

lemma ofInt_or_shiftLeft {s u : ℕ} (hu : u < 2^s) (x : ℤ) :
    BitVec.ofInt w u ||| BitVec.ofInt w x <<< s = BitVec.ofInt w (u+x*2^s) := by
  have hdisjoint : BitVec.ofInt w u &&& BitVec.ofInt w x <<< s = 0#w := by
    refine BitVec.eq_of_getLsbD_eq fun i hi => ?_
    rw [BitVec.getLsbD_and,BitVec.getLsbD_shiftLeft,BitVec.ofInt_natCast,BitVec.getLsbD_ofNat]
    by_cases his : i < s
    · simp [his]
    · have hbit : u.testBit i = false :=
        Nat.testBit_lt_two_pow (hu.trans_le (Nat.pow_le_pow_right (by norm_num) (by omega)))
      simp [hbit]
  have hpow : BitVec.ofInt w (2^s) = BitVec.twoPow w s := by
    refine BitVec.eq_of_toNat_eq ?_
    rw [BitVec.toNat_twoPow,show (2 : ℤ)^s = ((2^s : ℕ) : ℤ) by rfl,
      BitVec.ofInt_natCast,BitVec.toNat_ofNat]
  rw [← BitVec.add_eq_or_of_and_eq_zero _ _ hdisjoint,BitVec.shiftLeft_eq_mul_twoPow,← hpow,
    ← BitVec.ofInt_mul,← BitVec.ofInt_add]

lemma endData_eq (b : UInt8) : endData w marker b = BitVec.ofInt w (b.toNat-marker) := by
  rw [endData,← BitVec.ofInt_natCast,← BitVec.ofInt_natCast,sub_eq_add_neg (b.toNat : ℤ),
    BitVec.ofInt_add,BitVec.ofInt_neg,BitVec.sub_eq_add_neg]

/-- Decoding yields the low bits of the encoded integer and leaves what follows. -/
lemma Encodes.decode {v : ℤ} {l : List UInt8} (h : Encodes marker v l) (rest : List UInt8) :
    ∀ {s u : ℕ}, u < 2^s → decode w marker s (BitVec.ofInt w u) (l ++ rest) =
      some (BitVec.ofInt w (u+v*2^s),rest) := by
  induction h with
  | last hb =>
    intro s u hu
    rw [List.singleton_append,Varint.decode,if_pos hb,endData_eq,ofInt_or_shiftLeft hu]
  | @more b v l hb h ih =>
    intro s u hu
    have hnext : u+b.toNat*2^s < 2^(s+7) := by
      have hmul : b.toNat*2^s ≤ 127*2^s := Nat.mul_le_mul_right _ hb
      rw [pow_add]
      omega
    rw [List.cons_append,Varint.decode,if_neg (by omega),← BitVec.ofInt_natCast,
      ofInt_or_shiftLeft hu]
    have hih := ih hnext
    push_cast at hih
    rw [hih,pow_add]
    congr 3
    ring

lemma Encodes.length_pos {v : ℤ} {l : List UInt8} (h : Encodes marker v l) : 0 < l.length := by
  cases h <;> simp

end DartSdk.Varint
