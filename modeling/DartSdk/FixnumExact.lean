import DartSdk.FixnumBytes
import DartSdk.FixnumCounts

/-! On both hosts every operation on canonical values returns canonical limbs, which stand for the
result on bit vectors. -/
namespace DartSdk.Fixnum
namespace Int64

lemma toSigned_none (t : Host) (a : Int64) {width : ℤ} (h : width < 1 ∨ 64 < width) :
    toSigned t a width = none := if_pos h

lemma toUnsigned_none (t : Host) (a : Int64) {width : ℤ} (h : width < 0 ∨ 64 < width) :
    toUnsigned t a width = none := if_pos h

/-- Operators, shifts by any count that is not negative, truncations to any width, counts and
conversions agree with those of 64-bit vectors. -/
theorem operations_exact (t : Host) {a b : Int64} (ha : a.Canonical) (hb : b.Canonical) :
    ((add t a b).Denotes (a.bits+b.bits) ∧ (sub t a b).Denotes (a.bits-b.bits) ∧
      (neg t a).Denotes (-a.bits) ∧ (mul t a b).Denotes (a.bits*b.bits)) ∧
    ((and t a b).Denotes (a.bits &&& b.bits) ∧ (or t a b).Denotes (a.bits ||| b.bits) ∧
      (xor t a b).Denotes (a.bits ^^^ b.bits) ∧ (not t a).Denotes (~~~a.bits)) ∧
    (∀ n : ℤ, 0 ≤ n →
      (∃ r, shiftLeft t a n = some r ∧ r.Denotes (a.bits <<< (n.toNat%64))) ∧
      (∃ r, shiftRight t a n = some r ∧ r.Denotes (a.bits.sshiftRight (n.toNat%64))) ∧
      ∃ r, shiftRightUnsigned t a n = some r ∧ r.Denotes (a.bits >>> (n.toNat%64))) ∧
    ((equals a b = true ↔ a.bits = b.bits) ∧
      compareTo t a b = if a.bits.toInt < b.bits.toInt then -1
        else if a.bits.toInt = b.bits.toInt then 0 else 1) ∧
    (∀ width : ℤ, (if width < 1 ∨ 64 < width then toSigned t a width = none
        else ∃ r, toSigned t a width = some r ∧ r.Denotes ((a.bits.setWidth width.toNat).signExtend 64)) ∧
      if width < 0 ∨ 64 < width then toUnsigned t a width = none
      else ∃ r, toUnsigned t a width = some r ∧ r.Denotes ((a.bits.setWidth width.toNat).setWidth 64)) ∧
    (bitLength t a = Fixnum.bitLength a.bits.toInt ∧ numberOfLeadingZeros t a = a.bits.clz.toNat ∧
      numberOfTrailingZeros t a = a.bits.ctz.toNat) ∧
    (∀ top bottom : ℤ,
      (fromInts t top bottom).Denotes (BitVec.ofInt 32 top ++ BitVec.ofInt 32 bottom)) ∧
    (∀ bytes : List ℤ, if h : bytes.length < 8 then fromBytes t bytes = none
      else ∃ r, fromBytes t bytes = some r ∧ r.Canonical ∧
        ∀ k (hk : k < 8), r.bits.extractLsb' (8*k) 8 = BitVec.ofInt 8 bytes[k]) ∧
    toBytes t a = (List.range 8).map (fun k => ((a.bits.extractLsb' (8*k) 8).toNat : ℤ)) ∧
    toInt t a = a.bits.toInt := by
  refine ⟨⟨add_denotes t ha hb,sub_denotes t ha hb,neg_denotes t ha,mul_denotes t ha hb⟩,
    ⟨and_denotes t ha hb,or_denotes t ha hb,xor_denotes t ha hb,not_denotes t ha⟩,
    fun n hn => ⟨withCount_denotes t (shiftLeftBy_denotes t ha) hn,
      withCount_denotes t (shiftRightBy_denotes t ha) hn,
      withCount_denotes t (shiftRightUnsignedBy_denotes t ha) hn⟩,
    ⟨equals_iff ha hb,compareTo_eq t ha hb⟩,fun width => ⟨?_,?_⟩,
    ⟨bitLength_eq t ha,numberOfLeadingZeros_eq t ha,numberOfTrailingZeros_eq t ha⟩,
    fromInts_denotes t,fun bytes => ?_,toBytes_eq t ha,toInt_eq t ha⟩
  · split_ifs with h
    · exact toSigned_none t a h
    · exact toSigned_denotes t ha (by omega) (by omega)
  · split_ifs with h
    · exact toUnsigned_none t a h
    · exact toUnsigned_denotes t ha (by omega) (by omega)
  · split_ifs with h
    · exact fromBytes_none t h
    · exact fromBytes_denotes t (not_lt.1 h)

/-- On a host with 32-bit operators, `-1 * 5`. -/
theorem operations_exact_minus_five : (mul .js ⟨4194303,4194303,1048575⟩ ⟨5,0,0⟩).Denotes
      (bits ⟨4194303,4194303,1048575⟩*bits ⟨5,0,0⟩) ∧
    bits ⟨4194303,4194303,1048575⟩*bits ⟨5,0,0⟩ = -5 :=
  have ha : Canonical ⟨4194303,4194303,1048575⟩ := by constructor <;> norm_num
  have hb : Canonical ⟨5,0,0⟩ := by constructor <;> norm_num
  ⟨(operations_exact .js ha hb).1.2.2.2,by decide⟩

end Int64

end DartSdk.Fixnum
