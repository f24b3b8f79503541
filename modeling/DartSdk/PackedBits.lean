import Mathlib

/-! Bits that are packed into the words of a list and written through masks. -/
namespace DartSdk.PackedBits
open BitVec

variable {w i j r k : ℕ} {x : BitVec w} {data : List (BitVec w)} {v : Bool}

/-- Bit `i`; the bits beyond the words are clear. -/
def bitAt (data : List (BitVec w)) (i : ℕ) : Bool := (data.getD (i/w) 0).getLsbD (i%w)

lemma getLsbD_mask (hr : r < w) (k : ℕ) : (1#w <<< r).getLsbD k = decide (k = r) := by
  rw [getLsbD_shiftLeft,getLsbD_one]
  by_cases h : k = r
  · simp [h,hr,Nat.zero_lt_of_lt hr]
  · simp [h]
    omega

lemma and_mask_ne_zero (hr : r < w) : x &&& (1#w <<< r) ≠ 0 ↔ x.getLsbD r = true := by
  constructor
  · contrapose!
    refine fun h => eq_of_getLsbD_eq fun k _ => ?_
    by_cases hk : k = r <;> simp [getLsbD_mask hr,hk,h]
  · intro h h0
    have := congrArg (getLsbD · r) h0
    simp [getLsbD_mask hr,h] at this

/-- Set or clear one bit of a word. -/
def writeBit (x : BitVec w) (r : ℕ) (v : Bool) : BitVec w :=
  if v then x ||| (1#w <<< r) else x &&& ~~~(1#w <<< r)

lemma getLsbD_writeBit (hr : r < w) (hk : k < w) :
    (writeBit x r v).getLsbD k = if k = r then v else x.getLsbD k := by
  cases v with
  | true =>
    rw [writeBit,if_pos rfl,getLsbD_or,getLsbD_mask hr]
    by_cases h : k = r <;> simp [h]
  | false =>
    rw [writeBit,if_neg Bool.false_ne_true,getLsbD_and,getLsbD_not,getLsbD_mask hr]
    by_cases h : k = r <;> simp [h,hk]

lemma bitAt_set (hi : k < data.length) (x : BitVec w) (j : ℕ) :
    bitAt (data.set k x) j = if j/w = k then x.getLsbD (j%w) else bitAt data j := by
  unfold bitAt
  split_ifs with h
  · simp [h,hi]
  · simp [List.getElem?_set_ne (Ne.symm h)]

lemma bitAt_write (hw : 0 < w) (hi : i/w < data.length) (v : Bool) :
    bitAt (data.set (i/w) (writeBit (data.getD (i/w) 0) (i%w) v)) =
      Function.update (bitAt data) i v := by
  funext j
  rw [bitAt_set hi,Function.update_apply]
  have hiff : j/w = i/w → (j%w = i%w ↔ j = i) := fun h =>
    ⟨fun hm => by rw [← Nat.div_add_mod j w,h,hm,Nat.div_add_mod],fun hj => by rw [hj]⟩
  split_ifs with h hj hj
  · rw [getLsbD_writeBit (Nat.mod_lt i hw) (Nat.mod_lt j hw),if_pos ((hiff h).2 hj)]
  · rw [getLsbD_writeBit (Nat.mod_lt i hw) (Nat.mod_lt j hw),if_neg fun hm => hj ((hiff h).1 hm),
      ← h,bitAt]
  · exact absurd (congrArg (·/w) hj) h
  · rfl

@[simp] lemma bitAt_replicate (n i : ℕ) : bitAt (List.replicate n (0 : BitVec w)) i = false := by
  by_cases h : i/w < n <;> simp [bitAt,h]

end DartSdk.PackedBits
