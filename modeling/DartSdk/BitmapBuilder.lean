import DartSdk.PackedBits

/-! The bitmaps of `vm/bitmap.h`: an unbounded array of bits whose length may run ahead of its
backing store. `none` is an access outside the store. -/
namespace DartSdk
open PackedBits List Function

def kInitialSizeInBytes : ℕ := 16

def kIncrementSizeInBytes : ℕ := 16

structure BitmapBuilder where
  length : ℕ
  data : List (BitVec 8)
  deriving DecidableEq

namespace BitmapBuilder

def start : BitmapBuilder := ⟨0,.replicate kInitialSizeInBytes 0⟩

section Operations
variable (b : BitmapBuilder) (bitOffset : ℕ) (value : Bool)

def inRange : Bool := bitOffset < b.length

def getBit : Option Bool :=
  if b.inRange bitOffset then
    b.data[bitOffset/8]?.map fun byte => byte &&& (1#8 <<< (bitOffset%8)) ≠ 0
  else some false

def setBit : Option BitmapBuilder :=
  if b.inRange bitOffset then
    b.data[bitOffset/8]?.map fun byte =>
      { b with data := b.data.set (bitOffset/8) (writeBit byte (bitOffset%8) value) }
  else none

def get : Option Bool :=
  if b.inRange bitOffset ∧ bitOffset/8 < b.data.length then b.getBit bitOffset else some false

/-- Grow the backing store to hold the bit, by whole increments. -/
def grow : BitmapBuilder :=
  if b.data.length ≤ bitOffset/8 then
    let size := (bitOffset/8+1+(kIncrementSizeInBytes-1))/kIncrementSizeInBytes *
      kIncrementSizeInBytes
    { b with data := b.data ++ .replicate (size-b.data.length) 0 }
  else b

def set : Option BitmapBuilder :=
  if b.inRange bitOffset then b.setBit bitOffset value
  else
    let b := { b with length := bitOffset+1 }
    if value then (b.grow bitOffset).setBit bitOffset value else some b

def setRange (min max : ℕ) : Option BitmapBuilder :=
  (List.range' min (max+1-min)).foldlM (fun b i => b.set i value) b

/-- A shorter length clears the bits beyond it. -/
def setLength (newLength : ℕ) : BitmapBuilder :=
  if newLength < b.length then
    ⟨newLength,b.data.mapIdx fun i byte =>
      if i < newLength/8 then byte
      else if i = newLength/8 then byte &&& .ofNat 8 (2^(newLength%8)-1)
      else 0⟩
  else { b with length := newLength }

end Operations

inductive Op
  | set (bitOffset : ℕ) (value : Bool)
  | setRange (min max : ℕ) (value : Bool)
  | setLength (newLength : ℕ)

def step (b : BitmapBuilder) : Op → Option BitmapBuilder
  | .set i v => b.set i v
  | .setRange min max v => b.setRange v min max
  | .setLength n => some (b.setLength n)

/-- What is written to a bit stays until the bit is outside the length. -/
structure BitArray where
  length : ℕ
  bits : ℕ → Bool
  outside : ∀ i, length ≤ i → bits i = false

namespace BitArray

def empty : BitArray := ⟨0,fun _ => false,fun _ _ => rfl⟩

variable (a : BitArray)

def set (i : ℕ) (v : Bool) : BitArray where
  length := max a.length (i+1)
  bits := Function.update a.bits i v
  outside j hj := by
    rw [Function.update_of_ne (by omega),a.outside j (by omega)]

def setLength (n : ℕ) : BitArray where
  length := n
  bits i := a.bits i && i < n
  outside i hi := by simp [hi]

def step : Op → BitArray
  | .set i v => a.set i v
  | .setRange min max v => (List.range' min (max+1-min)).foldl (fun a i => a.set i v) a
  | .setLength n => a.setLength n

end BitArray

structure Represents (b : BitmapBuilder) (a : BitArray) : Prop where
  length : b.length = a.length
  bits : ∀ i, bitAt b.data i = a.bits i

variable {b b' : BitmapBuilder} {a : BitArray} {i : ℕ} {v : Bool}

lemma Represents.get (h : Represents b a) (i : ℕ) : b.get i = some (a.bits i) := by
  rw [← h.bits,BitmapBuilder.get,getBit,inRange]
  by_cases hl : i < b.length
  · by_cases hd : i/8 < b.data.length
    · have hmod : i%8 < 8 := Nat.mod_lt i (by decide)
      simp only [hl,hd,getElem?_eq_getElem hd,Option.map_some,and_mask_ne_zero hmod]
      simp [bitAt,hd]
    · simp [hd,bitAt]
  · have hfalse := (h.bits i).trans (a.outside i (h.length ▸ not_lt.1 hl))
    simpa [hl] using hfalse

lemma setBit_spec (hl : i < b.length) (hd : i/8 < b.data.length) (v : Bool) :
    ∃ b', b.setBit i v = some b' ∧ b'.length = b.length ∧ b'.data.length = b.data.length ∧
      bitAt b'.data = update (bitAt b.data) i v := by
  rw [setBit,inRange,decide_eq_true hl,if_pos rfl,getElem?_eq_getElem hd]
  refine ⟨_,rfl,rfl,length_set,?_⟩
  rw [← bitAt_write (by decide) hd,getD_eq_getElem _ _ hd]

lemma grow_spec (b : BitmapBuilder) (i : ℕ) : i/8 < (b.grow i).data.length ∧
    (b.grow i).length = b.length ∧ bitAt (b.grow i).data = bitAt b.data := by
  unfold grow
  split_ifs with h
  · refine ⟨?_,rfl,funext fun j => ?_⟩
    · simp only [kIncrementSizeInBytes,length_append,length_replicate]
      omega
    · rw [bitAt,bitAt,getD,getD,getElem?_append]
      split_ifs with hj
      · rfl
      · rw [getElem?_replicate,getElem?_eq_none (not_lt.1 hj)]
        split_ifs <;> rfl
  · exact ⟨by omega,rfl,rfl⟩

variable (h : Represents b a)
include h

/-- A bit that the length has reached must be in the store. -/
lemma Represents.set (hcover : i < b.length → i/8 < b.data.length) (v : Bool) : ∃ b', b.set i v =
      some b' ∧ Represents b' (a.set i v) ∧ (i < b.length → b'.data.length = b.data.length) := by
  have hupdate : update (bitAt b.data) i v = (a.set i v).bits :=
    congrArg (update · i v) (funext h.bits)
  by_cases hl : i < b.length
  · obtain ⟨b',hs,hb,hd,hbits⟩ := setBit_spec hl (hcover hl) v
    have hlength : b'.length = (a.set i v).length :=
      hb.trans (h.length.trans (max_eq_left (h.length ▸ hl)).symm)
    exact ⟨b',by simpa [BitmapBuilder.set,inRange,hl] using hs,⟨hlength,congrFun (hbits.trans hupdate)⟩,
      fun _ => hd⟩
  · have hlength : i+1 = (a.set i v).length :=
      (max_eq_right ((h.length ▸ not_lt.1 hl).trans i.le_succ)).symm
    cases v with
    | false =>
      have hsame : update (bitAt b.data) i false = bitAt b.data :=
        update_eq_self_iff.2 ((h.bits i).trans (a.outside i (h.length ▸ not_lt.1 hl))).symm
      exact ⟨{ b with length := i+1 },by simp [BitmapBuilder.set,inRange,hl],
        ⟨hlength,congrFun (hsame.symm.trans hupdate)⟩,fun h => absurd h hl⟩
    | true =>
      obtain ⟨hin,hgrow,hsame⟩ := grow_spec { b with length := i+1 } i
      obtain ⟨b',hs,hb,-,hbits⟩ := setBit_spec (hgrow ▸ i.lt_succ_self) hin true
      rw [hsame] at hbits
      exact ⟨b',by simpa [BitmapBuilder.set,inRange,hl] using hs,
        ⟨hb.trans (hgrow.trans hlength),congrFun (hbits.trans hupdate)⟩,fun h => absurd h hl⟩

omit h in
lemma set_none (hl : i < b.length) (hd : ¬ i/8 < b.data.length) (v : Bool) : b.set i v = none := by
  simp [BitmapBuilder.set,setBit,inRange,hl,not_lt.1 hd]

lemma Represents.setLength (n : ℕ) : Represents (b.setLength n) (a.setLength n) := by
  have hlength := h.length
  unfold BitmapBuilder.setLength
  split_ifs with hn
  · refine ⟨rfl,fun i => ?_⟩
    rw [show (a.setLength n).bits i = (a.bits i && i < n) from rfl,← h.bits,bitAt,bitAt,
      getD,getD,getElem?_mapIdx]
    cases b.data[i/8]? with
    | none => simp
    | some byte =>
      rw [Option.map_some,Option.getD_some,Option.getD_some]
      split_ifs with h₁ h₂
      · simp [show i < n by omega]
      · have hk : i%8 < 8 := Nat.mod_lt i (by decide)
        have hiff : i%8 < n%8 ↔ i < n := by omega
        rw [BitVec.getLsbD_and,BitVec.getLsbD_ofNat,Nat.testBit_two_pow_sub_one]
        simp [hk,hiff]
      · simp [show ¬ i < n by omega]
  · refine ⟨rfl,fun i => (h.bits i).trans ?_⟩
    by_cases hi : i < n
    · simp [BitArray.setLength,hi]
    · simpa [BitArray.setLength,hi] using a.outside i (by omega)

/-- Every bit from `lo` on is in the store, if it is among the next `n` and within the length. -/
def Covers (b : BitmapBuilder) (lo n : ℕ) : Prop :=
  ∀ i, lo ≤ i → i < lo+n → i < b.length → i/8 < b.data.length

lemma Represents.setRange (lo n : ℕ) (v : Bool) :
    (b.Covers lo n → ∃ b', (range' lo n).foldlM (fun b i => b.set i v) b = some b' ∧
      Represents b' ((range' lo n).foldl (fun a i => a.set i v) a)) ∧
    (¬ b.Covers lo n → (range' lo n).foldlM (fun b i => b.set i v) b = none) := by
  induction n generalizing lo a b with
  | zero => exact ⟨fun _ => ⟨b,rfl,h⟩,fun hc => absurd (fun i hi hlt => absurd hi (by omega)) hc⟩
  | succ n ih =>
    rw [range'_succ,foldlM_cons,foldl_cons]
    by_cases hfirst : lo < b.length → lo/8 < b.data.length
    · obtain ⟨b₁,hs,h₁,hsize⟩ := h.set hfirst v
      -- the store grows only where the length does
      have hcovers : b.Covers lo (n+1) ↔ b₁.Covers (lo+1) n := by
        have h₁l : b₁.length = max b.length (lo+1) := by rw [h₁.length,h.length]; rfl
        constructor
        · intro hc i hi hlt hl
          rw [hsize (by omega)]
          exact hc i (by omega) (by omega) (by omega)
        · intro hc i hi hlt hl
          obtain rfl | hne := eq_or_ne i lo
          · exact hfirst hl
          · rw [← hsize (by omega)]
            exact hc i (by omega) (by omega) (by omega)
      rw [hs,hcovers]
      exact ih h₁ (lo+1)
    · obtain ⟨hl,hd⟩ := Classical.not_imp.1 hfirst
      rw [set_none hl hd]
      exact ⟨fun hc => absurd (hc lo le_rfl (by omega) hl) hd,fun _ => rfl⟩

/-- No bit that is set lies within the length and beyond the store. -/
def Covered (b : BitmapBuilder) : Op → Prop
  | .set i _ => b.Covers i 1
  | .setRange min max _ => b.Covers min (max+1-min)
  | .setLength _ => True

lemma Represents.step (op : Op) :
    (b.Covered op → ∃ b', b.step op = some b' ∧ Represents b' (a.step op)) ∧
      (¬ b.Covered op → b.step op = none) := by
  cases op with
  | set i v => simpa [BitmapBuilder.step,BitArray.step,Covered] using h.setRange i 1 v
  | setRange min max v => exact h.setRange min _ v
  | setLength n => exact ⟨fun _ => ⟨_,rfl,h.setLength n⟩,fun hc => absurd trivial hc⟩

omit h

lemma Represents.run (ops : List Op) (h : Represents b a)
    (hrun : ops.foldlM BitmapBuilder.step b = some b') :
    Represents b' (ops.foldl BitArray.step a) := by
  induction ops generalizing a b with
  | nil => exact Option.some.inj hrun ▸ h
  | cons op ops ih =>
    obtain ⟨hcovered,hnone⟩ := h.step op
    by_cases hc : b.Covered op
    · obtain ⟨b₁,hs,h₁⟩ := hcovered hc
      rw [foldlM_cons,hs] at hrun
      exact ih h₁ hrun
    · rw [foldlM_cons,hnone hc] at hrun
      cases hrun

lemma start_represents : Represents start .empty := ⟨rfl,bitAt_replicate _⟩

/-- Whatever history led to a bitmap, its length and bits are those of the array, and the next
operation goes on so, without leaving the store, exactly if its bits are covered. -/
theorem history_covered_iff (ops : List Op) (b : BitmapBuilder) (hrun : ops.foldlM step start = some b) :
    b.length = (ops.foldl BitArray.step .empty).length ∧
      (∀ i, b.get i = some ((ops.foldl BitArray.step .empty).bits i)) ∧
      ∀ op, (∃ b', b.step op = some b' ∧
        Represents b' ((ops.foldl BitArray.step .empty).step op)) ↔ b.Covered op := by
  have h := start_represents.run ops hrun
  refine ⟨h.length,h.get,fun op => ⟨?_,(h.step op).1⟩⟩
  rintro ⟨b',hs,-⟩
  by_contra hc
  rw [(h.step op).2 hc] at hs
  cases hs

theorem history_covered_sample : ∃ b, [Op.set 3 true,.setLength 4].foldlM step start = some b ∧
    b.get 3 = some true := by
  obtain ⟨b,hb⟩ := Option.isSome_iff_exists.1
    (show ([Op.set 3 true,.setLength 4].foldlM step start).isSome by decide)
  exact ⟨b,hb,((history_covered_iff _ b hb).2.1 3).trans (by decide)⟩

/-- The length of 200 bits is beyond the store of 128, so bit 150 is written outside it. -/
theorem set_outside : [Op.setLength 200,.set 150 true].foldlM step start = none := by decide

end BitmapBuilder

end DartSdk
