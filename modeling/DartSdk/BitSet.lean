import DartSdk.PackedBits

/-! `vm/bit_set.h` stores `N` bits in 64-bit words. The answer `-1` of a search is `none`. -/
namespace DartSdk
open List PackedBits

variable {x : BitVec 64} {r : Option ℕ}

/-- `data_` with as many words as `N` bits need. -/
structure BitSet (N : ℕ) where
  data : List (BitVec 64)
  length_eq : data.length = 1+(N-1)/64

namespace BitSet
variable {N : ℕ}

/-- `__builtin_ctzll`: number of zero bits below the lowest set bit. -/
def countTrailingZeros (x : BitVec 64) : ℕ := ((List.range 64).find? fun i => x.getLsbD i).getD 64

/-- `__builtin_clzll`: number of zero bits above the highest set bit. -/
def countLeadingZeros (x : BitVec 64) : ℕ :=
  ((List.range 64).find? fun i => x.getLsbD (63-i)).getD 64

variable (s : BitSet N)

def word (w : ℕ) : BitVec 64 := s.data.getD w 0

def setWord (w : ℕ) (x : BitVec 64) : BitSet N :=
  ⟨s.data.set w x,by rw [List.length_set,s.length_eq]⟩

def reset : BitSet N := ⟨List.replicate (1+(N-1)/64) 0,by simp⟩

def set (i : ℕ) (value : Bool) : BitSet N :=
  let mask : BitVec 64 := 1#64 <<< (i%64)
  if value then s.setWord (i/64) (s.word (i/64) ||| mask)
  else s.setWord (i/64) (s.word (i/64) &&& ~~~mask)

def test (i : ℕ) : Bool := s.word (i/64) &&& (1#64 <<< (i%64)) ≠ 0

/-- The loop of `Next` over the words after the first. -/
def nextWord (s : BitSet N) : ℕ → ℕ → Option ℕ
  | 0, _ => none
  | n+1, w =>
    if s.word w ≠ 0 then some (w*64+countTrailingZeros (s.word w)) else s.nextWord n (w+1)

def next (i : ℕ) : Option ℕ :=
  let w := i/64
  let bits := s.word w &&& (BitVec.allOnes 64 <<< (i%64))
  if bits ≠ 0 then some (w*64+countTrailingZeros bits)
  else s.nextWord (s.data.length-(w+1)) (w+1)

/-- Search backwards for a set bit in the first `w` words. -/
def lastWord (s : BitSet N) : ℕ → Option ℕ
  | 0 => none
  | w+1 =>
    if s.word w ≠ 0 then some ((w+1)*64-countLeadingZeros (s.word w)-1) else s.lastWord w

def last : Option ℕ := s.lastWord s.data.length

/-- The updated set and the new last bit; `none` is a failed `ASSERT`. -/
def clearLastAndFindPrevious (currentLast : ℕ) : Option (BitSet N × Option ℕ) :=
  if s.test currentLast && s.last = some currentLast then
    let w := currentLast/64
    let s := s.setWord w (s.word w ^^^ (1#64 <<< (currentLast%64)))
    some (s,s.lastWord (w+1))
  else none

lemma exists_bit (hx : x ≠ 0) : ∃ i < 64, x.getLsbD i = true := by
  by_contra h
  refine hx (BitVec.eq_of_getLsbD_eq fun i hi => ?_)
  simp only [not_exists,not_and] at h
  simp [h i hi]

lemma countTrailingZeros_spec (hx : x ≠ 0) : countTrailingZeros x < 64 ∧
    x.getLsbD (countTrailingZeros x) = true ∧ ∀ j < countTrailingZeros x, x.getLsbD j = false := by
  obtain ⟨i,hi,hxi⟩ := exists_bit hx
  unfold countTrailingZeros
  cases hf : (range 64).find? fun i => x.getLsbD i with
  | none =>
    simp only [find?_eq_none,mem_range] at hf
    simp [hf i hi] at hxi
  | some j =>
    simp only [find?_range_eq_some,mem_range,Bool.not_eq_true'] at hf
    exact ⟨hf.2.1,hf.1,hf.2.2⟩

lemma countLeadingZeros_spec (hx : x ≠ 0) : countLeadingZeros x < 64 ∧
    x.getLsbD (63-countLeadingZeros x) = true ∧
      ∀ j, 63-countLeadingZeros x < j → j < 64 → x.getLsbD j = false := by
  obtain ⟨i,hi,hxi⟩ := exists_bit hx
  unfold countLeadingZeros
  cases hf : (range 64).find? fun i => x.getLsbD (63-i) with
  | none =>
    simp only [find?_eq_none,mem_range] at hf
    have := hf (63-i) (by omega)
    rw [show 63-(63-i) = i by omega,hxi] at this
    simp at this
  | some k =>
    simp only [find?_range_eq_some,mem_range,Bool.not_eq_true'] at hf
    refine ⟨hf.2.1,hf.1,fun j hj hj' => ?_⟩
    simp only [Option.getD_some] at hj
    have := hf.2.2 (63-j) (by omega)
    rwa [show 63-(63-j) = j by omega] at this

section Bits
variable {s : BitSet N} {i j w : ℕ}

lemma test_eq (s : BitSet N) (i : ℕ) : s.test i = (s.word (i/64)).getLsbD (i%64) := by
  rw [test,Bool.eq_iff_iff,decide_eq_true_iff,and_mask_ne_zero (Nat.mod_lt i (by norm_num))]

lemma test_eq_bitAt (s : BitSet N) : s.test = bitAt s.data := funext s.test_eq

lemma test_setWord (hw : w < s.data.length) (x : BitVec 64) (j : ℕ) :
    (s.setWord w x).test j = if j/64 = w then x.getLsbD (j%64) else s.test j := by
  rw [test_eq_bitAt,test_eq_bitAt,setWord,bitAt_set hw]

@[simp] lemma reset_test (i : ℕ) : (reset : BitSet N).test i = false := by
  rw [test_eq_bitAt,reset,bitAt_replicate]

lemma set_test (hi : i < 64*s.data.length) (v : Bool) (j : ℕ) :
    (s.set i v).test j = if j = i then v else s.test j := by
  have hwrite : (s.set i v).data = s.data.set (i/64) (writeBit (s.word (i/64)) (i%64) v) := by
    cases v <;> rfl
  rw [test_eq_bitAt,hwrite,word,bitAt_write (by norm_num) (by omega),Function.update_apply,test_eq_bitAt]

lemma test_word (s : BitSet N) (w : ℕ) {b : ℕ} (hb : b < 64) :
    s.test (w*64+b) = (s.word w).getLsbD b := by
  rw [test_eq,show (w*64+b)/64 = w by omega,show (w*64+b)%64 = b by omega]

/-- `r` is the first bit of `s` among `i, …, n - 1`. -/
def IsFirst (s : BitSet N) (i n : ℕ) : Option ℕ → Prop
  | some j => i ≤ j ∧ j < n ∧ s.test j = true ∧ ∀ k, i ≤ k → k < j → s.test k = false
  | none => ∀ k, i ≤ k → k < n → s.test k = false

/-- `r` is the last bit of `s` below `n`. -/
def IsLast (s : BitSet N) (n : ℕ) : Option ℕ → Prop
  | some j => j < n ∧ s.test j = true ∧ ∀ k, j < k → k < n → s.test k = false
  | none => ∀ k < n, s.test k = false

lemma IsFirst.extend {n : ℕ} (h : IsFirst s j n r) (hij : i ≤ j)
    (hlow : ∀ k, i ≤ k → k < j → s.test k = false) : IsFirst s i n r := by
  cases r with
  | none =>
    intro k hk hkn
    rcases lt_or_ge k j with hkj | hkj
    · exact hlow k hk hkj
    · exact h k hkj hkn
  | some m =>
    obtain ⟨h1,h2,h3,h4⟩ := h
    refine ⟨hij.trans h1,h2,h3,fun k hk hkm => ?_⟩
    rcases lt_or_ge k j with hkj | hkj
    · exact hlow k hk hkj
    · exact h4 k hkj hkm

lemma nextWord_spec (s : BitSet N) (n : ℕ) : ∀ w, IsFirst s (w*64) ((w+n)*64) (s.nextWord n w) := by
  induction n with
  | zero =>
    intro w k hk hkn
    omega
  | succ n ih =>
    intro w
    unfold nextWord
    split_ifs with hw
    · obtain ⟨h1,h2,h3⟩ := countTrailingZeros_spec hw
      refine ⟨by omega,by omega,by rw [test_word s w h1,h2],fun k hk hkj => ?_⟩
      obtain ⟨b,rfl⟩ : ∃ b, k = w*64+b := ⟨k-w*64,by omega⟩
      rw [test_word s w (by omega),h3 b (by omega)]
    · have hrec := ih (w+1)
      rw [show w+1+n = w+(n+1) by omega] at hrec
      refine hrec.extend (by omega) fun k hk hkw => ?_
      obtain ⟨b,rfl⟩ : ∃ b, k = w*64+b := ⟨k-w*64,by omega⟩
      rw [test_word s w (by omega),not_not.1 hw]
      simp

lemma next_spec (hi : i < s.data.length*64) : IsFirst s i (s.data.length*64) (s.next i) := by
  have hm : i%64 < 64 := Nat.mod_lt _ (by norm_num)
  have hbits : ∀ b < 64, (s.word (i/64) &&& (BitVec.allOnes 64 <<< (i%64))).getLsbD b =
      (decide (i%64 ≤ b) && s.test (i/64*64+b)) := by
    intro b hb
    rw [test_word s _ hb,BitVec.getLsbD_and,BitVec.getLsbD_shiftLeft,BitVec.getLsbD_allOnes]
    by_cases h : i%64 ≤ b
    · simp [h,hb,show b-i%64 < 64 by omega]
    · simp [h]
  unfold next
  simp only
  split_ifs with hw
  · obtain ⟨h1,h2,h3⟩ := countTrailingZeros_spec hw
    rw [hbits _ h1,Bool.and_eq_true,decide_eq_true_eq] at h2
    refine ⟨by omega,by omega,h2.2,fun k hk hkj => ?_⟩
    obtain ⟨b,rfl⟩ : ∃ b, k = i/64*64+b := ⟨k-i/64*64,by omega⟩
    have := h3 b (by omega)
    rw [hbits b (by omega)] at this
    simpa [show i%64 ≤ b by omega] using this
  · have hrec := nextWord_spec s (s.data.length-(i/64+1)) (i/64+1)
    rw [show i/64+1+(s.data.length-(i/64+1)) = s.data.length by omega] at hrec
    refine hrec.extend (by omega) fun k hk hkw => ?_
    obtain ⟨b,rfl⟩ : ∃ b, k = i/64*64+b := ⟨k-i/64*64,by omega⟩
    have := hbits b (by omega)
    rw [not_not.1 hw] at this
    simpa [show i%64 ≤ b by omega] using this.symm

lemma lastWord_spec (s : BitSet N) (w : ℕ) : IsLast s (w*64) (s.lastWord w) := by
  induction w with
  | zero =>
    intro k hk
    omega
  | succ w ih =>
    unfold lastWord
    split_ifs with hw
    · obtain ⟨h1,h2,h3⟩ := countLeadingZeros_spec hw
      have hidx : (w+1)*64-countLeadingZeros (s.word w)-1 =
          w*64+(63-countLeadingZeros (s.word w)) := by omega
      rw [hidx]
      refine ⟨by omega,by rw [test_word s w (by omega),h2],fun k hk hkn => ?_⟩
      obtain ⟨b,rfl⟩ : ∃ b, k = w*64+b := ⟨k-w*64,by omega⟩
      rw [test_word s w (by omega),h3 b (by omega) (by omega)]
    · have hzero : ∀ k, w*64 ≤ k → k < (w+1)*64 → s.test k = false := by
        intro k hk hkn
        obtain ⟨b,rfl⟩ : ∃ b, k = w*64+b := ⟨k-w*64,by omega⟩
        rw [test_word s w (by omega),not_not.1 hw]
        simp
      cases hr : s.lastWord w with
      | none =>
        rw [hr] at ih
        intro k hk
        rcases lt_or_ge k (w*64) with h | h
        · exact ih k h
        · exact hzero k h hk
      | some j =>
        rw [hr] at ih
        obtain ⟨h1,h2,h3⟩ := ih
        refine ⟨by omega,h2,fun k hk hkn => ?_⟩
        rcases lt_or_ge k (w*64) with h | h
        · exact h3 k hk h
        · exact hzero k h hkn

lemma last_unique {n : ℕ} (hi : i < n) (ht : s.test i = true)
    (hmax : ∀ k, i < k → k < n → s.test k = false) (hr : IsLast s n r) : r = some i := by
  cases r with
  | none =>
    have := hr i hi
    simp [ht] at this
  | some j =>
    obtain ⟨h1,h2,h3⟩ := hr
    rcases lt_trichotomy i j with h | h | h
    · have := hmax j h h1
      simp [h2] at this
    · rw [h]
    · have := h3 i h hi
      simp [ht] at this

lemma IsLast.extend {n m : ℕ} (h : IsLast s n r)
    (hhigh : ∀ k, n ≤ k → k < m → s.test k = false) (hnm : n ≤ m) : IsLast s m r := by
  cases r with
  | none =>
    intro k hk
    rcases lt_or_ge k n with hkn | hkn
    · exact h k hkn
    · exact hhigh k hkn hk
  | some j =>
    obtain ⟨h1,h2,h3⟩ := h
    refine ⟨by omega,h2,fun k hk hkm => ?_⟩
    rcases lt_or_ge k n with hkn | hkn
    · exact h3 k hk hkn
    · exact hhigh k hkn hkm

lemma clearLastAndFindPrevious_spec (hi : i < s.data.length*64) (ht : s.test i = true)
    (hmax : ∀ k, i < k → k < s.data.length*64 → s.test k = false) :
    ∃ t r, s.clearLastAndFindPrevious i = some (t,r) ∧ t.data.length = s.data.length ∧
      (∀ j, t.test j = if j = i then false else s.test j) ∧ IsLast t (s.data.length*64) r := by
  have hw : i/64 < s.data.length := by omega
  have hm : i%64 < 64 := Nat.mod_lt _ (by norm_num)
  have hlast : s.last = some i := last_unique hi ht hmax (lastWord_spec s s.data.length)
  have htest : ∀ j, (s.setWord (i/64) (s.word (i/64) ^^^ (1#64 <<< (i%64)))).test j =
      if j = i then false else s.test j := by
    intro j
    have hij : j = i ↔ j/64 = i/64 ∧ j%64 = i%64 := by omega
    rw [test_setWord hw]
    split_ifs with h1 h2 h2
    · rw [h2,BitVec.getLsbD_xor,getLsbD_mask hm,← test_eq,ht]
      simp
    · have : j%64 ≠ i%64 := fun h => h2 (hij.2 ⟨h1,h⟩)
      rw [BitVec.getLsbD_xor,getLsbD_mask hm,test_eq s j,h1]
      simp [this]
    · exact absurd (hij.1 h2).1 h1
    · rfl
  refine ⟨_,_,by simp only [clearLastAndFindPrevious,ht,hlast]; rfl,by simp [setWord],
    htest,(lastWord_spec _ (i/64+1)).extend (fun k hk hkn => ?_) (by omega)⟩
  rw [htest,if_neg (by omega),hmax k (by omega) hkn]

end Bits
end BitSet
end DartSdk
