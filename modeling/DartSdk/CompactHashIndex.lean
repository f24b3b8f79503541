import DartSdk.CompactHash
import DartSdk.LinearProbing

/-! What the packed pairs of `_index` say, and what a probe loop meets. `Inv` ties a table to the
list of its entries in order of insertion, with `none` for a deleted one. -/
namespace DartSdk.CompactHash
open LinearProbing Nat

variable {K V : Type} {equals : K → K → Bool} {hashCode : K → ℤ} {kind : Kind V}

lemma maskBits_eq (x : ℤ) (k : ℕ) : maskBits x (2^k-1) = (x%2^k).toNat := by
  have h : (((2^k-1 : ℕ) : ℤ)+1) = 2^k := by
    rw [Nat.cast_sub Nat.one_le_two_pow]
    simp
  rw [maskBits,h]

lemma maskBits_lt (x : ℤ) (k : ℕ) : maskBits x (2^k-1) < 2^k := by
  rw [maskBits_eq]
  have h1 := Int.emod_nonneg x (b := 2^k) (by positivity)
  zify
  omega

lemma firstProbe_lt (x : ℤ) (e : ℕ) : firstProbe x (2^e-1) < 2^e := by
  rw [firstProbe,and_two_pow_sub_one_eq_mod]
  exact mod_lt _ (by positivity)

lemma nextProbe_eq (i e : ℕ) : nextProbe i (2^e-1) = (i+1)%2^e := by
  rw [nextProbe,and_two_pow_sub_one_eq_mod]

/-- A pattern is a positive multiple of the number of entries that leaves room for one. -/
lemma hashPattern_eq {b k : ℕ} (hb : b ≤ 31) (hk : k+b ≤ 32) (x : ℤ) :
    ∃ q, 0 < q ∧ hashPattern x (2^k-1) (2^(b+1)) = q*2^b ∧ (q+1)*2^b ≤ 2^32 := by
  have hsize : 2^(b+1) >>> 1 = 2^b := by
    rw [shiftRight_eq_div_pow,pow_succ]
    simp
  have hlt := maskBits_lt x k
  unfold hashPattern
  simp only [hsize]
  split_ifs with h0
  · refine ⟨1,one_pos,(one_mul _).symm,?_⟩
    calc (1+1)*2^b = 2^(b+1) := by rw [Nat.pow_succ]; ring
      _ ≤ 2^32 := Nat.pow_le_pow_right (by norm_num) (by omega)
  · refine ⟨maskBits x (2^k-1),Nat.pos_of_ne_zero h0,rfl,?_⟩
    calc (maskBits x (2^k-1)+1)*2^b ≤ 2^k*2^b := Nat.mul_le_mul_right _ hlt
      _ = 2^(k+b) := (Nat.pow_add ..).symm
      _ ≤ 2^32 := Nat.pow_le_pow_right (by norm_num) hk

lemma xor_div {q q' b n : ℕ} (hn : n < 2^b) : (q*2^b ^^^ (q'*2^b+n))/2^b = q ^^^ q' := by
  rw [Nat.xor_div_two_pow,Nat.mul_div_cancel _ (by positivity),
    Nat.mul_comm q',Nat.mul_add_div (by positivity),Nat.div_eq_of_lt hn,Nat.add_zero]

/-- The pair of another pattern does not look like an entry, one of the same pattern is it. -/
lemma xor_lt_iff {q q' b n : ℕ} (hn : n < 2^b) : (q*2^b ^^^ (q'*2^b+n)) < 2^b ↔ q = q' := by
  rw [← Nat.div_eq_zero_iff_lt (by positivity),xor_div hn,Nat.xor_eq_zero_iff]

lemma xor_self_add {q b n : ℕ} (hn : n < 2^b) : (q*2^b ^^^ (q*2^b+n)) = n := by
  have hlt : (q*2^b ^^^ (q*2^b+n)) < 2^b := (xor_lt_iff hn).2 rfl
  rw [← mod_eq_of_lt hlt,xor_mod_two_pow]
  simp [mod_eq_of_lt hn]

lemma or_eq_add {q b n : ℕ} (hn : n < 2^b) : q*2^b ||| n = q*2^b+n := by
  rw [mul_comm,two_pow_add_eq_or_of_lt hn]

variable (kind)

lemma Kind.shift_eq (n : ℕ) : n <<< kind.shift = n*kind.step := by
  cases kind <;> simp [Kind.shift,Kind.step,shiftLeft_eq]

lemma Kind.shiftRight_eq (n : ℕ) : (n*kind.step) >>> kind.shift = n := by
  cases kind <;> simp [Kind.shift,Kind.step,shiftRight_eq_div_pow]

lemma Kind.step_pos : 0 < kind.step := by
  cases kind <;> simp [Kind.step]

lemma Kind.dataLength_eq (b : ℕ) : kind.dataLength (2^(b+1)) = 2^b*kind.step := by
  cases kind <;> simp [Kind.dataLength,Kind.step,pow_succ,shiftRight_eq_div_pow]

variable {kind}

namespace Table

def pair (t : Table K V) (i : ℕ) : ℕ := t.index.getD i kUnusedPair

def free (t : Table K V) (i : ℕ) : Bool := t.pair i == kUnusedPair

lemma getElem_index {t : Table K V} {i : ℕ} (hi : i < t.index.length) :
    t.index[i]? = some (t.pair i) := by
  simp [pair,hi]

/-- The loop stops at slot `i`, which refers to entry `n`. -/
def Stops (equals : K → K → Bool) (kind : Kind V) (t : Table K V) (key : K) (pattern i n : ℕ) : Prop :=
  1 < t.pair i ∧ pattern ^^^ t.pair i = n ∧ n < t.index.length >>> 1 ∧
    ∃ k, keyAt t.data (n <<< kind.shift) = some k ∧ equals key k = true

/-- The loop goes on behind slot `i`. -/
def Passes (equals : K → K → Bool) (kind : Kind V) (t : Table K V) (key : K) (pattern i : ℕ) : Prop :=
  t.pair i = kDeletedPair ∨ (1 < t.pair i ∧ (pattern ^^^ t.pair i < t.index.length >>> 1 →
    ∃ k, keyAt t.data ((pattern ^^^ t.pair i) <<< kind.shift) = some k ∧ equals key k = false))

end Table

section Probe
variable {t : Table K V} {key : K} {pattern i : ℕ}

variable (hi : i < t.index.length)
include hi

lemma probe_unused (h : t.pair i = kUnusedPair)
    (fuel : ℕ) (firstDeleted : Option ℕ) : probe equals kind t key pattern (fuel+1) i firstDeleted =
      some (.absent (firstDeleted.getD i)) := by
  simp [probe,Table.getElem_index hi,h]

lemma probe_stops {fuel n : ℕ} (h : t.Stops equals kind key pattern i n) (firstDeleted : Option ℕ) :
    probe equals kind t key pattern (fuel+1) i firstDeleted = some (.found i n) := by
  obtain ⟨hpair,hx,hlt,k,hk,heq⟩ := h
  have h0 : t.pair i ≠ kUnusedPair := by simp only [kUnusedPair]; omega
  have h1 : t.pair i ≠ kDeletedPair := by simp only [kDeletedPair]; omega
  simp [probe,Table.getElem_index hi,if_neg h0,if_neg h1,hx,if_pos hlt,hk,heq]

lemma probe_passes (h : t.Passes equals kind key pattern i)
    (fuel : ℕ) (firstDeleted : Option ℕ) : probe equals kind t key pattern (fuel+1) i firstDeleted =
      probe equals kind t key pattern fuel (nextProbe i (t.index.length-1))
        (if t.pair i = kDeletedPair then some (firstDeleted.getD i) else firstDeleted) := by
  rcases h with h | ⟨hpair,h⟩
  · simp [probe,Table.getElem_index hi,h,kUnusedPair,kDeletedPair]
  · have h0 : t.pair i ≠ kUnusedPair := by simp only [kUnusedPair]; omega
    have h1 : t.pair i ≠ kDeletedPair := by simp only [kDeletedPair]; omega
    simp only [probe,Table.getElem_index hi,if_neg h0,if_neg h1]
    split_ifs with hlt
    · obtain ⟨k,hk,heq⟩ := h hlt
      simp [hk,heq,Bool.false_eq_true]
    · rfl

omit hi

/-- A deleted slot that may serve as insertion point, within `d` steps from `i`. -/
def Reusable (t : Table K V) (c i d : ℕ) (o : Option ℕ) : Prop :=
  ∀ x, o = some x → ∃ j < d, x = (i+j)%c ∧ t.pair x = kDeletedPair

lemma probe_run {e : ℕ} (hsize : t.index.length = 2^e) (i d : ℕ) (hi : i < 2^e)
    (hpass : ∀ j < d, t.Passes equals kind key pattern ((i+j)%2^e)) (fuel : ℕ) :
    ∃ o, Reusable t (2^e) i d o ∧ probe equals kind t key pattern (d+fuel) i none =
      probe equals kind t key pattern fuel ((i+d)%2^e) o := by
  induction d generalizing fuel with
  | zero => exact ⟨none,fun x hx => by simp at hx,by rw [zero_add,add_zero,mod_eq_of_lt hi]⟩
  | succ d ih =>
    obtain ⟨o,ho,hrun⟩ := ih (fun j hj => hpass j (by omega)) (fuel+1)
    have hlt : (i+d)%2^e < t.index.length := (Nat.mod_lt _ (Nat.two_pow_pos e)).trans_eq hsize.symm
    have hnext : nextProbe ((i+d)%2^e) (t.index.length-1) = (i+(d+1))%2^e := by
      rw [hsize,nextProbe_eq,Nat.mod_add_mod,Nat.add_assoc]
    have hstep := probe_passes hlt (hpass d (by omega)) fuel o
    rw [hnext] at hstep
    refine ⟨_,?_,by rw [show d+1+fuel = d+(fuel+1) by omega,hrun,hstep]⟩
    intro x hx
    split_ifs at hx with hdel
    · cases hcase : o with
      | none =>
        rw [hcase] at hx
        obtain rfl : (i+d)%2^e = x := by simpa using hx
        exact ⟨d,by omega,rfl,hdel⟩
      | some y =>
        rw [hcase] at hx
        obtain rfl : y = x := by simpa using hx
        obtain ⟨j,hj,hy⟩ := ho y hcase
        exact ⟨j,by omega,hy⟩
    · obtain ⟨j,hj,hy⟩ := ho x hx
      exact ⟨j,by omega,hy⟩

lemma probe_found {e n : ℕ} (hsize : t.index.length = 2^e) {d : ℕ} (hi : i < 2^e) (hd : d < 2^e)
    (hpass : ∀ j < d, t.Passes equals kind key pattern ((i+j)%2^e))
    (hstop : t.Stops equals kind key pattern ((i+d)%2^e) n) :
    probe equals kind t key pattern (2^e) i none = some (.found ((i+d)%2^e) n) := by
  obtain ⟨o, -,hrun⟩ := probe_run hsize i d hi hpass (2^e-d)
  have hlt : (i+d)%2^e < t.index.length := (Nat.mod_lt _ (Nat.two_pow_pos e)).trans_eq hsize.symm
  obtain ⟨f,hf⟩ : ∃ f, 2^e-d = f+1 := ⟨2^e-d-1,by omega⟩
  rw [show 2^e = d+(2^e-d) by omega,hrun,hf,probe_stops hlt hstop,show d+(f+1) = 2^e by omega]

/-- Without such a slot it ends at an unused one, with an insertion point on its way. -/
lemma probe_absent {e : ℕ} (hsize : t.index.length = 2^e) {d : ℕ} (hi : i < 2^e) (hd : d < 2^e)
    (hpass : ∀ j < d, t.Passes equals kind key pattern ((i+j)%2^e))
    (hfree : t.pair ((i+d)%2^e) = kUnusedPair) :
    ∃ j ≤ d, probe equals kind t key pattern (2^e) i none = some (.absent ((i+j)%2^e)) ∧
      t.pair ((i+j)%2^e) ≤ 1 := by
  obtain ⟨o,ho,hrun⟩ := probe_run hsize i d hi hpass (2^e-d)
  have hlt : (i+d)%2^e < t.index.length := (Nat.mod_lt _ (Nat.two_pow_pos e)).trans_eq hsize.symm
  obtain ⟨f,hf⟩ : ∃ f, 2^e-d = f+1 := ⟨2^e-d-1,by omega⟩
  have hfuel : d+(2^e-d) = 2^e := by omega
  rw [hfuel,hf,probe_unused hlt hfree] at hrun
  cases ho' : o with
  | none => exact ⟨d,le_rfl,by rw [hrun,ho']; rfl,by simp [hfree,kUnusedPair]⟩
  | some x =>
    obtain ⟨j,hj,rfl,hp⟩ := ho x ho'
    exact ⟨j,hj.le,by rw [hrun,ho']; rfl,by simp [hp,kDeletedPair]⟩

end Probe

end DartSdk.CompactHash
