import DartSdk.Integers
import DartSdk.TruncatedArithmetic

/-! The tests before an operation exclude the pairs of operands whose result leaves the range, with
one exception: `kMOD` divides the smallest `Mint` by -1. -/
namespace DartSdk.Integers

open Utils TruncatedArithmetic Int Integer ArithmeticKind

section Machine
variable {w : ℕ} {x y : ℤ}

lemma isInt_iff : isInt w x = true ↔ -2^(w-1) ≤ x ∧ x < 2^(w-1) := by
  unfold isInt
  simp

lemma wrap_eq (hw : 0 < w) (h : isInt w x) : wrap w x = x := by
  obtain ⟨n,rfl⟩ : ∃ n, w = n+1 := ⟨w-1,by omega⟩
  rw [isInt_iff,Nat.add_sub_cancel] at h
  unfold wrap
  rw [BitVec.toInt_ofInt]
  refine bmod_eq_of_le_mul_two ?_ ?_
  · push_cast
    rw [pow_succ]
    omega
  · push_cast
    rw [pow_succ]
    omega

lemma isInt_sixtyFour : isInt 64 x = true ↔ IsInt64 x := by
  rw [isInt_iff]
  unfold IsInt64 kMinInt64 kMaxInt64
  omega

lemma wrap_sixtyFour (x : ℤ) : wrap 64 x = wrap64 x := by
  unfold wrap wrap64
  rw [BitVec.toInt_ofInt,bmod_def]
  omega

lemma divide_eq (hy : y ≠ 0) (hx : isInt w x) (h : x ≠ -2^(w-1) ∨ y ≠ -1) :
    divide w x y = some (x.tdiv y) := by
  refine if_pos ⟨hy,?_⟩
  rw [isInt_iff] at hx ⊢
  by_cases h1 : y = 1
  · rw [h1,Int.tdiv_one]
    exact hx
  by_cases hneg : y = -1
  · rw [hneg,Int.tdiv_neg,Int.tdiv_one]
    omega
  · -- The quotient is at most half of the dividend.
    have hhalf : (x.tdiv y).natAbs ≤ x.natAbs/2 := by
      rw [Int.natAbs_tdiv]
      exact Nat.div_le_div_left (by omega) (by norm_num)
    omega

lemma isInt_of_divide {q : ℤ} (h : divide w x y = some q) : isInt w q := by
  unfold divide at h
  split_ifs at h with hq
  exact Option.some.inj h ▸ hq.2

lemma modulo_eq (hw : 0 < w) (hy : y ≠ 0) (hx : isInt w x) (hyw : isInt w y)
    (h : x ≠ -2^(w-1) ∨ y ≠ -1) : modulo w x y = some (x%y) := by
  have he := emod_nonneg x hy
  have hlt := emod_lt_abs x hy
  rw [abs_eq_natAbs] at hlt
  have hwrap : wrap w (x%y) = x%y := by
    refine wrap_eq hw ?_
    rw [isInt_iff] at hyw ⊢
    omega
  unfold modulo remainder
  rw [divide_eq hy hx h,Option.map_some,tmod_eq_emod]
  simp only [some_bind]
  by_cases hdvd : 0 ≤ x ∨ y ∣ x
  · rw [if_pos hdvd,Nat.cast_zero,sub_zero,if_neg (by omega)]
    rfl
  · rw [if_neg hdvd,if_pos (by omega)]
    by_cases hneg : y < 0
    · rw [if_pos hneg,(by omega : x%y-(y.natAbs : ℤ)-y = x%y),hwrap]
      rfl
    · rw [if_neg hneg,(by omega : x%y-(y.natAbs : ℤ)+y = x%y),hwrap]
      rfl

lemma isInt64_emod (hy : y ≠ 0) (hyw : IsInt64 y) : IsInt64 (x%y) := by
  have he := emod_nonneg x hy
  have hlt := emod_lt_abs x hy
  rw [abs_eq_natAbs] at hlt
  unfold IsInt64 kMinInt64 kMaxInt64 at *
  omega

lemma natAbs_lt_highestBit (hx : IsInt64 x) : x.natAbs < 2^(highestBit x.natAbs+1) := by
  by_cases h0 : x.natAbs = 0
  · rw [h0]
    positivity
  · unfold IsInt64 kMinInt64 kMaxInt64 at hx
    rw [highestBit_eq_log2 h0 (by omega)]
    exact Nat.lt_log2_self

lemma product_isInt64 (hx : IsInt64 x) (hy : IsInt64 y) (h : productFits x y) : IsInt64 (x*y) := by
  have hlt : (x*y).natAbs < 2^63 := by
    calc (x*y).natAbs = x.natAbs*y.natAbs := natAbs_mul x y
      _ < 2^(highestBit x.natAbs+1)*2^(highestBit y.natAbs+1) :=
          Nat.mul_lt_mul'' (natAbs_lt_highestBit hx) (natAbs_lt_highestBit hy)
      _ = 2^(highestBit x.natAbs+1+(highestBit y.natAbs+1)) := (pow_add ..).symm
      _ ≤ 2^63 := by
          unfold productFits at h
          exact Nat.pow_le_pow_right (by norm_num) (by omega)
  unfold IsInt64 kMinInt64 kMaxInt64
  omega

/-- A word operation that works on each bit agrees with the operation on integers. -/
lemma bitVec_toInt (hw : 0 < w) {op : BitVec w → BitVec w → BitVec w} {f : ℤ → ℤ → ℤ}
    {g : Bool → Bool → Bool} (hop : ∀ u v i, (op u v).getLsbD i = g (u.getLsbD i) (v.getLsbD i))
    (hf : ∀ u v i, (f u v).testBit i = g (u.testBit i) (v.testBit i)) (h : isInt w (f x y)) :
    (op (BitVec.ofInt w x) (BitVec.ofInt w y)).toInt = f x y := by
  have hlsb : ∀ (z : ℤ) i, (BitVec.ofInt w z).getLsbD i = (decide (i < w) && z.testBit i) := by
    intro z i
    rw [BitVec.getLsbD,BitVec.toNat_ofInt]
    exact testBit_toNat_emod z w i
  have heq : op (BitVec.ofInt w x) (BitVec.ofInt w y) = BitVec.ofInt w (f x y) := by
    refine BitVec.eq_of_getLsbD_eq fun i hi => ?_
    rw [hop,hlsb,hlsb,hlsb,hf,decide_eq_true hi,Bool.true_and,Bool.true_and,Bool.true_and]
  rw [heq]
  exact wrap_eq hw h

end Machine

section Values
variable {a : Arch} {value : ℤ}

lemma SmiIsValid.isInt (h : SmiIsValid a value) : isInt (kBitsPerWord a) value := by
  rw [isInt_iff]
  cases a <;> simp only [SmiIsValid,kSmiBits,kBitsPerWord] at h ⊢ <;> omega

lemma SmiIsValid.isInt64 (h : SmiIsValid a value) : IsInt64 value := by
  unfold IsInt64 kMinInt64 kMaxInt64
  cases a <;> simp only [SmiIsValid,kSmiBits,kBitsPerWord] at h ⊢ <;> omega

lemma kBitsPerWord_pos (a : Arch) : 0 < kBitsPerWord a := by
  cases a <;> simp [kBitsPerWord]

lemma new_spec (h : IsInt64 value) : (new a value).toInt = value ∧
    ((new a value).isSmi = true ↔ SmiIsValid a value) := by
  have hw : wrap 64 value = value := wrap_eq (by norm_num) (isInt_sixtyFour.mpr h)
  unfold new
  split_ifs with hs <;> rw [hw] at hs
  · exact ⟨hw,fun _ => hs,fun _ => rfl⟩
  · exact ⟨hw,fun hf => absurd hf (by simp [isSmi]),fun hv => absurd hv hs⟩

lemma Integer.isInt64 {z : Integer a} (h : z.isBigint = false) : IsInt64 z.toInt := by
  cases z with
  | smi value valid => exact valid.isInt64
  | mint value valid => exact valid
  | bigint value => simp [isBigint] at h

end Values

def ArithmeticKind.exact (left right : ℤ) : ArithmeticKind → ℤ
  | .add => left+right
  | .sub => left-right
  | .mul => left*right
  | .truncDiv => left.tdiv right
  | .mod => left%right

def BitKind.exact (left right : ℤ) : BitKind → ℤ
  | .bitAnd => Int.land left right
  | .bitOr => Int.lor left right
  | .bitXor => Int.xor left right

inductive Operation
  | arithmetic (kind : ArithmeticKind)
  | bitwise (kind : BitKind)

section Operations
variable {a : Arch}

def Operation.apply : Operation → Integer a → Integer a → Option (Option (Integer a))
  | .arithmetic kind => arithmeticOp kind
  | .bitwise kind => bitOp kind

def Operation.exact (left right : ℤ) : Operation → ℤ
  | .arithmetic kind => kind.exact left right
  | .bitwise kind => kind.exact left right

/-- The operands of an operation: divisors are not zero. -/
def Operation.Defined (right : ℤ) : Operation → Prop
  | .arithmetic .truncDiv => right ≠ 0
  | .arithmetic .mod => right ≠ 0
  | _ => True

/-- An operation returns the exact result, as a `Smi` exactly if it fits, or it returns `null`
because the result does not fit or because the test before a multiplication does not tell. -/
def ExactOrDeferred (op : Operation) (left right : Integer a) : Prop :=
  (∃ z, op.apply left right = some (some z) ∧ z.toInt = op.exact left.toInt right.toInt ∧
    (z.isSmi = true ↔ SmiIsValid a (op.exact left.toInt right.toInt))) ∨
  op.apply left right = some none ∧
    (¬ IsInt64 (op.exact left.toInt right.toInt) ∨
      op = .arithmetic .mul ∧ ¬ productFits left.toInt right.toInt)

variable (kind : ArithmeticKind)

/-- The division that traps. -/
def Traps (left right : ℤ) : Prop :=
  kind = .mod ∧ left = kMinInt64 ∧ right = -1

variable {l r : ℤ}

/-- The sign tests find the sums and differences that leave the range. -/
lemma add_test (hl : IsInt64 l) (hr : IsInt64 r) :
    ((l < 0) ≠ (r < 0) ∨ (wrap 64 (l+r) < 0) = (l < 0)) ↔ IsInt64 (l+r) := by
  unfold IsInt64 kMinInt64 kMaxInt64 at *
  rw [wrap_sixtyFour,wrap64,ne_eq,eq_iff_iff,eq_iff_iff]
  omega

lemma sub_test (hl : IsInt64 l) (hr : IsInt64 r) :
    ((l < 0) = (r < 0) ∨ (wrap 64 (l-r) < 0) = (l < 0)) ↔ IsInt64 (l-r) := by
  unfold IsInt64 kMinInt64 kMaxInt64 at *
  rw [wrap_sixtyFour,wrap64,eq_iff_iff,eq_iff_iff]
  omega

lemma int64ArithmeticOp_spec (hl : IsInt64 l) (hr : IsInt64 r)
    (hd : (Operation.arithmetic kind).Defined r) (ht : ¬ Traps kind l r) :
    int64ArithmeticOp a l r kind = some (some (new a (kind.exact l r))) ∧ IsInt64 (kind.exact l r) ∨
      int64ArithmeticOp a l r kind = some none ∧
      (¬ IsInt64 (kind.exact l r) ∨ kind = .mul ∧ ¬ productFits l r) := by
  have hlw := isInt_sixtyFour.mpr hl
  have hrw := isInt_sixtyFour.mpr hr
  have hwrap : ∀ {x : ℤ}, IsInt64 x → wrap 64 x = x := fun h =>
    wrap_eq (by norm_num) (isInt_sixtyFour.mpr h)
  cases kind with
  | add =>
    unfold int64ArithmeticOp exact
    simp only [add_test hl hr]
    by_cases hfit : IsInt64 (l+r)
    · exact Or.inl ⟨by rw [if_pos hfit,hwrap hfit],hfit⟩
    · exact Or.inr ⟨if_neg hfit,Or.inl hfit⟩
  | sub =>
    unfold int64ArithmeticOp exact
    simp only [sub_test hl hr]
    by_cases hfit : IsInt64 (l-r)
    · exact Or.inl ⟨by rw [if_pos hfit,hwrap hfit],hfit⟩
    · exact Or.inr ⟨if_neg hfit,Or.inl hfit⟩
  | mul =>
    unfold int64ArithmeticOp exact
    by_cases hfit : productFits l r
    · have h := product_isInt64 hl hr hfit
      exact Or.inl ⟨by rw [if_pos hfit,hwrap h],h⟩
    · exact Or.inr ⟨if_neg hfit,Or.inr ⟨rfl,hfit⟩⟩
  | truncDiv =>
    unfold int64ArithmeticOp exact
    by_cases hmin : l ≠ kMinInt64 ∨ r ≠ -1
    · have hq := divide_eq hd hlw hmin
      refine Or.inl ⟨by rw [if_pos hmin,hq]; rfl,?_⟩
      exact isInt_sixtyFour.mp (isInt_of_divide hq)
    · refine Or.inr ⟨if_neg hmin,Or.inl ?_⟩
      push Not at hmin
      rw [hmin.1,hmin.2]
      decide
  | mod =>
    have hne : l ≠ kMinInt64 ∨ r ≠ -1 := by
      by_contra h
      push Not at h
      exact ht ⟨rfl,h⟩
    have hm := modulo_eq (by norm_num) hd hlw hrw hne
    refine Or.inl ⟨by simp only [int64ArithmeticOp,hm]; rfl,isInt64_emod hd hr⟩

lemma smiArithmeticOp_spec (hl : SmiIsValid a l) (hr : SmiIsValid a r)
    (hd : (Operation.arithmetic kind).Defined r) : smiArithmeticOp a l r kind =
      some (some (new a (kind.exact l r))) ∧ IsInt64 (kind.exact l r) ∨ smiArithmeticOp a l r kind =
      some none ∧ kind = .mul ∧ ¬ productFits l r := by
  have hword : ∀ {x : ℤ}, isInt (kBitsPerWord a) x → IsInt64 x := by
    intro x hx
    rw [isInt_iff] at hx
    unfold IsInt64 kMinInt64 kMaxInt64
    cases a <;> simp only [kBitsPerWord] at hx <;> omega
  have hmin : l ≠ -2^(kBitsPerWord a-1) := by
    cases a <;> simp only [SmiIsValid,kSmiBits,kBitsPerWord] at hl ⊢ <;> omega
  cases kind with
  | add =>
    have h : isInt (kBitsPerWord a) (l+r) := by
      rw [isInt_iff]
      cases a <;> simp only [SmiIsValid,kSmiBits,kBitsPerWord] at hl hr ⊢ <;> omega
    exact Or.inl ⟨by rw [smiArithmeticOp,wrap_eq (kBitsPerWord_pos a) h]; rfl,hword h⟩
  | sub =>
    have h : isInt (kBitsPerWord a) (l-r) := by
      rw [isInt_iff]
      cases a <;> simp only [SmiIsValid,kSmiBits,kBitsPerWord] at hl hr ⊢ <;> omega
    exact Or.inl ⟨by rw [smiArithmeticOp,wrap_eq (kBitsPerWord_pos a) h]; rfl,hword h⟩
  | mul =>
    unfold smiArithmeticOp exact
    cases a with
    | bits32 =>
      have h : IsInt64 (l*r) := by
        have hprod : (l*r).natAbs ≤ 2^30*2^30 := by
          rw [natAbs_mul]
          simp only [SmiIsValid,kSmiBits,kBitsPerWord] at hl hr
          exact Nat.mul_le_mul (by omega) (by omega)
        unfold IsInt64 kMinInt64 kMaxInt64
        omega
      refine Or.inl ⟨?_,h⟩
      rw [if_pos (by decide),wrap_eq (by norm_num) (isInt_sixtyFour.mpr h)]
    | bits64 =>
      rw [if_neg (by decide)]
      by_cases hfit : productFits l r
      · have h := product_isInt64 hl.isInt64 hr.isInt64 hfit
        refine Or.inl ⟨?_,h⟩
        rw [if_pos hfit,kBitsPerWord,wrap_eq (by norm_num) (isInt_sixtyFour.mpr h)]
      · exact Or.inr ⟨if_neg hfit,rfl,hfit⟩
  | truncDiv =>
    have hq := divide_eq hd hl.isInt (Or.inl hmin)
    exact Or.inl ⟨by simp only [smiArithmeticOp,hq]; rfl,hword (isInt_of_divide hq)⟩
  | mod =>
    have hm := modulo_eq (kBitsPerWord_pos a) hd hl.isInt hr.isInt (Or.inl hmin)
    exact Or.inl ⟨by simp only [smiArithmeticOp,hm]; rfl,isInt64_emod hd hr.isInt64⟩

lemma exactOrDeferred_new {op : Operation} {left right : Integer a}
    (h : op.apply left right = some (some (new a (op.exact left.toInt right.toInt))))
    (hfit : IsInt64 (op.exact left.toInt right.toInt)) : ExactOrDeferred op left right :=
  Or.inl ⟨_,h,(new_spec hfit).1,(new_spec hfit).2⟩

lemma not_exactOrDeferred_of_none {op : Operation} {left right : Integer a}
    (h : op.apply left right = none) : ¬ ExactOrDeferred op left right := by
  rintro (⟨z,hz, -⟩ | ⟨hz, -⟩) <;> simp [h] at hz

/-- On operands other than two `Smi` values, the 64-bit cases decide. -/
lemma exactOrDeferred_int64 {kind : ArithmeticKind} {left right : Integer a}
    (happly : arithmeticOp kind left right = int64ArithmeticOp a left.toInt right.toInt kind)
    (hl : IsInt64 left.toInt) (hr : IsInt64 right.toInt)
    (hd : (Operation.arithmetic kind).Defined right.toInt) :
    ExactOrDeferred (.arithmetic kind) left right ↔ ¬ Traps kind left.toInt right.toInt := by
  constructor
  · rintro h ⟨rfl,hmin,hneg⟩
    refine not_exactOrDeferred_of_none ?_ h
    change arithmeticOp .mod left right = none
    rw [happly,hmin,hneg]
    rfl
  · intro ht
    rcases int64ArithmeticOp_spec kind hl hr hd ht with ⟨h,hfit⟩ | ⟨h,hwhy⟩
    · exact exactOrDeferred_new (happly.trans h) hfit
    · refine Or.inr ⟨happly.trans h,?_⟩
      rcases hwhy with hwhy | ⟨rfl,hwhy⟩
      · exact Or.inl hwhy
      · exact Or.inr ⟨rfl,hwhy⟩

lemma arithmeticOp_exact_iff {left right : Integer a} (hl : left.isBigint = false)
    (hr : right.isBigint = false) (hd : (Operation.arithmetic kind).Defined right.toInt) :
    ExactOrDeferred (.arithmetic kind) left right ↔ ¬ Traps kind left.toInt right.toInt := by
  cases left with
  | bigint value => simp [isBigint] at hl
  | mint l lvalid =>
    cases right with
    | bigint value => simp [isBigint] at hr
    | mint r rvalid => exact exactOrDeferred_int64 rfl lvalid rvalid hd
    | smi r rvalid => exact exactOrDeferred_int64 rfl lvalid rvalid.isInt64 hd
  | smi l lvalid =>
    cases right with
    | bigint value => simp [isBigint] at hr
    | mint r rvalid => exact exactOrDeferred_int64 rfl lvalid.isInt64 rvalid hd
    | smi r rvalid =>
      rcases smiArithmeticOp_spec kind lvalid rvalid hd with ⟨h,hfit⟩ | ⟨h,rfl,hwhy⟩
      · have ht : ¬ Traps kind l r := by
          rintro ⟨-,hmin, -⟩
          have hl64 := lvalid
          cases a <;> simp only [SmiIsValid,kSmiBits,kBitsPerWord,hmin,kMinInt64] at hl64 <;> omega
        refine iff_of_true (exactOrDeferred_new ?_ hfit) ht
        simp only [Operation.apply,arithmeticOp,h]
        rfl
      · refine exactOrDeferred_int64 ?_ lvalid.isInt64 rvalid.isInt64 hd
        simp only [arithmeticOp,h]
        rfl

lemma BitKind.word_eq (kind : BitKind) {w : ℕ} (hw : 0 < w) (hl : isInt w l) (hr : isInt w r) :
    kind.word w l r = kind.exact l r ∧ isInt w (kind.exact l r) := by
  have hmag : ∀ {x : ℤ}, isInt w x = true ↔ magnitude x < 2^(w-1) := by
    intro x
    rw [isInt_iff,magnitude_lt_iff]
  rw [hmag] at hl hr
  cases kind with
  | bitAnd =>
    have h := hmag.mpr (magnitude_land_lt hl hr)
    exact ⟨bitVec_toInt hw (fun _ _ _ => by simp) testBit_land h,h⟩
  | bitOr =>
    have h := hmag.mpr (magnitude_lor_lt hl hr)
    exact ⟨bitVec_toInt hw (fun _ _ _ => by simp) testBit_lor h,h⟩
  | bitXor =>
    have h := hmag.mpr (magnitude_xor_lt hl hr)
    exact ⟨bitVec_toInt hw (fun _ _ _ => by simp) testBit_lxor h,h⟩

lemma bitOp_exact (kind : BitKind) {left right : Integer a} (hl : left.isBigint = false)
    (hr : right.isBigint = false) : ExactOrDeferred (.bitwise kind) left right := by
  have h64 : bitOp kind left right = some (some (new a (kind.word 64 left.toInt right.toInt))) →
      ExactOrDeferred (.bitwise kind) left right := by
    intro happly
    obtain ⟨hword,hfit⟩ := kind.word_eq (by norm_num)
      (isInt_sixtyFour.mpr (isInt64 hl)) (isInt_sixtyFour.mpr (isInt64 hr))
    exact exactOrDeferred_new (by rw [hword] at happly; exact happly) (isInt_sixtyFour.mp hfit)
  cases left with
  | bigint value => simp [isBigint] at hl
  | mint l lvalid =>
    cases right with
    | bigint value => simp [isBigint] at hr
    | mint r rvalid => exact h64 rfl
    | smi r rvalid => exact h64 rfl
  | smi l lvalid =>
    cases right with
    | bigint value => simp [isBigint] at hr
    | mint r rvalid => exact h64 rfl
    | smi r rvalid =>
      -- A number is a `Smi` if it has one bit less than the word.
      have hbits : ∀ {x : ℤ}, SmiIsValid a x ↔ isInt (kSmiBits a+1) x = true := by
        intro x
        rw [isInt_iff]
        cases a <;> simp only [SmiIsValid,kSmiBits,kBitsPerWord] <;> omega
      obtain ⟨hword, -⟩ := kind.word_eq (kBitsPerWord_pos a) lvalid.isInt rvalid.isInt
      obtain ⟨-,hsmall⟩ := kind.word_eq (Nat.succ_pos (kSmiBits a)) (hbits.mp lvalid)
        (hbits.mp rvalid)
      have hvalid := hbits.mpr hsmall
      refine Or.inl ⟨.smi (kind.exact l r) hvalid,?_,rfl,fun _ => hvalid,fun _ => rfl⟩
      simp only [Operation.apply,bitOp,hword,checkedSmi,dif_pos hvalid]
      rfl

end Operations

/-- Every operation on `Smi` and `Mint` operands is exact or deferred, and divides without a trap,
unless it computes the smallest 64-bit number modulo -1. -/
theorem operation_exact_iff {a : Arch} (op : Operation) (left right : Integer a)
    (hl : left.isBigint = false) (hr : right.isBigint = false) (hd : op.Defined right.toInt) :
    ExactOrDeferred op left right ↔
      ¬ (op = .arithmetic .mod ∧ left.toInt = kMinInt64 ∧ right.toInt = -1) := by
  cases op with
  | arithmetic kind =>
    rw [arithmeticOp_exact_iff kind hl hr hd,Traps,Operation.arithmetic.injEq]
  | bitwise kind => simp [bitOp_exact kind hl hr]

theorem operation_exact_product :
    ExactOrDeferred (.arithmetic .mul) (.mint (2^61-1) (by decide) : Integer .bits32)
      (.smi (-3) (by decide)) :=
  (operation_exact_iff (.arithmetic .mul) (.mint (2^61-1) (by decide)) (.smi (-3) (by decide))
    rfl rfl trivial).mpr (by simp)

/-- The smallest `Mint` modulo -1 executes a division that traps. -/
theorem operation_mod_traps :
    (Operation.arithmetic .mod).apply (.mint kMinInt64 (by decide) : Integer .bits64)
        (.smi (-1) (by decide)) = none ∧
      ¬ ExactOrDeferred (.arithmetic .mod) (.mint kMinInt64 (by decide) : Integer .bits64)
        (.smi (-1) (by decide)) := by
  have htrap : (Operation.arithmetic .mod).apply (.mint kMinInt64 (by decide) : Integer .bits64)
      (.smi (-1) (by decide)) = none := rfl
  exact ⟨htrap,not_exactOrDeferred_of_none htrap⟩

end DartSdk.Integers
