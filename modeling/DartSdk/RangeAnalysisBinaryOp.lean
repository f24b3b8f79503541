import DartSdk.RangeAnalysisSound

/-! Each transfer function is compared with the exact operation on integers. `Operand` collects what
an operand is known to be. -/
namespace DartSdk.RangeAnalysis
open Utils Option RangeBoundary

variable {leftDefn : Option ℕ} {range : Range}

/-- The exact result of an operator; shift counts are not negative. -/
def Token.exact : Token → ℤ → ℤ → ℤ
  | .add, l, r => l+r
  | .sub, l, r => l-r
  | .mul, l, r => l*r
  | .shl, l, r => l <<< r.toNat
  | .shr, l, r => l >>> r.toNat
  | .bitAnd, l, r => Int.land l r
  | .bitOr, l, r => Int.lor l r
  | .bitXor, l, r => Int.xor l r

/-- A value of a finite range. -/
structure Operand (g : Graph) (ρ : ℕ → ℤ) (range : Range) (x : ℤ) : Prop where
  valid : range.Valid g.kind
  finite : range.isFinite = true
  int64 : IsInt64 x
  contains : range.Contains ρ x

variable {g : Graph} {ρ : ℕ → ℤ} {left right : Range} {l r : ℤ}

section Symbolic
variable {side : Side} {a b c : RangeBoundary} {x y : ℤ}

lemma fromDefinition_eq {d : ℕ} (h : ∀ smi, g.kind d ≠ .constant smi) (offset : ℤ) :
    g.fromDefinition d offset = .symbol d offset := by
  unfold Graph.fromDefinition
  split
  · next smi hs => exact absurd hs (h smi)
  · rfl

lemma symbolicAdd_sound (ha : a.Valid g.kind) (hb : b.Valid g.kind) (hx : side.Bounds ρ x a)
    (hy : side.Bounds ρ y b) (h : g.symbolicAdd a b = some c) : side.Bounds ρ (x+y) c := by
  unfold Graph.symbolicAdd at h
  split at h
  · rw [ite_none_left_eq_some,fromDefinition_eq ha.2] at h
    cases h.2
    cases side <;> simp only [Side.Bounds] at * <;> omega
  · rw [ite_none_left_eq_some,fromDefinition_eq hb.2] at h
    cases h.2
    cases side <;> simp only [Side.Bounds] at * <;> omega
  · cases h

lemma symbolicSub_sound (ha : a.Valid g.kind) (hx : side.Bounds ρ x a)
    (hy : side.flip.Bounds ρ y b) (h : g.symbolicSub a b = some c) : side.Bounds ρ (x-y) c := by
  unfold Graph.symbolicSub at h
  split at h
  · rw [ite_none_left_eq_some,fromDefinition_eq ha.2] at h
    cases h.2
    cases side <;> simp only [Side.Bounds,Side.flip] at * <;> omega
  · cases h

lemma isArrayLength_not_constant {d : ℕ} (h : g.isArrayLength (some d) = true) (smi : ℤ) :
    g.kind d ≠ .constant smi := by
  intro hk
  have hunwrap : g.unwrapConstraint d = d := by
    unfold Graph.unwrapConstraint
    cases g.depth d with
    | zero => rfl
    | succ fuel =>
      unfold Graph.unwrapConstraintAux
      rw [hk]
  simp [Graph.isArrayLength,hunwrap,hk] at h

lemma leftBoundary_sound (side : Side) (h : Operand g ρ left l) (hdefn : ∀ d ∈ leftDefn, ρ d = l) :
    (g.leftBoundary side left leftDefn).Valid g.kind ∧
      side.Bounds ρ l (g.leftBoundary side left leftDefn) := by
  unfold Graph.leftBoundary
  cases leftDefn with
  | none => exact ⟨h.valid.side side,h.contains.side side⟩
  | some d =>
    dsimp only
    split_ifs with hlen
    · have hk := isArrayLength_not_constant hlen
      rw [fromDefinition_eq hk]
      have hd := hdefn d rfl
      refine ⟨⟨by decide,hk⟩,?_⟩
      cases side <;> simp only [Side.Bounds] <;> omega
    · exact ⟨h.valid.side side,h.contains.side side⟩

end Symbolic

/-- Operands with Smis as symbols, in an assignment that respects all ranges. -/
structure Sound (g : Graph) (ρ : ℕ → ℤ) (left right : Range) (l r : ℤ) : Prop where
  respects : g.Respects ρ
  symbols : g.SmiSymbols ρ
  leftSymbols : ∀ s, left.Mentions s → IsSmi (ρ s)
  rightSymbols : ∀ s, right.Mentions s → IsSmi (ρ s)
  left : Operand g ρ left l
  right : Operand g ρ right r

section Ops
variable (h : Sound g ρ left right l r)

include h

lemma Sound.leftBound (side : Side) : side.Bounds ρ l (g.bound side (side.ofRange left)) :=
  g.boundAux_sound h.respects h.symbols _
    (fun s _ hs => h.leftSymbols s (Range.mentions_side hs)) (h.left.contains.side side)

lemma Sound.rightBound (side : Side) : side.Bounds ρ r (g.bound side (side.ofRange right)) :=
  g.boundAux_sound h.respects h.symbols _
    (fun s _ hs => h.rightSymbols s (Range.mentions_side hs)) (h.right.contains.side side)

lemma Sound.leftBetween : g.Between left l :=
  g.between h.respects h.symbols h.left.valid h.leftSymbols h.left.int64 h.left.contains

lemma Sound.rightBetween : g.Between right r :=
  g.between h.respects h.symbols h.right.valid h.rightSymbols h.right.int64 h.right.contains

lemma Sound.add (hdefn : ∀ d ∈ leftDefn, ρ d = l) :
    (g.add left right leftDefn).Contains ρ (l+r) := by
  have hside : ∀ (side : Side) (c : RangeBoundary), side.Bounds ρ (l+r) c →
      side.Bounds ρ (l+r)
        ((g.symbolicAdd (g.leftBoundary side left leftDefn) (side.ofRange right)).getD c) := by
    intro side c hc
    obtain ⟨hvalid,hbound⟩ := leftBoundary_sound side h.left hdefn
    cases hs : g.symbolicAdd (g.leftBoundary side left leftDefn) (side.ofRange right) with
    | none => exact hc
    | some b =>
      exact symbolicAdd_sound hvalid (h.right.valid.side side) hbound (h.right.contains.side side) hs
  refine ⟨hside .lower _ ((h.leftBound .lower).add (h.rightBound .lower)),hside .upper _ ?_⟩
  rw [add_comm]
  exact (h.rightBound .upper).add (h.leftBound .upper)

lemma Sound.sub (hdefn : ∀ d ∈ leftDefn, ρ d = l) :
    (g.sub left right leftDefn).Contains ρ (l-r) := by
  have hside : ∀ (side : Side) (c : RangeBoundary), side.Bounds ρ (l-r) c →
      side.Bounds ρ (l-r)
        ((g.symbolicSub (g.leftBoundary side left leftDefn) (side.flip.ofRange right)).getD c) := by
    intro side c hc
    obtain ⟨hvalid,hbound⟩ := leftBoundary_sound side h.left hdefn
    cases hs : g.symbolicSub (g.leftBoundary side left leftDefn) (side.flip.ofRange right) with
    | none => exact hc
    | some b => exact symbolicSub_sound hvalid hbound (h.right.contains.side side.flip) hs
  exact ⟨hside .lower _ ((h.leftBound .lower).sub (h.rightBound .upper)),
    hside .upper _ ((h.leftBound .upper).sub (h.rightBound .lower))⟩

end Ops

section Mul

/-- The largest absolute value is computed right, or is too large to matter: this leaves out
ranges from `kMinInt64`, whose absolute value wraps around, to a small maximum. -/
def AbsExact (g : Graph) (range : Range) : Prop :=
  g.constantMin range = kMinInt64 → -minConstant .smi < Utils.abs (g.constantMax range)

lemma abs_le_constantAbsMax {x : ℤ} (hb : g.Between range x)
    (hexact : AbsExact g range) (hsmall : g.constantAbsMax range ≤ -minConstant .smi) :
    |x| ≤ g.constantAbsMax range ∧ g.constantMin range ≠ kMinInt64 := by
  obtain ⟨hmin,hmax,hle,hge⟩ := hb
  have hne : g.constantMin range ≠ kMinInt64 := by
    intro heq
    have := hexact heq
    unfold Graph.constantAbsMax at hsmall
    omega
  refine ⟨?_,hne⟩
  have hne' : g.constantMax range ≠ kMinInt64 := by
    unfold IsInt64 at hmin
    omega
  unfold Graph.constantAbsMax
  rw [Utils.abs_eq hmin hne,Utils.abs_eq hmax hne']
  rw [abs_le]
  have h1 := neg_abs_le (g.constantMin range)
  have h2 := le_abs_self (g.constantMax range)
  omega

lemma constantAbsMin_le_abs {x : ℤ} (hb : g.Between range x)
    (hne : g.constantMin range ≠ kMinInt64)
    (hsign : 0 ≤ g.constantMin range ∨ g.constantMax range ≤ 0) :
    0 ≤ g.constantAbsMin range ∧ g.constantAbsMin range ≤ |x| := by
  obtain ⟨hmin,hmax,hle,hge⟩ := hb
  have hne' : g.constantMax range ≠ kMinInt64 := by
    unfold IsInt64 at hmin
    omega
  unfold Graph.constantAbsMin
  rw [Utils.abs_eq hmin hne,Utils.abs_eq hmax hne']
  refine ⟨le_min (abs_nonneg _) (abs_nonneg _),?_⟩
  rcases hsign with h | h
  · rw [abs_of_nonneg h,abs_of_nonneg (h.trans hle)]
    omega
  · rw [abs_of_nonpos h,abs_of_nonpos (hge.trans h)]
    omega

lemma sameSign (hl : left.Valid g.kind) (hr : right.Valid g.kind)
    (h : (g.onlyPositiveOrZero left right || g.onlyNegativeOrZero left right) = true) :
    (0 ≤ g.constantMin left ∧ 0 ≤ g.constantMin right) ∨
      (g.constantMax left ≤ 0 ∧ g.constantMax right ≤ 0) := by
  unfold Graph.onlyPositiveOrZero Graph.onlyNegativeOrZero at h
  rw [Bool.or_eq_true,Bool.and_eq_true,Bool.and_eq_true] at h
  exact h.imp (fun h => ⟨g.le_constantMin hl h.1,g.le_constantMin hr h.2⟩)
    fun h => ⟨g.constantMax_le hl h.1,g.constantMax_le hr h.2⟩

lemma product_le {a b : ℤ} (ha : 0 ≤ a) (hdiv : a = 0 ∨ b ≤ kMaxInt64.tdiv a) :
    a*b ≤ kMaxInt64 := by
  rcases hdiv with rfl | hdiv
  · rw [zero_mul]
    decide
  · rcases ha.eq_or_lt with rfl | hpos
    · rw [zero_mul]
      decide
    · rw [Int.tdiv_eq_ediv_of_nonneg (by decide),Int.le_ediv_iff_mul_le hpos] at hdiv
      rwa [mul_comm]

lemma Sound.mul (h : Sound g ρ left right l r) (hleft : AbsExact g left)
    (hright : AbsExact g right) : (g.mul left right).Contains ρ (l*r) := by
  have hl := h.leftBetween
  have hr := h.rightBetween
  have hnonneg : (g.onlyPositiveOrZero left right || g.onlyNegativeOrZero left right) = true →
      0 ≤ l*r := by
    intro hsign
    rcases sameSign h.left.valid h.right.valid hsign with ⟨h1,h2⟩ | ⟨h1,h2⟩
    · exact mul_nonneg (h1.trans hl.min_le) (h2.trans hr.min_le)
    · exact mul_nonneg_of_nonpos_of_nonpos (hl.le_max.trans h1) (hr.le_max.trans h2)
  unfold Graph.mul
  by_cases hguard : g.constantAbsMax left ≤ -minConstant .smi ∧
      g.constantAbsMax right ≤ -minConstant .smi ∧
      (g.constantAbsMax left = 0 ∨ g.constantAbsMax right ≤ kMaxInt64.tdiv (g.constantAbsMax left))
  · rw [if_pos hguard]
    obtain ⟨habsl,hnel⟩ := abs_le_constantAbsMax hl hleft hguard.1
    obtain ⟨habsr,hner⟩ := abs_le_constantAbsMax hr hright hguard.2.1
    have hprod := product_le ((abs_nonneg l).trans habsl) hguard.2.2
    have habs : |l*r| ≤ g.constantAbsMax left*g.constantAbsMax right := by
      rw [abs_mul]
      exact mul_le_mul habsl habsr (abs_nonneg r) ((abs_nonneg l).trans habsl)
    have hpos := (abs_nonneg (l*r)).trans habs
    have hwrap : wrap64 (g.constantAbsMax left*g.constantAbsMax right) =
        g.constantAbsMax left*g.constantAbsMax right := by
      refine wrap64_of_isInt64 ⟨?_,hprod⟩
      unfold kMinInt64
      omega
    rw [hwrap]
    by_cases hsign : (g.onlyPositiveOrZero left right || g.onlyNegativeOrZero left right) = true
    · rw [if_pos hsign]
      have hs := sameSign h.left.valid h.right.valid hsign
      obtain ⟨hl0,hlmin⟩ := constantAbsMin_le_abs hl hnel (hs.imp And.left And.left)
      obtain ⟨hr0,hrmin⟩ := constantAbsMin_le_abs hr hner (hs.imp And.right And.right)
      have hmin : g.constantAbsMin left*g.constantAbsMin right ≤ l*r := by
        rw [← abs_of_nonneg (hnonneg hsign),abs_mul]
        exact mul_le_mul hlmin hrmin hr0 (abs_nonneg l)
      have hmax := (le_abs_self (l*r)).trans habs
      have hmin0 := mul_nonneg hl0 hr0
      refine ⟨?_,hmax⟩
      rw [wrap64_of_isInt64 ⟨?_,hmin.trans (hmax.trans hprod)⟩]
      · exact hmin
      · unfold kMinInt64
        omega
    · rw [if_neg hsign]
      obtain ⟨h1,h2⟩ := abs_le.1 habs
      refine ⟨?_,h2⟩
      rw [wrap64_of_isInt64]
      · exact h1
      · unfold IsInt64 kMinInt64 kMaxInt64 at *
        omega
  · rw [if_neg hguard]
    by_cases hsign : (g.onlyPositiveOrZero left right || g.onlyNegativeOrZero left right) = true
    · rw [if_pos hsign]
      exact ⟨hnonneg hsign,trivial⟩
    · rw [if_neg hsign]
      exact ⟨trivial,trivial⟩

end Mul

section Shifts

lemma shl_eq {v n : ℤ} (hv : IsInt64 v) (hn : 0 ≤ n) (overflow : RangeBoundary) : shl v n overflow =
      if IsInt64 (v*2^n.toNat) then .constant (v*2^n.toNat) else overflow := by
  unfold shl
  by_cases hv0 : v = 0
  · rw [if_pos hv0,hv0,zero_mul,if_pos (by decide)]
  rw [if_neg hv0,Int.shiftLeft_eq]
  congr 1
  rw [eq_iff_iff]
  rcases hn.eq_or_lt with rfl | hpos
  · simpa using hv
  rcases lt_or_ge n 64 with hlt | hge
  · -- The product fits if and only if `v` has `64 - n` bits.
    have hsplit : (2 : ℤ)^63 = 2^((64-n).toNat-1)*2^n.toNat := by
      rw [← pow_add]
      congr 1
      omega
    have hp : (0 : ℤ) < 2^n.toNat := by positivity
    unfold isInt IsInt64 kMinInt64 kMaxInt64
    rw [hsplit,Int.le_sub_one_iff]
    simp only [Bool.and_eq_true,decide_eq_true_eq]
    rw [← neg_mul,mul_le_mul_iff_left₀ hp,mul_lt_mul_iff_left₀ hp]
    omega
  · constructor
    · rintro (h | ⟨h, -⟩) <;> omega
    · intro hfit
      exfalso
      have hp : (2 : ℤ)^64 ≤ 2^n.toNat := pow_le_pow_right₀ (by norm_num) (by omega)
      unfold IsInt64 kMinInt64 kMaxInt64 at hfit
      rcases lt_or_gt_of_ne hv0 with hneg | hposv
      · nlinarith [hfit.1]
      · nlinarith [hfit.2]

lemma Sound.shl (h : Sound g ρ left right l r) (hr0 : 0 ≤ r)
    (hfit : IsInt64 (l <<< r.toNat)) : (g.shl left right).Contains ρ (l <<< r.toNat) := by
  obtain ⟨hlmin,hlmax,hle,hge⟩ := h.leftBetween
  obtain ⟨-, -,hrle,hrge⟩ := h.rightBetween
  rw [Int.shiftLeft_eq] at *
  have hmono : ∀ {m n : ℤ}, m ≤ n → (2 : ℤ)^m.toNat ≤ 2^n.toNat := fun hmn =>
    pow_le_pow_right₀ (by norm_num) (Int.toNat_le_toNat hmn)
  have hrmin : max (g.constantMin right) 0 ≤ r := max_le hrle hr0
  have hrmax : r ≤ max (g.constantMax right) 0 := hrge.trans (le_max_left _ _)
  have hpos : ∀ n : ℤ, (0 : ℤ) < 2^n.toNat := fun n => by positivity
  unfold Graph.shl
  constructor
  · dsimp only
    split_ifs with hsign
    · have hmul : g.constantMin left*2^(max (g.constantMin right) 0).toNat ≤ l*2^r.toNat :=
        mul_le_mul hle (hmono hrmin) (hpos _).le (by omega)
      rw [shl_eq hlmin (le_max_right _ _)]
      split_ifs with hint
      · exact hmul
      · exfalso
        refine hint ⟨?_,hmul.trans hfit.2⟩
        have := mul_pos hsign (hpos (max (g.constantMin right) 0))
        unfold kMinInt64
        omega
    · have hmul : g.constantMin left*2^(max (g.constantMax right) 0).toNat ≤ l*2^r.toNat :=
        calc _ ≤ g.constantMin left*2^r.toNat :=
              mul_le_mul_of_nonpos_left (hmono hrmax) (by omega)
          _ ≤ _ := mul_le_mul_of_nonneg_right hle (hpos r).le
      rw [shl_eq hlmin (le_max_right _ _)]
      split_ifs with hint
      · exact hmul
      · trivial
  · dsimp only
    split_ifs with hsign
    · have hmul : l*2^r.toNat ≤ g.constantMax left*2^(max (g.constantMax right) 0).toNat :=
        calc _ ≤ g.constantMax left*2^r.toNat := mul_le_mul_of_nonneg_right hge (hpos r).le
          _ ≤ _ := mul_le_mul_of_nonneg_left (hmono hrmax) hsign.le
      rw [shl_eq hlmax (le_max_right _ _)]
      split_ifs with hint
      · exact hmul
      · trivial
    · have hmul : l*2^r.toNat ≤ g.constantMax left*2^(max (g.constantMin right) 0).toNat :=
        calc _ ≤ g.constantMax left*2^r.toNat := mul_le_mul_of_nonneg_right hge (hpos r).le
          _ ≤ _ := mul_le_mul_of_nonpos_left (hmono hrmin) (by omega)
      rw [shl_eq hlmax (le_max_right _ _)]
      split_ifs with hint
      · exact hmul
      · exfalso
        refine hint ⟨hfit.1.trans hmul,?_⟩
        have := mul_nonpos_of_nonpos_of_nonneg (by omega : g.constantMax left ≤ 0)
          (hpos (max (g.constantMin right) 0)).le
        unfold kMaxInt64
        omega

lemma shiftRight_mono {x y : ℤ} (h : x ≤ y) (n : ℕ) : x >>> n ≤ y >>> n := by
  rw [Int.shiftRight_eq_div_pow,Int.shiftRight_eq_div_pow]
  exact Int.ediv_le_ediv (by positivity) h

lemma shiftRight_le_shiftRight {x : ℤ} (hx : 0 ≤ x) {m n : ℕ} (h : m ≤ n) : x >>> n ≤ x >>> m := by
  obtain ⟨k,rfl⟩ := Nat.exists_eq_add_of_le h
  rw [Int.shiftRight_add,Int.shiftRight_eq_div_pow _ k]
  exact Int.ediv_le_self _ (by simpa using shiftRight_mono hx m)

lemma shiftRight_le_shiftRight_of_nonpos {x : ℤ} (hx : x ≤ 0) {m n : ℕ} (h : m ≤ n) :
    x >>> m ≤ x >>> n := by
  obtain ⟨k,rfl⟩ := Nat.exists_eq_add_of_le h
  have hy : x >>> m ≤ 0 := by
    simpa using shiftRight_mono hx m
  have hk : (1 : ℤ) ≤ (2^k : ℕ) := by exact_mod_cast Nat.one_le_two_pow
  rw [Int.shiftRight_add,Int.shiftRight_eq_div_pow _ k,Int.le_ediv_iff_mul_le (by positivity)]
  nlinarith

lemma shr_eq {v n : ℤ} (hn : 0 ≤ n) (h : n < 64) : shr v n = .constant (v >>> n.toNat) := by
  unfold shr
  rw [Int.emod_eq_of_lt hn h]

lemma Sound.shr (h : Sound g ρ left right l r) (hr0 : 0 ≤ r)
    (hcounts : (g.shrCounts left right).1 < 64 ∧ (g.shrCounts left right).2 < 64) :
    (g.shr left right).Contains ρ (l >>> r.toNat) := by
  obtain ⟨-, -,hle,hge⟩ := h.leftBetween
  obtain ⟨-, -,hrle,hrge⟩ := h.rightBetween
  have hrmin : (max (g.constantMin right) 0).toNat ≤ r.toNat :=
    Int.toNat_le_toNat (max_le hrle hr0)
  have hrmax : r.toNat ≤ (max (g.constantMax right) 0).toNat :=
    Int.toNat_le_toNat (hrge.trans (le_max_left _ _))
  unfold Graph.shr
  constructor
  · have hmin := hcounts.1
    unfold Graph.shrCounts at hmin ⊢
    dsimp only at hmin ⊢
    rw [shr_eq (by split_ifs <;> exact le_max_right _ _) hmin]
    refine le_trans ?_ (shiftRight_mono hle _)
    split_ifs with hsign
    · exact shiftRight_le_shiftRight hsign.le hrmax
    · exact shiftRight_le_shiftRight_of_nonpos (not_lt.1 hsign) hrmin
  · have hmax := hcounts.2
    unfold Graph.shrCounts at hmax ⊢
    dsimp only at hmax ⊢
    rw [shr_eq (by split_ifs <;> exact le_max_right _ _) hmax]
    refine (shiftRight_mono hge _).trans ?_
    split_ifs with hsign
    · exact shiftRight_le_shiftRight hsign.le hrmin
    · exact shiftRight_le_shiftRight_of_nonpos (not_lt.1 hsign) hrmax

end Shifts

section Bitwise
variable {x y : ℤ} {b : ℕ}

lemma ldiff_le (m n : ℕ) : m.ldiff n ≤ m := by
  refine Nat.le_of_testBit fun i hi => ?_
  rw [Nat.testBit_ldiff] at hi
  exact (Bool.and_eq_true_iff.1 hi).1

/-- A mask that is not negative clears the sign and bounds the result. -/
lemma land_nonneg_le (hy : 0 ≤ y) : 0 ≤ Int.land x y ∧ Int.land x y ≤ y := by
  obtain ⟨n,rfl⟩ := Int.eq_ofNat_of_zero_le hy
  cases x with
  | ofNat m =>
    change (0 : ℤ) ≤ ((m &&& n : ℕ) : ℤ) ∧ ((m &&& n : ℕ) : ℤ) ≤ n
    exact ⟨by omega,by exact_mod_cast Nat.and_le_right⟩
  | negSucc m =>
    change (0 : ℤ) ≤ ((n.ldiff m : ℕ) : ℤ) ∧ ((n.ldiff m : ℕ) : ℤ) ≤ n
    exact ⟨by omega,by exact_mod_cast ldiff_le n m⟩

lemma land_comm (x y : ℤ) : Int.land x y = Int.land y x := by
  cases x <;> cases y <;> simp [Int.land,Nat.and_comm,Nat.or_comm]

lemma lor_nonneg (hx : 0 ≤ x) (hy : 0 ≤ y) : 0 ≤ Int.lor x y := by
  obtain ⟨m,rfl⟩ := Int.eq_ofNat_of_zero_le hx
  obtain ⟨n,rfl⟩ := Int.eq_ofNat_of_zero_le hy
  exact Int.natCast_nonneg (m ||| n)

lemma xor_nonneg (hx : 0 ≤ x) (hy : 0 ≤ y) : 0 ≤ Int.xor x y := by
  obtain ⟨m,rfl⟩ := Int.eq_ofNat_of_zero_le hx
  obtain ⟨n,rfl⟩ := Int.eq_ofNat_of_zero_le hy
  exact Int.natCast_nonneg (m ^^^ n)

lemma magnitude_lt_bitSize (hb : g.Between range x) (h : g.bitSize range ≤ b) :
    magnitude x < 2^b := by
  obtain ⟨hmin,hmax,hle,hge⟩ := hb
  obtain ⟨h1,h2⟩ := max_le_iff.1 h
  rw [bitLength_le_iff hmin] at h1
  rw [bitLength_le_iff hmax] at h2
  exact magnitude_lt_iff.2 ⟨h1.1.trans hle,hge.trans_lt h2.2⟩

lemma bitSize_le (range : Range) (h : g.Between range x) : g.bitSize range ≤ 63 :=
  max_le (bitLength_le h.min_int64) (bitLength_le h.max_int64)

/-- A result with the bit size of its operands is in the range of `BitwiseOp`. -/
lemma Sound.bitwiseOp (h : Sound g ρ left right l r) {z : ℤ}
    (hz : ∀ b, magnitude l < 2^b → magnitude r < 2^b → magnitude z < 2^b)
    (hpos : 0 ≤ l → 0 ≤ r → 0 ≤ z) : (g.bitwiseOp left right).Contains ρ z := by
  have hl := h.leftBetween
  have hr := h.rightBetween
  set bitsize := max (g.bitSize left) (g.bitSize right) with hbits
  have hb : bitsize ≤ 63 := max_le (bitSize_le left hl) (bitSize_le right hr)
  have hp : (2 : ℤ)^bitsize ≤ 2^63 := pow_le_pow_right₀ (by norm_num) hb
  obtain ⟨hz1,hz2⟩ := magnitude_lt_iff.1 (hz bitsize (magnitude_lt_bitSize hl (le_max_left _ _))
    (magnitude_lt_bitSize hr (le_max_right _ _)))
  unfold Graph.bitwiseOp
  dsimp only
  rw [← hbits,Int.shiftLeft_eq,Int.shiftLeft_eq,one_mul,neg_one_mul,
    wrap64_of_isInt64 (by unfold IsInt64 kMinInt64 kMaxInt64; omega),
    wrap64_of_isInt64 (by unfold IsInt64 kMinInt64 kMaxInt64; omega)]
  constructor
  · split_ifs with hsign
    · obtain ⟨h1,h2⟩ := Bool.and_eq_true_iff.1 hsign
      exact hpos ((g.le_constantMin h.left.valid h1).trans hl.min_le)
        ((g.le_constantMin h.right.valid h2).trans hr.min_le)
    · exact hz1
  · exact Int.le_sub_one_of_lt hz2

lemma Sound.and (h : Sound g ρ left right l r) : (g.and left right).Contains ρ (Int.land l r) := by
  have hl := h.leftBetween
  have hr := h.rightBetween
  unfold Graph.and
  split_ifs with h1 h2
  · obtain ⟨h3,h4⟩ := land_nonneg_le (h1.trans hr.min_le)
    exact ⟨h3,h4.trans hr.le_max⟩
  · rw [land_comm]
    obtain ⟨h3,h4⟩ := land_nonneg_le (h2.trans hl.min_le)
    exact ⟨h3,h4.trans hl.le_max⟩
  · exact h.bitwiseOp (fun _ => magnitude_land_lt) fun _ hr0 => (land_nonneg_le hr0).1

end Bitwise

/-- One definition with a constant range. -/
def symbolGraph (lower upper : ℤ) (hl : IsInt64 lower) (hu : IsInt64 upper) : Graph where
  kind _ := .other
  range d := if d = 0 then some ⟨.constant lower,.constant upper⟩ else none
  rank _ := 0
  depth _ := 0
  valid d r h := by
    rw [Option.ite_none_right_eq_some,Option.some.injEq] at h
    obtain ⟨-,rfl⟩ := h
    exact ⟨hl,hu⟩
  rank_lt d r h s hs := by
    rw [Option.ite_none_right_eq_some,Option.some.injEq] at h
    obtain ⟨-,rfl⟩ := h
    obtain ⟨_,hs⟩ | ⟨_,hs⟩ := hs <;> cases hs
  depth_lt d v h := by cases h

lemma symbolGraph_respects {lower upper : ℤ} (hl : IsInt64 lower) (hu : IsInt64 upper)
    (h : lower ≤ ρ 0 ∧ ρ 0 ≤ upper) : (symbolGraph lower upper hl hu).Respects ρ := by
  intro d r hr
  change (if d = 0 then some _ else none) = some r at hr
  rw [ite_none_right_eq_some,some.injEq] at hr
  obtain ⟨rfl,rfl⟩ := hr
  exact ⟨h.1,h.2⟩

lemma symbolGraph_symbols {lower upper : ℤ} (hl : IsInt64 lower) (hu : IsInt64 upper) :
    (symbolGraph lower upper hl hu).SmiSymbols ρ := by
  intro d r hr s hs
  change (if d = 0 then some _ else none) = some r at hr
  rw [ite_none_right_eq_some,some.injEq] at hr
  obtain ⟨-,rfl⟩ := hr
  obtain ⟨_,hs⟩ | ⟨_,hs⟩ := hs <;> cases hs

end DartSdk.RangeAnalysis
