import DartSdk.RangeAnalysis

/-! An assignment `ρ` of integers to definitions gives boundaries a meaning. Following symbols only
loosens a boundary, because symbols stand for Smis. -/
namespace DartSdk.RangeAnalysis
open Utils Nat RangeBoundary

variable {r : Range}

/-- `b` is a lower (upper) boundary for `x`. -/
def Side.Bounds (ρ : ℕ → ℤ) (x : ℤ) : Side → RangeBoundary → Prop
  | .lower, .negativeInfinity => True
  | .lower, .positiveInfinity => False
  | .lower, .constant value => value ≤ x
  | .lower, .symbol defn offset => ρ defn+offset ≤ x
  | .upper, .negativeInfinity => False
  | .upper, .positiveInfinity => True
  | .upper, .constant value => x ≤ value
  | .upper, .symbol defn offset => x ≤ ρ defn+offset

structure Range.Contains (ρ : ℕ → ℤ) (r : Range) (x : ℤ) : Prop where
  min : Side.lower.Bounds ρ x r.min
  max : Side.upper.Bounds ρ x r.max

def IsSmi (x : ℤ) : Prop := minConstant .smi ≤ x ∧ x ≤ maxConstant .smi

def Graph.Respects (g : Graph) (ρ : ℕ → ℤ) : Prop :=
  ∀ d r, g.range d = some r → r.Contains ρ (ρ d)

/-- Definitions that occur as symbols of recorded ranges are Smis. -/
def Graph.SmiSymbols (g : Graph) (ρ : ℕ → ℤ) : Prop :=
  ∀ d r, g.range d = some r → ∀ s, r.Mentions s → IsSmi (ρ s)

lemma Range.Contains.side {ρ : ℕ → ℤ} {x : ℤ} (h : r.Contains ρ x) (side : Side) :
    side.Bounds ρ x (side.ofRange r) := by
  cases side with
  | lower => exact h.min
  | upper => exact h.max

lemma Range.Valid.side {kind : ℕ → DefinitionKind} (h : r.Valid kind) (side : Side) :
    (side.ofRange r).Valid kind := by
  cases side with
  | lower => exact h.min
  | upper => exact h.max

lemma Range.mentions_side {side : Side} {s : ℕ} {offset : ℤ}
    (h : side.ofRange r = .symbol s offset) : r.Mentions s := by
  cases side with
  | lower => exact Or.inl ⟨offset,h⟩
  | upper => exact Or.inr ⟨offset,h⟩

section Bound
variable {g : Graph} {ρ : ℕ → ℤ} {side : Side} {b : RangeBoundary} {x : ℤ}

lemma Side.bounds_infinity (side : Side) (ρ : ℕ → ℤ) (x : ℤ) : side.Bounds ρ x side.infinity := by
  cases side <;> trivial

def Side.flip : Side → Side
  | .lower => .upper
  | .upper => .lower

/-- A boundary for a number of the given size stays one when it is clamped. -/
lemma Side.Bounds.clamp {size : RangeSize} (hx : minConstant size ≤ x ∧ x ≤ maxConstant size)
    (h : side.Bounds ρ x b) : side.Bounds ρ x (b.clamp size) := by
  cases b with
  | negativeInfinity =>
    cases side with
    | lower => exact hx.1
    | upper => exact h.elim
  | positiveInfinity =>
    cases side with
    | lower => exact h.elim
    | upper => exact hx.2
  | symbol => exact h
  | constant value =>
    unfold clamp
    dsimp only
    split_ifs <;> cases side <;> simp only [Side.Bounds] at * <;> omega

lemma Side.Bounds.add {y : ℤ} {c : RangeBoundary} (h : side.Bounds ρ x b)
    (h' : side.Bounds ρ y c) : side.Bounds ρ (x+y) (b.add c side.infinity) := by
  unfold RangeBoundary.add
  split
  · split_ifs
    · exact side.bounds_infinity ρ _
    · cases side <;> simp only [Side.Bounds] at * <;> omega
  · exact side.bounds_infinity ρ _

lemma Side.Bounds.sub {y : ℤ} {c : RangeBoundary} (h : side.Bounds ρ x b)
    (h' : side.flip.Bounds ρ y c) : side.Bounds ρ (x-y) (b.sub c side.infinity) := by
  unfold RangeBoundary.sub
  split
  · split_ifs
    · exact side.bounds_infinity ρ _
    · cases side <;> simp only [Side.Bounds,Side.flip] at * <;> omega
  · exact side.bounds_infinity ρ _

/-- Following symbols loosens a boundary. -/
lemma Graph.boundAux_sound (hg : g.Respects ρ) (hsmi : g.SmiSymbols ρ) (fuel : ℕ) :
    ∀ {b x}, (∀ s offset, b = .symbol s offset → IsSmi (ρ s)) → side.Bounds ρ x b →
      side.Bounds ρ x (g.boundAux side fuel b) := by
  induction fuel with
  | zero => exact fun _ _ => side.bounds_infinity ρ _
  | succ fuel ih =>
    intro b x hsym h
    cases b with
    | negativeInfinity | positiveInfinity => exact side.bounds_infinity ρ _
    | constant value => exact h
    | symbol d offset =>
      have hd : IsSmi (ρ d) := hsym d offset rfl
      have hconst : side.Bounds ρ (ρ d)
          (Graph.constantOf side (g.boundAux side fuel) .smi (g.range d)) := by
        cases hr : g.range d with
        | none =>
          cases side with
          | lower => exact hd.1
          | upper => exact hd.2
        | some r =>
          refine Side.Bounds.clamp hd (ih ?_ ((hg d r hr).side side))
          exact fun s o hs => hsmi d r hr s (Range.mentions_side hs)
      have hsum := hconst.add (y := offset) (c := .constant offset) (by cases side <;> exact le_rfl)
      -- A boundary for `ρ d + offset` is one for everything beyond it.
      unfold Graph.boundAux
      generalize RangeBoundary.add _ _ _ = c at hsum ⊢
      cases side <;> cases c <;> simp only [Side.Bounds] at * <;> omega

lemma clamp_cases (size : RangeSize) (hb : b = side.infinity ∨ ∃ c, b = .constant c) :
    ∃ c, minConstant size ≤ c ∧ c ≤ maxConstant size ∧ b.clamp size = .constant c := by
  have hle : minConstant size ≤ maxConstant size := by cases size <;> decide
  rcases hb with rfl | ⟨c,rfl⟩
  · cases side with
    | lower => exact ⟨_,le_rfl,hle,rfl⟩
    | upper => exact ⟨_,hle,le_rfl,rfl⟩
  · unfold clamp
    dsimp only
    split_ifs with h1 h2
    · exact ⟨_,le_rfl,hle,rfl⟩
    · exact ⟨_,hle,le_rfl,rfl⟩
    · exact ⟨c,by omega,by omega,rfl⟩

lemma Graph.boundAux_cases (g : Graph) (side : Side) (hb : b.Valid g.kind) (fuel : ℕ) :
    g.boundAux side fuel b = side.infinity ∨
      ∃ c, IsInt64 c ∧ g.boundAux side fuel b = .constant c := by
  induction fuel generalizing b with
  | zero => exact Or.inl rfl
  | succ fuel ih =>
    cases b with
    | negativeInfinity | positiveInfinity => exact Or.inl rfl
    | constant value => exact Or.inr ⟨value,hb,rfl⟩
    | symbol d offset =>
      have hsmi : ∃ c, minConstant .smi ≤ c ∧ c ≤ maxConstant .smi ∧
          Graph.constantOf side (g.boundAux side fuel) .smi (g.range d) = .constant c := by
        cases hr : g.range d with
        | none => cases side <;> exact ⟨_,by decide,by decide,rfl⟩
        | some r =>
          refine clamp_cases .smi ((ih ((g.valid d r hr).side side)).imp_right ?_)
          exact fun ⟨c,_,h⟩ => ⟨c,h⟩
      obtain ⟨c,hmin,hmax,heq⟩ := hsmi
      have hc : IsInt64 c := by
        unfold IsInt64 kMinInt64 kMaxInt64
        unfold minConstant at hmin
        unfold maxConstant at hmax
        dsimp only at hmin hmax
        omega
      unfold Graph.boundAux
      rw [heq]
      unfold RangeBoundary.add
      dsimp only
      cases ho : willAddOverflow c offset with
      | true => exact Or.inl (if_pos rfl)
      | false => exact Or.inr ⟨c+offset,(willAddOverflow_eq_false hc).1 ho,if_neg (by simp)⟩

lemma Graph.height_le {d : ℕ} (hr : g.range d = some r) (side : Side) :
    g.height (side.ofRange r) ≤ g.rank d := by
  unfold Graph.height
  split
  · next s o hs => exact g.rank_lt d r hr s (Range.mentions_side hs)
  · exact zero_le _

lemma Graph.boundAux_eq (g : Graph) (side : Side) (m : ℕ) :
    ∀ b fuel fuel', g.height b < m → g.height b < fuel → g.height b < fuel' →
      g.boundAux side fuel b = g.boundAux side fuel' b := by
  induction m with
  | zero => exact fun _ _ _ h => absurd h (not_lt_zero _)
  | succ m ih =>
    intro b fuel fuel' hm hfuel hfuel'
    obtain ⟨fuel,rfl⟩ := exists_eq_succ_of_ne_zero (ne_zero_of_lt hfuel)
    obtain ⟨fuel',rfl⟩ := exists_eq_succ_of_ne_zero (ne_zero_of_lt hfuel')
    cases b with
    | negativeInfinity | positiveInfinity | constant => rfl
    | symbol d offset =>
      change g.rank d+1 < _ at hm hfuel hfuel'
      rw [Graph.boundAux,Graph.boundAux]
      congr 1
      cases hr : g.range d with
      | none => rfl
      | some r =>
        have hle := g.height_le hr side
        dsimp only [Graph.constantOf]
        rw [ih _ fuel fuel' (by omega) (by omega) (by omega)]

/-- The fuel of `bound` suffices: it satisfies the recursion of the source. -/
lemma Graph.bound_symbol (g : Graph) (side : Side) (d : ℕ) (offset : ℤ) :
    g.bound side (.symbol d offset) =
      .add (Graph.constantOf side (g.bound side) .smi (g.range d)) (.constant offset)
        side.infinity := by
  unfold Graph.bound
  rw [Graph.boundAux]
  congr 1
  cases hr : g.range d with
  | none => rfl
  | some r =>
    have hle := g.height_le hr side
    dsimp only [Graph.constantOf]
    rw [g.boundAux_eq side _ _ (g.height (.symbol d offset)) _ (lt_succ_self _)
      (lt_succ_of_le hle) (lt_succ_self _)]

/-- What a range says of a number through constants. -/
structure Graph.Between (g : Graph) (r : Range) (x : ℤ) : Prop where
  min_int64 : IsInt64 (g.constantMin r)
  max_int64 : IsInt64 (g.constantMax r)
  min_le : g.constantMin r ≤ x
  le_max : x ≤ g.constantMax r

lemma Graph.constantBound_eq (g : Graph) (hr : r.Valid g.kind) (side : Side) :
    IsInt64 (g.constantBound side r) ∧
      (g.bound side (side.ofRange r)).clamp .int64 = .constant (g.constantBound side r) := by
  have hcases := g.boundAux_cases side (hr.side side) (g.height (side.ofRange r)+1)
  obtain ⟨c,hmin,hmax,heq⟩ := clamp_cases .int64 (hcases.imp_right fun ⟨c,_,h⟩ => ⟨c,h⟩)
  have hval : g.constantBound side r = c := congrArg constantValue heq
  rw [hval]
  exact ⟨⟨hmin,hmax⟩,heq⟩

lemma Graph.between (hg : g.Respects ρ) (hsmi : g.SmiSymbols ρ)
    (hr : r.Valid g.kind) (hsym : ∀ s, r.Mentions s → IsSmi (ρ s)) (hx : IsInt64 x)
    (h : r.Contains ρ x) : g.Between r x := by
  have hside : ∀ side : Side, side.Bounds ρ x (.constant (g.constantBound side r)) := by
    intro side
    rw [← (g.constantBound_eq hr side).2]
    refine Side.Bounds.clamp hx (g.boundAux_sound hg hsmi _ ?_ (h.side side))
    exact fun s o hs => hsym s (Range.mentions_side hs)
  exact ⟨(g.constantBound_eq hr .lower).1,(g.constantBound_eq hr .upper).1,hside .lower,
    hside .upper⟩

lemma Graph.bound_constant (g : Graph) (side : Side) (hr : r.Valid g.kind) {c : ℤ}
    (h : g.bound side (side.ofRange r) = .constant c) : g.constantBound side r = c := by
  have hc : IsInt64 c := by
    rcases g.boundAux_cases side (hr.side side) (g.height (side.ofRange r)+1) with hinf | ⟨c',hc',heq⟩
    · rw [Graph.bound,hinf] at h
      cases side <;> cases h
    · rw [Graph.bound,heq] at h
      cases h
      exact hc'
  have heq := (g.constantBound_eq hr side).2
  rw [h] at heq
  have hclamp : (constant c).clamp .int64 = .constant c := by
    unfold IsInt64 at hc
    unfold clamp minConstant maxConstant
    dsimp only
    split_ifs with h1 h2
    · rw [constant.injEq]
      omega
    · rw [constant.injEq]
      omega
    · rfl
  rw [hclamp] at heq
  exact (constant.inj heq).symm

lemma Graph.le_constantMin (g : Graph) (hr : r.Valid g.kind) {v : ℤ}
    (h : g.onlyGreaterThanOrEqualTo r v = true) : v ≤ g.constantMin r := by
  unfold Graph.onlyGreaterThanOrEqualTo Graph.lowerBound at h
  split at h
  · next c hc =>
    rw [Graph.constantMin,g.bound_constant .lower hr hc]
    simpa using h
  · cases h

lemma Graph.constantMax_le (g : Graph) (hr : r.Valid g.kind) {v : ℤ}
    (h : g.onlyLessThanOrEqualTo r v = true) : g.constantMax r ≤ v := by
  unfold Graph.onlyLessThanOrEqualTo Graph.upperBound at h
  split at h
  · next c hc =>
    rw [Graph.constantMax,g.bound_constant .upper hr hc]
    simpa using h
  · cases h

end Bound

end DartSdk.RangeAnalysis
