import DartSdk.RangeAnalysisBinaryOp

/-! `CheckArrayBoundInstr::IsRedundant`: a check of an index is removed when its range shows that
the index is below the length. Loops have fuel, and `none` is a loop that did not end. -/
namespace DartSdk.RangeAnalysis
open Utils Option

structure SmiOp where
  token : Token
  left : ℕ
  right : ℕ

/-- `equals` are two instructions that allow CSE, have no dependencies and are `Equals`. -/
structure SmiGraph extends Graph where
  op : ℕ → Option SmiOp
  equals : ℕ → ℕ → Bool

def RangeBoundary.overflowedSmi : RangeBoundary → Bool
  | .constant value => value < minConstant .smi || maxConstant .smi < value
  | .symbol _ _ => false
  | _ => true

def RangeBoundary.offset : RangeBoundary → ℤ
  | .symbol _ offset => offset
  | _ => 0

namespace SmiGraph
variable (g : SmiGraph)

def dependOnSameSymbol : RangeBoundary → RangeBoundary → Bool
  | .symbol a _, .symbol b _ =>
    let a := g.unwrapConstraint a
    let b := g.unwrapConstraint b
    a = b || g.equals a b
  | _, _ => false

/-- The loop of `CanonicalizeBoundary`. -/
def canonicalizeSymbol (overflow : RangeBoundary) : ℕ → ℕ → ℤ → Option RangeBoundary
  | 0, _, _ => none
  | fuel+1, symbol, offset =>
    match g.kind symbol, g.op symbol with
    | .constraint value, _ => canonicalizeSymbol overflow fuel value offset
    | _, some ⟨.add,left,right⟩ =>
      match g.kind right, g.kind left with
      | .constant rhs, _ =>
        if willAddOverflow offset rhs then some overflow
        else canonicalizeSymbol overflow fuel left (offset+rhs)
      | _, .constant rhs =>
        if willAddOverflow offset rhs then some overflow
        else canonicalizeSymbol overflow fuel right (offset+rhs)
      | _, _ => some (g.fromDefinition symbol offset)
    | _, some ⟨.sub,left,right⟩ =>
      match g.kind right with
      | .constant rhs =>
        if willSubOverflow offset rhs then some overflow
        else canonicalizeSymbol overflow fuel left (offset-rhs)
      | _ => some (g.fromDefinition symbol offset)
    | _, _ => some (g.fromDefinition symbol offset)

def canonicalizeBoundary (fuel : ℕ) (overflow : RangeBoundary) : RangeBoundary → Option RangeBoundary
  | .symbol symbol offset => g.canonicalizeSymbol overflow fuel symbol offset
  | a => some a

/-- `CanonicalizeMinBoundary` and `CanonicalizeMaxBoundary`; an unchanged boundary is `none`. -/
def canonicalizeSide (side : Side) (fuel : ℕ) : RangeBoundary → Option (Option RangeBoundary)
  | .symbol symbol offset =>
    match (g.range symbol).map side.ofRange with
    | some (.symbol s o) =>
      if willAddOverflow o offset then some side.infinity
      else (g.canonicalizeBoundary fuel side.infinity (g.fromDefinition s (o+offset))).map some
    | _ => some none
  | _ => some none

def compareSymbolic : ℕ → RangeBoundary → RangeBoundary → Option Bool
  | 0, _, _ => none
  | fuel+1, max, length =>
    if g.dependOnSameSymbol max length then some (max.offset < length.offset)
    else do
      match ← g.canonicalizeSide .upper fuel max with
      | some max => compareSymbolic fuel max length
      | none =>
        match ← g.canonicalizeSide .lower fuel length with
        | some length => compareSymbolic fuel max length
        | none => some false

/-- The range of the index; a Smi constant without one gets its own. -/
def indexRange (index : ℕ) : Option Range :=
  match g.range index, g.kind index with
  | none, .constant smi => some ⟨.constant smi,.constant smi⟩
  | range, _ => range

def isRedundant (fuel index : ℕ) (length : RangeBoundary) : Option Bool :=
  match g.indexRange index with
  | none => some false
  | some r =>
    if (Graph.constantOf .lower g.lowerBound .smi (some r)).constantValue < 0 then some false
    else do
      let max ← g.canonicalizeBoundary fuel .positiveInfinity (g.fromDefinition index 0)
      let maxUpper := g.upperBound max
      let lengthLower := g.lowerBound length
      if max.overflowedSmi || maxUpper.overflowedSmi || lengthLower.overflowedSmi then some false
      else if maxUpper.constantValue < lengthLower.constantValue then some true
      else do
        let length ← g.canonicalizeBoundary fuel .positiveInfinity length
        if length.overflowedSmi then some false else g.compareSymbolic fuel max length

/-- An assignment that satisfies the definitions, which are Smis in their recorded ranges. -/
structure Satisfies (ρ : ℕ → ℤ) : Prop where
  smi : ∀ d, IsSmi (ρ d)
  respects : g.Respects ρ
  constant : ∀ d c, g.kind d = .constant c → ρ d = c
  constraint : ∀ d v, g.kind d = .constraint v → ρ d = ρ v
  add : ∀ d l r, g.op d = some ⟨.add,l,r⟩ → ρ d = ρ l+ρ r
  sub : ∀ d l r, g.op d = some ⟨.sub,l,r⟩ → ρ d = ρ l-ρ r
  equals : ∀ a b, g.equals a b → ρ a = ρ b

/-- The integer that a boundary stands for. -/
def Denotes (ρ : ℕ → ℤ) (x : ℤ) : RangeBoundary → Prop
  | .symbol d o => x = ρ d+o
  | .constant c => x = c
  | _ => False

variable {g} {ρ : ℕ → ℤ} {side : Side} {b b' w : RangeBoundary} {x y : ℤ}

variable (h : g.Satisfies ρ)
include h

lemma Satisfies.unwrapConstraint (d : ℕ) : ρ (g.unwrapConstraint d) = ρ d := by
  have haux : ∀ fuel d, ρ (g.unwrapConstraintAux fuel d) = ρ d := by
    intro fuel
    induction fuel with
    | zero => exact fun _ => rfl
    | succ fuel ih =>
      intro d
      unfold Graph.unwrapConstraintAux
      split
      · next v hv => rw [ih,h.constraint d v hv]
      · rfl
  exact haux _ d

/-- A symbolic boundary is exact; a constant one was computed in 64 bits. -/
def Exact (ρ : ℕ → ℤ) (x : ℤ) : RangeBoundary → Prop
  | .symbol s o => x = ρ s+o
  | .constant c => c = wrap64 x
  | _ => True

lemma Satisfies.fromDefinition (d : ℕ) (o : ℤ) : Exact ρ (ρ d+o) (g.fromDefinition d o) := by
  unfold Graph.fromDefinition
  split
  · next c hc => simp [Exact,h.constant d c hc]
  · rfl

lemma Satisfies.canonicalizeSymbol (ho : Exact ρ x w) (fuel : ℕ) :
    ∀ {d : ℕ} {o : ℤ}, x = ρ d+o → g.canonicalizeSymbol w fuel d o = some b → Exact ρ x b := by
  induction fuel with
  | zero => simp [SmiGraph.canonicalizeSymbol]
  | succ fuel ih =>
    intro d o hx hb
    have hd := hx ▸ h.fromDefinition d o
    unfold SmiGraph.canonicalizeSymbol at hb
    split at hb
    · next v hv => exact ih (by rw [hx,h.constraint d v hv]) hb
    · next l r hop _ =>
      have hsum := h.add d l r hop
      split at hb
      · next c hc =>
        have := h.constant r c hc
        split_ifs at hb
        · exact some.inj hb ▸ ho
        · exact ih (by omega) hb
      · next c hc _ =>
        have := h.constant l c hc
        split_ifs at hb
        · exact some.inj hb ▸ ho
        · exact ih (by omega) hb
      · exact some.inj hb ▸ hd
    · next l r hop _ =>
      have hdiff := h.sub d l r hop
      split at hb
      · next c hc =>
        have := h.constant r c hc
        split_ifs at hb
        · exact some.inj hb ▸ ho
        · exact ih (by omega) hb
      · exact some.inj hb ▸ hd
    · exact some.inj hb ▸ hd

lemma Satisfies.canonicalizeBoundary (ho : Exact ρ x w) {a : RangeBoundary}
    (ha : Exact ρ x a) {fuel : ℕ} (hb : g.canonicalizeBoundary fuel w a = some b) : Exact ρ x b := by
  cases a with
  | symbol => exact h.canonicalizeSymbol ho fuel ha hb
  | _ => exact some.inj hb ▸ ha

/-- A symbolic boundary is a bound for `x`. -/
def SymbolBounds (ρ : ℕ → ℤ) (side : Side) (x : ℤ) (b : RangeBoundary) : Prop :=
  ∀ s o, b = .symbol s o → side.Bounds ρ x b

lemma Satisfies.canonicalizeSide {fuel : ℕ} (hx : SymbolBounds ρ side x b)
    (hb : g.canonicalizeSide side fuel b = some (some b')) : SymbolBounds ρ side x b' := by
  rintro s' o' rfl
  unfold SmiGraph.canonicalizeSide at hb
  split at hb
  · next d o =>
    have hd := hx d o rfl
    split at hb
    · next s e hr =>
      obtain ⟨r,hr,hside⟩ := map_eq_some_iff.1 hr
      have hrange := (h.respects d r hr).side side
      rw [hside] at hrange
      split_ifs at hb
      · cases side <;> cases hb
      · obtain ⟨c,hc,he⟩ := map_eq_some_iff.1 hb
        cases he
        have hexact : ρ s+(e+o) = ρ s'+o' :=
          h.canonicalizeBoundary (by cases side <;> trivial) (h.fromDefinition s (e+o)) hc
        cases side <;> simp only [Side.Bounds] at * <;> omega
    · cases hb
  · cases hb

lemma Satisfies.compareSymbolic (fuel : ℕ) : ∀ {b b' : RangeBoundary}, SymbolBounds ρ .upper x b →
      SymbolBounds ρ .lower y b' → g.compareSymbolic fuel b b' = some true → x < y := by
  induction fuel with
  | zero => simp [SmiGraph.compareSymbolic]
  | succ fuel ih =>
    intro b b' hx hy hrun
    unfold SmiGraph.compareSymbolic at hrun
    split_ifs at hrun with hsame
    · unfold dependOnSameSymbol at hsame
      split at hsame
      · next a o d o' =>
        have ha := h.unwrapConstraint a
        have hd := h.unwrapConstraint d
        have hx := hx a o rfl
        have hy := hy d o' rfl
        have heq : ρ a = ρ d := by
          rw [← ha,← hd]
          simp only [Bool.or_eq_true,decide_eq_true_eq] at hsame
          exact hsame.elim (congrArg ρ) (h.equals _ _)
        simp only [Side.Bounds] at hx hy
        have hlt : o < o' := of_decide_eq_true (some.inj hrun)
        omega
      · cases hsame
    · obtain ⟨max,hmax,hrun⟩ := bind_eq_some_iff.1 hrun
      cases max with
      | some max => exact ih (h.canonicalizeSide hx hmax) hy hrun
      | none =>
        obtain ⟨length,hlen,hrun⟩ := bind_eq_some_iff.1 hrun
        cases length with
        | some length => exact ih hx (h.canonicalizeSide hy hlen) hrun
        | none => cases hrun

omit h

lemma bound_cases (g : Graph) (side : Side) (b : RangeBoundary) :
    g.bound side b = side.infinity ∨ ∃ c, g.bound side b = .constant c := by
  unfold Graph.bound Graph.boundAux
  cases b with
  | symbol =>
    dsimp only
    unfold RangeBoundary.add
    split
    · split_ifs <;> simp
    · exact .inl rfl
  | constant c => exact .inr ⟨c,rfl⟩
  | _ => exact .inl rfl

section
variable (h : g.Satisfies ρ)
include h

lemma Satisfies.bound (hb : side.Bounds ρ x b) : side.Bounds ρ x (g.bound side b) :=
  g.boundAux_sound h.respects (fun _ _ _ s _ => h.smi s) _ (fun s _ _ => h.smi s) hb

lemma Satisfies.bound_constant (hb : side.Bounds ρ x b)
    (ho : (g.bound side b).overflowedSmi = false) :
    side.Bounds ρ x (.constant (g.bound side b).constantValue) := by
  have hbound := h.bound hb
  rcases bound_cases g.toGraph side b with hc | ⟨c,hc⟩
  · cases side <;> simp [hc,Side.infinity,RangeBoundary.overflowedSmi] at ho
  · rw [hc] at hbound ⊢
    exact hbound

lemma Satisfies.nonneg {r : Range} {d : ℕ} (hr : r.Contains ρ (ρ d))
    (hmin : ¬ ((g.lowerBound r.min).clamp .smi).constantValue < 0) : 0 ≤ ρ d := by
  obtain ⟨c, -, -,hc⟩ := clamp_cases .smi (bound_cases g.toGraph .lower r.min)
  have hclamp := (h.bound hr.min).clamp (h.smi d)
  rw [Graph.lowerBound,hc] at hmin
  rw [hc] at hclamp
  exact (not_lt.1 hmin).trans hclamp

lemma Satisfies.indexRange {index : ℕ} {r : Range}
    (hr : g.indexRange index = some r) : r.Contains ρ (ρ index) := by
  unfold SmiGraph.indexRange at hr
  split at hr
  · next c _ hc =>
    cases hr
    have := h.constant index c hc
    exact ⟨this.ge,this.le⟩
  · exact h.respects index r hr

/-- The canonical boundary of the index is the index itself. -/
lemma Satisfies.canonicalizeIndex {fuel index : ℕ}
    (hb : g.canonicalizeBoundary fuel .positiveInfinity (g.fromDefinition index 0) = some b)
    (ho : b.overflowedSmi = false) : Side.upper.Bounds ρ (ρ index) b := by
  have hexact := h.canonicalizeBoundary (w := .positiveInfinity) trivial (h.fromDefinition index 0) hb
  rw [add_zero] at hexact
  have hint : wrap64 (ρ index) = ρ index := wrap64_of_isInt64 (by
    have := h.smi index
    simp only [IsSmi,minConstant,maxConstant] at this
    unfold IsInt64 kMinInt64 kMaxInt64
    omega)
  cases b with
  | symbol => exact hexact.le
  | constant c => exact (hexact.trans hint).ge
  | _ => simp [RangeBoundary.overflowedSmi] at ho

end

end SmiGraph
end DartSdk.RangeAnalysis
