import DartSdk.PlatformUtils

/-! The transfer functions of `vm/flow_graph_range_analysis.cc`. A boundary is an infinity, a
constant or a definition plus an offset; the unknown boundary of a range that is not inferred yet is
left out. Following symbols ends because symbols in the range of a definition come before it. Words
have 64 bits. -/
namespace DartSdk.RangeAnalysis
open Utils

inductive RangeSize
  | smi
  | int32
  | int64
  deriving DecidableEq, Repr

def minConstant : RangeSize → ℤ
  | .smi => -2^62
  | .int32 => -2^31
  | .int64 => kMinInt64

def maxConstant : RangeSize → ℤ
  | .smi => 2^62-1
  | .int32 => 2^31-1
  | .int64 => kMaxInt64

inductive RangeBoundary
  | negativeInfinity
  | positiveInfinity
  | symbol (defn : ℕ) (offset : ℤ)
  | constant (value : ℤ)
  deriving DecidableEq, Repr

namespace RangeBoundary

/-- Infinities are clamped to the limits of the size; symbols are not clamped. -/
def clamp (b : RangeBoundary) (size : RangeSize) : RangeBoundary :=
  match b with
  | .negativeInfinity => .constant (minConstant size)
  | .positiveInfinity => .constant (maxConstant size)
  | .constant value =>
    if value ≤ minConstant size then .constant (minConstant size)
    else if value ≥ maxConstant size then .constant (maxConstant size)
    else b
  | .symbol _ _ => b

/-- `ConstantValue`, which is asked of constants only. -/
def constantValue : RangeBoundary → ℤ
  | .constant value => value
  | _ => 0

def isInfinity : RangeBoundary → Bool
  | .negativeInfinity | .positiveInfinity => true
  | _ => false

/-- `Add`, for boundaries that are constants or infinities. -/
def add (a b overflow : RangeBoundary) : RangeBoundary :=
  match a, b with
  | .constant x, .constant y => if willAddOverflow x y then overflow else .constant (x+y)
  | _, _ => overflow

/-- `Sub`, for boundaries that are constants or infinities. -/
def sub (a b overflow : RangeBoundary) : RangeBoundary :=
  match a, b with
  | .constant x, .constant y => if willSubOverflow x y then overflow else .constant (x-y)
  | _, _ => overflow

def shl (value shiftCount : ℤ) (overflow : RangeBoundary) : RangeBoundary :=
  let limit := 64-shiftCount
  if value = 0 then .constant 0
  else if shiftCount = 0 ∨ (limit > 0 ∧ isInt limit.toNat value) then
    .constant (value <<< shiftCount.toNat)
  else overflow

/-- `Shr`; the machine takes the shift count modulo 64. -/
def shr (value shiftCount : ℤ) : RangeBoundary := .constant (value >>> (shiftCount%64).toNat)

end RangeBoundary

structure Range where
  min : RangeBoundary
  max : RangeBoundary
  deriving DecidableEq, Repr

def Range.isFinite (r : Range) : Bool := !r.min.isInfinity && !r.max.isInfinity

/-- What the analysis asks of a definition: a Smi constant, a constraint on another
definition, the load of an immutable length, or anything else. -/
inductive DefinitionKind
  | constant (smi : ℤ)
  | constraint (value : ℕ)
  | lengthLoad
  | other
  deriving DecidableEq, Repr

/-- Constants and offsets are 64-bit numbers, and `FromDefinition` makes no symbol of a Smi
constant. -/
def RangeBoundary.Valid (kind : ℕ → DefinitionKind) : RangeBoundary → Prop
  | .constant value => IsInt64 value
  | .symbol defn offset => IsInt64 offset ∧ ∀ smi, kind defn ≠ .constant smi
  | _ => True

structure Range.Valid (kind : ℕ → DefinitionKind) (r : Range) : Prop where
  min : r.min.Valid kind
  max : r.max.Valid kind

def Range.Mentions (r : Range) (defn : ℕ) : Prop :=
  (∃ offset, r.min = .symbol defn offset) ∨ ∃ offset, r.max = .symbol defn offset

/-- Definitions with their recorded ranges. Neither the symbols in ranges nor constraints
form cycles. -/
structure Graph where
  kind : ℕ → DefinitionKind
  range : ℕ → Option Range
  rank : ℕ → ℕ
  depth : ℕ → ℕ
  valid : ∀ d r, range d = some r → r.Valid kind
  rank_lt : ∀ d r, range d = some r → ∀ s, r.Mentions s → rank s < rank d
  depth_lt : ∀ d v, kind d = .constraint v → depth v < depth d

inductive Side
  | lower
  | upper
  deriving DecidableEq, Repr

namespace Side

def infinity : Side → RangeBoundary
  | .lower => .negativeInfinity
  | .upper => .positiveInfinity

def limit : Side → RangeSize → ℤ
  | .lower => minConstant
  | .upper => maxConstant

def ofRange : Side → Range → RangeBoundary
  | .lower => Range.min
  | .upper => Range.max

end Side

namespace Graph
variable (g : Graph)

def fromDefinition (defn : ℕ) (offset : ℤ) : RangeBoundary :=
  match g.kind defn with
  | .constant smi => .constant (wrap64 (smi+offset))
  | _ => .symbol defn offset

/-- `ConstantMin` and `ConstantMax` of a recorded range, by a way to bound its boundary. -/
def constantOf (side : Side) (bound : RangeBoundary → RangeBoundary) (size : RangeSize) :
    Option Range → RangeBoundary
  | none => .constant (side.limit size)
  | some r => (bound (side.ofRange r)).clamp size

/-- `LowerBound` and `UpperBound`, following at most `fuel` symbols. -/
def boundAux (side : Side) : ℕ → RangeBoundary → RangeBoundary
  | 0, _ => side.infinity
  | fuel+1, .symbol defn offset =>
    .add (constantOf side (boundAux side fuel) .smi (g.range defn)) (.constant offset) side.infinity
  | _+1, .constant value => .constant value
  | _+1, _ => side.infinity

/-- An upper bound for the number of symbols to follow. -/
def height : RangeBoundary → ℕ
  | .symbol defn _ => g.rank defn+1
  | _ => 0

def bound (side : Side) (b : RangeBoundary) : RangeBoundary := g.boundAux side (g.height b+1) b

def lowerBound : RangeBoundary → RangeBoundary := g.bound .lower

def upperBound : RangeBoundary → RangeBoundary := g.bound .upper

/-- `ConstantMin` and `ConstantMax` of a range for 64-bit numbers. -/
def constantBound (side : Side) (r : Range) : ℤ :=
  (constantOf side (g.bound side) .int64 (some r)).constantValue

def constantMin : Range → ℤ := g.constantBound .lower

def constantMax : Range → ℤ := g.constantBound .upper

def onlyLessThanOrEqualTo (r : Range) (val : ℤ) : Bool :=
  match g.upperBound r.max with
  | .constant value => value ≤ val
  | _ => false

def onlyGreaterThanOrEqualTo (r : Range) (val : ℤ) : Bool :=
  match g.lowerBound r.min with
  | .constant value => value ≥ val
  | _ => false

def isPositive (r : Range) : Bool := g.onlyGreaterThanOrEqualTo r 0

def isWithin (r : Range) (minInt maxInt : ℤ) : Bool :=
  g.onlyGreaterThanOrEqualTo r minInt && g.onlyLessThanOrEqualTo r maxInt

def onlyPositiveOrZero (a b : Range) : Bool :=
  g.onlyGreaterThanOrEqualTo a 0 && g.onlyGreaterThanOrEqualTo b 0

def onlyNegativeOrZero (a b : Range) : Bool :=
  g.onlyLessThanOrEqualTo a 0 && g.onlyLessThanOrEqualTo b 0

def constantAbsMax (r : Range) : ℤ := max (Utils.abs (g.constantMin r)) (Utils.abs (g.constantMax r))

def constantAbsMin (r : Range) : ℤ := min (Utils.abs (g.constantMin r)) (Utils.abs (g.constantMax r))

def symbolicAdd : RangeBoundary → RangeBoundary → Option RangeBoundary
  | .symbol defn offset, .constant value | .constant value, .symbol defn offset =>
    if willAddOverflow offset value then none else some (g.fromDefinition defn (offset+value))
  | _, _ => none

def symbolicSub : RangeBoundary → RangeBoundary → Option RangeBoundary
  | .symbol defn offset, .constant value =>
    if willSubOverflow offset value then none else some (g.fromDefinition defn (offset-value))
  | _, _ => none

def unwrapConstraintAux : ℕ → ℕ → ℕ
  | 0, defn => defn
  | fuel+1, defn =>
    match g.kind defn with
    | .constraint value => unwrapConstraintAux fuel value
    | _ => defn

def unwrapConstraint (defn : ℕ) : ℕ := g.unwrapConstraintAux (g.depth defn) defn

def isArrayLength : Option ℕ → Bool
  | none => false
  | some defn => g.kind (g.unwrapConstraint defn) = .lengthLoad

/-- The length itself is a better boundary than its range. -/
def leftBoundary (side : Side) (left : Range) (leftDefn : Option ℕ) : RangeBoundary :=
  match leftDefn with
  | some defn =>
    if g.isArrayLength leftDefn then g.fromDefinition defn 0 else side.ofRange left
  | none => side.ofRange left

section
variable (left right : Range)

def add (leftDefn : Option ℕ) : Range where
  min := (g.symbolicAdd (g.leftBoundary .lower left leftDefn) right.min).getD
    (.add (g.lowerBound left.min) (g.lowerBound right.min) .negativeInfinity)
  max := (g.symbolicAdd (g.leftBoundary .upper left leftDefn) right.max).getD
    (.add (g.upperBound right.max) (g.upperBound left.max) .positiveInfinity)

def sub (leftDefn : Option ℕ) : Range where
  min := (g.symbolicSub (g.leftBoundary .lower left leftDefn) right.max).getD
    (.sub (g.lowerBound left.min) (g.upperBound right.max) .negativeInfinity)
  max := (g.symbolicSub (g.leftBoundary .upper left leftDefn) right.min).getD
    (.sub (g.upperBound left.max) (g.lowerBound right.min) .positiveInfinity)

def mul : Range :=
  let leftMax := g.constantAbsMax left
  let rightMax := g.constantAbsMax right
  if leftMax ≤ -minConstant .smi ∧ rightMax ≤ -minConstant .smi ∧
      (leftMax = 0 ∨ rightMax ≤ kMaxInt64.tdiv leftMax) then
    let mulMax := wrap64 (leftMax*rightMax)
    if g.onlyPositiveOrZero left right || g.onlyNegativeOrZero left right then
      ⟨.constant (wrap64 (g.constantAbsMin left*g.constantAbsMin right)),.constant mulMax⟩
    else ⟨.constant (wrap64 (-mulMax)),.constant mulMax⟩
  else if g.onlyPositiveOrZero left right || g.onlyNegativeOrZero left right then
    ⟨.constant 0,.positiveInfinity⟩
  else ⟨.negativeInfinity,.positiveInfinity⟩

def shl : Range :=
  let leftMin := g.constantMin left
  let leftMax := g.constantMax left
  let rightMin := max (g.constantMin right) 0
  let rightMax := max (g.constantMax right) 0
  ⟨.shl leftMin (if leftMin > 0 then rightMin else rightMax)
      (if leftMin > 0 then .positiveInfinity else .negativeInfinity),
    .shl leftMax (if leftMax > 0 then rightMax else rightMin)
      (if leftMax > 0 then .positiveInfinity else .negativeInfinity)⟩

/-- The shift counts that `Range::Shr` uses for its minimum and for its maximum. -/
def shrCounts : ℤ × ℤ :=
  let rightMin := max (g.constantMin right) 0
  let rightMax := max (g.constantMax right) 0
  (if g.constantMin left > 0 then rightMax else rightMin,
    if g.constantMax left > 0 then rightMin else rightMax)

def shr : Range :=
  ⟨.shr (g.constantMin left) (g.shrCounts left right).1,
    .shr (g.constantMax left) (g.shrCounts left right).2⟩

end

def bitSize (r : Range) : ℕ := max (bitLength (g.constantMin r)) (bitLength (g.constantMax r))

def bitwiseOp (left right : Range) : Range :=
  let bitsize := max (g.bitSize left) (g.bitSize right)
  ⟨.constant (if g.isPositive left && g.isPositive right then 0 else wrap64 ((-1 : ℤ) <<< bitsize)),
    .constant (wrap64 ((1 : ℤ) <<< bitsize-1))⟩

def and (left right : Range) : Range :=
  if g.constantMin right ≥ 0 then ⟨.constant 0,.constant (g.constantMax right)⟩
  else if g.constantMin left ≥ 0 then ⟨.constant 0,.constant (g.constantMax left)⟩
  else g.bitwiseOp left right

end Graph

inductive Token
  | add
  | sub
  | mul
  | shl
  | shr
  | bitAnd
  | bitOr
  | bitXor
  deriving DecidableEq, Repr

def Graph.binaryOp (g : Graph) (op : Token) (left right : Range) (leftDefn : Option ℕ) : Range :=
  match op with
  | .add => g.add left right leftDefn
  | .sub => g.sub left right leftDefn
  | .mul => g.mul left right
  | .shl => g.shl left right
  | .shr => g.shr left right
  | .bitAnd => g.and left right
  | .bitOr | .bitXor => g.bitwiseOp left right

end DartSdk.RangeAnalysis
