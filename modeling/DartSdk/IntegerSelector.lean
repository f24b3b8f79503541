import DartSdk.RangeAnalysisBinaryOp
import DartSdk.TruncatedArithmetic

/-! `IntegerInstructionSelector` of `vm/flow_graph_range_analysis.cc` replaces operations on 64-bit
integers by operations modulo `2 ^ 32` where the high bits are not needed. Definitions are numbered
by their SSA temporary; instructions that the selector does not look at, constants included, are
`other`. A semantics of both kinds of instructions follows. -/
namespace DartSdk.IntegerSelector
open Utils RangeAnalysis

/-- The operators of `BinaryMintOp` and `BinaryUint32Op`. -/
inductive BinaryKind
  | bitAnd
  | bitOr
  | bitXor
  | add
  | sub
  | mul
  deriving DecidableEq, Repr

def BinaryKind.token : BinaryKind → Token
  | .bitAnd => .bitAnd
  | .bitOr => .bitOr
  | .bitXor => .bitXor
  | .add => .add
  | .sub => .sub
  | .mul => .mul

/-- The operators of `ShiftMintOp` and `ShiftUint32Op`. -/
inductive ShiftKind
  | shl
  | shr
  deriving DecidableEq, Repr

def ShiftKind.token : ShiftKind → Token
  | .shl => .shl
  | .shr => .shr

inductive Operation
  | boxInt64 (value : ℕ)
  | unboxInt64 (value : ℕ)
  | binaryMintOp (opKind : BinaryKind) (left right : ℕ)
  | shiftMintOp (opKind : ShiftKind) (left right : ℕ)
  | unaryMintOp (value : ℕ)
  | boxUint32 (value : ℕ)
  | unboxUint32 (value : ℕ)
  | binaryUint32Op (opKind : BinaryKind) (left right : ℕ)
  | shiftUint32Op (opKind : ShiftKind) (left right : ℕ)
  | unaryUint32Op (value : ℕ)
  | other (inputs : List ℕ)
  deriving DecidableEq, Repr

def Operation.inputs : Operation → List ℕ
  | .boxInt64 value | .unboxInt64 value | .unaryMintOp value => [value]
  | .boxUint32 value | .unboxUint32 value | .unaryUint32Op value => [value]
  | .binaryMintOp _ left right | .shiftMintOp _ left right => [left,right]
  | .binaryUint32Op _ left right | .shiftUint32Op _ left right => [left,right]
  | .other inputs => inputs

/-- An instruction; it is a definition if it has an SSA temporary. -/
structure Instruction where
  ssaTempIndex : Option ℕ
  operation : Operation
  env : List ℕ
  deriving DecidableEq, Repr

structure Phi where
  ssaTempIndex : ℕ
  inputs : List ℕ
  deriving DecidableEq, Repr

structure Block where
  phis : List Phi
  instructions : List Instruction
  deriving DecidableEq, Repr

def Block.definitions (b : Block) : List ℕ :=
  b.phis.map Phi.ssaTempIndex ++ b.instructions.filterMap Instruction.ssaTempIndex

/-- A flow graph in SSA form with recorded ranges; `blocks` is the reverse postorder. -/
structure FlowGraph where
  blocks : List Block
  ranges : RangeAnalysis.Graph
  nodup : (blocks.flatMap Block.definitions).Nodup

namespace FlowGraph
variable (g : FlowGraph)

/-- The users of a definition by an input, with their own SSA temporaries. -/
def inputUseList (defn : ℕ) : List (Option ℕ) :=
  g.blocks.flatMap fun b =>
    (b.phis.filter fun phi => defn ∈ phi.inputs).map (fun phi => some phi.ssaTempIndex) ++
      (b.instructions.filter fun i => defn ∈ i.operation.inputs).map Instruction.ssaTempIndex

/-- The instructions with the definition in their environment. -/
def envUseList (defn : ℕ) : List (Option ℕ) :=
  g.blocks.flatMap fun b =>
    (b.instructions.filter fun i => defn ∈ i.env).map Instruction.ssaTempIndex

def hasUses (defn : ℕ) : Bool := g.inputUseList defn ≠ [] ∨ g.envUseList defn ≠ []

end FlowGraph

def isPotentialUint32Definition : Operation → Bool
  | .boxInt64 _ | .unboxInt64 _ | .binaryMintOp _ _ _ | .shiftMintOp _ _ _ | .unaryMintOp _ => true
  | _ => false

namespace FlowGraph
variable (g : FlowGraph)

def findPotentialUint32Definitions : List (ℕ × Operation) :=
  g.blocks.flatMap fun b => b.instructions.filterMap fun i =>
    i.ssaTempIndex.bind fun defn =>
      if isPotentialUint32Definition i.operation then some (defn,i.operation) else none

def kMaxUint32 : ℤ := 2^32-1

def isWithinUint32 (defn : ℕ) : Bool :=
  match g.ranges.range defn with
  | none => false
  | some range => g.ranges.isWithin range 0 kMaxUint32

/-- A mask into the range of a Uint32. -/
def isUint32NarrowingDefinition (defn : ℕ) : Operation → Bool
  | .binaryMintOp .bitAnd _ _ => g.isWithinUint32 defn
  | _ => false

def findUint32NarrowingDefinitions : Finset ℕ :=
  ((g.findPotentialUint32Definitions.filter fun d =>
    g.isUint32NarrowingDefinition d.1 d.2).map Prod.fst).toFinset

def allUsesAreUint32Narrowing (selected : Finset ℕ) (uses : List (Option ℕ)) : Bool :=
  uses.all fun use =>
    match use with
    | none => false
    | some defn => defn ∈ selected

/-- A right shift of a number outside of Uint32 needs the high bits. -/
def needsHighBits : Operation → Bool
  | .shiftMintOp .shr left _ => !g.isWithinUint32 left
  | _ => false

def canBecomeUint32 (selected : Finset ℕ) (defn : ℕ) : Operation → Bool
  | .boxInt64 value => value ∈ selected
  | op =>
    if g.needsHighBits op then false
    else if !g.hasUses defn then false
    else allUsesAreUint32Narrowing selected (g.inputUseList defn) &&
      allUsesAreUint32Narrowing selected (g.envUseList defn)

/-- One definition in a pass of `Propagate`; the flag tells whether something changed. -/
def propagateStep (s : Finset ℕ × Bool) (d : ℕ × Operation) : Finset ℕ × Bool :=
  if d.1 ∈ s.1 then s
  else if g.canBecomeUint32 s.1 d.1 d.2 then (insert d.1 s.1,true)
  else s

def propagatePass (selected : Finset ℕ) : Finset ℕ × Bool :=
  g.findPotentialUint32Definitions.foldl g.propagateStep (selected,false)

/-- At most `fuel` passes. -/
def propagateAux : ℕ → Finset ℕ → Option (Finset ℕ)
  | 0, _ => none
  | fuel+1, selected =>
    let (selected,changed) := g.propagatePass selected
    if changed then propagateAux fuel selected else some selected

def propagate (selected : Finset ℕ) : Option (Finset ℕ) :=
  g.propagateAux (g.findPotentialUint32Definitions.length+1) selected

def selectedUint32Defs : Option (Finset ℕ) := g.propagate g.findUint32NarrowingDefinitions

end FlowGraph

/-- The operation modulo `2 ^ 32`; other operations than these are not selected. -/
def constructReplacementFor : Operation → Operation
  | .binaryMintOp opKind left right => .binaryUint32Op opKind left right
  | .boxInt64 value => .boxUint32 value
  | .unboxInt64 value => .unboxUint32 value
  | .unaryMintOp value => .unaryUint32Op value
  | .shiftMintOp opKind left right => .shiftUint32Op opKind left right
  | op => op

section
variable (selected : Finset ℕ)

/-- The replacement keeps the SSA temporary and the environment. -/
def Instruction.replace (i : Instruction) : Instruction :=
  match i.ssaTempIndex with
  | none => i
  | some defn =>
    if defn ∈ selected then ⟨i.ssaTempIndex,constructReplacementFor i.operation,i.env⟩ else i

@[simp] lemma Instruction.replace_ssaTempIndex (i : Instruction) :
    (i.replace selected).ssaTempIndex = i.ssaTempIndex := by
  unfold Instruction.replace
  split
  · rfl
  · split <;> rfl

def Block.replace (b : Block) : Block :=
  ⟨b.phis,b.instructions.map (Instruction.replace selected)⟩

lemma Block.replace_definitions (b : Block) : (b.replace selected).definitions = b.definitions := by
  unfold Block.definitions Block.replace
  rw [List.filterMap_map]
  congr 2
  funext i
  exact i.replace_ssaTempIndex selected

end

def FlowGraph.replaceInstructions (g : FlowGraph) (selected : Finset ℕ) : FlowGraph where
  blocks := g.blocks.map (Block.replace selected)
  ranges := g.ranges
  nodup := by
    rw [List.flatMap_map,funext (Block.replace_definitions selected)]
    exact g.nodup

def FlowGraph.select (g : FlowGraph) : Option FlowGraph :=
  g.selectedUint32Defs.map g.replaceInstructions

/-- An integer, boxed or not, or another object. -/
inductive Value (α : Type)
  | int (n : ℤ)
  | object (o : α)
  deriving DecidableEq, Repr

section Semantics
variable {α W : Type}

/-- An operation on 64-bit integers deoptimizes if its result does not fit. -/
def fit (v : ℤ) : Option (Value α) := if IsInt64 v then some (.int v) else none

def kMintShiftCountLimit : ℤ := 63

/-- The result of an integer operation; `none` is a deoptimization. -/
def eval : Operation → List (Value α) → Option (Value α)
  | .boxInt64 _, [.int v] => some (.int v)
  | .unboxInt64 _, [.int v] => fit v
  | .binaryMintOp opKind _ _, [.int l,.int r] => fit (opKind.token.exact l r)
  | .shiftMintOp opKind _ _, [.int l,.int r] =>
    if 0 ≤ r ∧ r ≤ kMintShiftCountLimit then fit (opKind.token.exact l r) else none
  | .unaryMintOp _, [.int v] => some (.int (-v-1))
  | .boxUint32 _, [.int v] => some (.int (v%2^32))
  | .unboxUint32 _, [.int v] => some (.int (v%2^32))
  | .binaryUint32Op opKind _ _, [.int l,.int r] =>
    some (.int (opKind.token.exact (l%2^32) (r%2^32)%2^32))
  | .shiftUint32Op opKind _ _, [.int l,.int r] =>
    if 0 ≤ r then some (.int (opKind.token.exact (l%2^32) r%2^32)) else none
  | .unaryUint32Op _, [.int v] => some (.int ((-(v%2^32)-1)%2^32))
  | _, _ => none

/-- Where the control goes after an instruction: to the next one, or to the entry of a block
from its predecessor of the given number. -/
inductive Target
  | next
  | jump (block predecessor : ℕ)

/-- What the other instructions do, from what they observe: the values of their inputs and of
their environments. -/
structure Behaviour (α W : Type) where
  respond (block position : ℕ) (world : W) (inputs env : List (Option (Value α))) :
    Option (W × Value α × Target)

/-- Position 0 is the entry of a block, position `k + 1` is at its instruction `k`. -/
structure State (α W : Type) where
  block : ℕ
  predecessor : ℕ
  position : ℕ
  store : ℕ → Option (Value α)
  world : W

/-- All phis of a block read their inputs at once. -/
def Block.enter (b : Block) (predecessor : ℕ) (store : ℕ → Option (Value α)) :
    ℕ → Option (Value α) := fun defn =>
  match b.phis.find? fun phi => phi.ssaTempIndex = defn with
  | none => store defn
  | some phi => phi.inputs[predecessor]?.bind store

def Instruction.assign (i : Instruction) (v : Value α) (store : ℕ → Option (Value α)) :
    ℕ → Option (Value α) :=
  match i.ssaTempIndex with
  | none => store
  | some defn => Function.update store defn (some v)

def State.continueWith (s : State α W) (i : Instruction) : W × Value α × Target → State α W
  | (world,v,.next) => ⟨s.block,s.predecessor,s.position+1,i.assign v s.store,world⟩
  | (world,v,.jump block predecessor) => ⟨block,predecessor,0,i.assign v s.store,world⟩

def Instruction.execute (β : Behaviour α W) (s : State α W) (i : Instruction) :
    Option (State α W) :=
  match i.operation with
  | .other inputs =>
    (β.respond s.block s.position s.world (inputs.map s.store) (i.env.map s.store)).map
      (s.continueWith i)
  | op =>
    ((op.inputs.mapM s.store).bind (eval op)).map fun v => s.continueWith i (s.world,v,.next)

def FlowGraph.step (β : Behaviour α W) (g : FlowGraph) (s : State α W) : Option (State α W) :=
  g.blocks[s.block]?.bind fun b =>
    match s.position with
    | 0 => some ⟨s.block,s.predecessor,1,b.enter s.predecessor s.store,s.world⟩
    | k+1 => b.instructions[k]?.bind (Instruction.execute β s)

def FlowGraph.runFor (β : Behaviour α W) (g : FlowGraph) : ℕ → State α W → Option (State α W)
  | 0, s => some s
  | n+1, s => (g.runFor β n s).bind (g.step β)

/-- The values that the instruction at the current position, or the phis at a block entry,
read from their inputs and from the environment. -/
def FlowGraph.observed (g : FlowGraph) (s : State α W) :
    List (Option (Value α)) × List (Option (Value α)) :=
  match g.blocks[s.block]?, s.position with
  | none, _ => ([],[])
  | some b, 0 => (b.phis.map fun phi => phi.inputs[s.predecessor]?.bind s.store,[])
  | some b, k+1 =>
    match b.instructions[k]? with
    | none => ([],[])
    | some i => (i.operation.inputs.map s.store,i.env.map s.store)

/-- The current instruction is a selected definition. -/
def FlowGraph.AtSelected (g : FlowGraph) (selected : Finset ℕ) (s : State α W) : Prop :=
  ∃ b k i defn, g.blocks[s.block]? = some b ∧ s.position = k+1 ∧ b.instructions[k]? = some i ∧
    i.ssaTempIndex = some defn ∧ defn ∈ selected

/-- Every integer is in the recorded range of its definition. -/
def FlowGraph.RangesHold (g : FlowGraph) (store : ℕ → Option (Value α)) : Prop :=
  ∀ defn range v, g.ranges.range defn = some range → store defn = some (.int v) →
    g.ranges.constantMin range ≤ v ∧ v ≤ g.ranges.constantMax range

end Semantics

end DartSdk.IntegerSelector
