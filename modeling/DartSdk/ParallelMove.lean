import Mathlib

/-! `ParallelMoveResolver` turns a set of simultaneous assignments into a sequence of moves and
swaps. The model keeps the in-place move list and records the operations that `EmitMove` and
`EmitSwap` assemble; a failed `ASSERT` is `none`. Locations follow the kinds of `vm/locations.h`,
which promises that bitwise unequal ones are disjoint. -/
namespace DartSdk

/-- Constraint that an unallocated location puts on the register allocator. -/
inductive Policy
  | any
  | prefersRegister
  | requiresRegister
  | requiresFpuRegister
  | writableRegister
  | sameAsFirstInput
  deriving DecidableEq, Repr

/-- Constants are named by their `ConstantInstr`, pairs by their `PairLocation`. -/
inductive Location
  | invalid
  | constant (instr : ℕ)
  | pairLocation (pair : ℕ)
  | unallocated (policy : Policy)
  | stackSlot (base : ℕ) (index : ℤ)
  | doubleStackSlot (index : ℤ)
  | quadStackSlot (index : ℤ)
  | register (reg : ℕ)
  | fpuRegister (reg : ℕ)
  deriving DecidableEq, Repr

namespace Location

def isInvalid : Location → Bool
  | invalid => true
  | _ => false

def isConstant : Location → Bool
  | constant _ => true
  | _ => false

def isUnallocated : Location → Bool
  | unallocated _ => true
  | _ => false

def isMachineRegister : Location → Bool
  | register _ => true
  | fpuRegister _ => true
  | _ => false

def hasStackIndex : Location → Bool
  | stackSlot _ _ => true
  | doubleStackSlot _ => true
  | quadStackSlot _ => true
  | _ => false

variable (l : Location)

/-- A place that machine code can write: a register or a stack slot. -/
def isStorage : Bool := l.isMachineRegister || l.hasStackIndex

@[simp] lemma isInvalid_iff : l.isInvalid = true ↔ l = invalid := by
  cases l <;> simp [isInvalid]

@[simp] lemma isInvalid_eq_false : l.isInvalid = false ↔ l ≠ invalid := by
  cases l <;> simp [isInvalid]

lemma isStorage_ne_invalid {l : Location} (h : l.isStorage = true) : l ≠ invalid := by
  rintro rfl
  simp [isStorage,isMachineRegister,hasStackIndex] at h

lemma isStorage_not_constant {l : Location} (h : l.isStorage = true) : l.isConstant = false := by
  cases l <;> simp_all [isStorage,isMachineRegister,hasStackIndex,isConstant]

end Location

end DartSdk

namespace DartSdk.ParallelMove
open Location

structure MoveOperands where
  dest : Location
  src : Location
  deriving DecidableEq, Repr

namespace MoveOperands

/-- Both operands are cleared once a move has been performed. -/
def eliminated : MoveOperands := ⟨.invalid,.invalid⟩

variable (m : MoveOperands)

def isEliminated : Bool := m.src.isInvalid

/-- In-progress moves have lost their destination but not their source. -/
def isPending : Bool := m.dest.isInvalid && !m.src.isInvalid

def blocks (loc : Location) : Bool := !m.isEliminated && m.src = loc

def isRedundant : Bool :=
  m.isEliminated || m.dest.isInvalid || m.src = m.dest

end MoveOperands

/-- One assembled operation, with the registers it may use as scratch. -/
inductive Op
  | move (destination source : Location) (scratch : List Location)
  | swap (destination source : Location) (scratch : List Location)
  deriving DecidableEq, Repr

structure Resolver where
  moves : List MoveOperands
  code : List Op
  deriving DecidableEq, Repr

namespace Resolver

section
variable (r : Resolver)

/-- `moves_[i]`; out of range the list reads as already eliminated. -/
def moveAt (i : ℕ) : MoveOperands := r.moves.getD i .eliminated

def set (i : ℕ) (m : MoveOperands) : Resolver :=
  { r with moves := r.moves.set i m }

def setDest (i : ℕ) (loc : Location) : Resolver :=
  r.set i { r.moveAt i with dest := loc }

/-- The cleared destination marks a move as in progress. -/
def markPending (i : ℕ) : Resolver := r.setDest i .invalid

def clearPending (i : ℕ) (destination : Location) : Resolver :=
  r.setDest i destination

def eliminate (i : ℕ) : Resolver := r.set i .eliminated

def isScratchLocation (loc : Location) : Bool :=
  !r.moves.any (·.blocks loc) && r.moves.any (·.dest = loc)

/-- Registers that `AllocateScratchRegister` may hand out without spilling them. -/
def scratchRegisters (destination source : Location) : List Location :=
  (r.moves.map MoveOperands.dest).filter fun l =>
    l.isMachineRegister && r.isScratchLocation l && l ≠ destination && l ≠ source

def emitMove (index : ℕ) : Resolver :=
  let m := r.moveAt index
  { moves := (r.eliminate index).moves
    code := r.code ++ [.move m.dest m.src (r.scratchRegisters m.dest m.src)] }

end

/-- The final loop of `EmitSwap`, which renames the sources of unperformed moves. -/
def renameSource (source destination : Location) (m : MoveOperands) : MoveOperands :=
  if m.blocks source then { m with src := destination }
  else if m.blocks destination then { m with src := source }
  else m

def emitSwap (r : Resolver) (index : ℕ) : Resolver :=
  let m := r.moveAt index
  { moves := (r.eliminate index).moves.map (renameSource m.src m.dest)
    code := r.code ++ [.swap m.dest m.src (r.scratchRegisters m.dest m.src)] }

/-- The part of `PerformMove` after its blocking moves have been performed. -/
def finishMove (r : Resolver) (index : ℕ) (destination : Location) : Option Resolver :=
  let r := r.clearPending index destination
  if (r.moveAt index).src = destination then some (r.eliminate index)
  else
    match r.moves.find? (·.blocks destination) with
    | some other => if other.isPending then some (r.emitSwap index) else none
    | none => some (r.emitMove index)

/-- `PerformMove`. The fuel bounds the recursion depth. -/
def performMove : ℕ → ℕ → Resolver → Option Resolver
  | 0, _, _ => none
  | fuel+1, index, r =>
    let m := r.moveAt index
    if m.isPending || m.isRedundant || m.src.isInvalid then none
    else do
      let r ← (List.range r.moves.length).foldlM (fun r i =>
        if (r.moveAt i).blocks m.dest && !(r.moveAt i).isPending then performMove fuel i r
        else some r) (r.markPending index)
      r.finishMove index m.dest

end Resolver

def buildInitialMoveList (moves : List MoveOperands) : List MoveOperands :=
  moves.filter (!·.isRedundant)

/-- First loop of `EmitNativeCode`: every move whose source is not a constant. -/
def performMoves (r : Resolver) : Option Resolver :=
  (List.range r.moves.length).foldlM (fun r i =>
    if !(r.moveAt i).isEliminated && !(r.moveAt i).src.isConstant then
      r.performMove (r.moves.length+1) i
    else some r) r

/-- Second loop of `EmitNativeCode`: the moves with constant sources. -/
def emitConstants (r : Resolver) : Option Resolver :=
  (List.range r.moves.length).foldlM (fun r i =>
    if !(r.moveAt i).isEliminated then
      if (r.moveAt i).src.isConstant then some (r.emitMove i) else none
    else some r) r

def emitNativeCode (moves : List MoveOperands) : Option (List Op) := do
  let r ← performMoves ⟨buildInitialMoveList moves,[]⟩
  let r ← emitConstants r
  return r.code

end DartSdk.ParallelMove
