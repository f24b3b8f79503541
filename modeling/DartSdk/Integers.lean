import DartSdk.Bigint

/-! `Integer::ArithmeticOp`, `Integer::BitOp` and `ShiftOperationHelper` on `Smi` and `Mint`
operands. They return `null` if the operation is left to the big integers. The machine operations
wrap around, except that a division whose quotient is not representable traps and that a shift count
has to be less than the width. -/
namespace DartSdk.Integers

open Utils

def kSmiBits (a : Arch) : ℕ := kBitsPerWord a-2

/-- `Mint::kBits`; the 64th bit is the sign. -/
def kMintBits : ℕ := 63

/-- `Smi::IsValid`. -/
def SmiIsValid (a : Arch) (value : ℤ) : Prop := -2^kSmiBits a ≤ value ∧ value ≤ 2^kSmiBits a-1

instance (a : Arch) (value : ℤ) : Decidable (SmiIsValid a value) := inferInstanceAs (Decidable (_ ∧ _))

inductive Integer (a : Arch)
  | smi (value : ℤ) (valid : SmiIsValid a value)
  | mint (value : ℤ) (valid : IsInt64 value)
  | bigint (value : Bigint)

namespace Integer

variable {a : Arch}

def isSmi : Integer a → Bool
  | smi .. => true
  | _ => false

def isMint : Integer a → Bool
  | mint .. => true
  | _ => false

def isBigint : Integer a → Bool
  | bigint .. => true
  | _ => false

/-- The represented integer; for `Smi` and `Mint` this is `AsInt64Value`. -/
def toInt : Integer a → ℤ
  | smi value _ => value
  | mint value _ => value
  | bigint value => value.toInt

end Integer

/-- The signed number in the low `w` bits. -/
def wrap (w : ℕ) (x : ℤ) : ℤ := (BitVec.ofInt w x).toInt

def divide (w : ℕ) (x y : ℤ) : Option ℤ :=
  if y ≠ 0 ∧ isInt w (x.tdiv y) then some (x.tdiv y) else none

/-- The remainder comes from the same instruction as the quotient. -/
def remainder (w : ℕ) (x y : ℤ) : Option ℤ := (divide w x y).map fun _ => x.tmod y

def shiftLeft (w : ℕ) (x n : ℤ) : Option ℤ :=
  if 0 ≤ n ∧ n < w then some (wrap w (x*2^n.toNat)) else none

def shiftRight (w : ℕ) (x n : ℤ) : Option ℤ :=
  if 0 ≤ n ∧ n < w then some (x >>> n.toNat) else none

def shiftLeftUnsigned (x n : ℕ) : Option ℕ := if n < 64 then some (x*2^n%2^64) else none

def shiftRightUnsigned (x n : ℕ) : Option ℕ := if n < 64 then some (x/2^n) else none

lemma wrap_bounds {w : ℕ} (hw : 0 < w) (x : ℤ) : -2^(w-1) ≤ wrap w x ∧ wrap w x < 2^(w-1) := by
  obtain ⟨n,rfl⟩ := exists_fuel w
  have h1 := (BitVec.ofInt (n+1) x).le_toInt
  have h2 := (BitVec.ofInt (n+1) x).toInt_lt
  exact ⟨h1,h2⟩

lemma isInt64_wrap (x : ℤ) : IsInt64 (wrap 64 x) := by
  have h := wrap_bounds (w := 64) (by norm_num) x
  unfold IsInt64 kMinInt64 kMaxInt64
  omega

section
variable (a : Arch)

/-- `Integer::New(int64_t)`. -/
def new (value : ℤ) : Integer a :=
  if h : SmiIsValid a (wrap 64 value) then .smi (wrap 64 value) h
  else .mint (wrap 64 value) (isInt64_wrap value)

inductive ArithmeticKind
  | add
  | sub
  | mul
  | truncDiv
  | mod

/-- The case `kMOD`, on words of `w` bits. -/
def modulo (w : ℕ) (left right : ℤ) : Option ℤ := do
  let rem ← remainder w left right
  if rem < 0 then
    if right < 0 then return wrap w (rem-right) else return wrap w (rem+right)
  else return rem

/-- The test before a multiplication of 64-bit numbers. -/
def productFits (left right : ℤ) : Prop := highestBit left.natAbs+highestBit right.natAbs < 62

instance (left right : ℤ) : Decidable (productFits left right) := inferInstanceAs (Decidable (_ < _))

/-- The cases for two `Smi` values; `null` stands for the `break` to the 64-bit cases. -/
def smiArithmeticOp (left right : ℤ) : ArithmeticKind → Option (Option (Integer a))
  | .add => some (some (new a (wrap (kBitsPerWord a) (left+right))))
  | .sub => some (some (new a (wrap (kBitsPerWord a) (left-right))))
  | .mul =>
    if kSmiBits a < 32 then some (some (new a (wrap 64 (left*right))))
    else if productFits left right then some (some (new a (wrap (kBitsPerWord a) (left*right))))
    else some none
  | .truncDiv => do return some (new a (← divide (kBitsPerWord a) left right))
  | .mod => do return some (new a (← modulo (kBitsPerWord a) left right))

/-- The cases for 64-bit values. -/
def int64ArithmeticOp (left right : ℤ) : ArithmeticKind → Option (Option (Integer a))
  | .add =>
    if (left < 0) ≠ (right < 0) ∨ (wrap 64 (left+right) < 0) = (left < 0) then
      some (some (new a (wrap 64 (left+right))))
    else some none
  | .sub =>
    if (left < 0) = (right < 0) ∨ (wrap 64 (left-right) < 0) = (left < 0) then
      some (some (new a (wrap 64 (left-right))))
    else some none
  | .mul => if productFits left right then some (some (new a (wrap 64 (left*right)))) else some none
  | .truncDiv =>
    if left ≠ kMinInt64 ∨ right ≠ -1 then do return some (new a (← divide 64 left right))
    else some none
  | .mod => do return some (new a (← modulo 64 left right))

end

section
variable {a : Arch}

/-- `Smi::New` of a result that is asserted to be valid. -/
def checkedSmi (result : ℤ) : Option (Integer a) :=
  if h : SmiIsValid a result then some (.smi result h) else none

def arithmeticOp (operation : ArithmeticKind) : Integer a → Integer a → Option (Option (Integer a))
  | .smi left _, .smi right _ => do
    match ← smiArithmeticOp a left right operation with
    | some result => return some result
    | none => int64ArithmeticOp a left right operation
  | .bigint _, _ => some none
  | _, .bigint _ => some none
  | left, right => int64ArithmeticOp a left.toInt right.toInt operation

inductive BitKind
  | bitAnd
  | bitOr
  | bitXor

/-- The machine operation on the words that hold two numbers. -/
def BitKind.word (w : ℕ) (x y : ℤ) : BitKind → ℤ
  | .bitAnd => (BitVec.ofInt w x &&& BitVec.ofInt w y).toInt
  | .bitOr => (BitVec.ofInt w x ||| BitVec.ofInt w y).toInt
  | .bitXor => (BitVec.ofInt w x ^^^ BitVec.ofInt w y).toInt

def bitOp (kind : BitKind) : Integer a → Integer a → Option (Option (Integer a))
  | .smi op1 _, .smi op2 _ =>
    (checkedSmi (kind.word (kBitsPerWord a) op1 op2)).map some
  | .bigint _, _ => some none
  | _, .bigint _ => some none
  | left, right => some (some (new a (kind.word 64 left.toInt right.toInt)))

inductive ShiftKind
  | shl
  | shr

/-- The bits that are shifted out of 64 bits. -/
def highBits (absValue bitShift : ℕ) : Option ℕ :=
  if bitShift = 0 then some 0 else shiftRightUnsigned absValue (64-bitShift)

/-- `Bigint::NewFromShiftedInt64`, without a limit for the memory. -/
def newFromShiftedInt64 (value : ℤ) (shift : ℕ) : Option Bigint := do
  let digitShift := shift/32
  let bitShift := shift%32
  let used := 3+digitShift
  let neg := decide (value < 0)
  let absValue := ((if neg then -value else value)%2^64).toNat
  let digits ← Iteration.forUp 0 digitShift (Uint32List.new (used+1)) fun d i => d.write i 0
  let digits ← digits.write (0+digitShift) (← shiftLeftUnsigned absValue bitShift)
  let digits ← digits.write (1+digitShift) (← shiftRightUnsigned absValue (32-bitShift))
  let digits ← digits.write (2+digitShift) (← highBits absValue bitShift)
  Bigint.new neg used digits

def shiftOp (left : ℤ) (valid : SmiIsValid a left) (right : ℤ) : ShiftKind → Option (Integer a)
  | .shl =>
    if left = 0 ∨ right = 0 then some (.smi left valid)
    else
      let cnt : ℤ := bitLength left
      if cnt+right > kSmiBits a then
        if cnt+right > kMintBits then (newFromShiftedInt64 left right.toNat).map .bigint
        else (shiftLeft 64 left right).map (new a)
      else do checkedSmi (← shiftLeft (kBitsPerWord a) left right)
  | .shr => do
    let shiftAmount := if right ≥ kBitsPerWord a then (kBitsPerWord a : ℤ)-1 else right
    checkedSmi (← shiftRight (kBitsPerWord a) left shiftAmount)

/-- What a native shift can return: an exception, `null` or an integer. -/
inductive ShiftReply (a : Arch)
  | argumentError
  | null
  | value (result : Integer a)

/-- `ShiftOperationHelper`, with the value of the `Smi` that is the amount. -/
def shiftOperationHelper (kind : ShiftKind) (value : Integer a) (amount : ℤ) :
    Option (ShiftReply a) :=
  if amount < 0 then some .argumentError
  else match value with
    | .smi left valid => (shiftOp left valid amount kind).map .value
    | .mint mintValue _ =>
      let count : ℤ := highestBit mintValue.natAbs
      match kind with
      | .shl =>
        if count+amount < kMintBits then
          (shiftLeft 64 mintValue amount).map fun r => .value (new a r)
        else some .null
      | .shr =>
        -- The shift count is negated for the test and back for the shift.
        if count + -amount < kMintBits then
          (shiftRight 64 mintValue (- -amount)).map fun r => .value (new a r)
        else some .null
    | .bigint _ => some .null

end

end DartSdk.Integers
