import DartSdk.Bigint

/-! `_compare`, `_add`, `_sub`, `_mul` and `_sqr` of `lib/bigint.dart` with the loops over digits
that they share. -/
namespace DartSdk.Bigint

open Iteration Utils

/-- An array argument of a function that fills `r_digits`: another array or `r_digits` itself. -/
inductive Source
  | array (xs : Uint32List)
  | result

/-- The contents of the argument while `r_digits` contains `r`. -/
def Source.get (s : Source) (r : Uint32List) : Uint32List :=
  match s with
  | .array xs => xs
  | .result => r

/-- The loop of `_compareDigits` over the digits below `i`. -/
def compareFrom (digits aDigits : Uint32List) : ℕ → Option ℤ
  | 0 => some 0
  | i+1 => do
    let r ← sub64 (← digits.read i) (← aDigits.read i)
    if r = 0 then compareFrom digits aDigits i else some r

def compareDigits (digits : Uint32List) (used : ℕ) (aDigits : Uint32List) (aUsed : ℕ) : Option ℤ :=
  if used = aUsed then compareFrom digits aDigits aUsed else some ((used : ℤ)-aUsed)

variable (x a : Bigint)

def absCompare : Option ℤ := compareDigits x.digits x.used a.digits a.used

def compare : Option ℤ :=
  if x.neg = a.neg then (absCompare x a).map fun r => if x.neg then -r else r
  else some (if x.neg then -1 else 1)

/-- `r_digits[i] = c & _DIGIT_MASK; c >>= _DIGIT_BITS;` -/
def putDigit (c : ℤ) (r : Uint32List) (i : ℕ) : Option (ℤ × Uint32List) := do
  let r ← r.write i c
  return (c >>> (32 : ℕ),r)

def absAddStep (digits aDigits : Uint32List) (s : ℤ × Uint32List) (i : ℕ) :
    Option (ℤ × Uint32List) := do
  let c ← add64 s.1 (← add64 (← digits.read i) (← aDigits.read i))
  putDigit c s.2 i

def absSubStep (digits : Source) (aDigits : Uint32List) (s : ℤ × Uint32List) (i : ℕ) :
    Option (ℤ × Uint32List) := do
  let c ← add64 s.1 (← sub64 (← (digits.get s.2).read i) (← aDigits.read i))
  putDigit c s.2 i

/-- The second loop of `_absAdd` and `_absSub`, over the digits that only `digits` has. -/
def carryStep (digits : Source) (s : ℤ × Uint32List) (i : ℕ) : Option (ℤ × Uint32List) := do
  let c ← add64 s.1 (← (digits.get s.2).read i)
  putDigit c s.2 i

def absAdd (digits : Uint32List) (used : ℕ) (aDigits : Uint32List) (aUsed : ℕ)
    (rDigits : Uint32List) : Option Uint32List := do
  let s ← forUp 0 aUsed (0,rDigits) (absAddStep digits aDigits)
  let s ← forUp aUsed used s (carryStep (.array digits))
  s.2.write used s.1

def absSub (digits : Source) (used : ℕ) (aDigits : Uint32List) (aUsed : ℕ)
    (rDigits : Uint32List) : Option Uint32List := do
  let s ← forUp 0 aUsed (0,rDigits) (absSubStep digits aDigits)
  let s ← forUp aUsed used s (carryStep digits)
  return s.2

def negate (x : Bigint) : Option Bigint :=
  if x.used = 0 then some x else new (!x.neg) x.used x.digits

/-- `_absAddSetSign` when `this` has at least as many digits as `a`. -/
def absAddLonger (neg : Bool) : Option Bigint :=
  if x.used = 0 then some zero
  else if a.used = 0 then (if x.neg = neg then some x else x.negate)
  else do
    let rUsed := x.used+1
    let rDigits := Uint32List.new (rUsed+rUsed%2)
    let rDigits ← absAdd x.digits x.used a.digits a.used rDigits
    new neg rUsed rDigits

def absAddSetSign (neg : Bool) : Option Bigint :=
  if x.used < a.used then absAddLonger a x neg else absAddLonger x a neg

def absSubSetSign (neg : Bool) : Option Bigint :=
  if x.used = 0 then some zero
  else if a.used = 0 then (if x.neg = neg then some x else x.negate)
  else do
    let rDigits := Uint32List.new (x.used+x.used%2)
    let rDigits ← absSub (.array x.digits) x.used a.digits a.used rDigits
    new neg x.used rDigits

def add : Option Bigint :=
  if x.neg = a.neg then absAddSetSign x a x.neg
  else do
    if 0 ≤ (← absCompare x a) then absSubSetSign x a x.neg else absSubSetSign a x (!x.neg)

def sub : Option Bigint :=
  if x.neg ≠ a.neg then absAddSetSign x a x.neg
  else do
    if 0 ≤ (← absCompare x a) then absSubSetSign x a x.neg else absSubSetSign a x (!x.neg)

/-- One iteration of `_mulAdd`: the digit and the carry of `x * m + a + c`, computed from half
digits. -/
def mulAddDigit (x m a c : ℤ) : Option (ℤ × ℤ) := do
  let xl := x%2^16
  let xh := x >>> (16 : ℕ)
  let l := m%2^16
  let h := m >>> (16 : ℕ)
  let m ← add64 (← mul64 xh l) (← mul64 h xl)
  let l ← add64 (← add64 (← add64 (← mul64 xl l) (← shl64 (m%2^16) 16)) a) c
  let c ← add64 (← add64 (l >>> (32 : ℕ)) (m >>> (16 : ℕ))) (← mul64 xh h)
  return (l,c)

/-- The loop of `_mulAdd` that propagates the last carry. -/
def addCarry : ℕ → ℤ → Uint32List → ℕ → Option Uint32List
  | 0, _, _, _ => none
  | fuel+1, c, aDigits, j =>
    if c = 0 then some aDigits
    else do
      let l ← add64 (← aDigits.read j) c
      let aDigits ← aDigits.write j l
      addCarry fuel (l >>> (32 : ℕ)) aDigits (j+1)

/-- The main loop of `_mulAdd`: `x` times the digit `i + k` of `m_digits` is added to the digit
`j + k`. -/
def mulAddStep (x : ℤ) (mDigits : Uint32List) (i j : ℕ) (s : ℤ × Uint32List) (k : ℕ) :
    Option (ℤ × Uint32List) := do
  let lc ← mulAddDigit x (← mDigits.read (i+k)) (← s.2.read (j+k)) s.1
  let a ← s.2.write (j+k) lc.1
  return (lc.2,a)

/-- `a_digits[j..j+n] += x_digits[xi]*m_digits[i..i+n-1]`; one digit is processed. -/
def mulAdd (xDigits : Uint32List) (xi : ℕ) (mDigits : Uint32List) (i : ℕ)
    (aDigits : Uint32List) (j n : ℕ) : Option Uint32List := do
  let x ← xDigits.read xi
  if x = 0 then some aDigits
  else do
    let s ← forUp 0 n (0,aDigits) (mulAddStep x mDigits i j)
    -- Every iteration moves to the next digit, so the array bounds the number of iterations.
    addCarry (aDigits.length+1) s.1 s.2 (j+n)

/-- The first step of `_sqrAdd`: `x * x + a`. -/
def sqrDigit (x a : ℤ) : Option (ℤ × ℤ) := do
  let xl := x%2^16
  let xh := x >>> (16 : ℕ)
  let m ← mul64 (← mul64 2 xh) xl
  let l ← add64 (← add64 (← mul64 xl xl) (← shl64 (m%2^16) 16)) a
  let c ← add64 (← add64 (l >>> (32 : ℕ)) (m >>> (16 : ℕ))) (← mul64 xh xh)
  return (l,c)

/-- `a_digits[2*i..i+used-1] += x_digits[i]*x_digits[i] + 2*x_digits[i]*x_digits[i+1..used-1]`; the
carry into `a_digits[i+used+1]` is stored, not added. -/
def sqrAdd (xDigits : Uint32List) (i : ℕ) (aDigits : Uint32List) (used : ℕ) : Option Uint32List := do
  let x ← xDigits.read i
  if x = 0 then some aDigits
  else do
    let lc ← sqrDigit x (← aDigits.read (2*i))
    let aDigits ← aDigits.write (2*i) lc.1
    let x ← shl64 x 1
    let s ← forUp 0 (used-i-1) (lc.2,aDigits) (mulAddStep x xDigits (i+1) (2*i+1))
    let c ← add64 s.1 (← s.2.read (i+used))
    if (digitBase : ℤ) ≤ c then do
      let a ← s.2.write (i+used) (c-digitBase)
      a.write (i+used+1) 1
    else s.2.write (i+used) c

/-- The loop that `_mul` and `_mulDigits` share. -/
def mulLoop (digits : Uint32List) (used : ℕ) (aDigits : Uint32List) (aUsed : ℕ)
    (rDigits : Uint32List) : Option Uint32List :=
  forUp 0 aUsed rDigits fun r i => mulAdd aDigits i digits 0 r i used

/-- The loop and the last step that `_sqr` and `_sqrDigits` share. -/
def sqrLoop (digits : Uint32List) (used : ℕ) (rDigits : Uint32List) : Option Uint32List := do
  let r ← forUp 0 (used-1) rDigits fun r i => sqrAdd digits i r used
  let i := used-1
  if i < used then mulAdd digits i digits i r (2*i) 1 else some r

def mul : Option Bigint :=
  if x.used = 0 ∨ a.used = 0 then some zero
  else do
    let rUsed := x.used+a.used
    let rDigits ← mulLoop x.digits x.used a.digits a.used (Uint32List.new (rUsed+rUsed%2))
    new (x.neg != a.neg) rUsed rDigits

def sqr (x : Bigint) : Option Bigint :=
  if x.used = 0 then some zero
  else do
    let rUsed := 2*x.used
    let rDigits ← sqrLoop x.digits x.used (Uint32List.new rUsed)
    new false rUsed rDigits

/-- The result of `_toValidInt`: a `Smi` or `Mint`, or the big integer itself. -/
inductive Compact
  | int (i : ℤ)
  | bigint (x : Bigint)

def toValidInt : Option Compact :=
  if x.used = 0 then some (.int 0)
  else do
    let d0 ← x.digits.read 0
    if x.used = 1 then return .int (if x.neg then -d0 else d0)
    else if 2 < x.used then return .bigint x
    else do
      let d1 ← x.digits.read 1
      if x.neg then
        if 0x80000000 < d1 then return .bigint x
        else if d1 = 0x80000000 then
          if 0 < d0 then return .bigint x else return .int kMinInt64
        else return .int (← sub64 0 (Int.lor (← shl64 d1 32) d0))
      else if 0x80000000 ≤ d1 then return .bigint x
      else return .int (Int.lor (← shl64 d1 32) d0)

end DartSdk.Bigint
