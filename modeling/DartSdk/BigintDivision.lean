import DartSdk.BigintShifts

/-! `_divRem` normalizes dividend and divisor and computes one quotient digit after the other; the
array of the dividend receives the quotient above the remainder. The last result is kept in a cache
keyed by the identity of the digit arrays. The branch of the source for two digits belongs to
replacements of `_estQuotientDigit` and `_mulAdd` by machine code and is left out. -/
namespace DartSdk.Bigint

open Iteration Utils

/-- `_nbits`: the bit length of a digit. -/
def nbits (x : ℕ) : ℕ :=
  let s := [16,8,4,2].foldl (fun s k => highestBitStep k s) (x,1)
  if s.1 >>> 1 ≠ 0 then s.2+1 else s.2

def cloneDigits (digits : Uint32List) (lo hi length : ℕ) : Option Uint32List :=
  forUp 0 (hi-lo) (Uint32List.new (length+length%2)) fun r i => do
    r.write i (← digits.read (lo+i))

/-- `_estQuotientDigit`, where `args[1]` is the top digit of the divisor and `args[2]` receives the
estimate. -/
def estQuotientDigit (args digits : Uint32List) (i : ℕ) : Option Uint32List := do
  let d ← digits.read i
  let yt ← args.read 1
  if d = yt then args.write 2 (digitBase-1)
  else if i = 0 ∨ yt >>> (1 : ℕ) = 0 then none
  else do
    -- One bit is chopped off, since a `Mint` cannot hold two digits.
    let n := Int.lor (← shl64 d 31) ((← digits.read (i-1)) >>> (1 : ℕ))
    let qd := n.tdiv (yt >>> (1 : ℕ))
    if (digitBase : ℤ)-1 < qd then args.write 2 (digitBase-1) else args.write 2 qd

/-- The loop that decrements a quotient digit which is too large and takes one negated divisor
back, `while (r_digits[i] < --yt_qd[_QD])`. -/
def correct (i rUsed : ℕ) (t : Uint32List) (tUsed : ℕ) :
    ℕ → Uint32List × Uint32List → Option (Uint32List × Uint32List)
  | 0, _ => none
  | fuel+1, (args,r) => do
    let qd := (← args.read 2)-1
    let args ← args.write 2 qd
    if (← r.read i) < qd then do
      let r ← absSub .result rUsed t tUsed r
      correct i rUsed t tUsed fuel (args,r)
    else return (args,r)

/-- The arrays of the division loop: estimate, temporary digits and remainder with quotient. -/
structure Division where
  args : Uint32List
  t : Uint32List
  r : Uint32List

/-- One iteration of the division loop, for the quotient digit at `j + y_used`. -/
def divideStep (ny : Uint32List) (yUsed rUsed : ℕ) (s : Division) (j : ℕ) : Option Division := do
  let i := j+yUsed
  let args ← estQuotientDigit s.args s.r i
  let r ← mulAdd args 2 ny 0 s.r j yUsed
  let qd ← args.read 2
  if (← r.read i) < qd then do
    let ut ← dlShiftDigits (.array ny) yUsed j s.t
    let r ← absSub .result rUsed ut.2 ut.1 r
    -- The digit decreases in each iteration and stops the loop below zero.
    let ar ← correct i rUsed ut.2 ut.1 (qd.toNat+1) (args,r)
    return ⟨ar.1,ut.2,ar.2⟩
  else return ⟨args,s.t,r⟩

/-- The explicit first step if the dividend is not smaller than the shifted divisor. -/
def firstStep (r : Uint32List) (rUsed : ℕ) (t : Uint32List) (tUsed : ℕ) : Option Uint32List := do
  let c ← compareDigits r rUsed t tUsed
  if 0 ≤ c then do
    let r ← r.write rUsed 1
    absSub .result (rUsed+1) t tUsed r
  else r.write rUsed 0

/-- The part that `_divRem` and `_remDigits` share: division of the normalized dividend in `r` by
the normalized divisor `y`, with `ny` its negation. -/
def divideDigits (y : Uint32List) (yUsed : ℕ) (ny args t r : Uint32List) (rUsed : ℕ) :
    Option (ℕ × Uint32List) := do
  let i := rUsed+rUsed%2
  if i < yUsed then none
  else do
    let j := i-yUsed
    let ut ← dlShiftDigits (.array y) yUsed j t
    let r ← firstStep r rUsed ut.2 ut.1
    let r ← r.write (rUsed+1) 0
    let s ← forDown (divideStep ny yUsed (rUsed+1)) j ⟨args,ut.2,r⟩
    return (rUsed+1,s.r)

/-- What `_divRem` leaves in the cache: the digits of quotient and normalized remainder. -/
structure QuoRem where
  digits : Uint32List
  used : ℕ
  remUsed : ℕ
  nsh : ℕ

/-- The normalization shift of a divisor with `used` digits and top digit `top`. -/
def normShift (used top : ℕ) : ℕ := 32-nbits top+if used%2 = 1 then 32 else 0

/-- The top digit pair of the normalized divisor and room for an estimate. -/
def quotientArgs (y : Uint32List) (yUsed : ℕ) : Option Uint32List :=
  if yUsed < 2 then none
  else do
    let args ← (Uint32List.new 4).write 0 (← y.read (yUsed-2))
    args.write 1 (← y.read (yUsed-1))

/-- `ny_digits`: the negated divisor. -/
def negateDigits (y : Uint32List) (yUsed : ℕ) : Option Uint32List := do
  let ny ← (Uint32List.new (yUsed+2)).write yUsed 1
  absSub .result (yUsed+1) y yUsed ny

/-- The divisor, shifted unless it is normalized already. -/
def normalizeDivisor (digits : Uint32List) (used nsh : ℕ) : Option (ℕ × Uint32List) :=
  if 0 < nsh then lShiftDigits (.array digits) used nsh (Uint32List.new (used+5))
  else some (used,digits)

/-- The dividend, shifted like the divisor, in an array of its own. -/
def normalizeDividend (digits : Uint32List) (used nsh : ℕ) : Option (ℕ × Uint32List) :=
  if 0 < nsh then lShiftDigits (.array digits) used nsh (Uint32List.new (used+5))
  else (cloneDigits digits 0 used (used+2)).map fun r => (used,r)

/-- `_divRem` without the cache, for a divisor other than zero. -/
def divRemDigits (digits : Uint32List) (used : ℕ) (aDigits : Uint32List) (aUsed : ℕ) :
    Option QuoRem :=
  if aUsed = 0 then none
  else do
    let top ← aDigits.read (aUsed-1)
    let nsh := normShift aUsed top.toNat
    let y ← normalizeDivisor aDigits aUsed nsh
    let r ← normalizeDividend digits used nsh
    let args ← quotientArgs y.2 y.1
    let ny ← negateDigits y.2 y.1
    let q ← divideDigits y.2 y.1 ny args (Uint32List.new (r.1+r.1%2)) r.2 r.1
    return ⟨q.2,q.1,y.1,nsh⟩

/-- The end of `_div`: the digits of the quotient with the proper sign. -/
def quotient (q : QuoRem) (neg : Bool) : Option Bigint := do
  let used := q.used-q.remUsed
  let quo ← new false used (← cloneDigits q.digits q.remUsed q.used used)
  if neg ∧ 0 < quo.used then quo.negate else some quo

def denormalize (x : Bigint) (nsh : ℕ) : Option Bigint := if 0 < nsh then x.rShift nsh else some x

/-- The end of `_rem`: the denormalized remainder with the proper sign. -/
def remainder (q : QuoRem) (neg : Bool) : Option Bigint := do
  let rem ← new false q.remUsed (← cloneDigits q.digits 0 q.remUsed q.remUsed)
  let rem ← rem.denormalize q.nsh
  if neg ∧ 0 < rem.used then rem.negate else some rem

/-- A big integer with the identity of its digit array. -/
structure Object where
  val : Bigint
  ref : ℕ

/-- `_lastDividend_digits` and the other fields that keep the last result. -/
structure Cache where
  dividendDigits : ℕ
  dividendUsed : ℕ
  divisorDigits : ℕ
  divisorUsed : ℕ
  quoRem : QuoRem

/-- The big integers that were created, the identity of the next digit array and the cache. -/
structure Store where
  objects : List Object
  next : ℕ
  cache : Option Cache

namespace Store

def start : Store := ⟨[],1,none⟩

/-- The array without digits is shared by all big integers with value zero. -/
def emptyDigits : ℕ := 0

def share (s : Store) (x : Bigint) (ref : ℕ) : Store :=
  { s with objects := s.objects ++ [⟨x,if x.used = 0 then emptyDigits else ref⟩] }

def create (s : Store) (x : Bigint) : Store :=
  { s.share x s.next with next := s.next+1 }

def divRem (s : Store) (x a : Object) : Option (Store × QuoRem) :=
  let compute : Option (Store × QuoRem) := do
    let q ← divRemDigits x.val.digits x.val.used a.val.digits a.val.used
    return ({ s with cache := some ⟨x.ref,x.val.used,a.ref,a.val.used,q⟩ },q)
  match s.cache with
  | none => compute
  | some c =>
    if x.val.used = c.dividendUsed ∧ a.val.used = c.divisorUsed ∧ x.ref = c.dividendDigits ∧
        a.ref = c.divisorDigits then some (s,c.quoRem)
    else compute

def div (s : Store) (x a : Object) : Option (Store × Bigint) :=
  if x.val.used < a.val.used then some (s.share zero emptyDigits,zero)
  else do
    let sq ← s.divRem x a
    let quo ← quotient sq.2 (x.val.neg != a.val.neg)
    return (sq.1.create quo,quo)

def rem (s : Store) (x a : Object) : Option (Store × Bigint) :=
  if x.val.used < a.val.used then some (s.share x.val x.ref,x.val)
  else do
    let sq ← s.divRem x a
    let rem ← remainder sq.2 x.val.neg
    return (sq.1.create rem,rem)

/-- Operations on the big integers that were created so far; a big integer may also come from
elsewhere or share its digits with another one. -/
inductive Command
  | create (x : Bigint)
  | negate (i : ℕ)
  | div (i j : ℕ)
  | rem (i j : ℕ)

/-- Perform a command; the answer is the integer that the resulting big integer represents. -/
def step (s : Store) : Command → Option (Store × ℤ)
  | .create x => some (s.create x,x.toInt)
  | .negate i => do
    let o ← s.objects[i]?
    let r ← o.val.negate
    return (s.share r o.ref,r.toInt)
  | .div i j => do
    let sr ← s.div (← s.objects[i]?) (← s.objects[j]?)
    return (sr.1,sr.2.toInt)
  | .rem i j => do
    let sr ← s.rem (← s.objects[i]?) (← s.objects[j]?)
    return (sr.1,sr.2.toInt)

/-- The integers that the big integers should represent. -/
def spec (l : List ℤ) : Command → List ℤ × ℤ
  | .create x => (l ++ [x.toInt],x.toInt)
  | .negate i => (l ++ [-l.getD i 0], -l.getD i 0)
  | .div i j => (l ++ [(l.getD i 0).tdiv (l.getD j 0)],(l.getD i 0).tdiv (l.getD j 0))
  | .rem i j =>
    (l ++ [l.getD i 0-l.getD j 0*(l.getD i 0).tdiv (l.getD j 0)],
      l.getD i 0-l.getD j 0*(l.getD i 0).tdiv (l.getD j 0))

/-- Operands exist and divisors are not zero. -/
def Allowed (l : List ℤ) : Command → Prop
  | .create _ => True
  | .negate i => i < l.length
  | .div i j | .rem i j => i < l.length ∧ j < l.length ∧ l.getD j 0 ≠ 0

end Store

end DartSdk.Bigint
