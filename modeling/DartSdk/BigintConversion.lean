import DartSdk.Bigint

/-! `Bigint::NewFromCString`, `ToDecCString` and `ToHexCString` of `vm/object.cc`. A C string is the
list of its characters. An access outside of an array, an overflow of a signed integer, a failed
assertion, a fatal error and an exception are failed runs. -/
namespace DartSdk.Bigint

open Utils Iteration

def kBitsPerDigit : ℕ := 32

def newDigits (length : ℕ) : Uint32List := Uint32List.new (length+1)

def kBitsPerHexDigit : ℕ := 4

def kHexDigitsPerDigit : ℕ := 8

/-- The variables of `NewDigitsFromHexCString`. -/
structure HexReader where
  digits : Uint32List
  used : ℕ
  digit : ℕ
  bitI : ℕ

def HexReader.step (s : HexReader) (c : Char) : Option HexReader := do
  let digit : ℕ := (s.digit+(← hexDigitToInt c) <<< s.bitI)%2^32
  let bitI := s.bitI+kBitsPerHexDigit
  if bitI = kBitsPerDigit then do
    let digits ← s.digits.write s.used digit
    return ⟨digits,s.used+1,0,0⟩
  else return ⟨s.digits,s.used,digit,bitI⟩

variable (str : List Char)

/-- The characters are read from the last one on. -/
def newDigitsFromHexCString : Option (Uint32List × ℕ) :=
  if str.length = 0 ∨ str.length ≥ kMaxInt32 then none
  else do
    let length := (str.length+kHexDigitsPerDigit-1)/kHexDigitsPerDigit
    let s ← str.reverse.foldlM HexReader.step ⟨newDigits length,0,0,0⟩
    if s.bitI ≠ 0 then do
      let digits ← s.digits.write s.used s.digit
      return (digits,s.used+1)
    else return (s.digits,s.used)

def kDecDigitsPerIteration : ℕ := 9

def kTenMultiplier : ℕ := 1000000000

def kLog10Dividend : ℕ := 33219281

def kLog10Divisor : ℕ := 10000000

/-- The estimate of the number of digits for a text of the given length. -/
def decLength (strLength : ℕ) : ℕ :=
  kLog10Dividend*strLength/(kLog10Divisor*kBitsPerDigit)+5

/-- `digit` extended by `n` characters, and the characters after them. -/
def readDecDigits : ℕ → List Char → ℕ → Option (ℕ × List Char)
  | 0, str, digit => some (digit,str)
  | _+1, [], _ => none
  | n+1, c :: str, digit =>
    if isDecimalDigit c then readDecDigits n str ((digit*10+c.toNat - '0'.toNat)%2^32)
    else none

/-- Multiplication by `kTenMultiplier` with a carry, of one digit. -/
def mulTenStep (s : ℕ × Uint32List) (i : ℕ) : Option (ℕ × Uint32List) := do
  let product := (← s.2.read i).toNat*kTenMultiplier+s.1
  let digits ← s.2.write i (product%2^32 : ℕ)
  return (product >>> kBitsPerDigit%2^32,digits)

/-- One iteration of the loop over groups of decimal digits. -/
def readGroup (digits : Uint32List) (used : ℕ) : Option (List Char × Uint32List) := do
  let (digit,str) ← readDecDigits kDecDigitsPerIteration str 0
  let (digit,digits) ← forUp 0 used (digit,digits) mulTenStep
  let digits ← digits.write used digit
  return (str,digits)

/-- The loop over groups of decimal digits, while there is more than one character. -/
def readGroups : ℕ → List Char → Uint32List → ℕ → Option (Uint32List × ℕ)
  | 0, _, _, _ => none
  | fuel+1, str, digits, used =>
    if 1 < str.length then do
      let (str,digits) ← readGroup str digits used
      readGroups fuel str digits (used+1)
    else some (digits,used)

def newDigitsFromDecCString : Option (Uint32List × ℕ) :=
  if str.length = 0 ∨ str.length ≥ kMaxInt32 then none
  else do
    let digits := newDigits (decLength str.length)
    let (digit,rest) ← readDecDigits (str.length%kDecDigitsPerIteration) str 0
    let digits ← digits.write 0 digit
    readGroups (str.length+1) rest digits 1

/-- `NewDigitsFromHexCString` after `0x`, `NewDigitsFromDecCString` otherwise. -/
def newDigitsFromCString : Option (Uint32List × ℕ) :=
  match str with
  | '0' :: 'x' :: str => newDigitsFromHexCString str
  | '0' :: 'X' :: str => newDigitsFromHexCString str
  | str => newDigitsFromDecCString str

def newFromCString : Option Bigint :=
  match str with
  | '-' :: '-' :: _ => none
  | '-' :: str => do
    let (digits,used) ← newDigitsFromCString str
    new true used digits
  | str => do
    let (digits,used) ← newDigitsFromCString str
    new false used digits

/-- `Zone::AllocUnsafe` rounds the size up to a multiple of `kAlignment`. -/
def allocate (a : Arch) (size : ℤ) : Option (List Char) :=
  if size < 0 ∨ size > kIntptrMax a-8 then none
  else (roundUp size.toNat 8).map fun n => List.replicate n '\x00'

/-- The variables `chars` and `pos`. -/
structure CharBuffer where
  chars : List Char
  pos : ℕ

/-- `chars[pos++] = c;` -/
def CharBuffer.push (b : CharBuffer) (c : Char) : Option CharBuffer :=
  if b.pos < b.chars.length then some ⟨b.chars.set b.pos c,b.pos+1⟩ else none

/-- `chars[--pos] = c;` -/
def CharBuffer.pushFront (b : CharBuffer) (c : Char) : Option CharBuffer :=
  if 0 < b.pos ∧ b.pos ≤ b.chars.length then some ⟨b.chars.set (b.pos-1) c,b.pos-1⟩ else none

/-- The text in front of the terminator. -/
def cString (chars : List Char) : List Char := chars.takeWhile (· ≠ '\x00')

def kLog2Dividend : ℕ := 30103

def kLog2Divisor : ℕ := 100000

def kDivisor : ℕ := 100000000

def kDigits : ℕ := 8

/-- The division of `rest_digits` by `kDivisor`, of one digit. -/
def divideDigit (s : ℕ × Uint32List) (i : ℕ) : Option (ℕ × Uint32List) := do
  let dividend := s.1 <<< kBitsPerDigit+(← s.2.read i).toNat
  let quotient : ℕ := dividend/kDivisor%2^32
  let digits ← s.2.write i quotient
  return ((dividend-quotient*kDivisor)%2^32,digits)

/-- The last `n` decimal digits of the remainder, which has no others. -/
def pushDecDigits : ℕ → ℕ → CharBuffer → Option CharBuffer
  | 0, remainder, b => if remainder = 0 then some b else none
  | n+1, remainder, b => do
    let b ← b.push (Char.ofNat ('0'.toNat+remainder%10))
    pushDecDigits n (remainder/10) b

/-- The loop over groups of decimal digits, with fuel for its iterations. -/
def pushGroups : ℕ → Uint32List → ℕ → CharBuffer → Option CharBuffer
  | _, _, 0, b => some b
  | 0, _, _+1, _ => none
  | fuel+1, rest, used+1, b => do
    let (remainder,rest) ← forDown divideDigit (used+1) (0,rest)
    let b ← pushDecDigits kDigits remainder b
    pushGroups fuel rest (clamp rest (used+1)) b

/-- The position after the leading zeros are removed. -/
def trimZeros (chars : List Char) : ℕ → ℕ
  | 0 => 0
  | 1 => 1
  | pos+2 => if chars[pos+1]? = some '0' then trimZeros chars (pos+1) else pos+2

/-- The loop that reverses the text between `i` and `j`. -/
def reverseChars : ℕ → List Char → ℕ → ℕ → Option (List Char)
  | 0, _, _, _ => none
  | fuel+1, chars, i, j =>
    if i < j then do
      let tmp ← chars[i]?
      let last ← chars[j]?
      reverseChars fuel ((chars.set i last).set j tmp) (i+1) (j-1)
    else some chars

/-- `pos` after the sign is written. -/
def pushSign (neg : Bool) (b : CharBuffer) : Option CharBuffer :=
  if neg then b.push '-' else some b

/-- The digits without a sign, least significant one first. -/
def pushDec (x : Bigint) (b : CharBuffer) : Option CharBuffer :=
  if x.used = 0 then b.push '0' else pushGroups (2*x.used) (x.digits.take x.used) x.used b

def toDecCString (a : Arch) (x : Bigint) : Option (List Char) :=
  let kMaxUsed := kIntptrMax a/kBitsPerDigit/kLog2Dividend*kLog2Divisor
  -- The product is one of `intptr_t` numbers.
  if x.used > kMaxUsed ∨ x.used*kBitsPerDigit > kIntptrMax a then none
  else do
    let bitLen := x.used*kBitsPerDigit
    let decLen := (← mul64 bitLen kLog2Dividend).toNat/kLog2Divisor+1
    let len := (if x.neg then 1 else 0)+decLen+1
    let chars ← allocate a len
    let b ← pushDec x ⟨chars,0⟩
    let b ← pushSign x.neg ⟨b.chars,trimZeros b.chars b.pos⟩
    let chars ← reverseChars b.pos b.chars 0 (b.pos-1)
    let b ← (⟨chars,b.pos⟩ : CharBuffer).push '\x00'
    return cString b.chars

/-- The loop over the hexadecimal digits of the most significant digit. -/
def countHexDigits : ℕ → ℕ → Option ℕ
  | _, 0 => some 0
  | 0, _+1 => none
  | fuel+1, digit+1 => (countHexDigits fuel ((digit+1) >>> kBitsPerHexDigit)).map (·+1)

/-- The last `n` hexadecimal digits of a digit. -/
def pushHexDigits : ℕ → ℕ → CharBuffer → Option CharBuffer
  | 0, _, b => some b
  | n+1, digit, b => do
    let b ← b.pushFront (intToHexDigit (digit &&& 0xF))
    pushHexDigits n (digit >>> kBitsPerHexDigit) b

def pushTopHexDigits : ℕ → ℕ → CharBuffer → Option CharBuffer
  | _, 0, b => some b
  | 0, _+1, _ => none
  | fuel+1, digit+1, b => do
    let b ← b.pushFront (intToHexDigit ((digit+1) &&& 0xF))
    pushTopHexDigits fuel ((digit+1) >>> kBitsPerHexDigit) b

/-- One iteration of the loop over all digits but the most significant one. -/
def pushLowDigit (digits : Uint32List) (b : CharBuffer) (i : ℕ) : Option CharBuffer := do
  pushHexDigits kHexDigitsPerDigit (← digits.read i).toNat b

def pushFrontSign (neg : Bool) (b : CharBuffer) : Option CharBuffer :=
  if neg then b.pushFront '-' else some b

def toHexCString (a : Arch) (x : Bigint) : Option (List Char) :=
  if x.used = 0 then some ['0', 'x', '0']
  else if x.used > (kIntptrMax a-4)/kHexDigitsPerDigit then none
  else do
    let digit := (← x.digits.read (x.used-1)).toNat
    let hexLen := (x.used-1)*kHexDigitsPerDigit+(← countHexDigits kHexDigitsPerDigit digit)
    -- The length is an `int32_t`.
    let len : ℤ := (BitVec.ofNat 32 ((if x.neg then 1 else 0)+2+hexLen+1)).toInt
    let chars ← allocate a len
    let b ← (⟨chars,len.toNat⟩ : CharBuffer).pushFront '\x00'
    let b ← forUp 0 (x.used-1) b (pushLowDigit x.digits)
    let b ← pushTopHexDigits kHexDigitsPerDigit digit b
    let b ← b.pushFront 'x'
    let b ← b.pushFront '0'
    let b ← pushFrontSign x.neg b
    if b.pos = 0 then return cString b.chars else none

end DartSdk.Bigint
