import Mathlib

/-! Model of `Int64` in `pkg/fixnum/lib/src/int64.dart`, with 22 low, 22 middle and 20 high bits,
and of the bit counts of `Int32` that it uses. A `Host` is the platform: on the VM integers are
exact, code compiled by dart2js truncates the result of each bitwise or shift operator to an
unsigned 32-bit value. A thrown error is `none`. -/
namespace DartSdk.Fixnum

inductive Host
  | exact
  | js

namespace Host

def wrap : Host → ℤ → ℤ
  | exact, x => x
  | js, x => x%2^32

variable (t : Host)

def and (x y : ℤ) : ℤ := t.wrap (Int.land x y)

def or (x y : ℤ) : ℤ := t.wrap (Int.lor x y)

def xor (x y : ℤ) : ℤ := t.wrap (Int.xor x y)

variable (x : ℤ)

def not : ℤ := t.wrap (Int.lnot x)

def shl (n : ℕ) : ℤ := t.wrap (x <<< n)

def shr (n : ℕ) : ℤ := t.wrap (x >>> n)

def toSigned (width : ℕ) : ℤ :=
  let signMask := t.shl 1 (width-1)
  t.and x (signMask-1)-t.and x signMask

def toUnsigned (width : ℕ) : ℤ := t.and x (t.shl 1 width-1)

/-- `_haveBigInts`: the numbers of JavaScript are exact up to `2 ^ 53` only. -/
def haveBigInts : Host → Bool
  | exact => true
  | js => false

end Host

def bitLength (x : ℤ) : ℕ := if x < 0 then (-x-1).toNat.size else x.toNat.size

/-- The components `_l`, `_m` and `_h`. -/
@[ext] structure Int64 where
  l : ℤ
  m : ℤ
  h : ℤ

def kBits : ℕ := 22

def kBits01 : ℕ := 44

def kBits2 : ℕ := 20

def kMask : ℤ := 4194303

def kMask2 : ℤ := 1048575

def kSignBitMask : ℤ := 524288

section Int32
variable (t : Host)

def bitCount (i : ℤ) : ℤ :=
  let i := i-t.and (t.shr i 1) 0x55555555
  let i := t.and i 0x33333333+t.and (t.shr i 2) 0x33333333
  let i := t.and (i+t.shr i 4) 0x0F0F0F0F
  let i := i+t.shr i 8
  let i := i+t.shr i 16
  t.and i 0x3F

/-- `Int32._numberOfLeadingZeros`. -/
def numberOfLeadingZeros32 (i : ℤ) : ℤ :=
  let i := t.or i (t.shr i 1)
  let i := t.or i (t.shr i 2)
  let i := t.or i (t.shr i 4)
  let i := t.or i (t.shr i 8)
  let i := t.or i (t.shr i 16)
  bitCount t (t.not i)

/-- `Int32._numberOfTrailingZeros`. -/
def numberOfTrailingZeros32 (i : ℤ) : ℤ := bitCount t (t.and i (-i)-1)

end Int32

namespace Int64
variable (t : Host)

def masked (a0 a1 a2 : ℤ) : Int64 := ⟨t.and kMask a0,t.and kMask a1,t.and kMask2 a2⟩

def fromInts (top bottom : ℤ) : Int64 :=
  let top := t.and top 0xffffffff
  let bottom := t.and bottom 0xffffffff
  let d0 := t.and kMask bottom
  let d1 := t.or (t.shl (t.and 0xfff top) 10) (t.and 0x3ff (t.shr bottom kBits))
  let d2 := t.and kMask2 (t.shr top 12)
  ⟨d0,d1,d2⟩

/-- Four bytes, the most significant one first. -/
def join4 (b3 b2 b1 b0 : ℤ) : ℤ :=
  let x := t.and b3 0xff
  let x := t.or (t.shl x 8) (t.and b2 0xff)
  let x := t.or (t.shl x 8) (t.and b1 0xff)
  t.or (t.shl x 8) (t.and b0 0xff)

def fromBytes (bytes : List ℤ) : Option Int64 := do
  let top := join4 t (← bytes[7]?) (← bytes[6]?) (← bytes[5]?) (← bytes[4]?)
  let bottom := join4 t (← bytes[3]?) (← bytes[2]?) (← bytes[1]?) (← bytes[0]?)
  return fromInts t top bottom

def add (a o : Int64) : Int64 :=
  let sum0 := a.l+o.l
  let sum1 := a.m+o.m+t.shr sum0 kBits
  let sum2 := a.h+o.h+t.shr sum1 kBits
  masked t sum0 sum1 sum2

/-- `_sub`. -/
def subLimbs (a0 a1 a2 b0 b1 b2 : ℤ) : Int64 :=
  let diff0 := a0-b0
  let diff1 := a1-b1-t.and (t.shr diff0 kBits) 1
  let diff2 := a2-b2-t.and (t.shr diff1 kBits) 1
  masked t diff0 diff1 diff2

def sub (a o : Int64) : Int64 := subLimbs t a.l a.m a.h o.l o.m o.h

variable (a : Int64)

def neg : Int64 := subLimbs t 0 0 0 a.l a.m a.h

/-- The five 13-bit chunks of a factor. -/
def chunk0 : ℤ := t.and a.l 0x1fff

def chunk1 : ℤ := t.or (t.shr a.l 13) (t.shl (t.and a.m 0xf) 9)

def chunk2 : ℤ := t.and (t.shr a.m 4) 0x1fff

def chunk3 : ℤ := t.or (t.shr a.m 17) (t.shl (t.and a.h 0xff) 5)

def chunk4 : ℤ := t.shr (t.and a.h 0xfff00) 8

/-- The partial products are put together to limbs. -/
def assemble (p0 p1 p2 p3 p4 : ℤ) : Int64 :=
  let c00 := t.and p0 0x3fffff
  let c01 := t.shl (t.and p1 0x1ff) 13
  let c0 := c00+c01
  let c10 := t.shr p0 22
  let c11 := t.shr p1 9
  let c12 := t.shl (t.and p2 0x3ffff) 4
  let c13 := t.shl (t.and p3 0x1f) 17
  let c1 := c10+c11+c12+c13
  let c22 := t.shr p2 18
  let c23 := t.shr p3 5
  let c24 := t.shl (t.and p4 0xfff) 8
  let c2 := c22+c23+c24
  let c1 := c1+t.shr c0 kBits
  let c2 := c2+t.shr c1 kBits
  masked t c0 c1 c2

def mul (a o : Int64) : Int64 :=
  let a0 := chunk0 t a
  let a1 := chunk1 t a
  let a2 := chunk2 t a
  let a3 := chunk3 t a
  let a4 := chunk4 t a
  let b0 := chunk0 t o
  let b1 := chunk1 t o
  let b2 := chunk2 t o
  let b3 := chunk3 t o
  let b4 := chunk4 t o
  let p0 := a0*b0
  let p1 := a1*b0+if b1 ≠ 0 then a0*b1 else 0
  let p2 := a2*b0+(if b1 ≠ 0 then a1*b1 else 0)+if b2 ≠ 0 then a0*b2 else 0
  let p3 := a3*b0+(if b1 ≠ 0 then a2*b1 else 0)+(if b2 ≠ 0 then a1*b2 else 0) +
    if b3 ≠ 0 then a0*b3 else 0
  let p4 := a4*b0+(if b1 ≠ 0 then a3*b1 else 0)+(if b2 ≠ 0 then a2*b2 else 0) +
    (if b3 ≠ 0 then a1*b3 else 0)+if b4 ≠ 0 then a0*b4 else 0
  assemble t p0 p1 p2 p3 p4

def and (a o : Int64) : Int64 := ⟨t.and a.l o.l,t.and a.m o.m,t.and a.h o.h⟩

def or (a o : Int64) : Int64 := ⟨t.or a.l o.l,t.or a.m o.m,t.or a.h o.h⟩

def xor (a o : Int64) : Int64 := masked t (t.xor a.l o.l) (t.xor a.m o.m) (t.xor a.h o.h)

def not (a : Int64) : Int64 := masked t (t.not a.l) (t.not a.m) (t.not a.h)

/-- `<<` by a count that has been reduced. -/
def shiftLeftBy (n : ℕ) : Int64 :=
  if n < kBits then
    masked t (t.shl a.l n) (t.or (t.shl a.m n) (t.shr a.l (kBits-n)))
      (t.or (t.shl a.h n) (t.shr a.m (kBits-n)))
  else if n < kBits01 then
    masked t 0 (t.shl a.l (n-kBits)) (t.or (t.shl a.m (n-kBits)) (t.shr a.l (kBits01-n)))
  else masked t 0 0 (t.shl a.l (n-kBits01))

/-- `_shiftRight`. -/
def shiftRightHelper (x : ℤ) (n : ℕ) : ℤ :=
  if x ≥ 0 then t.shr x n
  else
    let shifted := t.shr x n
    if shifted ≥ 0x80000000 then shifted-4294967296 else shifted

def isNegative : Bool := t.and a.h kSignBitMask != 0

/-- `>>` by a count that has been reduced. -/
def shiftRightBy (n : ℕ) : Int64 :=
  let negative := t.and a.h kSignBitMask != 0
  let a2 := if negative && decide (kMask > kMask2) then a.h+(kMask-kMask2) else a.h
  let fill (x mask : ℤ) (k : ℕ) := if negative then t.or x (t.and mask (t.not (t.shr mask k))) else x
  if n < kBits then
    let res2 := fill (shiftRightHelper t a2 n) kMask2 n
    let res1 := t.or (shiftRightHelper t a.m n) (t.shl a2 (kBits-n))
    let res0 := t.or (shiftRightHelper t a.l n) (t.shl a.m (kBits-n))
    masked t res0 res1 res2
  else if n < kBits01 then
    let res2 := if negative then kMask2 else 0
    let res1 := fill (shiftRightHelper t a2 (n-kBits)) kMask (n-kBits)
    let res0 := t.or (shiftRightHelper t a.m (n-kBits)) (t.shl a2 (kBits01-n))
    masked t res0 res1 res2
  else
    let res2 := if negative then kMask2 else 0
    let res1 := if negative then kMask else 0
    let res0 := fill (shiftRightHelper t a2 (n-kBits01)) kMask (n-kBits01)
    masked t res0 res1 res2

/-- `shiftRightUnsigned` by a count that has been reduced. -/
def shiftRightUnsignedBy (n : ℕ) : Int64 :=
  let a2 := t.and kMask2 a.h
  if n < kBits then
    masked t (t.or (t.shr a.l n) (t.shl a.m (kBits-n))) (t.or (t.shr a.m n) (t.shl a2 (kBits-n)))
      (t.shr a2 n)
  else if n < kBits01 then
    masked t (t.or (t.shr a.m (n-kBits)) (t.shl a.h (kBits01-n))) (t.shr a2 (n-kBits)) 0
  else masked t (t.shr a2 (n-kBits01)) 0 0

/-- A shift operator: negative counts are errors, others are taken modulo 64. -/
def withCount (shift : Int64 → ℕ → Int64) (a : Int64) (n : ℤ) : Option Int64 :=
  if n < 0 then none else some (shift a (t.and n 63).toNat)

def shiftLeft (n : ℤ) : Option Int64 := withCount t (shiftLeftBy t) a n

def shiftRight (n : ℤ) : Option Int64 := withCount t (shiftRightBy t) a n

def shiftRightUnsigned (n : ℤ) : Option Int64 := withCount t (shiftRightUnsignedBy t) a n

/-- `==` between two `Int64`. -/
def equals (a o : Int64) : Bool := a.l == o.l && a.m == o.m && a.h == o.h

def compareTo (a o : Int64) : ℤ :=
  let signa := t.shr a.h (kBits2-1)
  let signb := t.shr o.h (kBits2-1)
  if signa ≠ signb then if signa = 0 then 1 else -1
  else if a.h > o.h then 1
  else if a.h < o.h then -1
  else if a.m > o.m then 1
  else if a.m < o.m then -1
  else if a.l > o.l then 1
  else if a.l < o.l then -1
  else 0

section
variable (a : Int64)

def isZero : Bool := a.h == 0 && a.m == 0 && a.l == 0

def bitLength : ℕ :=
  if a.isZero then 0
  else
    let flip (x mask : ℤ) := if a.isNegative t then t.and mask (t.not x) else x
    let a0 := flip a.l kMask
    let a1 := flip a.m kMask
    let a2 := flip a.h kMask2
    if a2 ≠ 0 then kBits01+Fixnum.bitLength a2
    else if a1 ≠ 0 then kBits+Fixnum.bitLength a1
    else Fixnum.bitLength a0

def numberOfLeadingZeros : ℤ :=
  let b2 := numberOfLeadingZeros32 t a.h
  if b2 = 32 then
    let b1 := numberOfLeadingZeros32 t a.m
    if b1 = 32 then numberOfLeadingZeros32 t a.l+32 else b1+kBits2-(32-kBits)
  else b2-(32-kBits2)

def numberOfTrailingZeros : ℤ :=
  let zeros := numberOfTrailingZeros32 t a.l
  if zeros < 32 then zeros
  else
    let zeros := numberOfTrailingZeros32 t a.m
    if zeros < 32 then kBits+zeros
    else
      let zeros := numberOfTrailingZeros32 t a.h
      if zeros < 32 then kBits01+zeros else 64

def toSigned (width : ℤ) : Option Int64 :=
  if width < 1 ∨ width > 64 then none
  else if width > kBits01 then
    some (masked t a.l a.m (t.toSigned a.h (width.toNat-kBits01)))
  else if width > kBits then
    let m := t.toSigned a.m (width.toNat-kBits)
    some (if m < 0 then masked t a.l m kMask2 else masked t a.l m 0)
  else
    let l := t.toSigned a.l width.toNat
    some (if l < 0 then masked t l kMask kMask2 else masked t l 0 0)

def toUnsigned (width : ℤ) : Option Int64 :=
  if width < 0 ∨ width > 64 then none
  else if width > kBits01 then
    some (masked t a.l a.m (t.toUnsigned a.h (width.toNat-kBits01)))
  else if width > kBits then some (masked t a.l (t.toUnsigned a.m (width.toNat-kBits)) 0)
  else some (masked t (t.toUnsigned a.l width.toNat) 0 0)

def toBytes : List ℤ :=
  [t.and a.l 0xff,
    t.and (t.shr a.l 8) 0xff,
    t.or (t.and (t.shl a.m 6) 0xfc) (t.and (t.shr a.l 16) 0x3f),
    t.and (t.shr a.m 2) 0xff,
    t.and (t.shr a.m 10) 0xff,
    t.or (t.and (t.shl a.h 4) 0xf0) (t.and (t.shr a.m 18) 0xf),
    t.and (t.shr a.h 4) 0xff,
    t.and (t.shr a.h 12) 0xff]

def toInt : ℤ :=
  let negative := t.and a.h kSignBitMask != 0
  let flip (x mask : ℤ) := if negative then t.and mask (t.not x) else x
  let l := flip a.l kMask
  let m := flip a.m kMask
  let h := flip a.h kMask2
  if t.haveBigInts then
    let result := t.or (t.or (t.shl h kBits01) (t.shl m kBits)) l
    if negative then -result-1 else result
  else if negative then -((l+1)+m*4194304+h*17592186044416)
  else l+m*4194304+h*17592186044416

end

end Int64

end DartSdk.Fixnum
