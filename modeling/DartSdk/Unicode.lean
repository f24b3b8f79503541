import DartSdk.PlatformUtils

/-! `Utf8::CodeUnitCount` sizes the destination, `Utf8::IsValid` validates, `Utf8::DecodeToUTF16`
and `Utf8::DecodeToLatin1` decode. An array from some index on is the list of its remaining bytes,
and a write outside of the destination fails. -/
namespace DartSdk.Unicode

open Utils

namespace Utf

def kMaxCodePoint : ℤ := 0x10FFFF

def isLatin1 (codePoint : ℤ) : Bool := codePoint ≥ 0 && codePoint ≤ 0xFF

/-- `IsOutOfRange`, for a word of the machine. -/
def isOutOfRange (codePoint : ℤ) : Bool := codePoint < 0 || codePoint > kMaxCodePoint

end Utf

namespace Utf16

def kMaxCodeUnit : ℕ := 0xFFFF

def kLeadSurrogateOffset : ℕ := 0xD800-0x10000 >>> 10

def isSurrogate (ch : ℕ) : Bool := ch &&& 0xFFFFF800 = 0xD800

def isLeadSurrogate (ch : ℕ) : Bool := ch &&& 0xFFFFFC00 = 0xD800

def isTrailSurrogate (ch : ℕ) : Bool := ch &&& 0xFFFFFC00 = 0xDC00

def decode (lead trail : ℕ) : ℕ := 0x10000+(lead &&& 0x3FF) <<< 10+(trail &&& 0x3FF)

/-- The code points that repeated calls of `Next` return. -/
def codePoints : List UInt16 → List ℕ
  | [] => []
  | [ch] => [ch.toNat]
  | ch :: ch2 :: rest =>
    if isLeadSurrogate ch.toNat && isTrailSurrogate ch2.toNat then
      decode ch.toNat ch2.toNat :: codePoints rest
    else ch.toNat :: codePoints (ch2 :: rest)

end Utf16

namespace Utf8

/-- The rows of `kTrailBytes`, with equal entries joined. -/
def kTrailBytes : List ℕ :=
  List.replicate 128 1 ++ List.replicate 64 0 ++ List.replicate 32 2 ++ List.replicate 16 3 ++
    List.replicate 8 4 ++ List.replicate 4 5 ++ List.replicate 2 6 ++ List.replicate 2 0

def kMagicBits : List ℕ :=
  [0,0x00000000,0x00003080,0x000E2080,0x03C82080,0xFA082080,0x82082080]

def kOverlongMinimum : List ℕ := [0,0x0,0x80,0x800,0x10000,0xFFFFFFFF,0xFFFFFFFF]

def kMaxOneByteChar : ℕ := 0x7F

def kMaxTwoByteChar : ℕ := 0x7FF

def kMaxThreeByteChar : ℕ := 0xFFFF

def kMaxFourByteChar : ℕ := 0x10FFFF

variable (codeUnit : UInt8)

def isTrailByte : Bool := codeUnit &&& 0xC0 == 0x80

def isNonShortestForm (codePoint numCodeUnits : ℕ) : Bool :=
  codePoint < kOverlongMinimum.getD numCodeUnits 0

def isLatin1SequenceStart : Bool := codeUnit ≤ 0xC3

def isSupplementarySequenceStart : Bool := codeUnit ≥ 0xF0

inductive Kind
  | latin1
  | bmp
  | supplementary
  deriving DecidableEq

def countStep (s : ℕ × Kind) (codeUnit : UInt8) : ℕ × Kind :=
  if isTrailByte codeUnit then s
  else if isLatin1SequenceStart codeUnit then (s.1+1,s.2)
  else if isSupplementarySequenceStart codeUnit then (s.1+1+1,.supplementary)
  else (s.1+1,if s.2 = .latin1 then .bmp else s.2)

def codeUnitCount (utf8Array : List UInt8) : ℕ × Kind := utf8Array.foldl countStep (0,.latin1)

/-- The loop over the trail bytes, with `left` of them to come: the accumulated bits of a `uint32_t`
and whether a byte is no trail byte. -/
def scanTrail : ℕ → ℕ → Bool → List UInt8 → Option (ℕ × Bool)
  | 0, ch, isMalformed, _ => some (ch,isMalformed)
  | _+1, _, _, [] => none
  | left+1, ch, isMalformed, codeUnit :: rest =>
    scanTrail left ((ch <<< 6+codeUnit.toNat)%2^32) (isMalformed || !isTrailByte codeUnit) rest

variable (a : Arch)

/-- The part that `IsValid` and `Decode` share: the code point and the length of the sequence at the
start of an array, if there is a well-formed one. -/
def sequence (first : UInt8) (rest : List UInt8) : Option (ℕ × ℕ) :=
  let ch := first.toNat
  if ch ≥ 0x80 then
    let numTrailBytes := kTrailBytes.getD ch 0
    -- The loop index is 1 at the start and stays there if there is nothing to scan.
    let j := max 1 numTrailBytes
    match scanTrail (numTrailBytes-1) ch false rest with
    | none => none
    | some (ch,isMalformed) =>
      let ch := (ch+2^32-kMagicBits.getD numTrailBytes 0)%2^32
      if !isMalformed && j == numTrailBytes &&
          !Utf.isOutOfRange (BitVec.ofNat (kBitsPerWord a) ch).toInt &&
          !isNonShortestForm ch j && !Utf16.isSurrogate ch then some (ch,j)
      else none
  else some (ch,1)

/-- The loop of `IsValid`, with fuel for its iterations. -/
def isValidLoop : ℕ → List UInt8 → Option Bool
  | _, [] => some true
  | 0, _ :: _ => none
  | fuel+1, first :: rest =>
    match sequence a first rest with
    | none => some false
    | some (_,j) => isValidLoop fuel ((first :: rest).drop j)

def isValid (utf8Array : List UInt8) : Option Bool := isValidLoop a utf8Array.length utf8Array

/-- `kMask` clears one bit; the bits above it do not fit in a byte. -/
def trailByte (ch : ℕ) : UInt8 := UInt8.ofNat (0x80 ||| ch.ldiff (1 <<< 6))

/-- `Encode` of a code point. -/
def encode (ch : ℕ) : Option (List UInt8) :=
  if ch ≤ kMaxOneByteChar then some [UInt8.ofNat ch]
  else if ch ≤ kMaxTwoByteChar then some [UInt8.ofNat (0xC0 ||| ch >>> 6),trailByte ch]
  else if ch ≤ kMaxThreeByteChar then
    some [UInt8.ofNat (0xE0 ||| ch >>> 12),trailByte (ch >>> 6),trailByte ch]
  else if ch ≤ kMaxFourByteChar then
    some [UInt8.ofNat (0xF0 ||| ch >>> 18),trailByte (ch >>> 12),trailByte (ch >>> 6),trailByte ch]
  else none

/-- `Decode`: the code point, or -1, and the number of bytes. -/
def decode : List UInt8 → Option (ℤ × ℕ)
  | [] => none
  | first :: rest =>
    match sequence a first rest with
    | none => some (-1,0)
    | some (ch,i) => some (ch,i)

def write {α : Type} (dst : List α) (j : ℕ) (x : α) : Option (List α) :=
  if j < dst.length then some (dst.set j x) else none

def decodeToLatin1Loop (len : ℕ) : ℕ → List UInt8 → ℕ → List UInt8 → Option (Bool × List UInt8)
  | _, [], _, dst => some (true,dst)
  | fuel, first :: rest, j, dst =>
    if j < len then
      match fuel with
      | 0 => none
      | fuel+1 =>
        if isLatin1SequenceStart first then do
          let (ch,numBytes) ← decode a (first :: rest)
          if ch = -1 then return (false,dst)
          else if Utf.isLatin1 ch then do
            let dst ← write dst j (UInt8.ofNat ch.toNat)
            decodeToLatin1Loop len fuel ((first :: rest).drop numBytes) (j+1) dst
          else none
        else none
    else some (!(j == len),dst)

def decodeToLatin1 (utf8Array dst : List UInt8) (len : ℕ) : Option (Bool × List UInt8) :=
  decodeToLatin1Loop a len utf8Array.length utf8Array 0 dst

/-- `Utf16::Encode` at index `j` of the destination. -/
def encodeUTF16 (codePoint j : ℕ) (dst : List UInt16) : Option (List UInt16) :=
  if codePoint > Utf16.kMaxCodeUnit then do
    let dst ← write dst j (UInt16.ofNat (Utf16.kLeadSurrogateOffset+codePoint >>> 10))
    write dst (j+1) (UInt16.ofNat (0xDC00+(codePoint &&& 0x3FF)))
  else none

def decodeToUTF16Loop (len : ℕ) : ℕ → List UInt8 → ℕ → List UInt16 → Option (Bool × List UInt16)
  | _, [], _, dst => some (true,dst)
  | fuel, first :: rest, j, dst =>
    if j < len then
      match fuel with
      | 0 => none
      | fuel+1 => do
        let (ch,numBytes) ← decode a (first :: rest)
        if ch = -1 then return (false,dst)
        else if isSupplementarySequenceStart first then do
          let dst ← encodeUTF16 ch.toNat j dst
          decodeToUTF16Loop len fuel ((first :: rest).drop numBytes) (j+1+1) dst
        else do
          let dst ← write dst j (UInt16.ofNat ch.toNat)
          decodeToUTF16Loop len fuel ((first :: rest).drop numBytes) (j+1) dst
    else some (!(j == len),dst)

def decodeToUTF16 (utf8Array : List UInt8) (dst : List UInt16) (len : ℕ) :
    Option (Bool × List UInt16) :=
  decodeToUTF16Loop a len utf8Array.length utf8Array 0 dst

end Utf8

end DartSdk.Unicode
