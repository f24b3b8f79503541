import Mathlib

/-! `_Utf8Encoder` fills a preallocated buffer from the code units of a string. `_Utf8Decoder` keeps
a partial sequence between the bytes that it reads. A string is the list of its code units. -/
namespace DartSdk.Convert

/-- What a run throws. The fuel of a loop is no part of the source and never runs out. -/
inductive Failure
  | formatException (message : String)
  | rangeError
  | noSuchMethodError
  | outOfFuel
deriving DecidableEq, Repr

def isLeadSurrogate (codeUnit : ℕ) : Bool := codeUnit &&& 0xFC00 = 0xD800

def isTailSurrogate (codeUnit : ℕ) : Bool := codeUnit &&& 0xFC00 = 0xDC00

def combineSurrogatePair (lead tail : ℕ) : ℕ :=
  0x10000+(lead &&& 0x3FF) <<< 10 ||| (tail &&& 0x3FF)

def oneByteLimit : ℕ := 0x7F

def twoByteLimit : ℕ := 0x7FF

def threeByteLimit : ℕ := 0xFFFF

def fourByteLimit : ℕ := 0x10FFFF

def codeUnitAt (string : List ℕ) (index : ℕ) : Except Failure ℕ :=
  match string[index]? with
  | some codeUnit => .ok codeUnit
  | none => .error .rangeError

/-- The end of a range that starts at `start`, where a missing end is the length. -/
def checkValidRange (start : ℕ) (stop : Option ℕ) (length : ℕ) : Except Failure ℕ :=
  if length < start then .error .rangeError
  else match stop with
    | none => .ok length
    | some stop => if stop < start || length < stop then .error .rangeError else .ok stop

def writeCharCode (sink : List ℕ) (charCode : ℤ) : Except Failure (List ℕ) :=
  if charCode ≤ 0xFFFF then
    if charCode < 0 then .error .rangeError else .ok (sink ++ [charCode.toNat])
  else if charCode > 0x10FFFF then .error .rangeError
  else
    let bits := charCode.toNat-0x10000
    .ok (sink ++ [0xD800 ||| bits >>> 10,0xDC00 ||| (bits &&& 0x3FF)])

structure Encoder where
  bufferIndex : ℕ
  buffer : List ℕ

namespace Encoder

def withBufferSize (bufferSize : ℕ) : Encoder := ⟨0,List.replicate bufferSize 0⟩

/-- `_buffer[_bufferIndex++] = value` in a list of bytes. -/
def put (e : Encoder) (value : ℕ) : Except Failure Encoder :=
  if e.bufferIndex < e.buffer.length then
    .ok ⟨e.bufferIndex+1,e.buffer.set e.bufferIndex (value%256)⟩
  else .error .rangeError

/-- The result tells whether the next code unit was combined. -/
def writeSurrogate (e : Encoder) (leadingSurrogate nextCodeUnit : ℕ) :
    Except Failure (Bool × Encoder) :=
  if isTailSurrogate nextCodeUnit then do
    let rune := combineSurrogatePair leadingSurrogate nextCodeUnit
    let e ← e.put (0xF0 ||| rune >>> 18)
    let e ← e.put (0x80 ||| (rune >>> 12 &&& 0x3F))
    let e ← e.put (0x80 ||| (rune >>> 6 &&& 0x3F))
    let e ← e.put (0x80 ||| (rune &&& 0x3F))
    return (true,e)
  else do
    let e ← e.put (0xE0 ||| leadingSurrogate >>> 12)
    let e ← e.put (0x80 ||| (leadingSurrogate >>> 6 &&& 0x3F))
    let e ← e.put (0x80 ||| (leadingSurrogate &&& 0x3F))
    return (false,e)

/-- The loop of `_fillBuffer`, of at most as many rounds as the first argument says. -/
def fillLoop (str : List ℕ) (stop : ℕ) : ℕ → ℕ → Encoder → Except Failure (ℕ × Encoder)
  | 0, stringIndex, e => .ok (stringIndex,e)
  | fuel+1, stringIndex, e =>
    if stringIndex < stop then do
      let codeUnit ← codeUnitAt str stringIndex
      if codeUnit ≤ oneByteLimit then
        if e.bufferIndex ≥ e.buffer.length then return (stringIndex,e)
        let e ← e.put codeUnit
        fillLoop str stop fuel (stringIndex+1) e
      else if isLeadSurrogate codeUnit then
        if e.bufferIndex+3 ≥ e.buffer.length then return (stringIndex,e)
        let nextCodeUnit ← codeUnitAt str (stringIndex+1)
        let (wasCombined,e) ← e.writeSurrogate codeUnit nextCodeUnit
        fillLoop str stop fuel ((if wasCombined then stringIndex+1 else stringIndex)+1) e
      else
        let rune := codeUnit
        if rune ≤ twoByteLimit then
          if e.bufferIndex+1 ≥ e.buffer.length then return (stringIndex,e)
          let e ← e.put (0xC0 ||| rune >>> 6)
          let e ← e.put (0x80 ||| (rune &&& 0x3F))
          fillLoop str stop fuel (stringIndex+1) e
        else
          if e.bufferIndex+2 ≥ e.buffer.length then return (stringIndex,e)
          let e ← e.put (0xE0 ||| rune >>> 12)
          let e ← e.put (0x80 ||| (rune >>> 6 &&& 0x3F))
          let e ← e.put (0x80 ||| (rune &&& 0x3F))
          fillLoop str stop fuel (stringIndex+1) e
    else .ok (stringIndex,e)

/-- Encode all code units but a lead surrogate at the end, and return where encoding stopped. -/
def fillBuffer (e : Encoder) (str : List ℕ) (start stop : ℕ) : Except Failure (ℕ × Encoder) := do
  let trailing ← if start ≠ stop then isLeadSurrogate <$> codeUnitAt str (stop-1) else pure false
  let stop := if trailing then stop-1 else stop
  fillLoop str stop (stop-start) start e

end Encoder

def Utf8Encoder.convert (string : List ℕ) (start : ℕ) (stop : Option ℕ) :
    Except Failure (List ℕ) := do
  let stop ← checkValidRange start stop string.length
  let length := stop-start
  if length = 0 then return []
  let encoder := Encoder.withBufferSize (length*3)
  let (endPosition,encoder) ← encoder.fillBuffer string start stop
  if endPosition ≠ stop then
    let lastCodeUnit ← codeUnitAt string (stop-1)
    let (_,encoder) ← encoder.writeSurrogate lastCodeUnit 0
    return encoder.buffer.take encoder.bufferIndex
  return encoder.buffer.take encoder.bufferIndex

def toRadixString16 (n : ℤ) : String :=
  (if n < 0 then "-" else "") ++ String.ofList (Nat.toDigits 16 n.natAbs)

def unicodeReplacementCharacterRune : ℤ := 0xFFFD

def unicodeBomCharacterRune : ℤ := 0xFEFF

/-- `_Utf8Decoder`. The sink holds the code units that have been written. -/
structure Decoder where
  allowMalformed : Bool
  stringSink : List ℕ := []
  isFirstCharacter : Bool := true
  value : ℤ := 0
  expectedUnits : ℕ := 0
  extraUnits : ℕ := 0

namespace Decoder

/-- `_LIMITS`, by the number of units after the first. -/
def limits : ℕ → ℤ
  | 0 => oneByteLimit
  | 1 => twoByteLimit
  | 2 => threeByteLimit
  | _ => fourByteLimit

section
variable (d : Decoder)

def hasPartialInput : Bool := d.expectedUnits > 0

def flush : Except Failure Decoder :=
  if d.hasPartialInput then
    if !d.allowMalformed then .error (.formatException "Unfinished UTF-8 octet sequence")
    else do
      let sink ← writeCharCode d.stringSink unicodeReplacementCharacterRune
      return { d with stringSink := sink, value := 0, expectedUnits := 0, extraUnits := 0 }
  else .ok d

def close : Except Failure Decoder := d.flush

variable (unit : ℤ)

/-- A unit where no sequence is open. Units of one byte are copied. -/
def startSequence : Except Failure Decoder :=
  if Int.land unit oneByteLimit = unit then
    .ok { d with isFirstCharacter := false, stringSink := d.stringSink ++ [unit.toNat] }
  else if unit < 0 then
    if !d.allowMalformed then
      .error (.formatException ("Negative UTF-8 code unit: -0x" ++ toRadixString16 (-unit)))
    else do
      let sink ← writeCharCode d.stringSink unicodeReplacementCharacterRune
      return { d with stringSink := sink }
  else if Int.land unit 0xE0 = 0xC0 then
    .ok { d with value := Int.land unit 0x1F, expectedUnits := 1, extraUnits := 1 }
  else if Int.land unit 0xF0 = 0xE0 then
    .ok { d with value := Int.land unit 0x0F, expectedUnits := 2, extraUnits := 2 }
  else if Int.land unit 0xF8 = 0xF0 ∧ unit < 0xF5 then
    .ok { d with value := Int.land unit 0x07, expectedUnits := 3, extraUnits := 3 }
  else if !d.allowMalformed then
    .error (.formatException ("Bad UTF-8 encoding 0x" ++ toRadixString16 unit))
  else do
    let sink ← writeCharCode d.stringSink unicodeReplacementCharacterRune
    return { d with
      value := unicodeReplacementCharacterRune, expectedUnits := 0, extraUnits := 0,
      isFirstCharacter := false, stringSink := sink }

/-- Write the value of a sequence after its last unit. -/
def endSequence : Except Failure Decoder := do
  let value ← if d.value ≤ limits (d.extraUnits-1) then
      if !d.allowMalformed then
        .error (.formatException ("Overlong encoding of 0x" ++ toRadixString16 d.value))
      else pure unicodeReplacementCharacterRune
    else pure d.value
  let value ← if value > fourByteLimit then
      if !d.allowMalformed then
        .error (.formatException
          ("Character outside valid Unicode range: 0x" ++ toRadixString16 value))
      else pure unicodeReplacementCharacterRune
    else pure value
  let sink ← if !d.isFirstCharacter || value ≠ unicodeBomCharacterRune then
      writeCharCode d.stringSink value
    else pure d.stringSink
  return { d with value := value, stringSink := sink, isFirstCharacter := false }

/-- A unit where a sequence is open. One that does not continue the sequence is read again. -/
def continueSequence : Except Failure Decoder :=
  if Int.land unit 0xC0 ≠ 0x80 then
    if !d.allowMalformed then
      .error (.formatException ("Bad UTF-8 encoding 0x" ++ toRadixString16 unit))
    else do
      let sink ← writeCharCode d.stringSink unicodeReplacementCharacterRune
      { d with expectedUnits := 0, isFirstCharacter := false, stringSink := sink }.startSequence
        unit
  else
    let d := { d with
      value := Int.lor (d.value <<< (6 : ℕ)) (Int.land unit 0x3F), expectedUnits := d.expectedUnits-1 }
    if d.expectedUnits > 0 then .ok d else d.endSequence

def convertUnit : Except Failure Decoder :=
  if d.expectedUnits > 0 then d.continueSequence unit else d.startSequence unit

def convert (codeUnits : List ℤ) : Except Failure Decoder :=
  codeUnits.foldlM convertUnit d

end

end Decoder

/-- `Utf8Decoder.convert`, where `_convertIntercepted` returns `null`. -/
def Utf8Decoder.convert (allowMalformed : Bool) (codeUnits : List ℤ) (start : ℕ)
    (stop : Option ℕ) : Except Failure (List ℕ) := do
  let stop ← checkValidRange start stop codeUnits.length
  let decoder : Decoder := { allowMalformed }
  let decoder ← decoder.convert ((codeUnits.drop start).take (stop-start))
  let decoder ← decoder.close
  return decoder.stringSink

end DartSdk.Convert
