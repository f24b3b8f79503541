import DartSdk.UriValue

/-! Model of `_normalize`, `_normalizeRegName` and `_normalizeEscape` in `sdk/lib/core/uri.dart`. A
component is the text between its ends. What follows it in a URI is never a hexadecimal digit, so an
escape that is cut off by the end of a component is invalid. -/
namespace DartSdk.Uri

def schemeTable : List ℕ :=
  [0x0000,0x0000,0x6800,0x03FF,0xFFFE,0x07FF,0xFFFE,0x07FF]

def genDelimitersTable : List ℕ :=
  [0x0000,0x0000,0x8008,0x8400,0x0001,0x2800,0x0000,0x0000]

def userinfoTable : List ℕ :=
  [0x0000,0x0000,0x7FD2,0x2FFF,0xFFFE,0x87FF,0xFFFE,0x47FF]

def regNameTable : List ℕ :=
  [0x0000,0x0000,0x7FF2,0x2BFF,0xFFFE,0x87FF,0xFFFE,0x47FF]

def pathCharOrSlashTable : List ℕ :=
  [0x0000,0x0000,0xFFD2,0x2FFF,0xFFFF,0x87FF,0xFFFE,0x47FF]

def queryCharTable : List ℕ :=
  [0x0000,0x0000,0xFFD2,0xAFFF,0xFFFF,0x87FF,0xFFFE,0x47FF]

/-- The test of a character below a limit against the bits of a table. -/
def inTableBelow (limit : ℕ) (table : List ℕ) (char : ℕ) : Bool :=
  decide (char < limit) && (table.getD (char >>> 4) 0 &&& (1 <<< (char &&& 0x0F))) != 0

def isSchemeCharacter (ch : ℕ) : Bool := inTableBelow 128 schemeTable ch

def isGeneralDelimiter (ch : ℕ) : Bool := inTableBelow (charRightBracket+1) genDelimitersTable ch

def isRegNameChar (char : ℕ) : Bool := inTableBelow 127 regNameTable char

def isUnreservedChar (ch : ℕ) : Bool := inTableBelow 127 unreservedTable ch

def isUpper (char : ℕ) : Bool := decide (0x41 ≤ char) && decide (char ≤ 0x5A)

def isLower (char : ℕ) : Bool := decide (0x61 ≤ char) && decide (char ≤ 0x7A)

/-- `toLowerCase` where all letters are ASCII. -/
def toLowerCase (s : Text) : Text := s.map fun c => if isUpper c then c+0x20 else c

/-- `toUpperCase` where all letters are ASCII. -/
def toUpperCase (s : Text) : Text := s.map fun c => if isLower c then c-0x20 else c

def isHexDigit (char : ℕ) : Bool :=
  if char ≤ 0x39 then decide (0x30 ≤ char)
  else
    let char := char ||| 0x20
    decide (0x61 ≤ char) && decide (char ≤ 0x66)

def hexValue (char : ℕ) : ℕ :=
  if char ≤ 0x39 then char-0x30
  else
    let char := char ||| 0x20
    char-(0x61-10)

/-- The replacement of the escape at the start of a text: none if it is kept, and a percent sign if it
is not valid. -/
def normalizeEscape (source : Text) (lowerCase : Bool) : Option Text :=
  match source with
  | percent :: firstDigit :: secondDigit :: _ =>
    if !isHexDigit firstDigit || !isHexDigit secondDigit then some [charPercent]
    else
      let value := hexValue firstDigit*16+hexValue secondDigit
      if isUnreservedChar value then
        some [if lowerCase && isUpper value then value ||| 0x20 else value]
      else if firstDigit ≥ 0x61 ∨ secondDigit ≥ 0x61 then
        some (toUpperCase [percent,firstDigit,secondDigit])
      else none
  | _ => some [charPercent]

def escapeByte (byte : ℕ) : Text := charPercent :: byteToHex byte

/-- The loop of `_escapeChar` over the bytes of a character. -/
def escapeBytes (char : ℕ) : ℕ → ℕ → Text
  | 0, _ => []
  | encodedBytes+1, flag =>
    escapeByte (((char >>> (6*encodedBytes)) &&& 0x3F) ||| flag) ++ escapeBytes char encodedBytes 0x80

def escapeChar (char : ℕ) : Text :=
  if char < 0x80 then escapeByte char
  else if char > 0xFFFF then escapeBytes char 4 0xF0
  else if char > 0x7FF then escapeBytes char 3 0xE0
  else escapeBytes char 2 0xC0

/-- The character at the start of a text and the number of its code units. -/
def codePoint (char : ℕ) (rest : Text) : ℕ × ℕ :=
  if char &&& 0xFC00 = 0xD800 then
    match rest with
    | tail :: _ =>
      if tail &&& 0xFC00 = 0xDC00 then
        (0x10000 ||| ((char &&& 0x3FF) <<< 10) ||| (tail &&& 0x3FF),2)
      else (char,1)
    | [] => (char,1)
  else (char,1)

/-- The text in the buffer, if there is one, and after it the section that is not yet written. -/
def written (buffer : Option Text) (section' : Text) : Text := buffer.getD [] ++ section'

/-- The loop of `_normalize`. Every round reads at least one character. -/
def normalizeLoop (charTable : List ℕ) : ℕ → Text → Option Text → Text → Except Failure Text
  | 0, _, buffer, section' => .ok (written buffer section')
  | _, [], buffer, section' => .ok (written buffer section')
  | fuel+1, char :: rest, buffer, section' =>
    if inTableBelow 127 charTable char then
      normalizeLoop charTable fuel rest buffer (section' ++ [char])
    else if char = charPercent then
      match normalizeEscape (char :: rest) false with
      | none => normalizeLoop charTable fuel (rest.drop 2) buffer (section' ++ char :: rest.take 2)
      | some replacement =>
        if replacement = [charPercent] then
          normalizeLoop charTable fuel rest (some (written buffer section' ++ [charPercent,0x32,0x35])) []
        else normalizeLoop charTable fuel (rest.drop 2) (some (written buffer section' ++ replacement)) []
    else if isGeneralDelimiter char then .error (.formatException "Invalid character")
    else
      let point := codePoint char rest
      normalizeLoop charTable fuel (rest.drop (point.2-1))
        (some (written buffer section' ++ escapeChar point.1)) []

def normalize (component : Text) (charTable : List ℕ) : Except Failure Text :=
  normalizeLoop charTable component.length component none []

/-- The section in lower case unless it is known to be so. -/
def sliceOf (isNormalized : Bool) (section' : Text) : Text :=
  if isNormalized then section' else toLowerCase section'

def regNameLoop : ℕ → Text → Option Text → Text → Bool → Except Failure Text
  | 0, _, buffer, section', isNormalized => .ok (written buffer (sliceOf isNormalized section'))
  | _, [], buffer, section', isNormalized => .ok (written buffer (sliceOf isNormalized section'))
  | fuel+1, char :: rest, buffer, section', isNormalized =>
    if char = charPercent then
      match normalizeEscape (char :: rest) true with
      | none =>
        if isNormalized then
          regNameLoop fuel (rest.drop 2) buffer (section' ++ char :: rest.take 2) true
        else
          regNameLoop fuel (rest.drop 2)
            (some (written buffer (toLowerCase section') ++ char :: rest.take 2)) [] true
      | some replacement =>
        let slice := written buffer (sliceOf isNormalized section')
        if replacement = [charPercent] then
          regNameLoop fuel rest (some (slice ++ [charPercent,0x32,0x35])) [] true
        else regNameLoop fuel (rest.drop 2) (some (slice ++ replacement)) [] true
    else if isRegNameChar char then
      if isNormalized && isUpper char then
        regNameLoop fuel rest (some (written buffer section')) [char] false
      else regNameLoop fuel rest buffer (section' ++ [char]) isNormalized
    else if isGeneralDelimiter char then .error (.formatException "Invalid character")
    else
      let point := codePoint char rest
      regNameLoop fuel (rest.drop (point.2-1))
        (some (written buffer (sliceOf isNormalized section') ++ escapeChar point.1)) [] isNormalized

def normalizeRegName (host : Text) : Except Failure Text :=
  regNameLoop host.length host none [] true

end DartSdk.Uri
