import DartSdk.ConvertUtf8

/-! Model of `_uriEncode`, `_uriDecode` and the functions on components and queries in
`sdk/lib/core/uri.dart`, with UTF-8 as the encoding. Strings are lists of code units. -/
namespace DartSdk.Uri

open DartSdk.Convert (Utf8Encoder.convert Utf8Decoder.convert)

abbrev Text := List ℕ

inductive Failure
  | argumentError (message : String)
  | formatException (message : String)
  | encoding (failure : Convert.Failure)

abbrev charAmpersand : ℕ := 0x26

abbrev charPercent : ℕ := 0x25

abbrev charPlus : ℕ := 0x2B

abbrev charSpace : ℕ := 0x20

abbrev charEqual : ℕ := 0x3D

/-- A table has one bit for each character below 128. -/
def inTable (table : List ℕ) (char : ℕ) : Bool :=
  decide (char < 128) && (table.getD (char >>> 4) 0 &&& (1 <<< (char &&& 0x0F))) != 0

def unreservedTable : List ℕ :=
  [0x0000,0x0000,0x6000,0x03FF,0xFFFE,0x87FF,0xFFFE,0x47FF]

def unreserved2396Table : List ℕ :=
  [0x0000,0x0000,0x6782,0x03FF,0xFFFE,0x87FF,0xFFFE,0x47FF]

def hexDigits : List ℕ :=
  [0x30,0x31,0x32,0x33,0x34,0x35,0x36,0x37,0x38,0x39,0x41,0x42,0x43,0x44,0x45,0x46]

def byteToHex (byte : ℕ) : Text :=
  [hexDigits.getD (byte >>> 4) 0,hexDigits.getD (byte &&& 0x0F) 0]

def encodeByte (canonicalTable : List ℕ) (spaceToPlus : Bool) (byte : ℕ) : Text :=
  if inTable canonicalTable byte then [byte]
  else if spaceToPlus ∧ byte = charSpace then [charPlus]
  else charPercent :: byteToHex byte

def encode (text : Text) : Except Failure (List ℕ) :=
  (Utf8Encoder.convert text 0 none).mapError .encoding

def decode (bytes : List ℕ) : Except Failure Text :=
  (Utf8Decoder.convert false (bytes.map Nat.cast) 0 none).mapError .encoding

def uriEncode (canonicalTable : List ℕ) (text : Text) (spaceToPlus : Bool) :
    Except Failure Text := do
  let bytes ← encode text
  return bytes.flatMap (encodeByte canonicalTable spaceToPlus)

/-- One round of the loop of `_hexCharPairToByte`. -/
def hexChar (byte charCode : ℕ) : Except Failure ℕ :=
  if 0x30 ≤ charCode ∧ charCode ≤ 0x39 then .ok (byte*16+charCode-0x30)
  else
    let charCode := charCode ||| 0x20
    if 0x61 ≤ charCode ∧ charCode ≤ 0x66 then .ok (byte*16+charCode-0x57)
    else .error (.argumentError "Invalid URL encoding")

def hexCharPairToByte (first second : ℕ) : Except Failure ℕ := do
  let byte ← hexChar 0 first
  hexChar byte second

def decodeBytes (plusToSpace : Bool) : Text → Except Failure (List ℕ)
  | [] => .ok []
  | codeUnit :: rest =>
    if codeUnit > 127 then .error (.argumentError "Illegal percent encoding in URI")
    else if codeUnit = charPercent then
      match rest with
      | first :: second :: rest => do
        let byte ← hexCharPairToByte first second
        let bytes ← decodeBytes plusToSpace rest
        return byte :: bytes
      | _ => .error (.argumentError "Truncated URI")
    else do
      let bytes ← decodeBytes plusToSpace rest
      return (if plusToSpace ∧ codeUnit = charPlus then charSpace else codeUnit) :: bytes

def uriDecode (text : Text) (plusToSpace : Bool) : Except Failure Text :=
  if text.all fun codeUnit => codeUnit != charPercent && codeUnit != charPlus then .ok text
  else do
    let bytes ← decodeBytes plusToSpace text
    decode bytes

def encodeComponent (component : Text) : Except Failure Text :=
  uriEncode unreserved2396Table component false

def decodeComponent (encodedComponent : Text) : Except Failure Text :=
  uriDecode encodedComponent false

def encodeQueryComponent (component : Text) : Except Failure Text :=
  uriEncode unreservedTable component true

def decodeQueryComponent (encodedComponent : Text) : Except Failure Text :=
  uriDecode encodedComponent true

/-- One round of the loop of `_makeQuery` over the parameters. -/
def writeParameter (result : Bool × Text) (entry : Text × Text) : Except Failure (Bool × Text) := do
  let separator := if result.1 then [] else [charAmpersand]
  let key ← encodeQueryComponent entry.1
  if entry.2.isEmpty then return (false,result.2 ++ separator ++ key)
  else
    let value ← encodeQueryComponent entry.2
    return (false,result.2 ++ separator ++ key ++ charEqual :: value)

/-- `_makeQuery` of a map, given by its entries in their order. -/
def makeQuery (queryParameters : List (Text × Text)) : Except Failure Text := do
  let result ← queryParameters.foldlM writeParameter (true,[])
  return result.2

/-- One round of the fold of `splitQueryString`. -/
def readParameter (map : Text → Option Text) (element : Text) :
    Except Failure (Text → Option Text) :=
  match element.findIdx? (· == charEqual) with
  | none =>
    if element.isEmpty then .ok map
    else do
      let key ← decodeQueryComponent element
      return Function.update map key (some [])
  | some 0 => .ok map
  | some index => do
    let key ← decodeQueryComponent (element.take index)
    let value ← decodeQueryComponent (element.drop (index+1))
    return Function.update map key (some value)

def splitQueryString (query : Text) : Except Failure (Text → Option Text) :=
  (query.splitOn charAmpersand).foldlM readParameter fun _ => none

end DartSdk.Uri
