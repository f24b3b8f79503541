import DartSdk.IntegersParse
import DartSdk.UriComponent

/-! Model of the fields and getters of `Uri` in `sdk/lib/core/uri.dart`, of its string, and of
`parseIPv4Address` and `parseIPv6Address`. -/
namespace DartSdk

/-- The fields of a `Uri`. A missing scheme is empty; a missing host means no authority. -/
structure Uri where
  scheme : Uri.Text
  userInfo : Uri.Text
  _host : Option Uri.Text
  _port : Option ℤ
  path : Uri.Text
  _query : Option Uri.Text
  _fragment : Option Uri.Text
  deriving DecidableEq

namespace Uri

abbrev charNumberSign : ℕ := 0x23

abbrev charDot : ℕ := 0x2E

abbrev charSlash : ℕ := 0x2F

abbrev charColon : ℕ := 0x3A

abbrev charQuestion : ℕ := 0x3F

abbrev charAtSign : ℕ := 0x40

abbrev charLeftBracket : ℕ := 0x5B

abbrev charRightBracket : ℕ := 0x5D

def http : Text := [0x68,0x74,0x74,0x70]

def https : Text := [0x68,0x74,0x74,0x70,0x73]

def file : Text := [0x66,0x69,0x6C,0x65]

def defaultPort (scheme : Text) : ℤ :=
  if scheme = http then 80
  else if scheme = https then 443
  else 0

def makePort (port : Option ℤ) (scheme : Text) : Option ℤ :=
  if port = some (defaultPort scheme) then none else port

variable (u : Uri)

def hasAuthority : Bool := u._host.isSome

def hasPort : Bool := u._port.isSome

def hasQuery : Bool := u._query.isSome

def hasFragment : Bool := u._fragment.isSome

/-- A host that starts with a bracket ends with one. -/
def host : Text :=
  match u._host with
  | none => []
  | some h => if h.head? = some charLeftBracket then (h.drop 1).dropLast else h

def port : ℤ := u._port.getD (defaultPort u.scheme)

def query : Text := u._query.getD []

def fragment : Text := u._fragment.getD []

def writeAuthority : Text :=
  (if u.userInfo ≠ [] then u.userInfo ++ [charAtSign] else []) ++ u._host.getD [] ++
    match u._port with
    | none => []
    | some port => charColon :: IntParse.decimal port

/-- A query or a fragment with the character before it, if there is one. -/
def writeAfter (mark : ℕ) : Option Text → Text
  | none => []
  | some text => mark :: text

def toString : Text :=
  (if u.scheme ≠ [] then u.scheme ++ [charColon] else []) ++
    (if u.hasAuthority ∨ [charSlash,charSlash] <+: u.path ∨ u.scheme = file then
      charSlash :: charSlash :: u.writeAuthority
    else []) ++
    u.path ++ writeAfter charQuestion u._query ++ writeAfter charNumberSign u._fragment

def equals (v : Uri) : Bool :=
  u.scheme == v.scheme && u.hasAuthority == v.hasAuthority && u.userInfo == v.userInfo &&
    u.host == v.host && u.port == v.port && u.path == v.path && u.hasQuery == v.hasQuery &&
    u.query == v.query && u.hasFragment == v.hasFragment && u.fragment == v.fragment

open IntParse (parseInRadix)

def illegalIPv4 (msg : String) : Failure := .formatException ("Illegal IPv4 address, " ++ msg)

def parseIPv4Byte (byteString : Text) : Except Failure ℤ :=
  match IntParse.parse byteString with
  | none => .error (.formatException "Invalid number")
  | some byte =>
    if byte < 0 ∨ byte > 255 then .error (illegalIPv4 "each part must be in the range of `0..255`")
    else .ok byte

def parseIPv4Address (host : Text) : Except Failure (List ℤ) :=
  let bytes := host.splitOn charDot
  if bytes.length ≠ 4 then .error (illegalIPv4 "IPv4 address should contain exactly 4 parts")
  else bytes.mapM parseIPv4Byte

def illegalIPv6 (msg : String) : Failure := .formatException ("Illegal IPv6 address, " ++ msg)

def parseHex (part : Text) : Except Failure ℤ :=
  if part.length > 4 then
    .error (illegalIPv6 "an IPv6 part can only contain a maximum of 4 hex digits")
  else
    match parseInRadix 16 part with
    | none => .error (.formatException "Invalid radix-16 number")
    | some value =>
      if value < 0 ∨ value > 0xFFFF then
        .error (illegalIPv6 "each part must be in the range of `0x0..0xFFFF`")
      else .ok value

/-- The loop over all parts except a last one: the parts, whether a wildcard was seen, and what
follows the last colon. -/
def scanParts : Text → Text → List ℤ → Bool → Except Failure (List ℤ × Bool × Text)
  | [], part, parts, wildcardSeen => .ok (parts,wildcardSeen,part)
  | c :: rest, part, parts, wildcardSeen =>
    if c = charColon then
      if part.isEmpty then
        if wildcardSeen then .error (illegalIPv6 "only one wildcard `::` is allowed")
        else scanParts rest [] (parts ++ [-1]) true
      else do
        let value ← parseHex part
        scanParts rest [] (parts ++ [value]) wildcardSeen
    else scanParts rest (part ++ [c]) parts wildcardSeen

/-- A colon at the start has to be followed by another one. -/
def scanAddress (address : Text) : Except Failure (List ℤ × Bool × Text) :=
  match address with
  | c :: rest =>
    if c = charColon then
      if rest.head? ≠ some charColon then .error (illegalIPv6 "invalid start colon.")
      else scanParts rest [] [] false
    else scanParts address [] [] false
  | [] => scanParts address [] [] false

/-- The last part, which may be an IPv4 address. -/
def lastParts (part : Text) : Except Failure (List ℤ) :=
  match parseHex part with
  | .ok value => .ok [value]
  | .error _ =>
    match parseIPv4Address part with
    | .ok [a,b,c,d] => .ok [a*0x100+b,c*0x100+d]
    | _ => .error (illegalIPv6 "invalid end of IPv6 address.")

/-- The bytes of the parts, where a wildcard fills up with zeros. -/
def addressBytes (parts : List ℤ) : List ℤ :=
  parts.flatMap fun value =>
    if value = -1 then List.replicate (2*(9-parts.length)) 0 else [value/0x100,value%0x100]

/-- The address of all parts, which a wildcard may stand in for. -/
def fillAddress (wildcardSeen : Bool) (parts : List ℤ) : Except Failure (List ℤ) :=
  if wildcardSeen then
    if parts.length > 7 then
      .error (illegalIPv6 "an address with a wildcard must have less than 7 parts")
    else .ok (addressBytes parts)
  else if parts.length ≠ 8 then
    .error (illegalIPv6 "an address without a wildcard must contain exactly 8 parts")
  else .ok (addressBytes parts)

/-- Parse the part of a text of some length between the brackets. -/
def parseIPv6Address (hostLength : ℕ) (address : Text) : Except Failure (List ℤ) :=
  if hostLength < 2 then .error (illegalIPv6 "address is too short")
  else do
    let (parts,wildcardSeen,part) ← scanAddress address
    if parts.length = 0 then .error (illegalIPv6 "too few parts")
    else if part.isEmpty ∧ parts.getLast? ≠ some (-1) then
      .error (illegalIPv6 "expected a part after last `:`")
    else
      let last ← if part.isEmpty then .ok [] else lastParts part
      fillAddress wildcardSeen (parts ++ last)

end Uri

end DartSdk
