import DartSdk.UriNormalize

/-! Model of `Uri.parse` in `sdk/lib/core/uri.dart`. The text that is still to be read stands for
the index into the string. The path starts after the scheme or after the authority and reaches to
the first question mark or number sign, in each state of the parser. -/
namespace DartSdk.Uri

def isAlphabeticCharacter (codeUnit : ℕ) : Bool := isLower codeUnit || isUpper codeUnit

def makeScheme (scheme : Text) : Except Failure Text :=
  match scheme with
  | [] => .ok []
  | firstCodeUnit :: _ =>
    if !isAlphabeticCharacter firstCodeUnit then
      .error (.formatException "Scheme not starting with alphabetic character")
    else if !scheme.all isSchemeCharacter then .error (.formatException "Illegal scheme character")
    else
      let allLowercase := decide (0x61 ≤ firstCodeUnit) && scheme.all isLower
      .ok (if allLowercase then scheme else toLowerCase scheme)

def makeUserInfo (userInfo : Text) : Except Failure Text := normalize userInfo userinfoTable

/-- Check and normalize a host in a text of some length. -/
def makeHost (length : ℕ) (host : Text) (strictIPv6 : Bool) : Except Failure Text :=
  if host.isEmpty then .ok []
  else if host.head? = some charLeftBracket then
    if host.getLast? ≠ some charRightBracket then
      .error (.formatException "Missing end `]` to match `[` in host")
    else do
      let _ ← parseIPv6Address length (host.drop 1).dropLast
      return toLowerCase host
  else if !strictIPv6 && host.contains charColon then do
    let _ ← parseIPv6Address length host
    return charLeftBracket :: host ++ [charRightBracket]
  else normalizeRegName host

def makePath (path : Text) (ensureLeadingSlash isFile : Bool) : Except Failure Text := do
  let result ← normalize path pathCharOrSlashTable
  if result.isEmpty then return if isFile then [charSlash] else result
  else if (isFile || ensureLeadingSlash) && result.head? != some charSlash then
    return charSlash :: result
  else return result

def makeQueryText (query : Text) : Except Failure Text := normalize query queryCharTable

def makeFragment (fragment : Text) : Except Failure Text := normalize fragment queryCharTable

def isPathEnd (char : ℕ) : Bool := char == charQuestion || char == charNumberSign

def isAuthorityEnd (char : ℕ) : Bool := char == charSlash || isPathEnd char

/-- The loop of `parseAuth`: the index of its end, of the last colon and of the last at sign. What is
between brackets is skipped, and a bracket that is not closed takes everything. -/
def scanAuth : Text → ℕ → Bool → Option ℕ → Option ℕ → ℕ × Option ℕ × Option ℕ
  | [], index, _, lastColon, lastAt => (index,lastColon,lastAt)
  | char :: rest, index, true, lastColon, lastAt =>
    scanAuth rest (index+1) (char != charRightBracket) lastColon lastAt
  | char :: rest, index, false, lastColon, lastAt =>
    if isAuthorityEnd char then (index,lastColon,lastAt)
    else if char = charAtSign then scanAuth rest (index+1) false none (some index)
    else if char = charColon then scanAuth rest (index+1) false (some index) lastAt
    else if char = charLeftBracket then
      if rest.contains charRightBracket then scanAuth rest (index+1) true none lastAt
      else (index+1+rest.length,none,lastAt)
    else scanAuth rest (index+1) false lastColon lastAt

/-- One round of the loop over the digits of a port. -/
def portDigit (portNumber : ℤ) (digit : ℕ) : Except Failure ℤ :=
  if 0x30 > digit ∨ 0x39 < digit then .error (.formatException "Invalid port number")
  else .ok (portNumber*10+(digit-0x30))

def parsePort (digits : Text) : Except Failure (Option ℤ) :=
  if digits.isEmpty then .ok none
  else do
    let portNumber ← digits.foldlM portDigit 0
    return some portNumber

structure Auth where
  userInfo : Text
  host : Option Text
  port : Option ℤ
  rest : Text

/-- The text before the last at sign. -/
def authUserInfo (text : Text) : Option ℕ → Except Failure Text
  | none => .ok []
  | some lastAt => makeUserInfo (text.take lastAt)

def hostStart : Option ℕ → ℕ
  | none => 0
  | some lastAt => lastAt+1

/-- The text between the last colon and the end. -/
def authPort (scheme text : Text) (index : ℕ) : Option ℕ → Except Failure (Option ℤ)
  | none => .ok none
  | some lastColon => do
    let portNumber ← parsePort ((text.take index).drop (lastColon+1))
    return makePort portNumber scheme

/-- The function `parseAuth` on the text after two slashes. -/
def parseAuth (length : ℕ) (scheme text : Text) : Except Failure Auth :=
  if text.isEmpty then .ok ⟨[],none,none,[]⟩
  else do
    let (index,lastColon,lastAt) := scanAuth text 0 false none none
    let userInfo ← authUserInfo text lastAt
    let port ← authPort scheme text index lastColon
    let host ← makeHost length ((text.take (lastColon.getD index)).drop (hostStart lastAt)) true
    return ⟨userInfo,some host,port,text.drop index⟩

def parseTail (text : Text) : Except Failure (Option Text × Option Text) :=
  match text with
  | [] => .ok (none,none)
  | char :: rest =>
    if char = charQuestion then
      match rest.span (· != charNumberSign) with
      | (query,[]) => do
        let query ← makeQueryText query
        return (some query,none)
      | (query,_ :: fragment) => do
        let query ← makeQueryText query
        let fragment ← makeFragment fragment
        return (some query,some fragment)
    else do
      let fragment ← makeFragment rest
      return (none,some fragment)

def parseSlashes (length : ℕ) (scheme text : Text) : Except Failure Auth :=
  match text with
  | first :: second :: rest =>
    if first = charSlash ∧ second = charSlash then parseAuth length scheme rest
    else .ok ⟨[],none,none,text⟩
  | _ => .ok ⟨[],none,none,text⟩

def parseAfterScheme (length : ℕ) (scheme text : Text) : Except Failure Uri := do
  let auth ← parseSlashes length scheme text
  let path ← makePath (auth.rest.takeWhile fun c => !isPathEnd c) auth.host.isSome (scheme == file)
  let (query,fragment) ← parseTail (auth.rest.dropWhile fun c => !isPathEnd c)
  return ⟨scheme,auth.userInfo,auth.host,auth.port,path,query,fragment⟩

def parse (uri : Text) : Except Failure Uri :=
  match uri.span fun c => !(isAuthorityEnd c || c == charColon) with
  | (before,char :: rest) =>
    if char = charColon then
      if before.isEmpty then .error (.formatException "Invalid empty scheme")
      else do
        let scheme ← makeScheme before
        parseAfterScheme uri.length scheme rest
    else parseAfterScheme uri.length [] uri
  | (_,[]) => parseAfterScheme uri.length [] uri

end DartSdk.Uri
