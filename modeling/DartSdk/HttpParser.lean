import DartSdk.HttpHeaders

/-! Model of `_HttpParser` in `sdk/lib/io/http_parser.dart` for a consumer that always listens, so
that parsing is never paused. The messages that were delivered are collected in `done`, and a
message whose body is being received is `current`. `Uri.parse` is a parameter. -/
namespace DartSdk.Http

inductive State
  | start
  | methodOrResponseHttpVersion
  | responseHttpVersion
  | requestLineMethod
  | requestLineUri
  | requestLineHttpVersion
  | requestLineEnding
  | responseLineStatusCode
  | responseLineReasonPhrase
  | responseLineEnding
  | headerStart
  | headerField
  | headerValueStart
  | headerValue
  | headerValueFoldingOrEnding
  | headerValueFoldOrEnd
  | headerEnding
  | chunkSizeStartingCr
  | chunkSizeStartingLf
  | chunkSize
  | chunkSizeExtension
  | chunkSizeEnding
  | chunkedBodyDoneCr
  | chunkedBodyDoneLf
  | body
  | closed
  | upgraded
  | failure
  deriving DecidableEq

inductive HttpVersion
  | undetermined
  | http10
  | http11
  deriving DecidableEq

/-- The constants of `_MessageType`, of which two are equal. -/
abbrev messageUndetermined : ℕ := 0

abbrev messageRequest : ℕ := 1

abbrev messageResponse : ℕ := 0

abbrev charHt : ℕ := 9

abbrev charLf : ℕ := 10

abbrev charCr : ℕ := 13

abbrev charSp : ℕ := 32

abbrev charComma : ℕ := 44

abbrev charSlash : ℕ := 47

abbrev charZero : ℕ := 48

abbrev charOne : ℕ := 49

abbrev charColon : ℕ := 58

abbrev charSemiColon : ℕ := 59

/-- `_Const.HTTP`. -/
def httpText : Text := [72,84,84,80]

/-- `_Const.HTTP1DOT`. -/
def http1DotText : Text := [72,84,84,80,47,49,46]

/-- `_Const.HTTP11`. -/
def http11Text : Text := [72,84,84,80,47,49,46,49]

/-- A message as the consumer sees it. A request has a method and a URI, a response a status code
and a reason phrase. -/
structure Message (U : Type) where
  method : Text
  uri : Option U
  statusCode : ℤ
  reasonPhrase : Text
  headers : Headers
  transferLength : ℤ
  upgraded : Bool
  body : List ℕ

structure Parser (U : Type) where
  requestParser : Bool
  state : State
  httpVersionIndex : ℕ
  messageType : ℕ
  statusCode : ℤ
  statusCodeLength : ℕ
  method : Text
  uriOrReasonPhrase : Text
  headerField : Text
  headerValue : Text
  httpVersion : HttpVersion
  transferLength : ℤ
  connectionUpgrade : Bool
  chunked : Bool
  noMessageBody : Bool
  remainingContent : ℤ
  headers : Option Headers
  current : Option (Message U)
  done : List (Message U)
  error : Option Failure

def toLowerCaseByte (x : ℕ) : ℕ := if ((x : ℤ)-0x41)%128 < 26 then x ||| 0x20 else x

/-- `_caseInsensitiveCompare`, where `expected` is in lower case. -/
def caseInsensitiveCompare (expected value : Text) : Bool := expected == value.map toLowerCaseByte

def isBlank (c : ℕ) : Bool := c == charSp || c == charHt

/-- The loop of `_tokenizeFieldValue`, at the end of the part `element` of a list element that has
`blanks` blanks in it. -/
def tokenizeFrom (element : Text) (blanks : ℕ) : Text → List Text
  | [] => [element.drop blanks]
  | c :: rest =>
    if c = charComma then element.drop blanks :: tokenizeFrom [] 0 rest
    else tokenizeFrom (element ++ [c]) (if isBlank c then blanks+1 else blanks) rest

def tokenizeFieldValue (headerValue : Text) : List Text := tokenizeFrom [] 0 headerValue

def expect (val1 val2 : ℕ) : Except Failure Unit :=
  if val1 = val2 then .ok () else .error (.httpException "Failed to parse HTTP")

def expectHexDigit (byte : ℕ) : Except Failure ℕ :=
  if 0x30 ≤ byte ∧ byte ≤ 0x39 then .ok (byte-0x30)
  else if 0x41 ≤ byte ∧ byte ≤ 0x46 then .ok (byte-0x41+10)
  else if 0x61 ≤ byte ∧ byte ≤ 0x66 then .ok (byte-0x61+10)
  else .error (.httpException "Failed to parse HTTP")

namespace Parser

variable {U : Type}

def new (requestParser : Bool) : Parser U where
  requestParser
  state := .start
  httpVersionIndex := 0
  messageType := messageUndetermined
  statusCode := 0
  statusCodeLength := 0
  method := []
  uriOrReasonPhrase := []
  headerField := []
  headerValue := []
  httpVersion := .undetermined
  transferLength := -1
  connectionUpgrade := false
  chunked := false
  noMessageBody := false
  remainingContent := -1
  headers := none
  current := none
  done := []
  error := none

variable (p : Parser U)

def reset : Parser U :=
  if p.state = .upgraded then p
  else { p with
    state := .start
    messageType := messageUndetermined
    headerField := []
    headerValue := []
    method := []
    uriOrReasonPhrase := []
    statusCode := 0
    statusCodeLength := 0
    httpVersion := .undetermined
    transferLength := -1
    connectionUpgrade := false
    chunked := false
    noMessageBody := false
    remainingContent := -1
    headers := none }

def version : Version :=
  match p.httpVersion with
  | .http10 => .http10
  | .http11 => .http11
  | .undetermined => .other

/-- `isHead=`. -/
def setIsHead (value : Bool) : Parser U :=
  if value then { p with noMessageBody := true } else p

/-- `_closeIncoming` at the end of a body. -/
def closeIncoming : Parser U :=
  match p.current with
  | some message => { p with current := none, done := p.done ++ [message] }
  | none => p

variable (parseUri : Text → Except Failure U)

section
variable (p : Parser U)

/-- The length of the body as `_headersEnd` determines it, `-1` if it is not known. -/
def bodyLength (contentLength : ℤ) : ℤ :=
  let length := if p.chunked then -1 else contentLength
  let length :=
    if p.messageType = messageRequest ∧ length < 0 ∧ p.chunked = false then 0 else length
  if p.connectionUpgrade then 0 else length

/-- The message that `_headersEnd` creates. -/
def createIncoming (headers : Headers) (transferLength : ℤ) : Except Failure (Message U) :=
  if p.requestParser then do
    let uri ← parseUri p.uriOrReasonPhrase
    return {
      method := p.method, uri := some uri, statusCode := 0, reasonPhrase := [], headers,
      transferLength, upgraded := p.connectionUpgrade, body := [] }
  else
    .ok {
      method := [], uri := none, statusCode := p.statusCode, reasonPhrase := p.uriOrReasonPhrase,
      headers, transferLength, upgraded := p.connectionUpgrade, body := [] }

def headersEnd : Except Failure (Parser U) :=
  match p.headers with
  | none => .error .noSuchMethodError
  | some headers => do
    let headers := { headers with mutable := false }
    let transferLength := p.bodyLength headers.contentLength
    let message ← p.createIncoming parseUri headers transferLength
    let p : Parser U := { p with
      headers := some headers, transferLength, method := [], uriOrReasonPhrase := [] }
    if p.connectionUpgrade then return { p with state := .upgraded, done := p.done ++ [message] }
    else if transferLength = 0 ∨ (p.messageType = messageResponse ∧ p.noMessageBody) then
      let p := p.reset
      return { p with done := p.done ++ [message] }
    else if p.chunked then
      return { p with state := .chunkSize, remainingContent := 0, current := some message }
    else if transferLength > 0 then
      return { p with state := .body, remainingContent := transferLength, current := some message }
    else return { p with state := .body, current := some message }

def fieldTokens : List Text :=
  if p.headerField = text "connection" then tokenizeFieldValue p.headerValue else [p.headerValue]

/-- The header field that was read is added to the headers. -/
def addHeader : Except Failure (Parser U) :=
  match p.headers with
  | none => .error .noSuchMethodError
  | some headers => do
    let headers ← p.fieldTokens.foldlM (fun h token => h.addField p.headerField (.string token))
      headers
    return { p with
      headers := some headers
      chunked := p.chunked || (p.headerField == text "transfer-encoding" &&
        caseInsensitiveCompare (text "chunked") p.headerValue)
      connectionUpgrade := p.connectionUpgrade || (p.headerField == text "connection" &&
        p.fieldTokens.any (caseInsensitiveCompare (text "upgrade")))
      headerField := []
      headerValue := [] }

def headerEnding (byte : ℕ) : Except Failure (Parser U) := do
  expect byte charLf
  p.headersEnd parseUri

/-- The start of a header field or the end of the headers, where a line feed is seen again. -/
def headerOrEnd (byte : ℕ) : Except Failure (Parser U) :=
  if byte = charCr then .ok { p with state := .headerEnding }
  else if byte = charLf then { p with state := .headerEnding }.headerEnding parseUri byte
  else .ok { p with
    headerField := p.headerField ++ [toLowerCaseByte byte], state := .headerField }

/-- The cases of the state machine for one byte, apart from the body. -/
def parseByte (byte : ℕ) : Except Failure (Parser U) :=
  match p.state with
  | .start =>
    if byte = 72 then
      .ok { p with httpVersionIndex := 1, state := .methodOrResponseHttpVersion }
    else if !isTokenChar byte then .error (.httpException "Invalid request method")
    else if !p.requestParser then .error (.httpException "Invalid response line")
    else .ok { p with method := p.method ++ [byte], state := .requestLineMethod }
  | .methodOrResponseHttpVersion =>
    if p.httpVersionIndex < httpText.length ∧ httpText[p.httpVersionIndex]? = some byte then
      .ok { p with httpVersionIndex := p.httpVersionIndex+1 }
    else if p.httpVersionIndex = httpText.length ∧ byte = charSlash then
      if p.requestParser then .error (.httpException "Invalid request line")
      else
        .ok { p with httpVersionIndex := p.httpVersionIndex+1, state := .responseHttpVersion }
    else
      let p := { p with method := p.method ++ httpText.take p.httpVersionIndex }
      if byte = charSp then .ok { p with state := .requestLineUri }
      else if !p.requestParser then .error (.httpException "Invalid response line")
      else .ok { p with
        method := p.method ++ [byte], httpVersion := .undetermined, state := .requestLineMethod }
  | .responseHttpVersion =>
    if p.httpVersionIndex < http1DotText.length then do
      expect byte (http1DotText.getD p.httpVersionIndex 0)
      return { p with httpVersionIndex := p.httpVersionIndex+1 }
    else if p.httpVersionIndex = http1DotText.length ∧ byte = charOne then
      .ok { p with httpVersion := .http11, httpVersionIndex := p.httpVersionIndex+1 }
    else if p.httpVersionIndex = http1DotText.length ∧ byte = charZero then
      .ok { p with httpVersion := .http10, httpVersionIndex := p.httpVersionIndex+1 }
    else if p.httpVersionIndex = http1DotText.length+1 then do
      expect byte charSp
      return { p with state := .responseLineStatusCode }
    else .error (.httpException "Invalid response line")
  | .requestLineMethod =>
    if byte = charSp then .ok { p with state := .requestLineUri }
    else if isSeparator byte ∨ byte = charCr ∨ byte = charLf then
      .error (.httpException "Invalid request method")
    else .ok { p with method := p.method ++ [byte] }
  | .requestLineUri =>
    if byte = charSp then
      if p.uriOrReasonPhrase.isEmpty then .error (.httpException "Invalid request URI")
      else .ok { p with state := .requestLineHttpVersion, httpVersionIndex := 0 }
    else if byte = charCr ∨ byte = charLf then .error (.httpException "Invalid request URI")
    else .ok { p with uriOrReasonPhrase := p.uriOrReasonPhrase ++ [byte] }
  | .requestLineHttpVersion =>
    if p.httpVersionIndex < http1DotText.length then do
      expect byte (http11Text.getD p.httpVersionIndex 0)
      return { p with httpVersionIndex := p.httpVersionIndex+1 }
    else if p.httpVersionIndex = http1DotText.length then
      if byte = charOne then
        .ok { p with httpVersion := .http11, httpVersionIndex := p.httpVersionIndex+1 }
      else if byte = charZero then
        .ok { p with httpVersion := .http10, httpVersionIndex := p.httpVersionIndex+1 }
      else .error (.httpException "Invalid response line")
    else if byte = charCr then .ok { p with state := .requestLineEnding }
    else do
      expect byte charLf
      return { p with messageType := messageRequest, state := .headerStart }
  | .requestLineEnding => do
    expect byte charLf
    return { p with messageType := messageRequest, state := .headerStart }
  | .responseLineStatusCode =>
    if byte = charSp then .ok { p with state := .responseLineReasonPhrase }
    else if byte = charCr then .ok { p with state := .responseLineEnding }
    else if (byte < 0x30 ∧ 0x39 < byte) ∨ p.statusCodeLength+1 > 3 then
      .error (.httpException "Invalid response status code")
    else .ok { p with
      statusCodeLength := p.statusCodeLength+1
      statusCode := p.statusCode*10+byte-0x30 }
  | .responseLineReasonPhrase =>
    if byte = charCr then .ok { p with state := .responseLineEnding }
    else if byte = charCr ∨ byte = charLf then
      .error (.httpException "Invalid response reason phrase")
    else .ok { p with uriOrReasonPhrase := p.uriOrReasonPhrase ++ [byte] }
  | .responseLineEnding => do
    -- The message type is compared here instead of assigned.
    expect byte charLf
    if p.statusCode < 100 ∨ p.statusCode > 599 then
      .error (.httpException "Invalid response status code")
    else if p.statusCode ≤ 199 ∨ p.statusCode = 204 ∨ p.statusCode = 304 then
      .ok { p with noMessageBody := true, state := .headerStart }
    else .ok { p with state := .headerStart }
  | .headerStart => { p with headers := some (Headers.new p.version) }.headerOrEnd parseUri byte
  | .headerField =>
    if byte = charColon then .ok { p with state := .headerValueStart }
    else if !isTokenChar byte then .error (.httpException "Invalid header field name")
    else .ok { p with headerField := p.headerField ++ [toLowerCaseByte byte] }
  | .headerValueStart =>
    if byte = charCr then .ok { p with state := .headerValueFoldingOrEnding }
    else if byte = charLf then .ok { p with state := .headerValueFoldOrEnd }
    else if byte ≠ charSp ∧ byte ≠ charHt then
      .ok { p with headerValue := p.headerValue ++ [byte], state := .headerValue }
    else .ok p
  | .headerValue =>
    if byte = charCr then .ok { p with state := .headerValueFoldingOrEnding }
    else if byte = charLf then .ok { p with state := .headerValueFoldOrEnd }
    else .ok { p with headerValue := p.headerValue ++ [byte] }
  | .headerValueFoldingOrEnding => do
    expect byte charLf
    return { p with state := .headerValueFoldOrEnd }
  | .headerValueFoldOrEnd =>
    if byte = charSp ∨ byte = charHt then .ok { p with state := .headerValueStart }
    else do
      let p ← p.addHeader
      p.headerOrEnd parseUri byte
  | .headerEnding => p.headerEnding parseUri byte
  | .chunkSizeStartingCr => do
    expect byte charCr
    return { p with state := .chunkSizeStartingLf }
  | .chunkSizeStartingLf => do
    expect byte charLf
    return { p with state := .chunkSize }
  | .chunkSize =>
    if byte = charCr then .ok { p with state := .chunkSizeEnding }
    else if byte = charSemiColon then .ok { p with state := .chunkSizeExtension }
    else do
      let value ← expectHexDigit byte
      return { p with remainingContent := p.remainingContent*16+value }
  | .chunkSizeExtension =>
    if byte = charCr then .ok { p with state := .chunkSizeEnding } else .ok p
  | .chunkSizeEnding => do
    expect byte charLf
    return { p with state := if p.remainingContent > 0 then .body else .chunkedBodyDoneCr }
  | .chunkedBodyDoneCr => do
    expect byte charCr
    return { p with state := .chunkedBodyDoneLf }
  | .chunkedBodyDoneLf => do
    expect byte charLf
    return p.reset.closeIncoming
  | .body | .closed | .upgraded | .failure => .ok p

/-- The body is handled in blocks. The result has the rest of the buffer. -/
def parseBody (buffer : List ℕ) : Parser U × List ℕ :=
  let data :=
    if p.remainingContent ≥ 0 ∧ (buffer.length : ℤ) > p.remainingContent then
      buffer.take p.remainingContent.toNat
    else buffer
  let p : Parser U := { p with
    current := p.current.map fun message => { message with body := message.body ++ data } }
  let p : Parser U :=
    if p.remainingContent ≠ -1 then
      { p with remainingContent := p.remainingContent-data.length }
    else p
  let p : Parser U :=
    if p.remainingContent = 0 then
      if !p.chunked then p.reset.closeIncoming else { p with state := .chunkSizeStartingCr }
    else p
  (p,buffer.drop data.length)

/-- What `_parse` does with an exception. -/
def fail (failure : Failure) : Parser U :=
  { p with state := .failure, error := some failure }

end

/-- The loop of `_doParse`, of at most as many rounds as the first argument says. -/
def parseLoop : ℕ → Parser U → List ℕ → Parser U
  | 0, p, _ => p.fail .outOfFuel
  | _+1, p, [] => p
  | fuel+1, p, byte :: rest =>
    if p.state = .failure ∨ p.state = .upgraded then p
    else if p.state = .body then
      let (p,rest) := p.parseBody (byte :: rest)
      parseLoop fuel p rest
    else
      match p.parseByte parseUri byte with
      | .ok p => parseLoop fuel p rest
      | .error failure => p.fail failure

/-- `_onData`. After a failure the subscription is cancelled, and after an upgrade it is not
resumed. -/
def onData (p : Parser U) (buffer : List ℕ) : Parser U :=
  if p.state = .closed ∨ p.state = .failure ∨ p.state = .upgraded then p
  else parseLoop parseUri (buffer.length+1) p buffer

/-- What is left of a buffer when the loop ends with an upgrade, nothing if it does not. -/
def unparsedLoop : ℕ → Parser U → List ℕ → List ℕ
  | fuel+1, p, byte :: rest =>
    if p.state = .upgraded then byte :: rest
    else if p.state = .body then
      let (p,rest) := p.parseBody (byte :: rest)
      unparsedLoop fuel p rest
    else
      match p.parseByte parseUri byte with
      | .ok p => unparsedLoop fuel p rest
      | .error _ => []
  | _, _, _ => []

/-- What a detached stream delivers: the data of `readUnparsedData` and then the later buffers. -/
def unparsedData : Parser U → List (List ℕ) → List ℕ
  | _, [] => []
  | p, buffer :: buffers =>
    unparsedLoop parseUri (buffer.length+1) p buffer ++ unparsedData (p.onData parseUri buffer) buffers

end Parser

end DartSdk.Http
