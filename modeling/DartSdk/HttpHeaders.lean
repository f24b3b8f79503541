import DartSdk.IntegersParse

/-! Model of `_HttpHeaders` in `sdk/lib/io/http_headers.dart`. Strings are lists of code units. The
map of the headers is a function, and a value that is no `Iterable` is a list of one value. The
fields `_host` and `_port`, only written here, are left out. -/
namespace DartSdk.Http

abbrev Text := List ℕ

def text (s : String) : Text := s.toList.map Char.toNat

inductive Failure
  | httpException (message : String)
  | formatException (message : String)
  | noSuchMethodError
  | stateError
  | typeError
  | outOfFuel

/-- The protocol version, of which the headers ask for these two. -/
inductive Version
  | http10
  | http11
  | other
  deriving DecidableEq

/-- `SEPARATOR_MAP`, for the characters `()<>@,;:\"/[]?={} ` and the tab. -/
def isSeparator (c : ℕ) : Bool :=
  [9,32,34,40,41,44,47,58,59,60,61,62,63,64,91,92,93,123,125].contains c

def isTokenChar (c : ℕ) : Bool := decide (31 < c) && decide (c < 128) && !isSeparator c

def isValueChar (c : ℕ) : Bool := (decide (31 < c) && decide (c < 128)) || c == 32 || c == 9

/-- `toLowerCase` on a string of token characters. -/
def toLowerCase (s : Text) : Text := s.map fun c => if 0x41 ≤ c ∧ c ≤ 0x5A then c+0x20 else c

def validateField (field : Text) : Except Failure Text :=
  if field.all isTokenChar then .ok (toLowerCase field)
  else .error (.formatException "Invalid HTTP header field name")

/-- A header value as callers pass it. The string of a `DateTime` is its HTTP date, and that of
another object is what its `toString` returns. -/
inductive Value
  | string (s : Text)
  | int (n : ℤ)
  | dateTime (formatted : Text)
  | object (printed : Text)
  deriving DecidableEq

def validateText (s : Text) : Except Failure Text :=
  if s.all isValueChar then .ok s else .error (.formatException "Invalid HTTP header field value")

/-- `_validateValue`, which checks strings only. -/
def Value.validate : Value → Except Failure Value
  | string s => do
    let s ← validateText s
    return .string s
  | v => .ok v

/-- The string that `_addValue` stores. -/
def Value.stored : Value → Except Failure Text
  | string s => .ok s
  | dateTime formatted => .ok formatted
  | int n => validateText (IntParse.decimal n)
  | object printed => validateText printed

def contentLengthName : Text := text "content-length"

def transferEncodingName : Text := text "transfer-encoding"

def connectionName : Text := text "connection"

def chunkedText : Text := text "chunked"

structure Headers where
  headers : Text → Option (List Text)
  protocolVersion : Version
  mutable : Bool
  contentLength : ℤ
  persistentConnection : Bool
  chunkedTransferEncoding : Bool

namespace Headers

def new (version : Version) : Headers where
  headers := fun _ => none
  protocolVersion := version
  mutable := true
  contentLength := -1
  persistentConnection := version != .http10
  chunkedTransferEncoding := false

variable (h : Headers) (name : Text)

/-- Store the values of a header; `none` removes it. -/
def put (values : Option (List Text)) : Headers :=
  { h with headers := Function.update h.headers name values }

def values : List Text := (h.headers name).getD []

def checkMutable : Except Failure Unit :=
  if h.mutable then .ok () else .error (.httpException "HTTP headers are not mutable")

/-- `_set`. -/
def setText (name value : Text) : Headers := h.put name (some [value])

def addValue (value : Value) : Except Failure Headers := do
  let stored ← value.stored
  return h.put name (some (h.values name ++ [stored]))

/-- The values of a header after the first one that equals `value` is removed; only strings do. -/
def removed : Option (List Text) → Value → Option (List Text)
  | some values, .string s => if (values.erase s).isEmpty then none else some (values.erase s)
  | some [], _ => none
  | values, _ => values

def removeValue (value : Value) : Except Failure Headers := do
  h.checkMutable
  let h := h.put name (removed (h.headers name) value)
  return if name = transferEncodingName ∧ value = .string chunkedText then
    { h with chunkedTransferEncoding := false } else h

def removeName : Except Failure Headers := do
  h.checkMutable
  return h.put name none

/-- `values == null || values.last != "chunked"`. -/
def lacksChunked : Except Failure Bool :=
  match h.headers transferEncodingName with
  | none => .ok true
  | some values =>
    match values.getLast? with
    | none => .error .stateError
    | some last => .ok (last != chunkedText)

/-- The setters `contentLength=` and `chunkedTransferEncoding=`, which call each other; the first
argument is the depth of the calls. -/
inductive Framing
  | contentLength (n : ℤ)
  | chunkedTransferEncoding (value : Bool)

def setFraming : ℕ → Headers → Framing → Except Failure Headers
  | 0, _, _ => .error .outOfFuel
  | depth+1, h, .contentLength n => do
    h.checkMutable
    if h.protocolVersion = .http10 ∧ h.persistentConnection ∧ n = -1 then
      .error (.httpException ("Trying to clear ContentLength on HTTP 1.0 headers with " ++
        "'Connection: Keep-Alive' set"))
    else if h.contentLength = n then .ok h
    else
      let h := { h with contentLength := n }
      if n ≥ 0 then
        let h ← if h.chunkedTransferEncoding then
          setFraming depth h (.chunkedTransferEncoding false) else .ok h
        return h.setText contentLengthName (IntParse.decimal n)
      else
        let h ← h.removeName contentLengthName
        if h.protocolVersion = .http11 then setFraming depth h (.chunkedTransferEncoding true)
        else .ok h
  | depth+1, h, .chunkedTransferEncoding value => do
    h.checkMutable
    if value ∧ h.protocolVersion = .http10 then
      .error (.httpException "Trying to set 'Transfer-Encoding: Chunked' on HTTP 1.0 headers")
    else if value = h.chunkedTransferEncoding then .ok h
    else
      let h ← if value then do
          let lacks ← h.lacksChunked
          let h ← if lacks then h.addValue transferEncodingName (.string chunkedText) else .ok h
          setFraming depth h (.contentLength (-1))
        else h.removeValue transferEncodingName (.string chunkedText)
      return { h with chunkedTransferEncoding := value }

/-- The calls are nested five deep at most. -/
def setContentLength (h : Headers) (n : ℤ) : Except Failure Headers :=
  setFraming 5 h (.contentLength n)

def setChunkedTransferEncoding (h : Headers) (value : Bool) : Except Failure Headers :=
  setFraming 5 h (.chunkedTransferEncoding value)

def unexpectedType : Failure := .httpException "Unexpected type for header named"

section
variable (h : Headers)
include h

def addContentLength : Value → Except Failure Headers
  | .int n => h.setContentLength n
  | .string s =>
    match IntParse.parse s with
    | some n => h.setContentLength n
    | none => .error (.formatException "Invalid number")
  | _ => .error unexpectedType

def addTransferEncoding (value : Value) : Except Failure Headers :=
  if value = .string chunkedText then h.setChunkedTransferEncoding true
  else h.addValue transferEncodingName value

variable (name : Text)

/-- `_addDate`, `_addExpires` and `_addIfModifiedSince`. -/
def addDate : Value → Except Failure Headers
  | .string s => .ok (h.setText name s)
  | .dateTime formatted => .ok (h.setText name formatted)
  | _ => .error unexpectedType

def addHost : Value → Except Failure Headers
  | .string s => .ok (h.setText (text "host") s)
  | _ => .error unexpectedType

def addConnection (value : Value) : Except Failure Headers :=
  match value with
  | .string s =>
    let h :=
      if toLowerCase s = text "close" then { h with persistentConnection := false }
      else if toLowerCase s = text "keep-alive" then { h with persistentConnection := true }
      else h
    h.addValue connectionName value
  | _ => .error .noSuchMethodError

def addContentType : Value → Except Failure Headers
  | .string s => .ok (h.setText (text "content-type") s)
  | _ => .error .typeError

/-- `_add`, where the name is in lower case. -/
def addField (value : Value) : Except Failure Headers :=
  if name = text "date" then h.addDate name value
  else if name = text "host" then h.addHost value
  else if name = text "expires" then h.addDate name value
  else if name = connectionName then h.addConnection value
  else if name = text "content-type" then h.addContentType value
  else if name = contentLengthName then h.addContentLength value
  else if name = transferEncodingName then h.addTransferEncoding value
  else if name = text "if-modified-since" then h.addDate name value
  else h.addValue name value

variable (values : List Value)

def addAll : Except Failure Headers :=
  values.foldlM (fun h value => do
    let value ← value.validate
    h.addField name value) h

def add : Except Failure Headers := do
  h.checkMutable
  let name ← validateField name
  h.addAll name values

def set : Except Failure Headers := do
  h.checkMutable
  let name ← validateField name
  let h := h.put name none
  let h := if name = transferEncodingName then { h with chunkedTransferEncoding := false } else h
  h.addAll name values

def remove (value : Value) : Except Failure Headers := do
  h.checkMutable
  let name ← validateField name
  let value ← value.validate
  h.removeValue name value

def removeAll : Except Failure Headers := do
  h.checkMutable
  let name ← validateField name
  h.removeName name

def clear : Except Failure Headers := do
  h.checkMutable
  return { h with
    headers := fun _ => none
    contentLength := -1
    persistentConnection := true
    chunkedTransferEncoding := false }

def setPersistentConnection (value : Bool) : Except Failure Headers := do
  h.checkMutable
  if value = h.persistentConnection then .ok h
  else
    let h ←
      if value then
        if h.protocolVersion = .http11 then h.remove connectionName (.string (text "close"))
        else if h.contentLength = -1 then
          .error (.httpException ("Trying to set 'Connection: Keep-Alive' on HTTP 1.0 headers " ++
            "with no ContentLength"))
        else h.add connectionName [.string (text "keep-alive")]
      else if h.protocolVersion = .http11 then h.add connectionName [.string (text "close")]
      else h.remove connectionName (.string (text "keep-alive"))
    return { h with persistentConnection := value }

end

end Headers

/-- The public operations. -/
inductive Operation
  | add (name : Text) (values : List Value)
  | set (name : Text) (values : List Value)
  | remove (name : Text) (value : Value)
  | removeAll (name : Text)
  | clear
  | contentLength (n : ℤ)
  | chunkedTransferEncoding (value : Bool)
  | persistentConnection (value : Bool)

def Headers.step (h : Headers) : Operation → Except Failure Headers
  | .add name values => h.add name values
  | .set name values => h.set name values
  | .remove name value => h.remove name value
  | .removeAll name => h.removeAll name
  | .clear => h.clear
  | .contentLength n => h.setContentLength n
  | .chunkedTransferEncoding value => h.setChunkedTransferEncoding value
  | .persistentConnection value => h.setPersistentConnection value

end DartSdk.Http
