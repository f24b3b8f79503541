import DartSdk.HttpFieldValues

/-! The requests that a client writes, how they are written, and what a server should see of them.
-/
namespace DartSdk.Http

/-- A header field, with the blanks between its colon and its value. -/
structure Field where
  name : Text
  pad : Text
  value : Text

namespace Field

structure WellFormed (f : Field) : Prop where
  name_ne : f.name ≠ []
  name_token : ∀ c ∈ f.name, isTokenChar c = true
  pad_blank : ∀ c ∈ f.pad, isBlank c = true
  value_line : ∀ c ∈ f.value, c ≠ charCr ∧ c ≠ charLf
  value_trimmed : trimBlanks f.value = f.value

/-- Names are compared without regard to case. -/
def key (f : Field) : Text := toLowerCase f.name

def encode (f : Field) : List ℕ := f.name ++ charColon :: f.pad ++ f.value ++ [charCr,charLf]

end Field

def valuesOf (fields : List Field) (name : Text) : List Text :=
  (fields.filter (·.key = name)).map Field.value

/-- The headers of which the last value counts. -/
def singleValued : List Text :=
  [text "date",text "host",text "expires",text "content-type",text "if-modified-since"]

/-- The number that a field value of digits denotes. -/
def numberOf (value : Text) : ℕ := Numeral.number 10 (value.map (·-0x30))

/-- The content length that field values give, `-1` if there is none. -/
def lengthOf : List Text → ℤ
  | [] => -1
  | value :: _ => numberOf value

/-- The values of a header. The options of a connection are split into elements, a length is a
number, and a single-valued header has its last value. -/
def headerValues (split : Text → List Text) (fields : List Field) (name : Text) : List Text :=
  if name = connectionName then (valuesOf fields name).flatMap split
  else if name ∈ singleValued then (valuesOf fields name).getLast?.toList
  else if name = contentLengthName then (valuesOf fields name).map (IntParse.decimal <| numberOf ·)
  else valuesOf fields name

section Append

variable {fields : List Field} {f : Field} {name : Text} {split : Text → List Text}

lemma valuesOf_append : valuesOf (fields ++ [f]) name =
    valuesOf fields name ++ if f.key = name then [f.value] else [] := by
  by_cases hkey : f.key = name <;> simp [valuesOf,hkey]

lemma valuesOf_same : valuesOf (fields ++ [f]) f.key = valuesOf fields f.key ++ [f.value] := by
  rw [valuesOf_append,if_pos rfl]

lemma valuesOf_other (h : f.key ≠ name) : valuesOf (fields ++ [f]) name = valuesOf fields name := by
  rw [valuesOf_append,if_neg h,List.append_nil]

lemma headerValues_other (h : f.key ≠ name) :
    headerValues split (fields ++ [f]) name = headerValues split fields name := by
  rw [headerValues,headerValues,valuesOf_other h]

end Append

def IsHexDigit (c : ℕ) : Prop :=
  (0x30 ≤ c ∧ c ≤ 0x39) ∨ (0x41 ≤ c ∧ c ≤ 0x46) ∨ (0x61 ≤ c ∧ c ≤ 0x66)

instance (c : ℕ) : Decidable (IsHexDigit c) := by
  unfold IsHexDigit
  infer_instance

def hexDigit (c : ℕ) : ℕ :=
  if c ≤ 0x39 then c-0x30 else if c ≤ 0x46 then c-0x41+10 else c-0x61+10

def hexValue (s : Text) : ℕ := s.foldl (fun n c => n*16+hexDigit c) 0

/-- A chunk of a body; the last chunk has no data. -/
structure Chunk where
  size : Text
  extension : Text
  data : List ℕ

namespace Chunk

structure WellFormed (c : Chunk) : Prop where
  size_ne : c.size ≠ []
  size_hex : ∀ d ∈ c.size, IsHexDigit d
  size_value : hexValue c.size = c.data.length
  extension_start : c.extension = [] ∨ c.extension.head? = some charSemiColon
  extension_line : charCr ∉ c.extension

def encode (c : Chunk) : List ℕ :=
  c.size ++ (c.extension ++ ([charCr,charLf] ++ (c.data ++ [charCr,charLf])))

end Chunk

inductive Body
  | absent
  | length (data : List ℕ)
  | chunked (chunks : List Chunk) (last : Chunk)

namespace Body

def data : Body → List ℕ
  | absent => []
  | length data => data
  | chunked chunks _ => chunks.flatMap Chunk.data

def encode : Body → List ℕ
  | absent => []
  | length data => data
  | chunked chunks last => chunks.flatMap Chunk.encode ++ last.encode

end Body

structure Request where
  method : Text
  uri : Text
  version : HttpVersion
  fields : List Field
  body : Body

namespace Request

variable (r : Request)

def encodings : List Text :=
  (valuesOf r.fields transferEncodingName).flatMap elements

/-- The body is announced by the headers. -/
def Announced : Prop :=
  match r.body with
  | .absent => valuesOf r.fields contentLengthName = [] ∧ valuesOf r.fields transferEncodingName = []
  | .length data => valuesOf r.fields transferEncodingName = [] ∧
      ∃ v, valuesOf r.fields contentLengthName = [v] ∧ IntParse.Denotes v data.length
  | .chunked chunks last => r.version = .http11 ∧ valuesOf r.fields contentLengthName = [] ∧
      r.encodings.getLast?.map toLowerCase = some chunkedText ∧
      (∀ e ∈ r.encodings.dropLast, toLowerCase e ≠ chunkedText) ∧
      (∀ c ∈ chunks, c.WellFormed ∧ c.data ≠ []) ∧ last.WellFormed ∧ last.data = []

structure WellFormed {U : Type} (parseUri : Text → Except Failure U) (r : Request) : Prop where
  method_ne : r.method ≠ []
  method_token : ∀ c ∈ r.method, isTokenChar c = true
  uri_ne : r.uri ≠ []
  uri_line : ∀ c ∈ r.uri, c ≠ charSp ∧ c ≠ charCr ∧ c ≠ charLf
  uri_valid : ∃ uri, parseUri r.uri = .ok uri
  version_known : r.version ≠ .undetermined
  fields_wf : ∀ f ∈ r.fields, f.WellFormed
  no_upgrade : ∀ v ∈ valuesOf r.fields connectionName, ∀ e ∈ elements v,
    toLowerCase e ≠ text "upgrade"
  announced : r.Announced

def versionText : Text :=
  http1DotText ++ [if r.version = .http11 then charOne else charZero]

def encode (r : Request) : List ℕ :=
  r.method ++ (charSp :: (r.uri ++ (charSp :: (r.versionText ++ ([charCr,charLf] ++
    (r.fields.flatMap Field.encode ++ ([charCr,charLf] ++ r.body.encode)))))))

/-- The message is the request. -/
structure Delivers {U : Type} (parseUri : Text → Except Failure U) (r : Request)
    (message : Message U) : Prop where
  method : message.method = r.method
  uri : ∃ uri, parseUri r.uri = .ok uri ∧ message.uri = some uri
  headers : ∀ name, message.headers.values name = headerValues elements r.fields name
  body : message.body = r.body.data

/-- In the lists of connection options no blank follows another character of an element. -/
def OptionsPlain : Prop :=
  ∀ v ∈ valuesOf r.fields connectionName, ∀ s ∈ v.splitOn charComma, BlanksFirst s

/-- The encoding of a chunked body has a field of its own. -/
def ChunkedAlone : Prop :=
  match r.body with
  | .chunked _ _ =>
    (valuesOf r.fields transferEncodingName).getLast?.map toLowerCase = some chunkedText
  | _ => True

end Request

end DartSdk.Http
