import DartSdk.UriValue

/-! Model of `resolveUri` in `sdk/lib/core/uri.dart` and of its functions on paths. -/
namespace DartSdk.Uri

/-- The number of `../` at the start of a reference. -/
def backCount : Text → ℕ
  | c :: d :: e :: rest =>
    if c = charDot ∧ d = charDot ∧ e = charSlash then backCount rest+1 else 0
  | _ => 0

/-- `base.lastIndexOf('/', start)`. -/
def lastSlash (base : Text) : ℕ → Option ℕ
  | 0 => if base[0]? = some charSlash then some 0 else none
  | start+1 => if base[start+1]? = some charSlash then some (start+1) else lastSlash base start

/-- Whether the segment between two slashes is `.` or `..`. -/
def isDotSegment (base : Text) (newEnd baseEnd : ℕ) : Bool :=
  let delta := baseEnd-newEnd
  (delta == 2 || delta == 3) && base[newEnd+1]? == some charDot &&
    (delta == 2 || base[newEnd+2]? == some charDot)

/-- The loop of `_merge` that drops a segment of the base for each leading `../`: the end of the base
and the number of `../` that are left. -/
def dropBack (base : Text) : ℕ → ℕ → ℕ × ℕ
  | 0, baseEnd => (baseEnd,0)
  | backCount+1, baseEnd =>
    if baseEnd = 0 then (baseEnd,backCount+1)
    else
      match lastSlash base (baseEnd-1) with
      | none => (baseEnd,backCount+1)
      | some newEnd =>
        if isDotSegment base newEnd baseEnd then (baseEnd,backCount+1)
        else dropBack base backCount newEnd

def merge (base reference : Text) : Text :=
  if base.isEmpty then charSlash :: reference
  else
    match lastSlash base base.length with
    | none => reference
    | some baseEnd =>
      let back := dropBack base (backCount reference) baseEnd
      base.take (back.1+1) ++ reference.drop (3*backCount reference-3*back.2)

/-- `path.indexOf("/.") != -1`. -/
def containsSlashDot : Text → Bool
  | c :: d :: rest => (c == charSlash && d == charDot) || containsSlashDot (d :: rest)
  | _ => false

def hasDotSegments (path : Text) : Bool :=
  path.head? == some charDot || containsSlashDot path

/-- One round of the loop of `_removeDotSegments`. -/
def visitSegment (state : List Text × Bool) (segment : Text) : List Text × Bool :=
  let output := state.1
  if segment = [charDot,charDot] then
    (if output ≠ [] ∧ (output.length ≠ 1 ∨ output[0]? ≠ some []) then output.dropLast else output,true)
  else if segment = [charDot] then (output,true)
  else (output ++ [segment],false)

def removeDotSegments (path : Text) : Text :=
  if !hasDotSegments path then path
  else
    let state := (path.splitOn charSlash).foldl visitSegment ([],false)
    let output := if state.2 then state.1 ++ [[]] else state.1
    [charSlash].intercalate output

def resolveUri (u reference : Uri) : Uri :=
  let fragment := if reference.hasFragment then some reference.fragment else none
  if reference.scheme ≠ [] then
    { scheme := reference.scheme
      userInfo := if reference.hasAuthority then reference.userInfo else []
      _host := if reference.hasAuthority then some reference.host else none
      _port :=
        if reference.hasAuthority then (if reference.hasPort then some reference.port else none)
        else none
      path := removeDotSegments reference.path
      _query := if reference.hasQuery then some reference.query else none
      _fragment := fragment }
  else if reference.hasAuthority then
    { scheme := u.scheme
      userInfo := reference.userInfo
      _host := some reference.host
      _port := makePort (if reference.hasPort then some reference.port else none) u.scheme
      path := removeDotSegments reference.path
      _query := if reference.hasQuery then some reference.query else none
      _fragment := fragment }
  else if reference.path = [] then
    { scheme := u.scheme
      userInfo := u.userInfo
      _host := u._host
      _port := u._port
      path := u.path
      _query := if reference.hasQuery then some reference.query else u._query
      _fragment := fragment }
  else
    { scheme := u.scheme
      userInfo := u.userInfo
      _host := u._host
      _port := u._port
      path :=
        if reference.path.head? = some charSlash then removeDotSegments reference.path
        else removeDotSegments (merge u.path reference.path)
      _query := if reference.hasQuery then some reference.query else none
      _fragment := fragment }

end DartSdk.Uri
