import DartSdk.Iteration
import DartSdk.PlatformUtils

/-! Model of `_HashBase`, `_CompactLinkedHashMap`, `_CompactLinkedHashSet` and `_CompactIterator` in
`runtime/lib/compact_hash.dart`. `Kind` holds the places in which the map and the set differ. An
access outside a list, a probe loop that goes round the index and a concurrent modification are
`none`. -/
namespace DartSdk.CompactHash
open Utils (Arch)

variable {K V : Type}

def kInitialIndexBits : ℕ := 3

def kInitialIndexSize : ℕ := 1 <<< (kInitialIndexBits+1)

def kUnusedPair : ℕ := 0

def kDeletedPair : ℕ := 1

def initialHashMask : Arch → ℕ
  | .bits64 => 1 <<< (32-kInitialIndexBits)-1
  | .bits32 => 1 <<< (30-kInitialIndexBits)-1

/-- `x & mask` for a mask of the form `2 ^ k - 1`. -/
def maskBits (x : ℤ) (mask : ℕ) : ℕ := (x%(mask+1 : ℤ)).toNat

def hashPattern (fullHash : ℤ) (hashMask size : ℕ) : ℕ :=
  let maskedHash := maskBits fullHash hashMask
  if maskedHash = 0 then size >>> 1 else maskedHash*(size >>> 1)

def firstProbe (fullHash : ℤ) (sizeMask : ℕ) : ℕ :=
  let i := maskBits fullHash sizeMask
  (i <<< 1+i) &&& sizeMask

def nextProbe (i sizeMask : ℕ) : ℕ := (i+1) &&& sizeMask

/-- An element of `_data`. A deleted key or value is marked by the list itself. -/
inductive Cell (K V : Type)
  | null
  | deleted
  | key (k : K)
  | value (v : V)

/-- The fields of `_HashBase`; `dataId` tells the lists apart that `_data` has been. -/
structure Table (K V : Type) where
  index : List ℕ
  hashMask : ℕ
  dataId : ℕ
  data : List (Cell K V)
  usedData : ℕ
  deletedKeys : ℕ

def Table.checkSum (t : Table K V) : ℕ := t.usedData+t.deletedKeys

def Table.isModifiedSince (t : Table K V) (oldData oldCheckSum : ℕ) : Bool :=
  t.dataId != oldData || t.checkSum != oldCheckSum

/-- A map keeps a key and its value at an even and the next odd place of `_data`, a set the
key only. -/
inductive Kind : Type → Type 1
  | map {V : Type} : Kind V
  | set : Kind Unit

namespace Kind

/-- The entry `n` starts at `n << shift`. -/
def shift : Kind V → ℕ
  | map => 1
  | set => 0

def step : Kind V → ℕ
  | map => 2
  | set => 1

def dataLength (size : ℕ) : Kind V → ℕ
  | map => size
  | set => size >>> 1

def deletedShift : Kind V → ℕ
  | map => 2
  | set => 1

end Kind

/-- An assignment to an element of a fixed-length list. -/
def assign {α : Type} (l : List α) (i : ℕ) (a : α) : Option (List α) :=
  if i < l.length then some (l.set i a) else none

def keyAt (data : List (Cell K V)) (d : ℕ) : Option K :=
  match data[d]? with
  | some (.key k) => some k
  | _ => none

def valueAt (data : List (Cell K V)) (d : ℕ) : Option V :=
  match data[d]? with
  | some (.value v) => some v
  | _ => none

/-- The value stored with the key at `d`. -/
def storedValue (data : List (Cell K V)) (d : ℕ) : Kind V → Option V
  | .map => valueAt data (d+1)
  | .set => some ()

/-- What the map's `[]=` and the set's `add` do with a present key. -/
def overwrite (t : Table K V) (entry : ℕ) (value : V) : Kind V → Option (Table K V)
  | .map => do
    let data ← assign t.data (entry <<< 1+1) (.value value)
    return { t with data := data }
  | .set => some t

/-- Mark the key, and in a map its value, as deleted. -/
def setDeleted (data : List (Cell K V)) (d : ℕ) : Kind V → Option (List (Cell K V))
  | .map => do
    let data ← assign data d .deleted
    assign data (d+1) .deleted
  | .set => assign data d .deleted

/-- Write a new entry behind the used part of `_data`. -/
def appendCells (data : List (Cell K V)) (usedData : ℕ) (key : K) (value : V) :
    Kind V → Option (List (Cell K V))
  | .map => do
    let data ← assign data usedData (.key key)
    assign data (usedData+1) (.value value)
  | .set => assign data usedData (.key key)

/-- The insertion of a new key while `_data` has room. -/
def append (kind : Kind V) (t : Table K V) (key : K) (value : V) (pattern i : ℕ) :
    Option (Table K V) := do
  let index ← assign t.index i ((pattern ||| t.usedData >>> kind.shift)%2^32)
  let data ← appendCells t.data t.usedData key value kind
  return { t with index := index, data := data, usedData := t.usedData+kind.step }

/-- What a probe loop ends with: the slot and entry of the key, or the insertion point. -/
inductive Probe
  | found (i entry : ℕ)
  | absent (i : ℕ)

section Operations
variable (equals : K → K → Bool) (hashCode : K → ℤ) (kind : Kind V)

/-- The probe loops. Those of `remove`, `_getValueOrData` and `_getKeyOrData` do not keep the
first deleted slot, which only an insertion uses. -/
def probe (t : Table K V) (key : K) (pattern : ℕ) : ℕ → ℕ → Option ℕ → Option Probe
  | 0, _, _ => none
  | fuel+1, i, firstDeleted =>
    let next := nextProbe i (t.index.length-1)
    match t.index[i]? with
    | none => none
    | some pair =>
      if pair = kUnusedPair then some (.absent (firstDeleted.getD i))
      else if pair = kDeletedPair then
        probe t key pattern fuel next (some (firstDeleted.getD i))
      else
        let entry := pattern ^^^ pair
        if entry < t.index.length >>> 1 then
          match keyAt t.data (entry <<< kind.shift) with
          | none => none
          | some k =>
            if equals key k then some (.found i entry) else probe t key pattern fuel next firstDeleted
        else probe t key pattern fuel next firstDeleted

def Table.pattern (t : Table K V) (key : K) : ℕ :=
  hashPattern (hashCode key) t.hashMask t.index.length

/-- `_findValueOrInsertPoint`, and the search at the start of the other operations. -/
def find (t : Table K V) (key : K) : Option Probe :=
  probe equals kind t key (t.pattern hashCode key) t.index.length
    (firstProbe (hashCode key) (t.index.length-1)) none

/-- The new `_index` and `_data` of `_init`. -/
def fresh (size hashMask dataId : ℕ) : Table K V where
  index := List.replicate size kUnusedPair
  hashMask := hashMask
  dataId := dataId
  data := List.replicate (kind.dataLength size) .null
  usedData := 0
  deletedKeys := 0

def create (a : Arch) : Table K V := fresh kind kInitialIndexSize (initialHashMask a) 0

section
variable (put : Table K V → K → V → Option (Table K V × Bool))

/-- The body of the copying loop of `_init`. -/
def copyEntry (oldData : List (Cell K V)) (t : Table K V) (i : ℕ) : Option (Table K V) :=
  match oldData[i]? with
  | some .deleted => some t
  | some (.key k) => do
    let v ← storedValue oldData i kind
    let (t,_) ← put t k v
    return t
  | _ => none

/-- `_init` with old contents. -/
def init (t : Table K V) (size hashMask : ℕ) : Option (Table K V) :=
  (List.range ((t.usedData+(kind.step-1))/kind.step)).foldlM
    (fun s n => copyEntry kind put t.data s (n*kind.step)) (fresh kind size hashMask (t.dataId+1))

def rehash (t : Table K V) : Option (Table K V) :=
  if t.deletedKeys <<< kind.deletedShift > t.usedData then init kind put t t.index.length t.hashMask
  else init kind put t (t.index.length <<< 1) (t.hashMask >>> 1)

/-- `_insert`, and the end of the set's `add`. -/
def insert (t : Table K V) (key : K) (value : V) (pattern i : ℕ) : Option (Table K V) :=
  if t.usedData = t.data.length then do
    let t ← rehash kind put t
    let (t,_) ← put t key value
    return t
  else append kind t key value pattern i

end

/-- The map's `[]=` and the set's `add`, which call themselves through `_insert` and
`_rehash`; `depth` bounds the nesting. The answer is that of `add`. -/
def put : ℕ → Table K V → K → V → Option (Table K V × Bool)
  | 0, _, _, _ => none
  | depth+1, t, key, value => do
    match ← find equals hashCode kind t key with
    | .found _ entry => return (← overwrite t entry value kind,false)
    | .absent i =>
      return (← insert kind (put depth) t key value (t.pattern hashCode key) i,true)

/-- The nesting of a call that rehashes: the keys are copied by calls that do not. -/
def kMaxDepth : ℕ := 2

/-- The map's `putIfAbsent` for a callback that returns `value` and leaves the map alone. -/
def putIfAbsent (t : Table K V) (key : K) (value : V) : Option (Table K V × V) := do
  match ← find equals hashCode kind t key with
  | .found _ entry => return (t,← storedValue t.data (entry <<< kind.shift) kind)
  | .absent i =>
    if t.isModifiedSince t.dataId t.checkSum then
      let (t,_) ← put equals hashCode kind kMaxDepth t key value
      return (t,value)
    else
      let t ← insert kind (put equals hashCode kind kMaxDepth) t key value (t.pattern hashCode key) i
      return (t,value)

/-- `remove`. The map answers with the removed value, the set with whether there was one. -/
def remove (t : Table K V) (key : K) : Option (Table K V × Option V) := do
  match ← find equals hashCode kind t key with
  | .found i entry =>
    let index ← assign t.index i kDeletedPair
    let value ← storedValue t.data (entry <<< kind.shift) kind
    let data ← setDeleted t.data (entry <<< kind.shift) kind
    return ({ t with index := index, data := data, deletedKeys := t.deletedKeys+1 },some value)
  | .absent _ => return (t,none)

/-- The key and value of the entry that `_getValueOrData` or `_getKeyOrData` finds. -/
def getOrData (t : Table K V) (key : K) : Option (Option (K × V)) := do
  match ← find equals hashCode kind t key with
  | .found _ entry =>
    return some (← keyAt t.data (entry <<< kind.shift),
      ← storedValue t.data (entry <<< kind.shift) kind)
  | .absent _ => return none

end Operations

def Table.length (t : Table K V) : Kind V → ℤ
  | .map => ((t.usedData >>> 1 : ℕ) : ℤ)-t.deletedKeys
  | .set => (t.usedData : ℤ)-t.deletedKeys

def clear (kind : Kind V) (t : Table K V) : Table K V :=
  if t.length kind = 0 then t else fresh kind t.index.length t.hashMask (t.dataId+1)

structure Iterator where
  dataId : ℕ
  len : ℕ
  offset : ℤ
  step : ℕ
  checkSum : ℕ

/-- The `do` loop of `moveNext`. -/
def skipDeleted (data : List (Cell K V)) (len step : ℕ) : ℕ → ℤ → Option (ℤ × Option (Cell K V))
  | 0, _ => none
  | fuel+1, offset =>
    let offset := offset+step
    if offset < len then
      match data[offset.toNat]? with
      | none => none
      | some .deleted => skipDeleted data len step fuel offset
      | some c => some (offset,some c)
    else some (offset,none)

def moveNext (t : Table K V) (it : Iterator) : Option (Iterator × Option (Cell K V)) :=
  if t.isModifiedSince it.dataId it.checkSum then none
  else do
    let (offset,current) ← skipDeleted t.data it.len it.step (it.len+1) it.offset
    return ({ it with offset := offset },current)

/-- The elements that a `for-in` loop sees. -/
def iterate (t : Table K V) : ℕ → Iterator → Option (List (Cell K V))
  | 0, _ => none
  | fuel+1, it => do
    match ← moveNext t it with
    | (_,none) => return []
    | (it,some c) => return c :: (← iterate t fuel it)

def iterator (t : Table K V) (offset : ℤ) (step : ℕ) : Iterator :=
  ⟨t.dataId,t.usedData,offset,step,t.checkSum⟩

def keys (kind : Kind V) (t : Table K V) : Option (List (Cell K V)) :=
  iterate t (t.usedData+1) (iterator t (-kind.step) kind.step)

def values (t : Table K V) : Option (List (Cell K V)) :=
  iterate t (t.usedData+1) (iterator t (-1) 2)

inductive MapOp (K V : Type)
  | set (key : K) (value : V)
  | putIfAbsent (key : K) (value : V)
  | remove (key : K)
  | clear
  | containsKey (key : K)
  | get (key : K)
  | length
  | keys
  | values

inductive SetOp (K : Type)
  | add (key : K)
  | remove (key : K)
  | clear
  | contains (key : K)
  | lookup (key : K)
  | length
  | elements

/-- Results of the operations; `null` is the missing value, key or result. -/
inductive Answer (K V : Type)
  | null
  | value (v : V)
  | key (k : K)
  | flag (b : Bool)
  | count (n : ℤ)
  | list (cs : List (Cell K V))

def Answer.ofValue : Option V → Answer K V
  | none => null
  | some v => value v

def Answer.ofKey : Option K → Answer K V
  | none => null
  | some k => key k

section Steps
variable (equals : K → K → Bool) (hashCode : K → ℤ)

def mapStep (t : Table K V) : MapOp K V → Option (Table K V × Answer K V)
  | .set key value => do
    let (t,_) ← put equals hashCode .map kMaxDepth t key value
    return (t,.null)
  | .putIfAbsent key value => do
    let (t,v) ← putIfAbsent equals hashCode .map t key value
    return (t,.value v)
  | .remove key => do
    let (t,v) ← remove equals hashCode .map t key
    return (t,.ofValue v)
  | .clear => some (clear .map t,.null)
  | .containsKey key => do
    let r ← getOrData equals hashCode .map t key
    return (t,.flag r.isSome)
  | .get key => do
    let r ← getOrData equals hashCode .map t key
    return (t,.ofValue (r.map Prod.snd))
  | .length => some (t,.count (t.length .map))
  | .keys => do return (t,.list (← keys .map t))
  | .values => do return (t,.list (← values t))

def setStep (t : Table K Unit) : SetOp K → Option (Table K Unit × Answer K Unit)
  | .add key => do
    let (t,b) ← put equals hashCode .set kMaxDepth t key ()
    return (t,.flag b)
  | .remove key => do
    let (t,v) ← remove equals hashCode .set t key
    return (t,.flag v.isSome)
  | .clear => some (clear .set t,.null)
  | .contains key => do
    let r ← getOrData equals hashCode .set t key
    return (t,.flag r.isSome)
  | .lookup key => do
    let r ← getOrData equals hashCode .set t key
    return (t,.ofKey (r.map Prod.fst))
  | .length => some (t,.count (t.length .set))
  | .elements => do return (t,.list (← keys .set t))

end Steps

end DartSdk.CompactHash
