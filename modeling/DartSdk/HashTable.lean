import DartSdk.LinearProbing

/-! The hash tables of `vm/hash_table.h` live in one `RawArray`: a header with two counters,
metadata, and entries of a key and its payload. `none` is a failed `ASSERT` or a probe that does not
end; allocation always succeeds. The enumeration index is the only number that can leave the range
of a Smi. -/
namespace DartSdk.HashTable

def kSmiMax : ℕ := 2^62-1

/-- The contents of an array element; `A` are the objects without a role here. -/
inductive RawObject (A : Type)
  | sentinel
  | transitionSentinel
  | null
  | smi (value : ℤ)
  | ref (object : A)
  deriving DecidableEq, Repr

/-- Any object except the two sentinels may be stored as a key. -/
def RawObject.isKey {A : Type} : RawObject A → Bool
  | .sentinel | .transitionSentinel => false
  | _ => true

/-- The template parameters: the payload that the user sees, and whether one more component
and one metadata element record the order of insertion (`EnumIndexHashTable`). -/
structure Shape where
  userPayloadSize : ℕ
  enumIndex : Bool

namespace Shape

section
variable (sh : Shape)

def payloadSize : ℕ := if sh.enumIndex then sh.userPayloadSize+1 else sh.userPayloadSize

def metaDataSize : ℕ := if sh.enumIndex then 1 else 0

def firstKeyIndex : ℕ := 2+sh.metaDataSize

def entrySize : ℕ := 1+sh.payloadSize

def keyIndex (entry : ℕ) : ℕ := sh.firstKeyIndex+sh.entrySize*entry

def payloadIndex (entry component : ℕ) : ℕ := sh.keyIndex entry+1+component

def arrayLengthForNumOccupied (numOccupied : ℕ) : ℕ :=
  sh.firstKeyIndex+sh.entrySize*(numOccupied+1)

end

end Shape

def kOccupiedEntriesIndex : ℕ := 0

def kDeletedEntriesIndex : ℕ := 1

def kNextEnumIndex : ℕ := 2

/-- Lookup keys of all types that the traits know. An object is a lookup key by `ofObject`;
`newKey` is `none` for types without a `NewKey`. `IsMatch` is an equivalence, and `Hash`
respects it. -/
structure KeyTraits (Key A : Type) where
  isMatch : Key → RawObject A → Bool
  hash : Key → ℕ
  newKey : Key → Option (RawObject A)
  ofObject : RawObject A → Key
  equiv : Setoid Key
  isMatch_iff : ∀ k o, o.isKey = true → (isMatch k o = true ↔ equiv k (ofObject o))
  hash_eq : ∀ k k', equiv k k' → hash k = hash k'
  newKey_equiv : ∀ k o, newKey k = some o → o.isKey = true ∧ equiv k (ofObject o)

variable {Key A : Type}

section Access
variable (sh : Shape) (data : List (RawObject A))

def getSmiValueAt (index : ℕ) : Option ℤ :=
  match data[index]? with
  | some (.smi value) => some value
  | _ => none

def setSmiValueAt (index : ℕ) (value : ℤ) : List (RawObject A) := data.set index (.smi value)

def adjustSmiValueAt (index : ℕ) (delta : ℤ) : Option (List (RawObject A)) := do
  let value ← getSmiValueAt data index
  return setSmiValueAt data index (value+delta)

def numOccupied : Option ℤ := getSmiValueAt data kOccupiedEntriesIndex

def numDeleted : Option ℤ := getSmiValueAt data kDeletedEntriesIndex

def numEntries : ℕ := (data.length-sh.firstKeyIndex)/sh.entrySize

variable (entry : ℕ)

def internalGetKey : RawObject A := data.getD (sh.keyIndex entry) .null

def isUnused : Bool :=
  match internalGetKey sh data entry with
  | .sentinel => true
  | _ => false

def isDeleted : Bool :=
  match internalGetKey sh data entry with
  | .transitionSentinel => true
  | _ => false

def isOccupied : Bool := !isUnused sh data entry && !isDeleted sh data entry

def getPayload (entry component : ℕ) : Option (RawObject A) :=
  if isOccupied sh data entry ∧ entry < numEntries sh data ∧ component < sh.payloadSize then
    data[sh.payloadIndex entry component]?
  else none

def updatePayload (entry component : ℕ) (value : RawObject A) : Option (List (RawObject A)) :=
  if isOccupied sh data entry ∧ entry < numEntries sh data ∧ component < sh.payloadSize then
    some (data.set (sh.payloadIndex entry component) value)
  else none

/-- `Initialize`, with the metadata of `EnumIndexHashTable`. -/
def initializeTable : Option (List (RawObject A)) :=
  if sh.arrayLengthForNumOccupied 0 ≤ data.length then
    let data := .smi 0 :: .smi 0 :: List.replicate (data.length-2) .sentinel
    some (if sh.enumIndex then setSmiValueAt data kNextEnumIndex 0 else data)
  else none

/-- The counters after an insertion, which may reuse a deleted entry. -/
def countInsertion : Option (List (RawObject A)) := do
  let counted ← adjustSmiValueAt data kOccupiedEntriesIndex 1
  if isDeleted sh data entry then adjustSmiValueAt counted kDeletedEntriesIndex (-1)
  else return counted

/-- `HashTable::InsertKey`. -/
def insertKeyBase (key : RawObject A) : Option (List (RawObject A)) :=
  if entry < numEntries sh data ∧ ¬ isOccupied sh data entry then do
    let counted ← countInsertion sh data entry
    let result := counted.set (sh.keyIndex entry) key
    let occupied ← numOccupied result
    if isOccupied sh result entry ∧ occupied < numEntries sh result then return result else none
  else none

/-- `EnumIndexHashTable::InsertKey` gives the entry the next enumeration index. -/
def insertKey (key : RawObject A) : Option (List (RawObject A)) := do
  let data ← insertKeyBase sh data entry key
  if sh.enumIndex then
    let next ← getSmiValueAt data kNextEnumIndex
    let data ← updatePayload sh data entry sh.userPayloadSize (.smi next)
    if next+1 ≤ kSmiMax then adjustSmiValueAt data kNextEnumIndex 1 else none
  else return data

def deleteEntry : Option (List (RawObject A)) :=
  if isOccupied sh data entry ∧ entry < numEntries sh data then do
    let cleared ← (List.range sh.payloadSize).foldlM
      (fun data i => updatePayload sh data entry i .transitionSentinel) data
    let result := cleared.set (sh.keyIndex entry) .transitionSentinel
    let result ← adjustSmiValueAt result kOccupiedEntriesIndex (-1)
    adjustSmiValueAt result kDeletedEntriesIndex 1
  else none

/-- `enum_to_entry[enum_index] = entry` on the sorted contents of a `std::map`. -/
def enumInsert (index : ℤ) (entry : ℕ) : List (ℤ × ℕ) → List (ℤ × ℕ)
  | [] => [(index,entry)]
  | (index',entry') :: m =>
    if index < index' then (index,entry) :: (index',entry') :: m
    else if index = index' then (index,entry) :: m
    else (index',entry') :: enumInsert index entry m

def enumToEntry : Option (List (ℤ × ℕ)) :=
  (List.range (numEntries sh data)).foldlM (fun m i =>
    if isOccupied sh data i then
      (getSmiValueAt data (sh.payloadIndex i sh.userPayloadSize)).map (enumInsert · i m)
    else some m) []

/-- The entries in the order of the `Iterator`. -/
def iterate : Option (List ℕ) :=
  if sh.enumIndex then (enumToEntry sh data).map (·.map Prod.snd)
  else some ((List.range (numEntries sh data)).filter (isOccupied sh data ·))

end Access

section Find
variable (T : KeyTraits Key A) (sh : Shape) (data : List (RawObject A)) (key : Key)

def findStops (entry : ℕ) : Bool :=
  match internalGetKey sh data entry with
  | .sentinel => true
  | .transitionSentinel => false
  | o => T.isMatch key o

/-- `FindKey`; the answer `-1` is `some none`. -/
def findKey : Option (Option ℕ) := do
  let occupied ← numOccupied data
  if occupied < numEntries sh data then
    let n := numEntries sh data
    let probe ← LinearProbing.search (findStops T sh data key) n n (T.hash key%n)
    return if isUnused sh data probe then none else some probe
  else none

/-- The loop of `FindKeyOrDeletedOrUnused` with the first deleted entry on the way. -/
def findLoop (key : Key) : ℕ → ℕ → Option ℕ → Option (ℕ × Bool)
  | 0, _, _ => none
  | fuel+1, probe, deleted =>
    if findStops T sh data key probe then
      if isUnused sh data probe then some (deleted.getD probe,false) else some (probe,true)
    else
      findLoop key fuel ((probe+1)%numEntries sh data)
        (if isDeleted sh data probe ∧ deleted = none then some probe else deleted)

def findKeyOrDeletedOrUnused : Option (ℕ × Bool) := do
  let occupied ← numOccupied data
  if occupied < numEntries sh data then
    findLoop T sh data key (numEntries sh data) (T.hash key%numEntries sh data) none
  else none

/-- `HashTables::New`. -/
def newTable (sh : Shape) (initialCapacity : ℕ) : Option (List (RawObject A)) :=
  initializeTable sh (List.replicate (sh.arrayLengthForNumOccupied initialCapacity) .null)

/-- One iteration of `HashTables::Copy`, which inserts an entry of `data` into `dst`. -/
def copyEntry (dst : List (RawObject A)) (entry : ℕ) : Option (List (RawObject A)) :=
  if isOccupied sh data entry then do
    let key := internalGetKey sh data entry
    let (dstEntry,present) ← findKeyOrDeletedOrUnused T sh dst (T.ofObject key)
    if present then none
    else
      let dst ← insertKey sh dst dstEntry key
      (List.range sh.userPayloadSize).foldlM (fun dst i => do
        let value ← getPayload sh data entry i
        updatePayload sh dst dstEntry i value) dst
  else none

def copy (dst : List (RawObject A)) : Option (List (RawObject A)) := do
  let dst ← initializeTable sh dst
  let occupied ← numOccupied data
  if occupied < numEntries sh dst then
    let entries ← iterate sh data
    entries.foldlM (copyEntry T sh data) dst
  else none

/-- The load factor is an exact quotient, as it is in doubles for fewer than 2^52 entries. -/
def ensureLoadFactor (low high : ℚ) : Option (List (RawObject A)) := do
  let occupied ← numOccupied data
  let deleted ← numDeleted data
  let current : ℚ := (1+occupied+deleted)/numEntries sh data
  if low ≤ current ∧ current < high then return data
  else
    let target := (low+high)/2
    let newCapacity : ℤ := ⌊(1+occupied)/target⌋
    let dst ← newTable sh newCapacity.toNat
    copy T sh data dst

def kMaxLoadFactor : ℚ := 3/4

def ensureCapacity : Option (List (RawObject A)) := ensureLoadFactor T sh data 0 kMaxLoadFactor

def containsKey : Option Bool := do
  let entry ← findKey T sh data key
  return entry.isSome

def remove : Option (List (RawObject A) × Bool) := do
  match ← findKey T sh data key with
  | none => return (data,false)
  | some entry => return (← deleteEntry sh data entry,true)

/-- `HashMap::GetOrNull` with its answer for `present`. -/
def getOrNull : Option (Bool × RawObject A) := do
  match ← findKey T sh data key with
  | none => return (false,.null)
  | some entry => return (true,← getPayload sh data entry 0)

def updateOrInsert (key value : RawObject A) : Option (List (RawObject A) × Bool) := do
  let data ← ensureCapacity T sh data
  let (entry,present) ← findKeyOrDeletedOrUnused T sh data (T.ofObject key)
  let data ← if present then some data else insertKey sh data entry key
  return (← updatePayload sh data entry 0 value,present)

def updateValue (value : RawObject A) : Option (List (RawObject A)) := do
  match ← findKey T sh data key with
  | none => none
  | some entry => updatePayload sh data entry 0 value

/-- The common part of `InsertOrGetValue` and `InsertNewOrGetValue`; `newKey` is the object
that is stored if there is no match. -/
def insertValue (newKey : Option (RawObject A)) (valueIfAbsent : RawObject A) :
    Option (List (RawObject A) × RawObject A) := do
  let data ← ensureCapacity T sh data
  let (entry,present) ← findKeyOrDeletedOrUnused T sh data key
  if present then return (data,← getPayload sh data entry 0)
  else
    let key ← newKey
    let data ← insertKey sh data entry key
    return (← updatePayload sh data entry 0 valueIfAbsent,valueIfAbsent)

def insertOrGetValue (key valueIfAbsent : RawObject A) : Option (List (RawObject A) × RawObject A) :=
  insertValue T sh data (T.ofObject key) (some key) valueIfAbsent

def insertNewOrGetValue (valueIfAbsent : RawObject A) : Option (List (RawObject A) × RawObject A) :=
  insertValue T sh data key (T.newKey key) valueIfAbsent

def insert (key : RawObject A) : Option (List (RawObject A) × Bool) := do
  let data ← ensureCapacity T sh data
  let (entry,present) ← findKeyOrDeletedOrUnused T sh data (T.ofObject key)
  let data ← if present then some data else insertKey sh data entry key
  return (data,present)

/-- A match is answered by component 0 of the payload, not by the key. -/
def insertOrGet (key : RawObject A) : Option (List (RawObject A) × RawObject A) := do
  let data ← ensureCapacity T sh data
  let (entry,present) ← findKeyOrDeletedOrUnused T sh data (T.ofObject key)
  if present then return (data,← getPayload sh data entry 0)
  else return (← insertKey sh data entry key,key)

def insertNewOrGet : Option (List (RawObject A) × RawObject A) := do
  let data ← ensureCapacity T sh data
  let (entry,present) ← findKeyOrDeletedOrUnused T sh data key
  if present then return (data,internalGetKey sh data entry)
  else
    let key ← T.newKey key
    let data ← insertKey sh data entry key
    return (data,key)

def getKeyOrNull : Option (Bool × RawObject A) := do
  match ← findKey T sh data key with
  | none => return (false,.null)
  | some entry => return (true,internalGetKey sh data entry)

end Find

end DartSdk.HashTable
