import DartSdk.Iteration

/-! Model of `ListQueue` and `_ListQueueIterator` in `sdk/lib/collection/queue.dart`: a cyclic
buffer whose free slots are `null`. An access outside a list, a concurrent modification and a loop
that does not end are `none`; the errors that a method throws are answers. -/
namespace DartSdk.ListQueue

variable {E : Type}

structure Queue (E : Type) where
  table : List E
  head : ℕ
  tail : ℕ
  modificationCount : ℕ

def kInitialCapacity : ℕ := 8

/-- `x & mask` for a mask of the form `2 ^ k - 1`. -/
def andMask (x : ℤ) (mask : ℕ) : ℕ := (x%(mask+1 : ℤ)).toNat

def isPowerOf2 (number : ℕ) : Bool := number &&& (number-1) == 0

/-- The loop of `_nextPowerOf2`, which clears the lowest bit until one bit is left. -/
def clearLowestBits : ℕ → ℕ → Option ℕ
  | 0, _ => none
  | fuel+1, number =>
    let nextNumber := number &&& (number-1)
    if nextNumber = 0 then some number else clearLowestBits fuel nextNumber

def nextPowerOf2 (number : ℕ) : Option ℕ :=
  clearLowestBits (number <<< 1) (number <<< 1-1)

/-- An assignment to an element of a fixed-length list. -/
def assign (l : List E) (i : ℕ) (e : E) : Option (List E) :=
  if i < l.length then some (l.set i e) else none

/-- `target.setRange(start, stop, source, skipCount)`. -/
def setRange (target : List E) (start stop : ℕ) (source : List E) (skipCount : ℕ) :
    Option (List E) :=
  if start ≤ stop ∧ stop ≤ target.length ∧ skipCount+(stop-start) ≤ source.length then
    some (target.take start ++ (source.drop skipCount).take (stop-start) ++ target.drop stop)
  else none

namespace Queue

def mask (q : Queue E) : ℕ := q.table.length-1

def next (q : Queue E) (i : ℕ) : ℕ := andMask (i+1) q.mask

def prev (q : Queue E) (i : ℕ) : ℕ := andMask (i-1) q.mask

def length (q : Queue E) : ℕ := andMask (q.tail-q.head) q.mask

end Queue

section Operations
variable (null : E)

/-- The table length of a new queue. A missing capacity is `none`. -/
def tableLength : Option ℤ → Option ℕ
  | none => some kInitialCapacity
  | some initialCapacity =>
    if initialCapacity < kInitialCapacity then some kInitialCapacity
    else if !isPowerOf2 initialCapacity.toNat then nextPowerOf2 initialCapacity.toNat
    else some initialCapacity.toNat

def create (initialCapacity : Option ℤ) : Option (Queue E) := do
  let capacity ← tableLength initialCapacity
  return ⟨List.replicate capacity null,0,0,0⟩

section
variable (q : Queue E)

def grow : Option (Queue E) := do
  let newTable := List.replicate (q.table.length*2) null
  let split := q.table.length-q.head
  let newTable ← setRange newTable 0 split q.table q.head
  let newTable ← setRange newTable split (split+q.head) q.table 0
  return { q with head := 0, tail := q.table.length, table := newTable }

def growIfFull : Option (Queue E) := if q.head = q.tail then grow null q else some q

def add (element : E) : Option (Queue E) := do
  let table ← assign q.table q.tail element
  let q ← growIfFull null { q with table := table, tail := q.next q.tail }
  return { q with modificationCount := q.modificationCount+1 }

def addFirst (value : E) : Option (Queue E) := do
  let head := q.prev q.head
  let table ← assign q.table head value
  let q ← growIfFull null { q with table := table, head := head }
  return { q with modificationCount := q.modificationCount+1 }

def writeToList (target : List E) : Option (List E × ℕ) :=
  if q.head ≤ q.tail then do
    let length := q.tail-q.head
    return (← setRange target 0 length q.table q.head,length)
  else do
    let firstPartSize := q.table.length-q.head
    let target ← setRange target 0 firstPartSize q.table q.head
    let target ← setRange target firstPartSize (firstPartSize+q.tail) q.table 0
    return (target,q.tail+firstPartSize)

def preGrow (newElementCount : ℕ) : Option (Queue E) := do
  let newElementCount := newElementCount+newElementCount >>> 1
  let newCapacity ← nextPowerOf2 newElementCount
  let (newTable,tail) ← writeToList q (List.replicate newCapacity null)
  return { q with tail := tail, table := newTable, head := 0 }

/-- The three ways in which `addAll` copies a list. -/
def copyAll (list : List E) : Option (Queue E) :=
  let addCount := list.length
  let length := q.length
  if length+addCount ≥ q.table.length then do
    let q ← preGrow null q (length+addCount)
    let table ← setRange q.table length (length+addCount) list 0
    return { q with table := table, tail := q.tail+addCount }
  else
    let endSpace := q.table.length-q.tail
    if addCount < endSpace then do
      let table ← setRange q.table q.tail (q.tail+addCount) list 0
      return { q with table := table, tail := q.tail+addCount }
    else do
      let preSpace := addCount-endSpace
      let table ← setRange q.table q.tail (q.tail+endSpace) list 0
      let table ← setRange table 0 preSpace list endSpace
      return { q with table := table, tail := preSpace }

def addAllList (list : List E) : Option (Queue E) := do
  let q ← copyAll null q list
  return { q with modificationCount := q.modificationCount+1 }

/-- `addAll` of another iterable, given by the elements that it yields. -/
def addAllIterable (elements : List E) : Option (Queue E) :=
  elements.foldlM (add null) q

end

def fromList (elements : List E) : Option (Queue E) := do
  let queue ← create null (some (elements.length+1))
  let table ← setRange queue.table 0 elements.length elements 0
  return { queue with table := table, tail := elements.length }

/-- `ListQueue.from` of another iterable; `efficient` if it knows its length. -/
def fromIterable (elements : List E) (efficient : Bool) : Option (Queue E) := do
  let capacity := if efficient then elements.length else kInitialCapacity
  let result ← create null (some capacity)
  addAllIterable null result elements

/-- Move the elements before `i` one slot on. -/
def shiftFromHead (q : Queue E) : ℕ → ℕ → Option (Queue E)
  | 0, _ => none
  | fuel+1, i =>
    if i = q.head then some q
    else do
      let prevOffset := q.prev i
      let table ← assign q.table i (← q.table[prevOffset]?)
      shiftFromHead { q with table := table } fuel prevOffset

/-- Move the elements behind `i` one slot back. -/
def shiftFromTail (q : Queue E) : ℕ → ℕ → Option (Queue E)
  | 0, _ => none
  | fuel+1, i =>
    if i = q.tail then some q
    else do
      let nextOffset := q.next i
      let table ← assign q.table i (← q.table[nextOffset]?)
      shiftFromTail { q with table := table } fuel nextOffset

/-- `_remove`, which returns the offset of the element behind the removed one. -/
def removeAt (q : Queue E) (offset : ℕ) : Option (Queue E × ℕ) := do
  let startDistance := andMask (offset-q.head) q.mask
  let endDistance := andMask (q.tail-offset) q.mask
  if startDistance < endDistance then
    let q ← shiftFromHead q q.table.length offset
    let table ← assign q.table q.head null
    return ({ q with table := table, head := q.next q.head },q.next offset)
  else
    let q ← shiftFromTail { q with tail := q.prev q.tail } q.table.length offset
    let table ← assign q.table q.tail null
    return ({ q with table := table },offset)

/-- The loop of `remove`; `equals` is `element == value`. -/
def removeLoop (q : Queue E) (equals : E → Bool) : ℕ → ℕ → Option (Queue E × Bool)
  | 0, _ => none
  | fuel+1, i =>
    if i = q.tail then some (q,false)
    else do
      let element ← q.table[i]?
      if equals element then
        let (q,_) ← removeAt null q i
        return ({ q with modificationCount := q.modificationCount+1 },true)
      else removeLoop q equals fuel (q.next i)

def remove (q : Queue E) (equals : E → Bool) : Option (Queue E × Bool) :=
  removeLoop null q equals q.table.length q.head

def filterLoop (test : E → Bool) (removeMatching : Bool) : ℕ → Queue E → ℕ → ℕ → Option (Queue E)
  | 0, _, _, _ => none
  | fuel+1, q, modificationCount, i =>
    if i = q.tail then some q
    else do
      let element ← q.table[i]?
      let remove := removeMatching == test element
      if modificationCount ≠ q.modificationCount then none
      else if remove then
        let (q,i) ← removeAt null q i
        let q := { q with modificationCount := q.modificationCount+1 }
        filterLoop test removeMatching fuel q q.modificationCount i
      else filterLoop test removeMatching fuel q modificationCount (q.next i)

def filterWhere (q : Queue E) (test : E → Bool) (removeMatching : Bool) : Option (Queue E) :=
  filterLoop null test removeMatching q.table.length q q.modificationCount q.head

def clearLoop (q : Queue E) : ℕ → ℕ → Option (Queue E)
  | 0, _ => none
  | fuel+1, i =>
    if i = q.tail then some q
    else do
      let table ← assign q.table i null
      clearLoop { q with table := table } fuel (q.next i)

def clear (q : Queue E) : Option (Queue E) :=
  if q.head ≠ q.tail then do
    let q ← clearLoop null q q.table.length q.head
    return { q with head := 0, tail := 0, modificationCount := q.modificationCount+1 }
  else some q

def toList (q : Queue E) : Option (List E) := do
  let (target,_) ← writeToList q (List.replicate q.length null)
  return target

end Operations

structure Iterator where
  stop : ℕ
  modificationCount : ℕ
  position : ℕ

/-- `moveNext`, with the new `current`. -/
def moveNext (q : Queue E) (it : Iterator) : Option (Iterator × Option E) :=
  if it.modificationCount ≠ q.modificationCount then none
  else if it.position = it.stop then some (it,none)
  else do
    let current ← q.table[it.position]?
    return ({ it with position := q.next it.position },some current)

/-- The elements that a `for-in` loop sees. -/
def iterate (q : Queue E) : ℕ → Iterator → Option (List E)
  | 0, _ => none
  | fuel+1, it => do
    match ← moveNext q it with
    | (_,none) => return []
    | (it,some e) => return e :: (← iterate q fuel it)

def iterator (q : Queue E) : Iterator := ⟨q.tail,q.modificationCount,q.head⟩

inductive Op (E : Type)
  | addLast (value : E)
  | addFirst (value : E)
  | addAllList (list : List E)
  | addAllIterable (elements : List E)
  | removeFirst
  | removeLast
  | remove (equals : E → Bool)
  | removeWhere (test : E → Bool)
  | retainWhere (test : E → Bool)
  | clear
  | length
  | elementAt (index : ℤ)
  | toList
  | iterate

/-- Results of the operations and the errors that they throw. -/
inductive Answer (E : Type)
  | done
  | element (e : E)
  | flag (b : Bool)
  | count (n : ℕ)
  | list (es : List E)
  | noElement
  | rangeError

inductive Constructor (E : Type)
  | create (initialCapacity : Option ℤ)
  | fromList (elements : List E)
  | fromIterable (elements : List E) (efficient : Bool)

def Constructor.build (null : E) : Constructor E → Option (Queue E)
  | create initialCapacity => ListQueue.create null initialCapacity
  | fromList elements => ListQueue.fromList null elements
  | fromIterable elements efficient => ListQueue.fromIterable null elements efficient

section Step
variable (null : E)

def removeFirst (q : Queue E) : Option (Queue E × Answer E) :=
  if q.head = q.tail then some (q,.noElement)
  else do
    let result ← q.table[q.head]?
    let table ← assign q.table q.head null
    return (⟨table,q.next q.head,q.tail,q.modificationCount+1⟩,.element result)

def removeLast (q : Queue E) : Option (Queue E × Answer E) :=
  if q.head = q.tail then some (q,.noElement)
  else do
    let tail := q.prev q.tail
    let result ← q.table[tail]?
    let table ← assign q.table tail null
    return (⟨table,q.head,tail,q.modificationCount+1⟩,.element result)

def elementAt (q : Queue E) (index : ℤ) : Option (Answer E) :=
  if index < 0 ∨ index ≥ q.length then some .rangeError
  else do return .element (← q.table[andMask (q.head+index) q.mask]?)

def step (q : Queue E) : Op E → Option (Queue E × Answer E)
  | .addLast value => do return (← add null q value,.done)
  | .addFirst value => do return (← addFirst null q value,.done)
  | .addAllList list => do return (← addAllList null q list,.done)
  | .addAllIterable elements => do return (← addAllIterable null q elements,.done)
  | .removeFirst => removeFirst null q
  | .removeLast => removeLast null q
  | .remove equals => do
    let (q,b) ← remove null q equals
    return (q,.flag b)
  | .removeWhere test => do return (← filterWhere null q test true,.done)
  | .retainWhere test => do return (← filterWhere null q test false,.done)
  | .clear => do return (← clear null q,.done)
  | .length => some (q,.count q.length)
  | .elementAt index => do return (q,← elementAt q index)
  | .toList => do return (q,.list (← toList null q))
  | .iterate => do return (q,.list (← iterate q (q.length+1) (iterator q)))

end Step

end DartSdk.ListQueue
