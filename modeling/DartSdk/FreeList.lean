import DartSdk.BitSet

/-! `vm/freelist.cc` keeps free blocks in one list for each small size and one list for all large
sizes, with a bit set of the non-empty small lists and the largest small size. A list of elements
stands for the links in the blocks; a null address is `none` in an answer, and `none` itself is a
failed `ASSERT`. Page protection is left out. -/
namespace DartSdk
namespace FreeList

def kObjectAlignmentLog2 : ℕ := 4

def kObjectAlignment : ℕ := 16

def kNumLists : ℕ := 128

/-- A free block; its header records the size. -/
structure Element where
  addr : ℕ
  size : ℕ
  deriving DecidableEq, Repr

def asElement (addr size : ℕ) : Option Element :=
  if size ≥ kObjectAlignment ∧ size%kObjectAlignment = 0 then some ⟨addr,size⟩ else none

def indexForSize (size : ℕ) : Option ℕ :=
  if size ≥ kObjectAlignment ∧ size%kObjectAlignment = 0 then
    let index := size >>> kObjectAlignmentLog2
    some (if index ≥ kNumLists then kNumLists else index)
  else none

end FreeList

structure FreeList where
  freeMap : BitSet FreeList.kNumLists
  freeLists : ℕ → List FreeList.Element
  lastFreeSmallSize : ℤ

namespace FreeList

def reset : FreeList := ⟨.reset,fun _ => [], -1⟩

variable (fl : FreeList)

def setList (index : ℕ) (es : List Element) : FreeList :=
  { fl with freeLists := Function.update fl.freeLists index es }

def enqueueElement (element : Element) (index : ℕ) : FreeList :=
  let next := fl.freeLists index
  let fl :=
    if next = [] ∧ index ≠ kNumLists then
      { fl with
        freeMap := fl.freeMap.set index true
        lastFreeSmallSize := max fl.lastFreeSmallSize (index <<< kObjectAlignmentLog2 : ℕ) }
    else fl
  fl.setList index (element :: next)

/-- The summaries when the only element of list `index` is taken. -/
def emptyList (index : ℕ) : Option FreeList :=
  if (index <<< kObjectAlignmentLog2 : ℕ) = fl.lastFreeSmallSize then do
    let (freeMap,previous) ← fl.freeMap.clearLastAndFindPrevious index
    -- No other small size leaves `-1 * kObjectAlignment`.
    let last : ℤ := (previous.map Int.ofNat).getD (-1)
    return { fl with freeMap := freeMap, lastFreeSmallSize := last*kObjectAlignment }
  else return { fl with freeMap := fl.freeMap.set index false }

def dequeueElement (index : ℕ) : Option (FreeList × Element) :=
  match fl.freeLists index with
  | [] => none
  | result :: next => do
    let fl ← if next = [] ∧ index ≠ kNumLists then fl.emptyList index else some fl
    return (fl.setList index next,result)

def splitElementAfterAndEnqueue (element : Element) (size : ℕ) : Option FreeList :=
  if element.size = size then some fl
  else do
    let remainder ← asElement (element.addr+size) (element.size-size)
    let index ← indexForSize remainder.size
    return fl.enqueueElement remainder index

/-- Unlink the first element of at least `size` bytes. -/
def takeFirstFit (size : ℕ) : List Element → Option (Element × List Element)
  | [] => none
  | e :: es =>
    if e.size ≥ size then some (e,es)
    else (takeFirstFit size es).map fun (found,rest) => (found,e :: rest)

/-- The exact list of `index`, or a split of the next larger small element. -/
def allocateFromSmall (size index : ℕ) : Option (FreeList × Option ℕ) :=
  if index ≠ kNumLists ∧ fl.freeMap.test index then do
    let (fl,element) ← fl.dequeueElement index
    return (fl,some element.addr)
  else if index+1 < kNumLists then
    match fl.freeMap.next (index+1) with
    | none => some (fl,none)
    | some nextIndex => do
      let (fl,element) ← fl.dequeueElement nextIndex
      let fl ← fl.splitElementAfterAndEnqueue element size
      return (fl,some element.addr)
  else some (fl,none)

def tryAllocateLocked (size : ℕ) : Option (FreeList × Option ℕ) := do
  let index ← indexForSize size
  let (fl,result) ← fl.allocateFromSmall size index
  match result with
  | some addr => return (fl,some addr)
  | none =>
    match takeFirstFit size (fl.freeLists kNumLists) with
    | none => return (fl,none)
    | some (current,rest) =>
      let fl ← (fl.setList kNumLists rest).splitElementAfterAndEnqueue current size
      return (fl,some current.addr)

def freeLocked (addr size : ℕ) : Option FreeList := do
  let index ← indexForSize size
  let element ← asElement addr size
  return fl.enqueueElement element index

def tryAllocateLargeLocked (minimumSize : ℕ) : FreeList × Option Element :=
  match takeFirstFit minimumSize (fl.freeLists kNumLists) with
  | none => (fl,none)
  | some (current,rest) => (fl.setList kNumLists rest,some current)

def tryAllocateSmallLocked (size : ℕ) : Option (FreeList × Option ℕ) :=
  if (size : ℤ) > fl.lastFreeSmallSize then some (fl,none)
  else do
    let index ← indexForSize size
    fl.allocateFromSmall size index

end FreeList
end DartSdk
