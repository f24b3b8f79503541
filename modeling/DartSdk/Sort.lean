import Mathlib

/-! Model of `sdk/lib/internal/sort.dart`. An access outside of the list is `none`; a loop or a
recursion without a visible bound takes fuel and is `none` when it runs out. -/
namespace DartSdk.Sort

variable {α : Type}

/-- `a[i]`. -/
def read (a : List α) (i : ℤ) : Option α := if i < 0 then none else a[i.toNat]?

/-- `a[i] = x`. -/
def write (a : List α) (i : ℤ) (x : α) : Option (List α) :=
  if i < 0 ∨ i ≥ a.length then none else some (a.set i.toNat x)

variable (compare : α → α → ℤ)

def insertionSortThreshold : ℤ := 32

section InsertionSort

/-- The loop that moves greater elements up, `n` is the distance of `j` from `left`. -/
def shiftGreater (el : α) : ℕ → List α → ℤ → Option (List α × ℤ)
  | 0, a, j => some (a,j)
  | n+1, a, j => do
    let x ← read a (j-1)
    if compare x el > 0 then shiftGreater el n (← write a j x) (j-1) else some (a,j)

/-- The elements from `i` on are inserted, `n` of them remain. -/
def insertionLoop (left : ℤ) : ℕ → List α → ℤ → Option (List α)
  | 0, a, _ => some a
  | n+1, a, i => do
    let el ← read a i
    let (a,j) ← shiftGreater compare el (i-left).toNat a i
    insertionLoop left n (← write a j el) (i+1)

def insertionSort (a : List α) (left right : ℤ) : Option (List α) :=
  insertionLoop compare left (right-left).toNat a (left+1)

end InsertionSort

section Sample

def order (x y : α) : α × α := if compare x y > 0 then (y,x) else (x,y)

def sortSample (el1 el2 el3 el4 el5 : α) : α × α × α × α × α :=
  let (el1,el2) := order compare el1 el2
  let (el4,el5) := order compare el4 el5
  let (el1,el3) := order compare el1 el3
  let (el2,el3) := order compare el2 el3
  let (el1,el4) := order compare el1 el4
  let (el3,el4) := order compare el3 el4
  let (el2,el5) := order compare el2 el5
  let (el2,el3) := order compare el2 el3
  let (el4,el5) := order compare el4 el5
  (el1,el2,el3,el4,el5)

structure Indices where
  index1 : ℤ
  index2 : ℤ
  index3 : ℤ
  index4 : ℤ
  index5 : ℤ

def indices (left right : ℤ) : Indices :=
  let sixth := (right-left+1).tdiv 6
  let index3 := (left+right).tdiv 2
  { index1 := left+sixth
    index5 := right-sixth
    index3 := index3
    index2 := index3-sixth
    index4 := index3+sixth }

/-- The pivots are taken out of the list, whose first and last element fill the gaps. -/
def takePivots (a : List α) (left right : ℤ) : Option (List α × α × α) := do
  let p := indices left right
  let el1 ← read a p.index1
  let el2 ← read a p.index2
  let el3 ← read a p.index3
  let el4 ← read a p.index4
  let el5 ← read a p.index5
  let (el1,el2,el3,el4,el5) := sortSample compare el1 el2 el3 el4 el5
  let a ← write a p.index1 el1
  let a ← write a p.index3 el3
  let a ← write a p.index5 el5
  let a ← write a p.index2 (← read a left)
  let a ← write a p.index4 (← read a right)
  return (a,el2,el4)

end Sample

section Partition

/-- The list and the bounds of its middle partition. -/
structure Split (α : Type) where
  a : List α
  less : ℤ
  great : ℤ

/-- The tests of a partition loop: of the current element, and of the element at `great` against
the lower bound. `guarded` says whether the search from above stops below `k`. -/
structure Tests (α : Type) where
  low : α → Bool
  high : α → Bool
  lowGreat : α → Bool
  guarded : Bool

variable (tests : Tests α)

/-- The search for an element from above that can be exchanged. -/
def scan (a : List α) (k : ℤ) : ℕ → ℤ → Option (ℤ × Bool)
  | 0, _ => none
  | n+1, great => do
    let x ← read a great
    if tests.high x then
      let great := great-1
      if tests.guarded && decide (great < k) then some (great,false) else scan a k n great
    else some (great,true)

def partitionStep (s : Split α) (k : ℤ) : Option (Split α) := do
  let ak ← read s.a k
  if tests.low ak then
    if k ≠ s.less then
      let a ← write s.a k (← read s.a s.less)
      let a ← write a s.less ak
      return ⟨a,s.less+1,s.great⟩
    else return ⟨s.a,s.less+1,s.great⟩
  else if tests.high ak then
    let (great,found) ← scan tests s.a k (s.a.length+1) s.great
    if found then
      if tests.lowGreat (← read s.a great) then
        let a ← write s.a k (← read s.a s.less)
        let a ← write a s.less (← read a great)
        let a ← write a great ak
        return ⟨a,s.less+1,great-1⟩
      else
        let a ← write s.a k (← read s.a great)
        let a ← write a great ak
        return ⟨a,s.less,great-1⟩
    else return ⟨s.a,s.less,great⟩
  else return s

/-- `for (int k = …; k <= great; k++)`. -/
def partitionLoop : ℕ → Split α → ℤ → Option (Split α)
  | 0, s, k => if k ≤ s.great then none else some s
  | n+1, s, k => if k ≤ s.great then do partitionLoop n (← partitionStep tests s k) (k+1) else some s

def partition (s : Split α) : Option (Split α) :=
  partitionLoop tests (s.great+1-s.less).toNat s s.less

/-- `< pivot`, `== pivot` and `> pivot`. -/
def equalTests (pivot : α) : Tests α where
  low x := decide (compare x pivot < 0)
  high x := decide (compare x pivot > 0)
  lowGreat x := decide (compare x pivot < 0)
  guarded := false

/-- `< pivot1`, between the pivots and `> pivot2`. -/
def outerTests (pivot1 pivot2 : α) : Tests α where
  low x := decide (compare x pivot1 < 0)
  high x := decide (compare x pivot2 > 0)
  lowGreat x := decide (compare x pivot1 < 0)
  guarded := true

/-- `== pivot1`, between the pivots and `== pivot2`. -/
def innerTests (pivot1 pivot2 : α) : Tests α where
  low x := decide (compare x pivot1 = 0)
  high x := decide (compare x pivot2 = 0)
  lowGreat x := decide (compare x pivot1 < 0)
  guarded := true

/-- A loop that moves a bound while the element there is equal to the pivot. -/
def skipEqual (a : List α) (pivot : α) (step : ℤ) : ℕ → ℤ → Option ℤ
  | 0, _ => none
  | n+1, i => do if compare (← read a i) pivot = 0 then skipEqual a pivot step n (i+step) else some i

end Partition

section Quicksort

def placePivots (s : Split α) (left right : ℤ) (pivot1 pivot2 : α) : Option (List α) := do
  let a ← write s.a left (← read s.a (s.less-1))
  let a ← write a (s.less-1) pivot1
  let a ← write a right (← read a (s.great+1))
  write a (s.great+1) pivot2

/-- Pivots are removed from a large middle partition. -/
def shrinkMiddle (s : Split α) (pivot1 pivot2 : α) : Option (Split α) := do
  let less ← skipEqual compare s.a pivot1 1 (s.a.length+1) s.less
  let great ← skipEqual compare s.a pivot2 (-1) (s.a.length+1) s.great
  partition (innerTests compare pivot1 pivot2) ⟨s.a,less,great⟩

/-- `_dualPivotQuicksort`, where `doSort` sorts the partitions. -/
def dualPivotQuicksort (doSort : List α → ℤ → ℤ → Option (List α)) (a : List α) (left right : ℤ) :
    Option (List α) := do
  let p := indices left right
  let (a,pivot1,pivot2) ← takePivots compare a left right
  let equal := decide (compare pivot1 pivot2 = 0)
  let tests := if equal then equalTests compare pivot1 else outerTests compare pivot1 pivot2
  let s ← partition tests ⟨a,left+1,right-1⟩
  let a ← placePivots s left right pivot1 pivot2
  let a ← doSort a left (s.less-2)
  let a ← doSort a (s.great+2) right
  if equal then return a
  else if s.less < p.index1 ∧ s.great > p.index5 then
    let s ← shrinkMiddle compare ⟨a,s.less,s.great⟩ pivot1 pivot2
    doSort s.a s.less s.great
  else doSort a s.less s.great

/-- `_doSort`, the fuel bounds the depth of the recursion. -/
def doSort : ℕ → List α → ℤ → ℤ → Option (List α)
  | 0, _, _, _ => none
  | fuel+1, a, left, right =>
    if right-left ≤ insertionSortThreshold then insertionSort compare a left right
    else dualPivotQuicksort compare (doSort fuel) a left right

/-- Every recursion is for a shorter range, so that the length bounds the depth. -/
def sort (a : List α) : Option (List α) := doSort compare (a.length+1) a 0 (a.length-1)

inductive Failure
  | outOfRange
  | unfinished

def sortRange (a : List α) (start stop : ℤ) : Except Failure (List α) :=
  if start < 0 ∨ stop > a.length ∨ stop < start then .error .outOfRange
  else
    match doSort compare (a.length+1) a start (stop-1) with
    | some a => .ok a
    | none => .error .unfinished

end Quicksort

end DartSdk.Sort
