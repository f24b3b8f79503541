import DartSdk.LinearProbing

/-! `platform/hashmap.cc` is an open-addressing table of `(key, value, hash)` triplets. A key is
removed by shifting later entries back, so there are no tombstones. `none` is a failed `ASSERT`; a
null pointer is `none` in the entry. -/
namespace DartSdk.PlatformHashMap
open LinearProbing

structure Entry (K V : Type) where
  key : Option K
  value : Option V
  hash : UInt32
  deriving DecidableEq, Repr

def Entry.empty {K V : Type} : Entry K V := ⟨none,none,0⟩

/-- Unsigned arithmetic on the 32-bit fields. -/
def u32 (n : ℕ) : ℕ := n%2^32

def isPowerOfTwo (x : ℕ) : Bool := x &&& u32 (x+(2^32-1)) = 0 && x ≠ 0

structure HashMap (K V : Type) where
  map : List (Entry K V)
  capacity : ℕ
  occupancy : ℕ
  deriving DecidableEq, Repr

namespace HashMap
variable {K V : Type}

section
variable (m : HashMap K V)

def entry (i : ℕ) : Entry K V := m.map.getD i .empty

def setEntry (i : ℕ) (e : Entry K V) : HashMap K V :=
  { m with map := m.map.set i e }

def setValue (i : ℕ) (value : Option V) : HashMap K V :=
  m.setEntry i { m.entry i with value := value }

def setOccupancy (n : ℕ) : HashMap K V := { m with occupancy := u32 n }

/-- `hash & (capacity_ - 1)`. -/
def start (hash : UInt32) : ℕ := hash.toNat &&& u32 (m.capacity+(2^32-1))

def clear : HashMap K V :=
  { m with map := m.map.map ({ · with key := none }), occupancy := 0 }

end

/-- The fresh allocation is cleared at once, so only its null keys are ever read. -/
def initializeMap (capacity : ℕ) : Option (HashMap K V) :=
  if isPowerOfTwo capacity then
    some (clear ⟨List.replicate capacity .empty,capacity,0⟩)
  else none

section Match
variable (match_ : K → K → Bool)

/-- The exit test of the loop in `Probe`. -/
def stops (m : HashMap K V) (key : K) (hash : UInt32) (p : ℕ) : Bool :=
  match (m.entry p).key with
  | none => true
  | some key' => !(hash ≠ (m.entry p).hash || !match_ key key')

def probe (m : HashMap K V) (key : K) (hash : UInt32) : Option ℕ :=
  if isPowerOfTwo m.capacity && m.start hash < m.capacity && m.occupancy < m.capacity then
    search (m.stops match_ key hash) m.capacity m.capacity (m.start hash)
  else none

/-- The loop of `Resize` over the old entries; `n` counts those still to be moved. -/
def rehash (lookup : HashMap K V → K → UInt32 → Option (HashMap K V × Option ℕ)) :
    List (Entry K V) → ℕ → HashMap K V → Option (HashMap K V)
  | _, 0, m => some m
  | [], _+1, _ => none
  | p :: ps, n+1, m =>
    match p.key with
    | none => rehash lookup ps (n+1) m
    | some key => do
      let (m,q) ← lookup m key p.hash
      let q ← q
      rehash lookup ps n (m.setValue q p.value)

def resize (lookup : HashMap K V → K → UInt32 → Option (HashMap K V × Option ℕ))
    (m : HashMap K V) : Option (HashMap K V) := do
  let m' ← initializeMap (u32 (m.capacity*2))
  rehash lookup m.map m.occupancy m'

/-- The insertion branch of `Lookup` at the vacant entry `p`. -/
def insertAt (grow : HashMap K V → Option (HashMap K V)) (m : HashMap K V) (key : K)
    (hash : UInt32) (p : ℕ) : Option (HashMap K V × Option ℕ) :=
  let m := (m.setEntry p ⟨some key,none,hash⟩).setOccupancy (m.occupancy+1)
  if u32 (m.occupancy+m.occupancy/4) ≥ m.capacity then do
    let m ← grow m
    let p ← m.probe match_ key hash
    return (m,some p)
  else some (m,some p)

/-- `Lookup`, returning the index of the entry. -/
def lookupWith (grow : HashMap K V → Option (HashMap K V)) (m : HashMap K V) (key : K)
    (hash : UInt32) (insert : Bool) : Option (HashMap K V × Option ℕ) := do
  let p ← m.probe match_ key hash
  if (m.entry p).key.isSome then return (m,some p)
  else if insert then insertAt match_ grow m key hash p
  else return (m,none)

/-- `Lookup` and `Resize` call each other; the fuel bounds how deep they nest. -/
def lookupFuel : ℕ → HashMap K V → K → UInt32 → Bool → Option (HashMap K V × Option ℕ)
  | 0 => lookupWith match_ fun _ => none
  | fuel+1 => lookupWith match_ (resize fun m key hash => lookupFuel fuel m key hash true)

/-- The capacity has 32 bits, so it cannot be doubled more often than that. -/
def lookup (m : HashMap K V) (key : K) (hash : UInt32) (insert : Bool) :
    Option (HashMap K V × Option ℕ) :=
  lookupFuel match_ 32 m key hash insert

/-- The scan of `Remove` for the entry to clear. -/
def removeLoop (m : HashMap K V) : ℕ → ℕ → ℕ → Option (HashMap K V × ℕ)
  | 0, _, _ => none
  | fuel+1, candidate, next =>
    let next := if next+1 = m.capacity then 0 else next+1
    if (m.entry next).key.isNone then some (m,candidate)
    else
      let start := m.start (m.entry next).hash
      if (next > candidate && (start ≤ candidate || start > next)) ||
          (next < candidate && (start ≤ candidate && start > next)) then
        removeLoop (m.setEntry candidate (m.entry next)) fuel next next
      else removeLoop m fuel candidate next

def remove (m : HashMap K V) (key : K) (hash : UInt32) : Option (HashMap K V) := do
  let candidate ← m.probe match_ key hash
  if (m.entry candidate).key.isNone then return m
  else if m.occupancy < m.capacity then
    let (m,candidate) ← m.removeLoop m.capacity candidate candidate
    return (m.setEntry candidate { m.entry candidate with key := none }).setOccupancy
      (m.occupancy+(2^32-1))
  else none

end Match
end HashMap

end DartSdk.PlatformHashMap
