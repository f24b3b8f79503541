import DartSdk.LinearProbing

/-! `vm/port.cc` keeps the open ports of all isolates in one open-addressing table. Closed ports
leave deleted slots behind; `MaintainInvariants` rehashes when the table is too full or holds more
deleted than free slots. `none` is a failed `ASSERT`, a loop that does not end, or a read outside of
the table. -/
namespace DartSdk.PortMap
open LinearProbing

inductive PortState
  | newPort
  | livePort
  | controlPort
  deriving DecidableEq, Repr

/-- The handler field of a slot: `NULL`, `deleted_entry_` or a message handler. -/
inductive HandlerRef (H : Type)
  | null
  | deletedEntry
  | handler (h : H)
  deriving DecidableEq, Repr

structure Entry (H : Type) where
  port : ℤ
  handler : HandlerRef H
  state : PortState
  deriving DecidableEq, Repr

def Entry.free {H : Type} : Entry H := ⟨0,.null,.newPort⟩

def Entry.setState {H : Type} (e : Entry H) (state : PortState) : Entry H := { e with state := state }

def Entry.delete {H : Type} (e : Entry H) : Entry H := { e with port := 0, handler := .deletedEntry }

def slot {H : Type} (map : List (Entry H)) (i : ℕ) : Entry H := map.getD i .free

/-- The static state, together with the live-port count of every handler. -/
structure Ports (H : Type) where
  map : List (Entry H)
  capacity : ℕ
  used : ℤ
  deleted : ℤ
  livePorts : H → ℤ

namespace Ports
variable {H : Type} [DecidableEq H] (s : Ports H)

def entry (i : ℕ) : Entry H := slot s.map i

def setEntry (i : ℕ) (e : Entry H) : Ports H := { s with map := s.map.set i e }

/-- Store an entry in an unused slot, which may be a deleted one. -/
def occupy (index : ℕ) (e : Entry H) : Ports H :=
  { s.setEntry index e with
    used := s.used+1
    deleted := if (s.entry index).handler = .deletedEntry then s.deleted-1 else s.deleted }

/-- Turn the slot of a port of `h` into a deleted one and settle the counters. -/
def markDeleted (index : ℕ) (h : H) : Ports H :=
  { s.setEntry index (s.entry index).delete with
    used := s.used-1
    deleted := s.deleted+1
    livePorts :=
      if (s.entry index).state = .livePort then Function.update s.livePorts h (s.livePorts h-1)
      else s.livePorts }

/-- `port % capacity` as an index. The remainder has the sign of `port`. -/
def slotIndex (port : ℤ) (capacity : ℕ) : Option ℕ :=
  let index := port.tmod capacity
  if index < 0 then none else some index.toNat

/-- The loop exit of `FindPort`: a free slot or the port itself. -/
def findStops (port : ℤ) (i : ℕ) : Bool :=
  (s.entry i).handler = .null || (s.entry i).port = port

/-- `FindPort`; the answer `-1` is `some none`. -/
def findPort (port : ℤ) : Option (Option ℕ) :=
  if port = 0 then some none
  else do
    let start ← slotIndex port s.capacity
    let i ← search (s.findStops port) s.capacity s.capacity start
    return if (s.entry i).handler = .null then none else some i

/-- First slot without a port from the home of `port` on. -/
def findUnused (map : List (Entry H)) (capacity : ℕ) (port : ℤ) : Option ℕ := do
  let start ← slotIndex port capacity
  search (fun i => (slot map i).port = 0) capacity capacity start

/-- The loop of `Rehash` over the old slots; free and deleted slots are skipped. -/
def rehashLoop (newCapacity : ℕ) : List (Entry H) → List (Entry H) → Option (List (Entry H))
  | [], newPorts => some newPorts
  | e :: es, newPorts =>
    if e.port = 0 then rehashLoop newCapacity es newPorts
    else do
      let i ← findUnused newPorts newCapacity e.port
      rehashLoop newCapacity es (newPorts.set i e)

def rehash (newCapacity : ℕ) : Option (Ports H) := do
  let newPorts ← rehashLoop newCapacity s.map (List.replicate newCapacity .free)
  return { s with map := newPorts, capacity := newCapacity, deleted := 0 }

def maintainInvariants : Option (Ports H) :=
  let empty := s.capacity-s.used-s.deleted
  if s.used > (s.capacity/4 : ℕ)*3 then s.rehash (s.capacity*2)
  else if empty < s.deleted then s.rehash s.capacity
  else some s

def kMask : UInt32 := 0x3fffffff

/-- `AllocatePort`, given the numbers that the generator draws during the call. -/
def allocatePort (s : Ports H) : List UInt32 → Option ℤ
  | [] => none
  | draw :: draws => do
    let result : ℤ := (draw &&& kMask).toNat
    if result = 0 then allocatePort s draws
    else
      let found ← s.findPort result
      if found.isSome then allocatePort s draws else return result

def createPort (handler : H) (draws : List UInt32) : Option (Ports H × ℤ) := do
  let port ← s.allocatePort draws
  let index ← findUnused s.map s.capacity port
  let s ← maintainInvariants (s.occupy index ⟨port,.handler handler,.newPort⟩)
  return (s,port)

def setPortState (port : ℤ) (state : PortState) : Option (Ports H) := do
  let found ← s.findPort port
  let index ← found
  if (s.entry index).state = .newPort then
    let s' := s.setEntry index ((s.entry index).setState state)
    if state = .livePort then
      match (s.entry index).handler with
      | .handler h =>
        return { s' with livePorts := Function.update s.livePorts h (s.livePorts h+1) }
      | _ => none
    else return s'
  else none

def closePort (port : ℤ) : Option (Ports H × Bool) := do
  let found ← s.findPort port
  match found with
  | none => return (s,false)
  | some index =>
    match (s.entry index).handler with
    | .handler h =>
      if (s.entry index).port = 0 then none
      else
        let s ← maintainInvariants (s.markDeleted index h)
        return (s,true)
    | _ => none

def closePorts (handler : H) : Option (Ports H) :=
  maintainInvariants <| (List.range s.capacity).foldl (fun s i =>
    if (s.entry i).handler = .handler handler then s.markDeleted i handler else s) s

/-- `PostMessage`, `IsLocalPort` and `GetIsolate` all start by finding the handler. -/
def findHandler (port : ℤ) : Option (Option H) := do
  let found ← s.findPort port
  match found with
  | none => return none
  | some index =>
    match (s.entry index).handler with
    | .handler h => return some h
    | _ => none

/-- `InitOnce`. Handlers may exist before: `live` is what they count so far. -/
def initOnce (live : H → ℤ) : Ports H := ⟨List.replicate 8 .free,8,0,0,live⟩

end Ports
end DartSdk.PortMap
