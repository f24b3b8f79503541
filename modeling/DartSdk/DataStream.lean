import DartSdk.PlatformUtils
import DartSdk.Varint

/-! `WriteStream` appends integers and bytes to a buffer that grows by reallocation, `ReadStream`
reads them back; it is modelled by the bytes between `current_` and `end_`. -/
namespace DartSdk.DataStream

open Utils Varint

abbrev Bytes := List UInt8

def kDataBitsPerByte : ℕ := 7

def kByteMask : ℕ := 2^kDataBitsPerByte-1

def kMaxUnsignedDataPerByte : ℕ := kByteMask

def kMinDataPerByte : ℤ := -2^(kDataBitsPerByte-1)

/-- `~kMinDataPerByte & kByteMask`. -/
def kMaxDataPerByte : ℤ := Int.land (-kMinDataPerByte-1) kByteMask

def kEndByteMarker : ℕ := 255-kMaxDataPerByte.toNat

def kEndUnsignedByteMarker : ℕ := 255-kMaxUnsignedDataPerByte

section Read
variable (w : ℕ) (marker : ℕ)

/-- A left shift of a value of a type with `w` bits, which is promoted to 32 bits at least. -/
def shifted (x : BitVec w) (s : ℕ) : Option (BitVec w) :=
  if s < max w 32 then some (x <<< s) else none

/-- The loop of `Read<T>`, with the byte that was read last. -/
def readLoop : ℕ → BitVec w → UInt8 → Bytes → Option (BitVec w × Bytes)
  | _, _, _, [] => none
  | s, r, b, b' :: c => do
    let r := r ||| (← shifted w (BitVec.ofNat w b.toNat) s)
    let s := s+kDataBitsPerByte
    if b'.toNat ≤ kMaxUnsignedDataPerByte then readLoop s r b' c
    else return (r ||| (← shifted w (endData w marker b') s),c)

/-- `Read<T>`, for a signed type with `w` bits. -/
def read : Bytes → Option (BitVec w × Bytes)
  | [] => none
  | b :: c =>
    if b.toNat > kMaxUnsignedDataPerByte then some (endData w marker b,c)
    else readLoop w marker 0 0 b c

/-- The bytes after the first one, unrolled: at most `left` of them are followed by another one. -/
def readUnrolledFrom : ℕ → ℕ → BitVec w → Bytes → Option (BitVec w × Bytes)
  | _, _, _, [] => none
  | 0, s, r, b :: c =>
    if b.toNat > kMaxUnsignedDataPerByte then some (r ||| endData w marker b <<< s,c) else none
  | left+1, s, r, b :: c =>
    if b.toNat > kMaxUnsignedDataPerByte then some (r ||| endData w marker b <<< s,c)
    else readUnrolledFrom left (s+7) (r ||| BitVec.ofNat w b.toNat <<< s) c

def readUnrolled (left : ℕ) : Bytes → Option (BitVec w × Bytes)
  | [] => none
  | b :: c =>
    if b.toNat > kMaxUnsignedDataPerByte then some (endData w marker b,c)
    else readUnrolledFrom w marker left 7 (0 ||| BitVec.ofNat w b.toNat) c

end Read

def read16 : Bytes → Option (BitVec 16 × Bytes) := readUnrolled 16 kEndByteMarker 1

def read32 : Bytes → Option (BitVec 32 × Bytes) := readUnrolled 32 kEndByteMarker 3

def read64 : Bytes → Option (BitVec 64 × Bytes) := readUnrolled 64 kEndByteMarker 8

def readByte : Bytes → Option (UInt8 × Bytes)
  | [] => none
  | b :: c => some (b,c)

def readBytes (len : ℕ) (c : Bytes) : Option (Bytes × Bytes) :=
  if len ≤ c.length then some (c.take len,c.drop len) else none

def readUnsigned (a : Arch) : Bytes → Option (BitVec (kBitsPerWord a) × Bytes) :=
  read (kBitsPerWord a) kEndUnsignedByteMarker

def toUint8 (x : ℤ) : UInt8 := UInt8.ofNat (x%2^8).toNat

/-- A function for reallocation keeps the bytes and provides memory of the new size. -/
structure ReAlloc where
  run : Bytes → ℕ → Bytes
  length_run {old : Bytes} {n : ℕ} : old.length ≤ n → (run old n).length = n
  take_run {old : Bytes} {n : ℕ} : old.length ≤ n → (run old n).take old.length = old

/-- The buffer has `current_size_` bytes, and `current_` is a position in it. -/
structure WriteStream where
  buffer : Bytes
  current : ℕ
  initialSize : ℕ
  current_le : current ≤ buffer.length
  nonempty : 0 < buffer.length
  power : ∃ e, initialSize = 2^e

namespace WriteStream

def written (st : WriteStream) : Bytes := st.buffer.take st.current

variable (alloc : ReAlloc)

def new (e : ℕ) : WriteStream where
  buffer := alloc.run [] (2^e)
  current := 0
  initialSize := 2^e
  current_le := Nat.zero_le _
  nonempty := by rw [alloc.length_run (Nat.zero_le _)]; positivity
  power := ⟨e,rfl⟩

section
variable (st : WriteStream)

def incrementSize (sizeNeeded : ℕ) : Option ℕ :=
  if sizeNeeded > st.buffer.length then roundUp sizeNeeded st.initialSize
  else some st.buffer.length

/-- `Resize`, with the assertion that the size grows. -/
def resize (sizeNeeded : ℕ) : Option WriteStream := do
  let incrementSize ← st.incrementSize sizeNeeded
  if 0 < incrementSize then
    return { st with
      buffer := alloc.run st.buffer (st.buffer.length+incrementSize)
      current_le := by
        rw [alloc.length_run (Nat.le_add_right _ _)]
        exact st.current_le.trans (Nat.le_add_right _ _)
      nonempty := by
        rw [alloc.length_run (Nat.le_add_right _ _)]
        exact st.nonempty.trans_le (Nat.le_add_right _ _) }
  else none

/-- The state in which at least `len` bytes are free. -/
def reserve (len : ℕ) : Option WriteStream :=
  if st.buffer.length-st.current < len then st.resize alloc len else some st

def put (bytes : Bytes) : Option WriteStream :=
  if h : st.current+bytes.length ≤ st.buffer.length then
    have hlen : (st.buffer.take st.current ++ bytes ++
        st.buffer.drop (st.current+bytes.length)).length = st.buffer.length := by
      simp only [List.length_append,List.length_take,List.length_drop]
      omega
    some { st with
      buffer := st.buffer.take st.current ++ bytes ++ st.buffer.drop (st.current+bytes.length)
      current := st.current+bytes.length
      current_le := by rw [hlen]; exact h
      nonempty := by rw [hlen]; exact st.nonempty }
  else none

def writeBytes (bytes : Bytes) : Option WriteStream := do
  let st ← st.reserve alloc bytes.length
  st.put bytes

/-- `WriteByte`; the test `current_ >= end_` is that no byte is free. -/
def writeByte (value : UInt8) : Option WriteStream := do
  let st ← st.reserve alloc 1
  st.put [value]

end

/-- `Write<T>` for a value of type `T`; the loop ends long before the fuel does. -/
def write : ℕ → ℤ → WriteStream → Option WriteStream
  | 0, _, _ => none
  | fuel+1, v, st =>
    if v < kMinDataPerByte ∨ v > kMaxDataPerByte then do
      let st ← st.writeByte alloc (toUint8 (v%2^kDataBitsPerByte))
      write fuel (v >>> kDataBitsPerByte) st
    else st.writeByte alloc (toUint8 (v+kEndByteMarker))

def writeUnsigned : ℕ → ℕ → WriteStream → Option WriteStream
  | 0, _, _ => none
  | fuel+1, value, st =>
    if value > kMaxUnsignedDataPerByte then do
      let st ← st.writeByte alloc (toUint8 (value%2^kDataBitsPerByte))
      writeUnsigned fuel (value >>> kDataBitsPerByte) st
    else st.writeByte alloc (toUint8 (value+kEndUnsignedByteMarker))

end WriteStream

/-- A value that is written; the words of `WriteUnsigned` are not negative. -/
inductive Item (a : Arch)
  | raw8 (value : BitVec 8)
  | raw16 (value : BitVec 16)
  | raw32 (value : BitVec 32)
  | raw64 (value : BitVec 64)
  | unsigned (value : BitVec (kBitsPerWord a)) (nonneg : value.msb = false)
  | bytes (value : Bytes)

/-- What is read: the kind of a value, and the number of bytes for `ReadBytes`. -/
inductive Kind
  | raw8
  | raw16
  | raw32
  | raw64
  | unsigned
  | bytes (len : ℕ)

inductive Value (a : Arch)
  | raw8 (value : BitVec 8)
  | raw16 (value : BitVec 16)
  | raw32 (value : BitVec 32)
  | raw64 (value : BitVec 64)
  | unsigned (value : BitVec (kBitsPerWord a))
  | bytes (value : Bytes)

section Sequences
variable {a : Arch} (alloc : ReAlloc)

def Item.kind : Item a → Kind
  | .raw8 _ => .raw8
  | .raw16 _ => .raw16
  | .raw32 _ => .raw32
  | .raw64 _ => .raw64
  | .unsigned _ _ => .unsigned
  | .bytes value => .bytes value.length

def Item.value : Item a → Value a
  | .raw8 value => .raw8 value
  | .raw16 value => .raw16 value
  | .raw32 value => .raw32 value
  | .raw64 value => .raw64 value
  | .unsigned value _ => .unsigned value
  | .bytes value => .bytes value

/-- `Raw<N, T>::Write`, `WriteUnsigned` and `WriteBytes`. -/
def writeItem (st : WriteStream) : Item a → Option WriteStream
  | .raw8 value => st.writeByte alloc (toUint8 value.toInt)
  | .raw16 value => st.write alloc 16 value.toInt
  | .raw32 value => st.write alloc 32 value.toInt
  | .raw64 value => st.write alloc 64 value.toInt
  | .unsigned value _ => st.writeUnsigned alloc (kBitsPerWord a) value.toNat
  | .bytes value => st.writeBytes alloc value

/-- `Raw<N, T>::Read`, `ReadUnsigned` and `ReadBytes`. -/
def readKind (a : Arch) (c : Bytes) : Kind → Option (Value a × Bytes)
  | .raw8 => (readByte c).map fun x => (.raw8 x.1.toBitVec,x.2)
  | .raw16 => (read16 c).map fun x => (.raw16 x.1,x.2)
  | .raw32 => (read32 c).map fun x => (.raw32 x.1,x.2)
  | .raw64 => (read64 c).map fun x => (.raw64 x.1,x.2)
  | .unsigned => (readUnsigned a c).map fun x => (.unsigned x.1,x.2)
  | .bytes len => (readBytes len c).map fun x => (.bytes x.1,x.2)

def writeAll (st : WriteStream) (items : List (Item a)) : Option WriteStream :=
  items.foldlM (writeItem alloc) st

def readAll (a : Arch) : List Kind → Bytes → Option (List (Value a) × Bytes)
  | [], c => some ([],c)
  | k :: ks, c => do
    let (v,c) ← readKind a c k
    let (vs,c) ← readAll a ks c
    return (v :: vs,c)

end Sequences

end DartSdk.DataStream
