import DartSdk.DataStream
import DartSdk.Iteration

/-! Every write appends a sequence that encodes its value, also when the buffer is reallocated in
the middle. The unrolled readers and the loop decode it. -/
namespace DartSdk.DataStream

open Utils Varint List

section Readers
variable {w marker : ℕ} {v : ℤ} {l : Bytes}

@[simp] lemma kDataBitsPerByte_eq : kDataBitsPerByte = 7 := rfl

@[simp] lemma kMaxUnsignedDataPerByte_eq : kMaxUnsignedDataPerByte = 127 := rfl

@[simp] lemma kEndByteMarker_eq : kEndByteMarker = 192 := by decide

@[simp] lemma kEndUnsignedByteMarker_eq : kEndUnsignedByteMarker = 128 := rfl

lemma shifted_eq {x : BitVec w} {s : ℕ} (hs : s < max w 32) : shifted w x s = some (x <<< s) :=
  if_pos hs

variable (h : Encodes marker v l)
include h

lemma readLoop_eq_decode (rest : Bytes) : ∀ {s : ℕ} {r : BitVec w} {b : UInt8}, s+7*l.length <
      max w 32 → readLoop w marker s r b (l ++ rest) =
      decode w marker (s+7) (r ||| BitVec.ofNat w b.toNat <<< s) (l ++ rest) := by
  induction h with
  | @last b' hb =>
    intro s r b hs
    rw [length_singleton] at hs
    rw [singleton_append,readLoop,decode,if_pos hb,shifted_eq (by omega)]
    simp only [kMaxUnsignedDataPerByte_eq,kDataBitsPerByte_eq,
      if_neg (by omega : ¬ b'.toNat ≤ 127),shifted_eq (by omega)]
    rfl
  | @more b' v l hb h ih =>
    intro s r b hs
    rw [length_cons] at hs
    rw [cons_append,readLoop,decode,if_neg (by omega),shifted_eq (by omega)]
    simp only [kMaxUnsignedDataPerByte_eq,kDataBitsPerByte_eq,hb]
    exact ih (by omega)

lemma readUnrolledFrom_eq_decode (rest : Bytes) : ∀ {left s : ℕ} {r : BitVec w}, l.length ≤ left+1 →
      readUnrolledFrom w marker left s r (l ++ rest) = decode w marker s r (l ++ rest) := by
  induction h with
  | last hb =>
    intro left s r _
    rw [singleton_append,decode,if_pos hb]
    cases left <;> rw [readUnrolledFrom,if_pos (by simpa using hb)]
  | @more b v l hb h ih =>
    intro left s r hl
    have hpos := h.length_pos
    rw [length_cons] at hl
    obtain ⟨left,rfl⟩ := exists_fuel left
    rw [cons_append,readUnrolledFrom,decode,if_neg (by simpa using hb),if_neg (by omega)]
    exact ih (by omega)

omit h in
lemma first_byte {b : UInt8} (c : Bytes) (hb : 127 < b.toNat) :
    some (endData w marker b,c) = decode w marker 0 0 (b :: c) := by
  simp [decode,hb]

lemma decode_start (rest : Bytes) :
    decode w marker 0 0 (l ++ rest) = some (BitVec.ofInt w v,rest) := by
  simpa using h.decode rest (s := 0) (u := 0) (by norm_num)

lemma read_spec (rest : Bytes) (hl : 7*(l.length-1) < max w 32) :
    read w marker (l ++ rest) = some (BitVec.ofInt w v,rest) := by
  rw [← decode_start h rest]
  cases h with
  | last hb =>
    rw [singleton_append,read,if_pos (by simpa using hb),first_byte rest hb]
  | more hb h =>
    rw [length_cons] at hl
    rw [cons_append,read,if_neg (by simpa using hb),decode,if_neg (by omega),
      readLoop_eq_decode h rest (by omega)]

lemma readUnrolled_spec (rest : Bytes) {left : ℕ} (hl : l.length ≤ left+2) :
    readUnrolled w marker left (l ++ rest) = some (BitVec.ofInt w v,rest) := by
  rw [← decode_start h rest]
  cases h with
  | last hb =>
    rw [singleton_append,readUnrolled,if_pos (by simpa using hb),first_byte rest hb]
  | more hb h =>
    rw [length_cons] at hl
    rw [cons_append,readUnrolled,if_neg (by simpa using hb),decode,if_neg (by omega),
      readUnrolledFrom_eq_decode h rest (by omega),BitVec.shiftLeft_zero]

end Readers

namespace WriteStream

variable (alloc : ReAlloc) (st : WriteStream)

lemma put_spec {bytes : Bytes} (h : st.current+bytes.length ≤ st.buffer.length) :
    ∃ st', st.put bytes = some st' ∧ st'.written = st.written ++ bytes := by
  refine ⟨_,dif_pos h,?_⟩
  have hlen : (st.buffer.take st.current ++ bytes).length = st.current+bytes.length := by
    rw [length_append,length_take,Nat.min_eq_left st.current_le]
  change take (st.current+bytes.length) (st.buffer.take st.current ++ bytes ++ _) = _
  rw [← hlen,take_left,written]

lemma reserve_spec (len : ℕ) : ∃ st', st.reserve alloc len = some st' ∧
      st'.written = st.written ∧ st'.current+len ≤ st'.buffer.length := by
  have hcur := st.current_le
  have hpos := st.nonempty
  unfold reserve
  by_cases hfree : st.buffer.length-st.current < len
  · obtain ⟨e,he⟩ := st.power
    have hinc : ∃ n, st.incrementSize len = some n ∧ 0 < n ∧ len ≤ n := by
      unfold incrementSize
      by_cases hlen : len > st.buffer.length
      · obtain ⟨n,hn,hle⟩ := roundUp_spec len e
        exact ⟨n,by rw [if_pos hlen,he,hn],by omega,hle⟩
      · exact ⟨_,if_neg hlen,hpos,by omega⟩
    obtain ⟨n,hn,hn0,hle⟩ := hinc
    rw [if_pos hfree]
    unfold resize
    rw [hn]
    simp only [some_bind,if_pos hn0]
    refine ⟨_,rfl,?_,?_⟩
    · change (alloc.run st.buffer (st.buffer.length+n)).take st.current = st.buffer.take st.current
      conv_rhs => rw [← alloc.take_run (Nat.le_add_right st.buffer.length n)]
      rw [take_take,Nat.min_eq_left hcur]
    · simp only [alloc.length_run (Nat.le_add_right _ n)]
      omega
  · exact ⟨st,if_neg hfree,rfl,by omega⟩

lemma writeBytes_spec (bytes : Bytes) :
    ∃ st', st.writeBytes alloc bytes = some st' ∧ st'.written = st.written ++ bytes := by
  obtain ⟨st₁,h₁,hw₁,hlen⟩ := st.reserve_spec alloc bytes.length
  obtain ⟨st₂,h₂,hw₂⟩ := st₁.put_spec hlen
  exact ⟨st₂,by simp [writeBytes,h₁,h₂],by rw [hw₂,hw₁]⟩

lemma writeByte_spec (value : UInt8) :
    ∃ st', st.writeByte alloc value = some st' ∧ st'.written = st.written ++ [value] :=
  st.writeBytes_spec alloc [value]

lemma toUint8_toNat {x : ℤ} (h : 0 ≤ x ∧ x < 256) : ((toUint8 x).toNat : ℤ) = x := by
  unfold toUint8
  rw [UInt8.toNat_ofNat']
  omega

/-- What a call of a writer appends: a sequence of at most `n` bytes that encodes the value. -/
def Appends (result : Option WriteStream) (marker : ℕ) (v : ℤ) (n : ℕ) : Prop :=
  ∃ st' l, result = some st' ∧ st'.written = st.written ++ l ∧ Encodes marker v l ∧ l.length ≤ n

lemma appends_last {marker : ℕ} {v : ℤ} {n : ℕ} (hlo : 127 < v+marker) (hhi : v+marker < 256) :
    Appends st (st.writeByte alloc (toUint8 (v+marker))) marker v (n+1) := by
  obtain ⟨st',h,hw⟩ := st.writeByte_spec alloc (toUint8 (v+marker))
  have hbyte := toUint8_toNat ⟨by omega,hhi⟩
  refine ⟨st',_,h,hw,?_,by simp⟩
  have henc : Encodes marker _ _ := Encodes.last (b := toUint8 (v+marker)) (by omega)
  rwa [hbyte,add_sub_cancel_right] at henc

lemma appends_more {marker : ℕ} {v : ℤ} {n : ℕ} {next : WriteStream → Option WriteStream}
    (h : ∀ st, Appends st (next st) marker (v/2^7) n) :
    Appends st ((st.writeByte alloc (toUint8 (v%2^7))).bind next) marker v (n+1) := by
  obtain ⟨st₁,h₁,hw₁⟩ := st.writeByte_spec alloc (toUint8 (v%2^7))
  obtain ⟨st₂,l,h₂,hw₂,henc,hlen⟩ := h st₁
  have hbyte := toUint8_toNat (x := v%2^7) ⟨by omega,by omega⟩
  refine ⟨st₂,toUint8 (v%2^7) :: l,by rw [h₁,Option.bind_some,h₂],
    by rw [hw₂,hw₁,append_assoc]; rfl,?_,by simpa using hlen⟩
  have hmore := Encodes.more (b := toUint8 (v%2^7)) (by omega) henc
  rwa [hbyte,Int.emod_add_ediv_mul] at hmore

/-- Seven bits are taken from the value until the rest fits in the last byte. -/
lemma write_spec (n : ℕ) : ∀ {fuel : ℕ} {v : ℤ} (st : WriteStream), n < fuel →
    -2^(7*n+6) ≤ v → v < 2^(7*n+6) → Appends st (st.write alloc fuel v) kEndByteMarker v (n+1) := by
  have hmin : kMinDataPerByte = -64 := rfl
  have hmax : kMaxDataPerByte = 63 := by decide
  induction n with
  | zero =>
    intro fuel v st hf hlo hhi
    obtain ⟨fuel,rfl⟩ := exists_fuel fuel
    rw [write,if_neg (by omega)]
    exact appends_last alloc st (by rw [kEndByteMarker_eq]; omega) (by rw [kEndByteMarker_eq]; omega)
  | succ n ih =>
    intro fuel v st hf hlo hhi
    obtain ⟨fuel,rfl⟩ := exists_fuel fuel
    rw [write]
    by_cases hmore : v < kMinDataPerByte ∨ v > kMaxDataPerByte
    · rw [if_pos hmore]
      have hshift : v >>> kDataBitsPerByte = v/2^7 := Int.shiftRight_eq_div_pow v 7
      have hpow : (2 : ℤ)^(7*(n+1)+6) = 2^(7*n+6)*2^7 := by
        rw [← pow_add]
        congr 1
      rw [hshift]
      exact appends_more alloc st fun st => ih st (by omega) (by omega) (by omega)
    · rw [if_neg hmore]
      exact appends_last alloc st (by rw [kEndByteMarker_eq]; omega)
        (by rw [kEndByteMarker_eq]; omega)

lemma writeUnsigned_spec (n : ℕ) : ∀ {fuel v : ℕ} (st : WriteStream), n < fuel → v < 2^(7*n+7) →
    Appends st (st.writeUnsigned alloc fuel v) kEndUnsignedByteMarker v (n+1) := by
  induction n with
  | zero =>
    intro fuel v st hf hhi
    obtain ⟨fuel,rfl⟩ := exists_fuel fuel
    rw [writeUnsigned,if_neg (by rw [kMaxUnsignedDataPerByte_eq]; omega)]
    exact appends_last alloc st (by rw [kEndUnsignedByteMarker_eq]; omega)
      (by rw [kEndUnsignedByteMarker_eq]; omega)
  | succ n ih =>
    intro fuel v st hf hhi
    obtain ⟨fuel,rfl⟩ := exists_fuel fuel
    rw [writeUnsigned]
    by_cases hmore : v > kMaxUnsignedDataPerByte
    · rw [if_pos hmore]
      have hshift : v >>> kDataBitsPerByte = v/2^7 := Nat.shiftRight_eq_div_pow v 7
      have hpow : 2^(7*(n+1)+7) = 2^(7*n+7)*2^7 := by
        rw [← pow_add]
        congr 1
      rw [hshift]
      refine appends_more alloc st fun st => ?_
      have h := ih (v := v/2^7) st (by omega : n < fuel) (by omega)
      exact_mod_cast h
    · rw [if_neg hmore]
      rw [kMaxUnsignedDataPerByte_eq] at hmore
      exact appends_last alloc st (by rw [kEndUnsignedByteMarker_eq]; omega)
        (by rw [kEndUnsignedByteMarker_eq]; omega)

end WriteStream

section Values
variable {a : Arch} (alloc : ReAlloc)

/-- A signed number of `w` bits needs at most `n + 1` bytes, and all readers give it back. -/
lemma signed_round_trip {w n left : ℕ} (hn : w ≤ 7*n+7 ∧ 7*n < max w 32 ∧ n < w)
    (hleft : left+1 = n) (value : BitVec w) (st : WriteStream) :
    ∃ st' l, st.write alloc w value.toInt = some st' ∧ st'.written = st.written ++ l ∧
      (∀ rest, readUnrolled w kEndByteMarker left (l ++ rest) = some (value,rest)) ∧
      ∀ rest, readUnrolled w kEndByteMarker left (l ++ rest) = read w kEndByteMarker (l ++ rest) := by
  have hlo := value.le_toInt
  have hhi := value.toInt_lt
  have hpow : (2 : ℤ)^(w-1) ≤ 2^(7*n+6) := pow_le_pow_right₀ (by norm_num) (by omega)
  obtain ⟨st',l,h,hw',henc,hlen⟩ := WriteStream.write_spec alloc n st hn.2.2
    (by omega : -2^(7*n+6) ≤ value.toInt) (by omega)
  refine ⟨st',l,h,hw',fun rest => ?_,fun rest => ?_⟩
  · rw [readUnrolled_spec henc rest (by omega),BitVec.ofInt_toInt]
  · rw [readUnrolled_spec henc rest (by omega),read_spec henc rest (by omega)]

lemma unsigned_round_trip (value : BitVec (kBitsPerWord a)) (nonneg : value.msb = false)
    (st : WriteStream) : ∃ st' l, st.writeUnsigned alloc (kBitsPerWord a) value.toNat = some st' ∧
      st'.written = st.written ++ l ∧ ∀ rest, readUnsigned a (l ++ rest) = some (value,rest) := by
  have hlt : value.toNat < 2^(kBitsPerWord a-1) := by
    have hmsb := BitVec.msb_eq_false_iff_two_mul_lt.mp nonneg
    have hdouble : 2^kBitsPerWord a = 2*2^(kBitsPerWord a-1) := by cases a <;> rfl
    omega
  have hn : ∃ n, kBitsPerWord a ≤ 7*n+8 ∧ 7*n < kBitsPerWord a := by
    cases a
    · exact ⟨4,by decide⟩
    · exact ⟨8,by decide⟩
  obtain ⟨n,hbits,hshift⟩ := hn
  have hpow : 2^(kBitsPerWord a-1) ≤ 2^(7*n+7) :=
    Nat.pow_le_pow_right (by norm_num) (by omega)
  obtain ⟨st',l,h,hw',henc,hlen⟩ := WriteStream.writeUnsigned_spec alloc n st
    (by omega : n < kBitsPerWord a) (by omega : value.toNat < _)
  refine ⟨st',l,h,hw',fun rest => ?_⟩
  rw [readUnsigned,read_spec henc rest (by omega),BitVec.ofInt_natCast,BitVec.ofNat_toNat,
    BitVec.setWidth_eq]

/-- An unrolled reader and the loop return the same value and consume the same bytes. -/
def UnrolledAgrees (l : Bytes) : Item a → Prop
  | .raw16 _ => ∀ rest, read16 (l ++ rest) = read 16 kEndByteMarker (l ++ rest)
  | .raw32 _ => ∀ rest, read32 (l ++ rest) = read 32 kEndByteMarker (l ++ rest)
  | .raw64 _ => ∀ rest, read64 (l ++ rest) = read 64 kEndByteMarker (l ++ rest)
  | _ => True

lemma writeItem_spec (st : WriteStream) (item : Item a) :
    ∃ st' l, writeItem alloc st item = some st' ∧ st'.written = st.written ++ l ∧
      (∀ rest, readKind a (l ++ rest) item.kind = some (item.value,rest)) ∧
      UnrolledAgrees l item := by
  cases item with
  | raw8 value =>
    obtain ⟨st',h,hw⟩ := st.writeByte_spec alloc (toUint8 value.toInt)
    refine ⟨st',_,h,hw,fun rest => ?_,trivial⟩
    have hbits : (toUint8 value.toInt).toBitVec = value := by
      conv_rhs => rw [← BitVec.ofInt_toInt (x := value)]
      refine BitVec.eq_of_toNat_eq ?_
      rw [UInt8.toNat_toBitVec,BitVec.toNat_ofInt,toUint8,UInt8.toNat_ofNat']
      omega
    simp [Item.kind,readKind,readByte,Item.value,hbits]
  | raw16 value =>
    obtain ⟨st',l,h,hw,hread,hagree⟩ := signed_round_trip alloc (n := 2) (by decide) rfl value st
    refine ⟨st',l,h,hw,fun rest => ?_,hagree⟩
    simp only [readKind,read16,hread]
    rfl
  | raw32 value =>
    obtain ⟨st',l,h,hw,hread,hagree⟩ := signed_round_trip alloc (n := 4) (by decide) rfl value st
    refine ⟨st',l,h,hw,fun rest => ?_,hagree⟩
    simp only [readKind,read32,hread]
    rfl
  | raw64 value =>
    obtain ⟨st',l,h,hw,hread,hagree⟩ := signed_round_trip alloc (n := 9) (by decide) rfl value st
    refine ⟨st',l,h,hw,fun rest => ?_,hagree⟩
    simp only [readKind,read64,hread]
    rfl
  | unsigned value nonneg =>
    obtain ⟨st',l,h,hw,hread⟩ := unsigned_round_trip alloc value nonneg st
    refine ⟨st',l,h,hw,fun rest => ?_,trivial⟩
    simp only [readKind,hread rest]
    rfl
  | bytes value =>
    obtain ⟨st',h,hw⟩ := st.writeBytes_spec alloc value
    refine ⟨st',value,h,hw,fun rest => ?_,trivial⟩
    simp [Item.kind,readKind,readBytes,Item.value]

lemma writeAll_spec (items : List (Item a)) : ∀ st : WriteStream,
    ∃ st' l, writeAll alloc st items = some st' ∧ st'.written = st.written ++ l ∧
      ∀ rest, readAll a (items.map Item.kind) (l ++ rest) = some (items.map Item.value,rest) := by
  induction items with
  | nil => exact fun st => ⟨st,[],rfl,(append_nil _).symm,fun rest => rfl⟩
  | cons item items ih =>
    intro st
    obtain ⟨st₁,l₁,h₁,hw₁,hread₁, -⟩ := writeItem_spec alloc st item
    obtain ⟨st₂,l₂,h₂,hw₂,hread₂⟩ := ih st₁
    refine ⟨st₂,l₁ ++ l₂,?_,by rw [hw₂,hw₁,append_assoc],fun rest => ?_⟩
    · rw [writeAll,foldlM_cons,h₁]
      exact h₂
    · rw [map_cons,append_assoc,readAll,hread₁]
      simp only [some_bind,hread₂]
      rfl

/-- Reading with the same kinds over the written bytes yields the written values and ends at the
end, and on every sequence that is written the unrolled readers agree with the loop. -/
theorem stream_round_trip (e : ℕ) (items : List (Item a)) :
    (∃ st, writeAll alloc (WriteStream.new alloc e) items = some st ∧
      readAll a (items.map Item.kind) st.written = some (items.map Item.value,[])) ∧
    ∀ (st : WriteStream) (item : Item a), ∃ st' l, writeItem alloc st item = some st' ∧
      st'.written = st.written ++ l ∧ UnrolledAgrees l item := by
  constructor
  · obtain ⟨st,l,h,hw,hread⟩ := writeAll_spec alloc items (WriteStream.new alloc e)
    refine ⟨st,h,?_⟩
    have hl : st.written = l ++ [] := by rw [hw,List.append_nil]; rfl
    rw [hl,hread]
  · intro st item
    obtain ⟨st',l,h,hw, -,hagree⟩ := writeItem_spec alloc st item
    exact ⟨st',l,h,hw,hagree⟩

end Values

end DartSdk.DataStream
