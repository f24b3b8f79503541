import DartSdk.WebSocket
import DartSdk.Iteration

/-! A buffer is read like its bytes one at a time, and the bytes of one frame act on the message
that is being collected. -/
namespace DartSdk.WebSocket

open List Nat
open Outcome (ok_bind bind_eq_ok)

variable {m : MaskingBytes} {i j n : ℕ} {bs data : List UInt8}

lemma map_eq_ok {α β : Type} {x : Except Failure α} {f : α → β} {b : β} (h : x.map f = .ok b) :
    ∃ a, x = .ok a ∧ f a = b := by
  cases x with
  | error e => cases h
  | ok a => exact ⟨a,rfl,Except.ok.inj h⟩

lemma unmaskLoop_append (as bs : List UInt8) :
    unmaskLoop m i (as ++ bs) = unmaskLoop m i as ++ unmaskLoop m (i+as.length) bs := by
  induction as generalizing i with
  | nil => rfl
  | cons a as ih => simp [unmaskLoop,ih,add_assoc,add_comm 1]

lemma unmaskLoop_congr {m' : MaskingBytes} (hm : ∀ k < 4, m k = m' k) (hij : i%4 = j%4) :
    unmaskLoop m i bs = unmaskLoop m' j bs := by
  induction bs generalizing i j with
  | nil => rfl
  | cons b bs ih =>
    have hnext : (i+1)%4 = (j+1)%4 := by omega
    rw [unmaskLoop,unmaskLoop,hij,hm _ (mod_lt _ (by decide)),ih hnext]

lemma unmaskLoop_involutive : unmaskLoop m i (unmaskLoop m i bs) = bs := by
  induction bs generalizing i with
  | nil => rfl
  | cons b bs ih => simp [unmaskLoop,ih]

@[simp] lemma length_unmaskLoop : (unmaskLoop m i bs).length = bs.length := by
  induction bs generalizing i with
  | nil => rfl
  | cons b bs ih => simp [unmaskLoop,ih]

lemma maskWord_byte (m : MaskingBytes) (i : ℕ) : UInt8.ofNat (maskWord m i) = m (i%4) ∧
      UInt8.ofNat (maskWord m i >>> 8) = m ((i+1)%4) ∧ UInt8.ofNat (maskWord m i >>> 16) =
      m ((i+2)%4) ∧ UInt8.ofNat (maskWord m i >>> 24) = m ((i+3)%4) := by
  have h0 := (m (i%4)).toNat_lt
  have h1 := (m ((i+1)%4)).toNat_lt
  have h2 := (m ((i+2)%4)).toNat_lt
  have h3 := (m ((i+3)%4)).toNat_lt
  have hword : maskWord m i = (((m ((i+3)%4)).toNat*256+(m ((i+2)%4)).toNat)*256 +
      (m ((i+1)%4)).toNat)*256+(m (i%4)).toNat := by
    simp only [maskWord,foldl_cons,foldl_nil,zero_shiftLeft,zero_or,add_zero]
    rw [← shiftLeft_add_eq_or_of_lt h2,← shiftLeft_add_eq_or_of_lt h1,
      ← shiftLeft_add_eq_or_of_lt h0]
    simp [shiftLeft_eq]
  simp only [← UInt8.toNat_inj,UInt8.toNat_ofNat']
  omega

lemma xorLanes_eq (h : 4 ∣ bs.length) : xorLanes (maskWord m i) bs = unmaskLoop m i bs := by
  induction bs using xorLanes.induct with
  | case1 a b c d rest ih =>
    obtain ⟨h0,h1,h2,h3⟩ := maskWord_byte m i
    have hrest : unmaskLoop m (i+4) rest = unmaskLoop m i rest :=
      unmaskLoop_congr (fun _ _ => rfl) (by omega)
    rw [xorLanes,ih (by simp at h; omega),h0,h1,h2,h3]
    simp [unmaskLoop,hrest]
  | case2 rest hrest =>
    have hnil : rest = [] := by
      match rest, hrest, h with
      | [], _, _ => rfl
      | [_], _, h | [_,_], _, h | [_,_,_], _, h => simp at h
      | a :: b :: c :: d :: rest, hrest, _ => exact absurd rfl (hrest a b c d rest)
    subst hnil
    rfl

lemma unmaskBlocks_eq : unmaskBlocks m i data = unmaskLoop m i data := by
  have htake : (data.take (data.length/16*16)).length = data.length/16*16 := by
    rw [length_take]
    omega
  rw [unmaskBlocks,xorLanes_eq (by rw [htake]; omega)]
  conv_rhs => rw [← take_append_drop (data.length/16*16) data,unmaskLoop_append,htake]
  congr 1
  exact unmaskLoop_congr (fun _ _ => rfl) (by omega)

lemma unmask_eq (index : ℕ) : unmask m i index data = unmaskLoop m i data := by
  unfold unmask
  split_ifs with h
  · have htake : (data.take (16-index%16)).length = 16-index%16 := by
      rw [length_take]
      omega
    simp only [unmaskBlocks_eq]
    conv_rhs => rw [← take_append_drop (16-index%16) data,unmaskLoop_append,htake]
  · rfl

namespace Transformer

variable {t u : Transformer} {index : ℕ}

/-- `add` of a single byte; a closed transformer ignores it. -/
def step (t : Transformer) (byte : UInt8) : Except Failure Transformer :=
  if t.state = .closed then .ok t
  else if t.state = .payload then t.payloadPart 0 [byte]
  else t.headerByte byte

def feed (t : Transformer) (bytes : List UInt8) : Except Failure Transformer := bytes.foldlM step t

@[simp] lemma feed_nil : t.feed [] = .ok t := rfl

lemma feed_cons (b : UInt8) : t.feed (b :: bs) = t.step b >>= fun u => u.feed bs := foldlM_cons

lemma feed_append (as bs : List UInt8) : t.feed (as ++ bs) = t.feed as >>= fun u => u.feed bs :=
  foldlM_append

lemma bind_feed_nil (x : Except Failure Transformer) : (x >>= fun u => u.feed []) = x := by
  cases x <;> rfl

/-- In the payload some bytes are missing. -/
def Waits (t : Transformer) : Prop := t.state = .payload → 0 < t.remainingPayloadBytes

lemma prepareForNextFrame_state (t : Transformer) : t.prepareForNextFrame.state ≠ .payload := by
  unfold prepareForNextFrame
  split_ifs <;> simp

lemma messageFrameEnd_state (h : t.messageFrameEnd = .ok u) : u.state ≠ .payload := by
  unfold messageFrameEnd at h
  split_ifs at h
  · obtain ⟨v, -,rfl⟩ := map_eq_ok h
    exact prepareForNextFrame_state _
  · cases h
    exact prepareForNextFrame_state _

lemma controlFrameEnd_state (h : t.controlFrameEnd = .ok u) : u.state ≠ .payload := by
  obtain ⟨v, -,rfl⟩ := map_eq_ok h
  exact prepareForNextFrame_state _

lemma startPayload_waits (h : t.startPayload = .ok u) : u.Waits := by
  unfold startPayload at h
  split_ifs at h with hzero hcontrol
  · cases h
    exact fun hs => absurd hs (prepareForNextFrame_state _)
  · exact fun hs => absurd hs (messageFrameEnd_state h)
  · cases h
    exact fun _ => pos_of_ne_zero hzero

lemma lengthDone_waits (h : t.lengthDone = .ok u) : u.Waits := by
  unfold lengthDone at h
  split_ifs at h
  · cases h
    exact fun hs => by cases hs
  · exact startPayload_waits h

lemma checkOpcode_state {o : Opcode} (h : t.checkOpcode o = .ok u) : u.state = t.state := by
  cases o <;> simp only [checkOpcode] at h <;> split_ifs at h <;> cases h <;> rfl

lemma headerByte_waits {b : UInt8} (hp : t.state ≠ .payload) (h : t.headerByte b = .ok u) :
    u.Waits := by
  unfold headerByte at h
  cases hstate : t.state with
  | start =>
    rw [hstate] at h
    simp only [startFrame] at h
    split_ifs at h
    split at h
    · cases h
    · exact fun hs => by simp [checkOpcode_state h] at hs
  | lenFirst =>
    rw [hstate] at h
    simp only [lengthFirst] at h
    split_ifs at h
    · cases h
      exact fun hs => by cases hs
    · cases h
      exact fun hs => by cases hs
    · exact lengthDone_waits h
  | lenRest =>
    rw [hstate] at h
    simp only [lengthRest] at h
    split_ifs at h
    · exact lengthDone_waits h
    · cases h
      exact fun hs => absurd hs hp
  | mask =>
    rw [hstate] at h
    simp only [maskByte] at h
    split_ifs at h
    · exact startPayload_waits h
    · cases h
      exact fun hs => absurd hs hp
  | payload => exact absurd hstate hp
  | closed =>
    rw [hstate] at h
    cases h
    exact fun hs => absurd hs hp

lemma partEnd_waits (h : t.partEnd = .ok u) : u.Waits := by
  unfold partEnd at h
  split_ifs at h with h1 h2 h3 h4
  · exact fun hs => absurd hs (controlFrameEnd_state h)
  · cases h
    exact fun _ => pos_of_ne_zero h2
  · exact fun hs => absurd hs (messageFrameEnd_state h)
  · cases h
    exact fun _ => pos_of_ne_zero h4

lemma step_waits {b : UInt8} (ht : t.Waits) (h : t.step b = .ok u) : u.Waits := by
  unfold step at h
  split_ifs at h with hc hp
  · cases h
    exact ht
  · exact partEnd_waits h
  · exact headerByte_waits hp h

lemma feed_waits (ht : t.Waits) (h : t.feed bs = .ok u) : u.Waits :=
  Outcome.foldlM_invariant Waits (fun _ _ _ _ => step_waits) ht h

lemma collect_cons (b : UInt8) :
    t.collect index (b :: data) = (t.collect 0 [b]).collect index data := by
  have hmod : unmaskLoop t.maskingBytes (t.unmaskingIndex+1) data =
      unmaskLoop t.maskingBytes ((t.unmaskingIndex+1)%4) data :=
    unmaskLoop_congr (fun _ _ => rfl) (by omega)
  cases hm : t.masked
  · simp [collect,hm,Nat.sub_sub,Nat.add_comm]
  · simp [collect,hm,Nat.sub_sub,Nat.add_comm,unmask_eq,unmaskLoop,hmod,Nat.add_left_comm]

lemma partEnd_waiting (h : t.remainingPayloadBytes ≠ 0) : t.partEnd =
    if t.isControlFrame = false ∧ t.currentMessageType = .none then .error protocolError
    else .ok t := by
  unfold partEnd
  cases t.isControlFrame <;> simp [h]

lemma payloadPart_eq_feed (hs : t.state = .payload) (hne : data ≠ [])
    (hle : data.length ≤ t.remainingPayloadBytes) : t.payloadPart index data = t.feed data := by
  induction data generalizing t index with
  | nil => exact absurd rfl hne
  | cons b data ih =>
    have hstep : t.step b = (t.collect 0 [b]).partEnd := by simp [step,hs,payloadPart]
    rw [feed_cons,hstep,payloadPart,collect_cons]
    rcases data with - | ⟨c,data⟩
    · have hnil : (t.collect 0 [b]).collect index [] = t.collect 0 [b] := by
        rw [← collect_cons]
        simp [collect,unmask_eq]
      rw [hnil,bind_feed_nil]
    · have hrest : (t.collect 0 [b]).remainingPayloadBytes = t.remainingPayloadBytes-1 := rfl
      have hlen : data.length+2 ≤ t.remainingPayloadBytes := hle
      have hpart := partEnd_waiting (t := t.collect 0 [b]) (by omega)
      by_cases hbad : (t.collect 0 [b]).isControlFrame = false ∧
          (t.collect 0 [b]).currentMessageType = .none
      · have hcontrol : ¬((t.collect 0 [b]).collect index (c :: data)).isControlFrame = true := by
          rw [show ((t.collect 0 [b]).collect index (c :: data)).isControlFrame = false from hbad.1]
          simp
        rw [hpart,if_pos hbad,partEnd,if_neg hcontrol]
        exact if_pos hbad.2
      · rw [hpart,if_neg hbad,ok_bind]
        exact ih hs (by simp) (by rw [hrest,length_cons]; omega)

lemma feed_closed (hc : t.state = .closed) : t.feed bs = .ok t := by
  induction bs with
  | nil => rfl
  | cons b bs ih =>
    have hstep : t.step b = .ok t := if_pos hc
    rw [feed_cons,hstep,ok_bind,ih]

lemma bind_congr_ok {α β : Type} {x : Except Failure α} {f g : α → Except Failure β}
    (h : ∀ a, x = .ok a → f a = g a) : x >>= f = x >>= g := by
  cases x with
  | error e => rfl
  | ok a => exact h a rfl

variable (ht : t.Waits)
include ht

lemma addLoop_eq_feed {fuel : ℕ} (hle : bs.length ≤ fuel) :
    addLoop fuel t index bs = t.feed bs := by
  induction fuel generalizing t index bs with
  | zero =>
    rw [eq_nil_of_length_eq_zero (le_zero.1 hle)]
    rfl
  | succ fuel ih =>
    rcases bs with - | ⟨b,bs⟩
    · rfl
    by_cases hc : t.state = .closed
    · rw [addLoop,if_pos hc,feed_closed hc]
    by_cases hp : t.state = .payload
    · have hpos := ht hp
      rw [length_cons] at hle
      have hlen : ((b :: bs).take (min (bs.length+1) t.remainingPayloadBytes)).length =
          min (bs.length+1) t.remainingPayloadBytes := by
        rw [length_take,length_cons]
        omega
      rw [addLoop,if_neg hc,if_pos hp]
      dsimp only
      conv_rhs => rw [← take_append_drop (min (bs.length+1) t.remainingPayloadBytes) (b :: bs),
        feed_append]
      rw [payloadPart_eq_feed hp (ne_nil_of_length_pos (by omega)) (by omega)]
      refine bind_congr_ok fun u hu => ih (feed_waits ht hu) ?_
      rw [length_drop,length_cons]
      omega
    · have hstep : t.step b = t.headerByte b := by simp [step,hc,hp]
      rw [addLoop,if_neg hc,if_neg hp,feed_cons,hstep]
      exact bind_congr_ok fun u hu => ih (headerByte_waits hp hu) (le_of_succ_le_succ hle)

lemma add_eq_ok_iff : t.add bs = .ok u ↔ t.state ≠ .closed ∧ t.feed bs = .ok u := by
  unfold add
  split_ifs with hc
  · simp [hc]
  · rw [addLoop_eq_feed ht le_rfl]
    simp [hc]

lemma feed_of_addAll {buffers : List (List UInt8)}
    (h : buffers.foldlM add t = .ok u) : t.feed buffers.flatten = .ok u := by
  induction buffers generalizing t with
  | nil => exact h
  | cons buffer buffers ih =>
    rw [foldlM_cons] at h
    obtain ⟨v,hv,hrest⟩ := bind_eq_ok h
    obtain ⟨-,hfeed⟩ := (add_eq_ok_iff ht).1 hv
    rw [flatten_cons,feed_append,hfeed,ok_bind]
    exact ih (feed_waits ht hfeed) hrest

lemma addAll_of_feed {buffers : List (List UInt8)} (hc : t.state ≠ .closed)
    (hu : u.state ≠ .closed) (h : t.feed buffers.flatten = .ok u) : buffers.foldlM add t = .ok u := by
  induction buffers generalizing t with
  | nil => exact h
  | cons buffer buffers ih =>
    rw [flatten_cons,feed_append] at h
    obtain ⟨v,hfeed,hrest⟩ := bind_eq_ok h
    have hvc : v.state ≠ .closed := by
      intro hvc
      rw [feed_closed hvc] at hrest
      cases hrest
      exact hu hvc
    rw [foldlM_cons,(add_eq_ok_iff ht).2 ⟨hc,hfeed⟩,ok_bind]
    exact ih (feed_waits ht hfeed) hvc hrest

omit ht

lemma step_start (hs : t.state = .start) (fin : Bool) (o : Opcode) :
    t.step ((if fin then 0x80 else 0) ||| o.code) =
      { t with
        state := .lenFirst
        fin := fin
        opcode := some o }.checkOpcode o := by
  cases fin <;> cases o <;> simp [step,hs,headerByte] <;> rfl

lemma shiftLeft_or_byte (l n k : ℕ) :
    l <<< 8 ||| (UInt8.ofNat (n >>> (k*8) &&& 0xFF)).toNat = l*256+n/256^k%256 := by
  have hmask : n >>> (k*8) &&& 0xFF = n >>> (k*8)%2^8 := and_two_pow_sub_one_eq_mod _ 8
  have hbyte : (UInt8.ofNat (n >>> (k*8) &&& 0xFF)).toNat = n/256^k%256 := by
    rw [hmask,UInt8.toNat_ofNat',shiftRight_eq_div_pow,mul_comm k 8,pow_mul]
    norm_num
  rw [← shiftLeft_add_eq_or_of_lt (by rw [hbyte]; omega),hbyte,shiftLeft_eq]

lemma feed_lengthBytes (hs : t.state = .lenRest) {k : ℕ} (hk : t.remainingLenBytes = k+1) :
    t.feed (lengthBytes n (k+1)) =
      { t with
        len := t.len*256^(k+1)+n%256^(k+1)
        remainingLenBytes := 0 }.lengthDone := by
  induction k generalizing t with
  | zero =>
    have hstep : ∀ b, t.step b = t.lengthRest b := fun b => by simp [step,hs,headerByte]
    rw [lengthBytes,feed_cons,hstep,lengthRest,shiftLeft_or_byte,lengthBytes,bind_feed_nil]
    simp [hk]
  | succ k ih =>
    have hstep : ∀ b, t.step b = t.lengthRest b := fun b => by simp [step,hs,headerByte]
    have hsplit : (t.len*256+n/256^(k+1)%256)*256^(k+1)+n%256^(k+1) =
        t.len*256^(k+1+1)+n%256^(k+1+1) := by
      have hmod : n%256^(k+1+1) = _ := mod_pow_succ
      rw [hmod]
      ring
    rw [lengthBytes,feed_cons,hstep,lengthRest,shiftLeft_or_byte,← hsplit]
    simp only [hk]
    exact ih hs rfl

lemma lengthFirst_byte (mask : Bool) : ∀ k < 128,
    ((((if mask then 0x80 else 0) ||| UInt8.ofNat k) &&& 0x7F).toNat = k ∧
      (((if mask then 0x80 else 0) ||| UInt8.ofNat k) &&& 0x80 != 0) = mask) := by
  cases mask <;> decide

lemma step_lenFirst (hs : t.state = .lenFirst) (mask : Bool) {k : ℕ} (hk : k < 128) :
    t.step ((if mask then 0x80 else 0) ||| UInt8.ofNat k) =
      if t.isControlFrame ∧ 125 < k then .error protocolError
      else if k = 126 then .ok { t with
        masked := mask
        len := 0
        remainingLenBytes := 2
        state := .lenRest }
      else if k = 127 then .ok { t with
        masked := mask
        len := 0
        remainingLenBytes := 8
        state := .lenRest }
      else { t with
        masked := mask
        len := k }.lengthDone := by
  obtain ⟨hlen,hmask⟩ := lengthFirst_byte mask k hk
  have hstep : ∀ b, t.step b = t.lengthFirst b := fun b => by simp [step,hs,headerByte]
  rw [hstep,lengthFirst,hlen,hmask]
  rfl

/-- The length field, with the mask bit, is read up to `_lengthDone`. -/
lemma feed_lengthField (hs : t.state = .lenFirst) (mask : Bool) (hn : n < 2^64)
    (hcontrol : t.isControlFrame → n ≤ 125) : ∃ r s, s ≠ State.closed ∧
      t.feed ((lengthField n).modify 0 ((if mask then 0x80 else 0) ||| ·)) =
        { t with
          masked := mask
          len := n
          remainingLenBytes := r
          state := s }.lengthDone := by
  by_cases hlong : 65535 < n
  · have hnot : ¬(t.isControlFrame ∧ 125 < 127) := fun h => by have := hcontrol h.1; omega
    refine ⟨0,.lenRest,by simp,?_⟩
    rw [lengthField,if_pos hlong,modify_zero_cons,feed_cons,
      show (127 : UInt8) = UInt8.ofNat 127 from rfl,step_lenFirst hs mask (by decide),if_neg hnot,
      if_neg (by decide),if_pos rfl,ok_bind,feed_lengthBytes rfl rfl,
      show n%256^(7+1) = n from mod_eq_of_lt hn,zero_mul,zero_add]
  by_cases hmiddle : 125 < n
  · have hnot : ¬(t.isControlFrame ∧ 125 < 126) := fun h => by have := hcontrol h.1; omega
    refine ⟨0,.lenRest,by simp,?_⟩
    rw [lengthField,if_neg hlong,if_pos hmiddle,modify_zero_cons,feed_cons,
      show (126 : UInt8) = UInt8.ofNat 126 from rfl,step_lenFirst hs mask (by decide),if_neg hnot,
      if_pos rfl,ok_bind,feed_lengthBytes rfl rfl]
    simp [mod_eq_of_lt (show n < 65536 by omega)]
  · have hbyte : n >>> (0*8) &&& 0xFF = n := by
      rw [zero_mul,shiftRight_zero]
      exact (and_two_pow_sub_one_eq_mod n 8).trans (mod_eq_of_lt (by omega))
    refine ⟨t.remainingLenBytes,.lenFirst,by simp,?_⟩
    rw [lengthField,if_neg hlong,if_neg hmiddle,lengthBytes,lengthBytes,hbyte,
      modify_zero_cons,feed_cons,step_lenFirst hs mask (by omega),if_neg (by omega),
      if_neg (by omega),if_neg (by omega),bind_feed_nil,← hs]

lemma feed_mask (hs : t.state = .mask) (hr : t.remainingMaskingKeyBytes = 4) (m : MaskingBytes) :
    ∃ m' : MaskingBytes, (∀ k < 4, m' k = m k) ∧ t.feed ((range 4).map m) =
      { t with
        maskingBytes := m'
        remainingMaskingKeyBytes := 0
        remainingPayloadBytes := t.len }.startPayload := by
  refine ⟨Function.update (Function.update (Function.update (Function.update t.maskingBytes 0 (m 0))
    1 (m 1)) 2 (m 2)) 3 (m 3),fun k hk => ?_,?_⟩
  · interval_cases k <;> simp
  · have hrange : (range 4).map m = [m 0,m 1,m 2,m 3] := rfl
    simp only [hrange,feed_cons,step,headerByte,maskByte,hs,hr,bind_feed_nil]
    rfl

end Transformer

end DartSdk.WebSocket
