import DartSdk.WebSocketFrames

/-! What the transformer makes of a sequence of frames. -/
namespace DartSdk.WebSocket

open List
open Outcome (ok_bind bind_eq_ok)
open DartSdk.Convert (asUnits byteValues codeUnits Utf8Encoder.convert Utf8Decoder.convert)

variable {fs : List Frame} {type' : MessageType}

namespace Transformer

/-- The transformer is between two frames; `bytes` of a message of the given type are collected. -/
structure Idle (t : Transformer) (type : MessageType) (bytes : List UInt8) (events : List Event) :
    Prop where
  state : t.state = .start
  keyBytes : t.remainingMaskingKeyBytes = 4
  index : t.unmaskingIndex = 0
  type : t.currentMessageType = type
  payload : t.payload = bytes
  events : t.events = events

end Transformer

/-- Frames that can be sent before the connection is closed. -/
inductive Frame
  | text (fin : Bool) (data : List UInt8)
  | binary (fin : Bool) (data : List UInt8)
  | continuation (fin : Bool) (data : List UInt8)
  | ping (data : List UInt8)
  | pong (data : List UInt8)

/-- The second byte and what follows it up to the payload. -/
def header (n : ℕ) (serverSide : Bool) (m : MaskingBytes) : List UInt8 :=
  (lengthField n).modify 0 ((if !serverSide then 0x80 else 0) ||| ·) ++
    if serverSide then [] else (List.range 4).map m

def maskData (data : List UInt8) (serverSide : Bool) (m : MaskingBytes) : List UInt8 :=
  if serverSide then data else unmaskLoop m 0 data

namespace Frame

def opcode : Frame → Opcode
  | text .. => .text
  | binary .. => .binary
  | continuation .. => .continuation
  | ping _ => .ping
  | pong _ => .pong

def fin : Frame → Bool
  | text fin _ | binary fin _ | continuation fin _ => fin
  | _ => true

def data : Frame → List UInt8
  | text _ data | binary _ data | continuation _ data | ping data | pong data => data

/-- Lengths are written in eight bytes, and those of control frames in one. -/
def Sized (f : Frame) : Prop := f.data.length < 2^64 ∧ (f.opcode.isControl → f.data.length ≤ 125)

/-- The bytes of a frame that a server or a client sends. -/
def bytes (f : Frame) (serverSide : Bool) (m : MaskingBytes) : List UInt8 :=
  ((if f.fin then 0x80 else 0) ||| f.opcode.code) ::
    (header f.data.length serverSide m ++ maskData f.data serverSide m)

end Frame

/-- The end of a data frame, when `bytes` are collected. -/
def frameEnd (fin : Bool) (type : MessageType) (bytes : List UInt8) :
    Except Failure (MessageType × List UInt8 × List Event) :=
  if fin then
    match type with
    | .text => (decode bytes).map fun s => (.none,[],[.text s])
    | .binary => .ok (.none,[],[.binary bytes])
    | .none => .ok (.none,bytes,[])
  else .ok (type,bytes,[])

/-- What a frame does to the message that is being collected, and the events that it gives. -/
def receive (type : MessageType) (bytes : List UInt8) :
    Frame → Except Failure (MessageType × List UInt8 × List Event)
  | .text fin data => if type = .none then frameEnd fin .text (bytes ++ data) else .error protocolError
  | .binary fin data =>
    if type = .none then frameEnd fin .binary (bytes ++ data) else .error protocolError
  | .continuation fin data =>
    if type = .none then .error protocolError else frameEnd fin type (bytes ++ data)
  | .ping data =>
    if data = [] then .ok (type,bytes,[.ping []]) else .ok (type,[],[.ping (bytes ++ data)])
  | .pong data =>
    if data = [] then .ok (type,bytes,[.pong []]) else .ok (type,[],[.pong (bytes ++ data)])

namespace Transformer

variable {t u : Transformer} {type : MessageType} {bytes : List UInt8} {events : List Event}

/-- A run of the transformer ends as `receive` says. -/
def Ends (t : Transformer) (x : Except Failure Transformer) :
    Except Failure (MessageType × List UInt8 × List Event) → Prop
  | .ok (type,bytes,events) =>
    ∃ u, x = .ok u ∧ u.serverSide = t.serverSide ∧ u.Idle type bytes (t.events ++ events)
  | .error e => x = .error e

lemma prepareForNextFrame_idle (hs : t.state ≠ .closed) :
    t.prepareForNextFrame.Idle t.currentMessageType t.payload t.events :=
  ⟨if_neg hs,rfl,rfl,rfl,rfl,rfl⟩

lemma messageFrameEnd_ends (hs : t.state ≠ .closed) :
    t.Ends t.messageFrameEnd (frameEnd t.fin t.currentMessageType t.payload) := by
  unfold messageFrameEnd frameEnd
  cases t.fin with
  | false => exact ⟨_,rfl,rfl,by simpa using prepareForNextFrame_idle hs⟩
  | true =>
    simp only [takeMessage]
    cases t.currentMessageType with
    | none => exact ⟨_,rfl,rfl,⟨if_neg hs,rfl,rfl,rfl,rfl,by simp [prepareForNextFrame]⟩⟩
    | binary => exact ⟨_,rfl,rfl,⟨if_neg hs,rfl,rfl,rfl,rfl,rfl⟩⟩
    | text =>
      cases decode t.payload with
      | error e => exact rfl
      | ok s => exact ⟨_,rfl,rfl,⟨if_neg hs,rfl,rfl,rfl,rfl,rfl⟩⟩

/-- What the header and the payload of a frame leave as it was. -/
structure Kept (t u : Transformer) : Prop where
  serverSide : u.serverSide = t.serverSide
  fin : u.fin = t.fin
  opcode : u.opcode = t.opcode
  type : u.currentMessageType = t.currentMessageType
  events : u.events = t.events
  state : u.state ≠ .closed

/-- The transformer has read the first byte of a frame of the other side. -/
structure Opened (t : Transformer) (serverSide : Bool) : Prop where
  state : t.state = .lenFirst
  keyBytes : t.remainingMaskingKeyBytes = 4
  index : t.unmaskingIndex = 0
  role : t.serverSide = !serverSide

variable {serverSide : Bool} {data : List UInt8}

variable (ht : t.Opened serverSide)
include ht

lemma feed_header (hlen : data.length < 2^64)
    (hcontrol : t.isControlFrame → data.length ≤ 125) (m : MaskingBytes) : ∃ u, Kept t u ∧
      u.payload = t.payload ∧ u.unmaskingIndex = t.unmaskingIndex ∧ u.remainingPayloadBytes =
      data.length ∧ (if u.masked then unmaskLoop u.maskingBytes 0 data else data) =
      maskData data serverSide m ∧ t.feed (header data.length serverSide m) = u.startPayload := by
  obtain ⟨r,s,hsc,hfeed⟩ := feed_lengthField ht.state (!serverSide) hlen hcontrol
  have hrole := ht.role
  rw [header,feed_append,hfeed]
  cases serverSide with
  | true =>
    refine ⟨{ t with
      masked := false
      len := data.length
      remainingLenBytes := r
      state := s
      remainingPayloadBytes := data.length },⟨rfl,rfl,rfl,rfl,rfl,hsc⟩,rfl,rfl,rfl,rfl,?_⟩
    rw [if_pos rfl,bind_feed_nil]
    simp [lengthDone,hrole]
  | false =>
    set v : Transformer := { t with
      masked := true
      len := data.length
      remainingLenBytes := r
      state := .mask } with hv
    rw [show lengthDone _ = .ok v by simp [lengthDone,hrole,hv],ok_bind]
    obtain ⟨m',hm',hmask⟩ := feed_mask (t := v) rfl ht.keyBytes m
    exact ⟨{ v with
      maskingBytes := m'
      remainingMaskingKeyBytes := 0
      remainingPayloadBytes := data.length },⟨rfl,rfl,rfl,rfl,rfl,by simp⟩,rfl,rfl,rfl,
      unmaskLoop_congr hm' rfl,hmask⟩

lemma feed_rest (hlen : data.length < 2^64) (hcontrol : t.isControlFrame → data.length ≤ 125)
    (m : MaskingBytes) : ∃ u, Kept t u ∧ u.remainingPayloadBytes = 0 ∧ u.payload =
      t.payload ++ data ∧ t.feed (header data.length serverSide m ++ maskData data serverSide m) =
      if data = [] then u.startPayload else u.partEnd := by
  obtain ⟨u,hu,hpayload,hindex,hremaining,hsent,hfeed⟩ := feed_header ht hlen hcontrol m
  rw [feed_append,hfeed,← hsent]
  by_cases hd : data = []
  · subst hd
    have hnil : (if u.masked then unmaskLoop u.maskingBytes 0 [] else []) = [] := by simp [unmaskLoop]
    refine ⟨u,hu,hremaining,by simp [hpayload],?_⟩
    rw [hnil,bind_feed_nil]
    rfl
  · have hpos := length_pos_iff.2 hd
    have hstart : u.startPayload = .ok { u with state := .payload } := if_neg (by omega)
    have hsize : (if u.masked then unmaskLoop u.maskingBytes 0 data else data).length =
        data.length := by
      split_ifs <;> simp
    refine ⟨{ u with state := .payload }.collect 0
      (if u.masked then unmaskLoop u.maskingBytes 0 data else data),
      ⟨hu.serverSide,hu.fin,hu.opcode,hu.type,hu.events,by simp [collect]⟩,?_,?_,?_⟩
    · simp [collect,hremaining,hsize]
    · simp only [collect,unmask_eq,hindex,ht.index,hpayload]
      split_ifs
      · rw [unmaskLoop_involutive]
      · rfl
    · rw [hstart,ok_bind,if_neg hd]
      exact (payloadPart_eq_feed rfl (ne_nil_of_length_pos (by omega))
        (by rw [hsize]; exact hremaining.ge)).symm

omit ht in
lemma Ends.of_kept {x : Except Failure Transformer}
    {r : Except Failure (MessageType × List UInt8 × List Event)} (h : u.Ends x r)
    (hside : u.serverSide = t.serverSide) (hevents : u.events = t.events) : t.Ends x r := by
  cases r with
  | error e => exact h
  | ok r =>
    obtain ⟨v,hv,hvs,hvi⟩ := h
    exact ⟨v,hv,hvs.trans hside,hevents ▸ hvi⟩

lemma data_ends (hlen : data.length < 2^64)
    (hcontrol : t.isControlFrame = false) (htype : t.currentMessageType ≠ .none) (m : MaskingBytes) :
    t.Ends (t.feed (header data.length serverSide m ++ maskData data serverSide m))
      (frameEnd t.fin t.currentMessageType (t.payload ++ data)) := by
  obtain ⟨u,hu,hremaining,hpayload,hfeed⟩ := feed_rest ht hlen (by simp [hcontrol]) m
  have huc : u.isControlFrame = false := by rw [isControlFrame,hu.opcode]; exact hcontrol
  have hend : (if data = [] then u.startPayload else u.partEnd) = u.messageFrameEnd := by
    simp [startPayload,partEnd,huc,hremaining,hu.type,htype]
  have hends := messageFrameEnd_ends hu.state
  rw [hu.fin,hu.type,hpayload] at hends
  rw [hfeed,hend]
  exact hends.of_kept hu.serverSide hu.events

lemma control_ends (hlen : data.length ≤ 125) (m : MaskingBytes) {event : List UInt8 → Event}
    (ho : t.opcode = some .ping ∧ event = .ping ∨ t.opcode = some .pong ∧ event = .pong) :
    t.Ends (t.feed (header data.length serverSide m ++ maskData data serverSide m))
      (if data = [] then .ok (t.currentMessageType,t.payload,[event []])
        else .ok (t.currentMessageType,[],[event (t.payload ++ data)])) := by
  obtain ⟨u,hu,hremaining,hpayload,hfeed⟩ :=
    feed_rest ht (hlen.trans_lt (by decide)) (fun _ => hlen) m
  have hidle : ∀ v : Transformer, v.state ≠ .closed → ∀ e, (v.emit e).prepareForNextFrame.Idle
      v.currentMessageType v.payload (v.events ++ [e]) :=
    fun v hv e => prepareForNextFrame_idle hv
  rw [hfeed]
  split_ifs with hd
  · subst hd
    have hstart : u.startPayload = .ok (u.emit (event [])).prepareForNextFrame := by
      obtain ⟨ho,rfl⟩ | ⟨ho,rfl⟩ := ho <;>
        simp [startPayload,hremaining,isControlFrame,hu.opcode,ho,Opcode.isControl]
    refine ⟨_,hstart,hu.serverSide,?_⟩
    rw [← hu.type,← hu.events,← append_nil t.payload,← hpayload]
    exact hidle u hu.state (event [])
  · have hpart : u.partEnd =
        .ok ({ u with payload := [] }.emit (event (t.payload ++ data))).prepareForNextFrame := by
      obtain ⟨ho,rfl⟩ | ⟨ho,rfl⟩ := ho <;>
        simp [partEnd,hremaining,isControlFrame,hu.opcode,ho,Opcode.isControl,controlFrameEnd,
          takeControl,Except.map,hpayload]
    refine ⟨_,hpart,hu.serverSide,?_⟩
    rw [← hu.type,← hu.events]
    exact hidle { u with payload := [] } hu.state (event (t.payload ++ data))

omit ht

def opened (t : Transformer) (fin : Bool) (o : Opcode) : Transformer :=
  { t with
    state := .lenFirst
    fin := fin
    opcode := some o }

variable (hi : t.Idle type bytes events) (hrole : t.serverSide = !serverSide)
include hi hrole

lemma Idle.opened (fin : Bool) (o : Opcode) : (t.opened fin o).Opened serverSide :=
  ⟨rfl,hi.keyBytes,hi.index,hrole⟩

lemma opened_ends (hlen : data.length < 2^64) {o : Opcode} (ho : o.isControl = false)
    (htype : type' ≠ .none) (fin : Bool) (m : MaskingBytes)
    (hcheck : (t.opened fin o).checkOpcode o = .ok { t.opened fin o with currentMessageType := type' }) :
    t.Ends ((t.opened fin o).checkOpcode o >>= fun v =>
        v.feed (header data.length serverSide m ++ maskData data serverSide m))
      (frameEnd fin type' (bytes ++ data)) := by
  rw [hcheck,ok_bind,← hi.payload]
  have hends := data_ends (t := { t.opened fin o with currentMessageType := type' })
    ⟨rfl,hi.keyBytes,hi.index,hrole⟩ hlen ho htype m
  exact hends.of_kept rfl rfl

lemma feed_frame {f : Frame} (hf : f.Sized) (m : MaskingBytes) :
    t.Ends (t.feed (f.bytes serverSide m)) (receive type bytes f) := by
  have hlen := hf.1
  have hstart : t.feed (f.bytes serverSide m) = (t.opened f.fin f.opcode).checkOpcode f.opcode >>=
      fun v => v.feed (header f.data.length serverSide m ++ maskData f.data serverSide m) := by
    rw [Frame.bytes,feed_cons,step_start hi.state]
    rfl
  rw [hstart]
  cases f with
  | text fin data | binary fin data =>
    by_cases htype : type = .none
    · rw [receive,if_pos htype]
      exact opened_ends hi hrole hlen rfl (by simp) fin m
        (by simp [opened,checkOpcode,Frame.opcode,hi.type,htype])
    · rw [receive,if_neg htype]
      simp [opened,checkOpcode,hi.type,htype]
      rfl
  | continuation fin data =>
    by_cases htype : type = .none
    · rw [receive,if_pos htype]
      simp [opened,hi.type,htype]
      rfl
    · rw [receive,if_neg htype,← hi.type]
      exact opened_ends hi hrole hlen rfl (hi.type ▸ htype) fin m
        (by simp [opened,checkOpcode,Frame.opcode,hi.type,htype])
  | ping data =>
    have hends := control_ends (hi.opened hrole true .ping) (hf.2 rfl) m (.inl ⟨rfl,rfl⟩)
    rw [receive,← hi.type,← hi.payload]
    exact hends.of_kept rfl rfl
  | pong data =>
    have hends := control_ends (hi.opened hrole true .pong) (hf.2 rfl) m (.inr ⟨rfl,rfl⟩)
    rw [receive,← hi.type,← hi.payload]
    exact hends.of_kept rfl rfl

end Transformer

def receiveAll (type : MessageType) (bytes : List UInt8) :
    List Frame → Except Failure (MessageType × List UInt8 × List Event)
  | [] => .ok (type,bytes,[])
  | f :: fs => do
    let (type,bytes,events) ← receive type bytes f
    let (type,bytes,rest) ← receiveAll type bytes fs
    return (type,bytes,events ++ rest)

def wire (serverSide : Bool) (frames : List (Frame × MaskingBytes)) : List UInt8 :=
  frames.flatMap fun x => x.1.bytes serverSide x.2

variable {serverSide : Bool} {frames : List (Frame × MaskingBytes)} {events : List Event}
  {type : MessageType} {bytes : List UInt8}

lemma Transformer.feed_frames {t : Transformer} {before : List Event} (hi : t.Idle type bytes before)
    (hrole : t.serverSide = !serverSide) (hsized : ∀ x ∈ frames, x.1.Sized) :
    t.Ends (t.feed (wire serverSide frames)) (receiveAll type bytes (frames.map Prod.fst)) := by
  induction frames generalizing t type bytes before with
  | nil => exact ⟨t,rfl,rfl,by simpa [hi.events] using hi⟩
  | cons x frames ih =>
    have hends := feed_frame hi hrole (hsized x mem_cons_self) x.2
    rw [wire,flatMap_cons,feed_append,map_cons,receiveAll]
    cases hr : receive type bytes x.1 with
    | error e =>
      rw [hr] at hends
      rw [show t.feed _ = _ from hends]
      rfl
    | ok r =>
      obtain ⟨type',bytes',events⟩ := r
      rw [hr] at hends
      obtain ⟨u,hu,hus,hui⟩ := hends
      have hrest := ih hui (hus.trans hrole) fun y hy => hsized y (mem_cons_of_mem x hy)
      rw [hu,ok_bind,ok_bind]
      dsimp only
      cases ha : receiveAll type' bytes' (frames.map Prod.fst) with
      | error e =>
        rw [ha] at hrest
        exact hrest
      | ok r' =>
        rw [ha] at hrest
        obtain ⟨v,hv,hvs,hvi⟩ := hrest
        exact ⟨v,hv,hvs.trans hus,by rw [← append_assoc,← hui.events]; exact hvi⟩

lemma Transformer.run_iff (hsized : ∀ x ∈ frames, x.1.Sized) {buffers : List (List UInt8)}
    (hb : buffers.flatten = wire serverSide frames) :
    (∃ t, buffers.foldlM add { serverSide := !serverSide } = .ok t ∧ t.events = events) ↔
      ∃ type bytes, receiveAll .none [] (frames.map Prod.fst) = .ok (type,bytes,events) := by
  have hidle : Idle { serverSide := !serverSide } .none [] [] := ⟨rfl,rfl,rfl,rfl,rfl,rfl⟩
  have hwaits : Waits { serverSide := !serverSide } := fun h => by cases h
  have hends := feed_frames hidle rfl hsized
  rw [← hb] at hends
  constructor
  · rintro ⟨t,ht,rfl⟩
    have hfeed := feed_of_addAll hwaits ht
    cases hr : receiveAll .none [] (frames.map Prod.fst) with
    | error e =>
      rw [hr,hfeed] at hends
      cases hends
    | ok r =>
      obtain ⟨type,bytes,events⟩ := r
      rw [hr,hfeed] at hends
      obtain ⟨u,hu, -,hui⟩ := hends
      cases hu
      exact ⟨type,bytes,by rw [hui.events,nil_append]⟩
  · rintro ⟨type,bytes,hr⟩
    rw [hr] at hends
    obtain ⟨u,hu, -,hui⟩ := hends
    exact ⟨u,addAll_of_feed hwaits (by simp) (by simp [hui.state]) hu,hui.events⟩

/-- The events that frames stand for: a control frame gives its own payload, and a message is made
of the frames from its first one to the one with the bit `fin`. -/
def reassemble (type : MessageType) (bytes : List UInt8) : List Frame → Except Failure (List Event)
  | [] => .ok []
  | .ping data :: fs => (reassemble type bytes fs).map (.ping data :: ·)
  | .pong data :: fs => (reassemble type bytes fs).map (.pong data :: ·)
  | f :: fs => do
    let (type,bytes,events) ← receive type bytes f
    (reassemble type bytes fs).map (events ++ ·)

/-- The bytes that are collected after a frame. -/
def Frame.pending (bytes : List UInt8) : Frame → List UInt8
  | text fin data | binary fin data | continuation fin data => if fin then [] else bytes ++ data
  | _ => bytes

/-- No control frame with a payload comes while bytes of a message are collected. -/
def Undisturbed (bytes : List UInt8) : List Frame → Prop
  | [] => True
  | f :: fs => (f.opcode.isControl → f.data = [] ∨ bytes = []) ∧ Undisturbed (f.pending bytes) fs

lemma receive_pending {f : Frame} (hf : f.opcode.isControl = false) {bytes' : List UInt8}
    (h : receive type bytes f = .ok (type',bytes',events)) : bytes' = f.pending bytes := by
  have hend : ∀ fin ty b, ty ≠ MessageType.none → frameEnd fin ty b = .ok (type',bytes',events) →
      bytes' = if fin then [] else b := by
    intro fin ty b hty h
    cases fin with
    | false =>
      cases h
      rfl
    | true =>
      cases ty with
      | none => exact absurd rfl hty
      | binary =>
        cases h
        rfl
      | text =>
        simp only [frameEnd] at h
        cases hd : decode b with
        | error e =>
          rw [hd] at h
          cases h
        | ok s =>
          rw [hd] at h
          cases h
          rfl
  cases f with
  | text fin data | binary fin data =>
    rw [receive] at h
    split_ifs at h
    exact hend _ _ _ (by simp) h
  | continuation fin data =>
    rw [receive] at h
    split_ifs at h with htype
    exact hend _ _ _ htype h
  | ping data => cases hf
  | pong data => cases hf

lemma receiveAll_cons_iff {f : Frame} {ty : MessageType} {bytes' b : List UInt8}
    {first : List Event} (h : receive type bytes f = .ok (type',bytes',first)) :
    receiveAll type bytes (f :: fs) = .ok (ty,b,events) ↔ ∃ rest, receiveAll type' bytes' fs =
      .ok (ty,b,rest) ∧ events = first ++ rest := by
  rw [receiveAll,h,ok_bind]
  dsimp only
  cases receiveAll type' bytes' fs with
  | error e => exact iff_of_false nofun (by rintro ⟨_,h, -⟩; cases h)
  | ok r =>
    obtain ⟨ty',b',rest⟩ := r
    constructor
    · intro h
      cases h
      exact ⟨rest,rfl,rfl⟩
    · rintro ⟨rest',h,rfl⟩
      cases h
      rfl

/-- A control frame gives its payload exactly if it is empty or nothing is collected. -/
lemma receiveAll_control_iff {event : List UInt8 → Event} (hinj : Function.Injective event)
    {f : Frame} (hf : receive type bytes f = if f.data = [] then .ok (type,bytes,[event []])
      else .ok (type,[],[event (bytes ++ f.data)]))
    (ih : (∃ ty b, receiveAll type bytes fs = .ok (ty,b,events)) ↔ Undisturbed bytes fs) :
    (∃ ty b, receiveAll type bytes (f :: fs) = .ok (ty,b,event f.data :: events)) ↔
      (f.data = [] ∨ bytes = []) ∧ Undisturbed bytes fs := by
  have hsame : receive type bytes f = .ok (type,bytes,[event f.data]) →
      ((∃ ty b, receiveAll type bytes (f :: fs) = .ok (ty,b,event f.data :: events)) ↔
        Undisturbed bytes fs) := by
    intro hf
    rw [← ih]
    simp [receiveAll_cons_iff hf]
  by_cases hd : f.data = []
  · rw [if_pos hd] at hf
    rw [hsame (by rw [hf,hd])]
    simp [hd]
  · rw [if_neg hd] at hf
    by_cases hb : bytes = []
    · rw [hsame (by rw [hf,hb]; rfl)]
      simp [hb]
    · simp only [hd,hb,or_self,false_and,iff_false,not_exists]
      intro ty b h
      obtain ⟨rest, -,hrest⟩ := (receiveAll_cons_iff hf).1 h
      -- The collected bytes are in the event.
      have hevent : f.data = bytes ++ f.data := hinj (cons.inj hrest).1
      exact hb (by simpa using hevent)

/-- Frames give the events that they stand for exactly if no message is disturbed. -/
lemma receiveAll_iff (h : reassemble type bytes fs = .ok events) :
    (∃ ty b, receiveAll type bytes fs = .ok (ty,b,events)) ↔ Undisturbed bytes fs := by
  induction fs generalizing type bytes events with
  | nil =>
    cases h
    exact ⟨fun _ => trivial,fun _ => ⟨type,bytes,rfl⟩⟩
  | cons f fs ih =>
    rw [Undisturbed]
    by_cases hf : f.opcode.isControl = true
    · cases f with
      | ping data =>
        obtain ⟨rest,hrest,rfl⟩ := map_eq_ok h
        refine (receiveAll_control_iff (fun _ _ => Event.ping.inj) rfl
          (ih hrest)).trans ?_
        simp [hf,Frame.pending]
      | pong data =>
        obtain ⟨rest,hrest,rfl⟩ := map_eq_ok h
        refine (receiveAll_control_iff (fun _ _ => Event.pong.inj) rfl
          (ih hrest)).trans ?_
        simp [hf,Frame.pending]
      | text fin data | binary fin data | continuation fin data => cases hf
    · have hcons : reassemble type bytes (f :: fs) = receive type bytes f >>= fun r =>
          (reassemble r.1 r.2.1 fs).map (r.2.2 ++ ·) := by
        cases f with
        | ping data | pong data => exact absurd rfl hf
        | text fin data | binary fin data | continuation fin data => rfl
      rw [hcons] at h
      obtain ⟨⟨type',bytes',first⟩,hr,h⟩ := bind_eq_ok h
      obtain ⟨rest,hrest,rfl⟩ := map_eq_ok h
      rw [← receive_pending (by simpa using hf) hr,← ih hrest]
      simp [receiveAll_cons_iff hr,hf]

/-- Around control frames the events are those that the frames stand for exactly if no control
frame with a payload comes while bytes of a message are collected. -/
theorem reassembled_iff (serverSide : Bool) (frames : List (Frame × MaskingBytes))
    (hsized : ∀ x ∈ frames, x.1.Sized) (events : List Event)
    (hvalid : reassemble .none [] (frames.map Prod.fst) = .ok events) (buffers : List (List UInt8))
    (hb : buffers.flatten = wire serverSide frames) :
    (∃ t, buffers.foldlM Transformer.add { serverSide := !serverSide } = .ok t ∧ t.events = events) ↔
      Undisturbed [] (frames.map Prod.fst) :=
  (Transformer.run_iff hsized hb).trans (receiveAll_iff hvalid)

/-- A message in two parts, with an empty ping between them. -/
theorem reassembled_iff_parts : ∃ t, ([wire true [(.binary false [1],fun _ => 0),(.ping [],fun _ => 0),
      (.continuation true [2],fun _ => 0)]].foldlM Transformer.add { serverSide := false }) = .ok t ∧
    t.events = [.ping [],.binary [1,2]] :=
  (reassembled_iff true [(.binary false [1],fun _ => 0),(.ping [],fun _ => 0),
    (.continuation true [2],fun _ => 0)]
    (by simp [Frame.Sized,Frame.data]) [.ping [],.binary [1,2]] rfl _
    (by simp)).2 (by simp [Undisturbed,Frame.data,Frame.opcode,Opcode.isControl])

/-- A ping between the parts takes the first part with it. -/
theorem ping_takes_part : ∃ t, ([wire true [(.binary false [1],fun _ => 0),(.ping [9],fun _ => 0),
      (.continuation true [2],fun _ => 0)]].foldlM Transformer.add { serverSide := false }) = .ok t ∧
    t.events = [.ping [1,9],.binary [2]] :=
  ⟨_,rfl,rfl⟩

open RuneEncoding (runes runes_le dropBom dropBom_eq_self_iff flatMap_units_dropBom
  flatMap_units_runes)

def Message.toFrame : Message → Frame
  | text s => .text true (((runes (codeUnits s)).flatMap RuneEncoding.bytes).map UInt8.ofNat)
  | binary bytes => .binary true bytes
  | ping payload => .ping payload
  | pong payload => .pong payload

def Message.event : Message → Event
  | text s => .text (codeUnits s)
  | binary bytes => .binary bytes
  | ping payload => .ping payload
  | pong payload => .pong payload

/-- Texts do not start with a byte order mark, control frames are short, and lengths fit in the eight
bytes of the header. -/
def Message.Valid (x : Message) : Prop :=
  x.toFrame.Sized ∧ ∀ s, x = .text s → s.head? ≠ some 0xFEFF

lemma createFrame_eq {f : Frame} (hfin : f.fin = true) (serverSide : Bool) (m : MaskingBytes) :
    createFrame f.opcode f.data serverSide m = f.bytes serverSide m := by
  cases serverSide with
  | true => 
    have hzero : ∀ l : List UInt8, l.modify 0 ((if !true then 0x80 else 0) ||| ·) = l := by
      intro l
      cases l <;> simp
    simp only [createFrame,Frame.bytes,header,maskData,hfin,hzero,if_true,append_nil,cons_append]
  | false => simp [createFrame,Frame.bytes,header,maskData,hfin,unmaskBlocks_eq]

lemma Message.frame_eq (x : Message) (serverSide : Bool) (m : MaskingBytes) :
    x.frame serverSide m = .ok (x.toFrame.bytes serverSide m) := by
  rw [← createFrame_eq (by cases x <;> rfl)]
  cases x with
  | text s =>
    rw [frame,Convert.Utf8Encoder.convert_all Convert.codeUnits_le]
    rfl
  | binary bytes | ping payload | pong payload => rfl

lemma decode_encoded {s : List UInt16} (hs : s.head? ≠ some 0xFEFF) :
    decode (((runes (codeUnits s)).flatMap RuneEncoding.bytes).map UInt8.ofNat) =
      .ok (codeUnits s) := by
  have hbytes : byteValues (((runes (codeUnits s)).flatMap RuneEncoding.bytes).map UInt8.ofNat) =
      (runes (codeUnits s)).flatMap RuneEncoding.bytes := by
    rw [byteValues,map_map]
    refine (map_congr_left fun b hb => ?_).trans (map_id _)
    obtain ⟨rune,hrune,hb⟩ := mem_flatMap.1 hb
    exact UInt8.toNat_ofNat_of_lt (Convert.Encoder.bytes_lt (runes_le Convert.codeUnits_le rune hrune) b hb)
  have hbom : dropBom (codeUnits s) = codeUnits s :=
    dropBom_eq_self_iff.2 fun h => hs (Convert.head?_codeUnits.1 h)
  rw [decode,hbytes,Convert.Utf8Decoder.convert_runes false (runes_le Convert.codeUnits_le),
    flatMap_units_dropBom (runes_le Convert.codeUnits_le),flatMap_units_runes Convert.codeUnits_le,hbom]
  rfl

lemma receive_message {x : Message} (hx : x.Valid) :
    receive .none [] x.toFrame = .ok (.none,[],[x.event]) := by
  cases x with
  | text s =>
    rw [Message.toFrame,receive,if_pos rfl,frameEnd,if_pos rfl,nil_append,
      decode_encoded (hx.2 s rfl)]
    rfl
  | binary bytes => rfl
  | ping payload | pong payload =>
    rw [Message.toFrame,receive]
    split_ifs with hempty
    · rw [hempty]
      rfl
    · rfl

lemma receiveAll_messages {messages : List (Message × MaskingBytes)}
    (hvalid : ∀ x ∈ messages, x.1.Valid) : receiveAll .none [] (messages.map fun x => x.1.toFrame) =
      .ok (.none,[],messages.map fun x => x.1.event) := by
  induction messages with
  | nil => rfl
  | cons x messages ih =>
    rw [map_cons,receiveAll_cons_iff (receive_message (hvalid x mem_cons_self))]
    exact ⟨_,ih fun y hy => hvalid y (mem_cons_of_mem x hy),rfl⟩

/-- Messages survive framing, for every cut of the bytes into buffers. -/
theorem messages_survive (serverSide : Bool) (messages : List (Message × MaskingBytes))
    (hvalid : ∀ x ∈ messages, x.1.Valid) :
    ∃ sent, messages.mapM (fun x => x.1.frame serverSide x.2) = .ok sent ∧
      ∀ buffers : List (List UInt8), buffers.flatten = sent.flatten →
        ∃ t, buffers.foldlM Transformer.add { serverSide := !serverSide } = .ok t ∧
          t.events = messages.map fun x => x.1.event := by
  refine ⟨messages.map fun x => x.1.toFrame.bytes serverSide x.2,?_,fun buffers hb => ?_⟩
  · simp only [Message.frame_eq]
    exact List.mapM_pure
  · have hwire : buffers.flatten = wire serverSide (messages.map fun x => (x.1.toFrame,x.2)) := by
      rw [hb,wire,List.flatMap_map,List.flatMap_def]
    refine (Transformer.run_iff (fun y hy => ?_) hwire).2 ⟨.none,[],?_⟩
    · obtain ⟨x,hx,rfl⟩ := List.mem_map.1 hy
      exact (hvalid x hx).1
    · rw [List.map_map]
      exact receiveAll_messages hvalid

/-- A text and a ping from a client. -/
theorem messages_survive_client : ∃ sent,
    [(Message.text [0x61],fun k => UInt8.ofNat k),(.ping [7],fun _ => 3)].mapM
      (fun x => x.1.frame false x.2) = .ok sent ∧
    ∀ buffers : List (List UInt8), buffers.flatten = sent.flatten →
      ∃ t, buffers.foldlM Transformer.add { serverSide := true } = .ok t ∧
        t.events = [.text [0x61],.ping [7]] :=
  messages_survive false [(.text [0x61],fun k => UInt8.ofNat k),(.ping [7],fun _ => 3)] (by
    simp only [List.mem_cons,List.not_mem_nil,or_false,forall_eq_or_imp,forall_eq]
    exact ⟨⟨⟨by decide,by decide⟩,by simp⟩,⟨by decide,by decide⟩,by simp⟩)

end DartSdk.WebSocket
