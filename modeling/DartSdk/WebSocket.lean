import DartSdk.ConvertUtf8Exact

/-! Model of `_WebSocketProtocolTransformer` and of `createFrame` in
`sdk/lib/io/websocket_impl.dart`. Fields that the source sets to `-1` between two frames are `0`
here: they are set again before they are read. Of `_unmaskingIndex` the two low bits are kept, which
are all that is read. A payload `null` is the empty one, and the state `FAILURE`, which is never
set, is left out. -/
namespace DartSdk.WebSocket

open DartSdk.Convert (asUnits byteValues codeUnits Utf8Encoder.convert Utf8Decoder.convert)

inductive Failure
  | webSocketException (message : String)
  | formatException (failure : Convert.Failure)

def protocolError : Failure := .webSocketException "Protocol error"

inductive Opcode
  | continuation
  | text
  | binary
  | close
  | ping
  | pong
  deriving DecidableEq

namespace Opcode

def code : Opcode → UInt8
  | continuation => 0
  | text => 1
  | binary => 2
  | close => 8
  | ping => 9
  | pong => 10

/-- The codes in between are reserved. -/
def ofCode (c : UInt8) : Option Opcode :=
  [continuation,text,binary,close,ping,pong].find? fun o => o.code == c

def isControl : Opcode → Bool
  | close | ping | pong => true
  | _ => false

end Opcode

inductive MessageType
  | none
  | text
  | binary
  deriving DecidableEq

inductive Event
  | text (s : List ℕ)
  | binary (bytes : List UInt8)
  | ping (payload : List UInt8)
  | pong (payload : List UInt8)

inductive State
  | start
  | lenFirst
  | lenRest
  | mask
  | payload
  | closed
  deriving DecidableEq

abbrev MaskingBytes := ℕ → UInt8

/-- The loop `buffer[i] ^= _maskingBytes[_unmaskingIndex++ & 3]`. -/
def unmaskLoop (m : MaskingBytes) : ℕ → List UInt8 → List UInt8
  | _, [] => []
  | i, b :: bs => (b ^^^ m (i%4)) :: unmaskLoop m (i+1) bs

variable (m : MaskingBytes)

/-- The four masking bytes from index `i` on, the first one lowest. -/
def maskWord (i : ℕ) : ℕ :=
  [3,2,1,0].foldl (fun mask k => mask <<< 8 ||| (m ((i+k)%4)).toNat) 0

/-- The operation `^=` on the lanes of an `Int32x4List`, in little endian order. -/
def xorLanes (word : ℕ) : List UInt8 → List UInt8
  | a :: b :: c :: d :: rest =>
    (a ^^^ UInt8.ofNat word) :: (b ^^^ UInt8.ofNat (word >>> 8)) ::
      (c ^^^ UInt8.ofNat (word >>> 16)) :: (d ^^^ UInt8.ofNat (word >>> 24)) :: xorLanes word rest
  | rest => rest

/-- Blocks of 16 bytes, and the bytes that are left. -/
def unmaskBlocks (i : ℕ) (data : List UInt8) : List UInt8 :=
  let bytes := data.length/16*16
  xorLanes (maskWord m i) (data.take bytes) ++ unmaskLoop m i (data.drop bytes)

/-- `_unmask` of the bytes `data` that start at `index` in the buffer. -/
def unmask (i index : ℕ) (data : List UInt8) : List UInt8 :=
  if 16 ≤ data.length then
    -- The blocks are aligned to 16 bytes.
    let startOffset := 16-index%16
    unmaskLoop m i (data.take startOffset) ++
      unmaskBlocks m (i+startOffset) (data.drop startOffset)
  else unmaskLoop m i data

structure Transformer where
  serverSide : Bool
  state : State := .start
  fin : Bool := false
  opcode : Option Opcode := none
  len : ℕ := 0
  masked : Bool := false
  remainingLenBytes : ℕ := 0
  remainingMaskingKeyBytes : ℕ := 4
  remainingPayloadBytes : ℕ := 0
  unmaskingIndex : ℕ := 0
  currentMessageType : MessageType := .none
  closeCode : ℕ := 1005
  closeReason : List ℕ := []
  maskingBytes : MaskingBytes := fun _ => 0
  payload : List UInt8 := []
  events : List Event := []

def decode (bytes : List UInt8) : Except Failure (List ℕ) :=
  (Utf8Decoder.convert false (asUnits (byteValues bytes)) 0 none).mapError .formatException

namespace Transformer

section
variable (t : Transformer)

def isControlFrame : Bool := t.opcode.any Opcode.isControl

def emit (e : Event) : Transformer := { t with events := t.events ++ [e] }

def prepareForNextFrame : Transformer :=
  { t with
    state := if t.state = .closed then .closed else .start
    fin := false
    opcode := none
    len := 0
    remainingLenBytes := 0
    remainingMaskingKeyBytes := 4
    remainingPayloadBytes := 0
    unmaskingIndex := 0 }

def takeMessage : Except Failure Transformer :=
  match t.currentMessageType with
  | .text => (decode t.payload).map fun s => { t with payload := [] }.emit (.text s)
  | .binary => .ok ({ t with payload := [] }.emit (.binary t.payload))
  | .none => .ok t

def messageFrameEnd : Except Failure Transformer :=
  if t.fin then
    t.takeMessage.map fun t => { t with currentMessageType := .none }.prepareForNextFrame
  else .ok t.prepareForNextFrame

def readClose : List UInt8 → Except Failure Transformer
  | [] => .ok t
  | [_] => .error protocolError
  | high :: low :: reason =>
    let code := high.toNat <<< 8 ||| low.toNat
    if code = 1005 then .error protocolError
    else if reason = [] then .ok { t with closeCode := code }
    else (decode reason).map fun s => { t with
      closeCode := code
      closeReason := s }

/-- Take the payload of a control frame, from the builder that the message is collected in. -/
def takeControl : Except Failure Transformer :=
  let taken := { t with payload := [] }
  match t.opcode with
  | some .close =>
    (readClose { taken with closeCode := 1005 } t.payload).map fun t => { t with state := .closed }
  | some .ping => .ok (taken.emit (.ping t.payload))
  | some .pong => .ok (taken.emit (.pong t.payload))
  | _ => .ok t

def controlFrameEnd : Except Failure Transformer :=
  t.takeControl.map prepareForNextFrame

/-- An empty payload is never taken from the builder. -/
def startPayload : Except Failure Transformer :=
  if t.remainingPayloadBytes = 0 then
    if t.isControlFrame then
      let t := match t.opcode with
        | some .close => { t with state := .closed }
        | some .ping => t.emit (.ping [])
        | some .pong => t.emit (.pong [])
        | _ => t
      .ok t.prepareForNextFrame
    else t.messageFrameEnd
  else .ok { t with state := .payload }

def lengthDone : Except Failure Transformer :=
  if t.masked then
    if t.serverSide then .ok { t with state := .mask }
    else .error (.webSocketException "Received masked frame from server")
  else if t.serverSide then
    .error (.webSocketException "Received unmasked frame from client")
  else { t with remainingPayloadBytes := t.len }.startPayload

/-- Data frames start a message or continue one, and control frames are not fragmented. -/
def checkOpcode : Opcode → Except Failure Transformer
  | .continuation => if t.currentMessageType = .none then .error protocolError else .ok t
  | .text =>
    if t.currentMessageType ≠ .none then .error protocolError
    else .ok { t with currentMessageType := .text }
  | .binary =>
    if t.currentMessageType ≠ .none then .error protocolError
    else .ok { t with currentMessageType := .binary }
  | _ => if t.fin then .ok t else .error protocolError

variable (byte : UInt8)

def startFrame : Except Failure Transformer :=
  if byte &&& 0x70 ≠ 0 then .error protocolError
  else
    match Opcode.ofCode (byte &&& 0xF) with
    | none => .error protocolError
    | some opcode => { t with
      state := .lenFirst
      fin := byte &&& 0x80 != 0
      opcode := some opcode }.checkOpcode opcode

def lengthFirst : Except Failure Transformer :=
  let len := (byte &&& 0x7F).toNat
  let t := { t with
    masked := byte &&& 0x80 != 0
    len := len }
  if t.isControlFrame ∧ 125 < len then .error protocolError
  else if len = 126 then .ok { t with
    len := 0
    remainingLenBytes := 2
    state := .lenRest }
  else if len = 127 then .ok { t with
    len := 0
    remainingLenBytes := 8
    state := .lenRest }
  else t.lengthDone

def lengthRest : Except Failure Transformer :=
  let t := { t with
    len := t.len <<< 8 ||| byte.toNat
    remainingLenBytes := t.remainingLenBytes-1 }
  if t.remainingLenBytes = 0 then t.lengthDone else .ok t

def maskByte : Except Failure Transformer :=
  let t := { t with
    maskingBytes := Function.update t.maskingBytes (4-t.remainingMaskingKeyBytes) byte
    remainingMaskingKeyBytes := t.remainingMaskingKeyBytes-1 }
  if t.remainingMaskingKeyBytes = 0 then
    { t with remainingPayloadBytes := t.len }.startPayload
  else .ok t

/-- Add a part of the payload, at `index` in the buffer, to the builder. -/
def collect (index : ℕ) (data : List UInt8) : Transformer :=
  { t with
    remainingPayloadBytes := t.remainingPayloadBytes-data.length
    unmaskingIndex := if t.masked then (t.unmaskingIndex+data.length)%4 else t.unmaskingIndex
    payload := t.payload ++
      if t.masked then unmask t.maskingBytes t.unmaskingIndex index data else data }

def partEnd : Except Failure Transformer :=
  if t.isControlFrame then
    if t.remainingPayloadBytes = 0 then t.controlFrameEnd else .ok t
  else if t.currentMessageType = .none then .error protocolError
  else if t.remainingPayloadBytes = 0 then t.messageFrameEnd
  else .ok t

def payloadPart (index : ℕ) (data : List UInt8) : Except Failure Transformer :=
  (t.collect index data).partEnd

def headerByte : Except Failure Transformer :=
  match t.state with
  | .start => t.startFrame byte
  | .lenFirst => t.lengthFirst byte
  | .lenRest => t.lengthRest byte
  | .mask => t.maskByte byte
  | .payload | .closed => .ok t

end

/-- The loop over a buffer, of which `rest` is left from `index` on. -/
def addLoop : ℕ → Transformer → ℕ → List UInt8 → Except Failure Transformer
  | _, t, _, [] => .ok t
  | 0, t, _, _ => .ok t
  | fuel+1, t, index, byte :: rest =>
    if t.state = .closed then .ok t
    else if t.state = .payload then do
      let payloadLength := min (rest.length+1) t.remainingPayloadBytes
      let t ← t.payloadPart index ((byte :: rest).take payloadLength)
      addLoop fuel t (index+payloadLength) ((byte :: rest).drop payloadLength)
    else do
      let t ← t.headerByte byte
      addLoop fuel t (index+1) rest

def add (t : Transformer) (buffer : List UInt8) : Except Failure Transformer :=
  if t.state = .closed then .error (.webSocketException "Data on closed connection")
  else addLoop buffer.length t 0 buffer

end Transformer

/-- The `k` bytes of a number in network byte order. -/
def lengthBytes (n : ℕ) : ℕ → List UInt8
  | 0 => []
  | k+1 => UInt8.ofNat (n >>> (k*8) &&& 0xFF) :: lengthBytes n k

def lengthField (n : ℕ) : List UInt8 :=
  if 65535 < n then 127 :: lengthBytes n 8
  else if 125 < n then 126 :: lengthBytes n 2
  else lengthBytes n 1

/-- `createFrame`, with the bytes that the random generator gives for the mask. -/
def createFrame (opcode : Opcode) (data : List UInt8) (serverSide : Bool) (maskBytes : MaskingBytes) :
    List UInt8 :=
  let header := (0x80 ||| opcode.code) :: lengthField data.length
  if serverSide then header ++ data
  else header.modify 1 (fun b => 0x80 ||| b) ++ (List.range 4).map maskBytes ++ unmaskBlocks maskBytes 0 data

inductive Message
  | text (s : List UInt16)
  | binary (bytes : List UInt8)
  | ping (payload : List UInt8)
  | pong (payload : List UInt8)

/-- `add` of the outgoing transformer. -/
def Message.frame (serverSide : Bool) (maskBytes : MaskingBytes) : Message → Except Failure (List UInt8)
  | text s => do
    let data ← (Utf8Encoder.convert (codeUnits s) 0 none).mapError .formatException
    return createFrame .text (data.map UInt8.ofNat) serverSide maskBytes
  | binary bytes => .ok (createFrame .binary bytes serverSide maskBytes)
  | ping payload => .ok (createFrame .ping payload serverSide maskBytes)
  | pong payload => .ok (createFrame .pong payload serverSide maskBytes)

end DartSdk.WebSocket
