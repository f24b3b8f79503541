import DartSdk.HttpParser
import DartSdk.Iteration

/-! What one byte can do to the parser is said once. The invariant of all runs follows, and that a
run does not depend on how the stream is cut into buffers. -/
namespace DartSdk.Http

open List
open Outcome (ok_bind bind_eq_ok foldlM_invariant)

variable {buffer : List ℕ}

/-- The states before the first body state. -/
def State.beforeBody : State → Bool
  | chunkSizeStartingCr | chunkSizeStartingLf | chunkSize | chunkSizeExtension | chunkSizeEnding
  | chunkedBodyDoneCr | chunkedBodyDoneLf | body | closed | upgraded | failure => false
  | _ => true

/-- The states of a message whose first line was read and whose headers have not ended. -/
def State.inHeader : State → Bool
  | headerStart | headerField | headerValueStart | headerValue | headerValueFoldingOrEnding
  | headerValueFoldOrEnd | headerEnding => true
  | _ => false

/-- The states in which no more bytes are read. -/
def State.stopped : State → Bool
  | closed | upgraded | failure => true
  | _ => false

lemma State.beforeBody_of_inHeader {s : State} (h : s.inHeader = true) : s.beforeBody = true := by
  cases s <;> first | rfl | cases h

lemma State.active_of_inHeader {s : State} (h : s.inHeader = true) : s.stopped = false := by
  cases s <;> first | rfl | cases h

/-- The status codes of responses that never have a body. -/
def Bodiless (statusCode : ℤ) : Prop :=
  (100 ≤ statusCode ∧ statusCode ≤ 199) ∨ statusCode = 204 ∨ statusCode = 304

instance (statusCode : ℤ) : Decidable (Bodiless statusCode) := by
  unfold Bodiless
  infer_instance

namespace Parser

variable {U : Type} {parseUri : Text → Except Failure U} {p p' q : Parser U} {byte : ℕ}

lemma expect_bind {val1 val2 : ℕ} {α : Type} {f : Unit → Except Failure α} {a : α}
    (h : (expect val1 val2 >>= f) = .ok a) : val1 = val2 ∧ f () = .ok a := by
  obtain ⟨u,hu,hf⟩ := bind_eq_ok h
  unfold expect at hu
  split_ifs at hu with heq
  exact ⟨heq,hf⟩

/-- What most bytes leave as it was. -/
structure Kept (p p' : Parser U) : Prop where
  requestParser : p'.requestParser = p.requestParser
  current : p'.current = p.current
  done : p'.done = p.done
  error : p'.error = p.error

/-- What a byte does that ends neither the headers nor the body. -/
structure Reads (p p' : Parser U) : Prop extends Kept p p' where
  noMessageBody : p.noMessageBody = true → p'.noMessageBody = true
  active : p'.state.stopped = false
  before : p'.state.beforeBody = p.state.beforeBody
  remaining : p'.state.beforeBody = true → p'.remainingContent = p.remainingContent
  body : p'.state = .body → 0 < p'.remainingContent
  header : p.state.inHeader = true → p'.state.inHeader = true ∧ p'.statusCode = p.statusCode ∧
    p'.messageType = p.messageType ∧ p'.noMessageBody = p.noMessageBody
  line : p.state.inHeader = false → p'.state.inHeader = true →
    p'.messageType = messageRequest ∨ (Bodiless p'.statusCode → p'.noMessageBody = true)

lemma addHeader_cases (h : p.addHeader = .ok p') : ∃ headers chunked upgrade, p' = { p with
      headers := some headers, chunked := chunked, connectionUpgrade := upgrade, headerField := [],
      headerValue := [] } := by
  unfold addHeader at h
  split at h
  · cases h
  · obtain ⟨headers', -,hret⟩ := bind_eq_ok h
    cases hret
    exact ⟨_,_,_,rfl⟩

/-- What the first line says of a message. -/
structure Begins (p : Parser U) (message : Message U) : Prop where
  body : message.body = []
  method : p.requestParser = true → message.method = p.method
  status : p.requestParser = false →
    message.statusCode = p.statusCode ∧ message.reasonPhrase = p.uriOrReasonPhrase

lemma createIncoming_begins {headers : Headers} {length : ℤ} {message : Message U}
    (h : p.createIncoming parseUri headers length = .ok message) : Begins p message := by
  unfold createIncoming at h
  split_ifs at h with hrequest
  · obtain ⟨uri, -,hret⟩ := bind_eq_ok h
    cases hret
    exact ⟨rfl,fun _ => rfl,fun hfalse => absurd (hrequest.symm.trans hfalse) (by decide)⟩
  · cases h
    exact ⟨rfl,fun htrue => absurd htrue hrequest,fun _ => ⟨rfl,rfl⟩⟩

/-- The parser after a message without a body. -/
def restarted (p : Parser U) (message : Message U) : Parser U :=
  { p.reset with done := p.done ++ [message] }

/-- What the end of the headers does when a body or another protocol follows. -/
structure Opens (p p' : Parser U) (message : Message U) : Prop where
  requestParser : p'.requestParser = p.requestParser
  error : p'.error = p.error
  after :
    (p.connectionUpgrade = true ∧ p'.state = .upgraded ∧ p'.current = p.current ∧
      p'.done = p.done ++ [message]) ∨
    (¬(p.messageType = messageResponse ∧ p.noMessageBody = true) ∧ p'.current = some message ∧
      p'.done = p.done ∧ (p'.state = .chunkSize ∨ (p'.state = .body ∧
        (p'.remainingContent = p.remainingContent ∨ 0 < p'.remainingContent))))

lemma headersEnd_cases (h : p.headersEnd parseUri = .ok p') (hactive : p.state.stopped = false) :
    ∃ message, Begins p message ∧ (p' = p.restarted message ∨ Opens p p' message) := by
  have hstate : p.state ≠ .upgraded := by
    intro hup
    rw [hup] at hactive
    cases hactive
  unfold headersEnd at h
  split at h
  · cases h
  · dsimp only at h
    obtain ⟨message,hmessage,hrest⟩ := bind_eq_ok h
    refine ⟨message,createIncoming_begins hmessage,?_⟩
    split_ifs at hrest with hup hzero hchunked hlength
    · cases hrest
      exact .inr ⟨rfl,rfl,.inl ⟨hup,rfl,rfl,rfl⟩⟩
    · cases hrest
      left
      simp [restarted,reset,if_neg hstate]
    · cases hrest
      exact .inr ⟨rfl,rfl,.inr ⟨fun hno => hzero (.inr hno),rfl,rfl,.inl rfl⟩⟩
    · cases hrest
      exact .inr ⟨rfl,rfl,.inr ⟨fun hno => hzero (.inr hno),rfl,rfl,.inr ⟨rfl,.inr hlength⟩⟩⟩
    · cases hrest
      exact .inr ⟨rfl,rfl,.inr ⟨fun hno => hzero (.inr hno),rfl,rfl,.inr ⟨rfl,.inl rfl⟩⟩⟩

lemma headerEnding_cases (h : p.headerEnding parseUri byte = .ok p') :
    byte = charLf ∧ p.headersEnd parseUri = .ok p' :=
  expect_bind h

lemma headerOrEnd_cases (h : p.headerOrEnd parseUri byte = .ok p') :
    (byte = charLf ∧ { p with state := .headerEnding }.headersEnd parseUri = .ok p') ∨
    (byte ≠ charLf ∧ ∃ state field, (state = .headerEnding ∨ state = .headerField) ∧
      p' = { p with state := state, headerField := field }) := by
  unfold headerOrEnd at h
  split_ifs at h with hcr hlf
  · cases h
    exact .inr ⟨by rw [hcr]; decide,_,_,.inl rfl,rfl⟩
  · exact .inl (headerEnding_cases h)
  · cases h
    exact .inr ⟨hlf,_,_,.inr rfl,rfl⟩

/-- What the bytes of a header leave as it was. -/
structure KeptLine (p p' : Parser U) : Prop extends Kept p p' where
  remaining : p'.remainingContent = p.remainingContent
  noMessageBody : p'.noMessageBody = p.noMessageBody
  statusCode : p'.statusCode = p.statusCode
  messageType : p'.messageType = p.messageType

lemma Reads.header_of (hs : p.state.inHeader = true) (hp' : p'.state.inHeader = true)
    (hkept : KeptLine p p') : Reads p p' where
  toKept := hkept.toKept
  noMessageBody := hkept.noMessageBody.trans
  active := State.active_of_inHeader hp'
  before := (State.beforeBody_of_inHeader hp').trans (State.beforeBody_of_inHeader hs).symm
  remaining := fun _ => hkept.remaining
  body := by
    intro hbody
    rw [hbody] at hp'
    cases hp'
  header := fun _ => ⟨hp',hkept.statusCode,hkept.messageType,hkept.noMessageBody⟩
  line := by
    intro hfalse
    rw [hs] at hfalse
    cases hfalse

/-- A line feed here ends the headers. -/
def AtHeadersEnd (p : Parser U) : Prop :=
  p.state = .headerStart ∨ p.state = .headerValueFoldOrEnd ∨ p.state = .headerEnding

/-- What `parseByte` can do. -/
inductive Stepped (parseUri : Text → Except Failure U) (p : Parser U) (byte : ℕ) (p' : Parser U) :
    Prop
  | reads (h : Reads p p') (hbyte : AtHeadersEnd p → byte ≠ charLf)
  | headersEnd (q : Parser U) (h : Reads p q) (hstate : p.state.inHeader = true)
      (hline : q.method = p.method ∧ q.uriOrReasonPhrase = p.uriOrReasonPhrase)
      (hend : q.headersEnd parseUri = .ok p')
  | bodyDone (hstate : p.state = .chunkedBodyDoneLf) (h : p' = p.reset.closeIncoming)

lemma headerOrEnd_stepped (h : q.headerOrEnd parseUri byte = .ok p') (hs : p.state.inHeader = true)
    (hline : q.method = p.method ∧ q.uriOrReasonPhrase = p.uriOrReasonPhrase)
    (hkept : KeptLine p q) : Stepped parseUri p byte p' := by
  have hsame : ∀ state field, KeptLine p { q with state := state, headerField := field } :=
    fun _ _ => ⟨⟨hkept.requestParser,hkept.current,hkept.done,hkept.error⟩,hkept.remaining,
      hkept.noMessageBody,hkept.statusCode,hkept.messageType⟩
  obtain ⟨-,hend⟩ | ⟨hne,state,field,hstate,rfl⟩ := headerOrEnd_cases h
  · exact .headersEnd { q with state := .headerEnding } (.header_of hs rfl (hsame _ _)) hs hline hend
  · refine .reads (.header_of hs ?_ (hsame _ _)) fun _ => hne
    obtain rfl | rfl := hstate <;> rfl

lemma Stepped.line (hs : p.state.beforeBody = true ∧ p.state.inHeader = false)
    (hp' : p'.state.beforeBody = true) (hline : p'.state.inHeader = true →
      p'.messageType = messageRequest ∨ (Bodiless p'.statusCode → p'.noMessageBody = true))
    (hactive : p'.state.stopped = false) (hkept : Kept p p')
    (hremaining : p'.remainingContent = p.remainingContent)
    (hflag : p.noMessageBody = true → p'.noMessageBody = true) : Stepped parseUri p byte p' := by
  refine .reads ⟨hkept,hflag,hactive,hp'.trans hs.1.symm,fun _ => hremaining,fun hbody => ?_,
    fun hheader => ?_,fun _ => hline⟩ ?_
  · rw [hbody] at hp'
    cases hp'
  · rw [hs.2] at hheader
    cases hheader
  · rintro (hstate | hstate | hstate) <;>
    · rw [hstate] at hs
      cases hs.2

lemma Stepped.chunk (hs : p.state.beforeBody = false ∧ p.state.inHeader = false)
    (hp' : p'.state.beforeBody = false) (hh' : p'.state.inHeader = false)
    (hactive : p'.state.stopped = false) (hbody : p'.state = .body → 0 < p'.remainingContent)
    (hkept : Kept p p') (hflag : p'.noMessageBody = p.noMessageBody) : Stepped parseUri p byte p' := by
  refine .reads ⟨hkept,hflag.trans,hactive,hp'.trans hs.1.symm,fun hbefore => ?_,hbody,
    fun hheader => ?_,fun _ hheader => ?_⟩ ?_
  · rw [hp'] at hbefore
    cases hbefore
  · rw [hs.2] at hheader
    cases hheader
  · rw [hh'] at hheader
    cases hheader
  · rintro (hstate | hstate | hstate) <;>
    · rw [hstate] at hs
      cases hs.2

lemma bodiless_of_ending {code : ℤ} (hrange : ¬(code < 100 ∨ code > 599))
    (hnot : ¬(code ≤ 199 ∨ code = 204 ∨ code = 304)) : ¬Bodiless code := by
  unfold Bodiless
  omega

lemma Stepped.within (hs : p.state.beforeBody = true ∧ p.state.inHeader = false)
    (hp' : p'.state.beforeBody = true ∧ p'.state.inHeader = false ∧ p'.state.stopped = false)
    (hkept : Kept p p') (hremaining : p'.remainingContent = p.remainingContent)
    (hflag : p'.noMessageBody = p.noMessageBody) : Stepped parseUri p byte p' := by
  refine .line hs hp'.1 ?_ hp'.2.2 hkept hremaining hflag.trans
  intro hheader
  rw [hp'.2.1] at hheader
  cases hheader

section
variable (h : p.parseByte parseUri byte = .ok p')
include h

lemma parseByte_line
    (hs : p.state.beforeBody = true ∧ p.state.inHeader = false) : Stepped parseUri p byte p' := by
  cases hstate : p.state with
  | start | requestLineMethod | requestLineUri | responseLineStatusCode
  | responseLineReasonPhrase | methodOrResponseHttpVersion =>
    simp only [parseByte,hstate] at h
    split_ifs at h <;> cases h <;> exact .within hs ⟨rfl,rfl,rfl⟩ ⟨rfl,rfl,rfl,rfl⟩ rfl rfl
  | responseHttpVersion =>
    simp only [parseByte,hstate] at h
    split_ifs at h
    all_goals
      first | cases h | cases (expect_bind h).2
      exact .within hs ⟨rfl,rfl,rfl⟩ ⟨rfl,rfl,rfl,rfl⟩ rfl rfl
  | requestLineHttpVersion =>
    simp only [parseByte,hstate] at h
    split_ifs at h
    case neg =>
      cases (expect_bind h).2
      exact .line hs rfl (fun _ => .inl rfl) rfl ⟨rfl,rfl,rfl,rfl⟩ rfl id
    all_goals
      first | cases h | cases (expect_bind h).2
      exact .within hs ⟨rfl,rfl,rfl⟩ ⟨rfl,rfl,rfl,rfl⟩ rfl rfl
  | requestLineEnding =>
    simp only [parseByte,hstate] at h
    cases (expect_bind h).2
    exact .line hs rfl (fun _ => .inl rfl) rfl ⟨rfl,rfl,rfl,rfl⟩ rfl id
  | responseLineEnding =>
    simp only [parseByte,hstate] at h
    have hret := (expect_bind h).2
    split_ifs at hret with hrange hnone
    · cases hret
      exact .line hs rfl (fun _ => .inr fun _ => rfl) rfl ⟨rfl,rfl,rfl,rfl⟩ rfl fun _ => rfl
    · cases hret
      exact .line hs rfl
        (fun _ => .inr fun hcode => absurd hcode (bodiless_of_ending hrange hnone)) rfl
        ⟨rfl,rfl,rfl,rfl⟩ rfl id
  | _ => simp [hstate,State.beforeBody,State.inHeader] at hs

lemma parseByte_header (hs : p.state.inHeader = true) : Stepped parseUri p byte p' := by
  cases hstate : p.state with
  | headerStart =>
    simp only [parseByte,hstate] at h
    exact headerOrEnd_stepped h hs ⟨rfl,rfl⟩ ⟨⟨rfl,rfl,rfl,rfl⟩,rfl,rfl,rfl,rfl⟩
  | headerField | headerValueStart | headerValue =>
    simp only [parseByte,hstate] at h
    split_ifs at h <;> cases h <;>
      exact .reads (.header_of hs (by first | rfl | exact hs) ⟨⟨rfl,rfl,rfl,rfl⟩,rfl,rfl,rfl,rfl⟩)
        (by simp [AtHeadersEnd,hstate])
  | headerValueFoldingOrEnding =>
    simp only [parseByte,hstate] at h
    cases (expect_bind h).2
    exact .reads (.header_of hs rfl ⟨⟨rfl,rfl,rfl,rfl⟩,rfl,rfl,rfl,rfl⟩)
      (by simp [AtHeadersEnd,hstate])
  | headerValueFoldOrEnd =>
    simp only [parseByte,hstate] at h
    split_ifs at h with hblank
    · cases h
      refine .reads (.header_of hs rfl ⟨⟨rfl,rfl,rfl,rfl⟩,rfl,rfl,rfl,rfl⟩) fun _ => ?_
      rintro rfl
      simp at hblank
    · obtain ⟨q,hq,hend⟩ := bind_eq_ok h
      obtain ⟨headers,chunked,upgrade,rfl⟩ := addHeader_cases hq
      exact headerOrEnd_stepped hend hs ⟨rfl,rfl⟩ ⟨⟨rfl,rfl,rfl,rfl⟩,rfl,rfl,rfl,rfl⟩
  | headerEnding =>
    simp only [parseByte,hstate] at h
    exact .headersEnd p (.header_of hs hs ⟨⟨rfl,rfl,rfl,rfl⟩,rfl,rfl,rfl,rfl⟩) hs ⟨rfl,rfl⟩
      (headerEnding_cases h).2
  | _ => simp [hstate,State.inHeader] at hs

lemma parseByte_chunk (hs : p.state.beforeBody = false)
    (hactive : p.state.stopped = false) (hbody : p.state ≠ .body) : Stepped parseUri p byte p' := by
  have hchunk : p.state.beforeBody = false ∧ p.state.inHeader = false := by
    refine ⟨hs,?_⟩
    cases hstate : p.state <;> simp_all [State.beforeBody,State.inHeader]
  cases hstate : p.state with
  | chunkSizeStartingCr | chunkSizeStartingLf | chunkedBodyDoneCr =>
    simp only [parseByte,hstate] at h
    cases (expect_bind h).2
    exact .chunk hchunk rfl rfl rfl nofun ⟨rfl,rfl,rfl,rfl⟩ rfl
  | chunkSize =>
    simp only [parseByte,hstate] at h
    split_ifs at h
    all_goals
      first | cases h | obtain ⟨value, -,⟨⟩⟩ := bind_eq_ok h
      exact .chunk hchunk rfl rfl rfl nofun ⟨rfl,rfl,rfl,rfl⟩ rfl
  | chunkSizeExtension =>
    simp only [parseByte,hstate] at h
    split_ifs at h
    · cases h
      exact .chunk hchunk rfl rfl rfl nofun ⟨rfl,rfl,rfl,rfl⟩ rfl
    · cases h
      exact .chunk hchunk hs hchunk.2 hactive (fun hb => absurd hb hbody) ⟨rfl,rfl,rfl,rfl⟩ rfl
  | chunkSizeEnding =>
    simp only [parseByte,hstate] at h
    cases (expect_bind h).2
    by_cases hremaining : p.remainingContent > 0
    · simp only [if_pos hremaining]
      exact .chunk hchunk rfl rfl rfl (fun _ => hremaining) ⟨rfl,rfl,rfl,rfl⟩ rfl
    · simp only [if_neg hremaining]
      exact .chunk hchunk rfl rfl rfl nofun ⟨rfl,rfl,rfl,rfl⟩ rfl
  | chunkedBodyDoneLf =>
    simp only [parseByte,hstate] at h
    cases (expect_bind h).2
    exact .bodyDone hstate rfl
  | body => exact absurd hstate hbody
  | _ => simp [hstate,State.beforeBody,State.stopped] at hs hactive

lemma parseByte_cases (hactive : p.state.stopped = false)
    (hbody : p.state ≠ .body) : Stepped parseUri p byte p' := by
  cases hbefore : p.state.beforeBody with
  | false => exact parseByte_chunk h hbefore hactive hbody
  | true =>
    cases hheader : p.state.inHeader with
    | false => exact parseByte_line h ⟨hbefore,hheader⟩
    | true => exact parseByte_header h hheader

end

/-- The parser when bytes of the body were delivered. -/
def deliver (p : Parser U) (data : List ℕ) : Parser U := { p with
  current := p.current.map fun message => { message with body := message.body ++ data }
  remainingContent :=
    if p.remainingContent = -1 then -1 else p.remainingContent-data.length }

/-- The parser at the end of a body or of a chunk. -/
def finish (p : Parser U) : Parser U :=
  if p.chunked then { p with state := .chunkSizeStartingCr } else p.reset.closeIncoming

lemma parseBody_open (h : p.remainingContent = -1 ∨ (buffer.length : ℤ) < p.remainingContent) :
    p.parseBody buffer = (p.deliver buffer,[]) := by
  have hdata : (if p.remainingContent ≥ 0 ∧ (buffer.length : ℤ) > p.remainingContent then
      buffer.take p.remainingContent.toNat else buffer) = buffer := if_neg (by omega)
  unfold parseBody deliver
  dsimp only
  rw [hdata,drop_length]
  by_cases hunknown : p.remainingContent = -1
  · simp [hunknown]
  · simp only [hunknown,ne_eq,not_false_eq_true,if_true,if_false]
    rw [if_neg (by omega)]

lemma parseBody_done (h0 : 0 ≤ p.remainingContent) (h : p.remainingContent ≤ (buffer.length : ℤ)) :
    p.parseBody buffer = ((p.deliver (buffer.take p.remainingContent.toNat)).finish,
      buffer.drop p.remainingContent.toNat) := by
  have hdata : (if p.remainingContent ≥ 0 ∧ (buffer.length : ℤ) > p.remainingContent then
      buffer.take p.remainingContent.toNat else buffer) =
      buffer.take p.remainingContent.toNat := by
    split_ifs with hlt
    · rfl
    · exact (take_of_length_le (by omega)).symm
  have hlength : (buffer.take p.remainingContent.toNat).length = p.remainingContent.toNat := by
    rw [length_take]
    omega
  unfold parseBody deliver finish
  dsimp only
  rw [hdata,hlength]
  have hunknown : p.remainingContent ≠ -1 := by omega
  have hzero : p.remainingContent-p.remainingContent.toNat = 0 := by omega
  simp only [hunknown,ne_eq,hzero]
  cases p.chunked <;> rfl

lemma deliver_append (a b : List ℕ) (h : p.remainingContent = -1 ∨
    (a.length : ℤ) < p.remainingContent) : (p.deliver a).deliver b = p.deliver (a ++ b) := by
  unfold deliver
  by_cases hunknown : p.remainingContent = -1
  · cases hcurrent : p.current <;> simp [hunknown]
  · cases hcurrent : p.current <;> simp [hunknown] <;> omega

lemma parseBody_cons (h : p.remainingContent = -1 ∨ 1 < p.remainingContent) :
    p.parseBody (byte :: buffer) = (p.deliver [byte]).parseBody buffer := by
  have hdeliver (data : List ℕ) : (p.deliver [byte]).deliver data = p.deliver (byte :: data) :=
    deliver_append [byte] data (by simpa using h)
  by_cases hunknown : p.remainingContent = -1
  · rw [parseBody_open (.inl hunknown),parseBody_open (.inl (by simp [deliver,hunknown])),hdeliver]
  · have hremaining : (p.deliver [byte]).remainingContent = p.remainingContent-1 := by
      simp [deliver,hunknown]
    by_cases hlt : ((byte :: buffer).length : ℤ) < p.remainingContent
    · rw [parseBody_open (.inr hlt),parseBody_open,hdeliver]
      rw [length_cons] at hlt
      omega
    · obtain ⟨n,hn⟩ : ∃ n : ℕ, p.remainingContent = n+1 :=
        ⟨(p.remainingContent-1).toNat,by omega⟩
      rw [length_cons] at hlt
      rw [parseBody_done (by omega) (by rw [length_cons]; omega),
        parseBody_done (by omega) (by omega),hremaining,hdeliver,hn,
        show ((n : ℤ)+1).toNat = n+1 by omega,show ((n : ℤ)+1-1).toNat = n by omega,
        take_succ_cons,drop_succ_cons]

/-- What one byte does. -/
def step (parseUri : Text → Except Failure U) (p : Parser U) (byte : ℕ) : Parser U :=
  p.onData parseUri [byte]

lemma onData_stopped (h : p.state.stopped = true) (buffer : List ℕ) :
    p.onData parseUri buffer = p := by
  unfold onData
  rw [if_pos]
  cases hs : p.state <;> simp_all [State.stopped]

variable (h : p.state.stopped = false)
include h

lemma onData_active (buffer : List ℕ) :
    p.onData parseUri buffer = parseLoop parseUri (buffer.length+1) p buffer := by
  unfold onData
  rw [if_neg]
  cases hs : p.state <;> simp_all [State.stopped]

omit h in
lemma parseLoop_body {fuel : ℕ} {rest : List ℕ} (h : p.state = .body) :
    parseLoop parseUri (fuel+1) p (byte :: rest) =
      parseLoop parseUri fuel (p.parseBody (byte :: rest)).1 (p.parseBody (byte :: rest)).2 := by
  rw [parseLoop,if_neg (by rw [h]; decide),if_pos h]

lemma parseLoop_byte {fuel : ℕ} {rest : List ℕ}
    (hbody : p.state ≠ .body) : parseLoop parseUri (fuel+1) p (byte :: rest) =
      match p.parseByte parseUri byte with
      | .ok p => parseLoop parseUri fuel p rest
      | .error failure => p.fail failure := by
  have hne : ¬(p.state = .failure ∨ p.state = .upgraded) := by
    rintro (hs | hs) <;> simp [hs,State.stopped] at h
  rw [parseLoop,if_neg hne]
  refine (if_neg hbody).trans ?_
  cases p.parseByte parseUri byte <;> rfl

omit h in
lemma parseLoop_stopped {fuel : ℕ} (h : p.state = .failure ∨ p.state = .upgraded) :
    parseLoop parseUri (fuel+1) p buffer = p := by
  cases buffer with
  | nil => rfl
  | cons byte rest => rw [parseLoop,if_pos h]

lemma step_byte (hbody : p.state ≠ .body) :
    p.step parseUri byte = match p.parseByte parseUri byte with
      | .ok p => p
      | .error failure => p.fail failure := by
  rw [step,onData_active h,length_singleton,parseLoop_byte h hbody]
  cases p.parseByte parseUri byte <;> rfl

/-- The invariant of all runs. -/
structure Sound (p : Parser U) : Prop where
  idle : p.state.beforeBody = true → p.current = none ∧ p.remainingContent = -1
  busy : p.state.beforeBody = false → p.state.stopped = false → p.current.isSome = true
  body : p.state = .body → p.remainingContent = -1 ∨ 0 < p.remainingContent
  opened : p.state ≠ .closed
  error : p.state ≠ .failure → p.error = none
  status : p.state.inHeader = true →
    p.messageType = messageRequest ∨ (Bodiless p.statusCode → p.noMessageBody = true)

omit h in
lemma new_sound (requestParser : Bool) : (new requestParser : Parser U).Sound where
  idle := fun _ => ⟨rfl,rfl⟩
  busy := nofun
  body := nofun
  opened := nofun
  error := fun _ => rfl
  status := nofun

omit h in
lemma fail_sound (failure : Failure) : (p.fail failure).Sound where
  idle := nofun
  busy := nofun
  body := nofun
  opened := nofun
  error := fun h => absurd rfl h
  status := nofun

omit h in
lemma Reads.sound (h : Reads p p') (hp : p.Sound) (hactive : p.state.stopped = false) :
    p'.Sound where
  idle := by
    intro hbefore
    obtain ⟨hcurrent,hunset⟩ := hp.idle (h.before.symm.trans hbefore)
    exact ⟨h.current.trans hcurrent,(h.remaining hbefore).trans hunset⟩
  busy := by
    intro hbefore _
    rw [h.current]
    exact hp.busy (h.before.symm.trans hbefore) hactive
  body := fun hbody => .inr (h.body hbody)
  opened := by
    intro hclosed
    have hrun := h.active
    rw [hclosed] at hrun
    cases hrun
  error := by
    intro _
    refine h.error.trans (hp.error ?_)
    intro hfail
    rw [hfail] at hactive
    cases hactive
  status := by
    intro hheader
    cases hp0 : p.state.inHeader with
    | false => exact h.line hp0 hheader
    | true =>
      obtain ⟨-,hcode,htype,hflag⟩ := h.header hp0
      rw [hcode,htype,hflag]
      exact hp.status hp0

lemma reset_state : p.reset = { p with
    state := .start, messageType := messageUndetermined, headerField := [], headerValue := [],
    method := [], uriOrReasonPhrase := [], statusCode := 0, statusCodeLength := 0,
    httpVersion := .undetermined, transferLength := -1, connectionUpgrade := false,
    chunked := false, noMessageBody := false, remainingContent := -1, headers := none } := by
  unfold reset
  rw [if_neg]
  intro hup
  rw [hup] at h
  cases h

omit h in
lemma Sound.error_none (hp : p.Sound) (h : p.state.stopped = false) : p.error = none := by
  refine hp.error ?_
  intro hfail
  rw [hfail] at h
  cases h

omit h in
lemma sound_of_start (hs : p.state = .start) (hcurrent : p.current = none)
    (hremaining : p.remainingContent = -1) (herror : p.error = none) : p.Sound where
  idle := fun _ => ⟨hcurrent,hremaining⟩
  busy := by rw [hs]; nofun
  body := by rw [hs]; nofun
  opened := by rw [hs]; nofun
  error := fun _ => herror
  status := by rw [hs]; nofun

lemma reset_closeIncoming : p.reset.closeIncoming = { p.reset with
    current := none, done := p.done ++ p.current.toList } := by
  rw [reset_state h,closeIncoming]
  cases hcurrent : p.current <;> simp

omit h

lemma finish_sound (hp : p.error = none) (h : p.state.stopped = false)
    (hcurrent : p.current.isSome = true) : p.finish.Sound := by
  unfold finish
  split_ifs
  · exact ⟨nofun,fun _ _ => hcurrent,nofun,nofun,fun _ => hp,nofun⟩
  · rw [reset_closeIncoming h,reset_state h]
    exact sound_of_start rfl rfl rfl hp

lemma headersEnd_sound (hp : p.Sound) (hheader : p.state.inHeader = true)
    (h : p.headersEnd parseUri = .ok p') : p'.Sound := by
  have hbefore : p.state.beforeBody = true ∧ p.state.stopped = false :=
    ⟨State.beforeBody_of_inHeader hheader,State.active_of_inHeader hheader⟩
  obtain ⟨hcurrent,hremaining⟩ := hp.idle hbefore.1
  have herror := hp.error_none hbefore.2
  obtain ⟨message, -,rfl | hopens⟩ := headersEnd_cases h hbefore.2
  · rw [restarted,reset_state hbefore.2]
    exact sound_of_start rfl hcurrent rfl herror
  · have herror' := hopens.error.trans herror
    obtain ⟨-,hs, -⟩ | ⟨-,hopen, -,hs | ⟨hs,hlength⟩⟩ := hopens.after
    · exact ⟨by rw [hs]; nofun,by rw [hs]; nofun,by rw [hs]; nofun,by rw [hs]; nofun,
        fun _ => herror',by rw [hs]; nofun⟩
    · exact ⟨by rw [hs]; nofun,fun _ _ => hopen ▸ rfl,by rw [hs]; nofun,by rw [hs]; nofun,
        fun _ => herror',by rw [hs]; nofun⟩
    · exact ⟨by rw [hs]; nofun,fun _ _ => hopen ▸ rfl,fun _ => hremaining ▸ hlength,
        by rw [hs]; nofun,fun _ => herror',by rw [hs]; nofun⟩

lemma Stepped.sound (h : Stepped parseUri p byte p') (hp : p.Sound)
    (hactive : p.state.stopped = false) : p'.Sound := by
  cases h with
  | reads h _ => exact h.sound hp hactive
  | headersEnd q h hstate _ hend => exact headersEnd_sound (h.sound hp hactive) (h.header hstate).1 hend
  | bodyDone hstate h =>
    rw [h,reset_closeIncoming hactive,reset_state hactive]
    exact sound_of_start rfl rfl rfl (hp.error_none hactive)

lemma step_body_open (hs : p.state = .body)
    (h : p.remainingContent = -1 ∨ 1 < p.remainingContent) : p.step parseUri byte = p.deliver [byte] := by
  rw [step,onData_active (by rw [hs]; rfl),length_singleton,parseLoop_body hs,
    parseBody_open (by simpa using h)]
  rfl

lemma step_body_last (hs : p.state = .body) (h : p.remainingContent = 1) :
    p.step parseUri byte = (p.deliver [byte]).finish := by
  rw [step,onData_active (by rw [hs]; rfl),length_singleton,parseLoop_body hs,
    parseBody_done (by omega) (by simp [h]),h]
  rfl

lemma step_sound (hp : p.Sound) (byte : ℕ) : (p.step parseUri byte).Sound := by
  cases hstopped : p.state.stopped with
  | true => rwa [step,onData_stopped hstopped]
  | false =>
    by_cases hbody : p.state = .body
    · have hcurrent : (p.deliver [byte]).current.isSome = true := by
        rw [deliver,Option.isSome_map]
        exact hp.busy (by rw [hbody]; rfl) hstopped
      by_cases hlast : p.remainingContent = 1
      · rw [step_body_last hbody hlast]
        exact finish_sound (hp.error_none hstopped) hstopped hcurrent
      · have hopen := hp.body hbody
        rw [step_body_open hbody (by omega)]
        refine ⟨?_,fun _ _ => hcurrent,?_,hp.opened,hp.error,?_⟩
        · rw [show (p.deliver [byte]).state = .body from hbody]
          nofun
        · intro _
          simp only [deliver,length_singleton]
          split_ifs <;> omega
        · rw [show (p.deliver [byte]).state = .body from hbody]
          nofun
    · rw [step_byte hstopped hbody]
      cases hparse : p.parseByte parseUri byte with
      | error failure => exact fail_sound failure
      | ok p' => exact (parseByte_cases hparse hstopped hbody).sound hp hstopped

/-- The parser before a message. -/
structure Fresh (p : Parser U) : Prop where
  state : p.state = .start
  names : p.method = [] ∧ p.headerField = []
  status : p.statusCode = 0 ∧ p.statusCodeLength = 0

/-- What a byte does, as the consumer sees it. -/
inductive Progress (parseUri : Text → Except Failure U) (p : Parser U) (byte : ℕ) (p' : Parser U) :
    Prop
  | same (hdone : p'.done = p.done) (hcurrent : p'.current = p.current)
      (hflag : p.noMessageBody = true → p'.noMessageBody = true)
      (hread : p'.state.beforeBody = true →
        Reads p p' ∧ p.parseByte parseUri byte = .ok p' ∧ (AtHeadersEnd p → byte ≠ charLf))
  | data (hsome : p.current ≠ none) (data : List ℕ) (hdone : p'.done = p.done)
      (hcurrent : p'.current = p.current.map fun m => { m with body := m.body ++ data })
      (hstate : p'.state.beforeBody = false)
  | ended (hsome : p.current ≠ none) (data : List ℕ) (hdone : p'.done = p.done ++
      (p.current.map fun m => { m with body := m.body ++ data }).toList)
      (hcurrent : p'.current = none) (hfresh : Fresh p')
  | begun (message : Message U) (hheader : p.state.inHeader = true) (hbegins : Begins p message)
      (h : p'.done = p.done ++ [message] ∧ p'.current = p.current ∨
        p'.done = p.done ∧ p'.current = some message)
      (hfresh : p'.state.beforeBody = true → Fresh p')

lemma Sound.current_ne (hp : p.Sound) (hbefore : p.state.beforeBody = false)
    (hactive : p.state.stopped = false) : p.current ≠ none := by
  intro hnone
  have hsome := hp.busy hbefore hactive
  rw [hnone] at hsome
  cases hsome

lemma Stepped.progress (h : Stepped parseUri p byte p') (hp : p.Sound)
    (hactive : p.state.stopped = false) (hparse : p.parseByte parseUri byte = .ok p') :
    p'.requestParser = p.requestParser ∧ Progress parseUri p byte p' := by
  cases h with
  | reads h hbyte =>
    exact ⟨h.requestParser,.same h.done h.current h.noMessageBody fun _ => ⟨h,hparse,hbyte⟩⟩
  | headersEnd q h hstate hline hend =>
    obtain ⟨message,hbegins,hafter⟩ := headersEnd_cases hend h.active
    have hmessage : Begins p message := by
      refine ⟨hbegins.body,fun hr => ?_,fun hr => ?_⟩
      · exact (hbegins.method (h.requestParser.trans hr)).trans hline.1
      · rw [← (h.header hstate).2.1,← hline.2]
        exact hbegins.status (h.requestParser.trans hr)
    obtain rfl | hopens := hafter
    · rw [restarted,reset_state h.active]
      exact ⟨h.requestParser,.begun message hstate hmessage (.inl ⟨by rw [h.done],h.current⟩)
        fun _ => ⟨rfl,⟨rfl,rfl⟩,rfl,rfl⟩⟩
    · refine ⟨hopens.requestParser.trans h.requestParser,.begun message hstate hmessage ?_ ?_⟩
      · rw [← h.done,← h.current]
        exact hopens.after.imp (fun hup => ⟨hup.2.2.2,hup.2.2.1⟩) fun hopen => ⟨hopen.2.2.1,hopen.2.1⟩
      · intro hbefore
        obtain ⟨-,hs,-⟩ | ⟨-,-,-,hs | ⟨hs,-⟩⟩ := hopens.after <;> rw [hs] at hbefore <;> cases hbefore
  | bodyDone hstate h =>
    rw [h,reset_closeIncoming hactive,reset_state hactive]
    exact ⟨rfl,.ended (hp.current_ne (by rw [hstate]; rfl) hactive) [] (by simp) rfl
      ⟨rfl,⟨rfl,rfl⟩,rfl,rfl⟩⟩

lemma step_progress (hp : p.Sound) (byte : ℕ) :
    (p.step parseUri byte).requestParser = p.requestParser ∧
      Progress parseUri p byte (p.step parseUri byte) := by
  cases hstopped : p.state.stopped with
  | true =>
    rw [step,onData_stopped hstopped]
    refine ⟨rfl,.same rfl rfl id fun hbefore => ?_⟩
    cases hs : p.state <;> simp [hs,State.stopped,State.beforeBody] at hstopped hbefore
  | false =>
    by_cases hbody : p.state = .body
    · have hsome := hp.current_ne (by rw [hbody]; rfl) hstopped
      by_cases hlast : p.remainingContent = 1
      · rw [step_body_last hbody hlast,finish]
        split_ifs
        · exact ⟨rfl,.data hsome [byte] rfl rfl rfl⟩
        · rw [reset_closeIncoming (by exact hstopped),reset_state (by exact hstopped)]
          exact ⟨rfl,.ended hsome [byte] rfl rfl ⟨rfl,⟨rfl,rfl⟩,rfl,rfl⟩⟩
      · have hopen := hp.body hbody
        rw [step_body_open hbody (by omega)]
        exact ⟨rfl,.data hsome [byte] rfl rfl (by rw [deliver,hbody]; rfl)⟩
    · rw [step_byte hstopped hbody]
      cases hparse : p.parseByte parseUri byte with
      | error failure => exact ⟨rfl,.same rfl rfl id nofun⟩
      | ok p' => exact (parseByte_cases hparse hstopped hbody).progress hp hstopped hparse

lemma foldl_step_stopped (h : p.state.stopped = true) (buffer : List ℕ) :
    buffer.foldl (step parseUri) p = p := by
  induction buffer with
  | nil => rfl
  | cons byte rest ih => rw [foldl_cons,step,onData_stopped h,ih]

/-- A loop that hands over blocks of the body could hand over its bytes. -/
lemma body_round {α : Type} {f : ℕ → Parser U → List ℕ → α}
    (hloop : ∀ {fuel p byte rest}, p.state = .body → f (fuel+1) p (byte :: rest) =
      f fuel (p.parseBody (byte :: rest)).1 (p.parseBody (byte :: rest)).2)
    (hp : p.Sound) (hbody : p.state = .body) (fuel byte : ℕ) (rest : List ℕ) :
    ∃ n ≥ fuel, f (fuel+1) p (byte :: rest) = f n (p.step parseUri byte) rest := by
  rw [hloop hbody]
  by_cases hlast : p.remainingContent = 1
  · rw [parseBody_done (by omega) (by simp; omega),step_body_last hbody hlast,hlast]
    exact ⟨fuel,le_rfl,rfl⟩
  · have hopen := hp.body hbody
    have hmore : p.remainingContent = -1 ∨ 1 < p.remainingContent := by omega
    rw [step_body_open hbody hmore]
    cases rest with
    | nil =>
      rw [parseBody_open (by simpa using hmore)]
      exact ⟨fuel,le_rfl,rfl⟩
    | cons byte' rest =>
      rw [parseBody_cons hmore]
      exact ⟨fuel+1,by omega,(hloop (p := p.deliver [byte]) hbody).symm⟩

lemma parseLoop_foldl (buffer : List ℕ) {fuel : ℕ} (hfuel : buffer.length < fuel)
    (hp : p.Sound) : parseLoop parseUri fuel p buffer = buffer.foldl (step parseUri) p := by
  induction buffer generalizing p fuel with
  | nil =>
    obtain ⟨fuel,rfl⟩ := exists_fuel fuel
    rfl
  | cons byte rest ih =>
    rw [length_cons] at hfuel
    obtain ⟨fuel,rfl⟩ := exists_fuel fuel
    cases hstopped : p.state.stopped with
    | true =>
      rw [foldl_step_stopped hstopped,parseLoop_stopped]
      have hopened := hp.opened
      cases hs : p.state <;> simp_all [State.stopped]
    | false =>
      rw [foldl_cons]
      have hnext : (p.step parseUri byte).Sound := step_sound hp byte
      by_cases hbody : p.state = .body
      · obtain ⟨n,hn,hround⟩ := body_round parseLoop_body hp hbody fuel byte rest
        rw [hround]
        exact ih (by omega) hnext
      · rw [parseLoop_byte hstopped hbody,step_byte hstopped hbody]
        rw [step_byte hstopped hbody] at hnext
        cases hparse : p.parseByte parseUri byte with
        | error failure => exact (foldl_step_stopped rfl rest).symm
        | ok p' =>
          rw [hparse] at hnext
          exact ih (by omega) hnext

lemma onData_foldl (hp : p.Sound) (buffer : List ℕ) :
    p.onData parseUri buffer = buffer.foldl (step parseUri) p := by
  cases hstopped : p.state.stopped with
  | true => rw [onData_stopped hstopped,foldl_step_stopped hstopped]
  | false => rw [onData_active hstopped,parseLoop_foldl buffer (by omega) hp]

lemma foldl_step_sound (hp : p.Sound) (buffer : List ℕ) :
    (buffer.foldl (step parseUri) p).Sound := by
  induction buffer generalizing p with
  | nil => exact hp
  | cons byte rest ih => exact ih (step_sound hp byte)

lemma foldl_onData_flatten (hp : p.Sound) (buffers : List (List ℕ)) :
    buffers.foldl (onData parseUri) p = p.onData parseUri buffers.flatten := by
  induction buffers generalizing p with
  | nil => rw [onData_foldl hp,flatten_nil,foldl_nil,foldl_nil]
  | cons buffer buffers ih =>
    have hnext : (p.onData parseUri buffer).Sound := by
      rw [onData_foldl hp]
      exact foldl_step_sound hp buffer
    rw [foldl_cons,ih hnext,onData_foldl hnext,onData_foldl hp,onData_foldl hp,
      flatten_cons,foldl_append]

/-- The bytes that are left when every byte is a buffer. -/
def unread (parseUri : Text → Except Failure U) : Parser U → List ℕ → List ℕ
  | _, [] => []
  | p, byte :: rest =>
    if p.state = .upgraded then byte :: rest else unread parseUri (p.step parseUri byte) rest

lemma unread_upgraded (h : p.state = .upgraded) (buffer : List ℕ) : p.unread parseUri buffer = buffer := by
  cases buffer with
  | nil => rfl
  | cons byte rest => rw [unread,if_pos h]

lemma unread_failure (h : p.state = .failure) (buffer : List ℕ) : p.unread parseUri buffer = [] := by
  induction buffer with
  | nil => rfl
  | cons byte rest ih => rw [unread,if_neg (by simp [h]),step,onData_stopped (by rw [h]; rfl),ih]

lemma unread_append (a b : List ℕ) : p.unread parseUri (a ++ b) =
    p.unread parseUri a ++ (a.foldl (step parseUri) p).unread parseUri b := by
  induction a generalizing p with
  | nil => rfl
  | cons byte rest ih =>
    rw [cons_append,unread,unread,foldl_cons]
    split_ifs with hup
    · have hstep : p.step parseUri byte = p := onData_stopped (by rw [hup]; rfl) [byte]
      rw [hstep,foldl_step_stopped (by rw [hup]; rfl),unread_upgraded hup,cons_append]
    · exact ih

lemma unparsedLoop_unread (buffer : List ℕ) {fuel : ℕ} (hfuel : buffer.length < fuel)
    (hp : p.Sound) : unparsedLoop parseUri fuel p buffer = p.unread parseUri buffer := by
  induction buffer generalizing p fuel with
  | nil => cases fuel <;> rfl
  | cons byte rest ih =>
    rw [length_cons] at hfuel
    obtain ⟨fuel,rfl⟩ := exists_fuel fuel
    by_cases hup : p.state = .upgraded
    · rw [unparsedLoop,if_pos hup,unread_upgraded hup]
    rw [unread,if_neg hup]
    have hnext : (p.step parseUri byte).Sound := step_sound hp byte
    by_cases hbody : p.state = .body
    · obtain ⟨n,hn,hround⟩ := body_round (f := unparsedLoop parseUri)
        (fun h => by rw [unparsedLoop,if_neg (by rw [h]; decide),if_pos h]) hp hbody fuel byte rest
      rw [hround]
      exact ih (by omega) hnext
    · rw [unparsedLoop,if_neg hup,if_neg hbody]
      cases hstopped : p.state.stopped with
      | true =>
        have hfail : p.state = .failure := by
          have hopened := hp.opened
          cases hs : p.state <;> simp_all [State.stopped]
        have hparse : p.parseByte parseUri byte = .ok p := by simp [parseByte,hfail]
        rw [hparse,show p.step parseUri byte = p from onData_stopped hstopped [byte]]
        exact ih (by omega) hp
      | false =>
        rw [step_byte hstopped hbody] at hnext ⊢
        cases hparse : p.parseByte parseUri byte with
        | error failure => exact (unread_failure rfl rest).symm
        | ok p' =>
          rw [hparse] at hnext
          exact ih (by omega) hnext

lemma unparsedData_unread (hp : p.Sound) (buffers : List (List ℕ)) :
    p.unparsedData parseUri buffers = p.unread parseUri buffers.flatten := by
  induction buffers generalizing p with
  | nil => rfl
  | cons buffer buffers ih =>
    have hnext : (buffer.foldl (step parseUri) p).Sound := foldl_step_sound hp buffer
    rw [unparsedData,unparsedLoop_unread buffer (by omega) hp,onData_foldl hp,ih hnext,
      flatten_cons,unread_append]

/-- Two ways to cut a stream into buffers give the same messages and bodies, the same error and the
same data after an upgrade. -/
theorem buffers_irrelevant (parseUri : Text → Except Failure U) (requestParser : Bool)
    {buffers buffers' : List (List ℕ)} (h : buffers.flatten = buffers'.flatten) :
    buffers.foldl (onData parseUri) (new requestParser) =
        buffers'.foldl (onData parseUri) (new requestParser) ∧
      (new requestParser).unparsedData parseUri buffers =
        (new requestParser).unparsedData parseUri buffers' := by
  have hp : (new requestParser : Parser U).Sound := new_sound requestParser
  rw [foldl_onData_flatten hp,foldl_onData_flatten hp,unparsedData_unread hp,unparsedData_unread hp,h]
  exact ⟨rfl,rfl⟩

theorem buffers_irrelevant_line :
    [[71,69],[84]].foldl (onData .ok) (new true) = [[71],[69,84]].foldl (onData .ok) (new true) ∧
      (new true).unparsedData .ok [[71,69],[84]] = (new true).unparsedData .ok [[71],[69,84]] :=
  buffers_irrelevant (U := Text) .ok true rfl

end Parser

end DartSdk.Http
