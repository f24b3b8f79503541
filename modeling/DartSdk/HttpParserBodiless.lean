import DartSdk.HttpParserRuns

/-! The flag that a response has no body is set by its status line or by the client, and is followed
through every run. -/
namespace DartSdk.Http
open List

/-- What the response parser of a client gets. -/
inductive Input
  | byte (value : ℕ)
  | isHead (value : Bool)
  deriving DecidableEq

namespace Parser

variable {U : Type} (parseUri : Text → Except Failure U) {p p' : Parser U}

def input (p : Parser U) : Input → Parser U
  | .byte value => p.step parseUri value
  | .isHead value => p.setIsHead value

/-- The response parser of a connection after some input. -/
def responses (inputs : List Input) : Parser U :=
  inputs.foldl (input parseUri) (new false)

variable {parseUri}

lemma setIsHead_sound (hp : p.Sound) (value : Bool) : (p.setIsHead value).Sound := by
  cases value with
  | false => exact hp
  | true => exact ⟨hp.idle,hp.busy,hp.body,hp.opened,hp.error,fun _ => .inr fun _ => rfl⟩

lemma input_sound (hp : p.Sound) (i : Input) : (p.input parseUri i).Sound := by
  cases i with
  | byte value => exact step_sound hp value
  | isHead value => exact setIsHead_sound hp value

lemma foldl_input_sound (hp : p.Sound) (inputs : List Input) :
    (inputs.foldl (input parseUri) p).Sound := by
  induction inputs generalizing p with
  | nil => exact hp
  | cons i inputs ih => exact ih (input_sound hp i)

lemma responses_sound (inputs : List Input) : (responses parseUri inputs).Sound :=
  foldl_input_sound (new_sound false) inputs

/-- The number of messages whose headers have ended. -/
def begun (p : Parser U) : ℕ := p.done.length+p.current.toList.length

/-- The flag is set for the message after `k` others, or that message has begun. -/
def Flagged (k : ℕ) (p : Parser U) : Prop :=
  k < p.begun ∨ (p.begun = k ∧ p.current = none ∧ p.noMessageBody = true)

lemma Flagged.of_le {k : ℕ} (h : Flagged k p) (hbegun : p.begun ≤ p'.begun)
    (hkeep : p.current = none → p.noMessageBody = true → p'.begun = p.begun →
      p'.current = none ∧ p'.noMessageBody = true) : Flagged k p' := by
  obtain hlt | ⟨heq,hcurrent,hflag⟩ := h
  · exact .inl (hlt.trans_le hbegun)
  · obtain hmore | hsame := hbegun.lt_or_eq
    · exact .inl (heq ▸ hmore)
    · exact .inr ⟨hsame ▸ heq,hkeep hcurrent hflag hsame.symm⟩

lemma step_flagged {k : ℕ} (hp : p.Sound) (hflag : Flagged k p) (byte : ℕ) :
    Flagged k (p.step parseUri byte) := by
  have hprogress : Progress parseUri p byte _ := (step_progress hp byte).2
  cases hprogress with
  | same hdone hcurrent hset =>
    refine hflag.of_le (by rw [begun,begun,hdone,hcurrent]) fun hnone hno _ => ?_
    exact ⟨hcurrent.trans hnone,hset hno⟩
  | data hsome data hdone hcurrent | ended hsome data hdone hcurrent =>
    exact hflag.of_le (by simp [begun,hdone,hcurrent,Option.toList_map]) fun hnone => absurd hnone hsome
  | begun message hheader _ h =>
    have hnone := (hp.idle (State.beforeBody_of_inHeader hheader)).1
    have hmore : (p.step parseUri byte).begun = p.begun+1 := by
      obtain ⟨hdone,hcurrent⟩ | ⟨hdone,hcurrent⟩ := h <;> simp [begun,hdone,hcurrent,hnone]
    exact hflag.of_le (by omega) fun _ _ hsame => by omega

lemma setIsHead_flagged {k : ℕ} (hflag : Flagged k p) (value : Bool) :
    Flagged k (p.setIsHead value) := by
  cases value with
  | false => exact hflag
  | true => exact hflag.of_le le_rfl fun hnone _ _ => ⟨hnone,rfl⟩

lemma foldl_input_flagged {k : ℕ} (hp : p.Sound) (hflag : Flagged k p) (inputs : List Input) :
    Flagged k (inputs.foldl (input parseUri) p) := by
  induction inputs generalizing p with
  | nil => exact hflag
  | cons i inputs ih =>
    refine ih (input_sound hp i) ?_
    cases i with
    | byte value => exact step_flagged hp hflag value
    | isHead value => exact setIsHead_flagged hflag value

/-- The client set `isHead` for the message that is being read: no message has ended since. -/
def HeadRequested (parseUri : Text → Except Failure U) (inputs : List Input) : Prop :=
  ∃ before after, inputs = before ++ .isHead true :: after ∧
    (responses parseUri before).current = none ∧
    (responses parseUri before).done.length = (responses parseUri inputs).done.length

lemma HeadRequested.noMessageBody {inputs : List Input} (h : HeadRequested parseUri inputs)
    (hheader : (responses parseUri inputs).state.inHeader = true) :
    (responses parseUri inputs).noMessageBody = true := by
  obtain ⟨before,after,hinputs,hcurrent,hdone⟩ := h
  have hnone := ((responses_sound inputs).idle (State.beforeBody_of_inHeader hheader)).1
  have hset : Flagged (responses parseUri before).done.length
      ((responses parseUri before).setIsHead true) := by
    refine .inr ⟨?_,hcurrent,rfl⟩
    simp [begun,setIsHead,hcurrent]
  have hrun : after.foldl (input parseUri) ((responses parseUri before).setIsHead true) =
      responses parseUri inputs := by
    rw [responses,responses,hinputs,foldl_append,foldl_cons]
    rfl
  have hflag : Flagged (responses parseUri before).done.length (responses parseUri inputs) :=
    hrun ▸ foldl_input_flagged (setIsHead_sound (responses_sound before) true) hset after
  rw [hdone] at hflag
  obtain hlt | ⟨-, -,hflag⟩ := hflag
  · simp [begun,hnone] at hlt
  · exact hflag

lemma foldl_input_requestParser (hp : p.Sound) (inputs : List Input) :
    (inputs.foldl (input parseUri) p).requestParser = p.requestParser := by
  induction inputs generalizing p with
  | nil => rfl
  | cons i inputs ih =>
    rw [foldl_cons,ih (input_sound hp i)]
    cases i with
    | byte value => exact (step_progress hp value).1
    | isHead value => cases value <;> rfl

lemma AtHeadersEnd.inHeader (h : AtHeadersEnd p) : p.state.inHeader = true := by
  obtain h | h | h := h <;> rw [h] <;> rfl

lemma AtHeadersEnd.ne_body (h : AtHeadersEnd p) : p.state ≠ .body := by
  obtain h | h | h := h <;> rw [h] <;> nofun

/-- Where the flag is set, the end of the headers is the end of the response, unless the connection
is upgraded or the headers are rejected. -/
lemma AtHeadersEnd.restarts (h : AtHeadersEnd p) (hparser : p.requestParser = false)
    (hresponse : p.messageType = messageResponse) (hflag : p.noMessageBody = true)
    (hok : (p.step parseUri charLf).state ≠ .failure)
    (hup : (p.step parseUri charLf).state ≠ .upgraded) :
    ∃ q message, Reads p q ∧ p.step parseUri charLf = q.restarted message ∧ message.body = [] ∧
      message.statusCode = p.statusCode ∧ message.reasonPhrase = p.uriOrReasonPhrase := by
  have hactive := State.active_of_inHeader h.inHeader
  rw [step_byte hactive h.ne_body] at hok hup ⊢
  cases hparse : p.parseByte parseUri charLf with
  | error failure =>
    rw [hparse] at hok
    exact absurd rfl hok
  | ok p' =>
    rw [hparse] at hup
    cases parseByte_cases hparse hactive h.ne_body with
    | reads _ hbyte => exact absurd rfl (hbyte h)
    | bodyDone hstate _ =>
      have hheader := h.inHeader
      rw [hstate] at hheader
      cases hheader
    | headersEnd q hreads hstate hline hend =>
      obtain ⟨-,hcode,htype,hset⟩ := hreads.header hstate
      obtain ⟨message,hbegins,rfl | hopens⟩ := headersEnd_cases hend hreads.active
      · obtain ⟨hstatus,hreason⟩ := hbegins.status (hreads.requestParser.trans hparser)
        exact ⟨q,message,hreads,rfl,hbegins.body,hstatus.trans hcode,hreason.trans hline.2⟩
      · obtain ⟨-,hstate', -⟩ | ⟨hnot, -⟩ := hopens.after
        · exact absurd hstate' hup
        · exact absurd ⟨htype.trans hresponse,hset.trans hflag⟩ hnot

def headInput : List Input :=
  .isHead true :: (text "HTTP/1.1 200 OK\r\nContent-Length: 5\r\n\r").map .byte

def upgradeInput : List Input :=
  (text "HTTP/1.1 101 Switching\r\nConnection: upgrade\r\n\r\n").map .byte

end Parser

end DartSdk.Http
