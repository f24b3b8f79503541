import DartSdk.HttpParserRuns
import DartSdk.HttpRequestHeaders

/-! The request parser is run on the request line, the header fields and the body of a well-formed
request. -/
namespace DartSdk.Http
open List Bool Request

/-- The message with more of its body. -/
def Message.extend {U : Type} (message : Message U) (data : List ℕ) : Message U :=
  { message with body := message.body ++ data }

namespace Parser

open Outcome (ok_bind bind_eq_ok)

variable {U : Type} {parseUri : Text → Except Failure U} {p p' : Parser U} {byte : ℕ}

lemma step_ok (hactive : p.state.stopped = false) (hbody : p.state ≠ .body)
    (h : p.parseByte parseUri byte = .ok p') : p.step parseUri byte = p' := by
  rw [step_byte hactive hbody,h]

lemma step_error {failure : Failure} (hactive : p.state.stopped = false) (hbody : p.state ≠ .body)
    (h : p.parseByte parseUri byte = .error failure) : p.step parseUri byte = p.fail failure := by
  rw [step_byte hactive hbody,h]

lemma foldl_collect {good : ℕ → Prop} (set : List ℕ → Parser U)
    (hstep : ∀ front c, good c → (set front).step parseUri c = set (front ++ [c]))
    (front bytes : List ℕ) (h : ∀ c ∈ bytes, good c) :
    bytes.foldl (step parseUri) (set front) = set (front ++ bytes) := by
  induction bytes generalizing front with
  | nil => rw [foldl_nil,append_nil]
  | cons c bytes ih =>
    rw [foldl_cons,hstep front c (h c mem_cons_self),
      ih (front ++ [c]) fun d hd => h d (mem_cons_of_mem c hd),append_assoc,
      singleton_append]

def waiting (index : ℕ) (done : List (Message U)) : Parser U :=
  { new true with httpVersionIndex := index, done := done }

def inLine (state : State) (index : ℕ) (method uri : Text) (done : List (Message U)) : Parser U :=
  { waiting index done with state := state, method := method, uriOrReasonPhrase := uri }

variable {index : ℕ} {done : List (Message U)} {method uri : Text}

lemma not_separator_of_token {c : ℕ} (h : isTokenChar c = true) :
    c ≠ charSp ∧ isSeparator c = false ∧ c ≠ charCr ∧ c ≠ charLf := by
  simp only [isTokenChar,and_eq_true,not_eq_true'] at h
  have hlow : c ≠ charCr ∧ c ≠ charLf := by
    constructor
    · rintro rfl
      exact absurd h.1.1 (by decide)
    · rintro rfl
      exact absurd h.1.1 (by decide)
  refine ⟨?_,h.2,hlow⟩
  rintro rfl
  exact absurd h.2 (by decide)

lemma foldl_methodLoop (hm : ∀ c ∈ method, isTokenChar c = true) (front : Text) :
    method.foldl (step parseUri) (inLine .requestLineMethod index front [] done) =
      inLine .requestLineMethod index (front ++ method) [] done := by
  refine foldl_collect (inLine .requestLineMethod index · [] done) ?_ front method hm
  intro front c hc
  obtain ⟨hsp,hsep,hcr,hlf⟩ := not_separator_of_token hc
  refine step_ok rfl nofun ?_
  simp only [parseByte,inLine,if_neg hsp,hsep]
  rw [if_neg (by simp [hcr,hlf])]

lemma foldl_requestLineMethod (hm : ∀ c ∈ method, isTokenChar c = true) (front : Text) :
    (method ++ [charSp]).foldl (step parseUri) (inLine .requestLineMethod index front [] done) =
      inLine .requestLineUri index (front ++ method) [] done := by
  rw [foldl_append,foldl_methodLoop hm,foldl_cons,foldl_nil]
  exact step_ok rfl nofun rfl

lemma foldl_methodOrVersion (k : ℕ) (hk : k ≤ 4) (hm : ∀ c ∈ method, isTokenChar c = true) :
    ∃ index, (method ++ [charSp]).foldl (step parseUri)
        (inLine .methodOrResponseHttpVersion k [] [] done) =
      inLine .requestLineUri index (httpText.take k ++ method) [] done := by
  induction method generalizing k with
  | nil =>
    refine ⟨k,?_⟩
    rw [nil_append,foldl_cons,foldl_nil,append_nil]
    interval_cases k <;> exact step_ok rfl nofun rfl
  | cons c method ih =>
    rw [cons_append,foldl_cons]
    have htoken := hm c mem_cons_self
    have hrest : ∀ d ∈ method, isTokenChar d = true := fun d hd => hm d (mem_cons_of_mem c hd)
    by_cases hnext : k < httpText.length ∧ httpText[k]? = some c
    · have hstep : (inLine .methodOrResponseHttpVersion k [] [] done).step parseUri c =
          inLine .methodOrResponseHttpVersion (k+1) [] [] done := by
        refine step_ok rfl nofun ?_
        exact if_pos hnext
      obtain ⟨index,hrun⟩ := ih (k+1) hnext.1 hrest
      refine ⟨index,?_⟩
      rw [hstep,hrun,take_add_one,hnext.2,append_assoc]
      rfl
    · have hslash : c ≠ charSlash := by
        rintro rfl
        exact absurd htoken (by decide)
      have hstep : (inLine .methodOrResponseHttpVersion k [] [] done).step parseUri c =
          inLine .requestLineMethod k (httpText.take k ++ [c]) [] done := by
        refine step_ok rfl nofun ?_
        refine (if_neg hnext).trans ?_
        rw [if_neg (by simp [hslash]),if_neg (not_separator_of_token htoken).1]
        rfl
      refine ⟨k,?_⟩
      rw [hstep,foldl_requestLineMethod hrest,append_assoc]
      rfl

lemma foldl_method (hne : method ≠ []) (hm : ∀ c ∈ method, isTokenChar c = true) :
    ∃ index', (method ++ [charSp]).foldl (step parseUri) (waiting index done) =
      inLine .requestLineUri index' method [] done := by
  cases method with
  | nil => exact absurd rfl hne
  | cons c method =>
    have htoken := hm c mem_cons_self
    have hrest : ∀ d ∈ method, isTokenChar d = true := fun d hd => hm d (mem_cons_of_mem c hd)
    rw [cons_append,foldl_cons]
    by_cases hc : c = 72
    · have hstep : (waiting index done).step parseUri c =
          inLine .methodOrResponseHttpVersion 1 [] [] done := by
        rw [hc]
        exact step_ok rfl nofun rfl
      rw [hstep,hc]
      exact foldl_methodOrVersion 1 (by omega) hrest
    · have hstep : (waiting index done).step parseUri c =
          inLine .requestLineMethod index [c] [] done := by
        refine step_ok rfl nofun ?_
        simp only [parseByte,waiting,new]
        rw [if_neg hc,if_neg (by simp [htoken])]
        rfl
      refine ⟨index,?_⟩
      rw [hstep,foldl_requestLineMethod hrest]
      rfl

lemma foldl_uri (hne : uri ≠ []) (hu : ∀ c ∈ uri, c ≠ charSp ∧ c ≠ charCr ∧ c ≠ charLf) :
    (uri ++ [charSp]).foldl (step parseUri) (inLine .requestLineUri index method [] done) =
      inLine .requestLineHttpVersion 0 method uri done := by
  have hloop : uri.foldl (step parseUri) (inLine .requestLineUri index method [] done) =
      inLine .requestLineUri index method ([] ++ uri) done := by
    refine foldl_collect (inLine .requestLineUri index method · done) ?_ [] uri hu
    intro front c hc
    refine step_ok rfl nofun ?_
    simp only [parseByte,inLine]
    rw [if_neg hc.1,if_neg (by simp [hc.2])]
  rw [foldl_append,hloop,nil_append,foldl_cons,foldl_nil]
  obtain ⟨c,rest,rfl⟩ := exists_cons_of_ne_nil hne
  exact step_ok rfl State.noConfusion rfl

def atHeaders (version : HttpVersion) (method uri : Text) (done : List (Message U)) : Parser U :=
  { inLine .headerStart 8 method uri done with
    messageType := messageRequest, httpVersion := version }

lemma step_version {k c : ℕ} (h : http1DotText[k]? = some c) :
    (inLine .requestLineHttpVersion k method uri done).step parseUri c =
      inLine .requestLineHttpVersion (k+1) method uri done := by
  obtain ⟨hk,hc⟩ := List.getElem?_eq_some_iff.1 h
  have hk' : k < 7 := hk
  interval_cases k <;> cases hc <;> exact step_ok rfl nofun rfl

lemma foldl_version {version : HttpVersion} (h : version ≠ .undetermined) :
    (http1DotText ++ ([if version = .http11 then charOne else charZero] ++
        [charCr,charLf])).foldl (step parseUri)
      (inLine .requestLineHttpVersion 0 method uri done) = atHeaders version method uri done := by
  rw [foldl_append]
  have hdot : http1DotText.foldl (step parseUri)
      (inLine .requestLineHttpVersion 0 method uri done) =
        inLine .requestLineHttpVersion 7 method uri done := by
    simp only [http1DotText,foldl_cons,foldl_nil]
    rw [step_version rfl,step_version rfl,step_version rfl,step_version rfl,step_version rfl,
      step_version rfl,step_version rfl]
  rw [hdot]
  cases version with
  | undetermined => exact absurd rfl h
  | http10 => rfl
  | http11 => rfl

/-- The parser inside a header field, where `b` is the parser before the field. -/
def inField (b : Parser U) (state : State) (key value : Text) : Parser U :=
  { b with state := state, headerField := key, headerValue := value }

/-- The parser `p` will do with the next byte what `b` does at the start of a field. -/
structure Ready (parseUri : Text → Except Failure U) (p b : Parser U) : Prop where
  header : p.state.inHeader = true
  next : ∀ byte, isBlank byte = false → p.parseByte parseUri byte = b.headerOrEnd parseUri byte

variable {b : Parser U} {f : Field}

lemma Ready.step (h : Ready parseUri p b) (hblank : isBlank byte = false)
    (hnext : b.headerOrEnd parseUri byte = .ok p') : p.step parseUri byte = p' := by
  refine step_ok (State.active_of_inHeader h.header) ?_ ((h.next byte hblank).trans hnext)
  intro hbody
  have hheader := h.header
  rw [hbody] at hheader
  cases hheader

lemma headerOrEnd_state (state : State) :
    { b with state := state }.headerOrEnd parseUri byte = b.headerOrEnd parseUri byte := rfl

lemma isBlank_of_token {c : ℕ} (h : isTokenChar c = true) : isBlank c = false := by
  have hsep := (not_separator_of_token h).2.1
  rw [isBlank,or_eq_false_iff,beq_eq_false_iff_ne,beq_eq_false_iff_ne]
  constructor <;> rintro rfl <;> simp [isSeparator] at hsep

lemma head_of_trimmed {c : ℕ} {rest : Text} (h : trimBlanks (c :: rest) = c :: rest) :
    isBlank c = false := by
  by_contra hblank
  have hlength := congrArg length h
  rw [trimBlanks,dropWhile_cons_of_pos (by simpa using hblank)] at hlength
  have h1 : ((rest.dropWhile isBlank).rdropWhile isBlank).length ≤ (rest.dropWhile isBlank).length :=
    ( rdropWhile_prefix _ _).length_le
  have h2 : (rest.dropWhile isBlank).length ≤ rest.length := (dropWhile_sublist _).length_le
  rw [length_cons] at hlength
  omega

lemma foldl_name (h : Ready parseUri p b) (hfield : b.headerField = []) (hvalue : b.headerValue = [])
    (hf : f.WellFormed) : (f.name ++ [charColon]).foldl (step parseUri) p =
      inField b .headerValueStart f.key [] := by
  obtain ⟨c,rest,hname⟩ := exists_cons_of_ne_nil hf.name_ne
  have htoken : ∀ d ∈ c :: rest, isTokenChar d = true := hname ▸ hf.name_token
  have hc := htoken c mem_cons_self
  obtain ⟨-, -,hcr,hlf⟩ := not_separator_of_token hc
  have hfirst : p.step parseUri c = inField b .headerField ([c].map toLowerCaseByte) [] := by
    refine h.step (isBlank_of_token hc) ?_
    simp only [headerOrEnd,if_neg hcr,if_neg hlf,hfield,hvalue]
    rfl
  have hloop : rest.foldl (step parseUri) (inField b .headerField ([c].map toLowerCaseByte) []) =
      inField b .headerField (([c] ++ rest).map toLowerCaseByte) [] := by
    refine foldl_collect (fun s => inField b .headerField (s.map toLowerCaseByte) []) ?_ [c] rest
      fun d hd => htoken d (mem_cons_of_mem c hd)
    intro front d hd
    have hcolon : d ≠ charColon := by
      rintro rfl
      exact absurd hd (by decide)
    refine step_ok rfl nofun ?_
    simp only [parseByte,inField]
    rw [if_neg hcolon,if_neg (by simp [hd]),map_append]
    rfl
  have hall : f.name.foldl (step parseUri) p = inField b .headerField f.key [] := by
    rw [hname,foldl_cons,hfirst,hloop,singleton_append,map_toLowerCaseByte htoken,← hname]
    rfl
  rw [foldl_append,hall,foldl_cons,foldl_nil]
  exact step_ok rfl State.noConfusion rfl

lemma foldl_value (hf : f.WellFormed) (key : Text) :
    (f.pad ++ (f.value ++ [charCr,charLf])).foldl (step parseUri)
      (inField b .headerValueStart key []) = inField b .headerValueFoldOrEnd key f.value := by
  have hpad : f.pad.foldl (step parseUri) (inField b .headerValueStart key []) =
      inField b .headerValueStart key [] := by
    refine foldl_collect (fun _ => inField b .headerValueStart key []) ?_ [] f.pad hf.pad_blank
    intro _ c hc
    refine step_ok rfl nofun ?_
    rw [isBlank,or_eq_true,beq_iff_eq,beq_iff_eq] at hc
    obtain rfl | rfl := hc <;> rfl
  rw [foldl_append,hpad,foldl_append]
  suffices hvalue : ∃ state, (state = .headerValueStart ∨ state = .headerValue) ∧
      f.value.foldl (step parseUri) (inField b .headerValueStart key []) =
        inField b state key f.value by
    obtain ⟨state,hstate,hvalue⟩ := hvalue
    rw [hvalue]
    obtain rfl | rfl := hstate <;> rfl
  have hline := hf.value_line
  have htrimmed := hf.value_trimmed
  cases hv : f.value with
  | nil => exact ⟨_,.inl rfl,rfl⟩
  | cons c rest =>
    rw [hv] at hline htrimmed
    refine ⟨_,.inr rfl,?_⟩
    have hblank := head_of_trimmed htrimmed
    rw [isBlank,or_eq_false_iff,beq_eq_false_iff_ne,beq_eq_false_iff_ne] at hblank
    have hc := hline c mem_cons_self
    have hfirst : (inField b .headerValueStart key []).step parseUri c =
        inField b .headerValue key [c] := by
      refine step_ok rfl State.noConfusion ?_
      simp only [parseByte,inField]
      rw [if_neg hc.1,if_neg hc.2,if_pos hblank]
      rfl
    rw [foldl_cons,hfirst]
    refine foldl_collect (inField b .headerValue key ·) ?_ [c] rest
      fun d hd => hline d (mem_cons_of_mem c hd)
    intro front d hd
    refine step_ok rfl State.noConfusion ?_
    simp only [parseByte,inField]
    rw [if_neg hd.1,if_neg hd.2]

lemma foldl_field (h : Ready parseUri p b) (hfield : b.headerField = []) (hvalue : b.headerValue = [])
    (hf : f.WellFormed) : f.encode.foldl (step parseUri) p =
      inField b .headerValueFoldOrEnd f.key f.value := by
  have hsplit : f.encode = (f.name ++ [charColon]) ++ (f.pad ++ (f.value ++ [charCr,charLf])) := by
    simp [Field.encode]
  rw [hsplit,foldl_append,foldl_name h hfield hvalue hf,foldl_value hf]

def between (version : HttpVersion) (method uri : Text) (done : List (Message U)) (h : Headers)
    (chunked : Bool) : Parser U :=
  { atHeaders version method uri done with headers := some h, chunked := chunked }

variable {version : HttpVersion} {h h' : Headers} {chunked : Bool}

lemma atHeaders_ready : Ready parseUri (atHeaders version method uri done)
    (between version method uri done
      (Headers.new (atHeaders version method uri done : Parser U).version) false) where
  header := rfl
  next := fun _ _ => rfl

lemma addHeader_eq (hh : p.headers = some h)
    (hrun : p.fieldTokens.foldlM (fun h token => h.addField p.headerField (.string token)) h =
      .ok h')
    (hup : (p.headerField == text "connection" &&
      p.fieldTokens.any (caseInsensitiveCompare (text "upgrade"))) = false)
    (hoff : p.connectionUpgrade = false) : p.addHeader = .ok { p with
      headers := some h', chunked := p.chunked || (p.headerField == text "transfer-encoding" &&
        caseInsensitiveCompare (text "chunked") p.headerValue), connectionUpgrade := false,
      headerField := [], headerValue := [] } := by
  unfold addHeader
  simp only [hh]
  rw [hrun,ok_bind,hup,hoff]
  rfl

lemma pending_ready
    (hrun : f.tokens.foldlM (fun h token => h.addField f.key (.string token)) h = .ok h')
    (hup : f.key = connectionName →
      (tokenizeFieldValue f.value).any (caseInsensitiveCompare (text "upgrade")) = false) :
    Ready parseUri
      (inField (between version method uri done h chunked) .headerValueFoldOrEnd f.key f.value)
      (between version method uri done h' (chunked || (f.key == transferEncodingName &&
        caseInsensitiveCompare (text "chunked") f.value))) where
  header := rfl
  next := by
    intro byte hblank
    rw [isBlank,or_eq_false_iff,beq_eq_false_iff_ne,beq_eq_false_iff_ne] at hblank
    have hupgrade : (f.key == connectionName &&
        f.tokens.any (caseInsensitiveCompare (text "upgrade"))) = false := by
      by_cases hkey : f.key = connectionName
      · rw [Field.tokens,if_pos hkey,hup hkey,Bool.and_false]
      · rw [beq_eq_false_iff_ne.2 hkey,Bool.false_and]
    have hadd : (inField (between version method uri done h chunked) .headerValueFoldOrEnd f.key
        f.value).addHeader = .ok { between version method uri done h' (chunked ||
          (f.key == transferEncodingName && caseInsensitiveCompare (text "chunked") f.value)) with
            state := .headerValueFoldOrEnd } :=
      addHeader_eq rfl hrun hupgrade rfl
    simp only [parseByte,inField]
    rw [if_neg (by simp [hblank])]
    refine (congrArg (· >>= _) hadd).trans ?_
    rw [ok_bind]
    exact headerOrEnd_state _

lemma sees_append (fields : List Field) (f : Field) : sees (fields ++ [f]) =
    (sees fields || (f.key == transferEncodingName &&
      caseInsensitiveCompare (text "chunked") f.value)) := by
  rw [sees,sees,valuesOf_append,any_append]
  by_cases hkey : f.key = transferEncodingName
  · simp [hkey]
  · simp [hkey]

lemma foldl_fields {v : Version} (fields : List Field) {front : List Field}
    (hp : Ready parseUri p (between version method uri done h (sees front)))
    (hc : Collected v front h) (hframable : Framable v (front ++ fields))
    (hf : ∀ f ∈ fields, f.WellFormed) (hup : ∀ f ∈ fields, f.key = connectionName →
      (tokenizeFieldValue f.value).any (caseInsensitiveCompare (text "upgrade")) = false) :
    ∃ h', Ready parseUri ((fields.flatMap Field.encode).foldl (step parseUri) p)
        (between version method uri done h' (sees (front ++ fields))) ∧
      Collected v (front ++ fields) h' := by
  induction fields generalizing p h front with
  | nil => exact ⟨h,by simpa using hp,by simpa using hc⟩
  | cons f fields ih =>
    rw [append_cons] at hframable ⊢
    obtain ⟨h',hrun,hc'⟩ := hc.field (hframable.of_append_list fields)
    have hready : Ready parseUri
        (inField (between version method uri done h (sees front)) .headerValueFoldOrEnd
          f.key f.value)
        (between version method uri done h' (sees (front ++ [f]))) := by
      rw [sees_append]
      exact pending_ready hrun (hup f mem_cons_self)
    rw [flatMap_cons,foldl_append,foldl_field hp rfl rfl (hf f mem_cons_self)]
    exact ih hready hc' hframable (fun g hg => hf g (mem_cons_of_mem f hg))
      fun g hg => hup g (mem_cons_of_mem f hg)

/-- The message of a request before its body is read. -/
def requestMessage (method : Text) (target : U) (h : Headers) (transferLength : ℤ) : Message U where
  method := method
  uri := some target
  statusCode := 0
  reasonPhrase := []
  headers := { h with mutable := false }
  transferLength := transferLength
  upgraded := false
  body := []

/-- The parser while a body is received. -/
structure Receiving (p : Parser U) (state : State) (remaining : ℤ) (chunked : Bool)
    (message : Message U) (done : List (Message U)) : Prop where
  state : p.state = state
  remaining : p.remainingContent = remaining
  chunked : p.chunked = chunked
  current : p.current = some message
  done : p.done = done
  requestParser : p.requestParser = true
  error : p.error = none

variable {target : U}

lemma foldl_headersEnd (hp : Ready parseUri p b) : [charCr,charLf].foldl (step parseUri) p =
      match ({ b with state := .headerEnding } : Parser U).headersEnd parseUri with
      | .ok p' => p'
      | .error failure => ({ b with state := .headerEnding } : Parser U).fail failure := by
  have hcr : p.step parseUri charCr = { b with state := .headerEnding } :=
    hp.step (by decide) (if_pos rfl)
  rw [foldl_cons,hcr,foldl_cons,foldl_nil]
  exact step_byte rfl nofun

lemma reset_done : p.reset.done = p.done := by
  unfold reset
  split_ifs <;> rfl

lemma headersEnd_request {length : ℤ} (hh : p.headers = some h)
    (hparser : p.requestParser = true) (hup : p.connectionUpgrade = false)
    (htype : p.messageType = messageRequest) (huri : parseUri p.uriOrReasonPhrase = .ok target)
    (hlength : p.bodyLength h.contentLength = length) : ∃ q : Parser U,
      q.state = p.state ∧ q.chunked = p.chunked ∧ q.done = p.done ∧ q.requestParser = true ∧
      q.error = p.error ∧ q.current = p.current ∧ q.httpVersionIndex = p.httpVersionIndex ∧
      p.headersEnd parseUri = .ok (
        if length = 0 then q.restarted (requestMessage p.method target h length)
        else if p.chunked then { q with
          state := .chunkSize, remainingContent := 0
          current := some (requestMessage p.method target h length) }
        else { q with
          state := .body, remainingContent := if length > 0 then length else q.remainingContent
          current := some (requestMessage p.method target h length) }) := by
  refine ⟨{ p with
    headers := some { h with mutable := false }, transferLength := length, method := [],
    uriOrReasonPhrase := [] },rfl,rfl,rfl,hparser,rfl,rfl,rfl,?_⟩
  have hmessage : p.createIncoming parseUri { h with mutable := false } length =
      .ok (requestMessage p.method target h length) := by
    rw [createIncoming,if_pos hparser,huri,ok_bind,hup]
    rfl
  have hresponse : ¬(p.messageType = messageResponse ∧ p.noMessageBody = true) := by
    rw [htype]
    exact fun hno => absurd hno.1 (by decide)
  unfold headersEnd
  simp only [hh,hlength]
  rw [hmessage,ok_bind,if_neg (by simp [hup])]
  by_cases hzero : length = 0
  · rw [if_pos (.inl hzero),if_pos hzero,restarted,reset_done]
    rfl
  · rw [if_neg (by simp [hzero,hresponse]),if_neg hzero]
    by_cases hchunked : p.chunked = true
    · rw [if_pos hchunked,if_pos hchunked]
      rfl
    · rw [if_neg hchunked,if_neg hchunked]
      by_cases hpos : length > 0
      · rw [if_pos hpos,if_pos hpos]
        rfl
      · rw [if_neg hpos,if_neg hpos]
        rfl

variable {state : State} {remaining : ℤ} {message : Message U}

lemma restarted_eq (hactive : p.state.stopped = false) (hparser : p.requestParser = true)
    (herror : p.error = none) (hcurrent : p.current = none) :
    p.restarted message = waiting p.httpVersionIndex (p.done ++ [message]) := by
  rw [restarted,reset_state hactive,hparser,herror,hcurrent]
  rfl

lemma Receiving.close (h : Receiving p state remaining chunked message done)
    (hactive : state.stopped = false) :
    p.reset.closeIncoming = waiting p.httpVersionIndex (done ++ [message]) := by
  have hp : p.state.stopped = false := by rwa [h.state]
  rw [reset_closeIncoming hp,reset_state hp,h.requestParser,h.error,h.current,h.done]
  rfl

lemma foldl_data {data : List ℕ} (hs : p.state = .body) (hne : data ≠ [])
    (hr : p.remainingContent = data.length) :
    data.foldl (step parseUri) p = (p.deliver data).finish := by
  induction data generalizing p with
  | nil => exact absurd rfl hne
  | cons c data ih =>
    rw [foldl_cons]
    cases data with
    | nil => exact step_body_last hs (by simpa using hr)
    | cons c' data =>
      rw [length_cons,length_cons] at hr
      have hrest : (p.deliver [c]).remainingContent = (c' :: data).length := by
        simp only [deliver,length_cons,length_nil]
        omega
      rw [step_body_open hs (by omega),
        ih (show (p.deliver [c]).state = .body from hs) (by simp) hrest,
        deliver_append [c] _ (.inr (by rw [length_singleton]; omega))]
      rfl

lemma Receiving.deliver {data : List ℕ} (h : Receiving p .body data.length chunked message done) :
    Receiving (p.deliver data) .body 0 chunked (message.extend data) done where
  state := h.state
  remaining := by
    simp only [Parser.deliver,h.remaining]
    omega
  chunked := h.chunked
  current := by
    rw [Parser.deliver,h.current]
    rfl
  done := h.done
  requestParser := h.requestParser
  error := h.error

lemma foldl_length {data : List ℕ} (hne : data ≠ [])
    (h : Receiving p .body data.length false message done) :
    data.foldl (step parseUri) p = waiting p.httpVersionIndex (done ++ [message.extend data]) := by
  rw [foldl_data h.state hne h.remaining,finish,if_neg (by simp [h.deliver.chunked]),
    h.deliver.close rfl]
  rfl

/-- The parser in the framing of a chunk. -/
def inChunk (p : Parser U) (state : State) (remaining : ℤ) : Parser U :=
  { p with state := state, remainingContent := remaining }

variable {c : Chunk}

lemma hexValue_append (s : Text) (d : ℕ) : hexValue (s ++ [d]) = hexValue s*16+hexDigit d := by
  rw [hexValue,foldl_append]
  rfl

lemma expectHexDigit_eq {d : ℕ} (h : IsHexDigit d) : expectHexDigit d = .ok (hexDigit d) := by
  unfold expectHexDigit hexDigit
  obtain h | h | h := h
  · rw [if_pos h,if_pos h.2]
  · rw [if_neg (by omega),if_pos h,if_neg (by omega),if_pos h.2]
  · rw [if_neg (by omega),if_neg (by omega),if_pos h,if_neg (by omega),if_neg (by omega)]

lemma foldl_size {size : Text} (h : ∀ d ∈ size, IsHexDigit d) :
    size.foldl (step parseUri) (inChunk p .chunkSize 0) = inChunk p .chunkSize (hexValue size) := by
  refine foldl_collect (fun s => inChunk p .chunkSize (hexValue s)) ?_ [] size h
  intro front d hd
  have hcr : d ≠ charCr := by
    rintro rfl
    exact absurd hd (by decide)
  have hsemi : d ≠ charSemiColon := by
    rintro rfl
    exact absurd hd (by decide)
  refine step_ok rfl nofun ?_
  simp only [parseByte,inChunk]
  rw [if_neg hcr,if_neg hsemi,expectHexDigit_eq hd,ok_bind,hexValue_append]
  rfl

lemma foldl_sizeEnding (hs : state = .chunkSize ∨ state = .chunkSizeExtension) :
    [charCr,charLf].foldl (step parseUri) (inChunk p state remaining) =
      inChunk p (if remaining > 0 then .body else .chunkedBodyDoneCr) remaining := by
  have hcr : (inChunk p state remaining).step parseUri charCr =
      inChunk p .chunkSizeEnding remaining := by
    obtain rfl | rfl := hs
    · exact step_ok rfl nofun rfl
    · exact step_ok rfl nofun rfl
  rw [foldl_cons,hcr,foldl_cons,foldl_nil]
  exact step_ok rfl nofun rfl

lemma foldl_extension (hc : c.WellFormed) :
    (c.extension ++ [charCr,charLf]).foldl (step parseUri) (inChunk p .chunkSize remaining) =
      inChunk p (if remaining > 0 then .body else .chunkedBodyDoneCr) remaining := by
  have hline := hc.extension_line
  obtain hnil | hstart := hc.extension_start
  · rw [hnil,nil_append,foldl_sizeEnding (.inl rfl)]
  · obtain ⟨rest,hrest⟩ : ∃ rest, c.extension = charSemiColon :: rest := by
      cases hext : c.extension with
      | nil => simp [hext] at hstart
      | cons d rest =>
        rw [hext,head?_cons,Option.some.injEq] at hstart
        exact ⟨rest,by rw [hstart]⟩
    rw [hrest] at hline
    have hfirst : (inChunk p .chunkSize remaining).step parseUri charSemiColon =
        inChunk p .chunkSizeExtension remaining := step_ok rfl nofun rfl
    have hloop : rest.foldl (step parseUri) (inChunk p .chunkSizeExtension remaining) =
        inChunk p .chunkSizeExtension remaining := by
      refine foldl_collect (fun _ => inChunk p .chunkSizeExtension remaining) ?_ [] rest
        (fun d hd => (fun heq => hline (heq ▸ mem_cons_of_mem _ hd) : d ≠ charCr))
      intro _ d hd
      refine step_ok rfl nofun ?_
      simp only [parseByte,inChunk]
      rw [if_neg hd]
    rw [hrest,cons_append,foldl_cons,hfirst,foldl_append,hloop,foldl_sizeEnding (.inr rfl)]

lemma Receiving.inChunk_eq (h : Receiving p .chunkSize 0 chunked message done) :
    inChunk p .chunkSize 0 = p := by
  rw [inChunk,← h.state,← h.remaining]

lemma Receiving.inChunk (h : Receiving p state remaining chunked message done) (state' : State)
    (remaining' : ℤ) :
    Receiving (inChunk p state' remaining') state' remaining' chunked message done :=
  ⟨rfl,rfl,h.chunked,h.current,h.done,h.requestParser,h.error⟩

lemma foldl_chunkHead (hc : c.WellFormed) (h : Receiving p .chunkSize 0 chunked message done) :
    (c.size ++ (c.extension ++ [charCr,charLf])).foldl (step parseUri) p =
      Parser.inChunk p (if (c.data.length : ℤ) > 0 then .body else .chunkedBodyDoneCr)
        c.data.length := by
  rw [foldl_append,← h.inChunk_eq,foldl_size hc.size_hex,foldl_extension hc,hc.size_value]
  rfl

lemma Receiving.foldl_finish (h : Receiving p .body 0 true message done) :
    Receiving ([charCr,charLf].foldl (step parseUri) p.finish) .chunkSize 0 true message done := by
  have hfinish : p.finish = Parser.inChunk p .chunkSizeStartingCr 0 := by
    rw [finish,if_pos h.chunked,Parser.inChunk,← h.remaining]
  have hcr : (Parser.inChunk p .chunkSizeStartingCr 0).step parseUri charCr =
      Parser.inChunk p .chunkSizeStartingLf 0 := step_ok rfl State.noConfusion rfl
  have hlf : (Parser.inChunk p .chunkSizeStartingLf 0).step parseUri charLf =
      Parser.inChunk p .chunkSize 0 := step_ok rfl State.noConfusion rfl
  rw [hfinish,foldl_cons,hcr,foldl_cons,hlf,foldl_nil]
  exact h.inChunk .chunkSize 0

lemma foldl_chunk (hc : c.WellFormed) (hne : c.data ≠ [])
    (h : Receiving p .chunkSize 0 true message done) :
    Receiving (c.encode.foldl (step parseUri) p) .chunkSize 0 true (message.extend c.data) done := by
  have hsplit : c.encode = (c.size ++ (c.extension ++ [charCr,charLf])) ++
      (c.data ++ [charCr,charLf]) := by
    simp [Chunk.encode]
  have hpos : (c.data.length : ℤ) > 0 := by
    have := length_pos_of_ne_nil hne
    omega
  rw [hsplit,foldl_append,foldl_chunkHead hc h,if_pos hpos,foldl_append,foldl_data rfl hne rfl]
  exact (h.inChunk .body c.data.length).deliver.foldl_finish

lemma foldl_last (hc : c.WellFormed) (hnil : c.data = [])
    (h : Receiving p .chunkSize 0 true message done) :
    c.encode.foldl (step parseUri) p = waiting p.httpVersionIndex (done ++ [message]) := by
  have hsplit : c.encode = (c.size ++ (c.extension ++ [charCr,charLf])) ++ [charCr,charLf] := by
    simp [Chunk.encode,hnil]
  have hhead : (c.size ++ (c.extension ++ [charCr,charLf])).foldl (step parseUri) p =
      Parser.inChunk p .chunkedBodyDoneCr 0 := by
    rw [foldl_chunkHead hc h,hnil]
    rfl
  have hcr : (Parser.inChunk p .chunkedBodyDoneCr 0).step parseUri charCr =
      Parser.inChunk p .chunkedBodyDoneLf 0 := step_ok rfl nofun rfl
  have hlf : (Parser.inChunk p .chunkedBodyDoneLf 0).step parseUri charLf =
      (Parser.inChunk p .chunkedBodyDoneLf 0).reset.closeIncoming := step_ok rfl nofun rfl
  rw [hsplit,foldl_append,hhead,foldl_cons,hcr,foldl_cons,hlf,foldl_nil,
    (h.inChunk .chunkedBodyDoneLf 0).close rfl]
  rfl

lemma foldl_chunks {chunks : List Chunk} {last : Chunk}
    (hc : ∀ c ∈ chunks, c.WellFormed ∧ c.data ≠ []) (hlast : last.WellFormed)
    (hnil : last.data = []) (h : Receiving p .chunkSize 0 true message done) :
    ∃ index, (chunks.flatMap Chunk.encode ++ last.encode).foldl (step parseUri) p =
      waiting index (done ++ [message.extend (chunks.flatMap Chunk.data)]) := by
  induction chunks generalizing p message with
  | nil =>
    refine ⟨p.httpVersionIndex,?_⟩
    rw [flatMap_nil,flatMap_nil,nil_append,foldl_last hlast hnil h,Message.extend,append_nil]
  | cons c chunks ih =>
    obtain ⟨hwf,hne⟩ := hc c mem_cons_self
    obtain ⟨index,hrun⟩ := ih (fun d hd => hc d (mem_cons_of_mem c hd)) (foldl_chunk hwf hne h)
    refine ⟨index,?_⟩
    rw [flatMap_cons,append_assoc,foldl_append,hrun,flatMap_cons,
      Message.extend,Message.extend,append_assoc]
    rfl

end Parser

end DartSdk.Http
