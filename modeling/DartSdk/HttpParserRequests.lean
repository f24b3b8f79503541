import DartSdk.HttpRequestRuns

/-! The request parser is run on a whole request, and then on a sequence of requests. -/
namespace DartSdk.Http.Parser
open List Request

variable {U : Type} {parseUri : Text → Except Failure U} {p p' : Parser U} {byte index : ℕ}
  {done : List (Message U)} {method uri : Text} {target : U} {message : Message U}
  {version : HttpVersion} {h : Headers} {c : Chunk}

lemma bodyLength_request (htype : p.messageType = messageRequest)
    (hup : p.connectionUpgrade = false) (n : ℤ) :
    p.bodyLength n = if p.chunked then -1 else if n < 0 then 0 else n := by
  unfold bodyLength
  cases hchunked : p.chunked <;> simp [htype,hup]

variable (huri : parseUri uri = .ok target)
include huri

lemma foldl_afterHeaders_chunked (hp : Ready parseUri p (between version method uri done h true)) :
    Receiving ([charCr,charLf].foldl (step parseUri) p) .chunkSize 0 true
      (requestMessage method target h (-1)) done := by
  have hlength : ({ between version method uri done h true with state := .headerEnding } :
      Parser U).bodyLength h.contentLength = -1 := rfl
  obtain ⟨q, -,hc,hd,hparser,herror, -, -,hend⟩ :=
    headersEnd_request rfl rfl rfl rfl huri hlength
  rw [foldl_headersEnd hp,hend]
  exact ⟨rfl,rfl,hc,rfl,hd,hparser,herror⟩

lemma foldl_afterHeaders_empty (hp : Ready parseUri p (between version method uri done h false))
    (hle : h.contentLength ≤ 0) : [charCr,charLf].foldl (step parseUri) p =
      waiting 8 (done ++ [requestMessage method target h 0]) := by
  have hlength : ({ between version method uri done h false with state := .headerEnding } :
      Parser U).bodyLength h.contentLength = 0 := by
    refine (bodyLength_request rfl rfl h.contentLength).trans ?_
    rw [if_neg (by simp [between])]
    split_ifs <;> omega
  obtain ⟨q,hs, -,hd,hparser,herror,hcurrent,hindex,hend⟩ :=
    headersEnd_request rfl rfl rfl rfl huri hlength
  have hrestart : q.restarted (requestMessage method target h 0) =
      waiting q.httpVersionIndex (q.done ++ [requestMessage method target h 0]) :=
    restarted_eq (by rw [hs]; rfl) hparser herror hcurrent
  rw [hd,hindex] at hrestart
  rw [foldl_headersEnd hp,hend]
  exact hrestart

lemma foldl_afterHeaders_length
    (hp : Ready parseUri p (between version method uri done h false)) (hpos : 0 < h.contentLength) :
    Receiving ([charCr,charLf].foldl (step parseUri) p) .body h.contentLength false
      (requestMessage method target h h.contentLength) done := by
  have hlength : ({ between version method uri done h false with state := .headerEnding } :
      Parser U).bodyLength h.contentLength = h.contentLength := by
    refine (bodyLength_request rfl rfl h.contentLength).trans ?_
    rw [if_neg (by simp [between]),if_neg (by omega)]
  obtain ⟨q, -,hc,hd,hparser,herror, -, -,hend⟩ :=
    headersEnd_request rfl rfl rfl rfl huri hlength
  rw [foldl_headersEnd hp,hend]
  rw [if_neg (by omega),if_neg (by simp [between]),if_pos hpos]
  exact ⟨rfl,rfl,hc,rfl,hd,hparser,herror⟩

omit huri

variable {r : Request}

lemma foldl_request_head (hw : r.WellFormed parseUri) (index : ℕ) (done : List (Message U)) :
    ∃ h p', Collected r.headerVersion r.fields h ∧
      Ready parseUri p' (between r.version r.method r.uri done h (sees r.fields)) ∧
      r.encode.foldl (step parseUri) (waiting index done) =
        r.body.encode.foldl (step parseUri) ([charCr,charLf].foldl (step parseUri) p') := by
  obtain ⟨index',hmethod⟩ : ∃ index', (r.method ++ [charSp]).foldl (step parseUri)
      (waiting index done) = inLine .requestLineUri index' r.method [] done :=
    foldl_method hw.method_ne hw.method_token
  have hnew : Ready parseUri (atHeaders r.version r.method r.uri done)
      (between r.version r.method r.uri done (Headers.new r.headerVersion)
        (sees [])) := by
    have hversion : (atHeaders r.version r.method r.uri done : Parser U).version =
        r.headerVersion := by
      have hknown := hw.version_known
      unfold headerVersion version
      cases hv : r.version <;> simp_all [atHeaders]
    rw [← hversion]
    exact atHeaders_ready
  obtain ⟨h,hready,hc⟩ := foldl_fields r.fields hnew (new_collected _)
    hw.announced.framable hw.fields_wf fun f hf hkey => hw.tokens_upgrade hf hkey
  refine ⟨h,_,hc,hready,?_⟩
  have hsplit : r.encode = (r.method ++ [charSp]) ++ ((r.uri ++ [charSp]) ++ ((http1DotText ++
      ([if r.version = .http11 then charOne else charZero] ++ [charCr,charLf])) ++
      (r.fields.flatMap Field.encode ++ ([charCr,charLf] ++ r.body.encode)))) := by
    simp [encode,versionText]
  rw [hsplit,foldl_append,hmethod,foldl_append,foldl_uri hw.uri_ne hw.uri_line,
    foldl_append,foldl_version hw.version_known,foldl_append,foldl_append]

/-- What the parser delivers of a request, apart from the body. -/
structure Heads (parseUri : Text → Except Failure U) (r : Request) (message : Message U) : Prop where
  method : message.method = r.method
  uri : ∃ uri, parseUri r.uri = .ok uri ∧ message.uri = some uri
  headers : ∀ name, message.headers.values name = headerValues tokenizeFieldValue r.fields name

lemma requestMessage_heads (hc : Collected r.headerVersion r.fields h)
    (huri : parseUri r.uri = .ok target) (length : ℤ) (data : List ℕ) :
    Heads parseUri r ((requestMessage r.method target h length).extend data) :=
  ⟨rfl,⟨target,huri,rfl⟩,hc.values⟩

lemma token_of_hexDigit {d : ℕ} (h : IsHexDigit d) : isTokenChar d = true ∧ d ≠ 72 := by
  have hall : ∀ d < 128, IsHexDigit d → isTokenChar d = true ∧ d ≠ 72 := by decide +kernel
  refine hall d ?_ h
  unfold IsHexDigit at h
  omega

lemma foldl_size_waiting {size : Text} (hne : size ≠ []) (hs : ∀ d ∈ size, IsHexDigit d) :
    size.foldl (step parseUri) (waiting index done) =
      inLine .requestLineMethod index size [] done := by
  obtain ⟨d,rest,rfl⟩ := exists_cons_of_ne_nil hne
  obtain ⟨htoken,hd⟩ := token_of_hexDigit (hs d mem_cons_self)
  have hfirst : (waiting index done).step parseUri d =
      inLine .requestLineMethod index [d] [] done := by
    refine step_ok rfl nofun ?_
    simp only [parseByte,waiting,new]
    rw [if_neg hd,if_neg (by simp [htoken])]
    rfl
  rw [foldl_cons,hfirst]
  exact foldl_methodLoop (fun e he => (token_of_hexDigit (hs e (mem_cons_of_mem d he))).1) [d]

lemma foldl_chunk_fails (hc : c.WellFormed) (rest : List ℕ) :
    ((c.encode ++ rest).foldl (step parseUri) (waiting index done)).state = .failure := by
  obtain ⟨x,more,hmore,hx⟩ : ∃ x more, c.extension ++ ([charCr,charLf] ++ (c.data ++
      [charCr,charLf])) ++ rest = x :: more ∧ (x = charSemiColon ∨ x = charCr) := by
    obtain hnil | hstart := hc.extension_start
    · exact ⟨charCr,_,by rw [hnil]; rfl,.inr rfl⟩
    · cases hext : c.extension with
      | nil => simp [hext] at hstart
      | cons x more =>
        rw [hext,head?_cons,Option.some.injEq] at hstart
        exact ⟨x,_,rfl,.inl hstart⟩
  have hfail : (inLine .requestLineMethod index c.size [] done).step parseUri x =
      (inLine .requestLineMethod index c.size [] done).fail
        (.httpException "Invalid request method") := by
    obtain rfl | rfl := hx
    · exact step_error rfl nofun rfl
    · exact step_error rfl nofun rfl
  rw [Chunk.encode,append_assoc,hmore,foldl_append,
    foldl_size_waiting hc.size_ne hc.size_hex,foldl_cons,hfail,foldl_step_stopped rfl]
  rfl

/-- A request is delivered with its body, or the parser fails at its body. -/
lemma foldl_request (hw : r.WellFormed parseUri) (index : ℕ) (done : List (Message U)) :
    (r.ChunkedAlone → ∃ index' message, Heads parseUri r message ∧ message.body = r.body.data ∧
      r.encode.foldl (step parseUri) (waiting index done) = waiting index' (done ++ [message])) ∧
    (¬r.ChunkedAlone →
      (r.encode.foldl (step parseUri) (waiting index done)).state = .failure) := by
  obtain ⟨h,p',hc,hready,hrun⟩ := foldl_request_head hw index done
  obtain ⟨target,huri⟩ := hw.uri_valid
  have hannounced := hw.announced
  rw [hrun]
  cases hbody : r.body with
  | absent =>
    simp only [Request.Announced,hbody] at hannounced
    rw [sees_of_nil hannounced.2] at hready
    have hlength : h.contentLength ≤ 0 := by
      rw [hc.length,hannounced.1]
      decide
    refine ⟨fun _ => ?_,fun hnot => absurd (by simp [Request.ChunkedAlone,hbody]) hnot⟩
    refine ⟨8,_,requestMessage_heads hc huri 0 [],rfl,?_⟩
    rw [foldl_afterHeaders_empty huri hready hlength]
    rfl
  | length data =>
    simp only [Request.Announced,hbody] at hannounced
    obtain ⟨hencoding,v,hv,hn⟩ := hannounced
    rw [sees_of_nil hencoding] at hready
    have hlength : h.contentLength = data.length := by
      rw [hc.length,hv,lengthOf]
      exact congrArg Nat.cast hn.2.2
    refine ⟨fun _ => ?_,fun hnot => absurd (by simp [Request.ChunkedAlone,hbody]) hnot⟩
    by_cases hne : data = []
    · refine ⟨8,_,requestMessage_heads hc huri 0 data,rfl,?_⟩
      rw [foldl_afterHeaders_empty huri hready (by rw [hlength,hne]; rfl),hne]
      rfl
    · have hpos : 0 < h.contentLength := by
        have := length_pos_of_ne_nil hne
        omega
      have hreceiving := foldl_afterHeaders_length huri hready hpos
      rw [hlength] at hreceiving
      exact ⟨_,_,requestMessage_heads hc huri _ data,rfl,foldl_length hne hreceiving⟩
  | chunked chunks last =>
    have hsees := sees_chunked hannounced hbody
    simp only [Request.Announced,hbody] at hannounced
    obtain ⟨-,hnone, -, -,hchunks,hlast,hnil⟩ := hannounced
    constructor
    · intro halone
      rw [hsees.2 halone] at hready
      obtain ⟨index',hrest⟩ :=
        foldl_chunks hchunks hlast hnil (foldl_afterHeaders_chunked huri hready)
      exact ⟨index',_,requestMessage_heads hc huri _ _,rfl,hrest⟩
    · intro hnot
      have hfalse : sees r.fields = false := by
        rw [← Bool.not_eq_true,hsees]
        exact hnot
      have hlength : h.contentLength ≤ 0 := by
        rw [hc.length,hnone]
        decide
      rw [hfalse] at hready
      rw [foldl_afterHeaders_empty huri hready hlength,Body.encode]
      cases chunks with
      | nil => simpa using foldl_chunk_fails hlast []
      | cons c chunks =>
        rw [flatMap_cons,append_assoc]
        exact foldl_chunk_fails (hchunks c mem_cons_self).1 _

lemma step_done (hp : p.Sound) (byte : ℕ) : p.done <+: (p.step parseUri byte).done := by
  have hprogress : Progress parseUri p byte _ := (step_progress hp byte).2
  cases hprogress with
  | same hdone | data _ _ hdone => exact hdone ▸ prefix_refl _
  | ended _ _ hdone => exact hdone ▸ prefix_append _ _
  | begun _ _ _ h =>
    obtain ⟨hdone, -⟩ | ⟨hdone, -⟩ := h
    · exact hdone ▸ prefix_append _ _
    · exact hdone ▸ prefix_refl _

lemma foldl_done (hp : p.Sound) (bytes : List ℕ) :
    p.done <+: (bytes.foldl (step parseUri) p).done := by
  induction bytes generalizing p with
  | nil => exact prefix_refl _
  | cons c bytes ih => exact (step_done hp c).trans (ih (step_sound hp c))

lemma waiting_sound : (waiting index done).Sound := sound_of_start rfl rfl rfl rfl

lemma Heads.delivers_iff (hh : Heads parseUri r message) (hbody : message.body = r.body.data) :
    r.Delivers parseUri message ↔ r.OptionsPlain := by
  rw [← r.headerValues_iff]
  constructor
  · intro hd name
    rw [← hh.headers,hd.headers]
  · intro hvalues
    exact ⟨hh.method,hh.uri,fun name => (hh.headers name).trans (hvalues name),hbody⟩

/-- The parser has delivered exactly these requests and waits for the next one. -/
def DeliveredAll (parseUri : Text → Except Failure U) (done : List (Message U))
    (requests : List Request) (p : Parser U) : Prop :=
  ∃ index messages, p = waiting index (done ++ messages) ∧
    List.Forall₂ (Request.Delivers parseUri) requests messages

lemma foldl_requests {requests : List Request} (hw : ∀ r ∈ requests, r.WellFormed parseUri)
    (index : ℕ) (done : List (Message U)) : DeliveredAll parseUri done requests
        ((requests.flatMap encode).foldl (step parseUri) (waiting index done)) ↔
      ∀ r ∈ requests, r.OptionsPlain ∧ r.ChunkedAlone := by
  induction requests generalizing index done with
  | nil => exact ⟨fun _ => by simp,fun _ => ⟨index,[],by simp,.nil⟩⟩
  | cons r requests ih =>
    obtain ⟨hgood,hbad⟩ := foldl_request (hw r mem_cons_self) index done
    rw [flatMap_cons,foldl_append,forall_mem_cons]
    by_cases halone : r.ChunkedAlone
    · obtain ⟨index',message,hheads,hbody,hrun⟩ := hgood halone
      have hiff := ih (fun s hs => hw s (mem_cons_of_mem r hs)) index' (done ++ [message])
      rw [hrun,← hiff,← hheads.delivers_iff hbody]
      have hkept : done ++ [message] <+: ((requests.flatMap encode).foldl (step parseUri)
          (waiting index' (done ++ [message]))).done := foldl_done waiting_sound _
      constructor
      · rintro ⟨i,messages,hend,hall⟩
        cases hall with
        | cons hfirst hrest =>
          rename_i first messages
          -- The message of the request is still the next one that was delivered.
          rw [hend] at hkept
          obtain rfl : message = first := by
            have hsame := (prefix_append_right_inj done).1 hkept
            simpa using hsame
          exact ⟨⟨hfirst,halone⟩,i,messages,by rw [hend,append_assoc]; rfl,hrest⟩
      · rintro ⟨⟨hfirst, -⟩,i,messages,hend,hrest⟩
        exact ⟨i,message :: messages,by rw [hend,append_assoc]; rfl,.cons hfirst hrest⟩
    · have hfail := hbad halone
      constructor
      · rintro ⟨i,messages,hend, -⟩
        rw [foldl_step_stopped (by rw [hfail]; rfl)] at hend
        rw [hend] at hfail
        cases hfail
      · exact fun hall => absurd hall.1.2 halone

/-- The request parser delivers the requests of a well-formed stream, however it is cut, exactly
when no list of connection options has a blank after another character of an element, and chunked
bodies are announced by a field of their own. -/
theorem pipelined_iff (parseUri : Text → Except Failure U) (requests : List Request)
    (buffers : List (List ℕ)) (hw : ∀ r ∈ requests, r.WellFormed parseUri)
    (hbytes : buffers.flatten = requests.flatMap Request.encode) :
    DeliveredAll parseUri [] requests (buffers.foldl (onData parseUri) (new true)) ↔
      ∀ r ∈ requests, r.OptionsPlain ∧ r.ChunkedAlone := by
  rw [foldl_onData_flatten (new_sound true),onData_foldl (new_sound true),hbytes]
  exact foldl_requests hw 0 []

def postRequest : Request where
  method := text "POST"
  uri := text "/a"
  version := .http11
  fields := [⟨text "Connection",text " ",text "close"⟩,⟨text "Content-Length",text " ",text "2"⟩]
  body := .length (text "hi")

lemma postRequest_wellFormed : postRequest.WellFormed fun _ => Except.ok () where
  method_ne := by decide
  method_token := by decide
  uri_ne := by decide
  uri_line := by decide
  uri_valid := ⟨(),rfl⟩
  version_known := by decide
  fields_wf := by
    simp only [postRequest,forall_mem_cons,not_mem_nil,false_imp_iff,implies_true,and_true]
    exact ⟨⟨by decide,by decide,by decide,by decide,by decide⟩,
      ⟨by decide,by decide,by decide,by decide,by decide⟩⟩
  no_upgrade := by decide
  announced := ⟨by decide,text "2",by decide,by decide,by decide,by decide⟩

theorem pipelined_iff_post : DeliveredAll (fun _ => Except.ok ()) [] [postRequest,postRequest]
    ([postRequest.encode ++ postRequest.encode].foldl (onData fun _ => Except.ok ()) (new true)) := by
  have hw : ∀ r ∈ [postRequest,postRequest], r.WellFormed fun _ => Except.ok () := by
    simp [postRequest_wellFormed]
  refine (pipelined_iff (fun _ => Except.ok ()) [postRequest,postRequest] _ hw (by simp)).2 ?_
  have hplain : postRequest.OptionsPlain := by
    unfold Request.OptionsPlain BlanksFirst
    decide
  have halone : postRequest.ChunkedAlone := trivial
  simp [hplain,halone]

/-- A request with a blank before the comma of its connection options. -/
def keepAliveRequest : Request where
  method := text "GET"
  uri := text "/"
  version := .http11
  fields := [⟨text "Connection",text " ",text "keep-alive , close"⟩]
  body := .absent

theorem keepAliveRequest_cut : (keepAliveRequest.WellFormed fun _ => Except.ok ()) ∧
    headerValues elements keepAliveRequest.fields connectionName =
      [text "keep-alive",text "close"] ∧
    (((new true).onData (fun _ => Except.ok ()) keepAliveRequest.encode).done.map fun message =>
      message.headers.values connectionName) = [[text "eep-alive ",text "close"]] := by
  refine ⟨⟨by decide,by decide,by decide,by decide,⟨(),rfl⟩,by decide,?_,by decide,
    ⟨by decide,by decide⟩⟩,by decide,by decide +kernel⟩
  simp only [keepAliveRequest,List.forall_mem_cons,List.not_mem_nil,false_imp_iff,implies_true,
    and_true]
  exact ⟨by decide,by decide,by decide,by decide,by decide⟩

end DartSdk.Http.Parser
