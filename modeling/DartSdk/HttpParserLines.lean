import DartSdk.HttpParserRequests

/-! What the messages of a byte stream say, when a condition on every byte is kept. -/
namespace DartSdk.Http

open List

def IsToken (c : ℕ) : Prop := 32 < c ∧ c < 127 ∧ isSeparator c = false

instance (c : ℕ) : Decidable (IsToken c) := inferInstanceAs (Decidable (_ ∧ _ ∧ _))

/-- A text that can be a method or the name of a header field. -/
def IsName (name : Text) : Prop := name ≠ [] ∧ ∀ c ∈ name, IsToken c

namespace Parser

variable {U : Type} {parseUri : Text → Except Failure U} {p p' : Parser U} {byte : ℕ}

def run (parseUri : Text → Except Failure U) (requestParser : Bool) (bytes : List ℕ) : Parser U :=
  bytes.foldl (step parseUri) (new requestParser)

/-- All messages, also the one whose body is being received. -/
def messages (p : Parser U) : List (Message U) := p.done ++ p.current.toList

lemma Progress.messages {Q : ℕ → Message U → Prop} (h : Progress parseUri p byte p') (hp : p.Sound)
    (hQ : ∀ i m, p.messages[i]? = some m → Q i m)
    (hbody : ∀ i m data, Q i m → Q i { m with body := data })
    (hnew : p.state.inHeader = true → ∀ m, Begins p m → Q p.done.length m) :
    ∀ i m, p'.messages[i]? = some m → Q i m := by
  have hlast : ∀ m', Q p.done.length m' → p'.messages = p.done ++ [m'] →
      ∀ i m, p'.messages[i]? = some m → Q i m := by
    intro m' hm' heq i m hi
    rw [heq,getElem?_append] at hi
    split_ifs at hi with hlt
    · exact hQ i m (by rw [Parser.messages,getElem?_append_left hlt,hi])
    · rw [getElem?_singleton] at hi
      split_ifs at hi with hzero
      cases hi
      rwa [show i = p.done.length by omega]
  have hopen : ∀ c, p.current = some c → Q p.done.length c := by
    intro c hc
    exact hQ _ c (by simp [Parser.messages,hc])
  cases h with
  | same hdone hcurrent => rwa [Parser.messages,hdone,hcurrent]
  | data hsome data hdone hcurrent | ended hsome data hdone hcurrent =>
    obtain ⟨c,hc⟩ := Option.ne_none_iff_exists'.mp hsome
    exact hlast _ (hbody _ _ (c.body ++ data) (hopen c hc)) (by simp [Parser.messages,hdone,hcurrent,hc])
  | begun message hheader hbegins h =>
    have hnone := (hp.idle (State.beforeBody_of_inHeader hheader)).1
    refine hlast _ (hnew hheader _ hbegins) ?_
    obtain ⟨hdone,hcurrent⟩ | ⟨hdone,hcurrent⟩ := h <;> simp [Parser.messages,hdone,hcurrent,hnone]

section
variable {requestParser : Bool}

lemma run_sound (bytes : List ℕ) : (run parseUri requestParser bytes).Sound :=
  foldl_step_sound (new_sound requestParser) bytes

lemma run_concat (bytes : List ℕ) (byte : ℕ) : run parseUri requestParser (bytes ++ [byte]) =
    (run parseUri requestParser bytes).step parseUri byte := foldl_append

lemma run_requestParser (bytes : List ℕ) :
    (run parseUri requestParser bytes).requestParser = requestParser := by
  induction bytes using reverseRecOn with
  | nil => rfl
  | append_singleton bytes byte ih =>
    rw [run_concat,(step_progress (run_sound bytes) byte).1,ih]

/-- `K` is kept by the bytes before a body, and `Q` by the messages. -/
lemma run_invariant (parseUri : Text → Except Failure U) (requestParser : Bool) (bytes : List ℕ)
    (K : ℕ → Parser U → Prop) (Q : ℕ → Message U → Prop)
    (hfresh : ∀ i p, run parseUri requestParser (bytes.take i) = p → Fresh p → K i p)
    (hread : ∀ i (hi : i < bytes.length) p p', run parseUri requestParser (bytes.take i) = p →
      p.state.beforeBody = true → K i p → Reads p p' → p.parseByte parseUri bytes[i] = .ok p' →
      (AtHeadersEnd p → bytes[i] ≠ charLf) → K (i+1) p')
    (hbody : ∀ i m data, Q i m → Q i { m with body := data })
    (hnew : ∀ i p m, i ≤ bytes.length → p.requestParser = requestParser →
      p.state.inHeader = true → K i p → Begins p m → Q p.done.length m) :
    ((run parseUri requestParser bytes).state.beforeBody = true →
        K bytes.length (run parseUri requestParser bytes)) ∧
      ∀ i m, (run parseUri requestParser bytes).messages[i]? = some m → Q i m := by
  have hrun : ∀ n ≤ bytes.length, ((run parseUri requestParser (bytes.take n)).state.beforeBody =
      true → K n (run parseUri requestParser (bytes.take n))) ∧
      ∀ i m, (run parseUri requestParser (bytes.take n)).messages[i]? = some m → Q i m := by
    intro n hn
    induction n with
    | zero => exact ⟨fun _ => hfresh 0 _ rfl ⟨rfl,⟨rfl,rfl⟩,rfl,rfl⟩,by simp [run,messages,new]⟩
    | succ n ih =>
      obtain ⟨hK,hQ⟩ := ih (by omega)
      have hprogress : Progress parseUri (run parseUri requestParser (bytes.take n)) bytes[n] _ :=
        (step_progress (run_sound _) _).2
      rw [← run_concat,take_append_getElem] at hprogress
      refine ⟨fun hbefore => ?_,hprogress.messages (run_sound _) hQ hbody fun hheader m =>
        hnew n _ m (by omega) (run_requestParser _) hheader
          (hK (State.beforeBody_of_inHeader hheader))⟩
      cases hprogress with
      | same _ _ _ hread' =>
        obtain ⟨hreads,hparse,hbyte⟩ := hread' hbefore
        have hp := hreads.before.symm.trans hbefore
        exact hread n hn _ _ rfl hp (hK hp) hreads hparse hbyte
      | data _ _ _ _ hstate =>
        rw [hstate] at hbefore
        cases hbefore
      | ended _ _ _ _ hfresh' => exact hfresh _ _ rfl hfresh'
      | begun _ _ _ _ hfresh' => exact hfresh _ _ rfl (hfresh' hbefore)
  simpa using hrun bytes.length le_rfl

end

/-- The next byte becomes a character of a method or of the name of a header field. -/
def namesNext (p : Parser U) (byte : ℕ) : Bool :=
  match p.state with
  | .start => p.requestParser && isTokenChar byte
  | .methodOrResponseHttpVersion => p.requestParser && decide (byte ≠ charSp ∧
      ¬(p.httpVersionIndex = httpText.length ∧ byte = charSlash))
  | .requestLineMethod => !isSeparator byte && decide (byte ≠ charCr ∧ byte ≠ charLf)
  | .headerStart => decide (byte ≠ charCr ∧ byte ≠ charLf)
  | .headerField => isTokenChar byte
  | .headerValueFoldOrEnd =>
    decide (byte ≠ charSp ∧ byte ≠ charHt ∧ byte ≠ charCr ∧ byte ≠ charLf)
  | _ => false

/-- The names that are being read. -/
structure Named (p : Parser U) : Prop where
  method : ∀ c ∈ p.method, IsToken c
  field : ∀ c ∈ p.headerField, IsToken c
  read : match p.state with
    | .start => True
    | .methodOrResponseHttpVersion => p.httpVersionIndex ≠ 0
    | .headerField | .headerValueStart | .headerValue | .headerValueFoldingOrEnding
    | .headerValueFoldOrEnd => (p.requestParser = true → p.method ≠ []) ∧ p.headerField ≠ []
    | _ => p.requestParser = true → p.method ≠ []

lemma token_lower {c : ℕ} (h : IsToken c) : IsToken (toLowerCaseByte c) := by
  have hall : ∀ c < 127, 32 < c → isSeparator c = false → 32 < toLowerCaseByte c ∧
      toLowerCaseByte c < 127 ∧ isSeparator (toLowerCaseByte c) = false := by
    decide +kernel
  exact hall c h.2.1 h.1 h.2.2

lemma http_token : ∀ c ∈ httpText, IsToken c := by
  unfold IsToken
  decide

lemma named_headerOrEnd (h : p.headerOrEnd parseUri byte = .ok p') (hlf : byte ≠ charLf)
    (hmethod : ∀ c ∈ p.method, IsToken c) (hfield : ∀ c ∈ p.headerField, IsToken c)
    (hread : p.requestParser = true → p.method ≠ []) (hbyte : byte ≠ charCr → IsToken byte) :
    Named p' := by
  unfold headerOrEnd at h
  split_ifs at h with hcr <;> cases h
  · exact ⟨hmethod,hfield,hread⟩
  · have htoken := token_lower (hbyte hcr)
    exact ⟨hmethod,by simpa [or_imp,forall_and] using ⟨hfield,htoken⟩,hread,by simp⟩

lemma named_step (h : p.parseByte parseUri byte = .ok p') (hs : p.state.beforeBody = true)
    (hlf : AtHeadersEnd p → byte ≠ charLf) (hp : Named p)
    (hnext : p.namesNext byte = true → IsToken byte) : Named p' := by
  obtain ⟨hmethod,hfield,hread⟩ := hp
  have htake : ∀ c ∈ httpText.take p.httpVersionIndex, IsToken c :=
    fun c hc => http_token c (mem_of_mem_take hc)
  have hhttp : httpText ≠ [] := by decide
  cases hstate : p.state with
  | start | methodOrResponseHttpVersion | requestLineMethod | requestLineUri | responseLineStatusCode
  | responseLineReasonPhrase | headerField | headerValueStart | headerValue =>
    simp only [parseByte,hstate] at h
    simp only [namesNext,hstate] at hnext hread
    split_ifs at h <;> cases h <;> constructor <;> simp_all [or_imp,forall_and,token_lower]
  | responseHttpVersion | requestLineHttpVersion =>
    simp only [parseByte,hstate] at h hread
    split_ifs at h
    all_goals
      first | cases h | cases (expect_bind h).2
      exact ⟨hmethod,hfield,by simpa [hstate] using hread⟩
  | requestLineEnding | headerValueFoldingOrEnding =>
    simp only [parseByte,hstate] at h hread
    cases (expect_bind h).2
    exact ⟨hmethod,hfield,hread⟩
  | responseLineEnding =>
    simp only [parseByte,hstate] at h hread
    have hret := (expect_bind h).2
    split_ifs at hret <;> cases hret <;> exact ⟨hmethod,hfield,hread⟩
  | headerStart =>
    simp only [parseByte,hstate] at h hread
    have hne := hlf (.inl hstate)
    exact named_headerOrEnd h hne hmethod hfield hread fun hcr =>
      hnext (by simp [namesNext,hstate,hcr,hne])
  | headerValueFoldOrEnd =>
    simp only [parseByte,hstate] at h hread
    split_ifs at h with hblank
    · cases h
      exact ⟨hmethod,hfield,hread⟩
    · obtain ⟨q,hq,hend⟩ := Outcome.bind_eq_ok h
      obtain ⟨headers,chunked,upgrade,rfl⟩ := addHeader_cases hq
      have hne := hlf (.inr (.inl hstate))
      exact named_headerOrEnd hend hne hmethod (by simp) hread.1 fun hcr =>
        hnext (by simp_all [namesNext])
  | headerEnding =>
    simp only [parseByte,hstate] at h
    exact absurd (headerEnding_cases h).1 (hlf (.inr (.inr hstate)))
  | _ => simp [hstate,State.beforeBody] at hs

lemma Named.method_ne (hp : Named p) (hheader : p.state.inHeader = true)
    (hr : p.requestParser = true) : p.method ≠ [] := by
  have hread := hp.read
  cases hstate : p.state <;> simp_all [State.inHeader]

/-- If every byte that gets into a name is a character of a token, the method of every request and
the name of every header field that is handed over are tokens. -/
theorem names_are_tokens (parseUri : Text → Except Failure U) (requestParser : Bool) (bytes : List ℕ)
    (hclean : ∀ i (hi : i < bytes.length),
      (run parseUri requestParser (bytes.take i)).namesNext bytes[i] = true → IsToken bytes[i]) :
    (requestParser = true → ∀ m ∈ (run parseUri requestParser bytes).messages, IsName m.method) ∧
    ((run parseUri requestParser bytes).state = .headerValueFoldOrEnd →
      IsName (run parseUri requestParser bytes).headerField) := by
  have hinv := run_invariant parseUri requestParser bytes (fun _ => Named)
    (fun _ m => requestParser = true → IsName m.method)
    (fun _ p _ hp => ⟨by simp [hp.names],by simp [hp.names],by simp [hp.state]⟩)
    (fun i hi p p' hrun hbefore hp _ hparse hlf =>
      named_step hparse hbefore hlf hp (hrun ▸ hclean i hi))
    (fun _ _ _ hm => hm) fun _ p m _ hparser hheader hp hbegins hr => by
      rw [IsName,hbegins.method (hparser.trans hr)]
      exact ⟨hp.method_ne hheader (hparser.trans hr),hp.method⟩
  refine ⟨fun hr m hm => ?_,fun hstate => ?_⟩
  · obtain ⟨i,hi⟩ := getElem?_of_mem hm
    exact hinv.2 i m hi hr
  · have hnamed := hinv.1 (by rw [hstate]; rfl)
    have hread := hnamed.read
    simp only [hstate] at hread
    exact ⟨hread.2,hnamed.field⟩

theorem names_are_tokens_get :
    (run (fun _ => .ok ()) true (text "G / HTTP/1.0\na:b\n")).state = .headerValueFoldOrEnd ∧
      IsName (run (fun _ => .ok ()) true (text "G / HTTP/1.0\na:b\n")).headerField :=
  ⟨by decide +kernel,(names_are_tokens _ true _ (by decide +kernel)).2 (by decide +kernel)⟩

/-- A control character becomes a method. -/
theorem names_slip : (run (fun _ => .ok ()) true ([71,1] ++ text " / HTTP/1.0\n::\n\n")).messages.map
    Message.method = [[71,1]] := by
  decide +kernel

/-- The parser after some buffers. -/
def receive (parseUri : Text → Except Failure U) (requestParser : Bool) (buffers : List (List ℕ)) :
    Parser U := buffers.foldl (onData parseUri) (new requestParser)

lemma Progress.extends (h : Progress parseUri p byte p') (hp : p.Sound) {i : ℕ} {m : Message U}
    (hi : p.messages[i]? = some m) : ∃ data, p'.messages[i]? = some (m.extend data) := by
  have hold : p.done[i]? = some m → ∀ rest, ∃ data, (p.done ++ rest)[i]? = some (m.extend data) :=
    fun h rest => ⟨[],by
      rw [getElem?_append_left (List.getElem?_eq_some_iff.1 h).1,h,Message.extend,append_nil]⟩
  cases h with
  | same hdone hcurrent => exact ⟨[],by simpa [Parser.messages,hdone,hcurrent,Message.extend] using hi⟩
  | data hsome data hdone hcurrent | ended hsome data hdone hcurrent =>
    obtain ⟨c,hc⟩ := Option.ne_none_iff_exists'.mp hsome
    have hnew : p'.messages = p.done ++ [c.extend data] := by
      simp [Parser.messages,hdone,hcurrent,hc,Message.extend]
    rw [hnew]
    rw [Parser.messages,hc,Option.toList_some] at hi
    rcases lt_or_ge i p.done.length with hlt | hge
    · exact hold (by rwa [getElem?_append_left hlt] at hi) _
    · rw [getElem?_append_right hge,getElem?_singleton] at hi ⊢
      split_ifs at hi ⊢
      cases hi
      exact ⟨data,rfl⟩
  | begun message hheader _ h =>
    have hnone := (hp.idle (State.beforeBody_of_inHeader hheader)).1
    simp only [Parser.messages,hnone,Option.toList_none,append_nil] at hi
    obtain ⟨hdone,hcurrent⟩ | ⟨hdone,hcurrent⟩ := h <;>
      simpa [Parser.messages,hdone,hcurrent,hnone] using hold hi [message]

lemma foldl_extends (hp : p.Sound) {bytes : List ℕ} {i : ℕ} {m : Message U}
    (hi : p.messages[i]? = some m) :
    ∃ data, (bytes.foldl (step parseUri) p).messages[i]? = some (m.extend data) := by
  induction bytes generalizing p m with
  | nil => exact ⟨[],by rw [foldl_nil,hi,Message.extend,append_nil]⟩
  | cons byte bytes ih =>
    have hprogress : Progress parseUri p byte _ := (step_progress hp byte).2
    obtain ⟨data,hdata⟩ := hprogress.extends hp hi
    obtain ⟨data',hlast⟩ := ih (step_sound hp byte) hdata
    exact ⟨data ++ data',by rw [foldl_cons,hlast,Message.extend,Message.extend,append_assoc]; rfl⟩

/-- Messages that were delivered stay as they are, the body of the one that is being received only
grows, and a parser that has stopped ignores what follows. -/
theorem deliveries_final (parseUri : Text → Except Failure U) (requestParser : Bool)
    (buffers more : List (List ℕ)) : (receive parseUri requestParser buffers).done <+:
        (receive parseUri requestParser (buffers ++ more)).done ∧
      (∀ (i : ℕ) (m : Message U), (receive parseUri requestParser buffers).messages[i]? = some m →
        ∃ data, (receive parseUri requestParser (buffers ++ more)).messages[i]? =
          some (m.extend data)) ∧
      ((receive parseUri requestParser buffers).state.stopped = true →
        receive parseUri requestParser (buffers ++ more) = receive parseUri requestParser buffers) := by
  have hp : (receive parseUri requestParser buffers).Sound := by
    rw [receive,foldl_onData_flatten (new_sound _),onData_foldl (new_sound _)]
    exact run_sound _
  have hmore : receive parseUri requestParser (buffers ++ more) =
      more.flatten.foldl (step parseUri) (receive parseUri requestParser buffers) := by
    rw [receive,foldl_append,← receive,foldl_onData_flatten hp,onData_foldl hp]
  rw [hmore]
  exact ⟨foldl_done hp _,fun i m => foldl_extends hp,fun h => foldl_step_stopped h _⟩

end Parser

end DartSdk.Http
