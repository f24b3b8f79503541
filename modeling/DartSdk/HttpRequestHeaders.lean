import DartSdk.HttpHeadersFraming
import DartSdk.HttpRequests

/-! What the parser makes of the fields of a well-formed request is compared with what the fields
say. -/
namespace DartSdk.Http

open List Headers
open Outcome (ok_bind)

/-- What the framing headers of a request may be. -/
structure Framable (version : Version) (fields : List Field) : Prop where
  length : valuesOf fields contentLengthName = [] ∨
    ∃ v n, valuesOf fields contentLengthName = [v] ∧ IntParse.Denotes v n ∧
      valuesOf fields transferEncodingName = []
  version : chunkedText ∈ valuesOf fields transferEncodingName → version ≠ .http10
  once : chunkedText ∉ (valuesOf fields transferEncodingName).dropLast

/-- The headers are what the parser makes of the fields. -/
structure Collected (version : Version) (fields : List Field) (h : Headers) : Prop where
  values : ∀ name, h.values name = headerValues tokenizeFieldValue fields name
  present : h.headers transferEncodingName ≠ some []
  mutable : h.mutable = true
  version : h.protocolVersion = version
  length : h.contentLength = lengthOf (valuesOf fields contentLengthName)
  absent : valuesOf fields contentLengthName = [] → h.headers contentLengthName = none
  chunked : h.chunkedTransferEncoding =
    decide (chunkedText ∈ valuesOf fields transferEncodingName)

section Collect

variable {version : Version} {fields : List Field} {f : Field} {h : Headers}

lemma Framable.of_append (hf : Framable version (fields ++ [f])) : Framable version fields where
  length := by
    obtain hnone | ⟨v,n,hv,hn,hte⟩ := hf.length
    · rw [valuesOf_append] at hnone
      exact .inl (append_eq_nil_iff.1 hnone).1
    · rw [valuesOf_append] at hv hte
      have hte := (append_eq_nil_iff.1 hte).1
      split_ifs at hv with hkey
      · left
        have hlength := congrArg List.length hv
        rw [List.length_append,List.length_singleton,List.length_singleton] at hlength
        exact List.eq_nil_of_length_eq_zero (by omega)
      · rw [List.append_nil] at hv
        exact .inr ⟨v,n,hv,hn,hte⟩
  version := fun hmem => hf.version (by rw [valuesOf_append]; exact List.mem_append_left _ hmem)
  once := by
    intro hmem
    refine hf.once ?_
    rw [valuesOf_append]
    split_ifs with hkey
    · rw [dropLast_append_of_ne_nil (by simp),dropLast_singleton,append_nil]
      exact mem_of_mem_dropLast hmem
    · rwa [append_nil]

lemma Framable.of_append_list (rest : List Field) (hf : Framable version (fields ++ rest)) :
    Framable version fields := by
  induction rest using reverseRecOn with
  | nil => rwa [append_nil] at hf
  | append_singleton rest f ih =>
    rw [← append_assoc] at hf
    exact ih hf.of_append

lemma new_collected (version : Version) : Collected version [] (new version) where
  values := by
    intro name
    simp [values,new,headerValues,valuesOf]
  present := nofun
  mutable := rfl
  version := rfl
  length := rfl
  absent := fun _ => rfl
  chunked := rfl

/-- What adding values to a header that has nothing to do with framing does. -/
structure Stores (h h' : Headers) (name : Text) (values : List Text) : Prop where
  values : h'.values name = values
  other : ∀ name', name' ≠ name → h'.headers name' = h.headers name'
  mutable : h'.mutable = h.mutable
  version : h'.protocolVersion = h.protocolVersion
  length : h'.contentLength = h.contentLength
  chunked : h'.chunkedTransferEncoding = h.chunkedTransferEncoding

lemma stores_put (h : Headers) (name : Text) (values : List Text) :
    Stores h (h.put name (some values)) name values where
  values := by rw [Headers.values,Headers.put_same,Option.getD_some]
  other := fun name' hne => Headers.put_other hne _
  mutable := rfl
  version := rfl
  length := rfl
  chunked := rfl

lemma stores_put_persistent (h : Headers) (persistent : Bool) (name : Text) (values : List Text) :
    Stores h ({ h with persistentConnection := persistent }.put name (some values)) name values :=
  have hs := stores_put { h with persistentConnection := persistent } name values
  ⟨hs.values,hs.other,rfl,rfl,rfl,rfl⟩

lemma Collected.values_append {h' : Headers} (hc : Collected version fields h)
    (hsame : h'.values f.key = headerValues tokenizeFieldValue (fields ++ [f]) f.key)
    (hother : ∀ name, name ≠ f.key → h'.values name = h.values name) (name : Text) :
    h'.values name = headerValues tokenizeFieldValue (fields ++ [f]) name := by
  by_cases hname : f.key = name
  · rw [← hname,hsame]
  · rw [hother name (Ne.symm hname),headerValues_other hname,hc.values]

lemma Collected.extend {h' : Headers} (hc : Collected version fields h)
    (hlength : f.key ≠ contentLengthName) (hchunked : f.key ≠ transferEncodingName)
    (hs : Stores h h' f.key (headerValues tokenizeFieldValue (fields ++ [f]) f.key)) :
    Collected version (fields ++ [f]) h' where
  values := hc.values_append hs.values fun name hne => by rw [Headers.values,hs.other name hne,Headers.values]
  present := by
    rw [hs.other _ (Ne.symm hchunked)]
    exact hc.present
  mutable := hs.mutable.trans hc.mutable
  version := hs.version.trans hc.version
  length := by
    rw [valuesOf_other hlength,hs.length]
    exact hc.length
  absent := by
    rw [valuesOf_other hlength,hs.other _ (Ne.symm hlength)]
    exact hc.absent
  chunked := by
    rw [valuesOf_other hchunked,hs.chunked]
    exact hc.chunked

lemma addField_single {name : Text} (hname : name ∈ singleValued) (value : Text) :
    h.addField name (.string value) = .ok (h.put name (some [value])) := by
  simp only [singleValued,mem_cons,not_mem_nil,or_false] at hname
  obtain rfl | rfl | rfl | rfl | rfl := hname <;> rfl

lemma addField_plain {name : Text} (hname : name ∉ singleValued) (hc : name ≠ connectionName)
    (hl : name ≠ contentLengthName) (ht : name ≠ transferEncodingName) (value : Text) :
    h.addField name (.string value) = .ok (h.put name (some (h.values name ++ [value]))) := by
  simp only [singleValued,mem_cons,not_mem_nil,or_false,not_or] at hname
  obtain ⟨h1,h2,h3,h4,h5⟩ := hname
  rw [addField,if_neg h1,if_neg h2,if_neg h3,if_neg hc,if_neg h4,if_neg hl,if_neg ht,
    if_neg h5]
  rfl

lemma addConnection_tokens (tokens : List Text) (h : Headers) : ∃ h',
    tokens.foldlM (fun h token => h.addField connectionName (.string token)) h = .ok h' ∧
      Stores h h' connectionName (h.values connectionName ++ tokens) := by
  induction tokens generalizing h with
  | nil => exact ⟨h,rfl,(append_nil _).symm,fun _ _ => rfl,rfl,rfl,rfl,rfl⟩
  | cons token tokens ih =>
    obtain ⟨g,hg,hs⟩ : ∃ g, h.addField connectionName (.string token) = .ok g ∧
        Stores h g connectionName (h.values connectionName ++ [token]) := by
      change ∃ g, h.addConnection (.string token) = .ok g ∧ _
      unfold addConnection
      dsimp only
      split_ifs
      · exact ⟨_,rfl,stores_put_persistent h _ _ _⟩
      · exact ⟨_,rfl,stores_put_persistent h _ _ _⟩
      · exact ⟨_,rfl,stores_put h _ _⟩
    obtain ⟨h',hrun,hs'⟩ := ih g
    refine ⟨h',?_,?_,?_,hs'.mutable.trans hs.mutable,hs'.version.trans hs.version,
      hs'.length.trans hs.length,hs'.chunked.trans hs.chunked⟩
    · rw [foldlM_cons,hg,ok_bind,hrun]
    · rw [hs'.values,hs.values,append_assoc]
      rfl
    · exact fun name hne => (hs'.other name hne).trans (hs.other name hne)

section
variable (hc : Collected version fields h)
include hc

lemma Collected.values_plain (hname : f.key ∉ singleValued)
    (hconnection : f.key ≠ connectionName) (hlength : f.key ≠ contentLengthName) :
    headerValues tokenizeFieldValue (fields ++ [f]) f.key = h.values f.key ++ [f.value] := by
  rw [hc.values,headerValues,headerValues,if_neg hconnection,if_neg hname,if_neg hlength,
    if_neg hconnection,if_neg hname,if_neg hlength,valuesOf_same]

lemma Collected.connection (hkey : f.key = connectionName) : ∃ h',
      (tokenizeFieldValue f.value).foldlM (fun h token => h.addField f.key (.string token)) h =
      .ok h' ∧ Collected version (fields ++ [f]) h' := by
  obtain ⟨h',hrun,hs⟩ := addConnection_tokens (tokenizeFieldValue f.value) h
  refine ⟨h',by rw [hkey,hrun],hc.extend (by rw [hkey]; decide) (by rw [hkey]; decide) ?_⟩
  have hvalues : headerValues tokenizeFieldValue (fields ++ [f]) f.key =
      h.values connectionName ++ tokenizeFieldValue f.value := by
    rw [hc.values,headerValues,headerValues,if_pos hkey,if_pos rfl,valuesOf_same,
      flatMap_append,hkey]
    simp
  rw [hvalues,hkey]
  exact hs

lemma Collected.contentLength
    (hf : Framable version (fields ++ [f])) (hkey : f.key = contentLengthName) :
    ∃ h', h.addField f.key (.string f.value) = .ok h' ∧ Collected version (fields ++ [f]) h' := by
  -- This is the only length, and there is no transfer encoding.
  have hsame : valuesOf (fields ++ [f]) contentLengthName =
      valuesOf fields contentLengthName ++ [f.value] := hkey ▸ valuesOf_same
  obtain hnone | ⟨v,n,hv,hn,hte⟩ := hf.length
  · rw [hsame] at hnone
    simp at hnone
  rw [hsame] at hv
  obtain ⟨hfirst,hvalue⟩ : valuesOf fields contentLengthName = [] ∧ f.value = v := by
    have hlength := congrArg List.length hv
    rw [List.length_append,List.length_singleton,List.length_singleton] at hlength
    have hnil := List.eq_nil_of_length_eq_zero (by omega : (valuesOf fields contentLengthName).length = 0)
    rw [hnil] at hv
    exact ⟨hnil,by simpa using hv⟩
  rw [← hvalue] at hn
  have hother : f.key ≠ transferEncodingName := by rw [hkey]; decide
  have hold : h.contentLength = -1 := by rw [hc.length,hfirst]; rfl
  have hte' : valuesOf fields transferEncodingName = [] := by rwa [valuesOf_other hother] at hte
  have hoff : h.chunkedTransferEncoding = false := by
    rw [hc.chunked,hte']
    rfl
  refine ⟨{ h with contentLength := n }.setText contentLengthName (IntParse.decimal n),?_,?_⟩
  · rw [hkey]
    change h.addContentLength (.string f.value) = _
    simp only [addContentLength,IntParse.parse_digits hn]
    rw [setContentLength,setFraming,checkMutable_bind hc.mutable,
      if_neg (by omega),if_neg (by omega)]
    rw [if_pos (by omega),hoff]
    rfl
  · have hnumber : numberOf f.value = n := hn.2.2
    have hvalues : valuesOf (fields ++ [f]) contentLengthName = [f.value] := by
      rw [hsame,hfirst,nil_append]
    have hput (name : Text) (hne : name ≠ contentLengthName) :
        ({ h with contentLength := n }.setText contentLengthName (IntParse.decimal n)).headers name =
          h.headers name := put_other hne _
    refine ⟨hc.values_append ?_ fun name hne => ?_,?_,hc.mutable,hc.version,?_,?_,?_⟩
    · rw [hkey,headerValues,if_neg (by decide),if_neg (by decide),if_pos rfl,hvalues,
        map_singleton,hnumber,Headers.setText,Headers.values,Headers.put_same,Option.getD_some]
    · rw [Headers.values,hput name (hkey ▸ hne),Headers.values]
    · rw [hput _ (by decide)]
      exact hc.present
    · rw [hvalues,lengthOf,hnumber]
      rfl
    · rw [hvalues]
      exact fun hnil => absurd hnil (cons_ne_nil _ _)
    · rw [valuesOf_other hother]
      exact hc.chunked

lemma Collected.chunkedEncoding
    (hf : Framable version (fields ++ [f])) (hkey : f.key = transferEncodingName)
    (hvalue : f.value = chunkedText) :
    ∃ h', h.addField f.key (.string f.value) = .ok h' ∧ Collected version (fields ++ [f]) h' := by
  have hsame : valuesOf (fields ++ [f]) transferEncodingName =
      valuesOf fields transferEncodingName ++ [chunkedText] := by
    rw [← hkey,valuesOf_same,hvalue]
  have hother : f.key ≠ contentLengthName := by rw [hkey]; decide
  have hnot : chunkedText ∉ valuesOf fields transferEncodingName := by
    have honce := hf.once
    rwa [hsame,dropLast_concat] at honce
  have hnone : valuesOf fields contentLengthName = [] := by
    obtain hnone | ⟨v,n, -, -,hte⟩ := hf.length
    · rwa [valuesOf_other hother] at hnone
    · rw [hsame] at hte
      simp at hte
  have hvalues : h.values transferEncodingName = valuesOf fields transferEncodingName := by
    rw [hc.values,headerValues,if_neg (by decide),if_neg (by decide),if_neg (by decide)]
  have hoff : h.chunkedTransferEncoding = false := by rw [hc.chunked,decide_eq_false hnot]
  have hencoded : h.Encoded := ⟨fun hon => absurd (hoff.symm.trans hon) (by decide),
    fun _ => ⟨hc.present,hvalues ▸ hnot⟩⟩
  have hversion : h.protocolVersion ≠ .http10 := by
    rw [hc.version]
    exact hf.version (by simp [hsame])
  refine ⟨h.withChunked,?_,?_⟩
  · rw [hkey,hvalue,addField_encoding,addTransferEncoding,if_pos rfl,
      setChunkedTransferEncoding,setFraming_chunked hencoded hc.mutable hversion hoff fun _ => hc.absent hnone]
  · have hlength : h.withChunked.headers contentLengthName = none := by
      simp [withChunked,put_same]
    have hte : h.withChunked.headers transferEncodingName =
        some (valuesOf fields transferEncodingName ++ [chunkedText]) := by
      simp only [withChunked]
      rw [put_other names_ne.symm,put_same,hvalues]
    refine ⟨hc.values_append ?_ fun name hne => ?_,?_,hc.mutable,hc.version,?_,fun _ => hlength,?_⟩
    · rw [hkey,Headers.values,hte,Option.getD_some,headerValues,if_neg (by decide),
        if_neg (by decide),if_neg (by decide),hsame]
    · by_cases hname' : name = contentLengthName
      · rw [hname',Headers.values,hlength,Headers.values,hc.absent hnone]
      · simp only [Headers.values,Headers.withChunked]
        rw [Headers.put_other hname',Headers.put_other (hkey ▸ hne)]
    · rw [hte]
      simp
    · rw [valuesOf_other hother,hnone]
      rfl
    · rw [hsame]
      simp [withChunked]

lemma Collected.otherEncoding
    (hkey : f.key = transferEncodingName) (hvalue : f.value ≠ chunkedText) :
    ∃ h', h.addField f.key (.string f.value) = .ok h' ∧ Collected version (fields ++ [f]) h' := by
  have hother : f.key ≠ contentLengthName := by rw [hkey]; decide
  have hvalues := hc.values_plain (by rw [hkey]; decide) (by rw [hkey]; decide) hother
  have hs := stores_put h f.key (h.values f.key ++ [f.value])
  refine ⟨h.put f.key (some (h.values f.key ++ [f.value])),?_,hc.values_append (hs.values.trans hvalues.symm)
    fun name hne => ?_,?_,hc.mutable,hc.version,?_,?_,?_⟩
  · rw [hkey,addField_encoding,addTransferEncoding,if_neg (by simpa using hvalue)]
    rfl
  · rw [Headers.values,hs.other name hne,Headers.values]
  · rw [← hkey,Headers.put_same]
    simp
  · rw [valuesOf_other hother]
    exact hc.length
  · rw [valuesOf_other hother,hs.other _ (Ne.symm hother)]
    exact hc.absent
  · rw [← hkey,valuesOf_same]
    refine hc.chunked.trans ?_
    simp [hkey,Ne.symm hvalue]

end

/-- The values that the parser adds for a field. -/
def Field.tokens (f : Field) : List Text :=
  if f.key = connectionName then tokenizeFieldValue f.value else [f.value]

lemma Collected.field (hc : Collected version fields h) (hf : Framable version (fields ++ [f])) :
    ∃ h', f.tokens.foldlM (fun h token => h.addField f.key (.string token)) h = .ok h' ∧
      Collected version (fields ++ [f]) h' := by
  by_cases hconnection : f.key = connectionName
  · rw [Field.tokens,if_pos hconnection]
    exact hc.connection hconnection
  · suffices hadd : ∃ h', h.addField f.key (.string f.value) = .ok h' ∧
        Collected version (fields ++ [f]) h' by
      obtain ⟨h',hrun,hc'⟩ := hadd
      refine ⟨h',?_,hc'⟩
      rw [Field.tokens,if_neg hconnection,foldlM_cons,hrun,ok_bind]
      rfl
    by_cases hlength : f.key = contentLengthName
    · exact hc.contentLength hf hlength
    by_cases hencoding : f.key = transferEncodingName
    · by_cases hvalue : f.value = chunkedText
      · exact hc.chunkedEncoding hf hencoding hvalue
      · exact hc.otherEncoding hencoding hvalue
    by_cases hsingle : f.key ∈ singleValued
    · refine ⟨_,addField_single hsingle f.value,hc.extend hlength hencoding ?_⟩
      rw [headerValues,if_neg hconnection,if_pos hsingle,valuesOf_same,getLast?_concat]
      exact stores_put h _ _
    · refine ⟨_,addField_plain hsingle hconnection hlength hencoding f.value,
        hc.extend hlength hencoding ?_⟩
      rw [hc.values_plain hsingle hconnection hlength]
      exact stores_put h _ _

end Collect

lemma elements_ne_nil (value : Text) : elements value ≠ [] := by
  rw [elements,Ne,map_eq_nil_iff]
  exact splitOnP_ne_nil _ _

lemma elements_chunked {value : Text} (h : toLowerCase value = chunkedText) :
    elements value = [value] :=
  elements_word h (by decide) (by decide) (by decide)

lemma flatMap_eq_iff {f g : Text → List Text} (hlength : ∀ v, (f v).length = (g v).length)
    (l : List Text) : l.flatMap f = l.flatMap g ↔ ∀ v ∈ l, f v = g v := by
  induction l with
  | nil => simp
  | cons v l ih =>
    rw [flatMap_cons,flatMap_cons,forall_mem_cons,← ih]
    exact ⟨fun h => append_inj h (hlength v),fun ⟨h,h'⟩ => by rw [h,h']⟩

namespace Request

variable {r : Request}

/-- The version that the headers are made for. -/
def headerVersion (r : Request) : Version := if r.version = .http11 then .http11 else .http10

/-- The headers are right if and only if no list of options confuses the tokenizer. -/
lemma headerValues_iff (r : Request) : (∀ name, headerValues tokenizeFieldValue r.fields name =
    headerValues elements r.fields name) ↔ r.OptionsPlain := by
  have hlength (v : Text) : (tokenizeFieldValue v).length = (elements v).length := by
    rw [tokenizeFieldValue_eq,elements,length_map,length_map]
  have hiff : (valuesOf r.fields connectionName).flatMap tokenizeFieldValue =
      (valuesOf r.fields connectionName).flatMap elements ↔ r.OptionsPlain := by
    rw [flatMap_eq_iff hlength]
    exact forall₂_congr fun v _ => tokenizeFieldValue_eq_iff v
  rw [← hiff]
  constructor
  · intro h
    have hconnection := h connectionName
    rwa [headerValues,headerValues,if_pos rfl,if_pos rfl] at hconnection
  · intro h name
    rw [headerValues,headerValues]
    by_cases hname : name = connectionName
    · rw [if_pos hname,if_pos hname,hname,h]
    · rw [if_neg hname,if_neg hname]

lemma chunked_last (hlast : r.encodings.getLast?.map toLowerCase = some chunkedText)
    (hrest : ∀ e ∈ r.encodings.dropLast, toLowerCase e ≠ chunkedText) :
    ∃ front v, valuesOf r.fields transferEncodingName = front ++ [v] ∧
      ∀ w ∈ front, toLowerCase w ≠ chunkedText := by
  obtain hnil | ⟨front,v,hv⟩ := eq_nil_or_concat (valuesOf r.fields transferEncodingName)
  · rw [encodings,hnil] at hlast
    cases hlast
  · rw [concat_eq_append] at hv
    refine ⟨front,v,hv,?_⟩
    intro w hw hchunked
    refine hrest w ?_ hchunked
    rw [encodings,hv,flatMap_append,flatMap_singleton,
      dropLast_append_of_ne_nil (elements_ne_nil v)]
    refine mem_append_left _ (mem_flatMap.2 ⟨w,hw,?_⟩)
    rw [elements_chunked hchunked]
    exact mem_singleton_self w

lemma Announced.framable (h : r.Announced) : Framable r.headerVersion r.fields := by
  unfold Announced at h
  split at h
  · obtain ⟨hlength,hencoding⟩ := h
    exact ⟨.inl hlength,by simp [hencoding],by simp [hencoding]⟩
  · obtain ⟨hencoding,v,hv,hn⟩ := h
    exact ⟨.inr ⟨v,_,hv,hn,hencoding⟩,by simp [hencoding],by simp [hencoding]⟩
  · obtain ⟨hversion,hlength,hlast,hrest, -⟩ := h
    obtain ⟨front,v,hv,hfront⟩ := chunked_last hlast hrest
    refine ⟨.inl hlength,fun _ => by rw [headerVersion,if_pos hversion]; decide,?_⟩
    rw [hv,dropLast_concat]
    exact fun hmem => hfront chunkedText hmem (by decide)

/-- The parser sees a chunked body. -/
def sees (fields : List Field) : Bool :=
  (valuesOf fields transferEncodingName).any (caseInsensitiveCompare (text "chunked"))

lemma sees_iff (fields : List Field) : sees fields = true ↔
    ∃ v ∈ valuesOf fields transferEncodingName, toLowerCase v = chunkedText := by
  rw [sees,any_eq_true]
  exact exists_congr fun v => and_congr_right fun _ => caseInsensitiveCompare_iff (by decide)

lemma sees_chunked {chunks : List Chunk} {last : Chunk} (h : r.Announced)
    (hbody : r.body = .chunked chunks last) : sees r.fields = true ↔ r.ChunkedAlone := by
  simp only [Announced,hbody] at h
  obtain ⟨-, -,hlast,hrest, -⟩ := h
  obtain ⟨front,v,hv,hfront⟩ := chunked_last hlast hrest
  simp only [ChunkedAlone,hbody]
  rw [sees_iff,hv,getLast?_concat,Option.map_some,Option.some.injEq]
  constructor
  · rintro ⟨w,hw,hchunked⟩
    obtain hw | hw := mem_append.1 hw
    · exact absurd hchunked (hfront w hw)
    · rwa [mem_singleton.1 hw] at hchunked
  · exact fun hchunked => ⟨v,by simp,hchunked⟩

lemma sees_of_nil {fields : List Field} (h : valuesOf fields transferEncodingName = []) :
    sees fields = false := by
  rw [sees,h]
  rfl

/-- No token of the connection options is taken for an upgrade. -/
lemma WellFormed.tokens_upgrade {U : Type} {parseUri : Text → Except Failure U}
    (h : r.WellFormed parseUri) {f : Field} (hf : f ∈ r.fields) (hkey : f.key = connectionName) :
    (tokenizeFieldValue f.value).any (caseInsensitiveCompare (text "upgrade")) = false := by
  rw [any_eq_false]
  intro token htoken hcompare
  rw [caseInsensitiveCompare_iff (by decide)] at hcompare
  rw [tokenizeFieldValue_eq] at htoken
  obtain ⟨s,hs,rfl⟩ := mem_map.1 htoken
  rw [cutBlanks_word (not_blank_of_word hcompare (by decide) (by decide))] at hcompare
  refine h.no_upgrade f.value ?_ (trimBlanks s) (mem_map_of_mem hs) hcompare
  exact mem_map_of_mem (mem_filter.2 ⟨hf,by simpa using hkey⟩)

end Request

end DartSdk.Http
