import DartSdk.HttpHeaders
import DartSdk.Iteration

/-! The content length and the chunked transfer encoding are kept in fields and in the map. Here it
is decided which operations keep both in step. -/
namespace DartSdk.Http

open List Except IntParse
open Outcome (ok_bind bind_eq_ok foldlM_invariant)

variable {value : Value} {values : List Value}

/-- What a value for the content length denotes. -/
def Value.length? : Value → Option ℤ
  | int n => some n
  | string s => IntParse.parse s
  | _ => none

namespace Headers

variable {h h' : Headers} {name : Text}

/-- The fields say what the headers say. -/
structure Framed (h : Headers) : Prop where
  length : ∀ n : ℕ, h.contentLength = n ↔
    ∃ v, h.values contentLengthName = [v] ∧ IntParse.Denotes v n
  chunked : h.chunkedTransferEncoding = true ↔
    (h.values transferEncodingName).getLast? = some chunkedText
  apart : ¬(0 ≤ h.contentLength ∧ h.chunkedTransferEncoding = true)

/-- The transfer encodings contain `chunked` once and at the end, or not at all. -/
structure Encoded (h : Headers) : Prop where
  chunked : h.chunkedTransferEncoding = true →
    ∃ front, h.headers transferEncodingName = some (front ++ [chunkedText]) ∧ chunkedText ∉ front
  unchunked : h.chunkedTransferEncoding = false →
    h.headers transferEncodingName ≠ some [] ∧ chunkedText ∉ h.values transferEncodingName

/-- The invariant of runs without failing steps. -/
structure Consistent (h : Headers) : Prop extends Encoded h where
  apart : h.chunkedTransferEncoding = true → h.contentLength < 0
  length : h.headers contentLengthName =
    if 0 ≤ h.contentLength then some [IntParse.decimal h.contentLength] else none

lemma names_ne : contentLengthName ≠ transferEncodingName := by decide

@[simp] lemma put_same (values : Option (List Text)) : (h.put name values).headers name = values :=
  Function.update_self ..

lemma put_other {other : Text} (hne : other ≠ name) (values : Option (List Text)) :
    (h.put name values).headers other = h.headers other :=
  Function.update_of_ne hne ..

lemma Encoded.getLast (hh : h.Encoded) : h.chunkedTransferEncoding = true ↔
    (h.values transferEncodingName).getLast? = some chunkedText := by
  cases hc : h.chunkedTransferEncoding with
  | true =>
    obtain ⟨front,hfront, -⟩ := hh.chunked hc
    simp [values,hfront]
  | false =>
    have hnot := (hh.unchunked hc).2
    simp only [Bool.false_eq_true,false_iff]
    exact fun hlast => hnot (mem_of_getLast? hlast)

lemma Encoded.put_length (hh : h.Encoded) (values : Option (List Text)) :
    (h.put contentLengthName values).Encoded where
  chunked := by
    rw [put_other names_ne.symm]
    exact hh.chunked
  unchunked := by
    rw [Headers.values,put_other names_ne.symm]
    exact hh.unchunked

lemma Consistent.framed (hh : h.Consistent) : h.Framed where
  chunked := hh.toEncoded.getLast
  apart := fun hboth => absurd (hh.apart hboth.2) (by omega)
  length := by
    intro n
    rw [values,hh.length]
    constructor
    · intro hn
      rw [hn,if_pos (Int.natCast_nonneg n)]
      exact ⟨_,rfl,denotes_decimal n⟩
    · rintro ⟨v,hv,hden⟩
      split_ifs at hv with hle
      · obtain ⟨m,hm⟩ := Int.eq_ofNat_of_zero_le hle
        rw [hm] at hv ⊢
        obtain rfl : decimal m = v := by simpa using hv
        rw [(denotes_decimal m).unique hden]
      · simp at hv

lemma new_consistent (version : Version) : (new version).Consistent where
  chunked := by simp [new]
  unchunked := by simp [new,values]
  apart := by simp [new]
  length := rfl

/-- The state after `chunked` has been added. -/
def withChunked (h : Headers) : Headers :=
  { (h.put transferEncodingName (some (h.values transferEncodingName ++ [chunkedText]))).put
      contentLengthName none with
    contentLength := -1
    chunkedTransferEncoding := true }

lemma checkMutable_bind {α : Type} (hm : h.mutable = true) (f : Unit → Except Failure α) :
    (h.checkMutable >>= f) = f () := by
  rw [checkMutable,if_pos hm]
  rfl

lemma setFraming_length_self {d : ℕ} {n : ℤ} (hm : h.mutable = true)
    (hok : ¬(h.protocolVersion = .http10 ∧ h.persistentConnection = true ∧ n = -1))
    (hn : h.contentLength = n) : setFraming (d+1) h (.contentLength n) = .ok h := by
  rw [setFraming,checkMutable_bind hm,if_neg hok,if_pos hn]

lemma lacksChunked_eq (hne : h.headers transferEncodingName ≠ some []) : h.lacksChunked =
      .ok ((h.values transferEncodingName).getLast? != some chunkedText) := by
  unfold lacksChunked values
  match hvalues : h.headers transferEncodingName with
  | none => rfl
  | some [] => exact absurd hvalues hne
  | some (v :: vs) =>
    rw [Option.getD_some]
    obtain ⟨last,hlast⟩ : ∃ last, (v :: vs).getLast? = some last := ⟨_,getLast?_eq_some_getLast (by simp)⟩
    simp only [hlast]
    exact congrArg ok (Bool.eq_iff_iff.2 (by simp))

/-- Without a content length, chunked encoding is found in the headers and not added again. -/
lemma setFraming_clear {d : ℕ} {front : List Text} (hm : h.mutable = true)
    (hv : h.protocolVersion ≠ .http10) (hoff : h.chunkedTransferEncoding = false)
    (hte : h.headers transferEncodingName = some (front ++ [chunkedText]))
    (hnone : h.contentLength = -1 → h.headers contentLengthName = none) :
    ∃ flag, setFraming (d+3) h (.contentLength (-1)) = .ok { h.put contentLengthName none with
      contentLength := -1, chunkedTransferEncoding := flag } := by
  by_cases hlen : h.contentLength = -1
  · have hput : h.put contentLengthName none = h := by
      rw [put,← hnone hlen,Function.update_eq_self]
    refine ⟨false,?_⟩
    rw [setFraming_length_self hm (by simp [hv]) hlen,hput,← hlen,← hoff]
  · obtain ⟨g,hg⟩ : ∃ g, g = { h.put contentLengthName none with contentLength := -1 } := ⟨_,rfl⟩
    have hsame : g.mutable = true ∧ g.protocolVersion = h.protocolVersion ∧ g.contentLength = -1 ∧
        g.chunkedTransferEncoding = false := by simp [hg,put,hm,hoff]
    have hlacks : g.lacksChunked = .ok false := by
      have hte' : g.headers transferEncodingName = some (front ++ [chunkedText]) := by
        rw [hg,← hte]
        exact put_other names_ne.symm none
      rw [lacksChunked_eq (by simp [hte']),values,hte']
      simp
    have hremove : { h with contentLength := -1 }.removeName contentLengthName = .ok g := by
      rw [removeName,checkMutable_bind (by exact hm),hg]
      rfl
    rw [setFraming,checkMutable_bind hm,if_neg (by simp [hv]),if_neg hlen]
    rw [if_neg (by norm_num),hremove,ok_bind]
    by_cases hv' : g.protocolVersion = .http11
    · refine ⟨true,?_⟩
      rw [if_pos hv',setFraming,checkMutable_bind hsame.1,if_neg (by simp [hsame,hv]),
        if_neg (by simp [hsame]),if_pos rfl,hlacks,ok_bind,if_neg (by simp),ok_bind]
      dsimp only
      rw [setFraming_length_self hsame.1 (by simp [hsame,hv]) hsame.2.2.1,ok_bind,hg]
      rfl
    · refine ⟨false,?_⟩
      rw [if_neg hv',hg,← hoff]
      rfl

lemma setFraming_chunked {d : ℕ} (hh : h.Encoded) (hm : h.mutable = true)
    (hv : h.protocolVersion ≠ .http10) (hoff : h.chunkedTransferEncoding = false)
    (hnone : h.contentLength = -1 → h.headers contentLengthName = none) :
    setFraming (d+4) h (.chunkedTransferEncoding true) = .ok h.withChunked := by
  obtain ⟨hne,hnot⟩ := hh.unchunked hoff
  have hlast : (h.values transferEncodingName).getLast? ≠ some chunkedText :=
    fun hlast => hnot (mem_of_getLast? hlast)
  have hlacks : h.lacksChunked = .ok true := by
    rw [lacksChunked_eq hne]
    simp [hlast]
  have hadd : h.addValue transferEncodingName (.string chunkedText) =
      .ok (h.put transferEncodingName (some (h.values transferEncodingName ++ [chunkedText]))) := rfl
  obtain ⟨flag,hclear⟩ := setFraming_clear (by exact hm) (by exact hv) (by exact hoff)
    (put_same (some (h.values transferEncodingName ++ [chunkedText])))
    (by rw [put_other names_ne]; exact hnone)
  rw [setFraming,checkMutable_bind hm,if_neg (by simp [hv]),if_neg (by simp [hoff]),if_pos rfl,
    hlacks,ok_bind,if_pos rfl,hadd,ok_bind]
  dsimp only
  rw [hclear,ok_bind]
  rfl

lemma withChunked_consistent (hh : h.Encoded) (hoff : h.chunkedTransferEncoding = false) :
    h.withChunked.Consistent where
  chunked := by
    intro _
    refine ⟨h.values transferEncodingName,?_,(hh.unchunked hoff).2⟩
    dsimp only [withChunked]
    rw [put_other names_ne.symm,put_same]
  unchunked := fun hon => absurd hon (by simp [withChunked])
  apart := fun _ => by simp [withChunked]
  length := by simp [withChunked]

/-- The headers that framing looks at, and the fields, are the same. -/
structure SameFraming (h h' : Headers) : Prop where
  length : h'.headers contentLengthName = h.headers contentLengthName
  encoding : h'.headers transferEncodingName = h.headers transferEncodingName
  contentLength : h'.contentLength = h.contentLength
  chunked : h'.chunkedTransferEncoding = h.chunkedTransferEncoding

lemma SameFraming.refl (h : Headers) : SameFraming h h := ⟨rfl,rfl,rfl,rfl⟩

lemma SameFraming.trans {h'' : Headers} (hs : SameFraming h h') (hs' : SameFraming h' h'') :
    SameFraming h h'' :=
  ⟨hs'.length.trans hs.length,hs'.encoding.trans hs.encoding,
    hs'.contentLength.trans hs.contentLength,hs'.chunked.trans hs.chunked⟩

lemma SameFraming.put (hl : name ≠ contentLengthName) (he : name ≠ transferEncodingName)
    (values : Option (List Text)) : SameFraming h (h.put name values) :=
  ⟨put_other hl.symm values,put_other he.symm values,rfl,rfl⟩

lemma SameFraming.encoded (hs : SameFraming h h') (hh : h.Encoded) : h'.Encoded where
  chunked := by
    rw [hs.chunked,hs.encoding]
    exact hh.chunked
  unchunked := by
    rw [hs.chunked,values,hs.encoding]
    exact hh.unchunked

lemma SameFraming.consistent (hs : SameFraming h h') (hh : h.Consistent) : h'.Consistent where
  toEncoded := hs.encoded hh.toEncoded
  apart := by
    rw [hs.chunked,hs.contentLength]
    exact hh.apart
  length := by
    rw [hs.length,hs.contentLength]
    exact hh.length

lemma checkMutable_ok {α : Type} {f : Unit → Except Failure α} {x : α}
    (hrun : (h.checkMutable >>= f) = .ok x) : h.mutable = true ∧ f () = .ok x := by
  unfold checkMutable at hrun
  split_ifs at hrun with hm
  · exact ⟨hm,hrun⟩
  · cases hrun

lemma removeValue_spec (hrun : h.removeValue name value = .ok h') : h'.headers name =
      removed (h.headers name) value ∧
      (∀ other, other ≠ name → h'.headers other = h.headers other) ∧ h'.contentLength =
      h.contentLength ∧ h'.chunkedTransferEncoding = if name = transferEncodingName ∧ value =
      .string chunkedText then false else h.chunkedTransferEncoding := by
  obtain ⟨hm,hrun⟩ := checkMutable_ok hrun
  obtain rfl := ok.inj hrun
  split_ifs
  · exact ⟨put_same _,fun other hne => put_other hne _,rfl,rfl⟩
  · exact ⟨put_same _,fun other hne => put_other hne _,rfl,rfl⟩

lemma removed_string (values : List Text) (s : Text) : removed (some values) (.string s) =
    if (values.erase s).isEmpty then none else some (values.erase s) := rfl

lemma removed_object (front : List Text) (last : Text) (hvalue : ∀ s, value ≠ .string s) :
    removed (some (front ++ [last])) value = some (front ++ [last]) := by
  unfold removed
  split
  · exact absurd rfl (hvalue _)
  · simp_all
  · rfl

lemma removed_mem {values : Option (List Text)} {v : Text}
    (hv : v ∈ (removed values value).getD []) : v ∈ values.getD [] := by
  unfold removed at hv
  split at hv
  · split_ifs at hv
    · simp at hv
    · exact mem_of_mem_erase hv
  · simp at hv
  · exact hv

lemma removed_ne_nil {values : Option (List Text)} (hne : values ≠ some []) :
    removed values value ≠ some [] := by
  unfold removed
  split
  · split_ifs with hempty
    · simp
    · rw [Ne,Option.some.injEq]
      exact fun hnil => hempty (by rw [hnil]; rfl)
  · simp
  · exact hne

variable (hh : h.Encoded)
include hh

lemma removeValue_encoded
    (hrun : h.removeValue transferEncodingName value = .ok h') : h'.Encoded ∧ h'.contentLength =
      h.contentLength ∧ h'.headers contentLengthName = h.headers contentLengthName := by
  obtain ⟨hname,hother,hlen,hflag⟩ := removeValue_spec hrun
  refine ⟨?_,hlen,hother _ names_ne⟩
  by_cases hk : value = .string chunkedText
  · -- The only `chunked` is gone.
    subst hk
    rw [if_pos ⟨rfl,rfl⟩] at hflag
    refine ⟨fun hon => absurd hon (by simp [hflag]),fun _ => ?_⟩
    rw [values,hname]
    cases hc : h.chunkedTransferEncoding with
    | true =>
      obtain ⟨front,hfront,hnot⟩ := hh.chunked hc
      rw [hfront]
      have herase : (front ++ [chunkedText]).erase chunkedText = front := by
        rw [erase_append_right _ hnot]
        simp
      rw [removed_string,herase]
      split_ifs with hempty
      · simp
      · exact ⟨fun hnil => hempty (by rw [Option.some.inj hnil]; rfl),hnot⟩
    | false =>
      obtain ⟨hne,hnot⟩ := hh.unchunked hc
      exact ⟨removed_ne_nil hne,fun hmem => hnot (removed_mem hmem)⟩
  · rw [if_neg (fun hboth => hk hboth.2)] at hflag
    refine ⟨fun hon => ?_,fun hoff => ?_⟩
    · rw [hflag] at hon
      obtain ⟨front,hfront,hnot⟩ := hh.chunked hon
      rw [hname,hfront]
      cases value with
      | string s =>
        have hs : s ≠ chunkedText := fun hs => hk (by rw [hs])
        have hs' : s ∉ [chunkedText] := by simpa using hs
        refine ⟨front.erase s,?_,fun hmem => hnot (mem_of_mem_erase hmem)⟩
        have herase : (front ++ [chunkedText]).erase s = front.erase s ++ [chunkedText] := by
          rw [erase_append]
          split_ifs with hmem
          · rfl
          · rw [erase_of_not_mem hs',erase_of_not_mem hmem]
        rw [removed_string,herase,if_neg (by simp)]
      | _ => exact ⟨front,removed_object front _ (by simp),hnot⟩
    · rw [hflag] at hoff
      obtain ⟨hne,hnot⟩ := hh.unchunked hoff
      rw [values,hname]
      exact ⟨removed_ne_nil hne,fun hmem => hnot (removed_mem hmem)⟩

lemma setFraming_unchunked {d : ℕ} (hon : h.chunkedTransferEncoding = true)
    (hrun : setFraming (d+1) h (.chunkedTransferEncoding false) = .ok h') :
    h'.Encoded ∧ h'.chunkedTransferEncoding = false ∧ h'.contentLength = h.contentLength ∧
      h'.headers contentLengthName = h.headers contentLengthName := by
  rw [setFraming] at hrun
  obtain ⟨hm,hrun⟩ := checkMutable_ok hrun
  rw [if_neg (by simp),if_neg (by simp [hon]),if_neg (by simp)] at hrun
  obtain ⟨g,hg,hrun⟩ := bind_eq_ok hrun
  obtain ⟨henc,hlen,hcl⟩ := removeValue_encoded hh hg
  have hflag := (removeValue_spec hg).2.2.2
  rw [if_pos ⟨rfl,rfl⟩] at hflag
  have heq : h' = g := by
    obtain rfl := ok.inj hrun
    rw [← hflag]
  rw [heq]
  exact ⟨henc,hflag,hlen,hcl⟩

lemma setText_consistent {n : ℤ} (hoff : h.chunkedTransferEncoding = false)
    (hlen : h.contentLength = n) (hn : 0 ≤ n) :
    (h.setText contentLengthName (decimal n)).Consistent := by
  have hflag : (h.setText contentLengthName (decimal n)).chunkedTransferEncoding = false := hoff
  refine ⟨hh.put_length _,fun hon => ?_,?_⟩
  · exact absurd (hflag.symm.trans hon) (by simp)
  · change (h.put _ _).headers contentLengthName =
      if 0 ≤ h.contentLength then some [decimal h.contentLength] else none
    rw [put_same,hlen,if_pos hn]

lemma setContentLength_spec {n : ℤ} (hrun : h.setContentLength n = .ok h') :
    (h.contentLength = n ∧ h' = h) ∨ (h.contentLength ≠ n ∧ h'.Consistent) := by
  have hmoved : ({ h with contentLength := n } : Headers).Encoded := ⟨hh.chunked,hh.unchunked⟩
  rw [setContentLength,setFraming] at hrun
  obtain ⟨hm,hrun⟩ := checkMutable_ok hrun
  split_ifs at hrun with hkeep hself hnonneg
  · exact .inl ⟨hself,(ok.inj hrun).symm⟩
  · refine .inr ⟨hself,?_⟩
    dsimp only at hrun
    split_ifs at hrun with hon
    · obtain ⟨g,hg,hrun⟩ := bind_eq_ok hrun
      obtain ⟨henc,hoff,hlen, -⟩ := setFraming_unchunked hmoved hon hg
      obtain rfl := ok.inj hrun
      exact setText_consistent henc hoff hlen hnonneg
    · obtain rfl := ok.inj hrun
      exact setText_consistent hmoved (by simpa using hon) rfl hnonneg
  · refine .inr ⟨hself,?_⟩
    obtain ⟨k,hk,hrun⟩ := bind_eq_ok hrun
    obtain ⟨-,hk⟩ := checkMutable_ok hk
    obtain ⟨hkm,hkcl,hklen,hkenc⟩ : k.mutable = true ∧ k.headers contentLengthName = none ∧
        k.contentLength = n ∧ k.Encoded := by
      obtain rfl := ok.inj hk
      exact ⟨hm,put_same none,rfl,hmoved.put_length none⟩
    have hkcons : k.Consistent := by
      refine ⟨hkenc,fun _ => by omega,?_⟩
      rw [hkcl,hklen,if_neg hnonneg]
    split_ifs at hrun with hv
    · by_cases hon : k.chunkedTransferEncoding = true
      · rw [setFraming] at hrun
        obtain ⟨-,hrun⟩ := checkMutable_ok hrun
        rw [if_neg (by simp [hv]),if_pos hon.symm] at hrun
        obtain rfl := ok.inj hrun
        exact hkcons
      · rw [setFraming_chunked hkenc hkm (by simp [hv]) (by simpa using hon)
          (fun _ => hkcl)] at hrun
        obtain rfl := ok.inj hrun
        exact withChunked_consistent hkenc (by simpa using hon)
    · obtain rfl := ok.inj hrun
      exact hkcons

omit hh

lemma setChunkedTransferEncoding_spec (hh : h.Consistent) {value : Bool}
    (hrun : h.setChunkedTransferEncoding value = .ok h') : h'.Consistent ∧
      h'.chunkedTransferEncoding = value ∧ (value = h.chunkedTransferEncoding → h' = h) := by
  rw [setChunkedTransferEncoding] at hrun
  by_cases hself : value = h.chunkedTransferEncoding
  · rw [setFraming] at hrun
    obtain ⟨hm,hrun⟩ := checkMutable_ok hrun
    split_ifs at hrun with hbad
    obtain rfl := ok.inj hrun
    exact ⟨hh,hself.symm,fun _ => rfl⟩
  · refine And.imp_right (fun hflag => ⟨hflag,fun heq => absurd heq hself⟩) ?_
    cases value with
    | true =>
      have hoff : h.chunkedTransferEncoding = false := by simpa using hself
      have hrun' := hrun
      rw [setFraming] at hrun'
      obtain ⟨hm,hrun'⟩ := checkMutable_ok hrun'
      have hv : h.protocolVersion ≠ .http10 := by
        intro hv
        rw [if_pos ⟨rfl,hv⟩] at hrun'
        cases hrun'
      have hnone (hlen : h.contentLength = -1) : h.headers contentLengthName = none := by
        rw [hh.length,hlen]
        rfl
      rw [setFraming_chunked hh.toEncoded hm hv hoff hnone] at hrun
      obtain rfl := ok.inj hrun
      exact ⟨withChunked_consistent hh.toEncoded hoff,rfl⟩
    | false =>
      have hon : h.chunkedTransferEncoding = true := by simpa using hself
      obtain ⟨henc,hoff,hlen,hcl⟩ := setFraming_unchunked hh.toEncoded hon hrun
      refine ⟨⟨henc,fun hon' => absurd (hoff.symm.trans hon') (by simp),?_⟩,hoff⟩
      rw [hcl,hlen]
      exact hh.length

lemma validate_eq {value value' : Value} (hrun : value.validate = .ok value') : value' = value := by
  cases value with
  | string s =>
    obtain ⟨s',hs,hrun⟩ := bind_eq_ok hrun
    obtain rfl := ok.inj hrun
    unfold validateText at hs
    split_ifs at hs
    rw [ok.inj hs]
  | _ => exact (ok.inj hrun).symm

variable (hl : name ≠ contentLengthName)
include hl

lemma addValue_same (he : name ≠ transferEncodingName)
    (hrun : h.addValue name value = .ok h') : SameFraming h h' := by
  obtain ⟨stored, -,hrun⟩ := bind_eq_ok hrun
  obtain rfl := ok.inj hrun
  exact .put hl he _

omit hl in
lemma addField_length (hrun : h.addField contentLengthName value = .ok h') :
    ∃ n, value.length? = some n ∧ h.setContentLength n = .ok h' := by
  change h.addContentLength value = .ok h' at hrun
  cases value with
  | int n => exact ⟨n,rfl,hrun⟩
  | string s =>
    unfold addContentLength at hrun
    dsimp only at hrun
    split at hrun
    · rename_i n hn
      exact ⟨n,hn,hrun⟩
    · cases hrun
  | dateTime printed | object printed => cases hrun

omit hl in
/-- Adding a value replaces those of the header, joins them, or sets the framing. -/
lemma addField_cases (hrun : h.addField name value = .ok h') :
    (∃ s, (value = .string s ∨ value = .dateTime s) ∧ h' = h.setText name s) ∨
    (∃ flag, ({ h with persistentConnection := flag } : Headers).addValue name value = .ok h') ∨
    (name = contentLengthName ∨ name = transferEncodingName) ∧ ∃ f, setFraming 5 h f = .ok h' := by
  have hdate (hrun : h.addDate name value = .ok h') :
      ∃ s, (value = .string s ∨ value = .dateTime s) ∧ h' = h.setText name s := by
    cases value with
    | string s | dateTime s => exact ⟨s,by simp,(ok.inj hrun).symm⟩
    | int n | object printed => cases hrun
  unfold addField at hrun
  split_ifs at hrun with _ hhost _ hconnection htype hlength hencoding
  · exact .inl (hdate hrun)
  · cases value with
    | string s => exact .inl ⟨s,.inl rfl,hhost ▸ (ok.inj hrun).symm⟩
    | _ => cases hrun
  · exact .inl (hdate hrun)
  · cases value with
    | string s =>
      refine .inr (.inl ?_)
      dsimp only [addConnection] at hrun
      split_ifs at hrun
      all_goals exact ⟨_,hconnection ▸ hrun⟩
    | _ => cases hrun
  · cases value with
    | string s => exact .inl ⟨s,.inl rfl,htype ▸ (ok.inj hrun).symm⟩
    | _ => cases hrun
  · obtain ⟨n, -,hrun⟩ := addField_length (show h.addField contentLengthName value = .ok h' from hrun)
    exact .inr (.inr ⟨.inl hlength,_,hrun⟩)
  · unfold addTransferEncoding at hrun
    split_ifs at hrun
    · exact .inr (.inr ⟨.inr hencoding,_,hrun⟩)
    · exact .inr (.inl ⟨_,hencoding ▸ hrun⟩)
  · exact .inl (hdate hrun)
  · exact .inr (.inl ⟨_,hrun⟩)

lemma addField_same (he : name ≠ transferEncodingName)
    (hrun : h.addField name value = .ok h') : SameFraming h h' := by
  rcases addField_cases hrun with ⟨s, -,rfl⟩ | ⟨flag,hrun⟩ | ⟨hname, -⟩
  · exact .put hl he _
  · have hsame := addValue_same hl he hrun
    exact ⟨hsame.length,hsame.encoding,hsame.contentLength,hsame.chunked⟩
  · exact absurd hname (not_or.2 ⟨hl,he⟩)

lemma addAll_same
    (he : name ≠ transferEncodingName) (hrun : h.addAll name values = .ok h') : SameFraming h h' := by
  refine foldlM_invariant (SameFraming h) (fun value _ g g' hg hstep => ?_) (.refl h) hrun
  obtain ⟨value', -,hstep⟩ := bind_eq_ok hstep
  exact hg.trans (addField_same hl he hstep)

omit hl

lemma addAll_cons (hrun : h.addAll name (value :: values) = .ok h') :
    ∃ g, h.addField name value = .ok g ∧ g.addAll name values = .ok h' := by
  rw [addAll,foldlM_cons] at hrun
  obtain ⟨g,hg,hrun⟩ := bind_eq_ok hrun
  obtain ⟨value',hvalid,hg⟩ := bind_eq_ok hg
  rw [validate_eq hvalid] at hg
  exact ⟨g,hg,hrun⟩

lemma addAll_length (hh : h.Encoded) (hrun : h.addAll contentLengthName values = .ok h') :
    (h' = h ∧ ∀ v ∈ values, v.length? = some h.contentLength) ∨
      (h'.Consistent ∧ ∃ v ∈ values, v.length? ≠ some h.contentLength) := by
  induction values generalizing h with
  | nil => exact .inl ⟨(ok.inj hrun).symm,by simp⟩
  | cons value values ih =>
    obtain ⟨g,hg,hrest⟩ := addAll_cons hrun
    obtain ⟨n,hn,hset⟩ := addField_length hg
    rcases setContentLength_spec hh hset with ⟨hself,rfl⟩ | ⟨hother,hcons⟩
    · rcases ih hh hrest with ⟨rfl,hall⟩ | ⟨hcons,v,hv,hne⟩
      · refine .inl ⟨rfl,?_⟩
        intro v hv
        rcases mem_cons.1 hv with rfl | hv
        · rw [hn,hself]
        · exact hall v hv
      · exact .inr ⟨hcons,v,mem_cons_of_mem _ hv,hne⟩
    · refine .inr ⟨?_,value,mem_cons_self,by rw [hn]; simpa using hother.symm⟩
      rcases ih hcons.toEncoded hrest with ⟨rfl, -⟩ | ⟨hcons', -⟩
      · exact hcons
      · exact hcons'

end Headers

/-- The string of a value. -/
def Value.printed : Value → Text
  | string s => s
  | int n => IntParse.decimal n
  | dateTime formatted => formatted
  | object printed => printed

lemma Value.stored_eq {s : Text} (hrun : value.stored = .ok s) : s = value.printed := by
  have hvalid {u : Text} (hu : validateText u = .ok s) : s = u := by
    unfold validateText at hu
    split_ifs at hu
    exact (ok.inj hu).symm
  cases value with
  | string u | dateTime u => exact (ok.inj hrun).symm
  | int n | object printed => exact hvalid hrun

/-- No other value follows `chunked`, which may be set before. -/
def LateChunked : Bool → List Value → Prop
  | _, [] => True
  | chunked, value :: values =>
    if value = .string chunkedText then LateChunked true values
    else chunked = false ∧ LateChunked chunked values

namespace Headers

variable {h h' : Headers} {name : Text}

/-- Chunked encoding is on, and another encoding has been added after it. -/
def Broken (h : Headers) : Prop :=
  h.chunkedTransferEncoding = true ∧
    (h.values transferEncodingName).getLast? ≠ some chunkedText

lemma Broken.not_framed (hh : h.Broken) : ¬h.Framed := fun hf => hh.2 (hf.chunked.1 hh.1)

lemma addField_encoding (value : Value) :
    h.addField transferEncodingName value = h.addTransferEncoding value := rfl

lemma addValue_last (hrun : h.addValue transferEncodingName value = .ok h') :
    h'.headers transferEncodingName = some (h.values transferEncodingName ++ [value.printed]) ∧
      h'.chunkedTransferEncoding = h.chunkedTransferEncoding ∧ h'.contentLength = h.contentLength ∧
      h'.headers contentLengthName = h.headers contentLengthName := by
  obtain ⟨stored,hstored,hrun⟩ := bind_eq_ok hrun
  rw [Value.stored_eq hstored] at hrun
  obtain rfl := ok.inj hrun
  exact ⟨put_same _,rfl,rfl,put_other names_ne _⟩

lemma addTransferEncoding_spec (hh : h.Consistent)
    (hprint : value.printed = chunkedText → value = .string chunkedText)
    (hrun : h.addTransferEncoding value = .ok h') :
    if value = .string chunkedText then h'.Consistent ∧ h'.chunkedTransferEncoding = true
    else if h.chunkedTransferEncoding = true then h'.Broken
    else h'.Consistent ∧ h'.chunkedTransferEncoding = false := by
  unfold addTransferEncoding at hrun
  split_ifs at hrun ⊢ with hk hon
  · obtain ⟨hcons,hflag, -⟩ := setChunkedTransferEncoding_spec hh hrun
    exact ⟨hcons,hflag⟩
  · obtain ⟨hte,hflag, -, -⟩ := addValue_last hrun
    refine ⟨hflag.trans hon,?_⟩
    rw [values,hte]
    simpa using mt hprint hk
  · have hoff : h.chunkedTransferEncoding = false := by simpa using hon
    obtain ⟨hte,hflag,hlen,hcl⟩ := addValue_last hrun
    rw [hoff] at hflag
    refine ⟨⟨⟨fun hon' => absurd (hflag.symm.trans hon') (by simp),fun _ => ?_⟩,
      fun hon' => absurd (hflag.symm.trans hon') (by simp),?_⟩,hflag⟩
    · rw [values,hte]
      refine ⟨by simp,?_⟩
      rw [Option.getD_some,mem_append,mem_singleton]
      rintro (hmem | hlast)
      · exact (hh.unchunked hoff).2 hmem
      · exact hk (hprint hlast.symm)
    · rw [hcl,hlen]
      exact hh.length

lemma Broken.addTransferEncoding (hh : h.Broken)
    (hprint : value.printed = chunkedText → value = .string chunkedText)
    (hrun : h.addTransferEncoding value = .ok h') : h'.Broken := by
  unfold Headers.addTransferEncoding at hrun
  split_ifs at hrun with hk
  · rw [setChunkedTransferEncoding,setFraming] at hrun
    obtain ⟨-,hrun⟩ := checkMutable_ok hrun
    rw [if_pos hh.1.symm] at hrun
    split_ifs at hrun
    obtain rfl := ok.inj hrun
    exact hh
  · obtain ⟨hte,hflag, -, -⟩ := addValue_last hrun
    refine ⟨hflag.trans hh.1,?_⟩
    rw [values,hte]
    simpa using mt hprint hk

lemma Broken.addAll (hh : h.Broken)
    (hprint : ∀ v ∈ values, v.printed = chunkedText → v = .string chunkedText)
    (hrun : h.addAll transferEncodingName values = .ok h') : h'.Broken := by
  refine foldlM_invariant Broken (fun value hvalue g g' hg hstep => ?_) hh hrun
  obtain ⟨value',hvalid,hstep⟩ := bind_eq_ok hstep
  rw [validate_eq hvalid,addField_encoding] at hstep
  exact hg.addTransferEncoding (hprint value hvalue) hstep

/-- Transfer encodings keep the state consistent exactly if `chunked` comes last. -/
lemma addAll_encoding (hh : h.Consistent)
    (hprint : ∀ v ∈ values, v.printed = chunkedText → v = .string chunkedText)
    (hrun : h.addAll transferEncodingName values = .ok h') :
    (LateChunked h.chunkedTransferEncoding values ∧ h'.Consistent) ∨
      (¬LateChunked h.chunkedTransferEncoding values ∧ h'.Broken) := by
  induction values generalizing h with
  | nil =>
    obtain rfl := ok.inj hrun
    exact .inl ⟨trivial,hh⟩
  | cons value values ih =>
    obtain ⟨g,hg,hrun⟩ := addAll_cons hrun
    rw [addField_encoding] at hg
    have hstep := addTransferEncoding_spec hh (hprint value mem_cons_self) hg
    have hrest : ∀ v ∈ values, v.printed = chunkedText → v = .string chunkedText :=
      fun v hv => hprint v (mem_cons_of_mem value hv)
    rw [LateChunked]
    split_ifs at hstep ⊢ with hk hon
    · rw [← hstep.2]
      exact ih hstep.1 hrest hrun
    · exact .inr ⟨by simp [hon],hstep.addAll hrest hrun⟩
    · have hoff : h.chunkedTransferEncoding = false := by simpa using hon
      have hnext := ih hstep.1 hrest hrun
      rw [hstep.2] at hnext
      simpa [hoff] using hnext

end Headers

end DartSdk.Http
