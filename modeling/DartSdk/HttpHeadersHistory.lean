import DartSdk.HttpHeadersFraming

/-! From fresh headers the framing fields stay in step with the headers exactly as long as no
operation takes the framing headers away behind the fields or adds an encoding after `chunked`. -/
namespace DartSdk.Http

open Except
open Outcome (bind_eq_ok)

/-- No transfer encoding other than the string `chunked` is printed like it. -/
def Operation.PrintsApart : Operation → Prop
  | add name values | set name values => toLowerCase name = transferEncodingName →
      ∀ v ∈ values, v.printed = chunkedText → v = .string chunkedText
  | _ => True

/-- The operations that keep fields and headers in step. -/
def Operation.Keeps (h : Headers) : Operation → Prop
  | add name values =>
    toLowerCase name = transferEncodingName → LateChunked h.chunkedTransferEncoding values
  | set name values =>
    (toLowerCase name = contentLengthName →
      h.contentLength < 0 ∨ ∃ v ∈ values, v.length? ≠ some h.contentLength) ∧
    (toLowerCase name = transferEncodingName → LateChunked false values)
  | remove name value =>
    toLowerCase name = contentLengthName → 0 ≤ h.contentLength →
      value ≠ .string (IntParse.decimal h.contentLength)
  | removeAll name =>
    (toLowerCase name = contentLengthName → h.contentLength < 0) ∧
    (toLowerCase name = transferEncodingName → h.chunkedTransferEncoding = false)
  | _ => True

namespace Headers

variable {h h' : Headers} {name : Text}

lemma validName_ok {α : Type} {f : Text → Except Failure α} {x : α}
    (hrun : (h.checkMutable >>= fun _ => validateField name >>= f) = .ok x) :
    name.all isTokenChar = true ∧ f (toLowerCase name) = .ok x := by
  obtain ⟨-,hrun⟩ := checkMutable_ok hrun
  obtain ⟨lower,hlower,hrun⟩ := bind_eq_ok hrun
  unfold validateField at hlower
  split_ifs at hlower with hname
  cases hlower
  exact ⟨hname,hrun⟩

lemma not_framed_of_missing (hlen : 0 ≤ h.contentLength)
    (hnone : h.headers contentLengthName = none) : ¬h.Framed := by
  intro hf
  obtain ⟨n,hn⟩ := Int.eq_ofNat_of_zero_le hlen
  obtain ⟨v,hv, -⟩ := (hf.length n).1 hn
  simp [values,hnone] at hv

variable (hh : h.Consistent)
include hh

lemma Consistent.put_length_none (hneg : h.contentLength < 0) :
    (h.put contentLengthName none).Consistent :=
  ⟨hh.toEncoded.put_length none,hh.apart,(put_same none).trans (if_neg (not_le.2 hneg)).symm⟩

lemma add_spec {values : List Value} (hprint : (Operation.add name values).PrintsApart)
    (hrun : h.add name values = .ok h') : ((Operation.add name values).Keeps h → h'.Consistent) ∧
      (h'.Framed → (Operation.add name values).Keeps h) := by
  obtain ⟨-,hrun⟩ := validName_ok hrun
  by_cases hl : toLowerCase name = contentLengthName
  · rw [hl] at hrun
    have hkeeps : (Operation.add name values).Keeps h :=
      fun he => absurd (hl.symm.trans he) names_ne
    refine ⟨fun _ => ?_,fun _ => hkeeps⟩
    rcases addAll_length hh.toEncoded hrun with ⟨rfl, -⟩ | ⟨hcons, -⟩
    · exact hh
    · exact hcons
  · by_cases he : toLowerCase name = transferEncodingName
    · rw [he] at hrun
      rcases addAll_encoding hh (hprint he) hrun with ⟨hlate,hcons⟩ | ⟨hlate,hbroken⟩
      · exact ⟨fun _ => hcons,fun _ _ => hlate⟩
      · exact ⟨fun hkeeps => absurd (hkeeps he) hlate,fun hf => absurd hf hbroken.not_framed⟩
    · exact ⟨fun _ => (addAll_same hl he hrun).consistent hh,fun _ he' => absurd he' he⟩

lemma set_spec {values : List Value} (hprint : (Operation.set name values).PrintsApart)
    (hrun : h.set name values = .ok h') : ((Operation.set name values).Keeps h → h'.Consistent) ∧
      (h'.Framed → (Operation.set name values).Keeps h) := by
  obtain ⟨-,hrun⟩ := validName_ok hrun
  dsimp only at hrun
  by_cases hl : toLowerCase name = contentLengthName
  · have he : toLowerCase name ≠ transferEncodingName := hl ▸ names_ne
    rw [if_neg he,hl] at hrun
    have hnone : (h.put contentLengthName none).headers contentLengthName = none := put_same none
    rcases addAll_length (hh.toEncoded.put_length none) hrun with ⟨rfl,hall⟩ | ⟨hcons,hne⟩
    · -- All values are the stored length, and the header is gone.
      by_cases hneg : h.contentLength < 0
      · exact ⟨fun _ => hh.put_length_none hneg,
          fun _ => ⟨fun _ => .inl hneg,fun he' => absurd he' he⟩⟩
      · refine ⟨fun hkeeps => ?_,fun hf => ?_⟩
        · rcases hkeeps.1 hl with hneg' | ⟨v,hv,hne⟩
          · exact absurd hneg' hneg
          · exact absurd (hall v hv) hne
        · exact absurd hf (not_framed_of_missing (not_lt.1 hneg) hnone)
    · exact ⟨fun _ => hcons,fun _ => ⟨fun _ => .inr hne,fun he' => absurd he' he⟩⟩
  · by_cases he : toLowerCase name = transferEncodingName
    · rw [if_pos he,he] at hrun
      have hstart : ({ h.put transferEncodingName none with
          chunkedTransferEncoding := false } : Headers).Consistent := by
        refine ⟨⟨fun hon => by simp at hon,fun _ => ?_⟩,fun hon => by simp at hon,?_⟩
        · simp [Headers.values]
        · exact (put_other names_ne none).trans hh.length
      rcases addAll_encoding hstart (hprint he) hrun with ⟨hlate,hcons⟩ | ⟨hlate,hbroken⟩
      · exact ⟨fun _ => hcons,fun _ => ⟨fun hl' => absurd hl' hl,fun _ => hlate⟩⟩
      · exact ⟨fun hkeeps => absurd (hkeeps.2 he) hlate,fun hf => absurd hf hbroken.not_framed⟩
    · rw [if_neg he] at hrun
      have hsame := (SameFraming.put hl he none).trans (addAll_same hl he hrun)
      exact ⟨fun _ => hsame.consistent hh,
        fun _ => ⟨fun hl' => absurd hl' hl,fun he' => absurd he' he⟩⟩

omit hh in
lemma removeValue_same {value : Value} (hl : name ≠ contentLengthName)
    (he : name ≠ transferEncodingName) (hrun : h.removeValue name value = .ok h') :
    SameFraming h h' := by
  obtain ⟨-,hother,hlen,hflag⟩ := removeValue_spec hrun
  rw [if_neg fun hboth => he hboth.1] at hflag
  exact ⟨hother _ hl.symm,hother _ he.symm,hlen,hflag⟩

lemma remove_spec {value : Value} (hrun : h.remove name value = .ok h') :
    ((Operation.remove name value).Keeps h → h'.Consistent) ∧
      (h'.Framed → (Operation.remove name value).Keeps h) := by
  obtain ⟨-,hrun⟩ := validName_ok hrun
  obtain ⟨value',hvalid,hrun⟩ := bind_eq_ok hrun
  rw [validate_eq hvalid] at hrun
  by_cases hl : toLowerCase name = contentLengthName
  · rw [hl] at hrun
    obtain ⟨hname,hother,hlen,hflag⟩ := removeValue_spec hrun
    rw [if_neg fun hboth => names_ne hboth.1] at hflag
    have hte := hother _ names_ne.symm
    by_cases hgone : 0 ≤ h.contentLength ∧ value = .string (IntParse.decimal h.contentLength)
    · obtain ⟨hnonneg,rfl⟩ := hgone
      rw [hh.length,if_pos hnonneg,removed_string] at hname
      refine ⟨fun hkeeps => absurd rfl (hkeeps hl hnonneg),fun hf => absurd hf ?_⟩
      exact not_framed_of_missing (hlen ▸ hnonneg) (by simpa using hname)
    · have hsame : SameFraming h h' := by
        refine ⟨?_,hte,hlen,hflag⟩
        rw [hname,hh.length]
        split_ifs with hnonneg
        · have hne : value ≠ .string (IntParse.decimal h.contentLength) :=
            fun heq => hgone ⟨hnonneg,heq⟩
          cases value with
          | string s =>
            have hs : s ≠ IntParse.decimal h.contentLength := fun heq => hne (by rw [heq])
            rw [removed_string,List.erase_of_not_mem (by simpa using hs)]
            rfl
          | _ => rfl
        · cases value <;> rfl
      refine ⟨fun _ => hsame.consistent hh,fun _ _ hnonneg heq => hgone ⟨hnonneg,heq⟩⟩
  · by_cases he : toLowerCase name = transferEncodingName
    · rw [he] at hrun
      obtain ⟨henc,hlen,hcl⟩ := removeValue_encoded hh.toEncoded hrun
      obtain ⟨-, -, -,hflag⟩ := removeValue_spec hrun
      refine ⟨fun _ => ⟨henc,fun hon => ?_,?_⟩,fun _ hl' => absurd hl' hl⟩
      · rw [hlen]
        rw [hflag] at hon
        split_ifs at hon
        exact hh.apart hon
      · rw [hcl,hlen]
        exact hh.length
    · exact ⟨fun _ => (removeValue_same hl he hrun).consistent hh,fun _ hl' => absurd hl' hl⟩

lemma removeAll_spec (hrun : h.removeAll name = .ok h') :
    ((Operation.removeAll name).Keeps h → h'.Consistent) ∧
      (h'.Framed → (Operation.removeAll name).Keeps h) := by
  obtain ⟨-,hrun⟩ := validName_ok hrun
  obtain ⟨-,hrun⟩ := checkMutable_ok hrun
  obtain rfl := ok.inj hrun
  by_cases hl : toLowerCase name = contentLengthName
  · rw [hl]
    by_cases hneg : h.contentLength < 0
    · exact ⟨fun _ => hh.put_length_none hneg,
        fun _ => ⟨fun _ => hneg,fun he => absurd (hl.symm.trans he) names_ne⟩⟩
    · exact ⟨fun hkeeps => absurd (hkeeps.1 hl) hneg,
        fun hf => absurd hf (not_framed_of_missing (not_lt.1 hneg) (put_same none))⟩
  · by_cases he : toLowerCase name = transferEncodingName
    · rw [he]
      cases hc : h.chunkedTransferEncoding with
      | false =>
        have hoff : ¬ (h.put transferEncodingName none).chunkedTransferEncoding = true := by simp [put,hc]
        exact ⟨fun _ => ⟨⟨fun hon => absurd hon hoff,fun _ => by simp [values]⟩,
          fun hon => absurd hon hoff,(put_other names_ne none).trans hh.length⟩,
          fun _ => ⟨fun hl' => absurd hl' hl,fun _ => hc⟩⟩
      | true =>
        refine ⟨fun hkeeps => absurd (hkeeps.2 he) (by simp [hc]),fun hf => ?_⟩
        have hlast := hf.chunked.1 hc
        simp [values] at hlast
    · exact ⟨fun _ => (SameFraming.put hl he none).consistent hh,
        fun _ => ⟨fun hl' => absurd hl' hl,fun he' => absurd he' he⟩⟩

omit hh

lemma add_connection_same {s : String}
    (hrun : h.add connectionName [.string (text s)] = .ok h') : SameFraming h h' := by
  obtain ⟨-,hrun⟩ := validName_ok hrun
  exact addAll_same (by decide) (by decide) hrun

lemma remove_connection_same {value : Value} (hrun : h.remove connectionName value = .ok h') :
    SameFraming h h' := by
  obtain ⟨-,hrun⟩ := validName_ok hrun
  obtain ⟨value', -,hrun⟩ := bind_eq_ok hrun
  exact removeValue_same (by decide) (by decide) hrun

lemma setPersistentConnection_same {value : Bool}
    (hrun : h.setPersistentConnection value = .ok h') : SameFraming h h' := by
  obtain ⟨-,hrun⟩ := checkMutable_ok hrun
  have hflag {g : Headers} (hg : SameFraming h g)
      (hrun : (ok { g with persistentConnection := value } : Except Failure Headers) = .ok h') :
      SameFraming h h' := by
    obtain rfl := ok.inj hrun
    exact ⟨hg.length,hg.encoding,hg.contentLength,hg.chunked⟩
  split_ifs at hrun
  · obtain rfl := ok.inj hrun
    exact .refl h
  all_goals
    obtain ⟨g,hg,hrun⟩ := bind_eq_ok hrun
    refine hflag ?_ hrun
  · exact remove_connection_same hg
  · cases hg
  · exact add_connection_same hg
  · exact add_connection_same hg
  · exact remove_connection_same hg

lemma step_spec (hh : h.Consistent) {op : Operation} (hprint : op.PrintsApart)
    (hrun : h.step op = .ok h') : (op.Keeps h → h'.Consistent) ∧ (h'.Framed → op.Keeps h) := by
  cases op with
  | add name values => exact add_spec hh hprint hrun
  | set name values => exact set_spec hh hprint hrun
  | remove name value => exact remove_spec hh hrun
  | removeAll name => exact removeAll_spec hh hrun
  | clear =>
    obtain ⟨-,hrun⟩ := checkMutable_ok hrun
    obtain rfl := ok.inj hrun
    refine ⟨fun _ => ⟨⟨fun hon => by simp at hon,fun _ => ?_⟩,fun hon => by simp at hon,rfl⟩,
      fun _ => trivial⟩
    simp [values]
  | contentLength n =>
    refine ⟨fun _ => ?_,fun _ => trivial⟩
    rcases setContentLength_spec hh.toEncoded hrun with ⟨-,rfl⟩ | ⟨-,hcons⟩
    · exact hh
    · exact hcons
  | chunkedTransferEncoding value =>
    exact ⟨fun _ => (setChunkedTransferEncoding_spec hh hrun).1,fun _ => trivial⟩
  | persistentConnection value =>
    exact ⟨fun _ => (setPersistentConnection_same hrun).consistent hh,fun _ => trivial⟩

/-- A property holds in every state that operations lead to without throwing. -/
def Always (P : Headers → Prop) : Headers → List Operation → Prop
  | h, [] => P h
  | h, op :: ops => P h ∧ ∀ h', h.step op = .ok h' → Always P h' ops

/-- Every operation that does not throw meets the condition in the state that it is applied to. -/
def Meets : Headers → List Operation → Prop
  | _, [] => True
  | h, op :: ops => ∀ h', h.step op = .ok h' → op.Keeps h ∧ Meets h' ops

lemma always_framed_iff (hh : h.Consistent) {ops : List Operation}
    (hprint : ∀ op ∈ ops, op.PrintsApart) : Always Framed h ops ↔ Meets h ops := by
  induction ops generalizing h with
  | nil => exact iff_of_true hh.framed trivial
  | cons op ops ih =>
    have hrest : ∀ o ∈ ops, o.PrintsApart := fun o ho => hprint o (List.mem_cons_of_mem op ho)
    constructor
    · rintro ⟨-,hnext⟩ h' hrun
      obtain ⟨hkeep,hback⟩ := step_spec hh (hprint op List.mem_cons_self) hrun
      have halways := hnext h' hrun
      -- The next state is framed, so the operation met the condition.
      have hframed : h'.Framed := by
        cases ops with
        | nil => exact halways
        | cons o ops => exact halways.1
      have hkeeps := hback hframed
      exact ⟨hkeeps,(ih (hkeep hkeeps) hrest).1 halways⟩
    · intro hmeets
      refine ⟨hh.framed,fun h' hrun => ?_⟩
      obtain ⟨hkeeps,hnext⟩ := hmeets h' hrun
      have hcons := (step_spec hh (hprint op List.mem_cons_self) hrun).1 hkeeps
      exact (ih hcons hrest).2 hnext

/-- The framing fields match the headers after every operation of a run exactly if each operation
keeps them in step. -/
theorem framing_iff (version : Version) (ops : List Operation)
    (hprint : ∀ op ∈ ops, op.PrintsApart) :
    Always Framed (new version) ops ↔ Meets (new version) ops :=
  always_framed_iff (new_consistent version) hprint

/-- A chunked message gets a length instead, and an encoding. -/
theorem framing_iff_gzip :
    Always Framed (new .http11) [.chunkedTransferEncoding true,.contentLength 5,
      .add (text "Transfer-Encoding") [.string (text "gzip")]] := by
  refine (framing_iff .http11 _ ?_).2 ?_
  · simp [Operation.PrintsApart,Value.printed]
  · intro h₁ h₁run
    refine ⟨trivial,fun h₂ h₂run => ⟨trivial,fun h₃ _ => ⟨fun _ => ?_,trivial⟩⟩⟩
    obtain rfl := Except.ok.inj h₁run
    obtain rfl := Except.ok.inj h₂run
    exact ⟨rfl,trivial⟩

/-- The length stays in the field when its header is removed. -/
theorem removeAll_unframed : ∃ h : Headers,
    ((new .http11).step (.contentLength 5) >>= fun h => h.step (.removeAll (text "Content-Length"))) =
      .ok h ∧ h.contentLength = 5 ∧ h.values contentLengthName = [] ∧ ¬h.Framed :=
  ⟨_,rfl,rfl,rfl,not_framed_of_missing (by decide) rfl⟩

end Headers

end DartSdk.Http
