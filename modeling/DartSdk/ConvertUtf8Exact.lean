import DartSdk.ConvertUtf8Encoding
import DartSdk.TruncatedArithmetic

/-! On the bytes of a rune the decoder writes its code units. A strict run that succeeds has read
the bytes of runes. -/
namespace DartSdk.Convert

open RuneEncoding TruncatedArithmetic List Int Utf8Decoder

variable {d' : Decoder} {rs : List ℕ}

/-- The bytes of a list of naturals, as the decoder reads them. -/
def asUnits (bs : List ℕ) : List ℤ := bs.map Nat.cast

@[simp] lemma asUnits_nil : asUnits [] = [] := rfl

@[simp] lemma asUnits_cons (b : ℕ) (bs : List ℕ) : asUnits (b :: bs) = (b : ℤ) :: asUnits bs :=
  rfl

@[simp] lemma asUnits_append (bs cs : List ℕ) : asUnits (bs ++ cs) = asUnits bs ++ asUnits cs :=
  map_append

section Bytes

variable {b : ℕ} (hb : b < 256)
include hb

lemma land_one_byte : land b oneByteLimit = b ↔ b < 0x80 := by
  revert b
  decide +kernel

lemma land_lead_two : land b 0xE0 = 0xC0 ↔ 0xC0 ≤ b ∧ b < 0xE0 := by
  revert b
  decide +kernel

lemma land_lead_three : land b 0xF0 = 0xE0 ↔ 0xE0 ≤ b ∧ b < 0xF0 := by
  revert b
  decide +kernel

lemma land_lead_four : land b 0xF8 = 0xF0 ↔ 0xF0 ≤ b ∧ b < 0xF8 := by
  revert b
  decide +kernel

lemma land_continuation : land b 0xC0 = 0x80 ↔ 0x80 ≤ b ∧ b < 0xC0 := by
  revert b
  decide +kernel

end Bytes

lemma land_low (b k : ℕ) (mask : ℤ) (hmask : mask = 2^k-1) : land b mask = ((b%2^k : ℕ) : ℤ) := by
  rw [hmask,land_two_pow_sub_one]
  rfl

lemma writeCharCode_units {r : ℕ} (hr : r ≤ maxRune) (sink : List ℕ) :
    writeCharCode sink r = .ok (sink ++ units r) := by
  unfold maxRune at hr
  by_cases h : r ≤ 0xFFFF
  · rw [writeCharCode,if_pos (by omega),if_neg (by omega),units_of_le h,toNat_natCast]
  · have hlead := Nat.shiftLeft_add_eq_or_of_lt (show (r-0x10000)/1024 < 2^10 by omega) 54
    have htail := Nat.shiftLeft_add_eq_or_of_lt (show (r-0x10000)%1024 < 2^10 by omega) 55
    have hmask : (r-0x10000) &&& 0x3FF = (r-0x10000)%1024 := by
      rw [show 0x3FF = 2^10-1 by norm_num,Nat.and_two_pow_sub_one_eq_mod]
    rw [writeCharCode,if_neg (by omega),if_neg (by omega)]
    dsimp only
    rw [toNat_natCast,hmask,Nat.shiftRight_eq_div_pow,units,if_neg h]
    exact congrArg (fun l => Except.ok (sink ++ l)) (congrArg₂ (fun u v => [u,v]) hlead.symm htail.symm)

namespace Decoder

variable {d : Decoder} {b r : ℕ}

lemma startSequence_one (hb : b < 0x80) : d.startSequence b =
      .ok { d with isFirstCharacter := false, stringSink := d.stringSink ++ [b] } := by
  rw [startSequence,if_pos ((land_one_byte (by omega)).2 hb),toNat_natCast]

lemma startSequence_two (hb : 0xC0 ≤ b) (hb' : b < 0xE0) : d.startSequence b =
      .ok { d with value := (b%2^5 : ℕ), expectedUnits := 1, extraUnits := 1 } := by
  rw [startSequence,if_neg (mt (land_one_byte (by omega)).1 (by omega)),if_neg (by omega),
    if_pos ((land_lead_two (by omega)).2 ⟨hb,hb'⟩),land_low b 5 0x1F rfl]

lemma startSequence_three (hb : 0xE0 ≤ b) (hb' : b < 0xF0) : d.startSequence b =
      .ok { d with value := (b%2^4 : ℕ), expectedUnits := 2, extraUnits := 2 } := by
  rw [startSequence,if_neg (mt (land_one_byte (by omega)).1 (by omega)),if_neg (by omega),
    if_neg (mt (land_lead_two (by omega)).1 (by omega)),
    if_pos ((land_lead_three (by omega)).2 ⟨hb,hb'⟩),land_low b 4 0x0F rfl]

lemma startSequence_four (hb : 0xF0 ≤ b) (hb' : b < 0xF5) : d.startSequence b =
      .ok { d with value := (b%2^3 : ℕ), expectedUnits := 3, extraUnits := 3 } := by
  rw [startSequence,if_neg (mt (land_one_byte (by omega)).1 (by omega)),if_neg (by omega),
    if_neg (mt (land_lead_two (by omega)).1 (by omega)),
    if_neg (mt (land_lead_three (by omega)).1 (by omega)),
    if_pos ⟨(land_lead_four (by omega)).2 (by omega),by omega⟩,land_low b 3 0x07 rfl]

lemma startSequence_bad (hd : d.allowMalformed = false) (hb : 0x80 ≤ b) (hb' : b < 256)
    (hbad : b < 0xC0 ∨ 0xF5 ≤ b) : d.startSequence b =
      .error (.formatException ("Bad UTF-8 encoding 0x" ++ toRadixString16 b)) := by
  rw [startSequence,if_neg (mt (land_one_byte hb').1 (by omega)),if_neg (by omega),
    if_neg (mt (land_lead_two hb').1 (by omega)),if_neg (mt (land_lead_three hb').1 (by omega)),
    if_neg (by rw [land_lead_four hb']; omega),hd]
  rfl

lemma convertUnit_start (hd : d.expectedUnits = 0) : d.convertUnit b = d.startSequence b := by
  rw [convertUnit,if_neg (by omega)]

lemma convertUnit_continuation {v k : ℕ} (hvalue : d.value = v) (hk : d.expectedUnits = k+1)
    (hb : 0x80 ≤ b) (hb' : b < 0xC0) : d.convertUnit b =
      if 0 < k then .ok { d with value := (v*64+b%64 : ℕ), expectedUnits := k }
      else { d with value := (v*64+b%64 : ℕ), expectedUnits := k }.endSequence := by
  have hbits : lor (d.value <<< (6 : ℕ)) (land b 0x3F) = ((v*64+b%64 : ℕ) : ℤ) := by
    rw [land_low b 6 0x3F rfl,hvalue,lor_shiftLeft (by omega) (by omega) 6 (by omega)]
    rfl
  have hclass : ¬land b 0xC0 ≠ 0x80 := not_not.2 ((land_continuation (by omega)).2 ⟨hb,hb'⟩)
  rw [convertUnit,if_pos (by omega),continueSequence,if_neg hclass]
  rw [hbits,hk,Nat.add_sub_cancel]

lemma convertUnit_bad (hd : d.allowMalformed = false) (hk : 0 < d.expectedUnits) (hb : b < 256)
    (hbad : b < 0x80 ∨ 0xC0 ≤ b) : d.convertUnit b =
      .error (.formatException ("Bad UTF-8 encoding 0x" ++ toRadixString16 b)) := by
  rw [convertUnit,if_pos hk,continueSequence,if_pos (mt (land_continuation hb).1 (by omega)),hd]
  rfl

/-- The decoder after a rune: the mark is dropped where it comes first. -/
def afterRune (d : Decoder) (r : ℕ) : Decoder :=
  { d with
    isFirstCharacter := false
    stringSink := d.stringSink ++ if d.isFirstCharacter = true ∧ r = bom then [] else units r }

lemma endSequence_rune (hvalue : d.value = r) (hlow : limits (d.extraUnits-1) < r)
    (hr : r ≤ maxRune) : d.endSequence = .ok (d.afterRune r) := by
  have hfour : ¬(r : ℤ) > fourByteLimit := by
    unfold maxRune at hr
    unfold fourByteLimit
    omega
  rw [endSequence,hvalue,if_neg (by omega)]
  simp only [pure_bind,if_neg hfour]
  by_cases hbom : d.isFirstCharacter = true ∧ r = bom
  · have hcond : (!d.isFirstCharacter || decide ((r : ℤ) ≠ unicodeBomCharacterRune)) = false := by
      simp [hbom.1,hbom.2,bom,unicodeBomCharacterRune]
    rw [hcond,if_neg (by simp),afterRune,if_pos hbom,append_nil,hvalue]
    rfl
  · have hcond : (!d.isFirstCharacter || decide ((r : ℤ) ≠ unicodeBomCharacterRune)) = true := by
      rw [Bool.or_eq_true,decide_eq_true_iff,Bool.not_eq_true']
      by_cases hfirst : d.isFirstCharacter = true
      · refine .inr fun h => hbom ⟨hfirst,?_⟩
        unfold unicodeBomCharacterRune at h
        unfold bom
        omega
      · exact .inl (by simpa using hfirst)
    rw [if_pos hcond,writeCharCode_units hr,afterRune,if_neg hbom,hvalue]
    rfl

lemma convert_append (d : Decoder) (us vs : List ℤ) :
    d.convert (us ++ vs) = d.convert us >>= fun d => d.convert vs := foldlM_append

lemma convert_cons (d : Decoder) (u : ℤ) (us : List ℤ) :
    d.convert (u :: us) = d.convertUnit u >>= fun d => d.convert us := foldlM_cons

@[simp] lemma convert_nil (d : Decoder) : d.convert [] = .ok d := rfl

/-- The value of an open sequence after more bytes of it. -/
def accumulate (v : ℕ) (cs : List ℕ) : ℕ := cs.foldl (fun v c => v*64+c%64) v

def IsContinuation (c : ℕ) : Prop := 0x80 ≤ c ∧ c < 0xC0

lemma convert_continuations {v : ℕ} {cs : List ℕ} (hcs : ∀ c ∈ cs, IsContinuation c)
    (hlen : 0 < cs.length) (hvalue : d.value = v) (hk : d.expectedUnits = cs.length) :
    d.convert (asUnits cs) =
      { d with value := accumulate v cs, expectedUnits := 0 }.endSequence := by
  induction cs generalizing d v with
  | nil => simp at hlen
  | cons c cs ih =>
    rw [forall_mem_cons] at hcs
    rw [asUnits_cons,convert_cons,convertUnit_continuation hvalue hk hcs.1.1 hcs.1.2]
    cases cs with
    | nil =>
      rw [if_neg (by simp)]
      exact bind_pure _
    | cons c' cs =>
      rw [if_pos (by simp),except_ok_bind,ih hcs.2 (by simp) rfl rfl]
      rfl

/-- The byte `b` announces `n` more bytes and carries the bits `v`. -/
def IsLeadByte (b n v : ℕ) : Prop :=
  (0xC0 ≤ b ∧ b < 0xE0 ∧ n = 1 ∧ v = b%2^5) ∨ (0xE0 ≤ b ∧ b < 0xF0 ∧ n = 2 ∧ v = b%2^4) ∨
    (0xF0 ≤ b ∧ b < 0xF5 ∧ n = 3 ∧ v = b%2^3)

lemma startSequence_lead {n v : ℕ} (h : IsLeadByte b n v) :
    d.startSequence b = .ok { d with value := v, expectedUnits := n, extraUnits := n } := by
  obtain ⟨hb,hb',rfl,rfl⟩ | ⟨hb,hb',rfl,rfl⟩ | ⟨hb,hb',rfl,rfl⟩ := h
  · exact startSequence_two hb hb'
  · exact startSequence_three hb hb'
  · exact startSequence_four hb hb'

/-- The bytes `b :: cs` are those of the rune `r`, in the shortest form. -/
structure IsSequence (b n v : ℕ) (cs : List ℕ) (r : ℕ) : Prop where
  lead : IsLeadByte b n v
  continuation : ∀ c ∈ cs, IsContinuation c
  length : cs.length = n
  value : accumulate v cs = r
  low : limits (n-1) < r
  high : r ≤ maxRune

lemma IsSequence.bytes_eq {n v : ℕ} {cs : List ℕ} (h : IsSequence b n v cs r) :
    bytes r = b :: cs := by
  obtain ⟨hlead,hcs,hlen,rfl,hlow,hhigh⟩ := h
  unfold maxRune at hhigh
  obtain ⟨hb,hb',rfl,rfl⟩ | ⟨hb,hb',rfl,rfl⟩ | ⟨hb,hb',rfl,rfl⟩ := hlead
  · obtain ⟨c,rfl⟩ := length_eq_one_iff.1 hlen
    simp only [mem_singleton,forall_eq,IsContinuation] at hcs
    simp only [accumulate,foldl,limits,oneByteLimit] at hlow hhigh ⊢
    rw [bytes_two (by omega) (by omega),cons.injEq,cons.injEq]
    exact ⟨by omega,by omega,rfl⟩
  · obtain ⟨c₁,c₂,rfl⟩ := length_eq_two.1 hlen
    simp only [mem_cons,forall_eq_or_imp,IsContinuation] at hcs
    simp only [accumulate,foldl,limits,twoByteLimit] at hlow hhigh ⊢
    rw [bytes_three (by omega) (by omega),cons.injEq,cons.injEq,cons.injEq]
    exact ⟨by omega,by omega,by omega,rfl⟩
  · obtain ⟨c₁,c₂,c₃,rfl⟩ := length_eq_three.1 hlen
    simp only [mem_cons,forall_eq_or_imp,IsContinuation] at hcs
    simp only [accumulate,foldl,limits,threeByteLimit] at hlow hhigh ⊢
    rw [bytes_four (by omega),cons.injEq,cons.injEq,cons.injEq,cons.injEq]
    exact ⟨by omega,by omega,by omega,by omega,rfl⟩

lemma exists_isSequence (h : 0x7F < r) (hr : r ≤ maxRune) : ∃ b n v cs, IsSequence b n v cs r := by
  have hmax : maxRune = 0x10FFFF := rfl
  by_cases h₂ : r ≤ 0x7FF
  · refine ⟨0xC0+r/64,1,_,[0x80+r%64],.inl ⟨by omega,by omega,rfl,rfl⟩,?_,rfl,?_,?_,hr⟩
    · simp [IsContinuation]; omega
    · simp only [accumulate,foldl]; omega
    · simp only [limits,oneByteLimit]; omega
  by_cases h₃ : r ≤ 0xFFFF
  · refine ⟨0xE0+r/4096,2,_,[0x80+r/64%64,0x80+r%64],
      .inr (.inl ⟨by omega,by omega,rfl,rfl⟩),?_,rfl,?_,?_,hr⟩
    · simp [IsContinuation]; omega
    · simp only [accumulate,foldl]; omega
    · simp only [limits,twoByteLimit]; omega
  · refine ⟨0xF0+r/262144,3,_,[0x80+r/4096%64,0x80+r/64%64,0x80+r%64],
      .inr (.inr ⟨by omega,by omega,rfl,rfl⟩),?_,rfl,?_,?_,hr⟩
    · simp [IsContinuation]; omega
    · simp only [accumulate,foldl]; omega
    · simp only [limits,threeByteLimit]; omega

lemma IsLeadByte.pos {n v : ℕ} (h : IsLeadByte b n v) : 0 < n := by
  obtain ⟨-, -,rfl, -⟩ | ⟨-, -,rfl, -⟩ | ⟨-, -,rfl, -⟩ := h <;> decide

lemma convert_bytes (hd : d.expectedUnits = 0) (hr : r ≤ maxRune) (rest : List ℕ) :
    ∃ v x, d.convert (asUnits (bytes r ++ rest)) =
      { d.afterRune r with value := v, extraUnits := x }.convert (asUnits rest) := by
  by_cases h : r ≤ 0x7F
  · have hbom : ¬(d.isFirstCharacter = true ∧ r = bom) := by
      unfold bom
      omega
    refine ⟨d.value,d.extraUnits,?_⟩
    rw [bytes_one h,singleton_append,asUnits_cons,convert_cons,convertUnit_start hd,
      startSequence_one (by omega),except_ok_bind,afterRune,if_neg hbom,
      units_of_le (by omega)]
  · obtain ⟨b,n,v,cs,hseq⟩ := exists_isSequence (by omega) hr
    have hpos := hseq.lead.pos
    refine ⟨r,n,?_⟩
    rw [hseq.bytes_eq,cons_append,asUnits_cons,asUnits_append,convert_cons,
      convertUnit_start hd,startSequence_lead hseq.lead,except_ok_bind,convert_append,
      convert_continuations hseq.continuation (by rw [hseq.length]; exact hpos) rfl
        hseq.length.symm,
      endSequence_rune (congrArg Nat.cast hseq.value) hseq.low hr,except_ok_bind,hseq.value,
      afterRune,afterRune,hd]

lemma convert_runes (hd : d.expectedUnits = 0) (hrs : ∀ r ∈ rs, r ≤ maxRune) (rest : List ℕ) :
    ∃ v x, d.convert (asUnits (rs.flatMap bytes ++ rest)) =
      { d with
        isFirstCharacter := d.isFirstCharacter && rs.isEmpty
        stringSink := d.stringSink ++
          (if d.isFirstCharacter then dropBom rs else rs).flatMap units
        value := v
        extraUnits := x }.convert (asUnits rest) := by
  induction rs generalizing d with
  | nil => exact ⟨d.value,d.extraUnits,by simp [dropBom]⟩
  | cons r rs ih =>
    rw [forall_mem_cons] at hrs
    obtain ⟨v₁,x₁,h₁⟩ := convert_bytes hd hrs.1 (rs.flatMap bytes ++ rest)
    obtain ⟨v₂,x₂,h₂⟩ := ih (d := { d.afterRune r with value := v₁, extraUnits := x₁ }) hd hrs.2
    refine ⟨v₂,x₂,?_⟩
    rw [flatMap_cons,append_assoc,h₁,h₂]
    by_cases hfirst : d.isFirstCharacter = true
    · by_cases hbom : r = bom <;> simp [afterRune,dropBom,hfirst,hbom]
    · simp [afterRune,hfirst]

/-- Run the decoder on the last bytes. -/
def finish (d : Decoder) (bs : List ℕ) : Except Failure Decoder := d.convert (asUnits bs) >>= close

lemma close_eq (hd : d.expectedUnits = 0) : d.close = .ok d := by
  rw [close,flush,if_neg (by simp [hasPartialInput,hd])]

lemma finish_cons (d : Decoder) (b : ℕ) (bs : List ℕ) :
    d.finish (b :: bs) = d.convertUnit b >>= fun d => d.finish bs := by
  rw [finish,asUnits_cons,convert_cons,bind_assoc]
  rfl

variable (hd : d.allowMalformed = false)
include hd

lemma endSequence_strict {v : ℕ} (hvalue : d.value = v)
    (h : d.endSequence = .ok d') : limits (d.extraUnits-1) < v ∧ v ≤ maxRune := by
  have hlow : ¬d.value ≤ limits (d.extraUnits-1) := by
    intro hle
    rw [endSequence,if_pos hle,hd] at h
    cases h
  have hhigh : ¬d.value > fourByteLimit := by
    intro hgt
    rw [endSequence,if_neg hlow] at h
    simp only [pure_bind,if_pos hgt,hd] at h
    cases h
  have hmax : fourByteLimit = maxRune := rfl
  exact ⟨by omega,by omega⟩

lemma finish_open {v n : ℕ} {bs : List ℕ}
    (hvalue : d.value = v) (hn : d.expectedUnits = n+1) (hbs : ∀ b ∈ bs, b < 256)
    (h : d.finish bs = .ok d') :
    ∃ cs rest, bs = cs ++ rest ∧ cs.length = n+1 ∧ (∀ c ∈ cs, IsContinuation c) ∧
      limits (d.extraUnits-1) < accumulate v cs ∧ accumulate v cs ≤ maxRune := by
  induction bs generalizing d v n with
  | nil =>
    rw [finish,asUnits_nil,convert_nil,except_ok_bind,close,flush,
      if_pos (by simp [hasPartialInput,hn]),hd] at h
    cases h
  | cons c bs ih =>
    rw [forall_mem_cons] at hbs
    rw [finish_cons] at h
    by_cases hc : IsContinuation c
    · rw [convertUnit_continuation hvalue hn hc.1 hc.2] at h
      cases n with
      | zero =>
        rw [if_neg (by simp)] at h
        cases hend : { d with value := (v*64+c%64 : ℕ), expectedUnits := 0 }.endSequence with
        | error f =>
          rw [hend] at h
          cases h
        | ok d₁ =>
          refine ⟨[c],bs,rfl,rfl,by simpa using hc,?_⟩
          exact endSequence_strict (d := { d with value := _, expectedUnits := 0 }) hd rfl hend
      | succ n =>
        rw [if_pos (by simp),except_ok_bind] at h
        obtain ⟨cs,rest,rfl,hlen,hcs,hbounds⟩ := ih (d := { d with value := _, expectedUnits := n+1 }) hd rfl rfl hbs.2 h
        exact ⟨c :: cs,rest,rfl,by simpa using hlen,forall_mem_cons.2 ⟨hc,hcs⟩,hbounds⟩
    · rw [IsContinuation] at hc
      rw [convertUnit_bad hd (by omega) hbs.1 (by omega)] at h
      cases h

/-- A strict run that succeeds has read the bytes of runes. -/
lemma finish_inversion {bs : List ℕ}
    (hstart : d.expectedUnits = 0) (hbs : ∀ b ∈ bs, b < 256) (h : d.finish bs = .ok d') :
    ∃ rs : List ℕ, (∀ r ∈ rs, r ≤ maxRune) ∧ bs = rs.flatMap bytes := by
  induction hn : bs.length using Nat.strong_induction_on generalizing d bs with
  | _ n ih =>
    -- A first rune leaves a shorter list for the decoder after it.
    have hrune {r : ℕ} {rest : List ℕ} (hr : r ≤ maxRune) (hsplit : bs = bytes r ++ rest) :
        ∃ rs : List ℕ, (∀ r ∈ rs, r ≤ maxRune) ∧ bs = rs.flatMap bytes := by
      subst hsplit
      obtain ⟨v,x,hconvert⟩ := convert_bytes hstart hr rest
      rw [finish,hconvert] at h
      have hlength := length_pos_of_ne_nil (bytes_ne_nil r)
      rw [length_append] at hn
      obtain ⟨rs,hrs,rfl⟩ := ih rest.length (by omega)
        (d := { d.afterRune r with value := v, extraUnits := x }) hd hstart
        (fun b hb => hbs b (mem_append_right _ hb)) h rfl
      exact ⟨r :: rs,forall_mem_cons.2 ⟨hr,hrs⟩,rfl⟩
    cases bs with
    | nil => exact ⟨[],by simp,rfl⟩
    | cons b rest =>
      have hb := hbs b (by simp)
      by_cases hone : b < 0x80
      · have hsplit : b :: rest = bytes b ++ rest := by
          rw [bytes_one (by omega)]
          rfl
        exact hrune (by unfold maxRune; omega) hsplit
      by_cases hlead : ∃ n v, IsLeadByte b n v
      · obtain ⟨n,v,hlead⟩ := hlead
        rw [finish_cons,convertUnit_start hstart,startSequence_lead hlead,except_ok_bind] at h
        obtain ⟨cs,rest,rfl,hlen,hcs,hlow,hhigh⟩ := finish_open
          (d := { d with value := v, expectedUnits := n, extraUnits := n }) hd rfl
          (show n = n-1+1 by have := hlead.pos; omega)
          (fun b hb => hbs b (mem_cons_of_mem _ hb)) h
        have hseq : IsSequence b n v cs (accumulate v cs) :=
          ⟨hlead,hcs,by have := hlead.pos; omega,rfl,hlow,hhigh⟩
        exact hrune hhigh (by rw [hseq.bytes_eq]; rfl)
      · have hbad : b < 0xC0 ∨ 0xF5 ≤ b := by
          by_contra hnot
          refine hlead ?_
          by_cases h₂ : b < 0xE0
          · exact ⟨1,_,.inl ⟨by omega,h₂,rfl,rfl⟩⟩
          by_cases h₃ : b < 0xF0
          · exact ⟨2,_,.inr (.inl ⟨by omega,h₃,rfl,rfl⟩)⟩
          · exact ⟨3,_,.inr (.inr ⟨by omega,by omega,rfl,rfl⟩)⟩
        rw [finish_cons,convertUnit_start hstart,startSequence_bad hd (by omega) hb hbad] at h
        cases h

end Decoder

lemma checkValidRange_none (length : ℕ) : checkValidRange 0 none length = .ok length := by
  rw [checkValidRange,if_neg (by omega)]

lemma Utf8Decoder.convert_eq (allowMalformed : Bool) (bs : List ℕ) :
    convert allowMalformed (asUnits bs) 0 none =
      (({ allowMalformed } : Decoder).finish bs).map Decoder.stringSink := by
  rw [convert,checkValidRange_none,except_ok_bind,drop_zero,Nat.sub_zero,
    take_length,Decoder.finish]
  dsimp only
  cases ({ allowMalformed } : Decoder).convert (asUnits bs) with
  | error f => rfl
  | ok d =>
    rw [except_ok_bind,except_ok_bind]
    cases d.close <;> rfl

lemma Utf8Decoder.convert_runes (allowMalformed : Bool) (hrs : ∀ r ∈ rs, r ≤ maxRune) :
    convert allowMalformed (asUnits (rs.flatMap bytes)) 0 none =
      .ok ((dropBom rs).flatMap units) := by
  obtain ⟨v,x,h⟩ := Decoder.convert_runes (d := { allowMalformed }) rfl hrs []
  rw [append_nil,asUnits_nil,Decoder.convert_nil] at h
  rw [convert_eq,Decoder.finish,h,except_ok_bind,Decoder.close_eq rfl]
  rfl

/-- The bytes contain a surrogate pair as two sequences of three bytes. -/
def EncodesPairApart (bs : List ℕ) : Prop :=
  ∃ lead tail before after, IsLead lead ∧ IsTail tail ∧
    bs = before ++ bytes lead ++ bytes tail ++ after

lemma encodesPairApart_of_not_isChain
    (h : ¬rs.IsChain fun u v => ¬Pairs u v) : EncodesPairApart (rs.flatMap bytes) := by
  induction rs with
  | nil => exact absurd List.IsChain.nil h
  | cons r rs ih =>
    cases rs with
    | nil => exact absurd (List.IsChain.singleton r) h
    | cons r' rs =>
      rw [isChain_cons_cons,not_and_or,not_not] at h
      obtain hpair | hrest := h
      · exact ⟨r,r',[],rs.flatMap bytes,hpair.1,hpair.2,by simp⟩
      · obtain ⟨lead,tail,before,after,hlead,htail,hsplit⟩ := ih hrest
        exact ⟨lead,tail,bytes r ++ before,after,hlead,htail,by
          rw [flatMap_cons,hsplit]; simp⟩

/-- The code units of a string of sixteen-bit units. -/
def codeUnits (s : List UInt16) : List ℕ := s.map UInt16.toNat

lemma codeUnits_le {s : List UInt16} : ∀ u ∈ codeUnits s, u ≤ 0xFFFF := by
  intro u hu
  obtain ⟨w, -,rfl⟩ := mem_map.1 hu
  exact Nat.le_of_lt_succ w.toNat_lt

lemma head?_codeUnits {s : List UInt16} : (codeUnits s).head? = some bom ↔ s.head? = some 0xFEFF := by
  cases s with
  | nil => simp [codeUnits]
  | cons u s => simp [codeUnits,← UInt16.toNat_inj,bom]

def byteValues (bs : List UInt8) : List ℕ := bs.map UInt8.toNat

lemma byteValues_lt {bs : List UInt8} : ∀ b ∈ byteValues bs, b < 256 := by
  intro b hb
  obtain ⟨w, -,rfl⟩ := mem_map.1 hb
  exact w.toNat_lt

/-- Encoding stays inside the buffer and is undone by decoding, up to a leading mark. Strict decoding
is undone by encoding, unless the input encodes a pair in two parts. -/
theorem utf8_round_trip (s : List UInt16) (start stop : ℕ) (h : start ≤ stop)
    (hstop : stop ≤ s.length) :
    (∃ out, Utf8Encoder.convert (codeUnits s) start (some stop) = .ok out ∧
      ∀ allowMalformed, Utf8Decoder.convert allowMalformed (asUnits out) 0 none =
        .ok (dropBom (codeUnits ((s.drop start).take (stop-start))))) ∧
    ∀ (input : List UInt8) (text : List ℕ),
      Utf8Decoder.convert false (asUnits (byteValues input)) 0 none = .ok text →
        EncodesPairApart (byteValues input) ∨
          Utf8Encoder.convert text 0 none = .ok (dropBomBytes (byteValues input)) := by
  refine ⟨?_,fun input text htext => ?_⟩
  · have hlength : stop ≤ (codeUnits s).length := by rwa [codeUnits,List.length_map]
    refine ⟨_,Utf8Encoder.convert_runes codeUnits_le h hlength,fun allowMalformed => ?_⟩
    have hsub : ((codeUnits s).drop start).take (stop-start) =
        codeUnits ((s.drop start).take (stop-start)) := by
      rw [codeUnits,codeUnits,List.map_take,List.map_drop]
    rw [hsub,Utf8Decoder.convert_runes allowMalformed (runes_le codeUnits_le),
      flatMap_units_dropBom (runes_le codeUnits_le),flatMap_units_runes codeUnits_le]
  · rw [Utf8Decoder.convert_eq] at htext
    cases hfinish : ({ allowMalformed := false } : Decoder).finish (byteValues input) with
    | error f =>
      rw [hfinish] at htext
      cases htext
    | ok d =>
      obtain ⟨rs,hrs,hbytes⟩ := Decoder.finish_inversion rfl rfl byteValues_lt hfinish
      rw [← Utf8Decoder.convert_eq,hbytes,Utf8Decoder.convert_runes false hrs] at htext
      cases htext
      rw [hbytes]
      by_cases hchain : rs.IsChain fun u v => ¬Pairs u v
      · refine .inr ?_
        have hdrop : ∀ r ∈ dropBom rs, r ≤ maxRune := fun r hr => hrs r (mem_of_mem_dropBom hr)
        have hunits : ∀ u ∈ (dropBom rs).flatMap units, u ≤ 0xFFFF := by
          intro u hu
          obtain ⟨r,hr,hur⟩ := List.mem_flatMap.1 hu
          exact units_le (hdrop r hr) u hur
        rw [Utf8Encoder.convert_all hunits,runes_flatMap_units hdrop (isChain_dropBom hchain),
          flatMap_bytes_dropBom]
      · exact .inl (encodesPairApart_of_not_isChain hchain)

/-- A slice that starts with a mark and ends with a lead surrogate. -/
theorem utf8_round_trip_lead :
    ∃ out, Utf8Encoder.convert (codeUnits [0xFEFF,0xD800,0xDC00]) 0 (some 2) = .ok out ∧
      ∀ allowMalformed, Utf8Decoder.convert allowMalformed (asUnits out) 0 none = .ok [0xD800] :=
  (utf8_round_trip [0xFEFF,0xD800,0xDC00] 0 2 (by decide) (by decide)).1

end DartSdk.Convert
