import DartSdk.ConvertUtf8
import DartSdk.Iteration
import DartSdk.RuneEncoding

/-! Each round of the encoder appends the bytes of one rune, and never meets the end of the buffer.
-/
namespace DartSdk.Convert

open RuneEncoding List Nat Utf8Encoder Encoder

lemma and_tag (u : ℕ) : u &&& 0xFC00 = u/1024%64*1024 := by
  have hmask : (u &&& 0xFC00) = (u >>> 10 &&& 0x3F) <<< 10 := by
    refine eq_of_testBit_eq fun i => ?_
    rw [testBit_and,testBit_shiftLeft,testBit_and,testBit_shiftRight,
      show 0xFC00 = 0x3F <<< 10 from rfl,testBit_shiftLeft]
    by_cases hi : 10 ≤ i
    · simp [hi]
    · simp [hi]
  rw [hmask,Nat.shiftLeft_eq,Nat.shiftRight_eq_div_pow,
    show 0x3F = 2^6-1 from rfl,Nat.and_two_pow_sub_one_eq_mod]

lemma isLeadSurrogate_iff {u : ℕ} (hu : u ≤ 0xFFFF) : isLeadSurrogate u = true ↔ IsLead u := by
  rw [isLeadSurrogate,decide_eq_true_iff,and_tag,IsLead]
  omega

lemma isTailSurrogate_iff {u : ℕ} (hu : u ≤ 0xFFFF) : isTailSurrogate u = true ↔ IsTail u := by
  rw [isTailSurrogate,decide_eq_true_iff,and_tag,IsTail]
  omega

lemma combineSurrogatePair_eq {u v : ℕ} (hu : IsLead u) (hv : IsTail v) :
    combineSurrogatePair u v = combine u v := by
  have hmask (x : ℕ) : x &&& 0x3FF = x%2^10 := by
    rw [show 0x3FF = 2^10-1 by norm_num,Nat.and_two_pow_sub_one_eq_mod]
  have hbase (x : ℕ) : 0x10000+x <<< 10 = (64+x) <<< 10 := by
    rw [Nat.shiftLeft_eq,Nat.shiftLeft_eq,add_mul]
  have hor := Nat.shiftLeft_add_eq_or_of_lt (Nat.mod_lt v (Nat.two_pow_pos 10)) (64+u%2^10)
  unfold IsLead at hu
  unfold IsTail at hv
  have hsum : (64+u%2^10)*2^10+v%2^10 = combine u v := by
    unfold combine
    omega
  rw [combineSurrogatePair,hmask,hmask,hbase,← hor,Nat.shiftLeft_eq,hsum]

lemma or_lead_two {x : ℕ} (hx : x < 32) : 0xC0 ||| x = 0xC0+x := by
  revert x
  decide

lemma or_lead_three {x : ℕ} (hx : x < 16) : 0xE0 ||| x = 0xE0+x := by
  revert x
  decide

lemma or_lead_four {x : ℕ} (hx : x < 8) : 0xF0 ||| x = 0xF0+x := by
  revert x
  decide

lemma or_continuation (x : ℕ) : 0x80 ||| (x &&& 0x3F) = 0x80+x%64 := by
  have hor : ∀ y < 64, 0x80 ||| y = 0x80+y := by decide
  have hmask : x &&& 0x3F = x%64 := by simpa using and_two_pow_sub_one_eq_mod x 6
  rw [hmask,hor _ (mod_lt _ (by norm_num))]

lemma except_ok_bind {α β : Type} (x : α) (f : α → Except Failure β) :
    (Except.ok x >>= f) = f x := rfl

lemma codeUnitAt_drop {str rest : List ℕ} {i u : ℕ} (h : str.drop i = u :: rest) :
    codeUnitAt str i = .ok u := by
  have hget : str[i]? = some u := by rw [← head?_drop,h,head?_cons]
  rw [codeUnitAt,hget]

lemma drop_succ {str rest : List ℕ} {i u : ℕ} (h : str.drop i = u :: rest) :
    str.drop (i+1) = rest := by
  rw [← drop_drop,h,drop_one,tail_cons]

namespace Encoder

/-- The encoder has written `out` to its buffer of `size` bytes. -/
structure Holds (e : Encoder) (size : ℕ) (out : List ℕ) : Prop where
  length : e.buffer.length = size
  index : e.bufferIndex = out.length
  written : e.buffer.take e.bufferIndex = out

variable {e : Encoder} {size : ℕ} {out : List ℕ}

lemma withBufferSize_holds (size : ℕ) : (withBufferSize size).Holds size [] :=
  ⟨length_replicate,rfl,rfl⟩

lemma put_holds (h : e.Holds size out) (hroom : out.length < size) {value : ℕ}
    (hvalue : value < 256) : ∃ e', e.put value = .ok e' ∧ e'.Holds size (out ++ [value]) := by
  have hindex : e.bufferIndex < e.buffer.length := by rw [h.index,h.length]; exact hroom
  refine ⟨_,by rw [put,if_pos hindex],?_,?_,?_⟩
  · rw [length_set,h.length]
  · rw [length_append,length_singleton,h.index]
  · rw [take_add_one,getElem?_set_self hindex,take_set_of_le le_rfl,h.written,mod_eq_of_lt hvalue]
    rfl

/-- Writing several bytes in a row. -/
def putAll (e : Encoder) (values : List ℕ) : Except Failure Encoder := values.foldlM put e

lemma putAll_holds {values : List ℕ} (hvalues : ∀ v ∈ values, v < 256) (h : e.Holds size out)
    (hroom : out.length+values.length ≤ size) :
    ∃ e', e.putAll values = .ok e' ∧ e'.Holds size (out ++ values) := by
  induction values generalizing e out with
  | nil => exact ⟨e,rfl,by rwa [append_nil]⟩
  | cons v values ih =>
    rw [length_cons] at hroom
    rw [forall_mem_cons] at hvalues
    obtain ⟨e₁,hput,h₁⟩ := put_holds h (by omega) hvalues.1
    obtain ⟨e₂,hall,h₂⟩ := ih hvalues.2 h₁ (by rw [length_append,length_singleton]; omega)
    refine ⟨e₂,?_,by rwa [append_assoc] at h₂⟩
    rw [putAll,foldlM_cons,hput]
    exact hall

lemma bytes_lt {r : ℕ} (hr : r ≤ maxRune) : ∀ b ∈ bytes r, b < 256 := by
  unfold maxRune at hr
  unfold bytes
  split_ifs <;> simp <;> omega

lemma writeSurrogate_eq {u v : ℕ} (hu : IsLead u) (hv : v ≤ 0xFFFF) : e.writeSurrogate u v =
      if IsTail v then (fun e => (true,e)) <$> e.putAll (bytes (combine u v))
      else (fun e => (false,e)) <$> e.putAll (bytes u) := by
  have hu' := hu
  unfold IsLead at hu'
  rw [writeSurrogate]
  by_cases htail : IsTail v
  · have hle := combine_le hu htail
    have hlt : 0xFFFF < combine u v := lt_combine
    unfold maxRune at hle
    rw [if_pos ((isTailSurrogate_iff hv).2 htail),if_pos htail,combineSurrogatePair_eq hu htail]
    generalize combine u v = r at hle hlt
    dsimp only
    rw [or_continuation,or_continuation,or_continuation,shiftRight_eq_div_pow,
      shiftRight_eq_div_pow,shiftRight_eq_div_pow,or_lead_four (by omega),
      bytes_four hlt]
    simp [putAll]
  · rw [if_neg (mt (isTailSurrogate_iff hv).1 htail),if_neg htail,or_continuation,
      or_continuation,shiftRight_eq_div_pow,shiftRight_eq_div_pow,
      or_lead_three (by omega),bytes_three (by omega) (by omega)]
    simp [putAll]

variable {u v r : ℕ}

section Loop

variable {str rest : List ℕ} {stop i fuel : ℕ}

lemma fillLoop_unit (hi : i < stop) (hread : str.drop i = u :: rest) (hu : u ≤ 0xFFFF)
    (hlead : ¬IsLead u) (hroom : e.bufferIndex+3 ≤ e.buffer.length) :
    fillLoop str stop (fuel+1) i e = e.putAll (bytes u) >>= fillLoop str stop fuel (i+1) := by
  have hone : oneByteLimit = 0x7F := rfl
  have htwo : twoByteLimit = 0x7FF := rfl
  rw [fillLoop,if_pos hi,codeUnitAt_drop hread,except_ok_bind]
  by_cases h₁ : u ≤ oneByteLimit
  · rw [if_pos h₁,if_neg (by omega),bytes_one (by omega)]
    simp [putAll]
  · rw [if_neg h₁,if_neg (by rwa [isLeadSurrogate_iff hu])]
    by_cases h₂ : u ≤ twoByteLimit
    · rw [if_pos h₂,if_neg (by omega),or_continuation,shiftRight_eq_div_pow,
        or_lead_two (by omega),bytes_two (by omega) (by omega)]
      simp [putAll]
    · rw [if_neg h₂,if_neg (by omega),or_continuation,or_continuation,
        shiftRight_eq_div_pow,shiftRight_eq_div_pow,or_lead_three (by omega),
        bytes_three (by omega) hu]
      simp [putAll]

lemma fillLoop_lead (hi : i < stop) (hread : str.drop i = u :: v :: rest) (hv : v ≤ 0xFFFF)
    (hlead : IsLead u) (hroom : e.bufferIndex+4 ≤ e.buffer.length) :
    fillLoop str stop (fuel+1) i e =
      if IsTail v then e.putAll (bytes (combine u v)) >>= fillLoop str stop fuel (i+2)
      else e.putAll (bytes u) >>= fillLoop str stop fuel (i+1) := by
  have hone : oneByteLimit = 0x7F := rfl
  have hu := hlead
  unfold IsLead at hu
  rw [fillLoop,if_pos hi,codeUnitAt_drop hread,except_ok_bind,if_neg (by omega),
    if_pos ((isLeadSurrogate_iff (by omega)).2 hlead),if_neg (by omega),
    codeUnitAt_drop (drop_succ hread),except_ok_bind,writeSurrogate_eq hlead hv]
  by_cases htail : IsTail v
  · rw [if_pos htail,if_pos htail]
    cases e.putAll (bytes (combine u v)) <;> rfl
  · rw [if_neg htail,if_neg htail]
    cases e.putAll (bytes u) <;> rfl

lemma fillLoop_alone (hi : i < stop) (hread : str.drop i = u :: rest) (hu : u ≤ 0xFFFF)
    (hroom : e.bufferIndex+3 ≤ e.buffer.length)
    (hlead : IsLead u → (∃ v rest', rest = v :: rest' ∧ v ≤ 0xFFFF ∧ ¬IsTail v) ∧
      e.bufferIndex+4 ≤ e.buffer.length) :
    fillLoop str stop (fuel+1) i e =
      e.putAll (bytes u) >>= fillLoop str stop fuel (i+1) := by
  by_cases h : IsLead u
  · obtain ⟨⟨v,rest',rfl,hv,htail⟩,hroom'⟩ := hlead h
    rw [fillLoop_lead hi hread hv h hroom',if_neg htail]
  · exact fillLoop_unit hi hread hu h hroom

end Loop

lemma length_bytes_le (hr : r ≤ 0xFFFF) : (bytes r).length ≤ 3 := by
  unfold bytes
  split_ifs <;> simp

lemma length_bytes_combine : (bytes (combine u v)).length = 4 := by
  rw [bytes_four lt_combine]
  rfl

/-- What the loop may meet at its end: a lead surrogate there does not start a pair, and there is
room to test for one. -/
def EndsWell (size : ℕ) (out units after : List ℕ) : Prop :=
  ∀ u ∈ units.getLast?, IsLead u →
    (∃ v after', after = v :: after' ∧ v ≤ 0xFFFF ∧ ¬IsTail v) ∧ out.length+3*units.length < size

lemma fillLoop_runes {str units after : List ℕ} {stop i fuel : ℕ}
    (hread : str.drop i = units ++ after) (hunits : ∀ u ∈ units, u ≤ 0xFFFF)
    (hlast : EndsWell size out units after) (hstop : stop = i+units.length)
    (hfuel : units.length ≤ fuel) (h : e.Holds size out)
    (hroom : out.length+3*units.length ≤ size) : ∃ e', fillLoop str stop fuel i e =
      .ok (stop,e') ∧ e'.Holds size (out ++ (runes units).flatMap bytes) ∧
      ((runes units).flatMap bytes).length ≤ 3*units.length := by
  induction units using runes.induct generalizing i e out fuel with
  | case1 =>
    refine ⟨e,?_,by simpa [runes] using h,by simp [runes]⟩
    cases fuel <;> simp [fillLoop,hstop]
  | case2 u =>
    have hu := hunits u (by simp)
    have hend := hlast u rfl
    rw [length_singleton] at hfuel hroom hstop hend ⊢
    obtain ⟨fuel,rfl⟩ := exists_fuel fuel
    have hlen := length_bytes_le hu
    obtain ⟨e',hput,h'⟩ := putAll_holds (bytes_lt (hu.trans (by decide))) h (by omega)
    have hround : fillLoop str stop (fuel+1) i e =
        e.putAll (bytes u) >>= fillLoop str stop fuel (i+1) := by
      refine fillLoop_alone (by omega) hread hu (by rw [h.index,h.length]; omega) fun hlead => ?_
      obtain ⟨hafter,hlt⟩ := hend hlead
      exact ⟨hafter,by rw [h.index,h.length]; omega⟩
    refine ⟨e',?_,by simpa [runes] using h',by simpa [runes] using hlen⟩
    rw [hround,hput,except_ok_bind]
    cases fuel <;> simp [fillLoop,hstop]
  | case3 u v us hpair ih =>
    have hv := hunits v (by simp)
    have hlen : (bytes (combine u v)).length = 4 := length_bytes_combine
    have hlast' : EndsWell size (out ++ bytes (combine u v)) us after := by
      intro w hw hlead
      have hend := hlast w (by cases us <;> simp_all) hlead
      rw [length_cons,length_cons] at hend
      rw [length_append]
      exact ⟨hend.1,by omega⟩
    rw [length_cons,length_cons] at hfuel hroom hstop
    obtain ⟨fuel,rfl⟩ := exists_fuel fuel
    obtain ⟨e₁,hput,h₁⟩ := putAll_holds (bytes_lt (combine_le hpair.1 hpair.2)) h (by omega)
    obtain ⟨e₂,hloop,h₂,hlen₂⟩ := ih (drop_succ (drop_succ hread))
      (fun w hw => hunits w (by simp [hw])) hlast' (by omega) (show us.length ≤ fuel by omega) h₁
      (by rw [length_append]; omega)
    refine ⟨e₂,?_,?_,?_⟩
    · rw [fillLoop_lead (by omega) hread hv hpair.1 (by rw [h.index,h.length]; omega),
        if_pos hpair.2,hput,except_ok_bind,hloop]
    · rwa [runes,if_pos hpair,flatMap_cons,← append_assoc]
    · rw [runes,if_pos hpair,flatMap_cons,length_append,length_cons,length_cons]
      omega
  | case4 u v us hpair ih =>
    have hu := hunits u (by simp)
    have hv := hunits v (by simp)
    have hlen := length_bytes_le hu
    have hlast' : EndsWell size (out ++ bytes u) (v :: us) after := by
      intro w hw hlead
      have hend := hlast w (by simpa using hw) hlead
      rw [length_cons] at hend
      rw [length_append]
      exact ⟨hend.1,by omega⟩
    rw [length_cons] at hfuel hroom hstop
    obtain ⟨fuel,rfl⟩ := exists_fuel fuel
    have hus : 1 ≤ (v :: us).length := by simp
    obtain ⟨e₁,hput,h₁⟩ := putAll_holds (bytes_lt (hu.trans (by decide))) h (by omega)
    obtain ⟨e₂,hloop,h₂,hlen₂⟩ := ih (drop_succ hread)
      (fun w hw => hunits w (mem_cons_of_mem _ hw)) hlast' (by omega)
      (show (v :: us).length ≤ fuel by omega) h₁ (by rw [length_append]; omega)
    have hround : fillLoop str stop (fuel+1) i e =
        e.putAll (bytes u) >>= fillLoop str stop fuel (i+1) := by
      refine fillLoop_alone (by omega) hread hu (by rw [h.index,h.length]; omega) fun hlead => ?_
      exact ⟨⟨v,_,rfl,hv,fun htail => hpair ⟨hlead,htail⟩⟩,by rw [h.index,h.length]; omega⟩
    refine ⟨e₂,by rw [hround,hput,except_ok_bind,hloop],?_,?_⟩
    · rwa [runes,if_neg hpair,flatMap_cons,← append_assoc]
    · rw [runes,if_neg hpair,flatMap_cons,length_append,length_cons]
      omega

end Encoder

lemma checkValidRange_some {start stop length : ℕ} (h : start ≤ stop) (hstop : stop ≤ length) :
    checkValidRange start (some stop) length = .ok stop := by
  rw [checkValidRange,if_neg (by omega)]
  simp [h,hstop]

/-- The last code unit is kept out of the loop exactly when it is a lead surrogate. -/
lemma Encoder.fillBuffer_eq {string init after : List ℕ} {start stop x : ℕ} (e : Encoder)
    (hread : string.drop start = init ++ x :: after) (hstop : stop = start+init.length+1)
    (hx : x ≤ 0xFFFF) : e.fillBuffer string start stop =
      if IsLead x then fillLoop string (stop-1) init.length start e
      else fillLoop string stop (init.length+1) start e := by
  have hlast : string.drop (stop-1) = x :: after := by
    rw [hstop,Nat.add_sub_cancel,← drop_drop,hread,drop_left]
  rw [fillBuffer,if_pos (by omega),codeUnitAt_drop hlast]
  simp only [Functor.map,Except.map,except_ok_bind,isLeadSurrogate_iff hx]
  split_ifs
  · rw [show stop-1-start = init.length by omega]
  · rw [show stop-start = init.length+1 by omega]

/-- The encoder writes the bytes of the runes of the substring, inside of its buffer. -/
lemma Utf8Encoder.convert_runes {string : List ℕ} {start stop : ℕ}
    (hunits : ∀ u ∈ string, u ≤ 0xFFFF) (h : start ≤ stop) (hstop : stop ≤ string.length) :
    convert string start (some stop) =
      .ok ((runes ((string.drop start).take (stop-start))).flatMap bytes) := by
  rw [convert,checkValidRange_some h hstop,except_ok_bind]
  dsimp only
  by_cases hzero : stop-start = 0
  · simp [hzero]
    rfl
  obtain ⟨init,x,hinit⟩ : ∃ init x, (string.drop start).take (stop-start) = init ++ [x] := by
    refine ⟨_,_,(dropLast_append_getLast fun hnil => ?_).symm⟩
    have hlen := congrArg length hnil
    simp only [length_take,length_drop,length_nil] at hlen
    omega
  have hread : string.drop start = init ++ x :: (string.drop start).drop (stop-start) := by
    rw [← singleton_append,← append_assoc,← hinit,take_append_drop]
  have hlength : stop-start = init.length+1 := by
    have hlen := congrArg length hinit
    simp only [length_take,length_drop,length_append,length_singleton] at hlen
    omega
  have hmem : ∀ u ∈ init ++ [x], u ≤ 0xFFFF := fun u hu =>
    hunits u (mem_of_mem_drop (mem_of_mem_take (hinit ▸ hu)))
  have hx : x ≤ 0xFFFF := hmem x (by simp)
  generalize (string.drop start).drop (stop-start) = after at hread
  rw [if_neg hzero,fillBuffer_eq _ hread (by omega) hx,hinit]
  have hnew := withBufferSize_holds ((stop-start)*3)
  by_cases hlead : IsLead x
  · have htail : ¬IsTail x := fun htail => absurd htail.1 (not_le_of_gt hlead.2)
    obtain ⟨e₁,hloop,h₁,hlen⟩ := fillLoop_runes hread
      (fun u hu => hmem u (mem_append_left _ hu))
      (fun u _ _ => ⟨⟨x,after,rfl,hx,htail⟩,by rw [length_nil]; omega⟩)
      (show stop-1 = start+init.length by omega) le_rfl hnew
      (by rw [length_nil]; omega)
    have hbytes := length_bytes_le hx
    obtain ⟨e₂,hput,h₂⟩ := putAll_holds (bytes_lt (hx.trans (by decide))) h₁
      (by rw [nil_append]; omega)
    have hlast : string.drop (stop-1) = x :: after := by
      rw [show stop-1 = start+init.length by omega,← drop_drop,hread,drop_left]
    rw [if_pos hlead,hloop,except_ok_bind]
    rw [if_pos (by omega),codeUnitAt_drop hlast,except_ok_bind,
      writeSurrogate_eq hlead (by omega),if_neg (by decide),hput,
      runes_append_singleton htail,flatMap_append,flatMap_singleton]
    exact congrArg Except.ok h₂.written
  · obtain ⟨e₁,hloop,h₁, -⟩ := fillLoop_runes
      (by simpa using hread) hmem
      (fun u hu hu' => by simp at hu; exact absurd (hu ▸ hu') hlead)
      (show stop = start+(init ++ [x]).length by simp; omega)
      (show _ ≤ init.length+1 by simp) hnew (by simp; omega)
    rw [if_neg hlead,hloop,except_ok_bind]
    rw [if_neg (by simp)]
    exact congrArg Except.ok h₁.written

lemma Utf8Encoder.convert_all {string : List ℕ} (hunits : ∀ u ∈ string, u ≤ 0xFFFF) :
    convert string 0 none = .ok ((runes string).flatMap bytes) := by
  have hwhole := convert_runes hunits (Nat.zero_le _) le_rfl
  rw [drop_zero,Nat.sub_zero,take_length] at hwhole
  have hrange : checkValidRange 0 none string.length =
      checkValidRange 0 (some string.length) string.length := by
    rw [checkValidRange_some (Nat.zero_le _) le_rfl,checkValidRange,if_neg (by omega)]
  rw [← hwhole,convert,convert,hrange]

end DartSdk.Convert
