import DartSdk.UriNormalizeExact

/-! Letters of either case are read alike in an address, and an address has no bracket. -/
namespace DartSdk.Uri

open List Option IntParse
open Outcome (ok_bind bind_eq_ok)

variable (s : Text)

lemma toLowerCase_eq : toLowerCase s = s.map lowerChar := rfl

/-- What does not tell letters of either case apart below the lower case does not at all. -/
lemma lowerChar_invariant {α : Type*} {f : ℕ → α} (h : ∀ c < 0x5B, f (lowerChar c) = f c) (c : ℕ) :
    f (lowerChar c) = f c := by
  by_cases hc : c < 0x5B
  · exact h c hc
  · have hupper : isUpper c = false := by
      simp only [isUpper,Bool.and_eq_false_iff,decide_eq_false_iff_not]
      omega
    rw [lowerChar_of_not_upper hupper]

lemma isWhitespace_lower (c : ℕ) : isWhitespace (lowerChar c) = isWhitespace c :=
  lowerChar_invariant (by decide +kernel) c

lemma digit_lower {radix : ℕ} (hradix : radix = 10 ∨ radix = 16) (c : ℕ) :
    digit radix (lowerChar c) = digit radix c := by
  obtain rfl | rfl := hradix
  · exact lowerChar_invariant (by decide +kernel) c
  · exact lowerChar_invariant (by decide +kernel) c

/-- A character that is no letter is not the lower case of another one. -/
lemma lowerChar_eq_iff {c d : ℕ} (hd : d < 0x41 ∨ (0x5A < d ∧ d < 0x61)) : lowerChar c = d ↔ c = d := by
  unfold lowerChar isUpper
  split_ifs with hupper
  · simp only [Bool.and_eq_true,decide_eq_true_eq] at hupper
    omega
  · rfl

lemma trim_lower : trim (s.map lowerChar) = (trim s).map lowerChar := by
  have hcomp : isWhitespace ∘ lowerChar = isWhitespace := funext isWhitespace_lower
  rw [trim,trim,dropWhile_map,hcomp,rdropWhile,rdropWhile,← map_reverse,
    dropWhile_map,hcomp,map_reverse]

lemma splitSign_lower :
    splitSign (s.map lowerChar) = ((splitSign s).1,(splitSign s).2.map lowerChar) := by
  cases s with
  | nil => rfl
  | cons c s =>
    by_cases hplus : c = 0x2B
    · subst hplus
      rfl
    by_cases hminus : c = 0x2D
    · subst hminus
      rfl
    have hplus' := mt (lowerChar_eq_iff (by omega)).1 hplus
    have hminus' := mt (lowerChar_eq_iff (by omega)).1 hminus
    rw [map_cons]
    unfold splitSign
    split
    · rename_i heq
      exact absurd (cons.inj heq).1 hplus'
    · rename_i heq
      exact absurd (cons.inj heq).1 hminus'
    · split
      · rename_i heq
        exact absurd (cons.inj heq).1 hplus
      · rename_i heq
        exact absurd (cons.inj heq).1 hminus
      · rfl

lemma parseRadix_lower {radix : ℕ} (hradix : radix = 10 ∨ radix = 16) (s : Text) :
    parseRadix radix (s.map lowerChar) = parseRadix radix s := by
  unfold parseRadix
  rw [foldlM_map]
  simp [digit_lower hradix]

lemma parseInRadix_lower : parseInRadix 16 (s.map lowerChar) = parseInRadix 16 s := by
  unfold parseInRadix
  rw [trim_lower,splitSign_lower]
  dsimp only
  rw [isEmpty_map,parseRadix_lower (.inr rfl)]

lemma parseTrimmed_eq : parseTrimmed s = if (splitSign s).2 = [] then none
    else if (splitSign s).2 = [0x30] then some 0
    else if (splitSign s).2[0]? = some 0x30 ∧ ((splitSign s).2[1]?.map fun c => c ||| 0x20) = some 0x78 then
      if ((splitSign s).2.drop 2).isEmpty then none
      else (parseRadix 16 ((splitSign s).2.drop 2)).map fun n : ℕ => (splitSign s).1*(n : ℤ)
    else (parseRadix 10 (splitSign s).2).map fun n : ℕ => (splitSign s).1*(n : ℤ) := by
  unfold parseTrimmed
  generalize splitSign s = signed
  obtain ⟨sign,s⟩ := signed
  dsimp only
  split
  · rfl
  · rfl
  · simp
  · rename_i hnil hzero hmark
    have hfirst : ¬(s[0]? = some 0x30 ∧ (s[1]?.map fun c => c ||| 0x20) = some 0x78) := by
      rintro ⟨h0,h1⟩
      match s, h0, h1 with
      | c :: d :: rest, h0, h1 =>
        cases h0
        exact hmark d rest rfl
    rw [if_neg hnil,if_neg hzero,if_neg hfirst]

lemma parseTrimmed_lower : parseTrimmed (s.map lowerChar) = parseTrimmed s := by
  have hmark : ∀ c, lowerChar c ||| 0x20 = c ||| 0x20 :=
    lowerChar_invariant (f := fun c => c ||| 0x20) (by decide +kernel)
  rw [parseTrimmed_eq,parseTrimmed_eq,splitSign_lower]
  generalize splitSign s = signed
  obtain ⟨sign,s⟩ := signed
  have hzero : s.map lowerChar = [0x30] ↔ s = [0x30] := by
    cases s with
    | nil => simp
    | cons c s => simp [lowerChar_eq_iff (d := 0x30) (by omega)]
  have hfirst : (s.map lowerChar)[0]? = some 0x30 ↔ s[0]? = some 0x30 := by
    cases s with
    | nil => simp
    | cons c s => simp [lowerChar_eq_iff (d := 0x30) (by omega)]
  have hsecond : ((s.map lowerChar)[1]?.map fun c => c ||| 0x20) = s[1]?.map fun c => c ||| 0x20 := by
    rw [getElem?_map,Option.map_map]
    exact congrArg (fun g => s[1]?.map g) (funext hmark)
  simp only [map_eq_nil_iff,hzero,hfirst,hsecond,← map_drop,isEmpty_map,
    parseRadix_lower (.inl rfl),parseRadix_lower (.inr rfl)]

lemma parse_lower : parse (s.map lowerChar) = parse s := by
  have hsmi : tryParseSmi (s.map lowerChar) = tryParseSmi s := by
    unfold tryParseSmi
    rw [splitSign_lower]
    dsimp only
    rw [isEmpty_map,length_map,parseRadix_lower (.inl rfl)]
  unfold parse
  rw [isEmpty_map,hsmi,trim_lower,parseTrimmed_lower]

lemma lowerChar_eq_colon (c : ℕ) : lowerChar c = charColon ↔ c = charColon :=
  lowerChar_eq_iff (by decide)

lemma parseHex_lower (part : Text) : parseHex (part.map lowerChar) = parseHex part := by
  unfold parseHex
  rw [length_map,parseInRadix_lower]

lemma parseIPv4Address_lower (host : Text) :
    parseIPv4Address (host.map lowerChar) = parseIPv4Address host := by
  have hsplit : (host.map lowerChar).splitOn charDot = (host.splitOn charDot).map (map lowerChar) := by
    induction host with
    | nil => rfl
    | cons c host ih =>
      rw [map_cons,splitOn_cons_eq_if_modifyHead,splitOn_cons_eq_if_modifyHead,ih]
      have hdot : (lowerChar c == charDot) = (c == charDot) := by
        rw [Bool.eq_iff_iff,beq_iff_eq,beq_iff_eq,lowerChar_eq_iff (by decide)]
      rw [hdot]
      split_ifs
      · rfl
      · cases host.splitOn charDot <;> rfl
  have hbyte : parseIPv4Byte ∘ map lowerChar = parseIPv4Byte := by
    funext s
    rw [Function.comp_apply,parseIPv4Byte,parseIPv4Byte,parse_lower]
  unfold parseIPv4Address
  dsimp only
  rw [hsplit,length_map,mapM_map,hbyte]

lemma lastParts_lower (part : Text) : lastParts (part.map lowerChar) = lastParts part := by
  rw [lastParts,lastParts,parseHex_lower,parseIPv4Address_lower]

/-- The parts are the same, and what follows is in lower case. -/
lemma scanParts_lower (address part : Text) (parts : List ℤ) (seen : Bool) :
    scanParts (address.map lowerChar) (part.map lowerChar) parts seen =
      (scanParts address part parts seen).map fun r => (r.1,r.2.1,r.2.2.map lowerChar) := by
  induction address generalizing part parts seen with
  | nil => rfl
  | cons c address ih =>
    rw [map_cons,scanParts,scanParts]
    simp only [lowerChar_eq_colon,isEmpty_map]
    split_ifs
    · rfl
    · exact ih [] _ _
    · rw [parseHex_lower]
      cases parseHex part with
      | error f => rfl
      | ok value => exact ih [] _ _
    · have h := ih (part ++ [c]) parts seen
      rwa [map_append] at h

lemma scanAddress_lower (address : Text) : scanAddress (address.map lowerChar) =
      (scanAddress address).map fun r => (r.1,r.2.1,r.2.2.map lowerChar) := by
  cases address with
  | nil => rfl
  | cons c rest =>
    rw [map_cons,scanAddress,scanAddress]
    have hhead : (rest.map lowerChar).head? = some charColon ↔ rest.head? = some charColon := by
      cases rest with
      | nil => simp
      | cons d rest => simp [lowerChar_eq_colon]
    simp only [Ne,hhead,lowerChar_eq_colon]
    split_ifs
    · exact scanParts_lower rest [] [] false
    · rfl
    · exact scanParts_lower (c :: rest) [] [] false

lemma parseIPv6Address_lower (n : ℕ) (address : Text) :
    parseIPv6Address n (toLowerCase address) = parseIPv6Address n address := by
  unfold parseIPv6Address
  rw [toLowerCase_eq,scanAddress_lower]
  cases scanAddress address with
  | error f => rfl
  | ok r =>
    obtain ⟨parts,seen,part⟩ := r
    simp [Except.map,ok_bind,lastParts_lower]

section Brackets

variable {s part address : Text}

lemma mem_dropWhile {p : ℕ → Bool} {c : ℕ} (h : c ∈ s) (hc : p c = false) : c ∈ s.dropWhile p := by
  rw [← takeWhile_append_dropWhile (l := s),mem_append] at h
  refine h.resolve_left fun hmem => ?_
  rw [mem_takeWhile_imp hmem] at hc
  cases hc

lemma mem_trim {c : ℕ} (h : c ∈ s) (hc : isWhitespace c = false) : c ∈ trim s := by
  rw [trim,rdropWhile,mem_reverse]
  exact mem_dropWhile (mem_reverse.2 (mem_dropWhile h hc)) hc

lemma mem_splitSign {c : ℕ} (h : c ∈ s) (hplus : c ≠ 0x2B) (hminus : c ≠ 0x2D) : c ∈ (splitSign s).2 := by
  unfold splitSign
  split
  · exact (mem_cons.1 h).resolve_left hplus
  · exact (mem_cons.1 h).resolve_left hminus
  · exact h

lemma digit_of_parseRadix {radix n c : ℕ} (h : parseRadix radix s = some n) (hc : c ∈ s) :
    digit radix c ≠ none := by
  induction s using reverseRecOn generalizing n with
  | nil => cases hc
  | append_singleton s d ih =>
    unfold parseRadix at h ih
    rw [foldlM_append,bind_eq_bind,bind_eq_some_iff] at h
    obtain ⟨m,hm,hlast⟩ := h
    obtain hmem | hmem := mem_append.1 hc
    · exact ih hm hmem
    · obtain rfl := mem_singleton.1 hmem
      intro hnone
      simp [hnone] at hlast

lemma bracket_notMem_digits {radix n : ℕ} (hradix : radix = 10 ∨ radix = 16)
    (h : parseRadix radix s = some n) : charRightBracket ∉ s := by
  intro hmem
  have hdigit := digit_of_parseRadix h hmem
  obtain rfl | rfl := hradix
  · exact hdigit (by decide)
  · exact hdigit (by decide)

lemma bracket_notMem_sign (h : charRightBracket ∉ (splitSign s).2) : charRightBracket ∉ s :=
  fun hmem => h (mem_splitSign hmem (by decide) (by decide))

lemma bracket_notMem_trim (h : charRightBracket ∉ trim s) : charRightBracket ∉ s :=
  fun hmem => h (mem_trim hmem (by decide))

lemma bracket_notMem_parseInRadix {v : ℤ} (h : parseInRadix 16 s = some v) : charRightBracket ∉ s := by
  unfold parseInRadix at h
  dsimp only at h
  split_ifs at h with hempty
  obtain ⟨n,hn, -⟩ := map_eq_some_iff.1 h
  exact bracket_notMem_trim (bracket_notMem_sign (bracket_notMem_digits (.inr rfl) hn))

lemma bracket_notMem_parseTrimmed {v : ℤ} (h : parseTrimmed s = some v) : charRightBracket ∉ s := by
  refine bracket_notMem_sign ?_
  rw [parseTrimmed_eq] at h
  generalize splitSign s = signed at h ⊢
  obtain ⟨sign,s⟩ := signed
  split_ifs at h with hnil hzero hmark hempty
  · rw [hzero]
    decide
  · obtain ⟨n,hn, -⟩ := map_eq_some_iff.1 h
    have htail := bracket_notMem_digits (.inr rfl) hn
    match s, hmark, htail with
    | c :: d :: rest, hmark, htail =>
      obtain ⟨hc,hd⟩ := hmark
      rw [mem_cons,mem_cons,not_or,not_or]
      refine ⟨?_,?_,htail⟩
      · rintro rfl
        cases hc
      · rintro rfl
        exact absurd (some_inj.1 hd) (by decide)
  · obtain ⟨n,hn, -⟩ := map_eq_some_iff.1 h
    exact bracket_notMem_digits (.inl rfl) hn

lemma bracket_notMem_parse {v : ℤ} (h : parse s = some v) : charRightBracket ∉ s := by
  unfold parse at h
  split_ifs at h with hempty
  cases hsmi : tryParseSmi s with
  | none =>
    rw [hsmi] at h
    exact bracket_notMem_trim (bracket_notMem_parseTrimmed h)
  | some w =>
    unfold tryParseSmi at hsmi
    dsimp only at hsmi
    split_ifs at hsmi
    obtain ⟨n,hn, -⟩ := map_eq_some_iff.1 hsmi
    exact bracket_notMem_sign (bracket_notMem_digits (.inl rfl) hn)

lemma bracket_notMem_parseHex {v : ℤ} (h : parseHex part = .ok v) : charRightBracket ∉ part := by
  unfold parseHex at h
  split_ifs at h
  cases hparse : parseInRadix 16 part with
  | none =>
    rw [hparse] at h
    cases h
  | some w => exact bracket_notMem_parseInRadix hparse

lemma exists_mem_splitOn {c d : ℕ} (h : c ∈ s) (hne : c ≠ d) : ∃ piece ∈ s.splitOn d, c ∈ piece := by
  induction s with
  | nil => cases h
  | cons e s ih =>
    rw [splitOn_cons_eq_if_modifyHead]
    split_ifs with hsep
    · obtain rfl | h := mem_cons.1 h
      · exact absurd (eq_of_beq hsep) hne
      · obtain ⟨piece,hmem,hc⟩ := ih h
        exact ⟨piece,mem_cons_of_mem _ hmem,hc⟩
    · obtain ⟨first,rest,hsplit⟩ := exists_cons_of_ne_nil (splitOn_ne_nil d s)
      rw [hsplit] at ih ⊢
      obtain rfl | h := mem_cons.1 h
      · exact ⟨c :: first,mem_cons_self,mem_cons_self⟩
      · obtain ⟨piece,hmem,hc⟩ := ih h
        obtain rfl | hmem := mem_cons.1 hmem
        · exact ⟨e :: piece,mem_cons_self,mem_cons_of_mem _ hc⟩
        · exact ⟨piece,mem_cons_of_mem _ hmem,hc⟩

lemma ok_of_mapM {α β : Type} {f : α → Except Failure β} {l : List α} {r : List β} (h : l.mapM f = .ok r) :
    ∀ a ∈ l, ∃ b, f a = .ok b := by
  induction l generalizing r with
  | nil => nofun
  | cons a l ih =>
    rw [mapM_cons] at h
    obtain ⟨b,hb,h⟩ := bind_eq_ok h
    obtain ⟨bs,hbs, -⟩ := bind_eq_ok h
    intro x hx
    obtain rfl | hx := mem_cons.1 hx
    · exact ⟨b,hb⟩
    · exact ih hbs x hx

lemma bracket_notMem_parseIPv4Address {bytes : List ℤ} (h : parseIPv4Address s = .ok bytes) :
    charRightBracket ∉ s := by
  intro hmem
  obtain ⟨piece,hpiece,hc⟩ := exists_mem_splitOn hmem (show charRightBracket ≠ charDot by decide)
  unfold parseIPv4Address at h
  dsimp only at h
  split_ifs at h
  obtain ⟨b,hb⟩ := ok_of_mapM h piece hpiece
  unfold parseIPv4Byte at hb
  cases hparse : parse piece with
  | none =>
    rw [hparse] at hb
    cases hb
  | some w => exact bracket_notMem_parse hparse hc

lemma bracket_notMem_lastParts {parts : List ℤ} (h : lastParts part = .ok parts) :
    charRightBracket ∉ part := by
  unfold lastParts at h
  cases hhex : parseHex part with
  | ok v => exact bracket_notMem_parseHex hhex
  | error f =>
    rw [hhex] at h
    cases hip : parseIPv4Address part with
    | ok bytes => exact bracket_notMem_parseIPv4Address hip
    | error g =>
      rw [hip] at h
      cases h

lemma bracket_notMem_scanParts {parts : List ℤ} {seen : Bool} {r : List ℤ × Bool × Text}
    (h : scanParts address part parts seen = .ok r) (hr : charRightBracket ∉ r.2.2) :
    charRightBracket ∉ address ∧ charRightBracket ∉ part := by
  induction address generalizing part parts seen with
  | nil =>
    cases h
    exact ⟨not_mem_nil,hr⟩
  | cons c address ih =>
    rw [scanParts] at h
    rw [mem_cons,not_or]
    split_ifs at h with hcolon hempty hseen
    · obtain ⟨haddress, -⟩ := ih h
      rw [isEmpty_iff.1 hempty,hcolon]
      exact ⟨⟨by decide,haddress⟩,not_mem_nil⟩
    · obtain ⟨v,hhex,h⟩ := bind_eq_ok h
      obtain ⟨haddress, -⟩ := ih h
      rw [hcolon]
      exact ⟨⟨by decide,haddress⟩,bracket_notMem_parseHex hhex⟩
    · obtain ⟨haddress,hpart⟩ := ih h
      rw [mem_append,mem_singleton,not_or] at hpart
      exact ⟨⟨hpart.2,haddress⟩,hpart.1⟩

lemma bracket_notMem_scanAddress {r : List ℤ × Bool × Text} (h : scanAddress address = .ok r)
    (hr : charRightBracket ∉ r.2.2) : charRightBracket ∉ address := by
  cases address with
  | nil => exact not_mem_nil
  | cons c rest =>
    rw [scanAddress] at h
    split_ifs at h with hcolon hnext
    · rw [mem_cons,not_or,hcolon]
      exact ⟨by decide,(bracket_notMem_scanParts h hr).1⟩
    · exact (bracket_notMem_scanParts h hr).1

lemma bracket_notMem_parseIPv6Address {n : ℕ} {bytes : List ℤ}
    (h : parseIPv6Address n address = .ok bytes) : charRightBracket ∉ address := by
  unfold parseIPv6Address at h
  split_ifs at h with hshort
  obtain ⟨⟨parts,seen,part⟩,hscan,h⟩ := bind_eq_ok h
  refine bracket_notMem_scanAddress hscan ?_
  by_cases hempty : part.isEmpty = true
  · rw [isEmpty_iff.1 hempty]
    exact not_mem_nil
  · dsimp only at h
    rw [if_neg hempty] at h
    split_ifs at h
    obtain ⟨last,hlast, -⟩ := bind_eq_ok h
    exact bracket_notMem_lastParts hlast

/-- The length of the whole text only has to be two. -/
lemma parseIPv6Address_length {m n : ℕ} {bytes : List ℤ} (h : parseIPv6Address n address = .ok bytes)
    (hm : 2 ≤ m) : parseIPv6Address m address = .ok bytes := by
  unfold parseIPv6Address at h ⊢
  rw [if_neg (by omega)]
  split_ifs at h
  exact h

end Brackets

end DartSdk.Uri
