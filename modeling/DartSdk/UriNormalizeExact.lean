import DartSdk.Iteration
import DartSdk.UriNormalize

/-! What the normalization of a component reads and writes, and that it leaves normal text as it is.
-/
namespace DartSdk.Uri

open List Nat
open Outcome (ok_bind)

/-- The digits of an escape that is kept. -/
structure KeptEscape (a b : ℕ) : Prop where
  first : isHexDigit a = true
  second : isHexDigit b = true
  first_upper : a < 0x61
  second_upper : b < 0x61
  reserved : isUnreservedChar (hexValue a*16+hexValue b) = false

lemma isHexDigit_lt {a : ℕ} (h : isHexDigit a = true) : a < 0x67 := by
  unfold isHexDigit at h
  split_ifs at h with hle
  · omega
  · simp only [Bool.and_eq_true,decide_eq_true_eq] at h
    have hor : a ≤ a ||| 0x20 := left_le_or
    omega

lemma isUnreservedChar_lt {c : ℕ} (h : isUnreservedChar c = true) : c < 127 := by
  simp only [isUnreservedChar,inTableBelow,Bool.and_eq_true,decide_eq_true_eq] at h
  exact h.1

lemma escapeByte_kept {b : ℕ} (hb : b < 256) (hr : isUnreservedChar b = false) :
    ∃ x y, escapeByte b = [charPercent,x,y] ∧ KeptEscape x y := by
  have hall : ∀ b < 256, isHexDigit (hexDigits.getD (b >>> 4) 0) = true ∧
      isHexDigit (hexDigits.getD (b &&& 0x0F) 0) = true ∧ hexDigits.getD (b >>> 4) 0 < 0x61 ∧
      hexDigits.getD (b &&& 0x0F) 0 < 0x61 ∧
      hexValue (hexDigits.getD (b >>> 4) 0)*16+hexValue (hexDigits.getD (b &&& 0x0F) 0) = b := by
    decide +kernel
  obtain ⟨h1,h2,h3,h4,hvalue⟩ := hall b hb
  exact ⟨_,_,rfl,⟨h1,h2,h3,h4,by rw [hvalue]; exact hr⟩⟩

lemma toUpperCase_hex {a b : ℕ} (ha : isHexDigit a = true) (hb : isHexDigit b = true)
    (hr : isUnreservedChar (hexValue a*16+hexValue b) = false) :
    ∃ x y, toUpperCase [charPercent,a,b] = [charPercent,x,y] ∧ KeptEscape x y := by
  have hall : ∀ a < 0x67, isHexDigit a = true →
      isHexDigit (if isLower a then a-0x20 else a) = true ∧ (if isLower a then a-0x20 else a) < 0x61 ∧
        hexValue (if isLower a then a-0x20 else a) = hexValue a := by
    decide +kernel
  obtain ⟨ha1,ha2,ha3⟩ := hall a (isHexDigit_lt ha) ha
  obtain ⟨hb1,hb2,hb3⟩ := hall b (isHexDigit_lt hb) hb
  exact ⟨_,_,rfl,⟨ha1,hb1,ha2,hb2,by rw [ha3,hb3]; exact hr⟩⟩

lemma unreserved_decoded {v : ℕ} (h : isUnreservedChar v = true) (lowerCase : Bool) :
    isUnreservedChar (if lowerCase && isUpper v then v ||| 0x20 else v) = true ∧
      (lowerCase = true → isUpper (if lowerCase && isUpper v then v ||| 0x20 else v) = false) := by
  have hall : ∀ lowerCase : Bool, ∀ v < 127, isUnreservedChar v = true →
      isUnreservedChar (if lowerCase && isUpper v then v ||| 0x20 else v) = true ∧
        (lowerCase = true → isUpper (if lowerCase && isUpper v then v ||| 0x20 else v) = false) := by
    decide +kernel
  exact hall lowerCase v (isUnreservedChar_lt h) h

/-- What the normalization of an escape can give. -/
lemma normalizeEscape_cases (rest : Text) (lowerCase : Bool) :
    (normalizeEscape (charPercent :: rest) lowerCase = some [charPercent]) ∨
    (∃ a b tail, rest = a :: b :: tail ∧ KeptEscape a b ∧
      normalizeEscape (charPercent :: rest) lowerCase = none) ∨
    (∃ a b tail x y, rest = a :: b :: tail ∧ isHexDigit a = true ∧ isHexDigit b = true ∧ KeptEscape x y ∧
      normalizeEscape (charPercent :: rest) lowerCase = some [charPercent,x,y]) ∨
    ∃ a b tail c, rest = a :: b :: tail ∧ isHexDigit a = true ∧ isHexDigit b = true ∧
      isUnreservedChar c = true ∧ (lowerCase = true → isUpper c = false) ∧
      normalizeEscape (charPercent :: rest) lowerCase = some [c] := by
  match rest with
  | [] => exact .inl rfl
  | [a] => exact .inl rfl
  | a :: b :: tail =>
    by_cases hhex : isHexDigit a = true ∧ isHexDigit b = true
    · obtain ⟨ha,hb⟩ := hhex
      by_cases hr : isUnreservedChar (hexValue a*16+hexValue b) = true
      · obtain ⟨hdecoded,hcase⟩ := unreserved_decoded hr lowerCase
        refine .inr (.inr (.inr ⟨a,b,tail,_,rfl,ha,hb,hdecoded,hcase,?_⟩))
        simp [normalizeEscape,ha,hb,hr,Bool.not_true,Bool.or_self,Bool.false_eq_true]
      · rw [Bool.not_eq_true] at hr
        by_cases hlower : a ≥ 0x61 ∨ b ≥ 0x61
        · obtain ⟨x,y,hupper,hkept⟩ := toUpperCase_hex ha hb hr
          refine .inr (.inr (.inl ⟨a,b,tail,x,y,rfl,ha,hb,hkept,?_⟩))
          simp [normalizeEscape,ha,hb,hr,Bool.not_true,Bool.or_self,Bool.false_eq_true,
            if_pos hlower,hupper]
        · refine .inr (.inl ⟨a,b,tail,rfl,⟨ha,hb,by omega,by omega,hr⟩,?_⟩)
          simp [normalizeEscape,ha,hb,hr,Bool.not_true,Bool.or_self,Bool.false_eq_true,
            if_neg hlower]
    · left
      have hnot : (!isHexDigit a || !isHexDigit b) = true := by
        rw [not_and_or] at hhex
        simpa using hhex
      simp [normalizeEscape,hnot]

lemma escapeBytes_flag {x flag : ℕ} (hflag : flag = 0x80 ∨ flag = 0xC0 ∨ flag = 0xE0 ∨ flag = 0xF0) :
    (x &&& 0x3F) ||| flag < 256 ∧ isUnreservedChar ((x &&& 0x3F) ||| flag) = false := by
  have hlt : x &&& 0x3F < 64 := lt_of_le_of_lt and_le_right (by decide)
  have hall : ∀ y < 64, ∀ f ∈ [0x80,0xC0,0xE0,0xF0], y ||| f < 256 ∧
      isUnreservedChar (y ||| f) = false := by
    decide +kernel
  exact hall _ hlt flag (by simpa using hflag)

lemma codePoint_cases (char : ℕ) (rest : Text) : codePoint char rest = (char,1) ∨ ∃ tail rest',
      rest = tail :: rest' ∧ 0x80 ≤ tail ∧ 0x10000 ≤ (codePoint char rest).1 ∧
      (codePoint char rest).2 = 2 := by
  unfold codePoint
  split_ifs with hlead
  · match rest with
    | [] => exact .inl rfl
    | tail :: rest' =>
      dsimp only
      split_ifs with htail
      · refine .inr ⟨tail,rest',rfl,?_,?_,rfl⟩
        · have hle : tail &&& 0xFC00 ≤ tail := and_le_left
          omega
        · exact left_le_or.trans left_le_or
      · exact .inl rfl
  · exact .inl rfl

/-- Text of characters that are kept and of escapes that are kept. -/
inductive NormalText (keep : ℕ → Bool) : Text → Prop
  | nil : NormalText keep []
  | char {c : ℕ} {t : Text} (hc : keep c = true) (hp : c ≠ charPercent) (h : NormalText keep t) :
      NormalText keep (c :: t)
  | escape {a b : ℕ} {t : Text} (he : KeptEscape a b) (h : NormalText keep t) :
      NormalText keep (charPercent :: a :: b :: t)

/-- The normalization of a text, character by character: what is read has no slash unless it is
kept. -/
inductive Normalizes (keep : ℕ → Bool) (put : ℕ → ℕ) : Text → Text → Prop
  | nil : Normalizes keep put [] []
  | char {c : ℕ} {s t : Text} (hc : keep c = true) (hp : c ≠ charPercent)
      (h : Normalizes keep put s t) : Normalizes keep put (c :: s) (put c :: t)
  | escape {a b : ℕ} {r s t : Text} (hr : charSlash ∉ r) (he : KeptEscape a b)
      (h : Normalizes keep put s t) : Normalizes keep put (r ++ s) (charPercent :: a :: b :: t)
  | unreserved {c : ℕ} {r s t : Text} (hr : charSlash ∉ r) (hc : isUnreservedChar c = true)
      (hput : put c = c) (h : Normalizes keep put s t) : Normalizes keep put (r ++ s) (c :: t)

section Rounds

variable {keep : ℕ → Bool} {put : ℕ → ℕ} {r s t : Text}

variable (h : Normalizes keep put s t) (hr : charSlash ∉ r)
include h hr

lemma Normalizes.escapeByte {b : ℕ} (hb : b < 256)
    (hreserved : isUnreservedChar b = false) : Normalizes keep put (r ++ s) (escapeByte b ++ t) := by
  obtain ⟨x,y,hbyte,hkept⟩ := escapeByte_kept hb hreserved
  rw [hbyte]
  exact .escape hr hkept h

lemma Normalizes.escapeBytes {char n flag : ℕ}
    (hflag : flag = 0x80 ∨ flag = 0xC0 ∨ flag = 0xE0 ∨ flag = 0xF0) :
    Normalizes keep put (r ++ s) (escapeBytes char (n+1) flag ++ t) := by
  obtain ⟨hlt,hreserved⟩ := escapeBytes_flag (x := char >>> (6*n)) hflag
  induction n generalizing flag r with
  | zero =>
    rw [Uri.escapeBytes,Uri.escapeBytes,append_nil]
    exact h.escapeByte hr hlt hreserved
  | succ n ih =>
    obtain ⟨hlt',hreserved'⟩ := @escapeBytes_flag (char >>> (6*n)) 0x80 (.inl rfl)
    rw [Uri.escapeBytes,append_assoc]
    exact (ih not_mem_nil (.inl rfl) hlt' hreserved').escapeByte hr hlt hreserved

/-- A character that is not allowed is written as escapes. -/
lemma Normalizes.escapeChar {char : ℕ}
    (hchar : isUnreservedChar char = false) : Normalizes keep put (r ++ s) (escapeChar char ++ t) := by
  unfold Uri.escapeChar
  split_ifs with hascii
  · exact h.escapeByte hr (by omega) hchar
  · exact h.escapeBytes hr (by simp)
  · exact h.escapeBytes hr (by simp)
  · exact h.escapeBytes hr (by simp)

end Rounds

@[simp] lemma written_some (buffer t : Text) : written (some buffer) t = buffer ++ t := rfl

lemma written_append (buffer : Option Text) (t u : Text) :
    written buffer (t ++ u) = written buffer t ++ u :=
  (append_assoc _ _ _).symm

/-- A table of characters of components: all unreserved ones, and no percent sign. -/
structure ComponentTable (table : List ℕ) : Prop where
  percent : inTableBelow 127 table charPercent = false
  unreserved : ∀ c, isUnreservedChar c = true → inTableBelow 127 table c = true

lemma ComponentTable.of_decide {table : List ℕ} (hp : inTableBelow 127 table charPercent = false)
    (hu : ∀ c < 127, isUnreservedChar c = true → inTableBelow 127 table c = true) :
    ComponentTable table :=
  ⟨hp,fun c hc => hu c (isUnreservedChar_lt hc) hc⟩

lemma userinfoTable_component : ComponentTable userinfoTable :=
  .of_decide (by decide) (by decide +kernel)

lemma pathCharOrSlashTable_component : ComponentTable pathCharOrSlashTable :=
  .of_decide (by decide) (by decide +kernel)

lemma queryCharTable_component : ComponentTable queryCharTable :=
  .of_decide (by decide) (by decide +kernel)

lemma ne_of_isHexDigit {a c : ℕ} (ha : isHexDigit a = true) (hc : isHexDigit c = false) : c ≠ a := by
  rintro rfl
  rw [hc] at ha
  cases ha

lemma slash_notMem_hex {a b : ℕ} (ha : isHexDigit a = true) (hb : isHexDigit b = true) :
    charSlash ∉ [charPercent,a,b] := by
  simp [ne_of_isHexDigit ha (c := charSlash) (by decide),ne_of_isHexDigit hb (c := charSlash) (by decide)]

lemma keptEscape_percent : KeptEscape 0x32 0x35 :=
  ⟨by decide,by decide,by decide,by decide,by decide⟩

lemma codePoint_spec {char : ℕ} (hd : isGeneralDelimiter char = false)
    (hr : isUnreservedChar char = false) (rest : Text) :
    charSlash ∉ char :: rest.take ((codePoint char rest).2-1) ∧
      isUnreservedChar (codePoint char rest).1 = false := by
  have hslash : charSlash ≠ char := by
    rintro rfl
    exact absurd hd (by decide)
  obtain hpoint | ⟨tail,rest',rfl,htail,hpoint,hcount⟩ := codePoint_cases char rest
  · rw [hpoint]
    exact ⟨by simpa using hslash,hr⟩
  · refine ⟨?_,?_⟩
    · rw [hcount]
      simp only [take_succ_cons,take_zero,mem_cons,not_mem_nil,or_false,not_or]
      refine ⟨hslash,?_⟩
      unfold charSlash
      omega
    · rw [Bool.eq_false_iff]
      intro hchar
      have := isUnreservedChar_lt hchar
      omega

section Escapes

variable {keep : ℕ → Bool} {put : ℕ → ℕ} {rest t replacement : Text} {lowerCase : Bool}

lemma Normalizes.keep_escape (he : normalizeEscape (charPercent :: rest) lowerCase = none)
    (h : Normalizes keep put (rest.drop 2) t) :
    Normalizes keep put (charPercent :: rest) (charPercent :: rest.take 2 ++ t) := by
  obtain hescape | ⟨a,b,tail,rfl,hkept, -⟩ | ⟨a,b,tail,x,y,rfl, -, -, -,hescape⟩ |
    ⟨a,b,tail,d,rfl, -, -, -, -,hescape⟩ := normalizeEscape_cases rest lowerCase
  · rw [hescape] at he
    cases he
  · exact .escape (slash_notMem_hex hkept.first hkept.second) hkept h
  · rw [hescape] at he
    cases he
  · rw [hescape] at he
    cases he

lemma Normalizes.percent (h : Normalizes keep put rest t) :
    Normalizes keep put (charPercent :: rest) ([charPercent,0x32,0x35] ++ t) :=
  .escape (r := [charPercent]) (by decide) keptEscape_percent h

lemma Normalizes.replace_escape (hput : ∀ d, (lowerCase = true → isUpper d = false) → put d = d)
    (he : normalizeEscape (charPercent :: rest) lowerCase = some replacement)
    (hne : replacement ≠ [charPercent]) (h : Normalizes keep put (rest.drop 2) t) :
    Normalizes keep put (charPercent :: rest) (replacement ++ t) := by
  obtain hescape | ⟨a,b,tail,rfl, -,hescape⟩ | ⟨a,b,tail,x,y,rfl,ha,hb,hkept,hescape⟩ |
    ⟨a,b,tail,d,rfl,ha,hb,hd,hcase,hescape⟩ := normalizeEscape_cases rest lowerCase
  · rw [hescape] at he
    exact absurd (Option.some_inj.1 he).symm hne
  · rw [hescape] at he
    cases he
  · rw [hescape] at he
    obtain rfl := Option.some_inj.1 he
    exact .escape (slash_notMem_hex ha hb) hkept h
  · rw [hescape] at he
    obtain rfl := Option.some_inj.1 he
    exact .unreserved (slash_notMem_hex ha hb) hd (hput d hcase) h

/-- A character that is neither kept nor a delimiter. -/
lemma Normalizes.codePoint {c : ℕ} (hd : isGeneralDelimiter c = false) (hr : isUnreservedChar c = false)
    (h : Normalizes keep put (rest.drop ((codePoint c rest).2-1)) t) :
    Normalizes keep put (c :: rest) (Uri.escapeChar (Uri.codePoint c rest).1 ++ t) := by
  obtain ⟨hslash,hreserved⟩ := codePoint_spec hd hr rest
  have hread := h.escapeChar hslash hreserved
  rwa [cons_append,take_append_drop] at hread

end Escapes

section Loops

variable {table : List ℕ} {fuel : ℕ} {s out t : Text} {buffer : Option Text} {sec : Text}

lemma length_drop_le_of {rest : Text} (h : rest.length ≤ fuel) (n : ℕ) : (rest.drop n).length ≤ fuel := by
  rw [length_drop]
  omega

/-- A round of the loop is a step of the normalization. -/
lemma normalizeLoop_spec (ht : ComponentTable table) (hfuel : s.length ≤ fuel)
    (h : normalizeLoop table fuel s buffer sec = .ok out) :
    ∃ t, out = written buffer sec ++ t ∧ Normalizes (inTableBelow 127 table) id s t := by
  induction fuel generalizing s buffer sec with
  | zero =>
    obtain rfl := length_eq_zero_iff.1 (le_zero.1 hfuel)
    cases h
    exact ⟨[],(append_nil _).symm,.nil⟩
  | succ fuel ih =>
    cases s with
    | nil =>
      cases h
      exact ⟨[],(append_nil _).symm,.nil⟩
    | cons c rest =>
      have hrest : rest.length ≤ fuel := le_of_succ_le_succ hfuel
      rw [normalizeLoop] at h
      split_ifs at h with hkeep hpercent hdelimiter
      · obtain ⟨t,rfl,hnorm⟩ := ih hrest h
        have hc : c ≠ charPercent := by
          rintro rfl
          rw [ht.percent] at hkeep
          cases hkeep
        exact ⟨c :: t,by simp [written_append],.char hkeep hc hnorm⟩
      · subst hpercent
        cases hescape : normalizeEscape (charPercent :: rest) false with
        | none =>
          rw [hescape] at h
          obtain ⟨t,rfl,hnorm⟩ := ih (length_drop_le_of hrest 2) h
          exact ⟨_,by rw [written_append,append_assoc],hnorm.keep_escape hescape⟩
        | some replacement =>
          rw [hescape] at h
          dsimp only at h
          split_ifs at h with hpercent
          · obtain ⟨t,rfl,hnorm⟩ := ih hrest h
            exact ⟨_,by rw [written_some,append_nil,append_assoc],hnorm.percent⟩
          · obtain ⟨t,rfl,hnorm⟩ := ih (length_drop_le_of hrest 2) h
            exact ⟨_,by rw [written_some,append_nil,append_assoc],
              hnorm.replace_escape (fun _ _ => rfl) hescape hpercent⟩
      · have hr : isUnreservedChar c = false :=
          Bool.eq_false_iff.2 fun hu => hkeep (ht.unreserved c hu)
        obtain ⟨t,rfl,hnorm⟩ := ih (length_drop_le_of hrest _) h
        exact ⟨_,by rw [written_some,append_nil,append_assoc],
          hnorm.codePoint (Bool.eq_false_iff.2 hdelimiter) hr⟩

def lowerChar (c : ℕ) : ℕ := if isUpper c then c+0x20 else c

lemma lowerChar_of_not_upper {c : ℕ} (h : isUpper c = false) : lowerChar c = c := by
  rw [lowerChar,h]
  rfl

lemma isRegNameChar_of_unreserved {c : ℕ} (h : isUnreservedChar c = true) : isRegNameChar c = true := by
  have hall : ∀ c < 127, isUnreservedChar c = true → isRegNameChar c = true := by decide +kernel
  exact hall c (isUnreservedChar_lt h) h

lemma sliceOf_append_char (n : Bool) (c : ℕ) (h : (n && isUpper c) = false) :
    sliceOf n (sec ++ [c]) = sliceOf n sec ++ [lowerChar c] := by
  cases n with
  | true =>
    rw [lowerChar_of_not_upper (by simpa using h)]
    rfl
  | false => simp [sliceOf,toLowerCase,lowerChar]

lemma written_slice_nil (text : Text) (n : Bool) : written (some text) (sliceOf n []) = text := by
  cases n <;> exact append_nil text

lemma regNameLoop_spec {n : Bool} (hfuel : s.length ≤ fuel)
    (h : regNameLoop fuel s buffer sec n = .ok out) :
    ∃ t, out = written buffer (sliceOf n sec) ++ t ∧ Normalizes isRegNameChar lowerChar s t := by
  induction fuel generalizing s buffer sec n with
  | zero =>
    obtain rfl := length_eq_zero_iff.1 (le_zero.1 hfuel)
    cases h
    exact ⟨[],(append_nil _).symm,.nil⟩
  | succ fuel ih =>
    cases s with
    | nil =>
      cases h
      exact ⟨[],(append_nil _).symm,.nil⟩
    | cons c rest =>
      have hrest : rest.length ≤ fuel := le_of_succ_le_succ hfuel
      rw [regNameLoop] at h
      by_cases hpercent : c = charPercent
      · subst hpercent
        rw [if_pos rfl] at h
        cases hescape : normalizeEscape (charPercent :: rest) true with
        | none =>
          rw [hescape] at h
          cases n with
          | true =>
            obtain ⟨t,rfl,hnorm⟩ := ih (length_drop_le_of hrest 2) h
            refine ⟨_,?_,hnorm.keep_escape hescape⟩
            rw [sliceOf,sliceOf,if_pos rfl,if_pos rfl,written_append,append_assoc]
          | false =>
            obtain ⟨t,rfl,hnorm⟩ := ih (length_drop_le_of hrest 2) h
            refine ⟨_,?_,hnorm.keep_escape hescape⟩
            rw [written_slice_nil,append_assoc]
            rfl
        | some replacement =>
          rw [hescape] at h
          dsimp only at h
          split_ifs at h with hpercent
          · obtain ⟨t,rfl,hnorm⟩ := ih hrest h
            refine ⟨_,?_,hnorm.percent⟩
            rw [written_slice_nil,append_assoc]
          · obtain ⟨t,rfl,hnorm⟩ := ih (length_drop_le_of hrest 2) h
            refine ⟨_,?_,hnorm.replace_escape (fun d hd => lowerChar_of_not_upper (hd rfl)) hescape hpercent⟩
            rw [written_slice_nil,append_assoc]
      rw [if_neg hpercent] at h
      split_ifs at h with hkeep hupper hdelimiter
      · rw [Bool.and_eq_true] at hupper
        obtain ⟨rfl,hup⟩ := hupper
        obtain ⟨t,rfl,hnorm⟩ := ih hrest h
        refine ⟨lowerChar c :: t,?_,.char hkeep hpercent hnorm⟩
        simp [sliceOf,toLowerCase,lowerChar]
      · obtain ⟨t,rfl,hnorm⟩ := ih hrest h
        refine ⟨lowerChar c :: t,?_,.char hkeep hpercent hnorm⟩
        rw [sliceOf_append_char n c (Bool.eq_false_iff.2 hupper),written_append,append_assoc]
        rfl
      · have hr : isUnreservedChar c = false :=
          Bool.eq_false_iff.2 fun hu => hkeep (isRegNameChar_of_unreserved hu)
        obtain ⟨t,rfl,hnorm⟩ := ih (length_drop_le_of hrest _) h
        refine ⟨_,?_,hnorm.codePoint (Bool.eq_false_iff.2 hdelimiter) hr⟩
        rw [written_slice_nil,append_assoc]

lemma normalizeEscape_kept {a b : ℕ} (h : KeptEscape a b) (lowerCase : Bool) :
    normalizeEscape (charPercent :: a :: b :: t) lowerCase = none := by
  have hupper : ¬(a ≥ 0x61 ∨ b ≥ 0x61) := by
    have ha := h.first_upper
    have hb := h.second_upper
    omega
  simp [normalizeEscape,h.first,h.second,h.reserved,Bool.not_true,Bool.or_self,
    Bool.false_eq_true,if_neg hupper]

lemma NormalText.normalizeLoop (ht : ComponentTable table) (h : NormalText (inTableBelow 127 table) s)
    (hfuel : s.length ≤ fuel) :
    normalizeLoop table fuel s buffer sec = .ok (written buffer sec ++ s) := by
  induction h generalizing fuel buffer sec with
  | nil =>
    rw [append_nil]
    cases fuel <;> rfl
  | @char c t hc _ h ih =>
    obtain ⟨fuel,rfl⟩ := exists_fuel fuel (by simp at hfuel; omega)
    rw [Uri.normalizeLoop,if_pos hc,ih (le_of_succ_le_succ hfuel),written_append,append_assoc]
    rfl
  | @escape a b t he h ih =>
    obtain ⟨fuel,rfl⟩ := exists_fuel fuel (by simp at hfuel; omega)
    have htail : t.length ≤ fuel := by simp at hfuel; omega
    rw [Uri.normalizeLoop,if_neg (by simp [ht.percent]),if_pos rfl,normalizeEscape_kept he]
    refine (ih htail).trans ?_
    rw [written_append,append_assoc]
    rfl

/-- The characters of a host in lower case. -/
def keepHost (c : ℕ) : Bool := isRegNameChar c && !isUpper c

lemma NormalText.regNameLoop (h : NormalText keepHost s) (hfuel : s.length ≤ fuel) :
    regNameLoop fuel s buffer sec true = .ok (written buffer sec ++ s) := by
  induction h generalizing fuel buffer sec with
  | nil =>
    rw [append_nil]
    cases fuel <;> rfl
  | @char c t hc hp h ih =>
    obtain ⟨fuel,rfl⟩ := exists_fuel fuel (by simp at hfuel; omega)
    obtain ⟨hkeep,hupper⟩ : isRegNameChar c = true ∧ isUpper c = false := by simpa [keepHost] using hc
    rw [Uri.regNameLoop,if_neg hp,if_pos hkeep,if_neg (by simp [hupper]),
      ih (le_of_succ_le_succ hfuel),written_append,append_assoc]
    rfl
  | @escape a b t he h ih =>
    obtain ⟨fuel,rfl⟩ := exists_fuel fuel (by simp at hfuel; omega)
    have htail : t.length ≤ fuel := by simp at hfuel; omega
    rw [Uri.regNameLoop,if_pos rfl,normalizeEscape_kept he]
    refine (ih htail).trans ?_
    rw [written_append,append_assoc]
    rfl

end Loops

section Normalized

variable {keep keep' : ℕ → Bool} {put : ℕ → ℕ} {table : List ℕ} {s t : Text} {c : ℕ}

lemma Normalizes.normal (hkeep : ∀ c, keep c = true → c ≠ charPercent → keep' (put c) = true ∧ put c ≠ charPercent)
    (hun : ∀ c, isUnreservedChar c = true → put c = c → keep' c = true) (h : Normalizes keep put s t) :
    NormalText keep' t := by
  induction h with
  | nil => exact .nil
  | char hc hp _ ih => exact .char (hkeep _ hc hp).1 (hkeep _ hc hp).2 ih
  | escape _ he _ ih => exact .escape he ih
  | unreserved _ hc hput _ ih =>
    refine .char (hun _ hc hput) ?_ ih
    rintro rfl
    exact absurd hc (by decide)

lemma Normalizes.eq_nil (h : Normalizes keep put s []) : s = [] := by
  cases h
  rfl

variable (ht : ComponentTable table)
include ht

lemma normalize_spec (h : normalize s table = .ok t) :
    Normalizes (inTableBelow 127 table) id s t := by
  obtain ⟨t',ht',hnorm⟩ := normalizeLoop_spec ht le_rfl h
  rw [ht']
  exact hnorm

lemma normalize_normal (h : normalize s table = .ok t) : NormalText (inTableBelow 127 table) t :=
  (normalize_spec ht h).normal (fun _ hc hp => ⟨hc,hp⟩) fun c hc _ => ht.unreserved c hc

lemma NormalText.normalize (h : NormalText (inTableBelow 127 table) s) :
    normalize s table = .ok s :=
  h.normalizeLoop ht le_rfl

omit ht

lemma keepHost_lowerChar (hc : isRegNameChar c = true) (hp : c ≠ charPercent) :
    keepHost (lowerChar c) = true ∧ lowerChar c ≠ charPercent := by
  have hlt : c < 127 := by
    simp only [isRegNameChar,inTableBelow,Bool.and_eq_true,decide_eq_true_eq] at hc
    exact hc.1
  have hall : ∀ c < 127, isRegNameChar c = true → c ≠ charPercent →
      keepHost (lowerChar c) = true ∧ lowerChar c ≠ charPercent := by
    decide +kernel
  exact hall c hlt hc hp

lemma normalizeRegName_spec (h : normalizeRegName s = .ok t) :
    Normalizes isRegNameChar lowerChar s t := by
  obtain ⟨t',ht',hnorm⟩ := regNameLoop_spec le_rfl h
  rw [ht']
  exact hnorm

lemma normalizeRegName_normal (h : normalizeRegName s = .ok t) : NormalText keepHost t := by
  refine (normalizeRegName_spec h).normal (fun c => keepHost_lowerChar) fun c hc hput => ?_
  have hupper : isUpper c = false := by
    rw [Bool.eq_false_iff]
    intro hup
    rw [lowerChar,if_pos hup] at hput
    omega
  rw [keepHost,isRegNameChar_of_unreserved hc,hupper]
  rfl

lemma NormalText.normalizeRegName (h : NormalText keepHost s) : normalizeRegName s = .ok s :=
  h.regNameLoop le_rfl

lemma NormalText.notMem (h : NormalText keep s) (hk : keep c = false) (hp : c ≠ charPercent)
    (hx : isHexDigit c = false) : c ∉ s := by
  induction h with
  | nil => exact not_mem_nil
  | char hc _ _ ih =>
    rw [mem_cons,not_or]
    refine ⟨?_,ih⟩
    rintro rfl
    rw [hk] at hc
    cases hc
  | escape he _ ih =>
    rw [mem_cons,mem_cons,mem_cons,not_or,not_or,not_or]
    exact ⟨hp,ne_of_isHexDigit he.first hx,ne_of_isHexDigit he.second hx,ih⟩

lemma NormalText.forall_notMem (h : NormalText keep s) (cs : Text)
    (hcs : ∀ c ∈ cs, keep c = false ∧ c ≠ charPercent ∧ isHexDigit c = false) : ∀ c ∈ s, c ∉ cs :=
  fun c hc hmem => h.notMem (hcs c hmem).1 (hcs c hmem).2.1 (hcs c hmem).2.2 hc

def NoColonFirst (path : Text) : Prop := charColon ∉ path.takeWhile (· != charSlash)

lemma noColonFirst_cons : NoColonFirst (c :: s) ↔ c = charSlash ∨ c ≠ charColon ∧ NoColonFirst s := by
  unfold NoColonFirst
  rw [takeWhile_cons]
  by_cases hslash : c = charSlash <;> simp [hslash,ne_comm]

lemma NoColonFirst.of_append {r : Text} (hr : charSlash ∉ r) (h : NoColonFirst (r ++ s)) :
    NoColonFirst s := by
  induction r with
  | nil => exact h
  | cons c r ih =>
    rw [mem_cons,not_or] at hr
    exact ih hr.2 ((noColonFirst_cons.1 h).resolve_left (Ne.symm hr.1)).2

lemma Normalizes.noColonFirst (h : Normalizes keep id s t) (hs : NoColonFirst s) : NoColonFirst t := by
  have hcons : ∀ {c t}, c ≠ charColon → NoColonFirst t → NoColonFirst (c :: t) :=
    fun hc ht => noColonFirst_cons.2 (.inr ⟨hc,ht⟩)
  induction h with
  | nil => exact hs
  | char _ _ _ ih => exact noColonFirst_cons.2 ((noColonFirst_cons.1 hs).imp_right (.imp_right ih))
  | escape hr he _ ih =>
    have hhex : isHexDigit charColon = false := by decide
    exact hcons (by decide) (hcons (ne_of_isHexDigit he.first hhex).symm
      (hcons (ne_of_isHexDigit he.second hhex).symm (ih (hs.of_append hr))))
  | unreserved hr hc _ _ ih =>
    refine hcons ?_ (ih (hs.of_append hr))
    rintro rfl
    exact absurd hc (by decide)

/-- A slash at the start was there before. -/
lemma Normalizes.slash_cons (h : Normalizes keep id s (charSlash :: t)) :
    ∃ s', s = charSlash :: s' ∧ Normalizes keep id s' t := by
  generalize htext : charSlash :: t = text at h
  cases h with
  | nil => cases htext
  | char hc hp h =>
    cases htext
    exact ⟨_,rfl,h⟩
  | escape hr he h => cases htext
  | unreserved hr hc hput h =>
    cases htext
    exact absurd hc (by decide)

end Normalized

end DartSdk.Uri
