import DartSdk.UriAddressExact
import DartSdk.UriParse

/-! The components of a URI that comes out of the parser are in normal form, and the parser keeps
such components. -/
namespace DartSdk.Uri

open List Bool
open Outcome (ok_bind bind_eq_ok)

variable {s : Text}

/-- A scheme in lower case, or none. -/
def NormalScheme (scheme : Text) : Prop :=
  (∀ c, scheme.head? = some c → isLower c = true) ∧
    ∀ c ∈ scheme, isSchemeCharacter c = true ∧ isUpper c = false

lemma isSchemeCharacter_lt {c : ℕ} (h : isSchemeCharacter c = true) : c < 128 := by
  simp only [isSchemeCharacter,inTableBelow,and_eq_true,decide_eq_true_eq] at h
  exact h.1

lemma lowerChar_scheme {c : ℕ} (h : isSchemeCharacter c = true) :
    isSchemeCharacter (lowerChar c) = true ∧ isUpper (lowerChar c) = false := by
  have hall : ∀ c < 128, isSchemeCharacter c = true →
      isSchemeCharacter (lowerChar c) = true ∧ isUpper (lowerChar c) = false := by decide +kernel
  exact hall c (isSchemeCharacter_lt h) h

lemma isLower_lowerChar {c : ℕ} (h : isAlphabeticCharacter c = true) : isLower (lowerChar c) = true := by
  unfold isAlphabeticCharacter isLower isUpper at h
  unfold lowerChar isLower isUpper
  simp only [or_eq_true,and_eq_true,decide_eq_true_eq] at h ⊢
  split_ifs <;> omega

lemma isUpper_of_isLower {c : ℕ} (h : isLower c = true) : isUpper c = false := by
  unfold isLower at h
  unfold isUpper
  simp only [and_eq_true,decide_eq_true_eq] at h
  simp only [and_eq_false_iff,decide_eq_false_iff_not]
  omega

lemma toLowerCase_of_not_upper (h : ∀ c ∈ s, isUpper c = false) : toLowerCase s = s := by
  rw [toLowerCase_eq]
  exact (map_congr_left fun c hc => lowerChar_of_not_upper (h c hc)).trans (map_id s)

lemma makeScheme_eq {s t : Text} (h : makeScheme s = .ok t) :
    t = toLowerCase s ∧ (∀ c, s.head? = some c → isAlphabeticCharacter c = true) ∧
      ∀ c ∈ s, isSchemeCharacter c = true := by
  cases s with
  | nil =>
    cases h
    exact ⟨rfl,nofun,nofun⟩
  | cons first rest =>
    rw [makeScheme] at h
    split_ifs at h with hfirst hchars
    have hchars' : ∀ c ∈ first :: rest, isSchemeCharacter c = true := by
      simpa using hchars
    refine ⟨?_,?_,hchars'⟩
    · obtain rfl := Except.ok.inj h
      split_ifs with hlower
      · rw [and_eq_true,all_eq_true] at hlower
        exact (toLowerCase_of_not_upper fun c hc => isUpper_of_isLower (hlower.2 c hc)).symm
      · rfl
    · rintro c hc
      obtain rfl := Option.some_inj.1 hc
      simpa using hfirst

lemma makeScheme_normal {s t : Text} (h : makeScheme s = .ok t) : NormalScheme t := by
  obtain ⟨rfl,hfirst,hchars⟩ := makeScheme_eq h
  rw [toLowerCase_eq]
  refine ⟨?_,?_⟩
  · intro c hc
    rw [head?_map,Option.map_eq_some_iff] at hc
    obtain ⟨d,hd,rfl⟩ := hc
    exact isLower_lowerChar (hfirst d hd)
  · intro c hc
    obtain ⟨d,hd,rfl⟩ := mem_map.1 hc
    exact lowerChar_scheme (hchars d hd)

lemma NormalScheme.makeScheme (h : NormalScheme s) : makeScheme s = .ok s := by
  cases s with
  | nil => rfl
  | cons first rest =>
    have hfirst : isAlphabeticCharacter first = true := by
      rw [isAlphabeticCharacter,h.1 first rfl]
      rfl
    have hall : (first :: rest).all isSchemeCharacter = true :=
      all_eq_true.2 fun c hc => (h.2 c hc).1
    have hlower : toLowerCase (first :: rest) = first :: rest :=
      toLowerCase_of_not_upper fun c hc => (h.2 c hc).2
    rw [Uri.makeScheme,hfirst,hall]
    simp only [Bool.not_true,Bool.false_eq_true,if_false,hlower,ite_self]

lemma NormalScheme.not_end (h : NormalScheme s) :
    ∀ c ∈ s, (!(isAuthorityEnd c || c == charColon)) = true := by
  intro c hc
  have hall : ∀ c < 128, isSchemeCharacter c = true → (!(isAuthorityEnd c || c == charColon)) = true := by
    decide +kernel
  exact hall c (isSchemeCharacter_lt (h.2 c hc).1) (h.2 c hc).1

/-- A registered name in lower case, or an address in brackets. -/
inductive NormalHost : Text → Prop
  | name {s : Text} (h : NormalText keepHost s) : NormalHost s
  | address {a : Text} {bytes : List ℤ} (h : parseIPv6Address 2 a = .ok bytes)
      (hlower : toLowerCase a = a) : NormalHost (charLeftBracket :: (a ++ [charRightBracket]))

lemma exists_brackets (hfirst : s.head? = some charLeftBracket)
    (hlast : s.getLast? = some charRightBracket) :
    s = charLeftBracket :: ((s.drop 1).dropLast ++ [charRightBracket]) := by
  obtain ⟨rest,rfl⟩ := head?_eq_some_iff.1 hfirst
  cases rest with
  | nil => exact absurd hlast (by decide)
  | cons c rest =>
    rw [getLast?_cons_cons] at hlast
    rw [drop_one,tail_cons,dropLast_append_getLast? charRightBracket hlast]

lemma toLowerCase_append (s t : Text) : toLowerCase (s ++ t) = toLowerCase s ++ toLowerCase t :=
  map_append

lemma toLowerCase_idem (s : Text) : toLowerCase (toLowerCase s) = toLowerCase s := by
  refine toLowerCase_of_not_upper fun c hc => ?_
  rw [toLowerCase_eq] at hc
  obtain ⟨d, -,rfl⟩ := mem_map.1 hc
  unfold lowerChar isUpper
  split_ifs with hupper
  · simp only [and_eq_true,decide_eq_true_eq] at hupper
    simp only [and_eq_false_iff,decide_eq_false_iff_not]
    omega
  · exact eq_false_iff.2 hupper

lemma makeHost_strict (n : ℕ) (s : Text) : makeHost n s true = if s.isEmpty then .ok []
    else if s.head? = some charLeftBracket then
      if s.getLast? ≠ some charRightBracket then
        .error (.formatException "Missing end `]` to match `[` in host")
      else (parseIPv6Address n (s.drop 1).dropLast).map fun _ => toLowerCase s
    else normalizeRegName s := by
  unfold makeHost
  cases parseIPv6Address n (s.drop 1).dropLast <;> rfl

lemma map_eq_ok {α β : Type} {x : Except Failure α} {f : α → β} {b : β} (h : x.map f = .ok b) :
    ∃ a, x = .ok a ∧ f a = b := by
  cases x with
  | error e => cases h
  | ok a => exact ⟨a,rfl,Except.ok.inj h⟩

lemma makeHost_normal {n : ℕ} {s t : Text} (h : makeHost n s true = .ok t) : NormalHost t := by
  rw [makeHost_strict] at h
  split_ifs at h with hempty hfirst hlast
  · cases h
    exact .name .nil
  · obtain ⟨bytes,haddress,rfl⟩ := map_eq_ok h
    rw [exists_brackets hfirst (not_not.1 hlast)]
    have hbytes : parseIPv6Address 2 (toLowerCase (s.drop 1).dropLast) = .ok bytes := by
      rw [parseIPv6Address_lower]
      exact parseIPv6Address_length haddress le_rfl
    have hlower := NormalHost.address hbytes (toLowerCase_idem _)
    rw [← singleton_append,toLowerCase_append,toLowerCase_append]
    exact hlower
  · exact .name (normalizeRegName_normal h)

lemma makeHost_nil {n : ℕ} (h : makeHost n s true = .ok []) : s = [] := by
  rw [makeHost_strict] at h
  split_ifs at h with hempty hfirst hlast
  · exact isEmpty_iff.1 hempty
  · obtain ⟨bytes,haddress,hmap⟩ := map_eq_ok h
    exact map_eq_nil_iff.1 hmap
  · exact (normalizeRegName_spec h).eq_nil

lemma NormalText.head?_ne_bracket (h : NormalText keepHost s) : s.head? ≠ some charLeftBracket := by
  intro hhead
  exact h.notMem (by decide) (by decide) (by decide) (mem_of_head? hhead)

lemma NormalHost.makeHost {n : ℕ} (hn : 2 ≤ n) (h : NormalHost s) : makeHost n s true = .ok s := by
  cases h with
  | name h =>
    rw [makeHost_strict,if_neg h.head?_ne_bracket]
    split_ifs with hempty
    · rw [isEmpty_iff.1 hempty]
    · exact h.normalizeRegName
  | @address a bytes h hlower =>
    have hlast : (charLeftBracket :: (a ++ [charRightBracket])).getLast? = some charRightBracket := by
      rw [← cons_append,getLast?_concat]
    have haddress : parseIPv6Address n (drop 1 (charLeftBracket :: (a ++ [charRightBracket]))).dropLast =
        .ok bytes := by
      rw [drop_one,tail_cons,dropLast_concat]
      exact parseIPv6Address_length h hn
    have hcase : toLowerCase (charLeftBracket :: (a ++ [charRightBracket])) =
        charLeftBracket :: (a ++ [charRightBracket]) := by
      rw [← singleton_append,toLowerCase_append,toLowerCase_append,hlower]
      rfl
    rw [makeHost_strict,if_neg (by simp),if_pos (by rfl),if_neg (by simp [hlast]),haddress,hcase]
    rfl

def Digits (s : Text) : Prop := ∀ d ∈ s, 0x30 ≤ d ∧ d ≤ 0x39

def digitsNumber (s : Text) : ℤ := (Numeral.number 10 (s.map (·-0x30)) : ℕ)

lemma foldlM_portDigit (h : Digits s) : s.foldlM portDigit 0 = .ok (digitsNumber s) := by
  induction s using reverseRecOn with
  | nil => rfl
  | append_singleton s d ih =>
    obtain ⟨hlow,hhigh⟩ := h d (by simp)
    rw [foldlM_append,ih fun e he => h e (mem_append_left _ he),ok_bind]
    simp only [foldlM_cons,portDigit,if_neg (show ¬(0x30 > d ∨ 0x39 < d) by omega)]
    rw [digitsNumber,digitsNumber,map_append,Numeral.number_append]
    simp [Numeral.number_cons,pure,Except.pure,bind,Except.bind,Nat.cast_sub hlow]

lemma digits_of_foldlM {m n : ℤ} (h : s.foldlM portDigit m = .ok n) : Digits s := by
  induction s generalizing m with
  | nil => nofun
  | cons d s ih =>
    rw [foldlM_cons] at h
    obtain ⟨k,hk,h⟩ := bind_eq_ok h
    unfold portDigit at hk
    split_ifs at hk with hrange
    intro e he
    obtain rfl | he := mem_cons.1 he
    · exact ⟨by omega,by omega⟩
    · exact ih h e he

lemma parsePort_spec {port : Option ℤ} (h : parsePort s = .ok port) :
    Digits s ∧ port = if s = [] then none else some (digitsNumber s) := by
  unfold parsePort at h
  split_ifs at h with hempty
  · cases h
    rw [isEmpty_iff.1 hempty]
    exact ⟨nofun,rfl⟩
  · obtain ⟨n,hn,h⟩ := bind_eq_ok h
    cases h
    have hdigits := digits_of_foldlM hn
    rw [foldlM_portDigit hdigits] at hn
    rw [List.isEmpty_iff] at hempty
    exact ⟨hdigits,by rw [if_neg hempty,Except.ok.inj hn]⟩

lemma parsePort_digits (h : Digits s) :
    parsePort s = .ok (if s = [] then none else some (digitsNumber s)) := by
  unfold parsePort
  split_ifs with hempty hnil hnil
  · rfl
  · exact absurd (isEmpty_iff.1 hempty) hnil
  · exact absurd (isEmpty_iff.2 hnil) hempty
  · rw [foldlM_portDigit h]
    rfl

lemma parsePort_decimal {n : ℤ} (hn : 0 ≤ n) : parsePort (IntParse.decimal n) = .ok (some n) := by
  obtain ⟨k,rfl⟩ := Int.eq_ofNat_of_zero_le hn
  obtain ⟨hne,hdigits,hnumber⟩ := IntParse.denotes_decimal k
  rw [parsePort_digits hdigits,if_neg hne,digitsNumber,hnumber]

lemma makePort_eq_self {port : Option ℤ} {scheme : Text} (h : port ≠ some (defaultPort scheme)) :
    makePort port scheme = port :=
  if_neg h

lemma makePort_eq_some {port : Option ℤ} {scheme : Text} {n : ℤ} (h : makePort port scheme = some n) :
    port = some n ∧ n ≠ defaultPort scheme := by
  unfold makePort at h
  split_ifs at h with hdefault
  rw [h] at hdefault
  exact ⟨h,fun heq => hdefault (heq ▸ rfl)⟩

lemma makePath_eq {slash isFile : Bool} {path : Text} (h : makePath s slash isFile = .ok path) :
    ∃ t, normalize s pathCharOrSlashTable = .ok t ∧
      path = if t = [] then (if isFile then [charSlash] else [])
        else if (isFile = true ∨ slash = true) ∧ t.head? ≠ some charSlash then charSlash :: t else t := by
  obtain ⟨t,ht,h⟩ := bind_eq_ok h
  refine ⟨t,ht,?_⟩
  by_cases hempty : t = []
  · subst hempty
    cases isFile <;> cases h <;> rfl
  · rw [if_neg (by simpa using hempty)] at h
    rw [if_neg hempty]
    split_ifs at h ⊢ with h1 h2 h2
    · cases h; rfl
    · exact absurd (by simpa using h1) h2
    · exact absurd h1 (by simpa using h2)
    · cases h; rfl

abbrev NormalPath (path : Text) : Prop := NormalText (inTableBelow 127 pathCharOrSlashTable) path

lemma NormalText.slash_cons {t : Text} (h : NormalPath t) : NormalPath (charSlash :: t) :=
  .char (by decide) (by decide) h

lemma NormalText.makePath {path : Text} {slash isFile : Bool} (h : NormalPath path)
    (hfile : isFile = true → path.head? = some charSlash)
    (hslash : slash = true → path = [] ∨ path.head? = some charSlash) :
    makePath path slash isFile = .ok path := by
  rw [Uri.makePath,h.normalize pathCharOrSlashTable_component,ok_bind]
  by_cases hempty : path = []
  · subst hempty
    cases isFile with
    | false => rfl
    | true => exact absurd (hfile rfl) nofun
  · rw [if_neg (by simpa using hempty),if_neg]
    · rfl
    · rw [and_eq_true,or_eq_true,bne_iff_ne]
      rintro ⟨hflag | hflag,hhead⟩
      · exact hhead (hfile hflag)
      · exact hhead ((hslash hflag).resolve_left hempty)

abbrev NormalQuery (query : Text) : Prop := NormalText (inTableBelow 127 queryCharTable) query

lemma parseTail_normal {query fragment : Option Text} (h : parseTail s = .ok (query,fragment)) :
    (∀ q, query = some q → NormalQuery q) ∧ (∀ f, fragment = some f → NormalQuery f) ∧
      (query = none → fragment = none → s = []) := by
  cases s with
  | nil =>
    cases h
    exact ⟨nofun,nofun,fun _ _ => rfl⟩
  | cons c rest =>
    unfold parseTail at h
    dsimp only at h
    split_ifs at h with hc
    · split at h
      · obtain ⟨q,hq,h⟩ := bind_eq_ok h
        cases h
        refine ⟨?_,nofun,nofun⟩
        rintro _ ⟨⟩
        exact normalize_normal queryCharTable_component hq
      · obtain ⟨q,hq,h⟩ := bind_eq_ok h
        obtain ⟨f,hf,h⟩ := bind_eq_ok h
        cases h
        refine ⟨?_,?_,nofun⟩
        · rintro _ ⟨⟩
          exact normalize_normal queryCharTable_component hq
        · rintro _ ⟨⟩
          exact normalize_normal queryCharTable_component hf
    · obtain ⟨f,hf,h⟩ := bind_eq_ok h
      cases h
      refine ⟨nofun,?_,nofun⟩
      rintro _ ⟨⟩
      exact normalize_normal queryCharTable_component hf

def writeTail (query fragment : Option Text) : Text :=
  writeAfter charQuestion query ++ writeAfter charNumberSign fragment

lemma parseTail_writeTail {query fragment : Option Text} (hq : ∀ q, query = some q → NormalQuery q)
    (hf : ∀ f, fragment = some f → NormalQuery f) :
    parseTail (writeTail query fragment) = .ok (query,fragment) := by
  have hmake : ∀ q, NormalQuery q → normalize q queryCharTable = .ok q := fun q h =>
    h.normalize queryCharTable_component
  cases query with
  | none =>
    cases fragment with
    | none => rfl
    | some f =>
      simp only [writeTail,writeAfter,nil_append,parseTail]
      rw [if_neg (by decide),makeFragment,hmake f (hf f rfl)]
      rfl
  | some q =>
    have hmark : ∀ c ∈ q, (c != charNumberSign) = true := fun c hc =>
      bne_iff_ne.2 fun heq => (hq q rfl).notMem (by decide) (by decide) (by decide) (heq ▸ hc)
    cases fragment with
    | none =>
      have hspan : (q ++ []).span (· != charNumberSign) = (q,[]) := by
        rw [span_eq_takeWhile_dropWhile,takeWhile_append_of_pos hmark,
          dropWhile_append_of_pos hmark]
        simp
      simp only [writeTail,writeAfter,cons_append,parseTail,hspan]
      rw [makeQueryText,hmake q (hq q rfl)]
      rfl
    | some f =>
      have hspan : (q ++ charNumberSign :: f).span (· != charNumberSign) = (q,charNumberSign :: f) := by
        rw [span_eq_takeWhile_dropWhile,takeWhile_append_of_pos hmark,
          dropWhile_append_of_pos hmark]
        simp
      simp only [writeTail,writeAfter,cons_append,parseTail,hspan]
      rw [makeQueryText,makeFragment,hmake q (hq q rfl),hmake f (hf f rfl)]
      rfl

end DartSdk.Uri
