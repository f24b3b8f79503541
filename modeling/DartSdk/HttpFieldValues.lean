import DartSdk.HttpParser

/-! Lists of elements as they are written in header fields, and what the parser's tokenizer makes of
them. -/
namespace DartSdk.Http
open List

variable (s : Text)

def trimBlanks : Text := (s.dropWhile isBlank).rdropWhile isBlank

variable (value : Text)

/-- The elements of a field value that is a list. -/
def elements : List Text := (value.splitOn charComma).map trimBlanks

/-- What `_tokenizeFieldValue` makes of one element. -/
def cutBlanks : Text := s.drop (s.countP isBlank)

/-- No blank follows another character. -/
def BlanksFirst : Prop := ∀ c ∈ s.dropWhile isBlank, isBlank c = false

lemma modifyHead_nil_append (l : List Text) : l.modifyHead ([] ++ ·) = l := by
  cases l <;> rfl

lemma tokenizeFrom_eq (element value : Text) : tokenizeFrom element (element.countP isBlank) value =
      ((value.splitOn charComma).modifyHead (element ++ ·)).map cutBlanks := by
  induction value generalizing element with
  | nil => simp [tokenizeFrom,cutBlanks]
  | cons c value ih =>
    have hsplit := splitOnP_cons_eq_if_modifyHead (p := (· == charComma)) c value
    rw [splitOn,hsplit,tokenizeFrom]
    by_cases hc : c = charComma
    · have hrest := ih []
      rw [countP_nil,modifyHead_nil_append] at hrest
      rw [if_pos hc,if_pos (by simpa using hc),hrest]
      simp [cutBlanks,splitOn]
    · have hcount : (if isBlank c then element.countP isBlank+1 else element.countP isBlank) =
          (element ++ [c]).countP isBlank := by
        rw [countP_append,countP_singleton]
        split_ifs <;> rfl
      rw [if_neg hc,hcount,ih,if_neg (by simpa using hc),modifyHead_modifyHead]
      congr 2
      funext rest
      simp

lemma tokenizeFieldValue_eq :
    tokenizeFieldValue value = (value.splitOn charComma).map cutBlanks := by
  have h := tokenizeFrom_eq [] value
  rwa [countP_nil,modifyHead_nil_append] at h

lemma exists_trim : ∃ front back, s = front ++ trimBlanks s ++ back ∧
    s.dropWhile isBlank = trimBlanks s ++ back ∧ (∀ c ∈ front, isBlank c = true) ∧
    ∀ c ∈ back, isBlank c = true := by
  refine ⟨s.takeWhile isBlank,(s.dropWhile isBlank).rtakeWhile isBlank,?_,?_,?_,?_⟩
  · rw [append_assoc,trimBlanks,rdropWhile_append_rtakeWhile,takeWhile_append_dropWhile]
  · rw [trimBlanks,rdropWhile_append_rtakeWhile]
  · exact fun c hc => mem_takeWhile_imp hc
  · exact fun c hc => mem_rtakeWhile_imp hc

lemma countP_of_all {s : Text} (h : ∀ c ∈ s, isBlank c = true) : s.countP isBlank = s.length :=
  countP_eq_length.2 h

lemma cutBlanks_append {front core back : Text} (hfront : ∀ c ∈ front, isBlank c = true)
    (hback : ∀ c ∈ back, isBlank c = true) : cutBlanks (front ++ core ++ back) =
      (core ++ back).drop (core.countP isBlank+back.length) := by
  rw [cutBlanks,countP_append,countP_append,countP_of_all hfront,countP_of_all hback,
    append_assoc,drop_append,drop_of_length_le (by omega),nil_append]
  congr 1
  omega

/-- Where the own characters are followed by blanks, too much is cut off. -/
lemma drop_back_ne {core back : Text} (hcore : core ≠ []) (hne : back ≠ [])
    (hback : ∀ c ∈ back, isBlank c = true) (hnone : core.countP isBlank = 0) :
    (core ++ back).drop back.length ≠ core := by
  intro heq
  have hlast := congrArg getLast? heq
  rw [getLast?_drop,if_neg,getLast?_append_of_ne_nil _ hne] at hlast
  · have hmem : back.getLast hne ∈ core := by
      rw [getLast?_eq_some_getLast hne] at hlast
      exact mem_of_getLast? hlast.symm
    have hblank := countP_eq_zero.1 hnone _ hmem
    exact hblank (hback _ (getLast_mem hne))
  · have := length_pos_of_ne_nil hcore
    rw [length_append]
    omega

lemma cutBlanks_eq_iff : cutBlanks s = trimBlanks s ↔ BlanksFirst s := by
  obtain ⟨front,back,hs,hdrop,hfront,hback⟩ := exists_trim s
  have hcut : cutBlanks s =
      (trimBlanks s ++ back).drop ((trimBlanks s).countP isBlank+back.length) := by
    rw [← cutBlanks_append hfront hback,← hs]
  rw [BlanksFirst,hdrop,hcut]
  constructor
  · intro heq
    have hcount : (trimBlanks s).countP isBlank = 0 := by
      have hlength := congrArg length heq
      rw [length_drop,length_append] at hlength
      have hle : (trimBlanks s).countP isBlank ≤ (trimBlanks s).length := countP_le_length
      omega
    have hback0 : back = [] := by
      by_contra hne
      rw [hcount,Nat.zero_add] at heq
      by_cases hcore : trimBlanks s = []
      · rw [hcore,nil_append] at hdrop
        have hne' : s.dropWhile isBlank ≠ [] := by rwa [hdrop]
        have hmem := head_mem hne'
        have hhead := head_dropWhile_not isBlank hne'
        rw [hback _ (hdrop ▸ hmem)] at hhead
        cases hhead
      · exact drop_back_ne hcore hne hback hcount heq
    rw [hback0,append_nil]
    intro c hc
    simpa using countP_eq_zero.1 hcount c hc
  · intro hnone
    have hback0 : back = [] := by
      refine eq_nil_iff_forall_not_mem.2 fun c hc => ?_
      have hblank := hnone c (mem_append_right _ hc)
      rw [hback c hc] at hblank
      cases hblank
    have hcount : (trimBlanks s).countP isBlank = 0 := by
      refine countP_eq_zero.2 fun c hc => ?_
      simp [hnone c (mem_append_left _ hc)]
    rw [hback0,hcount]
    simp

lemma tokenizeFieldValue_eq_iff : tokenizeFieldValue value = elements value ↔
    ∀ s ∈ value.splitOn charComma, BlanksFirst s := by
  rw [tokenizeFieldValue_eq,elements,map_inj_left]
  exact forall₂_congr fun s _ => cutBlanks_eq_iff s

/-- The parser finds no word that is not there: what it cuts off are blanks, or the rest has one. -/
lemma cutBlanks_word {s : Text} (h : ∀ c ∈ cutBlanks s, isBlank c = false) :
    cutBlanks s = trimBlanks s := by
  rw [cutBlanks_eq_iff]
  have hcount : (s.take (s.countP isBlank)).countP isBlank = s.countP isBlank := by
    have hsplit : s.countP isBlank = (s.take (s.countP isBlank)).countP isBlank +
        (s.drop (s.countP isBlank)).countP isBlank := by
      rw [← countP_append,take_append_drop]
    have hzero : (s.drop (s.countP isBlank)).countP isBlank = 0 :=
      countP_eq_zero.2 fun c hc => by simp [h c hc]
    omega
  have hall : ∀ c ∈ s.take (s.countP isBlank), isBlank c = true := by
    rw [← countP_eq_length,hcount,length_take]
    exact (Nat.min_eq_left countP_le_length).symm
  intro c hc
  rw [← take_append_drop (s.countP isBlank) s,dropWhile_append_of_pos hall] at hc
  exact h c ((dropWhile_sublist _).subset hc)

def lowerChar (c : ℕ) : ℕ := if 0x41 ≤ c ∧ c ≤ 0x5A then c+0x20 else c

lemma toLowerCase_eq : toLowerCase s = s.map lowerChar := rfl

lemma toLowerCaseByte_small : ∀ c < 128, toLowerCaseByte c = lowerChar c := by
  decide +kernel

lemma toLowerCaseByte_large {c : ℕ} (h : 128 ≤ c) : 128 ≤ toLowerCaseByte c := by
  unfold toLowerCaseByte
  split_ifs
  · exact h.trans Nat.left_le_or
  · exact h

lemma toLowerCaseByte_eq_iff {c d : ℕ} (hd : d < 128) : toLowerCaseByte c = d ↔ lowerChar c = d := by
  by_cases hc : c < 128
  · rw [toLowerCaseByte_small c hc]
  · have hlarge := toLowerCaseByte_large (Nat.le_of_not_lt hc)
    have hkeep : lowerChar c = c := if_neg (by omega)
    omega

lemma caseInsensitiveCompare_iff {expected value : Text} (hsmall : ∀ d ∈ expected, d < 128) :
    caseInsensitiveCompare expected value = true ↔ toLowerCase value = expected := by
  rw [caseInsensitiveCompare,beq_iff_eq,toLowerCase_eq,eq_comm]
  induction value generalizing expected with
  | nil => simp
  | cons c value ih =>
    cases expected with
    | nil => simp
    | cons d expected =>
      rw [map_cons,map_cons,cons.injEq,cons.injEq,toLowerCaseByte_eq_iff (hsmall d (by simp)),
        ih fun d' hd' => hsmall d' (mem_cons_of_mem d hd')]

lemma isTokenChar_lt {c : ℕ} (h : isTokenChar c = true) : c < 128 := by
  simp only [isTokenChar,Bool.and_eq_true,decide_eq_true_eq] at h
  exact h.1.2

lemma map_toLowerCaseByte {s : Text} (h : ∀ c ∈ s, isTokenChar c = true) :
    s.map toLowerCaseByte = toLowerCase s :=
  map_congr_left fun c hc => toLowerCaseByte_small c (isTokenChar_lt (h c hc))

/-- A character that is no letter is found in a word if it is found in its lower case. -/
lemma not_mem_of_toLowerCase {s : Text} {c : ℕ} (hc : lowerChar c = c)
    (h : c ∉ toLowerCase s) : c ∉ s := by
  intro hmem
  refine h ?_
  rw [toLowerCase_eq,← hc]
  exact mem_map_of_mem hmem

lemma splitOn_of_not_mem {s : Text} (h : charComma ∉ s) : s.splitOn charComma = [s] := by
  induction s with
  | nil => rfl
  | cons c s ih =>
    have hsplit := splitOnP_cons_eq_if_modifyHead (p := (· == charComma)) c s
    rw [mem_cons,not_or] at h
    rw [splitOn,hsplit,if_neg (by simpa using Ne.symm h.1)]
    rw [splitOn] at ih
    rw [ih h.2]
    rfl

lemma trimBlanks_of_none {s : Text} (h : ∀ c ∈ s, isBlank c = false) : trimBlanks s = s := by
  have hword : ∀ c ∈ cutBlanks s, isBlank c = false := fun c hc => h c (mem_of_mem_drop hc)
  have hcount : s.countP isBlank = 0 := countP_eq_zero.2 fun c hc => by simp [h c hc]
  rw [← cutBlanks_word hword,cutBlanks,hcount,drop_zero]

lemma not_blank_of_word {s word : Text} (h : toLowerCase s = word) (hsp : charSp ∉ word)
    (hht : charHt ∉ word) : ∀ c ∈ s, isBlank c = false := by
  intro c hc
  rw [isBlank,Bool.or_eq_false_iff,beq_eq_false_iff_ne,beq_eq_false_iff_ne]
  constructor
  · rintro rfl
    exact not_mem_of_toLowerCase (by decide) (h ▸ hsp) hc
  · rintro rfl
    exact not_mem_of_toLowerCase (by decide) (h ▸ hht) hc

lemma elements_word {s word : Text} (h : toLowerCase s = word) (hcomma : charComma ∉ word)
    (hsp : charSp ∉ word) (hht : charHt ∉ word) : elements s = [s] := by
  rw [elements,splitOn_of_not_mem (not_mem_of_toLowerCase (by decide) (h ▸ hcomma)),
    map_singleton,trimBlanks_of_none (not_blank_of_word h hsp hht)]

end DartSdk.Http
