import Mathlib

/-! Bytes and code units of runes, the numbers up to `0x10FFFF`. Surrogates are runes as well, so
that every sequence of sixteen-bit code units is the form of a sequence of runes. -/
namespace DartSdk.RuneEncoding
open List

def maxRune : ℕ := 0x10FFFF

def bom : ℕ := 0xFEFF

/-- The form of a rune in UTF-8. -/
def bytes (r : ℕ) : List ℕ :=
  if r ≤ 0x7F then [r]
  else if r ≤ 0x7FF then [0xC0+r/64,0x80+r%64]
  else if r ≤ 0xFFFF then [0xE0+r/4096,0x80+r/64%64,0x80+r%64]
  else [0xF0+r/262144,0x80+r/4096%64,0x80+r/64%64,0x80+r%64]

def IsLead (u : ℕ) : Prop := 0xD800 ≤ u ∧ u < 0xDC00

def IsTail (u : ℕ) : Prop := 0xDC00 ≤ u ∧ u < 0xE000

instance (u : ℕ) : Decidable (IsLead u) := inferInstanceAs (Decidable (_ ∧ _))

instance (u : ℕ) : Decidable (IsTail u) := inferInstanceAs (Decidable (_ ∧ _))

def combine (u v : ℕ) : ℕ := 0x10000+(u-0xD800)*1024+(v-0xDC00)

/-- The form of a rune in UTF-16. -/
def units (r : ℕ) : List ℕ :=
  if r ≤ 0xFFFF then [r] else [0xD800+(r-0x10000)/1024,0xDC00+(r-0x10000)%1024]

/-- Two surrogates that form a pair, where the second follows the first. -/
def Pairs (u v : ℕ) : Prop := IsLead u ∧ IsTail v

instance (u v : ℕ) : Decidable (Pairs u v) := inferInstanceAs (Decidable (_ ∧ _))

/-- The runes of code units, where surrogates without a partner stand for themselves. -/
def runes : List ℕ → List ℕ
  | [] => []
  | [u] => [u]
  | u :: v :: us => if Pairs u v then combine u v :: runes us else u :: runes (v :: us)

/-- Remove one byte order mark at the start of runes or code units. -/
def dropBom (us : List ℕ) : List ℕ := if us.head? = some bom then us.tail else us

/-- Remove one byte order mark at the start of bytes. -/
def dropBomBytes (bs : List ℕ) : List ℕ := if bytes bom <+: bs then bs.drop 3 else bs

variable {u v r : ℕ} {us rs : List ℕ}

lemma combine_le (hu : IsLead u) (hv : IsTail v) : combine u v ≤ maxRune := by
  unfold IsLead at hu
  unfold IsTail at hv
  unfold combine maxRune
  omega

lemma lt_combine : 0xFFFF < combine u v := by
  unfold combine
  omega

lemma units_combine (hu : IsLead u) (hv : IsTail v) : units (combine u v) = [u,v] := by
  unfold IsLead at hu
  unfold IsTail at hv
  unfold units combine
  rw [if_neg (by omega),cons.injEq,cons.injEq]
  refine ⟨?_,?_,rfl⟩ <;> omega

lemma units_of_le (h : r ≤ 0xFFFF) : units r = [r] := if_pos h

lemma units_of_lt (h : 0xFFFF < r) (hr : r ≤ maxRune) :
    ∃ u v, IsLead u ∧ IsTail v ∧ combine u v = r ∧ units r = [u,v] := by
  refine ⟨_,_,?_,?_,?_,if_neg (by omega)⟩
  · unfold maxRune at hr
    unfold IsLead
    omega
  · unfold IsTail
    omega
  · unfold combine
    omega

lemma units_le (hr : r ≤ maxRune) : ∀ u ∈ units r, u ≤ 0xFFFF := by
  unfold maxRune at hr
  unfold units
  split_ifs <;> simp <;> omega

lemma units_ne_nil (r : ℕ) : units r ≠ [] := by
  unfold units
  split_ifs <;> exact cons_ne_nil _ _

lemma bytes_one (h : r ≤ 0x7F) : bytes r = [r] := if_pos h

lemma bytes_two (h : 0x7F < r) (hr : r ≤ 0x7FF) : bytes r = [0xC0+r/64,0x80+r%64] := by
  rw [bytes,if_neg (by omega),if_pos hr]

lemma bytes_three (h : 0x7FF < r) (hr : r ≤ 0xFFFF) :
    bytes r = [0xE0+r/4096,0x80+r/64%64,0x80+r%64] := by
  rw [bytes,if_neg (by omega),if_neg (by omega),if_pos hr]

lemma bytes_four (h : 0xFFFF < r) :
    bytes r = [0xF0+r/262144,0x80+r/4096%64,0x80+r/64%64,0x80+r%64] := by
  rw [bytes,if_neg (by omega),if_neg (by omega),if_neg (by omega)]

lemma bytes_ne_nil (r : ℕ) : bytes r ≠ [] := by
  unfold bytes
  split_ifs <;> exact cons_ne_nil _ _

/-- Every sequence of code units is the form of its runes. -/
lemma flatMap_units_runes (h : ∀ u ∈ us, u ≤ 0xFFFF) : (runes us).flatMap units = us := by
  induction us using runes.induct with
  | case1 => rfl
  | case2 u => simp [runes,units_of_le (h u (by simp))]
  | case3 u v us hpair ih =>
    rw [runes,if_pos hpair,flatMap_cons,units_combine hpair.1 hpair.2,
      ih fun w hw => h w (by simp [hw])]
    rfl
  | case4 u v us hpair ih =>
    rw [runes,if_neg hpair,flatMap_cons,units_of_le (h u (by simp)),
      ih fun w hw => h w (mem_cons_of_mem _ hw)]
    rfl

lemma runes_le (h : ∀ u ∈ us, u ≤ 0xFFFF) : ∀ r ∈ runes us, r ≤ maxRune := by
  induction us using runes.induct with
  | case1 => simp [runes]
  | case2 u =>
    intro r hr
    have hu := h u (by simp)
    rw [runes,mem_singleton] at hr
    rw [hr,maxRune]
    omega
  | case3 u v us hpair ih =>
    rw [runes,if_pos hpair,forall_mem_cons]
    exact ⟨combine_le hpair.1 hpair.2,ih fun w hw => h w (by simp [hw])⟩
  | case4 u v us hpair ih =>
    rw [runes,if_neg hpair,forall_mem_cons]
    have hu := h u (by simp)
    exact ⟨by rw [maxRune]; omega,ih fun w hw => h w (mem_cons_of_mem _ hw)⟩

/-- The runes of a sequence are found again in its code units when no two neighbours pair. -/
lemma runes_flatMap_units (hle : ∀ r ∈ rs, r ≤ maxRune)
    (hchain : rs.IsChain fun u v => ¬Pairs u v) : runes (rs.flatMap units) = rs := by
  induction rs with
  | nil => rfl
  | cons r rs ih =>
    rw [forall_mem_cons] at hle
    have hrest := ih hle.2 hchain.tail
    rw [flatMap_cons]
    by_cases hr : r ≤ 0xFFFF
    · rw [units_of_le hr,singleton_append]
      cases rs with
      | nil => rfl
      | cons r' rs =>
        rw [forall_mem_cons] at hle
        rw [isChain_cons_cons] at hchain
        rw [flatMap_cons] at hrest ⊢
        by_cases hr' : r' ≤ 0xFFFF
        · rw [units_of_le hr',singleton_append] at hrest ⊢
          rw [runes,if_neg hchain.1,hrest]
        · obtain ⟨u,v,hu,hv, -,huv⟩ := units_of_lt (by omega) hle.2.1
          rw [huv] at hrest ⊢
          have hnot : ¬Pairs r u := fun h => absurd h.2.1 (not_le_of_gt hu.2)
          rw [cons_append,runes,if_neg hnot]
          exact congrArg _ hrest
    · obtain ⟨u,v,hu,hv,hcombine,huv⟩ := units_of_lt (by omega) hle.1
      rw [huv]
      change runes (u :: v :: rs.flatMap units) = _
      rw [runes,if_pos ⟨hu,hv⟩,hrest,hcombine]

/-- A unit at the end that does not end a pair is a rune. -/
lemma runes_append_singleton (hv : ¬IsTail v) : runes (us ++ [v]) = runes us ++ [v] := by
  induction us using runes.induct with
  | case1 => rfl
  | case2 u =>
    have hpair : ¬Pairs u v := fun h => hv h.2
    simp [runes,hpair]
  | case3 u w us hpair ih =>
    rw [cons_append,cons_append,runes,if_pos hpair,ih,runes,if_pos hpair]
    rfl
  | case4 u w us hpair ih =>
    rw [cons_append,cons_append,runes,if_neg hpair,← cons_append,ih,runes,if_neg hpair]
    rfl

lemma dropBom_eq_self_iff : dropBom us = us ↔ us.head? ≠ some bom := by
  unfold dropBom
  split_ifs with hhead
  · refine iff_of_false ?_ fun hne => hne hhead
    intro heq
    cases us with
    | nil => cases hhead
    | cons u us => simpa using congrArg length heq
  · exact iff_of_true rfl hhead

lemma mem_of_mem_dropBom (h : r ∈ dropBom rs) : r ∈ rs := by
  unfold dropBom at h
  split_ifs at h
  · exact mem_of_mem_tail h
  · exact h

lemma isChain_dropBom {R : ℕ → ℕ → Prop} (h : rs.IsChain R) : (dropBom rs).IsChain R := by
  unfold dropBom
  split_ifs
  · exact h.tail
  · exact h

lemma head?_units (hr : r ≤ maxRune) : (units r).head? = some bom ↔ r = bom := by
  by_cases h : r ≤ 0xFFFF
  · simp [units_of_le h]
  · obtain ⟨u,v,hu, -, -,huv⟩ := units_of_lt (by omega) hr
    unfold IsLead at hu
    simp only [huv,head?_cons,Option.some.injEq,bom]
    omega

/-- The mark is removed from the code units where it is removed from the runes. -/
lemma flatMap_units_dropBom (hle : ∀ r ∈ rs, r ≤ maxRune) :
    (dropBom rs).flatMap units = dropBom (rs.flatMap units) := by
  cases rs with
  | nil => rfl
  | cons r rs =>
    have hhead : (units r ++ rs.flatMap units).head? = (units r).head? := by
      rw [head?_append]
      cases h : units r with
      | nil => exact absurd h (units_ne_nil r)
      | cons u us => rfl
    rw [dropBom,dropBom,flatMap_cons,hhead]
    by_cases hr : r = bom
    · subst hr
      rfl
    · rw [if_neg (by simpa using hr),if_neg (mt (head?_units (hle r (by simp))).mp hr),
        flatMap_cons]

lemma bytes_bom_eq (rest : List ℕ) : bytes bom <+: bytes r ++ rest ↔ r = bom := by
  refine ⟨fun h => ?_,fun h => h ▸ prefix_append _ _⟩
  have hbom : bytes bom = [0xEF,0xBB,0xBF] := rfl
  rw [hbom] at h
  unfold bytes at h
  unfold bom
  split_ifs at h
  all_goals
    simp only [cons_append,cons_prefix_cons] at h
    omega

/-- The mark is removed from the bytes where it is removed from the runes. -/
lemma flatMap_bytes_dropBom (rs : List ℕ) :
    (dropBom rs).flatMap bytes = dropBomBytes (rs.flatMap bytes) := by
  cases rs with
  | nil => rfl
  | cons r rs =>
    rw [dropBom,dropBomBytes,flatMap_cons]
    by_cases hr : r = bom
    · rw [if_pos (by rw [hr]; rfl),if_pos ((bytes_bom_eq _).2 hr),hr]
      rfl
    · rw [if_neg (by simpa using hr),if_neg (mt (bytes_bom_eq _).1 hr),flatMap_cons]

end DartSdk.RuneEncoding
