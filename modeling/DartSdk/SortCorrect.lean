import DartSdk.SortSteps

/-! Each level of the recursion divides its range by the pivots and sorts shorter ranges. -/
namespace DartSdk.Sort
open Rearrangement List Nat

variable {α : Type} {compare : α → α → ℤ} {n : ℕ} {f g h : ℤ → α} {left right less great i : ℤ}
  {pivot1 pivot2 : α}

section Tests

section
variable (compare : α → α → ℤ)

lemma equalTests_fits (pivot : α) :
    Fits (fun x => compare x pivot < 0) (fun x => compare x pivot = 0) (fun x => 0 ≤ compare x pivot)
      (fun _ => True) (equalTests compare pivot) := by
  constructor <;> intro x <;> simp only [equalTests,decide_eq_true_iff,decide_eq_false_iff_not] <;> omega

lemma equalTests_separates (pivot : α) :
    Separates (fun x => compare x pivot = 0) (fun x => 0 ≤ compare x pivot) (equalTests compare pivot) := by
  refine ⟨fun x hx => ?_,fun x hx => ?_,fun x hx => ?_,fun x hx => hx.ge⟩
  all_goals
    simp only [equalTests,decide_eq_false_iff_not]
    omega

lemma outerTests_fits (pivot1 pivot2 : α) :
    Fits (fun x => compare x pivot1 < 0) (fun x => 0 ≤ compare x pivot1 ∧ compare x pivot2 ≤ 0)
      (fun x => 0 < compare x pivot2) (fun _ => True) (outerTests compare pivot1 pivot2) := by
  constructor <;> intro x <;> simp only [outerTests,decide_eq_true_iff,decide_eq_false_iff_not] <;> omega

/-- The elements are not below the first pivot, so that the search from above never finds one for the
low part. -/
lemma innerTests_fits (pivot1 pivot2 : α) :
    Fits (fun x => compare x pivot1 = 0) (fun _ => True) (fun x => compare x pivot2 = 0)
      (fun x => 0 ≤ compare x pivot1) (innerTests compare pivot1 pivot2) := by
  refine ⟨fun x _ hx => of_decide_eq_true hx,fun x hx => of_decide_eq_true hx,fun _ _ _ _ => trivial,
    fun x hR _ hx => ?_,fun _ _ _ _ => trivial⟩
  have hneg : compare x pivot1 < 0 := of_decide_eq_true hx
  omega

end

end Tests

section Middle

/-- The loop stops at the latest where an element differs from the pivot. -/
lemma skipEqual_spec {pivot : α} {step : ℤ} {m d : ℕ} (hrange : ∀ t : ℕ, t ≤ d → 0 ≤ i+step*t ∧ i+step*t < n)
    (hstop : compare (f (i+step*d)) pivot ≠ 0) (hm : d < m) :
    ∃ t : ℕ, t ≤ d ∧ skipEqual compare (tabulate n f) pivot step m i = some (i+step*t) ∧
      ∀ s : ℕ, s < t → compare (f (i+step*s)) pivot = 0 := by
  induction m generalizing i d with
  | zero => omega
  | succ m ih =>
    have hi := hrange 0 (zero_le d)
    rw [cast_zero,mul_zero,add_zero] at hi
    rw [skipEqual,read_tabulate hi.1 hi.2,some_bind]
    by_cases heq : compare (f i) pivot = 0
    · obtain ⟨d,rfl⟩ : ∃ e, d = e+1 := exists_eq_succ_of_ne_zero fun hd => by
        rw [hd,cast_zero,mul_zero,add_zero] at hstop
        exact hstop heq
      have hshift : ∀ t : ℕ, i+step+step*t = i+step*(t+1 : ℕ) := fun t => by
        push_cast
        ring
      obtain ⟨t,ht,hrun,hall⟩ := @ih (i+step) d (fun t ht => by
        rw [hshift]
        exact hrange (t+1) (by omega)) (by rwa [hshift]) (by omega)
      refine ⟨t+1,by omega,by rw [if_pos heq,hrun,hshift],fun s hs => ?_⟩
      cases s with
      | zero => rwa [cast_zero,mul_zero,add_zero]
      | succ s =>
        rw [← hshift]
        exact hall s (by omega)
    · refine ⟨0,zero_le d,?_,fun s hs => by omega⟩
      rw [if_neg heq,cast_zero,mul_zero,add_zero]

/-- The elements that are equal to a pivot go to the ends of the middle part. -/
lemma shrinkMiddle_spec (hc : IsTotalPreorder compare) (h0 : 0 < less) (hle : less ≤ great+1)
    (hn : great+1 < n) (hfirst : h (less-1) = pivot1) (hsecond : h (great+1) = pivot2)
    (hlow : ∀ i, less ≤ i → i ≤ great → Le compare pivot1 (h i)) (hlt : compare pivot1 pivot2 < 0) :
    ∃ g less' great', shrinkMiddle compare ⟨tabulate n h,less,great⟩ pivot1 pivot2 =
      some ⟨tabulate n g,less',great'⟩ ∧ less ≤ less' ∧ less' ≤ great'+1 ∧ great' ≤ great ∧
      Rearranges less great h g ∧ (∀ i, less ≤ i → i < less' → compare (g i) pivot1 = 0) ∧ ∀ i,
      great' < i → i ≤ great → compare (g i) pivot2 = 0 := by
  obtain ⟨t,ht,hup,hupall⟩ := skipEqual_spec (f := h) (i := less) (n := n) (m := n+1)
    (d := (great+1-less).toNat) (show ∀ t : ℕ, t ≤ (great+1-less).toNat →
      0 ≤ less+1*(t : ℤ) ∧ less+1*(t : ℤ) < n from fun t ht => by omega)
    (by
      rw [show less+1*(((great+1-less).toNat : ℕ) : ℤ) = great+1 by omega,hsecond]
      intro heq
      exact hlt.ne (hc.eq_zero_iff.1 heq)) (by omega)
  have hprev : compare (h (less+t-1)) pivot2 ≠ 0 := by
    intro heq
    rcases Nat.eq_zero_or_pos t with rfl | hpos
    · rw [Nat.cast_zero,add_zero,hfirst] at heq
      exact hlt.ne heq
    · have hequal := hupall (t-1) (by omega)
      rw [show less+1*((t-1 : ℕ) : ℤ) = less+t-1 by omega] at hequal
      have hge := hc.nonneg_of_le (hc.le_trans (hc.eq_zero_iff.1 heq).le hequal.le)
      exact absurd hge (not_le.2 hlt)
  obtain ⟨u,hu,hdown,hdownall⟩ := skipEqual_spec (i := great) (n := n) (m := n+1)
    (show ∀ u : ℕ, u ≤ (great+1-less-t).toNat →
      0 ≤ great + -1*(u : ℤ) ∧ great + -1*(u : ℤ) < n from fun u hu => by omega)
    (by rwa [show great + -1*(((great+1-less-t).toNat : ℕ) : ℤ) = less+t-1 by omega]) (by omega)
  obtain ⟨g,less',great',hrun,hhg,hparts⟩ := partition_guarded (n := n) (f := h)
    (innerTests_fits compare pivot1 pivot2)
    (show 0 ≤ less+1*(t : ℤ) by omega) (show great + -1*(u : ℤ) < n by omega) rfl (by omega)
    (fun i h1 h2 => hc.nonneg_of_le (hlow i (by omega) (by omega)))
  have hl := hparts.lo_le
  have hg := hparts.great_le
  refine ⟨g,less',great',?_,by omega,hparts.less_le_great,by omega,hhg.mono (by omega) (by omega),
    fun i h1 h2 => ?_,fun i h1 h2 => ?_⟩
  · rw [shrinkMiddle,length_tabulate,hup,some_bind,hdown,some_bind,hrun]
  · rcases lt_or_ge i (less+1*t) with hi | hi
    · rw [hhg.eq_outside (Or.inl hi)]
      have := hupall (i-less).toNat (by omega)
      rwa [show less+1*((i-less).toNat : ℤ) = i by omega] at this
    · exact hparts.low i hi h2
  · rcases lt_or_ge (great + -1*u) i with hi | hi
    · rw [hhg.eq_outside (Or.inr hi)]
      have := hdownall (great-i).toNat (by omega)
      rwa [show great + -1*((great-i).toNat : ℤ) = i by omega] at this
    · exact hparts.high i h1 hi

end Middle

section Quicksort

/-- A range whose parts are separated by the pivots. -/
structure Divided (compare : α → α → ℤ) (h : ℤ → α) (left less great right : ℤ) (pivot1 pivot2 : α) :
    Prop where
  first : h (less-1) = pivot1
  second : h (great+1) = pivot2
  low : ∀ i, left ≤ i → i ≤ less-2 → Le compare (h i) pivot1
  mid : ∀ i, less ≤ i → i ≤ great → Le compare pivot1 (h i) ∧ Le compare (h i) pivot2
  high : ∀ i, great+2 ≤ i → i ≤ right → Le compare pivot2 (h i)

lemma Divided.rearrange {h1 h2 h3 : ℤ → α} (hd : Divided compare h left less great right pivot1 pivot2)
    (hle : less ≤ great+1) (hlow : Rearranges left (less-2) h h1)
    (hhigh : Rearranges (great+2) right h1 h2) (hmid : Rearranges less great h2 h3) :
    Divided compare h3 left less great right pivot1 pivot2 := by
  have heq : ∀ i, (i < less ∨ great < i) → (i < great+2 ∨ right < i) → (i < left ∨ less-2 < i) →
      h3 i = h i := fun i a b c => by rw [hmid.eq_outside a,hhigh.eq_outside b,hlow.eq_outside c]
  refine ⟨?_,?_,fun i h1 h2 => ?_,?_,fun i h1 h2 => ?_⟩
  · rw [heq _ (by omega) (by omega) (by omega),hd.first]
  · rw [heq _ (by omega) (by omega) (by omega),hd.second]
  · rw [hmid.eq_outside (by omega),hhigh.eq_outside (by omega)]
    exact hlow.forall_range (p := fun x => Le compare x pivot1) hd.low i h1 h2
  · refine hmid.forall_range (p := fun x => Le compare pivot1 x ∧ Le compare x pivot2) fun i h1 h2 => ?_
    rw [hhigh.eq_outside (by omega),hlow.eq_outside (by omega)]
    exact hd.mid i h1 h2
  · rw [hmid.eq_outside (by omega)]
    refine hhigh.forall_range (fun i h1 h2 => ?_) i h1 h2
    rw [hlow.eq_outside (by omega)]
    exact hd.high i h1 h2

variable (hc : IsTotalPreorder compare)
include hc

lemma Divided.sorted (hd : Divided compare h left less great right pivot1 pivot2)
    (hpivots : Le compare pivot1 pivot2) (hlow : SortedOn (Le compare) left (less-2) h)
    (hmid : SortedOn (Le compare) less great h) (hhigh : SortedOn (Le compare) (great+2) right h) :
    SortedOn (Le compare) left right h := by
  have hbelow1 : ∀ i, left ≤ i → i ≤ less-1 → Le compare (h i) pivot1 := fun i h1 h2 => by
    rcases h2.eq_or_lt with rfl | hlt
    · rw [hd.first]
      exact hc.le_refl pivot1
    · exact hd.low i h1 (by omega)
  have habove2 : ∀ i, great+1 ≤ i → i ≤ right → Le compare pivot2 (h i) := fun i h1 h2 => by
    rcases h1.eq_or_lt with rfl | hlt
    · rw [hd.second]
      exact hc.le_refl pivot2
    · exact hd.high i (by omega) h2
  have habove1 : ∀ i, less-1 ≤ i → i ≤ right → Le compare pivot1 (h i) := fun i h1 h2 => by
    rcases h1.eq_or_lt with rfl | hlt
    · rw [hd.first]
      exact hc.le_refl pivot1
    · rcases le_or_gt i great with hi | hi
      · exact (hd.mid i (by omega) hi).1
      · exact hc.le_trans hpivots (habove2 i (by omega) h2)
  have hbelow2 : ∀ i, left ≤ i → i ≤ great+1 → Le compare (h i) pivot2 := fun i h1 h2 => by
    rcases h2.eq_or_lt with rfl | hlt
    · rw [hd.second]
      exact hc.le_refl pivot2
    · rcases le_or_gt less i with hi | hi
      · exact (hd.mid i hi (by omega)).2
      · exact hc.le_trans (hbelow1 i h1 (by omega)) hpivots
  intro i j hi hij hj
  rcases le_or_gt j (less-2) with h1 | h1
  · exact hlow i j hi hij h1
  · rcases le_or_gt i (less-1) with h2 | h2
    · exact hc.le_trans (hbelow1 i hi h2) (habove1 j (by omega) hj)
    · rcases le_or_gt j great with h3 | h3
      · exact hmid i j (by omega) hij h3
      · rcases le_or_gt i (great+1) with h4 | h4
        · exact hc.le_trans (hbelow2 i hi h4) (habove2 j (by omega) hj)
        · exact hhigh i j (by omega) hij hj

lemma partition_spec (hlt : left+32 < right) (h0 : 0 ≤ left) (hn : right < n)
    (hpivots : Le compare pivot1 pivot2)
    (hw : ∃ w, left < w ∧ w < right ∧ Le compare pivot1 (f w) ∧ Le compare (f w) pivot2) :
    ∃ g less great, partition (if decide (compare pivot1 pivot2 = 0) then equalTests compare pivot1
        else outerTests compare pivot1 pivot2) ⟨tabulate n f,left+1,right-1⟩ =
          some ⟨tabulate n g,less,great⟩ ∧
      Rearranges (left+1) (right-1) f g ∧ left < less ∧ less ≤ great+1 ∧ great < right ∧
      (∀ i, left < i → i < less → Le compare (g i) pivot1) ∧
      (∀ i, less ≤ i → i ≤ great → Le compare pivot1 (g i) ∧ Le compare (g i) pivot2) ∧
      ∀ i, great < i → i < right → Le compare pivot2 (g i) := by
  by_cases heq : compare pivot1 pivot2 = 0
  · have hback : Le compare pivot2 pivot1 := (hc.eq_zero_iff.1 heq).le
    obtain ⟨w,hlw,hwr,hw1,hw2⟩ := hw
    have hmid : compare (f w) pivot1 = 0 :=
      le_antisymm (hc.le_trans hw2 hback) (hc.nonneg_of_le hw1)
    obtain ⟨g,less,great,hrun,hfg,hparts⟩ := partition_unguarded (equalTests_fits compare pivot1)
      (show 0 ≤ left+1 by omega) (show right-1 < n by omega) (equalTests_separates compare pivot1) rfl
      (fun _ => trivial) (by omega) ⟨w,by omega,by omega,hmid⟩
    have hl := hparts.lo_le
    have hg := hparts.great_le
    refine ⟨g,less,great,by rw [decide_eq_true heq]; exact hrun,hfg,by omega,hparts.less_le_great,by omega,
      fun i h1 h2 => (hparts.low i (by omega) h2).le,fun i h1 h2 => ?_,fun i h1 h2 => ?_⟩
    · have hmid := hparts.mid i h1 (by omega) h2
      exact ⟨(hc.eq_zero_iff.1 hmid).le,hc.le_trans hmid.le hpivots⟩
    · exact hc.le_trans hback (hc.le_of_nonneg (hparts.high i h1 (by omega)))
  · obtain ⟨g,less,great,hrun,hfg,hparts⟩ := partition_guarded
      (outerTests_fits compare pivot1 pivot2) (show 0 ≤ left+1 by omega) (show right-1 < n by omega) rfl
      (by omega) (fun _ _ _ => trivial)
    have hl := hparts.lo_le
    have hg := hparts.great_le
    refine ⟨g,less,great,by rw [decide_eq_false heq]; exact hrun,hfg,by omega,hparts.less_le_great,
      by omega,fun i h1 h2 => (hparts.low i (by omega) h2).le,fun i h1 h2 => ?_,fun i h1 h2 => ?_⟩
    · have hmid := hparts.mid i h1 (by omega) h2
      exact ⟨hc.le_of_nonneg hmid.1,hmid.2⟩
    · exact hc.le_of_nonneg (hparts.high i h1 (by omega)).le

omit hc in
lemma withPivots_rearranges (hfg : Rearranges (left+1) (right-1) f g) :
    Rearranges left right (withPivots f left right pivot1 pivot2) (withPivots g left right pivot1 pivot2) := by
  obtain ⟨σ,hσ,rfl⟩ := hfg
  have hl := hσ left (by omega)
  have hr := hσ right (by omega)
  refine ⟨σ,fun i hi => hσ i (by omega),?_⟩
  funext i
  have hli : σ i = left ↔ i = left := ⟨fun h => σ.injective (h.trans hl.symm),fun h => h ▸ hl⟩
  have hri : σ i = right ↔ i = right := ⟨fun h => σ.injective (h.trans hr.symm),fun h => h ▸ hr⟩
  simp [withPivots,Function.update_apply,Function.comp_apply,hli,hri]

/-- Sorting of the middle part after the elements equal to a pivot have been moved to its ends. -/
lemma sorted_middle {less' great' : ℤ}
    (hmid : ∀ i, less ≤ i → i ≤ great → Le compare pivot1 (h i) ∧ Le compare (h i) pivot2)
    (hlow : ∀ i, less ≤ i → i < less' → compare (h i) pivot1 = 0)
    (hhigh : ∀ i, great' < i → i ≤ great → compare (h i) pivot2 = 0)
    (hsorted : SortedOn (Le compare) less' great' h) : SortedOn (Le compare) less great h := by
  intro i j hi hij hj
  rcases lt_or_ge i less' with h1 | h1
  · exact hc.le_trans (hlow i hi h1).le (hmid j (by omega) hj).1
  · rcases lt_or_ge great' j with h2 | h2
    · exact hc.le_trans (hmid i hi (by omega)).2 (hc.eq_zero_iff.1 (hhigh j h2 hj)).le
    · exact hsorted i j h1 hij h2

/-- What a recursive call does on a range of the list. -/
def Sorts (compare : α → α → ℤ) (n : ℕ) (run : List α → ℤ → ℤ → Option (List α)) (left right : ℤ) : Prop :=
  ∀ f : ℤ → α, ∃ g, run (tabulate n f) left right = some (tabulate n g) ∧ Rearranges left right f g ∧
    SortedOn (Le compare) left right g

lemma dualPivotQuicksort_spec {run : List α → ℤ → ℤ → Option (List α)}
    (h0 : 0 ≤ left) (hlt : left+32 < right) (hn : right < n)
    (hrun : ∀ l r, left ≤ l → r ≤ right → l ≤ r+1 → r-l < right-left → Sorts compare n run l r) :
    Sorts compare n (dualPivotQuicksort compare run) left right := by
  intro f
  obtain ⟨g0,pivot1,pivot2,htake,hf0,hpivots,hw⟩ := takePivots_spec hc f h0 hlt hn
  obtain ⟨g1,less,great,hpart,h01,hless,hle,hgreat,hlow,hmid,hhigh⟩ :=
    partition_spec hc hlt h0 hn hpivots hw
  obtain ⟨h,hplace,h1h,hfirst,hsecond,hlow',hmid',hhigh'⟩ :=
    placePivots_spec g1 pivot1 pivot2 h0 hless hle hgreat hn
  have hdivided : Divided compare h left less great right pivot1 pivot2 := by
    refine ⟨hfirst,hsecond,fun i a b => ?_,fun i a b => ?_,fun i a b => ?_⟩
    · obtain ⟨j,hj1,hj2,hj⟩ := hlow' i a (by omega)
      rw [hj]
      exact hlow j hj1 hj2
    · rw [hmid' i a b]
      exact hmid i a b
    · obtain ⟨j,hj1,hj2,hj⟩ := hhigh' i (by omega) b
      rw [hj]
      exact hhigh j hj1 hj2
  obtain ⟨k1,hrun1,hk1,hs1⟩ := hrun left (less-2) le_rfl (by omega) (by omega) (by omega) h
  obtain ⟨k2,hrun2,hk2,hs2⟩ := hrun (great+2) right (by omega) le_rfl (by omega) (by omega) k1
  have hall : Rearranges left right f k2 :=
    hf0.trans ((withPivots_rearranges h01).trans (h1h.trans
      ((hk1.mono le_rfl (by omega)).trans (hk2.mono (by omega) le_rfl))))
  -- It remains to sort the middle part.
  have hfinish : ∀ k3, Rearranges less great k2 k3 → SortedOn (Le compare) less great k3 →
      Rearranges left right f k3 ∧ SortedOn (Le compare) left right k3 := fun k3 hk3 hs3 => by
    refine ⟨hall.trans (hk3.mono (by omega) (by omega)),
      (hdivided.rearrange hle hk1 hk2 hk3).sorted hc hpivots (hs1.congr fun i a b => ?_) hs3
        (hs2.congr fun i a b => hk3.eq_outside (by omega))⟩
    rw [hk3.eq_outside (by omega),hk2.eq_outside (by omega)]
  have hdivided2 := hdivided.rearrange hle hk1 hk2 (.refl less great k2)
  have hstart : dualPivotQuicksort compare run (tabulate n f) left right =
      if decide (compare pivot1 pivot2 = 0) then some (tabulate n k2)
      else if less < (indices left right).index1 ∧ great > (indices left right).index5 then do
        let s ← shrinkMiddle compare ⟨tabulate n k2,less,great⟩ pivot1 pivot2
        run s.a s.less s.great
      else run (tabulate n k2) less great := by
    simp only [dualPivotQuicksort,htake,some_bind,hpart,hplace,hrun1,hrun2]
    rfl
  rw [hstart]
  by_cases heq : compare pivot1 pivot2 = 0
  · refine ⟨k2,if_pos (decide_eq_true heq),hfinish k2 (.refl ..) fun i j hi hij hj => ?_⟩
    exact hc.le_trans (hdivided2.mid i hi (by omega)).2
      (hc.le_trans (hc.eq_zero_iff.1 heq).le (hdivided2.mid j (by omega) hj).1)
  · rw [decide_eq_false heq,if_neg Bool.false_ne_true]
    split_ifs with hlarge
    · obtain ⟨k3,less',great',hshrink,hl,hlg,hg,hk3,hlow3,hhigh3⟩ := shrinkMiddle_spec hc
        (by omega) hle (show great+1 < n by omega) hdivided2.first hdivided2.second
        (fun i a b => (hdivided2.mid i a b).1) (lt_of_le_of_ne hpivots heq)
      obtain ⟨k4,hrun4,hk4,hs4⟩ := hrun less' great' (by omega) (by omega) hlg (by omega) k3
      have hmid4 := (hk3.trans (hk4.mono hl hg)).forall_range
        (p := fun x => Le compare pivot1 x ∧ Le compare x pivot2) hdivided2.mid
      refine ⟨k4,by rw [hshrink]; exact hrun4,hfinish k4 (hk3.trans (hk4.mono hl hg)) ?_⟩
      refine sorted_middle hc hmid4 (fun i a b => ?_) (fun i a b => ?_) hs4
      · rw [hk4.eq_outside (Or.inl b)]
        exact hlow3 i a b
      · rw [hk4.eq_outside (Or.inr a)]
        exact hhigh3 i a b
    · obtain ⟨k3,hrun3,hk3,hs3⟩ := hrun less great (by omega) (by omega) hle (by omega) k2
      exact ⟨k3,hrun3,hfinish k3 hk3 hs3⟩

lemma doSort_spec {fuel : ℕ} (h0 : 0 ≤ left) (hn : right < n)
    (hle : left ≤ right+1) (hfuel : right-left+1 < fuel) : Sorts compare n (doSort compare fuel) left right := by
  induction fuel generalizing left right with
  | zero => omega
  | succ fuel ih =>
    have hk : insertionSortThreshold = 32 := rfl
    intro f
    rw [doSort]
    split_ifs with hsmall
    · exact insertionSort_spec hc f h0 hn
    · exact dualPivotQuicksort_spec hc h0 (by omega) hn
        (fun l r hl hr hlr hlen => ih (by omega) (by omega) hlr (by omega)) f

end Quicksort

section Lists

lemma exists_tabulate {a : List α} (ha : a ≠ []) : ∃ f, a = tabulate a.length f := by
  obtain ⟨x, -⟩ := exists_mem_of_ne_nil a ha
  refine ⟨fun i => a.getD i.toNat x,ext_getElem (by simp) fun k h1 h2 => ?_⟩
  simp [tabulate,h1]

lemma getElem?_tabulate {k : ℕ} (hk : k < n) : (tabulate n f)[k]? = some (f k) := by
  rw [tabulate,getElem?_map,getElem?_range hk]
  rfl

lemma slice_tabulate (f : ℤ → α) {start m : ℕ} (h : start+m ≤ n) :
    ((tabulate n f).drop start).take m = (range m).map fun k : ℕ => f ((start : ℤ)+k) := by
  refine ext_getElem (by simp; omega) fun k h1 h2 => ?_
  simp [tabulate]

/-- `b` is `a` with the range from `start` to `stop` sorted. -/
structure SortedRange (compare : α → α → ℤ) (a b : List α) (start stop : ℕ) : Prop where
  length : b.length = a.length
  outside : ∀ i, i < start ∨ stop ≤ i → b[i]? = a[i]?
  perm : ((b.drop start).take (stop-start)).Perm ((a.drop start).take (stop-start))
  ordered : ∀ i x y, start ≤ i → i+1 < stop → b[i]? = some x → b[i+1]? = some y → compare x y ≤ 0

lemma doSort_sorts (hc : IsTotalPreorder compare) (a : List α) {start stop : ℕ} (hle : start ≤ stop)
    (hlen : stop ≤ a.length) :
    ∃ b, doSort compare (a.length+1) a start (stop-1) = some b ∧ SortedRange compare a b start stop := by
  rcases eq_or_ne a [] with rfl | hne
  · have hstop : stop = 0 := by simpa using hlen
    have hstart : start = 0 := by omega
    subst hstop hstart
    exact ⟨[],rfl,rfl,fun _ _ => rfl,.refl _,fun i x y _ h => by omega⟩
  · obtain ⟨f,hf⟩ := exists_tabulate hne
    obtain ⟨g,hrun,hfg,hs⟩ := doSort_spec (n := a.length) hc (by omega)
      (by omega) (by omega)
      (show (stop : ℤ)-1-start+1 < (a.length+1 : ℕ) by omega) f
    rw [← hf] at hrun
    refine ⟨_,hrun,by simp,fun i hi => ?_,?_,fun i x y h1 h2 hx hy => ?_⟩
    · rcases lt_or_ge i a.length with hlt | hge
      · conv_rhs => rw [hf]
        rw [getElem?_tabulate hlt,getElem?_tabulate hlt,hfg.eq_outside (by omega)]
      · rw [getElem?_eq_none (by simpa using hge),getElem?_eq_none hge]
    · conv_rhs => rw [hf]
      rw [slice_tabulate g (by omega),slice_tabulate f (by omega)]
      exact Rearranges.perm (by rwa [show (start : ℤ)+(stop-start : ℕ)-1 = stop-1 by omega])
    · rw [getElem?_tabulate (by omega),Option.some_inj] at hx hy
      rw [← hx,← hy]
      exact hs i (i+1 : ℕ) (by omega) (by omega) (by omega)

/-- For a comparison function of a total preorder both entry points finish without an access outside
of the list, sort their range and leave the rest of the list. -/
theorem sort_sorts (hc : IsTotalPreorder compare) (a : List α) :
    (∃ b, sort compare a = some b ∧ b.Perm a ∧ SortedRange compare a b 0 a.length) ∧
    ∀ start stop : ℤ, if start < 0 ∨ stop > a.length ∨ stop < start
      then sortRange compare a start stop = .error .outOfRange
      else ∃ b, sortRange compare a start stop = .ok b ∧ SortedRange compare a b start.toNat stop.toNat := by
  refine ⟨?_,fun start stop => ?_⟩
  · obtain ⟨b,hrun,hsorted⟩ := doSort_sorts hc a (Nat.zero_le a.length) le_rfl
    refine ⟨b,hrun,?_,hsorted⟩
    have hperm := hsorted.perm
    rw [List.drop_zero,List.drop_zero,Nat.sub_zero,List.take_length,
      List.take_of_length_le hsorted.length.le] at hperm
    exact hperm
  · split_ifs with hbad
    · rw [sortRange,if_pos hbad]
    · obtain ⟨b,hrun,hsorted⟩ := doSort_sorts hc a (show start.toNat ≤ stop.toNat by omega) (by omega)
      rw [show ((start.toNat : ℕ) : ℤ) = start by omega,show ((stop.toNat : ℕ) : ℤ) = stop by omega] at hrun
      refine ⟨b,?_,hsorted⟩
      rw [sortRange,if_neg hbad,hrun]

/-- The subtraction of integers is a comparison function. -/
theorem sort_sorts_sub : ∃ b, sort (fun x y : ℤ => x-y) [3,1,2] = some b ∧ b.Perm [3,1,2] ∧
    SortedRange (fun x y : ℤ => x-y) [3,1,2] b 0 3 :=
  (sort_sorts ⟨fun x y => by rw [← Int.sign_neg,neg_sub],fun x y z h1 h2 => by omega⟩ [3,1,2]).1

end Lists

end DartSdk.Sort
