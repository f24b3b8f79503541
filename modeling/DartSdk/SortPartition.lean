import DartSdk.Sort
import DartSdk.Rearrangement
import DartSdk.Iteration

/-! One iteration of a partition loop keeps the parts of the range apart that have been looked at,
and only exchanges elements of the range. -/
namespace DartSdk.Sort
open Function (comp_apply update update_apply)
open Rearrangement List Equiv

variable {α : Type} {n : ℕ} {f g : ℤ → α} {i j k : ℤ}

/-- The list of the first `n` values of `f`. -/
def tabulate (n : ℕ) (f : ℤ → α) : List α := (List.range n).map fun k : ℕ => f k

@[simp] lemma length_tabulate (n : ℕ) (f : ℤ → α) : (tabulate n f).length = n := by
  rw [tabulate,length_map,length_range]

lemma read_tabulate (h0 : 0 ≤ i) (hn : i < n) : read (tabulate n f) i = some (f i) := by
  rw [read,if_neg (by omega),tabulate,getElem?_map,getElem?_range (by omega),
    Option.map_some,Int.toNat_of_nonneg h0]

lemma write_tabulate (h0 : 0 ≤ i) (hn : i < n) (x : α) :
    write (tabulate n f) i x = some (tabulate n (update f i x)) := by
  rw [write,length_tabulate,if_neg (by omega)]
  congr 1
  refine ext_getElem (by simp) fun k h1 h2 => ?_
  rw [getElem_set]
  simp only [tabulate,getElem_map,getElem_range,update_apply]
  split_ifs <;> first | rfl | omega

lemma update_swap (f : ℤ → α) (i j : ℤ) : update (update f i (f j)) j (f i) = f ∘ swap i j := by
  funext k
  simp only [update_apply,comp_apply,swap_apply_def]
  split_ifs <;> simp_all

/-- The three writes of a triple exchange. -/
def cycle (f : ℤ → α) (k less great : ℤ) : ℤ → α := (f ∘ Equiv.swap k less) ∘ Equiv.swap less great

lemma cycle_apply {less great : ℤ} (hk : k ≠ great) (hl : less ≠ great) : cycle f k less great i =
    if i = less then f great else if i = great then f k else if i = k then f less else f i := by
  simp only [cycle,comp_apply,swap_apply_def]
  split_ifs <;> simp_all

lemma update_cycle {less great : ℤ} (hk : k ≠ great) (hl : less ≠ great) :
    update (update (update f k (f less)) less
      (update f k (f less) great)) great (f k) = cycle f k less great := by
  funext i
  rw [cycle_apply hk hl]
  simp only [update_apply]
  split_ifs <;> simp_all

section Parts
variable (low mid high : α → Prop) (lo hi : ℤ)

/-- The parts of the range from `lo` to `hi` before iteration `k`. -/
structure Parts (f : ℤ → α) (less k great : ℤ) : Prop where
  lo_le : lo ≤ less
  less_le : less ≤ k
  less_le_great : less ≤ great+1
  great_le : great ≤ hi
  low : ∀ i, lo ≤ i → i < less → low (f i)
  mid : ∀ i, less ≤ i → i < k → i ≤ great → mid (f i)
  high : ∀ i, great < i → i ≤ hi → high (f i)

variable {low mid high lo hi} {less great : ℤ}

namespace Parts

lemma start (f : ℤ → α) (h : lo ≤ hi+1) : Parts low mid high lo hi f lo lo hi :=
  ⟨le_rfl,le_rfl,h,le_rfl,fun i h1 h2 => by omega,fun i h1 h2 => by omega,fun i h1 h2 => by omega⟩

variable (h : Parts low mid high lo hi f less k great)
include h

lemma keep (hmid : mid (f k)) : Parts low mid high lo hi f less (k+1) great := by
  refine ⟨h.lo_le,by have := h.less_le; omega,h.less_le_great,h.great_le,h.low,?_,h.high⟩
  intro i h1 h2 h3
  rcases eq_or_ne i k with rfl | hne
  · exact hmid
  · exact h.mid i h1 (by omega) h3

lemma moveLow (hk : k ≤ great) (hlow : low (f k)) :
    Parts low mid high lo hi (f ∘ swap k less) (less+1) (k+1) great := by
  have hle := h.less_le
  have hlo := h.lo_le
  have hhi := h.great_le
  refine ⟨by omega,by omega,by omega,hhi,fun i h1 h2 => ?_,fun i h1 h2 h3 => ?_,fun i h1 h2 => ?_⟩
  all_goals
    rw [comp_apply,swap_apply_def]
    split_ifs with hik hil
  · have : k = less := by omega
    rwa [← this]
  · exact hlow
  · exact h.low i h1 (by omega)
  · exact h.mid less le_rfl (by omega) (by omega)
  · omega
  · exact h.mid i (by omega) (by omega) h3
  · omega
  · omega
  · exact h.high i h1 h2

lemma shrink {great' : ℤ} (hle : great' ≤ great) (hless : less ≤ great'+1)
    (hhigh : ∀ i, great' < i → i ≤ great → high (f i)) : Parts low mid high lo hi f less k great' := by
  refine ⟨h.lo_le,h.less_le,hless,hle.trans h.great_le,h.low,
    fun i h1 h2 h3 => h.mid i h1 h2 (h3.trans hle),fun i h1 h2 => ?_⟩
  rcases le_or_gt i great with hi | hi
  · exact hhigh i h1 hi
  · exact h.high i hi h2

lemma exchange (hk : k < great) (hmid : mid (f great)) (hhigh : high (f k)) :
    Parts low mid high lo hi (f ∘ swap k great) less (k+1) (great-1) := by
  have hle := h.less_le
  have hlo := h.lo_le
  have hhi := h.great_le
  refine ⟨hlo,by omega,by omega,by omega,fun i h1 h2 => ?_,fun i h1 h2 h3 => ?_,fun i h1 h2 => ?_⟩
  all_goals
    rw [comp_apply,swap_apply_def]
    split_ifs with hik hig
  · omega
  · omega
  · exact h.low i h1 h2
  · exact hmid
  · omega
  · exact h.mid i h1 (by omega) (by omega)
  · omega
  · exact hhigh
  · exact h.high i (by omega) h2

/-- The search went below `k`, to an element of the middle that is exchanged although the loop has
looked at it. The middle then ends before the exchanged elements. -/
lemma overrun (hk : less < k) (hle : k ≤ great) (hhigh : ∀ i, k ≤ i → i ≤ great → high (f i))
    (hmid : high (f (k-1))) : Parts low mid high lo hi (f ∘ swap k (k-1)) less (k+1) (k-1-1) := by
  have hlo := h.lo_le
  have hhi := h.great_le
  refine ⟨hlo,by omega,by omega,by omega,fun i h1 h2 => ?_,fun i h1 h2 h3 => ?_,fun i h1 h2 => ?_⟩
  all_goals
    rw [comp_apply,swap_apply_def]
    split_ifs with hik hig
  · omega
  · omega
  · exact h.low i h1 h2
  · omega
  · omega
  · exact h.mid i h1 (by omega) (by omega)
  · exact hmid
  · exact hhigh k le_rfl hle
  · rcases le_or_gt i great with hi | hi
    · exact hhigh i (by omega) hi
    · exact h.high i hi h2

lemma finish (hk : great < k) : Parts low mid high lo hi f less (great+1) great :=
  ⟨h.lo_le,h.less_le_great,h.less_le_great,h.great_le,h.low,
    fun i h1 _ h3 => h.mid i h1 (by omega) h3,h.high⟩

/-- The current element goes up, one from above goes to the low part. -/
lemma exchangeLow (hk : k < great) (hlow : low (f great)) (hhigh : high (f k)) :
    Parts low mid high lo hi (cycle f k less great) (less+1) (k+1) (great-1) := by
  have hle := h.less_le
  have hlo := h.lo_le
  have hhi := h.great_le
  have hcycle := fun i => @cycle_apply α f i k less great hk.ne (by omega)
  refine ⟨by omega,by omega,by omega,by omega,fun i h1 h2 => ?_,fun i h1 h2 h3 => ?_,fun i h1 h2 => ?_⟩
  all_goals
    rw [hcycle]
    split_ifs with hil hig hik
  · exact hlow
  · omega
  · omega
  · exact h.low i h1 (by omega)
  · omega
  · omega
  · exact h.mid less le_rfl (by omega) (by omega)
  · exact h.mid i (by omega) (by omega) (by omega)
  · omega
  · exact hhigh
  · omega
  · exact h.high i (by omega) h2

end Parts

end Parts

lemma ne_of_test {test : α → Bool} {i j : ℤ} (hi : test (f i) = false) (hj : test (f j) = true) :
    i ≠ j := by
  rintro rfl
  rw [hi] at hj
  cases hj

section Scan
variable {tests : Tests α}

/-- A guarded search stops above `k` at an element that is not high, or just below `k`. -/
lemma scan_guarded (hguard : tests.guarded = true) (h0 : 0 ≤ k) (hk : tests.high (f k) = true) {m : ℕ}
    {great : ℤ} (hle : k ≤ great) (hn : great < n) (hm : great-k < m) :
    ∃ top found, scan tests (tabulate n f) k m great = some (top,found) ∧ top ≤ great ∧
      (∀ i, top < i → i ≤ great → tests.high (f i) = true) ∧
      if found then k < top ∧ tests.high (f top) = false else top = k-1 := by
  induction m generalizing great with
  | zero => omega
  | succ m ih =>
    rw [scan,read_tabulate (by omega) hn,some_bind]
    cases hhigh : tests.high (f great) with
    | false =>
      exact ⟨great,true,by simp,le_rfl,fun i h1 h2 => by omega,
        hle.lt_of_ne (ne_of_test hhigh hk).symm,hhigh⟩
    | true =>
      simp only [hguard]
      by_cases hstop : great-1 < k
      · refine ⟨great-1,false,by simp [hstop],by omega,fun i h1 h2 => ?_,by simp; omega⟩
        rwa [show i = great by omega]
      · obtain ⟨top,found,hscan,htop,hall,hpost⟩ := @ih (great-1) (by omega) (by omega) (by omega)
        refine ⟨top,found,by simpa [hstop] using hscan,by omega,fun i h1 h2 => ?_,hpost⟩
        rcases eq_or_ne i great with rfl | hne
        · exact hhigh
        · exact hall i h1 (by omega)

/-- A search without a guard stops at the latest at an element that is not high. -/
lemma scan_unguarded (hguard : tests.guarded = false) {w : ℤ} (h0 : 0 ≤ w)
    (hw : tests.high (f w) = false) {m : ℕ} {great : ℤ} (hle : w ≤ great) (hn : great < n)
    (hm : great-w < m) :
    ∃ top, scan tests (tabulate n f) k m great = some (top,true) ∧ w ≤ top ∧ top ≤ great ∧
      (∀ i, top < i → i ≤ great → tests.high (f i) = true) ∧ tests.high (f top) = false := by
  induction m generalizing great with
  | zero => omega
  | succ m ih =>
    rw [scan,read_tabulate (by omega) hn,some_bind]
    cases hhigh : tests.high (f great) with
    | false => exact ⟨great,by simp,hle,le_rfl,fun i h1 h2 => by omega,hhigh⟩
    | true =>
      have hne := ne_of_test hw hhigh
      obtain ⟨top,hscan,htop,hle',hall,hpost⟩ := @ih (great-1) (by omega) (by omega) (by omega)
      refine ⟨top,by simpa [hguard] using hscan,htop,by omega,fun i h1 h2 => ?_,hpost⟩
      rcases eq_or_ne i great with rfl | hne'
      · exact hhigh
      · exact hall i h1 (by omega)

end Scan

section Step
variable {tests : Tests α} {less great : ℤ} (hless : 0 ≤ less) (hk : less ≤ k) (hn : k < n)
include hless hk hn

lemma partitionStep_low (hlow : tests.low (f k) = true) :
    partitionStep tests ⟨tabulate n f,less,great⟩ k =
      some ⟨tabulate n (f ∘ swap k less),less+1,great⟩ := by
  rw [partitionStep,read_tabulate (by omega) hn,some_bind,if_pos hlow]
  by_cases hne : k = less
  · subst hne
    rw [if_neg (not_not.2 rfl),Equiv.swap_self]
    rfl
  · simp only [ne_eq,hne,some_bind,
      read_tabulate hless (show less < n by omega),write_tabulate (by omega) hn,
      write_tabulate hless (show less < n by omega),update_swap]
    rfl

lemma partitionStep_mid (hlow : tests.low (f k) = false) (hhigh : tests.high (f k) = false) :
    partitionStep tests ⟨tabulate n f,less,great⟩ k = some ⟨tabulate n f,less,great⟩ := by
  rw [partitionStep,read_tabulate (by omega) hn,some_bind,hlow,hhigh]
  rfl

variable (hlow : tests.low (f k) = false) (hhigh : tests.high (f k) = true) {top : ℤ}
include hlow hhigh

lemma partitionStep_stop (hscan : scan tests (tabulate n f) k (n+1) great = some (top,false)) :
    partitionStep tests ⟨tabulate n f,less,great⟩ k = some ⟨tabulate n f,less,top⟩ := by
  rw [partitionStep,read_tabulate (by omega) hn,some_bind,hlow,hhigh,length_tabulate,hscan]
  rfl

lemma partitionStep_exchange (hscan : scan tests (tabulate n f) k (n+1) great = some (top,true))
    (h0 : 0 ≤ top) (htop : top < n) (hlg : tests.lowGreat (f top) = false) :
    partitionStep tests ⟨tabulate n f,less,great⟩ k =
      some ⟨tabulate n (f ∘ swap k top),less,top-1⟩ := by
  rw [partitionStep,read_tabulate (by omega) hn,some_bind,hlow,hhigh,length_tabulate,hscan]
  simp only [some_bind,read_tabulate h0 htop,hlg,
    write_tabulate (by omega) hn,write_tabulate h0 htop,update_swap]
  rfl

lemma partitionStep_cycle (hscan : scan tests (tabulate n f) k (n+1) great = some (top,true))
    (htop : k < top) (hn' : top < n) (hlg : tests.lowGreat (f top) = true) :
    partitionStep tests ⟨tabulate n f,less,great⟩ k =
      some ⟨tabulate n (cycle f k less top),less+1,top-1⟩ := by
  rw [partitionStep,read_tabulate (by omega) hn,some_bind,hlow,hhigh,length_tabulate,hscan]
  have h0 : 0 ≤ top := by omega
  have hless' : less < n := by omega
  simp only [some_bind,read_tabulate h0 hn',hlg,
    write_tabulate (by omega) hn,write_tabulate h0 hn',read_tabulate hless hless',
    write_tabulate hless hless',update_cycle htop.ne (show less ≠ top by omega)]
  rfl

end Step

section Loop
variable {tests : Tests α} {lo hi : ℤ}

lemma partitionLoop_run (Inv : (ℤ → α) → ℤ → ℤ → ℤ → Prop)
    (hstep : ∀ f less k great, Inv f less k great → k ≤ great →
      ∃ g less' great', partitionStep tests ⟨tabulate n f,less,great⟩ k = some ⟨tabulate n g,less',great'⟩ ∧
        great' ≤ great ∧ Rearranges lo hi f g ∧ Inv g less' (k+1) great')
    {m : ℕ} {less great : ℤ} (hinv : Inv f less k great) (hm : great+1-k ≤ m) :
    ∃ g less' k' great', partitionLoop tests m ⟨tabulate n f,less,great⟩ k = some ⟨tabulate n g,less',great'⟩ ∧
      Rearranges lo hi f g ∧ great' < k' ∧ Inv g less' k' great' := by
  induction m generalizing f less k great with
  | zero =>
    have hgt : ¬k ≤ great := by omega
    exact ⟨f,less,k,great,if_neg hgt,.refl ..,not_le.1 hgt,hinv⟩
  | succ m ih =>
    by_cases hk : k ≤ great
    · obtain ⟨g,less',great',hrun,hle,hfg,hinv'⟩ := hstep f less k great hinv hk
      obtain ⟨g',less'',k',great'',hrest,hgg,hend,hfinal⟩ := ih hinv' (by omega)
      refine ⟨g',less'',k',great'',?_,hfg.trans hgg,hend,hfinal⟩
      rw [partitionLoop,if_pos hk,hrun]
      exact hrest
    · exact ⟨f,less,k,great,if_neg hk,.refl ..,not_le.1 hk,hinv⟩

variable (low mid high R : α → Prop)

/-- The tests tell the parts apart, for elements that satisfy `R`. -/
structure Fits (tests : Tests α) : Prop where
  of_low : ∀ x, R x → tests.low x = true → low x
  of_high : ∀ x, tests.high x = true → high x
  of_mid : ∀ x, R x → tests.low x = false → tests.high x = false → mid x
  of_lowGreat : ∀ x, R x → tests.high x = false → tests.lowGreat x = true → low x
  of_midGreat : ∀ x, R x → tests.high x = false → tests.lowGreat x = false → mid x

/-- Elements of the middle fail the tests, and may stand in the high part at the end. -/
structure Separates (tests : Tests α) : Prop where
  not_low : ∀ x, mid x → tests.low x = false
  not_high : ∀ x, mid x → tests.high x = false
  not_lowGreat : ∀ x, mid x → tests.lowGreat x = false
  mid_high : ∀ x, mid x → high x

/-- An element of the middle stops the search. -/
def Sentinel (f : ℤ → α) (less great : ℤ) : Prop := ∃ w, less ≤ w ∧ w ≤ great ∧ mid (f w)

variable {low mid high R} (fits : Fits low mid high R tests) (hlo : 0 ≤ lo) (hhi : hi < n)
include fits hlo hhi

lemma partitionStep_guarded (hguard : tests.guarded = true) {f : ℤ → α} {less k great : ℤ}
    (h : Parts low mid high lo hi f less k great) (hR : ∀ i, lo ≤ i → i ≤ hi → R (f i)) (hk : k ≤ great) :
    ∃ g less' great', partitionStep tests ⟨tabulate n f,less,great⟩ k = some ⟨tabulate n g,less',great'⟩ ∧
      great' ≤ great ∧ Rearranges lo hi f g ∧ Parts low mid high lo hi g less' (k+1) great' := by
  have hl := h.lo_le
  have hlk := h.less_le
  have hg := h.great_le
  have hRk := hR k (by omega) (by omega)
  cases hlow : tests.low (f k) with
  | true =>
    exact ⟨_,_,_,partitionStep_low (by omega) hlk (by omega) hlow,le_rfl,
      .swap f ⟨by omega,by omega⟩ ⟨hl,by omega⟩,h.moveLow hk (fits.of_low _ hRk hlow)⟩
  | false =>
    cases hhigh : tests.high (f k) with
    | false =>
      exact ⟨_,_,_,partitionStep_mid (by omega) hlk (by omega) hlow hhigh,le_rfl,.refl ..,
        h.keep (fits.of_mid _ hRk hlow hhigh)⟩
    | true =>
      obtain ⟨top,found,hscan,htop,hall,hpost⟩ :=
        scan_guarded hguard (by omega) hhigh hk (show great < n by omega)
          (show great-k < (n+1 : ℕ) by omega)
      cases found with
      | false =>
        have htop' : top = k-1 := hpost
        refine ⟨_,_,_,partitionStep_stop (by omega) hlk (by omega) hlow hhigh hscan,htop,.refl ..,?_⟩
        have hshrink := h.shrink htop (by omega) fun i h1 h2 => fits.of_high _ (hall i h1 h2)
        exact ⟨hshrink.lo_le,by omega,hshrink.less_le_great,hshrink.great_le,hshrink.low,
          fun i h1 h2 h3 => hshrink.mid i h1 (by omega) h3,hshrink.high⟩
      | true =>
        obtain ⟨hkt,hnot⟩ : k < top ∧ tests.high (f top) = false := hpost
        have hRt := hR top (by omega) (by omega)
        have hshrink := h.shrink htop (by omega) fun i h1 h2 => fits.of_high _ (hall i h1 h2)
        cases hlg : tests.lowGreat (f top) with
        | false =>
          exact ⟨_,_,_,partitionStep_exchange (by omega) hlk (by omega) hlow hhigh hscan (by omega)
            (by omega) hlg,by omega,.swap f ⟨by omega,by omega⟩ ⟨by omega,by omega⟩,
            hshrink.exchange hkt (fits.of_midGreat _ hRt hnot hlg) (fits.of_high _ hhigh)⟩
        | true =>
          exact ⟨_,_,_,partitionStep_cycle (by omega) hlk (by omega) hlow hhigh hscan hkt (by omega) hlg,
            by omega,
            (Rearranges.swap f ⟨by omega,by omega⟩ ⟨hl,by omega⟩).trans
              (.swap _ ⟨hl,by omega⟩ ⟨by omega,by omega⟩),
            hshrink.exchangeLow hkt (fits.of_lowGreat _ hRt hnot hlg) (fits.of_high _ hhigh)⟩

lemma partition_guarded (hguard : tests.guarded = true) (hle : lo ≤ hi+1)
    (hR : ∀ i, lo ≤ i → i ≤ hi → R (f i)) :
    ∃ g less great, partition tests ⟨tabulate n f,lo,hi⟩ = some ⟨tabulate n g,less,great⟩ ∧
      Rearranges lo hi f g ∧ Parts low mid high lo hi g less (great+1) great := by
  obtain ⟨g,less,k,great,hrun,hfg,hk,hparts, -⟩ := partitionLoop_run
    (fun f less k great => Parts low mid high lo hi f less k great ∧ ∀ i, lo ≤ i → i ≤ hi → R (f i))
    (fun f less k great hinv hk => by
      obtain ⟨g,less',great',hrun,hle,hfg,hparts⟩ :=
        partitionStep_guarded fits hlo hhi hguard hinv.1 hinv.2 hk
      exact ⟨g,less',great',hrun,hle,hfg,hparts,hfg.forall_range hinv.2⟩)
    ⟨Parts.start f hle,hR⟩ (show hi+1-lo ≤ ((hi+1-lo).toNat : ℤ) by omega)
  exact ⟨g,less,great,hrun,hfg,hparts.finish hk⟩

/-- Without a guard the search relies on an element of the middle; if it finds it below `k`, the loop
is over. -/
lemma partitionStep_unguarded (hsep : Separates mid high tests) (hguard : tests.guarded = false)
    (hR : ∀ x, R x) {f : ℤ → α} {less k great : ℤ} (h : Parts low mid high lo hi f less k great)
    (hsentinel : Sentinel mid f less great) (hk : k ≤ great) :
    ∃ g less' great', partitionStep tests ⟨tabulate n f,less,great⟩ k = some ⟨tabulate n g,less',great'⟩ ∧
      great' ≤ great ∧ Rearranges lo hi f g ∧ Parts low mid high lo hi g less' (k+1) great' ∧
      (k+1 ≤ great' → Sentinel mid g less' great') := by
  have hl := h.lo_le
  have hlk := h.less_le
  have hg := h.great_le
  obtain ⟨w,hlw,hwg,hw⟩ := hsentinel
  cases hlow : tests.low (f k) with
  | true =>
    refine ⟨_,_,_,partitionStep_low (by omega) hlk (by omega) hlow,le_rfl,
      .swap f ⟨by omega,by omega⟩ ⟨hl,by omega⟩,h.moveLow hk (fits.of_low _ (hR _) hlow),fun hk' => ?_⟩
    rcases hlk.eq_or_lt with rfl | hlt
    · have hne := ne_of_test (hsep.not_low _ hw) hlow
      exact ⟨w,by omega,hwg,by rwa [comp_apply,Equiv.swap_self,Equiv.refl_apply]⟩
    · refine ⟨k,by omega,hk,?_⟩
      rw [comp_apply,Equiv.swap_apply_left]
      exact h.mid less le_rfl hlt (by omega)
  | false =>
    cases hhigh : tests.high (f k) with
    | false =>
      have hmid := fits.of_mid _ (hR _) hlow hhigh
      exact ⟨_,_,_,partitionStep_mid (by omega) hlk (by omega) hlow hhigh,le_rfl,.refl ..,
        h.keep hmid,fun _ => ⟨k,hlk,hk,hmid⟩⟩
    | true =>
      -- The search stops at the sentinel, or at the element before `k` if it is in the middle.
      obtain ⟨v,hv,hvk,hvg,hvmid⟩ : ∃ v, less ≤ v ∧ (less < k → v = k-1) ∧ v ≤ great ∧ mid (f v) := by
        rcases hlk.eq_or_lt with heq | hlt
        · exact ⟨w,hlw,fun hlt => by omega,hwg,hw⟩
        · exact ⟨k-1,by omega,fun _ => rfl,by omega,h.mid _ (by omega) (by omega) (by omega)⟩
      obtain ⟨top,hscan,hvt,htop,hall,hnothigh⟩ :=
        scan_unguarded hguard (by omega) (hsep.not_high _ hvmid) hvg
          (show great < n by omega) (show great-v < (n+1 : ℕ) by omega)
      have hne := ne_of_test hnothigh hhigh
      have hwk := ne_of_test (hsep.not_high _ hw) hhigh
      have hwtop : w ≤ top := by
        by_contra hgt
        exact ne_of_test (hsep.not_high _ hw) (hall w (not_le.1 hgt) hwg) rfl
      have hshrink := h.shrink htop (by omega) fun i h1 h2 => fits.of_high _ (hall i h1 h2)
      cases hlg : tests.lowGreat (f top) with
      | true =>
        have hwt := ne_of_test (hsep.not_lowGreat _ hw) hlg
        have hvt' := ne_of_test (hsep.not_lowGreat _ hvmid) hlg
        have hkt : k < top := by omega
        refine ⟨_,_,_,partitionStep_cycle (by omega) hlk (by omega) hlow hhigh hscan hkt (by omega) hlg,
          by omega,
          (Rearranges.swap f ⟨by omega,by omega⟩ ⟨hl,by omega⟩).trans
            (.swap _ ⟨hl,by omega⟩ ⟨by omega,by omega⟩),
          hshrink.exchangeLow hkt (fits.of_lowGreat _ (hR _) hnothigh hlg) (fits.of_high _ hhigh),fun hk' => ?_⟩
        rcases hlk.eq_or_lt with heq | hlt
        · refine ⟨w,by omega,by omega,?_⟩
          rwa [cycle_apply hkt.ne (by omega),if_neg (by omega),if_neg hwt,if_neg hwk]
        · refine ⟨k,by omega,by omega,?_⟩
          rw [cycle_apply hkt.ne (by omega),if_neg hlt.ne',if_neg hkt.ne,if_pos rfl]
          exact h.mid less le_rfl hlt (by omega)
      | false =>
        have hmid := fits.of_midGreat _ (hR _) hnothigh hlg
        have hstep := partitionStep_exchange (by omega) hlk (by omega) hlow hhigh hscan (by omega)
          (by omega) hlg
        rcases lt_or_ge k top with hkt | hkt
        · refine ⟨_,_,_,hstep,by omega,.swap f ⟨by omega,by omega⟩ ⟨by omega,by omega⟩,
            hshrink.exchange hkt hmid (fits.of_high _ hhigh),fun hk' => ⟨k,hlk,by omega,?_⟩⟩
          rwa [comp_apply,swap_apply_left]
        · obtain rfl : top = k-1 := by omega
          refine ⟨_,_,_,hstep,by omega,.swap f ⟨by omega,by omega⟩ ⟨by omega,by omega⟩,
            h.overrun (by omega) hk (fun i h1 h2 => fits.of_high _ (hall i (by omega) h2))
              (hsep.mid_high _ hmid),fun hk' => by omega⟩

lemma partition_unguarded (hsep : Separates mid high tests) (hguard : tests.guarded = false)
    (hR : ∀ x, R x) (hle : lo ≤ hi+1) (hsentinel : Sentinel mid f lo hi) :
    ∃ g less great, partition tests ⟨tabulate n f,lo,hi⟩ = some ⟨tabulate n g,less,great⟩ ∧
      Rearranges lo hi f g ∧ Parts low mid high lo hi g less (great+1) great := by
  obtain ⟨g,less,k,great,hrun,hfg,hk,hparts, -⟩ := partitionLoop_run
    (fun f less k great => Parts low mid high lo hi f less k great ∧ (k ≤ great → Sentinel mid f less great))
    (fun f less k great hinv hk =>
      partitionStep_unguarded fits hlo hhi hsep hguard hR hinv.1 (hinv.2 hk) hk)
    ⟨Parts.start f hle,fun _ => hsentinel⟩ (show hi+1-lo ≤ ((hi+1-lo).toNat : ℤ) by omega)
  exact ⟨g,less,great,hrun,hfg,hparts.finish hk⟩

end Loop

end DartSdk.Sort
