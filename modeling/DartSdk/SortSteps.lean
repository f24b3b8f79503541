import DartSdk.SortPartition

/-! Insertion sort sorts its range. The pivots are two of five elements that a sorting network puts
in order. -/
namespace DartSdk.Sort
open Function (comp_apply update update_apply update_of_ne)
open Rearrangement Equiv

variable {α : Type} {compare : α → α → ℤ} {n : ℕ} {f g : ℤ → α} {left right i j : ℤ}

/-- A comparison function of a total preorder: reflexivity and totality follow from the symmetry of
the signs. -/
structure IsTotalPreorder (compare : α → α → ℤ) : Prop where
  sign_symm : ∀ x y, (compare x y).sign = -(compare y x).sign
  trans : ∀ x y z, compare x y ≤ 0 → compare y z ≤ 0 → compare x z ≤ 0

/-- `x` may stand before `y`. -/
def Le (compare : α → α → ℤ) (x y : α) : Prop := compare x y ≤ 0

namespace IsTotalPreorder
variable (hc : IsTotalPreorder compare) {x y z : α}
include hc

lemma pos_iff : 0 < compare x y ↔ compare y x < 0 := by
  rw [← Int.sign_eq_one_iff_pos,← Int.sign_eq_neg_one_iff_neg,hc.sign_symm x y,neg_eq_iff_eq_neg]

lemma eq_zero_iff : compare x y = 0 ↔ compare y x = 0 := by
  rw [← @Int.sign_eq_zero_iff_zero (compare x y),← @Int.sign_eq_zero_iff_zero (compare y x),
    hc.sign_symm x y,neg_eq_zero]

lemma le_of_nonneg (h : 0 ≤ compare x y) : Le compare y x := by
  rcases h.eq_or_lt with h | h
  · exact (hc.eq_zero_iff.1 h.symm).le
  · exact (hc.pos_iff.1 h).le

lemma nonneg_of_le (h : Le compare y x) : 0 ≤ compare x y := by
  rcases h.eq_or_lt with h | h
  · exact (hc.eq_zero_iff.1 h).ge
  · exact (hc.pos_iff.2 h).le

lemma le_refl (x : α) : Le compare x x := by
  have h := hc.sign_symm x x
  have hzero : compare x x = 0 := Int.sign_eq_zero_iff_zero.1 (by omega)
  exact hzero.le

lemma le_trans (hxy : Le compare x y) (hyz : Le compare y z) : Le compare x z := hc.trans x y z hxy hyz

end IsTotalPreorder

section InsertionSort
variable (hc : IsTotalPreorder compare)
include hc

lemma shiftGreater_spec (el : α) {m : ℕ} (h0 : 0 ≤ left) (hj : j = left+m) (hji : j ≤ i) (hin : i < n)
    (hbelow : SortedOn (Le compare) left (j-1) f) (habove : SortedOn (Le compare) (j+1) i f)
    (hcross : ∀ a b, left ≤ a → a < j → j < b → b ≤ i → Le compare (f a) (f b))
    (hel : ∀ b, j < b → b ≤ i → Le compare el (f b)) :
    ∃ g j', shiftGreater compare el m (tabulate n f) j = some (tabulate n g,j') ∧ left ≤ j' ∧ j' ≤ i ∧
      SortedOn (Le compare) left i (update g j' el) ∧
      Rearranges left i (update f j el) (update g j' el) := by
  induction m generalizing f j with
  | zero =>
    refine ⟨f,j,rfl,by omega,hji,?_,.refl ..⟩
    intro a b ha hab hb
    rw [update_apply,update_apply]
    split_ifs with h1 h2
    · omega
    · exact hel b (by omega) hb
    · omega
    · exact habove a b (by omega) hab hb
  | succ m ih =>
    rw [shiftGreater,read_tabulate (by omega) (by omega),some_bind]
    by_cases hgt : compare (f (j-1)) el > 0
    · rw [if_pos hgt,write_tabulate (by omega) (by omega),some_bind]
      have hother : ∀ a, a ≠ j → update f j (f (j-1)) a = f a := fun a ha =>
        update_of_ne ha ..
      have hgap : update f j (f (j-1)) j = f (j-1) := Function.update_self ..
      obtain ⟨g,j',hrun,hl,hi,hs,hfg⟩ := @ih (update f j (f (j-1))) (j-1) (by omega) (by omega)
        ((hbelow.mono le_rfl (by omega)).congr fun a _ _ => hother a (by omega))
        (by
          intro a b ha hab hb
          rw [hother b (by omega)]
          rcases eq_or_ne a j with rfl | hne
          · rw [hgap]
            exact hcross (a-1) b (by omega) (by omega) (by omega) hb
          · rw [hother a hne]
            exact habove a b (by omega) hab hb)
        (by
          intro a b ha hab hjb hb
          rw [hother a (by omega)]
          rcases eq_or_ne b j with rfl | hne
          · rw [hgap]
            exact hbelow a (b-1) ha (by omega) le_rfl
          · rw [hother b hne]
            exact hcross a b ha (by omega) (by omega) hb)
        (by
          intro b hjb hb
          rcases eq_or_ne b j with rfl | hne
          · rw [hgap]
            exact hc.le_of_nonneg hgt.le
          · rw [hother b hne]
            exact hel b (by omega) hb)
      refine ⟨g,j',hrun,hl,hi,hs,Rearranges.trans ?_ hfg⟩
      have hswap : update (update f j (f (j-1))) (j-1) el =
          update f j el ∘ swap j (j-1) := by
        funext a
        simp only [update_apply,comp_apply,swap_apply_def]
        split_ifs <;> first | rfl | omega
      rw [hswap]
      exact .swap _ ⟨by omega,hji⟩ ⟨by omega,by omega⟩
    · rw [if_neg hgt]
      refine ⟨f,j,rfl,by omega,hji,?_,.refl ..⟩
      have hprev : Le compare (f (j-1)) el := not_lt.1 hgt
      have hlower : ∀ a, left ≤ a → a < j → Le compare (f a) el := fun a ha haj => by
        rcases eq_or_ne a (j-1) with rfl | hne
        · exact hprev
        · exact hc.le_trans (hbelow a (j-1) ha (by omega) le_rfl) hprev
      intro a b ha hab hb
      rw [update_apply,update_apply]
      split_ifs with h1 h2
      · omega
      · exact hel b (by omega) hb
      · exact hlower a ha (by omega)
      · rcases lt_or_ge a j with haj | haj
        · rcases lt_or_ge b j with hbj | hbj
          · exact hbelow a b ha hab (by omega)
          · exact hcross a b ha haj (by omega) hb
        · exact habove a b (by omega) hab hb

lemma insertionLoop_spec {m : ℕ} (h0 : 0 ≤ left) (hi : left < i) (hn : i+m ≤ n)
    (hsorted : SortedOn (Le compare) left (i-1) f) :
    ∃ g, insertionLoop compare left m (tabulate n f) i = some (tabulate n g) ∧
      Rearranges left (i+m-1) f g ∧ SortedOn (Le compare) left (i+m-1) g := by
  induction m generalizing f i with
  | zero => exact ⟨f,rfl,.refl ..,by simpa using hsorted⟩
  | succ m ih =>
    obtain ⟨g,j,hshift,hl,hji,hs,hfg⟩ := shiftGreater_spec (n := n) hc (f i) h0
      (show i = left+((i-left).toNat : ℕ) by omega) le_rfl (by omega) hsorted
      (.of_le f (by omega)) (fun a b _ _ h1 h2 => by omega) (fun b h1 h2 => by omega)
    rw [Function.update_eq_self] at hfg
    obtain ⟨g',hrun,hgg,hs'⟩ := @ih (update g j (f i)) (i+1) (by omega) (by omega)
      (by rwa [Int.add_sub_cancel])
    refine ⟨g',?_,(hfg.mono le_rfl (by omega)).trans (hgg.mono le_rfl (by omega)),hs'.mono le_rfl (by omega)⟩
    rw [insertionLoop,read_tabulate (by omega) (by omega),some_bind,hshift]
    simp only [some_bind,write_tabulate (by omega) (show j < n by omega)]
    exact hrun

lemma insertionSort_spec (f : ℤ → α) (h0 : 0 ≤ left) (hn : right < n) :
    ∃ g, insertionSort compare (tabulate n f) left right = some (tabulate n g) ∧
      Rearranges left right f g ∧ SortedOn (Le compare) left right g := by
  rcases le_or_gt right left with hle | hgt
  · refine ⟨f,?_,.refl ..,.of_le f hle⟩
    rw [insertionSort,show (right-left).toNat = 0 by omega]
    rfl
  · obtain ⟨g,hrun,hfg,hs⟩ := insertionLoop_spec hc h0 (by omega)
      (show left+1+((right-left).toNat : ℕ) ≤ (n : ℤ) by omega)
      (show SortedOn (Le compare) left (left+1-1) f from .of_le f (by omega))
    rw [show left+1+((right-left).toNat : ℕ)-1 = right by omega] at hfg hs
    exact ⟨g,hrun,hfg,hs⟩

end InsertionSort

section Sample
variable (hc : IsTotalPreorder compare)
include hc

structure Ordered (compare : α → α → ℤ) (x y lo hi : α) : Prop where
  lo_le_left : Le compare lo x
  lo_le_right : Le compare lo y
  left_le_hi : Le compare x hi
  right_le_hi : Le compare y hi
  le_lo : ∀ z, Le compare z x → Le compare z y → Le compare z lo
  hi_le : ∀ z, Le compare x z → Le compare y z → Le compare hi z

lemma order_ordered (x y : α) :
    Ordered compare x y (order compare x y).1 (order compare x y).2 := by
  unfold order
  split_ifs with h
  · have hle : Le compare y x := hc.le_of_nonneg h.le
    exact ⟨hle,hc.le_refl y,hc.le_refl x,hle,fun z _ hz => hz,fun z hz _ => hz⟩
  · have hle : Le compare x y := not_lt.1 h
    exact ⟨hc.le_refl x,hle,hle,hc.le_refl y,fun z hz _ => hz,fun z _ hz => hz⟩

omit hc in
lemma sortSample_eq (e1 e2 e3 e4 e5 : α) : sortSample compare e1 e2 e3 e4 e5 =
    let a := order compare e1 e2
    let b := order compare e4 e5
    let c := order compare a.1 e3
    let d := order compare a.2 c.2
    let e := order compare c.1 b.1
    let p := order compare d.2 e.2
    let q := order compare d.1 b.2
    let r := order compare q.1 p.1
    let s := order compare p.2 q.2
    (e.1,r.1,r.2,s.1,s.2) := rfl

lemma sortSample_ordered (e1 e2 e3 e4 e5 : α) :
    Le compare (sortSample compare e1 e2 e3 e4 e5).2.1 (sortSample compare e1 e2 e3 e4 e5).2.2.1 ∧
    Le compare (sortSample compare e1 e2 e3 e4 e5).2.2.1 (sortSample compare e1 e2 e3 e4 e5).2.2.2.1 := by
  have ha := order_ordered hc e1 e2
  have hb := order_ordered hc e4 e5
  rw [sortSample_eq]
  dsimp only
  generalize order compare e1 e2 = a at ha ⊢
  generalize order compare e4 e5 = b at hb ⊢
  have h := order_ordered hc a.1 e3
  generalize order compare a.1 e3 = c at h ⊢
  have hd := order_ordered hc a.2 c.2
  generalize order compare a.2 c.2 = d at hd ⊢
  have he := order_ordered hc c.1 b.1
  generalize order compare c.1 b.1 = e at he ⊢
  have hp := order_ordered hc d.2 e.2
  generalize order compare d.2 e.2 = p at hp ⊢
  have hq := order_ordered hc d.1 b.2
  generalize order compare d.1 b.2 = q at hq ⊢
  have hr := order_ordered hc q.1 p.1
  generalize order compare q.1 p.1 = r at hr ⊢
  have hs := order_ordered hc p.2 q.2
  generalize order compare p.2 q.2 = s at hs ⊢
  have hcd : Le compare c.1 d.1 :=
    hd.le_lo _ (hc.le_trans h.lo_le_left (hc.le_trans ha.lo_le_left ha.left_le_hi))
      (hc.le_trans h.lo_le_left h.left_le_hi)
  have hqp : Le compare q.1 p.2 :=
    hc.le_trans hq.lo_le_left (hc.le_trans hd.lo_le_left (hc.le_trans hd.left_le_hi hp.left_le_hi))
  have heq : Le compare e.2 q.2 :=
    he.hi_le _ (hc.le_trans hcd hq.left_le_hi)
      (hc.le_trans hb.lo_le_left (hc.le_trans hb.left_le_hi hq.right_le_hi))
  refine ⟨hc.le_trans hr.lo_le_left hr.left_le_hi,hr.hi_le _ (hs.le_lo _ hqp ?_) (hs.le_lo _ ?_ ?_)⟩
  · exact hc.le_trans hq.lo_le_left hq.left_le_hi
  · exact hc.le_trans hp.lo_le_left hp.left_le_hi
  · exact hc.le_trans hp.lo_le_right heq

end Sample

section Network

variable (compare)

def comparator (e : Fin 5 → α) (p : Fin 5 × Fin 5) : Fin 5 → α :=
  update (update e p.1 (order compare (e p.1) (e p.2)).1) p.2
    (order compare (e p.1) (e p.2)).2

def network : List (Fin 5 × Fin 5) :=
  [(0,1),(3,4),(0,2),(1,2),(0,3),(2,3),(1,4),(1,2),(3,4)]

lemma sortSample_network (e : Fin 5 → α) :
    sortSample compare (e 0) (e 1) (e 2) (e 3) (e 4) =
      (network.foldl (comparator compare) e 0,network.foldl (comparator compare) e 1,
        network.foldl (comparator compare) e 2,network.foldl (comparator compare) e 3,
        network.foldl (comparator compare) e 4) := rfl

variable {index : Fin 5 → ℤ} (hinj : Function.Injective index)
  (hindex : ∀ m, left ≤ index m ∧ index m ≤ right)
include hinj hindex

lemma comparator_rearranges (g : ℤ → α) (p : Fin 5 × Fin 5) :
    ∃ g', Rearranges left right g g' ∧ (∀ m, g' (index m) = comparator compare (g ∘ index) p m) ∧
      ∀ k, (∀ m, k ≠ index m) → g' k = g k := by
  unfold comparator order
  split_ifs with h
  · refine ⟨g ∘ swap (index p.1) (index p.2),.swap g (hindex _) (hindex _),fun m => ?_,fun k hk => ?_⟩
    · simp only [comp_apply,swap_apply_def,update_apply,hinj.eq_iff]
      split_ifs <;> simp_all
    · rw [comp_apply,swap_apply_of_ne_of_ne (hk _) (hk _)]
  · refine ⟨g,.refl ..,fun m => ?_,fun k _ => rfl⟩
    simp only [update_apply]
    split_ifs <;> simp_all

lemma comparators_rearrange (ps : List (Fin 5 × Fin 5)) (g : ℤ → α) :
    ∃ g', Rearranges left right g g' ∧
      (∀ m, g' (index m) = ps.foldl (comparator compare) (g ∘ index) m) ∧
      ∀ k, (∀ m, k ≠ index m) → g' k = g k := by
  induction ps generalizing g with
  | nil => exact ⟨g,.refl ..,fun m => rfl,fun k _ => rfl⟩
  | cons p ps ih =>
    obtain ⟨g1,h1,hval1,hout1⟩ := comparator_rearranges compare hinj hindex g p
    obtain ⟨g2,h2,hval2,hout2⟩ := ih g1
    refine ⟨g2,h1.trans h2,fun m => ?_,fun k hk => (hout2 k hk).trans (hout1 k hk)⟩
    rw [hval2,List.foldl_cons,show g1 ∘ index = comparator compare (g ∘ index) p from funext hval1]

end Network

lemma indices_spec (h0 : 0 ≤ left) (hlt : left+32 < right) :
    left < (indices left right).index1 ∧
    (indices left right).index1 < (indices left right).index2 ∧
    (indices left right).index2 < (indices left right).index3 ∧
    (indices left right).index3 < (indices left right).index4 ∧
    (indices left right).index4 < (indices left right).index5 ∧
    (indices left right).index5 < right := by
  have hsixth : (right-left+1).tdiv 6 = (right-left+1)/6 := Int.tdiv_eq_ediv_of_nonneg (by omega)
  have hmiddle : (left+right).tdiv 2 = (left+right)/2 := Int.tdiv_eq_ediv_of_nonneg (by omega)
  dsimp only [indices]
  rw [hsixth,hmiddle]
  omega

/-- The list with the pivots in the first and the last place. -/
def withPivots (g : ℤ → α) (left right : ℤ) (pivot1 pivot2 : α) : ℤ → α :=
  update (update g left pivot1) right pivot2

lemma takePivots_spec (hc : IsTotalPreorder compare) (f : ℤ → α) (h0 : 0 ≤ left) (hlt : left+32 < right)
    (hn : right < n) :
    ∃ g pivot1 pivot2, takePivots compare (tabulate n f) left right = some (tabulate n g,pivot1,pivot2) ∧
      Rearranges left right f (withPivots g left right pivot1 pivot2) ∧ Le compare pivot1 pivot2 ∧
      ∃ w, left < w ∧ w < right ∧ Le compare pivot1 (g w) ∧ Le compare (g w) pivot2 := by
  obtain ⟨b1,b2,b3,b4,b5,b6⟩ := indices_spec h0 hlt
  generalize hp : indices left right = p at b1 b2 b3 b4 b5 b6
  obtain ⟨i1,i2,i3,i4,i5⟩ := p
  dsimp only at b1 b2 b3 b4 b5 b6
  have hmono : StrictMono ![i1,i2,i3,i4,i5] := Fin.strictMono_iff_lt_succ.2 fun m => by
    fin_cases m <;> simpa
  obtain ⟨g,hfg,hval,hout⟩ := comparators_rearrange compare hmono.injective
    (show ∀ m, left ≤ ![i1,i2,i3,i4,i5] m ∧ ![i1,i2,i3,i4,i5] m ≤ right from
      fun m => by fin_cases m <;> simp <;> omega) network f
  have hsample := sortSample_network compare (f ∘ ![i1,i2,i3,i4,i5])
  simp only [← hval] at hsample
  change sortSample compare (f i1) (f i2) (f i3) (f i4) (f i5) = (g i1,g i2,g i3,g i4,g i5) at hsample
  have hord := sortSample_ordered hc (f i1) (f i2) (f i3) (f i4) (f i5)
  rw [hsample] at hord
  have hout' : ∀ k, k ≠ i1 → k ≠ i2 → k ≠ i3 → k ≠ i4 → k ≠ i5 → g k = f k := fun k h1 h2 h3 h4 h5 =>
    hout k fun m => by fin_cases m <;> assumption
  have hinner : update (update g i2 (g left)) i4 (g right) i3 = g i3 := by
    rw [update_of_ne b4.ne,update_of_ne b3.ne']
  refine ⟨update (update g i2 (g left)) i4 (g right),g i2,g i4,?_,?_,
    hc.le_trans hord.1 hord.2,i3,by omega,by omega,?_,?_⟩
  · simp (disch := omega) only [takePivots,hp,read_tabulate,write_tabulate,some_bind,hsample]
    have hleft := hout' left (by omega) (by omega) (by omega) (by omega) (by omega)
    have hright := hout' right (by omega) (by omega) (by omega) (by omega) (by omega)
    congr 3
    funext k
    have hk := hout' k
    simp only [update_apply]
    split_ifs <;> grind
  · have hswap : withPivots (update (update g i2 (g left)) i4 (g right)) left right
        (g i2) (g i4) = (g ∘ swap left i2) ∘ swap right i4 := by
      funext k
      simp only [withPivots,update_apply,comp_apply,swap_apply_def]
      grind
    rw [hswap]
    exact hfg.trans ((Rearranges.swap g ⟨le_rfl,by omega⟩ ⟨by omega,by omega⟩).trans
      (.swap _ ⟨by omega,le_rfl⟩ ⟨by omega,by omega⟩))
  · rw [hinner]
    exact hord.1
  · rw [hinner]
    exact hord.2

lemma placePivots_spec (g : ℤ → α) {less great : ℤ} (pivot1 pivot2 : α) (h0 : 0 ≤ left)
    (hless : left < less) (hle : less ≤ great+1) (hgreat : great < right) (hn : right < n) :
    ∃ h, placePivots ⟨tabulate n g,less,great⟩ left right pivot1 pivot2 = some (tabulate n h) ∧
      Rearranges left right (withPivots g left right pivot1 pivot2) h ∧ h (less-1) = pivot1 ∧
      h (great+1) = pivot2 ∧ (∀ i, left ≤ i → i < less-1 → ∃ j, left < j ∧ j < less ∧ h i = g j) ∧
      (∀ i, less ≤ i → i ≤ great → h i = g i) ∧
      ∀ i, great+1 < i → i ≤ right → ∃ j, great < j ∧ j < right ∧ h i = g j := by
  have hval : ∀ k, ((withPivots g left right pivot1 pivot2 ∘ swap left (less-1)) ∘
      swap right (great+1)) k =
      if k = less-1 then pivot1 else if k = great+1 then pivot2 else if k = left then g (less-1)
      else if k = right then g (great+1) else g k := fun k => by
    simp only [withPivots,update_apply,comp_apply]
    grind
  refine ⟨(withPivots g left right pivot1 pivot2 ∘ swap left (less-1)) ∘ swap right (great+1),
    ?_,?_,?_,?_,fun i h1 h2 => ?_,fun i h1 h2 => ?_,fun i h1 h2 => ?_⟩
  · simp (disch := omega) only [placePivots,read_tabulate,write_tabulate,some_bind]
    congr 2
    funext k
    rw [hval]
    simp only [update_apply]
    split_ifs <;> grind
  · exact (Rearranges.swap _ ⟨le_rfl,by omega⟩ ⟨by omega,by omega⟩).trans
      (.swap _ ⟨by omega,le_rfl⟩ ⟨by omega,by omega⟩)
  · rw [hval,if_pos rfl]
  · rw [hval,if_neg (by omega),if_pos rfl]
  · rw [hval,if_neg (by omega),if_neg (by omega)]
    split_ifs
    · exact ⟨less-1,by omega,by omega,rfl⟩
    · omega
    · exact ⟨i,by omega,by omega,rfl⟩
  · rw [hval,if_neg (by omega),if_neg (by omega),if_neg (by omega),if_neg (by omega)]
  · rw [hval,if_neg (by omega),if_neg (by omega),if_neg (by omega)]
    split_ifs
    · exact ⟨great+1,by omega,by omega,rfl⟩
    · exact ⟨i,by omega,by omega,rfl⟩

end DartSdk.Sort
