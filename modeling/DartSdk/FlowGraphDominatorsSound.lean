import DartSdk.FlowGraphDominators

/-! The second and third pass of `ComputeDominators`, and the result for the blocks of the graph. -/
namespace DartSdk.FlowGraph
open SpanningTree Dominance List

section Passes
variable {size : ℕ} {E : ℕ → ℕ → Prop} {p semi idom : ℕ → ℕ} {b d v w x y z : ℕ}

/-- `idom` has the immediate dominators of the blocks below `k`. -/
def Settled (E : ℕ → ℕ → Prop) (k : ℕ) (idom : ℕ → ℕ) : Prop :=
  ∀ i, 0 < i → i < k → IsImmediateDominator E 0 (idom i) i

section
variable (t : DepthFirst size E p)
include t

lemma Settled.lt {k : ℕ} (h : Settled E k idom) (hk : k ≤ size)
    (hpos : 0 < d) (hd : d < k) : idom d < d := by
  have hi := (h d hpos hd).strict
  exact lt_of_le_of_ne (t.le_of_dominates (by omega) hi.1) hi.2

/-- Every strict dominator of `w` dominates the vertices on the way up to the semidominator. -/
lemma ascend_spec (hpos : 0 < w) (hw : w < size)
    (hidom : Settled E w idom) (fuel : ℕ) (hd : d < w) (hfuel : d ≤ fuel)
    (hdom : Dominates E 0 d (p w)) (hclosest : ∀ x, StrictlyDominates E 0 x w → Dominates E 0 x d) :
    Dominates E 0 (ascend idom (semidominator E w) fuel d) (p w) ∧
      ascend idom (semidominator E w) fuel d ≤ semidominator E w ∧ ∀ x, StrictlyDominates E 0 x w →
      Dominates E 0 x (ascend idom (semidominator E w) fuel d) := by
  induction fuel generalizing d with
  | zero => exact ⟨hdom,by unfold ascend; omega,hclosest⟩
  | succ fuel ih =>
    unfold ascend
    split_ifs with habove
    · have hdpos : 0 < d := by omega
      have hlt := hidom.lt t hw.le hdpos hd
      refine ih (hlt.trans hd) (by omega) ((hidom d hdpos hd).strict.1.trans hdom) fun x hx => ?_
      have hxs := t.le_semidominator hpos hw hx
      exact (hidom d hdpos hd).closest x ⟨hclosest x hx,by omega⟩
    · exact ⟨hdom,not_lt.1 habove,hclosest⟩

lemma immediateDominator_spec (hpos : 0 < w) (hw : w < size)
    (hidom : Settled E w idom) (hself : idom w = p w) (hsemi : semi w = semidominator E w) :
    IsImmediateDominator E 0 (immediateDominator semi idom w w) w := by
  have hlt := t.parent_lt hpos hw
  obtain ⟨hdom,hle,hclosest⟩ := ascend_spec t hpos hw hidom w hlt hlt.le (.refl _)
    fun x hx => hx.of_edge (t.parent_edge hpos hw)
  unfold immediateDominator
  rw [Function.update_self,hself,hsemi]
  refine ⟨⟨t.dominates_of_le_semidominator hpos hw hdom hle,?_⟩,hclosest⟩
  have hp := t.semidominator_le_parent hpos hw
  omega

lemma immediateDominators_spec (hsemi : ∀ w, 0 < w → w < size → semi w = semidominator E w) :
    Settled E size (immediateDominators size semi p) := by
  have hloop := Iteration.foldl_range
    (f := fun idom i => immediateDominator semi idom (i+1)) (n := size-1)
    (fun i idom => Settled E (i+1) idom ∧ ∀ j, i < j → idom j = p j)
    ⟨fun j h0 h1 => by omega,fun _ _ => rfl⟩ fun i hi idom ⟨hidom,hrest⟩ => by
      refine ⟨fun j hj0 hj => ?_,fun j hj => ?_⟩
      · rcases Nat.lt_succ_iff_lt_or_eq.1 hj with hlt | rfl
        · unfold immediateDominator
          rw [Function.update_of_ne hlt.ne]
          exact hidom j hj0 hlt
        · exact immediateDominator_spec t hj0 (by omega) hidom (hrest _ (by omega))
            (hsemi _ hj0 (by omega))
      · unfold immediateDominator
        rw [Function.update_of_ne (by omega)]
        exact hrest j (by omega)
  exact fun i hi his => hloop.1 i hi (by omega)

variable (hidom : Settled E size idom)
include hidom

lemma addToFrontiers_spec (fuel : ℕ) {df : ℕ → Finset ℕ} (hw : w < size) (hfuel : w < fuel)
    (hdom : Dominates E 0 (idom y) w) : z ∈ addToFrontiers idom y fuel w df b ↔ z ∈ df b ∨ z = y ∧
      Dominates E 0 b w ∧ ¬ Dominates E 0 b (idom y) := by
  induction fuel generalizing w df with
  | zero => omega
  | succ fuel ih =>
    have hle := t.le_of_dominates hw hdom
    unfold addToFrontiers
    split_ifs with heq
    · rw [heq]
      tauto
    have hpos : 0 < w := by omega
    have hlt := hidom.lt t le_rfl hpos hw
    have himm := hidom w hpos hw
    rw [ih (hlt.trans hw) (by omega) (himm.closest _ ⟨hdom,fun h => heq h.symm⟩),
      himm.dominates_iff]
    have hnot : ¬ Dominates E 0 w (idom y) := fun h => by
      have := t.le_of_dominates (by omega) h
      omega
    by_cases hb : b = w
    · subst hb
      rw [Function.update_self,Finset.mem_insert]
      tauto
    · rw [Function.update_of_ne hb]
      tauto

lemma inFrontier_iff (hpos : 0 < y) (hy : y < size) : InFrontier E 0 b y ↔ ∃ v, E v y ∧
      Dominates E 0 b v ∧ ¬ Dominates E 0 b (idom y) := by
  have himm := hidom y hpos hy
  have hlt := hidom.lt t le_rfl hpos hy
  have hstrict : StrictlyDominates E 0 b y ↔ Dominates E 0 b (idom y) := by
    refine ⟨himm.closest b,fun h => ⟨h.trans himm.strict.1,?_⟩⟩
    have := t.le_of_dominates (by omega) h
    omega
  unfold InFrontier
  rw [hstrict]
  constructor
  · rintro ⟨⟨v, -,he,hv⟩,hnot⟩
    exact ⟨v,he,hv,hnot⟩
  · rintro ⟨v,he,hv,hnot⟩
    obtain ⟨l,hl, -⟩ := t.pathTo_root (t.edge_lt he).1
    exact ⟨⟨v,⟨l,hl⟩,he,hv⟩,hnot⟩

/-- A block with one predecessor is in no frontier: whatever dominates the predecessor
dominates the block. -/
lemma not_inFrontier_of_length {preds : List ℕ} (hpreds : ∀ v, v ∈ preds ↔ E v y)
    (hlen : preds.length ≤ 1) (hpos : 0 < y) (hy : y < size) : ¬ InFrontier E 0 b y := by
  rw [inFrontier_iff t hidom hpos hy]
  rintro ⟨v,he,hv,hnot⟩
  have hunique : ∀ u, E u y → u = v := by
    intro u hu
    match preds, (hpreds u).2 hu, (hpreds v).2 he, hlen with
    | [a], hu', hv', _ => exact (mem_singleton.1 hu').trans (mem_singleton.1 hv').symm
  have hvp := hunique _ (t.parent_edge hpos hy)
  have hlt := t.parent_lt hpos hy
  have hle := t.le_of_dominates (t.edge_lt he).1 hv
  refine hnot ((hidom y hpos hy).closest b ⟨?_,by omega⟩)
  exact dominates_of_forall_edge hpos.ne' fun u hu => hunique u hu ▸ hv

lemma frontierOfBlock_spec {preds : ℕ → List ℕ} (hpreds : ∀ v, v ∈ preds y ↔ E v y)
    (hroot : ∀ v, ¬ E v 0) {df : ℕ → Finset ℕ} (hy : y < size) :
    z ∈ frontierOfBlock size preds idom df y b ↔ z ∈ df b ∨ z = y ∧ InFrontier E 0 b y := by
  unfold frontierOfBlock
  rcases Nat.eq_zero_or_pos y with rfl | hpos
  · have hnil : preds 0 = [] := eq_nil_iff_forall_not_mem.2 fun v hv => hroot v ((hpreds v).1 hv)
    have hnot : ¬ InFrontier E 0 b 0 := fun ⟨⟨v,_,he,_⟩,_⟩ => hroot v he
    rw [hnil,if_pos (by simp)]
    tauto
  split_ifs with hlen
  · have hnot := not_inFrontier_of_length t hidom hpreds hlen hpos hy (b := b)
    tauto
  · rw [inFrontier_iff t hidom hpos hy]
    -- The predecessors one after the other.
    have hfold : ∀ (vs : List ℕ) (df : ℕ → Finset ℕ), (∀ v ∈ vs, E v y) →
        (z ∈ vs.foldl (fun df pred => addToFrontiers idom y size pred df) df b ↔
          z ∈ df b ∨ z = y ∧ ∃ v ∈ vs, Dominates E 0 b v ∧ ¬ Dominates E 0 b (idom y)) := by
      intro vs
      induction vs with
      | nil => simp
      | cons v vs ih =>
        intro df hvs
        have he := hvs v mem_cons_self
        have hv := (t.edge_lt he).1
        rw [foldl_cons,ih _ fun u hu => hvs u (mem_cons_of_mem v hu),
          addToFrontiers_spec t hidom size hv hv ((hidom y hpos hy).strict.of_edge he),
          exists_mem_cons_iff]
        tauto
    rw [hfold _ _ fun v hv => (hpreds v).1 hv]
    simp [hpreds]

lemma dominanceFrontiers_spec
    {preds : ℕ → List ℕ} (hpreds : ∀ v w, w < size → (v ∈ preds w ↔ E v w)) (hroot : ∀ v, ¬ E v 0) :
    z ∈ dominanceFrontiers size preds idom b ↔ z < size ∧ InFrontier E 0 b z := by
  refine Iteration.foldl_range (fun i (df : ℕ → Finset ℕ) => ∀ b z, z ∈ df b ↔ z < i ∧ InFrontier E 0 b z)
    (fun b z => by simp) (fun i hi df hdf b z => ?_) b z
  rw [frontierOfBlock_spec t hidom (fun v => hpreds v i hi) hroot hi,hdf b z,Nat.lt_succ_iff_lt_or_eq]
  constructor
  · rintro (⟨hlt,hz⟩ | ⟨rfl,hz⟩)
    · exact ⟨.inl hlt,hz⟩
    · exact ⟨.inr rfl,hz⟩
  · rintro ⟨hlt | rfl,hz⟩
    · exact .inl ⟨hlt,hz⟩
    · exact .inr ⟨rfl,hz⟩

end

end Passes

def Traversal.dominator (t : Traversal) (b : ℕ) : ℕ :=
  t.block (t.computeDominators.idom (t.number b).toNat)

/-- The blocks in the computed frontier of a block. -/
def Traversal.dominanceFrontier (t : Traversal) (b : ℕ) : Finset ℕ :=
  (t.computeDominators.frontier (t.number b).toNat).image t.block

namespace Traversal
variable {g : ControlFlow} {t : Traversal} {b i v w : ℕ}

section
variable (h : Inv g t) (hs : t.stack = [])
include h hs

lemma Inv.mem_preds_iff (hw : w < t.preorder.length) :
    v ∈ (t.predecessors (t.block w)).map (fun p => (t.number p).toNat) ↔ t.Edge g v w := by
  have hblock : t.preorder[w]? = some (t.block w) := by
    rw [getElem?_eq_getElem hw,block_eq (getElem?_eq_getElem hw)]
  rw [mem_map]
  constructor
  · rintro ⟨a,ha,rfl⟩
    obtain ⟨i,hi,hedge⟩ := (h.mem_predecessors_iff hs hblock).1 ha
    rwa [h.number i a hi,Int.toNat_natCast]
  · rintro ⟨a,b',ha,hb',hedge⟩
    refine ⟨a,(h.mem_predecessors_iff hs hblock).2 ⟨v,ha,a,b',ha,hb',hedge⟩,?_⟩
    rw [h.number v a ha,Int.toNat_natCast]

omit hs in
lemma Inv.not_edge_entry : ¬ t.Edge g v 0 := by
  rintro ⟨a,b,ha,hb,hedge⟩
  rw [h.entry] at hb
  cases hb
  exact g.entry a (h.lt_size a (mem_of_getElem? ha)) hedge

lemma Inv.settled : Settled (t.Edge g) t.preorder.length t.computeDominators.idom := by
  unfold computeDominators
  rw [h.length]
  exact immediateDominators_spec (h.depthFirst hs) fun w hw hlt =>
    semidominators_spec (h.depthFirst hs) (fun v w hw => h.mem_preds_iff hs hw) hw hlt

lemma Inv.mem_frontier_iff {j : ℕ} :
    j ∈ t.computeDominators.frontier i ↔ j < t.preorder.length ∧ InFrontier (t.Edge g) 0 i j := by
  have hsettled := h.settled hs
  unfold computeDominators at hsettled ⊢
  rw [h.length] at hsettled ⊢
  exact dominanceFrontiers_spec (h.depthFirst hs) hsettled (fun v w hw => h.mem_preds_iff hs hw)
    fun v => h.not_edge_entry

variable (hb : Reachable g.Edge 0 b)
include hb

lemma Inv.exists_number : ∃ i < t.preorder.length, t.block i = b ∧ (t.number b).toNat = i := by
  obtain ⟨i,⟨l,hl⟩,rfl⟩ := (h.renaming hs).reachable_lift hb
  have hi : ∃ c, t.preorder[i]? = some c := by
    cases hl with
    | root => exact ⟨0,h.entry⟩
    | step _ he =>
      obtain ⟨_,c, -,hc, -⟩ := he
      exact ⟨c,hc⟩
  obtain ⟨c,hc⟩ := hi
  refine ⟨i,(List.getElem?_eq_some_iff.1 hc).1,rfl,?_⟩
  rw [block_eq hc,h.number i c hc,Int.toNat_natCast]

lemma Inv.dominator_spec (hne : b ≠ 0) : IsImmediateDominator g.Edge 0 (t.dominator b) b := by
  obtain ⟨i,hi,rfl,hnum⟩ := h.exists_number hs hb
  have hpos : 0 < i := by
    refine Nat.pos_of_ne_zero fun h0 => hne ?_
    rw [h0,block_eq h.entry]
  have hsettled := h.settled hs
  have hlt := hsettled.lt (h.depthFirst hs) le_rfl hpos hi
  unfold dominator
  rw [hnum]
  exact (h.renaming hs).isImmediateDominator (h.reachable hs (hlt.trans hi)) (h.reachable hs hi)
    (hsettled i hpos hi)

lemma Inv.dominanceFrontier_spec (y : ℕ) : y ∈ t.dominanceFrontier b ↔ InFrontier g.Edge 0 b y := by
  obtain ⟨i,hi,rfl,hnum⟩ := h.exists_number hs hb
  have hrename := h.renaming hs
  unfold dominanceFrontier
  rw [hnum,Finset.mem_image]
  constructor
  · rintro ⟨j,hj,rfl⟩
    obtain ⟨hlt,hfront⟩ := (h.mem_frontier_iff hs).1 hj
    exact (hrename.inFrontier_iff (h.reachable hs hi) (h.reachable hs hlt)).2 hfront
  · intro hy
    obtain ⟨⟨v,⟨l,hl⟩,hvy, -⟩, -⟩ := id hy
    obtain ⟨j,hj,rfl, -⟩ := h.exists_number hs ⟨_,.step hl hvy⟩
    refine ⟨j,(h.mem_frontier_iff hs).2 ⟨hj,?_⟩,rfl⟩
    exact (hrename.inFrontier_iff (h.reachable hs hi) (h.reachable hs hj)).1 hy

end

end Traversal

/-- After a traversal, whatever the blocks recorded before, the computed immediate dominator
of every reachable block other than the entry is the closest strict dominator, and the
computed frontier is the dominance frontier. -/
theorem computeDominators_correct (g : ControlFlow) (number : ℕ → ℤ) (predecessors : ℕ → List ℕ) :
    ∃ t, g.discoverBlocks number predecessors = some t ∧
      (∀ b, Reachable g.Edge 0 b → b ≠ 0 → IsImmediateDominator g.Edge 0 (t.dominator b) b) ∧
      ∀ b, Reachable g.Edge 0 b → ∀ y, y ∈ t.dominanceFrontier b ↔ InFrontier g.Edge 0 b y := by
  obtain ⟨t,ht,h,hs⟩ := g.discoverBlocks_inv number predecessors
  exact ⟨t,ht,fun b hb hne => h.dominator_spec hs hb hne,fun b hb => h.dominanceFrontier_spec hs hb⟩

end DartSdk.FlowGraph
