import DartSdk.FlowGraphBlocks
import DartSdk.Iteration

/-! `FlowGraph::ComputeDominators` and `CompressPath` of `vm/flow_graph.cc`. Semidominators are
found with a link-eval forest whose paths are compressed in the array of parents; labels hold
semidominator numbers. All arrays are indexed by preorder numbers. -/
namespace DartSdk.FlowGraph
open Function (update update_of_ne update_self)
open SpanningTree Dominance Nat

variable {visited : ℕ → Prop}

structure Forest where
  parent : ℕ → ℕ
  label : ℕ → ℕ

namespace Forest

def skip (f : Forest) (current next : ℕ) : Forest where
  parent := update f.parent current (f.parent next)
  label := update f.label current (min (f.label current) (f.label next))

/-- `CompressPath`; parents are smaller, so `fuel` is at least `current`. -/
def compressPath (start : ℕ) : ℕ → ℕ → Forest → Forest
  | 0, _, f => f
  | fuel+1, current, f =>
    let next := f.parent current
    if next > start then (compressPath start fuel next f).skip current next else f

end Forest

structure SemiState where
  forest : Forest
  semi : ℕ → ℕ

def visitPredecessor (block : ℕ) (s : SemiState) (pred : ℕ) : SemiState :=
  let forest := if pred > block then s.forest.compressPath block pred pred else s.forest
  let best := if pred > block then forest.label pred else pred
  ⟨forest,update s.semi block (min (s.semi block) (s.semi best))⟩

def visitBlock (preds : ℕ → List ℕ) (s : SemiState) (block : ℕ) : SemiState :=
  let s := (preds block).foldl (visitPredecessor block) s
  ⟨⟨s.forest.parent,update s.forest.label block (s.semi block)⟩,s.semi⟩

variable (size : ℕ)

/-- The first pass, in reverse preorder without the graph entry. -/
def semidominators (preds : ℕ → List ℕ) (parent : ℕ → ℕ) : SemiState :=
  (List.range (size-1)).foldl (fun s i => visitBlock preds s (size-1-i)) ⟨⟨parent,id⟩,id⟩

/-- Ascend to the first dominator that is not above `bound`. -/
def ascend (idom : ℕ → ℕ) (bound : ℕ) : ℕ → ℕ → ℕ
  | 0, d => d
  | fuel+1, d => if d > bound then ascend idom bound fuel (idom d) else d

def immediateDominator (semi idom : ℕ → ℕ) (block : ℕ) : ℕ → ℕ :=
  update idom block (ascend idom (semi block) block (idom block))

/-- The second pass. -/
def immediateDominators (semi parent : ℕ → ℕ) : ℕ → ℕ :=
  (List.range (size-1)).foldl (fun idom i => immediateDominator semi idom (i+1)) parent

/-- Add `block` to the frontiers from `runner` up to its own immediate dominator. -/
def addToFrontiers (idom : ℕ → ℕ) (block : ℕ) : ℕ → ℕ → (ℕ → Finset ℕ) → ℕ → Finset ℕ
  | 0, _, df => df
  | fuel+1, runner, df =>
    if runner = idom block then df
    else addToFrontiers idom block fuel (idom runner)
      (update df runner (insert block (df runner)))

def frontierOfBlock (preds : ℕ → List ℕ) (idom : ℕ → ℕ) (df : ℕ → Finset ℕ)
    (block : ℕ) : ℕ → Finset ℕ :=
  if (preds block).length ≤ 1 then df
  else (preds block).foldl (fun df pred => addToFrontiers idom block size pred df) df

/-- The third pass. -/
def dominanceFrontiers (preds : ℕ → List ℕ) (idom : ℕ → ℕ) : ℕ → Finset ℕ :=
  (List.range size).foldl (frontierOfBlock size preds idom) fun _ => ∅

structure Dominators where
  idom : ℕ → ℕ
  frontier : ℕ → Finset ℕ

/-- `ComputeDominators` after a traversal. -/
def Traversal.computeDominators (t : Traversal) : Dominators :=
  let size := t.parent.length
  let preds i := (t.predecessors (t.block i)).map fun p => (t.number p).toNat
  let semi := (semidominators size preds t.parentOf).semi
  let idom := immediateDominators size semi t.parentOf
  ⟨idom,dominanceFrontiers size preds idom⟩

section Compression
variable {size : ℕ} {E : ℕ → ℕ → Prop} {p : ℕ → ℕ} {a b m m' u v w : ℕ} {f : Forest}

/-- `m` is the least semidominator on the tree path from `u` up to `a`, without `a`; all
vertices on it are larger than `w`. -/
inductive Segment (E : ℕ → ℕ → Prop) (p : ℕ → ℕ) (w : ℕ) : ℕ → ℕ → ℕ → Prop
  | one {u : ℕ} : w < u → Segment E p w (p u) u (semidominator E u)
  | more {a u m : ℕ} : w < u → Segment E p w a (p u) m →
      Segment E p w a u (min (semidominator E u) m)

lemma Segment.append (h : Segment E p w b u m) (h' : Segment E p w a b m') :
    Segment E p w a u (min m m') := by
  induction h with
  | one hu => exact .more hu h'
  | more hu _ ih =>
    rw [min_assoc]
    exact .more hu (ih h')

lemma Segment.mono (h : Segment E p w a u m) (hv : v ≤ w) : Segment E p v a u m := by
  induction h with
  | one hu => exact .one (by omega)
  | more hu _ ih => exact .more (by omega) ih

lemma Segment.lt (t : DepthFirst size E p) (hu : u < size) (h : Segment E p w a u m) : a < u := by
  induction h with
  | one hw => exact t.parent_lt (by omega) hu
  | more hw _ ih =>
    have := t.parent_lt (zero_lt_of_lt hw) hu
    exact (ih (by omega)).trans this

lemma Segment.le (t : DepthFirst size E p) (hu : u < size) (ha : a ≤ w)
    (h : Segment E p w a u m) : m ≤ w := by
  induction h with
  | one hw => exact (t.semidominator_le_parent (zero_lt_of_lt hw) hu).trans ha
  | more hw _ ih =>
    have := t.parent_lt (zero_lt_of_lt hw) hu
    exact (min_le_right _ _).trans (ih (by omega) ha)

lemma Segment.le_semidominator (t : DepthFirst size E p) (hu : u < size) (ha : a ≤ w)
    (h : Segment E p w a u m) (hv : w < v) (hanc : Anc p v u) : m ≤ semidominator E v := by
  induction h with
  | @one u hw =>
    by_cases heq : v = u
    · exact heq ▸ le_rfl
    · have := t.anc_le (by omega) (hanc.of_ne heq).2
      omega
  | @more a u m hw _ ih =>
    have hlt := t.parent_lt (zero_lt_of_lt hw) hu
    by_cases heq : v = u
    · exact heq ▸ min_le_left _ _
    · exact (min_le_right _ _).trans (ih (by omega) ha (hanc.of_ne heq).2)

lemma Segment.exists_eq (h : Segment E p w a u m) :
    ∃ v, w < v ∧ Anc p v u ∧ m = semidominator E v := by
  induction h with
  | one hw => exact ⟨_,hw,.refl,rfl⟩
  | @more a u m hw _ ih =>
    obtain ⟨v,hv,hanc,rfl⟩ := ih
    rcases min_choice (semidominator E u) (semidominator E v) with hmin | hmin
    · exact ⟨u,hw,.refl,hmin⟩
    · exact ⟨v,hv,.step (by omega) hanc,hmin⟩

/-- Parents and labels of the vertices above `w` describe compressed tree paths. -/
def Linked (size : ℕ) (E : ℕ → ℕ → Prop) (p : ℕ → ℕ) (w : ℕ) (f : Forest) : Prop :=
  ∀ u, w < u → u < size → Segment E p w (f.parent u) u (f.label u)

lemma Forest.compressPath_spec (t : DepthFirst size E p) (fuel : ℕ) {current : ℕ}
    (hlink : Linked size E p w f) (hw : w < current) (hc : current < size) (hfuel : current ≤ fuel) :
    Linked size E p w (f.compressPath w fuel current) ∧
      (f.compressPath w fuel current).parent current ≤ w ∧
      ∀ u, u ≤ w ∨ current < u → (f.compressPath w fuel current).parent u = f.parent u ∧
        (f.compressPath w fuel current).label u = f.label u := by
  induction fuel generalizing current with
  | zero => omega
  | succ fuel ih =>
    have hlt := (hlink current hw hc).lt t hc
    unfold compressPath
    dsimp only
    split_ifs with hnext
    · obtain ⟨hlink',hle,hframe⟩ := ih hnext (hlt.trans hc) (by omega)
      set f' := f.compressPath w fuel (f.parent current)
      obtain ⟨hparent, -⟩ := hframe current (.inr hlt)
      have hself := hlink' current hw hc
      rw [hparent] at hself
      refine ⟨fun u hu hus => ?_,?_,fun u hu => ?_⟩
      · unfold skip
        by_cases heq : u = current
        · subst heq
          dsimp only
          rw [update_self,update_self]
          exact hself.append (hlink' (f.parent u) hnext (hlt.trans hc))
        · dsimp only
          rw [update_of_ne heq,update_of_ne heq]
          exact hlink' u hu hus
      · unfold skip
        dsimp only
        rwa [update_self]
      · have hne : u ≠ current := by omega
        unfold skip
        dsimp only
        rw [update_of_ne hne,update_of_ne hne]
        exact hframe u (by omega)
    · exact ⟨hlink,not_lt.1 hnext,fun u _ => ⟨rfl,rfl⟩⟩

end Compression

section Semidominators
variable {size : ℕ} {E : ℕ → ℕ → Prop} {p : ℕ → ℕ} {v w : ℕ} {s : SemiState}

/-- The state between the blocks: `w` is the next one. -/
structure Between (size : ℕ) (E : ℕ → ℕ → Prop) (p : ℕ → ℕ) (w : ℕ) (s : SemiState) : Prop where
  linked : Linked size E p w s.forest
  parent : ∀ u ≤ w, s.forest.parent u = p u
  larger : ∀ u, w < u → u < size → s.semi u = semidominator E u
  smaller : ∀ u ≤ w, s.semi u = u

/-- The state after some predecessors of `w`. -/
structure Visiting (size : ℕ) (E : ℕ → ℕ → Prop) (p : ℕ → ℕ) (w : ℕ) (visited : ℕ → Prop)
    (s : SemiState) : Prop where
  linked : Linked size E p w s.forest
  parent : ∀ u ≤ w, s.forest.parent u = p u
  larger : ∀ u, w < u → u < size → s.semi u = semidominator E u
  smaller : ∀ u < w, s.semi u = u
  le : s.semi w ≤ w
  small : ∀ v, visited v → v < w → s.semi w ≤ v
  large : ∀ v u, visited v → w < u → Anc p u v → s.semi w ≤ semidominator E u
  mem : s.semi w = w ∨ E (s.semi w) w ∧ s.semi w < w ∨
    ∃ v u, E v w ∧ w < u ∧ Anc p u v ∧ s.semi w = semidominator E u

/-- An entry up to `w` counts as its own number, except that the one of `w` is already there. -/
lemma Visiting.min_semi (h : Visiting size E p w visited s) {m : ℕ}
    (hm : m ≤ w) : min (s.semi w) (s.semi m) = min (s.semi w) m := by
  rcases hm.lt_or_eq with hlt | rfl
  · rw [h.smaller m hlt]
  · rw [min_self,min_eq_left h.le]

section
variable (t : DepthFirst size E p)
include t

lemma visitPredecessor_spec (h : Visiting size E p w visited s)
    (he : E v w) : Visiting size E p w (fun x => visited x ∨ x = v) (visitPredecessor w s v) := by
  have hv := (t.edge_lt he).1
  -- What the predecessor contributes, and the forest that is left.
  obtain ⟨f,m,hstep,hlink,hparent,hmw,hsmall,hlarge,hmem⟩ :
      ∃ f m, visitPredecessor w s v = ⟨f,update s.semi w (min (s.semi w) m)⟩ ∧
        Linked size E p w f ∧ (∀ u ≤ w, f.parent u = p u) ∧ m ≤ w ∧ (v < w → m ≤ v) ∧
        (∀ u, w < u → Anc p u v → m ≤ semidominator E u) ∧
        (m = w ∨ E m w ∧ m < w ∨
          ∃ v u, E v w ∧ w < u ∧ Anc p u v ∧ m = semidominator E u) := by
    unfold visitPredecessor
    rcases lt_or_ge w v with hwv | hvw
    · obtain ⟨hlink,hle,hframe⟩ := Forest.compressPath_spec t v h.linked hwv hv le_rfl
      have hseg := hlink v hwv hv
      refine ⟨_,(s.forest.compressPath w v v).label v,?_,hlink,fun u hu => ?_,
        hseg.le t hv hle,by omega,fun u hu hanc => hseg.le_semidominator t hv hle hu hanc,?_⟩
      · dsimp only
        rw [if_pos hwv,if_pos hwv,h.min_semi (hseg.le t hv hle)]
      · rw [(hframe u (.inl hu)).1]
        exact h.parent u hu
      · obtain ⟨u,hu,hanc,heq⟩ := hseg.exists_eq
        exact .inr (.inr ⟨v,u,he,hu,hanc,heq⟩)
    · refine ⟨s.forest,v,?_,h.linked,h.parent,hvw,fun _ => le_rfl,fun u hu hanc => ?_,?_⟩
      · dsimp only
        rw [if_neg (not_lt.2 hvw),if_neg (not_lt.2 hvw),h.min_semi hvw]
      · have := t.anc_le hv hanc
        omega
      · rcases hvw.lt_or_eq with hlt | heq
        · exact .inr (.inl ⟨he,hlt⟩)
        · exact .inl heq
  have hself : (visitPredecessor w s v).semi w = min (s.semi w) m := by
    rw [hstep]
    exact update_self w _ s.semi
  have hother : ∀ u ≠ w, (visitPredecessor w s v).semi u = s.semi u := by
    intro u hu
    rw [hstep]
    exact update_of_ne hu _ s.semi
  refine ⟨by rwa [hstep],by rwa [hstep],fun u hu hus => ?_,fun u hu => ?_,?_,fun x hx hxw => ?_,
    fun x u hx hu hanc => ?_,?_⟩
  · rw [hother u hu.ne']
    exact h.larger u hu hus
  · rw [hother u hu.ne]
    exact h.smaller u hu
  · rw [hself]
    exact (min_le_right _ _).trans hmw
  · rw [hself]
    rcases hx with hx | rfl
    · exact (min_le_left _ _).trans (h.small x hx hxw)
    · exact (min_le_right _ _).trans (hsmall hxw)
  · rw [hself]
    rcases hx with hx | rfl
    · exact (min_le_left _ _).trans (h.large x u hx hu hanc)
    · exact (min_le_right _ _).trans (hlarge u hu hanc)
  · rw [hself]
    rcases min_choice (s.semi w) m with hmin | hmin
    · rw [hmin]
      exact h.mem
    · rw [hmin]
      exact hmem

lemma visitPredecessors_spec (vs : List ℕ)
    (h : Visiting size E p w visited s) (he : ∀ v ∈ vs, E v w) :
    Visiting size E p w (fun x => visited x ∨ x ∈ vs) (vs.foldl (visitPredecessor w) s) := by
  induction vs generalizing s visited with
  | nil => simpa using h
  | cons v vs ih =>
    have hstep := ih (visitPredecessor_spec t h (he v List.mem_cons_self))
      fun x hx => he x (List.mem_cons_of_mem v hx)
    have heq : (fun x => visited x ∨ x ∈ v :: vs) = fun x => (visited x ∨ x = v) ∨ x ∈ vs := by
      funext x
      rw [List.mem_cons,or_assoc]
    rw [heq]
    exact hstep

lemma visitBlock_spec {preds : ℕ → List ℕ}
    (hpreds : ∀ v, v ∈ preds (w+1) ↔ E v (w+1)) (hw : w+1 < size)
    (h : Between size E p (w+1) s) : Between size E p w (visitBlock preds s (w+1)) := by
  have hinit : Visiting size E p (w+1) (fun _ => False) s :=
    ⟨h.linked,h.parent,h.larger,fun u hu => h.smaller u hu.le,(h.smaller _ le_rfl).le,
      fun _ hf => hf.elim,fun _ _ hf => hf.elim,.inl (h.smaller _ le_rfl)⟩
  have hvisit := visitPredecessors_spec t (preds (w+1)) hinit fun v hv => (hpreds v).1 hv
  unfold visitBlock
  set s' := (preds (w+1)).foldl (visitPredecessor (w+1)) s
  have hsemi : s'.semi (w+1) = semidominator E (w+1) :=
    t.eq_semidominator (succ_pos w) hw hvisit.le
      (fun v hv hlt => hvisit.small v (.inr ((hpreds v).2 hv)) hlt)
      (fun v u hv hu hanc => hvisit.large v u (.inr ((hpreds v).2 hv)) hu hanc) hvisit.mem
  refine ⟨fun u hu hus => ?_,fun u hu => hvisit.parent u (by omega),fun u hu hus => ?_,
    fun u hu => hvisit.smaller u (by omega)⟩
  · dsimp only
    by_cases heq : u = w+1
    · subst heq
      rw [update_self,hvisit.parent _ le_rfl,hsemi]
      exact .one (by omega)
    · rw [update_of_ne heq]
      exact (hvisit.linked u (by omega) hus).mono (by omega)
  · by_cases heq : u = w+1
    · rw [heq,hsemi]
    · exact hvisit.larger u (by omega) hus

lemma semidominators_spec {preds : ℕ → List ℕ} (hpreds : ∀ v w, w < size → (v ∈ preds w ↔ E v w))
    (hw : 0 < w) (hws : w < size) : (semidominators size preds p).semi w = semidominator E w := by
  have hloop := Iteration.foldl_range (f := fun s i => visitBlock preds s (size-1-i))
    (n := size-1) (s := ⟨⟨p,id⟩,id⟩) (fun i s => Between size E p (size-1-i) s)
    ⟨fun u hu hus => by omega,fun u _ => rfl,fun u hu hus => by omega,fun u _ => rfl⟩
    fun i hi s hs => by
      have heq : size-1-i = size-1-(i+1)+1 := by omega
      rw [heq] at hs ⊢
      exact visitBlock_spec t (fun v => hpreds v _ (by omega)) (by omega) hs
  exact hloop.larger w (by omega) hws

end

end Semidominators

end DartSdk.FlowGraph
