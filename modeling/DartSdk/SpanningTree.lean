import DartSdk.Dominance

/-! The vertices of a graph are numbered in preorder of a depth-first spanning tree with root 0. A
semidominator of `w` is the least vertex with a path to `w` through larger vertices only; it is
determined by the predecessors of `w` and the semidominators of larger vertices. -/
namespace DartSdk.SpanningTree
open Dominance Relation ReflTransGen

/-- Ancestors in the tree, `b` itself included. -/
inductive Anc (parent : ℕ → ℕ) (a : ℕ) : ℕ → Prop
  | refl : Anc parent a a
  | step {b : ℕ} : 0 < b → Anc parent a (parent b) → Anc parent a b

/-- The graph `E` on `0, …, size - 1` has the tree given by `parent` as a depth-first spanning
tree: the numbers are a preorder, and edges to larger numbers go to descendants. -/
structure DepthFirst (size : ℕ) (E : ℕ → ℕ → Prop) (parent : ℕ → ℕ) : Prop where
  edge_lt : ∀ {u v}, E u v → u < size ∧ v < size
  parent_lt : ∀ {i}, 0 < i → i < size → parent i < i
  parent_edge : ∀ {i}, 0 < i → i < size → E (parent i) i
  preorder : ∀ {i}, 0 < i → i < size → Anc parent (parent i) (i-1)
  forward : ∀ {u v}, E u v → u < v → Anc parent u v

variable {size : ℕ} {E : ℕ → ℕ → Prop} {parent : ℕ → ℕ} {a b c d v w x y : ℕ}

lemma Anc.trans (h₁ : Anc parent a b) (h₂ : Anc parent b c) : Anc parent a c := by
  induction h₂ with
  | refl => exact h₁
  | step hpos _ ih => exact .step hpos ih

/-- A path from `x` to `w` whose inner vertices are larger than `w`. -/
def Semi (E : ℕ → ℕ → Prop) (x w : ℕ) : Prop :=
  E x w ∨ ∃ y, TransGen (fun a b => E a b ∧ w < b) x y ∧ E y w

lemma Anc.of_ne (h : Anc parent a b) (hne : a ≠ b) : 0 < b ∧ Anc parent a (parent b) := by
  cases h with
  | refl => exact absurd rfl hne
  | step hpos h => exact ⟨hpos,h⟩

/-- The semidominator of a vertex. -/
noncomputable def semidominator (E : ℕ → ℕ → Prop) (w : ℕ) : ℕ := sInf {x | Semi E x w}

/-- A path that avoids `d` ends below `d`, or comes from below `d` and stays above. -/
lemma path_avoiding {l : List ℕ} (hl : PathTo E 0 l y) (hd : d ∉ l) :
    y < d ∨ ∃ x < d, TransGen (fun a b => E a b ∧ d < b) x y := by
  induction hl with
  | root =>
    have hne : d ≠ 0 := fun h => hd (List.mem_singleton.2 h)
    exact .inl (Nat.pos_of_ne_zero hne)
  | @step l y z _ he ih =>
    have hne : d ≠ z := fun h => hd (h ▸ List.mem_cons_self)
    rcases lt_or_ge z d with hlt | hge
    · exact .inl hlt
    have hstep : E y z ∧ d < z := ⟨he,by omega⟩
    rcases ih fun h => hd (List.mem_cons_of_mem z h) with hlt | ⟨x,hx,hpath⟩
    · exact .inr ⟨y,hlt,.single hstep⟩
    · exact .inr ⟨x,hx,hpath.tail hstep⟩

namespace DepthFirst
variable (t : DepthFirst size E parent)

include t

variable (hb : b < size)
include hb

lemma anc_le (h : Anc parent a b) : a ≤ b := by
  induction h with
  | refl => exact le_rfl
  | step hpos _ ih =>
    have hlt := t.parent_lt hpos hb
    exact (ih (hlt.trans hb)).trans hlt.le

omit hb in
/-- Descendants are consecutive in preorder. -/
lemma anc_interval (hc : c < size) (h : Anc parent a c) (hab : a ≤ b) (hbc : b ≤ c) :
    Anc parent a b := by
  induction hbc using Nat.decreasingInduction with
  | self => exact h
  | of_succ k hk ih =>
    have hpos : 0 < k+1 := Nat.succ_pos k
    have hsucc := ((ih (by omega)).of_ne (by omega)).2
    exact hsucc.trans (t.preorder hpos (by omega))

lemma anc_root : Anc parent 0 b := by
  induction b using Nat.strong_induction_on with
  | h b ih =>
    rcases Nat.eq_zero_or_pos b with rfl | hpos
    · exact .refl
    · have hlt := t.parent_lt hpos hb
      exact .step hpos (ih _ hlt (hlt.trans hb))

lemma anc_path (h : Anc parent a b) : ReflTransGen (fun u v => E u v ∧ a < v ∧ v ≤ b) a b := by
  induction h with
  | refl => exact .refl
  | @step b hpos h ih =>
    have hlt := t.parent_lt hpos hb
    have hle := t.anc_le (hlt.trans hb) h
    refine tail (mono (fun u v huv => ?_) _ _ (ih (hlt.trans hb)))
      ⟨t.parent_edge hpos hb,by omega,le_rfl⟩
    exact ⟨huv.1,huv.2.1,huv.2.2.trans hlt.le⟩

lemma pathTo_root : ∃ l, PathTo E 0 l b ∧ ∀ y ∈ l, y ≤ b :=
  PathTo.extend .root (by simp)
    (mono (fun _ _ h => ⟨h.1,h.2.2⟩) _ _ (t.anc_path hb (t.anc_root hb)))

lemma le_of_dominates (h : Dominates E 0 a b) : a ≤ b := by
  obtain ⟨l,hl,hle⟩ := t.pathTo_root hb
  exact hle a (h l hl)

omit hb

/-- A path that stays above `d` reaches its target below its least vertex. -/
lemma exists_semi (h : TransGen (fun a b => E a b ∧ d < b) x y) :
    ∃ v, d < v ∧ Anc parent v y ∧ Semi E x v ∧ TransGen (fun a b => E a b ∧ v ≤ b) x y := by
  induction h with
  | single hxy => exact ⟨_,hxy.2,.refl,.inl hxy.1,.single ⟨hxy.1,le_rfl⟩⟩
  | @tail y z _ hyz ih =>
    obtain ⟨v,hdv,hanc,hsemi,hpath⟩ := ih
    obtain ⟨hy,hz⟩ := t.edge_lt hyz.1
    rcases lt_or_ge z v with hlt | hge
    · -- A new least vertex: everything before it is larger.
      have habove : TransGen (fun a b => E a b ∧ z < b) x y :=
        TransGen.mono (fun a b hab => ⟨hab.1,hlt.trans_le hab.2⟩) _ _ hpath
      exact ⟨z,hyz.2,.refl,.inr ⟨y,habove,hyz.1⟩,
        (TransGen.mono (fun a b hab => ⟨hab.1,hab.2.le⟩) _ _ habove).tail ⟨hyz.1,le_rfl⟩⟩
    · refine ⟨v,hdv,?_,hsemi,hpath.tail ⟨hyz.1,hge⟩⟩
      rcases lt_or_ge y z with hlt | hle
      · exact hanc.trans (t.forward hyz.1 hlt)
      · exact t.anc_interval hy hanc hge hle

variable (hpos : 0 < w)
include hpos

variable (hw : w < size)
include hw

lemma semi_parent : Semi E (parent w) w :=
  .inl (t.parent_edge hpos hw)

lemma isLeast_semidominator : IsLeast {x | Semi E x w} (semidominator E w) :=
  ⟨Nat.sInf_mem ⟨_,t.semi_parent hpos hw⟩,fun _ => Nat.sInf_le⟩

lemma semidominator_le_parent : semidominator E w ≤ parent w :=
  (t.isLeast_semidominator hpos hw).2 (t.semi_parent hpos hw)

/-- The semidominator from the predecessors and the larger semidominators. -/
lemma eq_semidominator {m : ℕ} (hle : m ≤ w) (hsmall : ∀ v, E v w → v < w → m ≤ v)
    (hlarge : ∀ v u, E v w → w < u → Anc parent u v → m ≤ semidominator E u)
    (hmem : m = w ∨ E m w ∧ m < w ∨ ∃ v u, E v w ∧ w < u ∧ Anc parent u v ∧ m = semidominator E u) :
    m = semidominator E w := by
  have hsdom : ∀ u, w < u → u < size → IsLeast {x | Semi E x u} (semidominator E u) :=
    fun u hu => t.isLeast_semidominator (by omega)
  refine IsLeast.unique ?_ (t.isLeast_semidominator hpos hw)
  have hparent := hsmall (parent w) (t.parent_edge hpos hw) (t.parent_lt hpos hw)
  have hlt := t.parent_lt hpos hw
  constructor
  · rcases hmem with rfl | ⟨he, -⟩ | ⟨v,u,he,hwu,hanc,rfl⟩
    · omega
    · exact .inl he
    · -- The path to `u`, down the tree to `v`, and the edge to `w`.
      have hv := (t.edge_lt he).1
      have hu : u < size := (t.anc_le hv hanc).trans_lt hv
      have hdown : ReflTransGen (fun a b => E a b ∧ w < b) u v :=
        mono (fun a b hab => ⟨hab.1,hwu.trans hab.2.1⟩) _ _ (t.anc_path hv hanc)
      refine .inr ⟨v,?_,he⟩
      rcases (hsdom u hwu hu).1 with hedge | ⟨y,hpath,hedge⟩
      · exact TransGen.trans_left (.single ⟨hedge,hwu⟩) hdown
      · have hup : TransGen (fun a b => E a b ∧ w < b) (semidominator E u) y :=
          TransGen.mono (fun a b hab => ⟨hab.1,hwu.trans hab.2⟩) _ _ hpath
        exact TransGen.trans_left (hup.tail ⟨hedge,hwu⟩) hdown
  · rintro x (hx | ⟨y,hpath,hy⟩)
    · rcases lt_or_ge x w with hlt' | hge
      · exact hsmall x hx hlt'
      · exact hle.trans hge
    · obtain ⟨v,hwv,hanc,hsemi, -⟩ := t.exists_semi hpath
      have hy' := (t.edge_lt hy).1
      exact (hlarge y v hy hwv hanc).trans
        ((hsdom v hwv ((t.anc_le hy' hanc).trans_lt hy')).2 hsemi)

omit hw

omit hpos in
/-- A path along a semidominator path avoids every vertex between its ends. -/
lemma exists_path_avoiding (hxd : x < d) (hdv : d < v) (hv : v < size) (h : Semi E x v) :
    ∃ l, PathTo E 0 l v ∧ ∀ y ∈ l, y ≠ d := by
  have hx : x < size := by omega
  obtain ⟨l,hl,hle⟩ := t.pathTo_root hx
  refine hl.extend (fun y hy => by have := hle y hy; omega) ?_
  rcases h with he | ⟨y,hpath,he⟩
  · exact .single ⟨he,by omega⟩
  · refine tail (mono (fun a b hab => ?_) _ _ hpath.to_reflTransGen)
      ⟨he,by omega⟩
    exact ⟨hab.1,(hdv.trans hab.2).ne'⟩

lemma le_semidominator (hw : w < size) (h : StrictlyDominates E 0 x w) : x ≤ semidominator E w := by
  have hs := (t.isLeast_semidominator hpos hw).1
  have hle := t.le_of_dominates hw h.1
  have hne := h.2
  by_contra hlt
  obtain ⟨l,hl,havoid⟩ := t.exists_path_avoiding (not_le.1 hlt) (by omega) hw hs
  exact havoid x (h.1 l hl) rfl

/-- A dominator of the parent that is not above the semidominator dominates the vertex. -/
lemma dominates_of_le_semidominator (hw : w < size)
    (hd : Dominates E 0 d (parent w)) (hds : d ≤ semidominator E w) : Dominates E 0 d w := by
  intro l hl
  by_contra hmem
  have hlt := t.parent_lt hpos hw
  have hdp := t.le_of_dominates (hlt.trans hw) hd
  rcases path_avoiding hl hmem with hwd | ⟨x,hx,hpath⟩
  · omega
  obtain ⟨v,hdv,hanc,hsemi, -⟩ := t.exists_semi hpath
  by_cases hvw : v = w
  · subst hvw
    have := (t.isLeast_semidominator hpos hw).2 hsemi
    omega
  · -- Otherwise the path enters the tree path below `d`, and the parent avoids `d`.
    have hanc' := (hanc.of_ne hvw).2
    have hv : v < size := (t.anc_le hw hanc).trans_lt hw
    obtain ⟨l',hl',havoid⟩ := t.exists_path_avoiding hx hdv hv hsemi
    obtain ⟨l'',hl'',havoid'⟩ := hl'.extend havoid (mono
      (fun a b hab => ⟨hab.1,(hdv.trans hab.2.1).ne'⟩) _ _ (t.anc_path (hlt.trans hw) hanc'))
    exact havoid' d (hd l'' hl'') rfl

end DepthFirst

end DartSdk.SpanningTree
