import Mathlib

/-! A vertex of a graph with a root dominates another if it lies on every path from the root to it.
-/
namespace DartSdk.Dominance
open List

variable {V : Type*}

/-- The list has the vertices of a path from `r`, the last one first. -/
inductive PathTo (E : V → V → Prop) (r : V) : List V → V → Prop
  | root : PathTo E r [r] r
  | step {l : List V} {v w : V} : PathTo E r l v → E v w → PathTo E r (w :: l) w

variable (E : V → V → Prop) (r : V) (d w : V)

def Reachable : Prop := ∃ l, PathTo E r l w

def Dominates : Prop := ∀ l, PathTo E r l w → d ∈ l

def StrictlyDominates : Prop := Dominates E r d w ∧ d ≠ w

/-- The closest strict dominator. -/
structure IsImmediateDominator (d w : V) : Prop where
  strict : StrictlyDominates E r d w
  closest : ∀ x, StrictlyDominates E r x w → Dominates E r x d

/-- The vertices `w` where the dominance of `d` ends. -/
def InFrontier : Prop :=
  (∃ v, Reachable E r v ∧ E v w ∧ Dominates E r d v) ∧ ¬ StrictlyDominates E r d w

variable {E : V → V → Prop} {r : V} {l : List V} {d v w x : V}

lemma PathTo.mem_target (h : PathTo E r l w) : w ∈ l := by
  cases h with
  | root => exact mem_singleton_self r
  | step _ _ => exact mem_cons_self

lemma PathTo.exists_of_mem (h : PathTo E r l w) (hx : x ∈ l) : ∃ l', PathTo E r l' x ∧ l' ⊆ l := by
  induction h with
  | root =>
    rw [mem_singleton.1 hx]
    exact ⟨[r],.root,List.Subset.refl _⟩
  | @step l v w hl he ih =>
    rcases mem_cons.1 hx with rfl | hx
    · exact ⟨x :: l,.step hl he,List.Subset.refl _⟩
    · obtain ⟨l',hl',hsub⟩ := ih hx
      exact ⟨l',hl',List.Subset.trans hsub (subset_cons_self w l)⟩

lemma PathTo.extend {P : V → Prop} (h : PathTo E r l v) (hl : ∀ y ∈ l, P y)
    (hvw : Relation.ReflTransGen (fun a b => E a b ∧ P b) v w) :
    ∃ l', PathTo E r l' w ∧ ∀ y ∈ l', P y := by
  induction hvw with
  | refl => exact ⟨l,h,hl⟩
  | tail _ hstep ih =>
    obtain ⟨l',hl',hP⟩ := ih
    exact ⟨_,.step hl' hstep.1,forall_mem_cons.2 ⟨hstep.2,hP⟩⟩

lemma Dominates.refl (w : V) : Dominates E r w w := fun _ h => h.mem_target

lemma Dominates.trans (h₁ : Dominates E r x d) (h₂ : Dominates E r d w) : Dominates E r x w := by
  intro l hl
  obtain ⟨l',hl',hsub⟩ := hl.exists_of_mem (h₂ l hl)
  exact hsub (h₁ l' hl')

lemma StrictlyDominates.of_edge (h : StrictlyDominates E r x w) (he : E v w) :
    Dominates E r x v := by
  intro l hl
  rcases mem_cons.1 (h.1 (w :: l) (.step hl he)) with heq | hmem
  · exact absurd heq h.2
  · exact hmem

lemma dominates_of_forall_edge (hw : w ≠ r) (h : ∀ v, E v w → Dominates E r d v) :
    Dominates E r d w := by
  intro l hl
  cases hl with
  | root => exact absurd rfl hw
  | step hl he => exact mem_cons_of_mem w (h _ he _ hl)

lemma IsImmediateDominator.dominates_iff (h : IsImmediateDominator E r d w) :
    Dominates E r x w ↔ x = w ∨ Dominates E r x d := by
  constructor
  · intro hx
    by_cases heq : x = w
    · exact .inl heq
    · exact .inr (h.closest x ⟨hx,heq⟩)
  · rintro (rfl | hx)
    · exact .refl x
    · exact hx.trans h.strict.1

lemma Dominates.antisymm (h : Dominates E r x w) (h' : Dominates E r w x) (hw : Reachable E r w) :
    x = w := by
  obtain ⟨l,hl⟩ := hw
  by_contra hne
  -- A path cannot reach one of them for the first time.
  have hnot : ∀ {l v}, PathTo E r l v → x ∉ l ∧ w ∉ l := by
    intro l v hl
    induction hl with
    | root =>
      simp only [mem_singleton]
      constructor
      · rintro rfl
        simpa [Ne.symm hne] using h' _ .root
      · rintro rfl
        simpa [hne] using h _ .root
    | step hl he ih =>
      simp only [mem_cons,ih,or_false]
      constructor
      · rintro rfl
        simpa [Ne.symm hne,ih] using h' _ (.step hl he)
      · rintro rfl
        simpa [hne,ih] using h _ (.step hl he)
  exact (hnot hl).2 hl.mem_target

lemma Dominates.of_path (h : Dominates E r d w)
    (hpath : Relation.ReflTransGen (fun a b => E a b ∧ b ≠ d) x w) : Dominates E r d x := by
  intro l hl
  by_contra hd
  obtain ⟨l',hl',hne⟩ := hl.extend (fun y hy => ne_of_mem_of_not_mem hy hd) hpath
  exact hne d (h l' hl') rfl

/-- If the frontiers of vertices with `A` or `P` have `P`, and `w` has not, then no vertex with
`A` or `P` comes on a path between the immediate dominator of `w` and `w`. -/
lemma IsImmediateDominator.not_of_path {A P : V → Prop} (h : IsImmediateDominator E r d w)
    (hfront : ∀ {a b}, A a ∨ P a → InFrontier E r a b → P b) (hw : ¬ P w) (hx : Reachable E r x)
    (hne : x ≠ d) (hpath : Relation.TransGen (fun a b => E a b ∧ b ≠ d) x w) : ¬ (A x ∨ P x) := by
  -- Such a vertex would lie between the immediate dominator and `w` in the dominator tree.
  have hlast : ∀ {y}, Reachable E r y → y ≠ d →
      Relation.TransGen (fun a b => E a b ∧ b ≠ d) y w → ¬ StrictlyDominates E r y w := by
    intro y hy hyd hyw hdom
    have hback := h.strict.1.of_path hyw.to_reflTransGen
    exact hyd (hback.antisymm (h.closest y hdom) hy).symm
  have hdom : ∀ z, A z ∨ P z → Dominates E r z x → StrictlyDominates E r z w := by
    clear hne
    induction hpath using Relation.TransGen.head_induction_on with
    | single he =>
      intro z hz hzx
      by_contra hnot
      exact hw (hfront hz ⟨⟨_,hx,he.1,hzx⟩,hnot⟩)
    | @head x y he hyw ih =>
      intro z hz hzx
      obtain ⟨l,hl⟩ := id hx
      have hy : Reachable E r y := ⟨_,.step hl he.1⟩
      by_cases hzy : StrictlyDominates E r z y
      · exact ih hy z hz hzy.1
      · have hPy : P y := hfront hz ⟨⟨x,hx,he.1,hzx⟩,hzy⟩
        exact absurd (ih hy y (.inr hPy) (.refl y)) (hlast hy he.2 hyw)
  exact fun hA => hlast hx hne hpath (hdom x hA (.refl x))

section Renaming
variable {U : Type*} {F : U → U → Prop} {r' u : U} {f : V → U} {a b : V}

/-- `f` renames the reachable part of `E`. -/
structure Renaming (E : V → V → Prop) (r : V) (F : U → U → Prop) (r' : U) (f : V → U) : Prop where
  root : f r = r'
  edge : ∀ {v w}, E v w → F (f v) (f w)
  lift : ∀ {v u}, Reachable E r v → F (f v) u → ∃ w, E v w ∧ f w = u
  injective : ∀ {v w}, Reachable E r v → Reachable E r w → f v = f w → v = w

variable (hf : Renaming E r F r' f)

include hf

lemma Renaming.path (h : PathTo E r l v) : PathTo F r' (l.map f) (f v) := by
  induction h with
  | root =>
    rw [map_singleton,hf.root]
    exact .root
  | step _ he ih => exact .step ih (hf.edge he)

lemma Renaming.path_lift {l' : List U} (h : PathTo F r' l' u) :
    ∃ l v, PathTo E r l v ∧ f v = u ∧ l' = l.map f := by
  induction h with
  | root => exact ⟨[r],r,.root,hf.root,by rw [map_singleton,hf.root]⟩
  | step _ he ih =>
    obtain ⟨l,v,hl,rfl,rfl⟩ := ih
    obtain ⟨w,hvw,rfl⟩ := hf.lift ⟨l,hl⟩ he
    exact ⟨w :: l,w,.step hl hvw,rfl,rfl⟩

lemma Renaming.reachable (h : Reachable E r v) : Reachable F r' (f v) := by
  obtain ⟨l,hl⟩ := h
  exact ⟨_,hf.path hl⟩

lemma Renaming.reachable_lift (h : Reachable F r' u) : ∃ v, Reachable E r v ∧ f v = u := by
  obtain ⟨l',hl'⟩ := h
  obtain ⟨l,v,hl,rfl, -⟩ := hf.path_lift hl'
  exact ⟨v,⟨l,hl⟩,rfl⟩

variable (ha : Reachable E r a) (hb : Reachable E r b)
include ha hb

lemma Renaming.dominates_iff : Dominates F r' (f a) (f b) ↔ Dominates E r a b := by
  constructor
  · intro h l hl
    obtain ⟨x,hx,heq⟩ := mem_map.1 (h _ (hf.path hl))
    obtain ⟨l',hl', -⟩ := hl.exists_of_mem hx
    rwa [← hf.injective ⟨l',hl'⟩ ha heq]
  · intro h l' hl'
    obtain ⟨l,v,hl,heq,rfl⟩ := hf.path_lift hl'
    obtain rfl := hf.injective ⟨l,hl⟩ hb heq
    exact mem_map_of_mem (h l hl)

lemma Renaming.strictlyDominates_iff :
    StrictlyDominates F r' (f a) (f b) ↔ StrictlyDominates E r a b :=
  and_congr (hf.dominates_iff ha hb)
    (not_congr ⟨hf.injective ha hb,congrArg f⟩)

lemma Renaming.isImmediateDominator
    (h : IsImmediateDominator E r a b) : IsImmediateDominator F r' (f a) (f b) := by
  refine ⟨(hf.strictlyDominates_iff ha hb).2 h.strict,fun x hx => ?_⟩
  obtain ⟨l,hl⟩ := hf.reachable hb
  obtain ⟨l',hl', -⟩ := hl.exists_of_mem (hx.1 l hl)
  obtain ⟨y,hy,rfl⟩ := hf.reachable_lift ⟨l',hl'⟩
  exact (hf.dominates_iff hy ha).2 (h.closest y ((hf.strictlyDominates_iff hy hb).1 hx))

lemma Renaming.inFrontier_iff : InFrontier F r' (f a) (f b) ↔ InFrontier E r a b := by
  refine and_congr ⟨?_,?_⟩ (not_congr (hf.strictlyDominates_iff ha hb))
  · rintro ⟨u,hu,he,hdom⟩
    obtain ⟨v,hv,rfl⟩ := hf.reachable_lift hu
    obtain ⟨w,hvw,heq⟩ := hf.lift hv he
    obtain ⟨l,hl⟩ := hv
    obtain rfl := hf.injective ⟨_,.step hl hvw⟩ hb heq
    exact ⟨v,⟨l,hl⟩,hvw,(hf.dominates_iff ha ⟨l,hl⟩).1 hdom⟩
  · rintro ⟨v,hv,he,hdom⟩
    exact ⟨f v,hf.reachable hv,hf.edge he,(hf.dominates_iff ha hv).2 hdom⟩

end Renaming

end DartSdk.Dominance
