import Mathlib

/-! Values that are moved inside of a range of positions, and sortedness of a range. -/
namespace DartSdk.Rearrangement
open List

variable {α : Type*} {f g h : ℤ → α} {l r l' r' i j : ℤ}

/-- `g` has the values of `f`, moved among the positions from `l` to `r`. -/
def Rearranges (l r : ℤ) (f g : ℤ → α) : Prop :=
  ∃ σ : Equiv.Perm ℤ, (∀ i, i < l ∨ r < i → σ i = i) ∧ g = f ∘ σ

namespace Rearranges

lemma refl (l r : ℤ) (f : ℤ → α) : Rearranges l r f f := ⟨1,fun _ _ => rfl,rfl⟩

variable (hfg : Rearranges l r f g)
include hfg

lemma trans (hgh : Rearranges l r g h) : Rearranges l r f h := by
  obtain ⟨σ,hσ,rfl⟩ := hfg
  obtain ⟨τ,hτ,rfl⟩ := hgh
  refine ⟨τ.trans σ,fun i hi => ?_,rfl⟩
  rw [Equiv.trans_apply,hτ i hi,hσ i hi]

lemma mono (hl : l' ≤ l) (hr : r ≤ r') : Rearranges l' r' f g := by
  obtain ⟨σ,hσ,rfl⟩ := hfg
  exact ⟨σ,fun i hi => hσ i (by omega),rfl⟩

omit hfg in
lemma swap (f : ℤ → α) (hi : l ≤ i ∧ i ≤ r) (hj : l ≤ j ∧ j ≤ r) :
    Rearranges l r f (f ∘ Equiv.swap i j) :=
  ⟨Equiv.swap i j,fun k hk => Equiv.swap_apply_of_ne_of_ne (by omega) (by omega),rfl⟩

lemma eq_outside (hi : i < l ∨ r < i) : g i = f i := by
  obtain ⟨σ,hσ,rfl⟩ := hfg
  rw [Function.comp_apply,hσ i hi]

lemma exists_eq (hl : l ≤ i) (hr : i ≤ r) : ∃ j, l ≤ j ∧ j ≤ r ∧ g i = f j := by
  obtain ⟨σ,hσ,rfl⟩ := hfg
  refine ⟨σ i,?_,?_,rfl⟩
  all_goals
    by_contra hout
    have hfix : σ (σ i) = σ i := hσ _ (by omega)
    have := σ.injective hfix
    omega

lemma forall_range {p : α → Prop} (h : ∀ i, l ≤ i → i ≤ r → p (f i)) :
    ∀ i, l ≤ i → i ≤ r → p (g i) := by
  intro i hl hr
  obtain ⟨j,hjl,hjr,hj⟩ := hfg.exists_eq hl hr
  rw [hj]
  exact h j hjl hjr

omit hfg

lemma perm {n : ℕ} (hfg : Rearranges l (l+n-1) f g) :
    ((range n).map fun k : ℕ => g (l+k)).Perm ((range n).map fun k : ℕ => f (l+k)) := by
  obtain ⟨σ,hσ,rfl⟩ := hfg
  have hinj : Function.Injective fun k : ℕ => l+(k : ℤ) := fun a b hab => by
    dsimp only at hab
    omega
  have hpos : ((range n).map fun k : ℕ => σ (l+k)).Perm ((range n).map fun k : ℕ => l+k) := by
    refine (perm_ext_iff_of_nodup ?_ ?_).2 fun x => ?_
    · exact nodup_range.map (σ.injective.comp hinj)
    · exact nodup_range.map hinj
    · have hrange : ∀ y : ℤ, (∃ k < n, l+(k : ℕ) = y) ↔ l ≤ y ∧ y ≤ l+n-1 := fun y =>
        ⟨by rintro ⟨k,hk,rfl⟩; omega,fun hy => ⟨(y-l).toNat,by omega,by omega⟩⟩
      simp only [mem_map,mem_range]
      rw [hrange]
      constructor
      · rintro ⟨k,hk,rfl⟩
        by_contra hout
        have := σ.injective (hσ (σ (l+k)) (by omega))
        omega
      · intro hx
        obtain ⟨k,hk,hkx⟩ := (hrange (σ.symm x)).2 (by
          by_contra hout
          have hfix := hσ (σ.symm x) (by omega)
          rw [Equiv.apply_symm_apply] at hfix
          omega)
        exact ⟨k,hk,by rw [hkx,Equiv.apply_symm_apply]⟩
  have hmap := hpos.map f
  rw [map_map,map_map] at hmap
  exact hmap

end Rearranges

section Sorted
variable (le : α → α → Prop)

/-- The values from `l` to `r` ascend. -/
def SortedOn (l r : ℤ) (f : ℤ → α) : Prop := ∀ i j, l ≤ i → i < j → j ≤ r → le (f i) (f j)

variable {le}

lemma SortedOn.of_le (f : ℤ → α) (h : r ≤ l) : SortedOn le l r f := fun i j hl hij hr => by omega

lemma SortedOn.congr (hs : SortedOn le l r f) (heq : ∀ i, l ≤ i → i ≤ r → g i = f i) :
    SortedOn le l r g := by
  intro i j hl hij hr
  rw [heq i hl (by omega),heq j (by omega) hr]
  exact hs i j hl hij hr

lemma SortedOn.mono (hs : SortedOn le l r f) (hl : l ≤ l') (hr : r' ≤ r) : SortedOn le l' r' f :=
  fun i j hi hij hj => hs i j (hl.trans hi) hij (hj.trans hr)

end Sorted

end DartSdk.Rearrangement
