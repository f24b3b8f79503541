import DartSdk.Iteration

/-! `SourceEdit` and `SourceFileEdit.add` of `analysis_server/lib/src/protocol.dart`. Text is a list
of code units. The documentation says that an edit replaces a region of the original code; here it
is proved when edits that are applied one after the other do. -/
namespace DartSdk.AnalysisServer

structure SourceEdit where
  offset : ℤ
  length : ℤ
  replacement : List ℕ

namespace SourceEdit

/-- The two checks that throw a `RangeError`, of the length and of the range. -/
inductive Failure
  | length
  | range

/-- `end`. -/
def stop (e : SourceEdit) : ℤ := e.offset+e.length

variable (code : List ℕ)

/-- `_applyEdit`. -/
def apply (e : SourceEdit) : Except Failure (List ℕ) :=
  if e.length < 0 then .error .length
  else if 0 ≤ e.offset ∧ e.stop ≤ code.length then
    .ok (code.take e.offset.toNat ++ e.replacement ++ code.drop e.stop.toNat)
  else .error .range

variable (edits : List SourceEdit)

def applySequence : Except Failure (List ℕ) :=
  edits.foldlM apply code

/-- `_addEditForSource`. -/
def add (e : SourceEdit) : List SourceEdit → List SourceEdit
  | [] => [e]
  | x :: xs => if x.offset > e.offset then x :: e.add xs else e :: x :: xs

/-- `_addAllEditsForSource` on a new `SourceFileEdit`. -/
def addAll : List SourceEdit := edits.foldl (fun l e => e.add l) []

variable (a b : SourceEdit)

/-- The order of the regions from left to right, an insertion before a region at its offset. -/
def LeftOf : Prop := toLex (a.offset,a.length) ≤ toLex (b.offset,b.length)

instance : DecidableRel LeftOf := fun _ _ => inferInstanceAs (Decidable (_ ≤ _))

/-- The code from `p` on, with the regions of the edits replaced. -/
def replaceFrom (code : List ℕ) : ℕ → List SourceEdit → List ℕ
  | p, [] => code.drop p
  | p, e :: es => (code.drop p).take (e.offset.toNat-p) ++ e.replacement ++
      replaceFrom code e.stop.toNat es

/-- All regions of the code are replaced at once. -/
def simultaneous : List ℕ :=
  replaceFrom code 0 (edits.insertionSort LeftOf)

def Inside (e : SourceEdit) : Prop :=
  0 ≤ e.offset ∧ 0 ≤ e.length ∧ e.stop ≤ code.length

/-- The region of `a` ends where that of `b` starts or before; they are not two insertions at the
same offset. -/
def Precedes : Prop := a.stop ≤ b.offset ∧ (a.offset < b.offset ∨ 0 < b.length)

def Disjoint : Prop := a.Precedes b ∨ b.Precedes a

/-- If `b` is an insertion at the start of the region of `a`, then it makes no difference that the
inserted text is there when `a` is applied. -/
def Commutes : Prop :=
  a.offset = b.offset → 0 < a.length → b.length = 0 →
    b.replacement ++ a.replacement = a.replacement ++
      (b.replacement ++ (code.drop a.offset.toNat).take a.length.toNat).drop a.length.toNat

open List Outcome
open Int (toNat_natCast eq_ofNat_of_zero_le)

variable {code x y z : List ℕ} {a b e : SourceEdit} {l edits : List SourceEdit} {p : ℕ}

lemma apply_append (ho : e.offset = x.length) (hl : e.length = y.length) :
    apply (x ++ y ++ z) e = .ok (x ++ e.replacement ++ z) := by
  have hs : e.stop = (x ++ y).length := by simp [stop,ho,hl]
  rw [apply,if_neg (by omega),if_pos ⟨by omega,by simp [hs]⟩,hs,ho,toNat_natCast,
    toNat_natCast,drop_left]
  simp

/-- A region is replaced after an insertion at its start. -/
lemma apply_insertion (hb : b.offset = x.length) (hb0 : b.length = 0) (ho : e.offset = x.length)
    (hl : e.length = y.length) : (apply (x ++ y ++ z) b >>= fun t => apply t e) =
      .ok (x ++ e.replacement ++ ((b.replacement ++ y).drop y.length ++ z)) := by
  have hsplit : x ++ b.replacement ++ (y ++ z) = x ++ (b.replacement ++ y).take y.length ++
      ((b.replacement ++ y).drop y.length ++ z) := by
    simp only [append_assoc]
    rw [← append_assoc (take _ _),take_append_drop,append_assoc]
  have hinsert := apply_append (y := []) (z := y ++ z) hb hb0
  rw [append_nil,← append_assoc] at hinsert
  rw [hinsert,ok_bind,hsplit]
  exact apply_append ho (by simp [hl])

lemma add_perm (e : SourceEdit) (l : List SourceEdit) : (e.add l).Perm (e :: l) := by
  induction l with
  | nil => exact .refl _
  | cons x l ih =>
    unfold add
    split_ifs
    · exact (ih.cons x).trans (.swap e x l)
    · exact .refl _

lemma addAll_perm (edits : List SourceEdit) : (addAll edits).Perm edits := by
  induction edits using reverseRecOn with
  | nil => exact .refl _
  | append_singleton l e ih =>
    rw [addAll,foldl_append]
    exact (add_perm e _).trans ((ih.cons e).trans (perm_append_singleton e l).symm)

/-- A relation between edits at one offset holds of the list if and only if it holds in the order
of the additions. -/
lemma pairwise_add {R : SourceEdit → SourceEdit → Prop} (hR : ∀ a b, a.offset ≠ b.offset → R a b)
    (hl : l.Pairwise fun a b => b.offset ≤ a.offset) :
    (e.add l).Pairwise (fun a b => b.offset ≤ a.offset) ∧
      ((e.add l).Pairwise (flip R) ↔ (∀ b ∈ l, R b e) ∧ l.Pairwise (flip R)) := by
  induction l with
  | nil => simp [add]
  | cons x l ih =>
    rw [pairwise_cons] at hl
    obtain ⟨hsort,hflip⟩ := ih hl.2
    have hmem : ∀ y, y ∈ e.add l ↔ y = e ∨ y ∈ l := fun y => by simp [(add_perm e l).mem_iff]
    unfold add
    split_ifs with h
    · have hx : flip R x e ∧ R x e := ⟨hR e x (by omega),hR x e (by omega)⟩
      simp only [pairwise_cons,hmem,forall_mem_cons,forall_eq_or_imp]
      exact ⟨⟨⟨by omega,hl.1⟩,hsort⟩,by tauto⟩
    · have hle : ∀ y ∈ x :: l, y.offset ≤ e.offset := by
        refine forall_mem_cons.2 ⟨by omega,fun y hy => ?_⟩
        have := hl.1 y hy
        omega
      exact ⟨pairwise_cons.2 ⟨hle,pairwise_cons.2 hl⟩,pairwise_cons⟩

lemma pairwise_addAll {R : SourceEdit → SourceEdit → Prop} (hR : ∀ a b, a.offset ≠ b.offset → R a b)
    (edits : List SourceEdit) : (addAll edits).reverse.Pairwise (fun a b => a.offset ≤ b.offset) ∧
      ((addAll edits).reverse.Pairwise R ↔ edits.Pairwise R) := by
  rw [pairwise_reverse,pairwise_reverse]
  induction edits using reverseRecOn with
  | nil => simp [addAll]
  | append_singleton l e ih =>
    obtain ⟨hsort,hflip⟩ := pairwise_add hR ih.1
    have hadd : addAll (l ++ [e]) = e.add (addAll l) := by simp [addAll]
    rw [hadd]
    refine ⟨hsort,hflip.trans ?_⟩
    rw [pairwise_append,show (addAll l).Pairwise (flip R) ↔ l.Pairwise R from ih.2]
    simp [(addAll_perm l).mem_iff,and_comm]

lemma Precedes.asymm (ha : 0 ≤ a.length) (hb : 0 ≤ b.length) (h : a.Precedes b) :
    ¬ b.Precedes a := by
  simp only [Precedes,stop] at h ⊢
  omega

lemma Precedes.commutes (h : a.Precedes b) : Commutes code a b := by
  intro ho hl
  have := h.1
  rw [stop] at this
  omega

lemma perm_cons_of_precedes {s : List SourceEdit} (he : ∀ b ∈ l, e.Precedes b)
    (hin : ∀ a ∈ e :: l, 0 ≤ a.length) (hs : s.Perm (e :: l)) (hp : s.Pairwise Precedes) :
    ∃ s', s = e :: s' ∧ s'.Perm l := by
  cases s with
  | nil => exact absurd hs.nil_eq (by simp)
  | cons c s' =>
    have hc : c = e := by
      by_contra hne
      have hcl : c ∈ l := (mem_cons.1 (hs.subset mem_cons_self)).resolve_left hne
      have hes : e ∈ s' :=
        (mem_cons.1 (hs.symm.subset mem_cons_self)).resolve_left (Ne.symm hne)
      exact (he c hcl).asymm (hin e mem_cons_self) (hin c (mem_cons_of_mem e hcl))
        ((pairwise_cons.1 hp).1 e hes)
    subst hc
    exact ⟨s',rfl,hs.cons_inv⟩

/-- The first edit precedes the others, or the next one is an insertion at its start. -/
lemma precedes_or_insertion (hsort : (e :: l).Pairwise fun a b => a.offset ≤ b.offset)
    (hd : (e :: l).Pairwise Disjoint) (hin : ∀ a ∈ e :: l, 0 ≤ a.length) :
    (∀ b ∈ l, e.Precedes b) ∨ ∃ b l', l = b :: l' ∧ b.offset = e.offset ∧ b.length = 0 ∧
      0 < e.length ∧ (∀ c ∈ l', e.Precedes c) ∧ ∀ c ∈ e :: l', b.Precedes c := by
  by_cases h : ∀ b ∈ l, e.Precedes b
  · exact .inl h
  push Not at h
  obtain ⟨b,hb,hnot⟩ := h
  have hbe := (rel_of_pairwise_cons hd hb).resolve_left hnot
  have hb0 := hin b (mem_cons_of_mem e hb)
  cases l with
  | nil => simp at hb
  | cons c l' =>
    simp only [pairwise_cons,forall_mem_cons,Disjoint,Precedes,stop] at hsort hd hin hbe
    -- An edit at the offset of `e` is an insertion, and there is one insertion at an offset.
    have hbc : b = c := by
      refine (mem_cons.1 hb).resolve_right fun hbl => ?_
      have := hsort.2.1 b hbl
      have := hd.2.1 b hbl
      omega
    subst hbc
    have hrest : ∀ d ∈ l', e.Precedes d := by
      intro d hdl
      have := hd.1.2 d hdl
      have := hd.2.1 d hdl
      have := hsort.1.2 d hdl
      have := hin.2.2 d hdl
      simp only [Precedes,stop]
      omega
    refine .inr ⟨b,l',rfl,by omega,by omega,by omega,hrest,?_⟩
    refine forall_mem_cons.2 ⟨hbe,fun d hdl => ?_⟩
    have := hrest d hdl
    simp only [Precedes,stop] at this ⊢
    omega

lemma applySequence_reverse_cons (e : SourceEdit) (l : List SourceEdit) :
    applySequence code (e :: l).reverse =
      applySequence code l.reverse >>= fun text => apply text e := by
  simp [applySequence]

/-- Edits applied from right to left give a text of the right length. It is the right text if and
only if no insertion comes in the way of the replacement at its offset. -/
lemma applySequence_reverse {s : List SourceEdit} (hpc : p ≤ code.length)
    (hsort : l.Pairwise fun a b => a.offset ≤ b.offset) (hd : l.Pairwise Disjoint)
    (hin : ∀ e ∈ l, Inside code e ∧ p ≤ e.offset) (hs : s.Perm l) (hp : s.Pairwise Precedes) : ∃ x,
      applySequence code l.reverse = .ok (code.take p ++ x) ∧ x.length =
      (replaceFrom code p s).length ∧ (x = replaceFrom code p s ↔ l.Pairwise (Commutes code)) := by
  induction hn : l.length using Nat.strong_induction_on generalizing l s p with
  | _ n ih =>
  cases l with
  | nil =>
    obtain rfl := hs.eq_nil
    exact ⟨code.drop p,by simp [applySequence]; rfl,rfl,by simp [replaceFrom]⟩
  | cons e l =>
    obtain ⟨⟨ho,hl,hstop⟩,hpe⟩ := hin e mem_cons_self
    obtain ⟨o,ho⟩ := eq_ofNat_of_zero_le ho
    obtain ⟨k,hl⟩ := eq_ofNat_of_zero_le hl
    have hq : e.stop = (o+k : ℕ) := by simp [stop,ho,hl]
    have hlen : ∀ a ∈ e :: l, 0 ≤ a.length := fun a ha => (hin a ha).1.2.1
    have hmid : code.take o = code.take p ++ (code.drop p).take (o-p) := by
      rw [← take_add,Nat.add_sub_cancel' (by omega)]
    have hcut : code.take (o+k) = code.take o ++ (code.drop o).take k := take_add
    have hk : ((code.drop o).take k).length = k := by simp; omega
    have hspec : ∀ p s', replaceFrom code p (e :: s') = (code.drop p).take (o-p) ++
        e.replacement ++ replaceFrom code (o+k) s' := fun p s' => by rw [replaceFrom,ho,hq]; rfl
    rcases precedes_or_insertion hsort hd hlen with hfirst | ⟨b,l',rfl,hbo,hb0,hpos,hrest,hb⟩
    · obtain ⟨s',rfl,hs'⟩ := perm_cons_of_precedes hfirst hlen hs hp
      obtain ⟨x,hrun,hx,hiff⟩ := ih l.length (by simp [← hn]) (p := o+k) (by omega) hsort.of_cons
        hd.of_cons (fun c hc => ⟨(hin c (mem_cons_of_mem e hc)).1,hq ▸ (hfirst c hc).1⟩) hs'
        hp.of_cons rfl
      have hvac : ∀ c ∈ l, Commutes code e c := fun c hc => (hfirst c hc).commutes
      refine ⟨(code.drop p).take (o-p) ++ e.replacement ++ x,?_,by simp [hspec,hx],?_⟩
      · rw [applySequence_reverse_cons,hrun,ok_bind,hcut,
          apply_append (by simp; omega) (by simp; omega)]
        simp [hmid]
      · rw [hspec,append_cancel_left_eq,hiff,pairwise_cons,and_iff_right hvac]
    · obtain ⟨s₁,rfl,hs₁⟩ := perm_cons_of_precedes hb (by simpa [and_left_comm] using hlen)
        (hs.trans (.swap b e l')) hp
      obtain ⟨s',rfl,hs'⟩ := perm_cons_of_precedes hrest
        (fun a ha => hlen a (by grind)) hs₁ hp.of_cons
      obtain ⟨x,hrun,hx,hiff⟩ := ih l'.length (by simp [← hn]) (p := o+k) (by omega)
        hsort.of_cons.of_cons hd.of_cons.of_cons
        (fun c hc => ⟨(hin c (by simp [hc])).1,hq ▸ (hrest c hc).1⟩) hs'
        hp.of_cons.of_cons rfl
      have hbq : b.stop = o := by rw [stop,hbo,hb0,ho,add_zero]
      have hvac : (∀ c ∈ l', Commutes code e c) ∧ ∀ c ∈ l', Commutes code b c :=
        ⟨fun c hc => (hrest c hc).commutes,fun c _ _ h => absurd h (by omega)⟩
      have hspec' : replaceFrom code p (b :: e :: s') = (code.drop p).take (o-p) ++
          ((b.replacement ++ e.replacement) ++ replaceFrom code (o+k) s') := by
        rw [replaceFrom,hbo,ho,hbq,toNat_natCast,hspec]
        simp
      have hsame : (e.replacement ++ (b.replacement ++ (code.drop o).take k).drop k).length =
          (b.replacement ++ e.replacement).length := by
        simp [hk]
        omega
      refine ⟨(code.drop p).take (o-p) ++ ((e.replacement ++
        (b.replacement ++ (code.drop o).take k).drop k) ++ x),?_,?_,?_⟩
      · rw [applySequence_reverse_cons,applySequence_reverse_cons,hrun,ok_bind,hcut,
          apply_insertion (by simp; omega) hb0 (by simp; omega) (by omega),hk,hmid]
        simp
      · rw [hspec',length_append,length_append,hsame,hx,← length_append,← length_append]
      · have hcommutes : Commutes code e b ↔ e.replacement ++
            (b.replacement ++ (code.drop o).take k).drop k = b.replacement ++ e.replacement := by
          have hk0 : 0 < k := by omega
          simp [Commutes,hbo,hb0,ho,hl,hk0,eq_comm]
        rw [hspec',pairwise_cons,pairwise_cons,← hiff,forall_mem_cons,hcommutes,
          and_iff_left hvac.1,and_iff_right hvac.2,append_cancel_left_eq]
        exact ⟨fun h => append_inj h hsame,fun h => by rw [h.1,h.2]⟩

lemma LeftOf.precedes (h : a.LeftOf b) (hd : a.Disjoint b) (hb : 0 ≤ b.length) : a.Precedes b := by
  rw [LeftOf,Prod.Lex.toLex_le_toLex] at h
  simp only [Disjoint,Precedes,stop] at hd ⊢
  omega

instance : Std.Total LeftOf := ⟨fun _ _ => le_total (α := ℤ ×ₗ ℤ) _ _⟩

instance : IsTrans SourceEdit LeftOf := ⟨fun _ _ _ => le_trans (α := ℤ ×ₗ ℤ)⟩

theorem edits_simultaneous_iff (hin : ∀ e ∈ edits, Inside code e) (hd : edits.Pairwise Disjoint) :
    applySequence code (addAll edits) = .ok (simultaneous code edits) ↔
      edits.Pairwise (Commutes code) := by
  have hperm := (reverse_perm _).trans (addAll_perm edits)
  have hsorted := perm_insertionSort LeftOf edits
  have hp : (edits.insertionSort LeftOf).Pairwise Precedes := by
    refine ((pairwise_insertionSort LeftOf edits).and (hsorted.symm.pairwise hd Or.symm)).imp_of_mem ?_
    intro a b _ hb h
    exact h.1.precedes h.2 (hin b (hsorted.subset hb)).2.1
  obtain ⟨hsort,hiff⟩ := pairwise_addAll (R := Commutes code) (fun a b h h' => absurd h' h) edits
  obtain ⟨x,hrun, -,hx⟩ := applySequence_reverse (Nat.zero_le _) hsort
    (hperm.symm.pairwise hd Or.symm)
    (fun e he => ⟨hin e (hperm.subset he),by simpa using (hin e (hperm.subset he)).1⟩)
    (hsorted.trans hperm.symm) hp
  rw [reverse_reverse] at hrun
  rw [hrun,← hiff,← hx,simultaneous]
  simp

/-- The insertion at the start of the region was added first. -/
theorem edits_simultaneous_insertion_first :
    applySequence [97,98] (addAll [⟨0,0,[73]⟩,⟨0,1,[88]⟩]) = .ok [73,88,98] :=
  (edits_simultaneous_iff (by simp [Inside,stop]) (by simp [Disjoint,Precedes,stop])).2
    (by simp [Commutes])

/-- The insertion was added last; the replacement then removes the inserted text. -/
theorem insertion_replaced : ∃ code edits, (∀ e ∈ edits, Inside code e) ∧ edits.Pairwise Disjoint ∧
    applySequence code (addAll edits) = .ok [88,97,98] ∧ simultaneous code edits = [73,88,98] :=
  ⟨[97,98],[⟨0,1,[88]⟩,⟨0,0,[73]⟩],by simp [Inside,stop],by simp [Disjoint,Precedes,stop],rfl,rfl⟩

end SourceEdit
end DartSdk.AnalysisServer
