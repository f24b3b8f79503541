import DartSdk.FreeList

/-! `Wf` says that every element is in the list for its size and that the bit set and the largest
small size describe the small lists. The free memory is a multiset of addresses. -/
namespace DartSdk.FreeList

open List Option
open Function (update update_of_ne update_self)

variable {fl : FreeList} {es : List Element} {e : Element} {index : ℕ} {size : ℕ}

lemma indexForSize_eq_some {size index : ℕ} : indexForSize size = some index ↔
    16 ≤ size ∧ 16 ∣ size ∧ (size = 16*index ∧ index < 128 ∨ 2048 ≤ size ∧ index = 128) := by
  have hdiv : size >>> kObjectAlignmentLog2 = size/16 := Nat.shiftRight_eq_div_pow size 4
  unfold indexForSize kObjectAlignment kNumLists
  simp only
  split_ifs with h1 h2
  · rw [some.injEq]
    omega
  · rw [some.injEq]
    omega
  · simp only [false_iff]
    omega

lemma indexForSize_isSome (h1 : 16 ≤ size) (h2 : 16 ∣ size) :
    ∃ index ≤ 128, indexForSize size = some index := by
  rcases lt_or_ge size 2048 with h | h
  · exact ⟨size/16,by omega,indexForSize_eq_some.2 ⟨h1,h2,by omega⟩⟩
  · exact ⟨128,le_rfl,indexForSize_eq_some.2 ⟨h1,h2,by omega⟩⟩

/-- The addresses of a block. -/
def block (addr size : ℕ) : Multiset ℕ := Multiset.Ico addr (addr+size)

lemma block_split (addr : ℕ) {m n : ℕ} (h : m ≤ n) :
    block addr n = block addr m+block (addr+m) (n-m) := by
  unfold block
  rw [show addr+m+(n-m) = addr+n by omega]
  exact (Multiset.Ico_add_Ico_eq_Ico (by omega) (by omega)).symm

/-- All elements, in whatever list. -/
@[irreducible]
def elements (fl : FreeList) : Multiset Element :=
  ∑ i ∈ Finset.range 129, (fl.freeLists i : Multiset Element)

def memory (fl : FreeList) : Multiset ℕ := (elements fl).bind fun e => block e.addr e.size

/-- `last` is the largest small size with property `P`, or negative if there is none. -/
def IsLargest (last : ℤ) (P : ℕ → Prop) : Prop :=
  (last < 0 ∧ ∀ i < 128, ¬ P i) ∨
    ∃ i < 128, last = (16*i : ℕ) ∧ P i ∧ ∀ j < 128, P j → j ≤ i

section IsLargest
variable {last : ℤ} {P Q : ℕ → Prop} {index : ℕ}

variable (h : IsLargest last P)
include h

lemma IsLargest.congr (hPQ : ∀ i < 128, Q i ↔ P i) : IsLargest last Q := by
  rcases h with ⟨h1,h2⟩ | ⟨i,hi,h1,h2,h3⟩
  · exact Or.inl ⟨h1,fun i hi hq => h2 i hi ((hPQ i hi).1 hq)⟩
  · exact Or.inr ⟨i,hi,h1,(hPQ i hi).2 h2,fun j hj hq => h3 j hj ((hPQ j hj).1 hq)⟩

lemma IsLargest.insert (hi : index < 128)
    (hQ : ∀ i < 128, Q i ↔ i = index ∨ P i) : IsLargest (max last (16*index : ℕ)) Q := by
  right
  rcases h with ⟨h1,h2⟩ | ⟨i,hil,h1,h2,h3⟩
  · refine ⟨index,hi,by omega,(hQ index hi).2 (Or.inl rfl),fun j hj hq => ?_⟩
    rcases (hQ j hj).1 hq with rfl | hp
    · exact le_rfl
    · exact absurd hp (h2 j hj)
  · rcases le_or_gt index i with hle | hgt
    · refine ⟨i,hil,by omega,(hQ i hil).2 (Or.inr h2),fun j hj hq => ?_⟩
      rcases (hQ j hj).1 hq with rfl | hp
      · exact hle
      · exact h3 j hj hp
    · refine ⟨index,hi,by omega,(hQ index hi).2 (Or.inl rfl),fun j hj hq => ?_⟩
      rcases (hQ j hj).1 hq with rfl | hp
      · exact le_rfl
      · exact (h3 j hj hp).trans hgt.le

lemma IsLargest.erase (hne : (16*index : ℕ) ≠ last)
    (hQ : ∀ i < 128, Q i ↔ i ≠ index ∧ P i) : IsLargest last Q := by
  rcases h with ⟨h1,h2⟩ | ⟨i,hil,h1,h2,h3⟩
  · exact Or.inl ⟨h1,fun i hi hq => h2 i hi ((hQ i hi).1 hq).2⟩
  · refine Or.inr ⟨i,hil,h1,(hQ i hil).2 ⟨?_,h2⟩,fun j hj hq => h3 j hj ((hQ j hj).1 hq).2⟩
    rintro rfl
    exact hne h1.symm

omit h

lemma IsLargest.of_isLast {s : BitSet kNumLists} {r : Option ℕ} (hr : BitSet.IsLast s 128 r)
    (hP : ∀ i < 128, s.test i = true ↔ P i) :
    IsLargest ((r.map Int.ofNat).getD (-1)*kObjectAlignment) P := by
  cases r with
  | none =>
    refine Or.inl ⟨by simp [kObjectAlignment],fun i hi hp => ?_⟩
    have := hr i hi
    simp [(hP i hi).2 hp] at this
  | some i =>
    obtain ⟨hi,ht,hmax⟩ := hr
    refine Or.inr ⟨i,hi,?_,(hP i hi).1 ht,fun j hj hp => ?_⟩
    · simp [kObjectAlignment]
      omega
    · by_contra hlt
      have := hmax j (by omega) hj
      simp [(hP j hj).2 hp] at this

end IsLargest

structure Wf (fl : FreeList) : Prop where
  index : ∀ i ≤ 128, ∀ e ∈ fl.freeLists i, indexForSize e.size = some i
  map : ∀ i < 128, fl.freeMap.test i = true ↔ fl.freeLists i ≠ []
  last : IsLargest fl.lastFreeSmallSize fun i => fl.freeLists i ≠ []

lemma mem_elements : e ∈ elements fl ↔ ∃ i ≤ 128, e ∈ fl.freeLists i := by
  unfold elements
  simp only [Multiset.mem_sum,Finset.mem_range,Multiset.mem_coe,Nat.lt_succ_iff]

lemma elements_update {fl fl' : FreeList} (hi : index ≤ 128)
    (h : fl'.freeLists = update fl.freeLists index es) :
    elements fl'+(fl.freeLists index : Multiset Element) = elements fl+(es : Multiset Element) := by
  have hmem : index ∈ Finset.range 129 := by simpa using by omega
  unfold elements
  rw [← Finset.add_sum_erase _ _ hmem,← Finset.add_sum_erase _ _ hmem,h,update_self]
  have hsum : ∑ i ∈ (Finset.range 129).erase index,
      (update fl.freeLists index es i : Multiset Element) =
      ∑ i ∈ (Finset.range 129).erase index, (fl.freeLists i : Multiset Element) := by
    refine Finset.sum_congr rfl fun i hi => ?_
    rw [update_of_ne (Finset.ne_of_mem_erase hi)]
  rw [hsum]
  abel

lemma freeMap_length (fl : FreeList) : fl.freeMap.data.length = 2 := fl.freeMap.length_eq

lemma Wf.index_update (hw : Wf fl) (hes : ∀ e ∈ es, indexForSize e.size = some index) (i : ℕ)
    (hi : i ≤ 128) : ∀ e ∈ update fl.freeLists index es i, indexForSize e.size = some i := by
  intro e he
  by_cases h : i = index
  · subst h
    rw [update_self] at he
    exact hes e he
  · rw [update_of_ne h] at he
    exact hw.index i hi e he

lemma Wf.replace {fl fl' : FreeList} (hw : Wf fl)
    (hlists : fl'.freeLists = update fl.freeLists index es)
    (hes : ∀ e ∈ es, indexForSize e.size = some index)
    (hmap : ∀ i < 128, fl'.freeMap.test i = if i = index then decide (es ≠ []) else fl.freeMap.test i)
    (hlast : IsLargest fl'.lastFreeSmallSize fun i => fl'.freeLists i ≠ []) : Wf fl' := by
  refine ⟨hlists ▸ hw.index_update hes,fun i hi => ?_,hlast⟩
  rw [hmap i hi,hlists]
  by_cases h : i = index
  · subst h
    simp
  · rw [if_neg h,update_of_ne h]
    exact hw.map i hi

lemma update_ne_nil {fl fl' : FreeList} (hlists : fl'.freeLists = update fl.freeLists index es)
    (i : ℕ) : fl'.freeLists i ≠ [] ↔ if i = index then es ≠ [] else fl.freeLists i ≠ [] := by
  rw [hlists,Function.update_apply]
  split_ifs <;> rfl

/-- A change that leaves list `index` empty or non-empty as it was does not concern the
summaries. -/
lemma Wf.setList (hw : Wf fl) (hes : ∀ e ∈ es, indexForSize e.size = some index)
    (hsame : index < 128 → (es = [] ↔ fl.freeLists index = [])) : Wf (fl.setList index es) := by
  have hlists : (fl.setList index es).freeLists = update fl.freeLists index es := rfl
  refine hw.replace hlists hes (fun i hi => ?_) (hw.last.congr fun i hi => ?_)
  · split_ifs with h
    · subst h
      rw [Bool.eq_iff_iff,decide_eq_true_iff,Ne,hsame hi]
      exact hw.map i hi
    · rfl
  · rw [update_ne_nil hlists]
    split_ifs with h
    · subst h
      exact not_congr (hsame hi)
    · rfl

lemma shiftLeft_eq (index : ℕ) : index <<< kObjectAlignmentLog2 = 16*index := by
  rw [Nat.shiftLeft_eq]
  exact Nat.mul_comm _ _

lemma enqueueElement_spec (hw : Wf fl) (he : indexForSize e.size = some index) :
    Wf (fl.enqueueElement e index) ∧ elements (fl.enqueueElement e index) = e ::ₘ elements fl := by
  have hle : index ≤ 128 := by
    rcases (indexForSize_eq_some.1 he).2.2 with h | h <;> omega
  have hlists : (fl.enqueueElement e index).freeLists =
      update fl.freeLists index (e :: fl.freeLists index) := by
    unfold enqueueElement
    simp only
    split_ifs <;> rfl
  have hes : ∀ e' ∈ e :: fl.freeLists index, indexForSize e'.size = some index := by
    intro e' he'
    rcases mem_cons.1 he' with rfl | he'
    · exact he
    · exact hw.index index hle e' he'
  constructor
  · by_cases hnew : fl.freeLists index = [] ∧ index ≠ 128
    · have henq : fl.enqueueElement e index = { fl with
          freeMap := fl.freeMap.set index true
          lastFreeSmallSize := max fl.lastFreeSmallSize (16*index : ℕ)
          freeLists := update fl.freeLists index (e :: fl.freeLists index) } := by
        simp [enqueueElement,kNumLists,hnew,FreeList.setList,shiftLeft_eq]
      refine hw.replace hlists hes (fun i hi => ?_) ?_
      · rw [henq]
        simpa using BitSet.set_test (by rw [freeMap_length]; omega) true i
      · rw [henq]
        refine hw.last.insert (by omega) fun i hi => ?_
        rw [← henq,update_ne_nil hlists]
        split_ifs with h <;> simp [h]
    · have henq : fl.enqueueElement e index = fl.setList index (e :: fl.freeLists index) := by
        exact congrArg (fun fl' : FreeList => fl'.setList index (e :: fl.freeLists index)) (if_neg hnew)
      rw [henq]
      refine hw.setList hes fun hi => ?_
      have : fl.freeLists index ≠ [] := fun h => hnew ⟨h,by omega⟩
      simp [this]
  · have := elements_update hle hlists
    rw [← Multiset.cons_coe,Multiset.add_cons,← Multiset.cons_add] at this
    exact add_right_cancel this

lemma emptyList_spec (hw : Wf fl) (hi : index < 128) (hne : fl.freeLists index ≠ []) :
    ∃ fl', fl.emptyList index = some fl' ∧ fl'.freeLists = fl.freeLists ∧
      (∀ i < 128, fl'.freeMap.test i = if i = index then false else fl.freeMap.test i) ∧
      IsLargest fl'.lastFreeSmallSize fun i => i ≠ index ∧ fl.freeLists i ≠ [] := by
  have hlen : fl.freeMap.data.length*64 = 128 := by rw [freeMap_length]
  unfold emptyList
  rw [shiftLeft_eq]
  split_ifs with hlast
  · have hmax : ∀ j, index < j → j < fl.freeMap.data.length*64 → fl.freeMap.test j = false := by
      intro j hij hj
      rw [← Bool.not_eq_true,hw.map j (by omega)]
      intro hj'
      rcases hw.last with ⟨hneg, -⟩ | ⟨i, -,h1, -,h3⟩
      · omega
      · have := h3 j (by omega) hj'
        omega
    obtain ⟨t,r,ht, -,htest,hr⟩ := BitSet.clearLastAndFindPrevious_spec
      (by rw [hlen]; exact hi) ((hw.map index hi).2 hne) hmax
    rw [hlen] at hr
    refine ⟨⟨t,fl.freeLists,(r.map Int.ofNat).getD (-1)*kObjectAlignment⟩,by rw [ht]; rfl,rfl,
      fun i _ => htest i,IsLargest.of_isLast hr fun i hi' => ?_⟩
    rw [htest]
    split_ifs with h
    · simp [h]
    · simpa [h] using hw.map i hi'
  · refine ⟨_,rfl,rfl,fun i _ => BitSet.set_test (by rw [freeMap_length]; omega) false i,?_⟩
    exact hw.last.erase hlast fun i _ => Iff.rfl

lemma dequeueElement_spec (hw : Wf fl) (hi : index < 128) (hl : fl.freeLists index = e :: es) :
    ∃ fl', fl.dequeueElement index = some (fl',e) ∧ Wf fl' ∧ elements fl = e ::ₘ elements fl' := by
  have hes : ∀ e' ∈ es, indexForSize e'.size = some index := fun e' he' =>
    hw.index index hi.le e' (hl ▸ mem_cons_of_mem _ he')
  have helems : ∀ fl' : FreeList, fl'.freeLists = update fl.freeLists index es →
      elements fl = e ::ₘ elements fl' := by
    intro fl' hlists
    have := elements_update hi.le hlists
    rw [hl,← Multiset.cons_coe,Multiset.add_cons,← Multiset.cons_add] at this
    exact (add_right_cancel this).symm
  have hdeq : fl.dequeueElement index =
      (if es = [] ∧ index ≠ kNumLists then fl.emptyList index else some fl).bind
        fun fl' => some (fl'.setList index es,e) := by
    unfold dequeueElement
    rw [hl]
    simp only
    split_ifs <;> rfl
  rw [hdeq]
  by_cases hnil : es = [] ∧ index ≠ kNumLists
  · obtain ⟨fl',h1,h2,h3,h4⟩ := emptyList_spec hw hi (by rw [hl]; simp)
    have hlists : (fl'.setList index es).freeLists = update fl.freeLists index es := by
      rw [← h2]
      rfl
    refine ⟨_,by rw [if_pos hnil,h1]; rfl,?_,helems _ hlists⟩
    refine hw.replace hlists hes (fun i hi' => ?_) (h4.congr fun i _ => ?_)
    · rw [decide_eq_false (by simp [hnil.1])]
      exact h3 i hi'
    · rw [update_ne_nil hlists]
      split_ifs with h <;> simp [h,hnil.1]
  · refine ⟨_,by rw [if_neg hnil]; rfl,hw.setList hes fun _ => ?_,helems _ rfl⟩
    have : es ≠ [] := fun h => hnil ⟨h,hi.ne⟩
    simp [this,hl]

lemma memory_cons {fl fl' : FreeList} (h : elements fl = e ::ₘ elements fl') :
    memory fl = block e.addr e.size+memory fl' := by
  unfold memory
  rw [h,Multiset.cons_bind]

lemma splitElementAfterAndEnqueue_spec (hw : Wf fl) (he : 16 ∣ e.size) (hs : 16 ∣ size)
    (hle : size ≤ e.size) : ∃ fl', fl.splitElementAfterAndEnqueue e size = some fl' ∧ Wf fl' ∧
      block e.addr e.size+memory fl = block e.addr size+memory fl' := by
  unfold splitElementAfterAndEnqueue
  split_ifs with heq
  · exact ⟨fl,rfl,hw,by rw [heq]⟩
  · have has : asElement (e.addr+size) (e.size-size) =
        some ⟨e.addr+size,e.size-size⟩ := by
      unfold asElement kObjectAlignment
      exact if_pos (by omega)
    obtain ⟨index, -,hindex⟩ :=
      indexForSize_isSome (show 16 ≤ e.size-size by omega) (by omega)
    obtain ⟨hwf,helems⟩ :=
      enqueueElement_spec (e := ⟨e.addr+size,e.size-size⟩) hw hindex
    refine ⟨_,by rw [has]; simp only [bind_eq_bind,bind_some,hindex]; rfl,hwf,?_⟩
    rw [memory_cons helems,block_split e.addr hle,add_assoc]

lemma takeFirstFit_eq_some {es rest : List Element}
    (h : takeFirstFit size es = some (e,rest)) : size ≤ e.size ∧ es.Perm (e :: rest) := by
  induction es generalizing rest with
  | nil => simp [takeFirstFit] at h
  | cons a es ih =>
    unfold takeFirstFit at h
    split_ifs at h with ha
    · obtain ⟨rfl,rfl⟩ := Prod.mk.inj (some.inj h)
      exact ⟨ha,List.Perm.refl _⟩
    · obtain ⟨⟨e',rest'⟩,h',heq⟩ := map_eq_some_iff.1 h
      obtain ⟨rfl,rfl⟩ := Prod.mk.inj heq
      obtain ⟨hsize,hperm⟩ := ih h'
      exact ⟨hsize,(hperm.cons a).trans (List.Perm.swap _ _ _)⟩

lemma takeFirstFit_eq_none (h : takeFirstFit size es = none) : ∀ e ∈ es, e.size < size := by
  induction es with
  | nil => simp
  | cons a es ih =>
    unfold takeFirstFit at h
    split_ifs at h with ha
    simp only [mem_cons,forall_eq_or_imp]
    exact ⟨by omega,ih (by simpa using h)⟩

variable (hw : Wf fl)
include hw

lemma takeLarge_spec {rest : List Element}
    (h : takeFirstFit size (fl.freeLists 128) = some (e,rest)) : size ≤ e.size ∧ 16 ∣ e.size ∧
      Wf (fl.setList 128 rest) ∧ elements fl = e ::ₘ elements (fl.setList 128 rest) := by
  obtain ⟨hsize,hperm⟩ := takeFirstFit_eq_some h
  have hin : ∀ e' ∈ e :: rest, indexForSize e'.size = some 128 := fun e' he' =>
    hw.index 128 le_rfl e' (hperm.mem_iff.2 he')
  have hlarge := indexForSize_eq_some.1 (hin e mem_cons_self)
  refine ⟨hsize,hlarge.2.1,hw.setList (fun e' he' => hin e' (mem_cons_of_mem _ he'))
    fun h => absurd h (lt_irrefl _),?_⟩
  have : elements (fl.setList 128 rest)+(fl.freeLists 128 : Multiset Element) =
      elements fl+(rest : Multiset Element) := elements_update le_rfl rfl
  rw [Multiset.coe_eq_coe.2 hperm,← Multiset.cons_coe,Multiset.add_cons,
    ← Multiset.cons_add] at this
  exact (add_right_cancel this).symm

/-- The outcome of an allocation: a block that is no longer free, or no change and the reason `P`
for the failure. -/
def Outcome (fl : FreeList) (size : ℕ) (P : Prop) (fl' : FreeList) : Option ℕ → Prop
  | some addr => memory fl = block addr size+memory fl'
  | none => fl' = fl ∧ P

lemma allocateFromSmall_spec {size index : ℕ} (hindex : indexForSize size = some index) :
    ∃ fl' r, fl.allocateFromSmall size index = some (fl',r) ∧ Wf fl' ∧
      Outcome fl size (∀ i < 128, index ≤ i → fl.freeLists i = []) fl' r := by
  obtain ⟨-,hs,hcase⟩ := indexForSize_eq_some.1 hindex
  have hlen : fl.freeMap.data.length*64 = 128 := by rw [freeMap_length]
  have hempty : ∀ i < 128, fl.freeMap.test i = false → fl.freeLists i = [] := fun i hi hf => by
    by_contra hne
    simp [(hw.map i hi).2 hne] at hf
  unfold allocateFromSmall
  by_cases hexact : index ≠ kNumLists ∧ fl.freeMap.test index = true
  · rw [if_pos hexact]
    have hi : index < 128 := by
      have : index ≠ 128 := hexact.1
      omega
    obtain ⟨e,es,hl⟩ := exists_cons_of_ne_nil ((hw.map index hi).1 hexact.2)
    obtain ⟨fl',hdeq,hwf,helems⟩ := dequeueElement_spec hw hi hl
    have hesize : e.size = size := by
      have := indexForSize_eq_some.1 (hw.index index hi.le e (hl ▸ mem_cons_self))
      omega
    exact ⟨fl',some e.addr,by rw [hdeq]; rfl,hwf,hesize ▸ memory_cons helems⟩
  rw [if_neg hexact]
  have hnot : ∀ i < 128, i = index → fl.freeLists i = [] := by
    rintro i hi rfl
    exact hempty i hi (Bool.eq_false_iff.2 fun ht => hexact ⟨hi.ne,ht⟩)
  by_cases hlt : index+1 < kNumLists
  · rw [if_pos hlt]
    have hnext := BitSet.next_spec (by rw [hlen]; exact hlt)
    rw [hlen] at hnext
    cases hr : fl.freeMap.next (index+1) with
    | none =>
      rw [hr] at hnext
      refine ⟨fl,none,rfl,hw,rfl,fun i hi hle => ?_⟩
      rcases eq_or_lt_of_le hle with heq | hgt
      · exact hnot i hi heq.symm
      · exact hempty i hi (hnext i hgt hi)
    | some nextIndex =>
      rw [hr] at hnext
      obtain ⟨hge,hi,ht, -⟩ := hnext
      obtain ⟨e,es,hl⟩ := exists_cons_of_ne_nil ((hw.map nextIndex hi).1 ht)
      obtain ⟨fl',hdeq,hwf,helems⟩ := dequeueElement_spec hw hi hl
      have hesize := indexForSize_eq_some.1 (hw.index nextIndex hi.le e (hl ▸ mem_cons_self))
      obtain ⟨fl'',hsplit,hwf',hmem⟩ :=
        splitElementAfterAndEnqueue_spec hwf hesize.2.1 hs (by omega)
      exact ⟨fl'',some e.addr,by simp [hdeq,hsplit],hwf',(memory_cons helems).trans hmem⟩
  · rw [if_neg hlt]
    have : 127 ≤ index := by
      unfold kNumLists at hlt
      omega
    exact ⟨fl,none,rfl,hw,rfl,fun i hi hle => hnot i hi (by omega)⟩

lemma not_fit_small {size index : ℕ} (hindex : indexForSize size = some index)
    (hnone : ∀ i < 128, index ≤ i → fl.freeLists i = []) :
    ∀ i < 128, ∀ e ∈ fl.freeLists i, e.size < size := by
  intro i hi e he
  have hei := indexForSize_eq_some.1 (hw.index i hi.le e he)
  have hsi := indexForSize_eq_some.1 hindex
  have : i < index := by
    by_contra hle
    rw [hnone i hi (by omega)] at he
    cases he
  omega

lemma tryAllocateLocked_spec (h1 : 16 ≤ size) (h2 : 16 ∣ size) :
    ∃ fl' r, fl.tryAllocateLocked size = some (fl',r) ∧ Wf fl' ∧
      Outcome fl size (∀ e ∈ elements fl, e.size < size) fl' r := by
  obtain ⟨index,hle,hindex⟩ := indexForSize_isSome h1 h2
  obtain ⟨fl',r,hsmall,hwf,hout⟩ := allocateFromSmall_spec hw hindex
  cases r with
  | some addr => exact ⟨fl',some addr,by simp [tryAllocateLocked,hindex,hsmall],hwf,hout⟩
  | none =>
    obtain ⟨rfl,hnone⟩ := hout
    cases hfit : takeFirstFit size (fl'.freeLists 128) with
    | none =>
      refine ⟨fl',none,by simp [tryAllocateLocked,hindex,hsmall,kNumLists,hfit],hwf,rfl,?_⟩
      intro e he
      obtain ⟨i,hi,hei⟩ := mem_elements.1 he
      rcases eq_or_lt_of_le hi with rfl | hlt
      · exact takeFirstFit_eq_none hfit e hei
      · exact not_fit_small hwf hindex hnone i hlt e hei
    | some p =>
      obtain ⟨e,rest⟩ := p
      obtain ⟨hsize,he,hwf',helems⟩ := takeLarge_spec hwf hfit
      obtain ⟨fl'',hsplit,hwf'',hmem⟩ := splitElementAfterAndEnqueue_spec hwf' he h2 hsize
      exact ⟨fl'',some e.addr,
        by simp [tryAllocateLocked,hindex,hsmall,kNumLists,hfit,hsplit],hwf'',
        (memory_cons helems).trans hmem⟩

lemma tryAllocateSmallLocked_spec (h1 : 16 ≤ size) (h2 : 16 ∣ size) :
    ∃ fl' r, fl.tryAllocateSmallLocked size = some (fl',r) ∧ Wf fl' ∧
      Outcome fl size (∀ i < 128, ∀ e ∈ fl.freeLists i, e.size < size) fl' r := by
  obtain ⟨index,hle,hindex⟩ := indexForSize_isSome h1 h2
  unfold tryAllocateSmallLocked
  split_ifs with hlast
  · refine ⟨fl,none,rfl,hw,rfl,not_fit_small hw hindex fun i hi hle => ?_⟩
    by_contra hne
    have hsize := indexForSize_eq_some.1 hindex
    rcases hw.last with ⟨-,hall⟩ | ⟨j,hj,heq, -,hmax⟩
    · exact hall i hi hne
    · have := hmax i hi hne
      omega
  · obtain ⟨fl',r,hsmall,hwf,hout⟩ := allocateFromSmall_spec hw hindex
    refine ⟨fl',r,by simp [hindex,hsmall],hwf,?_⟩
    cases r with
    | some addr => exact hout
    | none => exact ⟨hout.1,not_fit_small hw hindex hout.2⟩

lemma freeLocked_spec (addr : ℕ) (h1 : 16 ≤ size) (h2 : 16 ∣ size) : ∃ fl',
      fl.freeLocked addr size = some fl' ∧ Wf fl' ∧ memory fl' = block addr size+memory fl := by
  obtain ⟨index, -,hindex⟩ := indexForSize_isSome h1 h2
  have has : asElement addr size = some ⟨addr,size⟩ := by
    unfold asElement kObjectAlignment
    exact if_pos (by omega)
  obtain ⟨hwf,helems⟩ := enqueueElement_spec (e := ⟨addr,size⟩) hw hindex
  have hmem := memory_cons helems
  exact ⟨fl.enqueueElement ⟨addr,size⟩ index,by rw [freeLocked,hindex,has]; rfl,hwf,hmem⟩

lemma tryAllocateLargeLocked_spec (minimumSize : ℕ) : Wf (fl.tryAllocateLargeLocked minimumSize).1 ∧
      match (fl.tryAllocateLargeLocked minimumSize).2 with
      | some e => minimumSize ≤ e.size ∧
          memory fl = block e.addr e.size+memory (fl.tryAllocateLargeLocked minimumSize).1
      | none => (fl.tryAllocateLargeLocked minimumSize).1 = fl := by
  unfold tryAllocateLargeLocked kNumLists
  cases hfit : takeFirstFit minimumSize (fl.freeLists 128) with
  | none => exact ⟨hw,rfl⟩
  | some p =>
    obtain ⟨hsize, -,hwf,helems⟩ := takeLarge_spec hw hfit
    exact ⟨hwf,hsize,memory_cons helems⟩

omit hw

lemma reset_wf : Wf reset := by
  refine ⟨fun i _ e he => ?_,fun i _ => ?_,Or.inl ⟨by simp [reset],by simp [reset]⟩⟩
  · cases he
  · simp [reset]

lemma reset_memory : memory reset = 0 := by
  have h : elements reset = 0 := by
    unfold elements
    exact Finset.sum_eq_zero fun i _ => rfl
  rw [memory,h,Multiset.zero_bind]

end DartSdk.FreeList
