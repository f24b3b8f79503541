import DartSdk.Iteration

/-! A table of `c` slots holds keyed items. A search for a key starts at the key's home slot and
walks round the table until it meets the item or a free slot; other slots are tombstones. `Layout`
says that no item is cut off from its home by a free slot, `Represents` relates the items to a
partial map. -/
namespace DartSdk.LinearProbing

open List Nat Option
open Function (update update_apply)

/-- Number of steps from `a` forward to `b` on a circle of `c` slots. -/
def ringDist (c a b : ℕ) : ℕ := if a ≤ b then b-a else b+c-a

lemma ringDist_lt {c a b : ℕ} (ha : a < c) (hb : b < c) : ringDist c a b < c := by
  unfold ringDist
  split_ifs <;> omega

lemma add_mod_eq {c a d : ℕ} (ha : a < c) (hd : d ≤ c) :
    (a+d)%c = if a+d < c then a+d else a+d-c := by
  split_ifs with h
  · exact mod_eq_of_lt h
  · rw [mod_eq_sub_mod (by omega),mod_eq_of_lt (by omega)]

lemma add_ringDist_mod {c a b : ℕ} (ha : a < c) (hb : b < c) : (a+ringDist c a b)%c = b := by
  rw [add_mod_eq ha (ringDist_lt ha hb).le]
  unfold ringDist
  split_ifs <;> omega

lemma ringDist_add_mod {c a d : ℕ} (ha : a < c) (hd : d < c) : ringDist c a ((a+d)%c) = d := by
  rw [add_mod_eq ha hd.le]
  unfold ringDist
  split_ifs <;> omega

/-- Walk from slot `i` to the first slot at which `p` holds, for at most `fuel` slots. -/
def search (p : ℕ → Bool) (c : ℕ) : ℕ → ℕ → Option ℕ
  | 0, _ => none
  | fuel+1, i => if p i then some i else search p c fuel ((i+1)%c)

lemma search_eq_some {p : ℕ → Bool} {c d : ℕ} : ∀ {fuel h : ℕ}, h < c → d < fuel → p ((h+d)%c) =
      true → (∀ j < d, p ((h+j)%c) = false) → search p c fuel h = some ((h+d)%c) := by
  induction d with
  | zero =>
    intro fuel h hc hf hs _
    obtain ⟨fuel,rfl⟩ := exists_fuel fuel
    simp only [add_zero,mod_eq_of_lt hc] at hs ⊢
    simp [search,hs]
  | succ d ih =>
    intro fuel h hc hf hs hmin
    obtain ⟨fuel,rfl⟩ := exists_fuel fuel
    have h0 : p h = false := by
      have := hmin 0 (by omega)
      rwa [add_zero,mod_eq_of_lt hc] at this
    have hshift : ∀ j, ((h+1)%c+j)%c = (h+(j+1))%c := by
      intro j
      rw [mod_add_mod]
      congr 1
      omega
    rw [search,h0,← hshift d]
    refine ih (mod_lt _ (by omega)) (by omega) (by rwa [hshift]) ?_
    intro j hj
    rw [hshift]
    exact hmin (j+1) (by omega)

/-- If some slot stops the search, one round finds the first such slot. -/
lemma search_first {p : ℕ → Bool} {c h : ℕ} (hh : h < c) (hex : ∃ i < c, p i = true) : ∃ d < c,
      search p c c h = some ((h+d)%c) ∧ p ((h+d)%c) = true ∧ ∀ j < d, p ((h+j)%c) = false := by
  obtain ⟨i,hi,hs⟩ := hex
  have hex : ∃ d, p ((h+d)%c) = true := ⟨ringDist c h i,by rwa [add_ringDist_mod hh hi]⟩
  have hle : Nat.find hex ≤ ringDist c h i := Nat.find_min' hex (by rwa [add_ringDist_mod hh hi])
  have hlt : Nat.find hex < c := lt_of_le_of_lt hle (ringDist_lt hh hi)
  have hmin : ∀ j < Nat.find hex, p ((h+j)%c) = false := fun j hj => by
    simpa using Nat.find_min hex hj
  exact ⟨_,hlt,search_eq_some hh hlt (Nat.find_spec hex) hmin,Nat.find_spec hex,hmin⟩

section Count
variable {c i : ℕ} {p q : ℕ → Bool}

def countSlots (c : ℕ) (p : ℕ → Bool) : ℕ := ((Finset.range c).filter (p · = true)).card

lemma countSlots_congr (h : ∀ j < c, p j = q j) : countSlots c p = countSlots c q := by
  unfold countSlots
  congr 1
  exact Finset.filter_congr fun j hj => by rw [h j (Finset.mem_range.1 hj)]

lemma countSlots_false (h : ∀ j < c, p j = false) : countSlots c p = 0 := by
  rw [countSlots_congr h]
  simp [countSlots]

lemma countSlots_insert (hi : i < c) (hp : p i = false) (hq : q i = true)
    (h : ∀ j < c, j ≠ i → q j = p j) : countSlots c q = countSlots c p+1 := by
  have hset : (Finset.range c).filter (q · = true) =
      insert i ((Finset.range c).filter (p · = true)) := by
    ext j
    simp only [Finset.mem_filter,Finset.mem_range,Finset.mem_insert]
    by_cases hj : j = i
    · simp [hj,hi,hq]
    · simp only [hj,false_or,and_congr_right_iff]
      intro hjc
      rw [h j hjc hj]
  unfold countSlots
  rw [hset,Finset.card_insert_of_notMem (by simp [hp])]

lemma countSlots_change (hi : i < c) (h : ∀ j < c, j ≠ i → q j = p j) :
    countSlots c q+(if p i then 1 else 0) = countSlots c p+if q i then 1 else 0 := by
  have hsame : q i = p i → countSlots c q = countSlots c p := fun he =>
    countSlots_congr fun j hj => if hji : j = i then hji ▸ he else h j hj hji
  cases hp : p i <;> cases hq : q i
  · simp [hsame (hq.trans hp.symm)]
  · simp [countSlots_insert hi hp hq h]
  · simp [countSlots_insert hi hq hp fun j hj hji => (h j hj hji).symm]
  · simp [hsame (hq.trans hp.symm)]

lemma countSlots_succ (c : ℕ) (p : ℕ → Bool) :
    countSlots (c+1) p = countSlots c p+if p c then 1 else 0 := by
  unfold countSlots
  rw [Finset.range_add_one,Finset.filter_insert]
  split_ifs
  · rw [Finset.card_insert_of_notMem (by simp)]
  · rfl

lemma countSlots_getD {α : Type*} (l : List α) (a : α) (f : α → Bool) :
    countSlots l.length (fun i => f (l.getD i a)) = l.countP f := by
  induction l using reverseRecOn with
  | nil => simp [countSlots]
  | append_singleton l x ih =>
    rw [length_append,length_singleton,countSlots_succ,countP_append,countP_singleton,← ih]
    congr 1
    · refine countSlots_congr fun j hj => ?_
      rw [getD_append _ _ _ _ hj]
    · simp

lemma countSlots_le (c : ℕ) (p : ℕ → Bool) : countSlots c p ≤ c := by
  simpa [countSlots] using Finset.card_filter_le (Finset.range c) (p · = true)

/-- Two disjoint kinds of slots that do not fill the table leave a third kind. -/
lemma exists_slot_of_count_lt (h : countSlots c p+countSlots c q < c) :
    ∃ j < c, p j = false ∧ q j = false := by
  by_contra hno
  have hcover : Finset.range c ⊆
      (Finset.range c).filter (p · = true) ∪ (Finset.range c).filter (q · = true) := by
    intro j hj
    simp only [Finset.mem_union,Finset.mem_filter]
    by_contra hj'
    refine hno ⟨j,Finset.mem_range.1 hj,?_,?_⟩
    · simpa using fun hp => hj' (Or.inl ⟨hj,hp⟩)
    · simpa using fun hq => hj' (Or.inr ⟨hj,hq⟩)
  have hcard := (Finset.card_le_card hcover).trans (Finset.card_union_le _ _)
  rw [Finset.card_range] at hcard
  unfold countSlots at h
  omega

lemma exists_not_of_count_lt (h : countSlots c p < c) : ∃ j < c, p j = false := by
  have h0 : countSlots c (fun _ => false) = 0 := countSlots_false fun _ _ => rfl
  obtain ⟨j,hj,hp, -⟩ := exists_slot_of_count_lt (c := c) (p := p)
    (q := fun _ => false) (by omega)
  exact ⟨j,hj,hp⟩

end Count

section Map
variable {κ β : Type*} {M : κ → Option β} {k : κ}

/-- Number of keys of a partial map. -/
noncomputable def size (M : κ → Option β) : ℕ := {k | M k ≠ none}.ncard

lemma size_empty : size (fun _ : κ => (none : Option β)) = 0 := by
  simp [size]

variable [DecidableEq κ]

lemma size_update_present {v : β} (hk : M k ≠ none) : size (update M k (some v)) = size M := by
  unfold size
  congr 1
  ext k'
  by_cases h : k' = k <;> simp_all

lemma size_update_absent {v : β} (hfin : {k | M k ≠ none}.Finite) (hk : M k = none) :
    size (update M k (some v)) = size M+1 := by
  have hset : {k' | update M k (some v) k' ≠ none} = insert k {k' | M k' ≠ none} := by
    ext k'
    by_cases h : k' = k <;> simp_all
  unfold size
  rw [hset,Set.ncard_insert_of_notMem (by simp [hk]) hfin]

lemma size_update_none (hfin : {k | M k ≠ none}.Finite) (hk : M k ≠ none) :
    size (update M k none)+1 = size M := by
  have hset : {k' | update M k none k' ≠ none} = {k' | M k' ≠ none} \ {k} := by
    ext k'
    by_cases h : k' = k <;> simp_all
  unfold size
  rw [hset]
  exact Set.ncard_sdiff_singleton_add_one hk hfin

end Map

variable {κ β : Type*} {c : ℕ} {home : κ → ℕ} {free free' : ℕ → Bool}
  {item item' : ℕ → Option (κ × β)} {M : κ → Option β} {k : κ} {v : β} {i : ℕ}

/-- Every item can be reached from its home without crossing a free slot. -/
structure Layout (c : ℕ) (home : κ → ℕ) (free : ℕ → Bool) (item : ℕ → Option (κ × β)) : Prop where
  home_lt : ∀ k, home k < c
  free_item : ∀ i < c, free i = true → item i = none
  unique : ∀ i < c, ∀ j < c, ∀ k v w, item i = some (k,v) → item j = some (k,w) → i = j
  reach : ∀ i < c, ∀ k v, item i = some (k,v) → ∀ j < ringDist c (home k) i,
    free ((home k+j)%c) = false

def Represents (c : ℕ) (item : ℕ → Option (κ × β)) (M : κ → Option β) : Prop :=
  ∀ k v, M k = some v ↔ ∃ i < c, item i = some (k,v)

lemma Represents.absent_iff (hr : Represents c item M) (k : κ) :
    M k = none ↔ ∀ i < c, ∀ v, item i ≠ some (k,v) := by
  rw [eq_none_iff_forall_ne_some]
  constructor
  · intro h i hi v hit
    exact h v ((hr k v).2 ⟨i,hi,hit⟩)
  · intro h v hv
    obtain ⟨i,hi,hit⟩ := (hr k v).1 hv
    exact h i hi v hit

lemma Layout.exists_represents (hl : Layout c home free item) : ∃ M, Represents c item M := by
  classical
  refine ⟨fun k => if h : ∃ v, ∃ i < c, item i = some (k,v) then some h.choose else none,?_⟩
  intro k v
  constructor
  · intro h
    simp only at h
    split_ifs at h with hex
    obtain rfl : hex.choose = v := by simpa using h
    exact hex.choose_spec
  · rintro ⟨i,hi,hit⟩
    have hex : ∃ v, ∃ i < c, item i = some (k,v) := ⟨v,i,hi,hit⟩
    obtain ⟨j,hj,hjt⟩ := hex.choose_spec
    obtain rfl := hl.unique i hi j hj k v hex.choose hit hjt
    rw [hit] at hjt
    simp only [dif_pos hex]
    simpa using hjt.symm

lemma Represents.empty (h : ∀ i < c, item i = none) :
    Represents c item fun _ : κ => (none : Option β) := by
  intro k v
  simp only [reduceCtorEq,false_iff,not_exists,not_and]
  intro i hi hit
  simp [h i hi] at hit

lemma Layout.empty (hh : ∀ k, home k < c) (h : ∀ i < c, item i = none) :
    Layout c home free item := by
  refine ⟨hh,fun i hi _ => h i hi,?_,?_⟩
  · intro i hi j _ k v w hv _
    simp [h i hi] at hv
  · intro i hi k v hv
    simp [h i hi] at hv

lemma Represents.image_keys (hr : Represents c item M) :
    (fun i => (item i).map Prod.fst) '' {i | i < c ∧ (item i).isSome = true} =
      some '' {k | M k ≠ none} := by
  ext x
  simp only [Set.mem_image,Set.mem_ofPred_eq]
  constructor
  · rintro ⟨i,⟨hi,hs⟩,rfl⟩
    obtain ⟨⟨k,v⟩,hkv⟩ := isSome_iff_exists.1 hs
    exact ⟨k,by rw [(hr k v).2 ⟨i,hi,hkv⟩]; simp,by simp [hkv]⟩
  · rintro ⟨k,hk,rfl⟩
    obtain ⟨v,hv⟩ := ne_none_iff_exists'.1 hk
    obtain ⟨i,hi,hit⟩ := (hr k v).1 hv
    exact ⟨i,⟨hi,by simp [hit]⟩,by simp [hit]⟩

lemma Represents.finite (hr : Represents c item M) : {k | M k ≠ none}.Finite := by
  refine Set.Finite.of_finite_image ?_ (some_injective _).injOn
  rw [← hr.image_keys]
  exact ((Set.finite_lt_nat c).subset fun i hi => hi.1).image _

section
variable (hl : Layout c home free item)
include hl

lemma Layout.size_eq (hr : Represents c item M) :
    size M = countSlots c fun i => (item i).isSome := by
  have hinj : Set.InjOn (fun i => (item i).map Prod.fst) {i | i < c ∧ (item i).isSome = true} := by
    rintro i ⟨hi,hs⟩ j ⟨hj,hs'⟩ he
    obtain ⟨⟨k,v⟩,hkv⟩ := isSome_iff_exists.1 hs
    obtain ⟨⟨k',w⟩,hkw⟩ := isSome_iff_exists.1 hs'
    simp only [hkv,hkw,map_some,some.injEq] at he
    exact hl.unique i hi j hj k v w hkv (he ▸ hkw)
  have hcoe : {i | i < c ∧ (item i).isSome = true} =
      ((Finset.range c).filter fun i => (item i).isSome = true : Finset ℕ) := by
    ext i
    simp
  unfold size countSlots
  rw [← Set.ncard_image_of_injective _ (some_injective κ),← hr.image_keys,
    Set.InjOn.ncard_image hinj,hcoe,Set.ncard_coe_finset]

/-- A search from the home of `k` for `k` or a free slot decides whether `k` is present, and
ends at a slot that `k` can be reached at. -/
lemma Layout.find (hr : Represents c item M) (hex : ∃ i < c, free i = true) (k : κ) {p : ℕ → Bool}
    (hp : ∀ i < c, p i = true ↔ free i = true ∨ ∃ v, item i = some (k,v)) :
    ∃ d < c, search p c c (home k) = some ((home k+d)%c) ∧
      (∀ j < d, free ((home k+j)%c) = false) ∧
      ((∃ v, item ((home k+d)%c) = some (k,v) ∧ M k = some v) ∨
        free ((home k+d)%c) = true ∧ M k = none) := by
  have hc : 0 < c := (zero_le _).trans_lt (hl.home_lt k)
  obtain ⟨e,he,hef⟩ := hex
  obtain ⟨d,hd,hs,hstop,hmin⟩ := search_first (hl.home_lt k) ⟨e,he,(hp e he).2 (Or.inl hef)⟩
  have hslot : ∀ j, (home k+j)%c < c := fun j => mod_lt _ hc
  have hpass : ∀ j < d, free ((home k+j)%c) = false ∧ ∀ v, item ((home k+j)%c) ≠ some (k,v) := by
    intro j hj
    have hn : ¬ p ((home k+j)%c) = true := by simp [hmin j hj]
    rw [hp _ (hslot j),not_or,not_exists] at hn
    exact ⟨by simpa using hn.1,hn.2⟩
  refine ⟨d,hd,hs,fun j hj => (hpass j hj).1,?_⟩
  rcases (hp _ (hslot d)).1 hstop with hf | ⟨v,hv⟩
  · refine Or.inr ⟨hf,(hr.absent_iff k).2 ?_⟩
    -- An item behind the free slot would be cut off; one before it would have been met.
    intro i hi v hit
    rcases lt_or_ge d (ringDist c (home k) i) with hlt | hge
    · have := hl.reach i hi k v hit d hlt
      simp [hf] at this
    · have hi' : (home k+ringDist c (home k) i)%c = i := add_ringDist_mod (hl.home_lt k) hi
      rcases hge.lt_or_eq with hlt | heq
      · exact (hpass _ hlt).2 v (by rwa [hi'])
      · rw [heq] at hi'
        simp [hl.free_item i hi (hi' ▸ hf)] at hit
  · exact Or.inl ⟨v,hv,(hr k v).2 ⟨_,hslot d,hv⟩⟩

/-- A new item may be stored at any slot without an item that its home reaches. The slot may
have been free or a tombstone. -/
lemma Layout.insert {d : ℕ} (hd : d < c) (hi : (home k+d)%c = i)
    (hpath : ∀ j < d, free ((home k+j)%c) = false) (hk : ∀ j < c, ∀ w, item j ≠ some (k,w))
    (hfree : ∀ j < c, free' j = true → j ≠ i ∧ free j = true)
    (hitem : ∀ j < c, item' j = if j = i then some (k,v) else item j) :
    Layout c home free' item' := by
  have hc : 0 < c := (zero_le _).trans_lt hd
  have hnot : ∀ j < c, free j = false → free' j = false := by
    intro j hj hf
    by_contra hn
    simp [(hfree j hj (by simpa using hn)).2] at hf
  refine ⟨hl.home_lt,?_,?_,?_⟩
  · intro j hj hf
    obtain ⟨hne,hf⟩ := hfree j hj hf
    rw [hitem j hj,if_neg hne]
    exact hl.free_item j hj hf
  · intro a ha b hb k' x y hx hy
    rw [hitem a ha] at hx
    rw [hitem b hb] at hy
    split_ifs at hx hy with h1 h2 h2
    · rw [h1,h2]
    · cases hx
      exact absurd hy (hk b hb y)
    · cases hy
      exact absurd hx (hk a ha x)
    · exact hl.unique a ha b hb k' x y hx hy
  · intro a ha k' x hx j hj
    rw [hitem a ha] at hx
    refine hnot _ (mod_lt _ hc) ?_
    split_ifs at hx with h
    · cases hx
      rw [h,← hi,ringDist_add_mod (hl.home_lt k) hd] at hj
      exact hpath j hj
    · exact hl.reach a ha k' x hx j hj

/-- Overwriting the value of an item, and turning items into tombstones, keeps the layout. -/
lemma Layout.mono (hfree : ∀ j < c, free' j = true → free j = true)
    (hitem : ∀ j < c, ∀ k w, item' j = some (k,w) → ∃ w', item j = some (k,w')) :
    Layout c home free' item' := by
  refine ⟨hl.home_lt,?_,?_,?_⟩
  · intro j hj hf
    refine eq_none_iff_forall_ne_some.2 fun ⟨k,w⟩ hw => ?_
    obtain ⟨w',hw'⟩ := hitem j hj k w hw
    simp [hl.free_item j hj (hfree j hj hf)] at hw'
  · intro a ha b hb k x y hx hy
    obtain ⟨x',hx'⟩ := hitem a ha k x hx
    obtain ⟨y',hy'⟩ := hitem b hb k y hy
    exact hl.unique a ha b hb k x' y' hx' hy'
  · intro a ha k x hx j hj
    obtain ⟨x',hx'⟩ := hitem a ha k x hx
    have hc : 0 < c := by omega
    by_contra hn
    have := hl.reach a ha k x' hx' j hj
    rw [hfree _ (mod_lt _ hc) (by simpa using hn)] at this
    simp at this

end

section Update
variable [DecidableEq κ]

lemma Represents.set (hr : Represents c item M) (hi : i < c)
    (hother : ∀ j < c, j ≠ i → ∀ w, item j ≠ some (k,w))
    (hself : ∀ k' w, item i = some (k',w) → k' = k)
    (hitem : ∀ j < c, item' j = if j = i then some (k,v) else item j) :
    Represents c item' (update M k (some v)) := by
  intro k' w
  rw [update_apply]
  split_ifs with hk
  · subst hk
    constructor
    · intro h
      cases h
      exact ⟨i,hi,by rw [hitem i hi,if_pos rfl]⟩
    · rintro ⟨j,hj,hjw⟩
      rw [hitem j hj] at hjw
      split_ifs at hjw with h
      · cases hjw
        rfl
      · exact absurd hjw (hother j hj h w)
  · rw [hr k' w]
    constructor
    · rintro ⟨j,hj,hjw⟩
      refine ⟨j,hj,?_⟩
      rw [hitem j hj,if_neg,hjw]
      rintro rfl
      exact hk (hself k' w hjw)
    · rintro ⟨j,hj,hjw⟩
      rw [hitem j hj] at hjw
      split_ifs at hjw with h
      · cases hjw
        exact absurd rfl hk
      · exact ⟨j,hj,hjw⟩

lemma Represents.erase (hl : Layout c home free item) (hr : Represents c item M) (hi : i < c)
    (hk : item i = some (k,v)) (hitem : ∀ j < c, item' j = if j = i then none else item j) :
    Represents c item' (update M k none) := by
  intro k' w
  rw [update_apply]
  split_ifs with h
  · subst h
    simp only [false_iff,not_exists,not_and]
    intro j hj hjw
    rw [hitem j hj] at hjw
    split_ifs at hjw with hji
    exact hji (hl.unique j hj i hi k' w v hjw hk)
  · rw [hr k' w]
    constructor
    · rintro ⟨j,hj,hjw⟩
      refine ⟨j,hj,?_⟩
      rw [hitem j hj,if_neg,hjw]
      rintro rfl
      rw [hk] at hjw
      cases hjw
      exact h rfl
    · rintro ⟨j,hj,hjw⟩
      rw [hitem j hj] at hjw
      split_ifs at hjw
      exact ⟨j,hj,hjw⟩

end Update

section Rebuild
variable {α σ : Type*} {key : α → κ} {val : α → β} {f : σ → α → Option σ} {n : ℕ} {xs : List α}

/-- The map that a list of entries with distinct keys stands for. -/
def Lists (key : α → κ) (val : α → β) (xs : List α) (M : κ → Option β) : Prop :=
  xs.Pairwise (fun a b => key a ≠ key b) ∧ ∀ k v, M k = some v ↔ ∃ a ∈ xs, key a = k ∧ val a = v

lemma Lists.size_le (h : Lists key val xs M) : size M ≤ xs.length := by
  classical
  have hsub : {k | M k ≠ none} ⊆ ((xs.map key).toFinset : Set κ) := by
    intro k hk
    obtain ⟨v,hv⟩ := ne_none_iff_exists'.1 hk
    obtain ⟨a,ha,rfl, -⟩ := (h.2 k v).1 hv
    simpa using ⟨a,ha,rfl⟩
  calc size M ≤ ((xs.map key).toFinset : Set κ).ncard :=
        Set.ncard_le_ncard hsub (Finset.finite_toSet _)
    _ = (xs.map key).toFinset.card := Set.ncard_coe_finset _
    _ ≤ xs.length := (toFinset_card_le _).trans_eq (length_map _)

lemma Lists.perm {ys : List α} (h : Lists key val xs M) (hp : xs.Perm ys) : Lists key val ys M :=
  ⟨(hp.pairwise_iff fun hab => Ne.symm hab).1 h.1,fun k v => by simp only [h.2 k v,hp.mem_iff]⟩

lemma Lists.snoc [DecidableEq κ] {a : α} (h : Lists key val (xs ++ [a]) M) :
    Lists key val xs (update M (key a) none) ∧ M (key a) = some (val a) := by
  obtain ⟨hpair,hM⟩ := h
  rw [pairwise_append] at hpair
  refine ⟨⟨hpair.1,fun k v => ?_⟩,(hM _ _).2 ⟨a,by simp,rfl,rfl⟩⟩
  rw [update_apply]
  split_ifs with hk
  · simp only [false_iff,not_exists,not_and]
    intro b hb hbk
    exact absurd (hbk.trans hk) (hpair.2.2 b hb a (by simp))
  · rw [hM k v]
    constructor
    · rintro ⟨b,hb,hbk,hbv⟩
      rcases mem_append.1 hb with hb | hb
      · exact ⟨b,hb,hbk,hbv⟩
      · rw [mem_singleton.1 hb] at hbk
        exact absurd hbk.symm hk
    · rintro ⟨b,hb,hbk,hbv⟩
      exact ⟨b,mem_append_left _ hb,hbk,hbv⟩

/-- Inserting all entries of an old table into an empty one that has room for `n` entries
gives a table with the same contents. -/
lemma rebuild [DecidableEq κ] (I : σ → (κ → Option β) → Prop) {s : σ} (hinit : I s fun _ => none)
    (hstep : ∀ t M a, a ∈ xs → I t M → M (key a) = none → size M < n →
      ∃ u, f t a = some u ∧ I u (update M (key a) (some (val a))))
    (hM : Lists key val xs M) (hn : xs.length ≤ n) : ∃ t, xs.foldlM f s = some t ∧ I t M := by
  induction xs using reverseRecOn generalizing M with
  | nil =>
    have hnone : M = fun _ => none := by
      funext k
      refine eq_none_iff_forall_ne_some.2 fun v hv => ?_
      simpa using (hM.2 k v).1 hv
    exact ⟨s,rfl,hnone ▸ hinit⟩
  | append_singleton xs a ih =>
    rw [length_append,length_singleton] at hn
    obtain ⟨hM',ha⟩ := hM.snoc
    obtain ⟨t,ht,hIt⟩ := ih (fun t M b hb => hstep t M b (mem_append_left _ hb)) hM' (by omega)
    have hsize := hM'.size_le
    obtain ⟨u,hu,hIu⟩ := hstep t _ a (by simp) hIt (Function.update_self _ _ _) (by omega)
    refine ⟨u,by simp [ht,hu],?_⟩
    rwa [Function.update_idem,← ha,Function.update_eq_self] at hIu

lemma Layout.lists {E : Type*} {l : List E} {e : E} {g : E → Option α}
    (hl : Layout l.length home free item) (hr : Represents l.length item M)
    (hitem : ∀ i < l.length, item i = (g (l.getD i e)).map fun a => (key a,val a)) :
    Lists key val (l.filterMap g) M ∧ (l.filterMap g).length = size M := by
  have hget : ∀ i (hi : i < l.length), item i = (g l[i]).map fun a => (key a,val a) := by
    intro i hi
    rw [hitem i hi,getD_eq_getElem _ _ hi]
  refine ⟨⟨?_,fun k v => ?_⟩,?_⟩
  · rw [pairwise_filterMap,pairwise_iff_getElem]
    intro i j hi hj hij a ha b hb hab
    have := hl.unique i hi j hj (key a) (val a) (val b) (by simp [hget i hi,ha])
      (by simp [hget j hj,hb,hab])
    omega
  · rw [hr k v]
    constructor
    · rintro ⟨i,hi,hit⟩
      rw [hget i hi] at hit
      obtain ⟨a,ha,hkv⟩ := map_eq_some_iff.1 hit
      cases hkv
      exact ⟨a,mem_filterMap.2 ⟨l[i],getElem_mem hi,ha⟩,rfl,rfl⟩
    · rintro ⟨a,ha,rfl,rfl⟩
      obtain ⟨x,hx,hxa⟩ := mem_filterMap.1 ha
      obtain ⟨i,hi,rfl⟩ := mem_iff_getElem.1 hx
      exact ⟨i,hi,by rw [hget i hi,hxa]; rfl⟩
  · rw [hl.size_eq hr,length_filterMap_eq_countP,← countSlots_getD l e]
    refine countSlots_congr fun i hi => ?_
    rw [hitem i hi,isSome_map]

end Rebuild

def hole (item : ℕ → Option (κ × β)) (cand : ℕ) (i : ℕ) : Option (κ × β) :=
  if i = cand then none else item i

/-- The state of a deletion that has still to vacate slot `cand` and has looked at the `n`
slots behind it. None of those may be moved to `cand`. -/
structure Shift (c : ℕ) (home : κ → ℕ) (free : ℕ → Bool) (item : ℕ → Option (κ × β))
    (M : κ → Option β) (cand n : ℕ) : Prop where
  cand_lt : cand < c
  layout : Layout c home free (hole item cand)
  represents : Represents c (hole item cand) M
  not_free : ∀ j ≤ n, free ((cand+j)%c) = false
  between : ∀ j, 0 < j → j ≤ n → ∀ k v, item ((cand+j)%c) = some (k,v) →
    0 < ringDist c cand (home k) ∧ ringDist c cand (home k) ≤ j

variable {cand n : ℕ}

lemma Shift.start [DecidableEq κ] (hl : Layout c home free item) (hr : Represents c item M) (hi : i < c)
    (hk : item i = some (k,v)) : Shift c home free item (update M k none) i 0 := by
  have hf : free i = false := by
    by_contra h
    simp [hl.free_item i hi (by simpa using h)] at hk
  refine ⟨hi,hl.mono (fun _ _ h => h) ?_,hr.erase hl hi hk fun j _ => rfl,?_,?_⟩
  · intro j _ k w hw
    unfold hole at hw
    split_ifs at hw
    exact ⟨w,hw⟩
  · intro j hj
    obtain rfl : j = 0 := by omega
    rwa [add_zero,mod_eq_of_lt hi]
  · intro j h0 hj
    omega

section
variable (hs : Shift c home free item M cand n)
include hs

/-- A scan that has not met a free slot has not come full circle. -/
lemma Shift.next_lt {e : ℕ} (he : e < c) (hf : free e = true) : n+1 < c := by
  by_contra hn
  have hd := ringDist_lt hs.cand_lt he
  have := hs.not_free (ringDist c cand e) (by omega)
  rw [add_ringDist_mod hs.cand_lt he,hf] at this
  simp at this

lemma Shift.skip (hf : free ((cand+(n+1))%c) = false)
    (hin : ∀ k v, item ((cand+(n+1))%c) = some (k,v) →
      0 < ringDist c cand (home k) ∧ ringDist c cand (home k) ≤ n+1) :
    Shift c home free item M cand (n+1) := by
  refine ⟨hs.cand_lt,hs.layout,hs.represents,?_,?_⟩
  · intro j hj
    rcases le_succ_iff.1 hj with hj | rfl
    · exact hs.not_free j hj
    · exact hf
  · intro j h0 hj
    rcases le_succ_iff.1 hj with hj | rfl
    · exact hs.between j h0 hj
    · exact hin

/-- An item whose home is not strictly behind `cand` may fill the hole. -/
lemma Shift.move (hn : n+1 < c) (hk : item ((cand+(n+1))%c) = some (k,v))
    (hout : ¬ (0 < ringDist c cand (home k) ∧ ringDist c cand (home k) ≤ n+1))
    (hitem : ∀ j, item' j = if j = cand then item ((cand+(n+1))%c) else item j) :
    Shift c home free item' M ((cand+(n+1))%c) 0 := by
  have hlt : (cand+(n+1))%c < c := mod_lt _ (by omega)
  have hne : (cand+(n+1))%c ≠ cand := by
    rw [add_mod_eq hs.cand_lt hn.le]
    split_ifs <;> omega
  have hnf : free ((cand+(n+1))%c) = false := by
    by_contra h
    have := hs.layout.free_item _ hlt (by simpa using h)
    rw [hole,if_neg hne,hk] at this
    simp at this
  generalize hnext : (cand+(n+1))%c = next at *
  have hold : hole item cand next = some (k,v) := by rw [hole,if_neg hne,hk]
  have hnew : ∀ j, hole item' next j = if j = cand then some (k,v) else
      if j = next then none else hole item cand j := by
    intro j
    unfold hole
    rw [hitem,hk]
    split_ifs with h1 h2
    · exact absurd (h1.symm.trans h2) hne
    all_goals rfl
  refine ⟨hlt,⟨hs.layout.home_lt,?_,?_,?_⟩,?_,?_,?_⟩
  · intro j hj hfj
    have hjc : j ≠ cand := by
      rintro rfl
      have := hs.not_free 0 (zero_le _)
      rw [add_zero,mod_eq_of_lt hj,hfj] at this
      simp at this
    rw [hnew,if_neg hjc]
    split_ifs
    · rfl
    · exact hs.layout.free_item j hj hfj
  · intro a ha b hb k' x y hx hy
    rw [hnew] at hx hy
    split_ifs at hx hy with h1 h2 h3 h4 h5
    · rw [h1,h2]
    · cases hx
      exact absurd (hs.layout.unique b hb next hlt k y v hy hold) h3
    · cases hy
      exact absurd (hs.layout.unique a ha next hlt k x v hx hold) h4
    · exact hs.layout.unique a ha b hb k' x y hx hy
  · intro a ha k' x hx j hj
    rw [hnew] at hx
    split_ifs at hx with h1 h2
    · cases hx
      refine hs.layout.reach next hlt k v hold j ?_
      have hhome := hs.layout.home_lt k
      rw [add_mod_eq hs.cand_lt hn.le] at hnext
      unfold ringDist at hj hout ⊢
      split_ifs at * <;> omega
    · exact hs.layout.reach a ha k' x hx j hj
  · intro k' w
    rw [hs.represents k' w]
    constructor
    · rintro ⟨j,hj,hjw⟩
      by_cases hjn : j = next
      · rw [hjn,hold] at hjw
        exact ⟨cand,hs.cand_lt,by rw [hnew,if_pos rfl,hjw]⟩
      · refine ⟨j,hj,?_⟩
        have hjc : j ≠ cand := by
          rintro rfl
          simp [hole] at hjw
        rw [hnew,if_neg hjc,if_neg hjn,hjw]
    · rintro ⟨j,hj,hjw⟩
      rw [hnew] at hjw
      split_ifs at hjw with h1 h2
      · exact ⟨next,hlt,by rw [hold,hjw]⟩
      · exact ⟨j,hj,hjw⟩
  · intro j hj
    obtain rfl : j = 0 := by omega
    rwa [add_zero,mod_eq_of_lt hlt]
  · intro j h0 hj
    omega

/-- Once the scan meets a free slot, `cand` may be freed. -/
lemma Shift.finish (hf : free ((cand+(n+1))%c) = true)
    (hfree : ∀ j < c, free' j = true → j = cand ∨ free j = true)
    (hitem : ∀ j < c, item' j = hole item cand j) : Layout c home free' item' := by
  refine ⟨hs.layout.home_lt,?_,?_,?_⟩
  · intro j hj hfj
    rw [hitem j hj]
    rcases hfree j hj hfj with rfl | hfj
    · simp [hole]
    · exact hs.layout.free_item j hj hfj
  · intro a ha b hb k x y hx hy
    rw [hitem a ha] at hx
    rw [hitem b hb] at hy
    exact hs.layout.unique a ha b hb k x y hx hy
  · intro a ha k x hx j hj
    rw [hitem a ha] at hx
    have hreach := hs.layout.reach a ha k x hx
    have hhome := hs.layout.home_lt k
    by_contra hfj
    rcases hfree _ (mod_lt _ (by omega)) (by simpa using hfj) with hjc | hjf
    swap
    · simp [hreach j hj] at hjf
    -- The path to `a` crosses `cand`; it ends before or behind the free slot.
    have hac : a ≠ cand := by
      rintro rfl
      simp [hole] at hx
    have hit : item a = some (k,x) := by rwa [hole,if_neg hac] at hx
    have hda := ringDist_lt hhome ha
    have hsplit : ringDist c (home k) a = j+ringDist c cand a ∧ 0 < ringDist c cand a ∧
        (ringDist c cand (home k) = 0 ∨ ringDist c cand (home k) = c-j) := by
      rw [add_mod_eq hhome (by omega)] at hjc
      unfold ringDist at hj ⊢
      split_ifs at * <;> omega
    obtain ⟨hsum,hpos,hback⟩ := hsplit
    have hadd : (cand+ringDist c cand a)%c = a := add_ringDist_mod hs.cand_lt ha
    rcases lt_trichotomy (ringDist c cand a) (n+1) with hlt | heq | hgt
    · have hb := hs.between _ hpos (by omega) k x (by rwa [hadd])
      omega
    · rw [← heq,hadd] at hf
      rw [hs.layout.free_item a ha hf] at hx
      simp at hx
    · have := hreach (j+(n+1)) (by omega)
      rw [← add_assoc,← mod_add_mod,hjc,hf] at this
      simp at this

end

end DartSdk.LinearProbing
