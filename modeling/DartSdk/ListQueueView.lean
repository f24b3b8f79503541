import DartSdk.ListQueue

/-! `View` says that the slots from the head on hold a given sequence and the others `null`. -/
namespace DartSdk.ListQueue
open List Nat Queue

variable {E : Type} {null : E}
variable {q : Queue E} {xs : List E}

lemma andMask_eq {x : ℤ} {c n : ℕ} (hc : 0 < c) (h : x%c = n) : andMask x (c-1) = n := by
  have hcast : ((c-1 : ℕ) : ℤ)+1 = c := by omega
  rw [andMask,hcast,h,Int.toNat_natCast]

lemma isPowerOf2_spec {n : ℕ} (hn : 2 ≤ n) (h : isPowerOf2 n = true) : ∃ k, n = 2^(k+1) := by
  rw [isPowerOf2,beq_iff_eq] at h
  obtain ⟨k,rfl⟩ := (and_sub_one_eq_zero_iff_isPowerOfTwo (by omega)).1 h
  cases k with
  | zero => simp at hn
  | succ k => exact ⟨k,rfl⟩

lemma clearLowestBits_spec (fuel : ℕ) : ∀ n, n ≠ 0 → n ≤ fuel →
    clearLowestBits fuel n = some (2^n.log2) := by
  induction fuel with
  | zero => intro n h0 hn; omega
  | succ fuel ih =>
    intro n h0 hn
    unfold clearLowestBits
    by_cases hpow : n.isPowerOfTwo
    · obtain ⟨k,rfl⟩ := hpow
      simp
    · have hbit := and_sub_one_testBit_log2 h0 hpow
      have hge : 2^n.log2 ≤ n &&& (n-1) := ge_two_pow_of_testBit hbit
      have hlt : n &&& (n-1) < n := lt_of_le_of_lt and_le_right (by omega)
      have hne : n &&& (n-1) ≠ 0 := by
        have := Nat.two_pow_pos n.log2
        omega
      have hlog : (n &&& (n-1)).log2 = n.log2 := by
        refine le_antisymm ?_ ((Nat.le_log2 hne).2 hge)
        exact Nat.lt_succ_iff.1 ((Nat.log2_lt hne).2 (hlt.trans Nat.lt_log2_self))
      simp only [if_neg hne]
      rw [ih _ hne (by omega),hlog]

lemma nextPowerOf2_spec {n : ℕ} (hn : 2 ≤ n) :
    ∃ k, nextPowerOf2 n = some (2^(k+1)) ∧ n ≤ 2^(k+1) := by
  have hne : n <<< 1-1 ≠ 0 := by
    rw [shiftLeft_eq]
    omega
  have hle : n ≤ 2^(n <<< 1-1).log2 := by
    have hlt := lt_log2_self (n := n <<< 1-1)
    rw [pow_succ] at hlt
    generalize 2^(n <<< 1-1).log2 = m at hlt ⊢
    rw [shiftLeft_eq] at hlt
    omega
  have hlog : (n <<< 1-1).log2 ≠ 0 := by
    intro h0
    rw [h0] at hle
    omega
  obtain ⟨k,hk⟩ := exists_eq_succ_of_ne_zero hlog
  have hspec := clearLowestBits_spec (n <<< 1) _ hne (sub_le _ _)
  rw [hk] at hle hspec
  exact ⟨k,hspec,hle⟩

lemma setRange_spec (target : List E) {start stop : ℕ} (source : List E) (skipCount : ℕ)
    (h1 : start ≤ stop) (h2 : stop ≤ target.length) (h3 : skipCount+(stop-start) ≤ source.length) :
    ∃ l, setRange target start stop source skipCount = some l ∧ l.length = target.length ∧
      ∀ j : ℕ, l[j]? = if start ≤ j ∧ j < stop then source[skipCount+(j-start)]? else target[j]? := by
  refine ⟨_,if_pos ⟨h1,h2,h3⟩,by simp; omega,?_⟩
  intro j
  by_cases hlo : j < start
  · rw [if_neg (by omega),append_assoc,getElem?_append_left (by simp; omega),
      getElem?_take_of_lt hlo]
  · rw [append_assoc,getElem?_append_right (by simp; omega)]
    have hstart : min start target.length = start := by omega
    simp only [length_take,hstart]
    by_cases hhi : j < stop
    · rw [if_pos (by omega),getElem?_append_left (by simp; omega),
        getElem?_take_of_lt (by omega),getElem?_drop]
    · rw [if_neg (by omega),getElem?_append_right (by simp; omega),getElem?_drop]
      congr 1
      simp
      omega

namespace Queue

/-- The slot of position `p`, counted from the head. -/
def slot (q : Queue E) (p : ℕ) : ℕ := (q.head+p)%q.table.length

def cell (q : Queue E) (p : ℕ) : Option E := q.table[q.slot p]?

end Queue

lemma slot_cases (hh : q.head < q.table.length) {p : ℕ} (hp : p ≤ q.table.length) :
    q.slot p = if q.head+p < q.table.length then q.head+p else q.head+p-q.table.length := by
  unfold slot
  split_ifs with h
  · exact mod_eq_of_lt h
  · rw [mod_eq_sub_mod (by omega),mod_eq_of_lt (by omega)]

section Slots
variable {q : Queue E} (hh : q.head < q.table.length)
include hh

lemma slot_lt (p : ℕ) : q.slot p < q.table.length := mod_lt _ (by omega)

lemma slot_zero : q.slot 0 = q.head := mod_eq_of_lt hh

lemma slot_inj {p r : ℕ} (hp : p < q.table.length) (hr : r < q.table.length)
    (h : q.slot p = q.slot r) : p = r := by
  rw [slot_cases hh hp.le,slot_cases hh hr.le] at h
  split_ifs at h <;> omega

lemma slot_ne {p r : ℕ} (hp : p < q.table.length) (hr : r < q.table.length) (h : p ≠ r) :
    q.slot p ≠ q.slot r := fun he => h (slot_inj hh hp hr he)

lemma exists_slot {j : ℕ} (hj : j < q.table.length) : ∃ r < q.table.length, q.slot r = j := by
  by_cases hle : q.head ≤ j
  · exact ⟨j-q.head,by omega,by rw [slot_cases hh (by omega),if_pos (by omega)]; omega⟩
  · exact ⟨j+q.table.length-q.head,by omega,
      by rw [slot_cases hh (by omega),if_neg (by omega)]; omega⟩

lemma next_slot {p : ℕ} (hp : p < q.table.length) : q.next (q.slot p) = q.slot (p+1) := by
  refine andMask_eq (by omega) ?_
  rw [slot_cases hh hp.le]
  unfold slot
  split_ifs
  · push_cast
    rw [Int.add_assoc]
  · push_cast [cast_sub (show q.table.length ≤ q.head+p by omega)]
    rw [show (q.head : ℤ)+p-q.table.length+1 = q.head+(p+1)-q.table.length by ring,
      Int.sub_emod_right]

lemma prev_slot {p : ℕ} (hp : p < q.table.length) : q.prev (q.slot (p+1)) = q.slot p := by
  have hc : 0 < q.table.length := by omega
  refine andMask_eq hc ?_
  rw [slot_cases hh (show p+1 ≤ q.table.length from hp)]
  unfold slot
  split_ifs
  · push_cast
    rw [show (q.head : ℤ)+(p+1)-1 = q.head+p by ring]
  · push_cast [cast_sub (show q.table.length ≤ q.head+(p+1) by omega)]
    rw [show (q.head : ℤ)+(p+1)-q.table.length-1 = q.head+p-q.table.length by ring,
      Int.sub_emod_right]

end Slots

lemma slot_add {p d : ℕ} (hd : q.slot p+d < 2*q.table.length) : q.slot (p+d) =
    if q.slot p+d < q.table.length then q.slot p+d else q.slot p+d-q.table.length := by
  have hmod : q.slot (p+d) = (q.slot p+d)%q.table.length := by
    rw [slot,slot,mod_add_mod,add_assoc]
  rw [hmod]
  split_ifs with h
  · exact mod_eq_of_lt h
  · rw [mod_eq_sub_mod (by omega),mod_eq_of_lt (by omega)]

lemma andMask_slot {p r : ℕ} (hp : p ≤ r) (hlt : r-p < q.table.length) :
    andMask ((q.slot r : ℤ)-q.slot p) q.mask = r-p := by
  refine andMask_eq (by omega) ?_
  have h1 : (q.slot r : ℤ)%q.table.length = (q.head+r : ℤ)%q.table.length := by
    unfold slot
    push_cast
    exact Int.emod_emod_of_dvd _ dvd_rfl
  have h2 : (q.slot p : ℤ)%q.table.length = (q.head+p : ℤ)%q.table.length := by
    unfold slot
    push_cast
    exact Int.emod_emod_of_dvd _ dvd_rfl
  rw [Int.sub_emod,h1,h2,← Int.sub_emod,show (q.head+r : ℤ)-(q.head+p) = ((r-p : ℕ) : ℤ) by omega]
  exact_mod_cast mod_eq_of_lt hlt

@[simp]
lemma slot_set (q : Queue E) (i : ℕ) (e : E) (tail n r : ℕ) :
    slot ⟨q.table.set i e,q.head,tail,n⟩ r = q.slot r := by
  simp [slot]

lemma cell_set (hh : q.head < q.table.length) {p : ℕ} (hp : p < q.table.length) (e : E) (tail n : ℕ)
    {r : ℕ} (hr : r < q.table.length) : cell ⟨q.table.set (q.slot p) e,q.head,tail,n⟩ r =
      if r = p then some e else q.cell r := by
  rw [cell,slot_set]
  split_ifs with h
  · subst h
    rw [getElem?_set_self (slot_lt hh r)]
  · rw [getElem?_set_ne (slot_ne hh hp hr (Ne.symm h)),cell]

lemma assign_slot (hh : q.head < q.table.length) (p : ℕ) (e : E) :
    assign q.table (q.slot p) e = some (q.table.set (q.slot p) e) := if_pos (slot_lt hh p)

/-- `q` holds the sequence `xs`, and `null` in the slots behind it. -/
structure View (null : E) (q : Queue E) (xs : List E) : Prop where
  size : ∃ k, q.table.length = 2^(k+1)
  head_lt : q.head < q.table.length
  tail_eq : q.tail = q.slot xs.length
  le : xs.length ≤ q.table.length
  cells : ∀ p < q.table.length, q.cell p = some (xs.getD p null)

/-- Between operations at least one slot is free. -/
structure Holds (null : E) (q : Queue E) (xs : List E) : Prop extends View null q xs where
  room : xs.length < q.table.length

variable (h : Holds null q xs)
include h

lemma Holds.length : q.length = xs.length := by
  have := andMask_slot (zero_le xs.length) (by have := h.room; omega)
  rw [slot_zero h.head_lt] at this
  rw [Queue.length,h.tail_eq,this,Nat.sub_zero]

omit h in
lemma View.tail_eq_head (h : View null q xs) :
    q.head = q.tail ↔ xs.length = 0 ∨ xs.length = q.table.length := by
  have hh := h.head_lt
  have hle := h.le
  rw [h.tail_eq,slot_cases hh hle]
  split_ifs <;> omega

lemma Holds.empty_iff : q.head = q.tail ↔ xs = [] := by
  have := h.room
  rw [h.toView.tail_eq_head,← length_eq_zero_iff]
  omega

lemma Holds.slot_ne_tail {p : ℕ} (hp : p < xs.length) : q.slot p ≠ q.tail := by
  intro he
  rw [h.tail_eq] at he
  have := slot_inj h.head_lt (hp.trans h.room) h.room he
  omega

omit h in
lemma View.cell_eq (h : View null q xs) {p : ℕ} (hp : p < xs.length) : q.cell p = xs[p]? := by
  rw [h.cells p (hp.trans_le h.le),getD_eq_getElem _ _ hp,getElem?_eq_getElem hp]

lemma Holds.modified (n : ℕ) : Holds null { q with modificationCount := n } xs :=
  ⟨⟨h.size,h.head_lt,h.tail_eq,h.le,h.cells⟩,h.room⟩

omit h

lemma holds_prefix {table : List E} (xs : List E) {k : ℕ} (n : ℕ) (hsize : table.length = 2^(k+1))
    (hlt : xs.length < table.length) (h : ∀ j < table.length, table[j]? = some (xs.getD j null)) :
    Holds null ⟨table,0,xs.length,n⟩ xs := by
  have hpos : 0 < table.length := by omega
  have hslot : ∀ p < table.length, slot ⟨table,0,xs.length,n⟩ p = p := by
    intro p hp
    simp [slot,mod_eq_of_lt hp]
  refine ⟨⟨⟨k,hsize⟩,hpos,(hslot _ hlt).symm,hlt.le,fun p hp => ?_⟩,hlt⟩
  rw [cell,hslot p hp]
  exact h p hp

lemma getElem?_replicate_eq {n j : ℕ} (hj : j < n) (xs : List E) (hx : xs.length ≤ j) :
    (replicate n null)[j]? = some (xs.getD j null) := by
  rw [getElem?_replicate,if_pos hj,getD_eq_default _ _ hx]

lemma unwind_spec (h : View null q xs) (target : List E) {n m : ℕ}
    (hn : q.head+n = q.table.length) (hm : n+m ≤ q.table.length) (htarget : n+m ≤ target.length) :
    ∃ l₁ l₂, setRange target 0 n q.table q.head = some l₁ ∧
      setRange l₁ n (n+m) q.table 0 = some l₂ ∧ l₂.length = target.length ∧
      ∀ j : ℕ, l₂[j]? = if j < n+m then some (xs.getD j null) else target[j]? := by
  have hh := h.head_lt
  obtain ⟨l₁,hs₁,hlen₁,hget₁⟩ := setRange_spec target q.table q.head (zero_le n)
    (by omega) (by omega)
  obtain ⟨l₂,hs₂,hlen₂,hget₂⟩ := setRange_spec l₁ q.table 0 (le_add_right n m)
    (by omega) (by omega)
  refine ⟨l₁,l₂,hs₁,hs₂,by omega,fun j => ?_⟩
  rw [hget₂,hget₁]
  by_cases hj : j < n+m
  · have hcell := h.cells j (by omega)
    rw [cell,slot_cases hh (by omega)] at hcell
    rw [if_pos hj]
    by_cases hjn : j < n
    · rw [if_neg (by omega),if_pos ⟨zero_le _,hjn⟩]
      rw [if_pos (by omega)] at hcell
      simpa using hcell
    · rw [if_pos ⟨by omega,hj⟩]
      rw [if_neg (by omega)] at hcell
      rwa [show 0+(j-n) = q.head+j-q.table.length by omega]
  · rw [if_neg hj,if_neg (by omega),if_neg (by omega)]

lemma View.grow (h : View null q xs) (hfull : xs.length = q.table.length) :
    ∃ q', grow null q = some q' ∧ Holds null q' xs ∧ q'.modificationCount = q.modificationCount := by
  have hh := h.head_lt
  obtain ⟨k,hk⟩ := h.size
  obtain ⟨l₁,l₂,hs₁,hs₂,hlen,hget⟩ := unwind_spec h
    (replicate (q.table.length*2) null) (n := q.table.length-q.head) (m := q.head)
    (by omega) (by omega) (by simp; omega)
  refine ⟨⟨l₂,0,xs.length,q.modificationCount⟩,?_,?_,rfl⟩
  · simp [ListQueue.grow,hs₁,hs₂,some_bind,Option.pure_def,hfull]
  · rw [length_replicate] at hlen
    refine holds_prefix xs _ (by rw [hlen,hk,pow_succ 2 (k+1)]) (by omega) fun j hj => ?_
    rw [hget]
    split_ifs
    · rfl
    · exact getElem?_replicate_eq (by omega) xs (by omega)

lemma View.growIfFull (h : View null q xs) (hne : xs ≠ []) : ∃ q', growIfFull null q = some q' ∧
      Holds null q' xs ∧ q'.modificationCount = q.modificationCount := by
  have hpos := length_pos_iff.2 hne
  have hiff := h.tail_eq_head
  unfold ListQueue.growIfFull
  split_ifs with hf
  · exact h.grow (by omega)
  · have := h.le
    exact ⟨q,rfl,⟨h,by omega⟩,rfl⟩

lemma getD_concat (xs : List E) (e : E) (p : ℕ) :
    (xs ++ [e]).getD p null = if p = xs.length then e else xs.getD p null := by
  rcases lt_trichotomy p xs.length with hp | rfl | hp
  · rw [if_neg hp.ne,getD_append _ _ _ _ hp]
  · simp
  · rw [if_neg hp.ne',getD_eq_default _ _ (by simp; omega),getD_eq_default _ _ hp.le]

lemma Holds.add (h : Holds null q xs) (e : E) :
    ∃ q', add null q e = some q' ∧ Holds null q' (xs ++ [e]) := by
  have hh := h.head_lt
  have hview : View null { q with table := q.table.set (q.slot xs.length) e, tail := q.next q.tail }
      (xs ++ [e]) := by
    refine ⟨by simpa using h.size,by simpa using hh,?_,by simpa using h.room,fun p hp => ?_⟩
    · simp only [h.tail_eq,next_slot hh h.room]
      simp
    · simp only [length_set] at hp
      rw [cell_set hh h.room e _ _ hp,getD_concat,h.cells p hp]
      split_ifs <;> rfl
  obtain ⟨q',hq',hold, -⟩ := hview.growIfFull (by simp)
  refine ⟨_,?_,hold.modified (q'.modificationCount+1)⟩
  have hassign := assign_slot hh xs.length e
  rw [← h.tail_eq] at hassign hq'
  simp [ListQueue.add,hassign,hq',some_bind,Option.pure_def]

lemma slot_of_prev (q' : Queue E) (hh : q.head < q.table.length)
    (hlen : q'.table.length = q.table.length) (hhead : q'.head = q.prev q.head) :
    q'.head < q'.table.length ∧ ∀ p < q.table.length, q'.slot (p+1) = q.slot p := by
  have hprev : q.prev q.head = q.slot (q.table.length-1) := by
    have := prev_slot hh (show q.table.length-1 < q.table.length by omega)
    rw [Nat.sub_add_cancel (by omega)] at this
    rw [← this]
    congr 1
    simp [slot,Nat.mod_eq_of_lt hh]
  have hlt : q'.head < q'.table.length := by
    rw [hhead,hlen,hprev]
    exact slot_lt hh _
  refine ⟨hlt,fun p hp => ?_⟩
  rw [slot,slot,hlen,hhead,hprev,slot_cases hh (by omega)]
  split_ifs with hc
  · have h0 : q.head = 0 := by omega
    rw [h0,show 0+(q.table.length-1)+(p+1) = p+q.table.length by omega,add_mod_right,zero_add]
  · rw [show q.head+(q.table.length-1)-q.table.length+(p+1) = q.head+p by omega]

lemma getD_cons_eq (xs : List E) (e : E) (p : ℕ) :
    (e :: xs).getD p null = if p = 0 then e else xs.getD (p-1) null := by
  cases p <;> simp

lemma Holds.addFirst (h : Holds null q xs) (e : E) :
    ∃ q', addFirst null q e = some q' ∧ Holds null q' (e :: xs) := by
  have hh := h.head_lt
  have hroom := h.room
  -- the table before the write, seen from the new head
  obtain ⟨hlt,hslot⟩ := slot_of_prev { q with head := q.prev q.head } hh rfl rfl
  have hview : View null { q with head := q.prev q.head, table := q.table.set (q.prev q.head) e }
      (e :: xs) := by
    refine ⟨by simpa using h.size,by simpa using hlt,?_,by simpa using h.room,fun p hp => ?_⟩
    · rw [h.tail_eq,← hslot _ hroom]
      simp [slot]
    · simp only [length_set] at hp
      have hset := cell_set hlt (p := 0) (by omega) e q.tail q.modificationCount hp
      rw [slot_zero hlt] at hset
      rw [hset,getD_cons_eq]
      split_ifs with hp0
      · rfl
      · have hc := h.cells (p-1) (by omega)
        rw [cell,← hslot _ (by omega),Nat.sub_add_cancel (by omega)] at hc
        exact hc
  obtain ⟨q',hq',hold, -⟩ := hview.growIfFull (by simp)
  refine ⟨_,?_,hold.modified (q'.modificationCount+1)⟩
  have hassign : assign q.table (q.prev q.head) e = some (q.table.set (q.prev q.head) e) :=
    if_pos hlt
  simp [ListQueue.addFirst,hassign,hq',some_bind,Option.pure_def]

lemma slot_of_next (q' : Queue E) (hh : q.head < q.table.length)
    (hlen : q'.table.length = q.table.length) (hhead : q'.head = q.next q.head) :
    q'.head < q'.table.length ∧ (∀ p < q.table.length, q'.slot p = q.slot (p+1)) ∧
      q'.slot (q.table.length-1) = q.head := by
  have hnext : q.next q.head = q.slot 1 := by
    rw [← next_slot hh (by omega),slot_zero hh]
  have hlt : q'.head < q'.table.length := by
    rw [hhead,hlen,hnext]
    exact slot_lt hh _
  have hslot : ∀ p < q.table.length, q'.slot p = q.slot (p+1) := by
    intro p hp
    rw [slot,slot,hlen,hhead,hnext,slot,mod_add_mod,add_assoc,add_comm 1]
  refine ⟨hlt,hslot,?_⟩
  rw [hslot _ (by omega),Nat.sub_add_cancel (by omega),slot,Nat.add_mod_right,
    Nat.mod_eq_of_lt hh]

lemma holds_of_next {q q' : Queue E} {ys : List E} (hsize : ∃ k, q.table.length = 2^(k+1))
    (hh : q.head < q.table.length) (htable : q'.table.length = q.table.length)
    (hhead : q'.head = q.next q.head) (htail : q'.tail = q.slot (ys.length+1))
    (hlt : ys.length < q.table.length) (hget : ∀ p < q.table.length,
      q'.table[q.slot p]? = if p = 0 then some null else some (ys.getD (p-1) null)) :
    Holds null q' ys := by
  obtain ⟨hhead_lt,hslot,hlast⟩ := slot_of_next q' hh htable hhead
  refine ⟨⟨by rwa [htable],hhead_lt,by rw [htail,hslot _ hlt],by omega,fun p hp => ?_⟩,by omega⟩
  rw [htable] at hp
  unfold cell
  by_cases hp1 : p+1 < q.table.length
  · rw [hslot p hp,hget _ hp1,if_neg (by omega),Nat.add_sub_cancel]
  · obtain rfl : p = q.table.length-1 := by omega
    rw [hlast,← slot_zero hh,hget 0 (by omega),if_pos rfl,getD_eq_default _ _ (by omega)]

lemma Holds.removeFirst {x : E} (h : Holds null q (x :: xs)) :
    ∃ q', removeFirst null q = some (q',.element x) ∧ Holds null q' xs := by
  have hh := h.head_lt
  have hne : q.head ≠ q.tail := fun he => by simpa using h.empty_iff.1 he
  have hget : q.table[q.head]? = some x := by
    have := h.cells 0 (by omega)
    rwa [cell,slot_zero hh] at this
  have hassign : assign q.table q.head null = some (q.table.set q.head null) := if_pos hh
  refine ⟨⟨q.table.set q.head null,q.next q.head,q.tail,q.modificationCount+1⟩,?_,?_⟩
  · simp [ListQueue.removeFirst,if_neg hne,hget,hassign,some_bind,Option.pure_def]
  · have hroom := h.room
    simp only [length_cons] at hroom
    refine holds_of_next h.size hh (by simp) rfl h.tail_eq (by omega) fun p hp => ?_
    have hcell := cell_set hh (p := 0) (by omega) null q.tail q.modificationCount hp
    rw [slot_zero hh,h.cells p hp,getD_cons_eq,cell] at hcell
    rw [slot_set] at hcell
    rw [hcell]
    split_ifs <;> rfl

lemma getD_dropLast (xs : List E) (p : ℕ) :
    xs.dropLast.getD p null = if p+1 = xs.length then null else xs.getD p null := by
  simp only [getD_eq_getElem?_getD,getElem?_dropLast]
  split_ifs with h1 h2 h2
  · omega
  · rfl
  · rfl
  · rw [getElem?_eq_none (by omega)]

lemma Holds.removeLast (h : Holds null q xs) (hne : xs ≠ []) :
    ∃ q', removeLast null q = some (q',.element (xs.getLast hne)) ∧ Holds null q' xs.dropLast := by
  have hh := h.head_lt
  have hroom := h.room
  have hpos := length_pos_iff.2 hne
  have hne' : q.head ≠ q.tail := fun he => hne (h.empty_iff.1 he)
  have hprev : q.prev q.tail = q.slot (xs.length-1) := by
    rw [h.tail_eq,← prev_slot hh (show xs.length-1 < q.table.length by omega),
      Nat.sub_add_cancel hpos]
  have hget : q.table[q.slot (xs.length-1)]? = some (xs.getLast hne) := by
    have := h.toView.cell_eq (show xs.length-1 < xs.length by omega)
    rw [cell] at this
    rw [this,getElem?_eq_getElem (by omega),getLast_eq_getElem]
  refine ⟨⟨q.table.set (q.slot (xs.length-1)) null,q.head,q.slot (xs.length-1),
    q.modificationCount+1⟩,?_,?_⟩
  · simp [ListQueue.removeLast,if_neg hne',hprev,hget,assign_slot hh,some_bind,Option.pure_def]
  · refine ⟨⟨by simpa using h.size,by simpa using hh,by simp,by simp; omega,
      fun p hp => ?_⟩,by simp; omega⟩
    simp only [length_set] at hp
    rw [cell_set hh (by omega) null _ _ hp,getD_dropLast,h.cells p hp]
    by_cases hpe : p = xs.length-1
    · rw [if_pos hpe,if_pos (by omega)]
    · rw [if_neg hpe,if_neg (by omega)]

end DartSdk.ListQueue
