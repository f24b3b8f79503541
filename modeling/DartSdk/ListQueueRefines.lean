import DartSdk.ListQueueView

/-! Bulk operations and loops over the table; every operation of a history answers as the sequence
does. -/
namespace DartSdk.ListQueue
open Iteration List Nat Queue

variable {E : Type} {null : E}
variable {q : Queue E} {xs : List E}

section Shift

/-- A loop leaves `c p` at each position `p`. -/
def Queue.Becomes (q : Queue E) (c : ℕ → Option E) (table : List E) : Prop :=
  table.length = q.table.length ∧ ∀ r < q.table.length, table[q.slot r]? = c r

/-- The rest of a loop after a write. -/
lemma Queue.Becomes.of_set {i : ℕ} {e : E} {c c' : ℕ → Option E} {table : List E}
    (h : Queue.Becomes { q with table := q.table.set i e } c table)
    (hc : ∀ r < q.table.length, c r = c' r) : q.Becomes c' table := by
  simp only [Queue.Becomes,slot_set,length_set] at h ⊢
  exact ⟨h.1,fun r hr => (h.2 r hr).trans (hc r hr)⟩

lemma exists_cell (hh : q.head < q.table.length) (p : ℕ) : ∃ e, q.cell p = some e :=
  ⟨_,getElem?_eq_getElem (slot_lt hh p)⟩

lemma shiftFromHead_spec (fuel p : ℕ) : ∀ {q : Queue E}, q.head < q.table.length →
    p < q.table.length → p < fuel →
    ∃ table, shiftFromHead q fuel (q.slot p) = some { q with table := table } ∧
      q.Becomes (fun r => if 0 < r ∧ r ≤ p then q.cell (r-1) else q.cell r) table := by
  induction p generalizing fuel with
  | zero =>
    intro q hh hp hf
    obtain ⟨fuel,rfl⟩ := exists_fuel fuel
    exact ⟨q.table,by simp [shiftFromHead,slot_zero hh],rfl,fun r _ => (if_neg (by omega)).symm⟩
  | succ p ih =>
    intro q hh hp hf
    obtain ⟨fuel,rfl⟩ := exists_fuel fuel
    have hne := slot_ne hh hp (by omega) (succ_ne_zero p)
    rw [slot_zero hh] at hne
    obtain ⟨e,he⟩ := exists_cell hh p
    obtain ⟨table,hs,htable⟩ := ih fuel
      (q := { q with table := q.table.set (q.slot (p+1)) e }) (by simpa using hh) (by simp; omega)
      (by omega)
    refine ⟨table,?_,htable.of_set fun r hr => ?_⟩
    · rw [slot_set] at hs
      rw [cell] at he
      simp [shiftFromHead,if_neg hne,prev_slot hh (show p < q.table.length by omega),he,
        assign_slot hh,some_bind,hs]
    · rw [cell_set hh hp e _ _ hr,cell_set hh hp e _ _ (by omega)]
      grind

lemma shiftFromTail_spec (fuel d : ℕ) : ∀ {q : Queue E} {p m : ℕ}, q.head < q.table.length →
    q.tail = q.slot m → p+d = m → m < q.table.length → d < fuel →
    ∃ table, shiftFromTail q fuel (q.slot p) = some { q with table := table } ∧
      q.Becomes (fun r => if p ≤ r ∧ r < m then q.cell (r+1) else q.cell r) table := by
  induction d generalizing fuel with
  | zero =>
    intro q p m hh htail hpm hm hf
    obtain ⟨fuel,rfl⟩ := exists_fuel fuel
    obtain rfl : p = m := by omega
    exact ⟨q.table,by rw [← htail]; simp [shiftFromTail],rfl,fun r _ => (if_neg (by omega)).symm⟩
  | succ d ih =>
    intro q p m hh htail hpm hm hf
    obtain ⟨fuel,rfl⟩ := exists_fuel fuel
    have hp : p < q.table.length := by omega
    have hne := slot_ne hh hp hm (by omega)
    rw [← htail] at hne
    obtain ⟨e,he⟩ := exists_cell hh (p+1)
    obtain ⟨table,hs,htable⟩ := ih fuel
      (q := { q with table := q.table.set (q.slot p) e }) (p := p+1) (by simpa using hh)
      (by rwa [slot_set]) (by omega) (by simpa using hm) (by omega)
    refine ⟨table,?_,htable.of_set fun r hr => ?_⟩
    · rw [slot_set] at hs
      rw [cell] at he
      simp [shiftFromTail,if_neg hne,next_slot hh hp,he,assign_slot hh,some_bind,hs]
    · by_cases hpr : p+1 ≤ r ∧ r < m
      · rw [if_pos hpr,if_pos (by omega),cell_set hh hp e _ _ (by omega),if_neg (by omega)]
      · rw [if_neg hpr,cell_set hh hp e _ _ hr]
        grind

end Shift

lemma getD_eraseIdx (xs : List E) (j p : ℕ) :
    (xs.eraseIdx j).getD p null = if p < j then xs.getD p null else xs.getD (p+1) null := by
  simp only [getD_eq_getElem?_getD,getElem?_eraseIdx]
  split_ifs <;> rfl

lemma Holds.removeAt (h : Holds null q xs) {j : ℕ} (hj : j < xs.length) : ∃ q',
      removeAt null q (q.slot j) = some (q',q'.slot j) ∧ Holds null q' (xs.eraseIdx j) ∧
      q'.modificationCount = q.modificationCount ∧ q'.table.length = q.table.length := by
  have hh := h.head_lt
  have hroom := h.room
  have hstart : andMask ((q.slot j : ℤ)-q.head) q.mask = j := by
    have := andMask_slot (q := q) (Nat.zero_le j) (by omega)
    rwa [slot_zero hh,Nat.sub_zero] at this
  have hend : andMask ((q.tail : ℤ)-q.slot j) q.mask = xs.length-j := by
    rw [h.tail_eq]
    exact andMask_slot hj.le (by omega)
  have hlen : (xs.eraseIdx j).length = xs.length-1 := length_eraseIdx_of_lt hj
  unfold ListQueue.removeAt
  simp only [hstart,hend]
  by_cases hlt : j < xs.length-j
  · obtain ⟨table,hs,htl,hget⟩ := shiftFromHead_spec q.table.length j hh (by omega) (by omega)
    have hassign : assign table q.head null = some (table.set q.head null) :=
      if_pos (by rw [htl]; exact hh)
    have hmask : ∀ t : List E, t.length = table.length → ∀ i,
        next { q with table := t } i = q.next i := by
      intro t ht i
      simp only [Queue.next,Queue.mask,ht,htl]
    refine ⟨{ q with table := table.set q.head null, head := q.next q.head },?_,?_,rfl,by simp [htl]⟩
    · simp only [if_pos hlt,hs,hassign,some_bind,Option.pure_def,hmask table rfl]
      rw [next_slot hh (by omega)]
      obtain ⟨-,hsl, -⟩ := slot_of_next { q with
        table := table.set q.head null, head := q.next q.head } hh (by simp [htl]) rfl
      rw [hsl j (by omega)]
    · refine holds_of_next h.size hh (by simp [htl]) rfl ?_ (by omega) fun p hp => ?_
      · rw [hlen,Nat.sub_add_cancel (by omega)]
        exact h.tail_eq
      · by_cases hp0 : p = 0
        · rw [hp0,slot_zero hh,if_pos rfl,getElem?_set_self (by omega)]
        · have hne := slot_ne hh (by omega) hp (Ne.symm hp0)
          rw [slot_zero hh] at hne
          rw [if_neg hp0,getElem?_set_ne hne,hget p hp,getD_eraseIdx,Nat.sub_add_cancel (by omega)]
          dsimp only
          split_ifs
          · exact h.cells _ (by omega)
          · omega
          · omega
          · exact h.cells p hp
  · have hprev : q.prev q.tail = q.slot (xs.length-1) := by
      rw [h.tail_eq,← prev_slot hh (show xs.length-1 < q.table.length by omega),
        Nat.sub_add_cancel (by omega)]
    obtain ⟨table,hs,htl,hget⟩ := shiftFromTail_spec q.table.length (xs.length-1-j)
      (q := { q with tail := q.slot (xs.length-1) }) (p := j) hh rfl (by omega)
      (show xs.length-1 < q.table.length by omega) (by omega)
    have hassign : assign table (q.slot (xs.length-1)) null =
        some (table.set (q.slot (xs.length-1)) null) := if_pos (by rw [htl]; exact slot_lt hh _)
    have hslot : ∀ p, slot ⟨table.set (q.slot (xs.length-1)) null,q.head,
        q.slot (xs.length-1),q.modificationCount⟩ p = q.slot p := by
      intro p
      simp [slot,htl]
    refine ⟨⟨table.set (q.slot (xs.length-1)) null,q.head,q.slot (xs.length-1),
      q.modificationCount⟩,?_,?_,rfl,by simp [htl]⟩
    · rw [hslot]
      simp only [if_neg hlt,hprev]
      rw [show q.slot j = slot { q with tail := q.slot (xs.length-1) } j from rfl,hs]
      simp [hassign,some_bind,Option.pure_def]
    · refine ⟨⟨by simpa [htl] using h.size,by simpa [htl] using hh,by rw [hslot,hlen],by simp [htl]; omega,
        fun p hp => ?_⟩,by simp [htl]; omega⟩
      simp only [length_set,htl] at hp
      rw [cell,hslot,getD_eraseIdx]
      by_cases hpe : p = xs.length-1
      · rw [hpe,getElem?_set_self (by rw [htl]; exact slot_lt hh _),if_neg (by omega),
          getD_eq_default _ _ (by omega)]
      · have hne := slot_ne hh (by omega) hp (Ne.symm hpe)
        have hcell := hget p hp
        change table[q.slot p]? = if j ≤ p ∧ p < xs.length-1 then q.cell (p+1) else q.cell p at hcell
        rw [getElem?_set_ne hne,hcell]
        by_cases hpj : p < j
        · rw [if_neg (by omega),if_pos hpj,h.cells p hp]
        · rw [if_neg hpj]
          by_cases hpm : p < xs.length-1
          · rw [if_pos ⟨by omega,hpm⟩,h.cells _ (by omega)]
          · rw [if_neg (by omega),h.cells p hp,getD_eq_default _ _ (by omega),
              getD_eq_default _ _ (by omega)]

lemma Holds.current {ys zs : List E} {z : E} (h : Holds null q (ys ++ z :: zs)) : ys.length <
      (ys ++ z :: zs).length ∧ q.slot ys.length ≠ q.tail ∧ q.table[q.slot ys.length]? = some z ∧
      q.next (q.slot ys.length) = q.slot (ys ++ [z]).length ∧ Holds null q ((ys ++ [z]) ++ zs) := by
  have hlt : ys.length < (ys ++ z :: zs).length := by simp
  have hget := h.toView.cell_eq hlt
  rw [cell,getElem?_append_right le_rfl,Nat.sub_self] at hget
  exact ⟨hlt,h.slot_ne_tail hlt,hget,by simpa using next_slot h.head_lt (hlt.trans h.room),
    by simpa using h⟩

lemma Holds.passed {ys : List E} (h : Holds null q (ys ++ [])) : q.slot ys.length = q.tail := by
  rw [h.tail_eq,append_nil]

lemma removeLoop_spec (equals : E → Bool) (zs : List E) : ∀ {q : Queue E} {ys : List E} {fuel : ℕ},
    Holds null q (ys ++ zs) → (∀ y ∈ ys, ¬ equals y = true) → zs.length < fuel →
    ∃ q', removeLoop null q equals fuel (q.slot ys.length) = some (q',zs.any equals) ∧
      Holds null q' (ys ++ zs.eraseP equals) := by
  induction zs with
  | nil =>
    intro q ys fuel h _ hf
    obtain ⟨fuel,rfl⟩ := exists_fuel fuel
    exact ⟨q,by simp [removeLoop,h.passed],h⟩
  | cons z zs ih =>
    intro q ys fuel h hys hf
    obtain ⟨fuel,rfl⟩ := exists_fuel fuel
    obtain ⟨hlt,hne,hget,hnext,h'⟩ := h.current
    by_cases hz : equals z = true
    · obtain ⟨q',hr,hold, -, -⟩ := h.removeAt hlt
      rw [eraseIdx_append_of_length_le le_rfl,Nat.sub_self,eraseIdx_cons_zero] at hold
      rw [eraseP_cons_of_pos hz]
      refine ⟨_,?_,hold.modified (q'.modificationCount+1)⟩
      simp [removeLoop,if_neg hne,hget,hz,hr,some_bind,Option.pure_def,
        any_cons,Bool.true_or]
    · have hys' : ∀ y ∈ ys ++ [z], ¬ equals y = true := by simpa [or_imp,forall_and,hz] using hys
      obtain ⟨q',hr,hold⟩ := ih h' hys' (by simp at hf; omega)
      refine ⟨q',?_,by simpa [eraseP_cons_of_neg hz] using hold⟩
      have hz' : equals z = false := Bool.eq_false_iff.2 hz
      simp only [removeLoop,if_neg hne,hget,hz',Bool.false_eq_true,if_false,some_bind,hnext,
        hr,any_cons,Bool.false_or]

lemma Holds.remove (h : Holds null q xs) (equals : E → Bool) :
    ∃ q', remove null q equals = some (q',xs.any equals) ∧ Holds null q' (xs.eraseP equals) := by
  have := removeLoop_spec equals xs (show Holds null q ([] ++ xs) from h) (by simp) h.room
  rwa [length_nil,slot_zero h.head_lt] at this

lemma filterLoop_spec (test : E → Bool) (removeMatching : Bool) (zs : List E) :
    ∀ {q : Queue E} {ys : List E} {fuel : ℕ}, Holds null q (ys ++ zs) → zs.length < fuel →
    ∃ q', filterLoop null test removeMatching fuel q q.modificationCount (q.slot ys.length) = some q' ∧
      Holds null q' (ys ++ zs.filter fun e => !(removeMatching == test e)) := by
  induction zs with
  | nil =>
    intro q ys fuel h hf
    obtain ⟨fuel,rfl⟩ := exists_fuel fuel
    exact ⟨q,by simp [filterLoop,h.passed],h⟩
  | cons z zs ih =>
    intro q ys fuel h hf
    obtain ⟨fuel,rfl⟩ := exists_fuel fuel
    obtain ⟨hlt,hne,hget,hnext,h'⟩ := h.current
    have hfuel : zs.length < fuel := by
      simp at hf
      omega
    by_cases hz : (removeMatching == test z) = true
    · obtain ⟨q₁,hr,hold, -, -⟩ := h.removeAt hlt
      rw [eraseIdx_append_of_length_le le_rfl,Nat.sub_self,eraseIdx_cons_zero] at hold
      obtain ⟨q',hf',hold'⟩ := ih (hold.modified (q₁.modificationCount+1)) hfuel
      refine ⟨q',?_,by simpa [hz] using hold'⟩
      have hslot : slot { q₁ with modificationCount := q₁.modificationCount+1 } ys.length =
          q₁.slot ys.length := rfl
      rw [hslot] at hf'
      simp only [filterLoop,if_neg hne,hget,ne_eq,not_true_eq_false,if_false,if_pos hz,hr,
        some_bind,hf']
    · obtain ⟨q',hf',hold'⟩ := ih h' hfuel
      refine ⟨q',?_,by simpa [hz] using hold'⟩
      simp only [filterLoop,if_neg hne,hget,ne_eq,not_true_eq_false,if_false,if_neg hz,
        some_bind,hnext,hf']

lemma Holds.filterWhere (h : Holds null q xs) (test : E → Bool)
    (removeMatching : Bool) : ∃ q', filterWhere null q test removeMatching = some q' ∧
      Holds null q' (xs.filter fun e => !(removeMatching == test e)) := by
  have := filterLoop_spec test removeMatching xs (show Holds null q ([] ++ xs) from h) h.room
  rwa [length_nil,slot_zero h.head_lt] at this

lemma clearLoop_spec (null : E) (d : ℕ) : ∀ {q : Queue E} {p n fuel : ℕ}, q.head < q.table.length →
    q.tail = q.slot n → n < q.table.length → p+d = n → d < fuel →
    ∃ table, clearLoop null q fuel (q.slot p) = some { q with table := table } ∧
      q.Becomes (fun r => if p ≤ r ∧ r < n then some null else q.cell r) table := by
  induction d with
  | zero =>
    intro q p n fuel hh htail hn hp hf
    obtain ⟨fuel,rfl⟩ := exists_fuel fuel
    obtain rfl : p = n := by omega
    exact ⟨q.table,by rw [← htail]; simp [clearLoop],rfl,fun r _ => (if_neg (by omega)).symm⟩
  | succ d ih =>
    intro q p n fuel hh htail hn hp hf
    obtain ⟨fuel,rfl⟩ := exists_fuel fuel
    have hp' : p < q.table.length := by omega
    have hne := slot_ne hh hp' hn (by omega)
    rw [← htail] at hne
    obtain ⟨table,hs,htable⟩ := ih (q := { q with table := q.table.set (q.slot p) null })
      (p := p+1) (by simpa using hh) (by rwa [slot_set]) (by simpa using hn) (by omega)
      (show d < fuel by omega)
    refine ⟨table,?_,htable.of_set fun r hr => ?_⟩
    · rw [slot_set] at hs
      simp [clearLoop,if_neg hne,next_slot hh hp',assign_slot hh,some_bind,hs]
    · rw [cell_set hh hp' null _ _ hr]
      split_ifs <;> first | rfl | omega

lemma Holds.clear (h : Holds null q xs) : ∃ q', clear null q = some q' ∧ Holds null q' [] := by
  unfold ListQueue.clear
  by_cases he : q.head = q.tail
  · rw [h.empty_iff] at he
    exact ⟨q,by simp [h.empty_iff,he],he ▸ h⟩
  · have hh := h.head_lt
    obtain ⟨table,hs,hlen,hget⟩ := clearLoop_spec null xs.length hh h.tail_eq h.room
      (zero_add _) h.room
    rw [slot_zero hh] at hs
    obtain ⟨k,hk⟩ := h.size
    refine ⟨⟨table,0,0,q.modificationCount+1⟩,?_,?_⟩
    · simp [if_pos he,hs,some_bind,Option.pure_def]
    · refine holds_prefix [] _ (hlen.trans hk) (by simp; omega) fun j hj => ?_
      obtain ⟨r,hr,rfl⟩ := exists_slot hh (hlen ▸ hj)
      rw [hget r hr]
      dsimp only
      split_ifs with hc
      · rfl
      · rw [h.cells r hr,getD_eq_default _ _ (by omega),getD_eq_default _ _ (by simp)]

lemma Holds.writeToList (h : Holds null q xs) (target : List E) (ht : xs.length ≤ target.length) :
    ∃ l, writeToList q target = some (l,xs.length) ∧ l.length = target.length ∧ ∀ j : ℕ, l[j]? =
      if j < xs.length then some (xs.getD j null) else target[j]? := by
  have hh := h.head_lt
  have hroom := h.room
  have htail := h.tail_eq
  rw [slot_cases hh h.le] at htail
  unfold ListQueue.writeToList
  by_cases hc : q.head+xs.length < q.table.length
  · rw [if_pos hc] at htail
    obtain ⟨l,hs,hlen,hget⟩ := setRange_spec target q.table q.head (zero_le xs.length) ht
      (by omega)
    refine ⟨l,?_,hlen,fun j => ?_⟩
    · rw [if_pos (by omega),show q.tail-q.head = xs.length by omega]
      simp only [hs,some_bind,Option.pure_def]
    · rw [hget]
      by_cases hj : j < xs.length
      · rw [if_pos ⟨Nat.zero_le _,hj⟩,if_pos hj,← h.cells j (by omega),cell,
          slot_cases hh (by omega),if_pos (by omega),Nat.sub_zero]
      · rw [if_neg (by omega),if_neg hj]
  · rw [if_neg hc] at htail
    obtain ⟨l₁,l₂,hs₁,hs₂,hlen,hget⟩ := unwind_spec h.toView target
      (n := q.table.length-q.head) (m := q.tail) (by omega) (by omega) (by omega)
    refine ⟨l₂,?_,hlen,fun j => ?_⟩
    · rw [if_neg (by omega)]
      simp [hs₁,hs₂,some_bind,Option.pure_def,
        show q.tail+(q.table.length-q.head) = xs.length by omega]
    · rw [hget,show q.table.length-q.head+q.tail = xs.length by omega]

lemma getD_append_eq (xs ys : List E) (j : ℕ) : (xs ++ ys).getD j null =
    if j < xs.length then xs.getD j null else ys.getD (j-xs.length) null := by
  split_ifs with h
  · exact getD_append _ _ _ _ h
  · exact getD_append_right _ _ _ _ (by omega)

lemma getElem?_eq_getD {ys : List E} {j : ℕ} (hj : j < ys.length) :
    ys[j]? = some (ys.getD j null) := by
  rw [getElem?_eq_getElem hj,getD_eq_getElem _ _ hj]

lemma Holds.extend {xs ys table : List E} (h : Holds null q xs)
    (hlt : xs.length+ys.length < q.table.length) (hlen : table.length = q.table.length)
    (hnew : ∀ d < ys.length, table[q.slot (xs.length+d)]? = ys[d]?)
    (hold : ∀ r < q.table.length, r < xs.length ∨ xs.length+ys.length ≤ r →
      table[q.slot r]? = q.cell r) :
    Holds null { q with table := table, tail := q.slot (xs.length+ys.length) } (xs ++ ys) := by
  have hslot : ∀ p, slot { q with table := table, tail := q.slot (xs.length+ys.length) } p =
      q.slot p := by
    simp [slot,hlen]
  refine ⟨⟨by simpa [hlen] using h.size,by simpa [hlen] using h.head_lt,by simp [hslot],
    by simp; omega,fun p hp => ?_⟩,by simp; omega⟩
  simp only [hlen] at hp
  rw [cell,hslot,getD_append_eq]
  by_cases h1 : p < xs.length
  · rw [if_pos h1,hold p hp (.inl h1),h.cells p hp]
  · rw [if_neg h1]
    by_cases h2 : p < xs.length+ys.length
    · have := hnew (p-xs.length) (by omega)
      rw [Nat.add_sub_cancel' (by omega)] at this
      rw [this,getElem?_eq_getD (by omega)]
    · rw [hold p hp (.inr (by omega)),h.cells p hp,getD_eq_default _ _ (by omega),
        getD_eq_default _ _ (by omega)]

lemma Holds.copyAll (h : Holds null q xs) (ys : List E) :
    ∃ q', copyAll null q ys = some q' ∧ Holds null q' (xs ++ ys) := by
  have hh := h.head_lt
  have hroom := h.room
  unfold ListQueue.copyAll
  simp only [h.length]
  split_ifs with hgrow hend
  · -- a new table with the elements at its start
    have htwo : 2 ≤ xs.length+ys.length := by
      obtain ⟨k,hk⟩ := h.size
      have := Nat.one_le_two_pow (n := k)
      rw [Nat.pow_succ] at hk
      omega
    have hshift : (xs.length+ys.length) >>> 1 = (xs.length+ys.length)/2 := by
      rw [Nat.shiftRight_eq_div_pow,Nat.pow_one]
    obtain ⟨k,hk,hle⟩ := nextPowerOf2_spec
      (show 2 ≤ xs.length+ys.length+(xs.length+ys.length) >>> 1 by omega)
    obtain ⟨l,hw,hlen,hget⟩ := h.writeToList (replicate (2^(k+1)) null) (by simp; omega)
    rw [length_replicate] at hlen
    obtain ⟨l',hs,hlen',hget'⟩ := setRange_spec l ys 0
      (le_add_right xs.length ys.length) (by omega) (by omega)
    refine ⟨⟨l',0,(xs ++ ys).length,q.modificationCount⟩,?_,?_⟩
    · simp only [preGrow,hk,hw,hs,some_bind,Option.pure_def,length_append]
    · refine holds_prefix (xs ++ ys) (k := k) _ (hlen'.trans hlen) (by rw [length_append]; omega) fun j hj => ?_
      rw [hget',hget,getD_append_eq]
      by_cases h1 : j < xs.length
      · rw [if_neg (by omega),if_pos h1,if_pos h1]
      · by_cases h2 : j < xs.length+ys.length
        · rw [if_pos (by omega),if_neg h1,zero_add,getElem?_eq_getD (by omega)]
        · rw [if_neg (by omega),if_neg h1,if_neg h1]
          exact (getElem?_replicate_eq (by omega) [] (by simp)).trans
            (by rw [getD_nil,getD_eq_default _ _ (by omega)])
  · have htail : q.slot xs.length = q.tail := h.tail_eq.symm
    obtain ⟨l,hs,hlen,hget⟩ := setRange_spec q.table ys 0 (le_add_right q.tail ys.length)
      (by omega) (by omega)
    have hadd : ∀ d ≤ ys.length, q.slot (xs.length+d) = q.tail+d := by
      intro d hd
      rw [slot_add (by omega),htail,if_pos (by omega)]
    refine ⟨_,by simp only [hs,some_bind,Option.pure_def]; rw [← hadd _ le_rfl],
      h.extend (by omega) hlen ?_ ?_⟩
    · intro d hd
      rw [hadd d hd.le,hget,if_pos (by omega)]
      simp
    · intro r hr hc
      rw [hget,if_neg,cell]
      rintro ⟨h1,h2⟩
      have := hadd (q.slot r-q.tail) (by omega)
      rw [Nat.add_sub_cancel' h1] at this
      have := slot_inj hh (by omega) hr this
      omega
  · have htail : q.slot xs.length = q.tail := h.tail_eq.symm
    have htl : q.tail < q.table.length := htail ▸ slot_lt hh _
    obtain ⟨l,hs,hlen,hget⟩ := setRange_spec q.table ys 0
      (Nat.le_add_right q.tail (q.table.length-q.tail)) (by omega) (by omega)
    obtain ⟨l',hs',hlen',hget'⟩ := setRange_spec l ys (q.table.length-q.tail)
      (zero_le (ys.length-(q.table.length-q.tail))) (by omega) (by omega)
    have hadd : ∀ d ≤ ys.length, q.slot (xs.length+d) =
        if q.tail+d < q.table.length then q.tail+d else q.tail+d-q.table.length := by
      intro d hd
      rw [slot_add (by omega),htail]
    have hnew : q.slot (xs.length+ys.length) = ys.length-(q.table.length-q.tail) := by
      rw [hadd _ le_rfl,if_neg (by omega)]
      omega
    refine ⟨_,by simp only [hs,hs',some_bind,Option.pure_def]; rw [← hnew],
      h.extend (by omega) (hlen'.trans hlen) ?_ ?_⟩
    · intro d hd
      rw [hadd d hd.le,hget',hget]
      split_ifs <;> first | omega | (congr 1; omega)
    · intro r hr hc
      have hne : ∀ d < ys.length, q.slot (xs.length+d) ≠ q.slot r := by
        intro d hd he
        have := slot_inj hh (by omega) hr he
        omega
      rw [hget',hget,if_neg,if_neg,cell]
      · rintro ⟨h1,h2⟩
        refine hne (q.slot r-q.tail) (by omega) ?_
        rw [hadd _ (by omega),if_pos (by omega)]
        omega
      · rintro ⟨h1,h2⟩
        refine hne (q.slot r+q.table.length-q.tail) (by omega) ?_
        rw [hadd _ (by omega),if_neg (by omega)]
        omega

lemma Holds.addAllList (h : Holds null q xs) (ys : List E) :
    ∃ q', addAllList null q ys = some q' ∧ Holds null q' (xs ++ ys) := by
  obtain ⟨q',hc,hold⟩ := h.copyAll ys
  exact ⟨_,by simp [ListQueue.addAllList,hc],hold.modified (q'.modificationCount+1)⟩

lemma Holds.addAllIterable (ys : List E) : ∀ {q : Queue E} {xs : List E}, Holds null q xs →
    ∃ q', addAllIterable null q ys = some q' ∧ Holds null q' (xs ++ ys) := by
  induction ys with
  | nil =>
    intro q xs h
    exact ⟨q,rfl,by simpa using h⟩
  | cons y ys ih =>
    intro q xs h
    obtain ⟨q₁,ha,h₁⟩ := h.add y
    obtain ⟨q',hf,h'⟩ := ih h₁
    exact ⟨q',by simpa [ListQueue.addAllIterable,ha] using hf,by simpa using h'⟩

lemma tableLength_spec (initialCapacity : Option ℤ) : ∃ k, tableLength initialCapacity = some (2^(k+1)) ∧
    ∀ n, initialCapacity = some n → n ≤ 2^(k+1) := by
  cases initialCapacity with
  | none => exact ⟨2,rfl,by simp⟩
  | some n =>
    unfold tableLength
    simp only [Option.some.injEq]
    split_ifs with hsmall hpow
    · have hk : kInitialCapacity = 8 := rfl
      exact ⟨2,rfl,by omega⟩
    · have hk : kInitialCapacity = 8 := rfl
      obtain ⟨k,hk',hle⟩ := nextPowerOf2_spec (show 2 ≤ n.toNat by omega)
      refine ⟨k,hk',?_⟩
      have hle' : (n.toNat : ℤ) ≤ 2^(k+1) := by exact_mod_cast hle
      omega
    · have hk : kInitialCapacity = 8 := rfl
      obtain ⟨k,hk'⟩ := isPowerOf2_spec (show 2 ≤ n.toNat by omega) (by simpa using hpow)
      refine ⟨k,by rw [hk'],?_⟩
      have hle' : (n.toNat : ℤ) = 2^(k+1) := by exact_mod_cast hk'
      omega

lemma create_holds (null : E) (initialCapacity : Option ℤ) :
    ∃ q, create null initialCapacity = some q ∧ Holds null q [] := by
  obtain ⟨k,hk, -⟩ := tableLength_spec initialCapacity
  refine ⟨⟨replicate (2^(k+1)) null,0,0,0⟩,by simp [create,hk],?_⟩
  refine holds_prefix [] (k := k) 0 (by simp) (by simp) fun j hj => ?_
  exact getElem?_replicate_eq (by simpa using hj) [] (by simp)

lemma fromList_holds (null : E) (elements : List E) :
    ∃ q, fromList null elements = some q ∧ Holds null q elements := by
  obtain ⟨k,hk,hle⟩ := tableLength_spec (some (elements.length+1))
  have hlt : elements.length < 2^(k+1) := by
    have := hle _ rfl
    exact_mod_cast this
  obtain ⟨l,hs,hlen,hget⟩ := setRange_spec (replicate (2^(k+1)) null) elements 0
    (zero_le elements.length) (by simp; omega) (by omega)
  refine ⟨⟨l,0,elements.length,0⟩,by simp [fromList,create,hk,hs],?_⟩
  rw [length_replicate] at hlen
  refine holds_prefix elements 0 hlen (by omega) fun j hj => ?_
  rw [hget]
  split_ifs with hc
  · rw [Nat.zero_add,Nat.sub_zero,getElem?_eq_getD hc.2]
  · exact getElem?_replicate_eq (by omega) elements (by omega)

lemma fromIterable_holds (null : E) (elements : List E) (efficient : Bool) :
    ∃ q, fromIterable null elements efficient = some q ∧ Holds null q elements := by
  obtain ⟨q,hq,h⟩ := create_holds null
    (some ((if efficient then elements.length else kInitialCapacity : ℕ) : ℤ))
  obtain ⟨q',hq',h'⟩ := Holds.addAllIterable elements h
  refine ⟨q',?_,by simpa using h'⟩
  simp only [fromIterable,hq,some_bind,hq']

lemma Holds.toList (h : Holds null q xs) : toList null q = some xs := by
  obtain ⟨l,hw,hlen,hget⟩ := h.writeToList (replicate xs.length null) (by simp)
  have hl : l = xs := by
    refine ext_getElem? fun j => ?_
    rw [hget]
    split_ifs with hj
    · rw [getElem?_eq_getD hj]
    · rw [getElem?_eq_none (by simp; omega),getElem?_eq_none (by omega)]
  simp [ListQueue.toList,h.length,hw,hl]

lemma iterate_spec (zs : List E) : ∀ {ys : List E} {fuel : ℕ},
    Holds null q (ys ++ zs) → zs.length < fuel →
    iterate q fuel ⟨q.tail,q.modificationCount,q.slot ys.length⟩ = some zs := by
  induction zs with
  | nil =>
    intro ys fuel h hf
    obtain ⟨fuel,rfl⟩ := exists_fuel fuel
    simp [iterate,moveNext,h.passed]
  | cons z zs ih =>
    intro ys fuel h hf
    obtain ⟨fuel,rfl⟩ := exists_fuel fuel
    obtain ⟨-,hne,hget,hnext,h'⟩ := h.current
    have hrest := ih h' (by simp at hf; omega)
    simp only [iterate,moveNext,ne_eq,not_true_eq_false,if_false,hne,hget,hnext,some_bind,
      Option.pure_def,hrest]

lemma Holds.iterate (h : Holds null q xs) : iterate q (q.length+1) (iterator q) = some xs := by
  have := iterate_spec xs (show Holds null q ([] ++ xs) from h) (lt_succ_self _)
  rwa [length_nil,slot_zero h.head_lt,← h.length] at this

lemma Holds.elementAt (h : Holds null q xs) (index : ℤ) :
    elementAt q index = some (if hi : 0 ≤ index ∧ index < xs.length then
      .element (xs[index.toNat]) else .rangeError) := by
  unfold ListQueue.elementAt
  rw [h.length]
  by_cases hi : 0 ≤ index ∧ index < xs.length
  · obtain ⟨n,rfl⟩ := Int.eq_ofNat_of_zero_le hi.1
    have hn : n < xs.length := by exact_mod_cast hi.2
    have hslot : andMask ((q.head : ℤ)+n) q.mask = q.slot n := by
      refine andMask_eq (by have := h.head_lt; omega) ?_
      exact_mod_cast rfl
    have hget : q.table[q.slot n]? = some xs[n] := by
      rw [← getElem?_eq_getElem hn]
      exact h.toView.cell_eq hn
    rw [if_neg (by omega),dif_pos hi,hslot,hget]
    rfl
  · rw [if_pos (by omega),dif_neg hi]

def spec (xs : List E) : Op E → List E × Answer E
  | .addLast value => (xs ++ [value],.done)
  | .addFirst value => (value :: xs,.done)
  | .addAllList list => (xs ++ list,.done)
  | .addAllIterable elements => (xs ++ elements,.done)
  | .removeFirst =>
    match xs with
    | [] => ([],.noElement)
    | x :: xs => (xs,.element x)
  | .removeLast => if h : xs = [] then ([],.noElement) else (xs.dropLast,.element (xs.getLast h))
  | .remove equals => (xs.eraseP equals,.flag (xs.any equals))
  | .removeWhere test => (xs.filter fun e => !test e,.done)
  | .retainWhere test => (xs.filter test,.done)
  | .clear => ([],.done)
  | .length => (xs,.count xs.length)
  | .elementAt index =>
    (xs,if h : 0 ≤ index ∧ index < xs.length then .element (xs[index.toNat]) else .rangeError)
  | .toList => (xs,.list xs)
  | .iterate => (xs,.list xs)

/-- The sequence that a constructor starts with. -/
def Constructor.elements : Constructor E → List E
  | create _ => []
  | fromList elements => elements
  | fromIterable elements _ => elements

lemma build_holds (null : E) (c : Constructor E) :
    ∃ q, c.build null = some q ∧ Holds null q c.elements := by
  cases c with
  | create initialCapacity => exact create_holds null initialCapacity
  | fromList elements => exact fromList_holds null elements
  | fromIterable elements efficient => exact fromIterable_holds null elements efficient

lemma step_refines (q : Queue E) (xs : List E) (op : Op E) (h : Holds null q xs) :
    ∃ q', step null q op = some (q',(spec xs op).2) ∧ Holds null q' (spec xs op).1 := by
  cases op with
  | addLast value =>
    obtain ⟨q',hq,h'⟩ := h.add value
    exact ⟨q',by simp [step,hq,spec],h'⟩
  | addFirst value =>
    obtain ⟨q',hq,h'⟩ := h.addFirst value
    exact ⟨q',by simp [step,hq,spec],h'⟩
  | addAllList list =>
    obtain ⟨q',hq,h'⟩ := h.addAllList list
    exact ⟨q',by simp [step,hq,spec],h'⟩
  | addAllIterable elements =>
    obtain ⟨q',hq,h'⟩ := Holds.addAllIterable elements h
    exact ⟨q',by simp [step,hq,spec],h'⟩
  | removeFirst =>
    cases xs with
    | nil => exact ⟨q,by simp [step,removeFirst,h.empty_iff,spec],h⟩
    | cons x xs => exact h.removeFirst
  | removeLast =>
    by_cases hne : xs = []
    · subst hne
      exact ⟨q,by simp [step,removeLast,h.empty_iff,spec],h⟩
    · simp only [spec,dif_neg hne]
      exact h.removeLast hne
  | remove equals =>
    obtain ⟨q',hq,h'⟩ := h.remove equals
    exact ⟨q',by simp [step,hq,spec],h'⟩
  | removeWhere test =>
    obtain ⟨q',hq,h'⟩ := h.filterWhere test true
    exact ⟨q',by simp [step,hq,spec],by simpa [spec] using h'⟩
  | retainWhere test =>
    obtain ⟨q',hq,h'⟩ := h.filterWhere test false
    exact ⟨q',by simp [step,hq,spec],by simpa [spec] using h'⟩
  | clear =>
    obtain ⟨q',hq,h'⟩ := h.clear
    exact ⟨q',by simp [step,hq,spec],h'⟩
  | length => exact ⟨q,by simp [step,h.length,spec],h⟩
  | elementAt index =>
    exact ⟨q,by simp [step,h.elementAt index,some_bind,Option.pure_def,spec],h⟩
  | toList => exact ⟨q,by simp [step,h.toList,spec],h⟩
  | iterate => exact ⟨q,by simp [step,h.iterate,spec],h⟩

/-- The slots from the head up to the tail. -/
def Queue.live (q : Queue E) (i : ℕ) : Prop := andMask (i-q.head) q.mask < q.length

lemma Holds.null_of_not_live (h : Holds null q xs) {i : ℕ}
    (hi : i < q.table.length) (hlive : ¬ q.live i) : q.table[i]? = some null := by
  have hh := h.head_lt
  obtain ⟨r,hr,rfl⟩ := exists_slot hh hi
  have hdist := andMask_slot (Nat.zero_le r) (by omega)
  rw [slot_zero hh,Nat.sub_zero] at hdist
  rw [live,hdist,h.length,not_lt] at hlive
  have := h.cells r hr
  rwa [cell,getD_eq_default _ _ hlive] at this

/-- Whatever constructor made the queue, every history answers as the sequence does. In the
state that it leaves, the table length is a power of two, a slot is free and the slots outside
the live segment are `null`. -/
theorem history_sequence (null : E) (c : Constructor E) (ops : List (Op E)) :
    ∃ q₀ q, c.build null = some q₀ ∧ run (step null) q₀ ops = some (q,(exec spec c.elements ops).2) ∧
      (∃ k, q.table.length = 2^k) ∧ q.length < q.table.length ∧
      ∀ i < q.table.length, ¬ q.live i → q.table[i]? = some null := by
  obtain ⟨q₀,hb,h₀⟩ := build_holds null c
  have hlegal : ∀ (os : List (Op E)) a, Legal (fun _ _ => True) spec a os := by
    intro os
    induction os with
    | nil => exact fun _ => trivial
    | cons o os ih => exact fun a => ⟨trivial,ih _⟩
  obtain ⟨q,hrun,h⟩ := run_refines (Holds null) (fun q xs op hq _ => step_refines q xs op hq) ops h₀
    (hlegal ops c.elements)
  obtain ⟨k,hk⟩ := h.size
  exact ⟨q₀,q,hb,hrun,⟨k+1,hk⟩,by rw [h.length]; exact h.room,fun i => h.null_of_not_live⟩

end DartSdk.ListQueue
