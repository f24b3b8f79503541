import DartSdk.HashTableInvariant

/-! The iterators enumerate every occupied entry once, so `Copy` rebuilds the same map;
`EnsureLoadFactor` leaves room for one more key. -/
namespace DartSdk.HashTable
open LinearProbing List

variable {Key A : Type} {T : KeyTraits Key A} {sh : Shape} {data dst : List (RawObject A)}
  {N n m i : ℕ} {F G : T.Class → Option (RawObject A × List (RawObject A))}
variable {xs : List (ℤ × ℕ)} {j : ℕ}

lemma Inv.mono (hi : Inv T sh N n data F) {N' : ℕ} (h : N ≤ N') : Inv T sh N' n data F := by
  refine ⟨hi.slots,hi.occupied,hi.deleted,hi.room,hi.size_le.trans h,fun he => ?_⟩
  obtain ⟨next,hnext,hE⟩ := hi.enum he
  exact ⟨next,hnext.trans h,hE⟩

lemma initializeTable_cells (hlen : sh.arrayLengthForNumOccupied 0 ≤ data.length) :
    ∃ data', initializeTable sh data = some data' ∧ data'.length = data.length ∧
      cell data' kOccupiedEntriesIndex = .smi 0 ∧ cell data' kDeletedEntriesIndex = .smi 0 ∧
      (sh.enumIndex = true → cell data' kNextEnumIndex = .smi 0) ∧
      ∀ m, sh.firstKeyIndex ≤ m → m < data.length → cell data' m = .sentinel := by
  have hfirst := sh.two_le_firstKeyIndex
  have hlen3 : sh.firstKeyIndex < data.length := by
    have := sh.entrySize_pos
    unfold Shape.arrayLengthForNumOccupied at hlen
    omega
  set fresh : List (RawObject A) :=
    .smi 0 :: .smi 0 :: replicate (data.length-2) .sentinel with hfresh
  have hflen : fresh.length = data.length := by
    simp [hfresh]
    omega
  have hrest : ∀ m, 2 ≤ m → m < data.length → cell fresh m = .sentinel := by
    intro m h2 hm
    obtain ⟨k,rfl⟩ : ∃ k, m = k+2 := ⟨m-2,by omega⟩
    have hk : k < data.length-2 := by omega
    rw [cell,hfresh,getD_cons_succ,getD_cons_succ,getD_replicate _ hk]
  unfold initializeTable
  rw [if_pos hlen]
  cases he : sh.enumIndex with
  | false =>
    exact ⟨fresh,rfl,hflen,rfl,rfl,by simp,fun m h hm => hrest m (by omega) hm⟩
  | true =>
    have hlt := sh.kNextEnumIndex_lt he
    refine ⟨fresh.set kNextEnumIndex (.smi 0),rfl,length_set.trans hflen,rfl,rfl,
      fun _ => cell_set (by omega) _,fun m h hm => ?_⟩
    rw [cell_set_ne _ (by omega),hrest m (by omega) hm]

lemma initializeTable_spec (T : KeyTraits Key A)
    (hlen : data.length = sh.firstKeyIndex+sh.entrySize*n) (hn : 0 < n) :
    ∃ data', initializeTable sh data = some data' ∧ Inv T sh 0 n data' (fun _ => none) ∧
      countSlots n (isDeleted sh data') = 0 := by
  have hle : sh.arrayLengthForNumOccupied 0 ≤ data.length := by
    have : sh.entrySize*1 ≤ sh.entrySize*n := Nat.mul_le_mul_left _ hn
    unfold Shape.arrayLengthForNumOccupied
    omega
  obtain ⟨data',hinit,hlen',ho,hd,he,hcells⟩ := initializeTable_cells hle
  have hkey : ∀ i < n, internalGetKey sh data' i = .sentinel := by
    intro i hi
    refine hcells _ (Nat.le_add_right _ _) ?_
    rw [hlen]
    exact sh.index_lt hi sh.entrySize_pos
  have hocc : ∀ i < n, isOccupied sh data' i = false := fun i hi =>
    isOccupied_of_unused (isUnused_iff.2 (hkey i hi))
  have hdel : countSlots n (isDeleted sh data') = 0 := by
    refine countSlots_false fun i hi => ?_
    rw [isDeleted,hkey i hi]
  have hitem : ∀ i < n, item T sh data' i = none := fun i hi => item_eq_none.2 (hocc i hi)
  refine ⟨data',hinit,⟨⟨hlen'.trans hlen,.empty (T.home_lt hn) hitem,.empty hitem⟩,?_,?_,?_,
    size_empty.le,fun h => ⟨0,le_rfl,he h,fun i hi h => ?_,fun i hi _ _ h => ?_⟩⟩,hdel⟩
  · rw [ho,size_empty]
    rfl
  · rw [hd,hdel]
    rfl
  · rw [size_empty,hdel]
    exact hn
  · rw [hocc i hi] at h
    cases h
  · rw [hocc i hi] at h
    cases h

lemma newTable_spec (T : KeyTraits Key A) (sh : Shape) (capacity : ℕ) :
    ∃ data', newTable sh capacity = some data' ∧ Inv T sh 0 (capacity+1) data' (fun _ => none) ∧
      countSlots (capacity+1) (isDeleted sh data') = 0 :=
  initializeTable_spec T length_replicate (Nat.succ_pos _)

lemma enumInsert_perm {e : ℤ} (h : e ∉ xs.map Prod.fst) (j : ℕ) :
    (enumInsert e j xs).Perm ((e,j) :: xs) := by
  induction xs with
  | nil => exact List.Perm.refl _
  | cons x xs ih =>
    rw [map_cons,mem_cons,not_or] at h
    unfold enumInsert
    rw [if_neg h.1]
    split_ifs
    · exact List.Perm.refl _
    · exact ((ih h.2).cons x).trans (List.Perm.swap _ _ _)

/-- `xs` are the occupied entries below `k` with their indices. -/
def Enumerates (sh : Shape) (data : List (RawObject A)) (k : ℕ) (xs : List (ℤ × ℕ)) : Prop :=
  (xs.map Prod.snd).Perm ((List.range k).filter (isOccupied sh data ·)) ∧
    ∀ x ∈ xs, x.2 < k ∧ isOccupied sh data x.2 = true ∧
      payloadAt sh data x.2 sh.userPayloadSize = .smi x.1

lemma Enumerates.skip {k : ℕ} (h : Enumerates sh data k xs)
    (hocc : isOccupied sh data k = false) : Enumerates sh data (k+1) xs := by
  refine ⟨?_,fun x hx => ?_⟩
  · rw [range_succ,filter_append,filter_singleton,hocc]
    simpa using h.1
  · obtain ⟨h1,h2⟩ := h.2 x hx
    exact ⟨by omega,h2⟩

lemma Enumerates.insert {k : ℕ} (h : Enumerates sh data k xs) (hocc : isOccupied sh data k = true)
    {e : ℤ} (he : payloadAt sh data k sh.userPayloadSize = .smi e) (hfresh : e ∉ xs.map Prod.fst) :
    Enumerates sh data (k+1) (enumInsert e k xs) := by
  have hins := enumInsert_perm hfresh k
  refine ⟨?_,fun x hx => ?_⟩
  · rw [range_succ,filter_append,filter_singleton,hocc]
    calc (enumInsert e k xs).map Prod.snd
        |>.Perm (k :: xs.map Prod.snd) := hins.map Prod.snd
      _ |>.Perm (k :: (range k).filter (isOccupied sh data ·)) := h.1.cons k
      _ |>.Perm _ := (perm_append_singleton k _).symm
  · rcases mem_cons.1 (hins.mem_iff.1 hx) with rfl | hx
    · exact ⟨Nat.lt_succ_self k,hocc,he⟩
    · obtain ⟨h1,h2⟩ := h.2 x hx
      exact ⟨by omega,h2⟩

/-- The iterator of a table with insertion order loses no entry: indices are distinct. -/
lemma enumToEntry_spec (hlen : numEntries sh data = n) {next : ℕ} (hE : Enumerated sh n data next) :
    ∃ xs, enumToEntry sh data = some xs ∧ Enumerates sh data n xs := by
  unfold enumToEntry
  rw [hlen]
  refine Iteration.foldlM_range_total (Enumerates sh data) ⟨List.Perm.refl _,by simp⟩ ?_
  intro k hk xs hxs
  cases hocc : isOccupied sh data k with
  | false => exact ⟨xs,by simp,hxs.skip hocc⟩
  | true =>
    obtain ⟨e, -,he⟩ := hE.index k hk hocc
    have hfresh : (e : ℤ) ∉ xs.map Prod.fst := by
      intro h
      obtain ⟨x,hx,hxe⟩ := mem_map.1 h
      obtain ⟨hxk,hxo,hxp⟩ := hxs.2 x hx
      have := hE.inj x.2 (by omega) k hk hxo hocc (by rw [hxp,he,hxe])
      omega
    refine ⟨enumInsert e k xs,?_,hxs.insert hocc he hfresh⟩
    rw [if_pos rfl,payloadIndex_eq,getSmiValueAt_eq he]
    rfl

lemma Inv.iterate (hi : Inv T sh N n data F) : ∃ xs, iterate sh data = some xs ∧
      xs.Perm ((range n).filter (isOccupied sh data ·)) := by
  unfold HashTable.iterate
  cases he : sh.enumIndex with
  | false => exact ⟨_,rfl,by rw [hi.slots.numEntries]⟩
  | true =>
    obtain ⟨next, -,hE⟩ := hi.enum he
    obtain ⟨xs,hxs,henum⟩ := enumToEntry_spec hi.slots.numEntries hE
    exact ⟨_,by rw [hxs]; rfl,henum.1⟩

lemma Inv.lists (hi : Inv T sh N n data F) {xs : List ℕ}
    (hperm : xs.Perm ((range n).filter (isOccupied sh data ·))) :
    Lists (keyClass T sh data) (contents sh data) xs F ∧ xs.length = size F := by
  have hget : ∀ i < n, (range n).getD i 0 = i := fun i hin => by
    simp [hin]
  have hl : Layout (range n).length (T.home n) (isUnused sh data) (item T sh data) := by
    rw [length_range]
    exact hi.slots.layout
  have hr : Represents (range n).length (item T sh data) F := by
    rw [length_range]
    exact hi.slots.represents
  have hitem : ∀ i < (range n).length, item T sh data i =
      (if isOccupied sh data ((range n).getD i 0) then some ((range n).getD i 0)
        else none).map fun i => (keyClass T sh data i,contents sh data i) := by
    intro i hin
    rw [length_range] at hin
    rw [hget i hin,item]
    split_ifs <;> rfl
  obtain ⟨hlists,hlength⟩ := hl.lists (g := fun i => if isOccupied sh data i then some i else none)
    hr hitem
  have hfilter : (range n).filterMap (fun i => if isOccupied sh data i then some i else none) =
      (range n).filter (isOccupied sh data ·) := by
    rw [← filterMap_eq_filter]
    rfl
  rw [hfilter] at hlists hlength
  exact ⟨hlists.perm hperm.symm,hperm.length_eq.trans hlength⟩

/-- The first `k` components of the payload of entry `j` of `data` are copied to entry `i`. -/
structure Copied (sh : Shape) (data dst : List (RawObject A)) (j i k : ℕ)
    (dst' : List (RawObject A)) : Prop where
  write : Payload sh i dst dst'
  done : ∀ c < k, payloadAt sh dst' i c = payloadAt sh data j c
  rest : ∀ c, k ≤ c → payloadAt sh dst' i c = payloadAt sh dst i c

lemma copyPayload_spec (hs : Slots T sh n data F) (hj : j < n)
    (hjo : isOccupied sh data j = true) (hlen : dst.length = sh.firstKeyIndex+sh.entrySize*m)
    (him : i < m) (hio : isOccupied sh dst i = true) :
    ∃ dst', (range sh.userPayloadSize).foldlM (fun dst c => do
        let value ← getPayload sh data j c
        updatePayload sh dst i c value) dst = some dst' ∧
      Copied sh data dst j i sh.userPayloadSize dst' := by
  refine Iteration.foldlM_range_total (Copied sh data dst j i)
    ⟨.refl sh i dst,by simp,fun _ _ => rfl⟩ fun c hc t ht => ?_
  have hcp : c < sh.payloadSize := hc.trans_le sh.userPayloadSize_le
  have htlen : t.length = sh.firstKeyIndex+sh.entrySize*m := ht.write.off.length.trans hlen
  have hlt : sh.keyIndex i+(1+c) < t.length := by
    rw [htlen]
    exact sh.index_lt him (Nat.add_lt_add_left hcp 1)
  refine ⟨t.set (sh.keyIndex i+(1+c)) (payloadAt sh data j c),?_,ht.write.set hcp _,
    fun c' hc' => ?_,fun c' hc' => ?_⟩
  · rw [getPayload_eq hs hj hjo hcp]
    exact updatePayload_eq (numEntries_eq htlen) him ((ht.write.occupied i).trans hio) hcp _
  · rw [payloadAt_set hlt]
    split_ifs with h
    · rw [h]
    · exact ht.done c' (by omega)
  · rw [payloadAt_set hlt,if_neg (by omega)]
    exact ht.rest c' (by omega)

lemma Copied.contents {dst' : List (RawObject A)}
    (h : Copied sh data dst j i sh.userPayloadSize dst')
    (hkey : internalGetKey sh dst i = internalGetKey sh data j) :
    contents sh dst' i = contents sh data j := by
  unfold HashTable.contents
  rw [h.write.key,hkey,userPayload,userPayload,
    map_congr_left fun c hc => h.done c (mem_range.1 hc)]

variable (hi : Inv T sh N n data F)
include hi

lemma copyEntry_spec [DecidableEq T.Class] (hj : j < n) (hjo : isOccupied sh data j = true) {M : ℕ}
    (hd : Inv T sh M m dst G) (hdel : countSlots m (isDeleted sh dst) = 0)
    (habs : G (keyClass T sh data j) = none) (hroom : size G+1 < m)
    (hM : sh.enumIndex = true → M < kSmiMax) : ∃ dst', copyEntry T sh data dst j = some dst' ∧
      Inv T sh (M+1) m dst' (Function.update G (keyClass T sh data j) (some (contents sh data j))) ∧
      countSlots m (isDeleted sh dst') = 0 := by
  have hkey : (internalGetKey sh data j).isKey = true := by rwa [← isOccupied_eq_isKey]
  obtain ⟨i,present,hfind,hres⟩ :=
    hd.findKeyOrDeletedOrUnused (T.ofObject (internalGetKey sh data j))
  cases present with
  | true =>
    obtain ⟨-, -, -,hsome⟩ := hres
    rw [keyClass,hsome] at habs
    cases habs
  | false =>
    obtain ⟨-,hv⟩ := hres
    obtain ⟨mid,hins,hinserted,hmid⟩ := hd.insertKey hkey hv rfl habs (by omega) hM
    have hmo := hinserted.occupied hkey
    obtain ⟨dst',hcopy,hcopied⟩ :=
      copyPayload_spec hi.slots hj hjo hmid.slots.length hv.lt hmo
    have hclass : keyClass T sh mid i = keyClass T sh data j := by
      rw [keyClass,hinserted.key,keyClass]
    refine ⟨dst',?_,?_,?_⟩
    · unfold copyEntry
      rw [if_pos hjo]
      simp only [hfind,some_bind,hins]
      exact hcopy
    · have := hmid.update hcopied.write hv.lt hmo fun _ => hcopied.rest _ le_rfl
      rw [hclass,hcopied.contents hinserted.key] at this
      rwa [← keyClass,Function.update_idem] at this
    · have hle := countSlots_change (q := isDeleted sh mid) hv.lt
        fun j' _ hj' => hinserted.off.deleted hj'
      have hnot : isDeleted sh mid i = false := by
        rw [isOccupied,Bool.and_eq_true,Bool.not_eq_true',Bool.not_eq_true'] at hmo
        exact hmo.2
      rw [hnot,hdel] at hle
      rw [countSlots_congr fun j' _ => hcopied.write.deleted j']
      simp only [Bool.false_eq_true,if_false] at hle
      omega

lemma copy_spec [DecidableEq T.Class] (hlen : dst.length = sh.firstKeyIndex+sh.entrySize*m)
    (hm : size F+1 < m) (hN : sh.enumIndex = true → N ≤ kSmiMax) : ∃ dst', copy T sh data dst =
      some dst' ∧ Inv T sh N m dst' F ∧ countSlots m (isDeleted sh dst') = 0 := by
  obtain ⟨fresh,hfresh,hinit,hdel⟩ := initializeTable_spec T hlen (by omega)
  obtain ⟨xs,hxs,hperm⟩ := hi.iterate
  obtain ⟨hlists,hlength⟩ := hi.lists hperm
  have hmem : ∀ j ∈ xs, j < n ∧ isOccupied sh data j = true := fun j hj => by
    simpa using hperm.mem_iff.1 hj
  obtain ⟨dst',hfold,hdst,hdel'⟩ := rebuild
    (fun t G => Inv T sh (size G) m t G ∧ countSlots m (isDeleted sh t) = 0)
    ⟨by rw [size_empty]; exact hinit,hdel⟩ (fun t G j hj ht habs hsize => by
      obtain ⟨hjn,hjo⟩ := hmem j hj
      have hle := hi.size_le
      obtain ⟨u,hu,hinv,hdu⟩ := copyEntry_spec hi hjn hjo ht.1 ht.2 habs (by omega)
        fun he => by have := hN he; omega
      rw [← size_update_absent ht.1.slots.represents.finite habs] at hinv
      exact ⟨u,hu,hinv,hdu⟩) hlists hlength.le
  refine ⟨dst',?_,hdst.mono hi.size_le,hdel'⟩
  unfold copy
  have hguard : (size F : ℤ) < (m : ℤ) := by omega
  rw [hfresh]
  simp only [some_bind,hi.numOccupied,hinit.slots.numEntries,if_pos hguard,hxs]
  exact hfold

lemma Inv.ensureCapacity [DecidableEq T.Class]
    (hN : sh.enumIndex = true → N ≤ kSmiMax) : ∃ m data', ensureCapacity T sh data = some data' ∧
      Inv T sh N m data' F ∧ size F+countSlots m (isDeleted sh data')+1 < m := by
  have hnum : numDeleted data = some (countSlots n (isDeleted sh data) : ℤ) :=
    getSmiValueAt_eq hi.deleted
  have hn : (0 : ℚ) < n := by
    have := hi.room
    exact_mod_cast (by omega)
  unfold HashTable.ensureCapacity ensureLoadFactor kMaxLoadFactor
  rw [hi.numOccupied,hnum]
  simp only [some_bind,hi.slots.numEntries]
  split_ifs with hload
  · refine ⟨n,data,rfl,hi,?_⟩
    have hlt := hload.2
    rw [div_lt_iff₀ hn] at hlt
    have : (4*(1+size F+countSlots n (isDeleted sh data)) : ℚ) < 3*n := by
      push_cast at hlt
      linarith
    have : 4*(1+size F+countSlots n (isDeleted sh data)) < 3*n := by exact_mod_cast this
    omega
  · set capacity := ⌊(1+((size F : ℤ) : ℚ))/((0+3/4)/2)⌋ with hcapacity
    have hcap : (1+size F : ℤ) ≤ capacity := by
      rw [hcapacity,Int.le_floor]
      push_cast
      rw [le_div_iff₀ (by norm_num)]
      linarith
    obtain ⟨fresh,hfresh,hinit, -⟩ := newTable_spec T sh capacity.toNat
    obtain ⟨dst',hcopy,hinv,hdel⟩ := copy_spec hi hinit.slots.length (by omega) hN
    refine ⟨capacity.toNat+1,dst',?_,hinv,by omega⟩
    rw [hfresh]
    exact hcopy

end DartSdk.HashTable
